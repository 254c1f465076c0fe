import Mathlib.Data.List.DropRight
import Reins.Backend.McpTools

/-!
# An MCP server's fields (`backend/src/extensions/mcp/server.ts`, `input.ts`, `store.ts`)

What the user configures of a server, the check of it, and what an update makes of it. A stored server's
fields are as the check gives them, so that it leaves them as they are.
-/

namespace Reins.McpServers

open Schema Utf
open CodeReviews (trim isWhiteSpace)
open McpTools (isServerName truthy)

inductive McpAuthKind
  | oauth
  | header
  | none
  deriving DecidableEq

inductive McpTransportKind
  | http
  | sse
  deriving DecidableEq

structure McpServerFields where
  name : JsString
  instructions : JsString
  url : JsString
  transport : McpTransportKind
  authKind : McpAuthKind
  headerName : Option JsString
  oauthClientId : Option JsString
  oauthScope : Option JsString
  enabled : Bool
  deriving DecidableEq

/-- What an update or a creation is refused with. -/
inductive Error
  | invalidMcpServer (message : JsString)
  | nameTaken (name : JsString)
  | notFound
  | storage
  deriving DecidableEq

def Error.message (serverId : Nat) : Error → Option JsString
  | .invalidMcpServer message => some message
  | .nameTaken name => some (js "An MCP server is already named " ++ name)
  | .notFound => some (js "MCP server not found: " ++ CodeReviews.number serverId)
  | .storage => none

def trimmedOrNull (value : Option JsString) : Option JsString := truthy (value.map trim)

/-- ``[!#$%&'*+.^_`|~0-9A-Za-z-]``. -/
def isHeaderNameUnit (u : UInt16) : Bool :=
  u = 0x21 || 0x23 ≤ u && u ≤ 0x27 || u = 0x2A || u = 0x2B || u = 0x2D || u = 0x2E || 0x30 ≤ u && u ≤ 0x39 ||
    0x41 ≤ u && u ≤ 0x5A || 0x5E ≤ u && u ≤ 0x7A || u = 0x7C || u = 0x7E

def isHeaderName (name : JsString) : Bool := !name.isEmpty && name.all isHeaderNameUnit

def trimmed (fields : McpServerFields) : McpServerFields :=
  { fields with
    name := trim fields.name
    url := trim fields.url
    instructions := trim fields.instructions
    headerName := if fields.authKind = .header then trimmedOrNull fields.headerName else none
    oauthClientId := if fields.authKind = .oauth then trimmedOrNull fields.oauthClientId else none
    oauthScope := if fields.authKind = .oauth then trimmedOrNull fields.oauthScope else none }

def validMcpServerFields (protocol : JsString → Option JsString) (fields : McpServerFields) :
    Except Error McpServerFields :=
  let stored := trimmed fields
  if !isServerName stored.name then
    .error (.invalidMcpServer (js
      "Name must start with a lowercase letter and have only lowercase letters, digits and hyphens (at most 32)"))
  else
    match protocol stored.url with
    | none => .error (.invalidMcpServer (js "Not a URL: " ++ stored.url))
    | some p =>
      if p ≠ js "https:" ∧ p ≠ js "http:" then .error (.invalidMcpServer (js "The URL must be http or https"))
      else if fields.authKind = .header ∧ ¬(stored.headerName.any isHeaderName) then
        .error (.invalidMcpServer (js "Header authentication needs a valid header name"))
      else .ok stored

/-- A change: what is left out is kept; a secret given as null is removed. -/
structure McpServerUpdate where
  name : Option JsString
  instructions : Option JsString
  url : Option JsString
  transport : Option McpTransportKind
  authKind : Option McpAuthKind
  headerName : Option (Option JsString)
  headerValue : Option (Option JsString)
  oauthClientId : Option (Option JsString)
  oauthClientSecret : Option (Option JsString)
  oauthScope : Option (Option JsString)
  enabled : Option Bool
  deriving DecidableEq

def McpServerUpdate.keep : McpServerUpdate :=
  { name := none, instructions := none, url := none, transport := none, authKind := none, headerName := none
    headerValue := none, oauthClientId := none, oauthClientSecret := none, oauthScope := none, enabled := none }

/-- What is checked, of a row as it was read. -/
def McpServerUpdate.merge (update : McpServerUpdate) (before : McpServerFields) : McpServerFields :=
  { name := update.name.getD before.name
    instructions := update.instructions.getD before.instructions
    url := update.url.getD before.url
    transport := update.transport.getD before.transport
    authKind := update.authKind.getD before.authKind
    headerName := update.headerName.getD before.headerName
    oauthClientId := update.oauthClientId.getD before.oauthClientId
    oauthScope := update.oauthScope.getD before.oauthScope
    enabled := update.enabled.getD before.enabled }

/-- What the update gives of a secret, if more than null or the empty string. -/
def McpServerUpdate.value (secret : Option (Option JsString)) : Option JsString := truthy secret.join

/-- Whether the update also signs the server out. -/
def reauthorize (before fields : McpServerFields) : Bool :=
  fields.url ≠ before.url || fields.authKind ≠ before.authKind || fields.oauthClientId ≠ before.oauthClientId

/-! ## Fields as stored -/

theorem trim_eq (s : JsString) : trim s = (s.dropWhile isWhiteSpace).rdropWhile isWhiteSpace := rfl

theorem trim_trim (s : JsString) : trim (trim s) = trim s := by
  -- what is left begins as it did before its end was dropped
  have hstart : (trim s).dropWhile isWhiteSpace = trim s := by
    rw [List.dropWhile_eq_self_iff]
    intro hne
    have hinitial : trim s <+: s.dropWhile isWhiteSpace := by
      rw [trim_eq]
      exact List.rdropWhile_prefix ..
    have hlt : 0 < (s.dropWhile isWhiteSpace).length := Nat.lt_of_lt_of_le hne hinitial.length_le
    rw [hinitial.getElem hne]
    exact List.dropWhile_eq_self_iff.mp (List.dropWhile_idempotent _ _) hlt
  rw [trim_eq (trim s), hstart, trim_eq s]
  exact List.rdropWhile_idempotent ..

theorem trimmedOrNull_trimmedOrNull (value : Option JsString) :
    trimmedOrNull (trimmedOrNull value) = trimmedOrNull value := by
  unfold trimmedOrNull
  cases value with
  | none => rfl
  | some s => by_cases hs : trim s = [] <;> simp [truthy, Option.filter, hs, trim_trim]

def Normal (fields : McpServerFields) : Prop := trimmed fields = fields

theorem trimmed_normal (fields : McpServerFields) : Normal (trimmed fields) := by
  unfold Normal trimmed
  by_cases hheader : fields.authKind = .header
  · simp [hheader, trim_trim, trimmedOrNull_trimmedOrNull]
  by_cases hoauth : fields.authKind = .oauth
  · simp [hoauth, trim_trim, trimmedOrNull_trimmedOrNull]
  · simp [hheader, hoauth, trim_trim]

theorem valid_eq {protocol : JsString → Option JsString} {fields stored : McpServerFields}
    (h : validMcpServerFields protocol fields = .ok stored) : stored = trimmed fields := by
  unfold validMcpServerFields at h
  dsimp only at h
  split at h
  · cases h
  split at h
  · cases h
  split at h
  · cases h
  split at h
  · cases h
  · cases h
    rfl

end Reins.McpServers
