import Reins.Backend.TaskBranches

/-!
# MCP tools by their ids (`backend/src/extensions/mcp/tools.ts`)

A server's tools as agents find and call them: a search gives each tool a local id, `<server>__<tool>`, and a
call finds the server and the tool from the id again, over the tools the server lists then. The tools' names
are the server's, any strings; `sha256` is `createHash`'s, and the SDK's `tools.match` any choice of tools.
-/

namespace Reins.McpTools

open Schema Utf
open CodeReviews (trim isWhiteSpace join)
open TaskBranches (toLowerCase)

structure McpTool where
  name : JsString
  title : Option JsString
  description : Option JsString
  inputSchema : Json
  outputSchema : Option Json
  annotations : Option Json

structure Tool where
  id : JsString
  name : JsString
  title : Option JsString
  description : Option JsString
  inputSchema : Json
  outputSchema : Option Json
  annotations : Option Json

/-! ## Ids -/

abbrev Sha256 := List UInt8 → Vector UInt8 32

def underscore : UInt16 := 0x5F

def hyphen : UInt16 := 0x2D

def SEPARATOR : JsString := [underscore, underscore]

/-- `[a-zA-Z0-9_-]`. -/
def isIdUnit (u : UInt16) : Bool :=
  0x61 ≤ u && u ≤ 0x7A || 0x41 ≤ u && u ≤ 0x5A || 0x30 ≤ u && u ≤ 0x39 || u = underscore || u = hyphen

def base (server name : JsString) : JsString :=
  server ++ SEPARATOR ++ name.map fun u => if isIdUnit u then u else underscore

/-- `toString(16)` of a number below 16. -/
def hexDigit (n : UInt8) : UInt16 := if n < 10 then 0x30 + n.toUInt16 else 0x57 + n.toUInt16

def hex (bytes : List UInt8) : JsString := bytes.flatMap fun b => [hexDigit (b / 16), hexDigit (b % 16)]

def hashOf (sha256 : Sha256) (name : JsString) : JsString := (hex (sha256 (encode (scalars name))).toList).take 8

/-- `slice(0, n)`; a negative `n` counts from the end. -/
def sliceTo (s : JsString) (n : Int) : JsString := if n < 0 then s.take (s.length - n.natAbs) else s.take n.toNat

/-- The id is short enough, and no other tool's. -/
def fits (server : JsString) (tools : List McpTool) (maxLength : Nat) (name : JsString) : Bool :=
  (base server name).length ≤ maxLength && tools.countP (fun t => base server t.name = base server name) = 1

def cut (sha256 : Sha256) (server : JsString) (maxLength : Nat) (name : JsString) : JsString :=
  sliceTo (base server name) ((maxLength : Int) - (hashOf sha256 name).length - 1)

def toolId (sha256 : Sha256) (server : JsString) (tools : List McpTool) (maxLength : Nat) (name : JsString) : JsString :=
  if fits server tools maxLength name then base server name
  else cut sha256 server maxLength name ++ underscore :: hashOf sha256 name

def mcpToolIds (sha256 : Sha256) (server : JsString) (tools : List McpTool) (maxLength : Nat) :
    List (JsString × JsString) :=
  tools.map fun t => (t.name, toolId sha256 server tools maxLength t.name)

def truthy (s : Option JsString) : Option JsString := s.filter (· ≠ [])

def asTool (id : JsString) (tool : McpTool) : Tool :=
  { tool with id := id, title := truthy tool.title, description := truthy tool.description }

def asTools (sha256 : Sha256) (server : JsString) (tools : List McpTool) (maxLength : Nat) : List Tool :=
  tools.map fun tool => asTool (toolId sha256 server tools maxLength tool.name) tool

/-! ## Servers -/

def isLower (u : UInt16) : Bool := 0x61 ≤ u && u ≤ 0x7A

/-- `MCP_SERVER_NAME_PATTERN`. -/
def isServerName : JsString → Bool
  | [] => false
  | u :: rest => isLower u && rest.all (fun u => isLower u || 0x30 ≤ u && u ≤ 0x39 || u = hyphen) && rest.length ≤ 31

/-- A server, and what `listTools` answers, connecting if needed. -/
structure Server where
  id : Nat
  name : JsString
  enabled : Bool
  tools : Except JsString (List McpTool)
  valid : isServerName name

structure Servers where
  list : List Server
  unique : (list.map (·.name)).Nodup

def Servers.find (servers : Servers) (server : JsString) : Except JsString Server :=
  match servers.list.find? (·.name = (trim server).flatMap toLowerCase) with
  | some found => .ok found
  | none => .error (js "MCP server not found: " ++ server ++ js " (the servers: " ++
      (if servers.list.isEmpty then js "none" else join (js ", ") (servers.list.map (·.name))) ++ js ")")

/-! ## The provider -/

/-- What `reins.tools` gives it. -/
structure Tools where
  maxLocalIdLength : Nat
  matching : JsString → List Tool → List Tool
  mem_of_matching : ∀ query tools, ∀ tool ∈ matching query tools, tool ∈ tools

section

variable (sha256 : Sha256) (sdk : Tools) (extension : JsString) (servers : Servers)

def searchServer (server query : JsString) : Except JsString (List Tool) :=
  match servers.find server with
  | .error message => .error message
  | .ok model =>
    match model.tools with
    | .error message => .error message
    | .ok listed => .ok (sdk.matching query (asTools sha256 model.name listed sdk.maxLocalIdLength))

def errorOf {α : Type} : Except JsString α → Option JsString
  | .ok _ => none
  | .error message => some message

def search (query : JsString) : (filter : Option JsString) → Except JsString (List Tool)
  | some server => searchServer sha256 sdk servers server query
  | none =>
    let results := (servers.list.filter (·.enabled)).map fun server => searchServer sha256 sdk servers server.name query
    let found := results.flatMap fun result => result.toOption.getD []
    let failures := results.filterMap errorOf
    if found.isEmpty && !failures.isEmpty then
      .error (js "No tool matches; these servers could not be searched: " ++ join (js "; ") failures)
    else .ok (sdk.matching query found)

def indexOf (separator : JsString) : JsString → Option Nat
  | [] => if separator.isEmpty then some 0 else none
  | u :: rest => if separator.isPrefixOf (u :: rest) then some 0 else (indexOf separator rest).map (· + 1)

def call (localId : JsString) : Except JsString (Nat × JsString) :=
  let id := extension ++ SEPARATOR ++ localId
  match (indexOf SEPARATOR localId).filter (· ≠ 0) with
  | none => .error (js "Unknown tool " ++ id ++ js ": an MCP tool's ID is " ++ extension ++ js "__<server>__<tool>")
  | some n =>
    let server := localId.take n
    match servers.find server with
    | .error _ => .error (js "Unknown tool " ++ id ++ js ": there is no MCP server " ++ server)
    | .ok model =>
      match model.tools with
      | .error message => .error message
      | .ok listed =>
        match (mcpToolIds sha256 model.name listed sdk.maxLocalIdLength).find? (·.2 = localId) with
        | some (name, _) => .ok (model.id, name)
        | none => .error (js "Unknown tool " ++ id ++ js ": " ++ model.name ++
            js " has no such tool. Find its tools with reins.tools.search(query, \x7b filters: \x7b server: " ++
            (Json.stringify (.str model.name)).flatMap units ++ js " \x7d \x7d).")

end

/-! ## What an id looks like -/

section

variable {sha256 : Sha256} {server name : JsString} {tools : List McpTool} {maxLength : Nat}

theorem hex_length (bytes : List UInt8) : (hex bytes).length = 2 * bytes.length := by
  induction bytes with
  | nil => rfl
  | cons b bytes ih =>
    simp only [hex, List.flatMap_cons, List.length_append, List.length_cons, List.length_nil] at ih ⊢
    omega

@[simp] theorem hashOf_length (sha256 : Sha256) (name : JsString) : (hashOf sha256 name).length = 8 := by
  simp [hashOf, hex_length]

theorem cut_eq (h : server.length + 2 + 8 ≤ maxLength) :
    cut sha256 server maxLength name = (base server name).take (maxLength - 9) := by
  unfold cut sliceTo
  rw [hashOf_length, if_neg (by omega)]
  congr 1
  omega

theorem toolId_length (h : server.length + 2 + 8 ≤ maxLength) :
    (toolId sha256 server tools maxLength name).length ≤ maxLength := by
  unfold toolId
  split
  next hfits =>
    simp only [fits, Bool.and_eq_true, decide_eq_true_eq] at hfits
    exact hfits.1
  · rw [cut_eq h, List.length_append, List.length_take, List.length_cons, hashOf_length]
    omega

theorem toolId_server (h : server.length + 2 + 8 ≤ maxLength) :
    ∃ rest, toolId sha256 server tools maxLength name = server ++ SEPARATOR ++ rest := by
  unfold toolId
  split
  · exact ⟨_, rfl⟩
  rw [cut_eq h, base]
  by_cases hcut : maxLength - 9 = server.length + 1
  · -- The cut is inside the separator, and the hash's `_` makes up for it.
    refine ⟨hashOf sha256 name, ?_⟩
    rw [hcut, List.append_assoc, List.take_length_add_append]
    simp [SEPARATOR]
  · obtain ⟨n, hn⟩ := Nat.exists_eq_add_of_le (show server.length + 2 ≤ maxLength - 9 by omega)
    refine ⟨((name.map fun u => if isIdUnit u then u else underscore).take n) ++ underscore :: hashOf sha256 name, ?_⟩
    rw [hn, show server.length + 2 = (server ++ SEPARATOR).length by simp [SEPARATOR], List.take_length_add_append]
    simp

/-! ## A server by its name -/

theorem isServerName_unit (h : isServerName server) : ∀ u ∈ server, isLower u ∨ 0x30 ≤ u ∧ u ≤ 0x39 ∨ u = hyphen := by
  intro u hu
  cases server with
  | nil => cases hu
  | cons v rest =>
    simp only [isServerName, Bool.and_eq_true, List.all_eq_true, Bool.or_eq_true, decide_eq_true_eq, or_assoc] at h
    rcases List.mem_cons.mp hu with rfl | hu
    · exact .inl h.1.1
    · exact h.1.2 u hu

/-- A unit of a name is not `_`, white space or a capital letter. -/
theorem isServerName_plain (h : isServerName server) {u : UInt16} (hu : u ∈ server) :
    u ≠ underscore ∧ isWhiteSpace u = false ∧ toLowerCase u = [u] := by
  have hunit := isServerName_unit h u hu
  simp only [isLower, Bool.and_eq_true, decide_eq_true_eq, hyphen, UInt16.le_iff_toNat_le, ← UInt16.toNat_inj] at hunit
  simp only [isWhiteSpace, toLowerCase, underscore, Bool.or_eq_false_iff, Bool.and_eq_false_iff, decide_eq_false_iff_not,
    Bool.and_eq_true, decide_eq_true_eq, UInt16.le_iff_toNat_le, ne_eq, ← UInt16.toNat_inj]
  simp only [UInt16.reduceToNat] at hunit ⊢
  refine ⟨by omega, by omega, ?_⟩
  rw [if_neg (by omega), if_neg (by omega), if_neg (by omega)]

theorem indexOf_server (h : ∀ u ∈ server, u ≠ underscore) (rest : JsString) :
    indexOf SEPARATOR (server ++ SEPARATOR ++ rest) = some server.length := by
  induction server with
  | nil => simp [indexOf, SEPARATOR]
  | cons u server ih =>
    have hu : u ≠ underscore := h u (List.mem_cons_self ..)
    have ih := ih fun v hv => h v (List.mem_cons_of_mem u hv)
    simp only [List.cons_append, indexOf]
    rw [if_neg (by simp [SEPARATOR, hu.symm]), ih]
    rfl

theorem trim_of_plain {s : JsString} (h : ∀ u ∈ s, isWhiteSpace u = false) : trim s = s := by
  have hdrop (t : JsString) (ht : ∀ u ∈ t, isWhiteSpace u = false) : t.dropWhile isWhiteSpace = t := by
    cases t with
    | nil => rfl
    | cons u t => exact List.dropWhile_cons_of_neg (by simp [ht u (List.mem_cons_self ..)])
  unfold trim
  rw [hdrop s h, hdrop _ fun u hu => h u (List.mem_reverse.mp hu), List.reverse_reverse]

theorem find_name (servers : Servers) {m : Server} (hm : m ∈ servers.list) : servers.find m.name = .ok m := by
  have hplain (u : UInt16) (hu : u ∈ m.name) := isServerName_plain m.valid hu
  have htrim : trim m.name = m.name := trim_of_plain fun u hu => (hplain u hu).2.1
  have hlower : m.name.flatMap toLowerCase = m.name := by
    calc m.name.flatMap toLowerCase = m.name.flatMap fun u => [u] := List.flatMap_congr fun u hu => (hplain u hu).2.2
      _ = m.name := List.flatMap_singleton' _
  unfold Servers.find
  rw [htrim, hlower]
  have hfound : (servers.list.find? (·.name = m.name)).isSome := List.find?_isSome.mpr ⟨m, hm, by simp⟩
  obtain ⟨m', hm'⟩ := Option.isSome_iff_exists.mp hfound
  have hname := List.find?_some hm'
  simp only [decide_eq_true_eq] at hname
  obtain rfl := List.inj_on_of_nodup_map servers.unique (List.mem_of_find?_eq_some hm') hm hname
  rw [hm']

theorem call_toolId (sdk : Tools) (extension : JsString) (servers : Servers) {m : Server} (hm : m ∈ servers.list)
    (htools : m.tools = .ok tools) (hmax : m.name.length + 2 + 8 ≤ sdk.maxLocalIdLength) {t : McpTool} (ht : t ∈ tools) :
    ∃ w ∈ tools, toolId sha256 m.name tools sdk.maxLocalIdLength w.name =
        toolId sha256 m.name tools sdk.maxLocalIdLength t.name ∧
      call sha256 sdk extension servers (toolId sha256 m.name tools sdk.maxLocalIdLength t.name) = .ok (m.id, w.name) := by
  obtain ⟨rest, hid⟩ := @toolId_server sha256 _ t.name tools _ hmax
  have hindex : (indexOf SEPARATOR (m.name ++ SEPARATOR ++ rest)).filter (· ≠ 0) = some m.name.length := by
    rw [indexOf_server (fun u hu => (isServerName_plain m.valid hu).1), Option.filter_eq_some_iff]
    refine ⟨rfl, ?_⟩
    have hname := m.valid
    cases hn : m.name with
    | nil => simp [hn, isServerName] at hname
    | cons u name => simp
  have htake : (m.name ++ SEPARATOR ++ rest).take m.name.length = m.name := by
    rw [List.append_assoc, List.take_left']
    rfl
  have hsome : ((mcpToolIds sha256 m.name tools sdk.maxLocalIdLength).find?
      (·.2 = m.name ++ SEPARATOR ++ rest)).isSome :=
    List.find?_isSome.mpr ⟨_, List.mem_map.mpr ⟨t, ht, rfl⟩, by simp [hid]⟩
  obtain ⟨⟨name, id⟩, hfound⟩ := Option.isSome_iff_exists.mp hsome
  obtain ⟨w, hw, hentry⟩ := List.mem_map.mp (List.mem_of_find?_eq_some hfound)
  cases hentry
  refine ⟨w, hw, ?_, ?_⟩
  · simpa [hid] using List.find?_some hfound
  · rw [hid]
    simp only [call, hindex, htake, find_name servers hm, htools, hfound]

/-! ## When an id is one tool's -/

/-- No fitting name of a tool spells the cut and the hash of another's, and no two that need a hash share both. -/
structure NoClash (sha256 : Sha256) (server : JsString) (tools : List McpTool) (maxLength : Nat) : Prop where
  natural : ∀ t ∈ tools, ∀ u ∈ tools, fits server tools maxLength t.name → ¬ fits server tools maxLength u.name →
    base server t.name ≠ (base server u.name).take (maxLength - 9) ++ underscore :: hashOf sha256 u.name
  hashed : ∀ t ∈ tools, ∀ u ∈ tools, ¬ fits server tools maxLength t.name → ¬ fits server tools maxLength u.name →
    (base server t.name).take (maxLength - 9) = (base server u.name).take (maxLength - 9) →
    hashOf sha256 t.name = hashOf sha256 u.name → t.name = u.name

def Distinct (sha256 : Sha256) (server : JsString) (tools : List McpTool) (maxLength : Nat) : Prop :=
  ∀ t ∈ tools, ∀ u ∈ tools,
    toolId sha256 server tools maxLength t.name = toolId sha256 server tools maxLength u.name → t.name = u.name

theorem base_inj_of_fits {t u : McpTool} (ht : t ∈ tools) (hu : u ∈ tools) (hfits : fits server tools maxLength t.name)
    (h : base server u.name = base server t.name) : u.name = t.name := by
  simp only [fits, Bool.and_eq_true, decide_eq_true_eq, List.countP_eq_length_filter, List.length_eq_one_iff] at hfits
  obtain ⟨-, x, hx⟩ := hfits
  have hmem (v : McpTool) (hv : v ∈ tools) (hbase : base server v.name = base server t.name) : v = x :=
    List.mem_singleton.mp (hx ▸ List.mem_filter.mpr ⟨hv, by simp [hbase]⟩)
  rw [hmem u hu h, hmem t ht rfl]

theorem distinct_iff (hmax : server.length + 2 + 8 ≤ maxLength) :
    Distinct sha256 server tools maxLength ↔ NoClash sha256 server tools maxLength := by
  have hnatural (t : McpTool) (h : fits server tools maxLength t.name) :
      toolId sha256 server tools maxLength t.name = base server t.name := if_pos h
  have hhashed (t : McpTool) (h : ¬ fits server tools maxLength t.name) : toolId sha256 server tools maxLength t.name =
      (base server t.name).take (maxLength - 9) ++ underscore :: hashOf sha256 t.name := by
    rw [toolId, if_neg h, cut_eq hmax]
  constructor
  · intro h
    constructor
    · intro t ht u hu hft hfu heq
      have hname := h t ht u hu (by rw [hnatural t hft, hhashed u hfu, heq])
      rw [hname] at hft
      exact hfu hft
    · intro t ht u hu hft hfu hcut hhash
      exact h t ht u hu (by rw [hhashed t hft, hhashed u hfu, hcut, hhash])
  · intro h t ht u hu heq
    by_cases hft : fits server tools maxLength t.name <;> by_cases hfu : fits server tools maxLength u.name
    · rw [hnatural t hft, hnatural u hfu] at heq
      exact (base_inj_of_fits ht hu hft heq.symm).symm
    · rw [hnatural t hft, hhashed u hfu] at heq
      exact absurd heq (h.natural t ht u hu hft hfu)
    · rw [hhashed t hft, hnatural u hfu] at heq
      exact absurd heq.symm (h.natural u hu t ht hfu hft)
    · rw [hhashed t hft, hhashed u hfu] at heq
      obtain ⟨hcut, hhash⟩ := List.append_inj' heq (by simp)
      exact h.hashed t ht u hu hft hfu hcut (List.cons_inj_right _ |>.mp hhash)

theorem search_ids {sdk : Tools} {servers : Servers} {query : JsString} {filter : Option JsString} {found : List Tool}
    (h : search sha256 sdk servers query filter = .ok found) : ∀ tool ∈ found, ∃ m ∈ servers.list, ∃ tools,
      m.tools = .ok tools ∧ ∃ w ∈ tools, tool.name = w.name ∧
        tool.id = toolId sha256 m.name tools sdk.maxLocalIdLength w.name := by
  have hserver {server : JsString} {found : List Tool} (h : searchServer sha256 sdk servers server query = .ok found) :
      ∀ tool ∈ found, ∃ m ∈ servers.list, ∃ tools, m.tools = .ok tools ∧ ∃ w ∈ tools, tool.name = w.name ∧
        tool.id = toolId sha256 m.name tools sdk.maxLocalIdLength w.name := by
    unfold searchServer at h
    split at h
    · cases h
    rename_i m hm
    split at h
    · cases h
    rename_i tools htools
    cases h
    intro tool htool
    obtain ⟨w, hw, rfl⟩ := List.mem_map.mp (sdk.mem_of_matching _ _ tool htool)
    refine ⟨m, ?_, tools, htools, w, hw, rfl, rfl⟩
    unfold Servers.find at hm
    split at hm
    next found hfound =>
      cases hm
      exact List.mem_of_find?_eq_some hfound
    · cases hm
  cases filter with
  | some server => exact hserver h
  | none =>
    simp only [search] at h
    split at h
    · cases h
    cases h
    intro tool htool
    have hmem := sdk.mem_of_matching _ _ tool htool
    obtain ⟨result, hresult, htool⟩ := List.mem_flatMap.mp hmem
    obtain ⟨m, -, rfl⟩ := List.mem_map.mp hresult
    cases hr : searchServer sha256 sdk servers m.name query with
    | error message =>
      rw [hr] at htool
      cases htool
    | ok found =>
      rw [hr] at htool
      exact hserver hr tool htool

end

def Calls (sha256 : Sha256) (sdk : Tools) (extension : JsString) (m : Server) (tools : List McpTool) : Prop :=
  ∀ (servers : Servers) (m' : Server), m' ∈ servers.list → m'.id = m.id → m'.name = m.name → m'.tools = .ok tools →
    ∀ t ∈ tools, call sha256 sdk extension servers (toolId sha256 m.name tools sdk.maxLocalIdLength t.name) =
      .ok (m.id, t.name)

/-- **A tool's id is its own, and calls it, unless names clash**: what a search finds are the servers' tools by
their ids, each no longer than it may be; the ids of a server's tools differ, and each calls its tool for as long
as the server lists the same tools, exactly where no name spells another's hashed id. -/
theorem ids_name_tools (sha256 : Sha256) (sdk : Tools) (extension : JsString) (servers : Servers) (m : Server)
    (hm : m ∈ servers.list) (tools : List McpTool) (htools : m.tools = .ok tools)
    (hmax : m.name.length + SEPARATOR.length + 8 ≤ sdk.maxLocalIdLength) :
    (∀ query filter found, search sha256 sdk servers query filter = .ok found → ∀ tool ∈ found,
      ∃ m ∈ servers.list, ∃ tools, m.tools = .ok tools ∧ ∃ w ∈ tools, tool.name = w.name ∧
        tool.id = toolId sha256 m.name tools sdk.maxLocalIdLength w.name) ∧
      (∀ t ∈ tools, (toolId sha256 m.name tools sdk.maxLocalIdLength t.name).length ≤ sdk.maxLocalIdLength) ∧
      (Distinct sha256 m.name tools sdk.maxLocalIdLength ↔ NoClash sha256 m.name tools sdk.maxLocalIdLength) ∧
      (Calls sha256 sdk extension m tools ↔ NoClash sha256 m.name tools sdk.maxLocalIdLength) := by
  refine ⟨fun query filter found h => search_ids h, fun t _ => toolId_length hmax, distinct_iff hmax, ?_⟩
  rw [← distinct_iff hmax]
  constructor
  · intro hcalls t ht u hu heq
    have hcall := hcalls servers m hm rfl rfl htools
    have hboth := (hcall t ht).symm.trans ((congrArg _ heq).trans (hcall u hu))
    exact (Prod.mk.inj (Except.ok.inj hboth)).2
  · intro hdistinct servers' m' hm' hid hname htools' t ht
    obtain ⟨w, hw, hsame, hcall⟩ := @call_toolId sha256 _ sdk extension servers' _ hm' htools' (hname ▸ hmax) _ ht
    rw [hname] at hsame hcall
    rw [hcall, hid, hdistinct w hw t ht hsame]

def toolNamed (name : JsString) : McpTool := ⟨name, none, none, .null, none, none⟩

def plainServer : Server := ⟨1, js "s", true, .ok [toolNamed (js "a.b"), toolNamed (js "c")], by decide⟩

def wholeList : Tools := ⟨59, fun _ tools => tools, fun _ _ _ h => h⟩

theorem ids_name_plain_tools : ¬ ∃ sha256 : Sha256,
    ¬ (Distinct sha256 (js "s") [toolNamed (js "a.b"), toolNamed (js "c")] 59 ∧
      Calls sha256 wholeList (js "mcp") plainServer [toolNamed (js "a.b"), toolNamed (js "c")]) := by
  rintro ⟨sha256, hnot⟩
  apply hnot
  obtain ⟨-, -, hdistinct, hcalls⟩ := ids_name_tools sha256 wholeList (js "mcp") ⟨[plainServer], List.nodup_singleton _⟩
    plainServer (List.mem_singleton_self _) _ rfl (by decide)
  have hfits : ∀ t ∈ [toolNamed (js "a.b"), toolNamed (js "c")],
      fits (js "s") [toolNamed (js "a.b"), toolNamed (js "c")] 59 t.name := by decide
  have hclash : NoClash sha256 (js "s") [toolNamed (js "a.b"), toolNamed (js "c")] 59 :=
    ⟨fun t _ u hu _ hnot => absurd (hfits u hu) hnot, fun t ht u _ hnot => absurd (hfits t ht) hnot⟩
  exact ⟨hdistinct.mpr hclash, hcalls.mpr hclash⟩

/-! ### A name that spells another tool's hashed id -/

theorem isIdUnit_hexDigit {n : UInt8} (h : n.toNat < 16) : isIdUnit (hexDigit n) := by
  have hall : ∀ k : Fin 16, isIdUnit (hexDigit (UInt8.ofNat k)) := by decide
  simpa using hall ⟨n.toNat, h⟩

theorem map_hashOf (sha256 : Sha256) (name : JsString) :
    ((hashOf sha256 name).map fun u => if isIdUnit u then u else underscore) = hashOf sha256 name := by
  refine (List.map_congr_left fun u hu => if_pos ?_).trans (List.map_id _)
  obtain ⟨b, -, hb⟩ := List.mem_flatMap.mp (List.mem_of_mem_take hu)
  simp only [List.mem_cons, List.not_mem_nil, or_false] at hb
  rcases hb with rfl | rfl
  · exact isIdUnit_hexDigit (by have := b.toNat_lt; simp; omega)
  · exact isIdUnit_hexDigit (by simp; omega)

theorem isIdUnit_map {s : JsString} {u : UInt16} (hu : u ∈ s.map fun u => if isIdUnit u then u else underscore) :
    isIdUnit u := by
  obtain ⟨v, -, rfl⟩ := List.mem_map.mp hu
  split
  · assumption
  · rfl

theorem isIdUnit_base (hs : isServerName server) {u : UInt16} (hu : u ∈ base server name) : isIdUnit u := by
  simp only [base, List.mem_append, or_assoc] at hu
  rcases hu with hu | hu | hu
  · rcases isServerName_unit hs u hu with h | ⟨h, h'⟩ | rfl
    · simp_all [isIdUnit, isLower]
    · simp [isIdUnit, h, h']
    · rfl
  · obtain rfl : u = underscore := by simpa [SEPARATOR] using hu
    rfl
  · exact isIdUnit_map hu

/-- **Every id is its server's, and one the host takes**, for a limit that leaves room for a hash. -/
theorem ids_well_formed (sha256 : Sha256) (m : Server) (tools : List McpTool) (spare : Nat) :
    (mcpToolIds sha256 m.name tools (m.name.length + 10 + spare)).Forall fun p =>
      (∃ rest, p.2 = m.name ++ SEPARATOR ++ rest) ∧ p.2.length ≤ m.name.length + 10 + spare ∧ ∀ u ∈ p.2, isIdUnit u := by
  refine List.forall_iff_forall_mem.mpr fun p hp => ?_
  obtain ⟨t, -, rfl⟩ := List.mem_map.mp hp
  have hroom : m.name.length + 2 + 8 ≤ m.name.length + 10 + spare := by omega
  refine ⟨toolId_server hroom, toolId_length hroom, fun u hu => ?_⟩
  simp only [toolId] at hu
  split at hu
  · exact isIdUnit_base m.valid hu
  rw [cut_eq hroom] at hu
  rcases List.mem_append.mp hu with hu | hu
  · exact isIdUnit_base m.valid (List.mem_of_mem_take hu)
  rcases List.mem_cons.mp hu with rfl | hu
  · rfl
  · exact isIdUnit_map (map_hashOf sha256 t.name ▸ hu)

/-- Two names made one, and a third that is the first's id. -/
def clashing (sha256 : Sha256) : List McpTool :=
  [toolNamed (js "a.b"), toolNamed (js "a b"), toolNamed (js "a_b_" ++ hashOf sha256 (js "a.b"))]

theorem hashed_id_is_anothers : ¬ ∃ sha256 : Sha256, Distinct sha256 (js "s") (clashing sha256) 59 := by
  rintro ⟨sha256, h⟩
  have hthird : base (js "s") (js "a_b_" ++ hashOf sha256 (js "a.b")) = js "s__a_b_" ++ hashOf sha256 (js "a.b") := by
    rw [base, List.map_append, map_hashOf]
    rfl
  have hlength : (js "s__a_b_" ++ hashOf sha256 (js "a.b")).length = 15 := by simp [js, units]
  have hfirst : base (js "s") (js "a.b") = js "s__a_b" := by decide
  have hsecond : base (js "s") (js "a b") = js "s__a_b" := by decide
  have hne : js "s__a_b" ≠ js "s__a_b_" ++ hashOf sha256 (js "a.b") := by
    intro heq
    have := congrArg List.length heq
    simp [js, units] at this
  have hfits : fits (js "s") (clashing sha256) 59 (js "a_b_" ++ hashOf sha256 (js "a.b")) := by
    simp [fits, clashing, toolNamed, hfirst, hsecond, hthird, hne, hlength]
  have hshared : ¬ fits (js "s") (clashing sha256) 59 (js "a.b") := by
    simp [fits, clashing, toolNamed, hfirst, hsecond, hthird, hne.symm]
  have hsame := h (toolNamed (js "a.b")) (List.mem_cons_self ..)
    (toolNamed (js "a_b_" ++ hashOf sha256 (js "a.b"))) (by simp [clashing]) (by
      rw [toolNamed, toolNamed, toolId, toolId, if_neg hshared, if_pos hfits, hthird, cut_eq (by decide), hfirst]
      simp [js, units, underscore])
  have := congrArg List.length hsame
  simp [toolNamed, js, units] at this

end Reins.McpTools
