import Reins.Lib.Json

/-!
# Stored session entries (`backend/src/{pi-storage,messages-store}.ts`, `migrations.ts`)

The rows of `session_messages`, and what `message_json` holds of each: the entry without its id, its
parent and its sequence number. The table carries its constraints: row ids come from `AUTOINCREMENT`,
and a session has one row of a sequence number and one of a harness id. A row from before entries
had harness ids is nobody's ancestor, and is left out.
-/

namespace Reins.Store

abbrev SessionId := String
abbrev EntryId := String
abbrev RowId := Nat

/-! ## Messages and entries -/

inductive ContentBlock
  | text (text : String)
  | thinking (thinking : String)
  | toolCall (id name : String) (arguments : Json)
  | image (attachmentId mimeType : String)

abbrev Metadata := List (String × Json)

/-- `PersistedMessage`. -/
inductive Message
  | user (content : List ContentBlock) (metadata : Metadata) (timestamp : Int)
  | assistant (content : List ContentBlock) (stopReason : Option String) (timestamp : Int)
  | toolResult (toolCallId toolName : String) (content : List ContentBlock) (isError : Bool) (timestamp : Int)
  | compactionSummary (summary : String) (timestamp : Int)

def Message.role : Message → String
  | .user .. => "user"
  | .assistant .. => "assistant"
  | .toolResult .. => "toolResult"
  | .compactionSummary .. => "compactionSummary"

/-- What an entry of type `message` holds: a message, or the user's input as it was admitted. -/
inductive StoredMessage
  | message (message : Message)
  | reinsInput (reinsId : String) (content : List ContentBlock) (metadata : Metadata) (timestamp : Option Int)

def StoredMessage.role : StoredMessage → String
  | .message m => m.role
  | .reinsInput .. => "reinsInput"

inductive EntryType
  | message
  | compaction
  | branchSummary
  | custom
  deriving DecidableEq

def EntryType.name : EntryType → String
  | .message => "message"
  | .compaction => "compaction"
  | .branchSummary => "branch_summary"
  | .custom => "custom"

inductive Envelope
  | message (message : StoredMessage) (timestamp : Int)
  | compaction (summary : String) (timestamp : Int) (rest : Metadata)
  | branchSummary (timestamp : Int) (rest : Metadata)
  | custom (customType : String) (timestamp : Int) (rest : Metadata)

/-- `json_extract(message_json, '$.type')`. -/
def Envelope.type : Envelope → EntryType
  | .message .. => .message
  | .compaction .. => .compaction
  | .branchSummary .. => .branchSummary
  | .custom .. => .custom

def Envelope.customType : Envelope → Option String
  | .custom customType _ _ => some customType
  | _ => none

/-- The `role` column: a message's role, or the entry's type. -/
def Envelope.role : Envelope → String
  | .message m _ => m.role
  | e => e.type.name

/-- Pi's `Entry`. -/
structure Entry where
  id : EntryId
  parentId : Option EntryId
  seq : Nat
  envelope : Envelope

def Entry.type (e : Entry) : EntryType := e.envelope.type

/-! ## The table -/

structure Row where
  id : RowId
  sessionId : SessionId
  seq : Nat
  parentId : Option RowId
  harnessId : EntryId
  envelope : Envelope

def Row.role (r : Row) : String := r.envelope.role

def Row.seqKey (r : Row) : SessionId × Nat := (r.sessionId, r.seq)
def Row.harnessKey (r : Row) : SessionId × EntryId := (r.sessionId, r.harnessId)

structure SessionMessages where
  rows : List Row
  /-- The next row id: `AUTOINCREMENT` gives each once. -/
  nextId : RowId
  below : ∀ r ∈ rows, r.id < nextId
  ids : (rows.map Row.id).Nodup
  seqs : (rows.map Row.seqKey).Nodup
  harnessIds : (rows.map Row.harnessKey).Nodup

def SessionMessages.ofSession (t : SessionMessages) (s : SessionId) : List Row := t.rows.filter fun r => r.sessionId = s

def SessionMessages.rowForEntry? (t : SessionMessages) (s : SessionId) (id : EntryId) : Option Row :=
  t.rows.find? fun r => r.sessionId = s ∧ r.harnessId = id

def SessionMessages.parent? (t : SessionMessages) (s : SessionId) (r : Row) : Option Row :=
  t.rows.find? fun p => r.parentId = some p.id ∧ p.sessionId = s

def SessionMessages.decodeEntry (t : SessionMessages) (s : SessionId) (r : Row) : Entry :=
  { id := r.harnessId, parentId := (t.parent? s r).map Row.harnessId, seq := r.seq,
    envelope := r.envelope }

section

variable {t : SessionMessages} {s : SessionId} {id : EntryId} {r p : Row}

theorem SessionMessages.mem_ofSession : r ∈ t.ofSession s ↔ r ∈ t.rows ∧ r.sessionId = s := by
  simp [SessionMessages.ofSession]

theorem SessionMessages.rowForEntry?_mem (h : t.rowForEntry? s id = some r) : r ∈ t.ofSession s ∧ r.harnessId = id := by
  have hp := List.find?_some h
  simp only [decide_eq_true_eq] at hp
  exact ⟨mem_ofSession.mpr ⟨List.mem_of_find?_eq_some h, hp.1⟩, hp.2⟩

theorem SessionMessages.parent?_mem (h : t.parent? s r = some p) : p ∈ t.ofSession s ∧ r.parentId = some p.id := by
  have hp := List.find?_some h
  simp only [decide_eq_true_eq] at hp
  exact ⟨mem_ofSession.mpr ⟨List.mem_of_find?_eq_some h, hp.2⟩, hp.1⟩

theorem SessionMessages.ids_ofSession (t : SessionMessages) (s : SessionId) : ((t.ofSession s).map Row.id).Nodup :=
  t.ids.sublist (List.filter_sublist.map _)

theorem SessionMessages.seqs_ofSession (t : SessionMessages) (s : SessionId) : ((t.ofSession s).map Row.seq).Nodup := by
  have hkeys : ((t.ofSession s).map Row.seqKey).Nodup := t.seqs.sublist (List.filter_sublist.map _)
  rw [List.nodup_map_iff_inj_on hkeys.of_map]
  intro r hr r' hr' he
  have hkey : r.seqKey = r'.seqKey := by
    rw [Row.seqKey, Row.seqKey, (mem_ofSession.mp hr).2, (mem_ofSession.mp hr').2, he]
  exact List.inj_on_of_nodup_map hkeys hr hr' hkey

end

end Reins.Store
