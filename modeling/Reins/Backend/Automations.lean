import Reins.Lib.Run

/-!
# Deliveries of an automation (`backend/src/extensions/automations/automations.ts`)

Ticks, deliveries and what a command check found are handled one at a time (`serial`), and a reload
waits for what is in progress, so one automation is a machine of its own: its row in the database, the
work in progress on it, and its command check. Each await and each write is a step, which may fail;
a process that ends (`restart`) leaves the row. The run history is written and never decides anything
but `previousEnded`, whose answer is the environment's here.
-/

namespace Reins.Automations

abbrev SessionId := String
/-- A time in milliseconds, which its ISO text keeps. -/
abbrev Date := Int

/-- `parseSchedule`'s result: `next` may throw, and is a later time where it does not. -/
structure Schedule where
  next : Date → Option Date
  lt_next : ∀ after due, next after = some due → after < due

/-- An interval's schedule: `MIN_INTERVAL_MS` is a minute. -/
def Schedule.interval (ms : Nat) (h : 60000 ≤ ms) : Schedule where
  next after := some (after + ms)
  lt_next after due hd := by
    cases hd
    exact Int.lt_add_of_pos_right after (by omega)

inductive Target
  | session
  | own
  | new
  deriving DecidableEq

inductive Trigger
  | schedule
  | command
  deriving DecidableEq

structure Send where
  sessionId : SessionId
  lastRunId : Option String
  at_ : Date
  deriving DecidableEq

/-- `AutomationRow`. -/
structure Row where
  target : Target
  sessionId : Option SessionId
  trigger : Trigger
  once : Bool
  nextRunAt : Date
  lastSend : Option Send
  /-- `cancel_reason`, once `cancelled_at` is set. -/
  cancelled : Option String
  deriving DecidableEq

/-- What `sessions.get` gives. -/
structure SessionInfo where
  id : SessionId
  archived : Bool
  running : Bool
  lastRunId : Option String
  deriving DecidableEq

/-- A step of `deliver` after the send. -/
inductive Recording
  /-- An own session's `setSession`, in `startSession`. -/
  | setSession
  | setRunSession
  | addRun
  | get
  | recordSend
  | cancel
  deriving DecidableEq

inductive Phase
  | reading (sessionId : SessionId)
  | compacting (session : SessionInfo)
  /-- `check` has looked at the session, which is none where it has not started one. -/
  | checked (session : Option SessionInfo)
  | previousEnded
  | sending (session : Option SessionInfo) (admitted : Bool)
  | recording (sessionId : SessionId) (lastRunId : Option String) (rest : List Recording)
  deriving DecidableEq

inductive Kind
  /-- `check`, of a tick. -/
  | tick
  | command
  deriving DecidableEq

structure Work where
  kind : Kind
  row : Row
  now : Date
  due : Date
  phase : Phase
  deriving DecidableEq

/-- A command check, from where it starts to where it leaves `checking`. -/
inductive Check
  | running (due : Date)
  /-- The command ran: it exited with 0, with another code, or could not run. -/
  | ran (due : Date) (fired : Option Bool)
  | applying
  | applied
  deriving DecidableEq

structure State where
  schedule : Schedule
  row : Row
  work : Option Work
  checking : Option Check
  /-- The due times that a message was admitted for. -/
  sent : List Date

/-- An automation as it was created. -/
def State.init (schedule : Schedule) (row : Row) : State :=
  { schedule, row := { row with lastSend := none, cancelled := none }, work := none,
    checking := none, sent := [] }

/-- The work ends, whether it returned or threw; a command's check leaves the chain with it. -/
def State.end (s : State) : State :=
  { s with work := none, checking := if s.checking = some .applying then some .applied else s.checking }

def Row.cancel (row : Row) (reason : String) : Row := { row with cancelled := some (row.cancelled.getD reason) }

def Row.setSession (row : Row) (sessionId : Option SessionId) : Row := { row with sessionId, lastSend := none }

/-- `deliver`, to where it sends. A write before that may fail, as the send may. -/
def State.deliver (s : State) (w : Work) (session : Option SessionInfo) : State :=
  { s with work := some { w with phase := .sending session false } }

def State.targeted (s : State) (w : Work) (session : Option SessionInfo) (compacts : Bool) : State :=
  match w.kind with
  | .command => s.deliver w session
  | .tick =>
    match session.filter fun info => !info.running && compacts with
    | some info => { s with work := some { w with phase := .compacting info } }
    | none => { s with work := some { w with phase := .checked session } }

def State.target (s : State) (w : Work) : State :=
  match w.row.sessionId with
  | none => s.targeted w none false
  | some sessionId => { s with work := some { w with phase := .reading sessionId } }

def State.tick (s : State) (now : Date) : State :=
  if s.work.isSome ∨ s.row.cancelled.isSome then s
  else s.target { kind := .tick, row := s.row, now, due := s.row.nextRunAt, phase := .checked none }

inductive Answer
  | threw
  | notFound
  | session (info : SessionInfo)
  deriving DecidableEq

/-- A session that is gone cancels the automation, or is replaced at the next delivery. -/
def State.gone (s : State) (w : Work) (reason : String) (writes : Bool) : State :=
  if !writes then s.end
  else if w.row.target = .session then { s with row := s.row.cancel reason }.end
  else { s with row := s.row.setSession none }.targeted w none false

def State.readSession (s : State) (answer : Answer) (compacts writes : Bool) : State :=
  match s.work with
  | some w =>
    match w.phase with
    | .reading _ =>
      match answer with
      | .threw => s.end
      | .notFound => s.gone w "Its session was deleted" writes
      | .session info =>
        if info.archived then s.gone w "Its session was archived" writes
        else s.targeted w (some info) compacts
    | _ => s
  | none => s

def State.compacted (s : State) (writes : Bool) : State :=
  match s.work with
  | some w =>
    match w.phase with
    | .compacting session =>
      if writes then { s with work := some { w with phase := .checked (some session) } } else s.end
    | _ => s
  | none => s

def Row.busyWith (row : Row) (session : SessionInfo) : Bool :=
  session.running && row.lastSend.any fun send => send.sessionId = session.id && send.lastRunId = session.lastRunId

/-- What `check` does once the next time is set. -/
def State.fires (s : State) (w : Work) (session : Option SessionInfo) : State :=
  match w.row.trigger with
  | .command =>
    if s.checking.isSome then s.end
    else { s with work := none, checking := some (.running w.due) }
  | .schedule =>
    if w.row.target = .new then { s with work := some { w with phase := .previousEnded } }
    else if session.any w.row.busyWith then s.end
    else s.deliver w session

def State.checkDue (s : State) (writes : Bool) : State :=
  match s.work with
  | some w =>
    match w.phase with
    | .checked session =>
      if w.now < w.row.nextRunAt then s.end
      else
        match s.schedule.next w.now with
        | none => s.end
        | some next =>
          if writes then { s with row := { s.row with nextRunAt := next } }.fires w session
          else s.end
    | _ => s
  | none => s

/-- `previousEnded` answers, or throws. -/
def State.previousEnds (s : State) (ended : Option Bool) : State :=
  match s.work with
  | some w =>
    match w.phase with
    | .previousEnded =>
      if ended ≠ some true then s.end
      else
        match w.kind with
        | .tick => s.deliver w none
        | .command => s.target w
    | _ => s
  | none => s

def State.admitted (s : State) : State :=
  match s.work with
  | some w =>
    match w.phase with
    | .sending session false =>
      { s with work := some { w with phase := .sending session true }, sent := s.sent ++ [w.due] }
    | _ => s
  | none => s

/-- What `deliver` has left to do once its message was admitted. -/
def recordings (row : Row) (started : Bool) : List Recording :=
  (if started then (if row.target = .own then [.setSession] else []) ++ [.setRunSession] else []) ++
    (if row.target = .session then [.addRun] else []) ++ [.get, .recordSend] ++
    (if row.once then [.cancel] else [])

/-- The send resolves, which it does once the message was admitted, or rejects, admitted or not. -/
def State.sendEnds (s : State) (started : Option SessionId) : State :=
  match s.work with
  | some w =>
    match w.phase, started with
    | .sending (some session) true, some _ =>
      { s with work := some { w with
                 phase := .recording session.id none (recordings w.row false) } }
    | .sending none true, some sessionId =>
      { s with work := some { w with
                 phase := .recording sessionId none (recordings w.row true) } }
    | .sending _ _, none => s.end
    | _, _ => s
  | none => s

def Row.record (row : Row) (now : Date) (sessionId : SessionId) (lastRunId : Option String) : Recording → Row
  | .setSession => row.setSession (some sessionId)
  | .recordSend => { row with lastSend := some ⟨sessionId, lastRunId, now⟩ }
  | .cancel => row.cancel "It fired once"
  | .setRunSession | .addRun | .get => row

/-- The next step after the send; `answer` is what a read of the session gives. What follows a failure
records it, and the delivery ends. -/
def State.record (s : State) (ok : Bool) (answer : Option String) : State :=
  match s.work with
  | some w =>
    match w.phase with
    | .recording sessionId lastRunId (r :: rest) =>
      if !ok then s.end
      else
        let lastRunId := if r = .get then answer else lastRunId
        let s' := { s with row := s.row.record w.now sessionId lastRunId r }
        if rest = [] then s'.end
        else { s' with work := some { w with phase := .recording sessionId lastRunId rest } }
    | _ => s
  | none => s

def State.commandEnds (s : State) (fired : Option Bool) : State :=
  match s.checking with
  | some (.running due) => { s with checking := some (.ran due fired) }
  | _ => s

def State.applyCheck (s : State) (now : Date) (writes : Bool) : State :=
  match s.checking with
  | some (.ran due fired) =>
    if s.work.isSome then s
    else
      let s' := { s with checking := some .applying }
      let w : Work := { kind := .command, row := s.row, now, due, phase := .previousEnded }
      if s.row.cancelled.isSome ∨ fired ≠ some true ∨ !writes then s'.end
      else if s.row.target = .new then { s' with work := some w }
      else s'.target w
  | _ => s

def State.checkDone (s : State) (aborted : Bool) : State :=
  match s.checking with
  | some .applied => { s with checking := none }
  | some (.ran _ _) => if aborted then { s with checking := none } else s
  | _ => s

inductive Event
  | tick (now : Date)
  | readSession (answer : Answer) (compacts writes : Bool)
  | compacted (writes : Bool)
  | checkDue (writes : Bool)
  | previousEnds (ended : Option Bool)
  | admitted
  | sendEnds (started : Option SessionId)
  | record (ok : Bool) (answer : Option String)
  | commandEnds (fired : Option Bool)
  | applyCheck (now : Date) (writes : Bool)
  | checkDone (aborted : Bool)
  | cancel (reason : String)
  | replaceSession
  | restart

def step (s : State) : Event → State
  | .tick now => s.tick now
  | .readSession answer compacts writes => s.readSession answer compacts writes
  | .compacted writes => s.compacted writes
  | .checkDue writes => s.checkDue writes
  | .previousEnds ended => s.previousEnds ended
  | .admitted => s.admitted
  | .sendEnds started => s.sendEnds started
  | .record ok answer => s.record ok answer
  | .commandEnds fired => s.commandEnds fired
  | .applyCheck now writes => s.applyCheck now writes
  | .checkDone aborted => s.checkDone aborted
  | .cancel reason => { s with row := s.row.cancel reason }
  | .replaceSession => if s.row.target = .own then { s with row := s.row.setSession none } else s
  | .restart => { s with work := none, checking := none }

def run (schedule : Schedule) (row : Row) (es : List Event) : State := Run.exec step (.init schedule row) es

/-! ## What is asked of it -/

structure AtMostOnce (s : State) : Prop where
  due : s.sent.Nodup
  once : s.row.once = true → s.sent.length ≤ 1

def Phase.admitted : Phase → Bool
  | .sending _ admitted => admitted
  | .recording _ _ _ => true
  | _ => false

/-- A delivery has its message admitted, and has not ended. -/
def State.afterSend (s : State) : Bool := s.work.any fun w => w.phase.admitted

/-- What follows the send of a `once` automation succeeds: nothing fails, and the process goes on. -/
def Undisturbed (s : State) (e : Event) : Prop :=
  s.row.once = true → s.afterSend = true → match e with
    | .sendEnds none => False
    | .record ok _ => ok = true
    | .restart => False
    | _ => True

instance (s : State) (e : Event) : Decidable (Undisturbed s e) := by
  unfold Undisturbed
  cases e with
  | sendEnds started => cases started <;> infer_instance
  | _ => infer_instance

/-! ## Each due time once -/

def Phase.early : Phase → Bool
  | .reading _ => true
  | .compacting _ => true
  | .checked _ => true
  | _ => false

/-- The work is a tick's, and has not yet moved the next time on. -/
def Work.early (w : Work) : Bool := w.kind = .tick && w.phase.early

def Check.due : Check → Option Date
  | .running due => some due
  | .ran due _ => some due
  | .applying => none
  | .applied => none

structure WorkOk (s : State) (w : Work) : Prop where
  trigger : w.row.trigger = s.row.trigger
  once : w.row.once = s.row.once
  command : w.kind = .command → s.checking = some .applying
  tick : w.kind = .tick → w.early = false → s.row.trigger = .schedule
  /-- A command's work never reads what a tick reads. -/
  phase : w.kind = .command → (∀ session, w.phase ≠ .checked session) ∧ ∀ info, w.phase ≠ .compacting info
  early : w.early = true → w.due = s.row.nextRunAt ∧ w.row.nextRunAt = w.due
  late : w.early = false → w.due < s.row.nextRunAt
  fresh : w.phase.admitted = false → w.due ∉ s.sent

structure DueOnce (s : State) : Prop where
  nodup : s.sent.Nodup
  past : ∀ d ∈ s.sent, d < s.row.nextRunAt
  work : ∀ w, s.work = some w → WorkOk s w
  check : ∀ d, s.checking.bind Check.due = some d → d < s.row.nextRunAt ∧ d ∉ s.sent
  trigger : s.row.trigger = .schedule → s.checking = none

variable {s : State} {w : Work}

theorem DueOnce.init (schedule : Schedule) (row : Row) : DueOnce (.init schedule row) := by
  constructor
  · exact List.nodup_nil
  · intro d hd
    cases hd
  · intro w hw
    cases hw
  · intro d hd
    cases hd
  · intro _
    rfl

theorem end_due (s : State) : s.end.checking.bind Check.due = s.checking.bind Check.due := by
  show (if s.checking = some .applying then some Check.applied else s.checking).bind Check.due = _
  split
  next h =>
    rw [h]
    rfl
  · rfl

theorem end_checking_none (h : s.checking = none) : s.end.checking = none := by
  show (if s.checking = some .applying then some Check.applied else s.checking) = none
  rw [h]
  rfl

theorem DueOnce.end (h : DueOnce s) : DueOnce s.end := by
  constructor
  · exact h.nodup
  · exact h.past
  · intro w hw
    cases hw
  · intro d hd
    rw [end_due] at hd
    exact h.check d hd
  · intro ht
    exact end_checking_none (h.trigger ht)

theorem DueOnce.row (h : DueOnce s) {row : Row} (hn : row.nextRunAt = s.row.nextRunAt)
    (ht : row.trigger = s.row.trigger) (ho : row.once = s.row.once) :
    DueOnce { s with row := row } := by
  constructor
  · exact h.nodup
  · intro d hd
    show d < row.nextRunAt
    rw [hn]
    exact h.past d hd
  · intro w hw
    have hok := h.work w hw
    exact
      { trigger := hok.trigger.trans ht.symm
        once := hok.once.trans ho.symm
        command := hok.command
        tick := fun hk he => ht.trans (hok.tick hk he)
        phase := hok.phase
        early := fun he => ⟨(hok.early he).1.trans hn.symm, (hok.early he).2⟩
        late := fun he => by
          show w.due < row.nextRunAt
          rw [hn]
          exact hok.late he
        fresh := hok.fresh }
  · intro d hd
    show d < row.nextRunAt ∧ _
    rw [hn]
    exact h.check d hd
  · intro hs
    exact h.trigger (ht.symm.trans hs)

theorem DueOnce.setWork (h : DueOnce s) (hok : WorkOk s w) : DueOnce { s with work := some w } := by
  refine { h with work := ?_ }
  intro w' hw
  cases hw
  exact { hok with }

structure Consumed (s : State) (w : Work) : Prop where
  trigger : w.row.trigger = s.row.trigger
  once : w.row.once = s.row.once
  command : w.kind = .command → s.checking = some .applying
  tick : w.kind = .tick → s.row.trigger = .schedule
  late : w.due < s.row.nextRunAt
  fresh : w.due ∉ s.sent

structure Waiting (s : State) (w : Work) : Prop where
  trigger : w.row.trigger = s.row.trigger
  once : w.row.once = s.row.once
  due : w.due = s.row.nextRunAt
  row : w.row.nextRunAt = w.due

/-- What `target` is called for. -/
def Ready (s : State) (w : Work) : Prop := w.kind = .command ∧ Consumed s w ∨ w.kind = .tick ∧ Waiting s w

theorem WorkOk.consumed (h : WorkOk s w) (he : w.early = false) (hp : w.phase.admitted = false) : Consumed s w :=
  { trigger := h.trigger
    once := h.once
    command := h.command
    tick := fun hk => h.tick hk he
    late := h.late he
    fresh := h.fresh hp }

theorem WorkOk.waiting (h : WorkOk s w) (he : w.early = true) : Waiting s w :=
  { trigger := h.trigger, once := h.once, due := (h.early he).1, row := (h.early he).2 }

theorem early_of_command (h : w.kind = .command) : w.early = false := by
  rw [Work.early, h]
  rfl

theorem early_of_phase (h : w.phase.early = false) : w.early = false := by
  rw [Work.early, h, Bool.and_false]

theorem early_of_tick (h : w.kind = .tick) : w.early = w.phase.early := by
  rw [Work.early, h]
  rfl

theorem WorkOk.ready (h : WorkOk s w) {sessionId : SessionId} (hp : w.phase = .reading sessionId) : Ready s w := by
  cases hk : w.kind with
  | command => exact .inl ⟨hk, h.consumed (early_of_command hk) (hp ▸ rfl)⟩
  | tick => exact .inr ⟨hk, h.waiting (by rw [early_of_tick hk, hp]; rfl)⟩

theorem DueOnce.idle (h : DueOnce s) : DueOnce { s with work := none } :=
  { nodup := h.nodup, past := h.past, work := (by intro w hw; cases hw), check := h.check,
    trigger := h.trigger }

theorem DueOnce.deliver (h : DueOnce { s with work := none }) (hc : Consumed s w)
    (session : Option SessionInfo) : DueOnce (s.deliver w session) := by
  refine h.setWork (w := { w with phase := .sending session false }) ?_
  have hearly : ({ w with phase := .sending session false } : Work).early = false := early_of_phase rfl
  exact
    { trigger := hc.trigger
      once := hc.once
      command := hc.command
      tick := fun hk _ => hc.tick hk
      phase := fun _ => ⟨nofun, nofun⟩
      early := fun he => by rw [hearly] at he; cases he
      late := fun _ => hc.late
      fresh := fun _ => hc.fresh }

theorem DueOnce.wait (h : DueOnce { s with work := none }) (hk : w.kind = .tick)
    (hw : Waiting s w) (phase : Phase) (hp : phase.early = true) :
    DueOnce { s with work := some { w with phase := phase } } := by
  have he : ({ w with phase := phase } : Work).early = true :=
    (early_of_tick (w := { w with phase := phase }) hk).trans hp
  refine h.setWork ?_
  exact
    { trigger := hw.trigger
      once := hw.once
      command := fun hc => by rw [show w.kind = .command from hc] at hk; cases hk
      tick := fun _ hf => by rw [he] at hf; cases hf
      phase := fun hc => by rw [show w.kind = .command from hc] at hk; cases hk
      early := fun _ => ⟨hw.due, hw.row⟩
      late := fun hf => by rw [he] at hf; cases hf
      fresh := fun _ hm => by
        have hlt := h.past w.due hm
        rw [hw.due] at hlt
        exact absurd hlt (Int.lt_irrefl _) }

theorem DueOnce.targeted (h : DueOnce { s with work := none }) (hr : Ready s w)
    (session : Option SessionInfo) (compacts : Bool) : DueOnce (s.targeted w session compacts) := by
  rw [State.targeted]
  split
  next hk =>
    rcases hr with ⟨_, hc⟩ | ⟨hk', _⟩
    · exact h.deliver hc session
    · cases hk.symm.trans hk'
  next hk =>
    rcases hr with ⟨hk', _⟩ | ⟨_, hw⟩
    · cases hk.symm.trans hk'
    split
    · exact h.wait hk hw (.compacting _) rfl
    · exact h.wait hk hw (.checked session) rfl

theorem DueOnce.target (h : DueOnce { s with work := none }) (hr : Ready s w) : DueOnce (s.target w) := by
  rw [State.target]
  split
  · exact h.targeted hr none false
  rename_i sessionId _
  rcases hr with ⟨hk, hc⟩ | ⟨hk, hw⟩
  · refine h.setWork (w := { w with phase := .reading sessionId }) ?_
    exact
      { trigger := hc.trigger
        once := hc.once
        command := hc.command
        tick := fun hk' _ => hc.tick hk'
        phase := fun _ => ⟨nofun, nofun⟩
        early := fun he => by
          rw [early_of_command (by exact hk)] at he
          cases he
        late := fun _ => hc.late
        fresh := fun _ => hc.fresh }
  · exact h.wait hk hw (.reading sessionId) rfl

theorem DueOnce.tick (h : DueOnce s) (now : Date) : DueOnce (s.tick now) := by
  rw [State.tick]
  split
  · exact h
  · exact h.idle.target (.inr ⟨rfl, ⟨rfl, rfl, rfl, rfl⟩⟩)

theorem DueOnce.gone (h : DueOnce { s with work := none }) (hr : Ready s w) (reason : String)
    (writes : Bool) : DueOnce (s.gone w reason writes) := by
  rw [State.gone]
  split
  · exact h.end
  split
  · have h' : DueOnce { s with row := s.row.cancel reason, work := none } := h.row rfl rfl rfl
    exact h'.end
  have h' : DueOnce { s with row := s.row.setSession none, work := none } := h.row rfl rfl rfl
  refine h'.targeted ?_ none false
  rcases hr with ⟨hk, hc⟩ | ⟨hk, hw⟩
  · exact .inl ⟨hk, { hc with }⟩
  · exact .inr ⟨hk, { hw with }⟩

theorem DueOnce.readSession (h : DueOnce s) (answer : Answer) (compacts writes : Bool) :
    DueOnce (s.readSession answer compacts writes) := by
  rw [State.readSession]
  split
  next w hw =>
    split
    next hp =>
      have hr := (h.work w hw).ready hp
      split
      · exact h.end
      · exact h.idle.gone hr _ writes
      · split
        · exact h.idle.gone hr _ writes
        · exact h.idle.targeted hr _ compacts
    · exact h
  · exact h

theorem DueOnce.compacted (h : DueOnce s) (writes : Bool) : DueOnce (s.compacted writes) := by
  rw [State.compacted]
  split
  next w hw =>
    split
    next session hp =>
      have hok := h.work w hw
      split
      · have hk : w.kind = .tick := by
          cases hk : w.kind with
          | command => exact absurd hp ((hok.phase hk).2 session)
          | tick => rfl
        have he : w.early = true := by rw [early_of_tick hk, hp]; rfl
        exact h.idle.wait hk (hok.waiting he) (.checked (some session)) rfl
      · exact h.end
    · exact h
  · exact h

theorem DueOnce.advance (h : DueOnce { s with work := none }) (next : Date) (hn : s.row.nextRunAt ≤ next) :
    DueOnce { s with row := { s.row with nextRunAt := next }, work := none } := by
  constructor
  · exact h.nodup
  · intro d hd
    exact Int.lt_of_lt_of_le (h.past d hd) hn
  · intro w hw
    cases hw
  · intro d hd
    obtain ⟨hlt, hf⟩ := h.check d hd
    exact ⟨Int.lt_of_lt_of_le hlt hn, hf⟩
  · exact h.trigger

theorem DueOnce.fires (h : DueOnce { s with work := none }) (hk : w.kind = .tick)
    (htrigger : w.row.trigger = s.row.trigger) (honce : w.row.once = s.row.once)
    (hlate : w.due < s.row.nextRunAt) (hfresh : w.due ∉ s.sent) (session : Option SessionInfo) :
    DueOnce (s.fires w session) := by
  rw [State.fires]
  split
  next ht =>
    split
    · exact h.end
    constructor
    · exact h.nodup
    · exact h.past
    · intro w' hw
      cases hw
    · intro d hd
      cases hd
      exact ⟨hlate, hfresh⟩
    · intro hs
      rw [htrigger] at ht
      cases ht.symm.trans hs
  next ht =>
    have hc : Consumed s w :=
      { trigger := htrigger
        once := honce
        command := fun hc => by rw [hc] at hk; cases hk
        tick := fun _ => htrigger.symm.trans ht
        late := hlate
        fresh := hfresh }
    split
    · refine h.setWork (w := { w with phase := .previousEnded }) ?_
      exact
        { trigger := hc.trigger
          once := hc.once
          command := hc.command
          tick := fun hk' _ => hc.tick hk'
          phase := fun _ => ⟨nofun, nofun⟩
          early := fun he => by
            rw [early_of_phase (by rfl)] at he
            cases he
          late := fun _ => hc.late
          fresh := fun _ => hc.fresh }
    · split
      · exact h.end
      · exact h.deliver hc session

theorem DueOnce.checkDue (h : DueOnce s) (writes : Bool) : DueOnce (s.checkDue writes) := by
  rw [State.checkDue]
  split
  next w hw =>
    split
    next session hp =>
      have hok := h.work w hw
      split
      · exact h.end
      rename_i hdue
      split
      · exact h.end
      rename_i next hnext
      split
      · cases hk : w.kind with
        | command => exact absurd hp ((hok.phase hk).1 session)
        | tick =>
          have hwait := hok.waiting (by rw [early_of_tick hk, hp]; rfl)
          have hlt : w.due < next := by
            have := s.schedule.lt_next w.now next hnext
            rw [hwait.row] at hdue
            exact Int.lt_of_le_of_lt (Int.not_lt.mp hdue) this
          have hfresh : w.due ∉ s.sent := hok.fresh (hp ▸ rfl)
          have h' := h.idle.advance next (by
            rw [← hwait.due]
            exact Int.le_of_lt hlt)
          exact h'.fires (s := { s with row := { s.row with nextRunAt := next } }) hk
            hwait.trigger hwait.once hlt hfresh session
      · exact h.end
    · exact h
  · exact h

theorem DueOnce.previousEnds (h : DueOnce s) (ended : Option Bool) : DueOnce (s.previousEnds ended) := by
  rw [State.previousEnds]
  split
  next w hw =>
    split
    next hp =>
      have hc := (h.work w hw).consumed (early_of_phase (hp ▸ rfl)) (hp ▸ rfl)
      split
      · exact h.end
      cases hk : w.kind with
      | tick => exact h.idle.deliver hc none
      | command => exact h.idle.target (.inl ⟨hk, hc⟩)
    · exact h
  · exact h

theorem DueOnce.admitted (h : DueOnce s) : DueOnce s.admitted := by
  rw [State.admitted]
  split
  next w hw =>
    split
    next session hp =>
      have hok := h.work w hw
      have hc := hok.consumed (early_of_phase (hp ▸ rfl)) (hp ▸ rfl)
      -- a command's check is in the chain, and a schedule has none
      have hcheck : s.checking.bind Check.due = none := by
        cases hk : w.kind with
        | command =>
          rw [hc.command hk]
          rfl
        | tick =>
          rw [h.trigger (hc.tick hk)]
          rfl
      constructor
      · exact List.Nodup.append h.nodup (List.nodup_singleton _) (List.disjoint_singleton.mpr hc.fresh)
      · intro d hd
        rcases List.mem_append.mp hd with hd | hd
        · exact h.past d hd
        · rw [List.mem_singleton.mp hd]
          exact hc.late
      · intro w' hw'
        cases hw'
        exact
          { trigger := hc.trigger
            once := hc.once
            command := hc.command
            tick := fun hk _ => hc.tick hk
            phase := fun _ => ⟨nofun, nofun⟩
            early := fun he => by
              rw [early_of_phase (by rfl)] at he
              cases he
            late := fun _ => hc.late
            fresh := fun hf => by cases hf }
      · intro d hd
        cases hcheck.symm.trans hd
      · exact h.trigger
    · exact h
  · exact h

theorem DueOnce.recording (h : DueOnce { s with work := none }) (hok : WorkOk s w)
    (he : w.phase.early = false) (sessionId : SessionId) (lastRunId : Option String)
    (rest : List Recording) :
    DueOnce { s with work := some { w with phase := .recording sessionId lastRunId rest } } := by
  have hearly : w.early = false := early_of_phase he
  refine h.setWork ?_
  exact
    { trigger := hok.trigger
      once := hok.once
      command := hok.command
      tick := fun hk _ => hok.tick hk hearly
      phase := fun _ => ⟨nofun, nofun⟩
      early := fun he => by
        rw [early_of_phase (by rfl)] at he
        cases he
      late := fun _ => hok.late hearly
      fresh := fun hf => by cases hf }

theorem DueOnce.sendEnds (h : DueOnce s) (started : Option SessionId) : DueOnce (s.sendEnds started) := by
  rw [State.sendEnds]
  split
  next w hw =>
    have hok := h.work w hw
    split
    next session _ hp =>
      exact h.idle.recording hok (hp ▸ rfl) session.id none _
    next sessionId hp =>
      exact h.idle.recording hok (hp ▸ rfl) sessionId none _
    · exact h.end
    · exact h
  · exact h

theorem record_row (row : Row) (now : Date) (sessionId : SessionId) (lastRunId : Option String) (r : Recording) :
    (row.record now sessionId lastRunId r).nextRunAt = row.nextRunAt ∧
      (row.record now sessionId lastRunId r).trigger = row.trigger ∧
      (row.record now sessionId lastRunId r).once = row.once := by
  cases r with
  | setSession => exact ⟨rfl, rfl, rfl⟩
  | setRunSession => exact ⟨rfl, rfl, rfl⟩
  | addRun => exact ⟨rfl, rfl, rfl⟩
  | get => exact ⟨rfl, rfl, rfl⟩
  | recordSend => exact ⟨rfl, rfl, rfl⟩
  | cancel => exact ⟨rfl, rfl, rfl⟩

theorem DueOnce.record (h : DueOnce s) (ok : Bool) (answer : Option String) : DueOnce (s.record ok answer) := by
  rw [State.record]
  split
  next w hw =>
    split
    next sessionId lastRunId r rest hp =>
      split
      · exact h.end
      obtain ⟨hn, ht, ho⟩ := record_row s.row w.now sessionId (if r = .get then answer else lastRunId) r
      have hrow := h.row hn ht ho
      show DueOnce (if rest = [] then _ else _)
      split
      · exact hrow.end
      · exact hrow.idle.recording (hrow.work w hw) (hp ▸ rfl) sessionId _ rest
    · exact h
  · exact h

/-! ### Command checks -/

theorem DueOnce.checkMoves (h : DueOnce s) {check : Check} {checking : Option Check}
    (hc : s.checking = some check) (hn : check ≠ .applying)
    (hd : ∀ d, checking.bind Check.due = some d → check.due = some d) :
    DueOnce { s with checking := checking } := by
  constructor
  · exact h.nodup
  · exact h.past
  · intro w hw
    have hok := h.work w hw
    refine { hok with command := ?_ }
    intro hk
    have := hok.command hk
    rw [hc] at this
    exact absurd (Option.some_inj.mp this) hn
  · intro d hd'
    refine h.check d ?_
    rw [hc]
    exact hd d hd'
  · intro ht
    have := h.trigger ht
    cases hc.symm.trans this

theorem DueOnce.commandEnds (h : DueOnce s) (fired : Option Bool) : DueOnce (s.commandEnds fired) := by
  rw [State.commandEnds]
  split
  next due hc =>
    exact h.checkMoves hc nofun fun d hd => hd
  · exact h

theorem DueOnce.checkDone (h : DueOnce s) (aborted : Bool) : DueOnce (s.checkDone aborted) := by
  rw [State.checkDone]
  split
  next hc =>
    exact h.checkMoves hc nofun nofun
  next due fired hc =>
    split
    · exact h.checkMoves hc nofun nofun
    · exact h
  · exact h

theorem DueOnce.applyCheck (h : DueOnce s) (now : Date) (writes : Bool) : DueOnce (s.applyCheck now writes) := by
  rw [State.applyCheck]
  split
  next due fired hc =>
    split
    · exact h
    have h' : DueOnce { s with checking := some .applying } := h.checkMoves hc nofun nofun
    obtain ⟨hlt, hf⟩ := h.check due (hc ▸ rfl)
    have hcons : Consumed { s with checking := some .applying }
        { kind := .command, row := s.row, now, due, phase := .previousEnded } :=
      { trigger := rfl
        once := rfl
        command := fun _ => rfl
        tick := nofun
        late := hlt
        fresh := hf }
    show DueOnce (if s.row.cancelled.isSome = true ∨ fired ≠ some true ∨ !writes then _ else _)
    split
    · exact h'.end
    split
    · refine h'.setWork ?_
      exact
        { trigger := rfl
          once := rfl
          command := fun _ => rfl
          tick := nofun
          phase := fun _ => ⟨nofun, nofun⟩
          early := fun he => by
            rw [early_of_phase (by rfl)] at he
            cases he
          late := fun _ => hlt
          fresh := fun _ => hf }
    · exact h'.idle.target (.inl ⟨rfl, hcons⟩)
  · exact h

theorem DueOnce.kept (h : DueOnce s) (e : Event) : DueOnce (step s e) := by
  cases e with
  | tick now => exact h.tick now
  | readSession answer compacts writes => exact h.readSession answer compacts writes
  | compacted writes => exact h.compacted writes
  | checkDue writes => exact h.checkDue writes
  | previousEnds ended => exact h.previousEnds ended
  | admitted => exact h.admitted
  | sendEnds started => exact h.sendEnds started
  | record ok answer => exact h.record ok answer
  | commandEnds fired => exact h.commandEnds fired
  | applyCheck now writes => exact h.applyCheck now writes
  | checkDone aborted => exact h.checkDone aborted
  | cancel reason => exact h.row rfl rfl rfl
  | replaceSession =>
    show DueOnce (if s.row.target = .own then _ else s)
    split
    · exact h.row rfl rfl rfl
    · exact h
  | restart =>
    exact
      { nodup := h.nodup
        past := h.past
        work := by intro w hw; cases hw
        check := by intro d hd; cases hd
        trigger := fun _ => rfl }

/-! ## A `once` automation -/

/-- What is left to do of a delivery ends with the cancellation. -/
def Cancelling (w : Work) : Prop :=
  (∃ session, w.phase = .sending session true) ∨
    ∃ sessionId lastRunId rest, w.phase = .recording sessionId lastRunId rest ∧ rest.getLast? = some .cancel

/-- Nothing will be sent again: the automation is cancelled, or the delivery that sent will cancel it. -/
def Quiet (s : State) : Prop := s.work = none ∧ s.row.cancelled.isSome = true ∨ ∃ w, s.work = some w ∧ Cancelling w

def FiredOnce (s : State) : Prop := s.row.once = true → s.sent = [] ∨ s.sent.length = 1 ∧ Quiet s

structure Keeps (s s' : State) : Prop where
  sent : s'.sent = s.sent
  once : s'.row.once = s.row.once

theorem Keeps.of_row {s' : State} {row : Row} (h : Keeps { s with row := row } s')
    (ho : row.once = s.row.once) : Keeps s s' := ⟨h.sent, h.once.trans ho⟩

theorem Keeps.of_checking {s' : State} {checking : Option Check}
    (h : Keeps { s with checking := checking } s') : Keeps s s' := ⟨h.sent, h.once⟩

theorem FiredOnce.keeps {s' : State} (h : FiredOnce s) (hk : Keeps s s') (hq : Quiet s → Quiet s') : FiredOnce s' := by
  intro ho
  rw [hk.sent]
  rw [hk.once] at ho
  exact (h ho).imp_right fun ⟨hl, hquiet⟩ => ⟨hl, hq hquiet⟩

/-- A step that is nothing to an automation that will not send again. -/
theorem FiredOnce.same {s' : State} (h : FiredOnce s) (hk : Keeps s s') (hs : Quiet s → s' = s) : FiredOnce s' :=
  h.keeps hk fun hq => (hs hq).symm ▸ hq

theorem keeps_targeted (s : State) (w : Work) (session : Option SessionInfo) (compacts : Bool) :
    Keeps s (s.targeted w session compacts) := by
  rw [State.targeted]
  split
  · exact ⟨rfl, rfl⟩
  split
  · exact ⟨rfl, rfl⟩
  · exact ⟨rfl, rfl⟩

theorem keeps_target (s : State) (w : Work) : Keeps s (s.target w) := by
  rw [State.target]
  split
  · exact keeps_targeted s w none false
  · exact ⟨rfl, rfl⟩

theorem keeps_tick (s : State) (now : Date) : Keeps s (s.tick now) := by
  rw [State.tick]
  split
  · exact ⟨rfl, rfl⟩
  · exact keeps_target s _

theorem keeps_gone (s : State) (w : Work) (reason : String) (writes : Bool) : Keeps s (s.gone w reason writes) := by
  rw [State.gone]
  split
  · exact ⟨rfl, rfl⟩
  split
  · exact ⟨rfl, rfl⟩
  · exact (keeps_targeted _ w none false).of_row rfl

theorem keeps_readSession (s : State) (answer : Answer) (compacts writes : Bool) :
    Keeps s (s.readSession answer compacts writes) := by
  rw [State.readSession]
  split
  · split
    · split
      · exact ⟨rfl, rfl⟩
      · exact keeps_gone s _ _ writes
      · split
        · exact keeps_gone s _ _ writes
        · exact keeps_targeted s _ _ compacts
    · exact ⟨rfl, rfl⟩
  · exact ⟨rfl, rfl⟩

theorem keeps_compacted (s : State) (writes : Bool) : Keeps s (s.compacted writes) := by
  rw [State.compacted]
  split
  · split
    · split
      · exact ⟨rfl, rfl⟩
      · exact ⟨rfl, rfl⟩
    · exact ⟨rfl, rfl⟩
  · exact ⟨rfl, rfl⟩

theorem keeps_fires (s : State) (w : Work) (session : Option SessionInfo) : Keeps s (s.fires w session) := by
  rw [State.fires]
  split
  · split
    · exact ⟨rfl, rfl⟩
    · exact ⟨rfl, rfl⟩
  split
  · exact ⟨rfl, rfl⟩
  split
  · exact ⟨rfl, rfl⟩
  · exact ⟨rfl, rfl⟩

theorem keeps_checkDue (s : State) (writes : Bool) : Keeps s (s.checkDue writes) := by
  rw [State.checkDue]
  split
  · split
    · split
      · exact ⟨rfl, rfl⟩
      split
      · exact ⟨rfl, rfl⟩
      split
      · exact (keeps_fires _ _ _).of_row rfl
      · exact ⟨rfl, rfl⟩
    · exact ⟨rfl, rfl⟩
  · exact ⟨rfl, rfl⟩

theorem keeps_previousEnds (s : State) (ended : Option Bool) : Keeps s (s.previousEnds ended) := by
  rw [State.previousEnds]
  split
  · split
    · split
      · exact ⟨rfl, rfl⟩
      split
      · exact ⟨rfl, rfl⟩
      · exact keeps_target s _
    · exact ⟨rfl, rfl⟩
  · exact ⟨rfl, rfl⟩

theorem keeps_applyCheck (s : State) (now : Date) (writes : Bool) : Keeps s (s.applyCheck now writes) := by
  rw [State.applyCheck]
  split
  · split
    · exact ⟨rfl, rfl⟩
    show Keeps s (if s.row.cancelled.isSome = true ∨ _ ∨ _ then _ else _)
    split
    · exact ⟨rfl, rfl⟩
    split
    · exact ⟨rfl, rfl⟩
    · exact (keeps_target _ _).of_checking
  · exact ⟨rfl, rfl⟩

/-! ### While nothing will be sent again -/

theorem Quiet.tick (h : Quiet s) (now : Date) : s.tick now = s := by
  rw [State.tick]
  rcases h with ⟨_, hc⟩ | ⟨w, hw, _⟩
  · exact if_pos (.inr hc)
  · exact if_pos (.inl (hw ▸ rfl))

/-- The phases before the send are not those of a delivery that sent. -/
theorem Cancelling.admitted (h : Cancelling w) : w.phase.admitted = true := by
  rcases h with ⟨session, hp⟩ | ⟨sessionId, lastRunId, rest, hp, _⟩
  · exact hp ▸ rfl
  · exact hp ▸ rfl

theorem Quiet.admitted (h : Quiet s) (hw : s.work = some w) : w.phase.admitted = true := by
  rcases h with ⟨hn, _⟩ | ⟨w', hw', hc⟩
  · cases hn.symm.trans hw
  · cases hw.symm.trans hw'
    exact hc.admitted

theorem Quiet.readSession (h : Quiet s) (answer : Answer) (compacts writes : Bool) :
    s.readSession answer compacts writes = s := by
  rw [State.readSession]
  split
  next w hw =>
    split
    next hp =>
      exact absurd (h.admitted hw) (by rw [hp]; exact Bool.false_ne_true)
    · rfl
  · rfl

theorem Quiet.compacted (h : Quiet s) (writes : Bool) : s.compacted writes = s := by
  rw [State.compacted]
  split
  next w hw =>
    split
    next hp =>
      exact absurd (h.admitted hw) (by rw [hp]; exact Bool.false_ne_true)
    · rfl
  · rfl

theorem Quiet.checkDue (h : Quiet s) (writes : Bool) : s.checkDue writes = s := by
  rw [State.checkDue]
  split
  next w hw =>
    split
    next hp =>
      exact absurd (h.admitted hw) (by rw [hp]; exact Bool.false_ne_true)
    · rfl
  · rfl

theorem Quiet.previousEnds (h : Quiet s) (ended : Option Bool) : s.previousEnds ended = s := by
  rw [State.previousEnds]
  split
  next w hw =>
    split
    next hp =>
      exact absurd (h.admitted hw) (by rw [hp]; exact Bool.false_ne_true)
    · rfl
  · rfl

theorem Quiet.applyCheck (h : Quiet s) (now : Date) (writes : Bool) : Quiet (s.applyCheck now writes) := by
  rw [State.applyCheck]
  split
  · split
    · exact h
    rename_i hw
    rcases h with ⟨_, hc⟩ | ⟨w, hw', _⟩
    · show Quiet (if s.row.cancelled.isSome = true ∨ _ ∨ _ then _ else _)
      rw [if_pos (.inl hc)]
      exact .inl ⟨rfl, hc⟩
    · rw [hw'] at hw
      exact absurd rfl hw
  · exact h

theorem Quiet.check {checking : Option Check} (h : Quiet s) : Quiet { s with checking := checking } := h

theorem Quiet.row (h : Quiet s) {row : Row} (hc : s.row.cancelled.isSome = true → row.cancelled.isSome = true) :
    Quiet { s with row := row } :=
  h.imp_left fun ⟨hw, hs⟩ => ⟨hw, hc hs⟩

/-! ### The delivery that sends -/

theorem recordings_getLast (row : Row) (started : Bool) (ho : row.once = true) :
    (recordings row started).getLast? = some .cancel := by
  rw [recordings, ho, List.getLast?_append]
  rfl

theorem FiredOnce.admitted (h : FiredOnce s) : FiredOnce s.admitted := by
  rw [State.admitted]
  split
  next w hw =>
    split
    next session hp =>
      intro ho
      rcases h ho with hnil | ⟨_, hq⟩
      · right
        refine ⟨?_, .inr ⟨_, rfl, .inl ⟨session, rfl⟩⟩⟩
        show (s.sent ++ [w.due]).length = 1
        rw [hnil]
        rfl
      · -- the work in progress has sent already
        have ha := hq.admitted hw
        rw [hp] at ha
        cases ha
    · exact h
  · exact h

theorem FiredOnce.sendEnds (h : FiredOnce s) (hd : DueOnce s) {started : Option SessionId}
    (hu : Undisturbed s (.sendEnds started)) : FiredOnce (s.sendEnds started) := by
  rw [State.sendEnds]
  split
  next w hw =>
    have hquiet : s.row.once = true → ∀ sessionId rest, rest.getLast? = some .cancel →
        Quiet { s with work := some { w with phase := .recording sessionId none rest } } :=
      fun _ sessionId rest hl => .inr ⟨_, rfl, .inr ⟨sessionId, none, rest, rfl, hl⟩⟩
    have hlast : s.row.once = true → ∀ started, (recordings w.row started).getLast? = some .cancel :=
      fun ho started => recordings_getLast w.row started ((hd.work w hw).once.trans ho)
    split
    · intro ho
      exact (h ho).imp_right fun ⟨hl, _⟩ => ⟨hl, hquiet ho _ _ (hlast ho false)⟩
    · intro ho
      exact (h ho).imp_right fun ⟨hl, _⟩ => ⟨hl, hquiet ho _ _ (hlast ho true)⟩
    next session admitted hp =>
      intro ho
      refine (h ho).imp_right fun ⟨_, hq⟩ => ?_
      -- it rejects, and the message was admitted: what `Undisturbed` leaves out
      have hadm : admitted = true := by
        have := hq.admitted hw
        rw [hp] at this
        exact this
      have haft : s.afterSend = true := by
        rw [State.afterSend, hw, Option.any_some, hp]
        exact hadm
      exact absurd (hu ho haft) id
    · exact h
  · exact h

theorem FiredOnce.record (h : FiredOnce s) {ok : Bool} {answer : Option String}
    (hu : Undisturbed s (.record ok answer)) : FiredOnce (s.record ok answer) := by
  rw [State.record]
  split
  next w hw =>
    split
    next sessionId lastRunId r rest hp =>
      have haft : s.afterSend = true := by
        rw [State.afterSend, hw, Option.any_some, hp]
        rfl
      have hrow := record_row s.row w.now sessionId (if r = .get then answer else lastRunId) r
      -- what is left of the delivery ends with the cancellation
      have hleft : s.sent ≠ [] → s.row.once = true → (r :: rest).getLast? = some .cancel := by
        intro hne ho
        rcases (h ho).resolve_left hne with ⟨_, ⟨hn, _⟩ | ⟨w', hw', hc⟩⟩
        · rw [hn] at hw
          cases hw
        cases hw.symm.trans hw'
        rcases hc with ⟨session, hp'⟩ | ⟨_, _, rest', hp', hl⟩
        · cases hp.symm.trans hp'
        · cases hp.symm.trans hp'
          exact hl
      split
      next hok =>
        intro ho
        rcases h ho with hnil | _
        · exact .inl hnil
        have := hu ho haft
        rw [this] at hok
        cases hok
      · show FiredOnce (if rest = [] then _ else _)
        split
        next hrest =>
          intro ho
          have ho' : s.row.once = true := hrow.2.2.symm.trans ho
          by_cases hnil : s.sent = []
          · exact .inl hnil
          have hl := hleft hnil ho'
          rw [hrest] at hl
          cases hl
          exact .inr ⟨((h ho').resolve_left hnil).1, .inl ⟨rfl, rfl⟩⟩
        next hrest =>
          intro ho
          have ho' : s.row.once = true := hrow.2.2.symm.trans ho
          by_cases hnil : s.sent = []
          · exact .inl hnil
          have hl := hleft hnil ho'
          rw [List.getLast?_cons_of_ne_nil hrest] at hl
          exact .inr ⟨((h ho').resolve_left hnil).1, .inr ⟨_, rfl, .inr ⟨sessionId, _, rest, rfl, hl⟩⟩⟩
    · exact h
  · exact h

theorem FiredOnce.restart (h : FiredOnce s) (hu : Undisturbed s .restart) :
    FiredOnce { s with work := none, checking := none } := by
  intro ho
  refine (h ho).imp_right fun ⟨hl, hq⟩ => ⟨hl, ?_⟩
  rcases hq with ⟨_, hc⟩ | ⟨w, hw, hc⟩
  · exact .inl ⟨rfl, hc⟩
  have haft : s.afterSend = true := by
    rw [State.afterSend, hw]
    exact hc.admitted
  exact absurd (hu ho haft) id

theorem FiredOnce.kept (h : FiredOnce s) (hd : DueOnce s) (e : Event) (hu : Undisturbed s e) :
    FiredOnce (step s e) := by
  cases e with
  | tick now => exact h.same (keeps_tick s now) fun hq => hq.tick now
  | readSession answer compacts writes =>
    exact h.same (keeps_readSession s answer compacts writes) fun hq => hq.readSession answer compacts writes
  | compacted writes => exact h.same (keeps_compacted s writes) fun hq => hq.compacted writes
  | checkDue writes => exact h.same (keeps_checkDue s writes) fun hq => hq.checkDue writes
  | previousEnds ended => exact h.same (keeps_previousEnds s ended) fun hq => hq.previousEnds ended
  | admitted => exact h.admitted
  | sendEnds started => exact h.sendEnds hd hu
  | record ok answer => exact h.record hu
  | commandEnds fired =>
    show FiredOnce (s.commandEnds fired)
    rw [State.commandEnds]
    split
    · exact h.keeps ⟨rfl, rfl⟩ Quiet.check
    · exact h
  | applyCheck now writes => exact h.keeps (keeps_applyCheck s now writes) fun hq => hq.applyCheck now writes
  | checkDone aborted =>
    show FiredOnce (s.checkDone aborted)
    rw [State.checkDone]
    split
    · exact h.keeps ⟨rfl, rfl⟩ Quiet.check
    · split
      · exact h.keeps ⟨rfl, rfl⟩ Quiet.check
      · exact h
    · exact h
  | cancel reason => exact h.keeps ⟨rfl, rfl⟩ fun hq => hq.row fun _ => rfl
  | replaceSession =>
    show FiredOnce (if s.row.target = .own then _ else s)
    split
    · exact h.keeps ⟨rfl, rfl⟩ fun hq => hq.row id
    · exact h
  | restart => exact h.restart hu

/-! ## Runs -/

/-- Whatever fails and whenever the process ends, a due time has at most one prompt. -/
theorem due_once (schedule : Schedule) (row : Row) (es : List Event) : (run schedule row es).sent.Nodup :=
  (Run.exec_invariant DueOnce (fun _ e h => h.kept e) (DueOnce.init schedule row) es).nodup

/-- A run in which nothing fails between a `once` automation's send and its cancellation sends its
prompt at most once, and any run sends at most one for each due time. -/
theorem delivers_at_most_once (schedule : Schedule) (row : Row) (es : List Event)
    (hes : Run.Along step Undisturbed (.init schedule row) es) :
    AtMostOnce (run schedule row es) := by
  have h : DueOnce (run schedule row es) ∧ FiredOnce (run schedule row es) := by
    refine Run.Along.invariant (fun s => DueOnce s ∧ FiredOnce s) ?_ ?_ hes
    · intro s e hu h
      exact ⟨h.1.kept e, h.2.kept h.1 e hu⟩
    · exact ⟨DueOnce.init schedule row, fun _ => .inl rfl⟩
  refine ⟨h.1.nodup, fun ho => ?_⟩
  rcases h.2 ho with hnil | ⟨hl, _⟩
  · rw [hnil]
    decide
  · exact Nat.le_of_eq hl

def daily : Schedule := .interval 86400000 (by decide)

def reminder : Row :=
  { target := .session, sessionId := some "session", trigger := .schedule, once := true,
    nextRunAt := 32400000, lastSend := none, cancelled := none }

def idleSession : Answer := .session { id := "session", archived := false, running := false, lastRunId := none }

def delivery (now : Date) : List Event :=
  [.tick now, .readSession idleSession false true, .checkDue true, .admitted,
    .sendEnds (some "session"), .record true none]

theorem delivers_at_most_once_reminder : AtMostOnce (run daily reminder
      (delivery 32400000 ++ [.record true none, .record true none, .record true none] ++ delivery 118800000)) :=
  delivers_at_most_once daily reminder _ (by decide)

/-- The session cannot be read again after the send, and the reminder is given the next day too. -/
theorem reminder_given_twice : ¬ AtMostOnce (run daily reminder
      (delivery 32400000 ++ [.record false none] ++ delivery 118800000)) := by
  intro h
  have := h.once (by decide)
  exact absurd this (by decide)

end Reins.Automations
