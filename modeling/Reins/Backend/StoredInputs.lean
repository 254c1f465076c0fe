import Reins.Backend.RuntimeInUse

/-!
# The inputs a lane stores (`findAdmitted`, `pi-runtime.ts`)

An input is queued and moves from the queue to the entries in one commit, never back. A call that found it
in neither, the queue looked at first, goes by that until it commits the input itself: nothing but its own
commit stores it meanwhile.
-/

namespace Reins.StoredInputs

open PiRuntime RuntimeInUse List

/-! ## The lane -/

def queuedIds (l : Lane) : List ReinsId := l.queue.map Input.reinsId

def storedIds (l : Lane) : List ReinsId := (l.queue ++ l.entries).map Input.reinsId

structure Keeps (l l' : Lane) : Prop where
  queued : ∀ x ∈ queuedIds l', x ∈ queuedIds l
  stored : ∀ x ∈ storedIds l', x ∈ storedIds l
  nodup : (storedIds l).Nodup → (storedIds l').Nodup

section

variable {l l' : Lane} {x : ReinsId} {pick : Pick} {request : Request} {answer : Answer}

theorem Keeps.refl (l : Lane) : Keeps l l := ⟨fun _ hx => hx, fun _ hx => hx, fun h => h⟩

theorem Keeps.trans {l'' : Lane} (h : Keeps l l') (h' : Keeps l' l'') : Keeps l l'' :=
  ⟨fun x hx => h.queued x (h'.queued x hx), fun x hx => h.stored x (h'.stored x hx), fun hl => h'.nodup (h.nodup hl)⟩

theorem storedIds_capture (l : Lane) (n : Nat) : (storedIds (l.capture n)).Perm (storedIds l) := by
  apply List.Perm.map
  show (l.queue.drop n ++ (l.entries ++ l.queue.take n)).Perm (l.queue ++ l.entries)
  calc l.queue.drop n ++ (l.entries ++ l.queue.take n)
      _ = (l.queue.drop n ++ l.entries) ++ l.queue.take n := (append_assoc ..).symm
      List.Perm _ (l.queue.take n ++ (l.queue.drop n ++ l.entries)) := perm_append_comm
      _ = (l.queue.take n ++ l.queue.drop n) ++ l.entries := (append_assoc ..).symm
      _ = l.queue ++ l.entries := by rw [take_append_drop]

theorem Keeps.capture (l : Lane) (n : Nat) : Keeps l (l.capture n) := by
  have hperm := storedIds_capture l n
  constructor
  · intro x hx
    obtain ⟨input, hinput, rfl⟩ := mem_map.mp hx
    exact mem_map_of_mem (mem_of_mem_drop hinput)
  · intro x hx
    exact hperm.mem_iff.mp hx
  · intro hl
    exact hperm.nodup_iff.mpr hl

theorem Keeps.begin (l : Lane) (op : OperationId) : Keeps l (l.begin op) := ⟨fun _ hx => hx, fun _ hx => hx, fun h => h⟩

theorem Keeps.discard (l : Lane) : Keeps l { l with queue := [] } := by
  have hsub : (storedIds { l with queue := [] }).Sublist (storedIds l) :=
    (sublist_append_right l.queue l.entries).map _
  constructor
  · intro x hx
    cases hx
  · intro x hx
    exact hsub.mem hx
  · intro hl
    exact hsub.nodup hl

theorem not_stored (hqueue : x ∉ queuedIds l) (hentries : x ∉ l.entries.map Input.reinsId) : x ∉ storedIds l := by
  intro hx
  unfold storedIds at hx
  rw [map_append, mem_append] at hx
  exact hx.elim hqueue hentries

/-- `findAdmitted` finds nothing where no item is the input's. -/
theorem isInput_none_iff {items : List Input} : isInput x items = none ↔ x ∉ items.map Input.reinsId := by
  unfold isInput
  rw [find?_eq_none]
  constructor
  · intro h hx
    obtain ⟨input, hinput, rfl⟩ := mem_map.mp hx
    exact h input hinput (decide_eq_true rfl)
  intro h input hinput heq
  apply h
  rw [← of_decide_eq_true heq]
  exact mem_map_of_mem hinput

/-! ### Its answers -/

theorem serve_keeps (h : l.serve pick request = some (l', answer))
    (hprompt : ∀ x, request ≠ .acceptPrompt x) (hsteer : ∀ x, request ≠ .steer x) : Keeps l l' := by
  cases request with
  | watch =>
    cases h
    exact .refl l
  | findEntries limit =>
    cases limit with
    | none =>
      cases h
      exact .refl l
    | some limit =>
      cases h
      exact .refl l
  | inspectExecution =>
    cases h
    exact .refl l
  | acceptPrompt x => exact absurd rfl (hprompt x)
  | acceptQueued =>
    simp only [Lane.serve] at h
    split at h
    · cases h
      exact .refl l
    split at h
    · cases h
      exact .refl l
    split at h
    · cases h
    · cases h
      exact (Keeps.capture l _).trans (Keeps.begin _ _)
  | acceptCompaction =>
    simp only [Lane.serve] at h
    split at h
    · cases h
      exact .refl l
    split at h
    · cases h
      exact .refl l
    split at h
    · cases h
    · cases h
      exact Keeps.begin l _
  | steer x => exact absurd rfl (hsteer x)

theorem nodup_steer (hl : (storedIds l).Nodup) (hx : x ∉ storedIds l)
    (h : l.serve pick (.steer x) = some (l', answer)) : (storedIds l').Nodup := by
  cases h
  have hperm : (((l.queue ++ [(⟨pick.entryId, x⟩ : Input)]) ++ l.entries).map Input.reinsId).Perm
      (x :: storedIds l) := by
    rw [append_assoc]
    exact perm_middle.map Input.reinsId
  exact hperm.nodup_iff.mpr (nodup_cons.mpr ⟨hx, hl⟩)

theorem nodup_acceptPrompt (hl : (storedIds l).Nodup) (hx : x ∉ storedIds l)
    (h : l.serve pick (.acceptPrompt x) = some (l', answer)) : (storedIds l').Nodup := by
  simp only [Lane.serve] at h
  split at h
  · cases h
    exact hl
  split at h
  · cases h
  cases h
  have hkeeps := Keeps.capture l pick.captured
  show (((l.capture pick.captured).queue ++ ((l.capture pick.captured).entries ++ [_])).map _).Nodup
  rw [← append_assoc, map_append, nodup_append]
  refine ⟨hkeeps.nodup hl, nodup_singleton _, ?_⟩
  intro y hy z hz heq
  obtain rfl : z = x := mem_singleton.mp hz
  exact hx (hkeeps.stored z (heq ▸ hy))

end

/-! ## What a call goes by -/

/-- A call that may still commit an input. -/
def submitting (call : Call) : Bool :=
  match call.phase with
  | .resuming | .compacting | .compactInspecting | .leaving | .done => false
  | _ => true

def GoesBy (l : Lane) (call : Call) : Prop :=
  match call.phase, call.answer with
  | .watching, some (.queues items) => isInput call.reinsId items = none → call.reinsId ∉ queuedIds l
  -- not queued when it looked, and what is not queued does not become an entry
  | .finding, some (.entries items) =>
    call.reinsId ∉ queuedIds l ∧ (isInput call.reinsId items = none → call.reinsId ∉ storedIds l)
  | .finding, _ => call.reinsId ∉ queuedIds l
  | .looked none, _ | .admitInspecting, _ | .admitReopened _, _ => call.reinsId ∉ storedIds l
  -- until the lane answers: the answer may have stored it
  | .accepting, none | .steering, none => call.reinsId ∉ storedIds l
  | _, _ => True

section

variable {l l' : Lane} {r : Runtime} {call : Call} {act : Act} {pick : Pick} {request : Request} {answer : Answer}

theorem GoesBy.keeps (h : GoesBy l call) (hkeeps : Keeps l l') : GoesBy l' call := by
  unfold GoesBy at h ⊢
  split at h
  · exact fun hnone hx => h hnone (hkeeps.queued _ hx)
  · exact ⟨fun hx => h.1 (hkeeps.queued _ hx), fun hnone hx => h.2 hnone (hkeeps.stored _ hx)⟩
  · exact fun hx => h (hkeeps.queued _ hx)
  · exact fun hx => h (hkeeps.stored _ hx)
  · exact fun hx => h (hkeeps.stored _ hx)
  · exact fun hx => h (hkeeps.stored _ hx)
  · exact fun hx => h (hkeeps.stored _ hx)
  · exact fun hx => h (hkeeps.stored _ hx)
  · trivial

theorem GoesBy.of_not_submitting (h : submitting call = false) : GoesBy l call := by
  unfold submitting at h
  unfold GoesBy
  split at h
  all_goals first | (rename_i hphase; rw [hphase]; trivial) | cases h

theorem GoesBy.unqueued (h : GoesBy l call) (hphase : call.phase = .finding) : call.reinsId ∉ queuedIds l := by
  obtain ⟨op, x, phase, answer, frames, registered⟩ := call
  obtain rfl : phase = .finding := hphase
  cases answer with
  | none => exact h
  | some answer =>
    cases answer with
    | entries items => exact h.1
    | _ => exact h

theorem GoesBy.acted (h : GoesBy l call) (hnext : r.next call = some act) : GoesBy l (Call.acted call act) := by
  obtain ⟨op, x, phase, answer, frames, registered⟩ := call
  unfold Runtime.next at hnext
  split at hnext
  · cases hnext
  · cases hnext
  · cases hnext
    trivial
  · -- expanding
    split at hnext
    · cases hnext
      trivial
    · cases hnext
      trivial
  · -- joined
    split at hnext
    · cases hnext
      trivial
    · cases hnext
  · -- watching
    rename_i items hphase hanswer
    obtain rfl : phase = .watching := hphase
    obtain rfl : answer = some (.queues items) := hanswer
    split at hnext
    · cases hnext
      trivial
    next hnone =>
      cases hnext
      exact h hnone
  · -- finding
    rename_i items hphase hanswer
    obtain rfl : phase = .finding := hphase
    obtain rfl : answer = some (.entries items) := hanswer
    cases hnext
    cases hnone : isInput x items with
    | none => exact h.2 hnone
    | some item => trivial
  · -- looked
    rename_i found hphase _
    obtain rfl : phase = .looked found := hphase
    split at hnext
    · cases hnext
      trivial
    · split at hnext
      · cases hnext
        trivial
      · cases hnext
        trivial
    · split at hnext
      · cases hnext
        exact h
      · cases hnext
        exact h
    · cases hnext
      trivial
    · cases hnext
      exact h
  · -- replayInspecting
    cases hnext
    trivial
  · -- replayReopened
    cases hnext
    trivial
  · -- admitInspecting
    rename_i current hphase hanswer
    obtain rfl : phase = .admitInspecting := hphase
    cases hnext
    exact h
  · -- admitReopened
    rename_i reopened hphase _
    obtain rfl : phase = .admitReopened (some reopened) := hphase
    cases hnext
    exact h
  next hphase _ =>
    obtain rfl : phase = .admitReopened none := hphase
    cases hnext
    exact h
  · -- accepting
    cases hnext
    trivial
  · cases hnext
    trivial
  · -- confirming
    split at hnext
    · cases hnext
      trivial
    · cases hnext
      trivial
    · cases hnext
      trivial
  · -- steering
    cases hnext
    trivial
  · -- steerInspecting
    cases hnext
    trivial
  · -- resuming
    cases hnext
    trivial
  · -- compacting
    cases hnext
    trivial
  · split at hnext
    · cases hnext
      trivial
    · cases hnext
      trivial
  · cases hnext
    trivial
  · -- compactInspecting
    cases hnext
    trivial
  · cases hnext

theorem request_keeps (hrequest : call.request = some request) (hphase : call.phase ≠ .accepting)
    (hphase' : call.phase ≠ .steering) (hserve : l.serve pick request = some (l', answer)) :
    Keeps l l' := by
  obtain ⟨op, x, phase, _, frames, registered⟩ := call
  apply serve_keeps hserve
  · intro y heq
    rw [heq] at hrequest
    cases phase with
    | accepting => exact hphase rfl
    | _ => cases hrequest
  · intro y heq
    rw [heq] at hrequest
    cases phase with
    | steering => exact hphase' rfl
    | _ => cases hrequest

/-- **What the lane answers a call**: only a call that found its input nowhere commits it. -/
theorem GoesBy.served (h : GoesBy l call) (hl : (storedIds l).Nodup) (hanswer : call.answer = none)
    (hrequest : call.request = some request) (hserve : l.serve pick request = some (l', answer)) :
    (storedIds l').Nodup ∧ GoesBy l' { call with answer := some answer } := by
  have hkeeps := fun hphase hphase' => request_keeps hrequest hphase hphase' hserve
  obtain ⟨op, x, phase, _, frames, registered⟩ := call
  obtain rfl := hanswer
  cases phase with
  -- the two requests that store an input
  | accepting =>
    cases hrequest
    exact ⟨nodup_acceptPrompt hl h hserve, trivial⟩
  | steering =>
    cases hrequest
    exact ⟨nodup_steer hl h hserve, trivial⟩
  -- the two that look for it
  | watching =>
    cases hrequest
    cases hserve
    exact ⟨hl, fun hnone => isInput_none_iff.mp hnone⟩
  | finding =>
    cases hrequest
    cases hserve
    exact ⟨hl, h, fun hnone => not_stored h (isInput_none_iff.mp hnone)⟩
  | admitInspecting =>
    have hkept := hkeeps nofun nofun
    exact ⟨hkept.nodup hl, fun hx => h (hkept.stored _ hx)⟩
  | expanding | joined | looked | replayReopened | admitReopened | leaving | done => cases hrequest
  | replayInspecting | confirming | steerInspecting | resuming | compacting | compactInspecting =>
    exact ⟨(hkeeps nofun nofun).nodup hl, trivial⟩

theorem GoesBy.failed (h : GoesBy l call) (hrejects : call.rejects = true) :
    GoesBy l { call with answer := some .failed } := by
  have hunqueued := h.unqueued
  obtain ⟨op, x, phase, answer, frames, registered⟩ := call
  cases phase with
  | finding => exact hunqueued rfl
  | admitInspecting => exact h
  | looked | replayReopened | admitReopened | leaving | done => cases hrejects
  | _ => trivial

theorem submitting_acted (hnext : r.next call = some act)
    (hnot : submitting call = false) : submitting (Call.acted call act) = false := by
  obtain ⟨op, x, phase, answer, frames, registered⟩ := call
  cases phase with
  | leaving | done => cases hnext
  | resuming | compactInspecting =>
    cases answer with
    | none => cases hnext
    | some answer =>
      cases answer with
      | failed | execution =>
        cases hnext
        rfl
      | _ => cases hnext
  | compacting =>
    cases answer with
    | none => cases hnext
    | some answer =>
      cases answer with
      | failed | accepted =>
        cases hnext
        rfl
      | refused error =>
        cases error with
        | laneBusy =>
          simp only [Runtime.next] at hnext
          split at hnext
          · cases hnext
            rfl
          · cases hnext
            rfl
        | invalidMessage | nothingToCompact =>
          cases hnext
          rfl
      | _ => cases hnext
  | _ => cases hnot

end

/-! ## A step of a runtime -/

/-- The call that the step makes is a submission's. -/
def submits : PiRuntime.Event → Bool
  | .prompt _ | .steer _ => true
  | _ => false

inductive Stepped (s s' : PiRuntime.State) : Prop
  | same (hcalls : s'.runtime.calls = s.runtime.calls) (hkeeps : Keeps s.lane s'.lane)
  | added (call : Call) (hcall : submitting call = false)
      (hcalls : s'.runtime.calls = s.runtime.calls ++ [call]) (hkeeps : Keeps s.lane s'.lane)
  | went (i : CallId) (call call' : Call) (hcall : s.runtime.calls[i]? = some call)
      (hcalls : s'.runtime.calls = s.runtime.calls.set i call')
      (hsubmitting : submitting call' = true → submitting call = true)
      (hkeeps : Keeps s.lane s'.lane ∨ submitting call = true)
      (hgoes : (storedIds s.lane).Nodup → GoesBy s.lane call → (storedIds s'.lane).Nodup ∧ GoesBy s'.lane call')

section

theorem leave_calls (r : Runtime) (i : CallId) (call : Call) (hleaving : call.phase = .leaving) :
    ∃ call', (r.leave i call).calls = r.calls.set i call' ∧ submitting call' = false := by
  unfold Runtime.leave
  cases call.frames with
  | succ frames =>
    refine ⟨{ call with frames }, noteBusy_calls _, ?_⟩
    unfold submitting
    rw [hleaving]
  | zero =>
    refine ⟨{ call with phase := .done, frames := 0, registered := false }, ?_, rfl⟩
    dsimp only
    split <;> rfl

theorem stepped_proceed (s : PiRuntime.State) (i : CallId) : Stepped s { s with runtime := s.runtime.proceed i } := by
  unfold Runtime.proceed
  cases hcall : s.runtime.calls[i]? with
  | none => exact .same rfl (.refl _)
  | some call =>
    dsimp only
    split
    next hleaving =>
      obtain ⟨call', hcalls, hnot⟩ := leave_calls s.runtime i call hleaving
      refine .went i call call' hcall hcalls ?_ (.inl (.refl _)) ?_
      · intro hyes
        cases hnot.symm.trans hyes
      · exact fun hl _ => ⟨hl, .of_not_submitting hnot⟩
    · cases hnext : s.runtime.next call with
      | none => exact .same rfl (.refl _)
      | some act =>
        refine .went i call (Call.acted call act) hcall (perform_calls ..) ?_ (.inl (.refl _)) ?_
        · intro hyes
          by_contra hnot
          rw [submitting_acted hnext (Bool.eq_false_iff.mpr hnot)] at hyes
          cases hyes
        · exact fun hl hgoes => ⟨hl, hgoes.acted hnext⟩

theorem stepped_serve (s : PiRuntime.State) (i : CallId) (pick : Pick) : Stepped s (s.serve i pick) := by
  unfold State.serve
  cases hcall : s.runtime.calls[i]? with
  | none => exact .same rfl (.refl _)
  | some call =>
    dsimp only
    split
    next lane answer hanswer hserve =>
      obtain ⟨request, hrequest, hserve⟩ := Option.bind_eq_some_iff.mp hserve
      refine .went i call { call with answer := some answer } hcall rfl ?_ ?_ ?_
      · exact fun hyes => hyes
      · by_cases hsubmitting : submitting call = true
        · exact .inr hsubmitting
        refine .inl (request_keeps hrequest ?_ ?_ hserve)
        · intro hphase
          apply hsubmitting
          unfold submitting
          rw [hphase]
        · intro hphase
          apply hsubmitting
          unfold submitting
          rw [hphase]
      · exact fun hl hgoes => hgoes.served hl hanswer hrequest hserve
    · exact .same rfl (.refl _)

theorem stepped_fail (s : PiRuntime.State) (i : CallId) : Stepped s { s with runtime := s.runtime.fail i } := by
  unfold Runtime.fail
  cases hcall : s.runtime.calls[i]? with
  | none => exact .same rfl (.refl _)
  | some call =>
    dsimp only
    split
    next hrejects =>
      refine .went i call { call with answer := some .failed } hcall rfl ?_ (.inl (.refl _)) ?_
      · exact fun hyes => hyes
      · exact fun hl hgoes => ⟨hl, hgoes.failed hrejects⟩
    · exact .same rfl (.refl _)

/-- **What one step does**, case by case. -/
theorem stepped (s : PiRuntime.State) {e : PiRuntime.Event} (he : submits e = false) :
    Stepped s (PiRuntime.step s e) := by
  cases e with
  | prompt reinsId | steer reinsId => cases he
  | resume => exact .added (.new .resume "" .resuming 1) rfl (noteBusy_calls _) (.refl _)
  | compact =>
    show Stepped s { s with runtime := if _ then _ else _ }
    split
    · exact .same rfl (.refl _)
    · exact .added (.new .compact "" .compacting 1) rfl (noteBusy_calls _) (.refl _)
  | serve i pick => exact stepped_serve s i pick
  | fail i => exact stepped_fail s i
  | proceed i => exact stepped_proceed s i
  | serveStart i pick =>
    show Stepped s (s.serveStart i pick)
    unfold State.serveStart
    split
    next hserve =>
      exact .same rfl (serve_keeps hserve nofun nofun)
    · exact .same rfl (.refl _)
  | failStart i =>
    show Stepped s { s with runtime := s.runtime.failStart i }
    unfold Runtime.failStart
    split <;> exact .same rfl (.refl _)
  | proceedStart i =>
    show Stepped s { s with runtime := s.runtime.proceedStart i }
    unfold Runtime.proceedStart
    split
    · exact .same rfl (.refl _)
    · exact .same rfl (.refl _)
    · exact .same (noteBusy_calls _) (.refl _)
    · exact .same rfl (.refl _)
    · exact .same (noteBusy_calls _) (.refl _)
    · exact .same rfl (.refl _)
  | driveSettled i =>
    show Stepped s { s with runtime := s.runtime.driveSettled i }
    unfold Runtime.driveSettled
    split
    · exact .same rfl (.refl _)
    · exact .same (noteBusy_calls _) (.refl _)
  | runEnd | endApplied => exact .same (noteBusy_calls _) (.refl _)
  | whenIdle =>
    show Stepped s { s with runtime := s.runtime.whenIdle }
    unfold Runtime.whenIdle
    split <;> exact .same rfl (.refl _)
  | capture n => exact .same rfl (.capture _ n)
  | terminal => exact .same rfl ⟨fun _ hx => hx, fun _ hx => hx, fun h => h⟩
  | discard => exact .same rfl (.discard _)

end

end Reins.StoredInputs
