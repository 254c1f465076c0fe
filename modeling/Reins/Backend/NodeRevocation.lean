import Reins.Backend.NodeHub

/-!
# Revoking and removing a node (`backend/src/models/node.ts`)

A hello is refused for a node that is revoked or removed, and revoking or removing a node closes the
link it has. A connection whose hello was let through and that is not registered yet has no link to
close: where there is none at the revocation, the node has no link from then on.
-/

open Utf Schema List

namespace Reins.NodeHub

def Conn.isFor (conn : Conn) (n : NodeId) : Bool := conn.negotiated.any fun neg => neg.nodeId = n

/-- An open connection of the node is between its hello's being let through and its registration. -/
def Hub.between (h : Hub) (n : NodeId) : Bool :=
  (h.tasks.any fun t => t.phase = .building ∧ t.hello.nodeId = n ∧ ¬ (h.conns[t.conn]?).any Conn.socketClosed) ||
    h.pending.any fun c => !(h.conns[c]?).any fun conn => conn.socketClosed || !conn.isFor n

def Settled (h : Hub) : Event → Prop
  | .revoke n | .remove n => h.between n = false
  | _ => True

instance (h : Hub) (e : Event) : Decidable (Settled h e) := by
  cases e <;> unfold Settled <;> infer_instance

def Hub.Blocked (h : Hub) (n : NodeId) : Prop := ∃ row, h.rows n = some row ∧ row.blocked = true

structure Gone (h : Hub) (n : NodeId) : Prop where
  link : ∀ c, h.links n = some c → ∃ conn : Conn, h.conns[c]? = some conn ∧ conn.socketClosed = true
  task : ∀ t ∈ h.tasks, t.phase = .building → t.hello.nodeId = n →
    ∃ conn : Conn, h.conns[t.conn]? = some conn ∧ conn.socketClosed = true
  pending : ∀ c ∈ h.pending, ∃ conn : Conn, h.conns[c]? = some conn ∧ (conn.socketClosed = true ∨ conn.isFor n = false)

theorem between_iff (h : Hub) (n : NodeId) : h.between n = false ↔
    (∀ t ∈ h.tasks, t.phase = .building → t.hello.nodeId = n →
      ∃ conn : Conn, h.conns[t.conn]? = some conn ∧ conn.socketClosed = true) ∧
    ∀ c ∈ h.pending, ∃ conn : Conn, h.conns[c]? = some conn ∧ (conn.socketClosed = true ∨ conn.isFor n = false) := by
  simp [Hub.between, Option.any_eq_true]

/-- A step that makes no link and lets no hello through. -/
structure Frame (h h' : Hub) : Prop where
  links : ∀ n c, h'.links n = some c → h.links n = some c
  tasks : ∀ t ∈ h'.tasks, t.phase = .building → t ∈ h.tasks
  pending : ∀ c ∈ h'.pending, c ∈ h.pending
  conns : ∀ (i : Nat) (x : Conn), h.conns[i]? = some x → ∃ x' : Conn, h'.conns[i]? = some x' ∧
    x'.negotiated = x.negotiated ∧ (x.socketClosed = true → x'.socketClosed = true)
  registered : h'.registered = h.registered

section

variable {h h' h'' : Hub} {n : NodeId} {c : Nat} {conn conn' : Conn}

theorem Frame.refl (h : Hub) : Frame h h :=
  ⟨fun _ _ => id, fun _ ht _ => ht, fun _ => id, fun _ x hx => ⟨x, hx, rfl, id⟩, rfl⟩

theorem Frame.trans (f : Frame h h') (g : Frame h' h'') : Frame h h'' := by
  refine ⟨fun n c hn => f.links n c (g.links n c hn), fun t ht hp => f.tasks t (g.tasks t ht hp) hp,
    fun c hc => f.pending c (g.pending c hc), fun i x hx => ?_, g.registered.trans f.registered⟩
  obtain ⟨y, hy, hny, hsy⟩ := f.conns i x hx
  obtain ⟨z, hz, hnz, hsz⟩ := g.conns i y hy
  exact ⟨z, hz, hnz.trans hny, fun hs => hsz (hsy hs)⟩

theorem Frame.same (hc : h'.conns = h.conns) (hl : h'.links = h.links) (ht : h'.tasks = h.tasks)
    (hp : h'.pending = h.pending) (hr : h'.registered = h.registered) : Frame h h' :=
  ⟨fun _ _ hn => hl ▸ hn, fun _ hm _ => ht ▸ hm, fun _ hm => hp ▸ hm, fun _ x hx => ⟨x, hc ▸ hx, rfl, id⟩, hr⟩

theorem Frame.setConn (hconn : h.conns[c]? = some conn) (hn : conn'.negotiated = conn.negotiated)
    (hs : conn.socketClosed = true → conn'.socketClosed = true) : Frame h (h.setConn c conn') := by
  refine ⟨fun _ _ => id, fun _ ht _ => ht, fun _ => id, fun i x hx => ?_, rfl⟩
  rw [getElem?_setConn hconn]
  split
  next hi =>
    rw [hi] at hx
    cases hconn.symm.trans hx
    exact ⟨conn', rfl, hn, hs⟩
  · exact ⟨x, hx, rfl, id⟩

theorem Frame.shut (h : Hub) (c : Nat) : Frame h (h.shut c) := by
  unfold Hub.shut
  split
  next hconn =>
    exact .setConn hconn rfl fun _ => rfl
  · exact .refl h

theorem Frame.endTask (h : Hub) (t : Nat) (task : Task) : Frame h (h.endTask t task) := by
  refine ⟨fun _ _ => id, fun x hx hp => ?_, fun _ => id, fun i x hx => ⟨x, hx, rfl, id⟩, rfl⟩
  rcases mem_or_eq_of_mem_set hx with hx | rfl
  · exact hx
  · cases hp

theorem Frame.negotiationFailed (h : Hub) (n : NodeId) (message time : JsString) :
    Frame h (h.negotiationFailed n message time) := by
  unfold Hub.negotiationFailed
  split
  · exact .refl h
  · exact .same rfl rfl rfl rfl rfl

/-- A node's link is gone, and nothing else a frame reads. -/
theorem Frame.unlink (hc : h'.conns = h.conns) (hl : ∀ n c, h'.links n = some c → h.links n = some c)
    (ht : h'.tasks = h.tasks) (hp : h'.pending = h.pending) (hr : h'.registered = h.registered) :
    Frame h h' :=
  ⟨hl, fun _ hm _ => ht ▸ hm, fun _ hm => hp ▸ hm, fun _ x hx => ⟨x, hc ▸ hx, rfl, id⟩, hr⟩

theorem Frame.onclose (hconn : h.conns[c]? = some conn) : Frame h (h.onclose c conn) := by
  have hset : Frame h (h.setConn c { conn with ended := true, rejected := conn.rejected || conn.negotiated.isNone }) :=
    .setConn hconn rfl id
  unfold Hub.onclose
  simp only
  split
  next n _ =>
    split
    · refine hset.trans (.unlink rfl (fun m i hm => ?_) rfl rfl rfl)
      by_cases hmn : m = n
      · simp [Hub.publish, hmn] at hm
      · simpa [Hub.publish, hmn] using hm
    · exact hset
  · exact hset

theorem Frame.close (h : Hub) : Frame h h.close := by
  refine ⟨fun n c hn => absurd hn (by simp [Hub.close]), fun _ ht _ => ht, fun _ => id, fun i x hx => ?_, rfl⟩
  refine ⟨_, by rw [Hub.close, getElem?_mapIdx, hx, Option.map_some], ?_, ?_⟩
  · split <;> rfl
  split
  · exact fun _ => rfl
  · exact id

/-- **What is gone stays gone**, where no link is made and no hello let through. -/
theorem Gone.frame (g : Gone h n) (f : Frame h h') : Gone h' n := by
  refine ⟨fun c hc => ?_, fun t ht hp hn => ?_, fun c hc => ?_⟩
  · obtain ⟨x, hx, hs⟩ := g.link c (f.links n c hc)
    obtain ⟨x', hx', -, hs'⟩ := f.conns c x hx
    exact ⟨x', hx', hs' hs⟩
  · obtain ⟨x, hx, hs⟩ := g.task t (f.tasks t ht hp) hp hn
    obtain ⟨x', hx', -, hs'⟩ := f.conns t.conn x hx
    exact ⟨x', hx', hs' hs⟩
  · obtain ⟨x, hx, hs⟩ := g.pending c (f.pending c hc)
    obtain ⟨x', hx', hn, hs'⟩ := f.conns c x hx
    refine ⟨x', hx', hs.imp hs' fun hfor => ?_⟩
    rw [Conn.isFor, hn]
    exact hfor

/-! ## Hellos -/

theorem Gone.answer (g : Gone h n) (c : Nat) (a : HelloAnswer) : Gone (h.answer c a) n :=
  g.frame (.same rfl rfl rfl rfl rfl)

/-- A connection of another node, or one that closed, waits to become a link. -/
theorem Gone.push (g : Gone h n) (hconn : h.conns[c]? = some conn)
    (hs : conn.socketClosed = true → conn'.socketClosed = true)
    (hfor : conn'.socketClosed = true ∨ conn'.isFor n = false) :
    Gone { h.setConn c conn' with pending := h.pending ++ [c] } n := by
  have hget : ∀ i : Nat, (h.setConn c conn').conns[i]? = if i = c then some conn' else h.conns[i]? :=
    getElem?_setConn hconn
  have hclosed : ∀ (i : Nat) (x : Conn), h.conns[i]? = some x → x.socketClosed = true →
      ∃ x' : Conn, (h.setConn c conn').conns[i]? = some x' ∧ x'.socketClosed = true :=
    fun i x hx hsx => by
      rw [hget]
      split
      next hi =>
        rw [hi] at hx
        cases hconn.symm.trans hx
        exact ⟨conn', rfl, hs hsx⟩
      · exact ⟨x, hx, hsx⟩
  refine ⟨fun i hi => ?_, fun t ht hp hn => ?_, fun i hi => ?_⟩
  · obtain ⟨x, hx, hsx⟩ := g.link i hi
    exact hclosed i x hx hsx
  · obtain ⟨x, hx, hsx⟩ := g.task t ht hp hn
    exact hclosed t.conn x hx hsx
  · have hnew : i = c → ∃ x : Conn, (h.setConn c conn').conns[i]? = some x ∧
        (x.socketClosed = true ∨ x.isFor n = false) := fun hi => ⟨conn', by rw [hget, if_pos hi], hfor⟩
    rcases mem_append.mp hi with hi | hi
    · by_cases hic : i = c
      · exact hnew hic
      · obtain ⟨x, hx, hfx⟩ := g.pending i hi
        exact ⟨x, by rw [hget, if_neg hic, hx], hfx⟩
    · exact hnew (mem_singleton.mp hi)

theorem Gone.becomeReady (g : Gone h n) (hconn : h.conns[c]? = some conn) (hello : Hello)
    (docs : NodeDocs) (hother : hello.nodeId = n → conn.socketClosed = true) :
    Gone (h.becomeReady c hello docs) n := by
  unfold Hub.becomeReady
  rw [hconn]
  simp only
  split
  · have hset : Frame h (h.setConn c { conn with ready := true }) := .setConn hconn rfl id
    exact (g.frame hset).answer c _
  refine Gone.answer ?_ c _
  refine g.push hconn id ?_
  by_cases hn : hello.nodeId = n
  · exact Or.inl (hother hn)
  · exact Or.inr (by simp [Conn.isFor, hn])

theorem Gone.negotiate (g : Gone h n) (hconn : h.conns[c]? = some conn) (hello : Hello)
    (time : JsString) (hother : hello.nodeId = n → conn.socketClosed = true) :
    Gone (h.negotiate c hello time) n := by
  unfold Hub.negotiate
  split
  · exact (g.frame (.negotiationFailed ..)).answer c _
  split
  · exact g.answer c _
  · exact g.becomeReady hconn hello _ hother

theorem Gone.goOn (g : Gone h n) {task : Task} (hconn : h.conns[task.conn]? = some conn)
    (time : JsString) (hother : task.hello.nodeId = n → conn.socketClosed = true) :
    Gone (h.goOn task conn time) n := by
  unfold Hub.goOn
  split
  · exact g.answer _ _
  · exact g.negotiate hconn _ time hother

/-- **A blocked node's hello is refused.** -/
theorem serveNode_blocked (hb : h.Blocked n) : ∃ message, h.serveNode n = some message := by
  obtain ⟨row, hrow, hblocked⟩ := hb
  unfold Hub.serveNode
  rw [hrow]
  simp only
  split
  · exact ⟨_, rfl⟩
  rename_i hr
  have : row.revoked = true := by simpa [Row.blocked, hr] using hblocked
  rw [if_pos this]
  exact ⟨_, rfl⟩

theorem Gone.serve (g : Gone h n) (hb : h.Blocked n) (hconn : h.conns[c]? = some conn)
    (hello : Hello) (time : JsString) : Gone (h.serve c conn hello time) n := by
  unfold Hub.serve
  split
  · exact g.answer c _
  split
  · exact g.answer c _
  rename_i hserved
  have hne : hello.nodeId ≠ n := by
    rintro rfl
    obtain ⟨message, hm⟩ := serveNode_blocked hb
    rw [hserved] at hm
    cases hm
  split
  · refine ⟨g.link, fun t ht hp hn => ?_, g.pending⟩
    rcases mem_append.mp ht with ht | ht
    · exact g.task t ht hp hn
    · rw [mem_singleton.mp ht] at hn
      exact absurd hn hne
  · exact g.negotiate hconn hello time fun hn => absurd hn hne

theorem Gone.resume (g : Gone h n) (hb : h.Blocked n) {task : Task}
    (hconn : h.conns[task.conn]? = some conn) (proved : Option NodeId) (time : JsString) :
    Gone (h.resume task conn proved time) n := by
  unfold Hub.resume
  split
  · exact g.answer _ _
  split
  · exact g.answer _ _
  · exact g.serve hb hconn _ time

theorem Gone.offerUpdate (g : Gone h n) {task : Task} (hconn : h.conns[task.conn]? = some conn)
    (built : Hub.Built) (time : JsString) (hother : task.hello.nodeId = n → conn.socketClosed = true) :
    Gone (h.offerUpdate task conn built time) n := by
  have hbuild : ∀ id, Gone { h with serverBuildId := id } n := fun id => g.frame (.same rfl rfl rfl rfl rfl)
  unfold Hub.offerUpdate
  split
  · exact g.answer _ _
  · exact (hbuild none).goOn hconn time hother
  next bundle =>
    have hbundle := hbuild (some bundle.buildId)
    simp only
    split
    · exact hbundle.goOn hconn time hother
    split
    · exact hbundle.goOn hconn time hother
    · refine Gone.answer ?_ _ _
      exact hbundle.frame (.same rfl rfl rfl rfl rfl)

/-! ## Links -/

theorem Gone.pop (g : Gone h n) {rest : List Nat} (hp : h.pending = c :: rest) : Gone { h with pending := rest } n :=
  ⟨g.link, g.task, fun i hi => g.pending i (by simp only at hi; simp [hp, hi])⟩

theorem Gone.register (g : Gone h n) {rest : List Nat} (hp : h.pending = c :: rest)
    (hconn : h.conns[c]? = some conn) {neg : Negotiated} (hneg : conn.negotiated = some neg) :
    Gone ({ h with pending := rest }.register c conn neg) n ∧
      ∀ i, (n, i) ∈ ({ h with pending := rest }.register c conn neg).registered → (n, i) ∈ h.registered := by
  have gp := g.pop hp
  obtain ⟨x, hx, hclosed⟩ := g.pending c (by simp [hp])
  cases hconn.symm.trans hx
  unfold Hub.register
  split
  · exact ⟨gp, fun _ => id⟩
  rename_i hopen
  have hne : neg.nodeId ≠ n := by
    have hfor := hclosed.resolve_left hopen
    simpa [Conn.isFor, hneg] using hfor
  split
  · exact ⟨gp.frame (.shut ..), fun i hi => by simpa using hi⟩
  obtain ⟨conns, he⟩ := relink_eq { h with pending := rest } c conn neg
  have hget := getElem?_relink (h := { h with pending := rest }) hconn neg
  have hlinked : Gone ({ h with pending := rest }.relink c conn neg) n := by
    have hforward : ∀ (i : Nat) (x : Conn), h.conns[i]? = some x →
        ∃ x' : Conn, ({ h with pending := rest }.relink c conn neg).conns[i]? = some x' ∧
          x'.negotiated = x.negotiated ∧ (x.socketClosed = true → x'.socketClosed = true) := by
      intro i x hx
      rw [hget]
      by_cases hi : i = c
      · rw [hi] at hx
        cases hconn.symm.trans hx
        rw [if_pos hi, Option.map_some]
        refine ⟨_, rfl, ?_, ?_⟩
        · split <;> rfl
        split
        · exact fun _ => rfl
        · exact id
      · rw [if_neg hi, hx, Option.map_some]
        refine ⟨_, rfl, ?_, ?_⟩
        · split <;> rfl
        split
        · exact fun _ => rfl
        · exact id
    refine ⟨fun i hi => ?_, fun t ht hpt hn => ?_, fun i hi => ?_⟩
    · have hi : h.links n = some i := by
        rw [he] at hi
        exact (Function.update_of_ne hne.symm ..).symm.trans hi
      obtain ⟨y, hy, hs⟩ := g.link i hi
      obtain ⟨y', hy', -, hs'⟩ := hforward i y hy
      exact ⟨y', hy', hs' hs⟩
    · obtain ⟨y, hy, hs⟩ := gp.task t (by rw [he] at ht; exact ht) hpt hn
      obtain ⟨y', hy', -, hs'⟩ := hforward t.conn y hy
      exact ⟨y', hy', hs' hs⟩
    · obtain ⟨y, hy, hs⟩ := gp.pending i (by rw [he] at hi; exact hi)
      obtain ⟨y', hy', hn', hs'⟩ := hforward i y hy
      refine ⟨y', hy', hs.imp hs' fun hfor => ?_⟩
      rw [Conn.isFor, hn']
      exact hfor
  have hregistered : ∀ i, (n, i) ∈ ({ h with pending := rest }.relink c conn neg).registered →
      (n, i) ∈ h.registered := fun i hi => by
    rw [he] at hi
    rcases mem_append.mp hi with hi | hi
    · exact hi
    · exact absurd (Prod.mk.inj (mem_singleton.mp hi)).1 hne.symm
  simp only
  split
  · exact ⟨hlinked.frame (.same rfl rfl rfl rfl rfl), hregistered⟩
  · exact ⟨hlinked.frame (.same rfl rfl rfl rfl rfl), hregistered⟩

theorem Frame.block (h : Hub) (n : NodeId) (row : Row) : Frame h (h.block n row) := by
  have hrows : Frame h { h with rows := Function.update h.rows n (some row) } := .same rfl rfl rfl rfl rfl
  have hdisconnect : ∀ g : Hub, Frame g (g.disconnect n) := fun g => by
    unfold Hub.disconnect
    split
    · exact .shut ..
    · exact .refl _
  have hpublish : ∀ g : Hub, Frame g (g.publish n) := fun g => .same rfl rfl rfl rfl rfl
  exact hrows.trans ((hdisconnect _).trans (hpublish _))

theorem block_rows (h : Hub) (n : NodeId) (row : Row) : (h.block n row).rows = Function.update h.rows n (some row) := by
  simp only [Hub.block, Hub.publish, Hub.disconnect]
  split
  · exact shut_rows ..
  · rfl

/-! ## What a hello leaves alone -/

structure Quiet (h h' : Hub) : Prop where
  rows : h'.rows = h.rows
  registered : h'.registered = h.registered

theorem Quiet.shut (h : Hub) (c : Nat) : Quiet h (h.shut c) := ⟨shut_rows h c, shut_registered h c⟩

theorem Quiet.negotiationFailed (h : Hub) (n : NodeId) (message time : JsString) :
    Quiet h (h.negotiationFailed n message time) := by
  unfold Hub.negotiationFailed
  split <;> exact ⟨rfl, rfl⟩

theorem Quiet.becomeReady (h : Hub) (c : Nat) (hello : Hello) (docs : NodeDocs) :
    Quiet h (h.becomeReady c hello docs) := by
  unfold Hub.becomeReady
  split
  · split <;> exact ⟨rfl, rfl⟩
  · exact ⟨rfl, rfl⟩

theorem Quiet.negotiate (h : Hub) (c : Nat) (hello : Hello) (time : JsString) : Quiet h (h.negotiate c hello time) := by
  unfold Hub.negotiate
  split
  · obtain ⟨hrows, hreg⟩ := Quiet.negotiationFailed h hello.nodeId
      (noCommonVersion hello.minVersion hello.maxVersion) time
    exact ⟨hrows, hreg⟩
  split
  · exact ⟨rfl, rfl⟩
  · exact .becomeReady ..

theorem Quiet.serve (h : Hub) (c : Nat) (conn : Conn) (hello : Hello) (time : JsString) :
    Quiet h (h.serve c conn hello time) := by
  unfold Hub.serve
  split
  · exact ⟨rfl, rfl⟩
  split
  · exact ⟨rfl, rfl⟩
  split
  · exact ⟨rfl, rfl⟩
  · exact .negotiate ..

theorem Quiet.resume (h : Hub) (task : Task) (conn : Conn) (proved : Option NodeId)
    (time : JsString) : Quiet h (h.resume task conn proved time) := by
  unfold Hub.resume
  split
  · exact ⟨rfl, rfl⟩
  split
  · exact ⟨rfl, rfl⟩
  · exact .serve ..

theorem Quiet.goOn (h : Hub) (task : Task) (conn : Conn) (time : JsString) : Quiet h (h.goOn task conn time) := by
  unfold Hub.goOn
  split
  · exact ⟨rfl, rfl⟩
  · exact .negotiate ..

theorem Quiet.offerUpdate (h : Hub) (task : Task) (conn : Conn) (built : Hub.Built)
    (time : JsString) : Quiet h (h.offerUpdate task conn built time) := by
  have hgoOn : ∀ id, Quiet h ({ h with serverBuildId := id }.goOn task conn time) := fun id => by
    obtain ⟨hrows, hreg⟩ := Quiet.goOn { h with serverBuildId := id } task conn time
    exact ⟨hrows, hreg⟩
  unfold Hub.offerUpdate
  split
  · exact ⟨rfl, rfl⟩
  · exact hgoOn none
  · simp only
    split
    · exact hgoOn _
    split
    · exact hgoOn _
    · exact ⟨rfl, rfl⟩

theorem Quiet.onclose (h : Hub) (c : Nat) (conn : Conn) : Quiet h (h.onclose c conn) := by
  unfold Hub.onclose
  simp only
  split
  · split <;> exact ⟨rfl, rfl⟩
  · exact ⟨rfl, rfl⟩

theorem register_rows (h : Hub) (c : Nat) (conn : Conn) (neg : Negotiated) : (h.register c conn neg).rows = h.rows := by
  obtain ⟨conns, he⟩ := relink_eq h c conn neg
  unfold Hub.register
  split
  · rfl
  split
  · exact shut_rows ..
  simp only [he]
  split <;> rfl

/-- Only `register` registers, and only the nodes' rows' own operations change them. -/
theorem quiet_step (h : Hub) (e : Event) : Quiet h (step h e) ∨ (e = .register ∧ (step h e).rows = h.rows) ∨
    (∃ n, (e = .pair n ∨ e = .revoke n ∨ e = .remove n) ∧ (step h e).registered = h.registered) := by
  cases e with
  | accept | close => exact Or.inl ⟨rfl, rfl⟩
  | shut c => exact Or.inl (.shut h c)
  | proves c m valid =>
    refine Or.inl ?_
    simp only [step]
    split
    · split <;> exact ⟨rfl, rfl⟩
    · exact ⟨rfl, rfl⟩
  | fails c =>
    refine Or.inl ?_
    simp only [step]
    split
    · split <;> exact ⟨rfl, rfl⟩
    · exact ⟨rfl, rfl⟩
  | hello c hello time =>
    refine Or.inl ?_
    simp only [step]
    split
    · split
      · exact ⟨rfl, rfl⟩
      split
      · exact ⟨rfl, rfl⟩
      · exact .serve ..
    · exact ⟨rfl, rfl⟩
  | resume t time =>
    refine Or.inl ?_
    simp only [step]
    split
    · split
      · split
        · obtain ⟨hrows, hreg⟩ := Quiet.resume (h.endTask t _) _ _ _ time
          exact ⟨hrows, hreg⟩
        · exact ⟨rfl, rfl⟩
      · exact ⟨rfl, rfl⟩
    · exact ⟨rfl, rfl⟩
  | built t built time =>
    refine Or.inl ?_
    simp only [step]
    split
    · split
      · obtain ⟨hrows, hreg⟩ := Quiet.offerUpdate (h.endTask t _) _ _ built time
        exact ⟨hrows, hreg⟩
      · exact ⟨rfl, rfl⟩
    · exact ⟨rfl, rfl⟩
  | register =>
    refine Or.inr (Or.inl ⟨rfl, ?_⟩)
    simp only [step]
    split
    · split
      · split
        · exact register_rows ..
        · rfl
      · rfl
    · rfl
  | onclose c =>
    refine Or.inl ?_
    simp only [step]
    split
    · split
      · exact .onclose ..
      · exact ⟨rfl, rfl⟩
    · exact ⟨rfl, rfl⟩
  | pair n =>
    refine Or.inr (Or.inr ⟨n, Or.inl rfl, ?_⟩)
    simp only [step]
    split <;> rfl
  | revoke n =>
    refine Or.inr (Or.inr ⟨n, Or.inr (Or.inl rfl), ?_⟩)
    simp only [step]
    split
    · split
      · rfl
      · exact (Frame.block h n _).registered
    · rfl
  | remove n =>
    refine Or.inr (Or.inr ⟨n, Or.inr (Or.inr rfl), ?_⟩)
    simp only [step]
    split
    · split
      · rfl
      · exact (Frame.block h n _).registered
    · rfl

/-! ## Revocation -/

structure RevokedOk (h : Hub) : Prop where
  hub : HubOk h
  gone : ∀ n, h.Blocked n → Gone h n

theorem RevokedOk.fresh (rows : NodeId → Option Row) : RevokedOk (.fresh rows) := by
  refine ⟨.fresh rows, fun n _ => ?_⟩
  constructor <;> simp [Hub.fresh]

/-- **A node is revoked, or removed**, with no connection of it between: it is gone. -/
theorem Gone.block (ok : HubOk h) (hbetween : h.between n = false) (row : Row) : Gone (h.block n row) n := by
  obtain ⟨htask, hpending⟩ := (between_iff h n).mp hbetween
  have hframe := Frame.block h n row
  refine ⟨fun c hc => ?_, fun t ht hp hn => ?_, fun c hc => ?_⟩
  · have hlink := hframe.links n c hc
    obtain ⟨x, hx, -, -⟩ := ok.links.link n c hlink
    refine ⟨{ x with socketClosed := true }, ?_, rfl⟩
    simp only [Hub.block, Hub.publish, Hub.disconnect, hlink]
    rw [getElem?_shut, hx]
    simp
  · obtain ⟨x, hx, hs⟩ := htask t (hframe.tasks t ht hp) hp hn
    obtain ⟨x', hx', -, hs'⟩ := hframe.conns t.conn x hx
    exact ⟨x', hx', hs' hs⟩
  · obtain ⟨x, hx, hs⟩ := hpending c (hframe.pending c hc)
    obtain ⟨x', hx', hn', hs'⟩ := hframe.conns c x hx
    refine ⟨x', hx', hs.imp hs' fun hfor => ?_⟩
    rw [Conn.isFor, hn']
    exact hfor

theorem Gone.accept (g : Gone h n) : Gone { h with conns := h.conns ++ [conn] } n := by
  have hget : ∀ (i : Nat) (x : Conn), h.conns[i]? = some x → (h.conns ++ [conn])[i]? = some x :=
    fun i x hx => by rw [List.getElem?_append_left (List.getElem?_eq_some_iff.mp hx).1, hx]
  refine ⟨fun c hc => ?_, fun t ht hp hn => ?_, fun c hc => ?_⟩
  · obtain ⟨x, hx, hs⟩ := g.link c hc
    exact ⟨x, hget c x hx, hs⟩
  · obtain ⟨x, hx, hs⟩ := g.task t ht hp hn
    exact ⟨x, hget t.conn x hx, hs⟩
  · obtain ⟨x, hx, hs⟩ := g.pending c hc
    exact ⟨x, hget c x hx, hs⟩

/-- **What is gone stays gone**, whatever the hub does. -/
theorem Gone.step (g : Gone h n) (hb : h.Blocked n) (e : Event) : Gone (step h e) n := by
  cases e with
  | accept authenticate => exact g.accept
  | proves c m valid =>
    simp only [NodeHub.step]
    split
    next hconn =>
      split
      · exact g.frame (.setConn hconn rfl id)
      · exact g
    · exact g
  | fails c =>
    simp only [NodeHub.step]
    split
    next hconn =>
      split
      · exact g.frame (.setConn hconn rfl id)
      · exact g
    · exact g
  | hello c hello time =>
    simp only [NodeHub.step]
    split
    next hconn =>
      split
      · exact g
      split
      · refine ⟨g.link, fun t ht hp hn => ?_, g.pending⟩
        rcases mem_append.mp ht with ht | ht
        · exact g.task t ht hp hn
        · rw [mem_singleton.mp ht] at hp
          cases hp
      · exact g.serve hb hconn hello time
    · exact g
  | resume t time =>
    simp only [NodeHub.step]
    split
    · split
      next hconn =>
        split
        · exact (g.frame (.endTask h t _)).resume hb hconn _ time
        · exact g
      · exact g
    · exact g
  | built t built time =>
    simp only [NodeHub.step]
    split
    next task ht =>
      split
      next conn hphase hconn =>
        refine (g.frame (.endTask h t task)).offerUpdate hconn built time fun hn => ?_
        obtain ⟨x, hx, hs⟩ := g.task task (mem_of_getElem? ht) hphase hn
        rw [Option.some.inj (hconn.symm.trans hx)]
        exact hs
      · exact g
    · exact g
  | register =>
    simp only [NodeHub.step]
    split
    next hp =>
      split
      next hconn =>
        split
        next hneg =>
          exact (g.register hp hconn hneg).1
        · exact g
      · exact g
    · exact g
  | shut c => exact g.frame (.shut h c)
  | onclose c =>
    simp only [NodeHub.step]
    split
    next hconn =>
      split
      · exact g.frame (.onclose hconn)
      · exact g
    · exact g
  | pair m =>
    simp only [NodeHub.step]
    split
    · exact g.frame (.same rfl rfl rfl rfl rfl)
    · exact g
  | revoke m =>
    simp only [NodeHub.step]
    split
    · split
      · exact g
      · exact g.frame (.block h m _)
    · exact g
  | remove m =>
    simp only [NodeHub.step]
    split
    · split
      · exact g
      · exact g.frame (.block h m _)
    · exact g
  | close => exact g.frame (.close h)

/-- A node that is not blocked becomes so by being revoked or removed, with no connection between. -/
theorem blocked_step (ok : HubOk h) (e : Event) (hsettled : Settled h e)
    (hb : (NodeHub.step h e).Blocked n) : h.Blocked n ∨ Gone (NodeHub.step h e) n := by
  have hsame : (NodeHub.step h e).rows = h.rows → h.Blocked n ∨ Gone (NodeHub.step h e) n :=
    fun hr => Or.inl (by unfold Hub.Blocked at hb ⊢; rwa [hr] at hb)
  have hblock : ∀ m row, h.between m = false → (h.block m row).Blocked n →
      h.Blocked n ∨ Gone (h.block m row) n := fun m row hbetween ⟨r, hr, hbr⟩ => by
    by_cases hmn : n = m
    · subst hmn
      exact Or.inr (.block ok hbetween row)
    · rw [block_rows, Function.update_of_ne hmn] at hr
      exact Or.inl ⟨r, hr, hbr⟩
  rcases quiet_step h e with hq | ⟨-, hr⟩ | ⟨m, rfl | rfl | rfl, -⟩
  · exact hsame hq.rows
  · exact hsame hr
  · simp only [NodeHub.step] at hb ⊢
    split at hb
    · obtain ⟨r, hr, hbr⟩ := hb
      by_cases hmn : n = m
      · subst hmn
        obtain rfl : ⟨true, false, false⟩ = r := by simpa [Hub.publish] using hr
        exact absurd hbr (by simp [Row.blocked])
      · exact Or.inl ⟨r, by simpa [Hub.publish, hmn] using hr, hbr⟩
    · exact Or.inl hb
  · simp only [NodeHub.step] at hb ⊢
    split at hb
    · split at hb
      · exact Or.inl hb
      next hif =>
        rw [if_neg hif]
        exact hblock m _ hsettled hb
    · exact Or.inl hb
  · simp only [NodeHub.step] at hb ⊢
    split at hb
    · split at hb
      · exact Or.inl hb
      next hif =>
        rw [if_neg hif]
        exact hblock m _ hsettled hb
    · exact Or.inl hb

theorem RevokedOk.step (ok : RevokedOk h) (e : Event) (hsettled : Settled h e) : RevokedOk (NodeHub.step h e) :=
  ⟨ok.hub.step e, fun _ hb => (blocked_step ok.hub e hsettled hb).elim (fun hb => (ok.gone _ hb).step hb e) id⟩

/-- **No link is registered for it again.** -/
theorem Gone.registered (g : Gone h n) (e : Event) {i : Nat}
    (hi : (n, i) ∈ (NodeHub.step h e).registered) : (n, i) ∈ h.registered := by
  rcases quiet_step h e with hq | ⟨rfl, -⟩ | ⟨m, -, hr⟩
  · rwa [hq.registered] at hi
  · simp only [NodeHub.step] at hi
    split at hi
    next hp =>
      split at hi
      next hconn =>
        split at hi
        next hneg =>
          exact (g.register hp hconn hneg).2 i hi
        · exact hi
      · exact hi
    · exact hi
  · rwa [hr] at hi

theorem Gone.open?_none (g : Gone h n) : h.open? n = none := by
  cases ho : h.open? n with
  | none => rfl
  | some c =>
    obtain ⟨hl, hc⟩ := open?_eq ho
    obtain ⟨x, hx, hs⟩ := g.link c hl
    rw [Hub.isClosed, hx] at hc
    exact absurd hs (by simpa using hc)

end

/-- **A revoked or removed node has no link**, and none is registered for it again, in every run in
which nodes are revoked and removed while no connection of theirs is between its hello's being let
through and its registration. -/
theorem revoked_unlinked (rows : NodeId → Option Row) (es : List Event) (n : NodeId)
    (h : Run.Along step Settled (.fresh rows) es) (hb : (run rows es).Blocked n) :
    (run rows es).open? n = none ∧
      ∀ e i, (n, i) ∈ (step (run rows es) e).registered → (n, i) ∈ (run rows es).registered := by
  have ok : RevokedOk (run rows es) := h.invariant RevokedOk (fun _ e hsettled ok => ok.step e hsettled) (.fresh rows)
  have g := ok.gone n hb
  exact ⟨g.open?_none, fun e _ hi => g.registered e hi⟩

/-! ### Runs -/

def bundled : Hello := { source 16 16 with buildId := some (js "build") }

def theBundle : Bundle := ⟨js "build", js "build", js "1.3.9"⟩

/-- A paired node proves its key and says hello, and waits for the app's build. -/
def helloRun : List Event :=
  [.pair theNode, .accept true, .proves 0 theNode true, .hello 0 bundled (js "1"), .resume 0 (js "1")]

def revokedRun : List Event := helloRun ++ [.built 1 (.done theBundle) (js "2"), .register, .revoke theNode, .onclose 0]

theorem revoked_unlinked_linked : (theNode, 0) ∈ (run (fun _ => none) revokedRun).registered ∧
      (run (fun _ => none) revokedRun).open? theNode = none ∧
      ∀ e i, (theNode, i) ∈ (step (run (fun _ => none) revokedRun) e).registered →
        (theNode, i) ∈ (run (fun _ => none) revokedRun).registered :=
  ⟨by decide +kernel, revoked_unlinked (fun _ => none) revokedRun theNode (by decide +kernel)
    ⟨⟨true, true, false⟩, by decide +kernel, rfl⟩⟩

theorem revoked_linked : ∃ es : List Event, (run (fun _ => none) (helloRun ++ [.revoke theNode])).Blocked theNode ∧
      es = helloRun ++ [.revoke theNode, .built 1 (.done theBundle) (js "2"), .register] ∧
      (run (fun _ => none) es).Blocked theNode ∧ (run (fun _ => none) es).open? theNode = some 0 :=
  ⟨_, ⟨⟨true, true, false⟩, by decide +kernel, rfl⟩, rfl, ⟨⟨true, true, false⟩, by decide +kernel, rfl⟩,
    by decide +kernel⟩

end Reins.NodeHub
