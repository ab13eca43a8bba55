import IouringRuntime.Session.Moves

/-!
# Who deletes an operation

An operation is allocated, and then it is in one place: it is in flight, or
its handler has returned `kComplete` and `Dispatch` has still to delete it, or
it is deleted. `Owned held s` counts the three, with `held` the operations
that wait for `Dispatch`; over a configuration they are read off the stack.
-/

namespace IouringRuntime

open Reentrant

namespace Session

/-- The operations that `Dispatch` deletes when it gets control back. -/
def completing (st : List SFrame) : List OpId :=
  st.filterMap fun
    | .code (.dispatched id .kComplete) => some id
    | _ => none

structure Owned (held : List OpId) (l : Life) : Prop where
  once : ∀ id, l.deleted.count id + (l.inFlight.map Op.id).count id + held.count id =
    if id < l.nextOp then 1 else 0
  recv : ∀ id, l.activeRecvEv = some id → .recv id ∈ l.inFlight
  send : ∀ id, l.activeSendEv = some id → ∃ op, .send op ∈ l.inFlight ∧ op.id = id

variable {held : List OpId} {o : Outcome} {idle : Prop} {s t u : Session} {r : Seg}

@[simp] theorem completing_append (xs ys : List SFrame) :
    completing (xs ++ ys) = completing xs ++ completing ys := List.filterMap_append

theorem completing_plain {st : List SFrame} (h : st.all isPlain = true) : completing st = [] := by
  refine List.filterMap_eq_nil_iff.2 fun f hf => ?_
  have hp := List.all_eq_true.1 h f hf
  cases f with
  | callback => rfl
  | code i =>
    cases i with
    | dispatched => cases hp
    | _ => rfl

/-! ## Moves -/

/-- One more operation is allocated, and is in one place. -/
theorem Owned.count_fresh {n x y id : Nat} (h : x = if id < n then 1 else 0)
    (hnew : y = x + if n = id then 1 else 0) : y = if id < n + 1 then 1 else 0 := by
  subst h hnew
  split_ifs <;> omega

/-- A fresh operation goes in flight. -/
theorem Owned.arm (h : Owned held s.life) {op : Op} (hid : op.id = s.nextOp) :
    Owned held (s.arm op).life where
  once := by
    intro id
    refine Owned.count_fresh (h.once id) ?_
    show s.deleted.count id + ((s.inFlight ++ [op]).map Op.id).count id + held.count id =
      s.deleted.count id + (s.inFlight.map Op.id).count id + held.count id +
        ite (s.nextOp = id) 1 0
    rw [List.map_append, List.map_singleton, List.count_append, List.count_singleton, hid]
    simp only [beq_iff_eq]
    omega
  recv := fun id hr => List.mem_append_left _ (h.recv id hr)
  send := fun id hs => (h.send id hs).imp fun _ hop => ⟨List.mem_append_left _ hop.1, hop.2⟩

theorem Owned.move (h : Owned held s.life) (hm : Move o idle s t) : Owned held t.life := by
  cases hm with
  | aside hl => rw [hl]; exact h
  | touch => exact { h with }
  | refused kind hp =>
    refine { h with once := fun id => Owned.count_fresh (h.once id) ?_ }
    show (s.deleted ++ [s.nextOp]).count id + (s.inFlight.map Op.id).count id + held.count id =
      s.deleted.count id + (s.inFlight.map Op.id).count id + held.count id +
        ite (s.nextOp = id) 1 0
    rw [List.count_append, List.count_singleton]
    simp only [beq_iff_eq]
    omega
  | shut cause ho hi hn hp =>
    have hb : Owned held (s.beginDisconnect cause).life := { h with }
    exact { hb.arm rfl with }
  | unshut cause ho hi hf => exact { h with }
  | armCancel target hs hd ha => exact h.arm rfl
  | drain hs hd => exact { h with }
  | closed ho hc hio happ => exact { h with }

theorem Owned.arms (h : Owned held s.life) (ha : Arms s t) : Owned held t.life := by
  cases ha with
  | none => exact h
  | recv ho ha =>
    refine { h.arm rfl with recv := fun id hid => ?_ }
    cases hid
    exact List.mem_append_right _ (List.mem_singleton_self _)
  | send op ho ha hid =>
    have hop : (Op.send op).id = _ := hid
    refine { h.arm hop with send := fun id hid => ?_ }
    cases hid
    exact ⟨op, List.mem_append_right _ (List.mem_singleton_self _), rfl⟩

theorem Owned.effect (h : Owned held s.life) (he : Effect o idle s t) : Owned held t.life :=
  he.keep (I := fun s => Owned held s.life) (J := fun s => Owned held s.life)
    (fun hm h => h.move hm) (fun ha h => h.arms ha) h

theorem Owned.completePendingIo (h : Owned held s.life) : Owned held s.completePendingIo.life := by
  unfold Session.completePendingIo
  split <;> exact { h with }

/-! ## Completions -/

/-- The final CQE is taken from the ring: the operation waits for `Dispatch`. -/
theorem Owned.retire (h : Owned held s.life) {id : OpId} {op : Op}
    (hop : s.inFlight.find? (·.id == id) = some op) :
    (∀ id', s.deleted.count id' + ((s.retire op.id).inFlight.map Op.id).count id' +
        (op.id :: held).count id' = if id' < s.nextOp then 1 else 0) ∧
      ∀ op' ∈ s.inFlight, op' ≠ op → op' ∈ (s.retire op.id).inFlight := by
  obtain ⟨rfl, xs, ys, hs, hr⟩ := retire_split hop
  rw [hr, hs]
  constructor
  · intro id'
    have hcount : s.deleted.count id' + (s.inFlight.map Op.id).count id' + held.count id' =
      if id' < s.nextOp then 1 else 0 := h.once id'
    rw [← hcount, hs]
    simp only [List.map_append, List.map_cons, List.count_append, List.count_cons]
    omega
  · intro op' hmem hne
    simp only [List.mem_append, List.mem_cons] at hmem ⊢
    tauto

/-- `OnSend` forgets the operation it completes. -/
theorem owned_clearActiveSend (h : Owned held s.life) {id : OpId} {op : SendOp}
    (hop : s.inFlight.find? (·.id == id) = some (.send op)) :
    Owned (op.id :: held) ((s.retire op.id).clearActiveSend op.id).life := by
  obtain ⟨honce, hkeep⟩ := h.retire hop
  have hrecv (id' : OpId) (ha : s.activeRecvEv = some id') :
      .recv id' ∈ (s.retire op.id).inFlight :=
    hkeep _ (h.recv id' ha) Op.noConfusion
  unfold clearActiveSend
  split
  · exact ⟨honce, hrecv, fun _ ha => by cases ha⟩
  · next hne =>
    refine ⟨honce, hrecv, fun id' ha => ?_⟩
    obtain ⟨op', hm, rfl⟩ := h.send id' ha
    refine ⟨op', hkeep _ hm fun he => hne ?_, rfl⟩
    cases he
    exact ha

theorem owned_complete (h : Owned [] s.life) {id : OpId} {op : Op} {cqe : Cqe}
    (hop : s.inFlight.find? (·.id == id) = some op) (hc : Completes o s op cqe r) :
    Owned (completing r.2) r.1.life := by
  obtain ⟨honce, hkeep⟩ := h.retire hop
  -- the active operations other than the completed one stay in flight
  have hrecv (hk : op.kind ≠ .recv) (id' : OpId) (ha : s.activeRecvEv = some id') :
      .recv id' ∈ (s.retire op.id).inFlight :=
    hkeep _ (h.recv id' ha) fun he => hk (he ▸ rfl)
  have hsend (hk : op.kind ≠ .send) (id' : OpId) (ha : s.activeSendEv = some id') :
      ∃ op', .send op' ∈ (s.retire op.id).inFlight ∧ op'.id = id' := by
    obtain ⟨op', hm, hid⟩ := h.send id' ha
    exact ⟨op', hkeep _ hm fun he => hk (he ▸ rfl), hid⟩
  cases hc with
  | @more id cqe r hm hr =>
    have htail : completing (recvTail id cqe) = [] := by simp [completing, recvTail, hm]
    rw [Seg.andThen_snd, completing_append, completing_plain hr.frames, htail]
    exact h.effect hr.effect
  | @last id cqe r hm hr =>
    have htail : completing (recvTail id cqe) = [id] := by simp [completing, recvTail, hm]
    rw [Seg.andThen_snd, completing_append, completing_plain hr.frames, htail]
    have hret : Owned [id] ((s.retire id).setActiveRecvEv none).life :=
      ⟨honce, fun _ ha => (by cases ha), hsend (by simp [Op.kind])⟩
    exact hret.effect hr.effect
  | @sent op cqe r hr =>
    rw [Seg.andThen_snd, completing_append, completing_plain hr.frames]
    exact (owned_clearActiveSend h hop).completePendingIo.effect hr.effect
  | @resent op cqe t iovecs bufs ho hl =>
    have ht := owned_clearActiveSend h hop
    rw [← hl] at ht
    refine ⟨fun id' => ?_, fun id' ha => ?_, fun id' ha => ?_⟩
    · have honce : t.deleted.count id' + (t.inFlight.map Op.id).count id' + [op.id].count id' =
        if id' < t.nextOp then 1 else 0 := ht.once id'
      show t.deleted.count id' + ((t.inFlight ++ [_]).map Op.id).count id' + 0 =
        if id' < t.nextOp then 1 else 0
      rw [← honce, List.map_append, List.count_append]
      exact (Nat.add_assoc _ _ _).symm
    · exact List.mem_append_left _ (ht.recv id' ha)
    · cases ha
      exact ⟨_, List.mem_append_right _ (List.mem_singleton_self _), rfl⟩
  | @control op cqe r hk hr =>
    rw [Seg.andThen_snd, completing_append, completing_plain hr.frames]
    have hne : op.kind ≠ .recv ∧ op.kind ≠ .send := by rcases hk with hk | hk <;> simp [hk]
    have hret : Owned [op.id] (s.retire op.id).life := ⟨honce, hrecv hne.1, hsend hne.2⟩
    exact hret.completePendingIo.effect hr.effect

/-! ## The machine -/

theorem owned_exec (i : Instr) (h : Owned (completing [.code i] ++ held) s.life) :
    Owned (completing (exec o s i).2 ++ held) (exec o s i).1.life := by
  by_cases hd : ∃ id r, i = .dispatched id r
  · obtain ⟨id, r, rfl⟩ := hd
    cases r with
    | kPending => exact h
    | kComplete =>
      refine { h with once := fun id' => ?_ }
      have honce : s.deleted.count id' + (s.inFlight.map Op.id).count id' + (id :: held).count id' =
        if id' < s.nextOp then 1 else 0 := h.once id'
      show (s.deleted ++ [id]).count id' + (s.inFlight.map Op.id).count id' + held.count id' =
        if id' < s.nextOp then 1 else 0
      rw [← honce, List.count_append, List.count_singleton, List.count_cons]
      omega
  · push Not at hd
    have hheld : completing [.code i] = [] := by
      cases i with
      | dispatched id r => exact absurd rfl (hd id r)
      | _ => rfl
    by_cases hr : i = .release
    · subst hr
      exact { h with }
    · have hdoes := does_exec o s hd hr
      have hb : Owned held (s.before i).life := by
        rw [hheld] at h
        cases i with
        | onRecvTail res more =>
          show Owned held (s.completeRecv more).life
          unfold completeRecv
          split
          · exact h
          · exact h.completePendingIo
        | _ => exact h
      rw [completing_plain hdoes.frames]
      exact hb.effect hdoes.effect

theorem owned_preserved :
    machine.Preserved fun s st => Owned (completing st) s.life where
  exec := by
    intro o s i rest h
    have h' : Owned (completing ([.code i] ++ rest)) s.life := h
    rw [completing_append] at h' ⊢
    exact owned_exec i h'
  call := by
    intro o s a st _ h
    have hdoes := does_call o s a
    have hb : Owned (completing st) (s.entered a).life := by
      cases a with
      | beginAppIo => exact { h with }
      | endAppIo =>
        show Owned _ s.completeAppIo.life
        unfold completeAppIo
        split <;> exact { h with }
      | _ => exact h
    rw [completing_append, show completing (machine.call o s a).2 = [] from
      completing_plain hdoes.frames]
    exact hb.effect hdoes.effect
  ret := by
    intro s k b rest h
    cases k <;> exact { h with }
  event := by
    intro o s e r he h
    obtain ⟨op, hop, -, rfl⟩ := event_cases he
    exact owned_complete h hop (completes o s op e.2)

theorem owned_reachable {cfg : Config} {c : SConf} (hr : Reachable cfg c) :
    Owned (completing c.stack) c.state.life :=
  owned_preserved.reachable hr ⟨fun _ => rfl, fun _ h => (by cases h), fun _ h => (by cases h)⟩

/-! ## Deletions -/

/-- What is deleted between `s` and `t` was allocated after `s` and refused by its `Prep*`. -/
def Refuses (o : Outcome) (s t : Session) : Prop :=
  s.nextOp ≤ t.nextOp ∧ ∀ id ∈ t.deleted, id ∈ s.deleted ∨
    s.nextOp ≤ id ∧ id < t.nextOp ∧ ∃ kind, o.prep kind = false

/-- All but a refused operation leave the deleted ones alone. -/
theorem Refuses.keep {s₀ : Session} (h : Refuses o s₀ s) (hd : t.deleted = s.deleted)
    (hn : s.nextOp ≤ t.nextOp) : Refuses o s₀ t := by
  refine ⟨h.1.trans hn, fun id hid => ?_⟩
  rw [hd] at hid
  exact (h.2 id hid).imp_right fun ⟨h1, h2, h3⟩ => ⟨h1, h2.trans_le hn, h3⟩

theorem Refuses.move {s₀ : Session} (h : Refuses o s₀ s) (hm : Move o idle s t) :
    Refuses o s₀ t := by
  cases hm with
  | aside hl => exact h.keep (congrArg Life.deleted hl) (congrArg Life.nextOp hl).ge
  | refused kind hp =>
    refine ⟨h.1.trans (Nat.le_succ _), fun id hid => ?_⟩
    rcases List.mem_append.1 hid with hid | hid
    · exact (h.2 id hid).imp_right fun ⟨h1, h2, h3⟩ => ⟨h1, h2.trans (Nat.lt_succ_self _), h3⟩
    · rw [List.mem_singleton.1 hid]
      exact .inr ⟨h.1, Nat.lt_succ_self _, kind, hp⟩
  | touch | unshut | drain | closed => exact h.keep rfl (Nat.le_refl _)
  | shut | armCancel => exact h.keep rfl (Nat.le_succ _)

theorem Refuses.arms {s₀ : Session} (h : Refuses o s₀ s) (ha : Arms s t) : Refuses o s₀ t := by
  cases ha with
  | none => exact h
  | recv | send => exact h.keep rfl (Nat.le_succ _)

theorem Refuses.effect (h : Effect o idle t u) (hd : t.deleted = s.deleted)
    (hn : t.nextOp = s.nextOp) : Refuses o s u := by
  refine Effect.keep h (fun hm h => Refuses.move h hm) (fun ha h => Refuses.arms h ha)
    ⟨hn.ge, fun id hid => ?_⟩
  rw [hd] at hid
  exact .inl hid

/-- Where a step's deletions come from. -/
theorem deleted_step {c c' : SConf} {i : SInput} (hs : machine.step c i = some c') :
    ∀ id ∈ c'.state.deleted, id ∈ c.state.deleted ∨
      (∃ rest, c.stack = .code (.dispatched id .kComplete) :: rest) ∨
      (c.state.nextOp ≤ id ∧ id < c'.state.nextOp ∧
        ∃ o kind, outcome i = some o ∧ o.prep kind = false) := by
  intro id hid
  cases stepped hs with
  | effect ho hu he =>
    have hr := Refuses.effect he hu.deleted hu.nextOp
    rcases hr.2 id hid with hmem | ⟨h1, h2, kind, h3⟩
    · exact .inl hmem
    · exact .inr (.inr ⟨h1, h2, _, kind, ho, h3⟩)
  | resent op _ hu hl =>
    have hd : c'.state.deleted = c.state.deleted := (congrArg Life.deleted hl).trans hu.deleted
    exact .inl (hd ▸ hid)
  | rest deleted releaseCalls hl hd =>
    rw [show c'.state.deleted = deleted from congrArg Life.deleted hl] at hid
    exact (hd id hid).imp_right .inl

/-- **Completion-op ownership.** In every configuration of every run an
operation that has been allocated is in one place: deleted, in flight, or its
handler has returned `kComplete` and `Dispatch` is about to delete it. So no
operation is deleted twice or while it is in flight, and none is lost. The two
active operations are in flight and not deleted. A step deletes only the
operation whose handler has returned `kComplete`, or one that it has just
allocated and whose `Prep*` failed. -/
theorem op_ownership {cfg : Config} {c : SConf} (hr : Reachable cfg c) :
    (∀ id, c.state.deleted.count id + (c.state.inFlight.map Op.id).count id +
      (completing c.stack).count id = if id < c.state.nextOp then 1 else 0) ∧
    (∀ id ∈ c.state.deleted, id ∉ c.state.inFlight.map Op.id) ∧
    (∀ id, c.state.activeRecvEv = some id →
      .recv id ∈ c.state.inFlight ∧ id ∉ c.state.deleted) ∧
    (∀ id, c.state.activeSendEv = some id →
      (∃ op, .send op ∈ c.state.inFlight ∧ op.id = id) ∧ id ∉ c.state.deleted) ∧
    (∀ i c', machine.step c i = some c' → ∀ id ∈ c'.state.deleted, id ∈ c.state.deleted ∨
      (∃ rest, c.stack = .code (.dispatched id .kComplete) :: rest) ∨
      (c.state.nextOp ≤ id ∧ id < c'.state.nextOp ∧
        ∃ o kind, outcome i = some o ∧ o.prep kind = false)) := by
  have h := owned_reachable hr
  have hdisj : ∀ id ∈ c.state.deleted, id ∉ c.state.inFlight.map Op.id := by
    intro id hd hf
    have hcount : c.state.deleted.count id + (c.state.inFlight.map Op.id).count id +
      (completing c.stack).count id = if id < c.state.nextOp then 1 else 0 := h.once id
    have h1 := List.count_pos_iff.2 hd
    have h2 := List.count_pos_iff.2 hf
    split at hcount <;> omega
  refine ⟨h.once, hdisj, fun id ha => ?_, fun id ha => ?_, fun i c' hs => deleted_step hs⟩
  · have hm : .recv id ∈ c.state.inFlight := h.recv id ha
    exact ⟨hm, fun hd => hdisj id hd (List.mem_map_of_mem hm)⟩
  · obtain ⟨op, hm, rfl⟩ := h.send id ha
    exact ⟨⟨op, hm, rfl⟩, fun hd => hdisj op.id hd (List.mem_map_of_mem (f := Op.id) hm)⟩

/-- A send goes out in two parts, its operation put back in flight in between;
then the session is disconnected with a cancel that cannot be prepared. -/
def refusedCancelRun : List SInput :=
  [.call {} .start, .ret false, .exec {}, .call {} (.send ⟨[1, 2]⟩), .exec {}, .exec {}, .exec {},
    .event {} (1, ⟨1, false, []⟩), .exec {}, .event {} (1, ⟨1, false, []⟩), .ret false, .exec {},
    .exec {}, .exec {}, .call { prepCancel := false } .disconnect]

theorem op_ownership_refusedCancel :
    ∃ c, machine.run (initConf {}) refusedCancelRun = some c ∧ c.state.deleted = [1, 3] ∧
      c.state.inFlight.map Op.id = [0, 2] ∧ c.state.nextOp = 4 ∧
      c.state.deleted.count 1 + (c.state.inFlight.map Op.id).count 1 +
        (completing c.stack).count 1 = 1 := by
  refine ⟨_, rfl, rfl, rfl, rfl, ?_⟩
  exact (@op_ownership {} _ (.of_run refusedCancelRun rfl)).1 1

end Session

end IouringRuntime
