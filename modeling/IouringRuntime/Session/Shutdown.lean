import IouringRuntime.Session.DrainGate

/-!
# Closing and the shutdown

`DisconnectOnOwner` prepares the shutdown once. If the operation cannot be
allocated or prepared it gives up, and neither `Tick` nor a completion tries
again: a session with an operation in flight then stays as it is until the
peer ends the connection. With nothing in flight and no application work the
session is closed at once, or by the handler that is running.

The observer of `watchTick` notes that a `Tick` has run between two events in a
session that had left `kOpen`, while the ring took every operation.
-/

namespace IouringRuntime

open Reentrant

namespace Session

def isTick : SInput → Bool
  | .call o (.tick _) =>
    [OpKind.recv, .send, .disconnect, .cancel].all o.prep && o.newDisconnect && o.newCancel
  | _ => false

/-- The machine with the observer of ticks. -/
def watchTick (x : SConf × Bool) (i : SInput) : Option (SConf × Bool) :=
  (machine.step x.1 i).map fun c =>
    (c, x.2 || (x.1.stack.isEmpty && x.1.state.state != .kOpen && isTick i))

/-- The session is closed, or a shutdown of its socket has been prepared. -/
def Settled (s : Session) : Prop := s.state = .kClosed ∨ s.shutdowns ≠ []

def shutdownFails (o : Outcome) : Bool := !(o.newDisconnect && o.prepDisconnect)

/-- Where the shutdown of an open session would fail, nothing else is pending;
and no application work begins in a session that closes without a shutdown. -/
def NothingLeft (x : SConf × Bool) (i : SInput) : Prop :=
  match i with
  | .call _ .beginAppIo => x.1.state.state = .kOpen ∨ x.1.state.Settled
  | i =>
    x.1.state.state = .kOpen → ∀ o, outcome i = some o → shutdownFails o = true →
      opsLeft x.1.state i = [] ∧ appIoLeft x.1.state i = 0

variable {o : Outcome} {idle : Prop} {s t : Session}

/-! ## One segment -/

theorem Settled.congr (h : t.life = s.life) (hs : s.Settled) : t.Settled := by
  unfold Settled at *
  rw [show t.state = s.state from congrArg Life.state h,
    show t.shutdowns = s.shutdowns from congrArg Life.shutdowns h]
  exact hs

theorem Settled.move (hs : s.Settled) (hm : Move o idle s t) : t.Settled := by
  cases hm with
  | aside hl => exact hs.congr hl
  | touch | refused => exact hs
  | shut => exact .inr (List.append_ne_nil_of_right_ne_nil _ (List.cons_ne_nil _ _))
  | unshut cause ho => exact .inr (hs.resolve_left (by simp [ho]))
  | armCancel _ _ hd => exact .inr hd
  | drain _ hd => exact .inr hd
  | closed => exact .inl rfl

theorem Settled.effect (hs : s.Settled) (he : Effect o idle s t) : t.Settled := by
  refine he.keep (fun hm h => Settled.move h hm) (fun ha h => ?_) hs
  cases ha with
  | none => exact h
  | recv ho => exact .inr (h.resolve_left (by simp [ho]))
  | send op ho => exact .inr (h.resolve_left (by simp [ho]))

/-- A session that has left `kOpen` is settled, or nothing keeps it from being closed. -/
def Quiesced (s : Session) : Prop :=
  s.state = .kOpen ∨ s.Settled ∨ s.inFlight = [] ∧ s.pendingAppIo = 0

/-- If the shutdown fails now, nothing keeps the session from being closed. -/
def Spare (o : Outcome) (s : Session) : Prop :=
  s.state = .kOpen → shutdownFails o = true → s.inFlight = [] ∧ s.pendingAppIo = 0

theorem quiesced_move (h : s.Quiesced ∧ s.Spare o) (hm : Move o idle s t) :
    t.Quiesced ∧ t.Spare o := by
  obtain ⟨hq, hsp⟩ := h
  cases hm with
  | aside hl =>
    have hstate : t.state = s.state := congrArg Life.state hl
    have hops : t.inFlight = s.inFlight := congrArg Life.inFlight hl
    have happ : t.pendingAppIo = s.pendingAppIo := congrArg Life.pendingAppIo hl
    unfold Quiesced Spare
    rw [hstate, hops, happ]
    exact ⟨hq.imp_right (Or.imp_left (Settled.congr hl)), hsp⟩
  | touch | refused => exact ⟨hq, hsp⟩
  | shut =>
    exact ⟨.inr (.inl (.inr (List.append_ne_nil_of_right_ne_nil _ (List.cons_ne_nil _ _)))),
      fun h => SessionState.noConfusion h⟩
  | unshut cause ho _ hf =>
    exact ⟨.inr (.inr (hsp ho (by simp [shutdownFails, hf]))),
      fun h => SessionState.noConfusion h⟩
  | armCancel _ hs hd => exact ⟨.inr (.inl (.inr hd)), fun h => absurd (hs.symm.trans h) (by simp)⟩
  | drain _ hd => exact ⟨.inr (.inl (.inr hd)), fun h => SessionState.noConfusion h⟩
  | closed => exact ⟨.inr (.inl (.inl rfl)), fun h => SessionState.noConfusion h⟩

theorem Quiesced.effect (hq : s.Quiesced) (hsp : s.Spare o) (he : Effect o idle s t) :
    t.Quiesced := by
  refine he.keep (fun hm h => quiesced_move h hm) (fun ha h => ?_) ⟨hq, hsp⟩
  cases ha with
  | none => exact h.1
  | recv ho => exact .inl ho
  | send op ho => exact .inl ho

/-! ## One step -/

variable {c c' : SConf} {i : SInput} {b : Bool}

theorem Settled.step (h : c.state.Settled) (hs : machine.step c i = some c') :
    c'.state.Settled := by
  cases stepped hs with
  | effect _ hu he =>
    refine Settled.effect ?_ he
    unfold Settled
    rw [hu.state, hu.shutdowns]
    exact h
  | @resent u op ho hu hl =>
    have hsd : c'.state.shutdowns = c.state.shutdowns :=
      (congrArg Life.shutdowns hl).trans hu.shutdowns
    exact .inr (hsd ▸ h.resolve_left (by simp [ho]))
  | rest deleted releaseCalls hl =>
    unfold Settled
    rw [show c'.state.state = c.state.state from congrArg Life.state hl,
      show c'.state.shutdowns = c.state.shutdowns from congrArg Life.shutdowns hl]
    exact h

/-- Taking a completion and ending application work leave less to wait for. -/
theorem Quiesced.entered {u : Session} (h : s.Quiesced) (hu : Entered s i u)
    (hb : ∀ o, i ≠ .call o .beginAppIo) : u.Quiesced := by
  unfold Quiesced Settled
  rw [hu.state, hu.shutdowns, hu.inFlight, hu.pendingAppIo]
  refine h.imp_right (Or.imp_right fun ⟨hops, happ⟩ => ⟨?_, ?_⟩)
  · cases i with
    | event o e =>
      simp only [opsLeft, retire, hops, List.eraseP_nil, ite_self]
    | _ => exact hops
  · cases i with
    | call o a =>
      cases a with
      | beginAppIo => exact absurd rfl (hb o)
      | endAppIo => simp only [appIoLeft, happ]
      | _ => exact happ
    | _ => exact happ

theorem quiesced_step (h : c.state.Quiesced) (hQ : NothingLeft (c, b) i)
    (hs : machine.step c i = some c') : c'.state.Quiesced := by
  by_cases hb : ∃ o, i = .call o .beginAppIo
  · obtain ⟨o, rfl⟩ := hb
    have hQ : c.state.state = .kOpen ∨ c.state.Settled := hQ
    rcases hQ with ho | hset
    · rcases Machine.step_cases hs with ⟨_, _, _, hi, -⟩ | ⟨o', a, hi, -, rfl⟩ |
        ⟨_, _, _, hi, -⟩ | ⟨_, _, _, hi, -⟩ <;> cases hi
      exact .inl ho
    · exact .inr (.inl (hset.step hs))
  · push Not at hb
    have hQ : c.state.state = .kOpen → ∀ o, outcome i = some o → shutdownFails o = true →
        opsLeft c.state i = [] ∧ appIoLeft c.state i = 0 := by
      unfold NothingLeft at hQ
      split at hQ
      · exact absurd rfl (hb _)
      · exact hQ
    cases stepped hs with
    | @effect o u ho hu he =>
      refine (h.entered hu hb).effect (fun hopen hf => ?_) he
      rw [hu.inFlight, hu.pendingAppIo]
      exact hQ (hu.state ▸ hopen) o ho hf
    | resent op ho hu hl =>
      exact .inl ((congrArg Life.state hl).trans (hu.state.trans ho))
    | rest deleted releaseCalls hl =>
      unfold Quiesced Settled
      rw [show c'.state.state = c.state.state from congrArg Life.state hl,
        show c'.state.shutdowns = c.state.shutdowns from congrArg Life.shutdowns hl,
        show c'.state.inFlight = c.state.inFlight from congrArg Life.inFlight hl,
        show c'.state.pendingAppIo = c.state.pendingAppIo from congrArg Life.pendingAppIo hl]
      exact h

/-- A `Tick` between two events closes a session that nothing holds back. -/
theorem settled_tick {now : Nat} (hq : s.Quiesced) (ho : s.state ≠ .kOpen)
    (hio : s.pendingIo = s.inFlight.length) : (s.tick o now).1.Settled := by
  have htick : s.tick o now = s.tryRelease := by
    unfold tick
    rw [if_pos (by simp [canUseOnOwner, ho])]
  rw [htick]
  rcases hq.resolve_left ho with hset | ⟨hops, happ⟩
  · exact hset.effect (@does_tryRelease o True s).effect
  · rcases s.tryRelease_cases with h | ⟨-, -, -, -, h⟩ <;> rw [h]
    · by_contra hn
      have hc : s.state ≠ .kClosed := fun hc => hn (.inl hc)
      rw [hops] at hio
      unfold tryRelease at h
      rw [if_neg (by simp [ho, hio, happ]), if_neg hc] at h
      exact hc (congrArg (fun r => r.1.state) h).symm
    · exact .inl rfl

/-! ## Every run -/

/-- The invariant of a run that meets the condition. -/
structure Closes (x : SConf × Bool) : Prop where
  gate : Gate (finalTails x.1.stack) (releaseTails x.1.stack) (.code .tryRelease ∈ x.1.stack)
    x.1.state.gateView
  quiesced : x.1.state.Quiesced
  ticked : x.2 = true → x.1.state.Settled

theorem Closes.step {x x' : SConf × Bool} (h : Closes x) (hw : watchTick x i = some x')
    (hQ : NothingLeft x i) : Closes x' := by
  obtain ⟨c, b⟩ := x
  obtain ⟨c', hs, rfl⟩ := Option.map_eq_some_iff.1 hw
  refine ⟨gate_preserved.step hs h.gate, quiesced_step h.quiesced hQ hs, fun ht => ?_⟩
  rcases Bool.or_eq_true_iff.1 ht with hb | ht
  · exact (h.ticked hb).step hs
  · simp only [Bool.and_eq_true, List.isEmpty_iff, bne_iff_ne] at ht
    obtain ⟨⟨hst, ho⟩, htick⟩ := ht
    have hio : c.state.pendingIo = c.state.inFlight.length + finalTails c.stack := h.gate.count
    rw [hst] at hio
    cases i with
    | call o a =>
      cases a with
      | tick now =>
        rcases Machine.step_cases hs with ⟨_, _, _, hi, -⟩ | ⟨o', a, hi, -, rfl⟩ |
          ⟨_, _, _, hi, -⟩ | ⟨_, _, _, hi, -⟩ <;> cases hi
        exact settled_tick h.quiesced ho hio
      | _ => cases htick
    | _ => cases htick

/-- **A closing session shuts its socket down.** In every run whose steps meet
`NothingLeft`: once a `Tick` has run after the session left `kOpen`, it is
closed or a shutdown has been prepared. -/
theorem closing_shuts_down (cfg : Config) (is : List SInput)
    (hQ : Trace.Steps watchTick NothingLeft (initConf cfg, false) is) :
    Trace.Visits watchTick (fun x => x.2 = true → x.1.state.Settled) (initConf cfg, false) is := by
  refine Trace.visits_of_steps (J := Closes) (fun x h => h.ticked)
    (fun x i x' h hs hQ => h.step hs hQ) is ⟨gate_reachable .refl, .inl rfl, ?_⟩ hQ
  exact fun h => Bool.noConfusion h

/-- The ring is full when the session is started: neither the recv nor the
shutdown can be prepared. -/
def fullRingRun : List SInput :=
  [.call {} .start, .ret false, .exec { prepRecv := false, prepDisconnect := false },
    .ret false, .exec {}, .call {} (.tick 5)]

theorem closing_shuts_down_fullRing :
    (∃ x, Trace.run watchTick (initConf {}, false) fullRingRun = some x ∧ x.2 = true) ∧
      Trace.Visits watchTick (fun x => x.2 = true → x.1.state.Settled) (initConf {}, false)
        fullRingRun := by
  refine ⟨⟨_, rfl, rfl⟩, closing_shuts_down {} fullRingRun ?_⟩
  refine .cons rfl (fun _ o ho hf => ?_) ?_
  · cases ho; cases hf
  refine .cons rfl (fun _ o ho => by cases ho) ?_
  refine .cons rfl (fun _ _ _ _ => ⟨rfl, rfl⟩) ?_
  refine .cons rfl (fun ho => by cases ho) ?_
  refine .cons rfl (fun ho => by cases ho) ?_
  exact .cons rfl (fun ho => by cases ho) trivial

/-- The shutdown fails while a recv is in flight: nothing tries again. -/
def lostShutdownRun : List SInput :=
  [.call {} .start, .ret false, .exec {}, .call { prepDisconnect := false } .disconnect,
    .call {} (.tick 5)]

theorem shutdown_never_prepared :
    ∃ x, Trace.run watchTick (initConf {}, false) lostShutdownRun = some x ∧ x.2 = true ∧
      x.1.state.state = .kClosing ∧ x.1.state.shutdowns = [] ∧ x.1.state.inFlight = [.recv 0] ∧
      ¬ x.1.state.Settled := by
  refine ⟨_, rfl, rfl, rfl, rfl, rfl, ?_⟩
  rintro (h | h)
  · cases h
  · exact h rfl

end Session

end IouringRuntime
