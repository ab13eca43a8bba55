import IouringRuntime.Session.Moves

/-!
# The inactivity timeout

`last_activity_` is written by `Start` and by a recv completion with data. A
send completion does not write it, and `Tick` asks `HasPendingAppWork` for
everything else, so an upload to a silent peer counts as inactivity unless the
subclass reports it.

The observer of `watchClock` keeps the times at which the kernel reported bytes
received and bytes sent. A run's clock does not go back.
-/

namespace IouringRuntime

open Reentrant

/-- The clock, and when bytes were received and sent. -/
structure Progress where
  now : Nat := 0
  recvTimes : List Nat := []
  sendTimes : List Nat := []
  deriving DecidableEq, Repr

namespace Session

/-- The time of a step; a `Tick` brings its own. -/
def timeOf : SInput → Option Nat
  | .call _ (.tick now) => some now
  | i => (outcome i).map Outcome.now

/-- No step reads a time before the last one. -/
def inOrder (now : Nat) (i : SInput) : Bool :=
  (timeOf i).all (now ≤ ·) && (outcome i).all (now ≤ Outcome.now ·)

/-- The operation that a completion with data is for. -/
def progressOf (s : Session) : SInput → Option OpKind
  | .event _ e =>
    if 0 < e.2.res then (s.inFlight.find? (·.id == e.1)).map Op.kind else none
  | _ => none

def Progress.note (p : Progress) (s : Session) (i : SInput) : Progress where
  now := (timeOf i).getD p.now
  recvTimes := if progressOf s i = some .recv then p.recvTimes ++ (timeOf i).toList else p.recvTimes
  sendTimes := if progressOf s i = some .send then p.sendTimes ++ (timeOf i).toList else p.sendTimes

/-- The machine with the observer of progress. -/
def watchClock (x : SConf × Progress) (i : SInput) : Option (SConf × Progress) :=
  if inOrder x.2.now i then
    (machine.step x.1 i).map fun c => (c, Progress.note x.2 x.1.state i)
  else none

/-- No byte was received in the last `T` before `t`. -/
def RecvIdle (x : SConf × Progress) (t : Nat) : Prop :=
  ∀ τ ∈ x.2.recvTimes, τ + x.1.state.cfg.inactivityTimeout ≤ t

/-- No byte was sent in the last `T` before `t`, and none is waiting to be sent. -/
def SendIdle (x : SConf × Progress) (t : Nat) : Prop :=
  (∀ τ ∈ x.2.sendTimes, τ + x.1.state.cfg.inactivityTimeout ≤ t) ∧
    x.1.state.sent = dataOf x.1.state.accepted

/-- A step that disconnects the session for inactivity is a `Tick` at a time
when it is idle in both directions. -/
def FiresIdle (x : SConf × Progress) (i : SInput) : Prop :=
  ∀ c', machine.step x.1 i = some c' → x.1.state.closeCause ≠ some .inactivityTimeout →
    c'.state.closeCause = some .inactivityTimeout →
      ∃ t, ticks x.1 i t ∧ RecvIdle x t ∧ SendIdle x t

/-- At a `Tick` that comes `T` after `last_activity_`, `HasPendingAppWork`
reports data under way to the peer. -/
def ReportsSends (x : SConf × Progress) (i : SInput) : Prop :=
  ∀ t o, ticks x.1 i t → outcome i = some o →
    x.1.state.lastActivity + x.1.state.cfg.inactivityTimeout ≤ t → ¬ SendIdle x t →
      o.hasPendingAppWork = true

variable {o : Outcome} {idle : Prop} {s t : Session}

/-! ## One segment -/

/-- A segment does not reopen the session, and takes `last_activity_` from the clock. -/
theorem Effect.lastActivity (h : Effect o idle s t) (ho : t.state = .kOpen) :
    s.state = .kOpen ∧ (t.lastActivity = s.lastActivity ∨ t.lastActivity = o.now) := by
  let I (u : Session) : Prop := u.state = .kOpen →
    s.state = .kOpen ∧ (u.lastActivity = s.lastActivity ∨ u.lastActivity = o.now)
  refine h.keep (I := I) (J := I) ?_ ?_ (fun ho => ⟨ho, .inl rfl⟩) ho
  · intro u v hm hu hv
    cases hm with
    | aside hl =>
      have hl' : v.lastActivity = u.lastActivity := congrArg Life.lastActivity hl
      rw [hl']
      exact hu ((congrArg Life.state hl).symm.trans hv)
    | touch => exact ⟨(hu hv).1, .inr rfl⟩
    | refused => exact hu hv
    | shut | unshut | drain | closed => cases hv
    | armCancel _ hs => exact absurd (hs.symm.trans hv) SessionState.noConfusion
  · intro u v ha hu hv
    cases ha <;> exact hu hv

/-- The cause of a close is the inactivity timeout only where `idle` allows it. -/
theorem Effect.closeCause (h : Effect o idle s t)
    (hc : t.closeCause = some .inactivityTimeout) :
    s.closeCause = some .inactivityTimeout ∨ idle ∧ s.state = .kOpen := by
  let I (u : Session) : Prop := (u.state = .kOpen → s.state = .kOpen) ∧
    (u.closeCause = some .inactivityTimeout →
      s.closeCause = some .inactivityTimeout ∨ idle ∧ s.state = .kOpen)
  have hI : I t := by
    refine h.keep (I := I) (J := I) ?_ ?_ ⟨id, .inl⟩
    · intro u v hm hu
      cases hm with
      | aside hl =>
        have hcause : v.closeCause = u.closeCause := congrArg Life.closeCause hl
        have hstate : v.state = u.state := congrArg Life.state hl
        unfold I
        rw [hcause, hstate]
        exact hu
      | touch | refused => exact hu
      | shut cause ho hi | unshut cause ho hi =>
        refine ⟨fun hv => SessionState.noConfusion hv, fun hv => .inr ⟨hi ?_, hu.1 ho⟩⟩
        exact Option.some.inj hv
      | armCancel => exact hu
      | drain | closed => exact ⟨fun hv => SessionState.noConfusion hv, hu.2⟩
    · intro u v ha hu
      cases ha <;> exact hu
  exact hI.2 hc

/-- A recv completion with data writes `last_activity_`, unless it closes the session. -/
theorem lastActivity_onRecv {id : OpId} {cqe : Cqe} (hres : 0 < cqe.res)
    (ho : (s.onRecv o id cqe).1.state = .kOpen) :
    (s.onRecv o id cqe).1.lastActivity = o.now := by
  have hopen : (s.endRecv cqe.more).state = .kOpen := by
    obtain ⟨r, hr, he⟩ := @does_onRecv o False s id cqe
    rw [he] at ho
    exact (hr.effect.lastActivity ho).1
  unfold onRecv at ho ⊢
  dsimp only at ho ⊢
  generalize s.endRecv cqe.more = u at ho hopen ⊢
  rw [if_pos ⟨hres, by simp [canUseOnOwner, hopen]⟩] at ho ⊢
  revert ho
  split
  · split
    · next hq => exact fun _ => congrArg Life.lastActivity (life_queuePausedRecv hq)
    · exact fun ho => absurd ho (disconnectOnOwner_not_open _ _ _)
  · exact fun _ => rfl

/-! ## One step -/

/-- What the observer knows: in an open session no byte came after `last_activity_`. -/
structure Clocked (x : SConf × Progress) : Prop where
  past : ∀ τ ∈ x.2.recvTimes, τ ≤ x.2.now
  active : x.1.state.state = .kOpen → ∀ τ ∈ x.2.recvTimes, τ ≤ x.1.state.lastActivity

variable {c c' : SConf} {i : SInput}

theorem lastActivity_step {now : Nat} (hs : machine.step c i = some c') (hi : inOrder now i)
    (ho : c'.state.state = .kOpen) : c.state.state = .kOpen ∧
      (c'.state.lastActivity = c.state.lastActivity ∨ now ≤ c'.state.lastActivity) := by
  cases stepped hs with
  | effect hout hu he =>
    obtain ⟨hopen, hl⟩ := he.lastActivity ho
    refine ⟨hu.state ▸ hopen, hl.imp (fun h => h.trans hu.lastActivity) fun h => ?_⟩
    rw [h]
    simp only [inOrder, hout, Bool.and_eq_true, Option.all_some, decide_eq_true_eq] at hi
    exact hi.2
  | resent op hopen hu hl =>
    exact ⟨hopen, .inl ((congrArg Life.lastActivity hl).trans hu.lastActivity)⟩
  | rest deleted releaseCalls hl =>
    exact ⟨(congrArg Life.state hl).symm.trans ho, .inl (congrArg Life.lastActivity hl)⟩

/-- The bytes of a recv completion are the latest activity. -/
theorem lastActivity_recv (hs : machine.step c i = some c')
    (hp : progressOf c.state i = some .recv) (ho : c'.state.state = .kOpen) :
    timeOf i = some c'.state.lastActivity := by
  rcases Machine.step_cases hs with ⟨_, _, _, rfl, -⟩ | ⟨_, _, rfl, -⟩ | ⟨_, _, _, rfl, -⟩ |
    ⟨o, e, r, rfl, -, hr, rfl⟩
  · cases hp
  · cases hp
  · cases hp
  · obtain ⟨op, hop, -, rfl⟩ := event_cases hr
    simp only [progressOf] at hp
    split at hp
    · next hres =>
      rw [hop] at hp
      cases op with
      | recv id => exact congrArg some (lastActivity_onRecv hres ho).symm
      | _ => cases hp
    · cases hp

theorem Clocked.step {x x' : SConf × Progress} (h : Clocked x) (hw : watchClock x i = some x') :
    Clocked x' := by
  obtain ⟨c, p⟩ := x
  unfold watchClock at hw
  split at hw
  case isFalse => cases hw
  case isTrue hi =>
    obtain ⟨c', hs, rfl⟩ := Option.map_eq_some_iff.1 hw
    have hnow : p.now ≤ (timeOf i).getD p.now := by
      cases ht : timeOf i with
      | none => exact Nat.le_refl _
      | some t => simp_all [inOrder]
    have hold : ∀ τ ∈ p.recvTimes, τ ≤ (timeOf i).getD p.now := fun τ hτ =>
      (h.past τ hτ).trans hnow
    have hactive : c'.state.state = .kOpen → ∀ τ ∈ p.recvTimes, τ ≤ c'.state.lastActivity := by
      intro ho τ hτ
      obtain ⟨hopen, hl | hl⟩ := lastActivity_step hs hi ho
      · exact hl ▸ h.active hopen τ hτ
      · exact (h.past τ hτ).trans hl
    by_cases hp : progressOf c.state i = some .recv
    · have htimes : (Progress.note p c.state i).recvTimes = p.recvTimes ++ (timeOf i).toList :=
        if_pos hp
      refine ⟨fun τ hτ => ?_, fun ho τ hτ => ?_⟩
      · rcases List.mem_append.1 (htimes ▸ hτ) with hτ | hτ
        · exact hold τ hτ
        · rw [Option.mem_toList] at hτ
          exact (show (timeOf i).getD p.now = τ by rw [hτ]; rfl).ge
      · rcases List.mem_append.1 (htimes ▸ hτ) with hτ | hτ
        · exact hactive ho τ hτ
        · rw [Option.mem_toList, lastActivity_recv hs hp ho] at hτ
          exact (Option.some.inj hτ).ge
    · have htimes : (Progress.note p c.state i).recvTimes = p.recvTimes := if_neg hp
      exact ⟨fun τ hτ => hold τ (htimes ▸ hτ), fun ho τ hτ => hactive ho τ (htimes ▸ hτ)⟩

theorem Clocked.firesIdle {x : SConf × Progress} (h : Clocked x) (hQ : ReportsSends x i) :
    FiresIdle x i := by
  intro c' hs hne hc
  cases stepped hs with
  | effect hout hu he =>
    rcases he.closeCause hc with hc | ⟨⟨t, htick, -, -, hexp, happ⟩, ho⟩
    · exact absurd (hu.closeCause.symm.trans hc) hne
    · refine ⟨t, htick, fun τ hτ => ?_, ?_⟩
      · have := h.active (hu.state ▸ ho) τ hτ
        omega
      · by_contra hn
        rw [hQ t _ htick hout hexp hn] at happ
        cases happ
  | resent op ho hu hl =>
    have hkeep : c'.state.closeCause = x.1.state.closeCause :=
      (congrArg Life.closeCause hl).trans hu.closeCause
    exact absurd (hkeep.symm.trans hc) hne
  | rest deleted releaseCalls hl =>
    have hkeep : c'.state.closeCause = x.1.state.closeCause := congrArg Life.closeCause hl
    exact absurd (hkeep.symm.trans hc) hne

/-- **The inactivity timeout fires on idle sessions**, in every run in which
`HasPendingAppWork` reports data under way to the peer. -/
theorem inactivity_on_idle (cfg : Config) (is : List SInput)
    (hQ : Trace.Steps watchClock ReportsSends (initConf cfg, {}) is) :
    Trace.Steps watchClock FiresIdle (initConf cfg, {}) is := by
  refine Trace.steps_of_steps (J := Clocked) (fun x i x' h _ hQ => h.firesIdle hQ)
    (fun x i x' h hs _ => h.step hs) is ⟨?_, ?_⟩ hQ
  · exact fun τ hτ => absurd hτ List.not_mem_nil
  · exact fun _ τ hτ => absurd hτ List.not_mem_nil

def idleCfg : Config := { inactivityTimeout := 10 }

/-- One byte comes at time 3; the session is disconnected at 13. -/
def quietRun : List SInput :=
  [.call { now := 1 } .start, .ret false, .exec { now := 1 },
    .event { now := 3 } (0, ⟨1, true, [7]⟩), .ret false, .exec { now := 3 }, .exec { now := 3 },
    .call { now := 13 } (.tick 13)]

theorem inactivity_on_idle_quiet :
    (∃ x, Trace.run watchClock (initConf idleCfg, {}) quietRun = some x ∧
      x.1.state.closeCause = some .inactivityTimeout) ∧
      Trace.Steps watchClock FiresIdle (initConf idleCfg, {}) quietRun := by
  refine ⟨⟨_, rfl, rfl⟩, inactivity_on_idle idleCfg quietRun ?_⟩
  -- nothing is ever sent
  have hidle {x : SConf × Progress} {i : SInput} (h1 : x.2.sendTimes = [])
      (h2 : x.1.state.sent = dataOf x.1.state.accepted) : ReportsSends x i :=
    fun _ _ _ _ _ hn =>
      absurd ⟨by rw [h1]; exact fun τ hτ => absurd hτ List.not_mem_nil, h2⟩ hn
  refine .cons rfl (hidle rfl rfl) (.cons rfl (hidle rfl rfl) (.cons rfl (hidle rfl rfl) ?_))
  refine .cons rfl (hidle rfl rfl) (.cons rfl (hidle rfl rfl) (.cons rfl (hidle rfl rfl) ?_))
  exact .cons rfl (hidle rfl rfl) (.cons rfl (hidle rfl rfl) trivial)

/-- Two bytes are being sent; the kernel reports the first at time 12. -/
def uploadRun : List SInput :=
  [.call { now := 1 } .start, .ret false, .exec { now := 1 },
    .call { now := 2 } (.send ⟨[8, 9]⟩), .exec { now := 2 }, .exec { now := 2 },
    .exec { now := 2 }, .event { now := 12 } (1, ⟨1, false, []⟩), .exec { now := 12 },
    .call { now := 13 } (.tick 13)]

theorem upload_disconnected :
    ∃ x, Trace.run watchClock (initConf idleCfg, {}) uploadRun = some x ∧
      x.1.state.closeCause = some .inactivityTimeout ∧ x.2.sendTimes = [12] ∧
      x.1.state.sent = [8] ∧ dataOf x.1.state.accepted = [8, 9] ∧
      ¬ Trace.Steps watchClock FiresIdle (initConf idleCfg, {}) uploadRun := by
  refine ⟨_, rfl, rfl, rfl, rfl, rfl, fun h => ?_⟩
  obtain ⟨-, h⟩ := h _ rfl
  obtain ⟨-, h⟩ := h _ rfl
  obtain ⟨-, h⟩ := h _ rfl
  obtain ⟨-, h⟩ := h _ rfl
  obtain ⟨-, h⟩ := h _ rfl
  obtain ⟨-, h⟩ := h _ rfl
  obtain ⟨-, h⟩ := h _ rfl
  obtain ⟨-, h⟩ := h _ rfl
  obtain ⟨-, h⟩ := h _ rfl
  obtain ⟨hfire, -⟩ := h _ rfl
  obtain ⟨t, -, -, -, hsent⟩ := hfire _ rfl (by decide) rfl
  exact absurd hsent (by decide)

end Session

end IouringRuntime
