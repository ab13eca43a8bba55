import IouringRuntime.Session.RecvArmed

/-!
# The reasons to pause reading

Reading is paused on request (`PauseRecv` until `ResumeRecv`) and, when so
configured, while the session's own send queue is under pressure. Both reasons
write the one flag `recv_paused_`, so the last writer wins: `ResumeRecv` ends a
pause that backpressure still asks for, and the end of backpressure ends a
pause that was requested.

The flag agrees with the two reasons in every run that avoids this. Between a
change of `backpressure_active_` and the code after its callback, which writes
the flag, the two need not agree (`pausePending`).
-/

namespace IouringRuntime

open Reentrant

namespace Session

/-- `PauseRecv` was called, and not `ResumeRecv` since. -/
def explicitPause (explicit : Bool) : SInput → Bool
  | .call _ .pauseRecv => true
  | .call _ .resumeRecv => false
  | _ => explicit

/-- A step of the session, together with whether a pause is requested. -/
def observe (x : SConf × Bool) (i : SInput) : Option (SConf × Bool) :=
  (machine.step x.1 i).map fun c => (c, explicitPause x.2 i)

/-- Backpressure asks for a pause. -/
def pressurePause (s : Session) : Bool := s.cfg.pauseRecvOnBackpressure && s.backpressureActive

/-- Backpressure has changed and `recv_paused_` is still to be written. -/
def pausePending (s : Session) (st : List SFrame) : Bool :=
  s.cfg.pauseRecvOnBackpressure && st.any isBackpressureFrame

/-- The flag is what the two reasons ask for. -/
def Agrees (explicit : Bool) (s : Session) : Prop := s.recvPaused = (explicit || s.pressurePause)

/-- No step ends a pause that the other reason asks for, and the last change of
backpressure to be acted on is the current one. -/
def Respects (x : SConf × Bool) : SInput → Prop
  | .call _ .resumeRecv =>
    x.1.state.state = .kOpen → x.1.state.pausePending x.1.stack = false →
      x.1.state.pressurePause = false
  | .exec _ =>
    match x.1.stack with
    | .code .backpressureRaised :: rest =>
      x.1.state.state = .kOpen → x.1.state.cfg.pauseRecvOnBackpressure = true →
        x.1.state.pausePending rest = false → (x.2 || x.1.state.backpressureActive) = true
    | .code .backpressureCleared :: rest =>
      x.1.state.state = .kOpen → x.1.state.cfg.pauseRecvOnBackpressure = true →
        x.1.state.pausePending rest = false → (x.2 || x.1.state.backpressureActive) = false
    | _ => True
  | _ => True

/-! ## One step -/

/-- The flag agrees with its reasons unless it is about to be written. -/
def Tracks (explicit : Bool) (s : Session) (st : List SFrame) : Prop :=
  s.state = .kOpen → s.pausePending st = false → Agrees explicit s

variable {s : Session} {r : Seg} {explicit : Bool}

/-- A segment that does not write the flag. -/
structure KeepsPause (s : Session) (r : Seg) : Prop where
  isOpen : r.1.state = .kOpen → s.state = .kOpen
  paused : r.1.state = .kOpen → r.1.recvPaused = s.recvPaused
  pauses : r.1.state = .kOpen → r.1.cfg.pauseRecvOnBackpressure = s.cfg.pauseRecvOnBackpressure
  flag : r.1.state = .kOpen → r.1.backpressureActive = s.backpressureActive ∨
    r.2.any isBackpressureFrame = true

theorem KeepsPause.of_idle (h : Idle s r) : KeepsPause s r where
  isOpen := h.isOpen
  paused ho := congrArg ReadView.paused (h.view ho)
  pauses ho := congrArg ReadView.pausesOnBackpressure (h.view ho)
  flag := h.flag

theorem KeepsPause.of_control (h : Control s r) : KeepsPause s r := by
  have hd : r.1.data = s.data := h.data
  simp only [data, Data.mk.injEq] at hd
  obtain ⟨hcfg, -, -, -, -, -, hflag, hpaused, -⟩ := hd
  exact ⟨h.isOpen, fun _ => hpaused, fun _ => congrArg _ hcfg, fun _ => .inl hflag⟩

theorem Tracks.closed {st : List SFrame} (h : s.state ≠ .kOpen) : Tracks explicit s st :=
  fun ho => absurd ho h

/-- The frames of `rest` stay below those the segment leaves. -/
theorem Tracks.keeps {st rest : List SFrame} (h : Tracks explicit s st) (hr : KeepsPause s r)
    (hst : st.any isBackpressureFrame = true → rest.any isBackpressureFrame = true) :
    Tracks explicit r.1 (r.2 ++ rest) := by
  intro ho hpend
  have hpauses := hr.pauses ho
  unfold pausePending at hpend
  rw [hpauses] at hpend
  unfold Agrees pressurePause
  rw [hr.paused ho, hpauses]
  cases hp : s.cfg.pauseRecvOnBackpressure with
  | false =>
    have hs := h (hr.isOpen ho) (by simp [pausePending, hp])
    simpa [Agrees, pressurePause, hp] using hs
  | true =>
    rw [hp, Bool.true_and, List.any_append, Bool.or_eq_false_iff] at hpend
    have hold : st.any isBackpressureFrame = false :=
      Bool.eq_false_iff.2 fun hf => Bool.eq_false_iff.1 hpend.2 (hst hf)
    have hs := h (hr.isOpen ho) (by simp [pausePending, hold])
    rw [(hr.flag ho).resolve_right (Bool.eq_false_iff.1 hpend.1)]
    simpa [Agrees, pressurePause, hp] using hs

/-- The flag is written by a segment that leaves the rest of it alone. -/
theorem Tracks.resume {st : List SFrame}
    (h : s.state = .kOpen → s.pausePending st = false → (explicit || s.pressurePause) = false) :
    Tracks explicit ((s.setRecvPaused false).drainPausedRecv.andThen [.code .registerRecv]).1
      (((s.setRecvPaused false).drainPausedRecv.andThen [.code .registerRecv]).2 ++ st) := by
  have hs : Tracks explicit (s.setRecvPaused false) (.code .registerRecv :: st) :=
    fun ho hp => (h ho hp).symm
  have hr := hs.keeps (.of_idle (idle_drainPausedRecv _)) id
  rw [Seg.andThen_snd, List.append_assoc]
  exact hr

theorem tracks_exec (o : Outcome) {i : Instr} {rest : List SFrame}
    (h : Tracks explicit s (.code i :: rest))
    (hq : Respects (⟨s, .code i :: rest⟩, explicit) (.exec o)) :
    Tracks explicit (exec o s i).1 ((exec o s i).2 ++ rest) := by
  cases hi : isReadInstr i with
  | false =>
    refine h.keeps (.of_idle (idle_exec o s hi)) fun hany => ?_
    rw [List.any_cons] at hany
    cases i <;> first | exact hany | cases hi
  | true =>
    cases i with
    | registerRecv => exact h.keeps (.of_control (control_registerRecv s o)) id
    | onRecvTail res more => exact h.keeps (.of_control (control_onRecvTail s o res more)) id
    | backpressureRaised =>
      simp only [exec, backpressureRaised]
      split
      · exact .closed (disconnectOnOwner_not_open _ o _)
      · unfold pauseOnBackpressure
        split
        · next hp =>
          intro ho hpend
          have := hq ho hp hpend
          simp_all [Agrees, pressurePause, setRecvPaused]
        · next hp => exact fun ho _ => h ho (by simp [pausePending, hp])
    | backpressureCleared =>
      simp only [exec, backpressureCleared]
      split
      · next hp =>
        refine .resume fun ho hpend => ?_
        have := hq ho hp hpend
        simp_all [pressurePause]
      · next hp => exact fun ho _ => h ho (by simp [pausePending, hp])
    | _ => cases hi

theorem tracks_call (o : Outcome) (a : Api) {st : List SFrame} (h : Tracks explicit s st)
    (hq : Respects (⟨s, st⟩, explicit) (.call o a)) :
    Tracks (explicitPause explicit (.call o a)) (call o s a).1 ((call o s a).2 ++ st) := by
  by_cases hp : a = .pauseRecv
  · subst hp
    simp only [call, pauseRecv]
    split
    · next hc => exact .closed (by simpa [canUseOnOwner] using hc)
    · intro _ _
      rfl
  · by_cases hr : a = .resumeRecv
    · subst hr
      simp only [call, resumeRecv]
      split
      · next hc => exact .closed (by simpa [canUseOnOwner] using hc)
      · exact .resume hq
    · have he : explicitPause explicit (.call o a) = explicit := by
        cases a <;> first | rfl | contradiction
      rw [he]
      exact h.keeps (.of_idle (idle_call o s hp hr)) id

theorem keepsPause_event {o : Outcome} {e : OpId × Cqe} (he : s.event o e = some r) :
    KeepsPause s r := by
  obtain ⟨op, hop, -, rfl⟩ := event_cases he
  by_cases hk : op.kind = .recv
  · cases op with
    | recv id =>
      have hidle := KeepsPause.of_idle
        (idle_onRecv ((s.retireRecv id e.2.more).recordReceived e.2.view) o id e.2)
      have hsame : ∀ more, let t := ((s.retireRecv id more).recordReceived e.2.view).endRecv more
          t.state = s.state ∧ t.recvPaused = s.recvPaused ∧ t.cfg = s.cfg ∧
            t.backpressureActive = s.backpressureActive := by
        intro more
        cases more <;> exact ⟨rfl, rfl, rfl, rfl⟩
      obtain ⟨hs, hp, hc, hf⟩ := hsame e.2.more
      exact ⟨fun ho => hs ▸ hidle.isOpen ho, fun ho => (hidle.paused ho).trans hp,
        fun ho => (hidle.pauses ho).trans (congrArg _ hc), fun ho => hf ▸ hidle.flag ho⟩
    | _ => cases hk
  · exact .of_idle (idle_complete o e.2 hop hk)

theorem tracks_step {x x' : SConf × Bool} {i : SInput} (h : Tracks x.2 x.1.state x.1.stack)
    (hs : observe x i = some x') (hq : Respects x i) : Tracks x'.2 x'.1.state x'.1.stack := by
  obtain ⟨⟨s, st⟩, explicit⟩ := x
  obtain ⟨c, hc, rfl⟩ := Option.map_eq_some_iff.1 hs
  rcases Machine.step_cases hc with ⟨o, j, rest, rfl, hst, rfl⟩ | ⟨o, a, rfl, -, rfl⟩ |
    ⟨b, k, rest, rfl, hst, rfl⟩ | ⟨o, e, r, rfl, hst, hr, rfl⟩
  · cases hst
    exact tracks_exec o h hq
  · exact tracks_call o a h hq
  · cases hst
    have hk : Tracks explicit s rest := h
    cases k <;> exact hk
  · cases hst
    have hkeep : Tracks explicit r.1 (r.2 ++ []) := h.keeps (keepsPause_event hr) id
    rwa [List.append_nil] at hkeep

/-! ## Runs -/

/-- **Independent reasons to pause.** In every run whose steps respect the other
reason, an open session at top level does not read iff a pause is requested or
its backpressure asks for one. -/
theorem pause_reasons_agree (cfg : Config) (is : List SInput)
    (h : Trace.Steps observe Respects (initConf cfg, false) is) :
    Trace.Visits observe (fun x => x.1.stack = [] → x.1.state.state = .kOpen →
      x.1.state.recvPaused = (x.2 || (x.1.state.cfg.pauseRecvOnBackpressure &&
        x.1.state.backpressureActive))) (initConf cfg, false) is := by
  have hinit : Tracks false (initConf cfg).state (initConf cfg).stack := by
    intro _ _
    show false = (false || (cfg.pauseRecvOnBackpressure && false))
    rw [Bool.and_false, Bool.or_false]
  have htop : ∀ x : SConf × Bool, Tracks x.2 x.1.state x.1.stack → x.1.stack = [] →
      x.1.state.state = .kOpen → Agrees x.2 x.1.state := by
    intro x hx hst ho
    refine hx ho ?_
    rw [hst]
    exact Bool.and_false _
  exact Trace.visits_of_steps (J := fun x => Tracks x.2 x.1.state x.1.stack) htop
    (fun _ _ _ => tracks_step) is hinit h

/-- One buffer is enough for backpressure, which pauses reading. -/
def oneBufferCfg : Config := { sendQueueHighWatermark := 1, pauseRecvOnBackpressure := true }

/-- A buffer raises backpressure, and the drain of the queue clears it. -/
def raiseAndClear : List SInput :=
  [.call {} (.send ⟨[1]⟩), .ret false, .exec {}, .exec {}, .ret false, .exec {}, .exec {},
    .exec {}, .exec {}]

/-- A pause is requested and ended before the session is under pressure. -/
theorem pause_reasons_agree_in_turn :
    Trace.Visits observe (fun x => x.1.stack = [] → x.1.state.state = .kOpen →
      x.1.state.recvPaused = (x.2 || (x.1.state.cfg.pauseRecvOnBackpressure &&
        x.1.state.backpressureActive))) (initConf oneBufferCfg, false)
      (.call {} .pauseRecv :: .call {} .resumeRecv :: .exec {} :: raiseAndClear) := by
  refine pause_reasons_agree oneBufferCfg _ ?_
  refine .cons rfl trivial (.cons rfl (fun _ _ => rfl) (.cons rfl trivial ?_))
  refine .cons rfl trivial (.cons rfl trivial (.cons rfl (fun _ _ _ => rfl) ?_))
  refine .cons rfl trivial (.cons rfl trivial (.cons rfl (fun _ _ _ => rfl) ?_))
  exact .cons rfl trivial (.cons rfl trivial (.cons rfl trivial trivial))

/-- The end of backpressure ends a pause that was requested. -/
theorem backpressure_ends_requested_pause :
    ∃ x, Trace.run observe (initConf oneBufferCfg, false)
        ([.call {} .start, .ret false, .exec {}, .call {} .pauseRecv] ++ raiseAndClear) = some x ∧
      x.1.stack = [] ∧ x.1.state.state = .kOpen ∧ x.2 = true ∧ x.1.state.recvPaused = false :=
  ⟨_, rfl, rfl, rfl, rfl, rfl⟩

end Session

end IouringRuntime
