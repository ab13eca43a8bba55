import IouringRuntime.Session.RecvQueue

/-!
# Nested calls of `OnRecv`

`DrainPausedRecv` calls `OnRecv` and has no guard against being entered again:
`ResumeRecv`, and `UpdateBackpressure` when it lifts the pause, run the loop
from wherever they are called. A run never nests two `OnRecv` calls exactly if
no step of it lifts the pause inside `OnRecv` while chunks are waiting
(`onRecv_nesting`).

The invariant is on the receive frames alone: below the first of them there
are only drain loops. A loop puts `OnRecv` above itself, a completion above an
empty stack, so only a resume can put it above another `OnRecv`.
-/

namespace IouringRuntime

open Reentrant

def isOnRecv : SFrame → Bool
  | .callback (.onRecv _) => true
  | _ => false

/-- How many calls of `OnRecv` have not returned. -/
def onRecvDepth (st : List SFrame) : Nat := st.countP isOnRecv

namespace Session

/-- The step lifts the pause: `ResumeRecv`, or the end of backpressure. -/
def lifts (c : SConf) : SInput → Bool
  | .call _ .resumeRecv => true
  | .exec _ => c.stack.head? == some (.code .backpressureCleared) &&
      c.state.cfg.pauseRecvOnBackpressure
  | _ => false

/-- Chunks wait for `OnRecv` in an open session. -/
def Waiting (s : Session) : Prop := s.state = .kOpen ∧ s.pausedRecvQueue ≠ []

/-- The step does not lift the pause inside `OnRecv` with chunks waiting. -/
def NoNestedResume (c : SConf) (i : SInput) : Prop :=
  lifts c i = true → c.state.Waiting → onRecvDepth c.stack = 0

end Session

/-- Below the first receive frame there are only drain loops. -/
def Unnested (fs : List SFrame) : Prop := ∀ f ∈ fs.tail, f = .code .drainPausedRecv

theorem onRecvDepth_recvFrames (st : List SFrame) :
    onRecvDepth (recvFrames st) = onRecvDepth st := by
  induction st with
  | nil => rfl
  | cons f st ih =>
    have hf : isRecvFrame f = false → isOnRecv f = false := by
      cases f with
      | code i => exact fun _ => rfl
      | callback k => cases k <;> simp [isRecvFrame, isOnRecv]
    rw [recvFrames_cons]
    split
    · simp only [onRecvDepth, List.countP_cons] at ih ⊢
      rw [ih]
    · next h =>
      rw [ih, onRecvDepth, onRecvDepth, List.countP_cons_of_neg (by simp [hf (by simpa using h)])]

theorem onRecvDepth_eq_zero {fs : List SFrame} :
    onRecvDepth fs = 0 ↔ ∀ f ∈ fs, isOnRecv f = false := by
  simp [onRecvDepth]

theorem Unnested.depth_le {fs : List SFrame} (h : Unnested fs) : onRecvDepth fs ≤ 1 := by
  cases fs with
  | nil => exact Nat.zero_le 1
  | cons f fs =>
    have ht : onRecvDepth fs = 0 := onRecvDepth_eq_zero.2 fun g hg => by rw [h g hg]; rfl
    simp only [onRecvDepth, List.countP_cons] at ht ⊢
    rw [ht]
    split <;> simp

/-- Receive frames without an `OnRecv` call are drain loops. -/
theorem eq_drain_of_depth_zero {st : List SFrame} (h : onRecvDepth st = 0) :
    ∀ f ∈ recvFrames st, f = .code .drainPausedRecv := by
  intro f hf
  rw [← onRecvDepth_recvFrames] at h
  have h0 := onRecvDepth_eq_zero.1 h f hf
  have hr : isRecvFrame f = true := (List.mem_filter.1 hf).2
  cases f with
  | code i => cases i <;> first | rfl | cases hr
  | callback k =>
    cases k with
    | onRecv => cases h0
    | _ => cases hr

theorem Unnested.of_all {fs : List SFrame} (h : ∀ f ∈ fs, f = .code .drainPausedRecv) :
    Unnested fs :=
  fun f hf => h f (List.mem_of_mem_tail hf)

namespace Session

/-- A round of the drain loop delivers a chunk or puts nothing on the stack. -/
theorem drainPausedRecv_frames (s : Session) :
    (s.drainPausedRecv.2 = [] ∧ (s.recvPaused = false → ¬ s.Waiting)) ∨
    (s.Waiting ∧
      ∃ chunk, s.drainPausedRecv.2 = [.callback (.onRecv chunk), .code .drainPausedRecv]) := by
  unfold drainPausedRecv
  split
  · next hg =>
    split
    · next hq => exact .inl ⟨rfl, fun _ hw => hw.2 hq⟩
    · next chunk rest hq =>
      simp only [Bool.and_eq_true] at hg
      exact .inr ⟨⟨canUseOnOwner_iff.1 hg.1, by simp [hq]⟩, chunk, rfl⟩
  · next hg =>
    refine .inl ⟨rfl, fun hp hw => hg ?_⟩
    simp [canUseOnOwner_iff.2 hw.1, hp]

/-- A resume delivers the first waiting chunk, above everything on the stack. -/
theorem recvFrames_resume (s : Session) (st : List SFrame) :
    (¬ s.Waiting ∧ recvFrames (((s.setRecvPaused false).drainPausedRecv.andThen
        [.code .registerRecv]).2 ++ st) = recvFrames st) ∨
    (s.Waiting ∧ ∃ chunk, recvFrames (((s.setRecvPaused false).drainPausedRecv.andThen
        [.code .registerRecv]).2 ++ st) =
      .callback (.onRecv chunk) :: .code .drainPausedRecv :: recvFrames st) := by
  rcases (s.setRecvPaused false).drainPausedRecv_frames with ⟨h, hw⟩ | ⟨hw, chunk, h⟩
  · left; exact ⟨hw rfl, by rw [Seg.andThen_snd, h]; rfl⟩
  · right; exact ⟨hw, chunk, by rw [Seg.andThen_snd, h]; rfl⟩

/-- What a step that lifts the pause does to the receive frames. -/
theorem recvFrames_lift {c c' : SConf} {i : SInput} (hs : machine.step c i = some c')
    (hl : lifts c i = true) :
    (¬ c.state.Waiting ∧ recvFrames c'.stack = recvFrames c.stack) ∨
    (c.state.Waiting ∧ ∃ chunk, recvFrames c'.stack =
      .callback (.onRecv chunk) :: .code .drainPausedRecv :: recvFrames c.stack) := by
  rcases Machine.step_cases hs with ⟨o, j, rest, rfl, hst, rfl⟩ | ⟨o, a, rfl, hu, rfl⟩ |
    ⟨b, k, rest, rfl, -, rfl⟩ | ⟨o, e, r, rfl, -, -, rfl⟩
  · simp only [lifts, hst, List.head?_cons, Bool.and_eq_true, beq_iff_eq, Option.some.injEq,
      Frame.code.injEq] at hl
    obtain ⟨rfl, hp⟩ := hl
    rw [hst, recvFrames_cons, if_neg (by simp [isRecvFrame])]
    simp only [machine, exec, backpressureCleared, if_pos hp]
    exact recvFrames_resume c.state rest
  · cases a with
    | resumeRecv =>
      simp only [machine, call, resumeRecv]
      split
      · next hc =>
        exact .inl ⟨fun hw => by simp [canUseOnOwner, hw.1] at hc, rfl⟩
      · exact recvFrames_resume c.state c.stack
    | _ => cases hl
  · cases hl
  · cases hl

/-- An instruction that does not lift the pause: nothing, the end of a loop, or
its next round. -/
theorem recvFrames_exec (s : Session) (o : Outcome) {j : Instr} (rest : List SFrame)
    (hl : j = .backpressureCleared → s.cfg.pauseRecvOnBackpressure = false) :
    recvFrames ((exec o s j).2 ++ rest) = recvFrames (.code j :: rest) ∨
    recvFrames ((exec o s j).2 ++ rest) = (recvFrames (.code j :: rest)).tail ∨
    (∃ fs chunk, recvFrames (.code j :: rest) = .code .drainPausedRecv :: fs ∧
      recvFrames ((exec o s j).2 ++ rest) =
        .callback (.onRecv chunk) :: .code .drainPausedRecv :: fs) := by
  cases hj : isRecvInstr j with
  | false =>
    left
    have hf : isRecvFrame (.code j) = false := by cases j <;> first | rfl | cases hj
    rw [recvFrames_append, (recvQuiet_exec o s hj).recvFrames_eq_nil, recvFrames_cons,
      if_neg (by simp [hf])]
    rfl
  | true =>
    cases j with
    | backpressureRaised =>
      left
      rw [recvFrames_append]
      simp only [exec, backpressureRaised]
      split
      · rw [(closing_disconnectOnOwner _ o _).recvQuiet.recvFrames_eq_nil]
        rfl
      · rfl
    | backpressureCleared =>
      left
      simp only [exec, backpressureCleared, hl rfl]
      rfl
    | drainPausedRecv =>
      right
      rcases s.drainPausedRecv_frames with ⟨h, -⟩ | ⟨-, chunk, h⟩
      · left
        simp only [exec, h]
        rfl
      · right
        exact ⟨recvFrames rest, chunk, rfl, by simp only [exec, h]; rfl⟩
    | _ => cases hj

/-- A completion hands at most its own data on. -/
theorem recvFrames_complete (s : Session) (o : Outcome) (cqe : Cqe) (op : Op) :
    recvFrames (s.complete o cqe op).2 = [] ∨
    ∃ data, recvFrames (s.complete o cqe op).2 = [.callback (.onRecv data)] := by
  by_cases hk : op.kind = .recv
  · cases op with
    | recv ev =>
      unfold complete onRecv
      dsimp only
      split
      · split
        · left
          split
          · rfl
          · rw [Seg.andThen_snd, recvFrames_append,
              (closing_disconnectOnOwner _ o _).recvQuiet.recvFrames_eq_nil]
            rfl
        · exact .inr ⟨_, rfl⟩
      · exact .inl rfl
    | _ => cases hk
  · exact .inl (recvQuiet_complete o s cqe hk).recvFrames_eq_nil

/-- What any other step does: nothing, the end of a frame, a delivery at top
level, or the next round of a loop. -/
theorem recvFrames_step {c c' : SConf} {i : SInput} (hs : machine.step c i = some c')
    (hl : lifts c i = false) :
    recvFrames c'.stack = recvFrames c.stack ∨ recvFrames c'.stack = (recvFrames c.stack).tail ∨
    (c.stack = [] ∧ ∃ data, recvFrames c'.stack = [.callback (.onRecv data)]) ∨
    (∃ fs chunk, recvFrames c.stack = .code .drainPausedRecv :: fs ∧
      recvFrames c'.stack = .callback (.onRecv chunk) :: .code .drainPausedRecv :: fs) := by
  rcases Machine.step_cases hs with ⟨o, j, rest, rfl, hst, rfl⟩ | ⟨o, a, rfl, hu, rfl⟩ |
    ⟨b, k, rest, rfl, hst, rfl⟩ | ⟨o, e, r, rfl, hst, he, rfl⟩
  · rw [hst]
    have hp : j = .backpressureCleared → c.state.cfg.pauseRecvOnBackpressure = false := by
      rintro rfl
      simpa [lifts, hst] using hl
    exact (recvFrames_exec c.state o rest hp).imp id (Or.imp id .inr)
  · left
    by_cases hp : a = .pauseRecv
    · subst hp
      rfl
    · have hr : a ≠ .resumeRecv := by rintro rfl; cases hl
      show recvFrames ((call o c.state a).2 ++ c.stack) = _
      rw [recvFrames_append, (recvQuiet_call o c.state hp hr).recvFrames_eq_nil]
      rfl
  · rw [hst, recvFrames_cons]
    split
    · exact .inr (.inl rfl)
    · exact .inl rfl
  · obtain ⟨op, -, -, rfl⟩ := event_cases he
    rw [hst]
    exact (recvFrames_complete c.state o e.2 op).imp id fun h => .inr (.inl ⟨rfl, h⟩)

theorem unnested_step {c c' : SConf} {i : SInput} (hJ : Unnested (recvFrames c.stack))
    (hs : machine.step c i = some c') (hQ : NoNestedResume c i) :
    Unnested (recvFrames c'.stack) := by
  cases hl : lifts c i with
  | true =>
    rcases recvFrames_lift hs hl with ⟨-, h⟩ | ⟨hw, chunk, h⟩
    · rw [h]; exact hJ
    · rw [h]
      intro f hf
      exact (List.mem_cons.1 hf).elim id (eq_drain_of_depth_zero (hQ hl hw) f)
  | false =>
    rcases recvFrames_step hs hl with h | h | ⟨-, data, h⟩ | ⟨fs, chunk, h1, h2⟩
    · rw [h]; exact hJ
    · rw [h]; exact Unnested.of_all hJ
    · rw [h]; exact fun f hf => by cases hf
    · rw [h2]
      intro f hf
      rw [h1] at hJ
      exact (List.mem_cons.1 hf).elim id (hJ f)

theorem nested_step {c c' : SConf} {i : SInput} (hs : machine.step c i = some c')
    (hQ : ¬ NoNestedResume c i) : ¬ onRecvDepth c'.stack ≤ 1 := by
  simp only [NoNestedResume, Classical.not_imp] at hQ
  obtain ⟨hl, hw, hd⟩ := hQ
  obtain ⟨hn, -⟩ | ⟨-, chunk, h⟩ := recvFrames_lift hs hl
  · exact absurd hw hn
  · have hdepth : onRecvDepth c'.stack = onRecvDepth c.stack + 1 := by
      rw [← onRecvDepth_recvFrames c'.stack, h, ← onRecvDepth_recvFrames c.stack]
      simp only [onRecvDepth, List.countP_cons]
      rfl
    omega

/-- **Nested `OnRecv`.** Along a run no `OnRecv` call starts inside another
exactly if no step lifts the pause inside `OnRecv` while chunks wait. -/
theorem onRecv_nesting (cfg : Config) (is : List SInput) :
    machine.Visits (fun c => onRecvDepth c.stack ≤ 1) (initConf cfg) is ↔
      machine.Steps NoNestedResume (initConf cfg) is := by
  refine Trace.visits_iff_steps (J := fun c => Unnested (recvFrames c.stack)) ?_
    (fun _ _ _ => unnested_step) (fun _ _ _ _ => nested_step) is fun f hf => by cases hf
  intro c hJ
  rw [← onRecvDepth_recvFrames]
  exact hJ.depth_le

/-- Two chunks wait. `OnRecv` of the first resumes receiving and is called
again with the second. -/
def nestedResumeRun : List SInput :=
  [.call {} .start, .ret false, .exec {}, .call {} .pauseRecv,
    .event {} (0, ⟨1, true, [1]⟩), .exec {}, .exec {},
    .event {} (0, ⟨1, true, [2]⟩), .exec {}, .exec {},
    .call {} .resumeRecv, .call {} .resumeRecv]

theorem onRecv_nests :
    ∃ c, machine.run (initConf {}) nestedResumeRun = some c ∧ onRecvDepth c.stack = 2 :=
  ⟨_, rfl, rfl⟩

end Session

end IouringRuntime
