import IouringRuntime.Reentrant.Machine

/-!
# A call and what it does itself

A call into a machine puts frames on the stack and has returned when they are
gone. In between user code may run, in the callbacks that the call makes, and
call in again. `Serves` follows a call to its return and collects what its own
segments put out: those that run with no callback between them and the caller.
-/

namespace Reentrant

variable {σ ι κ α ε ω β : Type}

def isCode : Frame ι κ → Bool
  | .code _ => true
  | .callback _ => false

/-- The frames that a call has put above `base`. -/
def above (base stack : List (Frame ι κ)) : List (Frame ι κ) :=
  stack.take (stack.length - base.length)

/-- The code on top belongs to the call that was made above `base`. -/
def Owns (base stack : List (Frame ι κ)) : Bool := (above base stack).all isCode

@[simp] theorem above_append (top base : List (Frame ι κ)) : above base (top ++ base) = top := by
  simp [above]

@[simp] theorem owns_append (top base : List (Frame ι κ)) :
    Owns base (top ++ base) = top.all isCode := by
  simp [Owns]

/-- The frames that a step has put on the stack. -/
def pushed (c : Conf σ ι κ) (i : Input α ε ω) (c' : Conf σ ι κ) : List (Frame ι κ) :=
  match i with
  | .exec _ => above c.stack.tail c'.stack
  | .call _ _ | .ret _ | .event _ _ => above c.stack c'.stack

/-- What one input of each kind can do to the state, and the frames it pushes. -/
structure Machine.Pushes (M : Machine σ ι κ α ε ω) (R : σ → σ × List (Frame ι κ) → Prop) :
    Prop where
  exec : ∀ o s i, R s (M.exec o s i)
  call : ∀ o s a, R s (M.call o s a)
  ret : ∀ s k b, R s (M.ret s k b, [])
  event : ∀ o s e r, M.event o s e = some r → R s r

theorem Machine.Pushes.step {M : Machine σ ι κ α ε ω} {R : σ → σ × List (Frame ι κ) → Prop}
    (h : M.Pushes R) {c c' : Conf σ ι κ} {i : Input α ε ω} (hs : M.step c i = some c') :
    R c.state (c'.state, pushed c i c') := by
  rcases step_cases hs with ⟨o, j, rest, rfl, hst, rfl⟩ | ⟨o, a, rfl, -, rfl⟩ |
    ⟨b, k, rest, rfl, hst, rfl⟩ | ⟨o, e, r, rfl, hst, hr, rfl⟩
  · rw [pushed, hst, List.tail_cons, above_append]
    exact h.exec o c.state j
  · rw [pushed, above_append]
    exact h.call o c.state a
  · have hnone : above (.callback k :: rest) rest = [] := by simp [above]
    rw [pushed, hst, hnone]
    exact h.ret c.state k b
  · have hall : above [] r.2 = r.2 := by simp [above]
    rw [pushed, hst, hall]
    exact h.event o c.state e r hr

theorem Machine.step_call {M : Machine σ ι κ α ε ω} {c c' : Conf σ ι κ} {o : ω} {a : α}
    (hs : M.step c (.call o a) = some c') :
    UserRuns c.stack = true ∧
      c' = ⟨(M.call o c.state a).1, (M.call o c.state a).2 ++ c.stack⟩ := by
  simp only [Machine.step] at hs
  split at hs
  · next hu => exact ⟨hu, (Option.some.inj hs).symm⟩
  · cases hs

/-- What a step inside a call can be. -/
theorem Machine.step_above {M : Machine σ ι κ α ε ω} {c c' : Conf σ ι κ} {i : Input α ε ω}
    {top base : List (Frame ι κ)} (hc : c.stack = top ++ base)
    (hlen : base.length < c.stack.length) (hs : M.step c i = some c') :
    (∃ o j rest, i = .exec o ∧ top = .code j :: rest ∧
      c' = ⟨(M.exec o c.state j).1, (M.exec o c.state j).2 ++ rest ++ base⟩) ∨
    (∃ o a k rest, i = .call o a ∧ top = .callback k :: rest ∧
      c' = ⟨(M.call o c.state a).1, (M.call o c.state a).2 ++ top ++ base⟩) ∨
    (∃ b k rest, i = .ret b ∧ top = .callback k :: rest ∧ c' = ⟨M.ret c.state k b, rest ++ base⟩) := by
  cases top with
  | nil =>
    rw [hc] at hlen
    exact absurd hlen (Nat.lt_irrefl _)
  | cons f rest =>
    rw [List.cons_append] at hc
    rcases step_cases hs with ⟨o, j, r, rfl, hst, rfl⟩ | ⟨o, a, rfl, hu, rfl⟩ |
      ⟨b, k, r, rfl, hst, rfl⟩ | ⟨o, e, r, rfl, hst, -, -⟩
    · cases hc.symm.trans hst
      exact .inl ⟨o, j, rest, rfl, rfl, by rw [List.append_assoc]⟩
    · cases f with
      | code j =>
        rw [hc] at hu
        cases hu
      | callback k =>
        exact .inr (.inl ⟨o, a, k, rest, rfl, rfl, by rw [hc, List.append_assoc, List.cons_append]⟩)
    · cases hc.symm.trans hst
      exact .inr (.inr ⟨b, k, rest, rfl, rfl, rfl⟩)
    · rw [hc] at hst
      cases hst

/-- The last frame of a call runs as the call's own code. -/
theorem Machine.step_last {M : Machine σ ι κ α ε ω} {c c' : Conf σ ι κ} {i : Input α ε ω} {j : ι}
    {base : List (Frame ι κ)} (hc : c.stack = .code j :: base) (hs : M.step c i = some c') :
    Owns base c.stack = true ∧
      ∃ o, i = .exec o ∧ c' = ⟨(M.exec o c.state j).1, (M.exec o c.state j).2 ++ base⟩ := by
  have htop : c.stack = [.code j] ++ base := hc
  refine ⟨by rw [htop, owns_append]; rfl, ?_⟩
  obtain ⟨o, j', rest, rfl, hst, rfl⟩ | ⟨o, a, k, rest, -, hst, -⟩ | ⟨b, k, rest, -, hst, -⟩ :=
    Machine.step_above htop (by rw [hc, List.length_cons]; exact Nat.lt_succ_self _) hs
  · cases hst
    exact ⟨o, rfl, by rw [List.append_nil]⟩
  · cases hst
  · cases hst

/-- From a configuration inside a call to its return, with what the call itself
puts out. -/
inductive Serves (M : Machine σ ι κ α ε ω) (emit : Conf σ ι κ → Input α ε ω → Conf σ ι κ → List β)
    (base : List (Frame ι κ)) :
    Conf σ ι κ → List (Input α ε ω) → List β → Conf σ ι κ → Prop where
  | done {c : Conf σ ι κ} (h : c.stack = base) : Serves M emit base c [] [] c
  | step {c c' c₂ : Conf σ ι κ} {i : Input α ε ω} {is : List (Input α ε ω)} {out : List β}
      (h : base.length < c.stack.length) (hs : M.step c i = some c')
      (t : Serves M emit base c' is out c₂) :
      Serves M emit base c (i :: is) ((if Owns base c.stack then emit c i c' else []) ++ out) c₂

variable {M : Machine σ ι κ α ε ω} {emit : Conf σ ι κ → Input α ε ω → Conf σ ι κ → List β}
  {base : List (Frame ι κ)} {c c₂ : Conf σ ι κ} {is : List (Input α ε ω)} {out : List β}

namespace Serves

theorem returned (h : Serves M emit base c is out c₂) : c₂.stack = base := by
  induction h with
  | done h => exact h
  | step _ _ _ ih => exact ih

/-- A call that pushes nothing has returned. -/
theorem eq_of_returned (h : Serves M emit base c is out c₂) (hc : c.stack = base) :
    c₂ = c ∧ out = [] := by
  cases h with
  | done _ => exact ⟨rfl, rfl⟩
  | step h _ _ =>
    rw [hc] at h
    exact absurd h (Nat.lt_irrefl _)

/-- What every step inside the call keeps, of the configuration and of what has
been put out, holds when the call returns. -/
theorem invariant {J : Conf σ ι κ → List β → Prop} (h : Serves M emit base c is out c₂)
    (keep : ∀ c i c' acc, base.length < c.stack.length → M.step c i = some c' → J c acc →
      J c' (acc ++ if Owns base c.stack then emit c i c' else [])) :
    ∀ {acc : List β}, J c acc → J c₂ (acc ++ out) := by
  induction h with
  | done _ =>
    intro acc hJ
    rwa [List.append_nil]
  | step h hs _ ih =>
    intro acc hJ
    rw [← List.append_assoc]
    exact ih (keep _ _ _ acc h hs hJ)

end Serves

end Reentrant
