import IouringRuntime.Reentrant.Trace

/-!
# Re-entrant event machines

Single-threaded event-driven code that calls back into user code is a machine
with a control stack. A frame is code still to run or a callback that has been
entered and not left. The code on top runs one segment at a time, up to the
next callback; while a callback is on top, or nothing is left to run, user
code may call into the machine, and the segments it starts stand above the
frame that called it. External events arrive only at an empty stack.

Runs are those of `Trace`. `Preserved` packages the induction for invariants:
one of state and stack that every kind of input keeps holds in every reachable
configuration.
-/

namespace Reentrant

/-- Code still to run, or a user callback that has been entered and not left. -/
inductive Frame (ι κ : Type) where
  | code (i : ι)
  | callback (k : κ)
  deriving DecidableEq, Repr

/-- State `σ`, code segments `ι`, callbacks `κ`, entry points for user code
`α`, external events `ε`; `ω` is what the environment decides for one segment. -/
structure Machine (σ ι κ α ε ω : Type) where
  /-- Run one segment. The frames returned stand above the rest of the stack. -/
  exec : ω → σ → ι → σ × List (Frame ι κ)
  /-- User code calls in. -/
  call : ω → σ → α → σ × List (Frame ι κ)
  /-- An external event; `none` when it cannot occur in this state. -/
  event : ω → σ → ε → Option (σ × List (Frame ι κ))
  /-- A callback returns a value. -/
  ret : σ → κ → Bool → σ

structure Conf (σ ι κ : Type) where
  state : σ
  stack : List (Frame ι κ)

inductive Input (α ε ω : Type) where
  | exec (o : ω)
  | call (o : ω) (a : α)
  | ret (b : Bool)
  | event (o : ω) (e : ε)

variable {σ ι κ α ε ω : Type}

/-- User code runs: at top level, or inside the callback on top. -/
def UserRuns : List (Frame ι κ) → Bool
  | [] => true
  | .callback _ :: _ => true
  | .code _ :: _ => false

namespace Machine

variable (M : Machine σ ι κ α ε ω)

def step (c : Conf σ ι κ) : Input α ε ω → Option (Conf σ ι κ)
  | .exec o =>
    match c.stack with
    | .code i :: rest => some ⟨(M.exec o c.state i).1, (M.exec o c.state i).2 ++ rest⟩
    | _ => none
  | .call o a =>
    if UserRuns c.stack then
      some ⟨(M.call o c.state a).1, (M.call o c.state a).2 ++ c.stack⟩
    else none
  | .ret b =>
    match c.stack with
    | .callback k :: rest => some ⟨M.ret c.state k b, rest⟩
    | _ => none
  | .event o e =>
    match c.stack with
    | [] => (M.event o c.state e).map fun r => ⟨r.1, r.2⟩
    | _ => none

abbrev run : Conf σ ι κ → List (Input α ε ω) → Option (Conf σ ι κ) := Trace.run M.step

abbrev Reachable : Conf σ ι κ → Conf σ ι κ → Prop := Trace.Reachable M.step

abbrev Visits : (Conf σ ι κ → Prop) → Conf σ ι κ → List (Input α ε ω) → Prop := Trace.Visits M.step

abbrev Steps : (Conf σ ι κ → Input α ε ω → Prop) → Conf σ ι κ → List (Input α ε ω) → Prop :=
  Trace.Steps M.step

variable {M}

/-- What a step can be. -/
theorem step_cases {c c' : Conf σ ι κ} {i : Input α ε ω} (hs : M.step c i = some c') :
    (∃ o j rest, i = .exec o ∧ c.stack = .code j :: rest ∧
      c' = ⟨(M.exec o c.state j).1, (M.exec o c.state j).2 ++ rest⟩) ∨
    (∃ o a, i = .call o a ∧ UserRuns c.stack = true ∧
      c' = ⟨(M.call o c.state a).1, (M.call o c.state a).2 ++ c.stack⟩) ∨
    (∃ b k rest, i = .ret b ∧ c.stack = .callback k :: rest ∧ c' = ⟨M.ret c.state k b, rest⟩) ∨
    (∃ o e r, i = .event o e ∧ c.stack = [] ∧ M.event o c.state e = some r ∧ c' = ⟨r.1, r.2⟩) := by
  cases i with
  | exec o =>
    simp only [step] at hs
    split at hs
    · next hst => exact .inl ⟨o, _, _, rfl, hst, (Option.some.inj hs).symm⟩
    · cases hs
  | call o a =>
    simp only [step] at hs
    split at hs
    · next hu => exact .inr (.inl ⟨o, a, rfl, hu, (Option.some.inj hs).symm⟩)
    · cases hs
  | ret b =>
    simp only [step] at hs
    split at hs
    · next hst => exact .inr (.inr (.inl ⟨b, _, _, rfl, hst, (Option.some.inj hs).symm⟩))
    · cases hs
  | event o e =>
    simp only [step] at hs
    split at hs
    · next hst =>
      obtain ⟨r, hr, hc⟩ := Option.map_eq_some_iff.1 hs
      exact .inr (.inr (.inr ⟨o, e, r, rfl, hst, hr, hc.symm⟩))
    · cases hs

/-! ## Invariants -/

variable (M) in
/-- What one input of each kind must keep. -/
structure Preserved (I : σ → List (Frame ι κ) → Prop) : Prop where
  exec : ∀ o s i rest, I s (.code i :: rest) → I (M.exec o s i).1 ((M.exec o s i).2 ++ rest)
  call : ∀ o s a st, UserRuns st = true → I s st → I (M.call o s a).1 ((M.call o s a).2 ++ st)
  ret : ∀ s k b rest, I s (.callback k :: rest) → I (M.ret s k b) rest
  event : ∀ o s e r, M.event o s e = some r → I s [] → I r.1 r.2

variable {I : σ → List (Frame ι κ) → Prop}

theorem Preserved.step (h : M.Preserved I) {c c' : Conf σ ι κ} {i : Input α ε ω}
    (hs : M.step c i = some c') (hi : I c.state c.stack) : I c'.state c'.stack := by
  rcases step_cases hs with ⟨o, j, rest, -, hst, rfl⟩ | ⟨o, a, -, hu, rfl⟩ |
    ⟨b, k, rest, -, hst, rfl⟩ | ⟨o, e, r, -, hst, hr, rfl⟩
  · rw [hst] at hi; exact h.exec _ _ _ _ hi
  · exact h.call _ _ _ _ hu hi
  · rw [hst] at hi; exact h.ret _ _ _ _ hi
  · rw [hst] at hi; exact h.event _ _ _ _ hr hi

theorem Preserved.reachable (h : M.Preserved I) {c₀ c : Conf σ ι κ} (hr : M.Reachable c₀ c)
    (h0 : I c₀.state c₀.stack) : I c.state c.stack :=
  Trace.Reachable.invariant (I := fun c => I c.state c.stack) hr
    (fun _ _ _ hi hs => h.step hs hi) h0

variable (M) in
/-- What one input of each kind can do to the state, whatever the stack. -/
structure Changes (R : σ → σ → Prop) : Prop where
  exec : ∀ o s i, R s (M.exec o s i).1
  call : ∀ o s a, R s (M.call o s a).1
  ret : ∀ s k b, R s (M.ret s k b)
  event : ∀ o s e r, M.event o s e = some r → R s r.1

theorem Changes.step {R : σ → σ → Prop} (h : M.Changes R) {c c' : Conf σ ι κ} {i : Input α ε ω}
    (hs : M.step c i = some c') : R c.state c'.state := by
  rcases step_cases hs with ⟨o, j, rest, -, -, rfl⟩ | ⟨o, a, -, -, rfl⟩ |
    ⟨b, k, rest, -, -, rfl⟩ | ⟨o, e, r, -, -, hr, rfl⟩
  · exact h.exec o c.state j
  · exact h.call o c.state a
  · exact h.ret c.state k b
  · exact h.event o c.state e r hr

end Machine

end Reentrant
