import Mathlib.Data.List.Infix
import Mathlib.Logic.Relation
import IouringRuntime.Reentrant.Trace

/-!
# Ordered channels

A channel takes elements in at one end and gives them out at the other, in
order: what has come out is a prefix of what has gone in. `Run` is what a
channel can do.

`Implements` says that a machine behaves as a channel as long as its steps meet
a condition: `input` and `output` of its states only grow, and stay in order.
Any run of such steps is then a run of the channel (`Implements.run`).
-/

namespace Reentrant

structure Channel (α : Type) where
  input : List α
  output : List α
  ordered : output <+: input

namespace Channel

variable {α : Type}

/-- What has gone in and not come out. -/
def waiting (c : Channel α) : List α := c.input.drop c.output.length

theorem output_append_waiting (c : Channel α) : c.output ++ c.waiting = c.input := by
  obtain ⟨rest, hr⟩ := c.ordered
  rw [waiting, ← hr, List.drop_left]

theorem waiting_eq {c : Channel α} {rest : List α} (h : c.input = c.output ++ rest) :
    c.waiting = rest := by
  rw [waiting, h, List.drop_left]

def accept (c : Channel α) (xs : List α) : Channel α where
  input := c.input ++ xs
  output := c.output
  ordered := c.ordered.trans (List.prefix_append _ _)

def emit (c : Channel α) (n : Nat) : Channel α where
  input := c.input
  output := c.output ++ c.waiting.take n
  ordered := by
    rw [← c.output_append_waiting, List.prefix_append_right_inj]
    exact List.take_prefix n c.waiting

inductive Step : Channel α → Channel α → Prop where
  | accept (c : Channel α) (xs : List α) : Step c (c.accept xs)
  | emit (c : Channel α) (n : Nat) : Step c (c.emit n)

abbrev Run : Channel α → Channel α → Prop := Relation.ReflTransGen Step

theorem Step.grows {c d : Channel α} (h : Step c d) :
    c.input <+: d.input ∧ c.output <+: d.output := by
  cases h with
  | accept xs => exact ⟨List.prefix_append _ _, List.prefix_rfl⟩
  | emit n => exact ⟨List.prefix_rfl, List.prefix_append _ _⟩

/-- One channel becomes another exactly if both ends have only grown. -/
theorem run_iff {c d : Channel α} :
    Run c d ↔ c.input <+: d.input ∧ c.output <+: d.output := by
  constructor
  · intro h
    induction h with
    | refl => exact ⟨List.prefix_rfl, List.prefix_rfl⟩
    | tail _ hs ih => exact ⟨ih.1.trans hs.grows.1, ih.2.trans hs.grows.2⟩
  · -- take everything in first, then give out what is missing
    rintro ⟨⟨xs, hi⟩, ⟨ys, ho⟩⟩
    refine .tail (.single (.accept c xs)) ?_
    have hw : (c.accept xs).waiting.take ys.length = ys := by
      obtain ⟨zs, hz⟩ := d.ordered
      have : (c.accept xs).waiting = ys ++ zs := waiting_eq (by
        show c.input ++ xs = c.output ++ (ys ++ zs)
        rw [hi, ← hz, ← ho, List.append_assoc])
      rw [this, List.take_left]
    have hd : d = (c.accept xs).emit ys.length := by
      obtain ⟨input, output, ordered⟩ := d
      simp only [emit, hw, mk.injEq]
      exact ⟨hi.symm, ho.symm⟩
    rw [hd]
    exact .emit _ _

end Channel

/-- The steps that meet `Q` keep `J` and act on the two ends of a channel. -/
structure Implements {σ ι α : Type} (step : σ → ι → Option σ) (Q : σ → ι → Prop) (J : σ → Prop)
    (input output : σ → List α) : Prop where
  ordered : ∀ {s}, J s → output s <+: input s
  keep : ∀ {s i s'}, J s → step s i = some s' → Q s i → J s'
  grows : ∀ {s i s'}, J s → step s i = some s' → input s <+: input s' ∧ output s <+: output s'

namespace Implements

variable {σ ι α : Type} {step : σ → ι → Option σ} {Q : σ → ι → Prop} {J : σ → Prop}
  {input output : σ → List α}

/-- The channel a state shows. -/
def channel (h : Implements step Q J input output) {s : σ} (hs : J s) : Channel α :=
  ⟨input s, output s, h.ordered hs⟩

/-- All along a run of steps that meet `Q`, the channel of the first state has
become the channel of the state reached. -/
theorem run (h : Implements step Q J input output) (is : List ι) :
    ∀ {s : σ} (hs : J s), Trace.Steps step Q s is →
      Trace.Visits step (fun t => ∃ ht : J t, Channel.Run (h.channel hs) (h.channel ht)) s is := by
  intro s hs
  refine Trace.visits_of_steps
    (J := fun t => ∃ ht : J t, Channel.Run (h.channel hs) (h.channel ht)) (fun _ ht => ht) ?_ is
    ⟨hs, .refl⟩
  rintro t i t' ⟨ht, hrun⟩ hstep hQ
  exact ⟨h.keep ht hstep hQ, hrun.trans (Channel.run_iff.2 (h.grows ht hstep))⟩

/-- The same for a machine all of whose steps meet `Q`. -/
theorem reachable (h : Implements step Q J input output) (hQ : ∀ s i, Q s i) {s t : σ} (hs : J s)
    (hr : Trace.Reachable step s t) :
    ∃ ht : J t, Channel.Run (h.channel hs) (h.channel ht) := by
  refine hr.invariant (I := fun t => ∃ ht : J t, Channel.Run (h.channel hs) (h.channel ht)) ?_
    ⟨hs, .refl⟩
  rintro t i t' ⟨ht, hrun⟩ hstep
  exact ⟨h.keep ht hstep (hQ t i), hrun.trans (Channel.run_iff.2 (h.grows ht hstep))⟩

end Implements

end Reentrant
