import Mathlib.Data.List.Infix
import Mathlib.Order.Bounds.Basic
import Mathlib.Order.MinMax

/-!
# Runs of a partial step function

`run` takes a list of inputs; `Reachable` is its relational form. `Visits P`
and `Steps Q` say that every state a run passes through satisfies `P`, and
that every step it takes satisfies `Q`; a run ends at the first input that is
not possible. `visits_of_steps` is the invariant rule for runs whose steps
meet a condition, `visits_iff_steps` the rule for a property that one kind of
step breaks.
-/

namespace Trace

variable {σ α : Type}

def run (step : σ → α → Option σ) (s : σ) : List α → Option σ
  | [] => some s
  | i :: is => (step s i).bind (run step · is)

inductive Reachable (step : σ → α → Option σ) (s₀ : σ) : σ → Prop where
  | refl : Reachable step s₀ s₀
  | step {s s' : σ} (i : α) : Reachable step s₀ s → step s i = some s' → Reachable step s₀ s'

/-- What the steps of a run yield, in order. -/
def collect {β : Type} (step : σ → α → Option σ) (f : σ → α → List β) : σ → List α → List β
  | _, [] => []
  | s, i :: is => f s i ++ (step s i).elim [] (collect step f · is)

/-- Every state the run passes through satisfies `P`. -/
def Visits (step : σ → α → Option σ) (P : σ → Prop) : σ → List α → Prop
  | s, [] => P s
  | s, i :: is => P s ∧ ∀ s', step s i = some s' → Visits step P s' is

/-- Every step the run takes satisfies `Q`. -/
def Steps (step : σ → α → Option σ) (Q : σ → α → Prop) : σ → List α → Prop
  | _, [] => True
  | s, i :: is => ∀ s', step s i = some s' → Q s i ∧ Steps step Q s' is

/-- A step function whose inputs are always possible. -/
def total (f : σ → α → σ) : σ → α → Option σ := fun s i => some (f s i)

theorem run_total (f : σ → α → σ) (is : List α) :
    ∀ s : σ, run (total f) s is = some (is.foldl f s) := by
  induction is with
  | nil => intro s; rfl
  | cons i is ih => intro s; exact ih (f s i)

theorem collect_snoc {β : Type} (f : σ → α → σ) (g : σ → α → List β) (is : List α) (i : α) :
    ∀ s : σ, collect (total f) g s (is ++ [i]) =
      collect (total f) g s is ++ g (is.foldl f s) i := by
  induction is with
  | nil => intro s; exact List.append_nil _
  | cons j is ih =>
    intro s
    show g s j ++ collect (total f) g (f s j) (is ++ [i]) =
      (g s j ++ collect (total f) g (f s j) is) ++ g (is.foldl f (f s j)) i
    rw [ih, List.append_assoc]

variable {step : σ → α → Option σ}

theorem Reachable.trans {a b c : σ} (h1 : Reachable step a b) (h2 : Reachable step b c) :
    Reachable step a c := by
  induction h2 with
  | refl => exact h1
  | step i _ hs ih => exact .step i ih hs

theorem Reachable.of_run (is : List α) :
    ∀ {s₀ s : σ}, run step s₀ is = some s → Reachable step s₀ s := by
  induction is with
  | nil => intro s₀ s h; cases h; exact .refl
  | cons i is ih =>
    intro s₀ s h
    obtain ⟨t, ht, hr⟩ := Option.bind_eq_some_iff.1 h
    exact (Reachable.refl.step i ht).trans (ih hr)

/-- What every step keeps holds in every state reached. -/
theorem Reachable.invariant {I : σ → Prop} {s₀ s : σ} (hr : Reachable step s₀ s)
    (keep : ∀ s i s', I s → step s i = some s' → I s') (h0 : I s₀) : I s := by
  induction hr with
  | refl => exact h0
  | step i _ hs ih => exact keep _ i _ ih hs

theorem Visits.head {P : σ → Prop} {s : σ} {is : List α} (h : Visits step P s is) : P s := by
  cases is with
  | nil => exact h
  | cons => exact h.1

theorem Visits.of_run {P : σ → Prop} (is : List α) :
    ∀ {s t : σ}, Visits step P s is → run step s is = some t → P t := by
  induction is with
  | nil => intro s t h hr; cases hr; exact h
  | cons i is ih =>
    intro s t h hr
    obtain ⟨u, hu, hr⟩ := Option.bind_eq_some_iff.1 hr
    exact ih (h.2 u hu) hr

theorem Steps.cons {Q : σ → α → Prop} {s t : σ} {i : α} {is : List α} (hs : step s i = some t)
    (hQ : Q s i) (h : Steps step Q t is) : Steps step Q s (i :: is) := by
  intro t' ht'
  obtain rfl := Option.some.inj (hs.symm.trans ht')
  exact ⟨hQ, h⟩

instance decidableSteps {Q : σ → α → Prop} [∀ s i, Decidable (Q s i)] :
    ∀ (s : σ) (is : List α), Decidable (Steps step Q s is)
  | _, [] => .isTrue trivial
  | s, i :: is =>
    match h : step s i with
    | none => .isTrue fun _ hs => by rw [h] at hs; cases hs
    | some t =>
      have := decidableSteps (Q := Q) t is
      decidable_of_iff (Q s i ∧ Steps step Q t is)
        ⟨fun hq => Steps.cons h hq.1 hq.2, fun hq => hq t h⟩

/-- A run whose steps satisfy `Q` stays inside `P`, when `J` is stronger than
`P` and kept by steps that satisfy `Q`. -/
theorem visits_of_steps {P J : σ → Prop} {Q : σ → α → Prop} (hP : ∀ s, J s → P s)
    (keep : ∀ s i s', J s → step s i = some s' → Q s i → J s') (is : List α) :
    ∀ {s : σ}, J s → Steps step Q s is → Visits step P s is := by
  induction is with
  | nil => intro s hJ _; exact hP s hJ
  | cons i is ih =>
    intro s hJ h
    refine ⟨hP s hJ, fun s' hs => ?_⟩
    obtain ⟨hQ, h'⟩ := h s' hs
    exact ih (keep s i s' hJ hs hQ) h'

/-- A run whose steps satisfy `Q` has only steps that satisfy `R`, when `R`
follows under an invariant `J` of such steps. -/
theorem steps_of_steps {J : σ → Prop} {Q R : σ → α → Prop}
    (hR : ∀ s i s', J s → step s i = some s' → Q s i → R s i)
    (keep : ∀ s i s', J s → step s i = some s' → Q s i → J s') (is : List α) :
    ∀ {s : σ}, J s → Steps step Q s is → Steps step R s is := by
  induction is with
  | nil => intro s _ _; trivial
  | cons i is ih =>
    intro s hJ h s' hs
    obtain ⟨hQ, h'⟩ := h s' hs
    exact ⟨hR s i s' hJ hs hQ, ih (keep s i s' hJ hs hQ) h'⟩

/-- A run stays inside `P` iff all its steps satisfy `Q`, when under the
invariant `J` any other step leaves `P`. -/
theorem visits_iff_steps {P J : σ → Prop} {Q : σ → α → Prop} (hP : ∀ s, J s → P s)
    (keep : ∀ s i s', J s → step s i = some s' → Q s i → J s')
    (leave : ∀ s i s', J s → step s i = some s' → ¬ Q s i → ¬ P s')
    (is : List α) : ∀ {s : σ}, J s → (Visits step P s is ↔ Steps step Q s is) := by
  induction is with
  | nil => intro s hJ; exact ⟨fun _ => trivial, fun _ => hP s hJ⟩
  | cons i is ih =>
    intro s hJ
    refine ⟨?_, visits_of_steps hP keep (i :: is) hJ⟩
    rintro ⟨-, h⟩ s' hs
    have hQ : Q s i := by
      by_contra hn
      exact leave s i s' hJ hs hn (h s' hs).head
    exact ⟨hQ, (ih (keep s i s' hJ hs hQ)).1 (h s' hs)⟩

/-- A field that follows the maximum of `f` is the greatest value `f` has had. -/
theorem isGreatest_peak {f : σ → α → σ} (value peak : σ → Nat) (s : σ) (h0 : peak s = value s)
    (hstep : ∀ s i, value s ≤ peak s → peak (f s i) = max (peak s) (value (f s i))) (is : List α) :
    IsGreatest {n | ∃ js, js <+: is ∧ value (js.foldl f s) = n} (peak (is.foldl f s)) := by
  induction is using List.reverseRecOn with
  | nil =>
    refine ⟨⟨[], List.nil_prefix, h0.symm⟩, ?_⟩
    rintro n ⟨js, hjs, rfl⟩
    rw [List.prefix_nil.1 hjs]
    exact h0.ge
  | append_singleton is i ih =>
    obtain ⟨⟨js, hjs, hpeak⟩, hmax⟩ := ih
    have hnow := hstep (is.foldl f s) i (hmax ⟨is, List.prefix_refl is, rfl⟩)
    rw [List.foldl_append]
    show IsGreatest _ (peak (f (is.foldl f s) i))
    refine ⟨?_, ?_⟩
    · rcases max_choice (peak (is.foldl f s)) (value (f (is.foldl f s) i)) with h | h
      · exact ⟨js, hjs.trans (List.prefix_append is [i]), by rw [hnow, h, hpeak]⟩
      · exact ⟨is ++ [i], List.prefix_refl _, by rw [hnow, h, List.foldl_append]; rfl⟩
    · rintro n ⟨ks, hks, rfl⟩
      rw [hnow]
      rcases List.prefix_concat_iff.1 hks with rfl | hks
      · rw [List.foldl_append]
        exact le_max_right _ _
      · exact le_max_of_le_left (hmax ⟨ks, hks, rfl⟩)

end Trace
