import IouringRuntime.Reentrant.Trace

/-!
# Bounded queues

A queue takes a group of items in as a whole, or not at all if it would then
hold more than its bound, and gives items out at its front. `Refines` is the
obligation of a component that keeps such a queue in a form of its own: each of
its operations does to the queue it represents what one operation of the queue
does, and the same items go in and come out. `Refines.run` is what follows for a
whole run: the component still represents the queue, and what has come out and
what it holds are together what has gone in.
-/

structure BoundedQueue (α : Type) where
  items : List α
  bound : Nat
  le_bound : items.length ≤ bound

namespace BoundedQueue

variable {α σ ι : Type}

inductive Op (α : Type) where
  | offer (xs : List α)
  | take (n : Nat)
  | clear
  | idle

def empty (bound : Nat) : BoundedQueue α := ⟨[], bound, Nat.zero_le bound⟩

def Fits (q : BoundedQueue α) (xs : List α) : Prop := q.items.length + xs.length ≤ q.bound

instance (q : BoundedQueue α) (xs : List α) : Decidable (q.Fits xs) := Nat.decLe _ _

def step (q : BoundedQueue α) : Op α → BoundedQueue α
  | .offer xs =>
    if h : q.Fits xs then ⟨q.items ++ xs, q.bound, by rw [List.length_append]; exact h⟩ else q
  | .take n =>
    ⟨q.items.drop n, q.bound, Nat.le_trans (List.drop_sublist n q.items).length_le q.le_bound⟩
  | .clear => ⟨[], q.bound, Nat.zero_le _⟩
  | .idle => q

/-- The items that an operation lets in. -/
def ins (q : BoundedQueue α) : Op α → List α
  | .offer xs => if q.Fits xs then xs else []
  | _ => []

/-- The items that an operation gives out. -/
def outs (q : BoundedQueue α) : Op α → List α
  | .take n => q.items.take n
  | .clear => q.items
  | _ => []

def run (q : BoundedQueue α) (ops : List (Op α)) : BoundedQueue α := ops.foldl step q

theorem step_of_fits {q : BoundedQueue α} {xs : List α} (h : q.Fits xs) :
    (q.step (.offer xs)).items = q.items ++ xs := by
  rw [step, dif_pos h]

theorem step_of_not_fits {q : BoundedQueue α} {xs : List α} (h : ¬ q.Fits xs) :
    q.step (.offer xs) = q := by
  rw [step, dif_neg h]

@[simp] theorem bound_step (q : BoundedQueue α) (op : Op α) : (q.step op).bound = q.bound := by
  cases op with
  | offer xs =>
    by_cases h : q.Fits xs
    · rw [step, dif_pos h]
    · rw [step_of_not_fits h]
  | _ => rfl

@[simp] theorem bound_run (q : BoundedQueue α) (ops : List (Op α)) :
    (q.run ops).bound = q.bound := by
  induction ops generalizing q with
  | nil => rfl
  | cons op ops ih => exact (ih (q.step op)).trans (bound_step q op)

/-- First in, first out. -/
theorem outs_append_items (q : BoundedQueue α) (op : Op α) :
    q.outs op ++ (q.step op).items = q.items ++ q.ins op := by
  cases op with
  | offer xs =>
    by_cases h : q.Fits xs
    · rw [step_of_fits h, ins, if_pos h]
      rfl
    · rw [step_of_not_fits h, ins, if_neg h, List.append_nil]
      rfl
  | take n => exact (List.take_append_drop n q.items).trans (List.append_nil _).symm
  | clear => rfl
  | idle => exact (List.append_nil _).symm

/-- Each step of a component is one operation of the queue it represents. -/
structure Refines (step : σ → ι → Option σ) (abs : ι → Op α) (ins outs : σ → ι → List α)
    (R : σ → BoundedQueue α → Prop) : Prop where
  keeps : ∀ {s s' q i}, R s q → step s i = some s' → R s' (q.step (abs i))
  ins_eq : ∀ {s s' q i}, R s q → step s i = some s' → ins s i = q.ins (abs i)
  outs_eq : ∀ {s s' q i}, R s q → step s i = some s' → outs s i = q.outs (abs i)

theorem Refines.run {step : σ → ι → Option σ} {abs : ι → Op α} {ins outs : σ → ι → List α}
    {R : σ → BoundedQueue α → Prop} (h : Refines step abs ins outs R) (is : List ι) :
    ∀ {s s' : σ} {q : BoundedQueue α}, R s q → Trace.run step s is = some s' →
      R s' (q.run (is.map abs)) ∧
      Trace.collect step outs s is ++ (q.run (is.map abs)).items =
        q.items ++ Trace.collect step ins s is := by
  induction is with
  | nil =>
    intro s s' q hR hrun
    cases hrun
    exact ⟨hR, (List.append_nil _).symm⟩
  | cons i is ih =>
    intro s s' q hR hrun
    obtain ⟨t, hstep, hrun⟩ := Option.bind_eq_some_iff.1 hrun
    obtain ⟨hR', hlaw⟩ := ih (h.keeps hR hstep) hrun
    refine ⟨hR', ?_⟩
    rw [Trace.collect, Trace.collect, hstep, h.ins_eq hR hstep, h.outs_eq hR hstep]
    show (q.outs (abs i) ++ Trace.collect step outs t is) ++
      ((q.step (abs i)).run (is.map abs)).items =
      q.items ++ (q.ins (abs i) ++ Trace.collect step ins t is)
    rw [List.append_assoc, hlaw, ← List.append_assoc, outs_append_items, List.append_assoc]

end BoundedQueue
