import Mathlib.Data.List.Basic

/-!
# Threads as a list

The local states of the threads of an interleaving, in no particular order. A
step of one thread replaces its entry by what it goes on with: one entry, or
none when it has ended. `count_put` and `filter_put` say what this does to the
threads of one kind.
-/

namespace Threads

variable {τ : Type}

/-- The thread at `i` goes on as `ts`. -/
def put (l : List τ) (i : Nat) (ts : List τ) : List τ := l.take i ++ ts ++ l.drop (i + 1)

variable {l : List τ} {i : Nat} {t : τ}

theorem put_split (h : l[i]? = some t) :
    ∃ xs ys, l = xs ++ t :: ys ∧ ∀ ts, put l i ts = xs ++ ts ++ ys := by
  obtain ⟨hi, rfl⟩ := List.getElem?_eq_some_iff.1 h
  exact ⟨l.take i, l.drop (i + 1), by rw [List.getElem_cons_drop, List.take_append_drop],
    fun _ => rfl⟩

theorem mem_of_put {ts : List τ} {u : τ} (hu : u ∈ put l i ts) : u ∈ l ∨ u ∈ ts := by
  simp only [put, List.mem_append] at hu
  rcases hu with (hu | hu) | hu
  · exact .inl (List.mem_of_mem_take hu)
  · exact .inr hu
  · exact .inl (List.mem_of_mem_drop hu)

theorem count_put (p : τ → Bool) (h : l[i]? = some t) (ts : List τ) :
    (put l i ts).countP p + [t].countP p = l.countP p + ts.countP p := by
  obtain ⟨xs, ys, rfl, hput⟩ := put_split h
  rw [hput, List.append_cons]
  simp only [List.countP_append]
  omega

/-- A thread of another kind takes a step. -/
theorem filter_put_of_not {p : τ → Bool} (h : l[i]? = some t) {ts : List τ} (ht : p t = false)
    (hts : ∀ u ∈ ts, p u = false) : (put l i ts).filter p = l.filter p := by
  obtain ⟨xs, ys, rfl, hput⟩ := put_split h
  have : ts.filter p = [] := List.filter_eq_nil_iff.2 fun u hu => by simp [hts u hu]
  rw [hput]
  simp [List.filter_append, ht, this]

/-- The only thread of its kind takes a step. -/
theorem filter_put_of_alone {p : τ → Bool} (h : l[i]? = some t) (ht : p t = true)
    (hl : (l.filter p).length ≤ 1) (ts : List τ) :
    l.filter p = [t] ∧ (put l i ts).filter p = ts.filter p := by
  obtain ⟨xs, ys, rfl, hput⟩ := put_split h
  rw [List.filter_append, List.filter_cons_of_pos ht, List.length_append, List.length_cons] at hl
  have hx : xs.filter p = [] := List.eq_nil_of_length_eq_zero (by omega)
  have hy : ys.filter p = [] := List.eq_nil_of_length_eq_zero (by omega)
  rw [hput]
  simp [List.filter_append, ht, hx, hy]

end Threads
