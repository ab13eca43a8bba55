import Mathlib.Data.Nat.ModEq
import Mathlib.Logic.Function.Basic

/-!
# Rings with free-running indices

A ring of `2 ^ k` slots between a producer and a consumer. Both indices are counters of
`w` bits that are never reset; the slot of an index is found by masking. The producer
writes a slot and then publishes it by moving `tail`, so the consumer may run between
the two. `Holds` says that the ring is the queue `l`.
-/

structure IndexRing (α : Type) where
  slots : Nat → α
  head : Nat := 0
  tail : Nat := 0

namespace IndexRing

variable {α : Type}

def slot (k i : Nat) : Nat := i &&& (2 ^ k - 1)

/-- The slot `offset` places after the ones published. -/
def write (k : Nat) (r : IndexRing α) (offset : Nat) (x : α) : IndexRing α :=
  { r with slots := Function.update r.slots (slot k (r.tail + offset)) x }

def advance (w : Nat) (r : IndexRing α) (n : Nat) : IndexRing α :=
  { r with tail := (r.tail + n) % 2 ^ w }

def take (k w : Nat) (r : IndexRing α) : Option (α × IndexRing α) :=
  if r.head = r.tail then none
  else some (r.slots (slot k r.head), { r with head := (r.head + 1) % 2 ^ w })

/-- The slots of the next `n` indices. -/
def fill (k : Nat) (f : Nat → α) (n : Nat) (r : IndexRing α) : IndexRing α :=
  (List.range n).foldl (fun r i => r.write k i (f i)) r

structure Holds (k w : Nat) (r : IndexRing α) (l : List α) : Prop where
  head_lt : r.head < 2 ^ w
  tail : r.tail = (r.head + l.length) % 2 ^ w
  length : l.length ≤ 2 ^ k
  slots : ∀ i x, l[i]? = some x → r.slots (slot k (r.head + i)) = x

variable {k w : Nat} {r : IndexRing α} {l : List α} {x : α}

theorem slot_eq (k i : Nat) : slot k i = i % 2 ^ k := Nat.and_two_pow_sub_one_eq_mod i k

/-- The counters wrap at a multiple of the size. -/
theorem slot_mod (hk : k < w) (i j : Nat) : slot k (i % 2 ^ w + j) = slot k (i + j) := by
  have hdvd : 2 ^ k ∣ 2 ^ w := Nat.pow_dvd_pow 2 hk.le
  rw [slot_eq, slot_eq, Nat.add_mod, Nat.mod_mod_of_dvd _ hdvd, ← Nat.add_mod]

theorem slot_injective {a i j : Nat} (hi : i < 2 ^ k) (hj : j < 2 ^ k)
    (h : slot k (a + i) = slot k (a + j)) : i = j := by
  rw [slot_eq, slot_eq] at h
  have hmod : i ≡ j [MOD 2 ^ k] := Nat.ModEq.add_left_cancel' a h
  exact hmod.eq_of_lt_of_lt hi hj

theorem Holds.slot_tail (hk : k < w) (h : Holds k w r l) (j : Nat) :
    slot k (r.tail + j) = slot k (r.head + (l.length + j)) := by
  rw [h.tail, slot_mod hk, Nat.add_assoc]

/-- A slot that is not published can be written. -/
theorem Holds.write (hk : k < w) (h : Holds k w r l) (hl : l.length < 2 ^ k) (x : α) :
    Holds k w (r.write k 0 x) l ∧
      (r.write k 0 x).slots (slot k (r.tail + 0)) = x := by
  refine ⟨⟨h.head_lt, h.tail, h.length, fun i y hy => ?_⟩, Function.update_self ..⟩
  have hi : i < l.length := (List.getElem?_eq_some_iff.1 hy).1
  have hne : slot k (r.head + i) ≠ slot k (r.tail + 0) := by
    rw [h.slot_tail hk]
    intro he
    have := slot_injective (by omega) (by omega) he
    omega
  exact (Function.update_of_ne hne ..).trans (h.slots i y hy)

theorem Holds.advance (hk : k < w) (h : Holds k w r l) (hl : l.length < 2 ^ k)
    (hx : r.slots (slot k (r.tail + 0)) = x) : Holds k w (r.advance w 1) (l ++ [x]) := by
  refine ⟨h.head_lt, ?_, ?_, fun i y hy => ?_⟩
  · show (r.tail + 1) % 2 ^ w = (r.head + (l ++ [x]).length) % 2 ^ w
    rw [h.tail, Nat.mod_add_mod, List.length_append, List.length_singleton, Nat.add_assoc]
  · rw [List.length_append, List.length_singleton]
    omega
  · rcases Nat.lt_or_ge i l.length with hi | hi
    · rw [List.getElem?_append_left hi] at hy
      exact h.slots i y hy
    · have hi' : i = l.length := by
        have := (List.getElem?_eq_some_iff.1 hy).1
        rw [List.length_append, List.length_singleton] at this
        omega
      subst hi'
      rw [List.getElem?_append_right (Nat.le_refl _), Nat.sub_self] at hy
      rw [h.slot_tail hk] at hx
      exact hx.trans (Option.some.inj hy)

theorem Holds.take_nil (h : Holds k w r []) : r.take k w = none := by
  have htail : r.tail = r.head := by
    rw [h.tail, List.length_nil, Nat.add_zero, Nat.mod_eq_of_lt h.head_lt]
  rw [take, if_pos htail.symm]

theorem Holds.take_cons (hk : k < w) (h : Holds k w r (x :: l)) :
    ∃ r', r.take k w = some (x, r') ∧ r'.slots = r.slots ∧ r'.tail = r.tail ∧ Holds k w r' l := by
  have hpow : 2 ^ k < 2 ^ w := Nat.pow_lt_pow_right (by omega) hk
  have hlength := h.length
  rw [List.length_cons] at hlength
  have hne : r.head ≠ r.tail := by
    intro he
    have htail := h.tail
    rw [List.length_cons, ← he] at htail
    have hmod : r.head + 0 ≡ r.head + (l.length + 1) [MOD 2 ^ w] := by
      rw [Nat.ModEq, ← htail, Nat.add_zero, Nat.mod_eq_of_lt h.head_lt]
    have := (Nat.ModEq.add_left_cancel' _ hmod).eq_of_lt_of_lt (by omega) (by omega)
    omega
  have hx : r.slots (slot k r.head) = x := h.slots 0 x rfl
  refine ⟨{ r with head := (r.head + 1) % 2 ^ w }, ?_, rfl, rfl,
    Nat.mod_lt _ (Nat.two_pow_pos w), ?_, by omega, fun i y hy => ?_⟩
  · rw [take, if_neg hne, hx]
  · show r.tail = ((r.head + 1) % 2 ^ w + l.length) % 2 ^ w
    rw [h.tail, List.length_cons, Nat.mod_add_mod, Nat.add_assoc, Nat.add_comm 1]
  · show r.slots (slot k ((r.head + 1) % 2 ^ w + i)) = y
    rw [slot_mod hk, Nat.add_assoc, Nat.add_comm 1]
    exact h.slots (i + 1) y hy

theorem fill_succ (f : Nat → α) (n : Nat) (r : IndexRing α) :
    r.fill k f (n + 1) = (r.fill k f n).write k n (f n) := by
  rw [fill, List.range_succ, List.foldl_append]
  rfl

theorem fill_indices (f : Nat → α) (n : Nat) (r : IndexRing α) :
    (r.fill k f n).head = r.head ∧ (r.fill k f n).tail = r.tail := by
  induction n with
  | zero => exact ⟨rfl, rfl⟩
  | succ n ih => rw [fill_succ]; exact ih

theorem slots_fill (f : Nat → α) (r : IndexRing α) {n : Nat} (hn : n ≤ 2 ^ k) :
    ∀ i, i < n → (r.fill k f n).slots (slot k (r.tail + i)) = f i := by
  induction n with
  | zero => intro i hi; omega
  | succ n ih =>
    intro i hi
    rw [fill_succ, IndexRing.write, (r.fill_indices f n).2]
    by_cases he : i = n
    · subst he
      exact Function.update_self ..
    · have hne : slot k (r.tail + i) ≠ slot k (r.tail + n) :=
        fun h => he (slot_injective (by omega) (by omega) h)
      exact (Function.update_of_ne hne ..).trans (ih (by omega) i (by omega))

/-- An empty ring that is filled and then published at once. -/
theorem Holds.fill (hk : k < w) (h : Holds k w r []) (f : Nat → α) {n : Nat} (hn : n ≤ 2 ^ k) :
    Holds k w ((r.fill k f n).advance w n) ((List.range n).map f) := by
  obtain ⟨hhead, htail⟩ := r.fill_indices f n (k := k)
  refine ⟨by rw [IndexRing.advance, hhead]; exact h.head_lt, ?_, by simpa using hn,
    fun i y hy => ?_⟩
  · show ((r.fill k f n).tail + n) % 2 ^ w = _
    simp [htail, hhead, h.tail, IndexRing.advance]
  · rw [List.getElem?_map] at hy
    obtain ⟨j, hj, rfl⟩ := Option.map_eq_some_iff.1 hy
    obtain ⟨hi, rfl⟩ := List.getElem?_eq_some_iff.1 hj
    rw [List.length_range] at hi
    have hslot := h.slot_tail hk i
    rw [List.length_nil, Nat.zero_add] at hslot
    show (r.fill k f n).slots (slot k ((r.fill k f n).head + i)) = _
    rw [hhead, ← hslot, slots_fill f r hn i hi, List.getElem_range]

end IndexRing
