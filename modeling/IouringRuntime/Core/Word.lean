import Mathlib.Data.Nat.ModEq

/-!
# Byte strings and 32-bit arithmetic

Offsets, counts and lengths of the source are `std::uint32_t`; the model keeps
them as natural numbers and reduces where the source can wrap.
-/

namespace IouringRuntime

abbrev Bytes := List UInt8

/-- The bytes of a text of the source; all of them are ASCII. -/
def ascii (text : String) : Bytes := text.toList.map fun c => c.val.toUInt8

def u32 (n : Nat) : Nat := n % 2 ^ 32

/-- `static_cast<std::uint32_t>(a - b)`. -/
def sub32 (a b : Nat) : Nat := if b ≤ a then u32 (a - b) else u32 (2 ^ 32 - u32 (b - a))

theorem u32_of_lt {n : Nat} (h : n < 2 ^ 32) : u32 n = n := Nat.mod_eq_of_lt h

theorem u32_lt (n : Nat) : u32 n < 2 ^ 32 := Nat.mod_lt _ (by decide)

theorem sub32_lt (a b : Nat) : sub32 a b < 2 ^ 32 := by
  unfold sub32
  split <;> exact u32_lt _

theorem sub32_of_le {a b : Nat} (hb : b ≤ a) (ha : a < 2 ^ 32) : sub32 a b = a - b := by
  rw [sub32, if_pos hb]
  exact u32_of_lt (by omega)

theorem sub32_add {k : Nat} (b : Nat) (hk : k < 2 ^ 32) : sub32 (b + k) b = k := by
  rw [sub32, if_pos (Nat.le_add_right b k), Nat.add_sub_cancel_left]
  exact u32_of_lt hk

/-- The difference is the distance from `b` to `a` modulo `2 ^ 32`. -/
theorem modEq_add_sub32 (a b : Nat) : a ≡ b + sub32 a b [MOD 2 ^ 32] := by
  unfold sub32 u32 Nat.ModEq
  split <;> omega

theorem sub32_eq_of_modEq {a b k : Nat} (hk : k < 2 ^ 32) (h : a ≡ b + k [MOD 2 ^ 32]) :
    sub32 a b = k := by
  have h' : b + sub32 a b ≡ b + k [MOD 2 ^ 32] := (modEq_add_sub32 a b).symm.trans h
  exact (Nat.ModEq.add_left_cancel' b h').eq_of_lt_of_lt (sub32_lt a b) hk

theorem sub32_le_iff {a b n : Nat} (hn : n < 2 ^ 32) :
    sub32 a b ≤ n ↔ ∃ k ≤ n, a ≡ b + k [MOD 2 ^ 32] := by
  constructor
  · intro h
    exact ⟨sub32 a b, h, modEq_add_sub32 a b⟩
  · rintro ⟨k, hk, h⟩
    rw [sub32_eq_of_modEq (by omega) h]
    exact hk

end IouringRuntime
