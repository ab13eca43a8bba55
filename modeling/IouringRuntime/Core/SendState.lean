import Mathlib.Data.List.Forall2
import IouringRuntime.Core.SendQueue

/-!
# Scatter lists and partial sends

`AdvanceSendState` (`core/SessionDetail.h`) drops what a partial `sendmsg`
has taken from the front of the scatter list. An `Iovec` is a window into the
storage `iov_base` points into; `WF` says the window lies inside it, `Covers`
that it shows the end of a buffer's data.
-/

namespace IouringRuntime

/-- `iov_base` (storage and offset) and `iov_len`. -/
structure Iovec where
  base : Bytes
  off : Nat
  len : Nat
  deriving DecidableEq, Repr

namespace Iovec

def bytes (v : Iovec) : Bytes := (v.base.drop v.off).take v.len

def WF (v : Iovec) : Prop := v.off + v.len ≤ v.base.length

/-- The window over the whole of a buffer's data. -/
def ofBuffer (b : SendBuffer) : Iovec := ⟨b.data, 0, b.data.length⟩

@[simp] theorem bytes_ofBuffer (b : SendBuffer) : (ofBuffer b).bytes = b.data := by
  simp [bytes, ofBuffer]

theorem wf_ofBuffer (b : SendBuffer) : (ofBuffer b).WF := by
  simp [WF, ofBuffer]

theorem WF.length_bytes {v : Iovec} (h : v.WF) : v.bytes.length = v.len := by
  unfold WF at h
  simp only [bytes, List.length_take, List.length_drop]
  omega

/-- Move the front of the window by `n` bytes. -/
def advance (v : Iovec) (n : Nat) : Iovec := ⟨v.base, v.off + n, v.len - n⟩

theorem bytes_advance (v : Iovec) (n : Nat) : (v.advance n).bytes = v.bytes.drop n := by
  simp only [bytes, advance, List.drop_take, List.drop_drop]

theorem WF.advance {v : Iovec} (h : v.WF) {n : Nat} (hn : n ≤ v.len) : (v.advance n).WF := by
  unfold WF at h ⊢
  simp only [Iovec.advance]
  omega

end Iovec

/-- The bytes a scatter list covers, in order. -/
def covered (iovs : List Iovec) : Bytes := (iovs.map Iovec.bytes).flatten

/-- The number of bytes requested by a `sendmsg` over the list. -/
def requested (iovs : List Iovec) : Nat := (iovs.map Iovec.len).sum

@[simp] theorem covered_nil : covered [] = [] := rfl

@[simp] theorem covered_cons (v : Iovec) (vs : List Iovec) :
    covered (v :: vs) = v.bytes ++ covered vs := by
  simp [covered]

@[simp] theorem requested_cons (v : Iovec) (vs : List Iovec) :
    requested (v :: vs) = v.len + requested vs := by
  simp [requested]

theorem covered_ofBuffer (bufs : List SendBuffer) :
    covered (bufs.map Iovec.ofBuffer) = dataOf bufs := by
  induction bufs with
  | nil => rfl
  | cons b bufs ih => simp [ih]

theorem length_covered {iovs : List Iovec} (h : ∀ v ∈ iovs, v.WF) :
    (covered iovs).length = requested iovs := by
  induction iovs with
  | nil => rfl
  | cons v vs ih =>
    simp only [List.mem_cons, forall_eq_or_imp] at h
    simp [ih h.2, h.1.length_bytes]

/-- The loop of `AdvanceSendState`: how many leading windows are fully sent,
and how many bytes are left over for the next one. -/
def advanceLoop : List Iovec → Nat → Nat × Nat
  | [], advanced => (0, advanced)
  | v :: vs, advanced =>
    if v.len ≤ advanced then
      ((advanceLoop vs (advanced - v.len)).1 + 1, (advanceLoop vs (advanced - v.len)).2)
    else (0, advanced)

def advanceSendState (iovs : List Iovec) (bufs : List SendBuffer) (advanced : Nat) :
    List Iovec × List SendBuffer :=
  let r := advanceLoop iovs advanced
  (match iovs.drop r.1 with
    | [] => []
    | front :: rest => (if 0 < r.2 then front.advance r.2 else front) :: rest,
   bufs.drop r.1)

theorem Iovec.advance_zero (v : Iovec) : v.advance 0 = v := rfl

theorem advanceSendState_nil (bufs : List SendBuffer) (n : Nat) :
    advanceSendState [] bufs n = ([], bufs) := rfl

/-- One unfolding of the whole function along the list. -/
theorem advanceSendState_cons (v : Iovec) (vs : List Iovec) (bufs : List SendBuffer) (n : Nat) :
    advanceSendState (v :: vs) bufs n =
      if v.len ≤ n then advanceSendState vs (bufs.drop 1) (n - v.len)
      else (v.advance n :: vs, bufs) := by
  by_cases h : v.len ≤ n
  · simp [advanceSendState, advanceLoop, h]
  · simp only [advanceSendState, advanceLoop, h, if_false, List.drop_zero]
    rcases Nat.eq_zero_or_pos n with rfl | hn
    · simp [Iovec.advance_zero]
    · simp [hn]

/-- The list left covers what was covered, less the bytes sent. -/
theorem covered_advanceSendState {iovs : List Iovec} (h : ∀ v ∈ iovs, v.WF) :
    ∀ (bufs : List SendBuffer) (n : Nat),
      covered (advanceSendState iovs bufs n).1 = (covered iovs).drop n := by
  induction iovs with
  | nil => intro bufs n; simp [advanceSendState_nil]
  | cons v vs ih =>
    intro bufs n
    simp only [List.mem_cons, forall_eq_or_imp] at h
    rw [advanceSendState_cons, covered_cons, List.drop_append, h.1.length_bytes]
    split
    · next hle =>
      have hnil : v.bytes.drop n = [] :=
        List.drop_eq_nil_of_le (by rw [h.1.length_bytes]; exact hle)
      rw [ih h.2, hnil, List.nil_append]
    · next hlt =>
      rw [covered_cons, Iovec.bytes_advance, show n - v.len = 0 by omega, List.drop_zero]

theorem wf_advanceSendState {iovs : List Iovec} (h : ∀ v ∈ iovs, v.WF) :
    ∀ (bufs : List SendBuffer) (n : Nat), ∀ v ∈ (advanceSendState iovs bufs n).1, v.WF := by
  induction iovs with
  | nil => intro bufs n v hv; simp [advanceSendState_nil] at hv
  | cons w vs ih =>
    intro bufs n v hv
    simp only [List.mem_cons, forall_eq_or_imp] at h
    rw [advanceSendState_cons] at hv
    split at hv
    · exact ih h.2 _ _ v hv
    · next hlt =>
      rcases List.mem_cons.1 hv with rfl | hv
      · exact h.1.advance (by omega)
      · exact h.2 v hv

/-! ## Windows and the buffers they keep alive -/

/-- The window over the end of a buffer's data. -/
def Iovec.Covers (v : Iovec) (b : SendBuffer) : Prop :=
  v.base = b.data ∧ v.off + v.len = b.data.length

namespace Iovec.Covers

variable {v : Iovec} {b : SendBuffer}

theorem wf (h : v.Covers b) : v.WF := by
  unfold Iovec.WF
  rw [h.1, h.2]

theorem advance (h : v.Covers b) {n : Nat} (hn : n ≤ v.len) : (v.advance n).Covers b := by
  refine ⟨h.1, ?_⟩
  rw [← h.2]
  show v.off + n + (v.len - n) = v.off + v.len
  omega

theorem bytes_suffix (h : v.Covers b) : v.bytes <:+ b.data := by
  have hrest : v.bytes = b.data.drop v.off := by
    rw [Iovec.bytes, h.1]
    exact List.take_of_length_le (by rw [List.length_drop, ← h.2]; omega)
  rw [hrest]
  exact List.drop_suffix _ _

end Iovec.Covers

theorem wf_of_covers {iovs : List Iovec} {bufs : List SendBuffer}
    (h : List.Forall₂ Iovec.Covers iovs bufs) : ∀ v ∈ iovs, v.WF := by
  induction h with
  | nil => intro v hv; cases hv
  | cons hv _ ih => exact List.forall_mem_cons.2 ⟨hv.wf, ih⟩

/-- The two vectors are erased in step. -/
theorem covers_advanceSendState {iovs : List Iovec} {bufs : List SendBuffer}
    (h : List.Forall₂ Iovec.Covers iovs bufs) (n : Nat) :
    List.Forall₂ Iovec.Covers (advanceSendState iovs bufs n).1
      (advanceSendState iovs bufs n).2 := by
  induction h generalizing n with
  | nil => exact .nil
  | @cons v b vs bufs hv h ih =>
    rw [advanceSendState_cons]
    split
    · exact ih _
    · next hlt => exact .cons (hv.advance (by omega)) h

/-- The buffers removed are those whose windows end within the bytes sent. -/
theorem removed_advanceSendState {iovs : List Iovec} {bufs : List SendBuffer}
    (h : iovs.length = bufs.length) (n : Nat) :
    ∃ k ≤ bufs.length, (advanceSendState iovs bufs n).2 = bufs.drop k ∧
      ∀ j < bufs.length, j < k ↔ requested (iovs.take (j + 1)) ≤ n := by
  induction iovs generalizing bufs n with
  | nil =>
    rw [← h, advanceSendState_nil]
    exact ⟨0, Nat.le_refl 0, rfl, fun j hj => absurd hj (Nat.not_lt_zero j)⟩
  | cons v vs ih =>
    cases bufs with
    | nil => cases h
    | cons b bufs =>
      rw [advanceSendState_cons]
      split
      case isTrue hle =>
        obtain ⟨k, hk, hdrop, hmem⟩ := ih (Nat.succ.inj h) (n - v.len)
        refine ⟨k + 1, Nat.succ_le_succ hk, hdrop, fun j hj => ?_⟩
        cases j with
        | zero => simpa [requested] using hle
        | succ j =>
          rw [List.take_succ_cons, requested_cons, Nat.succ_lt_succ_iff,
            hmem j (Nat.lt_of_succ_lt_succ hj)]
          omega
      case isFalse hlt =>
        refine ⟨0, Nat.zero_le _, rfl, fun j hj => ?_⟩
        rw [List.take_succ_cons, requested_cons]
        omega

/-- Two partial sends are one. -/
theorem advanceSendState_add (iovs : List Iovec) (bufs : List SendBuffer) (a b : Nat) :
    advanceSendState (advanceSendState iovs bufs a).1 (advanceSendState iovs bufs a).2 b =
      advanceSendState iovs bufs (a + b) := by
  induction iovs generalizing bufs a with
  | nil => rfl
  | cons v vs ih =>
    rw [advanceSendState_cons, advanceSendState_cons]
    by_cases ha : v.len ≤ a
    · rw [if_pos ha, if_pos (by omega), ih, show a - v.len + b = a + b - v.len by omega]
    · -- the first send ends inside this window
      rw [if_neg ha, advanceSendState_cons]
      show (if v.len - a ≤ b then advanceSendState vs (bufs.drop 1) (b - (v.len - a))
        else ((v.advance a).advance b :: vs, bufs)) = _
      by_cases hab : v.len ≤ a + b
      · rw [if_pos (by omega), if_pos hab, show b - (v.len - a) = a + b - v.len by omega]
      · rw [if_neg (by omega), if_neg hab]
        simp only [Iovec.advance, Nat.add_assoc, Nat.sub_sub]

/-- **`AdvanceSendState` drops exactly the bytes sent.** For windows over the ends
of their buffers, empty ones among them, and any number of bytes: windows and
buffers stay aligned, the windows left show what is not sent yet, the buffers
removed are those sent to their end, and sending in two parts makes no
difference. -/
theorem advanceSendState_exact {iovs : List Iovec} {bufs : List SendBuffer}
    (h : List.Forall₂ Iovec.Covers iovs bufs) (advanced : Nat) :
    (advanceSendState iovs bufs advanced).1.length =
      (advanceSendState iovs bufs advanced).2.length ∧
    List.Forall₂ (fun v b => v.Covers b ∧ v.bytes <:+ b.data)
      (advanceSendState iovs bufs advanced).1 (advanceSendState iovs bufs advanced).2 ∧
    covered (advanceSendState iovs bufs advanced).1 = (covered iovs).drop advanced ∧
    (∃ k ≤ bufs.length, (advanceSendState iovs bufs advanced).2 = bufs.drop k ∧
      ∀ j < bufs.length, j < k ↔ requested (iovs.take (j + 1)) ≤ advanced) ∧
    ∀ b, advanceSendState (advanceSendState iovs bufs advanced).1
        (advanceSendState iovs bufs advanced).2 b =
      advanceSendState iovs bufs (advanced + b) := by
  have hleft := covers_advanceSendState h advanced
  exact ⟨hleft.length_eq, hleft.imp fun _ _ hv => ⟨hv, hv.bytes_suffix⟩,
    covered_advanceSendState (wf_of_covers h) bufs advanced,
    removed_advanceSendState h.length_eq advanced, advanceSendState_add iovs bufs advanced⟩

/-- A buffer of three bytes whose first is sent, an empty one, and one of two:
sending three bytes more leaves the last byte. -/
theorem advanceSendState_exact_threeBuffers :
    let bufs : List SendBuffer := [⟨[1, 2, 3]⟩, ⟨[]⟩, ⟨[4, 5]⟩]
    let iovs : List Iovec := [⟨[1, 2, 3], 1, 2⟩, ⟨[], 0, 0⟩, ⟨[4, 5], 0, 2⟩]
    List.Forall₂ Iovec.Covers iovs bufs ∧
    advanceSendState iovs bufs 3 = ([⟨[4, 5], 1, 1⟩], [⟨[4, 5]⟩]) ∧
    covered (advanceSendState iovs bufs 3).1 = (covered iovs).drop 3 := by
  intro bufs iovs
  have h : List.Forall₂ Iovec.Covers iovs bufs :=
    .cons ⟨rfl, rfl⟩ (.cons ⟨rfl, rfl⟩ (.cons ⟨rfl, rfl⟩ .nil))
  exact ⟨h, by decide, (advanceSendState_exact h 3).2.2.1⟩

end IouringRuntime
