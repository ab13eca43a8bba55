import Mathlib.Data.List.Basic
import IouringRuntime.Core.Word

/-!
# The send queue

`SendQueue` (`core/SendQueue.h`): a bounded FIFO of send buffers with byte
accounting and the `registered_` flag that tells the first push after a drained
send cycle to register a send. A `SendBuffer` is modelled by the bytes its
`Data()` spans; a buffer is not modified once it has been pushed. A null reference
counts as an empty buffer: the queue looks at nothing but the size.
-/

namespace IouringRuntime

/-- A committed send buffer: `Data()`. -/
structure SendBuffer where
  data : Bytes
  deriving DecidableEq, Repr

def SendBuffer.size (b : SendBuffer) : Nat := b.data.length

/-- The bytes of a list of buffers, in order. -/
def dataOf (bufs : List SendBuffer) : Bytes := (bufs.map SendBuffer.data).flatten

@[simp] theorem dataOf_nil : dataOf [] = [] := rfl

@[simp] theorem dataOf_cons (b : SendBuffer) (bufs : List SendBuffer) :
    dataOf (b :: bufs) = b.data ++ dataOf bufs := by
  simp [dataOf]

@[simp] theorem dataOf_append (xs ys : List SendBuffer) :
    dataOf (xs ++ ys) = dataOf xs ++ dataOf ys := by
  simp [dataOf]

structure PushResult where
  needsRegister : Bool
  overflowed : Bool
  currentDepth : Nat
  currentBytes : Nat
  deriving DecidableEq, Repr

structure SendQueue where
  pending : List SendBuffer := []
  registered : Bool := false
  maxPending : Nat := 4096
  pendingBytes : Nat := 0
  peakDepth : Nat := 0
  peakPendingBytes : Nat := 0
  overflowCount : Nat := 0
  deriving DecidableEq, Repr

namespace SendQueue

structure Stats where
  currentDepth : Nat := 0
  pendingBytes : Nat := 0
  peakDepth : Nat := 0
  peakPendingBytes : Nat := 0
  overflowCount : Nat := 0
  deriving DecidableEq, Repr

def push (q : SendQueue) (buf : SendBuffer) : SendQueue × PushResult :=
  if q.maxPending ≤ q.pending.length then
    ({ q with overflowCount := q.overflowCount + 1 },
      ⟨false, true, q.pending.length, q.pendingBytes⟩)
  else
    let pending := q.pending ++ [buf]
    let bytes := q.pendingBytes + buf.size
    ({ q with
        pending := pending
        pendingBytes := bytes
        peakDepth := if q.peakDepth < pending.length then pending.length else q.peakDepth
        peakPendingBytes := if q.peakPendingBytes < bytes then bytes else q.peakPendingBytes
        registered := true },
      ⟨!q.registered, false, pending.length, bytes⟩)

/-- Take the first `maxCount` buffers out of the queue (`0` takes all of them). -/
def drain (q : SendQueue) (maxCount : Nat) : SendQueue × List SendBuffer :=
  if maxCount = 0 ∨ q.pending.length ≤ maxCount then
    ({ q with pending := [], pendingBytes := 0 }, q.pending)
  else
    let out := q.pending.take maxCount
    ({ q with
        pending := q.pending.drop maxCount
        pendingBytes := q.pendingBytes - (out.map SendBuffer.size).sum }, out)

/-- The same into storage of the caller; an empty queue is left as it is. -/
def drainInto (q : SendQueue) (maxCount : Nat) : SendQueue × List SendBuffer :=
  if q.pending.isEmpty then (q, [])
  else if maxCount = 0 ∨ q.pending.length ≤ maxCount then
    ({ q with pending := [], pendingBytes := 0 }, q.pending)
  else
    let out := q.pending.take maxCount
    ({ q with
        pending := q.pending.drop maxCount
        pendingBytes := q.pendingBytes - (out.map SendBuffer.size).sum }, out)

/-- End of a send cycle: the next push registers a send again. -/
def markSent (q : SendQueue) : SendQueue :=
  if q.pending.isEmpty then { q with registered := false } else q

def snapshot (q : SendQueue) : Stats where
  currentDepth := q.pending.length
  pendingBytes := q.pendingBytes
  peakDepth := q.peakDepth
  peakPendingBytes := q.peakPendingBytes
  overflowCount := q.overflowCount

/-! ## What the operations do to the queue's contents -/

theorem push_cases (q : SendQueue) (buf : SendBuffer) :
    ((q.push buf).2.overflowed = true ∧ (q.push buf).1.pending = q.pending ∧
      (q.push buf).1.registered = q.registered) ∨
    ((q.push buf).2.overflowed = false ∧ (q.push buf).2.needsRegister = !q.registered ∧
      (q.push buf).1.pending = q.pending ++ [buf] ∧ (q.push buf).1.registered = true) := by
  unfold push
  split
  · exact .inl ⟨rfl, rfl, rfl⟩
  · exact .inr ⟨rfl, rfl, rfl, rfl⟩

/-- A drain splits the queue; nothing comes out iff nothing was there. -/
theorem drainInto_append (q : SendQueue) (n : Nat) :
    (q.drainInto n).2 ++ (q.drainInto n).1.pending = q.pending := by
  unfold drainInto
  split
  · rfl
  · split
    · simp
    · simp

@[simp] theorem drainInto_registered (q : SendQueue) (n : Nat) :
    (q.drainInto n).1.registered = q.registered := by
  unfold drainInto
  split
  · rfl
  · split <;> rfl

theorem drainInto_eq_nil {q : SendQueue} {n : Nat} :
    (q.drainInto n).2 = [] ↔ q.pending = [] := by
  unfold drainInto
  split
  · next h => simpa using h
  · next h =>
    split
    · simp
    · next hn =>
      simp only [List.take_eq_nil_iff, or_iff_right_iff_imp]
      intro h0
      exact absurd (.inl h0) hn

theorem drainInto_of_nil {q : SendQueue} (h : q.pending = []) (n : Nat) :
    q.drainInto n = (q, []) := by
  simp [drainInto, h]

/-- The byte count is that of the queued buffers. -/
def Counted (q : SendQueue) : Prop := q.pendingBytes = (q.pending.map SendBuffer.size).sum

/-- What is taken and what is left have together the size of the whole. -/
theorem sizes_take_add_drop (bufs : List SendBuffer) (n : Nat) :
    ((bufs.take n).map SendBuffer.size).sum + ((bufs.drop n).map SendBuffer.size).sum =
      (bufs.map SendBuffer.size).sum := by
  rw [← List.sum_append, ← List.map_append, List.take_append_drop]

theorem Counted.push {q : SendQueue} (h : q.Counted) (buf : SendBuffer) :
    (q.push buf).1.Counted := by
  unfold SendQueue.push
  split
  · exact h
  · show q.pendingBytes + buf.size = ((q.pending ++ [buf]).map SendBuffer.size).sum
    rw [h, List.map_append, List.sum_append, List.map_singleton, List.sum_singleton]

theorem Counted.drainInto {q : SendQueue} (h : q.Counted) (n : Nat) :
    (q.drainInto n).1.Counted := by
  unfold SendQueue.drainInto
  split
  · exact h
  · split
    · rfl
    · show q.pendingBytes - ((q.pending.take n).map SendBuffer.size).sum =
        ((q.pending.drop n).map SendBuffer.size).sum
      rw [h, ← sizes_take_add_drop q.pending n]
      exact Nat.add_sub_cancel_left _ _

theorem Counted.markSent {q : SendQueue} (h : q.Counted) : q.markSent.Counted := by
  unfold SendQueue.markSent
  split <;> exact h

theorem markSent_cases (q : SendQueue) :
    (q.pending = [] ∧ q.markSent.pending = [] ∧ q.markSent.registered = false) ∨
    (q.pending ≠ [] ∧ q.markSent = q) := by
  unfold markSent
  split
  · next h => exact .inl ⟨by simpa using h, by simpa using h, rfl⟩
  · next h => exact .inr ⟨by simpa using h, rfl⟩

end SendQueue

end IouringRuntime
