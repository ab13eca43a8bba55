import Mathlib.Data.List.Basic
import IouringRuntime.Core.Word
import IouringRuntime.Streaming.BoundedQueue

/-!
# The receive reassembly buffer

`RecvBuffer` (`core/RecvBuffer.h`): a fixed storage with a read and a write
position. Positions are 32-bit and nothing in the class checks `OnRead`
against the write position, so `read_pos_ ≤ write_pos_` is a matter of its
callers; `WellFormed` is what they have to keep. Under their contracts the buffer
is a bounded queue of bytes (`recvBuffer_refines`).
-/

namespace IouringRuntime

structure RecvBuffer where
  storage : Bytes
  capacity : Nat
  readPos : Nat := 0
  writePos : Nat := 0
  deriving DecidableEq, Repr

namespace RecvBuffer

def make (size : Nat) : RecvBuffer := { storage := List.replicate size 0, capacity := size }

def isEmpty (b : RecvBuffer) : Bool := b.readPos == b.writePos

def shouldCompact (b : RecvBuffer) : Bool := b.capacity / 2 < b.readPos

def readableSize (b : RecvBuffer) : Nat := sub32 b.writePos b.readPos

def writableSize (b : RecvBuffer) : Nat := sub32 b.capacity b.writePos

def readRegion (b : RecvBuffer) : Bytes := (b.storage.drop b.readPos).take b.readableSize

def onRead (b : RecvBuffer) (bytes : Nat) : RecvBuffer :=
  let b := { b with readPos := u32 (b.readPos + bytes) }
  if b.readPos = b.writePos then { b with readPos := 0, writePos := 0 } else b

def compact (b : RecvBuffer) : RecvBuffer :=
  if b.readPos = 0 then b
  else
    { b with
      storage := b.readRegion ++ b.storage.drop b.readableSize
      readPos := 0
      writePos := b.readableSize }

/-- The `memcpy` of `Append`. -/
def write (b : RecvBuffer) (data : Bytes) : RecvBuffer :=
  { b with
    storage := b.storage.take b.writePos ++ data ++ b.storage.drop (b.writePos + data.length)
    writePos := u32 (b.writePos + data.length) }

/-- `false` is `kResourceExhausted`; the buffer has been compacted then. -/
def append (b : RecvBuffer) (data : Bytes) : RecvBuffer × Bool :=
  let b := if b.writableSize < u32 data.length then b.compact else b
  if b.writableSize < u32 data.length then (b, false) else (b.write data, true)

theorem capacity_compact (b : RecvBuffer) : b.compact.capacity = b.capacity := by
  unfold compact
  split <;> rfl

theorem capacity_append (b : RecvBuffer) (data : Bytes) :
    (b.append data).1.capacity = b.capacity := by
  have hc := capacity_compact b
  unfold append
  dsimp only
  split
  · split <;> exact hc
  · rfl

theorem capacity_onRead (b : RecvBuffer) (n : Nat) : (b.onRead n).capacity = b.capacity := by
  unfold onRead
  dsimp only
  split <;> rfl

structure WellFormed (b : RecvBuffer) : Prop where
  storage_length : b.storage.length = b.capacity
  capacity_lt : b.capacity < 2 ^ 32
  read_le : b.readPos ≤ b.writePos
  write_le : b.writePos ≤ b.capacity

theorem make_wellFormed {size : Nat} (h : size < 2 ^ 32) : (make size).WellFormed :=
  ⟨List.length_replicate, h, Nat.le_refl _, Nat.zero_le _⟩

namespace WellFormed

variable {b : RecvBuffer}

theorem readableSize_eq (h : b.WellFormed) : b.readableSize = b.writePos - b.readPos := by
  have := h.capacity_lt
  have := h.write_le
  exact sub32_of_le h.read_le (by omega)

theorem writableSize_eq (h : b.WellFormed) : b.writableSize = b.capacity - b.writePos :=
  sub32_of_le h.write_le h.capacity_lt

theorem length_readRegion (h : b.WellFormed) : b.readRegion.length = b.writePos - b.readPos := by
  have := h.storage_length
  have := h.write_le
  rw [readRegion, List.length_take, List.length_drop, h.readableSize_eq]
  omega

theorem readableSize_eq_length (h : b.WellFormed) : b.readableSize = b.readRegion.length :=
  h.readableSize_eq.trans h.length_readRegion.symm

theorem length_readRegion_le (h : b.WellFormed) : b.readRegion.length ≤ b.capacity := by
  have := h.write_le
  rw [h.length_readRegion]
  omega

theorem length_readRegion_lt (h : b.WellFormed) : b.readRegion.length < 2 ^ 32 := by
  have := h.capacity_lt
  have := h.write_le
  rw [h.length_readRegion]
  omega

theorem readRegion_eq_nil_iff (h : b.WellFormed) : b.readRegion = [] ↔ b.isEmpty = true := by
  have hr := h.read_le
  rw [← List.length_eq_zero_iff, h.length_readRegion, isEmpty, beq_iff_eq]
  omega

/-- The unread bytes as a slice of the written ones. -/
theorem readRegion_eq (h : b.WellFormed) :
    b.readRegion = (b.storage.take b.writePos).drop b.readPos := by
  rw [readRegion, h.readableSize_eq, List.drop_take]

theorem onRead {k : Nat} (h : b.WellFormed) (hk : k ≤ b.readRegion.length) :
    (b.onRead k).WellFormed ∧ (b.onRead k).readRegion = b.readRegion.drop k := by
  rw [h.length_readRegion] at hk
  have hc := h.capacity_lt
  have hw := h.write_le
  have hr := h.read_le
  have hu : u32 (b.readPos + k) = b.readPos + k := u32_of_lt (by omega)
  unfold RecvBuffer.onRead
  simp only [hu]
  split
  case isTrue he =>
    -- everything was read: both positions go back to the start
    have h0 : ({ b with readPos := 0, writePos := 0 } : RecvBuffer).WellFormed :=
      ⟨h.storage_length, hc, Nat.le_refl _, Nat.zero_le _⟩
    refine ⟨h0, ?_⟩
    rw [h0.readRegion_eq, h.readRegion_eq, List.drop_drop, he]
    simp
  case isFalse hne =>
    have h1 : ({ b with readPos := b.readPos + k } : RecvBuffer).WellFormed :=
      ⟨h.storage_length, hc, by show b.readPos + k ≤ b.writePos; omega, hw⟩
    refine ⟨h1, ?_⟩
    rw [h1.readRegion_eq, h.readRegion_eq, List.drop_drop]

theorem compact (h : b.WellFormed) :
    b.compact.WellFormed ∧ b.compact.readRegion = b.readRegion ∧
      b.compact.capacity = b.capacity := by
  unfold RecvBuffer.compact
  split
  case isTrue => exact ⟨h, rfl, rfl⟩
  case isFalse =>
    have hl := h.length_readRegion
    have hs := h.readableSize_eq
    have hw := h.write_le
    have hlen := h.storage_length
    have h1 : ({ b with
        storage := b.readRegion ++ b.storage.drop b.readableSize
        readPos := 0
        writePos := b.readableSize } : RecvBuffer).WellFormed := by
      refine ⟨?_, h.capacity_lt, Nat.zero_le _, ?_⟩
      · simp only [List.length_append, List.length_drop, hl, hs, hlen]
        omega
      · show b.readableSize ≤ b.capacity
        omega
    refine ⟨h1, ?_, rfl⟩
    rw [h1.readRegion_eq, List.drop_zero]
    exact List.take_left' (by rw [hl, hs])

theorem write {data : Bytes} (h : b.WellFormed) (hd : b.writePos + data.length ≤ b.capacity) :
    (b.write data).WellFormed ∧ (b.write data).readRegion = b.readRegion ++ data := by
  have hc := h.capacity_lt
  have hr := h.read_le
  have hlen := h.storage_length
  have hu : u32 (b.writePos + data.length) = b.writePos + data.length := u32_of_lt (by omega)
  have ht : (b.storage.take b.writePos).length = b.writePos :=
    List.length_take_of_le (by omega)
  have h1 : (b.write data).WellFormed := by
    refine ⟨?_, hc, ?_, ?_⟩
    · simp only [RecvBuffer.write, List.length_append, List.length_drop, ht, hlen]
      omega
    · show b.readPos ≤ u32 (b.writePos + data.length)
      omega
    · show u32 (b.writePos + data.length) ≤ b.capacity
      omega
  refine ⟨h1, ?_⟩
  have hpre : (b.write data).storage.take (b.write data).writePos =
      b.storage.take b.writePos ++ data := by
    simp only [RecvBuffer.write, hu]
    exact List.take_left' (by rw [List.length_append, ht])
  rw [h1.readRegion_eq, hpre, h.readRegion_eq]
  exact List.drop_append_of_le_length (by rw [ht]; exact hr)

/-- `Append` keeps the positions in order and, when it succeeds, adds the data
behind the unread bytes. -/
theorem append {data : Bytes} (h : b.WellFormed) (hd : data.length < 2 ^ 32) :
    (b.append data).1.WellFormed ∧ (b.append data).1.readRegion =
      if (b.append data).2 then b.readRegion ++ data else b.readRegion := by
  have key : ∀ c : RecvBuffer, c.WellFormed → c.readRegion = b.readRegion →
      let r := if c.writableSize < u32 data.length then (c, false) else (c.write data, true)
      r.1.WellFormed ∧ r.1.readRegion = if r.2 then b.readRegion ++ data else b.readRegion := by
    intro c hc hreg
    have hsize := hc.writableSize_eq
    have hw := hc.write_le
    simp only [u32_of_lt hd]
    split
    case isTrue => exact ⟨hc, hreg⟩
    case isFalse hroom =>
      have hfit : c.writePos + data.length ≤ c.capacity := by omega
      obtain ⟨h1, h2⟩ := hc.write hfit
      exact ⟨h1, by rw [h2, hreg]; rfl⟩
  unfold RecvBuffer.append
  split
  case isTrue => exact key _ h.compact.1 h.compact.2.1
  case isFalse => exact key _ h rfl

/-- Data that fits behind the unread bytes is accepted. -/
theorem append_fits (h : b.WellFormed) (data : Bytes)
    (hd : b.readRegion.length + data.length ≤ b.capacity) :
    (b.append data).2 = true ∧ (b.append data).1.capacity = b.capacity := by
  have hc := h.capacity_lt
  have hlen := h.length_readRegion
  have hu : u32 data.length = data.length := u32_of_lt (by omega)
  have hsize := h.writableSize_eq
  unfold RecvBuffer.append
  rw [hu]
  split
  case isTrue hsmall =>
    -- after compaction the unread bytes are all that is before the write position
    obtain ⟨hwf, hreg, hcap⟩ := h.compact
    have hread : b.compact.readPos = 0 := by
      unfold RecvBuffer.compact
      split
      · assumption
      · rfl
    have hw := hwf.length_readRegion
    have hsize' := hwf.writableSize_eq
    rw [if_neg (by rw [hsize', hcap]; rw [hreg] at hw; omega)]
    exact ⟨rfl, hcap⟩
  case isFalse hroom =>
    rw [if_neg hroom]
    exact ⟨rfl, rfl⟩

/-- `Append` succeeds iff the data fits behind the unread bytes, wherever they
stand in the storage. -/
theorem append_iff (h : b.WellFormed) {data : Bytes} (hd : data.length < 2 ^ 32) :
    (b.append data).2 = true ↔ b.readRegion.length + data.length ≤ b.capacity := by
  refine ⟨fun hok => ?_, fun hle => (h.append_fits data hle).1⟩
  obtain ⟨hwf, hreg⟩ := h.append hd
  rw [if_pos hok] at hreg
  have hle := hwf.length_readRegion_le
  rwa [hreg, List.length_append, capacity_append] at hle

end WellFormed

/-! ## The buffer as a bounded queue of bytes -/

inductive Op where
  | append (data : Bytes)
  | onRead (bytes : Nat)
  | compact
  deriving DecidableEq, Repr

/-- A call, if it keeps to its contract: `Append` of less than 2^32 bytes, `OnRead`
of bytes that are there. -/
def step (b : RecvBuffer) : Op → Option RecvBuffer
  | .append data => if data.length < 2 ^ 32 then some (b.append data).1 else none
  | .onRead bytes => if bytes ≤ b.readableSize then some (b.onRead bytes) else none
  | .compact => some b.compact

/-- The bytes that a call appends. -/
def appended (b : RecvBuffer) : Op → Bytes
  | .append data => if (b.append data).2 then data else []
  | _ => []

/-- The bytes that a call reads. -/
def consumed (b : RecvBuffer) : Op → Bytes
  | .onRead bytes => b.readRegion.take bytes
  | _ => []

/-- The same call on a queue of bytes. -/
def Op.onQueue : Op → BoundedQueue.Op UInt8
  | .append data => .offer data
  | .onRead bytes => .take bytes
  | .compact => .idle

structure Represents (b : RecvBuffer) (q : BoundedQueue UInt8) : Prop where
  wellFormed : b.WellFormed
  items : b.readRegion = q.items
  bound : b.capacity = q.bound

theorem Represents.append_iff {b : RecvBuffer} {q : BoundedQueue UInt8} (h : b.Represents q)
    {data : Bytes} (hd : data.length < 2 ^ 32) : (b.append data).2 = true ↔ q.Fits data := by
  rw [h.wellFormed.append_iff hd, h.items, h.bound]
  rfl

theorem represents_make {size : Nat} (h : size < 2 ^ 32) :
    (make size).Represents (BoundedQueue.empty size) :=
  ⟨make_wellFormed h, rfl, rfl⟩

/-- Every call does to the unread bytes what it does to the queue. -/
theorem refines : BoundedQueue.Refines step Op.onQueue appended consumed Represents where
  keeps := by
    intro b b' q op h hs
    have hwf := h.wellFormed
    cases op with
    | append data =>
      obtain ⟨hd, hb⟩ := Option.ite_none_right_eq_some.1 hs
      obtain rfl := Option.some.inj hb
      obtain ⟨hwf', hreg⟩ := hwf.append hd
      refine ⟨hwf', ?_, by rw [BoundedQueue.bound_step, capacity_append, h.bound]⟩
      by_cases hfits : q.Fits data
      · rw [hreg, if_pos ((h.append_iff hd).2 hfits), h.items]
        exact (BoundedQueue.step_of_fits hfits).symm
      · rw [hreg, if_neg (mt (h.append_iff hd).1 hfits), h.items]
        exact congrArg BoundedQueue.items (BoundedQueue.step_of_not_fits hfits).symm
    | onRead n =>
      obtain ⟨hn, hb⟩ := Option.ite_none_right_eq_some.1 hs
      obtain rfl := Option.some.inj hb
      obtain ⟨hwf', hreg⟩ := hwf.onRead (hwf.readableSize_eq_length ▸ hn)
      exact ⟨hwf', by rw [hreg, h.items]; rfl, by rw [capacity_onRead, h.bound]; rfl⟩
    | compact =>
      obtain rfl := Option.some.inj hs
      obtain ⟨hwf', hreg, hcap⟩ := hwf.compact
      exact ⟨hwf', hreg.trans h.items, hcap.trans h.bound⟩
  ins_eq := by
    intro b b' q op h hs
    cases op with
    | append data =>
      have hd := (Option.ite_none_right_eq_some.1 hs).1
      exact if_congr (h.append_iff hd) rfl rfl
    | _ => rfl
  outs_eq := by
    intro b b' q op h hs
    cases op with
    | onRead n => exact congrArg (List.take n) h.items
    | _ => rfl

/-- **`RecvBuffer` is a bounded queue of bytes.** After any calls that keep to their
contracts, the read region is what the queue holds after the same calls: the bytes
appended and not yet read. `Append` fails iff unread bytes and data together
exceed the capacity. -/
theorem recvBuffer_refines {size : Nat} (hsize : size < 2 ^ 32) {calls : List Op} {b : RecvBuffer}
    (hrun : Trace.run step (make size) calls = some b) :
    b.readRegion = ((BoundedQueue.empty size).run (calls.map Op.onQueue)).items ∧
    Trace.collect step consumed (make size) calls ++ b.readRegion =
      Trace.collect step appended (make size) calls ∧
    (∀ data : Bytes, data.length < 2 ^ 32 →
      ((b.append data).2 = false ↔ size < b.readableSize + data.length) ∧
      ((b.append data).2 = false → (b.append data).1.readRegion = b.readRegion)) ∧
    b.compact.readRegion = b.readRegion ∧
    b.readPos ≤ b.writePos ∧ b.writePos ≤ b.capacity ∧ b.capacity = size := by
  obtain ⟨h, hfifo⟩ := refines.run calls (represents_make hsize) hrun
  have hwf := h.wellFormed
  have hcap : b.capacity = size := h.bound.trans (BoundedQueue.bound_run _ _)
  rw [← h.items] at hfifo
  refine ⟨h.items, hfifo, fun data hd => ⟨?_, fun hfull => ?_⟩, hwf.compact.2.1, hwf.read_le,
    hwf.write_le, hcap⟩
  · rw [← Bool.not_eq_true, hwf.append_iff hd, hwf.readableSize_eq_length, hcap, not_le]
  · rw [(hwf.append hd).2, hfull]
    rfl

/-- Four bytes into a buffer of five, three of them read; two more are moved to the
front and fit, the next three do not. -/
theorem recvBuffer_refines_five :
    ∃ b, Trace.run step (make 5)
        [.append [1, 2, 3, 4], .onRead 3, .append [5, 6], .append [7, 8, 9]] = some b ∧
      b.readPos = 0 ∧ b.readRegion = [4, 5, 6] ∧
      b.readRegion = ((BoundedQueue.empty 5).run
        [.offer [1, 2, 3, 4], .take 3, .offer [5, 6], .offer [7, 8, 9]]).items := by
  have hrun : Trace.run step (make 5)
      [.append [1, 2, 3, 4], .onRead 3, .append [5, 6], .append [7, 8, 9]] = some _ := rfl
  exact ⟨_, hrun, by decide, by decide, (recvBuffer_refines (by decide) hrun).1⟩

end RecvBuffer

end IouringRuntime
