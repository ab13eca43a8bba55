import Mathlib.Data.List.Perm.Basic
import IouringRuntime.Concurrent.IndexRing
import IouringRuntime.Core.Word
import IouringRuntime.Io.WorkerPool
import IouringRuntime.Reentrant.Trace

/-!
# The provided buffers of a ring

`RingBuffer` (`core/RingBuffer.h`) shares a ring of receive buffers with the kernel. The
kernel takes a buffer from it, fills it and names it in a completion; `Session::OnRecv`
looks at it with `View` and gives it back with `Return`, which writes a slot of the ring
and then moves its tail. The kernel may take buffers at any point between.

The address of a buffer is its distance from `data_base_`. The kernel registers fewer
than 65536 buffers. A completion keeps the bytes that the kernel has written as history,
and so do `delivered` and `seen`.
-/

namespace IouringRuntime

/-- `io_uring_buf`. -/
structure IoUringBuf where
  addr : Nat
  len : Nat
  bid : Nat
  deriving DecidableEq, Repr

structure RingBuffer where
  cfg : RingBufferConfig
  bufSizeShift : Nat
  ring : IndexRing IoUringBuf
  memory : Nat → UInt8
  available : Nat

def isPowerOfTwo (v : Nat) : Bool := 0 < v && v &&& (v - 1) = 0

/-- `bit_width(v) - 1`, for a `v` that is not zero. -/
def log2u (v : Nat) : Nat := v.log2

namespace RingBuffer

def bufAddr (shift bufId : Nat) : Nat := bufId <<< shift

/-- `io_uring_buf_ring_add`; the mask is that of the size of the ring. -/
def ringAdd (cfg : RingBufferConfig) (shift : Nat) (ring : IndexRing IoUringBuf)
    (offset bufId : Nat) : IndexRing IoUringBuf :=
  ring.write (log2u cfg.bufCount.toNat) offset ⟨bufAddr shift bufId, cfg.bufSize.toNat, bufId⟩

/-- `io_uring_buf_ring_advance`; the tail has 16 bits. -/
def ringAdvance (ring : IndexRing IoUringBuf) (count : Nat) : IndexRing IoUringBuf :=
  ring.advance 16 count

/-- The mapped region before any buffer is added. -/
def emptyRing : IndexRing IoUringBuf := ⟨fun _ => ⟨0, 0, 0⟩, 0, 0⟩

/-- `registers` is what `io_uring_register_buf_ring` answers for a size it can register. -/
def create (registers : Bool) (memory : Nat → UInt8) (cfg : RingBufferConfig) :
    Option RingBuffer :=
  if !isPowerOfTwo cfg.bufCount.toNat || !isPowerOfTwo cfg.bufSize.toNat then none
  else if !(registers && cfg.bufCount.toNat < 65536) then none
  else
    let shift := log2u cfg.bufSize.toNat
    let ring := (List.range (cfg.bufCount.toNat % 2 ^ 16)).foldl
      (fun ring i => ringAdd cfg shift ring i i) emptyRing
    some ⟨cfg, shift, ringAdvance ring cfg.bufCount.toNat, memory, cfg.bufCount.toNat⟩

def view (rb : RingBuffer) (bufId len : Nat) : Bytes :=
  if rb.cfg.bufCount.toNat ≤ bufId then []
  else
    (List.range (min len rb.cfg.bufSize.toNat)).map fun i =>
      rb.memory (bufAddr rb.bufSizeShift bufId + i)

/-- `Return` up to the tail. -/
def returnAdd (rb : RingBuffer) (bufId : Nat) : RingBuffer :=
  if rb.cfg.bufCount.toNat ≤ bufId then rb
  else { rb with ring := ringAdd rb.cfg rb.bufSizeShift rb.ring 0 bufId }

def returnAdvance (rb : RingBuffer) (bufId : Nat) : RingBuffer :=
  if rb.cfg.bufCount.toNat ≤ bufId then rb
  else { rb with ring := ringAdvance rb.ring 1, available := u32 (rb.available + 1) }

end RingBuffer

/-- The kernel's write to `addr`. -/
def store (memory : Nat → UInt8) (addr : Nat) (data : Bytes) : Nat → UInt8 := fun a =>
  if addr ≤ a ∧ a < addr + data.length then data.getD (a - addr) 0 else memory a

/-- A completion with `IORING_CQE_F_BUFFER`. -/
structure RecvCqe where
  bufId : Nat
  res : Nat
  data : Bytes
  deriving DecidableEq, Repr

/-- `app` is the completion that `OnRecv` is handling, and whether `Return` has written
its slot. -/
structure ProvidedBuffers where
  rb : RingBuffer
  cq : List RecvCqe := []
  app : Option (RecvCqe × Bool) := none
  delivered : List Bytes := []
  seen : List (Bytes × Option Bytes) := []

/-- `receive` is the kernel's; `usable` is `CanUseOnOwner()`. -/
inductive BufferInput where
  | receive (data : Bytes)
  | dispatch (usable : Bool)
  | add
  | advance

namespace ProvidedBuffers

/-- With no buffer left the kernel answers `-ENOBUFS`, and names none. -/
def receive (s : ProvidedBuffers) (data : Bytes) : Option ProvidedBuffers :=
  match s.rb.ring.take (log2u s.rb.cfg.bufCount.toNat) 16 with
  | none => some s
  | some (buf, ring) =>
    if data.length ≤ buf.len then
      some { s with
        rb := { s.rb with ring, memory := store s.rb.memory buf.addr data }
        cq := s.cq ++ [⟨buf.bid, data.length, data⟩]
        delivered := s.delivered ++ [data] }
    else none

/-- `OnRecv` up to `Return`: the view, if the session looks at it. -/
def dispatch (s : ProvidedBuffers) (usable : Bool) : Option ProvidedBuffers :=
  match s.cq, s.app with
  | c :: cq, none =>
    let looked := if 0 < c.res ∧ usable then some (s.rb.view c.bufId c.res) else none
    some { s with cq, app := some (c, false), seen := s.seen ++ [(c.data, looked)] }
  | _, _ => none

def step (s : ProvidedBuffers) : BufferInput → Option ProvidedBuffers
  | .receive data => s.receive data
  | .dispatch usable => s.dispatch usable
  | .add =>
    match s.app with
    | some (c, false) => some { s with rb := s.rb.returnAdd c.bufId, app := some (c, true) }
    | _ => none
  | .advance =>
    match s.app with
    | some (c, true) => some { s with rb := s.rb.returnAdvance c.bufId, app := none }
    | _ => none

abbrev Reachable (rb : RingBuffer) (s : ProvidedBuffers) : Prop :=
  Trace.Reachable step { rb } s

/-- The completions whose buffers the kernel has not got back, the oldest first. -/
def out (s : ProvidedBuffers) : List RecvCqe := (s.app.map Prod.fst).toList ++ s.cq

end ProvidedBuffers

/-! ## Memory -/

section Memory

variable {memory : Nat → UInt8} {addr : Nat} {data : Bytes}

theorem read_store_self :
    (List.range data.length).map (fun i => store memory addr data (addr + i)) = data := by
  refine List.ext_getElem (by simp) fun i h1 h2 => ?_
  have hin : addr ≤ addr + i ∧ addr + i < addr + data.length := by omega
  rw [List.getElem_map, List.getElem_range, store, if_pos hin, Nat.add_sub_cancel_left]
  simp [h2]

theorem store_of_outside {a : Nat} (h : a < addr ∨ addr + data.length ≤ a) :
    store memory addr data a = memory a := if_neg (by omega)

end Memory

theorem isPowerOfTwo_iff {v : Nat} : isPowerOfTwo v = true ↔ ∃ k, v = 2 ^ k := by
  rw [isPowerOfTwo, Bool.and_eq_true, decide_eq_true_eq, decide_eq_true_eq]
  constructor
  · rintro ⟨hpos, hand⟩
    exact (Nat.and_sub_one_eq_zero_iff_isPowerOfTwo (by omega)).1 hand
  · intro hpow
    have hpos : 0 < v := by
      obtain ⟨k, rfl⟩ := hpow
      exact Nat.two_pow_pos k
    exact ⟨hpos, (Nat.and_sub_one_eq_zero_iff_isPowerOfTwo (by omega)).2 hpow⟩

theorem log2u_two_pow (k : Nat) : log2u (2 ^ k) = k := Nat.log2_two_pow

namespace ProvidedBuffers

/-! ## Ownership -/

/-- The entry of the ring for a buffer. -/
def entry (size bid : Nat) : IoUringBuf := ⟨bid * 2 ^ size, 2 ^ size, bid⟩

/-- The buffers `free` are the kernel's and the others are with completions, whose bytes
are still in them. -/
structure Owned (count size : Nat) (s : ProvidedBuffers) (free : List Nat) : Prop where
  bufCount : s.rb.cfg.bufCount.toNat = 2 ^ count
  bufSize : s.rb.cfg.bufSize.toNat = 2 ^ size
  shift : s.rb.bufSizeShift = size
  ring : IndexRing.Holds count 16 s.rb.ring (free.map (entry size))
  buffers : (free ++ s.out.map (·.bufId)).Perm (List.range (2 ^ count))
  intact : ∀ c ∈ s.out, s.rb.view c.bufId c.res = c.data
  res : ∀ c ∈ s.out, c.res = c.data.length ∧ c.data.length ≤ 2 ^ size
  added : ∀ c, s.app = some (c, true) →
    s.rb.ring.slots (IndexRing.slot count (s.rb.ring.tail + 0)) = entry size c.bufId
  order : s.seen.map Prod.fst ++ s.cq.map (·.data) = s.delivered
  faithful : ∀ p ∈ s.seen, ∀ v, p.2 = some v → v = p.1

variable {count size : Nat} {s s' : ProvidedBuffers} {free : List Nat}

theorem Owned.lt (h : Owned count size s free) {bid : Nat}
    (hb : bid ∈ free ++ s.out.map (·.bufId)) : bid < 2 ^ count :=
  List.mem_range.1 (h.buffers.mem_iff.1 hb)

theorem Owned.length (h : Owned count size s free) : free.length + s.out.length = 2 ^ count := by
  simpa using h.buffers.length_eq

theorem Owned.nodup (h : Owned count size s free) : (free ++ s.out.map (·.bufId)).Nodup :=
  h.buffers.nodup_iff.2 List.nodup_range

/-- What `View` shows of a buffer. -/
theorem Owned.view_eq (h : Owned count size s free) (rb : RingBuffer) (hcfg : rb.cfg = s.rb.cfg)
    (hshift : rb.bufSizeShift = s.rb.bufSizeShift) {bid len : Nat} (hbid : bid < 2 ^ count)
    (hlen : len ≤ 2 ^ size) :
    rb.view bid len = (List.range len).map fun i => rb.memory (bid * 2 ^ size + i) := by
  rw [RingBuffer.view, hcfg, h.bufCount, if_neg (by omega), h.bufSize, Nat.min_eq_left hlen,
    hshift, h.shift, RingBuffer.bufAddr, Nat.shiftLeft_eq]

/-- The kernel fills one buffer and the others keep their bytes. -/
theorem disjoint_buffers {b c i n : Nat} (hne : c ≠ b) (hi : i < 2 ^ size) (hn : n ≤ 2 ^ size) :
    c * 2 ^ size + i < b * 2 ^ size ∨ b * 2 ^ size + n ≤ c * 2 ^ size + i := by
  rcases Nat.lt_or_gt_of_ne hne with hlt | hlt
  · have := Nat.mul_le_mul_right (2 ^ size) hlt
    rw [Nat.succ_mul] at this
    omega
  · have := Nat.mul_le_mul_right (2 ^ size) hlt
    rw [Nat.succ_mul] at this
    omega

/-- The bytes are in the buffer that was filled, and those of the completions stay. -/
theorem Owned.view_fill {b : Nat} (h : Owned count size s (b :: free)) {data : Bytes}
    (hlen : data.length ≤ 2 ^ size) (rb : RingBuffer) (hcfg : rb.cfg = s.rb.cfg)
    (hshift : rb.bufSizeShift = s.rb.bufSizeShift)
    (hmemory : rb.memory = store s.rb.memory (b * 2 ^ size) data) :
    rb.view b data.length = data ∧ ∀ c ∈ s.out, rb.view c.bufId c.res = c.data := by
  refine ⟨?_, fun c hc => ?_⟩
  · rw [h.view_eq rb hcfg hshift (h.lt List.mem_cons_self) hlen, hmemory]
    exact read_store_self
  · have hbid : c.bufId ∈ s.out.map (·.bufId) := List.mem_map_of_mem hc
    have hne : c.bufId ≠ b := by
      rintro rfl
      exact (List.nodup_cons.1 h.nodup).1 (List.mem_append_right _ hbid)
    have hlt : c.bufId < 2 ^ count := h.lt (List.mem_append_right _ hbid)
    have hres : c.res ≤ 2 ^ size := (h.res c hc).1 ▸ (h.res c hc).2
    rw [h.view_eq rb hcfg hshift hlt hres, ← h.intact c hc, h.view_eq _ rfl rfl hlt hres, hmemory]
    refine List.map_congr_left fun i hi => store_of_outside ?_
    have hi : i < c.res := List.mem_range.1 hi
    exact disjoint_buffers hne (by omega) hlen

theorem Owned.receive (hcount : count < 16) (h : Owned count size s free) {data : Bytes}
    (hs : s.receive data = some s') : ∃ free', Owned count size s' free' := by
  have hlog : log2u s.rb.cfg.bufCount.toNat = count := by rw [h.bufCount, log2u_two_pow]
  rw [ProvidedBuffers.receive, hlog] at hs
  cases free with
  | nil =>
    rw [h.ring.take_nil] at hs
    cases hs
    exact ⟨[], h⟩
  | cons b free =>
    obtain ⟨ring, htake, hslots, htail, hring⟩ := h.ring.take_cons hcount
    simp only [htake] at hs
    split at hs
    · next hlen =>
      have hout : s'.out = s.out ++ [⟨b, data.length, data⟩] := by
        cases hs
        simp [out, entry]
      have hview : s'.rb.view b data.length = data ∧
          ∀ c ∈ s.out, s'.rb.view c.bufId c.res = c.data := by
        cases hs
        exact h.view_fill hlen _ rfl rfl rfl
      have hmem : ∀ c ∈ s'.out, c ∈ s.out ∨ c = ⟨b, data.length, data⟩ := by
        simp [hout]
      have hbuffers : (free ++ s'.out.map (·.bufId)).Perm (List.range (2 ^ count)) := by
        rw [hout, List.map_append, ← List.append_assoc]
        exact (List.perm_append_singleton b _).trans h.buffers
      cases hs
      refine ⟨free, h.bufCount, h.bufSize, h.shift, hring, hbuffers, fun c hc => ?_,
        fun c hc => ?_, fun c hc => ?_, by simp [← h.order], h.faithful⟩
      · rcases hmem c hc with hc | rfl
        · exact hview.2 c hc
        · exact hview.1
      · rcases hmem c hc with hc | rfl
        · exact h.res c hc
        · exact ⟨rfl, hlen⟩
      · show ring.slots (IndexRing.slot count (ring.tail + 0)) = _
        rw [hslots, htail]
        exact h.added c hc
    · cases hs

theorem Owned.dispatch (h : Owned count size s free) {usable : Bool}
    (hs : s.dispatch usable = some s') : Owned count size s' free := by
  unfold ProvidedBuffers.dispatch at hs
  split at hs
  · next c cq hcq happ =>
    have hout : s.out = c :: cq := by simp [out, hcq, happ]
    have hin : c ∈ s.out := hout ▸ List.mem_cons_self
    have hbuffers := h.buffers
    rw [hout] at hbuffers
    have hmem : ∀ c' ∈ c :: cq, c' ∈ s.out := fun c' hc' => hout ▸ hc'
    cases hs
    refine ⟨h.bufCount, h.bufSize, h.shift, h.ring, hbuffers,
      fun c' hc' => h.intact c' (hmem c' hc'), fun c' hc' => h.res c' (hmem c' hc'),
      fun c' hc' => ?_, ?_, ?_⟩
    · cases hc'
    · simp [← h.order, hcq]
    · intro p hp v hv
      rcases List.mem_append.1 hp with hp | hp
      · exact h.faithful p hp v hv
      · cases List.mem_singleton.1 hp
        by_cases hlook : 0 < c.res ∧ usable = true
        · rw [if_pos hlook] at hv
          rw [← Option.some.inj hv, h.intact c hin]
        · rw [if_neg hlook] at hv
          cases hv
  · cases hs

/-- The completion being handled has a buffer of the ring, which has room for it. -/
theorem Owned.handling (h : Owned count size s free) {c : RecvCqe} {added : Bool}
    (happ : s.app = some (c, added)) :
    s.out = c :: s.cq ∧ c.bufId < 2 ^ count ∧ (free.map (entry size)).length < 2 ^ count := by
  have hout : s.out = c :: s.cq := by simp [out, happ]
  have hc : c ∈ s.out := hout ▸ List.mem_cons_self
  refine ⟨hout, h.lt (List.mem_append_right _ (List.mem_map_of_mem hc)), ?_⟩
  have hlength := h.length
  rw [hout, List.length_cons] at hlength
  rw [List.length_map]
  omega

theorem Owned.add (hcount : count < 16) (h : Owned count size s free) {c : RecvCqe}
    (happ : s.app = some (c, false)) :
    Owned count size { s with rb := s.rb.returnAdd c.bufId, app := some (c, true) } free := by
  obtain ⟨hout, hlt, hroom⟩ := h.handling happ
  have hlog : log2u s.rb.cfg.bufCount.toNat = count := by rw [h.bufCount, log2u_two_pow]
  have hadd : RingBuffer.ringAdd s.rb.cfg s.rb.bufSizeShift s.rb.ring 0 c.bufId =
      s.rb.ring.write count 0 (entry size c.bufId) := by
    rw [RingBuffer.ringAdd, hlog, RingBuffer.bufAddr, Nat.shiftLeft_eq, h.shift, h.bufSize, entry]
  have hrb : s.rb.returnAdd c.bufId =
      { s.rb with ring := s.rb.ring.write count 0 (entry size c.bufId) } := by
    rw [RingBuffer.returnAdd, h.bufCount, if_neg (by omega), hadd]
  obtain ⟨hring, hslot⟩ := h.ring.write hcount hroom (entry size c.bufId)
  have hout' : out { s with rb := s.rb.returnAdd c.bufId, app := some (c, true) } = s.out := by
    simp [out, happ]
  rw [hrb] at hout' ⊢
  refine ⟨h.bufCount, h.bufSize, h.shift, hring, hout' ▸ h.buffers,
    fun c' hc' => h.intact c' (hout' ▸ hc'), fun c' hc' => h.res c' (hout' ▸ hc'),
    fun c' hc' => ?_, h.order, h.faithful⟩
  cases hc'
  exact hslot

theorem Owned.advance (hcount : count < 16) (h : Owned count size s free) {c : RecvCqe}
    (happ : s.app = some (c, true)) :
    Owned count size { s with rb := s.rb.returnAdvance c.bufId, app := none }
      (free ++ [c.bufId]) := by
  obtain ⟨hout, hlt, hroom⟩ := h.handling happ
  have hrb : s.rb.returnAdvance c.bufId =
      { s.rb with ring := s.rb.ring.advance 16 1, available := u32 (s.rb.available + 1) } := by
    rw [RingBuffer.returnAdvance, h.bufCount, if_neg (by omega)]
    rfl
  have hring := h.ring.advance hcount hroom (h.added c happ)
  have hcq : ∀ c' ∈ s.cq, c' ∈ s.out := fun c' hc' => hout ▸ List.mem_cons_of_mem c hc'
  rw [hrb]
  refine ⟨h.bufCount, h.bufSize, h.shift, ?_, ?_, fun c' hc' => h.intact c' (hcq c' hc'),
    fun c' hc' => h.res c' (hcq c' hc'), ?_, h.order, h.faithful⟩
  · rw [List.map_append]
    exact hring
  · have hbuffers := h.buffers
    rw [hout, List.map_cons] at hbuffers
    simpa [out] using hbuffers
  · intro c' hc'
    cases hc'

theorem Owned.step (hcount : count < 16) (h : Owned count size s free) {i : BufferInput}
    (hs : s.step i = some s') : ∃ free', Owned count size s' free' := by
  cases i with
  | receive data => exact h.receive hcount hs
  | dispatch usable => exact ⟨free, h.dispatch hs⟩
  | add =>
    simp only [ProvidedBuffers.step] at hs
    split at hs
    · next c happ => cases hs; exact ⟨free, h.add hcount happ⟩
    · cases hs
  | advance =>
    simp only [ProvidedBuffers.step] at hs
    split at hs
    · next c happ => cases hs; exact ⟨free ++ [c.bufId], h.advance hcount happ⟩
    · cases hs

theorem owned_create {registers : Bool} {memory : Nat → UInt8} {cfg : RingBufferConfig}
    {rb : RingBuffer} (hc : RingBuffer.create registers memory cfg = some rb) :
    ∃ count size, count < 16 ∧ cfg.bufCount.toNat = 2 ^ count ∧
      Owned count size { rb } (List.range (2 ^ count)) := by
  unfold RingBuffer.create at hc
  split at hc
  · cases hc
  next hpow =>
  split at hc
  · cases hc
  next hregistered =>
  rw [Bool.not_eq_true, Bool.or_eq_false_iff, Bool.not_eq_false', Bool.not_eq_false',
    isPowerOfTwo_iff, isPowerOfTwo_iff] at hpow
  obtain ⟨⟨count, hcount⟩, ⟨size, hsize⟩⟩ := hpow
  rw [Bool.not_eq_true, Bool.not_eq_false', Bool.and_eq_true, decide_eq_true_eq] at hregistered
  have hlt : 2 ^ count < 2 ^ 16 := hcount ▸ hregistered.2
  have hcount16 : count < 16 := (Nat.pow_lt_pow_iff_right (by decide)).1 hlt
  have hfill : (List.range (cfg.bufCount.toNat % 2 ^ 16)).foldl
      (fun ring i => RingBuffer.ringAdd cfg (log2u cfg.bufSize.toNat) ring i i)
      RingBuffer.emptyRing = RingBuffer.emptyRing.fill count (entry size) (2 ^ count) := by
    simp only [RingBuffer.ringAdd, RingBuffer.bufAddr, Nat.shiftLeft_eq, hcount, hsize,
      log2u_two_pow, Nat.mod_eq_of_lt hlt]
    rfl
  have hempty : IndexRing.Holds count 16 RingBuffer.emptyRing [] :=
    ⟨by decide, rfl, Nat.zero_le _, fun i x hx => by cases hx⟩
  have hring := hempty.fill hcount16 (entry size) (Nat.le_refl (2 ^ count))
  simp only [hfill] at hc
  cases hc
  refine ⟨count, size, hcount16, hcount, hcount, hsize, hsize ▸ log2u_two_pow size, ?_,
    by simp [out], by simp [out], by simp [out], by simp, rfl, by simp⟩
  rw [RingBuffer.ringAdvance, hcount]
  exact hring

theorem Reachable.owned (hcount : count < 16) {rb : RingBuffer}
    (h0 : Owned count size { rb } (List.range (2 ^ count))) (hr : Reachable rb s) :
    ∃ free, Owned count size s free := by
  refine hr.invariant (I := fun s => ∃ free, Owned count size s free) ?_ ⟨_, h0⟩
  intro s i s' hfree hs
  obtain ⟨free, h⟩ := hfree
  exact h.step hcount hs

/-- However the kernel and the worker interleave: every buffer is either one the kernel
may fill or with one completion that is not returned yet; its bytes stay what the kernel
wrote until then; the sessions see the deliveries whole and in order; and the kernel
lacks buffers only while all of them are out. -/
theorem provided_buffers {registers : Bool} {memory : Nat → UInt8} {cfg : RingBufferConfig}
    {rb : RingBuffer} (hc : RingBuffer.create registers memory cfg = some rb)
    (hr : Reachable rb s) :
    (∃ free, (free ++ s.out.map (·.bufId)).Perm (List.range cfg.bufCount.toNat) ∧
      (s.rb.ring.Holds (log2u cfg.bufCount.toNat) 16 (free.map fun bid =>
        ⟨RingBuffer.bufAddr s.rb.bufSizeShift bid, s.rb.cfg.bufSize.toNat, bid⟩))) ∧
    (∀ c ∈ s.out, s.rb.view c.bufId c.res = c.data) ∧
    (∀ p ∈ s.seen, ∀ v, p.2 = some v → v = p.1) ∧
    s.seen.map Prod.fst ++ s.cq.map (·.data) = s.delivered ∧
    (s.rb.ring.take (log2u cfg.bufCount.toNat) 16 = none ↔ s.out.length = cfg.bufCount.toNat) := by
  obtain ⟨count, size, hcount, hbufCount, h0⟩ := owned_create hc
  obtain ⟨free, h⟩ := hr.owned hcount h0
  rw [hbufCount, log2u_two_pow]
  refine ⟨⟨free, h.buffers, ?_⟩, h.intact, h.faithful, h.order, ?_⟩
  · simp only [RingBuffer.bufAddr, Nat.shiftLeft_eq, h.shift, h.bufSize]
    exact h.ring
  · have hlength := h.length
    have hring := h.ring
    cases free with
    | nil =>
      rw [List.length_nil, Nat.zero_add] at hlength
      exact iff_of_true hring.take_nil hlength
    | cons b free =>
      obtain ⟨ring, htake, -⟩ := hring.take_cons hcount
      rw [List.length_cons] at hlength
      exact iff_of_false (by simp [htake]) (by omega)

/-- Two buffers of four bytes. -/
def twoBuffersConfig : RingBufferConfig := { bufCount := 2, bufSize := 4 }

def twoBuffers : RingBuffer := (RingBuffer.create true (fun _ => 0) twoBuffersConfig).get rfl

/-- The first buffer is returned while the kernel finds none. -/
theorem provided_buffers_exhausted :
    ∃ s, RingBuffer.create true (fun _ => 0) twoBuffersConfig = some twoBuffers ∧
      Reachable twoBuffers s ∧ s.out.length = 1 ∧
      s.seen.map Prod.fst ++ s.cq.map (·.data) = s.delivered ∧
      s.delivered = [[1, 2], [3]] := by
  have hc : RingBuffer.create true (fun _ => 0) twoBuffersConfig = some twoBuffers := rfl
  have hr : Reachable twoBuffers _ := .of_run [.receive [1, 2], .receive [3], .dispatch true,
    .receive [4], .add, .receive [5], .advance] rfl
  exact ⟨_, hc, hr, rfl, (provided_buffers hc hr).2.2.2.1, rfl⟩

end ProvidedBuffers

end IouringRuntime
