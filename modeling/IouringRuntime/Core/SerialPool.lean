import Mathlib.Data.List.Dedup
import IouringRuntime.Core.PoolSafety

/-!
# The pool in one thread

With one thread a release runs `OnChunkUnused` before it returns, so no
reclaim step is left open between calls. `try_lock` may fail although nobody
holds the mutex; the chunk then waits in `pending_gc_` for the next `Allocate`.

Requests are 32-bit, and so is the sum that `Open` compares with the chunk
size: `allocations_fit` says when every buffer is inside its chunk. A request
beyond the chunk size leaves a chunk active that holds no buffer and that
nothing gives back: `capacity` says when none is left.
-/

namespace IouringRuntime

namespace BufferPool

inductive Call where
  | allocate (size : UInt32) (fresh : Addr)
  | release (i : Nat) (locked : Bool)
  deriving DecidableEq, Repr

def make (chunkSize maxChunks : UInt32) : BufferPool :=
  { chunkSize := chunkSize.toNat, maxChunks := maxChunks.toNat }

/-- The deleter of a `SendBufferRef`. -/
def release (p : BufferPool) (i : Nat) (locked : Bool) : Option BufferPool :=
  (p.step (.release i)).bind fun p =>
    if p.unused.isEmpty then some p else p.step (.reclaim 0 locked)

def callStep (p : BufferPool) : Call → Option BufferPool
  | .allocate size fresh => p.step (.allocate size.toNat fresh)
  | .release i locked => p.release i locked

variable {p p' : BufferPool}

/-! ## What a call does -/

theorem step_allocate {size : Nat} {fresh : Addr} (hs : p.step (.allocate size fresh) = some p') :
    fresh ∉ p.flushPendingGc.chunks.map SendBufferChunk.addr ∧ p' = p.allocate size fresh := by
  simp only [step] at hs
  split at hs
  · cases hs
  · next hf => exact ⟨hf, (Option.some.inj hs).symm⟩

theorem release_cases {i : Nat} {locked : Bool} (hs : p.release i locked = some p') :
    ∃ b q, p.live[i]? = some b ∧ p.onRelease i b = some q ∧
      ((q.unused = [] ∧ p' = q) ∨
        ∃ a, q.unused[0]? = some a ∧ p' = q.onChunkUnused 0 a locked) := by
  obtain ⟨q, hq, hs⟩ := Option.bind_eq_some_iff.1 hs
  simp only [step] at hq
  split at hq
  case h_1 => cases hq
  case h_2 b hb =>
    refine ⟨b, q, hb, hq, ?_⟩
    split at hs
    · next he => exact .inl ⟨by simpa using he, (Option.some.inj hs).symm⟩
    · simp only [step] at hs
      split at hs
      · cases hs
      · next a ha => exact .inr ⟨a, ha, (Option.some.inj hs).symm⟩

/-- What neither call changes, and the reclaim steps that are open: none. -/
structure Between (p₀ p : BufferPool) : Prop where
  unused : p.unused = []
  chunkSize : p.chunkSize = p₀.chunkSize
  maxChunks : p.maxChunks = p₀.maxChunks

variable {p₀ : BufferPool}

/-- What an `Allocate` leaves alone; `pending_gc_` is empty after it. -/
theorem allocate_frame (hc : Counts p (p.unused ++ p.pendingGc)) (size : Nat) (fresh : Addr) :
    (p.allocate size fresh).unused = p.unused ∧ (p.allocate size fresh).pendingGc = [] ∧
      (p.allocate size fresh).chunkSize = p.chunkSize ∧
      (p.allocate size fresh).maxChunks = p.maxChunks := by
  obtain ⟨-, hf⟩ := hc.flushPendingGc
  have hacquire : ∀ {c : SendBufferChunk} {r : BufferPool},
      p.flushPendingGc.acquireChunk fresh = some (c, r) →
      r.unused = p.unused ∧ r.pendingGc = [] ∧ r.chunkSize = p.chunkSize ∧
        r.maxChunks = p.maxChunks := by
    intro c r ha
    rcases acquireChunk_eq_some ha with ⟨fs, -, rfl⟩ | ⟨-, -, -, rfl⟩ <;>
      exact ⟨hf.unused, hf.pendingGc, hf.chunkSize, hf.maxChunks⟩
  have hcases := allocate_cases p size fresh
  generalize p.allocate size fresh = p' at *
  cases hcases with
  | opened => exact ⟨hf.unused, hf.pendingGc, hf.chunkSize, hf.maxChunks⟩
  | exhausted => exact ⟨hf.unused, hf.pendingGc, hf.chunkSize, hf.maxChunks⟩
  | acquired _ ha =>
    have := hacquire ha
    exact this
  | refused _ ha =>
    have := hacquire ha
    exact this

theorem Between.allocate (h : Between p₀ p) (hc : Counts p (p.unused ++ p.pendingGc))
    (size : Nat) (fresh : Addr) : Between p₀ (p.allocate size fresh) := by
  obtain ⟨hu, -, hcs, hmc⟩ := allocate_frame hc size fresh
  exact ⟨hu.trans h.unused, hcs.trans h.chunkSize, hmc.trans h.maxChunks⟩

theorem Between.release {i : Nat} {locked : Bool} (h : Between p₀ p)
    (hc : Counts p (p.unused ++ p.pendingGc)) (hs : p.release i locked = some p') :
    Between p₀ p' := by
  obtain ⟨b, q, hb, hq, hcase⟩ := release_cases hs
  obtain ⟨xs, ys, -, hcount⟩ := hc.onRelease_eq hb hq
  have hframe : q.chunkSize = p.chunkSize ∧ q.maxChunks = p.maxChunks ∧
      (q.unused = [b.owner] ∨ q.unused = []) := by
    rcases hcount with ⟨-, rfl⟩ | ⟨-, rfl⟩
    · exact ⟨rfl, rfl, .inl (by rw [h.unused]; rfl)⟩
    · exact ⟨rfl, rfl, .inr h.unused⟩
  obtain ⟨hcs, hmc, hun⟩ := hframe
  rcases hcase with ⟨hnil, rfl⟩ | ⟨a, ha, rfl⟩
  · exact ⟨hnil, hcs.trans h.chunkSize, hmc.trans h.maxChunks⟩
  · have herase : q.unused.eraseIdx 0 = [] := by
      rcases hun with hun | hun <;> rw [hun] <;> rfl
    unfold onChunkUnused
    dsimp only
    split
    · obtain ⟨-, h2, -, h4, h5⟩ := { q with unused := q.unused.eraseIdx 0 }.moveToFree_live a
      exact ⟨h2.trans herase, h4.trans (hcs.trans h.chunkSize), h5.trans (hmc.trans h.maxChunks)⟩
    · exact ⟨herase, hcs.trans h.chunkSize, hmc.trans h.maxChunks⟩

/-! ## Buffers inside their chunks -/

/-- Every live buffer lies inside the storage of its chunk, and no two overlap. -/
def Fits (p : BufferPool) : Prop :=
  p.live.Pairwise PoolBuffer.Disjoint ∧
    ∀ b ∈ p.live, ∃ c ∈ p.activeChunks, c.addr = b.owner ∧ b.off + b.size ≤ p.chunkSize

/-- A request beyond the chunk size gets no buffer. -/
def RefusesOversize (p : BufferPool) : Call → Prop
  | .allocate size fresh => p.chunkSize < size.toNat → (p.allocate size.toNat fresh).live = p.live
  | .release _ _ => True

/-- In the chunk tried first, `offset_ + size` does not wrap to a place inside
the chunk; and `ref_count_` cannot wrap. -/
def NoneWraps (p : BufferPool) : Call → Prop
  | .allocate size _ =>
    p.live.length + 1 < 2 ^ 32 ∧
      ∀ c, p.flushPendingGc.activeChunks.getLast? = some c → NoWrap p c size.toNat
  | .release _ _ => True

theorem Ranges.fits (h : Ranges p) : p.Fits := by
  refine ⟨h.disjoint, fun b hb => ?_⟩
  obtain ⟨c, hc, hca, hle⟩ := h.owned b hb
  exact ⟨c, hc, hca, hle.trans (h.offset c hc)⟩

/-- The invariant between calls. -/
structure Serial (p₀ p : BufferPool) : Prop where
  between : Between p₀ p
  inv : Inv p (p.unused ++ p.pendingGc)

theorem Serial.step {x : Call} (h : Serial p₀ p) (hs : p.callStep x = some p')
    (hQ : p.NoneWraps x) : Serial p₀ p' := by
  cases x with
  | allocate size fresh =>
    obtain ⟨hf, rfl⟩ := step_allocate hs
    refine ⟨h.between.allocate h.inv.counts _ _, inv_allocate h.inv size.toNat_lt hQ.1 ?_ hf⟩
    intro c hc
    refine ⟨hQ.2 c hc, fun _ hm => ?_⟩
    rw [h.between.unused] at hm
    cases hm
  | release i locked =>
    refine ⟨h.between.release h.inv.counts hs, ?_⟩
    obtain ⟨b, q, hb, hq, ⟨-, rfl⟩ | ⟨a, ha, rfl⟩⟩ := release_cases hs
    · exact inv_onRelease h.inv hb hq
    · exact inv_onChunkUnused (inv_onRelease h.inv hb hq) ha

theorem Serial.refusesOversize {x : Call} (h : Serial p₀ p) (hs : p.callStep x = some p')
    (hQ : p.NoneWraps x) : p.RefusesOversize x := by
  cases x with
  | release i locked => trivial
  | allocate size fresh =>
    intro hbig
    obtain ⟨hf, -⟩ := step_allocate hs
    obtain ⟨hq, hflush⟩ := inv_flushPendingGc h.inv
    have hlast := hQ.2
    unfold NoWrap at hlast
    rw [← hflush.chunkSize] at hlast hbig
    have hcases := allocate_cases p size.toNat fresh
    generalize p.allocate size.toNat fresh = p' at *
    cases hcases with
    | @opened xs c hxs hfit =>
      have hw : NoWrap p.flushPendingGc c size.toNat := hlast c (by rw [hxs, List.getLast?_concat])
      exact absurd (hw.fits hfit).2 (by omega)
    | exhausted => exact hflush.live
    | @acquired c r _ ha hfit =>
      have hac := hq.counts.acquireChunk hf ha
      have hu : u32 size.toNat = size.toNat := Nat.mod_eq_of_lt size.toNat_lt
      rw [hac.offset, Nat.zero_add, hu, hac.chunkSize] at hfit
      omega
    | @refused c r _ ha _ => exact ((hq.counts.acquireChunk hf ha).live).trans hflush.live

theorem serial_make (chunkSize maxChunks : UInt32) :
    Serial (make chunkSize maxChunks) (make chunkSize maxChunks) := by
  refine ⟨⟨rfl, rfl, rfl⟩, ?_⟩
  constructor <;> simp [make, chunks]

/-- **Allocations fit.** In every history of one thread in which no request
wraps, every live buffer lies inside one chunk and overlaps no other, and a
request beyond the chunk size gets none. -/
theorem allocations_fit (chunkSize maxChunks : UInt32) (xs : List Call)
    (hQ : Trace.Steps callStep NoneWraps (make chunkSize maxChunks) xs) :
    Trace.Visits callStep Fits (make chunkSize maxChunks) xs ∧
      Trace.Steps callStep RefusesOversize (make chunkSize maxChunks) xs :=
  ⟨Trace.visits_of_steps (fun _ h => h.inv.ranges.fits) (fun _ _ _ h hs hQ => h.step hs hQ) xs
      (serial_make chunkSize maxChunks) hQ,
    Trace.steps_of_steps (fun _ _ _ h hs hQ => h.refusesOversize hs hQ)
      (fun _ _ _ h hs hQ => h.step hs hQ) xs (serial_make chunkSize maxChunks) hQ⟩

/-- The chunk is reset after its buffer is released, and filled to its end. -/
def fillRun : List Call := [.allocate 8 0, .release 0 true, .allocate 16 1, .allocate 17 1]

theorem allocations_fit_full :
    Trace.Visits callStep Fits (make 16 2) fillRun ∧
      Trace.Steps callStep RefusesOversize (make 16 2) fillRun := by
  refine allocations_fit 16 2 fillRun ?_
  refine .cons rfl ⟨by decide, fun _ hc => by cases hc⟩ ?_
  refine .cons rfl trivial ?_
  refine .cons rfl ⟨by decide, fun _ hc => by cases hc⟩ ?_
  exact .cons rfl ⟨by decide, fun _ hc => by cases hc; exact .inl (by decide)⟩ trivial

/-- With eight bytes in use, a request of `2 ^ 32 - 8` bytes wraps to zero. -/
theorem oversize_allocated :
    ∃ p, Trace.run callStep (make 16 2) [.allocate 8 0, .allocate 4294967288 1] = some p ∧
      p.live = [⟨0, 0, 8⟩, ⟨0, 8, 4294967288⟩] ∧ ¬ p.Fits := by
  refine ⟨_, rfl, rfl, fun h => ?_⟩
  obtain ⟨c, -, -, hle⟩ := h.2 ⟨0, 8, 4294967288⟩ (by decide)
  exact absurd hle (by decide)

end BufferPool

end IouringRuntime
