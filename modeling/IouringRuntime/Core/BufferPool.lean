import IouringRuntime.Core.Word
import IouringRuntime.Reentrant.Trace

/-!
# The send buffer pool

`BufferPool` and `SendBufferChunk` (`core/SendBuffer.h`). Buffers are cut from
chunks with a bump offset; a chunk counts its live buffers and is recycled
when the count drops to zero. The threads' actions are atomic steps:
`Allocate` (its whole body holds `mutex_`), the decrement of a release, and
after a decrement to zero the reclaim step of `OnChunkUnused`, which either
takes the mutex or leaves the chunk in `pending_gc_` for a later `Allocate`.

`offset_` and `ref_count_` are 32-bit. `unused` lists the chunks of the threads
between the last two steps. `live` and `recycled` are history: the buffers not
released, and for every `Reset` how many buffers of the chunk were live.
-/

namespace IouringRuntime

abbrev Addr := Nat

/-- A `SendBuffer`: the chunk it was cut from, its place and size there. -/
structure PoolBuffer where
  owner : Addr
  off : Nat
  size : Nat
  deriving DecidableEq, Repr

/-- The byte ranges of two buffers do not overlap. -/
def PoolBuffer.Disjoint (a b : PoolBuffer) : Prop :=
  a.owner ≠ b.owner ∨ a.off + a.size ≤ b.off ∨ b.off + b.size ≤ a.off

structure SendBufferChunk where
  addr : Addr
  offset : Nat := 0
  refCount : Nat := 0
  deriving DecidableEq, Repr

namespace SendBufferChunk

/-- `Open`. -/
def openBuffer (c : SendBufferChunk) (chunkSize size : Nat) :
    Option (SendBufferChunk × PoolBuffer) :=
  if chunkSize < u32 (c.offset + size) then none
  else some (⟨c.addr, u32 (c.offset + size), u32 (c.refCount + 1)⟩, ⟨c.addr, c.offset, size⟩)

def reset (c : SendBufferChunk) : SendBufferChunk := { c with offset := 0 }

/-- `ref_count_.fetch_sub(1)`, which wraps at zero. -/
def decrement (c : SendBufferChunk) : SendBufferChunk :=
  { c with refCount := if c.refCount = 0 then 2 ^ 32 - 1 else c.refCount - 1 }

/-- The decrement at the chunk with this address. -/
def decrementAt (owner : Addr) (c : SendBufferChunk) : SendBufferChunk :=
  if c.addr = owner then c.decrement else c

@[simp] theorem addr_decrementAt (owner : Addr) (c : SendBufferChunk) :
    (c.decrementAt owner).addr = c.addr := by
  unfold decrementAt
  split <;> rfl

@[simp] theorem offset_decrementAt (owner : Addr) (c : SendBufferChunk) :
    (c.decrementAt owner).offset = c.offset := by
  unfold decrementAt
  split <;> rfl

end SendBufferChunk

structure BufferPool where
  chunkSize : Nat := 4 * 1024 * 1024
  maxChunks : Nat := 256
  activeChunks : List SendBufferChunk := []
  freeChunks : List SendBufferChunk := []
  pendingGc : List Addr := []
  unused : List Addr := []
  live : List PoolBuffer := []
  recycled : List Nat := []
  deriving DecidableEq, Repr

namespace BufferPool

def kMaxFreeChunks : Nat := 8

/-- The number of live buffers of a chunk. -/
def liveIn (p : BufferPool) (chunk : Addr) : Nat := p.live.countP (·.owner == chunk)

/-- Every chunk of the pool. -/
def chunks (p : BufferPool) : List SendBufferChunk := p.activeChunks ++ p.freeChunks

def moveToFree (p : BufferPool) (chunk : Addr) : BufferPool :=
  match p.activeChunks.find? (·.addr == chunk) with
  | none => p
  | some c =>
    { p with
      freeChunks :=
        if p.freeChunks.length < kMaxFreeChunks then p.freeChunks ++ [c.reset] else p.freeChunks
      activeChunks := p.activeChunks.eraseP (·.addr == chunk)
      recycled := p.recycled ++ [p.liveIn chunk] }

def flushPendingGc (p : BufferPool) : BufferPool :=
  p.pendingGc.foldl moveToFree { p with pendingGc := [] }

/-- A chunk from the free list, or a new one at the address `fresh`. -/
def acquireChunk (p : BufferPool) (fresh : Addr) : Option (SendBufferChunk × BufferPool) :=
  match p.freeChunks.getLast? with
  | some c => some (c, { p with freeChunks := p.freeChunks.dropLast })
  | none => if p.maxChunks ≤ p.activeChunks.length then none else some (⟨fresh, 0, 0⟩, p)

/-- `active_chunks_.back()->Open(size)`. -/
def openActive (p : BufferPool) (size : Nat) : Option BufferPool :=
  match p.activeChunks.getLast? with
  | none => none
  | some c =>
    match c.openBuffer p.chunkSize size with
    | none => none
    | some r => some { p with
        activeChunks := p.activeChunks.dropLast ++ [r.1]
        live := p.live ++ [r.2] }

def pushActive (p : BufferPool) (c : SendBufferChunk) : BufferPool :=
  { p with activeChunks := p.activeChunks ++ [c] }

/-- `none` inside `openActive` and `acquireChunk` is `kResourceExhausted`. -/
def allocate (p : BufferPool) (size : Nat) (fresh : Addr) : BufferPool :=
  let p := p.flushPendingGc
  match p.openActive size with
  | some p' => p'
  | none =>
    match p.acquireChunk fresh with
    | none => p
    | some r =>
      match (r.2.pushActive r.1).openActive size with
      | some p' => p'
      | none => r.2.pushActive r.1

/-- The buffer is deleted and its chunk's count decremented; `none` when the
chunk is gone. -/
def onRelease (p : BufferPool) (i : Nat) (b : PoolBuffer) : Option BufferPool :=
  match p.chunks.find? (·.addr == b.owner) with
  | none => none
  | some c =>
    some { p with
      activeChunks := p.activeChunks.map (SendBufferChunk.decrementAt b.owner)
      freeChunks := p.freeChunks.map (SendBufferChunk.decrementAt b.owner)
      live := p.live.eraseIdx i
      unused := if c.refCount = 1 then p.unused ++ [b.owner] else p.unused }

/-- `OnChunkUnused` by the `j`-th thread that owes it. -/
def onChunkUnused (p : BufferPool) (j : Nat) (chunk : Addr) (locked : Bool) : BufferPool :=
  let p := { p with unused := p.unused.eraseIdx j }
  if locked then p.moveToFree chunk else { p with pendingGc := p.pendingGc ++ [chunk] }

/-- One atomic action of some thread. A new chunk's storage is at an address
no chunk of the pool has. -/
inductive Action where
  | allocate (size : Nat) (fresh : Addr)
  | release (i : Nat)
  | reclaim (j : Nat) (locked : Bool)
  deriving DecidableEq, Repr

def step (p : BufferPool) : Action → Option BufferPool
  | .allocate size fresh =>
    if fresh ∈ p.flushPendingGc.chunks.map SendBufferChunk.addr then none
    else some (p.allocate size fresh)
  | .release i =>
    match p.live[i]? with
    | none => none
    | some b => p.onRelease i b
  | .reclaim j locked =>
    match p.unused[j]? with
    | none => none
    | some chunk => some (p.onChunkUnused j chunk locked)

/-- Live buffers do not overlap, and no chunk was reset with one in it. -/
def Safe (p : BufferPool) : Prop :=
  p.live.Pairwise PoolBuffer.Disjoint ∧ ∀ n ∈ p.recycled, n = 0

/-- At an `Allocate` of at most a chunk: the chunk tried first, if the request
fits, is not one whose count has dropped to zero and whose reclaim step has
not run; and neither `offset_` nor `ref_count_` can wrap. -/
def AvoidsUnused (p : BufferPool) : Action → Prop
  | .allocate size _ =>
    size ≤ p.chunkSize ∧ p.chunkSize < 2 ^ 31 ∧ p.live.length + 1 < 2 ^ 32 ∧
    ∀ c, p.flushPendingGc.activeChunks.getLast? = some c → c.offset + size ≤ p.chunkSize →
      c.addr ∉ p.unused
  | _ => True

end BufferPool

end IouringRuntime
