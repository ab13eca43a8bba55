import Mathlib.Data.List.Dedup
import Mathlib.Data.List.Perm.Subperm
import IouringRuntime.Core.SerialPool

/-!
# What the pool can still serve

A chunk goes back to the free list when its count drops to zero, so an active
chunk that never held a buffer stays where it is. The last active chunk is the
one the next request is tried in; an empty chunk there is not lost yet. It is
lost when the next chunk is put behind it, and for that a request must not fit
an empty chunk: `Stocked` is kept by every call but an `Allocate` beyond the
chunk size that finds the last active chunk empty.
-/

namespace IouringRuntime

namespace BufferPool

/-- `Allocate` returned no buffer. -/
def Fails (p : BufferPool) (size : UInt32) (fresh : Addr) : Prop :=
  (p.allocate size.toNat fresh).live = p.live

/-- The number of chunks with a live buffer. -/
def heldChunks (p : BufferPool) : Nat := (p.live.map PoolBuffer.owner).dedup.length

/-- A request that fits a chunk fails only when every chunk the pool may have
holds a live buffer, and never when there is no live buffer. -/
def Available (p : BufferPool) : Prop :=
  ∀ size : UInt32, size.toNat ≤ p.chunkSize →
    ∀ fresh, fresh ∉ p.flushPendingGc.chunks.map SendBufferChunk.addr → p.Fails size fresh →
      p.maxChunks ≤ p.heldChunks ∧ p.live ≠ []

/-- A request beyond the chunk size does not find the last active chunk empty,
or finds no chunk to put behind it; and `ref_count_` cannot wrap. -/
def LosesNone (p : BufferPool) : Call → Prop
  | .allocate size fresh =>
    p.live.length + 1 < 2 ^ 32 ∧
      (size.toNat ≤ p.chunkSize ∨ p.flushPendingGc.acquireChunk fresh = none ∨
        ∀ c, p.flushPendingGc.activeChunks.getLast? = some c → c.refCount ≠ 0)
  | .release _ _ => True

/-- The chunk holds a live buffer, or a reclaim step is still owed to it. -/
def Held (p : BufferPool) (due : List Addr) (c : SendBufferChunk) : Prop :=
  0 < p.liveIn c.addr ∨ c.addr ∈ due

/-- Every active chunk but the last is held, and the last one is held or empty. -/
structure Stocked (p : BufferPool) (due : List Addr) : Prop where
  inner : p.activeChunks.Pairwise fun c _ => p.Held due c
  empty : ∀ c ∈ p.activeChunks, p.Held due c ∨ c.offset = 0

variable {p p' : BufferPool} {due : List Addr}

theorem Stocked.of_held (h : ∀ c ∈ p.activeChunks, p.Held due c) : Stocked p due :=
  ⟨List.pairwise_of_forall_mem_list fun c hc _ _ => h c hc, fun c hc => .inl (h c hc)⟩

theorem Stocked.of_sublist (h : Stocked p due) {due' : List Addr}
    (hsub : p'.activeChunks.Sublist p.activeChunks)
    (hheld : ∀ c ∈ p'.activeChunks, p.Held due c → p'.Held due' c) : Stocked p' due' where
  inner := (h.inner.sublist hsub).imp_of_mem fun hc _ hh => hheld _ hc hh
  empty := fun c hc => (h.empty c (hsub.subset hc)).imp_left (hheld c hc)

/-! ## Recycling -/

theorem Stocked.moveToFree {a : Addr} (h : Stocked p (a :: due)) (hc : Counts p (a :: due)) :
    Stocked (p.moveToFree a) due := by
  have hsub : (p.moveToFree a).activeChunks.Sublist p.activeChunks := by
    obtain ⟨c, xs, ys, fs, hs, -, -, he⟩ := hc.moveToFree_eq
    rw [he, hs]
    exact List.Sublist.append_left (List.sublist_cons_self c ys) xs
  refine h.of_sublist hsub fun d hd hheld => ?_
  rw [Held, liveIn, (p.moveToFree_live a).1]
  have hne := (hc.mem_active_moveToFree.1 hd).2
  exact hheld.imp_right fun hm => (List.mem_cons.1 hm).resolve_left hne

theorem Stocked.foldl_moveToFree (l : List Addr) :
    ∀ {p : BufferPool}, Counts p (l ++ due) → Stocked p (l ++ due) →
      Stocked (l.foldl BufferPool.moveToFree p) due := by
  induction l with
  | nil => intro p _ h; exact h
  | cons a l ih => intro p hc h; exact ih hc.moveToFree (h.moveToFree hc)

theorem Stocked.flushPendingGc (h : Stocked p (p.unused ++ p.pendingGc))
    (hc : Counts p (p.unused ++ p.pendingGc)) : Stocked p.flushPendingGc p.unused := by
  refine Stocked.foldl_moveToFree (p := { p with pendingGc := [] }) p.pendingGc
    { hc.perm List.perm_append_comm with } ?_
  exact h.of_sublist (.refl _) fun d _ hd => hd.imp_right List.perm_append_comm.mem_iff.1

/-! ## Allocating -/

theorem openActive_eq_none {size : Nat} (h : p.openActive size = none) {c : SendBufferChunk}
    {xs : List SendBufferChunk} (hxs : p.activeChunks = xs ++ [c]) :
    p.chunkSize < u32 (c.offset + size) := by
  by_contra hfit
  rw [p.openActive_concat hxs (Nat.not_lt.1 hfit)] at h
  cases h

/-- Only the last active chunk has to be looked at. -/
theorem Stocked.held_of_last (h : Stocked p due)
    (hlast : ∀ xs c, p.activeChunks = xs ++ [c] → p.Held due c) :
    ∀ c ∈ p.activeChunks, p.Held due c := by
  rcases List.eq_nil_or_concat' p.activeChunks with hnil | ⟨xs, c, hxs⟩
  · rw [hnil]
    exact fun c hc => absurd hc List.not_mem_nil
  · have hp := h.inner
    rw [hxs, List.pairwise_append] at hp
    rw [hxs]
    intro d hd
    rcases List.mem_append.1 hd with hd | hd
    · exact hp.2.2 d hd c (List.mem_singleton_self c)
    · rw [List.mem_singleton.1 hd]
      exact hlast xs c hxs

/-- The request did not fit the last active chunk and fits an empty one. -/
theorem Stocked.held_of_openActive {size : Nat} (h : Stocked p due)
    (ho : p.openActive size = none) (hfit : u32 size ≤ p.chunkSize) :
    ∀ c ∈ p.activeChunks, p.Held due c := by
  refine h.held_of_last fun xs c hxs => ?_
  refine (h.empty c (by rw [hxs]; exact List.mem_append_right _ (by simp))).resolve_right ?_
  intro hz
  have := openActive_eq_none ho hxs
  rw [hz, Nat.zero_add] at this
  omega

/-- The last active chunk is held when its count is not zero. -/
theorem Stocked.held_of_refCount (h : Stocked p due) (hc : Counts p due)
    (hlast : ∀ c, p.activeChunks.getLast? = some c → c.refCount ≠ 0) :
    ∀ c ∈ p.activeChunks, p.Held due c := by
  refine h.held_of_last fun xs c hxs => ?_
  have hr := hc.refs c (List.mem_append_left _ (by rw [hxs]; simp))
  have := hlast c (by rw [hxs, List.getLast?_concat])
  exact .inl (by omega)

/-- A buffer in the last active chunk. -/
theorem Stocked.openLast {c : SendBufferChunk} {xs : List SendBufferChunk} {size : Nat}
    (h : ∀ d ∈ xs, p.Held due d) : Stocked (p.openLast xs c size) due := by
  refine .of_held fun d hd => ?_
  rw [Held, p.liveIn_openLast]
  rcases List.mem_append.1 hd with hd | hd
  · exact (h d hd).imp_left fun hlive => Nat.lt_of_lt_of_le hlive (Nat.le_add_right _ _)
  · rw [List.mem_singleton.1 hd, if_pos rfl]
    exact .inl (Nat.succ_pos _)

theorem Stocked.pushActive {c : SendBufferChunk} (h : ∀ d ∈ p.activeChunks, p.Held due d)
    (hz : c.offset = 0) : Stocked (p.pushActive c) due where
  inner := by
    refine List.pairwise_append.2 ⟨?_, List.pairwise_singleton _ _, fun d hd _ _ => h d hd⟩
    exact List.pairwise_of_forall_mem_list fun d hd _ _ => h d hd
  empty := by
    intro d hd
    rcases List.mem_append.1 hd with hd | hd
    · exact .inl (h d hd)
    · rw [List.mem_singleton.1 hd]; exact .inr hz

/-- The counts after an `Allocate` in one thread. -/
theorem Counts.allocate {size : Nat} {fresh : Addr} (h : Counts p (p.unused ++ p.pendingGc))
    (hu : p.unused = []) (hlen : p.live.length + 1 < 2 ^ 32)
    (hf : fresh ∉ p.flushPendingGc.chunks.map SendBufferChunk.addr) :
    Counts (p.allocate size fresh) [] := by
  obtain ⟨hq, hflush⟩ := h.flushPendingGc
  rw [hflush.unused, hu] at hq
  rw [← hflush.live] at hlen
  have hcases := allocate_cases p size fresh
  generalize p.allocate size fresh = p' at *
  cases hcases with
  | opened hxs _ => exact hq.openLast hxs hlen List.not_mem_nil
  | exhausted => exact hq
  | acquired _ ha _ =>
    have hac := hq.acquireChunk hf ha
    exact hac.counts.openLast rfl (by rw [← hac.live] at hlen; exact hlen) List.not_mem_nil
  | refused _ ha _ => exact (hq.acquireChunk hf ha).counts

/-- The invariant between calls, with `p₀` the pool before the first. -/
structure Supplied (p₀ p : BufferPool) : Prop where
  between : Between p₀ p
  counts : Counts p (p.unused ++ p.pendingGc)
  stocked : Stocked p (p.unused ++ p.pendingGc)

variable {p₀ : BufferPool}

/-- The pool as `Allocate` finds it once `pending_gc_` is flushed. -/
theorem Supplied.flushPendingGc (h : Supplied p₀ p) :
    Counts p.flushPendingGc [] ∧ Stocked p.flushPendingGc [] ∧ Flushed p p.flushPendingGc := by
  obtain ⟨hq, hflush⟩ := h.counts.flushPendingGc
  have hst := h.stocked.flushPendingGc h.counts
  rw [hflush.unused, h.between.unused] at hq
  rw [h.between.unused] at hst
  exact ⟨hq, hst, hflush⟩

theorem Supplied.stocked_allocate {size : UInt32} {fresh : Addr} (h : Supplied p₀ p)
    (hQ : p.LosesNone (.allocate size fresh))
    (hf : fresh ∉ p.flushPendingGc.chunks.map SendBufferChunk.addr) :
    Stocked (p.allocate size.toNat fresh) [] := by
  obtain ⟨hq, hst, hflush⟩ := h.flushPendingGc
  have hu : u32 size.toNat = size.toNat := Nat.mod_eq_of_lt size.toNat_lt
  have hlose := hQ.2
  rw [← hflush.chunkSize] at hlose
  have hcases := allocate_cases p size.toNat fresh
  generalize p.allocate size.toNat fresh = p' at *
  generalize p.flushPendingGc = q at *
  -- every chunk that another one is put behind is held
  have hheld : ∀ {c r}, q.acquireChunk fresh = some (c, r) →
      (∀ d ∈ q.activeChunks, q.Held [] d) → ∀ d ∈ r.activeChunks, r.Held [] d := by
    intro c r ha hall
    have hac := hq.acquireChunk hf ha
    rw [hac.active]
    intro d hd
    rw [Held, liveIn, hac.live]
    exact hall d hd
  cases hcases with
  | opened hxs _ =>
    have hp := hst.inner
    rw [hxs, List.pairwise_append] at hp
    exact Stocked.openLast fun d hd => hp.2.2 d hd _ (List.mem_singleton_self _)
  | exhausted => exact hst
  | @acquired c r ho ha hfit =>
    have hac := hq.acquireChunk hf ha
    rw [hac.offset, Nat.zero_add, hac.chunkSize] at hfit
    exact Stocked.openLast (p := r.pushActive c) (hheld ha (hst.held_of_openActive ho hfit))
  | @refused c r ho ha hbig =>
    have hac := hq.acquireChunk hf ha
    rw [hac.offset, Nat.zero_add, hac.chunkSize, hu] at hbig
    refine Stocked.pushActive (hheld ha ?_) hac.offset
    rcases hlose with hle | hnone | hlast
    · omega
    · rw [hnone] at ha; cases ha
    · exact hst.held_of_refCount hq hlast

/-! ## Releasing -/

theorem Stocked.onRelease {i : Nat} {b : PoolBuffer} (h : Stocked p (p.unused ++ p.pendingGc))
    (hc : Counts p (p.unused ++ p.pendingGc)) (hb : p.live[i]? = some b)
    (hs : p.onRelease i b = some p') : Stocked p' (p'.unused ++ p'.pendingGc) := by
  obtain ⟨xs, ys, hl, hcount⟩ := hc.onRelease_eq hb hs
  -- a chunk that is no longer held through its buffers is the one owed a reclaim step
  have hact : p'.activeChunks = p.activeChunks.map (SendBufferChunk.decrementAt b.owner) := by
    rcases hcount with ⟨-, rfl⟩ | ⟨-, rfl⟩ <;> rfl
  have hheld : ∀ d, p.Held (p.unused ++ p.pendingGc) d →
      p'.Held (p'.unused ++ p'.pendingGc) (d.decrementAt b.owner) := by
    intro d hd
    have hsplit := liveIn_split hl d.addr
    rw [Held, d.addr_decrementAt]
    rcases hcount with ⟨h1, rfl⟩ | ⟨h1, rfl⟩
    · by_cases hda : b.owner = d.addr
      · exact .inr (by simp [hda])
      · rw [if_neg hda] at hsplit
        refine hd.imp (fun hlive => ?_) (fun hm => ?_)
        · show 0 < (xs ++ ys).countP (·.owner == d.addr)
          omega
        · show d.addr ∈ p.unused ++ [b.owner] ++ p.pendingGc
          rcases List.mem_append.1 hm with hm | hm <;> simp [hm]
    · refine hd.imp (fun hlive => ?_) id
      show 0 < (xs ++ ys).countP (·.owner == d.addr)
      by_cases hda : b.owner = d.addr
      · rw [if_pos hda] at hsplit
        rw [hda] at h1
        omega
      · rw [if_neg hda] at hsplit
        omega
  refine ⟨?_, ?_⟩
  · rw [hact, List.pairwise_map]
    exact h.inner.imp fun hd => hheld _ hd
  · rw [hact]
    intro d' hd'
    obtain ⟨d, hd, rfl⟩ := List.mem_map.1 hd'
    rw [d.offset_decrementAt]
    exact (h.empty d hd).imp_left (hheld d)

theorem Stocked.onChunkUnused {a : Addr} {locked : Bool}
    (h : Stocked p (p.unused ++ p.pendingGc)) (hc : Counts p (p.unused ++ p.pendingGc))
    (ha : p.unused[0]? = some a) :
    Stocked (p.onChunkUnused 0 a locked)
      ((p.onChunkUnused 0 a locked).unused ++ (p.onChunkUnused 0 a locked).pendingGc) := by
  obtain ⟨us, hus⟩ : ∃ us, p.unused = a :: us := by
    cases hu : p.unused with
    | nil => rw [hu] at ha; cases ha
    | cons b us => rw [hu] at ha; cases ha; exact ⟨us, rfl⟩
  have herase : p.unused.eraseIdx 0 = us := by rw [hus]; rfl
  rw [hus] at h hc
  unfold BufferPool.onChunkUnused
  dsimp only
  rw [herase]
  cases locked with
  | true =>
    obtain ⟨-, h2, h3, -⟩ := { p with unused := us }.moveToFree_live a
    rw [if_pos rfl, h2, h3]
    exact Stocked.moveToFree (p := { p with unused := us }) { h with } { hc with }
  | false =>
    rw [if_neg (by simp)]
    refine h.of_sublist (.refl _) fun d _ hd => hd.imp_right fun hm => ?_
    show d.addr ∈ us ++ (p.pendingGc ++ [a])
    simp only [List.cons_append, List.mem_cons, List.mem_append] at hm ⊢
    tauto

/-! ## Every history -/

theorem Supplied.step {x : Call} (h : Supplied p₀ p) (hs : p.callStep x = some p')
    (hQ : p.LosesNone x) : Supplied p₀ p' := by
  cases x with
  | allocate size fresh =>
    obtain ⟨hf, rfl⟩ := step_allocate hs
    have hb := h.between.allocate h.counts size.toNat fresh
    have hdue : (p.allocate size.toNat fresh).unused ++ (p.allocate size.toNat fresh).pendingGc
        = [] := by
      rw [hb.unused, (allocate_frame h.counts size.toNat fresh).2.1]
      rfl
    refine ⟨hb, ?_, ?_⟩
    · rw [hdue]; exact h.counts.allocate h.between.unused hQ.1 hf
    · rw [hdue]; exact h.stocked_allocate hQ hf
  | release i locked =>
    have hb' := h.between.release h.counts hs
    obtain ⟨b, q, hb, hq, ⟨-, rfl⟩ | ⟨a, ha, rfl⟩⟩ := release_cases hs
    · exact ⟨hb', h.counts.onRelease hb hq, h.stocked.onRelease h.counts hb hq⟩
    · have hc := h.counts.onRelease hb hq
      have hst := h.stocked.onRelease h.counts hb hq
      exact ⟨hb', hc.onChunkUnused ha, hst.onChunkUnused hc ha⟩

/-- Every chunk that is held is counted. -/
theorem length_le_heldChunks (hc : Counts p []) (hall : ∀ c ∈ p.activeChunks, p.Held [] c) :
    p.activeChunks.length ≤ p.heldChunks := by
  have hn : (p.activeChunks.map SendBufferChunk.addr).Nodup := by
    have := hc.nodup
    rw [chunks, List.map_append] at this
    exact (List.nodup_append.1 this).1
  have hsub : p.activeChunks.map SendBufferChunk.addr ⊆
      (p.live.map PoolBuffer.owner).dedup := by
    intro a ha
    obtain ⟨c, hca, rfl⟩ := List.mem_map.1 ha
    have hlive := (hall c hca).resolve_right List.not_mem_nil
    obtain ⟨b, hb, ho⟩ := List.countP_pos_iff.1 hlive
    rw [List.mem_dedup, ← beq_iff_eq.1 ho]
    exact List.mem_map_of_mem hb
  have := (List.subperm_of_subset hn hsub).length_le
  rwa [List.length_map] at this

theorem heldChunks_of_live_nil (h : p.live = []) : p.heldChunks = 0 := by
  rw [heldChunks, h]
  rfl

theorem Supplied.available (h : Supplied p₀ p) (hmax : 1 ≤ p₀.maxChunks) : p.Available := by
  intro size hsize fresh hf hfails
  obtain ⟨hq, hst, hflush⟩ := h.flushPendingGc
  have hu : u32 size.toNat = size.toNat := Nat.mod_eq_of_lt size.toNat_lt
  rw [← h.between.maxChunks, ← hflush.maxChunks] at hmax
  unfold Fails at hfails
  rw [← hflush.chunkSize] at hsize
  have hheld : p.heldChunks = p.flushPendingGc.heldChunks := by
    rw [heldChunks, heldChunks, hflush.live]
  rw [hheld, ← hflush.maxChunks, ← hflush.live]
  rw [← hflush.live] at hfails
  have hcases := allocate_cases p size.toNat fresh
  generalize p.allocate size.toNat fresh = p' at hcases hfails
  generalize p.flushPendingGc = q at *
  cases hcases with
  | opened =>
    exact absurd (congrArg List.length hfails) (by simp [BufferPool.openLast])
  | exhausted ho ha =>
    have hle := (acquireChunk_eq_none ha).2
    have hcount := length_le_heldChunks hq (hst.held_of_openActive ho (by omega))
    refine ⟨by omega, fun hnil => ?_⟩
    rw [heldChunks_of_live_nil hnil] at hcount
    omega
  | acquired _ ha =>
    have hac := hq.acquireChunk hf ha
    exact absurd (congrArg List.length hfails)
      (by simp [BufferPool.openLast, BufferPool.pushActive, hac.live])
  | refused _ ha hbig =>
    have hac := hq.acquireChunk hf ha
    rw [hac.offset, Nat.zero_add, hac.chunkSize, hu] at hbig
    omega

theorem supplied_make (chunkSize maxChunks : UInt32) :
    Supplied (make chunkSize maxChunks) (make chunkSize maxChunks) :=
  ⟨(serial_make chunkSize maxChunks).between, (serial_make chunkSize maxChunks).inv.counts,
    .of_held fun _ hc => absurd hc List.not_mem_nil⟩

/-- **Capacity depends only on live buffers**, in every history of one thread
in which no request beyond the chunk size buries an empty chunk. -/
theorem capacity (chunkSize maxChunks : UInt32) (hmax : 1 ≤ maxChunks.toNat) (xs : List Call)
    (hQ : Trace.Steps callStep LosesNone (make chunkSize maxChunks) xs) :
    Trace.Visits callStep Available (make chunkSize maxChunks) xs :=
  Trace.visits_of_steps (fun _ h => h.available hmax) (fun _ _ _ h hs hQ => h.step hs hQ) xs
    (supplied_make chunkSize maxChunks) hQ

/-- An oversize request behind a chunk in use; the chunk it leaves is filled next. -/
def refillRun : List Call := [.allocate 8 0, .allocate 17 1, .allocate 16 2, .release 0 true]

theorem capacity_refill : Trace.Visits callStep Available (make 16 2) refillRun := by
  refine capacity 16 2 (by decide) refillRun ?_
  refine .cons rfl ⟨by decide, .inl (by decide)⟩ ?_
  refine .cons rfl ⟨by decide, .inr (.inr fun _ hc => by cases hc; decide)⟩ ?_
  refine .cons rfl ⟨by decide, .inl (by decide)⟩ ?_
  exact .cons rfl trivial trivial

/-- Two oversize requests; the first chunk is then lost, and with it half the pool. -/
def oversizeRun : List Call := [.allocate 17 0, .allocate 17 1, .allocate 16 2]

theorem oversize_takes_capacity :
    ∃ p, Trace.run callStep (make 16 2) oversizeRun = some p ∧ p.heldChunks = 1 ∧
      p.Fails 16 2 ∧ ¬ p.Available := by
  refine ⟨_, rfl, by decide, rfl, fun h => ?_⟩
  have hle := (h 16 (by decide) 2 (by decide) rfl).1
  exact absurd hle (by decide)

end BufferPool

end IouringRuntime
