import IouringRuntime.Core.PoolCounts

/-!
# When the pool recycles only chunks that are not in use

`Inv p due`: the chunks in `due` are those a reclaim step is still owed to. As
long as no buffer is opened in one of them, their counts stay at zero, so the
reclaim step finds no live buffer, and each chunk is owed at most one.
-/

namespace IouringRuntime

namespace BufferPool

structure Inv (p : BufferPool) (due : List Addr) : Prop where
  count : p.live.length < 2 ^ 32
  nodup : (p.chunks.map SendBufferChunk.addr).Nodup
  refs : ∀ c ∈ p.chunks, c.refCount = p.liveIn c.addr
  free : ∀ c ∈ p.freeChunks, c.offset = 0
  offset : ∀ c ∈ p.activeChunks, c.offset ≤ p.chunkSize
  dueNodup : due.Nodup
  due : ∀ a ∈ due, (∃ c ∈ p.activeChunks, c.addr = a) ∧ p.liveIn a = 0
  owned : ∀ b ∈ p.live, ∃ c ∈ p.activeChunks, c.addr = b.owner ∧ b.off + b.size ≤ c.offset
  disjoint : p.live.Pairwise PoolBuffer.Disjoint
  recycled : ∀ n ∈ p.recycled, n = 0

variable {p p' : BufferPool} {due : List Addr}

theorem Inv.counts (h : Inv p due) : Counts p due :=
  { h with
    owned := fun b hb => by
      obtain ⟨c, hc, hca, -⟩ := h.owned b hb
      exact ⟨c, hc, hca⟩ }

/-- Where the live buffers are in their chunks. -/
structure Ranges (p : BufferPool) : Prop where
  offset : ∀ c ∈ p.activeChunks, c.offset ≤ p.chunkSize
  owned : ∀ b ∈ p.live, ∃ c ∈ p.activeChunks, c.addr = b.owner ∧ b.off + b.size ≤ c.offset
  disjoint : p.live.Pairwise PoolBuffer.Disjoint

theorem Inv.ranges (h : Inv p due) : Ranges p := { h with }

theorem Inv.of_counts (hc : Counts p due) (hr : Ranges p) : Inv p due := { hr, hc with }

/-! ## Recycling -/

/-- Chunks that are not in use go. -/
theorem Ranges.keep (h : Ranges p) (hcs : p'.chunkSize = p.chunkSize) (hl : p'.live = p.live)
    (hsub : ∀ c ∈ p'.activeChunks, c ∈ p.activeChunks)
    (hkeep : ∀ c ∈ p.activeChunks, (∃ b ∈ p.live, b.owner = c.addr) → c ∈ p'.activeChunks) :
    Ranges p' where
  offset c hc := by
    rw [hcs]
    exact h.offset c (hsub c hc)
  owned b hb := by
    rw [hl] at hb
    obtain ⟨c, hc, hca, hle⟩ := h.owned b hb
    exact ⟨c, hkeep c hc ⟨b, hb, hca.symm⟩, hca, hle⟩
  disjoint := by
    rw [hl]
    exact h.disjoint

theorem inv_flushPendingGc (h : Inv p (p.unused ++ p.pendingGc)) :
    Inv p.flushPendingGc p.flushPendingGc.unused ∧ Flushed p p.flushPendingGc := by
  obtain ⟨hc, hf⟩ := h.counts.flushPendingGc
  refine ⟨.of_counts hc (h.ranges.keep hf.chunkSize hf.live (fun c hm => ((hf.active c).1 hm).1) ?_),
    hf⟩
  rintro c hm ⟨b, hb, hbo⟩
  refine (hf.active c).2 ⟨hm, fun hgc => ?_⟩
  have hzero := (h.due c.addr (List.mem_append_right _ hgc)).2
  rw [liveIn, List.countP_eq_zero] at hzero
  exact hzero b hb (by rw [hbo]; exact beq_self_eq_true _)

/-! ## Opening a buffer -/

/-- The request does not wrap `offset_` to a place inside the chunk. -/
def NoWrap (p : BufferPool) (c : SendBufferChunk) (size : Nat) : Prop :=
  c.offset + size < 2 ^ 32 ∨ p.chunkSize < u32 (c.offset + size)

theorem NoWrap.fits {c : SendBufferChunk} {size : Nat} (h : NoWrap p c size)
    (hfit : u32 (c.offset + size) ≤ p.chunkSize) :
    u32 (c.offset + size) = c.offset + size ∧ c.offset + size ≤ p.chunkSize := by
  rcases h with h | h
  · have hu : u32 (c.offset + size) = c.offset + size := Nat.mod_eq_of_lt h
    exact ⟨hu, hu ▸ hfit⟩
  · exact absurd hfit (Nat.not_le.2 h)

/-- A buffer past everything cut from a chunk so far is disjoint from the live ones. -/
theorem Inv.disjoint_open (h : Inv p due) {c : SendBufferChunk} (hc : c ∈ p.activeChunks)
    (size : Nat) :
    (p.live ++ [(⟨c.addr, c.offset, size⟩ : PoolBuffer)]).Pairwise PoolBuffer.Disjoint := by
  rw [List.pairwise_append]
  refine ⟨h.disjoint, List.pairwise_singleton _ _, fun b hbm b' hb' => ?_⟩
  rw [List.mem_singleton.1 hb']
  obtain ⟨d, hd, hda, hle⟩ := h.owned b hbm
  by_cases he : b.owner = c.addr
  · have : d = c := h.counts.eq_of_addr (List.mem_append_left _ hd) (List.mem_append_left _ hc)
      (hda.trans he)
    rw [this] at hle
    exact .inr (.inl hle)
  · exact .inl he

/-- A buffer is cut from the last active chunk, which no reclaim step is owed. -/
theorem Inv.open_last (h : Inv p due) {c : SendBufferChunk} {xs : List SendBufferChunk} {size : Nat}
    (hxs : p.activeChunks = xs ++ [c]) (hfit : u32 (c.offset + size) ≤ p.chunkSize)
    (hw : NoWrap p c size) (hlen : p.live.length + 1 < 2 ^ 32) (hnd : c.addr ∉ due) :
    Inv (p.openLast xs c size) due := by
  have hca : c ∈ p.activeChunks := by rw [hxs]; exact List.mem_append_right _ (by simp)
  obtain ⟨hu, hle⟩ := hw.fits hfit
  refine .of_counts (h.counts.openLast hxs hlen hnd) ⟨?_, ?_, h.disjoint_open hca size⟩
  · intro d hd
    rcases List.mem_append.1 hd with hd | hd
    · exact h.offset d (by rw [hxs]; exact List.mem_append_left _ hd)
    · rw [List.mem_singleton.1 hd]; exact hfit
  · intro b hbm
    rcases List.mem_append.1 hbm with hbm | hbm
    · obtain ⟨d, hd, hda, hoff⟩ := h.owned b hbm
      rw [hxs] at hd
      rcases List.mem_append.1 hd with hd | hd
      · exact ⟨d, List.mem_append_left _ hd, hda, hoff⟩
      · rw [List.mem_singleton.1 hd] at hda hoff
        refine ⟨_, List.mem_append_right _ (List.mem_singleton_self _), hda, ?_⟩
        show b.off + b.size ≤ u32 (c.offset + size)
        omega
    · rw [List.mem_singleton.1 hbm]
      exact ⟨_, List.mem_append_right _ (List.mem_singleton_self _), rfl, hu.ge⟩

/-- An empty chunk becomes the last active one. -/
theorem Inv.acquired (h : Inv p due) {c : SendBufferChunk} {r : BufferPool}
    (ha : Acquired p due c r) : Inv (r.pushActive c) due := by
  refine .of_counts ha.counts ⟨?_, ?_, ?_⟩
  · intro d hd
    show d.offset ≤ r.chunkSize
    rw [ha.chunkSize]
    rcases List.mem_append.1 hd with hd | hd
    · exact h.offset d (ha.active ▸ hd)
    · rw [List.mem_singleton.1 hd, ha.offset]; exact Nat.zero_le _
  · intro b hb
    obtain ⟨d, hd, hda, hle⟩ := h.owned b (ha.live ▸ hb)
    refine ⟨d, List.mem_append_left _ ?_, hda, hle⟩
    rw [ha.active]
    exact hd
  · show r.live.Pairwise _
    rw [ha.live]
    exact h.disjoint

/-- `Allocate`, when no request wraps and the chunk tried first owes no reclaim step. -/
theorem inv_allocate {size : Nat} {fresh : Addr} (h : Inv p (p.unused ++ p.pendingGc))
    (hsize : size < 2 ^ 32) (hlen : p.live.length + 1 < 2 ^ 32)
    (hlast : ∀ c, p.flushPendingGc.activeChunks.getLast? = some c →
      NoWrap p c size ∧ (c.offset + size ≤ p.chunkSize → c.addr ∉ p.unused))
    (hf : fresh ∉ p.flushPendingGc.chunks.map SendBufferChunk.addr) :
    Inv (p.allocate size fresh)
      ((p.allocate size fresh).unused ++ (p.allocate size fresh).pendingGc) := by
  obtain ⟨hq, hflush⟩ := inv_flushPendingGc h
  have hdone : ∀ {p' : BufferPool}, Inv p' p'.unused → p'.pendingGc = [] →
      Inv p' (p'.unused ++ p'.pendingGc) := fun hi hg => by rw [hg, List.append_nil]; exact hi
  have hc := allocate_cases p size fresh
  unfold NoWrap at hlast
  rw [← hflush.chunkSize, ← hflush.unused] at hlast
  rw [← hflush.live] at hlen
  have hgc := hflush.pendingGc
  generalize p.flushPendingGc = q at *
  generalize p.allocate size fresh = p' at *
  cases hc with
  | @opened xs c hxs hfit =>
    have hl := hlast c (by rw [hxs, List.getLast?_concat])
    exact hdone (hq.open_last hxs hfit hl.1 hlen (hl.2 (NoWrap.fits (p := q) hl.1 hfit).2)) hgc
  | exhausted => exact hdone hq hgc
  | @acquired c r ho ha hfit =>
    have hac := hq.counts.acquireChunk hf ha
    have hlen' : r.live.length + 1 < 2 ^ 32 := by rw [hac.live]; exact hlen
    have hwrap : NoWrap (r.pushActive c) c size := .inl (by rw [hac.offset]; omega)
    refine @hdone ((r.pushActive c).openLast r.activeChunks c size) ?_ (hac.pendingGc.trans hgc)
    show Inv _ r.unused
    rw [hac.unused]
    exact (hq.acquired hac).open_last rfl hfit hwrap hlen' hac.notDue
  | @refused c r ho ha hfit =>
    have hac := hq.counts.acquireChunk hf ha
    refine @hdone (r.pushActive c) ?_ (hac.pendingGc.trans hgc)
    show Inv _ r.unused
    rw [hac.unused]
    exact hq.acquired hac

/-! ## Releasing and reclaiming -/

theorem Ranges.release (h : Ranges p) {b : PoolBuffer} {xs ys : List PoolBuffer}
    (hl : p.live = xs ++ b :: ys) : Ranges (p.decremented b (xs ++ ys)) := by
  have hsub : (xs ++ ys).Sublist p.live := by
    rw [hl]
    exact List.Sublist.append_left (List.sublist_cons_self _ _) _
  refine ⟨?_, ?_, h.disjoint.sublist hsub⟩
  · intro d' hd'
    obtain ⟨d, hd, rfl⟩ := List.mem_map.1 hd'
    rw [SendBufferChunk.offset_decrementAt]
    exact h.offset d hd
  · intro x hx
    obtain ⟨d, hd, hda, hle⟩ := h.owned x (hsub.subset hx)
    exact ⟨_, List.mem_map_of_mem hd, (d.addr_decrementAt b.owner).trans hda, by simpa using hle⟩

theorem inv_onRelease {i : Nat} {b : PoolBuffer} (h : Inv p (p.unused ++ p.pendingGc))
    (hb : p.live[i]? = some b) (hs : p.onRelease i b = some p') :
    Inv p' (p'.unused ++ p'.pendingGc) := by
  refine .of_counts (h.counts.onRelease hb hs) ?_
  obtain ⟨xs, ys, hl, ⟨-, rfl⟩ | ⟨-, rfl⟩⟩ := h.counts.onRelease_eq hb hs
  · exact { h.ranges.release hl with }
  · exact h.ranges.release hl

theorem inv_onChunkUnused {j : Nat} {a : Addr} {locked : Bool}
    (h : Inv p (p.unused ++ p.pendingGc)) (hj : p.unused[j]? = some a) :
    Inv (p.onChunkUnused j a locked)
      ((p.onChunkUnused j a locked).unused ++ (p.onChunkUnused j a locked).pendingGc) := by
  refine .of_counts (h.counts.onChunkUnused hj) ?_
  obtain ⟨xs, ys, hu, -⟩ := split_getElem? hj
  have hzero : p.liveIn a = 0 := by
    refine (h.due a (List.mem_append_left _ ?_)).2
    rw [hu]
    exact List.mem_append_right _ List.mem_cons_self
  unfold onChunkUnused
  dsimp only
  cases locked with
  | false => exact { h.ranges with }
  | true =>
    -- the chunk that leaves the active ones has no live buffer
    have hcounts : Counts { p with unused := p.unused.eraseIdx j } [a] :=
      { h.counts with
        dueNodup := List.nodup_singleton a
        due := fun x hx => by
          rw [List.mem_singleton.1 hx]
          refine h.due a (List.mem_append_left _ ?_)
          rw [hu]
          exact List.mem_append_right _ List.mem_cons_self }
    obtain ⟨hl, -, -, hcs, -⟩ := { p with unused := p.unused.eraseIdx j }.moveToFree_live a
    have hmem := fun c => hcounts.mem_active_moveToFree (d := c)
    refine Ranges.keep (p := { p with unused := p.unused.eraseIdx j }) { h.ranges with } hcs hl
      (fun c hm => ((hmem c).1 hm).1) ?_
    rintro c hm ⟨b, hb, hbo⟩
    refine (hmem c).2 ⟨hm, fun hca => ?_⟩
    rw [liveIn, List.countP_eq_zero] at hzero
    exact hzero b hb (by rw [hbo, hca]; exact beq_self_eq_true a)

/-- A request of at most a chunk does not wrap below `2 ^ 31`. -/
theorem Inv.noWrap (h : Inv p due) {c : SendBufferChunk} {size : Nat} (hc : c ∈ p.activeChunks)
    (hs : size ≤ p.chunkSize) (hb : p.chunkSize < 2 ^ 31) : NoWrap p c size := by
  have := h.offset c hc
  exact .inl (by omega)

theorem inv_step {x : Action} (h : Inv p (p.unused ++ p.pendingGc))
    (hs : p.step x = some p') (hQ : p.AvoidsUnused x) : Inv p' (p'.unused ++ p'.pendingGc) := by
  cases x with
  | allocate size fresh =>
    simp only [step] at hs
    split at hs
    · cases hs
    · next hf =>
      cases hs
      obtain ⟨hsize, hb, hlen, hlast⟩ := hQ
      refine inv_allocate h (by omega) hlen (fun c hc => ⟨?_, hlast c hc⟩) hf
      obtain ⟨xs, hxs⟩ := List.getLast?_eq_some_iff.1 hc
      have hca : c ∈ p.flushPendingGc.activeChunks := by
        rw [hxs]; exact List.mem_append_right _ (by simp)
      exact h.noWrap (((inv_flushPendingGc h).2.active c).1 hca).1 hsize hb
  | release i =>
    simp only [step] at hs
    split at hs
    · cases hs
    · next b hb => exact inv_onRelease h hb hs
  | reclaim j locked =>
    simp only [step] at hs
    split at hs
    · cases hs
    · next a ha => cases hs; exact inv_onChunkUnused h ha

/-- **The pool recycles only unused chunks** in every run in which no
`Allocate` opens a buffer in a chunk that a reclaim step is owed to, and no
counter can wrap: live buffers never overlap, and every reset finds no live
buffer. -/
theorem pool_safe (chunkSize maxChunks : Nat) (xs : List Action)
    (hQ : Trace.Steps step AvoidsUnused { chunkSize := chunkSize, maxChunks := maxChunks } xs) :
    Trace.Visits step Safe { chunkSize := chunkSize, maxChunks := maxChunks } xs := by
  refine Trace.visits_of_steps (J := fun p => Inv p (p.unused ++ p.pendingGc))
    (fun p h => ⟨h.disjoint, h.recycled⟩) (fun _ _ _ h hs hQ => inv_step h hs hQ) xs ?_ hQ
  constructor <;> simp [chunks]

/-- The chunk is reclaimed after both its buffers are released, and used again. -/
def reuseRun : List Action :=
  [.allocate 4 0, .allocate 4 1, .release 0, .release 0, .reclaim 0 true, .allocate 8 1]

theorem pool_safe_reuse :
    Trace.Visits step Safe { chunkSize := 16, maxChunks := 256 } reuseRun := by
  refine pool_safe 16 256 reuseRun ?_
  refine fun p hp => ⟨⟨by decide, by decide, by decide, fun c hc => by cases hc⟩, ?_⟩
  cases hp
  refine fun p hp => ⟨⟨by decide, by decide, by decide, fun c hc _ => by cases hc; decide⟩, ?_⟩
  cases hp
  refine fun p hp => ⟨trivial, ?_⟩
  cases hp
  refine fun p hp => ⟨trivial, ?_⟩
  cases hp
  refine fun p hp => ⟨trivial, ?_⟩
  cases hp
  exact fun p hp => ⟨⟨by decide, by decide, by decide, fun c hc => by cases hc⟩, trivial⟩

/-- One thread's release has brought the count of a chunk to zero. Before its
reclaim step another thread opens a buffer in the chunk, and after it a third
buffer, over the second. -/
def lateReclaimRun : List Action :=
  [.allocate 4 0, .release 0, .allocate 4 1, .reclaim 0 true, .allocate 8 1]

theorem reclaim_resets_live_chunk :
    ∃ p, Trace.run step { chunkSize := 16 } lateReclaimRun = some p ∧
      p.recycled = [1] ∧ p.live = [⟨0, 4, 4⟩, ⟨0, 0, 8⟩] ∧ ¬ p.Safe := by
  refine ⟨_, rfl, rfl, rfl, fun h => ?_⟩
  exact absurd (h.2 1 (List.mem_singleton_self _)) (by decide)

end BufferPool

end IouringRuntime
