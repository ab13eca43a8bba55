import Mathlib.Data.List.Nodup
import IouringRuntime.Core.BufferPool

/-!
# The pool's counts

Which chunks the pool has and how many buffers of each are live, whatever the
offsets are. In `Counts p due` the chunks in `due` are those a reclaim step is
still owed to: their counts are at zero, so the reclaim step finds no live
buffer, and each is owed at most one. `openActive_eq_some`,
`acquireChunk_eq_some` and `allocate_cases` say what `Allocate` can do.
-/

namespace IouringRuntime

namespace BufferPool

structure Counts (p : BufferPool) (due : List Addr) : Prop where
  count : p.live.length < 2 ^ 32
  nodup : (p.chunks.map SendBufferChunk.addr).Nodup
  refs : ∀ c ∈ p.chunks, c.refCount = p.liveIn c.addr
  free : ∀ c ∈ p.freeChunks, c.offset = 0
  dueNodup : due.Nodup
  due : ∀ a ∈ due, (∃ c ∈ p.activeChunks, c.addr = a) ∧ p.liveIn a = 0
  owned : ∀ b ∈ p.live, ∃ c ∈ p.activeChunks, c.addr = b.owner
  recycled : ∀ n ∈ p.recycled, n = 0

variable {p p' : BufferPool} {due : List Addr}

theorem liveIn_le (p : BufferPool) (a : Addr) : p.liveIn a ≤ p.live.length :=
  List.countP_le_length

namespace Counts

theorem perm {due' : List Addr} (h : Counts p due) (hp : due.Perm due') : Counts p due' :=
  { h with
    dueNodup := hp.nodup_iff.1 h.dueNodup
    due := fun a ha => h.due a (hp.mem_iff.2 ha) }

/-- Two chunks of the pool at one address are one chunk. -/
theorem eq_of_addr (h : Counts p due) {c d : SendBufferChunk} (hc : c ∈ p.chunks)
    (hd : d ∈ p.chunks) (ha : c.addr = d.addr) : c = d :=
  List.inj_on_of_nodup_map h.nodup hc hd ha

/-- A live buffer is in an active chunk, so its address is not that of a free one. -/
theorem liveIn_free (h : Counts p due) {c : SendBufferChunk} (hc : c ∈ p.freeChunks) :
    p.liveIn c.addr = 0 := by
  rw [liveIn, List.countP_eq_zero]
  intro b hb ho
  rw [beq_iff_eq] at ho
  obtain ⟨d, hd, hda⟩ := h.owned b hb
  have hn := h.nodup
  rw [chunks, List.map_append, List.nodup_append] at hn
  exact hn.2.2 _ (List.mem_map_of_mem hd) _ (List.mem_map_of_mem hc) (hda.trans ho)

end Counts

/-! ## Recycling -/

theorem moveToFree_live (p : BufferPool) (a : Addr) :
    (p.moveToFree a).live = p.live ∧ (p.moveToFree a).unused = p.unused ∧
      (p.moveToFree a).pendingGc = p.pendingGc ∧ (p.moveToFree a).chunkSize = p.chunkSize ∧
      (p.moveToFree a).maxChunks = p.maxChunks := by
  unfold moveToFree
  split <;> exact ⟨rfl, rfl, rfl, rfl, rfl⟩

namespace Counts

/-- The chunk recycled, and the ones left. -/
theorem moveToFree_eq {a : Addr} (h : Counts p (a :: due)) :
    ∃ c xs ys fs, p.activeChunks = xs ++ c :: ys ∧ c.addr = a ∧
      (fs = p.freeChunks ∨ fs = p.freeChunks ++ [c.reset]) ∧
      p.moveToFree a = { p with
        freeChunks := fs
        activeChunks := xs ++ ys
        recycled := p.recycled ++ [p.liveIn a] } := by
  obtain ⟨⟨c, hc, rfl⟩, -⟩ := h.due a List.mem_cons_self
  cases hf : p.activeChunks.find? (·.addr == c.addr) with
  | none =>
    rw [List.find?_eq_none] at hf
    exact absurd (beq_self_eq_true c.addr) (hf c hc)
  | some d =>
    obtain ⟨hp, xs, ys, hs, hx⟩ := List.find?_eq_some_iff_append.1 hf
    have he : p.activeChunks.eraseP (·.addr == c.addr) = xs ++ ys := by
      rw [hs, List.eraseP_append_right _ (by simpa using hx), List.eraseP_cons, hp, cond_true]
    refine ⟨d, xs, ys, _, hs, by simpa using hp, ?_,
      by unfold moveToFree; rw [hf]; dsimp only; rw [he]⟩
    split
    · exact .inr rfl
    · exact .inl rfl

theorem nodup_recycle (h : Counts p due) {c : SendBufferChunk} {xs ys fs : List SendBufferChunk}
    (hs : p.activeChunks = xs ++ c :: ys)
    (hfs : fs = p.freeChunks ∨ fs = p.freeChunks ++ [c.reset]) :
    ((xs ++ ys ++ fs).map SendBufferChunk.addr).Nodup := by
  have hn := h.nodup
  rw [chunks, hs] at hn
  simp only [List.map_append, List.map_cons] at hn ⊢
  rcases hfs with rfl | rfl
  · refine hn.sublist ?_
    exact (List.Sublist.append_left (List.sublist_cons_self _ _) _).append_right _
  · -- the chunk has moved to the end
    refine hn.perm ?_
    simp only [List.map_append, List.map_cons, List.map_nil, List.append_assoc, List.cons_append]
    refine List.Perm.append_left _ ?_
    rw [← List.append_assoc]
    exact (List.perm_append_singleton c.addr _).symm

/-- The active chunks left are those at other addresses. -/
theorem mem_active_moveToFree {a : Addr} (h : Counts p (a :: due)) {d : SendBufferChunk} :
    d ∈ (p.moveToFree a).activeChunks ↔ d ∈ p.activeChunks ∧ d.addr ≠ a := by
  obtain ⟨c, xs, ys, fs, hs, hca, -, he⟩ := h.moveToFree_eq
  have hn : (p.activeChunks.map SendBufferChunk.addr).Nodup := by
    have := h.nodup
    rw [chunks, List.map_append] at this
    exact (List.nodup_append.1 this).1
  rw [hs, List.map_append, List.map_cons] at hn
  have hnot : c.addr ∉ (xs ++ ys).map SendBufferChunk.addr := by
    rw [List.map_append]
    exact (List.nodup_cons.1 (List.nodup_middle.1 hn)).1
  rw [he]
  show d ∈ xs ++ ys ↔ _
  rw [hs]
  constructor
  · intro hd
    refine ⟨?_, fun hda => hnot ?_⟩
    · exact (List.Sublist.append_left (List.sublist_cons_self c ys) xs).subset hd
    · rw [hca, ← hda]
      exact List.mem_map_of_mem hd
  · rintro ⟨hd, hne⟩
    rcases List.mem_append.1 hd with hd | hd
    · exact List.mem_append_left _ hd
    · refine List.mem_append_right _ ((List.mem_cons.1 hd).resolve_left ?_)
      rintro rfl
      exact hne hca

theorem moveToFree {a : Addr} (h : Counts p (a :: due)) : Counts (p.moveToFree a) due := by
  have hmem := fun d => h.mem_active_moveToFree (d := d)
  obtain ⟨c, xs, ys, fs, hs, hca, hfs, he⟩ := h.moveToFree_eq
  have hzero : p.liveIn a = 0 := (h.due a List.mem_cons_self).2
  have hfree : ∀ d ∈ fs, d ∈ p.freeChunks ∨ d = c.reset := fun d hd => by
    rcases hfs with rfl | rfl
    · exact .inl hd
    · exact (List.mem_append.1 hd).imp id List.mem_singleton.1
  rw [he] at hmem ⊢
  refine
    { count := h.count
      nodup := h.nodup_recycle hs hfs
      refs := ?_
      free := ?_
      dueNodup := (List.nodup_cons.1 h.dueNodup).2
      due := ?_
      owned := ?_
      recycled := ?_ }
  · intro d hd
    rcases List.mem_append.1 hd with hd | hd
    · exact h.refs d (List.mem_append_left _ ((hmem d).1 hd).1)
    · rcases hfree d hd with hd | rfl
      · exact h.refs d (List.mem_append_right _ hd)
      · refine h.refs c (List.mem_append_left _ ?_)
        rw [hs]
        exact List.mem_append_right _ List.mem_cons_self
  · intro d hd
    rcases hfree d hd with hd | rfl
    · exact h.free d hd
    · rfl
  · intro b hb
    obtain ⟨⟨d, hd, rfl⟩, hz⟩ := h.due b (List.mem_cons_of_mem _ hb)
    have hne : d.addr ≠ a := fun he => (List.nodup_cons.1 h.dueNodup).1 (he ▸ hb)
    exact ⟨⟨d, (hmem d).2 ⟨hd, hne⟩, rfl⟩, hz⟩
  · intro b hb
    obtain ⟨d, hd, hda⟩ := h.owned b hb
    refine ⟨d, (hmem d).2 ⟨hd, fun he => ?_⟩, hda⟩
    rw [liveIn, List.countP_eq_zero] at hzero
    exact hzero b hb (by rw [← hda, he]; exact beq_self_eq_true a)
  · intro n hn
    rcases List.mem_append.1 hn with hn | hn
    · exact h.recycled n hn
    · rw [List.mem_singleton.1 hn]; exact hzero

/-- What recycling a list of chunks leaves. -/
theorem foldl_moveToFree (l : List Addr) :
    ∀ {p : BufferPool}, Counts p (l ++ due) → Counts (l.foldl BufferPool.moveToFree p) due ∧
      (∀ d, d ∈ (l.foldl BufferPool.moveToFree p).activeChunks ↔
        d ∈ p.activeChunks ∧ d.addr ∉ l) ∧
      (l.foldl BufferPool.moveToFree p).live = p.live ∧
      (l.foldl BufferPool.moveToFree p).unused = p.unused ∧
      (l.foldl BufferPool.moveToFree p).pendingGc = p.pendingGc ∧
      (l.foldl BufferPool.moveToFree p).chunkSize = p.chunkSize ∧
      (l.foldl BufferPool.moveToFree p).maxChunks = p.maxChunks := by
  induction l with
  | nil => intro p h; exact ⟨h, fun d => by simp, rfl, rfl, rfl, rfl, rfl⟩
  | cons a l ih =>
    intro p h
    obtain ⟨h1, hmem, h2, h3, h4, h5, h6⟩ := ih h.moveToFree
    obtain ⟨g2, g3, g4, g5, g6⟩ := p.moveToFree_live a
    refine ⟨h1, fun d => ?_, h2.trans g2, h3.trans g3, h4.trans g4, h5.trans g5, h6.trans g6⟩
    rw [List.foldl_cons, hmem d, h.mem_active_moveToFree, List.mem_cons, not_or, and_assoc]

end Counts

/-- What a flush leaves: everything that was owed through `pending_gc_` is done. -/
structure Flushed (p q : BufferPool) : Prop where
  active : ∀ d, d ∈ q.activeChunks ↔ d ∈ p.activeChunks ∧ d.addr ∉ p.pendingGc
  live : q.live = p.live
  unused : q.unused = p.unused
  pendingGc : q.pendingGc = []
  chunkSize : q.chunkSize = p.chunkSize
  maxChunks : q.maxChunks = p.maxChunks

theorem Counts.flushPendingGc (h : Counts p (p.unused ++ p.pendingGc)) :
    Counts p.flushPendingGc p.flushPendingGc.unused ∧ Flushed p p.flushPendingGc := by
  have h0 : Counts { p with pendingGc := [] } (p.pendingGc ++ p.unused) :=
    { h.perm List.perm_append_comm with }
  obtain ⟨h1, hmem, h2, h3, h4, h5, h6⟩ := h0.foldl_moveToFree p.pendingGc
  exact ⟨by rw [BufferPool.flushPendingGc, h3]; exact h1, hmem, h2, h3, h4, h5, h6⟩

/-! ## Opening a buffer -/

/-- A buffer is opened in the last active chunk. -/
def openLast (p : BufferPool) (xs : List SendBufferChunk) (c : SendBufferChunk) (size : Nat) :
    BufferPool :=
  { p with
    activeChunks := xs ++ [⟨c.addr, u32 (c.offset + size), u32 (c.refCount + 1)⟩]
    live := p.live ++ [⟨c.addr, c.offset, size⟩] }

theorem openActive_eq_some {size : Nat} (h : p.openActive size = some p') :
    ∃ xs c, p.activeChunks = xs ++ [c] ∧ u32 (c.offset + size) ≤ p.chunkSize ∧
      p' = p.openLast xs c size := by
  unfold openActive at h
  split at h
  case h_1 => cases h
  case h_2 c hlast =>
    obtain ⟨xs, hxs⟩ := List.getLast?_eq_some_iff.1 hlast
    unfold SendBufferChunk.openBuffer at h
    split at h
    case h_1 => cases h
    case h_2 r hr =>
      split at hr
      · cases hr
      · next hfit =>
        cases hr
        cases h
        refine ⟨xs, c, hxs, Nat.not_lt.1 hfit, ?_⟩
        rw [hxs, List.dropLast_concat]
        rfl

theorem openActive_concat (p : BufferPool) {xs : List SendBufferChunk} {c : SendBufferChunk}
    {size : Nat} (hxs : p.activeChunks = xs ++ [c]) (hfit : u32 (c.offset + size) ≤ p.chunkSize) :
    p.openActive size = some (p.openLast xs c size) := by
  unfold openActive
  rw [hxs, List.getLast?_concat, List.dropLast_concat]
  simp only [SendBufferChunk.openBuffer, if_neg (Nat.not_lt.2 hfit)]
  rfl

theorem acquireChunk_eq_some {fresh : Addr} {c : SendBufferChunk}
    (h : p.acquireChunk fresh = some (c, p')) :
    (∃ fs, p.freeChunks = fs ++ [c] ∧ p' = { p with freeChunks := fs }) ∨
      (p.freeChunks = [] ∧ p.activeChunks.length < p.maxChunks ∧ c = ⟨fresh, 0, 0⟩ ∧ p' = p) := by
  unfold acquireChunk at h
  split at h
  case h_1 d hlast =>
    obtain ⟨fs, hfs⟩ := List.getLast?_eq_some_iff.1 hlast
    cases h
    exact .inl ⟨fs, hfs, by rw [hfs, List.dropLast_concat]⟩
  case h_2 hnone =>
    split at h
    · cases h
    · next hlt =>
      cases h
      exact .inr ⟨List.getLast?_eq_none_iff.1 hnone, Nat.not_le.1 hlt, rfl, rfl⟩

theorem acquireChunk_eq_none {fresh : Addr} (h : p.acquireChunk fresh = none) :
    p.freeChunks = [] ∧ p.maxChunks ≤ p.activeChunks.length := by
  unfold acquireChunk at h
  split at h
  case h_1 => cases h
  case h_2 hnone =>
    split at h
    · next hle => exact ⟨List.getLast?_eq_none_iff.1 hnone, hle⟩
    · cases h

/-- What `Allocate` does once `pending_gc_` is flushed. -/
inductive Allocates (q : BufferPool) (size : Nat) (fresh : Addr) : BufferPool → Prop where
  | opened {xs : List SendBufferChunk} {c : SendBufferChunk} : q.activeChunks = xs ++ [c] →
      u32 (c.offset + size) ≤ q.chunkSize → Allocates q size fresh (q.openLast xs c size)
  | exhausted : q.openActive size = none → q.acquireChunk fresh = none → Allocates q size fresh q
  | acquired {c : SendBufferChunk} {r : BufferPool} : q.openActive size = none →
      q.acquireChunk fresh = some (c, r) → u32 (c.offset + size) ≤ r.chunkSize →
      Allocates q size fresh ((r.pushActive c).openLast r.activeChunks c size)
  | refused {c : SendBufferChunk} {r : BufferPool} : q.openActive size = none →
      q.acquireChunk fresh = some (c, r) → r.chunkSize < u32 (c.offset + size) →
      Allocates q size fresh (r.pushActive c)

theorem allocate_cases (p : BufferPool) (size : Nat) (fresh : Addr) :
    Allocates p.flushPendingGc size fresh (p.allocate size fresh) := by
  unfold allocate
  generalize p.flushPendingGc = q
  dsimp only
  cases ho : q.openActive size with
  | some p' =>
    obtain ⟨xs, c, hxs, hfit, rfl⟩ := openActive_eq_some ho
    exact .opened hxs hfit
  | none =>
    dsimp only
    cases ha : q.acquireChunk fresh with
    | none => exact .exhausted ho ha
    | some r =>
      obtain ⟨c, r⟩ := r
      dsimp only
      by_cases hfit : u32 (c.offset + size) ≤ r.chunkSize
      · rw [(r.pushActive c).openActive_concat rfl hfit]
        exact .acquired ho ha hfit
      · have hno : (r.pushActive c).openActive size = none := by
          cases ho' : (r.pushActive c).openActive size with
          | none => rfl
          | some p' =>
            obtain ⟨xs, d, hxs, hfit', -⟩ := openActive_eq_some ho'
            obtain ⟨-, hcd⟩ := List.append_inj' hxs rfl
            cases hcd
            exact absurd hfit' hfit
        rw [hno]
        exact .refused ho ha (Nat.not_le.1 hfit)

theorem liveIn_append (p : BufferPool) (b : PoolBuffer) (a : Addr) :
    { p with live := p.live ++ [b] }.liveIn a = p.liveIn a + if b.owner = a then 1 else 0 := by
  simp [liveIn, List.countP_append, List.countP_cons]

theorem liveIn_openLast (p : BufferPool) (xs : List SendBufferChunk) (c : SendBufferChunk)
    (size : Nat) (a : Addr) :
    (p.openLast xs c size).liveIn a = p.liveIn a + if c.addr = a then 1 else 0 :=
  p.liveIn_append ⟨c.addr, c.offset, size⟩ a

namespace Counts

/-- The chunks before the last active one, and the free ones, are at other addresses. -/
theorem addr_ne_last (h : Counts p due) {c : SendBufferChunk} {xs : List SendBufferChunk}
    (hxs : p.activeChunks = xs ++ [c]) : ∀ d ∈ xs ++ p.freeChunks, d.addr ≠ c.addr := by
  intro d hd he
  have hn := h.nodup
  rw [chunks, hxs, List.append_assoc, List.map_append, List.map_append] at hn
  rw [List.perm_append_comm_assoc .. |>.nodup_iff] at hn
  refine (List.nodup_cons.1 hn).1 ?_
  rw [← List.map_append, ← he]
  exact List.mem_map_of_mem hd

theorem refCount_lt (h : Counts p due) {c : SendBufferChunk} (hc : c ∈ p.chunks)
    (hlen : p.live.length + 1 < 2 ^ 32) : u32 (c.refCount + 1) = c.refCount + 1 := by
  have := h.refs c hc
  have := p.liveIn_le c.addr
  exact Nat.mod_eq_of_lt (by omega)

/-- A buffer is opened in a chunk that no reclaim step is owed. -/
theorem openLast (h : Counts p due) {c : SendBufferChunk} {xs : List SendBufferChunk} {size : Nat}
    (hxs : p.activeChunks = xs ++ [c]) (hlen : p.live.length + 1 < 2 ^ 32) (hnd : c.addr ∉ due) :
    Counts (p.openLast xs c size) due := by
  have hca : c ∈ p.activeChunks := by rw [hxs]; exact List.mem_append_right _ (by simp)
  have hkeep : ∀ d ∈ p.activeChunks, ∃ d' ∈ (p.openLast xs c size).activeChunks,
      d'.addr = d.addr := by
    intro d hd
    rw [hxs] at hd
    rcases List.mem_append.1 hd with hd | hd
    · exact ⟨d, List.mem_append_left _ hd, rfl⟩
    · rw [List.mem_singleton.1 hd]
      exact ⟨_, List.mem_append_right _ (List.mem_singleton_self _), rfl⟩
  refine
    { count := by rw [BufferPool.openLast, List.length_append]; exact hlen
      nodup := ?_
      refs := ?_
      free := h.free
      dueNodup := h.dueNodup
      due := ?_
      owned := ?_
      recycled := h.recycled }
  · have hn := h.nodup
    rw [chunks, hxs] at hn
    simpa [chunks, BufferPool.openLast] using hn
  · intro d hd
    rw [liveIn_openLast]
    simp only [chunks, BufferPool.openLast, List.append_assoc, List.mem_append,
      List.mem_singleton] at hd
    have hcases : d ∈ xs ++ p.freeChunks ∨
        d = ⟨c.addr, u32 (c.offset + size), u32 (c.refCount + 1)⟩ := by
      rw [List.mem_append]; tauto
    rcases hcases with hd | rfl
    · rw [if_neg (Ne.symm (h.addr_ne_last hxs d hd)), Nat.add_zero]
      refine h.refs d ?_
      rw [chunks, hxs]
      exact List.Sublist.subset (List.Sublist.append_right (List.sublist_append_left xs [c]) _) hd
    · rw [if_pos rfl]
      show u32 (c.refCount + 1) = _
      rw [h.refCount_lt (List.mem_append_left _ hca) hlen,
        h.refs c (List.mem_append_left _ hca)]
  · intro a ha
    obtain ⟨⟨d, hd, rfl⟩, hz⟩ := h.due a ha
    have hne : c.addr ≠ d.addr := fun he => hnd (he ▸ ha)
    rw [liveIn_openLast, if_neg hne]
    exact ⟨hkeep d hd, hz⟩
  · intro b hbm
    rcases List.mem_append.1 hbm with hbm | hbm
    · obtain ⟨d, hd, hda⟩ := h.owned b hbm
      obtain ⟨d', hd', hda'⟩ := hkeep d hd
      exact ⟨d', hd', hda'.trans hda⟩
    · rw [List.mem_singleton.1 hbm]
      exact ⟨_, List.mem_append_right _ (List.mem_singleton_self _), rfl⟩

/-- An unused chunk becomes the last active one. -/
theorem pushActive {c : SendBufferChunk} {fs : List SendBufferChunk} (h : Counts p due)
    (hn : ((p.activeChunks ++ [c] ++ fs).map SendBufferChunk.addr).Nodup)
    (hfs : ∀ d ∈ fs, d ∈ p.freeChunks) (hr : c.refCount = p.liveIn c.addr) :
    Counts ({ p with freeChunks := fs }.pushActive c) due where
  count := h.count
  nodup := hn
  refs := by
    intro d hd
    rcases List.mem_append.1 hd with hd | hd
    · rcases List.mem_append.1 hd with hd | hd
      · exact h.refs d (List.mem_append_left _ hd)
      · rw [List.mem_singleton.1 hd]; exact hr
    · exact h.refs d (List.mem_append_right _ (hfs d hd))
  free := fun d hd => h.free d (hfs d hd)
  dueNodup := h.dueNodup
  due := by
    intro a ha
    obtain ⟨⟨d, hd, hda⟩, hz⟩ := h.due a ha
    exact ⟨⟨d, List.mem_append_left _ hd, hda⟩, hz⟩
  owned := by
    intro b hb
    obtain ⟨d, hd, hda⟩ := h.owned b hb
    exact ⟨d, List.mem_append_left _ hd, hda⟩
  recycled := h.recycled

end Counts

/-- What `AcquireChunk` gives: an empty chunk at an address of its own. -/
structure Acquired (p : BufferPool) (due : List Addr) (c : SendBufferChunk) (r : BufferPool) :
    Prop where
  counts : Counts (r.pushActive c) due
  offset : c.offset = 0
  notDue : c.addr ∉ due
  active : r.activeChunks = p.activeChunks
  chunkSize : r.chunkSize = p.chunkSize
  maxChunks : r.maxChunks = p.maxChunks
  live : r.live = p.live
  unused : r.unused = p.unused
  pendingGc : r.pendingGc = p.pendingGc

/-- A chunk is taken from the end of the free list. -/
theorem Counts.acquireFree (h : Counts p due) {c : SendBufferChunk} {fs : List SendBufferChunk}
    (hfs : p.freeChunks = fs ++ [c]) : Acquired p due c { p with freeChunks := fs } := by
  have hcf : c ∈ p.freeChunks := by rw [hfs]; exact List.mem_append_right _ (by simp)
  have hperm : (p.activeChunks ++ [c] ++ fs).Perm p.chunks := by
    rw [chunks, hfs, List.append_assoc]
    exact List.Perm.append_left _ List.perm_append_comm
  refine ⟨?_, h.free c hcf, fun hm => ?_, rfl, rfl, rfl, rfl, rfl, rfl⟩
  · exact h.pushActive ((hperm.map SendBufferChunk.addr).nodup_iff.2 h.nodup)
      (fun d hd => by rw [hfs]; exact List.mem_append_left _ hd)
      (h.refs c (List.mem_append_right _ hcf))
  · obtain ⟨⟨d, hd, hda⟩, -⟩ := h.due c.addr hm
    have hn := h.nodup
    rw [chunks, List.map_append, List.nodup_append] at hn
    exact hn.2.2 _ (List.mem_map_of_mem hd) _ (List.mem_map_of_mem hcf) hda

/-- A new chunk. -/
theorem Counts.acquireNew (h : Counts p due) {fresh : Addr}
    (hf : fresh ∉ p.chunks.map SendBufferChunk.addr) (hnone : p.freeChunks = []) :
    Acquired p due ⟨fresh, 0, 0⟩ p := by
  have hact : ∀ d ∈ p.activeChunks, d.addr ≠ fresh := fun d hd he =>
    hf (he ▸ List.mem_map_of_mem (List.mem_append_left _ hd))
  have hzero : p.liveIn fresh = 0 := by
    rw [liveIn, List.countP_eq_zero]
    intro b hb ho
    obtain ⟨d, hd, hda⟩ := h.owned b hb
    rw [beq_iff_eq] at ho
    exact hact d hd (hda.trans ho)
  have hn : ((p.activeChunks ++ [SendBufferChunk.mk fresh 0 0] ++ []).map
      SendBufferChunk.addr).Nodup := by
    have hn := h.nodup
    rw [chunks, hnone, List.append_nil] at hn
    rw [List.append_nil, List.map_append, List.nodup_append]
    refine ⟨hn, List.nodup_singleton _, fun a ha b hb => ?_⟩
    obtain ⟨d, hd, rfl⟩ := List.mem_map.1 ha
    rw [List.map_singleton, List.mem_singleton] at hb
    rw [hb]
    exact hact d hd
  refine ⟨?_, rfl, fun hm => ?_, rfl, rfl, rfl, rfl, rfl, rfl⟩
  · have hp : p = { p with freeChunks := [] } := by rw [← hnone]
    rw [hp]
    exact h.pushActive hn (fun d hd => absurd hd List.not_mem_nil) hzero.symm
  · obtain ⟨⟨d, hd, hda⟩, -⟩ := h.due fresh hm
    exact hact d hd hda

theorem Counts.acquireChunk {fresh : Addr} {c : SendBufferChunk} (h : Counts p due)
    (hf : fresh ∉ p.chunks.map SendBufferChunk.addr) (ha : p.acquireChunk fresh = some (c, p')) :
    Acquired p due c p' := by
  rcases acquireChunk_eq_some ha with ⟨fs, hfs, rfl⟩ | ⟨hnone, -, rfl, rfl⟩
  · exact h.acquireFree hfs
  · exact h.acquireNew hf hnone

/-! ## Releasing and reclaiming -/

theorem split_getElem? {α : Type} {l : List α} {i : Nat} {x : α} (h : l[i]? = some x) :
    ∃ xs ys, l = xs ++ x :: ys ∧ l.eraseIdx i = xs ++ ys := by
  obtain ⟨hi, rfl⟩ := List.getElem?_eq_some_iff.1 h
  refine ⟨l.take i, l.drop (i + 1), ?_, List.eraseIdx_eq_take_drop_succ l i⟩
  rw [List.getElem_cons_drop, List.take_append_drop]

theorem liveIn_split {b : PoolBuffer} {xs ys : List PoolBuffer} (hl : p.live = xs ++ b :: ys)
    (a : Addr) :
    p.liveIn a = (xs ++ ys).countP (·.owner == a) + if b.owner = a then 1 else 0 := by
  rw [liveIn, hl]
  simp only [List.countP_append, List.countP_cons, beq_iff_eq]
  omega

/-- The buffer is gone and its chunk's count is one less. -/
def decremented (p : BufferPool) (b : PoolBuffer) (live : List PoolBuffer) : BufferPool :=
  { p with
    activeChunks := p.activeChunks.map (SendBufferChunk.decrementAt b.owner)
    freeChunks := p.freeChunks.map (SendBufferChunk.decrementAt b.owner)
    live := live }

namespace Counts

/-- The decrement keeps the count of the other chunks, and takes one from the owner's. -/
theorem refs_decrementAt (h : Counts p due) {b : PoolBuffer} {xs ys : List PoolBuffer}
    (hl : p.live = xs ++ b :: ys) {d : SendBufferChunk} (hd : d ∈ p.chunks) :
    (d.decrementAt b.owner).refCount = (xs ++ ys).countP (·.owner == d.addr) := by
  have hr := h.refs d hd
  have hcount := liveIn_split hl d.addr
  unfold SendBufferChunk.decrementAt
  split
  · next hda =>
    rw [if_pos hda.symm] at hcount
    show (if d.refCount = 0 then 2 ^ 32 - 1 else d.refCount - 1) = _
    rw [if_neg (by omega)]
    omega
  · next hda =>
    rw [if_neg (Ne.symm hda)] at hcount
    omega

theorem release (h : Counts p due) {b : PoolBuffer} {xs ys : List PoolBuffer}
    (hl : p.live = xs ++ b :: ys) : Counts (p.decremented b (xs ++ ys)) due := by
  have hmap (cs : List SendBufferChunk) :
      (cs.map (SendBufferChunk.decrementAt b.owner)).map SendBufferChunk.addr =
        cs.map SendBufferChunk.addr := by
    rw [List.map_map]
    exact List.map_congr_left fun d _ => d.addr_decrementAt b.owner
  have hsub : (xs ++ ys).Sublist p.live := by
    rw [hl]
    exact List.Sublist.append_left (List.sublist_cons_self _ _) _
  refine
    { count := Nat.lt_of_le_of_lt hsub.length_le h.count
      nodup := ?_
      refs := ?_
      free := ?_
      dueNodup := h.dueNodup
      due := ?_
      owned := ?_
      recycled := h.recycled }
  · have hn := h.nodup
    rw [chunks, List.map_append] at hn
    rw [chunks, List.map_append, decremented, hmap, hmap]
    exact hn
  · intro d' hd'
    rw [chunks, decremented, ← List.map_append] at hd'
    obtain ⟨d, hd, rfl⟩ := List.mem_map.1 hd'
    rw [SendBufferChunk.addr_decrementAt]
    exact h.refs_decrementAt hl hd
  · intro d' hd'
    obtain ⟨d, hd, rfl⟩ := List.mem_map.1 hd'
    rw [SendBufferChunk.offset_decrementAt]
    exact h.free d hd
  · intro a ha
    obtain ⟨⟨d, hd, hda⟩, hz⟩ := h.due a ha
    refine ⟨⟨_, List.mem_map_of_mem hd, (d.addr_decrementAt b.owner).trans hda⟩, ?_⟩
    have hcount := liveIn_split hl a
    show (xs ++ ys).countP (·.owner == a) = 0
    omega
  · intro x hx
    obtain ⟨d, hd, hda⟩ := h.owned x (hsub.subset hx)
    exact ⟨_, List.mem_map_of_mem hd, (d.addr_decrementAt b.owner).trans hda⟩

/-- The chunk whose last buffer is released is owed a reclaim step, and was not before. -/
theorem release_last (h : Counts p due) {b : PoolBuffer} {xs ys : List PoolBuffer}
    (hl : p.live = xs ++ b :: ys) (hone : p.liveIn b.owner = 1) :
    Counts (p.decremented b (xs ++ ys)) (b.owner :: due) := by
  have hbase := h.release hl
  have hnot : b.owner ∉ due := fun hm => by
    have := (h.due b.owner hm).2
    omega
  refine { hbase with dueNodup := List.nodup_cons.2 ⟨hnot, h.dueNodup⟩, due := ?_ }
  intro a ha
  rcases List.mem_cons.1 ha with rfl | ha
  · obtain ⟨d, hd, hda⟩ :=
      h.owned b (by rw [hl]; exact List.mem_append_right _ List.mem_cons_self)
    refine ⟨⟨_, List.mem_map_of_mem hd, (d.addr_decrementAt b.owner).trans hda⟩, ?_⟩
    have hcount := liveIn_split hl b.owner
    rw [if_pos rfl] at hcount
    show (xs ++ ys).countP (·.owner == b.owner) = 0
    omega
  · exact hbase.due a ha

end Counts

/-- What a release does: the thread that brings a count to zero owes a reclaim step. -/
theorem Counts.onRelease_eq {i : Nat} {b : PoolBuffer} (h : Counts p due)
    (hb : p.live[i]? = some b) (hs : p.onRelease i b = some p') :
    ∃ xs ys, p.live = xs ++ b :: ys ∧
      ((p.liveIn b.owner = 1 ∧
          p' = { p.decremented b (xs ++ ys) with unused := p.unused ++ [b.owner] }) ∨
        (p.liveIn b.owner ≠ 1 ∧ p' = p.decremented b (xs ++ ys))) := by
  obtain ⟨xs, ys, hl, he⟩ := split_getElem? hb
  refine ⟨xs, ys, hl, ?_⟩
  unfold onRelease at hs
  split at hs
  case h_1 => cases hs
  case h_2 c hc =>
    have hca : c.addr = b.owner := by simpa using List.find?_some hc
    have hrc : c.refCount = p.liveIn b.owner := hca ▸ h.refs c (List.mem_of_find?_eq_some hc)
    cases hs
    rw [he, hrc]
    split
    · next h1 => exact .inl ⟨h1, rfl⟩
    · next h1 => exact .inr ⟨h1, rfl⟩

theorem Counts.onRelease {i : Nat} {b : PoolBuffer} (h : Counts p (p.unused ++ p.pendingGc))
    (hb : p.live[i]? = some b) (hs : p.onRelease i b = some p') :
    Counts p' (p'.unused ++ p'.pendingGc) := by
  obtain ⟨xs, ys, hl, ⟨h1, rfl⟩ | ⟨-, rfl⟩⟩ := h.onRelease_eq hb hs
  · have hdue := h.release_last hl h1
    refine Counts.perm { hdue with } ?_
    show (b.owner :: (p.unused ++ p.pendingGc)).Perm (p.unused ++ [b.owner] ++ p.pendingGc)
    rw [List.append_assoc]
    exact List.perm_middle.symm
  · exact h.release hl

theorem Counts.onChunkUnused {j : Nat} {a : Addr} {locked : Bool}
    (h : Counts p (p.unused ++ p.pendingGc)) (hj : p.unused[j]? = some a) :
    Counts (p.onChunkUnused j a locked)
      ((p.onChunkUnused j a locked).unused ++ (p.onChunkUnused j a locked).pendingGc) := by
  obtain ⟨xs, ys, hu, he⟩ := split_getElem? hj
  rw [hu] at h
  unfold BufferPool.onChunkUnused
  dsimp only
  cases locked with
  | true =>
    obtain ⟨-, h2, h3, -⟩ := { p with unused := p.unused.eraseIdx j }.moveToFree_live a
    rw [if_pos rfl, h2, h3]
    refine Counts.moveToFree ?_
    have hp : Counts { p with unused := p.unused.eraseIdx j } (xs ++ a :: ys ++ p.pendingGc) :=
      { h with }
    refine hp.perm ?_
    show (xs ++ a :: ys ++ p.pendingGc).Perm (a :: (p.unused.eraseIdx j ++ p.pendingGc))
    rw [he, List.append_assoc, List.cons_append, List.append_assoc]
    exact List.perm_middle
  | false =>
    rw [if_neg (by simp)]
    have hp : Counts { p with unused := p.unused.eraseIdx j, pendingGc := p.pendingGc ++ [a] }
      (xs ++ a :: ys ++ p.pendingGc) := { h with }
    refine hp.perm ?_
    show (xs ++ a :: ys ++ p.pendingGc).Perm (p.unused.eraseIdx j ++ (p.pendingGc ++ [a]))
    rw [he, List.append_assoc, List.cons_append, ← List.append_assoc (xs ++ ys)]
    refine List.perm_middle.trans ?_
    rw [← List.append_assoc]
    exact (List.perm_append_singleton a _).symm

end BufferPool

end IouringRuntime
