import Mathlib.Algebra.Group.Action.Defs
import Mathlib.Algebra.Order.BigOperators.Group.List
import Mathlib.Algebra.Order.Group.Nat
import IouringRuntime.Core.SendQueue
import IouringRuntime.Streaming.BoundedQueue

/-!
# The accounts of the send queue

`SendQueue` over any sequence of calls: it is a bounded queue of buffers
(`refines`), its byte count is that of the buffers pending, its peaks are the
greatest values reached, and the registration flag says whether a push has been
accepted in the current send cycle (`registered_iff`). `sendQueue_accounting` puts
them together.
-/

namespace IouringRuntime

namespace SendQueue

/-- The two ways to drain differ only in the queue they find empty. -/
theorem Counted.drainInto_eq {q : SendQueue} (h : q.Counted) (n : Nat) :
    q.drainInto n = q.drain n := by
  unfold SendQueue.drainInto drain
  split
  · next hnil =>
    have hp : q.pending = [] := List.isEmpty_iff.1 hnil
    have hb : q.pendingBytes = 0 := by rw [h, hp]; rfl
    rw [if_pos (.inr (by rw [hp]; exact Nat.zero_le n))]
    obtain ⟨pending, registered, maxPending, pendingBytes, _⟩ := q
    obtain rfl : pending = [] := hp
    obtain rfl : pendingBytes = 0 := hb
    rfl
  · rfl

/-! ## The queue over a sequence of calls -/

inductive Op where
  | push (buf : SendBuffer)
  | drain (maxCount : Nat)
  | drainInto (maxCount : Nat)
  | markSent
  deriving DecidableEq, Repr

def step (q : SendQueue) : Op → SendQueue
  | .push buf => (q.push buf).1
  | .drain maxCount => (q.drain maxCount).1
  | .drainInto maxCount => (q.drainInto maxCount).1
  | .markSent => q.markSent

/-- The queue after the calls made since its construction. -/
def after (maxPending : Nat) (calls : List Op) : SendQueue := calls.foldl step { maxPending }

/-- The buffers that a call accepts. -/
def accepted (q : SendQueue) : Op → List SendBuffer
  | .push buf => if (q.push buf).2.overflowed then [] else [buf]
  | _ => []

/-- The buffers that a call drains. -/
def drained (q : SendQueue) : Op → List SendBuffer
  | .drain maxCount => (q.drain maxCount).2
  | .drainInto maxCount => (q.drainInto maxCount).2
  | _ => []

/-- The same call on a queue of buffers. -/
def Op.onQueue : Op → BoundedQueue.Op SendBuffer
  | .push buf => .offer [buf]
  | .drain maxCount | .drainInto maxCount => if maxCount = 0 then .clear else .take maxCount
  | .markSent => .idle

structure Represents (q : SendQueue) (a : BoundedQueue SendBuffer) : Prop where
  counted : q.Counted
  items : q.pending = a.items
  bound : q.maxPending = a.bound

/-- No push has been accepted since the construction, or since a `MarkSent` that
found the queue empty. -/
def Idle (maxPending : Nat) (calls : List Op) : Prop :=
  ∃ before since, calls = before ++ since ∧
    (before = [] ∨ ∃ earlier, before = earlier ++ [.markSent] ∧
      (after maxPending earlier).pending = []) ∧
    Trace.collect (Trace.total step) accepted (after maxPending before) since = []

variable {q : SendQueue} {a : BoundedQueue SendBuffer} {maxPending : Nat} {calls : List Op}

theorem after_snoc (maxPending : Nat) (calls : List Op) (op : Op) :
    after maxPending (calls ++ [op]) = (after maxPending calls).step op := by
  rw [after, List.foldl_append]
  rfl

/-! ### Contents -/

theorem overflowed_iff (q : SendQueue) (buf : SendBuffer) :
    (q.push buf).2.overflowed = true ↔ q.maxPending ≤ q.pending.length := by
  unfold push
  split
  · next h => exact ⟨fun _ => h, fun _ => rfl⟩
  · next h => exact ⟨fun h' => (Bool.false_ne_true h').elim, fun h' => absurd h' h⟩

theorem push_of_overflowed {buf : SendBuffer} (h : (q.push buf).2.overflowed = true) :
    (q.push buf).1 = { q with overflowCount := q.overflowCount + 1 } := by
  rw [push, if_pos ((overflowed_iff q buf).1 h)]

theorem drain_all {n : Nat} (h : n = 0 ∨ q.pending.length ≤ n) :
    (q.drain n).2 = q.pending ∧ (q.drain n).1.pending = [] := by
  rw [drain, if_pos h]
  exact ⟨rfl, rfl⟩

theorem drain_some {n : Nat} (h0 : n ≠ 0) (h : n < q.pending.length) :
    (q.drain n).2 = q.pending.take n ∧ (q.drain n).1.pending = q.pending.drop n := by
  rw [drain, if_neg (by omega)]
  exact ⟨rfl, rfl⟩

theorem drain_onQueue (h : q.pending = a.items) (n : Nat) :
    (q.drain n).2 = a.outs (if n = 0 then .clear else .take n) ∧
      (q.drain n).1.pending = (a.step (if n = 0 then .clear else .take n)).items := by
  by_cases h0 : n = 0
  · rw [if_pos h0]
    obtain ⟨hout, hleft⟩ := drain_all (q := q) (.inl h0)
    exact ⟨hout.trans h, hleft⟩
  · rw [if_neg h0]
    show _ = a.items.take n ∧ _ = a.items.drop n
    rw [← h]
    by_cases hn : n < q.pending.length
    · exact drain_some h0 hn
    · obtain ⟨hout, hleft⟩ := drain_all (q := q) (.inr (not_lt.1 hn))
      rw [hout, hleft, List.take_of_length_le (not_lt.1 hn), List.drop_of_length_le (not_lt.1 hn)]
      exact ⟨rfl, rfl⟩

/-- What a call can do to the contents and the statistics. -/
inductive Effect (q : SendQueue) (op : Op) (q' : SendQueue) : Prop where
  | grows (buf : SendBuffer) (hop : op = .push buf) (hmax : q'.maxPending = q.maxPending)
      (hp : q'.pending = q.pending ++ [buf]) (hb : q'.pendingBytes = q.pendingBytes + buf.size)
      (hdepth : q'.peakDepth = max q.peakDepth q'.pending.length)
      (hbytes : q'.peakPendingBytes = max q.peakPendingBytes q'.pendingBytes)
  | shrinks (hmax : q'.maxPending = q.maxPending) (hp : q'.pending <:+ q.pending)
      (hb : q'.pendingBytes ≤ q.pendingBytes) (hdepth : q'.peakDepth = q.peakDepth)
      (hbytes : q'.peakPendingBytes = q.peakPendingBytes)

theorem ite_lt_eq_max (m n : Nat) : (if m < n then n else m) = max m n := by
  rw [max_def]
  split <;> split <;> omega

theorem effect_push (q : SendQueue) (buf : SendBuffer) :
    Effect q (.push buf) (q.push buf).1 := by
  unfold push
  split
  · exact .shrinks rfl (List.suffix_refl _) (Nat.le_refl _) rfl rfl
  · exact .grows buf rfl rfl rfl rfl (ite_lt_eq_max _ _) (ite_lt_eq_max _ _)

theorem effect_drain (q : SendQueue) (op : Op) (n : Nat) : Effect q op (q.drain n).1 := by
  unfold drain
  split
  · exact .shrinks rfl (List.nil_suffix) (Nat.zero_le _) rfl rfl
  · exact .shrinks rfl (List.drop_suffix _ _) (Nat.sub_le _ _) rfl rfl

theorem effect_drainInto (q : SendQueue) (op : Op) (n : Nat) : Effect q op (q.drainInto n).1 := by
  unfold drainInto
  split
  · exact .shrinks rfl (List.suffix_refl _) (Nat.le_refl _) rfl rfl
  · exact effect_drain q op n

theorem effect_step (q : SendQueue) (op : Op) : Effect q op (q.step op) := by
  cases op with
  | push buf => exact effect_push q buf
  | drain n => exact effect_drain q _ n
  | drainInto n => exact effect_drainInto q _ n
  | markSent =>
    show Effect q _ q.markSent
    unfold markSent
    split <;> exact .shrinks rfl (List.suffix_refl _) (Nat.le_refl _) rfl rfl

theorem maxPending_step (q : SendQueue) (op : Op) : (q.step op).maxPending = q.maxPending := by
  cases effect_step q op <;> assumption

theorem Counted.step (h : q.Counted) (op : Op) : (q.step op).Counted := by
  cases op with
  | push buf => exact h.push buf
  | drain n =>
    show (q.drain n).1.Counted
    rw [← h.drainInto_eq]
    exact h.drainInto n
  | drainInto n => exact h.drainInto n
  | markSent => exact h.markSent

theorem Represents.fits_iff (h : q.Represents a) (buf : SendBuffer) :
    a.Fits [buf] ↔ (q.push buf).2.overflowed = false := by
  rw [← Bool.not_eq_true, overflowed_iff, h.items, h.bound, not_le]
  rfl

theorem refines :
    BoundedQueue.Refines (Trace.total step) Op.onQueue accepted drained Represents where
  keeps := by
    intro q q' a op h hs
    obtain rfl := Option.some.inj hs
    refine ⟨h.counted.step op, ?_, by rw [maxPending_step, BoundedQueue.bound_step, h.bound]⟩
    cases op with
    | push buf =>
      rcases push_cases q buf with ⟨hov, hp, -⟩ | ⟨hov, -, hp, -⟩
      · have hfits : ¬ a.Fits [buf] := fun hf => by
          rw [(h.fits_iff buf).1 hf] at hov
          cases hov
        exact hp.trans (h.items.trans
          (congrArg BoundedQueue.items (BoundedQueue.step_of_not_fits hfits).symm))
      · rw [Op.onQueue, BoundedQueue.step_of_fits ((h.fits_iff buf).2 hov), ← h.items]
        exact hp
    | drain n => exact (drain_onQueue h.items n).2
    | drainInto n =>
      show (q.drainInto n).1.pending = _
      rw [h.counted.drainInto_eq]
      exact (drain_onQueue h.items n).2
    | markSent =>
      rcases markSent_cases q with ⟨hp, hp', -⟩ | ⟨-, hq⟩
      · exact hp'.trans (hp.symm.trans h.items)
      · exact (congrArg pending hq).trans h.items
  ins_eq := by
    intro q q' a op h hs
    cases op with
    | push buf =>
      show (if (q.push buf).2.overflowed = true then [] else [buf]) =
        if a.Fits [buf] then [buf] else []
      cases hov : (q.push buf).2.overflowed with
      | true => rw [if_pos rfl, if_neg fun hf => by rw [(h.fits_iff buf).1 hf] at hov; cases hov]
      | false => rw [if_neg Bool.false_ne_true, if_pos ((h.fits_iff buf).2 hov)]
    | drain n | drainInto n =>
      show [] = a.ins (if n = 0 then .clear else .take n)
      split <;> rfl
    | markSent => rfl
  outs_eq := by
    intro q q' a op h hs
    cases op with
    | push buf => rfl
    | drain n => exact (drain_onQueue h.items n).1
    | drainInto n =>
      show (q.drainInto n).2 = _
      rw [h.counted.drainInto_eq]
      exact (drain_onQueue h.items n).1
    | markSent => rfl

theorem represents_after (maxPending : Nat) (calls : List Op) :
    (after maxPending calls).Represents
      ((BoundedQueue.empty maxPending).run (calls.map Op.onQueue)) ∧
    Trace.collect (Trace.total step) drained { maxPending } calls ++
        (after maxPending calls).pending =
      Trace.collect (Trace.total step) accepted { maxPending } calls := by
  have h0 : Represents { maxPending } (BoundedQueue.empty maxPending) := ⟨rfl, rfl, rfl⟩
  obtain ⟨h, hfifo⟩ := refines.run calls h0 (Trace.run_total step calls _)
  exact ⟨h, by rw [← h.items] at hfifo; exact hfifo⟩

/-! ### Registration -/

/-- What a call does to `registered_`. -/
theorem registered_step (q : SendQueue) (op : Op) :
    (q.step op).registered = false ↔
      (op = .markSent ∧ q.pending = []) ∨ (q.registered = false ∧ q.accepted op = []) := by
  cases op with
  | push buf =>
    rcases push_cases q buf with ⟨hov, -, hr⟩ | ⟨hov, -, -, hr⟩
    · simp [step, accepted, hov, hr]
    · simp [step, accepted, hov, hr]
  | drain n =>
    have hr : (q.drain n).1.registered = q.registered := by unfold drain; split <;> rfl
    simp [step, accepted, hr]
  | drainInto n => simp [step, accepted]
  | markSent =>
    rcases markSent_cases q with ⟨hp, -, hr⟩ | ⟨hp, hq⟩
    · simp [step, hp, hr]
    · simp [step, accepted, hp, hq]

theorem idle_snoc (op : Op) :
    Idle maxPending (calls ++ [op]) ↔
      (op = .markSent ∧ (after maxPending calls).pending = []) ∨
      (Idle maxPending calls ∧ (after maxPending calls).accepted op = []) := by
  constructor
  · rintro ⟨before, since, hsplit, hstart, hnone⟩
    rcases List.eq_nil_or_concat since with rfl | ⟨since, last, rfl⟩
    · -- the calls end with the `MarkSent`
      rw [List.append_nil] at hsplit
      rcases hstart with rfl | ⟨earlier, rfl, hempty⟩
      · simp at hsplit
      · obtain ⟨rfl, h⟩ := List.append_inj' hsplit rfl
        exact .inl ⟨List.singleton_inj.1 h, hempty⟩
    · rw [List.concat_eq_append] at hsplit hnone
      rw [← List.append_assoc] at hsplit
      obtain ⟨rfl, h⟩ := List.append_inj' hsplit rfl
      obtain rfl := List.singleton_inj.1 h
      rw [Trace.collect_snoc, List.append_eq_nil_iff] at hnone
      refine .inr ⟨⟨before, since, rfl, hstart, hnone.1⟩, ?_⟩
      rw [after, List.foldl_append]
      exact hnone.2
  · rintro (⟨rfl, hempty⟩ | ⟨⟨before, since, rfl, hstart, hnone⟩, hop⟩)
    · exact ⟨calls ++ [.markSent], [], (List.append_nil _).symm, .inr ⟨calls, rfl, hempty⟩, rfl⟩
    · refine ⟨before, since ++ [op], List.append_assoc _ _ _, hstart, ?_⟩
      rw [Trace.collect_snoc, hnone, List.nil_append]
      rw [after, List.foldl_append] at hop
      exact hop

theorem registered_iff (maxPending : Nat) (calls : List Op) :
    (after maxPending calls).registered = false ↔ Idle maxPending calls := by
  induction calls using List.reverseRecOn with
  | nil => exact ⟨fun _ => ⟨[], [], rfl, .inl rfl, rfl⟩, fun _ => rfl⟩
  | append_singleton calls op ih => rw [after_snoc, registered_step, idle_snoc, ih]

/-! ### Peaks -/

theorem isGreatest_peakDepth (maxPending : Nat) (calls : List Op) :
    IsGreatest {n | ∃ calls', calls' <+: calls ∧ (after maxPending calls').pending.length = n}
      (after maxPending calls).peakDepth := by
  refine Trace.isGreatest_peak (fun q => q.pending.length) peakDepth { maxPending } rfl ?_ calls
  intro q op h
  cases effect_step q op with
  | grows buf hop hmax hp hb hdepth hbytes => exact hdepth
  | shrinks hmax hp hb hdepth hbytes =>
    rw [hdepth]
    exact (max_eq_left (hp.length_le.trans h)).symm

theorem isGreatest_peakPendingBytes (maxPending : Nat) (calls : List Op) :
    IsGreatest {n | ∃ calls', calls' <+: calls ∧ (after maxPending calls').pendingBytes = n}
      (after maxPending calls).peakPendingBytes := by
  refine Trace.isGreatest_peak pendingBytes peakPendingBytes { maxPending } rfl ?_ calls
  intro q op h
  cases effect_step q op with
  | grows buf hop hmax hp hb hdepth hbytes => exact hbytes
  | shrinks hmax hp hb hdepth hbytes =>
    rw [hbytes]
    exact (max_eq_left (hb.trans h)).symm

theorem mem_pending (maxPending : Nat) (calls : List Op) :
    ∀ buf ∈ (after maxPending calls).pending, .push buf ∈ calls := by
  induction calls using List.reverseRecOn with
  | nil => intro buf hbuf; cases hbuf
  | append_singleton calls op ih =>
    intro buf hbuf
    rw [after_snoc] at hbuf
    cases effect_step (after maxPending calls) op with
    | grows buf' hop hmax hp hb hdepth hbytes =>
      rw [hp, List.mem_append, List.mem_singleton] at hbuf
      rcases hbuf with hbuf | rfl
      · exact List.mem_append_left _ (ih buf hbuf)
      · exact List.mem_append_right _ (List.mem_singleton.2 hop.symm)
    | shrinks hmax hp hb hdepth hbytes =>
      exact List.mem_append_left _ (ih buf (hp.subset hbuf))

/-! ### Bytes -/

theorem Counted.sum_take_le (h : q.Counted) (n : Nat) :
    ((q.pending.take n).map SendBuffer.size).sum ≤ q.pendingBytes := by
  rw [h, ← sizes_take_add_drop q.pending n]
  exact Nat.le_add_right _ _

theorem depth_le (maxPending : Nat) (calls : List Op) :
    (after maxPending calls).pending.length ≤ maxPending := by
  have h := (represents_after maxPending calls).1
  rw [h.items]
  exact (BoundedQueue.le_bound _).trans (BoundedQueue.bound_run _ _).le

theorem maxPending_after (maxPending : Nat) (calls : List Op) :
    (after maxPending calls).maxPending = maxPending :=
  (represents_after maxPending calls).1.bound.trans (BoundedQueue.bound_run _ _)

/-- 64 bits are enough to count the bytes of buffers with sizes of 32 bits. -/
theorem pendingBytes_lt (hmax : maxPending < 2 ^ 32)
    (hsize : ∀ buf, .push buf ∈ calls → buf.size < 2 ^ 32) :
    (after maxPending calls).pendingBytes < 2 ^ 64 := by
  have hdepth := depth_le maxPending calls
  have hsum : ((after maxPending calls).pending.map SendBuffer.size).sum ≤
      ((after maxPending calls).pending.map SendBuffer.size).length • (2 ^ 32 - 1) := by
    refine List.sum_le_card_nsmul _ _ fun n hn => ?_
    obtain ⟨buf, hbuf, rfl⟩ := List.mem_map.1 hn
    exact Nat.le_sub_one_of_lt (hsize buf (mem_pending maxPending calls buf hbuf))
  rw [List.length_map, smul_eq_mul] at hsum
  rw [(represents_after maxPending calls).1.counted]
  calc ((after maxPending calls).pending.map SendBuffer.size).sum
      ≤ (after maxPending calls).pending.length * (2 ^ 32 - 1) := hsum
    _ ≤ (2 ^ 32 - 1) * (2 ^ 32 - 1) := Nat.mul_le_mul_right _ (by omega)
    _ < 2 ^ 64 := by decide

/-- What holds of a queue `q` after `calls`, against a bounded queue that is first
in, first out. -/
structure Accounting (maxPending : Nat) (calls : List Op) (q : SendQueue) : Prop where
  represents : q.pending = ((BoundedQueue.empty maxPending).run (calls.map Op.onQueue)).items
  /-- What has been drained and what is pending is what was accepted. -/
  fifo : Trace.collect (Trace.total step) drained { maxPending } calls ++ q.pending =
    Trace.collect (Trace.total step) accepted { maxPending } calls
  drain_all : ∀ k, k = 0 ∨ q.pending.length ≤ k →
    (q.drain k).2 = q.pending ∧ (q.drain k).1.pending = []
  drain_some : ∀ k, k ≠ 0 → k < q.pending.length →
    (q.drain k).2 = q.pending.take k ∧ (q.drain k).1.pending = q.pending.drop k
  drainInto_eq : ∀ k, q.drainInto k = q.drain k
  depth_le : q.pending.length ≤ maxPending
  rejected_iff : ∀ buf, (q.push buf).2.overflowed = true ↔ q.pending.length = maxPending
  rejected : ∀ buf, (q.push buf).2.overflowed = true →
    (q.push buf).1 = { q with overflowCount := q.overflowCount + 1 }
  bytes : q.pendingBytes = (q.pending.map SendBuffer.size).sum
  /-- A drain subtracts the sizes one by one. -/
  no_underflow : ∀ k, ((q.pending.take k).map SendBuffer.size).sum ≤ q.pendingBytes
  no_overflow : maxPending < 2 ^ 32 → (∀ buf, .push buf ∈ calls → buf.size < 2 ^ 32) →
    q.pendingBytes < 2 ^ 64
  peakDepth : IsGreatest
    {n | ∃ calls', calls' <+: calls ∧ (after maxPending calls').pending.length = n} q.peakDepth
  peakPendingBytes : IsGreatest
    {n | ∃ calls', calls' <+: calls ∧ (after maxPending calls').pendingBytes = n}
    q.peakPendingBytes
  needsRegister_iff : ∀ buf, (q.push buf).2.needsRegister = true ↔
    (q.push buf).2.overflowed = false ∧ Idle maxPending calls

/-- **`SendQueue` is a bounded queue with exact accounts.** For every bound and
every sequence of calls. -/
theorem sendQueue_accounting (maxPending : Nat) (calls : List Op) :
    Accounting maxPending calls (after maxPending calls) := by
  obtain ⟨h, hfifo⟩ := represents_after maxPending calls
  have hdepth := depth_le maxPending calls
  exact {
    represents := h.items
    fifo := hfifo
    drain_all := fun k hk => drain_all hk
    drain_some := fun k h0 hk => drain_some h0 hk
    drainInto_eq := h.counted.drainInto_eq
    depth_le := hdepth
    rejected_iff := fun buf => by
      rw [overflowed_iff, maxPending_after]
      omega
    rejected := fun buf => push_of_overflowed
    bytes := h.counted
    no_underflow := h.counted.sum_take_le
    no_overflow := pendingBytes_lt
    peakDepth := isGreatest_peakDepth maxPending calls
    peakPendingBytes := isGreatest_peakPendingBytes maxPending calls
    needsRegister_iff := fun buf => by
      rw [← registered_iff]
      rcases push_cases (after maxPending calls) buf with ⟨hov, -, -⟩ | ⟨hov, hreg, -, -⟩
      · rw [push, if_pos ((overflowed_iff _ _).1 hov)]
        simp
      · rw [hov, hreg, Bool.not_eq_true', eq_self, true_and] }

end SendQueue

end IouringRuntime
