import IouringRuntime.Reentrant.Trace

/-!
# IoRing: the submission side

`IoRing` (`core/IoRing.h`) with the submission queue behind it. Entries are
prepared one by one; `Submit` only counts calls until the batch is full, and
`FlushSubmissions` and `ArmWakePoll` hand the queue to the kernel. A failed
`io_uring_submit` leaves the entries where they are.

`FlushSubmissions` resets the counter before it knows whether the system call
succeeds. `attempted_before_wait_iff` says which runs suffer from that: exactly
those that enter `Dispatch` with the counter at zero and `Submit`ted entries
still in the queue, unless the wake poll happens to need arming.
-/

namespace IouringRuntime

abbrev RingId := Nat
abbrev TaskId := Nat

/-- A prepared entry, by what it carries as `user_data`. -/
inductive Sqe where
  | event
  | wakePoll
  deriving DecidableEq, Repr

/-- `wakeFd` says that the eventfd could be created. The fields from `called` on are
history: how many of the queued entries a call of `Submit` has followed, and
the calls of `io_uring_submit`. `pending_submissions_` is below the batch size
between calls, so it does not wrap. -/
structure IoRing where
  submitBatchSize : Nat
  wakeFd : Bool := true
  pendingSubmissions : Nat := 0
  wakePollArmed : Bool := false
  sq : List Sqe := []
  called : Nat := 0
  attempts : Nat := 0
  deriving DecidableEq, Repr

/-- What the environment decides: a free SQE, and the two system calls. -/
structure RingOutcome where
  sqe : Bool := true
  flush : Bool := true
  arm : Bool := true
  deriving DecidableEq, Repr

namespace IoRing

/-- `io_uring_submit`, with the entries that the kernel takes. -/
def ioUringSubmit (ok : Bool) (r : IoRing) : IoRing × List Sqe :=
  if ok then ({ r with sq := [], called := 0, attempts := r.attempts + 1 }, r.sq)
  else ({ r with attempts := r.attempts + 1 }, [])

/-- A `Prep` function: `PrepRecv`, `PrepSendMsg`, `PrepAcceptMultishot` and the others. -/
def prep (sqe : Bool) (r : IoRing) : IoRing × Bool :=
  if !sqe then (r, false) else ({ r with sq := r.sq ++ [.event] }, true)

def flushSubmissions (ok : Bool) (r : IoRing) : IoRing × List Sqe :=
  if r.pendingSubmissions = 0 then (r, [])
  else ioUringSubmit ok { r with pendingSubmissions := 0 }

def submit (ok : Bool) (r : IoRing) : IoRing × List Sqe :=
  let r := { r with pendingSubmissions := r.pendingSubmissions + 1, called := r.sq.length }
  if r.pendingSubmissions < r.submitBatchSize then (r, []) else r.flushSubmissions ok

def armWakePoll (o : RingOutcome) (r : IoRing) : IoRing × List Sqe :=
  if !r.wakeFd || r.wakePollArmed then (r, [])
  else if !o.sqe then (r, [])
  else
    let s := ioUringSubmit o.arm { r with sq := r.sq ++ [.wakePoll] }
    (if o.arm then { s.1 with wakePollArmed := true } else s.1, s.2)

/-- `Dispatch` up to its wait; `ArmWakePoll` tests `wake_poll_armed_` itself. -/
def dispatchToWait (o : RingOutcome) (r : IoRing) : IoRing × List Sqe :=
  let s := r.flushSubmissions o.flush
  let t := s.1.armWakePoll o
  (t.1, s.2 ++ t.2)

/-- The ring that `Create` makes. -/
def create (submitBatchSize : Nat) (wakeFd : Bool) (o : RingOutcome) : IoRing :=
  (armWakePoll o { submitBatchSize := max 1 submitBatchSize, wakeFd }).1

/-- `ArmWakePoll` goes as far as its system call. -/
def arms (o : RingOutcome) (r : IoRing) : Bool := r.wakeFd && !r.wakePollArmed && o.sqe

variable {o : RingOutcome} {ok : Bool} {r : IoRing}

theorem armWakePoll_of_arms (h : r.arms o = true) :
    (r.armWakePoll o).1.attempts = r.attempts + 1 ∧
      (r.armWakePoll o).1.pendingSubmissions = r.pendingSubmissions ∧
      (r.armWakePoll o).1.called = if o.arm then 0 else r.called := by
  simp only [arms, Bool.and_eq_true, Bool.not_eq_true'] at h
  obtain ⟨⟨hfd, harmed⟩, hsqe⟩ := h
  cases ha : o.arm <;> simp [armWakePoll, ioUringSubmit, hfd, harmed, hsqe, ha]

theorem armWakePoll_of_not_arms (h : r.arms o = false) : r.armWakePoll o = (r, []) := by
  unfold armWakePoll
  split
  · rfl
  · next hno =>
    split
    · rfl
    · next hsqe =>
      simp only [Bool.or_eq_true, Bool.not_eq_true', not_or, Bool.not_eq_false,
        Bool.not_eq_true] at hno hsqe
      simp [arms, hno.1, hno.2, hsqe] at h

theorem flushSubmissions_zero (h : r.pendingSubmissions = 0) : r.flushSubmissions ok = (r, []) :=
  if_pos h

theorem flushSubmissions_pos (h : r.pendingSubmissions ≠ 0) :
    (r.flushSubmissions ok).1.attempts = r.attempts + 1 ∧
      (r.flushSubmissions ok).1.pendingSubmissions = 0 ∧
      (r.flushSubmissions ok).1.called = if ok then 0 else r.called := by
  rw [flushSubmissions, if_neg h]
  cases ok <;> exact ⟨rfl, rfl, rfl⟩

theorem attempts_le_armWakePoll : r.attempts ≤ (r.armWakePoll o).1.attempts := by
  cases h : r.arms o with
  | true => exact (armWakePoll_of_arms h).1 ▸ Nat.le_succ _
  | false => exact Nat.le_of_eq (congrArg (·.1.attempts) (armWakePoll_of_not_arms h)).symm

/-- `Dispatch` comes to its wait without a call of `io_uring_submit` exactly if
nothing is counted and the wake poll is left alone. -/
theorem attempted_iff :
    r.attempts < (r.dispatchToWait o).1.attempts ↔ r.pendingSubmissions ≠ 0 ∨ r.arms o = true := by
  by_cases hp : r.pendingSubmissions = 0
  · simp only [dispatchToWait, flushSubmissions_zero hp, hp, ne_eq, not_true_eq_false, false_or]
    cases ha : r.arms o with
    | true => simp [(armWakePoll_of_arms ha).1]
    | false => simp [armWakePoll_of_not_arms ha]
  · refine iff_of_true ?_ (.inl hp)
    calc r.attempts < (r.flushSubmissions o.flush).1.attempts := by
          rw [(flushSubmissions_pos hp).1]
          exact Nat.lt_succ_self _
      _ ≤ _ := attempts_le_armWakePoll

/-- Then what is in the queue is what was there. -/
theorem called_of_not_attempted (h : ¬ r.attempts < (r.dispatchToWait o).1.attempts) :
    (r.dispatchToWait o).1.called = r.called := by
  rw [attempted_iff, not_or, not_not, Bool.not_eq_true] at h
  simp only [dispatchToWait, flushSubmissions_zero h.1, armWakePoll_of_not_arms h.2]

/-- Every entry that a call of `Submit` has followed is counted. -/
def Counted (r : IoRing) : Prop := r.called ≠ 0 → r.pendingSubmissions ≠ 0

theorem Counted.armWakePoll (h : Counted r) : Counted (r.armWakePoll o).1 := by
  cases ha : r.arms o with
  | true =>
    obtain ⟨-, hp, hc⟩ := armWakePoll_of_arms ha
    intro hcalled
    rw [hp]
    refine h fun h0 => hcalled ?_
    rw [hc, h0, ite_self]
  | false => rwa [armWakePoll_of_not_arms ha]

theorem Counted.flushSubmissions (h : Counted r) : Counted (r.flushSubmissions true).1 := by
  by_cases hp : r.pendingSubmissions = 0
  · rwa [flushSubmissions_zero hp]
  · exact fun hc => absurd (flushSubmissions_pos hp).2.2 hc

theorem counted_submit : Counted (r.submit true).1 := by
  unfold submit
  extract_lets s
  have hs : Counted s := fun _ => Nat.succ_ne_zero _
  split
  · exact hs
  · exact hs.flushSubmissions

end IoRing

/-- `Dispatch` has come to its wait: `Submit`ted entries are in the queue, and
`io_uring_submit` has been called since it was entered. -/
structure RingWait where
  stranded : Bool
  attempted : Bool
  deriving DecidableEq, Repr

structure RingRun where
  ring : IoRing
  dispatching : Bool := false
  waits : List RingWait := []
  deriving DecidableEq, Repr

/-- The calls, with what the environment decides for each. Inside `Dispatch` the
completion handlers make the calls. -/
inductive RingCall where
  | prep (sqe : Bool)
  | submit (ok : Bool)
  | flushSubmissions (ok : Bool)
  | dispatch (o : RingOutcome)
  /-- The completion of the wake poll. -/
  | wake
  /-- The wait has timed out or failed. -/
  | dispatchReturns
  /-- The completions have been drained. -/
  | dispatchEnds (o : RingOutcome)
  deriving DecidableEq, Repr

namespace RingRun

def step (x : RingRun) : RingCall → Option RingRun
  | .prep sqe => some { x with ring := (x.ring.prep sqe).1 }
  | .submit ok => some { x with ring := (x.ring.submit ok).1 }
  | .flushSubmissions ok => some { x with ring := (x.ring.flushSubmissions ok).1 }
  | .dispatch o =>
    if x.dispatching then none
    else
      let r := (x.ring.dispatchToWait o).1
      some {
        ring := r
        dispatching := true
        waits := x.waits ++ [⟨0 < r.called, x.ring.attempts < r.attempts⟩] }
  | .wake =>
    if x.dispatching then some { x with ring := { x.ring with wakePollArmed := false } } else none
  | .dispatchReturns => if x.dispatching then some { x with dispatching := false } else none
  | .dispatchEnds o =>
    if x.dispatching then
      some { x with ring := (x.ring.armWakePoll o).1, dispatching := false }
    else none

/-- `Dispatch` is entered with every `Submit`ted entry counted, or arms the wake
poll. -/
def StepCounted (x : RingRun) : RingCall → Prop
  | .dispatch o => x.ring.Counted ∨ x.ring.arms o = true
  | _ => True

/-- `FlushSubmissions` does not fail. -/
def StepSubmits (_ : RingRun) : RingCall → Prop
  | .submit ok | .flushSubmissions ok => ok = true
  | .dispatch o => o.flush = true
  | _ => True

def NoneStranded (x : RingRun) : Prop :=
  ∀ w ∈ x.waits, w.stranded = true → w.attempted = true

variable {x y : RingRun} {i : RingCall}

/-- Only `Dispatch` comes to a wait. -/
theorem waits_step (hs : step x i = some y) (hi : ∀ o, i ≠ .dispatch o) : y.waits = x.waits := by
  cases i with
  | dispatch o => exact absurd rfl (hi o)
  | prep | submit | flushSubmissions =>
    cases hs
    rfl
  | wake | dispatchReturns | dispatchEnds =>
    simp only [step] at hs
    split at hs
    · cases hs
      rfl
    · cases hs

/-- One step strands nothing exactly if it meets the condition. -/
theorem noneStranded_step (h : NoneStranded x) (hs : step x i = some y) :
    NoneStranded y ↔ StepCounted x i := by
  cases i with
  | dispatch o =>
    simp only [step] at hs
    split at hs
    · cases hs
    · cases hs
      simp only [NoneStranded, List.forall_mem_append, List.forall_mem_singleton, StepCounted,
        decide_eq_true_eq]
      rw [and_iff_right (show ∀ w ∈ x.waits, _ from h)]
      by_cases ha : x.ring.attempts < (x.ring.dispatchToWait o).1.attempts
      · refine iff_of_true (fun _ => ha) ((IoRing.attempted_iff.1 ha).imp_left fun hp _ => hp)
      · have hno := ha
        rw [IoRing.attempted_iff, not_or, not_not] at hno
        rw [IoRing.called_of_not_attempted ha, IoRing.Counted, hno.1]
        simp [ha, hno.2, Nat.pos_iff_ne_zero]
  | _ =>
    refine iff_of_true ?_ trivial
    rw [NoneStranded, waits_step hs (by rintro _ ⟨⟩)]
    exact h

theorem counted_step (h : x.ring.Counted) (hs : step x i = some y) (hi : StepSubmits x i) :
    y.ring.Counted := by
  cases i with
  | prep sqe =>
    cases hs
    unfold IoRing.prep
    split <;> exact h
  | submit ok =>
    cases hs
    obtain rfl : ok = true := hi
    exact IoRing.counted_submit
  | flushSubmissions ok =>
    cases hs
    obtain rfl : ok = true := hi
    exact h.flushSubmissions
  | dispatch o =>
    simp only [step] at hs
    split at hs
    · cases hs
    · cases hs
      have hflush : o.flush = true := hi
      simp only [IoRing.dispatchToWait, hflush]
      exact h.flushSubmissions.armWakePoll
  | wake | dispatchReturns =>
    simp only [step] at hs
    split at hs
    · cases hs
      exact h
    · cases hs
  | dispatchEnds o =>
    simp only [step] at hs
    split at hs
    · cases hs
      exact h.armWakePoll
    · cases hs

/-- A ring as `Create` leaves it. -/
def created (submitBatchSize : Nat) (wakeFd : Bool) (o : RingOutcome) : RingRun :=
  { ring := .create submitBatchSize wakeFd o }

/-- Whenever `Dispatch` waits with `Submit`ted entries in the queue it has tried to
submit them, in exactly the runs that enter `Dispatch` with these entries
counted or the wake poll to be armed; in particular if `FlushSubmissions` never
fails. -/
theorem attempted_before_wait_iff (submitBatchSize : Nat) (wakeFd : Bool) (o : RingOutcome)
    (is : List RingCall) :
    (Trace.Visits step NoneStranded (created submitBatchSize wakeFd o) is ↔
        Trace.Steps step StepCounted (created submitBatchSize wakeFd o) is) ∧
      (Trace.Steps step StepSubmits (created submitBatchSize wakeFd o) is →
        Trace.Visits step NoneStranded (created submitBatchSize wakeFd o) is) := by
  have hiff : Trace.Visits step NoneStranded (created submitBatchSize wakeFd o) is ↔
      Trace.Steps step StepCounted (created submitBatchSize wakeFd o) is :=
    Trace.visits_iff_steps (J := NoneStranded) (fun _ h => h)
      (fun _ _ _ h hs hQ => (noneStranded_step h hs).2 hQ)
      (fun _ _ _ h hs hQ hP => hQ ((noneStranded_step h hs).1 hP)) is fun w hw => by cases hw
  refine ⟨hiff, fun hsub => hiff.2 ?_⟩
  have hcreated : (created submitBatchSize wakeFd o).ring.Counted :=
    IoRing.Counted.armWakePoll fun h => absurd rfl h
  refine Trace.steps_of_steps (J := fun x => x.ring.Counted) ?_ ?_ is hcreated hsub
  · intro x i y h _ _
    cases i with
    | dispatch o => exact .inl h
    | _ => trivial
  · exact fun x i y h hs hQ => counted_step h hs hQ

/-- A transient error of the one call that a batch size of one makes: the entry
stays in the queue, and the next `Dispatch` waits without trying again. -/
theorem waits_with_stranded_entry :
    ∃ x, Trace.run step (created 1 true {}) [.prep true, .submit false, .dispatch {}] = some x ∧
      x.ring.sq = [.event] ∧ x.waits = [⟨true, false⟩] :=
  ⟨_, rfl, rfl, rfl⟩

end RingRun

end IouringRuntime
