import IouringRuntime.Ring.IoRing

/-!
# Posted tasks and the worker loop

`Worker::Run` on the ring's thread, other threads that `Post`, and the kernel,
interleaved. A foreign `Post` pushes the task under the mutex and then writes the
eventfd; a `Post` from the ring's own thread only pushes. The kernel completes
the wake poll when it is armed and the eventfd counter is not zero; `Dispatch`
drains the counter when it takes that completion and arms the poll again.
SQEs are available and submissions succeed.

What keeps a task from sleeping through a wait is that `ProcessPostedTasks` comes
between any `Post` of the ring's thread and the next wait. It does not when the
`Post` is made by a task of the very `ProcessPostedTasks` that `Dispatch` follows:
`signalled_at_wait` is the guarantee without such a `Post`, `post_before_wait`
the run with one.
-/

namespace IouringRuntime

/-- A completion: of the wake poll with its `result >= 0`, or of anything else. -/
inductive LoopCqe where
  | wake (ok : Bool)
  | other
  deriving DecidableEq, Repr

inductive LoopCall where
  | processPostedTasks | dispatch | ticks
  deriving DecidableEq, Repr

/-- Where the ring's thread is. -/
inductive Activity where
  | between
  /-- In `ProcessPostedTasks`, the first task running. -/
  | tasks (ts : List TaskId)
  | waiting
  /-- In `Dispatch`, with the completions handled so far. -/
  | completions (count : Nat)
  /-- In `on_start`, in the sessions' `Tick` or in the `tick` hook. -/
  | hooks
  deriving DecidableEq, Repr

structure WorkerLoop where
  ring : IoRing
  cqeBatchBudget : Nat
  posted : List TaskId := []
  /-- The counter of the eventfd. -/
  counter : Nat := 0
  /-- The wake polls that the kernel holds. -/
  polls : Nat
  cq : List LoopCqe := []
  /-- Threads that have pushed a task and not yet written the eventfd. -/
  writers : Nat := 0
  running : Bool := true
  finished : Bool := false
  /-- The calls still to make in this iteration. -/
  todo : List LoopCall := []
  activity : Activity := .hooks
  deriving DecidableEq, Repr

inductive LoopInput where
  /-- Another thread: `Post` pushes, `Post` writes. -/
  | push (task : TaskId)
  | write
  /-- The kernel: the wake poll completes, something else completes. -/
  | fire (ok : Bool)
  | complete
  /-- `running_` is set to `false`. -/
  | stop
  /-- The ring's thread, in its own code. -/
  | iterate
  | enter
  | waitFails
  | waitReturns
  | handle
  | drained
  /-- The ring's thread, in user code. -/
  | post (task : TaskId)
  | prep
  | submit
  | taskReturns
  | hooksReturn
  deriving DecidableEq, Repr

namespace WorkerLoop

def iteration : List LoopCall := [.processPostedTasks, .dispatch, .processPostedTasks, .ticks]

/-- What `Run` does behind its loop. -/
def epilogue : List LoopCall :=
  .processPostedTasks :: (List.replicate 8 [.dispatch, .processPostedTasks]).flatten

/-- The kernel takes the entries submitted. -/
def take (x : WorkerLoop) (r : IoRing × List Sqe) : WorkerLoop :=
  { x with ring := r.1, polls := x.polls + r.2.count .wakePoll }

def userRuns : Activity → Bool
  | .tasks ts => !ts.isEmpty
  | .completions count => 0 < count
  | .hooks => true
  | .between | .waiting => false

/-- The drain loop of `Dispatch` ends. -/
def drainEnds (x : WorkerLoop) (count : Nat) : Bool :=
  x.cq.isEmpty || (x.cqeBatchBudget ≠ 0 && x.cqeBatchBudget ≤ count)

/-- `Dispatch` on one completion. -/
def handleCqe (x : WorkerLoop) : LoopCqe → WorkerLoop
  | .wake ok =>
    { x with
      ring := { x.ring with wakePollArmed := false }
      -- `DrainWakeFd`
      counter := if ok then 0 else x.counter }
  | .other => x

/-- The next call of the loop. -/
def enterCall (x : WorkerLoop) : LoopCall → WorkerLoop
  | .processPostedTasks =>
    { x with
      posted := []
      activity := if x.posted.isEmpty then .between else .tasks x.posted }
  | .dispatch => { x.take (x.ring.dispatchToWait {}) with activity := .waiting }
  | .ticks => { x with activity := .hooks }

/-- The largest value an eventfd counts to. -/
def eventfdMax : Nat := 0xfffffffffffffffe

def step (x : WorkerLoop) : LoopInput → Option WorkerLoop
  | .push task => some { x with posted := x.posted ++ [task], writers := x.writers + 1 }
  | .write =>
    if x.writers = 0 then none
    -- `eventfd_write` leaves a full counter alone
    else some { x with writers := x.writers - 1, counter := min (x.counter + 1) eventfdMax }
  | .fire ok =>
    if 0 < x.polls && (!ok || 0 < x.counter) then
      some { x with polls := x.polls - 1, cq := x.cq ++ [.wake ok] }
    else none
  | .complete => some { x with cq := x.cq ++ [.other] }
  | .stop => some { x with running := false }
  | .iterate =>
    if x.activity = .between ∧ x.todo = [] then
      if x.running then some { x with todo := iteration }
      else if !x.finished then some { x with todo := epilogue, finished := true }
      else none
    else none
  | .enter =>
    match x.activity, x.todo with
    | .between, call :: todo => some ({ x with todo }.enterCall call)
    | _, _ => none
  | .waitFails => if x.activity = .waiting then some { x with activity := .between } else none
  | .waitReturns =>
    if x.activity = .waiting && !x.cq.isEmpty then some { x with activity := .completions 0 }
    else none
  | .handle =>
    match x.activity, x.cq with
    | .completions count, cqe :: cq =>
      if x.drainEnds count then none
      else some ({ x with cq, activity := .completions (count + 1) }.handleCqe cqe)
    | _, _ => none
  | .drained =>
    match x.activity with
    | .completions count =>
      if x.drainEnds count then some { x.take (x.ring.armWakePoll {}) with activity := .between }
      else none
    | _ => none
  | .post task => if userRuns x.activity then some { x with posted := x.posted ++ [task] } else none
  | .prep => if userRuns x.activity then some { x with ring := (x.ring.prep true).1 } else none
  | .submit => if userRuns x.activity then some (x.take (x.ring.submit true)) else none
  | .taskReturns =>
    match x.activity with
    | .tasks (_ :: ts) =>
      some { x with activity := if ts.isEmpty then .between else .tasks ts }
    | _ => none
  | .hooksReturn => if x.activity = .hooks then some { x with activity := .between } else none

/-- A worker whose ring has its eventfd, at the start of `Run`. -/
def started (submitBatchSize cqeBatchBudget : Nat) : WorkerLoop :=
  { ring := .create submitBatchSize true {}, cqeBatchBudget, polls := 1 }

/-! ## The wake poll -/

/-- The completions of the wake poll in a queue. -/
def wakes : List LoopCqe → Nat
  | [] => 0
  | .wake _ :: cq => wakes cq + 1
  | .other :: cq => wakes cq

@[simp] theorem wakes_concat_wake (cq : List LoopCqe) (ok : Bool) :
    wakes (cq ++ [.wake ok]) = wakes cq + 1 := by
  fun_induction wakes cq <;> simp_all [wakes]

@[simp] theorem wakes_concat_other (cq : List LoopCqe) : wakes (cq ++ [.other]) = wakes cq := by
  fun_induction wakes cq <;> simp_all [wakes]

theorem exists_wake {cq : List LoopCqe} (h : 0 < wakes cq) : ∃ ok, .wake ok ∈ cq := by
  fun_induction wakes cq with
  | case1 => cases h
  | case2 ok cq _ => exact ⟨ok, List.mem_cons_self⟩
  | case3 cq ih =>
    obtain ⟨ok, hok⟩ := ih h
    exact ⟨ok, List.mem_cons_of_mem _ hok⟩

/-- With the eventfd there and no failed submission, `wake_poll_armed_` says that
there is one wake poll, in the kernel or completed: `n` counts both. -/
structure Wired (r : IoRing) (n : Nat) : Prop where
  fd : r.wakeFd = true
  sq : r.sq.count .wakePoll = 0
  armed : n = if r.wakePollArmed then 1 else 0

variable {r : IoRing} {n : Nat}

theorem Wired.prep (h : Wired r n) : Wired (r.prep true).1 n :=
  ⟨h.fd, by simpa [IoRing.prep] using h.sq, h.armed⟩

theorem Wired.flushSubmissions (h : Wired r n) :
    Wired (r.flushSubmissions true).1 (n + (r.flushSubmissions true).2.count .wakePoll) := by
  unfold IoRing.flushSubmissions
  split
  · exact h
  · exact ⟨h.fd, rfl, (congrArg (n + ·) h.sq).trans h.armed⟩

theorem Wired.submit (h : Wired r n) :
    Wired (r.submit true).1 (n + (r.submit true).2.count .wakePoll) := by
  have hcounted : Wired { r with
      pendingSubmissions := r.pendingSubmissions + 1, called := r.sq.length } n :=
    ⟨h.fd, h.sq, h.armed⟩
  unfold IoRing.submit
  dsimp only
  split
  · exact hcounted
  · exact hcounted.flushSubmissions

theorem Wired.armWakePoll (h : Wired r n) :
    Wired (r.armWakePoll {}).1 (n + (r.armWakePoll {}).2.count .wakePoll) ∧
      (r.armWakePoll {}).1.wakePollArmed = true := by
  cases ha : r.wakePollArmed with
  | true =>
    have hno : r.armWakePoll {} = (r, []) := IoRing.armWakePoll_of_not_arms (by simp [IoRing.arms, ha])
    rw [hno]
    exact ⟨h, ha⟩
  | false =>
    have hn : n = 0 := by simpa [ha] using h.armed
    simp only [IoRing.armWakePoll, h.fd, ha, IoRing.ioUringSubmit, Bool.not_true, Bool.or_self,
      Bool.false_eq_true, if_false, if_true, hn, List.count_append, h.sq]
    exact ⟨⟨rfl, rfl, rfl⟩, trivial⟩

theorem Wired.dispatchToWait (h : Wired r n) :
    Wired (r.dispatchToWait {}).1 (n + (r.dispatchToWait {}).2.count .wakePoll) ∧
      (r.dispatchToWait {}).1.wakePollArmed = true := by
  simp only [IoRing.dispatchToWait, List.count_append, ← Nat.add_assoc]
  exact h.flushSubmissions.armWakePoll

/-! ## The order of the calls -/

/-- `ProcessPostedTasks` follows `Dispatch`, and `Dispatch` does not follow the ticks. -/
def Ordered : List LoopCall → Prop
  | [] => True
  | .processPostedTasks :: todo => Ordered todo
  | .dispatch :: todo => todo.head? = some .processPostedTasks ∧ Ordered todo
  | .ticks :: todo => todo.head? ≠ some .dispatch ∧ Ordered todo

/-- What the call that is being made says about the next one. -/
def Activity.Follows (todo : List LoopCall) : Activity → Prop
  | .waiting | .completions _ => todo.head? = some .processPostedTasks
  | .hooks => todo.head? ≠ some .dispatch
  | .between | .tasks _ => True

/-- `ProcessPostedTasks` comes before the next wait. -/
def Collected (x : WorkerLoop) : Prop := x.activity ≠ .waiting ∧ x.todo.head? ≠ some .dispatch

/-- A wake-up has been or is about to be sent. -/
def Signalled (x : WorkerLoop) : Prop := 0 < x.writers ∨ 0 < x.counter ∨ 0 < wakes x.cq

/-- The wait ends without a timeout. -/
def WakeGuaranteed (x : WorkerLoop) : Prop :=
  (0 < x.polls ∧ 0 < x.counter) ∨ (∃ ok, .wake ok ∈ x.cq) ∨ 0 < x.writers

structure Inv (x : WorkerLoop) : Prop where
  wired : Wired x.ring (x.polls + wakes x.cq)
  armed : x.activity = .waiting → x.ring.wakePollArmed = true
  ordered : Ordered x.todo
  follows : Activity.Follows x.todo x.activity
  posted : x.posted ≠ [] → Signalled x ∨ Collected x

variable {x y : WorkerLoop} {i : LoopInput}

theorem Inv.next (h : Inv x) {a : Activity} (ha : x.activity = a) :
    Activity.Follows x.todo a := ha ▸ h.follows

theorem head_ne_dispatch {todo : List LoopCall} (h : todo.head? = some .processPostedTasks) :
    todo.head? ≠ some .dispatch := by
  rw [h]
  decide

theorem userRuns_ne_waiting {a : Activity} (hu : userRuns a = true) : a ≠ .waiting := by
  rintro rfl
  cases hu

/-- A wake-up reaches the wait, whose poll is armed or has completed. -/
theorem Inv.wakeGuaranteed (h : Inv x) (hw : x.activity = .waiting) (hp : x.posted ≠ []) :
    WakeGuaranteed x := by
  rcases (h.posted hp).resolve_right fun hc => hc.1 hw with hwriters | hcounter | hpos
  · exact .inr (.inr hwriters)
  · have hone := h.wired.armed
    rw [h.armed hw, if_pos rfl] at hone
    by_cases hpolls : x.polls = 0
    · exact .inr (.inl (exists_wake (by omega)))
    · exact .inl ⟨Nat.pos_of_ne_zero hpolls, hcounter⟩
  · exact .inr (.inl (exists_wake hpos))

/-- A change of the ring and of the kernel's polls only. -/
theorem Inv.take {s : IoRing × List Sqe} (h : Inv x)
    (hw : Wired s.1 (x.polls + wakes x.cq + s.2.count .wakePoll))
    (ha : x.activity ≠ .waiting) : Inv (x.take s) :=
  ⟨Nat.add_right_comm _ _ _ ▸ hw, fun hw => absurd hw ha, h.ordered, h.follows, h.posted⟩

theorem Inv.enterCall {call : LoopCall} {todo : List LoopCall} (h : Inv x)
    (htodo : x.todo = call :: todo) :
    Inv ({ x with todo }.enterCall call) := by
  have hord := h.ordered
  rw [htodo] at hord
  cases call with
  | processPostedTasks =>
    refine ⟨h.wired, ?_, hord, ?_, fun hp => absurd rfl hp⟩
    · intro hw
      simp only [WorkerLoop.enterCall] at hw
      split at hw <;> cases hw
    · simp only [WorkerLoop.enterCall]
      split <;> trivial
  | dispatch =>
    obtain ⟨hwired, harmed⟩ := h.wired.dispatchToWait
    refine ⟨Nat.add_right_comm _ _ _ ▸ hwired, fun _ => harmed, hord.2, hord.1, fun hp => .inl ?_⟩
    refine (h.posted hp).resolve_right fun hc => hc.2 ?_
    rw [htodo]
    rfl
  | ticks =>
    exact ⟨h.wired, fun hw => (by cases hw), hord.2, hord.1, fun _ => .inr ⟨fun hw => (by cases hw), hord.1⟩⟩

theorem Inv.handleCqe {cqe : LoopCqe} {cq : List LoopCqe} {count count' : Nat} (h : Inv x)
    (ha : x.activity = .completions count) (hcq : x.cq = cqe :: cq) :
    Inv ({ x with cq, activity := .completions count' }.handleCqe cqe) := by
  have hfollows := h.next ha
  have hcollected : x.todo.head? ≠ some .dispatch := head_ne_dispatch hfollows
  have hwired := h.wired
  rw [hcq] at hwired
  cases cqe with
  | wake ok =>
    refine ⟨⟨hwired.fd, hwired.sq, ?_⟩, fun hw => (by cases hw), h.ordered, hfollows,
      fun _ => .inr ⟨fun hw => (by cases hw), hcollected⟩⟩
    -- it was the one completion of the one poll
    have hone : x.polls + (wakes cq + 1) = _ := hwired.armed
    show x.polls + wakes cq = 0
    split at hone <;> omega
  | other =>
    exact ⟨hwired, fun hw => (by cases hw), h.ordered, hfollows,
      fun _ => .inr ⟨fun hw => (by cases hw), hcollected⟩⟩

/-- The thread goes from one activity to another and `ProcessPostedTasks` is next. -/
theorem Inv.goOn {a : Activity} (h : Inv x) (ha : a ≠ .waiting) (hf : Activity.Follows x.todo a)
    (hnext : x.todo.head? ≠ some .dispatch ∨ x.activity ≠ .waiting) :
    Inv { x with activity := a } := by
  refine ⟨h.wired, fun hw => absurd hw ha, h.ordered, hf, fun hp => ?_⟩
  rcases hnext with hn | hw
  · exact .inr ⟨ha, hn⟩
  · exact (h.posted hp).imp_right fun hc => ⟨ha, hc.2⟩

/-- The condition on a step: no `Post` by a task of the `ProcessPostedTasks` that
`Dispatch` follows. -/
def StepCollected (x : WorkerLoop) : LoopInput → Prop
  | .post _ => ∀ ts, x.activity = .tasks ts → x.todo.head? ≠ some .dispatch
  | _ => True

theorem Inv.iterate (h : Inv x) (hb : x.activity = .between) {todo : List LoopCall}
    (finished : Bool) (htodo : todo = iteration ∨ todo = epilogue) :
    Inv { x with todo, finished } := by
  have hord : Ordered todo ∧ todo.head? ≠ some .dispatch := by
    obtain rfl | rfl := htodo <;> simp [iteration, epilogue, Ordered, List.replicate]
  exact ⟨h.wired, h.armed, hord.1, (by rw [hb]; trivial), fun _ => .inr ⟨by rw [hb]; decide, hord.2⟩⟩

theorem Inv.post (h : Inv x) {task : TaskId} (hu : userRuns x.activity = true)
    (hi : StepCollected x (.post task)) : Inv { x with posted := x.posted ++ [task] } := by
  refine ⟨h.wired, h.armed, h.ordered, h.follows, fun _ => .inr ⟨userRuns_ne_waiting hu, ?_⟩⟩
  show x.todo.head? ≠ some .dispatch
  cases ha : x.activity with
  | between | waiting =>
    rw [ha] at hu
    cases hu
  | tasks ts => exact hi ts ha
  | completions count => exact head_ne_dispatch (h.next ha)
  | hooks => exact h.next ha

theorem Inv.step (h : Inv x) (hs : WorkerLoop.step x i = some y) (hi : StepCollected x i) :
    Inv y := by
  cases i with
  | push task =>
    cases hs
    exact ⟨h.wired, h.armed, h.ordered, h.follows, fun _ => .inl (.inl (Nat.succ_pos _))⟩
  | write =>
    simp only [WorkerLoop.step] at hs
    split at hs
    · cases hs
    · cases hs
      exact ⟨h.wired, h.armed, h.ordered, h.follows,
        fun _ => .inl (.inr (.inl (Nat.lt_min.2 ⟨Nat.succ_pos _, by decide⟩)))⟩
  | fire ok =>
    simp only [WorkerLoop.step] at hs
    split at hs
    · next hpolls =>
      cases hs
      rw [Bool.and_eq_true, decide_eq_true_eq] at hpolls
      refine ⟨?_, h.armed, h.ordered, h.follows, fun _ => .inl (.inr (.inr ?_))⟩
      · have hsum : x.polls - 1 + (wakes x.cq + 1) = x.polls + wakes x.cq := by omega
        simp only [wakes_concat_wake, hsum]
        exact h.wired
      · simp only [wakes_concat_wake]
        exact Nat.succ_pos _
    · cases hs
  | complete =>
    cases hs
    refine ⟨?_, h.armed, h.ordered, h.follows, fun hp => ?_⟩
    · simpa using h.wired
    · simpa [Signalled, Collected] using h.posted hp
  | stop =>
    cases hs
    exact ⟨h.wired, h.armed, h.ordered, h.follows, h.posted⟩
  | iterate =>
    simp only [WorkerLoop.step] at hs
    split at hs
    · next hb =>
      split at hs
      · cases hs
        exact h.iterate hb.1 x.finished (.inl rfl)
      · split at hs
        · cases hs
          exact h.iterate hb.1 true (.inr rfl)
        · cases hs
    · cases hs
  | enter =>
    simp only [WorkerLoop.step] at hs
    split at hs
    · next call todo _ htodo =>
      cases hs
      exact h.enterCall htodo
    · cases hs
  | waitFails =>
    simp only [WorkerLoop.step] at hs
    split at hs
    · next hw =>
      cases hs
      exact h.goOn (fun he => by cases he) trivial (.inl (head_ne_dispatch (h.next hw)))
    · cases hs
  | waitReturns =>
    simp only [WorkerLoop.step] at hs
    split at hs
    · next hw =>
      cases hs
      rw [Bool.and_eq_true, decide_eq_true_eq] at hw
      have hf := h.next hw.1
      exact h.goOn (fun he => by cases he) hf (.inl (head_ne_dispatch hf))
    · cases hs
  | handle =>
    simp only [WorkerLoop.step] at hs
    split at hs
    · next count cqe cq ha hcq =>
      split at hs
      · cases hs
      · cases hs
        exact h.handleCqe ha hcq
    · cases hs
  | drained =>
    simp only [WorkerLoop.step] at hs
    split at hs
    · next count ha =>
      split at hs
      · cases hs
        have hw : x.activity ≠ .waiting := fun he => by cases ha.symm.trans he
        exact (h.take h.wired.armWakePoll.1 hw).goOn (fun he => by cases he) trivial (.inr hw)
      · cases hs
    · cases hs
  | post task =>
    simp only [WorkerLoop.step] at hs
    split at hs
    · next hu =>
      cases hs
      exact h.post hu hi
    · cases hs
  | prep =>
    simp only [WorkerLoop.step] at hs
    split at hs
    · next hu =>
      cases hs
      exact ⟨h.wired.prep, fun hw => absurd hw (userRuns_ne_waiting hu), h.ordered, h.follows,
        h.posted⟩
    · cases hs
  | submit =>
    simp only [WorkerLoop.step] at hs
    split at hs
    · next hu =>
      cases hs
      exact h.take h.wired.submit (userRuns_ne_waiting hu)
    · cases hs
  | taskReturns =>
    simp only [WorkerLoop.step] at hs
    split at hs
    · next t ts ha =>
      cases hs
      have hw : x.activity ≠ .waiting := fun he => by cases ha.symm.trans he
      refine h.goOn ?_ ?_ (.inr hw)
      · split <;> exact fun he => by cases he
      · split <;> trivial
    · cases hs
  | hooksReturn =>
    simp only [WorkerLoop.step] at hs
    split at hs
    · next ha =>
      cases hs
      have hw : x.activity ≠ .waiting := fun he => by cases ha.symm.trans he
      exact h.goOn (fun he => by cases he) trivial (.inr hw)
    · cases hs

/-- Whenever the loop is in its wait with a task posted, a wake-up is sure to come,
in every run in which no task of the `ProcessPostedTasks` before a `Dispatch`
posts to its own ring. -/
theorem signalled_at_wait (submitBatchSize cqeBatchBudget : Nat) (is : List LoopInput)
    (h : Trace.Steps WorkerLoop.step StepCollected (started submitBatchSize cqeBatchBudget) is) :
    Trace.Visits WorkerLoop.step
      (fun x => x.activity = .waiting → x.posted ≠ [] → WakeGuaranteed x)
      (started submitBatchSize cqeBatchBudget) is := by
  refine Trace.visits_of_steps (J := Inv) (fun _ => Inv.wakeGuaranteed)
    (fun _ _ _ h hs hi => h.step hs hi) is ⟨?_, ?_, ?_, ?_, ?_⟩ h
  · exact ⟨rfl, rfl, rfl⟩
  · exact fun hw => by cases hw
  · exact trivial
  · exact fun hd => by cases hd
  · exact fun hp => absurd rfl hp

/-- Another thread posts while the loop waits, and `on_start` has posted before. -/
theorem signalled_at_wait_foreign_post :
    Trace.Steps WorkerLoop.step StepCollected (started 1 0)
        [.post 1, .hooksReturn, .iterate, .enter, .taskReturns, .enter, .push 2, .write] ∧
      Trace.Visits WorkerLoop.step
        (fun x => x.activity = .waiting → x.posted ≠ [] → WakeGuaranteed x) (started 1 0)
        [.post 1, .hooksReturn, .iterate, .enter, .taskReturns, .enter, .push 2, .write] := by
  have h : Trace.Steps WorkerLoop.step StepCollected (started 1 0)
      [.post 1, .hooksReturn, .iterate, .enter, .taskReturns, .enter, .push 2, .write] :=
    .cons rfl (fun _ hts => by cases hts) <| .cons rfl trivial <| .cons rfl trivial <|
      .cons rfl trivial <| .cons rfl trivial <| .cons rfl trivial <| .cons rfl trivial <|
      .cons rfl trivial trivial
  exact ⟨h, signalled_at_wait 1 0 _ h⟩

/-- A posted task posts another one to its own ring. The loop goes on to its wait
with nothing that could end it but the timeout. -/
theorem post_before_wait :
    ∃ x, Trace.run WorkerLoop.step (started 1 0)
        [.post 1, .hooksReturn, .iterate, .enter, .post 2, .taskReturns, .enter] = some x ∧
      x.activity = .waiting ∧ x.posted = [2] ∧ x.counter = 0 ∧ x.cq = [] ∧ x.writers = 0 :=
  ⟨_, rfl, rfl, rfl, rfl, rfl, rfl⟩

end WorkerLoop

end IouringRuntime
