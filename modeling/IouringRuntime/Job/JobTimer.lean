import Mathlib.Data.List.Perm.Basic
import IouringRuntime.Job.GlobalQueue

/-!
# Reserved jobs

A `JobTimer` keeps jobs until they are due and then pushes them to their queues. Any
thread may call `Reserve`; every worker calls `DistributeExpired`, which holds `mutex_`
while it takes the jobs that are due, the earliest first. Both read the clock before
they have the lock. The priority queue is the list of what is in it: which of several
jobs with the same time is on top is open.

The push of a job goes on as a push of the `JobSystem`; the thread that distributes
waits for it, which is left out. A target is a `weak_ptr`: a job whose queue is gone by
then is dropped.
-/

namespace IouringRuntime

structure ReservedJob (Q J : Type) where
  executeAt : Nat
  target : Q
  job : J
  deriving DecidableEq, Repr

/-- `now` belongs to the thread that is inside `DistributeExpired`, and `gone` has the
queues whose last `shared_ptr` is. `reserved`, `handed` and `dropped` are history: all
calls of `Reserve`, the jobs that were pushed with the time at which that was, and those
that were not. -/
structure JobTimer (Q J : Type) where
  jobs : JobSystem Q J := {}
  queue : List (ReservedJob Q J) := []
  clock : Nat := 0
  now : Option Nat := none
  gone : Q → Bool := fun _ => false
  dropped : List (ReservedJob Q J) := []
  reserved : List (ReservedJob Q J) := []
  handed : List (ReservedJob Q J × Nat) := []

/-- `read` is the time that was read before the lock. -/
inductive TimerInput (Q J : Type) where
  | pass (time : Nat)
  | jobs (i : JobInput Q J)
  | release (q : Q)
  | reserve (read delay : Nat) (target : Q) (job : J)
  | distributeExpired (read : Nat)
  | pop (k : Nat)
  | finish

namespace JobTimer

variable {Q J : Type} [DecidableEq Q]

def reserve (s : JobTimer Q J) (r : ReservedJob Q J) : JobTimer Q J :=
  { s with queue := s.queue ++ [r], reserved := s.reserved ++ [r] }

/-- `queue_.pop()` and `owner->Push`. -/
def hand (s : JobTimer Q J) (k : Nat) (r : ReservedJob Q J) : JobTimer Q J :=
  { s with
    queue := s.queue.eraseIdx k
    jobs := s.jobs.push r.target r.job
    handed := s.handed ++ [(r, s.clock)] }

/-- `queue_.pop()` when `target.lock()` finds nothing. -/
def drop (s : JobTimer Q J) (k : Nat) (r : ReservedJob Q J) : JobTimer Q J :=
  { s with queue := s.queue.eraseIdx k, dropped := s.dropped ++ [r] }

/-- `r` may be on top, and is due. -/
def Due (s : JobTimer Q J) (now : Nat) (r : ReservedJob Q J) : Prop :=
  r.executeAt ≤ now ∧ ∀ r' ∈ s.queue, r.executeAt ≤ r'.executeAt

instance (s : JobTimer Q J) (now : Nat) (r : ReservedJob Q J) : Decidable (s.Due now r) :=
  inferInstanceAs (Decidable (_ ∧ _))

def step (s : JobTimer Q J) : TimerInput Q J → Option (JobTimer Q J)
  | .pass time => some { s with clock := s.clock + time }
  | .jobs i => (s.jobs.step i).map fun jobs => { s with jobs }
  | .release q => some { s with gone := Function.update s.gone q true }
  | .reserve read delay target job =>
    if s.now = none ∧ read ≤ s.clock then some (s.reserve ⟨read + delay, target, job⟩) else none
  | .distributeExpired read =>
    if s.now = none ∧ read ≤ s.clock then some { s with now := some read } else none
  | .pop k =>
    match s.now, s.queue[k]? with
    | some now, some r =>
      if s.Due now r then some (if s.gone r.target then s.drop k r else s.hand k r) else none
    | _, _ => none
  | .finish =>
    match s.now with
    | some now => if ∀ r ∈ s.queue, now < r.executeAt then some { s with now := none } else none
    | none => none

abbrev Reachable (s : JobTimer Q J) : Prop := Trace.Reachable step {} s

/-! ## What a step does -/

/-- A step by what it does to the timer. -/
inductive Move (s : JobTimer Q J) : JobTimer Q J → Prop where
  | pass (time : Nat) : Move s { s with clock := s.clock + time }
  | jobs (i : JobInput Q J) (jobs : JobSystem Q J) (hi : s.jobs.step i = some jobs) :
      Move s { s with jobs }
  | release (q : Q) : Move s { s with gone := Function.update s.gone q true }
  | reserve (r : ReservedJob Q J) : Move s (s.reserve r)
  | drop (k : Nat) (r : ReservedJob Q J) (hk : s.queue[k]? = some r)
      (hgone : s.gone r.target = true) : Move s (s.drop k r)
  | hand (k now : Nat) (r : ReservedJob Q J) (hk : s.queue[k]? = some r) (hnow : s.now = some now)
      (hdue : s.Due now r) : Move s (s.hand k r)
  | lock (now : Option Nat) (hnow : ∀ n, now = some n → n ≤ s.clock) : Move s { s with now }

variable {s s' : JobTimer Q J}

theorem step_move {i : TimerInput Q J} (hs : s.step i = some s') : Move s s' := by
  cases i with
  | pass time => cases hs; exact .pass time
  | jobs i =>
    obtain ⟨jobs, hi, rfl⟩ := Option.map_eq_some_iff.1 hs
    exact .jobs i jobs hi
  | release q => cases hs; exact .release q
  | reserve read delay target job =>
    simp only [step] at hs
    split at hs
    · cases hs; exact .reserve _
    · cases hs
  | distributeExpired read =>
    simp only [step] at hs
    split at hs
    · next hread =>
      cases hs
      exact .lock (some read) fun n hn => Option.some.inj hn ▸ hread.2
    · cases hs
  | pop k =>
    simp only [step] at hs
    split at hs
    · next now r hnow hk =>
      split at hs
      · next hdue =>
        cases hs
        split
        · next hgone => exact .drop k r hk hgone
        · exact .hand k now r hk hnow hdue
      · cases hs
    · cases hs
  | finish =>
    simp only [step] at hs
    split at hs
    · split at hs
      · cases hs; exact .lock none nofun
      · cases hs
    · cases hs

end JobTimer

/-! ## The jobs submitted to a queue -/

namespace JobSystem

variable {Q J : Type} [DecidableEq Q]

/-- The push has yet to store one of the jobs `p` in the queue. -/
def stores (q : Q) (p : J → Bool) (c : PushCall Q J) : Bool :=
  decide (c.queue = q) && !c.stored && p c.job

/-- How many of the jobs `p` the pushes to a queue have stored or still have to store. -/
def submitted (s : JobSystem Q J) (q : Q) (p : J → Bool) : Nat :=
  s.pushes.countP (stores q p) + (s.queue q).stored.countP p

variable {s t : JobSystem Q J} {q : Q} {p : J → Bool}

theorem submitted_push (s : JobSystem Q J) (q' : Q) (job : J) :
    (s.push q' job).submitted q p = s.submitted q p + if q' = q ∧ p job then 1 else 0 := by
  have hstored : ((s.push q' job).queue q).stored = (s.queue q).stored := by
    by_cases hq : q = q'
    · subst hq
      simp [push, JobQueue.fetchAdd]
    · simp [push, hq]
  have hpushes : (s.push q' job).pushes.countP (stores q p) =
      s.pushes.countP (stores q p) + if q' = q ∧ p job then 1 else 0 := by
    simp [push, stores, List.countP_append, List.countP_cons]
  rw [submitted, submitted, hstored, hpushes]
  omega

theorem submitted_pushRegister {i : Nat} {c : PushCall Q J} (hc : s.pushes[i]? = some c)
    (hstored : c.stored = true) : (s.pushRegister i c).submitted q p = s.submitted q p := by
  have hput := Threads.count_put (stores q p) hc []
  have hnot : stores q p c = false := by simp [stores, hstored]
  rw [List.countP_singleton, hnot, if_neg Bool.false_ne_true] at hput
  exact congrArg (· + (s.queue q).stored.countP p) hput

theorem submitted_pushStore {i : Nat} {c : PushCall Q J} (hc : s.pushes[i]? = some c)
    (hstored : c.stored = false) : (s.pushStore i c).submitted q p = s.submitted q p := by
  have hput := Threads.count_put (stores q p) hc
    (if c.prev = 0 then [{ c with stored := true }] else [])
  have hdone : (if c.prev = 0 then [{ c with stored := true }] else []).countP
      (stores q p) = 0 := by
    split <;> simp [stores]
  rw [hdone, List.countP_singleton] at hput
  have hpushes : (s.pushStore i c).pushes.countP (stores q p) +
      (if stores q p c = true then 1 else 0) = s.pushes.countP (stores q p) := hput
  by_cases hq : c.queue = q
  · have hjob : stores q p c = p c.job := by simp [stores, hq, hstored]
    have hqueue : ((s.pushStore i c).queue q).stored = (s.queue q).stored ++ [c.job] := by
      subst hq
      simp [pushStore, JobQueue.pushBack]
    rw [submitted, submitted, hqueue, List.countP_append, List.countP_singleton]
    rw [hjob] at hpushes
    omega
  · have hnot : stores q p c = false := by simp [stores, hq]
    have hqueue : (s.pushStore i c).queue q = s.queue q := Function.update_of_ne (Ne.symm hq) ..
    rw [hnot, if_neg Bool.false_ne_true] at hpushes
    rw [submitted, submitted, hqueue, ← hpushes]
    rfl

theorem submitted_execute (k : Nat) (late : Bool) (w : Worker Q J) :
    (s.execute k late w).submitted q p = s.submitted q p := by
  have hstored : ((s.execute k late w).queue q).stored = (s.queue q).stored := by
    by_cases hq : q = w.queue
    · subst hq
      have hqueue : (s.execute k late w).queue w.queue =
          (w.pc.step late (s.queue w.queue)).1 := Function.update_self ..
      rw [hqueue]
      exact (ExecutePc.step_order late _ w.pc).1
    · exact congrArg JobQueue.stored (Function.update_of_ne hq ..)
  rw [submitted, submitted, hstored]
  rfl

/-- Only a push changes what is submitted. -/
theorem submitted_le_step {i : JobInput Q J} (hs : s.step i = some t) :
    s.submitted q p ≤ t.submitted q p := by
  cases i with
  | push q' job =>
    cases hs
    rw [submitted_push]
    exact Nat.le_add_right _ _
  | pushNext i =>
    obtain ⟨c, hc, rfl⟩ := Option.map_eq_some_iff.1 hs
    split
    · next hstored => exact (submitted_pushRegister hc hstored).ge
    · next hstored => exact (submitted_pushStore hc (Bool.eq_false_iff.2 hstored)).ge
  | tryPop =>
    simp only [step, tryPop] at hs
    split at hs
    · cases hs
    · cases hs
      exact Nat.le_refl _
  | execute k late =>
    obtain ⟨w, -, rfl⟩ := Option.map_eq_some_iff.1 hs
    exact (submitted_execute k late w).ge

/-- A queue with a submitted job that has not been started is registered, being
registered, or has its worker. -/
theorem InvOf.token_of_waiting (h : s.InvOf q)
    (hlt : (s.queue q).started.countP p < s.submitted q p) :
    s.global.count q + (s.workersOn q).length + s.registering q = 1 := by
  have htoken := h.token
  rw [List.length_map] at htoken
  by_cases hpos : 0 < (s.queue q).jobCount
  · rwa [if_pos hpos] at htoken
  · have hunstored : s.unstored q = 0 := by
      have := h.count
      omega
    have hstores : s.pushes.countP (stores q p) ≤ s.unstored q :=
      List.countP_mono_left fun c _ hc => by
        simp only [stores, Bool.and_eq_true, decide_eq_true_eq, Bool.not_eq_true'] at hc
        exact decide_eq_true hc.1
    rw [submitted, h.started_eq hpos] at hlt
    omega

end JobSystem

namespace JobTimer

variable {Q J : Type} [DecidableEq Q] {s s' : JobTimer Q J}

/-- The jobs `p` handed over for a queue. -/
def handedTo (s : JobTimer Q J) (q : Q) (p : J → Bool) : Nat :=
  s.handed.countP fun h => decide (h.1.target = q) && p h.1.job

/-- The timer's own invariant, beside that of the jobs it pushes. -/
structure Sound (s : JobTimer Q J) : Prop where
  once : (s.handed.map Prod.fst ++ (s.dropped ++ s.queue)).Perm s.reserved
  gone : ∀ r ∈ s.dropped, s.gone r.target = true
  due : ∀ p ∈ s.handed, p.1.executeAt ≤ p.2
  past : ∀ now, s.now = some now → now ≤ s.clock
  pushed : ∀ q p, s.handedTo q p ≤ s.jobs.submitted q p
  system : s.jobs.Reachable

theorem perm_eraseIdx {α : Type} {l : List α} {k : Nat} {r : α} (hk : l[k]? = some r) :
    (r :: l.eraseIdx k).Perm l := by
  obtain ⟨hlt, rfl⟩ := List.getElem?_eq_some_iff.1 hk
  exact List.getElem_cons_eraseIdx_perm hlt

theorem Sound.move (h : Sound s) (hm : Move s s') : Sound s' := by
  cases hm with
  | pass time =>
    exact ⟨h.once, h.gone, h.due, fun now hnow => (h.past now hnow).trans (Nat.le_add_right _ _),
      h.pushed, h.system⟩
  | jobs i jobs hi =>
    exact ⟨h.once, h.gone, h.due, h.past,
      fun q p => (h.pushed q p).trans (JobSystem.submitted_le_step hi), h.system.step i hi⟩
  | release q =>
    refine ⟨h.once, fun r hr => ?_, h.due, h.past, h.pushed, h.system⟩
    show Function.update s.gone q true r.target = true
    rw [Function.update_apply, h.gone r hr, ite_self]
  | reserve r =>
    refine ⟨?_, h.gone, h.due, h.past, h.pushed, h.system⟩
    show (s.handed.map Prod.fst ++ (s.dropped ++ (s.queue ++ [r]))).Perm (s.reserved ++ [r])
    rw [← List.append_assoc, ← List.append_assoc, List.append_assoc _ s.dropped]
    exact h.once.append_right [r]
  | drop k r hk hgone =>
    refine ⟨?_, fun r' hr' => ?_, h.due, h.past, h.pushed, h.system⟩
    · show (s.handed.map Prod.fst ++ (s.dropped ++ [r] ++ s.queue.eraseIdx k)).Perm s.reserved
      rw [List.append_assoc]
      exact (((perm_eraseIdx hk).append_left _).append_left _).trans h.once
    · rcases List.mem_append.1 hr' with hr' | hr'
      · exact h.gone r' hr'
      · rwa [List.mem_singleton.1 hr']
  | hand k now r hk hnow hdue =>
    refine ⟨?_, h.gone, fun p hp => ?_, h.past, fun q p => ?_,
      h.system.step (.push r.target r.job) rfl⟩
    · have hdropped : (r :: (s.dropped ++ s.queue.eraseIdx k)).Perm (s.dropped ++ s.queue) :=
        List.perm_middle.symm.trans ((perm_eraseIdx hk).append_left _)
      show ((s.handed ++ [(r, s.clock)]).map Prod.fst ++ (s.dropped ++ s.queue.eraseIdx k)).Perm
        s.reserved
      rw [List.map_append, List.append_assoc]
      exact (hdropped.append_left _).trans h.once
    · rcases List.mem_append.1 hp with hp | hp
      · exact h.due p hp
      · cases List.mem_singleton.1 hp
        exact hdue.1.trans (h.past now hnow)
    · have hpushed := h.pushed q p
      show (s.hand k r).handedTo q p ≤ (s.jobs.push r.target r.job).submitted q p
      rw [JobSystem.submitted_push]
      simp only [handedTo, hand, List.countP_append, List.countP_cons, List.countP_nil] at hpushed ⊢
      by_cases hq : r.target = q <;> cases p r.job <;> simp [hq] <;> omega
  | lock now hnow => exact ⟨h.once, h.gone, h.due, hnow, h.pushed, h.system⟩

theorem Reachable.sound (hr : Reachable s) : Sound s :=
  hr.invariant (fun _ _ _ h hs => h.move (step_move hs))
    ⟨List.Perm.nil, nofun, nofun, nofun, fun _ _ => Nat.le_refl 0, .refl⟩

end JobTimer

end IouringRuntime
