import Mathlib.Algebra.GroupWithZero.Nat
import Mathlib.Logic.Function.Basic
import IouringRuntime.Reentrant.Trace
import IouringRuntime.Concurrent.Threads

/-!
# Job queues

A `JobQueue` runs its jobs one at a time and in order although any thread may
push and any worker may execute. The worker that runs it is whoever took its
entry out of the `GlobalQueue`; the entry is put there by the push that raises
`job_count_` from zero, and by a worker that stops at its deadline.

`State` has the atomic steps of all threads interleaved: every `fetch_add`,
every critical section and every registration is a step of its own. A job may
push; its pushes are pushes like those of any other thread, so a run is not
restricted by who makes them. `job_count_` is an unbounded integer here: it
wraps only with 2^31 jobs waiting.
-/

namespace IouringRuntime

/-- The members of a `JobQueue`, and what happened to its jobs. -/
structure JobQueue (J : Type) where
  jobs : List J := []
  jobCount : Int := 0
  /-- Every job, in the order of the `push_back`s. -/
  stored : List J := []
  /-- Every job that has been run, in that order; the last may still be running. -/
  started : List J := []

namespace JobQueue

variable {J : Type}

def fetchAdd (q : JobQueue J) : JobQueue J := { q with jobCount := q.jobCount + 1 }

def pushBack (q : JobQueue J) (job : J) : JobQueue J :=
  { q with jobs := q.jobs ++ [job], stored := q.stored ++ [job] }

/-- `std::exchange(jobs_, {})`. -/
def takeJobs (q : JobQueue J) : JobQueue J := { q with jobs := [] }

def startJob (q : JobQueue J) (job : J) : JobQueue J := { q with started := q.started ++ [job] }

/-- `jobs_.insert(jobs_.begin(), …)`. -/
def returnJobs (q : JobQueue J) (rest : List J) : JobQueue J := { q with jobs := rest ++ q.jobs }

def fetchSub (q : JobQueue J) (processed : Nat) : JobQueue J :=
  { q with jobCount := q.jobCount - processed }

end JobQueue

/-- Where a worker is in `JobQueue::Execute`: the jobs of its batch still to be
run and `executed_count`. -/
inductive ExecutePc (J : Type) where
  | takeBatch
  | nextJob (rest : List J) (executed : Nat)
  | running (job : J) (rest : List J) (executed : Nat)
  | returnRest (rest : List J) (executed : Nat)
  | subtract (executed : Nat)
  | checkDeadline
  | register

namespace ExecutePc

variable {J : Type}

/-- One step of `Execute`; `late` is what the deadline test finds. `none` when
`Execute` returns. -/
def step (late : Bool) (q : JobQueue J) : ExecutePc J → JobQueue J × Option (ExecutePc J)
  | takeBatch => (q.takeJobs, some (nextJob q.jobs 0))
  | nextJob [] executed => (q, some (subtract executed))
  | nextJob (job :: rest) executed => (q.startJob job, some (running job rest executed))
  | running _ rest executed =>
    if late then
      if rest.isEmpty then (q, some (subtract (executed + 1)))
      else (q, some (returnRest rest (executed + 1)))
    else (q, some (nextJob rest (executed + 1)))
  | returnRest rest executed => (q.returnJobs rest, some (subtract executed))
  | subtract executed =>
    if (q.fetchSub executed).jobCount ≤ 0 then (q.fetchSub executed, none)
    else (q.fetchSub executed, some checkDeadline)
  | checkDeadline => if late then (q, some register) else (q, some takeBatch)
  | register => (q, none)

/-- The step is `gq_.Push(this)`. -/
def registers : ExecutePc J → Bool
  | register => true
  | _ => false

/-- The jobs of the batch that have not been run. -/
def rest : ExecutePc J → List J
  | nextJob rest _ | running _ rest _ | returnRest rest _ => rest
  | _ => []

/-- How many of the jobs counted by `job_count_` the worker holds. -/
def held : ExecutePc J → Nat
  | nextJob rest executed | returnRest rest executed => rest.length + executed
  | running _ rest executed => rest.length + executed + 1
  | subtract executed => executed
  | _ => 0

def job? : ExecutePc J → Option J
  | running job _ _ => some job
  | _ => none

/-! ## What one step of `Execute` does -/

/-- The jobs stay in order: those run, those of the batch, those in the queue. -/
theorem step_order (late : Bool) (q : JobQueue J) (pc : ExecutePc J) :
    (step late q pc).1.stored = q.stored ∧
    (step late q pc).1.started ++ ((step late q pc).2.toList.flatMap rest ++ (step late q pc).1.jobs) =
      q.started ++ (pc.rest ++ q.jobs) := by
  fun_cases step late q pc <;>
    simp_all [JobQueue.takeJobs, JobQueue.startJob, JobQueue.returnJobs, JobQueue.fetchSub, rest]

/-- The count stays that of the jobs in the queue and in the worker's hands. -/
theorem step_count (late : Bool) (q : JobQueue J) (pc : ExecutePc J) :
    (step late q pc).1.jobCount + (q.jobs.length + pc.held : Nat) =
      q.jobCount +
        ((step late q pc).1.jobs.length + ((step late q pc).2.toList.map held).sum : Nat) := by
  fun_cases step late q pc <;>
    simp_all [JobQueue.takeJobs, JobQueue.startJob, JobQueue.returnJobs, JobQueue.fetchSub, held] <;>
    omega

/-- The worker leaves with a count of zero, or having registered the queue;
otherwise the count is positive or unchanged. -/
theorem step_leaves (late : Bool) (q : JobQueue J) (pc : ExecutePc J) :
    ((step late q pc).2 = none ∧ pc.registers = false ∧ (step late q pc).1.jobCount ≤ 0) ∨
    ((step late q pc).2 = none ∧ pc.registers = true ∧
      (step late q pc).1.jobCount = q.jobCount) ∨
    (∃ pc', (step late q pc).2 = some pc' ∧ pc.registers = false ∧
      ((step late q pc).1.jobCount = q.jobCount ∨ 0 < (step late q pc).1.jobCount)) := by
  fun_cases step late q pc <;>
    simp_all [JobQueue.takeJobs, JobQueue.startJob, JobQueue.returnJobs, JobQueue.fetchSub,
      registers]

end ExecutePc

end IouringRuntime
