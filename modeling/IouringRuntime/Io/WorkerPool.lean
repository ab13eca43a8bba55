import IouringRuntime.Reentrant.Trace

/-!
# The worker pool

`WorkerPool::Start` builds one worker for each index and keeps those whose
`Worker::Start` succeeds; `GetWorker` takes the id for a position in the vector
of those. Which workers start is up to the environment, at every call of `Start`.

Position and id agree exactly as long as no worker fails before one that starts
(`getWorker_by_id_iff`).
-/

namespace IouringRuntime

/-- A `uint16`. `Start` counts to 65535 at most, so that an index never wraps. -/
abbrev ContextId := Nat

structure Address where
  host : String := "0.0.0.0"
  port : UInt16 := 0
  deriving DecidableEq, Repr

structure RingBufferConfig where
  bufCount : UInt32 := 1024
  bufSize : UInt32 := 8192
  groupId : UInt16 := 1
  deriving DecidableEq, Repr

structure IoRingConfig where
  queueDepth : Nat := 2048
  bufRing : RingBufferConfig := {}
  submitBatchSize : UInt32 := 1
  cqeBatchBudget : UInt32 := 0
  singleIssuer : Bool := false
  sqpoll : Bool := false
  sqThreadIdle : UInt32 := 1000
  sqThreadCpu : Int := -1
  deriving DecidableEq, Repr

/-- Times are in milliseconds. -/
structure WorkerPoolConfig where
  address : Address := {}
  ring : IoRingConfig := {}
  workerCount : UInt16 := 1
  maxSessionsPerWorker : UInt32 := 0
  ioTimeout : Int := 1
  drainTimeout : Int := 1000
  forceCloseTimeout : Int := 200
  deriving DecidableEq, Repr

structure WorkerConfig where
  id : ContextId := 0
  address : Address := {}
  ring : IoRingConfig := {}
  maxSessions : UInt32 := 0
  ioTimeout : Int := 1
  drainTimeout : Int := 1000
  forceCloseTimeout : Int := 200
  deriving DecidableEq, Repr

/-- `workers` holds the configuration of each worker; `started` is history, the
ids of the workers that have been started and not been stopped since. -/
structure WorkerPool where
  config : WorkerPoolConfig
  workers : List WorkerConfig := []
  started : List ContextId := []
  deriving DecidableEq, Repr

namespace WorkerPool

/-- What `Start` gives the worker with index `i`. -/
def workerConfig (config : WorkerPoolConfig) (i : Nat) : WorkerConfig where
  id := i
  address := config.address
  ring := { config.ring with
    bufRing := { config.ring.bufRing with groupId := UInt16.ofNat (i + 1) } }
  maxSessions := config.maxSessionsPerWorker
  ioTimeout := config.ioTimeout
  drainTimeout := config.drainTimeout
  forceCloseTimeout := config.forceCloseTimeout

def count (config : WorkerPoolConfig) : Nat :=
  max 1 config.workerCount.toNat

/-- The loop of `Start` from index `i` on, with `n` indices to go; `starts` says
which `Worker::Start` succeeds. -/
def startLoop (starts : ContextId → Bool) : Nat → Nat → WorkerPool → WorkerPool
  | 0, _, p => p
  | n + 1, i, p =>
    if starts i then
      startLoop starts n (i + 1)
        { p with workers := p.workers ++ [workerConfig p.config i], started := p.started ++ [i] }
    else startLoop starts n (i + 1) p

def start (p : WorkerPool) (starts : ContextId → Bool) : WorkerPool × Bool :=
  if p.workers ≠ [] then (p, true)
  else
    let p := startLoop starts (count p.config) 0 p
    (p, p.workers ≠ [])

def stop (p : WorkerPool) : WorkerPool :=
  { p with workers := [], started := [] }

def getWorker (p : WorkerPool) (id : ContextId) : Option WorkerConfig :=
  if id ≥ p.workers.length then none else p.workers[id]?

inductive PoolCall where
  | start (starts : ContextId → Bool)
  | stop

def step (p : WorkerPool) : PoolCall → Option WorkerPool
  | .start starts => some (p.start starts).1
  | .stop => some p.stop

/-! ## What a start leaves -/

theorem startLoop_eq (starts : ContextId → Bool) (n : Nat) : ∀ (i : Nat) (p : WorkerPool),
    startLoop starts n i p =
      { p with
        workers := p.workers ++ ((List.range' i n).filter starts).map (workerConfig p.config)
        started := p.started ++ (List.range' i n).filter starts } := by
  induction n with
  | zero => intro i p; simp [startLoop]
  | succ n ih =>
    intro i p
    rw [startLoop, List.range'_succ]
    split
    · next h => rw [ih, List.filter_cons_of_pos h]; simp
    · next h => rw [ih, List.filter_cons_of_neg h]

/-- The ids that start, out of all of them. -/
def startedIds (config : WorkerPoolConfig) (starts : ContextId → Bool) : List ContextId :=
  (List.range (count config)).filter starts

theorem start_of_empty {p : WorkerPool} (starts : ContextId → Bool) (hw : p.workers = [])
    (hs : p.started = []) :
    (p.start starts).1 =
      { p with workers := (startedIds p.config starts).map (workerConfig p.config)
               started := startedIds p.config starts } := by
  rw [start, if_neg (fun h => h hw), startLoop_eq, hw, hs, ← List.range_eq_range']
  rfl

theorem start_of_nonempty {p : WorkerPool} (starts : ContextId → Bool) (hw : p.workers ≠ []) :
    (p.start starts).1 = p := by
  rw [start, if_pos hw]

theorem getWorker_eq (p : WorkerPool) (id : ContextId) : p.getWorker id = p.workers[id]? := by
  rw [getWorker]
  split
  · next h => rw [List.getElem?_eq_none h]
  · rfl

/-! ## Positions and ids -/

/-- No worker fails before one that starts. -/
def NoGap (config : WorkerPoolConfig) (starts : ContextId → Bool) : Prop :=
  ∀ j < count config, starts j = true → ∀ i < j, starts i = true

theorem filter_range_of_noGap (starts : ContextId → Bool) (n : Nat)
    (h : ∀ j < n, starts j = true → ∀ i < j, starts i = true) :
    ∃ m, (List.range n).filter starts = List.range m := by
  induction n with
  | zero => exact ⟨0, rfl⟩
  | succ n ih =>
    rw [List.range_succ, List.filter_append]
    cases hn : starts n with
    | true =>
      -- everything before `n` has started as well
      have hall : (List.range n).filter starts = List.range n := by
        refine List.filter_eq_self.2 fun i hi => ?_
        exact h n (by omega) hn i (List.mem_range.1 hi)
      refine ⟨n + 1, ?_⟩
      rw [hall, List.filter_cons_of_pos hn, List.filter_nil, List.range_succ]
    | false =>
      obtain ⟨m, hm⟩ := ih fun j hj => h j (by omega)
      refine ⟨m, ?_⟩
      rw [hm, List.filter_cons_of_neg (by simp [hn]), List.filter_nil, List.append_nil]

theorem noGap_of_positions {config : WorkerPoolConfig} {starts : ContextId → Bool}
    (h : ∀ k id : ContextId, (startedIds config starts)[k]? = some id → id = k) :
    NoGap config starts := by
  intro j hj hs i hi
  have hmem : j ∈ startedIds config starts :=
    List.mem_filter.2 ⟨List.mem_range.2 hj, hs⟩
  obtain ⟨k, hk⟩ := List.getElem?_of_mem hmem
  obtain rfl := h k j hk
  -- position `i` is in front of the one of `j`, and what stands there is `i`
  have hlen : i < (startedIds config starts).length :=
    Nat.lt_trans hi (List.getElem?_eq_some_iff.1 hk).1
  have hget := List.getElem?_eq_getElem hlen
  have hmem' := List.getElem_mem hlen
  rw [h i _ hget] at hmem'
  exact (List.mem_filter.1 hmem').2

/-! ## Lookup by id -/

/-- `GetWorker(id)` is null or the worker with that id, and it is not null if
the worker with that id has started. -/
def ById (p : WorkerPool) : Prop :=
  ∀ id, (∀ w, p.getWorker id = some w → w.id = id) ∧
    (id ∈ p.started → (p.getWorker id).isSome)

/-- Each worker stands at its id, and all that have started are there. -/
structure Aligned (p : WorkerPool) : Prop where
  positions : p.workers.map (·.id) = List.range p.workers.length
  started : p.started = p.workers.map (·.id)

theorem Aligned.byId {p : WorkerPool} (h : Aligned p) : ById p := by
  intro id
  constructor
  · intro w hw
    rw [getWorker_eq] at hw
    have hid : (p.workers.map (·.id))[id]? = some w.id := by rw [List.getElem?_map, hw]; rfl
    rw [h.positions] at hid
    exact (List.getElem?_eq_some_iff.1 hid).2.symm.trans (List.getElem_range _)
  · intro hid
    rw [h.started, h.positions, List.mem_range] at hid
    rw [getWorker_eq, List.getElem?_eq_getElem hid]
    rfl

theorem Aligned.empty {p : WorkerPool} (h : Aligned p) (hw : p.workers = []) : p.started = [] := by
  rw [h.started, hw, List.map_nil]

theorem aligned_stop (p : WorkerPool) : Aligned p.stop := ⟨rfl, rfl⟩

theorem aligned_start {p : WorkerPool} {starts : ContextId → Bool} (hp : Aligned p)
    (h : p.workers = [] → NoGap p.config starts) : Aligned (p.start starts).1 := by
  by_cases hw : p.workers = []
  · obtain ⟨m, hm⟩ := filter_range_of_noGap starts (count p.config) (h hw)
    have hids : startedIds p.config starts = List.range m := hm
    have hmap : (List.range m).map ((·.id) ∘ workerConfig p.config) = List.range m :=
      List.map_id' _
    rw [start_of_empty starts hw (hp.empty hw), hids]
    exact ⟨by simp [hmap], by simp [hmap]⟩
  · rw [start_of_nonempty starts hw]
    exact hp

theorem noGap_of_byId {p : WorkerPool} {starts : ContextId → Bool} (hp : Aligned p)
    (hw : p.workers = []) (h : ById (p.start starts).1) : NoGap p.config starts := by
  rw [start_of_empty starts hw (hp.empty hw)] at h
  refine noGap_of_positions fun k id hk => ?_
  refine (h k).1 (workerConfig p.config id) ?_
  rw [getWorker_eq, List.getElem?_map, hk]
  rfl

/-- The condition on a call: a `Start` that starts workers starts them without
a gap. -/
def StartsNoGap (p : WorkerPool) : PoolCall → Prop
  | .start starts => p.workers = [] → NoGap p.config starts
  | .stop => True

/-- Over every history of the pool, whichever workers fail at each `Start`:
lookup is by id throughout iff no `Start` has a worker fail before one that
starts. -/
theorem getWorker_by_id_iff (config : WorkerPoolConfig) (calls : List PoolCall) :
    Trace.Visits step ById { config } calls ↔ Trace.Steps step StartsNoGap { config } calls := by
  refine Trace.visits_iff_steps (J := Aligned) (fun _ => Aligned.byId) ?_ ?_ calls ⟨rfl, rfl⟩
  · intro p c p' hp hstep hc
    cases c with
    | start starts => cases hstep; exact aligned_start hp hc
    | stop => cases hstep; exact aligned_stop p
  · intro p c p' hp hstep hc hby
    cases c with
    | start starts => cases hstep; exact hc fun hw => noGap_of_byId hp hw hby
    | stop => exact hc trivial

/-- Of three workers the first fails: id 1 finds worker 2, and worker 2 is not
found under its own id. -/
theorem getWorker_first_failed :
    let p := (WorkerPool.start { config := { workerCount := 3 } } (· != 0)).1
    p.started = [1, 2] ∧ (p.getWorker 1).map (·.id) = some 2 ∧ p.getWorker 2 = none ∧
      ¬ ById p := by
  refine ⟨by decide, by decide, by decide, fun h => ?_⟩
  have h2 := (h 2).2 (by decide)
  revert h2
  decide

end WorkerPool

end IouringRuntime
