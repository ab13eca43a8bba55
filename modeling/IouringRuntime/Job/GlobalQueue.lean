import IouringRuntime.Job.JobQueue

/-!
# The global queue, pushers and workers

All `JobQueue`s of a process share one `GlobalQueue`. What keeps a queue's jobs
serial is that its entry, the worker that took it and the push that is about to
add it are the same token, handed from one to the other: there is exactly one
while `job_count_` is positive and none otherwise (`Inv.token`).
-/

namespace IouringRuntime

/-- A `JobQueue::Push` after its `fetch_add`. -/
structure PushCall (Q J : Type) where
  queue : Q
  job : J
  prev : Int
  stored : Bool := false

/-- A worker inside `Execute`. -/
structure Worker (Q J : Type) where
  queue : Q
  pc : ExecutePc J := .takeBatch

structure JobSystem (Q J : Type) where
  queue : Q → JobQueue J := fun _ => {}
  global : List Q := []
  pushes : List (PushCall Q J) := []
  workers : List (Worker Q J) := []

/-- The next atomic step of one thread. -/
inductive JobInput (Q J : Type) where
  | push (q : Q) (job : J)
  | pushNext (i : Nat)
  | tryPop
  | execute (k : Nat) (late : Bool)

namespace JobSystem

variable {Q J : Type} [DecidableEq Q]

/-- `JobQueue::Push` up to its `fetch_add`. -/
def push (s : JobSystem Q J) (q : Q) (job : J) : JobSystem Q J :=
  { s with
    queue := Function.update s.queue q (s.queue q).fetchAdd
    pushes := s.pushes ++ [{ queue := q, job, prev := (s.queue q).jobCount }] }

/-- The locked `push_back`. A push that did not see a count of zero is done. -/
def pushStore (s : JobSystem Q J) (i : Nat) (p : PushCall Q J) : JobSystem Q J :=
  { s with
    queue := Function.update s.queue p.queue ((s.queue p.queue).pushBack p.job)
    pushes := Threads.put s.pushes i (if p.prev = 0 then [{ p with stored := true }] else []) }

/-- `gq_.Push(this)`. -/
def pushRegister (s : JobSystem Q J) (i : Nat) (p : PushCall Q J) : JobSystem Q J :=
  { s with
    global := s.global ++ [p.queue]
    pushes := Threads.put s.pushes i [] }

/-- `GlobalQueue::TryPop` that finds an entry. -/
def tryPop (s : JobSystem Q J) : Option (JobSystem Q J) :=
  match s.global with
  | [] => none
  | q :: rest => some { s with global := rest, workers := s.workers ++ [{ queue := q }] }

def execute (s : JobSystem Q J) (k : Nat) (late : Bool) (w : Worker Q J) : JobSystem Q J :=
  let r := w.pc.step late (s.queue w.queue)
  { s with
    queue := Function.update s.queue w.queue r.1
    global := if w.pc.registers then s.global ++ [w.queue] else s.global
    workers := Threads.put s.workers k (r.2.toList.map fun pc => { w with pc }) }

def step (s : JobSystem Q J) : JobInput Q J → Option (JobSystem Q J)
  | .push q job => some (s.push q job)
  | .pushNext i =>
    s.pushes[i]?.map fun p => if p.stored then s.pushRegister i p else s.pushStore i p
  | .tryPop => s.tryPop
  | .execute k late => s.workers[k]?.map (s.execute k late)

abbrev Reachable (s : JobSystem Q J) : Prop := Trace.Reachable step {} s

/-- The workers active on a queue. -/
def workersOn (s : JobSystem Q J) (q : Q) : List (Worker Q J) :=
  s.workers.filter fun w => w.queue = q

/-- The jobs of a queue that are running. -/
def runningOn (s : JobSystem Q J) (q : Q) : List J := (s.workersOn q).filterMap (·.pc.job?)

/-- The pushes that saw a count of zero and have not registered the queue. -/
def registering (s : JobSystem Q J) (q : Q) : Nat :=
  s.pushes.countP fun p => p.queue = q ∧ p.prev = 0

/-- The pushes that are counted and have not stored their job. -/
def unstored (s : JobSystem Q J) (q : Q) : Nat :=
  s.pushes.countP fun p => p.queue = q ∧ p.stored = false

/-! ## One queue and its token -/

/-- A queue, the workers inside its `Execute`, its entries in the global queue
and its pushes that have yet to register it or to store their job. -/
structure Inv (q : JobQueue J) (pcs : List (ExecutePc J)) (entries registering unstored : Nat) :
    Prop where
  token : entries + pcs.length + registering = if 0 < q.jobCount then 1 else 0
  count : q.jobCount = (q.jobs.length + (pcs.map ExecutePc.held).sum + unstored : Nat)
  order : q.stored = q.started ++ (pcs.flatMap ExecutePc.rest ++ q.jobs)

section Inv

variable {jq : JobQueue J} {pcs : List (ExecutePc J)} {entries registering unstored : Nat}

theorem Inv.token_le (h : Inv jq pcs entries registering unstored) :
    entries + pcs.length + registering ≤ 1 := by
  rw [h.token]
  split <;> omega

/-- The push that raises the count from zero takes the token. -/
theorem Inv.fetchAdd (h : Inv jq pcs entries registering unstored) :
    Inv jq.fetchAdd pcs entries (registering + if jq.jobCount = 0 then 1 else 0)
      (unstored + 1) := by
  have htoken := h.token
  have hcount := h.count
  refine ⟨?_, ?_, h.order⟩
  · show _ = if 0 < jq.jobCount + 1 then 1 else 0
    split at htoken <;> split <;> split <;> omega
  · show jq.jobCount + 1 = (jq.jobs.length + _ + _ : Nat)
    omega

theorem Inv.pushBack (h : Inv jq pcs entries registering (unstored + 1)) (job : J) :
    Inv (jq.pushBack job) pcs entries registering unstored := by
  refine ⟨h.token, ?_, ?_⟩
  · show jq.jobCount = ((jq.jobs ++ [job]).length + _ + _ : Nat)
    rw [h.count, List.length_append, List.length_singleton]
    omega
  · show jq.stored ++ [job] = jq.started ++ (_ ++ (jq.jobs ++ [job]))
    rw [h.order, List.append_assoc, List.append_assoc]

/-- A count of zero leaves nothing to run. -/
theorem Inv.started_eq (h : Inv jq pcs entries registering unstored) (h0 : ¬ 0 < jq.jobCount) :
    jq.started = jq.stored := by
  have htoken := h.token
  rw [if_neg h0] at htoken
  have hpcs : pcs = [] := List.eq_nil_of_length_eq_zero (by omega)
  have hjobs : jq.jobs = [] := List.eq_nil_of_length_eq_zero (by have := h.count; omega)
  rw [h.order, hpcs, hjobs]
  exact (List.append_nil _).symm

theorem Inv.register (h : Inv jq pcs entries (registering + 1) unstored) :
    Inv jq pcs (entries + 1) registering unstored :=
  ⟨by have := h.token; omega, h.count, h.order⟩

theorem Inv.tryPop (h : Inv jq pcs (entries + 1) registering unstored) :
    Inv jq (pcs ++ [.takeBatch]) entries registering unstored := by
  refine ⟨?_, ?_, ?_⟩
  · rw [List.length_append, List.length_singleton, ← h.token]
    omega
  · simpa [ExecutePc.held] using h.count
  · simpa [ExecutePc.rest] using h.order

/-- The worker keeps the token, or hands it on when it returns. -/
theorem Inv.execute {pc : ExecutePc J} (h : Inv jq [pc] entries registering unstored)
    (late : Bool) :
    Inv (pc.step late jq).1 (pc.step late jq).2.toList
      (if pc.registers then entries + 1 else entries) registering unstored := by
  have htoken := h.token
  have hcount := h.count
  have hstep := pc.step_count late jq
  have horder := pc.step_order late jq
  simp only [List.length_singleton, List.map_cons, List.map_nil, List.sum_cons, List.sum_nil] at *
  have hpos : 0 < jq.jobCount := by
    by_contra hn
    rw [if_neg hn] at htoken
    omega
  rw [if_pos hpos] at htoken
  have hcount' : (pc.step late jq).1.jobCount = ((pc.step late jq).1.jobs.length +
      ((pc.step late jq).2.toList.map ExecutePc.held).sum + unstored : Nat) := by omega
  refine ⟨?_, hcount', ?_⟩
  · rcases pc.step_leaves late jq with ⟨hn, hr, hc⟩ | ⟨hn, hr, hc⟩ | ⟨pc', hs, hr, hc⟩
    · have hzero : ¬ 0 < (pc.step late jq).1.jobCount := by omega
      simp only [hn, hr, hzero, if_false, Option.toList_none, List.length_nil]
      simp only [Bool.false_eq_true, if_false]
      omega
    · simp only [hn, hr, hc, hpos, if_true, Option.toList_none, List.length_nil]
      omega
    · have hpos' : 0 < (pc.step late jq).1.jobCount := by omega
      simp only [hs, hr, hpos', if_true, Option.toList_some, List.length_singleton]
      simp only [Bool.false_eq_true, if_false]
      omega
  · rw [horder.1, h.order, horder.2]
    simp

end Inv

/-! ## The steps of all threads -/

/-- The invariant of the queue `q` in the system. -/
def InvOf (s : JobSystem Q J) (q : Q) : Prop :=
  Inv (s.queue q) ((s.workersOn q).map Worker.pc) (s.global.count q) (s.registering q)
    (s.unstored q)

variable {s t : JobSystem Q J} {q : Q}

theorem InvOf.intro {jq : JobQueue J} {pcs : List (ExecutePc J)}
    {entries registering unstored : Nat} (h : Inv jq pcs entries registering unstored)
    (hq : s.queue q = jq) (hw : (s.workersOn q).map Worker.pc = pcs)
    (hg : s.global.count q = entries) (hr : s.registering q = registering)
    (hu : s.unstored q = unstored) : s.InvOf q := by
  unfold InvOf
  rw [hq, hw, hg, hr, hu]
  exact h

/-- Nothing that concerns the queue has changed. -/
theorem InvOf.congr (h : s.InvOf q) (hq : t.queue q = s.queue q)
    (hw : t.workersOn q = s.workersOn q) (hg : t.global.count q = s.global.count q)
    (hr : t.registering q = s.registering q) (hu : t.unstored q = s.unstored q) : t.InvOf q :=
  .intro h hq (congrArg _ hw) hg hr hu

theorem invOf_push (h : s.InvOf q) (q' : Q) (job : J) : (s.push q' job).InvOf q := by
  have hreg : (s.push q' job).registering q =
      s.registering q + if q' = q ∧ (s.queue q').jobCount = 0 then 1 else 0 := by
    simp [registering, push, List.countP_append, List.countP_cons]
  have hun : (s.push q' job).unstored q = s.unstored q + if q' = q then 1 else 0 := by
    simp [unstored, push, List.countP_append, List.countP_cons]
  by_cases hq : q' = q
  · subst hq
    refine .intro (Inv.fetchAdd h) (Function.update_self ..) rfl rfl ?_ ?_
    · rw [hreg]
      simp only [true_and]
    · rw [hun, if_pos rfl]
  · refine h.congr (Function.update_of_ne (Ne.symm hq) ..) rfl rfl ?_ ?_
    · rw [hreg, if_neg fun h => hq h.1]
      rfl
    · rw [hun, if_neg hq]
      rfl

theorem invOf_pushStore {i : Nat} {p : PushCall Q J} (h : s.InvOf q) (hp : s.pushes[i]? = some p)
    (hs : p.stored = false) : (s.pushStore i p).InvOf q := by
  have hreg := Threads.count_put (fun p => decide (p.queue = q ∧ p.prev = 0)) hp
    (if p.prev = 0 then [{ p with stored := true }] else [])
  have hun := Threads.count_put (fun p => decide (p.queue = q ∧ p.stored = false)) hp
    (if p.prev = 0 then [{ p with stored := true }] else [])
  change (s.pushStore i p).registering q + _ = s.registering q + _ at hreg
  change (s.pushStore i p).unstored q + _ = s.unstored q + _ at hun
  have hreg' : (s.pushStore i p).registering q = s.registering q := by
    by_cases h0 : p.prev = 0 <;> simpa [h0, List.countP_cons] using hreg
  by_cases hq : p.queue = q
  · subst hq
    have hun' : s.unstored p.queue = (s.pushStore i p).unstored p.queue + 1 := by
      by_cases h0 : p.prev = 0 <;> simpa [h0, hs, List.countP_cons] using hun.symm
    unfold InvOf at h
    rw [hun'] at h
    exact .intro (h.pushBack p.job) (Function.update_self ..) rfl rfl hreg' rfl
  · refine h.congr (Function.update_of_ne (Ne.symm hq) ..) rfl rfl hreg' ?_
    by_cases h0 : p.prev = 0 <;> simpa [h0, hq, List.countP_cons] using hun

theorem invOf_pushRegister {i : Nat} {p : PushCall Q J} (h : s.InvOf q)
    (hp : s.pushes[i]? = some p) (hs : p.stored = true) (h0 : p.prev = 0) :
    (s.pushRegister i p).InvOf q := by
  have hreg := Threads.count_put (fun p => decide (p.queue = q ∧ p.prev = 0)) hp []
  have hun := Threads.count_put (fun p => decide (p.queue = q ∧ p.stored = false)) hp []
  change (s.pushRegister i p).registering q + _ = s.registering q + _ at hreg
  change (s.pushRegister i p).unstored q + _ = s.unstored q + _ at hun
  have hun' : (s.pushRegister i p).unstored q = s.unstored q := by
    simpa [hs, List.countP_cons] using hun
  have hglobal : (s.pushRegister i p).global.count q =
      s.global.count q + if p.queue = q then 1 else 0 := by
    simp [pushRegister, List.count_append, List.count_singleton]
  by_cases hq : p.queue = q
  · have hreg' : s.registering q = (s.pushRegister i p).registering q + 1 := by
      simpa [hq, h0, List.countP_cons] using hreg.symm
    unfold InvOf at h
    rw [hreg'] at h
    refine .intro h.register rfl rfl ?_ rfl hun'
    rw [hglobal, if_pos hq]
  · refine h.congr rfl rfl ?_ ?_ hun'
    · rw [hglobal, if_neg hq]
      rfl
    · simpa [hq, List.countP_cons] using hreg

theorem invOf_tryPop (h : s.InvOf q) (ht : s.tryPop = some t) : t.InvOf q := by
  unfold tryPop at ht
  split at ht
  · cases ht
  · next q' rest hg =>
    cases ht
    unfold InvOf at h
    rw [hg] at h
    by_cases hq : q' = q
    · subst hq
      rw [List.count_cons_self] at h
      refine .intro h.tryPop rfl ?_ rfl rfl rfl
      simp [workersOn, List.filter_append]
    · rw [List.count_cons_of_ne hq] at h
      refine .intro h rfl ?_ rfl rfl rfl
      simp [workersOn, List.filter_append, hq]

theorem invOf_execute {k : Nat} {w : Worker Q J} (h : s.InvOf q) (hw : s.workers[k]? = some w)
    (late : Bool) : (s.execute k late w).InvOf q := by
  have hglobal : (s.execute k late w).global.count q =
      if w.pc.registers ∧ w.queue = q then s.global.count q + 1 else s.global.count q := by
    unfold execute
    cases w.pc.registers <;> simp [List.count_append, List.count_singleton]
    split <;> omega
  by_cases hq : w.queue = q
  · have hle : (s.workersOn q).length ≤ 1 := by
      have := h.token_le
      rw [List.length_map] at this
      omega
    have hmine : decide (w.queue = q) = true := decide_eq_true hq
    obtain ⟨hon, hon'⟩ := Threads.filter_put_of_alone (p := fun w : Worker Q J => decide (w.queue = q)) hw
      hmine hle ((w.pc.step late (s.queue w.queue)).2.toList.map fun pc => { w with pc })
    unfold InvOf workersOn at h
    rw [hon] at h
    subst hq
    refine .intro (h.execute late) (Function.update_self ..) ?_ ?_ rfl rfl
    · rw [workersOn, execute, hon']
      cases (w.pc.step late (s.queue w.queue)).2 <;> simp
    · rw [hglobal]
      simp
  · refine h.congr (Function.update_of_ne (Ne.symm hq) ..) ?_ ?_ rfl rfl
    · refine Threads.filter_put_of_not hw (by simpa using hq) fun u hu => ?_
      obtain ⟨pc, -, rfl⟩ := List.mem_map.1 hu
      simpa using hq
    · rw [hglobal, if_neg fun h => hq h.2]

/-- A push that has stored its job and goes on saw a count of zero. -/
def PushesRegister (s : JobSystem Q J) : Prop := ∀ p ∈ s.pushes, p.stored = true → p.prev = 0

theorem pushesRegister_step {i : JobInput Q J} (h : s.PushesRegister) (hs : s.step i = some t) :
    t.PushesRegister := by
  cases i with
  | push q job =>
    cases hs
    intro p hp
    rcases List.mem_append.1 hp with hp | hp
    · exact h p hp
    · obtain rfl := List.mem_singleton.1 hp
      nofun
  | pushNext i =>
    obtain ⟨p, -, rfl⟩ := Option.map_eq_some_iff.1 hs
    intro p' hp'
    split at hp'
    · exact (Threads.mem_of_put hp').elim (h p') nofun
    · refine (Threads.mem_of_put hp').elim (h p') fun hm _ => ?_
      split at hm
      · next h0 =>
        obtain rfl := List.mem_singleton.1 hm
        exact h0
      · cases hm
  | tryPop =>
    simp only [step, tryPop] at hs
    split at hs
    · cases hs
    · cases hs
      exact h
  | execute k late =>
    obtain ⟨w, -, rfl⟩ := Option.map_eq_some_iff.1 hs
    exact h

theorem invOf_step {i : JobInput Q J} (hp : s.PushesRegister) (h : s.InvOf q)
    (hs : s.step i = some t) : t.InvOf q := by
  cases i with
  | push q' job =>
    cases hs
    exact invOf_push h q' job
  | pushNext i =>
    obtain ⟨p, hi, rfl⟩ := Option.map_eq_some_iff.1 hs
    split
    · next hst => exact invOf_pushRegister h hi hst (hp p (List.mem_of_getElem? hi) hst)
    · next hst => exact invOf_pushStore h hi (Bool.eq_false_iff.2 hst)
  | tryPop => exact invOf_tryPop h hs
  | execute k late =>
    obtain ⟨w, hw, rfl⟩ := Option.map_eq_some_iff.1 hs
    exact invOf_execute h hw late

theorem invOf_reachable (hr : s.Reachable) (q : Q) : s.InvOf q :=
  (Trace.Reachable.invariant (I := fun s : JobSystem Q J => s.PushesRegister ∧ s.InvOf q) hr
    (fun _ _ _ h hs => ⟨pushesRegister_step h.1 hs, invOf_step h.1 h.2 hs⟩)
    ⟨nofun, ⟨rfl, rfl, rfl⟩⟩).2

/-- Jobs 1 and 2 are pushed and a worker runs job 1 until its deadline; while it
returns job 2, job 3 is pushed, and the worker registers the queue again. -/
def deadlineRun : List (JobInput Unit Nat) :=
  [.push () 1, .pushNext 0, .push () 2, .pushNext 1, .pushNext 0, .tryPop, .execute 0 false,
    .execute 0 false, .push () 3, .execute 0 true, .pushNext 0, .execute 0 true, .execute 0 true,
    .execute 0 true, .execute 0 true]

end JobSystem

end IouringRuntime
