import IouringRuntime.Ring.IoRing
import Mathlib.Data.List.Perm.Basic

/-!
# RunOnRing

`IoRing::RunOnRing` over all rings of a process. A task handed to another ring
becomes a heap object whose address travels in a `MSG_RING` entry: it is queued
in the caller's ring, the kernel delivers it to the target's completion queue,
`Dispatch` calls it there and deletes it. Every call makes a fresh `TaskId`,
which also names its heap object.

`io_uring_submit` may be called for a ring at any time, by `Submit`, by
`Dispatch` or by a later `RunOnRing`; if it fails the entries stay. So a
`RunOnRing` whose own `io_uring_submit` fails deletes an object whose address is
still in the queue. `run_on_ring_truthful` covers the runs in which that does
not happen.
-/

namespace IouringRuntime

/-- The tasks and where references to them are. The fields from `results` on are
history: what the calls returned, the tasks called, the objects deleted and the
references delivered. -/
structure RingTasks where
  /-- `MSG_RING` entries in the submission queues: source ring, target ring, task. -/
  queued : List (RingId × RingId × TaskId) := []
  /-- Entries with bit 0 set in the completion queues. -/
  delivered : List (RingId × TaskId) := []
  posted : List (RingId × TaskId) := []
  /-- Objects whose call has been made and that `Dispatch` has still to delete. -/
  running : List TaskId := []
  nextTask : TaskId := 0
  results : List (TaskId × Bool) := []
  ran : List TaskId := []
  freed : List TaskId := []
  sent : List TaskId := []
  deriving DecidableEq, Repr

/-- What the environment decides for a call: whether the target and the current ring
are open, the allocation, a free SQE, the system call, and which messages reach
their ring. -/
structure RunOutcome where
  ring : Bool := true
  currentRing : Bool := true
  alloc : Bool := true
  sqe : Bool := true
  submit : Bool := true
  reach : TaskId → Bool := fun _ => true

inductive TaskInput where
  /-- A thread whose `t_current_` is `current` calls `RunOnRing` on `target`. -/
  | runOnRing (current : Option RingId) (target : RingId) (o : RunOutcome)
  /-- Any other call of `io_uring_submit`. -/
  | submit (ring : RingId) (ok : Bool) (reach : TaskId → Bool)
  /-- `Dispatch` takes the next task of the ring's completion queue and calls it. -/
  | takeTask (ring : RingId)
  /-- The call has returned, `Dispatch` deletes the object. -/
  | deleteTask (task : TaskId)
  /-- `ProcessPostedTasks` calls the next posted task. -/
  | runPosted (ring : RingId)

namespace RingTasks

def ioUringSubmit (ring : RingId) (ok : Bool) (reach : TaskId → Bool) (s : RingTasks) : RingTasks :=
  if !ok then s
  else
    let messages := ((s.queued.filter (·.1 = ring)).map Prod.snd).filter (reach ·.2)
    { s with
      queued := s.queued.filter (·.1 ≠ ring)
      delivered := s.delivered ++ messages
      sent := s.sent ++ messages.map Prod.snd }

def post (target : RingId) (task : TaskId) (s : RingTasks) : RingTasks :=
  { s with posted := s.posted ++ [(target, task)] }

/-- The branch for a caller on another ring's thread. -/
def sendTask (source target : RingId) (task : TaskId) (o : RunOutcome) (s : RingTasks) :
    RingTasks × Bool :=
  if !o.alloc then (s, false)
  else if !o.sqe then ({ s with freed := s.freed ++ [task] }, false)
  else
    let s := { s with queued := s.queued ++ [(source, target, task)] }
    if !o.submit then ({ s with freed := s.freed ++ [task] }, false)
    else (s.ioUringSubmit source true o.reach, true)

def runOnRing (current : Option RingId) (target : RingId) (task : TaskId) (o : RunOutcome)
    (s : RingTasks) : RingTasks × Bool :=
  if !o.ring then (s, false)
  else if current = some target then ({ s with ran := s.ran ++ [task] }, true)
  else
    match current with
    | some source =>
      if o.currentRing then s.sendTask source target task o else (s.post target task, true)
    | none => (s.post target task, true)

def step (s : RingTasks) : TaskInput → Option RingTasks
  | .runOnRing current target o =>
    let r := runOnRing current target s.nextTask o { s with nextTask := s.nextTask + 1 }
    some { r.1 with results := r.1.results ++ [(s.nextTask, r.2)] }
  | .submit ring ok reach => some (s.ioUringSubmit ring ok reach)
  | .takeTask ring =>
    (s.delivered.find? (·.1 = ring)).map fun e => { s with
      delivered := s.delivered.erase e
      running := s.running ++ [e.2]
      ran := s.ran ++ [e.2] }
  | .deleteTask task =>
    if task ∈ s.running then
      some { s with running := s.running.erase task, freed := s.freed ++ [task] }
    else none
  | .runPosted ring =>
    (s.posted.find? (·.1 = ring)).map fun e => { s with
      posted := s.posted.erase e
      ran := s.ran ++ [e.2] }

/-! ## Where a task is -/

/-- How often a task occurs in each place. -/
structure Places where
  queued : Nat := 0
  delivered : Nat := 0
  posted : Nat := 0
  ran : Nat := 0
  running : Nat := 0
  freed : Nat := 0
  sent : Nat := 0
  deriving DecidableEq

def places (s : RingTasks) (n : TaskId) : Places where
  queued := (s.queued.map (·.2.2)).count n
  delivered := (s.delivered.map Prod.snd).count n
  posted := (s.posted.map Prod.snd).count n
  ran := s.ran.count n
  running := s.running.count n
  freed := s.freed.count n
  sent := s.sent.count n

/-- One reference can still lead to a call or has led to one; one reference to the
heap object exists or it is deleted. -/
structure Places.Once (p : Places) : Prop where
  call : p.queued + p.delivered + p.posted + p.ran ≤ 1
  object : p.queued + p.delivered + p.running + p.freed ≤ 1

/-- No reference exists, and the task has not been called. -/
structure Places.Absent (p : Places) : Prop where
  references : p.queued + p.delivered + p.posted + p.sent = 0
  ran : p.ran = 0

structure Tracked (s : RingTasks) : Prop where
  once : ∀ n, (s.places n).Once
  refused : ∀ n, (n, false) ∈ s.results → (s.places n).Absent
  fresh : ∀ n, s.nextTask ≤ n → s.places n = {} ∧ ∀ b, (n, b) ∉ s.results

/-- What `RunOnRing` has returned is true of the task. -/
def Truthful (s : RingTasks) : Prop :=
  ∀ n b, (n, b) ∈ s.results →
    (b = false → n ∉ s.sent ∧ n ∉ s.ran) ∧ (b = true → s.ran.count n ≤ 1 ∧ s.freed.count n ≤ 1)

variable {s t : RingTasks} {n m : TaskId}

theorem Tracked.truthful (h : Tracked s) : Truthful s := by
  intro n b hn
  refine ⟨fun hb => ?_, fun _ => ?_⟩
  · subst hb
    have habs := h.refused n hn
    have hsent : s.sent.count n = 0 := Nat.eq_zero_of_add_eq_zero_left habs.references
    exact ⟨List.count_eq_zero.1 hsent, List.count_eq_zero.1 habs.ran⟩
  · have hcall : _ + s.ran.count n ≤ 1 := (h.once n).call
    have hobject : _ + s.freed.count n ≤ 1 := (h.once n).object
    exact ⟨by omega, by omega⟩

/-- References move, are used or are dropped. -/
structure Places.Moves (p p' : Places) : Prop where
  queued : p'.queued ≤ p.queued
  references : p'.queued + p'.delivered ≤ p.queued + p.delivered
  call : p'.queued + p'.delivered + p'.posted + p'.ran ≤ p.queued + p.delivered + p.posted + p.ran
  object : p'.queued + p'.delivered + p'.running + p'.freed ≤
    p.queued + p.delivered + p.running + p.freed
  sent : p.queued = 0 → p'.sent = p.sent
  posted : p'.posted ≤ p.posted

theorem Tracked.moves (h : Tracked s) (hp : ∀ n, (s.places n).Moves (t.places n))
    (hresults : t.results = s.results) (hnext : t.nextTask = s.nextTask) : Tracked t where
  once n :=
    ⟨Nat.le_trans (hp n).call (h.once n).call, Nat.le_trans (hp n).object (h.once n).object⟩
  refused n hn := by
    obtain ⟨hrefs, hran⟩ := h.refused n (hresults ▸ hn)
    obtain ⟨hq, hr, hc, -, hs, hpost⟩ := hp n
    have := hs (by omega)
    exact ⟨by omega, by omega⟩
  fresh n hn := by
    obtain ⟨hempty, hno⟩ := h.fresh n (hnext ▸ hn)
    refine ⟨?_, hresults ▸ hno⟩
    have hm := hp n
    rw [hempty] at hm
    obtain ⟨hq, hr, hc, ho, hs, hpost⟩ := hm
    have := hs rfl
    revert hq hr hc ho hpost this
    generalize t.places n = p
    obtain ⟨q, d, p, ran, running, freed, sent⟩ := p
    simp only [Nat.add_zero, Places.mk.injEq, Nat.le_zero_eq]
    omega

/-- The task of a call that is being made. -/
structure Fresh (s : RingTasks) (m : TaskId) : Prop where
  places : s.places m = {}
  lt : m < s.nextTask
  new : ∀ b, (m, b) ∉ s.results

theorem Fresh.absent (h : Fresh s m) : (s.places m).Absent := by
  rw [h.places]
  exact ⟨rfl, rfl⟩

/-- It is put somewhere. -/
theorem Tracked.place (h : Tracked s) (hm : Fresh s m)
    (hother : ∀ n, n ≠ m → t.places n = s.places n) (honce : (t.places m).Once)
    (hresults : t.results = s.results) (hnext : t.nextTask = s.nextTask) : Tracked t where
  once n := by
    by_cases hn : n = m
    · exact hn ▸ honce
    · exact hother n hn ▸ h.once n
  refused n hn := by
    rw [hresults] at hn
    rw [hother n fun he => hm.new false (he ▸ hn)]
    exact h.refused n hn
  fresh n hn := by
    rw [hnext] at hn
    rw [hother n fun he => absurd hm.lt (Nat.not_lt.2 (he ▸ hn)), hresults]
    exact h.fresh n hn

/-- The call returns. -/
theorem Tracked.record (h : Tracked s) {b : Bool} (hm : m < s.nextTask)
    (hb : b = false → (s.places m).Absent) :
    Tracked { s with results := s.results ++ [(m, b)] } where
  once := h.once
  refused n hn := by
    obtain hn | hn := List.mem_append.1 hn
    · exact h.refused n hn
    · cases List.mem_singleton.1 hn
      exact hb rfl
  fresh n hn := by
    refine ⟨(h.fresh n hn).1, fun c hc => ?_⟩
    obtain hc | hc := List.mem_append.1 hc
    · exact (h.fresh n hn).2 c hc
    · cases List.mem_singleton.1 hc
      exact absurd hm (Nat.not_lt.2 hn)

/-! ## Steps -/

theorem count_queues (l : List (RingId × RingId × TaskId)) (ring : RingId) (n : TaskId) :
    ((l.filter (·.1 = ring)).map (·.2.2)).count n + ((l.filter (·.1 ≠ ring)).map (·.2.2)).count n =
      (l.map (·.2.2)).count n := by
  induction l with
  | nil => rfl
  | cons e l ih =>
    simp only [List.map_cons, List.count_cons, ← ih]
    by_cases he : e.1 = ring
    · simp [he, List.count_cons]
      omega
    · simp [he, List.count_cons]
      omega

theorem count_erase {β : Type} [BEq β] [LawfulBEq β] {f : β → TaskId} {l : List β} {e : β} (he : e ∈ l)
    (n : TaskId) :
    (l.map f).count n = ((l.erase e).map f).count n + if f e = n then 1 else 0 := by
  rw [((List.perm_cons_erase he).map f).count_eq n, List.map_cons, List.count_cons]
  simp only [beq_iff_eq]

theorem count_concat (l : List TaskId) (m n : TaskId) :
    (l ++ [m]).count n = l.count n + if m = n then 1 else 0 := by
  simp only [List.count_append, List.count_singleton, beq_iff_eq]

theorem moves_ioUringSubmit (ring : RingId) (ok : Bool) (reach : TaskId → Bool) (n : TaskId) :
    (s.places n).Moves ((s.ioUringSubmit ring ok reach).places n) := by
  unfold ioUringSubmit
  split
  · exact ⟨Nat.le_refl _, Nat.le_refl _, Nat.le_refl _, Nat.le_refl _, fun _ => rfl, Nat.le_refl _⟩
  · extract_lets messages
    have hq := count_queues s.queued ring n
    have hm : (messages.map Prod.snd).count n ≤
        ((s.queued.filter (·.1 = ring)).map (·.2.2)).count n := by
      have := ((List.filter_sublist (p := (reach ·.2))
        (l := (s.queued.filter (·.1 = ring)).map Prod.snd)).map Prod.snd).count_le n
      rwa [List.map_map] at this
    constructor
    all_goals simp only [places, List.map_append, List.count_append]; omega

theorem Tracked.ioUringSubmit (h : Tracked s) (ring : RingId) (ok : Bool) (reach : TaskId → Bool) :
    Tracked (s.ioUringSubmit ring ok reach) := by
  refine h.moves (moves_ioUringSubmit ring ok reach) ?_ ?_ <;>
    (unfold RingTasks.ioUringSubmit; split <;> rfl)

section FreshTask

variable (h : Tracked s) (hm : Fresh s m)
include h hm

theorem Tracked.call_fresh : Tracked { s with ran := s.ran ++ [m] } := by
  have := hm.places
  simp only [RingTasks.places, Places.mk.injEq] at this
  exact h.place hm (fun n hn => by simp [RingTasks.places, hn.symm])
    (by constructor <;> simp [RingTasks.places, this]) rfl rfl

theorem Tracked.free_fresh : Tracked { s with freed := s.freed ++ [m] } := by
  have := hm.places
  simp only [RingTasks.places, Places.mk.injEq] at this
  exact h.place hm (fun n hn => by simp [RingTasks.places, hn.symm])
    (by constructor <;> simp [RingTasks.places, this]) rfl rfl

theorem Tracked.post_fresh (target : RingId) : Tracked (s.post target m) := by
  have := hm.places
  simp only [RingTasks.places, Places.mk.injEq] at this
  exact h.place hm (fun n hn => by simp [RingTasks.places, post, hn.symm])
    (by constructor <;> simp [RingTasks.places, post, this]) rfl rfl

theorem Tracked.queue_fresh (source target : RingId) :
    Tracked { s with queued := s.queued ++ [(source, target, m)] } := by
  have := hm.places
  simp only [RingTasks.places, Places.mk.injEq] at this
  exact h.place hm (fun n hn => by simp [RingTasks.places, hn.symm])
    (by constructor <;> simp [RingTasks.places, this]) rfl rfl

end FreshTask

/-- The condition on a call: if it comes to its `io_uring_submit`, that succeeds. -/
def Submits (current : Option RingId) (target : RingId) (o : RunOutcome) : Prop :=
  current.isSome → current ≠ some target → o.ring = true → o.currentRing = true →
    o.alloc = true → o.sqe = true → o.submit = true

/-- What a call does: the task is nowhere if it returns `false`. -/
theorem tracked_runOnRing (h : Tracked s) (hm : Fresh s m) (current : Option RingId)
    (target : RingId) (o : RunOutcome) (ho : Submits current target o) :
    Tracked (s.runOnRing current target m o).1 ∧
      (s.runOnRing current target m o).1.nextTask = s.nextTask ∧
      ((s.runOnRing current target m o).2 = false →
        ((s.runOnRing current target m o).1.places m).Absent) := by
  unfold runOnRing
  split
  · exact ⟨h, rfl, fun _ => hm.absent⟩
  next hring =>
  split
  · exact ⟨h.call_fresh hm, rfl, fun hb => by cases hb⟩
  next htarget =>
  cases current with
  | none => exact ⟨h.post_fresh hm target, rfl, fun hb => by cases hb⟩
  | some source =>
    dsimp only
    split
    · next hcurrent =>
      unfold sendTask
      split
      · exact ⟨h, rfl, fun _ => hm.absent⟩
      next halloc =>
      split
      · refine ⟨h.free_fresh hm, rfl, fun _ => ⟨hm.absent.references, hm.absent.ran⟩⟩
      next hsqe =>
      have hsubmit : o.submit = true := by
        simp only [Bool.not_eq_true', Bool.not_eq_false] at hring halloc hsqe
        exact ho rfl htarget hring hcurrent halloc hsqe
      dsimp only
      rw [hsubmit, Bool.not_true, if_neg Bool.false_ne_true]
      exact ⟨(h.queue_fresh hm source target).ioUringSubmit source true o.reach, rfl,
        fun hb => by cases hb⟩
    · exact ⟨h.post_fresh hm target, rfl, fun hb => by cases hb⟩

/-- The condition on a step. -/
def StepSubmits (_ : RingTasks) : TaskInput → Prop
  | .runOnRing current target o => Submits current target o
  | _ => True

theorem Tracked.step {i : TaskInput} (h : Tracked s) (hs : RingTasks.step s i = some t)
    (hi : StepSubmits s i) : Tracked t := by
  cases i with
  | runOnRing current target o =>
    cases hs
    obtain ⟨hempty, hno⟩ := h.fresh s.nextTask (Nat.le_refl _)
    have h' : Tracked { s with nextTask := s.nextTask + 1 } :=
      ⟨h.once, h.refused, fun n hn => h.fresh n (Nat.le_of_succ_le hn)⟩
    obtain ⟨ht, hnext, habs⟩ := tracked_runOnRing h' ⟨hempty, Nat.lt_succ_self _, hno⟩ current
      target o hi
    exact ht.record (hnext ▸ Nat.lt_succ_self _) habs
  | submit ring ok reach =>
    cases hs
    exact h.ioUringSubmit ring ok reach
  | takeTask ring =>
    obtain ⟨e, he, rfl⟩ := Option.map_eq_some_iff.1 hs
    have hmem := List.mem_of_find?_eq_some he
    refine h.moves (fun n => ?_) rfl rfl
    have hd := count_erase (f := Prod.snd) hmem n
    refine ⟨?_, ?_, ?_, ?_, fun _ => rfl, ?_⟩
    all_goals simp only [places, count_concat]; omega
  | deleteTask task =>
    simp only [RingTasks.step] at hs
    split at hs
    · next hmem =>
      cases hs
      refine h.moves (fun n => ?_) rfl rfl
      have hd := count_erase (f := id) hmem n
      simp only [List.map_id, id] at hd
      refine ⟨?_, ?_, ?_, ?_, fun _ => rfl, ?_⟩
      all_goals simp only [places, count_concat]; omega
    · cases hs
  | runPosted ring =>
    obtain ⟨e, he, rfl⟩ := Option.map_eq_some_iff.1 hs
    have hmem := List.mem_of_find?_eq_some he
    refine h.moves (fun n => ?_) rfl rfl
    have hd := count_erase (f := Prod.snd) hmem n
    refine ⟨?_, ?_, ?_, ?_, fun _ => rfl, ?_⟩
    all_goals simp only [places, count_concat]; omega

/-- In a run whose `RunOnRing` calls all get their entries submitted, what the
calls have returned is true at every moment: a task whose call returned `false`
has been delivered nowhere and not been called, any other has been called and
deleted at most once. -/
theorem run_on_ring_truthful (is : List TaskInput)
    (h : Trace.Steps RingTasks.step StepSubmits {} is) :
    Trace.Visits RingTasks.step Truthful {} is := by
  refine Trace.visits_of_steps (J := Tracked) (fun _ => Tracked.truthful)
    (fun _ _ _ h hs hi => h.step hs hi) is ⟨?_, ?_, ?_⟩ h
  · exact fun n => ⟨Nat.zero_le _, Nat.zero_le _⟩
  · exact fun n hn => by cases hn
  · exact fun n _ => ⟨rfl, fun b hb => by cases hb⟩

/-- Ring 0 runs a task on ring 1, which calls it. -/
theorem run_on_ring_truthful_two_rings :
    Trace.Steps RingTasks.step StepSubmits {} [.runOnRing (some 0) 1 {}, .takeTask 1] ∧
      Trace.Visits RingTasks.step Truthful {} [.runOnRing (some 0) 1 {}, .takeTask 1] := by
  have h : Trace.Steps RingTasks.step StepSubmits {} [.runOnRing (some 0) 1 {}, .takeTask 1] :=
    .cons rfl (fun _ _ _ _ _ _ => rfl) (.cons rfl trivial trivial)
  exact ⟨h, run_on_ring_truthful _ h⟩

/-- The submission fails, the call deletes the object and returns `false`. The next
submission on that ring sends the message all the same, and the target calls and
deletes an object that is gone. -/
theorem refused_task_runs :
    ∃ s, Trace.run RingTasks.step {} [.runOnRing (some 0) 1 { submit := false },
        .submit 0 true (fun _ => true), .takeTask 1, .deleteTask 0] = some s ∧
      s.results = [(0, false)] ∧ s.sent = [0] ∧ s.ran = [0] ∧ s.freed = [0, 0] :=
  ⟨_, rfl, rfl, rfl, rfl, rfl⟩

end RingTasks

end IouringRuntime
