import IouringRuntime.Session.State

/-!
# Listener

`Listener` (`core/Listener.h`) as a re-entrant machine. The session counter, the
reject handler, the session factory and `Session::Start` are user code that may
call back, and `Worker::StopAccepting` runs `Stop` at once when it is called on
the ring's own thread. The ring appears as the operations in flight; an
`AcceptOp` is an `OpId`, deleted by `Dispatch` after its last completion.

Two results about whole runs. Nothing in `OnAccept` asks whether `Stop` has been
called: a descriptor that arrives late is treated as any other, so it is closed
exactly if it would have been refused anyway (`refused_after_stop_iff`). And the
accept is re-armed only by the handler that ended it: a listener whose re-arms
all succeed always has one accept in flight (`one_accept_in_flight`), while one
whose re-arm has failed once never has any again (`idle_preserved`).
-/

namespace IouringRuntime

open Reentrant

abbrev Fd := Nat

/-- The errors `Start` can return. -/
inductive ListenError where
  | kBindFailed | kListenFailed
  deriving DecidableEq, Repr

/-- What the constructor, `SetSessionCountFn` and `SetRejectHandler` set. -/
structure ListenerConfig where
  maxSessions : Nat := 0
  sessionCountFn : Bool := false
  rejectHandler : Bool := false
  deriving DecidableEq, Repr

/-- What `OnAccept` does with a client descriptor. -/
inductive ClientFate where
  | closed | rejected | session
  deriving DecidableEq, Repr

/-- One descriptor dealt with: whether `Stop` had returned when its completion
was delivered, and when its fate was settled. -/
structure ClientDecision where
  fd : Fd
  fate : ClientFate
  deliveredLate : Bool
  settledLate : Bool
  deriving DecidableEq, Repr

/-- The fields from `stopped` on are history. -/
structure Listener where
  cfg : ListenerConfig
  listenFd : Option Fd := none
  activeAcceptEv : Option OpId := none
  acceptCancelRequested : Bool := false
  /-- The accept operations in flight. -/
  accepts : List OpId := []
  /-- The cancel operations in flight, with their targets. -/
  cancels : List (OpId × OpId) := []
  nextOp : OpId := 0
  stopped : Bool := false
  /-- `Stop` had returned when the last accept completion was delivered. -/
  late : Bool := false
  decisions : List ClientDecision := []
  deriving DecidableEq, Repr

/-- What the environment decides for one segment: allocation, a free SQE, the
result of `session_count_fn_`, of `fcntl` and of the factory. -/
structure ListenerOutcome where
  alloc : Bool := true
  sqe : Bool := true
  sessionCount : Nat := 0
  setNonBlocking : Bool := true
  factory : Bool := true
  deriving DecidableEq, Repr

inductive ListenerCallback where
  | sessionCount
  | rejectHandler (fd : Fd)
  | factory (fd : Fd)
  | sessionStart (fd : Fd)
  deriving DecidableEq, Repr

inductive ListenerInstr where
  /-- `OnAccept(int)` behind `session_count_fn_`. -/
  | counted (fd : Fd)
  /-- `OnAccept(int)` behind the factory. -/
  | created (fd : Fd)
  /-- `OnAccept(AcceptEvent&, …)` behind `OnAccept(int)`. -/
  | accepted (more : Bool)
  deriving DecidableEq, Repr

inductive ListenerApi where
  | stop
  deriving DecidableEq, Repr

inductive ListenerEvent where
  /-- A completion of an accept; `more` is `IORING_CQE_F_MORE`. -/
  | accept (id : OpId) (result : Int) (more : Bool)
  | cancel (id target : OpId) (result : Int)
  /-- `Worker::Run` comes to the end of an iteration. -/
  | iteration
  deriving DecidableEq, Repr

abbrev LFrame := Frame ListenerInstr ListenerCallback
abbrev LSeg := Listener × List LFrame
abbrev LConf := Conf Listener ListenerInstr ListenerCallback
abbrev LInput := Input ListenerApi ListenerEvent ListenerOutcome

namespace Listener

def registerAccept (o : ListenerOutcome) (l : Listener) : Listener × Bool :=
  if l.listenFd.isNone || l.activeAcceptEv.isSome then (l, false)
  else if !o.alloc then (l, false)
  else if !o.sqe then (l, false)
  else
    ({ l with
      activeAcceptEv := some l.nextOp
      accepts := l.accepts ++ [l.nextOp]
      nextOp := l.nextOp + 1 }, true)

/-- `socket` is the result of `CreateListenSocket`. -/
def start (o : ListenerOutcome) (socket : Option Fd) (l : Listener) :
    Listener × Except ListenError Unit :=
  match socket with
  | none => (l, .error .kBindFailed)
  | some fd =>
    let r := registerAccept o { l with listenFd := some fd }
    (r.1, if r.2 then .ok () else .error .kListenFailed)

def stop (o : ListenerOutcome) (l : Listener) : Listener :=
  let l :=
    match l.activeAcceptEv with
    | some target =>
      if !l.acceptCancelRequested && o.alloc && o.sqe then
        { l with
          acceptCancelRequested := true
          cancels := l.cancels ++ [(l.nextOp, target)]
          nextOp := l.nextOp + 1 }
      else l
    | none => l
  { l with listenFd := none, stopped := true }

def settle (l : Listener) (fd : Fd) (fate : ClientFate) : Listener :=
  { l with decisions := l.decisions ++ [⟨fd, fate, l.late, l.stopped⟩] }

/-- `OnAccept(int)` from `SetNonBlocking` to the factory. -/
def configureClient (o : ListenerOutcome) (l : Listener) (fd : Fd) : LSeg :=
  if !o.setNonBlocking then (l.settle fd .closed, [])
  else (l, [.callback (.factory fd), .code (.created fd)])

/-- `OnAccept(int)`. -/
def onAcceptClient (o : ListenerOutcome) (l : Listener) (fd : Fd) : LSeg :=
  if 0 < l.cfg.maxSessions && l.cfg.sessionCountFn then
    (l, [.callback .sessionCount, .code (.counted fd)])
  else configureClient o l fd

/-- Without `IORING_CQE_F_MORE` the accept has ended. -/
def noteEnd (more : Bool) (l : Listener) : Listener :=
  if more then l else { l with activeAcceptEv := none, acceptCancelRequested := false }

/-- `RegisterAccept` for a live listener; both callers only log its failure. -/
def reregister (o : ListenerOutcome) (l : Listener) : Listener :=
  if l.listenFd.isSome then (l.registerAccept o).1 else l

/-- `OnAccept(AcceptEvent&, …)`. -/
def onAccept (o : ListenerOutcome) (l : Listener) (result : Int) (more : Bool) : LSeg :=
  if result < 0 then ((l.noteEnd more).reregister o, [])
  else
    ((onAcceptClient o (l.noteEnd more) result.toNat).1,
      (onAcceptClient o (l.noteEnd more) result.toNat).2 ++ [.code (.accepted more)])

def exec (o : ListenerOutcome) (l : Listener) : ListenerInstr → LSeg
  | .counted fd =>
    if l.cfg.maxSessions ≤ o.sessionCount then
      if l.cfg.rejectHandler then (l.settle fd .rejected, [.callback (.rejectHandler fd)])
      else (l.settle fd .closed, [])
    else configureClient o l fd
  | .created fd =>
    if o.factory then (l.settle fd .session, [.callback (.sessionStart fd)])
    else (l.settle fd .closed, [])
  | .accepted more => (if !more then l.reregister o else l, [])

/-- The operation leaves the ring with its last completion. -/
def event (o : ListenerOutcome) (l : Listener) : ListenerEvent → Option LSeg
  | .accept id result more =>
    if id ∈ l.accepts then
      some (onAccept o
        { l with accepts := if more then l.accepts else l.accepts.erase id, late := l.stopped }
        result more)
    else none
  | .cancel id target _ =>
    if (id, target) ∈ l.cancels then
      some ({ l with cancels := l.cancels.erase (id, target) }, [])
    else none
  -- the posted tasks, the sessions' ticks and the hooks call nothing of the listener
  -- but `Stop`
  | .iteration => some (l, [])

def machine :
    Machine Listener ListenerInstr ListenerCallback ListenerApi ListenerEvent ListenerOutcome where
  exec := exec
  call o l | .stop => (l.stop o, [])
  event := event
  ret l _ _ := l

/-- A listener whose `Start` has succeeded. -/
def startedConf (cfg : ListenerConfig) (fd : Fd) : LConf :=
  ⟨(({ cfg } : Listener).start {} (some fd)).1, []⟩

variable {o : ListenerOutcome} {l : Listener} {st : List LFrame}

theorem registerAccept_cases (o : ListenerOutcome) (l : Listener) :
    (l.registerAccept o).1 = l ∨
      l.listenFd.isSome ∧ l.activeAcceptEv = none ∧ (l.registerAccept o).1 = { l with
        activeAcceptEv := some l.nextOp
        accepts := l.accepts ++ [l.nextOp]
        nextOp := l.nextOp + 1 } := by
  unfold registerAccept
  split
  · exact .inl rfl
  · next hno =>
    simp only [Bool.or_eq_true, not_or, Bool.not_eq_true, Option.isNone_iff_eq_none,
      Option.isSome_eq_false_iff] at hno
    split
    · exact .inl rfl
    · split
      · exact .inl rfl
      · exact .inr ⟨Option.isSome_iff_ne_none.2 hno.1, hno.2, rfl⟩

theorem reregister_cases (o : ListenerOutcome) (l : Listener) :
    l.reregister o = l ∨
      l.listenFd.isSome ∧ l.activeAcceptEv = none ∧ l.reregister o = { l with
        activeAcceptEv := some l.nextOp
        accepts := l.accepts ++ [l.nextOp]
        nextOp := l.nextOp + 1 } := by
  unfold reregister
  split
  · exact registerAccept_cases o l
  · exact .inl rfl

/-- A segment that deals with a client descriptor: it decides about descriptors
and leaves the accept alone. -/
structure Client (l : Listener) (r : LSeg) : Prop where
  state : ∃ ds, r.1 = { l with decisions := ds }
  frames : ∀ more, .code (.accepted more) ∉ r.2

theorem client_settled (fd : Fd) (fate : ClientFate) : Client l (l.settle fd fate, []) :=
  ⟨⟨_, rfl⟩, fun _ => List.not_mem_nil⟩

theorem client_configureClient (o : ListenerOutcome) (l : Listener) (fd : Fd) :
    Client l (configureClient o l fd) := by
  unfold configureClient
  split
  · exact client_settled fd .closed
  · exact ⟨⟨l.decisions, rfl⟩, fun more => by simp⟩

theorem client_onAcceptClient (o : ListenerOutcome) (l : Listener) (fd : Fd) :
    Client l (onAcceptClient o l fd) := by
  unfold onAcceptClient
  split
  · exact ⟨⟨l.decisions, rfl⟩, fun more => by simp⟩
  · exact client_configureClient o l fd

theorem client_exec (o : ListenerOutcome) (l : Listener) {i : ListenerInstr}
    (hi : ∀ more, i ≠ .accepted more) : Client l (exec o l i) := by
  cases i with
  | counted fd =>
    simp only [exec]
    split
    · split
      · exact ⟨⟨_, rfl⟩, fun more => by simp⟩
      · exact client_settled fd .closed
    · exact client_configureClient o l fd
  | created fd =>
    simp only [exec]
    split
    · exact ⟨⟨_, rfl⟩, fun more => by simp⟩
    · exact client_settled fd .closed
  | accepted more => exact absurd rfl (hi more)

/-- What `Stop` does but for its cancel request. -/
structure Stopped (l l' : Listener) : Prop where
  accepts : l'.accepts = l.accepts
  activeAcceptEv : l'.activeAcceptEv = l.activeAcceptEv
  decisions : l'.decisions = l.decisions
  listenFd : l'.listenFd = none
  stopped : l'.stopped = true

theorem stop_stopped (o : ListenerOutcome) (l : Listener) : Stopped l (l.stop o) := by
  unfold stop
  split
  · split <;> exact ⟨rfl, rfl, rfl, rfl, rfl⟩
  · exact ⟨rfl, rfl, rfl, rfl, rfl⟩

/-- The listener that the handler of an accept completion finds. -/
def delivered (l : Listener) (id : OpId) (more : Bool) : Listener :=
  { l with accepts := if more then l.accepts else l.accepts.erase id, late := l.stopped }

/-- A completion is that of an accept, or it ends at most a cancel operation. -/
theorem event_cases {e : ListenerEvent} {r : LSeg} (he : event o l e = some r) :
    (∃ id result more, e = .accept id result more ∧ id ∈ l.accepts ∧
      r = onAccept o (l.delivered id more) result more) ∨
    ∃ cancels, r = ({ l with cancels }, []) := by
  cases e with
  | accept id result more =>
    simp only [event] at he
    split at he
    · next hid =>
      cases he
      exact .inl ⟨id, result, more, rfl, hid, rfl⟩
    · cases he
  | cancel id target result =>
    simp only [event] at he
    split at he
    · cases he
      exact .inr ⟨_, rfl⟩
    · cases he
  | iteration =>
    cases he
    exact .inr ⟨l.cancels, rfl⟩

/-! ## After `Stop` -/

/-- No session comes of a completion once `Stop` has returned, and a descriptor
delivered after that is closed. -/
def Refused (d : ClientDecision) : Prop :=
  (d.settledLate = true → d.fate ≠ .session) ∧ (d.deliveredLate = true → d.fate = .closed)

def AllRefused (l : Listener) : Prop := ∀ d ∈ l.decisions, Refused d

/-- What the segment must meet for a late descriptor to be refused: a full
listener has no reject handler, and the factory makes no session. -/
def RefusesLate (o : ListenerOutcome) (l : Listener) : ListenerInstr → Prop
  | .counted _ => l.late = true → l.cfg.maxSessions ≤ o.sessionCount → l.cfg.rejectHandler = false
  | .created _ => l.stopped = true → o.factory = false
  | .accepted _ => True

theorem allRefused_settle (fd : Fd) (fate : ClientFate) :
    AllRefused (l.settle fd fate) ↔
      AllRefused l ∧ Refused ⟨fd, fate, l.late, l.stopped⟩ := by
  simp only [AllRefused, settle, List.forall_mem_append, List.forall_mem_singleton]

theorem refused_closed (fd : Fd) (late stopped : Bool) : Refused ⟨fd, .closed, late, stopped⟩ :=
  ⟨fun _ h => (by cases h), fun _ => rfl⟩

theorem allRefused_configureClient (h : AllRefused l) (fd : Fd) :
    AllRefused (configureClient o l fd).1 := by
  unfold configureClient
  split
  · exact (allRefused_settle fd _).2 ⟨h, refused_closed ..⟩
  · exact h

theorem marks_reregister (o : ListenerOutcome) (l : Listener) :
    (l.reregister o).decisions = l.decisions ∧ (l.reregister o).late = l.late ∧
      (l.reregister o).stopped = l.stopped := by
  obtain h | ⟨-, -, h⟩ := reregister_cases o l <;> rw [h] <;> exact ⟨rfl, rfl, rfl⟩

/-- One segment keeps every late descriptor refused exactly if it refuses. -/
theorem allRefused_exec (h : AllRefused l) (hlate : l.late = true → l.stopped = true)
    (i : ListenerInstr) : AllRefused (exec o l i).1 ↔ RefusesLate o l i := by
  cases i with
  | counted fd =>
    simp only [exec, RefusesLate]
    split
    · next hfull =>
      split
      · next hhandler =>
        rw [allRefused_settle, hhandler]
        refine ⟨fun hd hl _ => (by cases hd.2.2 hl), fun hd => ⟨h, fun _ hn => ?_, ?_⟩⟩
        · cases hn
        · exact fun hl => absurd (hd hl hfull) (by decide)
      · next hhandler =>
        exact iff_of_true ((allRefused_settle fd _).2 ⟨h, refused_closed ..⟩)
          fun _ _ => Bool.eq_false_of_not_eq_true hhandler
    · next hfull =>
      exact iff_of_true (allRefused_configureClient h fd) fun _ hf => absurd hf hfull
  | created fd =>
    simp only [exec, RefusesLate]
    split
    · next hf =>
      rw [allRefused_settle, hf]
      refine ⟨fun hd hs => absurd rfl (hd.2.1 hs), fun hd => ⟨h, fun hs => ?_, fun hl => ?_⟩⟩
      · exact absurd (hd hs) (by decide)
      · exact absurd (hd (hlate hl)) (by decide)
    · next hf =>
      exact iff_of_true ((allRefused_settle fd _).2 ⟨h, refused_closed ..⟩)
        fun _ => Bool.eq_false_of_not_eq_true hf
  | accepted more =>
    refine iff_of_true (fun d hd => h d ?_) trivial
    simp only [exec] at hd
    split at hd
    · exact (marks_reregister o l).1 ▸ hd
    · exact hd

/-- The marks are set by `Stop` and by a delivery only. -/
theorem marks_exec (i : ListenerInstr) :
    (exec o l i).1.late = l.late ∧ (exec o l i).1.stopped = l.stopped := by
  by_cases hi : ∃ more, i = .accepted more
  · obtain ⟨more, rfl⟩ := hi
    simp only [exec]
    split
    · exact (marks_reregister o l).2
    · exact ⟨rfl, rfl⟩
  · obtain ⟨ds, hds⟩ := (client_exec o l (not_exists.1 hi)).state
    rw [hds]
    exact ⟨rfl, rfl⟩

/-- A completion settles nothing but a descriptor that it closes. -/
theorem marks_onAccept (h : AllRefused l) (result : Int) (more : Bool) :
    AllRefused (onAccept o l result more).1 ∧ (onAccept o l result more).1.late = l.late ∧
      (onAccept o l result more).1.stopped = l.stopped := by
  have hm : (l.noteEnd more).decisions = l.decisions ∧ (l.noteEnd more).late = l.late ∧
      (l.noteEnd more).stopped = l.stopped := by
    unfold noteEnd
    split <;> exact ⟨rfl, rfl, rfl⟩
  have hr : AllRefused (l.noteEnd more) := fun d hd => h d (hm.1 ▸ hd)
  unfold onAccept
  split
  · obtain ⟨hd, hl, hs⟩ := marks_reregister o (l.noteEnd more)
    exact ⟨fun d hmem => hr d (hd ▸ hmem), hl.trans hm.2.1, hs.trans hm.2.2⟩
  · unfold onAcceptClient
    split
    · exact ⟨hr, hm.2⟩
    · obtain ⟨ds, hds⟩ := (client_configureClient o (l.noteEnd more) result.toNat).state
      refine ⟨allRefused_configureClient hr _, ?_⟩
      rw [hds]
      exact hm.2

/-- The condition on a step. -/
def StepRefuses (c : LConf) : LInput → Prop
  | .exec o => ∀ i rest, c.stack = .code i :: rest → RefusesLate o c.state i
  | _ => True

theorem allRefused_event {e : ListenerEvent} {r : LSeg} (h : AllRefused l)
    (hlate : l.late = true → l.stopped = true) (he : event o l e = some r) :
    AllRefused r.1 ∧ (r.1.late = true → r.1.stopped = true) := by
  obtain ⟨id, result, more, rfl, -, rfl⟩ | ⟨cancels, rfl⟩ := event_cases he
  · have hr : AllRefused (l.delivered id more) := h
    obtain ⟨hr, hl, hs⟩ := marks_onAccept (o := o) hr result more
    exact ⟨hr, fun hx => hs.trans (hl.symm.trans hx)⟩
  · exact ⟨h, hlate⟩

/-- `Stop` leaves a late descriptor to luck: a run creates no session and closes
every descriptor after `Stop` exactly if each of its segments would refuse the
descriptor anyway. -/
theorem refused_after_stop_iff (cfg : ListenerConfig) (fd : Fd) (is : List LInput) :
    machine.Visits (fun c => AllRefused c.state) (startedConf cfg fd) is ↔
      machine.Steps StepRefuses (startedConf cfg fd) is := by
  refine Trace.visits_iff_steps (J := fun c : LConf => AllRefused c.state ∧
    (c.state.late = true → c.state.stopped = true)) (fun c hc => hc.1) ?_ ?_ is
    ⟨fun d hd => (by cases hd), fun hl => (by cases hl)⟩
  · rintro c i c' ⟨hr, hlate⟩ hs hQ
    rcases Machine.step_cases hs with ⟨o, j, rest, rfl, hst, rfl⟩ | ⟨o, a, rfl, -, rfl⟩ |
      ⟨b, k, rest, rfl, hst, rfl⟩ | ⟨o, e, r, rfl, -, he, rfl⟩
    · have hm := marks_exec (o := o) (l := c.state) j
      exact ⟨(allRefused_exec hr hlate j).2 (hQ j rest hst),
        fun hl => hm.2.trans (hlate (hm.1 ▸ hl))⟩
    · cases a
      have hstop := stop_stopped o c.state
      exact ⟨fun d hd => hr d (hstop.decisions ▸ hd), fun _ => hstop.stopped⟩
    · exact ⟨hr, hlate⟩
    · exact allRefused_event hr hlate he
  · rintro c i c' ⟨hr, hlate⟩ hs hQ hP
    rcases Machine.step_cases hs with ⟨o, j, rest, rfl, hst, rfl⟩ | ⟨o, a, rfl, -, rfl⟩ |
      ⟨b, k, rest, rfl, hst, rfl⟩ | ⟨o, e, r, rfl, -, he, rfl⟩
    · refine hQ fun j' rest' hst' => ?_
      cases hst.symm.trans hst'
      exact (allRefused_exec hr hlate j).1 hP
    all_goals exact hQ trivial

/-- A descriptor that the kernel had accepted before the cancel took effect still
becomes a session. -/
theorem session_after_stop :
    ∃ c, machine.run (startedConf {} 3)
        [.call {} .stop, .event {} (.accept 0 7 true), .ret true, .exec {}] = some c ∧
      c.state.decisions = [⟨7, .session, true, true⟩] ∧
      c.stack.head? = some (.callback (.sessionStart 7)) :=
  ⟨_, rfl, rfl, rfl⟩

/-! ## The accept in flight -/

/-- The environment's choices for a step that re-arms an accept that has ended. -/
def rearm (c : LConf) : LInput → Option ListenerOutcome
  | .exec o => if c.stack.head? = some (.code (.accepted false)) then some o else none
  | .event o (.accept _ result more) => if result < 0 ∧ more = false then some o else none
  | _ => none

/-- The step's re-arm, if it makes one for a live listener, gets its operation
and its SQE. -/
def Rearms (c : LConf) (i : LInput) : Prop :=
  ∀ o, rearm c i = some o → c.state.listenFd.isSome → o.alloc = true ∧ o.sqe = true

structure OneAccept (l : Listener) (st : List LFrame) : Prop where
  accepts : l.accepts = l.activeAcceptEv.toList
  armed : l.listenFd.isSome → l.activeAcceptEv.isSome ∨ .code (.accepted false) ∈ st

theorem OneAccept.reregister (h : l.accepts = l.activeAcceptEv.toList)
    (hok : l.listenFd.isSome → l.activeAcceptEv = none → o.alloc = true ∧ o.sqe = true) :
    OneAccept (l.reregister o) st := by
  obtain he | ⟨-, hnone, he⟩ := reregister_cases o l
  · refine ⟨by rw [he, h], fun hlive => .inl ?_⟩
    rw [he] at hlive ⊢
    by_contra hno
    have hnone := Option.not_isSome_iff_eq_none.1 hno
    obtain ⟨halloc, hsqe⟩ := hok hlive hnone
    have : (l.reregister o).activeAcceptEv = some l.nextOp := by
      simp [Listener.reregister, registerAccept, hlive, hnone, halloc, hsqe,
        Option.isSome_iff_ne_none.1 hlive]
    rw [he, hnone] at this
    cases this
  · exact ⟨by rw [he, h, hnone]; rfl, fun _ => .inl (by rw [he]; rfl)⟩

theorem OneAccept.onAccept (h : OneAccept l []) {id : OpId} (hid : id ∈ l.accepts) (more : Bool)
    (result : Int)
    (hok : result < 0 → more = false → l.listenFd.isSome → o.alloc = true ∧ o.sqe = true) :
    OneAccept (Listener.onAccept o (l.delivered id more) result more).1
      (Listener.onAccept o (l.delivered id more) result more).2 := by
  have hactive : l.activeAcceptEv = some id := by
    rw [h.accepts, Option.mem_toList] at hid
    exact hid
  generalize hm : l.delivered id more = m
  have hend : (m.noteEnd more).accepts = (m.noteEnd more).activeAcceptEv.toList ∧
      (m.noteEnd more).listenFd = l.listenFd ∧
      ((m.noteEnd more).activeAcceptEv = none → more = false) := by
    subst hm
    cases more with
    | true => exact ⟨h.accepts, rfl, fun hn => by cases hactive.symm.trans hn⟩
    | false => exact ⟨by simp [noteEnd, delivered, h.accepts, hactive], rfl, fun _ => rfl⟩
  unfold Listener.onAccept
  split
  · next hneg =>
    exact .reregister hend.1 fun hlive hnone => hok hneg (hend.2.2 hnone) (hend.2.1 ▸ hlive)
  · obtain ⟨ds, hds⟩ := (client_onAcceptClient o (m.noteEnd more) result.toNat).state
    rw [hds]
    refine ⟨hend.1, fun _ => ?_⟩
    show (m.noteEnd more).activeAcceptEv.isSome ∨ _
    cases hn : (m.noteEnd more).activeAcceptEv with
    | some id => exact .inl rfl
    | none =>
      rw [hend.2.2 hn]
      exact .inr (List.mem_append_right _ List.mem_cons_self)

theorem OneAccept.exec {i : ListenerInstr} {rest : List LFrame}
    (h : OneAccept l (.code i :: rest))
    (hok : i = .accepted false → l.listenFd.isSome → o.alloc = true ∧ o.sqe = true) :
    OneAccept (Listener.exec o l i).1 ((Listener.exec o l i).2 ++ rest) := by
  -- the re-arm that may be owed is owed by a frame below
  have hbelow (hi : i ≠ .accepted false) (frames : List LFrame) : OneAccept l (frames ++ rest) := by
    refine ⟨h.accepts, fun hlive => (h.armed hlive).imp_right fun hmem => ?_⟩
    refine List.mem_append_right _ ((List.mem_cons.1 hmem).resolve_left fun he => hi ?_)
    cases he
    rfl
  by_cases hi : ∃ more, i = .accepted more
  · obtain ⟨_ | _, rfl⟩ := hi
    · exact .reregister h.accepts fun hlive _ => hok rfl hlive
    · exact hbelow (fun he => by cases he) []
  · obtain ⟨ds, hds⟩ := (client_exec o l (not_exists.1 hi)).state
    rw [hds]
    exact ⟨h.accepts, (hbelow (not_exists.1 hi false) _).armed⟩

theorem OneAccept.stop (h : OneAccept l st) : OneAccept (l.stop o) st := by
  have hs := stop_stopped o l
  refine ⟨by rw [hs.accepts, hs.activeAcceptEv, h.accepts], fun hlive => ?_⟩
  rw [hs.listenFd] at hlive
  cases hlive

theorem OneAccept.event {e : ListenerEvent} {r : LSeg} (h : OneAccept l [])
    (he : Listener.event o l e = some r) (hok : Rearms ⟨l, []⟩ (.event o e)) :
    OneAccept r.1 r.2 := by
  obtain ⟨id, result, more, rfl, hid, rfl⟩ | ⟨cancels, rfl⟩ := event_cases he
  · exact h.onAccept hid more result fun hneg hmore => hok o (by simp [rearm, hneg, hmore])
  · exact ⟨h.accepts, h.armed⟩

/-- A live listener whose re-arms succeed has its one accept in flight whenever
no handler runs, in particular after every iteration of `Worker::Run`. -/
theorem one_accept_in_flight (cfg : ListenerConfig) (fd : Fd) (is : List LInput)
    (h : machine.Steps Rearms (startedConf cfg fd) is) :
    machine.Visits (fun c => c.stack = [] → c.state.listenFd.isSome →
      ∃ id, c.state.activeAcceptEv = some id ∧ c.state.accepts = [id]) (startedConf cfg fd) is := by
  refine Trace.visits_of_steps (J := fun c : LConf => OneAccept c.state c.stack) ?_ ?_ is
    ⟨rfl, fun _ => .inl rfl⟩ h
  · intro c hc hst hlive
    rcases hc.armed hlive with hact | hmem
    · obtain ⟨id, hid⟩ := Option.isSome_iff_exists.1 hact
      exact ⟨id, hid, by rw [hc.accepts, hid]; rfl⟩
    · rw [hst] at hmem
      cases hmem
  · intro c i c' hc hs hQ
    rcases Machine.step_cases hs with ⟨o, j, rest, rfl, hst, rfl⟩ | ⟨o, a, rfl, -, rfl⟩ |
      ⟨b, k, rest, rfl, hst, rfl⟩ | ⟨o, e, r, rfl, hst, he, rfl⟩
    · rw [hst] at hc
      exact hc.exec fun hj => hQ o (by simp [rearm, hst, hj])
    · cases a
      exact hc.stop
    · rw [hst] at hc
      exact ⟨hc.accepts, fun hlive => (hc.armed hlive).imp_right fun hmem =>
        (List.mem_cons.1 hmem).resolve_left (fun he => by cases he)⟩
    · rw [hst] at hc
      obtain ⟨l, st⟩ := c
      cases hst
      exact hc.event he hQ

/-- A listener that runs out of descriptors, re-arms and accepts a client. -/
theorem one_accept_in_flight_emfile :
    machine.Steps Rearms (startedConf {} 3)
        [.event {} (.accept 0 (-24) false), .event {} (.accept 1 7 true), .event {} .iteration] ∧
      machine.Visits (fun c => c.stack = [] → c.state.listenFd.isSome →
          ∃ id, c.state.activeAcceptEv = some id ∧ c.state.accepts = [id]) (startedConf {} 3)
        [.event {} (.accept 0 (-24) false), .event {} (.accept 1 7 true), .event {} .iteration] := by
  have h : machine.Steps Rearms (startedConf {} 3)
      [.event {} (.accept 0 (-24) false), .event {} (.accept 1 7 true),
        .event {} .iteration] := by
    refine .cons rfl ?_ (.cons rfl ?_ fun c hc => by cases hc)
    · intro o ho _
      cases ho
      exact ⟨rfl, rfl⟩
    · intro o ho
      cases ho
  exact ⟨h, one_accept_in_flight {} 3 _ h⟩

/-- No accept is in flight, and no handler will arm one. -/
structure Idle (l : Listener) (st : List LFrame) : Prop where
  accepts : l.accepts = []
  active : l.activeAcceptEv = none
  owed : ∀ more, .code (.accepted more) ∉ st

/-- Nothing repairs a failed re-arm. -/
theorem idle_preserved : machine.Preserved Idle where
  exec o l i rest h := by
    have hrest : ∀ more, .code (.accepted more) ∉ rest := fun more hmem =>
      h.owed more (List.mem_cons_of_mem _ hmem)
    have hi : ∀ more, i ≠ .accepted more := by
      rintro more rfl
      exact h.owed more List.mem_cons_self
    have hc := client_exec o l hi
    obtain ⟨ds, hds⟩ := hc.state
    refine ⟨?_, ?_, fun more hmem => ?_⟩
    · exact (congrArg Listener.accepts hds).trans h.accepts
    · exact (congrArg Listener.activeAcceptEv hds).trans h.active
    · exact (List.mem_append.1 hmem).elim (hc.frames more) (hrest more)
  call o l a st _ h := by
    cases a
    have hs := stop_stopped o l
    exact ⟨hs.accepts.trans h.accepts, hs.activeAcceptEv.trans h.active, h.owed⟩
  ret l k b rest h := ⟨h.accepts, h.active, fun more hmem =>
    h.owed more (List.mem_cons_of_mem _ hmem)⟩
  event o l e r he h := by
    obtain ⟨id, result, more, rfl, hid, rfl⟩ | ⟨cancels, rfl⟩ := event_cases he
    · rw [h.accepts] at hid
      cases hid
    · exact ⟨h.accepts, h.active, h.owed⟩

/-- The accept ends with an error while the submission queue is full. The
listener is live, SQEs are free again in the next iteration, and no accept is
ever in flight again. -/
theorem failed_rearm_is_final :
    ∃ c, machine.run (startedConf {} 3)
        [.event { sqe := false } (.accept 0 (-24) false), .event {} .iteration] = some c ∧
      c.stack = [] ∧ c.state.listenFd = some 3 ∧ c.state.stopped = false ∧
      ∀ c', machine.Reachable c c' → c'.state.accepts = [] ∧ c'.state.activeAcceptEv = none := by
  refine ⟨_, rfl, rfl, rfl, rfl, fun c' hc' => ?_⟩
  have h := idle_preserved.reachable hc' ⟨rfl, rfl, fun _ hmem => by cases hmem⟩
  exact ⟨h.accepts, h.active⟩

end Listener

end IouringRuntime
