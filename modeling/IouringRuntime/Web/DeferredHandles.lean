import IouringRuntime.Session.Moves

/-!
# Deferred responses

`DeferredResponse` handles over one `HttpSession` (`web/RouterDeferred.cpp`). The
machine is a layer over the session's: `BeginDeferredResponse` and
`EndDeferredResponse` are the only callers of `BeginAppIo` and `EndAppIo`, and
`HttpSession` itself, with its parser, its streams and the handlers, is user code
that calls the session. So is `HttpResponse::Send`. Handles are numbered, and so
are the calls of `DeferResponse`; a handle whose `session_` is set has the number
of its call, its pin.

`Reset` clears `session_` first and ends the deferral last, and in between, or
inside the `EndDeferredResponse` that closes the session, user code may run. A
move-assignment overwrites `session_` after its `Reset`, whatever user code has
put there: `pins_balanced` holds if no handle is assigned to while an assignment
to it is under way, and `assigned_pin_lost` is what happens otherwise.
-/

namespace IouringRuntime

open Reentrant

abbrev Pin := Nat

/-- `response_`, with the pin of the handle it was made for. -/
structure HandleResponse where
  pin : Pin
  isSent : Bool := false
  deriving DecidableEq, Repr

structure DeferredHandle where
  session : Option Pin := none
  response : Option HandleResponse := none
  deriving DecidableEq, Repr

/-- A handle reaches into its session, or the session becomes `kClosed`. -/
inductive PinEvent where
  | began (pin : Pin)
  | sent (pin : Pin)
  | ended (pin : Pin)
  | closed
  deriving DecidableEq, Repr

def PinEvent.pin : PinEvent → Option Pin
  | .began p | .sent p | .ended p => some p
  | .closed => none

/-- The fields from `nextPin` on are history; `guardHits` counts the calls of
`EndDeferredResponse` that found one of the two counters at zero. -/
structure DeferredSession where
  session : Session
  asyncWorkCount : Nat := 0
  handles : List DeferredHandle := []
  nextPin : Pin := 0
  guardHits : Nat := 0
  log : List PinEvent := []
  deriving DecidableEq, Repr

inductive DeferredCallback where
  | session (k : Callback)
  /-- `HttpResponse::Send`. -/
  | responseSend (pin : Pin)
  deriving DecidableEq, Repr

inductive DeferredInstr where
  | session (i : Instr)
  /-- `Reset` after the `Send`. -/
  | resetTail (h : Nat) (pin : Pin)
  /-- `operator=` after its `Reset`. -/
  | assign (dst src : Nat)
  deriving DecidableEq, Repr

def Api.isAppIo : Api → Bool
  | .beginAppIo | .endAppIo => true
  | _ => false

inductive DeferredApi where
  | session (a : { a : Api // a.isAppIo = false })
  | deferResponse
  | construct
  | moveConstruct (src : Nat)
  | moveAssign (dst src : Nat)
  /-- `Response().Send()`. -/
  | sendResponse (h : Nat)
  | complete (h : Nat)
  | abort (h : Nat)
  | destroy (h : Nat)
  deriving DecidableEq, Repr

abbrev DFrame := Frame DeferredInstr DeferredCallback
abbrev DSeg := DeferredSession × List DFrame
abbrev DConf := Conf DeferredSession DeferredInstr DeferredCallback
abbrev DInput := Input DeferredApi (OpId × Cqe) Outcome

namespace DeferredSession

def liftFrame : SFrame → DFrame
  | .code i => .code (.session i)
  | .callback k => .callback (.session k)

def record (x : DeferredSession) (e : PinEvent) : DeferredSession := { x with log := x.log ++ [e] }

def setSession (x : DeferredSession) (s : Session) : DeferredSession := { x with session := s }

/-- Go on with a segment of the session. -/
def inSession (x : DeferredSession) (r : Seg) : DSeg :=
  (if x.session.state ≠ .kClosed ∧ r.1.state = .kClosed then (x.setSession r.1).record .closed
    else x.setSession r.1,
    r.2.map liftFrame)

/-- `HasPendingAppWork` as `HttpSession` overrides it; `o` has the streams. -/
def outcome (x : DeferredSession) (o : Outcome) : Outcome :=
  { o with hasPendingAppWork := o.hasPendingAppWork || x.asyncWorkCount ≠ 0 }

def setHandle (x : DeferredSession) (h : Nat) (a : DeferredHandle) : DeferredSession :=
  { x with handles := x.handles.set h a }

def beginDeferredResponse (x : DeferredSession) : DeferredSession :=
  { x with asyncWorkCount := x.asyncWorkCount + 1, session := x.session.beginAppIo }

/-- The decrement of `EndDeferredResponse`. -/
def completeAsyncWork (x : DeferredSession) : DeferredSession :=
  { x with
    asyncWorkCount := if 0 < x.asyncWorkCount then x.asyncWorkCount - 1 else x.asyncWorkCount
    guardHits :=
      if 0 < x.asyncWorkCount ∧ 0 < x.session.pendingAppIo then x.guardHits else x.guardHits + 1 }

def endDeferredResponse (o : Outcome) (x : DeferredSession) : DSeg :=
  let x := x.completeAsyncWork
  x.inSession (x.session.endAppIo (x.outcome o))

/-- The constructor that `RequestContext::DeferResponse` calls. -/
def deferResponse (x : DeferredSession) : DeferredSession :=
  record
    { x.beginDeferredResponse with
      handles := x.handles ++ [⟨some x.nextPin, some ⟨x.nextPin, false⟩⟩]
      nextPin := x.nextPin + 1 }
    (.began x.nextPin)

/-- `response_.reset()` and `EndDeferredResponse`. -/
def resetTail (o : Outcome) (x : DeferredSession) (h : Nat) (pin : Pin) : DSeg :=
  let x := match x.handles[h]? with
    | some a => x.setHandle h { a with response := none }
    | none => x
  endDeferredResponse o (x.record (.ended pin))

/-- `HttpResponse::Send` of a response that is not sent. -/
def sendResponse (x : DeferredSession) (h : Nat) (a : DeferredHandle) (r : HandleResponse) : DSeg :=
  ((x.setHandle h { a with response := some { r with isSent := true } }).record (.sent r.pin),
    [.callback (.responseSend r.pin)])

def reset (o : Outcome) (x : DeferredSession) (h : Nat) (sendIfOpen : Bool) : DSeg :=
  match x.handles[h]? with
  | none => (x, [])
  | some a =>
    match a.session with
    | none => (x.setHandle h { a with response := none }, [])
    | some pin =>
      match a.response with
      | some r =>
        if sendIfOpen && !r.isSent then
          let s := x.sendResponse h { a with session := none } r
          (s.1, s.2 ++ [.code (.resetTail h pin)])
        else resetTail o (x.setHandle h { a with session := none }) h pin
      | none => resetTail o (x.setHandle h { a with session := none }) h pin

/-- Take the members out of the source and put them into the target. -/
def assign (x : DeferredSession) (dst src : Nat) : DeferredSession :=
  match x.handles[src]? with
  | some b => (x.setHandle src {}).setHandle dst b
  | none => x

def exec (o : Outcome) (x : DeferredSession) : DeferredInstr → DSeg
  | .session i => x.inSession (x.session.exec (x.outcome o) i)
  | .resetTail h pin => resetTail o x h pin
  | .assign dst src => (x.assign dst src, [])

def call (o : Outcome) (x : DeferredSession) : DeferredApi → DSeg
  | .session a => x.inSession (x.session.call (x.outcome o) a)
  | .deferResponse => (x.deferResponse, [])
  | .construct => ({ x with handles := x.handles ++ [{}] }, [])
  | .moveConstruct src =>
    match x.handles[src]? with
    | some b => ({ x with handles := x.handles.set src {} ++ [b] }, [])
    | none => (x, [])
  | .moveAssign dst src =>
    if dst = src ∨ x.handles.length ≤ dst ∨ x.handles.length ≤ src then (x, [])
    else
      let r := reset o x dst false
      (r.1, r.2 ++ [.code (.assign dst src)])
  | .sendResponse h =>
    match x.handles[h]? with
    | some ⟨pin, some r⟩ => if r.isSent then (x, []) else x.sendResponse h ⟨pin, some r⟩ r
    | _ => (x, [])
  | .complete h => reset o x h true
  | .abort h => reset o x h false
  | .destroy h => reset o x h false

def machine : Machine DeferredSession DeferredInstr DeferredCallback DeferredApi (OpId × Cqe)
    Outcome where
  exec := exec
  call := call
  event o x e := (x.session.event (x.outcome o) e).map x.inSession
  ret x k b :=
    match k with
    | .session k => { x with session := Session.machine.ret x.session k b }
    | .responseSend _ => x

def initConf (cfg : Config) : DConf := ⟨{ session := Session.init cfg }, []⟩

/-! ## The counts -/

/-- The handle owns a pin among `q`. -/
def owns (q : Pin → Bool) (a : DeferredHandle) : Bool := a.session.any q

/-- A `Reset` has taken a pin among `q` and not ended it. -/
def resets (q : Pin → Bool) : DFrame → Bool
  | .code (.resetTail _ pin) => q pin
  | _ => false

/-- How many pins among `q` are held. -/
def held (q : Pin → Bool) (handles : List DeferredHandle) (st : List DFrame) : Nat :=
  handles.countP (owns q) + st.countP (resets q)

/-- All of them. -/
abbrev pins : List DeferredHandle → List DFrame → Nat := held fun _ => true

/-- Nothing is done for a pin behind its end, and what was begun when the session
became `kClosed` had been ended. -/
structure LogOrdered (log : List PinEvent) : Prop where
  quiet : log.Pairwise fun e f => ∀ p, e = .ended p → f.pin ≠ some p
  closings : ∀ k, log[k]? = some .closed → ∀ p, .began p ∈ log.take k → .ended p ∈ log.take k

/-- The two counters are the number of handles that own the session or, inside
`Complete`, have just given it up, and each pin is held once or has been ended
once. -/
structure PinsBalanced (x : DeferredSession) (st : List DFrame) : Prop where
  async : x.asyncWorkCount = pins x.handles st
  appIo : x.session.pendingAppIo = pins x.handles st
  guards : x.guardHits = 0
  matched : ∀ p < x.nextPin, x.log.count (.ended p) + held (· == p) x.handles st = 1
  ordered : LogOrdered x.log

/-- A response that can still be sent is that of the pin its handle owns. -/
def ResponseOwned (a : DeferredHandle) : Prop :=
  ∀ r, a.response = some r → r.isSent = false → a.session = some r.pin

/-- The assignments under way have a target and a source. -/
def AssignsValid (handles : List DeferredHandle) (st : List DFrame) : Prop :=
  ∀ dst src, .code (.assign dst src) ∈ st →
    dst ≠ src ∧ dst < handles.length ∧ src < handles.length

/-- The invariant. -/
structure Custody (x : DeferredSession) (st : List DFrame) : Prop extends PinsBalanced x st where
  fresh : ∀ p, x.nextPin ≤ p → x.log.count (.ended p) + held (· == p) x.handles st = 0
  began : ∀ p, .began p ∈ x.log → p < x.nextPin
  responses : ∀ a ∈ x.handles, ResponseOwned a
  assigns : AssignsValid x.handles st

variable {x y : DeferredSession} {st k : List DFrame} {h : Nat} {pin : Pin} {a b : DeferredHandle}
  {q : Pin → Bool} {o : Outcome}

theorem held_append (q : Pin → Bool) (hs : List DeferredHandle) (k st : List DFrame) :
    held q hs (k ++ st) = held q hs st + k.countP (resets q) := by
  simp only [held, List.countP_append]
  omega

theorem held_set (q : Pin → Bool) (st : List DFrame) {hs : List DeferredHandle}
    (ha : hs[h]? = some a) (b : DeferredHandle) :
    held q (hs.set h b) st + (owns q a).toNat = held q hs st + (owns q b).toNat := by
  obtain ⟨hlt, rfl⟩ := List.getElem?_eq_some_iff.1 ha
  have hpos (hq : owns q hs[h] = true) : 0 < hs.countP (owns q) :=
    List.countP_pos_iff.2 ⟨_, List.getElem_mem hlt, hq⟩
  have hone (b : Bool) : (if b = true then 1 else 0) = b.toNat := by cases b <;> rfl
  simp only [held, List.countP_set hlt, hone]
  cases hq : owns q hs[h] with
  | true =>
    have := hpos hq
    rw [Bool.toNat_true]
    omega
  | false =>
    rw [Bool.toNat_false]
    omega

theorem held_concat (q : Pin → Bool) (hs : List DeferredHandle) (b : DeferredHandle)
    (st : List DFrame) : held q (hs ++ [b]) st = held q hs st + (owns q b).toNat := by
  simp only [held, List.countP_append, List.countP_singleton]
  cases owns q b
  · rfl
  · exact Nat.add_right_comm _ _ _

theorem held_resetTail (q : Pin → Bool) (hs : List DeferredHandle) (h : Nat) (pin : Pin)
    (st : List DFrame) :
    held q hs (.code (.resetTail h pin) :: st) = held q hs st + (q pin).toNat := by
  rw [← List.singleton_append, held_append, List.countP_singleton]
  show _ + (if q pin = true then 1 else 0) = _
  cases q pin <;> rfl

/-- The session's frames hold no pin. -/
theorem countP_lift (q : Pin → Bool) (k : List SFrame) :
    (k.map liftFrame).countP (resets q) = 0 := by
  rw [List.countP_eq_zero]
  intro f hf
  obtain ⟨g, -, rfl⟩ := List.mem_map.1 hf
  cases g <;> simp [liftFrame, resets]

/-- A pin that is held has not been ended. -/
theorem Custody.not_ended (hc : Custody x st) (hp : 0 < held (· == pin) x.handles st) :
    .ended pin ∉ x.log := by
  intro hmem
  have hcount := List.count_pos_iff.2 hmem
  rcases Nat.lt_or_ge pin x.nextPin with hlt | hge
  · have := hc.matched pin hlt
    omega
  · have := hc.fresh pin hge
    omega

theorem AssignsValid.grow {hs hs' : List DeferredHandle} (h : AssignsValid hs st)
    (hle : hs.length ≤ hs'.length) : AssignsValid hs' st := by
  intro dst src hmem
  obtain ⟨hne, hd, hs⟩ := h dst src hmem
  exact ⟨hne, Nat.lt_of_lt_of_le hd hle, Nat.lt_of_lt_of_le hs hle⟩

/-- Pins go from one holder to another. -/
theorem Custody.rearrange (hc : Custody x st) {hs : List DeferredHandle} {st' : List DFrame}
    (hheld : ∀ q, held q hs st' = held q x.handles st) (hresp : ∀ a ∈ hs, ResponseOwned a)
    (hassigns : AssignsValid hs st') : Custody { x with handles := hs } st' where
  async := hc.async.trans (hheld _).symm
  appIo := hc.appIo.trans (hheld _).symm
  guards := hc.guards
  matched p hp := (congrArg _ (hheld _)).trans (hc.matched p hp)
  ordered := hc.ordered
  fresh p hp := (congrArg _ (hheld _)).trans (hc.fresh p hp)
  began := hc.began
  responses := hresp
  assigns := hassigns

/-! ## The log -/

/-- The log stays in order with one more entry. -/
theorem LogOrdered.concat {log : List PinEvent} {e : PinEvent} (h : LogOrdered log)
    (halive : ∀ p, e.pin = some p → .ended p ∉ log)
    (hclosing : e = .closed → ∀ p, .began p ∈ log → .ended p ∈ log) : LogOrdered (log ++ [e]) where
  quiet := by
    refine List.pairwise_append.2 ⟨h.quiet, List.pairwise_singleton _ _, ?_⟩
    intro e' he' f hf p hp heq
    obtain rfl := List.mem_singleton.1 hf
    exact halive p heq (hp ▸ he')
  closings := by
    intro k hk p hp
    obtain ⟨hlt, -⟩ := List.getElem?_eq_some_iff.1 hk
    have hle : k ≤ log.length := by simpa [Nat.lt_succ_iff] using hlt
    rw [List.take_append_of_le_length hle] at hp ⊢
    rcases Nat.lt_or_eq_of_le hle with hlt | rfl
    · exact h.closings k (by rwa [List.getElem?_append_left hlt] at hk) p hp
    · rw [List.take_length] at hp ⊢
      exact hclosing (by simpa using hk) p hp

/-- Entries other than the beginning and the end of a pin. -/
theorem Custody.record {e : PinEvent} (hc : Custody x st) (ho : LogOrdered (x.record e).log)
    (hended : ∀ p, e ≠ .ended p) (hbegan : ∀ p, e ≠ .began p) : Custody (x.record e) st := by
  have hcount (p : Pin) : (x.record e).log.count (.ended p) = x.log.count (.ended p) := by
    simp [DeferredSession.record, List.count_append, hended p]
  exact {
    async := hc.async
    appIo := hc.appIo
    guards := hc.guards
    matched := fun p hp => by rw [hcount]; exact hc.matched p hp
    ordered := ho
    fresh := fun p hp => by rw [hcount]; exact hc.fresh p hp
    began := fun p hp => by
      rcases List.mem_append.1 hp with hp | hp
      · exact hc.began p hp
      · exact absurd (List.mem_singleton.1 hp).symm (hbegan p)
    responses := hc.responses
    assigns := hc.assigns }

/-- With no pin held, all that have been begun are ended. -/
theorem Custody.all_ended (hc : Custody x st) (hz : pins x.handles st = 0) (p : Pin)
    (hp : .began p ∈ x.log) : .ended p ∈ x.log := by
  have hle : held (· == p) x.handles st ≤ pins x.handles st :=
    Nat.add_le_add (List.countP_mono_left fun a _ ha => by
        revert ha; cases hs : a.session <;> simp [owns, hs])
      (List.countP_mono_left fun f _ hf => by
        revert hf; rcases f with (_ | _ | _) | _ <;> simp [resets])
  have := hc.matched p (hc.began p hp)
  exact List.count_pos_iff.1 (by omega)

/-! ## The session's segments -/

/-- What changes the session without touching `pending_app_io_`, and closes it
only when that is zero. -/
structure Spares (s t : Session) : Prop where
  appIo : t.pendingAppIo = s.pendingAppIo
  closed : s.state ≠ .kClosed → t.state = .kClosed → s.pendingAppIo = 0

theorem Spares.of_life {s t u : Session} (h : Spares s t) (hl : u.life = t.life) : Spares s u :=
  ⟨(congrArg Life.pendingAppIo hl).trans h.appIo,
    fun hs hu => h.closed hs ((congrArg Life.state hl).symm.trans hu)⟩

theorem Spares.move {s t u : Session} {idle : Prop} (hm : Session.Move o idle t u)
    (h : Spares s t) : Spares s u := by
  cases hm with
  | aside hl => exact h.of_life hl
  | closed _ _ _ happ => exact ⟨h.appIo, fun _ _ => h.appIo.symm.trans happ⟩
  | shut cause | unshut cause | drain => exact ⟨h.appIo, fun _ hu => (by cases hu)⟩
  | _ => exact ⟨h.appIo, h.closed⟩

theorem Spares.arms {s t u : Session} (ha : Session.Arms t u) (h : Spares s t) : Spares s u := by
  cases ha <;> exact ⟨h.appIo, h.closed⟩

theorem Spares.effect {s t u : Session} {idle : Prop} (he : Session.Effect o idle t u)
    (h : Spares s t) : Spares s u :=
  he.keep (I := Spares s) (fun hm => Spares.move hm) (fun ha => Spares.arms ha) h

/-- Only `BeginAppIo` and `EndAppIo` write `pending_app_io_`. -/
theorem spares_step {c c' : Session.SConf} {i : Session.SInput}
    (hs : Session.machine.step c i = some c')
    (hi : Session.appIoLeft c.state i = c.state.pendingAppIo) : Spares c.state c'.state := by
  have hu {u : Session} (he : Session.Entered c.state i u) : Spares c.state u :=
    ⟨he.pendingAppIo.trans hi, fun hn hc => absurd (he.state.symm.trans hc) hn⟩
  cases Session.stepped hs with
  | effect _ he heff => exact (hu he).effect heff
  | resent op _ he hl =>
    refine Spares.of_life ?_ hl
    exact ⟨(hu he).appIo, (hu he).closed⟩
  | rest _ _ hl =>
    exact ⟨congrArg Life.pendingAppIo hl,
      fun hn hc => absurd ((congrArg Life.state hl).symm.trans hc) hn⟩

theorem Custody.setSession {t : Session} (hc : Custody x st)
    (ht : t.pendingAppIo = x.session.pendingAppIo) : Custody (x.setSession t) st :=
  { hc with appIo := ht.trans hc.appIo }

/-- Frames that hold no pin and assign nothing. -/
theorem Custody.frames (hc : Custody x st) (hk : ∀ q, k.countP (resets q) = 0)
    (ha : ∀ dst src, .code (.assign dst src) ∉ k) : Custody x (k ++ st) := by
  refine hc.rearrange (fun q => ?_) hc.responses fun dst src hmem => ?_
  · rw [held_append, hk]
    rfl
  · exact hc.assigns dst src ((List.mem_append.1 hmem).resolve_left (ha dst src))

theorem Custody.inSession {r : Seg} (hc : Custody x st) (hr : Spares x.session r.1) :
    Custody (x.inSession r).1 ((x.inSession r).2 ++ st) := by
  have hset : Custody (x.setSession r.1) st := hc.setSession hr.appIo
  refine Custody.frames ?_ (fun q => countP_lift q r.2) fun dst src hmem => ?_
  · show Custody (if _ then _ else _) _
    split
    · next hcl =>
      refine hset.record (hset.ordered.concat ?_ ?_) ?_ ?_
      · intro p hp
        cases hp
      · intro _
        exact hc.all_ended (hc.appIo.symm.trans (hr.closed hcl.1 hcl.2))
      · intro p hp
        cases hp
      · intro p hp
        cases hp
    · exact hset
  · obtain ⟨g, -, hg⟩ := List.mem_map.1 hmem
    cases g <;> cases hg

theorem spares_exec (o : Outcome) (s : Session) (i : Instr) : Spares s (s.exec o i).1 :=
  spares_step (c := ⟨s, [.code i]⟩) (i := .exec o) rfl rfl

theorem spares_call (o : Outcome) (s : Session) (a : { a : Api // a.isAppIo = false }) :
    Spares s (s.call o a.1).1 := by
  refine spares_step (c := ⟨s, []⟩) (i := .call o a.1) rfl ?_
  obtain ⟨a, ha⟩ := a
  cases a <;> first | rfl | cases ha

theorem spares_event {s : Session} {e : OpId × Cqe} {r : Seg} (he : s.event o e = some r) :
    Spares s r.1 := by
  have hs : Session.machine.step ⟨s, []⟩ (.event o e) = some ⟨r.1, r.2⟩ := by
    simp only [Machine.step, Session.machine, he, Option.map_some]
  exact spares_step hs rfl

theorem spares_ret (s : Session) (k : Callback) (b : Bool) :
    Spares s (Session.machine.ret s k b) :=
  spares_step (c := ⟨s, [.callback k]⟩) (i := .ret b) rfl rfl

/-- The rest of `EndAppIo`, with the counter changed. -/
theorem spares_endAppIo (o : Outcome) (s : Session) : Spares s.completeAppIo (s.endAppIo o).1 :=
  Spares.effect (Session.does_call o s .endAppIo).effect ⟨rfl, fun hn hc => absurd hc hn⟩

/-! ## Handles -/

theorem responses_set {hs : List DeferredHandle} (hr : ∀ a ∈ hs, ResponseOwned a)
    (hb : ResponseOwned b) (i : Nat) : ∀ a ∈ hs.set i b, ResponseOwned a := by
  intro a ha
  rcases List.mem_or_eq_of_mem_set ha with ha | rfl
  · exact hr a ha
  · exact hb

theorem responses_concat {hs : List DeferredHandle} (hr : ∀ a ∈ hs, ResponseOwned a)
    (hb : ResponseOwned b) : ∀ a ∈ hs ++ [b], ResponseOwned a :=
  List.forall_mem_append.2 ⟨hr, List.forall_mem_singleton.2 hb⟩

theorem responseOwned_empty : ResponseOwned {} := fun _ hr => by cases hr

/-- The handle keeps its pin. -/
theorem Custody.keepPin (hc : Custody x st) (ha : x.handles[h]? = some a)
    (hs : b.session = a.session) (hb : ResponseOwned b) : Custody (x.setHandle h b) st := by
  refine hc.rearrange (fun q => ?_) (responses_set hc.responses hb h) ?_
  · have := held_set q st ha b
    rw [show owns q b = owns q a by simp only [owns, hs]] at this
    omega
  · exact hc.assigns.grow (Nat.le_of_eq List.length_set.symm)

/-- `Reset` takes the pin out of the handle. -/
theorem Custody.takePin (hc : Custody x st) (ha : x.handles[h]? = some a)
    (hs : a.session = some pin) (hbs : b.session = none) (hb : ResponseOwned b) :
    Custody (x.setHandle h b) (.code (.resetTail h pin) :: st) := by
  refine hc.rearrange (fun q => ?_) (responses_set hc.responses hb h) ?_
  · have hset := held_set q st ha b
    rw [show owns q a = q pin by simp [owns, hs], show owns q b = false by simp [owns, hbs]] at hset
    rw [held_resetTail]
    exact hset
  · refine AssignsValid.grow (fun dst src hmem => hc.assigns dst src ?_)
      (Nat.le_of_eq List.length_set.symm)
    exact (List.mem_cons.1 hmem).resolve_left (fun he => by cases he)

theorem held_deferResponse (q : Pin → Bool) (x : DeferredSession) (st : List DFrame) :
    held q x.deferResponse.handles st = held q x.handles st + (q x.nextPin).toNat :=
  held_concat q x.handles ⟨some x.nextPin, some ⟨x.nextPin, false⟩⟩ st

theorem Custody.deferResponse (hc : Custody x st) : Custody x.deferResponse st := by
  have hcount (p : Pin) : x.deferResponse.log.count (.ended p) = x.log.count (.ended p) := by
    simp [DeferredSession.deferResponse, DeferredSession.record, beginDeferredResponse]
  have hnew : x.log.count (.ended x.nextPin) + held (· == x.nextPin) x.handles st = 0 :=
    hc.fresh x.nextPin (Nat.le_refl _)
  exact {
    async := (congrArg (· + 1) hc.async).trans (held_deferResponse _ x st).symm
    appIo := (congrArg (· + 1) hc.appIo).trans (held_deferResponse _ x st).symm
    guards := hc.guards
    matched := fun p hp => by
      rw [held_deferResponse, hcount]
      rcases Nat.lt_succ_iff_lt_or_eq.1 hp with hp | rfl
      · rw [show (x.nextPin == p) = false from beq_false_of_ne (Nat.ne_of_gt hp)]
        exact hc.matched p hp
      · rw [beq_self_eq_true, Bool.toNat_true]
        omega
    ordered := by
      refine hc.ordered.concat (fun p hp hmem => ?_) (fun he => by cases he)
      obtain rfl := Option.some.inj hp
      have := List.count_pos_iff.2 hmem
      omega
    fresh := fun p hp => by
      have hp : x.nextPin < p := hp
      rw [held_deferResponse, hcount,
        show (x.nextPin == p) = false from beq_false_of_ne (Nat.ne_of_lt hp)]
      exact hc.fresh p (Nat.le_of_lt hp)
    began := fun p hp => by
      rcases List.mem_append.1 hp with hp | hp
      · exact Nat.lt_succ_of_lt (hc.began p hp)
      · cases List.mem_singleton.1 hp
        exact Nat.lt_succ_self _
    responses := by
      refine responses_concat hc.responses fun r hr _ => ?_
      cases hr
      rfl
    assigns := hc.assigns.grow (List.length_append ▸ Nat.le_add_right _ _) }

/-! ## The end of a pin -/

/-- Both decrements of `EndDeferredResponse`. -/
def endPin (x : DeferredSession) : DeferredSession :=
  x.completeAsyncWork.setSession x.session.completeAppIo

theorem endDeferredResponse_eq (o : Outcome) (x : DeferredSession) :
    endDeferredResponse o x =
      x.endPin.inSession (x.session.endAppIo (x.completeAsyncWork.outcome o)) := by
  simp only [endDeferredResponse, inSession, endPin, setSession, Session.state_completeAppIo]
  rfl

/-- The pin a `Reset` has taken is ended. -/
theorem Custody.endPin (hc : Custody x (.code (.resetTail h pin) :: st)) :
    Custody (x.record (.ended pin)).endPin st := by
  have hcount (p : Pin) : (x.record (.ended pin)).endPin.log.count (.ended p) =
      x.log.count (.ended p) + (pin == p).toNat := by
    show (x.log ++ [PinEvent.ended pin]).count (PinEvent.ended p) = _
    rw [List.count_append, List.count_singleton]
    by_cases hp : pin = p <;> simp [hp]
  have hasync := hc.async
  have happ := hc.appIo
  simp only [pins, held_resetTail, Bool.toNat_true] at hasync happ
  have hnot : .ended pin ∉ x.log := hc.not_ended (by
    rw [held_resetTail, beq_self_eq_true]
    exact Nat.succ_pos _)
  exact {
    async := by
      show (if 0 < x.asyncWorkCount then x.asyncWorkCount - 1 else _) = _
      rw [if_pos (by omega), hasync]
      rfl
    appIo := by
      show (if 0 < x.session.pendingAppIo then _ else x.session).pendingAppIo = _
      rw [if_pos (by omega)]
      show x.session.pendingAppIo - 1 = _
      rw [happ]
      rfl
    guards := by
      show (if 0 < x.asyncWorkCount ∧ 0 < x.session.pendingAppIo then x.guardHits else _) = 0
      rw [if_pos (by omega)]
      exact hc.guards
    matched := fun p hp => by
      have := hc.matched p hp
      rw [held_resetTail] at this
      rw [hcount]
      show _ + held _ x.handles st = 1
      omega
    ordered := by
      refine hc.ordered.concat (fun p hp => ?_) (fun he => by cases he)
      obtain rfl := Option.some.inj hp
      exact hnot
    fresh := fun p hp => by
      have := hc.fresh p hp
      rw [held_resetTail] at this
      rw [hcount]
      show _ + held _ x.handles st = 0
      omega
    began := fun p hp => by
      rcases List.mem_append.1 hp with hp | hp
      · exact hc.began p hp
      · cases List.mem_singleton.1 hp
    responses := hc.responses
    assigns := fun dst src hmem => hc.assigns dst src (List.mem_cons_of_mem _ hmem) }

theorem custody_endDeferredResponse (hc : Custody x (.code (.resetTail h pin) :: st)) :
    Custody (endDeferredResponse o (x.record (.ended pin))).1
      ((endDeferredResponse o (x.record (.ended pin))).2 ++ st) := by
  rw [endDeferredResponse_eq]
  exact hc.endPin.inSession (spares_endAppIo _ _)

/-- Without its response a handle is as it was to the counts. -/
theorem custody_resetTail (hc : Custody x (.code (.resetTail h pin) :: st)) :
    Custody (resetTail o x h pin).1 ((resetTail o x h pin).2 ++ st) := by
  unfold resetTail
  cases ha : x.handles[h]? with
  | none => exact custody_endDeferredResponse hc
  | some a =>
    refine custody_endDeferredResponse (hc.keepPin ha rfl ?_)
    intro r hr
    cases hr

/-- A `Reset` that sends nothing may as well clear the whole handle first. -/
theorem resetTail_setHandle (ha : x.handles[h]? = some a) (hs : b.session = none) :
    resetTail o (x.setHandle h b) h pin = resetTail o (x.setHandle h {}) h pin := by
  obtain ⟨hlt, -⟩ := List.getElem?_eq_some_iff.1 ha
  have hget (c : DeferredHandle) : (x.setHandle h c).handles[h]? = some c :=
    List.getElem?_set_self hlt
  have hset (c d : DeferredHandle) : (x.setHandle h c).setHandle h d = x.setHandle h d := by
    simp only [setHandle, List.set_set]
  simp only [resetTail, hget, hset, hs]

/-! ## The operations of a handle -/

theorem Custody.callback (hc : Custody x st) (k : DeferredCallback) :
    Custody x (.callback k :: st) :=
  hc.frames (k := [.callback k]) (fun _ => rfl) (by simp)

theorem held_pos (ha : x.handles[h]? = some a) (hs : a.session = some pin) :
    0 < held (· == pin) x.handles st := by
  have hpos : 0 < x.handles.countP (owns (· == pin)) :=
    List.countP_pos_iff.2 ⟨a, List.mem_of_getElem? ha, by simp [owns, hs]⟩
  exact Nat.add_pos_left hpos _

theorem Custody.sent (hc : Custody x st) (hp : 0 < held (· == pin) x.handles st) :
    Custody (x.record (.sent pin)) st := by
  refine hc.record (hc.ordered.concat ?_ ?_) ?_ ?_
  · intro p hp'
    obtain rfl := Option.some.inj hp'
    exact hc.not_ended hp
  · intro he
    cases he
  · intro p he
    cases he
  · intro p he
    cases he

theorem responseOwned_sent (s : Option Pin) (r : HandleResponse) :
    ResponseOwned ⟨s, some { r with isSent := true }⟩ := by
  intro r' hr' hsent
  obtain rfl := Option.some.inj hr'
  cases hsent

theorem custody_sendResponse {r : HandleResponse} (hc : Custody x st)
    (ha : x.handles[h]? = some a) (hr : a.response = some r) (hsent : r.isSent = false) :
    Custody (x.sendResponse h a r).1 ((x.sendResponse h a r).2 ++ st) := by
  have hs : a.session = some r.pin := hc.responses a (List.mem_of_getElem? ha) r hr hsent
  have hkeep : Custody (x.setHandle h { a with response := some { r with isSent := true } }) st :=
    hc.keepPin ha rfl (responseOwned_sent _ r)
  obtain ⟨hlt, -⟩ := List.getElem?_eq_some_iff.1 ha
  exact (hkeep.sent (held_pos (List.getElem?_set_self hlt) hs)).callback _

/-- `Complete` sends the response with the pin already taken from the handle. -/
theorem custody_complete {r : HandleResponse} (hc : Custody x st) (ha : x.handles[h]? = some a)
    (hs : a.session = some pin) (hr : a.response = some r) (hsent : r.isSent = false) :
    Custody (x.sendResponse h { a with session := none } r).1
      ((x.sendResponse h { a with session := none } r).2 ++ .code (.resetTail h pin) :: st) := by
  have hpin : r.pin = pin := Option.some.inj
    ((hc.responses a (List.mem_of_getElem? ha) r hr hsent).symm.trans hs)
  refine Custody.callback (Custody.sent (hc.takePin ha hs rfl (responseOwned_sent _ r)) ?_) _
  rw [held_resetTail, hpin, beq_self_eq_true]
  exact Nat.succ_pos _

theorem custody_reset (o : Outcome) (hc : Custody x st) (h : Nat) (sendIfOpen : Bool) :
    Custody (reset o x h sendIfOpen).1 ((reset o x h sendIfOpen).2 ++ st) := by
  have hend {a : DeferredHandle} {pin : Pin} (ha : x.handles[h]? = some a)
      (hs : a.session = some pin) :
      Custody (resetTail o (x.setHandle h { a with session := none }) h pin).1
        ((resetTail o (x.setHandle h { a with session := none }) h pin).2 ++ st) := by
    rw [resetTail_setHandle ha rfl]
    exact custody_resetTail (hc.takePin ha hs rfl responseOwned_empty)
  unfold reset
  split
  · exact hc
  · next a ha =>
    split
    · next hs => exact hc.keepPin ha rfl fun r hr => by cases hr
    · next pin hs =>
      split
      · next r hr =>
        split
        · next hb =>
          have hsent : r.isSent = false := by simp_all
          rw [List.append_assoc]
          exact custody_complete hc ha hs hr hsent
        · exact hend ha hs
      · exact hend ha hs

/-- The pin the handle owns. -/
def owned (x : DeferredSession) (h : Nat) : Option Pin := x.handles[h]?.bind (·.session)

/-- An assignment loses what its target owns. -/
theorem held_assign (q : Pin → Bool) (st : List DFrame) {dst src : Nat} (hne : dst ≠ src)
    (hdst : dst < x.handles.length) (hsrc : src < x.handles.length) :
    held q (x.assign dst src).handles st + ((x.owned dst).any q).toNat = held q x.handles st := by
  have hs : x.handles[src]? = some x.handles[src] := List.getElem?_eq_getElem hsrc
  have hd : x.handles[dst]? = some x.handles[dst] := List.getElem?_eq_getElem hdst
  have hd' : (x.handles.set src {})[dst]? = some x.handles[dst] := by
    rw [List.getElem?_set_ne hne.symm, hd]
  have htake := held_set q st hs {}
  have hput := held_set q st hd' x.handles[src]
  rw [show x.assign dst src = (x.setHandle src {}).setHandle dst x.handles[src] by
    simp only [assign, hs]]
  rw [show x.owned dst = x.handles[dst].session by simp [owned, hd]]
  show held q ((x.handles.set src {}).set dst x.handles[src]) st + (owns q x.handles[dst]).toNat = _
  rw [show owns q {} = false from rfl, Bool.toNat_false] at htake
  omega

theorem responses_assign (hr : ∀ a ∈ x.handles, ResponseOwned a) (dst src : Nat) :
    ∀ a ∈ (x.assign dst src).handles, ResponseOwned a := by
  unfold assign
  split
  · next b hb =>
    exact responses_set (responses_set hr responseOwned_empty src)
      (hr b (List.mem_of_getElem? hb)) dst
  · exact hr

theorem length_assign (x : DeferredSession) (dst src : Nat) :
    (x.assign dst src).handles.length = x.handles.length := by
  unfold assign
  split
  · simp only [setHandle, List.length_set]
  · rfl

theorem assign_eq (x : DeferredSession) (dst src : Nat) :
    x.assign dst src = { x with handles := (x.assign dst src).handles } := by
  unfold assign
  split <;> rfl

theorem custody_assign {dst src : Nat} (hc : Custody x (.code (.assign dst src) :: st))
    (hempty : x.owned dst = none) : Custody (x.assign dst src) st := by
  obtain ⟨hne, hdst, hsrc⟩ := hc.assigns dst src (List.mem_cons_self ..)
  rw [assign_eq]
  refine hc.rearrange (fun q => ?_) (responses_assign hc.responses dst src) ?_
  · have := held_assign q st hne hdst hsrc
    rw [hempty] at this
    exact this
  · intro dst' src' hmem
    rw [length_assign]
    exact hc.assigns dst' src' (List.mem_cons_of_mem _ hmem)

/-- Nothing is held for the pin that an assignment overwrites. -/
theorem lost_assign {dst src : Nat} (hc : Custody x (.code (.assign dst src) :: st))
    (howned : x.owned dst ≠ none) : ¬ PinsBalanced (x.assign dst src) st := by
  intro hb
  obtain ⟨hne, hdst, hsrc⟩ := hc.assigns dst src (List.mem_cons_self ..)
  obtain ⟨pin, hpin⟩ := Option.ne_none_iff_exists'.1 howned
  have hheld := held_assign (fun _ => true) st hne hdst hsrc
  rw [hpin, Option.any_some, Bool.toNat_true] at hheld
  have hasync : (x.assign dst src).asyncWorkCount = x.asyncWorkCount := by rw [assign_eq]
  have hbefore : x.asyncWorkCount = held (fun _ => true) x.handles st := hc.async
  have hafter : _ = held (fun _ => true) (x.assign dst src).handles st := hb.async
  omega

theorem Custody.newHandle (hc : Custody x st) (hb : ResponseOwned b) (hs : b.session = none) :
    Custody { x with handles := x.handles ++ [b] } st := by
  refine hc.rearrange (fun q => ?_) (responses_concat hc.responses hb)
    (hc.assigns.grow (List.length_append ▸ Nat.le_add_right _ _))
  rw [held_concat, owns, hs]
  rfl

theorem custody_moveConstruct (hc : Custody x st) {src : Nat} (hb : x.handles[src]? = some b) :
    Custody { x with handles := x.handles.set src {} ++ [b] } st := by
  refine hc.rearrange (fun q => ?_) (responses_concat ?_ ?_) (hc.assigns.grow ?_)
  · rw [held_concat]
    exact held_set q st hb {}
  · exact responses_set hc.responses responseOwned_empty src
  · exact hc.responses b (List.mem_of_getElem? hb)
  · rw [List.length_append, List.length_set]
    exact Nat.le_add_right _ _

end DeferredSession

end IouringRuntime
