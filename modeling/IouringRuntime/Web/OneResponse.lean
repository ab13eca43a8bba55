import IouringRuntime.Web.HttpExchange

/-!
# One response per request

A request may be answered once: by its response, or by a deferred response that
takes its place. `Single` counts, for every request, the responses queued and
the deferred ones still to be sent; a request whose response is open has
neither.

The code guards `Send` on a response that was sent, but a response that was
deferred can still be sent, by user code and by most of the code's own error
replies, and `DeferResponse` can be called at any time. `Orderly` is the
condition under which none of these answers a request again.
-/

namespace IouringRuntime

/-- A response is still to come from it, for request `q`. -/
def DeferredResponse.owes (d : DeferredResponse) (q : Nat) : Bool :=
  d.request == q &&
    match d.response with
    | some r => !r.isSent
    | none => false

namespace Outbox

variable {W : World} {o o' : Outbox} {q : Nat} {ctx : RequestContext}

/-- How many complete responses were queued for a request. -/
def answered (o : Outbox) (q : Nat) : Nat := o.sends.countP fun r => r.request == q && r.queued

/-- How many deferred responses to a request are still to be sent. -/
def pending (o : Outbox) (q : Nat) : Nat := o.deferred.countP (·.owes q)

/-- No response to the request is queued or still to come from a deferred one,
as far as the session takes any. -/
def Free (o : Outbox) (q : Nat) : Prop := o.isOpen = true → o.answered q = 0 ∧ o.pending q = 0

/-! ## The condition on user code and on error replies -/

/-- A response that was deferred is sent only if its deferred one was dropped. -/
def MaySend (o : Outbox) (q : Nat) (r : LiveResponse) : Prop := r.state = .kDeferred → o.Free q

def MayAct (o : Outbox) (q : Nat) (r : LiveResponse) : Action → Prop
  | .send | .sendFile _ _ => o.MaySend q r
  | .defer => r.state ≠ .kOpen → o.Free q
  | _ => True

def MayRun (W : World) (q : Nat) : List Action → Outbox → RequestContext → Prop
  | [], _, _ => True
  | a :: rest, o, ctx =>
    o.MayAct q ctx.response a ∧ MayRun W q rest (o.act W q ctx a).1 (o.act W q ctx a).2

def MayCall (W : World) (o : Outbox) (q : Nat) (call : UserCall) (ctx : RequestContext) : Prop :=
  MayRun W q (o.script W call ctx).actions (o.recordCall q call) ctx

/-- The call may be made, and if it ends like that, an error may be sent. -/
def MayFail (W : World) (o : Outbox) (q : Nat) (call : UserCall) (ctx : RequestContext)
    (fails : Ending → Prop) : Prop :=
  o.MayCall W q call ctx ∧
    (fails (o.script W call ctx).ending →
      (o.callUser W q call ctx).1.MaySend q (o.callUser W q call ctx).2.response)

def MayPass (W : World) (q : Nat) : List Nat → Outbox → RequestContext → Prop
  | [], _, _ => True
  | m :: rest, o, ctx =>
    let x := o.callUser W q (.middleware m) ctx
    o.MayCall W q (.middleware m) ctx ∧
      ((o.script W (.middleware m) ctx).ending ≠ .threw → x.2.response.isSent = false →
        MayPass W q rest x.1 x.2)

def MayRoute (W : World) (o : Outbox) (q : Nat) (ctx : RequestContext) : Prop :=
  let result := dispatchResult W q ctx
  match result.handler with
  | some h =>
    o.MayFail W q (.handler h) { suppressHead ctx with params := result.params } (· = .threw)
  | none => o.MaySend q ctx.response

def MayDispatch (W : World) (o : Outbox) (q : Nat) (ctx : RequestContext) : Prop :=
  let r := runMiddlewares W q W.router.middlewares o ctx
  MayPass W q W.router.middlewares o ctx ∧ (r.2 = .passed → MayRoute W r.1.1 q r.1.2)

/-! ## Counting -/

theorem answered_queue (o : Outbox) (q : Nat) (c : HttpResponse) (p : Nat) :
    (o.queue W q c).answered p =
      o.answered p + if q = p ∧ (o.isOpen && W.accepts o.sends.length) = true then 1 else 0 := by
  simp [answered, queue, List.countP_append, List.countP_singleton]

theorem answered_queue_of_ne {p : Nat} (h : p ≠ q) (c : HttpResponse) :
    (o.queue W q c).answered p = o.answered p := by
  rw [answered_queue, if_neg fun hq => h hq.1.symm, Nat.add_zero]

theorem answered_queue_le (o : Outbox) (q : Nat) (c : HttpResponse) (p : Nat) :
    (o.queue W q c).answered p ≤ o.answered p + 1 := by
  rw [answered_queue]
  split <;> omega

theorem answered_queue_of_closed (h : o.isOpen = false) (c : HttpResponse) (p : Nat) :
    (o.queue W q c).answered p = o.answered p := by
  rw [answered_queue, h]
  simp

/-- Replacing one deferred response moves the count by what the two owe. -/
theorem pending_set {d : Nat} {x : DeferredResponse} (h : o.deferred[d]? = some x)
    (x' : DeferredResponse) (p : Nat) :
    (o.deferred.set d x').countP (·.owes p) + (if x.owes p then 1 else 0) =
      o.pending p + if x'.owes p then 1 else 0 := by
  obtain ⟨hd, hx⟩ := List.getElem?_eq_some_iff.1 h
  rw [List.countP_set hd, hx]
  unfold pending
  split
  case isTrue ho =>
    have : 0 < o.deferred.countP (·.owes p) :=
      List.countP_pos_iff.2 ⟨x, List.mem_of_getElem? h, ho⟩
    omega
  case isFalse => omega

/-! ## Deferred responses -/

/-- No more is queued or to come than before. -/
structure Within (o' o : Outbox) : Prop where
  isOpen : o'.isOpen = true → o.isOpen = true
  closed : o.isOpen = false → ∀ p, o'.answered p ≤ o.answered p
  total : ∀ p, o'.answered p + o'.pending p ≤ o.answered p + o.pending p

theorem Within.refl (o : Outbox) : Within o o := ⟨id, fun _ _ => Nat.le_refl _, fun _ => Nat.le_refl _⟩

theorem within_disconnect (o : Outbox) : Within o.disconnect o :=
  ⟨nofun, fun _ _ => Nat.le_refl _, fun _ => Nat.le_refl _⟩

section

variable {d : Nat} {x : DeferredResponse}

/-- A deferred response is replaced by one that owes no more. -/
theorem within_set (h : o.deferred[d]? = some x) {x' : DeferredResponse}
    (howes : ∀ p, x'.owes p = true → x.owes p = true) (n : Nat) :
    Within { o with deferred := o.deferred.set d x', asyncWorkCount := n } o := by
  refine ⟨id, fun _ _ => Nat.le_refl _, fun p => ?_⟩
  have hset := pending_set h x' p
  have hle : (if x'.owes p then 1 else 0) ≤ if x.owes p then 1 else 0 := by
    split
    case isTrue hp => rw [if_pos (howes p hp)]
    case isFalse => exact Nat.zero_le _
  show o.answered p + (o.deferred.set d x').countP (·.owes p) ≤ o.answered p + o.pending p
  omega

/-- A deferred response is sent: it owes no more what is queued for it. -/
theorem within_settle (h : o.deferred[d]? = some x) {x' : DeferredResponse}
    (hx : x.owes q = true) (hx' : ∀ p, x'.owes p = false) (c : HttpResponse) (n : Nat) :
    Within { o.queue W q c with deferred := o.deferred.set d x', asyncWorkCount := n } o := by
  refine ⟨id, fun hc p => Nat.le_of_eq (answered_queue_of_closed hc c p), fun p => ?_⟩
  have hset := pending_set h x' p
  rw [hx' p] at hset
  show (o.queue W q c).answered p + (o.deferred.set d x').countP (·.owes p) ≤
    o.answered p + o.pending p
  by_cases hp : p = q
  · subst hp
    have := answered_queue_le (W := W) o p c p
    rw [hx, if_pos rfl] at hset
    simp only [Bool.false_eq_true, if_false] at hset
    omega
  · rw [answered_queue_of_ne hp]
    simp only [Bool.false_eq_true, if_false] at hset
    omega

theorem Used.within (hu : Used W o d o') : Within o' o := by
  cases hu with
  | nothing => exact .refl o
  | @kept q r x n h hq hr =>
    refine within_set h (fun p hp => ?_) n
    cases hx : x.response with
    | none => simp [DeferredResponse.owes, hx] at hp
    | some r' => simpa [DeferredResponse.owes, LiveResponse.isSent, hx, hq, hr r' hx] using hp
  | @queued q r x c n h hu hq hr =>
    have hx : DeferredResponse.owes ⟨q, some r⟩ q = true := by
      simp [DeferredResponse.owes, LiveResponse.isSent, hu]
    refine within_settle h hx (fun p => ?_) c n
    cases hx : x.response with
    | none => simp [DeferredResponse.owes, hx]
    | some r' => simp [DeferredResponse.owes, LiveResponse.isSent, hx, hr r' hx]

end

/-! ## The invariant -/

/-- Every request has at most one response queued or to come, the requests after
`q` have none, and neither has `q` while its response is open. A closed session
queues no more. -/
structure Single (o : Outbox) (q : Nat) (st : ResponseState) : Prop where
  one : ∀ p, o.answered p ≤ 1
  total : o.isOpen = true → ∀ p, o.answered p + o.pending p ≤ 1
  fresh : ∀ p, q < p → o.Free p
  current : st = .kOpen → o.Free q

namespace Single

variable {st st' : ResponseState}

theorem init : ({} : Outbox).Single 0 .kOpen :=
  ⟨fun _ => Nat.zero_le _, fun _ _ => Nat.zero_le _, fun _ _ _ => ⟨rfl, rfl⟩, fun _ _ => ⟨rfl, rfl⟩⟩

theorem of_closed (hc : o.isOpen = false) (h : ∀ p, o.answered p ≤ 1) : o.Single q st := by
  refine ⟨h, fun ho => ?_, fun p _ ho => ?_, fun _ ho => ?_⟩ <;> simp [hc] at ho

/-- The response is no longer looked at. -/
theorem dropped (h : o.Single q st) : o.Single q .kSent := ⟨h.one, h.total, h.fresh, nofun⟩

theorem next (h : o.Single q st) : o.Single (q + 1) .kOpen :=
  ⟨h.one, h.total, fun p hp => h.fresh p (by omega), fun _ => h.fresh _ (Nat.lt_succ_self q)⟩

theorem mono (h : o.Single q st) (hw : Within o' o) : o'.Single q st := by
  have hfree : ∀ p, o.Free p → o'.Free p := by
    intro p hp ho
    have hz := hp (hw.isOpen ho)
    have := hw.total p
    omega
  refine ⟨fun p => ?_, fun ho p => ?_, fun p hp => hfree p (h.fresh p hp),
    fun hst => hfree q (h.current hst)⟩
  · cases hopen : o.isOpen with
    | false => exact (hw.closed hopen p).trans (h.one p)
    | true =>
      have := hw.total p
      have := h.total hopen p
      omega
  · exact (hw.total p).trans (h.total (hw.isOpen ho) p)

/-- The request is free, and one response to it is queued or promised. -/
theorem spend (h : o.Single q st) (hf : o.Free q) (hopen : o'.isOpen = o.isOpen)
    (hclosed : o.isOpen = false → ∀ p, o'.answered p ≤ o.answered p)
    (hother : ∀ p, p ≠ q → o'.answered p + o'.pending p ≤ o.answered p + o.pending p)
    (hq : o'.answered q + o'.pending q ≤ o.answered q + o.pending q + 1) (hst : st' ≠ .kOpen) :
    o'.Single q st' := by
  have htotal : o.isOpen = true → ∀ p, o'.answered p + o'.pending p ≤ 1 := by
    intro ho p
    by_cases hp : p = q
    · subst hp
      have := hf ho
      omega
    · exact (hother p hp).trans (h.total ho p)
  refine ⟨fun p => ?_, fun ho p => htotal (hopen ▸ ho) p, fun p hp ho => ?_,
    fun hk => (hst hk).elim⟩
  · cases ho : o.isOpen with
    | false => exact (hclosed ho p).trans (h.one p)
    | true =>
      have := htotal ho p
      omega
  · have := h.fresh p hp (hopen ▸ ho)
    have := hother p (by omega)
    omega

theorem queue (h : o.Single q st) (hf : o.Free q) (c : HttpResponse) (hst : st' ≠ .kOpen) :
    (o.queue W q c).Single q st' := by
  refine h.spend hf rfl (fun hc p => Nat.le_of_eq (answered_queue_of_closed hc c p))
    (fun p hp => ?_) ?_ hst
  · rw [answered_queue_of_ne hp]
    exact Nat.le_refl _
  · have := answered_queue_le (W := W) o q c q
    show (o.queue W q c).answered q + o.pending q ≤ o.answered q + o.pending q + 1
    omega

theorem newDeferred (h : o.Single q st) (hf : o.Free q) (hst : st' ≠ .kOpen) :
    (o.newDeferred q).Single q st' := by
  have hpending : ∀ p, (o.newDeferred q).pending p = o.pending p + if q = p then 1 else 0 := by
    intro p
    simp [pending, Outbox.newDeferred, List.countP_append, List.countP_singleton,
      DeferredResponse.owes, LiveResponse.isSent, LiveResponse.keepAlive]
  refine h.spend hf rfl (fun _ _ => Nat.le_refl _) (fun p hp => ?_) ?_ hst
  · rw [hpending, if_neg (Ne.symm hp)]
    exact Nat.le_refl _
  · rw [hpending, if_pos rfl]
    exact Nat.le_refl _

theorem sends {r : LiveResponse} {x : Outbox × LiveResponse} (h : o.Single q r.state)
    (hm : o.MaySend q r) (hs : Sends W o q r x) : x.1.Single q x.2.state := by
  cases hs with
  | kept hr => rwa [hr]
  | queued c hu hr =>
    have hf : o.Free q := by
      cases hst : r.state with
      | kOpen => exact h.current hst
      | kSent => exact (hu hst).elim
      | kDeferred => exact hm hst
    exact h.queue hf c (by rw [hr]; nofun)

theorem act {a : Action} (h : o.Single q ctx.response.state) (hm : o.MayAct q ctx.response a) :
    (o.act W q ctx a).1.Single q (o.act W q ctx a).2.response.state := by
  cases a with
  | setRequest request => exact h
  | edit content => exact h
  | send => exact h.sends hm (sends_send _ _ rfl)
  | sendFile file contentType => exact h.sends hm (sends_sendFile ..)
  | defer =>
    have hf : o.Free q := by
      by_cases hst : ctx.response.state = .kOpen
      · exact h.current hst
      · exact hm hst
    exact h.newDeferred hf (LiveResponse.state_markDeferred _)
  | later d use => exact h.mono (used_useDeferred use).within
  | disconnect => exact h.mono (within_disconnect o)

theorem runActions {actions : List Action} : ∀ {o : Outbox} {ctx : RequestContext},
    o.Single q ctx.response.state → MayRun W q actions o ctx →
    (o.runActions W q actions ctx).1.Single q (o.runActions W q actions ctx).2.response.state := by
  induction actions with
  | nil => intro o ctx h _; exact h
  | cons a rest ih => intro o ctx h hm; exact ih (h.act hm.1) hm.2

theorem callUser {call : UserCall} (h : o.Single q ctx.response.state)
    (hm : o.MayCall W q call ctx) :
    (o.callUser W q call ctx).1.Single q (o.callUser W q call ctx).2.response.state :=
  runActions (o := o.recordCall q call) ⟨h.one, h.total, h.fresh, h.current⟩ hm

theorem sendError {x : Outbox × RequestContext} (h : x.1.Single q x.2.response.state)
    (hm : x.1.MaySend q x.2.response) (status : HttpStatus) (message : String) :
    (Outbox.sendError W q status message x).1.Single q
      (Outbox.sendError W q status message x).2.response.state :=
  h.sends hm (sends_send _ _ rfl)

theorem sendErrorIfUnsent {x : Outbox × RequestContext} (h : x.1.Single q x.2.response.state)
    (hm : x.1.MaySend q x.2.response) (status : HttpStatus) (message : String) :
    (Outbox.sendErrorIfUnsent W q status message x).1.Single q
      (Outbox.sendErrorIfUnsent W q status message x).2.response.state := by
  unfold Outbox.sendErrorIfUnsent
  split
  · exact h
  · exact h.sendError hm status message

theorem runMiddlewares {ms : List Nat} : ∀ {o : Outbox} {ctx : RequestContext},
    o.Single q ctx.response.state → MayPass W q ms o ctx →
    (Outbox.runMiddlewares W q ms o ctx).1.1.Single q
      (Outbox.runMiddlewares W q ms o ctx).1.2.response.state := by
  induction ms with
  | nil => intro o ctx h _; exact h
  | cons m rest ih =>
    intro o ctx h hm
    have hx := h.callUser hm.1
    simp only [Outbox.runMiddlewares]
    split
    case isTrue => exact hx
    case isFalse hok =>
      split
      case isTrue => exact hx
      case isFalse hsent => exact ih hx (hm.2 hok (by simpa using hsent))

theorem callHandler {k : Nat} (h : o.Single q ctx.response.state)
    (hm : o.MayFail W q (.handler k) ctx (· = .threw)) :
    (o.callHandler W q k ctx).1.Single q (o.callHandler W q k ctx).2.response.state := by
  have hx := h.callUser hm.1
  unfold Outbox.callHandler
  simp only
  split
  case isTrue hthrew => exact hx.sendErrorIfUnsent (hm.2 hthrew) _ _
  case isFalse => exact hx

theorem state_suppressHead (ctx : RequestContext) :
    (suppressHead ctx).response.state = ctx.response.state := by
  unfold suppressHead
  split <;> rfl

theorem sendUnrouted {x : Outbox × RequestContext} (h : x.1.Single q x.2.response.state)
    (hm : x.1.MaySend q x.2.response) (result : Router.MatchResult) :
    (Outbox.sendUnrouted W q result x).1.Single q
      (Outbox.sendUnrouted W q result x).2.response.state := by
  unfold Outbox.sendUnrouted
  split
  · exact h.sends hm (sends_send _ _ rfl)
  · exact h.sendError hm _ _

theorem dispatchRoute (h : o.Single q ctx.response.state) (hm : o.MayRoute W q ctx) :
    (o.dispatchRoute W q ctx).1.Single q (o.dispatchRoute W q ctx).2.response.state := by
  have h' : o.Single q (suppressHead ctx).response.state := by rwa [state_suppressHead]
  unfold Outbox.dispatchRoute
  simp only [MayRoute] at hm ⊢
  cases hh : (dispatchResult W q ctx).handler with
  | some k =>
    rw [hh] at hm
    refine callHandler ?_ hm
    exact h'
  | none =>
    rw [hh] at hm
    refine sendUnrouted (x := (o, suppressHead ctx)) h' ?_ _
    intro hst
    exact hm ((state_suppressHead ctx).symm.trans hst)

theorem dispatch (h : o.Single q ctx.response.state) (hm : o.MayDispatch W q ctx) :
    (o.dispatch W q ctx).1.1.Single q (o.dispatch W q ctx).1.2.response.state := by
  have hx := h.runMiddlewares hm.1
  unfold Outbox.dispatch
  simp only
  split
  case h_1 hp => exact hx.dispatchRoute (hm.2 hp)
  case h_2 => exact hx
  case h_3 => exact hx

end Single

end Outbox

namespace HttpExchange

open Outbox (Single)

variable {L : Llhttp} {W : World} {s s' : HttpExchange L}

/-! ## The condition on a step -/

/-- `on_headers` is not answered with an error after it deferred the response. -/
def MayPrepare (W : World) (s : HttpExchange L) (request : HttpRequest) : Prop :=
  let result := W.router.matchRoute request.method (W.pathData s.served) request.path
  ∀ handler, result.streamHandler = some handler → ∀ h, handler.onHeaders = some h →
    s.outbox.MayFail W s.served (.onHeaders h) (newContext request result.params)
      (· ≠ .returned true)

/-- Nor is `on_body`. -/
def MayChunk (W : World) (s : HttpExchange L) (request : HttpRequest) (chunk : Bytes) : Prop :=
  ∀ a, s.activeStream = some a → ∀ h, a.handler.onBody = some h →
    s.outbox.MayFail W s.served (.onBody h chunk) (a.context request) (· ≠ .returned true)

def MayComplete (W : World) (s : HttpExchange L) (request : HttpRequest) : Prop :=
  match s.activeStream with
  | some a => ∀ h, onComplete a = some h →
    s.outbox.MayCall W s.served (.onComplete h) (a.context request)
  | none => s.outbox.MayDispatch W s.served (newContext request [])

def MayHandle (W : World) (s : HttpExchange L) : LlCall → Prop
  | .headersComplete method keepAlive => s.MayPrepare W (s.headRequest method keepAlive)
  | .body data => s.parser.streams data = true → s.MayChunk W s.parser.request data
  | .messageComplete => s.MayComplete W s.parser.request
  | _ => True

def MayAbort (W : World) (s : HttpExchange L) : Prop :=
  ∀ a, s.activeStream = some a → ∀ h, a.handler.onAbort = some h →
    s.outbox.MayCall W s.served (.onAbort h) (a.context s.parser.request)

/-- The reply that gives up on the request finds it unanswered. -/
def MayRefuse (W : World) (s : HttpExchange L) : Prop :=
  s.MayAbort W ∧
    ((s.abortStreamingRequest W).outbox.isOpen = true →
      (s.abortStreamingRequest W).outbox.answered s.served = 0)

def MayFailParse (W : World) (s : HttpExchange L) : Prop :=
  if s.activeStreamResponseSent then s.MayAbort W else s.MayRefuse W

/-- A request that was answered, or whose answer was deferred and is still to
come, is not answered again: not by user code that sends a deferred response or
defers one that is not open, not by an error reply to user code that deferred,
and not by the reply to a parse error or to an expired deadline. -/
def Orderly (W : World) (s : HttpExchange L) : ExchangeInput → Prop
  | .recv now | .tick now => s.expired W now = true → s.MayRefuse W
  | .llhttp c =>
    s.MayHandle W c ∧
      ((s.parser.callback (s.handlers W) c).2 = .user → (s.afterCallback W c).MayFailParse W)
  | .llhttpError => MayFailParse W { s with parser := s.parser.badRequest }
  | .disconnected => s.MayAbort W
  | .deferred _ _ | .disconnect => True

/-! ## The invariant -/

/-- The state of the current request's response. -/
def streamState (s : HttpExchange L) : ResponseState :=
  match s.activeStream with
  | some a => a.response.state
  | none => .kOpen

/-- The same, where no request is to be answered once llhttp is done. -/
def responseState (s : HttpExchange L) : ResponseState :=
  match s.activeStream with
  | some a => a.response.state
  | none => if s.phase = .over then .kSent else .kOpen

structure Inv (s : HttpExchange L) : Prop where
  single : s.outbox.Single s.served s.responseState
  streaming : s.Streaming

theorem single_responseState (h : s.outbox.Single s.served s.streamState) :
    s.outbox.Single s.served s.responseState := by
  unfold streamState at h
  unfold responseState
  cases hs : s.activeStream with
  | some a =>
    rw [hs] at h
    exact h
  | none =>
    rw [hs] at h
    simp only
    split
    · exact h.dropped
    · exact h

theorem Inv.single_streamState (h : s.Inv) (hp : s.phase ≠ .over) :
    s.outbox.Single s.served s.streamState := by
  have hs := h.single
  unfold responseState at hs
  rwa [if_neg hp] at hs

/-! ## Handlers -/

theorem single_prepareRequestBody {request : HttpRequest}
    (h : s.outbox.Single s.served .kOpen) (hnone : s.activeStream = none)
    (hm : s.MayPrepare W request) :
    (s.prepareRequestBody W request).1.outbox.Single (s.prepareRequestBody W request).1.served
      (s.prepareRequestBody W request).1.streamState := by
  unfold MayPrepare at hm
  unfold prepareRequestBody
  simp only at hm ⊢
  split
  case h_1 =>
    rw [streamState, hnone]
    exact h
  case h_2 handler hr =>
    split
    case h_1 => exact h
    case h_2 k hk =>
      have hf := hm handler hr k hk
      have hx := Single.callUser h hf.1
      split
      case h_1 => exact hx
      case h_2 he => exact hx.sendErrorIfUnsent (hf.2 (by rw [he]; nofun)) _ _
      case h_3 he => exact hx.sendError (hf.2 (by rw [he]; nofun)) _ _

theorem single_handleBodyChunk {request : HttpRequest} {chunk : Bytes}
    (h : s.outbox.Single s.served s.streamState) (hm : s.MayChunk W request chunk) :
    (s.handleBodyChunk W request chunk).1.outbox.Single
      (s.handleBodyChunk W request chunk).1.served
      (s.handleBodyChunk W request chunk).1.streamState := by
  unfold handleBodyChunk
  split
  case h_1 => exact h
  case h_2 a ha =>
    rw [streamState, ha] at h
    split
    case h_1 =>
      rw [streamState, ha]
      exact h
    case h_2 k hk =>
      have hf := hm a ha k hk
      have hctx : s.outbox.Single s.served (a.context request).response.state := h
      have hx := hctx.callUser hf.1
      simp only
      split
      case h_1 => exact hx
      case h_2 he => exact hx.sendErrorIfUnsent (hf.2 (by rw [he]; nofun)) _ _
      case h_3 he => exact hx.sendErrorIfUnsent (hf.2 (by rw [he]; nofun)) _ _

theorem single_sendIfOpen {q : Nat} {x : Outbox × RequestContext}
    (h : x.1.Single q x.2.response.state) :
    (sendIfOpen W q x).1.Single q (sendIfOpen W q x).2.response.state := by
  unfold sendIfOpen
  split
  case isTrue => exact h
  case isFalse hg =>
    refine h.sends (fun hd => ?_) (Outbox.sends_send _ _ rfl)
    simp [LiveResponse.isDeferred, hd] at hg

theorem single_callOnComplete {a : StreamingRequest} {request : HttpRequest}
    (h : s.outbox.Single s.served a.response.state)
    (hm : ∀ k, onComplete a = some k →
      s.outbox.MayCall W s.served (.onComplete k) (a.context request)) :
    (callOnComplete W s.outbox s.served a request).1.Single s.served
      (callOnComplete W s.outbox s.served a request).2.response.state := by
  unfold callOnComplete
  split
  case h_1 => exact h
  case h_2 k hk =>
    have hctx : s.outbox.Single s.served (a.context request).response.state := h
    have hx := hctx.callUser (hm k hk)
    simp only
    split
    case isTrue hg =>
      refine hx.sendErrorIfUnsent (fun hd => ?_) _ _
      simp [LiveResponse.isDeferred, hd] at hg
    case isFalse => exact hx

theorem single_completes {request : HttpRequest}
    (h : s.outbox.Single s.served s.streamState) (hm : s.MayComplete W request)
    (hc : Completes W s request s') : s'.outbox.Single s'.served s'.streamState := by
  unfold streamState at h
  unfold MayComplete at hm
  cases hc with
  | stream close ha =>
    rw [ha] at h hm
    exact (single_sendIfOpen (single_callOnComplete h hm)).next
  | dispatched close hnone =>
    rw [hnone] at h hm
    have hctx : s.outbox.Single s.served (newContext request []).response.state := h
    exact (single_sendIfOpen (hctx.dispatch hm)).next
  | threw hnone =>
    rw [hnone] at h hm
    have hctx : s.outbox.Single s.served (newContext request []).response.state := h
    exact (hctx.dispatch hm).next

theorem single_handle {c : LlCall} {phase : MessagePhase} (h : s.Inv)
    (hp : s.phase.next c = some phase) (hm : s.MayHandle W c) :
    (s.handle W c).outbox.Single (s.handle W c).served (s.handle W c).streamState := by
  have hs := h.single_streamState (MessagePhase.next_ne_over hp)
  cases c with
  | headersComplete method keepAlive =>
    have hnone := h.streaming.none_of_headersComplete hp
    rw [streamState, hnone] at hs
    exact single_prepareRequestBody hs hnone hm
  | body data =>
    simp only [handle]
    split
    case isTrue hst => exact single_handleBodyChunk hs (hm hst)
    case isFalse => exact hs
  | messageComplete => exact single_completes hs hm (completes_handleRequest _ _)
  | _ => exact hs

/-! ## Giving up on a request -/

theorem single_abort (h : s.outbox.Single s.served s.responseState) (hm : s.MayAbort W) :
    (s.abortStreamingRequest W).outbox.Single s.served .kSent := by
  unfold abortStreamingRequest
  split
  case h_1 => exact h.dropped
  case h_2 a ha =>
    rw [responseState, ha] at h
    split
    case h_1 => exact h.dropped
    case h_2 k hk =>
      have hctx : s.outbox.Single s.served (a.context s.parser.request).response.state := h
      exact (hctx.callUser (hm a ha k hk)).dropped

theorem single_refuse (h : s.outbox.Single s.served s.responseState) (hm : s.MayRefuse W)
    (r : HttpResponse) (st : ResponseState) :
    (s.refuse W r).outbox.Single (s.refuse W r).served st := by
  have hone := (single_abort h hm.1).one
  refine .of_closed rfl fun p => ?_
  show ((s.abortStreamingRequest W).outbox.queue W (s.abortStreamingRequest W).served r).answered p
    ≤ 1
  rw [served_abort]
  cases ho : (s.abortStreamingRequest W).outbox.isOpen with
  | false =>
    rw [Outbox.answered_queue_of_closed ho]
    exact hone p
  | true =>
    by_cases hp : p = s.served
    · subst hp
      have hle := Outbox.answered_queue_le (W := W) (s.abortStreamingRequest W).outbox s.served r
        s.served
      rwa [hm.2 ho] at hle
    · rw [Outbox.answered_queue_of_ne hp]
      exact hone p

theorem single_failParse (h : s.outbox.Single s.served s.responseState) (hm : s.MayFailParse W)
    (st : ResponseState) : (s.failParse W).outbox.Single (s.failParse W).served st := by
  unfold MayFailParse at hm
  unfold failParse
  split
  case isTrue hsent =>
    rw [if_pos hsent] at hm
    exact .of_closed rfl (single_abort h hm).one
  case isFalse hsent =>
    rw [if_neg hsent] at hm
    exact single_refuse h hm _ st

theorem single_disconnected (h : s.outbox.Single s.served s.responseState) (hm : s.MayAbort W) :
    (s.abortStreamingRequest W).outbox.Single (s.abortStreamingRequest W).served
      ({ s.abortStreamingRequest W with phase := .over } : HttpExchange L).responseState := by
  rw [responseState]
  simp only [activeStream_abort, if_true]
  rw [served_abort]
  exact single_abort h hm

/-! ## Runs -/

theorem Inv.init (options : HttpParserOptions) : (make L options).Inv :=
  ⟨.init, fun h => (h rfl).elim⟩

theorem inv_step (s : HttpExchange L) (i : ExchangeInput) (s' : HttpExchange L) (h : s.Inv)
    (hs : step W s i = some s') (hq : s.Orderly W i) : s'.Inv := by
  refine ⟨?_, h.streaming.step hs⟩
  have after : ∀ {c phase}, s.phase.next c = some phase → s.MayHandle W c →
      (s.afterCallback W c).outbox.Single (s.afterCallback W c).served
        (s.afterCallback W c).streamState := fun hp hm => single_handle h hp hm
  cases step_cases hs with
  | clock => exact h.single
  | expire now hi he =>
    have hm : s.MayRefuse W := by
      rcases hi with rfl | rfl <;> exact hq he
    exact single_refuse h.single hm _ _
  | callback hp =>
    exact single_responseState (s := { s.afterCallback W _ with phase := _ }) (after hp hq.1)
  | fail hp hu => exact single_failParse (single_responseState (after hp hq.1)) (hq.2 hu) _
  | error =>
    exact single_failParse (s := { s with parser := s.parser.badRequest }) h.single hq _
  | deferred d use => exact h.single.mono (Outbox.used_useDeferred use).within
  | disconnect => exact h.single.mono (Outbox.within_disconnect _)
  | disconnected => exact single_disconnected h.single hq

/-- **One response per request.** Whatever the router, the user code, the
environment and the input, no request is answered twice in a run whose steps are
all `Orderly`. -/
theorem one_response_per_request (W : World) (options : HttpParserOptions)
    (is : List ExchangeInput) (h : Trace.Steps (step W) (Orderly W) (make L options) is) :
    Trace.Visits (step W) (fun s => ∀ q, s.outbox.answered q ≤ 1) (make L options) is :=
  Trace.visits_of_steps (fun _ hi => hi.single.one) inv_step is (.init options) h

/-! ## Requests with two responses -/

/-- A plain route and a stream route for `/`, behind a request deadline of 100 ms. -/
def twoRoutes (user : Nat → UserCall → RequestContext → Script) : World where
  router := (({} : Router).route .get [47] 0).routeStream .post [47] { onHeaders := some 1 }
  user := user
  requestTimeout := 100

/-- The head of a request for `/` arrives. -/
def headOf (method : Nat) : List ExchangeInput :=
  [.recv 0, .llhttp .messageBegin, .llhttp (.url [47]), .llhttp .urlComplete,
    .llhttp (.headersComplete method true)]

/-- The handler defers its response and then ends like this; `on_headers` rejects
the request. -/
def deferring (ending : Ending) : Nat → UserCall → RequestContext → Script
  | _, .handler _, _ => ⟨[.defer], ending⟩
  | _, .onHeaders _, _ => ⟨[], .returned false⟩
  | _, _, _ => {}

def statuses (s : HttpExchange L) : List (Nat × HttpStatus × Bool) :=
  s.outbox.sends.map fun r => (r.request, r.response.status, r.queued)

theorem one_response_to_deferred :
    Trace.Visits (step (twoRoutes (deferring (.returned true))))
      (fun s => ∀ q, s.outbox.answered q ≤ 1) (make HttpRecv.closingLlhttp {})
      (headOf 1 ++ [.llhttp .messageComplete, .deferred 0 .complete]) := by
  refine one_response_per_request _ {} _ ?_
  refine .cons rfl nofun (.cons rfl ⟨trivial, nofun⟩ (.cons rfl ⟨trivial, nofun⟩ ?_))
  refine .cons rfl ⟨trivial, nofun⟩ (.cons rfl ⟨nofun, nofun⟩ (.cons rfl ⟨?_, nofun⟩ ?_))
  · exact ⟨trivial, fun _ => ⟨⟨fun h => (h rfl).elim, trivial⟩, nofun⟩⟩
  · exact .cons rfl trivial trivial

/-- A handler that throws after it deferred its response is answered with a 500,
and then by the deferred response. A request that `on_headers` rejects is
answered with a 400, and with a 408 when its body is late. -/
theorem two_responses_to_one_request :
    (∃ s, Trace.run (step (twoRoutes (deferring .threw))) (make HttpRecv.closingLlhttp {})
        (headOf 1 ++ [.llhttp .messageComplete, .deferred 0 .complete]) = some s ∧
      s.statuses = [(0, .kInternalServerError, true), (0, .kOk, true)] ∧
      s.outbox.answered 0 = 2) ∧
    ∃ s, Trace.run (step (twoRoutes (deferring .threw))) (make HttpRecv.closingLlhttp {})
        (headOf 3 ++ [.tick 100000000]) = some s ∧
      s.statuses = [(0, .kBadRequest, true), (0, .kRequestTimeout, true)] ∧
      s.outbox.answered 0 = 2 :=
  ⟨⟨_, rfl, rfl, rfl⟩, ⟨_, rfl, rfl, rfl⟩⟩

end HttpExchange

end IouringRuntime
