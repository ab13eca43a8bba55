import IouringRuntime.Web.HttpRecv
import IouringRuntime.Web.Router

/-!
# Handling requests

`HttpSession` on its request side (`HttpSessionRequest.cpp`,
`HttpSessionStream.cpp`, `HttpSessionTimeout.cpp` and the failing branch of
`HttpSessionRecv.cpp`), behind the callbacks of the parser. A request of a
stream route is answered by `on_headers`, `on_body` and `on_complete` as it
arrives; any other is dispatched once it is complete.

llhttp is present through the order of its callbacks only. `OnDisconnected`
comes from outside, not from inside a handler: a recv completion holds the
session until it has been dealt with. An exception that no function of the
session catches ends the process. Times are in nanoseconds.

`served` counts the messages completed; it numbers the requests.
-/

namespace IouringRuntime

/-- How far llhttp is in a message. It is `over` once the parser has failed, a
handler has stopped it, or the session is closed. -/
inductive MessagePhase where
  | between | head | body | over
  deriving DecidableEq, Repr

/-- The order of llhttp's callbacks. Header callbacks in the body are trailers. -/
def MessagePhase.next : MessagePhase → LlCall → Option MessagePhase
  | .between, .messageBegin => some .head
  | .head, .headersComplete _ _ => some .body
  | .head, .url _ | .head, .urlComplete => some .head
  | .head, .headerField _ | .head, .headerFieldComplete => some .head
  | .head, .headerValue _ | .head, .headerValueComplete => some .head
  | .body, .headerField _ | .body, .headerFieldComplete => some .body
  | .body, .headerValue _ | .body, .headerValueComplete => some .body
  | .body, .body _ => some .body
  | .body, .messageComplete => some .between
  | _, _ => none

theorem MessagePhase.next_ne_over {ph ph' : MessagePhase} {c : LlCall}
    (h : ph.next c = some ph') : ph ≠ .over := by
  rintro rfl
  simp [MessagePhase.next] at h

theorem MessagePhase.next_body {ph' : MessagePhase} {c : LlCall}
    (h : MessagePhase.body.next c = some ph') : c = .messageComplete ∨ ph' = .body := by
  cases c <;> simp_all [MessagePhase.next]

theorem MessagePhase.next_headersComplete {ph ph' : MessagePhase} {method : Nat} {keepAlive : Bool}
    (h : ph.next (.headersComplete method keepAlive) = some ph') : ph = .head ∧ ph' = .body := by
  cases ph <;> simp_all [MessagePhase.next]

/-- `active_stream_`; the request it points to is the parser's. -/
structure StreamingRequest where
  handler : HttpStreamHandler
  params : List (Bytes × StringView)
  response : LiveResponse
  rejected : Bool := false
  deriving DecidableEq, Repr

def StreamingRequest.context (a : StreamingRequest) (request : HttpRequest) : RequestContext :=
  ⟨request, a.params, a.response⟩

structure HttpExchange (L : Llhttp) where
  parser : HttpParser L
  phase : MessagePhase := .between
  activeStream : Option StreamingRequest := none
  requestInProgress : Bool := false
  requestStartedAt : Nat := 0
  /-- `DisconnectAfterFlush` was called. -/
  closeAfterFlush : Bool := false
  terminated : Bool := false
  outbox : Outbox := {}
  served : Nat := 0

/-- What happens to the session: a recv chunk arrives, llhttp calls back or
fails, the timer ticks, user code goes on with a deferred response, the session
leaves `kOpen`, `OnDisconnected` is called. -/
inductive ExchangeInput where
  | recv (now : Nat)
  | llhttp (c : LlCall)
  | llhttpError
  | tick (now : Nat)
  | deferred (d : Nat) (use : DeferredUse)
  | disconnect
  | disconnected
  deriving DecidableEq, Repr

def requestTimeoutResponse : HttpResponse :=
  { (({} : HttpResponse).error .kRequestTimeout "Request Timeout") with keepAlive := false }

/-- A chunk of the body goes to `on_body_chunk_`. -/
def HttpParser.streams {L : Llhttp} (p : HttpParser L) (data : Bytes) : Bool :=
  p.bodyBytesSeen + data.length ≤ p.options.maxBodyBytes && p.bodyMode == .stream

namespace HttpExchange

variable {L : Llhttp} (W : World)

def make (L : Llhttp) (options : HttpParserOptions) : HttpExchange L :=
  { parser := .make L options }

/-- `Disconnect()`. -/
def disconnect (s : HttpExchange L) : HttpExchange L := { s with outbox := s.outbox.disconnect }

/-- The context of a new request. -/
def newContext (request : HttpRequest) (params : List (Bytes × StringView)) : RequestContext :=
  ⟨request, params, ({} : LiveResponse).keepAlive request.keepAlive⟩

/-! ## Streaming requests -/

def activeStreamResponseSent (s : HttpExchange L) : Bool :=
  match s.activeStream with
  | some a => a.response.isSent
  | none => false

/-- A callback of the stream has run. -/
def updateStream (s : HttpExchange L) (a : StreamingRequest) (x : Outbox × RequestContext) :
    HttpExchange L :=
  { s with outbox := x.1, activeStream := some { a with response := x.2.response } }

def prepareRequestBody (s : HttpExchange L) (request : HttpRequest) :
    HttpExchange L × HttpRequest × HttpBodyMode :=
  let result := W.router.matchRoute request.method (W.pathData s.served) request.path
  match result.streamHandler with
  | none => (s, request, .buffer)
  | some handler =>
    let ctx := newContext request result.params
    let a : StreamingRequest := ⟨handler, result.params, ctx.response, false⟩
    match handler.onHeaders with
    | none => ({ s with activeStream := some a }, request, .stream)
    | some h =>
      let x := s.outbox.callUser W s.served (.onHeaders h) ctx
      match (s.outbox.script W (.onHeaders h) ctx).ending with
      | .returned true => (s.updateStream a x, x.2.request, .stream)
      | .returned false =>
        let x := Outbox.sendErrorIfUnsent W s.served .kBadRequest "Bad Request" x
        (s.updateStream { a with rejected := true } x, x.2.request, .discard)
      | .threw =>
        let x := Outbox.sendError W s.served .kInternalServerError "Internal Server Error" x
        (s.updateStream { a with rejected := true } x, x.2.request, .discard)

def handleBodyChunk (s : HttpExchange L) (request : HttpRequest) (chunk : Bytes) :
    HttpExchange L × HttpRequest × Bool :=
  match s.activeStream with
  | none => (s, request, true)
  | some a =>
    match a.handler.onBody with
    | none => (s, request, true)
    | some h =>
      let ctx := a.context request
      let x := s.outbox.callUser W s.served (.onBody h chunk) ctx
      match (s.outbox.script W (.onBody h chunk) ctx).ending with
      | .returned true => (s.updateStream a x, x.2.request, true)
      | .returned false =>
        let x := Outbox.sendErrorIfUnsent W s.served .kBadRequest "Bad Request" x
        (s.updateStream a x, x.2.request, false)
      | .threw =>
        let x :=
          Outbox.sendErrorIfUnsent W s.served .kInternalServerError "Internal Server Error" x
        (s.updateStream a x, x.2.request, false)

/-- `on_complete`, unless the request was rejected. -/
def onComplete (a : StreamingRequest) : Option Nat :=
  if a.rejected then none else a.handler.onComplete

/-- The call of `on_complete`. Its exception is answered only while the response
is open. -/
def callOnComplete (o : Outbox) (q : Nat) (a : StreamingRequest) (request : HttpRequest) :
    Outbox × RequestContext :=
  match onComplete a with
  | none => (o, a.context request)
  | some h =>
    let x := o.callUser W q (.onComplete h) (a.context request)
    if (o.script W (.onComplete h) (a.context request)).ending = .threw ∧
        x.2.response.isDeferred = false then
      Outbox.sendErrorIfUnsent W q .kInternalServerError "Internal Server Error" x
    else x

/-- `if (!response.IsSent() && !response.IsDeferred()) response.Send()`. -/
def sendIfOpen (q : Nat) (x : Outbox × RequestContext) : Outbox × RequestContext :=
  if x.2.response.isSent || x.2.response.isDeferred then x
  else
    let r := x.1.send W q x.2.response
    (r.1, { x.2 with response := r.2 })

/-- A message has been completed. -/
def completed (s : HttpExchange L) (o : Outbox) : HttpExchange L :=
  { s with outbox := o, activeStream := none, requestInProgress := false, served := s.served + 1 }

def disconnectAfterFlush (s : HttpExchange L) : HttpExchange L :=
  { s with closeAfterFlush := true }

def completeStreamingRequest (s : HttpExchange L) (a : StreamingRequest) (request : HttpRequest) :
    HttpExchange L × HttpRequest × Bool :=
  let x := sendIfOpen W s.served (callOnComplete W s.outbox s.served a request)
  let s := s.completed x.1
  if x.2.response.isDeferred then (s, x.2.request, false)
  else if x.2.request.keepAlive then (s, x.2.request, true)
  else (s.disconnectAfterFlush, x.2.request, false)

/-- An exception of `on_abort` is dropped. -/
def abortStreamingRequest (s : HttpExchange L) : HttpExchange L :=
  match s.activeStream with
  | none => s
  | some a =>
    match a.handler.onAbort with
    | none => { s with activeStream := none }
    | some h =>
      let x := s.outbox.callUser W s.served (.onAbort h) (a.context s.parser.request)
      { s with outbox := x.1, activeStream := none }

/-! ## Complete requests -/

def handleRequest (s : HttpExchange L) (request : HttpRequest) :
    HttpExchange L × HttpRequest × Bool :=
  match s.activeStream with
  | some a => s.completeStreamingRequest W a request
  | none =>
    let r := s.outbox.dispatch W s.served (newContext request [])
    if r.2 then ({ s.completed r.1.1 with terminated := true }, r.1.2.request, false)
    else
      let x := sendIfOpen W s.served r.1
      let s := s.completed x.1
      if x.2.request.keepAlive then (s, x.2.request, true)
      else (s.disconnectAfterFlush, x.2.request, false)

/-! ## Parse errors and deadlines -/

/-- Give up on the current request, with this reply to it. -/
def refuse (s : HttpExchange L) (r : HttpResponse) : HttpExchange L :=
  let s := s.abortStreamingRequest W
  { s with outbox := (s.outbox.queue W s.served r).disconnect, phase := .over }

/-- `HandleHttpRecv` once the parser has an error. -/
def failParse (s : HttpExchange L) : HttpExchange L :=
  if s.activeStreamResponseSent then
    { (s.abortStreamingRequest W).disconnect with phase := .over }
  else s.refuse W (parseErrorResponse s.parser.status)

/-- The request deadline has passed. -/
def expired (s : HttpExchange L) (now : Nat) : Bool :=
  W.requestTimeout ≠ 0 && s.requestInProgress &&
    W.requestTimeout ≤ (now - s.requestStartedAt) / 1000000

def failRequestDeadlineIfExpired (s : HttpExchange L) (now : Nat) : HttpExchange L :=
  if s.expired W now then s.refuse W requestTimeoutResponse else s

def startOrFailRequestDeadline (s : HttpExchange L) (now : Nat) : HttpExchange L :=
  if W.requestTimeout = 0 then s
  else if s.requestInProgress then s.failRequestDeadlineIfExpired W now
  else { s with requestInProgress := true, requestStartedAt := now }

/-! ## Steps -/

/-- The callbacks that the constructor gives to the parser, as they answer now. -/
def handlers (s : HttpExchange L) : HttpHandlers where
  onHeaders _ request := (s.prepareRequestBody W request).2
  onBodyChunk _ request chunk := (s.handleBodyChunk W request chunk).2
  onRequest _ request := (s.handleRequest W request).2

/-- The request `OnHeadersComplete` passes on. -/
def headRequest (s : HttpExchange L) (method : Nat) (keepAlive : Bool) : HttpRequest :=
  { s.parser.request with method := .fromLlhttp method, keepAlive := keepAlive }

/-- What the handler that a callback of llhttp reaches does to the session. -/
def handle (s : HttpExchange L) : LlCall → HttpExchange L
  | .headersComplete method keepAlive =>
    (s.prepareRequestBody W (s.headRequest method keepAlive)).1
  | .body data =>
    if s.parser.streams data then (s.handleBodyChunk W s.parser.request data).1 else s
  | .messageComplete => (s.handleRequest W s.parser.request).1
  | _ => s

/-- The session after a callback of llhttp. -/
def afterCallback (s : HttpExchange L) (c : LlCall) : HttpExchange L :=
  { s.handle W c with parser := (s.parser.callback (s.handlers W) c).1 }

def onLlhttp (s : HttpExchange L) (c : LlCall) (phase : MessagePhase) : HttpExchange L :=
  let s' := s.afterCallback W c
  if (s.parser.callback (s.handlers W) c).2 = .user then s'.failParse W
  else { s' with phase := if s'.parser.stopRequested then .over else phase }

def step (s : HttpExchange L) (i : ExchangeInput) : Option (HttpExchange L) :=
  if s.terminated then none
  else
    match i with
    | .recv now => if s.outbox.isOpen then some (s.startOrFailRequestDeadline W now) else none
    | .llhttp c => (s.phase.next c).map (s.onLlhttp W c)
    | .llhttpError =>
      if s.phase = .over then none
      else some (failParse W { s with parser := s.parser.badRequest })
    | .tick now => if s.outbox.isOpen then some (s.failRequestDeadlineIfExpired W now) else none
    | .deferred d use => some { s with outbox := s.outbox.useDeferred W d use }
    | .disconnect => some s.disconnect
    | .disconnected =>
      if s.outbox.isOpen then none
      else some { s.abortStreamingRequest W with phase := .over }

variable {W} {s s' : HttpExchange L}

/-- The handler of the stream route that `PrepareRequestBody` finds. -/
def streamRoute (W : World) (s : HttpExchange L) (request : HttpRequest) :
    Option HttpStreamHandler :=
  (W.router.matchRoute request.method (W.pathData s.served) request.path).streamHandler

/-- What a step is. -/
inductive Stepped (W : World) (s : HttpExchange L) : ExchangeInput → HttpExchange L → Prop where
  | clock {i : ExchangeInput} (now : Nat) (inProgress : Bool) (startedAt : Nat) :
      i = .recv now ∨ i = .tick now →
      Stepped W s i { s with requestInProgress := inProgress, requestStartedAt := startedAt }
  | expire {i : ExchangeInput} (now : Nat) : i = .recv now ∨ i = .tick now →
      s.expired W now = true → Stepped W s i (s.refuse W requestTimeoutResponse)
  | callback {c : LlCall} {phase phase' : MessagePhase} : s.phase.next c = some phase →
      phase' = phase ∨ phase' = .over →
      Stepped W s (.llhttp c) { s.afterCallback W c with phase := phase' }
  | fail {c : LlCall} {phase : MessagePhase} : s.phase.next c = some phase →
      (s.parser.callback (s.handlers W) c).2 = .user →
      Stepped W s (.llhttp c) ((s.afterCallback W c).failParse W)
  | error : Stepped W s .llhttpError (failParse W { s with parser := s.parser.badRequest })
  | deferred (d : Nat) (use : DeferredUse) :
      Stepped W s (.deferred d use) { s with outbox := s.outbox.useDeferred W d use }
  | disconnect : Stepped W s .disconnect s.disconnect
  | disconnected : Stepped W s .disconnected { s.abortStreamingRequest W with phase := .over }

theorem expire_cases {i : ExchangeInput} {now : Nat} (hi : i = .recv now ∨ i = .tick now) :
    Stepped W s i (s.failRequestDeadlineIfExpired W now) := by
  unfold failRequestDeadlineIfExpired
  split
  case isTrue he => exact .expire now hi he
  case isFalse => exact .clock now _ _ hi

theorem step_cases {i : ExchangeInput} (hs : step W s i = some s') : Stepped W s i s' := by
  unfold step at hs
  split at hs
  case isTrue => cases hs
  case isFalse =>
    cases i with
    | recv now =>
      obtain ⟨-, hs⟩ := Option.ite_none_right_eq_some.1 hs
      cases hs
      unfold startOrFailRequestDeadline
      split
      · exact .clock now _ _ (.inl rfl)
      · split
        · exact expire_cases (.inl rfl)
        · exact .clock now _ _ (.inl rfl)
    | llhttp c =>
      obtain ⟨phase, hp, rfl⟩ := Option.map_eq_some_iff.1 hs
      unfold onLlhttp
      simp only
      split
      case isTrue hu => exact .fail hp hu
      case isFalse =>
        refine .callback hp ?_
        split
        · exact .inr rfl
        · exact .inl rfl
    | llhttpError =>
      obtain ⟨-, hs⟩ := Option.ite_none_left_eq_some.1 hs
      cases hs
      exact .error
    | tick now =>
      obtain ⟨-, hs⟩ := Option.ite_none_right_eq_some.1 hs
      cases hs
      exact expire_cases (.inr rfl)
    | deferred d use =>
      cases hs
      exact .deferred d use
    | disconnect =>
      cases hs
      exact .disconnect
    | disconnected =>
      obtain ⟨-, hs⟩ := Option.ite_none_left_eq_some.1 hs
      cases hs
      exact .disconnected

/-! ## Streams and phases -/

theorem activeStream_abort (s : HttpExchange L) : (s.abortStreamingRequest W).activeStream = none := by
  unfold abortStreamingRequest
  split
  · assumption
  · split <;> rfl

theorem served_abort (s : HttpExchange L) : (s.abortStreamingRequest W).served = s.served := by
  unfold abortStreamingRequest
  split
  · rfl
  · split <;> rfl

theorem activeStream_failParse (s : HttpExchange L) : (s.failParse W).activeStream = none := by
  unfold failParse
  split <;> exact activeStream_abort s

theorem phase_failParse (s : HttpExchange L) : (s.failParse W).phase = .over := by
  unfold failParse
  split <;> rfl

theorem served_failParse (s : HttpExchange L) : (s.failParse W).served = s.served := by
  unfold failParse
  split <;> exact served_abort s

/-- How a request is completed. -/
inductive Completes (W : World) (s : HttpExchange L) (request : HttpRequest) :
    HttpExchange L → Prop where
  | stream {a : StreamingRequest} (close : Bool) : s.activeStream = some a →
      Completes W s request
        { s.completed (sendIfOpen W s.served (callOnComplete W s.outbox s.served a request)).1 with
          closeAfterFlush := close }
  | dispatched (close : Bool) : s.activeStream = none →
      Completes W s request
        { s.completed
            (sendIfOpen W s.served (s.outbox.dispatch W s.served (newContext request [])).1).1 with
          closeAfterFlush := close }
  | threw : s.activeStream = none →
      Completes W s request
        { s.completed (s.outbox.dispatch W s.served (newContext request [])).1.1 with
          terminated := true }

theorem completes_handleRequest (s : HttpExchange L) (request : HttpRequest) :
    Completes W s request (s.handleRequest W request).1 := by
  unfold handleRequest
  split
  case h_1 a ha =>
    unfold completeStreamingRequest
    simp only
    split
    · exact .stream _ ha
    · split <;> exact .stream _ ha
  case h_2 hnone =>
    simp only
    split
    · exact .threw hnone
    · split <;> exact .dispatched _ hnone

theorem Completes.activeStream {request : HttpRequest} (h : Completes W s request s') :
    s'.activeStream = none := by
  cases h <;> rfl

theorem Completes.served {request : HttpRequest} (h : Completes W s request s') :
    s'.served = s.served + 1 := by
  cases h <;> rfl

theorem activeStream_handleBodyChunk {request : HttpRequest} {chunk : Bytes}
    (h : (s.handleBodyChunk W request chunk).1.activeStream ≠ none) : s.activeStream ≠ none := by
  intro hnone
  simp [handleBodyChunk, hnone] at h

/-- Where an active stream comes from. -/
theorem activeStream_handle {c : LlCall} (h : (s.handle W c).activeStream ≠ none) :
    (∃ method keepAlive, c = .headersComplete method keepAlive) ∨
      s.activeStream ≠ none ∧ c ≠ .messageComplete := by
  cases c with
  | headersComplete method keepAlive => exact .inl ⟨_, _, rfl⟩
  | messageComplete => exact (h (completes_handleRequest _ _).activeStream).elim
  | body data =>
    refine .inr ⟨?_, nofun⟩
    simp only [handle] at h
    split at h
    · exact activeStream_handleBodyChunk h
    · exact h
  | _ => exact .inr ⟨h, nofun⟩

/-- A stream request has its headers behind it. -/
def Streaming (s : HttpExchange L) : Prop :=
  s.activeStream ≠ none → s.phase = .body ∨ s.phase = .over

theorem Streaming.phase (h : s.Streaming) (hp : s.phase ≠ .over) (ha : s.activeStream ≠ none) :
    s.phase = .body :=
  (h ha).resolve_right hp

theorem Streaming.none_of_headersComplete {method : Nat} {keepAlive : Bool} {phase : MessagePhase}
    (h : s.Streaming) (hp : s.phase.next (.headersComplete method keepAlive) = some phase) :
    s.activeStream = none := by
  by_contra ha
  have hbody := h.phase (MessagePhase.next_ne_over hp) ha
  rw [(MessagePhase.next_headersComplete hp).1] at hbody
  cases hbody

theorem Streaming.callback {c : LlCall} {phase phase' : MessagePhase} (h : s.Streaming)
    (hp : s.phase.next c = some phase) (hp' : phase' = phase ∨ phase' = .over) :
    ({ s.afterCallback W c with phase := phase' } : HttpExchange L).Streaming := by
  intro ha
  refine hp'.imp (fun h' => h'.trans ?_) id
  rcases activeStream_handle ha with ⟨method, keepAlive, rfl⟩ | ⟨hs, hc⟩
  · exact (MessagePhase.next_headersComplete hp).2
  · rw [h.phase (MessagePhase.next_ne_over hp) hs] at hp
    exact (MessagePhase.next_body hp).resolve_left hc

theorem Streaming.step {i : ExchangeInput} (h : s.Streaming) (hs : step W s i = some s') :
    s'.Streaming := by
  cases step_cases hs with
  | clock => exact h
  | expire => exact fun ha => (ha (activeStream_abort s)).elim
  | callback hp hp' => exact h.callback hp hp'
  | fail => exact fun ha => (ha (activeStream_failParse _)).elim
  | error => exact fun ha => (ha (activeStream_failParse _)).elim
  | deferred => exact h
  | disconnect => exact h
  | disconnected => exact fun _ => .inr rfl

end HttpExchange

end IouringRuntime
