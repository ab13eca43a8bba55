import IouringRuntime.Web.HttpExchange

/-!
# The callbacks of a stream route

A request of a stream route is told of its headers, its body and its end.
`active_stream_` decides who is told: it is set when the headers are complete and
cleared by completion, by an error of the parser, by the deadline and by
`OnDisconnected`, whichever comes first.

The observer of `observe` takes the callbacks from the session's own history of
calls of user code, with the results of `on_headers` and `on_body`, and notes the
requests whose headers were accepted and the call of `OnDisconnected`, after
which the session is released.
-/

namespace IouringRuntime

inductive StreamEvent where
  | headers (ok : Bool)
  | body (ok : Bool)
  | complete
  | abort
  deriving DecidableEq, Repr

namespace StreamEvent

/-- `on_headers? on_body* (on_complete | on_abort)?`. Behind an `on_headers` that
refuses, and behind an `on_body` that does, there is at most an `on_abort`. -/
def InOrder (events : List StreamEvent) : Prop :=
  ∃ hs bs es, events = hs ++ bs ++ es ∧ (hs = [] ∨ ∃ ok, hs = [.headers ok]) ∧
    (∀ b ∈ bs, ∃ ok, b = .body ok) ∧ (es = [] ∨ es = [.complete] ∨ es = [.abort]) ∧
    (.headers false ∈ hs → bs = [] ∧ .complete ∉ es) ∧
    (∀ b ∈ bs.dropLast, b = .body true) ∧ (.body false ∈ bs → .complete ∉ es)

def isEnd : StreamEvent → Bool
  | .complete | .abort => true
  | .headers _ | .body _ => false

def ends (events : List StreamEvent) : List StreamEvent := events.filter isEnd

/-- The headers were accepted, and so was the body so far. -/
inductive Accepted : List StreamEvent → Prop where
  | start : Accepted []
  | headers : Accepted [.headers true]
  | body {l : List StreamEvent} : Accepted l → Accepted (l ++ [.body true])

/-- The request has not come to its end. -/
inductive Unended : List StreamEvent → Prop where
  | accepted {l : List StreamEvent} : Accepted l → Unended l
  | rejected : Unended [.headers false]
  | failed {l : List StreamEvent} : Accepted l → Unended (l ++ [.body false])

variable {l : List StreamEvent}

theorem Accepted.split (h : Accepted l) :
    ∃ hs bs, l = hs ++ bs ∧ (hs = [] ∨ hs = [.headers true]) ∧ ∀ b ∈ bs, b = .body true := by
  induction h with
  | start => exact ⟨[], [], rfl, .inl rfl, nofun⟩
  | headers => exact ⟨[.headers true], [], rfl, .inr rfl, nofun⟩
  | body _ ih =>
    obtain ⟨hs, bs, rfl, hhs, hbs⟩ := ih
    refine ⟨hs, bs ++ [.body true], by rw [List.append_assoc], hhs, fun b hb => ?_⟩
    rcases List.mem_append.1 hb with hb | hb
    · exact hbs b hb
    · exact List.mem_singleton.1 hb

theorem Accepted.append (h : Accepted l) {es : List StreamEvent}
    (hes : es = [] ∨ es = [.complete] ∨ es = [.abort]) : InOrder (l ++ es) := by
  obtain ⟨hs, bs, rfl, hhs, hbs⟩ := h.split
  refine ⟨hs, bs, es, rfl, hhs.imp_right fun h => ⟨true, h⟩, fun b hb => ⟨true, hbs b hb⟩, hes,
    fun hf => ?_, fun b hb => hbs b ((List.dropLast_sublist bs).mem hb), fun hf => ?_⟩
  · rcases hhs with rfl | rfl
    · cases hf
    · simp at hf
  · cases hbs _ hf

theorem Accepted.ends (h : Accepted l) : ends l = [] := by
  induction h with
  | start => rfl
  | headers => rfl
  | body _ ih =>
    rw [StreamEvent.ends, List.filter_append] at *
    rw [ih]
    rfl

theorem Unended.append (h : Unended l) {es : List StreamEvent} (hes : es = [] ∨ es = [.abort]) :
    InOrder (l ++ es) := by
  have hno : .complete ∉ es := by
    rcases hes with rfl | rfl <;> simp
  cases h with
  | accepted h => exact h.append (hes.imp_right .inr)
  | rejected =>
    exact ⟨[.headers false], [], es, rfl, .inr ⟨false, rfl⟩, nofun, hes.imp_right .inr,
      fun _ => ⟨rfl, hno⟩, nofun, nofun⟩
  | failed h =>
    obtain ⟨hs, bs, rfl, hhs, hbs⟩ := h.split
    refine ⟨hs, bs ++ [.body false], es, by simp, hhs.imp_right fun h => ⟨true, h⟩, fun b hb => ?_,
      hes.imp_right .inr, fun hf => ?_, fun b hb => ?_, fun _ => hno⟩
    · rcases List.mem_append.1 hb with hb | hb
      · exact ⟨true, hbs b hb⟩
      · exact ⟨false, List.mem_singleton.1 hb⟩
    · rcases hhs with rfl | rfl
      · cases hf
      · simp at hf
    · rw [List.dropLast_concat] at hb
      exact hbs b hb

theorem Unended.ends (h : Unended l) : ends l = [] := by
  cases h with
  | accepted h => exact h.ends
  | rejected => rfl
  | failed h =>
    rw [StreamEvent.ends, List.filter_append]
    exact congrArg (· ++ _) h.ends

end StreamEvent

/-- The calls that `Dispatch` makes. -/
def UserCall.isDispatched : UserCall → Bool
  | .middleware _ | .handler _ => true
  | .onHeaders _ | .onBody _ _ | .onComplete _ | .onAbort _ => false

namespace Outbox

variable {W : World} {o : Outbox} {q : Nat} {ctx : RequestContext}

theorem calls_sends {r : LiveResponse} {x : Outbox × LiveResponse} (hs : Sends W o q r x) :
    x.1.calls = o.calls := by
  cases hs <;> rfl

theorem calls_useDeferred (o : Outbox) (d : Nat) (use : DeferredUse) :
    (o.useDeferred W d use).calls = o.calls := by
  have hu : Used W o d (o.useDeferred W d use) := used_useDeferred use
  generalize o.useDeferred W d use = o' at hu
  cases hu <;> rfl

theorem calls_act (o : Outbox) (q : Nat) (ctx : RequestContext) (a : Action) :
    (o.act W q ctx a).1.calls = o.calls := by
  cases a with
  | send => exact calls_sends (sends_send o q rfl)
  | sendFile file contentType => exact calls_sends (sends_sendFile o q _ file contentType)
  | later d use => exact calls_useDeferred o d use
  | _ => rfl

theorem calls_runActions (q : Nat) (actions : List Action) : ∀ (o : Outbox) (ctx : RequestContext),
    (o.runActions W q actions ctx).1.calls = o.calls := by
  induction actions with
  | nil => exact fun _ _ => rfl
  | cons a rest ih => exact fun o ctx => (ih _ _).trans (calls_act o q ctx a)

theorem calls_callUser (o : Outbox) (q : Nat) (call : UserCall) (ctx : RequestContext) :
    (o.callUser W q call ctx).1.calls = o.calls ++ [(q, call)] :=
  calls_runActions q _ _ _

theorem calls_sendError (status : HttpStatus) (message : String) (x : Outbox × RequestContext) :
    (sendError W q status message x).1.calls = x.1.calls :=
  calls_sends (r := x.2.response) (sends_send _ q rfl)

theorem calls_sendErrorIfUnsent (status : HttpStatus) (message : String)
    (x : Outbox × RequestContext) :
    (sendErrorIfUnsent W q status message x).1.calls = x.1.calls := by
  unfold sendErrorIfUnsent
  split
  · rfl
  · exact calls_sendError status message x

/-- Only calls of `Dispatch` were made. -/
def Dispatches (o o' : Outbox) : Prop :=
  ∃ new, o'.calls = o.calls ++ new ∧ ∀ c ∈ new, c.2.isDispatched = true

namespace Dispatches

theorem of_eq {o' : Outbox} (h : o'.calls = o.calls) : Dispatches o o' :=
  ⟨[], by rw [h, List.append_nil], nofun⟩

theorem trans {o₁ o₂ : Outbox} (h₁ : Dispatches o o₁) (h₂ : Dispatches o₁ o₂) :
    Dispatches o o₂ := by
  obtain ⟨new₁, he₁, hn₁⟩ := h₁
  obtain ⟨new₂, he₂, hn₂⟩ := h₂
  refine ⟨new₁ ++ new₂, by rw [he₂, he₁, List.append_assoc], fun c hc => ?_⟩
  rcases List.mem_append.1 hc with hc | hc
  · exact hn₁ c hc
  · exact hn₂ c hc

theorem callUser {call : UserCall} (hc : call.isDispatched = true) :
    Dispatches o (o.callUser W q call ctx).1 := by
  refine ⟨[(q, call)], calls_callUser o q call ctx, fun c hm => ?_⟩
  obtain rfl := List.mem_singleton.1 hm
  exact hc

theorem runMiddlewares (ms : List Nat) : ∀ (o : Outbox) (ctx : RequestContext),
    Dispatches o (Outbox.runMiddlewares W q ms o ctx).1.1 := by
  induction ms with
  | nil => exact fun o _ => of_eq rfl
  | cons m rest ih =>
    intro o ctx
    have hx : Dispatches o (o.callUser W q (.middleware m) ctx).1 := callUser rfl
    simp only [Outbox.runMiddlewares]
    split
    · exact hx
    · split
      · exact hx
      · exact hx.trans (ih _ _)

theorem dispatchRoute : Dispatches o (o.dispatchRoute W q ctx).1 := by
  unfold Outbox.dispatchRoute
  dsimp only
  split
  · next h _ =>
    show Dispatches o (o.callHandler W q h _).1
    unfold Outbox.callHandler
    dsimp only
    split
    · exact (callUser rfl).trans (of_eq (calls_sendErrorIfUnsent _ _ _))
    · exact callUser rfl
  · unfold Outbox.sendUnrouted
    split
    · exact of_eq (calls_sends (r := (suppressHead ctx).response) (sends_send _ q rfl))
    · exact of_eq (calls_sendError _ _ _)

theorem dispatch : Dispatches o (o.dispatch W q ctx).1.1 := by
  have hms := runMiddlewares (W := W) (q := q) W.router.middlewares o ctx
  unfold Outbox.dispatch
  dsimp only
  split
  · exact hms.trans dispatchRoute
  · exact hms
  · exact hms

end Dispatches

end Outbox

namespace HttpExchange

open StreamEvent

variable {L : Llhttp} {W : World} {s s' : HttpExchange L}

/-! ## The observer -/

/-- `on_headers` returns `true`. -/
def headersAccepted (W : World) (s : HttpExchange L) (request : HttpRequest) (h : Nat) : Bool :=
  let params := (W.router.matchRoute request.method (W.pathData s.served) request.path).params
  (s.outbox.script W (.onHeaders h) (newContext request params)).ending == .returned true

/-- `on_body` returns `true`. -/
def bodyAccepted (W : World) (s : HttpExchange L) (h : Nat) (chunk : Bytes) : Bool :=
  match s.activeStream with
  | some a =>
    (s.outbox.script W (.onBody h chunk) (a.context s.parser.request)).ending == .returned true
  | none => false

/-- The request that a step is about. -/
def requestAt (s : HttpExchange L) : ExchangeInput → HttpRequest
  | .llhttp (.headersComplete method keepAlive) => s.headRequest method keepAlive
  | _ => s.parser.request

/-- A call of user code in a step from `s`, as a callback of a stream route. -/
def eventOf (W : World) (s : HttpExchange L) (i : ExchangeInput) : UserCall → Option StreamEvent
  | .middleware _ | .handler _ => none
  | .onHeaders h => some (.headers (s.headersAccepted W (s.requestAt i) h))
  | .onBody h chunk => some (.body (s.bodyAccepted W h chunk))
  | .onComplete _ => some .complete
  | .onAbort _ => some .abort

/-- The callbacks made in a step, each with the number of its request. -/
def heard (W : World) (s : HttpExchange L) (i : ExchangeInput) (s' : HttpExchange L) :
    List (Nat × StreamEvent) :=
  (s'.outbox.calls.drop s.outbox.calls.length).filterMap fun c =>
    (s.eventOf W i c.2).map (c.1, ·)

/-- The request whose headers are accepted in a step, with its handler. -/
def accepts (W : World) (s : HttpExchange L) : ExchangeInput → List (Nat × HttpStreamHandler)
  | .llhttp (.headersComplete method keepAlive) =>
    let request := s.headRequest method keepAlive
    match s.streamRoute W request with
    | none => []
    | some handler =>
      if (s.prepareRequestBody W request).2.2 = .stream then [(s.served, handler)] else []
  | _ => []

structure Observed (L : Llhttp) where
  state : HttpExchange L
  log : List (Nat × StreamEvent) := []
  accepted : List (Nat × HttpStreamHandler) := []
  released : Bool := false

/-- The observer after a step to `s'`. -/
def Observed.next (W : World) (x : Observed L) (i : ExchangeInput) (s' : HttpExchange L) :
    Observed L where
  state := s'
  log := x.log ++ x.state.heard W i s'
  accepted := x.accepted ++ x.state.accepts W i
  released := x.released || i == .disconnected

def observe (W : World) (x : Observed L) (i : ExchangeInput) : Option (Observed L) :=
  (step W x.state i).map (x.next W i)

/-- The callbacks for a request. -/
def Observed.events (x : Observed L) (q : Nat) : List StreamEvent :=
  (x.log.filter (·.1 == q)).map (·.2)

theorem heard_of_calls {i : ExchangeInput} {calls : List UserCall}
    (h : s'.outbox.calls = s.outbox.calls ++ calls.map (s.served, ·)) :
    s.heard W i s' = (calls.filterMap (s.eventOf W i)).map (s.served, ·) := by
  rw [heard, h, List.drop_left, List.filterMap_map, List.map_filterMap]
  rfl

theorem heard_of_dispatches {i : ExchangeInput} (h : Outbox.Dispatches s.outbox s'.outbox) :
    s.heard W i s' = [] := by
  obtain ⟨new, hnew, hdispatched⟩ := h
  rw [heard, hnew, List.drop_left, List.filterMap_eq_nil_iff]
  intro c hc
  have hd := hdispatched c hc
  obtain ⟨q, call⟩ := c
  cases call with
  | middleware m | handler h => rfl
  | _ => cases hd

/-! ## What the functions of the session call -/

/-- `PrepareRequestBody` for a stream route. -/
structure Prepared (W : World) (s : HttpExchange L) (request : HttpRequest)
    (handler : HttpStreamHandler) (a : StreamingRequest)
    (r : HttpExchange L × HttpRequest × HttpBodyMode) : Prop where
  active : r.1.activeStream = some a
  handler_eq : a.handler = handler
  mode : r.2.2 = .stream ↔ a.rejected = false
  served : r.1.served = s.served
  calls : r.1.outbox.calls =
    s.outbox.calls ++ (handler.onHeaders.map UserCall.onHeaders).toList.map (s.served, ·)
  silent : handler.onHeaders = none → a.rejected = false
  result : ∀ h, handler.onHeaders = some h → a.rejected = !s.headersAccepted W request h

theorem prepared {request : HttpRequest} {handler : HttpStreamHandler}
    (h : s.streamRoute W request = some handler) :
    ∃ a, Prepared W s request handler a (s.prepareRequestBody W request) := by
  unfold streamRoute at h
  unfold prepareRequestBody
  simp only [h]
  cases hh : handler.onHeaders with
  | none => exact ⟨_, rfl, rfl, by simp, rfl, by simp [hh], fun _ => rfl, by simp [hh]⟩
  | some k =>
    dsimp only
    have hcall := Outbox.calls_callUser (W := W) s.outbox s.served (.onHeaders k)
      (newContext request
        (W.router.matchRoute request.method (W.pathData s.served) request.path).params)
    -- one call, and the answer decides
    have hmk : ∀ (a : StreamingRequest) (r : HttpExchange L × HttpRequest × HttpBodyMode),
        r.1.activeStream = some a → a.handler = handler → r.1.served = s.served →
        (r.2.2 = .stream ↔ a.rejected = false) →
        r.1.outbox.calls = s.outbox.calls ++ [(s.served, .onHeaders k)] →
        a.rejected = !s.headersAccepted W request k → Prepared W s request handler a r := by
      intro a r h1 h2 h3 h4 h5 h6
      refine ⟨h1, h2, h4, h3, by rw [hh]; exact h5, by simp [hh], fun k' hk => ?_⟩
      cases hh.symm.trans hk
      exact h6
    split
    · next he => exact ⟨_, hmk _ _ rfl rfl rfl (by simp) hcall (by simp [headersAccepted, he])⟩
    · next he =>
      refine ⟨_, hmk _ _ rfl rfl rfl (by simp) ?_ (by simp [headersAccepted, he])⟩
      exact (Outbox.calls_sendErrorIfUnsent _ _ _).trans hcall
    · next he =>
      refine ⟨_, hmk _ _ rfl rfl rfl (by simp) ?_ (by simp [headersAccepted, he])⟩
      exact (Outbox.calls_sendError _ _ _).trans hcall

theorem prepareRequestBody_of_none {request : HttpRequest} (h : s.streamRoute W request = none) :
    s.prepareRequestBody W request = (s, request, .buffer) := by
  unfold streamRoute at h
  unfold prepareRequestBody
  simp only [h]

/-- `HandleBodyChunk` of an active stream. -/
structure Chunked (W : World) (s : HttpExchange L) (chunk : Bytes) (a : StreamingRequest)
    (r : HttpExchange L × HttpRequest × Bool) : Prop where
  active : ∃ a', r.1.activeStream = some a' ∧ a'.handler = a.handler ∧ a'.rejected = a.rejected
  served : r.1.served = s.served
  calls : r.1.outbox.calls =
    s.outbox.calls ++ (a.handler.onBody.map (UserCall.onBody · chunk)).toList.map (s.served, ·)
  silent : a.handler.onBody = none → r.2.2 = true
  result : ∀ h, a.handler.onBody = some h → r.2.2 = s.bodyAccepted W h chunk

theorem chunked {a : StreamingRequest} (ha : s.activeStream = some a) (chunk : Bytes) :
    Chunked W s chunk a (s.handleBodyChunk W s.parser.request chunk) := by
  unfold handleBodyChunk
  simp only [ha]
  cases hh : a.handler.onBody with
  | none => exact ⟨⟨a, ha, rfl, rfl⟩, rfl, by simp [hh], fun _ => rfl, by simp [hh]⟩
  | some k =>
    dsimp only
    have hcall := Outbox.calls_callUser (W := W) s.outbox s.served (.onBody k chunk)
      (a.context s.parser.request)
    have hmk : ∀ (a' : StreamingRequest) (r : HttpExchange L × HttpRequest × Bool),
        r.1.activeStream = some a' → a'.handler = a.handler → a'.rejected = a.rejected →
        r.1.served = s.served →
        r.1.outbox.calls = s.outbox.calls ++ [(s.served, .onBody k chunk)] →
        r.2.2 = s.bodyAccepted W k chunk → Chunked W s chunk a r := by
      intro a' r h1 h2 h3 h4 h5 h6
      refine ⟨⟨a', h1, h2, h3⟩, h4, by rw [hh]; exact h5, by simp [hh], fun k' hk => ?_⟩
      cases hh.symm.trans hk
      exact h6
    split
    · next he => exact hmk _ _ rfl rfl rfl rfl hcall (by simp [bodyAccepted, ha, he])
    · next he =>
      refine hmk _ _ rfl rfl rfl rfl ?_ (by simp [bodyAccepted, ha, he])
      exact (Outbox.calls_sendErrorIfUnsent _ _ _).trans hcall
    · next he =>
      refine hmk _ _ rfl rfl rfl rfl ?_ (by simp [bodyAccepted, ha, he])
      exact (Outbox.calls_sendErrorIfUnsent _ _ _).trans hcall

/-- The call of `AbortStreamingRequest`. -/
def abortCalls (s : HttpExchange L) : List UserCall :=
  match s.activeStream with
  | some a => (a.handler.onAbort.map UserCall.onAbort).toList
  | none => []

theorem calls_abort (s : HttpExchange L) : (s.abortStreamingRequest W).outbox.calls =
    s.outbox.calls ++ s.abortCalls.map (s.served, ·) := by
  unfold abortStreamingRequest abortCalls
  cases s.activeStream with
  | none => simp
  | some a =>
    dsimp only
    cases a.handler.onAbort with
    | none => simp
    | some h => exact Outbox.calls_callUser _ _ _ _

theorem calls_failParse (s : HttpExchange L) : (s.failParse W).outbox.calls =
    s.outbox.calls ++ s.abortCalls.map (s.served, ·) := by
  unfold failParse
  split
  · exact calls_abort s
  · exact calls_abort s

theorem calls_sendIfOpen (q : Nat) (x : Outbox × RequestContext) :
    (sendIfOpen W q x).1.calls = x.1.calls := by
  unfold sendIfOpen
  split
  · rfl
  · exact Outbox.calls_sends (r := x.2.response) (Outbox.sends_send _ _ rfl)

theorem calls_completed {a : StreamingRequest} (s : HttpExchange L) (request : HttpRequest) :
    (sendIfOpen W s.served (callOnComplete W s.outbox s.served a request)).1.calls =
      s.outbox.calls ++ ((onComplete a).map UserCall.onComplete).toList.map (s.served, ·) := by
  rw [calls_sendIfOpen]
  unfold callOnComplete
  cases onComplete a with
  | none => simp
  | some h =>
    dsimp only
    split
    · exact (Outbox.calls_sendErrorIfUnsent _ _ _).trans (Outbox.calls_callUser _ _ _ _)
    · exact Outbox.calls_callUser _ _ _ _

/-! ## One request -/

/-- The callbacks so far for the request that is being served. -/
structure Current (s : HttpExchange L) (events : List StreamEvent) : Prop where
  stream : ∀ a, s.activeStream = some a →
    if a.rejected then events = [.headers false] else Accepted events
  mode : ∀ a, s.activeStream = some a → s.parser.bodyMode = .stream → a.rejected = false
  idle : s.activeStream = none → s.phase ≠ .over → events = []
  order : InOrder events

theorem inOrder_nil : InOrder [] := Accepted.start.append (.inl rfl)

theorem Current.unended {events : List StreamEvent} (h : Current s events) {a : StreamingRequest}
    (ha : s.activeStream = some a) : Unended events := by
  have hs := h.stream a ha
  split at hs
  · rw [hs]
    exact .rejected
  · exact .accepted hs

/-- A request whose headers `handler` accepted is still served, or was aborted. -/
def Pending (s : HttpExchange L) (handler : HttpStreamHandler) (events : List StreamEvent) : Prop :=
  (∃ a, s.activeStream = some a ∧ a.handler = handler ∧ a.rejected = false) ∨
    s.activeStream = none ∧ s.phase = .over ∧
      ends events = (handler.onAbort.map fun _ => StreamEvent.abort).toList

/-- What is heard of a callback of llhttp that completes no message; it makes
`calls`. -/
structure Hears (W : World) (s : HttpExchange L) (c : LlCall) (events : List StreamEvent)
    (calls : List UserCall) : Prop where
  served : (s.afterCallback W c).served = s.served
  calls_eq : (s.afterCallback W c).outbox.calls = s.outbox.calls ++ calls.map (s.served, ·)
  unended : ∀ a, (s.afterCallback W c).activeStream = some a →
    Unended (events ++ calls.filterMap (s.eventOf W (.llhttp c)))
  idle : (s.afterCallback W c).activeStream = none →
    events ++ calls.filterMap (s.eventOf W (.llhttp c)) = []
  passed : (s.parser.callback (s.handlers W) c).2 ≠ .user →
    ∀ a, (s.afterCallback W c).activeStream = some a →
      if a.rejected then events ++ calls.filterMap (s.eventOf W (.llhttp c)) = [.headers false]
      else Accepted (events ++ calls.filterMap (s.eventOf W (.llhttp c)))
  mode : ∀ a, (s.afterCallback W c).activeStream = some a →
    (s.afterCallback W c).parser.bodyMode = .stream → a.rejected = false
  accepted : ∀ handler, Pending s handler events ∨ (s.served, handler) ∈ s.accepts W (.llhttp c) →
    ∃ a, (s.afterCallback W c).activeStream = some a ∧ a.handler = handler ∧ a.rejected = false

variable {events : List StreamEvent} {c : LlCall} {phase : MessagePhase}

theorem Pending.active {handler : HttpStreamHandler} (h : Pending s handler events)
    (hp : s.phase ≠ .over) :
    ∃ a, s.activeStream = some a ∧ a.handler = handler ∧ a.rejected = false :=
  h.resolve_right fun h => hp h.2.1

/-- A callback that calls no user code and leaves the stream. -/
theorem hears_nothing (h : Current s events) (hp : s.phase ≠ .over)
    (hh : s.handle W c = s) (hm : s.activeStream ≠ none →
      (s.parser.callback (s.handlers W) c).1.bodyMode = s.parser.bodyMode)
    (hc : s.accepts W (.llhttp c) = []) : Hears W s c events [] := by
  have ht : s.afterCallback W c =
      { s with parser := (s.parser.callback (s.handlers W) c).1 } := by
    rw [afterCallback, hh]
  constructor
  · rw [ht]
  · rw [ht]
    exact (List.append_nil _).symm
  · rw [ht]
    intro a ha
    rw [List.filterMap_nil, List.append_nil]
    exact h.unended ha
  · rw [ht]
    intro ha
    exact (List.append_nil _).trans (h.idle ha hp)
  · rw [ht]
    intro _ a ha
    rw [List.filterMap_nil, List.append_nil]
    exact h.stream a ha
  · rw [ht]
    intro a ha hmode
    have hne : s.activeStream ≠ none := by
      rw [show s.activeStream = some a from ha]
      exact nofun
    exact h.mode a ha ((hm hne).symm.trans hmode)
  · rw [ht, hc]
    rintro handler (hpend | hmem)
    · exact hpend.active hp
    · cases hmem

/-- What is heard of the headers, and that it fits the answer. -/
theorem Prepared.heard {method : Nat} {keepAlive : Bool} {handler : HttpStreamHandler}
    {a : StreamingRequest} {r : HttpExchange L × HttpRequest × HttpBodyMode}
    (h : Prepared W s (s.headRequest method keepAlive) handler a r) :
    if a.rejected then
      (handler.onHeaders.map UserCall.onHeaders).toList.filterMap
        (s.eventOf W (.llhttp (.headersComplete method keepAlive))) = [.headers false]
    else Accepted ((handler.onHeaders.map UserCall.onHeaders).toList.filterMap
      (s.eventOf W (.llhttp (.headersComplete method keepAlive)))) := by
  cases hh : handler.onHeaders with
  | none =>
    rw [h.silent hh]
    exact .start
  | some k =>
    have hevent : s.eventOf W (.llhttp (.headersComplete method keepAlive)) (.onHeaders k) =
        some (.headers (!a.rejected)) := by
      simp only [eventOf, requestAt, h.result k hh, Bool.not_not]
    simp only [Option.map_some, Option.toList_some, List.filterMap_cons, hevent, List.filterMap_nil]
    cases a.rejected with
    | true => rfl
    | false => exact .headers

/-- The request goes to a stream route. -/
theorem hears_prepared {method : Nat} {keepAlive : Bool} {handler : HttpStreamHandler}
    {a : StreamingRequest} (hover : s.phase ≠ .over) (hnone : s.activeStream = none)
    (hr : s.streamRoute W (s.headRequest method keepAlive) = some handler)
    (hprep : Prepared W s (s.headRequest method keepAlive) handler a
      (s.prepareRequestBody W (s.headRequest method keepAlive))) :
    Hears W s (.headersComplete method keepAlive) []
      (handler.onHeaders.map UserCall.onHeaders).toList := by
  have hmode : (s.parser.callback (s.handlers W) (.headersComplete method keepAlive)).1.bodyMode =
      (s.prepareRequestBody W (s.headRequest method keepAlive)).2.2 := by
    simp only [HttpParser.callback, HttpParser.onHeadersComplete]
    split <;> rfl
  have hstream := hprep.heard
  have hactive : ∀ a', (s.afterCallback W (.headersComplete method keepAlive)).activeStream =
      some a' → a' = a := fun a' ha' => Option.some.inj (ha'.symm.trans hprep.active)
  refine ⟨hprep.served, hprep.calls, ?_, ?_, ?_, ?_, ?_⟩
  · intro a' ha'
    rw [List.nil_append]
    split at hstream
    · rw [hstream]
      exact .rejected
    · exact .accepted hstream
  · intro hnone'
    cases hnone'.symm.trans hprep.active
  · intro _ a' ha'
    obtain rfl := hactive a' ha'
    rw [List.nil_append]
    exact hstream
  · intro a' ha' hm
    obtain rfl := hactive a' ha'
    exact hprep.mode.1 (hmode.symm.trans hm)
  · rintro hd (hpend | hmem)
    · obtain ⟨b, hb, -⟩ := hpend.active hover
      rw [hnone] at hb
      cases hb
    · simp only [accepts, hr] at hmem
      split at hmem
      · next hm =>
        cases List.mem_singleton.1 hmem
        exact ⟨a, hprep.active, hprep.handler_eq, hprep.mode.1 hm⟩
      · cases hmem

theorem hears_headersComplete {method : Nat} {keepAlive : Bool} (h : Current s events)
    (hs : s.Streaming) (hp : s.phase.next (.headersComplete method keepAlive) = some phase) :
    ∃ calls, Hears W s (.headersComplete method keepAlive) events calls := by
  have hnone := hs.none_of_headersComplete hp
  have hover := MessagePhase.next_ne_over hp
  obtain rfl := h.idle hnone hover
  cases hr : s.streamRoute W (s.headRequest method keepAlive) with
  | none =>
    have hprep := prepareRequestBody_of_none hr
    refine ⟨[], hears_nothing h hover ?_ (fun hne => absurd hnone hne) ?_⟩
    · simp only [handle, hprep]
    · simp only [accepts, hr]
  | some handler =>
    obtain ⟨a, hprep⟩ := prepared hr
    exact ⟨_, hears_prepared hover hnone hr hprep⟩

theorem bodyMode_onBody (H : HttpHandlers) (p : HttpParser L) (data : Bytes) :
    (p.onBody H data).1.bodyMode = p.bodyMode := by
  unfold HttpParser.onBody
  split
  · rfl
  · dsimp only
    split
    · rfl
    · rfl
    · split <;> rfl

/-- A chunk that the stream's handler refuses fails the parser. -/
theorem callback_body_ne_user {data : Bytes} (hst : s.parser.streams data = true)
    (h : (s.parser.callback (s.handlers W) (.body data)).2 ≠ .user) :
    (s.handleBodyChunk W s.parser.request data).2.2 = true := by
  obtain ⟨hle, hmode⟩ : s.parser.bodyBytesSeen + data.length ≤ s.parser.options.maxBodyBytes ∧
      s.parser.bodyMode = .stream := by
    simpa [HttpParser.streams] using hst
  by_contra hno
  refine h ?_
  simp only [HttpParser.callback, HttpParser.onBody]
  rw [if_neg (Nat.not_lt.2 hle)]
  simp only [hmode]
  rw [if_neg]
  exact hno

/-- What is heard of a chunk, and that it fits the answer. -/
theorem Chunked.heard {data : Bytes} {a : StreamingRequest}
    {r : HttpExchange L × HttpRequest × Bool} (h : Chunked W s data a r) (hacc : Accepted events) :
    Unended (events ++ (a.handler.onBody.map (UserCall.onBody · data)).toList.filterMap
        (s.eventOf W (.llhttp (.body data)))) ∧
      (r.2.2 = true →
        Accepted (events ++ (a.handler.onBody.map (UserCall.onBody · data)).toList.filterMap
          (s.eventOf W (.llhttp (.body data))))) := by
  cases hh : a.handler.onBody with
  | none =>
    have hnil : events ++ ((none : Option Nat).map (UserCall.onBody · data)).toList.filterMap
        (s.eventOf W (.llhttp (.body data))) = events := List.append_nil _
    rw [hnil]
    exact ⟨.accepted hacc, fun _ => hacc⟩
  | some k =>
    rw [h.result k hh]
    show Unended (events ++ [.body (s.bodyAccepted W k data)]) ∧
      (_ → Accepted (events ++ [.body (s.bodyAccepted W k data)]))
    cases s.bodyAccepted W k data with
    | false => exact ⟨.failed hacc, fun h => absurd h Bool.false_ne_true⟩
    | true => exact ⟨.accepted hacc.body, fun _ => hacc.body⟩

/-- The chunk goes to the stream's handler. -/
theorem hears_chunk {data : Bytes} {a : StreamingRequest} (h : Current s events)
    (hp : s.phase ≠ .over) (hst : s.parser.streams data = true) (ha : s.activeStream = some a) :
    Hears W s (.body data) events (a.handler.onBody.map (UserCall.onBody · data)).toList := by
  have hch : Chunked W s data a (s.handleBodyChunk W s.parser.request data) := chunked ha data
  obtain ⟨a', ha', hhandler, hrejected⟩ := hch.active
  have hhandle : s.handle W (.body data) = (s.handleBodyChunk W s.parser.request data).1 := by
    simp only [handle, hst, if_true]
  have hstream : s.parser.bodyMode = .stream := by
    simp only [HttpParser.streams, Bool.and_eq_true, beq_iff_eq] at hst
    exact hst.2
  have hnot := h.mode a ha hstream
  have hacc : Accepted events := by
    have hs := h.stream a ha
    rwa [hnot, if_neg (by decide)] at hs
  have hevents := hch.heard hacc
  have hactive : (s.afterCallback W (.body data)).activeStream = some a' :=
    (congrArg HttpExchange.activeStream hhandle).trans ha'
  refine ⟨(congrArg HttpExchange.served hhandle).trans hch.served,
    (congrArg (fun t : HttpExchange L => t.outbox.calls) hhandle).trans hch.calls,
    fun _ _ => hevents.1, fun hnone => ?_, fun hu a'' ha'' => ?_, fun a'' ha'' _ => ?_, ?_⟩
  · cases hnone.symm.trans hactive
  · obtain rfl := Option.some.inj (ha''.symm.trans hactive)
    rw [hrejected, hnot, if_neg (by decide)]
    exact hevents.2 (callback_body_ne_user hst hu)
  · obtain rfl := Option.some.inj (ha''.symm.trans hactive)
    exact hrejected.trans hnot
  · rintro hd (hpend | hmem)
    · obtain ⟨b, hb, hbh, -⟩ := hpend.active hp
      obtain rfl := Option.some.inj (hb.symm.trans ha)
      exact ⟨a', hactive, hhandler.trans hbh, hrejected.trans hnot⟩
    · cases hmem

theorem hears_body {data : Bytes} (h : Current s events) (hp : s.phase ≠ .over) :
    ∃ calls, Hears W s (.body data) events calls := by
  by_cases hquiet : s.parser.streams data = true ∧ s.activeStream ≠ none
  · obtain ⟨hst, hne⟩ := hquiet
    obtain ⟨a, ha⟩ := Option.ne_none_iff_exists'.1 hne
    exact ⟨_, hears_chunk h hp hst ha⟩
  · refine ⟨[], hears_nothing h hp ?_ (fun _ => bodyMode_onBody (s.handlers W) s.parser data) rfl⟩
    simp only [handle]
    split
    · next hst =>
      have hnone : s.activeStream = none := by
        by_contra hne
        exact hquiet ⟨hst, hne⟩
      simp only [handleBodyChunk, hnone]
    · rfl

theorem hears (h : Current s events) (hs : s.Streaming) (hp : s.phase.next c = some phase)
    (hc : c ≠ .messageComplete) : ∃ calls, Hears W s c events calls := by
  have hover := MessagePhase.next_ne_over hp
  cases c with
  | messageComplete => exact absurd rfl hc
  | headersComplete method keepAlive => exact hears_headersComplete h hs hp
  | body data => exact hears_body h hover
  | messageBegin =>
    refine ⟨[], hears_nothing h hover rfl (fun hne => ?_) rfl⟩
    rw [hs.phase hover hne] at hp
    cases hp
  | url data =>
    refine ⟨[], hears_nothing h hover rfl (fun _ => ?_) rfl⟩
    simp only [HttpParser.callback, HttpParser.onUrl]
    split <;> rfl
  | headerField data | headerValue data =>
    refine ⟨[], hears_nothing h hover rfl (fun _ => ?_) rfl⟩
    simp only [HttpParser.callback, HttpParser.onHeaderField, HttpParser.onHeaderValue,
      HttpParser.onHeaderBytes]
    split <;> rfl
  | urlComplete | headerFieldComplete | headerValueComplete =>
    exact ⟨[], hears_nothing h hover rfl (fun _ => rfl) rfl⟩

/-! ## Ends -/

/-- What is heard of an abort. -/
def abortEvents (s : HttpExchange L) : List StreamEvent :=
  match s.activeStream with
  | some a => (a.handler.onAbort.map fun _ => StreamEvent.abort).toList
  | none => []

theorem events_abortCalls (s t : HttpExchange L) (i : ExchangeInput) :
    t.abortCalls.filterMap (s.eventOf W i) = t.abortEvents := by
  unfold abortCalls abortEvents
  cases t.activeStream with
  | none => rfl
  | some a =>
    dsimp only
    cases a.handler.onAbort <;> rfl

/-- After an abort the callbacks are in order. -/
theorem inOrder_abort (hlive : ∀ a, s.activeStream = some a → Unended events)
    (hidle : s.activeStream = none → InOrder events) : InOrder (events ++ s.abortEvents) := by
  unfold abortEvents
  cases ha : s.activeStream with
  | none =>
    rw [List.append_nil]
    exact hidle ha
  | some a =>
    refine (hlive a ha).append ?_
    dsimp only
    cases a.handler.onAbort with
    | none => exact .inl rfl
    | some h => exact .inr rfl

/-- The end of an accepted request that is aborted. -/
theorem ends_abort {handler : HttpStreamHandler} {a : StreamingRequest}
    (ha : s.activeStream = some a) (hh : a.handler = handler) (hu : Unended events) :
    ends (events ++ s.abortEvents) = (handler.onAbort.map fun _ => StreamEvent.abort).toList := by
  subst hh
  unfold abortEvents
  rw [ha, ends, List.filter_append, ← ends, hu.ends, List.nil_append]
  dsimp only
  cases a.handler.onAbort <;> rfl

/-- The end of an accepted request: `on_complete` if its message has been
completed, `on_abort` otherwise, each if it is defined. -/
def endOf (handler : HttpStreamHandler) (completed : Bool) : List StreamEvent :=
  if completed then (handler.onComplete.map fun _ => StreamEvent.complete).toList
  else (handler.onAbort.map fun _ => StreamEvent.abort).toList

/-- What is heard of a completion. -/
theorem heard_completes (h : Completes W s s.parser.request s') (hcur : Current s events)
    (hp : s.phase ≠ .over) :
    ∃ new, s.heard W (.llhttp .messageComplete) s' = new.map (s.served, ·) ∧
      InOrder (events ++ new) ∧
      ∀ handler, Pending s handler events → ends (events ++ new) = endOf handler true := by
  have hdispatch : s.activeStream = none → Outbox.Dispatches s.outbox s'.outbox →
      ∃ new, s.heard W (.llhttp .messageComplete) s' = new.map (s.served, ·) ∧
        InOrder (events ++ new) ∧
        ∀ handler, Pending s handler events → ends (events ++ new) = endOf handler true := by
    intro hnone hd
    refine ⟨[], heard_of_dispatches hd, ?_, fun handler hpend => ?_⟩
    · rw [List.append_nil]
      exact hcur.order
    · obtain ⟨a, ha, -⟩ := hpend.active hp
      cases hnone.symm.trans ha
  cases h with
  | dispatched close hnone =>
    have hd : Outbox.Dispatches s.outbox
        (s.outbox.dispatch W s.served (newContext s.parser.request [])).1.1 := .dispatch
    exact hdispatch hnone (hd.trans (.of_eq (calls_sendIfOpen s.served _)))
  | threw hnone => exact hdispatch hnone Outbox.Dispatches.dispatch
  | @stream a close ha =>
    refine ⟨_, heard_of_calls (calls_completed s s.parser.request), ?_, ?_⟩
    · have hs := hcur.stream a ha
      cases hr : a.rejected with
      | true =>
        have hnil : onComplete a = none := if_pos hr
        rw [hnil]
        exact (hcur.unended ha).append (.inl rfl)
      | false =>
        rw [hr, if_neg (by decide)] at hs
        refine hs.append ?_
        cases onComplete a with
        | none => exact .inl rfl
        | some k => exact .inr (.inl rfl)
    · intro handler hpend
      obtain ⟨b, hb, rfl, hr⟩ := hpend.active hp
      obtain rfl := Option.some.inj (hb.symm.trans ha)
      have hon : onComplete b = b.handler.onComplete := by
        rw [onComplete, hr, if_neg (by decide)]
      rw [hon, ends, List.filter_append, ← ends, (hcur.unended ha).ends, List.nil_append]
      cases hc : b.handler.onComplete <;> simp [endOf, hc, eventOf, isEnd]

/-! ## Runs -/

/-- The invariant of the observer. -/
structure Logged (x : Observed L) : Prop where
  streaming : x.state.Streaming
  future : ∀ q, x.state.served < q → x.events q = []
  past : ∀ q, q < x.state.served → InOrder (x.events q)
  current : Current x.state (x.events x.state.served)
  accepted : ∀ e ∈ x.accepted, e.1 < x.state.served ∧ ends (x.events e.1) = endOf e.2 true ∨
    e.1 = x.state.served ∧ Pending x.state e.2 (x.events x.state.served)
  released : x.released = true → x.state.activeStream = none ∧ x.state.phase = .over

/-- The callbacks for a request after a step that is about request `r`. -/
theorem events_append {x x' : Observed L} {r : Nat} {new : List StreamEvent}
    (hlog : x'.log = x.log ++ new.map (r, ·)) (q : Nat) :
    x'.events q = x.events q ++ if q = r then new else [] := by
  unfold Observed.events
  rw [hlog, List.filter_append, List.map_append]
  congr 1
  split
  · next hq =>
    subst hq
    rw [List.filter_eq_self.2 (by simp), List.map_map]
    exact List.map_id _
  · next hq =>
    rw [List.filter_eq_nil_iff.2 (by simpa using fun _ _ => Ne.symm hq)]
    rfl

variable {x : Observed L} {i : ExchangeInput} {new : List StreamEvent}

/-- A step that goes on with the request. -/
theorem Logged.extend (h : Logged x) (hserved : s'.served = x.state.served)
    (hheard : x.state.heard W i s' = new.map (x.state.served, ·)) (hstreaming : s'.Streaming)
    (hcurrent : Current s' (x.events x.state.served ++ new))
    (hpending : ∀ handler, Pending x.state handler (x.events x.state.served) ∨
        (x.state.served, handler) ∈ x.state.accepts W i →
      Pending s' handler (x.events x.state.served ++ new))
    (hreleased : (x.released || i == .disconnected) = true →
      s'.activeStream = none ∧ s'.phase = .over) : Logged (x.next W i s') := by
  have hlog : (x.next W i s').log = x.log ++ new.map (x.state.served, ·) :=
    congrArg (x.log ++ ·) hheard
  have hev := events_append hlog
  have hcur : (x.next W i s').events s'.served = x.events x.state.served ++ new := by
    rw [hserved, hev, if_pos rfl]
  have hother : ∀ q, q ≠ x.state.served → (x.next W i s').events q = x.events q := by
    intro q hq
    rw [hev, if_neg hq, List.append_nil]
  have haccepts : ∀ e ∈ x.state.accepts W i, e.1 = x.state.served := by
    intro e he
    unfold accepts at he
    split at he
    · dsimp only at he
      split at he
      · cases he
      · split at he
        · rw [List.mem_singleton.1 he]
        · cases he
    · cases he
  refine ⟨hstreaming, fun q hq => ?_, fun q hq => ?_, ?_, fun e he => ?_, hreleased⟩
  · have hq' : x.state.served < q := hserved ▸ hq
    rw [hother q (by omega)]
    exact h.future q hq'
  · have hq' : q < x.state.served := hserved ▸ hq
    rw [hother q (by omega)]
    exact h.past q hq'
  · rw [show (x.next W i s').state.served = s'.served from rfl, hcur]
    exact hcurrent
  · show e.1 < s'.served ∧ _ ∨ e.1 = s'.served ∧ Pending s' e.2 ((x.next W i s').events s'.served)
    rw [hcur, hserved]
    rcases List.mem_append.1 he with he | he
    · rcases h.accepted e he with ⟨hlt, hend⟩ | ⟨heq, hpend⟩
      · rw [hother e.1 (by omega)]
        exact .inl ⟨hlt, hend⟩
      · exact .inr ⟨heq, hpending e.2 (.inl hpend)⟩
    · have heq := haccepts e he
      refine .inr ⟨heq, hpending e.2 (.inr ?_)⟩
      rw [← heq]
      exact he

/-- The request is given up: the stream, if there is one, is aborted. -/
theorem Logged.give_up (h : Logged x) {t : HttpExchange L} {calls : List UserCall}
    (hserved : s'.served = x.state.served)
    (hcalls : s'.outbox.calls =
      x.state.outbox.calls ++ (calls ++ t.abortCalls).map (x.state.served, ·))
    (hlive : ∀ a, t.activeStream = some a →
      Unended (x.events x.state.served ++ calls.filterMap (x.state.eventOf W i)))
    (hidle : t.activeStream = none →
      InOrder (x.events x.state.served ++ calls.filterMap (x.state.eventOf W i)))
    (hpending : ∀ handler, Pending x.state handler (x.events x.state.served) ∨
        (x.state.served, handler) ∈ x.state.accepts W i →
      Pending t handler (x.events x.state.served ++ calls.filterMap (x.state.eventOf W i)))
    (hnone : s'.activeStream = none) (hover : s'.phase = .over) : Logged (x.next W i s') := by
  have hheard := heard_of_calls (W := W) (i := i) hcalls
  rw [List.filterMap_append, events_abortCalls] at hheard
  have horder := inOrder_abort hlive hidle
  refine h.extend hserved hheard (fun hne => absurd hnone hne) ?_ (fun handler hp => ?_)
    fun _ => ⟨hnone, hover⟩
  · rw [← List.append_assoc]
    refine ⟨fun a ha => ?_, fun a ha => ?_, fun _ hne => absurd hover hne, horder⟩
    · cases hnone.symm.trans ha
    · cases hnone.symm.trans ha
  · rw [← List.append_assoc]
    refine .inr ⟨hnone, hover, ?_⟩
    rcases hpending handler hp with ⟨a, ha, hh, -⟩ | ⟨hn, -, hends⟩
    · exact ends_abort ha hh (hlive a ha)
    · have hnil : t.abortEvents = [] := by
        unfold abortEvents
        rw [hn]
      rw [hnil, List.append_nil]
      exact hends

/-- A step that leaves the request alone. -/
theorem Logged.quiet (h : Logged x) (hserved : s'.served = x.state.served)
    (hcalls : s'.outbox.calls = x.state.outbox.calls)
    (hactive : s'.activeStream = x.state.activeStream) (hphase : s'.phase = x.state.phase)
    (hparser : s'.parser = x.state.parser) (hacc : x.state.accepts W i = [])
    (hi : i ≠ .disconnected) : Logged (x.next W i s') := by
  have hheard : x.state.heard W i s' = ([] : List StreamEvent).map (x.state.served, ·) := by
    rw [heard, hcalls, List.drop_length]
    rfl
  refine h.extend hserved hheard ?_ ?_ (fun handler hp => ?_) fun hrel => ?_
  · unfold Streaming
    rw [hactive, hphase]
    exact h.streaming
  · rw [List.append_nil]
    obtain ⟨h1, h2, h3, h4⟩ := h.current
    refine ⟨?_, ?_, ?_, h4⟩
    · rwa [hactive]
    · rwa [hactive, hparser]
    · rwa [hactive, hphase]
  · rw [hacc] at hp
    rw [List.append_nil]
    unfold Pending
    rw [hactive, hphase]
    exact hp.resolve_right (List.not_mem_nil)
  · have hno : (i == .disconnected) = false := beq_eq_false_iff_ne.2 hi
    rw [hno, Bool.or_false] at hrel
    rw [hactive, hphase]
    exact h.released hrel

/-- What a callback of llhttp does, by what it returns. -/
theorem step_llhttp (hs : step W s (.llhttp c) = some s') :
    ∃ phase, s.phase.next c = some phase ∧
      ((s.parser.callback (s.handlers W) c).2 = .user ∧ s' = (s.afterCallback W c).failParse W ∨
        (s.parser.callback (s.handlers W) c).2 ≠ .user ∧ ∃ phase', (phase' = phase ∨ phase' = .over) ∧
          s' = { s.afterCallback W c with phase := phase' }) := by
  unfold step at hs
  split at hs
  · cases hs
  · obtain ⟨phase, hp, rfl⟩ := Option.map_eq_some_iff.1 hs
    refine ⟨phase, hp, ?_⟩
    unfold onLlhttp
    dsimp only
    split
    · next hu => exact .inl ⟨hu, rfl⟩
    · next hu =>
      refine .inr ⟨hu, _, ?_, rfl⟩
      split
      · exact .inr rfl
      · exact .inl rfl

theorem logged_callback (h : Logged x) (hs : step W x.state (.llhttp c) = some s')
    (hc : c ≠ .messageComplete) : Logged (x.next W (.llhttp c) s') := by
  obtain ⟨phase, hp, ⟨hu, rfl⟩ | ⟨hu, phase', hp', rfl⟩⟩ := step_llhttp hs
  · obtain ⟨calls, hk⟩ := hears (W := W) h.current h.streaming hp hc
    refine h.give_up (t := x.state.afterCallback W c) ?_ ?_ hk.unended ?_ ?_
      (activeStream_failParse _) (phase_failParse _)
    · exact (served_failParse _).trans hk.served
    · rw [calls_failParse, hk.calls_eq, hk.served, List.map_append, List.append_assoc]
    · intro hnone
      rw [hk.idle hnone]
      exact inOrder_nil
    · exact fun handler hpend => .inl (hk.accepted handler hpend)
  · obtain ⟨calls, hk⟩ := hears (W := W) h.current h.streaming hp hc
    refine h.extend hk.served (heard_of_calls hk.calls_eq) (h.streaming.callback hp hp') ?_
      (fun handler hpend => .inl (hk.accepted handler hpend)) fun hrel => ?_
    · refine ⟨hk.passed hu, hk.mode, fun hnone _ => hk.idle hnone, ?_⟩
      cases ha : (x.state.afterCallback W c).activeStream with
      | none =>
        rw [hk.idle ha]
        exact inOrder_nil
      | some a =>
        have happ := (hk.unended a ha).append (.inl rfl)
        rwa [List.append_nil] at happ
    · have hno : (ExchangeInput.llhttp c == .disconnected) = false := rfl
      rw [hno, Bool.or_false] at hrel
      exact absurd (h.released hrel).2 (MessagePhase.next_ne_over hp)

/-- The request that is served comes to its end, and the next one begins. -/
theorem Logged.finish {i : ExchangeInput} {new : List StreamEvent} (h : Logged x)
    (hover : x.state.phase ≠ .over) (hserved : s'.served = x.state.served + 1)
    (hactive : s'.activeStream = none)
    (hlog : (x.next W i s').log = x.log ++ new.map (x.state.served, ·))
    (horder : InOrder (x.events x.state.served ++ new))
    (hends : ∀ handler, Pending x.state handler (x.events x.state.served) →
      ends (x.events x.state.served ++ new) = endOf handler true)
    (hacc : (x.next W i s').accepted = x.accepted)
    (hrel : (x.next W i s').released = x.released) : Logged (x.next W i s') := by
  have hev := events_append hlog
  have hnew : (x.next W i s').events s'.served = [] := by
    rw [hserved, hev, if_neg (by omega), List.append_nil]
    exact h.future _ (by omega)
  refine ⟨fun hne => absurd hactive hne, fun q hq => ?_, fun q hq => ?_, ?_, fun e he => ?_,
    fun hr => ?_⟩
  · have hq' : s'.served < q := hq
    rw [hev, if_neg (by omega), List.append_nil]
    exact h.future q (by omega)
  · have hq' : q < s'.served := hq
    rw [hev]
    split
    · next heq =>
      subst heq
      exact horder
    · rw [List.append_nil]
      exact h.past q (by omega)
  · show Current s' ((x.next W i s').events s'.served)
    rw [hnew]
    refine ⟨fun a ha => ?_, fun a ha => ?_, fun _ _ => rfl, inOrder_nil⟩
    · cases hactive.symm.trans ha
    · cases hactive.symm.trans ha
  · left
    show e.1 < s'.served ∧ ends ((x.next W i s').events e.1) = endOf e.2 true
    rw [hev, hserved]
    rw [hacc] at he
    rcases h.accepted e he with ⟨hlt, hend⟩ | ⟨heq, hpend⟩
    · rw [if_neg (by omega), List.append_nil]
      exact ⟨by omega, hend⟩
    · rw [if_pos heq, heq]
      exact ⟨by omega, hends e.2 hpend⟩
  · exact absurd (h.released (hrel.symm.trans hr)).2 hover

theorem logged_complete (h : Logged x) (hs : step W x.state (.llhttp .messageComplete) = some s') :
    Logged (x.next W (.llhttp .messageComplete) s') := by
  obtain ⟨phase, hp, ⟨hu, -⟩ | ⟨-, phase', hp', rfl⟩⟩ := step_llhttp hs
  · simp only [HttpParser.callback, HttpParser.onMessageComplete] at hu
    cases hu
  · have hcompletes := completes_handleRequest (W := W) x.state x.state.parser.request
    have hover := MessagePhase.next_ne_over hp
    obtain ⟨new, hheard, horder, hends⟩ := heard_completes hcompletes h.current hover
    exact h.finish hover hcompletes.served hcompletes.activeStream (congrArg (x.log ++ ·) hheard)
      horder hends (List.append_nil _) (Bool.or_false _)

/-- The stream is aborted by something other than a callback of llhttp. -/
theorem Logged.abort (h : Logged x) (hserved : s'.served = x.state.served)
    (hcalls : s'.outbox.calls =
      x.state.outbox.calls ++ x.state.abortCalls.map (x.state.served, ·))
    (hacc : x.state.accepts W i = []) (hnone : s'.activeStream = none) (hover : s'.phase = .over) :
    Logged (x.next W i s') := by
  have hnil : x.events x.state.served ++ ([] : List UserCall).filterMap (x.state.eventOf W i) =
      x.events x.state.served := List.append_nil _
  have hcalls' : s'.outbox.calls = x.state.outbox.calls ++
      (([] : List UserCall) ++ x.state.abortCalls).map (x.state.served, ·) := hcalls
  refine h.give_up (t := x.state) hserved hcalls' ?_ ?_ ?_ hnone hover
  · rw [hnil]
    exact fun a ha => h.current.unended ha
  · rw [hnil]
    exact fun _ => h.current.order
  · rw [hnil, hacc]
    exact fun handler hp => hp.resolve_right List.not_mem_nil

theorem logged_step (x : Observed L) (i : ExchangeInput) (x' : Observed L) (h : Logged x)
    (hs : observe W x i = some x') : Logged x' := by
  obtain ⟨s', hstep, rfl⟩ := Option.map_eq_some_iff.1 hs
  have hclock : ∀ now, i = .recv now ∨ i = .tick now →
      x.state.accepts W i = [] ∧ i ≠ .disconnected := by
    rintro now (rfl | rfl)
    · exact ⟨rfl, nofun⟩
    · exact ⟨rfl, nofun⟩
  cases step_cases hstep with
  | clock now inProgress startedAt hi =>
    exact h.quiet rfl rfl rfl rfl rfl (hclock now hi).1 (hclock now hi).2
  | expire now hi he =>
    exact h.abort (served_abort _) (calls_abort _) (hclock now hi).1 (activeStream_abort _) rfl
  | @callback c =>
    by_cases hc : c = .messageComplete
    · subst hc
      exact logged_complete h hstep
    · exact logged_callback h hstep hc
  | @fail c =>
    by_cases hc : c = .messageComplete
    · subst hc
      exact logged_complete h hstep
    · exact logged_callback h hstep hc
  | error =>
    exact h.abort (served_failParse _) (calls_failParse _) rfl (activeStream_failParse _)
      (phase_failParse _)
  | deferred d use => exact h.quiet rfl (Outbox.calls_useDeferred _ d use) rfl rfl rfl rfl nofun
  | disconnect => exact h.quiet rfl rfl rfl rfl rfl rfl nofun
  | disconnected =>
    exact h.abort (served_abort _) (calls_abort _) rfl (activeStream_abort _) rfl

/-- **The callback protocol of stream routes.** In every run the callbacks for a
request are in order, and once the session is released every request whose
headers were accepted has had its one end. -/
theorem stream_callbacks_protocol (W : World) (options : HttpParserOptions) {x : Observed L}
    (hx : Trace.Reachable (observe W) { state := make L options } x) :
    (∀ q, InOrder (x.events q)) ∧
      (x.released = true → ∀ q handler, (q, handler) ∈ x.accepted →
        ends (x.events q) = endOf handler (q < x.state.served)) := by
  have hnone : (make L options).activeStream = none := rfl
  have hinit : Logged ({ state := make L options } : Observed L) := by
    refine ⟨fun hne => absurd hnone hne, fun _ _ => rfl, fun q hq => absurd hq (Nat.not_lt_zero q),
      ⟨fun a ha => ?_, fun a ha => ?_, fun _ _ => rfl, inOrder_nil⟩,
      fun e he => absurd he List.not_mem_nil, fun hr => Bool.noConfusion hr⟩
    · cases hnone.symm.trans ha
    · cases hnone.symm.trans ha
  have h := hx.invariant logged_step hinit
  refine ⟨fun q => ?_, fun hrel q handler hmem => ?_⟩
  · rcases Nat.lt_trichotomy q x.state.served with hlt | rfl | hlt
    · exact h.past q hlt
    · exact h.current.order
    · rw [h.future q hlt]
      exact inOrder_nil
  · rcases h.accepted _ hmem with ⟨hlt, hend⟩ | ⟨heq, ⟨a, ha, -⟩ | ⟨-, -, hend⟩⟩
    · rw [decide_eq_true hlt]
      exact hend
    · cases (h.released hrel).1.symm.trans ha
    · have heq' : q = x.state.served := heq
      rw [heq', decide_eq_false (Nat.lt_irrefl _)]
      exact hend

/-- A stream route with all four callbacks. -/
def uploadHandler : HttpStreamHandler :=
  { onHeaders := some 0, onBody := some 1, onComplete := some 2, onAbort := some 3 }

def uploadWorld : World where
  router := ({} : Router).routeStream .post [47] uploadHandler

/-- The head of a `POST /`. -/
def uploadHead : List ExchangeInput :=
  [.llhttp .messageBegin, .llhttp (.url [47]), .llhttp .urlComplete,
    .llhttp (.headersComplete 3 true)]

/-- One upload arrives, and the next is cut off behind its headers. -/
def uploads : List ExchangeInput :=
  .recv 0 :: uploadHead ++ [.llhttp (.body [1]), .llhttp .messageComplete] ++ uploadHead ++
    [.disconnect, .disconnected]

theorem stream_callbacks_protocol_uploads :
    ∃ x, Trace.run (observe uploadWorld) { state := make HttpRecv.closingLlhttp {} } uploads =
        some x ∧ x.accepted = [(0, uploadHandler), (1, uploadHandler)] ∧
      x.events 0 = [.headers true, .body true, .complete] ∧ InOrder (x.events 0) ∧
      ends (x.events 1) = [.abort] := by
  have hrun : ((Trace.run (observe uploadWorld) { state := make HttpRecv.closingLlhttp {} }
      uploads).map fun x => (x.accepted, x.events 0, x.released, x.state.served)) =
      some ([(0, uploadHandler), (1, uploadHandler)], [.headers true, .body true, .complete], true,
        1) := rfl
  obtain ⟨x, hx, he⟩ := Option.map_eq_some_iff.1 hrun
  simp only [Prod.mk.injEq] at he
  obtain ⟨hacc, hevents, hrel, hserved⟩ := he
  obtain ⟨horder, hend⟩ := stream_callbacks_protocol uploadWorld {} (.of_run uploads hx)
  refine ⟨x, hx, hacc, hevents, horder 0, ?_⟩
  rw [hend hrel 1 uploadHandler (by rw [hacc]; decide), hserved]
  rfl

end HttpExchange

end IouringRuntime
