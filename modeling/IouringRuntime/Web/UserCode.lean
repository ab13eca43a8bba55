import IouringRuntime.Web.HttpExchange

/-!
# What every action of user code keeps

The session calls user code while it handles a request, and sends replies of
its own in between. `Kept` says that an invariant of the outbox and the context
survives each action that meets a condition `P` and each thing the code does by
itself; what is kept so is kept by a dispatch, by a callback of a stream and by
the end of a request. `RunAll`, `CallAll` and the others say that every action
in such a stretch meets the condition.
-/

namespace IouringRuntime

/-- What the code itself changes of a response: it never touches keep-alive, and
the only header it adds is `Allow`. -/
structure HttpResponse.Restated (r r' : HttpResponse) : Prop where
  keepAlive : r'.keepAlive = r.keepAlive
  headers : r'.headers = r.headers ∨ ∃ value, r'.headers = r.headers ++ [⟨ascii "Allow", value⟩]

namespace Outbox

variable (P : UserCall → RequestContext → Action → Prop) (W : World)

def RunAll (call : UserCall) (q : Nat) : List Action → Outbox → RequestContext → Prop
  | [], _, _ => True
  | a :: rest, o, ctx => P call ctx a ∧ RunAll call q rest (o.act W q ctx a).1 (o.act W q ctx a).2

def CallAll (o : Outbox) (q : Nat) (call : UserCall) (ctx : RequestContext) : Prop :=
  RunAll P W call q (o.script W call ctx).actions (o.recordCall q call) ctx

def PassAll (q : Nat) : List Nat → Outbox → RequestContext → Prop
  | [], _, _ => True
  | m :: rest, o, ctx =>
    let x := o.callUser W q (.middleware m) ctx
    o.CallAll P W q (.middleware m) ctx ∧
      ((o.script W (.middleware m) ctx).ending ≠ .threw → x.2.response.isSent = false →
        PassAll q rest x.1 x.2)

def RouteAll (o : Outbox) (q : Nat) (ctx : RequestContext) : Prop :=
  let result := dispatchResult W q ctx
  ∀ h, result.handler = some h →
    o.CallAll P W q (.handler h) { suppressHead ctx with params := result.params }

def DispatchAll (o : Outbox) (q : Nat) (ctx : RequestContext) : Prop :=
  let r := runMiddlewares W q W.router.middlewares o ctx
  PassAll P W q W.router.middlewares o ctx ∧ (r.2 = .passed → RouteAll P W r.1.1 q r.1.2)

/-- `I` survives the calls `S` of user code whose actions meet `P`, and what the
code does between them. -/
structure Kept (q : Nat) (S : UserCall → Prop) (I : Outbox → RequestContext → Prop) : Prop where
  act : ∀ {o ctx call a}, S call → P call ctx a → I o ctx → I (o.act W q ctx a).1 (o.act W q ctx a).2
  record : ∀ {o ctx call}, S call → I o ctx → I (o.recordCall q call) ctx
  restate : ∀ {o ctx content}, HttpResponse.Restated ctx.response.content content → I o ctx →
    I o { ctx with response := { ctx.response with content := content } }
  send : ∀ {o ctx}, I o ctx → I (o.send W q ctx.response).1
    { ctx with response := (o.send W q ctx.response).2 }
  params : ∀ {o ctx} (params), I o ctx → I o { ctx with params := params }

namespace Kept

variable {P W} {q : Nat} {S : UserCall → Prop} {I : Outbox → RequestContext → Prop}
  {x : Outbox × RequestContext} {ctx : RequestContext}

theorem runActions (hk : Kept P W q S I) {call : UserCall} (hc : S call) {actions : List Action} :
    ∀ {o : Outbox} {ctx : RequestContext}, RunAll P W call q actions o ctx → I o ctx →
      I (o.runActions W q actions ctx).1 (o.runActions W q actions ctx).2 := by
  induction actions with
  | nil => intro o ctx _ h; exact h
  | cons a rest ih => intro o ctx ha h; exact ih ha.2 (hk.act hc ha.1 h)

theorem callUser (hk : Kept P W q S I) {call : UserCall} {o : Outbox} (hc : S call)
    (ha : o.CallAll P W q call ctx) (h : I o ctx) :
    I (o.callUser W q call ctx).1 (o.callUser W q call ctx).2 :=
  hk.runActions hc ha (hk.record hc h)

theorem sendError (hk : Kept P W q S I) (status : HttpStatus) (message : String)
    (h : I x.1 x.2) : I (Outbox.sendError W q status message x).1
      (Outbox.sendError W q status message x).2 := by
  have hc : x.2.response.content.Restated (x.2.response.content.error status message) :=
    ⟨rfl, .inl rfl⟩
  exact hk.send (hk.restate hc h)

theorem sendErrorIfUnsent (hk : Kept P W q S I) (status : HttpStatus) (message : String)
    (h : I x.1 x.2) : I (Outbox.sendErrorIfUnsent W q status message x).1
      (Outbox.sendErrorIfUnsent W q status message x).2 := by
  unfold Outbox.sendErrorIfUnsent
  split
  · exact h
  · exact hk.sendError status message h

theorem sendUnrouted (hk : Kept P W q S I) (result : Router.MatchResult) (h : I x.1 x.2) :
    I (Outbox.sendUnrouted W q result x).1 (Outbox.sendUnrouted W q result x).2 := by
  unfold Outbox.sendUnrouted
  split
  · refine hk.send (hk.restate (?_ : HttpResponse.Restated _ { x.2.response.content.error
      .kMethodNotAllowed "Method Not Allowed" with headers := _ }) h)
    refine ⟨rfl, ?_⟩
    dsimp only
    split
    · exact .inl rfl
    · exact .inr ⟨_, rfl⟩
  · exact hk.sendError _ _ h

theorem suppressHead (hk : Kept P W q S I) {o : Outbox} (h : I o ctx) :
    I o (Outbox.suppressHead ctx) := by
  unfold Outbox.suppressHead
  split
  · have hc : ctx.response.content.Restated { ctx.response.content with suppressBody := true } :=
      ⟨rfl, .inl rfl⟩
    exact hk.restate hc h
  · exact h

theorem runMiddlewares (hk : Kept P W q S I) (hS : ∀ m, S (.middleware m)) {ms : List Nat} :
    ∀ {o : Outbox} {ctx : RequestContext}, PassAll P W q ms o ctx → I o ctx →
      I (Outbox.runMiddlewares W q ms o ctx).1.1 (Outbox.runMiddlewares W q ms o ctx).1.2 := by
  induction ms with
  | nil => intro o ctx _ h; exact h
  | cons m rest ih =>
    intro o ctx ha h
    have hx := hk.callUser (hS m) ha.1 h
    simp only [Outbox.runMiddlewares]
    split
    · exact hx
    · next hok =>
      split
      · exact hx
      · next hsent => exact ih (ha.2 hok (by simpa using hsent)) hx

theorem callHandler (hk : Kept P W q S I) {o : Outbox} {k : Nat} (hS : S (.handler k))
    (ha : o.CallAll P W q (.handler k) ctx) (h : I o ctx) :
    I (o.callHandler W q k ctx).1 (o.callHandler W q k ctx).2 := by
  have hx := hk.callUser hS ha h
  unfold Outbox.callHandler
  simp only
  split
  · exact hk.sendErrorIfUnsent _ _ hx
  · exact hx

theorem dispatchRoute (hk : Kept P W q S I) (hS : ∀ k, S (.handler k)) {o : Outbox}
    (ha : o.RouteAll P W q ctx) (h : I o ctx) :
    I (o.dispatchRoute W q ctx).1 (o.dispatchRoute W q ctx).2 := by
  unfold Outbox.dispatchRoute
  simp only
  split
  · next k hh => exact hk.params _ (hk.callHandler (hS k) (ha k hh) (hk.params _ (hk.suppressHead h)))
  · exact hk.sendUnrouted (x := (o, Outbox.suppressHead ctx)) _ (hk.suppressHead h)

theorem dispatch (hk : Kept P W q S I) (hm : ∀ m, S (.middleware m)) (hh : ∀ k, S (.handler k))
    {o : Outbox} (ha : o.DispatchAll P W q ctx) (h : I o ctx) :
    I (o.dispatch W q ctx).1.1 (o.dispatch W q ctx).1.2 := by
  have hx := hk.runMiddlewares hm ha.1 h
  unfold Outbox.dispatch
  simp only
  split
  · next hp => exact hk.dispatchRoute hh (ha.2 hp) hx
  · exact hx
  · exact hx

end Kept

end Outbox

namespace HttpExchange

variable {L : Llhttp} (P : UserCall → RequestContext → Action → Prop) (W : World)

def PrepareAll (s : HttpExchange L) (request : HttpRequest) : Prop :=
  let result := W.router.matchRoute request.method (W.pathData s.served) request.path
  ∀ handler, result.streamHandler = some handler → ∀ h, handler.onHeaders = some h →
    s.outbox.CallAll P W s.served (.onHeaders h) (newContext request result.params)

def ChunkAll (s : HttpExchange L) (request : HttpRequest) (chunk : Bytes) : Prop :=
  ∀ a, s.activeStream = some a → ∀ h, a.handler.onBody = some h →
    s.outbox.CallAll P W s.served (.onBody h chunk) (a.context request)

def CompleteAll (s : HttpExchange L) (request : HttpRequest) : Prop :=
  match s.activeStream with
  | some a => ∀ h, onComplete a = some h →
    s.outbox.CallAll P W s.served (.onComplete h) (a.context request)
  | none => s.outbox.DispatchAll P W s.served (newContext request [])

/-- Every action of the user code that a callback of llhttp reaches meets `P`. -/
def HandleAll (s : HttpExchange L) : LlCall → Prop
  | .headersComplete method keepAlive => s.PrepareAll P W (s.headRequest method keepAlive)
  | .body data => s.parser.streams data = true → s.ChunkAll P W s.parser.request data
  | .messageComplete => s.CompleteAll P W s.parser.request
  | _ => True

variable {P W} {S : UserCall → Prop} {I : Outbox → RequestContext → Prop} {s : HttpExchange L}
  {request : HttpRequest}

open Outbox (Kept)

/-- A stream request begins with `on_headers`, or the request is no stream request. -/
theorem kept_prepareRequestBody (hk : Kept P W s.served S I) (hS : ∀ h, S (.onHeaders h))
    (ha : s.PrepareAll P W request) (h : ∀ params, I s.outbox (newContext request params)) :
    s.prepareRequestBody W request = (s, request, .buffer) ∨
      ∃ a x mode, s.prepareRequestBody W request = (s.updateStream a x, x.2.request, mode) ∧
        I x.1 x.2 := by
  unfold prepareRequestBody
  simp only
  split
  · exact .inl rfl
  · next handler hr =>
    refine .inr ?_
    split
    · exact ⟨⟨handler, _, {}, false⟩, (s.outbox, newContext request _), .stream, rfl, h _⟩
    · next k hh =>
      have hx := hk.callUser (hS k) (ha handler hr k hh) (h _)
      split
      · exact ⟨_, _, _, rfl, hx⟩
      · exact ⟨_, _, _, rfl, hk.sendErrorIfUnsent _ _ hx⟩
      · exact ⟨_, _, _, rfl, hk.sendError _ _ hx⟩

theorem kept_handleBodyChunk (hk : Kept P W s.served S I) {chunk : Bytes}
    (hS : ∀ h, S (.onBody h chunk)) (ha : s.ChunkAll P W request chunk)
    (h : ∀ a, s.activeStream = some a → I s.outbox (a.context request)) :
    s.handleBodyChunk W request chunk = (s, request, true) ∨
      ∃ a x ok, s.handleBodyChunk W request chunk = (s.updateStream a x, x.2.request, ok) ∧
        I x.1 x.2 := by
  unfold handleBodyChunk
  split
  · exact .inl rfl
  · next a hactive =>
    split
    · exact .inl rfl
    · next k hh =>
      have hx := hk.callUser (hS k) (ha a hactive k hh) (h a hactive)
      refine .inr ?_
      simp only
      split
      · exact ⟨_, _, _, rfl, hx⟩
      · exact ⟨_, _, _, rfl, hk.sendErrorIfUnsent _ _ hx⟩
      · exact ⟨_, _, _, rfl, hk.sendErrorIfUnsent _ _ hx⟩

theorem kept_sendIfOpen {q : Nat} {x : Outbox × RequestContext} (hk : Kept P W q S I)
    (h : I x.1 x.2) : I (sendIfOpen W q x).1 (sendIfOpen W q x).2 := by
  unfold sendIfOpen
  split
  · exact h
  · exact hk.send h

theorem kept_callOnComplete {q : Nat} {o : Outbox} {a : StreamingRequest} (hk : Kept P W q S I)
    (hS : ∀ h, S (.onComplete h))
    (ha : ∀ h, onComplete a = some h → o.CallAll P W q (.onComplete h) (a.context request))
    (h : I o (a.context request)) :
    I (callOnComplete W o q a request).1 (callOnComplete W o q a request).2 := by
  unfold callOnComplete
  split
  · exact h
  · next k hh =>
    have hx := hk.callUser (hS k) (ha k hh) h
    simp only
    split
    · exact hk.sendErrorIfUnsent _ _ hx
    · exact hx

/-- The abort of a stream; user code may do anything, and only the outbox is left. -/
theorem kept_abort {K : Outbox → Prop}
    (hk : Kept (fun _ _ _ => True) W s.served (fun _ => True) fun o _ => K o) (h : K s.outbox) :
    K (s.abortStreamingRequest W).outbox := by
  have hall (call : UserCall) (actions : List Action) : ∀ (o : Outbox) (ctx : RequestContext),
      Outbox.RunAll (fun _ _ _ => True) W call s.served actions o ctx := by
    induction actions with
    | nil => exact fun _ _ => trivial
    | cons a rest ih => exact fun o ctx => ⟨trivial, ih _ _⟩
  unfold abortStreamingRequest
  split
  · exact h
  · split
    · exact h
    · exact hk.callUser trivial (hall _ _ _ _) h

end HttpExchange

end IouringRuntime
