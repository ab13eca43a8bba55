import IouringRuntime.Web.HttpSession
import IouringRuntime.Web.RadixTree

/-!
# Routing a request

`Router` (`web/Router.h`, `Router.cpp`) with `RequestContext` and
`DeferredResponse` (`RouterDeferred.cpp`). Middlewares, handlers and the
callbacks of a stream route are user code. What one call of it does is a
`Script`, chosen by the `World` from the number of the call and from what the
context shows; what it does later, with the deferred responses it kept, comes
from outside.

`Outbox` is the part of the session that user code reaches. In it, a response
sent is a record of the request it answers and of whether the session took it.
A send that the session refuses because it overflows, or takes and then closes,
is a send followed by refusals.
-/

namespace IouringRuntime

/-! ## User code -/

inductive ResponseState where
  | kOpen | kSent | kDeferred
  deriving DecidableEq, Repr

/-- A response bound to a session. -/
structure LiveResponse where
  content : HttpResponse := {}
  state : ResponseState := .kOpen
  deriving DecidableEq, Repr

namespace LiveResponse

def isSent (r : LiveResponse) : Bool := r.state == .kSent

def isDeferred (r : LiveResponse) : Bool := r.state == .kDeferred

def keepAlive (r : LiveResponse) (keepAlive : Bool) : LiveResponse :=
  { r with content := { r.content with keepAlive := keepAlive } }

def markDeferred (r : LiveResponse) : LiveResponse :=
  if r.state = .kOpen then { r with state := .kDeferred } else r

theorem state_markDeferred (r : LiveResponse) : r.markDeferred.state ≠ .kOpen := by
  unfold markDeferred
  split
  · nofun
  · assumption

def error (r : LiveResponse) (status : HttpStatus) (message : String) : LiveResponse :=
  { r with content := r.content.error status message }

end LiveResponse

/-- The request, its route parameters and its response. -/
structure RequestContext where
  request : HttpRequest
  params : List (Bytes × StringView) := []
  response : LiveResponse
  deriving DecidableEq, Repr

/-- `response` is empty once it is reset; `request` is history. -/
structure DeferredResponse where
  request : Nat
  response : Option LiveResponse
  deriving DecidableEq, Repr

/-- What user code does with a deferred response; `abort` is also its
destructor. -/
inductive DeferredUse where
  | edit (content : HttpResponse)
  | send
  | sendFile (file : FileOpen) (contentType : Bytes)
  | complete
  | abort
  deriving DecidableEq, Repr

/-- What user code does with its context. The deferred responses are numbered in
the order of `DeferResponse`. -/
inductive Action where
  | setRequest (request : HttpRequest)
  | edit (content : HttpResponse)
  | send
  | sendFile (file : FileOpen) (contentType : Bytes)
  | defer
  | later (d : Nat) (use : DeferredUse)
  | disconnect
  deriving DecidableEq, Repr

inductive Ending where
  | returned (ok : Bool)
  | threw
  deriving DecidableEq, Repr

structure Script where
  actions : List Action := []
  ending : Ending := .returned true
  deriving DecidableEq, Repr

inductive UserCall where
  | middleware (m : Nat)
  | handler (h : Nat)
  | onHeaders (h : Nat)
  | onBody (h : Nat) (chunk : Bytes)
  | onComplete (h : Nat)
  | onAbort (h : Nat)
  deriving DecidableEq, Repr

/-! ## The router -/

structure Router where
  middlewares : List Nat := []
  tree : RadixNode := {}

namespace Router

structure MatchResult where
  handler : Option Nat := none
  streamHandler : Option HttpStreamHandler := none
  params : List (Bytes × StringView) := []
  pathExists : Bool := false
  allowHeader : Bytes := []
  deriving DecidableEq, Repr

def route (r : Router) (method : HttpMethod) (path : Bytes) (handler : Nat) : Router :=
  { r with tree := RadixTree.insert r.tree method path { handler := some handler } }

def routeStream (r : Router) (method : HttpMethod) (path : Bytes) (handler : HttpStreamHandler) :
    Router :=
  { r with tree := RadixTree.insert r.tree method path { streamHandler := handler } }

def use (r : Router) (middleware : Nat) : Router :=
  { r with middlewares := r.middlewares ++ [middleware] }

/-- `Match`, for a path that starts at the address `data`. -/
def matchRoute (r : Router) (method : HttpMethod) (data : Nat) (path : Bytes) : MatchResult :=
  let m := RadixTree.matchPath r.tree method data path
  match m.entry with
  | none => { pathExists := m.pathExists, allowHeader := m.allowHeader }
  | some entry =>
    { handler := entry.handler
      streamHandler := if entry.hasStreamHandler then some entry.streamHandler else none
      params := m.params
      pathExists := m.pathExists
      allowHeader := m.allowHeader }

/-- The match of `Dispatch`: a `HEAD` request may be answered by the `GET` handler. -/
def dispatchMatch (r : Router) (method : HttpMethod) (data : Nat) (path : Bytes) : MatchResult :=
  let result := r.matchRoute method data path
  if method = .head ∧ result.handler = none then
    let getResult := r.matchRoute .get data path
    if getResult.handler.isSome then getResult else result
  else result

end Router

/-- The router, its user code and what the environment decides: whether the
buffers for the `n`-th response sent are there and the session takes them,
whether there is a buffer for the header of a file, and where the path of a
request lies. -/
structure World where
  router : Router
  user : Nat → UserCall → RequestContext → Script := fun _ _ _ => {}
  accepts : Nat → Bool := fun _ => true
  newHeader : Nat → Bool := fun _ => true
  pathData : Nat → Nat := fun _ => 0
  requestTimeout : Nat := 0

/-! ## Sending -/

structure SentResponse where
  request : Nat
  response : HttpResponse
  queued : Bool
  deriving DecidableEq, Repr

/-- `isOpen` is `state_ == kOpen`; `sends` and `calls` are history. -/
structure Outbox where
  isOpen : Bool := true
  asyncWorkCount : Nat := 0
  deferred : List DeferredResponse := []
  sends : List SentResponse := []
  calls : List (Nat × UserCall) := []
  deriving DecidableEq, Repr

namespace Outbox

variable (W : World)

def disconnect (o : Outbox) : Outbox := { o with isOpen := false }

/-- The bytes of a response are handed to the session. -/
def queue (o : Outbox) (q : Nat) (r : HttpResponse) : Outbox :=
  { o with sends := o.sends ++ [⟨q, r, o.isOpen && W.accepts o.sends.length⟩] }

/-- `HttpResponse::Send`. -/
def send (o : Outbox) (q : Nat) (r : LiveResponse) : Outbox × LiveResponse :=
  if r.isSent then (o, r) else (o.queue W q r.content, { r with state := .kSent })

/-- `HttpResponse::SendFile`. Without a buffer for the header the response stays
as it is. -/
def sendFile (o : Outbox) (q : Nat) (r : LiveResponse) (file : FileOpen) (contentType : Bytes) :
    Outbox × LiveResponse :=
  if r.isSent then (o, r)
  else
    let r := { r with content := HttpSession.fileResponse r.content contentType }
    match file with
    | .notFound => o.send W q (r.error .kNotFound "Not Found")
    | .openFailed | .notRegular =>
      o.send W q (r.error .kInternalServerError "Internal Server Error")
    | .regular content =>
      if !W.newHeader o.sends.length then (o, r)
      else (o.queue W q { r.content with body := content }, { r with state := .kSent })

/-- A `Send` or `SendFile` does nothing, or sends a response that was not. -/
inductive Sends (o : Outbox) (q : Nat) (r : LiveResponse) :
    Outbox × LiveResponse → Prop where
  | kept {r' : LiveResponse} : r'.state = r.state → Sends o q r (o, r')
  | queued {r' : LiveResponse} (c : HttpResponse) : r.state ≠ .kSent → r'.state = .kSent →
      Sends o q r (o.queue W q c, r')

theorem sends_send {W : World} (o : Outbox) (q : Nat) {r r' : LiveResponse} (hr : r'.state = r.state) :
    Sends W o q r (o.send W q r') := by
  unfold send
  split
  case isTrue => exact .kept hr
  case isFalse h =>
    refine .queued _ ?_ rfl
    rw [← hr]
    simpa [LiveResponse.isSent] using h

theorem sends_sendFile {W : World} (o : Outbox) (q : Nat) (r : LiveResponse) (file : FileOpen)
    (contentType : Bytes) : Sends W o q r (o.sendFile W q r file contentType) := by
  unfold sendFile
  split
  case isTrue => exact .kept rfl
  case isFalse h =>
    have hu : r.state ≠ .kSent := by simpa [LiveResponse.isSent] using h
    cases file with
    | notFound | openFailed | notRegular => exact sends_send o q rfl
    | regular content =>
      simp only
      split
      · exact .kept rfl
      · exact .queued _ hu rfl

/-- A use of `Response()`, which a reset deferred response no longer has. -/
def useResponse (o : Outbox) (d : Nat) (f : Nat → LiveResponse → Outbox × LiveResponse) : Outbox :=
  match o.deferred[d]? with
  | some ⟨q, some r⟩ =>
    { (f q r).1 with deferred := (f q r).1.deferred.set d ⟨q, some (f q r).2⟩ }
  | _ => o

def beginDeferredResponse (o : Outbox) : Outbox :=
  { o with asyncWorkCount := o.asyncWorkCount + 1 }

def endDeferredResponse (o : Outbox) : Outbox :=
  { o with asyncWorkCount := o.asyncWorkCount - 1 }

/-- `DeferredResponse::Reset`. -/
def reset (o : Outbox) (d : Nat) (sendIfOpen : Bool) : Outbox :=
  match o.deferred[d]? with
  | some ⟨q, some r⟩ =>
    let o := if sendIfOpen && !r.isSent then (o.send W q r).1 else o
    { o.endDeferredResponse with deferred := o.deferred.set d ⟨q, none⟩ }
  | _ => o

def useDeferred (o : Outbox) (d : Nat) : DeferredUse → Outbox
  | .edit content => o.useResponse d fun _ r => (o, { r with content := content })
  | .send => o.useResponse d (o.send W)
  | .sendFile file contentType => o.useResponse d fun q r => o.sendFile W q r file contentType
  | .complete => o.reset W d true
  | .abort => o.reset W d false

/-- A use of a deferred response replaces it by one for the same request, and
sends it at most if it was not sent. -/
inductive Used (o : Outbox) (d : Nat) : Outbox → Prop where
  | nothing : Used o d o
  | kept {q : Nat} {r : LiveResponse} {x : DeferredResponse} (n : Nat) :
      o.deferred[d]? = some ⟨q, some r⟩ → x.request = q →
      (∀ r', x.response = some r' → r'.state = r.state) →
      Used o d { o with deferred := o.deferred.set d x, asyncWorkCount := n }
  | queued {q : Nat} {r : LiveResponse} {x : DeferredResponse} (c : HttpResponse) (n : Nat) :
      o.deferred[d]? = some ⟨q, some r⟩ → r.state ≠ .kSent → x.request = q →
      (∀ r', x.response = some r' → r'.state = .kSent) →
      Used o d { o.queue W q c with deferred := o.deferred.set d x, asyncWorkCount := n }

section

variable {W} {o : Outbox} {d : Nat}

theorem used_useResponse {f : Nat → LiveResponse → Outbox × LiveResponse}
    (hf : ∀ q r, Sends W o q r (f q r)) : Used W o d (o.useResponse d f) := by
  unfold useResponse
  split
  case h_2 => exact .nothing
  case h_1 q r h =>
    have hs := hf q r
    generalize f q r = y at hs
    cases hs with
    | kept hr => exact .kept _ h rfl fun _ he => by cases he; exact hr
    | queued c hu hr => exact .queued c _ h hu rfl fun _ he => by cases he; exact hr

theorem used_reset (sendIfOpen : Bool) : Used W o d (o.reset W d sendIfOpen) := by
  unfold reset
  split
  case h_2 => exact .nothing
  case h_1 q r h =>
    simp only
    split
    case isFalse => exact .kept _ h rfl nofun
    case isTrue =>
      have hs : Sends W o q r (o.send W q r) := sends_send o q rfl
      generalize o.send W q r = y at hs
      cases hs with
      | kept => exact .kept _ h rfl nofun
      | queued c hu => exact .queued c _ h hu rfl nofun

theorem used_useDeferred (use : DeferredUse) : Used W o d (o.useDeferred W d use) := by
  cases use with
  | edit content => exact used_useResponse fun _ _ => .kept rfl
  | send => exact used_useResponse fun q _ => sends_send o q rfl
  | sendFile file contentType => exact used_useResponse fun q r => sends_sendFile o q r _ _
  | complete | abort => exact used_reset _

end

/-- The constructor of `DeferredResponse`, with a response of its own. -/
def newDeferred (o : Outbox) (q : Nat) : Outbox :=
  let response : LiveResponse := {}
  { o.beginDeferredResponse with
    deferred := o.deferred ++ [⟨q, some (response.keepAlive false)⟩] }

/-- `RequestContext::DeferResponse`. -/
def deferResponse (o : Outbox) (q : Nat) (ctx : RequestContext) : Outbox × RequestContext :=
  (o.newDeferred q,
    { ctx with
      request := { ctx.request with keepAlive := false }
      response := (ctx.response.keepAlive false).markDeferred })

/-! ## Calls of user code -/

def act (o : Outbox) (q : Nat) (ctx : RequestContext) : Action → Outbox × RequestContext
  | .setRequest request => (o, { ctx with request := request })
  | .edit content => (o, { ctx with response := { ctx.response with content := content } })
  | .send => ((o.send W q ctx.response).1, { ctx with response := (o.send W q ctx.response).2 })
  | .sendFile file contentType =>
    let r := o.sendFile W q ctx.response file contentType
    (r.1, { ctx with response := r.2 })
  | .defer => o.deferResponse q ctx
  | .later d use => (o.useDeferred W d use, ctx)
  | .disconnect => (o.disconnect, ctx)

def runActions (q : Nat) : List Action → Outbox → RequestContext → Outbox × RequestContext
  | [], o, ctx => (o, ctx)
  | a :: rest, o, ctx => runActions q rest (o.act W q ctx a).1 (o.act W q ctx a).2

/-- What the next call of user code will do. -/
def script (o : Outbox) (call : UserCall) (ctx : RequestContext) : Script :=
  W.user o.calls.length call ctx

def recordCall (o : Outbox) (q : Nat) (call : UserCall) : Outbox :=
  { o with calls := o.calls ++ [(q, call)] }

def callUser (o : Outbox) (q : Nat) (call : UserCall) (ctx : RequestContext) :
    Outbox × RequestContext :=
  (o.recordCall q call).runActions W q (o.script W call ctx).actions ctx

/-- `Status(status).ContentType("text/plain").Body(message).Send()`. -/
def sendError (q : Nat) (status : HttpStatus) (message : String) (x : Outbox × RequestContext) :
    Outbox × RequestContext :=
  let r := x.1.send W q (x.2.response.error status message)
  (r.1, { x.2 with response := r.2 })

/-- The same under `!IsSent()`. -/
def sendErrorIfUnsent (q : Nat) (status : HttpStatus) (message : String)
    (x : Outbox × RequestContext) : Outbox × RequestContext :=
  if x.2.response.isSent then x else sendError W q status message x

/-! ## Dispatch -/

/-- How the middlewares end. -/
inductive Passage where
  | passed | responded | threw
  deriving DecidableEq, Repr

def runMiddlewares (q : Nat) :
    List Nat → Outbox → RequestContext → (Outbox × RequestContext) × Passage
  | [], o, ctx => ((o, ctx), .passed)
  | m :: rest, o, ctx =>
    let x := o.callUser W q (.middleware m) ctx
    if (o.script W (.middleware m) ctx).ending = .threw then (x, .threw)
    else if x.2.response.isSent then (x, .responded)
    else runMiddlewares q rest x.1 x.2

def callHandler (o : Outbox) (q h : Nat) (ctx : RequestContext) : Outbox × RequestContext :=
  let x := o.callUser W q (.handler h) ctx
  if (o.script W (.handler h) ctx).ending = .threw then
    sendErrorIfUnsent W q .kInternalServerError "Internal Server Error" x
  else x

/-- `Dispatch` once no handler was found. -/
def sendUnrouted (q : Nat) (result : Router.MatchResult) (x : Outbox × RequestContext) :
    Outbox × RequestContext :=
  if result.pathExists then
    let response := x.2.response.error .kMethodNotAllowed "Method Not Allowed"
    let headers :=
      if result.allowHeader.isEmpty then response.content.headers
      else response.content.headers ++ [⟨ascii "Allow", result.allowHeader⟩]
    let r := x.1.send W q { response with content := { response.content with headers := headers } }
    (r.1, { x.2 with response := r.2 })
  else sendError W q .kNotFound "Not Found" x

/-- `SuppressBody` for a `HEAD` request. -/
def suppressHead (ctx : RequestContext) : RequestContext :=
  if ctx.request.method = .head then
    { ctx with response :=
        { ctx.response with content := { ctx.response.content with suppressBody := true } } }
  else ctx

def dispatchResult (q : Nat) (ctx : RequestContext) : Router.MatchResult :=
  W.router.dispatchMatch ctx.request.method (W.pathData q) ctx.request.path

/-- `Dispatch` behind the middlewares. -/
def dispatchRoute (o : Outbox) (q : Nat) (ctx : RequestContext) : Outbox × RequestContext :=
  let result := dispatchResult W q ctx
  let ctx := suppressHead ctx
  match result.handler with
  | some h =>
    let x := o.callHandler W q h { ctx with params := result.params }
    (x.1, { x.2 with params := [] })
  | none => sendUnrouted W q result (o, ctx)

/-- `Dispatch`, and whether a middleware's exception leaves it. -/
def dispatch (o : Outbox) (q : Nat) (ctx : RequestContext) : (Outbox × RequestContext) × Bool :=
  let r := runMiddlewares W q W.router.middlewares o ctx
  match r.2 with
  | .passed => (dispatchRoute W r.1.1 q r.1.2, false)
  | .responded => (r.1, false)
  | .threw => (r.1, true)

end Outbox

end IouringRuntime
