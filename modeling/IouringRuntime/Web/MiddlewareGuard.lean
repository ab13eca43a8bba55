import IouringRuntime.Web.HttpExchange

/-!
# Middlewares in front of routes

`Dispatch` runs the middlewares and stops at the first one that responds.
`PrepareRequestBody` finds the stream routes by itself and runs no middleware,
and neither do the callbacks that follow. A middleware that answers through a
deferred response does not stop `Dispatch` either.

The observer of `watch` notes the requests to which the middlewares, run in
order, send a response: as `Dispatch` runs them, and for a request of a stream
route as they would run when its headers are complete.
-/

namespace IouringRuntime

/-- A callback that a route was registered with, other than `on_abort`. -/
def UserCall.isRoute : UserCall → Bool
  | .handler _ | .onHeaders _ | .onBody _ _ | .onComplete _ => true
  | .middleware _ | .onAbort _ => false

namespace Outbox

variable {W : World} {o o' o'' : Outbox} {q : Nat} {ctx : RequestContext}

/-- How many responses to a request were sent. -/
def sentTo (o : Outbox) (q : Nat) : Nat := o.sends.countP (·.request == q)

/-! ## What user code leaves behind -/

/-- Only calls `P` for request `q` were made, and only `q`'s response was deferred. -/
structure Extends (q : Nat) (P : UserCall → Prop) (o o' : Outbox) : Prop where
  calls_sub : ∀ c ∈ o.calls, c ∈ o'.calls
  calls_new : ∀ c ∈ o'.calls, c ∈ o.calls ∨ c.1 = q ∧ P c.2
  deferred_new : ∀ d ∈ o'.deferred, d.request = q ∨ ∃ d' ∈ o.deferred, d'.request = d.request

namespace Extends

variable {P P' : UserCall → Prop}

theorem of_eq (hc : o'.calls = o.calls) (hd : o'.deferred = o.deferred) : Extends q P o o' := by
  refine ⟨fun c h => ?_, fun c h => ?_, fun d h => ?_⟩
  · rwa [hc]
  · rw [hc] at h
    exact .inl h
  · rw [hd] at h
    exact .inr ⟨d, h, rfl⟩

theorem refl (o : Outbox) : Extends q P o o := .of_eq rfl rfl

theorem mono (h : Extends q P o o') (hP : ∀ c, P c → P' c) : Extends q P' o o' :=
  ⟨h.calls_sub, fun c hc => (h.calls_new c hc).imp_right fun h' => ⟨h'.1, hP _ h'.2⟩,
    h.deferred_new⟩

theorem trans (h : Extends q P o o') (h' : Extends q P o' o'') : Extends q P o o'' := by
  refine ⟨fun c hc => h'.calls_sub c (h.calls_sub c hc), fun c hc => ?_, fun d hd => ?_⟩
  · rcases h'.calls_new c hc with hc | hc
    · exact h.calls_new c hc
    · exact .inr hc
  · rcases h'.deferred_new d hd with hd | ⟨d', hd', he⟩
    · exact .inl hd
    · rw [← he]
      exact h.deferred_new d' hd'

theorem set {d : Nat} {x x' : DeferredResponse} (hx : o.deferred[d]? = some x)
    (hr : x'.request = x.request) (hc : o'.calls = o.calls)
    (hd : o'.deferred = o.deferred.set d x') : Extends q P o o' := by
  refine ⟨fun c h => ?_, fun c h => ?_, fun y h => .inr ?_⟩
  · rwa [hc]
  · rw [hc] at h
    exact .inl h
  · rw [hd] at h
    rcases List.mem_or_eq_of_mem_set h with h | rfl
    · exact ⟨y, h, rfl⟩
    · exact ⟨x, List.mem_of_getElem? hx, hr.symm⟩

theorem sends {p : Nat} {r : LiveResponse} {x : Outbox × LiveResponse} (hs : Sends W o p r x) :
    Extends q P o x.1 := by
  cases hs with
  | kept => exact .refl o
  | queued => exact .of_eq rfl rfl

theorem used {d : Nat} (hu : Used W o d o') : Extends q P o o' := by
  cases hu with
  | nothing => exact .refl o
  | kept n h hq => exact .set h hq rfl rfl
  | queued c n h _ hq => exact .set h hq rfl rfl

theorem act (a : Action) : Extends q P o (o.act W q ctx a).1 := by
  cases a with
  | setRequest request => exact .refl o
  | edit content => exact .refl o
  | send => exact .sends (sends_send o q rfl)
  | sendFile file contentType => exact .sends (sends_sendFile o q _ file contentType)
  | defer =>
    refine ⟨fun _ h => h, fun _ h => .inl h, fun d hd => ?_⟩
    rcases List.mem_append.1 hd with hd | hd
    · exact .inr ⟨d, hd, rfl⟩
    · obtain rfl := List.mem_singleton.1 hd
      exact .inl rfl
  | later d use => exact .used (used_useDeferred use)
  | disconnect => exact .of_eq rfl rfl

theorem runActions (actions : List Action) : ∀ {o : Outbox} {ctx : RequestContext},
    Extends q P o (o.runActions W q actions ctx).1 := by
  induction actions with
  | nil => intro o ctx; exact .refl o
  | cons a rest ih => intro o ctx; exact (act a).trans ih

theorem recordCall (call : UserCall) : Extends q (· = call) o (o.recordCall q call) := by
  refine ⟨fun c h => List.mem_append_left _ h, fun c h => ?_, fun d h => .inr ⟨d, h, rfl⟩⟩
  refine (List.mem_append.1 h).imp_right fun h => ?_
  obtain rfl := List.mem_singleton.1 h
  exact ⟨rfl, rfl⟩

theorem callUser (call : UserCall) : Extends q (· = call) o (o.callUser W q call ctx).1 :=
  (recordCall call).trans (runActions _)

theorem sendError (status : HttpStatus) (message : String) (x : Outbox × RequestContext) :
    Extends q P x.1 (Outbox.sendError W q status message x).1 :=
  .sends (sends_send _ _ rfl)

theorem sendErrorIfUnsent (status : HttpStatus) (message : String) (x : Outbox × RequestContext) :
    Extends q P x.1 (Outbox.sendErrorIfUnsent W q status message x).1 := by
  unfold Outbox.sendErrorIfUnsent
  split
  · exact .refl _
  · exact .sendError _ _ _

theorem sendUnrouted (result : Router.MatchResult) (x : Outbox × RequestContext) :
    Extends q P x.1 (Outbox.sendUnrouted W q result x).1 := by
  unfold Outbox.sendUnrouted
  split
  · exact .sends (sends_send _ _ rfl)
  · exact .sendError _ _ _

theorem runMiddlewares (ms : List Nat) : ∀ {o : Outbox} {ctx : RequestContext},
    Extends q (·.isRoute = false) o (Outbox.runMiddlewares W q ms o ctx).1.1 := by
  induction ms with
  | nil => intro o ctx; exact .refl o
  | cons m rest ih =>
    intro o ctx
    have hx : Extends q (·.isRoute = false) o (o.callUser W q (.middleware m) ctx).1 :=
      (callUser _).mono fun _ h => h ▸ rfl
    simp only [Outbox.runMiddlewares]
    split
    · exact hx
    · split
      · exact hx
      · exact hx.trans ih

theorem callHandler (h : Nat) : Extends q (· = .handler h) o (o.callHandler W q h ctx).1 := by
  unfold Outbox.callHandler
  simp only
  split
  · exact (callUser _).trans (sendErrorIfUnsent _ _ _)
  · exact callUser _

theorem dispatchRoute : Extends q (fun c => ∃ h, (dispatchResult W q ctx).handler = some h ∧
    c = .handler h) o (o.dispatchRoute W q ctx).1 := by
  unfold Outbox.dispatchRoute
  simp only
  split
  case h_1 h hh => exact (callHandler h).mono fun c hc => ⟨h, hh, hc⟩
  case h_2 => exact sendUnrouted _ (o, suppressHead ctx)

end Extends

theorem mem_callUser (call : UserCall) : (q, call) ∈ (o.callUser W q call ctx).1.calls :=
  (Extends.runActions (P := fun _ => False) _).calls_sub _
    (List.mem_append_right _ (List.mem_singleton.2 rfl))

theorem mem_callHandler (h : Nat) : (q, .handler h) ∈ (o.callHandler W q h ctx).1.calls := by
  unfold callHandler
  simp only
  split
  · exact (Extends.sendErrorIfUnsent (P := fun _ => False) _ _ _).calls_sub _ (mem_callUser _)
  · exact mem_callUser _

/-- The handler that `Dispatch` calls. -/
def dispatchHandler (W : World) (o : Outbox) (q : Nat) (ctx : RequestContext) : Option Nat :=
  let r := runMiddlewares W q W.router.middlewares o ctx
  if r.2 = .passed then (dispatchResult W q r.1.2).handler else none

theorem Extends.dispatch : Extends q (fun c => c.isRoute = true →
    ∃ h, o.dispatchHandler W q ctx = some h ∧ c = .handler h) o (o.dispatch W q ctx).1.1 := by
  have hms : Extends q (fun c => c.isRoute = true →
      ∃ h, o.dispatchHandler W q ctx = some h ∧ c = .handler h) o
      (Outbox.runMiddlewares W q W.router.middlewares o ctx).1.1 :=
    (Extends.runMiddlewares _).mono fun c hc hr => by
      rw [hc] at hr
      cases hr
  unfold Outbox.dispatch
  simp only
  split
  case h_1 hp =>
    refine hms.trans (Extends.dispatchRoute.mono ?_)
    rintro c ⟨h, hh, rfl⟩ -
    exact ⟨h, by rw [dispatchHandler, if_pos hp, hh], rfl⟩
  case h_2 => exact hms
  case h_3 => exact hms

theorem mem_dispatch {h : Nat} (hh : o.dispatchHandler W q ctx = some h) :
    (q, .handler h) ∈ (o.dispatch W q ctx).1.1.calls := by
  unfold dispatchHandler at hh
  simp only [Option.ite_none_right_eq_some] at hh
  obtain ⟨hp, hh⟩ := hh
  simp only [dispatch, hp, dispatchRoute, hh]
  exact mem_callHandler h

/-! ## Middlewares that leave the response open -/

/-- No deferred response is for the request. -/
def Undeferred (o : Outbox) (q : Nat) : Prop := ∀ d ∈ o.deferred, d.request ≠ q

/-- Nothing was sent to the request, and no response to it deferred. -/
structure Untouched (q : Nat) (o o' : Outbox) : Prop where
  sent : o'.sentTo q = o.sentTo q
  undeferred : o'.Undeferred q

theorem Untouched.trans (h : Untouched q o o') (h' : Untouched q o' o'') : Untouched q o o'' :=
  ⟨h'.sent.trans h.sent, h'.undeferred⟩

theorem Untouched.refl (h : o.Undeferred q) : Untouched q o o := ⟨rfl, h⟩

theorem sentTo_queue_of_ne {p : Nat} (h : p ≠ q) (c : HttpResponse) :
    (o.queue W p c).sentTo q = o.sentTo q := by
  simp [sentTo, queue, List.countP_append, h]

theorem Undeferred.set {d : Nat} {x x' : DeferredResponse} (hd : o.Undeferred q)
    (hx : o.deferred[d]? = some x) (hr : x'.request = x.request) :
    ∀ y ∈ o.deferred.set d x', y.request ≠ q := by
  intro y hy
  rcases List.mem_or_eq_of_mem_set hy with hy | rfl
  · exact hd y hy
  · rw [hr]
    exact hd x (List.mem_of_getElem? hx)

theorem Untouched.used {d : Nat} (hd : o.Undeferred q) (hu : Used W o d o') : Untouched q o o' := by
  cases hu with
  | nothing => exact .refl hd
  | kept n h hq => exact ⟨rfl, hd.set h hq⟩
  | @queued p r x c n h _ hq =>
    refine ⟨?_, hd.set h hq⟩
    exact sentTo_queue_of_ne (W := W) (hd _ (List.mem_of_getElem? h)) c

/-- A response that is open afterwards was not sent. -/
theorem Sends.of_open {r : LiveResponse} {x : Outbox × LiveResponse} (hs : Sends W o q r x)
    (ho : x.2.state = .kOpen) : r.state = .kOpen ∧ x.1 = o := by
  cases hs with
  | kept hr => exact ⟨hr.symm.trans ho, rfl⟩
  | queued c _ hr =>
    rw [hr] at ho
    cases ho

theorem open_of_act {a : Action} (ho : (o.act W q ctx a).2.response.state = .kOpen) :
    ctx.response.state = .kOpen := by
  cases a with
  | send => exact ((sends_send o q rfl).of_open ho).1
  | sendFile file contentType => exact ((sends_sendFile o q _ file contentType).of_open ho).1
  | defer => exact (LiveResponse.state_markDeferred _ ho).elim
  | _ => exact ho

theorem Untouched.act {a : Action} (hd : o.Undeferred q)
    (ho : (o.act W q ctx a).2.response.state = .kOpen) : Untouched q o (o.act W q ctx a).1 := by
  cases a with
  | setRequest request => exact .refl hd
  | edit content => exact .refl hd
  | send =>
    have he := ((sends_send o q rfl).of_open ho).2
    show Untouched q o (o.send W q ctx.response).1
    rw [he]
    exact .refl hd
  | sendFile file contentType =>
    have he := ((sends_sendFile o q _ file contentType).of_open ho).2
    show Untouched q o (o.sendFile W q ctx.response file contentType).1
    rw [he]
    exact .refl hd
  | defer => exact (LiveResponse.state_markDeferred _ ho).elim
  | later d use => exact .used hd (used_useDeferred use)
  | disconnect => exact ⟨rfl, hd⟩

theorem open_of_runActions {actions : List Action} : ∀ {o : Outbox} {ctx : RequestContext},
    (o.runActions W q actions ctx).2.response.state = .kOpen → ctx.response.state = .kOpen := by
  induction actions with
  | nil => intro o ctx ho; exact ho
  | cons a rest ih => intro o ctx ho; exact open_of_act (ih ho)

theorem Untouched.runActions {actions : List Action} : ∀ {o : Outbox} {ctx : RequestContext},
    o.Undeferred q → (o.runActions W q actions ctx).2.response.state = .kOpen →
    Untouched q o (o.runActions W q actions ctx).1 := by
  induction actions with
  | nil => intro o ctx hd _; exact .refl hd
  | cons a rest ih =>
    intro o ctx hd ho
    have ha := Untouched.act hd (open_of_runActions ho)
    exact ha.trans (ih ha.undeferred ho)

theorem Untouched.callUser {call : UserCall} (hd : o.Undeferred q)
    (ho : (o.callUser W q call ctx).2.response.state = .kOpen) :
    Untouched q o (o.callUser W q call ctx).1 := by
  have h := Untouched.runActions (o := o.recordCall q call) hd ho
  exact ⟨h.sent, h.undeferred⟩

theorem open_of_runMiddlewares {ms : List Nat} : ∀ {o : Outbox} {ctx : RequestContext},
    (runMiddlewares W q ms o ctx).1.2.response.state = .kOpen → ctx.response.state = .kOpen := by
  induction ms with
  | nil => intro o ctx ho; exact ho
  | cons m rest ih =>
    intro o ctx ho
    simp only [runMiddlewares] at ho
    split at ho
    · exact open_of_runActions ho
    · split at ho
      · exact open_of_runActions ho
      · exact open_of_runActions (ih ho)

/-- Middlewares that leave the response open sent none. -/
theorem Untouched.runMiddlewares {ms : List Nat} : ∀ {o : Outbox} {ctx : RequestContext},
    o.Undeferred q → (Outbox.runMiddlewares W q ms o ctx).1.2.response.state = .kOpen →
    Untouched q o (Outbox.runMiddlewares W q ms o ctx).1.1 := by
  induction ms with
  | nil => intro o ctx hd _; exact .refl hd
  | cons m rest ih =>
    intro o ctx hd ho
    simp only [Outbox.runMiddlewares] at ho ⊢
    split at ho
    case isTrue hthrew =>
      rw [if_pos hthrew]
      exact .callUser hd ho
    case isFalse hthrew =>
      rw [if_neg hthrew]
      split at ho
      case isTrue hsent =>
        rw [if_pos hsent]
        exact .callUser hd ho
      case isFalse hsent =>
        rw [if_neg hsent]
        have hx := Untouched.callUser hd (open_of_runMiddlewares ho)
        exact hx.trans (ih hx.undeferred ho)

theorem not_sent_of_passed {ms : List Nat} : ∀ {o : Outbox} {ctx : RequestContext},
    (runMiddlewares W q ms o ctx).2 = .passed → ctx.response.isSent = false →
    (runMiddlewares W q ms o ctx).1.2.response.isSent = false := by
  induction ms with
  | nil => intro o ctx _ hs; exact hs
  | cons m rest ih =>
    intro o ctx hp hs
    simp only [runMiddlewares] at hp ⊢
    split at hp
    case isTrue => cases hp
    case isFalse hthrew =>
      rw [if_neg hthrew]
      split at hp
      case isTrue => cases hp
      case isFalse hsent =>
        rw [if_neg hsent]
        exact ih hp (by simpa using hsent)

end Outbox

namespace HttpExchange

open Outbox (Extends)

variable {L : Llhttp} {W : World} {s s' : HttpExchange L}

/-- Running the middlewares in order on the request makes one of them send a
response. -/
def middlewaresRespond (W : World) (s : HttpExchange L) (request : HttpRequest) : Bool :=
  let r := Outbox.runMiddlewares W s.served W.router.middlewares s.outbox (newContext request [])
  s.outbox.sentTo s.served < r.1.1.sentTo s.served

/-- The middlewares respond to the request whose headers are complete, for a
stream route, or which is complete. -/
def refuses (W : World) (s : HttpExchange L) : ExchangeInput → Bool
  | .llhttp (.headersComplete method keepAlive) =>
    (s.streamRoute W (s.headRequest method keepAlive)).isSome &&
      s.middlewaresRespond W (s.headRequest method keepAlive)
  | .llhttp .messageComplete =>
    s.activeStream.isNone && s.middlewaresRespond W s.parser.request
  | _ => false

/-- What the observer notes at a step. -/
def noted (W : World) (s : HttpExchange L) (i : ExchangeInput) : List Nat :=
  if s.refuses W i then [s.served] else []

/-- A step, and the requests the middlewares respond to. -/
def watch (W : World) (x : HttpExchange L × List Nat) (i : ExchangeInput) :
    Option (HttpExchange L × List Nat) :=
  (step W x.1 i).map fun s => (s, x.2 ++ x.1.noted W i)

/-- No callback of a route runs for a request the middlewares respond to. -/
def Guarded (x : HttpExchange L × List Nat) : Prop :=
  ∀ c ∈ x.1.outbox.calls, c.1 ∈ x.2 → c.2.isRoute = false

/-- The callback of a route that a callback of llhttp reaches. -/
def routeCall (W : World) (s : HttpExchange L) : LlCall → Option UserCall
  | .headersComplete method keepAlive =>
    ((s.streamRoute W (s.headRequest method keepAlive)).bind (·.onHeaders)).map .onHeaders
  | .body data =>
    if s.parser.streams data then
      (s.activeStream.bind (·.handler.onBody)).map (.onBody · data)
    else none
  | .messageComplete =>
    match s.activeStream with
    | some a => (onComplete a).map .onComplete
    | none =>
      (s.outbox.dispatchHandler W s.served (newContext s.parser.request [])).map .handler
  | _ => none

/-- The callback is reached on a way where no middleware stops the request: it
belongs to a stream route, or a middleware has deferred the response. -/
def unguarded (W : World) (s : HttpExchange L) : LlCall → Bool
  | .messageComplete =>
    s.activeStream.isSome ||
      (Outbox.runMiddlewares W s.served W.router.middlewares s.outbox
        (newContext s.parser.request [])).1.2.response.isDeferred
  | _ => true

/-- A callback that is reached that way is for a request the middlewares let
through. -/
def LetThrough (W : World) (x : HttpExchange L × List Nat) : ExchangeInput → Prop
  | .llhttp c => (x.1.routeCall W c).isSome = true → x.1.unguarded W c = true →
    x.1.served ∉ x.2 ∧ x.1.refuses W (.llhttp c) = false
  | _ => True

/-! ## What a callback of llhttp leaves behind -/

theorem isRoute_routeCall {c : LlCall} {call : UserCall} (h : s.routeCall W c = some call) :
    call.isRoute = true := by
  cases c with
  | headersComplete method keepAlive =>
    obtain ⟨k, -, rfl⟩ := Option.map_eq_some_iff.1 h
    rfl
  | body data =>
    obtain ⟨-, h⟩ := Option.ite_none_right_eq_some.1 h
    obtain ⟨k, -, rfl⟩ := Option.map_eq_some_iff.1 h
    rfl
  | messageComplete =>
    simp only [routeCall] at h
    split at h <;> obtain ⟨k, -, rfl⟩ := Option.map_eq_some_iff.1 h <;> rfl
  | _ => cases h

/-- `o'` is reached from `o` by calls of which the only one of a route is `call?`. -/
structure Reaches (q : Nat) (call? : Option UserCall) (o o' : Outbox) : Prop where
  ext : Extends q (fun c => c.isRoute = true → call? = some c) o o'
  called : ∀ c, call? = some c → (q, c) ∈ o'.calls

theorem Reaches.none {q : Nat} {o o' : Outbox} (h : Extends q (·.isRoute = false) o o') :
    Reaches q Option.none o o' := by
  refine ⟨h.mono fun c hc hr => ?_, nofun⟩
  rw [hc] at hr
  cases hr

theorem Reaches.callUser {q : Nat} {o o' : Outbox} {ctx : RequestContext} {call : UserCall}
    (h : Extends q (fun _ => False) (o.callUser W q call ctx).1 o') :
    Reaches q (some call) o o' := by
  refine ⟨?_, ?_⟩
  · exact ((Extends.callUser call).trans (h.mono fun _ hf => hf.elim)).mono fun c hc _ => by rw [hc]
  · rintro c hc
    cases hc
    exact h.calls_sub _ (Outbox.mem_callUser call)

theorem Reaches.refl {q : Nat} (o : Outbox) : Reaches q Option.none o o := .none (.refl o)

theorem reaches_prepareRequestBody (s : HttpExchange L) (request : HttpRequest) :
    Reaches s.served (((s.streamRoute W request).bind (·.onHeaders)).map .onHeaders) s.outbox
      (s.prepareRequestBody W request).1.outbox := by
  unfold prepareRequestBody streamRoute
  simp only
  split
  case h_1 hr =>
    rw [hr]
    exact .refl _
  case h_2 handler hr =>
    rw [hr]
    split
    case h_1 hk =>
      simp only [Option.bind_some, hk, Option.map_none]
      exact .refl _
    case h_2 k hk =>
      simp only [Option.bind_some, hk, Option.map_some]
      split
      · exact .callUser (.refl _)
      · exact .callUser (.sendErrorIfUnsent _ _ _)
      · exact .callUser (.sendError _ _ _)

theorem reaches_handleBodyChunk (s : HttpExchange L) (request : HttpRequest) (chunk : Bytes) :
    Reaches s.served ((s.activeStream.bind (·.handler.onBody)).map (.onBody · chunk)) s.outbox
      (s.handleBodyChunk W request chunk).1.outbox := by
  unfold handleBodyChunk
  split
  case h_1 hr =>
    rw [hr]
    exact .refl _
  case h_2 a hr =>
    rw [hr]
    split
    case h_1 hk =>
      simp only [Option.bind_some, hk, Option.map_none]
      exact .refl _
    case h_2 k hk =>
      simp only [Option.bind_some, hk, Option.map_some]
      split
      · exact .callUser (.refl _)
      · exact .callUser (.sendErrorIfUnsent _ _ _)
      · exact .callUser (.sendErrorIfUnsent _ _ _)

theorem extends_sendIfOpen {q : Nat} {P : UserCall → Prop} (x : Outbox × RequestContext) :
    Extends q P x.1 (sendIfOpen W q x).1 := by
  unfold sendIfOpen
  split
  · exact .refl _
  · exact .sends (Outbox.sends_send _ _ rfl)

theorem reaches_callOnComplete (o : Outbox) (q : Nat) (a : StreamingRequest)
    (request : HttpRequest) :
    Reaches q ((onComplete a).map .onComplete) o (callOnComplete W o q a request).1 := by
  unfold callOnComplete
  split
  case h_1 hk =>
    rw [hk]
    exact .refl _
  case h_2 k hk =>
    rw [hk]
    simp only
    split
    · exact .callUser (.sendErrorIfUnsent _ _ _)
    · exact .callUser (.refl _)

theorem Reaches.trans {q : Nat} {call? : Option UserCall} {o o' o'' : Outbox}
    (h : Reaches q call? o o') (h' : ∀ {P}, Extends q P o' o'') : Reaches q call? o o'' :=
  ⟨h.ext.trans h', fun c hc => (h' (P := fun _ => False)).calls_sub _ (h.called c hc)⟩

theorem reaches_dispatch (o : Outbox) (q : Nat) (ctx : RequestContext) :
    Reaches q ((o.dispatchHandler W q ctx).map .handler) o (o.dispatch W q ctx).1.1 := by
  refine ⟨Extends.dispatch.mono ?_, ?_⟩
  · intro c hc hr
    obtain ⟨h, hh, rfl⟩ := hc hr
    rw [hh]
    rfl
  · intro c hc
    obtain ⟨h, hh, rfl⟩ := Option.map_eq_some_iff.1 hc
    exact Outbox.mem_dispatch hh

theorem reaches_completes (hc : Completes W s s.parser.request s') :
    Reaches s.served (s.routeCall W .messageComplete) s.outbox s'.outbox := by
  unfold routeCall
  cases hc with
  | stream close ha =>
    rw [ha]
    exact (reaches_callOnComplete _ _ _ _).trans (extends_sendIfOpen _)
  | dispatched close hnone =>
    rw [hnone]
    exact (reaches_dispatch _ _ _).trans (extends_sendIfOpen _)
  | threw hnone =>
    rw [hnone]
    exact reaches_dispatch _ _ _

theorem reaches_handle (s : HttpExchange L) (c : LlCall) :
    Reaches s.served (s.routeCall W c) s.outbox (s.handle W c).outbox := by
  cases c with
  | headersComplete method keepAlive => exact reaches_prepareRequestBody s _
  | body data =>
    simp only [handle, routeCall]
    split
    · exact reaches_handleBodyChunk s _ _
    · exact .refl _
  | messageComplete => exact reaches_completes (completes_handleRequest _ _)
  | _ => exact .refl _

theorem extends_abort (s : HttpExchange L) :
    Extends s.served (·.isRoute = false) s.outbox (s.abortStreamingRequest W).outbox := by
  unfold abortStreamingRequest
  split
  · exact .refl _
  · split
    · exact .refl _
    · exact (Extends.callUser _).mono fun _ h => h ▸ rfl

theorem extends_refuse (s : HttpExchange L) (r : HttpResponse) :
    Extends s.served (·.isRoute = false) s.outbox (s.refuse W r).outbox :=
  (extends_abort s).trans (.of_eq rfl rfl)

theorem extends_failParse (s : HttpExchange L) :
    Extends s.served (·.isRoute = false) s.outbox (s.failParse W).outbox := by
  unfold failParse
  split
  · exact (extends_abort s).trans (.of_eq rfl rfl)
  · exact extends_refuse s _

/-! ## The invariant -/

/-- The request has met no callback of a route, no middleware and no deferral. -/
structure Fresh (o : Outbox) (refused : List Nat) (q : Nat) : Prop where
  calls : ∀ c ∈ o.calls, c.1 = q → c.2.isRoute = false
  refused : q ∉ refused
  undeferred : o.Undeferred q

/-- What the observer and the outbox hold is about requests up to `q`, and
guarded. -/
structure Ledger (o : Outbox) (refused : List Nat) (q : Nat) : Prop where
  guarded : ∀ c ∈ o.calls, c.1 ∈ refused → c.2.isRoute = false
  calls_le : ∀ c ∈ o.calls, c.1 ≤ q
  refused_le : ∀ p ∈ refused, p ≤ q
  deferred_le : ∀ d ∈ o.deferred, d.request ≤ q

variable {o o' : Outbox} {refused : List Nat} {q : Nat} {P : UserCall → Prop}

theorem Ledger.extends (h : Ledger o refused q) (he : Extends q P o o') (more : List Nat)
    (hmore : ∀ p ∈ more, p = q) (hold : ∀ c ∈ o.calls, c.1 ∈ more → c.2.isRoute = false)
    (hnew : ∀ c, P c → c.isRoute = true → q ∉ refused ++ more) :
    Ledger o' (refused ++ more) q := by
  refine ⟨fun c hc hm => ?_, fun c hc => ?_, fun p hp => ?_, fun d hd => ?_⟩
  · rcases he.calls_new c hc with hc | ⟨hq, hP⟩
    · rcases List.mem_append.1 hm with hm | hm
      · exact h.guarded c hc hm
      · exact hold c hc hm
    · cases hr : c.2.isRoute with
      | false => rfl
      | true => exact (hnew c.2 hP hr (hq ▸ hm)).elim
  · rcases he.calls_new c hc with hc | ⟨hq, -⟩
    · exact h.calls_le c hc
    · exact Nat.le_of_eq hq
  · rcases List.mem_append.1 hp with hp | hp
    · exact h.refused_le p hp
    · exact Nat.le_of_eq (hmore p hp)
  · rcases he.deferred_new d hd with hd | ⟨d', hd', hr⟩
    · exact Nat.le_of_eq hd
    · rw [← hr]
      exact h.deferred_le d' hd'

/-- Calls of no route are always fine. -/
theorem Ledger.quiet (h : Ledger o refused q) (he : Extends q (·.isRoute = false) o o') :
    Ledger o' refused q := by
  have := h.extends he [] nofun nofun fun c hc hr => by
    rw [hc] at hr
    cases hr
  rwa [List.append_nil] at this

theorem Ledger.next (h : Ledger o refused q) : Ledger o refused (q + 1) :=
  ⟨h.guarded, fun c hc => (h.calls_le c hc).trans (Nat.le_succ q),
    fun p hp => (h.refused_le p hp).trans (Nat.le_succ q),
    fun d hd => (h.deferred_le d hd).trans (Nat.le_succ q)⟩

theorem Ledger.fresh (h : Ledger o refused q) : Fresh o refused (q + 1) := by
  refine ⟨fun c hc hq => ?_, fun hq => ?_, fun d hd hq => ?_⟩
  · have := h.calls_le c hc
    omega
  · have := h.refused_le _ hq
    omega
  · have := h.deferred_le d hd
    omega

/-- While llhttp runs, a request without a stream is fresh. -/
structure Watched (x : HttpExchange L × List Nat) : Prop where
  ledger : Ledger x.1.outbox x.2 x.1.served
  fresh : x.1.phase ≠ .over → x.1.activeStream = none → Fresh x.1.outbox x.2 x.1.served
  streaming : x.1.Streaming

theorem Watched.guarded {x : HttpExchange L × List Nat} (h : Watched x) : Guarded x :=
  h.ledger.guarded

theorem Watched.init (options : HttpParserOptions) :
    Watched ((make L options, []) : HttpExchange L × List Nat) :=
  ⟨⟨nofun, nofun, nofun, nofun⟩, fun _ _ => ⟨nofun, nofun, nofun⟩, fun h => (h rfl).elim⟩

theorem mem_noted {i : ExchangeInput} {p : Nat} :
    p ∈ s.noted W i ↔ p = s.served ∧ s.refuses W i = true := by
  unfold noted
  split <;> simp_all

/-! ## Steps -/

theorem served_prepareRequestBody (s : HttpExchange L) (request : HttpRequest) :
    (s.prepareRequestBody W request).1.served = s.served := by
  unfold prepareRequestBody
  simp only
  split
  · rfl
  · split
    · rfl
    · split <;> rfl

theorem served_handleBodyChunk (s : HttpExchange L) (request : HttpRequest) (chunk : Bytes) :
    (s.handleBodyChunk W request chunk).1.served = s.served := by
  unfold handleBodyChunk
  split
  · rfl
  · split
    · rfl
    · simp only
      split <;> rfl

theorem served_handle {c : LlCall} (hc : c ≠ .messageComplete) :
    (s.handle W c).served = s.served := by
  cases c with
  | headersComplete method keepAlive => exact served_prepareRequestBody _ _
  | body data =>
    simp only [handle]
    split
    · exact served_handleBodyChunk _ _ _
    · rfl
  | messageComplete => exact (hc rfl).elim
  | _ => rfl

/-- A handler that leaves no stream, before the request is complete, did nothing. -/
theorem handle_idle {c : LlCall} (hc : c ≠ .messageComplete)
    (hnone : (s.handle W c).activeStream = none) :
    s.handle W c = s ∧ s.refuses W (.llhttp c) = false := by
  cases c with
  | headersComplete method keepAlive =>
    simp only [handle, prepareRequestBody, refuses, streamRoute] at hnone ⊢
    split at hnone
    case h_1 hr =>
      rw [hr]
      exact ⟨rfl, rfl⟩
    case h_2 =>
      split at hnone
      · cases hnone
      · split at hnone <;> cases hnone
  | body data =>
    refine ⟨?_, rfl⟩
    simp only [handle, handleBodyChunk] at hnone ⊢
    split
    case isFalse => rfl
    case isTrue hst =>
      rw [if_pos hst] at hnone
      split
      case h_1 => rfl
      case h_2 a ha =>
        simp only [ha] at hnone
        split
        case h_1 => rfl
        case h_2 k hk =>
          simp only [hk] at hnone
          split at hnone <;> cases hnone
  | messageComplete => exact (hc rfl).elim
  | _ => exact ⟨rfl, rfl⟩

/-- A request that the middlewares respond to has no stream yet. -/
theorem none_of_refuses {c : LlCall} {phase : MessagePhase} (hs : s.Streaming)
    (hp : s.phase.next c = some phase) (hr : s.refuses W (.llhttp c) = true) :
    s.activeStream = none := by
  cases c with
  | headersComplete method keepAlive => exact hs.none_of_headersComplete hp
  | messageComplete =>
    simp only [refuses, Bool.and_eq_true] at hr
    simpa using hr.1
  | _ => cases hr

/-- Behind middlewares that leave the response open, a handler of `Dispatch` is
for a request they did not respond to. -/
theorem not_refuses_of_open (hnone : s.activeStream = none) (hd : s.outbox.Undeferred s.served)
    (hcall : (s.routeCall W .messageComplete).isSome = true)
    (hg : ¬ s.unguarded W .messageComplete = true) :
    s.refuses W (.llhttp .messageComplete) = false := by
  have hdeferred : (Outbox.runMiddlewares W s.served W.router.middlewares s.outbox
      (newContext s.parser.request [])).1.2.response.isDeferred = false := by
    simpa [unguarded, hnone] using hg
  have hpassed : (Outbox.runMiddlewares W s.served W.router.middlewares s.outbox
      (newContext s.parser.request [])).2 = .passed := by
    by_contra hp
    simp [routeCall, hnone, Outbox.dispatchHandler, hp] at hcall
  have hsent := Outbox.not_sent_of_passed hpassed rfl
  have hopen : (Outbox.runMiddlewares W s.served W.router.middlewares s.outbox
      (newContext s.parser.request [])).1.2.response.state = .kOpen := by
    revert hdeferred hsent
    unfold LiveResponse.isDeferred LiveResponse.isSent
    cases (Outbox.runMiddlewares W s.served W.router.middlewares s.outbox
      (newContext s.parser.request [])).1.2.response.state <;> simp
  have hsame := (Outbox.Untouched.runMiddlewares hd hopen).sent
  simp [refuses, middlewaresRespond, hsame]

theorem Ledger.handle {c : LlCall} {phase : MessagePhase} (h : Watched (s, refused))
    (hp : s.phase.next c = some phase) (hq : LetThrough W (s, refused) (.llhttp c)) :
    Ledger (s.handle W c).outbox (refused ++ s.noted W (.llhttp c)) s.served := by
  have hne := MessagePhase.next_ne_over hp
  refine h.ledger.extends (reaches_handle s c).ext _ (fun p hm => (mem_noted.1 hm).1) ?_ ?_
  · intro c' hc' hm
    obtain ⟨hc1, hr⟩ := mem_noted.1 hm
    exact (h.fresh hne (none_of_refuses h.streaming hp hr)).calls c' hc' hc1
  · intro call hcall hr
    have hsome : (s.routeCall W c).isSome = true := by rw [hcall hr]; rfl
    have hthrough : s.served ∉ refused ∧ s.refuses W (.llhttp c) = false := by
      by_cases hg : s.unguarded W c = true
      · exact hq hsome hg
      · cases c with
        | messageComplete =>
          have hnone : s.activeStream = none := by
            by_contra ha
            exact hg (by simp [unguarded, Option.isSome_iff_ne_none.2 ha])
          have hf := h.fresh hne hnone
          exact ⟨hf.refused, not_refuses_of_open hnone hf.undeferred hsome hg⟩
        | _ => exact (hg rfl).elim
    rw [List.mem_append, mem_noted, hthrough.2]
    simpa using hthrough.1

theorem Watched.handle {c : LlCall} {phase : MessagePhase} (h : Watched (s, refused))
    (hp : s.phase.next c = some phase) (hq : LetThrough W (s, refused) (.llhttp c)) :
    Ledger (s.handle W c).outbox (refused ++ s.noted W (.llhttp c)) (s.handle W c).served ∧
      ((s.handle W c).activeStream = none →
        Fresh (s.handle W c).outbox (refused ++ s.noted W (.llhttp c)) (s.handle W c).served) := by
  have hl := Ledger.handle h hp hq
  by_cases hc : c = .messageComplete
  · subst hc
    have hserved : (s.handle W .messageComplete).served = s.served + 1 :=
      (completes_handleRequest _ _).served
    rw [hserved]
    exact ⟨hl.next, fun _ => hl.fresh⟩
  · rw [served_handle hc]
    refine ⟨hl, fun hnone => ?_⟩
    obtain ⟨hidle, hr⟩ := handle_idle hc hnone
    have hnoted : s.noted W (.llhttp c) = [] := by simp [noted, hr]
    rw [hidle] at hnone ⊢
    rw [hnoted, List.append_nil]
    exact h.fresh (MessagePhase.next_ne_over hp) hnone

/-- A step that reaches no callback of a route, in a request that goes on or is
given up. -/
theorem Watched.quiet {o' : Outbox} (h : Watched (s, refused))
    (he : Extends s.served (·.isRoute = false) s.outbox o')
    (hd : s.phase ≠ .over → s.activeStream = none → o'.Undeferred s.served) :
    Ledger o' refused s.served ∧
      (s.phase ≠ .over → s.activeStream = none → Fresh o' refused s.served) := by
  refine ⟨h.ledger.quiet he, fun hp hnone => ?_⟩
  have hf := h.fresh hp hnone
  refine ⟨fun c hc hq => ?_, hf.refused, hd hp hnone⟩
  rcases he.calls_new c hc with hc | ⟨-, hr⟩
  · exact hf.calls c hc hq
  · exact hr

theorem Watched.over {o' : Outbox} {l : List Nat} {q : Nat} (h : Ledger o' l q)
    (ho : s'.outbox = o') (hq : s'.served = q) (hp : s'.phase = .over) (hs : s'.Streaming) :
    Watched (s', l) := by
  subst ho hq
  exact ⟨h, fun hne => (hne hp).elim, hs⟩

theorem watched_step (x : HttpExchange L × List Nat) (i : ExchangeInput)
    (x' : HttpExchange L × List Nat) (h : Watched x) (hw : watch W x i = some x')
    (hq : LetThrough W x i) : Watched x' := by
  obtain ⟨s, refused⟩ := x
  obtain ⟨s', hs, rfl⟩ := Option.map_eq_some_iff.1 hw
  have hstream := h.streaming.step hs
  have unnoted : s.noted W i = [] → Watched (s', refused) →
      Watched (s', refused ++ s.noted W i) := by
    intro hn h'
    rwa [hn, List.append_nil]
  cases step_cases hs with
  | clock now _ _ hi =>
    refine unnoted (by rcases hi with rfl | rfl <;> rfl) ?_
    exact ⟨h.ledger, h.fresh, hstream⟩
  | expire now hi =>
    refine unnoted (by rcases hi with rfl | rfl <;> rfl) ?_
    exact .over (h.ledger.quiet (extends_refuse s _)) rfl (served_abort s) rfl hstream
  | callback hp =>
    obtain ⟨hl, hf⟩ := h.handle hp hq
    exact ⟨hl, fun _ => hf, hstream⟩
  | @fail c phase hp hu =>
    obtain ⟨hl, -⟩ := h.handle hp hq
    exact .over (Ledger.quiet (q := (s.afterCallback W c).served) hl (extends_failParse _)) rfl
      (served_failParse _) (phase_failParse _) hstream
  | error =>
    refine unnoted rfl (.over (q := s.served) ?_ rfl (served_failParse _) (phase_failParse _) hstream)
    exact h.ledger.quiet (extends_failParse (W := W) { s with parser := s.parser.badRequest })
  | deferred d use =>
    have hu := Outbox.used_useDeferred (W := W) (o := s.outbox) (d := d) use
    obtain ⟨hl, hf⟩ := h.quiet (.used hu) fun hp hnone =>
      (Outbox.Untouched.used (h.fresh hp hnone).undeferred hu).undeferred
    exact unnoted rfl ⟨hl, hf, hstream⟩
  | disconnect =>
    have he : Extends s.served (·.isRoute = false) s.outbox s.outbox.disconnect := .of_eq rfl rfl
    obtain ⟨hl, hf⟩ := h.quiet he fun hp hnone => (h.fresh hp hnone).undeferred
    exact unnoted rfl ⟨hl, hf, hstream⟩
  | disconnected =>
    refine unnoted rfl ?_
    exact .over (h.ledger.quiet (extends_abort s)) rfl (served_abort s) rfl hstream

/-- A callback of a route that is reached past the middlewares, for a request
they respond to. -/
theorem not_guarded_step (x : HttpExchange L × List Nat) (i : ExchangeInput)
    (x' : HttpExchange L × List Nat) (hw : watch W x i = some x') (hq : ¬ LetThrough W x i) :
    ¬ Guarded x' := by
  obtain ⟨s, refused⟩ := x
  obtain ⟨s', hs, rfl⟩ := Option.map_eq_some_iff.1 hw
  cases i with
  | llhttp c =>
    simp only [LetThrough, Classical.not_imp] at hq
    obtain ⟨hsome, hg, hr⟩ := hq
    obtain ⟨call, hcall⟩ := Option.isSome_iff_exists.1 hsome
    have hmem : s.served ∈ refused ++ s.noted W (.llhttp c) := by
      rw [List.mem_append, mem_noted]
      by_contra hn
      rw [not_or] at hn
      exact hr ⟨hn.1, by simpa using hn.2⟩
    have hcalled : (s.served, call) ∈ s'.outbox.calls := by
      have hh := (reaches_handle (W := W) s c).called call hcall
      cases step_cases hs with
      | clock _ _ _ hi => rcases hi with hi | hi <;> cases hi
      | expire _ hi => rcases hi with hi | hi <;> cases hi
      | callback => exact hh
      | fail => exact (extends_failParse (W := W) (s.afterCallback W c)).calls_sub _ hh
    intro hguard
    have := hguard _ hcalled hmem
    rw [isRoute_routeCall hcall] at this
    cases this
  | _ => exact (hq trivial).elim

/-- **Middlewares guard routes** exactly where `Dispatch` runs them: over a whole
run no callback of a route is called for a request to which the middlewares
respond, if and only if every callback of a stream route, and every handler
behind a middleware that deferred the response, is called for a request they let
through. -/
theorem middlewares_guard_routes (W : World) (options : HttpParserOptions)
    (is : List ExchangeInput) :
    Trace.Visits (watch W) Guarded ((make L options, []) : HttpExchange L × List Nat) is ↔
      Trace.Steps (watch W) (LetThrough W) (make L options, []) is :=
  Trace.visits_iff_steps (fun _ h => h.guarded) watched_step
    (fun x i x' _ => not_guarded_step x i x') is (.init options)

/-! ## A stream route behind a middleware -/

/-- The middleware answers every request with 401; `/` has a stream route. -/
def closedRoute : World where
  router := (({} : Router).use 0).routeStream .post [47] { onHeaders := some 1 }
  user
    | _, .middleware _, _ => ⟨[.edit { status := .kUnauthorized }, .send], .returned true⟩
    | _, _, _ => {}

/-- `on_headers` of the stream route runs, and no middleware does. -/
theorem stream_route_unguarded :
    ∃ x, Trace.run (watch closedRoute) (make HttpRecv.closingLlhttp {}, [])
        [.recv 0, .llhttp .messageBegin, .llhttp (.url [47]), .llhttp .urlComplete,
          .llhttp (.headersComplete 3 true)] = some x ∧
      x.2 = [0] ∧ x.1.outbox.calls = [(0, .onHeaders 1)] ∧ ¬ Guarded x := by
  refine ⟨_, rfl, rfl, rfl, fun h => ?_⟩
  have := h (0, .onHeaders 1) List.mem_cons_self List.mem_cons_self
  cases this

end HttpExchange

end IouringRuntime
