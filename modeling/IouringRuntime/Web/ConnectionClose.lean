import IouringRuntime.Web.CloseAfterFlush
import IouringRuntime.Web.UserCode

/-!
# Connection: close

The header `Connection: close` is written from the response, the decision to
close is taken from the request. `HandleRequest` copies the request's flag into
the response, but a handler can change the response alone (`KeepAlive`,
`SendFile`), and the session then goes on with the next request. A deferred
response always says close; `DeferResponse` changes the request with it, but
the end of a stream request returns before it looks at the request.

`Consistent` is the condition on user code under which the two agree. Then the
exchange is over after such a response and closes after the flush; the session
behind it is that of `CloseAfterFlush`.
-/

namespace IouringRuntime

/-- `SerializeHeaders` writes the header `Connection: close`. -/
def HttpResponse.saysClose (r : HttpResponse) : Bool := !r.callerHas "Connection" && !r.keepAlive

theorem HttpResponse.Restated.saysClose {r r' : HttpResponse} (h : Restated r r') :
    r'.saysClose = r.saysClose := by
  have hc : r'.callerHas "Connection" = r.callerHas "Connection" := by
    rcases h.headers with hh | ⟨value, hh⟩
    · simp only [callerHas, hh]
    · have hne : headerNameEquals (ascii "Allow") (ascii "Connection") = false := by decide
      simp only [callerHas, hh, List.any_append, List.any_cons, List.any_nil, hne, Bool.or_false]
  rw [HttpResponse.saysClose, HttpResponse.saysClose, hc, h.keepAlive]

/-- A callback of a stream route that can answer the request. -/
def UserCall.isStream : UserCall → Bool
  | .onHeaders _ | .onBody _ _ | .onComplete _ => true
  | .middleware _ | .handler _ | .onAbort _ => false

/-- A response is made to say close, by the handler or by `SendFile`, only when
the request says so, the request is not kept alive again, and a stream route
does not defer its response. -/
def Action.Agreed (call : UserCall) (ctx : RequestContext) : Action → Prop
  | .setRequest request => request.keepAlive = true → ctx.request.keepAlive = true
  | .edit content => content.saysClose = true → ctx.request.keepAlive = false
  | .sendFile _ _ => ctx.response.isSent = false →
      ctx.response.content.callerHas "Connection" = false → ctx.request.keepAlive = false
  | .defer => call.isStream = true → ctx.response.isSent = true
  | _ => True

namespace Outbox

variable {W : World} {o o' o₀ : Outbox} {p q : Nat} {ctx : RequestContext} {stream : Bool}

/-- A response to the request says close, or may still say so. -/
def Bound (o : Outbox) (p : Nat) : Prop :=
  (∃ x ∈ o.sends, x.request = p ∧ x.response.saysClose = true) ∨
    ∃ d ∈ o.deferred, d.request = p ∧ d.response.isSome = true

theorem bound_queue {c : HttpResponse} (h : (o.queue W q c).Bound p) :
    o.Bound p ∨ p = q ∧ c.saysClose = true := by
  rcases h with ⟨x, hx, hp, hc⟩ | h
  · rcases List.mem_append.1 hx with hx | hx
    · exact .inl (.inl ⟨x, hx, hp, hc⟩)
    · rw [List.mem_singleton.1 hx] at hp hc
      exact .inr ⟨hp.symm, hc⟩
  · exact .inl (.inr h)

theorem bound_set {d n : Nat} {r : LiveResponse} {x : DeferredResponse}
    (hd : o.deferred[d]? = some ⟨q, some r⟩) (hx : x.request = q)
    (h : ({ o with deferred := o.deferred.set d x, asyncWorkCount := n } : Outbox).Bound p) :
    o.Bound p := by
  rcases h with h | ⟨y, hy, hp, hs⟩
  · exact .inl h
  · refine .inr ?_
    rcases List.mem_or_eq_of_mem_set hy with hy | rfl
    · exact ⟨y, hy, hp, hs⟩
    · exact ⟨_, List.mem_of_getElem? hd, hx.symm.trans hp, rfl⟩

/-- A deferred response was counted before it was used. -/
theorem Used.bound {d : Nat} (hu : Used W o d o') (h : o'.Bound p) : o.Bound p := by
  cases hu with
  | nothing => exact h
  | kept n hd hx => exact bound_set hd hx h
  | @queued q r x c n hd hr hx =>
    have h' := bound_set (o := o.queue W q c) hd hx h
    refine (bound_queue h').elim id fun ⟨hp, _⟩ => ?_
    exact .inr ⟨_, List.mem_of_getElem? hd, hp.symm, rfl⟩

theorem bound_newDeferred (h : (o.newDeferred q).Bound p) : o.Bound p ∨ p = q := by
  rcases h with h | ⟨d, hd, hp, hs⟩
  · exact .inl (.inl h)
  · rcases List.mem_append.1 hd with hd | hd
    · exact .inl (.inr ⟨d, hd, hp, hs⟩)
    · rw [List.mem_singleton.1 hd] at hp
      exact .inr hp.symm

theorem Used.isOpen {d : Nat} (hu : Used W o d o') : o'.isOpen = o.isOpen := by
  cases hu <;> rfl

/-- The other requests are not bound by what is done for one, and the session is
not opened again. -/
structure Apart (o₀ : Outbox) (q : Nat) (o : Outbox) : Prop where
  others : ∀ p, p ≠ q → o.Bound p → o₀.Bound p
  isOpen : o.isOpen = true → o₀.isOpen = true

theorem Apart.refl (o : Outbox) (q : Nat) : o.Apart q o := ⟨fun _ _ h => h, id⟩

theorem Apart.queue (h : o₀.Apart q o) (c : HttpResponse) : o₀.Apart q (o.queue W q c) :=
  ⟨fun p hp hb => h.others p hp ((bound_queue hb).resolve_right fun h => hp h.1), h.isOpen⟩

theorem Apart.sends {r : LiveResponse} {x : Outbox × LiveResponse} (h : o₀.Apart q o)
    (hs : Sends W o q r x) : o₀.Apart q x.1 := by
  cases hs with
  | kept => exact h
  | queued c => exact h.queue c

theorem Apart.act (h : o₀.Apart q o) (a : Action) : o₀.Apart q (o.act W q ctx a).1 := by
  cases a with
  | setRequest request => exact h
  | edit content => exact h
  | send => exact h.sends (sends_send _ _ rfl)
  | sendFile file contentType => exact h.sends (sends_sendFile ..)
  | defer =>
    exact ⟨fun p hp hb => h.others p hp ((bound_newDeferred hb).resolve_right hp), h.isOpen⟩
  | later d use =>
    have hu : Used W o d (o.useDeferred W d use) := used_useDeferred use
    exact ⟨fun p hp hb => h.others p hp (hu.bound hb), fun ho => h.isOpen (hu.isOpen ▸ ho)⟩
  | disconnect => exact ⟨h.others, nofun⟩

/-- Whatever user code does for a request. -/
theorem kept_apart (W : World) (o₀ : Outbox) (q : Nat) :
    Kept (fun _ _ _ => True) W q (fun _ => True) fun o _ => o₀.Apart q o where
  act _ _ h := h.act _
  record _ h := ⟨h.others, h.isOpen⟩
  restate _ h := h
  send h := h.sends (sends_send _ _ rfl)
  params _ h := h

/-- The request says what its responses say. -/
structure Agrees (stream : Bool) (o₀ : Outbox) (q : Nat) (o : Outbox) (ctx : RequestContext) :
    Prop where
  apart : o₀.Apart q o
  bound : o.Bound q → ctx.request.keepAlive = false
  response : ctx.response.content.saysClose = true → ctx.request.keepAlive = false
  undeferred : stream = true → ctx.response.isDeferred = false

namespace Agrees

/-- A response is sent that says no more than the request. -/
theorem queue (h : Agrees stream o₀ q o ctx) {c : HttpResponse} {r : LiveResponse}
    (hc : c.saysClose = true → ctx.request.keepAlive = false) (hr : r.content.saysClose = true →
      ctx.request.keepAlive = false) (hs : r.state = .kSent) :
    Agrees stream o₀ q (o.queue W q c) { ctx with response := r } where
  apart := h.apart.queue c
  bound hb := (bound_queue hb).elim h.bound fun hq => hc hq.2
  response := hr
  undeferred _ := by simp [LiveResponse.isDeferred, hs]

theorem send (h : Agrees stream o₀ q o ctx) :
    Agrees stream o₀ q (o.send W q ctx.response).1
      { ctx with response := (o.send W q ctx.response).2 } := by
  unfold Outbox.send
  split
  · exact h
  · exact h.queue h.response h.response rfl

theorem restate (h : Agrees stream o₀ q o ctx) {content : HttpResponse}
    (hc : HttpResponse.Restated ctx.response.content content) :
    Agrees stream o₀ q o { ctx with response := { ctx.response with content := content } } :=
  { h with response := fun hs => h.response (hc.saysClose ▸ hs) }

theorem sendFile (h : Agrees stream o₀ q o ctx) {file : FileOpen} {contentType : Bytes}
    (ha : ctx.response.isSent = false → ctx.response.content.callerHas "Connection" = false →
      ctx.request.keepAlive = false) :
    Agrees stream o₀ q (o.sendFile W q ctx.response file contentType).1
      { ctx with response := (o.sendFile W q ctx.response file contentType).2 } := by
  unfold Outbox.sendFile
  split
  · exact h
  · next hs =>
    -- `SendFile` turns keep-alive off before it looks at the file
    have hc {c : HttpResponse} (hclose : c.saysClose = true)
        (hh : c.headers = ctx.response.content.headers) : ctx.request.keepAlive = false := by
      refine ha (by simpa using hs) ?_
      have : c.callerHas "Connection" = false := by
        simpa using (Bool.and_eq_true_iff.1 hclose).1
      rwa [HttpResponse.callerHas, hh] at this
    let r : LiveResponse :=
      { ctx.response with content := HttpSession.fileResponse ctx.response.content contentType }
    have hr : Agrees stream o₀ q o { ctx with response := r } :=
      { h with response := fun hs => hc hs rfl }
    cases file with
    | notFound =>
      have hc : r.content.Restated (r.content.error .kNotFound "Not Found") := ⟨rfl, .inl rfl⟩
      exact (hr.restate hc).send
    | openFailed | notRegular =>
      have hc : r.content.Restated
          (r.content.error .kInternalServerError "Internal Server Error") := ⟨rfl, .inl rfl⟩
      exact (hr.restate hc).send
    | regular content =>
      simp only
      split
      · exact hr
      · exact h.queue (fun hs => hc hs rfl) (fun hs => hc hs rfl) rfl

theorem act {a : Action} {call : UserCall} (h : Agrees call.isStream o₀ q o ctx)
    (ha : a.Agreed call ctx) :
    Agrees call.isStream o₀ q (o.act W q ctx a).1 (o.act W q ctx a).2 := by
  cases a with
  | setRequest request =>
    have hk : ctx.request.keepAlive = false → request.keepAlive = false := by
      intro hf
      by_contra hn
      rw [ha (by simpa using hn)] at hf
      cases hf
    exact { h with bound := fun hb => hk (h.bound hb), response := fun hs => hk (h.response hs) }
  | edit content => exact { h with response := ha }
  | send => exact h.send
  | sendFile file contentType => exact h.sendFile ha
  | defer =>
    refine ⟨h.apart.act .defer, fun _ => rfl, fun _ => rfl, fun hs => ?_⟩
    have hsent : ctx.response.state = .kSent := by
      simpa [LiveResponse.isSent] using ha hs
    simp [Outbox.act, deferResponse, LiveResponse.isDeferred, LiveResponse.markDeferred,
      LiveResponse.keepAlive, hsent]
  | later d use =>
    have hapart : o₀.Apart q (o.act W q ctx (.later d use)).1 := h.apart.act _
    exact { h with
      apart := hapart
      bound := fun hb => h.bound ((used_useDeferred use).bound hb) }
  | disconnect =>
    have hapart : o₀.Apart q (o.act W q ctx .disconnect).1 := h.apart.act _
    exact { h with apart := hapart }

theorem kept (W : World) (stream : Bool) (o₀ : Outbox) (q : Nat) :
    Kept (fun call ctx a => a.Agreed call ctx) W q (·.isStream = stream)
      (Agrees stream o₀ q) where
  act hs ha h := by
    subst hs
    exact h.act ha
  record _ h := { h with apart := ⟨h.apart.others, h.apart.isOpen⟩ }
  restate hc h := h.restate hc
  send h := h.send
  params _ h := { h with }

/-- The context of a new request. -/
theorem start {request : HttpRequest} (params : List (Bytes × StringView))
    (hb : o.Bound q → request.keepAlive = false) :
    Agrees stream o q o (HttpExchange.newContext request params) where
  apart := .refl o q
  bound := hb
  response hs := by
    have := (Bool.and_eq_true_iff.1 hs).2
    simpa [HttpExchange.newContext, LiveResponse.keepAlive] using this
  undeferred _ := rfl

end Agrees

end Outbox

namespace HttpExchange

open Outbox (Agrees Apart)

variable {L : Llhttp} {W : World} {s s' : HttpExchange L} {c : LlCall} {phase : MessagePhase}

/-! ## The invariant -/

/-- User code makes a response say close only together with its request, and no
stream route defers its response. -/
def Consistent (W : World) (s : HttpExchange L) : ExchangeInput → Prop
  | .llhttp c => s.HandleAll (fun call ctx a => a.Agreed call ctx) W c
  | _ => True

/-- No more callbacks come from llhttp, and the session is told to close or closed. -/
structure Ended (s : HttpExchange L) : Prop where
  finished : s.phase = .over
  closing : s.closeAfterFlush = true ∨ s.outbox.isOpen = false

structure CloseInv (s : HttpExchange L) : Prop where
  past : ∀ p < s.served, s.outbox.Bound p → s.terminated = false → s.Ended
  current : s.outbox.Bound s.served → s.terminated = false →
    s.Ended ∨ s.phase = .body ∧ s.parser.request.keepAlive = false
  fresh : ∀ p, s.served < p → ¬ s.outbox.Bound p
  stream : ∀ a, s.activeStream = some a → s.phase ≠ .over →
    (a.response.content.saysClose = true → s.parser.request.keepAlive = false) ∧
      a.response.isDeferred = false
  running : s.phase ≠ .over → s.parser.stopRequested = false
  streaming : s.Streaming

theorem CloseInv.init (options : HttpParserOptions) : (make L options).CloseInv := by
  have hb (p : Nat) : ¬ ({} : Outbox).Bound p := by
    rintro (⟨x, hx, -⟩ | ⟨d, hd, -⟩)
    · cases hx
    · cases hd
  exact ⟨fun p _ h => absurd h (hb p), fun h => absurd h (hb _), fun p _ => hb p,
    fun a ha => (by cases ha), fun _ => rfl, fun h => absurd rfl h⟩

/-- A session that has ended has nothing more to show. -/
theorem CloseInv.of_ended (he : s.Ended) (hf : ∀ p, s.served < p → ¬ s.outbox.Bound p) :
    s.CloseInv where
  past _ _ _ _ := he
  current _ _ := .inl he
  fresh := hf
  stream _ _ h := absurd he.finished h
  running h := absurd he.finished h
  streaming _ := .inr he.finished

/-- While llhttp calls back, no other request is bound. -/
theorem CloseInv.alone (h : s.CloseInv) (ht : s.terminated = false) (hp : s.phase ≠ .over) {p : Nat}
    (hne : p ≠ s.served) : ¬ s.outbox.Bound p := fun hb => by
  rcases Nat.lt_or_gt_of_ne hne with hlt | hgt
  · exact hp (h.past p hlt hb ht).finished
  · exact h.fresh p hgt hb

/-! ## Callbacks before the end of a message -/

/-- What a callback of llhttp does, but for the end of a message. -/
inductive Handled (W : World) (s : HttpExchange L) (c : LlCall) (phase : MessagePhase) : Prop where
  | quiet : s.handle W c = s →
      (s.phase = .body → (s.parser.callback (s.handlers W) c).1.request.keepAlive =
        s.parser.request.keepAlive) → Handled W s c phase
  | updated (a : StreamingRequest) (x : Outbox × RequestContext) :
      s.handle W c = s.updateStream a x → phase = .body →
      (s.parser.callback (s.handlers W) c).1.request = x.2.request →
      Agrees true s.outbox s.served x.1 x.2 → Handled W s c phase

theorem handled_headersComplete {method : Nat} {keepAlive : Bool} (h : s.CloseInv)
    (ht : s.terminated = false)
    (hp : s.phase.next (.headersComplete method keepAlive) = some phase)
    (hq : s.Consistent W (.llhttp (.headersComplete method keepAlive))) :
    Handled W s (.headersComplete method keepAlive) phase := by
  obtain ⟨hhead, rfl⟩ := MessagePhase.next_headersComplete hp
  have hb : ¬ s.outbox.Bound s.served := fun hb => by
    rcases h.current hb ht with he | he
    · rw [he.finished] at hhead
      cases hhead
    · rw [he.1] at hhead
      cases hhead
  have hreq : (s.parser.callback (s.handlers W) (.headersComplete method keepAlive)).1.request =
      (s.prepareRequestBody W (s.headRequest method keepAlive)).2.1 := by
    simp only [HttpParser.callback, HttpParser.onHeadersComplete]
    split <;> rfl
  rcases kept_prepareRequestBody (Agrees.kept W true s.outbox s.served) (fun _ => rfl) hq
    (fun params => .start params fun h => absurd h hb) with he | ⟨a, x, mode, he, hx⟩
  · refine .quiet (congrArg Prod.fst he) fun hbody => ?_
    rw [hhead] at hbody
    cases hbody
  · exact .updated a x (congrArg Prod.fst he) rfl
      (hreq.trans (congrArg (fun r => r.2.1) he)) hx

theorem handled_body {data : Bytes} (h : s.CloseInv) (hp : s.phase.next (.body data) = some phase)
    (hq : s.Consistent W (.llhttp (.body data))) (ht : s.terminated = false) :
    Handled W s (.body data) phase := by
  have hbody : s.phase = .body ∧ phase = .body := by
    cases hph : s.phase <;> simp_all [MessagePhase.next]
  have hover : s.phase ≠ .over := by simp [hbody.1]
  by_cases hst : s.parser.streams data = true
  · have hparts : s.parser.bodyBytesSeen + data.length ≤ s.parser.options.maxBodyBytes ∧
        s.parser.bodyMode = .stream := by
      simpa [HttpParser.streams] using hst
    have hreq : (s.parser.callback (s.handlers W) (.body data)).1.request =
        (s.handleBodyChunk W s.parser.request data).2.1 := by
      simp only [HttpParser.callback, HttpParser.onBody]
      rw [if_neg (Nat.not_lt.2 hparts.1)]
      simp only [hparts.2]
      split <;> rfl
    have hhandle : s.handle W (.body data) = (s.handleBodyChunk W s.parser.request data).1 := by
      simp only [handle, hst, if_true]
    have hctx (a : StreamingRequest) (ha : s.activeStream = some a) :
        Agrees true s.outbox s.served s.outbox (a.context s.parser.request) := by
      refine ⟨.refl _ _, fun hb => ?_, (h.stream a ha hover).1,
        fun _ => (h.stream a ha hover).2⟩
      exact ((h.current hb ht).resolve_left fun he => hover he.finished).2
    rcases kept_handleBodyChunk (Agrees.kept W true s.outbox s.served) (fun _ => rfl) (hq hst)
      hctx with he | ⟨a, x, ok, he, hx⟩
    · refine .quiet (hhandle.trans (congrArg Prod.fst he)) fun _ => ?_
      rw [hreq, he]
    · exact .updated a x (hhandle.trans (congrArg Prod.fst he)) hbody.2
        (hreq.trans (congrArg (fun r => r.2.1) he)) hx
  · refine .quiet (by simp only [handle, hst]; rfl) fun _ => ?_
    simp only [HttpParser.callback, HttpParser.onBody]
    split
    · rfl
    · next hle =>
      split
      · rfl
      · rfl
      · next hmode =>
        have hm : s.parser.bodyMode = .stream := hmode
        exact absurd (by simpa [HttpParser.streams, hm] using hle) hst

theorem handled (h : s.CloseInv) (ht : s.terminated = false) (hp : s.phase.next c = some phase)
    (hq : s.Consistent W (.llhttp c)) (hc : c ≠ .messageComplete) : Handled W s c phase := by
  cases c with
  | messageComplete => exact absurd rfl hc
  | headersComplete method keepAlive => exact handled_headersComplete h ht hp hq
  | body data => exact handled_body h hp hq ht
  | messageBegin =>
    refine .quiet rfl fun hbody => ?_
    rw [hbody] at hp
    cases hp
  | url data =>
    refine .quiet rfl fun _ => ?_
    simp only [HttpParser.callback, HttpParser.onUrl]
    split <;> rfl
  | headerField data | headerValue data =>
    refine .quiet rfl fun _ => ?_
    simp only [HttpParser.callback, HttpParser.onHeaderField, HttpParser.onHeaderValue,
      HttpParser.onHeaderBytes]
    split <;> rfl
  | urlComplete | headerFieldComplete | headerValueComplete => exact .quiet rfl fun _ => rfl

theorem Handled.served (h : Handled W s c phase) : (s.handle W c).served = s.served := by
  cases h with
  | quiet he => rw [he]
  | updated a x he => rw [he]; rfl

theorem Handled.fresh (h : Handled W s c phase) (hi : s.CloseInv) {p : Nat}
    (hp : s.served < p) : ¬ (s.handle W c).outbox.Bound p := by
  cases h with
  | quiet he => rw [he]; exact hi.fresh p hp
  | updated a x he _ _ hx =>
    rw [he]
    exact fun hb => hi.fresh p hp (hx.apart.others p (Nat.ne_of_gt hp) hb)

/-- The callback returns and llhttp goes on. -/
theorem Handled.closeInv (h : Handled W s c phase) (hi : s.CloseInv) (ht : s.terminated = false)
    (hp : s.phase.next c = some phase) (hc : c ≠ .messageComplete) :
    ({ s.afterCallback W c with phase := phase } : HttpExchange L).CloseInv := by
  have hover := MessagePhase.next_ne_over hp
  have hstream : ({ s.afterCallback W c with phase := phase } : HttpExchange L).Streaming :=
    hi.streaming.callback hp (.inl rfl)
  have hstop := HttpParser.stopRequested_callback (H := s.handlers W) hc (hi.running hover)
  have hbody (hb : s.phase = .body) : phase = .body :=
    (MessagePhase.next_body (hb ▸ hp)).resolve_left hc
  cases h with
  | quiet he hk =>
    have hnext : ({ s.afterCallback W c with phase := phase } : HttpExchange L) =
        { s with parser := (s.parser.callback (s.handlers W) c).1, phase := phase } := by
      rw [afterCallback, he]
    rw [hnext] at hstream ⊢
    refine ⟨fun p hlt hb _ => ?_, fun hb _ => ?_, hi.fresh, fun a ha _ => ?_, fun _ => hstop,
      hstream⟩
    · exact absurd hb (hi.alone ht hover (Nat.ne_of_lt hlt))
    · obtain ⟨hb, hkeep⟩ := (hi.current hb ht).resolve_left fun he => hover he.finished
      exact .inr ⟨hbody hb, (hk hb).trans hkeep⟩
    · obtain ⟨hs, hd⟩ := hi.stream a ha hover
      have hb := hi.streaming.phase hover (by rw [show s.activeStream = some a from ha]; simp)
      exact ⟨fun hclose => (hk hb).trans (hs hclose), hd⟩
  | updated a x he hph hreq hx =>
    have hnext : ({ s.afterCallback W c with phase := phase } : HttpExchange L) =
        { s.updateStream a x with
          parser := (s.parser.callback (s.handlers W) c).1, phase := phase } := by
      rw [afterCallback, he]
    rw [hnext] at hstream ⊢
    refine ⟨fun p hlt hb _ => ?_, fun hb _ => ?_, fun p hp hb => ?_, fun b hb _ => ?_,
      fun _ => hstop, hstream⟩
    · have hne := Nat.ne_of_lt hlt
      exact absurd (hx.apart.others p hne hb) (hi.alone ht hover hne)
    · exact .inr ⟨hph, (congrArg HttpRequest.keepAlive hreq).trans (hx.bound hb)⟩
    · exact hi.fresh p hp (hx.apart.others p (Nat.ne_of_gt hp) hb)
    · obtain rfl := Option.some.inj hb
      refine ⟨fun hclose => ?_, hx.undeferred rfl⟩
      exact (congrArg HttpRequest.keepAlive hreq).trans (hx.response hclose)

/-! ## The end of a message -/

/-- After the end of a request whose response says close, the session is told to
close and the parser to stop. -/
structure Finishes (s : HttpExchange L) (r : HttpExchange L × HttpRequest × Bool) : Prop where
  apart : s.outbox.Apart s.served r.1.outbox
  bound : r.1.outbox.Bound s.served → r.1.terminated = false →
    r.1.closeAfterFlush = true ∧ r.2.2 = false

theorem finishes_handleRequest {request : HttpRequest} (h : s.CloseInv)
    (ht : s.terminated = false) (hover : s.phase ≠ .over) (hr : request = s.parser.request)
    (hq : s.CompleteAll (fun call ctx a => a.Agreed call ctx) W request) :
    Finishes s (s.handleRequest W request) := by
  have close {x : Outbox × RequestContext} {stream : Bool}
      (hx : Agrees stream s.outbox s.served x.1 x.2) :
      Finishes s (if x.2.request.keepAlive then (s.completed x.1, x.2.request, true)
        else ((s.completed x.1).disconnectAfterFlush, x.2.request, false)) := by
    split
    · next hk =>
      refine ⟨hx.apart, fun hb => ?_⟩
      rw [hx.bound hb] at hk
      cases hk
    · exact ⟨hx.apart, fun _ _ => ⟨rfl, rfl⟩⟩
  have hbound (hb : s.outbox.Bound s.served) : s.phase = .body ∧ request.keepAlive = false :=
    hr ▸ (h.current hb ht).resolve_left fun he => hover he.finished
  unfold CompleteAll at hq
  unfold handleRequest
  split
  · next a ha =>
    rw [ha] at hq
    obtain ⟨hs, hd⟩ := h.stream a ha hover
    have hctx : Agrees true s.outbox s.served s.outbox (a.context request) :=
      ⟨.refl _ _, fun hb => (hbound hb).2, fun hc => hr ▸ hs hc, fun _ => hd⟩
    have hk := Agrees.kept W true s.outbox s.served
    have hx := kept_sendIfOpen hk (kept_callOnComplete hk (fun _ => rfl) hq hctx)
    unfold completeStreamingRequest
    simp only
    rw [hx.undeferred rfl]
    exact close hx
  · next hnone =>
    rw [hnone] at hq
    have hk := Agrees.kept W false s.outbox s.served
    have hx := hk.dispatch (fun _ => rfl) (fun _ => rfl) hq (.start [] fun hb => (hbound hb).2)
    simp only
    split
    · exact ⟨hx.apart, fun _ h => by cases h⟩
    · exact close (kept_sendIfOpen hk hx)

theorem CloseInv.messageComplete (h : s.CloseInv) (ht : s.terminated = false)
    (hp : s.phase.next .messageComplete = some phase)
    (hq : s.Consistent W (.llhttp .messageComplete)) :
    ({ s.afterCallback W .messageComplete with
      phase := if (s.afterCallback W .messageComplete).parser.stopRequested then .over
        else phase } : HttpExchange L).CloseInv := by
  have hover := MessagePhase.next_ne_over hp
  have hf := finishes_handleRequest h ht hover rfl hq
  have hdone := completes_handleRequest (W := W) s s.parser.request
  have hstop : (s.afterCallback W .messageComplete).parser.stopRequested =
      !(s.handleRequest W s.parser.request).2.2 := by
    show (if (s.handleRequest W s.parser.request).2.2 then _ else _ : HttpParser L).stopRequested = _
    split
    · next hgo =>
      rw [hgo]
      exact h.running hover
    · next hgo => simpa using hgo
  have hserved : (s.afterCallback W .messageComplete).served = s.served + 1 := hdone.served
  have hnone : (s.afterCallback W .messageComplete).activeStream = none := hdone.activeStream
  have hfresh (p : Nat) (hne : p ≠ s.served) :
      ¬ (s.afterCallback W .messageComplete).outbox.Bound p := fun hb =>
    h.alone ht hover hne (hf.apart.others p hne hb)
  refine ⟨fun p hlt hb hterm => ?_, fun hb => ?_, fun p hlt => ?_, fun a ha => ?_, fun hgo => ?_,
    fun ha => absurd hnone ha⟩
  · by_cases hpq : p = s.served
    · subst hpq
      obtain ⟨hclose, hgo⟩ := hf.bound hb hterm
      exact ⟨by simp [hstop, hgo], .inl hclose⟩
    · exact absurd hb (hfresh p hpq)
  · exact absurd hb (hfresh _ (by simp only [hserved]; omega))
  · exact hfresh p (by simp only [hserved] at hlt; omega)
  · exact absurd ha (by simp [hnone])
  · by_contra hne
    exact hgo (by simp only [Bool.not_eq_false] at hne; simp [hne])

/-! ## Steps -/

/-- Giving up on a request ends the exchange. -/
theorem apart_abort (s : HttpExchange L) :
    s.outbox.Apart s.served (s.abortStreamingRequest W).outbox :=
  kept_abort (Outbox.kept_apart W s.outbox s.served) (.refl _ _)

theorem closeInv_refuse (hf : ∀ p, s.served < p → ¬ s.outbox.Bound p) (r : HttpResponse) :
    (s.refuse W r).CloseInv := by
  refine .of_ended ⟨rfl, .inr rfl⟩ fun p hp hb => ?_
  have hlt : s.served < p := served_abort s ▸ hp
  have ha := ((apart_abort (W := W) s).queue (W := W) r).others p (Nat.ne_of_gt hlt)
  rw [← served_abort (W := W) s] at ha
  exact hf p hlt (ha hb)

theorem closeInv_failParse (hf : ∀ p, s.served < p → ¬ s.outbox.Bound p) :
    (s.failParse W).CloseInv := by
  unfold failParse
  split
  · refine .of_ended ⟨rfl, .inr rfl⟩ fun p hp hb => ?_
    have hlt : s.served < p := served_abort s ▸ hp
    exact hf p hlt ((apart_abort s).others p (Nat.ne_of_gt hlt) hb)
  · exact closeInv_refuse hf _

theorem closeInv_onLlhttp (h : s.CloseInv) (ht : s.terminated = false)
    (hp : s.phase.next c = some phase) (hq : s.Consistent W (.llhttp c)) :
    (s.onLlhttp W c phase).CloseInv := by
  unfold onLlhttp
  simp only
  by_cases hc : c = .messageComplete
  · subst hc
    rw [if_neg (by simp [HttpParser.callback, HttpParser.onMessageComplete])]
    exact h.messageComplete ht hp hq
  · have hh := handled h ht hp hq hc
    split
    · refine closeInv_failParse fun p hlt => hh.fresh h ?_
      exact (Handled.served hh) ▸ hlt
    · have hstop := HttpParser.stopRequested_callback (H := s.handlers W) hc
        (h.running (MessagePhase.next_ne_over hp))
      rw [if_neg (by simp [afterCallback, hstop])]
      exact hh.closeInv h ht hp hc

/-- A step that binds no request and leaves llhttp where it is. -/
theorem CloseInv.shrink (h : s.CloseInv) {o : Outbox} (hb : ∀ p, o.Bound p → s.outbox.Bound p)
    (ho : o.isOpen = true → s.outbox.isOpen = true) (inProgress : Bool) (startedAt : Nat) :
    ({ s with
      outbox := o, requestInProgress := inProgress, requestStartedAt := startedAt } :
      HttpExchange L).CloseInv := by
  have ended (he : s.Ended) : ({ s with
      outbox := o, requestInProgress := inProgress, requestStartedAt := startedAt } :
      HttpExchange L).Ended := by
    refine ⟨he.finished, he.closing.imp_right fun hc => ?_⟩
    by_contra hn
    rw [ho (by simpa using hn)] at hc
    cases hc
  exact ⟨fun p hlt hbound ht => ended (h.past p hlt (hb p hbound) ht),
    fun hbound ht => (h.current (hb _ hbound) ht).imp_left ended,
    fun p hlt hbound => h.fresh p hlt (hb p hbound), h.stream, h.running, h.streaming⟩

/-- `OnDisconnected` comes to a session that is closed. -/
theorem closeInv_disconnected (h : s.CloseInv) (ho : s.outbox.isOpen = false) :
    ({ s.abortStreamingRequest W with phase := .over } : HttpExchange L).CloseInv := by
  have ha := apart_abort (W := W) s
  refine .of_ended ⟨rfl, .inr ?_⟩ fun p hp hb => ?_
  · by_contra hn
    rw [ha.isOpen (by simpa using hn)] at ho
    cases ho
  · have hlt : s.served < p := served_abort s ▸ hp
    exact h.fresh p hlt (ha.others p (Nat.ne_of_gt hlt) hb)

theorem closeInv_step (s : HttpExchange L) (i : ExchangeInput) (s' : HttpExchange L)
    (h : s.CloseInv) (hs : step W s i = some s') (hq : s.Consistent W i) : s'.CloseInv := by
  have ht : s.terminated = false := by
    by_contra hterm
    have hstop : step W s i = none := by
      unfold step
      exact if_pos (by simpa using hterm)
    rw [hstop] at hs
    cases hs
  by_cases hll : ∃ c, i = .llhttp c
  · obtain ⟨c, rfl⟩ := hll
    simp only [step, ht] at hs
    obtain ⟨phase, hp, rfl⟩ := Option.map_eq_some_iff.1 hs
    exact closeInv_onLlhttp h ht hp hq
  · cases step_cases hs with
    | clock => exact h.shrink (fun _ hb => hb) id _ _
    | expire => exact closeInv_refuse h.fresh _
    | callback => exact absurd ⟨_, rfl⟩ hll
    | fail => exact absurd ⟨_, rfl⟩ hll
    | error => exact closeInv_failParse h.fresh
    | deferred d use =>
      have hu : Outbox.Used W s.outbox d (s.outbox.useDeferred W d use) :=
        Outbox.used_useDeferred use
      exact h.shrink (fun _ hb => hu.bound hb) (fun ho => hu.isOpen ▸ ho) _ _
    | disconnect =>
      exact h.shrink (o := s.outbox.disconnect) (fun _ hb => hb) (fun ho => by cases ho) _ _
    | disconnected =>
      exact closeInv_disconnected h (by simpa [step, ht] using hs)

/-! ## The connection -/

/-- The HTTP session of the exchange is at rest, and the two agree on what they
share. -/
structure Serves (s : HttpExchange L) (c : HttpSession.HConf) : Prop where
  rest : c.stack = []
  isOpen : s.outbox.isOpen = true ↔ c.state.session.state = .kOpen
  closeAfterFlush : s.outbox.isOpen = true →
    c.state.session.disconnectAfterFlush = s.closeAfterFlush
  asyncWork : c.state.session.pendingAppIo = s.outbox.asyncWorkCount

/-- Once a request with a response that says close has been dealt with, no later
request is dispatched, and the session is not open when everything is flushed
and no deferred response is outstanding. -/
def CloseKept (W : World) (s : HttpExchange L) : Prop :=
  ∀ x ∈ s.outbox.sends, x.response.saysClose = true → x.request < s.served ∨ s.phase = .over →
    (∀ c, step W s (.llhttp c) = none) ∧
    (s.terminated = false → s.outbox.asyncWorkCount = 0 → ∀ cfg is,
      HttpSession.machine.Steps HttpSession.Truthful (HttpSession.initConf cfg) is →
      HttpSession.machine.Visits
        (fun c => s.Serves c → c.state.Drained → c.state.session.state ≠ .kOpen)
        (HttpSession.initConf cfg) is)

/-- The session behind an exchange that has ended. -/
theorem Ended.not_open (he : s.Ended) {c : HttpSession.HConf} (hw : c.state.Waits c.stack)
    (hs : s.Serves c) (hd : c.state.Drained) (ha : s.outbox.asyncWorkCount = 0) :
    c.state.session.state ≠ .kOpen := by
  intro ho
  have hopen := hs.isOpen.2 ho
  rcases he.closing with hclose | hclosed
  · rw [hs.rest] at hw
    refine HttpSession.closed_of_drained hw hd ?_ (hs.asyncWork.trans ha) ho
    rw [hs.closeAfterFlush hopen, hclose]
  · rw [hopen] at hclosed
    cases hclosed

theorem CloseInv.closeKept (h : s.CloseInv) : s.CloseKept W := by
  intro x hx hclose hdone
  have hb : s.outbox.Bound x.request := .inl ⟨x, hx, rfl, hclose⟩
  cases hterm : s.terminated with
  | true =>
    refine ⟨fun c => ?_, nofun⟩
    unfold step
    exact if_pos hterm
  | false =>
    have he : s.Ended := by
      rcases Nat.lt_trichotomy x.request s.served with hlt | heq | hgt
      · exact h.past _ hlt hb hterm
      · have hover := hdone.resolve_left (by omega)
        exact (h.current (heq ▸ hb) hterm).resolve_right (by simp [hover])
      · exact absurd hb (h.fresh _ hgt)
    refine ⟨fun c => ?_, fun _ ha cfg is hsteps => ?_⟩
    · simp only [step, hterm, he.finished]
      cases c <;> rfl
    · exact Trace.visits_of_steps (J := fun c : HttpSession.HConf => c.state.Waits c.stack)
        (fun c hw hs hd => he.not_open hw hs hd ha) HttpSession.waits_step is
        (HttpSession.waits_init cfg) hsteps

/-- **`Connection: close` closes.** In every run in which user code is
`Consistent`, whatever the router, the environment and the input: once a
request with a response that says close has been dealt with, llhttp makes no
more callbacks, and the session behind the exchange has left `kOpen` when
everything is flushed and no deferred response is outstanding. -/
theorem closes_of_saysClose (W : World) (options : HttpParserOptions) (is : List ExchangeInput)
    (h : Trace.Steps (step W) (Consistent W) (make L options) is) :
    Trace.Visits (step W) (CloseKept W) (make L options) is :=
  Trace.visits_of_steps (fun _ hi => hi.closeKept) closeInv_step is (.init options) h

/-! ## Responses that say close on a connection that stays -/

/-- A plain route and a stream route for `/`, whose user code does this. -/
def closingWorld (actions : List Action) : World where
  router := (({} : Router).route .get [47] 0).routeStream .post [47] { onComplete := some 1 }
  user _ _ _ := ⟨actions, .returned true⟩

/-- A request for `/` that would keep the connection. -/
def requestOf (method : Nat) : List ExchangeInput :=
  [.recv 0, .llhttp .messageBegin, .llhttp (.url [47]), .llhttp .urlComplete,
    .llhttp (.headersComplete method true), .llhttp .messageComplete]

/-- A handler that turns keep-alive off for its request and for its response. -/
def bothOff : World :=
  closingWorld [.setRequest { keepAlive := false }, .edit { keepAlive := false }]

theorem closes_of_saysClose_both :
    Trace.Visits (step bothOff) (CloseKept bothOff) (make HttpRecv.closingLlhttp {})
      (requestOf 1) := by
  refine closes_of_saysClose _ {} _ ?_
  refine .cons rfl trivial (.cons rfl trivial (.cons rfl trivial (.cons rfl trivial ?_)))
  refine .cons rfl nofun (.cons rfl ?_ trivial)
  exact ⟨trivial, fun _ h hh => ⟨nofun, fun _ => rfl, trivial⟩⟩

/-- The responses: the request, whether it says close, whether it was queued. -/
def closings (s : HttpExchange L) : List (Nat × Bool × Bool) :=
  s.outbox.sends.map fun x => (x.request, x.response.saysClose, x.queued)

/-- A deferred response is sent, flushed and given up. -/
def deferredRun : List HttpSession.HInput :=
  let busy : HttpOutcome := { session := { hasPendingAppWork := true } }
  [.call busy (.session ⟨.beginAppIo, rfl⟩), .call busy (.send { keepAlive := false }),
    .exec busy, .exec busy, .exec busy, .event busy (0, ⟨94, false, []⟩),
    .exec busy, .exec busy, .exec busy, .exec busy, .exec busy,
    .call {} (.session ⟨.endAppIo, rfl⟩), .exec {}]

theorem deferredRun_end :
    ((HttpSession.machine.run (HttpSession.initConf {}) deferredRun).map fun c =>
      (c.state.session.state, c.stack.isEmpty && c.state.session.sendQueue.pending.isEmpty,
        c.state.session.activeSendEv, c.state.session.disconnectAfterFlush || c.state.streaming,
        c.state.session.pendingAppIo)) = some (.kOpen, true, none, false, 0) := by
  decide +kernel

theorem truthful_deferredRun :
    HttpSession.machine.Steps HttpSession.Truthful (HttpSession.initConf {}) deferredRun := by
  decide +kernel

/-- A handler that turns keep-alive off for its response alone, and one that
sends a file: the response says close, and the next request is dispatched. A
stream route that defers its response: the response says close, and the session
stays open when it is flushed. -/
theorem saysClose_ignored :
    (∃ s, Trace.run (step (closingWorld [.edit { keepAlive := false }]))
        (make HttpRecv.closingLlhttp {}) (requestOf 1 ++ requestOf 1) = some s ∧
      s.closings = [(0, true, true), (1, true, true)] ∧
      s.outbox.calls = [(0, .handler 0), (1, .handler 0)] ∧
      ¬ s.CloseKept (closingWorld [.edit { keepAlive := false }])) ∧
    (∃ s, Trace.run (step (closingWorld [.sendFile (.regular [1]) []]))
        (make HttpRecv.closingLlhttp {}) (requestOf 1 ++ requestOf 1) = some s ∧
      s.closings = [(0, true, true), (1, true, true)] ∧
      s.outbox.calls = [(0, .handler 0), (1, .handler 0)] ∧
      ¬ s.CloseKept (closingWorld [.sendFile (.regular [1]) []])) ∧
    ∃ s, Trace.run (step (closingWorld [.defer])) (make HttpRecv.closingLlhttp {})
        (requestOf 3 ++ [.deferred 0 .complete]) = some s ∧
      s.closings = [(0, true, true)] ∧ s.outbox.asyncWorkCount = 0 ∧
      ¬ s.CloseKept (closingWorld [.defer]) := by
  refine ⟨⟨_, rfl, rfl, rfl, fun h => ?_⟩, ⟨_, rfl, rfl, rfl, fun h => ?_⟩,
    ⟨_, rfl, rfl, rfl, fun h => ?_⟩⟩
  · have := (h _ List.mem_cons_self rfl (.inl (by decide))).1 .messageBegin
    cases this
  · have := (h _ List.mem_cons_self rfl (.inl (by decide))).1 .messageBegin
    cases this
  · have hv := (h _ List.mem_cons_self rfl (.inl (by decide))).2 rfl rfl {} deferredRun
      truthful_deferredRun
    obtain ⟨c, hc, he⟩ := Option.map_eq_some_iff.1 deferredRun_end
    simp only [Prod.mk.injEq] at he
    obtain ⟨hopen, hempty, hactive, hflags, hwork⟩ := he
    obtain ⟨hrest, hqueue⟩ := Bool.and_eq_true_iff.1 hempty
    obtain ⟨hflag, hstream⟩ := Bool.or_eq_false_iff.1 hflags
    refine hv.of_run _ hc ⟨List.isEmpty_iff.1 hrest, ⟨fun _ => hopen, fun _ => rfl⟩,
      fun _ => hflag, hwork⟩ ⟨hactive, List.isEmpty_iff.1 hqueue, hstream⟩ hopen

end HttpExchange

end IouringRuntime
