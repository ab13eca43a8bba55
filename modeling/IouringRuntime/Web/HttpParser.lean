import Mathlib.Data.List.Basic
import IouringRuntime.Web.HttpRequest

/-!
# The HTTP parser

`HttpParser` (`web/HttpParser.h`, `HttpParser.cpp`) around llhttp. llhttp is a
parameter: from a state and an input it makes a list of callbacks, each at a
position of the input, and then ends well or with an error position. What it
does with a callback's result, its error state and `llhttp_resume` are
`execute` and `feed`.

`Feed` works on pointers: data stands at an address, `error_pos` is an address
that llhttp recorded, and the differences are cast to 32 bits. The session's
handlers answer by an oracle over the number of handler calls made.
-/

namespace IouringRuntime

/-- A callback of `llhttp_settings_t` that `HttpParser` sets. -/
inductive LlCall where
  | messageBegin
  | url (data : Bytes)
  | urlComplete
  | headerField (data : Bytes)
  | headerFieldComplete
  | headerValue (data : Bytes)
  | headerValueComplete
  | headersComplete (method : Nat) (shouldKeepAlive : Bool)
  | body (data : Bytes)
  | messageComplete
  deriving DecidableEq, Repr

/-- llhttp: the callbacks it makes on an input, each with the position it
records and the state to go on from there, and how the input ends when every
callback returns 0. -/
structure Llhttp where
  State : Type
  init : State
  calls : State → Bytes → List (LlCall × Nat × State)
  finish : State → Bytes → Except Nat State

/-- What the development needs of llhttp: positions lie in the input, and a
message completes only behind a byte of the input given. -/
structure Llhttp.Lawful (L : Llhttp) : Prop where
  call_le : ∀ st input c, c ∈ L.calls st input → c.2.1 ≤ input.length
  complete_pos : ∀ st input c, c ∈ L.calls st input → c.1 = .messageComplete → 0 < c.2.1
  finish_le : ∀ st input pos, L.finish st input = .error pos → pos ≤ input.length

/-- `parser_->error`, as far as `Feed` tells errors apart. -/
inductive LlError where
  | paused
  | failed
  deriving DecidableEq, Repr

inductive HttpBodyMode where
  | buffer | discard | stream
  deriving DecidableEq, Repr

inductive HttpParseStatus where
  | ok | badRequest | urlTooLong | headersTooLarge | bodyTooLarge
  deriving DecidableEq, Repr

structure HttpParserOptions where
  maxUrlBytes : Nat := 8 * 1024
  maxHeaderBytes : Nat := 32 * 1024
  maxBodyBytes : Nat := 10 * 1024 * 1024
  deriving DecidableEq, Repr

/-- The answers of `on_headers_`, `on_body_chunk_` and `on_request_`; each may
change the request it is given. -/
structure HttpHandlers where
  onHeaders : Nat → HttpRequest → HttpRequest × HttpBodyMode
  onBodyChunk : Nat → HttpRequest → Bytes → HttpRequest × Bool
  onRequest : Nat → HttpRequest → HttpRequest × Bool

/-- What a callback returns to llhttp: 0, `HPE_USER` or `HPE_PAUSED`. -/
inductive CallbackResult where
  | ok | user | paused
  deriving DecidableEq, Repr

structure HttpParser (L : Llhttp) where
  ll : L.State
  llError : Option LlError := none
  errorPos : Nat := 0
  options : HttpParserOptions := {}
  request : HttpRequest := {}
  status : HttpParseStatus := .ok
  stopRequested : Bool := false
  bodyMode : HttpBodyMode := .buffer
  headerBytesUsed : Nat := 0
  bodyBytesSeen : Nat := 0
  currentHeaderField : Bytes := []
  currentHeaderValue : Bytes := []
  rawUrl : Bytes := []
  handlerCalls : Nat := 0

namespace HttpParser

variable {L : Llhttp}

def make (L : Llhttp) (options : HttpParserOptions) : HttpParser L :=
  { ll := L.init, options := options }

def hasError (p : HttpParser L) : Bool := p.status != .ok

/-! ## Callbacks -/

def onMessageBegin (p : HttpParser L) : HttpParser L × CallbackResult :=
  ({ p with
    request := {}
    currentHeaderField := []
    currentHeaderValue := []
    rawUrl := []
    stopRequested := false
    bodyMode := .buffer
    headerBytesUsed := 0
    bodyBytesSeen := 0 }, .ok)

def onUrl (p : HttpParser L) (data : Bytes) : HttpParser L × CallbackResult :=
  if p.options.maxUrlBytes < p.rawUrl.length + data.length then
    ({ p with status := .urlTooLong }, .user)
  else ({ p with rawUrl := p.rawUrl ++ data }, .ok)

/-- `ParseUrl`: path and query are cut at the first question mark. -/
def parseUrl (p : HttpParser L) (url : Bytes) : HttpParser L :=
  { p with request := { p.request with
      path := url.takeWhile (· != 63)
      query := (url.dropWhile (· != 63)).drop 1 } }

def onUrlComplete (p : HttpParser L) : HttpParser L × CallbackResult :=
  (p.parseUrl p.rawUrl, .ok)

/-- The limit shared by `OnHeaderField` and `OnHeaderValue`; `store` keeps the
bytes. -/
def onHeaderBytes (store : HttpParser L → HttpParser L) (p : HttpParser L) (len : Nat) :
    HttpParser L × CallbackResult :=
  if p.options.maxHeaderBytes < p.headerBytesUsed + len then
    ({ p with status := .headersTooLarge }, .user)
  else (store { p with headerBytesUsed := p.headerBytesUsed + len }, .ok)

def onHeaderField (p : HttpParser L) (data : Bytes) : HttpParser L × CallbackResult :=
  onHeaderBytes (fun p => { p with currentHeaderField := p.currentHeaderField ++ data })
    p data.length

def onHeaderFieldComplete (p : HttpParser L) : HttpParser L × CallbackResult := (p, .ok)

def onHeaderValue (p : HttpParser L) (data : Bytes) : HttpParser L × CallbackResult :=
  onHeaderBytes (fun p => { p with currentHeaderValue := p.currentHeaderValue ++ data })
    p data.length

def onHeaderValueComplete (p : HttpParser L) : HttpParser L × CallbackResult :=
  ({ p with
    request := p.request.addHeader p.currentHeaderField p.currentHeaderValue
    currentHeaderField := []
    currentHeaderValue := [] }, .ok)

def onHeadersComplete (H : HttpHandlers) (p : HttpParser L) (method : Nat)
    (shouldKeepAlive : Bool) : HttpParser L × CallbackResult :=
  let request :=
    { p.request with method := .fromLlhttp method, keepAlive := shouldKeepAlive }
  let r := H.onHeaders p.handlerCalls request
  let p := { p with request := r.1, bodyMode := r.2, handlerCalls := p.handlerCalls + 1 }
  if p.options.maxBodyBytes < p.request.contentLength then
    ({ p with status := .bodyTooLarge }, .user)
  else (p, .ok)

def onBody (H : HttpHandlers) (p : HttpParser L) (data : Bytes) :
    HttpParser L × CallbackResult :=
  if p.options.maxBodyBytes < p.bodyBytesSeen + data.length then
    ({ p with status := .bodyTooLarge }, .user)
  else
    let p := { p with bodyBytesSeen := p.bodyBytesSeen + data.length }
    match p.bodyMode with
    | .buffer => ({ p with request := { p.request with body := p.request.body ++ data } }, .ok)
    | .discard => (p, .ok)
    | .stream =>
      let r := H.onBodyChunk p.handlerCalls p.request data
      let p := { p with request := r.1, handlerCalls := p.handlerCalls + 1 }
      if r.2 then (p, .ok) else ({ p with status := .badRequest }, .user)

def onMessageComplete (H : HttpHandlers) (p : HttpParser L) : HttpParser L × CallbackResult :=
  let r := H.onRequest p.handlerCalls p.request
  let p := { p with request := r.1, handlerCalls := p.handlerCalls + 1 }
  (if r.2 then p else { p with stopRequested := true }, .paused)

def callback (H : HttpHandlers) (p : HttpParser L) : LlCall → HttpParser L × CallbackResult
  | .messageBegin => p.onMessageBegin
  | .url data => p.onUrl data
  | .urlComplete => p.onUrlComplete
  | .headerField data => p.onHeaderField data
  | .headerFieldComplete => p.onHeaderFieldComplete
  | .headerValue data => p.onHeaderValue data
  | .headerValueComplete => p.onHeaderValueComplete
  | .headersComplete method keepAlive => p.onHeadersComplete H method keepAlive
  | .body data => p.onBody H data
  | .messageComplete => p.onMessageComplete H

/-! ## Feeding -/

/-- llhttp stops with this error at a position of the input at `current`. -/
def stopAt (p : HttpParser L) (e : LlError) (errorPos : Nat) : HttpParser L × Option LlError :=
  ({ p with llError := some e, errorPos := errorPos }, some e)

def runCalls (H : HttpHandlers) (current : Nat) (finish : Except Nat L.State) :
    List (LlCall × Nat × L.State) → HttpParser L → HttpParser L × Option LlError
  | [], p =>
    match finish with
    | .ok st => ({ p with ll := st }, none)
    | .error pos => p.stopAt .failed (current + pos)
  | (c, pos, st) :: rest, p =>
    let r := ({ p with ll := st } : HttpParser L).callback H c
    match r.2 with
    | .ok => runCalls H current finish rest r.1
    | .user => r.1.stopAt .failed (current + pos)
    | .paused => r.1.stopAt .paused (current + pos)

/-- `llhttp_execute`: a parser left with an error returns it at once. -/
def execute (H : HttpHandlers) (p : HttpParser L) (current : Nat) (input : Bytes) :
    HttpParser L × Option LlError :=
  match p.llError with
  | some e => (p, some e)
  | none => runCalls H current (L.finish p.ll input) (L.calls p.ll input) p

/-- A failure without a status of its own is a bad request. -/
def badRequest (p : HttpParser L) : HttpParser L :=
  { p with status := if p.status = .ok then .badRequest else p.status }

theorem badRequest_status (p : HttpParser L) : p.badRequest.status ≠ .ok := by
  unfold badRequest
  by_cases h : p.status = .ok
  · simp [h]
  · simp only [h, if_false]
    exact h

def feedLoop (H : HttpHandlers) (data len : Nat) :
    Nat → HttpParser L → Nat → Bytes → HttpParser L × Option Nat
  | 0, p, _, _ => (p, none)
  | fuel + 1, p, current, rest =>
    if rest = [] ∨ p.status ≠ .ok then (p, some (sub32 current data))
    else
      let r := p.execute H current rest
      match r.2 with
      | none => (r.1, some len)
      | some .paused =>
        let consumed := sub32 r.1.errorPos current
        -- only a stopped parser can have a position outside the input, and it
        -- returns here; `remaining` is the length of what is left otherwise
        if r.1.stopRequested then (r.1, some (sub32 (current + consumed) data))
        else
          feedLoop H data len fuel { r.1 with llError := none } (current + consumed)
            (rest.drop consumed)
      | some .failed =>
        (r.1.badRequest, some (sub32 r.1.errorPos data))

/-- `Feed` of the bytes at the address `data`; `none` would be a loop that does
not end. -/
def feed (H : HttpHandlers) (p : HttpParser L) (data : Nat) (bytes : Bytes) :
    HttpParser L × Option Nat :=
  feedLoop H data bytes.length (bytes.length + 1) p data bytes

/-! ## What a call does -/

/-- A callback leaves llhttp's error alone, sets a status exactly when it
fails, and only `OnMessageComplete` pauses. -/
structure CallbackSpec (p : HttpParser L) (c : LlCall) (r : HttpParser L × CallbackResult) :
    Prop where
  status_eq : r.2 ≠ .user → r.1.status = p.status
  status_ne : r.2 = .user → r.1.status ≠ .ok
  llError_eq : r.1.llError = p.llError
  complete : r.2 = .paused → c = .messageComplete

theorem callback_spec (H : HttpHandlers) (p : HttpParser L) (c : LlCall) :
    CallbackSpec p c (p.callback H c) := by
  have failed : ∀ q : HttpParser L, q.status ≠ .ok → q.llError = p.llError →
      CallbackSpec p c (q, .user) := fun q hs hq => ⟨fun h => (h rfl).elim, fun _ => hs, hq, nofun⟩
  have passed : ∀ q : HttpParser L, q.status = p.status → q.llError = p.llError →
      CallbackSpec p c (q, .ok) := fun q hs hq => ⟨fun _ => hs, nofun, hq, nofun⟩
  cases c with
  | messageBegin => exact passed _ rfl rfl
  | url data =>
    simp only [callback, onUrl]
    split
    · exact failed _ nofun rfl
    · exact passed _ rfl rfl
  | urlComplete => exact passed _ rfl rfl
  | headerField data =>
    simp only [callback, onHeaderField, onHeaderBytes]
    split
    · exact failed _ nofun rfl
    · exact passed _ rfl rfl
  | headerFieldComplete => exact passed _ rfl rfl
  | headerValue data =>
    simp only [callback, onHeaderValue, onHeaderBytes]
    split
    · exact failed _ nofun rfl
    · exact passed _ rfl rfl
  | headerValueComplete => exact passed _ rfl rfl
  | headersComplete method keepAlive =>
    simp only [callback, onHeadersComplete]
    split
    · exact failed _ nofun rfl
    · exact passed _ rfl rfl
  | body data =>
    simp only [callback, onBody]
    split
    · exact failed _ nofun rfl
    · split
      · exact passed _ rfl rfl
      · exact passed _ rfl rfl
      · split
        · exact passed _ rfl rfl
        · exact failed _ nofun rfl
  | messageComplete =>
    simp only [callback, onMessageComplete]
    split <;> exact ⟨fun _ => rfl, nofun, rfl, fun _ => rfl⟩

/-- Only the end of a message asks the parser to stop. -/
theorem stopRequested_callback {p : HttpParser L} {H : HttpHandlers} {c : LlCall}
    (hc : c ≠ .messageComplete) (h : p.stopRequested = false) :
    (p.callback H c).1.stopRequested = false := by
  cases c with
  | messageBegin => rfl
  | messageComplete => exact absurd rfl hc
  | url data =>
    simp only [callback, onUrl]
    split <;> exact h
  | headerField data | headerValue data =>
    simp only [callback, onHeaderField, onHeaderValue, onHeaderBytes]
    split <;> exact h
  | headersComplete method keepAlive =>
    simp only [callback, onHeadersComplete]
    split <;> exact h
  | body data =>
    simp only [callback, onBody]
    split
    · exact h
    · split
      · exact h
      · exact h
      · split <;> exact h
  | urlComplete | headerFieldComplete | headerValueComplete => exact h

/-- How `llhttp_execute` ends on `input` at `current`. -/
inductive Executed (current len : Nat) : HttpParser L × Option LlError → Prop where
  | done {p : HttpParser L} : p.status = .ok → p.llError = none → Executed current len (p, none)
  | paused {p : HttpParser L} {pos : Nat} : p.status = .ok → 0 < pos → pos ≤ len →
      Executed current len (p.stopAt .paused (current + pos))
  | failed {p : HttpParser L} {pos : Nat} : pos ≤ len →
      Executed current len (p.stopAt .failed (current + pos))

theorem runCalls_executed {H : HttpHandlers} {current len : Nat} {finish : Except Nat L.State}
    (hfin : ∀ pos, finish = .error pos → pos ≤ len) (calls : List (LlCall × Nat × L.State)) :
    ∀ p : HttpParser L, p.status = .ok → p.llError = none →
      (∀ c ∈ calls, c.2.1 ≤ len ∧ (c.1 = .messageComplete → 0 < c.2.1)) →
      Executed current len (runCalls H current finish calls p) := by
  induction calls with
  | nil =>
    intro p hs he _
    cases finish with
    | ok st => exact .done hs he
    | error pos => exact .failed (hfin pos rfl)
  | cons call rest ih =>
    intro p hs he hc
    obtain ⟨c, pos, st⟩ := call
    obtain ⟨hle, hpos⟩ := hc _ List.mem_cons_self
    have spec := callback_spec H ({ p with ll := st } : HttpParser L) c
    simp only [runCalls]
    split
    case h_1 hr =>
      exact ih _ ((spec.status_eq (by rw [hr]; nofun)).trans hs) (spec.llError_eq.trans he)
        fun c hmem => hc c (List.mem_cons_of_mem _ hmem)
    case h_2 => exact .failed hle
    case h_3 hr =>
      exact .paused ((spec.status_eq (by rw [hr]; nofun)).trans hs) (hpos (spec.complete hr)) hle

theorem execute_executed (hL : L.Lawful) {H : HttpHandlers} {p : HttpParser L} (current : Nat)
    (input : Bytes) (hs : p.status = .ok) (he : p.llError = none) :
    Executed current input.length (p.execute H current input) := by
  rw [execute, he]
  exact runCalls_executed (hL.finish_le _ _) _ p hs he
    fun c hc => ⟨hL.call_le _ _ c hc, hL.complete_pos _ _ c hc⟩

/-- A parser without an error status between two `Feed` calls: llhttp may have
been left paused, by a handler that asked to stop. -/
structure Ready (p : HttpParser L) : Prop where
  status : p.status = .ok
  stopped : p.llError ≠ none → p.llError = some .paused ∧ p.stopRequested = true

/-- `Feed` returned a count within the input and left the parser ready or with
an error status. -/
def Fed (len : Nat) (r : HttpParser L × Option Nat) : Prop :=
  ∃ k ≤ len, r.2 = some k ∧ (r.1.status = .ok → r.1.Ready)

theorem feedLoop_fed (hL : L.Lawful) {H : HttpHandlers} {data len : Nat} (hlen : len < 2 ^ 32)
    (fuel : Nat) : ∀ (p : HttpParser L) (off : Nat) (rest : Bytes), p.status = .ok →
      p.llError = none → off + rest.length = len → rest.length < fuel →
      Fed len (feedLoop H data len fuel p (data + off) rest) := by
  induction fuel with
  | zero => intro p off rest _ _ _ hf; omega
  | succ fuel ih =>
    intro p off rest hs he hoff hf
    unfold feedLoop
    split
    case isTrue =>
      exact ⟨off, by omega, by rw [sub32_add data (by omega)],
        fun h => ⟨h, fun hne => (hne he).elim⟩⟩
    case isFalse hne =>
      have hx := execute_executed hL (H := H) (data + off) rest hs he
      generalize p.execute H (data + off) rest = r at hx
      cases hx with
      | done hs' he' =>
        exact ⟨len, Nat.le_refl _, rfl, fun h => ⟨h, fun hn => (hn he').elim⟩⟩
      | @paused q pos hs' hpos hle =>
        have hk : sub32 (data + off + pos) (data + off) = pos := sub32_add _ (by omega)
        simp only [stopAt, hk]
        split
        case isTrue hstop =>
          refine ⟨off + pos, by omega, ?_, fun h => ⟨h, fun _ => ⟨rfl, hstop⟩⟩⟩
          rw [Nat.add_assoc, sub32_add data (by omega)]
        case isFalse =>
          rw [Nat.add_assoc]
          exact ih _ (off + pos) (rest.drop pos) hs' rfl
            (by rw [List.length_drop]; omega) (by rw [List.length_drop]; omega)
      | @failed q pos hle =>
        refine ⟨off + pos, by omega, ?_, fun h => (badRequest_status _ h).elim⟩
        simp only [stopAt]
        rw [Nat.add_assoc, sub32_add data (by omega)]

theorem feed_fed (hL : L.Lawful) {H : HttpHandlers} {p : HttpParser L} (data : Nat)
    {bytes : Bytes} (hlen : bytes.length < 2 ^ 32) (hs : p.status = .ok) (he : p.llError = none) :
    Fed bytes.length (p.feed H data bytes) :=
  feedLoop_fed hL hlen _ p 0 bytes hs he (Nat.zero_add _) (Nat.lt_succ_self _)

/-- On a parser left paused `Feed` makes no callback and returns the distance
to the position recorded when it was paused. -/
theorem feed_paused {H : HttpHandlers} {p : HttpParser L} (hp : p.Ready)
    (he : p.llError = some .paused) (data : Nat) {bytes : Bytes} (hne : bytes ≠ []) :
    p.feed H data bytes = (p, some (sub32 p.errorPos data)) := by
  have hstop := (hp.stopped (by rw [he]; nofun)).2
  have hg : ¬ (bytes = [] ∨ p.status ≠ .ok) := by
    rintro (h | h)
    · exact hne h
    · exact h hp.status
  rw [feed, feedLoop, if_neg hg]
  simp only [execute, he, hstop, if_true]
  rw [sub32_add data (sub32_lt _ _)]

theorem feed_nil {H : HttpHandlers} (p : HttpParser L) (data : Nat) :
    p.feed H data [] = (p, some 0) := by
  have h : sub32 data data = 0 := sub32_add data (k := 0) (by decide)
  simp only [feed, feedLoop, List.length_nil, true_or, if_true, h]

/-- The position recorded when llhttp was paused is one of the `len` bytes at
`data` or their end, modulo `2 ^ 32`. -/
def PausedInside (p : HttpParser L) (data len : Nat) : Prop :=
  ∃ k ≤ len, p.errorPos ≡ data + k [MOD 2 ^ 32]

/-- **`Feed` of a ready parser** returns a count within the input, unless
llhttp was left paused at a position outside of it. -/
theorem feed_ready (hL : L.Lawful) {H : HttpHandlers} {p : HttpParser L} (hp : p.Ready)
    (data : Nat) {bytes : Bytes} (hlen : bytes.length < 2 ^ 32) :
    Fed bytes.length (p.feed H data bytes) ↔
      (p.llError = some .paused → bytes ≠ [] → p.PausedInside data bytes.length) := by
  cases he : p.llError with
  | none => exact ⟨nofun, fun _ => feed_fed hL data hlen hp.status he⟩
  | some e =>
    obtain ⟨hpaused, -⟩ := hp.stopped (by rw [he]; nofun)
    rw [← he]
    rcases eq_or_ne bytes [] with rfl | hne
    · rw [feed_nil]
      exact ⟨fun _ _ h => (h rfl).elim, fun _ => ⟨0, Nat.le_refl _, rfl, fun _ => hp⟩⟩
    · rw [feed_paused hp hpaused data hne]
      unfold PausedInside
      rw [← sub32_le_iff hlen]
      constructor
      · rintro ⟨k, hk, heq, -⟩ _ _
        obtain rfl := Option.some.inj heq
        exact hk
      · intro h
        exact ⟨_, h hpaused hne, rfl, fun _ => hp⟩

end HttpParser

end IouringRuntime
