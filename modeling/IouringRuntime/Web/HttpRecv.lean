import IouringRuntime.Core.RecvBuffer
import IouringRuntime.Reentrant.Trace
import IouringRuntime.Web.HttpParser
import IouringRuntime.Web.HttpResponse

/-!
# Receiving HTTP

`HttpSession::HandleHttpRecv` (`HttpSessionRecv.cpp`) over the parser and the
reassembly buffer. A recv chunk goes to the parser where it lies while the
buffer is empty, and through the buffer otherwise. A session whose handler
asked to stop is closed only once its output is flushed, so chunks keep coming
while llhttp is left paused at an address of an earlier input.

`received` (all bytes given), `taken` (the counts of `Feed` added up), `feeds`
(each `Feed`'s count with its input's length) and `replies` are history.
-/

namespace IouringRuntime

/-- Status and body of the reply to a parse error. -/
def mapParseError : HttpParseStatus → HttpStatus × String
  | .urlTooLong => (.kUriTooLong, "URI Too Long")
  | .headersTooLarge => (.kRequestHeaderFieldsTooLarge, "Request Header Fields Too Large")
  | .bodyTooLarge => (.kPayloadTooLarge, "Payload Too Large")
  | .badRequest | .ok => (.kBadRequest, "Bad Request")

/-- The reply that `HandleHttpRecv` builds for a parse error. -/
def parseErrorResponse (status : HttpParseStatus) : HttpResponse :=
  { (({} : HttpResponse).error (mapParseError status).1 (mapParseError status).2) with
    keepAlive := false }

structure HttpRecv (L : Llhttp) where
  parser : HttpParser L
  recvBuffer : RecvBuffer := .make 65536
  closed : Bool := false
  received : Bytes := []
  taken : Nat := 0
  feeds : List (Option Nat × Nat) := []
  replies : List HttpResponse := []

/-- A chunk given to `OnRecv`: its address and bytes, whether the request
deadline has passed (`StartOrFailRequestDeadline` then disconnects), and
`ActiveStreamResponseSent()` after the parser has run. -/
structure RecvChunk where
  expired : Bool := false
  addr : Nat
  data : Bytes
  responseSent : Bool := false
  deriving DecidableEq, Repr

namespace HttpRecv

variable {L : Llhttp}

def make (L : Llhttp) (options : HttpParserOptions) : HttpRecv L :=
  { parser := .make L options }

def disconnect (s : HttpRecv L) : HttpRecv L := { s with closed := true }

def feed (H : HttpHandlers) (s : HttpRecv L) (addr : Nat) (bytes : Bytes) : HttpRecv L :=
  let r := s.parser.feed H addr bytes
  { s with parser := r.1, feeds := s.feeds ++ [(r.2, bytes.length)] }

/-- The reply to a parse error, unless the streaming response was sent. -/
def failParse (s : HttpRecv L) (responseSent : Bool) : HttpRecv L :=
  if responseSent then s.disconnect
  else { s with replies := s.replies ++ [parseErrorResponse s.parser.status] }.disconnect

/-- `Feed` of a chunk with the buffer empty. -/
def recvDirect (H : HttpHandlers) (s : HttpRecv L) (c : RecvChunk) : HttpRecv L :=
  let s' := s.feed H c.addr c.data
  match (s.parser.feed H c.addr c.data).2 with
  | none => s'.disconnect
  | some consumed =>
    if s'.parser.hasError then s'.failParse c.responseSent
    else if consumed < c.data.length then
      let a := s'.recvBuffer.append (c.data.drop consumed)
      let s' := { s' with recvBuffer := a.1, taken := s'.taken + consumed }
      if a.2 then s' else s'.disconnect
    else { s' with taken := s'.taken + consumed }

/-- `Feed` of the buffer, whose storage is at `base`, with the chunk added. -/
def recvBuffered (H : HttpHandlers) (base : Nat) (s : HttpRecv L) (c : RecvChunk) : HttpRecv L :=
  let a := s.recvBuffer.append c.data
  let s := { s with recvBuffer := a.1 }
  if a.2 then
    let s' := s.feed H (base + a.1.readPos) a.1.readRegion
    match (s.parser.feed H (base + a.1.readPos) a.1.readRegion).2 with
    | none => s'.disconnect
    | some consumed =>
      if s'.parser.hasError then s'.failParse c.responseSent
      else
        let b := s'.recvBuffer.onRead consumed
        { s' with
          recvBuffer := if b.shouldCompact then b.compact else b
          taken := s'.taken + consumed }
  else s.disconnect

def handleHttpRecv (H : HttpHandlers) (base : Nat) (s : HttpRecv L) (c : RecvChunk) :
    HttpRecv L :=
  let s := { s with received := s.received ++ c.data }
  if c.expired then s.disconnect
  else if s.recvBuffer.isEmpty then s.recvDirect H c
  else s.recvBuffered H base c

/-- The session gives chunks to `OnRecv` until it is disconnected; their length
is that of a recv completion, an `int`. -/
def step (H : HttpHandlers) (base : Nat) (s : HttpRecv L) (c : RecvChunk) : Option (HttpRecv L) :=
  if s.closed = false ∧ c.data.length < 2 ^ 31 then some (s.handleHttpRecv H base c) else none

/-- What `Feed` will be given. -/
def fedRegion (base : Nat) (s : HttpRecv L) (c : RecvChunk) : Option (Nat × Bytes) :=
  if c.expired then none
  else if s.recvBuffer.isEmpty then some (c.addr, c.data)
  else if (s.recvBuffer.append c.data).2 then
    some (base + (s.recvBuffer.append c.data).1.readPos, (s.recvBuffer.append c.data).1.readRegion)
  else none

/-- Every `Feed` took between none and all of its input, the positions of the
buffer are in order, and while connected it holds what has not been taken of
the stream. -/
structure Safe (s : HttpRecv L) : Prop where
  feeds : ∀ f ∈ s.feeds, ∃ k ≤ f.2, f.1 = some k
  read_le : s.recvBuffer.readPos ≤ s.recvBuffer.writePos
  write_le : s.recvBuffer.writePos ≤ s.recvBuffer.capacity
  taken_le : s.closed = false → s.taken ≤ s.received.length
  rest : s.closed = false → s.recvBuffer.readRegion = s.received.drop s.taken

/-- A chunk that makes `Feed` run on a paused llhttp finds it paused at a
position of the input given. -/
def ResumesInside (base : Nat) (s : HttpRecv L) (c : RecvChunk) : Prop :=
  ∀ addr bytes, s.fedRegion base c = some (addr, bytes) → s.parser.llError = some .paused →
    bytes ≠ [] → s.parser.PausedInside addr bytes.length

structure Inv (s : HttpRecv L) : Prop where
  parser : s.closed = false → s.parser.Ready
  buffer : s.recvBuffer.WellFormed
  feeds : ∀ f ∈ s.feeds, ∃ k ≤ f.2, f.1 = some k
  taken_le : s.closed = false → s.taken ≤ s.received.length
  rest : s.closed = false → s.recvBuffer.readRegion = s.received.drop s.taken

namespace Inv

theorem safe {s : HttpRecv L} (h : s.Inv) : s.Safe :=
  ⟨h.feeds, h.buffer.read_le, h.buffer.write_le, h.taken_le, h.rest⟩

theorem of_closed {s : HttpRecv L} (hc : s.closed = true) (hb : s.recvBuffer.WellFormed)
    (hf : ∀ f ∈ s.feeds, ∃ k ≤ f.2, f.1 = some k) : s.Inv := by
  refine ⟨?_, hb, hf, ?_, ?_⟩ <;> simp [hc]

theorem make (options : HttpParserOptions) : (HttpRecv.make L options).Inv :=
  ⟨fun _ => ⟨rfl, fun h => (h rfl).elim⟩, RecvBuffer.make_wellFormed (by decide), nofun,
    fun _ => Nat.le_refl _, fun _ => rfl⟩

end Inv

variable {H : HttpHandlers} {base : Nat} {s : HttpRecv L} {c : RecvChunk}

theorem closed_failParse (s : HttpRecv L) (sent : Bool) : (s.failParse sent).closed = true := by
  cases sent <;> rfl

theorem recvBuffer_failParse (s : HttpRecv L) (sent : Bool) :
    (s.failParse sent).recvBuffer = s.recvBuffer := by
  cases sent <;> rfl

theorem feeds_failParse (s : HttpRecv L) (sent : Bool) : (s.failParse sent).feeds = s.feeds := by
  cases sent <;> rfl

theorem Inv.failParse (hb : s.recvBuffer.WellFormed) (hf : ∀ f ∈ s.feeds, ∃ k ≤ f.2, f.1 = some k)
    (sent : Bool) : (s.failParse sent).Inv :=
  .of_closed (closed_failParse s sent) (by rw [recvBuffer_failParse]; exact hb)
    (by rw [feeds_failParse]; exact hf)

/-- The counts stay within their inputs when a `Feed` is added. -/
theorem feeds_feed {addr : Nat} {bytes : Bytes} {k : Nat}
    (hf : ∀ f ∈ s.feeds, ∃ k ≤ f.2, f.1 = some k) (hk : k ≤ bytes.length)
    (hr : (s.parser.feed H addr bytes).2 = some k) :
    ∀ f ∈ (s.feed H addr bytes).feeds, ∃ k ≤ f.2, f.1 = some k := by
  intro f hmem
  rcases List.mem_append.1 hmem with hmem | hmem
  · exact hf f hmem
  · obtain rfl := List.mem_singleton.1 hmem
    exact ⟨k, hk, hr⟩

/-- A chunk has been received and not yet been looked at: what is not taken of
the stream is the buffer's bytes and the chunk. -/
structure Offered (s : HttpRecv L) (data : Bytes) : Prop where
  buffer : s.recvBuffer.WellFormed
  feeds : ∀ f ∈ s.feeds, ∃ k ≤ f.2, f.1 = some k
  taken_le : s.taken ≤ s.received.length
  rest : s.received.drop s.taken = s.recvBuffer.readRegion ++ data

theorem Inv.offered (h : s.Inv) (hc : s.closed = false) (data : Bytes) :
    ({ s with received := s.received ++ data } : HttpRecv L).Offered data := by
  have hle := h.taken_le hc
  refine ⟨h.buffer, h.feeds, ?_, ?_⟩
  · show s.taken ≤ (s.received ++ data).length
    rw [List.length_append]
    omega
  · show (s.received ++ data).drop s.taken = s.recvBuffer.readRegion ++ data
    rw [List.drop_append_of_le_length hle, h.rest hc]

/-- A count within what is offered is a count within the stream. -/
theorem Offered.taken_add_le {data : Bytes} (h : s.Offered data) {k : Nat}
    (hk : k ≤ s.recvBuffer.readRegion.length + data.length) : s.taken + k ≤ s.received.length := by
  have hlen := congrArg List.length h.rest
  have := h.taken_le
  rw [List.length_drop, List.length_append] at hlen
  omega

theorem status_of_not_hasError {addr : Nat} {bytes : Bytes}
    (h : ¬ (s.feed H addr bytes).parser.hasError = true) :
    (s.parser.feed H addr bytes).1.status = .ok := by
  simpa [HttpParser.hasError, HttpRecv.feed] using h

theorem Offered.recvDirect (h : s.Offered c.data) (hempty : s.recvBuffer.readRegion = [])
    (hlen : c.data.length < 2 ^ 32)
    (hfed : HttpParser.Fed c.data.length (s.parser.feed H c.addr c.data)) :
    (s.recvDirect H c).Inv := by
  obtain ⟨k, hk, hr, hready⟩ := hfed
  have hfeeds := feeds_feed h.feeds hk hr
  have htaken : s.taken + k ≤ s.received.length := h.taken_add_le (by omega)
  have hrest : s.received.drop (s.taken + k) = c.data.drop k := by
    rw [← List.drop_drop, h.rest, hempty, List.nil_append]
  unfold HttpRecv.recvDirect
  simp only [hr]
  split
  case isTrue => exact .failParse (s := s.feed H c.addr c.data) h.buffer hfeeds _
  case isFalse herr =>
    have hok := hready (status_of_not_hasError herr)
    split
    case isTrue hlt =>
      -- the rest of the chunk goes to the buffer
      have hdrop : (c.data.drop k).length < 2 ^ 32 := by
        rw [List.length_drop]
        omega
      obtain ⟨hb, hreg⟩ := h.buffer.append hdrop
      split
      case isTrue hroom =>
        refine ⟨fun _ => hok, hb, hfeeds, fun _ => htaken, fun _ => ?_⟩
        show (s.recvBuffer.append (c.data.drop k)).1.readRegion = s.received.drop (s.taken + k)
        rw [hreg, if_pos (show (s.recvBuffer.append (c.data.drop k)).2 = true from hroom), hempty,
          List.nil_append, hrest]
      case isFalse => exact .of_closed rfl hb hfeeds
    case isFalse hge =>
      refine ⟨fun _ => hok, h.buffer, hfeeds, fun _ => htaken, fun _ => ?_⟩
      show s.recvBuffer.readRegion = s.received.drop (s.taken + k)
      rw [hempty, hrest, List.drop_eq_nil_of_le (by omega)]

theorem Offered.recvBuffered (h : s.Offered c.data) (hlen : c.data.length < 2 ^ 32)
    (hfed : (s.recvBuffer.append c.data).2 = true →
      HttpParser.Fed (s.recvBuffer.append c.data).1.readRegion.length
        (s.parser.feed H (base + (s.recvBuffer.append c.data).1.readPos)
          (s.recvBuffer.append c.data).1.readRegion)) :
    (s.recvBuffered H base c).Inv := by
  obtain ⟨hb, hreg⟩ := h.buffer.append hlen
  unfold HttpRecv.recvBuffered
  simp only
  generalize s.recvBuffer.append c.data = a at hb hreg hfed ⊢
  split
  case isFalse => exact .of_closed rfl hb h.feeds
  case isTrue hroom =>
    rw [hroom, if_pos rfl] at hreg
    obtain ⟨k, hk, hr, hready⟩ := hfed hroom
    have hfeeds := feeds_feed (s := { s with recvBuffer := a.1 }) h.feeds hk hr
    simp only [hr]
    split
    case isTrue =>
      exact .failParse (s := HttpRecv.feed H { s with recvBuffer := a.1 } _ _) hb hfeeds _
    case isFalse herr =>
      have hok := hready (status_of_not_hasError herr)
      obtain ⟨hb', hreg'⟩ := hb.onRead hk
      have hrest : s.received.drop (s.taken + k) = (a.1.onRead k).readRegion := by
        rw [← List.drop_drop, h.rest, hreg', hreg]
      have htaken : s.taken + k ≤ s.received.length :=
        h.taken_add_le (by rw [hreg, List.length_append] at hk; exact hk)
      refine ⟨fun _ => hok, ?_, hfeeds, fun _ => htaken, fun _ => ?_⟩
      · show (if (a.1.onRead k).shouldCompact then (a.1.onRead k).compact
          else a.1.onRead k).WellFormed
        split
        · exact hb'.compact.1
        · exact hb'
      · show (if (a.1.onRead k).shouldCompact then (a.1.onRead k).compact
          else a.1.onRead k).readRegion = s.received.drop (s.taken + k)
        rw [hrest]
        split
        · exact hb'.compact.2.1
        · rfl

theorem fedRegion_length (hb : s.recvBuffer.WellFormed) (hlen : c.data.length < 2 ^ 32)
    {addr : Nat} {bytes : Bytes} (hreg : s.fedRegion base c = some (addr, bytes)) :
    bytes.length < 2 ^ 32 := by
  unfold fedRegion at hreg
  split at hreg
  · cases hreg
  · split at hreg
    · cases hreg
      exact hlen
    · split at hreg
      · cases hreg
        exact (hb.append hlen).1.length_readRegion_lt
      · cases hreg

theorem mem_feeds_feed (addr : Nat) (bytes : Bytes) :
    ((s.parser.feed H addr bytes).2, bytes.length) ∈ (s.feed H addr bytes).feeds :=
  List.mem_append_right _ List.mem_cons_self

theorem feeds_recvDirect : (s.recvDirect H c).feeds = (s.feed H c.addr c.data).feeds := by
  simp only [recvDirect]
  split
  · rfl
  · split
    · exact feeds_failParse _ _
    · split
      · split <;> rfl
      · rfl

theorem feeds_recvBuffered (hroom : (s.recvBuffer.append c.data).2 = true) :
    (s.recvBuffered H base c).feeds = (s.feed H (base + (s.recvBuffer.append c.data).1.readPos)
      (s.recvBuffer.append c.data).1.readRegion).feeds := by
  simp only [recvBuffered, hroom, if_true]
  split
  · rfl
  · split
    · exact feeds_failParse _ _
    · rfl

/-- A chunk's `Feed` is recorded. -/
theorem mem_feeds_handleHttpRecv {addr : Nat} {bytes : Bytes}
    (hreg : s.fedRegion base c = some (addr, bytes)) :
    ((s.parser.feed H addr bytes).2, bytes.length) ∈ (s.handleHttpRecv H base c).feeds := by
  unfold fedRegion at hreg
  simp only [handleHttpRecv]
  split at hreg
  case isTrue => cases hreg
  case isFalse hexp =>
    rw [if_neg hexp]
    split at hreg
    case isTrue hempty =>
      cases hreg
      rw [if_pos hempty, feeds_recvDirect]
      exact mem_feeds_feed (s := { s with received := s.received ++ c.data }) _ _
    case isFalse hempty =>
      split at hreg
      case isFalse => cases hreg
      case isTrue hroom =>
        cases hreg
        rw [if_neg hempty,
          feeds_recvBuffered (s := { s with received := s.received ++ c.data }) hroom]
        exact mem_feeds_feed (s := { s with received := s.received ++ c.data }) _ _

theorem Inv.handleHttpRecv (hL : L.Lawful) (h : s.Inv) (hc : s.closed = false)
    (hlen : c.data.length < 2 ^ 32) (hin : s.ResumesInside base c) :
    (s.handleHttpRecv H base c).Inv := by
  have hfed : ∀ addr bytes, s.fedRegion base c = some (addr, bytes) →
      HttpParser.Fed bytes.length (s.parser.feed H addr bytes) := fun addr bytes hreg =>
    (HttpParser.feed_ready hL (h.parser hc) addr (fedRegion_length h.buffer hlen hreg)).2
      (hin addr bytes hreg)
  have hoff := h.offered hc c.data
  unfold fedRegion at hfed
  simp only [HttpRecv.handleHttpRecv]
  split
  case isTrue => exact .of_closed rfl h.buffer h.feeds
  case isFalse hexp =>
    rw [if_neg hexp] at hfed
    split
    case isTrue hempty =>
      rw [if_pos hempty] at hfed
      exact hoff.recvDirect (h.buffer.readRegion_eq_nil_iff.2 hempty) hlen (hfed _ _ rfl)
    case isFalse hempty =>
      rw [if_neg hempty] at hfed
      exact hoff.recvBuffered hlen fun hroom => hfed _ _ (if_pos hroom)

theorem inv_step (hL : L.Lawful) (s : HttpRecv L) (c : RecvChunk) (s' : HttpRecv L) (h : s.Inv)
    (hs : step H base s c = some s') (hin : s.ResumesInside base c) : s'.Inv := by
  unfold step at hs
  split at hs
  case isFalse => cases hs
  case isTrue hg =>
    cases hs
    exact h.handleHttpRecv hL hg.1 (by omega) hin

/-- A chunk that resumes llhttp outside its input makes `Feed` return too much. -/
theorem not_safe_step (hL : L.Lawful) (s : HttpRecv L) (c : RecvChunk) (s' : HttpRecv L)
    (h : s.Inv) (hs : step H base s c = some s') (hout : ¬ s.ResumesInside base c) :
    ¬ s'.Safe := by
  intro hsafe
  unfold step at hs
  split at hs
  case isFalse => cases hs
  case isTrue hg =>
    cases hs
    refine hout fun addr bytes hreg hp hne => ?_
    have hready := h.parser hg.1
    obtain ⟨k, hk, hr⟩ := hsafe.feeds _ (mem_feeds_handleHttpRecv hreg)
    refine (HttpParser.feed_ready (H := H) hL hready addr
      (fedRegion_length h.buffer (by omega) hreg)).1 ⟨k, hk, hr, fun _ => ?_⟩ hp hne
    rw [HttpParser.feed_paused hready hp addr hne]
    exact hready

/-- **Receive-buffer safety.** Whatever the chunks, their addresses and the
handlers' decisions: all through the run `Feed` takes no more than it is given
and the buffer holds the rest of the stream, exactly when no chunk makes `Feed`
run on an llhttp that was left paused outside of the input given. -/
theorem recv_buffer_safe (hL : L.Lawful) (H : HttpHandlers) (base : Nat)
    (options : HttpParserOptions) (chunks : List RecvChunk) :
    Trace.Visits (step H base) Safe (make L options) chunks ↔
      Trace.Steps (step H base) (ResumesInside base) (make L options) chunks :=
  Trace.visits_iff_steps (fun _ h => h.safe) (inv_step hL) (not_safe_step hL) chunks (.make options)

/-! ## A request that closes the connection -/

/-- `GET / HTTP/1.0` and an empty line. -/
def closingRequest : Bytes :=
  [71, 69, 84, 32, 47, 32, 72, 84, 84, 80, 47, 49, 46, 48, 13, 10, 13, 10]

def closingCalls (done : Bool) (input : Bytes) : List (LlCall × Nat × Bool) :=
  if done = false ∧ closingRequest.isPrefixOf input = true then
    [(.messageBegin, 0, false), (.url [47], 5, false), (.urlComplete, 5, false),
      (.headersComplete 1 false, 18, false), (.messageComplete, 18, true)]
  else []

/-- llhttp on `closingRequest`: its callbacks and positions, and no data is
accepted behind a request that closes the connection. -/
def closingLlhttp : Llhttp where
  State := Bool
  init := false
  calls := closingCalls
  finish done _ := if done then .error 0 else .ok done

theorem mem_closingCalls {done : Bool} {input : Bytes} {c : LlCall × Nat × Bool}
    (hc : c ∈ closingCalls done input) :
    c.2.1 ≤ input.length ∧ (c.1 = .messageComplete → 0 < c.2.1) := by
  unfold closingCalls at hc
  split at hc
  case isFalse => cases hc
  case isTrue hg =>
    have hlen : 18 ≤ input.length := (List.isPrefixOf_iff_prefix.1 hg.2).length_le
    simp only [List.mem_cons, List.not_mem_nil, or_false] at hc
    rcases hc with rfl | rfl | rfl | rfl | rfl <;> refine ⟨?_, ?_⟩ <;> simp <;> omega

theorem closingLlhttp_lawful : closingLlhttp.Lawful where
  call_le _ _ _ hc := (mem_closingCalls hc).1
  complete_pos _ _ _ hc := (mem_closingCalls hc).2
  finish_le done _ _ h := by
    cases done <;> cases h
    exact Nat.zero_le _

/-- `HandleRequest` goes on after a keep-alive request only. -/
def keepAliveHandlers : HttpHandlers where
  onHeaders _ r := (r, .buffer)
  onBodyChunk _ r _ := (r, true)
  onRequest _ r := (r, r.keepAlive)

/-- One byte behind the closing request, and another chunk before the session is
flushed and closed: `OnRead` moves the read position far behind the write
position, and `Compact` then takes the 32-bit difference for a length. -/
def chunksAfterStop : List RecvChunk :=
  [{ addr := 1000, data := closingRequest ++ [71] }, { addr := 3000, data := [69] }]

theorem feed_overruns_after_stop :
    closingLlhttp.Lawful ∧
    ∃ s, Trace.run (step keepAliveHandlers 9000) (make closingLlhttp {}) chunksAfterStop = some s ∧
      s.feeds = [(some 18, 19), (some 4294959314, 2)] ∧
      s.recvBuffer.readPos = 0 ∧ s.recvBuffer.writePos = 7984 ∧ ¬ s.Safe := by
  refine ⟨closingLlhttp_lawful, _, rfl, rfl, rfl, rfl, fun h => ?_⟩
  obtain ⟨k, hk, hr⟩ := h.feeds (some 4294959314, 2) (List.mem_cons_of_mem _ List.mem_cons_self)
  obtain rfl := Option.some.inj hr
  exact absurd hk (by decide)

/-- A second chunk in the buffer the first one came in. -/
def chunksInPlace : List RecvChunk :=
  [{ addr := 1000, data := closingRequest }, { addr := 1000, data := closingRequest ++ [71, 69] }]

theorem recv_buffer_safe_in_place :
    closingLlhttp.Lawful ∧
      Trace.Visits (step keepAliveHandlers 9000) Safe (make closingLlhttp {}) chunksInPlace := by
  refine ⟨closingLlhttp_lawful, (recv_buffer_safe closingLlhttp_lawful _ _ _ _).2 ?_⟩
  intro s hs
  cases hs
  refine ⟨fun _ _ _ h _ => (nomatch h), fun s' hs' => ⟨?_, trivial⟩⟩
  intro addr bytes hreg _ _
  cases hreg
  exact ⟨18, by decide, rfl⟩

end HttpRecv

end IouringRuntime
