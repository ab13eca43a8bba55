import IouringRuntime.Media.Hls
import IouringRuntime.Web.HttpResponse

/-!
# The session of the activity server

`ActivitySession` (`app/activity-server`) reads HTTP requests until one of them
upgrades the connection, and WebSocket frames from then on. The two buffers, the
parsers and the two loops are here; what the session asks of its base class, of
the hub and of the handlers of the other routes is recorded in `calls`. None of
those touches the buffers or `websocket_`.

`std::istringstream` is the text that is left to read: it is at its end exactly
when nothing is left. `isspace`, `tolower` are those of the "C" locale.
-/

namespace IouringRuntime

open Search Hls

namespace ActivityServer

structure HttpRequest where
  method : Bytes
  target : Bytes
  path : Bytes
  query : Bytes
  /-- The header assigned last comes first. -/
  headers : List (Bytes × Bytes)
  body : Bytes
  deriving DecidableEq, Repr

inductive ActivityCall where
  | sendRaw (data : Bytes)
  | disconnect
  | disconnectAfterFlush
  /-- `HandleHttp` for any path but `/ws`. -/
  | route (req : HttpRequest)
  | handleWsText (text : Bytes)
  deriving DecidableEq, Repr

/-- What the session depends on: the digest of a key, and whether the session is
disconnecting after the calls it has made. -/
structure ActivityEnv where
  webSocketAccept : Bytes → Bytes
  disconnecting : List ActivityCall → Bool

/-- `seen` and `received` are history: the bytes that came to `ProcessWsBuffer`,
and the opcode and the payload of each frame it took. -/
structure ActivitySession where
  httpBuffer : Bytes := []
  wsBuffer : Bytes := []
  websocket : Bool := false
  calls : List ActivityCall := []
  seen : Bytes := []
  received : List (UInt8 × Bytes) := []
  deriving DecidableEq, Repr

/-! ## Texts -/

def isSpace (ch : UInt8) : Bool := ch == 32 || (9 ≤ ch && ch ≤ 13)

def isDigit (ch : UInt8) : Bool := 48 ≤ ch && ch ≤ 57

def lower (text : Bytes) : Bytes := text.map fun ch => if 65 ≤ ch ∧ ch ≤ 90 then ch + 32 else ch

def trim (text : Bytes) : Bytes :=
  ((text.dropWhile isSpace).reverse.dropWhile isSpace).reverse

/-- `in >> word`: the word and what is left. -/
def extract (text : Bytes) : Bytes × Bytes :=
  let text := text.dropWhile isSpace
  (text.takeWhile fun ch => !isSpace ch, text.dropWhile fun ch => !isSpace ch)

/-- The sign that `strtoull` reads: whether it is a minus, and what follows. -/
def readSign : Bytes → Bool × Bytes
  | 45 :: text => (true, text)
  | 43 :: text => (false, text)
  | text => (false, text)

/-- `std::stoull`: `none` if it throws. A number behind a minus is negated
modulo 2^64. -/
def stoull (text : Bytes) : Option Nat :=
  let signed := readSign (text.dropWhile isSpace)
  let digits := signed.2.takeWhile isDigit
  let value := digits.foldl (fun n ch => 10 * n + (ch.toNat - 48)) 0
  if digits = [] then none
  else if 0x10000000000000000 ≤ value then none
  else some (if signed.1 then (0x10000000000000000 - value) % 0x10000000000000000 else value)

/-! ## Requests -/

/-- A header line, if it has a colon. -/
def headerField (line : Bytes) : Option (Bytes × Bytes) :=
  (cut [58] line).map fun x => (lower x.1, trim x.2)

/-- The `getline` loop over the header lines. -/
def readHeaders (text : Bytes) : List (Bytes × Bytes) :=
  (lines text).foldl (fun headers line => (headerField (stripCr line)).toList ++ headers) []

/-- The request that the text in front of the empty line describes. -/
def parseHead (head : Bytes) : HttpRequest :=
  let method := extract head
  let target := extract method.2
  let version := extract target.2
  let headers := (getline version.2).elim [] fun x => readHeaders x.2
  { method := method.1
    target := target.1
    path := (cut [63] target.1).elim target.1 (·.1)
    query := (cut [63] target.1).elim [] (·.2)
    headers
    body := [] }

/-- `body_len`; `none` if `std::stoull` throws. -/
def HttpRequest.bodyLen (req : HttpRequest) : Option Nat :=
  match req.headers.lookup (ascii "content-length") with
  | none => some 0
  | some value => stoull value

def reason (status : Nat) : Bytes :=
  if status = 400 then ascii "Bad Request"
  else if status = 404 then ascii "Not Found"
  else if status = 431 then ascii "Request Header Fields Too Large"
  else if status = 501 then ascii "Not Implemented"
  else if status = 502 then ascii "Bad Gateway"
  else if 500 ≤ status then ascii "Internal Server Error"
  else ascii "OK"

/-! ## Frames -/

/-- The last `n` bytes of `len`, the most significant first. -/
def bigEndian (n len : Nat) : Bytes :=
  (List.range n).map fun i => UInt8.ofNat (len >>> ((n - 1 - i) * 8) &&& 0xff)

/-- The first bytes of a frame; `bit` is the mask bit, which `SendWsFrame` never
sets. -/
def frameHead (bit opcode : UInt8) (len : Nat) : Bytes :=
  (0x80 ||| opcode) ::
    if len < 126 then [bit ||| UInt8.ofNat len]
    else if len ≤ 0xffff then (bit ||| 126) :: bigEndian 2 len
    else (bit ||| 127) :: bigEndian 8 len

/-- The frame that `SendWsFrame` sends. -/
def wsFrame (opcode : UInt8) (payload : Bytes) : Bytes :=
  frameHead 0 opcode payload.length ++ payload

/-- The bytes of a number, the most significant first. -/
def ofBigEndian (bytes : Bytes) : Nat := bytes.foldl (fun len b => len <<< 8 ||| b.toNat) 0

/-- The length that a frame declares and where it goes on; `none` if the length
is not complete. -/
def frameLength (b1 : UInt8) (buffer : Bytes) : Option (Nat × Nat) :=
  if b1 &&& 0x7f = 126 then
    if buffer.length < 4 then none else some (ofBigEndian ((buffer.drop 2).take 2), 4)
  else if b1 &&& 0x7f = 127 then
    if buffer.length < 10 then none else some (ofBigEndian ((buffer.drop 2).take 8), 10)
  else some ((b1 &&& 0x7f).toNat, 2)

/-- The payload with the mask on or off; `mask` has four bytes. -/
def applyMask (mask payload : Bytes) : Bytes :=
  payload.mapIdx fun i ch => ch ^^^ mask.getD (i % 4) 0

inductive FrameResult where
  | incomplete
  | tooLong
  | frame (opcode : UInt8) (payload : Bytes) (size : Nat)
  deriving DecidableEq, Repr

/-- A turn of `ProcessWsBuffer` up to the `erase`. -/
def nextFrame : Bytes → FrameResult
  | b0 :: b1 :: rest =>
    let buffer := b0 :: b1 :: rest
    match frameLength b1 buffer with
    | none => .incomplete
    | some (len, pos) =>
      if 1024 * 1024 < len then .tooLong
      else if b1 &&& 0x80 ≠ 0 then
        if buffer.length < pos + 4 then .incomplete
        else if buffer.length < pos + 4 + len then .incomplete
        else
          .frame (b0 &&& 0x0f)
            (applyMask ((buffer.drop pos).take 4) ((buffer.drop (pos + 4)).take len))
            (pos + 4 + len)
      else if buffer.length < pos + len then .incomplete
      else .frame (b0 &&& 0x0f) ((buffer.drop pos).take len) (pos + len)
  | _ => .incomplete

theorem frameLength_pos {b1 : UInt8} {buffer : Bytes} {x : Nat × Nat}
    (h : frameLength b1 buffer = some x) : 2 ≤ x.2 := by
  unfold frameLength at h
  split at h
  · split at h
    · cases h
    · cases h; show 2 ≤ 4; decide
  · split at h
    · split at h
      · cases h
      · cases h; show 2 ≤ 10; decide
    · cases h; exact Nat.le_refl 2

/-- A frame taken is in the buffer, and not empty. -/
theorem nextFrame_size {buffer payload : Bytes} {opcode : UInt8} {size : Nat}
    (h : nextFrame buffer = .frame opcode payload size) : 2 ≤ size ∧ size ≤ buffer.length := by
  unfold nextFrame at h
  split at h
  · dsimp only at h
    split at h
    · cases h
    · next len pos hlen =>
      have hpos : 2 ≤ pos := frameLength_pos hlen
      repeat' split at h
      all_goals cases h
      all_goals omega
  · cases h

namespace ActivitySession

def call (s : ActivitySession) (c : ActivityCall) : ActivitySession :=
  { s with calls := s.calls ++ [c] }

def sendHttp (s : ActivitySession) (status : Nat) (contentType body : Bytes) : ActivitySession :=
  (s.call (.sendRaw (
    ascii "HTTP/1.1 " ++ decimal status ++ ascii " " ++ reason status ++ crlf ++
    ascii "Server: iouring_activity_server" ++ crlf ++
    ascii "Content-Type: " ++ contentType ++ crlf ++
    ascii "Content-Length: " ++ decimal body.length ++ crlf ++
    ascii "Access-Control-Allow-Origin: *" ++ crlf ++
    ascii "Connection: close" ++ crlf ++ crlf ++ body))).call .disconnectAfterFlush

/-- Lengths are `size_t`: the total is reduced modulo 2^64. -/
def tryParseHttp (s : ActivitySession) : ActivitySession × Option HttpRequest :=
  match cut (crlf ++ crlf) s.httpBuffer with
  | none =>
    if 64 * 1024 < s.httpBuffer.length then
      ((s.sendHttp 431 (ascii "text/plain") (ascii "Request Header Fields Too Large")).call
        .disconnectAfterFlush, none)
    else (s, none)
  | some (head, _) =>
    match (parseHead head).bodyLen with
    | none =>
      ((s.sendHttp 400 (ascii "text/plain") (ascii "Bad Request")).call .disconnectAfterFlush, none)
    | some bodyLen =>
      let total := (head.length + 4 + bodyLen) % 0x10000000000000000
      if s.httpBuffer.length < total then (s, none)
      else
        ({ s with httpBuffer := s.httpBuffer.drop total },
          some { parseHead head with body := (s.httpBuffer.drop (head.length + 4)).take bodyLen })

def upgradeWebSocket (env : ActivityEnv) (s : ActivitySession) (req : HttpRequest) :
    ActivitySession :=
  match req.headers.lookup (ascii "sec-websocket-key") with
  | none => s.sendHttp 400 (ascii "text/plain") (ascii "Missing Sec-WebSocket-Key")
  | some key =>
    { s.call (.sendRaw (
        ascii "HTTP/1.1 101 Switching Protocols" ++ crlf ++
        ascii "Upgrade: websocket" ++ crlf ++
        ascii "Connection: Upgrade" ++ crlf ++
        ascii "Sec-WebSocket-Accept: " ++ env.webSocketAccept key ++ crlf ++ crlf)) with
      websocket := true }

def handleHttp (env : ActivityEnv) (s : ActivitySession) (req : HttpRequest) : ActivitySession :=
  if req.method = ascii "GET" ∧ req.path = ascii "/ws" then s.upgradeWebSocket env req
  else s.call (.route req)

/-- Whether the loop of `ProcessHttpBuffer` ends behind a request. -/
def stops (env : ActivityEnv) (s : ActivitySession) : Bool :=
  s.websocket || env.disconnecting s.calls

/-- `none` if the loop handles more than `fuel` requests. -/
def processHttpBuffer (env : ActivityEnv) : Nat → ActivitySession → Option ActivitySession
  | fuel, s =>
    match s.tryParseHttp, fuel with
    | (t, none), _ => some t
    | (_, some _), 0 => none
    | (t, some req), fuel + 1 =>
      let u := t.handleHttp env req
      if u.stops env then some u else processHttpBuffer env fuel u

def processWsBuffer (s : ActivitySession) : ActivitySession :=
  match _h : nextFrame s.wsBuffer with
  | .incomplete => s
  | .tooLong => s.call .disconnect
  | .frame opcode payload size =>
    let s' :=
      { s with wsBuffer := s.wsBuffer.drop size, received := s.received ++ [(opcode, payload)] }
    if opcode = 0x8 then s'.call .disconnectAfterFlush
    else if opcode = 0x9 then processWsBuffer (s'.call (.sendRaw (wsFrame 0xA payload)))
    else if opcode = 0x1 then processWsBuffer (s'.call (.handleWsText payload))
    else processWsBuffer s'
termination_by s.wsBuffer.length
decreasing_by
  all_goals
    have := nextFrame_size _h
    simp only [call, List.length_drop]
    omega

def onRecv (env : ActivityEnv) (fuel : Nat) (s : ActivitySession) (data : Bytes) :
    Option ActivitySession :=
  if s.websocket then
    some { s with wsBuffer := s.wsBuffer ++ data, seen := s.seen ++ data }.processWsBuffer
  else { s with httpBuffer := s.httpBuffer ++ data }.processHttpBuffer env fuel

end ActivitySession

end ActivityServer

end IouringRuntime
