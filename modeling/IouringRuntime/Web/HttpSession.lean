import IouringRuntime.Session.Code
import IouringRuntime.Web.HttpResponse

/-!
# Sending HTTP responses

`HttpSession` on its sending side (`HttpSession.cpp`, `HttpSessionFile.cpp`)
with `HttpResponse::Send` and `SendFile`, a layer over the session's machine.
A small response is one `Session::Send`. A larger body, or a file, becomes the
session's body or file stream: the header and the first chunks are sent at
once, the rest from `OnSocketDrained`, a few chunks at a time.

`OnRecv` is where the parser dispatches requests; user code is their handlers,
each of which sends its response. `OnTimeoutTick` finds no deadline passed.
`responses` and `handed` are history: the whole responses the handlers sent, in
the order of their requests, and the bytes given to `Session::Send`.
-/

namespace IouringRuntime

open Reentrant

structure BodyStream where
  body : Bytes := []
  offset : Nat := 0
  chunkSize : Nat := 256 * 1024
  maxChunksPerWrite : Nat := 4
  active : Bool := false
  deriving DecidableEq, Repr

/-- The descriptor is what reading it would still give. -/
structure FileStream where
  fd : Bytes := []
  remainingBytes : Nat := 0
  chunkSize : Nat := 256 * 1024
  maxChunksPerWrite : Nat := 4
  active : Bool := false
  deriving DecidableEq, Repr

/-- `open` and `fstat` of the file to send. -/
inductive FileOpen where
  | regular (content : Bytes)
  | notFound
  | openFailed
  | notRegular
  deriving DecidableEq, Repr

/-- The `read` loop for one chunk: it fills the buffer, meets the end of the
file after `n` bytes, or fails. -/
inductive FileRead where
  | full
  | short (n : Nat)
  | failed
  deriving DecidableEq, Repr

namespace FileStream

def nextSize (f : FileStream) : Nat := min f.remainingBytes f.chunkSize

/-- The bytes of the next chunk; `none` when `read` fails. -/
def read (f : FileStream) : FileRead → Option Bytes
  | .full => some (f.fd.take f.nextSize)
  | .short n => some (f.fd.take (min n f.nextSize))
  | .failed => none

def advance (f : FileStream) (n : Nat) : FileStream :=
  { f with fd := f.fd.drop n, remainingBytes := f.remainingBytes - n }

end FileStream

/-- What the environment decides for one segment: `Session`'s part, the `Date`
header, the buffer allocations of `Build`, of a header and of a chunk, and the
file. `hasPendingAppWork` is `async_work_count_ != 0` here. -/
structure HttpOutcome where
  session : Outcome := {}
  date : Bytes := []
  newResponse : Bool := true
  newHeader : Bool := true
  newChunk : Bool := true
  read : FileRead := .full
  deriving DecidableEq, Repr

inductive HttpCallback where
  | onRecv (data : Bytes)
  deriving DecidableEq, Repr

inductive HttpInstr where
  | session (i : Instr)
  | pumpFileStream
  | pumpBodyStream
  /-- `StartFileStream` after the `Send` of the header. -/
  | fileHeaderSent
  /-- `StartBodyStream` after the `Send` of the header. -/
  | bodyHeaderSent
  /-- The loop of `PumpFileStream` after the `Send` of chunk `i`, which may have
  been cut short by the end of the file. -/
  | fileChunkSent (i : Nat) (short : Bool)
  /-- The loop of `PumpBodyStream` after the `Send` of chunk `i`. -/
  | bodyChunkSent (i : Nat)
  | onDisconnected
  deriving DecidableEq, Repr

def Api.isSend : Api → Bool
  | .send _ => true
  | _ => false

/-- Handlers send through a response only. -/
inductive HttpApi where
  | session (a : { a : Api // a.isSend = false })
  | send (r : HttpResponse)
  | sendFile (r : HttpResponse) (file : FileOpen) (contentType : Bytes)
      (chunkSize maxChunksPerWrite : Nat)
  deriving DecidableEq, Repr

structure HttpSession where
  session : Session
  fileStream : FileStream := {}
  bodyStream : BodyStream := {}
  responses : Bytes := []
  handed : Bytes := []
  deriving DecidableEq, Repr

abbrev HFrame := Frame HttpInstr HttpCallback

/-- The state a segment leaves and the frames it puts on the stack. -/
abbrev HSeg := HttpSession × List HFrame

namespace HttpSession

def kInlineResponseMaxBytes : Nat := 256 * 1024
def kBodyStreamChunkSize : Nat := 256 * 1024
def kBodyStreamMaxChunksPerWrite : Nat := 4

def liftFrame : SFrame → List HFrame
  | .code i => [.code (.session i)]
  | .callback (.onRecv data) => [.callback (.onRecv data)]
  | .callback .onSocketDrained => [.code .pumpFileStream, .code .pumpBodyStream]
  | .callback .onDisconnected => [.code .onDisconnected]
  | .callback .onConnected | .callback (.onTimeoutTick _) | .callback (.onBackpressure _) => []

/-- Go on with a segment of the session. -/
def inSession (s : HttpSession) (r : Seg) : HSeg :=
  ({ s with session := r.1 }, r.2.flatMap liftFrame)

def andThen (r : HSeg) (k : List HFrame) : HSeg := (r.1, r.2 ++ k)

/-- A response is being streamed. -/
def streaming (s : HttpSession) : Bool := s.fileStream.active || s.bodyStream.active

theorem inactive_of_not_streaming {s : HttpSession} (h : s.streaming = false) :
    s.fileStream.active = false ∧ s.bodyStream.active = false :=
  Bool.or_eq_false_iff.1 h

/-- The environment of the session, with `HasPendingAppWork` as overridden. -/
def outcome (s : HttpSession) (o : HttpOutcome) : Outcome :=
  { o.session with hasPendingAppWork := o.session.hasPendingAppWork || s.streaming }

/-- `Session::Send` of a buffer with these bytes. -/
def sendBytes (s : HttpSession) (o : HttpOutcome) (bytes : Bytes) : HSeg :=
  inSession { s with handed := s.handed ++ bytes } (s.session.sendOnOwner (s.outcome o) ⟨bytes⟩)

def disconnect (s : HttpSession) (o : HttpOutcome) : HSeg :=
  s.inSession (s.session.disconnectOnOwner (s.outcome o) .disconnect)

/-! ## Body streams -/

def resetBodyStream (s : HttpSession) : HttpSession :=
  { s with bodyStream := { s.bodyStream with body := [], offset := 0, active := false } }

/-- The loop of `PumpBodyStream` from chunk `i` on. -/
def pumpBodyChunk (s : HttpSession) (o : HttpOutcome) (i : Nat) : HSeg :=
  let b := s.bodyStream
  if i < b.maxChunksPerWrite ∧ b.offset < b.body.length then
    let nextSize := min (b.body.length - b.offset) b.chunkSize
    if !o.newChunk then s.resetBodyStream.disconnect o
    else
      andThen
        (sendBytes { s with bodyStream := { b with offset := b.offset + nextSize } } o
          ((b.body.drop b.offset).take nextSize))
        [.code (.bodyChunkSent i)]
  else if b.body.length ≤ b.offset then (s.resetBodyStream, [])
  else (s, [])

def pumpBodyStream (s : HttpSession) (o : HttpOutcome) : HSeg :=
  if !s.bodyStream.active then (s, [])
  else if s.bodyStream.body.length ≤ s.bodyStream.offset then (s.resetBodyStream, [])
  else s.pumpBodyChunk o 0

def bodyChunkSent (s : HttpSession) (o : HttpOutcome) (i : Nat) : HSeg :=
  if s.session.sendResult.isSome then (s.resetBodyStream, []) else s.pumpBodyChunk o (i + 1)

def bodyHeaderSent (s : HttpSession) (o : HttpOutcome) : HSeg :=
  if s.session.sendResult.isSome then (s.resetBodyStream, []) else s.pumpBodyStream o

def startBodyStream (s : HttpSession) (o : HttpOutcome) (header body : Bytes)
    (chunkSize maxChunksPerWrite : Nat) : HSeg :=
  if s.streaming then (s, [])
  else
    andThen
      (sendBytes
        { s with bodyStream := ⟨body, 0, max chunkSize (4 * 1024), max maxChunksPerWrite 1, true⟩ }
        o header)
      [.code .bodyHeaderSent]

/-! ## File streams -/

def resetFileStream (s : HttpSession) : HttpSession :=
  { s with fileStream := { s.fileStream with fd := [], remainingBytes := 0, active := false } }

/-- The loop of `PumpFileStream` from chunk `i` on. -/
def pumpFileChunk (s : HttpSession) (o : HttpOutcome) (i : Nat) : HSeg :=
  let f := s.fileStream
  if i < f.maxChunksPerWrite ∧ 0 < f.remainingBytes then
    if !o.newChunk then s.resetFileStream.disconnect o
    else
      match f.read o.read with
      | none => s.resetFileStream.disconnect o
      | some data =>
        if data.isEmpty then (s.resetFileStream, [])
        else
          andThen (sendBytes { s with fileStream := f.advance data.length } o data)
            [.code (.fileChunkSent i (data.length < f.nextSize))]
  else if f.remainingBytes = 0 then (s.resetFileStream, [])
  else (s, [])

def pumpFileStream (s : HttpSession) (o : HttpOutcome) : HSeg :=
  if !s.fileStream.active then (s, [])
  else if s.fileStream.remainingBytes = 0 then (s.resetFileStream, [])
  else s.pumpFileChunk o 0

def fileChunkSent (s : HttpSession) (o : HttpOutcome) (i : Nat) (short : Bool) : HSeg :=
  if s.session.sendResult.isSome then (s.resetFileStream, [])
  else if short then (s.resetFileStream, [])
  else s.pumpFileChunk o (i + 1)

def fileHeaderSent (s : HttpSession) (o : HttpOutcome) : HSeg :=
  if s.session.sendResult.isSome then (s.resetFileStream, []) else s.pumpFileStream o

def startFileStream (s : HttpSession) (o : HttpOutcome) (header content : Bytes)
    (chunkSize maxChunksPerWrite : Nat) : HSeg :=
  if s.streaming then (s, [])
  else
    andThen
      (sendBytes
        { s with fileStream :=
            ⟨content, content.length, max chunkSize (4 * 1024), max maxChunksPerWrite 1, true⟩ }
        o header)
      [.code .fileHeaderSent]

/-! ## Responses -/

/-- History: a handler sends a response with these bytes. -/
def respond (s : HttpSession) (bytes : Bytes) : HttpSession :=
  { s with responses := s.responses ++ bytes }

/-- `HttpResponse::Send`. A response that fits but for which `Build` gets no
buffer is tried as a stream. -/
def sendResponse (s : HttpSession) (o : HttpOutcome) (r : HttpResponse) : HSeg :=
  let headers := r.serializeHeaders o.date r.body.length
  if headers.length + (r.sentBody r.body).length ≤ kInlineResponseMaxBytes ∧ o.newResponse then
    s.sendBytes o (r.serialize o.date)
  else if !o.newHeader then (s, [])
  else if r.noBody || r.body.isEmpty then s.sendBytes o headers
  else s.startBodyStream o headers r.body kBodyStreamChunkSize kBodyStreamMaxChunksPerWrite

/-- `last_built_bytes_` after `HttpResponse::Send`: the total size, which `Build`
stores again for a response that fits. -/
def lastBuiltBytes (o : HttpOutcome) (r : HttpResponse) : Nat :=
  let totalSize := r.totalSize o.date
  if totalSize ≤ kInlineResponseMaxBytes then (r.build o.date o.newResponse totalSize).2
  else totalSize

/-- The response `SendFile` works on: never keep-alive, and with the content
type given unless one is set. -/
def fileResponse (r : HttpResponse) (contentType : Bytes) : HttpResponse :=
  { r with
    keepAlive := false
    contentType :=
      if r.contentType.isEmpty && !contentType.isEmpty then contentType else r.contentType }

/-- `HttpResponse::SendFile`. If there is no buffer for the header the response
is still unsent, and `HandleRequest` sends it as it is. -/
def sendFile (s : HttpSession) (o : HttpOutcome) (r : HttpResponse) (file : FileOpen)
    (contentType : Bytes) (chunkSize maxChunksPerWrite : Nat) : HSeg :=
  let r := fileResponse r contentType
  match file with
  | .notFound =>
    let e := r.error .kNotFound "Not Found"
    (s.respond (e.serialize o.date)).sendResponse o e
  | .openFailed | .notRegular =>
    let e := r.error .kInternalServerError "Internal Server Error"
    (s.respond (e.serialize o.date)).sendResponse o e
  | .regular content =>
    let s := s.respond (r.serializeFile o.date content)
    let headers := r.serializeHeaders o.date content.length
    if !o.newHeader then s.sendResponse o r
    else if r.noBody then s.sendBytes o headers
    else s.startFileStream o headers content chunkSize maxChunksPerWrite

/-! ## The machine -/

def exec (o : HttpOutcome) (s : HttpSession) : HttpInstr → HSeg
  | .session i => s.inSession (s.session.exec (s.outcome o) i)
  | .pumpFileStream => s.pumpFileStream o
  | .pumpBodyStream => s.pumpBodyStream o
  | .fileHeaderSent => s.fileHeaderSent o
  | .bodyHeaderSent => s.bodyHeaderSent o
  | .fileChunkSent i short => s.fileChunkSent o i short
  | .bodyChunkSent i => s.bodyChunkSent o i
  | .onDisconnected => (s.resetFileStream.resetBodyStream, [])

def call (o : HttpOutcome) (s : HttpSession) : HttpApi → HSeg
  | .session a => s.inSession (s.session.call (s.outcome o) a)
  | .send r => (s.respond (r.serialize o.date)).sendResponse o r
  | .sendFile r file contentType chunkSize maxChunks =>
    s.sendFile o r file contentType chunkSize maxChunks

def event (o : HttpOutcome) (s : HttpSession) (e : OpId × Cqe) : Option HSeg :=
  (s.session.event (s.outcome o) e).map s.inSession

def machine : Machine HttpSession HttpInstr HttpCallback HttpApi (OpId × Cqe) HttpOutcome where
  exec := exec
  call := call
  event := event
  ret s _ _ := s

abbrev HConf := Conf HttpSession HttpInstr HttpCallback

abbrev HInput := Input HttpApi (OpId × Cqe) HttpOutcome

def initConf (cfg : Config) : HConf := ⟨{ session := Session.init cfg }, []⟩

end HttpSession

end IouringRuntime
