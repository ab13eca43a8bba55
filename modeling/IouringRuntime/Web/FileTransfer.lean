import IouringRuntime.Web.HttpSession

/-!
# Files as descriptors

`HttpResponse::SendFile` with the session's file stream once more, this time with
the descriptor that is opened, handed on and closed, and with the results of
`read` (`HttpResponse.cpp`, `HttpSession.cpp`, `HttpSessionFile.cpp`). In
`HttpSession` the file is its content and a chunk is read at once.

A layer over the session's machine. The rest of `HttpSession` is user code that
may call the session: the parser and the handlers, `HttpResponse::Send`, the body
stream, and what `OnSocketDrained` and `OnDisconnected` do after the file stream.

`StartFileStream` tells `SendFile` by one boolean that it has refused the
descriptor and that the stream has failed, and `SendFile` closes the descriptor
in both cases. The frames of a stream's start carry that descriptor; where the
rest of `SendFile` runs no user code it is part of the segment.

Descriptors are numbered as they are opened. The fields of `FileSession` after
`fileStream` are history.
-/

namespace IouringRuntime

open Reentrant

abbrev FileFd := Nat

/-- One `read`: bytes, of which there are none at the end of the file, `EINTR`, or
another error. -/
inductive ReadCall where
  | data (bytes : Bytes)
  | interrupted
  | failed
  deriving DecidableEq, Repr

/-- The `read` loop for one chunk, with the bytes it has; `none` when a `read`
fails. Past the results given is the end of the file. -/
def readChunk (nextSize : Nat) : List ReadCall → Bytes → Option Bytes
  | [], buffer => some buffer
  | r :: reads, buffer =>
    if nextSize ≤ buffer.length then some buffer
    else
      match r with
      | .data bytes =>
        let got := bytes.take (nextSize - buffer.length)
        if got.isEmpty then some buffer else readChunk nextSize reads (buffer ++ got)
      | .interrupted => readChunk nextSize reads buffer
      | .failed => none

/-- A chunk is never larger than its buffer. -/
theorem length_readChunk {nextSize : Nat} {data : Bytes} (reads : List ReadCall) :
    ∀ {buffer : Bytes}, buffer.length ≤ nextSize → readChunk nextSize reads buffer = some data →
      data.length ≤ nextSize := by
  induction reads with
  | nil =>
    intro buffer hle h
    obtain rfl := Option.some.inj h
    exact hle
  | cons r reads ih =>
    intro buffer hle h
    unfold readChunk at h
    split at h
    · obtain rfl := Option.some.inj h
      exact hle
    · cases r with
      | data bytes =>
        dsimp only at h
        split at h
        · obtain rfl := Option.some.inj h
          exact hle
        · refine ih ?_ h
          rw [List.length_append, List.length_take]
          omega
      | interrupted => exact ih hle h
      | failed => cases h

/-- `SocketHandle` of the stream: `none` is `-1`. -/
structure FileStreamState where
  fd : Option FileFd := none
  remainingBytes : Nat := 0
  chunkSize : Nat := 256 * 1024
  maxChunksPerWrite : Nat := 4
  active : Bool := false
  deriving DecidableEq, Repr

def FileStreamState.nextSize (f : FileStreamState) : Nat := min f.remainingBytes f.chunkSize

/-- `open` and `fstat` of the file to send. -/
inductive FileStat where
  | notFound
  | openFailed
  | notRegular
  | regular (size : Nat)
  deriving DecidableEq, Repr

structure FileSession where
  session : Session
  fileStream : FileStreamState := {}
  /-- The descriptors below it have been opened. -/
  nextFd : FileFd := 0
  /-- The `close` calls. -/
  closes : List FileFd := []
  /-- The length announced for the last stream. -/
  fileSize : Nat := 0
  /-- What the chunks of the last stream were read from the file. -/
  bytesRead : Bytes := []
  /-- What `Session::Send` accepted of them. -/
  queued : Bytes := []
  deriving DecidableEq, Repr

/-- What the environment decides for one segment: `Session`'s part, the `Date`
header, the allocations of a header and of a chunk, the `read` calls for a chunk
and whether a body stream is active. -/
structure FileOutcome where
  session : Outcome := {}
  date : Bytes := []
  newHeader : Bool := true
  newChunk : Bool := true
  reads : List ReadCall := []
  bodyActive : Bool := false
  deriving DecidableEq, Repr

inductive FileCallback where
  | session (k : Callback)
  /-- `HttpResponse::Send`. -/
  | responseSend (r : HttpResponse)
  deriving DecidableEq, Repr

inductive FileInstr where
  | session (i : Instr)
  | onSocketDrained
  | onDisconnected
  /-- `StartFileStream` after the `Send` of the header. -/
  | fileHeaderSent (fd : FileFd)
  /-- The loop of `PumpFileStream` after the `Send` of chunk `i`, which may have
  been cut short by the end of the file. `caller` is the descriptor of the `SendFile`
  that is still to return. -/
  | fileChunkSent (caller : Option FileFd) (i : Nat) (short : Bool)
  /-- `SendFile` after a `StartFileStream` that returned false. -/
  | closeFd (fd : FileFd)
  deriving DecidableEq, Repr

inductive FileApi where
  | session (a : Api)
  | sendFile (r : HttpResponse) (file : FileStat) (contentType : Bytes)
      (chunkSize maxChunksPerWrite : Nat)
  deriving DecidableEq, Repr

abbrev FileFrame := Frame FileInstr FileCallback
abbrev FileSeg := FileSession × List FileFrame
abbrev FileConf := Conf FileSession FileInstr FileCallback
abbrev FileInput := Input FileApi (OpId × Cqe) FileOutcome

namespace FileSession

def liftFrame : SFrame → FileFrame
  | .code i => .code (.session i)
  | .callback .onSocketDrained => .code .onSocketDrained
  | .callback .onDisconnected => .code .onDisconnected
  | .callback k => .callback (.session k)

def inSession (x : FileSession) (r : Seg) : FileSeg :=
  ({ x with session := r.1 }, r.2.map liftFrame)

def andThen (r : FileSeg) (k : List FileFrame) : FileSeg := (r.1, r.2 ++ k)

/-- `HasPendingAppWork` as `HttpSession` overrides it; `o` has the rest. -/
def outcome (x : FileSession) (o : FileOutcome) : Outcome :=
  { o.session with hasPendingAppWork := o.session.hasPendingAppWork || x.fileStream.active }

def sendBytes (x : FileSession) (o : FileOutcome) (bytes : Bytes) : FileSeg :=
  x.inSession (x.session.sendOnOwner (x.outcome o) ⟨bytes⟩)

def disconnect (x : FileSession) (o : FileOutcome) : FileSeg :=
  x.inSession (x.session.disconnectOnOwner (x.outcome o) .disconnect)

/-- `::open`; the descriptor is the old `nextFd`. -/
def openFd (x : FileSession) : FileSession := { x with nextFd := x.nextFd + 1 }

/-- `::close`. -/
def closeFd (x : FileSession) (fd : FileFd) : FileSession := { x with closes := x.closes ++ [fd] }

/-! ## The file stream -/

def resetFileStream (x : FileSession) : FileSession :=
  { x with
    fileStream := { x.fileStream with fd := none, remainingBytes := 0, active := false }
    closes := x.closes ++ x.fileStream.fd.toList }

/-- The assignments of `StartFileStream`; `fd.Reset` closes what the handle had. -/
def takeFd (x : FileSession) (fd : FileFd) (fileSize chunkSize maxChunksPerWrite : Nat) :
    FileSession :=
  { x with
    fileStream := ⟨some fd, fileSize, max chunkSize (4 * 1024), max maxChunksPerWrite 1, true⟩
    closes := x.closes ++ x.fileStream.fd.toList
    fileSize := fileSize
    bytesRead := []
    queued := [] }

/-- A chunk has been read. -/
def advance (x : FileSession) (data : Bytes) : FileSession :=
  { x with
    fileStream :=
      { x.fileStream with remainingBytes := x.fileStream.remainingBytes - data.length }
    bytesRead := x.bytesRead ++ data }

/-- `Session::Send` of a chunk. -/
def sendChunk (x : FileSession) (o : FileOutcome) (data : Bytes) : FileSeg :=
  let r := x.session.sendOnOwner (x.outcome o) ⟨data⟩
  inSession { x with queued := x.queued ++ dataOf (r.1.accepted.drop x.session.accepted.length) } r

/-- `PumpFileStream` gives the stream up, and `SendFile` closes its descriptor
if it is the caller. -/
def failPump (x : FileSession) (o : FileOutcome) (caller : Option FileFd) : FileSeg :=
  andThen (x.resetFileStream.disconnect o) (caller.toList.map fun fd => .code (.closeFd fd))

/-- The loop of `PumpFileStream` from chunk `i` on. -/
def pumpFileChunk (x : FileSession) (o : FileOutcome) (caller : Option FileFd) (i : Nat) :
    FileSeg :=
  if i < x.fileStream.maxChunksPerWrite ∧ 0 < x.fileStream.remainingBytes then
    if !o.newChunk then x.failPump o caller
    else
      match readChunk x.fileStream.nextSize o.reads [] with
      | none => x.failPump o caller
      | some data =>
        if data.isEmpty then (x.resetFileStream, [])
        else
          andThen ((x.advance data).sendChunk o data)
            [.code (.fileChunkSent caller i (data.length < x.fileStream.nextSize))]
  else if x.fileStream.remainingBytes = 0 then (x.resetFileStream, [])
  else (x, [])

def pumpFileStream (x : FileSession) (o : FileOutcome) (caller : Option FileFd) : FileSeg :=
  if !x.fileStream.active then (x, [])
  else if x.fileStream.remainingBytes = 0 then (x.resetFileStream, [])
  else x.pumpFileChunk o caller 0

/-- A failed `Send` ends the stream, and `SendFile` closes its descriptor if it is
the caller. -/
def sendFailed (x : FileSession) (caller : Option FileFd) : FileSession :=
  caller.toList.foldl closeFd x.resetFileStream

def fileChunkSent (x : FileSession) (o : FileOutcome) (caller : Option FileFd) (i : Nat)
    (short : Bool) : FileSeg :=
  if x.session.sendResult.isSome then (x.sendFailed caller, [])
  else if short then (x.resetFileStream, [])
  else x.pumpFileChunk o caller (i + 1)

def fileHeaderSent (x : FileSession) (o : FileOutcome) (fd : FileFd) : FileSeg :=
  if x.session.sendResult.isSome then (x.sendFailed (some fd), [])
  else x.pumpFileStream o (some fd)

/-- `StartFileStream`, and the `close` of `SendFile` if it refuses. -/
def startFileStream (x : FileSession) (o : FileOutcome) (header : Bytes) (fd : FileFd)
    (fileSize chunkSize maxChunksPerWrite : Nat) : FileSeg :=
  if x.fileStream.active || o.bodyActive then (x.closeFd fd, [])
  else
    andThen ((x.takeFd fd fileSize chunkSize maxChunksPerWrite).sendBytes o header)
      [.code (.fileHeaderSent fd)]

/-- `HttpResponse::SendFile` of a response that is not sent. -/
def sendFile (x : FileSession) (o : FileOutcome) (r : HttpResponse) (file : FileStat)
    (contentType : Bytes) (chunkSize maxChunksPerWrite : Nat) : FileSeg :=
  let r := HttpSession.fileResponse r contentType
  match file with
  | .notFound => (x, [.callback (.responseSend (r.error .kNotFound "Not Found"))])
  | .openFailed =>
    (x, [.callback (.responseSend (r.error .kInternalServerError "Internal Server Error"))])
  | .notRegular =>
    (x.openFd.closeFd x.nextFd,
      [.callback (.responseSend (r.error .kInternalServerError "Internal Server Error"))])
  | .regular size =>
    let headers := r.serializeHeaders o.date size
    if !o.newHeader then (x.openFd.closeFd x.nextFd, [])
    else if r.noBody then (x.openFd.closeFd x.nextFd).sendBytes o headers
    else x.openFd.startFileStream o headers x.nextFd size chunkSize maxChunksPerWrite

/-! ## The machine -/

def exec (o : FileOutcome) (x : FileSession) : FileInstr → FileSeg
  | .session i => x.inSession (x.session.exec (x.outcome o) i)
  | .onSocketDrained =>
    andThen (x.pumpFileStream o none) [.callback (.session .onSocketDrained)]
  | .onDisconnected => (x.resetFileStream, [.callback (.session .onDisconnected)])
  | .fileHeaderSent fd => x.fileHeaderSent o fd
  | .fileChunkSent caller i short => x.fileChunkSent o caller i short
  | .closeFd fd => (x.closeFd fd, [])

def call (o : FileOutcome) (x : FileSession) : FileApi → FileSeg
  | .session a => x.inSession (x.session.call (x.outcome o) a)
  | .sendFile r file contentType chunkSize maxChunks =>
    x.sendFile o r file contentType chunkSize maxChunks

def machine : Machine FileSession FileInstr FileCallback FileApi (OpId × Cqe) FileOutcome where
  exec := exec
  call := call
  event o x e := (x.session.event (x.outcome o) e).map x.inSession
  ret x k b :=
    match k with
    | .session k => { x with session := x.session.ret k b }
    | .responseSend _ => x

def initConf (cfg : Config) : FileConf := ⟨{ session := Session.init cfg }, []⟩

/-- What a frame of the session becomes. -/
theorem head_lift {r : Seg} (x : FileSession) (k : List FileFrame)
    (h : r.2.head? = some (.callback .onDisconnected)) :
    ((x.inSession r).2 ++ k).head? = some (.code .onDisconnected) := by
  rw [inSession, List.head?_append, List.head?_map, h]
  rfl

end FileSession

end IouringRuntime
