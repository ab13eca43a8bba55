import IouringRuntime.Session.Code

/-!
# The TLS proxy peer

`TlsProxyPeerSession` (`proxy/ProxySessions.cpp`), a `Session` whose callbacks
drive OpenSSL over two memory BIOs. The machine is a layer over the session's:
its code runs the session's segments, and what the session calls back is the
peer's own code. User code is what the peer calls in turn, `ProxyBridge` and
`on_ready_`, and the bridge calling `SendProxyPayload` or the session.

OpenSSL is the environment: the results of `SSL_do_handshake` and
`SSL_read_ex`, and the ciphertext that a call leaves in `write_bio_`.
`SSL_write_ex` accepts the whole buffer. `ssl_` and the BIOs exist from the
constructor on.

A payload carries the number of the `SendProxyPayload` call that brought it.
`received`, `accepted` and `handed` are history: the calls made, the payloads
not refused, and the payloads given to `SSL_write_ex`.
-/

namespace IouringRuntime

open Reentrant

/-- What the bridge forwards: it drops empty data. -/
abbrev Plaintext := { data : Bytes // data ≠ [] }

def Plaintext.length (data : Plaintext) : Nat := data.1.length

/-- The plaintext of one `SendProxyPayload` call. -/
structure Payload where
  seq : Nat
  data : Plaintext
  deriving DecidableEq, Repr

/-- `SSL_do_handshake`, with what it leaves in `write_bio_`. -/
inductive HandshakeResult where
  | done (out : Bytes)
  | want (out : Bytes)
  | failed
  deriving DecidableEq, Repr

/-- `SSL_read_ex`: plaintext, nothing more to read (with what that leaves in
`write_bio_`), or the end. -/
inductive ReadResult where
  | plain (data : Bytes)
  | want (out : Bytes)
  | closed
  deriving DecidableEq, Repr

/-- What the environment decides for one segment. -/
structure TlsOutcome where
  session : Outcome := {}
  bioWrite : Bool := true
  newBuffer : Bool := true
  handshake : HandshakeResult := .want []
  read : ReadResult := .want []
  ciphertext : Bytes := []
  deriving DecidableEq, Repr

inductive TlsCallback where
  | onReady
  | forward (data : Bytes)
  | onPeerDisconnected
  | onPeerBackpressure (active : Bool)
  deriving DecidableEq, Repr

inductive TlsInstr where
  | session (i : Instr)
  /-- `WriteCiphertextToBio` and `DriveTlsMachine`. -/
  | recvCiphertext
  | driveTlsMachine
  /-- `DriveHandshake` after `NotifyReady`. -/
  | readyNotified
  /-- `DriveTlsMachine` after `DriveHandshake`. -/
  | handshakeDriven
  /-- `DriveTlsMachine` after `FlushPendingPlaintext`. -/
  | pendingFlushed
  /-- `DrainPlaintext` after `Forward`. -/
  | forwarded
  | flushPendingPlaintext
  /-- `FlushPendingPlaintext` after `EncryptAndQueuePlaintext`. -/
  | chunkEncrypted
  /-- `EncryptAndQueuePlaintext` after the `FlushCiphertextOutput` of its loop. -/
  | encrypted
  /-- `FlushCiphertextOutput` after the `Send` of a piece, which may have been a
  full buffer. -/
  | ciphertextSent (full : Bool)
  /-- `if (!…) Disconnect()`, the end of each callback. -/
  | disconnectUnlessOk
  deriving DecidableEq, Repr

inductive TlsApi where
  | session (a : Api)
  | sendProxyPayload (data : Plaintext)
  deriving DecidableEq, Repr

structure TlsPeer where
  session : Session
  pendingPlaintextLimit : Nat := 0
  handshakeComplete : Bool := false
  readyNotified : Bool := false
  pendingPlaintextBytes : Nat := 0
  pendingPlaintext : List Payload := []
  writeBio : Bytes := []
  /-- What the last of the functions that return `bool` gave its caller. -/
  ok : Bool := true
  received : Nat := 0
  accepted : List Payload := []
  handed : List Payload := []
  deriving DecidableEq, Repr

abbrev TFrame := Frame TlsInstr TlsCallback

/-- The state a segment leaves and the frames it puts on the stack. -/
abbrev TSeg := TlsPeer × List TFrame

namespace TlsPeer

/-- `ciphertext_buffer_.size()`. -/
def kCiphertextBuffer : Nat := 64 * 1024

/-- What the session's frames are for the peer: its callbacks are the peer's
overrides, and `OnTimeoutTick` is not overridden. -/
def liftFrame : SFrame → List TFrame
  | .code i => [.code (.session i)]
  | .callback .onConnected => [.code .driveTlsMachine, .code .disconnectUnlessOk]
  | .callback (.onRecv _) => [.code .recvCiphertext, .code .disconnectUnlessOk]
  | .callback .onDisconnected => [.callback .onPeerDisconnected]
  | .callback (.onTimeoutTick _) => []
  | .callback .onSocketDrained => [.code .flushPendingPlaintext, .code .disconnectUnlessOk]
  | .callback (.onBackpressure active) => [.callback (.onPeerBackpressure active)]

/-- Go on with a segment of the session. -/
def inSession (p : TlsPeer) (r : Seg) : TSeg := ({ p with session := r.1 }, r.2.flatMap liftFrame)

def andThen (r : TSeg) (k : List TFrame) : TSeg := (r.1, r.2 ++ k)

/-- Return from a function that gives its caller a `bool`. -/
def returns (p : TlsPeer) (ok : Bool) : TSeg := ({ p with ok := ok }, [])

/-- `QueueCiphertext` of a piece read from `write_bio_`. -/
def queueCiphertext (p : TlsPeer) (o : TlsOutcome) (piece : Bytes) : TSeg :=
  if !o.newBuffer then p.returns false
  else
    andThen (p.inSession (p.session.sendOnOwner o.session ⟨piece⟩))
      [.code (.ciphertextSent (piece.length == kCiphertextBuffer))]

def flushCiphertextOutput (p : TlsPeer) (o : TlsOutcome) : TSeg :=
  if p.writeBio.isEmpty then p.returns true
  else
    queueCiphertext { p with writeBio := p.writeBio.drop kCiphertextBuffer } o
      (p.writeBio.take kCiphertextBuffer)

def ciphertextSent (p : TlsPeer) (o : TlsOutcome) (full : Bool) : TSeg :=
  if p.session.sendResult.isSome then p.returns false
  else if full then p.flushCiphertextOutput o
  else p.returns true

/-- A call of OpenSSL left this in `write_bio_`. -/
def produce (p : TlsPeer) (out : Bytes) : TlsPeer := { p with writeBio := p.writeBio ++ out }

/-- `SSL_write_ex`. -/
def sslWrite (p : TlsPeer) (o : TlsOutcome) (chunk : Payload) : TlsPeer :=
  { p.produce o.ciphertext with handed := p.handed ++ [chunk] }

def encryptAndQueuePlaintext (p : TlsPeer) (o : TlsOutcome) (chunk : Payload) : TSeg :=
  andThen ((p.sslWrite o chunk).flushCiphertextOutput o) [.code .encrypted]

def encrypted (p : TlsPeer) (o : TlsOutcome) : TSeg :=
  if p.ok then p.flushCiphertextOutput o else (p, [])

def queuePendingPlaintext (p : TlsPeer) (chunk : Payload) : TSeg :=
  let nextSize := p.pendingPlaintextBytes + chunk.data.length
  if p.pendingPlaintextLimit ≠ 0 ∧ p.pendingPlaintextLimit < nextSize then p.returns false
  else
    returns { p with
      pendingPlaintextBytes := nextSize
      pendingPlaintext := p.pendingPlaintext ++ [chunk]
      accepted := p.accepted ++ [chunk] } true

def popPendingPlaintext (p : TlsPeer) (chunk : Payload) (rest : List Payload) : TlsPeer :=
  { p with
    pendingPlaintext := rest
    pendingPlaintextBytes := p.pendingPlaintextBytes - chunk.data.length }

/-- The test of the loop; the frames go round it again. -/
def flushPendingPlaintext (p : TlsPeer) (o : TlsOutcome) : TSeg :=
  match p.pendingPlaintext with
  | [] => p.returns true
  | chunk :: rest =>
    if !p.handshakeComplete || p.session.backpressureActive then p.returns true
    else
      andThen ((p.popPendingPlaintext chunk rest).encryptAndQueuePlaintext o chunk)
        [.code .chunkEncrypted]

def chunkEncrypted (p : TlsPeer) (o : TlsOutcome) : TSeg :=
  if p.ok then p.flushPendingPlaintext o else (p, [])

/-- `DrainPlaintext` with the `FlushCiphertextOutput` after it. -/
def drainPlaintext (p : TlsPeer) (o : TlsOutcome) : TSeg :=
  match o.read with
  | .plain data => (p, [.callback (.forward data), .code .forwarded])
  | .want out => (p.produce out).flushCiphertextOutput o
  | .closed => p.returns false

def forwarded (p : TlsPeer) (o : TlsOutcome) : TSeg :=
  if p.ok then p.drainPlaintext o else (p, [])

def driveHandshake (p : TlsPeer) (o : TlsOutcome) : TSeg :=
  match o.handshake with
  | .done out =>
    let p := { p.produce out with handshakeComplete := true }
    if p.readyNotified then p.flushCiphertextOutput o
    else ({ p with readyNotified := true }, [.callback .onReady, .code .readyNotified])
  | .want out => (p.produce out).flushCiphertextOutput o
  | .failed => p.returns false

def readyNotifiedTail (p : TlsPeer) (o : TlsOutcome) : TSeg :=
  if p.ok then p.flushCiphertextOutput o else (p, [])

def driveTlsMachine (p : TlsPeer) (o : TlsOutcome) : TSeg :=
  if !p.handshakeComplete then andThen (p.driveHandshake o) [.code .handshakeDriven]
  else p.drainPlaintext o

def handshakeDriven (p : TlsPeer) (o : TlsOutcome) : TSeg :=
  if !p.ok then (p, [])
  else if p.handshakeComplete then andThen (p.flushPendingPlaintext o) [.code .pendingFlushed]
  else p.flushCiphertextOutput o

def pendingFlushed (p : TlsPeer) (o : TlsOutcome) : TSeg :=
  if p.ok then p.drainPlaintext o else (p, [])

def disconnectUnlessOk (p : TlsPeer) (o : TlsOutcome) : TSeg :=
  if p.ok then (p, []) else p.inSession (p.session.disconnectOnOwner o.session .disconnect)

/-- History: `SendProxyPayload` is entered. -/
def receive (p : TlsPeer) : TlsPeer := { p with received := p.received + 1 }

/-- History: a payload goes straight to the encryptor. -/
def accept (p : TlsPeer) (chunk : Payload) : TlsPeer := { p with accepted := p.accepted ++ [chunk] }

def sendProxyPayload (p : TlsPeer) (o : TlsOutcome) (data : Plaintext) : TSeg :=
  let chunk : Payload := ⟨p.received, data⟩
  let p := p.receive
  if !p.session.canUseOnOwner then p.returns false
  else if !p.handshakeComplete then p.queuePendingPlaintext chunk
  else if p.session.backpressureActive then p.queuePendingPlaintext chunk
  else (p.accept chunk).encryptAndQueuePlaintext o chunk

/-! ## The machine -/

def exec (o : TlsOutcome) (p : TlsPeer) : TlsInstr → TSeg
  | .session i => p.inSession (p.session.exec o.session i)
  | .recvCiphertext => if o.bioWrite then p.driveTlsMachine o else p.returns false
  | .driveTlsMachine => p.driveTlsMachine o
  | .readyNotified => p.readyNotifiedTail o
  | .handshakeDriven => p.handshakeDriven o
  | .pendingFlushed => p.pendingFlushed o
  | .forwarded => p.forwarded o
  | .flushPendingPlaintext => p.flushPendingPlaintext o
  | .chunkEncrypted => p.chunkEncrypted o
  | .encrypted => p.encrypted o
  | .ciphertextSent full => p.ciphertextSent o full
  | .disconnectUnlessOk => p.disconnectUnlessOk o

def call (o : TlsOutcome) (p : TlsPeer) : TlsApi → TSeg
  | .session a => p.inSession (p.session.call o.session a)
  | .sendProxyPayload data => p.sendProxyPayload o data

/-- `on_ready_` returns whether to go on, `Forward` leaves `bridge_->Closed()`. -/
def ret (p : TlsPeer) : TlsCallback → Bool → TlsPeer
  | .onReady, ok => { p with ok := ok }
  | .forward _, closed => { p with ok := !closed }
  | _, _ => p

def event (o : TlsOutcome) (p : TlsPeer) (e : OpId × Cqe) : Option TSeg :=
  (p.session.event o.session e).map p.inSession

def machine : Machine TlsPeer TlsInstr TlsCallback TlsApi (OpId × Cqe) TlsOutcome where
  exec := exec
  call := call
  event := event
  ret := ret

abbrev TConf := Conf TlsPeer TlsInstr TlsCallback

abbrev TInput := Input TlsApi (OpId × Cqe) TlsOutcome

def initConf (cfg : Config) (pendingPlaintextLimit : Nat) : TConf :=
  ⟨{ session := Session.init cfg, pendingPlaintextLimit := pendingPlaintextLimit }, []⟩

end TlsPeer

end IouringRuntime
