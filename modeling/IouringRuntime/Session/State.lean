import IouringRuntime.Core.SendState
import IouringRuntime.Reentrant.Machine

/-!
# The session's data

`Session` (`core/Session.h`) with the part of the ring it can see: the
operations it has prepared and whose final CQE has not been taken. Operations
are heap objects; an `OpId` is the address stored as `user_data`.

The fields after `deleted` are history: no function of the session reads them.
They record what the properties are about (the buffers accepted, the bytes the
kernel reported sent, the chunks handed to `OnRecv`, every write of `state_`,
every operation prepared).

Time is counted from `time_point{}`, which is `0`.
-/

namespace IouringRuntime

inductive SessionState where
  | kOpen | kClosing | kDraining | kClosed
  deriving DecidableEq, Repr

/-- The errors `Send` can return. -/
inductive IoError where
  | kDisconnected | kSendFailed
  deriving DecidableEq, Repr

inductive DispatchResult where
  | kComplete | kPending
  deriving DecidableEq, Repr

abbrev OpId := Nat

structure SendOp where
  id : OpId
  iovecs : List Iovec
  bufs : List SendBuffer
  deriving DecidableEq, Repr

/-- A prepared operation, as the ring holds it. -/
inductive Op where
  | recv (id : OpId)
  | send (op : SendOp)
  | disconnect (id : OpId)
  | cancel (id target : OpId)
  deriving DecidableEq, Repr

def Op.id : Op → OpId
  | .recv id | .disconnect id | .cancel id _ => id
  | .send op => op.id

inductive OpKind where
  | recv | send | disconnect | cancel
  deriving DecidableEq, Repr

def Op.kind : Op → OpKind
  | .recv _ => .recv
  | .send _ => .send
  | .disconnect _ => .disconnect
  | .cancel _ _ => .cancel

/-- Why `DisconnectOnOwner` was entered: the `[DISC:…]` tag of its caller. -/
inductive CloseCause where
  | disconnect | afterFlush
  | sendOverflow | sendErr | sqeFullSendResume | oomSend | sqeFullSend | sendHighWatermark
  | pausedRecvOverflow | peerClose | recvErr | oomRecv | sqeFullRecv
  | inactivityTimeout | backpressureTimeout
  deriving DecidableEq, Repr

/-- What `SessionControl` and the constructor set before `Start`. -/
structure Config where
  sendQueueMaxPending : Nat := 4096
  sendQueueHighWatermark : Nat := 0
  sendQueueLowWatermark : Nat := 0
  sendQueueHighBytes : Nat := 0
  sendQueueLowBytes : Nat := 0
  backpressureDisconnectDelay : Nat := 0
  pausedRecvByteLimit : Nat := 1024 * 1024
  pauseRecvOnBackpressure : Bool := false
  disconnectOnHighWatermark : Bool := false
  inactivityTimeout : Nat := 0
  timeoutCheckInterval : Nat := 0
  firstTimeoutCheck : Nat := 0
  deriving DecidableEq, Repr

/-- A successful `PrepDisconnect`: its cause, the bytes reported sent and the
bytes accepted up to then. -/
structure Shutdown where
  cause : CloseCause
  sent : Bytes
  accepted : Bytes
  deriving DecidableEq, Repr

/-- A call of `SessionManager::Release`: the two counters, and how many
`BeginAppIo` calls had been made in `kClosed` by then. -/
structure ReleaseCall where
  pendingIo : Nat
  pendingAppIo : Nat
  closedAppIo : Nat
  deriving DecidableEq, Repr

structure Session where
  cfg : Config
  sendQueue : SendQueue
  state : SessionState := .kOpen
  pendingIo : Nat := 0
  pendingAppIo : Nat := 0
  lastActivity : Nat := 0
  lastBackpressureHigh : Nat := 0
  nextTimeoutCheck : Nat := 0
  pausedRecvBytes : Nat := 0
  pausedRecvQueue : List Bytes := []
  disconnectAfterFlush : Bool := false
  recvPaused : Bool := false
  backpressureActive : Bool := false
  activeRecvEv : Option OpId := none
  activeSendEv : Option OpId := none
  /-- What the last `Send` to return gave its caller. -/
  sendResult : Option IoError := none
  /-- What the last `OnTimeoutTick` to return gave `Tick`. -/
  timeoutHandled : Bool := false
  inFlight : List Op := []
  nextOp : OpId := 0
  deleted : List OpId := []
  accepted : List SendBuffer := []
  sent : Bytes := []
  received : Bytes := []
  delivered : Bytes := []
  stateLog : List SessionState := []
  closeCause : Option CloseCause := none
  prepared : List (OpKind × SessionState) := []
  shutdowns : List Shutdown := []
  /-- Calls of `CompletePendingIo` that found the counter at zero. -/
  guardHits : Nat := 0
  /-- `pending_io_` and `pending_app_io_` at each call of `OnDisconnected`. -/
  disconnectedCalls : List (Nat × Nat) := []
  /-- Calls of `BeginAppIo` made in `kClosed`. -/
  closedAppIo : Nat := 0
  releaseCalls : List ReleaseCall := []
  deriving DecidableEq, Repr

/-- A freshly constructed session. -/
def Session.init (cfg : Config) : Session where
  cfg := cfg
  sendQueue := { maxPending := cfg.sendQueueMaxPending }
  nextTimeoutCheck := cfg.firstTimeoutCheck

/-- What the environment decides while one segment of session code runs: the
allocations, the outcome of each `Prep*`, `HasPendingAppWork` and the clock. -/
structure Outcome where
  newRecv : Bool := true
  prepRecv : Bool := true
  newSend : Bool := true
  prepSend : Bool := true
  newDisconnect : Bool := true
  prepDisconnect : Bool := true
  newCancel : Bool := true
  prepCancel : Bool := true
  hasPendingAppWork : Bool := false
  now : Nat := 1
  deriving DecidableEq, Repr

/-- The virtual functions through which user code runs inside the session. -/
inductive Callback where
  | onConnected
  | onRecv (data : Bytes)
  | onDisconnected
  | onTimeoutTick (now : Nat)
  | onSocketDrained
  | onBackpressure (active : Bool)
  deriving DecidableEq, Repr

/-- Where session code goes on after a callback, or after a call that may have
run one. -/
inductive Instr where
  /-- `UpdateBackpressure` after `OnBackpressure(true)`. -/
  | backpressureRaised
  /-- `UpdateBackpressure` after `OnBackpressure(false)`. -/
  | backpressureCleared
  | drainPausedRecv
  | registerRecv
  | registerSend
  /-- The end of `SendOnOwner`. -/
  | returnSend (result : Option IoError)
  | sendBatch (bufs : List SendBuffer)
  | tryRelease
  /-- `TryRelease` after `OnDisconnected`. -/
  | release
  /-- `OnSend` after `OnSocketDrained`. -/
  | onSendDrained
  /-- `OnSend` after its first `TryDisconnectAfterFlush`. -/
  | onSendTail
  /-- `OnRecv(RecvEvent&)` after the data has been handed on. -/
  | onRecvTail (res : Int) (more : Bool)
  /-- `Tick` after `OnTimeoutTick`. -/
  | tickTail (now : Nat)
  /-- `IoRing::Dispatch` after the handler. -/
  | dispatched (id : OpId) (result : DispatchResult)
  deriving DecidableEq, Repr

/-- The session's interface. Calls from other threads are posted to the owner
and arrive at top level. -/
inductive Api where
  | start
  | send (buf : SendBuffer)
  | disconnect
  | disconnectAfterFlush
  | pauseRecv
  | resumeRecv
  | beginAppIo
  | endAppIo
  | tick (now : Nat)
  deriving DecidableEq, Repr

/-- A completion: the result, `IORING_CQE_F_MORE`, and the contents of the
buffer a recv completion carries. -/
structure Cqe where
  res : Int
  more : Bool := false
  buf : Bytes := []
  deriving DecidableEq, Repr

/-- The bytes a recv completion reports. -/
def Cqe.view (c : Cqe) : Bytes := c.buf.take c.res.toNat

abbrev SFrame := Reentrant.Frame Instr Callback

/-- The state a segment leaves and the frames it puts on the stack. -/
abbrev Seg := Session × List SFrame

/-- Go on with `k` once the frames of a segment have run. -/
def Seg.andThen (r : Seg) (k : List SFrame) : Seg := (r.1, r.2 ++ k)

@[simp] theorem Seg.andThen_fst (r : Seg) (k : List SFrame) : (r.andThen k).1 = r.1 := rfl

@[simp] theorem Seg.andThen_snd (r : Seg) (k : List SFrame) : (r.andThen k).2 = r.2 ++ k := rfl

end IouringRuntime
