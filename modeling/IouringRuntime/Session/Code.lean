import IouringRuntime.Session.State

/-!
# The session's code

`runtime/io/Session.cpp` and `runtime/io/SessionSend.cpp`, function by
function. A function is cut only where user code can run: it returns the
frames that remain, a callback followed by the rest of the function. Calls
that run no callback are made in place. `Disconnect()` on the owner thread is
`disconnectOnOwner`; `ring_.Submit()` and logging have no effect here.
-/

namespace IouringRuntime

open Reentrant

/-- `SendBatch` puts at most this many buffers into one `sendmsg`. -/
def kMaxSendIovecs : Nat := 1024

def ENOBUFS : Int := 105

namespace Session

/-! ## State helpers -/

def canUseOnOwner (s : Session) : Bool := s.state == .kOpen

/-- A write of `state_`. -/
def setState (s : Session) (st : SessionState) : Session :=
  { s with state := st, stateLog := s.stateLog ++ [st] }

def markDrainingOnOwner (s : Session) : Session :=
  if s.state = .kClosing then s.setState .kDraining else s

def beginPendingIo (s : Session) : Session := { s with pendingIo := s.pendingIo + 1 }

def completePendingIo (s : Session) : Session :=
  if 0 < s.pendingIo then { s with pendingIo := s.pendingIo - 1 }
  else { s with guardHits := s.guardHits + 1 }

def touchActivity (s : Session) (o : Outcome) : Session := { s with lastActivity := o.now }

/-- `new (std::nothrow)` of an operation, whose address is the old `nextOp`. -/
def newOp (s : Session) : Session := { s with nextOp := s.nextOp + 1 }

def deleteOp (s : Session) (id : OpId) : Session := { s with deleted := s.deleted ++ [id] }

def setActiveRecvEv (s : Session) (ev : Option OpId) : Session := { s with activeRecvEv := ev }

def setActiveSendEv (s : Session) (ev : Option OpId) : Session := { s with activeSendEv := ev }

def setRecvPaused (s : Session) (paused : Bool) : Session := { s with recvPaused := paused }

def setSendQueue (s : Session) (q : SendQueue) : Session := { s with sendQueue := q }

/-- History: `SendOnOwner` accepted the buffer. -/
def accept (s : Session) (buf : SendBuffer) : Session := { s with accepted := s.accepted ++ [buf] }

/-- History: the chunk is handed to `OnRecv(span)`. -/
def deliver (s : Session) (chunk : Bytes) : Session := { s with delivered := s.delivered ++ chunk }

/-- A successful `Prep*`: the operation is in flight. -/
def prep (s : Session) (op : Op) : Session :=
  { s with inFlight := s.inFlight ++ [op], prepared := s.prepared ++ [(op.kind, s.state)] }

/-- The operation's final CQE has been taken from the ring. -/
def retire (s : Session) (id : OpId) : Session :=
  { s with inFlight := s.inFlight.eraseP (·.id == id) }

/-! ## Release and disconnect -/

/-- History: `OnDisconnected` is entered. -/
def callDisconnected (s : Session) : Session :=
  { s with disconnectedCalls := s.disconnectedCalls ++ [(s.pendingIo, s.pendingAppIo)] }

/-- History: `SessionManager::Release` is called. -/
def callRelease (s : Session) : Session :=
  { s with releaseCalls := s.releaseCalls ++ [⟨s.pendingIo, s.pendingAppIo, s.closedAppIo⟩] }

def tryRelease (s : Session) : Seg :=
  if s.state = .kOpen ∨ s.pendingIo ≠ 0 ∨ s.pendingAppIo ≠ 0 then (s, [])
  else if s.state = .kClosed then (s, [])
  else
    ((s.setState .kClosed).callDisconnected, [.callback .onDisconnected, .code .release])

/-- Cancel the multishot recv, best effort. -/
def prepCancelRecv (s : Session) (o : Outcome) : Session :=
  match s.activeRecvEv with
  | none => s
  | some target =>
    if !o.newCancel then s
    else
      let id := s.nextOp
      let s := s.newOp.beginPendingIo
      if o.prepCancel then s.prep (.cancel id target)
      else s.completePendingIo.deleteOp id

/-- `TryBeginDisconnectOnOwner` in `kOpen`. -/
def beginDisconnect (s : Session) (cause : CloseCause) : Session :=
  { s with
    state := .kClosing
    stateLog := s.stateLog ++ [.kClosing]
    closeCause := some cause }

/-- History: a shutdown has been prepared. -/
def recordShutdown (s : Session) (cause : CloseCause) : Session :=
  { s with shutdowns := s.shutdowns ++ [⟨cause, s.sent, dataOf s.accepted⟩] }

/-- `DisconnectOnOwner` up to its `TryRelease`, with which every path ends:
leave `kOpen`, shut the socket down, cancel the recv. -/
def prepShutdown (s : Session) (o : Outcome) (cause : CloseCause) : Session :=
  let s := s.beginDisconnect cause
  if !o.newDisconnect then s
  else
    let id := s.nextOp
    let s := s.newOp.beginPendingIo
    if !o.prepDisconnect then s.completePendingIo.deleteOp id
    else
      let s := (s.prep (.disconnect id)).recordShutdown cause
      (s.prepCancelRecv o).markDrainingOnOwner

def disconnectOnOwner (s : Session) (o : Outcome) (cause : CloseCause) : Seg :=
  if s.state ≠ .kOpen then (s, []) else (s.prepShutdown o cause).tryRelease

def tryDisconnectAfterFlush (s : Session) (o : Outcome) : Seg :=
  if !s.disconnectAfterFlush || !s.canUseOnOwner then (s, [])
  else if s.activeSendEv.isSome || s.sendQueue.snapshot.currentDepth ≠ 0 ||
      o.hasPendingAppWork then (s, [])
  else s.disconnectOnOwner o .afterFlush

def disconnectAfterFlushOnOwner (s : Session) (o : Outcome) : Seg :=
  if !s.canUseOnOwner then (s, [])
  else { s with disconnectAfterFlush := true }.tryDisconnectAfterFlush o

/-! ## Receiving -/

def registerRecv (s : Session) (o : Outcome) : Seg :=
  if !s.canUseOnOwner || s.recvPaused then (s, [])
  else if s.activeRecvEv.isSome then (s, [])
  else if !o.newRecv then s.disconnectOnOwner o .oomRecv
  else
    let id := s.nextOp
    let s := s.newOp.beginPendingIo
    if !o.prepRecv then (s.completePendingIo.deleteOp id).disconnectOnOwner o .sqeFullRecv
    else ((s.prep (.recv id)).setActiveRecvEv (some id), [])

/-- `none` when the chunk would exceed the limit. -/
def queuePausedRecv (s : Session) (data : Bytes) : Option Session :=
  if data.isEmpty then some s
  else
    let nextBytes := s.pausedRecvBytes + data.length
    if s.cfg.pausedRecvByteLimit ≠ 0 ∧ s.cfg.pausedRecvByteLimit < nextBytes then none
    else some { s with
      pausedRecvBytes := nextBytes
      pausedRecvQueue := s.pausedRecvQueue ++ [data] }

def popPausedRecv (s : Session) (chunk : Bytes) (rest : List Bytes) : Session :=
  { s with pausedRecvQueue := rest, pausedRecvBytes := s.pausedRecvBytes - chunk.length }

/-- One test of the loop; the frames go round it again. -/
def drainPausedRecv (s : Session) : Seg :=
  if s.canUseOnOwner && !s.recvPaused then
    match s.pausedRecvQueue with
    | [] => (s, [])
    | chunk :: rest =>
      (s.popPausedRecv chunk rest |>.deliver chunk,
        [.callback (.onRecv chunk), .code .drainPausedRecv])
  else (s, [])

/-- Without `F_MORE` the kernel sends no more completions for the recv. -/
def endRecv (s : Session) (more : Bool) : Session :=
  if more then s else s.setActiveRecvEv none

/-- `CompletePendingIo` after the last completion of a recv. -/
def completeRecv (s : Session) (more : Bool) : Session :=
  if more then s else s.completePendingIo

def onRecvTail (s : Session) (o : Outcome) (res : Int) (more : Bool) : Seg :=
  let s := s.completeRecv more
  if !s.canUseOnOwner then s.tryRelease
  else if res = 0 then s.disconnectOnOwner o .peerClose
  else if res = -ENOBUFS then (if !s.recvPaused then s.registerRecv o else (s, []))
  else if res < 0 then s.disconnectOnOwner o .recvErr
  else if !more then (if !s.recvPaused then s.registerRecv o else (s, []))
  else (s, [])

/-- `OnRecv(RecvEvent&)`. The provided buffer goes back to the ring in either
case, and a completion without one is handled the same way from the
operation's own buffer. -/
def onRecv (s : Session) (o : Outcome) (id : OpId) (cqe : Cqe) : Seg :=
  let tail : List SFrame :=
    [.code (.onRecvTail cqe.res cqe.more),
      .code (.dispatched id (if cqe.more then .kPending else .kComplete))]
  let s := s.endRecv cqe.more
  if 0 < cqe.res ∧ s.canUseOnOwner then
    let s := s.touchActivity o
    if s.recvPaused then
      match s.queuePausedRecv cqe.view with
      | some s' => (s', tail)
      | none => (s.disconnectOnOwner o .pausedRecvOverflow).andThen tail
    else
      (s.deliver cqe.view, .callback (.onRecv cqe.view) :: tail)
  else (s, tail)

def onDisconnect (s : Session) (id : OpId) : Seg :=
  s.completePendingIo.tryRelease.andThen [.code (.dispatched id .kComplete)]

def onCancel (s : Session) (id : OpId) : Seg :=
  s.completePendingIo.tryRelease.andThen [.code (.dispatched id .kComplete)]

def pauseRecv (s : Session) : Session :=
  if !s.canUseOnOwner then s else s.setRecvPaused true

def resumeRecv (s : Session) : Seg :=
  if !s.canUseOnOwner then (s, [])
  else (s.setRecvPaused false).drainPausedRecv.andThen [.code .registerRecv]

/-! ## Backpressure -/

def highWatermarkReached (s : Session) (stats : SendQueue.Stats) : Bool :=
  (s.cfg.sendQueueHighWatermark ≠ 0 && s.cfg.sendQueueHighWatermark ≤ stats.currentDepth) ||
  (s.cfg.sendQueueHighBytes ≠ 0 && s.cfg.sendQueueHighBytes ≤ stats.pendingBytes)

def lowWatermarkReached (s : Session) (stats : SendQueue.Stats) : Bool :=
  (s.cfg.sendQueueHighWatermark == 0 || stats.currentDepth ≤ s.cfg.sendQueueLowWatermark) &&
  (s.cfg.sendQueueHighBytes == 0 || stats.pendingBytes ≤ s.cfg.sendQueueLowBytes)

def updateBackpressure (s : Session) (o : Outcome) : Seg :=
  let stats := s.sendQueue.snapshot
  if !s.backpressureActive then
    if !s.highWatermarkReached stats then (s, [])
    else ({ s with backpressureActive := true, lastBackpressureHigh := o.now },
      [.callback (.onBackpressure true), .code .backpressureRaised])
  else if !s.lowWatermarkReached stats then (s, [])
  else ({ s with backpressureActive := false, lastBackpressureHigh := 0 },
    [.callback (.onBackpressure false), .code .backpressureCleared])

def pauseOnBackpressure (s : Session) : Session :=
  if s.cfg.pauseRecvOnBackpressure then s.setRecvPaused true else s

def backpressureRaised (s : Session) (o : Outcome) : Seg :=
  let s := s.pauseOnBackpressure
  if s.cfg.disconnectOnHighWatermark && s.cfg.backpressureDisconnectDelay == 0 then
    s.disconnectOnOwner o .sendHighWatermark
  else (s, [])

def backpressureCleared (s : Session) : Seg :=
  if s.cfg.pauseRecvOnBackpressure then
    (s.setRecvPaused false).drainPausedRecv.andThen [.code .registerRecv]
  else (s, [])

/-! ## Sending -/

def sendInFlightBatch (s : Session) (o : Outcome) (id : OpId) (bufs : List SendBuffer) : Seg :=
  if !s.canUseOnOwner || bufs.isEmpty then (s, [])
  else
    let op : SendOp := ⟨id, bufs.map Iovec.ofBuffer, bufs⟩
    let s := s.beginPendingIo
    if !o.prepSend then (s.completePendingIo.deleteOp id).disconnectOnOwner o .sqeFullSend
    else ((s.prep (.send op)).setActiveSendEv (some id), [])

def sendBatch (s : Session) (o : Outcome) (bufs : List SendBuffer) : Seg :=
  if !s.canUseOnOwner || bufs.isEmpty then (s, [])
  else if s.activeSendEv.isSome then (s, [])
  else if !o.newSend then s.disconnectOnOwner o .oomSend
  else s.newOp.sendInFlightBatch o s.nextOp bufs

def registerSend (s : Session) (o : Outcome) : Seg :=
  if !s.canUseOnOwner then (s, [])
  else if s.activeSendEv.isSome then (s, [])
  else
    let r := s.sendQueue.drainInto kMaxSendIovecs
    if r.2.isEmpty then (s.setSendQueue r.1, [])
    else ((s.setSendQueue r.1).updateBackpressure o).andThen [.code (.sendBatch r.2)]

def sendOnOwner (s : Session) (o : Outcome) (buf : SendBuffer) : Seg :=
  if !s.canUseOnOwner then ({ s with sendResult := some .kDisconnected }, [])
  else
    let r := s.sendQueue.push buf
    if r.2.overflowed then
      ((s.setSendQueue r.1).disconnectOnOwner o .sendOverflow).andThen
        [.code (.returnSend (some .kSendFailed))]
    else
      let done : List SFrame := [.code (.returnSend none)]
      (((s.setSendQueue r.1).accept buf).updateBackpressure o).andThen
        (if r.2.needsRegister then .code .registerSend :: done else done)

def onSendTail (s : Session) (o : Outcome) : Seg :=
  if s.activeSendEv.isSome then (s, [])
  else
    let r := s.sendQueue.drainInto kMaxSendIovecs
    if r.2.isEmpty then (s.setSendQueue r.1).tryDisconnectAfterFlush o
    else ((s.setSendQueue r.1).updateBackpressure o).andThen [.code (.sendBatch r.2)]

/-- `OnSend` forgets the active operation if it is the completed one. -/
def clearActiveSend (s : Session) (id : OpId) : Session :=
  if s.activeSendEv = some id then s.setActiveSendEv none else s

def onSend (s : Session) (o : Outcome) (op : SendOp) (res : Int) : Seg :=
  let complete : List SFrame := [.code (.dispatched op.id .kComplete)]
  let s := s.clearActiveSend op.id
  if !s.canUseOnOwner then s.completePendingIo.tryRelease.andThen complete
  else if res < 0 then (s.completePendingIo.disconnectOnOwner o .sendErr).andThen complete
  else if res.toNat < requested op.iovecs then
    let rest := advanceSendState op.iovecs op.bufs res.toNat
    if !o.prepSend then
      (s.completePendingIo.disconnectOnOwner o .sqeFullSendResume).andThen complete
    else ((s.prep (.send ⟨op.id, rest.1, rest.2⟩)).setActiveSendEv (some op.id),
      [.code (.dispatched op.id .kPending)])
  else
    ((s.setSendQueue s.sendQueue.markSent).completePendingIo.updateBackpressure o).andThen
      (.callback .onSocketDrained :: .code .onSendDrained :: complete)

/-! ## Start, ticks, application work -/

def start (s : Session) (o : Outcome) : Seg :=
  (s.touchActivity o, [.callback .onConnected, .code .registerRecv])

/-- `Tick` past the timeout callback. -/
def tickRest (s : Session) (o : Outcome) (now : Nat) : Seg :=
  if 0 < s.cfg.inactivityTimeout ∧ s.lastActivity ≠ 0 ∧
      s.lastActivity + s.cfg.inactivityTimeout ≤ now ∧ !o.hasPendingAppWork then
    s.disconnectOnOwner o .inactivityTimeout
  else if s.backpressureActive && s.cfg.disconnectOnHighWatermark &&
      0 < s.cfg.backpressureDisconnectDelay && s.lastBackpressureHigh ≠ 0 &&
      s.lastBackpressureHigh + s.cfg.backpressureDisconnectDelay ≤ now then
    s.disconnectOnOwner o .backpressureTimeout
  else (s, [])

def tick (s : Session) (o : Outcome) (now : Nat) : Seg :=
  if !s.canUseOnOwner then s.tryRelease
  else if 0 < s.cfg.timeoutCheckInterval ∧ (s.nextTimeoutCheck = 0 ∨ s.nextTimeoutCheck ≤ now) then
    ({ s with nextTimeoutCheck := now + s.cfg.timeoutCheckInterval },
      [.callback (.onTimeoutTick now), .code (.tickTail now)])
  else s.tickRest o now

def beginAppIo (s : Session) : Session :=
  { s with
    pendingAppIo := s.pendingAppIo + 1
    closedAppIo := if s.state = .kClosed then s.closedAppIo + 1 else s.closedAppIo }

/-- The decrement of `EndAppIo`. -/
def completeAppIo (s : Session) : Session :=
  if 0 < s.pendingAppIo then { s with pendingAppIo := s.pendingAppIo - 1 } else s

def endAppIo (s : Session) (o : Outcome) : Seg :=
  (s.completeAppIo.tryDisconnectAfterFlush o).andThen [.code .tryRelease]

/-! ## The machine -/

def exec (o : Outcome) (s : Session) : Instr → Seg
  | .backpressureRaised => s.backpressureRaised o
  | .backpressureCleared => s.backpressureCleared
  | .drainPausedRecv => s.drainPausedRecv
  | .registerRecv => s.registerRecv o
  | .registerSend => s.registerSend o
  | .returnSend result => ({ s with sendResult := result }, [])
  | .sendBatch bufs => s.sendBatch o bufs
  | .tryRelease => s.tryRelease
  | .release => (s.callRelease, [])
  | .onSendDrained => (s.tryDisconnectAfterFlush o).andThen [.code .onSendTail]
  | .onSendTail => s.onSendTail o
  | .onRecvTail res more => s.onRecvTail o res more
  | .tickTail now => if s.timeoutHandled then (s, []) else s.tickRest o now
  | .dispatched id .kComplete => (s.deleteOp id, [])
  | .dispatched _ .kPending => (s, [])

def call (o : Outcome) (s : Session) : Api → Seg
  | .start => s.start o
  | .send buf => s.sendOnOwner o buf
  | .disconnect => s.disconnectOnOwner o .disconnect
  | .disconnectAfterFlush => s.disconnectAfterFlushOnOwner o
  | .pauseRecv => (s.pauseRecv, [])
  | .resumeRecv => s.resumeRecv
  | .beginAppIo => (s.beginAppIo, [])
  | .endAppIo => s.endAppIo o
  | .tick now => s.tick o now

/-- A CQE the ring may deliver for an operation: only a multishot recv has
`F_MORE`, and `sendmsg` never reports more than was requested. -/
def Allows : Op → Cqe → Bool
  | .recv _, _ => true
  | .send op, cqe => !cqe.more && cqe.res ≤ requested op.iovecs
  | .disconnect _, cqe | .cancel _ _, cqe => !cqe.more

/-- History: the kernel reported these bytes sent. -/
def recordSent (s : Session) (data : Bytes) : Session := { s with sent := s.sent ++ data }

/-- History: a recv completion carried these bytes. -/
def recordReceived (s : Session) (data : Bytes) : Session :=
  { s with received := s.received ++ data }

/-- A recv leaves the ring with its last completion. -/
def retireRecv (s : Session) (id : OpId) (more : Bool) : Session :=
  if more then s else s.retire id

/-- `IoRing::Dispatch` of one CQE. -/
def complete (o : Outcome) (s : Session) (cqe : Cqe) : Op → Seg
  | .recv id =>
    ((s.retireRecv id cqe.more).recordReceived cqe.view).onRecv o id cqe
  | .send op =>
    ((s.retire op.id).recordSent ((covered op.iovecs).take cqe.res.toNat)).onSend o op cqe.res
  | .disconnect id => (s.retire id).onDisconnect id
  | .cancel id _ => (s.retire id).onCancel id

def event (o : Outcome) (s : Session) (e : OpId × Cqe) : Option Seg :=
  match s.inFlight.find? (·.id == e.1) with
  | none => none
  | some op => if Allows op e.2 then some (s.complete o e.2 op) else none

def ret (s : Session) : Callback → Bool → Session
  | .onTimeoutTick _, handled => { s with timeoutHandled := handled }
  | _, _ => s

def machine : Machine Session Instr Callback Api (OpId × Cqe) Outcome where
  exec := exec
  call := call
  event := event
  ret := ret

abbrev SConf := Conf Session Instr Callback

abbrev SInput := Input Api (OpId × Cqe) Outcome

def initConf (cfg : Config) : SConf := ⟨init cfg, []⟩

/-- The configurations of some run of a session configured by `cfg`. -/
abbrev Reachable (cfg : Config) (c : SConf) : Prop := machine.Reachable (initConf cfg) c

end Session

end IouringRuntime
