import IouringRuntime.Reentrant.Trace

/-!
# The connector

`modules/proxy/ProxyConnector.cpp` and the connector table of a worker
(`TcpProxyServer::StartConnector`, `CancelConnectors`). A connector runs on its
worker's thread; only `CancelConnectors` runs elsewhere: it copies the table
under its lock, and the worker calls `Cancel` on the copy later. `StartConnector`
is cut between the entry into the table and `Start`, where the copy can be made.

No handler is re-entered: the bridge and the sessions it calls do not know the
connector. The fields of `ProxyConnector` after `selfRef` are history. A
`Cancel` of the copied list is one step for each connector in it.
-/

namespace IouringRuntime

/-- A prepared operation of a connector; the number is the address of its event. -/
inductive ConnectOp where
  | connect (ev : Nat)
  | timeout (ev : Nat)
  | cancel (ev target : Nat)
  deriving DecidableEq, Repr

def ECANCELED : Int := 125

structure ProxyConnector where
  /-- The descriptor is in `socket_`. -/
  socket : Bool := false
  pendingOps : Int := 0
  connectPending : Bool := false
  timeoutArmed : Bool := false
  finished : Bool := false
  finishedNotified : Bool := false
  connectResultNotified : Bool := false
  activeConnectEv : Option Nat := none
  activeTimeoutEv : Option Nat := none
  selfRef : Bool := false
  nextEv : Nat := 0
  inFlight : List ConnectOp := []
  /-- What `Start` returned. -/
  started : Option Bool := none
  finishedCalls : Nat := 0
  /-- The calls of the connect-result callback: success, timeout. -/
  results : List (Bool × Bool) := []
  opened : Nat := 0
  closed : Nat := 0
  /-- Sessions created with the descriptor. -/
  sessions : Nat := 0
  deriving DecidableEq, Repr

/-- What the environment decides for one handler: `socket()`, the allocations
with their `Prep*`, and whether the bridge is closed. -/
structure ConnectOutcome where
  socket : Bool := true
  newConnect : Bool := true
  prepConnect : Bool := true
  armTimeout : Bool := true
  cancelConnect : Bool := true
  cancelTimeout : Bool := true
  bridgeClosed : Bool := false
  deriving DecidableEq, Repr

/-- The connector table of a worker. `live_connectors` is a `size_t`; as an
integer, so that an underflow shows. -/
structure ConnectorTable where
  liveConnectors : Int := 0
  connectors : List Nat := []
  deriving DecidableEq, Repr

namespace ProxyConnector

/-! ## Helpers -/

/-- `socket_.Reset()`. -/
def resetSocket (c : ProxyConnector) : ProxyConnector :=
  if c.socket then { c with socket := false, closed := c.closed + 1 } else c

/-- `socket_.Release()` into a new session. -/
def createSession (c : ProxyConnector) : ProxyConnector :=
  { c with socket := false, sessions := c.sessions + 1 }

/-- A successful `Prep*` of the event at `nextEv`. -/
def prep (c : ProxyConnector) (op : ConnectOp) : ProxyConnector :=
  { c with
    pendingOps := c.pendingOps + 1
    nextEv := c.nextEv + 1
    inFlight := c.inFlight ++ [op] }

/-- Cancel the operation of an active event, best effort. -/
def prepCancel (c : ProxyConnector) (armed : Bool) (target : Option Nat) (ok : Bool) :
    ProxyConnector :=
  match target with
  | none => c
  | some ev => if armed && ok then c.prep (.cancel c.nextEv ev) else c

def notifyConnectResult (c : ProxyConnector) (success timeout : Bool) : ProxyConnector :=
  if c.connectResultNotified then c
  else { c with connectResultNotified := true, results := c.results ++ [(success, timeout)] }

def maybeRelease (c : ProxyConnector) : ProxyConnector :=
  if c.pendingOps = 0 then { c with selfRef := false } else c

/-- The operation's CQE has been taken. -/
def retire (c : ProxyConnector) (op : ConnectOp) : ProxyConnector :=
  { c with pendingOps := c.pendingOps - 1, inFlight := c.inFlight.erase op }

def setFinished (c : ProxyConnector) : ProxyConnector := { c with finished := true }

def cancelConnect (c : ProxyConnector) (ok : Bool) : ProxyConnector :=
  c.prepCancel c.connectPending c.activeConnectEv ok

def cancelTimeout (c : ProxyConnector) (ok : Bool) : ProxyConnector :=
  { c.prepCancel c.timeoutArmed c.activeTimeoutEv ok with
    timeoutArmed := c.timeoutArmed && c.activeTimeoutEv.isNone }

/-- The connect has completed. -/
def connectDone (c : ProxyConnector) (ev : Nat) : ProxyConnector :=
  { c.retire (.connect ev) with
    activeConnectEv := if c.activeConnectEv = some ev then none else c.activeConnectEv
    connectPending := false }

/-- The timeout has completed. -/
def timeoutDone (c : ProxyConnector) (ev : Nat) : ProxyConnector :=
  { c.retire (.timeout ev) with
    activeTimeoutEv := if c.activeTimeoutEv = some ev then none else c.activeTimeoutEv
    timeoutArmed := false }

/-! ## `Start` -/

def failStart (c : ProxyConnector) : ProxyConnector :=
  { c.resetSocket with selfRef := false, started := some false }

/-- The connect timeout is best effort. -/
def armTimeout (c : ProxyConnector) (o : ConnectOutcome) (hasTimeout : Bool) : ProxyConnector :=
  if hasTimeout && o.armTimeout then
    { c.prep (.timeout c.nextEv) with timeoutArmed := true, activeTimeoutEv := some c.nextEv }
  else c

def start (c : ProxyConnector) (o : ConnectOutcome) (hasTimeout : Bool) : ProxyConnector :=
  let c := { c with selfRef := true }
  if !o.socket then c.failStart
  else
    let c := { c with socket := true, opened := c.opened + 1 }
    if !o.newConnect then c.failStart
    else if !o.prepConnect then c.failStart
    else
      let c := { c.prep (.connect c.nextEv) with
        connectPending := true, activeConnectEv := some c.nextEv }
      { c.armTimeout o hasTimeout with started := some true }

end ProxyConnector

/-- A connector, its key, and the table its finished callback changes. -/
structure ConnectorScope where
  key : Nat
  conn : ProxyConnector
  table : ConnectorTable

namespace ConnectorScope

open ProxyConnector

/-- The callback set by `StartConnector`. -/
def onFinished (x : ConnectorScope) : ConnectorScope :=
  { x with
    conn := { x.conn with finishedCalls := x.conn.finishedCalls + 1 }
    table := ⟨x.table.liveConnectors - 1, x.table.connectors.erase x.key⟩ }

def notifyFinished (x : ConnectorScope) : ConnectorScope :=
  if x.conn.finishedNotified then x
  else { x with conn := { x.conn with finishedNotified := true } }.onFinished

/-- `NotifyFinished` and `MaybeRelease`, with which a connector ends. -/
def finish (x : ConnectorScope) : ConnectorScope :=
  let x := x.notifyFinished
  { x with conn := x.conn.maybeRelease }

def set (x : ConnectorScope) (c : ProxyConnector) : ConnectorScope := { x with conn := c }

def cancel (x : ConnectorScope) (o : ConnectOutcome) : ConnectorScope :=
  if x.conn.finished then x
  else
    let c := x.conn.setFinished.resetSocket
    let c := c.cancelConnect o.cancelConnect
    (x.set (c.cancelTimeout o.cancelTimeout)).finish

def onConnect (x : ConnectorScope) (ev : Nat) (res : Int) (o : ConnectOutcome) : ConnectorScope :=
  let c := x.conn.connectDone ev
  if c.finished then x.set c.maybeRelease
  else
    let c := c.cancelTimeout o.cancelTimeout
    if res < 0 || o.bridgeClosed then
      (x.set (c.notifyConnectResult false false).setFinished.resetSocket).finish
    else
      (x.set (c.createSession.notifyConnectResult true false).setFinished).finish

def onTimeout (x : ConnectorScope) (ev : Nat) (res : Int) (o : ConnectOutcome) : ConnectorScope :=
  let c := x.conn.timeoutDone ev
  if c.finished then x.set c.maybeRelease
  else if res = -ECANCELED then x.set c.maybeRelease
  else
    let c := (c.setFinished.notifyConnectResult false true).resetSocket
    (x.set (c.cancelConnect o.cancelConnect)).finish

def onCancel (x : ConnectorScope) (op : ConnectOp) : ConnectorScope :=
  x.set (x.conn.retire op).maybeRelease

def complete (x : ConnectorScope) (op : ConnectOp) (res : Int) (o : ConnectOutcome) :
    ConnectorScope :=
  match op with
  | .connect ev => x.onConnect ev res o
  | .timeout ev => x.onTimeout ev res o
  | .cancel _ _ => x.onCancel op

end ConnectorScope

/-- A worker's connectors: the objects by key, the one that `StartConnector` is
about to start, and the `Cancel` calls posted to the worker. -/
structure ConnectorWorker where
  hasTimeout : Bool
  table : ConnectorTable := {}
  objects : List ProxyConnector := []
  starting : Option Nat := none
  posted : List Nat := []
  deriving DecidableEq, Repr

namespace ConnectorWorker

inductive Action where
  /-- `StartConnector` up to `Start`. -/
  | enter
  /-- The rest of `StartConnector`. -/
  | start (o : ConnectOutcome)
  /-- `CancelConnectors`, by another thread. -/
  | cancelConnectors
  /-- The `j`-th posted `Cancel`. -/
  | cancel (j : Nat) (o : ConnectOutcome)
  | complete (key : Nat) (op : ConnectOp) (res : Int) (o : ConnectOutcome)
  deriving DecidableEq, Repr

/-- A handler of the connector `key` has run. -/
def leave (w : ConnectorWorker) (x : ConnectorScope) : ConnectorWorker :=
  { w with objects := w.objects.set x.key x.conn, table := x.table }

def enter (w : ConnectorWorker) : ConnectorWorker :=
  let key := w.objects.length
  { w with
    table := ⟨w.table.liveConnectors + 1, w.table.connectors ++ [key]⟩
    objects := w.objects ++ [{}]
    starting := some key }

def start (w : ConnectorWorker) (key : Nat) (c : ProxyConnector) (o : ConnectOutcome) :
    ConnectorWorker :=
  let c := c.start o w.hasTimeout
  { w with
    objects := w.objects.set key c
    starting := none
    table := if c.started = some true then w.table
      else ⟨w.table.liveConnectors - 1, w.table.connectors.erase key⟩ }

def step (w : ConnectorWorker) : Action → Option ConnectorWorker
  | .enter => if w.starting.isSome then none else some w.enter
  | .start o =>
    match w.starting with
    | none => none
    | some key => (w.objects[key]?).map fun c => w.start key c o
  | .cancelConnectors => some { w with posted := w.posted ++ w.table.connectors }
  | .cancel j o =>
    if w.starting.isSome then none
    else
      match w.posted[j]? with
      | none => none
      | some key => (w.objects[key]?).map fun c =>
          { w with posted := w.posted.eraseIdx j }.leave
            ((⟨key, c, w.table⟩ : ConnectorScope).cancel o)
  | .complete key op res o =>
    if w.starting.isSome then none
    else
      match w.objects[key]? with
      | none => none
      | some c =>
        if op ∈ c.inFlight then
          some (w.leave ((⟨key, c, w.table⟩ : ConnectorScope).complete op res o))
        else none

end ConnectorWorker

end IouringRuntime
