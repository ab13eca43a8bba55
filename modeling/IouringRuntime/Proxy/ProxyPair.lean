import IouringRuntime.Proxy.ProxyBridge
import IouringRuntime.Proxy.TlsPeer
import IouringRuntime.Reentrant.Network

/-!
# A proxied connection

The downstream session, the upstream session and the bridge between them, as a
network: a session's callbacks call the bridge (`proxy/ProxySessions.cpp`), and
the bridge calls the sessions through `ProxyPeer`. `DisconnectingPeer` is read
from the sessions. A session is released only after `OnDisconnected`, so after
the bridge is closed, and a closed bridge looks up no peer: no pointer of an
open bridge has expired.

Between events the server starts the sessions and ticks them, attaches them to
the bridge, and closes the pair when the connect attempt fails or is cancelled.
`connected` and `discarded` are the two ends of `ProxyConnector::OnConnect`: the
upstream session is created, or the bridge is found closed and the socket is
reset. `OnConnect` calls `Start` and `AttachUpstream` one after the other; here
they are two calls.
-/

namespace IouringRuntime

open Reentrant

/-- A session that implements `ProxyPeer`. -/
structure ProxyPeer where
  State : Type
  Code : Type
  Callback : Type
  Call : Type
  Choice : Type
  machine : Machine State Code Callback Call (OpId × Cqe) Choice
  session : State → Session
  /-- What a callback asks of the bridge; `ready` is whether the connect attempt
  that it may start can be started. -/
  asks : PeerRole → (ready : Bool) → Callback → Option BridgeApi
  /-- What a callback that asks nothing returns. -/
  yields : Callback → Bool
  /-- What a callback returns when the bridge has done what it asked; `closed` is
  `bridge_->Closed()`. -/
  answers : Callback → (closed : Bool) → Bool
  /-- The call that a function of `ProxyPeer` makes, or what it returns without one;
  `newBuffer` is whether `CopyToSendBuffer` succeeds. -/
  enters : (newBuffer : Bool) → PeerAct → Call ⊕ Bool
  /-- What `SendProxyPayload` has returned. -/
  took : State → Bool
  /-- `StartConnector` has been called. -/
  connecting : State → Bool
  /-- The calls the server makes. -/
  admits : State → Call → Bool

namespace ProxyPeer

def component (P : ProxyPeer) : Component where
  State := P.State
  Code := P.Code
  Callback := P.Callback
  Call := P.Call
  Event := OpId × Cqe
  Choice := P.Choice
  machine := P.machine

/-- `Start` at the beginning, `Tick`, and `Disconnect` when the server stops. -/
def serverCalls (s : Session) : Api → Bool
  | .start => s.canUseOnOwner
  | .tick _ | .disconnect => true
  | _ => false

/-- `PlainProxyPeerSession`: `OnConnected`, `OnTimeoutTick` and `OnSocketDrained`
are not overridden. The connect attempt is started with the session. -/
def plain : ProxyPeer where
  State := Session
  Code := Instr
  Callback := IouringRuntime.Callback
  Call := Api
  Choice := Outcome
  machine := Session.machine
  session := id
  asks role _
    | .onRecv data => some (.forward role data)
    | .onDisconnected => some (.onPeerDisconnected role)
    | .onBackpressure active => some (.onPeerBackpressure role active)
    | .onConnected | .onTimeoutTick _ | .onSocketDrained => none
  yields _ := false
  answers _ _ := false
  enters newBuffer
    | .sendProxyPayload data => if newBuffer then .inl (.send ⟨data⟩) else .inr false
    | .disconnectPeer => .inl .disconnect
    | .disconnectPeerAfterFlush => .inl .disconnectAfterFlush
    | .pausePeerRecv => .inl .pauseRecv
    | .resumePeerRecv => .inl .resumeRecv
  took s := s.sendResult.isNone
  connecting _ := true
  admits := serverCalls

/-- `TlsProxyPeerSession`. `on_ready_` starts the connect attempt; when that
fails it closes the pair and returns false. -/
def tls : ProxyPeer where
  State := TlsPeer
  Code := TlsInstr
  Callback := TlsCallback
  Call := TlsApi
  Choice := TlsOutcome
  machine := TlsPeer.machine
  session := TlsPeer.session
  asks role ready
    | .onReady => if ready then none else some .closePair
    | .forward data => some (.forward role data)
    | .onPeerDisconnected => some (.onPeerDisconnected role)
    | .onPeerBackpressure active => some (.onPeerBackpressure role active)
  yields _ := true
  answers
    | .forward _, closed => closed
    | _, _ => false
  enters _
    | .sendProxyPayload data =>
      if h : data ≠ [] then .inl (.sendProxyPayload ⟨data, h⟩) else .inr true
    | .disconnectPeer => .inl (.session .disconnect)
    | .disconnectPeerAfterFlush => .inl (.session .disconnectAfterFlush)
    | .pausePeerRecv => .inl (.session .pauseRecv)
    | .resumePeerRecv => .inl (.session .resumeRecv)
  took := TlsPeer.ok
  connecting := TlsPeer.readyNotified
  admits p
    | .session a => serverCalls p.session a
    | .sendProxyPayload _ => false

end ProxyPeer

namespace PeerRole

def other : PeerRole → PeerRole
  | kDownstream => kUpstream
  | kUpstream => kDownstream

def id : PeerRole → PeerId
  | kDownstream => 0
  | kUpstream => 1

end PeerRole

inductive Part where
  | peer (role : PeerRole)
  | bridge
  deriving DecidableEq, Repr

def ProxyBridge.component : Component where
  State := ProxyBridge
  Code := BridgeInstr
  Callback := PeerCall
  Call := BridgeApi
  Event := Empty
  Choice := Peers
  machine := ProxyBridge.machine

def Part.component (R : PeerRole → ProxyPeer) : Part → Component
  | .peer role => (R role).component
  | .bridge => ProxyBridge.component

structure ProxyPair (R : PeerRole → ProxyPeer) where
  downstream : (R .kDownstream).State
  upstream : (R .kUpstream).State
  bridge : ProxyBridge
  connected : Bool := false
  discarded : Bool := false

/-- What the environment decides for one segment. -/
structure PairChoice (R : PeerRole → ProxyPeer) where
  downstream : (R .kDownstream).Choice
  upstream : (R .kUpstream).Choice
  ready : Bool := true
  newBuffer : Bool := true

/-- The connect attempt succeeds, with the bridge open or closed. -/
inductive PairEvent where
  | connect
  | discard
  deriving DecidableEq, Repr

namespace ProxyPair

variable {R : PeerRole → ProxyPeer}

def peer (s : ProxyPair R) : ∀ role, (R role).State
  | .kDownstream => s.downstream
  | .kUpstream => s.upstream

def setPeer (s : ProxyPair R) : ∀ role, (R role).State → ProxyPair R
  | .kDownstream, x => { s with downstream := x }
  | .kUpstream, x => { s with upstream := x }

def session (s : ProxyPair R) (role : PeerRole) : Session := (R role).session (s.peer role)

def get (s : ProxyPair R) : ∀ part, (Part.component R part).State
  | .peer role => s.peer role
  | .bridge => s.bridge

def set (s : ProxyPair R) : ∀ part, (Part.component R part).State → ProxyPair R
  | .peer role, x => s.setPeer role x
  | .bridge, b => { s with bridge := b }

/-- The peers as the bridge finds them. -/
def found (s : ProxyPair R) : Peers where
  disconnecting :=
    ([.kDownstream, .kUpstream].filter fun role => !(s.session role).canUseOnOwner).map PeerRole.id

def choice (o : PairChoice R) (s : ProxyPair R) : ∀ part, (Part.component R part).Choice
  | .peer .kDownstream => o.downstream
  | .peer .kUpstream => o.upstream
  | .bridge => s.found

def wire (o : PairChoice R) (_ : ProxyPair R) :
    ∀ part, (Part.component R part).Callback → Wire (Part.component R)
  | .peer role, k =>
    match (R role).asks role o.ready k with
    | some a => .call .bridge a
    | none => .done ((R role).yields k)
  | .bridge, c =>
    let c : PeerCall := c
    match (R c.role).enters o.newBuffer c.act with
    | .inl a => .call (.peer c.role) a
    | .inr b => .done b

def answer (s : ProxyPair R) : ∀ part, (Part.component R part).Callback → Bool
  | .peer role, k => (R role).answers k s.bridge.closed
  | .bridge, c =>
    let c : PeerCall := c
    (R c.role).took (s.peer c.role)

/-- The downstream is attached before it is started, and the upstream once. -/
def admits (s : ProxyPair R) : ∀ part, (Part.component R part).Call → Bool
  | .peer .kDownstream, a =>
    !s.bridge.attached.isEmpty && (R .kDownstream).admits s.downstream a
  | .peer .kUpstream, a => s.connected && (R .kUpstream).admits s.upstream a
  | .bridge, a =>
    match (a : BridgeApi) with
    | .attachDownstream peer => peer == some PeerRole.kDownstream.id && s.bridge.attached.isEmpty
    | .attachUpstream peer =>
      peer == some PeerRole.kUpstream.id && s.connected &&
        s.bridge.attached.all (·.1 == .kDownstream)
    | .closePair => true
    | _ => false

/-- The connect attempt is under way. -/
def connecting (s : ProxyPair R) : Bool :=
  !s.bridge.attached.isEmpty && (R .kDownstream).connecting s.downstream && !s.connected &&
    !s.discarded

def onConnect (s : ProxyPair R) : PairEvent → Option (ProxyPair R)
  | .connect => if s.connecting && !s.bridge.closed then some { s with connected := true } else none
  | .discard => if s.connecting && s.bridge.closed then some { s with discarded := true } else none

def network (R : PeerRole → ProxyPeer) :
    Network (Part.component R) (ProxyPair R) PairEvent (PairChoice R) where
  get := get
  set := set
  get_set := by
    intro s part x
    cases part with
    | peer role => cases role <;> rfl
    | bridge => rfl
  get_set_ne := by
    intro s part x part' h
    match part, part', h with
    | .peer .kDownstream, .peer .kUpstream, _ | .peer .kUpstream, .peer .kDownstream, _
    | .peer .kDownstream, .bridge, _ | .peer .kUpstream, .bridge, _ => rfl
    | .bridge, .peer .kDownstream, _ | .bridge, .peer .kUpstream, _ => rfl
    | .peer .kDownstream, .peer .kDownstream, h | .peer .kUpstream, .peer .kUpstream, h
    | .bridge, .bridge, h => exact absurd rfl h
  choice := choice
  wire := wire
  answer := answer
  admits := admits
  other := onConnect
  get_other := by
    intro s x s' h part
    have hs : s'.downstream = s.downstream ∧ s'.upstream = s.upstream ∧ s'.bridge = s.bridge := by
      cases x <;> simp only [onConnect] at h <;> split at h <;> cases h <;> exact ⟨rfl, rfl, rfl⟩
    match part with
    | .peer .kDownstream => exact hs.1
    | .peer .kUpstream => exact hs.2.1
    | .bridge => exact hs.2.2

abbrev machine (R : PeerRole → ProxyPeer) := (network R).machine

abbrev PConf (R : PeerRole → ProxyPeer) := (network R).NConf

abbrev PInput (R : PeerRole → ProxyPeer) := (network R).NInput

end ProxyPair

/-- Whether the downstream is a plain or a TLS session. -/
inductive Transport where
  | plain | tls
  deriving DecidableEq, Repr

namespace Transport

/-- The upstream is always plain. -/
def peers (t : Transport) : PeerRole → ProxyPeer
  | .kDownstream =>
    match t with
    | .plain => .plain
    | .tls => .tls
  | .kUpstream => .plain

end Transport

structure PairConfig where
  downstream : Config := {}
  upstream : Config := {}
  pendingConnectBufferLimit : Nat := 0
  pendingPlaintextLimit : Nat := 0

def PairConfig.initial (cfg : PairConfig) : ∀ t : Transport, ProxyPair t.peers
  | .plain =>
    { downstream := Session.init cfg.downstream
      upstream := Session.init cfg.upstream
      bridge := { pendingConnectBufferLimit := cfg.pendingConnectBufferLimit } }
  | .tls =>
    { downstream :=
        ({ session := Session.init cfg.downstream
           pendingPlaintextLimit := cfg.pendingPlaintextLimit } : TlsPeer)
      upstream := Session.init cfg.upstream
      bridge := { pendingConnectBufferLimit := cfg.pendingConnectBufferLimit } }

end IouringRuntime
