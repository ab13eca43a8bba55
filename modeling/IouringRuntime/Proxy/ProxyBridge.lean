import IouringRuntime.Core.Word
import IouringRuntime.Reentrant.Machine

/-!
# The bridge

`modules/proxy/ProxyBridge.cpp`: what one peer receives is forwarded to the
other, and what the client sends before the upstream is connected waits in
`pending_to_upstream_`. The bridge holds its peers by weak pointers and calls
them through `ProxyPeer`; inside such a call a peer may call the bridge again.
A function is cut after each call into a peer.

`DisconnectingPeer` and `weak_ptr::lock` run no other code and are answered by
the environment, once for each segment. `attached`, `forwarded`, `calls` and
`cause` are history.
-/

namespace IouringRuntime

open Reentrant

inductive PeerRole where
  | kDownstream | kUpstream
  deriving DecidableEq, Repr

/-- The address of a `ProxyPeer`. -/
abbrev PeerId := Nat

/-- The peers as a segment finds them: those whose weak pointers have expired,
and those that answer `DisconnectingPeer`. -/
structure Peers where
  expired : List PeerId := []
  disconnecting : List PeerId := []
  deriving DecidableEq, Repr

/-- A peer that has expired or is disconnecting stays so. -/
def Peers.Le (p q : Peers) : Prop :=
  p.expired ⊆ q.expired ∧ p.disconnecting ⊆ q.disconnecting

instance (p q : Peers) : Decidable (p.Le q) := inferInstanceAs (Decidable (_ ∧ _))

/-- `weak_ptr::lock`. -/
def Peers.lock (o : Peers) (p : Option PeerId) : Option PeerId :=
  p.filter fun p => !o.expired.contains p

theorem Peers.Le.refl (p : Peers) : p.Le p := ⟨List.Subset.refl _, List.Subset.refl _⟩

theorem Peers.Le.lock_eq_none {now o : Peers} (h : now.Le o) {p : Option PeerId}
    (hp : now.lock p = none) : o.lock p = none := by
  simp only [Peers.lock, Option.filter_eq_none_iff, Bool.not_eq_true, Bool.not_eq_false',
    List.contains_iff_mem] at hp ⊢
  exact fun a ha => h.1 (hp a ha)

inductive PeerAct where
  | sendProxyPayload (data : Bytes)
  | disconnectPeer
  | disconnectPeerAfterFlush
  | pausePeerRecv
  | resumePeerRecv
  deriving DecidableEq, Repr

/-- A call into a peer, through the bridge's pointer to the peer of that role. -/
structure PeerCall where
  role : PeerRole
  peer : PeerId
  act : PeerAct
  deriving DecidableEq, Repr

inductive BridgeInstr where
  /-- `Forward` after `SendProxyPayload`. -/
  | payloadSent
  /-- The loop of `FlushPendingToUpstream` after `SendProxyPayload`, with the
  chunks left. -/
  | chunkSent (upstream : PeerId) (rest : List Bytes)
  /-- `ClosePair` after the downstream. -/
  | closeUpstream
  deriving DecidableEq, Repr

inductive BridgeApi where
  | attachDownstream (peer : Option PeerId)
  | attachUpstream (peer : Option PeerId)
  | forward (sender : PeerRole) (data : Bytes)
  | onPeerBackpressure (role : PeerRole) (active : Bool)
  | onPeerDisconnected (role : PeerRole)
  | closePair
  deriving DecidableEq, Repr

structure ProxyBridge where
  pendingConnectBufferLimit : Nat
  downstream : Option PeerId := none
  upstream : Option PeerId := none
  pendingToUpstream : List Bytes := []
  pendingToUpstreamBytes : Nat := 0
  closed : Bool := false
  /-- What the last `SendProxyPayload` returned. -/
  sent : Bool := true
  attached : List (PeerRole × Option PeerId) := []
  forwarded : List (PeerRole × Bytes) := []
  calls : List PeerCall := []
  /-- The peer whose `OnPeerDisconnected` closed the bridge. -/
  cause : Option PeerRole := none
  deriving DecidableEq, Repr

abbrev BFrame := Frame BridgeInstr PeerCall

/-- The state a segment leaves and the frames it puts on the stack. -/
abbrev BSeg := ProxyBridge × List BFrame

namespace ProxyBridge

/-- History: a peer is passed to `AttachDownstream` or `AttachUpstream`. -/
def attach (b : ProxyBridge) (role : PeerRole) (peer : Option PeerId) : ProxyBridge :=
  { b with attached := b.attached ++ [(role, peer)] }

/-- History: data is passed to `Forward`. -/
def receive (b : ProxyBridge) (sender : PeerRole) (data : Bytes) : ProxyBridge :=
  { b with forwarded := b.forwarded ++ [(sender, data)] }

/-- Call a peer, then go on with `k`. -/
def invoke (b : ProxyBridge) (c : PeerCall) (k : List BFrame) : BSeg :=
  ({ b with calls := b.calls ++ [c] }, .callback c :: k)

/-- Call a peer that is there and not disconnecting. -/
def ask (b : ProxyBridge) (o : Peers) (role : PeerRole) (peer : Option PeerId) (act : PeerAct)
    (k : List BFrame) : BSeg :=
  match peer with
  | some p => if o.disconnecting.contains p then (b, k) else b.invoke ⟨role, p, act⟩ k
  | none => (b, k)

/-- `closed_` is set and the backlog dropped. -/
def close (b : ProxyBridge) : ProxyBridge :=
  { b with closed := true, pendingToUpstream := [], pendingToUpstreamBytes := 0 }

def closeUpstream (b : ProxyBridge) (o : Peers) : BSeg :=
  b.ask o .kUpstream (o.lock b.upstream) .disconnectPeer []

def closePair (b : ProxyBridge) (o : Peers) : BSeg :=
  if b.closed then (b, [])
  else b.close.ask o .kDownstream (o.lock b.downstream) .disconnectPeer [.code .closeUpstream]

def onPeerDisconnected (b : ProxyBridge) (o : Peers) (role : PeerRole) : BSeg :=
  if b.closed then (b, [])
  else
    let b := { b.close with cause := some role }
    match role with
    | .kUpstream => b.ask o .kDownstream (o.lock b.downstream) .disconnectPeerAfterFlush []
    | .kDownstream => b.ask o .kUpstream (o.lock b.upstream) .disconnectPeer []

def onPeerBackpressure (b : ProxyBridge) (o : Peers) (role : PeerRole) (active : Bool) : BSeg :=
  let act : PeerAct := if active then .pausePeerRecv else .resumePeerRecv
  if b.closed then (b, [])
  else
    match role with
    | .kDownstream => b.ask o .kUpstream (o.lock b.upstream) act []
    | .kUpstream => b.ask o .kDownstream (o.lock b.downstream) act []

def queuePendingToUpstream (b : ProxyBridge) (o : Peers) (data : Bytes) : BSeg :=
  let nextSize := b.pendingToUpstreamBytes + data.length
  if b.pendingConnectBufferLimit ≠ 0 ∧ b.pendingConnectBufferLimit < nextSize then b.closePair o
  else
    ({ b with
        pendingToUpstreamBytes := nextSize
        pendingToUpstream := b.pendingToUpstream ++ [data] }, [])

def forward (b : ProxyBridge) (o : Peers) (sender : PeerRole) (data : Bytes) : BSeg :=
  let b := b.receive sender data
  if b.closed || data.isEmpty then (b, [])
  else
    match sender with
    | .kDownstream =>
      match o.lock b.upstream with
      | none => b.queuePendingToUpstream o data
      | some p => b.invoke ⟨.kUpstream, p, .sendProxyPayload data⟩ [.code .payloadSent]
    | .kUpstream =>
      match o.lock b.downstream with
      | none => b.closePair o
      | some p => b.invoke ⟨.kDownstream, p, .sendProxyPayload data⟩ [.code .payloadSent]

def payloadSent (b : ProxyBridge) (o : Peers) : BSeg :=
  if b.sent then (b, []) else b.closePair o

/-- The loop of `FlushPendingToUpstream`. -/
def flushChunks (b : ProxyBridge) (upstream : PeerId) : List Bytes → BSeg
  | [] => (b, [])
  | chunk :: rest =>
    b.invoke ⟨.kUpstream, upstream, .sendProxyPayload chunk⟩ [.code (.chunkSent upstream rest)]

def chunkSent (b : ProxyBridge) (o : Peers) (upstream : PeerId) (rest : List Bytes) : BSeg :=
  if b.sent then b.flushChunks upstream rest else b.closePair o

/-- `lock` gives the peer just attached, which the caller keeps alive. -/
def flushPendingToUpstream (b : ProxyBridge) : BSeg :=
  match b.upstream with
  | none => (b, [])
  | some p =>
    flushChunks { b with pendingToUpstream := [], pendingToUpstreamBytes := 0 } p
      b.pendingToUpstream

def attachDownstream (b : ProxyBridge) (o : Peers) (peer : Option PeerId) : BSeg :=
  let b := b.attach .kDownstream peer
  if b.closed then b.ask o .kDownstream peer .disconnectPeer []
  else ({ b with downstream := peer }, [])

def attachUpstream (b : ProxyBridge) (o : Peers) (peer : Option PeerId) : BSeg :=
  let b := b.attach .kUpstream peer
  if b.closed then b.ask o .kUpstream peer .disconnectPeer []
  else flushPendingToUpstream { b with upstream := peer }

/-! ## The machine -/

def exec (o : Peers) (b : ProxyBridge) : BridgeInstr → BSeg
  | .payloadSent => b.payloadSent o
  | .chunkSent upstream rest => b.chunkSent o upstream rest
  | .closeUpstream => b.closeUpstream o

def call (o : Peers) (b : ProxyBridge) : BridgeApi → BSeg
  | .attachDownstream peer => b.attachDownstream o peer
  | .attachUpstream peer => b.attachUpstream o peer
  | .forward sender data => b.forward o sender data
  | .onPeerBackpressure role active => b.onPeerBackpressure o role active
  | .onPeerDisconnected role => b.onPeerDisconnected o role
  | .closePair => b.closePair o

/-- `SendProxyPayload` returns whether the peer took the data. -/
def ret (b : ProxyBridge) (c : PeerCall) (ok : Bool) : ProxyBridge :=
  match c.act with
  | .sendProxyPayload _ => { b with sent := ok }
  | _ => b

/-- The bridge has no completions of its own. -/
def machine : Machine ProxyBridge BridgeInstr PeerCall BridgeApi Empty Peers where
  exec := exec
  call := call
  event _ _ e := e.elim
  ret := ret

abbrev BConf := Conf ProxyBridge BridgeInstr PeerCall

abbrev BInput := Input BridgeApi Empty Peers

def initConf (limit : Nat) : BConf := ⟨{ pendingConnectBufferLimit := limit }, []⟩

/-- The peers as the step finds them; a return runs no code of the bridge. -/
def found (now : Peers) : BInput → Peers
  | .exec o | .call o _ | .event o _ => o
  | .ret _ => now

/-- The machine among peers that neither come back nor reopen. -/
def watchPeers (x : BConf × Peers) (i : BInput) : Option (BConf × Peers) :=
  if x.2.Le (found x.2 i) then (machine.step x.1 i).map fun c => (c, found x.2 i) else none

theorem watchPeers_eq_some {x y : BConf × Peers} {i : BInput} (hs : watchPeers x i = some y) :
    x.2.Le (found x.2 i) ∧ machine.step x.1 i = some y.1 ∧ y.2 = found x.2 i := by
  unfold watchPeers at hs
  split at hs
  · next hle =>
    obtain ⟨c, hc, rfl⟩ := Option.map_eq_some_iff.1 hs
    exact ⟨hle, hc, rfl⟩
  · cases hs

/-! ## What the bridge is given and hands on -/

/-- The data a peer has passed to `Forward`. -/
def taken (b : ProxyBridge) (sender : PeerRole) : Bytes :=
  b.forwarded.flatMap fun x => if x.1 = sender then x.2 else []

/-- The data of a call to `SendProxyPayload` of the peer of that role. -/
def payload (c : PeerCall) (role : PeerRole) : Bytes :=
  match c.act with
  | .sendProxyPayload data => if c.role = role then data else []
  | _ => []

/-- The data passed to `SendProxyPayload` of the peer of that role. -/
def handed (b : ProxyBridge) (role : PeerRole) : Bytes := b.calls.flatMap (payload · role)

/-- The chunks that `FlushPendingToUpstream` has still to hand over. -/
def backlog (st : List BFrame) : Bytes :=
  st.flatMap fun
    | .code (.chunkSent _ rest) => rest.flatten
    | _ => []

theorem ask_cases (b : ProxyBridge) (o : Peers) (role : PeerRole) (peer : Option PeerId)
    (act : PeerAct) (k : List BFrame) :
    (b.ask o role peer act k = (b, k) ∧ ∀ p, peer = some p → p ∈ o.disconnecting) ∨
      ∃ p, peer = some p ∧ p ∉ o.disconnecting ∧
        b.ask o role peer act k = b.invoke ⟨role, p, act⟩ k := by
  cases peer with
  | none => exact .inl ⟨rfl, fun _ h => by cases h⟩
  | some p =>
    by_cases hp : p ∈ o.disconnecting
    · refine .inl ⟨by simp [ask, hp], ?_⟩
      rintro _ ⟨⟩
      exact hp
    · exact .inr ⟨p, rfl, hp, by simp [ask, hp]⟩

end ProxyBridge

end IouringRuntime
