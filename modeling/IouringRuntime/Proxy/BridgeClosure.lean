import Mathlib.Algebra.GroupWithZero.Nat
import IouringRuntime.Proxy.ProxyBridge

/-!
# Closing the bridge

`closed_` is set by `ClosePair` and `OnPeerDisconnected` and never cleared.
Whoever sets it drops the backlog and asks the attached peers to disconnect;
`ClosePair` asks the upstream only after the downstream's `DisconnectPeer` has
returned, and whatever is attached in between, or later, is asked by the
`Attach` call itself. `Counted` and `Tied` are kept by every segment;
`closure_final_complete` puts them together with what a closed bridge still does.
-/

namespace IouringRuntime

open Reentrant

namespace ProxyBridge

/-- The peer has been asked to disconnect. -/
def Asked (b : ProxyBridge) (p : PeerId) : Prop :=
  ∃ c ∈ b.calls, c.peer = p ∧ (c.act = .disconnectPeer ∨ c.act = .disconnectPeerAfterFlush)

/-- `pending_to_upstream_bytes_` counts the backlog, which is within the limit
and dropped with the bridge. -/
structure Counted (b : ProxyBridge) : Prop where
  bytes : b.pendingToUpstreamBytes = (b.pendingToUpstream.map List.length).sum
  limit : b.pendingConnectBufferLimit ≠ 0 →
    b.pendingToUpstreamBytes ≤ b.pendingConnectBufferLimit
  dropped : b.closed = true → b.pendingToUpstream = []

/-- Every live peer attached to a closed bridge, other than the one that closed
it, has been asked to disconnect or is disconnecting. -/
def Complete (b : ProxyBridge) (now : Peers) : Prop :=
  b.closed = true → ∀ role p, (role, some p) ∈ b.attached → b.cause ≠ some role →
    p ∉ now.expired → b.Asked p ∨ p ∈ now.disconnecting

/-- The step leaves a closed bridge closed. It pauses and resumes no peer, and
a call hands over no data: it makes no other calls than to `DisconnectPeer`,
and leaves no code to run. -/
def Final (x : BConf × Peers) (i : BInput) : Prop :=
  x.1.state.closed = true → ∀ y, watchPeers x i = some y →
    y.1.state.closed = true ∧ ∃ made, y.1.state.calls = x.1.state.calls ++ made ∧
      (∀ c ∈ made, c.act ≠ .pausePeerRecv ∧ c.act ≠ .resumePeerRecv) ∧
      ∀ o a, i = .call o a →
        (∀ c ∈ made, c.act = .disconnectPeer) ∧ y.1.stack = made.map .callback ++ x.1.stack

/-- Each role is attached at most once. -/
def AttachesOnce (x : BConf × Peers) : BInput → Prop
  | .call _ (.attachDownstream _) => ∀ peer, (.kDownstream, peer) ∉ x.1.state.attached
  | .call _ (.attachUpstream _) => ∀ peer, (.kUpstream, peer) ∉ x.1.state.attached
  | _ => True

variable {b : ProxyBridge} {o now : Peers} {due : Prop}

/-! ## The backlog -/

namespace Counted

theorem ask (h : b.Counted) (role : PeerRole) (peer : Option PeerId) (act : PeerAct)
    (k : List BFrame) : (b.ask o role peer act k).1.Counted := by
  rcases b.ask_cases o role peer act k with ⟨he, -⟩ | ⟨p, -, -, he⟩ <;> rw [he]
  · exact h
  · exact ⟨h.bytes, h.limit, h.dropped⟩

theorem close (b : ProxyBridge) : b.close.Counted := ⟨rfl, fun _ => Nat.zero_le _, fun _ => rfl⟩

theorem closePair (h : b.Counted) (o : Peers) : (b.closePair o).1.Counted := by
  unfold ProxyBridge.closePair
  split
  · exact h
  · exact (close b).ask _ _ _ _

theorem onPeerDisconnected (h : b.Counted) (o : Peers) (role : PeerRole) :
    (b.onPeerDisconnected o role).1.Counted := by
  unfold ProxyBridge.onPeerDisconnected
  have hc : Counted { b.close with cause := some role } := ⟨rfl, fun _ => Nat.zero_le _, fun _ => rfl⟩
  split
  · exact h
  · cases role <;> exact hc.ask _ _ _ _

theorem onPeerBackpressure (h : b.Counted) (o : Peers) (role : PeerRole) (active : Bool) :
    (b.onPeerBackpressure o role active).1.Counted := by
  unfold ProxyBridge.onPeerBackpressure
  dsimp only
  split
  · exact h
  · cases role <;> exact h.ask _ _ _ _

theorem queuePendingToUpstream (h : b.Counted) (hc : b.closed = false) (o : Peers) (data : Bytes) :
    (b.queuePendingToUpstream o data).1.Counted := by
  unfold ProxyBridge.queuePendingToUpstream
  dsimp only
  split
  · exact h.closePair o
  · next hl =>
    refine ⟨by simp [h.bytes], fun hne => ?_, fun ht => ?_⟩
    · exact Nat.le_of_not_lt fun hlt => hl ⟨hne, hlt⟩
    · exact absurd (hc.symm.trans ht) Bool.false_ne_true

theorem forward (h : b.Counted) (o : Peers) (sender : PeerRole) (data : Bytes) :
    (b.forward o sender data).1.Counted := by
  have hr : (b.receive sender data).Counted := ⟨h.bytes, h.limit, h.dropped⟩
  unfold ProxyBridge.forward
  dsimp only
  split
  · exact hr
  · next hce =>
    have hc : (b.receive sender data).closed = false := by
      rw [Bool.or_eq_true, not_or, Bool.not_eq_true] at hce
      exact hce.1
    cases sender with
    | kDownstream =>
      dsimp only
      split
      · exact hr.queuePendingToUpstream hc o data
      · exact ⟨hr.bytes, hr.limit, hr.dropped⟩
    | kUpstream =>
      dsimp only
      split
      · exact hr.closePair o
      · exact ⟨hr.bytes, hr.limit, hr.dropped⟩

theorem flushChunks (h : b.Counted) (p : PeerId) (chunks : List Bytes) :
    (b.flushChunks p chunks).1.Counted := by
  cases chunks with
  | nil => exact h
  | cons => exact ⟨h.bytes, h.limit, h.dropped⟩

theorem attachDownstream (h : b.Counted) (o : Peers) (peer : Option PeerId) :
    (b.attachDownstream o peer).1.Counted := by
  have ha : (b.attach .kDownstream peer).Counted := ⟨h.bytes, h.limit, h.dropped⟩
  unfold ProxyBridge.attachDownstream
  dsimp only
  split
  · exact ha.ask _ _ _ _
  · exact ⟨ha.bytes, ha.limit, ha.dropped⟩

theorem attachUpstream (h : b.Counted) (o : Peers) (peer : Option PeerId) :
    (b.attachUpstream o peer).1.Counted := by
  have ha : (b.attach .kUpstream peer).Counted := ⟨h.bytes, h.limit, h.dropped⟩
  unfold ProxyBridge.attachUpstream
  dsimp only
  split
  · exact ha.ask _ _ _ _
  · cases peer with
    | none => exact ⟨ha.bytes, ha.limit, ha.dropped⟩
    | some p => exact flushChunks ⟨rfl, fun _ => Nat.zero_le _, fun _ => rfl⟩ p _

theorem exec (h : b.Counted) (o : Peers) (i : BridgeInstr) : (b.exec o i).1.Counted := by
  cases i with
  | payloadSent =>
    simp only [ProxyBridge.exec, payloadSent]
    split
    · exact h
    · exact h.closePair o
  | chunkSent p rest =>
    simp only [ProxyBridge.exec, chunkSent]
    split
    · exact h.flushChunks p rest
    · exact h.closePair o
  | closeUpstream => exact h.ask _ _ _ _

theorem call (h : b.Counted) (o : Peers) (a : BridgeApi) : (b.call o a).1.Counted := by
  cases a with
  | attachDownstream peer => exact h.attachDownstream o peer
  | attachUpstream peer => exact h.attachUpstream o peer
  | forward sender data => exact h.forward o sender data
  | onPeerBackpressure role active => exact h.onPeerBackpressure o role active
  | onPeerDisconnected role => exact h.onPeerDisconnected o role
  | closePair => exact h.closePair o

end Counted

/-! ## The peers -/

def pointer (b : ProxyBridge) : PeerRole → Option PeerId
  | .kDownstream => b.downstream
  | .kUpstream => b.upstream

/-- There is nothing left to ask of the peer. -/
def Settled (b : ProxyBridge) (now : Peers) (p : PeerId) : Prop :=
  p ∈ now.expired ∨ p ∈ now.disconnecting ∨ b.Asked p

/-- An open bridge holds every peer attached to it; a closed one has settled
them, apart from the upstream while `ClosePair` is still to ask it. -/
structure Tied (b : ProxyBridge) (now : Peers) (due : Prop) : Prop where
  held : b.closed = false → ∀ role p, (role, some p) ∈ b.attached → b.pointer role = some p
  told : b.closed = true → ∀ role p, (role, some p) ∈ b.attached →
    b.cause = some role ∨ b.Settled now p ∨ due ∧ role = .kUpstream ∧ b.upstream = some p

/-- What decides whether the peers are tied, apart from the calls made. -/
structure Ties where
  closed : Bool
  downstream : Option PeerId
  upstream : Option PeerId
  attached : List (PeerRole × Option PeerId)
  cause : Option PeerRole

def ties (b : ProxyBridge) : Ties := ⟨b.closed, b.downstream, b.upstream, b.attached, b.cause⟩

theorem Settled.mono {b' : ProxyBridge} {now' : Peers} {p : PeerId} (h : b.Settled now p)
    (hc : b.calls ⊆ b'.calls) (hle : now.Le now') : b'.Settled now' p := by
  rcases h with h | h | ⟨c, hm, h⟩
  · exact .inl (hle.1 h)
  · exact .inr (.inl (hle.2 h))
  · exact .inr (.inr ⟨c, hc hm, h⟩)

theorem Tied.mono {b' : ProxyBridge} {now' : Peers} {due' : Prop} (h : b.Tied now due)
    (ht : b'.ties = b.ties) (hc : b.calls ⊆ b'.calls) (hle : now.Le now') (hd : due → due') :
    b'.Tied now' due' := by
  obtain ⟨h1, h2, h3, h4, h5⟩ := Ties.mk.inj ht
  refine ⟨fun ho role p hm => ?_, fun hcl role p hm => ?_⟩
  · have hp := h.held (h1 ▸ ho) role p (h4 ▸ hm)
    cases role with
    | kDownstream => exact h2.trans hp
    | kUpstream => exact h3.trans hp
  · rcases h.told (h1 ▸ hcl) role p (h4 ▸ hm) with hr | hr | ⟨hr, hr', hr''⟩
    · exact .inl (h5.trans hr)
    · exact .inr (.inl (hr.mono hc hle))
    · exact .inr (.inr ⟨hd hr, hr', h3.trans hr''⟩)

theorem ties_ask (role : PeerRole) (peer : Option PeerId) (act : PeerAct) (k : List BFrame) :
    (b.ask o role peer act k).1.ties = b.ties := by
  rcases b.ask_cases o role peer act k with ⟨he, -⟩ | ⟨p, -, -, he⟩ <;> rw [he]
  rfl

theorem calls_ask (role : PeerRole) (peer : Option PeerId) (act : PeerAct) (k : List BFrame) :
    b.calls ⊆ (b.ask o role peer act k).1.calls := by
  rcases b.ask_cases o role peer act k with ⟨he, -⟩ | ⟨p, -, -, he⟩ <;> rw [he]
  · exact List.Subset.refl _
  · exact List.subset_append_left _ _

theorem Tied.ask (h : b.Tied o due) (role : PeerRole) (peer : Option PeerId) (act : PeerAct)
    (k : List BFrame) : (b.ask o role peer act k).1.Tied o due :=
  h.mono (ties_ask role peer act k) (calls_ask role peer act k) (Peers.Le.refl o) id

/-- A peer the bridge has a strong pointer to is settled by the call. -/
theorem settled_ask {role : PeerRole} {p : PeerId} {act : PeerAct} {k : List BFrame}
    (hact : act = .disconnectPeer ∨ act = .disconnectPeerAfterFlush) :
    (b.ask o role (some p) act k).1.Settled o p := by
  rcases b.ask_cases o role (some p) act k with ⟨-, hd⟩ | ⟨q, ⟨⟩, -, he⟩
  · exact .inr (.inl (hd p rfl))
  · rw [he]
    exact .inr (.inr ⟨_, List.mem_append_right _ (List.mem_singleton.2 rfl), rfl, hact⟩)

/-- So is a peer it has a weak pointer to. -/
theorem settled_ask_lock {role : PeerRole} {p : PeerId} {act : PeerAct} {k : List BFrame}
    (hact : act = .disconnectPeer ∨ act = .disconnectPeerAfterFlush) :
    (b.ask o role (o.lock (some p)) act k).1.Settled o p := by
  by_cases hp : p ∈ o.expired
  · exact .inl hp
  · have hl : o.lock (some p) = some p := by simp [Peers.lock, hp]
    rw [hl]
    exact settled_ask hact

namespace Tied

theorem closePair (h : b.Tied o due) :
    (b.closePair o).1.Tied o (.code .closeUpstream ∈ (b.closePair o).2 ∨ due) := by
  unfold ProxyBridge.closePair
  split
  · exact h.mono rfl (List.Subset.refl _) (Peers.Le.refl o) .inr
  · next hc =>
    have hc : b.closed = false := Bool.not_eq_true _ ▸ hc
    have ht := ties_ask (b := b.close) (o := o) .kDownstream (o.lock b.downstream) .disconnectPeer
      [.code .closeUpstream]
    obtain ⟨h1, -, h3, h4, -⟩ := Ties.mk.inj ht
    refine ⟨fun ho => absurd (ho.symm.trans h1) Bool.false_ne_true, fun _ role p hm => ?_⟩
    rw [h4] at hm
    have hp := h.held hc role p hm
    cases role with
    | kDownstream =>
      have hp : b.downstream = some p := hp
      rw [hp]
      exact .inr (.inl (settled_ask_lock (.inl rfl)))
    | kUpstream =>
      refine .inr (.inr ⟨.inl ?_, rfl, h3.trans hp⟩)
      rcases b.close.ask_cases o .kDownstream (o.lock b.downstream) .disconnectPeer
        [.code .closeUpstream] with ⟨he, -⟩ | ⟨q, -, -, he⟩ <;> rw [he] <;> simp [invoke]

theorem onPeerDisconnected (h : b.Tied o due) (role : PeerRole) :
    (b.onPeerDisconnected o role).1.Tied o due := by
  unfold ProxyBridge.onPeerDisconnected
  split
  · exact h
  · next hc =>
    have hc : b.closed = false := Bool.not_eq_true _ ▸ hc
    dsimp only
    have hsettled {r s : PeerRole} {act : PeerAct} (hr : r ≠ s)
        (hact : act = .disconnectPeer ∨ act = .disconnectPeerAfterFlush) :
        (ProxyBridge.ask { b.close with cause := some r } o s (o.lock (b.pointer s)) act []).1.Tied
          o due := by
      have ht := ties_ask (b := { b.close with cause := some r }) (o := o) s
        (o.lock (b.pointer s)) act []
      obtain ⟨h1, -, -, h4, h5⟩ := Ties.mk.inj ht
      refine ⟨fun ho => absurd (ho.symm.trans h1) Bool.false_ne_true, fun _ t p hm => ?_⟩
      rw [h4] at hm
      have hp := h.held hc t p hm
      by_cases hrt : t = r
      · exact .inl (hrt ▸ h5)
      · have hts : t = s := by cases t <;> cases s <;> cases r <;> simp_all
        rw [← hts, hp]
        exact .inr (.inl (settled_ask_lock hact))
    cases role with
    | kUpstream => exact hsettled (s := .kDownstream) (by simp) (.inr rfl)
    | kDownstream => exact hsettled (s := .kUpstream) (by simp) (.inl rfl)

theorem onPeerBackpressure (h : b.Tied o due) (role : PeerRole) (active : Bool) :
    (b.onPeerBackpressure o role active).1.Tied o due := by
  unfold ProxyBridge.onPeerBackpressure
  dsimp only
  split
  · exact h
  · cases role <;> exact h.ask _ _ _ _

/-- Code that leaves the peers as they are. -/
theorem keep {b' : ProxyBridge} (h : b.Tied o due) (ht : b'.ties = b.ties)
    (hc : b.calls ⊆ b'.calls) : b'.Tied o due :=
  h.mono ht hc (Peers.Le.refl o) id

theorem queuePendingToUpstream (h : b.Tied o due) (data : Bytes) :
    (b.queuePendingToUpstream o data).1.Tied o
      (.code .closeUpstream ∈ (b.queuePendingToUpstream o data).2 ∨ due) := by
  unfold ProxyBridge.queuePendingToUpstream
  dsimp only
  split
  · exact h.closePair
  · exact h.mono rfl (List.Subset.refl _) (Peers.Le.refl o) .inr

theorem forward (h : b.Tied o due) (sender : PeerRole) (data : Bytes) :
    (b.forward o sender data).1.Tied o
      (.code .closeUpstream ∈ (b.forward o sender data).2 ∨ due) := by
  have hr : (b.receive sender data).Tied o due := h.keep rfl (List.Subset.refl _)
  have hinvoke (c : PeerCall) (k : List BFrame) :
      ((b.receive sender data).invoke c k).1.Tied o (.code .closeUpstream ∈ .callback c :: k ∨ due) :=
    hr.mono rfl (List.subset_append_left _ _) (Peers.Le.refl o) .inr
  unfold ProxyBridge.forward
  dsimp only
  split
  · exact hr.mono rfl (List.Subset.refl _) (Peers.Le.refl o) .inr
  · cases sender with
    | kDownstream =>
      dsimp only
      split
      · exact hr.queuePendingToUpstream data
      · exact hinvoke _ _
    | kUpstream =>
      dsimp only
      split
      · exact hr.closePair
      · exact hinvoke _ _

theorem flushChunks (h : b.Tied o due) (p : PeerId) (chunks : List Bytes) :
    (b.flushChunks p chunks).1.Tied o due := by
  cases chunks with
  | nil => exact h
  | cons => exact h.keep rfl (List.subset_append_left _ _)

/-- A closed bridge asks the peer it is given. -/
theorem refused (h : b.Tied o due) (hc : b.closed = true) (role : PeerRole)
    (peer : Option PeerId) :
    ((b.attach role peer).ask o role peer .disconnectPeer []).1.Tied o due := by
  have ht := ties_ask (b := b.attach role peer) (o := o) role peer .disconnectPeer []
  have hcalls := calls_ask (b := b.attach role peer) (o := o) role peer .disconnectPeer []
  obtain ⟨h1, -, h3, h4, h5⟩ := Ties.mk.inj ht
  refine ⟨fun ho => absurd ((ho.symm.trans h1).trans hc) Bool.false_ne_true, fun _ r p hm => ?_⟩
  rw [h4] at hm
  rcases List.mem_append.1 hm with hm | hm
  · rcases h.told hc r p hm with hr | hr | ⟨hr, hr', hr''⟩
    · exact .inl (h5.trans hr)
    · exact .inr (.inl (hr.mono hcalls (Peers.Le.refl o)))
    · exact .inr (.inr ⟨hr, hr', h3.trans hr''⟩)
  · obtain ⟨rfl, rfl⟩ := Prod.mk.inj (List.mem_singleton.1 hm)
    exact .inr (.inl (settled_ask (.inl rfl)))

/-- An open bridge takes the peer it is given; another peer of that role there
is not. -/
theorem taken {b' : ProxyBridge} {role : PeerRole} {peer : Option PeerId} (h : b.Tied o due)
    (hc : b.closed = false) (hc' : b'.closed = false)
    (ha : b'.attached = b.attached ++ [(role, peer)])
    (hother : ∀ r, r ≠ role → b'.pointer r = b.pointer r) (hp : b'.pointer role = peer)
    (honce : ∀ q, (role, q) ∉ b.attached) : b'.Tied o due := by
  refine ⟨fun _ r p hm => ?_, fun ht => absurd (hc'.symm.trans ht) Bool.false_ne_true⟩
  rw [ha] at hm
  rcases List.mem_append.1 hm with hm | hm
  · have hr : r ≠ role := fun hr => honce _ (hr ▸ hm)
    exact (hother r hr).trans (h.held hc r p hm)
  · obtain ⟨rfl, rfl⟩ := Prod.mk.inj (List.mem_singleton.1 hm)
    exact hp

theorem attachDownstream (h : b.Tied o due) (peer : Option PeerId)
    (honce : ∀ q, (.kDownstream, q) ∉ b.attached) : (b.attachDownstream o peer).1.Tied o due := by
  unfold ProxyBridge.attachDownstream
  dsimp only
  split
  · next hc => exact h.refused hc .kDownstream peer
  · next hc =>
    have hc : b.closed = false := Bool.not_eq_true _ ▸ hc
    refine h.taken hc hc rfl (fun r hr => ?_) rfl honce
    cases r with
    | kDownstream => exact absurd rfl hr
    | kUpstream => rfl

theorem attachUpstream (h : b.Tied o due) (peer : Option PeerId)
    (honce : ∀ q, (.kUpstream, q) ∉ b.attached) : (b.attachUpstream o peer).1.Tied o due := by
  unfold ProxyBridge.attachUpstream
  dsimp only
  split
  · next hc => exact h.refused hc .kUpstream peer
  · next hc =>
    have ho : b.closed = false := Bool.not_eq_true _ ▸ hc
    have hother (r : PeerRole) (hr : r ≠ .kUpstream) (b' : ProxyBridge)
        (hb : b'.downstream = b.downstream) : b'.pointer r = b.pointer r := by
      cases r with
      | kDownstream => exact hb
      | kUpstream => exact absurd rfl hr
    cases peer with
    | none => exact h.taken ho ho rfl (fun r hr => hother r hr _ rfl) rfl honce
    | some p =>
      refine flushChunks ?_ p _
      exact h.taken ho ho rfl (fun r hr => hother r hr _ rfl) rfl honce

theorem exec (i : BridgeInstr) (h : b.Tied o (i = .closeUpstream ∨ due)) :
    (b.exec o i).1.Tied o (.code .closeUpstream ∈ (b.exec o i).2 ∨ due) := by
  cases i with
  | payloadSent =>
    have h : b.Tied o due := h.mono rfl (List.Subset.refl _) (Peers.Le.refl o) (by simp)
    simp only [ProxyBridge.exec, payloadSent]
    split
    · exact h.mono rfl (List.Subset.refl _) (Peers.Le.refl o) .inr
    · exact h.closePair
  | chunkSent p rest =>
    have h : b.Tied o due := h.mono rfl (List.Subset.refl _) (Peers.Le.refl o) (by simp)
    simp only [ProxyBridge.exec, chunkSent]
    split
    · exact (h.flushChunks p rest).mono rfl (List.Subset.refl _) (Peers.Le.refl o) .inr
    · exact h.closePair
  | closeUpstream =>
    have ha := h.ask .kUpstream (o.lock b.upstream) .disconnectPeer []
    have ht := ties_ask (b := b) (o := o) .kUpstream (o.lock b.upstream) .disconnectPeer []
    refine ⟨ha.held, fun hc r p hm => ?_⟩
    rcases ha.told hc r p hm with hr | hr | ⟨-, -, hp⟩
    · exact .inl hr
    · exact .inr (.inl hr)
    · have hp : b.upstream = some p := (congrArg Ties.upstream ht).symm.trans hp
      refine .inr (.inl ?_)
      simp only [ProxyBridge.exec, ProxyBridge.closeUpstream, hp]
      exact settled_ask_lock (.inl rfl)

theorem call (h : b.Tied o due) (a : BridgeApi)
    (hd : ∀ peer, a = .attachDownstream peer → ∀ q, (.kDownstream, q) ∉ b.attached)
    (hu : ∀ peer, a = .attachUpstream peer → ∀ q, (.kUpstream, q) ∉ b.attached) :
    (b.call o a).1.Tied o (.code .closeUpstream ∈ (b.call o a).2 ∨ due) := by
  have weaken {r : BSeg} (hr : r.1.Tied o due) : r.1.Tied o (.code .closeUpstream ∈ r.2 ∨ due) :=
    hr.mono rfl (List.Subset.refl _) (Peers.Le.refl o) .inr
  cases a with
  | attachDownstream peer => exact weaken (h.attachDownstream peer (hd peer rfl))
  | attachUpstream peer => exact weaken (h.attachUpstream peer (hu peer rfl))
  | forward sender data => exact h.forward sender data
  | onPeerBackpressure role active => exact weaken (h.onPeerBackpressure role active)
  | onPeerDisconnected role => exact weaken (h.onPeerDisconnected role)
  | closePair => exact h.closePair

end Tied

/-! ## A closed bridge -/

theorem closed_ask (hc : b.closed = true) (role : PeerRole) (peer : Option PeerId)
    (act : PeerAct) :
    (b.ask o role peer act []).1.closed = true ∧
      ∃ made, (b.ask o role peer act []).1.calls = b.calls ++ made ∧ (∀ c ∈ made, c.act = act) ∧
        (b.ask o role peer act []).2 = made.map .callback := by
  rcases b.ask_cases o role peer act [] with ⟨he, -⟩ | ⟨p, -, -, he⟩ <;> rw [he]
  · exact ⟨hc, [], (List.append_nil _).symm, fun _ hm => absurd hm List.not_mem_nil, rfl⟩
  · exact ⟨hc, [⟨role, p, act⟩], rfl, fun c hm => List.mem_singleton.1 hm ▸ rfl, rfl⟩

theorem closed_call (hc : b.closed = true) (o : Peers) (a : BridgeApi) :
    (b.call o a).1.closed = true ∧
      ∃ made, (b.call o a).1.calls = b.calls ++ made ∧ (∀ c ∈ made, c.act = .disconnectPeer) ∧
        (b.call o a).2 = made.map .callback := by
  have none {b' : ProxyBridge} (hc : b'.closed = true) (he : b'.calls = b.calls) :
      b'.closed = true ∧ ∃ made, b'.calls = b.calls ++ made ∧
        (∀ c ∈ made, c.act = .disconnectPeer) ∧ ([] : List BFrame) = made.map .callback :=
    ⟨hc, [], by rw [he, List.append_nil], fun _ hm => absurd hm List.not_mem_nil, rfl⟩
  cases a with
  | attachDownstream peer =>
    have he : b.call o (.attachDownstream peer) =
        (b.attach .kDownstream peer).ask o .kDownstream peer .disconnectPeer [] := by
      simp [call, attachDownstream, attach, hc]
    rw [he]
    exact closed_ask (b := b.attach .kDownstream peer) hc _ _ _
  | attachUpstream peer =>
    have he : b.call o (.attachUpstream peer) =
        (b.attach .kUpstream peer).ask o .kUpstream peer .disconnectPeer [] := by
      simp [call, attachUpstream, attach, hc]
    rw [he]
    exact closed_ask (b := b.attach .kUpstream peer) hc _ _ _
  | forward sender data =>
    have he : b.call o (.forward sender data) = (b.receive sender data, []) := by
      simp [call, forward, receive, hc]
    rw [he]
    exact none hc rfl
  | onPeerBackpressure role active =>
    have he : b.call o (.onPeerBackpressure role active) = (b, []) := by simp [call, onPeerBackpressure, hc]
    rw [he]
    exact none hc rfl
  | onPeerDisconnected role =>
    have he : b.call o (.onPeerDisconnected role) = (b, []) := by simp [call, onPeerDisconnected, hc]
    rw [he]
    exact none hc rfl
  | closePair =>
    have he : b.call o .closePair = (b, []) := by simp [call, closePair, hc]
    rw [he]
    exact none hc rfl

/-- `FlushPendingToUpstream`, entered before the bridge was closed, may still
hand over its chunks. -/
theorem closed_exec (hc : b.closed = true) (o : Peers) (i : BridgeInstr) :
    (b.exec o i).1.closed = true ∧
      ∃ made, (b.exec o i).1.calls = b.calls ++ made ∧
        ∀ c ∈ made, c.act ≠ .pausePeerRecv ∧ c.act ≠ .resumePeerRecv := by
  have none : b.closed = true ∧ ∃ made, b.calls = b.calls ++ made ∧
      ∀ c ∈ made, c.act ≠ .pausePeerRecv ∧ c.act ≠ .resumePeerRecv :=
    ⟨hc, [], (List.append_nil _).symm, fun _ hm => absurd hm List.not_mem_nil⟩
  cases i with
  | payloadSent =>
    have he : b.exec o .payloadSent = (b, []) := by simp [exec, payloadSent, closePair, hc]
    rw [he]
    exact none
  | chunkSent p rest =>
    by_cases hsent : b.sent = true
    · have he : b.exec o (.chunkSent p rest) = b.flushChunks p rest := by
        simp [exec, chunkSent, hsent]
      rw [he]
      cases rest with
      | nil => exact none
      | cons chunk rest =>
        refine ⟨hc, [⟨.kUpstream, p, .sendProxyPayload chunk⟩], rfl, fun c hm => ?_⟩
        obtain rfl := List.mem_singleton.1 hm
        simp
    · have he : b.exec o (.chunkSent p rest) = (b, []) := by
        simp [exec, chunkSent, closePair, hsent, hc]
      rw [he]
      exact none
  | closeUpstream =>
    obtain ⟨h1, made, h2, h3, -⟩ :=
      closed_ask (o := o) hc .kUpstream (o.lock b.upstream) .disconnectPeer
    exact ⟨h1, made, h2, fun c hm => by simp [h3 c hm]⟩

/-! ## Runs -/

theorem final (x : BConf × Peers) (i : BInput) : Final x i := by
  intro hc y hs
  obtain ⟨-, hm, -⟩ := watchPeers_eq_some hs
  rcases Machine.step_cases hm with ⟨o, j, rest, rfl, hst, he⟩ | ⟨o, a, rfl, -, he⟩ |
    ⟨ok, k, rest, rfl, hst, he⟩ | ⟨_, e, _, rfl, _⟩
  · obtain ⟨h1, made, h2, h3⟩ := closed_exec hc o j
    rw [he]
    exact ⟨h1, made, h2, h3, fun _ _ h => by cases h⟩
  · obtain ⟨h1, made, h2, h3, h4⟩ := closed_call hc o a
    rw [he]
    refine ⟨h1, made, h2, fun c hm => by simp [h3 c hm], fun _ _ _ => ⟨h3, ?_⟩⟩
    exact congrArg (· ++ x.1.stack) h4
  · rw [he]
    have hr : (x.1.state.ret k ok).closed = x.1.state.closed ∧
        (x.1.state.ret k ok).calls = x.1.state.calls := by
      unfold ret
      split <;> exact ⟨rfl, rfl⟩
    refine ⟨hr.1.trans hc, [], hr.2.trans (List.append_nil _).symm, ?_, fun _ _ h => by cases h⟩
    exact fun _ hm => absurd hm List.not_mem_nil
  · exact e.elim

structure Closes (x : BConf × Peers) : Prop where
  counted : x.1.state.Counted
  tied : x.1.state.Tied x.2 (.code .closeUpstream ∈ x.1.stack)

theorem closes_step {x y : BConf × Peers} {i : BInput} (h : Closes x)
    (hs : watchPeers x i = some y) (hQ : AttachesOnce x i) : Closes y := by
  obtain ⟨hle, hm, hy⟩ := watchPeers_eq_some hs
  have ht := h.tied.mono rfl (List.Subset.refl _) hle id
  rcases Machine.step_cases hm with ⟨o, j, rest, rfl, hst, he⟩ | ⟨o, a, rfl, -, he⟩ |
    ⟨ok, k, rest, rfl, hst, he⟩ | ⟨_, e, _, rfl, _⟩
  · refine ⟨he ▸ h.counted.exec o j, ?_⟩
    rw [hst] at ht
    have ht : x.1.state.Tied o (j = .closeUpstream ∨ .code .closeUpstream ∈ rest) :=
      ht.mono rfl (List.Subset.refl _) (Peers.Le.refl o) (by simp [eq_comm])
    rw [he, hy]
    exact (ht.exec j).mono rfl (List.Subset.refl _) (Peers.Le.refl o) List.mem_append.2
  · refine ⟨he ▸ h.counted.call o a, ?_⟩
    rw [he, hy]
    refine (Tied.call ht a (fun peer ha => ?_) (fun peer ha => ?_)).mono rfl (List.Subset.refl _)
      (Peers.Le.refl o) List.mem_append.2
    · subst ha; exact hQ
    · subst ha; exact hQ
  · rw [hst] at ht
    have hr : (x.1.state.ret k ok).Counted ∧ (x.1.state.ret k ok).ties = x.1.state.ties ∧
        (x.1.state.ret k ok).calls = x.1.state.calls := by
      unfold ret
      split <;> exact ⟨⟨h.counted.bytes, h.counted.limit, h.counted.dropped⟩, rfl, rfl⟩
    refine ⟨he ▸ hr.1, ?_⟩
    rw [he, hy]
    exact ht.mono hr.2.1 (hr.2.2 ▸ List.Subset.refl _) (Peers.Le.refl _) (by simp)
  · exact e.elim

theorem Closes.complete {x : BConf × Peers} (h : Closes x)
    (hd : .code .closeUpstream ∉ x.1.stack) : x.1.state.Complete x.2 := by
  intro hc role p hm hcause hlive
  rcases h.tied.told hc role p hm with hr | hr | ⟨hr, -⟩
  · exact absurd hr hcause
  · rcases hr with hr | hr | hr
    · exact absurd hr hlive
    · exact .inr hr
    · exact .inl hr
  · exact absurd hr hd

/-- The client goes while the connect is unfinished; the upstream comes later. -/
def lateAttachRun : List BInput :=
  [.call {} (.attachDownstream (some 0)), .call {} (.forward .kDownstream [1]),
    .call { disconnecting := [0] } (.onPeerDisconnected .kDownstream),
    .call { disconnecting := [0] } (.attachUpstream (some 1)), .ret true]

end ProxyBridge

end IouringRuntime
