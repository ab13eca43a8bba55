import IouringRuntime.Proxy.ProxyBridge

/-!
# The client's byte stream through the bridge

What the client sends reaches the upstream directly or by way of
`pending_to_upstream_`. `FlushPendingToUpstream` runs with the upstream already
attached, and each `SendProxyPayload` it makes may resume the downstream, whose
`Forward` then goes past the chunks that wait in the loop. As long as no
`Forward` is entered while such chunks are left, the order is kept
(`client_stream`). `Flow` is the part of the bridge this is about.
-/

namespace IouringRuntime

open Reentrant

namespace ProxyBridge

structure Flow where
  closed : Bool
  upstream : Option PeerId
  pending : List Bytes
  taken : Bytes
  handed : Bytes

def flow (b : ProxyBridge) : Flow :=
  ⟨b.closed, b.upstream, b.pendingToUpstream, b.taken .kDownstream, b.handed .kUpstream⟩

/-- While the bridge is open, nothing is lost and nothing is out of order; data
waits only for an upstream that is not there. -/
def Flow.Ordered (f : Flow) (left : Bytes) (now : Peers) : Prop :=
  f.closed = false →
    f.handed ++ left ++ f.pending.flatten = f.taken ∧
      (f.pending ≠ [] → now.lock f.upstream = none)

/-- No chunk of the backlog is left to hand over when the client's data comes
or an upstream is attached. -/
def InTurn (x : BConf × Peers) : BInput → Prop
  | .call _ (.forward .kDownstream _) | .call _ (.attachUpstream _) =>
    x.1.state.closed = true ∨ backlog x.1.stack = []
  | _ => True

variable {b : ProxyBridge} {o now : Peers} {left : Bytes}

/-! ## One segment -/

@[simp] theorem backlog_nil : backlog [] = [] := rfl

@[simp] theorem backlog_append (st st' : List BFrame) :
    backlog (st ++ st') = backlog st ++ backlog st' := List.flatMap_append

@[simp] theorem backlog_callback (c : PeerCall) (st : List BFrame) :
    backlog (.callback c :: st) = backlog st := rfl

@[simp] theorem backlog_payloadSent (st : List BFrame) :
    backlog (.code .payloadSent :: st) = backlog st := rfl

@[simp] theorem backlog_closeUpstream (st : List BFrame) :
    backlog (.code .closeUpstream :: st) = backlog st := rfl

@[simp] theorem backlog_chunkSent (p : PeerId) (rest : List Bytes) (st : List BFrame) :
    backlog (.code (.chunkSent p rest) :: st) = rest.flatten ++ backlog st := rfl

theorem flow_invoke (b : ProxyBridge) (c : PeerCall) (k : List BFrame) :
    (b.invoke c k).1.flow = { b.flow with handed := b.flow.handed ++ payload c .kUpstream } := by
  simp [invoke, flow, handed, taken]

theorem flow_receive (b : ProxyBridge) (data : Bytes) :
    (b.receive .kDownstream data).flow = { b.flow with taken := b.flow.taken ++ data } := by
  simp [receive, flow, handed, taken]

/-- A call that carries no data for the upstream. -/
theorem flow_ask (role : PeerRole) (peer : Option PeerId) {act : PeerAct} (k : List BFrame)
    (hact : ∀ p, payload ⟨role, p, act⟩ .kUpstream = []) :
    (b.ask o role peer act k).1.flow = b.flow := by
  rcases b.ask_cases o role peer act k with ⟨he, -⟩ | ⟨p, -, -, he⟩
  · rw [he]
  · rw [he, flow_invoke, hact, List.append_nil]

theorem backlog_ask (role : PeerRole) (peer : Option PeerId) (act : PeerAct) (k : List BFrame) :
    backlog (b.ask o role peer act k).2 = backlog k := by
  rcases b.ask_cases o role peer act k with ⟨he, -⟩ | ⟨p, -, -, he⟩ <;> rw [he]
  exact backlog_callback _ _

theorem closed_closePair (b : ProxyBridge) (o : Peers) : (b.closePair o).1.closed = true := by
  unfold closePair
  split
  · assumption
  · exact congrArg Flow.closed (flow_ask .kDownstream _ _ fun _ => rfl)

theorem closed_onPeerDisconnected (b : ProxyBridge) (o : Peers) (role : PeerRole) :
    (b.onPeerDisconnected o role).1.closed = true := by
  unfold onPeerDisconnected
  split
  · assumption
  · cases role with
    | kDownstream => exact congrArg Flow.closed (flow_ask .kUpstream _ _ fun _ => rfl)
    | kUpstream => exact congrArg Flow.closed (flow_ask .kDownstream _ _ fun _ => rfl)

namespace Flow

theorem Ordered.of_closed {f : Flow} (hc : f.closed = true) : f.Ordered left now := by
  intro ho
  rw [hc] at ho
  cases ho

theorem Ordered.mono {f : Flow} (h : f.Ordered left now) (hle : now.Le o) : f.Ordered left o :=
  fun hc => ⟨(h hc).1, fun hp => hle.lock_eq_none ((h hc).2 hp)⟩

end Flow

theorem ordered_closePair (b : ProxyBridge) (o : Peers) :
    (b.closePair o).1.flow.Ordered left now :=
  .of_closed (closed_closePair b o)

/-- The next chunk leaves the loop for the peer. -/
theorem ordered_flushChunks {p : PeerId} {rest : List Bytes}
    (h : b.flow.Ordered (rest.flatten ++ left) now) :
    (b.flushChunks p rest).1.flow.Ordered (backlog (b.flushChunks p rest).2 ++ left) now := by
  cases rest with
  | nil => exact h
  | cons chunk rest =>
    intro hc
    obtain ⟨he, hw⟩ := h hc
    refine ⟨?_, hw⟩
    rw [flushChunks, flow_invoke, ← he]
    simp [invoke, payload]

theorem ordered_onPeerBackpressure (h : b.flow.Ordered left now) (role : PeerRole)
    (active : Bool) :
    (b.onPeerBackpressure o role active).1.flow.Ordered
      (backlog (b.onPeerBackpressure o role active).2 ++ left) now := by
  unfold onPeerBackpressure
  dsimp only
  split
  · exact h
  · cases role <;> cases active <;> rw [flow_ask _ _ _ (fun _ => rfl), backlog_ask] <;> exact h

theorem ordered_queuePendingToUpstream {data : Bytes}
    (h : b.closed = false → b.flow.handed ++ left ++ b.flow.pending.flatten ++ data = b.flow.taken)
    (hu : o.lock b.upstream = none) :
    (b.queuePendingToUpstream o data).1.flow.Ordered
      (backlog (b.queuePendingToUpstream o data).2 ++ left) o := by
  unfold queuePendingToUpstream
  dsimp only
  split
  · exact ordered_closePair b o
  · intro hc
    refine ⟨?_, fun _ => hu⟩
    simpa [flow, handed, taken] using h hc

theorem ordered_forward (h : b.flow.Ordered left o) {sender : PeerRole} (data : Bytes)
    (hturn : sender = .kDownstream → b.closed = true ∨ left = []) :
    (b.forward o sender data).1.flow.Ordered (backlog (b.forward o sender data).2 ++ left) o := by
  cases sender with
  | kUpstream =>
    have hf : (b.receive .kUpstream data).flow = b.flow := by simp [receive, flow, handed, taken]
    unfold forward
    dsimp only
    split
    · rw [hf]; exact h
    · split
      · exact ordered_closePair _ o
      · rw [flow_invoke, hf]
        simpa [invoke, payload] using h
  | kDownstream =>
    unfold forward
    dsimp only
    split
    · next hce =>
      intro hc
      have hd : data = [] := by
        rw [Bool.or_eq_true, List.isEmpty_iff] at hce
        exact hce.resolve_left fun ht => Bool.false_ne_true (hc.symm.trans ht)
      rw [flow_receive, hd]
      simpa using h hc
    · next hce =>
      have hc : b.closed = false := by
        rw [Bool.or_eq_true, not_or, Bool.not_eq_true] at hce
        exact hce.1
      obtain ⟨he, hw⟩ := h hc
      split
      · next hu =>
        refine ordered_queuePendingToUpstream (fun _ => ?_) hu
        rw [flow_receive]
        simp [he]
      · next p hu =>
        -- the upstream is there, so nothing waits for it
        have hp : b.flow.pending = [] := by
          by_contra hne
          exact absurd ((hw hne).symm.trans hu) (by simp)
        have hl : left = [] := (hturn rfl).resolve_left (by simp [hc])
        intro _
        rw [flow_invoke, flow_receive]
        subst hl
        rw [hp] at he
        simp [hp, invoke, payload, ← he]

theorem ordered_attachUpstream (h : b.flow.Ordered left o) (peer : Option PeerId)
    (hturn : b.closed = true ∨ left = []) :
    (b.attachUpstream o peer).1.flow.Ordered (backlog (b.attachUpstream o peer).2 ++ left) o := by
  unfold attachUpstream
  dsimp only
  split
  · next hc =>
    refine .of_closed ?_
    exact (congrArg Flow.closed (flow_ask .kUpstream _ _ fun _ => rfl)).trans hc
  · next hc =>
    have hc : b.closed = false := by simpa [attach] using hc
    obtain ⟨he, -⟩ := h hc
    have hl : left = [] := hturn.resolve_left (by simp [hc])
    subst hl
    cases peer with
    | none => exact fun _ => ⟨he, fun _ => rfl⟩
    | some p =>
      refine ordered_flushChunks fun _ => ⟨?_, fun hne => absurd rfl hne⟩
      simpa [flow, attach, handed, taken] using he

/-! ## Runs -/

def Streams (x : BConf × Peers) : Prop := x.1.state.flow.Ordered (backlog x.1.stack) x.2

theorem ordered_exec {i : BridgeInstr} (h : b.flow.Ordered (backlog [.code i] ++ left) o) :
    (b.exec o i).1.flow.Ordered (backlog (b.exec o i).2 ++ left) o := by
  cases i with
  | payloadSent =>
    simp only [exec, payloadSent]
    split
    · exact h
    · exact ordered_closePair b o
  | chunkSent p rest =>
    simp only [exec, chunkSent]
    split
    · exact ordered_flushChunks (by simpa using h)
    · exact ordered_closePair b o
  | closeUpstream =>
    simp only [exec, closeUpstream]
    rw [flow_ask _ _ _ (fun _ => rfl), backlog_ask]
    exact h

theorem ordered_call (h : b.flow.Ordered left o) {a : BridgeApi}
    (hf : ∀ data, a = .forward .kDownstream data → b.closed = true ∨ left = [])
    (ha : ∀ peer, a = .attachUpstream peer → b.closed = true ∨ left = []) :
    (b.call o a).1.flow.Ordered (backlog (b.call o a).2 ++ left) o := by
  cases a with
  | attachDownstream peer =>
    simp only [call, attachDownstream]
    split
    · rw [flow_ask _ _ _ (fun _ => rfl), backlog_ask]; exact h
    · exact h
  | attachUpstream peer => exact ordered_attachUpstream h peer (ha peer rfl)
  | forward sender data => exact ordered_forward h data fun hs => hf data (by rw [hs])
  | onPeerBackpressure role active => exact ordered_onPeerBackpressure h role active
  | onPeerDisconnected role => exact .of_closed (closed_onPeerDisconnected b o role)
  | closePair => exact ordered_closePair b o

theorem flow_ret (b : ProxyBridge) (c : PeerCall) (ok : Bool) : (b.ret c ok).flow = b.flow := by
  unfold ret
  split <;> rfl

theorem streams_step {x y : BConf × Peers} {i : BInput} (h : Streams x)
    (hs : watchPeers x i = some y) (hQ : InTurn x i) : Streams y := by
  obtain ⟨hle, hm, hy⟩ := watchPeers_eq_some hs
  have h := h.mono hle
  unfold Streams
  rw [hy]
  rcases Machine.step_cases hm with ⟨o, j, rest, rfl, hst, he⟩ | ⟨o, a, rfl, -, he⟩ |
    ⟨ok, k, rest, rfl, hst, he⟩ | ⟨_, e, _, rfl, _⟩
  · rw [hst, ← List.singleton_append, backlog_append] at h
    rw [he, backlog_append]
    exact ordered_exec h
  · rw [he, backlog_append]
    refine ordered_call h (fun data ha => ?_) (fun peer ha => ?_)
    · subst ha; exact hQ
    · subst ha; exact hQ
  · rw [hst] at h
    rw [he]
    exact (flow_ret x.1.state k ok).symm ▸ h
  · exact e.elim

/-- **The client's byte stream.** In every run in which neither a `Forward` of
the client's data nor an `AttachUpstream` is entered while
`FlushPendingToUpstream` has chunks left, what the upstream was handed followed
by what is pending is what the client sent, in order. -/
theorem client_stream (limit : Nat) (is : List BInput)
    (hQ : Trace.Steps watchPeers InTurn (initConf limit, {}) is) :
    Trace.Visits watchPeers
      (fun x => x.1.state.closed = false → backlog x.1.stack = [] →
        x.1.state.handed .kUpstream ++ x.1.state.pendingToUpstream.flatten =
          x.1.state.taken .kDownstream)
      (initConf limit, {}) is := by
  refine Trace.visits_of_steps (J := Streams) (fun x h hc hb => ?_)
    (fun _ _ _ h hs hQ => streams_step h hs hQ) is (fun _ => ⟨rfl, fun hne => absurd rfl hne⟩) hQ
  have he := (h hc).1
  rwa [hb, List.append_nil] at he

/-- The client sends before the upstream is connected, and after. -/
def lateUpstreamRun : List BInput :=
  [.call {} (.attachDownstream (some 0)), .call {} (.forward .kDownstream [1]),
    .call {} (.forward .kDownstream [2]), .call {} (.attachUpstream (some 1)), .ret true, .exec {},
    .ret true, .exec {}, .call {} (.forward .kDownstream [3]), .ret true, .exec {}]

theorem client_stream_lateUpstream :
    (∃ x, Trace.run watchPeers (initConf 0, {}) lateUpstreamRun = some x ∧
      x.1.state.handed .kUpstream = [1, 2, 3]) ∧
      Trace.Visits watchPeers
        (fun x => x.1.state.closed = false → backlog x.1.stack = [] →
          x.1.state.handed .kUpstream ++ x.1.state.pendingToUpstream.flatten =
            x.1.state.taken .kDownstream)
        (initConf 0, {}) lateUpstreamRun := by
  refine ⟨⟨_, rfl, rfl⟩, client_stream 0 lateUpstreamRun ?_⟩
  refine .cons rfl trivial (.cons rfl (.inr rfl) (.cons rfl (.inr rfl) ?_))
  refine .cons rfl (.inr rfl) (.cons rfl trivial (.cons rfl trivial ?_))
  refine .cons rfl trivial (.cons rfl trivial (.cons rfl (.inr rfl) ?_))
  exact .cons rfl trivial (.cons rfl trivial trivial)

/-- The first chunk of the backlog raises and clears the upstream's
backpressure; the downstream it resumes forwards what it had received. -/
def overtakenRun : List BInput :=
  [.call {} (.attachDownstream (some 0)), .call {} (.forward .kDownstream [1]),
    .call {} (.forward .kDownstream [2]), .call {} (.attachUpstream (some 1)),
    .call {} (.onPeerBackpressure .kUpstream true), .ret true,
    .call {} (.onPeerBackpressure .kUpstream false), .call {} (.forward .kDownstream [3]),
    .ret true, .exec {}, .ret true, .ret true, .exec {}, .ret true, .exec {}]

theorem backlog_overtaken :
    ∃ x, Trace.run watchPeers (initConf 0, {}) overtakenRun = some x ∧ x.1.stack = [] ∧
      x.1.state.closed = false ∧ x.1.state.pendingToUpstream = [] ∧
      x.1.state.taken .kDownstream = [1, 2, 3] ∧ x.1.state.handed .kUpstream = [1, 3, 2] :=
  ⟨_, rfl, rfl, rfl, rfl, rfl, rfl⟩

end ProxyBridge

end IouringRuntime
