import IouringRuntime.Session.Moves

/-!
# The drain gate

A session leaves the connected set once: `TryRelease` closes it when it is
closing and neither kernel I/O nor application work is pending. `Gate k n w v`
is the invariant over the part of the state the gate depends on. `k` counts
the recv handlers that still owe a `CompletePendingIo`, `n` the releases that
have passed the gate and not been carried out, and `w` says that a `TryRelease`
is still to run; over a whole configuration the three come from the stack.
-/

namespace IouringRuntime

open Reentrant

/-- The values `state_` has been set to, and its current value. -/
inductive Lifecycle : List SessionState → SessionState → Prop where
  | opened : Lifecycle [] .kOpen
  | closing : Lifecycle [.kClosing] .kClosing
  | draining : Lifecycle [.kClosing, .kDraining] .kDraining
  | closed : Lifecycle [.kClosing, .kClosed] .kClosed
  | drained : Lifecycle [.kClosing, .kDraining, .kClosed] .kClosed

/-- The part of the session the gate depends on. -/
structure GateView where
  state : SessionState
  pendingIo : Nat
  pendingAppIo : Nat
  ops : Nat
  guardHits : Nat
  stateLog : List SessionState
  prepared : List (OpKind × SessionState)
  disconnectedCalls : List (Nat × Nat)
  closedAppIo : Nat
  releaseCalls : List ReleaseCall

def Session.gateView (s : Session) : GateView where
  state := s.state
  pendingIo := s.pendingIo
  pendingAppIo := s.pendingAppIo
  ops := s.inFlight.length
  guardHits := s.guardHits
  stateLog := s.stateLog
  prepared := s.prepared
  disconnectedCalls := s.disconnectedCalls
  closedAppIo := s.closedAppIo
  releaseCalls := s.releaseCalls

structure Gate (k n : Nat) (w : Prop) (v : GateView) : Prop where
  count : v.pendingIo = v.ops + k
  guard : v.guardHits = 0
  life : Lifecycle v.stateLog v.state
  prepared : ∀ p ∈ v.prepared, p.1 = .recv ∨ p.1 = .send → p.2 = .kOpen
  calls : v.disconnectedCalls = if v.state = .kClosed then [(0, 0)] else []
  releases : v.releaseCalls.length + n = v.disconnectedCalls.length
  released : ∀ p ∈ v.releaseCalls, p.pendingIo = 0 ∧ p.pendingAppIo ≤ p.closedAppIo
  closed : v.state = .kClosed → v.pendingIo = 0 ∧ v.pendingAppIo ≤ v.closedAppIo
  waits : v.state = .kOpen ∨ v.state = .kClosed ∨ v.pendingIo ≠ 0 ∨ v.pendingAppIo ≠ 0 ∨ w

/-- Final recv completions whose handler has not reached `CompletePendingIo`. -/
def finalTails (st : List SFrame) : Nat :=
  st.countP fun
    | .code (.onRecvTail _ false) => true
    | _ => false

def releaseTails (st : List SFrame) : Nat := st.countP (· == .code .release)

/-- The invariant of a segment that runs above a stack with `k`, `n` and `w`. -/
def GateSeg (k n : Nat) (w : Prop) (r : Seg) : Prop :=
  Gate (finalTails r.2 + k) (releaseTails r.2 + n) (.code .tryRelease ∈ r.2 ∨ w) r.1.gateView

@[simp] theorem finalTails_append (xs ys : List SFrame) :
    finalTails (xs ++ ys) = finalTails xs + finalTails ys := List.countP_append

@[simp] theorem releaseTails_nil : releaseTails [] = 0 := rfl

@[simp] theorem releaseTails_append (xs ys : List SFrame) :
    releaseTails (xs ++ ys) = releaseTails xs + releaseTails ys := List.countP_append

namespace Gate

variable {k n : Nat} {w w' : Prop} {s t : Session} {v : GateView}

theorem weaken (h : Gate k n w v) (hw : w → w') : Gate k n w' v :=
  { h with waits := h.waits.imp id (Or.imp id (Or.imp id (Or.imp id hw))) }

/-- In an open session no release is due. -/
theorem of_open (h : Gate k n w v) (ho : v.state = .kOpen) : Gate k n w' v :=
  { h with waits := .inl ho }

theorem seg (h : Gate k n w s.gateView) {r : Seg} (hv : r.1.gateView = s.gateView)
    (hk : finalTails r.2 = 0) (hn : releaseTails r.2 = 0) : GateSeg k n w r := by
  unfold GateSeg
  rw [hv, hk, hn, Nat.zero_add, Nat.zero_add]
  exact h.weaken .inr

theorem nil (h : Gate k n w s.gateView) : GateSeg k n w (s, []) := h.seg rfl rfl rfl

end Gate

theorem GateSeg.andThen {k n : Nat} {w : Prop} {r : Seg} {f : List SFrame}
    (h : GateSeg (finalTails f + k) (releaseTails f + n) (.code .tryRelease ∈ f ∨ w) r) :
    GateSeg k n w (r.andThen f) := by
  unfold GateSeg at h ⊢
  simp only [Seg.andThen_fst, Seg.andThen_snd, finalTails_append, releaseTails_append,
    List.mem_append, or_assoc, Nat.add_assoc]
  exact h

/-- Frames the gate does not look at may follow. -/
theorem GateSeg.andThen_quiet {k n : Nat} {w : Prop} {r : Seg} {f : List SFrame}
    (h : GateSeg k n w r) (hk : finalTails f = 0) (hn : releaseTails f = 0) :
    GateSeg k n w (r.andThen f) := by
  refine GateSeg.andThen ?_
  rw [hk, hn, Nat.zero_add, Nat.zero_add]
  exact Gate.weaken h (Or.imp id .inr)

namespace Session

variable {k n : Nat} {w : Prop} {s : Session} {o : Outcome}

/-! ## Counting operations -/

/-- A handler carries out the `CompletePendingIo` it owes. -/
theorem gate_completePendingIo (h : Gate (k + 1) n w s.gateView) :
    Gate k n True s.completePendingIo.gateView := by
  have hc : s.pendingIo = s.inFlight.length + (k + 1) := h.count
  have hpos : 0 < s.pendingIo := by omega
  have hstate : s.state ≠ .kClosed := fun hs => by
    have : s.pendingIo = 0 := (h.closed hs).1
    omega
  unfold completePendingIo
  rw [if_pos hpos]
  exact { h with
    count := by show s.pendingIo - 1 = s.inFlight.length + k; omega
    closed := fun hs => absurd hs hstate
    waits := .inr (.inr (.inr (.inr trivial))) }

theorem gate_prep {op : Op} (h : Gate k n w s.gateView)
    (hk : op.kind = .recv ∨ op.kind = .send → s.state = .kOpen) (hs : s.state ≠ .kClosed) :
    Gate k n w (s.beginPendingIo.prep op).gateView where
  count := by
    have hc : s.pendingIo = s.inFlight.length + k := h.count
    show s.pendingIo + 1 = (s.inFlight ++ [op]).length + k
    rw [List.length_append, List.length_singleton]
    omega
  guard := h.guard
  life := h.life
  prepared := by
    intro p hp
    rcases List.mem_append.1 hp with hp | hp
    · exact h.prepared p hp
    · rw [List.mem_singleton.1 hp]
      exact hk
  calls := h.calls
  releases := h.releases
  released := h.released
  closed := fun h' => absurd h' hs
  waits := .inr (.inr (.inl (Nat.succ_ne_zero _)))

/-- A final completion has been taken from the ring and is owed to the counter. -/
theorem gate_retire (h : Gate k n w s.gateView) {id : OpId} {op : Op}
    (hop : s.inFlight.find? (·.id == id) = some op) :
    Gate (k + 1) n w (s.retire op.id).gateView := by
  obtain ⟨hid, xs, ys, hs, hr⟩ := retire_split hop
  have hc : s.pendingIo = s.inFlight.length + k := h.count
  refine { h with count := ?_ }
  show s.pendingIo = (s.retire op.id).inFlight.length + (k + 1)
  rw [hid, hr, hc, hs]
  simp only [List.length_append, List.length_cons]
  omega

/-! ## Closing -/

theorem gate_tryRelease (h : Gate k n w s.gateView) {w' : Prop} : GateSeg k n w' s.tryRelease := by
  unfold tryRelease
  split
  · next hg =>
    refine Gate.nil { h with waits := ?_ }
    rcases hg with hg | hg | hg
    · exact .inl hg
    · exact .inr (.inr (.inl hg))
    · exact .inr (.inr (.inr (.inl hg)))
  · next hg =>
    push Not at hg
    split
    · next hc => exact Gate.nil { h with waits := .inr (.inl hc) }
    · next hc =>
      obtain ⟨ho, hio, happ⟩ := hg
      have hcalls : s.disconnectedCalls = [] := by
        have := h.calls
        rwa [if_neg (show s.gateView.state ≠ .kClosed from hc)] at this
      have hrel : s.releaseCalls.length + n = s.disconnectedCalls.length := h.releases
      rw [hcalls, List.length_nil] at hrel
      show Gate (0 + k) (1 + n) _ _
      rw [Nat.zero_add]
      refine { h with life := ?_, calls := ?_, releases := ?_, closed := ?_, waits := ?_ }
      · have hl : Lifecycle s.stateLog s.state := h.life
        show Lifecycle (s.stateLog ++ [.kClosed]) .kClosed
        generalize s.stateLog = l, s.state = st at hl ho hc
        cases hl with
        | opened => exact absurd rfl ho
        | closing => exact .closed
        | draining => exact .drained
        | closed => exact absurd rfl hc
        | drained => exact absurd rfl hc
      · show s.disconnectedCalls ++ [(s.pendingIo, s.pendingAppIo)] = [(0, 0)]
        rw [hcalls, hio, happ]
        rfl
      · show s.releaseCalls.length + (1 + n) = (s.disconnectedCalls ++ [_]).length
        rw [hcalls, List.length_append, List.length_singleton, List.length_nil]
        omega
      · exact fun _ => ⟨hio, by show s.pendingAppIo ≤ _; rw [happ]; exact Nat.zero_le _⟩
      · exact .inr (.inl rfl)

theorem gate_prepCancelRecv (h : Gate k n w s.gateView) (hs : s.state ≠ .kClosed) :
    Gate k n w (s.prepCancelRecv o).gateView := by
  unfold prepCancelRecv
  split
  · exact h
  · split
    · exact h
    · dsimp only
      split
      · exact gate_prep (s := s.newOp) h (by simp [Op.kind]) hs
      · rw [completePendingIo_beginPendingIo]
        exact h

theorem gate_markDrainingOnOwner (h : Gate k n True s.gateView) :
    Gate k n True s.markDrainingOnOwner.gateView := by
  unfold markDrainingOnOwner
  split
  · next hs =>
    have hl : Lifecycle s.stateLog s.state := h.life
    rw [hs] at hl
    have hcalls := h.calls
    rw [if_neg (show s.gateView.state ≠ .kClosed by rw [show s.gateView.state = _ from hs]; simp)]
      at hcalls
    refine { h with
      life := ?_
      calls := hcalls
      closed := fun h' => SessionState.noConfusion h'
      waits := .inr (.inr (.inr (.inr trivial))) }
    show Lifecycle (s.stateLog ++ [.kDraining]) .kDraining
    generalize s.stateLog = l at hl
    cases hl with
    | closing => exact .draining
  · exact h

theorem gate_prepShutdown (h : Gate k n w s.gateView) (ho : s.state = .kOpen)
    (cause : CloseCause) : Gate k n True (s.prepShutdown o cause).gateView := by
  have hl : Lifecycle s.stateLog s.state := h.life
  have hcalls := h.calls
  rw [if_neg (show s.gateView.state ≠ .kClosed by rw [show s.gateView.state = _ from ho]; simp)]
    at hcalls
  have hbegin : Gate k n True (s.beginDisconnect cause).gateView := by
    refine { h with
      life := ?_
      calls := hcalls
      closed := fun h' => SessionState.noConfusion h'
      waits := .inr (.inr (.inr (.inr trivial))) }
    show Lifecycle (s.stateLog ++ [.kClosing]) .kClosing
    rw [ho] at hl
    generalize s.stateLog = l at hl
    cases hl with
    | opened => exact .closing
  unfold prepShutdown
  dsimp only
  split
  · exact hbegin
  · split
    · rw [completePendingIo_beginPendingIo]
      exact hbegin
    · refine gate_markDrainingOnOwner (gate_prepCancelRecv ?_ SessionState.noConfusion)
      exact gate_prep (s := (s.beginDisconnect cause).newOp) hbegin (by simp [Op.kind])
        SessionState.noConfusion

theorem gate_disconnectOnOwner (h : Gate k n w s.gateView) (cause : CloseCause) :
    GateSeg k n w (s.disconnectOnOwner o cause) := by
  unfold disconnectOnOwner
  split
  · exact h.nil
  · next ho => exact gate_tryRelease (gate_prepShutdown h (not_not.1 ho) cause)

theorem gate_tryDisconnectAfterFlush (h : Gate k n w s.gateView) :
    GateSeg k n w (s.tryDisconnectAfterFlush o) := by
  unfold tryDisconnectAfterFlush
  split
  · exact h.nil
  · split
    · exact h.nil
    · exact gate_disconnectOnOwner h _

/-! ## Receiving -/

theorem gate_registerRecv (h : Gate k n w s.gateView) : GateSeg k n w (s.registerRecv o) := by
  unfold registerRecv
  split
  · exact h.nil
  · next hc =>
    have ho : s.state = .kOpen := kOpen_of_not_refused hc
    split
    · exact h.nil
    · split
      · exact gate_disconnectOnOwner h _
      · dsimp only
        split
        · rw [completePendingIo_beginPendingIo]
          exact gate_disconnectOnOwner (s := s.newOp.deleteOp s.nextOp) h _
        · refine Gate.nil ?_
          exact gate_prep (s := s.newOp) h (fun _ => ho) (by simp [ho])

/-- Past `CompletePendingIo` the handler releases the session or goes on with an open one. -/
theorem gate_onRecvTail {res : Int} {more : Bool}
    (h : Gate k n True (s.completeRecv more).gateView) :
    GateSeg k n w (s.onRecvTail o res more) := by
  unfold onRecvTail
  generalize s.completeRecv more = t at h
  dsimp only
  split
  · exact gate_tryRelease h
  · next hc =>
    have ho : t.state = .kOpen := by simpa [canUseOnOwner] using hc
    have ht : Gate k n w t.gateView := h.of_open ho
    have hr : GateSeg k n w (if !t.recvPaused then t.registerRecv o else (t, [])) := by
      split
      · exact gate_registerRecv ht
      · exact ht.nil
    split
    · exact gate_disconnectOnOwner ht _
    · split
      · exact hr
      · split
        · exact gate_disconnectOnOwner ht _
        · split
          · exact hr
          · exact ht.nil

theorem gate_drainPausedRecv (h : Gate k n w s.gateView) : GateSeg k n w s.drainPausedRecv := by
  unfold drainPausedRecv
  split
  · split
    · exact h.nil
    · exact h.seg rfl rfl rfl
  · exact h.nil

/-- `ResumeRecv` past its test, and `UpdateBackpressure` after `OnBackpressure(false)`. -/
theorem gate_resume (h : Gate k n w s.gateView) :
    GateSeg k n w ((s.setRecvPaused false).drainPausedRecv.andThen [.code .registerRecv]) :=
  (gate_drainPausedRecv (s := s.setRecvPaused false) h).andThen_quiet rfl rfl

theorem queuePausedRecv_gateView {t : Session} {data : Bytes}
    (h : s.queuePausedRecv data = some t) : t.gateView = s.gateView := by
  unfold queuePausedRecv at h
  split at h
  · cases h; rfl
  · dsimp only at h
    split at h
    · cases h
    · cases h; rfl

theorem gate_onRecv {ev : OpId} {cqe : Cqe}
    (h : Gate ((if cqe.more then 0 else 1) + k) n w s.gateView) :
    GateSeg k n w (s.onRecv o ev cqe) := by
  let tail : List SFrame :=
    [.code (.onRecvTail cqe.res cqe.more),
      .code (.dispatched ev (if cqe.more then .kPending else .kComplete))]
  have htail : finalTails tail = if cqe.more then 0 else 1 := by
    cases hm : cqe.more <;> simp [tail, finalTails, hm]
  have hrel : releaseTails tail = 0 := rfl
  have ht : Gate (finalTails tail + k) (releaseTails tail + n) (.code .tryRelease ∈ tail ∨ w)
      (s.endRecv cqe.more).gateView := by
    rw [htail, hrel, Nat.zero_add, show (s.endRecv cqe.more).gateView = s.gateView by
      unfold endRecv; split <;> rfl]
    exact h.weaken .inr
  unfold onRecv
  dsimp only
  generalize s.endRecv cqe.more = t at ht
  split
  · split
    · split
      · next hq =>
        refine GateSeg.andThen (r := (_, [])) (f := tail) (Gate.nil ?_)
        rw [queuePausedRecv_gateView hq]
        exact ht
      · exact GateSeg.andThen (f := tail)
          (gate_disconnectOnOwner (s := t.touchActivity o) ht _)
    · exact GateSeg.andThen (r := (_, [.callback (.onRecv cqe.view)])) (f := tail)
        (ht.seg rfl rfl rfl)
  · exact GateSeg.andThen (r := (t, [])) (f := tail) ht.nil

/-! ## Sending -/

theorem gate_updateBackpressure (h : Gate k n w s.gateView) :
    GateSeg k n w (s.updateBackpressure o) := by
  unfold updateBackpressure
  dsimp only
  split
  · split
    · exact h.nil
    · exact h.seg rfl rfl rfl
  · split
    · exact h.nil
    · exact h.seg rfl rfl rfl

theorem gate_backpressureRaised (h : Gate k n w s.gateView) :
    GateSeg k n w (s.backpressureRaised o) := by
  have ht : Gate k n w s.pauseOnBackpressure.gateView := by
    unfold pauseOnBackpressure; split <;> exact h
  unfold backpressureRaised
  dsimp only
  split
  · exact gate_disconnectOnOwner ht _
  · exact ht.nil

theorem gate_sendInFlightBatch (h : Gate k n w s.gateView) {id : OpId} {bufs : List SendBuffer} :
    GateSeg k n w (s.sendInFlightBatch o id bufs) := by
  unfold sendInFlightBatch
  split
  · exact h.nil
  · next hc =>
    have ho : s.state = .kOpen := kOpen_of_not_refused hc
    dsimp only
    split
    · rw [completePendingIo_beginPendingIo]
      exact gate_disconnectOnOwner (s := s.deleteOp id) h _
    · exact Gate.nil (gate_prep h (fun _ => ho) (by simp [ho]))

theorem gate_sendBatch (h : Gate k n w s.gateView) {bufs : List SendBuffer} :
    GateSeg k n w (s.sendBatch o bufs) := by
  unfold sendBatch
  split
  · exact h.nil
  · split
    · exact h.nil
    · split
      · exact gate_disconnectOnOwner h _
      · exact gate_sendInFlightBatch (s := s.newOp) h

theorem gate_registerSend (h : Gate k n w s.gateView) : GateSeg k n w (s.registerSend o) := by
  unfold registerSend
  split
  · exact h.nil
  · split
    · exact h.nil
    · dsimp only
      split
      · refine Gate.nil ?_
        exact h
      · refine GateSeg.andThen_quiet (gate_updateBackpressure ?_) rfl rfl
        exact h

theorem gate_sendOnOwner (h : Gate k n w s.gateView) (buf : SendBuffer) :
    GateSeg k n w (s.sendOnOwner o buf) := by
  unfold sendOnOwner
  split
  · exact h.nil
  · dsimp only
    split
    · refine GateSeg.andThen_quiet (gate_disconnectOnOwner ?_ _) rfl rfl
      exact h
    · refine GateSeg.andThen_quiet (gate_updateBackpressure ?_) ?_ ?_
      · exact h
      · split <;> rfl
      · split <;> rfl

theorem gate_onSendTail (h : Gate k n w s.gateView) : GateSeg k n w (s.onSendTail o) := by
  unfold onSendTail
  split
  · exact h.nil
  · dsimp only
    split
    · refine gate_tryDisconnectAfterFlush ?_
      exact h
    · refine GateSeg.andThen_quiet (gate_updateBackpressure ?_) rfl rfl
      exact h

/-- A partial send goes back in flight instead of moving the counter. -/
theorem gate_rearm {w' : Prop} (h : Gate (k + 1) n w s.gateView) (ho : s.state = .kOpen)
    {op : SendOp} : Gate k n w' ((s.prep (.send op)).setActiveSendEv (some op.id)).gateView := by
  have hc : s.pendingIo = s.inFlight.length + (k + 1) := h.count
  refine { h with count := ?_, prepared := ?_, waits := .inl ho }
  · show s.pendingIo = (s.inFlight ++ [Op.send op]).length + k
    rw [List.length_append, List.length_singleton]
    omega
  · intro p hp
    rcases List.mem_append.1 hp with hp | hp
    · exact h.prepared p hp
    · rw [List.mem_singleton.1 hp]
      exact fun _ => ho

/-- `OnSend` owes one `CompletePendingIo`, or puts the operation back in flight. -/
theorem gate_onSend (h : Gate (k + 1) n w s.gateView) {op : SendOp} {res : Int} :
    GateSeg k n w (s.onSend o op res) := by
  have ht : Gate (k + 1) n w (s.clearActiveSend op.id).gateView := by
    unfold clearActiveSend; split <;> exact h
  unfold onSend
  generalize s.clearActiveSend op.id = t at ht
  have hdone := gate_completePendingIo ht
  dsimp only
  split
  · exact (gate_tryRelease hdone).andThen_quiet rfl rfl
  · next hc =>
    have ho : t.state = .kOpen := by simpa [canUseOnOwner] using hc
    have hdone' : Gate k n w t.completePendingIo.gateView :=
      hdone.of_open (show t.completePendingIo.state = .kOpen by simp [ho])
    split
    · exact (gate_disconnectOnOwner hdone' _).andThen_quiet rfl rfl
    · split
      · split
        · exact (gate_disconnectOnOwner hdone' _).andThen_quiet rfl rfl
        · -- the counter has not moved: the operation is in flight again
          refine Gate.seg ?_ rfl rfl rfl
          exact gate_rearm ht ho
      · have hq : Gate k n w (t.setSendQueue t.sendQueue.markSent).completePendingIo.gateView := by
          have ht' : Gate (k + 1) n w (t.setSendQueue t.sendQueue.markSent).gateView := ht
          refine (gate_completePendingIo ht').of_open ?_
          show (t.setSendQueue t.sendQueue.markSent).completePendingIo.state = .kOpen
          rw [state_completePendingIo]
          exact ho
        exact (gate_updateBackpressure hq).andThen_quiet rfl rfl

/-! ## Ticks and application work -/

theorem gate_tickRest (h : Gate k n w s.gateView) {now : Nat} :
    GateSeg k n w (s.tickRest o now) := by
  unfold tickRest
  split
  · exact gate_disconnectOnOwner h _
  · split
    · exact gate_disconnectOnOwner h _
    · exact h.nil

theorem gate_tick (h : Gate k n w s.gateView) {now : Nat} : GateSeg k n w (s.tick o now) := by
  unfold tick
  split
  · exact gate_tryRelease h
  · split
    · exact h.seg rfl rfl rfl
    · exact gate_tickRest h

theorem gate_beginAppIo (h : Gate k n w s.gateView) : Gate k n w s.beginAppIo.gateView := by
  refine { h with
    closed := fun hs => ⟨(h.closed hs).1, ?_⟩
    waits := .inr (.inr (.inr (.inl (Nat.succ_ne_zero _)))) }
  have hle : s.pendingAppIo ≤ s.closedAppIo := (h.closed hs).2
  show s.pendingAppIo + 1 ≤ if s.state = .kClosed then s.closedAppIo + 1 else s.closedAppIo
  rw [if_pos (show s.state = .kClosed from hs)]
  omega

theorem gate_endAppIo (h : Gate k n w s.gateView) : GateSeg k n w (s.endAppIo o) := by
  have ht : Gate k n True s.completeAppIo.gateView := by
    unfold completeAppIo
    split
    · refine { h with
        closed := fun hs => ⟨(h.closed hs).1, ?_⟩
        waits := .inr (.inr (.inr (.inr trivial))) }
      have hle : s.pendingAppIo ≤ s.closedAppIo := (h.closed hs).2
      show s.pendingAppIo - 1 ≤ s.closedAppIo
      omega
    · exact h.weaken fun _ => trivial
  unfold endAppIo
  refine GateSeg.andThen ?_
  show GateSeg (0 + k) (0 + n) _ _
  rw [Nat.zero_add, Nat.zero_add]
  exact gate_tryDisconnectAfterFlush (ht.weaken fun _ => .inl (List.mem_singleton_self _))

theorem gate_callRelease (h : Gate k (1 + n) w s.gateView)
    (hs : s.state = .kClosed) : Gate k n w s.callRelease.gateView := by
  refine { h with releases := ?_, released := ?_ }
  · have hr : s.releaseCalls.length + (1 + n) = s.disconnectedCalls.length := h.releases
    show (s.releaseCalls ++ [_]).length + n = s.disconnectedCalls.length
    rw [List.length_append, List.length_singleton]
    omega
  · intro p hp
    rcases List.mem_append.1 hp with hp | hp
    · exact h.released p hp
    · rw [List.mem_singleton.1 hp]
      exact h.closed hs

/-! ## The machine -/

theorem gate_exec (o : Outcome) {i : Instr} (h : Gate (finalTails [.code i] + k)
    (releaseTails [.code i] + n) (i = .tryRelease ∨ w) s.gateView) :
    GateSeg k n w (exec o s i) := by
  -- For all but three instructions the frame itself counts for nothing.
  have hq : finalTails [.code i] = 0 → releaseTails [.code i] = 0 → i ≠ .tryRelease →
      Gate k n w s.gateView := by
    intro h1 h2 h3
    rw [h1, h2, Nat.zero_add, Nat.zero_add] at h
    exact h.weaken fun hw => hw.resolve_left h3
  cases i with
  | backpressureRaised => exact gate_backpressureRaised (hq rfl rfl (by simp))
  | backpressureCleared =>
    have h := hq rfl rfl (by simp)
    simp only [exec, backpressureCleared]
    split
    · exact gate_resume h
    · exact h.nil
  | drainPausedRecv => exact gate_drainPausedRecv (hq rfl rfl (by simp))
  | registerRecv => exact gate_registerRecv (hq rfl rfl (by simp))
  | registerSend => exact gate_registerSend (hq rfl rfl (by simp))
  | returnSend => exact (hq rfl rfl (by simp)).seg rfl rfl rfl
  | sendBatch => exact gate_sendBatch (hq rfl rfl (by simp))
  | tryRelease =>
    rw [show finalTails _ = 0 from rfl, Nat.zero_add, show releaseTails _ = 0 from rfl,
      Nat.zero_add] at h
    exact gate_tryRelease h
  | release =>
    rw [show finalTails _ = 0 from rfl, Nat.zero_add] at h
    have hs : s.state = .kClosed := by
      by_contra hs
      have hr : s.releaseCalls.length + (1 + n) = s.disconnectedCalls.length := h.releases
      have hc : s.disconnectedCalls = if s.state = .kClosed then [(0, 0)] else [] := h.calls
      rw [hc, if_neg hs, List.length_nil] at hr
      omega
    exact Gate.nil ((gate_callRelease h hs).weaken fun hw => hw.resolve_left (by simp))
  | onSendDrained =>
    exact (gate_tryDisconnectAfterFlush (hq rfl rfl (by simp))).andThen_quiet rfl rfl
  | onSendTail => exact gate_onSendTail (hq rfl rfl (by simp))
  | onRecvTail res more =>
    refine gate_onRecvTail ?_
    cases more with
    | true => exact (hq rfl rfl (by simp)).weaken fun _ => trivial
    | false =>
      rw [show finalTails _ = 1 from rfl, show releaseTails _ = 0 from rfl, Nat.zero_add,
        Nat.add_comm] at h
      exact gate_completePendingIo h
  | tickTail now =>
    have h := hq rfl rfl (by simp)
    simp only [exec]
    split
    · exact h.nil
    · exact gate_tickRest h
  | dispatched id r => cases r <;> exact (hq rfl rfl (by simp)).seg rfl rfl rfl

theorem gate_call (h : Gate k n w s.gateView) (a : Api) : GateSeg k n w (call o s a) := by
  cases a with
  | start => exact h.seg rfl rfl rfl
  | send buf => exact gate_sendOnOwner h buf
  | disconnect => exact gate_disconnectOnOwner h _
  | disconnectAfterFlush =>
    simp only [call, disconnectAfterFlushOnOwner]
    split
    · exact h.nil
    · refine gate_tryDisconnectAfterFlush ?_
      exact h
  | pauseRecv =>
    simp only [call, pauseRecv]
    split <;> exact h.seg rfl rfl rfl
  | resumeRecv =>
    simp only [call, resumeRecv]
    split
    · exact h.nil
    · exact gate_resume h
  | beginAppIo => exact (gate_beginAppIo h).nil
  | endAppIo => exact gate_endAppIo h
  | tick now => exact gate_tick h

theorem gate_complete (o : Outcome) (cqe : Cqe) (h : Gate k n w s.gateView) {id : OpId} {op : Op}
    (hop : s.inFlight.find? (·.id == id) = some op) : GateSeg k n w (s.complete o cqe op) := by
  have hr := gate_retire h hop
  -- `OnDisconnect` and `OnCancel`
  have hclose (id : OpId) (hr : Gate (k + 1) n w (s.retire id).gateView) :
      GateSeg k n w ((s.retire id).completePendingIo.tryRelease.andThen
        [.code (.dispatched id .kComplete)]) :=
    (gate_tryRelease (gate_completePendingIo hr)).andThen_quiet rfl rfl
  cases op with
  | recv id' =>
    refine gate_onRecv ?_
    show Gate _ n w (s.retireRecv id' cqe.more).gateView
    unfold retireRecv
    split
    · rw [Nat.zero_add]; exact h
    · rw [Nat.add_comm]; exact hr
  | send op => refine gate_onSend ?_; exact hr
  | disconnect id' => exact hclose id' hr
  | cancel id' target => exact hclose id' hr

/-- **The gate's invariant is kept by every input of the machine.** -/
theorem gate_preserved : machine.Preserved fun s st =>
    Gate (finalTails st) (releaseTails st) (.code .tryRelease ∈ st) s.gateView where
  exec := by
    intro o s i rest h
    rw [finalTails_append, releaseTails_append, List.mem_append]
    refine gate_exec o ?_
    rw [← finalTails_append, ← releaseTails_append]
    exact h.weaken fun hw => (List.mem_cons.1 hw).imp (fun h => by cases h; rfl) id
  call := by
    intro o s a st _ h
    rw [finalTails_append, releaseTails_append, List.mem_append]
    exact gate_call h a
  ret := by
    intro s k b rest h
    have hv : (machine.ret s k b).gateView = s.gateView := by cases k <;> rfl
    have h' : Gate (finalTails rest) (releaseTails rest) _ s.gateView := h
    rw [hv]
    exact h'.weaken fun hw => (List.mem_cons.1 hw).resolve_left fun h => by cases h
  event := by
    intro o s e r he h
    obtain ⟨op, hop, -, rfl⟩ := event_cases he
    have := gate_complete o e.2 (h.weaken (fun hw => List.not_mem_nil hw : _ → False)) hop
    exact Gate.weaken this fun hw => hw.resolve_right id

theorem gate_reachable {cfg : Config} {c : SConf} (hr : Reachable cfg c) :
    Gate (finalTails c.stack) (releaseTails c.stack) (.code .tryRelease ∈ c.stack)
      c.state.gateView :=
  gate_preserved.reachable hr
    ⟨rfl, rfl, .opened, fun _ h => absurd h List.not_mem_nil, rfl, rfl,
      fun _ h => absurd h List.not_mem_nil, SessionState.noConfusion, .inl rfl⟩

/-- A started session is disconnected: shutdown, cancel and the last recv
completion, then the release. -/
def disconnectRun : List SInput :=
  [.call {} .start, .ret false, .exec {}, .call {} .disconnect,
    .event {} (1, ⟨0, false, []⟩), .exec {},
    .event {} (0, ⟨0, false, []⟩), .exec {}, .exec {},
    .event {} (2, ⟨0, false, []⟩), .ret false, .exec {}, .exec {}]

end Session

end IouringRuntime
