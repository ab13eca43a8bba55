import IouringRuntime.Session.Backpressure
import IouringRuntime.Session.Moves
import IouringRuntime.Session.SendStream

/-!
# Submission

The bytes handed to prepared send operations: those reported sent and those
that the operation in flight still covers. While the session stays open they
only grow, whatever the session does; `Sends` says once what a segment can do to
the send side.

An empty queue exerts no backpressure, with any watermarks. So a buffer pushed
into an idle session that reaches no high watermark goes straight to a send
operation: no callback runs before it is prepared.
-/

namespace IouringRuntime

open Reentrant

namespace Session

def handedBytes (s : Session) : Bytes := s.sent ++ s.sendView.inFlightBytes

/-- What a segment does to the send side. -/
inductive Sends (s t : Session) : Prop where
  | aside (h : t.sendView = s.sendView)
  | pushed (buf : SendBuffer) (bufs : List SendBuffer)
      (h : t.sendView =
        { s.sendView with queue := (s.sendQueue.push buf).1, accepted := s.accepted ++ bufs })
  | drained (n : Nat)
      (h : t.sendView = { s.sendView with queue := (s.sendQueue.drainInto n).1 })
  | submitted (op : SendOp)
      (h : t.sendView = { s.sendView with active := some op.id, sends := s.sendView.sends ++ [op] })
  /-- A completion that ends in a closing session. -/
  | ended (ho : t.state ≠ .kOpen) (hq : t.sendQueue = s.sendQueue)
  | resumed {id : OpId} {op : SendOp} (n : Nat)
      (hop : s.inFlight.find? (·.id == id) = some (.send op))
      (h : t.sendView =
        { s.sendView with
          active := some op.id
          sends := sendOps (s.retire op.id).inFlight ++
            [⟨op.id, (advanceSendState op.iovecs op.bufs n).1, (advanceSendState op.iovecs op.bufs n).2⟩]
          sent := s.sent ++ (covered op.iovecs).take n })
  | finished {id : OpId} {op : SendOp} (n : Nat)
      (hop : s.inFlight.find? (·.id == id) = some (.send op)) (hn : requested op.iovecs ≤ n)
      (h : t.sendView =
        { s.sendView with
          queue := s.sendQueue.markSent
          active := t.activeSendEv
          sends := sendOps (s.retire op.id).inFlight
          sent := s.sent ++ (covered op.iovecs).take n })

variable {s t : Session} {o : Outcome}

/-! ## One segment -/

theorem Sends.of_quiet {r : Seg} (h : SendQuiet s r) : Sends s r.1 := .aside h.view

/-- What has been drained is held by a frame until its callbacks have run. -/
theorem sends_drained (s : Session) (o : Outcome) (k : List SFrame) (n : Nat) :
    Sends s
      (((s.setSendQueue (s.sendQueue.drainInto n).1).updateBackpressure o).andThen k).1 :=
  .drained n (sendQuiet_updateBackpressure (s.setSendQueue (s.sendQueue.drainInto n).1) o).view

theorem sends_registerSend (s : Session) (o : Outcome) : Sends s (s.registerSend o).1 := by
  unfold registerSend
  split
  · exact .aside rfl
  · split
    · exact .aside rfl
    · dsimp only
      split
      · exact .drained kMaxSendIovecs rfl
      · exact sends_drained s o _ kMaxSendIovecs

theorem sends_onSendTail (s : Session) (o : Outcome) : Sends s (s.onSendTail o).1 := by
  unfold onSendTail
  split
  · exact .aside rfl
  · dsimp only
    split
    · exact .drained kMaxSendIovecs (closing_tryDisconnectAfterFlush
        (s.setSendQueue (s.sendQueue.drainInto kMaxSendIovecs).1) o).sendQuiet.view
    · exact sends_drained s o _ kMaxSendIovecs

theorem sends_sendBatch (s : Session) (o : Outcome) (bufs : List SendBuffer) :
    Sends s (s.sendBatch o bufs).1 := by
  unfold sendBatch
  split
  · exact .aside rfl
  · split
    · exact .aside rfl
    · split
      · exact .of_quiet (closing_disconnectOnOwner s o _).sendQuiet
      · unfold sendInFlightBatch
        split
        · exact .aside rfl
        · dsimp only
          split
          · have hd : ((s.newOp.beginPendingIo.completePendingIo).deleteOp s.nextOp).sendView =
                s.sendView := sendView_of_data (by simp)
            exact .aside ((closing_disconnectOnOwner _ o _).sendQuiet.view.trans hd)
          · refine .submitted ⟨s.nextOp, bufs.map Iovec.ofBuffer, bufs⟩ ?_
            simp only [sendView, prep, setActiveSendEv, beginPendingIo, newOp, sendOps_append]
            rfl

theorem sends_sendOnOwner (s : Session) (o : Outcome) (buf : SendBuffer) :
    Sends s (s.sendOnOwner o buf).1 := by
  unfold sendOnOwner
  split
  · exact .aside rfl
  · dsimp only
    split
    · refine .pushed buf [] ?_
      rw [List.append_nil]
      exact (closing_disconnectOnOwner (s.setSendQueue (s.sendQueue.push buf).1) o _).sendQuiet.view
    · exact .pushed buf [buf] (sendQuiet_updateBackpressure
        ((s.setSendQueue (s.sendQueue.push buf).1).accept buf) o).view

/-- The completion of a send, which has left the ring. -/
theorem sends_complete {id : OpId} {op : SendOp} {cqe : Cqe}
    (hop : s.inFlight.find? (·.id == id) = some (.send op)) :
    Sends s (s.complete o cqe (.send op)).1 := by
  show Sends s (onSend ((s.retire op.id).recordSent ((covered op.iovecs).take cqe.res.toNat)) o op
    cqe.res).1
  have hview (u : Session) : (u.clearActiveSend op.id).sendView =
      { u.sendView with active := (u.clearActiveSend op.id).activeSendEv } := by
    unfold clearActiveSend
    split <;> rfl
  have hdone (u : Session) : u.completePendingIo.sendView = u.sendView :=
    sendView_of_data (data_completePendingIo u)
  have hu := hview ((s.retire op.id).recordSent ((covered op.iovecs).take cqe.res.toNat))
  unfold onSend
  generalize ((s.retire op.id).recordSent ((covered op.iovecs).take cqe.res.toNat)).clearActiveSend
    op.id = u at hu ⊢
  have hqueue : u.completePendingIo.sendQueue = s.sendQueue := by
    rw [show u.completePendingIo.sendQueue = u.sendQueue from congrArg SendView.queue (hdone u)]
    exact congrArg SendView.queue hu
  have close (cause : CloseCause) :
      Sends s (u.completePendingIo.disconnectOnOwner o cause).1 := by
    refine .ended (disconnectOnOwner_not_open _ o cause) ?_
    exact (congrArg SendView.queue (closing_disconnectOnOwner _ o cause).sendQuiet.view).trans hqueue
  dsimp only
  split
  · next hc =>
    have hno : u.state ≠ .kOpen := by simpa [canUseOnOwner] using hc
    have hrel := (control_tryRelease u.completePendingIo).closing.sendQuiet
    refine .ended (fun ho => hno ?_) ((congrArg SendView.queue hrel.view).trans hqueue)
    exact (state_completePendingIo u).symm.trans (hrel.isOpen ho)
  · split
    · exact close _
    · split
      · split
        · exact close _
        · refine .resumed cqe.res.toNat hop ?_
          simp only [sendView, SendView.mk.injEq] at hu
          obtain ⟨h1, -, h3, h4, h5⟩ := hu
          simp only [sendView, prep, setActiveSendEv, sendOps_append, h1, h3, h4, h5]
          rfl
      · next hfull =>
        refine .finished cqe.res.toNat hop (by omega) ?_
        have hup := (sendQuiet_updateBackpressure
          (u.setSendQueue u.sendQueue.markSent).completePendingIo o).view.trans (hdone _)
        have hactive := congrArg SendView.active hup
        simp only [sendView, SendView.mk.injEq] at hu
        obtain ⟨h1, -, h3, h4, h5⟩ := hu
        rw [Seg.andThen_fst, show Session.activeSendEv _ = _ from hactive, hup]
        simp only [sendView, setSendQueue, h1, h3, h4, h5]
        rfl

theorem sends : machine.Changes Sends where
  exec := by
    intro o s i
    cases hi : isSendFrame (.code i) with
    | false => exact .of_quiet (sendQuiet_exec o s hi)
    | true =>
      cases i with
      | registerSend => exact sends_registerSend s o
      | sendBatch bufs => exact sends_sendBatch s o bufs
      | onSendDrained => exact .aside (closing_tryDisconnectAfterFlush s o).sendQuiet.view
      | onSendTail => exact sends_onSendTail s o
      | _ => cases hi
  call := by
    intro o s a
    by_cases ha : ∃ buf, a = .send buf
    · obtain ⟨buf, rfl⟩ := ha
      exact sends_sendOnOwner s o buf
    · exact .of_quiet (sendQuiet_call o s fun buf hb => ha ⟨buf, hb⟩)
  ret := by
    intro s k b
    cases k <;> exact .aside rfl
  event := by
    intro o s e r he
    obtain ⟨op, hop, -, rfl⟩ := event_cases he
    by_cases hk : op.kind = .send
    · cases op with
      | send op => exact sends_complete hop
      | _ => cases hk
    · exact .of_quiet (sendQuiet_complete o e.2 hop hk)

/-! ## What is handed over stays handed over -/

/-- While the session stays open. -/
theorem Sends.handed {p : Prop} {fs : List SFrame} (h : Sends s t) (hi : SendInv p s.sendView fs)
    (ho : t.state = .kOpen) : s.handedBytes <+: t.handedBytes := by
  have same (hsent : t.sent = s.sent) (hsends : t.sendView.sends = s.sendView.sends) :
      s.handedBytes <+: t.handedBytes := by
    refine ⟨[], ?_⟩
    rw [List.append_nil, handedBytes, handedBytes, SendView.inFlightBytes, SendView.inFlightBytes,
      hsent, hsends]
  cases h with
  | aside h => exact same (congrArg SendView.sent h) (congrArg SendView.sends h)
  | pushed _ _ h => exact same (congrArg SendView.sent h) (by rw [h])
  | drained _ h => exact same (congrArg SendView.sent h) (by rw [h])
  | submitted op h =>
    have hsent : t.sent = s.sent := congrArg SendView.sent h
    have hsends : t.sendView.sends = s.sendView.sends ++ [op] := congrArg SendView.sends h
    rw [handedBytes, handedBytes, SendView.inFlightBytes, SendView.inFlightBytes, hsent, hsends,
      List.flatMap_append, ← List.append_assoc]
    exact List.prefix_append _ _
  | ended hno => exact absurd ho hno
  | @resumed id op n hop h =>
    obtain ⟨hone, -, hnone⟩ := sendOps_of_find hi hop
    have hwf := hi.wf op (by rw [hone]; exact List.mem_singleton_self op)
    have hnone : sendOps (s.retire op.id).inFlight = [] := hnone
    rw [hnone, List.nil_append] at h
    have hsent : t.sent = s.sent ++ (covered op.iovecs).take n := congrArg SendView.sent h
    have hsends : t.sendView.sends = _ := congrArg SendView.sends h
    refine ⟨[], ?_⟩
    rw [List.append_nil, handedBytes, handedBytes, SendView.inFlightBytes, SendView.inFlightBytes,
      hsent, hsends, hone, List.flatMap_singleton, List.flatMap_singleton,
      covered_advanceSendState hwf, List.append_assoc, List.take_append_drop]
  | @finished id op n hop hn h =>
    obtain ⟨hone, -, hnone⟩ := sendOps_of_find hi hop
    have hwf := hi.wf op (by rw [hone]; exact List.mem_singleton_self op)
    have hsent : t.sent = s.sent ++ (covered op.iovecs).take n := congrArg SendView.sent h
    have hsends : t.sendView.sends = [] := (congrArg SendView.sends h).trans hnone
    have hall : (covered op.iovecs).take n = covered op.iovecs :=
      List.take_of_length_le (by rw [length_covered hwf]; exact hn)
    refine ⟨[], ?_⟩
    rw [List.append_nil, handedBytes, handedBytes, SendView.inFlightBytes, SendView.inFlightBytes,
      hsent, hsends, hone, hall, List.flatMap_singleton, List.flatMap_nil, List.append_nil]

/-! ## Backpressure of an empty queue -/

theorem Sends.counted (h : Sends s t) (hc : s.sendQueue.Counted) : t.sendQueue.Counted := by
  have same (hq : t.sendQueue = s.sendQueue) : t.sendQueue.Counted := by rwa [hq]
  cases h with
  | aside h => exact same (congrArg SendView.queue h)
  | pushed buf bufs h =>
    rw [show t.sendQueue = _ from congrArg SendView.queue h]
    exact hc.push buf
  | drained n h =>
    rw [show t.sendQueue = _ from congrArg SendView.queue h]
    exact hc.drainInto n
  | submitted op h => exact same (congrArg SendView.queue h)
  | ended _ hq => exact same hq
  | resumed n hop h => exact same (congrArg SendView.queue h)
  | finished n hop hn h =>
    rw [show t.sendQueue = _ from congrArg SendView.queue h]
    exact hc.markSent

/-- The byte count of the queue is right, and an empty queue exerts no
backpressure. -/
structure Slack (s : Session) : Prop where
  counted : s.sendQueue.Counted
  relieved : s.sendQueue.pending = [] → s.backpressureActive = false

/-- Nothing is queued: no high watermark is reached and every low one is. -/
theorem updateBackpressure_empty (hc : s.sendQueue.Counted) (hp : s.sendQueue.pending = []) :
    (s.updateBackpressure o).1.backpressureActive = false := by
  have hbytes : s.sendQueue.pendingBytes = 0 := by
    rw [hc, hp]
    rfl
  unfold updateBackpressure
  dsimp only
  cases hactive : s.backpressureActive with
  | false =>
    have hhigh : s.highWatermarkReached s.sendQueue.snapshot = false := by
      simp [highWatermarkReached, SendQueue.snapshot, hp, hbytes]
    rw [hhigh]
    exact hactive
  | true =>
    have hlow : s.lowWatermarkReached s.sendQueue.snapshot = true := by
      simp [lowWatermarkReached, SendQueue.snapshot, hp, hbytes]
    rw [hlow]
    rfl

theorem slack_step {c c' : SConf} {i : SInput} (h : c.state.Slack)
    (hs : machine.step c i = some c') : c'.state.Slack := by
  have hcounted := (sends.step hs).counted h.counted
  refine ⟨hcounted, fun hp => ?_⟩
  have hreg := pushes_regulates.step hs
  generalize hr : (c'.state, pushed c i c') = r at hreg
  have hstate : c'.state = r.1 := congrArg Prod.fst hr
  cases hreg with
  | keeps hkeep =>
    rw [← hstate] at hkeep
    have hdepth : c'.state.sendQueue.pending.length = c.state.sendQueue.pending.length :=
      congrArg Pressure.depth hkeep
    rw [hp] at hdepth
    have hactive : c'.state.backpressureActive = c.state.backpressureActive :=
      congrArg Pressure.active hkeep
    rw [hactive]
    exact h.relieved (List.eq_nil_of_length_eq_zero hdepth.symm)
  | @updates t o k =>
    rw [Seg.andThen_fst] at hstate
    have hq : c'.state.sendQueue = t.sendQueue := by
      rw [hstate]
      exact congrArg SendView.queue (sendQuiet_updateBackpressure t o).view
    rw [hq] at hp hcounted
    rw [hstate]
    exact updateBackpressure_empty hcounted hp

theorem slack_reachable {cfg : Config} {c : SConf} (hr : Reachable cfg c) : c.state.Slack :=
  hr.invariant (fun _ _ _ h hs => slack_step h hs) ⟨rfl, fun _ => rfl⟩

/-! ## From `Send` to the operation -/

/-- A buffer is on its way from `Send` to a send operation with nothing ahead of
it and no callback before it. -/
inductive Riding (c : SConf) : Prop where
  | registering {buf : SendBuffer} {rest : List SFrame}
      (hst : c.stack = .code .registerSend :: rest) (hp : c.state.sendQueue.pending = [buf])
      (ha : c.state.backpressureActive = false)
  | submitting {bufs : List SendBuffer} {rest : List SFrame}
      (hst : c.stack = .code (.sendBatch bufs) :: rest) (hp : c.state.sendQueue.pending = [])

/-- `UpdateBackpressure` has nothing to do. -/
theorem updateBackpressure_calm (ha : s.backpressureActive = false)
    (hhigh : s.highWatermarkReached s.sendQueue.snapshot = false) :
    s.updateBackpressure o = (s, []) := by
  unfold updateBackpressure
  dsimp only
  rw [ha, hhigh]
  rfl

theorem sendOnOwner_idle {buf : SendBuffer} (ho : s.state = .kOpen)
    (hov : (s.sendQueue.push buf).2.overflowed = false) (hreg : s.sendQueue.registered = false)
    (ha : s.backpressureActive = false)
    (hhigh : s.highWatermarkReached (s.sendQueue.push buf).1.snapshot = false) :
    s.sendOnOwner o buf = ((s.setSendQueue (s.sendQueue.push buf).1).accept buf,
      [.code .registerSend, .code (.returnSend none)]) := by
  obtain ⟨h1, -⟩ | ⟨-, hneeds, -⟩ := s.sendQueue.push_cases buf
  · exact absurd (hov.symm.trans h1) Bool.false_ne_true
  · have hcalm : ((s.setSendQueue (s.sendQueue.push buf).1).accept buf).updateBackpressure o =
        ((s.setSendQueue (s.sendQueue.push buf).1).accept buf, []) :=
      updateBackpressure_calm ha hhigh
    unfold sendOnOwner
    dsimp only
    rw [if_neg (by simp [canUseOnOwner, ho]), if_neg (by simp [hov]), hcalm, hneeds, hreg]
    rfl

theorem registerSend_single {buf : SendBuffer} (ho : s.state = .kOpen)
    (hact : s.activeSendEv = none) (hp : s.sendQueue.pending = [buf])
    (ha : s.backpressureActive = false) :
    s.registerSend o =
      (s.setSendQueue { s.sendQueue with pending := [], pendingBytes := 0 },
        [.code (.sendBatch [buf])]) := by
  have hdrain : s.sendQueue.drainInto kMaxSendIovecs =
      ({ s.sendQueue with pending := [], pendingBytes := 0 }, [buf]) := by
    unfold SendQueue.drainInto
    have hfits : s.sendQueue.pending.length ≤ kMaxSendIovecs := by
      rw [hp]
      show 1 ≤ kMaxSendIovecs
      decide
    rw [if_neg (by simp [hp]), if_pos (.inr hfits), hp]
  have hhigh : (s.setSendQueue { s.sendQueue with pending := [], pendingBytes := 0 }).highWatermarkReached
      (SendQueue.snapshot { s.sendQueue with pending := [], pendingBytes := 0 }) = false := by
    simp [highWatermarkReached, SendQueue.snapshot]
  have hcalm := updateBackpressure_calm (o := o)
    (s := s.setSendQueue { s.sendQueue with pending := [], pendingBytes := 0 }) ha hhigh
  unfold registerSend
  dsimp only
  rw [if_neg (by simp [canUseOnOwner, ho]), if_neg (by simp [hact]), hdrain, if_neg (by simp), hcalm]
  rfl

theorem sendBatch_prepared {bufs : List SendBuffer} (ho : s.state = .kOpen)
    (hact : s.activeSendEv = none) (hb : bufs ≠ []) (hn : o.newSend = true)
    (hprep : o.prepSend = true) :
    s.sendBatch o bufs =
      ((s.newOp.beginPendingIo.prep (.send ⟨s.nextOp, bufs.map Iovec.ofBuffer, bufs⟩)).setActiveSendEv
        (some s.nextOp), []) := by
  unfold sendBatch sendInFlightBatch
  have hcond : ∀ t : Session, t.state = s.state → (!t.canUseOnOwner || bufs.isEmpty) = false := by
    intro t ht
    simp [canUseOnOwner, ht, ho, hb]
  dsimp only
  rw [hcond s rfl, hcond s.newOp rfl, if_neg (by simp), if_neg (by simp [hact]), if_neg (by simp [hn]),
    if_neg (by simp), if_neg (by simp [hprep])]

variable {cfg : Config} {c c' : SConf} {i : SInput}

/-- With a send in flight and nothing queued everything accepted has been handed over. -/
theorem handedBytes_all (hr : Reachable cfg c) (ho : c.state.state = .kOpen)
    (hact : c.state.activeSendEv.isSome = true) (hp : c.state.sendQueue.pending = []) :
    c.state.handedBytes = dataOf c.state.accepted := by
  have hinv := sendInv_reachable hr
  have hheld : heldBytes (sendFrames c.stack) = [] := by
    have hsome (h : c.state.activeSendEv = none) : False := by simp [h] at hact
    generalize sendFrames c.stack = fs at hinv
    cases hinv.phase ho with
    | inFlight ht => exact ht.held
    | idle _ _ h => exact (hsome h).elim
    | holding _ _ h => exact (hsome h).elim
    | registering _ _ h => exact (hsome h).elim
    | draining _ _ _ h => exact (hsome h).elim
  have hstream := hinv.stream ho
  rw [hheld, List.append_nil, show c.state.sendView.queue.pending = [] from hp, dataOf_nil,
    List.append_nil] at hstream
  exact hstream

/-- The next step of a buffer on its way, if the operation can be allocated and
prepared. -/
theorem Riding.step (h : Riding c) (hr : Reachable cfg c) (ho : c.state.state = .kOpen)
    (hs : machine.step c i = some c')
    (hok : ∀ o, i = .exec o → o.newSend = true ∧ o.prepSend = true) :
    c'.state.state = .kOpen ∧ c'.state.accepted = c.state.accepted ∧
      (Riding c' ∨ c'.state.handedBytes = dataOf c'.state.accepted) := by
  have hphase := (sendInv_reachable hr).phase ho
  have hr' : Reachable cfg c' := .step i hr hs
  cases h with
  | @registering buf rest hst hp ha =>
    obtain ⟨-, o, rfl, rfl⟩ := Machine.step_last hst hs
    have hact : c.state.activeSendEv = none := by
      rw [hst, sendFrames_cons, if_pos (by rfl)] at hphase
      cases hphase with
      | registering _ _ h => exact h
      | idle ht => cases ht
      | inFlight ht => cases ht
      | draining ht => cases ht
    have hexec : machine.exec o c.state .registerSend = _ := registerSend_single (o := o) ho hact hp ha
    rw [hexec]
    exact ⟨ho, rfl, .inl (.submitting rfl rfl)⟩
  | @submitting bufs rest hst hp =>
    obtain ⟨-, o, rfl, rfl⟩ := Machine.step_last hst hs
    obtain ⟨hact, hb⟩ : c.state.activeSendEv = none ∧ bufs ≠ [] := by
      rw [hst, sendFrames_cons, if_pos (by rfl)] at hphase
      cases hphase with
      | holding _ _ h hb => exact ⟨h, hb⟩
      | idle ht => cases ht
      | inFlight ht => cases ht
      | draining ht => cases ht
    obtain ⟨hn, hprep⟩ := hok o rfl
    have hexec : machine.exec o c.state (.sendBatch bufs) = _ :=
      sendBatch_prepared (o := o) ho hact hb hn hprep
    rw [hexec] at hr' ⊢
    exact ⟨ho, rfl, .inr (handedBytes_all hr' ho rfl hp)⟩

/-! ## When the shutdown is prepared -/

/-- From `s` on, no shutdown has been prepared or the session has left `kOpen`. -/
def LeavesFor (s t : Session) : Prop :=
  (t.shutdowns = s.shutdowns ∧ (t.state = .kOpen → s.state = .kOpen)) ∨
    (s.state = .kOpen ∧ t.state ≠ .kOpen)

theorem LeavesFor.move {idle : Prop} {u : Session} (h : s.LeavesFor t) (hm : Move o idle t u) :
    s.LeavesFor u := by
  have closing (hd : u.shutdowns = t.shutdowns) (hst : u.state = .kOpen → t.state = .kOpen) :
      s.LeavesFor u :=
    h.imp (fun h => ⟨hd.trans h.1, h.2 ∘ hst⟩) fun h => ⟨h.1, h.2 ∘ hst⟩
  cases hm with
  | aside hl => exact closing (congrArg Life.shutdowns hl) fun h => (congrArg Life.state hl).symm.trans h
  | touch | refused => exact closing rfl id
  | shut cause ho => exact .inr ⟨h.elim (fun h => h.2 ho) And.left, nofun⟩
  | unshut | drain | closed => exact closing rfl nofun
  | armCancel => exact closing rfl id

theorem leavesFor_step (hs : machine.step c i = some c') : c.state.LeavesFor c'.state := by
  cases stepped hs with
  | @effect o u _ hu he =>
    have hstart : c.state.LeavesFor u := .inl ⟨hu.shutdowns, fun h => hu.state ▸ h⟩
    exact he.keep (fun hm h => LeavesFor.move h hm) (fun ha h => by cases ha <;> exact h) hstart
  | resent op ho hu hl => exact .inl ⟨(congrArg Life.shutdowns hl).trans hu.shutdowns, fun _ => ho⟩
  | rest _ _ hl =>
    exact .inl ⟨congrArg Life.shutdowns hl, fun h => (congrArg Life.state hl).symm.trans h⟩

theorem open_of_step (hs : machine.step c i = some c') (ho : c'.state.state = .kOpen) :
    c.state.state = .kOpen :=
  (leavesFor_step hs).elim (fun h => h.2 ho) And.left

/-- Only a session that leaves `kOpen` prepares a shutdown. -/
theorem leaves_of_shutdown (hs : machine.step c i = some c')
    (hd : c'.state.shutdowns ≠ c.state.shutdowns) :
    c.state.state = .kOpen ∧ c'.state.state ≠ .kOpen :=
  (leavesFor_step hs).resolve_left fun h => hd h.1

end Session

end IouringRuntime
