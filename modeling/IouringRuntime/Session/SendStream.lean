import IouringRuntime.Session.Quiet

/-!
# The send side of a session

Accepted bytes are in one of four places: reported sent by the kernel, covered
by the scatter list of the send in flight, in a batch that has been drained
and not yet submitted (a `sendBatch` frame on the stack), or still queued.
`SendPhase` says who is responsible for the queued bytes. While the session is
open exactly one of these holds:

* nothing is queued and nobody is registered (`idle`);
* a send is in flight (`inFlight`);
* a drained batch waits on the stack for its callbacks (`holding`);
* the push that found the queue unregistered is still in `SendOnOwner`
  (`registering`);
* `OnSend` has yet to look at the queue again (`draining`).

Between two events the stack is empty, which leaves the first two. A closing
session keeps only the order: what is sent or in flight is a prefix of what was
accepted.
-/

namespace IouringRuntime

open Reentrant

def sendFrames (st : List SFrame) : List SFrame := st.filter isSendFrame

/-- The bytes drained from the queue and not yet handed to the kernel. -/
def heldBytes (st : List SFrame) : Bytes :=
  st.flatMap fun
    | .code (.sendBatch bufs) => dataOf bufs
    | _ => []

@[simp] theorem sendFrames_nil : sendFrames [] = [] := rfl

@[simp] theorem sendFrames_append (xs ys : List SFrame) :
    sendFrames (xs ++ ys) = sendFrames xs ++ sendFrames ys :=
  List.filter_append ..

theorem sendFrames_cons (f : SFrame) (st : List SFrame) :
    sendFrames (f :: st) = if isSendFrame f then f :: sendFrames st else sendFrames st :=
  List.filter_cons

@[simp] theorem heldBytes_nil : heldBytes [] = [] := rfl

@[simp] theorem heldBytes_cons_sendBatch (bufs : List SendBuffer) (st : List SFrame) :
    heldBytes (.code (.sendBatch bufs) :: st) = dataOf bufs ++ heldBytes st := by
  simp [heldBytes]

theorem heldBytes_sendFrames (st : List SFrame) : heldBytes (sendFrames st) = heldBytes st := by
  induction st with
  | nil => rfl
  | cons f st ih =>
    rw [sendFrames_cons]
    split
    · simp only [heldBytes, List.flatMap_cons] at ih ⊢
      rw [ih]
    · next h =>
      rw [ih]
      cases f with
      | callback k => rfl
      | code i => cases i <;> simp_all [heldBytes, isSendFrame]

/-- The send part of the session's data. -/
structure SendView where
  queue : SendQueue
  active : Option OpId
  sends : List SendOp
  accepted : List SendBuffer
  sent : Bytes

def Session.sendView (s : Session) : SendView where
  queue := s.sendQueue
  active := s.activeSendEv
  sends := sendOps s.inFlight
  accepted := s.accepted
  sent := s.sent

theorem Session.sendView_of_unflushed : FlushBlind Session.sendView := by
  intro s t h
  simp only [Session.data, Data.unflushed, Data.mk.injEq] at h
  simp only [Session.sendView, h]

theorem Session.sendView_of_data {s t : Session} (h : s.data = t.data) : s.sendView = t.sendView :=
  Session.sendView_of_unflushed (congrArg Data.unflushed h)

/-! ## Segments that leave the send side alone -/

abbrev SendQuiet (s : Session) (r : Seg) : Prop := Quiet Session.sendView (fun _ => isSendFrame) s r

theorem asideRecv_sendView : AsideRecv Session.sendView fun _ => isSendFrame where
  data := Session.sendView_of_data
  backpressure _ _ _ := rfl
  control {f} h _ := by
    simp only [isControlFrame, Bool.not_eq_true', Bool.or_eq_false_iff] at h
    exact h.1.1.1
  released _ := rfl
  paused _ _ := rfl
  queue _ _ _ := rfl
  deliver _ _ := rfl
  received _ _ := rfl
  recv {f} h _ := by
    cases f with
    | code i => cases i <;> first | rfl | cases h
    | callback k => rfl

theorem Closing.sendQuiet {s : Session} {r : Seg} (h : Closing s r) : SendQuiet s r :=
  h.quiet asideRecv_sendView.toAside Session.sendView_of_unflushed

theorem Quiet.sendFrames_eq_nil {s : Session} {r : Seg} (h : SendQuiet s r) :
    sendFrames r.2 = [] :=
  h.frames

namespace Session

theorem sendQuiet_updateBackpressure (s : Session) (o : Outcome) :
    SendQuiet s (s.updateBackpressure o) :=
  asideRecv_sendView.updateBackpressure s o

theorem sendQuiet_exec (o : Outcome) (s : Session) {i : Instr}
    (hi : isSendFrame (.code i) = false) : SendQuiet s (exec o s i) := by
  cases hr : isReturnFrame (.code i) with
  | false => exact asideRecv_sendView.exec s o hi hr
  | true =>
    cases i with
    | returnSend => exact ⟨rfl, rfl, fun h => h⟩
    | _ => cases hr

theorem sendQuiet_call (o : Outcome) (s : Session) {a : Api} (ha : ∀ buf, a ≠ .send buf) :
    SendQuiet s (call o s a) :=
  asideRecv_sendView.call s o (fun _ => sendView_of_unflushed) ha

theorem sendView_retire {s : Session} {id : OpId} {op : Op}
    (h : s.inFlight.find? (·.id == id) = some op) (hk : op.kind ≠ .send) :
    (s.retire id).sendView = s.sendView := by
  obtain ⟨-, xs, ys, hs, hr⟩ := retire_split h
  have : sendOps (s.retire id).inFlight = sendOps s.inFlight := by
    rw [hs, hr]
    cases op <;> simp_all [sendOps, Op.kind]
  simp only [sendView, this]
  rfl

theorem sendQuiet_complete (o : Outcome) {s : Session} {id : OpId} {op : Op} (cqe : Cqe)
    (h : s.inFlight.find? (·.id == id) = some op) (hk : op.kind ≠ .send) :
    SendQuiet s (s.complete o cqe op) := by
  obtain ⟨rfl, -⟩ := retire_split h
  have hv := sendView_retire h hk
  by_cases hr : op.kind = .recv
  · cases op with
    | recv id => exact asideRecv_sendView.completeRecv s o cqe hv
    | _ => cases hr
  · exact asideRecv_sendView.complete s o cqe hv hr hk

end Session

/-! ## The invariant -/

/-- Below a frame that moves data there is at most the rest of one `OnSend`. -/
inductive IsTail : List SFrame → Prop where
  | nil : IsTail []
  | drained : IsTail [.code .onSendDrained]
  | rest : IsTail [.code .onSendTail]

theorem IsTail.held {fs : List SFrame} (h : IsTail fs) : heldBytes fs = [] := by
  cases h <;> rfl

/-- Who sends the queued buffers next. -/
inductive SendPhase (v : SendView) : List SFrame → Prop where
  | idle {fs : List SFrame} : IsTail fs → v.queue.registered = false → v.active = none →
      v.queue.pending = [] → SendPhase v fs
  | inFlight {fs : List SFrame} : IsTail fs → v.queue.registered = true →
      v.active.isSome = true → SendPhase v fs
  | holding {bufs : List SendBuffer} {fs : List SFrame} : IsTail fs →
      v.queue.registered = true → v.active = none → bufs ≠ [] →
      SendPhase v (.code (.sendBatch bufs) :: fs)
  | registering {fs : List SFrame} : IsTail fs → v.queue.registered = true →
      v.active = none → v.queue.pending ≠ [] → SendPhase v (.code .registerSend :: fs)
  | draining {fs : List SFrame} : IsTail fs → fs ≠ [] → v.queue.registered = true →
      v.active = none → v.queue.pending ≠ [] → SendPhase v fs

/-- The bytes the scatter lists in flight still cover. -/
def SendView.inFlightBytes (v : SendView) : Bytes := v.sends.flatMap (covered ·.iovecs)

/-- The two differ at most in the queue. -/
def SendView.SameTraffic (v w : SendView) : Prop := w = { v with queue := w.queue }

theorem SendView.SameTraffic.refl (v : SendView) : v.SameTraffic v := rfl

/-- The invariant of the send side, over the send frames on the stack. -/
structure SendInv (isOpen : Prop) (v : SendView) (fs : List SFrame) : Prop where
  ids : v.sends.map SendOp.id = v.active.toList
  wf : ∀ op ∈ v.sends, ∀ iov ∈ op.iovecs, iov.WF
  order : v.sent ++ v.inFlightBytes <+: dataOf v.accepted
  phase : isOpen → SendPhase v fs
  stream : isOpen → v.sent ++ v.inFlightBytes ++ heldBytes fs ++ dataOf v.queue.pending =
    dataOf v.accepted

namespace SendInv

variable {p q : Prop} {v w : SendView} {fs : List SFrame}

theorem sends_nil (h : SendInv p v fs) (ha : v.active = none) : v.sends = [] := by
  simpa [ha] using h.ids

/-- Once the session is no longer open the queue does not matter. -/
theorem closed (h : SendInv p v fs) (hw : v.SameTraffic w) (hq : ¬ q) {fs' : List SFrame} :
    SendInv q w fs' := by
  rw [hw]
  exact ⟨h.ids, h.wf, h.order, fun h => absurd h hq, fun h => absurd h hq⟩

/-- Segments that leave the send side alone keep the invariant. -/
theorem quiet {s : Session} {r : Seg} (hr : SendQuiet s r)
    (h : SendInv (s.state = .kOpen) s.sendView fs) :
    SendInv (r.1.state = .kOpen) r.1.sendView (sendFrames r.2 ++ fs) := by
  rw [hr.view, hr.sendFrames_eq_nil, List.nil_append]
  exact ⟨h.ids, h.wf, h.order, fun h' => h.phase (hr.isOpen h'), fun h' => h.stream (hr.isOpen h')⟩

/-- The frames a segment puts on the stack for later come below its own. -/
theorem quiet_andThen {s : Session} {r : Seg} {k : List SFrame} (hr : SendQuiet s r)
    (h : SendInv (s.state = .kOpen) s.sendView (sendFrames k ++ fs)) :
    SendInv ((r.andThen k).1.state = .kOpen) (r.andThen k).1.sendView
      (sendFrames (r.andThen k).2 ++ fs) := by
  have := h.quiet hr
  simpa [hr.sendFrames_eq_nil] using this

end SendInv

namespace Session

variable {s : Session} {o : Outcome} {fs : List SFrame}

/-- A closing session's send side: `DisconnectOnOwner` after some update. -/
theorem sendInv_disconnect {t : Session} {cause : CloseCause} {p : Prop} {k : List SFrame}
    (h : SendInv p s.sendView fs) (ht : s.sendView.SameTraffic t.sendView) :
    SendInv ((t.disconnectOnOwner o cause).1.state = .kOpen)
      (t.disconnectOnOwner o cause).1.sendView k := by
  have hv := (closing_disconnectOnOwner t o cause).sendQuiet.view
  exact h.closed (by rw [hv]; exact ht) (disconnectOnOwner_not_open t o cause)

/-- A send put in flight when none was. -/
theorem sendInv_prepSend {op : SendOp} {p : Prop} (hnil : s.sendView.sends = [])
    (hwf : ∀ iov ∈ op.iovecs, iov.WF) (ht : IsTail fs) (hr : s.sendQueue.registered = true)
    (hst : s.sent ++ covered op.iovecs ++ dataOf s.sendQueue.pending = dataOf s.accepted) :
    SendInv p ((s.prep (.send op)).setActiveSendEv (some op.id)).sendView fs := by
  have hsends : ((s.prep (.send op)).setActiveSendEv (some op.id)).sendView.sends = [op] := by
    show sendOps (s.inFlight ++ [.send op]) = [op]
    rw [sendOps_append, show sendOps s.inFlight = [] from hnil]
    rfl
  have hbytes : ((s.prep (.send op)).setActiveSendEv (some op.id)).sendView.inFlightBytes =
      covered op.iovecs := by
    rw [SendView.inFlightBytes, hsends, List.flatMap_singleton]
  refine ⟨by rw [hsends]; rfl, ?_, ?_, fun _ => .inFlight ht hr rfl, fun _ => ?_⟩
  · intro op' hop
    rw [hsends, List.mem_singleton] at hop
    rw [hop]
    exact hwf
  · rw [hbytes]
    exact ⟨_, hst⟩
  · rw [hbytes, ht.held, List.append_nil]
    exact hst

theorem sendPhase_push {v w : SendView} {buf : SendBuffer}
    (hp : SendPhase v fs) (hq : w.queue.pending = v.queue.pending ++ [buf])
    (hr : w.queue.registered = true) (ha : w.active = v.active) :
    SendPhase w (if v.queue.registered then fs else .code .registerSend :: fs) := by
  have hne : w.queue.pending ≠ [] := by simp [hq]
  cases hp with
  | idle ht h1 h2 h3 => rw [h1]; exact .registering ht hr (ha.trans h2) hne
  | inFlight ht h1 h2 => rw [h1]; exact .inFlight ht hr (by rw [ha]; exact h2)
  | holding ht h1 h2 h3 => rw [h1]; exact .holding ht hr (ha.trans h2) h3
  | registering ht h1 h2 h3 => rw [h1]; exact .registering ht hr (ha.trans h2) hne
  | draining ht hne' h1 h2 h3 => rw [h1]; exact .draining ht hne' hr (ha.trans h2) hne

theorem sendInv_sendOnOwner (h : SendInv (s.state = .kOpen) s.sendView fs) (buf : SendBuffer) :
    SendInv ((s.sendOnOwner o buf).1.state = .kOpen) (s.sendOnOwner o buf).1.sendView
      (sendFrames (s.sendOnOwner o buf).2 ++ fs) := by
  unfold sendOnOwner
  split
  · exact h
  · next hopen =>
    rw [Bool.not_eq_true', Bool.not_eq_false, canUseOnOwner_iff] at hopen
    dsimp only
    rcases s.sendQueue.push_cases buf with ⟨h1, -, -⟩ | ⟨h1, h2, h3, h4⟩
    · rw [if_pos h1]
      exact sendInv_disconnect h rfl
    · rw [if_neg (by simp [h1]), h2]
      refine SendInv.quiet_andThen (sendQuiet_updateBackpressure _ o) ?_
      have hf : sendFrames (if (!s.sendQueue.registered) = true
          then [.code .registerSend, .code (.returnSend none)]
          else [.code (.returnSend none)]) ++ fs =
            if s.sendQueue.registered then fs else .code .registerSend :: fs := by
        cases s.sendQueue.registered <;> rfl
      rw [hf]
      refine ⟨h.ids, h.wf, ?_, fun _ => ?_, fun _ => ?_⟩
      · show _ <+: dataOf (s.accepted ++ [buf])
        rw [dataOf_append]
        exact h.order.trans (List.prefix_append _ _)
      · exact sendPhase_push (h.phase hopen) h3 h4 rfl
      · have hheld : heldBytes (if s.sendQueue.registered then fs else .code .registerSend :: fs) =
            heldBytes fs := by split <;> rfl
        have hst := h.stream hopen
        simp only [sendView, SendView.inFlightBytes] at hst
        simp only [sendView, SendView.inFlightBytes, setSendQueue, accept, h3, hheld, dataOf_append]
        rw [← hst]
        simp only [List.append_assoc]

/-- The drained batch is held by the new `sendBatch` frame. -/
theorem sendInv_drain {f : SFrame} (h : SendInv (s.state = .kOpen) s.sendView (f :: fs))
    (hf : heldBytes (f :: fs) = heldBytes fs)
    (hready : s.state = .kOpen → IsTail fs ∧ s.sendQueue.registered = true ∧ s.activeSendEv = none)
    {n : Nat} (hne : (s.sendQueue.drainInto n).2 ≠ []) :
    SendInv ((s.setSendQueue (s.sendQueue.drainInto n).1).state = .kOpen)
      (s.setSendQueue (s.sendQueue.drainInto n).1).sendView
      (.code (.sendBatch (s.sendQueue.drainInto n).2) :: fs) := by
  refine ⟨h.ids, h.wf, h.order, fun ho => ?_, fun ho => ?_⟩
  · obtain ⟨ht, hr, ha⟩ := hready ho
    exact .holding ht (by simpa [sendView, setSendQueue] using hr) ha hne
  · obtain ⟨ht, -, -⟩ := hready ho
    have hst := h.stream ho
    rw [hf, ht.held] at hst
    have hd := congrArg dataOf (s.sendQueue.drainInto_append n)
    rw [dataOf_append] at hd
    simp only [sendView, SendView.inFlightBytes, List.append_nil] at hst
    simp only [sendView, SendView.inFlightBytes, setSendQueue, heldBytes_cons_sendBatch, ht.held,
      List.append_nil]
    rw [← hst, ← hd, List.append_assoc]

theorem sendInv_registerSend
    (h : SendInv (s.state = .kOpen) s.sendView (.code .registerSend :: fs)) :
    SendInv ((s.registerSend o).1.state = .kOpen) (s.registerSend o).1.sendView
      (sendFrames (s.registerSend o).2 ++ fs) := by
  have hready : s.state = .kOpen → IsTail fs ∧ s.sendQueue.registered = true ∧
      s.activeSendEv = none ∧ s.sendQueue.pending ≠ [] := by
    intro ho
    cases h.phase ho with
    | registering ht h1 h2 h3 => exact ⟨ht, h1, h2, h3⟩
    | idle ht => cases ht
    | inFlight ht => cases ht
    | draining ht => cases ht
  unfold registerSend
  split
  · next hc =>
    rw [Bool.not_eq_true', ← Bool.not_eq_true, canUseOnOwner_iff] at hc
    exact h.closed (.refl _) hc
  · next hc =>
    rw [Bool.not_eq_true', Bool.not_eq_false, canUseOnOwner_iff] at hc
    obtain ⟨ht, hr, ha, hp⟩ := hready hc
    have hne : (s.sendQueue.drainInto kMaxSendIovecs).2 ≠ [] := by
      rwa [Ne, SendQueue.drainInto_eq_nil]
    rw [if_neg (by simp [ha])]
    dsimp only
    rw [if_neg (by simpa using hne)]
    exact SendInv.quiet_andThen (sendQuiet_updateBackpressure _ o)
      (sendInv_drain h rfl (fun _ => ⟨ht, hr, ha⟩) hne)

theorem sendInv_onSendTail
    (h : SendInv (s.state = .kOpen) s.sendView (.code .onSendTail :: fs)) :
    SendInv ((s.onSendTail o).1.state = .kOpen) (s.onSendTail o).1.sendView
      (sendFrames (s.onSendTail o).2 ++ fs) := by
  -- In every phase that has this frame on top it is the last one.
  have hfs : s.state = .kOpen → fs = [] := by
    intro ho
    cases h.phase ho with
    | idle ht => cases ht; rfl
    | inFlight ht => cases ht; rfl
    | draining ht => cases ht; rfl
  have htail : s.state = .kOpen → IsTail fs := fun ho => by rw [hfs ho]; exact .nil
  unfold onSendTail
  split
  · next ha =>
    refine ⟨h.ids, h.wf, h.order, fun ho => ?_,
      fun ho => by simpa [hfs ho, heldBytes] using h.stream ho⟩
    cases h.phase ho with
    | inFlight _ h1 h2 => exact .inFlight (htail ho) h1 h2
    | idle _ _ h2 => rw [show s.activeSendEv = none from h2] at ha; cases ha
    | draining _ _ _ h2 => rw [show s.activeSendEv = none from h2] at ha; cases ha
  · next ha =>
    rw [Option.not_isSome_iff_eq_none] at ha
    dsimp only
    split
    · next he =>
      have hp : s.sendQueue.pending = [] := by
        rw [← SendQueue.drainInto_eq_nil (n := kMaxSendIovecs)]; simpa using he
      rw [SendQueue.drainInto_of_nil hp]
      refine SendInv.quiet (closing_tryDisconnectAfterFlush _ o).sendQuiet ?_
      have hst : s.state = .kOpen → s.sent ++ s.sendView.inFlightBytes ++ heldBytes fs ++
          dataOf s.sendQueue.pending = dataOf s.accepted := fun ho => by
        have hst := h.stream ho
        rw [hfs ho] at hst ⊢
        exact hst
      refine ⟨h.ids, h.wf, h.order, fun ho => ?_, hst⟩
      cases h.phase ho with
      | idle _ h1 h2 h3 => exact .idle (htail ho) h1 h2 h3
      | inFlight _ _ h2 => simp_all [sendView]
      | draining _ _ _ _ h3 => exact absurd hp h3
    · next he =>
      have hne : (s.sendQueue.drainInto kMaxSendIovecs).2 ≠ [] := by simpa using he
      refine SendInv.quiet_andThen (sendQuiet_updateBackpressure _ o)
        (sendInv_drain h rfl (fun ho => ⟨htail ho, ?_, ha⟩) hne)
      cases h.phase ho with
      | idle _ _ _ h3 => exact absurd (SendQueue.drainInto_eq_nil.2 h3) hne
      | inFlight _ h1 => exact h1
      | draining _ _ h1 => exact h1

/-- The frames of `OnSend` follow each other in the same phase. -/
theorem sendInv_onSendDrained
    (h : SendInv (s.state = .kOpen) s.sendView (.code .onSendDrained :: fs)) :
    SendInv ((exec o s .onSendDrained).1.state = .kOpen) (exec o s .onSendDrained).1.sendView
      (sendFrames (exec o s .onSendDrained).2 ++ fs) := by
  refine SendInv.quiet_andThen (closing_tryDisconnectAfterFlush s o).sendQuiet ?_
  refine ⟨h.ids, h.wf, h.order, fun ho => ?_, h.stream⟩
  cases h.phase ho with
  | idle ht h1 h2 h3 => cases ht; exact .idle .rest h1 h2 h3
  | inFlight ht h1 h2 => cases ht; exact .inFlight .rest h1 h2
  | draining ht _ h1 h2 h3 => cases ht; exact .draining .rest (List.cons_ne_nil _ _) h1 h2 h3

theorem sendInv_sendBatch {bufs : List SendBuffer}
    (h : SendInv (s.state = .kOpen) s.sendView (.code (.sendBatch bufs) :: fs)) :
    SendInv ((s.sendBatch o bufs).1.state = .kOpen) (s.sendBatch o bufs).1.sendView
      (sendFrames (s.sendBatch o bufs).2 ++ fs) := by
  by_cases ho : s.state = .kOpen
  · have hc : s.canUseOnOwner = true := canUseOnOwner_iff.2 ho
    obtain ⟨ht, hr, ha, hb⟩ : IsTail fs ∧ s.sendQueue.registered = true ∧
        s.activeSendEv = none ∧ bufs ≠ [] := by
      cases h.phase ho with
      | holding ht h1 h2 h3 => exact ⟨ht, h1, h2, h3⟩
      | idle ht => cases ht
      | inFlight ht => cases ht
      | draining ht => cases ht
    have hcond : ∀ t : Session, t.state = s.state → (!t.canUseOnOwner || bufs.isEmpty) = false := by
      intro t ht
      simp [canUseOnOwner, ht, ho, hb]
    unfold sendBatch
    rw [hcond s rfl, if_neg (by simp), if_neg (by simp [ha])]
    split
    · exact sendInv_disconnect h rfl
    · unfold sendInFlightBatch
      rw [hcond s.newOp rfl, if_neg (by simp)]
      dsimp only
      split
      · have hv : ((s.newOp.beginPendingIo.completePendingIo).deleteOp s.nextOp).sendView =
            s.sendView := sendView_of_data (by simp)
        exact sendInv_disconnect h (by rw [hv]; exact .refl _)
      · have hnil : s.sendView.sends = [] := h.sends_nil ha
        refine sendInv_prepSend hnil (fun iov hiov => ?_) ht hr ?_
        · obtain ⟨b, -, rfl⟩ := List.mem_map.1 hiov
          exact Iovec.wf_ofBuffer b
        · have hst := h.stream ho
          rw [SendView.inFlightBytes, hnil, heldBytes_cons_sendBatch, ht.held, List.flatMap_nil,
            List.append_nil, List.append_nil] at hst
          rw [covered_ofBuffer]
          exact hst
  · have hc : s.canUseOnOwner = false := by simpa [canUseOnOwner] using ho
    unfold sendBatch
    rw [if_pos (by simp [hc])]
    exact h.closed (.refl _) ho

/-- All of a batch is sent: nothing is in flight, and `OnSend` looks at the queue next. -/
theorem sendInv_allSent {p : Prop} (hnil : s.sendView.sends = []) (ha : s.activeSendEv = none)
    (hr : s.sendQueue.registered = true)
    (hst : s.sent ++ dataOf s.sendQueue.pending = dataOf s.accepted) :
    SendInv p (s.setSendQueue s.sendQueue.markSent).sendView [.code .onSendDrained] := by
  have hsends : (s.setSendQueue s.sendQueue.markSent).sendView.sends = [] := hnil
  have hpend : s.sendQueue.markSent.pending = s.sendQueue.pending := by
    rcases s.sendQueue.markSent_cases with ⟨h1, h2, -⟩ | ⟨-, h1⟩
    · rw [h1, h2]
    · rw [h1]
  have hbytes : (s.setSendQueue s.sendQueue.markSent).sendView.inFlightBytes = [] := by
    rw [SendView.inFlightBytes, hsends, List.flatMap_nil]
  refine ⟨?_, fun op hop => ?_, ?_, fun _ => ?_, fun _ => ?_⟩
  · rw [hsends, show (s.setSendQueue s.sendQueue.markSent).sendView.active = none from ha]
    rfl
  · rw [hsends] at hop
    cases hop
  · rw [hbytes, List.append_nil]
    exact ⟨_, hst⟩
  · rcases s.sendQueue.markSent_cases with ⟨-, h2, h3⟩ | ⟨h1, h2⟩
    · exact .idle .drained h3 ha h2
    · refine .draining .drained (List.cons_ne_nil _ _) ?_ ha ?_
      · show s.sendQueue.markSent.registered = true
        rw [h2]
        exact hr
      · show s.sendQueue.markSent.pending ≠ []
        rw [h2]
        exact h1
  · show s.sent ++ (s.setSendQueue s.sendQueue.markSent).sendView.inFlightBytes ++ [] ++
      dataOf s.sendQueue.markSent.pending = dataOf s.accepted
    rw [hbytes, hpend, List.append_nil, List.append_nil]
    exact hst

/-- `OnSend` on the operation that was in flight, which has left the ring.
`pre` is what had been reported sent before this completion. -/
theorem sendInv_onSend {op : SendOp} {res : Int} (pre : Bytes) (hnil : s.sendView.sends = [])
    (ha : s.activeSendEv = some op.id) (hwf : ∀ iov ∈ op.iovecs, iov.WF)
    (hr : s.state = .kOpen → s.sendQueue.registered = true)
    (hsent : s.sent = pre ++ (covered op.iovecs).take res.toNat)
    (hord : pre ++ covered op.iovecs <+: dataOf s.accepted)
    (hst : s.state = .kOpen →
      pre ++ covered op.iovecs ++ dataOf s.sendQueue.pending = dataOf s.accepted) :
    SendInv ((s.onSend o op res).1.state = .kOpen) (s.onSend o op res).1.sendView
      (sendFrames (s.onSend o op res).2) := by
  have hsends : (s.setActiveSendEv none).sendView.sends = [] := hnil
  have hclosed : SendInv False (s.setActiveSendEv none).sendView [] := by
    refine ⟨by rw [hsends]; rfl, by rw [hsends]; simp, ?_, False.elim, False.elim⟩
    show s.sent ++ (s.setActiveSendEv none).sendView.inFlightBytes <+: dataOf s.accepted
    rw [SendView.inFlightBytes, hsends, List.flatMap_nil, List.append_nil, hsent]
    exact ((List.prefix_append_right_inj pre).2 (List.take_prefix _ _)).trans hord
  have hdone (t : Session) : t.completePendingIo.sendView = t.sendView :=
    sendView_of_data (data_completePendingIo t)
  unfold onSend
  rw [clearActiveSend, if_pos ha]
  dsimp only
  split
  · next hc =>
    have hq := (control_tryRelease (s.setActiveSendEv none).completePendingIo).closing.sendQuiet
    have hno : ¬ s.state = .kOpen := by simpa [canUseOnOwner, setActiveSendEv] using hc
    refine hclosed.closed ?_ fun h => hno (by simpa [setActiveSendEv] using hq.isOpen h)
    rw [Seg.andThen_fst, hq.view, hdone]
    exact .refl _
  · next hc =>
    have ho : s.state = .kOpen := by simpa [canUseOnOwner, setActiveSendEv] using hc
    split
    · exact sendInv_disconnect hclosed (by rw [hdone]; exact .refl _)
    · split
      · -- partial: the same operation goes back with what is left
        split
        · exact sendInv_disconnect hclosed (by rw [hdone]; exact .refl _)
        · refine sendInv_prepSend hnil (wf_advanceSendState hwf op.bufs _) .nil (hr ho) ?_
          rw [covered_advanceSendState hwf, show (s.setActiveSendEv none).sent = s.sent from rfl,
            hsent, List.append_assoc pre, List.take_append_drop]
          exact hst ho
      · next hfull =>
        have hall : (covered op.iovecs).take res.toNat = covered op.iovecs :=
          List.take_of_length_le (by rw [length_covered hwf]; omega)
        rw [← List.append_nil (sendFrames _)]
        refine SendInv.quiet_andThen (sendQuiet_updateBackpressure _ o) ?_
        show SendInv _ _ [.code .onSendDrained]
        rw [hdone]
        refine sendInv_allSent hnil rfl (hr ho) ?_
        show s.sent ++ dataOf s.sendQueue.pending = dataOf s.accepted
        rw [hsent, hall]
        exact hst ho

/-- The one send in flight is the one `active_send_ev_` points to. -/
theorem sendOps_of_find {p : Prop} (h : SendInv p s.sendView fs) {id : OpId} {op : SendOp}
    (hop : s.inFlight.find? (·.id == id) = some (.send op)) :
    s.sendView.sends = [op] ∧ s.activeSendEv = some op.id ∧
      (s.retire op.id).sendView.sends = [] := by
  obtain ⟨hid, xs, ys, hs, hret⟩ := retire_split hop
  have hsplit : s.sendView.sends = sendOps xs ++ op :: sendOps ys := by
    show sendOps s.inFlight = _
    rw [hs, sendOps_append]
    rfl
  have hids := h.ids
  rw [hsplit] at hids
  have hret' : (s.retire op.id).sendView.sends = sendOps xs ++ sendOps ys := by
    rw [← sendOps_append, ← hret, ← hid]
    rfl
  show _ ∧ s.sendView.active = _ ∧ _
  cases hact : s.sendView.active with
  | none => simp [hact] at hids
  | some a =>
    rw [hact] at hids
    cases hx : sendOps xs with
    | nil =>
      cases hy : sendOps ys with
      | nil =>
        simp only [hx, hy, List.nil_append, List.map_cons, List.map_nil, Option.toList_some,
          List.cons.injEq, and_true] at hids
        exact ⟨by rw [hsplit, hx, hy]; rfl, by rw [hids], by rw [hret', hx, hy]; rfl⟩
      | cons y ys' => simp [hx, hy] at hids
    | cons x xs' => simp [hx] at hids

theorem sendInv_complete (h : SendInv (s.state = .kOpen) s.sendView []) {id : OpId} {op : SendOp}
    {cqe : Cqe} (hop : s.inFlight.find? (·.id == id) = some (.send op)) :
    SendInv ((s.complete o cqe (.send op)).1.state = .kOpen)
      (s.complete o cqe (.send op)).1.sendView (sendFrames (s.complete o cqe (.send op)).2) := by
  obtain ⟨hs, ha, hnil⟩ := sendOps_of_find h hop
  have hmem : op ∈ s.sendView.sends := by rw [hs]; exact List.mem_singleton_self op
  have hbytes : s.sendView.inFlightBytes = covered op.iovecs := by
    rw [SendView.inFlightBytes, hs, List.flatMap_singleton]
  have hord := h.order
  rw [hbytes] at hord
  refine sendInv_onSend s.sent hnil ha (h.wf op hmem) (fun ho => ?_) rfl hord fun ho => ?_
  · cases h.phase ho with
    | idle _ _ h2 => rw [show s.sendView.active = some op.id from ha] at h2; cases h2
    | inFlight _ h1 => exact h1
    | draining _ hne => exact absurd rfl hne
  · have hst := h.stream ho
    rw [hbytes, heldBytes_nil, List.append_nil] at hst
    exact hst

/-- **The send side's invariant is kept by every input of the machine.** -/
theorem sendInv_preserved :
    machine.Preserved fun s st => SendInv (s.state = .kOpen) s.sendView (sendFrames st) where
  exec := by
    intro o s i rest h
    rw [sendFrames_append]
    by_cases hi : isSendFrame (.code i) = true
    · rw [sendFrames_cons, if_pos hi] at h
      cases i with
      | registerSend => exact sendInv_registerSend h
      | sendBatch bufs => exact sendInv_sendBatch h
      | onSendDrained => exact sendInv_onSendDrained h
      | onSendTail => exact sendInv_onSendTail h
      | _ => cases hi
    · rw [sendFrames_cons, if_neg hi] at h
      exact h.quiet (sendQuiet_exec o s (by simpa using hi))
  call := by
    intro o s a st _ h
    rw [sendFrames_append]
    by_cases ha : ∃ buf, a = .send buf
    · obtain ⟨buf, rfl⟩ := ha
      exact sendInv_sendOnOwner h buf
    · exact h.quiet (sendQuiet_call o s fun buf hb => ha ⟨buf, hb⟩)
  ret := by
    intro s k b rest h
    have hs : (machine.ret s k b).sendView = s.sendView ∧ (machine.ret s k b).state = s.state := by
      cases k <;> exact ⟨rfl, rfl⟩
    rw [hs.1, hs.2]
    exact h
  event := by
    intro o s e r he h
    obtain ⟨op, hop, -, rfl⟩ := event_cases he
    by_cases hk : op.kind = .send
    · cases op with
      | send op => exact sendInv_complete h hop
      | _ => cases hk
    · simpa using h.quiet (sendQuiet_complete o e.2 hop hk)

theorem sendInv_reachable {cfg : Config} {c : SConf} (hr : Reachable cfg c) :
    SendInv (c.state.state = .kOpen) c.state.sendView (sendFrames c.stack) :=
  sendInv_preserved.reachable hr
    ⟨rfl, fun _ h => absurd h List.not_mem_nil, List.prefix_rfl, fun _ => .idle .nil rfl rfl rfl,
      fun _ => rfl⟩

/-! ## Between two events -/

/-- The bytes still covered by the scatter list of the active send. -/
def activeBytes (s : Session) : Bytes :=
  match s.activeSendEv with
  | none => []
  | some id =>
    match (sendOps s.inFlight).find? (·.id == id) with
    | none => []
    | some op => covered op.iovecs

theorem activeBytes_eq {p : Prop} (h : SendInv p s.sendView fs) :
    s.activeBytes = s.sendView.inFlightBytes := by
  have hids : (sendOps s.inFlight).map SendOp.id = s.activeSendEv.toList := h.ids
  unfold activeBytes
  show _ = (sendOps s.inFlight).flatMap (covered ·.iovecs)
  generalize sendOps s.inFlight = ops at hids ⊢
  cases ha : s.activeSendEv with
  | none => simp_all
  | some id =>
    rw [ha] at hids
    match ops, hids with
    | [op], hids =>
      have hop : op.id = id := by simpa using hids
      simp [hop]

/-- **Send-stream integrity.** Between two events of an open session the bytes
sent, the bytes of the active send and the bytes queued are the bytes accepted. -/
theorem send_stream {cfg : Config} {c : SConf} (hr : Reachable cfg c) (htop : c.stack = [])
    (ho : c.state.state = .kOpen) :
    c.state.sent ++ c.state.activeBytes ++ dataOf c.state.sendQueue.pending =
      dataOf c.state.accepted := by
  have h := sendInv_reachable hr
  have hst := h.stream ho
  rw [htop, sendFrames_nil, heldBytes_nil, List.append_nil] at hst
  rw [activeBytes_eq h]
  exact hst

/-- Two sends, the first taken by the kernel one byte at a time. -/
def partialSendRun : List SInput :=
  [.call {} (.send ⟨[1, 2, 3]⟩), .exec {}, .exec {}, .exec {},
    .call {} (.send ⟨[4]⟩), .exec {},
    .event {} (0, ⟨1, false, []⟩), .exec {}]

theorem send_stream_partial :
    ∃ c, machine.run (initConf {}) partialSendRun = some c ∧ c.stack = [] ∧
      c.state.state = .kOpen ∧ c.state.sent = [1] ∧ c.state.activeBytes = [2, 3] ∧
      c.state.sent ++ c.state.activeBytes ++ dataOf c.state.sendQueue.pending =
        dataOf c.state.accepted :=
  ⟨_, rfl, rfl, rfl, rfl, rfl,
    @send_stream {} _ (.of_run partialSendRun rfl) rfl rfl⟩

/-- **No send stall.** Between two events of an open session the queue is
registered exactly when a send is active, and nothing waits without one; at
any time at most one send is in flight. -/
theorem no_send_stall {cfg : Config} {c : SConf} (hr : Reachable cfg c) :
    (sendOps c.state.inFlight).length ≤ 1 ∧
    (c.stack = [] → c.state.state = .kOpen →
      (c.state.sendQueue.registered = true ↔ c.state.activeSendEv.isSome = true) ∧
      (c.state.sendQueue.pending ≠ [] → c.state.activeSendEv.isSome = true)) := by
  have h := sendInv_reachable hr
  constructor
  · have hids := congrArg List.length h.ids
    rw [List.length_map] at hids
    show c.state.sendView.sends.length ≤ 1
    rw [hids]
    cases c.state.sendView.active <;> simp
  · intro htop ho
    have hp := h.phase ho
    rw [htop, sendFrames_nil] at hp
    cases hp with
    | idle _ h1 h2 h3 =>
      simp only [sendView] at h1 h2 h3
      simp [h1, h2, h3]
    | inFlight _ h1 h2 =>
      simp only [sendView] at h1 h2
      simp [h1, h2]
    | draining _ hne => exact absurd rfl hne

theorem no_send_stall_partial :
    ∃ c, machine.run (initConf {}) partialSendRun = some c ∧ c.stack = [] ∧
      c.state.state = .kOpen ∧ c.state.sendQueue.pending ≠ [] ∧
      (sendOps c.state.inFlight).length ≤ 1 ∧
      (c.stack = [] → c.state.state = .kOpen →
        (c.state.sendQueue.registered = true ↔ c.state.activeSendEv.isSome = true) ∧
        (c.state.sendQueue.pending ≠ [] → c.state.activeSendEv.isSome = true)) :=
  ⟨_, rfl, rfl, rfl, by decide,
    @no_send_stall {} _ (.of_run partialSendRun rfl)⟩

end Session

end IouringRuntime
