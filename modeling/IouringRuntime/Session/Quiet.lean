import IouringRuntime.Session.Control

/-!
# Segments that leave a part of the session alone

An invariant of the session is about a part of its data (`view`) and some of
the frames on the stack (`sel`, which may depend on the state the session is
in). `Quiet view sel s r` says that a segment leaves the data alone, pushes none
of the frames, and does not reopen the session. The session's functions are
gone through once, for every view that ignores what they write: `Aside` is for
closing, counting and the backpressure flag, `AsideRecv` and `AsideSend` add
the receive and the send side. The code that may close after the flush needs a
view that does not show it (`FlushBlind`).
-/

namespace IouringRuntime

open Reentrant

/-- The frames that move data from the queue to the kernel. -/
def isSendFrame : SFrame → Bool
  | .code .registerSend | .code (.sendBatch _) | .code .onSendDrained | .code .onSendTail => true
  | _ => false

/-- The frames that hand data to `OnRecv`. -/
def isRecvFrame : SFrame → Bool
  | .callback (.onRecv _) | .code .drainPausedRecv => true
  | _ => false

/-- The frames that give the caller of `Send` its result. -/
def isReturnFrame : SFrame → Bool
  | .code (.returnSend _) => true
  | _ => false

/-- All other frames but `OnDisconnected`. -/
def isControlFrame (f : SFrame) : Bool :=
  !(isSendFrame f || isRecvFrame f || isReturnFrame f || f == .callback .onDisconnected)

structure Quiet {α : Type} (view : Session → α) (sel : SessionState → SFrame → Bool) (s : Session)
    (r : Seg) : Prop where
  view : view r.1 = view s
  frames : r.2.filter (sel r.1.state) = []
  isOpen : r.1.state = .kOpen → s.state = .kOpen

variable {α : Type} {view : Session → α} {sel : SessionState → SFrame → Bool} {s t : Session}
  {r : Seg}

namespace Quiet

theorem refl (s : Session) : Quiet view sel s (s, []) := ⟨rfl, rfl, id⟩

theorem after (h : Quiet view sel t r) (hv : view t = view s) (ho : t.state = s.state) :
    Quiet view sel s r :=
  ⟨h.view.trans hv, h.frames, fun h' => ho ▸ h.isOpen h'⟩

theorem andThen (h : Quiet view sel s r) {k : List SFrame} (hk : ∀ st, k.filter (sel st) = []) :
    Quiet view sel s (r.andThen k) :=
  ⟨h.view, by rw [Seg.andThen_snd, Seg.andThen_fst, List.filter_append, h.frames, hk]; rfl,
    h.isOpen⟩

end Quiet

/-! ## Views that ignore closing -/

structure Aside (view : Session → α) (sel : SessionState → SFrame → Bool) : Prop where
  data : ∀ {s t : Session}, s.data = t.data → view s = view t
  backpressure : ∀ (s : Session) (active : Bool) (high : Nat),
    view { s with backpressureActive := active, lastBackpressureHigh := high } = view s
  control : ∀ {f : SFrame}, isControlFrame f = true → ∀ st, sel st f = false
  released : ∀ {st : SessionState}, st ≠ .kOpen → sel st (.callback .onDisconnected) = false

theorem Aside.filter_eq_nil (ha : Aside view sel) {k : List SFrame}
    (hk : k.all isControlFrame = true) (st : SessionState) : k.filter (sel st) = [] :=
  List.filter_eq_nil_iff.2 fun f hf => by simp [ha.control (List.all_eq_true.1 hk f hf) st]

/-- The view shows no shutdown after the flush. -/
def FlushBlind (view : Session → α) : Prop :=
  ∀ {s t : Session}, s.data.unflushed = t.data.unflushed → view s = view t

theorem Keeps.quiet {β : Type} {keep : Data → β} (h : Keeps keep s r) (ha : Aside view sel)
    (hk : ∀ {s t : Session}, keep s.data = keep t.data → view s = view t) :
    Quiet view sel s r := by
  refine ⟨hk h.data, ?_, h.isOpen⟩
  rcases h.frames with h | ⟨hc, h⟩ <;> rw [h]
  · rfl
  · rw [releaseFrames, List.filter_cons, ha.released hc]
    exact ha.filter_eq_nil rfl _

theorem Control.quiet (h : Control s r) (ha : Aside view sel) : Quiet view sel s r :=
  Keeps.quiet h ha ha.data

theorem Closing.quiet (h : Closing s r) (ha : Aside view sel) (hb : FlushBlind view) :
    Quiet view sel s r :=
  Keeps.quiet h ha hb

namespace Aside

variable {o : Outcome}

/-- A segment that only counts and pushes frames that are not selected. -/
theorem same (ha : Aside view sel) (hd : r.1.data = s.data) (hk : r.2.all isControlFrame = true)
    (ho : r.1.state = s.state) : Quiet view sel s r :=
  ⟨ha.data hd, ha.filter_eq_nil hk _, fun h => ho ▸ h⟩

/-- Close after an update that only counts. -/
theorem close (ha : Aside view sel) (h : Control t r) (hv : view t = view s)
    (ho : t.state = s.state) {k : List SFrame} (hk : k.all isControlFrame = true) :
    Quiet view sel s (r.andThen k) :=
  ((h.quiet ha).andThen (ha.filter_eq_nil hk)).after hv ho

theorem view_completePendingIo (ha : Aside view sel) (s : Session) :
    view s.completePendingIo = view s :=
  ha.data (Session.data_completePendingIo s)

theorem updateBackpressure (ha : Aside view sel) (s : Session) (o : Outcome) :
    Quiet view sel s (s.updateBackpressure o) := by
  unfold Session.updateBackpressure
  dsimp only
  split
  · split
    · exact .refl s
    · exact ⟨ha.backpressure s _ _, ha.filter_eq_nil rfl _, id⟩
  · split
    · exact .refl s
    · exact ⟨ha.backpressure s _ _, ha.filter_eq_nil rfl _, id⟩

theorem tick (ha : Aside view sel) (s : Session) (o : Outcome) (now : Nat) :
    Quiet view sel s (s.tick o now) := by
  unfold Session.tick
  split
  · exact (Session.control_tryRelease s).quiet ha
  · split
    · exact ha.same rfl rfl rfl
    · exact (Session.control_tickRest s o now).quiet ha

/-- The instructions that neither send nor receive. -/
theorem exec (ha : Aside view sel) (s : Session) (o : Outcome) {i : Instr}
    (hi : isControlFrame (.code i) = true) (hr : i ≠ .backpressureRaised)
    (hc : i ≠ .backpressureCleared) : Quiet view sel s (Session.exec o s i) := by
  cases i with
  | backpressureRaised => exact absurd rfl hr
  | backpressureCleared => exact absurd rfl hc
  | registerRecv => exact (Session.control_registerRecv s o).quiet ha
  | tryRelease => exact (Session.control_tryRelease s).quiet ha
  | onRecvTail res more => exact (Session.control_onRecvTail s o res more).quiet ha
  | tickTail now =>
    simp only [Session.exec]
    split
    · exact .refl s
    · exact (Session.control_tickRest s o now).quiet ha
  | dispatched id r => cases r <;> exact ha.same rfl rfl rfl
  | release => exact ha.same rfl rfl rfl
  | registerSend | sendBatch | onSendDrained | onSendTail | drainPausedRecv | returnSend => cases hi

/-- The calls that neither send nor receive. -/
theorem call (ha : Aside view sel) (s : Session) (o : Outcome) {a : Api}
    (hb : a = .disconnectAfterFlush ∨ a = .endAppIo → FlushBlind view)
    (hs : ∀ buf, a ≠ .send buf) (hp : a ≠ .pauseRecv) (hr : a ≠ .resumeRecv) :
    Quiet view sel s (Session.call o s a) := by
  cases a with
  | send buf => exact absurd rfl (hs buf)
  | pauseRecv => exact absurd rfl hp
  | resumeRecv => exact absurd rfl hr
  | start => exact ha.same rfl rfl rfl
  | disconnect => exact (Session.control_disconnectOnOwner s o (by simp)).quiet ha
  | disconnectAfterFlush =>
    exact (Session.closing_disconnectAfterFlushOnOwner s o).quiet ha (hb (.inl rfl))
  | beginAppIo => exact ha.same rfl rfl rfl
  | endAppIo =>
    exact (((Session.closing_tryDisconnectAfterFlush _ o).quiet ha (hb (.inr rfl))).andThen
      (ha.filter_eq_nil rfl)).after (ha.data (by simp)) (by simp)
  | tick now => exact ha.tick s o now

/-- The completions of a shutdown and of a cancel. -/
theorem complete (ha : Aside view sel) (s : Session) (o : Outcome) (cqe : Cqe) {op : Op}
    (hv : view (s.retire op.id) = view s) (hr : op.kind ≠ .recv) (hs : op.kind ≠ .send) :
    Quiet view sel s (s.complete o cqe op) := by
  cases op with
  | recv id => exact absurd rfl hr
  | send op => exact absurd rfl hs
  | disconnect id | cancel id target =>
    exact ha.close (Session.control_tryRelease _) ((ha.view_completePendingIo _).trans hv)
      (Session.state_completePendingIo _) rfl

end Aside

/-! ## Views that ignore the receive side too -/

structure AsideRecv (view : Session → α) (sel : SessionState → SFrame → Bool) : Prop
    extends Aside view sel where
  paused : ∀ (s : Session) (b : Bool), view (s.setRecvPaused b) = view s
  queue : ∀ (s : Session) (q : List Bytes) (n : Nat),
    view { s with pausedRecvQueue := q, pausedRecvBytes := n } = view s
  deliver : ∀ (s : Session) (chunk : Bytes), view (s.deliver chunk) = view s
  received : ∀ (s : Session) (data : Bytes), view (s.recordReceived data) = view s
  recv : ∀ {f : SFrame}, isRecvFrame f = true → ∀ st, sel st f = false

namespace AsideRecv

variable {o : Outcome}

theorem drainPausedRecv (ha : AsideRecv view sel) (s : Session) :
    Quiet view sel s s.drainPausedRecv := by
  unfold Session.drainPausedRecv
  split
  · split
    · exact .refl s
    · refine ⟨(ha.deliver _ _).trans (ha.queue s _ _), ?_, id⟩
      rw [List.filter_cons, List.filter_cons, ha.recv rfl, ha.recv rfl]
      rfl
  · exact .refl s

theorem resume (ha : AsideRecv view sel) (s : Session) :
    Quiet view sel s ((s.setRecvPaused false).drainPausedRecv.andThen [.code .registerRecv]) :=
  ((ha.drainPausedRecv _).andThen (ha.filter_eq_nil rfl)).after (ha.paused s false) rfl

theorem backpressureRaised (ha : AsideRecv view sel) (s : Session) (o : Outcome) :
    Quiet view sel s (s.backpressureRaised o) := by
  have hp : view s.pauseOnBackpressure = view s := by
    unfold Session.pauseOnBackpressure
    split
    · exact ha.paused s true
    · rfl
  unfold Session.backpressureRaised
  refine Quiet.after (t := s.pauseOnBackpressure) ?_ hp (by simp)
  dsimp only
  split
  · exact (Session.control_disconnectOnOwner _ o (by simp)).quiet ha.toAside
  · exact .refl _

theorem queuePausedRecv (ha : AsideRecv view sel) {data : Bytes}
    (h : s.queuePausedRecv data = some t) : view t = view s ∧ t.state = s.state := by
  unfold Session.queuePausedRecv at h
  split at h
  · cases h; exact ⟨rfl, rfl⟩
  · dsimp only at h
    split at h
    · cases h
    · cases h; exact ⟨ha.queue s _ _, rfl⟩

theorem onRecv (ha : AsideRecv view sel) (s : Session) (o : Outcome) (ev : OpId) (cqe : Cqe) :
    Quiet view sel s (s.onRecv o ev cqe) := by
  have tail : ∀ st, ([.code (.onRecvTail cqe.res cqe.more),
      .code (.dispatched ev (if cqe.more then .kPending else .kComplete))] :
      List SFrame).filter (sel st) = [] := ha.filter_eq_nil rfl
  unfold Session.onRecv
  dsimp only
  refine Quiet.after (t := s.endRecv cqe.more) ?_ (ha.data (by simp)) (by simp)
  generalize s.endRecv cqe.more = t
  split
  · refine Quiet.after (t := t.touchActivity o) ?_ (ha.data rfl) rfl
    split
    · split
      · next h =>
        obtain ⟨h1, h2⟩ := ha.queuePausedRecv h
        exact ⟨h1, tail _, fun h => h2 ▸ h⟩
      · exact ((Session.control_disconnectOnOwner _ o (by simp)).quiet ha.toAside).andThen tail
    · refine ⟨ha.deliver _ _, ?_, id⟩
      rw [List.filter_cons, ha.recv rfl]
      exact tail _
  · exact ⟨rfl, tail _, id⟩

theorem exec (ha : AsideRecv view sel) (s : Session) (o : Outcome) {i : Instr}
    (hs : isSendFrame (.code i) = false) (hr : isReturnFrame (.code i) = false) :
    Quiet view sel s (Session.exec o s i) := by
  cases i with
  | backpressureRaised => exact ha.backpressureRaised s o
  | backpressureCleared =>
    simp only [Session.exec, Session.backpressureCleared]
    split
    · exact ha.resume s
    · exact .refl s
  | drainPausedRecv => exact ha.drainPausedRecv s
  | registerSend | sendBatch | onSendDrained | onSendTail => cases hs
  | returnSend => cases hr
  | _ => exact ha.toAside.exec s o rfl nofun nofun

theorem call (ha : AsideRecv view sel) (s : Session) (o : Outcome) {a : Api}
    (hb : a = .disconnectAfterFlush ∨ a = .endAppIo → FlushBlind view)
    (hs : ∀ buf, a ≠ .send buf) : Quiet view sel s (Session.call o s a) := by
  by_cases hp : a = .pauseRecv
  · subst hp
    simp only [Session.call, Session.pauseRecv]
    split
    · exact .refl s
    · exact ⟨ha.paused s true, rfl, id⟩
  · by_cases hr : a = .resumeRecv
    · subst hr
      simp only [Session.call, Session.resumeRecv]
      split
      · exact .refl s
      · exact ha.resume s
    · exact ha.toAside.call s o hb hs hp hr

/-- A recv completion that leaves the view alone when it is taken from the ring. -/
theorem completeRecv (ha : AsideRecv view sel) (s : Session) (o : Outcome) (cqe : Cqe) {id : OpId}
    (hv : view (s.retire id) = view s) : Quiet view sel s (s.complete o cqe (.recv id)) := by
  refine (ha.onRecv _ o _ cqe).after ((ha.received _ _).trans ?_) (Session.state_retireRecv s _ _)
  unfold Session.retireRecv
  split
  · rfl
  · exact hv

end AsideRecv

/-! ## Views that ignore the send side too -/

structure AsideSend (view : Session → α) (sel : SessionState → SFrame → Bool) : Prop
    extends Aside view sel where
  sendQueue : ∀ (s : Session) (q : SendQueue), view (s.setSendQueue q) = view s
  active : ∀ (s : Session) (ev : Option OpId), view (s.setActiveSendEv ev) = view s
  prep : ∀ (s : Session) (op : SendOp), view (s.prep (.send op)) = view s
  retire : ∀ (s : Session) (id : OpId), view (s.retire id) = view s
  send : ∀ {f : SFrame}, isSendFrame f = true → ∀ st, sel st f = false

namespace AsideSend

variable {o : Outcome}

theorem sendBatch (ha : AsideSend view sel) (s : Session) (o : Outcome) (bufs : List SendBuffer) :
    Quiet view sel s (s.sendBatch o bufs) := by
  unfold Session.sendBatch
  split
  · exact .refl s
  · split
    · exact .refl s
    · split
      · exact (Session.control_disconnectOnOwner s o (by simp)).quiet ha.toAside
      · unfold Session.sendInFlightBatch
        split
        · exact ha.same rfl rfl rfl
        · dsimp only
          split
          · exact ((Session.control_disconnectOnOwner _ o (by simp)).quiet ha.toAside).after
              (ha.data (by simp)) (by simp)
          · exact ⟨(ha.active _ _).trans ((ha.prep _ _).trans (ha.data rfl)), rfl, id⟩

/-- The batch drained from the queue waits for the callbacks. -/
theorem drained (ha : AsideSend view sel) (s : Session) (o : Outcome) (q : SendQueue)
    (bufs : List SendBuffer) :
    Quiet view sel s
      (((s.setSendQueue q).updateBackpressure o).andThen [.code (.sendBatch bufs)]) :=
  ((ha.updateBackpressure _ o).andThen (fun st => by rw [List.filter_cons, ha.send rfl]; rfl)).after
    (ha.sendQueue s q) rfl

theorem registerSend (ha : AsideSend view sel) (s : Session) (o : Outcome) :
    Quiet view sel s (s.registerSend o) := by
  unfold Session.registerSend
  split
  · exact .refl s
  · split
    · exact .refl s
    · dsimp only
      split
      · exact ⟨ha.sendQueue s _, rfl, id⟩
      · exact ha.drained s o _ _

theorem onSendTail (ha : AsideSend view sel) (hb : FlushBlind view) (s : Session) (o : Outcome) :
    Quiet view sel s (s.onSendTail o) := by
  unfold Session.onSendTail
  split
  · exact .refl s
  · dsimp only
    split
    · exact ((Session.closing_tryDisconnectAfterFlush _ o).quiet ha.toAside hb).after
        (ha.sendQueue s _) rfl
    · exact ha.drained s o _ _

theorem onSend (ha : AsideSend view sel) (s : Session) (o : Outcome) (op : SendOp) (res : Int) :
    Quiet view sel s (s.onSend o op res) := by
  have hclear : view (s.clearActiveSend op.id) = view s := by
    unfold Session.clearActiveSend
    split
    · exact ha.active s none
    · rfl
  unfold Session.onSend
  refine Quiet.after (t := s.clearActiveSend op.id) ?_ hclear (by simp)
  generalize s.clearActiveSend op.id = t
  have hd := ha.view_completePendingIo t
  have hs := Session.state_completePendingIo t
  dsimp only
  split
  · exact ha.close (Session.control_tryRelease _) hd hs rfl
  · split
    · exact ha.close (Session.control_disconnectOnOwner _ o (by simp)) hd hs rfl
    · split
      · split
        · exact ha.close (Session.control_disconnectOnOwner _ o (by simp)) hd hs rfl
        · exact ⟨(ha.active _ _).trans (ha.prep _ _), ha.filter_eq_nil rfl _, id⟩
      · refine ((ha.updateBackpressure _ o).andThen fun st => ?_).after
          ((ha.view_completePendingIo _).trans (ha.sendQueue t _))
          (Session.state_completePendingIo _)
        rw [List.filter_cons, List.filter_cons, ha.control rfl, ha.send rfl]
        exact ha.filter_eq_nil rfl st

theorem exec (ha : AsideSend view sel) (s : Session) (o : Outcome) {i : Instr}
    (hb : i = .onSendDrained ∨ i = .onSendTail → FlushBlind view) (hd : i ≠ .drainPausedRecv)
    (hr : i ≠ .backpressureRaised) (hc : i ≠ .backpressureCleared)
    (hret : isReturnFrame (.code i) = false) : Quiet view sel s (Session.exec o s i) := by
  cases i with
  | registerSend => exact ha.registerSend s o
  | sendBatch bufs => exact ha.sendBatch s o bufs
  | onSendDrained =>
    exact ((Session.closing_tryDisconnectAfterFlush s o).quiet ha.toAside (hb (.inl rfl))).andThen
      (fun st => by rw [List.filter_cons, ha.send rfl]; rfl)
  | onSendTail => exact ha.onSendTail (hb (.inr rfl)) s o
  | drainPausedRecv => exact absurd rfl hd
  | returnSend => cases hret
  | _ => exact ha.toAside.exec s o rfl hr hc

/-- A send completion, for a view that does not show the bytes sent. -/
theorem completeSend (ha : AsideSend view sel) (s : Session) (o : Outcome) (cqe : Cqe)
    (op : SendOp) (hv : ∀ (s : Session) (data : Bytes), view (s.recordSent data) = view s) :
    Quiet view sel s (s.complete o cqe (.send op)) :=
  (ha.onSend _ o op cqe.res).after ((hv _ _).trans (ha.retire s op.id)) rfl

end AsideSend

end IouringRuntime
