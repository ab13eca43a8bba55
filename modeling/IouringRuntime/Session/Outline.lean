import IouringRuntime.Session.Control

/-!
# The outline of a segment

A segment leaves the state and the request to close alone, or tries to close the
session and goes on with more frames; nothing is done before the attempt that
either of the two would show (`Outline`). The walk through the code is made here
once. What follows from it: `TryRelease` is the only function that writes
`kClosed`, and in whatever segment a session becomes `kClosed`, `OnDisconnected`
is what comes next (`Announces`).
-/

namespace IouringRuntime

open Reentrant

/-- The state, whether a close after the flush was asked for, and the application
work begun. -/
def Session.status (s : Session) : SessionState × Bool × Nat :=
  (s.state, s.disconnectAfterFlush, s.pendingAppIo)

/-- Not one of the frames of a completed send or of a release. -/
def isAsideFrame : SFrame → Bool
  | .callback .onSocketDrained | .code .onSendDrained | .callback .onDisconnected => false
  | _ => true

/-- What a segment of a session is, with frames among `ok`. -/
inductive Outline (ok : SFrame → Bool) (s : Session) : Seg → Prop where
  | stays {r : Seg} : r.1.status = s.status → r.2.all ok = true → Outline ok s r
  | releases {t : Session} {k : List SFrame} : t.status = s.status → k.all ok = true →
      Outline ok s (t.tryRelease.andThen k)
  | closes {t : Session} {k : List SFrame} (o : Outcome) (cause : CloseCause) :
      t.status = s.status → k.all ok = true → Outline ok s ((t.disconnectOnOwner o cause).andThen k)

namespace Outline

variable {ok : SFrame → Bool} {s t : Session} {r : Seg}

theorem refl (s : Session) : Outline ok s (s, []) := stays rfl rfl

theorem after (h : Outline ok t r) (hs : t.status = s.status) : Outline ok s r := by
  cases h with
  | stays hr hk => exact .stays (hr.trans hs) hk
  | releases ht hk => exact .releases (ht.trans hs) hk
  | closes o cause ht hk => exact .closes o cause (ht.trans hs) hk

theorem mono {ok' : SFrame → Bool} (h : Outline ok s r) (hok : ∀ f, ok f = true → ok' f = true) :
    Outline ok' s r := by
  have hall {k : List SFrame} (hk : k.all ok = true) : k.all ok' = true :=
    List.all_eq_true.2 fun f hf => hok f (List.all_eq_true.1 hk f hf)
  cases h with
  | stays hr hk => exact .stays hr (hall hk)
  | releases ht hk => exact .releases ht (hall hk)
  | closes o cause ht hk => exact .closes o cause ht (hall hk)

theorem andThen (h : Outline ok s r) {k : List SFrame} (hk : k.all ok = true) :
    Outline ok s (r.andThen k) := by
  have hall {l : List SFrame} (hl : l.all ok = true) : (l ++ k).all ok = true := by
    rw [List.all_append, hl, hk, Bool.and_self]
  have hassoc (q : Seg) (l : List SFrame) : (q.andThen l).andThen k = q.andThen (l ++ k) := by
    simp only [Seg.andThen, List.append_assoc]
  cases h with
  | stays hr hl => exact .stays hr (hall hl)
  | releases ht hl =>
    rw [hassoc]
    exact .releases ht (hall hl)
  | closes o cause ht hl =>
    rw [hassoc]
    exact .closes o cause ht (hall hl)

end Outline

namespace Session

variable {ok : SFrame → Bool} {o : Outcome}

@[simp] theorem status_completePendingIo (s : Session) : s.completePendingIo.status = s.status := by
  unfold completePendingIo
  split <;> rfl

theorem status_completeRecv (s : Session) (more : Bool) :
    (s.completeRecv more).status = s.status := by
  unfold completeRecv
  split
  · rfl
  · exact status_completePendingIo s

theorem status_endRecv (s : Session) (more : Bool) : (s.endRecv more).status = s.status := by
  unfold endRecv
  split <;> rfl

theorem status_clearActiveSend (s : Session) (id : OpId) :
    (s.clearActiveSend id).status = s.status := by
  unfold clearActiveSend
  split <;> rfl

theorem status_pauseOnBackpressure (s : Session) : s.pauseOnBackpressure.status = s.status := by
  unfold pauseOnBackpressure
  split <;> rfl

theorem status_queuePausedRecv {s t : Session} {data : Bytes}
    (h : s.queuePausedRecv data = some t) : t.status = s.status := by
  unfold queuePausedRecv at h
  split at h
  · cases h; rfl
  · dsimp only at h
    split at h
    · cases h
    · cases h; rfl

/-! ## The walk -/

theorem outline_tryRelease (s : Session) : Outline ok s s.tryRelease := by
  have h : Outline ok s (s.tryRelease.andThen []) := .releases rfl rfl
  rwa [Seg.andThen, List.append_nil] at h

theorem outline_disconnectOnOwner (s : Session) (cause : CloseCause) :
    Outline ok s (s.disconnectOnOwner o cause) := by
  have h : Outline ok s ((s.disconnectOnOwner o cause).andThen []) := .closes o cause rfl rfl
  rwa [Seg.andThen, List.append_nil] at h

theorem outline_tryDisconnectAfterFlush (s : Session) :
    Outline ok s (s.tryDisconnectAfterFlush o) := by
  unfold tryDisconnectAfterFlush
  split
  · exact .refl s
  · split
    · exact .refl s
    · exact outline_disconnectOnOwner s _

theorem outline_registerRecv (s : Session) : Outline ok s (s.registerRecv o) := by
  unfold registerRecv
  split
  · exact .refl s
  · split
    · exact .refl s
    · split
      · exact outline_disconnectOnOwner s _
      · dsimp only
        split
        · refine (outline_disconnectOnOwner _ _).after ?_
          exact status_completePendingIo s.newOp.beginPendingIo
        · exact .stays rfl rfl

theorem outline_onRecvTail (s : Session) (res : Int) (more : Bool) :
    Outline ok s (s.onRecvTail o res more) := by
  refine Outline.after (t := s.completeRecv more) ?_ (status_completeRecv s more)
  unfold onRecvTail
  generalize s.completeRecv more = t
  have hregister : Outline ok t (if !t.recvPaused then t.registerRecv o else (t, [])) := by
    split
    · exact outline_registerRecv t
    · exact .refl t
  dsimp only
  split
  · exact outline_tryRelease t
  · split
    · exact outline_disconnectOnOwner t _
    · split
      · exact hregister
      · split
        · exact outline_disconnectOnOwner t _
        · split
          · exact hregister
          · exact .refl t

theorem outline_drainPausedRecv (s : Session) : Outline isAsideFrame s s.drainPausedRecv := by
  unfold drainPausedRecv
  split
  · split
    · exact .refl s
    · exact .stays rfl rfl
  · exact .refl s

theorem outline_resume (s : Session) : Outline isAsideFrame s
    ((s.setRecvPaused false).drainPausedRecv.andThen [.code .registerRecv]) :=
  ((outline_drainPausedRecv (s.setRecvPaused false)).andThen rfl).after rfl

theorem outline_onRecv (s : Session) (id : OpId) (cqe : Cqe) :
    Outline isAsideFrame s (s.onRecv o id cqe) := by
  refine Outline.after (t := s.endRecv cqe.more) ?_ (status_endRecv s cqe.more)
  unfold onRecv
  generalize s.endRecv cqe.more = t
  dsimp only
  split
  · split
    · split
      · next hu => exact .stays ((status_queuePausedRecv hu).trans rfl) rfl
      · exact ((outline_disconnectOnOwner (t.touchActivity o) _).andThen rfl).after rfl
    · exact .stays rfl rfl
  · exact .stays rfl rfl

theorem outline_updateBackpressure (s : Session) :
    Outline isAsideFrame s (s.updateBackpressure o) := by
  unfold updateBackpressure
  dsimp only
  split
  · split
    · exact .refl s
    · exact .stays rfl rfl
  · split
    · exact .refl s
    · exact .stays rfl rfl

theorem outline_backpressureRaised (s : Session) : Outline ok s (s.backpressureRaised o) := by
  refine Outline.after (t := s.pauseOnBackpressure) ?_ (status_pauseOnBackpressure s)
  unfold backpressureRaised
  dsimp only
  split
  · exact outline_disconnectOnOwner _ _
  · exact .refl _

theorem outline_sendBatch (s : Session) (bufs : List SendBuffer) :
    Outline ok s (s.sendBatch o bufs) := by
  unfold sendBatch
  split
  · exact .refl s
  · split
    · exact .refl s
    · split
      · exact outline_disconnectOnOwner s _
      · unfold sendInFlightBatch
        split
        · exact .stays rfl rfl
        · dsimp only
          split
          · refine (outline_disconnectOnOwner _ _).after ?_
            exact status_completePendingIo s.newOp.beginPendingIo
          · exact .stays rfl rfl

/-- The batch drained from the queue waits for the callbacks. -/
theorem outline_drained (s : Session) (q : SendQueue) (bufs : List SendBuffer) :
    Outline isAsideFrame s
      (((s.setSendQueue q).updateBackpressure o).andThen [.code (.sendBatch bufs)]) :=
  ((outline_updateBackpressure (s.setSendQueue q)).andThen rfl).after rfl

theorem outline_registerSend (s : Session) : Outline isAsideFrame s (s.registerSend o) := by
  unfold registerSend
  split
  · exact .refl s
  · split
    · exact .refl s
    · dsimp only
      split
      · exact .stays rfl rfl
      · exact outline_drained s _ _

theorem outline_sendOnOwner (s : Session) (buf : SendBuffer) :
    Outline isAsideFrame s (s.sendOnOwner o buf) := by
  unfold sendOnOwner
  split
  · exact .stays rfl rfl
  · dsimp only
    split
    · exact ((outline_disconnectOnOwner (s.setSendQueue _) _).andThen rfl).after rfl
    · refine ((outline_updateBackpressure ((s.setSendQueue _).accept buf)).andThen ?_).after rfl
      split <;> rfl

theorem outline_onSendTail (s : Session) : Outline isAsideFrame s (s.onSendTail o) := by
  unfold onSendTail
  split
  · exact .refl s
  · dsimp only
    split
    · exact (outline_tryDisconnectAfterFlush (s.setSendQueue _)).after rfl
    · exact outline_drained s _ _

theorem outline_tickRest (s : Session) (now : Nat) : Outline ok s (s.tickRest o now) := by
  unfold tickRest
  split
  · exact outline_disconnectOnOwner s _
  · split
    · exact outline_disconnectOnOwner s _
    · exact .refl s

theorem outline_exec (s : Session) (i : Instr) : Outline isAsideFrame s (exec o s i) := by
  cases i with
  | backpressureRaised => exact outline_backpressureRaised s
  | backpressureCleared =>
    simp only [exec, backpressureCleared]
    split
    · exact outline_resume s
    · exact .refl s
  | drainPausedRecv => exact outline_drainPausedRecv s
  | registerRecv => exact outline_registerRecv s
  | registerSend => exact outline_registerSend s
  | returnSend => exact .stays rfl rfl
  | sendBatch bufs => exact outline_sendBatch s bufs
  | tryRelease => exact outline_tryRelease s
  | release => exact .stays rfl rfl
  | onSendDrained => exact (outline_tryDisconnectAfterFlush s).andThen rfl
  | onSendTail => exact outline_onSendTail s
  | onRecvTail res more => exact outline_onRecvTail s res more
  | tickTail now =>
    simp only [exec]
    split
    · exact .refl s
    · exact outline_tickRest s now
  | dispatched id r => cases r <;> exact .stays rfl rfl

/-- The session a call starts from, with the change of the status made that is
the call's own. -/
def called (s : Session) : Api → Session
  | .disconnectAfterFlush =>
    if s.canUseOnOwner then { s with disconnectAfterFlush := true } else s
  | .beginAppIo => s.beginAppIo
  | .endAppIo => s.completeAppIo
  | _ => s

theorem state_called (s : Session) (a : Api) : (s.called a).state = s.state := by
  cases a with
  | disconnectAfterFlush =>
    simp only [called]
    split <;> rfl
  | endAppIo => exact state_completeAppIo s
  | _ => rfl

theorem outline_call (s : Session) (a : Api) :
    Outline isAsideFrame (s.called a) (call o s a) := by
  cases a with
  | start => exact .stays rfl rfl
  | send buf => exact outline_sendOnOwner s buf
  | disconnect => exact outline_disconnectOnOwner s _
  | disconnectAfterFlush =>
    simp only [call, disconnectAfterFlushOnOwner, called]
    cases s.canUseOnOwner with
    | false => exact .refl s
    | true => exact outline_tryDisconnectAfterFlush _
  | pauseRecv =>
    simp only [call, pauseRecv]
    split
    · exact .refl s
    · exact .stays rfl rfl
  | resumeRecv =>
    simp only [call, resumeRecv]
    split
    · exact .refl s
    · exact outline_resume s
  | beginAppIo => exact .refl _
  | endAppIo => exact (outline_tryDisconnectAfterFlush _).andThen rfl
  | tick now =>
    simp only [call, tick]
    split
    · exact outline_tryRelease s
    · split
      · exact .stays rfl rfl
      · exact outline_tickRest s now

theorem outline_onSend (s : Session) (op : SendOp) (res : Int) :
    Outline (fun _ => true) s (s.onSend o op res) := by
  have hall (k : List SFrame) : k.all (fun _ => true) = true := by simp
  refine Outline.after (t := s.clearActiveSend op.id) ?_ (status_clearActiveSend s op.id)
  unfold onSend
  generalize s.clearActiveSend op.id = t
  have hstatus : t.completePendingIo.status = t.status := status_completePendingIo t
  dsimp only
  split
  · exact ((outline_tryRelease _).andThen (hall _)).after hstatus
  · split
    · exact ((outline_disconnectOnOwner _ _).andThen (hall _)).after hstatus
    · split
      · split
        · exact ((outline_disconnectOnOwner _ _).andThen (hall _)).after hstatus
        · exact .stays rfl (hall _)
      · refine (((outline_updateBackpressure _).mono fun _ _ => rfl).andThen (hall _)).after ?_
        exact status_completePendingIo (t.setSendQueue t.sendQueue.markSent)

theorem outline_event {s : Session} {e : OpId × Cqe} {r : Seg} (h : s.event o e = some r) :
    Outline (fun _ => true) s r := by
  obtain ⟨op, -, -, rfl⟩ := event_cases h
  cases op with
  | recv id =>
    refine ((outline_onRecv _ id e.2).mono fun _ _ => rfl).after ?_
    unfold retireRecv
    split <;> rfl
  | send op => exact (outline_onSend _ op e.2.res).after rfl
  | disconnect id | cancel id _ =>
    exact ((outline_tryRelease _).andThen rfl).after (status_completePendingIo (s.retire id))

end Session

/-! ## How a session becomes closed -/

/-- If the session is `kClosed` after the segment, it was before, or
`OnDisconnected` is called next. -/
def Announces (s : Session) (r : Seg) : Prop :=
  r.1.state = .kClosed → s.state = .kClosed ∨ r.2.head? = some (.callback .onDisconnected)

namespace Announces

variable {s t : Session} {r : Seg}

theorem after (h : Announces t r) (hs : t.state = s.state) : Announces s r :=
  fun hc => (h hc).imp_left hs.symm.trans

theorem andThen (h : Announces s r) (k : List SFrame) : Announces s (r.andThen k) := by
  intro hc
  refine (h hc).imp_right fun hhead => ?_
  rw [Seg.andThen_snd, List.head?_append, hhead]
  rfl

theorem tryRelease (s : Session) : Announces s s.tryRelease := by
  rcases s.tryRelease_cases with h | ⟨-, -, -, -, h⟩ <;> rw [h]
  · exact fun hc => .inl hc
  · exact fun _ => .inr rfl

theorem disconnectOnOwner (s : Session) (o : Outcome) (cause : CloseCause) :
    Announces s (s.disconnectOnOwner o cause) := by
  unfold Session.disconnectOnOwner
  split
  · exact fun hc => .inl hc
  · intro hc
    refine (tryRelease _ hc).imp_left fun h => ?_
    rw [Session.state_prepShutdown] at h
    split at h <;> cases h

end Announces

theorem Outline.announces {ok : SFrame → Bool} {s : Session} {r : Seg} (h : Outline ok s r) :
    Announces s r := by
  cases h with
  | stays hr _ => exact fun hc => .inl ((congrArg Prod.fst hr).symm.trans hc)
  | releases ht _ => exact ((Announces.tryRelease _).andThen _).after (congrArg Prod.fst ht)
  | closes o cause ht _ =>
    exact ((Announces.disconnectOnOwner _ o cause).andThen _).after (congrArg Prod.fst ht)

end IouringRuntime
