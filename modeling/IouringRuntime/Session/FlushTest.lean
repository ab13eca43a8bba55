import IouringRuntime.Session.Outline
import IouringRuntime.Session.Quiet

/-!
# The flush test

`TryDisconnectAfterFlush` closes the session once a close was asked for and
nothing is left to send. It runs with the request, when application work ends
and after each completed send. `Loaded` says that something is queued, in
flight, or drained from the queue and not yet in flight; an open session stays
loaded until a send completes. What the test reads apart from the send side
(`intent`) is written by the three calls that are about it and by nothing else.
-/

namespace IouringRuntime

open Reentrant

/-- A batch that has been drained and is not yet in flight. -/
def isBatch : SFrame → Bool
  | .code (.sendBatch bufs) => !bufs.isEmpty
  | _ => false

namespace Session

/-- Something is queued, in flight, or between the two. -/
def Loaded (s : Session) (batch : Prop) : Prop :=
  s.activeSendEv.isSome = true ∨ s.sendQueue.pending ≠ [] ∨ batch

def load (s : Session) : Option OpId × List SendBuffer := (s.activeSendEv, s.sendQueue.pending)

/-- Whether the close was asked for, and the application work begun. -/
def intent (s : Session) : Bool × Nat := (s.disconnectAfterFlush, s.pendingAppIo)

variable {s t : Session} {o : Outcome} {batch batch' : Prop}

theorem Loaded.mono (h : s.Loaded batch) (hl : t.load = s.load) (hb : batch → batch') :
    t.Loaded batch' := by
  obtain ⟨h1, h2⟩ := Prod.mk.inj hl
  rcases h with h | h | h
  · exact .inl (h1 ▸ h)
  · exact .inr (.inl (h2 ▸ h))
  · exact .inr (.inr (hb h))

/-! ## What leaves the intent alone -/

/-- The frames of a completed send, and an `OnDisconnected` of an open session. -/
def isFlushFrame (st : SessionState) : SFrame → Bool
  | .callback .onSocketDrained | .code .onSendDrained => true
  | .callback .onDisconnected => st == .kOpen
  | _ => false

/-- The segment completes no send and says nothing about closing after the flush. -/
abbrev Steady (s : Session) (r : Seg) : Prop := Quiet intent isFlushFrame s r

theorem steady_of_keeps {β : Type} {keep : Data → β} {r : Seg} (h : Keeps keep s r)
    (hi : r.1.intent = s.intent) : Steady s r := by
  refine ⟨hi, ?_, h.isOpen⟩
  rcases h.frames with h | ⟨hc, h⟩ <;> rw [h]
  · rfl
  · simpa [releaseFrames, isFlushFrame] using hc

@[simp] theorem intent_completePendingIo (s : Session) : s.completePendingIo.intent = s.intent := by
  unfold completePendingIo; split <;> rfl

theorem intent_prepCancelRecv (s : Session) (o : Outcome) :
    (s.prepCancelRecv o).intent = s.intent := by
  unfold prepCancelRecv
  split
  · rfl
  · split
    · rfl
    · dsimp only
      split
      · rfl
      · exact intent_completePendingIo _

theorem intent_prepShutdown (s : Session) (o : Outcome) (cause : CloseCause) :
    (s.prepShutdown o cause).intent = s.intent := by
  have hd (t : Session) : t.markDrainingOnOwner.intent = t.intent := by
    unfold markDrainingOnOwner
    split <;> rfl
  unfold prepShutdown
  dsimp only
  split
  · rfl
  · split
    · exact intent_completePendingIo _
    · exact (hd _).trans (intent_prepCancelRecv _ o)

theorem steady_tryRelease (s : Session) : Steady s s.tryRelease := by
  refine steady_of_keeps (control_tryRelease s) ?_
  rcases s.tryRelease_cases with h | ⟨-, -, -, -, h⟩ <;> rw [h]
  rfl

theorem steady_disconnectOnOwner (s : Session) (o : Outcome) (cause : CloseCause) :
    Steady s (s.disconnectOnOwner o cause) := by
  refine steady_of_keeps (closing_disconnectOnOwner s o cause) ?_
  unfold disconnectOnOwner
  split
  · rfl
  · exact (steady_tryRelease _).view.trans (intent_prepShutdown s o cause)

theorem filter_aside {k : List SFrame} (hk : k.all isAsideFrame = true) (st : SessionState) :
    k.filter (isFlushFrame st) = [] := by
  refine List.filter_eq_nil_iff.2 fun f hf => ?_
  have hf := List.all_eq_true.1 hk f hf
  unfold isAsideFrame at hf
  unfold isFlushFrame
  split at hf
  · cases hf
  · cases hf
  · cases hf
  · simp_all

theorem steady_of_outline {r : Seg} (h : Outline isAsideFrame s r) : Steady s r := by
  cases h with
  | stays hr hk =>
    refine ⟨congrArg Prod.snd hr, filter_aside hk _, fun ho => ?_⟩
    exact (congrArg Prod.fst hr).symm.trans ho
  | releases ht hk =>
    exact ((steady_tryRelease _).andThen (filter_aside hk)).after (congrArg Prod.snd ht)
      (congrArg Prod.fst ht)
  | closes o cause ht hk =>
    exact ((steady_disconnectOnOwner _ o cause).andThen (filter_aside hk)).after
      (congrArg Prod.snd ht) (congrArg Prod.fst ht)

theorem steady_tryDisconnectAfterFlush (s : Session) (o : Outcome) :
    Steady s (s.tryDisconnectAfterFlush o) :=
  steady_of_outline (outline_tryDisconnectAfterFlush s)

theorem steady_exec (o : Outcome) (s : Session) (i : Instr) : Steady s (exec o s i) :=
  steady_of_outline (outline_exec s i)

theorem steady_sendOnOwner (s : Session) (o : Outcome) (buf : SendBuffer) :
    Steady s (s.sendOnOwner o buf) :=
  steady_of_outline (outline_sendOnOwner s buf)

/-- The calls other than those that are about closing after the flush. -/
theorem steady_call (o : Outcome) (s : Session) {a : Api} (hf : a ≠ .disconnectAfterFlush)
    (hb : a ≠ .beginAppIo) (he : a ≠ .endAppIo) : Steady s (call o s a) := by
  have h := steady_of_outline (outline_call (o := o) s a)
  cases a with
  | disconnectAfterFlush => exact absurd rfl hf
  | beginAppIo => exact absurd rfl hb
  | endAppIo => exact absurd rfl he
  | _ => exact h

/-! ## The load -/

theorem load_of_unflushed : FlushBlind load :=
  fun h => congrArg (fun d : Data => (d.activeSendEv, d.sendQueue.pending)) h

theorem aside_load : Aside load fun _ => isSendFrame where
  data h := congrArg (fun d : Data => (d.activeSendEv, d.sendQueue.pending)) h
  backpressure _ _ _ := rfl
  control {f} h _ := by
    simp only [isControlFrame, Bool.not_eq_true', Bool.or_eq_false_iff] at h
    exact h.1.1.1
  released _ := rfl

theorem asideRecv_load : AsideRecv load fun _ => isSendFrame where
  toAside := aside_load
  paused _ _ := rfl
  queue _ _ _ := rfl
  deliver _ _ := rfl
  received _ _ := rfl
  recv {f} h _ := by
    cases f with
    | code i => cases i <;> first | rfl | cases h
    | callback c => rfl

/-- The queue has been drained for the next send. -/
theorem loaded_drained {q : SendQueue} {bufs : List SendBuffer} (hne : ¬ bufs.isEmpty = true) :
    (((s.setSendQueue q).updateBackpressure o).andThen [.code (.sendBatch bufs)]).2.any isBatch
      = true := by
  simp [isBatch, hne]

theorem loaded_registerSend (h : s.Loaded batch) (ho : (s.registerSend o).1.state = .kOpen) :
    (s.registerSend o).1.Loaded ((s.registerSend o).2.any isBatch = true ∨ batch) := by
  unfold registerSend at ho ⊢
  split at ho
  · next hc => exact absurd ho (by simpa [canUseOnOwner] using hc)
  · next hc =>
    rw [if_neg hc]
    split
    · exact h.mono rfl .inr
    · dsimp only
      split
      · next he =>
        refine h.mono (congrArg (Prod.mk s.activeSendEv) ?_) .inr
        rw [List.isEmpty_iff, SendQueue.drainInto_eq_nil] at he
        exact congrArg (fun r => r.1.pending) (SendQueue.drainInto_of_nil he _)
      · next he => exact .inr (.inr (.inl (loaded_drained he)))

theorem loaded_sendBatch {bufs : List SendBuffer}
    (h : s.Loaded (isBatch (.code (.sendBatch bufs)) = true ∨ batch))
    (ho : (s.sendBatch o bufs).1.state = .kOpen) : (s.sendBatch o bufs).1.Loaded batch := by
  unfold sendBatch at ho ⊢
  split at ho
  · next hc =>
    rw [if_pos hc]
    have hb : isBatch (.code (.sendBatch bufs)) = false := by
      have hopen : s.canUseOnOwner = true := canUseOnOwner_iff.2 ho
      simpa [isBatch, hopen] using hc
    exact h.mono rfl fun hb' => hb'.resolve_left (by simp [hb])
  · next hc =>
    rw [if_neg hc]
    split at ho
    · next ha =>
      rw [if_pos ha]
      exact .inl ha
    · next ha =>
      rw [if_neg ha]
      split at ho
      · exact (disconnectOnOwner_not_open s o _ ho).elim
      · next hn =>
        rw [if_neg hn]
        unfold sendInFlightBatch at ho ⊢
        split at ho
        · next hc' => exact absurd hc' hc
        · next hc' =>
          rw [if_neg hc']
          dsimp only at ho ⊢
          split at ho
          · exact (disconnectOnOwner_not_open _ o _ ho).elim
          · next hp =>
            rw [if_neg hp]
            exact .inl rfl

/-- A test that leaves the session open found something left to do. -/
theorem tryDisconnectAfterFlush_open (h : (s.tryDisconnectAfterFlush o).1.state = .kOpen) :
    s.tryDisconnectAfterFlush o = (s, []) ∧
      (s.disconnectAfterFlush = true → s.Loaded False ∨ o.hasPendingAppWork = true) := by
  unfold tryDisconnectAfterFlush at h ⊢
  split at h
  · next hc =>
    rw [if_pos hc]
    refine ⟨rfl, fun hf => ?_⟩
    have hopen : s.canUseOnOwner = true := canUseOnOwner_iff.2 h
    simp [hf, hopen] at hc
  · next hc =>
    rw [if_neg hc]
    split at h
    · next hb =>
      rw [if_pos hb]
      refine ⟨rfl, fun _ => ?_⟩
      simp only [Bool.or_eq_true, decide_eq_true_eq, SendQueue.snapshot, ne_eq,
        List.length_eq_zero_iff] at hb
      rcases hb with (hb | hb) | hb
      · exact .inl (.inl hb)
      · exact .inl (.inr (.inl hb))
      · exact .inr hb
    · exact (disconnectOnOwner_not_open s o _ h).elim

theorem loaded_onSendTail (h : s.Loaded batch) (ho : (s.onSendTail o).1.state = .kOpen) :
    (s.onSendTail o).1.Loaded ((s.onSendTail o).2.any isBatch = true ∨ batch) := by
  unfold onSendTail at ho ⊢
  split at ho
  · next ha =>
    rw [if_pos ha]
    exact .inl ha
  · next ha =>
    rw [if_neg ha]
    dsimp only at ho ⊢
    split at ho
    · next he =>
      rw [if_pos he, (tryDisconnectAfterFlush_open ho).1]
      refine h.mono (congrArg (Prod.mk s.activeSendEv) ?_) .inr
      rw [List.isEmpty_iff, SendQueue.drainInto_eq_nil] at he
      exact congrArg (fun r => r.1.pending) (SendQueue.drainInto_of_nil he _)
    · next he =>
      rw [if_neg he]
      exact .inr (.inr (.inl (loaded_drained he)))

/-- Whatever runs, an open session stays loaded. -/
theorem loaded_exec {i : Instr} (h : s.Loaded (isBatch (.code i) = true ∨ batch))
    (ho : (exec o s i).1.state = .kOpen) :
    (exec o s i).1.Loaded ((exec o s i).2.any isBatch = true ∨ batch) := by
  have other (hs : isSendFrame (.code i) = false) (hr : isReturnFrame (.code i) = false)
      (hb : isBatch (.code i) = false) :
      (exec o s i).1.Loaded ((exec o s i).2.any isBatch = true ∨ batch) :=
    h.mono (asideRecv_load.exec s o hs hr).view fun h' => .inr (h'.resolve_left (by simp [hb]))
  cases i with
  | registerSend =>
    exact (loaded_registerSend (h.mono rfl (by simp [isBatch])) ho).mono rfl id
  | sendBatch bufs => exact (loaded_sendBatch h ho).mono rfl .inr
  | onSendDrained =>
    have he := (tryDisconnectAfterFlush_open ho).1
    refine Loaded.mono (s := s) (h.mono rfl (by simp [isBatch])) ?_ .inr
    show load (s.tryDisconnectAfterFlush o).1 = load s
    rw [he]
  | onSendTail => exact loaded_onSendTail (h.mono rfl (by simp [isBatch])) ho
  | returnSend result => exact h.mono rfl fun h' => .inr (h'.resolve_left (by simp [isBatch]))
  | _ => exact other rfl rfl rfl

theorem loaded_call {a : Api} (h : s.Loaded batch) (ha : ∀ buf, a ≠ .send buf) :
    (call o s a).1.Loaded batch :=
  h.mono (asideRecv_load.call s o (fun _ => load_of_unflushed) ha).view id

/-- A `Send` that leaves the session open has queued its buffer. -/
theorem loaded_sendOnOwner {buf : SendBuffer} (ho : (s.sendOnOwner o buf).1.state = .kOpen) :
    (s.sendOnOwner o buf).1.Loaded False := by
  unfold sendOnOwner at ho ⊢
  split at ho
  · next hc => exact absurd ho (by simpa [canUseOnOwner] using hc)
  · next hc =>
    rw [if_neg hc]
    dsimp only at ho ⊢
    split at ho
    · exact (disconnectOnOwner_not_open _ o _ ho).elim
    · next hov =>
      rw [if_neg hov]
      have hload := (aside_load.updateBackpressure
        ((s.setSendQueue (s.sendQueue.push buf).1).accept buf) o).view
      rcases s.sendQueue.push_cases buf with ⟨hp, -⟩ | ⟨-, -, hp, -⟩
      · exact absurd hp hov
      · refine .inr (.inl ?_)
        have hq := (congrArg Prod.snd hload).trans hp
        exact hq.trans_ne (List.append_ne_nil_of_right_ne_nil _ (List.cons_ne_nil _ _))

/-- A completion leaves the session loaded, or it is the end of a send and the
flush test is still to come. -/
inductive Completed (s : Session) (r : Seg) : Prop where
  | steady : Steady s r → (∀ {batch : Prop}, s.Loaded batch → r.1.state = .kOpen →
      r.1.Loaded batch) → Completed s r
  | drained : r.1.intent = s.intent → s.state = .kOpen →
      r.2.filter (isFlushFrame r.1.state) = [.callback .onSocketDrained, .code .onSendDrained] →
      Completed s r

theorem Completed.after {r : Seg} (h : Completed t r) (hi : t.intent = s.intent)
    (ho : t.state = s.state) (hl : t.load = s.load) : Completed s r := by
  cases h with
  | steady hs hk => exact .steady (hs.after hi ho) fun h => hk (h.mono hl id)
  | drained hd hs hf => exact .drained (hd.trans hi) (ho ▸ hs) hf

/-- A segment that leaves the session closed has nothing to keep loaded. -/
theorem Completed.of_closed {r : Seg} (h : Steady s r) (hc : r.1.state ≠ .kOpen) :
    Completed s r :=
  .steady h fun _ ho => absurd ho hc

theorem completed_onSend (s : Session) (o : Outcome) (op : SendOp) (res : Int) :
    Completed s (s.onSend o op res) := by
  have hi : (s.clearActiveSend op.id).intent = s.intent := by
    unfold clearActiveSend
    split <;> rfl
  have hs : (s.clearActiveSend op.id).state = s.state := state_clearActiveSend s op.id
  unfold onSend
  generalize s.clearActiveSend op.id = t at hi hs
  have close (cause : CloseCause) :
      Completed s ((t.completePendingIo.disconnectOnOwner o cause).andThen
        [.code (.dispatched op.id .kComplete)]) := by
    refine .of_closed ?_ (disconnectOnOwner_not_open _ o cause)
    refine ((steady_disconnectOnOwner _ o cause).andThen fun _ => rfl).after ?_ ?_
    · exact (intent_completePendingIo t).trans hi
    · exact (state_completePendingIo t).trans hs
  dsimp only
  split
  · next hc =>
    have hno : t.state ≠ .kOpen := by simpa [canUseOnOwner] using hc
    refine .of_closed ?_ fun h => hno ?_
    · refine ((steady_tryRelease _).andThen fun _ => rfl).after ?_ ?_
      · exact (intent_completePendingIo t).trans hi
      · exact (state_completePendingIo t).trans hs
    · exact (state_completePendingIo t).symm.trans ((steady_tryRelease _).isOpen h)
  · next hc =>
    have ho : t.state = .kOpen := by simpa [canUseOnOwner] using hc
    split
    · exact close _
    · split
      · split
        · exact close _
        · exact .steady ⟨hi, rfl, fun h => hs ▸ h⟩ fun _ _ => .inl rfl
      · have hu := steady_of_outline (outline_updateBackpressure (o := o)
          (t.setSendQueue t.sendQueue.markSent).completePendingIo)
        refine .drained ?_ (hs ▸ ho) ?_
        · exact hu.view.trans ((intent_completePendingIo _).trans hi)
        · rw [Seg.andThen_snd, Seg.andThen_fst, List.filter_append, hu.frames]
          rfl

/-- The completions of a shutdown and of a cancel. -/
theorem completed_control (s : Session) (o : Outcome) (cqe : Cqe) {op : Op}
    (hk : op.kind = .disconnect ∨ op.kind = .cancel) : Completed s (s.complete o cqe op) := by
  have hr : op.kind ≠ .recv := by rcases hk with hk | hk <;> simp [hk]
  have hs : op.kind ≠ .send := by rcases hk with hk | hk <;> simp [hk]
  have hl := (@Aside.complete _ _ _ aside_load s o cqe op rfl hr hs).view
  refine .steady ?_ fun h _ => h.mono hl id
  cases op with
  | recv id => exact absurd rfl hr
  | send op => exact absurd rfl hs
  | disconnect id | cancel id target =>
    exact ((steady_tryRelease _).andThen fun _ => rfl).after (intent_completePendingIo _)
      (state_completePendingIo _)

theorem completed_event {e : OpId × Cqe} {r : Seg} (h : s.event o e = some r) :
    Completed s r := by
  obtain ⟨op, -, -, rfl⟩ := event_cases h
  cases op with
  | recv ev =>
    have hl := (@AsideRecv.completeRecv _ _ _ asideRecv_load s o e.2 ev rfl).view
    have hi : (s.retireRecv ev e.2.more).intent = s.intent := by
      unfold retireRecv
      split <;> rfl
    refine .steady ((steady_of_outline (outline_onRecv _ ev e.2)).after hi (state_retireRecv s ev _)) ?_
    exact fun h _ => h.mono hl id
  | send op => exact (completed_onSend _ o op e.2.res).after rfl rfl rfl
  | disconnect ev => exact completed_control s o e.2 (.inl rfl)
  | cancel ev target => exact completed_control s o e.2 (.inr rfl)

end Session

end IouringRuntime
