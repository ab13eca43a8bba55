import IouringRuntime.Session.RecvQueue

/-!
# The armed recv

A started session that reads has exactly one multishot recv in flight, the one
`active_recv_ev_` points to. The completion that ends it, `ResumeRecv` and the
end of backpressure all leave a frame on the stack that arms the next one
(`isRearmFrame`), so at top level none is missing; `RegisterRecv` never arms a
second one.

`Idle` goes once through the code that has nothing to do with this. It also
records that the backpressure flag changes only under a frame of
`UpdateBackpressure`.
-/

namespace IouringRuntime

open Reentrant

/-- The recv operations among the operations in flight. -/
def recvIds (ops : List Op) : List OpId :=
  ops.filterMap fun
    | .recv id => some id
    | _ => none

@[simp] theorem recvIds_append (xs ys : List Op) : recvIds (xs ++ ys) = recvIds xs ++ recvIds ys :=
  List.filterMap_append

/-- The frames that arm a recv unless there is one or receiving is paused. -/
def isRearmFrame : SFrame → Bool
  | .code .registerRecv | .code (.onRecvTail _ false) => true
  | _ => false

/-- `UpdateBackpressure` after its callback. -/
def isBackpressureFrame : SFrame → Bool
  | .code .backpressureRaised | .code .backpressureCleared => true
  | _ => false

/-- What decides whether the session reads. -/
structure ReadView where
  recvs : List OpId
  active : Option OpId
  paused : Bool
  pausesOnBackpressure : Bool

def Session.readView (s : Session) : ReadView where
  recvs := recvIds s.inFlight
  active := s.activeRecvEv
  paused := s.recvPaused
  pausesOnBackpressure := s.cfg.pauseRecvOnBackpressure

/-! ## Code that does not touch reading -/

/-- The backpressure flag changes only when `UpdateBackpressure` has more to do. -/
structure Idle (s : Session) (r : Seg) : Prop where
  isOpen : r.1.state = .kOpen → s.state = .kOpen
  view : r.1.state = .kOpen → r.1.readView = s.readView
  flag : r.1.state = .kOpen → r.1.backpressureActive = s.backpressureActive ∨
    r.2.any isBackpressureFrame = true

namespace Idle

variable {s t : Session} {r : Seg}

theorem of_closed (h : r.1.state ≠ .kOpen) : Idle s r :=
  ⟨fun h' => absurd h' h, fun h' => absurd h' h, fun h' => absurd h' h⟩

/-- The segment leaves the state, the view and the flag alone. -/
theorem same (hs : r.1.state = s.state) (hv : r.1.readView = s.readView)
    (hf : r.1.backpressureActive = s.backpressureActive) : Idle s r :=
  ⟨fun h => hs ▸ h, fun _ => hv, fun _ => .inl hf⟩

theorem refl (s : Session) : Idle s (s, []) := .same rfl rfl rfl

/-- Run the segment after an update that touches none of this. -/
theorem after (h : Idle t r) (hs : t.state = s.state) (hv : t.readView = s.readView)
    (hf : t.backpressureActive = s.backpressureActive) : Idle s r :=
  ⟨fun h' => hs ▸ h.isOpen h', fun h' => (h.view h').trans hv, fun h' => hf ▸ h.flag h'⟩

theorem andThen (h : Idle s r) (k : List SFrame) : Idle s (r.andThen k) := by
  refine ⟨h.isOpen, h.view, fun h' => (h.flag h').imp id fun hb => ?_⟩
  rw [Seg.andThen_snd, List.any_append, hb, Bool.true_or]

end Idle

namespace Session

variable {s : Session}

theorem idle_tryRelease (s : Session) : Idle s s.tryRelease := by
  rcases s.tryRelease_cases with h | ⟨-, -, -, -, h⟩
  · rw [h]
    exact .refl s
  · rw [h]
    exact .of_closed nofun

theorem idle_disconnectOnOwner (t s : Session) (o : Outcome) (cause : CloseCause) :
    Idle t (s.disconnectOnOwner o cause) :=
  .of_closed (disconnectOnOwner_not_open s o cause)

theorem idle_tryDisconnectAfterFlush (s : Session) (o : Outcome) :
    Idle s (s.tryDisconnectAfterFlush o) := by
  unfold tryDisconnectAfterFlush
  split
  · exact .refl s
  · split
    · exact .refl s
    · exact idle_disconnectOnOwner s s o _

theorem idle_updateBackpressure (s : Session) (o : Outcome) :
    Idle s (s.updateBackpressure o) := by
  unfold updateBackpressure
  dsimp only
  split
  · split
    · exact .refl s
    · exact ⟨id, fun _ => rfl, fun _ => .inr rfl⟩
  · split
    · exact .refl s
    · exact ⟨id, fun _ => rfl, fun _ => .inr rfl⟩

theorem readView_completePendingIo (s : Session) : s.completePendingIo.readView = s.readView := by
  unfold completePendingIo
  split <;> rfl

theorem flag_completePendingIo (s : Session) :
    s.completePendingIo.backpressureActive = s.backpressureActive := by
  unfold completePendingIo
  split <;> rfl

/-- A send in flight is not a recv. -/
theorem readView_prepSend (s : Session) (op : SendOp) (ev : Option OpId) :
    ((s.prep (.send op)).setActiveSendEv ev).readView = s.readView := by
  have : recvIds (s.inFlight ++ [.send op]) = recvIds s.inFlight := by
    rw [recvIds_append]
    exact List.append_nil _
  simp only [readView, prep, setActiveSendEv, this]

theorem idle_sendBatch (s : Session) (o : Outcome) (bufs : List SendBuffer) :
    Idle s (s.sendBatch o bufs) := by
  unfold sendBatch
  split
  · exact .refl s
  · split
    · exact .refl s
    · split
      · exact idle_disconnectOnOwner s s o _
      · unfold sendInFlightBatch
        split
        · exact .same rfl rfl rfl
        · dsimp only
          split
          · exact idle_disconnectOnOwner s _ o _
          · exact .same rfl (readView_prepSend _ _ _) rfl

/-- `UpdateBackpressure` after a change of the queue. -/
theorem idle_drained (s : Session) (o : Outcome) (q : SendQueue) (k : List SFrame) :
    Idle s (((s.setSendQueue q).updateBackpressure o).andThen k) := by
  refine Idle.andThen ?_ k
  exact (idle_updateBackpressure _ o).after rfl rfl rfl

theorem idle_registerSend (s : Session) (o : Outcome) : Idle s (s.registerSend o) := by
  unfold registerSend
  split
  · exact .refl s
  · split
    · exact .refl s
    · dsimp only
      split
      · exact .same rfl rfl rfl
      · exact idle_drained s o _ _

theorem idle_sendOnOwner (s : Session) (o : Outcome) (buf : SendBuffer) :
    Idle s (s.sendOnOwner o buf) := by
  unfold sendOnOwner
  split
  · exact .same rfl rfl rfl
  · dsimp only
    split
    · exact (idle_disconnectOnOwner s _ o _).andThen _
    · refine Idle.andThen ?_ _
      exact (idle_updateBackpressure _ o).after rfl rfl rfl

theorem idle_onSendTail (s : Session) (o : Outcome) : Idle s (s.onSendTail o) := by
  unfold onSendTail
  split
  · exact .refl s
  · dsimp only
    split
    · exact (idle_tryDisconnectAfterFlush _ o).after rfl rfl rfl
    · exact idle_drained s o _ _

theorem idle_onSend (s : Session) (o : Outcome) (op : SendOp) (res : Int) :
    Idle s (s.onSend o op res) := by
  have hclear : (s.clearActiveSend op.id).readView = s.readView ∧
      (s.clearActiveSend op.id).backpressureActive = s.backpressureActive := by
    unfold clearActiveSend
    split <;> exact ⟨rfl, rfl⟩
  unfold onSend
  refine Idle.after (t := s.clearActiveSend op.id) ?_ (by simp) hclear.1 hclear.2
  generalize s.clearActiveSend op.id = t
  dsimp only
  split
  · exact ((idle_tryRelease _).after (state_completePendingIo t) (readView_completePendingIo t)
      (flag_completePendingIo t)).andThen _
  · split
    · exact (idle_disconnectOnOwner t _ o _).andThen _
    · split
      · split
        · exact (idle_disconnectOnOwner t _ o _).andThen _
        · exact .same rfl (readView_prepSend t _ _) rfl
      · refine Idle.andThen ?_ _
        exact (idle_updateBackpressure _ o).after (state_completePendingIo _)
          (readView_completePendingIo _) (flag_completePendingIo _)

theorem idle_tickRest (s : Session) (o : Outcome) (now : Nat) : Idle s (s.tickRest o now) := by
  unfold tickRest
  split
  · exact idle_disconnectOnOwner s s o _
  · split
    · exact idle_disconnectOnOwner s s o _
    · exact .refl s

theorem idle_drainPausedRecv (s : Session) : Idle s s.drainPausedRecv := by
  unfold drainPausedRecv
  split
  · split
    · exact .refl s
    · exact .same rfl rfl rfl
  · exact .refl s

/-- The instructions that arm a recv or move the pause flag. -/
def isReadInstr : Instr → Bool
  | .registerRecv | .onRecvTail _ _ | .backpressureRaised | .backpressureCleared => true
  | _ => false

theorem idle_exec (o : Outcome) (s : Session) {i : Instr} (hi : isReadInstr i = false) :
    Idle s (exec o s i) := by
  cases i with
  | registerRecv | onRecvTail | backpressureRaised | backpressureCleared => cases hi
  | drainPausedRecv => exact idle_drainPausedRecv s
  | registerSend => exact idle_registerSend s o
  | returnSend => exact .same rfl rfl rfl
  | sendBatch bufs => exact idle_sendBatch s o bufs
  | tryRelease => exact idle_tryRelease s
  | release => exact .same rfl rfl rfl
  | onSendDrained => exact (idle_tryDisconnectAfterFlush s o).andThen _
  | onSendTail => exact idle_onSendTail s o
  | tickTail now =>
    simp only [exec]
    split
    · exact .refl s
    · exact idle_tickRest s o now
  | dispatched id r => cases r <;> exact .same rfl rfl rfl

theorem idle_call (o : Outcome) (s : Session) {a : Api} (hp : a ≠ .pauseRecv)
    (hr : a ≠ .resumeRecv) : Idle s (call o s a) := by
  cases a with
  | pauseRecv => exact absurd rfl hp
  | resumeRecv => exact absurd rfl hr
  | start => exact .same rfl rfl rfl
  | send buf => exact idle_sendOnOwner s o buf
  | disconnect => exact idle_disconnectOnOwner s s o _
  | disconnectAfterFlush =>
    simp only [call, disconnectAfterFlushOnOwner]
    split
    · exact .refl s
    · exact (idle_tryDisconnectAfterFlush _ o).after rfl rfl rfl
  | beginAppIo => exact .same rfl rfl rfl
  | endAppIo =>
    have hc : s.completeAppIo.readView = s.readView ∧
        s.completeAppIo.backpressureActive = s.backpressureActive := by
      unfold completeAppIo
      split <;> exact ⟨rfl, rfl⟩
    exact ((idle_tryDisconnectAfterFlush _ o).after (state_completeAppIo s) hc.1 hc.2).andThen _
  | tick now =>
    simp only [call, tick]
    split
    · exact idle_tryRelease s
    · split
      · exact .same rfl rfl rfl
      · exact idle_tickRest s o now

theorem readView_retire {id : OpId} {op : Op} (h : s.inFlight.find? (·.id == id) = some op)
    (hk : op.kind ≠ .recv) : (s.retire id).readView = s.readView := by
  obtain ⟨-, xs, ys, hs, hr⟩ := retire_split h
  have : recvIds (s.retire id).inFlight = recvIds s.inFlight := by
    rw [hs, hr]
    cases op <;> simp_all [recvIds, Op.kind]
  simp only [readView, this]
  rfl

theorem idle_complete (o : Outcome) {id : OpId} {op : Op} (cqe : Cqe)
    (h : s.inFlight.find? (·.id == id) = some op) (hk : op.kind ≠ .recv) :
    Idle s (s.complete o cqe op) := by
  have hid := (retire_split h).1
  have hv := readView_retire h hk
  have hclose : Idle s ((s.retire id).completePendingIo.tryRelease.andThen
      [.code (.dispatched id .kComplete)]) := by
    refine Idle.andThen ?_ _
    exact (idle_tryRelease _).after (state_completePendingIo _)
      ((readView_completePendingIo _).trans hv) (flag_completePendingIo _)
  cases op with
  | recv id => exact absurd rfl hk
  | send op =>
    cases hid
    exact (idle_onSend _ o op cqe.res).after rfl hv rfl
  | disconnect id' =>
    cases hid
    exact hclose
  | cancel id' target =>
    cases hid
    exact hclose

/-! ## One recv, or a frame that arms it -/

/-- In an open session the recv in flight is the active one; once `started`,
there is one unless reading is paused, or a frame on the stack arms it. -/
structure Armed (started : Prop) (s : Session) (st : List SFrame) : Prop where
  active : s.state = .kOpen → recvIds s.inFlight = s.activeRecvEv.toList
  rearm : started → s.state = .kOpen → s.recvPaused = false →
    s.activeRecvEv.isSome = true ∨ st.any isRearmFrame = true

variable {started : Prop}

/-- The active recv is the one in flight, and there is one unless reading is paused. -/
def Reading (s : Session) : Prop :=
  s.state = .kOpen → recvIds s.inFlight = s.activeRecvEv.toList ∧
    (s.recvPaused = false → s.activeRecvEv.isSome = true)

theorem Reading.armed (h : s.Reading) (st : List SFrame) : Armed started s st :=
  ⟨fun ho => (h ho).1, fun _ ho hp => .inl ((h ho).2 hp)⟩

theorem Armed.closed {st : List SFrame} (h : s.state ≠ .kOpen) : Armed started s st :=
  ⟨fun ho => absurd ho h, fun _ ho => absurd ho h⟩

/-- An idle segment runs above `rest`, which is all that was left to arm a recv. -/
theorem Armed.idle {r : Seg} {st rest : List SFrame} (h : Armed started s st) (hr : Idle s r)
    (hst : st.any isRearmFrame = true → rest.any isRearmFrame = true) :
    Armed started r.1 (r.2 ++ rest) := by
  have hview : r.1.state = .kOpen → recvIds r.1.inFlight = recvIds s.inFlight ∧
      r.1.activeRecvEv = s.activeRecvEv ∧ r.1.recvPaused = s.recvPaused := by
    intro ho
    have hv := hr.view ho
    simp only [readView, ReadView.mk.injEq] at hv
    exact ⟨hv.1, hv.2.1, hv.2.2.1⟩
  refine ⟨fun ho => ?_, fun hs ho hp => ?_⟩
  · obtain ⟨hids, hact, -⟩ := hview ho
    rw [hids, hact]
    exact h.active (hr.isOpen ho)
  · obtain ⟨-, hact, hpaused⟩ := hview ho
    rw [hact]
    refine (h.rearm hs (hr.isOpen ho) (hpaused ▸ hp)).imp id fun hf => ?_
    rw [List.any_append, hst hf, Bool.or_true]

theorem reading_registerRecv (s : Session) (o : Outcome)
    (h : s.state = .kOpen → recvIds s.inFlight = s.activeRecvEv.toList) :
    (s.registerRecv o).1.Reading := by
  unfold registerRecv
  split
  · next hc =>
    intro ho
    have : s.recvPaused = true := by simpa [canUseOnOwner, show s.state = .kOpen from ho] using hc
    exact ⟨h ho, fun hp => by simp_all⟩
  · split
    · next hsome => exact fun ho => ⟨h ho, fun _ => hsome⟩
    · next hnone =>
      split
      · exact fun ho => absurd ho (disconnectOnOwner_not_open s o _)
      · dsimp only
        split
        · exact fun ho => absurd ho (disconnectOnOwner_not_open _ o _)
        · intro ho
          have hids : recvIds s.inFlight = [] := by
            rw [h ho, Option.not_isSome_iff_eq_none.1 hnone]
            rfl
          refine ⟨?_, fun _ => rfl⟩
          show recvIds (s.inFlight ++ [.recv s.nextOp]) = [s.nextOp]
          rw [recvIds_append, hids]
          rfl

theorem idle_completeRecv (s : Session) (more : Bool) : Idle s (s.completeRecv more, []) := by
  unfold completeRecv
  split
  · exact .refl s
  · exact .same (state_completePendingIo s) (readView_completePendingIo s)
      (flag_completePendingIo s)

/-- A frame that arms nothing is popped. -/
theorem Armed.pop {f : SFrame} {st : List SFrame} (h : Armed started s (f :: st))
    (hf : isRearmFrame f = false) : Armed started s st := by
  refine ⟨h.active, fun hs ho hp => (h.rearm hs ho hp).imp id fun hany => ?_⟩
  rwa [List.any_cons, hf, Bool.false_or] at hany

/-- After the last completion of a recv the next one is armed. -/
theorem armed_onRecvTail (s : Session) (o : Outcome) (res : Int) (more : Bool)
    (rest : List SFrame) (h : Armed started s (.code (.onRecvTail res more) :: rest)) :
    Armed started (s.onRecvTail o res more).1 ((s.onRecvTail o res more).2 ++ rest) := by
  have ht : Armed started (s.completeRecv more) (.code (.onRecvTail res more) :: rest) :=
    h.idle (idle_completeRecv s more) id
  unfold onRecvTail
  dsimp only
  generalize s.completeRecv more = t at ht ⊢
  have hregister : (if !t.recvPaused then t.registerRecv o else (t, [])).1.Reading := by
    split
    · exact reading_registerRecv t o ht.active
    · next hp => exact fun ho => ⟨ht.active ho, fun hf => absurd hf (by simpa using hp)⟩
  split
  · next hc =>
    refine .closed fun ho => ?_
    rw [canUseOnOwner, (idle_tryRelease t).isOpen ho] at hc
    cases hc
  · split
    · exact .closed (disconnectOnOwner_not_open t o _)
    · split
      · exact hregister.armed _
      · split
        · exact .closed (disconnectOnOwner_not_open t o _)
        · split
          · exact hregister.armed _
          · next hm =>
            refine ht.pop ?_
            cases more
            · exact absurd rfl hm
            · rfl

/-- Reading pauses: no recv has to be armed. -/
theorem Armed.pause {st st' : List SFrame} (h : Armed started s st) :
    Armed started (s.setRecvPaused true) st' :=
  ⟨h.active, fun _ _ hp => Bool.noConfusion hp⟩

/-- Reading resumes: what waits is delivered and then a recv is armed. -/
theorem armed_resume (s : Session) (st : List SFrame)
    (h : s.state = .kOpen → recvIds s.inFlight = s.activeRecvEv.toList) :
    Armed started ((s.setRecvPaused false).drainPausedRecv.andThen [.code .registerRecv]).1
      (((s.setRecvPaused false).drainPausedRecv.andThen [.code .registerRecv]).2 ++ st) := by
  have ha : Armed started (s.setRecvPaused false) (.code .registerRecv :: st) := ⟨h, fun _ _ _ => .inr rfl⟩
  have hr := ha.idle (idle_drainPausedRecv _) id
  rw [Seg.andThen_snd, List.append_assoc]
  exact hr

theorem armed_exec (o : Outcome) (s : Session) (i : Instr) (rest : List SFrame)
    (h : Armed started s (.code i :: rest)) :
    Armed started (exec o s i).1 ((exec o s i).2 ++ rest) := by
  cases hi : isReadInstr i with
  | false =>
    refine h.idle (idle_exec o s hi) fun hany => ?_
    rw [List.any_cons] at hany
    cases i <;> first | exact hany | cases hi
  | true =>
    cases i with
    | registerRecv => exact (reading_registerRecv s o h.active).armed _
    | onRecvTail res more => exact armed_onRecvTail s o res more rest h
    | backpressureRaised =>
      simp only [exec, backpressureRaised]
      split
      · exact .closed (disconnectOnOwner_not_open _ o _)
      · unfold pauseOnBackpressure
        split
        · exact h.pause
        · exact h.pop rfl
    | backpressureCleared =>
      simp only [exec, backpressureCleared]
      split
      · exact armed_resume s rest h.active
      · exact h.pop rfl
    | _ => cases hi

theorem armed_call (o : Outcome) (s : Session) (a : Api) (st : List SFrame) (h : Armed started s st) :
    Armed started (call o s a).1 ((call o s a).2 ++ st) := by
  by_cases hp : a = .pauseRecv
  · subst hp
    simp only [call, pauseRecv]
    split
    · exact h
    · exact h.pause
  · by_cases hr : a = .resumeRecv
    · subst hr
      simp only [call, resumeRecv]
      split
      · exact h
      · exact armed_resume s st h.active
    · exact h.idle (idle_call o s hp hr) id

/-- The last completion of the active recv leaves none in flight. -/
theorem recvIds_retire {id : OpId} (h : s.inFlight.find? (·.id == id) = some (.recv id))
    (ha : recvIds s.inFlight = s.activeRecvEv.toList) : recvIds (s.retire id).inFlight = [] := by
  obtain ⟨-, xs, ys, hs, hr⟩ := retire_split h
  rw [hr, recvIds_append]
  have hlen : (recvIds xs ++ id :: recvIds ys).length ≤ 1 := by
    have : recvIds s.inFlight = recvIds xs ++ id :: recvIds ys := by
      rw [hs, recvIds_append]
      rfl
    rw [← this, ha]
    exact Option.length_toList_le
  rw [List.length_append, List.length_cons] at hlen
  rw [List.eq_nil_of_length_eq_zero (by omega : (recvIds xs).length = 0),
    List.eq_nil_of_length_eq_zero (by omega : (recvIds ys).length = 0)]
  rfl

/-- The frames `OnRecv` leaves end with the frame that arms the next recv. -/
theorem rearm_onRecv (s : Session) (o : Outcome) (id : OpId) {cqe : Cqe} (hm : cqe.more = false) :
    (s.onRecv o id cqe).2.any isRearmFrame = true := by
  unfold onRecv
  rw [hm]
  dsimp only
  split
  · split
    · split
      · rfl
      · rw [Seg.andThen_snd, List.any_append]
        exact Bool.or_true _
    · rfl
  · rfl

/-- Handing on or queueing the bytes of a completion. -/
theorem idle_onRecv (s : Session) (o : Outcome) (id : OpId) (cqe : Cqe) :
    Idle (s.endRecv cqe.more) (s.onRecv o id cqe) := by
  unfold onRecv
  dsimp only
  generalize s.endRecv cqe.more = t
  split
  · split
    · split
      · next t' hq =>
        unfold queuePausedRecv at hq
        split at hq
        · cases hq
          exact .same rfl rfl rfl
        · dsimp only at hq
          split at hq
          · cases hq
          · cases hq
            exact .same rfl rfl rfl
      · exact (idle_disconnectOnOwner t _ o _).andThen _
    · exact .same rfl rfl rfl
  · exact .same rfl rfl rfl

theorem armed_recv (o : Outcome) {id : OpId} (cqe : Cqe) (h : Armed started s [])
    (hop : s.inFlight.find? (·.id == id) = some (.recv id)) :
    Armed started (s.complete o cqe (.recv id)).1 (s.complete o cqe (.recv id)).2 := by
  have hidle := idle_onRecv ((s.retireRecv id cqe.more).recordReceived cqe.view) o id cqe
  simp only [complete]
  cases hm : cqe.more with
  | true =>
    rw [hm] at hidle
    rw [← List.append_nil (onRecv _ o id cqe).2]
    exact h.idle (hidle.after rfl rfl rfl) fun hf => hf
  | false =>
    rw [hm] at hidle
    refine ⟨fun ho => ?_, fun _ _ _ => .inr (rearm_onRecv _ o id hm)⟩
    have hv := hidle.view ho
    simp only [readView, ReadView.mk.injEq] at hv
    rw [hv.1, hv.2.1]
    exact recvIds_retire hop (h.active (hidle.isOpen ho))

theorem armed_preserved : machine.Preserved (Armed started) where
  exec := armed_exec
  call := fun o s a st _ => armed_call o s a st
  ret := by
    intro s k b rest h
    have hk := h.pop (f := .callback k) rfl
    cases k <;> exact ⟨hk.active, hk.rearm⟩
  event := by
    intro o s e r he h
    obtain ⟨op, hop, -, rfl⟩ := event_cases he
    by_cases hk : op.kind = .recv
    · cases op with
      | recv id =>
        obtain ⟨rfl, -⟩ := retire_split hop
        exact armed_recv o e.2 h hop
      | _ => cases hk
    · rw [← List.append_nil (s.complete o e.2 op).2]
      exact h.idle (idle_complete o e.2 hop hk) id

/-- `Start` leaves the frame that arms the first recv. -/
theorem armed_started {cfg : Config} {c₀ c₁ c : SConf} {o : Outcome} (hr : Reachable cfg c₀)
    (hs : machine.step c₀ (.call o .start) = some c₁) (hr' : machine.Reachable c₁ c) :
    Armed True c.state c.stack := by
  have h₀ : Armed False c₀.state c₀.stack := armed_preserved.reachable hr ⟨fun _ => rfl, nofun⟩
  have h₁ : Armed False c₁.state c₁.stack := armed_preserved.step hs h₀
  refine armed_preserved.reachable hr' ⟨h₁.active, fun _ _ _ => .inr ?_⟩
  rcases Machine.step_cases hs with ⟨_, _, _, hi, -⟩ | ⟨_, _, hi, -, rfl⟩ | ⟨_, _, _, hi, -⟩ |
    ⟨_, _, _, hi, -⟩
  all_goals cases hi
  rw [List.any_append]
  rfl

/-- **No recv stall.** Once `Start` has run, an open session at top level whose
reading is not paused has exactly one recv in flight, which is
`active_recv_ev_`, and nothing waits in the paused queue; one whose reading is
paused has at most one. -/
theorem no_recv_stall {cfg : Config} {c₀ c₁ c : SConf} {o : Outcome} (hr : Reachable cfg c₀)
    (hs : machine.step c₀ (.call o .start) = some c₁) (hr' : machine.Reachable c₁ c)
    (htop : c.stack = []) (ho : c.state.state = .kOpen) :
    (c.state.recvPaused = false → ∃ id, c.state.activeRecvEv = some id ∧
      recvIds c.state.inFlight = [id] ∧ c.state.pausedRecvQueue = []) ∧
    (c.state.recvPaused = true → (recvIds c.state.inFlight).length ≤ 1) := by
  have h := armed_started hr hs hr'
  rw [htop] at h
  refine ⟨fun hp => ?_, fun _ => ?_⟩
  · obtain ⟨id, hid⟩ := Option.isSome_iff_exists.1 ((h.rearm trivial ho hp).resolve_right nofun)
    refine ⟨id, hid, ?_, ?_⟩
    · rw [h.active ho, hid]
      rfl
    · have hq := (recvInv_reachable ((hr.step _ hs).trans hr')).ready ho
      rw [htop] at hq
      exact (hq.resolve_left (by simp [recvView, hp])).resolve_right nofun
  · rw [h.active ho]
    exact Option.length_toList_le

/-- The first recv ends while its bytes are delivered and another takes its place. -/
def rearmedRun : List SInput :=
  [.ret false, .exec {}, .event {} (0, ⟨1, false, [7]⟩), .ret false, .exec {}, .exec {}]

theorem no_recv_stall_rearmed :
    ∃ c₁, machine.step (initConf {}) (.call {} .start) = some c₁ ∧
    ∃ c, machine.run c₁ rearmedRun = some c ∧ c.stack = [] ∧ c.state.state = .kOpen ∧
      c.state.recvPaused = false ∧
      (c.state.recvPaused = false → ∃ id, c.state.activeRecvEv = some id ∧
        recvIds c.state.inFlight = [id] ∧ c.state.pausedRecvQueue = []) ∧
      (c.state.recvPaused = true → (recvIds c.state.inFlight).length ≤ 1) :=
  ⟨_, rfl, _, rfl, rfl, rfl, rfl,
    @no_recv_stall {} (initConf {}) _ _ {} .refl rfl (.of_run rearmedRun rfl) rfl rfl⟩

end Session

end IouringRuntime
