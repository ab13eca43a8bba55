import IouringRuntime.Session.Code

/-!
# What closing a session leaves alone

Most of the session's code can end in `DisconnectOnOwner`. `Data` is the part
of the session that neither closing nor arming a recv touches: the send side
(queue, active operation, scatter lists in flight, the result of the last
`Send`), the received bytes, and the shutdowns that waited for the flush.
`Control s r` says that a segment leaves `Data` alone, does not reopen the
session, and puts at most the frames of a release on the stack, which closes it.
`Closing s r` is the same but for a shutdown after the flush.
-/

namespace IouringRuntime

open Reentrant

/-- The send operations among the operations in flight. -/
def sendOps (ops : List Op) : List SendOp :=
  ops.filterMap fun
    | .send op => some op
    | _ => none

@[simp] theorem sendOps_append (xs ys : List Op) : sendOps (xs ++ ys) = sendOps xs ++ sendOps ys :=
  List.filterMap_append

/-- The shutdowns prepared by `TryDisconnectAfterFlush`. -/
def Session.flushes (s : Session) : List Shutdown := s.shutdowns.filter (·.cause == .afterFlush)

structure Data where
  cfg : Config
  sendQueue : SendQueue
  activeSendEv : Option OpId
  sends : List SendOp
  accepted : List SendBuffer
  sent : Bytes
  backpressureActive : Bool
  recvPaused : Bool
  pausedRecvQueue : List Bytes
  pausedRecvBytes : Nat
  received : Bytes
  delivered : Bytes
  sendResult : Option IoError
  flushes : List Shutdown

/-- All but the shutdowns. -/
def Data.unflushed (d : Data) : Data := { d with flushes := [] }

namespace Session

def data (s : Session) : Data where
  cfg := s.cfg
  sendQueue := s.sendQueue
  activeSendEv := s.activeSendEv
  sends := sendOps s.inFlight
  accepted := s.accepted
  sent := s.sent
  backpressureActive := s.backpressureActive
  recvPaused := s.recvPaused
  pausedRecvQueue := s.pausedRecvQueue
  pausedRecvBytes := s.pausedRecvBytes
  received := s.received
  delivered := s.delivered
  sendResult := s.sendResult
  flushes := s.flushes

@[simp] theorem data_beginDisconnect (s : Session) (cause : CloseCause) :
    (s.beginDisconnect cause).data = s.data := rfl

theorem data_recordShutdown (s : Session) (cause : CloseCause) :
    (s.recordShutdown cause).data =
      if cause = .afterFlush
      then { s.data with flushes := s.flushes ++ [⟨.afterFlush, s.sent, dataOf s.accepted⟩] }
      else s.data := by
  have hf : (s.recordShutdown cause).flushes =
      s.flushes ++ [(⟨cause, s.sent, dataOf s.accepted⟩ : Shutdown)].filter
        (·.cause == .afterFlush) := List.filter_append ..
  show { s.data with flushes := (s.recordShutdown cause).flushes } = _
  split
  case isTrue hc =>
    subst hc
    rw [hf]
    rfl
  case isFalse hc =>
    rw [hf, List.filter_cons, if_neg (by simpa using hc), List.filter_nil, List.append_nil]
    rfl

@[simp] theorem data_setActiveRecvEv (s : Session) (ev : Option OpId) :
    (s.setActiveRecvEv ev).data = s.data := rfl

@[simp] theorem data_beginPendingIo (s : Session) : s.beginPendingIo.data = s.data := rfl

@[simp] theorem data_completePendingIo (s : Session) : s.completePendingIo.data = s.data := by
  unfold completePendingIo; split <;> rfl

@[simp] theorem data_newOp (s : Session) : s.newOp.data = s.data := rfl

@[simp] theorem data_deleteOp (s : Session) (id : OpId) : (s.deleteOp id).data = s.data := rfl

@[simp] theorem data_markDrainingOnOwner (s : Session) : s.markDrainingOnOwner.data = s.data := by
  unfold markDrainingOnOwner; split <;> rfl

theorem data_prep (s : Session) {op : Op} (h : op.kind ≠ .send) : (s.prep op).data = s.data := by
  cases op <;> simp_all [prep, data, flushes, sendOps, Op.kind]

@[simp] theorem state_beginPendingIo (s : Session) : s.beginPendingIo.state = s.state := rfl

@[simp] theorem state_completePendingIo (s : Session) : s.completePendingIo.state = s.state := by
  unfold completePendingIo; split <;> rfl

@[simp] theorem state_newOp (s : Session) : s.newOp.state = s.state := rfl

@[simp] theorem state_deleteOp (s : Session) (id : OpId) : (s.deleteOp id).state = s.state := rfl

@[simp] theorem state_prep (s : Session) (op : Op) : (s.prep op).state = s.state := rfl

@[simp] theorem state_endRecv (s : Session) (more : Bool) : (s.endRecv more).state = s.state := by
  unfold endRecv; split <;> rfl

@[simp] theorem data_endRecv (s : Session) (more : Bool) : (s.endRecv more).data = s.data := by
  unfold endRecv; split <;> rfl

@[simp] theorem state_completeRecv (s : Session) (more : Bool) :
    (s.completeRecv more).state = s.state := by
  unfold completeRecv; split <;> simp

@[simp] theorem data_completeRecv (s : Session) (more : Bool) :
    (s.completeRecv more).data = s.data := by
  unfold completeRecv; split <;> simp

@[simp] theorem state_retireRecv (s : Session) (id : OpId) (more : Bool) :
    (s.retireRecv id more).state = s.state := by
  unfold retireRecv; split <;> rfl

@[simp] theorem state_clearActiveSend (s : Session) (id : OpId) :
    (s.clearActiveSend id).state = s.state := by
  unfold clearActiveSend; split <;> rfl

@[simp] theorem state_pauseOnBackpressure (s : Session) :
    s.pauseOnBackpressure.state = s.state := by
  unfold pauseOnBackpressure; split <;> rfl

@[simp] theorem state_completeAppIo (s : Session) : s.completeAppIo.state = s.state := by
  unfold completeAppIo; split <;> rfl

@[simp] theorem data_completeAppIo (s : Session) : s.completeAppIo.data = s.data := by
  unfold completeAppIo; split <;> rfl

theorem canUseOnOwner_iff {s : Session} : s.canUseOnOwner = true ↔ s.state = .kOpen := by
  simp [canUseOnOwner]

/-- What goes on behind a test that begins with `CanUseOnOwner` runs in `kOpen`. -/
theorem kOpen_of_not_refused {s : Session} {b : Bool} (h : ¬ (!s.canUseOnOwner || b) = true) :
    s.state = .kOpen := by
  rw [Bool.or_eq_true, not_or, Bool.not_eq_true', Bool.not_eq_false] at h
  exact canUseOnOwner_iff.1 h.1

end Session

/-- `TryRelease` past its gate. -/
def releaseFrames : List SFrame := [.callback .onDisconnected, .code .release]

/-- A segment that keeps a part of `Data`. -/
structure Keeps {β : Type} (keep : Data → β) (s : Session) (r : Seg) : Prop where
  data : keep r.1.data = keep s.data
  frames : r.2 = [] ∨ r.1.state ≠ .kOpen ∧ r.2 = releaseFrames
  isOpen : r.1.state = .kOpen → s.state = .kOpen

abbrev Control (s : Session) (r : Seg) : Prop := Keeps id s r

abbrev Closing (s : Session) (r : Seg) : Prop := Keeps Data.unflushed s r

namespace Keeps

variable {β : Type} {keep : Data → β} {s t : Session} {r : Seg}

theorem refl (s : Session) : Keeps keep s (s, []) := ⟨rfl, .inl rfl, id⟩

/-- Run the segment after an update that touches neither `Data` nor `state_`. -/
theorem after (h : Keeps keep t r) (hd : keep t.data = keep s.data)
    (ho : t.state = .kOpen → s.state = .kOpen) : Keeps keep s r :=
  ⟨h.data.trans hd, h.frames, fun h' => ho (h.isOpen h')⟩

end Keeps

theorem Control.keeps {β : Type} {s : Session} {r : Seg} (h : Control s r) (keep : Data → β) :
    Keeps keep s r :=
  ⟨congrArg keep h.data, h.frames, h.isOpen⟩

theorem Control.closing {s : Session} {r : Seg} (h : Control s r) : Closing s r := h.keeps _

namespace Session

theorem tryRelease_cases (s : Session) :
    s.tryRelease = (s, []) ∨
    (s.state ≠ .kOpen ∧ s.state ≠ .kClosed ∧ s.pendingIo = 0 ∧ s.pendingAppIo = 0 ∧
      s.tryRelease = ((s.setState .kClosed).callDisconnected, releaseFrames)) := by
  unfold tryRelease
  split
  · exact .inl rfl
  · next h =>
    push Not at h
    split
    · exact .inl rfl
    · next hc =>
      exact .inr ⟨h.1, hc, h.2.1, h.2.2, rfl⟩

theorem control_tryRelease (s : Session) : Control s s.tryRelease := by
  rcases s.tryRelease_cases with h | ⟨ho, -, -, -, h⟩
  · rw [h]; exact .refl s
  · rw [h]; exact ⟨rfl, .inr ⟨nofun, rfl⟩, nofun⟩

theorem data_prepCancelRecv (s : Session) (o : Outcome) : (s.prepCancelRecv o).data = s.data := by
  unfold prepCancelRecv
  split
  · rfl
  · split
    · rfl
    · dsimp only
      split
      · rw [data_prep _ (by simp [Op.kind])]; rfl
      · simp

theorem state_prepCancelRecv (s : Session) (o : Outcome) :
    (s.prepCancelRecv o).state = s.state := by
  unfold prepCancelRecv
  split
  · rfl
  · split
    · rfl
    · dsimp only
      split <;> simp

/-- `prepShutdown` leaves `kOpen`; it reaches `kDraining` when the shutdown was prepared. -/
theorem state_prepShutdown (s : Session) (o : Outcome) (cause : CloseCause) :
    (s.prepShutdown o cause).state =
      if o.newDisconnect && o.prepDisconnect then .kDraining else .kClosing := by
  unfold prepShutdown
  cases o.newDisconnect <;> cases o.prepDisconnect <;>
    simp [beginDisconnect, recordShutdown, setState, markDrainingOnOwner, state_prepCancelRecv]

/-- Only a shutdown after the flush shows in `Data`. -/
theorem data_prepShutdown (s : Session) (o : Outcome) (cause : CloseCause) :
    (s.prepShutdown o cause).data =
      if cause = .afterFlush ∧ o.newDisconnect = true ∧ o.prepDisconnect = true
      then { s.data with flushes := s.flushes ++ [⟨.afterFlush, s.sent, dataOf s.accepted⟩] }
      else s.data := by
  unfold prepShutdown
  dsimp only
  split
  case isTrue hn =>
    rw [if_neg (by simp_all)]
    rfl
  case isFalse hn =>
    split
    case isTrue hp =>
      rw [if_neg (by simp_all)]
      simp
    case isFalse hp =>
      rw [data_markDrainingOnOwner, data_prepCancelRecv, data_recordShutdown,
        data_prep _ (by simp [Op.kind])]
      simp only [Bool.not_eq_true', Bool.not_eq_false] at hn hp
      simp only [hn, hp, and_self, and_true]
      rfl

theorem keeps_disconnectOnOwner {β : Type} {keep : Data → β} {s : Session} {o : Outcome}
    {cause : CloseCause} (h : keep (s.prepShutdown o cause).data = keep s.data) :
    Keeps keep s (s.disconnectOnOwner o cause) := by
  unfold disconnectOnOwner
  split
  · exact .refl s
  · refine ((control_tryRelease _).keeps keep).after h fun h => ?_
    rw [state_prepShutdown] at h
    split at h <;> cases h

theorem closing_disconnectOnOwner (s : Session) (o : Outcome) (cause : CloseCause) :
    Closing s (s.disconnectOnOwner o cause) := by
  refine keeps_disconnectOnOwner ?_
  rw [data_prepShutdown]
  split <;> rfl

theorem control_disconnectOnOwner (s : Session) (o : Outcome) {cause : CloseCause}
    (hc : cause ≠ .afterFlush) : Control s (s.disconnectOnOwner o cause) := by
  refine keeps_disconnectOnOwner ?_
  rw [data_prepShutdown, if_neg fun h => hc h.1]

/-- Once entered in `kOpen`, `DisconnectOnOwner` leaves it. -/
theorem disconnectOnOwner_not_open (s : Session) (o : Outcome) (cause : CloseCause) :
    (s.disconnectOnOwner o cause).1.state ≠ .kOpen := by
  unfold disconnectOnOwner
  split
  · assumption
  · intro h
    have := (control_tryRelease _).isOpen h
    rw [state_prepShutdown] at this
    split at this <;> cases this

theorem closing_tryDisconnectAfterFlush (s : Session) (o : Outcome) :
    Closing s (s.tryDisconnectAfterFlush o) := by
  unfold tryDisconnectAfterFlush
  split
  · exact .refl s
  · split
    · exact .refl s
    · exact closing_disconnectOnOwner s o _

theorem closing_disconnectAfterFlushOnOwner (s : Session) (o : Outcome) :
    Closing s (s.disconnectAfterFlushOnOwner o) := by
  unfold disconnectAfterFlushOnOwner
  split
  · exact .refl s
  · exact (closing_tryDisconnectAfterFlush _ o).after rfl id

theorem control_registerRecv (s : Session) (o : Outcome) : Control s (s.registerRecv o) := by
  unfold registerRecv
  split
  · exact .refl s
  · split
    · exact .refl s
    · split
      · exact control_disconnectOnOwner s o (by simp)
      · dsimp only
        split
        · exact (control_disconnectOnOwner _ o (by simp)).after (by simp) (by simp)
        · refine ⟨?_, .inl rfl, id⟩
          rw [data_setActiveRecvEv, data_prep _ (by simp [Op.kind])]
          simp

theorem control_onRecvTail (s : Session) (o : Outcome) (res : Int) (more : Bool) :
    Control s (s.onRecvTail o res more) := by
  unfold onRecvTail
  refine Keeps.after (t := s.completeRecv more) ?_ (by simp) (by simp)
  generalize s.completeRecv more = t
  have hr : Control t (if !t.recvPaused then t.registerRecv o else (t, [])) := by
    split
    · exact control_registerRecv t o
    · exact .refl t
  dsimp only
  split
  · exact control_tryRelease t
  · split
    · exact control_disconnectOnOwner t o (by simp)
    · split
      · exact hr
      · split
        · exact control_disconnectOnOwner t o (by simp)
        · split
          · exact hr
          · exact .refl t

theorem control_tickRest (s : Session) (o : Outcome) (now : Nat) :
    Control s (s.tickRest o now) := by
  unfold tickRest
  split
  · exact control_disconnectOnOwner s o (by simp)
  · split
    · exact control_disconnectOnOwner s o (by simp)
    · exact .refl s

/-! ## Completions -/

/-- Taking one operation out of flight. -/
theorem retire_split {s : Session} {id : OpId} {op : Op}
    (h : s.inFlight.find? (·.id == id) = some op) :
    op.id = id ∧ ∃ xs ys, s.inFlight = xs ++ op :: ys ∧ (s.retire id).inFlight = xs ++ ys := by
  obtain ⟨hp, xs, ys, hs, hx⟩ := List.find?_eq_some_iff_append.1 h
  refine ⟨by simpa using hp, xs, ys, hs, ?_⟩
  simp only [retire]
  rw [hs, List.eraseP_append_right _ (by simpa using hx), List.eraseP_cons, hp, cond_true]

/-- What a completion can be. -/
theorem event_cases {o : Outcome} {s : Session} {e : OpId × Cqe} {r : Seg}
    (h : s.event o e = some r) :
    ∃ op, s.inFlight.find? (·.id == e.1) = some op ∧ Allows op e.2 = true ∧
      r = s.complete o e.2 op := by
  unfold event at h
  split at h
  · cases h
  · next op hop =>
    split at h
    · next ha => exact ⟨op, hop, ha, (Option.some.inj h).symm⟩
    · cases h

end Session

end IouringRuntime
