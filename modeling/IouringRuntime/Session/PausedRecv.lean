import IouringRuntime.Session.RecvQueue

/-!
# The paused receive queue

What waits in `paused_recv_queue_` is counted by `paused_recv_bytes_` and kept
within `paused_recv_byte_limit_`: a chunk that would exceed the limit is not
queued, it closes the session. With the order of the bytes, which is `RecvInv`,
this is all there is to say about the queue of an open session.
-/

namespace IouringRuntime

open Reentrant

structure PausedView where
  limit : Nat
  queue : List Bytes
  bytes : Nat

def Session.pausedView (s : Session) : PausedView where
  limit := s.cfg.pausedRecvByteLimit
  queue := s.pausedRecvQueue
  bytes := s.pausedRecvBytes

/-- The counter is the size of the queue and within the limit. -/
structure PausedView.Bounded (v : PausedView) : Prop where
  bytes_eq : v.bytes = v.queue.flatten.length
  le_limit : v.limit ≠ 0 → v.bytes ≤ v.limit

theorem Session.pausedView_of_unflushed : FlushBlind Session.pausedView := by
  intro s t h
  simp only [Session.data, Data.unflushed, Data.mk.injEq] at h
  simp only [Session.pausedView, h]

theorem asideSend_pausedView : AsideSend Session.pausedView fun _ _ => false where
  data h := Session.pausedView_of_unflushed (congrArg Data.unflushed h)
  backpressure _ _ _ := rfl
  control _ _ := rfl
  released _ := rfl
  sendQueue _ _ := rfl
  active _ _ := rfl
  prep _ _ := rfl
  retire _ _ := rfl
  send _ _ := rfl

namespace Session

/-- A change of the session that keeps the queue within its limit. -/
def KeepsBounded (s t : Session) : Prop := s.pausedView.Bounded → t.pausedView.Bounded

variable {s t : Session}

theorem KeepsBounded.of_view (h : t.pausedView = s.pausedView) : s.KeepsBounded t := by
  intro hs
  rw [h]
  exact hs

theorem KeepsBounded.of_closing {r : Seg} (h : Closing s r) : s.KeepsBounded r.1 :=
  .of_view (h.quiet asideSend_pausedView.toAside pausedView_of_unflushed).view

theorem KeepsBounded.trans {u : Session} (h1 : s.KeepsBounded t) (h2 : t.KeepsBounded u) :
    s.KeepsBounded u :=
  fun hs => h2 (h1 hs)

theorem keepsBounded_drainPausedRecv (s : Session) : s.KeepsBounded s.drainPausedRecv.1 := by
  unfold drainPausedRecv
  split
  · split
    · exact .of_view rfl
    · next chunk rest hq =>
      intro h
      have hb : s.pausedRecvBytes = (chunk :: rest).flatten.length := by
        rw [← hq]
        exact h.bytes_eq
      rw [List.flatten_cons, List.length_append] at hb
      refine ⟨?_, fun hl => ?_⟩
      · show s.pausedRecvBytes - chunk.length = rest.flatten.length
        omega
      · have hle : s.pausedRecvBytes ≤ s.cfg.pausedRecvByteLimit := h.le_limit hl
        show s.pausedRecvBytes - chunk.length ≤ s.cfg.pausedRecvByteLimit
        omega
  · exact .of_view rfl

theorem keepsBounded_queuePausedRecv {data : Bytes} (h : s.queuePausedRecv data = some t) :
    s.KeepsBounded t := by
  unfold queuePausedRecv at h
  split at h
  · cases h
    exact .of_view rfl
  · dsimp only at h
    split at h
    · cases h
    · next hroom =>
      cases h
      intro hb
      have heq : s.pausedRecvBytes = s.pausedRecvQueue.flatten.length := hb.bytes_eq
      refine ⟨?_, fun hl => ?_⟩
      · show s.pausedRecvBytes + data.length = (s.pausedRecvQueue ++ [data]).flatten.length
        rw [List.flatten_append, List.flatten_singleton, List.length_append, heq]
      · show s.pausedRecvBytes + data.length ≤ s.cfg.pausedRecvByteLimit
        by_contra hlt
        exact hroom ⟨hl, by omega⟩

theorem keepsBounded_exec (o : Outcome) (s : Session) (i : Instr) :
    s.KeepsBounded (exec o s i).1 := by
  cases hi : isRecvInstr i with
  | true =>
    cases i with
    | backpressureRaised =>
      have hp : s.pauseOnBackpressure.pausedView = s.pausedView := by
        unfold pauseOnBackpressure
        split <;> rfl
      simp only [exec, backpressureRaised]
      split
      · exact (KeepsBounded.of_view hp).trans (.of_closing (closing_disconnectOnOwner _ o _))
      · exact .of_view hp
    | backpressureCleared =>
      simp only [exec, backpressureCleared]
      split
      · exact keepsBounded_drainPausedRecv (s.setRecvPaused false)
      · exact .of_view rfl
    | drainPausedRecv => exact keepsBounded_drainPausedRecv s
    | _ => cases hi
  | false =>
    cases hr : isReturnFrame (.code i) with
    | true =>
      cases i with
      | returnSend => exact .of_view rfl
      | _ => cases hr
    | false =>
      refine .of_view (asideSend_pausedView.exec s o (fun _ => pausedView_of_unflushed)
        ?_ ?_ ?_ hr).view
      all_goals
        rintro rfl
        cases hi

theorem keepsBounded_sendOnOwner (o : Outcome) (s : Session) (buf : SendBuffer) :
    s.KeepsBounded (s.sendOnOwner o buf).1 := by
  unfold sendOnOwner
  split
  · exact .of_view rfl
  · dsimp only
    split
    · have hq := KeepsBounded.of_closing (closing_disconnectOnOwner
        (s.setSendQueue (s.sendQueue.push buf).1) o .sendOverflow)
      exact hq
    · have hv := (asideSend_pausedView.updateBackpressure
        ((s.setSendQueue (s.sendQueue.push buf).1).accept buf) o).view
      exact .of_view hv

theorem keepsBounded_call (o : Outcome) (s : Session) (a : Api) :
    s.KeepsBounded (call o s a).1 := by
  by_cases hs : ∃ buf, a = .send buf
  · obtain ⟨buf, rfl⟩ := hs
    exact keepsBounded_sendOnOwner o s buf
  · by_cases hp : a = .pauseRecv
    · subst hp
      simp only [call, pauseRecv]
      split <;> exact .of_view rfl
    · by_cases hr : a = .resumeRecv
      · subst hr
        simp only [call, resumeRecv]
        split
        · exact .of_view rfl
        · exact keepsBounded_drainPausedRecv (s.setRecvPaused false)
      · exact .of_view (asideSend_pausedView.call s o (fun _ => pausedView_of_unflushed)
          (fun buf h => hs ⟨buf, h⟩) hp hr).view

theorem keepsBounded_onRecv (o : Outcome) (s : Session) (ev : OpId) (cqe : Cqe) :
    s.KeepsBounded (s.onRecv o ev cqe).1 := by
  have he : (s.endRecv cqe.more).pausedView = s.pausedView :=
    asideSend_pausedView.data (data_endRecv s cqe.more)
  unfold onRecv
  dsimp only
  refine .trans (.of_view he) ?_
  generalize s.endRecv cqe.more = t
  split
  · split
    · split
      · next hq => exact keepsBounded_queuePausedRecv (s := t.touchActivity o) hq
      · have hq := KeepsBounded.of_closing (closing_disconnectOnOwner (t.touchActivity o) o
          .pausedRecvOverflow)
        exact hq
    · exact .of_view rfl
  · exact .of_view rfl

theorem keepsBounded_complete (o : Outcome) (s : Session) (cqe : Cqe) (op : Op) :
    s.KeepsBounded (s.complete o cqe op).1 := by
  by_cases hr : op.kind = .recv
  · cases op with
    | recv ev =>
      refine .trans (.of_view ?_) (keepsBounded_onRecv o _ ev cqe)
      unfold retireRecv
      split <;> rfl
    | _ => cases hr
  · by_cases hk : op.kind = .send
    · cases op with
      | send op =>
        exact .of_view (asideSend_pausedView.completeSend s o cqe op fun _ _ => rfl).view
      | _ => cases hk
    · exact .of_view (asideSend_pausedView.complete s o cqe rfl hr hk).view

theorem keepsBounded_changes : machine.Changes KeepsBounded where
  exec := keepsBounded_exec
  call := keepsBounded_call
  ret := by
    intro s k b
    cases k <;> exact .of_view rfl
  event := by
    intro o s e r he
    obtain ⟨op, -, -, rfl⟩ := event_cases he
    exact keepsBounded_complete o s e.2 op

theorem paused_bounded {cfg : Config} {c : SConf} (hr : Reachable cfg c) :
    c.state.pausedView.Bounded :=
  Trace.Reachable.invariant (I := fun c : SConf => c.state.pausedView.Bounded) hr
    (fun _ _ _ hb hs => keepsBounded_changes.step hs hb) ⟨rfl, fun _ => Nat.zero_le _⟩

/-- **Paused-recv FIFO.** In an open session the bytes handed to `OnRecv` and
then the bytes waiting are the bytes received; `paused_recv_bytes_` is the size
of the queue and within its limit. -/
theorem paused_recv_fifo {cfg : Config} {c : SConf} (hr : Reachable cfg c)
    (ho : c.state.state = .kOpen) :
    c.state.delivered ++ c.state.pausedRecvQueue.flatten = c.state.received ∧
      c.state.pausedRecvBytes = (c.state.pausedRecvQueue.map List.length).sum ∧
      (c.state.cfg.pausedRecvByteLimit ≠ 0 →
        c.state.pausedRecvBytes ≤ c.state.cfg.pausedRecvByteLimit) := by
  have hb := paused_bounded hr
  refine ⟨((recvInv_reachable hr).stream ho).symm, ?_, hb.le_limit⟩
  rw [← List.length_flatten]
  exact hb.bytes_eq

/-- One byte is handed on, then receiving is paused and two more chunks wait. -/
def twoWaitingRun : List SInput :=
  [.call {} .start, .ret false, .exec {}, .event {} (0, ⟨1, true, [7]⟩), .ret false, .exec {},
    .exec {}, .call {} .pauseRecv, .event {} (0, ⟨2, true, [8, 9]⟩), .exec {}, .exec {},
    .event {} (0, ⟨1, true, [10]⟩), .exec {}, .exec {}]

theorem paused_recv_fifo_waiting :
    ∃ c, machine.run (initConf { pausedRecvByteLimit := 3 }) twoWaitingRun = some c ∧
      c.stack = [] ∧ c.state.state = .kOpen ∧ c.state.pausedRecvQueue = [[8, 9], [10]] ∧
      c.state.delivered ++ c.state.pausedRecvQueue.flatten = c.state.received ∧
      c.state.pausedRecvBytes = (c.state.pausedRecvQueue.map List.length).sum ∧
      (c.state.cfg.pausedRecvByteLimit ≠ 0 →
        c.state.pausedRecvBytes ≤ c.state.cfg.pausedRecvByteLimit) :=
  ⟨_, rfl, rfl, rfl, rfl,
    @paused_recv_fifo { pausedRecvByteLimit := 3 } _ (.of_run twoWaitingRun rfl) rfl⟩

end Session

end IouringRuntime
