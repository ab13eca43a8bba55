import IouringRuntime.Reentrant.Channel
import IouringRuntime.Session.RecvQueue
import IouringRuntime.Session.SendStream

/-!
# The session as two channels

Whatever its user and the kernel do, each direction of a session is an ordered
channel: the bytes accepted by `Send` go in and the bytes the kernel reports
sent come out; the bytes received go in and the bytes handed to `OnRecv` come
out. This holds in every state, the closing ones included, where bytes that
are still inside stay there. `waiting_sendChannel` and `waiting_recvChannel`
say where they are while the session is open.
-/

namespace IouringRuntime

open Reentrant

namespace Session

variable {s : Session} {r : Seg}

/-! ## The ends of the send side -/

def sendEnds (s : Session) : List SendBuffer × Bytes := (s.accepted, s.sent)

theorem sendEnds_of_view {t : Session} (h : t.sendView = s.sendView) : t.sendEnds = s.sendEnds :=
  congrArg (fun v : SendView => (v.accepted, v.sent)) h

theorem asideSend_sendEnds : AsideSend sendEnds fun _ _ => false where
  data h := sendEnds_of_view (sendView_of_data h)
  backpressure _ _ _ := rfl
  control _ _ := rfl
  released _ := rfl
  sendQueue _ _ := rfl
  active _ _ := rfl
  prep _ _ := rfl
  retire _ _ := rfl
  send _ _ := rfl

/-- Bytes are only added, at either end. -/
def SendGrows (s t : Session) : Prop := dataOf s.accepted <+: dataOf t.accepted ∧ s.sent <+: t.sent

theorem SendGrows.of_sendEnds {t : Session} (h : t.sendEnds = s.sendEnds) : s.SendGrows t := by
  obtain ⟨h1, h2⟩ := Prod.mk.inj h
  rw [SendGrows, h1, h2]
  exact ⟨List.prefix_rfl, List.prefix_rfl⟩

theorem SendGrows.of_quiet (h : SendQuiet s r) : s.SendGrows r.1 :=
  .of_sendEnds (sendEnds_of_view h.view)

theorem sendGrows_exec (o : Outcome) (s : Session) (i : Instr) : s.SendGrows (exec o s i).1 := by
  cases hi : isSendFrame (.code i) with
  | false => exact .of_quiet (sendQuiet_exec o s hi)
  | true =>
    have hblind : FlushBlind sendEnds := fun h => sendEnds_of_view (sendView_of_unflushed h)
    refine .of_sendEnds (asideSend_sendEnds.exec s o (fun _ => hblind) ?_ ?_ ?_ ?_).view
    · rintro rfl; cases hi
    · rintro rfl; cases hi
    · rintro rfl; cases hi
    · cases i <;> first | rfl | cases hi

theorem sendGrows_sendOnOwner (o : Outcome) (s : Session) (buf : SendBuffer) :
    s.SendGrows (s.sendOnOwner o buf).1 := by
  unfold sendOnOwner
  split
  · exact .of_sendEnds rfl
  · dsimp only
    split
    · have hq := (closing_disconnectOnOwner (s.setSendQueue (s.sendQueue.push buf).1) o
        .sendOverflow).sendQuiet
      have hends := sendEnds_of_view hq.view
      exact .of_sendEnds hends
    · have hends := Prod.mk.inj (sendEnds_of_view (sendQuiet_updateBackpressure
        ((s.setSendQueue (s.sendQueue.push buf).1).accept buf) o).view)
      refine ⟨?_, ?_⟩
      · rw [Seg.andThen_fst, hends.1]
        show dataOf s.accepted <+: dataOf (s.accepted ++ [buf])
        rw [dataOf_append]
        exact List.prefix_append _ _
      · rw [Seg.andThen_fst, hends.2]
        exact List.prefix_rfl

theorem sendGrows_complete (o : Outcome) {s : Session} {id : OpId} {op : Op} (cqe : Cqe)
    (h : s.inFlight.find? (·.id == id) = some op) : s.SendGrows (s.complete o cqe op).1 := by
  by_cases hk : op.kind = .send
  · cases op with
    | send op =>
      have hends := Prod.mk.inj (asideSend_sendEnds.onSend ((s.retire op.id).recordSent
        ((covered op.iovecs).take cqe.res.toNat)) o op cqe.res).view
      refine ⟨?_, ?_⟩
      · show _ <+: dataOf (onSend _ o op cqe.res).1.accepted
        rw [hends.1]
        exact List.prefix_rfl
      · show _ <+: (onSend _ o op cqe.res).1.sent
        rw [hends.2]
        exact List.prefix_append _ _
    | _ => cases hk
  · exact .of_quiet (sendQuiet_complete o cqe h hk)

theorem send_grows : machine.Changes SendGrows where
  exec := sendGrows_exec
  call := by
    intro o s a
    by_cases ha : ∃ buf, a = .send buf
    · obtain ⟨buf, rfl⟩ := ha
      exact sendGrows_sendOnOwner o s buf
    · exact .of_quiet (sendQuiet_call o s fun buf hb => ha ⟨buf, hb⟩)
  ret := by
    intro s k b
    cases k <;> exact .of_sendEnds rfl
  event := by
    intro o s e r he
    obtain ⟨op, hop, -, rfl⟩ := event_cases he
    exact sendGrows_complete o e.2 hop

/-! ## The ends of the receive side -/

/-- Bytes are only added, at either end. -/
def RecvGrows (s t : Session) : Prop := s.received <+: t.received ∧ s.delivered <+: t.delivered

theorem RecvGrows.of_ends {t : Session} (h1 : t.received = s.received)
    (h2 : t.delivered = s.delivered) : s.RecvGrows t := by
  rw [RecvGrows, h1, h2]
  exact ⟨List.prefix_rfl, List.prefix_rfl⟩

theorem RecvGrows.of_view {t : Session} (h : t.recvView = s.recvView) : s.RecvGrows t :=
  .of_ends (congrArg RecvView.received h) (congrArg RecvView.delivered h)

theorem RecvGrows.trans {t u : Session} (h1 : s.RecvGrows t) (h2 : t.RecvGrows u) :
    s.RecvGrows u :=
  ⟨h1.1.trans h2.1, h1.2.trans h2.2⟩

theorem recvGrows_deliver (s : Session) (chunk : Bytes) : s.RecvGrows (s.deliver chunk) :=
  ⟨List.prefix_rfl, List.prefix_append _ _⟩

theorem recvGrows_drainPausedRecv (s : Session) : s.RecvGrows s.drainPausedRecv.1 := by
  unfold drainPausedRecv
  split
  · split
    · exact .of_view rfl
    · next chunk rest _ => exact recvGrows_deliver (s.popPausedRecv chunk rest) chunk
  · exact .of_view rfl

theorem recvGrows_resume (s : Session) (b : Bool) :
    s.RecvGrows (s.setRecvPaused b).drainPausedRecv.1 :=
  recvGrows_drainPausedRecv (s.setRecvPaused b)

theorem recvGrows_exec (o : Outcome) (s : Session) (i : Instr) : s.RecvGrows (exec o s i).1 := by
  cases hi : isRecvInstr i with
  | false => exact .of_view (recvQuiet_exec o s hi).view
  | true =>
    cases i with
    | backpressureRaised =>
      have hp : s.RecvGrows s.pauseOnBackpressure := by
        unfold pauseOnBackpressure
        split <;> exact .of_ends rfl rfl
      simp only [exec, backpressureRaised]
      split
      · exact hp.trans (.of_view (closing_disconnectOnOwner _ o _).recvQuiet.view)
      · exact hp
    | backpressureCleared =>
      simp only [exec, backpressureCleared]
      split
      · exact recvGrows_resume s false
      · exact .of_view rfl
    | drainPausedRecv => exact recvGrows_drainPausedRecv s
    | _ => cases hi

theorem recvGrows_call (o : Outcome) (s : Session) (a : Api) : s.RecvGrows (call o s a).1 := by
  by_cases hp : a = .pauseRecv
  · subst hp
    simp only [call, pauseRecv]
    split <;> exact .of_ends rfl rfl
  · by_cases hr : a = .resumeRecv
    · subst hr
      simp only [call, resumeRecv]
      split
      · exact .of_view rfl
      · exact recvGrows_resume s false
    · exact .of_view (recvQuiet_call o s hp hr).view

theorem recvGrows_onRecv (o : Outcome) (s : Session) (ev : OpId) (cqe : Cqe) :
    s.RecvGrows (s.onRecv o ev cqe).1 := by
  unfold onRecv
  dsimp only
  refine .trans (.of_view (recvView_of_data (data_endRecv s cqe.more))) ?_
  generalize s.endRecv cqe.more = t
  split
  · split
    · split
      · next t' hq =>
        obtain ⟨-, ⟨-, hv⟩ | ⟨-, hv⟩⟩ := queuePausedRecv_cases hq
        · exact .of_view hv
        · exact .of_ends (congrArg RecvView.received hv) (congrArg RecvView.delivered hv)
      · exact .of_view (closing_disconnectOnOwner (t.touchActivity o) o _).recvQuiet.view
    · exact recvGrows_deliver (t.touchActivity o) cqe.view
  · exact .of_view rfl

theorem recvGrows_complete (o : Outcome) (s : Session) (cqe : Cqe) (op : Op) :
    s.RecvGrows (s.complete o cqe op).1 := by
  by_cases hk : op.kind = .recv
  · cases op with
    | recv ev =>
      refine .trans (.of_view (recvView_retireRecv s ev cqe.more)) (.trans ?_
        (recvGrows_onRecv o _ ev cqe))
      exact ⟨List.prefix_append _ _, List.prefix_rfl⟩
    | _ => cases hk
  · exact .of_view (recvQuiet_complete o s cqe hk).view

theorem recv_grows : machine.Changes RecvGrows where
  exec := recvGrows_exec
  call := recvGrows_call
  ret := by
    intro s k b
    cases k <;> exact .of_view rfl
  event := by
    intro o s e r he
    obtain ⟨op, -, -, rfl⟩ := event_cases he
    exact recvGrows_complete o s e.2 op

/-! ## The channels -/

theorem send_implements : Implements machine.step (fun _ _ => True)
    (fun c : SConf => SendInv (c.state.state = .kOpen) c.state.sendView (sendFrames c.stack))
    (fun c => dataOf c.state.accepted) (fun c => c.state.sent) where
  ordered h := (List.prefix_append _ _).trans h.order
  keep h hs _ := sendInv_preserved.step hs h
  grows _ hs := send_grows.step hs

theorem recv_implements : Implements machine.step (fun _ _ => True)
    (fun c : SConf => RecvInv (c.state.state = .kOpen) c.state.recvView (recvFrames c.stack))
    (fun c => c.state.received) (fun c => c.state.delivered) where
  ordered h := h.order
  keep h hs _ := recvInv_preserved.step hs h
  grows _ hs := recv_grows.step hs

variable {cfg : Config} {c c' : SConf}

def sendChannel (hr : Reachable cfg c) : Channel UInt8 :=
  send_implements.channel (sendInv_reachable hr)

def recvChannel (hr : Reachable cfg c) : Channel UInt8 :=
  recv_implements.channel (recvInv_reachable hr)

/-- **A session runs two ordered channels.** -/
theorem channels_run (hr : Reachable cfg c) (hr' : machine.Reachable c c') :
    (sendChannel hr).Run (sendChannel (hr.trans hr')) ∧
      (recvChannel hr).Run (recvChannel (hr.trans hr')) := by
  obtain ⟨_, hsend⟩ := send_implements.reachable (fun _ _ => trivial) (sendInv_reachable hr) hr'
  obtain ⟨_, hrecv⟩ := recv_implements.reachable (fun _ _ => trivial) (recvInv_reachable hr) hr'
  exact ⟨hsend, hrecv⟩

/-- Inside an open session bytes to send are covered by the active send, held
in a drained batch, or queued. -/
theorem waiting_sendChannel (hr : Reachable cfg c) (ho : c.state.state = .kOpen) :
    (sendChannel hr).waiting =
      c.state.activeBytes ++ heldBytes c.stack ++ dataOf c.state.sendQueue.pending := by
  have h := sendInv_reachable hr
  refine Channel.waiting_eq ?_
  show dataOf c.state.accepted = c.state.sent ++ _
  rw [activeBytes_eq h, ← heldBytes_sendFrames, ← List.append_assoc, ← List.append_assoc]
  exact (h.stream ho).symm

/-- Inside an open session bytes received wait in `paused_recv_queue_` only. -/
theorem waiting_recvChannel (hr : Reachable cfg c) (ho : c.state.state = .kOpen) :
    (recvChannel hr).waiting = c.state.pausedRecvQueue.flatten :=
  Channel.waiting_eq ((recvInv_reachable hr).stream ho)

end Session

end IouringRuntime
