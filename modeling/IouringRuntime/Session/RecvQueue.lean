import IouringRuntime.Session.Quiet

/-!
# The receive side of a session

Bytes that arrive while receiving is paused wait in `paused_recv_queue_` and
go to `OnRecv` when it is resumed. In an open session the bytes handed to
`OnRecv` followed by the bytes waiting are the bytes received (`RecvInv`);
the order survives because outside a `DrainPausedRecv` nothing waits unless
receiving is paused. Closing stops delivery, so of all this only the order
remains, and what waits when the peer's end of stream is handled never reaches
`OnRecv`.
-/

namespace IouringRuntime

open Reentrant

def recvFrames (st : List SFrame) : List SFrame := st.filter isRecvFrame

@[simp] theorem recvFrames_nil : recvFrames [] = [] := rfl

@[simp] theorem recvFrames_append (xs ys : List SFrame) :
    recvFrames (xs ++ ys) = recvFrames xs ++ recvFrames ys :=
  List.filter_append ..

theorem recvFrames_cons (f : SFrame) (st : List SFrame) :
    recvFrames (f :: st) = if isRecvFrame f then f :: recvFrames st else recvFrames st :=
  List.filter_cons

/-- The receive part of the session's data. -/
structure RecvView where
  paused : Bool
  queue : List Bytes
  received : Bytes
  delivered : Bytes

def Session.recvView (s : Session) : RecvView where
  paused := s.recvPaused
  queue := s.pausedRecvQueue
  received := s.received
  delivered := s.delivered

theorem Session.recvView_of_unflushed : FlushBlind Session.recvView := by
  intro s t h
  simp only [Session.data, Data.unflushed, Data.mk.injEq] at h
  simp only [Session.recvView, h]

theorem Session.recvView_of_data {s t : Session} (h : s.data = t.data) : s.recvView = t.recvView :=
  Session.recvView_of_unflushed (congrArg Data.unflushed h)

/-! ## Segments that leave the receive side alone -/

abbrev RecvQuiet (s : Session) (r : Seg) : Prop := Quiet Session.recvView (fun _ => isRecvFrame) s r

theorem asideSend_recvView : AsideSend Session.recvView fun _ => isRecvFrame where
  data := Session.recvView_of_data
  backpressure _ _ _ := rfl
  control {f} h _ := by
    simp only [isControlFrame, Bool.not_eq_true', Bool.or_eq_false_iff] at h
    exact h.1.1.2
  released _ := rfl
  sendQueue _ _ := rfl
  active _ _ := rfl
  prep _ _ := rfl
  retire _ _ := rfl
  send {f} h _ := by
    cases f with
    | code i => cases i <;> first | rfl | cases h
    | callback k => cases h

theorem Closing.recvQuiet {s : Session} {r : Seg} (h : Closing s r) : RecvQuiet s r :=
  h.quiet asideSend_recvView.toAside Session.recvView_of_unflushed

theorem Quiet.recvFrames_eq_nil {s : Session} {r : Seg} (h : RecvQuiet s r) :
    recvFrames r.2 = [] :=
  h.frames

namespace Session

theorem recvView_retireRecv (s : Session) (id : OpId) (more : Bool) :
    (s.retireRecv id more).recvView = s.recvView := by
  unfold retireRecv; split <;> rfl

theorem recvQuiet_sendOnOwner (s : Session) (o : Outcome) (buf : SendBuffer) :
    RecvQuiet s (s.sendOnOwner o buf) := by
  unfold sendOnOwner
  split
  · exact ⟨rfl, rfl, id⟩
  · dsimp only
    split
    · exact ((closing_disconnectOnOwner _ o _).recvQuiet.andThen fun _ => rfl).after rfl rfl
    · refine ((asideSend_recvView.updateBackpressure _ o).andThen fun _ => ?_).after rfl rfl
      split <;> rfl

/-- The instructions that pause, resume or deliver. -/
def isRecvInstr : Instr → Bool
  | .backpressureRaised | .backpressureCleared | .drainPausedRecv => true
  | _ => false

theorem recvQuiet_exec (o : Outcome) (s : Session) {i : Instr} (hi : isRecvInstr i = false) :
    RecvQuiet s (exec o s i) := by
  cases hr : isReturnFrame (.code i) with
  | false =>
    refine asideSend_recvView.exec s o (fun _ => recvView_of_unflushed) ?_ ?_ ?_ hr <;>
      rintro rfl <;> cases hi
  | true =>
    cases i with
    | returnSend => exact ⟨rfl, rfl, fun h => h⟩
    | _ => cases hr

theorem recvQuiet_call (o : Outcome) (s : Session) {a : Api} (hp : a ≠ .pauseRecv)
    (hr : a ≠ .resumeRecv) : RecvQuiet s (call o s a) := by
  by_cases hs : ∃ buf, a = .send buf
  · obtain ⟨buf, rfl⟩ := hs
    exact recvQuiet_sendOnOwner s o buf
  · exact asideSend_recvView.call s o (fun _ => recvView_of_unflushed)
      (fun buf h => hs ⟨buf, h⟩) hp hr

theorem recvQuiet_complete (o : Outcome) (s : Session) (cqe : Cqe) {op : Op}
    (hk : op.kind ≠ .recv) : RecvQuiet s (s.complete o cqe op) := by
  by_cases hs : op.kind = .send
  · cases op with
    | send op => exact asideSend_recvView.completeSend s o cqe op fun _ _ => rfl
    | _ => cases hs
  · exact asideSend_recvView.complete s o cqe rfl hk hs

end Session

/-! ## The invariant -/

/-- The invariant of the receive side, over the receive frames on the stack. -/
structure RecvInv (isOpen : Prop) (v : RecvView) (fs : List SFrame) : Prop where
  chunks : ∀ chunk ∈ v.queue, chunk ≠ []
  order : v.delivered <+: v.received
  stream : isOpen → v.received = v.delivered ++ v.queue.flatten
  ready : isOpen → v.paused = true ∨ v.queue = [] ∨ .code .drainPausedRecv ∈ fs

namespace RecvInv

variable {p q : Prop} {v w : RecvView} {fs fs' : List SFrame}

/-- Receiving is paused or not, by code that leaves the bytes where they are. -/
theorem mono (h : RecvInv p v fs) (hq : q → p) (hfs : ∀ f ∈ fs, f ∈ fs') : RecvInv q v fs' :=
  ⟨h.chunks, h.order, fun h' => h.stream (hq h'),
    fun h' => (h.ready (hq h')).imp id (Or.imp id (hfs _))⟩

theorem pause (h : RecvInv p v fs) : RecvInv p { v with paused := true } fs :=
  ⟨h.chunks, h.order, h.stream, fun _ => .inl rfl⟩

theorem quiet {s : Session} {r : Seg} (hr : RecvQuiet s r)
    (h : RecvInv (s.state = .kOpen) s.recvView fs) :
    RecvInv (r.1.state = .kOpen) r.1.recvView (recvFrames r.2 ++ fs) := by
  rw [hr.view, hr.recvFrames_eq_nil, List.nil_append]
  exact h.mono hr.isOpen fun _ => id

end RecvInv

/-- A completion has brought `data`, which is neither queued nor handed on yet. -/
structure Arriving (isOpen : Prop) (v : RecvView) (data : Bytes) : Prop where
  chunks : ∀ chunk ∈ v.queue, chunk ≠ []
  order : v.delivered <+: v.received
  stream : isOpen → v.received = v.delivered ++ v.queue.flatten ++ data
  ready : isOpen → v.paused = true ∨ v.queue = []

/-- At top level nothing waits unless receiving is paused. -/
theorem RecvInv.arrive {p : Prop} {v : RecvView} (h : RecvInv p v []) (data : Bytes) :
    Arriving p { v with received := v.received ++ data } data where
  chunks := h.chunks
  order := h.order.trans (List.prefix_append _ _)
  stream hp := by rw [h.stream hp]
  ready hp := (h.ready hp).imp id fun h' => h'.resolve_right List.not_mem_nil

namespace Arriving

variable {p q : Prop} {v : RecvView} {data : Bytes} {fs : List SFrame}

/-- Queued behind the chunks that already wait. -/
theorem enqueue (h : Arriving p v data) (hp : v.paused = true) (hne : data ≠ []) :
    RecvInv p { v with queue := v.queue ++ [data] } fs where
  chunks := by
    intro chunk hm
    rcases List.mem_append.1 hm with hm | hm
    · exact h.chunks chunk hm
    · rw [List.mem_singleton.1 hm]
      exact hne
  order := h.order
  stream hopen := by
    rw [h.stream hopen, List.flatten_append, List.flatten_singleton, List.append_assoc]
  ready _ := .inl hp

/-- Handed straight on, so nothing may wait. -/
theorem deliver (h : Arriving p v data) (hopen : p) (hp : v.paused = false) :
    RecvInv p { v with delivered := v.delivered ++ data } fs := by
  have hnil : v.queue = [] := (h.ready hopen).resolve_left (by simp [hp])
  have hst := h.stream hopen
  rw [hnil, List.flatten_nil, List.append_nil] at hst
  refine ⟨h.chunks, ?_, fun _ => ?_, fun _ => .inr (.inl hnil)⟩
  · exact ⟨[], (List.append_nil _).trans hst.symm⟩
  · show v.received = v.delivered ++ data ++ v.queue.flatten
    rw [hst, hnil, List.flatten_nil, List.append_nil]

theorem skip (h : Arriving p v data) (hd : p → data = []) : RecvInv p v fs where
  chunks := h.chunks
  order := h.order
  stream hopen := by rw [h.stream hopen, hd hopen, List.append_nil]
  ready hopen := (h.ready hopen).imp id .inl

theorem closed (h : Arriving p v data) (hq : ¬ q) : RecvInv q v fs :=
  ⟨h.chunks, h.order, fun h' => absurd h' hq, fun h' => absurd h' hq⟩

end Arriving

namespace Session

variable {s : Session} {o : Outcome} {fs : List SFrame}

/-- One round of the drain loop. It may start unpaused with chunks waiting:
that it runs is what `ready` asks for. -/
theorem recvInv_drainPausedRecv (hc : ∀ chunk ∈ s.pausedRecvQueue, chunk ≠ [])
    (hord : s.delivered <+: s.received)
    (hs : s.state = .kOpen → s.received = s.delivered ++ s.pausedRecvQueue.flatten) :
    RecvInv (s.drainPausedRecv.1.state = .kOpen) s.drainPausedRecv.1.recvView
      (recvFrames s.drainPausedRecv.2 ++ fs) := by
  unfold drainPausedRecv
  split
  · next hg =>
    have ho : s.state = .kOpen := by
      rw [Bool.and_eq_true, canUseOnOwner_iff] at hg
      exact hg.1
    split
    · next hq => exact ⟨hc, hord, hs, fun _ => .inr (.inl hq)⟩
    · next chunk rest hq =>
      rw [hq] at hc hs
      have hst : s.received = (s.delivered ++ chunk) ++ rest.flatten := by
        rw [hs ho, List.flatten_cons, List.append_assoc]
      refine ⟨fun c h => hc c (List.mem_cons_of_mem _ h), ⟨_, hst.symm⟩, fun _ => hst,
        fun _ => .inr (.inr ?_)⟩
      · exact List.mem_append_left _ (List.mem_cons_of_mem _ (List.mem_singleton_self _))
  · next hg =>
    refine ⟨hc, hord, hs, fun ho => .inl ?_⟩
    have hopen : s.canUseOnOwner = true := canUseOnOwner_iff.2 ho
    show s.recvPaused = true
    simpa [hopen] using hg

theorem recvInv_resume (h : RecvInv (s.state = .kOpen) s.recvView fs) {k : List SFrame} :
    RecvInv (((s.setRecvPaused false).drainPausedRecv.andThen k).1.state = .kOpen)
      ((s.setRecvPaused false).drainPausedRecv.andThen k).1.recvView
      (recvFrames ((s.setRecvPaused false).drainPausedRecv.andThen k).2 ++ fs) := by
  rw [Seg.andThen_snd, recvFrames_append, List.append_assoc]
  exact recvInv_drainPausedRecv (s := s.setRecvPaused false) h.chunks h.order h.stream

theorem recvInv_backpressureRaised (h : RecvInv (s.state = .kOpen) s.recvView fs) :
    RecvInv ((s.backpressureRaised o).1.state = .kOpen) (s.backpressureRaised o).1.recvView
      (recvFrames (s.backpressureRaised o).2 ++ fs) := by
  have ht : RecvInv (s.pauseOnBackpressure.state = .kOpen) s.pauseOnBackpressure.recvView fs := by
    unfold pauseOnBackpressure
    split
    · exact h.pause
    · exact h
  unfold backpressureRaised
  dsimp only
  split
  · exact ht.quiet (closing_disconnectOnOwner _ o _).recvQuiet
  · exact ht.quiet (.refl _)

theorem queuePausedRecv_cases {data : Bytes} {t : Session}
    (h : s.queuePausedRecv data = some t) :
    t.state = s.state ∧
      (data = [] ∧ t.recvView = s.recvView ∨
        data ≠ [] ∧ t.recvView = { s.recvView with queue := s.recvView.queue ++ [data] }) := by
  unfold queuePausedRecv at h
  split at h
  · next he => cases h; exact ⟨rfl, .inl ⟨by simpa using he, rfl⟩⟩
  · next he =>
    dsimp only at h
    split at h
    · cases h
    · cases h; exact ⟨rfl, .inr ⟨by simpa using he, rfl⟩⟩

/-- A recv completion: its data is queued, handed on, or dropped by a closing session. -/
theorem recvInv_onRecv {ev : OpId} {cqe : Cqe}
    (h : Arriving (s.state = .kOpen) s.recvView cqe.view) (hres : cqe.res ≤ 0 → cqe.view = []) :
    RecvInv ((s.onRecv o ev cqe).1.state = .kOpen) (s.onRecv o ev cqe).1.recvView
      (recvFrames (s.onRecv o ev cqe).2) := by
  have ht : Arriving ((s.endRecv cqe.more).state = .kOpen) (s.endRecv cqe.more).recvView
      cqe.view := by
    rw [recvView_of_data (data_endRecv s cqe.more), state_endRecv]
    exact h
  unfold onRecv
  dsimp only
  generalize s.endRecv cqe.more = t at ht
  split
  · next hg =>
    split
    · next hp =>
      split
      · next t' hq =>
        show RecvInv (t'.state = .kOpen) t'.recvView _
        obtain ⟨hst, ⟨he, hv⟩ | ⟨hne, hv⟩⟩ := queuePausedRecv_cases hq
        · rw [hst, hv]
          exact ht.skip fun _ => he
        · rw [hst, hv]
          exact ht.enqueue hp hne
      · have hq := (closing_disconnectOnOwner (t.touchActivity o) o .pausedRecvOverflow).recvQuiet
        rw [Seg.andThen_fst, hq.view]
        exact ht.closed (disconnectOnOwner_not_open _ o _)
    · next hp =>
      exact ht.deliver (canUseOnOwner_iff.1 hg.2) (Bool.eq_false_of_not_eq_true hp)
  · next hg =>
    refine ht.skip fun ho => hres ?_
    by_contra hlt
    exact hg ⟨by omega, canUseOnOwner_iff.2 ho⟩

theorem Cqe.view_of_nonpos {cqe : Cqe} (h : cqe.res ≤ 0) : cqe.view = [] := by
  simp [Cqe.view, Int.toNat_of_nonpos h]

/-- **The receive side's invariant is kept by every input of the machine.** -/
theorem recvInv_preserved :
    machine.Preserved fun s st => RecvInv (s.state = .kOpen) s.recvView (recvFrames st) where
  exec := by
    intro o s i rest h
    rw [recvFrames_append]
    cases hi : isRecvInstr i with
    | false =>
      have hf : isRecvFrame (.code i) = false := by cases i <;> first | rfl | cases hi
      rw [recvFrames_cons, if_neg (by simp [hf])] at h
      exact h.quiet (recvQuiet_exec o s hi)
    | true =>
      cases i with
      | backpressureRaised => exact recvInv_backpressureRaised h
      | backpressureCleared =>
        simp only [machine, exec, backpressureCleared]
        split
        · exact recvInv_resume h
        · exact h
      | drainPausedRecv => exact recvInv_drainPausedRecv h.chunks h.order h.stream
      | _ => cases hi
  call := by
    intro o s a st _ h
    rw [recvFrames_append]
    by_cases hp : a = .pauseRecv
    · subst hp
      simp only [machine, call, pauseRecv]
      split
      · exact h
      · exact h.pause
    · by_cases hr : a = .resumeRecv
      · subst hr
        simp only [machine, call, resumeRecv]
        split
        · exact h
        · exact recvInv_resume h
      · exact h.quiet (recvQuiet_call o s hp hr)
  ret := by
    intro s k b rest h
    have hs : (machine.ret s k b).recvView = s.recvView ∧ (machine.ret s k b).state = s.state := by
      cases k <;> exact ⟨rfl, rfl⟩
    rw [hs.1, hs.2]
    rw [recvFrames_cons] at h
    split at h
    · refine ⟨h.chunks, h.order, h.stream, fun ho => ?_⟩
      exact (h.ready ho).imp id (Or.imp id fun hm => (List.mem_cons.1 hm).resolve_left
        fun he => by cases he)
    · exact h
  event := by
    intro o s e r he h
    obtain ⟨op, hop, -, rfl⟩ := event_cases he
    by_cases hk : op.kind = .recv
    · cases op with
      | recv ev =>
        refine recvInv_onRecv ?_ Cqe.view_of_nonpos
        show Arriving ((s.retireRecv ev e.2.more).state = .kOpen)
          { (s.retireRecv ev e.2.more).recvView with
            received := (s.retireRecv ev e.2.more).recvView.received ++ e.2.view } e.2.view
        rw [recvView_retireRecv, state_retireRecv]
        exact h.arrive e.2.view
      | _ => cases hk
    · simpa using h.quiet (recvQuiet_complete o s e.2 hk)

theorem recvInv_reachable {cfg : Config} {c : SConf} (hr : Reachable cfg c) :
    RecvInv (c.state.state = .kOpen) c.state.recvView (recvFrames c.stack) :=
  recvInv_preserved.reachable hr
    ⟨fun _ h => absurd h List.not_mem_nil, List.prefix_rfl, fun _ => rfl, fun _ => .inr (.inl rfl)⟩

/-! ## The end of the stream -/

theorem onRecv_not_open (o : Outcome) (ev : OpId) (cqe : Cqe) (ho : s.state ≠ .kOpen) :
    (s.onRecv o ev cqe).1.delivered = s.delivered ∧ (s.onRecv o ev cqe).1.state ≠ .kOpen := by
  have hd : (s.endRecv cqe.more).delivered = s.delivered :=
    congrArg RecvView.delivered (recvView_of_data (data_endRecv s cqe.more))
  unfold onRecv
  dsimp only
  rw [if_neg (by simp [canUseOnOwner, ho])]
  exact ⟨hd, by rw [state_endRecv]; exact ho⟩

/-- End of stream closes the session without running any callback first. -/
theorem onRecvTail_eof_not_open (s : Session) (o : Outcome) (more : Bool) :
    (s.onRecvTail o 0 more).1.state ≠ .kOpen := by
  unfold onRecvTail
  generalize s.completeRecv more = t
  dsimp only
  split
  · next hc =>
    intro h
    have := (control_tryRelease t).isOpen h
    simp [canUseOnOwner, this] at hc
  · rw [if_pos rfl]
    exact disconnectOnOwner_not_open t o _

/-- `delivered` stays and the session is not reopened. -/
def StaysClosed (s t : Session) : Prop := t.delivered = s.delivered ∧ t.state ≠ .kOpen

theorem staysClosed_of_quiet {r : Seg} (h : RecvQuiet s r) (ho : s.state ≠ .kOpen) :
    s.StaysClosed r.1 :=
  ⟨congrArg RecvView.delivered h.view, fun h' => ho (h.isOpen h')⟩

theorem staysClosed_exec (o : Outcome) (i : Instr) (ho : s.state ≠ .kOpen) :
    s.StaysClosed (exec o s i).1 := by
  have hc : s.canUseOnOwner = false := by simpa [canUseOnOwner] using ho
  cases hi : isRecvInstr i with
  | false => exact staysClosed_of_quiet (recvQuiet_exec o s hi) ho
  | true =>
    cases i with
    | backpressureRaised =>
      have hd : s.pauseOnBackpressure.delivered = s.delivered := by
        unfold pauseOnBackpressure; split <;> rfl
      simp only [exec, backpressureRaised]
      split <;> simp [StaysClosed, disconnectOnOwner, hd, ho]
    | backpressureCleared =>
      simp only [exec, backpressureCleared]
      split
      · simp [StaysClosed, drainPausedRecv, canUseOnOwner, setRecvPaused, ho]
      · exact ⟨rfl, ho⟩
    | drainPausedRecv => simp [StaysClosed, exec, drainPausedRecv, hc, ho]
    | _ => cases hi

theorem staysClosed_call (o : Outcome) (a : Api) (ho : s.state ≠ .kOpen) :
    s.StaysClosed (call o s a).1 := by
  have hc : s.canUseOnOwner = false := by simpa [canUseOnOwner] using ho
  by_cases hp : a = .pauseRecv
  · subst hp
    simp [StaysClosed, call, pauseRecv, hc, ho]
  · by_cases hr : a = .resumeRecv
    · subst hr
      simp [StaysClosed, call, resumeRecv, hc, ho]
    · exact staysClosed_of_quiet (recvQuiet_call o s hp hr) ho

theorem staysClosed_complete (o : Outcome) (cqe : Cqe) (op : Op) (ho : s.state ≠ .kOpen) :
    s.StaysClosed (s.complete o cqe op).1 := by
  by_cases hk : op.kind = .recv
  · cases op with
    | recv ev =>
      have hv : (s.retireRecv ev cqe.more).delivered = s.delivered :=
        congrArg RecvView.delivered (recvView_retireRecv s _ _)
      have ho' : ((s.retireRecv ev cqe.more).recordReceived cqe.view).state ≠ .kOpen := by
        show (s.retireRecv ev cqe.more).state ≠ .kOpen
        rw [state_retireRecv]
        exact ho
      obtain ⟨h1, h2⟩ := onRecv_not_open o ev cqe ho'
      exact ⟨h1.trans hv, h2⟩
    | _ => cases hk
  · exact staysClosed_of_quiet (recvQuiet_complete o s cqe hk) ho

/-- Once closing has begun, or is the next thing to happen, nothing more is delivered. -/
theorem delivered_preserved (d : Bytes) : machine.Preserved fun s st => s.delivered = d ∧
    (s.state ≠ .kOpen ∨ ∃ more rest, st = .code (.onRecvTail 0 more) :: rest) where
  exec := by
    rintro o s i rest ⟨hd, ho | ⟨more, rest', hst⟩⟩
    · obtain ⟨h1, h2⟩ := staysClosed_exec o i ho
      exact ⟨h1.trans hd, .inl h2⟩
    · cases hst
      have hq := recvQuiet_exec o s (i := .onRecvTail 0 more) rfl
      exact ⟨(congrArg RecvView.delivered hq.view).trans hd,
        .inl (onRecvTail_eof_not_open s o more)⟩
  call := by
    rintro o s a st hu ⟨hd, ho | ⟨more, rest, rfl⟩⟩
    · obtain ⟨h1, h2⟩ := staysClosed_call o a ho
      exact ⟨h1.trans hd, .inl h2⟩
    · cases hu
  ret := by
    rintro s k b rest ⟨hd, h⟩
    have hs : (machine.ret s k b).delivered = s.delivered ∧
        (machine.ret s k b).state = s.state := by cases k <;> exact ⟨rfl, rfl⟩
    rw [hs.1, hs.2]
    exact ⟨hd, .inl (h.resolve_right fun ⟨_, _, h'⟩ => by cases h')⟩
  event := by
    rintro o s e r he ⟨hd, h⟩
    obtain ⟨op, -, -, rfl⟩ := event_cases he
    have ho : s.state ≠ .kOpen := h.resolve_right fun ⟨_, _, h'⟩ => by cases h'
    obtain ⟨h1, h2⟩ := staysClosed_complete o e.2 op ho
    exact ⟨h1.trans hd, .inl h2⟩

theorem flatten_eq_nil_of_ne {queue : List Bytes} (h : ∀ chunk ∈ queue, chunk ≠ []) :
    queue.flatten = [] ↔ queue = [] := by
  rw [List.flatten_eq_nil_iff]
  refine ⟨fun hn => List.eq_nil_iff_forall_not_mem.2 fun c hc => h c hc (hn c hc), ?_⟩
  rintro rfl
  simp

/-- The end of the stream arrives in an open session. Every byte received
before it has been handed to `OnRecv` in any later state, so when
`OnDisconnected` runs too, exactly if no chunk was waiting. -/
theorem eof_delivery {cfg : Config} {c c₁ c₂ : SConf} {o : Outcome} {ev id : OpId} {cqe : Cqe}
    (hr : Reachable cfg c) (ho : c.state.state = .kOpen)
    (hop : c.state.inFlight.find? (·.id == ev) = some (.recv id)) (hres : cqe.res = 0)
    (hstep : machine.step c (.event o (ev, cqe)) = some c₁) (hr₂ : machine.Reachable c₁ c₂) :
    c₂.state.delivered = c.state.received ↔ c.state.pausedRecvQueue = [] := by
  rcases Machine.step_cases hstep with ⟨_, _, _, h, -⟩ | ⟨_, _, h, -⟩ | ⟨_, _, _, h, -⟩ |
    ⟨o', e, r, h, htop, he, rfl⟩
  · cases h
  · cases h
  · cases h
  cases h
  obtain ⟨op, hop', -, rfl⟩ := event_cases he
  cases Option.some.inj (hop.symm.trans hop')
  have h0 : (c.state.complete o cqe (.recv id)).1.delivered = c.state.delivered ∧
      (c.state.complete o cqe (.recv id)).2 =
        [.code (.onRecvTail 0 cqe.more),
          .code (.dispatched id (if cqe.more then .kPending else .kComplete))] := by
    unfold complete onRecv
    dsimp only
    rw [if_neg (by simp [hres]), hres]
    refine ⟨?_, rfl⟩
    have h1 := congrArg RecvView.delivered (recvView_of_data
      (data_endRecv ((c.state.retireRecv id cqe.more).recordReceived cqe.view) cqe.more))
    exact h1.trans (congrArg RecvView.delivered (recvView_retireRecv c.state id cqe.more))
  have hlast := ((delivered_preserved c.state.delivered).reachable hr₂
    ⟨h0.1, .inr ⟨_, _, h0.2⟩⟩).1
  have hinv := recvInv_reachable hr
  have hst : c.state.received = c.state.delivered ++ c.state.pausedRecvQueue.flatten :=
    hinv.stream ho
  have hch : ∀ chunk ∈ c.state.pausedRecvQueue, chunk ≠ [] := hinv.chunks
  rw [hlast, hst, ← flatten_eq_nil_of_ne hch, List.self_eq_append_right]

/-- A byte arrives and is handed on. -/
def recvRun : List SInput :=
  [.call {} .start, .ret false, .exec {}, .event {} (0, ⟨1, true, [7]⟩), .ret false, .exec {},
    .exec {}]

/-- The peer closes, and the session with it. -/
def eofRun : List SInput := [.exec {}, .exec {}, .event {} (1, ⟨0, false, []⟩)]

theorem eof_delivery_unpaused :
    ∃ c c₁ c₂, machine.run (initConf {}) recvRun = some c ∧
      machine.step c (.event {} (0, ⟨0, false, []⟩)) = some c₁ ∧ machine.run c₁ eofRun = some c₂ ∧
      c₂.stack.head? = some (.callback .onDisconnected) ∧ c₂.state.delivered = c.state.received :=
  ⟨_, _, _, rfl, rfl, rfl, rfl,
    (@eof_delivery {} _ _ _ {} 0 0 ⟨0, false, []⟩ (.of_run recvRun rfl) rfl rfl rfl rfl
      (.of_run eofRun rfl)).2 rfl⟩

/-- With receiving paused the byte waits, and is lost when the peer closes. -/
def pausedRecvRun : List SInput :=
  [.call {} .start, .ret false, .exec {}, .call {} .pauseRecv,
    .event {} (0, ⟨1, true, [7]⟩), .exec {}, .exec {},
    .event {} (0, ⟨0, false, []⟩), .exec {}, .exec {}, .event {} (1, ⟨0, false, []⟩)]

theorem eof_drops_paused_bytes :
    ∃ c, machine.run (initConf {}) pausedRecvRun = some c ∧
      c.stack.head? = some (.callback .onDisconnected) ∧
      c.state.closeCause = some .peerClose ∧
      c.state.received = [7] ∧ c.state.delivered ≠ c.state.received :=
  ⟨_, rfl, rfl, rfl, rfl, by decide⟩

end Session

end IouringRuntime
