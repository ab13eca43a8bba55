import IouringRuntime.Session.SendStream

/-!
# Flush before close

`DisconnectAfterFlush` closes the session once nothing is left to send. The
test in `TryDisconnectAfterFlush` looks at the active send and the queue, but
`RegisterSend` and `OnSend` hold a drained batch while they run
`UpdateBackpressure`, whose callback may ask for the close. A run shuts down
before everything accepted was sent exactly if such a request passes the test
while a batch is held (`flush_before_close`).
-/

namespace IouringRuntime

open Reentrant

namespace Session

/-- Every shutdown that waited for the flush came after all bytes accepted. -/
def Flushed (s : Session) : Prop :=
  ∀ x ∈ s.shutdowns, x.cause = .afterFlush → x.sent = x.accepted

theorem flushed_iff {s : Session} : s.Flushed ↔ ∀ x ∈ s.flushes, x.sent = x.accepted := by
  simp only [Flushed, flushes, List.mem_filter, beq_iff_eq, and_imp]

/-- The flush test passes, apart from the flag, and the shutdown is prepared. -/
def passesFlush (s : Session) (o : Outcome) : Bool :=
  s.canUseOnOwner && s.activeSendEv.isNone && s.sendQueue.snapshot.currentDepth == 0 &&
    !o.hasPendingAppWork && o.newDisconnect && o.prepDisconnect

/-- The step is a call of `DisconnectAfterFlush` or `EndAppIo` whose flush test passes. -/
def closesAfterFlush (c : SConf) : SInput → Bool
  | .call o .disconnectAfterFlush => c.state.passesFlush o
  | .call o .endAppIo => c.state.disconnectAfterFlush && c.state.passesFlush o
  | _ => false

/-- No such call is made while a drained batch with bytes in it is held. -/
def NoneHeld (c : SConf) (i : SInput) : Prop :=
  closesAfterFlush c i = true → heldBytes c.stack = []

/-! ## Who prepares a shutdown -/

theorem aside_flushes : Aside Session.flushes fun _ _ => false where
  data h := congrArg Data.flushes h
  backpressure _ _ _ := rfl
  control _ _ := rfl
  released _ := rfl

theorem asideRecv_flushes : AsideRecv Session.flushes fun _ _ => false where
  toAside := aside_flushes
  paused _ _ := rfl
  queue _ _ _ := rfl
  deliver _ _ := rfl
  received _ _ := rfl
  recv _ _ := rfl

theorem asideSend_flushes : AsideSend Session.flushes fun _ _ => false where
  toAside := aside_flushes
  sendQueue _ _ := rfl
  active _ _ := rfl
  prep _ _ := rfl
  retire _ _ := rfl
  send _ _ := rfl

abbrev FlushQuiet (s : Session) (r : Seg) : Prop := Quiet Session.flushes (fun _ _ => false) s r

theorem flushQuiet_sendOnOwner (s : Session) (o : Outcome) (buf : SendBuffer) :
    FlushQuiet s (s.sendOnOwner o buf) := by
  unfold sendOnOwner
  split
  · exact ⟨rfl, rfl, id⟩
  · dsimp only
    split
    · exact (((control_disconnectOnOwner _ o (by simp)).quiet aside_flushes).andThen
        fun _ => rfl).after rfl rfl
    · exact ((aside_flushes.updateBackpressure _ o).andThen fun _ => by simp).after rfl rfl

theorem flushQuiet_exec (o : Outcome) (s : Session) {i : Instr} (h1 : i ≠ .onSendDrained)
    (h2 : i ≠ .onSendTail) : FlushQuiet s (exec o s i) := by
  cases hr : isReturnFrame (.code i) with
  | true =>
    cases i with
    | returnSend => exact ⟨rfl, rfl, fun h => h⟩
    | _ => cases hr
  | false =>
    cases hs : isSendFrame (.code i) with
    | false => exact asideRecv_flushes.exec s o hs hr
    | true =>
      refine asideSend_flushes.exec s o (fun h => (h.elim h1 h2).elim) ?_ ?_ ?_ hr <;>
        rintro rfl <;> cases hs

theorem flushQuiet_call (o : Outcome) (s : Session) {a : Api} (h1 : a ≠ .disconnectAfterFlush)
    (h2 : a ≠ .endAppIo) : FlushQuiet s (call o s a) := by
  by_cases hs : ∃ buf, a = .send buf
  · obtain ⟨buf, rfl⟩ := hs
    exact flushQuiet_sendOnOwner s o buf
  · exact asideRecv_flushes.call s o (fun h => (h.elim h1 h2).elim) fun buf h => hs ⟨buf, h⟩

theorem flushQuiet_complete (o : Outcome) (s : Session) (cqe : Cqe) (op : Op) :
    FlushQuiet s (s.complete o cqe op) := by
  cases op with
  | recv id => exact asideRecv_flushes.completeRecv s o cqe rfl
  | send op => exact asideSend_flushes.completeSend s o cqe op fun _ _ => rfl
  | disconnect id => exact aside_flushes.complete s o cqe rfl nofun nofun
  | cancel id target => exact aside_flushes.complete s o cqe rfl nofun nofun

theorem flushes_prepShutdown (s : Session) (o : Outcome) :
    (s.prepShutdown o .afterFlush).flushes =
      if (o.newDisconnect && o.prepDisconnect) = true
      then s.flushes ++ [⟨.afterFlush, s.sent, dataOf s.accepted⟩] else s.flushes := by
  show (s.prepShutdown o .afterFlush).data.flushes = _
  rw [data_prepShutdown]
  simp only [true_and, Bool.and_eq_true]
  split <;> rfl

theorem flushes_tryDisconnectAfterFlush (s : Session) (o : Outcome) :
    (s.tryDisconnectAfterFlush o).1.flushes =
      if (s.disconnectAfterFlush && s.passesFlush o) = true
      then s.flushes ++ [⟨.afterFlush, s.sent, dataOf s.accepted⟩] else s.flushes := by
  unfold tryDisconnectAfterFlush passesFlush
  cases hf : s.disconnectAfterFlush with
  | false => rfl
  | true =>
    cases ho : s.canUseOnOwner with
    | false => rfl
    | true =>
      have hopen := canUseOnOwner_iff.1 ho
      simp only [Bool.not_true, Bool.or_self, Bool.false_eq_true, if_false, Bool.true_and,
        ← Option.not_isSome]
      split
      · next h =>
        rw [if_neg]
        simp only [Bool.or_eq_true, decide_eq_true_eq] at h
        rcases h with (h | h) | h <;> simp [h]
      · next h =>
        simp only [Bool.or_eq_true, decide_eq_true_eq, not_or, not_not, Bool.not_eq_true] at h
        have hrel := ((control_tryRelease (s.prepShutdown o .afterFlush)).quiet aside_flushes).view
        unfold disconnectOnOwner
        rw [if_neg (by simp [hopen]), hrel, flushes_prepShutdown]
        simp [h]

/-! ## When the test passes -/

/-- What has not been sent when the test passes is held on the stack. -/
theorem sent_append_held {s : Session} {st : List SFrame} {o : Outcome}
    (h : SendInv (s.state = .kOpen) s.sendView (sendFrames st)) (hp : s.passesFlush o = true) :
    s.sent ++ heldBytes st = dataOf s.accepted := by
  simp only [passesFlush, Bool.and_eq_true, Option.isNone_iff_eq_none, beq_iff_eq,
    SendQueue.snapshot, List.length_eq_zero_iff] at hp
  obtain ⟨⟨⟨⟨⟨ho, ha⟩, hq⟩, -⟩, -⟩, -⟩ := hp
  have hst := h.stream (canUseOnOwner_iff.1 ho)
  rw [SendView.inFlightBytes, h.sends_nil ha, List.flatMap_nil, List.append_nil,
    heldBytes_sendFrames, show s.sendView.queue.pending = [] from hq, dataOf_nil,
    List.append_nil] at hst
  exact hst

theorem passesFlush_open {s : Session} {o : Outcome} (hp : s.passesFlush o = true) :
    s.state = .kOpen := by
  simp only [passesFlush, Bool.and_eq_true] at hp
  exact canUseOnOwner_iff.1 hp.1.1.1.1.1

/-- `t` has the shutdowns of `s` and at most one more, which found all bytes sent. -/
def AddsFlushed (s t : Session) : Prop :=
  t.flushes = s.flushes ∨ ∃ x : Shutdown, x.sent = x.accepted ∧ t.flushes = s.flushes ++ [x]

theorem AddsFlushed.flushed {s t : Session} (h : s.AddsFlushed t) (hs : s.Flushed) :
    t.Flushed := by
  rw [flushed_iff] at hs ⊢
  rcases h with h | ⟨x, hx, h⟩
  · rw [h]
    exact hs
  · rw [h]
    intro y hy
    rcases List.mem_append.1 hy with hy | hy
    · exact hs y hy
    · rw [List.mem_singleton.1 hy]
      exact hx

/-- `TryDisconnectAfterFlush` inside `OnSend`, where no batch is held. -/
theorem addsFlushed_tail {s : Session} {o : Outcome} {st fs : List SFrame}
    {f : SFrame} (h : SendInv (s.state = .kOpen) s.sendView (sendFrames st))
    (hst : sendFrames st = f :: fs) (hf : f = .code .onSendDrained ∨ f = .code .onSendTail) :
    s.AddsFlushed (s.tryDisconnectAfterFlush o).1 := by
  unfold AddsFlushed
  rw [flushes_tryDisconnectAfterFlush]
  split
  · next hp =>
    rw [Bool.and_eq_true] at hp
    refine .inr ⟨_, ?_, rfl⟩
    have hheld : heldBytes st = [] := by
      rw [← heldBytes_sendFrames]
      have hphase := h.phase (passesFlush_open hp.2)
      rw [hst] at hphase ⊢
      cases hphase with
      | idle ht => exact ht.held
      | inFlight ht => exact ht.held
      | draining ht => exact ht.held
      | holding => rcases hf with hf | hf <;> cases hf
      | registering => rcases hf with hf | hf <;> cases hf
    have := sent_append_held h hp.2
    rwa [hheld, List.append_nil] at this
  · exact .inl rfl

theorem addsFlushed_onSendTail {s : Session} {o : Outcome} {st fs : List SFrame}
    (h : SendInv (s.state = .kOpen) s.sendView (sendFrames st))
    (hst : sendFrames st = .code .onSendTail :: fs) : s.AddsFlushed (s.onSendTail o).1 := by
  unfold onSendTail
  split
  · exact .inl rfl
  · dsimp only
    split
    · next he =>
      have hp : s.sendQueue.pending = [] := by
        rw [← SendQueue.drainInto_eq_nil (n := kMaxSendIovecs)]; simpa using he
      rw [SendQueue.drainInto_of_nil hp]
      exact addsFlushed_tail h hst (.inr rfl)
    · exact .inl (aside_flushes.updateBackpressure _ o).view

theorem addsFlushed_exec {s : Session} {o : Outcome} {j : Instr} {rest : List SFrame}
    (h : SendInv (s.state = .kOpen) s.sendView (sendFrames (.code j :: rest))) :
    s.AddsFlushed (exec o s j).1 := by
  by_cases h1 : j = .onSendDrained
  · subst h1
    exact addsFlushed_tail h rfl (.inl rfl)
  · by_cases h2 : j = .onSendTail
    · subst h2
      exact addsFlushed_onSendTail h rfl
    · exact .inl (flushQuiet_exec o s h1 h2).view

theorem flushes_disconnectAfterFlush (s : Session) (o : Outcome) :
    (s.disconnectAfterFlushOnOwner o).1.flushes =
      if s.passesFlush o = true
      then s.flushes ++ [⟨.afterFlush, s.sent, dataOf s.accepted⟩] else s.flushes := by
  unfold disconnectAfterFlushOnOwner
  split
  · next hc => rw [if_neg (by simp_all [passesFlush])]
  · exact flushes_tryDisconnectAfterFlush { s with disconnectAfterFlush := true } o

theorem flushes_endAppIo (s : Session) (o : Outcome) :
    (s.endAppIo o).1.flushes =
      if (s.disconnectAfterFlush && s.passesFlush o) = true
      then s.flushes ++ [⟨.afterFlush, s.sent, dataOf s.accepted⟩] else s.flushes := by
  have hsame : s.completeAppIo.passesFlush o = s.passesFlush o ∧
      s.completeAppIo.disconnectAfterFlush = s.disconnectAfterFlush ∧
      s.completeAppIo.flushes = s.flushes ∧ s.completeAppIo.sent = s.sent ∧
      s.completeAppIo.accepted = s.accepted := by
    unfold completeAppIo; split <;> exact ⟨rfl, rfl, rfl, rfl, rfl⟩
  have hcall := flushes_tryDisconnectAfterFlush s.completeAppIo o
  simp only [hsame] at hcall
  exact hcall

/-- What a step does to the shutdowns that wait for the flush. -/
theorem flushes_step {c c' : SConf} {i : SInput}
    (h : SendInv (c.state.state = .kOpen) c.state.sendView (sendFrames c.stack))
    (hs : machine.step c i = some c') :
    (closesAfterFlush c i = true ∧ c.state.sent ++ heldBytes c.stack = dataOf c.state.accepted ∧
      c'.state.flushes =
        c.state.flushes ++ [⟨.afterFlush, c.state.sent, dataOf c.state.accepted⟩]) ∨
    (closesAfterFlush c i = false ∧ c.state.AddsFlushed c'.state) := by
  rcases Machine.step_cases hs with ⟨o, j, rest, rfl, hst, rfl⟩ | ⟨o, a, rfl, hu, rfl⟩ |
    ⟨b, k, rest, rfl, hst, rfl⟩ | ⟨o, e, r, rfl, hst, he, rfl⟩
  · rw [hst] at h
    exact .inr ⟨rfl, addsFlushed_exec h⟩
  · by_cases h1 : a = .disconnectAfterFlush
    · subst h1
      have hcall := flushes_disconnectAfterFlush c.state o
      split at hcall
      · next hp => exact .inl ⟨hp, sent_append_held h hp, hcall⟩
      · next hp => exact .inr ⟨by simpa [closesAfterFlush] using hp, .inl hcall⟩
    · by_cases h2 : a = .endAppIo
      · subst h2
        have hcall := flushes_endAppIo c.state o
        split at hcall
        · next hp => exact .inl ⟨hp, sent_append_held h (Bool.and_eq_true_iff.1 hp).2, hcall⟩
        · next hp => exact .inr ⟨by simpa [closesAfterFlush] using hp, .inl hcall⟩
      · refine .inr ⟨?_, .inl (flushQuiet_call o c.state h1 h2).view⟩
        cases a <;> first | rfl | exact absurd rfl h1 | exact absurd rfl h2
  · exact .inr ⟨rfl, .inl (by cases k <;> rfl)⟩
  · obtain ⟨op, -, -, rfl⟩ := event_cases he
    exact .inr ⟨rfl, .inl (flushQuiet_complete o c.state e.2 op).view⟩

/-- **Flush before close.** Along a run every shutdown that waits for the
flush is prepared after all accepted bytes were sent exactly if no
`DisconnectAfterFlush` or `EndAppIo` passes the flush test while a drained
batch is held. -/
theorem flush_before_close (cfg : Config) (is : List SInput) :
    machine.Visits (fun c => c.state.Flushed) (initConf cfg) is ↔
      machine.Steps NoneHeld (initConf cfg) is := by
  refine Trace.visits_iff_steps (J := fun c : SConf => c.state.Flushed ∧
      SendInv (c.state.state = .kOpen) c.state.sendView (sendFrames c.stack))
    (fun _ hJ => hJ.1) ?_ ?_ is ⟨fun _ h => absurd h List.not_mem_nil, sendInv_reachable .refl⟩
  · rintro c i c' ⟨hf, hinv⟩ hs hQ
    refine ⟨?_, sendInv_preserved.step hs hinv⟩
    rcases flushes_step hinv hs with ⟨hc, hall, h⟩ | ⟨-, h⟩
    · rw [hQ hc, List.append_nil] at hall
      exact AddsFlushed.flushed (.inr ⟨_, hall, h⟩) hf
    · exact h.flushed hf
  · rintro c i c' ⟨-, hinv⟩ hs hQ hf
    simp only [NoneHeld, Classical.not_imp] at hQ
    rcases flushes_step hinv hs with ⟨-, hall, h⟩ | ⟨hc, -⟩
    · rw [flushed_iff] at hf
      have hx : c.state.sent = dataOf c.state.accepted :=
        hf _ (by rw [h]; exact List.mem_append_right _ (List.mem_singleton_self _))
      rw [← hx, List.append_right_eq_self] at hall
      exact hQ.2 hall
    · rw [hc] at hQ
      exact absurd hQ.1 (by simp)

/-- With a high watermark of one the send raises backpressure, and draining
the queue clears it; `OnBackpressure(false)` asks for the close. -/
def heldBatchRun : List SInput :=
  [.call {} (.send ⟨[5]⟩), .ret false, .exec {}, .exec {}, .call {} .disconnectAfterFlush]

theorem shutdown_before_flush :
    ∃ c, machine.run (initConf { sendQueueHighWatermark := 1 }) heldBatchRun = some c ∧
      c.state.closeCause = some .afterFlush ∧
      c.state.shutdowns = [⟨.afterFlush, [], [5]⟩] ∧ ¬ c.state.Flushed := by
  refine ⟨_, rfl, rfl, rfl, fun h => ?_⟩
  have := h ⟨.afterFlush, [], [5]⟩ (List.mem_singleton_self _) rfl
  cases this

end Session

end IouringRuntime
