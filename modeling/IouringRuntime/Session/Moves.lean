import Mathlib.Logic.Relation
import IouringRuntime.Session.Control

/-!
# What a segment does to the session's life

`Life` is the part of the session that says how far it has come: the state,
the two counters, the operations allocated, in flight and deleted, the two
active operations, the shutdowns. `Move` lists what the code can do to it, one
constructor for each place of the source that prepares an operation or writes
`state_`; a recv or a send is armed only at the end of a segment (`Arms`).
`Does` says that a segment is a sequence of moves with at most one operation
armed after it, and leaves none of the frames that finish a completion. The
session's functions are gone through once: `does_exec`, `does_call` and
`completes` say what every input of the machine does, and an invariant of
`Life` is proved move by move.
-/

namespace IouringRuntime

open Reentrant

structure Life where
  cfg : Config
  state : SessionState
  pendingIo : Nat
  pendingAppIo : Nat
  lastActivity : Nat
  activeRecvEv : Option OpId
  activeSendEv : Option OpId
  inFlight : List Op
  nextOp : OpId
  deleted : List OpId
  stateLog : List SessionState
  closeCause : Option CloseCause
  prepared : List (OpKind × SessionState)
  shutdowns : List Shutdown
  guardHits : Nat
  disconnectedCalls : List (Nat × Nat)
  closedAppIo : Nat
  releaseCalls : List ReleaseCall

/-- The outcome of the `Prep*` of a kind. -/
def Outcome.prep (o : Outcome) : OpKind → Bool
  | .recv => o.prepRecv
  | .send => o.prepSend
  | .disconnect => o.prepDisconnect
  | .cancel => o.prepCancel

namespace Session

def life (s : Session) : Life where
  cfg := s.cfg
  state := s.state
  pendingIo := s.pendingIo
  pendingAppIo := s.pendingAppIo
  lastActivity := s.lastActivity
  activeRecvEv := s.activeRecvEv
  activeSendEv := s.activeSendEv
  inFlight := s.inFlight
  nextOp := s.nextOp
  deleted := s.deleted
  stateLog := s.stateLog
  closeCause := s.closeCause
  prepared := s.prepared
  shutdowns := s.shutdowns
  guardHits := s.guardHits
  disconnectedCalls := s.disconnectedCalls
  closedAppIo := s.closedAppIo
  releaseCalls := s.releaseCalls

/-- The test of `Tick` for the inactivity timeout. -/
def Expired (s : Session) (o : Outcome) (now : Nat) : Prop :=
  0 < s.cfg.inactivityTimeout ∧ s.lastActivity ≠ 0 ∧
    s.lastActivity + s.cfg.inactivityTimeout ≤ now ∧ !o.hasPendingAppWork

/-- A fresh operation is prepared. -/
def arm (s : Session) (op : Op) : Session := s.newOp.beginPendingIo.prep op

/-- One thing the code can do to the session's life. `idle` is what must hold
for the inactivity timeout to be the cause of a close. -/
inductive Move (o : Outcome) (idle : Prop) : Session → Session → Prop where
  | aside {s t : Session} : t.life = s.life → Move o idle s t
  | touch (s : Session) : Move o idle s (s.touchActivity o)
  /-- A `Prep*` failed, and its operation is deleted. -/
  | refused (s : Session) (kind : OpKind) : o.prep kind = false →
      Move o idle s (s.newOp.deleteOp s.nextOp)
  /-- The session leaves `kOpen` with a shutdown. -/
  | shut (s : Session) (cause : CloseCause) : s.state = .kOpen →
      (cause = .inactivityTimeout → idle) → o.newDisconnect = true → o.prepDisconnect = true →
      Move o idle s (((s.beginDisconnect cause).arm (.disconnect s.nextOp)).recordShutdown cause)
  /-- The session leaves `kOpen` without one. -/
  | unshut (s : Session) (cause : CloseCause) : s.state = .kOpen →
      (cause = .inactivityTimeout → idle) → (o.newDisconnect && o.prepDisconnect) = false →
      Move o idle s (s.beginDisconnect cause)
  | armCancel (s : Session) (target : OpId) : s.state = .kClosing → s.shutdowns ≠ [] →
      s.activeRecvEv = some target → Move o idle s (s.arm (.cancel s.nextOp target))
  | drain (s : Session) : s.state = .kClosing → s.shutdowns ≠ [] →
      Move o idle s (s.setState .kDraining)
  | closed (s : Session) : s.state ≠ .kOpen → s.state ≠ .kClosed → s.pendingIo = 0 →
      s.pendingAppIo = 0 → Move o idle s (s.setState .kClosed).callDisconnected

abbrev Moves (o : Outcome) (idle : Prop) : Session → Session → Prop :=
  Relation.ReflTransGen (Move o idle)

/-- A recv or a send is armed with the last thing a segment does. -/
inductive Arms : Session → Session → Prop where
  | none (s : Session) : Arms s s
  | recv (s : Session) : s.state = .kOpen → s.activeRecvEv = none →
      Arms s ((s.arm (.recv s.nextOp)).setActiveRecvEv (some s.nextOp))
  | send (s : Session) (op : SendOp) : s.state = .kOpen → s.activeSendEv = none →
      op.id = s.nextOp → Arms s ((s.arm (.send op)).setActiveSendEv (some op.id))

def Effect (o : Outcome) (idle : Prop) (s u : Session) : Prop := ∃ t, Moves o idle s t ∧ Arms t u

/-- Not one of the frames that finish a completion. -/
def isPlain : SFrame → Bool
  | .code (.onRecvTail _ _) | .code (.dispatched _ _) => false
  | _ => true

structure Does (o : Outcome) (idle : Prop) (s : Session) (r : Seg) : Prop where
  effect : Effect o idle s r.1
  frames : r.2.all isPlain = true

variable {o : Outcome} {idle : Prop} {s t u : Session} {r : Seg}

/-- What every move keeps is kept by a segment. -/
theorem Moves.keep {I : Session → Prop} (h : Moves o idle s t)
    (keep : ∀ {s t}, Move o idle s t → I s → I t) (hI : I s) : I t := by
  induction h with
  | refl => exact hI
  | tail _ hm ih => exact keep hm ih

/-- The same for the whole effect, with an invariant of its own for the armed session. -/
theorem Effect.keep {I J : Session → Prop} (h : Effect o idle s u)
    (keep : ∀ {s t}, Move o idle s t → I s → I t) (arms : ∀ {s t}, Arms s t → I s → J t)
    (hI : I s) : J u := by
  obtain ⟨t, hm, ha⟩ := h
  exact arms ha (hm.keep keep hI)

theorem Move.mono {idle' : Prop} (h : Move o idle s t) (hi : idle → idle') :
    Move o idle' s t := by
  cases h with
  | aside h => exact .aside h
  | touch => exact .touch s
  | refused kind h => exact .refused s kind h
  | shut cause ho hc hn hp => exact .shut s cause ho (hi ∘ hc) hn hp
  | unshut cause ho hc hf => exact .unshut s cause ho (hi ∘ hc) hf
  | armCancel target hs hd ha => exact .armCancel s target hs hd ha
  | drain hs hd => exact .drain s hs hd
  | closed ho hc hio happ => exact .closed s ho hc hio happ

theorem Effect.mono {idle' : Prop} (h : Effect o idle s t) (hi : idle → idle') :
    Effect o idle' s t := by
  obtain ⟨u, hm, ha⟩ := h
  exact ⟨u, Relation.ReflTransGen.mono (fun _ _ hm => Move.mono hm hi) _ _ hm, ha⟩

namespace Does

theorem of_moves (h : Moves o idle s r.1) (hk : r.2.all isPlain = true) : Does o idle s r :=
  ⟨⟨r.1, h, .none r.1⟩, hk⟩

theorem of_arms (h : Arms s r.1) (hk : r.2.all isPlain = true) : Does o idle s r :=
  ⟨⟨s, .refl, h⟩, hk⟩

theorem refl (s : Session) : Does o idle s (s, []) := of_arms (.none s) rfl

theorem after (h : Does o idle t r) (hm : Moves o idle s t) : Does o idle s r := by
  obtain ⟨⟨u, hu, ha⟩, hk⟩ := h
  exact ⟨⟨u, hm.trans hu, ha⟩, hk⟩

theorem move (h : Does o idle t r) (hm : Move o idle s t) : Does o idle s r := h.after (.single hm)

theorem aside (h : Does o idle t r) (hl : t.life = s.life) : Does o idle s r := h.move (.aside hl)

theorem andThen (h : Does o idle s r) {k : List SFrame} (hk : k.all isPlain = true) :
    Does o idle s (r.andThen k) :=
  ⟨h.effect, by rw [Seg.andThen_snd, List.all_append, h.frames, hk]; rfl⟩

theorem mono {idle' : Prop} (h : Does o idle s r) (hi : idle → idle') : Does o idle' s r :=
  ⟨h.effect.mono hi, h.frames⟩

/-- A segment that leaves the session's life alone. -/
theorem same (hl : r.1.life = s.life) (hk : r.2.all isPlain = true) : Does o idle s r :=
  of_moves (.single (.aside hl)) hk

end Does

/-! ## Closing -/

theorem completePendingIo_beginPendingIo (s : Session) :
    s.beginPendingIo.completePendingIo = s := by
  simp [beginPendingIo, completePendingIo]

/-- The counter's part of `Life` depends on nothing else. -/
theorem life_completePendingIo (h : t.life = s.life) :
    t.completePendingIo.life = s.completePendingIo.life := by
  have heq (s : Session) : s.completePendingIo.life =
      if 0 < s.life.pendingIo then { s.life with pendingIo := s.life.pendingIo - 1 }
      else { s.life with guardHits := s.life.guardHits + 1 } := by
    unfold completePendingIo
    show _ = if 0 < s.pendingIo then _ else _
    split <;> rfl
  rw [heq, heq, h]

theorem does_tryRelease (s : Session) : Does o idle s s.tryRelease := by
  rcases s.tryRelease_cases with h | ⟨ho, hc, hio, happ, h⟩
  · rw [h]; exact .refl s
  · rw [h]; exact .of_moves (.single (.closed s ho hc hio happ)) rfl

theorem moves_prepCancelRecv (hs : s.state = .kClosing) (hd : s.shutdowns ≠ []) :
    Moves o idle s (s.prepCancelRecv o) := by
  unfold prepCancelRecv
  split
  · exact .refl
  · next target ht =>
    split
    · exact .refl
    · dsimp only
      split
      · exact .single (.armCancel s target hs hd ht)
      · next hp =>
        rw [completePendingIo_beginPendingIo]
        exact .single (.refused s .cancel (by simpa [Outcome.prep] using hp))

theorem shutdowns_prepCancelRecv (s : Session) (o : Outcome) :
    (s.prepCancelRecv o).shutdowns = s.shutdowns := by
  unfold prepCancelRecv
  split
  · rfl
  · split
    · rfl
    · dsimp only
      split
      · rfl
      · rw [completePendingIo_beginPendingIo]; rfl

theorem moves_prepShutdown {cause : CloseCause} (ho : s.state = .kOpen)
    (hi : cause = .inactivityTimeout → idle) : Moves o idle s (s.prepShutdown o cause) := by
  unfold prepShutdown
  dsimp only
  split
  · next hn => exact .single (.unshut s cause ho hi (by simp_all))
  · next hn =>
    split
    · next hp =>
      rw [completePendingIo_beginPendingIo]
      refine .tail (.single (.unshut s cause ho hi (by simp_all))) ?_
      exact .refused (s.beginDisconnect cause) .disconnect (by simpa [Outcome.prep] using hp)
    · next hp =>
      have hm : Move o idle s
          (((s.beginDisconnect cause).arm (.disconnect s.nextOp)).recordShutdown cause) :=
        .shut s cause ho hi (by simpa using hn) (by simpa using hp)
      refine .trans (.single hm) (.trans (moves_prepCancelRecv (o := o) rfl ?_) ?_)
      · exact List.append_ne_nil_of_right_ne_nil _ (List.cons_ne_nil _ _)
      · unfold markDrainingOnOwner
        split
        · next hs =>
          refine .single (.drain _ hs ?_)
          rw [shutdowns_prepCancelRecv]
          exact List.append_ne_nil_of_right_ne_nil _ (List.cons_ne_nil _ _)
        · exact .refl

theorem does_disconnectOnOwner (s : Session) {cause : CloseCause}
    (hi : cause = .inactivityTimeout → idle) : Does o idle s (s.disconnectOnOwner o cause) := by
  unfold disconnectOnOwner
  split
  · exact .refl s
  · next ho => exact (does_tryRelease _).after (moves_prepShutdown (not_not.1 ho) hi)

theorem does_close (s : Session) {cause : CloseCause} (hc : cause ≠ .inactivityTimeout) :
    Does o idle s (s.disconnectOnOwner o cause) :=
  does_disconnectOnOwner s fun h => absurd h hc

theorem does_tryDisconnectAfterFlush (s : Session) :
    Does o idle s (s.tryDisconnectAfterFlush o) := by
  unfold tryDisconnectAfterFlush
  split
  · exact .refl s
  · split
    · exact .refl s
    · exact does_close s (by simp)

/-! ## Receiving -/

theorem does_registerRecv (s : Session) : Does o idle s (s.registerRecv o) := by
  unfold registerRecv
  split
  · exact .refl s
  · next hc =>
    have ho : s.state = .kOpen := kOpen_of_not_refused hc
    split
    · exact .refl s
    · next ha =>
      split
      · exact does_close s (by simp)
      · dsimp only
        split
        · next hp =>
          rw [completePendingIo_beginPendingIo]
          refine Does.move (does_close _ (by simp)) ?_
          exact .refused s .recv (by simpa [Outcome.prep] using hp)
        · exact .of_arms (.recv s ho (by simpa using ha)) rfl

theorem does_onRecvTail (s : Session) (res : Int) (more : Bool) :
    Does o idle (s.completeRecv more) (s.onRecvTail o res more) := by
  unfold onRecvTail
  generalize s.completeRecv more = t
  have hr : Does o idle t (if !t.recvPaused then t.registerRecv o else (t, [])) := by
    split
    · exact does_registerRecv t
    · exact .refl t
  dsimp only
  split
  · exact does_tryRelease t
  · split
    · exact does_close t (by simp)
    · split
      · exact hr
      · split
        · exact does_close t (by simp)
        · split
          · exact hr
          · exact .refl t

theorem does_drainPausedRecv (s : Session) : Does o idle s s.drainPausedRecv := by
  unfold drainPausedRecv
  split
  · split
    · exact .refl s
    · exact .same rfl rfl
  · exact .refl s

/-- `ResumeRecv` past its test, and `UpdateBackpressure` after `OnBackpressure(false)`. -/
theorem does_resume (s : Session) :
    Does o idle s ((s.setRecvPaused false).drainPausedRecv.andThen [.code .registerRecv]) :=
  ((does_drainPausedRecv (s.setRecvPaused false)).andThen rfl).aside rfl

theorem life_queuePausedRecv {data : Bytes} (h : s.queuePausedRecv data = some t) :
    t.life = s.life := by
  unfold queuePausedRecv at h
  split at h
  · cases h; rfl
  · dsimp only at h
    split at h
    · cases h
    · cases h; rfl

/-- The frames that finish a recv completion. -/
def recvTail (id : OpId) (cqe : Cqe) : List SFrame :=
  [.code (.onRecvTail cqe.res cqe.more),
    .code (.dispatched id (if cqe.more then .kPending else .kComplete))]

theorem does_onRecv (s : Session) (id : OpId) (cqe : Cqe) :
    ∃ r, Does o idle (s.endRecv cqe.more) r ∧ s.onRecv o id cqe = r.andThen (recvTail id cqe) := by
  unfold onRecv
  dsimp only
  generalize s.endRecv cqe.more = t
  split
  · split
    · split
      · next u hq =>
        refine ⟨(u, []), ?_, rfl⟩
        exact ((Does.refl u).aside (life_queuePausedRecv hq)).move (.touch t)
      · exact ⟨_, (does_close _ (by simp)).move (.touch t), rfl⟩
    · refine ⟨((t.touchActivity o).deliver cqe.view, [.callback (.onRecv cqe.view)]), ?_, rfl⟩
      exact (Does.same (s := t.touchActivity o) rfl rfl).move (.touch t)
  · exact ⟨(t, []), .refl t, rfl⟩

/-! ## Sending -/

theorem does_updateBackpressure (s : Session) : Does o idle s (s.updateBackpressure o) := by
  unfold updateBackpressure
  dsimp only
  split
  · split
    · exact .refl s
    · exact .same rfl rfl
  · split
    · exact .refl s
    · exact .same rfl rfl

theorem does_backpressureRaised (s : Session) : Does o idle s (s.backpressureRaised o) := by
  have hl : s.pauseOnBackpressure.life = s.life := by
    unfold pauseOnBackpressure; split <;> rfl
  unfold backpressureRaised
  dsimp only
  split
  · exact (does_close _ (by simp)).aside hl
  · exact (Does.refl _).aside hl

theorem does_sendBatch (s : Session) (bufs : List SendBuffer) :
    Does o idle s (s.sendBatch o bufs) := by
  unfold sendBatch
  split
  · exact .refl s
  · next hc =>
    have ho : s.state = .kOpen := kOpen_of_not_refused hc
    split
    · exact .refl s
    · next ha =>
      split
      · exact does_close s (by simp)
      · unfold sendInFlightBatch
        split
        · -- the test has just been made
          next hc' => exact absurd hc' hc
        · dsimp only
          split
          · next hp =>
            rw [completePendingIo_beginPendingIo]
            refine Does.move (does_close _ (by simp)) ?_
            exact .refused s .send (by simpa [Outcome.prep] using hp)
          · refine .of_arms ?_ rfl
            exact .send s ⟨s.nextOp, bufs.map Iovec.ofBuffer, bufs⟩ ho (by simpa using ha) rfl

/-- The batch drained from the queue waits for the callbacks. -/
theorem does_drained (s : Session) (q : SendQueue) {k : List SFrame} (hk : k.all isPlain = true) :
    Does o idle s (((s.setSendQueue q).updateBackpressure o).andThen k) :=
  ((does_updateBackpressure (s.setSendQueue q)).andThen hk).aside rfl

theorem does_registerSend (s : Session) : Does o idle s (s.registerSend o) := by
  unfold registerSend
  split
  · exact .refl s
  · split
    · exact .refl s
    · dsimp only
      split
      · exact .same rfl rfl
      · exact does_drained s _ rfl

theorem does_sendOnOwner (s : Session) (buf : SendBuffer) :
    Does o idle s (s.sendOnOwner o buf) := by
  unfold sendOnOwner
  split
  · exact .same rfl rfl
  · dsimp only
    split
    · refine Does.aside ((does_close _ (by simp)).andThen ?_) rfl
      rfl
    · refine Does.aside ((does_updateBackpressure _).andThen ?_) rfl
      split <;> rfl

theorem does_onSendTail (s : Session) : Does o idle s (s.onSendTail o) := by
  unfold onSendTail
  split
  · exact .refl s
  · dsimp only
    split
    · exact (does_tryDisconnectAfterFlush _).aside rfl
    · exact does_drained s _ rfl

/-- `OnSend` past `CompletePendingIo`; or the operation is put back in flight. -/
theorem does_onSend (s : Session) (op : SendOp) (res : Int) :
    (∃ r, Does o idle (s.clearActiveSend op.id).completePendingIo r ∧
      s.onSend o op res = r.andThen [.code (.dispatched op.id .kComplete)]) ∨
    (s.state = .kOpen ∧ ∃ iovecs bufs, s.onSend o op res =
      (((s.clearActiveSend op.id).prep (.send ⟨op.id, iovecs, bufs⟩)).setActiveSendEv (some op.id),
        [.code (.dispatched op.id .kPending)])) := by
  unfold onSend
  rw [← state_clearActiveSend s op.id]
  generalize s.clearActiveSend op.id = t
  dsimp only
  split
  · exact .inl ⟨_, does_tryRelease _, rfl⟩
  · next hc =>
    have ho : t.state = .kOpen := by simpa [canUseOnOwner] using hc
    split
    · exact .inl ⟨_, does_close _ (by simp), rfl⟩
    · split
      · split
        · exact .inl ⟨_, does_close _ (by simp), rfl⟩
        · exact .inr ⟨ho, _, _, rfl⟩
      · let k : List SFrame := [.callback .onSocketDrained, .code .onSendDrained]
        refine .inl ⟨((t.setSendQueue t.sendQueue.markSent).completePendingIo.updateBackpressure
          o).andThen k, ((does_updateBackpressure _).andThen rfl).aside ?_, ?_⟩
        · exact life_completePendingIo rfl
        · simp [Seg.andThen, k]

/-! ## Ticks -/

theorem does_tickRest (s : Session) (now : Nat) :
    Does o (s.Expired o now) s (s.tickRest o now) := by
  unfold tickRest
  split
  · next h => exact does_disconnectOnOwner s fun _ => h
  · split
    · exact does_close s (by simp)
    · exact .refl s

theorem does_tick (s : Session) (now : Nat) : Does o (s.Expired o now) s (s.tick o now) := by
  unfold tick
  split
  · exact does_tryRelease s
  · split
    · exact .same rfl rfl
    · exact does_tickRest s now

/-! ## The machine -/

/-- The session an instruction starts from: the tail of a final recv
completion first carries out its `CompletePendingIo`. -/
def before (s : Session) : Instr → Session
  | .onRecvTail _ more => s.completeRecv more
  | _ => s

theorem does_exec (o : Outcome) (s : Session) {i : Instr} (hd : ∀ id r, i ≠ .dispatched id r)
    (hr : i ≠ .release) :
    Does o (∃ now, i = .tickTail now ∧ s.Expired o now) (s.before i) (exec o s i) := by
  cases i with
  | dispatched id r => exact absurd rfl (hd id r)
  | release => exact absurd rfl hr
  | backpressureRaised => exact does_backpressureRaised s
  | backpressureCleared =>
    simp only [exec, backpressureCleared]
    split
    · exact does_resume s
    · exact .refl s
  | drainPausedRecv => exact does_drainPausedRecv s
  | registerRecv => exact does_registerRecv s
  | registerSend => exact does_registerSend s
  | returnSend => exact .same rfl rfl
  | sendBatch bufs => exact does_sendBatch s bufs
  | tryRelease => exact does_tryRelease s
  | onSendDrained => exact (does_tryDisconnectAfterFlush s).andThen rfl
  | onSendTail => exact does_onSendTail s
  | onRecvTail res more => exact does_onRecvTail s res more
  | tickTail now =>
    simp only [exec]
    split
    · exact .refl s
    · exact (does_tickRest s now).mono fun h => ⟨now, rfl, h⟩

/-- The session a call starts from, with the change of `pending_app_io_` made. -/
def entered (s : Session) : Api → Session
  | .beginAppIo => s.beginAppIo
  | .endAppIo => s.completeAppIo
  | _ => s

theorem does_call (o : Outcome) (s : Session) (a : Api) :
    Does o (∃ now, a = .tick now ∧ s.Expired o now) (s.entered a) (call o s a) := by
  cases a with
  | start => exact .of_moves (.single (.touch s)) rfl
  | send buf => exact does_sendOnOwner s buf
  | disconnect => exact does_close s (by simp)
  | disconnectAfterFlush =>
    simp only [call, disconnectAfterFlushOnOwner]
    split
    · exact .refl s
    · exact (does_tryDisconnectAfterFlush _).aside rfl
  | pauseRecv =>
    simp only [call, pauseRecv]
    split <;> exact .same rfl rfl
  | resumeRecv =>
    simp only [call, resumeRecv]
    split
    · exact .refl s
    · exact does_resume s
  | beginAppIo => exact .refl _
  | endAppIo => exact (does_tryDisconnectAfterFlush _).andThen rfl
  | tick now => exact (does_tick s now).mono fun h => ⟨now, rfl, h⟩

/-- What the completion of an operation does. -/
inductive Completes (o : Outcome) (s : Session) : Op → Cqe → Seg → Prop where
  /-- A multishot recv goes on. -/
  | more {id : OpId} {cqe : Cqe} {r : Seg} : cqe.more = true → Does o False s r →
      Completes o s (.recv id) cqe (r.andThen (recvTail id cqe))
  /-- The last completion of a recv; its tail owes the `CompletePendingIo`. -/
  | last {id : OpId} {cqe : Cqe} {r : Seg} : cqe.more = false →
      Does o False ((s.retire id).setActiveRecvEv none) r →
      Completes o s (.recv id) cqe (r.andThen (recvTail id cqe))
  | sent {op : SendOp} {cqe : Cqe} {r : Seg} :
      Does o False ((s.retire op.id).clearActiveSend op.id).completePendingIo r →
      Completes o s (.send op) cqe (r.andThen [.code (.dispatched op.id .kComplete)])
  /-- A partial send is put back in flight. -/
  | resent {op : SendOp} {cqe : Cqe} {t : Session} {iovecs : List Iovec} {bufs : List SendBuffer} :
      s.state = .kOpen → t.life = ((s.retire op.id).clearActiveSend op.id).life →
      Completes o s (.send op) cqe ((t.prep (.send ⟨op.id, iovecs, bufs⟩)).setActiveSendEv
        (some op.id), [.code (.dispatched op.id .kPending)])
  | control {op : Op} {cqe : Cqe} {r : Seg} : op.kind = .disconnect ∨ op.kind = .cancel →
      Does o False (s.retire op.id).completePendingIo r →
      Completes o s op cqe (r.andThen [.code (.dispatched op.id .kComplete)])

theorem completes (o : Outcome) (s : Session) (op : Op) (cqe : Cqe) :
    Completes o s op cqe (s.complete o cqe op) := by
  cases op with
  | recv id =>
    obtain ⟨r, hr, he⟩ := @does_onRecv o False
      ((s.retireRecv id cqe.more).recordReceived cqe.view) id cqe
    rw [complete, he]
    cases hm : cqe.more with
    | true =>
      refine .more hm (hr.aside ?_)
      rw [hm]
      rfl
    | false =>
      refine .last hm (hr.aside ?_)
      rw [hm]
      rfl
  | send op =>
    have hl : (((s.retire op.id).recordSent ((covered op.iovecs).take cqe.res.toNat)).clearActiveSend
        op.id).life = ((s.retire op.id).clearActiveSend op.id).life := by
      unfold clearActiveSend
      show life (if s.activeSendEv = some op.id then _ else _) =
        life (if s.activeSendEv = some op.id then _ else _)
      split <;> rfl
    rw [complete]
    rcases @does_onSend o False ((s.retire op.id).recordSent
      ((covered op.iovecs).take cqe.res.toNat)) op cqe.res with ⟨r, hr, he⟩ | ⟨ho, _, _, he⟩
    · rw [he]
      exact .sent (hr.aside (life_completePendingIo hl))
    · rw [he]
      exact .resent ho hl
  | disconnect id => exact .control (.inl rfl) (does_tryRelease _)
  | cancel id target => exact .control (.inr rfl) (does_tryRelease _)

/-! ## Steps -/

/-- What the environment decided for a step. -/
def outcome : SInput → Option Outcome
  | .exec o | .call o _ | .event o _ => some o
  | .ret _ => none

/-- The operations in flight once the completion of the step has been taken. -/
def opsLeft (s : Session) : SInput → List Op
  | .event _ e => if e.2.more then s.inFlight else (s.retire e.1).inFlight
  | _ => s.inFlight

/-- `pending_app_io_` once the call has changed it. -/
def appIoLeft (s : Session) : SInput → Nat
  | .call _ .beginAppIo => s.pendingAppIo + 1
  | .call _ .endAppIo => s.pendingAppIo - 1
  | _ => s.pendingAppIo

/-- The session a step's moves start from. -/
structure Entered (s : Session) (i : SInput) (u : Session) : Prop where
  cfg : u.cfg = s.cfg
  state : u.state = s.state
  lastActivity : u.lastActivity = s.lastActivity
  closeCause : u.closeCause = s.closeCause
  shutdowns : u.shutdowns = s.shutdowns
  nextOp : u.nextOp = s.nextOp
  deleted : u.deleted = s.deleted
  inFlight : u.inFlight = opsLeft s i
  pendingAppIo : u.pendingAppIo = appIoLeft s i

/-- The step runs the timeout tests of a `Tick` at `now`. -/
def ticks (c : SConf) (i : SInput) (now : Nat) : Prop :=
  (∃ o, i = .call o (.tick now)) ∨ (∃ o rest, i = .exec o ∧ c.stack = .code (.tickTail now) :: rest)

/-- What a step does to the session's life. -/
inductive Stepped (c : SConf) (i : SInput) (c' : SConf) : Prop where
  | effect {o : Outcome} {u : Session} : outcome i = some o → Entered c.state i u →
      Effect o (∃ now, ticks c i now ∧ c.state.Expired o now) u c'.state → Stepped c i c'
  /-- A partial send is put back in flight. -/
  | resent {u : Session} (op : SendOp) : c.state.state = .kOpen → Entered c.state i u →
      c'.state.life = ((u.prep (.send op)).setActiveSendEv (some op.id)).life → Stepped c i c'
  /-- The end of `Dispatch` or of a release, or a return to session code. -/
  | rest (deleted : List OpId) (releaseCalls : List ReleaseCall) :
      c'.state.life = { c.state.life with deleted, releaseCalls } →
      (∀ id ∈ deleted, id ∈ c.state.deleted ∨
        ∃ rest, c.stack = .code (.dispatched id .kComplete) :: rest) → Stepped c i c'

variable {c c' : SConf} {i : SInput}

theorem Entered.of_life (h : Entered s i u) (hl : t.life = u.life) : Entered s i t where
  cfg := (congrArg Life.cfg hl).trans h.cfg
  state := (congrArg Life.state hl).trans h.state
  lastActivity := (congrArg Life.lastActivity hl).trans h.lastActivity
  closeCause := (congrArg Life.closeCause hl).trans h.closeCause
  shutdowns := (congrArg Life.shutdowns hl).trans h.shutdowns
  nextOp := (congrArg Life.nextOp hl).trans h.nextOp
  deleted := (congrArg Life.deleted hl).trans h.deleted
  inFlight := (congrArg Life.inFlight hl).trans h.inFlight
  pendingAppIo := (congrArg Life.pendingAppIo hl).trans h.pendingAppIo

theorem Entered.completePendingIo (h : Entered s i u) : Entered s i u.completePendingIo := by
  unfold Session.completePendingIo
  split <;> exact { h with }

theorem Entered.clearActiveSend (h : Entered s i u) (id : OpId) :
    Entered s i (u.clearActiveSend id) := by
  unfold Session.clearActiveSend
  split
  · exact { h with }
  · exact h

theorem entered_exec (s : Session) (j : Instr) : Entered s (.exec o) (s.before j) := by
  have h : Entered s (.exec o) s := ⟨rfl, rfl, rfl, rfl, rfl, rfl, rfl, rfl, rfl⟩
  cases j with
  | onRecvTail res more =>
    show Entered s _ (s.completeRecv more)
    unfold completeRecv
    split
    · exact h
    · exact h.completePendingIo
  | _ => exact h

theorem entered_call (s : Session) (a : Api) : Entered s (.call o a) (s.entered a) := by
  cases a with
  | endAppIo =>
    simp only [entered, completeAppIo]
    split
    · exact ⟨rfl, rfl, rfl, rfl, rfl, rfl, rfl, rfl, rfl⟩
    · next h => exact ⟨rfl, rfl, rfl, rfl, rfl, rfl, rfl, rfl, by simp only [appIoLeft]; omega⟩
  | _ => exact ⟨rfl, rfl, rfl, rfl, rfl, rfl, rfl, rfl, rfl⟩

/-- A final completion has been taken from the ring. -/
theorem entered_final {e : OpId × Cqe} (hm : e.2.more = false) :
    Entered s (.event o e) (s.retire e.1) :=
  ⟨rfl, rfl, rfl, rfl, rfl, rfl, rfl, by simp [opsLeft, hm], rfl⟩

theorem stepped_event {e : OpId × Cqe} {r : Seg} (he : c.state.event o e = some r) :
    Stepped c (.event o e) ⟨r.1, r.2⟩ := by
  obtain ⟨op, hop, hallow, rfl⟩ := event_cases he
  obtain ⟨hid, -⟩ := retire_split hop
  have hfinal (hm : e.2.more = false) : Entered c.state (.event o e) (c.state.retire op.id) := by
    rw [hid]
    exact entered_final hm
  have hlast (hk : op.kind ≠ .recv) : e.2.more = false := by
    cases op <;> simp_all [Op.kind, Allows]
  have hc := completes o c.state op e.2
  generalize c.state.complete o e.2 op = r at hc
  have hmono {u v : Session} (h : Effect o False u v) :
      Effect o (∃ now, ticks c (.event o e) now ∧ c.state.Expired o now) u v :=
    h.mono False.elim
  cases hc with
  | more hm hr =>
    refine .effect rfl ⟨rfl, rfl, rfl, rfl, rfl, rfl, rfl, ?_, rfl⟩ (hmono hr.effect)
    simp [opsLeft, hm]
  | last hm hr =>
    refine .effect rfl ?_ (hmono hr.effect)
    exact { hfinal hm with }
  | sent hr =>
    have hentered := hfinal (hlast (by simp [Op.kind]))
    exact .effect rfl (hentered.clearActiveSend _).completePendingIo (hmono hr.effect)
  | resent ho hl =>
    have hentered := hfinal (hlast (by simp [Op.kind]))
    exact .resent _ ho ((hentered.clearActiveSend _).of_life hl) rfl
  | control hk hr =>
    have hentered := hfinal (hlast (by rcases hk with hk | hk <;> simp [hk]))
    exact .effect rfl hentered.completePendingIo (hmono hr.effect)

theorem stepped (hs : machine.step c i = some c') : Stepped c i c' := by
  rcases Machine.step_cases hs with ⟨o, j, rest, rfl, hst, rfl⟩ | ⟨o, a, rfl, hu, rfl⟩ |
    ⟨b, k, rest, rfl, hst, rfl⟩ | ⟨o, e, r, rfl, hst, hr, rfl⟩
  · by_cases hd : ∃ id r, j = .dispatched id r
    · obtain ⟨id, r, rfl⟩ := hd
      cases r with
      | kPending => exact .rest c.state.deleted c.state.releaseCalls rfl fun id hid => .inl hid
      | kComplete =>
        refine .rest (c.state.deleted ++ [id]) c.state.releaseCalls rfl fun id' hid => ?_
        refine (List.mem_append.1 hid).imp_right fun hid => ?_
        rw [List.mem_singleton.1 hid]
        exact ⟨rest, hst⟩
    · push Not at hd
      by_cases hr : j = .release
      · subst hr
        exact .rest c.state.deleted _ rfl fun id hid => .inl hid
      · refine .effect rfl (entered_exec c.state j) ((does_exec o c.state hd hr).effect.mono ?_)
        rintro ⟨now, rfl, hexp⟩
        exact ⟨now, .inr ⟨o, rest, rfl, hst⟩, hexp⟩
  · refine .effect rfl (entered_call c.state a) ((does_call o c.state a).effect.mono ?_)
    rintro ⟨now, rfl, hexp⟩
    exact ⟨now, .inl ⟨o, rfl⟩, hexp⟩
  · refine .rest c.state.deleted c.state.releaseCalls ?_ fun id hid => .inl hid
    cases k <;> rfl
  · exact stepped_event hr

end Session

end IouringRuntime
