import Mathlib.Data.List.Chain
import IouringRuntime.Reentrant.Call
import IouringRuntime.Session.Control

/-!
# Backpressure

`UpdateBackpressure` switches a flag with hysteresis: on when a high watermark is
reached, off when the queue is down to the low ones. Its callbacks may send and
so change the queue and the flag again before it goes on. The flag is right all
the same, since every segment that changes the queue or the flag ends its own
changes with the comparison (`Regulates`); what runs after a callback touches
neither. A segment makes at most one call of `OnBackpressure`, and makes it
first, so the calls happen in the order in which they are pushed.
-/

namespace IouringRuntime

open Reentrant

/-- Each enabled low watermark is below its high watermark. -/
structure Config.Hysteresis (cfg : Config) : Prop where
  depth : cfg.sendQueueHighWatermark ≠ 0 → cfg.sendQueueLowWatermark < cfg.sendQueueHighWatermark
  bytes : cfg.sendQueueHighBytes ≠ 0 → cfg.sendQueueLowBytes < cfg.sendQueueHighBytes

/-- The calls of `OnBackpressure` among the frames. -/
def pressureCalls (fs : List SFrame) : List Bool :=
  fs.filterMap fun
    | .callback (.onBackpressure active) => some active
    | _ => none

@[simp] theorem pressureCalls_append (xs ys : List SFrame) :
    pressureCalls (xs ++ ys) = pressureCalls xs ++ pressureCalls ys := List.filterMap_append

/-- What the watermarks are compared with, and the flag. -/
structure Pressure where
  cfg : Config
  depth : Nat
  bytes : Nat
  active : Bool

namespace Session

def pressure (s : Session) : Pressure where
  cfg := s.cfg
  depth := s.sendQueue.snapshot.currentDepth
  bytes := s.sendQueue.snapshot.pendingBytes
  active := s.backpressureActive

/-- The flag is what the hysteresis makes it. -/
def Poised (s : Session) : Prop :=
  if s.backpressureActive then s.lowWatermarkReached s.sendQueue.snapshot = false
  else s.highWatermarkReached s.sendQueue.snapshot = false

variable {s t : Session} {o : Outcome} {r : Seg} {k : List SFrame}

theorem Poised.of_pressure (h : s.Poised) (ht : t.pressure = s.pressure) : t.Poised := by
  simp only [pressure, Pressure.mk.injEq] at ht
  obtain ⟨hcfg, hdepth, hbytes, hactive⟩ := ht
  unfold Poised lowWatermarkReached highWatermarkReached at h ⊢
  rwa [hcfg, hdepth, hbytes, hactive]

theorem low_of_high (h : s.cfg.Hysteresis) {stats : SendQueue.Stats}
    (hhigh : s.highWatermarkReached stats = true) : s.lowWatermarkReached stats = false := by
  simp only [highWatermarkReached, lowWatermarkReached, Bool.or_eq_true, Bool.and_eq_true,
    decide_eq_true_eq, Bool.and_eq_false_iff, Bool.or_eq_false_iff, beq_eq_false_iff_ne,
    decide_eq_false_iff_not, ne_eq] at hhigh ⊢
  obtain ⟨hne, hle⟩ | ⟨hne, hle⟩ := hhigh
  · have := h.depth hne
    exact .inl ⟨hne, by omega⟩
  · have := h.bytes hne
    exact .inr ⟨hne, by omega⟩

/-- The comparison sets the flag right, and calls `OnBackpressure` exactly if it
changes it. -/
theorem updateBackpressure_spec (h : s.cfg.Hysteresis) (o : Outcome) :
    (s.updateBackpressure o).1.Poised ∧
      pressureCalls (s.updateBackpressure o).2 =
        if (s.updateBackpressure o).1.backpressureActive = s.backpressureActive then []
        else [(s.updateBackpressure o).1.backpressureActive] := by
  unfold updateBackpressure
  dsimp only
  cases hactive : s.backpressureActive with
  | false =>
    rw [if_pos (by decide)]
    split
    · next hhigh =>
      refine ⟨?_, ?_⟩
      · rw [Poised, hactive, if_neg (by decide)]
        simpa using hhigh
      · rfl
    · next hhigh => exact ⟨low_of_high h (by simpa using hhigh), rfl⟩
  | true =>
    rw [if_neg (by decide)]
    split
    · next hlow =>
      refine ⟨?_, ?_⟩
      · rw [Poised, hactive, if_pos rfl]
        simpa using hlow
      · rfl
    · next hlow =>
      refine ⟨?_, rfl⟩
      show s.highWatermarkReached _ = false
      by_contra hhigh
      exact absurd (low_of_high h (by simpa using hhigh)) (by simpa using hlow)

theorem cfg_updateBackpressure (s : Session) (o : Outcome) :
    (s.updateBackpressure o).1.cfg = s.cfg := by
  unfold updateBackpressure
  dsimp only
  split
  · split <;> rfl
  · split <;> rfl

/-- A segment leaves the flag and what it depends on alone, or its last change is
the comparison. -/
inductive Regulates (s : Session) : Seg → Prop where
  | keeps {r : Seg} (h : r.1.pressure = s.pressure) (hk : pressureCalls r.2 = []) : Regulates s r
  | updates {t : Session} {o : Outcome} {k : List SFrame} (hcfg : t.cfg = s.cfg)
      (hactive : t.backpressureActive = s.backpressureActive) (hk : pressureCalls k = []) :
      Regulates s ((t.updateBackpressure o).andThen k)

namespace Regulates

theorem refl (s : Session) : Regulates s (s, []) := .keeps rfl rfl

theorem after (h : Regulates t r) (ht : t.pressure = s.pressure) : Regulates s r := by
  cases h with
  | keeps h hk => exact .keeps (h.trans ht) hk
  | updates hcfg hactive hk =>
    exact .updates (hcfg.trans (congrArg Pressure.cfg ht))
      (hactive.trans (congrArg Pressure.active ht)) hk

theorem andThen (h : Regulates s r) (hk : pressureCalls k = []) : Regulates s (r.andThen k) := by
  cases h with
  | keeps h hr =>
    refine .keeps h ?_
    rw [Seg.andThen_snd, pressureCalls_append, hr, hk]
    rfl
  | @updates t o k' hcfg hactive hk' =>
    have happ : ((t.updateBackpressure o).andThen k').andThen k =
        (t.updateBackpressure o).andThen (k' ++ k) := by
      simp only [Seg.andThen, List.append_assoc]
    rw [happ]
    refine .updates hcfg hactive ?_
    rw [pressureCalls_append, hk', hk]
    rfl

theorem of_closing (h : Closing s r) : Regulates s r := by
  have hd := h.data
  refine .keeps ?_ ?_
  · have hq : r.1.sendQueue = s.sendQueue := congrArg Data.sendQueue hd
    have hc : r.1.cfg = s.cfg := congrArg Data.cfg hd
    have ha : r.1.backpressureActive = s.backpressureActive := congrArg Data.backpressureActive hd
    rw [pressure, hq, hc, ha]
    rfl
  · obtain hr | ⟨-, hr⟩ := h.frames
    · rw [hr]
      rfl
    · rw [hr]
      rfl

theorem of_control (h : Control s r) : Regulates s r := .of_closing h.closing

end Regulates

/-! ## The session's code -/

theorem pressure_of_data (h : s.data = t.data) : s.pressure = t.pressure := by
  have hq : s.sendQueue = t.sendQueue := congrArg Data.sendQueue h
  have hc : s.cfg = t.cfg := congrArg Data.cfg h
  have ha : s.backpressureActive = t.backpressureActive := congrArg Data.backpressureActive h
  rw [pressure, hq, hc, ha]
  rfl

theorem regulates_drainPausedRecv (s : Session) : Regulates s s.drainPausedRecv := by
  unfold drainPausedRecv
  split
  · split
    · exact .refl s
    · exact .keeps rfl rfl
  · exact .refl s

theorem regulates_resume (s : Session) :
    Regulates s ((s.setRecvPaused false).drainPausedRecv.andThen [.code .registerRecv]) := by
  refine Regulates.andThen ?_ rfl
  exact (regulates_drainPausedRecv (s.setRecvPaused false)).after rfl

/-- `RegisterSend` and the end of `OnSend`: what has been drained is sent. -/
theorem regulates_drainInto {rest : Seg}
    (hrest : (s.sendQueue.drainInto kMaxSendIovecs).1 = s.sendQueue →
      Regulates s rest) :
    Regulates s
      (if (s.sendQueue.drainInto kMaxSendIovecs).2.isEmpty then rest
        else ((s.setSendQueue (s.sendQueue.drainInto kMaxSendIovecs).1).updateBackpressure o).andThen
          [.code (.sendBatch (s.sendQueue.drainInto kMaxSendIovecs).2)]) := by
  split
  · next he =>
    have hnil := SendQueue.drainInto_eq_nil.1 (List.isEmpty_iff.1 he)
    exact hrest (congrArg Prod.fst (SendQueue.drainInto_of_nil hnil _))
  · exact .updates rfl rfl rfl

theorem regulates_registerSend (s : Session) (o : Outcome) : Regulates s (s.registerSend o) := by
  unfold registerSend
  split
  · exact .refl s
  · split
    · exact .refl s
    · refine regulates_drainInto fun he => ?_
      rw [he]
      exact .keeps rfl rfl

theorem regulates_onSendTail (s : Session) (o : Outcome) : Regulates s (s.onSendTail o) := by
  unfold onSendTail
  split
  · exact .refl s
  · refine regulates_drainInto fun he => ?_
    rw [he]
    exact .of_closing ((closing_tryDisconnectAfterFlush _ o).after rfl id)

theorem regulates_sendBatch (s : Session) (o : Outcome) (bufs : List SendBuffer) :
    Regulates s (s.sendBatch o bufs) := by
  unfold sendBatch
  split
  · exact .refl s
  · split
    · exact .refl s
    · split
      · exact .of_closing (closing_disconnectOnOwner s o _)
      · unfold sendInFlightBatch
        split
        · exact .keeps rfl rfl
        · dsimp only
          split
          · refine (Regulates.of_closing (closing_disconnectOnOwner _ o _)).after ?_
            exact pressure_of_data (by simp)
          · exact .keeps rfl rfl

theorem regulates_sendOnOwner (s : Session) (o : Outcome) (buf : SendBuffer) :
    Regulates s (s.sendOnOwner o buf) := by
  unfold sendOnOwner
  split
  · exact .keeps rfl rfl
  · dsimp only
    split
    · next hover =>
      refine Regulates.andThen ?_ rfl
      refine (Regulates.of_closing (closing_disconnectOnOwner _ o _)).after ?_
      have hq : (s.sendQueue.push buf).1.snapshot.currentDepth = s.sendQueue.snapshot.currentDepth ∧
          (s.sendQueue.push buf).1.snapshot.pendingBytes = s.sendQueue.snapshot.pendingBytes := by
        unfold SendQueue.push at hover ⊢
        split at hover
        · next hfull =>
          rw [if_pos hfull]
          exact ⟨rfl, rfl⟩
        · cases hover
      exact congrArg₂ (Pressure.mk s.cfg · · s.backpressureActive) hq.1 hq.2
    · refine .updates rfl rfl ?_
      split <;> rfl

theorem regulates_onSend (s : Session) (o : Outcome) (op : SendOp) (res : Int) :
    Regulates s (s.onSend o op res) := by
  have hclear : ∀ id, (s.clearActiveSend id).pressure = s.pressure := by
    intro id
    unfold clearActiveSend
    split <;> rfl
  have hdone : ∀ t : Session, t.completePendingIo.pressure = t.pressure := fun t =>
    pressure_of_data (data_completePendingIo t)
  unfold onSend
  dsimp only
  refine Regulates.after ?_ (hclear op.id)
  generalize s.clearActiveSend op.id = t
  split
  · exact ((Regulates.of_control (control_tryRelease _)).after (hdone t)).andThen rfl
  · split
    · exact ((Regulates.of_closing (closing_disconnectOnOwner _ o _)).after (hdone t)).andThen rfl
    · split
      · split
        · exact ((Regulates.of_closing (closing_disconnectOnOwner _ o _)).after (hdone t)).andThen rfl
        · exact .keeps rfl rfl
      · refine .updates ?_ ?_ rfl
        · exact congrArg Pressure.cfg (hdone (t.setSendQueue t.sendQueue.markSent))
        · exact congrArg Pressure.active (hdone (t.setSendQueue t.sendQueue.markSent))

theorem regulates_onRecv (s : Session) (o : Outcome) (id : OpId) (cqe : Cqe) :
    Regulates s (s.onRecv o id cqe) := by
  unfold onRecv
  dsimp only
  refine Regulates.after ?_ (pressure_of_data (data_endRecv s cqe.more))
  generalize s.endRecv cqe.more = t
  split
  · split
    · split
      · next hq =>
        refine .keeps ?_ rfl
        unfold queuePausedRecv at hq
        split at hq
        · cases hq
          rfl
        · dsimp only at hq
          split at hq
          · cases hq
          · cases hq
            rfl
      · have hclose := Regulates.of_closing
          (closing_disconnectOnOwner (t.touchActivity o) o .pausedRecvOverflow)
        exact Regulates.andThen (hclose.after rfl) rfl
    · exact .keeps rfl rfl
  · exact .keeps rfl rfl

theorem regulates_exec (o : Outcome) (s : Session) (i : Instr) : Regulates s (exec o s i) := by
  cases i with
  | backpressureRaised =>
    have hpause : s.pauseOnBackpressure.pressure = s.pressure := by
      unfold pauseOnBackpressure
      split <;> rfl
    simp only [exec, backpressureRaised]
    split
    · exact (Regulates.of_closing (closing_disconnectOnOwner _ o _)).after hpause
    · exact .keeps hpause rfl
  | backpressureCleared =>
    simp only [exec, backpressureCleared]
    split
    · exact regulates_resume s
    · exact .refl s
  | drainPausedRecv => exact regulates_drainPausedRecv s
  | registerRecv => exact .of_control (control_registerRecv s o)
  | registerSend => exact regulates_registerSend s o
  | returnSend result => exact .keeps rfl rfl
  | sendBatch bufs => exact regulates_sendBatch s o bufs
  | tryRelease => exact .of_control (control_tryRelease s)
  | release => exact .keeps rfl rfl
  | onSendDrained => exact (Regulates.of_closing (closing_tryDisconnectAfterFlush s o)).andThen rfl
  | onSendTail => exact regulates_onSendTail s o
  | onRecvTail res more => exact .of_control (control_onRecvTail s o res more)
  | tickTail now =>
    simp only [exec]
    split
    · exact .refl s
    · exact .of_control (control_tickRest s o now)
  | dispatched id result => cases result <;> exact .keeps rfl rfl

theorem regulates_call (o : Outcome) (s : Session) (a : Api) : Regulates s (call o s a) := by
  cases a with
  | start => exact .keeps rfl rfl
  | send buf => exact regulates_sendOnOwner s o buf
  | disconnect => exact .of_closing (closing_disconnectOnOwner s o _)
  | disconnectAfterFlush => exact .of_closing (closing_disconnectAfterFlushOnOwner s o)
  | pauseRecv =>
    simp only [call, pauseRecv]
    split
    · exact .refl s
    · exact .keeps rfl rfl
  | resumeRecv =>
    simp only [call, resumeRecv]
    split
    · exact .refl s
    · exact regulates_resume s
  | beginAppIo => exact .keeps rfl rfl
  | endAppIo =>
    refine Regulates.andThen ?_ rfl
    refine (Regulates.of_closing (closing_tryDisconnectAfterFlush _ o)).after ?_
    exact pressure_of_data (data_completeAppIo s)
  | tick now =>
    simp only [call, tick]
    split
    · exact .of_control (control_tryRelease s)
    · split
      · exact .keeps rfl rfl
      · exact .of_control (control_tickRest s o now)

theorem regulates_event (o : Outcome) (s : Session) (e : OpId × Cqe) (r : Seg)
    (h : s.event o e = some r) : Regulates s r := by
  obtain ⟨op, -, -, rfl⟩ := event_cases h
  cases op with
  | recv id =>
    refine (regulates_onRecv _ o id e.2).after ?_
    unfold retireRecv
    split <;> rfl
  | send op => exact (regulates_onSend _ o op e.2.res).after rfl
  | disconnect id | cancel id target =>
    have hdone := pressure_of_data (data_completePendingIo (s.retire id))
    refine Regulates.andThen ?_ rfl
    exact ((Regulates.of_control (control_tryRelease _)).after hdone).after rfl

theorem pushes_regulates : machine.Pushes Regulates where
  exec := regulates_exec
  call := regulates_call
  ret s k b := by cases k <;> exact .keeps rfl rfl
  event := regulates_event

/-! ## Runs -/

/-- A step of the session, with the calls of `OnBackpressure` so far. -/
def hear (x : SConf × List Bool) (i : SInput) : Option (SConf × List Bool) :=
  (machine.step x.1 i).map fun c => (c, x.2 ++ pressureCalls (pushed x.1 i c))

/-- `true`, `false`, `true`, … -/
structure Alternates (calls : List Bool) : Prop where
  starts : calls.head? ≠ some false
  turns : calls.IsChain (· ≠ ·)

/-- The flag is what the last call said. -/
structure Tells (cfg : Config) (x : SConf × List Bool) : Prop where
  cfg : x.1.state.cfg = cfg
  poised : x.1.state.Poised
  alternates : Alternates x.2
  last : x.2.getLast?.getD false = x.1.state.backpressureActive

theorem Alternates.turn {calls : List Bool} (h : Alternates calls) {active : Bool}
    (hlast : calls.getLast?.getD false ≠ active) : Alternates (calls ++ [active]) := by
  refine ⟨?_, ?_⟩
  · cases calls with
    | nil =>
      rw [List.nil_append, List.head?_cons]
      exact fun he => hlast (Option.some.inj he).symm
    | cons b calls => exact h.starts
  · rw [List.isChain_append]
    refine ⟨h.turns, List.isChain_singleton _, fun b hb b' hb' => ?_⟩
    rw [Option.mem_def] at hb hb'
    rw [hb] at hlast
    obtain rfl := Option.some.inj hb'
    exact hlast

theorem tells_step {cfg : Config} (hcfg : cfg.Hysteresis) {x x' : SConf × List Bool} {i : SInput}
    (h : Tells cfg x) (hs : hear x i = some x') : Tells cfg x' := by
  obtain ⟨c, hc, rfl⟩ := Option.map_eq_some_iff.1 hs
  have hreg := pushes_regulates.step hc
  generalize hr : (c.state, pushed x.1 i c) = r at hreg
  obtain ⟨hstate, hpushed⟩ := Prod.mk.inj hr
  obtain ⟨hc1, hp, ha, hl⟩ := h
  show Tells cfg (c, x.2 ++ pressureCalls (pushed x.1 i c))
  rw [hpushed]
  cases hreg with
  | keeps hkeep hk =>
    rw [← hstate] at hkeep
    rw [hk, List.append_nil]
    refine ⟨(congrArg Pressure.cfg hkeep).trans hc1, hp.of_pressure hkeep, ha, ?_⟩
    exact hl.trans (congrArg Pressure.active hkeep).symm
  | @updates t o k hcfg' hactive hk =>
    obtain ⟨hposed, hcalls⟩ := updateBackpressure_spec (s := t) (hcfg'.trans hc1 ▸ hcfg) o
    rw [Seg.andThen_fst] at hstate
    rw [Seg.andThen_snd, pressureCalls_append, hk, List.append_nil, hcalls]
    have hcfg'' : c.state.cfg = cfg := by
      rw [hstate]
      exact (cfg_updateBackpressure t o).trans (hcfg'.trans hc1)
    rw [← hstate] at hposed ⊢
    split
    · next hsame =>
      rw [List.append_nil]
      exact ⟨hcfg'', hposed, ha, hl.trans (hactive.symm.trans hsame.symm)⟩
    · next hturn =>
      refine ⟨hcfg'', hposed, ha.turn ?_, by simp⟩
      rw [hl, ← hactive]
      exact Ne.symm hturn

/-- **Exact hysteresis.** With each low watermark below its high one, in every
configuration of a run an active flag means that the queue is not down to the
low watermarks and an inactive one that no high watermark is reached, and the
calls of `OnBackpressure` alternate. -/
theorem backpressure_hysteresis {cfg : Config} (hcfg : cfg.Hysteresis) {x : SConf × List Bool}
    (hr : Trace.Reachable hear (initConf cfg, []) x) :
    (x.1.state.backpressureActive = true →
        x.1.state.lowWatermarkReached x.1.state.sendQueue.snapshot = false) ∧
      (x.1.state.backpressureActive = false →
        x.1.state.highWatermarkReached x.1.state.sendQueue.snapshot = false) ∧
      Alternates x.2 := by
  have hinit : Tells cfg (initConf cfg, []) := by
    have hnone : ∀ n : Nat, (decide (n ≠ 0) && decide (n ≤ 0)) = false := by
      intro n
      cases n <;> simp
    refine ⟨rfl, ?_, ⟨nofun, .nil⟩, rfl⟩
    show (_ && _ || _ && _) = false
    exact Bool.or_eq_false_iff.2 ⟨hnone _, hnone _⟩
  have h := hr.invariant (fun _ _ _ => tells_step hcfg) hinit
  have hp := h.poised
  unfold Poised at hp
  refine ⟨fun hactive => ?_, fun hactive => ?_, h.alternates⟩
  · rwa [if_pos hactive] at hp
  · rwa [hactive, if_neg (by decide)] at hp

/-- Two waiting buffers raise backpressure, and an empty queue clears it. -/
def twoBuffersCfg : Config := { sendQueueHighWatermark := 2 }

/-- The first buffer goes to the kernel; two more wait until it has been sent. -/
def waitingRun : List SInput :=
  [.call {} (.send ⟨[1]⟩), .exec {}, .exec {}, .exec {}, .call {} (.send ⟨[2]⟩), .exec {},
    .call {} (.send ⟨[3]⟩), .ret false, .exec {}, .exec {}, .event {} (0, { res := 1 }),
    .ret false, .exec {}, .exec {}, .ret false, .exec {}, .exec {}, .exec {}]

theorem backpressure_hysteresis_waiting :
    ∃ x, Trace.run hear (initConf twoBuffersCfg, []) waitingRun = some x ∧ x.1.stack = [] ∧
      x.1.state.state = .kOpen ∧ x.2 = [true, false] ∧
      x.1.state.highWatermarkReached x.1.state.sendQueue.snapshot = false := by
  refine ⟨_, rfl, rfl, rfl, rfl, ?_⟩
  have hcfg : twoBuffersCfg.Hysteresis := ⟨by decide, by decide⟩
  exact (backpressure_hysteresis hcfg (.of_run waitingRun rfl)).2.1 rfl

end Session

end IouringRuntime
