import IouringRuntime.Proxy.TlsPeer
import IouringRuntime.Reentrant.Channel

/-!
# The order of the plaintext

`SendProxyPayload` decides by the backpressure flag alone whether a payload
waits in `pending_plaintext_` or goes straight to the encryptor, and the flag
falls before the waiting payloads are flushed. `Log` is the part of the peer
this is about; only `SendProxyPayload` and the loop of `FlushPendingPlaintext`
touch it. As long as no payload goes past those that wait, the peer is an
ordered channel (`payloads_run`).
-/

namespace IouringRuntime

open Reentrant

namespace TlsPeer

structure Log where
  received : Nat
  accepted : List Payload
  handed : List Payload
  pending : List Payload

def log (p : TlsPeer) : Log := ⟨p.received, p.accepted, p.handed, p.pendingPlaintext⟩

@[simp] theorem log_andThen (r : TSeg) (k : List TFrame) : (andThen r k).1.log = r.1.log := rfl

@[simp] theorem log_returns (p : TlsPeer) (ok : Bool) : (p.returns ok).1.log = p.log := rfl

@[simp] theorem log_produce (p : TlsPeer) (out : Bytes) : (p.produce out).log = p.log := rfl

@[simp] theorem log_flushCiphertextOutput (p : TlsPeer) (o : TlsOutcome) :
    (p.flushCiphertextOutput o).1.log = p.log := by
  unfold flushCiphertextOutput queueCiphertext
  split
  · rfl
  · split <;> rfl

@[simp] theorem log_drainPlaintext (p : TlsPeer) (o : TlsOutcome) :
    (p.drainPlaintext o).1.log = p.log := by
  unfold drainPlaintext
  split <;> simp

@[simp] theorem log_driveHandshake (p : TlsPeer) (o : TlsOutcome) :
    (p.driveHandshake o).1.log = p.log := by
  unfold driveHandshake
  split
  · dsimp only
    split
    · rw [log_flushCiphertextOutput]; rfl
    · rfl
  · simp
  · rfl

@[simp] theorem log_driveTlsMachine (p : TlsPeer) (o : TlsOutcome) :
    (p.driveTlsMachine o).1.log = p.log := by
  unfold driveTlsMachine
  split <;> simp

/-- The first waiting payload is handed to `SSL_write_ex`. -/
def Log.Pops (l l' : Log) : Prop :=
  ∃ chunk rest, l.pending = chunk :: rest ∧
    l' = ⟨l.received, l.accepted, l.handed ++ [chunk], rest⟩

theorem log_encryptAndQueuePlaintext (p : TlsPeer) (o : TlsOutcome) (chunk : Payload) :
    (p.encryptAndQueuePlaintext o chunk).1.log =
      ⟨p.received, p.accepted, p.handed ++ [chunk], p.pendingPlaintext⟩ := by
  rw [encryptAndQueuePlaintext, log_andThen, log_flushCiphertextOutput]
  rfl

theorem log_flushPendingPlaintext (p : TlsPeer) (o : TlsOutcome) :
    (p.flushPendingPlaintext o).1.log = p.log ∨ p.log.Pops (p.flushPendingPlaintext o).1.log := by
  unfold flushPendingPlaintext
  split
  case h_1 => exact .inl rfl
  case h_2 chunk rest hp =>
    split
    · exact .inl rfl
    · refine .inr ⟨chunk, rest, hp, ?_⟩
      rw [log_andThen, log_encryptAndQueuePlaintext]
      rfl

/-- What code of the peer does to the log. -/
theorem log_exec (o : TlsOutcome) (p : TlsPeer) (i : TlsInstr) :
    (p.exec o i).1.log = p.log ∨ p.log.Pops (p.exec o i).1.log := by
  cases i with
  | session i => exact .inl rfl
  | recvCiphertext =>
    left
    simp only [exec]
    split <;> simp
  | driveTlsMachine => exact .inl (log_driveTlsMachine p o)
  | readyNotified =>
    left
    simp only [exec, readyNotifiedTail]
    split <;> simp
  | handshakeDriven =>
    simp only [exec, handshakeDriven]
    split
    · exact .inl rfl
    · split
      · exact log_flushPendingPlaintext p o
      · exact .inl (log_flushCiphertextOutput p o)
  | pendingFlushed =>
    left
    simp only [exec, pendingFlushed]
    split <;> simp
  | forwarded =>
    left
    simp only [exec, forwarded]
    split <;> simp
  | flushPendingPlaintext => exact log_flushPendingPlaintext p o
  | chunkEncrypted =>
    simp only [exec, chunkEncrypted]
    split
    · exact log_flushPendingPlaintext p o
    · exact .inl rfl
  | encrypted =>
    left
    simp only [exec, encrypted]
    split <;> simp
  | ciphertextSent full =>
    left
    simp only [exec, ciphertextSent]
    split
    · rfl
    · split <;> simp
  | disconnectUnlessOk =>
    left
    simp only [exec, disconnectUnlessOk]
    split <;> rfl

/-- A payload that comes now is not made to wait. -/
def Straight (p : TlsPeer) : Prop :=
  p.session.canUseOnOwner = true ∧ p.handshakeComplete = true ∧
    p.session.backpressureActive = false

/-- What `SendProxyPayload` does to the log. -/
theorem log_sendProxyPayload (p : TlsPeer) (o : TlsOutcome) (data : Plaintext) :
    (p.Straight ∧ (p.sendProxyPayload o data).1.log =
      ⟨p.received + 1, p.accepted ++ [⟨p.received, data⟩], p.handed ++ [⟨p.received, data⟩],
        p.pendingPlaintext⟩) ∨
    (¬ p.Straight ∧ ((p.sendProxyPayload o data).1.log =
        ⟨p.received + 1, p.accepted ++ [⟨p.received, data⟩], p.handed,
          p.pendingPlaintext ++ [⟨p.received, data⟩]⟩ ∨
      (p.sendProxyPayload o data).1.log =
        ⟨p.received + 1, p.accepted, p.handed, p.pendingPlaintext⟩)) := by
  have hq : ∀ q : TlsPeer, (q.queuePendingPlaintext ⟨p.received, data⟩).1.log =
        ⟨q.received, q.accepted ++ [⟨p.received, data⟩], q.handed,
          q.pendingPlaintext ++ [⟨p.received, data⟩]⟩ ∨
      (q.queuePendingPlaintext ⟨p.received, data⟩).1.log = q.log := by
    intro q
    unfold queuePendingPlaintext
    dsimp only
    split
    · exact .inr rfl
    · exact .inl rfl
  simp only [sendProxyPayload]
  split
  case isTrue h =>
    refine .inr ⟨fun hs => ?_, .inr rfl⟩
    simp [receive, hs.1] at h
  case isFalse ho =>
    split
    case isTrue h =>
      refine .inr ⟨fun hs => ?_, hq p.receive⟩
      simp [receive, hs.2.1] at h
    case isFalse hh =>
      split
      case isTrue h =>
        refine .inr ⟨fun hs => ?_, hq p.receive⟩
        simp [receive, hs.2.2] at h
      case isFalse hb =>
        refine .inl ⟨⟨by simpa [receive] using ho, by simpa [receive] using hh,
          by simpa [receive] using hb⟩, ?_⟩
        rw [log_encryptAndQueuePlaintext]
        rfl

/-! ## Runs -/

/-- The payloads handed to `SSL_write_ex` are the first of those accepted, in
the order they came. -/
def InOrder (p : TlsPeer) : Prop := p.handed <+: p.accepted

/-- No payload goes straight to the encryptor while others wait. -/
def WaitsItsTurn (c : TConf) : TInput → Prop
  | .call _ (.sendProxyPayload _) => c.state.Straight → c.state.pendingPlaintext = []
  | _ => True

/-- What was accepted has been handed on or waits, and every payload has the
number of an earlier call. -/
structure Log.Inv (l : Log) : Prop where
  accepted : l.accepted = l.handed ++ l.pending
  seq_lt : ∀ chunk ∈ l.accepted, chunk.seq < l.received

namespace Log.Inv

variable {l l' : Log}

theorem pops (h : l.Inv) (hp : l.Pops l') : l'.Inv := by
  obtain ⟨chunk, rest, hpend, rfl⟩ := hp
  refine ⟨?_, h.seq_lt⟩
  rw [h.accepted, hpend]
  simp

/-- A new payload is added to what was accepted. -/
theorem seq_lt_append (h : l.Inv) (data : Plaintext) :
    ∀ chunk ∈ l.accepted ++ [⟨l.received, data⟩], chunk.seq < l.received + 1 := by
  intro chunk hmem
  rcases List.mem_append.1 hmem with hmem | hmem
  · have := h.seq_lt chunk hmem
    omega
  · obtain rfl := List.mem_singleton.1 hmem
    exact Nat.lt_succ_self _

theorem queue (h : l.Inv) (data : Plaintext) :
    Log.Inv ⟨l.received + 1, l.accepted ++ [⟨l.received, data⟩], l.handed,
      l.pending ++ [⟨l.received, data⟩]⟩ := by
  refine ⟨?_, h.seq_lt_append data⟩
  show l.accepted ++ _ = l.handed ++ (l.pending ++ _)
  rw [h.accepted, List.append_assoc]

theorem straight (h : l.Inv) (hempty : l.pending = []) (data : Plaintext) :
    Log.Inv ⟨l.received + 1, l.accepted ++ [⟨l.received, data⟩],
      l.handed ++ [⟨l.received, data⟩], l.pending⟩ := by
  refine ⟨?_, h.seq_lt_append data⟩
  show l.accepted ++ _ = l.handed ++ _ ++ l.pending
  rw [h.accepted, hempty, List.append_nil, List.append_nil]

theorem refuse (h : l.Inv) : Log.Inv ⟨l.received + 1, l.accepted, l.handed, l.pending⟩ :=
  ⟨h.accepted, fun chunk hmem => Nat.lt_succ_of_lt (h.seq_lt chunk hmem)⟩

/-- A new payload handed on before one that waits is out of order. -/
theorem not_prefix (h : l.Inv) (hne : l.pending ≠ []) (data : Plaintext) :
    ¬ l.handed ++ [⟨l.received, data⟩] <+: l.accepted ++ [⟨l.received, data⟩] := by
  obtain ⟨chunk, rest, hp⟩ := List.exists_cons_of_ne_nil hne
  rw [h.accepted, List.append_assoc, List.prefix_append_right_inj, hp, List.cons_append,
    List.cons_prefix_cons]
  rintro ⟨rfl, -⟩
  have : (⟨l.received, data⟩ : Payload) ∈ l.accepted := by
    rw [h.accepted, hp]
    exact List.mem_append_right _ List.mem_cons_self
  exact Nat.lt_irrefl _ (h.seq_lt _ this)

end Log.Inv

theorem log_ret (p : TlsPeer) (k : TlsCallback) (b : Bool) : (p.ret k b).log = p.log := by
  cases k <;> rfl

theorem log_event {o : TlsOutcome} {p : TlsPeer} {e : OpId × Cqe} {r : TSeg}
    (h : p.event o e = some r) : r.1.log = p.log := by
  obtain ⟨t, -, rfl⟩ := Option.map_eq_some_iff.1 h
  rfl

theorem log_inv_step {c c' : TConf} {i : TInput} (h : c.state.log.Inv)
    (hs : machine.step c i = some c') (hQ : WaitsItsTurn c i) : c'.state.log.Inv := by
  rcases Machine.step_cases hs with ⟨o, j, rest, rfl, -, rfl⟩ | ⟨o, a, rfl, -, rfl⟩ |
    ⟨b, k, rest, rfl, -, rfl⟩ | ⟨o, e, r, rfl, -, he, rfl⟩
  · rcases log_exec o c.state j with hl | hl
    · show ((c.state.exec o j).1).log.Inv
      rw [hl]
      exact h
    · exact h.pops hl
  · cases a with
    | session a => exact h
    | sendProxyPayload data =>
      show ((c.state.sendProxyPayload o data).1).log.Inv
      rcases log_sendProxyPayload c.state o data with ⟨hst, hl⟩ | ⟨-, hl | hl⟩
      · rw [hl]
        exact h.straight (hQ hst) data
      · rw [hl]
        exact h.queue data
      · rw [hl]
        exact h.refuse
  · show (c.state.ret k b).log.Inv
    rw [log_ret]
    exact h
  · rw [log_event he]
    exact h

theorem not_inOrder_step {c c' : TConf} {i : TInput} (h : c.state.log.Inv)
    (hs : machine.step c i = some c') (hQ : ¬ WaitsItsTurn c i) : ¬ c'.state.InOrder := by
  rcases Machine.step_cases hs with ⟨o, j, rest, rfl, -, rfl⟩ | ⟨o, a, rfl, -, rfl⟩ |
    ⟨b, k, rest, rfl, -, rfl⟩ | ⟨o, e, r, rfl, -, he, rfl⟩
  · exact (hQ trivial).elim
  · cases a with
    | session a => exact (hQ trivial).elim
    | sendProxyPayload data =>
      simp only [WaitsItsTurn, Classical.not_imp] at hQ
      obtain ⟨hst, hne⟩ := hQ
      rcases log_sendProxyPayload c.state o data with ⟨-, hl⟩ | ⟨hn, -⟩
      · have hacc : (c.state.sendProxyPayload o data).1.accepted = _ := congrArg Log.accepted hl
        have hhan : (c.state.sendProxyPayload o data).1.handed = _ := congrArg Log.handed hl
        show ¬ (c.state.sendProxyPayload o data).1.handed <+:
          (c.state.sendProxyPayload o data).1.accepted
        rw [hacc, hhan]
        exact h.not_prefix hne data
      · exact (hn hst).elim
  · exact (hQ trivial).elim
  · exact (hQ trivial).elim

theorem initConf_log_inv (cfg : Config) (pendingPlaintextLimit : Nat) :
    (initConf cfg pendingPlaintextLimit).state.log.Inv :=
  ⟨rfl, nofun⟩

/-- **Plaintext order.** Along a run of the peer, whatever the completions,
drains, backpressure transitions and re-entrant calls, the payloads are handed
to `SSL_write_ex` in the order they came exactly if no payload goes straight to
the encryptor while others wait. -/
theorem plaintext_order (cfg : Config) (pendingPlaintextLimit : Nat) (is : List TInput) :
    machine.Visits (fun c => c.state.InOrder) (initConf cfg pendingPlaintextLimit) is ↔
      machine.Steps WaitsItsTurn (initConf cfg pendingPlaintextLimit) is :=
  Trace.visits_iff_steps (J := fun c : TConf => c.state.log.Inv)
    (fun c h => ⟨c.state.pendingPlaintext, h.accepted.symm⟩)
    (fun _ _ _ => log_inv_step) (fun _ _ _ => not_inOrder_step) is
    (initConf_log_inv cfg pendingPlaintextLimit)

/-! ## A payload that overtakes another -/

/-- Start, and the handshake in the first recv completion. -/
def handshakeRun : List TInput :=
  [.call {} (.session .start), .exec {}, .exec {}, .exec {}, .exec {},
    .event {} (0, ⟨1, true, [22]⟩), .exec { handshake := .done [] }, .ret true, .exec {}, .exec {},
    .exec {}, .exec {}, .exec {}, .exec {}]

def payload (b : UInt8) : Plaintext := ⟨[b], nofun⟩

/-- With a high watermark of 2: the first payload is being sent, the next two
raise backpressure, the fourth waits. The first send completes, `OnSend` takes
the queue over and clears backpressure, and the bridge forwards the fifth from
`OnBackpressure(false)`. -/
def overtakingRun : List TInput :=
  handshakeRun ++
  [.call { ciphertext := [101] } (.sendProxyPayload (payload 1)),
    .exec {}, .exec {}, .exec {}, .exec {}, .exec {},
    .call { ciphertext := [102] } (.sendProxyPayload (payload 2)), .exec {}, .exec {}, .exec {},
    .call { ciphertext := [103] } (.sendProxyPayload (payload 3)),
    .ret false, .exec {}, .exec {}, .exec {}, .exec {},
    .call {} (.sendProxyPayload (payload 4)),
    .event {} (1, ⟨1, false, []⟩), .exec {}, .exec {}, .exec {}, .exec {},
    .call { ciphertext := [105] } (.sendProxyPayload (payload 5))]

theorem payload_overtakes :
    ∃ c, machine.run (initConf { sendQueueHighWatermark := 2 } 0) overtakingRun = some c ∧
      c.state.accepted.map Payload.seq = [0, 1, 2, 3, 4] ∧
      c.state.handed.map Payload.seq = [0, 1, 2, 4] ∧ ¬ c.state.InOrder := by
  refine ⟨_, rfl, rfl, rfl, fun h => ?_⟩
  have h' : [0, 1, 2, 4] <+: [0, 1, 2, 3, 4] := h.map Payload.seq
  exact absurd h' (by decide)

/-! ## The peer as a channel -/

/-- Payloads are only added, at either end. -/
def Log.Grows (l l' : Log) : Prop := l.accepted <+: l'.accepted ∧ l.handed <+: l'.handed

theorem Log.Grows.of_eq {l l' : Log} (h : l' = l) : l.Grows l' := by
  rw [h]
  exact ⟨List.prefix_rfl, List.prefix_rfl⟩

theorem Log.Pops.grows {l l' : Log} (h : l.Pops l') : l.Grows l' := by
  obtain ⟨chunk, rest, -, rfl⟩ := h
  exact ⟨List.prefix_rfl, List.prefix_append _ _⟩

theorem log_grows : machine.Changes fun p q => p.log.Grows q.log where
  exec := by
    intro o p i
    exact (log_exec o p i).elim .of_eq Log.Pops.grows
  call := by
    intro o p a
    cases a with
    | session a => exact .of_eq rfl
    | sendProxyPayload data =>
      show p.log.Grows (p.sendProxyPayload o data).1.log
      rcases log_sendProxyPayload p o data with ⟨-, hl⟩ | ⟨-, hl | hl⟩
      · rw [hl]
        exact ⟨List.prefix_append _ _, List.prefix_append _ _⟩
      · rw [hl]
        exact ⟨List.prefix_append _ _, List.prefix_rfl⟩
      · rw [hl]
        exact ⟨List.prefix_rfl, List.prefix_rfl⟩
  ret := fun p k b => .of_eq (log_ret p k b)
  event := fun _ _ _ _ he => .of_eq (log_event he)

theorem payloads_implement : Implements machine.step WaitsItsTurn
    (fun c : TConf => c.state.log.Inv) (fun c => c.state.accepted) (fun c => c.state.handed) where
  ordered h := ⟨_, h.accepted.symm⟩
  keep := log_inv_step
  grows _ hs := log_grows.step hs

/-- **While every payload waits its turn the peer is an ordered channel.** -/
theorem payloads_run (cfg : Config) (pendingPlaintextLimit : Nat) (is : List TInput)
    (h : machine.Steps WaitsItsTurn (initConf cfg pendingPlaintextLimit) is) :
    machine.Visits (fun c => ∃ hc : c.state.log.Inv,
      Channel.Run (payloads_implement.channel (initConf_log_inv cfg pendingPlaintextLimit))
        (payloads_implement.channel hc)) (initConf cfg pendingPlaintextLimit) is :=
  payloads_implement.run is (initConf_log_inv cfg pendingPlaintextLimit) h

/-- What is inside the channel is `pending_plaintext_`. -/
theorem waiting_payloads {c : TConf} (hc : c.state.log.Inv) :
    (payloads_implement.channel hc).waiting = c.state.pendingPlaintext :=
  Channel.waiting_eq hc.accepted

end TlsPeer

end IouringRuntime
