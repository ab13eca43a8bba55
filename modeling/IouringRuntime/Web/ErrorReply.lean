import IouringRuntime.Session.Channels
import IouringRuntime.Session.Submission
import IouringRuntime.Web.HttpExchange

/-!
# Error replies

`HttpSession` answers a parse error and a missed request deadline itself, and
calls `Disconnect` right after the `Send` of the reply. `Disconnect` prepares the
shutdown at once and nothing is submitted afterwards, so the reply is transmitted
only if `Send` has handed it to an operation. It has not if an earlier response
is still in flight or queued.

The code of `HttpSession` runs in the callbacks of the session's machine: its
runs are among the runs here, in which the sends of these replies are told
apart. `watchReply` notes the bytes accepted up to the end of each reply.
-/

namespace IouringRuntime

open Reentrant

/-- The replies that `HttpSession` sends before it disconnects. -/
inductive ErrorReply where
  /-- `HandleHttpRecv`, when the parser has failed. -/
  | parseError (status : HttpParseStatus)
  /-- `SendRequestTimeoutResponse`. -/
  | requestTimeout
  deriving DecidableEq, Repr

def ErrorReply.response : ErrorReply → HttpResponse
  | .parseError status => parseErrorResponse status
  | .requestTimeout => requestTimeoutResponse

/-- What `Build` gives to `Send`. -/
def ErrorReply.buffer (r : ErrorReply) (date : Bytes) : SendBuffer := ⟨r.response.serialize date⟩

namespace Session

inductive ReplyInput where
  /-- `Send` of an error reply, which has been built. -/
  | reply (o : Outcome) (r : ErrorReply) (date : Bytes)
  | other (i : SInput)

def ReplyInput.input : ReplyInput → SInput
  | .reply o r date => .call o (.send (r.buffer date))
  | .other i => i

/-- The bytes up to the end of the reply, if the step has queued one. -/
def ReplyInput.queued (s t : Session) : ReplyInput → List Bytes
  | .reply _ _ _ => if t.accepted = s.accepted then [] else [dataOf t.accepted]
  | .other _ => []

/-- The machine with the observer of error replies. -/
def watchReply (x : SConf × List Bytes) (i : ReplyInput) : Option (SConf × List Bytes) :=
  (machine.step x.1 i.input).map fun c => (c, x.2 ++ i.queued x.1.state c.state)

/-- If the step prepares the shutdown, send operations have been given every
error reply before it. -/
def Transmits (x : SConf × List Bytes) (i : ReplyInput) : Prop :=
  ∀ c, machine.step x.1 i.input = some c → c.state.shutdowns ≠ x.1.state.shutdowns →
    ∀ p ∈ x.2, p <+: x.1.state.handedBytes

/-- A send operation can be allocated and prepared. -/
def Prepares : ReplyInput → Prop
  | .other (.exec o) => o.newSend = true ∧ o.prepSend = true
  | _ => True

/-- An error reply finds nothing in flight, queued or drained before it, and
reaches no high watermark by itself. -/
def Unhindered (x : SConf × List Bytes) : ReplyInput → Prop
  | .reply _ r date => x.1.state.state = .kOpen → x.1.state.sendQueue.registered = false ∧
      x.1.state.highWatermarkReached (x.1.state.sendQueue.push (r.buffer date)).1.snapshot = false
  | .other _ => True

/-! ## The reply on its way -/

variable {cfg : Config} {x x' : SConf × List Bytes} {i : ReplyInput} {c c' : SConf}

/-- A reply that has been queued goes straight to a send operation. -/
theorem riding_of_reply {o : Outcome} {r : ErrorReply} {date : Bytes} (hr : Reachable cfg c)
    (ho : c.state.state = .kOpen) (hreg : c.state.sendQueue.registered = false)
    (hhigh : c.state.highWatermarkReached
      (c.state.sendQueue.push (r.buffer date)).1.snapshot = false)
    (hs : machine.step c (.call o (.send (r.buffer date))) = some c')
    (hacc : c'.state.accepted ≠ c.state.accepted) : Riding c' := by
  obtain ⟨-, rfl⟩ := Machine.step_call hs
  have hcall : machine.call o c.state (.send (r.buffer date)) =
      c.state.sendOnOwner o (r.buffer date) := rfl
  rw [hcall] at hacc ⊢
  have hp : c.state.sendQueue.pending = [] := by
    have hphase := (sendInv_reachable hr).phase ho
    generalize sendFrames c.stack = fs at hphase
    have hset (h : c.state.sendQueue.registered = true) : False := by simp [hreg] at h
    cases hphase with
    | idle _ _ _ h => exact h
    | inFlight _ h => exact (hset h).elim
    | holding _ h => exact (hset h).elim
    | registering _ h => exact (hset h).elim
    | draining _ _ h => exact (hset h).elim
  have hactive : c.state.backpressureActive = false := (slack_reachable hr).relieved hp
  obtain ⟨hov, -⟩ | ⟨hov, -, hpush, -⟩ := c.state.sendQueue.push_cases (r.buffer date)
  · refine absurd ?_ hacc
    unfold sendOnOwner
    dsimp only
    rw [if_neg (by simp [canUseOnOwner, ho]), if_pos hov]
    exact congrArg SendView.accepted (closing_disconnectOnOwner
      (c.state.setSendQueue (c.state.sendQueue.push (r.buffer date)).1) o _).sendQuiet.view
  · rw [sendOnOwner_idle ho hov hreg hactive hhigh]
    refine @Riding.registering _ (r.buffer date) _ rfl ?_ hactive
    show (c.state.sendQueue.push (r.buffer date)).1.pending = [r.buffer date]
    rw [hpush, hp]
    rfl

/-! ## Every run -/

/-- While the session is open, every error reply has been handed over or the
last one is on its way. -/
structure Handing (cfg : Config) (x : SConf × List Bytes) : Prop where
  reachable : Reachable cfg x.1
  accepted : ∀ p ∈ x.2, p <+: dataOf x.1.state.accepted
  handed : x.1.state.state = .kOpen → Riding x.1 ∨ ∀ p ∈ x.2, p <+: x.1.state.handedBytes

/-- While a buffer is on its way the session's own code runs. -/
theorem Riding.exec (h : Riding c) (hs : machine.step c i.input = some c') :
    ∃ o, i = .other (.exec o) := by
  obtain ⟨j, rest, hst⟩ : ∃ j rest, c.stack = .code j :: rest := by
    cases h with
    | registering hst => exact ⟨_, _, hst⟩
    | submitting hst => exact ⟨_, _, hst⟩
  obtain ⟨-, o, hi, -⟩ := Machine.step_last hst hs
  cases i with
  | reply => cases hi
  | other i => exact ⟨o, congrArg ReplyInput.other hi⟩

theorem Handing.step (h : Handing cfg x) (hw : watchReply x i = some x')
    (hQ : Prepares i ∧ Unhindered x i) : Handing cfg x' := by
  obtain ⟨c', hs, rfl⟩ := Option.map_eq_some_iff.1 hw
  obtain ⟨hgrow, -⟩ := send_grows.step hs
  have hkept : ∀ p ∈ x.2, p <+: dataOf c'.state.accepted := fun p hp =>
    (h.accepted p hp).trans hgrow
  refine ⟨.step i.input h.reachable hs, fun p hp => ?_, fun ho' => ?_⟩
  · rcases List.mem_append.1 hp with hp | hp
    · exact hkept p hp
    · cases i with
      | reply o r date =>
        obtain ⟨-, hp⟩ := List.mem_ite_nil_left.1 hp
        rw [List.mem_singleton.1 hp]
      | other i => exact absurd hp List.not_mem_nil
  · have ho := open_of_step hs ho'
    rcases h.handed ho with hride | hhanded
    · obtain ⟨o, rfl⟩ := hride.exec hs
      obtain ⟨-, hacc, hnext⟩ := hride.step h.reachable ho hs fun o' ho' => by
        cases ho'
        exact hQ.1
      rw [show ReplyInput.queued _ _ (.other (.exec o)) = [] from rfl, List.append_nil]
      refine hnext.imp_right fun hall p hp => ?_
      rw [hall]
      exact hkept p hp
    · have hmono : x.1.state.handedBytes <+: c'.state.handedBytes :=
        (sends.step hs).handed (sendInv_reachable h.reachable) ho'
      have hold : ∀ p ∈ x.2, p <+: c'.state.handedBytes := fun p hp => (hhanded p hp).trans hmono
      cases i with
      | other i =>
        rw [show ReplyInput.queued _ _ (.other i) = [] from rfl, List.append_nil]
        exact .inr hold
      | reply o r date =>
        simp only [ReplyInput.queued]
        split
        · rw [List.append_nil]
          exact .inr hold
        · next hacc =>
          obtain ⟨hreg, hhigh⟩ := hQ.2 ho
          exact .inl (riding_of_reply h.reachable ho hreg hhigh hs hacc)

theorem Handing.transmits (h : Handing cfg x) (hQ : Prepares i) : Transmits x i := by
  intro c' hs hd
  obtain ⟨ho, hno⟩ := leaves_of_shutdown hs hd
  refine (h.handed ho).resolve_left fun hride => hno ?_
  obtain ⟨o, rfl⟩ := hride.exec hs
  refine (hride.step h.reachable ho hs fun o' ho' => ?_).1
  cases ho'
  exact hQ

/-- **Error replies are transmitted.** In every run in which send operations can
be prepared and error replies are sent by an idle session, below its high
watermarks, each of them has been handed to a send operation when the shutdown
is prepared. -/
theorem error_replies_handed (cfg : Config) (is : List ReplyInput)
    (hQ : Trace.Steps watchReply (fun x i => Prepares i ∧ Unhindered x i) (initConf cfg, []) is) :
    Trace.Steps watchReply Transmits (initConf cfg, []) is := by
  refine Trace.steps_of_steps (J := Handing cfg) (fun x i x' h _ hQ => h.transmits hQ.1)
    (fun x i x' h hs hQ => h.step hs hQ) is ⟨.refl, ?_, fun _ => .inr ?_⟩ hQ
  · exact fun p hp => absurd hp List.not_mem_nil
  · exact fun p hp => absurd hp List.not_mem_nil

/-- A first request that is no HTTP: the parser fails inside `OnRecv`. -/
def garbageRun : List ReplyInput :=
  [.other (.call {} .start), .other (.ret false), .other (.exec {}),
    .other (.event {} (0, ⟨4, true, ascii "\r\n?!"⟩)),
    .reply {} (.parseError .badRequest) [], .other (.exec {}), .other (.exec {}), .other (.exec {}),
    .other (.call {} .disconnect)]

theorem error_replies_handed_garbage :
    (∃ x, Trace.run watchReply (initConf {}, []) garbageRun = some x ∧
      x.1.state.shutdowns ≠ [] ∧ x.2 = [(ErrorReply.parseError .badRequest).response.serialize []]) ∧
      Trace.Steps watchReply Transmits (initConf {}, []) garbageRun := by
  refine ⟨⟨_, rfl, by decide, by rfl⟩, error_replies_handed {} garbageRun ?_⟩
  refine .cons rfl ⟨trivial, trivial⟩ ?_
  refine .cons rfl ⟨trivial, trivial⟩ ?_
  refine .cons rfl ⟨⟨rfl, rfl⟩, trivial⟩ ?_
  refine .cons rfl ⟨trivial, trivial⟩ ?_
  refine .cons rfl ⟨trivial, fun _ => ⟨rfl, rfl⟩⟩ ?_
  refine .cons rfl ⟨⟨rfl, rfl⟩, trivial⟩ ?_
  refine .cons rfl ⟨⟨rfl, rfl⟩, trivial⟩ ?_
  refine .cons rfl ⟨⟨rfl, rfl⟩, trivial⟩ ?_
  exact .cons rfl ⟨trivial, trivial⟩ trivial

/-- A request and then garbage in the same chunk: the response to the request is
in flight when the parser fails. -/
def pipelinedGarbageRun : List ReplyInput :=
  [.other (.call {} .start), .other (.ret false), .other (.exec {}),
    .other (.event {} (0, ⟨22, true, ascii "GET / HTTP/1.1\r\n\r\n?!\r\n"⟩)),
    .other (.call {} (.send ⟨({} : HttpResponse).serialize []⟩)), .other (.exec {}),
    .other (.exec {}), .other (.exec {}),
    .reply {} (.parseError .badRequest) [], .other (.exec {})]

/-- `Disconnect` prepares the shutdown with the reply only queued. -/
theorem error_reply_lost :
    ∃ x, Trace.run watchReply (initConf {}, []) pipelinedGarbageRun = some x ∧
      x.1.state.handedBytes = ({} : HttpResponse).serialize [] ∧
      x.2 = [({} : HttpResponse).serialize [] ++
        (ErrorReply.parseError .badRequest).response.serialize []] ∧
      (∃ c, machine.step x.1 (.call {} .disconnect) = some c ∧
        c.state.shutdowns ≠ x.1.state.shutdowns) ∧
      ¬ Transmits x (.other (.call {} .disconnect)) := by
  refine ⟨_, rfl, by rfl, by rfl, ⟨_, rfl, by decide⟩, fun h => ?_⟩
  have hp := h _ rfl (by decide) _ (List.mem_singleton_self _)
  exact absurd hp (by decide +kernel)

end Session

end IouringRuntime
