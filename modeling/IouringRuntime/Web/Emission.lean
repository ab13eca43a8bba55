import IouringRuntime.Reentrant.Call
import IouringRuntime.Web.Streams

/-!
# One response, three ways to emit it

`Build` copies a response into one buffer, `BuildBuffers` into a header and
chunks of the body, and `Send` queues it on a session: in one buffer, as a
header alone, or as a header and a body stream that is pumped whenever the
socket is drained. They all give the bytes of `serialize`.
-/

namespace IouringRuntime

open Reentrant

namespace HttpResponse

theorem committed_eq {bytes : Bytes} (h : bytes.length < 2 ^ 32) : committed bytes = bytes := by
  rw [committed, Nat.mod_eq_of_lt h, List.take_length]

theorem totalSize_eq (r : HttpResponse) (date : Bytes) :
    r.totalSize date = (r.serialize date).length := by
  rw [totalSize, serialize, List.length_append, sentBody]
  split <;> rfl

/-- The chunks from an offset on are the rest of the body. -/
theorem bodyBuffers_eq {body : Bytes} (hlen : body.length < 2 ^ 32) (chunk i offset : Nat) :
    ∃ buffers, bodyBuffers body chunk (fun _ => true) i offset = some buffers ∧
      buffers.flatten = body.drop offset := by
  induction hn : body.length - offset using Nat.strong_induction_on generalizing i offset with
  | _ n ih =>
    unfold bodyBuffers
    split
    · next hlt =>
      obtain ⟨buffers, hb, hf⟩ := ih _ (by omega) (i + 1)
        (offset + min (max chunk 1) (body.length - offset)) rfl
      refine ⟨_, by rw [if_pos rfl, hb]; rfl, ?_⟩
      have hc : ((body.drop offset).take (min (max chunk 1) (body.length - offset))).length <
          2 ^ 32 := by
        rw [List.length_take, List.length_drop]
        omega
      rw [List.flatten_cons, hf, committed_eq hc, ← List.drop_drop, List.take_append_drop]
    · next hge => exact ⟨[], rfl, (List.drop_eq_nil_of_le (Nat.le_of_not_lt hge)).symm⟩

variable {r : HttpResponse} {date : Bytes}

theorem build_eq (h : (r.serialize date).length < 2 ^ 32) (lastBuilt : Nat) :
    r.build date true lastBuilt = (some (r.serialize date), (r.serialize date).length) := by
  rw [build, if_pos rfl, totalSize_eq, ← serialize, committed_eq h]

theorem buildBuffers_eq (h : (r.serialize date).length < 2 ^ 32) (chunk : UInt32)
    (lastBuilt : Nat) :
    (r.buildBuffers date chunk (fun _ => true) lastBuilt).1.flatten = r.serialize date ∧
      (r.buildBuffers date chunk (fun _ => true) lastBuilt).2 = (r.serialize date).length := by
  rw [serialize, List.length_append] at h
  have hheaders : committed (r.serializeHeaders date r.body.length) =
      r.serializeHeaders date r.body.length := committed_eq (by omega)
  unfold buildBuffers
  dsimp only
  rw [hheaders, if_neg (by decide)]
  by_cases hb : r.noBody = true
  · rw [if_pos hb]
    simp [serialize, sentBody, hb]
  · have hsent : r.sentBody r.body = r.body := if_neg hb
    rw [hsent] at h
    have hbody : r.body.length < 2 ^ 32 := by omega
    obtain ⟨buffers, hbuf, hflat⟩ := bodyBuffers_eq hbody chunk.toNat 1 0
    rw [if_neg hb, hbuf, serialize, hsent, List.length_append, List.flatten_cons, hflat,
      List.drop_zero]
    exact ⟨rfl, rfl⟩

end HttpResponse

namespace HttpSession

/-! ## Pumping -/

/-- What has been given to `Session::Send` and what the body stream holds. -/
def owed (s : HttpSession) : Bytes := s.handed ++ s.bodyStream.unsent

/-- A segment that leaves the session open hands over what it takes from the
body stream, and opens no file stream. -/
def Pays (s : HttpSession) (r : HSeg) : Prop :=
  s.fileStream.active = false → r.1.session.state = .kOpen →
    r.1.fileStream.active = false ∧ r.1.owed = s.owed

variable {s : HttpSession} {o : HttpOutcome} {k : List HFrame}

theorem pays_inSession (r : Seg) : Pays s (s.inSession r) := fun hf _ => ⟨hf, rfl⟩

theorem pays_disconnect {t : HttpSession} : Pays s (t.disconnect o) :=
  fun _ ho => absurd ho (disconnect_not_open t o)

theorem pays_resetBodyStream (h : s.bodyStream.body.length ≤ s.bodyStream.offset) :
    Pays s (s.resetBodyStream, []) := by
  refine fun hf _ => ⟨hf, ?_⟩
  show s.handed ++ [] = s.handed ++ s.bodyStream.unsent
  rw [BodyStream.unsent_eq_nil h]

theorem pays_resetFileStream : Pays s (s.resetFileStream, []) := fun _ _ => ⟨rfl, rfl⟩

theorem pays_pumpBodyChunk (ht : StreamsOk s.fileStream s.bodyStream) (i : Nat) :
    Pays s (s.pumpBodyChunk o i) := by
  simp only [pumpBodyChunk]
  split
  · next hc =>
    split
    · exact pays_disconnect
    · have ha : s.bodyStream.active = true := by
        by_contra hn
        have hbody := ht.body_inactive (by simpa using hn)
        rw [hbody] at hc
        exact absurd hc.2 (Nat.not_lt_zero _)
      refine fun hf _ => ⟨hf, ?_⟩
      rw [owed, owed, BodyStream.unsent_advance ha, ← List.append_assoc]
      rfl
  · split
    · next hdone => exact pays_resetBodyStream hdone
    · exact fun hf _ => ⟨hf, rfl⟩

theorem pays_pumpBodyStream (ht : StreamsOk s.fileStream s.bodyStream) :
    Pays s (s.pumpBodyStream o) := by
  unfold pumpBodyStream
  split
  · exact fun hf _ => ⟨hf, rfl⟩
  · split
    · next hdone => exact pays_resetBodyStream hdone
    · exact pays_pumpBodyChunk ht 0

theorem pays_pumpFileChunk (ht : StreamsOk s.fileStream s.bodyStream) (i : Nat) :
    Pays s (s.pumpFileChunk o i) := by
  intro hf
  have hzero : s.fileStream.remainingBytes = 0 := by
    rw [ht.file_left, ht.file_inactive hf, List.length_nil]
  simp only [pumpFileChunk]
  rw [if_neg (by omega), if_pos hzero]
  exact pays_resetFileStream hf

theorem pays_pumpFileStream : Pays s (s.pumpFileStream o) := by
  intro hf
  unfold pumpFileStream
  rw [hf, if_pos (by decide)]
  exact fun _ => ⟨hf, rfl⟩

/-- In an open session the last `Send` succeeded. -/
theorem pays_afterSend (ht : Tidy s k) {r₁ r₂ : HSeg} (h1 : r₁.1.session = s.session)
    (h2 : Pays s r₂) : Pays s (if s.session.sendResult.isSome then r₁ else r₂) := by
  split
  · next hr =>
    intro _ ho
    rw [ht.result (h1 ▸ ho)] at hr
    cases hr
  · exact h2

theorem pays_exec {i : HttpInstr} (h : Tidy s (.code i :: k)) : Pays s (s.exec o i) := by
  have ht := h.tail
  cases i with
  | session i => exact pays_inSession _
  | pumpFileStream => exact pays_pumpFileStream
  | pumpBodyStream => exact pays_pumpBodyStream ht.streams
  | fileHeaderSent => exact pays_afterSend ht rfl pays_pumpFileStream
  | bodyHeaderSent => exact pays_afterSend ht rfl (pays_pumpBodyStream ht.streams)
  | fileChunkSent i short =>
    refine pays_afterSend ht rfl ?_
    cases short with
    | false => exact pays_pumpFileChunk ht.streams (i + 1)
    | true => exact pays_resetFileStream
  | bodyChunkSent i => exact pays_afterSend ht rfl (pays_pumpBodyChunk ht.streams (i + 1))
  | onDisconnected =>
    intro _ ho
    have hk := h.frames ho
    cases hk

/-! ## A response on an idle session -/

/-- No other response is sent. -/
def SendsNothing (_ : HConf) : HInput → Prop
  | .call _ (.send _) | .call _ (.sendFile _ _ _ _ _) => False
  | _ => True

/-- What the session owes is not changed by anything but a response. -/
structure Owes (target : Bytes) (c : HConf) : Prop where
  tidy : Tidy c.state c.stack
  owed : c.state.session.state = .kOpen →
    c.state.fileStream.active = false ∧ c.state.owed = target

theorem owes_step {target : Bytes} (c : HConf) (i : HInput) (c' : HConf) (h : Owes target c)
    (hs : machine.step c i = some c') (hi : SendsNothing c i) : Owes target c' := by
  refine ⟨preserved_tidy.step hs h.tidy, fun ho => ?_⟩
  obtain ⟨hf, hw⟩ := h.owed (changes_stays.step hs ho)
  have ht := h.tidy
  rcases Machine.step_cases hs with ⟨o, j, rest, rfl, hst, rfl⟩ | ⟨o, a, rfl, -, rfl⟩ |
    ⟨b, k, rest, rfl, hst, rfl⟩ | ⟨o, e, r, rfl, hst, he, rfl⟩
  · rw [hst] at ht
    obtain ⟨h1, h2⟩ := pays_exec ht hf ho
    exact ⟨h1, h2.trans hw⟩
  · cases a with
    | session a => exact ⟨hf, hw⟩
    | send r => exact hi.elim
    | sendFile => exact hi.elim
  · exact ⟨hf, hw⟩
  · obtain ⟨q, hq, rfl⟩ := Option.map_eq_some_iff.1 he
    exact ⟨hf, hw⟩

theorem owed_sendResponse (hst : s.streaming = false) (hnew : o.newHeader = true)
    (r : HttpResponse) :
    (s.sendResponse o r).1.fileStream.active = false ∧
      (s.sendResponse o r).1.owed = s.handed ++ r.serialize o.date := by
  have hactive := inactive_of_not_streaming hst
  have hwhole : ∀ bytes, (s.sendBytes o bytes).1.fileStream.active = false ∧
      (s.sendBytes o bytes).1.owed = s.handed ++ bytes := by
    refine fun bytes => ⟨hactive.1, ?_⟩
    show s.handed ++ bytes ++ s.bodyStream.unsent = s.handed ++ bytes
    rw [BodyStream.unsent, hactive.2]
    exact List.append_nil _
  simp only [sendResponse]
  split
  · exact hwhole _
  · rw [hnew, if_neg (by decide)]
    split
    · next hb =>
      have hsent : r.sentBody r.body = [] := by
        rw [Bool.or_eq_true, List.isEmpty_iff] at hb
        obtain hb | hb := hb
        · exact if_pos hb
        · rw [HttpResponse.sentBody, hb, ite_self]
      rw [HttpResponse.serialize, hsent, List.append_nil]
      exact hwhole _
    · next hb =>
      have hsent : r.sentBody r.body = r.body := by
        rw [Bool.or_eq_true, not_or] at hb
        exact if_neg hb.1
      rw [startBodyStream, hst, if_neg (by decide), HttpResponse.serialize, hsent]
      refine ⟨hactive.1, ?_⟩
      exact List.append_assoc _ _ _

theorem lastBuiltBytes_eq (o : HttpOutcome) (r : HttpResponse) :
    lastBuiltBytes o r = (r.serialize o.date).length := by
  rw [← r.totalSize_eq o.date, lastBuiltBytes]
  split
  · rw [HttpResponse.build]
    split <;> rfl
  · rfl

/-- **All ways of emitting a response agree.** A response that is sent on a
session with no stream active has been queued, when no stream is active again
and the session is still open, with the bytes that `Build` and `BuildBuffers`
put into buffers. -/
theorem emissions_agree {cfg : Config} {c c₁ c₂ : HConf} (hreach : Reachable cfg c)
    (hidle : c.state.streaming = false) (r : HttpResponse) {o : HttpOutcome}
    (hsize : (r.serialize o.date).length < 2 ^ 32) (hnew : o.newHeader = true)
    (hsend : machine.step c (.call o (.send r)) = some c₁) {is : List HInput}
    (honly : machine.Steps SendsNothing c₁ is) (hrun : machine.run c₁ is = some c₂)
    (hopen : c₂.state.session.state = .kOpen) (hdone : c₂.state.streaming = false)
    (chunk : UInt32) (lastBuilt : Nat) :
    let bytes := r.serialize o.date
    r.build o.date true lastBuilt = (some bytes, bytes.length) ∧
      (r.buildBuffers o.date chunk (fun _ => true) lastBuilt).1.flatten = bytes ∧
      (r.buildBuffers o.date chunk (fun _ => true) lastBuilt).2 = bytes.length ∧
      dataOf c₂.state.session.accepted = dataOf c.state.session.accepted ++ bytes ∧
      lastBuiltBytes o r = bytes.length := by
  intro bytes
  obtain ⟨hb1, hb2⟩ := HttpResponse.buildBuffers_eq hsize chunk lastBuilt
  refine ⟨HttpResponse.build_eq hsize lastBuilt, hb1, hb2, ?_, lastBuiltBytes_eq o r⟩
  have ht := tidy_of_reachable hreach
  have hc₁ : c₁.state = ((c.state.respond bytes).sendResponse o r).1 := by
    rw [(Machine.step_call hsend).2]
    rfl
  have h₁ : Owes (c.state.handed ++ bytes) c₁ := by
    refine ⟨preserved_tidy.step hsend ht, fun _ => ?_⟩
    rw [hc₁]
    exact owed_sendResponse (s := c.state.respond bytes) hidle hnew r
  have h₂ : Owes (c.state.handed ++ bytes) c₂ :=
    (Trace.visits_of_steps (fun _ h => h) owes_step is h₁ honly).of_run is hrun
  have hopen₁ := (Trace.Reachable.of_run is hrun).invariant
    (I := fun c => c.state.session.state = .kOpen → c₁.state.session.state = .kOpen)
    (fun c i c' h hs ho => h (changes_stays.step hs ho)) id hopen
  have hopen₀ : c.state.session.state = .kOpen := changes_stays.step hsend hopen₁
  have howed := (h₂.owed hopen).2
  have hinactive : c₂.state.bodyStream.active = false := by
    simp only [streaming, Bool.or_eq_false_iff] at hdone
    exact hdone.2
  rw [owed, BodyStream.unsent, hinactive] at howed
  rw [h₂.tidy.accepted hopen, ht.accepted hopen₀]
  exact (List.append_nil _).symm.trans howed

/-- The steps of a response whose body is streamed. -/
def pumpRun : List HInput := List.replicate 6 (.exec {})

theorem pumpRun_end :
    ((machine.run (initConf {}) startedRun).bind fun c =>
      (machine.step c (.call { newResponse := false } (.send { body := [1, 2] }))).bind fun c₁ =>
      (machine.run c₁ pumpRun).map fun c₂ =>
        (c.state.streaming, c₂.state.session.state, c₂.state.streaming)) =
      some (false, .kOpen, false) := by
  decide +kernel

theorem emissions_agree_streamed :
    ∃ c c₂ : HConf, Reachable {} c ∧ dataOf c₂.state.session.accepted =
      dataOf c.state.session.accepted ++ HttpResponse.serialize { body := [1, 2] } [] := by
  obtain ⟨c, hc, h⟩ := Option.bind_eq_some_iff.1 pumpRun_end
  obtain ⟨c₁, hsend, h⟩ := Option.bind_eq_some_iff.1 h
  obtain ⟨c₂, hrun, h⟩ := Option.map_eq_some_iff.1 h
  obtain ⟨hidle, hopen, hdone⟩ : c.state.streaming = false ∧
      c₂.state.session.state = .kOpen ∧ c₂.state.streaming = false := by
    simpa only [Prod.mk.injEq] using h
  have hreach : Reachable {} c := .of_run startedRun hc
  have honly : machine.Steps SendsNothing c₁ pumpRun := by
    repeat refine fun _ _ => ⟨trivial, ?_⟩
    trivial
  exact ⟨c, c₂, hreach, (emissions_agree hreach hidle { body := [1, 2] } (by decide +kernel) rfl
    hsend honly hrun hopen hdone 1 0).2.2.2.1⟩

end HttpSession

end IouringRuntime
