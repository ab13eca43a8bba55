import IouringRuntime.Session.Quiet
import IouringRuntime.Web.HttpSession

/-!
# Pipelined responses

What a session has been given to send is the responses of its requests, whole
and in order, up to what the active stream has still to hand over (`Whole`).
The stream of one response says nothing to the next: a response that is sent
while an earlier one is still being streamed is queued in the middle of it, or
dropped when it would have to be streamed too. `responses_whole` is for runs in
which this does not happen.

`Sound` is the invariant. Apart from the streams it says that the last `Send`
succeeded while the session is open, so that no stream is given up.
-/

namespace IouringRuntime

open Reentrant

/-! ## The result of `Send` -/

/-- Frames that an open session does not have: the return of a failed `Send`,
and `OnDisconnected`. -/
def isFailed (st : SessionState) : SFrame → Bool
  | .code (.returnSend (some _)) => true
  | .callback .onDisconnected => st == .kOpen
  | _ => false

/-- What `Send` leaves: its result and the buffers accepted. -/
def Session.sendFace (s : Session) : Option IoError × List SendBuffer := (s.sendResult, s.accepted)

abbrev FaceQuiet (s : Session) (r : Seg) : Prop := Quiet Session.sendFace isFailed s r

abbrev ResultQuiet (s : Session) (r : Seg) : Prop := Quiet Session.sendResult isFailed s r

theorem FaceQuiet.result {s : Session} {r : Seg} (h : FaceQuiet s r) : ResultQuiet s r :=
  ⟨congrArg Prod.fst h.view, h.frames, h.isOpen⟩

theorem Session.sendFace_of_unflushed : FlushBlind Session.sendFace :=
  fun h => congrArg (fun d : Data => (d.sendResult, d.accepted)) h

theorem aside_sendFace : Aside Session.sendFace isFailed where
  data h := congrArg (fun d : Data => (d.sendResult, d.accepted)) h
  backpressure _ _ _ := rfl
  control {f} h _ := by
    cases f with
    | code i => cases i <;> first | rfl | cases h
    | callback c => cases c <;> first | rfl | cases h
  released h := by simpa [isFailed] using h

theorem asideRecv_sendFace : AsideRecv Session.sendFace isFailed where
  toAside := aside_sendFace
  paused _ _ := rfl
  queue _ _ _ := rfl
  deliver _ _ := rfl
  received _ _ := rfl
  recv {f} h _ := by
    cases f with
    | code i => cases i <;> first | rfl | cases h
    | callback c => cases c <;> first | rfl | cases h

theorem asideSend_sendFace : AsideSend Session.sendFace isFailed where
  toAside := aside_sendFace
  sendQueue _ _ := rfl
  active _ _ := rfl
  prep _ _ := rfl
  retire _ _ := rfl
  send {f} h _ := by
    cases f with
    | code i => cases i <;> first | rfl | cases h
    | callback c => cases h

namespace Session

theorem faceQuiet_exec (o : Outcome) (s : Session) {i : Instr}
    (hi : isReturnFrame (.code i) = false) : FaceQuiet s (exec o s i) := by
  cases hs : isSendFrame (.code i) with
  | false => exact asideRecv_sendFace.exec s o hs hi
  | true =>
    refine asideSend_sendFace.exec s o (fun _ => sendFace_of_unflushed) ?_ ?_ ?_ hi <;>
      rintro rfl <;> cases hs

theorem faceQuiet_call (o : Outcome) (s : Session) {a : Api} (ha : a.isSend = false) :
    FaceQuiet s (call o s a) :=
  asideRecv_sendFace.call s o (fun _ => sendFace_of_unflushed)
    fun buf h => by rw [h] at ha; cases ha

theorem faceQuiet_event {o : Outcome} {s : Session} {e : OpId × Cqe} {r : Seg}
    (h : s.event o e = some r) : FaceQuiet s r := by
  obtain ⟨op, -, -, rfl⟩ := event_cases h
  cases op with
  | recv id => exact asideRecv_sendFace.completeRecv s o e.2 rfl
  | send op => exact asideSend_sendFace.completeSend s o e.2 op fun _ _ => rfl
  | disconnect id => exact aside_sendFace.complete s o e.2 rfl nofun nofun
  | cancel id target => exact aside_sendFace.complete s o e.2 rfl nofun nofun

/-- If the session is open after `Send` has taken the buffer, the buffer was
accepted. -/
theorem faceQuiet_sendOnOwner {s : Session} {o : Outcome} {buf : SendBuffer}
    (h : (s.sendOnOwner o buf).1.state = .kOpen) :
    s.state = .kOpen ∧ FaceQuiet (s.accept buf) (s.sendOnOwner o buf) := by
  unfold sendOnOwner at h ⊢
  split at h
  case isTrue hc =>
    exact absurd h (by simpa [canUseOnOwner] using hc)
  case isFalse hc =>
    rw [if_neg hc]
    dsimp only at h ⊢
    split at h
    case isTrue ho => exact (disconnectOnOwner_not_open _ o _ h).elim
    case isFalse ho =>
      rw [if_neg ho]
      refine ⟨by simpa [canUseOnOwner] using hc, ?_⟩
      refine ((aside_sendFace.updateBackpressure _ o).andThen fun _ => ?_).after rfl rfl
      split <;> rfl

/-- If the session is open after `Send` has taken the buffer, `Send` succeeds. -/
theorem sendOnOwner_open {s : Session} {o : Outcome} {buf : SendBuffer}
    (h : (s.sendOnOwner o buf).1.state = .kOpen) : ResultQuiet s (s.sendOnOwner o buf) := by
  obtain ⟨ho, hq⟩ := faceQuiet_sendOnOwner h
  exact hq.result.after rfl rfl

end Session

/-! ## What a stream holds -/

/-- What an active stream has still to hand to `Session::Send`. -/
def BodyStream.unsent (b : BodyStream) : Bytes := if b.active then b.body.drop b.offset else []

/-- What an active stream has still to hand to `Session::Send`. -/
def FileStream.unsent (f : FileStream) : Bytes := if f.active then f.fd else []

theorem BodyStream.unsent_eq_nil {b : BodyStream} (h : b.body.length ≤ b.offset) :
    b.unsent = [] := by
  unfold unsent
  split
  · exact List.drop_eq_nil_of_le h
  · rfl

/-- A chunk is taken from the front. -/
theorem BodyStream.unsent_advance {b : BodyStream} (ha : b.active = true) (n : Nat) :
    b.unsent = (b.body.drop b.offset).take n ++
      BodyStream.unsent { b with offset := b.offset + n } := by
  simp only [unsent, ha, if_true, ← List.drop_drop, List.take_append_drop]

theorem FileStream.unsent_advance {f : FileStream} (ha : f.active = true) (n : Nat) :
    f.unsent = f.fd.take n ++ (f.advance n).unsent := by
  simp only [unsent, advance, ha, if_true, List.take_append_drop]

namespace HttpSession

/-! ## The invariant -/

def unsent (s : HttpSession) : Bytes := s.fileStream.unsent ++ s.bodyStream.unsent

/-- The bytes handed to `Session::Send` are the responses, whole and in order,
up to what the active stream still holds. -/
def Whole (s : HttpSession) : Prop := s.responses = s.handed ++ s.unsent

structure Good (s : HttpSession) : Prop where
  whole : s.Whole
  single : s.fileStream.active = false ∨ s.bodyStream.active = false
  body_inactive : s.bodyStream.active = false → s.bodyStream.body = []
  file_inactive : s.fileStream.active = false → s.fileStream.fd = []
  file_left : s.fileStream.remainingBytes = s.fileStream.fd.length
  file_chunk : s.fileStream.active = true → 0 < s.fileStream.chunkSize
  result : s.session.sendResult = none

/-- Frames that would give a stream up. -/
def isFailFrame : HFrame → Bool
  | .code (.session (.returnSend (some _))) | .code (.fileChunkSent _ true)
  | .code .onDisconnected => true
  | _ => false

def Sound (s : HttpSession) (k : List HFrame) : Prop :=
  s.session.state = .kOpen → s.Good ∧ k.filter isFailFrame = []

/-- The steps under which responses stay whole: a handler sends its response
when no earlier one is being streamed and gets a buffer for its header, and a
file is as long as `fstat` said. -/
def Undisturbed (c : HConf) : HInput → Prop
  | .call o (.send _) | .call o (.sendFile _ _ _ _ _) =>
    c.state.streaming = false ∧ o.newHeader = true
  | .exec o => ∀ n, o.read ≠ .short n
  | _ => True

variable {s : HttpSession} {o : HttpOutcome} {k : List HFrame}

theorem filter_liftFrame {fs : List SFrame} (h : fs.filter (isFailed .kOpen) = []) :
    (fs.flatMap liftFrame).filter isFailFrame = [] := by
  rw [List.filter_eq_nil_iff] at h ⊢
  intro g hg
  obtain ⟨f, hf, hgf⟩ := List.mem_flatMap.1 hg
  have hno : isFailed .kOpen f = false → ∀ x ∈ liftFrame f, isFailFrame x = false := by
    cases f with
    | code i =>
      cases i with
      | returnSend r => cases r <;> simp [liftFrame, isFailFrame, isFailed]
      | _ => simp [liftFrame, isFailFrame]
    | callback c => cases c <;> simp [liftFrame, isFailFrame, isFailed]
  simp [hno (by simpa using h f hf) g hgf]

theorem Sound.inSession {r : Seg} (h : Sound s k)
    (hq : r.1.state = .kOpen → ResultQuiet s.session r) :
    Sound (s.inSession r).1 ((s.inSession r).2 ++ k) := by
  intro ho
  have q := hq ho
  obtain ⟨hg, hk⟩ := h (q.isOpen ho)
  refine ⟨{ hg with result := q.view.trans hg.result }, ?_⟩
  rw [List.filter_append, hk, List.append_nil]
  exact filter_liftFrame (ho ▸ q.frames)

theorem open_sendBytes {bytes : Bytes} (h : (s.sendBytes o bytes).1.session.state = .kOpen) :
    s.session.state = .kOpen :=
  (Session.faceQuiet_sendOnOwner h).1

theorem disconnect_not_open (s : HttpSession) (o : HttpOutcome) :
    (s.disconnect o).1.session.state ≠ .kOpen :=
  Session.disconnectOnOwner_not_open _ _ _

theorem Sound.sendBytes {bytes : Bytes}
    (h : Sound { s with handed := s.handed ++ bytes } k) :
    Sound (s.sendBytes o bytes).1 ((s.sendBytes o bytes).2 ++ k) :=
  Sound.inSession h Session.sendOnOwner_open

theorem sound_disconnect (s : HttpSession) (o : HttpOutcome) (k : List HFrame) :
    Sound (s.disconnect o).1 ((s.disconnect o).2 ++ k) := fun ho =>
  (disconnect_not_open s o ho).elim

theorem Sound.andThen {r : HSeg} {k' : List HFrame} (h : Sound r.1 (r.2 ++ (k' ++ k))) :
    Sound (andThen r k').1 ((andThen r k').2 ++ k) := by
  show Sound r.1 (r.2 ++ k' ++ k)
  rw [List.append_assoc]
  exact h

/-! ## Body streams -/

theorem Good.active_of_body (hg : s.Good) (h : s.bodyStream.offset < s.bodyStream.body.length) :
    s.bodyStream.active = true := by
  by_contra ha
  rw [hg.body_inactive (by simpa using ha)] at h
  exact absurd h (Nat.not_lt_zero _)

/-- A body stream that has nothing left may be given up. -/
theorem Good.resetBodyStream (hg : s.Good) (h : s.bodyStream.body.length ≤ s.bodyStream.offset) :
    s.resetBodyStream.Good := by
  refine { hg with whole := ?_, single := .inr rfl, body_inactive := fun _ => rfl }
  have hw : s.responses = s.handed ++ (s.fileStream.unsent ++ s.bodyStream.unsent) := hg.whole
  rw [BodyStream.unsent_eq_nil h] at hw
  exact hw

theorem Good.sendBodyChunk (hg : s.Good) (n : Nat)
    (h : s.bodyStream.offset < s.bodyStream.body.length) :
    Good { s with
      bodyStream := { s.bodyStream with offset := s.bodyStream.offset + n }
      handed := s.handed ++ (s.bodyStream.body.drop s.bodyStream.offset).take n } := by
  have ha := hg.active_of_body h
  refine { hg with whole := ?_ }
  have hf : s.fileStream.unsent = [] := by
    rw [FileStream.unsent, hg.single.resolve_right (by simp [ha])]
    rfl
  have hw : s.responses = s.handed ++ (s.fileStream.unsent ++ s.bodyStream.unsent) := hg.whole
  rw [BodyStream.unsent_advance ha n, hf, List.nil_append, ← List.append_assoc] at hw
  show s.responses = _ ++ (s.fileStream.unsent ++ _)
  rw [hf, List.nil_append]
  exact hw

theorem Sound.pumpBodyChunk (h : Sound s k) (i : Nat) :
    Sound (s.pumpBodyChunk o i).1 ((s.pumpBodyChunk o i).2 ++ k) := by
  simp only [HttpSession.pumpBodyChunk]
  split
  case isTrue hc =>
    split
    case isTrue => exact sound_disconnect _ o k
    case isFalse =>
      refine Sound.andThen (Sound.sendBytes fun ho => ?_)
      obtain ⟨hg, hk⟩ := h ho
      exact ⟨hg.sendBodyChunk _ hc.2, hk⟩
  case isFalse hc =>
    split
    case isTrue hdone => exact fun ho => ⟨(h ho).1.resetBodyStream hdone, (h ho).2⟩
    case isFalse => exact h

theorem Sound.pumpBodyStream (h : Sound s k) :
    Sound (s.pumpBodyStream o).1 ((s.pumpBodyStream o).2 ++ k) := by
  unfold HttpSession.pumpBodyStream
  split
  · exact h
  · split
    case isTrue hdone => exact fun ho => ⟨(h ho).1.resetBodyStream hdone, (h ho).2⟩
    case isFalse => exact h.pumpBodyChunk 0

/-- In an open session the last `Send` succeeded, so the stream goes on. -/
theorem Sound.afterSend {r₁ r₂ : HSeg} (h : Sound s k) (h1 : r₁.1.session = s.session)
    (h2 : Sound r₂.1 (r₂.2 ++ k)) :
    Sound (if s.session.sendResult.isSome then r₁ else r₂).1
      ((if s.session.sendResult.isSome then r₁ else r₂).2 ++ k) := by
  split
  case isTrue hr =>
    intro ho
    have hnone := (h (h1 ▸ ho)).1.result
    rw [hnone] at hr
    cases hr
  case isFalse => exact h2

/-! ## File streams -/

theorem Good.active_of_file (hg : s.Good) (h : 0 < s.fileStream.remainingBytes) :
    s.fileStream.active = true := by
  by_contra ha
  rw [hg.file_left, hg.file_inactive (by simpa using ha)] at h
  exact absurd h (Nat.lt_irrefl _)

/-- A file stream that has nothing left may be given up. -/
theorem Good.resetFileStream (hg : s.Good) (h : s.fileStream.remainingBytes = 0) :
    s.resetFileStream.Good := by
  refine { hg with
    whole := ?_
    single := .inl rfl
    file_inactive := fun _ => rfl
    file_left := rfl
    file_chunk := nofun }
  have hw : s.responses = s.handed ++ (s.fileStream.unsent ++ s.bodyStream.unsent) := hg.whole
  have hfd : s.fileStream.fd = [] := List.length_eq_zero_iff.1 (hg.file_left ▸ h)
  have hf : s.fileStream.unsent = [] := by
    unfold FileStream.unsent
    split
    · exact hfd
    · rfl
  rw [hf] at hw
  exact hw

theorem Good.sendFileChunk (hg : s.Good) (n : Nat) (h : 0 < s.fileStream.remainingBytes) :
    Good { s with
      fileStream := s.fileStream.advance n
      handed := s.handed ++ s.fileStream.fd.take n } := by
  have ha := hg.active_of_file h
  have hleft := hg.file_left
  refine { hg with whole := ?_, file_inactive := ?_, file_left := ?_ }
  · have hw : s.responses = s.handed ++ (s.fileStream.unsent ++ s.bodyStream.unsent) := hg.whole
    rw [FileStream.unsent_advance ha n, List.append_assoc, ← List.append_assoc] at hw
    exact hw
  · intro hn
    exact absurd ha (by simpa [FileStream.advance] using hn)
  · simp only [FileStream.advance, List.length_drop]
    omega

/-- A chunk that `read` fills is as long as it was meant to be. -/
theorem Good.length_read (hg : s.Good) :
    (s.fileStream.fd.take s.fileStream.nextSize).length = s.fileStream.nextSize := by
  have := hg.file_left
  rw [List.length_take, FileStream.nextSize]
  omega

theorem Sound.pumpFileChunk (h : Sound s k) (hr : ∀ n, o.read ≠ .short n) (i : Nat) :
    Sound (s.pumpFileChunk o i).1 ((s.pumpFileChunk o i).2 ++ k) := by
  simp only [HttpSession.pumpFileChunk]
  split
  case isFalse hc =>
    split
    case isTrue hdone => exact fun ho => ⟨(h ho).1.resetFileStream hdone, (h ho).2⟩
    case isFalse => exact h
  case isTrue hc =>
    split
    case isTrue => exact sound_disconnect _ o k
    case isFalse =>
      cases hread : o.read with
      | short n => exact absurd hread (hr n)
      | failed => exact sound_disconnect _ o k
      | full =>
        simp only [FileStream.read]
        split
        case isTrue he =>
          -- the chunk is not empty: bytes remain, and chunks have a size
          intro ho
          have hg := (h ho).1
          have hlen := hg.length_read
          have hpos := hg.file_chunk (hg.active_of_file hc.2)
          rw [List.isEmpty_iff.1 he, FileStream.nextSize, List.length_nil] at hlen
          omega
        case isFalse he =>
          refine Sound.andThen (Sound.sendBytes fun ho => ?_)
          obtain ⟨hg, hk⟩ := h ho
          have hlen := hg.length_read
          refine ⟨?_, ?_⟩
          · rw [hlen]
            exact hg.sendFileChunk _ hc.2
          · rw [hlen, decide_eq_false (Nat.lt_irrefl _)]
            exact hk

theorem Sound.pumpFileStream (h : Sound s k) (hr : ∀ n, o.read ≠ .short n) :
    Sound (s.pumpFileStream o).1 ((s.pumpFileStream o).2 ++ k) := by
  unfold HttpSession.pumpFileStream
  split
  · exact h
  · split
    case isTrue hdone => exact fun ho => ⟨(h ho).1.resetFileStream hdone, (h ho).2⟩
    case isFalse => exact h.pumpFileChunk hr 0

/-! ## Responses -/

theorem streaming_respond (bytes : Bytes) : (s.respond bytes).streaming = s.streaming := rfl

theorem unsent_eq_nil (h : s.streaming = false) : s.unsent = [] := by
  simp only [streaming, Bool.or_eq_false_iff] at h
  simp [unsent, FileStream.unsent, BodyStream.unsent, h.1, h.2]

/-- With no stream active a response that is handed over at once stays whole. -/
theorem Good.sendWhole (hg : s.Good) (h : s.streaming = false) (bytes : Bytes) :
    Good { s.respond bytes with handed := s.handed ++ bytes } := by
  refine { hg with whole := ?_ }
  have hw : s.responses = s.handed ++ s.unsent := hg.whole
  rw [unsent_eq_nil h, List.append_nil] at hw
  show s.responses ++ bytes = s.handed ++ bytes ++ s.unsent
  rw [unsent_eq_nil h, List.append_nil, hw]

theorem Good.startBody (hg : s.Good) (h : s.streaming = false) (header body : Bytes)
    (chunkSize maxChunks : Nat) :
    Good { s.respond (header ++ body) with
      bodyStream := ⟨body, 0, chunkSize, maxChunks, true⟩
      handed := s.handed ++ header } := by
  have hw : s.responses = s.handed ++ s.unsent := hg.whole
  rw [unsent_eq_nil h, List.append_nil] at hw
  simp only [streaming, Bool.or_eq_false_iff] at h
  refine { hg with whole := ?_, single := .inl h.1, body_inactive := nofun }
  show s.responses ++ (header ++ body) = s.handed ++ header ++ (s.fileStream.unsent ++ body)
  simp [FileStream.unsent, h.1, hw]

theorem Good.startFile (hg : s.Good) (h : s.streaming = false) (header content : Bytes)
    {chunkSize : Nat} (hc : 0 < chunkSize) (maxChunks : Nat) :
    Good { s.respond (header ++ content) with
      fileStream := ⟨content, content.length, chunkSize, maxChunks, true⟩
      handed := s.handed ++ header } := by
  have hw : s.responses = s.handed ++ s.unsent := hg.whole
  rw [unsent_eq_nil h, List.append_nil] at hw
  simp only [streaming, Bool.or_eq_false_iff] at h
  refine { hg with
    whole := ?_
    single := .inr h.2
    file_inactive := nofun
    file_left := rfl
    file_chunk := fun _ => hc }
  show s.responses ++ (header ++ content) = s.handed ++ header ++ (content ++ s.bodyStream.unsent)
  simp [BodyStream.unsent, h.2, hw]

theorem Sound.sendWhole (h : Sound s k) (hst : s.streaming = false) (bytes : Bytes) :
    Sound ((s.respond bytes).sendBytes o bytes).1 (((s.respond bytes).sendBytes o bytes).2 ++ k) :=
  Sound.sendBytes fun ho => ⟨(h ho).1.sendWhole hst bytes, (h ho).2⟩

theorem Sound.sendResponse (h : Sound s k) (hst : s.streaming = false) (hnew : o.newHeader = true)
    (r : HttpResponse) :
    Sound ((s.respond (r.serialize o.date)).sendResponse o r).1
      (((s.respond (r.serialize o.date)).sendResponse o r).2 ++ k) := by
  simp only [HttpSession.sendResponse]
  split
  case isTrue => exact h.sendWhole hst _
  case isFalse =>
    rw [hnew, if_neg (by simp)]
    split
    case isTrue hb =>
      have hser : r.serialize o.date = r.serializeHeaders o.date r.body.length := by
        simp only [Bool.or_eq_true, List.isEmpty_iff] at hb
        rcases hb with hb | hb <;> simp [HttpResponse.serialize, HttpResponse.sentBody, hb]
      rw [hser]
      exact h.sendWhole hst _
    case isFalse hb =>
      have hser : r.serialize o.date = r.serializeHeaders o.date r.body.length ++ r.body := by
        simp only [Bool.or_eq_true, not_or, Bool.not_eq_true] at hb
        simp [HttpResponse.serialize, HttpResponse.sentBody, hb.1]
      unfold startBodyStream
      rw [if_neg (by rw [streaming_respond, hst]; simp), hser]
      exact Sound.andThen (Sound.sendBytes fun ho =>
        ⟨(h ho).1.startBody hst _ _ _ _, (h ho).2⟩)

theorem Sound.sendFile (h : Sound s k) (hst : s.streaming = false) (hnew : o.newHeader = true)
    (r : HttpResponse) (file : FileOpen) (contentType : Bytes) (chunkSize maxChunks : Nat) :
    Sound (s.sendFile o r file contentType chunkSize maxChunks).1
      ((s.sendFile o r file contentType chunkSize maxChunks).2 ++ k) := by
  unfold HttpSession.sendFile
  cases file with
  | notFound | openFailed | notRegular => exact h.sendResponse hst hnew _
  | regular content =>
    simp only [hnew, Bool.not_true, Bool.false_eq_true, if_false]
    generalize fileResponse r contentType = q
    split
    case isTrue hb =>
      rw [show q.serializeFile o.date content = q.serializeHeaders o.date content.length by
        simp [HttpResponse.serializeFile, HttpResponse.sentBody, hb]]
      exact h.sendWhole hst _
    case isFalse hb =>
      rw [show q.serializeFile o.date content =
          q.serializeHeaders o.date content.length ++ content by
        simp [HttpResponse.serializeFile, HttpResponse.sentBody, hb]]
      unfold startFileStream
      rw [if_neg (by rw [streaming_respond, hst]; simp)]
      exact Sound.andThen (Sound.sendBytes fun ho =>
        ⟨(h ho).1.startFile hst _ _ (by omega) _, (h ho).2⟩)

/-! ## Runs -/

theorem Sound.tail {f : HFrame} (h : Sound s (f :: k)) : Sound s k := by
  intro ho
  obtain ⟨hg, hk⟩ := h ho
  refine ⟨hg, ?_⟩
  rw [List.filter_cons] at hk
  split at hk
  · cases hk
  · exact hk

theorem Sound.exec {i : HttpInstr} (h : Sound s (.code i :: k)) (hr : ∀ n, o.read ≠ .short n) :
    Sound (s.exec o i).1 ((s.exec o i).2 ++ k) := by
  have ht := h.tail
  cases i with
  | session i =>
    cases hi : isReturnFrame (.code i) with
    | false => exact ht.inSession fun _ => (Session.faceQuiet_exec _ _ hi).result
    | true =>
      cases i with
      | returnSend result =>
        -- a failed `Send` is returned in a session that has been closed only
        intro ho
        obtain ⟨hg, hk⟩ := h ho
        cases result with
        | none => exact ⟨{ hg with result := rfl }, hk⟩
        | some e => cases hk
      | _ => cases hi
  | pumpFileStream => exact ht.pumpFileStream hr
  | pumpBodyStream => exact ht.pumpBodyStream
  | fileHeaderSent => exact ht.afterSend rfl (ht.pumpFileStream hr)
  | bodyHeaderSent => exact ht.afterSend rfl ht.pumpBodyStream
  | fileChunkSent i short =>
    refine ht.afterSend rfl ?_
    cases short with
    | false => exact ht.pumpFileChunk hr (i + 1)
    | true => exact fun ho => by cases (h ho).2
  | bodyChunkSent i => exact ht.afterSend rfl (ht.pumpBodyChunk (i + 1))
  | onDisconnected => exact fun ho => by cases (h ho).2

theorem sound_step (c : HConf) (i : HInput) (c' : HConf) (h : Sound c.state c.stack)
    (hs : machine.step c i = some c') (hQ : Undisturbed c i) : Sound c'.state c'.stack := by
  rcases Machine.step_cases hs with ⟨o, j, rest, rfl, hst, rfl⟩ | ⟨o, a, rfl, -, rfl⟩ |
    ⟨b, k, rest, rfl, hst, rfl⟩ | ⟨o, e, r, rfl, hst, he, rfl⟩
  · rw [hst] at h
    exact h.exec hQ
  · cases a with
    | session a => exact h.inSession fun _ => (Session.faceQuiet_call _ _ a.2).result
    | send r => exact h.sendResponse hQ.1 hQ.2 r
    | sendFile r file contentType chunkSize maxChunks =>
      exact h.sendFile hQ.1 hQ.2 r file contentType chunkSize maxChunks
  · rw [hst] at h
    exact h.tail
  · rw [hst] at h
    obtain ⟨q, hq, rfl⟩ := Option.map_eq_some_iff.1 he
    have := h.inSession fun _ => (Session.faceQuiet_event hq).result
    rwa [List.append_nil] at this

/-- **Whole responses in order.** In every run in which no response is sent
while an earlier one is being streamed, handlers get a buffer for the header of
their response and files keep their length, an open session has handed to
`Session::Send` exactly the responses of its requests, in order and complete,
up to what the active stream still holds. -/
theorem responses_whole (cfg : Config) (is : List HInput)
    (h : machine.Steps Undisturbed (initConf cfg) is) :
    machine.Visits (fun c => c.state.session.state = .kOpen → c.state.Whole) (initConf cfg) is :=
  Trace.visits_of_steps (J := fun c : HConf => Sound c.state c.stack)
    (fun _ hJ ho => (hJ ho).1.whole) sound_step is
    (fun _ => ⟨⟨rfl, .inl rfl, fun _ => rfl, fun _ => rfl, rfl, nofun, rfl⟩, rfl⟩) h

/-! ## Two requests in one chunk -/

/-- A file of two bytes is streamed to its end before the next response. -/
def streamThenSendRun : List HInput :=
  [.call {} (.session ⟨.start, rfl⟩), .exec {},
    .call {} (.sendFile {} (.regular [1, 2]) [] 4096 1),
    .exec {}, .exec {}, .exec {}, .exec {}, .exec {}, .exec {},
    .call {} (.send { body := [3] })]

theorem responses_whole_in_turn :
    machine.Visits (fun c => c.state.session.state = .kOpen → c.state.Whole) (initConf {})
      streamThenSendRun := by
  refine responses_whole {} streamThenSendRun ?_
  refine .cons rfl trivial (.cons rfl (fun _ => nofun) (.cons rfl ⟨rfl, rfl⟩ ?_))
  refine .cons rfl (fun _ => nofun) (.cons rfl (fun _ => nofun) (.cons rfl (fun _ => nofun) ?_))
  refine .cons rfl (fun _ => nofun) (.cons rfl (fun _ => nofun) (.cons rfl (fun _ => nofun) ?_))
  exact .cons rfl ⟨rfl, rfl⟩ trivial

/-- Two requests arrive in one chunk. The first is answered with a file of one
byte more than the chunk size, the second with a small response. -/
def pipelinedRun : List HInput :=
  [.call {} (.session ⟨.start, rfl⟩), .exec {}, .event {} (0, ⟨1, true, [71]⟩),
    .call {} (.sendFile {} (.regular (List.replicate 4097 0)) [] 4096 1),
    .exec {}, .exec {}, .exec {}, .exec {}, .exec {}, .exec {},
    .call {} (.send { body := [3] })]

theorem pipelinedRun_end :
    ((machine.run (initConf {}) pipelinedRun).map fun c =>
      (c.state.session.state, c.state.unsent, c.state.responses.getLast?)) =
        some (.kOpen, [0], some 3) := by
  decide +kernel

/-- The small response is handed over with the file's last byte outstanding. -/
theorem response_interrupts_stream :
    ∃ c, machine.run (initConf {}) pipelinedRun = some c ∧ c.state.session.state = .kOpen ∧
      c.state.unsent = [0] ∧ ¬ c.state.Whole := by
  obtain ⟨c, hc, he⟩ := Option.map_eq_some_iff.1 pipelinedRun_end
  simp only [Prod.mk.injEq] at he
  obtain ⟨ho, hu, hlast⟩ := he
  refine ⟨c, hc, ho, hu, fun h => ?_⟩
  have hw : c.state.responses = c.state.handed ++ c.state.unsent := h
  rw [hw, hu, List.getLast?_concat] at hlast
  exact absurd hlast (by decide)

end HttpSession

end IouringRuntime
