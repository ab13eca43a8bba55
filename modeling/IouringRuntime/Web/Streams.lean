import IouringRuntime.Web.Pipeline

/-!
# The streams of a session

What holds in every run of `HttpSession::machine`, whatever the handlers send:
at most one stream is active, one that is not is empty, and while the session is
open every `Send` has succeeded, so that the bytes given to `Session::Send` are
the bytes it accepted.
-/

namespace IouringRuntime

open Reentrant

structure StreamsOk (f : FileStream) (b : BodyStream) : Prop where
  single : f.active = false ∨ b.active = false
  body_inactive : b.active = false → b.body = []
  file_inactive : f.active = false → f.fd = []
  file_left : f.remainingBytes = f.fd.length
  file_chunk : f.active = true → 0 < f.chunkSize

namespace StreamsOk

variable {f : FileStream} {b : BodyStream}

theorem resetBody (h : StreamsOk f b) :
    StreamsOk f { b with body := [], offset := 0, active := false } :=
  { h with single := .inr rfl, body_inactive := fun _ => rfl }

theorem resetFile (h : StreamsOk f b) :
    StreamsOk { f with fd := [], remainingBytes := 0, active := false } b :=
  { h with
    single := .inl rfl
    file_inactive := fun _ => rfl
    file_left := rfl
    file_chunk := nofun }

theorem advanceBody (h : StreamsOk f b) (n : Nat) : StreamsOk f { b with offset := n } := { h with }

theorem advanceFile (h : StreamsOk f b) (n : Nat) : StreamsOk (f.advance n) b := by
  refine { h with file_inactive := fun hf => ?_, file_left := ?_ }
  · show f.fd.drop n = []
    rw [h.file_inactive hf, List.drop_nil]
  · show f.remainingBytes - n = (f.fd.drop n).length
    rw [h.file_left, List.length_drop]

end StreamsOk

namespace HttpSession

/-- Frames that only a session that is not open has. -/
def isClosedFrame : HFrame → Bool
  | .code (.session (.returnSend (some _))) | .code .onDisconnected => true
  | _ => false

structure Tidy (s : HttpSession) (k : List HFrame) : Prop where
  streams : StreamsOk s.fileStream s.bodyStream
  result : s.session.state = .kOpen → s.session.sendResult = none
  accepted : s.session.state = .kOpen → dataOf s.session.accepted = s.handed
  frames : s.session.state = .kOpen → k.filter isClosedFrame = []

variable {s : HttpSession} {o : HttpOutcome} {k : List HFrame}

theorem filter_isClosedFrame {fs : List SFrame} (h : fs.filter (isFailed .kOpen) = []) :
    (fs.flatMap liftFrame).filter isClosedFrame = [] := by
  have hf := filter_liftFrame h
  rw [List.filter_eq_nil_iff] at hf ⊢
  intro g hg hc
  refine hf g hg ?_
  unfold isClosedFrame at hc
  split at hc
  · rfl
  · rfl
  · cases hc

namespace Tidy

theorem tail {f : HFrame} (h : Tidy s (f :: k)) : Tidy s k := by
  refine { h with frames := fun ho => ?_ }
  have hk := h.frames ho
  rw [List.filter_cons] at hk
  split at hk
  · cases hk
  · exact hk

theorem inSession {r : Seg} (h : Tidy s k) (hq : FaceQuiet s.session r) :
    Tidy (s.inSession r).1 ((s.inSession r).2 ++ k) := by
  refine ⟨h.streams, fun ho => ?_, fun ho => ?_, fun ho => ?_⟩
  · exact (congrArg Prod.fst hq.view).trans (h.result (hq.isOpen ho))
  · have ha : r.1.accepted = s.session.accepted := congrArg Prod.snd hq.view
    show dataOf r.1.accepted = s.handed
    rw [ha]
    exact h.accepted (hq.isOpen ho)
  · have ho' : r.1.state = .kOpen := ho
    rw [List.filter_append, h.frames (hq.isOpen ho), List.append_nil]
    exact filter_isClosedFrame (ho' ▸ hq.frames)

theorem sendBytes (h : Tidy s k) (bytes : Bytes) :
    Tidy (s.sendBytes o bytes).1 ((s.sendBytes o bytes).2 ++ k) := by
  by_cases ho : (s.session.sendOnOwner (s.outcome o) ⟨bytes⟩).1.state = .kOpen
  · obtain ⟨-, hq⟩ := Session.faceQuiet_sendOnOwner ho
    refine inSession (s := { s with
      session := s.session.accept ⟨bytes⟩
      handed := s.handed ++ bytes }) ⟨h.streams, h.result, fun ho => ?_, h.frames⟩ hq
    show dataOf (s.session.accepted ++ [⟨bytes⟩]) = s.handed ++ bytes
    rw [← h.accepted ho]
    simp [dataOf]
  · exact ⟨h.streams, fun hc => absurd hc ho, fun hc => absurd hc ho, fun hc => absurd hc ho⟩

theorem disconnect (h : StreamsOk s.fileStream s.bodyStream) :
    Tidy (s.disconnect o).1 ((s.disconnect o).2 ++ k) :=
  ⟨h, fun ho => absurd ho (disconnect_not_open s o), fun ho => absurd ho (disconnect_not_open s o),
    fun ho => absurd ho (disconnect_not_open s o)⟩

theorem andThen {r : HSeg} {k' : List HFrame} (h : Tidy r.1 (r.2 ++ (k' ++ k))) :
    Tidy (HttpSession.andThen r k').1 ((HttpSession.andThen r k').2 ++ k) := by
  show Tidy r.1 (r.2 ++ k' ++ k)
  rwa [List.append_assoc]

/-- A frame that does not come with a closed session. -/
theorem push {f : HFrame} (h : Tidy s k) (hf : isClosedFrame f = false) : Tidy s (f :: k) :=
  { h with frames := fun ho => by rw [List.filter_cons, hf, h.frames ho]; rfl }

theorem resetBodyStream (h : Tidy s k) : Tidy s.resetBodyStream k :=
  { h with streams := h.streams.resetBody }

theorem resetFileStream (h : Tidy s k) : Tidy s.resetFileStream k :=
  { h with streams := h.streams.resetFile }

theorem pumpBodyChunk (h : Tidy s k) (i : Nat) :
    Tidy (s.pumpBodyChunk o i).1 ((s.pumpBodyChunk o i).2 ++ k) := by
  simp only [HttpSession.pumpBodyChunk]
  split
  · split
    · exact disconnect h.streams.resetBody
    · refine andThen (sendBytes (push ?_ rfl) _)
      exact { h with streams := h.streams.advanceBody _ }
  · split
    · exact h.resetBodyStream
    · exact h

theorem pumpBodyStream (h : Tidy s k) :
    Tidy (s.pumpBodyStream o).1 ((s.pumpBodyStream o).2 ++ k) := by
  unfold HttpSession.pumpBodyStream
  split
  · exact h
  · split
    · exact h.resetBodyStream
    · exact h.pumpBodyChunk 0

theorem pumpFileChunk (h : Tidy s k) (i : Nat) :
    Tidy (s.pumpFileChunk o i).1 ((s.pumpFileChunk o i).2 ++ k) := by
  simp only [HttpSession.pumpFileChunk]
  split
  · split
    · exact disconnect h.streams.resetFile
    · split
      · exact disconnect h.streams.resetFile
      · split
        · exact h.resetFileStream
        · refine andThen (sendBytes (push ?_ rfl) _)
          exact { h with streams := h.streams.advanceFile _ }
  · split
    · exact h.resetFileStream
    · exact h

theorem pumpFileStream (h : Tidy s k) :
    Tidy (s.pumpFileStream o).1 ((s.pumpFileStream o).2 ++ k) := by
  unfold HttpSession.pumpFileStream
  split
  · exact h
  · split
    · exact h.resetFileStream
    · exact h.pumpFileChunk 0

theorem startBodyStream (h : Tidy s k) (header body : Bytes) (chunkSize maxChunks : Nat) :
    Tidy (s.startBodyStream o header body chunkSize maxChunks).1
      ((s.startBodyStream o header body chunkSize maxChunks).2 ++ k) := by
  unfold HttpSession.startBodyStream
  split
  · exact h
  · next hst =>
    refine andThen (sendBytes (push ?_ rfl) _)
    have hst' := inactive_of_not_streaming (Bool.eq_false_of_not_eq_true hst)
    exact { h with
      streams := { h.streams with
        single := .inl hst'.1
        body_inactive := fun ha => Bool.noConfusion ha } }

theorem startFileStream (h : Tidy s k) (header content : Bytes) (chunkSize maxChunks : Nat) :
    Tidy (s.startFileStream o header content chunkSize maxChunks).1
      ((s.startFileStream o header content chunkSize maxChunks).2 ++ k) := by
  unfold HttpSession.startFileStream
  split
  · exact h
  · next hst =>
    refine andThen (sendBytes (push ?_ rfl) _)
    have hst' := inactive_of_not_streaming (Bool.eq_false_of_not_eq_true hst)
    exact { h with streams := { h.streams with
      single := .inr hst'.2
      file_inactive := fun ha => Bool.noConfusion ha
      file_left := rfl
      file_chunk := fun _ => by show 0 < max _ _; omega } }

theorem sendResponse (h : Tidy s k) (r : HttpResponse) :
    Tidy (s.sendResponse o r).1 ((s.sendResponse o r).2 ++ k) := by
  simp only [HttpSession.sendResponse]
  split
  · exact h.sendBytes _
  · split
    · exact h
    · split
      · exact h.sendBytes _
      · exact h.startBodyStream _ _ _ _

theorem respond (h : Tidy s k) (bytes : Bytes) : Tidy (s.respond bytes) k := { h with }

theorem sendFile (h : Tidy s k) (r : HttpResponse) (file : FileOpen) (contentType : Bytes)
    (chunkSize maxChunks : Nat) :
    Tidy (s.sendFile o r file contentType chunkSize maxChunks).1
      ((s.sendFile o r file contentType chunkSize maxChunks).2 ++ k) := by
  unfold HttpSession.sendFile
  cases file with
  | notFound | openFailed | notRegular => exact (h.respond _).sendResponse _
  | regular content =>
    dsimp only
    split
    · exact (h.respond _).sendResponse _
    · split
      · exact (h.respond _).sendBytes _
      · exact (h.respond _).startFileStream _ _ _ _

/-- In an open session the last `Send` succeeded. -/
theorem afterSend {r₁ r₂ : HSeg} (h1 : Tidy r₁.1 (r₁.2 ++ k)) (h2 : Tidy r₂.1 (r₂.2 ++ k)) :
    Tidy (if s.session.sendResult.isSome then r₁ else r₂).1
      ((if s.session.sendResult.isSome then r₁ else r₂).2 ++ k) := by
  split
  · exact h1
  · exact h2

theorem exec {i : HttpInstr} (h : Tidy s (.code i :: k)) :
    Tidy (s.exec o i).1 ((s.exec o i).2 ++ k) := by
  have ht := h.tail
  cases i with
  | session i =>
    cases hi : isReturnFrame (.code i) with
    | false => exact ht.inSession (Session.faceQuiet_exec _ _ hi)
    | true =>
      cases i with
      | returnSend result =>
        refine ⟨ht.streams, fun ho => ?_, ht.accepted, ht.frames⟩
        have hk := h.frames ho
        cases result with
        | none => rfl
        | some e => cases hk
      | _ => cases hi
  | pumpFileStream => exact ht.pumpFileStream
  | pumpBodyStream => exact ht.pumpBodyStream
  | fileHeaderSent => exact afterSend ht.resetFileStream ht.pumpFileStream
  | bodyHeaderSent => exact afterSend ht.resetBodyStream ht.pumpBodyStream
  | fileChunkSent i short =>
    refine afterSend ht.resetFileStream ?_
    cases short with
    | false => exact ht.pumpFileChunk (i + 1)
    | true => exact ht.resetFileStream
  | bodyChunkSent i => exact afterSend ht.resetBodyStream (ht.pumpBodyChunk (i + 1))
  | onDisconnected => exact ht.resetFileStream.resetBodyStream

end Tidy

theorem preserved_tidy : machine.Preserved Tidy where
  exec _ _ _ _ h := h.exec
  call o s a st _ h := by
    cases a with
    | session a => exact h.inSession (Session.faceQuiet_call _ _ a.2)
    | send r => exact (h.respond _).sendResponse r
    | sendFile r file contentType chunkSize maxChunks =>
      exact h.sendFile r file contentType chunkSize maxChunks
  ret _ _ _ _ h := h.tail
  event o s e r he h := by
    obtain ⟨q, hq, rfl⟩ := Option.map_eq_some_iff.1 he
    have := h.inSession (Session.faceQuiet_event hq)
    rwa [List.append_nil] at this

/-! ## A closed session stays closed -/

/-- The session is open after the segment only if it was before. -/
def Stays (s : HttpSession) (r : HSeg) : Prop :=
  r.1.session.state = .kOpen → s.session.state = .kOpen

theorem stays_sendBytes {bytes : Bytes} : Stays s (s.sendBytes o bytes) := open_sendBytes

theorem stays_disconnect : Stays s (s.disconnect o) := fun h => absurd h (disconnect_not_open s o)

theorem stays_pumpBodyChunk (i : Nat) : Stays s (s.pumpBodyChunk o i) := by
  simp only [pumpBodyChunk]
  split
  · split
    · exact stays_disconnect
    · exact stays_sendBytes
  · split <;> exact id

theorem stays_pumpBodyStream : Stays s (s.pumpBodyStream o) := by
  unfold pumpBodyStream
  split
  · exact id
  · split
    · exact id
    · exact stays_pumpBodyChunk 0

theorem stays_pumpFileChunk (i : Nat) : Stays s (s.pumpFileChunk o i) := by
  simp only [pumpFileChunk]
  split
  · split
    · exact stays_disconnect
    · split
      · exact stays_disconnect
      · split
        · exact id
        · exact stays_sendBytes
  · split <;> exact id

theorem stays_pumpFileStream : Stays s (s.pumpFileStream o) := by
  unfold pumpFileStream
  split
  · exact id
  · split
    · exact id
    · exact stays_pumpFileChunk 0

theorem stays_exec (i : HttpInstr) : Stays s (s.exec o i) := by
  cases i with
  | session i =>
    cases hi : isReturnFrame (.code i) with
    | false => exact (Session.faceQuiet_exec _ _ hi).isOpen
    | true =>
      cases i with
      | returnSend _ => exact id
      | _ => cases hi
  | pumpFileStream => exact stays_pumpFileStream
  | pumpBodyStream => exact stays_pumpBodyStream
  | fileHeaderSent =>
    simp only [exec, fileHeaderSent]
    split
    · exact id
    · exact stays_pumpFileStream
  | bodyHeaderSent =>
    simp only [exec, bodyHeaderSent]
    split
    · exact id
    · exact stays_pumpBodyStream
  | fileChunkSent i short =>
    simp only [exec, fileChunkSent]
    split
    · exact id
    · split
      · exact id
      · exact stays_pumpFileChunk _
  | bodyChunkSent i =>
    simp only [exec, bodyChunkSent]
    split
    · exact id
    · exact stays_pumpBodyChunk _
  | onDisconnected => exact id

theorem stays_sendResponse (r : HttpResponse) : Stays s (s.sendResponse o r) := by
  simp only [sendResponse, startBodyStream]
  split
  · exact stays_sendBytes
  · split
    · exact id
    · split
      · exact stays_sendBytes
      · split
        · exact id
        · exact stays_sendBytes

theorem stays_call (a : HttpApi) : Stays s (s.call o a) := by
  cases a with
  | session a => exact (Session.faceQuiet_call _ _ a.2).isOpen
  | send r => exact stays_sendResponse r
  | sendFile r file contentType chunkSize maxChunks =>
    simp only [call, sendFile, startFileStream]
    cases file with
    | notFound | openFailed | notRegular => exact stays_sendResponse _
    | regular content =>
      dsimp only
      split
      · exact stays_sendResponse _
      · split
        · exact stays_sendBytes
        · split
          · exact id
          · exact stays_sendBytes

theorem changes_stays :
    machine.Changes fun s s' => s'.session.state = .kOpen → s.session.state = .kOpen where
  exec _ _ i := stays_exec i
  call _ _ a := stays_call a
  ret _ _ _ := id
  event o s e r he := by
    obtain ⟨q, hq, rfl⟩ := Option.map_eq_some_iff.1 he
    exact (Session.faceQuiet_event hq).isOpen

/-- The configurations of some run of a session configured by `cfg`. -/
abbrev Reachable (cfg : Config) (c : HConf) : Prop := machine.Reachable (initConf cfg) c

theorem isSend_start : Api.start.isSend = false := rfl

/-- A session that has been started. -/
def startedRun : List HInput := [.call {} (.session ⟨.start, isSend_start⟩), .exec {}]

theorem tidy_of_reachable {cfg : Config} {c : HConf} (h : Reachable cfg c) :
    Tidy c.state c.stack :=
  preserved_tidy.reachable h
    ⟨⟨.inl rfl, fun _ => rfl, fun _ => rfl, rfl, nofun⟩, fun _ => rfl, fun _ => rfl, fun _ => rfl⟩

end HttpSession

end IouringRuntime
