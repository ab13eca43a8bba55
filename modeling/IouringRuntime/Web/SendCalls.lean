import IouringRuntime.Reentrant.Call
import IouringRuntime.Session.FlushTest
import IouringRuntime.Web.Streams

/-!
# What becomes of a response

A call of `Send` or `SendFile` is followed from the response it marks as sent to
its return (`Serves`), with what its own code queues. `Starts` says how such
a call starts: the whole response is queued at once, its header is queued and
its body or file becomes the session's stream, or nothing happens. In the last
case the response is gone, and no caller is told.
-/

namespace IouringRuntime

open Reentrant

namespace HttpSession

/-! ## Responses and what is queued of them -/

/-- The bytes of the response that a call marks as sent. `SendFile` marks
nothing when it gets no buffer for the header of a file. -/
def responseOf (o : HttpOutcome) : HttpApi → Option Bytes
  | .session _ => none
  | .send r => some (r.serialize o.date)
  | .sendFile r file contentType _ _ =>
    let r := fileResponse r contentType
    match file with
    | .notFound => some ((r.error .kNotFound "Not Found").serialize o.date)
    | .openFailed | .notRegular =>
      some ((r.error .kInternalServerError "Internal Server Error").serialize o.date)
    | .regular content => if o.newHeader then some (r.serializeFile o.date content) else none

/-- `Send` has a buffer for the whole response, or one for the header and, if
there is a body, no stream in its way. -/
def hasRoom (s : HttpSession) (o : HttpOutcome) (r : HttpResponse) : Bool :=
  ((r.serialize o.date).length ≤ kInlineResponseMaxBytes && o.newResponse) ||
    (o.newHeader && (r.noBody || r.body.isEmpty || !s.streaming))

/-- The same for a call. -/
def roomFor (s : HttpSession) (o : HttpOutcome) : HttpApi → Bool
  | .session _ => true
  | .send r => s.hasRoom o r
  | .sendFile r file contentType _ _ =>
    let r := fileResponse r contentType
    match file with
    | .notFound => s.hasRoom o (r.error .kNotFound "Not Found")
    | .openFailed | .notRegular =>
      s.hasRoom o (r.error .kInternalServerError "Internal Server Error")
    | .regular _ => r.noBody || !s.streaming

/-- What the code of a call puts out: bytes that the session accepts, and reads
of the file that end before the chunk is full. -/
inductive Output where
  | queued (bytes : Bytes)
  | cutShort
  deriving DecidableEq, Repr

def queuedBytes (out : List Output) : Bytes :=
  out.flatMap fun
    | .queued bytes => bytes
    | .cutShort => []

/-- The segment goes on to read a chunk of the file. -/
def readsFile (s : HttpSession) : HttpInstr → Bool
  | .pumpFileStream =>
    s.fileStream.active && 0 < s.fileStream.remainingBytes && 0 < s.fileStream.maxChunksPerWrite
  | .fileHeaderSent =>
    s.session.sendResult.isNone && s.fileStream.active && 0 < s.fileStream.remainingBytes &&
      0 < s.fileStream.maxChunksPerWrite
  | .fileChunkSent i false =>
    s.session.sendResult.isNone && 0 < s.fileStream.remainingBytes &&
      i + 1 < s.fileStream.maxChunksPerWrite
  | _ => false

/-- The file ends before the chunk is full. -/
def FileRead.cuts (f : FileStream) : FileRead → Bool
  | .short n => n < f.nextSize
  | _ => false

def cutsShort (s : HttpSession) (o : HttpOutcome) (i : HttpInstr) : Bool :=
  s.readsFile i && o.newChunk && FileRead.cuts s.fileStream o.read

/-- The bytes the session accepts in a step. -/
def acceptedBy (s t : HttpSession) : Bytes :=
  dataOf (t.session.accepted.drop s.session.accepted.length)

def emit (c : HConf) (i : HInput) (c' : HConf) : List Output :=
  match i, c.stack with
  | .exec o, .code j :: _ =>
    (if cutsShort c.state o j then [.cutShort] else []) ++
      [.queued (acceptedBy c.state c'.state)]
  | _, _ => []

variable {s : HttpSession} {o : HttpOutcome} {k : List HFrame} {bytes : Bytes}

@[simp] theorem queuedBytes_append (xs ys : List Output) :
    queuedBytes (xs ++ ys) = queuedBytes xs ++ queuedBytes ys := List.flatMap_append

@[simp] theorem queuedBytes_queued (bytes : Bytes) : queuedBytes [.queued bytes] = bytes :=
  List.append_nil _

@[simp] theorem queuedBytes_cutShort : queuedBytes [.cutShort] = [] := rfl

/-! ## How a call starts -/

theorem fits_iff (r : HttpResponse) (date : Bytes) :
    (r.serializeHeaders date r.body.length).length + (r.sentBody r.body).length =
      (r.serialize date).length := by
  rw [HttpResponse.serialize, List.length_append]

theorem sentBody_eq_nil {r : HttpResponse} (h : (r.noBody || r.body.isEmpty) = true) :
    r.sentBody r.body = [] := by
  rw [Bool.or_eq_true, List.isEmpty_iff] at h
  obtain h | h := h
  · exact if_pos h
  · rw [HttpResponse.sentBody, h, ite_self]

/-- The segment that starts a call which marks a response as sent. -/
inductive Starts (s : HttpSession) (o : HttpOutcome) (response : Bytes) : Bool → HSeg → Prop where
  | whole : Starts s o response true ((s.respond response).sendBytes o response)
  | body {header body : Bytes} {chunkSize maxChunks : Nat} (hst : s.streaming = false)
      (hr : response = header ++ body) :
      Starts s o response true (andThen
        (sendBytes { s.respond response with
          bodyStream := ⟨body, 0, chunkSize, maxChunks, true⟩ } o header)
        [.code .bodyHeaderSent])
  | file {header content : Bytes} {chunkSize maxChunks : Nat} (hst : s.streaming = false)
      (hr : response = header ++ content) (hc : 0 < chunkSize) (hm : 0 < maxChunks) :
      Starts s o response true (andThen
        (sendBytes { s.respond response with
          fileStream := ⟨content, content.length, chunkSize, maxChunks, true⟩ } o header)
        [.code .fileHeaderSent])
  | dropped : Starts s o response false (s.respond response, [])

theorem starts_sendResponse (r : HttpResponse) :
    Starts s o (r.serialize o.date) (s.hasRoom o r)
      ((s.respond (r.serialize o.date)).sendResponse o r) := by
  simp only [sendResponse, fits_iff, hasRoom]
  by_cases hinline : (r.serialize o.date).length ≤ kInlineResponseMaxBytes ∧ o.newResponse = true
  · rw [if_pos hinline, decide_eq_true hinline.1, hinline.2, Bool.and_self, Bool.true_or]
    exact .whole
  · have hno : (decide ((r.serialize o.date).length ≤ kInlineResponseMaxBytes) &&
        o.newResponse) = false := by
      rw [Bool.and_eq_false_iff, decide_eq_false_iff_not, ← Bool.not_eq_true]
      exact not_and_or.1 hinline
    rw [if_neg hinline, hno, Bool.false_or]
    by_cases hnew : o.newHeader = true
    · rw [hnew, if_neg (by decide), Bool.true_and]
      by_cases hb : (r.noBody || r.body.isEmpty) = true
      · rw [if_pos hb, hb, Bool.true_or]
        have hser : r.serialize o.date = r.serializeHeaders o.date r.body.length := by
          rw [HttpResponse.serialize, sentBody_eq_nil hb, List.append_nil]
        rw [hser]
        exact .whole
      · have hsent : r.sentBody r.body = r.body := by
          rw [Bool.or_eq_true, not_or] at hb
          exact if_neg hb.1
        rw [if_neg hb, Bool.eq_false_of_not_eq_true hb, Bool.false_or, startBodyStream,
          streaming_respond]
        by_cases hst : s.streaming = true
        · rw [if_pos hst, hst]
          exact .dropped
        · rw [if_neg hst, Bool.eq_false_of_not_eq_true hst]
          refine .body (Bool.eq_false_of_not_eq_true hst) ?_
          rw [HttpResponse.serialize, hsent]
    · rw [Bool.eq_false_of_not_eq_true hnew, if_pos (by decide), Bool.false_and]
      exact .dropped

theorem starts_call {a : HttpApi} {response : Bytes} (h : responseOf o a = some response) :
    Starts s o response (s.roomFor o a) (s.call o a) := by
  cases a with
  | session a => cases h
  | send r =>
    obtain rfl := Option.some.inj h
    exact starts_sendResponse r
  | sendFile r file contentType chunkSize maxChunks =>
    cases file with
    | notFound | openFailed | notRegular =>
      obtain rfl := Option.some.inj h
      exact starts_sendResponse _
    | regular content =>
      simp only [responseOf] at h
      split at h
      · next hnew =>
        obtain rfl := Option.some.inj h
        simp only [call, sendFile, roomFor]
        generalize fileResponse r contentType = q
        rw [hnew, if_neg (by decide)]
        by_cases hb : q.noBody = true
        · have hser : q.serializeFile o.date content =
              q.serializeHeaders o.date content.length := by
            simp [HttpResponse.serializeFile, HttpResponse.sentBody, hb]
          rw [if_pos hb, hb, Bool.true_or, hser]
          exact .whole
        · have hser : q.serializeFile o.date content =
              q.serializeHeaders o.date content.length ++ content := by
            simp [HttpResponse.serializeFile, HttpResponse.sentBody, hb]
          rw [if_neg hb, Bool.eq_false_of_not_eq_true hb, Bool.false_or, startFileStream,
            streaming_respond]
          by_cases hst : s.streaming = true
          · rw [if_pos hst, hst]
            exact .dropped
          · rw [if_neg hst, Bool.eq_false_of_not_eq_true hst]
            exact .file (Bool.eq_false_of_not_eq_true hst) hser (by omega) (by omega)
      · cases h

/-! ## What a segment does to the streams -/

/-- Session code and callbacks, which leave the streams alone. -/
def isPlainFrame : HFrame → Bool
  | .callback _ | .code (.session _) => true
  | _ => false

theorem plain_liftFrame {fs : List SFrame} (h : fs.filter (Session.isFlushFrame .kOpen) = []) :
    (fs.flatMap liftFrame).all isPlainFrame = true := by
  rw [List.filter_eq_nil_iff] at h
  rw [List.all_eq_true]
  intro g hg
  obtain ⟨f, hf, hgf⟩ := List.mem_flatMap.1 hg
  have hno := h f hf
  cases f with
  | code i =>
    obtain rfl := List.mem_singleton.1 hgf
    rfl
  | callback c =>
    cases c with
    | onRecv data =>
      obtain rfl := List.mem_singleton.1 hgf
      rfl
    | onSocketDrained | onDisconnected => exact absurd rfl hno
    | onConnected | onTimeoutTick | onBackpressure => cases hgf

theorem acceptedBy_same {t : HttpSession} (h : t.session.accepted = s.session.accepted) :
    acceptedBy s t = [] := by
  rw [acceptedBy, h, List.drop_length]
  rfl

/-- A segment that leaves the session open, if it does, sends nothing and pushes
plain frames. -/
structure Passes (s : HttpSession) (r : HSeg) : Prop where
  file : r.1.fileStream = s.fileStream
  body : r.1.bodyStream = s.bodyStream
  frames : r.1.session.state = .kOpen → r.2.all isPlainFrame = true

theorem passes_inSession {r : Seg} (h : r.2.filter (Session.isFlushFrame r.1.state) = []) :
    Passes s (s.inSession r) :=
  ⟨rfl, rfl, fun ho => plain_liftFrame (by rwa [show r.1.state = .kOpen from ho] at h)⟩

theorem passes_session (i : Instr) : Passes s (s.exec o (.session i)) :=
  passes_inSession (Session.steady_exec _ _ i).frames

theorem accepted_session (i : Instr) :
    (s.exec o (.session i)).1.session.accepted = s.session.accepted := by
  cases hi : isReturnFrame (.code i) with
  | false => exact congrArg Prod.snd (Session.faceQuiet_exec (s.outcome o) s.session hi).view
  | true =>
    cases i with
    | returnSend _ => rfl
    | _ => cases hi

theorem passes_sendBytes : Passes s (s.sendBytes o bytes) :=
  ⟨rfl, rfl, (passes_inSession (s := s) (Session.steady_sendOnOwner s.session _ _).frames).frames⟩

theorem acceptedBy_sendBytes {t : HttpSession} (ht : t.session = s.session)
    (ho : (t.sendBytes o bytes).1.session.state = .kOpen) :
    acceptedBy s (t.sendBytes o bytes).1 = bytes := by
  have hq := (Session.faceQuiet_sendOnOwner ho).2
  have ha : (t.sendBytes o bytes).1.session.accepted = t.session.accepted ++ [⟨bytes⟩] :=
    congrArg Prod.snd hq.view
  rw [acceptedBy, ha, ht, List.drop_left]
  exact List.append_nil _

/-- A call of the session's own interface. -/
theorem passes_callSession (a : { a : Api // a.isSend = false }) :
    Passes s (s.call o (.session a)) := by
  refine passes_inSession ?_
  obtain ⟨a, -⟩ := a
  cases a with
  | disconnectAfterFlush =>
    simp only [Session.call, Session.disconnectAfterFlushOnOwner]
    split
    · rfl
    · exact (Session.steady_tryDisconnectAfterFlush _ _).frames
  | beginAppIo => rfl
  | endAppIo =>
    exact ((Session.steady_tryDisconnectAfterFlush _ _).andThen fun _ => rfl).frames
  | _ => exact (Session.steady_call _ _ (by simp) (by simp) (by simp)).frames

theorem passes_sendResponse (h : s.streaming = true) (r : HttpResponse) :
    Passes s (s.sendResponse o r) := by
  simp only [sendResponse, startBodyStream, h, if_true]
  split
  · exact passes_sendBytes
  · split
    · exact ⟨rfl, rfl, fun _ => rfl⟩
    · split
      · exact passes_sendBytes
      · exact ⟨rfl, rfl, fun _ => rfl⟩

theorem Passes.of_respond {r : HSeg} (h : Passes (s.respond bytes) r) : Passes s r :=
  ⟨h.file, h.body, h.frames⟩

/-- While a stream is active no call of user code touches it or starts another. -/
theorem passes_call (h : s.streaming = true) (a : HttpApi) : Passes s (s.call o a) := by
  cases a with
  | session a => exact passes_callSession a
  | send r => exact (passes_sendResponse (s := s.respond _) h r).of_respond
  | sendFile r file contentType chunkSize maxChunks =>
    simp only [call, sendFile, startFileStream]
    cases file with
    | notFound | openFailed | notRegular =>
      exact (passes_sendResponse (s := s.respond _) h _).of_respond
    | regular content =>
      dsimp only
      split
      · exact (passes_sendResponse (s := s.respond _) h _).of_respond
      · split
        · exact (passes_sendBytes (s := s.respond _)).of_respond
        · rw [streaming_respond, h, if_pos rfl]
          exact ⟨rfl, rfl, fun _ => rfl⟩

theorem emit_exec {c : HConf} {j : HttpInstr} {rest : List HFrame} (hst : c.stack = .code j :: rest)
    (o : HttpOutcome) (c' : HConf) :
    emit c (.exec o) c' = (if cutsShort c.state o j then [.cutShort] else []) ++
      [.queued (acceptedBy c.state c'.state)] := by
  simp only [emit, hst]

theorem emit_session {c : HConf} {i : Instr} {rest : List HFrame}
    (hst : c.stack = .code (.session i) :: rest) (o : HttpOutcome) (st : List HFrame) :
    emit c (.exec o) ⟨(machine.exec o c.state (.session i)).1, st⟩ = [.queued []] := by
  have ha : acceptedBy c.state (machine.exec o c.state (.session i)).1 = [] :=
    acceptedBy_same (accepted_session i)
  rw [emit_exec hst, ha]
  rfl

/-! ## A response that is queued whole -/

/-- The frames of the call itself are session code. -/
def OwnPlain : List HFrame → Prop
  | [] => True
  | f :: rest => ((f :: rest).all isCode = true → isPlainFrame f = true) ∧ OwnPlain rest

theorem OwnPlain.append {fs rest : List HFrame} (hfs : fs.all isPlainFrame = true)
    (h : OwnPlain rest) : OwnPlain (fs ++ rest) := by
  induction fs with
  | nil => exact h
  | cons f fs ih =>
    rw [List.all_cons, Bool.and_eq_true] at hfs
    exact ⟨fun _ => hfs.1, ih hfs.2⟩

/-- Above a callback no frame is the call's own. -/
theorem OwnPlain.above {rest : List HFrame} (hrest : rest.all isCode = false) (h : OwnPlain rest)
    (fs : List HFrame) : OwnPlain (fs ++ rest) := by
  induction fs with
  | nil => exact h
  | cons f fs ih =>
    refine ⟨fun hall => ?_, ih⟩
    have happ : (f :: fs ++ rest).all isCode = false := by
      rw [List.all_append, hrest, Bool.and_false]
    exact absurd hall (by rw [← Bool.not_eq_true] at happ; exact happ)

/-- The response has been queued. -/
structure Queued (base : List HFrame) (response : Bytes) (c : HConf) (out : List Output) :
    Prop where
  tidy : Tidy c.state c.stack
  isOpen : c.state.session.state = .kOpen → queuedBytes out = response ∧ .cutShort ∉ out ∧
    ∃ top, c.stack = top ++ base ∧ OwnPlain top

theorem queued_step {base : List HFrame} {response : Bytes} (c : HConf) (i : HInput) (c' : HConf)
    (out : List Output) (hlen : base.length < c.stack.length) (hs : machine.step c i = some c')
    (h : Queued base response c out) :
    Queued base response c' (out ++ if Owns base c.stack then emit c i c' else []) := by
  refine ⟨preserved_tidy.step hs h.tidy, fun ho => ?_⟩
  obtain ⟨hq, hcut, top, htop, hown⟩ := h.isOpen (changes_stays.step hs ho)
  rw [htop, owns_append]
  rcases Machine.step_above htop hlen hs with ⟨o, j, rest, rfl, rfl, rfl⟩ |
    ⟨o, a, k, rest, rfl, rfl, rfl⟩ | ⟨b, k, rest, rfl, rfl, rfl⟩
  · by_cases hall : (Frame.code j :: rest : List HFrame).all isCode = true
    · obtain ⟨hplain, hrest⟩ := hown
      cases j with
      | session i =>
        rw [if_pos hall, emit_session htop]
        refine ⟨by simp [hq], by simp [hcut], _, rfl, hrest.append ?_⟩
        exact (passes_session i).frames ho
      | _ => cases hplain hall
    · have hrest : rest.all isCode = false := by simpa [isCode] using hall
      rw [if_neg hall, List.append_nil]
      exact ⟨hq, hcut, _, rfl, hown.2.above hrest _⟩
  · rw [if_neg (by simp [isCode]), List.append_nil]
    exact ⟨hq, hcut, _, rfl, hown.above (by simp [isCode]) _⟩
  · rw [if_neg (by simp [isCode]), List.append_nil]
    exact ⟨hq, hcut, _, rfl, hown.2⟩

/-! ## A response that is streamed -/

/-- The code of the stream waits below session code and callbacks. -/
def Parked (base : List HFrame) (i : HttpInstr) (stack : List HFrame) : Prop :=
  ∃ top, top.all isPlainFrame = true ∧ stack = top ++ .code i :: base

theorem parked_of_frames {base fs frames : List HFrame} {i : HttpInstr}
    (hfs : fs.all isPlainFrame = true) (hframes : frames = fs ++ [.code i]) :
    Parked base i (frames ++ base) :=
  ⟨fs, hfs, by rw [hframes, List.append_assoc]; rfl⟩

/-- Nothing was queued and no read ended early. -/
def Silent (out : List Output) : Prop := queuedBytes out = [] ∧ .cutShort ∉ out

theorem silent_nil : Silent [] := ⟨rfl, by simp⟩

/-- Session code and user code leave the stream as it is. -/
theorem parked_step {base top : List HFrame} {f : HFrame} {j : HttpInstr} {c c' : HConf}
    {i : HInput} (hst : c.stack = (f :: top) ++ .code j :: base)
    (hplain : (f :: top).all isPlainFrame = true) (hstream : c.state.streaming = true)
    (hs : machine.step c i = some c') (ho : c'.state.session.state = .kOpen) :
    c'.state.fileStream = c.state.fileStream ∧ c'.state.bodyStream = c.state.bodyStream ∧
      Parked base j c'.stack ∧ Silent (if Owns base c.stack then emit c i c' else []) := by
  rw [List.all_cons, Bool.and_eq_true] at hplain
  have htop : c.stack = (f :: top ++ [.code j]) ++ base := by
    rw [hst]
    simp
  have hlen : base.length < c.stack.length := by
    simp only [hst, List.length_append, List.length_cons]
    omega
  have hwaits : ∀ fs : List HFrame, fs.all isPlainFrame = true →
      Parked base j (fs ++ (top ++ [.code j]) ++ base) := fun fs hfs =>
    ⟨fs ++ top, by simp only [List.all_append, hfs, hplain.2, Bool.and_self], by simp⟩
  rcases Machine.step_above htop hlen hs with ⟨o, i, rest, rfl, htop', rfl⟩ |
    ⟨o, a, k, rest, rfl, htop', rfl⟩ | ⟨b, k, rest, rfl, htop', rfl⟩
  · obtain ⟨rfl, rfl⟩ := List.cons.inj htop'
    cases i with
    | session i =>
      have hp : Passes c.state (machine.exec o c.state (.session i)) := passes_session i
      refine ⟨hp.file, hp.body, hwaits _ (hp.frames ho), ?_⟩
      split
      · rw [emit_session hst]
        exact ⟨rfl, by simp⟩
      · exact silent_nil
    | _ => cases hplain.1
  · obtain ⟨rfl, rfl⟩ := List.cons.inj htop'
    have hp : Passes c.state (machine.call o c.state a) := passes_call hstream a
    rw [htop, owns_append, if_neg (by simp [isCode])]
    refine ⟨hp.file, hp.body, ?_, silent_nil⟩
    refine ⟨(machine.call o c.state a).2 ++ .callback k :: top, ?_, by simp⟩
    simp only [List.all_append, List.all_cons, hp.frames ho, hplain.2, isPlainFrame, Bool.and_self]
  · obtain ⟨rfl, rfl⟩ := List.cons.inj htop'
    rw [htop, owns_append, if_neg (by simp [isCode])]
    exact ⟨rfl, rfl, hwaits [] rfl, silent_nil⟩

/-! ## Body streams -/

/-- What a segment of the pump does: it queues a chunk and goes on behind the
session's code, or it is done. -/
structure TakesBody (s : HttpSession) (r : HSeg) : Prop where
  file : r.1.fileStream = s.fileStream
  unsent : s.bodyStream.unsent = acceptedBy s r.1 ++ r.1.bodyStream.unsent
  frames : r.2 = [] ∨ r.1.bodyStream.active = true ∧
    ∃ fs i, fs.all isPlainFrame = true ∧ r.2 = fs ++ [.code (.bodyChunkSent i)]

theorem takesBody_reset (h : s.bodyStream.body.length ≤ s.bodyStream.offset) :
    TakesBody s (s.resetBodyStream, []) := by
  have hacc : acceptedBy s s.resetBodyStream = [] := acceptedBy_same rfl
  refine ⟨rfl, ?_, .inl rfl⟩
  rw [hacc, BodyStream.unsent_eq_nil h]
  rfl

theorem takesBody_pumpBodyChunk (ha : s.bodyStream.active = true) (i : Nat)
    (ho : (s.pumpBodyChunk o i).1.session.state = .kOpen) : TakesBody s (s.pumpBodyChunk o i) := by
  simp only [pumpBodyChunk] at ho ⊢
  split at ho
  · next hc =>
    rw [if_pos hc]
    split at ho
    · exact absurd ho (disconnect_not_open _ o)
    · next hnew =>
      rw [if_neg hnew]
      refine ⟨rfl, ?_, .inr ⟨ha, _, i, ?_, rfl⟩⟩
      · have hacc := acceptedBy_sendBytes (s := s) rfl ho
        rw [BodyStream.unsent_advance ha]
        exact congrArg (· ++ _) hacc.symm
      · exact passes_sendBytes.frames ho
  · next hc =>
    rw [if_neg hc]
    split
    · next hdone => exact takesBody_reset hdone
    · exact ⟨rfl, by rw [acceptedBy_same rfl]; rfl, .inl rfl⟩

theorem takesBody_pumpBodyStream (ha : s.bodyStream.active = true)
    (ho : (s.pumpBodyStream o).1.session.state = .kOpen) : TakesBody s (s.pumpBodyStream o) := by
  unfold pumpBodyStream at ho ⊢
  rw [ha] at ho ⊢
  rw [if_neg (by decide)] at ho ⊢
  split at ho
  · next hdone =>
    rw [if_pos hdone]
    exact takesBody_reset hdone
  · next hdone =>
    rw [if_neg hdone]
    exact takesBody_pumpBodyChunk ha 0 ho

/-- The code of a body stream. -/
def isBodyFrame : HttpInstr → Bool
  | .bodyHeaderSent | .bodyChunkSent _ => true
  | _ => false

theorem takesBody_exec {i : HttpInstr} (hi : isBodyFrame i = true) (ht : Tidy s k)
    (ha : s.bodyStream.active = true) (ho : (s.exec o i).1.session.state = .kOpen) :
    TakesBody s (s.exec o i) := by
  have hresult := ht.result (stays_exec i ho)
  cases i with
  | bodyHeaderSent =>
    simp only [exec, bodyHeaderSent, hresult] at ho ⊢
    exact takesBody_pumpBodyStream ha ho
  | bodyChunkSent i =>
    simp only [exec, bodyChunkSent, hresult] at ho ⊢
    exact takesBody_pumpBodyChunk ha (i + 1) ho
  | _ => cases hi

/-- The header has been queued, and the body is the session's stream. -/
structure StreamsBody (base : List HFrame) (response : Bytes) (c : HConf) (out : List Output) :
    Prop where
  tidy : Tidy c.state c.stack
  isOpen : c.state.session.state = .kOpen → c.state.fileStream.active = false ∧
    response = queuedBytes out ++ c.state.bodyStream.unsent ∧ .cutShort ∉ out ∧
    (c.stack = base ∨ c.state.bodyStream.active = true ∧
      ∃ i, isBodyFrame i = true ∧ Parked base i c.stack)

theorem streamsBody_step {base : List HFrame} {response : Bytes} (c : HConf) (i : HInput)
    (c' : HConf) (out : List Output) (hlen : base.length < c.stack.length)
    (hs : machine.step c i = some c') (h : StreamsBody base response c out) :
    StreamsBody base response c' (out ++ if Owns base c.stack then emit c i c' else []) := by
  refine ⟨preserved_tidy.step hs h.tidy, fun ho => ?_⟩
  obtain ⟨hf, hr, hcut, hst | ⟨ha, j, hj, top, htop, hst⟩⟩ := h.isOpen (changes_stays.step hs ho)
  · rw [hst] at hlen
    exact absurd hlen (Nat.lt_irrefl _)
  · cases top with
    | cons f top =>
      have hstream : c.state.streaming = true := by rw [streaming, ha, Bool.or_true]
      obtain ⟨h1, h2, h3, h4⟩ := parked_step hst htop hstream hs ho
      rw [h1, h2, queuedBytes_append, h4.1, List.append_nil, List.mem_append, not_or]
      exact ⟨hf, hr, ⟨hcut, h4.2⟩, .inr ⟨ha, j, hj, h3⟩⟩
    | nil =>
      obtain ⟨howns, o, rfl, rfl⟩ := Machine.step_last hst hs
      have hk := takesBody_exec hj h.tidy ha ho
      have hno : cutsShort c.state o j = false := by
        cases j <;> first | rfl | cases hj
      rw [if_pos howns, emit_exec hst, hno, if_neg (by decide), List.nil_append,
        queuedBytes_append, queuedBytes_queued, List.append_assoc]
      refine ⟨(congrArg FileStream.active hk.file).trans hf, ?_, by simp [hcut], ?_⟩
      · rw [hr, hk.unsent]
        rfl
      · obtain hnil | ⟨ha', fs, n, hfs, hframes⟩ := hk.frames
        · exact .inl (congrArg (· ++ base) hnil)
        · exact .inr ⟨ha', .bodyChunkSent n, rfl, parked_of_frames hfs hframes⟩

/-! ## File streams -/

/-- What a segment of the pump does: it queues a chunk and goes on behind the
session's code, or it is done. A chunk that is cut short is the last. -/
structure TakesFile (s : HttpSession) (cut : Bool) (r : HSeg) : Prop where
  body : r.1.bodyStream = s.bodyStream
  unsent : cut = false → s.fileStream.unsent = acceptedBy s r.1 ++ r.1.fileStream.unsent
  less : cut = true → (acceptedBy s r.1).length < s.fileStream.unsent.length
  frames : r.2 = [] ∧ (cut = true → r.1.fileStream.active = false) ∨
    r.1.fileStream.active = true ∧
      ∃ fs i, fs.all isPlainFrame = true ∧ r.2 = fs ++ [.code (.fileChunkSent i cut)]

theorem takesFile_reset (h : s.fileStream.fd = []) :
    TakesFile s false (s.resetFileStream, []) := by
  have hacc : acceptedBy s s.resetFileStream = [] := acceptedBy_same rfl
  refine ⟨rfl, fun _ => ?_, nofun, .inl ⟨rfl, nofun⟩⟩
  rw [hacc, FileStream.unsent, h, ite_self]
  rfl

/-- `n` bytes have been read. -/
theorem takesFile_read {n i : Nat} (ha : s.fileStream.active = true)
    (hn : n ≤ s.fileStream.nextSize) (hnext : 0 < s.fileStream.nextSize)
    (hlen : s.fileStream.nextSize ≤ s.fileStream.fd.length) {r : HSeg}
    (hr : r = if (s.fileStream.fd.take n).isEmpty then (s.resetFileStream, [])
      else andThen
        (sendBytes { s with fileStream := s.fileStream.advance (s.fileStream.fd.take n).length } o
          (s.fileStream.fd.take n))
        [.code (.fileChunkSent i ((s.fileStream.fd.take n).length < s.fileStream.nextSize))])
    (ho : r.1.session.state = .kOpen) : TakesFile s (decide (n < s.fileStream.nextSize)) r := by
  have hn' : (s.fileStream.fd.take n).length = n := by
    rw [List.length_take]
    omega
  have hunsent : s.fileStream.unsent = s.fileStream.fd := by rw [FileStream.unsent, ha, if_pos rfl]
  rw [hn'] at hr
  split at hr
  · next he =>
    rw [List.isEmpty_iff.1 he] at hn'
    have hzero : n = 0 := hn'.symm
    subst hr hzero
    have hacc : acceptedBy s s.resetFileStream = [] := acceptedBy_same rfl
    refine ⟨rfl, fun hcut => ?_, fun _ => ?_, .inl ⟨rfl, fun _ => rfl⟩⟩
    · exact absurd hnext (of_decide_eq_false hcut)
    · rw [hacc, hunsent]
      exact Nat.lt_of_lt_of_le hnext hlen
  · subst hr
    have hacc : acceptedBy s (sendBytes { s with fileStream := s.fileStream.advance n } o
        (s.fileStream.fd.take n)).1 = s.fileStream.fd.take n := acceptedBy_sendBytes rfl ho
    refine ⟨rfl, fun _ => ?_, fun hcut => ?_, .inr ⟨ha, _, i, passes_sendBytes.frames ho, rfl⟩⟩
    · rw [FileStream.unsent_advance ha n]
      exact congrArg (· ++ _) hacc.symm
    · have hlt := of_decide_eq_true hcut
      show (acceptedBy s (sendBytes _ o _).1).length < _
      rw [hacc, hunsent, hn']
      omega

theorem takesFile_pumpFileChunk (ht : StreamsOk s.fileStream s.bodyStream)
    (ha : s.fileStream.active = true) (i : Nat)
    (ho : (s.pumpFileChunk o i).1.session.state = .kOpen) :
    TakesFile s (decide (0 < s.fileStream.remainingBytes) &&
      decide (i < s.fileStream.maxChunksPerWrite) && o.newChunk &&
        FileRead.cuts s.fileStream o.read) (s.pumpFileChunk o i) := by
  have hleft := ht.file_left
  have hchunk := ht.file_chunk ha
  simp only [pumpFileChunk] at ho ⊢
  split at ho
  · next hc =>
    rw [if_pos hc, decide_eq_true hc.1, decide_eq_true hc.2, Bool.and_self, Bool.true_and]
    have hnext : 0 < s.fileStream.nextSize := by
      rw [FileStream.nextSize]
      omega
    have hfd : s.fileStream.nextSize ≤ s.fileStream.fd.length := by
      rw [FileStream.nextSize]
      omega
    split at ho
    · exact absurd ho (disconnect_not_open _ o)
    · next hnew =>
      have hnew' : o.newChunk = true := by simpa using hnew
      rw [if_neg hnew, hnew', Bool.true_and]
      cases hread : o.read with
      | failed =>
        rw [hread] at ho
        exact absurd ho (disconnect_not_open _ o)
      | full =>
        rw [hread] at ho
        have hcut : FileRead.cuts s.fileStream .full =
            decide (s.fileStream.nextSize < s.fileStream.nextSize) :=
          (decide_eq_false (Nat.lt_irrefl _)).symm
        rw [hcut]
        exact takesFile_read ha (Nat.le_refl _) hnext hfd rfl ho
      | short n =>
        rw [hread] at ho
        have hcut : FileRead.cuts s.fileStream (.short n) =
            decide (min n s.fileStream.nextSize < s.fileStream.nextSize) := by
          refine decide_eq_decide.2 ?_
          omega
        rw [hcut]
        exact takesFile_read ha (Nat.min_le_right _ _) hnext hfd rfl ho
  · next hc =>
    rw [if_neg hc]
    have hno : (decide (0 < s.fileStream.remainingBytes) &&
        decide (i < s.fileStream.maxChunksPerWrite)) = false := by
      rw [Bool.and_comm, ← Bool.decide_and, decide_eq_false hc]
    rw [hno, Bool.false_and, Bool.false_and]
    split
    · next hzero => exact takesFile_reset (List.length_eq_zero_iff.1 (hleft ▸ hzero))
    · have hnever {P : Prop} (h : false = true) : P := absurd h Bool.false_ne_true
      exact ⟨rfl, fun _ => by rw [acceptedBy_same rfl]; rfl, hnever, .inl ⟨rfl, hnever⟩⟩

theorem takesFile_pumpFileStream (ht : StreamsOk s.fileStream s.bodyStream)
    (ha : s.fileStream.active = true) (ho : (s.pumpFileStream o).1.session.state = .kOpen) :
    TakesFile s (cutsShort s o .pumpFileStream) (s.pumpFileStream o) := by
  have hleft := ht.file_left
  unfold pumpFileStream at ho ⊢
  rw [cutsShort, readsFile, ha, Bool.true_and]
  rw [ha, if_neg (by decide)] at ho
  rw [if_neg (by decide)]
  split at ho
  · next hzero =>
    rw [if_pos hzero, decide_eq_false (by omega), Bool.false_and, Bool.false_and, Bool.false_and]
    exact takesFile_reset (List.length_eq_zero_iff.1 (hleft ▸ hzero))
  · next hzero =>
    rw [if_neg hzero]
    exact takesFile_pumpFileChunk ht ha 0 ho

/-- The code of a file stream that has not come to an early end. -/
def isFileFrame : HttpInstr → Bool
  | .fileHeaderSent | .fileChunkSent _ false => true
  | _ => false

theorem takesFile_exec {i : HttpInstr} (hi : isFileFrame i = true) (ht : Tidy s k)
    (ha : s.fileStream.active = true) (ho : (s.exec o i).1.session.state = .kOpen) :
    TakesFile s (cutsShort s o i) (s.exec o i) := by
  have hresult := ht.result (stays_exec i ho)
  cases i with
  | fileHeaderSent =>
    have hcut : cutsShort s o .fileHeaderSent = cutsShort s o .pumpFileStream := by
      simp only [cutsShort, readsFile, hresult, Option.isNone_none, Bool.true_and]
    simp only [exec, fileHeaderSent, hresult] at ho ⊢
    rw [hcut]
    exact takesFile_pumpFileStream ht.streams ha ho
  | fileChunkSent i short =>
    cases short with
    | false =>
      have hcut : cutsShort s o (.fileChunkSent i false) =
          (decide (0 < s.fileStream.remainingBytes) &&
            decide (i + 1 < s.fileStream.maxChunksPerWrite) && o.newChunk &&
              FileRead.cuts s.fileStream o.read) := by
        simp only [cutsShort, readsFile, hresult, Option.isNone_none, Bool.true_and]
      simp only [exec, fileChunkSent, hresult] at ho ⊢
      rw [hcut]
      exact takesFile_pumpFileChunk ht.streams ha (i + 1) ho
    | true => cases hi
  | _ => cases hi

/-- Where the call is while no read has ended early: it waits for its own last
code, or has returned. -/
def FileRuns (base : List HFrame) (c : HConf) : Prop :=
  c.stack = base ∨ c.state.fileStream.active = true ∧
    ∃ i, isFileFrame i = true ∧ Parked base i c.stack

/-- Where it is once one has. -/
def FileEnds (base : List HFrame) (c : HConf) : Prop :=
  c.stack = base ∧ c.state.fileStream.active = false ∨
    c.state.fileStream.active = true ∧ ∃ i, Parked base (.fileChunkSent i true) c.stack

/-- The header has been queued, and the file is the session's stream. -/
structure StreamsFile (base : List HFrame) (response : Bytes) (c : HConf) (out : List Output) :
    Prop where
  tidy : Tidy c.state c.stack
  isOpen : c.state.session.state = .kOpen → c.state.bodyStream.active = false ∧
    (.cutShort ∉ out ∧ response = queuedBytes out ++ c.state.fileStream.unsent ∧
        FileRuns base c ∨
      .cutShort ∈ out ∧ (queuedBytes out).length < response.length ∧ FileEnds base c)

theorem streaming_of_file (h : s.fileStream.active = true) : s.streaming = true := by
  rw [streaming, h, Bool.true_or]

/-- How far the call has come when the session is still open. -/
def FileGoes (base : List HFrame) (response : Bytes) (c : HConf) (out : List Output) : Prop :=
  .cutShort ∉ out ∧ response = queuedBytes out ++ c.state.fileStream.unsent ∧ FileRuns base c ∨
    .cutShort ∈ out ∧ (queuedBytes out).length < response.length ∧ FileEnds base c

/-- The pump's own code, as long as no read has ended early. -/
theorem fileGoes_runs {base : List HFrame} {response : Bytes} {c : HConf} {out : List Output}
    {j : HttpInstr} (hst : c.stack = .code j :: base) (hcut : .cutShort ∉ out)
    (hr : response = queuedBytes out ++ c.state.fileStream.unsent)
    (hk : TakesFile c.state (cutsShort c.state o j) (c.state.exec o j)) :
    FileGoes base response ⟨(c.state.exec o j).1, (c.state.exec o j).2 ++ base⟩
      (out ++ emit c (.exec o) ⟨(c.state.exec o j).1, (c.state.exec o j).2 ++ base⟩) := by
  rw [emit_exec hst]
  cases hc : cutsShort c.state o j with
  | false =>
    rw [hc] at hk
    rw [if_neg (by decide), List.nil_append]
    refine .inl ⟨by simp [hcut], ?_, ?_⟩
    · rw [queuedBytes_append, queuedBytes_queued, List.append_assoc, hr, hk.unsent rfl]
    · obtain ⟨hnil, -⟩ | ⟨ha', fs, n, hfs, hframes⟩ := hk.frames
      · exact .inl (congrArg (· ++ base) hnil)
      · exact .inr ⟨ha', .fileChunkSent n false, rfl, parked_of_frames hfs hframes⟩
  | true =>
    rw [hc] at hk
    rw [if_pos rfl]
    refine .inr ⟨by simp, ?_, ?_⟩
    · rw [queuedBytes_append, queuedBytes_append [.cutShort], queuedBytes_cutShort,
        queuedBytes_queued, List.nil_append, hr, List.length_append, List.length_append]
      exact Nat.add_lt_add_left (hk.less rfl) _
    · obtain ⟨hnil, hoff⟩ | ⟨ha', fs, n, hfs, hframes⟩ := hk.frames
      · exact .inl ⟨congrArg (· ++ base) hnil, hoff rfl⟩
      · exact .inr ⟨ha', n, parked_of_frames hfs hframes⟩

/-- Once a read has ended early the pump stops. -/
theorem fileGoes_ends {base : List HFrame} {response : Bytes} {c : HConf} {out : List Output}
    {n : Nat} (hst : c.stack = .code (.fileChunkSent n true) :: base) (hcut : .cutShort ∈ out)
    (hless : (queuedBytes out).length < response.length) :
    FileGoes base response
      ⟨(c.state.exec o (.fileChunkSent n true)).1, (c.state.exec o (.fileChunkSent n true)).2 ++ base⟩
      (out ++ emit c (.exec o) ⟨(c.state.exec o (.fileChunkSent n true)).1,
        (c.state.exec o (.fileChunkSent n true)).2 ++ base⟩) := by
  have hexec : c.state.exec o (.fileChunkSent n true) = (c.state.resetFileStream, []) := by
    show fileChunkSent _ _ _ _ = _
    rw [fileChunkSent, if_pos rfl, ite_self]
  have hno : cutsShort c.state o (.fileChunkSent n true) = false := rfl
  have hacc : acceptedBy c.state c.state.resetFileStream = [] := acceptedBy_same rfl
  rw [emit_exec hst, hexec, hno, if_neg (by decide)]
  refine .inr ⟨List.mem_append_left _ hcut, ?_, .inl ⟨rfl, rfl⟩⟩
  dsimp only
  rwa [queuedBytes_append, List.nil_append, queuedBytes_queued, hacc, List.append_nil]

theorem streamsFile_step {base : List HFrame} {response : Bytes} (c : HConf) (i : HInput)
    (c' : HConf) (out : List Output) (hlen : base.length < c.stack.length)
    (hs : machine.step c i = some c') (h : StreamsFile base response c out) :
    StreamsFile base response c' (out ++ if Owns base c.stack then emit c i c' else []) := by
  refine ⟨preserved_tidy.step hs h.tidy, fun ho => ?_⟩
  have hbase : c.stack ≠ base := fun hst => by
    rw [hst] at hlen
    exact absurd hlen (Nat.lt_irrefl _)
  obtain ⟨hb, ⟨hcut, hr, hst | ⟨ha, j, hj, top, htop, hst⟩⟩ |
    ⟨hcut, hless, ⟨hst, -⟩ | ⟨ha, n, top, htop, hst⟩⟩⟩ := h.isOpen (changes_stays.step hs ho)
  · exact absurd hst hbase
  · cases top with
    | cons f top =>
      obtain ⟨h1, h2, h3, h4⟩ := parked_step hst htop (streaming_of_file ha) hs ho
      rw [h2, h1, queuedBytes_append, h4.1, List.append_nil, List.mem_append, not_or]
      refine ⟨hb, .inl ⟨⟨hcut, h4.2⟩, hr, .inr ⟨?_, j, hj, h3⟩⟩⟩
      rw [h1, ha]
    | nil =>
      obtain ⟨howns, o, rfl, rfl⟩ := Machine.step_last hst hs
      have hk := takesFile_exec hj h.tidy ha ho
      rw [if_pos howns]
      exact ⟨(congrArg BodyStream.active hk.body).trans hb, fileGoes_runs hst hcut hr hk⟩
  · exact absurd hst hbase
  · cases top with
    | cons f top =>
      obtain ⟨h1, h2, h3, h4⟩ := parked_step hst htop (streaming_of_file ha) hs ho
      rw [h2, queuedBytes_append, h4.1, List.append_nil]
      refine ⟨hb, .inr ⟨List.mem_append_left _ hcut, hless, .inr ⟨?_, n, h3⟩⟩⟩
      rw [h1, ha]
    | nil =>
      obtain ⟨howns, o, rfl, rfl⟩ := Machine.step_last hst hs
      have hbody : (c.state.exec o (.fileChunkSent n true)).1.bodyStream = c.state.bodyStream := by
        show (fileChunkSent _ _ _ _).1.bodyStream = _
        rw [fileChunkSent, if_pos rfl, ite_self]
        rfl
      rw [if_pos howns]
      exact ⟨(congrArg BodyStream.active hbody).trans hb, fileGoes_ends hst hcut hless⟩

/-! ## The call -/

/-- The response is queued, or the rest of it is in the stream that the call has
started. -/
def Keeps (s t : HttpSession) (queued response : Bytes) : Prop :=
  queued = response ∨ s.streaming = false ∧ queued ++ t.unsent = response

theorem responseOf_ne_nil {a : HttpApi} {response : Bytes} (h : responseOf o a = some response) :
    response ≠ [] := by
  have hheaders : ∀ (r : HttpResponse) (n : Nat), r.serializeHeaders o.date n ≠ [] := by
    intro r n
    simp [HttpResponse.serializeHeaders, crlf]
  have hserialize : ∀ r : HttpResponse, r.serialize o.date ≠ [] := fun r =>
    List.append_ne_nil_of_left_ne_nil (hheaders r _) _
  cases a with
  | session a => cases h
  | send r =>
    obtain rfl := Option.some.inj h
    exact hserialize r
  | sendFile r file contentType chunkSize maxChunks =>
    cases file with
    | notFound | openFailed | notRegular =>
      obtain rfl := Option.some.inj h
      exact hserialize _
    | regular content =>
      simp only [responseOf] at h
      split at h
      · obtain rfl := Option.some.inj h
        exact List.append_ne_nil_of_left_ne_nil (hheaders _ _) _
      · cases h

/-- What holds inside a call that was made at `s` and has room for its response,
whichever way it goes. -/
def Kept (s : HttpSession) (base : List HFrame) (response : Bytes) (c : HConf)
    (out : List Output) : Prop :=
  Queued base response c out ∨
    s.streaming = false ∧ (StreamsBody base response c out ∨ StreamsFile base response c out)

theorem kept_step {base : List HFrame} {response : Bytes} (c : HConf) (i : HInput) (c' : HConf)
    (out : List Output) (hlen : base.length < c.stack.length) (hs : machine.step c i = some c')
    (h : Kept s base response c out) :
    Kept s base response c' (out ++ if Owns base c.stack then emit c i c' else []) := by
  obtain h | ⟨hidle, h | h⟩ := h
  · exact .inl (queued_step c i c' out hlen hs h)
  · exact .inr ⟨hidle, .inl (streamsBody_step c i c' out hlen hs h)⟩
  · exact .inr ⟨hidle, .inr (streamsFile_step c i c' out hlen hs h)⟩

theorem Starts.kept {response : Bytes} {r : HSeg} (h : Starts s o response true r)
    {base : List HFrame} (ht : Tidy r.1 (r.2 ++ base)) :
    Kept s base response ⟨r.1, r.2 ++ base⟩ [.queued (acceptedBy s r.1)] := by
  cases h with
  | whole =>
    refine .inl ⟨ht, fun ho => ?_⟩
    have hacc : acceptedBy s ((s.respond response).sendBytes o response).1 = response :=
      acceptedBy_sendBytes rfl ho
    refine ⟨by rw [queuedBytes_queued, hacc], by simp, _, rfl, ?_⟩
    rw [← List.append_nil (sendBytes _ o response).2]
    exact OwnPlain.append (passes_sendBytes.frames ho) trivial
  | @body header body chunkSize maxChunks hst hr =>
    refine .inr ⟨hst, .inl ⟨ht, fun ho => ?_⟩⟩
    rw [streaming, Bool.or_eq_false_iff] at hst
    have hacc : acceptedBy s (sendBytes { s.respond response with
        bodyStream := ⟨body, 0, chunkSize, maxChunks, true⟩ } o header).1 = header :=
      acceptedBy_sendBytes rfl ho
    refine ⟨hst.1, ?_, by simp, .inr ⟨rfl, .bodyHeaderSent, rfl, _, passes_sendBytes.frames ho, ?_⟩⟩
    · rw [queuedBytes_queued, hr]
      exact congrArg (· ++ body) hacc.symm
    · exact List.append_assoc _ _ _
  | @file header content chunkSize maxChunks hst hr hc hm =>
    refine .inr ⟨hst, .inr ⟨ht, fun ho => ?_⟩⟩
    rw [streaming, Bool.or_eq_false_iff] at hst
    have hacc : acceptedBy s (sendBytes { s.respond response with
        fileStream := ⟨content, content.length, chunkSize, maxChunks, true⟩ } o header).1 = header :=
      acceptedBy_sendBytes rfl ho
    refine ⟨hst.2, .inl ⟨by simp, ?_, .inr ⟨rfl, .fileHeaderSent, rfl, _,
      passes_sendBytes.frames ho, ?_⟩⟩⟩
    · rw [queuedBytes_queued, hr]
      exact congrArg (· ++ content) hacc.symm
    · exact List.append_assoc _ _ _

/-- When the call returns, all of the response has been kept unless a read ended
early. -/
theorem Kept.returned {base : List HFrame} {response : Bytes} {c : HConf} {out : List Output}
    (h : Kept s base response c out) (hst : c.stack = base)
    (ho : c.state.session.state = .kOpen) :
    Keeps s c.state (queuedBytes out) response ↔ .cutShort ∉ out := by
  obtain h | ⟨hidle, h | h⟩ := h
  · obtain ⟨hq, hcut, -⟩ := h.isOpen ho
    exact iff_of_true (.inl hq) hcut
  · obtain ⟨hf, hr, hcut, -⟩ := h.isOpen ho
    refine iff_of_true (.inr ⟨hidle, ?_⟩) hcut
    rw [unsent, FileStream.unsent, hf]
    exact hr.symm
  · obtain ⟨hb, ⟨hcut, hr, -⟩ | ⟨hcut, hless, hend⟩⟩ := h.isOpen ho
    · refine iff_of_true (.inr ⟨hidle, ?_⟩) hcut
      rw [unsent, BodyStream.unsent, hb, if_neg (by decide), List.append_nil]
      exact hr.symm
    · have hf : c.state.fileStream.active = false := by
        obtain ⟨-, hf⟩ | ⟨-, n, top, -, hst'⟩ := hend
        · exact hf
        · have hlen := congrArg List.length (hst.symm.trans hst')
          rw [List.length_append, List.length_cons] at hlen
          omega
      have hne : queuedBytes out ≠ response := fun he => by
        rw [he] at hless
        exact absurd hless (Nat.lt_irrefl _)
      refine iff_of_false ?_ (not_not_intro hcut)
      rw [Keeps, unsent_eq_nil (by rw [streaming, hf, hb]; rfl), List.append_nil]
      rintro (he | ⟨-, he⟩)
      · exact hne he
      · exact hne he

/-- A response marked as sent whose call leaves the session open has been kept,
all of it, exactly if there was room for it and no read of its file ended
early. -/
theorem response_kept_iff {cfg : Config} {c c₁ c₂ : HConf} (hreach : Reachable cfg c)
    {o : HttpOutcome} {a : HttpApi} {response : Bytes} (hmarks : responseOf o a = some response)
    (hcall : machine.step c (.call o a) = some c₁) {is : List HInput} {out : List Output}
    (hserves : Serves machine emit c.stack c₁ is out c₂)
    (hopen : c₂.state.session.state = .kOpen) :
    Keeps c.state c₂.state (acceptedBy c.state c₁.state ++ queuedBytes out) response ↔
      c.state.roomFor o a = true ∧ .cutShort ∉ out := by
  have ht₁ := preserved_tidy.step hcall (tidy_of_reachable hreach)
  have hstarts : Starts c.state o response (c.state.roomFor o a) (machine.call o c.state a) :=
    starts_call hmarks
  rw [(Machine.step_call hcall).2] at hserves ht₁ ⊢
  cases hroom : c.state.roomFor o a with
  | true =>
    rw [hroom] at hstarts
    have hkept := hserves.invariant kept_step (hstarts.kept ht₁)
    rw [← queuedBytes_queued (acceptedBy _ _), ← queuedBytes_append,
      hkept.returned hserves.returned hopen]
    simp
  | false =>
    refine iff_of_false ?_ (fun h => Bool.noConfusion h.1)
    rw [hroom] at hstarts
    generalize machine.call o c.state a = r at hstarts hserves
    cases hstarts
    obtain ⟨rfl, rfl⟩ := hserves.eq_of_returned rfl
    have hacc : acceptedBy c.state (c.state.respond response) = [] := acceptedBy_same rfl
    have hne := (responseOf_ne_nil hmarks).symm
    rintro (he | ⟨hidle, he⟩)
    · rw [hacc] at he
      exact hne he
    · have hnone : (c.state.respond response).unsent = [] := unsent_eq_nil hidle
      rw [hacc, hnone] at he
      exact hne he

theorem response_kept_whole :
    ∃ c c₁ c₂ out, Reachable {} c ∧ machine.step c (.call {} (.send {})) = some c₁ ∧
      Serves machine emit c.stack c₁ (List.replicate 3 (.exec {})) out c₂ ∧
      Keeps c.state c₂.state (acceptedBy c.state c₁.state ++ queuedBytes out)
        (HttpResponse.serialize {} []) := by
  have hserves : ∃ c c₁ c₂ out, machine.run (initConf {}) startedRun = some c ∧
      machine.step c (.call {} (.send {})) = some c₁ ∧
      Serves machine emit c.stack c₁ (List.replicate 3 (.exec {})) out c₂ ∧
      c₂.state.session.state = .kOpen ∧ c.state.hasRoom {} {} = true ∧ .cutShort ∉ out := by
    refine ⟨_, _, _, _, rfl, rfl, .step (by decide) rfl <| .step (by decide) rfl <|
      .step (by decide) rfl <| .done rfl, rfl, by decide +kernel, by decide +kernel⟩
  obtain ⟨c, c₁, c₂, out, hc, hcall, hserves, hopen, hroom, hcut⟩ := hserves
  have hreach : Reachable {} c := .of_run startedRun hc
  exact ⟨c, c₁, c₂, out, hreach, hcall, hserves,
    (response_kept_iff hreach rfl hcall hserves hopen).2 ⟨hroom, hcut⟩⟩

/-- A session whose file stream has more to send. -/
def fileRun : List HInput :=
  startedRun ++ [.call {} (.sendFile {} (.regular (List.replicate 4097 0)) [] 1 1)] ++
    List.replicate 6 (.exec {})

/-- Without a buffer for the header, or behind another stream, the call returns
with the session open and nothing of the response kept. -/
theorem response_lost :
    (∃ c c₁, Reachable {} c ∧ c.state.session.state = .kOpen ∧
      machine.step c (.call { newResponse := false, newHeader := false } (.send {})) = some c₁ ∧
      Serves machine emit c.stack c₁ [] [] c₁ ∧ c₁.state.session.state = .kOpen ∧
      ¬ Keeps c.state c₁.state (acceptedBy c.state c₁.state) (HttpResponse.serialize {} [])) ∧
    ∃ c c₁, Reachable {} c ∧ c.state.session.state = .kOpen ∧
      machine.step c (.call { newResponse := false } (.send { body := [1] })) = some c₁ ∧
      Serves machine emit c.stack c₁ [] [] c₁ ∧ c₁.state.session.state = .kOpen ∧
      ¬ Keeps c.state c₁.state (acceptedBy c.state c₁.state)
        (HttpResponse.serialize { body := [1] } []) := by
  constructor
  · refine ⟨_, _, .of_run startedRun rfl, rfl, rfl, .done rfl, rfl, ?_⟩
    rintro (he | ⟨-, he⟩)
    · exact absurd he (by decide +kernel)
    · exact absurd he (by decide +kernel)
  · have hrun : ((machine.run (initConf {}) fileRun).bind fun c =>
        (machine.step c (.call { newResponse := false } (.send { body := [1] }))).map fun c₁ =>
          (c.state.session.state, c.state.streaming, decide (c₁.stack = c.stack),
            c₁.state.session.state, acceptedBy c.state c₁.state)) =
        some (.kOpen, true, true, .kOpen, []) := by
      decide +kernel
    obtain ⟨c, hc, h⟩ := Option.bind_eq_some_iff.1 hrun
    obtain ⟨c₁, hcall, h⟩ := Option.map_eq_some_iff.1 h
    simp only [Prod.mk.injEq, decide_eq_true_eq] at h
    obtain ⟨hopen, hstream, hstack, hopen₁, hacc⟩ := h
    refine ⟨c, c₁, .of_run fileRun hc, hopen, hcall, .done hstack, hopen₁, ?_⟩
    rw [hacc]
    rintro (he | ⟨hidle, -⟩)
    · exact absurd he (by decide +kernel)
    · rw [hstream] at hidle
      cases hidle

end HttpSession

end IouringRuntime
