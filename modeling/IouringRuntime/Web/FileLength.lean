import IouringRuntime.Session.FlushTest
import IouringRuntime.Web.FileTransfer
import IouringRuntime.Web.Pipeline

/-!
# The length of a streamed file

`SendFile` announces the size that `fstat` gave. In an open session the stream
has queued what it has read, and what is missing to the announced size is its
`remaining_bytes` (`Counted.left`). A stream that ends has queued the whole file,
or has closed the session, with one exception: the end of the file before the
announced size ends the stream and says nothing to the session.
-/

namespace IouringRuntime

open Reentrant

namespace Session

/-- The session has been told to close, at once or after the flush. -/
def Asked (s : Session) : Prop := s.state ≠ .kOpen ∨ s.disconnectAfterFlush = true

variable {s : Session} {o : Outcome} {r : Seg}

theorem Asked.steady (h : s.Asked) (hi : r.1.intent = s.intent)
    (ho : r.1.state = .kOpen → s.state = .kOpen) : r.1.Asked := by
  rcases h with h | h
  · exact .inl fun hr => h (ho hr)
  · exact .inr ((congrArg Prod.fst hi).trans h)

theorem Asked.exec (h : s.Asked) (i : Instr) : (s.exec o i).1.Asked :=
  h.steady (steady_exec o s i).view (steady_exec o s i).isOpen

theorem Asked.sendOnOwner (h : s.Asked) (buf : SendBuffer) : (s.sendOnOwner o buf).1.Asked :=
  h.steady (steady_sendOnOwner s o buf).view (steady_sendOnOwner s o buf).isOpen

theorem Asked.called (h : s.Asked) (a : Api) : (s.called a).Asked := by
  cases a with
  | disconnectAfterFlush =>
    simp only [Session.called]
    split
    · exact .inr rfl
    · exact h
  | endAppIo =>
    simp only [Session.called, completeAppIo]
    split <;> exact h
  | _ => exact h

theorem Asked.call (h : s.Asked) (a : Api) : (s.call o a).1.Asked :=
  (h.called a).steady (steady_of_outline (outline_call s a)).view
    (steady_of_outline (outline_call s a)).isOpen

theorem Asked.event {e : OpId × Cqe} (h : s.Asked) (he : s.event o e = some r) : r.1.Asked := by
  cases completed_event he with
  | steady hs _ => exact h.steady hs.view hs.isOpen
  | drained hi ho _ => exact h.steady hi fun _ => ho

end Session

namespace FileSession

/-- All that was announced has been queued, as it was read. -/
def Whole (x : FileSession) : Prop := x.queued = x.bytesRead ∧ x.queued.length = x.fileSize

/-- A file stream that has ended has queued the whole file, or the session has
been told to close. -/
def WholeOrAsked (c : FileConf) : Prop :=
  c.state.fileStream.active = false → c.state.Whole ∨ c.state.session.Asked

/-- The loop of `PumpFileStream` comes to chunk `i` and meets the end of the file. -/
def readsNothing (x : FileSession) (o : FileOutcome) (i : Nat) : Bool :=
  decide (i < x.fileStream.maxChunksPerWrite ∧ 0 < x.fileStream.remainingBytes) && o.newChunk &&
    readChunk x.fileStream.nextSize o.reads [] == some []

/-- The instruction ends the stream because the file has ended. -/
def endsEarly (o : FileOutcome) (x : FileSession) : FileInstr → Bool
  | .onSocketDrained => x.fileStream.active && x.readsNothing o 0
  | .fileHeaderSent _ =>
    x.session.sendResult.isNone && x.fileStream.active && x.readsNothing o 0
  | .fileChunkSent _ i short =>
    x.session.sendResult.isNone && x.fileStream.active && 0 < x.fileStream.remainingBytes &&
      (short || x.readsNothing o (i + 1))
  | _ => false

/-- The file ends before its announced size only in a session told to close. -/
def EndsOnlyAsked (c : FileConf) : FileInput → Prop
  | .exec o => ∀ j rest, c.stack = .code j :: rest → c.state.endsEarly o j = true →
      c.state.session.Asked
  | _ => True

/-! ## The invariant -/

/-- Frames that only a session that is not open has. -/
def isClosedFrame : FileFrame → Bool
  | .code (.session (.returnSend (some _))) | .code .onDisconnected => true
  | _ => false

structure Counted (x : FileSession) (st : List FileFrame) : Prop where
  idle : x.fileStream.active = false → x.fileStream.remainingBytes = 0
  result : x.session.state = .kOpen → x.session.sendResult = none
  frames : x.session.state = .kOpen → st.filter isClosedFrame = []
  left : x.session.state = .kOpen → x.fileStream.active = true →
    x.queued = x.bytesRead ∧ x.queued.length + x.fileStream.remainingBytes = x.fileSize
  ended : x.fileStream.active = false → x.Whole ∨ x.session.Asked

variable {x : FileSession} {o : FileOutcome} {st : List FileFrame} {r : Seg}
  {caller : Option FileFd} {data : Bytes}

theorem filter_lift {fs : List SFrame} (h : fs.filter (isFailed .kOpen) = []) :
    (fs.map liftFrame).filter isClosedFrame = [] := by
  rw [List.filter_eq_nil_iff] at h ⊢
  intro f hf
  obtain ⟨g, hg, rfl⟩ := List.mem_map.1 hf
  have hg := h g hg
  cases g with
  | code i =>
    cases i with
    | returnSend result => cases result <;> simp_all [liftFrame, isClosedFrame, isFailed]
    | _ => simp [liftFrame, isClosedFrame]
  | callback c => cases c <;> simp_all [liftFrame, isClosedFrame, isFailed]

namespace Counted

theorem tail {f : FileFrame} (h : Counted x (f :: st)) : Counted x st := by
  refine { h with frames := fun ho => ?_ }
  have hk := h.frames ho
  rw [List.filter_cons] at hk
  split at hk
  · cases hk
  · exact hk

/-- A frame that does not come with a closed session. -/
theorem push {f : FileFrame} (h : Counted x st) (hf : isClosedFrame f = false) :
    Counted x (f :: st) :=
  { h with frames := fun ho => by rw [List.filter_cons, hf, h.frames ho]; rfl }

/-- A session that is not open has been told to close. -/
theorem of_closed (hi : x.fileStream.active = false → x.fileStream.remainingBytes = 0)
    (hc : x.session.state ≠ .kOpen) : Counted x st :=
  ⟨hi, fun ho => absurd ho hc, fun ho => absurd ho hc, fun ho => absurd ho hc,
    fun _ => .inr (.inl hc)⟩

theorem inSession (h : Counted x st)
    (hq : r.1.state = .kOpen → ResultQuiet x.session r) (ha : x.session.Asked → r.1.Asked) :
    Counted (x.inSession r).1 ((x.inSession r).2 ++ st) where
  idle := h.idle
  result ho := ((hq ho).view).trans (h.result ((hq ho).isOpen ho))
  frames ho := by
    have hf := (hq ho).frames
    rw [show r.1.state = .kOpen from ho] at hf
    rw [List.filter_append, h.frames ((hq ho).isOpen ho), List.append_nil]
    exact filter_lift hf
  left ho hact := h.left ((hq ho).isOpen ho) hact
  ended hact := (h.ended hact).imp_right ha

theorem sendBytes (h : Counted x st) (bytes : Bytes) :
    Counted (x.sendBytes o bytes).1 ((x.sendBytes o bytes).2 ++ st) :=
  h.inSession Session.sendOnOwner_open fun ha => ha.sendOnOwner _

/-- The stream ends. -/
theorem resetFileStream (h : Counted x st)
    (hend : x.fileStream.active = true → x.Whole ∨ x.session.Asked) :
    Counted x.resetFileStream st where
  idle _ := rfl
  result := h.result
  frames := h.frames
  left _ hact := by cases hact
  ended _ := by
    cases hact : x.fileStream.active with
    | false => exact h.ended hact
    | true => exact hend hact

theorem whole (h : Counted x st) (hr : x.fileStream.remainingBytes = 0) :
    x.fileStream.active = true → x.Whole ∨ x.session.Asked := by
  intro hact
  by_cases ho : x.session.state = .kOpen
  · obtain ⟨hq, hlen⟩ := h.left ho hact
    rw [hr, Nat.add_zero] at hlen
    exact .inl ⟨hq, hlen⟩
  · exact .inr (.inl ho)

theorem andThen {r : FileSeg} {k' : List FileFrame} (h : Counted r.1 (r.2 ++ (k' ++ st))) :
    Counted (FileSession.andThen r k').1 ((FileSession.andThen r k').2 ++ st) := by
  show Counted r.1 (r.2 ++ k' ++ st)
  rwa [List.append_assoc]

theorem failPump : Counted (x.failPump o caller).1 ((x.failPump o caller).2 ++ st) :=
  of_closed (fun _ => rfl) (Session.disconnectOnOwner_not_open _ _ _)

/-- A chunk that has been read is queued, if the session stays open. -/
theorem sendChunk (h : Counted x st) (hpos : 0 < x.fileStream.remainingBytes)
    (hle : data.length ≤ x.fileStream.remainingBytes) :
    Counted ((x.advance data).sendChunk o data).1
      (((x.advance data).sendChunk o data).2 ++ st) := by
  have hact : x.fileStream.active = true := by
    by_contra hn
    exact absurd (h.idle (Bool.eq_false_of_not_eq_true hn)) (Nat.ne_of_gt hpos)
  let s' := (x.session.sendOnOwner ((x.advance data).outcome o) ⟨data⟩).1
  by_cases ho : s'.state = .kOpen
  · obtain ⟨hopen, hface⟩ := Session.faceQuiet_sendOnOwner ho
    obtain ⟨hq, hlen⟩ := h.left hopen hact
    have hacc : s'.accepted = x.session.accepted ++ [⟨data⟩] := congrArg Prod.snd hface.view
    have hqueued : dataOf (s'.accepted.drop x.session.accepted.length) = data := by
      rw [hacc, List.drop_left]
      exact List.append_nil data
    refine inSession (x := { x.advance data with
      queued := x.queued ++ dataOf (s'.accepted.drop x.session.accepted.length) }) ?_
      Session.sendOnOwner_open fun ha => ha.sendOnOwner _
    refine ⟨fun hn => ?_, h.result, h.frames, fun _ _ => ⟨?_, ?_⟩, fun hn => ?_⟩
    · cases hact.symm.trans hn
    · show x.queued ++ dataOf _ = x.bytesRead ++ data
      rw [hqueued, hq]
    · show (x.queued ++ dataOf _).length + (x.fileStream.remainingBytes - data.length) = x.fileSize
      rw [hqueued, List.length_append]
      omega
    · cases hact.symm.trans hn
  · refine of_closed (fun hn => ?_) ho
    cases hact.symm.trans hn

theorem pumpFileChunk (h : Counted x st) (i : Nat)
    (hend : x.readsNothing o i = true → x.session.Asked) :
    Counted (x.pumpFileChunk o caller i).1 ((x.pumpFileChunk o caller i).2 ++ st) := by
  unfold FileSession.pumpFileChunk
  split
  · next hi =>
    split
    · exact failPump
    · next hnew =>
      split
      · exact failPump
      · next data hdata =>
        split
        · next he =>
          refine h.resetFileStream fun _ => .inr (hend ?_)
          rw [List.isEmpty_iff.1 he] at hdata
          simp only [readsNothing, hi, hdata]
          simpa using hnew
        · refine andThen (sendChunk (push h rfl) hi.2 ?_)
          have hlen := length_readChunk o.reads (Nat.zero_le _) hdata
          exact Nat.le_trans hlen (Nat.min_le_left _ _)
  · split
    · next hr => exact h.resetFileStream (h.whole hr)
    · exact h

theorem pumpFileStream (h : Counted x st)
    (hend : x.fileStream.active = true → x.readsNothing o 0 = true → x.session.Asked) :
    Counted (x.pumpFileStream o caller).1 ((x.pumpFileStream o caller).2 ++ st) := by
  unfold FileSession.pumpFileStream
  split
  · exact h
  · next hact =>
    split
    · next hr => exact h.resetFileStream (h.whole hr)
    · exact h.pumpFileChunk 0 (hend (by simpa using hact))

/-- In an open session the last `Send` succeeded. -/
theorem asked_of_failed (h : Counted x st) (hs : x.session.sendResult.isSome = true) :
    x.session.Asked := by
  refine .inl fun ho => ?_
  rw [h.result ho] at hs
  cases hs

theorem sendFailed (h : Counted x st) (hs : x.session.sendResult.isSome = true) :
    Counted (x.sendFailed caller) st := by
  have hr := h.resetFileStream fun _ => .inr (h.asked_of_failed hs)
  cases caller with
  | none => exact hr
  | some fd => exact { hr with }

theorem takeFd (h : Counted x st) (fd : FileFd) (n chunkSize maxChunks : Nat) :
    Counted (x.takeFd fd n chunkSize maxChunks) st where
  idle hact := by cases hact
  result := h.result
  frames := h.frames
  left _ _ := ⟨rfl, Nat.zero_add n⟩
  ended hact := by cases hact

theorem sendFile (h : Counted x st) (r : HttpResponse) (file : FileStat) (contentType : Bytes)
    (chunkSize maxChunks : Nat) :
    Counted (x.sendFile o r file contentType chunkSize maxChunks).1
      ((x.sendFile o r file contentType chunkSize maxChunks).2 ++ st) := by
  have hopen : Counted x.openFd st := { h with }
  have hclose : Counted (x.openFd.closeFd x.nextFd) st := { h with }
  unfold FileSession.sendFile
  cases file with
  | notFound | openFailed => exact h.push rfl
  | notRegular => exact hclose.push rfl
  | regular size =>
    dsimp only
    split
    · exact hclose
    · split
      · exact hclose.sendBytes _
      · unfold startFileStream
        split
        · exact hclose
        · exact andThen (sendBytes ((hopen.takeFd _ _ _ _).push rfl) _)

theorem exec {j : FileInstr} (h : Counted x (.code j :: st))
    (hend : x.endsEarly o j = true → x.session.Asked) :
    Counted (x.exec o j).1 ((x.exec o j).2 ++ st) := by
  have ht := h.tail
  cases j with
  | session i =>
    cases hi : isReturnFrame (.code i) with
    | false =>
      refine ht.inSession (fun _ => ?_) fun ha => ha.exec i
      exact (Session.faceQuiet_exec _ _ hi).result
    | true =>
      cases i with
      | returnSend result =>
        refine ⟨ht.idle, fun ho => ?_, ht.frames, ht.left, ht.ended⟩
        have hk := h.frames ho
        cases result with
        | none => rfl
        | some e => cases hk
      | _ => cases hi
  | onSocketDrained =>
    refine andThen ((ht.push rfl).pumpFileStream fun hact hn => hend ?_)
    simp only [endsEarly, hact, hn, Bool.and_self]
  | onDisconnected =>
    have hclosed : x.session.state ≠ .kOpen := fun ho => by cases h.frames ho
    exact (ht.resetFileStream fun _ => .inr (.inl hclosed)).push rfl
  | fileHeaderSent fd =>
    simp only [FileSession.exec, fileHeaderSent]
    split
    · next hs => exact ht.sendFailed hs
    · next hs =>
      refine ht.pumpFileStream fun hact hn => hend ?_
      have hnone : x.session.sendResult.isNone = true := by simpa using hs
      simp only [endsEarly, hnone, hact, hn, Bool.and_self]
  | fileChunkSent caller i short =>
    simp only [FileSession.exec, fileChunkSent]
    split
    · next hs => exact ht.sendFailed hs
    · next hs =>
      have hnone : x.session.sendResult.isNone = true := by simpa using hs
      split
      · next hshort =>
        refine ht.resetFileStream fun hact => ?_
        rcases Nat.eq_zero_or_pos x.fileStream.remainingBytes with hr | hr
        · exact ht.whole hr hact
        · refine .inr (hend ?_)
          simp only [endsEarly, hnone, hact, hr, hshort, decide_true, Bool.and_self, Bool.true_or]
      · refine ht.pumpFileChunk _ fun hn => hend ?_
        have hr : 0 < x.fileStream.remainingBytes := by
          simp only [readsNothing, Bool.and_eq_true, decide_eq_true_eq] at hn
          exact hn.1.1.2
        have hact : x.fileStream.active = true := by
          by_contra ha
          exact absurd (ht.idle (Bool.eq_false_of_not_eq_true ha)) (Nat.ne_of_gt hr)
        simp only [endsEarly, hnone, hact, hr, hn, decide_true, Bool.and_self, Bool.or_true]
  | closeFd fd => exact { ht with }

end Counted

theorem counted_step {c c' : FileConf} {i : FileInput} (h : Counted c.state c.stack)
    (hs : machine.step c i = some c') (hQ : EndsOnlyAsked c i) : Counted c'.state c'.stack := by
  rcases Machine.step_cases hs with ⟨o, j, rest, rfl, hst, rfl⟩ | ⟨o, a, rfl, -, rfl⟩ |
    ⟨b, k, rest, rfl, hst, rfl⟩ | ⟨o, e, r, rfl, hst, hr, rfl⟩
  · rw [hst] at h
    exact h.exec (hQ j rest hst)
  · cases a with
    | session a =>
      refine h.inSession (fun ho => ?_) fun ha => ha.call a
      by_cases hsend : a.isSend = true
      · cases a with
        | send buf => exact Session.sendOnOwner_open ho
        | _ => cases hsend
      · exact (Session.faceQuiet_call _ _ (Bool.eq_false_of_not_eq_true hsend)).result
    | sendFile r file contentType chunkSize maxChunks => exact h.sendFile _ _ _ _ _
  · rw [hst] at h
    have ht := h.tail
    cases k with
    | session k =>
      cases k with
      | onTimeoutTick now => exact { ht with }
      | _ => exact ht
    | responseSend r => exact ht
  · obtain ⟨q, hq, rfl⟩ := Option.map_eq_some_iff.1 hr
    rw [hst] at h
    have := h.inSession (fun _ => (Session.faceQuiet_event hq).result) fun ha => ha.event hq
    rwa [List.append_nil] at this

/-! ## Early ends -/

theorem pumpFileChunk_nothing {i : Nat} (h : x.readsNothing o i = true) :
    x.pumpFileChunk o caller i = (x.resetFileStream, []) := by
  simp only [readsNothing, Bool.and_eq_true, decide_eq_true_eq, beq_iff_eq] at h
  obtain ⟨⟨hi, hnew⟩, hread⟩ := h
  simp only [pumpFileChunk, if_pos hi, hnew, hread]
  rfl

theorem pumpFileStream_nothing (ha : x.fileStream.active = true)
    (h : x.readsNothing o 0 = true) : x.pumpFileStream o caller = (x.resetFileStream, []) := by
  have hr : x.fileStream.remainingBytes ≠ 0 := by
    simp only [readsNothing, Bool.and_eq_true, decide_eq_true_eq] at h
    exact Nat.ne_of_gt h.1.1.2
  rw [pumpFileStream, if_neg (by simp [ha]), if_neg hr, pumpFileChunk_nothing h]

/-- An early end resets the stream with bytes still to come. -/
theorem exec_endsEarly {j : FileInstr} (h : x.endsEarly o j = true) :
    (x.exec o j).1 = x.resetFileStream ∧ x.fileStream.active = true ∧
      0 < x.fileStream.remainingBytes := by
  have hpos {i : Nat} (hn : x.readsNothing o i = true) : 0 < x.fileStream.remainingBytes := by
    simp only [readsNothing, Bool.and_eq_true, decide_eq_true_eq] at hn
    exact hn.1.1.2
  have hsent (hn : x.session.sendResult.isNone = true) :
      ¬ x.session.sendResult.isSome = true := by
    rw [Option.isNone_iff_eq_none.1 hn]
    exact Bool.false_ne_true
  cases j with
  | onSocketDrained =>
    simp only [endsEarly, Bool.and_eq_true] at h
    refine ⟨?_, h.1, hpos h.2⟩
    simp only [exec, pumpFileStream_nothing h.1 h.2]
    rfl
  | fileHeaderSent fd =>
    simp only [endsEarly, Bool.and_eq_true] at h
    refine ⟨?_, h.1.2, hpos h.2⟩
    simp only [exec, fileHeaderSent, if_neg (hsent h.1.1), pumpFileStream_nothing h.1.2 h.2]
  | fileChunkSent caller i short =>
    simp only [endsEarly, Bool.and_eq_true, Bool.or_eq_true, decide_eq_true_eq] at h
    obtain ⟨⟨⟨hn, hact⟩, hr⟩, hshort⟩ := h
    refine ⟨?_, hact, hr⟩
    simp only [exec, fileChunkSent, if_neg (hsent hn)]
    split
    · rfl
    · next hs => rw [pumpFileChunk_nothing (hshort.resolve_left hs)]
  | _ => cases h

theorem ends_unasked {c c' : FileConf} {i : FileInput} (h : Counted c.state c.stack)
    (hs : machine.step c i = some c') (hQ : ¬ EndsOnlyAsked c i) : ¬ WholeOrAsked c' := by
  cases i with
  | exec o =>
    simp only [EndsOnlyAsked, Classical.not_forall] at hQ
    obtain ⟨j, rest, hst, hj, hask⟩ := hQ
    simp only [Machine.step, hst, Option.some.injEq] at hs
    subst hs
    obtain ⟨heq, hact, hr⟩ := exec_endsEarly hj
    have ho : c.state.session.state = .kOpen := by
      by_contra hn
      exact hask (.inl hn)
    obtain ⟨-, hlen⟩ := h.left ho hact
    intro hw
    simp only [WholeOrAsked, machine, heq] at hw
    rcases hw rfl with hwhole | hasked
    · have hlen' : c.state.queued.length = c.state.fileSize := hwhole.2
      omega
    · exact hask hasked
  | _ => exact absurd trivial hQ

/-- **A streamed file is as long as announced, or the session is told to close.**
Over every run, whatever `read` returns and whatever user code does, exactly if
the file ends before its announced size only in a session that has been told to
close. -/
theorem streamed_length_iff (cfg : Config) (is : List FileInput) :
    machine.Visits WholeOrAsked (initConf cfg) is ↔
      machine.Steps EndsOnlyAsked (initConf cfg) is := by
  refine Trace.visits_iff_steps (J := fun c : FileConf => Counted c.state c.stack)
    (fun _ h => h.ended) (fun _ _ _ => counted_step) (fun _ _ _ => ends_unasked) is ?_
  exact ⟨fun _ => rfl, fun _ => rfl, fun _ => rfl, fun _ _ => ⟨rfl, rfl⟩, fun _ => .inl ⟨rfl, rfl⟩⟩

/-- A file of three bytes has shrunk to one by the time it is read. -/
def shrunkRun : List FileInput :=
  [.call {} (.session .start), .ret false, .exec {},
    .call {} (.sendFile {} (.regular 3) [] 0 0), .exec {}, .exec {}, .exec {},
    .exec { reads := [.data [7]] }, .exec {}, .exec {}]

/-- One byte of three is queued, and the session stays open for the next
response. -/
theorem streamed_short :
    ∃ c, machine.run (initConf {}) shrunkRun = some c ∧ c.stack = [] ∧
      c.state.fileStream.active = false ∧ c.state.fileSize = 3 ∧ c.state.queued = [7] ∧
      c.state.session.state = .kOpen ∧ c.state.session.disconnectAfterFlush = false := by
  refine ⟨_, rfl, ?_⟩
  decide +kernel

end FileSession

end IouringRuntime
