import IouringRuntime.Session.Outline
import IouringRuntime.Web.FileTransfer

/-!
# The descriptors of `SendFile`

Each descriptor is closed or held by the file stream, once (`Custody.balance`),
as long as `StartFileStream` does not return false for one that the stream has
taken: it has been closed then, by `ResetFileStream`, and `SendFile` closes it
again. `OnDisconnected` resets the stream, and in `kClosed` a stream lives only
up to there, or up to the failed `Send` of its header.
-/

namespace IouringRuntime

open Reentrant

namespace FileSession

/-- No descriptor is closed twice, and once the session is `kClosed` user code
finds every one closed, in `OnDisconnected` as after the release that follows. -/
structure ClosedOnce (c : FileConf) : Prop where
  once : c.state.closes.Nodup
  closed : c.state.session.state = .kClosed → UserRuns c.stack = true →
    ∀ fd < c.state.nextFd, fd ∈ c.state.closes

/-- The instruction closes the descriptor of a `SendFile` whose stream had taken
it. -/
def failsTaken (x : FileSession) : FileInstr → Bool
  | .fileHeaderSent _ | .fileChunkSent (some _) _ _ => x.session.sendResult.isSome
  | .closeFd _ => true
  | _ => false

/-- A stream that has taken a descriptor does not fail before `SendFile` returns. -/
def KeepsTaken (c : FileConf) : FileInput → Prop
  | .exec _ => ∀ j rest, c.stack = .code j :: rest → c.state.failsTaken j = false
  | _ => True

/-! ## The invariant -/

/-- The descriptor that `SendFile` may still close behind the frame. -/
def callerOf : FileFrame → Option FileFd
  | .code (.fileHeaderSent fd) | .code (.closeFd fd) => some fd
  | .code (.fileChunkSent caller _ _) => caller
  | _ => none

structure Custody (x : FileSession) (st : List FileFrame) : Prop where
  idle : x.fileStream.active = false → x.fileStream.fd = none ∧ x.fileStream.remainingBytes = 0
  balance : (x.closes ++ x.fileStream.fd.toList).Perm (List.range x.nextFd)
  callers : ∀ f ∈ st, ∀ fd, callerOf f = some fd → fd < x.nextFd
  given : ∀ fd, .code (.closeFd fd) ∈ st → x.fileStream.fd ≠ some fd

/-- In `kClosed` the stream is about to be reset. -/
def Ending (x : FileSession) (st : List FileFrame) : Prop :=
  x.session.state = .kClosed → x.fileStream.active = true →
    st.head? = some (.code .onDisconnected) ∨
      (∃ fd, st.head? = some (.code (.fileHeaderSent fd))) ∧ x.session.sendResult.isSome = true

/-- No stream in `kClosed`. -/
def Quits (x : FileSession) : Prop := x.session.state = .kClosed → x.fileStream.active = false

variable {x : FileSession} {o : FileOutcome} {st k : List FileFrame} {r : Seg}
  {caller : Option FileFd}

theorem Quits.ending (h : Quits x) : Ending x st := by
  intro hc ha
  rw [h hc] at ha
  cases ha

theorem Ending.of_idle (h : x.fileStream.active = false) : Ending x st :=
  Quits.ending fun _ => h

/-- The stream does not live under any other frame. -/
theorem Ending.quits {f : FileFrame} (h : Ending x (f :: st)) (hd : f ≠ .code .onDisconnected)
    (hs : ∀ fd, f = .code (.fileHeaderSent fd) → x.session.sendResult.isSome = false) :
    Quits x := by
  intro hc
  by_contra ha
  rcases h hc (Bool.eq_true_of_not_eq_false ha) with hf | ⟨⟨fd, hf⟩, hsome⟩
  · exact hd (Option.some.inj hf)
  · rw [hs fd (Option.some.inj hf)] at hsome
    cases hsome

theorem Ending.inSession (h : Quits x) (hr : Announces x.session r) :
    Ending (x.inSession r).1 ((x.inSession r).2 ++ k) := by
  intro hc ha
  rcases hr hc with hs | hhead
  · cases ha.symm.trans (h hs)
  · exact .inl (head_lift x k hhead)

namespace Custody

theorem tail {f : FileFrame} (h : Custody x (f :: st)) : Custody x st where
  idle := h.idle
  balance := h.balance
  callers g hg := h.callers g (List.mem_cons_of_mem _ hg)
  given fd hfd := h.given fd (List.mem_cons_of_mem _ hfd)

/-- Frames whose descriptors have been opened, none of them a `close`. -/
theorem push (h : Custody x st) (hk : ∀ f ∈ k, ∀ fd, callerOf f = some fd → fd < x.nextFd)
    (hc : ∀ fd, .code (.closeFd fd) ∉ k) : Custody x (k ++ st) where
  idle := h.idle
  balance := h.balance
  callers f hf := (List.mem_append.1 hf).elim (hk f) (h.callers f)
  given fd hfd := (List.mem_append.1 hfd).elim (fun hm => absurd hm (hc fd)) (h.given fd)

theorem cons {f : FileFrame} (h : Custody x st) (hf : ∀ fd, callerOf f = some fd → fd < x.nextFd)
    (hc : ∀ fd, f ≠ .code (.closeFd fd)) : Custody x (f :: st) := by
  refine h.push (k := [f]) ?_ ?_
  · intro g hg
    rw [List.mem_singleton.1 hg]
    exact hf
  · intro fd hg
    exact hc fd (List.mem_singleton.1 hg).symm

theorem callback (h : Custody x st) (k : FileCallback) : Custody x (.callback k :: st) :=
  h.cons (fun _ hfd => by cases hfd) fun _ hf => by cases hf

theorem mem_lift {f : FileFrame} (hf : f ∈ (x.inSession r).2) :
    callerOf f = none ∧ ∀ fd, f ≠ .code (.closeFd fd) := by
  obtain ⟨g, -, rfl⟩ := List.mem_map.1 hf
  cases g with
  | code i => exact ⟨rfl, fun _ h => by cases h⟩
  | callback c => cases c <;> exact ⟨rfl, fun _ h => by cases h⟩

theorem inSession (h : Custody x st) : Custody (x.inSession r).1 ((x.inSession r).2 ++ st) := by
  refine push { h with } ?_ ?_
  · intro f hf fd hfd
    rw [(mem_lift hf).1] at hfd
    cases hfd
  · intro fd hf
    exact (mem_lift hf).2 fd rfl

theorem resetFileStream (h : Custody x st) : Custody x.resetFileStream st where
  idle _ := ⟨rfl, rfl⟩
  balance := by
    show ((x.closes ++ x.fileStream.fd.toList) ++ []).Perm _
    rw [List.append_nil]
    exact h.balance
  callers := h.callers
  given fd hfd hnone := by cases hnone

/-- After a reset every descriptor has been closed. -/
theorem closed (h : Custody x st) {fd : FileFd} (hfd : fd < x.nextFd) :
    fd ∈ x.resetFileStream.closes :=
  h.balance.mem_iff.2 (List.mem_range.2 hfd)

theorem nodup (h : Custody x st) : x.closes.Nodup :=
  (List.nodup_append.1 (h.balance.nodup_iff.2 List.nodup_range)).1

/-- A descriptor that is opened and closed again at once. -/
theorem openClose (h : Custody x st) : Custody (x.openFd.closeFd x.nextFd) st where
  idle := h.idle
  balance := by
    show ((x.closes ++ [x.nextFd]) ++ x.fileStream.fd.toList).Perm (List.range (x.nextFd + 1))
    rw [List.range_succ, List.append_assoc]
    refine (List.perm_append_comm.append_left _).trans ?_
    rw [← List.append_assoc]
    exact h.balance.append_right _
  callers f hf fd hfd := Nat.lt_succ_of_lt (h.callers f hf fd hfd)
  given := h.given

/-- The stream takes the descriptor that has just been opened. -/
theorem takeFd (h : Custody x st) (n chunkSize maxChunks : Nat) :
    Custody (x.openFd.takeFd x.nextFd n chunkSize maxChunks) st where
  idle hact := by cases hact
  balance := by
    show ((x.closes ++ x.fileStream.fd.toList) ++ [x.nextFd]).Perm (List.range (x.nextFd + 1))
    rw [List.range_succ]
    exact h.balance.append_right _
  callers f hf fd hfd := Nat.lt_succ_of_lt (h.callers f hf fd hfd)
  given fd hfd heq := by
    obtain rfl := Option.some.inj heq
    exact Nat.lt_irrefl _ (h.callers _ hfd _ rfl)

theorem andThen {r : FileSeg} {k' : List FileFrame} (h : Custody r.1 (r.2 ++ (k' ++ st))) :
    Custody (FileSession.andThen r k').1 ((FileSession.andThen r k').2 ++ st) := by
  show Custody r.1 (r.2 ++ k' ++ st)
  rwa [List.append_assoc]

theorem advance (h : Custody x st) (data : Bytes) : Custody (x.advance data) st where
  idle ha := ⟨(h.idle ha).1, by
    show x.fileStream.remainingBytes - data.length = 0
    rw [(h.idle ha).2, Nat.zero_sub]⟩
  balance := h.balance
  callers := h.callers
  given := h.given

/-- A stream that is given up leaves its descriptor to the `close` of `SendFile`. -/
theorem failPump (h : Custody x st) (hcaller : ∀ fd, caller = some fd → fd < x.nextFd) :
    Custody (x.failPump o caller).1 ((x.failPump o caller).2 ++ st) := by
  refine andThen (inSession ?_)
  have hr := h.resetFileStream
  refine { hr with callers := fun f hf fd hfd => ?_, given := fun fd _ hnone => by cases hnone }
  rcases List.mem_append.1 hf with hf | hf
  · obtain ⟨fd', hfd', rfl⟩ := List.mem_map.1 hf
    obtain rfl := Option.some.inj hfd
    exact hcaller _ (Option.mem_toList.1 hfd')
  · exact h.callers f hf fd hfd

theorem pumpFileChunk (h : Custody x st) (hcaller : ∀ fd, caller = some fd → fd < x.nextFd)
    (i : Nat) : Custody (x.pumpFileChunk o caller i).1 ((x.pumpFileChunk o caller i).2 ++ st) := by
  unfold FileSession.pumpFileChunk
  split
  · split
    · exact h.failPump hcaller
    · split
      · exact h.failPump hcaller
      · split
        · exact h.resetFileStream
        · refine andThen (inSession (cons { h.advance _ with } hcaller ?_))
          exact fun fd hf => by cases hf
  · split
    · exact h.resetFileStream
    · exact h

theorem pumpFileStream (h : Custody x st) (hcaller : ∀ fd, caller = some fd → fd < x.nextFd) :
    Custody (x.pumpFileStream o caller).1 ((x.pumpFileStream o caller).2 ++ st) := by
  unfold FileSession.pumpFileStream
  split
  · exact h
  · split
    · exact h.resetFileStream
    · exact h.pumpFileChunk hcaller 0

theorem startFileStream (h : Custody x st) (header : Bytes) (n chunkSize maxChunks : Nat) :
    Custody (x.openFd.startFileStream o header x.nextFd n chunkSize maxChunks).1
      ((x.openFd.startFileStream o header x.nextFd n chunkSize maxChunks).2 ++ st) := by
  unfold FileSession.startFileStream
  split
  · exact h.openClose
  · refine andThen (inSession ((h.takeFd _ _ _).cons ?_ fun fd hf => by cases hf))
    intro fd hfd
    obtain rfl := Option.some.inj hfd
    exact Nat.lt_succ_self _

end Custody

/-! ## The stream in a closed session -/

theorem ending_pumpFileChunk (h : Quits x) (i : Nat) :
    Ending (x.pumpFileChunk o caller i).1 ((x.pumpFileChunk o caller i).2 ++ st) := by
  unfold pumpFileChunk
  split
  · split
    · exact .of_idle rfl
    · split
      · exact .of_idle rfl
      · split
        · exact .of_idle rfl
        · next data _ _ =>
          show Ending _ ((sendChunk _ o data).2 ++ _ ++ st)
          rw [List.append_assoc]
          exact Ending.inSession h (Session.outline_sendOnOwner _ _).announces
  · split
    · exact .of_idle rfl
    · exact h.ending

theorem ending_pumpFileStream (h : Quits x) :
    Ending (x.pumpFileStream o caller).1 ((x.pumpFileStream o caller).2 ++ st) := by
  unfold pumpFileStream
  split
  · exact h.ending
  · split
    · exact .of_idle rfl
    · exact ending_pumpFileChunk h 0

/-- Outside `kOpen` the `Send` of the header fails at once. -/
theorem ending_startFileStream (h : Quits x) (header : Bytes) (fd : FileFd)
    (n chunkSize maxChunks : Nat) :
    Ending (x.startFileStream o header fd n chunkSize maxChunks).1
      ((x.startFileStream o header fd n chunkSize maxChunks).2 ++ st) := by
  unfold startFileStream
  split
  · exact Quits.ending h
  · intro hc _
    let y := x.takeFd fd n chunkSize maxChunks
    by_cases ho : x.session.canUseOnOwner = true
    · left
      have hann := (Session.outline_sendOnOwner (o := y.outcome o) x.session ⟨header⟩).announces hc
      rcases hann with hs | hhead
      · rw [Session.canUseOnOwner_iff.1 ho] at hs
        cases hs
      · show ((y.sendBytes o header).2 ++ _ ++ st).head? = _
        rw [List.append_assoc]
        exact head_lift y _ hhead
    · right
      have hsend : x.session.sendOnOwner (y.outcome o) ⟨header⟩ =
          ({ x.session with sendResult := some .kDisconnected }, []) := by
        rw [Session.sendOnOwner, if_pos (by simpa using ho)]
      simp only [andThen, sendBytes, FileSession.inSession]
      rw [show (y.session.sendOnOwner (y.outcome o) ⟨header⟩) = _ from hsend]
      exact ⟨⟨fd, rfl⟩, rfl⟩

theorem ending_sendFile (h : Quits x) (r : HttpResponse) (file : FileStat) (contentType : Bytes)
    (chunkSize maxChunks : Nat) :
    Ending (x.sendFile o r file contentType chunkSize maxChunks).1
      ((x.sendFile o r file contentType chunkSize maxChunks).2 ++ st) := by
  unfold sendFile
  cases file with
  | notFound | openFailed | notRegular => exact Quits.ending h
  | regular size =>
    dsimp only
    split
    · exact Quits.ending h
    · split
      · refine Ending.inSession (x := x.openFd.closeFd x.nextFd) h ?_
        exact (Session.outline_sendOnOwner _ _).announces
      · exact ending_startFileStream (x := x.openFd) h _ _ _ _ _

/-! ## Runs -/

theorem Custody.sendFile (h : Custody x st) (r : HttpResponse) (file : FileStat)
    (contentType : Bytes) (chunkSize maxChunks : Nat) :
    Custody (x.sendFile o r file contentType chunkSize maxChunks).1
      ((x.sendFile o r file contentType chunkSize maxChunks).2 ++ st) := by
  unfold FileSession.sendFile
  cases file with
  | notFound | openFailed => exact h.callback _
  | notRegular => exact h.openClose.callback _
  | regular size =>
    dsimp only
    split
    · exact h.openClose
    · split
      · exact h.openClose.inSession
      · exact h.startFileStream _ _ _ _

structure Sound (x : FileSession) (st : List FileFrame) : Prop extends Custody x st where
  ending : Ending x st

theorem Sound.exec {j : FileInstr} (h : Sound x (.code j :: st)) (hj : x.failsTaken j = false) :
    Sound (x.exec o j).1 ((x.exec o j).2 ++ st) := by
  have hcaller (fd : FileFd) (hfd : callerOf (.code j) = some fd) : fd < x.nextFd :=
    h.callers _ List.mem_cons_self fd hfd
  have ht := h.toCustody.tail
  have hquits (hd : j ≠ .onDisconnected)
      (hs : ∀ fd, j = .fileHeaderSent fd → x.session.sendResult.isSome = false) : Quits x :=
    h.ending.quits (fun hf => hd (Frame.code.inj hf)) fun fd hf => hs fd (Frame.code.inj hf)
  cases j with
  | session i =>
    have hq := hquits (fun hd => by cases hd) fun _ hf => by cases hf
    exact ⟨ht.inSession, .inSession hq (Session.outline_exec _ i).announces⟩
  | onSocketDrained =>
    have hq := hquits (fun hd => by cases hd) fun _ hf => by cases hf
    refine ⟨.andThen ((ht.callback _).pumpFileStream fun fd hfd => by cases hfd), ?_⟩
    show Ending _ ((x.pumpFileStream o none).2 ++ _ ++ st)
    rw [List.append_assoc]
    exact ending_pumpFileStream hq
  | onDisconnected => exact ⟨ht.resetFileStream.callback _, .of_idle rfl⟩
  | fileHeaderSent fd =>
    have hq := hquits (fun hd => by cases hd) fun _ _ => hj
    have hnone : x.session.sendResult.isSome = false := hj
    simp only [FileSession.exec, fileHeaderSent, hnone, Bool.false_eq_true, if_false]
    exact ⟨ht.pumpFileStream hcaller, ending_pumpFileStream hq⟩
  | fileChunkSent caller i short =>
    have hq := hquits (fun hd => by cases hd) fun _ hf => by cases hf
    simp only [FileSession.exec, fileChunkSent]
    split
    · next hs =>
      cases caller with
      | none => exact ⟨ht.resetFileStream, .of_idle rfl⟩
      | some fd =>
        rw [show x.session.sendResult.isSome = false from hj] at hs
        cases hs
    · split
      · exact ⟨ht.resetFileStream, .of_idle rfl⟩
      · exact ⟨ht.pumpFileChunk hcaller _, ending_pumpFileChunk hq _⟩
  | closeFd fd => cases hj

/-- User code does not run while a stream is ending. -/
theorem Ending.userRuns (h : Ending x st) (hu : UserRuns st = true) : Quits x := by
  cases st with
  | nil =>
    intro hc
    by_contra ha
    rcases h hc (Bool.eq_true_of_not_eq_false ha) with hf | ⟨⟨fd, hf⟩, -⟩ <;> cases hf
  | cons f st =>
    cases f with
    | code j => cases hu
    | callback k => exact h.quits (fun hf => by cases hf) fun fd hf => by cases hf

theorem sound_step {c c' : FileConf} {i : FileInput} (h : Sound c.state c.stack)
    (hs : machine.step c i = some c') (hQ : KeepsTaken c i) : Sound c'.state c'.stack := by
  rcases Machine.step_cases hs with ⟨o, j, rest, rfl, hst, rfl⟩ | ⟨o, a, rfl, hu, rfl⟩ |
    ⟨b, k, rest, rfl, hst, rfl⟩ | ⟨o, e, r, rfl, hst, hr, rfl⟩
  · rw [hst] at h
    exact h.exec (hQ j rest hst)
  · have hq := h.ending.userRuns hu
    cases a with
    | session a => exact ⟨h.toCustody.inSession, .inSession hq ((Session.outline_call _ a).announces.after (Session.state_called _ a))⟩
    | sendFile r file contentType chunkSize maxChunks =>
      exact ⟨h.toCustody.sendFile _ _ _ _ _, ending_sendFile hq _ _ _ _ _⟩
  · rw [hst] at h
    have hq : Quits c.state := h.ending.quits (fun hf => by cases hf) fun fd hf => by cases hf
    have ht := h.toCustody.tail
    cases k with
    | session k =>
      refine ⟨{ ht with }, Quits.ending fun hc => hq ?_⟩
      cases k <;> exact hc
    | responseSend r => exact ⟨ht, hq.ending⟩
  · obtain ⟨q, hq, rfl⟩ := Option.map_eq_some_iff.1 hr
    rw [hst] at h
    have hquits : Quits c.state := h.ending.userRuns rfl
    have hcust := h.toCustody.inSession (r := q)
    have hend : Ending (c.state.inSession q).1 ((c.state.inSession q).2 ++ []) :=
      .inSession hquits (Session.outline_event hq).announces
    rw [List.append_nil] at hcust hend
    exact ⟨hcust, hend⟩

theorem Sound.closedOnce {c : FileConf} (h : Sound c.state c.stack) : ClosedOnce c where
  once := h.nodup
  closed hc hu fd hfd := by
    have hidle := (h.idle (h.ending.userRuns hu hc)).1
    have hmem := h.balance.mem_iff.2 (List.mem_range.2 hfd)
    rwa [hidle, Option.toList_none, List.append_nil] at hmem

theorem closes_twice {c c' : FileConf} {i : FileInput} (h : Sound c.state c.stack)
    (hs : machine.step c i = some c') (hQ : ¬ KeepsTaken c i) : ¬ ClosedOnce c' := by
  have htwice {l : List FileFd} {fd : FileFd} (hm : fd ∈ l) : ¬ (l ++ [fd]).Nodup := fun hn =>
    (List.nodup_append.1 hn).2.2 fd hm fd (List.mem_singleton_self fd) rfl
  cases i with
  | exec o =>
    simp only [KeepsTaken, Classical.not_forall, Bool.not_eq_false] at hQ
    obtain ⟨j, rest, hst, hj⟩ := hQ
    simp only [Machine.step, hst, Option.some.injEq] at hs
    subst hs
    rw [hst] at h
    have hclosed (fd : FileFd) (hfd : callerOf (.code j) = some fd) :
        fd ∈ c.state.resetFileStream.closes :=
      h.toCustody.closed (h.callers _ List.mem_cons_self fd hfd)
    intro honce
    refine absurd honce.once ?_
    cases j with
    | fileHeaderSent fd =>
      have hsome : c.state.session.sendResult.isSome = true := hj
      simp only [machine, FileSession.exec, fileHeaderSent, hsome, if_true]
      exact htwice (hclosed fd rfl)
    | fileChunkSent caller n short =>
      cases caller with
      | none => cases hj
      | some fd =>
        have hsome : c.state.session.sendResult.isSome = true := hj
        simp only [machine, FileSession.exec, fileChunkSent, hsome, if_true]
        exact htwice (hclosed fd rfl)
    | closeFd fd =>
      -- the stream has given the descriptor up, so it is among those closed
      refine htwice ?_
      have hmem := hclosed fd rfl
      have hgiven := h.given fd List.mem_cons_self
      rcases List.mem_append.1 hmem with hm | hm
      · exact hm
      · exact absurd (Option.mem_toList.1 hm) hgiven
    | _ => cases hj
  | _ => exact absurd trivial hQ

/-- **Descriptors are closed once.** Whatever fails, whatever user code does and
whenever the session closes, every descriptor opened by `SendFile` is closed at
most once, and exactly once when the session has been released, if and only if
no stream fails between taking a descriptor and the return of its `SendFile`. -/
theorem descriptor_closed_once_iff (cfg : Config) (is : List FileInput) :
    machine.Visits ClosedOnce (initConf cfg) is ↔ machine.Steps KeepsTaken (initConf cfg) is := by
  refine Trace.visits_iff_steps (J := fun c : FileConf => Sound c.state c.stack)
    (fun _ h => h.closedOnce) (fun _ _ _ => sound_step) (fun _ _ _ => closes_twice) is ?_
  refine ⟨⟨fun _ => ⟨rfl, rfl⟩, .refl _, fun f hf => ?_, fun fd hf => ?_⟩, .of_idle rfl⟩
  · cases hf
  · cases hf

/-- A file of three bytes is to be sent, and the first `read` fails. -/
def readFailsRun : List FileInput :=
  [.call {} (.session .start), .ret false, .exec {},
    .call {} (.sendFile {} (.regular 3) [] 0 0), .exec {}, .exec {}, .exec {},
    .exec { reads := [.failed] }, .exec {}]

/-- `PumpFileStream` resets the stream and returns false, and `SendFile` closes
the descriptor again. -/
theorem descriptor_closed_twice :
    ∃ c, machine.run (initConf {}) readFailsRun = some c ∧ c.stack = [] ∧
      c.state.closes = [0, 0] := by
  refine ⟨_, rfl, ?_⟩
  decide +kernel

end FileSession

end IouringRuntime
