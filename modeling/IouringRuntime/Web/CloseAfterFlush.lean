import IouringRuntime.Session.FlushTest
import IouringRuntime.Web.HttpSession

/-!
# An HTTP session that is to close after the flush

After `DisconnectAfterFlush` the flush test has to be made once more when the
last thing that holds the session back is gone: a send, the active stream, a
deferred response. `Attended` says that it will be. As long as something is
queued or in flight a completion follows, and the completion of a send first
goes on with the stream (`OnSocketDrained`) and then makes the test; a stream
that is not being pumped has something queued. So a session at rest that was
told to close and is still open has something left to do
(`closed_of_drained`).
-/

namespace IouringRuntime

open Reentrant

namespace HttpSession

/-! ## The invariant -/

/-- What a completed send leaves to run: `OnSocketDrained`, then the flush test. -/
def drainFrames : List HFrame :=
  [.code .pumpFileStream, .code .pumpBodyStream, .code (.session .onSendDrained)]

def isDrainFrame : HFrame → Bool
  | .code .pumpFileStream | .code .pumpBodyStream | .code (.session .onSendDrained) => true
  | _ => false

/-- The code of a stream behind one of its sends. -/
def isPumping : HFrame → Bool
  | .code .fileHeaderSent | .code .bodyHeaderSent | .code (.fileChunkSent _ _)
  | .code (.bodyChunkSent _) => true
  | _ => false

def isBatchFrame : HFrame → Bool
  | .code (.session i) => isBatch (.code i)
  | _ => false

abbrev Loaded (s : HttpSession) (k : List HFrame) : Prop :=
  s.session.Loaded (k.any isBatchFrame = true)

structure Shape (s : HttpSession) (k : List HFrame) : Prop where
  drain : k.filter isDrainFrame <:+ drainFrames
  connected : .code .onDisconnected ∉ k
  fileChunks : s.fileStream.active = true → 0 < s.fileStream.maxChunksPerWrite
  bodyChunks : s.bodyStream.active = true → 0 < s.bodyStream.maxChunksPerWrite

/-- Nothing is queued or in flight: whoever goes on stands on the stack, but for
the deferred responses. -/
structure Idle (s : HttpSession) (k : List HFrame) : Prop where
  pumping : ∀ f ∈ k, isPumping f = false
  file : s.fileStream.active = true → .code .pumpFileStream ∈ k
  body : s.bodyStream.active = true → .code .pumpBodyStream ∈ k
  test : s.session.disconnectAfterFlush = true →
    s.streaming = true ∨ s.session.pendingAppIo ≠ 0 ∨ .code (.session .onSendDrained) ∈ k

structure Attended (s : HttpSession) (k : List HFrame) : Prop where
  shape : s.Shape k
  next : s.Loaded k ∨ s.Idle k

/-- Of an open session; a closed one has nothing to wait for. -/
def Waits (s : HttpSession) (k : List HFrame) : Prop := s.session.state = .kOpen → s.Attended k

/-- `pending_app_io_` once the call has changed it. -/
def appIoLeft (s : HttpSession) : HInput → Nat
  | .call _ (.session ⟨.beginAppIo, _⟩) => s.session.pendingAppIo + 1
  | .call _ (.session ⟨.endAppIo, _⟩) => s.session.pendingAppIo - 1
  | _ => s.session.pendingAppIo

def outcomeOf : HInput → Option HttpOutcome
  | .exec o | .call o _ | .event o _ => some o
  | .ret _ => none

/-- `HasPendingAppWork` answers from `async_work_count_`, which
`BeginDeferredResponse` and `EndDeferredResponse` change with `pending_app_io_`. -/
def Truthful (c : HConf) (i : HInput) : Prop :=
  ∀ o, outcomeOf i = some o →
    o.session.hasPendingAppWork = decide (c.state.appIoLeft i ≠ 0)

instance (c : HConf) (i : HInput) : Decidable (Truthful c i) :=
  decidable_of_iff ((outcomeOf i).all fun o =>
    o.session.hasPendingAppWork == decide (c.state.appIoLeft i ≠ 0)) (by
    cases h : outcomeOf i <;> simp [Truthful, h])

variable {s t : HttpSession} {o : HttpOutcome} {k rest : List HFrame} {f : HFrame} {r : Seg}

/-! ## Frames of the session -/

theorem any_liftFrame (fs : List SFrame) :
    (fs.flatMap liftFrame).any isBatchFrame = fs.any isBatch := by
  rw [List.any_flatMap]
  congr 1
  funext f
  cases f with
  | code i => simp [liftFrame, isBatchFrame]
  | callback c => cases c <;> rfl

theorem isPumping_liftFrame {fs : List SFrame} (hf : f ∈ fs.flatMap liftFrame) :
    isPumping f = false := by
  obtain ⟨g, -, hg⟩ := List.mem_flatMap.1 hf
  cases g with
  | code i =>
    rw [List.mem_singleton.1 hg]
    rfl
  | callback c => cases c <;> simp [liftFrame] at hg <;> rcases hg with rfl | rfl <;> rfl

/-- The frames of a completed send and of a closed session come from the same frames. -/
theorem filter_liftFrame_drain (fs : List SFrame) :
    (fs.flatMap liftFrame).filter isDrainFrame =
      ((fs.filter (Session.isFlushFrame .kOpen)).flatMap liftFrame).filter isDrainFrame := by
  induction fs with
  | nil => rfl
  | cons f fs ih =>
    have hf : Session.isFlushFrame .kOpen f = false → (liftFrame f).filter isDrainFrame = [] := by
      cases f with
      | code i => cases i <;> first | exact fun _ => rfl | exact fun h => by cases h
      | callback c => cases c <;> first | exact fun _ => rfl | exact fun h => by cases h
    rw [List.flatMap_cons, List.filter_append, List.filter_cons]
    split
    · rw [List.flatMap_cons, List.filter_append, ih]
    · next hn => rw [hf (by simpa using hn), List.nil_append, ih]

theorem connected_liftFrame {fs : List SFrame} (h : .code .onDisconnected ∈ fs.flatMap liftFrame) :
    .callback .onDisconnected ∈ fs.filter (Session.isFlushFrame .kOpen) := by
  obtain ⟨f, hf, hg⟩ := List.mem_flatMap.1 h
  cases f with
  | code i => simp [liftFrame] at hg
  | callback c =>
    cases c with
    | onDisconnected => exact List.mem_filter.2 ⟨hf, rfl⟩
    | _ => simp [liftFrame] at hg

/-! ## Popping a frame -/

theorem Shape.pop (h : s.Shape (f :: rest)) : s.Shape rest where
  drain := by
    refine List.IsSuffix.trans ?_ h.drain
    rw [List.filter_cons]
    split
    · exact List.suffix_cons ..
    · exact List.suffix_rfl
  connected hf := h.connected (List.mem_cons_of_mem _ hf)
  fileChunks := h.fileChunks
  bodyChunks := h.bodyChunks

theorem mem_of_drain {g : HFrame} (hg : isDrainFrame g = true) (hf : isDrainFrame f = false)
    (h : g ∈ f :: rest) : g ∈ rest := by
  refine (List.mem_cons.1 h).resolve_left fun he => ?_
  rw [he, hf] at hg
  cases hg

theorem Idle.pop (h : s.Idle (f :: rest)) (hf : isDrainFrame f = false) : s.Idle rest where
  pumping g hg := h.pumping g (List.mem_cons_of_mem _ hg)
  file ha := mem_of_drain rfl hf (h.file ha)
  body ha := mem_of_drain rfl hf (h.body ha)
  test hd := (h.test hd).imp_right fun h => h.imp_right (mem_of_drain rfl hf)

theorem Loaded.pop (h : s.Loaded (f :: rest)) (hf : isBatchFrame f = false) : s.Loaded rest :=
  h.mono rfl fun hb => by simpa [hf] using hb

/-- Behind one of its sends, the code of a stream finds the session loaded. -/
theorem Attended.loaded (h : s.Attended (f :: rest)) (hf : isPumping f = true) :
    s.Loaded rest := by
  rcases h.next with hl | hi
  · refine hl.pop ?_
    cases f with
    | code i => cases i <;> first | rfl | cases hf
    | callback c => rfl
  · have := hi.pumping f List.mem_cons_self
    rw [hf] at this
    cases this

/-- Behind the pumps stands the flush test. -/
theorem Shape.test_of_file (h : s.Shape (.code .pumpFileStream :: rest)) :
    .code .pumpBodyStream ∈ rest ∧ .code (.session .onSendDrained) ∈ rest := by
  have hd := h.drain
  rw [List.filter_cons_of_pos rfl] at hd
  have he : rest.filter isDrainFrame =
      [.code .pumpBodyStream, .code (.session .onSendDrained)] := by
    simpa [drainFrames, List.suffix_cons_iff] using hd
  constructor <;> refine List.mem_of_mem_filter (p := isDrainFrame) ?_ <;> simp [he]

theorem Shape.test_of_body (h : s.Shape (.code .pumpBodyStream :: rest)) :
    .code (.session .onSendDrained) ∈ rest := by
  have hd := h.drain
  rw [List.filter_cons_of_pos rfl] at hd
  have he : rest.filter isDrainFrame = [.code (.session .onSendDrained)] := by
    simpa [drainFrames, List.suffix_cons_iff] using hd
  exact List.mem_of_mem_filter (p := isDrainFrame) (by simp [he])

theorem Shape.none_of_test (h : s.Shape (.code (.session .onSendDrained) :: rest)) :
    .code .pumpFileStream ∉ rest ∧ .code .pumpBodyStream ∉ rest := by
  have hd := h.drain
  rw [List.filter_cons_of_pos rfl] at hd
  have he : rest.filter isDrainFrame = [] := by
    simpa [drainFrames, List.suffix_cons_iff] using hd
  have hn (g : HFrame) (hg : isDrainFrame g = true) : g ∉ rest := fun hm => by
    simpa [hg] using List.filter_eq_nil_iff.1 he g hm
  exact ⟨hn _ rfl, hn _ rfl⟩

/-! ## Segments of the session -/

theorem Shape.inSession (h : s.Shape k)
    (hr : r.2.filter (Session.isFlushFrame .kOpen) = []) :
    (s.inSession r).1.Shape ((s.inSession r).2 ++ k) where
  drain := by
    show (r.2.flatMap liftFrame ++ k).filter isDrainFrame <:+ drainFrames
    rw [List.filter_append, filter_liftFrame_drain, hr]
    exact h.drain
  connected hm := by
    rcases List.mem_append.1 hm with hm | hm
    · have := connected_liftFrame hm
      rw [hr] at this
      cases this
    · exact h.connected hm
  fileChunks := h.fileChunks
  bodyChunks := h.bodyChunks

theorem loaded_inSession
    (h : r.1.Loaded (r.2.any isBatch = true ∨ k.any isBatchFrame = true)) :
    (s.inSession r).1.Loaded ((s.inSession r).2 ++ k) :=
  h.mono rfl fun hb => by
    show (r.2.flatMap liftFrame ++ k).any isBatchFrame = true
    rw [List.any_append, any_liftFrame, Bool.or_eq_true]
    exact hb

/-- The frames below stay, and the session's own are none of them. -/
theorem Idle.inSession (h : s.Idle k)
    (ht : r.1.disconnectAfterFlush = true → s.streaming = true ∨ r.1.pendingAppIo ≠ 0 ∨
      .code (.session .onSendDrained) ∈ k) :
    (s.inSession r).1.Idle ((s.inSession r).2 ++ k) where
  pumping g hg := by
    rcases List.mem_append.1 hg with hg | hg
    · exact isPumping_liftFrame hg
    · exact h.pumping g hg
  file ha := List.mem_append_right _ (h.file ha)
  body ha := List.mem_append_right _ (h.body ha)
  test hd := (ht hd).imp_right fun h => h.imp_right (List.mem_append_right _)

/-- A segment that says nothing about closing after the flush. -/
theorem Shape.attended (h : s.Shape k) (hq : Session.Steady s.session r) (ho : r.1.state = .kOpen)
    (hn : r.1.Loaded (r.2.any isBatch = true ∨ k.any isBatchFrame = true) ∨ s.Idle k) :
    (s.inSession r).1.Attended ((s.inSession r).2 ++ k) := by
  refine ⟨h.inSession (ho ▸ hq.frames), hn.imp loaded_inSession fun hi => hi.inSession ?_⟩
  obtain ⟨hd, hp⟩ := Prod.mk.inj hq.view
  rw [hd, hp]
  exact hi.test

theorem Shape.sendBytes (h : t.Shape k) (bytes : Bytes)
    (ho : (t.sendBytes o bytes).1.session.state = .kOpen) :
    (t.sendBytes o bytes).1.Attended ((t.sendBytes o bytes).2 ++ k) :=
  Shape.attended (s := { t with handed := t.handed ++ bytes })
    ⟨h.drain, h.connected, h.fileChunks, h.bodyChunks⟩ (Session.steady_sendOnOwner ..) ho
    (.inl ((Session.loaded_sendOnOwner ho).mono rfl False.elim))

/-! ## Streams and responses -/

/-- What the code of a stream or of a response comes to: the stream is given up
(`idle`), the session closes, something is sent, or nothing happens. -/
inductive Pumps (o : HttpOutcome) (s idle : HttpSession) (still : Prop) : HSeg → Prop where
  | reset : Pumps o s idle still (idle, [])
  | closed {r : HSeg} : r.1.session.state ≠ .kOpen → Pumps o s idle still r
  | sent {t : HttpSession} (bytes : Bytes) {ks : List HFrame} :
      t.session.state = s.session.state → (∀ k, s.Shape k → t.Shape k) →
      (∀ f ∈ ks, isPumping f = true) → Pumps o s idle still (andThen (t.sendBytes o bytes) ks)
  | rest : still → Pumps o s idle still (s, [])

theorem isDrainFrame_of_isPumping (h : isPumping f = true) :
    isDrainFrame f = false ∧ f ≠ .code .onDisconnected := by
  cases f with
  | code i => cases i <;> simp_all [isPumping, isDrainFrame]
  | callback c => cases h

theorem Shape.append_pumping (h : s.Shape k) {ks : List HFrame}
    (hk : ∀ f ∈ ks, isPumping f = true) : s.Shape (ks ++ k) where
  drain := by
    rw [List.filter_append, List.filter_eq_nil_iff.2 fun f hf => by
      simp [(isDrainFrame_of_isPumping (hk f hf)).1]]
    exact h.drain
  connected hm := by
    rcases List.mem_append.1 hm with hm | hm
    · exact (isDrainFrame_of_isPumping (hk _ hm)).2 rfl
    · exact h.connected hm
  fileChunks := h.fileChunks
  bodyChunks := h.bodyChunks

theorem Pumps.waits {idle : HttpSession} {still : Prop} {r : HSeg}
    (hp : Pumps o s idle still r) (hs : s.session.state = .kOpen → s.Shape k)
    (hidle : idle.Waits k) (hstill : still → s.Waits k) : r.1.Waits (r.2 ++ k) := by
  cases hp with
  | reset => exact hidle
  | closed hc => exact fun ho => absurd ho hc
  | @sent t bytes ks ht hshape hks =>
    intro ho
    have hopen : s.session.state = .kOpen :=
      ht ▸ (Session.steady_sendOnOwner t.session (t.outcome o) ⟨bytes⟩).isOpen ho
    show (t.sendBytes o bytes).1.Attended ((t.sendBytes o bytes).2 ++ ks ++ k)
    rw [List.append_assoc]
    exact ((hshape k (hs hopen)).append_pumping hks).sendBytes bytes ho
  | rest h => exact hstill h

theorem Pumps.mono {idle : HttpSession} {still still' : Prop} {r : HSeg}
    (hp : Pumps o s idle still r) (h : still → still') : Pumps o s idle still' r := by
  cases hp with
  | reset => exact .reset
  | closed hc => exact .closed hc
  | sent bytes ht hshape hks => exact .sent bytes ht hshape hks
  | rest hs => exact .rest (h hs)

theorem closed_disconnect (s : HttpSession) (o : HttpOutcome) :
    (s.disconnect o).1.session.state ≠ .kOpen :=
  Session.disconnectOnOwner_not_open _ _ _

theorem pumps_pumpFileChunk (s : HttpSession) (o : HttpOutcome) (i : Nat) :
    Pumps o s s.resetFileStream (s.fileStream.maxChunksPerWrite ≤ i) (s.pumpFileChunk o i) := by
  unfold pumpFileChunk
  dsimp only
  split
  · split
    · exact .closed (closed_disconnect _ o)
    · split
      · exact .closed (closed_disconnect _ o)
      · split
        · exact .reset
        · refine .sent _ rfl (fun k h => ⟨h.drain, h.connected, h.fileChunks, h.bodyChunks⟩) ?_
          exact fun f hf => by rw [List.mem_singleton.1 hf]; rfl
  · next hc =>
    split
    · exact .reset
    · exact .rest (by omega)

theorem pumps_pumpBodyChunk (s : HttpSession) (o : HttpOutcome) (i : Nat) :
    Pumps o s s.resetBodyStream (s.bodyStream.maxChunksPerWrite ≤ i) (s.pumpBodyChunk o i) := by
  unfold pumpBodyChunk
  dsimp only
  split
  · split
    · exact .closed (closed_disconnect _ o)
    · refine .sent _ rfl (fun k h => ⟨h.drain, h.connected, h.fileChunks, h.bodyChunks⟩) ?_
      exact fun f hf => by rw [List.mem_singleton.1 hf]; rfl
  · next hc =>
    split
    · exact .reset
    · exact .rest (by omega)

/-- A pump that neither sends nor ends its stream has none. -/
theorem pumps_pumpFileStream (s : HttpSession) (o : HttpOutcome) :
    Pumps o s s.resetFileStream
      (s.fileStream.active = true → s.fileStream.maxChunksPerWrite ≤ 0) (s.pumpFileStream o) := by
  unfold pumpFileStream
  split
  · next ha => exact .rest fun h => by simp [h] at ha
  · split
    · exact .reset
    · exact (pumps_pumpFileChunk s o 0).mono fun h _ => h

theorem pumps_pumpBodyStream (s : HttpSession) (o : HttpOutcome) :
    Pumps o s s.resetBodyStream
      (s.bodyStream.active = true → s.bodyStream.maxChunksPerWrite ≤ 0) (s.pumpBodyStream o) := by
  unfold pumpBodyStream
  split
  · next ha => exact .rest fun h => by simp [h] at ha
  · split
    · exact .reset
    · exact (pumps_pumpBodyChunk s o 0).mono fun h _ => h

theorem pumps_startBodyStream (s : HttpSession) (o : HttpOutcome) (header body : Bytes)
    (chunkSize maxChunksPerWrite : Nat) :
    Pumps o s s True (s.startBodyStream o header body chunkSize maxChunksPerWrite) := by
  unfold startBodyStream
  split
  · exact .rest trivial
  · refine .sent _ rfl (fun k h => ⟨h.drain, h.connected, h.fileChunks, fun _ => ?_⟩) ?_
    · exact Nat.lt_of_lt_of_le Nat.one_pos (Nat.le_max_right _ 1)
    · exact fun f hf => by rw [List.mem_singleton.1 hf]; rfl

theorem pumps_startFileStream (s : HttpSession) (o : HttpOutcome) (header content : Bytes)
    (chunkSize maxChunksPerWrite : Nat) :
    Pumps o s s True (s.startFileStream o header content chunkSize maxChunksPerWrite) := by
  unfold startFileStream
  split
  · exact .rest trivial
  · refine .sent _ rfl (fun k h => ⟨h.drain, h.connected, fun _ => ?_, h.bodyChunks⟩) ?_
    · exact Nat.lt_of_lt_of_le Nat.one_pos (Nat.le_max_right _ 1)
    · exact fun f hf => by rw [List.mem_singleton.1 hf]; rfl

theorem pumps_sendBytes (s : HttpSession) (o : HttpOutcome) (bytes : Bytes) :
    Pumps o s s True (s.sendBytes o bytes) := by
  have h : Pumps o s s True (andThen (s.sendBytes o bytes) []) :=
    .sent bytes rfl (fun _ h => h) (by simp)
  rwa [andThen, List.append_nil] at h

theorem pumps_sendResponse (s : HttpSession) (o : HttpOutcome) (r : HttpResponse) :
    Pumps o s s True (s.sendResponse o r) := by
  unfold sendResponse
  dsimp only
  split
  · exact pumps_sendBytes s o _
  · split
    · exact .rest trivial
    · split
      · exact pumps_sendBytes s o _
      · exact pumps_startBodyStream s o _ _ _ _

theorem Waits.respond (h : s.Waits k) (bytes : Bytes) : (s.respond bytes).Waits k := fun ho =>
  have ha := h ho
  ⟨⟨ha.shape.drain, ha.shape.connected, ha.shape.fileChunks, ha.shape.bodyChunks⟩,
    ha.next.imp id fun hi => ⟨hi.pumping, hi.file, hi.body, hi.test⟩⟩

/-- A response that is sent, or not. -/
theorem Waits.pumps {r : HSeg} (h : s.Waits k) (hp : Pumps o s s True r) :
    r.1.Waits (r.2 ++ k) :=
  hp.waits (fun ho => (h ho).shape) h fun _ => h

theorem Waits.sendFile (h : s.Waits k) (r : HttpResponse) (file : FileOpen) (contentType : Bytes)
    (chunkSize maxChunksPerWrite : Nat) :
    (s.sendFile o r file contentType chunkSize maxChunksPerWrite).1.Waits
      ((s.sendFile o r file contentType chunkSize maxChunksPerWrite).2 ++ k) := by
  unfold HttpSession.sendFile
  dsimp only
  split
  · exact (h.respond _).pumps (pumps_sendResponse _ o _)
  · exact (h.respond _).pumps (pumps_sendResponse _ o _)
  · exact (h.respond _).pumps (pumps_sendResponse _ o _)
  · split
    · exact (h.respond _).pumps (pumps_sendResponse _ o _)
    · split
      · exact (h.respond _).pumps (pumps_sendBytes _ o _)
      · exact (h.respond _).pumps (pumps_startFileStream _ o _ _ _ _)

/-! ## Instructions -/

/-- The stream is given up while something is queued, or before the flush test. -/
theorem Shape.resetFileStream (h : s.Shape k)
    (hn : s.Loaded k ∨ (∀ f ∈ k, isPumping f = false) ∧
      (s.bodyStream.active = true → .code .pumpBodyStream ∈ k) ∧
      .code (.session .onSendDrained) ∈ k) : s.resetFileStream.Attended k where
  shape := ⟨h.drain, h.connected, nofun, h.bodyChunks⟩
  next := hn.imp id fun ⟨hp, hb, ht⟩ => ⟨hp, nofun, hb, fun _ => .inr (.inr ht)⟩

theorem Shape.resetBodyStream (h : s.Shape k)
    (hn : s.Loaded k ∨ (∀ f ∈ k, isPumping f = false) ∧
      (s.fileStream.active = true → .code .pumpFileStream ∈ k) ∧
      .code (.session .onSendDrained) ∈ k) : s.resetBodyStream.Attended k where
  shape := ⟨h.drain, h.connected, h.fileChunks, nofun⟩
  next := hn.imp id fun ⟨hp, hf, ht⟩ => ⟨hp, hf, nofun, fun _ => .inr (.inr ht)⟩

/-- Behind one of its sends a file stream may go on, stop or be given up. -/
theorem Waits.pumpFile (h : s.Waits (f :: rest)) (hf : isPumping f = true) {still : Prop}
    {r : HSeg} (hp : Pumps o s s.resetFileStream still r) : r.1.Waits (r.2 ++ rest) :=
  hp.waits (fun ho => (h ho).shape.pop)
    (fun ho => (h ho).shape.pop.resetFileStream (.inl ((h ho).loaded hf)))
    fun _ ho => ⟨(h ho).shape.pop, .inl ((h ho).loaded hf)⟩

theorem Waits.pumpBody (h : s.Waits (f :: rest)) (hf : isPumping f = true) {still : Prop}
    {r : HSeg} (hp : Pumps o s s.resetBodyStream still r) : r.1.Waits (r.2 ++ rest) :=
  hp.waits (fun ho => (h ho).shape.pop)
    (fun ho => (h ho).shape.pop.resetBodyStream (.inl ((h ho).loaded hf)))
    fun _ ho => ⟨(h ho).shape.pop, .inl ((h ho).loaded hf)⟩

/-- `OnSocketDrained` goes on with the file stream. -/
theorem Waits.pumpFileStream (h : s.Waits (.code .pumpFileStream :: rest)) :
    (s.pumpFileStream o).1.Waits ((s.pumpFileStream o).2 ++ rest) := by
  refine (pumps_pumpFileStream s o).waits (fun ho => (h ho).shape.pop) (fun ho => ?_)
    fun hstill ho => ?_
  · have ha := h ho
    refine ha.shape.pop.resetFileStream (ha.next.imp (Loaded.pop · rfl) fun hi => ?_)
    exact ⟨fun g hg => hi.pumping g (List.mem_cons_of_mem _ hg),
      fun _ => ha.shape.test_of_file.1, ha.shape.test_of_file.2⟩
  · have ha := h ho
    have hno : s.fileStream.active = true → False := fun hact =>
      absurd (ha.shape.fileChunks hact) (by have := hstill hact; omega)
    refine ⟨ha.shape.pop, ha.next.imp (Loaded.pop · rfl) fun hi => ?_⟩
    exact ⟨fun g hg => hi.pumping g (List.mem_cons_of_mem _ hg), fun hact => (hno hact).elim,
      fun _ => ha.shape.test_of_file.1, fun _ => .inr (.inr ha.shape.test_of_file.2)⟩

theorem Waits.pumpBodyStream (h : s.Waits (.code .pumpBodyStream :: rest)) :
    (s.pumpBodyStream o).1.Waits ((s.pumpBodyStream o).2 ++ rest) := by
  -- the file pump has run: an active file stream has something queued
  have hfile (ha : s.Attended (.code .pumpBodyStream :: rest))
      (hi : s.Idle (.code .pumpBodyStream :: rest)) (hact : s.fileStream.active = true) :
      .code .pumpFileStream ∈ rest :=
    (List.mem_cons.1 (hi.file hact)).resolve_left nofun
  refine (pumps_pumpBodyStream s o).waits (fun ho => (h ho).shape.pop) (fun ho => ?_)
    fun hstill ho => ?_
  · have ha := h ho
    refine ha.shape.pop.resetBodyStream (ha.next.imp (Loaded.pop · rfl) fun hi => ?_)
    exact ⟨fun g hg => hi.pumping g (List.mem_cons_of_mem _ hg), hfile ha hi,
      ha.shape.test_of_body⟩
  · have ha := h ho
    have hno : s.bodyStream.active = true → False := fun hact =>
      absurd (ha.shape.bodyChunks hact) (by have := hstill hact; omega)
    refine ⟨ha.shape.pop, ha.next.imp (Loaded.pop · rfl) fun hi => ?_⟩
    exact ⟨fun g hg => hi.pumping g (List.mem_cons_of_mem _ hg), hfile ha hi,
      fun hact => (hno hact).elim, fun _ => .inr (.inr ha.shape.test_of_body)⟩

/-- The loaded session stays so, whatever instruction of the session runs. -/
theorem loaded_exec_session {i : Instr} (h : s.Loaded (.code (.session i) :: rest))
    (ho : (s.session.exec (s.outcome o) i).1.state = .kOpen) :
    (s.session.exec (s.outcome o) i).1.Loaded
      ((s.session.exec (s.outcome o) i).2.any isBatch = true ∨ rest.any isBatchFrame = true) :=
  Session.loaded_exec (h.mono rfl fun hb => by simpa [isBatchFrame] using hb) ho

/-- The flush test of `OnSend`. With nothing queued the pumps before it have
left no stream, so a session that it leaves open has a deferred response. -/
theorem Waits.onSendDrained (h : s.Waits (.code (.session .onSendDrained) :: rest))
    (hw : o.session.hasPendingAppWork = decide (s.session.pendingAppIo ≠ 0)) :
    (exec o s (.session .onSendDrained)).1.Waits
      ((exec o s (.session .onSendDrained)).2 ++ rest) := by
  intro ho
  have hq := Session.steady_exec (s.outcome o) s.session .onSendDrained
  have ha := h (hq.isOpen ho)
  refine ha.shape.pop.attended hq ho ?_
  rcases ha.next with hl | hi
  · exact .inl (loaded_exec_session hl ho)
  · have hfile : s.fileStream.active = false := by
      by_contra hact
      exact ha.shape.none_of_test.1
        ((List.mem_cons.1 (hi.file (by simpa using hact))).resolve_left nofun)
    have hbody : s.bodyStream.active = false := by
      by_contra hact
      exact ha.shape.none_of_test.2
        ((List.mem_cons.1 (hi.body (by simpa using hact))).resolve_left nofun)
    obtain ⟨he, htest⟩ := Session.tryDisconnectAfterFlush_open (o := s.outcome o) ho
    by_cases hd : s.session.disconnectAfterFlush = true
    · rcases htest hd with hl | hpend
      · refine .inl (hl.mono ?_ False.elim)
        show Session.load (s.session.tryDisconnectAfterFlush (s.outcome o)).1 = _
        rw [he]
      · refine .inr ⟨fun g hg => hi.pumping g (List.mem_cons_of_mem _ hg), by simp [hfile],
          by simp [hbody], fun _ => .inr (.inl ?_)⟩
        simpa [outcome, streaming, hfile, hbody, hw] using hpend
    · exact .inr ⟨fun g hg => hi.pumping g (List.mem_cons_of_mem _ hg), by simp [hfile],
        by simp [hbody], fun h => absurd h hd⟩

theorem Waits.exec {i : HttpInstr} (h : s.Waits (.code i :: rest))
    (hw : o.session.hasPendingAppWork = decide (s.session.pendingAppIo ≠ 0)) :
    (exec o s i).1.Waits ((exec o s i).2 ++ rest) := by
  cases i with
  | session i =>
    by_cases hi : i = .onSendDrained
    · subst hi
      exact h.onSendDrained hw
    · intro ho
      have hq := Session.steady_exec (s.outcome o) s.session i
      have ha := h (hq.isOpen ho)
      refine ha.shape.pop.attended hq ho (ha.next.imp (loaded_exec_session · ho) fun hid => ?_)
      refine hid.pop ?_
      cases i <;> first | rfl | exact absurd rfl hi
  | pumpFileStream => exact h.pumpFileStream
  | pumpBodyStream => exact h.pumpBodyStream
  | fileHeaderSent =>
    simp only [HttpSession.exec, fileHeaderSent]
    split
    · exact h.pumpFile rfl (.reset : Pumps o s _ False _)
    · exact h.pumpFile rfl (pumps_pumpFileStream s o)
  | bodyHeaderSent =>
    simp only [HttpSession.exec, bodyHeaderSent]
    split
    · exact h.pumpBody rfl (.reset : Pumps o s _ False _)
    · exact h.pumpBody rfl (pumps_pumpBodyStream s o)
  | fileChunkSent i short =>
    simp only [HttpSession.exec, fileChunkSent]
    split
    · exact h.pumpFile rfl (.reset : Pumps o s _ False _)
    · split
      · exact h.pumpFile rfl (.reset : Pumps o s _ False _)
      · exact h.pumpFile rfl (pumps_pumpFileChunk s o _)
  | bodyChunkSent i =>
    simp only [HttpSession.exec, bodyChunkSent]
    split
    · exact h.pumpBody rfl (.reset : Pumps o s _ False _)
    · exact h.pumpBody rfl (pumps_pumpBodyChunk s o _)
  | onDisconnected => exact fun ho => absurd List.mem_cons_self (h ho).shape.connected

/-! ## Calls and completions -/

/-- After a call that is about closing after the flush, a session left open has
something left to do. -/
theorem Attended.flushCall (h : s.Attended k)
    (hq : r.2.filter (Session.isFlushFrame .kOpen) = []) (hl : r.1.load = s.session.load)
    (ht : r.1.disconnectAfterFlush = true →
      r.1.Loaded False ∨ s.streaming = true ∨ r.1.pendingAppIo ≠ 0) :
    (s.inSession r).1.Attended ((s.inSession r).2 ++ k) := by
  refine ⟨h.shape.inSession hq, ?_⟩
  rcases h.next with hload | hi
  · exact .inl (loaded_inSession (hload.mono hl .inr))
  · by_cases hd : r.1.disconnectAfterFlush = true
    · rcases ht hd with hload | hs | hp
      · exact .inl (loaded_inSession (hload.mono rfl False.elim))
      · exact .inr (hi.inSession fun _ => .inl hs)
      · exact .inr (hi.inSession fun _ => .inr (.inl hp))
    · exact .inr (hi.inSession fun hd' => absurd hd' hd)

/-- The flush test, made on a session that differs from this one in what it reads. -/
theorem Attended.flushTest {u : Session} (h : s.Attended k) {ks : List SFrame}
    (hk : ks.filter (Session.isFlushFrame .kOpen) = []) (hl : u.load = s.session.load)
    (hw : o.session.hasPendingAppWork = decide (u.pendingAppIo ≠ 0))
    (ho : (u.tryDisconnectAfterFlush (s.outcome o)).1.state = .kOpen) :
    (s.inSession ((u.tryDisconnectAfterFlush (s.outcome o)).andThen ks)).1.Attended
      ((s.inSession ((u.tryDisconnectAfterFlush (s.outcome o)).andThen ks)).2 ++ k) := by
  obtain ⟨he, ht⟩ := Session.tryDisconnectAfterFlush_open ho
  rw [he]
  refine h.flushCall hk hl fun hd => (ht hd).imp_right fun hp => ?_
  rcases Bool.or_eq_true_iff.1 hp with hp | hp
  · exact .inr (by simpa [hw] using hp)
  · exact .inl hp

theorem Waits.steadyCall {a : Api} (h : s.Waits k) (ha : a.isSend = false)
    (hf : a ≠ .disconnectAfterFlush) (hb : a ≠ .beginAppIo) (he : a ≠ .endAppIo) :
    (s.inSession (s.session.call (s.outcome o) a)).1.Waits
      ((s.inSession (s.session.call (s.outcome o) a)).2 ++ k) := by
  intro ho
  have hq := Session.steady_call (s.outcome o) s.session hf hb he
  have hw := h (hq.isOpen ho)
  refine hw.shape.attended hq ho (hw.next.imp_left fun hl => ?_)
  refine (Session.loaded_call hl fun buf h => ?_).mono rfl .inr
  rw [h] at ha
  cases ha

theorem Waits.disconnectAfterFlush (h : s.Waits k)
    (hw : o.session.hasPendingAppWork = decide (s.session.pendingAppIo ≠ 0)) :
    (s.inSession (s.session.disconnectAfterFlushOnOwner (s.outcome o))).1.Waits
      ((s.inSession (s.session.disconnectAfterFlushOnOwner (s.outcome o))).2 ++ k) := by
  unfold Session.disconnectAfterFlushOnOwner
  split
  · exact h
  · next hc =>
    have hopen : s.session.state = .kOpen := by simpa [Session.canUseOnOwner] using hc
    intro ho
    have := @Attended.flushTest _ _ _ { s.session with disconnectAfterFlush := true } (h hopen) []
      rfl rfl hw ho
    rwa [Seg.andThen, List.append_nil] at this

theorem Waits.endAppIo (h : s.Waits k)
    (hw : o.session.hasPendingAppWork = decide (s.session.pendingAppIo - 1 ≠ 0)) :
    (s.inSession (s.session.endAppIo (s.outcome o))).1.Waits
      ((s.inSession (s.session.endAppIo (s.outcome o))).2 ++ k) := by
  have hleft : s.session.completeAppIo.pendingAppIo = s.session.pendingAppIo - 1 := by
    unfold Session.completeAppIo
    split
    · rfl
    · omega
  intro ho
  have hopen := (Session.steady_tryDisconnectAfterFlush s.session.completeAppIo
    (s.outcome o)).isOpen ho
  rw [Session.state_completeAppIo] at hopen
  refine (h hopen).flushTest rfl ?_ (by rw [hw, hleft]) ho
  exact Session.aside_load.data (Session.data_completeAppIo s.session)

theorem Waits.call {a : HttpApi} (h : s.Waits k)
    (hw : o.session.hasPendingAppWork = decide (s.appIoLeft (.call o a) ≠ 0)) :
    (call o s a).1.Waits ((call o s a).2 ++ k) := by
  cases a with
  | send r => exact (h.respond _).pumps (pumps_sendResponse _ o r)
  | sendFile r file contentType chunkSize maxChunks => exact h.sendFile r file _ _ _
  | session a =>
    obtain ⟨a, ha⟩ := a
    cases a with
    | disconnectAfterFlush => exact h.disconnectAfterFlush hw
    | beginAppIo =>
      exact fun ho => (h ho).flushCall rfl rfl fun _ => .inr (.inr (Nat.succ_ne_zero _))
    | endAppIo => exact h.endAppIo hw
    | _ => exact h.steadyCall ha nofun nofun nofun

/-- A completion that ends a send is followed by the pumps and the flush test. -/
theorem Waits.event {e : OpId × Cqe} {r : HSeg} (h : s.Waits [])
    (he : event o s e = some r) : r.1.Waits r.2 := by
  obtain ⟨r, hr, rfl⟩ := Option.map_eq_some_iff.1 he
  intro ho
  show (s.inSession r).1.Attended (s.inSession r).2
  rw [← List.append_nil (s.inSession r).2]
  cases Session.completed_event hr with
  | steady hq hl =>
    have ha := h (hq.isOpen ho)
    exact ha.shape.attended hq ho (ha.next.imp_left fun h => (hl h ho).mono rfl .inr)
  | drained hi hopen hf =>
    have ha := h hopen
    have hst : r.1.state = .kOpen := ho
    rw [hst] at hf
    have hfilter : (r.2.flatMap liftFrame).filter isDrainFrame = drainFrames := by
      rw [filter_liftFrame_drain, hf]
      rfl
    have hmem (g : HFrame) (hg : g ∈ drainFrames) : g ∈ r.2.flatMap liftFrame ++ [] := by
      rw [List.append_nil]
      exact List.mem_of_mem_filter (hfilter ▸ hg)
    refine ⟨⟨?_, fun hm => ?_, ha.shape.fileChunks, ha.shape.bodyChunks⟩, .inr ⟨?_, ?_, ?_, ?_⟩⟩
    · show (r.2.flatMap liftFrame ++ []).filter isDrainFrame <:+ drainFrames
      exact ⟨[], by rw [List.nil_append, List.append_nil, hfilter]⟩
    · have := connected_liftFrame ((List.mem_append.1 hm).resolve_right List.not_mem_nil)
      rw [hf] at this
      simp at this
    · exact fun g hg =>
        isPumping_liftFrame ((List.mem_append.1 hg).resolve_right List.not_mem_nil)
    · exact fun _ => hmem _ (by simp [drainFrames])
    · exact fun _ => hmem _ (by simp [drainFrames])
    · exact fun _ => .inr (.inr (hmem _ (by simp [drainFrames])))

/-! ## Runs -/

theorem waits_step (c : HConf) (i : HInput) (c' : HConf) (h : c.state.Waits c.stack)
    (hs : machine.step c i = some c') (ht : Truthful c i) : c'.state.Waits c'.stack := by
  rcases Machine.step_cases hs with ⟨o, j, rest, rfl, hst, rfl⟩ | ⟨o, a, rfl, hu, rfl⟩ |
    ⟨b, f, rest, rfl, hst, rfl⟩ | ⟨o, e, r, rfl, hst, hr, rfl⟩
  · rw [hst] at h
    exact h.exec (ht o rfl)
  · exact h.call (ht o rfl)
  · rw [hst] at h
    intro ho
    have ha := h ho
    exact ⟨ha.shape.pop, ha.next.imp (Loaded.pop · rfl) fun hi => hi.pop rfl⟩
  · rw [hst] at h
    exact h.event hr

theorem waits_init (cfg : Config) : (initConf cfg).state.Waits (initConf cfg).stack := fun _ =>
  ⟨⟨List.nil_suffix, List.not_mem_nil, nofun, nofun⟩, .inr ⟨nofun, nofun, nofun, nofun⟩⟩

/-- Everything given to the session has been sent. -/
def Drained (s : HttpSession) : Prop :=
  s.session.activeSendEv = none ∧ s.session.sendQueue.pending = [] ∧ s.streaming = false

/-- **Closing after the flush.** A session at rest that was told to close after
the flush, has sent everything and has no deferred response is not open. -/
theorem closed_of_drained {s : HttpSession} (h : s.Waits []) (hd : s.Drained)
    (hf : s.session.disconnectAfterFlush = true) (hp : s.session.pendingAppIo = 0) :
    s.session.state ≠ .kOpen := by
  intro ho
  obtain ⟨hactive, hqueue, hstream⟩ := hd
  rcases (h ho).next with hl | hi
  · rcases hl with hl | hl | hl
    · simp [hactive] at hl
    · exact hl hqueue
    · cases hl
  · rcases hi.test hf with h | h | h
    · simp [hstream] at h
    · exact h hp
    · cases h

end HttpSession

end IouringRuntime
