import IouringRuntime.Activity.Session
import IouringRuntime.Posix.Path
import IouringRuntime.Web.FileTransfer
import IouringRuntime.Web.ResponseHead

/-!
# Files and byte ranges

`SendFileResponse` and the file stream of `ActivitySession`. `fileAnswer` is what
`SendFileResponse` decides to do; sizes and offsets are `std::uint64_t`, and the
differences of the source are taken modulo 2^64. A range that is answered lies in
the file (`requestedRange_inside`), so that none of them wraps, and the stream that
follows queues no more bytes than were announced (`queued_sendFileResponse`).

What the session asks of its base class and of the operating system is recorded in
`calls`. `Send` does not come back to the stream before it returns: only a failed one
disconnects, and `PumpFileStream` ends the stream then itself.
-/

namespace IouringRuntime

open Search Posix

namespace ActivityServer

/-- The files, by the paths that the operating system sees. -/
structure FileSystem where
  isDirectory : Bytes → Bool
  isRegularFile : Bytes → Bool
  /-- `file_size`; `none` if it sets the error code. -/
  fileSize : Bytes → Option UInt64
  /-- `open`; `none` is `-1`. -/
  openFile : Bytes → Option FileFd
  /-- Whether `lseek` to an offset succeeds. -/
  seeks : Bytes → UInt64 → Bool
  readFile : Bytes → Bytes

inductive FileCall where
  | session (c : ActivityCall)
  | maybeDisconnectAfterFlush
  /-- A `Send` of a chunk that succeeds. -/
  | send (chunk : Bytes)
  | close (fd : FileFd)
  /-- The file stream is set up for the file. -/
  | streamFile (path : Bytes)
  | readFile (path : Bytes)
  deriving DecidableEq, Repr

structure FileServer where
  fileStream : FileStreamState := {}
  calls : List FileCall := []
  deriving DecidableEq, Repr

/-- What is decided outside for one chunk: whether its buffer is allocated, the
`read` calls, and whether `Send` succeeds. -/
structure ChunkOutcome where
  allocates : Bool := true
  reads : List ReadCall := []
  sends : Bool := true
  deriving DecidableEq, Repr

/-! ## Ranges -/

def HttpRequest.header (req : HttpRequest) (name : Bytes) : Bytes :=
  (req.headers.lookup name).getD []

/-- `start`, `end` and `partial`. -/
structure ByteRange where
  start : UInt64
  stop : UInt64
  isPartial : Bool
  deriving DecidableEq, Repr

/-- `std::min<std::uint64_t>`. -/
def stdMin (a b : UInt64) : UInt64 := if b < a then b else a

/-- The numbers of a range with a first byte; `none` if `std::stoull` throws. -/
def rangeBounds (fileSize : UInt64) (first last : Bytes) : Option (UInt64 × UInt64) := do
  let start ← stoull first
  if last = [] then return (UInt64.ofNat start, fileSize - 1)
  let stop ← stoull last
  return (UInt64.ofNat start, stdMin (UInt64.ofNat stop) (fileSize - 1))

/-- The range that the text behind `bytes=` describes. -/
def parseRange (fileSize : UInt64) (spec : Bytes) : ByteRange :=
  match cut [45] spec with
  | none => ⟨0, fileSize - 1, false⟩
  | some (first, last) =>
    if first ≠ [] then
      match rangeBounds fileSize first last with
      | some (start, stop) => ⟨start, stop, start ≤ stop && start < fileSize⟩
      | none => ⟨0, fileSize - 1, false⟩
    else if last ≠ [] then
      match stoull last with
      | some n =>
        let suffix := stdMin (UInt64.ofNat n) fileSize
        ⟨fileSize - suffix, fileSize - 1, 0 < suffix⟩
      | none => ⟨0, fileSize - 1, false⟩
    else ⟨0, fileSize - 1, false⟩

/-- The range to send; `none` is answered with 416. -/
def requestedRange (fileSize : UInt64) (range : Bytes) : Option ByteRange :=
  if 0 < fileSize ∧ (ascii "bytes=").isPrefixOf range then
    let r := parseRange fileSize (range.drop 6)
    if r.isPartial then some r else none
  else some ⟨0, if fileSize = 0 then 0 else fileSize - 1, false⟩

def ByteRange.contentLength (r : ByteRange) (fileSize : UInt64) : UInt64 :=
  if fileSize = 0 then 0 else r.stop - r.start + 1

def rangeNotSatisfiable (fileSize : UInt64) : Bytes :=
  ascii "HTTP/1.1 416 Range Not Satisfiable" ++ crlf ++
  ascii "Server: iouring_activity_server" ++ crlf ++
  ascii "Content-Range: bytes */" ++ decimal fileSize.toNat ++ crlf ++
  ascii "Content-Length: 0" ++ crlf ++
  ascii "Access-Control-Allow-Origin: *" ++ crlf ++
  ascii "Accept-Ranges: bytes" ++ crlf ++
  ascii "Connection: close" ++ crlf ++ crlf

def fileHeaders (r : ByteRange) (fileSize : UInt64) (contentType : Bytes) : Bytes :=
  ascii "HTTP/1.1 " ++ decimal (if r.isPartial then 206 else 200) ++
    (if r.isPartial then ascii " Partial Content" else ascii " OK") ++ crlf ++
  ascii "Server: iouring_activity_server" ++ crlf ++
  ascii "Content-Type: " ++ contentType ++ crlf ++
  ascii "Content-Length: " ++ decimal (r.contentLength fileSize).toNat ++ crlf ++
  ascii "Access-Control-Allow-Origin: *" ++ crlf ++
  ascii "Accept-Ranges: bytes" ++ crlf ++
  (if r.isPartial then
    ascii "Content-Range: bytes " ++ decimal r.start.toNat ++ ascii "-" ++ decimal r.stop.toNat ++
      ascii "/" ++ decimal fileSize.toNat ++ crlf
  else []) ++
  ascii "Connection: close" ++ crlf ++ crlf

/-! ## The response -/

inductive FileAnswer where
  | notFound
  | unsatisfiable (fileSize : UInt64)
  /-- The headers alone. -/
  | headers (text : Bytes)
  | seekFailed (fd : FileFd)
  | stream (text : Bytes) (fd : FileFd) (start length : UInt64)
  deriving DecidableEq, Repr

/-- What `SendFileResponse` does with a range it sends. -/
def answerRange (fs : FileSystem) (req : HttpRequest) (path contentType : Bytes)
    (fileSize : UInt64) (r : ByteRange) : FileAnswer :=
  let text := fileHeaders r fileSize contentType
  let length := r.contentLength fileSize
  if req.method = ascii "HEAD" ∨ length = 0 then .headers text
  else
    match fs.openFile (cString path) with
    | none => .notFound
    | some fd =>
      if fs.seeks (cString path) r.start then .stream text fd r.start length else .seekFailed fd

def fileAnswer (fs : FileSystem) (req : HttpRequest) (path contentType : Bytes) : FileAnswer :=
  match fs.fileSize (cString path) with
  | none => .notFound
  | some fileSize =>
    match requestedRange fileSize (req.header (ascii "range")) with
    | none => .unsatisfiable fileSize
    | some r => answerRange fs req path contentType fileSize r

namespace FileServer

def call (s : FileServer) (c : FileCall) : FileServer := { s with calls := s.calls ++ [c] }

def sendHttp (s : FileServer) (status : Nat) (contentType body : Bytes) : FileServer :=
  { s with
    calls := s.calls ++
      (ActivitySession.sendHttp {} status contentType body).calls.map FileCall.session }

def sendRaw (s : FileServer) (data : Bytes) : FileServer := s.call (.session (.sendRaw data))

def disconnect (s : FileServer) : FileServer := s.call (.session .disconnect)

def disconnectAfterFlush (s : FileServer) : FileServer := s.call (.session .disconnectAfterFlush)

/-- `SocketHandle::Reset` of the stream's descriptor. -/
def resetFd (s : FileServer) (fd : Option FileFd) : FileServer :=
  let t := { s with fileStream := { s.fileStream with fd } }
  match s.fileStream.fd with
  | some old => t.call (.close old)
  | none => t

def resetFileStream (s : FileServer) : FileServer :=
  let t := s.resetFd none
  { t with fileStream := { t.fileStream with remainingBytes := 0, active := false } }

/-- The end of `PumpFileStream`, and its beginning. -/
def endIfComplete (s : FileServer) : FileServer :=
  if s.fileStream.remainingBytes = 0 then s.resetFileStream.call .maybeDisconnectAfterFlush else s

/-- The loop of `PumpFileStream` with the number of chunks it may still send. -/
def pumpChunks (outcome : Nat → ChunkOutcome) : Nat → FileServer → FileServer
  | 0, s => s.endIfComplete
  | i + 1, s =>
    if s.fileStream.remainingBytes = 0 then s.endIfComplete
    else if !(outcome i).allocates then s.resetFileStream.disconnect
    else
      match readChunk s.fileStream.nextSize (outcome i).reads [] with
      | none => s.resetFileStream.disconnect
      | some [] => s.resetFileStream.call .maybeDisconnectAfterFlush
      | some (b :: chunk) =>
        let t :=
          { s with
            fileStream :=
              { s.fileStream with
                remainingBytes := s.fileStream.remainingBytes - (b :: chunk).length } }
        if (outcome i).sends then pumpChunks outcome i (t.call (.send (b :: chunk)))
        else t.resetFileStream

def pumpFileStream (s : FileServer) (outcome : Nat → ChunkOutcome) : FileServer :=
  if !s.fileStream.active then s
  else if s.fileStream.remainingBytes = 0 then s.endIfComplete
  else s.pumpChunks outcome s.fileStream.maxChunksPerWrite

def onSocketDrained (s : FileServer) (outcome : Nat → ChunkOutcome) : FileServer :=
  if s.fileStream.active then s.pumpFileStream outcome else s

/-- The stream of `length` bytes of the file, from where it has been sought. -/
def startFileStream (s : FileServer) (path : Bytes) (fd : FileFd) (length : UInt64) : FileServer :=
  let t := s.resetFd (some fd)
  { t with
    fileStream := { t.fileStream with remainingBytes := length.toNat, active := true } }.call
      (.streamFile (cString path))

def sendFileResponse (fs : FileSystem) (outcome : Nat → ChunkOutcome) (s : FileServer)
    (req : HttpRequest) (path contentType : Bytes) : FileServer :=
  match fileAnswer fs req path contentType with
  | .notFound => s.sendHttp 404 (ascii "text/plain") (ascii "Not Found")
  | .unsatisfiable fileSize => (s.sendRaw (rangeNotSatisfiable fileSize)).disconnectAfterFlush
  | .headers text => (s.sendRaw text).disconnectAfterFlush
  | .seekFailed fd => (s.call (.close fd)).sendHttp 404 (ascii "text/plain") (ascii "Not Found")
  | .stream text fd _ length =>
    (((s.startFileStream path fd length).sendRaw text).pumpFileStream outcome).disconnectAfterFlush

end FileServer

/-! ## A range lies in the file -/

/-- The bytes to send are bytes of the file, and their number does not wrap. -/
structure ByteRange.Inside (r : ByteRange) (fileSize : UInt64) : Prop where
  start_le : r.start ≤ r.stop
  stop_lt : r.stop < fileSize
  length_eq : (r.contentLength fileSize).toNat = r.stop.toNat - r.start.toNat + 1
  length_le : r.contentLength fileSize ≤ fileSize

section Range

variable {fileSize : UInt64} {r : ByteRange} {range : Bytes}

theorem toNat_stdMin (a b : UInt64) : (stdMin a b).toNat = min a.toNat b.toNat := by
  unfold stdMin
  split
  · next h => rw [UInt64.lt_iff_toNat_lt] at h; omega
  · next h => rw [UInt64.lt_iff_toNat_lt] at h; omega

theorem toNat_ne_zero (h : fileSize ≠ 0) : fileSize.toNat ≠ 0 :=
  fun h0 => h (UInt64.toNat_inj.1 h0)

theorem toNat_sub_one (h : fileSize ≠ 0) : (fileSize - 1).toNat = fileSize.toNat - 1 := by
  refine UInt64.toNat_sub_of_le _ _ (UInt64.le_iff_toNat_le.2 ?_)
  exact Nat.one_le_iff_ne_zero.2 (toNat_ne_zero h)

theorem sub_one_lt (h : fileSize ≠ 0) : fileSize - 1 < fileSize := by
  have h0 := toNat_ne_zero h
  rw [UInt64.lt_iff_toNat_lt, toNat_sub_one h]
  omega

theorem inside_of_le (h1 : r.start ≤ r.stop) (h2 : r.stop < fileSize) : r.Inside fileSize := by
  have h1' := UInt64.le_iff_toNat_le.1 h1
  have h2' := UInt64.lt_iff_toNat_lt.1 h2
  have hmax := fileSize.toNat_lt
  have h0 : fileSize ≠ 0 := by
    rintro rfl
    exact absurd h2' (Nat.not_lt_zero _)
  have hlen : (r.contentLength fileSize).toNat = r.stop.toNat - r.start.toNat + 1 := by
    rw [ByteRange.contentLength, if_neg h0, UInt64.toNat_add, UInt64.toNat_sub_of_le _ _ h1]
    exact Nat.mod_eq_of_lt (by show _ + 1 < _; omega)
  refine ⟨h1, h2, hlen, ?_⟩
  rw [UInt64.le_iff_toNat_le, hlen]
  omega

/-- The last byte of a range is cut off at the end of the file. -/
theorem rangeBounds_stop {first last : Bytes} {start stop : UInt64}
    (h : rangeBounds fileSize first last = some (start, stop)) : stop ≤ fileSize - 1 := by
  obtain ⟨a, -, h⟩ := Option.bind_eq_some_iff.1 h
  split at h
  · cases h
    exact UInt64.le_refl _
  · obtain ⟨b, -, h⟩ := Option.bind_eq_some_iff.1 h
    cases h
    rw [UInt64.le_iff_toNat_le, toNat_stdMin]
    exact Nat.min_le_right _ _

theorem parseRange_inside {spec : Bytes} (h0 : fileSize ≠ 0)
    (h : (parseRange fileSize spec).isPartial = true) :
    (parseRange fileSize spec).Inside fileSize := by
  have hlast := sub_one_lt h0
  generalize hr : parseRange fileSize spec = r at h ⊢
  unfold parseRange at hr
  split at hr
  · subst hr; cases h
  · next first last hcut =>
    split at hr
    · split at hr
      · next start stop hbounds =>
        subst hr
        rw [Bool.and_eq_true, decide_eq_true_eq, decide_eq_true_eq] at h
        exact inside_of_le h.1 (UInt64.lt_of_le_of_lt (rangeBounds_stop hbounds) hlast)
      · subst hr; cases h
    · split at hr
      · split at hr
        · next n hn =>
          -- a suffix of the file that is not empty
          subst hr
          have hpos := UInt64.lt_iff_toNat_lt.1 (of_decide_eq_true h)
          have hmin := toNat_stdMin (UInt64.ofNat n) fileSize
          refine inside_of_le ?_ hlast
          rw [UInt64.le_iff_toNat_le, toNat_sub_one h0, UInt64.toNat_sub_of_le]
          · show fileSize.toNat - _ ≤ _
            change 0 < _ at hpos
            omega
          · rw [UInt64.le_iff_toNat_le, hmin]
            exact Nat.min_le_right _ _
        · subst hr; cases h
      · subst hr; cases h

/-- A range that is not answered with 416 lies in the file. -/
theorem requestedRange_inside (h0 : fileSize ≠ 0) (h : requestedRange fileSize range = some r) :
    r.Inside fileSize := by
  unfold requestedRange at h
  split at h
  · dsimp only at h
    split at h
    · next hp =>
      obtain rfl := Option.some.inj h
      exact parseRange_inside h0 hp
    · cases h
  · obtain rfl := Option.some.inj h
    exact inside_of_le UInt64.zero_le (sub_one_lt h0)

/-! ## The three forms -/

/-- The number that a text of digits stands for. -/
structure Numeral (text : Bytes) (n : Nat) : Prop where
  ne_nil : text ≠ []
  digits : ∀ ch ∈ text, isDigit ch = true
  value : text.foldl (fun n ch => 10 * n + (ch.toNat - 48)) 0 = n

theorem isSpace_of_isDigit {ch : UInt8} (h : isDigit ch = true) : isSpace ch = false := by
  rw [isDigit, Bool.and_eq_true, decide_eq_true_eq, decide_eq_true_eq, UInt8.le_iff_toNat_le,
    UInt8.le_iff_toNat_le] at h
  rw [isSpace, Bool.or_eq_false_iff, Bool.and_eq_false_iff, beq_eq_false_iff_ne,
    decide_eq_false_iff_not, decide_eq_false_iff_not, UInt8.le_iff_toNat_le,
    UInt8.le_iff_toNat_le]
  refine ⟨fun he => ?_, .inr fun hle => ?_⟩
  · subst he
    exact absurd h.1 (by decide)
  · exact absurd (h.1.trans hle) (by decide)

theorem readSign_of_isDigit {ch : UInt8} (h : isDigit ch = true) (text : Bytes) :
    readSign (ch :: text) = (false, ch :: text) := by
  unfold readSign
  split
  · next he => cases he; exact absurd h (by decide)
  · next he => cases he; exact absurd h (by decide)
  · rfl

namespace Numeral

variable {text : Bytes} {n : Nat}

theorem stoull (h : Numeral text n) (hn : n < 2 ^ 64) : stoull text = some n := by
  obtain ⟨ch, rest, rfl⟩ := List.exists_cons_of_ne_nil h.ne_nil
  have hch := h.digits ch (List.mem_cons_self ..)
  have hskip : (ch :: rest).dropWhile isSpace = ch :: rest := by
    rw [List.dropWhile_cons, isSpace_of_isDigit hch]
    rfl
  have hall : (ch :: rest).takeWhile isDigit = ch :: rest := List.takeWhile_eq_self_iff.2 h.digits
  unfold ActivityServer.stoull
  simp only [hskip, readSign_of_isDigit hch, hall, h.value]
  rw [if_neg h.ne_nil, if_neg (by omega)]
  rfl

theorem dash_notMem (h : Numeral text n) : (45 : UInt8) ∉ text := by
  intro hmem
  exact absurd (h.digits 45 hmem) (by decide)

end Numeral

theorem requestedRange_bytes (h0 : fileSize ≠ 0) (spec : Bytes) :
    requestedRange fileSize (ascii "bytes=" ++ spec) =
      if (parseRange fileSize spec).isPartial then some (parseRange fileSize spec) else none := by
  have hpos : 0 < fileSize := UInt64.lt_iff_toNat_lt.2 (Nat.pos_of_ne_zero (toNat_ne_zero h0))
  have hpre : (ascii "bytes=").isPrefixOf (ascii "bytes=" ++ spec) = true :=
    List.isPrefixOf_iff_prefix.2 (List.prefix_append _ _)
  have hdrop : (ascii "bytes=" ++ spec).drop 6 = spec := List.drop_left' (by decide)
  rw [requestedRange, if_pos ⟨hpos, hpre⟩, hdrop]

/-- The range header asks for the bytes from `first` to `last`, and they are sent. -/
def Yields (fileSize : UInt64) (range : Bytes) (first last : Nat) : Prop :=
  ∃ r, requestedRange fileSize range = some r ∧ r.isPartial = true ∧
    r.start.toNat = first ∧ r.stop.toNat = last

section Forms

variable {first last : Bytes} {a b n : Nat}

/-- A range with a first byte, once its numbers are read. -/
theorem yields_of_bounds (h0 : fileSize ≠ 0) (ha : Numeral first a) {start stop : UInt64}
    (hbounds : rangeBounds fileSize first last = some (start, stop)) (hle : start ≤ stop)
    (hlt : start < fileSize) :
    Yields fileSize (ascii "bytes=" ++ (first ++ 45 :: last)) start.toNat stop.toNat := by
  have hparse : parseRange fileSize (first ++ 45 :: last) = ⟨start, stop, true⟩ := by
    rw [parseRange, cut_singleton ha.dash_notMem]
    simp only [ha.ne_nil, ne_eq, not_false_eq_true, if_true, hbounds, hle, hlt, decide_true,
      Bool.and_true]
  refine ⟨⟨start, stop, true⟩, ?_, rfl, rfl, rfl⟩
  rw [requestedRange_bytes h0, hparse, if_pos rfl]

theorem yields_between (h0 : fileSize ≠ 0) (ha : Numeral first a) (hb : Numeral last b)
    (ha64 : a < 2 ^ 64) (hb64 : b < 2 ^ 64) (hab : a ≤ b) (hlt : a < fileSize.toNat) :
    Yields fileSize (ascii "bytes=" ++ (first ++ 45 :: last)) a (min b (fileSize.toNat - 1)) := by
  have hbounds : rangeBounds fileSize first last =
      some (UInt64.ofNat a, stdMin (UInt64.ofNat b) (fileSize - 1)) := by
    simp only [rangeBounds, ha.stoull ha64, hb.stoull hb64, hb.ne_nil]
    rfl
  have hstart : (UInt64.ofNat a).toNat = a := UInt64.toNat_ofNat_of_lt' ha64
  have hstop : (stdMin (UInt64.ofNat b) (fileSize - 1)).toNat = min b (fileSize.toNat - 1) := by
    rw [toNat_stdMin, UInt64.toNat_ofNat_of_lt' hb64, toNat_sub_one h0]
  have h := yields_of_bounds h0 ha hbounds
    (UInt64.le_iff_toNat_le.2 (by rw [hstart, hstop]; omega))
    (UInt64.lt_iff_toNat_lt.2 (by rw [hstart]; exact hlt))
  rwa [hstart, hstop] at h

theorem yields_from (h0 : fileSize ≠ 0) (ha : Numeral first a) (ha64 : a < 2 ^ 64)
    (hlt : a < fileSize.toNat) :
    Yields fileSize (ascii "bytes=" ++ (first ++ [45])) a (fileSize.toNat - 1) := by
  have hbounds : rangeBounds fileSize first [] = some (UInt64.ofNat a, fileSize - 1) := by
    simp only [rangeBounds, ha.stoull ha64]
    rfl
  have hstart : (UInt64.ofNat a).toNat = a := UInt64.toNat_ofNat_of_lt' ha64
  have hstop := toNat_sub_one h0
  have h := yields_of_bounds h0 ha hbounds
    (UInt64.le_iff_toNat_le.2 (by rw [hstart, hstop]; omega))
    (UInt64.lt_iff_toNat_lt.2 (by rw [hstart]; exact hlt))
  rwa [hstart, hstop] at h

theorem yields_last (h0 : fileSize ≠ 0) (hn : Numeral last n) (hn64 : n < 2 ^ 64) (hpos : 0 < n) :
    Yields fileSize (ascii "bytes=" ++ (45 :: last)) (fileSize.toNat - min n fileSize.toNat)
      (fileSize.toNat - 1) := by
  have hsize := toNat_ne_zero h0
  have hsuffix : (stdMin (UInt64.ofNat n) fileSize).toNat = min n fileSize.toNat := by
    rw [toNat_stdMin, UInt64.toNat_ofNat_of_lt' hn64]
  have hlt : 0 < stdMin (UInt64.ofNat n) fileSize := by
    rw [UInt64.lt_iff_toNat_lt, hsuffix]
    show 0 < _
    omega
  have hparse : parseRange fileSize (45 :: last) =
      ⟨fileSize - stdMin (UInt64.ofNat n) fileSize, fileSize - 1, true⟩ := by
    have hcut : cut [45] (45 :: last) = some ([], last) := cut_singleton List.not_mem_nil last
    rw [parseRange, hcut]
    simp only [ne_eq, not_true_eq_false, if_false, hn.ne_nil, not_false_eq_true, if_true,
      hn.stoull hn64, hlt, decide_true]
  refine ⟨⟨fileSize - stdMin (UInt64.ofNat n) fileSize, fileSize - 1, true⟩, ?_, rfl, ?_,
    toNat_sub_one h0⟩
  · rw [requestedRange_bytes h0, hparse, if_pos rfl]
  · show (fileSize - stdMin (UInt64.ofNat n) fileSize).toNat = _
    rw [UInt64.toNat_sub_of_le, hsuffix]
    rw [UInt64.le_iff_toNat_le, hsuffix]
    omega

end Forms

end Range

theorem val_lt_of_mem_toDigits {n : Nat} {c : Char} (h : c ∈ Nat.toDigits 10 n) :
    c.val.toNat < 2 ^ 8 := by
  have hdigit := Nat.isDigit_of_mem_toDigits (by decide) (by decide) h
  rw [Char.isDigit, Bool.and_eq_true, decide_eq_true_eq, decide_eq_true_eq,
    UInt32.le_iff_toNat_le (b := '9'.val)] at hdigit
  exact Nat.lt_of_le_of_lt hdigit.2 (by decide)

/-- What `std::to_string` prints is a numeral. -/
theorem numeral_decimal (n : Nat) : Numeral (decimal n) n where
  ne_nil := by
    rw [decimal, ne_eq, List.map_eq_nil_iff]
    exact Nat.toDigits_ne_nil
  digits := by
    intro ch hch
    obtain ⟨h1, h2⟩ := mem_decimal hch
    rw [isDigit, Bool.and_eq_true, decide_eq_true_eq, decide_eq_true_eq]
    exact ⟨h1, h2⟩
  value := by
    have hdigits : ∀ (m : Nat), ∀ c ∈ Nat.toDigits 10 n,
        10 * m + (c.val.toUInt8.toNat - 48) = 10 * m + (c.toNat - '0'.toNat) := by
      intro m c hc
      rw [UInt32.toNat_toUInt8, Nat.mod_eq_of_lt (val_lt_of_mem_toDigits hc)]
      rfl
    rw [decimal, List.foldl_map, List.foldl_ext _ _ 0 hdigits]
    exact Nat.ofDigitChars_ten_toDigits

/-! ## The stream -/

namespace FileServer

variable {s t : FileServer} {outcome : Nat → ChunkOutcome}

/-- The bytes that `Send` has taken. -/
def queued (s : FileServer) : Bytes :=
  s.calls.flatMap fun
    | .send chunk => chunk
    | _ => []

/-- The files whose contents have been asked for. -/
def reads (s : FileServer) : List Bytes :=
  s.calls.filterMap fun
    | .streamFile path => some path
    | .readFile path => some path
    | _ => none

/-- What the stream takes from what is left to send goes into the queue. -/
structure Pumped (s t : FileServer) : Prop where
  le : t.queued.length + t.fileStream.remainingBytes ≤
    s.queued.length + s.fileStream.remainingBytes
  active : t.fileStream.active = true → s.fileStream.active = true
  eq_of_active : t.fileStream.active = true →
    t.queued.length + t.fileStream.remainingBytes = s.queued.length + s.fileStream.remainingBytes
  reads : t.reads = s.reads

theorem Pumped.refl (s : FileServer) : Pumped s s := ⟨Nat.le_refl _, id, fun _ => rfl, rfl⟩

theorem Pumped.trans {u : FileServer} (h1 : Pumped s t) (h2 : Pumped t u) : Pumped s u :=
  ⟨h2.le.trans h1.le, fun h => h1.active (h2.active h),
    fun h => (h2.eq_of_active h).trans (h1.eq_of_active (h2.active h)), h2.reads.trans h1.reads⟩

theorem queued_call (s : FileServer) (c : FileCall) :
    (s.call c).queued = s.queued ++ [c].flatMap fun
      | .send chunk => chunk
      | _ => [] := by
  rw [queued, call, List.flatMap_append]
  rfl

theorem reads_call (s : FileServer) (c : FileCall) :
    (s.call c).reads = s.reads ++ [c].filterMap fun
      | .streamFile path => some path
      | .readFile path => some path
      | _ => none := by
  rw [reads, call, List.filterMap_append]
  rfl

theorem reads_resetFd (s : FileServer) (fd : Option FileFd) : (s.resetFd fd).reads = s.reads := by
  unfold resetFd
  dsimp only
  split
  · rw [reads_call]
    exact List.append_nil _
  · rfl

theorem queued_resetFd (s : FileServer) (fd : Option FileFd) :
    (s.resetFd fd).queued = s.queued := by
  unfold resetFd
  dsimp only
  split
  · rw [queued_call]
    exact List.append_nil _
  · rfl

/-- The stream ends, with a call that queues nothing. -/
theorem pumped_of_ended (hq : t.queued = s.queued) (hr : t.reads = s.reads)
    (hrem : t.fileStream.remainingBytes = 0) (hactive : t.fileStream.active = false) :
    Pumped s t := by
  refine ⟨by rw [hq, hrem]; omega, ?_, ?_, hr⟩
  all_goals
    intro h
    rw [hactive] at h
    cases h

/-- Both ways in which the pump gives up the stream. -/
theorem pumped_reset (s : FileServer) {c : FileCall}
    (hc : c = .maybeDisconnectAfterFlush ∨ c = .session .disconnect) :
    Pumped s (s.resetFileStream.call c) := by
  have hq : (s.resetFileStream.call c).queued = s.queued := by
    rw [queued_call, ← queued_resetFd s none]
    rcases hc with rfl | rfl
    · exact List.append_nil _
    · exact List.append_nil _
  have hr : (s.resetFileStream.call c).reads = s.reads := by
    rw [reads_call, ← reads_resetFd s none]
    rcases hc with rfl | rfl
    · exact List.append_nil _
    · exact List.append_nil _
  exact pumped_of_ended hq hr rfl rfl

theorem pumped_endIfComplete (s : FileServer) : Pumped s s.endIfComplete := by
  unfold endIfComplete
  split
  · exact pumped_reset s (.inl rfl)
  · exact .refl s

theorem pumped_pumpChunks (outcome : Nat → ChunkOutcome) (i : Nat) :
    ∀ s : FileServer, Pumped s (pumpChunks outcome i s) := by
  induction i with
  | zero => exact pumped_endIfComplete
  | succ i ih =>
    intro s
    unfold pumpChunks
    split
    · exact pumped_endIfComplete s
    · split
      · exact pumped_reset s (.inr rfl)
      · split
        · exact pumped_reset s (.inr rfl)
        · exact pumped_reset s (.inl rfl)
        · next b chunk hread =>
          have hle : (b :: chunk).length ≤ s.fileStream.remainingBytes :=
            (length_readChunk _ (Nat.zero_le _) hread).trans (Nat.min_le_left _ _)
          dsimp only
          split
          · -- the chunk moves from what is left to what is queued
            refine Pumped.trans ?_ (ih _)
            have hsum : (s.queued ++ (b :: chunk)).length +
                (s.fileStream.remainingBytes - (b :: chunk).length) =
                s.queued.length + s.fileStream.remainingBytes := by
              rw [List.length_append]
              omega
            have hq : (call { s with fileStream := { s.fileStream with
                remainingBytes := s.fileStream.remainingBytes - (b :: chunk).length } }
                (.send (b :: chunk))).queued = s.queued ++ (b :: chunk) := by
              rw [queued_call]
              exact congrArg (s.queued ++ ·) (List.append_nil _)
            refine ⟨?_, id, fun _ => ?_, (reads_call _ _).trans (List.append_nil _)⟩
            · rw [hq]
              exact hsum.le
            · rw [hq]
              exact hsum
          · exact pumped_of_ended (queued_resetFd _ none) (reads_resetFd _ none) rfl rfl

theorem pumped_pumpFileStream (s : FileServer) (outcome : Nat → ChunkOutcome) :
    Pumped s (s.pumpFileStream outcome) := by
  unfold pumpFileStream
  split
  · exact .refl s
  · split
    · exact pumped_endIfComplete s
    · exact pumped_pumpChunks outcome _ s

theorem pumped_onSocketDrained (s : FileServer) (outcome : Nat → ChunkOutcome) :
    Pumped s (s.onSocketDrained outcome) := by
  unfold onSocketDrained
  split
  · exact pumped_pumpFileStream s outcome
  · exact .refl s

theorem pumped_drains (drains : List (Nat → ChunkOutcome)) :
    ∀ s : FileServer, Pumped s (drains.foldl onSocketDrained s) := by
  induction drains with
  | nil => exact .refl
  | cons o drains ih =>
    intro s
    exact (pumped_onSocketDrained s o).trans (ih (s.onSocketDrained o))

/-- A stream of `length` bytes never queues more than these, and no fewer are queued
or left while it is active. -/
theorem queued_sendFileResponse {fs : FileSystem} {req : HttpRequest}
    {path contentType text : Bytes} {fd : FileFd} {start length : UInt64}
    (h : fileAnswer fs req path contentType = .stream text fd start length) (s : FileServer)
    (outcome : Nat → ChunkOutcome) (drains : List (Nat → ChunkOutcome)) :
    let t := drains.foldl onSocketDrained (sendFileResponse fs outcome s req path contentType)
    t.queued.length ≤ s.queued.length + length.toNat ∧
    (t.fileStream.active = true →
      t.queued.length + t.fileStream.remainingBytes = s.queued.length + length.toNat) := by
  have hstart : ((s.startFileStream path fd length).sendRaw text).queued = s.queued := by
    rw [sendRaw, queued_call, startFileStream, queued_call]
    simp only [List.flatMap_singleton, List.append_nil]
    exact queued_resetFd s (some fd)
  have hsend : Pumped ((s.startFileStream path fd length).sendRaw text)
      (sendFileResponse fs outcome s req path contentType) := by
    rw [sendFileResponse, h]
    have hpump := pumped_pumpFileStream ((s.startFileStream path fd length).sendRaw text) outcome
    have hq (u : FileServer) : u.disconnectAfterFlush.queued = u.queued :=
      (queued_call u _).trans (List.append_nil _)
    exact ⟨by rw [hq]; exact hpump.le, hpump.active,
      fun ha => by rw [hq]; exact hpump.eq_of_active ha,
      (reads_call _ _).trans ((List.append_nil _).trans hpump.reads)⟩
  have hall := hsend.trans (pumped_drains drains _)
  have hrem : ((s.startFileStream path fd length).sendRaw text).fileStream.remainingBytes =
      length.toNat := rfl
  rw [← hstart, ← hrem]
  exact ⟨Nat.le_of_add_right_le hall.le, hall.eq_of_active⟩

end FileServer

section Response

variable {fs : FileSystem} {req : HttpRequest} {path contentType : Bytes} {fileSize : UInt64}

theorem fileAnswer_eq (req : HttpRequest) (contentType : Bytes)
    (hsize : fs.fileSize (cString path) = some fileSize) :
    fileAnswer fs req path contentType =
      match requestedRange fileSize (req.header (ascii "range")) with
      | none => .unsatisfiable fileSize
      | some r => answerRange fs req path contentType fileSize r := by
  rw [fileAnswer, hsize]

/-- What is known where a stream is set up. -/
theorem answerRange_stream {r : ByteRange} {text : Bytes} {fd : FileFd} {start length : UInt64}
    (h : answerRange fs req path contentType fileSize r = .stream text fd start length) :
    (text = fileHeaders r fileSize contentType ∧ start = r.start ∧
      length = r.contentLength fileSize) ∧
    fs.openFile (cString path) = some fd ∧ r.contentLength fileSize ≠ 0 := by
  unfold answerRange at h
  dsimp only at h
  split at h
  · exact FileAnswer.noConfusion h
  · next hbody =>
    split at h
    · exact FileAnswer.noConfusion h
    · next hopen =>
      split at h
      · injection h with htext hfd hstart hlength
        subst hfd
        exact ⟨⟨htext.symm, hstart.symm, hlength.symm⟩, hopen, fun h0 => hbody (.inr h0)⟩
      · exact FileAnswer.noConfusion h

/-- A stream is that of a range that is answered. -/
theorem exists_range_of_stream {text : Bytes} {fd : FileFd} {start length : UInt64}
    (hsize : fs.fileSize (cString path) = some fileSize)
    (h : fileAnswer fs req path contentType = .stream text fd start length) :
    ∃ r, requestedRange fileSize (req.header (ascii "range")) = some r ∧
      answerRange fs req path contentType fileSize r = .stream text fd start length := by
  rw [fileAnswer_eq req contentType hsize] at h
  cases hr : requestedRange fileSize (req.header (ascii "range")) with
  | none =>
    rw [hr] at h
    exact FileAnswer.noConfusion h
  | some r =>
    rw [hr] at h
    exact ⟨r, rfl, h⟩

theorem requestedRange_zero (range : Bytes) : requestedRange 0 range = some ⟨0, 0, false⟩ := by
  rw [requestedRange, if_neg fun h => absurd h.1 (by decide)]
  rfl

end Response

/-- Every path is a file of ten bytes. -/
def tenBytes : FileSystem where
  isDirectory _ := false
  isRegularFile _ := true
  fileSize _ := some 10
  openFile _ := some 0
  seeks _ _ := true
  readFile _ := List.replicate 10 0

end ActivityServer

end IouringRuntime
