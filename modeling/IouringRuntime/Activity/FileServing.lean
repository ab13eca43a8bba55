import IouringRuntime.Activity.FileResponse
import IouringRuntime.Media.Hls

/-!
# Serving files below a root

`ServeHls` and `ServeStaticFrontend` of `ActivitySession`. `weakly_canonical` is the
lexically normal absolute path; there are no symbolic links. The two handlers test
differently whether the file is below its root: `IsWithinRoot` goes through the
components (`isWithinRoot_iff`), `ServeHls` compares the beginnings of the texts, so
that it accepts a path in which the last name of the root goes on (`Beside`).

A decoded request can hold a zero byte. The tests are made on the whole text and the
operating system sees what is before the zero (`names_of_cString_text`).
-/

namespace IouringRuntime

open Posix Hls

namespace ActivityServer

/-- What every file system keeps to. -/
structure PosixFileSystem extends FileSystem where
  /-- A path that ends with `/`, `.` or `..` is that of a directory. -/
  isName_filename : ∀ path, isRegularFile path = true → IsName (filename path)
  seeks_zero : ∀ path, isRegularFile path = true → seeks path 0 = true

/-- `ACTIVITY_DOWNLOAD_DIR` and `ACTIVITY_STATIC_DIR`, `none` where unset, and the working
directory. -/
structure FileConfig where
  downloadDir : Option CText := none
  staticDir : Option CText := none
  workingDirectory : CText

namespace FileConfig

def weaklyCanonical (cfg : FileConfig) (path : Bytes) : NormalPath :=
  absoluteNormal cfg.workingDirectory.bytes path

def envDownloadDir (cfg : FileConfig) : CText :=
  cfg.downloadDir.getD ⟨ascii "/var/lib/iouring-runtime/activity-server/downloads", by decide⟩

def envStaticDir (cfg : FileConfig) : CText :=
  cfg.staticDir.getD ⟨ascii "/usr/share/activity-server/frontend", by decide⟩

def hlsRoot (cfg : FileConfig) : NormalPath :=
  cfg.weaklyCanonical (append cfg.envDownloadDir.bytes (ascii "hls"))

def staticRoot (cfg : FileConfig) : NormalPath := cfg.weaklyCanonical cfg.envStaticDir.bytes

end FileConfig

/-- The loop over the components of both paths. -/
def isWithinRoot : List Bytes → List Bytes → Bool
  | [], _ => true
  | _ :: _, [] => false
  | r :: root, t :: target => if r ≠ t then false else isWithinRoot root target

def staticContentType (path : Bytes) : Bytes :=
  let ext := extension path
  if ext = ascii ".html" then ascii "text/html; charset=utf-8"
  else if ext = ascii ".css" then ascii "text/css; charset=utf-8"
  else if ext = ascii ".js" ∨ ext = ascii ".mjs" then ascii "application/javascript; charset=utf-8"
  else if ext = ascii ".json" then ascii "application/json"
  else if ext = ascii ".svg" then ascii "image/svg+xml"
  else if ext = ascii ".ico" then ascii "image/x-icon"
  else if ext = ascii ".png" then ascii "image/png"
  else if ext = ascii ".jpg" ∨ ext = ascii ".jpeg" then ascii "image/jpeg"
  else if ext = ascii ".webp" then ascii "image/webp"
  else if ext = ascii ".woff" then ascii "font/woff"
  else if ext = ascii ".woff2" then ascii "font/woff2"
  else if ext = ascii ".wasm" then ascii "application/wasm"
  else if ext = ascii ".txt" then ascii "text/plain; charset=utf-8"
  else ascii "application/octet-stream"

def hlsContentType (path : Bytes) : Bytes :=
  let type := ascii "application/octet-stream"
  let type := if extension path = ascii ".m3u8" then ascii "application/vnd.apple.mpegurl" else type
  if extension path = ascii ".ts" then ascii "video/mp2t" else type

namespace FileServer

/-- For the paths that begin with `/hls/`. -/
def serveHls (fs : FileSystem) (cfg : FileConfig) (outcome : Nat → ChunkOutcome) (s : FileServer)
    (req : HttpRequest) : FileServer :=
  let root := cfg.hlsRoot
  let rel := urlDecode (req.path.drop 5)
  let target := cfg.weaklyCanonical (append root.text rel)
  if !root.text.isPrefixOf target.text || !fs.isRegularFile (cString target.text) then
    s.sendHttp 404 (ascii "text/plain") (ascii "Not Found")
  else s.sendFileResponse fs outcome req target.text (hlsContentType target.text)

/-- What `ServeStaticFrontend` sends of a file it has found. -/
def sendStatic (fs : FileSystem) (s : FileServer) (req : HttpRequest) (target : Bytes) :
    FileServer :=
  if req.method = ascii "HEAD" then s.sendHttp 200 (staticContentType target) []
  else
    (s.call (.readFile (cString target))).sendHttp 200 (staticContentType target)
      (fs.readFile (cString target))

/-- The path that the decoded text of the request names below the root. -/
def staticTarget (cfg : FileConfig) (req : HttpRequest) : NormalPath :=
  let root := cfg.staticRoot
  let rel := urlDecode (if req.path = [] then ascii "/" else req.path)
  let rel := if rel.head? = some sep then rel.drop 1 else rel
  cfg.weaklyCanonical (append root.text (if rel = [] then ascii "index.html" else rel))

def serveStaticFrontend (fs : FileSystem) (cfg : FileConfig) (s : FileServer)
    (req : HttpRequest) : FileServer × Bool :=
  let root := cfg.staticRoot
  if !fs.isDirectory (cString root.text) then (s, false)
  else
    let target := staticTarget cfg req
    if !isWithinRoot root.components target.components then
      (s.sendHttp 404 (ascii "text/plain") (ascii "Not Found"), true)
    else
      let path :=
        if !fs.isRegularFile (cString target.text) then append root.text (ascii "index.html")
        else target.text
      if !fs.isRegularFile (cString path) then (s, false) else (s.sendStatic fs req path, true)

end FileServer

/-! ## What is below a root -/

/-- The names of the root begin those of the path in normal form. -/
def Within (root : NormalPath) (path : Bytes) : Prop := root.names <+: (lexicallyNormal path).names

instance (root : NormalPath) (path : Bytes) : Decidable (Within root path) :=
  inferInstanceAs (Decidable (_ <+: _))

/-- The path leaves the root beside it, by a name that goes on from the root's own. -/
def Beside (root p : NormalPath) : Prop :=
  ∃ parent name x more, root.names = parent ++ [name] ∧ x ≠ [] ∧
    p.names = parent ++ (name ++ x) :: more

/-- A regular file with contents, which can be opened. -/
structure FileSystem.Readable (fs : FileSystem) (path : Bytes) : Prop where
  zero_notMem : (0 : UInt8) ∉ path
  isRegularFile : fs.isRegularFile path = true
  fileSize : ∃ n, fs.fileSize path = some n ∧ n ≠ 0
  openFile : ∃ fd, fs.openFile path = some fd

/-- Some readable file is beside the root. -/
def Exposed (fs : FileSystem) (root : NormalPath) : Prop :=
  ∃ p : NormalPath, Beside root p ∧ fs.Readable p.text

theorem isWithinRoot_iff : ∀ {root target : List Bytes},
    isWithinRoot root target = true ↔ root <+: target := by
  intro root
  induction root with
  | nil => exact fun {target} => ⟨fun _ => List.nil_prefix, fun _ => rfl⟩
  | cons r root ih =>
    intro target
    cases target with
    | nil => exact ⟨fun h => (nomatch h), fun h => (nomatch List.prefix_nil.1 h)⟩
    | cons t target =>
      rw [isWithinRoot, List.cons_prefix_cons]
      by_cases hrt : r = t
      · rw [if_neg (not_not.2 hrt), ih]
        exact ⟨fun h => ⟨hrt, h⟩, fun h => h.2⟩
      · rw [if_pos hrt]
        exact ⟨fun h => (nomatch h), fun h => absurd h.1 hrt⟩

theorem not_within_of_beside {root p : NormalPath} (h : Beside root p) : ¬ Within root p.text := by
  obtain ⟨parent, name, x, more, hroot, hx, hp⟩ := h
  intro hw
  rw [Within, names_text, hroot, hp, List.prefix_append_right_inj, List.cons_prefix_cons] at hw
  exact hx (List.self_eq_append_right.1 hw.1)

namespace FileConfig

variable (cfg : FileConfig)

theorem zero_notMem_weaklyCanonical {path : Bytes} (h : (0 : UInt8) ∉ path) :
    (0 : UInt8) ∉ (cfg.weaklyCanonical path).text := by
  refine zero_notMem_text ?_
  split
  · exact h
  · exact zero_notMem_append cfg.workingDirectory.zero_notMem h

theorem zero_notMem_staticRoot : (0 : UInt8) ∉ cfg.staticRoot.text :=
  cfg.zero_notMem_weaklyCanonical cfg.envStaticDir.zero_notMem

theorem zero_notMem_hlsRoot : (0 : UInt8) ∉ cfg.hlsRoot.text :=
  cfg.zero_notMem_weaklyCanonical
    (zero_notMem_append cfg.envDownloadDir.zero_notMem (by decide))

/-- A path that begins with a root is canonical wherever it is looked at from. -/
theorem weaklyCanonical_append (root : NormalPath) (rel : Bytes) :
    cfg.weaklyCanonical (append root.text rel) = lexicallyNormal (append root.text rel) :=
  absoluteNormal_of_isAbsolute _ (isAbsolute_append (isAbsolute_text root) rel)

theorem exists_hlsRoot : ∃ parent, cfg.hlsRoot.names = parent ++ [ascii "hls"] ∧
    cfg.hlsRoot.trailing = false := by
  have hhls : (ascii "hls").splitOn sep = [] ++ [ascii "hls"] := by decide
  have hrel : isAbsolute (ascii "hls") = false := by decide
  obtain ⟨init, hsplit, -⟩ := splitOn_append_path cfg.envDownloadDir.bytes hrel
  rw [hhls, List.nil_append] at hsplit
  have hname : IsName (ascii "hls") := by decide
  by_cases habs : isAbsolute (append cfg.envDownloadDir.bytes (ascii "hls")) = true
  · have h := names_of_splitOn hsplit hname
    rw [hlsRoot, weaklyCanonical, absoluteNormal_of_isAbsolute _ habs]
    exact ⟨_, h⟩
  · obtain ⟨init', hsplit', -⟩ := splitOn_append_path cfg.workingDirectory.bytes
      (Bool.eq_false_iff.2 habs)
    rw [hsplit, ← List.append_assoc] at hsplit'
    have h := names_of_splitOn hsplit' hname
    rw [hlsRoot, weaklyCanonical, absoluteNormal, if_neg habs]
    exact ⟨_, h⟩

end FileConfig

/-! ## What is read -/

namespace FileServer

variable {fs : FileSystem} {s : FileServer} {req : HttpRequest} {path target contentType : Bytes}

theorem reads_sendHttp (s : FileServer) (status : Nat) (contentType body : Bytes) :
    (s.sendHttp status contentType body).reads = s.reads := by
  rw [reads, sendHttp, List.filterMap_append]
  exact List.append_nil _

theorem reads_sendRaw_flush (s : FileServer) (data : Bytes) :
    (s.sendRaw data).disconnectAfterFlush.reads = s.reads := by
  rw [disconnectAfterFlush, reads_call, sendRaw, reads_call, List.append_assoc]
  exact List.append_nil _

/-- The file is read only if its bytes are streamed. -/
theorem reads_sendFileResponse (outcome : Nat → ChunkOutcome) (s : FileServer) :
    (sendFileResponse fs outcome s req path contentType).reads = s.reads ++
      match fileAnswer fs req path contentType with
      | .stream _ _ _ _ => [cString path]
      | _ => [] := by
  unfold sendFileResponse
  generalize fileAnswer fs req path contentType = answer
  cases answer with
  | notFound => exact (reads_sendHttp s _ _ _).trans (List.append_nil _).symm
  | unsatisfiable n => exact (reads_sendRaw_flush s _).trans (List.append_nil _).symm
  | headers text => exact (reads_sendRaw_flush s _).trans (List.append_nil _).symm
  | seekFailed fd => exact (reads_sendHttp _ _ _ _).trans (reads_call _ _)
  | stream text fd start length =>
    have hstart : ((s.startFileStream path fd length).sendRaw text).reads =
        s.reads ++ [cString path] := by
      rw [sendRaw, reads_call, startFileStream, reads_call]
      exact (List.append_nil _).trans (congrArg (· ++ [cString path]) (reads_resetFd s (some fd)))
    refine (reads_call _ _).trans ?_
    rw [(pumped_pumpFileStream _ outcome).reads, hstart]
    exact List.append_nil _

theorem readable_of_stream {text : Bytes} {fd : FileFd} {start length : UInt64}
    (h : fileAnswer fs req path contentType = .stream text fd start length)
    (hregular : fs.isRegularFile (cString path) = true) : fs.Readable (cString path) := by
  cases hsize : fs.fileSize (cString path) with
  | none =>
    rw [fileAnswer, hsize] at h
    exact FileAnswer.noConfusion h
  | some n =>
    obtain ⟨r, -, hanswer⟩ := exists_range_of_stream hsize h
    obtain ⟨-, hopen, hlength⟩ := answerRange_stream hanswer
    have h0 : n ≠ 0 := by
      rintro rfl
      exact hlength rfl
    exact ⟨zero_notMem_cString path, hregular, ⟨n, hsize, h0⟩, ⟨fd, hopen⟩⟩

/-- A `GET` without a range streams any file that can be read. -/
theorem stream_of_readable (fs : PosixFileSystem) (contentType : Bytes) (hpath : fs.Readable path)
    (hmethod : req.method = ascii "GET") (hrange : req.header (ascii "range") = []) :
    ∃ text fd start length,
      fileAnswer fs.toFileSystem req path contentType = .stream text fd start length := by
  obtain ⟨n, hsize, h0⟩ := hpath.fileSize
  obtain ⟨fd, hopen⟩ := hpath.openFile
  have hpath0 := cString_eq_self hpath.zero_notMem
  have hseek := fs.seeks_zero path hpath.isRegularFile
  let r : ByteRange := ⟨0, n - 1, false⟩
  have hr : requestedRange n [] = some r := by
    rw [requestedRange, if_neg fun h => absurd h.2 (by decide), if_neg h0]
  have hbody : ¬ (req.method = ascii "HEAD" ∨ r.contentLength n = 0) := by
    rintro (hm | hl)
    · rw [hmethod] at hm
      exact absurd hm (by decide)
    · have hlen := (requestedRange_inside h0 hr).length_eq
      rw [hl] at hlen
      exact absurd hlen (Nat.succ_ne_zero _).symm
  refine ⟨fileHeaders r n contentType, fd, 0, r.contentLength n, ?_⟩
  rw [fileAnswer_eq req contentType (by rw [hpath0]; exact hsize), hrange, hr]
  show answerRange _ _ _ _ _ _ = _
  unfold answerRange
  dsimp only
  rw [if_neg hbody, hpath0, hopen]
  exact if_pos hseek

/-- What `ServeHls` reads begins with the text of the root. -/
theorem reads_serveHls (fs : PosixFileSystem) (cfg : FileConfig) {outcome : Nat → ChunkOutcome}
    (h : path ∈ (serveHls fs.toFileSystem cfg outcome s req).reads) :
    path ∈ s.reads ∨ ∃ q : NormalPath, q.text = path ∧ q.names ≠ [] ∧ q.trailing = false ∧
      cfg.hlsRoot.text <+: q.text ∧ fs.Readable q.text := by
  unfold serveHls at h
  dsimp only at h
  generalize cfg.weaklyCanonical (append cfg.hlsRoot.text (urlDecode (req.path.drop 5))) =
    target at h
  split at h
  · rw [reads_sendHttp] at h
    exact .inl h
  · next htest =>
    rw [Bool.or_eq_true, not_or, Bool.not_eq_true', Bool.not_eq_false, Bool.not_eq_true',
      Bool.not_eq_false] at htest
    obtain ⟨hpre, hregular⟩ := htest
    rw [reads_sendFileResponse, List.mem_append] at h
    refine h.imp_right fun h => ?_
    split at h
    · next text fd start length hanswer =>
      obtain rfl := List.mem_singleton.1 h
      obtain ⟨q, hn, ht, hq⟩ :=
        text_of_isPrefix (cString_isPrefix target.text) (fs.isName_filename _ hregular)
      refine ⟨q, hq, hn, ht, ?_, ?_⟩
      · rw [hq]
        exact prefix_cString cfg.zero_notMem_hlsRoot (List.isPrefixOf_iff_prefix.1 hpre)
      · rw [hq]
        exact readable_of_stream hanswer hregular
    · cases h

/-- A file read by `ServeHls` is below the root or beside it. -/
theorem within_or_exposed (fs : PosixFileSystem) (cfg : FileConfig)
    {outcome : Nat → ChunkOutcome}
    (h : path ∈ (serveHls fs.toFileSystem cfg outcome s req).reads) :
    path ∈ s.reads ∨ Within cfg.hlsRoot path ∨ Exposed fs.toFileSystem cfg.hlsRoot := by
  refine (reads_serveHls fs cfg h).imp_right ?_
  rintro ⟨q, rfl, hn, ht, hpre, hreadable⟩
  obtain ⟨parent, hroot, hrt⟩ := cfg.exists_hlsRoot
  obtain ⟨x, more, hnames⟩ := names_of_text_isPrefix hroot hrt hn ht hpre
  by_cases hx : x = []
  · refine .inl ⟨more, ?_⟩
    rw [names_text, hroot, hnames, hx, List.append_nil, List.append_assoc]
    rfl
  · exact .inr ⟨q, ⟨parent, _, x, more, hroot, hx, hnames⟩, hreadable⟩

/-- The request for a path that leaves the root by `..` and comes back by `names`. -/
def siblingRequest (names : List Bytes) : HttpRequest where
  method := ascii "GET"
  target := []
  path := ascii "/hls/" ++ urlEncode (dotDot ++ names.flatMap (sep :: ·))
  query := []
  headers := []
  body := []

/-- Every readable file beside the root is read by some request for it. -/
theorem reads_siblingRequest (fs : PosixFileSystem) (cfg : FileConfig)
    (outcome : Nat → ChunkOutcome) (s : FileServer) {p : NormalPath}
    (hbeside : Beside cfg.hlsRoot p) (hreadable : fs.Readable p.text) :
    ∃ names, p.text ∈ (serveHls fs.toFileSystem cfg outcome s (siblingRequest names)).reads := by
  obtain ⟨parent, name, x, more, hroot, hx, hp⟩ := hbeside
  obtain ⟨parent', hroot', hrt⟩ := cfg.exists_hlsRoot
  have ht := trailing_of_isName (fs.isName_filename _ hreadable.isRegularFile)
  let req := siblingRequest ((name ++ x) :: more)
  have hdrop : req.path.drop 5 = urlEncode (dotDot ++ ((name ++ x) :: more).flatMap (sep :: ·)) :=
    List.drop_left' (by decide)
  have htarget :
      cfg.weaklyCanonical (append cfg.hlsRoot.text (urlDecode (req.path.drop 5))) = p := by
    rw [hdrop, urlDecode_urlEncode, cfg.weaklyCanonical_append]
    exact lexicallyNormal_append_dotDot hroot (List.cons_ne_nil _ _) hp ht
  have hpre := List.isPrefixOf_iff_prefix.2 (text_prefix_of_names hroot hrt hp)
  have hpath0 := cString_eq_self hreadable.zero_notMem
  obtain ⟨text, fd, start, length, hanswer⟩ :=
    stream_of_readable fs (hlsContentType p.text) hreadable (rfl : req.method = _) rfl
  refine ⟨(name ++ x) :: more, ?_⟩
  show _ ∈ (serveHls fs.toFileSystem cfg outcome s req).reads
  unfold serveHls
  dsimp only
  rw [htarget, hpre, hpath0, hreadable.isRegularFile, if_neg (by decide),
    reads_sendFileResponse, hanswer, hpath0]
  exact List.mem_append_right _ (List.mem_singleton_self _)

theorem reads_sendStatic (fs : FileSystem)
    (h : path ∈ (sendStatic fs s req target).reads) : path ∈ s.reads ∨ path = cString target := by
  unfold sendStatic at h
  split at h
  · rw [reads_sendHttp] at h
    exact .inl h
  · rw [reads_sendHttp, reads_call, List.mem_append] at h
    exact h.imp_right List.mem_singleton.1

/-- `index.html` is below the root. -/
theorem within_index (cfg : FileConfig) :
    Within cfg.staticRoot (cString (append cfg.staticRoot.text (ascii "index.html"))) := by
  have h0 : (0 : UInt8) ∉ append cfg.staticRoot.text (ascii "index.html") :=
    zero_notMem_append cfg.zero_notMem_staticRoot (by decide)
  have hsplit : (ascii "index.html").splitOn sep = [ascii "index.html"] := by decide
  rw [Within, cString_eq_self h0, names_append _ (by decide), names_text, hsplit]
  exact ⟨[ascii "index.html"], (enter_name (by decide) _).symm⟩

/-- A regular file that `IsWithinRoot` accepts is below the root, also where its path is cut
at a zero byte. -/
theorem within_of_isWithinRoot (fs : PosixFileSystem) (cfg : FileConfig) {target : NormalPath}
    (h : isWithinRoot cfg.staticRoot.components target.components = true)
    (hregular : fs.isRegularFile (cString target.text) = true) :
    Within cfg.staticRoot (cString target.text) := by
  obtain ⟨q, hn, ht, hq⟩ :=
    text_of_isPrefix (cString_isPrefix target.text) (fs.isName_filename _ hregular)
  have h0 : ∀ c ∈ cfg.staticRoot.names, (0 : UInt8) ∉ c := by
    intro c hc h0
    refine cfg.zero_notMem_staticRoot (List.mem_append_left _ ?_)
    exact List.mem_flatMap.2 ⟨c, hc, List.mem_cons_of_mem _ h0⟩
  rw [Within, ← hq, names_text]
  exact names_of_cString_text h0 (names_of_components_isPrefix (isWithinRoot_iff.1 h)) hn ht hq

/-- What `ServeStaticFrontend` reads is below its root. -/
theorem within_staticRoot (fs : PosixFileSystem) (cfg : FileConfig)
    (h : path ∈ (serveStaticFrontend fs.toFileSystem cfg s req).1.reads) :
    path ∈ s.reads ∨ Within cfg.staticRoot path := by
  unfold serveStaticFrontend at h
  dsimp only at h
  split at h
  · exact .inl h
  · split at h
    · rw [reads_sendHttp] at h
      exact .inl h
    · next hwithin =>
      rw [Bool.not_eq_true', Bool.not_eq_false] at hwithin
      split at h
      · split at h
        · exact .inl h
        · refine (reads_sendStatic _ h).imp_right ?_
          rintro rfl
          exact within_index cfg
      · next hregular =>
        rw [Bool.not_eq_true', Bool.not_eq_false] at hregular
        refine (reads_sendStatic _ h).imp_right ?_
        rintro rfl
        exact within_of_isWithinRoot fs cfg hwithin hregular

end FileServer

/-- **Which files are served.** `ServeStaticFrontend` reads only files below its root.
`ServeHls` does so for every request iff no readable file is beside its root. -/
theorem file_serving_within_root_iff (fs : PosixFileSystem) (cfg : FileConfig) :
    (∀ (s : FileServer) (req : HttpRequest),
      ∀ path ∈ (s.serveStaticFrontend fs.toFileSystem cfg req).1.reads,
        path ∈ s.reads ∨ Within cfg.staticRoot path) ∧
    ((∀ (outcome : Nat → ChunkOutcome) (s : FileServer) (req : HttpRequest),
      ∀ path ∈ (s.serveHls fs.toFileSystem cfg outcome req).reads,
        path ∈ s.reads ∨ Within cfg.hlsRoot path) ↔
      ¬ Exposed fs.toFileSystem cfg.hlsRoot) := by
  refine ⟨fun s req path h => FileServer.within_staticRoot fs cfg h, ?_, ?_⟩
  · rintro hall ⟨p, hbeside, hreadable⟩
    obtain ⟨names, hread⟩ :=
      FileServer.reads_siblingRequest fs cfg (fun _ => {}) {} hbeside hreadable
    rcases hall _ _ _ _ hread with h | h
    · cases h
    · exact not_within_of_beside hbeside h
  · intro hexposed outcome s req path h
    refine (FileServer.within_or_exposed fs cfg h).imp_right fun h => ?_
    exact h.resolve_right hexposed

/-- The one file is `/d/hls2/s`, of one byte. -/
def siblingFile : PosixFileSystem where
  isDirectory _ := false
  isRegularFile path := path == ascii "/d/hls2/s"
  fileSize _ := some 1
  openFile _ := some 0
  seeks _ _ := true
  readFile _ := [0]
  isName_filename := by
    intro path h
    rw [beq_iff_eq.1 h]
    decide
  seeks_zero _ _ := rfl

/-- With the downloads in `/d`, a request for `/hls/../hls2/s` streams the file `s` of
`/d/hls2`, which is not below `/d/hls`. -/
theorem hls_serves_sibling :
    let cfg : FileConfig :=
      { downloadDir := some ⟨ascii "/d", by decide⟩
        workingDirectory := ⟨ascii "/", by decide⟩ }
    let req := parseHead (ascii "GET /hls/../hls2/s HTTP/1.1")
    (FileServer.serveHls siblingFile.toFileSystem cfg (fun _ => {}) {} req).reads =
      [ascii "/d/hls2/s"] ∧
    ¬ Within cfg.hlsRoot (ascii "/d/hls2/s") := by
  decide +kernel

end ActivityServer

end IouringRuntime
