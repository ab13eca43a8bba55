import IouringRuntime.Web.ParserReplay

/-!
# Requests do not depend on how the stream is cut

Cut at other places, a stream gives the same callbacks of llhttp up to the
splitting of data callbacks (`Llhttp.Recut`). `atoms` splits them all into single
bytes, and a data callback is answered as its bytes one by one are
(`Accumulates.agree`), because the limits are on sums; so two cuttings are
answered alike (`agree_emits`). What is delivered is within the limits since each
counter bounds what has been stored (`Bounded`).
-/

namespace IouringRuntime

/-- The bytes of a data callback. -/
def LlCall.bytes : LlCall → Bytes
  | .url data | .headerField data | .headerValue data | .body data => data
  | _ => []

/-- A data callback split into single bytes. -/
def LlCall.atoms : LlCall → List LlCall
  | .url data => data.map fun b => .url [b]
  | .headerField data => data.map fun b => .headerField [b]
  | .headerValue data => data.map fun b => .headerValue [b]
  | .body data => data.map fun b => .body [b]
  | c => [c]

/-- Behind the end of a message comes the beginning of the next. -/
def LlCall.Begins : List LlCall → Prop
  | [] => True
  | c :: rest =>
    (c = .messageComplete → ∀ d ∈ rest.head?, d = .messageBegin) ∧ LlCall.Begins rest

instance LlCall.decidableBegins : ∀ calls : List LlCall, Decidable (LlCall.Begins calls)
  | [] => .isTrue trivial
  | c :: rest =>
    have := LlCall.decidableBegins rest
    inferInstanceAs (Decidable ((c = .messageComplete → ∀ d ∈ rest.head?, d = .messageBegin) ∧
      LlCall.Begins rest))

namespace Llhttp

variable (L : Llhttp)

/-- Two cuttings of one stream, on which llhttp makes the same callbacks up to
the splitting of data callbacks. -/
structure Recut (cs cs' : List Bytes) : Prop where
  stream : cs.flatten = cs'.flatten
  calls : (L.emits L.init cs).1.flatMap LlCall.atoms = (L.emits L.init cs').1.flatMap LlCall.atoms
  failed : (L.emits L.init cs).2.isNone = (L.emits L.init cs').2.isNone

/-- llhttp begins each message with `on_message_begin`, and its data callbacks
point into the chunk. -/
structure Orderly (cs : List Bytes) : Prop where
  begins : LlCall.Begins (L.emits L.init cs).1
  spans : ∀ c ∈ (L.emits L.init cs).1, c.bytes.length < 2 ^ 32

end Llhttp

namespace HttpRequest

/-- The URL: the path, and the query with its question mark. -/
def urlBytes (r : HttpRequest) : Nat :=
  r.path.length + if r.query = [] then 0 else r.query.length + 1

/-- The names and values of the headers. -/
def headerBytes (r : HttpRequest) : Nat := (r.headers.flatMap fun h => h.name ++ h.value).length

end HttpRequest

/-- `on_headers_` leaves the body to the parser. -/
def HttpHandlers.Buffers (H : HttpHandlers) : Prop := ∀ n r, (H.onHeaders n r).2 = .buffer

/-- `on_headers_` makes neither URL nor headers nor body of the request longer. -/
structure HttpHandlers.Keeps (H : HttpHandlers) : Prop where
  url : ∀ n r, (H.onHeaders n r).1.urlBytes ≤ r.urlBytes
  headers : ∀ n r, (H.onHeaders n r).1.headerBytes ≤ r.headerBytes
  body : ∀ n r, (H.onHeaders n r).1.body.length ≤ r.body.length

/-- The options are 32-bit numbers. -/
structure HttpParserOptions.Words (o : HttpParserOptions) : Prop where
  url : o.maxUrlBytes < 2 ^ 32
  headers : o.maxHeaderBytes < 2 ^ 32
  body : o.maxBodyBytes < 2 ^ 32

namespace HttpParser

variable {L : Llhttp} {H : HttpHandlers} {p : HttpParser L} {c : LlCall} {l l' : List LlCall}

/-! ## Splitting data callbacks -/

/-- The counters are within the limits, and the body is buffered. -/
structure Within (o : HttpParserOptions) (p : HttpParser L) : Prop where
  options : p.options = o
  url : p.rawUrl.length ≤ o.maxUrlBytes
  headers : p.headerBytesUsed ≤ o.maxHeaderBytes
  body : p.bodyBytesSeen ≤ o.maxBodyBytes
  mode : p.bodyMode = .buffer

variable {o : HttpParserOptions}

theorem within_callback (hH : H.Buffers) (hp : Within o p) (hc : (p.callback H c).2 ≠ .user) :
    Within o (p.callback H c).1 := by
  cases c with
  | messageBegin => exact ⟨hp.options, Nat.zero_le _, Nat.zero_le _, Nat.zero_le _, rfl⟩
  | url data =>
    simp only [callback, onUrl, hp.options] at hc ⊢
    split at hc
    · exact absurd rfl hc
    · next hle =>
      rw [if_neg hle]
      exact { hp with options := rfl, url := by simpa using hle }
  | headerField data | headerValue data =>
    simp only [callback, onHeaderField, onHeaderValue, onHeaderBytes, hp.options] at hc ⊢
    split at hc
    · exact absurd rfl hc
    · next hle =>
      rw [if_neg hle]
      exact { hp with options := rfl, headers := Nat.le_of_not_lt hle }
  | headersComplete method keepAlive =>
    simp only [callback, onHeadersComplete] at hc ⊢
    split at hc
    · exact absurd rfl hc
    · next hle =>
      rw [if_neg hle]
      exact { hp with mode := hH _ _ }
  | body data =>
    simp only [callback, onBody, hp.mode, hp.options] at hc ⊢
    split at hc
    · exact absurd rfl hc
    · next hle =>
      rw [if_neg hle]
      exact ⟨rfl, hp.url, hp.headers, Nat.le_of_not_lt hle, rfl⟩
  | messageComplete =>
    simp only [callback, onMessageComplete]
    split <;> exact { hp with }
  | urlComplete | headerFieldComplete | headerValueComplete => exact { hp with }

/-- Callbacks of this kind add their bytes to what `used` counts, up to `limit`. -/
structure Accumulates (H : HttpHandlers) (kind : Bytes → LlCall) (used limit : HttpParser L → Nat)
    (status : HttpParseStatus) (take : HttpParser L → Bytes → HttpParser L) : Prop where
  data : ∀ a, kind a ≠ .messageComplete
  callback : ∀ p a, p.bodyMode = .buffer → p.callback H (kind a) =
    if limit p < used p + a.length then ({ p with status }, .user) else (take p a, .ok)
  used : ∀ p a, used (take p a) = used p + a.length
  limit : ∀ p a, limit (take p a) = limit p
  mode : ∀ p a, (take p a).bodyMode = p.bodyMode
  nil : ∀ p, take p [] = p
  append : ∀ p a b, take (take p a) b = take p (a ++ b)

/-- The two replays deliver the same and end alike. -/
structure Agree (R R' : Replay L) : Prop where
  ended : R.ended = R'.ended
  status : R.parser.status = R'.parser.status
  delivered : delivered R.made = delivered R'.made
  parser : R.ended = false → R.parser = R'.parser

theorem Agree.refl (R : Replay L) : Agree R R := ⟨rfl, rfl, rfl, fun _ => rfl⟩

theorem Agree.symm {R R' : Replay L} (h : Agree R R') : Agree R' R :=
  ⟨h.ended.symm, h.status.symm, h.delivered.symm, fun he => (h.parser (h.ended.trans he)).symm⟩

theorem Agree.trans {R R' R'' : Replay L} (h : Agree R R') (h' : Agree R' R'') : Agree R R'' :=
  ⟨h.ended.trans h'.ended, h.status.trans h'.status, h.delivered.trans h'.delivered,
    fun he => (h.parser he).trans (h'.parser (h.ended.symm.trans he))⟩

/-- Replays that agree leave the same status, when llhttp reports an error behind
both or none. -/
theorem Agree.status_outcome {R R' : Replay L} {failed failed' : Bool} (h : Agree R R')
    (hf : failed = failed') :
    (R.outcome failed).status = (R'.outcome failed').status := by
  subst hf
  unfold Replay.outcome
  rw [← h.ended]
  split
  · next hend => rw [← h.parser hend.1]
  · exact h.status

theorem delivered_data (hc : c ≠ .messageComplete) (p : HttpParser L)
    (made : List (LlCall × HttpParser L)) : delivered ((c, p) :: made) = delivered made := by
  simp [delivered, hc]

theorem delivered_append (made made' : List (LlCall × HttpParser L)) :
    delivered (made ++ made') = delivered made ++ delivered made' := List.filterMap_append

/-- A data callback is answered as its bytes one by one are. -/
theorem Accumulates.agree {kind : Bytes → LlCall} {used limit : HttpParser L → Nat}
    {status : HttpParseStatus} {take : HttpParser L → Bytes → HttpParser L}
    (hA : Accumulates H kind used limit status take) (a : Bytes) (hm : p.bodyMode = .buffer)
    (hp : used p ≤ limit p) :
    Agree (replay H [kind a] p) (replay H (a.map fun b => kind [b]) p) := by
  induction a generalizing p with
  | nil =>
    have hcall : p.callback H (kind []) = (p, .ok) := by
      rw [hA.callback p [] hm, List.length_nil, Nat.add_zero, if_neg (Nat.not_lt.2 hp), hA.nil]
    rw [replay_ok hcall]
    exact ⟨rfl, rfl, delivered_data (hA.data _) p _, fun _ => rfl⟩
  | cons b rest ih =>
    have hwhole := hA.callback p (b :: rest) hm
    have hfirst := hA.callback p [b] hm
    rw [List.length_cons] at hwhole
    rw [List.length_singleton] at hfirst
    rw [List.map_cons]
    by_cases hlt : limit p < used p + 1
    · -- the first byte is too much already
      rw [if_pos (by omega)] at hwhole
      rw [if_pos hlt] at hfirst
      rw [replay_user hwhole, replay_user hfirst]
      refine ⟨rfl, rfl, ?_, fun he => by cases he⟩
      rw [delivered_data (hA.data _), delivered_data (hA.data _)]
    · rw [if_neg hlt] at hfirst
      rw [replay_ok hfirst]
      have hrest := hA.callback (take p [b]) rest ((hA.mode p [b]).trans hm)
      rw [hA.used, hA.limit, List.length_singleton, hA.append] at hrest
      have hih := ih (p := take p [b]) ((hA.mode p [b]).trans hm) (by
        rw [hA.used, hA.limit, List.length_singleton]
        omega)
      have hsplit : Agree (replay H [kind (b :: rest)] p)
          ((replay H [kind rest] (take p [b])).after (kind [b], p)) := by
        by_cases hlt' : limit p < used p + (rest.length + 1)
        · rw [if_pos hlt'] at hwhole
          rw [if_pos (by omega)] at hrest
          rw [replay_user hwhole, replay_user hrest]
          refine ⟨rfl, rfl, ?_, fun he => by cases he⟩
          simp only [Replay.after, delivered_data (hA.data _)]
        · rw [if_neg hlt'] at hwhole
          rw [if_neg (by omega)] at hrest
          rw [replay_ok hwhole, replay_ok hrest]
          refine ⟨rfl, rfl, ?_, fun _ => rfl⟩
          simp only [Replay.after, replay, delivered_data (hA.data _)]
      refine hsplit.trans ⟨hih.ended, hih.status, ?_, hih.parser⟩
      simp only [Replay.after, delivered_data (hA.data _)]
      exact hih.delivered

theorem accumulates_url : Accumulates (L := L) H .url (fun p => p.rawUrl.length)
    (fun p => p.options.maxUrlBytes) .urlTooLong fun p a => { p with rawUrl := p.rawUrl ++ a } where
  data a h := by cases h
  callback p a _ := rfl
  used p a := List.length_append
  limit p a := rfl
  mode p a := rfl
  nil p := by rw [List.append_nil]
  append p a b := by simp only [List.append_assoc]

theorem accumulates_headerField : Accumulates (L := L) H .headerField (fun p => p.headerBytesUsed)
    (fun p => p.options.maxHeaderBytes) .headersTooLarge fun p a =>
      { p with
        headerBytesUsed := p.headerBytesUsed + a.length
        currentHeaderField := p.currentHeaderField ++ a } where
  data a h := by cases h
  callback p a _ := rfl
  used p a := rfl
  limit p a := rfl
  mode p a := rfl
  nil p := by rw [List.append_nil]; rfl
  append p a b := by simp only [List.append_assoc, List.length_append, Nat.add_assoc]

theorem accumulates_headerValue : Accumulates (L := L) H .headerValue (fun p => p.headerBytesUsed)
    (fun p => p.options.maxHeaderBytes) .headersTooLarge fun p a =>
      { p with
        headerBytesUsed := p.headerBytesUsed + a.length
        currentHeaderValue := p.currentHeaderValue ++ a } where
  data a h := by cases h
  callback p a _ := rfl
  used p a := rfl
  limit p a := rfl
  mode p a := rfl
  nil p := by rw [List.append_nil]; rfl
  append p a b := by simp only [List.append_assoc, List.length_append, Nat.add_assoc]

theorem accumulates_body : Accumulates (L := L) H .body (fun p => p.bodyBytesSeen)
    (fun p => p.options.maxBodyBytes) .bodyTooLarge fun p a =>
      { p with
        bodyBytesSeen := p.bodyBytesSeen + a.length
        request := { p.request with body := p.request.body ++ a } } where
  data a h := by cases h
  callback p a hm := by simp only [callback, onBody, hm]
  used p a := rfl
  limit p a := rfl
  mode p a := rfl
  nil p := by rw [List.append_nil]; rfl
  append p a b := by simp only [List.append_assoc, List.length_append, Nat.add_assoc]

theorem agree_atoms (hp : Within o p) (c : LlCall) :
    Agree (replay H [c] p) (replay H c.atoms p) := by
  have hurl : p.rawUrl.length ≤ p.options.maxUrlBytes := hp.options ▸ hp.url
  have hheaders : p.headerBytesUsed ≤ p.options.maxHeaderBytes := hp.options ▸ hp.headers
  have hbody : p.bodyBytesSeen ≤ p.options.maxBodyBytes := hp.options ▸ hp.body
  cases c with
  | url data => exact accumulates_url.agree data hp.mode hurl
  | headerField data => exact accumulates_headerField.agree data hp.mode hheaders
  | headerValue data => exact accumulates_headerValue.agree data hp.mode hheaders
  | body data => exact accumulates_body.agree data hp.mode hbody
  | _ => exact .refl _

/-- What is replayed behind agreeing callbacks. -/
theorem Agree.append {m m' : List LlCall} (h : Agree (replay H l p) (replay H l' p))
    (hgo : (replay H l p).ended = false →
      Agree (replay H m (replay H l p).parser) (replay H m' (replay H l p).parser)) :
    Agree (replay H (l ++ m) p) (replay H (l' ++ m') p) := by
  rw [replay_append, replay_append, ← h.ended]
  cases hend : (replay H l p).ended with
  | true => exact h
  | false =>
    have hrest := hgo hend
    rw [← h.parser hend]
    refine ⟨hrest.ended, hrest.status, ?_, hrest.parser⟩
    show HttpParser.delivered (_ ++ _) = HttpParser.delivered (_ ++ _)
    rw [delivered_append, delivered_append, h.delivered, hrest.delivered]

/-- Every callback of a replay finds the counters within the limits. -/
theorem within_replay (hH : H.Buffers) (l : List LlCall) (hp : Within o p) :
    (∀ m ∈ (replay H l p).made, Within o m.2) ∧
      ((replay H l p).ended = false → Within o (replay H l p).parser) := by
  induction l generalizing p with
  | nil => exact ⟨fun m hm => (by cases hm), fun _ => hp⟩
  | cons c rest ih =>
    simp only [replay]
    split
    · refine ⟨fun m hm => ?_, fun h => by cases h⟩
      rw [List.mem_singleton.1 hm]
      exact hp
    · next hgo =>
      obtain ⟨hmade, hlast⟩ := ih (within_callback hH hp fun hu => hgo (.inl hu))
      exact ⟨List.forall_mem_cons.2 ⟨hp, hmade⟩, hlast⟩

theorem agree_flatMap (hH : H.Buffers) (l : List LlCall) (hp : Within o p) :
    Agree (replay H l p) (replay H (l.flatMap LlCall.atoms) p) := by
  induction l generalizing p with
  | nil => exact .refl _
  | cons c rest ih =>
    rw [List.flatMap_cons, ← List.singleton_append]
    exact (agree_atoms hp c).append fun hend => ih ((within_replay hH [c] hp).2 hend)

/-! ## The limits -/

/-- What the request holds is covered by the counters. -/
structure Bounded (o : HttpParserOptions) (p : HttpParser L) : Prop where
  url : p.request.urlBytes ≤ o.maxUrlBytes
  headers : p.request.headerBytes + p.currentHeaderField.length + p.currentHeaderValue.length ≤
    p.headerBytesUsed
  body : p.request.body.length ≤ p.bodyBytesSeen

theorem urlBytes_parseUrl (p : HttpParser L) (url : Bytes) :
    (p.parseUrl url).request.urlBytes ≤ url.length := by
  have hsplit := congrArg List.length (List.takeWhile_append_dropWhile (p := (· != 63)) (l := url))
  rw [List.length_append] at hsplit
  unfold HttpRequest.urlBytes
  by_cases hq : (p.parseUrl url).request.query = []
  · rw [if_pos hq]
    show (url.takeWhile (· != 63)).length + 0 ≤ _
    omega
  · have hlen : (p.parseUrl url).request.query.length = (url.dropWhile (· != 63)).length - 1 :=
      List.length_drop
    have hpos := List.length_pos_iff.2 hq
    rw [if_neg hq]
    show (url.takeWhile (· != 63)).length + _ ≤ _
    omega

theorem bounded_callback (hK : H.Keeps) (hw : Within o p) (hp : Bounded o p)
    (hc : c ≠ .messageComplete) (hu : (p.callback H c).2 ≠ .user) :
    Bounded o (p.callback H c).1 := by
  cases c with
  | messageBegin => exact ⟨Nat.zero_le _, Nat.zero_le _, Nat.zero_le _⟩
  | messageComplete => exact absurd rfl hc
  | url data =>
    simp only [callback, onUrl] at hu ⊢
    split at hu
    · exact absurd rfl hu
    · next hle =>
      rw [if_neg hle]
      exact { hp with }
  | urlComplete =>
    exact { hp with url := Nat.le_trans (urlBytes_parseUrl p p.rawUrl) hw.url }
  | headerField data | headerValue data =>
    simp only [callback, onHeaderField, onHeaderValue, onHeaderBytes] at hu ⊢
    split at hu
    · exact absurd rfl hu
    · next hle =>
      rw [if_neg hle]
      refine { hp with headers := ?_ }
      have := hp.headers
      simp only [List.length_append]
      omega
  | headerFieldComplete => exact hp
  | headerValueComplete =>
    refine { hp with headers := ?_ }
    have := hp.headers
    simp only [callback, onHeaderValueComplete, HttpRequest.addHeader, HttpRequest.headerBytes,
      List.flatMap_append, List.flatMap_singleton, List.length_append, List.length_nil] at this ⊢
    omega
  | headersComplete method keepAlive =>
    simp only [callback, onHeadersComplete] at hu ⊢
    split at hu
    · exact absurd rfl hu
    · next hle =>
      rw [if_neg hle]
      exact {
        url := Nat.le_trans (hK.url _ _) hp.url
        headers := by
          have := hK.headers p.handlerCalls
            { p.request with method := .fromLlhttp method, keepAlive := keepAlive }
          have hold := hp.headers
          simp only [HttpRequest.headerBytes] at this hold ⊢
          omega
        body := Nat.le_trans (hK.body _ _) hp.body }
  | body data =>
    simp only [callback, onBody, hw.mode] at hu ⊢
    split at hu
    · exact absurd rfl hu
    · next hle =>
      rw [if_neg hle]
      refine { hp with body := ?_ }
      have := hp.body
      simp only [List.length_append]
      omega

/-- Every request is bounded when it is delivered. -/
theorem bounded_delivered (hH : H.Buffers) (hK : H.Keeps) (l : List LlCall)
    (hl : LlCall.Begins l) (hw : Within o p)
    (hp : Bounded o p ∨ ∀ c ∈ l.head?, c = .messageBegin) :
    ∀ m ∈ (replay H l p).made, m.1 = .messageComplete → Bounded o m.2 := by
  induction l generalizing p with
  | nil => intro m hm; cases hm
  | cons c rest ih =>
    have hhere (hc : c = .messageComplete) : Bounded o p := by
      rcases hp with hp | hp
      · exact hp
      · cases (hp c rfl).symm.trans hc
    simp only [replay]
    split
    · intro m hm hc
      rw [List.mem_singleton.1 hm] at hc ⊢
      exact hhere hc
    · next hgo =>
      have hu : (p.callback H c).2 ≠ .user := fun hu => hgo (.inl hu)
      refine List.forall_mem_cons.2 ⟨hhere, ih hl.2 (within_callback hH hw hu) ?_⟩
      by_cases hc : c = .messageComplete
      · exact .inr (hl.1 hc)
      · refine .inl ?_
        rcases hp with hp | hp
        · exact bounded_callback hK hw hp hc hu
        · obtain rfl := hp c rfl
          exact ⟨Nat.zero_le _, Nat.zero_le _, Nat.zero_le _⟩

/-! ## Words -/

/-- The sums of a callback do not wrap: `size_t` in the tests and for the URL,
32 bits for `header_bytes_used_` and 64 for `body_bytes_seen_`, to which the
length is added as a 32-bit number. -/
def NoWrap (p : HttpParser L) : LlCall → Prop
  | .url data => (p.rawUrl.length + data.length) % 2 ^ 64 = p.rawUrl.length + data.length
  | .headerField data | .headerValue data =>
    (p.headerBytesUsed + data.length) % 2 ^ 64 = p.headerBytesUsed + data.length ∧
      (p.headerBytesUsed + data.length ≤ p.options.maxHeaderBytes →
        (p.headerBytesUsed + data.length % 2 ^ 32) % 2 ^ 32 = p.headerBytesUsed + data.length)
  | .body data =>
    (p.bodyBytesSeen + data.length) % 2 ^ 64 = p.bodyBytesSeen + data.length ∧
      (p.bodyBytesSeen + data.length ≤ p.options.maxBodyBytes →
        (p.bodyBytesSeen + data.length % 2 ^ 32) % 2 ^ 64 = p.bodyBytesSeen + data.length)
  | _ => True

theorem noWrap_of_within (ho : o.Words) (hp : Within o p) (hc : c.bytes.length < 2 ^ 32) :
    p.NoWrap c := by
  have hurl := ho.url
  have hheaders := ho.headers
  have hbody := ho.body
  have hpurl := hp.url
  have hpheaders := hp.headers
  have hpbody := hp.body
  cases c with
  | url data =>
    have hc : data.length < 2 ^ 32 := hc
    exact Nat.mod_eq_of_lt (by omega)
  | headerField data | headerValue data =>
    have hc : data.length < 2 ^ 32 := hc
    refine ⟨Nat.mod_eq_of_lt (by omega), fun hle => ?_⟩
    rw [hp.options] at hle
    rw [Nat.mod_eq_of_lt hc]
    exact Nat.mod_eq_of_lt (by omega)
  | body data =>
    have hc : data.length < 2 ^ 32 := hc
    refine ⟨Nat.mod_eq_of_lt (by omega), fun hle => ?_⟩
    rw [Nat.mod_eq_of_lt hc]
    exact Nat.mod_eq_of_lt (by omega)
  | _ => trivial

theorem noWrap_forget (p : HttpParser L) (c : LlCall) : p.forget.NoWrap c ↔ p.NoWrap c := by
  cases c <;> exact Iff.rfl

theorem mem_of_made (l : List LlCall) (p : HttpParser L) :
    ∀ m ∈ (replay H l p).made, m.1 ∈ l := by
  induction l generalizing p with
  | nil => intro m hm; cases hm
  | cons c rest ih =>
    simp only [replay]
    split
    · intro m hm
      rw [List.mem_singleton.1 hm]
      exact List.mem_cons_self ..
    · refine List.forall_mem_cons.2 ⟨List.mem_cons_self .., fun m hm => ?_⟩
      exact List.mem_cons_of_mem _ (ih _ m hm)

/-! ## Two cuttings of a stream -/

theorem delivered_forgetAll (made : List (LlCall × HttpParser L)) :
    delivered (forgetAll made) = delivered made := by
  simp only [delivered, forgetAll, List.filterMap_map]
  rfl

theorem within_make (o : HttpParserOptions) : Within o (make L o) :=
  ⟨rfl, Nat.zero_le _, Nat.zero_le _, Nat.zero_le _, rfl⟩

theorem bounded_make (o : HttpParserOptions) : Bounded o (make L o) :=
  ⟨Nat.zero_le _, Nat.zero_le _, Nat.zero_le _⟩

/-- The callbacks of two cuttings are answered alike. -/
theorem agree_emits (hH : H.Buffers) (hp : Within o p) {cs cs' : List Bytes}
    (hcut : L.Recut cs cs') :
    Agree (replay H (L.emits L.init cs).1 p) (replay H (L.emits L.init cs').1 p) := by
  have h := agree_flatMap hH (L.emits L.init cs).1 hp
  have h' := agree_flatMap hH (L.emits L.init cs').1 hp
  rw [hcut.calls] at h
  exact h.trans h'.symm

/-- A parser for lines: each is the URL of a message, and a line that goes on in
the next chunk is handed over in two parts. -/
def lineCalls : Bytes → Bool → Nat → Bytes → List (LlCall × Nat × Bool)
  | [], begun, pos, span => if span = [] then [] else [(.url span, pos, begun)]
  | b :: rest, begun, pos, span =>
    (if begun then [] else [(.messageBegin, pos, true)]) ++
      if b = 10 then
        [(.url span, pos, true), (.urlComplete, pos, true), (.headersComplete 1 true, pos + 1, true),
          (.messageComplete, pos + 1, false)] ++ lineCalls rest false (pos + 1) []
      else lineCalls rest true (pos + 1) (span ++ [b])

def lineLlhttp : Llhttp where
  State := Bool
  init := false
  calls begun input := lineCalls input begun 0 []
  finish begun input := .ok (input.foldl (fun _ b => b != 10) begun)

theorem mem_lineCalls {input : Bytes} {begun : Bool} {pos : Nat} {span : Bytes}
    {c : LlCall × Nat × Bool} (hc : c ∈ lineCalls input begun pos span) :
    c.2.1 ≤ pos + input.length ∧ (c.1 = .messageComplete → 0 < c.2.1) := by
  induction input generalizing begun pos span with
  | nil =>
    unfold lineCalls at hc
    split at hc
    · cases hc
    · rw [List.mem_singleton.1 hc]
      exact ⟨Nat.le_refl _, fun h => by cases h⟩
  | cons b rest ih =>
    rw [List.length_cons]
    rcases List.mem_append.1 hc with hc | hc
    · split at hc
      · cases hc
      · rw [List.mem_singleton.1 hc]
        exact ⟨Nat.le_add_right _ _, fun h => by cases h⟩
    · split at hc
      · rcases List.mem_append.1 hc with hc | hc
        · simp only [List.mem_cons, List.not_mem_nil, or_false] at hc
          rcases hc with rfl | rfl | rfl | rfl <;> refine ⟨?_, ?_⟩ <;> simp
        · have := ih hc
          exact ⟨by omega, this.2⟩
      · have := ih hc
        exact ⟨by omega, this.2⟩

theorem lineLlhttp_lawful : lineLlhttp.Lawful where
  call_le _ _ _ hc := by simpa using (mem_lineCalls hc).1
  complete_pos _ _ _ hc := (mem_lineCalls hc).2
  finish_le _ _ _ h := by cases h

/-- Handlers that read the request and go on. -/
def readingHandlers : HttpHandlers where
  onHeaders _ r := (r, .buffer)
  onBodyChunk _ r _ := (r, true)
  onRequest _ r := (r, true)

/-- Two lines in one chunk. -/
def linesWhole : List (Nat × Bytes) := [(1000, ascii "a?b\nc\n")]

/-- The same, cut inside the first line and before the end of the second. -/
def linesCut : List (Nat × Bytes) := [(1000, ascii "a?"), (2000, ascii "b\nc"), (1000, ascii "\n")]

example : (delivered ((make lineLlhttp {}).feedAll readingHandlers linesCut).2).map
    (fun r => (r.path, r.query)) = [(ascii "a", ascii "b"), (ascii "c", [])] := by
  decide

end HttpParser

end IouringRuntime
