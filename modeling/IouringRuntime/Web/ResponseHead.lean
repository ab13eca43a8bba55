import IouringRuntime.Streaming.Search
import IouringRuntime.Web.HttpResponse

/-!
# The head of a response

`SerializeHeaders` prints a status line and one line for each header; `splitHead`
takes a response apart again. The two are inverse to each other exactly when the
caller's names and values cannot be mistaken for the ends of lines and names.
Nothing in `HttpResponse` checks that.
-/

namespace IouringRuntime

open Search

/-! ## Texts without line breaks -/

theorem mem_decimal {n : Nat} {c : UInt8} (h : c ∈ decimal n) : 48 ≤ c ∧ c ≤ 57 := by
  obtain ⟨d, hd, rfl⟩ := List.mem_map.1 h
  have hdigit := Nat.isDigit_of_mem_toDigits (by decide) (by decide) hd
  rw [Char.isDigit, Bool.and_eq_true, decide_eq_true_eq, decide_eq_true_eq, ge_iff_le,
    UInt32.le_iff_toNat_le, UInt32.le_iff_toNat_le] at hdigit
  have h48 : ('0' : Char).val.toNat = 48 := rfl
  have h57 : ('9' : Char).val.toNat = 57 := rfl
  rw [UInt8.le_iff_toNat_le, UInt8.le_iff_toNat_le, UInt32.toNat_toUInt8]
  show 48 ≤ _ ∧ _ ≤ 57
  omega

theorem not_infix_crlf {x : Bytes} (h : (13 : UInt8) ∉ x) : ¬ crlf <:+: x :=
  fun hx => h (hx.subset List.mem_cons_self)

theorem cr_notMem_decimal (n : Nat) : (13 : UInt8) ∉ decimal n :=
  fun h => absurd (mem_decimal h).1 (by decide)

theorem cr_notMem_twoDigits (n : Nat) : (13 : UInt8) ∉ twoDigits n := by
  unfold twoDigits
  split
  · rw [List.mem_append, not_or]
    exact ⟨by decide, cr_notMem_decimal n⟩
  · exact cr_notMem_decimal n

theorem cr_notMem_currentHttpDate (tm : Tm) : (13 : UInt8) ∉ currentHttpDate tm := by
  have hwday : ∀ d, (13 : UInt8) ∉ wdayName d := by decide
  have hmon : ∀ m, (13 : UInt8) ∉ monName m := by decide
  have hfixed : ∀ s ∈ [", ", " ", ":", " GMT"], (13 : UInt8) ∉ ascii s := by decide
  simp only [List.forall_mem_cons] at hfixed
  simp only [currentHttpDate, List.mem_append, hwday, hmon, hfixed, cr_notMem_twoDigits,
    cr_notMem_decimal, or_self, not_false_iff]

namespace HttpResponse

/-- A response taken apart: at the first empty line, at the ends of the lines
before it, and each line but the first at the first `: `. -/
structure Parsed where
  statusLine : Bytes
  headers : List (Option (Bytes × Bytes))
  body : Bytes
  deriving DecidableEq, Repr

def splitHead (response : Bytes) : Option Parsed :=
  match cut (crlf ++ crlf) response with
  | none => none
  | some (head, body) =>
    match splitOn crlf head with
    | [] => none
    | statusLine :: lines => some ⟨statusLine, lines.map (cut (ascii ": ")), body⟩

def statusLine (r : HttpResponse) : Bytes :=
  ascii "HTTP/1.1 " ++ decimal r.status.code ++ ascii " " ++ ascii r.status.text

/-- The headers that are printed: the default ones the caller has not added, and
the caller's. -/
def emitted (r : HttpResponse) (date : Bytes) (bodySize : Nat) : List HttpHeader :=
  (if r.callerHas "Server" then []
    else [⟨ascii "Server", ascii "iouring_runtime_web"⟩]) ++
  (if r.callerHas "Date" then [] else [⟨ascii "Date", date⟩]) ++
  (if r.callerHas "Content-Type" || r.contentType.isEmpty then []
    else [⟨ascii "Content-Type", r.contentType⟩]) ++
  (if r.callerHas "Content-Length" || r.status.mustNotHaveBody then []
    else [⟨ascii "Content-Length", decimal bodySize⟩]) ++
  (if r.callerHas "Connection" then []
    else [⟨ascii "Connection", ascii (if r.keepAlive then "keep-alive" else "close")⟩]) ++
  r.headers.filter fun h =>
    !(r.status.mustNotHaveBody && headerNameEquals h.name (ascii "Content-Length"))

/-- How often a header is among the given ones. -/
def occurrences (headers : List HttpHeader) (name : String) : Nat :=
  headers.countP fun h => headerNameEquals h.name (ascii name)

/-- The name ends at the first `: ` and the line at the first line break. -/
def Clean (h : HttpHeader) : Prop :=
  ¬ crlf <:+: h.name ∧ ¬ ascii ": " <:+: h.name ∧ ¬ crlf <:+: h.value

def line (h : HttpHeader) : Bytes := h.name ++ ascii ": " ++ h.value

theorem serializeHeaders_eq (r : HttpResponse) (date : Bytes) (bodySize : Nat) :
    r.serializeHeaders date bodySize =
      join crlf (r.statusLine :: (r.emitted date bodySize).map line) ++ (crlf ++ crlf) := by
  have hdefault : ∀ (c : Bool) (h : HttpHeader), (if c then [] else [h]).flatMap
      (fun h => line h ++ crlf) = if c then [] else headerLine h.name h.value := by
    intro c h
    cases c with
    | true => rfl
    | false => exact List.append_nil _
  have hcaller : ∀ p : HttpHeader → Bool, (r.headers.filter fun h => !p h).flatMap
      (fun h => line h ++ crlf) = r.headers.flatMap fun h =>
        if p h then [] else headerLine h.name h.value := by
    intro p
    induction r.headers with
    | nil => rfl
    | cons h t ih =>
      rw [List.flatMap_cons, ← ih, List.filter_cons]
      cases p h <;> rfl
  rw [← List.append_assoc, join_append (by simp), List.flatMap_cons, List.flatMap_map]
  simp only [emitted, List.flatMap_append, hdefault, hcaller]
  simp only [serializeHeaders, statusLine, List.append_assoc]

theorem infix_line {h : HttpHeader} :
    crlf <:+: line h ↔ crlf <:+: h.name ∨ crlf <:+: h.value := by
  have hsep : ascii ": " = [58, 32] := by decide
  rw [line, hsep, List.append_assoc, List.cons_append, List.singleton_append,
    infix_append_cons (by decide), ← List.nil_append (32 :: h.value),
    infix_append_cons (by decide)]
  have hnil : ¬ crlf <:+: [] := by decide
  simp [hnil]

theorem not_infix_line {h : HttpHeader} (hc : Clean h) : ¬ crlf <:+: line h := by
  rw [infix_line, not_or]
  exact ⟨hc.1, hc.2.2⟩

theorem cut_line {h : HttpHeader} (hc : Clean h) :
    cut (ascii ": ") (line h) = some (h.name, h.value) :=
  cut_append (by decide) hc.2.1 h.value

theorem line_ne_nil (h : HttpHeader) : line h ≠ [] := by
  have hsep : ascii ": " ≠ [] := by decide
  simp [line, hsep]

theorem statusLine_clean (r : HttpResponse) : ¬ crlf <:+: r.statusLine ∧ r.statusLine ≠ [] := by
  have htext : ∀ s : HttpStatus, (13 : UInt8) ∉ ascii s.text := by
    intro s
    cases s <;> decide
  have hfixed : (13 : UInt8) ∉ ascii "HTTP/1.1 " ∧ (13 : UInt8) ∉ ascii " " := by decide
  have hne : ascii "HTTP/1.1 " ≠ [] := by decide
  refine ⟨not_infix_crlf ?_, by simp [statusLine, hne]⟩
  simp only [statusLine, List.mem_append, htext, hfixed, cr_notMem_decimal, or_self, not_false_iff]

/-- Printing clean headers and taking the response apart. -/
theorem splitHead_of_clean {r : HttpResponse} {date body : Bytes} {n : Nat}
    (hc : ∀ h ∈ r.emitted date n, Clean h) :
    splitHead (r.serializeHeaders date n ++ body) =
      some ⟨r.statusLine, (r.emitted date n).map fun h => some (h.name, h.value), body⟩ := by
  have hlines : ∀ x ∈ r.statusLine :: (r.emitted date n).map line, ¬ crlf <:+: x ∧ x ≠ [] := by
    intro x hx
    obtain rfl | hx := List.mem_cons.1 hx
    · exact r.statusLine_clean
    · obtain ⟨h, hmem, rfl⟩ := List.mem_map.1 hx
      exact ⟨not_infix_line (hc h hmem), line_ne_nil h⟩
  have hmap : ((r.emitted date n).map line).map (cut (ascii ": ")) =
      (r.emitted date n).map fun h => some (h.name, h.value) := by
    rw [List.map_map]
    exact List.map_congr_left fun h hmem => cut_line (hc h hmem)
  rw [splitHead, serializeHeaders_eq, cut_join (by decide) (by simp) hlines]
  simp only
  rw [splitOn_join (by decide) (by decide) (by simp) fun x hx => (hlines x hx).1]
  simp only [hmap]

/-- What is taken apart is clean. -/
theorem clean_of_splitHead {x : Bytes} {q : Parsed} (hx : splitHead x = some q)
    {h : HttpHeader} (hmem : some (h.name, h.value) ∈ q.headers) : Clean h := by
  unfold splitHead at hx
  split at hx
  · cases hx
  · next head body _ =>
    split at hx
    · cases hx
    · next status lines hsplit =>
      cases hx
      obtain ⟨l, hl, hcut⟩ := List.mem_map.1 hmem
      have hline : l = line h := (cut_eq_some hcut).1
      have hclean := splitOn_not_infix (by decide) l (hsplit ▸ List.mem_cons_of_mem _ hl)
      rw [hline, infix_line, not_or] at hclean
      exact ⟨hclean.1, not_infix_of_cut (by decide) hcut, hclean.2⟩

/-! ## How often a header appears -/

section Occurrences

variable (r : HttpResponse) (date : Bytes) (n : Nat)

theorem occurrences_append (a b : List HttpHeader) (name : String) :
    occurrences (a ++ b) name = occurrences a name + occurrences b name :=
  List.countP_append

theorem occurrences_default (c : Bool) (h : HttpHeader) (name : String) :
    occurrences (if c then [] else [h]) name =
      if !c && headerNameEquals h.name (ascii name) then 1 else 0 := by
  cases c with
  | true => rfl
  | false => cases hn : headerNameEquals h.name (ascii name) <;> simp [occurrences, hn]

theorem callerHas_eq (name : String) : r.callerHas name = decide (0 < occurrences r.headers name) := by
  rw [Bool.eq_iff_iff, decide_eq_true_eq, occurrences, List.countP_pos_iff, callerHas,
    List.any_eq_true]

/-- The filter on `Content-Length` keeps the other headers. -/
theorem occurrences_filter {name : String}
    (hne : headerNameEquals (ascii name) (ascii "Content-Length") = false) :
    occurrences (r.headers.filter fun h => !(r.status.mustNotHaveBody &&
      headerNameEquals h.name (ascii "Content-Length"))) name = occurrences r.headers name := by
  rw [occurrences, List.countP_filter, occurrences]
  refine List.countP_congr fun h _ => ?_
  rw [Bool.and_eq_true, and_iff_left_iff_imp]
  intro hn
  have hn' : h.name.map HttpRequest.toLower = (ascii name).map HttpRequest.toLower := by
    simpa [headerNameEquals, HttpRequest.caseInsensitiveEqual] using hn
  have hfalse : headerNameEquals h.name (ascii "Content-Length") = false := by
    rw [headerNameEquals, HttpRequest.caseInsensitiveEqual, hn']
    exact hne
  simp [hfalse]

theorem occurrences_emitted (name : String) :
    occurrences (r.emitted date n) name =
      (if !r.callerHas "Server" && headerNameEquals (ascii "Server") (ascii name) then 1 else 0) +
      (if !r.callerHas "Date" && headerNameEquals (ascii "Date") (ascii name) then 1 else 0) +
      (if !(r.callerHas "Content-Type" || r.contentType.isEmpty) &&
        headerNameEquals (ascii "Content-Type") (ascii name) then 1 else 0) +
      (if !(r.callerHas "Content-Length" || r.status.mustNotHaveBody) &&
        headerNameEquals (ascii "Content-Length") (ascii name) then 1 else 0) +
      (if !r.callerHas "Connection" && headerNameEquals (ascii "Connection") (ascii name)
        then 1 else 0) +
      occurrences (r.headers.filter fun h => !(r.status.mustNotHaveBody &&
        headerNameEquals h.name (ascii "Content-Length"))) name := by
  simp only [emitted, occurrences_append, occurrences_default]

/-- The names of the default headers differ. -/
theorem headerNameEquals_default :
    ∀ a ∈ ["Server", "Date", "Content-Type", "Content-Length", "Connection"],
    ∀ b ∈ ["Server", "Date", "Content-Type", "Content-Length", "Connection"],
      headerNameEquals (ascii a) (ascii b) = (a == b) := by
  decide

theorem once_or_more (k : Nat) : (if !decide (0 < k) then 1 else 0) + k = max 1 k := by
  cases k with
  | zero => rfl
  | succ k => simp

/-- A header that is printed unless the caller has it. -/
theorem occurrences_once {name : String} (hname : name ∈ ["Server", "Date", "Connection"]) :
    occurrences (r.emitted date n) name = max 1 (occurrences r.headers name) := by
  have heq := headerNameEquals_default
  simp only [List.forall_mem_cons] at heq
  simp only [List.mem_cons, List.not_mem_nil, or_false] at hname
  rw [← once_or_more, ← callerHas_eq, occurrences_emitted]
  obtain rfl | rfl | rfl := hname <;>
  · rw [occurrences_filter r (by simp [heq])]
    simp [heq]

theorem occurrences_contentLength :
    occurrences (r.emitted date n) "Content-Length" =
      if r.status.mustNotHaveBody then 0 else max 1 (occurrences r.headers "Content-Length") := by
  have heq := headerNameEquals_default
  simp only [List.forall_mem_cons] at heq
  rw [occurrences_emitted]
  cases hs : r.status.mustNotHaveBody with
  | true => simp [heq, occurrences, List.countP_filter]
  | false =>
    have hif : (if false = true then 0 else max 1 (occurrences r.headers "Content-Length")) =
        (if !r.callerHas "Content-Length" then 1 else 0) +
          occurrences r.headers "Content-Length" := by
      rw [if_neg Bool.false_ne_true, callerHas_eq, once_or_more]
    rw [hif]
    simp [heq]

end Occurrences

/-! ## Integrity -/

/-- The response is taken apart into the parts it was made of, with each of the
framing headers once unless the caller added more. -/
def HeadIntact (r : HttpResponse) (date : Bytes) : Prop :=
  let headers := r.emitted date r.body.length
  splitHead (r.serialize date) =
      some ⟨r.statusLine, headers.map fun h => some (h.name, h.value), r.sentBody r.body⟩ ∧
    (∀ name ∈ ["Server", "Date", "Connection"],
      occurrences headers name = max 1 (occurrences r.headers name)) ∧
    occurrences headers "Content-Length" =
      if r.status.mustNotHaveBody then 0 else max 1 (occurrences r.headers "Content-Length")

/-- Nothing that the caller set and that is printed contains a line break, and
no name of the caller's contains `: `. -/
def CallerClean (r : HttpResponse) : Prop :=
  (∀ h ∈ r.headers, ¬ (r.status.mustNotHaveBody = true ∧
    headerNameEquals h.name (ascii "Content-Length") = true) → Clean h) ∧
  (r.callerHas "Content-Type" = false → ¬ crlf <:+: r.contentType)

instance (h : HttpHeader) : Decidable (Clean h) := inferInstanceAs (Decidable (_ ∧ _ ∧ _))

instance (r : HttpResponse) : Decidable r.CallerClean := inferInstanceAs (Decidable (_ ∧ _))

theorem clean_default (name : String)
    (hname : name ∈ ["Server", "Date", "Content-Type", "Content-Length", "Connection"])
    (value : Bytes) : Clean ⟨ascii name, value⟩ ↔ ¬ crlf <:+: value := by
  have h : ∀ name ∈ ["Server", "Date", "Content-Type", "Content-Length", "Connection"],
      ¬ crlf <:+: ascii name ∧ ¬ ascii ": " <:+: ascii name := by decide
  exact ⟨fun hc => hc.2.2, fun hv => ⟨(h name hname).1, (h name hname).2, hv⟩⟩

/-- The default headers are clean. -/
theorem clean_emitted_iff (r : HttpResponse) (tm : Tm) (n : Nat) :
    (∀ h ∈ r.emitted (currentHttpDate tm) n, Clean h) ↔ r.CallerClean := by
  have hdefault : ∀ (c : Bool) (h : HttpHeader),
      (∀ x ∈ if c then [] else [h], Clean x) ↔ (c = false → Clean h) := by
    intro c h
    cases c <;> simp
  have hserver : ¬ crlf <:+: ascii "iouring_runtime_web" := by decide
  have hdate := not_infix_crlf (cr_notMem_currentHttpDate tm)
  have hlength := not_infix_crlf (cr_notMem_decimal n)
  have hconnection : ∀ b : Bool, ¬ crlf <:+: ascii (if b then "keep-alive" else "close") := by
    decide
  have hempty : r.contentType.isEmpty = true → ¬ crlf <:+: r.contentType := by
    intro h
    rw [List.isEmpty_iff.1 h]
    decide
  have hcaller : (∀ h ∈ r.headers.filter fun h => !(r.status.mustNotHaveBody &&
        headerNameEquals h.name (ascii "Content-Length")), Clean h) ↔
      ∀ h ∈ r.headers, ¬ (r.status.mustNotHaveBody = true ∧
        headerNameEquals h.name (ascii "Content-Length") = true) → Clean h := by
    simp only [List.mem_filter, Bool.not_eq_true', ← Bool.and_eq_true, Bool.not_eq_true, and_imp]
  simp only [emitted, List.forall_mem_append, hdefault, hcaller,
    clean_default "Server" (by decide), clean_default "Date" (by decide),
    clean_default "Content-Type" (by decide), clean_default "Content-Length" (by decide),
    clean_default "Connection" (by decide), hserver, hdate, hlength, hconnection,
    not_false_eq_true, implies_true, true_and, and_true, Bool.or_eq_false_iff]
  rw [CallerClean, and_comm]
  refine and_congr_right fun _ => ⟨fun h hno hinf => ?_, fun h hno => h hno.1⟩
  by_cases he : r.contentType.isEmpty = true
  · exact hempty he hinf
  · exact h ⟨hno, by simpa using he⟩ hinf

/-- **Head integrity.** A response keeps the form its parts give it iff what the
caller put into it is clean. -/
theorem head_intact_iff (r : HttpResponse) (tm : Tm) :
    r.HeadIntact (currentHttpDate tm) ↔ r.CallerClean := by
  rw [← clean_emitted_iff r tm r.body.length]
  constructor
  · rintro ⟨h, -⟩ x hx
    exact clean_of_splitHead h (List.mem_map.2 ⟨x, hx, rfl⟩)
  · intro h
    exact ⟨splitHead_of_clean h, fun name => r.occurrences_once _ _,
      r.occurrences_contentLength _ _⟩

/-- A redirect to a URL with a line break adds a line to the head. -/
theorem redirect_splits_head :
    let r := HttpResponse.redirect {} (ascii "/\r\nSet-Cookie: a=b") .kFound
    let date := currentHttpDate ⟨0, 6, 10, 1994, 8, 49, 37⟩
    ¬ r.HeadIntact date ∧ crlf ++ ascii "Set-Cookie: a=b" ++ crlf <:+: r.serialize date := by
  refine ⟨fun h => ?_, by decide +kernel⟩
  let location : HttpHeader := ⟨ascii "Location", ascii "/\r\nSet-Cookie: a=b"⟩
  have hclean : Clean location :=
    clean_of_splitHead h.1 (List.mem_map.2 ⟨location, by decide +kernel, rfl⟩)
  exact absurd hclean.2.2 (by decide)

end HttpResponse

end IouringRuntime
