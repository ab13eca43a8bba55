import IouringRuntime.Media.Hls

/-!
# Relative references

A base URL by its parts, a reference without a scheme, and what `ResolveUrl`
makes of them. `resolved` says what a reference stands for; the code finds the
origin and the directory by looking for slashes in the whole text of the base,
so a query or a fragment comes in the way (`resolveUrl_eq_resolved_iff`).
-/

namespace IouringRuntime

open Search

namespace Hls

/-! ## Bases and references -/

/-- An absolute URL, `http` or `https`, with an optional `?query` and an optional
`#fragment` of any bytes. -/
structure BaseUrl where
  secure : Bool
  authority : Bytes
  path : Bytes
  query : Option Bytes
  fragment : Option Bytes
  authority_clean : ∀ ch ∈ authority, ch ≠ 47 ∧ ch ≠ 63 ∧ ch ≠ 35
  path_clean : ∀ ch ∈ path, ch ≠ 63 ∧ ch ≠ 35
  path_absolute : path ≠ [] → path.head? = some 47

namespace BaseUrl

def scheme (base : BaseUrl) : Bytes := if base.secure then ascii "https" else ascii "http"

def origin (base : BaseUrl) : Bytes := base.scheme ++ ascii "://" ++ base.authority

/-- The query and the fragment with their marks. -/
def tail (base : BaseUrl) : Bytes :=
  (base.query.elim [] fun q => 63 :: q) ++ base.fragment.elim [] fun f => 35 :: f

def text (base : BaseUrl) : Bytes := base.origin ++ base.path ++ base.tail

end BaseUrl

def isAlpha (ch : UInt8) : Bool := (65 ≤ ch && ch ≤ 90) || (97 ≤ ch && ch ≤ 122)

def isSchemeChar (ch : UInt8) : Bool := isAlnum ch || ch == 43 || ch == 45 || ch == 46

/-- The text begins with a letter and goes on with scheme characters up to a
colon. -/
def hasScheme (value : Bytes) : Bool :=
  match cut [58] value with
  | none => false
  | some (name, _) => (name.head?.any isAlpha) && name.all isSchemeChar

structure RelativeRef where
  text : Bytes
  ne_nil : text ≠ []
  no_scheme : hasScheme text = false
  no_mark : text.head? ≠ some 63 ∧ text.head? ≠ some 35

/-- A path up to its last slash. -/
def directory (path : Bytes) : Bytes := (path.reverse.dropWhile (· != 47)).reverse

/-- What a reference stands for. -/
def resolved (base : BaseUrl) (ref : RelativeRef) : Bytes :=
  if (ascii "//").isPrefixOf ref.text then base.scheme ++ ascii ":" ++ ref.text
  else if (ascii "/").isPrefixOf ref.text then base.origin ++ ref.text
  else base.origin ++ (if base.path = [] then ascii "/" else directory base.path) ++ ref.text

/-! ## Slashes -/

theorem directory_append_right {a b : Bytes} (hb : (47 : UInt8) ∉ b) :
    directory (a ++ b) = directory a := by
  rw [directory, List.reverse_append, List.dropWhile_append_of_pos, directory]
  intro ch hch
  refine bne_iff_ne.2 fun h => hb ?_
  rw [← h]
  exact List.mem_reverse.1 hch

theorem directory_slash (a : Bytes) {b : Bytes} (hb : (47 : UInt8) ∉ b) :
    directory (a ++ 47 :: b) = a ++ [47] := by
  rw [show a ++ 47 :: b = (a ++ [47]) ++ b by simp, directory_append_right hb]
  simp [directory]

/-- The last slash of a text. -/
theorem exists_last {t : Bytes} (h : (47 : UInt8) ∈ t) :
    ∃ a b, t = a ++ 47 :: b ∧ (47 : UInt8) ∉ b := by
  obtain ⟨a, b, he, ha⟩ := List.eq_append_cons_of_mem (List.mem_reverse.2 h)
  refine ⟨b.reverse, a.reverse, ?_, fun hm => ha (List.mem_reverse.1 hm)⟩
  rw [← List.reverse_reverse t, he]
  simp

theorem idxOf?_append {ch : UInt8} {a : Bytes} (ha : ch ∉ a) (b : Bytes) :
    (a ++ ch :: b).idxOf? ch = some a.length := by
  induction a with
  | nil => simp [List.idxOf?_cons]
  | cons c a ih =>
    have hc : (c == ch) = false := beq_eq_false_iff_ne.2 fun he => ha (by simp [he])
    rw [List.cons_append, List.idxOf?_cons, hc, ih fun h => ha (List.mem_cons_of_mem _ h)]
    rfl

theorem rfind_slash (a : Bytes) {b : Bytes} (hb : (47 : UInt8) ∉ b) :
    rfind 47 (a ++ 47 :: b) = some a.length := by
  have hrev : (a ++ 47 :: b).reverse = b.reverse ++ 47 :: a.reverse := by simp
  rw [rfind, hrev, idxOf?_append (mt List.mem_reverse.1 hb)]
  simp

theorem takeWhile_notMem {ch : UInt8} {t : Bytes} (h : ch ∉ t) :
    t.takeWhile (· != ch) = t := by
  have hall : ∀ x ∈ t, (x != ch) = true := fun x hx => bne_iff_ne.2 fun he => h (he ▸ hx)
  have htake : (t ++ []).takeWhile (· != ch) = t ++ [] := List.takeWhile_append_of_pos hall
  rwa [List.append_nil] at htake

/-- Up to the first occurrence of a character. -/
theorem upTo_find (ch : UInt8) (t : Bytes) : upTo t (find [ch] t 0) = t.takeWhile (· != ch) := by
  rw [find, List.drop_zero]
  by_cases h : ch ∈ t
  · obtain ⟨a, b, rfl, ha⟩ := List.eq_append_cons_of_mem h
    have hall : ∀ x ∈ a, (x != ch) = true := fun x hx => bne_iff_ne.2 fun he => ha (he ▸ hx)
    rw [cut_singleton ha, List.takeWhile_append_of_pos hall]
    simp [upTo]
  · rw [cut_singleton_none h, takeWhile_notMem h]
    rfl

theorem upTo_find_from (ch : UInt8) (s t : Bytes) :
    upTo (s ++ t) (find [ch] (s ++ t) s.length) = s ++ t.takeWhile (· != ch) := by
  rw [← upTo_find, find, find, List.drop_left, List.drop_zero]
  cases cut [ch] t with
  | none => rfl
  | some x => simp [upTo, List.take_length_add_append]

/-! ## The parts of a base as the code finds them -/

theorem find_scheme (base : BaseUrl) (rest : Bytes) :
    find (ascii "://") (base.scheme ++ ascii "://" ++ rest) 0 = some base.scheme.length := by
  have hscheme : ¬ ascii "://" <:+: base.scheme := by
    rw [BaseUrl.scheme]
    split <;> decide +kernel
  rw [find, List.drop_zero, cut_append (by decide) hscheme]
  simp

theorem BaseUrl.text_eq (base : BaseUrl) :
    base.text = base.scheme ++ ascii "://" ++ (base.authority ++ (base.path ++ base.tail)) := by
  simp only [BaseUrl.text, BaseUrl.origin, List.append_assoc]

theorem upTo_colon (base : BaseUrl) :
    upTo base.text (find (ascii ":") base.text 0) = base.scheme := by
  have hscheme : ∀ ch ∈ base.scheme, (ch != 58) = true := by
    rw [BaseUrl.scheme]
    split <;> decide +kernel
  rw [show ascii ":" = [58] from rfl, upTo_find, base.text_eq, List.append_assoc,
    List.takeWhile_append_of_pos hscheme]
  exact List.append_nil _

/-- The origin that the code finds goes on up to the first slash. -/
theorem originOf_text (base : BaseUrl) :
    originOf base.text = base.origin ++ (base.path ++ base.tail).takeWhile (· != 47) := by
  have hauth : ∀ ch ∈ base.authority, (ch != 47) = true :=
    fun ch hch => bne_iff_ne.2 (base.authority_clean ch hch).1
  have hstart : base.scheme.length + 3 = (base.scheme ++ ascii "://").length := by
    rw [List.length_append]
    rfl
  rw [originOf, base.text_eq, find_scheme]
  dsimp only
  rw [show ascii "/" = [47] from rfl, hstart, upTo_find_from, List.takeWhile_append_of_pos hauth,
    BaseUrl.origin]
  simp only [List.append_assoc]

section Relative

variable {base : BaseUrl} {value : Bytes}

theorem resolveUrl_relative (hv : isHttpUrl value = false)
    (hslash : (ascii "/").isPrefixOf value = false) {a b : Bytes}
    (htext : base.text = a ++ 47 :: b) (hb : (47 : UInt8) ∉ b) :
    resolveUrl base.text value =
      if (find (ascii "://") a 0).isNone then originOf base.text ++ ascii "/" ++ value
      else a ++ [47] ++ value := by
  have hslashes : (ascii "//").isPrefixOf value = false := by
    cases value with
    | nil => rfl
    | cons ch value =>
      simp only [show ascii "/" = [47] from rfl, show ascii "//" = [47, 47] from rfl,
        List.isPrefixOf_cons_cons, List.isPrefixOf_nil_left, Bool.and_true] at hslash ⊢
      rw [hslash, Bool.false_and]
  have hslash' : rfind 47 base.text = some a.length := by rw [htext, rfind_slash a hb]
  have htake : base.text.take a.length = a := by rw [htext, List.take_left]
  have htake' : base.text.take (a.length + 1) = a ++ [47] := by
    have hlen : a.length + 1 = (a ++ [47]).length := by rw [List.length_append]; rfl
    rw [htext, List.append_cons, hlen, List.take_left]
  rw [resolveUrl, hv, hslashes, hslash]
  simp only [Bool.false_eq_true, if_false, hslash', htake, htake']

/-- With a slash behind the origin, the code cuts at the last one. -/
theorem resolveUrl_last (hv : isHttpUrl value = false)
    (hslash : (ascii "/").isPrefixOf value = false) (h : (47 : UInt8) ∈ base.path ++ base.tail) :
    resolveUrl base.text value = base.origin ++ directory (base.path ++ base.tail) ++ value := by
  obtain ⟨a, b, hab, hb⟩ := exists_last h
  have htext : base.text = (base.origin ++ a) ++ 47 :: b := by
    rw [BaseUrl.text, List.append_assoc, hab, List.append_assoc]
  have hfind : find (ascii "://") (base.origin ++ a) 0 = some base.scheme.length := by
    rw [BaseUrl.origin, List.append_assoc, find_scheme]
  rw [resolveUrl_relative hv hslash htext hb, hfind, hab, directory_slash a hb]
  simp only [Option.isNone_some, Bool.false_eq_true, if_false, List.append_assoc]

/-- Without one, the whole base counts as the origin. -/
theorem resolveUrl_noSlash (hv : isHttpUrl value = false)
    (hslash : (ascii "/").isPrefixOf value = false) (h : (47 : UInt8) ∉ base.path ++ base.tail) :
    resolveUrl base.text value =
      base.origin ++ (base.path ++ base.tail ++ [47]) ++ value := by
  have htext : base.text =
      (base.scheme ++ ascii ":/") ++ 47 :: (base.authority ++ (base.path ++ base.tail)) := by
    rw [base.text_eq, List.append_assoc, List.append_assoc]
    rfl
  have hrest : (47 : UInt8) ∉ base.authority ++ (base.path ++ base.tail) := by
    intro hm
    obtain hm | hm := List.mem_append.1 hm
    · exact (base.authority_clean 47 hm).1 rfl
    · exact h hm
  have hfind : find (ascii "://") (base.scheme ++ ascii ":/") 0 = none := by
    rw [BaseUrl.scheme]
    split <;> decide +kernel
  rw [resolveUrl_relative hv hslash htext hrest, hfind, originOf_text, takeWhile_notMem h]
  simp only [Option.isNone_none, if_true, List.append_assoc]
  rfl

end Relative

/-! ## The comparison -/

theorem directory_append_left (a : Bytes) {b : Bytes} (hb : (47 : UInt8) ∈ b) :
    directory (a ++ b) = a ++ directory b := by
  obtain ⟨x, y, rfl, hy⟩ := exists_last hb
  rw [← List.append_assoc, directory_slash _ hy, directory_slash x hy, List.append_assoc]

theorem length_directory_le (path : Bytes) : (directory path).length ≤ path.length := by
  rw [directory, List.length_reverse]
  exact (List.dropWhile_sublist _).length_le.trans_eq List.length_reverse

theorem BaseUrl.tail_head (base : BaseUrl) : base.tail.head? ≠ some 47 := by
  rw [BaseUrl.tail]
  cases base.query with
  | some q => exact fun h => absurd (Option.some.inj h) (by decide)
  | none =>
    cases base.fragment with
    | some f => exact fun h => absurd (Option.some.inj h) (by decide)
    | none => exact fun h => (by cases h)

theorem two_le_length_directory {t : Bytes} (hhead : t.head? ≠ some 47) (h : (47 : UInt8) ∈ t) :
    2 ≤ (directory t).length := by
  obtain ⟨a, b, rfl, hb⟩ := exists_last h
  have ha : a ≠ [] := by
    rintro rfl
    exact hhead rfl
  have hpos := List.length_pos_iff.2 ha
  rw [directory_slash a hb, List.length_append, List.length_singleton]
  omega

theorem hasScheme_append (name rest : Bytes) (hname : (58 : UInt8) ∉ name) :
    hasScheme (name ++ 58 :: rest) = (name.head?.any isAlpha && name.all isSchemeChar) := by
  rw [hasScheme, cut_singleton hname]

theorem isHttpUrl_of_no_scheme {value : Bytes} (h : hasScheme value = false) :
    isHttpUrl value = false := by
  by_contra hurl
  rw [Bool.not_eq_false, isHttpUrl, Bool.or_eq_true] at hurl
  obtain hurl | hurl := hurl
  · obtain ⟨rest, rfl⟩ := List.isPrefixOf_iff_prefix.1 hurl
    have hs := hasScheme_append (ascii "http") (ascii "//" ++ rest) (by decide)
    exact absurd (hs.symm.trans h) (by decide)
  · obtain ⟨rest, rfl⟩ := List.isPrefixOf_iff_prefix.1 hurl
    have hs := hasScheme_append (ascii "https") (ascii "//" ++ rest) (by decide)
    exact absurd (hs.symm.trans h) (by decide)

theorem takeWhile_path_tail (base : BaseUrl) :
    (base.path ++ base.tail).takeWhile (· != 47) = [] ↔ base.path ≠ [] ∨ base.tail = [] := by
  cases hp : base.path with
  | nil =>
    have hhead := base.tail_head
    cases ht : base.tail with
    | nil => simp
    | cons ch t =>
      rw [ht] at hhead
      have hch : ch ≠ 47 := fun he => hhead (congrArg some he)
      simp [hch]
  | cons ch p =>
    have hch : ch = 47 := by
      have := base.path_absolute (by simp [hp])
      rw [hp] at this
      exact Option.some.inj this
    simp [hch]

theorem mem_path {base : BaseUrl} (h : base.path ≠ []) : (47 : UInt8) ∈ base.path :=
  List.mem_of_mem_head? (base.path_absolute h)

/-- A reference stands for what `ResolveUrl` makes of it iff the reference has an
authority of its own, or the base has a path or ends with its authority and the
reference has a path from the root or the base no slash behind its path. -/
theorem resolveUrl_eq_resolved_iff (base : BaseUrl) (ref : RelativeRef) :
    resolveUrl base.text ref.text = resolved base ref ↔
      (ascii "//").isPrefixOf ref.text ∨
        (base.path ≠ [] ∨ base.tail = []) ∧
          ((ascii "/").isPrefixOf ref.text ∨ (47 : UInt8) ∉ base.tail) := by
  have hv := isHttpUrl_of_no_scheme ref.no_scheme
  by_cases h2 : (ascii "//").isPrefixOf ref.text = true
  · simp only [resolveUrl, resolved, hv, h2, upTo_colon, if_true, Bool.false_eq_true, if_false,
      true_or]
  rw [Bool.not_eq_true] at h2
  by_cases h1 : (ascii "/").isPrefixOf ref.text = true
  · simp only [resolveUrl, resolved, hv, h2, h1, if_true, Bool.false_eq_true, if_false, false_or,
      true_or, and_true, originOf_text, ← takeWhile_path_tail]
    rw [List.append_assoc, List.append_right_inj, List.append_left_eq_self]
  rw [Bool.not_eq_true] at h1
  simp only [resolved, h2, h1, Bool.false_eq_true, if_false, false_or]
  by_cases ht : (47 : UInt8) ∈ base.tail
  · -- the slash found stands in the query or the fragment, and what is put in front is too long
    rw [resolveUrl_last hv h1 (List.mem_append_right _ ht), directory_append_left _ ht]
    have h2le := two_le_length_directory base.tail_head ht
    refine iff_of_false (fun he => ?_) fun h => h.2 ht
    have hlen := congrArg List.length he
    simp only [List.length_append] at hlen
    split at hlen
    · next hp =>
      rw [hp, show (ascii "/").length = 1 from rfl] at hlen
      omega
    · have := length_directory_le base.path
      omega
  · by_cases hp : base.path = []
    · have hno : (47 : UInt8) ∉ base.path ++ base.tail := by rwa [hp, List.nil_append]
      rw [resolveUrl_noSlash hv h1 hno, if_pos hp, hp]
      simp [ht, show ascii "/" = [47] from rfl]
    · rw [resolveUrl_last hv h1 (List.mem_append_left _ (mem_path hp)), directory_append_right ht,
        if_neg hp]
      simp [hp, ht]

/-- The manifest `http://h/a/m?sig=/x`. -/
def signedBase : BaseUrl where
  secure := false
  authority := ascii "h"
  path := ascii "/a/m"
  query := some (ascii "sig=/x")
  fragment := none
  authority_clean := by decide +kernel
  path_clean := by decide +kernel
  path_absolute := by decide +kernel

def segmentRef : RelativeRef where
  text := ascii "s.ts"
  ne_nil := by decide
  no_scheme := by decide +kernel
  no_mark := by decide +kernel

/-- The segment is looked for under the signature. -/
theorem resolveUrl_signed :
    resolveUrl signedBase.text segmentRef.text = ascii "http://h/a/m?sig=/s.ts" ∧
      resolved signedBase segmentRef = ascii "http://h/a/s.ts" ∧
      resolveUrl signedBase.text segmentRef.text ≠ resolved signedBase segmentRef := by
  decide +kernel

end Hls

end IouringRuntime
