import IouringRuntime.Media.Hls
import IouringRuntime.Web.HttpRequest

/-!
# Query parameters

The lookup of a query parameter and the percent decoder of `HttpRequest`
(`web/HttpRequest.h`), which is written apart from `media::UrlDecode`.
`decodeFrom` is the decoder's loop, from an index on.

An encoded text has neither `&` nor `=`, so that the parts of a built query are
read back as they were put together (`findQueryParam_buildQuery`).
-/

namespace IouringRuntime

open Search Hls

namespace HttpRequest

/-- The value of a hexadecimal digit; `none` is -1. -/
def hexValue (value : UInt8) : Option UInt8 :=
  if 48 ≤ value ∧ value ≤ 57 then some (value - 48)
  else if 97 ≤ value ∧ value ≤ 102 then some (value - 97 + 10)
  else if 65 ≤ value ∧ value ≤ 70 then some (value - 65 + 10)
  else none

/-- The loop of `PercentDecode` at index `i`. -/
def decodeFrom (value : Bytes) (plusAsSpace : Bool) (i : Nat) (decoded : Bytes) : Bytes :=
  if i < value.length then
    let ch := value.getD i 0
    if plusAsSpace ∧ ch = 43 then decodeFrom value plusAsSpace (i + 1) (decoded ++ [32])
    else if ch = 37 ∧ i + 2 < value.length then
      match hexValue (value.getD (i + 1) 0), hexValue (value.getD (i + 2) 0) with
      | some hi, some lo => decodeFrom value plusAsSpace (i + 3) (decoded ++ [hi <<< 4 ||| lo])
      | _, _ => decodeFrom value plusAsSpace (i + 1) (decoded ++ [ch])
    else decodeFrom value plusAsSpace (i + 1) (decoded ++ [ch])
  else decoded
termination_by value.length - i

def percentDecode (value : Bytes) (plusAsSpace : Bool) : Bytes :=
  decodeFrom value plusAsSpace 0 []

/-- A part of the query as key and value; without `=` the value is empty. -/
def keyValue (part : Bytes) : Bytes × Bytes := (cut [61] part).getD (part, [])

/-- The loop of `FindQueryParam`. -/
def findFrom (name remaining : Bytes) : Option Bytes :=
  if remaining = [] then none
  else
    match _h : cut [38] remaining with
    | none =>
      if (keyValue remaining).1 = name then some (keyValue remaining).2 else none
    | some (part, rest) =>
      if (keyValue part).1 = name then some (keyValue part).2 else findFrom name rest
termination_by remaining.length
decreasing_by
  have hl := congrArg List.length (cut_eq_some _h).1
  simp only [List.length_append, List.length_singleton] at hl
  omega

def findQueryParam (r : HttpRequest) (name : Bytes) : Option Bytes :=
  if r.query = [] then none else findFrom name r.query

def queryParam (r : HttpRequest) (name : Bytes) : Bytes := (r.findQueryParam name).getD []

def hasQueryParam (r : HttpRequest) (name : Bytes) : Bool := (r.findQueryParam name).isSome

def queryParamDecoded (r : HttpRequest) (name : Bytes) : Bytes :=
  match r.findQueryParam name with
  | none => []
  | some found => percentDecode found true

/-! ## The two decoders -/

theorem hexValue_eq (ch : UInt8) : hexValue ch = Hls.hexValue ch := rfl

/-- A character that is no plus and begins no escape stands for itself. -/
theorem urlDecode_cons {ch : UInt8} {text : Bytes} (hplus : ch ≠ 43)
    (h : ch = 37 → ∀ hi lo rest, text = hi :: lo :: rest →
      Hls.hexValue hi = none ∨ Hls.hexValue lo = none) :
    urlDecode (ch :: text) = ch :: urlDecode text := by
  by_cases hch : ch = 37
  · subst hch
    cases text with
    | nil => rfl
    | cons hi text =>
      cases text with
      | nil => rfl
      | cons lo text =>
        rw [urlDecode]
        split
        · next hhi hlo =>
          obtain hn | hn := h rfl hi lo text rfl
          · rw [hn] at hhi; cases hhi
          · rw [hn] at hlo; cases hlo
        · rfl
  · rw [urlDecode]
    · exact hplus
    · intro _ _ _ he
      exact absurd he hch

theorem drop_eq_getD_cons {value : Bytes} {i : Nat} (h : i < value.length) :
    value.drop i = value.getD i 0 :: value.drop (i + 1) := by
  rw [List.drop_eq_getElem_cons h, List.getD_eq_getElem?_getD, List.getElem?_eq_getElem h]
  rfl

theorem decodeFrom_eq (value : Bytes) (i : Nat) (decoded : Bytes) :
    decodeFrom value true i decoded = decoded ++ urlDecode (value.drop i) := by
  fun_induction decodeFrom value true i decoded with
  | case1 i decoded hi ch hplus ih =>
    have hdrop : value.drop i = 43 :: value.drop (i + 1) := hplus.2 ▸ drop_eq_getD_cons hi
    rw [ih, hdrop, urlDecode, List.append_assoc, List.singleton_append]
  | case2 i decoded hi ch hplus hesc hv lv hlo hhi ih =>
    have hdrop : value.drop i = 37 :: value.drop (i + 1) := hesc.1 ▸ drop_eq_getD_cons hi
    have h1 := drop_eq_getD_cons (by omega : i + 1 < value.length)
    rw [hexValue_eq] at hlo hhi
    rw [ih, hdrop, h1, drop_eq_getD_cons hesc.2, urlDecode, hhi, hlo, List.append_assoc,
      List.singleton_append]
  | case3 i decoded hi ch hplus hesc hbad ih =>
    have hdrop : value.drop i = ch :: value.drop (i + 1) := drop_eq_getD_cons hi
    have h1 := drop_eq_getD_cons (by omega : i + 1 < value.length)
    rw [ih, hdrop, urlDecode_cons (by simpa using hplus), List.append_assoc,
      List.singleton_append]
    -- both digits were looked at, and not both are digits
    intro _ hi' lo' rest he
    rw [h1, drop_eq_getD_cons hesc.2] at he
    cases he
    rw [← hexValue_eq, ← hexValue_eq]
    by_contra hdigits
    rw [not_or] at hdigits
    obtain ⟨hv, hhv⟩ := Option.ne_none_iff_exists'.1 hdigits.1
    obtain ⟨lv, hlv⟩ := Option.ne_none_iff_exists'.1 hdigits.2
    exact hbad hv lv hhv hlv
  | case4 i decoded hi ch hplus hesc ih =>
    have hdrop : value.drop i = ch :: value.drop (i + 1) := drop_eq_getD_cons hi
    rw [ih, hdrop, urlDecode_cons (by simpa using hplus), List.append_assoc,
      List.singleton_append]
    -- an escape would not fit behind `i`
    intro hch hi' lo' rest he
    have hlen := congrArg List.length he
    simp only [List.length_drop, List.length_cons] at hlen
    exact absurd ⟨hch, by omega⟩ hesc
  | case5 i decoded hi =>
    rw [List.drop_eq_nil_of_le (by omega), urlDecode, List.append_nil]

theorem percentDecode_eq_urlDecode (value : Bytes) :
    percentDecode value true = urlDecode value := by
  rw [percentDecode, decodeFrom_eq, List.nil_append, List.drop_zero]

/-! ## Building a query -/

/-- `UrlEncode(name)=UrlEncode(value)`. -/
def encodePair (pair : Bytes × Bytes) : Bytes := urlEncode pair.1 ++ [61] ++ urlEncode pair.2

/-- The encoded pairs, joined by `&`. -/
def buildQuery (pairs : List (Bytes × Bytes)) : Bytes := join [38] (pairs.map encodePair)

theorem notMem_urlEncode {ch : UInt8} (h : isEncoded ch = false) (text : Bytes) :
    ch ∉ urlEncode text := by
  intro hin
  rw [isEncoded_of_mem_urlEncode hin] at h
  cases h

theorem keyValue_encodePair (pair : Bytes × Bytes) :
    keyValue (encodePair pair) = (urlEncode pair.1, urlEncode pair.2) := by
  rw [keyValue, encodePair, List.append_assoc, List.singleton_append,
    cut_singleton (notMem_urlEncode (by decide) _), Option.getD_some]

theorem notMem_encodePair (pair : Bytes × Bytes) : (38 : UInt8) ∉ encodePair pair := by
  simp only [encodePair, List.mem_append, List.mem_singleton, not_or]
  exact ⟨⟨notMem_urlEncode (by decide) _, by decide⟩, notMem_urlEncode (by decide) _⟩

theorem encodePair_ne_nil (pair : Bytes × Bytes) : encodePair pair ≠ [] := by simp [encodePair]

theorem urlEncode_inj {a b : Bytes} : urlEncode a = urlEncode b ↔ a = b := by
  refine ⟨fun h => ?_, congrArg _⟩
  rw [← urlDecode_urlEncode a, h, urlDecode_urlEncode]

theorem findFrom_nil (name : Bytes) : findFrom name [] = none := by
  rw [findFrom, if_pos rfl]

/-- One turn of the loop over a built query. -/
theorem findFrom_cons (name : Bytes) (pair : Bytes × Bytes) (pairs : List (Bytes × Bytes)) :
    findFrom (urlEncode name) (buildQuery (pair :: pairs)) =
      if pair.1 = name then some (urlEncode pair.2)
      else findFrom (urlEncode name) (buildQuery pairs) := by
  cases pairs with
  | nil =>
    have hcut := cut_singleton_none (notMem_encodePair pair)
    rw [buildQuery, List.map_singleton, join, findFrom, if_neg (encodePair_ne_nil pair)]
    split
    · have hempty : findFrom (urlEncode name) (buildQuery []) = none := findFrom_nil _
      simp only [keyValue_encodePair, urlEncode_inj, hempty]
    · next h => rw [hcut] at h; cases h
  | cons pair' pairs =>
    have hcut : cut [38] (buildQuery (pair :: pair' :: pairs)) =
        some (encodePair pair, buildQuery (pair' :: pairs)) := by
      rw [buildQuery, List.map_cons, List.map_cons, join, List.append_assoc,
        List.singleton_append, cut_singleton (notMem_encodePair pair)]
      rfl
    have hne : buildQuery (pair :: pair' :: pairs) ≠ [] := by
      intro h
      rw [h] at hcut
      cases hcut
    rw [findFrom, if_neg hne]
    split
    · next h => rw [hcut] at h; cases h
    · next part rest h =>
      rw [hcut] at h
      cases h
      simp only [keyValue_encodePair, urlEncode_inj]

theorem findFrom_buildQuery (name : Bytes) (pairs : List (Bytes × Bytes)) :
    findFrom (urlEncode name) (buildQuery pairs) = (pairs.lookup name).map urlEncode := by
  induction pairs with
  | nil => exact findFrom_nil _
  | cons pair pairs ih =>
    rw [findFrom_cons, List.lookup_cons]
    by_cases h : pair.1 = name
    · rw [if_pos h, beq_iff_eq.2 h.symm]
      rfl
    · rw [if_neg h, beq_eq_false_iff_ne.2 (Ne.symm h), ih]

theorem findQueryParam_buildQuery (r : HttpRequest) (name : Bytes)
    (pairs : List (Bytes × Bytes)) :
    { r with query := buildQuery pairs }.findQueryParam (urlEncode name) =
      (pairs.lookup name).map urlEncode := by
  rw [← findFrom_buildQuery, findQueryParam]
  split
  · next h =>
    rw [show buildQuery pairs = [] from h, findFrom_nil]
  · rfl

/-- Encoding is undone by decoding; a query built from pairs gives for an encoded
name the value of the first pair with that name, and has no other encoded name;
and the two decoders agree on every text. -/
theorem query_roundtrip :
    (∀ x, urlDecode (urlEncode x) = x) ∧
    (∀ (r : HttpRequest) (pairs : List (Bytes × Bytes)) (name : Bytes),
      { r with query := buildQuery pairs }.queryParamDecoded (urlEncode name) =
        (pairs.lookup name).getD [] ∧
      { r with query := buildQuery pairs }.hasQueryParam (urlEncode name) =
        (pairs.lookup name).isSome) ∧
    ∀ s, percentDecode s true = urlDecode s := by
  refine ⟨urlDecode_urlEncode, fun r pairs name => ⟨?_, ?_⟩, percentDecode_eq_urlDecode⟩
  · rw [queryParamDecoded, findQueryParam_buildQuery]
    cases pairs.lookup name with
    | none => rfl
    | some v => exact (percentDecode_eq_urlDecode _).trans (urlDecode_urlEncode v)
  · rw [hasQueryParam, findQueryParam_buildQuery, Option.isSome_map]

end HttpRequest

end IouringRuntime
