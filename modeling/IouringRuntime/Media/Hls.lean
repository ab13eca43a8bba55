import IouringRuntime.Core.Word
import IouringRuntime.Streaming.Search

/-!
# HLS manifests

The URL functions and `RewriteHlsManifest` (`media/Hls.cpp`). Positions are
indexes into the text as in the source: `find` is `std::string::find` and
`substr`, `replace` take a start and a length. `std::isalnum` is the one of the
"C" locale. The loop over the `URI` attributes of a tag line edits the line it
scans; `rewriteAttributes_eq` says what it does to the line as it was read.
-/

namespace IouringRuntime

open Search

namespace Hls

def hexValue (ch : UInt8) : Option UInt8 :=
  if 48 ≤ ch ∧ ch ≤ 57 then some (ch - 48)
  else if 97 ≤ ch ∧ ch ≤ 102 then some (ch - 97 + 10)
  else if 65 ≤ ch ∧ ch ≤ 70 then some (ch - 65 + 10)
  else none

def urlDecode : Bytes → Bytes
  | [] => []
  | 43 :: text => 32 :: urlDecode text
  | 37 :: hi :: lo :: text =>
    match hexValue hi, hexValue lo with
    | some hi, some lo => (hi <<< 4 ||| lo) :: urlDecode text
    | _, _ => 37 :: urlDecode (hi :: lo :: text)
  | ch :: text => ch :: urlDecode text

def isAlnum (ch : UInt8) : Bool :=
  (48 ≤ ch && ch ≤ 57) || (65 ≤ ch && ch ≤ 90) || (97 ≤ ch && ch ≤ 122)

def kHex : Bytes := ascii "0123456789ABCDEF"

def encodeByte (ch : UInt8) : Bytes :=
  if isAlnum ch || ch == 45 || ch == 95 || ch == 46 || ch == 126 then [ch]
  else [37, kHex.getD (ch >>> 4).toNat 0, kHex.getD (ch &&& 0x0f).toNat 0]

def urlEncode (text : Bytes) : Bytes := text.flatMap encodeByte

def find (pat text : Bytes) (pos : Nat) : Option Nat :=
  (cut pat (text.drop pos)).map fun x => pos + x.1.length

def rfind (ch : UInt8) (text : Bytes) : Option Nat :=
  (text.reverse.idxOf? ch).map fun i => text.length - 1 - i

def substr (text : Bytes) (pos count : Nat) : Bytes := (text.drop pos).take count

def replace (text : Bytes) (pos count : Nat) (new : Bytes) : Bytes :=
  text.take pos ++ new ++ text.drop (pos + count)

/-- `text.substr(0, end)`, the whole text when `end` is `npos`. -/
def upTo (text : Bytes) : Option Nat → Bytes
  | some stop => text.take stop
  | none => text

def isHttpUrl (url : Bytes) : Bool :=
  (ascii "http://").isPrefixOf url || (ascii "https://").isPrefixOf url

def originOf (url : Bytes) : Bytes :=
  match find (ascii "://") url 0 with
  | none => []
  | some scheme => upTo url (find (ascii "/") url (scheme + 3))

def shouldProxyManifestUri (uri : Bytes) : Bool :=
  !uri.isEmpty && !(ascii "data:").isPrefixOf uri

def resolveUrl (base value : Bytes) : Bytes :=
  if isHttpUrl value then value
  else if (ascii "//").isPrefixOf value then
    upTo base (find (ascii ":") base 0) ++ ascii ":" ++ value
  else if (ascii "/").isPrefixOf value then originOf base ++ value
  else
    match rfind 47 base with
    | none => originOf base ++ ascii "/" ++ value
    | some slash =>
      if (find (ascii "://") (base.take slash) 0).isNone then originOf base ++ ascii "/" ++ value
      else base.take (slash + 1) ++ value

def proxyHlsUrl (remoteUrl : Bytes) : Bytes := ascii "/proxy/hls?url=" ++ urlEncode remoteUrl

def uriAttribute : Bytes := ascii "URI=\""

def quote : UInt8 := 34

theorem find_bounds {pat text : Bytes} {pos i : Nat} (h : find pat text pos = some i) :
    pos ≤ i ∧ i + pat.length ≤ max pos text.length := by
  obtain ⟨⟨a, b⟩, hc, rfl⟩ := Option.map_eq_some_iff.1 h
  have hl := congrArg List.length (cut_eq_some hc).1
  simp only [List.length_append, List.length_drop] at hl
  dsimp only
  omega

theorem attribute_bounds {text : Bytes} {pos start stop : Nat}
    (hpos : find uriAttribute text pos = some start)
    (hend : find [quote] text (start + 5) = some stop) :
    pos ≤ start ∧ start + 5 ≤ stop ∧ stop < text.length := by
  obtain ⟨h1, h2⟩ := find_bounds hpos
  obtain ⟨h3, h4⟩ := find_bounds hend
  have h5 : uriAttribute.length = 5 := by decide
  rw [List.length_singleton] at h4
  omega

/-- The loop over the attributes of a tag line, on the line and the position
reached. -/
def rewriteAttributes (baseUrl rewritten : Bytes) (pos : Nat) : Bytes :=
  match _hpos : find uriAttribute rewritten pos with
  | none => rewritten
  | some pos' =>
    let start := pos' + 5
    match _hend : find [quote] rewritten start with
    | none => rewritten
    | some stop =>
      let uri := substr rewritten start (stop - start)
      if shouldProxyManifestUri uri then
        let proxied := proxyHlsUrl (resolveUrl baseUrl uri)
        rewriteAttributes baseUrl (replace rewritten start (stop - start) proxied)
          (start + proxied.length)
      else rewriteAttributes baseUrl rewritten (stop + 1)
termination_by rewritten.length - pos
decreasing_by
  · -- what is still to be scanned loses the attribute's name and its value
    obtain ⟨h1, h2, h3⟩ := attribute_bounds _hpos _hend
    simp only [replace, List.length_append, List.length_take, List.length_drop]
    omega
  · obtain ⟨h1, h2, h3⟩ := attribute_bounds _hpos _hend
    omega

/-- `std::getline`: the text up to the next newline, which is dropped. -/
def getline (text : Bytes) : Option (Bytes × Bytes) :=
  match cut [10] text with
  | some x => some x
  | none => if text = [] then none else some (text, [])

theorem getline_lt {text line rest : Bytes} (h : getline text = some (line, rest)) :
    rest.length < text.length := by
  unfold getline at h
  split at h
  · next x hx =>
    cases h
    have hl := congrArg List.length (cut_eq_some hx).1
    simp only [List.length_append, List.length_singleton] at hl
    omega
  · split at h
    · cases h
    · next hne =>
      cases h
      exact List.length_pos_iff.2 hne

/-- The lines the `getline` loop reads. -/
def lines (text : Bytes) : List Bytes :=
  match _h : getline text with
  | none => []
  | some (line, rest) => line :: lines rest
termination_by text.length
decreasing_by exact getline_lt _h

/-- `line.pop_back()` after `line.back() == '\r'`. -/
def stripCr (line : Bytes) : Bytes :=
  if line.getLast? = some 13 then line.dropLast else line

def rewriteLine (baseUrl line : Bytes) : Bytes :=
  if line.isEmpty then []
  else if (ascii "#").isPrefixOf line then rewriteAttributes baseUrl line 0
  else proxyHlsUrl (resolveUrl baseUrl line)

def rewriteHlsManifest (text baseUrl : Bytes) : Bytes :=
  (lines text).flatMap fun line => rewriteLine baseUrl (stripCr line) ++ [10]

/-! ## Encoding -/

/-- A byte that an encoded text may contain. -/
def isEncoded (ch : UInt8) : Bool :=
  isAlnum ch || ch == 45 || ch == 95 || ch == 46 || ch == 126 || ch == 37

theorem forall_byte {P : UInt8 → Prop} (h : ∀ n < 256, P (UInt8.ofNat n)) (ch : UInt8) : P ch := by
  have := h ch.toNat ch.toNat_lt
  rwa [UInt8.ofNat_toNat] at this

theorem isEncoded_of_mem_encodeByte (ch : UInt8) : ∀ x ∈ encodeByte ch, isEncoded x = true := by
  refine forall_byte (P := fun ch => ∀ x ∈ encodeByte ch, isEncoded x = true) ?_ ch
  decide +kernel

theorem isEncoded_of_mem_urlEncode {text : Bytes} {x : UInt8} (h : x ∈ urlEncode text) :
    isEncoded x = true := by
  obtain ⟨ch, -, hx⟩ := List.mem_flatMap.1 h
  exact isEncoded_of_mem_encodeByte ch x hx

/-- The two digits of a byte. -/
theorem hexValue_kHex (ch : UInt8) :
    hexValue (kHex.getD (ch >>> 4).toNat 0) = some (ch >>> 4) ∧
      hexValue (kHex.getD (ch &&& 0x0f).toNat 0) = some (ch &&& 0x0f) ∧
      (ch >>> 4) <<< 4 ||| (ch &&& 0x0f) = ch := by
  refine forall_byte (P := fun ch => hexValue (kHex.getD (ch >>> 4).toNat 0) = some (ch >>> 4) ∧
    hexValue (kHex.getD (ch &&& 0x0f).toNat 0) = some (ch &&& 0x0f) ∧
    (ch >>> 4) <<< 4 ||| (ch &&& 0x0f) = ch) ?_ ch
  decide +kernel

theorem urlDecode_encodeByte (ch : UInt8) (rest : Bytes) :
    urlDecode (encodeByte ch ++ rest) = ch :: urlDecode rest := by
  unfold encodeByte
  split
  · next h =>
    have hne : ch ≠ 43 ∧ ch ≠ 37 := by
      constructor <;> rintro rfl <;> revert h <;> decide
    rw [List.singleton_append, urlDecode]
    · exact hne.1
    · intro _ _ _ h
      exact absurd h hne.2
  · obtain ⟨h1, h2, h3⟩ := hexValue_kHex ch
    simp only [List.cons_append, List.nil_append, urlDecode]
    rw [h1, h2]
    simp only [h3]

theorem urlDecode_urlEncode (text : Bytes) : urlDecode (urlEncode text) = text := by
  induction text with
  | nil => rfl
  | cons ch text ih =>
    rw [urlEncode, List.flatMap_cons, urlDecode_encodeByte]
    exact congrArg _ ih

theorem proxyHlsUrl_clean {url : Bytes} {x : UInt8} (h : x ∈ proxyHlsUrl url) :
    x ≠ quote ∧ x ≠ 10 := by
  obtain h | h := List.mem_append.1 h
  · have hfixed : ∀ x ∈ ascii "/proxy/hls?url=", x ≠ quote ∧ x ≠ 10 := by decide +kernel
    exact hfixed x h
  · have hx := isEncoded_of_mem_urlEncode h
    constructor <;> rintro rfl <;> revert hx <;> decide

/-! ## Attributes -/

/-- A line taken apart from the left: each closed attribute with the text in
front of it, and a rest in which no attribute is closed. -/
inductive Attributes : Bytes → List (Bytes × Bytes) → Bytes → Prop
  | rest {s : Bytes} (h : ¬ ∃ a v b, s = a ++ uriAttribute ++ v ++ [quote] ++ b) :
    Attributes s [] s
  | value {s a v b rest : Bytes} {t : List (Bytes × Bytes)}
    (hname : cut uriAttribute s = some (a, v ++ [quote] ++ b)) (hvalue : quote ∉ v)
    (h : Attributes b t rest) : Attributes s ((a, v) :: t) rest

/-- The line again, with `f` applied to the values. -/
def render (f : Bytes → Bytes) (t : List (Bytes × Bytes)) (rest : Bytes) : Bytes :=
  t.flatMap (fun x => x.1 ++ uriAttribute ++ f x.2 ++ [quote]) ++ rest

/-- What a value is replaced by. -/
def proxied (baseUrl uri : Bytes) : Bytes :=
  if shouldProxyManifestUri uri then proxyHlsUrl (resolveUrl baseUrl uri) else uri

theorem cut_quote {v : Bytes} (hv : quote ∉ v) (b : Bytes) :
    cut [quote] (v ++ [quote] ++ b) = some (v, b) := by
  refine cut_append (by decide) (fun h => hv ?_) b
  exact h.subset List.mem_cons_self

theorem attributes_exists (s : Bytes) : ∃ t rest, Attributes s t rest := by
  cases hname : cut uriAttribute s with
  | none =>
    refine ⟨[], s, .rest ?_⟩
    rintro ⟨a, v, b, rfl⟩
    exact cut_eq_none.1 hname ⟨a, v ++ [quote] ++ b, by simp [List.append_assoc]⟩
  | some x =>
    obtain ⟨a, c⟩ := x
    obtain ⟨hs, hfirst⟩ := cut_eq_some hname
    cases hvalue : cut [quote] c with
    | none =>
      -- the first attribute is open, and a later one would close it
      refine ⟨[], s, .rest ?_⟩
      rintro ⟨a', v, b, he⟩
      have hle := hfirst a' (v ++ [quote] ++ b) (by simp [he, List.append_assoc])
      refine cut_eq_none.1 hvalue ?_
      have hsuf : [quote] ++ b <:+ c := by
        have h1 : [quote] ++ b <:+ s := ⟨a' ++ uriAttribute ++ v, by simp [he, List.append_assoc]⟩
        have h2 : c <:+ s := ⟨a ++ uriAttribute, hs.symm⟩
        refine List.suffix_of_suffix_length_le h1 h2 ?_
        have hl := congrArg List.length (hs.symm.trans he)
        simp only [List.length_append] at hl ⊢
        omega
      exact (List.prefix_append [quote] b).isInfix.trans hsuf.isInfix
    | some x =>
      obtain ⟨v, b⟩ := x
      have hc := (cut_eq_some hvalue).1
      have hlt : b.length < s.length := by
        have hl := congrArg List.length hs
        rw [hc] at hl
        simp only [List.length_append, List.length_singleton] at hl
        omega
      obtain ⟨t, rest, h⟩ := attributes_exists b
      refine ⟨(a, v) :: t, rest, .value (hc ▸ hname) (fun hq => ?_) h⟩
      exact not_infix_of_cut (by simp) hvalue ((List.singleton_infix_iff _ _).2 hq)
termination_by s.length

theorem render_id {s rest : Bytes} {t : List (Bytes × Bytes)} (h : Attributes s t rest) :
    render id t rest = s := by
  induction h with
  | rest _ => rfl
  | value hname _ _ ih =>
    rw [(cut_eq_some hname).1, ← ih]
    simp [render, List.append_assoc]

/-! ## The loop -/

section Loop

variable {baseUrl text : Bytes} {pos pos' start stop : Nat}

theorem rewriteAttributes_none (h : find uriAttribute text pos = none) :
    rewriteAttributes baseUrl text pos = text := by
  unfold rewriteAttributes
  split
  · rfl
  · next hp =>
    rw [h] at hp
    cases hp

theorem rewriteAttributes_open (hpos : find uriAttribute text pos = some start)
    (hend : find [quote] text (start + 5) = none) :
    rewriteAttributes baseUrl text pos = text := by
  unfold rewriteAttributes
  split
  · rfl
  · next hp =>
    cases hpos.symm.trans hp
    dsimp only
    split
    · rfl
    · next he => cases hend.symm.trans he

theorem rewriteAttributes_value (hpos : find uriAttribute text pos = some start)
    (hend : find [quote] text (start + 5) = some stop) :
    rewriteAttributes baseUrl text pos =
      let uri := substr text (start + 5) (stop - (start + 5))
      let new := proxyHlsUrl (resolveUrl baseUrl uri)
      if shouldProxyManifestUri uri then
        rewriteAttributes baseUrl (replace text (start + 5) (stop - (start + 5)) new)
          (start + 5 + new.length)
      else rewriteAttributes baseUrl text (stop + 1) := by
  conv_lhs => unfold rewriteAttributes
  split
  · next hp => cases hpos.symm.trans hp
  · next hp =>
    cases hpos.symm.trans hp
    dsimp only
    split
    · next he => cases hend.symm.trans he
    · next he =>
      cases hend.symm.trans he
      rfl

/-- The position matters only for what is found from it. -/
theorem rewriteAttributes_congr
    (h : find uriAttribute text pos = find uriAttribute text pos') :
    rewriteAttributes baseUrl text pos = rewriteAttributes baseUrl text pos' := by
  unfold rewriteAttributes
  rw [h]

theorem find_append (pat done s : Bytes) :
    find pat (done ++ s) done.length = (cut pat s).map fun x => done.length + x.1.length := by
  rw [find, List.drop_left]

theorem find_name {s a c : Bytes} (hname : cut uriAttribute s = some (a, c)) (done : Bytes) :
    find uriAttribute (done ++ s) done.length = some (done ++ a).length := by
  rw [find_append, hname, List.length_append]
  rfl

theorem length_name (s : Bytes) : s.length + 5 = (s ++ uriAttribute).length := by
  rw [List.length_append]
  rfl

theorem find_quote {s a c : Bytes} (hname : cut uriAttribute s = some (a, c)) (done : Bytes) :
    find [quote] (done ++ s) ((done ++ a).length + 5) =
      (cut [quote] c).map fun x => (done ++ a).length + 5 + x.1.length := by
  have hs : done ++ s = done ++ a ++ uriAttribute ++ c := by
    rw [(cut_eq_some hname).1]
    simp only [List.append_assoc]
  rw [hs, length_name, find_append]

/-- No attribute begins at a quote. -/
theorem rewriteAttributes_quote (done b : Bytes) :
    rewriteAttributes baseUrl (done ++ [quote] ++ b) done.length =
      rewriteAttributes baseUrl (done ++ [quote] ++ b) (done ++ [quote]).length := by
  refine rewriteAttributes_congr ?_
  have hquote : ¬ uriAttribute <+: quote :: b := by
    rintro ⟨x, hx⟩
    exact absurd (List.cons.inj hx).1 (by decide)
  rw [find_append, List.append_assoc, find_append, List.singleton_append, cut_cons hquote,
    Option.map_map, List.length_append]
  congr 1
  funext x
  simp only [Function.comp_apply, List.length_cons, List.length_nil]
  omega

/-- One round on a closed attribute. -/
theorem rewriteAttributes_round {s a v b : Bytes}
    (hname : cut uriAttribute s = some (a, v ++ [quote] ++ b)) (hvalue : quote ∉ v)
    (done : Bytes) :
    let done' := done ++ a ++ uriAttribute ++ proxied baseUrl v ++ [quote]
    rewriteAttributes baseUrl (done ++ s) done.length =
      rewriteAttributes baseUrl (done' ++ b) done'.length := by
  intro done'
  have hs : done ++ s = done ++ a ++ uriAttribute ++ v ++ ([quote] ++ b) := by
    rw [(cut_eq_some hname).1]
    simp only [List.append_assoc]
  have hend : find [quote] (done ++ s) ((done ++ a).length + 5) =
      some ((done ++ a).length + 5 + v.length) := by
    rw [find_quote hname, cut_quote hvalue]
    rfl
  have huri : substr (done ++ s) ((done ++ a).length + 5) v.length = v := by
    rw [substr, hs, length_name, List.append_assoc _ v, List.drop_left, List.take_left]
  rw [rewriteAttributes_value (find_name hname done) hend]
  simp only [Nat.add_sub_cancel_left, huri]
  split
  · next hproxy =>
    -- the replacement ends at the closing quote
    have hnew : replace (done ++ s) ((done ++ a).length + 5) v.length
          (proxyHlsUrl (resolveUrl baseUrl v)) = done' ++ b := by
      rw [replace, hs, length_name, ← List.length_append, List.drop_left, List.append_assoc _ v,
        List.take_left]
      simp only [done', proxied, if_pos hproxy, List.append_assoc]
    rw [hnew, length_name, ← List.length_append]
    have hd : done ++ a ++ uriAttribute ++ proxyHlsUrl (resolveUrl baseUrl v) =
        done ++ a ++ uriAttribute ++ proxied baseUrl v := by
      rw [proxied, if_pos hproxy]
    rw [hd]
    exact rewriteAttributes_quote _ b
  · next hproxy =>
    have hd : done' = done ++ a ++ uriAttribute ++ v ++ [quote] := by
      simp only [done', proxied, if_neg hproxy]
    have hl : (done ++ a ++ uriAttribute ++ v).length + 1 = done'.length := by
      rw [hd]
      simp only [List.length_append, List.length_singleton]
    rw [hs, length_name, ← List.length_append, hl, hd]
    simp only [List.append_assoc]

/-- The text before the position is final, and what follows is rewritten as it
was read. -/
theorem rewriteAttributes_eq {s rest : Bytes} {t : List (Bytes × Bytes)}
    (h : Attributes s t rest) (done : Bytes) :
    rewriteAttributes baseUrl (done ++ s) done.length = done ++ render (proxied baseUrl) t rest := by
  induction h generalizing done with
  | @rest s hopen =>
    cases hname : cut uriAttribute s with
    | none => exact rewriteAttributes_none (by rw [find_append, hname]; rfl)
    | some x =>
      obtain ⟨a, c⟩ := x
      have hq : cut [quote] c = none := by
        rw [cut_eq_none]
        rintro ⟨v, b, hc⟩
        refine hopen ⟨a, v, b, ?_⟩
        rw [(cut_eq_some hname).1, ← hc]
        simp only [List.append_assoc]
      exact rewriteAttributes_open (find_name hname done) (by rw [find_quote hname, hq]; rfl)
  | value hname hvalue _ ih =>
    rw [rewriteAttributes_round hname hvalue done, ih]
    simp only [render, List.flatMap_cons, List.append_assoc]

end Loop

/-! ## Lines -/

theorem lines_nil : lines [] = [] := by
  unfold lines
  rfl

theorem lines_append {line : Bytes} (hline : (10 : UInt8) ∉ line) (rest : Bytes) :
    lines (line ++ [10] ++ rest) = line :: lines rest := by
  have hg : getline (line ++ [10] ++ rest) = some (line, rest) := by
    rw [getline, cut_append (by decide) (fun h => hline (h.subset List.mem_cons_self))]
  conv_lhs => unfold lines
  split
  · next h => cases hg.symm.trans h
  · next h =>
    cases hg.symm.trans h
    rfl

theorem lines_flatMap {t : List Bytes} (ht : ∀ line ∈ t, (10 : UInt8) ∉ line) :
    lines (t.flatMap fun line => line ++ [10]) = t := by
  induction t with
  | nil => exact lines_nil
  | cons line t ih =>
    rw [List.flatMap_cons, lines_append (ht line List.mem_cons_self),
      ih fun x hx => ht x (List.mem_cons_of_mem _ hx)]

theorem newline_notMem_of_mem_lines {text line : Bytes} (h : line ∈ lines text) :
    (10 : UInt8) ∉ line := by
  fun_induction lines text with
  | case1 => cases h
  | case2 text line' rest hg ih =>
    obtain rfl | h := List.mem_cons.1 h
    · intro hmem
      have hinf := (List.singleton_infix_iff _ _).2 hmem
      unfold getline at hg
      split at hg
      · next hc =>
        cases hg
        exact not_infix_of_cut (by simp) hc hinf
      · next hc =>
        split at hg
        · cases hg
        · cases hg
          exact cut_eq_none.1 hc hinf
    · exact ih h

theorem mem_of_mem_stripCr {line : Bytes} {x : UInt8} (h : x ∈ stripCr line) : x ∈ line := by
  unfold stripCr at h
  split at h
  · exact List.mem_of_mem_dropLast h
  · exact h

theorem mem_proxied {baseUrl v : Bytes} {x : UInt8} (h : x ∈ proxied baseUrl v) :
    x ∈ v ∨ x ≠ quote ∧ x ≠ 10 := by
  unfold proxied at h
  split at h
  · exact .inr (proxyHlsUrl_clean h)
  · exact .inl h

theorem mem_render {baseUrl rest : Bytes} {t : List (Bytes × Bytes)} {x : UInt8}
    (h : x ∈ render (proxied baseUrl) t rest) : x ∈ render id t rest ∨ x ≠ 10 := by
  obtain h | h := List.mem_append.1 h
  · obtain ⟨p, hp, h⟩ := List.mem_flatMap.1 h
    have hline : x ∈ p.1 ++ uriAttribute ++ p.2 ++ [quote] ∨ x ≠ 10 := by
      simp only [List.mem_append] at h ⊢
      obtain ((h | h) | h) | h := h
      · simp [h]
      · simp [h]
      · obtain h | h := mem_proxied h
        · simp [h]
        · exact .inr h.2
      · simp [h]
    exact hline.imp_left fun h => List.mem_append_left _ (List.mem_flatMap.2 ⟨p, hp, h⟩)
  · exact .inl (List.mem_append_right _ h)

theorem count_render {s rest : Bytes} {t : List (Bytes × Bytes)} (h : Attributes s t rest)
    (baseUrl : Bytes) : (render (proxied baseUrl) t rest).count quote = s.count quote := by
  rw [← render_id h]
  induction h with
  | rest _ => rfl
  | @value s a v b rest t hname hvalue _ ih =>
    have hv : v.count quote = 0 := List.count_eq_zero.2 hvalue
    have hp : (proxied baseUrl v).count quote = 0 := by
      refine List.count_eq_zero.2 fun hmem => ?_
      obtain h | h := mem_proxied hmem
      · exact hvalue h
      · exact h.1 rfl
    simp only [render, List.flatMap_cons, List.append_assoc, List.count_append, hp, hv, id] at ih ⊢
    rw [ih]

theorem newline_notMem_rewriteLine {baseUrl line : Bytes} (h : (10 : UInt8) ∉ line) :
    (10 : UInt8) ∉ rewriteLine baseUrl line := by
  unfold rewriteLine
  split
  · exact List.not_mem_nil
  · split
    · obtain ⟨t, rest, ha⟩ := attributes_exists line
      have heq : rewriteAttributes baseUrl line 0 = render (proxied baseUrl) t rest :=
        rewriteAttributes_eq ha []
      rw [heq]
      intro hmem
      obtain hmem | hne := mem_render hmem
      · exact h (render_id ha ▸ hmem)
      · exact hne rfl
    · exact fun hmem => (proxyHlsUrl_clean hmem).2 rfl

/-- **The rewriting is exact.** A manifest is rewritten line by line. An empty
line stays, a line that is no tag becomes a reference to the proxy, and in a tag
line the values of the closed attributes, and nothing else, are replaced; the
value of the query of a reference decodes to the resolved URL. -/
theorem rewriteHlsManifest_exact (text baseUrl : Bytes) :
    lines (rewriteHlsManifest text baseUrl) =
        (lines text).map (fun line => rewriteLine baseUrl (stripCr line)) ∧
      rewriteHlsManifest text baseUrl =
        (lines text).flatMap (fun line => rewriteLine baseUrl (stripCr line) ++ [10]) ∧
      rewriteLine baseUrl [] = [] ∧
      (∀ line ≠ [], line.head? ≠ some 35 →
        rewriteLine baseUrl line = proxyHlsUrl (resolveUrl baseUrl line)) ∧
      (∀ line : Bytes, line.head? = some 35 → (∃ t rest, Attributes line t rest) ∧
        ∀ t rest, Attributes line t rest → render id t rest = line ∧
          rewriteLine baseUrl line = render (proxied baseUrl) t rest ∧
          (rewriteLine baseUrl line).count quote = line.count quote) ∧
      ∀ url, ∃ value, proxyHlsUrl url = ascii "/proxy/hls?url=" ++ value ∧
        (∀ x ∈ value, isEncoded x = true) ∧ urlDecode value = url := by
  have htag : ∀ line : Bytes, (ascii "#").isPrefixOf line = true ↔ line.head? = some 35 := by
    intro line
    cases line with
    | nil => decide
    | cons x line =>
      have hhash : ascii "#" = [35] := by decide
      rw [hhash, List.isPrefixOf_iff_prefix, List.head?_cons, Option.some_inj]
      exact ⟨fun h => (List.cons_prefix_cons.1 h).1.symm, fun h => ⟨line, by rw [h]; rfl⟩⟩
  refine ⟨?_, rfl, rfl, fun line hne hno => ?_, fun line hhash => ?_, fun url => ?_⟩
  · rw [rewriteHlsManifest, ← List.flatMap_map (fun line => rewriteLine baseUrl (stripCr line))
      (fun line => line ++ [10]), lines_flatMap]
    intro line hmem
    obtain ⟨l, hl, rfl⟩ := List.mem_map.1 hmem
    exact newline_notMem_rewriteLine fun h =>
      newline_notMem_of_mem_lines hl (mem_of_mem_stripCr h)
  · rw [rewriteLine, if_neg (by simpa using hne), if_neg (by rwa [htag])]
  · have hrw : rewriteLine baseUrl line = rewriteAttributes baseUrl line 0 := by
      have hne : line.isEmpty = false := by
        cases line with
        | nil => cases hhash
        | cons _ _ => rfl
      rw [rewriteLine, hne, if_neg (by decide), if_pos ((htag line).2 hhash)]
    refine ⟨attributes_exists line, fun t rest h => ?_⟩
    have heq : rewriteLine baseUrl line = render (proxied baseUrl) t rest :=
      hrw.trans (rewriteAttributes_eq h [])
    exact ⟨render_id h, heq, heq ▸ count_render h baseUrl⟩
  · exact ⟨urlEncode url, rfl, fun _ => isEncoded_of_mem_urlEncode, urlDecode_urlEncode url⟩

end Hls

end IouringRuntime
