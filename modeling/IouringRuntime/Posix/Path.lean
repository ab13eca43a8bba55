import Mathlib.Data.List.Infix
import Mathlib.Data.List.TakeWhile

/-!
# Paths

A path is a text whose components are separated by `/`. `lexicallyNormal` is the
normal form of an absolute one: its names, with `.` and `..` resolved, and whether
it ends with a separator. Texts of paths are compared through their components
(`splitOn_append`): a text that begins with the text of a path has the components
of the path, except that its last one may go on (`components_of_isPrefix`).
-/

namespace Posix

def sep : UInt8 := 47

def dot : List UInt8 := [46]

def dotDot : List UInt8 := [46, 46]

/-- A component that names something in the directory before it. -/
def IsName (c : List UInt8) : Prop := c ≠ [] ∧ c ≠ dot ∧ c ≠ dotDot ∧ sep ∉ c

instance (c : List UInt8) : Decidable (IsName c) := inferInstanceAs (Decidable (_ ∧ _ ∧ _ ∧ _))

/-- What follows the last separator. -/
def filename (path : List UInt8) : List UInt8 := (path.splitOn sep).getLastD []

/-- The part of the file name from its last dot on, unless the name begins there. -/
def extension (path : List UInt8) : List UInt8 :=
  let name := filename path
  let stem := (name.reverse.dropWhile (· ≠ 46)).drop 1
  if name = dotDot ∨ stem = [] then [] else 46 :: (name.reverse.takeWhile (· ≠ 46)).reverse

def isAbsolute (path : List UInt8) : Bool := path.head? == some sep

/-- The path `q`, seen from `p`. -/
def append (p q : List UInt8) : List UInt8 :=
  if isAbsolute q then q
  else if filename p = [] then p ++ q
  else p ++ sep :: q

/-- What a function of the operating system sees of a path. -/
def cString (path : List UInt8) : List UInt8 := path.takeWhile (· ≠ 0)

/-- A text without a zero byte, as the operating system hands them out. -/
structure CText where
  bytes : List UInt8
  zero_notMem : (0 : UInt8) ∉ bytes

/-- An absolute path in normal form. -/
@[ext]
structure NormalPath where
  names : List (List UInt8)
  /-- Whether a separator follows the last name. -/
  trailing : Bool
  isName : ∀ c ∈ names, IsName c

namespace NormalPath

def text (p : NormalPath) : List UInt8 :=
  p.names.flatMap (sep :: ·) ++ if p.trailing ∨ p.names = [] then [sep] else []

/-- The root directory, the names, and an empty component behind a separator at the
end. -/
def components (p : NormalPath) : List (List UInt8) :=
  [sep] :: p.names ++ if p.trailing ∧ p.names ≠ [] then [[]] else []

end NormalPath

/-- The directory reached from `names` by one more component. -/
def enter (names : List (List UInt8)) (c : List UInt8) : List (List UInt8) :=
  if c = [] ∨ c = dot then names
  else if c = dotDot then names.dropLast
  else names ++ [c]

/-! ## Components -/

section Split

variable {p q c l : List UInt8}

theorem exists_splitOn (p : List UInt8) : ∃ init l, p.splitOn sep = init ++ [l] := by
  rcases List.eq_nil_or_concat (p.splitOn sep) with h | ⟨init, l, h⟩
  · exact absurd h (List.splitOn_ne_nil sep p)
  · exact ⟨init, l, by rw [h, List.concat_eq_append]⟩

theorem splitOn_inj (h : p.splitOn sep = q.splitOn sep) : p = q := by
  have hp : [sep].intercalate (p.splitOn sep) = p := List.intercalate_splitOn sep
  rw [← hp, h, List.intercalate_splitOn]

theorem mem_splitOn (h : c ∈ p.splitOn sep) : sep ∉ c ∧ ∀ b ∈ c, b ∈ p := by
  induction p generalizing c with
  | nil =>
    rw [List.splitOn_nil, List.mem_singleton] at h
    subst h
    exact ⟨List.not_mem_nil, fun b hb => absurd hb List.not_mem_nil⟩
  | cons a p ih =>
    rw [List.splitOn_cons_eq_if_modifyHead] at h
    split at h
    · rcases List.mem_cons.1 h with rfl | h
      · exact ⟨List.not_mem_nil, fun b hb => absurd hb List.not_mem_nil⟩
      · exact ⟨(ih h).1, fun b hb => List.mem_cons_of_mem a ((ih h).2 b hb)⟩
    · next hne =>
      obtain ⟨d, ds, hs⟩ := List.exists_cons_of_ne_nil (List.splitOn_ne_nil sep p)
      rw [hs] at h ih
      rcases List.mem_cons.1 h with rfl | h
      · obtain ⟨h1, h2⟩ := ih (List.mem_cons_self ..)
        refine ⟨?_, ?_⟩
        · rw [List.mem_cons, not_or]
          exact ⟨fun he => hne (by rw [he, beq_self_eq_true]), h1⟩
        · intro b hb
          rcases List.mem_cons.1 hb with rfl | hb
          · exact List.mem_cons_self ..
          · exact List.mem_cons_of_mem a (h2 b hb)
      · obtain ⟨h1, h2⟩ := ih (List.mem_cons_of_mem d h)
        exact ⟨h1, fun b hb => List.mem_cons_of_mem a (h2 b hb)⟩

/-- The last component of the first text goes on with the second. -/
theorem splitOn_append (q : List UInt8) {init : List (List UInt8)}
    (h : p.splitOn sep = init ++ [l]) :
    (p ++ q).splitOn sep = init ++ (q.splitOn sep).modifyHead (l ++ ·) := by
  obtain ⟨d, ds, hq⟩ := List.exists_cons_of_ne_nil (List.splitOn_ne_nil sep q)
  rw [hq]
  induction p generalizing init l with
  | nil =>
    have h' : init ++ [l] = [] ++ [[]] := h.symm.trans (List.splitOn_nil sep)
    obtain ⟨rfl, rfl⟩ := List.append_singleton_inj.1 h'
    exact hq
  | cons a p ih =>
    obtain ⟨init', l', hp⟩ := exists_splitOn p
    have ih := ih hp
    rw [List.splitOn_cons_eq_if_modifyHead, hp] at h
    rw [List.cons_append, List.splitOn_cons_eq_if_modifyHead, ih]
    by_cases ha : (a == sep) = true
    · rw [if_pos ha] at h ⊢
      have h' : init ++ [l] = ([] :: init') ++ [l'] := h.symm
      obtain ⟨rfl, rfl⟩ := List.append_singleton_inj.1 h'
      rfl
    · rw [if_neg ha] at h ⊢
      cases init' with
      | nil =>
        have h' : init ++ [l] = [] ++ [a :: l'] := h.symm
        obtain ⟨rfl, rfl⟩ := List.append_singleton_inj.1 h'
        rfl
      | cons e es =>
        have h' : init ++ [l] = ((a :: e) :: es) ++ [l'] := h.symm
        obtain ⟨rfl, rfl⟩ := List.append_singleton_inj.1 h'
        rfl

theorem splitOn_append_of_notMem (h : sep ∉ c) (q : List UInt8) :
    (c ++ q).splitOn sep = (q.splitOn sep).modifyHead (c ++ ·) := by
  have hc : c.splitOn sep = [] ++ [c] := List.splitOn_eq_singleton h
  exact splitOn_append q hc

/-- A text that begins with another one has its components, but the last of them may
go on. -/
theorem components_of_isPrefix (h : p <+: q) {init : List (List UInt8)}
    (hp : p.splitOn sep = init ++ [l]) : ∃ x more, q.splitOn sep = init ++ (l ++ x) :: more := by
  obtain ⟨u, rfl⟩ := h
  obtain ⟨d, ds, hu⟩ := List.exists_cons_of_ne_nil (List.splitOn_ne_nil sep u)
  exact ⟨d, ds, by rw [splitOn_append u hp, hu]; rfl⟩

theorem filename_of_splitOn {init : List (List UInt8)} (h : p.splitOn sep = init ++ [l]) :
    filename p = l := by
  rw [filename, h, List.getLastD_concat]

theorem splitOn_names {names : List (List UInt8)} (h : ∀ c ∈ names, sep ∉ c) (q : List UInt8)
    {rest : List (List UInt8)} (hq : q.splitOn sep = [] :: rest) :
    (names.flatMap (sep :: ·) ++ q).splitOn sep = [] :: names ++ rest := by
  induction names with
  | nil => exact hq
  | cons c names ih =>
    rw [List.forall_mem_cons] at h
    rw [List.flatMap_cons, List.append_assoc]
    show (sep :: (c ++ (names.flatMap (sep :: ·) ++ q))).splitOn sep = _
    rw [List.splitOn_cons_eq_if_modifyHead, if_pos (beq_self_eq_true sep),
      splitOn_append_of_notMem h.1, ih h.2]
    simp

end Split

/-! ## Normal forms -/

theorem enter_nil (names : List (List UInt8)) : enter names [] = names := if_pos (.inl rfl)

theorem enter_name {c : List UInt8} (h : IsName c) (names : List (List UInt8)) :
    enter names c = names ++ [c] := by
  obtain ⟨h1, h2, h3, -⟩ := h
  rw [enter, if_neg (not_or.2 ⟨h1, h2⟩), if_neg h3]

theorem foldl_enter_names {cs : List (List UInt8)} (h : ∀ c ∈ cs, IsName c) :
    ∀ names, cs.foldl enter names = names ++ cs := by
  induction cs with
  | nil => intro names; exact (List.append_nil _).symm
  | cons c cs ih =>
    intro names
    rw [List.forall_mem_cons] at h
    rw [List.foldl_cons, enter_name h.1, ih h.2, List.append_assoc]
    rfl

theorem isName_enter {names : List (List UInt8)} {c : List UInt8} (h : ∀ n ∈ names, IsName n)
    (hc : sep ∉ c) : ∀ n ∈ enter names c, IsName n := by
  intro n hn
  unfold enter at hn
  split at hn
  · exact h n hn
  · next h1 =>
    split at hn
    · exact h n (List.mem_of_mem_dropLast hn)
    · next h2 =>
      rcases List.mem_append.1 hn with hn | hn
      · exact h n hn
      · rw [List.mem_singleton.1 hn]
        exact ⟨fun he => h1 (.inl he), fun he => h1 (.inr he), h2, hc⟩

theorem isName_foldl_enter {cs : List (List UInt8)} (hcs : ∀ c ∈ cs, sep ∉ c) :
    ∀ {names : List (List UInt8)}, (∀ n ∈ names, IsName n) →
      ∀ n ∈ cs.foldl enter names, IsName n := by
  induction cs with
  | nil => intro names h; exact h
  | cons c cs ih =>
    intro names h
    rw [List.forall_mem_cons] at hcs
    exact ih hcs.2 (isName_enter h hcs.1)

/-- The lexically normal form of an absolute path. -/
def lexicallyNormal (path : List UInt8) : NormalPath where
  names := (path.splitOn sep).foldl enter []
  trailing := !decide (IsName (filename path))
  isName :=
    isName_foldl_enter (fun _ hc => (mem_splitOn hc).1) (fun _ hn => absurd hn List.not_mem_nil)

/-- The absolute path in normal form, seen from the working directory. -/
def absoluteNormal (cwd path : List UInt8) : NormalPath :=
  lexicallyNormal (if isAbsolute path then path else append cwd path)

section Normal

variable {p : NormalPath} {path rel : List UInt8}

theorem NormalPath.splitOn_text (p : NormalPath) :
    p.text.splitOn sep = [] :: p.names ++ if p.trailing ∨ p.names = [] then [[]] else [] := by
  refine splitOn_names (fun c hc => (p.isName c hc).2.2.2) _ ?_
  split <;> decide

theorem names_text (p : NormalPath) : (lexicallyNormal p.text).names = p.names := by
  show (p.text.splitOn sep).foldl enter [] = p.names
  rw [p.splitOn_text, List.foldl_append, List.foldl_cons, enter_nil, foldl_enter_names p.isName,
    List.nil_append]
  split
  · exact enter_nil _
  · rfl

/-- A relative path is followed from the end of the path before it. -/
theorem splitOn_append_path (path : List UInt8) (h : isAbsolute rel = false) :
    ∃ init, (append path rel).splitOn sep = init ++ rel.splitOn sep ∧
      init.foldl enter [] = (lexicallyNormal path).names := by
  rw [append, if_neg (by rw [h]; exact Bool.false_ne_true)]
  split
  · next hf =>
    obtain ⟨init, l, hpath⟩ := exists_splitOn path
    obtain rfl : l = [] := (filename_of_splitOn hpath).symm.trans hf
    have hid : (rel.splitOn sep).modifyHead ([] ++ ·) = rel.splitOn sep :=
      congrFun List.modifyHead_id _
    refine ⟨init, by rw [splitOn_append rel hpath, hid], ?_⟩
    show _ = (path.splitOn sep).foldl enter []
    rw [hpath, List.foldl_append]
    exact (enter_nil _).symm
  · exact ⟨path.splitOn sep, List.splitOn_append_cons_self _ _, rfl⟩

theorem names_append (path : List UInt8) (h : isAbsolute rel = false) :
    (lexicallyNormal (append path rel)).names =
      (rel.splitOn sep).foldl enter (lexicallyNormal path).names := by
  obtain ⟨init, hsplit, hinit⟩ := splitOn_append_path path h
  show ((append path rel).splitOn sep).foldl enter [] = _
  rw [hsplit, List.foldl_append, hinit]

theorem filename_append (path : List UInt8) (h : isAbsolute rel = false) :
    filename (append path rel) = filename rel := by
  obtain ⟨init, hsplit, -⟩ := splitOn_append_path path h
  obtain ⟨init', l, hrel⟩ := exists_splitOn rel
  rw [filename_of_splitOn hrel]
  exact filename_of_splitOn (by rw [hsplit, hrel, ← List.append_assoc])

theorem isAbsolute_text (p : NormalPath) : isAbsolute p.text = true := by
  unfold NormalPath.text
  cases hn : p.names with
  | nil => rw [if_pos (.inr rfl)]; rfl
  | cons c names => rfl

/-- The normal form of an absolute path is found from anywhere. -/
theorem absoluteNormal_of_isAbsolute (cwd : List UInt8) (h : isAbsolute path = true) :
    absoluteNormal cwd path = lexicallyNormal path := by
  rw [absoluteNormal, if_pos h]

theorem isAbsolute_append (h : isAbsolute path = true) (rel : List UInt8) :
    isAbsolute (append path rel) = true := by
  unfold append
  split
  · assumption
  · cases path with
    | nil => cases h
    | cons a path => split <;> exact h

/-! ## Beginnings of texts -/

theorem splitOn_text_of_names (hn : p.names ≠ []) (ht : p.trailing = false) :
    p.text.splitOn sep = [] :: p.names := by
  rw [p.splitOn_text, if_neg (by rw [ht]; simp [hn]), List.append_nil]

/-- A beginning of a normal path that ends with a name is a normal path. -/
theorem text_of_isPrefix (h : path <+: p.text) (hname : IsName (filename path)) :
    ∃ q : NormalPath, q.names ≠ [] ∧ q.trailing = false ∧ q.text = path := by
  obtain ⟨init, l, hpath⟩ := exists_splitOn path
  rw [filename_of_splitOn hpath] at hname
  obtain ⟨x, more, htext⟩ := components_of_isPrefix h hpath
  rw [p.splitOn_text] at htext
  have hne : l ++ x ≠ [] := by
    intro he
    exact hname.1 (List.append_eq_nil_iff.1 he).1
  cases init with
  | nil => exact absurd (List.cons.inj htext).1.symm hne
  | cons c init =>
    obtain ⟨rfl, hnames⟩ : [] = c ∧ p.names ++ _ = init ++ (l ++ x) :: more := List.cons.inj htext
    -- the components before the last one are names of the path
    have hinit : ∀ c ∈ init, c ∈ p.names := by
      rcases List.append_eq_append_iff.1 hnames with ⟨a, -, ha⟩ | ⟨a, ha, -⟩
      · have hmem :
            l ++ x ∈ (if p.trailing ∨ p.names = [] then [[]] else [] : List (List UInt8)) := by
          rw [ha]
          exact List.mem_append_right _ (List.mem_cons_self ..)
        split at hmem
        · exact absurd (List.mem_singleton.1 hmem) hne
        · cases hmem
      · intro c hc
        rw [ha]
        exact List.mem_append_left _ hc
    let q : NormalPath :=
      { names := init ++ [l]
        trailing := false
        isName := by
          intro c hc
          rcases List.mem_append.1 hc with hc | hc
          · exact p.isName c (hinit c hc)
          · rw [List.mem_singleton.1 hc]; exact hname }
    have hq : q.names ≠ [] := by simp [q]
    exact ⟨q, hq, rfl, splitOn_inj ((splitOn_text_of_names hq rfl).trans hpath.symm)⟩

/-- If one text begins with another, so do the names, but for the last one. -/
theorem names_of_text_isPrefix {r : NormalPath} {parent : List (List UInt8)} {name : List UInt8}
    (hr : r.names = parent ++ [name]) (hrt : r.trailing = false) (hn : p.names ≠ [])
    (ht : p.trailing = false) (h : r.text <+: p.text) :
    ∃ x more, p.names = parent ++ (name ++ x) :: more := by
  have hr' : r.text.splitOn sep = ([] :: parent) ++ [name] := by
    rw [splitOn_text_of_names (by rw [hr]; simp) hrt, hr]
    rfl
  obtain ⟨x, more, htext⟩ := components_of_isPrefix h hr'
  rw [splitOn_text_of_names hn ht] at htext
  exact ⟨x, more, (List.cons.inj htext).2⟩

theorem text_of_names (hn : p.names ≠ []) (ht : p.trailing = false) :
    p.text = p.names.flatMap (sep :: ·) := by
  rw [NormalPath.text, if_neg (by rw [ht]; simp [hn]), List.append_nil]

/-- A name that goes on is one that the text cannot tell from the name. -/
theorem text_prefix_of_names {r : NormalPath} {parent more : List (List UInt8)}
    {name x : List UInt8} (hr : r.names = parent ++ [name]) (hrt : r.trailing = false)
    (hp : p.names = parent ++ (name ++ x) :: more) : r.text <+: p.text := by
  refine List.IsPrefix.trans ?_ (List.prefix_append _ _)
  rw [text_of_names (by rw [hr]; simp) hrt, hr, hp, List.flatMap_append, List.flatMap_append,
    List.prefix_append_right_inj, List.flatMap_singleton, List.flatMap_cons, List.cons_append,
    List.append_assoc]
  exact List.cons_prefix_cons.2 ⟨rfl, List.prefix_append _ _⟩

theorem trailing_of_isName (h : IsName (filename p.text)) : p.trailing = false := by
  by_contra ht
  rw [Bool.not_eq_false] at ht
  have hsplit := p.splitOn_text
  rw [if_pos (.inl ht)] at hsplit
  rw [filename_of_splitOn hsplit] at h
  exact h.1 rfl

/-- A path that leaves a directory by `..` and enters another beside it. -/
theorem lexicallyNormal_append_dotDot {r : NormalPath} {parent ms : List (List UInt8)}
    {name : List UInt8} (hr : r.names = parent ++ [name]) (hne : ms ≠ [])
    (hp : p.names = parent ++ ms) (ht : p.trailing = false) :
    lexicallyNormal (append r.text (dotDot ++ ms.flatMap (sep :: ·))) = p := by
  have hisName : ∀ c ∈ ms, IsName c := by
    intro c hc
    exact p.isName c (by rw [hp]; exact List.mem_append_right _ hc)
  have hsplit : (dotDot ++ ms.flatMap (sep :: ·)).splitOn sep = dotDot :: ms := by
    have hnames := splitOn_names (fun c hc => (hisName c hc).2.2.2) [] (List.splitOn_nil sep)
    rw [List.append_nil, List.append_nil] at hnames
    rw [splitOn_append_of_notMem (by decide), hnames]
    rfl
  have hlast : filename (dotDot ++ ms.flatMap (sep :: ·)) = ms.getLast hne := by
    have hcons : dotDot :: ms = (dotDot :: ms.dropLast) ++ [ms.getLast hne] := by
      rw [List.cons_append, List.dropLast_concat_getLast]
    exact filename_of_splitOn (hsplit.trans hcons)
  have hrel : isAbsolute (dotDot ++ ms.flatMap (sep :: ·)) = false := rfl
  refine NormalPath.ext ?_ ?_
  · rw [names_append _ hrel, hsplit, names_text, hr, hp, List.foldl_cons,
      foldl_enter_names hisName]
    exact congrArg (· ++ ms) List.dropLast_concat
  · show (!decide (IsName (filename (append _ _)))) = _
    rw [filename_append _ hrel, hlast, decide_eq_true (hisName _ (List.getLast_mem hne)), ht]
    rfl

/-- The names of a path that ends with a name. -/
theorem names_of_splitOn {init : List (List UInt8)} {name : List UInt8}
    (h : path.splitOn sep = init ++ [name]) (hname : IsName name) :
    (lexicallyNormal path).names = init.foldl enter [] ++ [name] ∧
      (lexicallyNormal path).trailing = false := by
  refine ⟨?_, ?_⟩
  · show (path.splitOn sep).foldl enter [] = _
    rw [h, List.foldl_append]
    exact enter_name hname _
  · show (!decide (IsName (filename path))) = false
    rw [filename_of_splitOn h, decide_eq_true hname]
    rfl

/-- Of the components, the names are those that are not empty. -/
theorem names_of_components_isPrefix {r : NormalPath} (h : r.components <+: p.components) :
    r.names <+: p.names := by
  have hnames : r.names <+: p.names ++ if p.trailing ∧ p.names ≠ [] then [[]] else [] :=
    (List.prefix_append _ _).trans (List.cons_prefix_cons.1 h).2
  rcases List.prefix_or_prefix_of_prefix hnames (List.prefix_append _ _) with h | ⟨u, hu⟩
  · exact h
  · rw [← hu, List.prefix_append_right_inj] at hnames
    cases u with
    | nil => rw [← hu, List.append_nil]
    | cons c u =>
      -- only the empty component can follow the names, and it is none
      have hc : c ∈ (if p.trailing ∧ p.names ≠ [] then [[]] else [] : List (List UInt8)) :=
        hnames.subset (List.mem_cons_self ..)
      have hname := r.isName c (by rw [← hu]; exact List.mem_append_right _ (List.mem_cons_self ..))
      split at hc
      · exact absurd (List.mem_singleton.1 hc) hname.1
      · cases hc

theorem cString_isPrefix (path : List UInt8) : cString path <+: path := List.takeWhile_prefix _

/-- What has no zero byte is not cut. -/
theorem prefix_cString {q : List UInt8} (h0 : (0 : UInt8) ∉ q) (h : q <+: path) :
    q <+: cString path := by
  obtain ⟨u, rfl⟩ := h
  have hall : ∀ b ∈ q, decide (b ≠ 0) = true := by
    intro b hb
    exact decide_eq_true fun he => h0 (he ▸ hb)
  exact ⟨cString u, (List.takeWhile_append_of_pos hall).symm⟩

theorem cString_eq_self (h0 : (0 : UInt8) ∉ path) : cString path = path :=
  (cString_isPrefix path).eq_of_length_le (prefix_cString h0 List.prefix_rfl).length_le

theorem zero_notMem_cString (path : List UInt8) : (0 : UInt8) ∉ cString path := by
  intro h0
  have hne := List.mem_takeWhile_imp (p := fun b : UInt8 => decide (b ≠ 0)) h0
  exact absurd hne (by decide)

/-- What a text goes on with after names is cut between two components or inside a later
one. -/
theorem names_of_cString_text {root : List (List UInt8)} {q : NormalPath}
    (h0 : ∀ c ∈ root, (0 : UInt8) ∉ c) (h : root <+: p.names) (hn : q.names ≠ [])
    (ht : q.trailing = false) (hq : q.text = cString p.text) : root <+: q.names := by
  obtain ⟨more, hmore⟩ := h
  obtain ⟨u, hu, hhead⟩ : ∃ u, p.text = root.flatMap (sep :: ·) ++ u ∧
      (u = [] ∨ ∃ v, u = sep :: v) := by
    refine ⟨more.flatMap (sep :: ·) ++ if p.trailing ∨ p.names = [] then [sep] else [], ?_, ?_⟩
    · rw [NormalPath.text, ← List.append_assoc, ← List.flatMap_append, hmore]
    · cases more with
      | nil => split; exacts [.inr ⟨[], rfl⟩, .inl rfl]
      | cons c more => exact .inr ⟨_, rfl⟩
  have hroot : ∀ b ∈ root.flatMap (sep :: ·), decide (b ≠ 0) = true := by
    intro b hb
    obtain ⟨c, hc, hb⟩ := List.mem_flatMap.1 hb
    rcases List.mem_cons.1 hb with rfl | hb
    · rfl
    · exact decide_eq_true fun he => h0 c hc (he ▸ hb)
  have hcut : q.text = root.flatMap (sep :: ·) ++ cString u := by
    rw [hq, hu]
    exact List.takeWhile_append_of_pos hroot
  obtain ⟨rest, hrest⟩ : ∃ rest, (cString u).splitOn sep = [] :: rest := by
    rcases hhead with rfl | ⟨v, rfl⟩
    · exact ⟨[], List.splitOn_nil sep⟩
    · refine ⟨(cString v).splitOn sep, ?_⟩
      show (sep :: cString v).splitOn sep = _
      rw [List.splitOn_cons_eq_if_modifyHead, if_pos (beq_self_eq_true sep)]
  have hsep : ∀ c ∈ root, sep ∉ c := by
    intro c hc
    exact (p.isName c (by rw [← hmore]; exact List.mem_append_left _ hc)).2.2.2
  have hsplit := splitOn_names hsep _ hrest
  rw [← hcut, splitOn_text_of_names hn ht] at hsplit
  exact ⟨rest, (List.cons.inj hsplit).2.symm⟩

theorem mem_foldl_enter {c : List UInt8} {cs : List (List UInt8)} :
    ∀ {names : List (List UInt8)}, c ∈ cs.foldl enter names → c ∈ names ∨ c ∈ cs := by
  induction cs with
  | nil => intro names h; exact .inl h
  | cons d cs ih =>
    intro names h
    rcases ih h with h | h
    · unfold enter at h
      split at h
      · exact .inl h
      · split at h
        · exact .inl (List.mem_of_mem_dropLast h)
        · rcases List.mem_append.1 h with h | h
          · exact .inl h
          · exact .inr (List.mem_cons.2 (.inl (List.mem_singleton.1 h)))
    · exact .inr (List.mem_cons_of_mem d h)

theorem zero_notMem_text (h : (0 : UInt8) ∉ path) : (0 : UInt8) ∉ (lexicallyNormal path).text := by
  intro h0
  rcases List.mem_append.1 h0 with h0 | h0
  · obtain ⟨c, hc, h0⟩ := List.mem_flatMap.1 h0
    rcases List.mem_cons.1 h0 with h0 | h0
    · cases h0
    · rcases mem_foldl_enter hc with hc | hc
      · cases hc
      · exact h ((mem_splitOn hc).2 0 h0)
  · split at h0
    · cases List.mem_singleton.1 h0
    · cases h0

theorem zero_notMem_append {q : List UInt8} (hpath : (0 : UInt8) ∉ path) (hq : (0 : UInt8) ∉ q) :
    (0 : UInt8) ∉ append path q := by
  have hsep : (0 : UInt8) ∉ sep :: q := by
    rw [List.mem_cons, not_or]
    exact ⟨by decide, hq⟩
  unfold append
  split
  · exact hq
  · split
    · exact fun h => (List.mem_append.1 h).elim hpath hq
    · exact fun h => (List.mem_append.1 h).elim hpath hsep

end Normal

end Posix
