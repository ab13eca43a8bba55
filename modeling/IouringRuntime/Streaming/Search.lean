import Mathlib.Data.List.Infix

/-!
# Searching a text for a pattern

`cut pat s` takes `s` apart at the first occurrence of `pat`. `splitOn` repeats
it. A pattern that does not overlap itself (`Unbordered`) is first found at the
end of a text that does not contain it (`cut_append`), which is what makes
printing with a separator and splitting at it inverse to each other
(`splitOn_join`).
-/

namespace Search

variable {α : Type} [DecidableEq α]

/-- What stands before and after the first occurrence of `pat`. -/
def cut (pat : List α) : List α → Option (List α × List α)
  | [] => if pat = [] then some ([], []) else none
  | a :: s =>
    if pat <+: a :: s then some ([], (a :: s).drop pat.length)
    else (cut pat s).map fun x => (a :: x.1, x.2)

variable {pat s a b : List α} {c : α}

theorem cut_pre (h : pat <+: s) : cut pat s = some ([], s.drop pat.length) := by
  cases s with
  | nil => simp [cut, List.prefix_nil.1 h]
  | cons c s => rw [cut, if_pos h]

theorem cut_cons (h : ¬ pat <+: c :: s) :
    cut pat (c :: s) = (cut pat s).map fun x => (c :: x.1, x.2) := by
  rw [cut, if_neg h]

/-- The parts and the pattern make up the text, and the pattern stands nowhere
before. -/
theorem cut_eq_some (h : cut pat s = some (a, b)) :
    s = a ++ pat ++ b ∧ ∀ a' b', s = a' ++ pat ++ b' → a.length ≤ a'.length := by
  induction s generalizing a with
  | nil =>
    rw [cut] at h
    split at h
    · next hp =>
      cases h
      exact ⟨by simp [hp], fun _ _ _ => Nat.zero_le _⟩
    · cases h
  | cons c s ih =>
    by_cases hp : pat <+: c :: s
    · rw [cut_pre hp] at h
      cases h
      exact ⟨(List.prefix_iff_eq_append.1 hp).symm, fun _ _ _ => Nat.zero_le _⟩
    · rw [cut_cons hp, Option.map_eq_some_iff] at h
      obtain ⟨⟨x, y⟩, hx, he⟩ := h
      cases he
      obtain ⟨h1, h2⟩ := ih hx
      refine ⟨by simp [h1], fun a' b' he => ?_⟩
      cases a' with
      | nil => exact absurd ⟨b', he.symm⟩ hp
      | cons d a' =>
        have := h2 a' b' (by simpa using (List.cons.inj he).2)
        simpa using this

theorem cut_eq_none : cut pat s = none ↔ ¬ pat <:+: s := by
  induction s with
  | nil => by_cases hp : pat = [] <;> simp [cut, hp]
  | cons c s ih =>
    by_cases hp : pat <+: c :: s
    · simp [cut_pre hp, hp.isInfix]
    · rw [cut_cons hp, Option.map_eq_none_iff, ih, List.infix_cons_iff]
      simp [hp]

/-- The first occurrence is where a split says it is. -/
theorem cut_of_first (hs : s = a ++ pat ++ b)
    (hfirst : ∀ a' b', s = a' ++ pat ++ b' → a.length ≤ a'.length) :
    cut pat s = some (a, b) := by
  cases hc : cut pat s with
  | none => exact absurd ⟨a, b, hs.symm⟩ (cut_eq_none.1 hc)
  | some x =>
    obtain ⟨x, y⟩ := x
    obtain ⟨h1, h2⟩ := cut_eq_some hc
    have hl : x.length = a.length := Nat.le_antisymm (h2 a b hs) (hfirst x y h1)
    have he := h1.symm.trans hs
    rw [List.append_assoc, List.append_assoc] at he
    obtain ⟨rfl, hy⟩ := List.append_inj he hl
    rw [List.append_cancel_left hy]

/-- No proper end of the pattern is also its beginning. -/
def Unbordered (pat : List α) : Prop :=
  ∀ k, 0 < k → k < pat.length → ¬ pat.drop k <+: pat

instance (pat : List α) : Decidable (Unbordered pat) :=
  decidable_of_iff (∀ k < pat.length, 0 < k → ¬ pat.drop k <+: pat)
    ⟨fun h k h0 hk => h k hk h0, fun h k hk h0 => h k h0 hk⟩

omit [DecidableEq α] in
/-- The pattern after `a` is its first occurrence, if `a` does not contain it. -/
theorem Unbordered.first (hu : Unbordered pat) (ha : ¬ pat <:+: a) {a' b' : List α}
    (h : a ++ pat ++ b = a' ++ pat ++ b') : a.length ≤ a'.length := by
  by_contra hlt
  rw [not_le] at hlt
  -- the occurrence begins inside `a`: it ends there, or its end is a beginning of the pattern
  rw [List.append_assoc, List.append_assoc] at h
  obtain ⟨m, hm, hm'⟩ : ∃ m, a = a' ++ m ∧ pat ++ b' = m ++ (pat ++ b) := by
    obtain ⟨m, h1, h2⟩ | ⟨m, h1, h2⟩ := List.append_eq_append_iff.1 h
    · rw [h1, List.length_append] at hlt
      omega
    · exact ⟨m, h1, h2⟩
  have hm0 : 0 < m.length := by
    rw [hm, List.length_append] at hlt
    omega
  obtain ⟨n, h1, h2⟩ | ⟨n, h1, h2⟩ := List.append_eq_append_iff.1 hm'
  · exact ha ⟨a', n, by rw [hm, h1, List.append_assoc]⟩
  · by_cases hn : n = []
    · subst hn
      rw [List.append_nil] at h1
      exact ha ⟨a', [], by rw [hm, h1, List.append_nil]⟩
    · have hn0 : 0 < n.length := List.length_pos_iff.2 hn
      have hl : pat.length = m.length + n.length := by rw [h1, List.length_append]
      refine hu m.length hm0 (by omega) ?_
      have hd : pat.drop m.length = n := by
        conv_lhs => rw [h1]
        rw [List.drop_left]
      rw [hd]
      have hn' : n <+: pat ++ b := ⟨b', h2.symm⟩
      exact List.prefix_of_prefix_length_le hn' (List.prefix_append _ _) (by omega)

theorem cut_append (hu : Unbordered pat) (ha : ¬ pat <:+: a) (b : List α) :
    cut pat (a ++ pat ++ b) = some (a, b) :=
  cut_of_first rfl fun _ _ h => hu.first ha h

theorem not_infix_of_cut (hpat : pat ≠ []) (h : cut pat s = some (a, b)) : ¬ pat <:+: a := by
  rintro ⟨x, y, hxy⟩
  obtain ⟨h1, h2⟩ := cut_eq_some h
  have hle := h2 x (y ++ pat ++ b) (by rw [h1, ← hxy]; simp [List.append_assoc])
  have hlen := congrArg List.length hxy
  have hpos := List.length_pos_iff.2 hpat
  simp only [List.length_append] at hlen
  omega

/-- An occurrence is still the first one when the text goes on. -/
theorem cut_extend (h : cut pat s = some (a, b)) (t : List α) :
    cut pat (s ++ t) = some (a, b ++ t) := by
  obtain ⟨hs, hfirst⟩ := cut_eq_some h
  refine cut_of_first (by rw [hs, List.append_assoc]) fun a' b' he => ?_
  by_contra hlt
  -- an occurrence further in front would end inside `s`
  have hlen := congrArg List.length hs
  simp only [List.length_append] at hlen
  have hpre : a' ++ pat <+: s ++ t := ⟨b', he.symm⟩
  obtain ⟨y, hy⟩ := List.prefix_of_prefix_length_le hpre (List.prefix_append s t)
    (by rw [List.length_append]; omega)
  exact hlt (hfirst a' y hy.symm)

/-! ## Single characters -/

theorem cut_singleton (ha : c ∉ a) (b : List α) : cut [c] (a ++ c :: b) = some (a, b) := by
  have hu : Unbordered [c] := by
    intro k h0 hk
    rw [List.length_singleton] at hk
    omega
  rw [List.append_cons]
  exact cut_append hu (mt (List.singleton_infix_iff _ _).1 ha) b

theorem cut_singleton_none (hs : c ∉ s) : cut [c] s = none :=
  cut_eq_none.2 (mt (List.singleton_infix_iff _ _).1 hs)

/-! ## Splitting -/

/-- The parts of a text between the occurrences of `pat`. -/
def splitOn (pat s : List α) : List (List α) :=
  match cut pat s with
  | none => [s]
  | some (a, b) => if b.length < s.length then a :: splitOn pat b else [a]
termination_by s.length

/-- Parts with the separator between them. -/
def join (pat : List α) : List (List α) → List α
  | [] => []
  | [a] => a
  | a :: a' :: t => a ++ pat ++ join pat (a' :: t)

omit [DecidableEq α] in
theorem join_append {t : List (List α)} (ht : t ≠ []) :
    join pat t ++ pat = t.flatMap fun a => a ++ pat := by
  induction t with
  | nil => exact absurd rfl ht
  | cons a t ih =>
    cases t with
    | nil => simp [join]
    | cons a' t =>
      rw [join, List.append_assoc, ih (by simp)]
      rfl

theorem splitOn_not_infix (hpat : pat ≠ []) : ∀ a ∈ splitOn pat s, ¬ pat <:+: a := by
  fun_induction splitOn pat s with
  | case1 s h =>
    intro a ha
    rw [List.mem_singleton.1 ha]
    exact cut_eq_none.1 h
  | case2 s a b h hlt ih =>
    intro x hx
    obtain rfl | hx := List.mem_cons.1 hx
    · exact not_infix_of_cut hpat h
    · exact ih x hx
  | case3 s a b h hlt =>
    intro x hx
    rw [List.mem_singleton.1 hx]
    exact not_infix_of_cut hpat h

theorem splitOn_join (hu : Unbordered pat) (hpat : pat ≠ []) {t : List (List α)} (ht : t ≠ [])
    (hclean : ∀ a ∈ t, ¬ pat <:+: a) : splitOn pat (join pat t) = t := by
  induction t with
  | nil => exact absurd rfl ht
  | cons a t ih =>
    have ha := hclean a List.mem_cons_self
    cases t with
    | nil => simp [join, splitOn, cut_eq_none.2 ha]
    | cons a' t =>
      have hlen : (join pat (a' :: t)).length < (a ++ pat ++ join pat (a' :: t)).length := by
        have := List.length_pos_iff.2 hpat
        simp only [List.length_append]
        omega
      rw [join, splitOn, cut_append hu ha]
      simp only [hlen, if_true]
      rw [ih (by simp) fun x hx => hclean x (List.mem_cons_of_mem _ hx)]

/-! ## A block of parts -/

omit [DecidableEq α] in
/-- A pattern does not reach across an element it does not contain. -/
theorem infix_append_cons (hc : c ∉ pat) : pat <:+: a ++ c :: b ↔ pat <:+: a ∨ pat <:+: b := by
  refine ⟨fun h => ?_, fun h => ?_⟩
  · have hpre : ∀ a : List α, pat <+: a ++ c :: b → pat <+: a := by
      intro a h
      obtain h | h := List.prefix_or_prefix_of_prefix h (List.prefix_append a (c :: b))
      · exact h
      · obtain ⟨d, rfl⟩ := h
        obtain ⟨e, he⟩ := h
        rw [List.append_assoc] at he
        have he := List.append_cancel_left he
        cases d with
        | nil => rw [List.append_nil]
        | cons x d =>
          cases (List.cons.inj he).1
          exact absurd (List.mem_append_right _ List.mem_cons_self) hc
    induction a with
    | nil =>
      obtain h | h := List.infix_cons_iff.1 h
      · exact .inl (hpre [] h).isInfix
      · exact .inr h
    | cons x a ih =>
      obtain h | h := List.infix_cons_iff.1 h
      · exact .inl (hpre (x :: a) h).isInfix
      · exact (ih h).imp_left fun h => List.infix_cons_iff.2 (.inr h)
  · obtain h | h := h
    · exact h.trans (List.prefix_append _ _).isInfix
    · exact h.trans ⟨a ++ [c], [], by simp⟩

omit [DecidableEq α] in
theorem Unbordered.not_pre (hu : Unbordered pat) (ha : ¬ pat <:+: a) (hne : a ≠ []) :
    ¬ pat <+: a ++ pat ++ b := by
  rintro ⟨x, hx⟩
  have hocc : a ++ pat ++ b = [] ++ pat ++ x := hx.symm
  exact hne (List.length_eq_zero_iff.1 (Nat.le_zero.1 (hu.first ha hocc)))

/-- A double separator is found behind a part when none is found in the rest of
the block. -/
theorem cut_double_append (hu : Unbordered pat) (ha : ¬ pat <:+: a) {s x y : List α}
    (hs : ¬ pat <+: s) (hcut : cut (pat ++ pat) s = some (x, y)) :
    cut (pat ++ pat) (a ++ pat ++ s) = some (a ++ pat ++ x, y) := by
  obtain ⟨h1, h2⟩ := cut_eq_some hcut
  refine cut_of_first (by simp [h1, List.append_assoc]) fun a' b' h => ?_
  -- the occurrence cannot begin before the separator behind `a`, at it or inside it
  have hocc : a ++ pat ++ s = a' ++ pat ++ (pat ++ b') := by
    rw [h]
    simp only [List.append_assoc]
  have hle := hu.first ha hocc
  obtain ⟨m, rfl⟩ : ∃ m, a' = a ++ m := by
    have hpre : a <+: a' ++ (pat ++ pat ++ b') := ⟨pat ++ s, by rw [← List.append_assoc, h]; simp⟩
    obtain ⟨m, hm⟩ := List.prefix_of_prefix_length_le hpre (List.prefix_append _ _) hle
    exact ⟨m, hm.symm⟩
  simp only [List.append_assoc] at h
  have h := List.append_cancel_left h
  obtain ⟨n, h3, h4⟩ | ⟨n, h3, h4⟩ := List.append_eq_append_iff.1 h
  · rw [h3]
    have := h2 n b' (by rw [h4]; simp [List.append_assoc])
    simp only [List.length_append]
    omega
  · exfalso
    by_cases hm : m = []
    · subst hm
      rw [List.nil_append] at h3
      subst h3
      exact hs ⟨b', List.append_cancel_left h4⟩
    · by_cases hn : n = []
      · subst hn
        rw [List.nil_append] at h4
        exact hs ⟨pat ++ b', h4⟩
      · have hl : pat.length = m.length + n.length := by
          conv_lhs => rw [h3]
          exact List.length_append
        have hm0 := List.length_pos_iff.2 hm
        have hn0 := List.length_pos_iff.2 hn
        refine hu m.length hm0 (by omega) ?_
        have hd : pat.drop m.length = n := by
          conv_lhs => rw [h3]
          rw [List.drop_left]
        rw [hd]
        have hn' : n <+: pat ++ (pat ++ b') := ⟨s, h4.symm⟩
        exact List.prefix_of_prefix_length_le hn' (List.prefix_append _ _) (by omega)

/-- The first double separator is the one behind the last part. -/
theorem cut_join (hu : Unbordered pat) {t : List (List α)} (ht : t ≠ [])
    (hclean : ∀ a ∈ t, ¬ pat <:+: a ∧ a ≠ []) (b : List α) :
    cut (pat ++ pat) (join pat t ++ (pat ++ pat) ++ b) = some (join pat t, b) := by
  induction t with
  | nil => exact absurd rfl ht
  | cons a t ih =>
    obtain ⟨ha, hne⟩ := hclean a List.mem_cons_self
    cases t with
    | nil =>
      refine cut_of_first rfl fun a' b' h => ?_
      have hocc : a ++ pat ++ (pat ++ b) = a' ++ pat ++ (pat ++ b') := by
        simpa [join, List.append_assoc] using h
      exact hu.first ha hocc
    | cons a₁ t =>
      have hrest := fun x hx => hclean x (List.mem_cons_of_mem _ hx)
      obtain ⟨ha₁, hne₁⟩ := hrest a₁ List.mem_cons_self
      have hpre : ¬ pat <+: join pat (a₁ :: t) ++ (pat ++ pat) ++ b := by
        cases t with
        | nil =>
          have := hu.not_pre (b := pat ++ b) ha₁ hne₁
          simpa [join, List.append_assoc] using this
        | cons a₂ t =>
          have := hu.not_pre (b := join pat (a₂ :: t) ++ (pat ++ pat) ++ b) ha₁ hne₁
          simpa [join, List.append_assoc] using this
      have := cut_double_append hu ha hpre (ih (by simp) hrest)
      simpa [join, List.append_assoc] using this

end Search
