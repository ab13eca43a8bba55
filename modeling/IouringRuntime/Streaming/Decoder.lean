import Mathlib.Data.List.Basic

/-!
# Decoding a stream that arrives in pieces

A decoder looks at the front of a stream: it asks for more, rejects, or takes
an item and says how long it is. A verdict other than `more` may not change when
the stream goes on. `parse` is what decoding a whole stream gives, and
`parse_append` says how it continues, so that a receiver that keeps the
undecoded rest and decodes on from there (`Receives`) ends with the same items
however the stream was cut (`Receives.fold`). `parse_words` and `parse_part` are
for streams that an encoder has written: a whole one, and one that breaks off.
-/

namespace Streaming

variable {α β σ : Type}

inductive Verdict (α : Type) where
  | more
  | bad
  | item (a : α) (size : Nat)

structure Decoder (β α : Type) where
  next : List β → Verdict α
  size : ∀ {x a n}, next x = .item a n → 0 < n ∧ n ≤ x.length
  item_append : ∀ {x a n}, next x = .item a n → ∀ y, next (x ++ y) = .item a n
  bad_append : ∀ {x}, next x = .bad → ∀ y, next (x ++ y) = .bad

/-- The items of a stream and its undecoded rest; no rest once it is rejected. -/
structure Parsed (β α : Type) where
  items : List α
  rest : Option (List β)

namespace Decoder

def parse (d : Decoder β α) (x : List β) : Parsed β α :=
  match _h : d.next x with
  | .more => ⟨[], some x⟩
  | .bad => ⟨[], none⟩
  | .item a n => ⟨a :: (d.parse (x.drop n)).items, (d.parse (x.drop n)).rest⟩
termination_by x.length
decreasing_by
  all_goals
    have := d.size _h
    rw [List.length_drop]
    omega

variable {d : Decoder β α} {x y : List β} {a : α} {n : Nat}

theorem parse_more (h : d.next x = .more) : d.parse x = ⟨[], some x⟩ := by
  unfold parse
  split <;> simp_all

theorem parse_bad (h : d.next x = .bad) : d.parse x = ⟨[], none⟩ := by
  unfold parse
  split <;> simp_all

theorem parse_item (h : d.next x = .item a n) :
    d.parse x = ⟨a :: (d.parse (x.drop n)).items, (d.parse (x.drop n)).rest⟩ := by
  conv_lhs => unfold parse
  split <;> simp_all

/-- More of the stream arrives. -/
def resume (d : Decoder β α) (p : Parsed β α) (y : List β) : Parsed β α :=
  match p.rest with
  | some r => ⟨p.items ++ (d.parse (r ++ y)).items, (d.parse (r ++ y)).rest⟩
  | none => p

theorem parse_append (x y : List β) : d.parse (x ++ y) = d.resume (d.parse x) y := by
  fun_induction parse d x with
  | case1 x hx => rfl
  | case2 x hx => exact parse_bad (d.bad_append hx y)
  | case3 x a n hx ih =>
    have hdrop : (x ++ y).drop n = x.drop n ++ y := List.drop_append_of_le_length (d.size hx).2
    rw [parse_item (d.item_append hx y), hdrop, ih]
    unfold resume
    cases hr : (d.parse (x.drop n)).rest with
    | some r => rfl
    | none => simp only [hr]

section resume

variable {l : List α} {r : List β}

theorem resume_more (h : d.next (r ++ y) = .more) :
    d.resume ⟨l, some r⟩ y = ⟨l, some (r ++ y)⟩ := by
  simp only [resume, parse_more h, List.append_nil]

theorem resume_bad (h : d.next (r ++ y) = .bad) : d.resume ⟨l, some r⟩ y = ⟨l, none⟩ := by
  simp only [resume, parse_bad h, List.append_nil]

theorem resume_item (h : d.next (r ++ y) = .item a n) :
    d.resume ⟨l, some r⟩ y = d.resume ⟨l ++ [a], some []⟩ ((r ++ y).drop n) := by
  simp only [resume, parse_item h, List.nil_append, List.append_assoc, List.singleton_append]

end resume

/-! ## Encoded streams -/

/-- `w` is taken as `a`, whatever follows. -/
def Word (d : Decoder β α) (a : α) (w : List β) : Prop := ∀ y, d.next (w ++ y) = .item a w.length

theorem parse_words {sent : List (α × List β)} (h : ∀ e ∈ sent, d.Word e.1 e.2) (y : List β) :
    d.parse ((sent.map Prod.snd).flatten ++ y) =
      ⟨sent.map Prod.fst ++ (d.parse y).items, (d.parse y).rest⟩ := by
  induction sent with
  | nil => rfl
  | cons e sent ih =>
    have hnext := h e (.head _) ((sent.map Prod.snd).flatten ++ y)
    rw [List.map_cons, List.flatten_cons, List.append_assoc, parse_item hnext, List.drop_left,
      ih fun e he => h e (.tail _ he)]
    rfl

/-- A part of a word is not enough. -/
theorem Word.part {w : List β} (h : d.Word a w) (hx : x <+: w) (hne : x ≠ w) :
    d.next x = .more := by
  obtain ⟨z, rfl⟩ := hx
  have hw := h []
  rw [List.append_nil] at hw
  cases hn : d.next x with
  | more => rfl
  | bad =>
    rw [d.bad_append hn z] at hw
    cases hw
  | item b n =>
    rw [d.item_append hn z] at hw
    have hle := (d.size hn).2
    have hz : 0 < z.length := by
      refine List.length_pos_iff.2 ?_
      rintro rfl
      exact hne (List.append_nil x).symm
    have hlen : n = (x ++ z).length := by injection hw
    rw [List.length_append] at hlen
    omega

/-- A stream of words that breaks off: the words that are complete are decoded,
and the rest is a part of the next one. -/
theorem parse_part (hnil : d.next [] = .more) {sent : List (α × List β)}
    (h : ∀ e ∈ sent, d.Word e.1 e.2) : ∀ {x : List β}, x <+: (sent.map Prod.snd).flatten →
    ∃ before after r, sent = before ++ after ∧ d.parse x = ⟨before.map Prod.fst, some r⟩ ∧
      (after = [] → r = []) ∧ ∀ e ∈ after.head?, r <+: e.2 ∧ r ≠ e.2 := by
  induction sent with
  | nil =>
    intro x hx
    rw [List.prefix_nil.1 hx]
    exact ⟨[], [], [], rfl, parse_more hnil, fun _ => rfl, fun e he => (by cases he)⟩
  | cons e sent ih =>
    intro x hx
    have hword := h e (.head _)
    rw [List.map_cons, List.flatten_cons] at hx
    by_cases hpart : x <+: e.2 ∧ x ≠ e.2
    · refine ⟨[], e :: sent, x, rfl, parse_more (hword.part hpart.1 hpart.2),
        fun h => (by cases h), fun e' he' => ?_⟩
      cases he'
      exact hpart
    · obtain ⟨y, rfl⟩ : e.2 <+: x := by
        obtain hle | hge := List.prefix_or_prefix_of_prefix hx (List.prefix_append _ _)
        · by_cases he : x = e.2
          · exact he ▸ List.prefix_rfl
          · exact absurd ⟨hle, he⟩ hpart
        · exact hge
      obtain ⟨before, after, r, rfl, hparse, hr⟩ := ih (fun e he => h e (.tail _ he))
        ((List.prefix_append_right_inj e.2).1 hx)
      refine ⟨e :: before, after, r, rfl, ?_, hr⟩
      rw [parse_item (hword y), List.drop_left, hparse]
      rfl

/-! ## Receivers -/

/-- A receiver whose step succeeds and decodes on from the rest it holds. -/
def Receives (d : Decoder β α) (step : σ → List β → Option σ) (Holds : σ → Parsed β α → Prop) :
    Prop :=
  ∀ {s p}, Holds s p → ∀ y, ∃ s', step s y = some s' ∧ Holds s' (d.resume p y)

/-- However the stream is cut, the receiver decodes the whole of it. -/
theorem Receives.fold {step : σ → List β → Option σ} {Holds : σ → Parsed β α → Prop}
    (h : d.Receives step Holds) (chunks : List (List β)) {s : σ} {x : List β}
    (hs : Holds s (d.parse x)) :
    ∃ s', chunks.foldlM step s = some s' ∧ Holds s' (d.parse (x ++ chunks.flatten)) := by
  induction chunks generalizing s x with
  | nil => exact ⟨s, rfl, by rwa [List.flatten_nil, List.append_nil]⟩
  | cons y chunks ih =>
    obtain ⟨t, ht, hy⟩ := h hs y
    rw [← parse_append] at hy
    obtain ⟨s', hs', hrest⟩ := ih hy
    refine ⟨s', ?_, ?_⟩
    · rw [List.foldlM_cons, ht]
      exact hs'
    · rwa [List.flatten_cons, ← List.append_assoc]

end Decoder

end Streaming
