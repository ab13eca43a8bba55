import Mathlib.Data.List.Nodup

/-!
# Lists whose links are written late

A lock-free list publishes a node first and writes the link from its
predecessor afterwards, so at any time some links of the list are only pending.
`Linked next pending chain` says that `chain` is the list as published: each
node's link to the next one has been written or is pending, exactly one of the
two, and nothing leaves the last node. `Published` adds that these are all the
pending links, each pending once. Publishing a node, writing a pending link and
dropping the first node keep it.
-/

namespace LateLinks

variable {α : Type}

inductive Linked (next : α → Option α) (pending : List (α × α)) : List α → Prop where
  | last {a : α} (hn : next a = none) (hp : ∀ b, (a, b) ∉ pending) : Linked next pending [a]
  | written {a b : α} {l : List α} (h : Linked next pending (b :: l)) (ha : a ∉ b :: l)
      (hn : next a = some b) (hp : ∀ b', (a, b') ∉ pending) : Linked next pending (a :: b :: l)
  | unwritten {a b : α} {l : List α} (h : Linked next pending (b :: l)) (ha : a ∉ b :: l)
      (hn : next a = none) (hp : ∀ b', (a, b') ∈ pending ↔ b' = b) :
      Linked next pending (a :: b :: l)

namespace Linked

variable {next next' : α → Option α} {pending pending' : List (α × α)} {chain l : List α} {a b : α}

theorem nodup (h : Linked next pending chain) : chain.Nodup := by
  induction h with
  | last => exact List.nodup_singleton _
  | written _ ha _ _ ih | unwritten _ ha _ _ ih => exact List.nodup_cons.2 ⟨ha, ih⟩

/-- Only the links of the chain's own nodes matter. -/
theorem congr (h : Linked next pending chain) (hn : ∀ a ∈ chain, next' a = next a)
    (hp : ∀ a ∈ chain, ∀ b, (a, b) ∈ pending' ↔ (a, b) ∈ pending) :
    Linked next' pending' chain := by
  induction h with
  | @last x hn₀ hp₀ =>
    have hm : x ∈ [x] := .head _
    exact .last ((hn _ hm).trans hn₀) fun b hb => hp₀ b ((hp _ hm b).1 hb)
  | written _ ha hn₀ hp₀ ih =>
    refine .written (ih (fun x hx => hn x (.tail _ hx)) fun x hx => hp x (.tail _ hx)) ha
      ((hn _ (.head _)).trans hn₀) fun b hb => hp₀ b ((hp _ (.head _) b).1 hb)
  | unwritten _ ha hn₀ hp₀ ih =>
    refine .unwritten (ih (fun x hx => hn x (.tail _ hx)) fun x hx => hp x (.tail _ hx)) ha
      ((hn _ (.head _)).trans hn₀) fun b => (hp _ (.head _) b).trans (hp₀ b)

/-- Nothing leaves the last node. -/
theorem at_last (h : Linked next pending chain) (ha : chain.getLast? = some a) :
    next a = none ∧ ∀ b, (a, b) ∉ pending := by
  induction h with
  | last hn hp =>
    cases ha
    exact ⟨hn, hp⟩
  | written _ _ _ _ ih | unwritten _ _ _ _ ih => exact ih (by rwa [List.getLast?_cons_cons] at ha)

theorem next_of_pending (h : Linked next pending chain) (hab : (a, b) ∈ pending)
    (ha : a ∈ chain) : next a = none := by
  induction h with
  | last hn _ => rwa [List.mem_singleton.1 ha]
  | written _ _ _ hp ih =>
    rcases List.mem_cons.1 ha with rfl | ha
    · exact absurd hab (hp b)
    · exact ih ha
  | unwritten _ _ hn _ ih =>
    rcases List.mem_cons.1 ha with rfl | ha
    · exact hn
    · exact ih ha

/-- A node is published: it becomes the last one, its link is pending. -/
theorem publish (h : Linked next pending chain) (hl : chain.getLast? = some a)
    (hb : b ∉ chain) (hn : next b = none) (hp : ∀ c, (b, c) ∉ pending)
    (hpending : ∀ p, p ∈ pending' ↔ p ∈ pending ∨ p = (a, b)) :
    Linked next pending' (chain ++ [b]) := by
  induction h with
  | @last x hn₀ hp₀ =>
    obtain rfl : x = a := Option.some.inj hl
    have hxb : x ≠ b := fun he => hb (he ▸ .head _)
    have hlast : Linked next pending' [b] := .last hn fun c hc =>
      ((hpending _).1 hc).elim (hp c) fun he => hxb (Prod.mk.inj he).1.symm
    refine .unwritten hlast (by simpa using hxb) hn₀ fun c => ?_
    rw [hpending]
    simp [hp₀ c]
  | @written x y l _ hx hn₀ hp₀ ih =>
    rw [List.getLast?_cons_cons] at hl
    have hxa : x ≠ a := fun he => hx (he ▸ List.mem_of_getLast? hl)
    have hxb : x ≠ b := fun he => hb (he ▸ .head _)
    refine .written (ih hl fun hm => hb (.tail _ hm)) ?_ hn₀ fun c hc => ?_
    · exact fun hm => (List.mem_append.1 hm).elim hx fun hm => hxb (List.mem_singleton.1 hm)
    · exact ((hpending _).1 hc).elim (hp₀ c) fun he => hxa (Prod.mk.inj he).1
  | @unwritten x y l _ hx hn₀ hp₀ ih =>
    rw [List.getLast?_cons_cons] at hl
    have hxa : x ≠ a := fun he => hx (he ▸ List.mem_of_getLast? hl)
    have hxb : x ≠ b := fun he => hb (he ▸ .head _)
    refine .unwritten (ih hl fun hm => hb (.tail _ hm)) ?_ hn₀ fun c => ?_
    · exact fun hm => (List.mem_append.1 hm).elim hx fun hm => hxb (List.mem_singleton.1 hm)
    · rw [hpending, ← hp₀ c]
      exact or_iff_left fun he => hxa (Prod.mk.inj he).1

/-- A pending link is written. -/
theorem write (h : Linked next pending chain) (hab : (a, b) ∈ pending)
    (hself : next' a = some b) (hother : ∀ c, c ≠ a → next' c = next c)
    (hpending : ∀ p, p ∈ pending' ↔ p ∈ pending ∧ p ≠ (a, b)) : Linked next' pending' chain := by
  have hkeep : ∀ x, x ≠ a → ∀ c, (x, c) ∈ pending' ↔ (x, c) ∈ pending := fun x hx c =>
    (hpending _).trans (and_iff_left fun he => hx (Prod.mk.inj he).1)
  induction h with
  | @last x hn₀ hp₀ =>
    have hx : x ≠ a := fun he => hp₀ b (he ▸ hab)
    exact .last ((hother x hx).trans hn₀) fun c hc => hp₀ c ((hkeep x hx c).1 hc)
  | @written x y l _ hx₀ hn₀ hp₀ ih =>
    have hx : x ≠ a := fun he => hp₀ b (he ▸ hab)
    exact .written ih hx₀ ((hother x hx).trans hn₀) fun c hc => hp₀ c ((hkeep x hx c).1 hc)
  | @unwritten x y l _ hx₀ hn₀ hp₀ ih =>
    by_cases hx : x = a
    · subst hx
      obtain rfl := (hp₀ b).1 hab
      refine .written ih hx₀ hself fun c hc => ?_
      obtain ⟨hc, hne⟩ := (hpending _).1 hc
      exact hne (congrArg _ ((hp₀ c).1 hc))
    · exact .unwritten ih hx₀ ((hother x hx).trans hn₀) fun c => (hkeep x hx c).trans (hp₀ c)

/-- The first node is dropped along its written link. -/
theorem drop_head (h : Linked next pending (a :: l)) (hn : next a = some b) :
    ∃ l', l = b :: l' ∧ Linked next pending (b :: l') ∧ ∀ c, (a, c) ∉ pending := by
  cases h with
  | last hn₀ => rw [hn] at hn₀; cases hn₀
  | written h₀ _ hn₀ hp₀ =>
    obtain rfl := Option.some.inj (hn.symm.trans hn₀)
    exact ⟨_, rfl, h₀, hp₀⟩
  | unwritten _ _ hn₀ => rw [hn] at hn₀; cases hn₀

/-- A node without a written link is the last, or its link is pending. -/
theorem stuck (h : Linked next pending (a :: l)) (hn : next a = none) :
    l = [] ∨ ∃ b, (a, b) ∈ pending := by
  cases h with
  | last => exact .inl rfl
  | written _ _ hn₀ => rw [hn] at hn₀; cases hn₀
  | unwritten _ _ _ hp₀ => exact .inr ⟨_, (hp₀ _).2 rfl⟩

/-- Following links from the first node stays in the chain. -/
theorem path_prefix (h : Linked next pending (a :: l)) {path : List α}
    (hpath : (a :: path).IsChain fun x y => next x = some y ∨ (x, y) ∈ pending) :
    a :: path <+: a :: l := by
  induction path generalizing a l with
  | nil => simp
  | cons y path ih =>
    rw [List.isChain_cons_cons] at hpath
    obtain ⟨hay, hpath⟩ := hpath
    cases h with
    | last hn hp => exact absurd hay (by simp [hn, hp])
    | written h₀ _ hn hp =>
      obtain rfl : _ = y := Option.some.inj (hn.symm.trans (hay.resolve_right (hp y)))
      exact (List.prefix_cons_inj _).2 (ih h₀ hpath)
    | unwritten h₀ _ hn hp =>
      obtain rfl := (hp y).1 (hay.resolve_left (by simp [hn]))
      exact (List.prefix_cons_inj _).2 (ih h₀ hpath)

end Linked

structure Published (next : α → Option α) (pending : List (α × α)) (chain : List α) : Prop where
  linked : Linked next pending chain
  inside : ∀ p ∈ pending, p.1 ∈ chain
  distinct : pending.Nodup

namespace Published

variable {next next' : α → Option α} {pending pending' : List (α × α)} {chain l : List α} {a b : α}

theorem congr (h : Published next pending chain) (hn : ∀ a ∈ chain, next' a = next a) :
    Published next' pending chain :=
  ⟨h.linked.congr hn fun _ _ _ => .rfl, h.inside, h.distinct⟩

theorem next_of_pending (h : Published next pending chain) (hab : (a, b) ∈ pending) :
    next a = none :=
  h.linked.next_of_pending hab (h.inside _ hab)

theorem publish (h : Published next pending chain) (hl : chain.getLast? = some a)
    (hb : b ∉ chain) (hn : next b = none) (hp : pending'.Perm ((a, b) :: pending)) :
    Published next pending' (chain ++ [b]) := by
  refine ⟨h.linked.publish hl hb hn (fun c hc => hb (h.inside _ hc)) fun p => ?_, fun p hm => ?_,
    hp.nodup_iff.2 (List.nodup_cons.2 ⟨(h.linked.at_last hl).2 b, h.distinct⟩)⟩
  · rw [hp.mem_iff, List.mem_cons, or_comm]
  · refine List.mem_append_left _ ?_
    rcases List.mem_cons.1 (hp.mem_iff.1 hm) with rfl | hm
    · exact List.mem_of_getLast? hl
    · exact h.inside p hm

theorem write (h : Published next pending chain) (hp : pending.Perm ((a, b) :: pending'))
    (hself : next' a = some b) (hother : ∀ c, c ≠ a → next' c = next c) :
    Published next' pending' chain := by
  have hnd := List.nodup_cons.1 (hp.nodup_iff.1 h.distinct)
  refine ⟨h.linked.write (hp.mem_iff.2 (.head _)) hself hother fun p => ?_,
    fun p hm => h.inside p (hp.mem_iff.2 (.tail _ hm)), hnd.2⟩
  rw [hp.mem_iff, List.mem_cons]
  constructor
  · exact fun hm => ⟨.inr hm, fun he => hnd.1 (he ▸ hm)⟩
  · exact fun hm => hm.1.resolve_left hm.2

theorem drop_head (h : Published next pending (a :: l)) (hn : next a = some b) :
    ∃ l', l = b :: l' ∧ Published next pending (b :: l') := by
  obtain ⟨l', rfl, hl, hp⟩ := h.linked.drop_head hn
  refine ⟨l', rfl, hl, fun p hm => ?_, h.distinct⟩
  refine (List.mem_cons.1 (h.inside p hm)).resolve_left ?_
  rintro rfl
  exact hp p.2 hm

end Published

end LateLinks
