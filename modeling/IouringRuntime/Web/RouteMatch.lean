import Mathlib.Data.List.Induction
import IouringRuntime.Web.RadixTree

/-!
# Routing is prioritised pattern matching

A route path is a pattern, a list of static segments, parameters and at most
one wildcard, which ends it. Inserting into the tree sets one entry of a table
indexed by method and pattern (`lookup_insert`), and `Match` takes the entry of
the best pattern that matches: the first in the order that compares segments
from the left, static before parameter before wildcard.
-/

namespace IouringRuntime

inductive PatternSegment where
  | static (segment : Bytes)
  | param
  | wildcard
  deriving DecidableEq, Repr

abbrev Pattern := List PatternSegment

namespace RadixTree

def toPattern : List Bytes → Pattern
  | [] => []
  | segment :: rest =>
    if isWildcard segment then [.wildcard]
    else if isParam segment then .param :: toPattern rest
    else .static segment :: toPattern rest

/-- The pattern of a route path. -/
def patternOf (path : Bytes) : Pattern := toPattern (splitPath path)

def Matches : Pattern → List Bytes → Bool
  | [], [] => true
  | .static s :: p, x :: xs => s == x && Matches p xs
  | .param :: p, _ :: xs => Matches p xs
  | [.wildcard], _ :: _ => true
  | _, _ => false

def rank : PatternSegment → Nat
  | .static _ => 0
  | .param => 1
  | .wildcard => 2

/-- Static before parameter before wildcard, from the left. -/
def Before : Pattern → Pattern → Prop
  | a :: p, b :: q => rank a < rank b ∨ (a = b ∧ Before p q)
  | _, _ => False

/-- What the parameters of a pattern are bound to: a parameter to its segment,
a wildcard to the view that starts at its first segment. -/
def bound : Pattern → List Segment → List StringView
  | .static _ :: p, _ :: xs => bound p xs
  | .param :: p, x :: xs => x.view :: bound p xs
  | [.wildcard], x :: xs => [wildcardValue x (xs.getLastD x)]
  | _, _ => []

def binds : PatternSegment → Bool
  | .static _ => false
  | .param | .wildcard => true

theorem length_bound {p : Pattern} {segments : List Segment}
    (h : Matches p (segments.map Segment.text) = true) :
    (bound p segments).length = p.countP binds := by
  induction p generalizing segments with
  | nil => rfl
  | cons a p ih =>
    cases segments with
    | nil => cases a <;> cases p <;> cases h
    | cons x xs =>
      cases a with
      | static s =>
        simp only [Matches, List.map_cons, Bool.and_eq_true] at h
        exact ih h.2
      | param =>
        simp only [Matches, List.map_cons] at h
        rw [bound, List.length_cons, ih h]
        exact (List.countP_cons_of_pos rfl).symm
      | wildcard =>
        cases p with
        | nil => rfl
        | cons _ _ => cases h

/-! ## The tree as a table -/

def noRoutes : Routes := fun _ => {}

/-- The routes stored for a pattern. -/
def lookup : Pattern → RadixNode → Routes
  | [], node => node.routes
  | .static s :: p, node =>
    match child? node s with
    | some child => lookup p child
    | none => noRoutes
  | .param :: p, node =>
    match node.paramChild with
    | some child => lookup p child
    | none => noRoutes
  | [.wildcard], node => node.wildcardChild.getD noRoutes
  | .wildcard :: _ :: _, _ => noRoutes

/-- A node without routes. -/
theorem lookup_new (segment : Bytes) (p : Pattern) : lookup p { segment } = noRoutes := by
  match p with
  | [] | .static _ :: _ | .param :: _ | [.wildcard] | .wildcard :: _ :: _ => rfl

theorem segment_insertSegments (m : HttpMethod) (e : RouteEntry) (segments : List Bytes)
    (node : RadixNode) : (insertSegments m e segments node).segment = node.segment := by
  cases segments with
  | nil => rfl
  | cons s rest =>
    unfold insertSegments
    split
    · rfl
    · split <;> rfl

theorem find_updateChild {f : RadixNode → RadixNode} (hf : ∀ n, (f n).segment = n.segment)
    (s s' : Bytes) (children : List RadixNode) :
    (updateChild s f children).find? (fun c => c.segment = s') =
      if s' = s then some (f ((children.find? fun c => c.segment = s).getD { segment := s }))
      else children.find? fun c => c.segment = s' := by
  induction children with
  | nil =>
    unfold updateChild
    by_cases h : s' = s
    · simp [h, hf]
    · simp [h, hf, Ne.symm h]
  | cons c rest ih =>
    unfold updateChild
    by_cases hc : c.segment = s
    · by_cases h : s' = s
      · simp [hc, h, hf]
      · simp [hc, h, hf, Ne.symm h]
    · by_cases h : s' = s
      · subst h
        simpa [hc] using ih
      · by_cases hc' : c.segment = s'
        · simp [hc', h]
        · simpa [hc, hc', h] using ih

/-- Inserting sets one entry of the table. -/
theorem lookup_insertSegments (m : HttpMethod) (e : RouteEntry) (segments : List Bytes) :
    ∀ (node : RadixNode) (p : Pattern), lookup p (insertSegments m e segments node) =
      if p = toPattern segments then (lookup p node).set m e else lookup p node := by
  induction segments with
  | nil =>
    intro node p
    match p with
    | [] => rfl
    | .static _ :: _ | .param :: _ | [.wildcard] | .wildcard :: _ :: _ => rfl
  | cons s rest ih =>
    intro node p
    unfold insertSegments toPattern
    split
    · match p with
      | [.wildcard] => rfl
      | [] | .static _ :: _ | .param :: _ | .wildcard :: _ :: _ => rfl
    · split
      · match p with
        | .param :: p =>
          simp only [lookup, ih, List.cons.injEq, true_and]
          cases node.paramChild with
          | some child => rfl
          | none => rw [Option.getD_none, lookup_new]
        | [] | .static _ :: _ | [.wildcard] | .wildcard :: _ :: _ => rfl
      · match p with
        | .static s' :: p =>
          simp only [lookup, child?, find_updateChild (segment_insertSegments m e rest)]
          by_cases hs : s' = s
          · subst hs
            simp only [if_pos, ih, List.cons.injEq, true_and]
            cases node.children.find? fun c => c.segment = s' with
            | some child => rfl
            | none => rw [Option.getD_none, lookup_new]
          · simp [hs]
        | [] | .param :: _ | [.wildcard] | .wildcard :: _ :: _ => rfl

/-- One `Insert` call. -/
structure Insertion where
  method : HttpMethod
  path : Bytes
  entry : RouteEntry

/-- The tree after a sequence of `Insert` calls. -/
def build (ins : List Insertion) : RadixNode :=
  ins.foldl (fun root i => insert root i.method i.path i.entry) {}

/-- The entry inserted last for a method and a pattern. -/
def latest (ins : List Insertion) (m : HttpMethod) (p : Pattern) : Option RouteEntry :=
  (ins.filter fun i => i.method = m ∧ patternOf i.path = p).getLast?.map Insertion.entry

theorem insert_eq_insertSegments (root : RadixNode) (m : HttpMethod) (path : Bytes) (e : RouteEntry) :
    insert root m path e = insertSegments m e (splitPath path) root := by
  unfold insert
  split
  · next h =>
    rw [h]
    rfl
  · rfl

theorem lookup_insert (root : RadixNode) (i : Insertion) (p : Pattern) :
    lookup p (insert root i.method i.path i.entry) =
      if p = patternOf i.path then (lookup p root).set i.method i.entry else lookup p root := by
  rw [insert_eq_insertSegments]
  exact lookup_insertSegments ..

theorem lookup_build (ins : List Insertion) (m : HttpMethod) (p : Pattern) :
    lookup p (build ins) m = (latest ins m p).getD {} := by
  induction ins using List.reverseRecOn with
  | nil =>
    show lookup p {} m = {}
    rw [lookup_new]
    rfl
  | append_singleton ins i ih =>
    have hbuild : build (ins ++ [i]) = insert (build ins) i.method i.path i.entry := by
      simp [build]
    rw [hbuild, lookup_insert]
    unfold latest at ih ⊢
    rw [List.filter_append]
    by_cases hi : i.method = m ∧ patternOf i.path = p
    · rw [List.filter_cons_of_pos (by simpa using hi), List.filter_nil]
      obtain ⟨rfl, rfl⟩ := hi
      simp [Routes.set]
    · rw [List.filter_cons_of_neg (by simpa using hi), List.filter_nil, List.append_nil, ← ih]
      split
      · next hp =>
        have hm : m ≠ i.method := fun hm => hi ⟨hm.symm, hp.symm⟩
        exact if_neg hm
      · rfl

/-! ## What `Match` finds -/

/-- There is a route for the method. -/
def serves (m : HttpMethod) (routes : Routes) : Bool := (routes m).hasAnyHandler

/-- The first pattern in the order of the search whose routes pass the test. -/
def bestPattern (ok : Routes → Bool) : List Bytes → RadixNode → Option Pattern
  | [], node => if ok node.routes then some [] else none
  | x :: xs, node =>
    (((child? node x).bind (bestPattern ok xs)).map (.static x :: ·)).or <|
    ((node.paramChild.bind (bestPattern ok xs)).map (.param :: ·)).or <|
    if ok (node.wildcardChild.getD noRoutes) then some [.wildcard] else none

/-- A pattern matches and its routes pass the test. -/
def Hits (ok : Routes → Bool) (xs : List Bytes) (node : RadixNode) (p : Pattern) : Prop :=
  Matches p xs = true ∧ ok (lookup p node) = true

section Hits

variable {ok : Routes → Bool} {x : Bytes} {xs : List Bytes} {node : RadixNode} {p q : Pattern}

theorem hits_nil : Hits ok [] node q ↔ q = [] ∧ ok node.routes = true := by
  match q with
  | [] => simp [Hits, Matches, lookup]
  | .static _ :: _ | .param :: _ | [.wildcard] | .wildcard :: _ :: _ => simp [Hits, Matches]

theorem hits_static (hok : ok noRoutes = false) {s : Bytes} :
    Hits ok (x :: xs) node (.static s :: p) ↔
      s = x ∧ ∃ child, child? node x = some child ∧ Hits ok xs child p := by
  by_cases hs : s = x
  · subst hs
    cases hc : child? node s <;> simp [Hits, Matches, lookup, hc, hok]
  · simp [Hits, Matches, hs]

theorem hits_param (hok : ok noRoutes = false) : Hits ok (x :: xs) node (.param :: p) ↔
    ∃ child, node.paramChild = some child ∧ Hits ok xs child p := by
  cases hc : node.paramChild <;> simp [Hits, Matches, lookup, hc, hok]

theorem hits_wildcard : Hits ok (x :: xs) node (.wildcard :: p) ↔
    p = [] ∧ ok (node.wildcardChild.getD noRoutes) = true := by
  cases p with
  | nil => simp [Hits, Matches, lookup]
  | cons _ _ => simp [Hits, Matches]

theorem not_hits_nil : ¬ Hits ok (x :: xs) node [] := by
  simp [Hits, Matches]

end Hits

/-- `p` is the first of the patterns that hit. -/
def IsFirst (Hit : Pattern → Prop) (p : Pattern) : Prop := Hit p ∧ ∀ q, Hit q → q = p ∨ Before p q

theorem IsFirst.cons {Hit Hit' : Pattern → Prop} {a : PatternSegment} {p : Pattern}
    (h : IsFirst Hit p) (ha : ∀ q, Hit' (a :: q) ↔ Hit q) (hnil : ¬ Hit' [])
    (hother : ∀ b q, Hit' (b :: q) → b = a ∨ rank a < rank b) : IsFirst Hit' (a :: p) := by
  refine ⟨(ha p).2 h.1, fun q hq => ?_⟩
  cases q with
  | nil => exact absurd hq hnil
  | cons b q =>
    rcases hother b q hq with rfl | hlt
    · refine (h.2 q ((ha q).1 hq)).imp (fun he => by rw [he]) fun hb => .inr ⟨rfl, hb⟩
    · exact .inr (.inl hlt)

/-- The tree is searched in the order of the patterns. -/
theorem bestPattern_spec {ok : Routes → Bool} (hok : ok noRoutes = false) (xs : List Bytes) :
    ∀ node : RadixNode,
      (∀ p, bestPattern ok xs node = some p → IsFirst (Hits ok xs node) p) ∧
      (bestPattern ok xs node = none → ∀ q, ¬ Hits ok xs node q) := by
  induction xs with
  | nil =>
    intro node
    unfold bestPattern
    split
    · next hr =>
      refine ⟨fun p hp => ?_, nofun⟩
      cases hp
      exact ⟨hits_nil.2 ⟨rfl, hr⟩, fun q hq => .inl (hits_nil.1 hq).1⟩
    · next hr => exact ⟨nofun, fun _ q hq => hr (hits_nil.1 hq).2⟩
  | cons x xs ih =>
    intro node
    have hnil : ¬ Hits ok (x :: xs) node [] := not_hits_nil
    have hstatic : ∀ s q, Hits ok (x :: xs) node (.static s :: q) → s = x := fun s q h =>
      ((hits_static hok).1 h).1
    unfold bestPattern
    cases hs : (child? node x).bind (bestPattern ok xs) with
    | some p =>
      obtain ⟨child, hc, hb⟩ := Option.bind_eq_some_iff.1 hs
      refine ⟨fun r hr => ?_, nofun⟩
      cases hr
      refine ((ih child).1 p hb).cons (fun q => ?_) hnil fun b q hq => ?_
      · simp [hits_static hok, hc]
      · cases b with
        | static s => exact .inl (by rw [hstatic s q hq])
        | param | wildcard => exact .inr (Nat.lt_succ_of_le (Nat.zero_le _))
    | none =>
      have hno : ∀ s q, ¬ Hits ok (x :: xs) node (.static s :: q) := by
        intro s q hq
        obtain ⟨-, child, hc, hh⟩ := (hits_static hok).1 hq
        rw [hc, Option.bind_some] at hs
        exact (ih child).2 hs q hh
      rw [Option.map_none, Option.none_or]
      cases hp : node.paramChild.bind (bestPattern ok xs) with
      | some p =>
        obtain ⟨child, hc, hb⟩ := Option.bind_eq_some_iff.1 hp
        refine ⟨fun r hr => ?_, nofun⟩
        cases hr
        refine ((ih child).1 p hb).cons (fun q => ?_) hnil fun b q hq => ?_
        · simp [hits_param hok, hc]
        · cases b with
          | static s => exact absurd hq (hno s q)
          | param => exact .inl rfl
          | wildcard => exact .inr (by decide)
      | none =>
        have hno' : ∀ q, ¬ Hits ok (x :: xs) node (.param :: q) := by
          intro q hq
          obtain ⟨child, hc, hh⟩ := (hits_param hok).1 hq
          rw [hc, Option.bind_some] at hp
          exact (ih child).2 hp q hh
        rw [Option.map_none, Option.none_or]
        have hcases : ∀ q, Hits ok (x :: xs) node q → q = [.wildcard] ∧
            ok (node.wildcardChild.getD noRoutes) = true := by
          intro q hq
          match q with
          | [] => exact absurd hq hnil
          | .static s :: q => exact absurd hq (hno s q)
          | .param :: q => exact absurd hq (hno' q)
          | .wildcard :: q =>
            obtain ⟨rfl, hw⟩ := hits_wildcard.1 hq
            exact ⟨rfl, hw⟩
        split
        · next hw =>
          refine ⟨fun r hr => ?_, nofun⟩
          cases hr
          exact ⟨hits_wildcard.2 ⟨rfl, hw⟩, fun q hq => .inl (hcases q hq).1⟩
        · next hw => exact ⟨nofun, fun _ q hq => hw (hcases q hq).2⟩

theorem bestPattern_isSome {ok : Routes → Bool} (hok : ok noRoutes = false) (xs : List Bytes)
    (node : RadixNode) : (bestPattern ok xs node).isSome = true ↔ ∃ p, Hits ok xs node p := by
  have h := bestPattern_spec hok xs node
  cases hb : bestPattern ok xs node with
  | some p => exact ⟨fun _ => ⟨p, (h.1 p hb).1⟩, fun _ => rfl⟩
  | none => exact ⟨nofun, fun ⟨p, hp⟩ => absurd hp (h.2 hb p)⟩

/-- What a search that starts with the result `s` ends with: the entry and the
values of the pattern `best`, and whether any pattern, `any`, was found. -/
structure Reaches (s r : RadixMatch) (look : Pattern → RouteEntry)
    (values : Pattern → List StringView) (best any : Option Pattern) : Prop where
  entry : r.entry = best.map look
  params : ∀ p, best = some p → r.params.map Prod.snd = values p
  pathExists : r.pathExists = (s.pathExists || any.isSome)
  found : best.isSome = true → any.isSome = true

namespace Reaches

variable {s r r₁ r₂ : RadixMatch} {look look' : Pattern → RouteEntry}
  {values values' : Pattern → List StringView} {best any b₁ b₂ a₁ a₂ : Option Pattern}

theorem skip (hs : s.entry = none) : Reaches s s look values none none :=
  ⟨hs, nofun, (Bool.or_false _).symm, nofun⟩

/-- The second search is made when the first has no entry. -/
theorem orElse (h₁ : Reaches s r₁ look values b₁ a₁)
    (h₂ : r₁.entry = none → Reaches r₁ r₂ look values b₂ a₂) :
    Reaches s (if r₁.entry.isSome then r₁ else r₂) look values (b₁.or b₂) (a₁.or a₂) := by
  cases b₁ with
  | some p =>
    have he : r₁.entry.isSome = true := by rw [h₁.entry]; rfl
    have ha := h₁.found rfl
    rw [if_pos he]
    refine ⟨h₁.entry, h₁.params, ?_, fun _ => ?_⟩
    · rw [h₁.pathExists, Option.isSome_or, ha, Bool.true_or]
    · rw [Option.isSome_or, ha, Bool.true_or]
  | none =>
    have he : r₁.entry = none := h₁.entry
    have h := h₂ he
    rw [he, Option.isSome_none, if_neg (by decide), Option.none_or]
    refine ⟨h.entry, h.params, ?_, fun hb => ?_⟩
    · rw [h.pathExists, h₁.pathExists, Option.isSome_or, Bool.or_assoc]
    · rw [Option.isSome_or, h.found hb, Bool.or_true]

/-- A search in the subtree behind the segment `k`. -/
theorem below (k : PatternSegment) (h : Reaches s r look' values' best any)
    (hl : ∀ p, look (k :: p) = look' p) (hv : ∀ p, values (k :: p) = values' p) :
    Reaches s r look values (best.map (k :: ·)) (any.map (k :: ·)) := by
  refine ⟨?_, fun p hp => ?_, ?_, fun hb => ?_⟩
  · rw [h.entry, Option.map_map]
    cases best with
    | none => rfl
    | some p => exact congrArg some (hl p).symm
  · obtain ⟨q, hq, rfl⟩ := Option.map_eq_some_iff.1 hp
    rw [h.params q hq, hv]
  · rw [h.pathExists, Option.isSome_map]
  · rw [Option.isSome_map] at hb ⊢
    exact h.found hb

theorem visit (hs : s.entry = none) (routes : Routes) (m : HttpMethod)
    (params : List (Bytes × StringView)) {p : Pattern} (hl : look p = routes m)
    (hv : values p = params.map Prod.snd) :
    Reaches s (RadixMatch.visit s routes m params) look values
      (if serves m routes then some p else none) (if routes.hasAny then some p else none) := by
  have hany : serves m routes = true → routes.hasAny = true := fun h =>
    List.any_eq_true.2 ⟨m, by cases m <;> simp, h⟩
  unfold RadixMatch.visit
  by_cases hm : serves m routes = true
  · have hr : (routes m).hasAnyHandler = true := hm
    simp only [hr, hm, hany hm, if_true]
    refine ⟨by rw [← hl]; rfl, fun q hq => ?_, (Bool.or_true _).symm, fun _ => rfl⟩
    rw [← Option.some.inj hq, hv]
  · have hr : ¬ (routes m).hasAnyHandler = true := hm
    rw [if_neg hr, if_neg hm]
    split
    · exact ⟨hs, nofun, (Bool.or_true _).symm, nofun⟩
    · exact ⟨hs, nofun, (Bool.or_false _).symm, nofun⟩

end Reaches

theorem serves_noRoutes (m : HttpMethod) : serves m noRoutes = false := rfl

/-- `MatchNode` searches for the best pattern of the method, and visits a
pattern of any method if there is one. -/
theorem matchNode_reaches (m : HttpMethod) (segments : List Segment) :
    ∀ (node : RadixNode) (s : RadixMatch) (params : List (Bytes × StringView)), s.entry = none →
      Reaches s (matchNode m segments node s params) (fun p => lookup p node m)
        (fun p => params.map Prod.snd ++ bound p segments)
        (bestPattern (serves m) (segments.map Segment.text) node)
        (bestPattern Routes.hasAny (segments.map Segment.text) node) := by
  induction segments with
  | nil =>
    intro node s params hs
    exact .visit hs node.routes m params rfl (List.append_nil _)
  | cons x xs ih =>
    intro node s params hs
    unfold matchNode bestPattern
    rw [hs, Option.isSome_none, if_neg (by decide)]
    refine .orElse ?_ fun h₁ => .orElse ?_ fun h₂ => ?_
    · cases hc : child? node x.text with
      | none => exact .skip hs
      | some child =>
        refine (ih child s params hs).below (.static x.text) (fun p => ?_) fun p => rfl
        simp only [lookup, hc]
    · cases hc : node.paramChild with
      | none => exact .skip h₁
      | some child =>
        refine (ih child _ _ h₁).below .param (fun p => ?_) fun p => ?_
        · simp only [lookup, hc]
        · simp [bound]
    · cases hc : node.wildcardChild with
      | none => exact .skip h₂
      | some routes =>
        refine .visit h₂ routes m _ ?_ ?_
        · simp only [lookup, hc, Option.getD_some]
        · simp [bound]

/-! ## Routes as inserted -/

section Inserted

variable {ins : List Insertion} {m : HttpMethod} {p : Pattern}

theorem latest_isSome : (latest ins m p).isSome = true ↔
    ∃ i ∈ ins, i.method = m ∧ patternOf i.path = p := by
  simp [latest]

theorem latest_mem {e : RouteEntry} (h : latest ins m p = some e) : ∃ i ∈ ins, i.entry = e := by
  obtain ⟨i, hi, rfl⟩ := Option.map_eq_some_iff.1 h
  exact ⟨i, (List.mem_filter.1 (List.mem_of_getLast? hi)).1, rfl⟩

variable (hins : ∀ i ∈ ins, i.entry.hasAnyHandler = true)

include hins

theorem serves_build : serves m (lookup p (build ins)) = (latest ins m p).isSome := by
  unfold serves
  rw [lookup_build]
  cases h : latest ins m p with
  | none => rfl
  | some e =>
    obtain ⟨i, hi, rfl⟩ := latest_mem h
    exact hins i hi

theorem hasAny_build : (lookup p (build ins)).hasAny = true ↔ ∃ i ∈ ins, patternOf i.path = p := by
  unfold Routes.hasAny
  rw [List.any_eq_true]
  constructor
  · rintro ⟨m, -, hm⟩
    have hs : serves m (lookup p (build ins)) = true := hm
    rw [serves_build hins, latest_isSome] at hs
    obtain ⟨i, hi, -, hp⟩ := hs
    exact ⟨i, hi, hp⟩
  · rintro ⟨i, hi, hp⟩
    refine ⟨i.method, by cases i.method <;> simp, ?_⟩
    show serves i.method (lookup p (build ins)) = true
    rw [serves_build hins, latest_isSome]
    exact ⟨i, hi, rfl, hp⟩

end Inserted

/-- The best of the patterns inserted for a method that match the segments. -/
def BestInserted (ins : List Insertion) (m : HttpMethod) (xs : List Bytes) (p : Pattern) : Prop :=
  (∃ i ∈ ins, i.method = m ∧ patternOf i.path = p) ∧ Matches p xs = true ∧
    ∀ i ∈ ins, i.method = m → Matches (patternOf i.path) xs = true →
      patternOf i.path = p ∨ Before p (patternOf i.path)

/-- **Prioritised pattern matching.** `Match` finds an entry iff a pattern of
the method matches; it is the latest one inserted for the best such pattern, with
one value for each parameter and wildcard of it in order; the path exists iff a
pattern of any method matches. -/
theorem radix_match (ins : List Insertion) (hins : ∀ i ∈ ins, i.entry.hasAnyHandler = true)
    (m : HttpMethod) (data : Nat) (path : Bytes) (hpath : path ≠ [slash]) :
    let segments := splitPathView data path
    let xs := segments.map Segment.text
    let result := matchPath (build ins) m data path
    (result.entry.isSome = true ↔
      ∃ i ∈ ins, i.method = m ∧ Matches (patternOf i.path) xs = true) ∧
    (∀ e, result.entry = some e → ∃ p, BestInserted ins m xs p ∧ latest ins m p = some e ∧
      result.params.map Prod.snd = bound p segments ∧ result.params.length = p.countP binds) ∧
    (result.pathExists = true ↔ ∃ i ∈ ins, Matches (patternOf i.path) xs = true) := by
  intro segments xs result
  have hr : Reaches {} result (fun p => lookup p (build ins) m)
      (fun p => [] ++ bound p segments) (bestPattern (serves m) xs (build ins))
      (bestPattern Routes.hasAny xs (build ins)) := by
    have := matchNode_reaches m segments (build ins) {} [] rfl
    simp only [result, matchPath, if_neg hpath]
    exact this
  have hhits : ∀ p, Hits (serves m) xs (build ins) p ↔
      Matches p xs = true ∧ ∃ i ∈ ins, i.method = m ∧ patternOf i.path = p := fun p => by
    rw [Hits, serves_build hins, latest_isSome]
  refine ⟨?_, fun e he => ?_, ?_⟩
  · rw [hr.entry, Option.isSome_map, bestPattern_isSome (serves_noRoutes m)]
    constructor
    · rintro ⟨p, hp⟩
      obtain ⟨hm, i, hi, hmethod, rfl⟩ := (hhits p).1 hp
      exact ⟨i, hi, hmethod, hm⟩
    · rintro ⟨i, hi, hmethod, hm⟩
      exact ⟨patternOf i.path, (hhits _).2 ⟨hm, i, hi, hmethod, rfl⟩⟩
  · rw [hr.entry] at he
    obtain ⟨p, hp, he⟩ := Option.map_eq_some_iff.1 he
    obtain ⟨hhit, hfirst⟩ := (bestPattern_spec (serves_noRoutes m) xs (build ins)).1 p hp
    obtain ⟨hm, hinserted⟩ := (hhits p).1 hhit
    have hparams : result.params.map Prod.snd = bound p segments := hr.params p hp
    refine ⟨p, ⟨hinserted, hm, fun i hi hmethod hmi => ?_⟩, ?_, hparams, ?_⟩
    · exact hfirst _ ((hhits _).2 ⟨hmi, i, hi, hmethod, rfl⟩)
    · obtain ⟨e', he'⟩ := Option.isSome_iff_exists.1 (latest_isSome.2 hinserted)
      rw [lookup_build, he', Option.getD_some] at he
      rw [he', he]
    · rw [← length_bound hm, ← hparams, List.length_map]
  · have hexists : result.pathExists = (bestPattern Routes.hasAny xs (build ins)).isSome := by
      rw [hr.pathExists]
      exact Bool.false_or _
    rw [hexists, bestPattern_isSome rfl]
    constructor
    · rintro ⟨p, hm, hp⟩
      obtain ⟨i, hi, rfl⟩ := (hasAny_build hins).1 hp
      exact ⟨i, hi, hm⟩
    · rintro ⟨i, hi, hm⟩
      exact ⟨patternOf i.path, hm, (hasAny_build hins).2 ⟨i, hi, rfl⟩⟩

/-- A static route and a parameter route that both match, in either order. -/
def usersRoutes : List Insertion :=
  [⟨.get, ascii "/users/:id", { handler := some 1 }⟩,
    ⟨.get, ascii "/users/me", { handler := some 2 }⟩]

theorem radix_match_users :
    (matchPath (build usersRoutes) .get 1000 (ascii "/users/7")).entry.isSome = true ∧
    ((matchPath (build usersRoutes) .get 1000 (ascii "/users/7")).entry.isSome = true ↔
      ∃ i ∈ usersRoutes, i.method = .get ∧ Matches (patternOf i.path)
        ((splitPathView 1000 (ascii "/users/7")).map Segment.text) = true) :=
  ⟨by decide, (radix_match usersRoutes (by decide) .get 1000 (ascii "/users/7") (by decide)).1⟩

end RadixTree

end IouringRuntime
