import Mathlib.Data.List.Basic
import IouringRuntime.Web.RouteMatch

/-!
# The names of route parameters

A node keeps one name for its parameter child and one for its wildcard child,
written by the first route that goes there; a route inserted later shares the
position and its own name is dropped. So a match returns the names of its own
route exactly if, at each position where the route has a parameter, the first
route inserted with a parameter there calls it the same.

A position is named by the pattern that leads to it and ends with it.
-/

namespace IouringRuntime

namespace RadixTree

/-- The names written in a route path, in order. -/
def segmentNames : List Bytes → List Bytes
  | [] => []
  | segment :: rest =>
    if isWildcard segment then [segment.drop 1]
    else if isParam segment then segment.drop 1 :: segmentNames rest
    else segmentNames rest

def paramNames (path : Bytes) : List Bytes := segmentNames (splitPath path)

/-- The positions of a pattern's parameters and wildcard. -/
def binders : Pattern → List Pattern
  | [] => []
  | a :: p => (if binds a then [[a]] else []) ++ (binders p).map (a :: ·)

/-- The name that the segments of a route write at a position, if they have one there. -/
def nameIn : List Bytes → Pattern → Option Bytes
  | [], _ | _, [] => none
  | segment :: rest, a :: pos =>
    if isWildcard segment then if a = .wildcard ∧ pos = [] then some (segment.drop 1) else none
    else if isParam segment then
      if a = .param then if pos = [] then some (segment.drop 1) else nameIn rest pos else none
    else if a = .static segment then nameIn rest pos
    else none

def nameAt (path : Bytes) (pos : Pattern) : Option Bytes := nameIn (splitPath path) pos

/-- The name that the tree keeps at a position. -/
def nameOn : Pattern → RadixNode → Option Bytes
  | [], _ => none
  | .static s :: pos, node => (child? node s).bind (nameOn pos)
  | .param :: pos, node =>
    node.paramChild.bind fun child => if pos = [] then some node.paramName else nameOn pos child
  | .wildcard :: pos, node =>
    if pos = [] ∧ node.wildcardChild.isSome then some node.wildcardName else none

/-! ## The first route names a position -/

theorem nameOn_new (segment : Bytes) (pos : Pattern) : nameOn pos { segment } = none := by
  match pos with
  | [] | .static _ :: _ | .param :: _ => rfl
  | .wildcard :: _ => simp [nameOn]

theorem nameOn_insertSegments (m : HttpMethod) (e : RouteEntry) (segments : List Bytes) :
    ∀ (node : RadixNode) (pos : Pattern), nameOn pos (insertSegments m e segments node) =
      (nameOn pos node).or (nameIn segments pos) := by
  induction segments with
  | nil =>
    intro node pos
    rw [show nameIn [] pos = none from rfl, Option.or_none]
    rcases pos with _ | ⟨_ | _ | _, _⟩ <;> rfl
  | cons s rest ih =>
    intro node pos
    cases pos with
    | nil => rfl
    | cons a pos =>
      unfold insertSegments nameIn
      split
      · -- a wildcard ends the route
        cases a with
        | wildcard =>
          by_cases hp : pos = []
          · cases hw : node.wildcardChild <;> simp [nameOn, hp, hw]
          · simp [nameOn, hp]
        | static | param => simp [nameOn, child?]
      · split
        · cases a with
          | param =>
            cases hc : node.paramChild with
            | none => by_cases hp : pos = [] <;> simp [nameOn, hp, hc, ih, nameOn_new]
            | some child => by_cases hp : pos = [] <;> simp [nameOn, hp, hc, ih]
          | static | wildcard => simp [nameOn, child?]
        · cases a with
          | static s' =>
            simp only [nameOn, child?, find_updateChild (segment_insertSegments m e rest)]
            by_cases hs : s' = s
            · subst hs
              cases node.children.find? fun c => c.segment = s' <;> simp [ih, nameOn_new]
            · simp [hs]
          | param | wildcard => simp [nameOn]

theorem nameOn_build (ins : List Insertion) (pos : Pattern) :
    nameOn pos (build ins) = ins.findSome? fun i => nameAt i.path pos := by
  induction ins using List.reverseRecOn with
  | nil => exact nameOn_new [] pos
  | append_singleton ins i ih =>
    have hbuild : build (ins ++ [i]) =
        insertSegments i.method i.entry (splitPath i.path) (build ins) := by
      rw [← insert_eq_insertSegments]
      simp [build]
    rw [hbuild, nameOn_insertSegments, ih, List.findSome?_append]
    cases h : nameIn (splitPath i.path) pos <;> simp [nameAt, h]

/-! ## The names of a route -/

theorem binders_ne_nil {p pos : Pattern} (h : pos ∈ binders p) : pos ≠ [] := by
  cases p with
  | nil => cases h
  | cons a p =>
    rcases List.mem_append.1 h with h | h
    · split at h
      · rw [List.mem_singleton.1 h]
        exact List.cons_ne_nil _ _
      · cases h
    · obtain ⟨q, -, rfl⟩ := List.mem_map.1 h
      exact List.cons_ne_nil _ _

theorem segmentNames_eq (segments : List Bytes) :
    (segmentNames segments).map some = (binders (toPattern segments)).map (nameIn segments) := by
  induction segments with
  | nil => rfl
  | cons s rest ih =>
    unfold segmentNames toPattern
    split
    · next hw => simp [binders, binds, nameIn, hw]
    · next hw =>
      split
      · next hp =>
        have hhead : nameIn (s :: rest) [.param] = some (s.drop 1) := by simp [nameIn, hw, hp]
        have hrest : (binders (toPattern rest)).map (nameIn (s :: rest) ∘ (.param :: ·)) =
            (binders (toPattern rest)).map (nameIn rest) :=
          List.map_congr_left fun pos hpos => by simp [nameIn, hw, hp, binders_ne_nil hpos]
        simp only [binders, binds, if_true, List.map_append, List.map_map, List.map_cons,
          List.map_nil, hhead, hrest, ← ih]
        rfl
      · next hp =>
        have hrest : (binders (toPattern rest)).map (nameIn (s :: rest) ∘ (.static s :: ·)) =
            (binders (toPattern rest)).map (nameIn rest) :=
          List.map_congr_left fun pos _ => by simp [nameIn, hw, hp]
        rw [binders, List.map_append, List.map_map, hrest, ih]
        rfl

/-! ## The names a match returns -/

/-- The names of the parameters that a search returns with the pattern `best`. -/
def Named (r : RadixMatch) (names : Pattern → List (Option Bytes)) (best : Option Pattern) : Prop :=
  ∀ p, best = some p → r.params.map (fun x => some x.1) = names p

namespace Named

variable {r r₁ r₂ : RadixMatch} {names names' : Pattern → List (Option Bytes)}
  {best b₁ b₂ : Option Pattern}

theorem none : Named r names none := fun _ h => by cases h

/-- The second search is made when the first has no entry. -/
theorem orElse (he : r₁.entry.isSome = b₁.isSome) (h₁ : Named r₁ names b₁)
    (h₂ : r₁.entry = .none → Named r₂ names b₂) :
    Named (if r₁.entry.isSome then r₁ else r₂) names (b₁.or b₂) := by
  cases b₁ with
  | some p =>
    rw [if_pos (by rw [he]; rfl)]
    exact h₁
  | none =>
    have hnone : r₁.entry = .none := Option.not_isSome_iff_eq_none.1 (by rw [he]; exact Bool.false_ne_true)
    rw [if_neg (by rw [hnone]; exact Bool.false_ne_true)]
    exact h₂ hnone

/-- A search in the subtree behind the segment `k`. -/
theorem below (k : PatternSegment) (h : Named r names' best) (hn : ∀ p, names (k :: p) = names' p) :
    Named r names (best.map (k :: ·)) := by
  intro p hp
  obtain ⟨q, hq, rfl⟩ := Option.map_eq_some_iff.1 hp
  rw [h q hq, hn]

theorem visit (s : RadixMatch) (routes : Routes) (m : HttpMethod) (params : List (Bytes × StringView))
    {p : Pattern} (hn : names p = params.map fun x => some x.1) :
    Named (RadixMatch.visit s routes m params) names (if serves m routes then some p else .none) := by
  intro q hq
  split at hq
  · next hm =>
    have hm : (routes m).hasAnyHandler = true := hm
    rw [← Option.some.inj hq, hn, RadixMatch.visit, if_pos hm]
  · cases hq

end Named

/-- What a search that starts with the parameters `params` adds is named by the tree. -/
theorem matchNode_names (m : HttpMethod) (segments : List Segment) :
    ∀ (node : RadixNode) (s : RadixMatch) (params : List (Bytes × StringView)), s.entry = none →
      Named (matchNode m segments node s params)
        (fun p => params.map (fun x => some x.1) ++ (binders p).map (nameOn · node))
        (bestPattern (serves m) (segments.map Segment.text) node) := by
  induction segments with
  | nil =>
    intro node s params hs
    exact .visit s node.routes m params (List.append_nil _)
  | cons x xs ih =>
    intro node s params hs
    have found {node : RadixNode} {s : RadixMatch} {params : List (Bytes × StringView)}
        (hs : s.entry = none) (k : PatternSegment) :
        (matchNode m xs node s params).entry.isSome =
          ((bestPattern (serves m) (xs.map Segment.text) node).map (k :: ·)).isSome := by
      rw [(matchNode_reaches m xs node s params hs).entry, Option.isSome_map, Option.isSome_map]
    unfold matchNode bestPattern
    rw [hs, Option.isSome_none, if_neg Bool.false_ne_true]
    refine .orElse ?_ ?_ fun h₁ => .orElse ?_ ?_ fun h₂ => ?_
    · cases hc : child? node x.text with
      | none => rw [hs]; rfl
      | some child => exact found hs _
    · cases hc : child? node x.text with
      | none => exact .none
      | some child =>
        refine (ih child s params hs).below (.static x.text) fun p => ?_
        simp [binders, binds, nameOn, hc, Function.comp_def]
    · cases hc : node.paramChild with
      | none => rw [h₁]; rfl
      | some child => exact found h₁ _
    · cases hc : node.paramChild with
      | none => exact .none
      | some child =>
        refine (ih child _ _ h₁).below .param fun p => ?_
        simp only [binders, binds, nameOn, hc, if_true, List.map_append, List.map_cons, List.map_nil,
          List.map_map, List.append_assoc, Option.bind_some]
        refine congrArg (fun l => params.map (fun x => some x.1) ++ ([some node.paramName] ++ l))
          (List.map_congr_left fun pos hpos => ?_)
        simp [nameOn, hc, binders_ne_nil hpos]
    · cases hc : node.wildcardChild with
      | none => exact .none
      | some routes =>
        refine .visit _ routes m _ ?_
        simp [binders, binds, nameOn, hc]

/-! ## Its own names -/

/-- The call that inserted the entry a method has for a pattern. -/
def latestInsertion (ins : List Insertion) (m : HttpMethod) (p : Pattern) : Option Insertion :=
  (ins.filter fun i => i.method = m ∧ patternOf i.path = p).getLast?

theorem latestInsertion_spec {ins : List Insertion} {m : HttpMethod} {p : Pattern} {i : Insertion}
    (h : latestInsertion ins m p = some i) : i ∈ ins ∧ i.method = m ∧ patternOf i.path = p := by
  have hi := List.mem_filter.1 (List.mem_of_getLast? h)
  exact ⟨hi.1, by simpa using hi.2⟩

/-- At each position where the route has a parameter or wildcard, the first route
inserted with one there calls it as the route does. -/
def NamedFirst (ins : List Insertion) (path : Bytes) : Prop :=
  ∀ pos ∈ binders (patternOf path), ins.findSome? (fun j => nameAt j.path pos) = nameAt path pos

instance (ins : List Insertion) (path : Bytes) : Decidable (NamedFirst ins path) :=
  inferInstanceAs (Decidable (∀ pos ∈ _, _))

theorem matchPath_names {ins : List Insertion} {m : HttpMethod} {data : Nat} {path : Bytes}
    {e : RouteEntry} (he : (matchPath (build ins) m data path).entry = some e) :
    ∃ p, Matches p ((splitPathView data path).map Segment.text) = true ∧
      lookup p (build ins) m = e ∧ e.hasAnyHandler = true ∧
      (matchPath (build ins) m data path).params.map (fun x => some x.1) =
        (binders p).map (nameOn · (build ins)) := by
  by_cases hpath : path = [slash]
  · subst hpath
    rw [matchPath, if_pos rfl] at he ⊢
    split at he
    · next hm =>
      rw [if_pos hm]
      cases he
      exact ⟨[], rfl, rfl, hm, rfl⟩
    · split at he <;> cases he
  · rw [matchPath, if_neg hpath] at he ⊢
    have hr := matchNode_reaches m (splitPathView data path) (build ins) {} [] rfl
    rw [hr.entry] at he
    obtain ⟨p, hp, he⟩ := Option.map_eq_some_iff.1 he
    obtain ⟨⟨hm, hserves⟩, -⟩ := (bestPattern_spec (serves_noRoutes m) _ (build ins)).1 p hp
    refine ⟨p, hm, he, ?_, ?_⟩
    · rw [← he]
      exact hserves
    · exact matchNode_names m (splitPathView data path) (build ins) {} [] rfl p hp

/-- **Whose names a match returns.** The entry is the one that its latest `Insert`
call put there, and the parameters have the names written in that call's path
exactly if the first routes at their positions wrote the same. -/
theorem param_names_iff (ins : List Insertion) (m : HttpMethod) (data : Nat) (path : Bytes)
    (e : RouteEntry) (he : (matchPath (build ins) m data path).entry = some e) :
    ∃ i, latestInsertion ins m (patternOf i.path) = some i ∧ i.entry = e ∧
      Matches (patternOf i.path) ((splitPathView data path).map Segment.text) = true ∧
      ((matchPath (build ins) m data path).params.map Prod.fst = paramNames i.path ↔
        NamedFirst ins i.path) := by
  obtain ⟨p, hm, hl, hh, hnames⟩ := matchPath_names he
  have hlatest : latest ins m p = some e := by
    rw [lookup_build] at hl
    cases hs : latest ins m p with
    | some e' => rw [← hl, hs, Option.getD_some]
    | none =>
      rw [hs] at hl
      rw [← hl] at hh
      cases hh
  obtain ⟨i, hi, hie⟩ := Option.map_eq_some_iff.1 hlatest
  have hi : latestInsertion ins m p = some i := hi
  obtain ⟨-, -, rfl⟩ := latestInsertion_spec hi
  refine ⟨i, hi, hie, hm, ?_⟩
  have hown : (paramNames i.path).map some = (binders (patternOf i.path)).map (nameAt i.path) :=
    segmentNames_eq _
  calc (matchPath (build ins) m data path).params.map Prod.fst = paramNames i.path
      ↔ (matchPath (build ins) m data path).params.map (fun x => some x.1) =
          (paramNames i.path).map some := by
        have hinj : Function.Injective (List.map (some : Bytes → Option Bytes)) :=
          List.map_injective_iff.2 (Option.some_injective Bytes)
        rw [← hinj.eq_iff, List.map_map]
        rfl
    _ ↔ NamedFirst ins i.path := by
        rw [hnames, hown, List.map_inj_left]
        simp only [nameOn_build]
        rfl

/-- Two routes that name the parameter at the same position alike. -/
def postsRoutes : List Insertion :=
  [⟨.get, ascii "/posts/:id", { handler := some 1 }⟩,
    ⟨.post, ascii "/posts/:id/tags/*rest", { handler := some 2 }⟩]

theorem param_names_iff_posts :
    NamedFirst postsRoutes (ascii "/posts/:id/tags/*rest") ∧
    ∃ i, latestInsertion postsRoutes .post (patternOf i.path) = some i ∧
      i.entry = { handler := some 2 } ∧
      Matches (patternOf i.path)
        ((splitPathView 1000 (ascii "/posts/7/tags/a")).map Segment.text) = true ∧
      ((matchPath (build postsRoutes) .post 1000 (ascii "/posts/7/tags/a")).params.map Prod.fst =
          paramNames i.path ↔ NamedFirst postsRoutes i.path) :=
  ⟨by decide, param_names_iff postsRoutes .post 1000 (ascii "/posts/7/tags/a") _ (by decide)⟩

/-- The route for POST calls the parameter `name`; the match returns it as `id`. -/
theorem param_named_by_other_route :
    let ins : List Insertion :=
      [⟨.get, ascii "/users/:id", { handler := some 1 }⟩,
        ⟨.post, ascii "/users/:name", { handler := some 2 }⟩]
    let result := matchPath (build ins) .post 1000 (ascii "/users/7")
    result.entry = some { handler := some 2 } ∧ result.params.map Prod.fst = [ascii "id"] ∧
      paramNames (ascii "/users/:name") = [ascii "name"] := by
  decide

end RadixTree

end IouringRuntime
