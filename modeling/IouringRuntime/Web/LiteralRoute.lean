import IouringRuntime.Web.RouteMatch

/-!
# Literal routes

A path without parameters and wildcards is a pattern of static segments, the
first of all patterns that match its segments. `Insert` and `Match` split a path
alike except for a trailing slash: `SplitPathView` puts an empty segment behind
it, `SplitPath` does not, and no route has an empty segment.
-/

namespace IouringRuntime

namespace RadixTree

/-- No segment of the path starts with `:` or `*`. -/
def Literal (path : Bytes) : Prop :=
  ∀ s ∈ splitPath path, s.head? ≠ some 58 ∧ s.head? ≠ some 42

instance (path : Bytes) : Decidable (Literal path) :=
  inferInstanceAs (Decidable (∀ s ∈ splitPath path, _))

theorem toPattern_literal {segments : List Bytes}
    (h : ∀ s ∈ segments, s.head? ≠ some 58 ∧ s.head? ≠ some 42) :
    toPattern segments = segments.map .static := by
  induction segments with
  | nil => rfl
  | cons s rest ih =>
    obtain ⟨hp, hw⟩ := h s List.mem_cons_self
    have hwild : isWildcard s = false := by simp [isWildcard, hw]
    have hparam : isParam s = false := by simp [isParam, hp]
    rw [toPattern, hwild, hparam, List.map_cons, ih fun t ht => h t (List.mem_cons_of_mem _ ht)]
    rfl

theorem matches_static (xs : List Bytes) : Matches (xs.map .static) xs = true := by
  induction xs with
  | nil => rfl
  | cons x xs ih => simp [Matches, ih]

theorem not_before_static (p : Pattern) (xs : List Bytes) : ¬ Before p (xs.map .static) := by
  induction p generalizing xs with
  | nil => exact id
  | cons a p ih =>
    cases xs with
    | nil => exact id
    | cons x xs =>
      rintro (h | ⟨-, h⟩)
      · exact absurd h (Nat.not_lt_zero _)
      · exact ih xs h

/-- A pattern that binds nothing is its own text. -/
theorem eq_static_of_matches {p : Pattern} {xs : List Bytes} (h : Matches p xs = true)
    (hb : p.countP binds = 0) : p = xs.map .static := by
  induction p generalizing xs with
  | nil =>
    cases xs with
    | nil => rfl
    | cons _ _ => cases h
  | cons a p ih =>
    cases a with
    | static s =>
      cases xs with
      | nil => cases h
      | cons x xs =>
        simp only [Matches, Bool.and_eq_true, beq_iff_eq] at h
        rw [List.map_cons, h.1, ← ih h.2 (by simpa [binds] using hb)]
    | param | wildcard =>
      rw [List.countP_cons_of_pos rfl] at hb
      cases hb

theorem bound_static (xs : List Segment) : bound (xs.map fun x => .static x.text) xs = [] := by
  induction xs with
  | nil => rfl
  | cons x xs ih => exact ih

/-! ## No route has an empty segment -/

theorem splitLoop_ne_nil (rest : Bytes) : ∀ (start : Nat) (segment : Bytes),
    ∀ s ∈ splitLoop start segment rest, s.text ≠ [] := by
  induction rest with
  | nil =>
    intro start segment s hs
    unfold splitLoop at hs
    split at hs
    · cases hs
    · next hne =>
      obtain rfl := List.mem_singleton.1 hs
      simpa using hne
  | cons c rest ih =>
    intro start segment s hs
    unfold splitLoop at hs
    split at hs
    · dsimp only at hs
      split at hs
      · exact ih _ _ s hs
      · next hne =>
        obtain rfl | hs := List.mem_cons.1 hs
        · simpa using hne
        · exact ih _ _ s hs
    · exact ih _ _ s hs

theorem splitPath_ne_nil {path s : Bytes} (hs : s ∈ splitPath path) : s ≠ [] := by
  obtain ⟨x, hx, rfl⟩ := List.mem_map.1 hs
  unfold splitFrom at hx
  split at hx
  · split at hx <;> exact splitLoop_ne_nil _ _ _ x hx
  · cases hx

theorem mem_toPattern {segments : List Bytes} {s : Bytes}
    (h : PatternSegment.static s ∈ toPattern segments) : s ∈ segments := by
  induction segments with
  | nil => cases h
  | cons x rest ih =>
    unfold toPattern at h
    split at h
    · cases List.mem_singleton.1 h
    · split at h
      · obtain h | h := List.mem_cons.1 h
        · cases h
        · exact List.mem_cons_of_mem _ (ih h)
      · obtain h | h := List.mem_cons.1 h
        · cases h
          exact List.mem_cons_self
        · exact List.mem_cons_of_mem _ (ih h)

theorem static_nil_notMem_patternOf (path : Bytes) : PatternSegment.static [] ∉ patternOf path :=
  fun h => splitPath_ne_nil (mem_toPattern h) rfl

theorem lookup_of_static_nil (ins : List Insertion) {p : Pattern}
    (hp : PatternSegment.static [] ∈ p) (m : HttpMethod) : lookup p (build ins) m = {} := by
  have hnone : latest ins m p = none := by
    rw [← Option.not_isSome_iff_eq_none, latest_isSome]
    rintro ⟨i, -, -, rfl⟩
    exact static_nil_notMem_patternOf i.path hp
  rw [lookup_build, hnone]
  rfl

/-! ## The path of a route -/

/-- The segments are the same wherever the path lies. -/
theorem splitLoop_text (rest : Bytes) : ∀ (start start' : Nat) (segment : Bytes),
    (splitLoop start segment rest).map Segment.text =
      (splitLoop start' segment rest).map Segment.text := by
  induction rest with
  | nil =>
    intro start start' segment
    unfold splitLoop
    split <;> rfl
  | cons c rest ih =>
    intro start start' segment
    unfold splitLoop
    split
    · dsimp only
      split
      · exact ih _ _ _
      · exact congrArg (segment :: ·) (ih _ _ _)
    · exact ih _ _ _

theorem splitPathView_text (data : Nat) (path : Bytes) :
    (splitPathView data path).map Segment.text =
      splitPath path ++ if trailingSlash path then [[]] else [] := by
  have hfrom : (splitFrom data path).map Segment.text = splitPath path := by
    unfold splitPath splitFrom
    split
    · split <;> exact splitLoop_text _ _ _ _
    · rfl
  unfold splitPathView
  rw [List.map_append, hfrom]
  split <;> rfl

section Own

variable (ins : List Insertion) (m : HttpMethod) (data : Nat) {path : Bytes} (entry : RouteEntry)

theorem insert_build :
    insert (build ins) m path entry = build (ins ++ [⟨m, path, entry⟩]) := by
  simp [build]

theorem lookup_own : lookup (patternOf path) (insert (build ins) m path entry) m = entry := by
  rw [lookup_insert (build ins) ⟨m, path, entry⟩, if_pos rfl]
  exact if_pos rfl

/-- Without a trailing slash the path of a literal route is matched by its own
pattern before any other. -/
theorem matchPath_own (hl : Literal path) (hne : path ≠ [slash]) (ht : trailingSlash path = false)
    (he : entry.hasAnyHandler = true) :
    (matchPath (insert (build ins) m path entry) m data path).entry = some entry ∧
      (matchPath (insert (build ins) m path entry) m data path).params = [] := by
  have hp : patternOf path = (splitPath path).map .static := toPattern_literal hl
  have hxs : (splitPathView data path).map Segment.text = splitPath path := by
    rw [splitPathView_text, ht]
    exact List.append_nil _
  have hhit : Hits (serves m) (splitPath path) (insert (build ins) m path entry)
      (patternOf path) := by
    refine ⟨hp ▸ matches_static _, ?_⟩
    rw [serves, lookup_own]
    exact he
  have hspec := bestPattern_spec (serves_noRoutes m) (splitPath path)
    (insert (build ins) m path entry)
  have hbest : bestPattern (serves m) (splitPath path) (insert (build ins) m path entry) =
      some (patternOf path) := by
    cases hb : bestPattern (serves m) (splitPath path) (insert (build ins) m path entry) with
    | none => exact absurd hhit (hspec.2 hb _)
    | some q =>
      obtain h | h := (hspec.1 q hb).2 _ hhit
      · rw [h]
      · exact absurd h (hp ▸ not_before_static q _)
  have hr := matchNode_reaches m (splitPathView data path) (insert (build ins) m path entry) {} []
    rfl
  rw [hxs] at hr
  rw [matchPath, if_neg hne]
  refine ⟨?_, ?_⟩
  · rw [hr.entry, hbest, Option.map_some, lookup_own]
  · have hparams := hr.params _ hbest
    have hnil : bound (patternOf path) (splitPathView data path) = [] := by
      rw [hp, ← hxs, List.map_map]
      exact bound_static _
    rw [hnil] at hparams
    exact List.map_eq_nil_iff.1 hparams

/-- With a trailing slash nothing is found without parameters. -/
theorem matchPath_trailing (ht : trailingSlash path = true) {e : RouteEntry}
    (h : (matchPath (build ins) m data path).entry = some e) :
    (matchPath (build ins) m data path).params ≠ [] := by
  have hne : path ≠ [slash] := by
    rintro rfl
    revert ht
    decide
  have hr := matchNode_reaches m (splitPathView data path) (build ins) {} [] rfl
  rw [matchPath, if_neg hne] at h ⊢
  rw [hr.entry] at h
  obtain ⟨q, hq, -⟩ := Option.map_eq_some_iff.1 h
  obtain ⟨hmatch, hserves⟩ := ((bestPattern_spec (serves_noRoutes m) _ (build ins)).1 q hq).1
  intro hnil
  have hbound : bound q (splitPathView data path) = [] := by
    have := hr.params q hq
    rw [hnil] at this
    exact this.symm
  -- a pattern that binds nothing has the empty segment behind the slash
  have hstatic := eq_static_of_matches hmatch (by rw [← length_bound hmatch, hbound]; rfl)
  have hmem : PatternSegment.static [] ∈ q := by
    rw [hstatic, splitPathView_text, ht]
    exact List.mem_map.2 ⟨[], List.mem_append_right _ List.mem_cons_self, rfl⟩
  rw [serves, lookup_of_static_nil ins hmem] at hserves
  cases hserves

theorem hasAnyHandler_of_match {root : RadixNode} {e : RouteEntry}
    (h : (matchPath root m data path).entry = some e) : e.hasAnyHandler = true := by
  unfold matchPath at h
  split at h
  · split at h
    · next he =>
      cases h
      exact he
    · split at h <;> cases h
  · have hr := matchNode_reaches m (splitPathView data path) root {} [] rfl
    rw [hr.entry] at h
    obtain ⟨q, hq, rfl⟩ := Option.map_eq_some_iff.1 h
    exact ((bestPattern_spec (serves_noRoutes m) _ root).1 q hq).1.2

/-- **Literal routes.** A literal route that was just inserted is what its own
path finds, with no parameters, iff the path is `/` or has no slash at its end,
and the route has a handler. -/
theorem literal_route_iff (hroot : path.head? = some slash) (hl : Literal path) :
    (matchPath (insert (build ins) m path entry) m data path).entry = some entry ∧
        (matchPath (insert (build ins) m path entry) m data path).params = [] ↔
      (path = [slash] ∨ path.getLast? ≠ some slash) ∧ entry.hasAnyHandler = true := by
  have htrailing : trailingSlash path = false ↔ path = [slash] ∨ path.getLast? ≠ some slash := by
    match path, hroot with
    | [c], hroot =>
      rw [List.head?_cons, Option.some_inj] at hroot
      simp [trailingSlash, hroot]
    | _ :: _ :: _, _ => simp [trailingSlash]
  rw [← htrailing]
  constructor
  · rintro ⟨he, hp⟩
    refine ⟨?_, hasAnyHandler_of_match m data he⟩
    by_contra ht
    rw [Bool.not_eq_false] at ht
    rw [insert_build] at he hp
    exact matchPath_trailing _ m data ht he hp
  · rintro ⟨ht, he⟩
    by_cases hslash : path = [slash]
    · subst hslash
      have hset : (insert (build ins) m [slash] entry).routes m = entry := if_pos rfl
      rw [matchPath, if_pos rfl, hset, if_pos he]
      exact ⟨rfl, rfl⟩
    · exact matchPath_own ins m data entry hl hslash ht he

end Own

theorem literal_route_users :
    (matchPath (insert (build usersRoutes) .get (ascii "/users/me") { handler := some 3 }) .get 1000
        (ascii "/users/me")).entry = some { handler := some 3 } ∧
      (matchPath (insert (build usersRoutes) .get (ascii "/users/me") { handler := some 3 }) .get
        1000 (ascii "/users/me")).params = [] :=
  (literal_route_iff usersRoutes .get 1000 { handler := some 3 } (by decide) (by decide)).2
    (by decide)

/-- A literal route with a slash at its end is not found by its own path. -/
theorem literal_route_trailing_slash :
    Literal (ascii "/users/") ∧
      (matchPath (insert {} .get (ascii "/users/") { handler := some 1 }) .get 1000
        (ascii "/users/")).entry = none := by
  decide

end RadixTree

end IouringRuntime
