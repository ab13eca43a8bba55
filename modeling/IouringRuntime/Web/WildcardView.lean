import IouringRuntime.Web.RouteMatch

/-!
# The view bound to a wildcard

`MatchNode` computes the length of a wildcard's value from the end of the last
segment. Behind a trailing slash the last segment is a default-constructed
view, which does not point into the path, so the subtraction gives the length
of the rest of the address space. The value is the rest of the path otherwise.
-/

namespace IouringRuntime

/-- What a view shows, if it is empty or lies inside the path at `data`. -/
def StringView.read (data : Nat) (path : Bytes) (v : StringView) : Option Bytes :=
  if v.size = 0 then some []
  else if data ≤ v.data ∧ v.data + v.size ≤ data + path.length then
    some ((path.drop (v.data - data)).take v.size)
  else none

/-- Where a segment starts in the path; the segment behind a trailing slash is its end. -/
def Segment.offset (data : Nat) (path : Bytes) (s : Segment) : Nat :=
  if s = .null then path.length else s.data - data

namespace RadixTree

/-! ## Where the segments are -/

theorem splitLoop_bounds (rest : Bytes) : ∀ (start : Nat) (segment : Bytes),
    ∀ s ∈ splitLoop start segment rest,
      start ≤ s.data ∧ s.data + s.text.length ≤ start + segment.length + rest.length := by
  induction rest with
  | nil =>
    intro start segment s hs
    unfold splitLoop at hs
    split at hs
    · cases hs
    · obtain rfl := List.mem_singleton.1 hs
      exact ⟨Nat.le_refl _, Nat.le_refl _⟩
  | cons c rest ih =>
    intro start segment s hs
    rw [List.length_cons]
    unfold splitLoop at hs
    split at hs
    · have hlater : s ∈ splitLoop (start + segment.length + 1) [] rest → start ≤ s.data ∧
          s.data + s.text.length ≤ start + segment.length + (rest.length + 1) := by
        intro hm
        have := ih _ _ s hm
        rw [List.length_nil] at this
        omega
      dsimp only at hs
      split at hs
      · exact hlater hs
      · rcases List.mem_cons.1 hs with rfl | hs
        · exact ⟨Nat.le_refl _, by dsimp only; omega⟩
        · exact hlater hs
    · have := ih _ _ s hs
      rw [List.length_append, List.length_singleton] at this
      omega

/-- Only slashes leave no segment. -/
theorem splitLoop_eq_nil (rest : Bytes) : ∀ (start : Nat) (segment : Bytes),
    splitLoop start segment rest = [] → segment = [] ∧ ∀ c ∈ rest, c = slash := by
  induction rest with
  | nil =>
    intro start segment h
    unfold splitLoop at h
    split at h
    · next hs => exact ⟨List.isEmpty_iff.1 hs, nofun⟩
    · cases h
  | cons c rest ih =>
    intro start segment h
    unfold splitLoop at h
    split at h
    · next hc =>
      dsimp only at h
      split at h
      · next hs =>
        exact ⟨List.isEmpty_iff.1 hs, List.forall_mem_cons.2 ⟨hc, (ih _ _ h).2⟩⟩
      · cases h
    · have := (ih _ _ h).1
      simp at this

/-- Without a slash at the end the last segment ends where the path does. -/
theorem splitLoop_last (rest : Bytes) : ∀ (start : Nat) (segment : Bytes) (s : Segment),
    (splitLoop start segment rest).getLast? = some s → rest.getLast? ≠ some slash →
      s.data + s.text.length = start + segment.length + rest.length := by
  induction rest with
  | nil =>
    intro start segment s hs _
    unfold splitLoop at hs
    split at hs
    · cases hs
    · cases hs
      rfl
  | cons c rest ih =>
    intro start segment s hs hlast
    rw [List.length_cons]
    unfold splitLoop at hs
    have hrest : rest.getLast? ≠ some slash := by
      intro h
      rw [List.getLast?_cons, h] at hlast
      exact hlast rfl
    split at hs
    · next hc =>
      -- something other than a slash follows, so there is a later segment
      have hne : splitLoop (start + segment.length + 1) [] rest ≠ [] := by
        intro h
        have hall := (splitLoop_eq_nil _ _ _ h).2
        cases hr : rest.getLast? with
        | none =>
          rw [List.getLast?_cons, hr] at hlast
          exact hlast (congrArg some hc)
        | some d => exact hrest (hr.trans (congrArg some (hall d (List.mem_of_getLast? hr))))
      have hlater : (splitLoop (start + segment.length + 1) [] rest).getLast? = some s := by
        dsimp only at hs
        split at hs
        · exact hs
        · rwa [List.getLast?_cons_of_ne_nil hne] at hs
      have := ih _ _ s hlater hrest
      rw [List.length_nil] at this
      omega
    · have := ih _ _ s hs hrest
      rw [List.length_append, List.length_singleton] at this
      omega

section Path

variable {data : Nat} {path : Bytes}

theorem splitFrom_bounds {s : Segment} (hs : s ∈ splitFrom data path) :
    data ≤ s.data ∧ s.data + s.text.length ≤ data + path.length := by
  unfold splitFrom at hs
  split at hs
  · next c rest =>
    split at hs
    · have := splitLoop_bounds _ _ _ s hs
      rw [List.length_nil] at this
      rw [List.length_cons]
      omega
    · have := splitLoop_bounds _ _ _ s hs
      rwa [List.length_nil, Nat.add_zero] at this
  · cases hs

theorem splitFrom_last {s : Segment} (hpath : path ≠ [slash]) (ht : trailingSlash path = false)
    (hs : (splitFrom data path).getLast? = some s) :
    s.data + s.text.length = data + path.length := by
  have hlast : path.getLast? ≠ some slash := by
    intro h
    match path, hpath, ht with
    | [], _, _ => cases h
    | [c], hpath, _ => exact hpath (congrArg (fun c => [c]) (Option.some.inj h))
    | _ :: _ :: _, _, ht => simp [trailingSlash, h] at ht
  unfold splitFrom at hs
  split at hs
  · next c rest =>
    split at hs
    · next hc =>
      have hrest : rest.getLast? ≠ some slash := by
        intro h
        rw [List.getLast?_cons, h] at hlast
        exact hlast rfl
      have := splitLoop_last _ _ _ s hs hrest
      rw [List.length_nil] at this
      rw [List.length_cons]
      omega
    · have := splitLoop_last _ _ _ s hs hlast
      rwa [List.length_nil, Nat.add_zero] at this
  · cases hs

/-- A wildcard is bound behind the segments of the rest of its pattern. -/
theorem bound_wildcard {p : Pattern} {segments : List Segment}
    (h : Matches (p ++ [.wildcard]) (segments.map Segment.text) = true) :
    ∃ before first rest, segments = before ++ first :: rest ∧ before.length = p.length ∧
      (bound (p ++ [.wildcard]) segments).getLast? =
        some (wildcardValue first (rest.getLastD first)) := by
  induction p generalizing segments with
  | nil =>
    cases segments with
    | nil => cases h
    | cons x xs => exact ⟨[], x, xs, rfl, rfl, rfl⟩
  | cons a p ih =>
    cases segments with
    | nil =>
      cases a with
      | static | param => cases h
      | wildcard => cases p <;> cases h
    | cons x xs =>
      have hrec : Matches (p ++ [.wildcard]) (xs.map Segment.text) = true := by
        cases a with
        | static s =>
          simp only [List.cons_append, Matches, List.map_cons, Bool.and_eq_true] at h
          exact h.2
        | param => exact h
        | wildcard => cases p <;> cases h
      obtain ⟨before, first, rest, rfl, hlen, hb⟩ := ih hrec
      refine ⟨x :: before, first, rest, rfl, congrArg (· + 1) hlen, ?_⟩
      cases a with
      | static s => exact hb
      | param =>
        rw [List.cons_append, bound, List.getLast?_cons, hb]
        rfl
      | wildcard => cases p <;> cases h

variable (h0 : 0 < data) (hend : data + path.length < 2 ^ 64) (hpath : path ≠ [slash])

include h0 hend hpath

/-- The value of a wildcard that consumes `first` and `rest`. -/
theorem read_wildcardValue {before rest : List Segment} {first : Segment}
    (hs : splitPathView data path = before ++ first :: rest) :
    (wildcardValue first (rest.getLastD first)).read data path =
        some (path.drop (first.offset data path)) ↔
      trailingSlash path = false ∨ rest = [] := by
  have hlast : (splitPathView data path).getLast? = some (rest.getLastD first) := by
    rw [hs, List.getLast?_append, List.getLast?_cons, List.getLastD_eq_getLast?]
    rfl
  unfold splitPathView at hs hlast
  cases ht : trailingSlash path with
  | false =>
    rw [ht, if_neg (by decide), List.append_nil] at hs hlast
    have hmem : first ∈ splitFrom data path := by
      rw [hs]
      exact List.mem_append_right _ (.head _)
    have hfirst := splitFrom_bounds hmem
    have hstop := splitFrom_last hpath ht hlast
    have hne : first ≠ .null := by
      rintro rfl
      exact absurd hfirst.1 (by show ¬ data ≤ 0; omega)
    refine iff_of_true ?_ (.inl rfl)
    have hsize : (wildcardValue first (rest.getLastD first)).size =
        data + path.length - first.data := by
      unfold wildcardValue
      dsimp only
      rw [hstop]
      omega
    have hdata : (wildcardValue first (rest.getLastD first)).data = first.data := rfl
    unfold StringView.read Segment.offset
    rw [hsize, hdata, if_neg hne]
    split
    · next h => rw [List.drop_of_length_le (by omega)]
    · rw [if_pos (by omega), List.take_of_length_le (by rw [List.length_drop]; omega)]
  | true =>
    rw [ht, if_pos rfl] at hs hlast
    have hnull : rest.getLastD first = .null := by
      rw [List.getLast?_concat] at hlast
      exact (Option.some.inj hlast).symm
    cases rest with
    | nil =>
      have hfirst : first = .null := hnull
      subst hfirst
      refine iff_of_true ?_ (.inr rfl)
      have hempty : path.drop (Segment.null.offset data path) = [] := by
        unfold Segment.offset
        rw [if_pos rfl, List.drop_length]
      rw [hempty]
      rfl
    | cons x rest =>
      -- the length is that of the address space behind the first segment
      have hmem : first ∈ splitFrom data path := by
        have hinit := congrArg List.dropLast hs
        rw [List.dropLast_concat, List.dropLast_append_of_ne_nil (by simp),
          List.dropLast_cons_of_ne_nil (by simp)] at hinit
        rw [hinit]
        exact List.mem_append_right _ (.head _)
      have hfirst := splitFrom_bounds hmem
      refine iff_of_false (fun h => ?_) (by simp)
      have hsize : (wildcardValue first ((x :: rest).getLastD first)).size = 2 ^ 64 - first.data := by
        rw [hnull]
        show (2 ^ 64 + (0 + 0) % 2 ^ 64 - first.data % 2 ^ 64) % 2 ^ 64 = _
        omega
      have hdata : (wildcardValue first ((x :: rest).getLastD first)).data = first.data := rfl
      unfold StringView.read at h
      rw [hsize, hdata, if_neg (by omega), if_neg (by omega)] at h
      cases h

/-- **Wildcard values.** The value bound to a wildcard is the rest of the path
from the first segment it consumes iff the path has no trailing slash or only
the empty segment behind that slash is consumed. -/
theorem wildcard_value_inside (root : RadixNode) (m : HttpMethod) {p : Pattern}
    (hbest : bestPattern (serves m) ((splitPathView data path).map Segment.text) root =
      some (p ++ [.wildcard])) :
    ∃ before first rest value, splitPathView data path = before ++ first :: rest ∧
      before.length = p.length ∧
      (matchPath root m data path).params.getLast?.map Prod.snd = some value ∧
      (value.read data path = some (path.drop (first.offset data path)) ↔
        trailingSlash path = false ∨ rest = []) := by
  have hmatch := ((bestPattern_spec (serves_noRoutes m) _ root).1 _ hbest).1.1
  obtain ⟨before, first, rest, hs, hlen, hvalue⟩ := bound_wildcard hmatch
  have hparams := (matchNode_reaches m (splitPathView data path) root {} [] rfl).params _ hbest
  refine ⟨before, first, rest, _, hs, hlen, ?_, read_wildcardValue h0 hend hpath hs⟩
  rw [matchPath, if_neg hpath, ← List.getLast?_map, hparams]
  exact hvalue

end Path

/-- One wildcard route. -/
def filesRoutes : List Insertion :=
  [⟨.get, ascii "/files/*rest", { handler := some 1 }⟩]

theorem wildcard_value_inside_files :
    ∃ before first rest value, splitPathView 1000 (ascii "/files/a/b") = before ++ first :: rest ∧
      before.length = [PatternSegment.static (ascii "files")].length ∧
      (matchPath (build filesRoutes) .get 1000 (ascii "/files/a/b")).params.getLast?.map
        Prod.snd = some value ∧
      (value.read 1000 (ascii "/files/a/b") =
          some ((ascii "/files/a/b").drop (first.offset 1000 (ascii "/files/a/b"))) ↔
        trailingSlash (ascii "/files/a/b") = false ∨ rest = []) :=
  wildcard_value_inside (by decide) (by decide) (by decide) (build filesRoutes) .get (by decide)

/-- Behind a trailing slash the value of the wildcard reaches far beyond the path. -/
theorem wildcard_value_outside :
    (matchPath (build filesRoutes) .get 1000 (ascii "/files/a/")).params =
      [(ascii "rest", ⟨1007, 2 ^ 64 - 1007⟩)] ∧
    StringView.read 1000 (ascii "/files/a/") ⟨1007, 2 ^ 64 - 1007⟩ = none := by
  decide

end RadixTree

end IouringRuntime
