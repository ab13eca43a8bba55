import IouringRuntime.Web.RouteMatch

/-!
# The Allow header of a 405 answer

When no route of the method matches, `Match` has visited the routes of every
pattern that matches the path, and each visit overwrites `allow_header`: it ends
with the methods of the last pattern, in the order of the search. It names the
usable methods exactly if that pattern has a route for each of them. A route for
`kUnknown` is usable and never named.
-/

namespace IouringRuntime

namespace RadixTree

/-- The methods that a header value names, between commas and blanks. -/
def NamesMethod (value : Bytes) (m : HttpMethod) : Prop :=
  m.toString ∈ (value.splitOn 44).map fun name => name.dropWhile (· == 32)

instance (value : Bytes) (m : HttpMethod) : Decidable (NamesMethod value m) :=
  inferInstanceAs (Decidable (_ ∈ _))

/-- The methods of a node that `AllowHeaderValue` names. -/
def Listed (routes : Routes) (m : HttpMethod) : Prop :=
  m ≠ .unknown ∧ (serves m routes = true ∨ m = .head ∧ serves .get routes = true)

/-- `AllowHeaderValue` by the methods that have a route. -/
def allowText (get head post put delete options patch : Bool) : Bytes :=
  List.intercalate (ascii ", ") <|
    (if get then [ascii "GET"] else []) ++ (if head || get then [ascii "HEAD"] else []) ++
    (if post then [ascii "POST"] else []) ++ (if put then [ascii "PUT"] else []) ++
    (if delete then [ascii "DELETE"] else []) ++ (if options then [ascii "OPTIONS"] else []) ++
    (if patch then [ascii "PATCH"] else [])

theorem namesMethod_allowText (get head post put delete options patch : Bool) (m : HttpMethod) :
    NamesMethod (allowText get head post put delete options patch) m ↔
      (match m with
        | .get => get
        | .head => head || get
        | .post => post
        | .put => put
        | .delete => delete
        | .options => options
        | .patch => patch
        | .unknown => false) = true := by
  revert get head post put delete options patch
  cases m <;> decide +kernel

theorem namesMethod_allowHeaderValue (routes : Routes) (m : HttpMethod) :
    NamesMethod routes.allowHeaderValue m ↔ Listed routes m := by
  refine (namesMethod_allowText ..).trans ?_
  unfold Listed serves
  cases m <;> simp

/-! ## The last pattern visited -/

/-- `p` is the last of the patterns that hit. -/
def IsLast (Hit : Pattern → Prop) (p : Pattern) : Prop := Hit p ∧ ∀ q, Hit q → q = p ∨ Before q p

/-- What a search without a result does to the header: nothing, or it leaves the
value of the last pattern that hit. -/
def Leaves (s r : RadixMatch) (Hit : Pattern → Prop) (look : Pattern → Routes) : Prop :=
  ((∀ p, ¬ Hit p) ∧ r.allowHeader = s.allowHeader) ∨
    ∃ p, IsLast Hit p ∧ r.allowHeader = (look p).allowHeaderValue

namespace Leaves

variable {s r r₁ r₂ : RadixMatch} {Hit Hit₁ Hit₂ : Pattern → Prop} {look look' : Pattern → Routes}

theorem skip (h : ∀ p, ¬ Hit p) : Leaves s s Hit look := .inl ⟨h, rfl⟩

/-- One search after another, whose patterns come later in the order. -/
theorem seq (h₁ : Leaves s r₁ Hit₁ look) (h₂ : Leaves r₁ r₂ Hit₂ look)
    (hlt : ∀ p q, Hit₁ p → Hit₂ q → Before p q) :
    Leaves s r₂ (fun p => Hit₁ p ∨ Hit₂ p) look := by
  rcases h₂ with ⟨hn₂, he₂⟩ | ⟨p, ⟨hp, hlast⟩, he₂⟩
  · rcases h₁ with ⟨hn₁, he₁⟩ | ⟨p, ⟨hp, hlast⟩, he₁⟩
    · exact .inl ⟨fun p hp => hp.elim (hn₁ p) (hn₂ p), he₂.trans he₁⟩
    · exact .inr ⟨p, ⟨.inl hp, fun q hq => hq.elim (hlast q) fun h => absurd h (hn₂ q)⟩,
        he₂.trans he₁⟩
  · exact .inr ⟨p, ⟨.inr hp, fun q hq => hq.elim (fun h => .inr (hlt q p h hp)) (hlast q)⟩, he₂⟩

/-- A search in the subtree behind the segment `k`. -/
theorem below (k : PatternSegment) (h : Leaves s r Hit look') (hl : ∀ p, look (k :: p) = look' p) :
    Leaves s r (fun p => ∃ q, p = k :: q ∧ Hit q) look := by
  rcases h with ⟨hn, he⟩ | ⟨p, ⟨hp, hlast⟩, he⟩
  · exact .inl ⟨fun p ⟨q, _, hq⟩ => hn q hq, he⟩
  · refine .inr ⟨k :: p, ⟨⟨p, rfl, hp⟩, ?_⟩, he.trans (by rw [hl])⟩
    rintro _ ⟨q, rfl, hq⟩
    exact (hlast q hq).imp (fun h => by rw [h]) fun h => .inr ⟨rfl, h⟩

theorem congr (h : Leaves s r Hit look) (hiff : ∀ p, Hit₁ p ↔ Hit p) : Leaves s r Hit₁ look := by
  have heq : Hit₁ = Hit := funext fun p => propext (hiff p)
  rwa [heq]

theorem visit {m : HttpMethod} {routes : Routes} {params : List (Bytes × StringView)} {p : Pattern}
    (hm : ¬ serves m routes = true) (hHit : ∀ q, Hit q ↔ q = p ∧ routes.hasAny = true)
    (hl : look p = routes) : Leaves s (RadixMatch.visit s routes m params) Hit look := by
  have hr : ¬ (routes m).hasAnyHandler = true := hm
  rw [RadixMatch.visit, if_neg hr]
  split
  · next hany =>
    refine .inr ⟨p, ⟨(hHit p).2 ⟨rfl, hany⟩, fun q hq => .inl ((hHit q).1 hq).1⟩, ?_⟩
    rw [hl]
  · next hany => exact .skip fun q hq => hany ((hHit q).1 hq).2

end Leaves

theorem hasAny_noRoutes : noRoutes.hasAny = false := rfl

theorem matchNode_entry {m : HttpMethod} {segments : List Segment} {node : RadixNode}
    {s : RadixMatch} {params : List (Bytes × StringView)} (hs : s.entry = none) :
    (matchNode m segments node s params).entry.isSome = true ↔
      ∃ p, Hits (serves m) (segments.map Segment.text) node p := by
  rw [(matchNode_reaches m segments node s params hs).entry, Option.isSome_map,
    bestPattern_isSome (serves_noRoutes m)]

/-- The search behind the segment `k`, in a child that may be missing. -/
theorem leaves_child {m : HttpMethod} {xs : List Segment} (node : RadixNode) {s : RadixMatch}
    (params : List (Bytes × StringView)) (k : PatternSegment) (found : Option RadixNode)
    (hs : s.entry = none)
    (hno : ∀ child, found = some child → ∀ p, ¬ Hits (serves m) (xs.map Segment.text) child p)
    (ih : ∀ child, found = some child → Leaves s (matchNode m xs child s params)
      (Hits Routes.hasAny (xs.map Segment.text) child) (lookup · child))
    (hl : ∀ child, found = some child → ∀ p, lookup (k :: p) node = lookup p child) :
    (found.elim s fun child => matchNode m xs child s params).entry = none ∧
      Leaves s (found.elim s fun child => matchNode m xs child s params)
        (fun p => ∃ q, p = k :: q ∧ ∃ child, found = some child ∧
          Hits Routes.hasAny (xs.map Segment.text) child q) (lookup · node) := by
  cases found with
  | none =>
    refine ⟨hs, .skip ?_⟩
    rintro _ ⟨_, _, _, h, _⟩
    cases h
  | some child =>
    refine ⟨Option.not_isSome_iff_eq_none.1 fun he => ?_,
      ((ih child rfl).below k (hl child rfl)).congr fun p => ?_⟩
    · obtain ⟨p, hp⟩ := (matchNode_entry hs).1 he
      exact hno child rfl p hp
    · simp only [Option.some.injEq, exists_eq_left']

theorem matchNode_cons (m : HttpMethod) (x : Segment) (xs : List Segment) (node : RadixNode)
    {s : RadixMatch} (params : List (Bytes × StringView)) (hs : s.entry = none) :
    matchNode m (x :: xs) node s params =
      let r₁ := (child? node x.text).elim s fun child => matchNode m xs child s params
      let r₂ := node.paramChild.elim r₁ fun child =>
        matchNode m xs child r₁ (params ++ [(node.paramName, x.view)])
      if r₁.entry.isSome then r₁
      else if r₂.entry.isSome then r₂
      else node.wildcardChild.elim r₂ fun routes => RadixMatch.visit r₂ routes m
        (params ++ [(node.wildcardName, wildcardValue x (xs.getLastD x))]) := by
  rw [matchNode, hs, Option.isSome_none, if_neg Bool.false_ne_true]
  cases child? node x.text <;> cases node.paramChild <;> cases node.wildcardChild <;> rfl

/-- A search without a result leaves the header of the last pattern that matches. -/
theorem matchNode_leaves (m : HttpMethod) (segments : List Segment) :
    ∀ (node : RadixNode) (s : RadixMatch) (params : List (Bytes × StringView)), s.entry = none →
      (∀ p, ¬ Hits (serves m) (segments.map Segment.text) node p) →
      Leaves s (matchNode m segments node s params)
        (Hits Routes.hasAny (segments.map Segment.text) node) (lookup · node) := by
  induction segments with
  | nil =>
    intro node s params _ hno
    exact .visit (p := []) (fun hm => hno [] (hits_nil.2 ⟨rfl, hm⟩)) (fun q => hits_nil) rfl
  | cons x xs ih =>
    intro node s params hs hno
    have hstatic : ∀ child, child? node x.text = some child →
        ∀ p, ¬ Hits (serves m) (xs.map Segment.text) child p := fun child hc p hp =>
      hno (.static x.text :: p) ((hits_static (serves_noRoutes m)).2 ⟨rfl, child, hc, hp⟩)
    have hparam : ∀ child, node.paramChild = some child →
        ∀ p, ¬ Hits (serves m) (xs.map Segment.text) child p := fun child hc p hp =>
      hno (.param :: p) ((hits_param (serves_noRoutes m)).2 ⟨child, hc, hp⟩)
    have hwild : ¬ serves m (node.wildcardChild.getD noRoutes) = true := fun hw =>
      hno [.wildcard] (hits_wildcard.2 ⟨rfl, hw⟩)
    obtain ⟨he₁, h₁⟩ := leaves_child node params (.static x.text)
      (child? node x.text) hs hstatic (fun child hc => ih child s params hs (hstatic child hc))
      fun child hc p => by simp only [lookup, hc]
    rw [matchNode_cons m x xs node params hs]
    dsimp only
    generalize (child? node x.text).elim s _ = r₁ at he₁ h₁
    obtain ⟨he₂, h₂⟩ := leaves_child node (params ++ [(node.paramName, x.view)])
      .param node.paramChild he₁ hparam (fun child hc => ih child r₁ _ he₁ (hparam child hc))
      fun child hc p => by simp only [lookup, hc]
    generalize node.paramChild.elim r₁ _ = r₂ at he₂ h₂
    rw [he₁, he₂, Option.isSome_none, if_neg Bool.false_ne_true, if_neg Bool.false_ne_true]
    have h₃ : Leaves r₂ (node.wildcardChild.elim r₂ fun routes => RadixMatch.visit r₂ routes m
          (params ++ [(node.wildcardName, wildcardValue x (xs.getLastD x))]))
        (fun p => p = [.wildcard] ∧ (node.wildcardChild.getD noRoutes).hasAny = true)
        (lookup · node) := by
      cases hc : node.wildcardChild with
      | none => exact .skip fun p hp => Bool.false_ne_true hp.2
      | some routes =>
        rw [hc] at hwild
        exact .visit hwild (fun q => Iff.rfl) (by simp only [lookup, hc, Option.getD_some])
    refine ((h₁.seq h₂ ?_).seq h₃ ?_).congr fun p => ?_
    · rintro _ _ ⟨p, rfl, -⟩ ⟨q, rfl, -⟩
      exact .inl Nat.zero_lt_one
    · rintro _ _ (⟨p, rfl, -⟩ | ⟨p, rfl, -⟩) ⟨rfl, -⟩
      · exact .inl Nat.zero_lt_two
      · exact .inl Nat.one_lt_two
    · rcases p with _ | ⟨_ | _ | _, p⟩
      · simp [not_hits_nil]
      · simp [hits_static hasAny_noRoutes]
      · simp [hits_param hasAny_noRoutes]
      · simp [hits_wildcard]

/-! ## Routes as inserted -/

theorem not_before_of_before {p q : Pattern} (h : Before p q) : ¬ Before q p := by
  induction p generalizing q with
  | nil => exact h.elim
  | cons a p ih =>
    cases q with
    | nil => exact id
    | cons b q =>
      rcases h with h | ⟨rfl, h⟩
      · rintro (h' | ⟨rfl, -⟩)
        · exact Nat.lt_asymm h h'
        · exact Nat.lt_irrefl _ h
      · rintro (h' | ⟨-, h'⟩)
        · exact Nat.lt_irrefl _ h'
        · exact ih h h'

theorem IsLast.unique {Hit : Pattern → Prop} {p q : Pattern} (hp : IsLast Hit p)
    (hq : IsLast Hit q) : p = q := by
  rcases hq.2 p hp.1 with h | h
  · exact h
  · exact ((hp.2 q hq.1).resolve_right (not_before_of_before h)).symm

/-- A pattern that matches has an entry with a handler for the method. -/
def Answers (ins : List Insertion) (xs : List Bytes) (m : HttpMethod) (p : Pattern) : Prop :=
  Matches p xs = true ∧ ∃ e, latest ins m p = some e ∧ e.hasAnyHandler = true

section Inserted

variable {ins : List Insertion} {m : HttpMethod} {data : Nat} {path : Bytes} {xs : List Bytes}
  {p : Pattern}

theorem serves_lookup : serves m (lookup p (build ins)) = true ↔
    ∃ e, latest ins m p = some e ∧ e.hasAnyHandler = true := by
  unfold serves
  rw [lookup_build]
  cases latest ins m p with
  | none =>
    refine ⟨fun h => absurd h Bool.false_ne_true, ?_⟩
    rintro ⟨_, h, _⟩
    cases h
  | some e =>
    refine ⟨fun h => ⟨e, rfl, h⟩, ?_⟩
    rintro ⟨_, ⟨⟩, h⟩
    exact h

theorem hits_serves : Hits (serves m) xs (build ins) p ↔ Answers ins xs m p := by
  rw [Hits, serves_lookup, Answers]

theorem hits_hasAny : Hits Routes.hasAny xs (build ins) p ↔ ∃ m, Answers ins xs m p := by
  have hany : (lookup p (build ins)).hasAny = true ↔ ∃ m, serves m (lookup p (build ins)) = true := by
    unfold Routes.hasAny
    rw [List.any_eq_true]
    exact ⟨fun ⟨m, _, h⟩ => ⟨m, h⟩, fun ⟨m, h⟩ => ⟨m, by cases m <;> simp, h⟩⟩
  rw [Hits, hany]
  simp only [serves_lookup, Answers, exists_and_left]

theorem listed_lookup : Matches p xs = true → (Listed (lookup p (build ins)) m ↔
    m ≠ .unknown ∧ (Answers ins xs m p ∨ m = .head ∧ Answers ins xs .get p)) := by
  intro hm
  simp only [Listed, serves_lookup, Answers, hm, true_and]

theorem matchPath_entry (ins : List Insertion) (m : HttpMethod) (data : Nat) (path : Bytes) :
    (matchPath (build ins) m data path).entry.isSome = true ↔
      ∃ p, Answers ins ((splitPathView data path).map Segment.text) m p := by
  simp only [← hits_serves]
  by_cases hpath : path = [slash]
  · subst hpath
    show _ ↔ ∃ p, Hits (serves m) [] (build ins) p
    simp only [hits_nil, exists_eq_left]
    rw [matchPath, if_pos rfl]
    split
    · next h => exact ⟨fun _ => h, fun _ => rfl⟩
    · next h =>
      have hnone : ∀ r : RadixMatch, r.entry = none →
          (r.entry.isSome = true ↔ serves m (build ins).routes = true) := fun r hr => by
        rw [hr]
        exact ⟨fun hs => absurd hs Bool.false_ne_true, fun hm => absurd hm h⟩
      split <;> exact hnone _ rfl
  · rw [matchPath, if_neg hpath]
    exact matchNode_entry rfl

/-- Without a route of the method the header is that of the last pattern. -/
theorem matchPath_allowHeader (hnone : (matchPath (build ins) m data path).entry = none)
    (hexists : (matchPath (build ins) m data path).pathExists = true) :
    ∃ p, IsLast (fun p => ∃ m, Answers ins ((splitPathView data path).map Segment.text) m p) p ∧
      (matchPath (build ins) m data path).allowHeader = (lookup p (build ins)).allowHeaderValue := by
  have hno : ∀ p, ¬ Hits (serves m) ((splitPathView data path).map Segment.text) (build ins) p := by
    intro p hp
    have hs := (matchPath_entry ins m data path).2 ⟨p, hits_serves.1 hp⟩
    rw [hnone] at hs
    cases hs
  simp only [← hits_hasAny]
  by_cases hpath : path = [slash]
  · subst hpath
    have hm : ¬ ((build ins).routes m).hasAnyHandler = true := fun hm =>
      hno [] (hits_nil.2 ⟨rfl, hm⟩)
    rw [matchPath, if_pos rfl, if_neg hm] at hexists ⊢
    split at hexists
    · next hany =>
      rw [if_pos hany]
      exact ⟨[], ⟨hits_nil.2 ⟨rfl, hany⟩, fun q hq => .inl (hits_nil.1 hq).1⟩, rfl⟩
    · cases hexists
  · rw [matchPath, if_neg hpath] at hexists ⊢
    rcases matchNode_leaves m (splitPathView data path) (build ins) {} [] rfl hno with ⟨hn, -⟩ | hp
    · rw [(matchNode_reaches m (splitPathView data path) (build ins) {} [] rfl).pathExists,
        Bool.false_or, bestPattern_isSome hasAny_noRoutes] at hexists
      obtain ⟨p, hp⟩ := hexists
      exact absurd hp (hn p)
    · exact hp

end Inserted

/-- **The Allow header.** For a path that has no route of the method but of
others, it names exactly the usable methods iff the last pattern that matches
has a route for each of them and none is for `kUnknown`. -/
theorem allow_iff (ins : List Insertion) (m : HttpMethod) (data : Nat) (path : Bytes)
    (hnone : (matchPath (build ins) m data path).entry = none)
    (hexists : (matchPath (build ins) m data path).pathExists = true) :
    let xs := (splitPathView data path).map Segment.text
    let finds (m' : HttpMethod) := (matchPath (build ins) m' data path).entry.isSome = true
    (∀ m', NamesMethod (matchPath (build ins) m data path).allowHeader m' ↔
        finds m' ∨ m' = .head ∧ finds .get) ↔
      ∃ p, IsLast (fun p => ∃ m', Answers ins xs m' p) p ∧ ∀ q m', Answers ins xs m' q →
        m' ≠ .unknown ∧ (Answers ins xs m' p ∨ m' = .head ∧ Answers ins xs .get p) := by
  intro xs finds
  have hfinds : ∀ m', finds m' ↔ ∃ q, Answers ins xs m' q := fun m' =>
    matchPath_entry ins m' data path
  obtain ⟨p, hp, hallow⟩ := matchPath_allowHeader hnone hexists
  obtain ⟨m₀, hmatch, -⟩ := hp.1
  have hnames : ∀ m', NamesMethod (matchPath (build ins) m data path).allowHeader m' ↔
      m' ≠ .unknown ∧ (Answers ins xs m' p ∨ m' = .head ∧ Answers ins xs .get p) := fun m' => by
    rw [hallow, namesMethod_allowHeaderValue, listed_lookup hmatch]
  constructor
  · intro hexact
    exact ⟨p, hp, fun q m' hq => (hnames m').1 ((hexact m').2 (.inl ((hfinds m').2 ⟨q, hq⟩)))⟩
  · rintro ⟨p', hp', hall⟩ m'
    obtain rfl := hp'.unique hp
    rw [hnames, hfinds, hfinds]
    constructor
    · rintro ⟨-, h | ⟨hm, h⟩⟩
      · exact .inl ⟨p', h⟩
      · exact .inr ⟨hm, p', h⟩
    · rintro (⟨q, hq⟩ | ⟨rfl, q, hq⟩)
      · exact hall q m' hq
      · obtain ⟨-, h | ⟨h, -⟩⟩ := hall q .get hq
        · exact ⟨by decide, .inr ⟨rfl, h⟩⟩
        · cases h

/-- One pattern of two that match has a route for every method. -/
def itemsRoutes : List Insertion :=
  [⟨.get, ascii "/items/new", { handler := some 1 }⟩,
    ⟨.get, ascii "/items/:id", { handler := some 2 }⟩,
    ⟨.put, ascii "/items/:id", { handler := some 3 }⟩]

theorem allow_iff_items :
    let xs := (splitPathView 1000 (ascii "/items/new")).map Segment.text
    let result := matchPath (build itemsRoutes) .post 1000 (ascii "/items/new")
    let finds (m' : HttpMethod) :=
      (matchPath (build itemsRoutes) m' 1000 (ascii "/items/new")).entry.isSome = true
    result.allowHeader = ascii "GET, HEAD, PUT" ∧
    ((∀ m', NamesMethod result.allowHeader m' ↔ finds m' ∨ m' = .head ∧ finds .get) ↔
      ∃ p, IsLast (fun p => ∃ m', Answers itemsRoutes xs m' p) p ∧
        ∀ q m', Answers itemsRoutes xs m' q → m' ≠ .unknown ∧
          (Answers itemsRoutes xs m' p ∨ m' = .head ∧ Answers itemsRoutes xs .get p)) :=
  ⟨by decide, allow_iff itemsRoutes .post 1000 (ascii "/items/new") (by decide) (by decide)⟩

/-- GET is served by the static route and not named, as the parameter route is
visited last. -/
theorem allow_names_last_route :
    let ins : List Insertion :=
      [⟨.get, ascii "/items/new", { handler := some 1 }⟩,
        ⟨.put, ascii "/items/:id", { handler := some 2 }⟩]
    let result := matchPath (build ins) .post 1000 (ascii "/items/new")
    result.entry = none ∧ result.pathExists = true ∧ result.allowHeader = ascii "PUT" ∧
      (matchPath (build ins) .get 1000 (ascii "/items/new")).entry.isSome = true ∧
      ¬ NamesMethod result.allowHeader .get := by
  decide

end RadixTree

end IouringRuntime
