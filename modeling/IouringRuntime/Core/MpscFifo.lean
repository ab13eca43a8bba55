import IouringRuntime.Core.MpscQueue

/-!
# The queue is first in, first out

`Inv s chain`: the list as published is `chain`, from `consume_end_` to
`produce_end_`; its links are written or pending, and what was pushed is what
was returned, what the consumer has in hand and what is in the chain, in this
order. `AtPc` says what the consumer's local variables mean at each point. The
steps of the producers are `Env` steps: they only add to the chain.
-/

namespace IouringRuntime

open LateLinks

namespace MpscQueue

variable {V : Type}

def InUse (s : MpscQueue V) : MpscNode → Prop
  | .stub => True
  | .heap addr => s.live addr = true

/-- What the consumer has taken out of the list and not returned. -/
def inHand (s : MpscQueue V) : List (MpscNode × V) :=
  match s.pc with
  | .moveValue node => [(node, s.value node)]
  | .deleteNode node out => [(node, out)]
  | _ => []

def contents (s : MpscQueue V) (chain : List MpscNode) : List (MpscNode × V) :=
  (chain.filter (· ≠ .stub)).map fun n => (n, s.value n)

/-- A node taken out of the list: its link is written, and it is not freed. -/
structure Passed (s : MpscQueue V) (chain : List MpscNode) (node : MpscNode) : Prop where
  ne_stub : node ≠ .stub
  inUse : s.InUse node
  notMem : node ∉ chain
  linked : ∃ next, s.next node = some next

/-- What the consumer's local variables say about the list. -/
def AtPc (s : MpscQueue V) (chain : List MpscNode) : TryPopPc V → Prop
  | .idle => True
  | .loadNext node => s.consumeEnd = node
  | .skipStub next => s.consumeEnd = .stub ∧ s.next .stub = some next
  | .loadNextAgain node => s.consumeEnd = node ∧ node ≠ .stub
  | .advance node next => s.consumeEnd = node ∧ node ≠ .stub ∧ s.next node = some next
  | .moveValue node | .deleteNode node _ => s.Passed chain node
  | .loadProduceEnd node => s.consumeEnd = node ∧ node ≠ .stub
  | .clearStub node => s.consumeEnd = node ∧ node ≠ .stub ∧ .stub ∉ chain
  | .exchangeStub node =>
    s.consumeEnd = node ∧ node ≠ .stub ∧ .stub ∉ chain ∧ s.next .stub = none
  | .linkStub node _ | .reloadNext node =>
    s.consumeEnd = node ∧ node ≠ .stub ∧ node ≠ s.produceEnd

structure Inv (s : MpscQueue V) (chain : List MpscNode) : Prop where
  head : chain.head? = some s.consumeEnd
  last : chain.getLast? = some s.produceEnd
  list : Published s.next s.pending chain
  inUse : ∀ n ∈ chain, s.InUse n
  order : s.exchanged = s.popped ++ (s.inHand ++ s.contents chain)
  atPc : s.AtPc chain s.pc

variable {s t : MpscQueue V} {chain chain' : List MpscNode}

theorem InUse.of_live {n : MpscNode} (h : s.InUse n) (hl : t.live = s.live) : t.InUse n := by
  cases n with
  | stub => trivial
  | heap addr => exact (congrFun hl addr).trans h

theorem Inv.at_pc (h : s.Inv chain) {pc : TryPopPc V} (hpc : s.pc = pc) : s.AtPc chain pc :=
  hpc ▸ h.atPc

theorem inv_init (item : V) : (init item).Inv [.stub] where
  head := rfl
  last := rfl
  list := ⟨.last rfl fun _ => List.not_mem_nil, nofun, List.nodup_nil⟩
  inUse := fun n hn => by
    obtain rfl := List.mem_singleton.1 hn
    trivial
  order := rfl
  atPc := trivial

theorem Inv.cons (h : s.Inv chain) : ∃ l, chain = s.consumeEnd :: l := by
  obtain ⟨l, hl⟩ := List.head?_eq_some_iff.1 h.head
  exact ⟨l, hl⟩

theorem Inv.consumeEnd_mem (h : s.Inv chain) : s.consumeEnd ∈ chain := by
  obtain ⟨l, rfl⟩ := h.cons
  exact .head _

theorem contents_congr (h : ∀ n ∈ chain, t.value n = s.value n) :
    t.contents chain = s.contents chain :=
  List.map_congr_left fun n hn => by rw [h n (List.mem_of_mem_filter hn)]

theorem contents_append (xs ys : List MpscNode) :
    s.contents (xs ++ ys) = s.contents xs ++ s.contents ys := by
  simp [contents]

/-! ## Steps of the producers -/

/-- What a producer's step may change. -/
structure Env (s t : MpscQueue V) (chain chain' : List MpscNode) : Prop where
  pc : t.pc = s.pc
  consumeEnd : t.consumeEnd = s.consumeEnd
  popped : t.popped = s.popped
  next : ∀ a b, s.InUse a → s.next a = some b → t.next a = some b
  stub : .stub ∉ chain → t.next .stub = s.next .stub
  inUse : ∀ a, s.InUse a → t.InUse a
  value : ∀ a, s.InUse a → t.value a = s.value a
  added : ∀ n ∈ chain', n ∈ chain ∨ ¬ s.InUse n
  produceEnd : t.produceEnd = s.produceEnd ∨ ¬ s.InUse t.produceEnd

theorem Passed.env {node : MpscNode} (h : s.Passed chain node) (he : Env s t chain chain') :
    t.Passed chain' node := by
  obtain ⟨next, hnext⟩ := h.linked
  exact ⟨h.ne_stub, he.inUse _ h.inUse, fun hm => (he.added _ hm).elim h.notMem (absurd h.inUse),
    next, he.next _ _ h.inUse hnext⟩

theorem Env.notMem_stub (he : Env s t chain chain') (h : .stub ∉ chain) : .stub ∉ chain' :=
  fun hm => (he.added _ hm).elim h fun hn => hn trivial

/-- The consumer's local variables keep their meaning. -/
theorem AtPc.env {pc : TryPopPc V} (h : s.AtPc chain pc) (he : Env s t chain chain')
    (hin : s.InUse s.consumeEnd) : t.AtPc chain' pc := by
  have hend : s.consumeEnd ≠ s.produceEnd → s.consumeEnd ≠ t.produceEnd := by
    intro hne heq
    rcases he.produceEnd with hp | hp
    · exact hne (heq.trans hp)
    · exact hp (heq ▸ hin)
  cases pc with
  | idle => trivial
  | loadNext node => exact he.consumeEnd.trans h
  | skipStub next => exact ⟨he.consumeEnd.trans h.1, he.next _ _ trivial h.2⟩
  | loadNextAgain node | loadProduceEnd node => exact ⟨he.consumeEnd.trans h.1, h.2⟩
  | advance node next =>
    obtain ⟨hc, hs, hn⟩ := h
    subst hc
    exact ⟨he.consumeEnd, hs, he.next _ _ hin hn⟩
  | moveValue node | deleteNode node out => exact Passed.env h he
  | clearStub node => exact ⟨he.consumeEnd.trans h.1, h.2.1, he.notMem_stub h.2.2⟩
  | exchangeStub node =>
    exact ⟨he.consumeEnd.trans h.1, h.2.1, he.notMem_stub h.2.2.1,
      (he.stub h.2.2.1).trans h.2.2.2⟩
  | linkStub node prev | reloadNext node =>
    obtain ⟨hc, hs, hn⟩ := h
    subst hc
    exact ⟨he.consumeEnd, hs, hend hn⟩

theorem inHand_env (h : s.AtPc chain s.pc) (he : Env s t chain chain') :
    t.inHand = s.inHand := by
  unfold inHand
  rw [he.pc]
  split
  · next node hpc =>
    rw [hpc] at h
    rw [he.value node h.inUse]
  · rfl
  · rfl

/-- `pending` at a fixed point of the consumer. -/
theorem pending_of_pc (hpc : t.pc = s.pc) : ∃ own, s.pending = s.producers ++ own ∧
    t.pending = t.producers ++ own := by
  unfold pending
  rw [hpc]
  exact ⟨_, rfl, rfl⟩

theorem push_next_of_ne {addr : Nat} (item : V) {n : MpscNode} (hn : n ≠ .heap addr) :
    (s.push addr item).next n = s.next n :=
  Function.update_of_ne hn ..

theorem env_push {addr : Nat} (item : V) (ha : s.live addr = false) (chain : List MpscNode) :
    Env s (s.push addr item) chain (chain ++ [.heap addr]) := by
  have hne : ∀ n, s.InUse n → n ≠ .heap addr := by
    rintro n hn rfl
    exact absurd hn (by simp [InUse, ha])
  refine ⟨rfl, rfl, rfl, fun a b hu hn => ?_, fun _ => push_next_of_ne item nofun, fun a hu => ?_,
    fun a hu => Function.update_of_ne (hne a hu) .., fun n hn => ?_, .inr ?_⟩
  · exact (push_next_of_ne item (hne a hu)).trans hn
  · cases a with
    | stub => trivial
    | heap a' =>
      have : a' ≠ addr := fun he => hne _ hu (congrArg _ he)
      exact (Function.update_of_ne this ..).trans hu
  · refine (List.mem_append.1 hn).imp id fun hm => ?_
    obtain rfl := List.mem_singleton.1 hm
    simp [InUse, ha]
  · simp [push, InUse, ha]

theorem inv_push {addr : Nat} (item : V) (h : s.Inv chain) (ha : s.live addr = false) :
    (s.push addr item).Inv (chain ++ [.heap addr]) := by
  have he := env_push item ha chain
  have hmem : .heap addr ∉ chain := fun hm => absurd (h.inUse _ hm) (by simp [InUse, ha])
  have hne : ∀ n ∈ chain, n ≠ .heap addr := fun n hn he => hmem (he ▸ hn)
  obtain ⟨own, hs, ht⟩ := pending_of_pc (s := s) (t := s.push addr item) rfl
  have hperm : (s.push addr item).pending.Perm ((s.produceEnd, .heap addr) :: s.pending) := by
    rw [ht, hs]
    show (s.producers ++ [_] ++ own).Perm _
    rw [List.append_assoc]
    exact List.perm_middle
  have hlist : Published (s.push addr item).next s.pending chain :=
    h.list.congr fun n hn => push_next_of_ne item (hne n hn)
  refine ⟨?_, List.getLast?_concat .., hlist.publish h.last hmem (Function.update_self ..) hperm,
    fun n hn => ?_, ?_, h.atPc.env he (h.inUse _ h.consumeEnd_mem)⟩
  · obtain ⟨l, rfl⟩ := h.cons
    rfl
  · rcases List.mem_append.1 hn with hn | hn
    · exact he.inUse n (h.inUse n hn)
    · obtain rfl := List.mem_singleton.1 hn
      exact Function.update_self ..
  · have hold : (s.push addr item).contents chain = s.contents chain :=
      contents_congr fun n hn => he.value n (h.inUse n hn)
    have hnew : (s.push addr item).contents [.heap addr] = [(.heap addr, item)] := by
      simp [contents, push]
    rw [contents_append, hold, hnew, inHand_env h.atPc he]
    show s.exchanged ++ _ = s.popped ++ _
    rw [h.order]
    simp only [List.append_assoc]

theorem link_next_of_ne {i : Nat} {p : MpscNode × MpscNode} {n : MpscNode} (hn : n ≠ p.1) :
    (s.link i p).next n = s.next n :=
  Function.update_of_ne hn ..

theorem inv_link {i : Nat} {p : MpscNode × MpscNode} (h : s.Inv chain)
    (hp : s.producers[i]? = some p) : (s.link i p).Inv chain := by
  have hmem : p ∈ s.pending := List.mem_append_left _ (List.mem_of_getElem? hp)
  have hnone : s.next p.1 = none := h.list.next_of_pending hmem
  have hne : ∀ n b, s.next n = some b → n ≠ p.1 := by
    rintro n b hn rfl
    rw [hnone] at hn
    cases hn
  have he : Env s (s.link i p) chain chain :=
    ⟨rfl, rfl, rfl, fun a b _ hn => (link_next_of_ne (hne a b hn)).trans hn,
      fun hs => link_next_of_ne fun he => hs (he ▸ h.list.inside p hmem), fun a hu => by
        cases a <;> exact hu, fun _ _ => rfl, fun _ hn => .inl hn, .inl rfl⟩
  obtain ⟨own, hs, ht⟩ := pending_of_pc (s := s) (t := s.link i p) rfl
  have hperm : s.pending.Perm (p :: (s.link i p).pending) := by
    obtain ⟨xs, ys, hxs, hput⟩ := Threads.put_split hp
    have hlink : (s.link i p).producers = xs ++ ys := by
      refine (hput []).trans ?_
      rw [List.append_nil]
    rw [hs, ht, hxs, hlink, List.append_assoc, List.append_assoc]
    exact List.perm_middle
  refine ⟨h.head, h.last, h.list.write hperm (Function.update_self ..) fun c hc =>
    link_next_of_ne hc, fun n hn => he.inUse n (h.inUse n hn), ?_,
    h.atPc.env he (h.inUse _ h.consumeEnd_mem)⟩
  rw [inHand_env h.atPc he]
  exact h.order

/-! ## Steps of the consumer -/

/-- Here the consumer has nothing in hand and no link to write. -/
def Plain : TryPopPc V → Bool
  | .moveValue _ | .deleteNode _ _ | .linkStub _ _ => false
  | _ => true

theorem pending_of_plain (hpc : Plain s.pc = true) : s.pending = s.producers := by
  unfold pending
  cases h : s.pc
  case linkStub => rw [h] at hpc; cases hpc
  all_goals exact List.append_nil _

theorem inHand_of_plain (hpc : Plain s.pc = true) : s.inHand = [] := by
  unfold inHand
  cases h : s.pc
  case moveValue | deleteNode => rw [h] at hpc; cases hpc
  all_goals rfl

/-- A load or a test: nothing changes but the consumer's point. -/
theorem Inv.load (h : s.Inv chain) {pc pc' : TryPopPc V} (hpc : s.pc = pc)
    (hfrom : Plain pc = true) (hto : Plain pc' = true) (hat : (s.goto pc').AtPc chain pc') :
    (s.goto pc').Inv chain := by
  subst hpc
  have hlist := h.list
  have horder := h.order
  rw [pending_of_plain hfrom] at hlist
  rw [inHand_of_plain hfrom] at horder
  refine ⟨h.head, h.last, ?_, fun n hn => (h.inUse n hn).of_live rfl, ?_, hat⟩
  · rw [pending_of_plain (s := s.goto pc') hto]
    exact hlist
  · rw [inHand_of_plain (s := s.goto pc') hto]
    exact horder

/-- The first node, passed over along its link. -/
theorem Inv.pass (h : s.Inv chain) {next : MpscNode} (hn : s.next s.consumeEnd = some next) :
    ∃ l, chain = s.consumeEnd :: next :: l ∧ Published s.next s.pending (next :: l) ∧
      s.consumeEnd ∉ next :: l ∧ (next :: l).getLast? = some s.produceEnd := by
  obtain ⟨l, rfl⟩ := h.cons
  obtain ⟨l', rfl, hl⟩ := h.list.drop_head hn
  refine ⟨l', rfl, hl, (List.nodup_cons.1 h.list.linked.nodup).1, ?_⟩
  rw [← List.getLast?_cons_cons (a := s.consumeEnd)]
  exact h.last

theorem Inv.alone (h : s.Inv chain) (he : s.consumeEnd = s.produceEnd) :
    chain = [s.consumeEnd] := by
  obtain ⟨l, rfl⟩ := h.cons
  have hlast := h.last
  rw [← he] at hlast
  cases l with
  | nil => rfl
  | cons a l =>
    rw [List.getLast?_cons_cons] at hlast
    exact absurd (List.mem_of_getLast? hlast) (List.nodup_cons.1 h.list.linked.nodup).1

theorem Inv.not_alone (h : s.Inv chain) (hne : s.consumeEnd ≠ s.produceEnd) :
    chain ≠ [s.consumeEnd] := by
  rintro hchain
  have hlast := h.last
  rw [hchain] at hlast
  exact hne (Option.some.inj hlast)

/-- The list goes on behind a node without a link: a producer is between its two steps. -/
theorem Inv.blocked (h : s.Inv chain) (hpc : Plain s.pc = true)
    (hn : s.next s.consumeEnd = none) (hl : chain ≠ [s.consumeEnd]) : s.producers ≠ [] := by
  obtain ⟨l, rfl⟩ := h.cons
  rcases h.list.linked.stuck hn with rfl | ⟨b, hb⟩
  · exact absurd rfl hl
  · rw [pending_of_plain hpc] at hb
    exact List.ne_nil_of_mem hb

theorem inv_skipStub (h : s.Inv chain) {next : MpscNode} (hpc : s.pc = .skipStub next) :
    ∃ chain', ({ s with consumeEnd := next, pc := .loadNextAgain next } : MpscQueue V).Inv chain' := by
  obtain ⟨hc, hn⟩ := h.at_pc hpc
  obtain ⟨l, rfl, hl, hnot, hlast⟩ := h.pass (hc ▸ hn)
  rw [hc] at hnot
  simp only [pending, hpc] at hl
  refine ⟨next :: l, rfl, hlast, hl, fun n hm => (h.inUse n (.tail _ hm)).of_live rfl, ?_, rfl,
    fun he => hnot (he ▸ .head _)⟩
  rw [h.order, hc]
  simp [inHand, contents, hpc]

theorem inv_advance (h : s.Inv chain) {node next : MpscNode} (hpc : s.pc = .advance node next) :
    ∃ chain', ({ s with consumeEnd := next, pc := .moveValue node } : MpscQueue V).Inv chain' := by
  obtain ⟨rfl, hstub, hn⟩ := h.at_pc hpc
  obtain ⟨l, rfl, hl, hnot, hlast⟩ := h.pass hn
  have huse := h.inUse _ h.consumeEnd_mem
  simp only [pending, hpc] at hl
  refine ⟨next :: l, rfl, hlast, hl, fun n hm => (h.inUse n (.tail _ hm)).of_live rfl, ?_, hstub,
    huse.of_live rfl, hnot, next, hn⟩
  rw [h.order]
  simp [inHand, contents, hpc, hstub]

theorem inv_moveValue (h : s.Inv chain) {node : MpscNode} (hpc : s.pc = .moveValue node) :
    (s.goto (.deleteNode node (s.value node))).Inv chain := by
  obtain ⟨hstub, huse, hnot, hlink⟩ := h.at_pc hpc
  have hlist := h.list
  have horder := h.order
  simp only [pending, inHand, hpc] at hlist horder
  exact ⟨h.head, h.last, hlist, fun n hn => (h.inUse n hn).of_live rfl, horder, hstub,
    huse.of_live rfl, hnot, hlink⟩

theorem inv_deleteNode (h : s.Inv chain) {node : MpscNode} {out : V}
    (hpc : s.pc = .deleteNode node out) :
    ({ s.delete node with popped := s.popped ++ [(node, out)], pc := .idle } : MpscQueue V).Inv
      chain := by
  obtain ⟨hstub, -, hnot, -⟩ := h.at_pc hpc
  have hlist := h.list
  simp only [pending, hpc] at hlist
  cases node with
  | stub => exact absurd rfl hstub
  | heap addr =>
    refine ⟨h.head, h.last, hlist, fun n hm => ?_, ?_, trivial⟩
    · cases n with
      | stub => trivial
      | heap a =>
        have hne : a ≠ addr := fun he => hnot (he ▸ hm)
        exact (Function.update_of_ne hne ..).trans (h.inUse _ hm)
    · show s.exchanged = _
      rw [h.order]
      simp [inHand, hpc]
      rfl

/-- Outside the list the stub's link is free to be cleared. -/
theorem inv_clearStub (h : s.Inv chain) {node : MpscNode} (hpc : s.pc = .clearStub node) :
    ((s.storeNext .stub none).goto (.exchangeStub node)).Inv chain := by
  obtain ⟨hc, hstub, hnot⟩ := h.at_pc hpc
  have hlist := h.list
  simp only [pending, hpc] at hlist
  have hself : Function.update s.next .stub none .stub = none := Function.update_self ..
  have hother : ∀ n ∈ chain, Function.update s.next .stub none n = s.next n := by
    intro n hn
    refine Function.update_of_ne ?_ ..
    rintro rfl
    exact hnot hn
  refine ⟨h.head, h.last, hlist.congr hother, fun n hm => (h.inUse n hm).of_live rfl, ?_, hc,
    hstub, hnot, hself⟩
  show s.exchanged = _
  rw [h.order]
  simp only [inHand, hpc]
  rfl

theorem inv_exchangeStub (h : s.Inv chain) {node : MpscNode} (hpc : s.pc = .exchangeStub node) :
    ({ s with produceEnd := .stub, pc := .linkStub node s.produceEnd } : MpscQueue V).Inv
      (chain ++ [.stub]) := by
  obtain ⟨hc, hstub, hnot, hnext⟩ := h.at_pc hpc
  have hlist := h.list
  simp only [pending, hpc] at hlist
  refine ⟨?_, List.getLast?_concat .., hlist.publish h.last hnot hnext ?_,
    fun n hm => ?_, ?_, hc, hstub, hstub⟩
  · obtain ⟨l, rfl⟩ := h.cons
    rfl
  · rw [List.append_nil]
    exact List.perm_append_comm
  · cases n with
    | stub => trivial
    | heap addr => exact h.inUse (.heap addr) (by simpa using hm)
  · rw [contents_append]
    show s.exchanged = _
    rw [h.order]
    simp [inHand, hpc, contents]

theorem inv_linkStub (h : s.Inv chain) {node prev : MpscNode} (hpc : s.pc = .linkStub node prev) :
    ((s.storeNext prev (some .stub)).goto (.reloadNext node)).Inv chain := by
  have hperm : s.pending.Perm ((prev, .stub) :: s.producers) := by
    unfold pending
    rw [hpc]
    exact List.perm_append_comm
  have hlist : Published (Function.update s.next prev (some .stub)) (s.producers ++ []) chain := by
    rw [List.append_nil]
    exact h.list.write hperm (Function.update_self ..) fun c hne => Function.update_of_ne hne ..
  refine ⟨h.head, h.last, hlist, fun n hm => (h.inUse n hm).of_live rfl, ?_, h.at_pc hpc⟩
  show s.exchanged = _
  rw [h.order]
  simp only [inHand, hpc]
  rfl

theorem inv_tryPop (h : s.Inv chain) : ∃ chain', s.tryPop.1.Inv chain' := by
  unfold tryPop
  cases hpc : s.pc with
  | idle => exact ⟨chain, h.load hpc rfl rfl rfl⟩
  | loadNext node =>
    have hat := h.at_pc hpc
    dsimp only
    split
    · split
      · exact ⟨chain, h.load hpc rfl rfl trivial⟩
      · next hs => exact ⟨chain, h.load hpc rfl rfl ⟨hat, hs⟩⟩
    · next next hn =>
      split
      · next hs =>
        subst hs
        exact ⟨chain, h.load hpc rfl rfl ⟨hat, hn⟩⟩
      · next hs => exact ⟨chain, h.load hpc rfl rfl ⟨hat, hs, hn⟩⟩
  | skipStub next => exact inv_skipStub h hpc
  | loadNextAgain node =>
    have hat := h.at_pc hpc
    dsimp only
    split
    · exact ⟨chain, h.load hpc rfl rfl hat⟩
    · next next hn => exact ⟨chain, h.load hpc rfl rfl ⟨hat.1, hat.2, hn⟩⟩
  | advance node next => exact inv_advance h hpc
  | moveValue node => exact ⟨chain, inv_moveValue h hpc⟩
  | deleteNode node out => exact ⟨chain, inv_deleteNode h hpc⟩
  | loadProduceEnd node =>
    have hat := h.at_pc hpc
    dsimp only
    split
    · exact ⟨chain, h.load hpc rfl rfl trivial⟩
    · next hend =>
      -- the first node is the last one, so the stub is not in the list
      have halone := h.alone (hat.1.trans (not_not.1 hend))
      refine ⟨chain, h.load hpc rfl rfl ⟨hat.1, hat.2, fun hm => ?_⟩⟩
      rw [halone] at hm
      exact hat.2 (hat.1.symm.trans (List.mem_singleton.1 hm).symm)
  | clearStub node => exact ⟨chain, inv_clearStub h hpc⟩
  | exchangeStub node => exact ⟨_, inv_exchangeStub h hpc⟩
  | linkStub node prev => exact ⟨chain, inv_linkStub h hpc⟩
  | reloadNext node =>
    have hat := h.at_pc hpc
    dsimp only
    split
    · exact ⟨chain, h.load hpc rfl rfl trivial⟩
    · next next hn => exact ⟨chain, h.load hpc rfl rfl ⟨hat.1, hat.2.1, hn⟩⟩

/-! ## Runs -/

/-- The list, what was ever pushed, and what the flag of `watch` says where
`TryPop` is about to compare `produce_end_`. -/
structure Good (x : MpscQueue V × Bool) : Prop where
  list : ∃ chain, x.1.Inv chain
  pushed : ∀ r ∈ x.1.exchanged, r.1 ≠ .stub
  seen : ∀ node, x.1.pc = .loadProduceEnd node → node = x.1.produceEnd ∨ x.2 = true

theorem inv_step {i : MpscInput V} (h : s.Inv chain) (hs : s.step i = some t) :
    ∃ chain', t.Inv chain' := by
  cases i with
  | exchange addr item =>
    simp only [step] at hs
    split at hs
    · cases hs
    · next ha =>
      cases hs
      exact ⟨_, inv_push item h (by simpa using ha)⟩
  | link i =>
    obtain ⟨p, hp, rfl⟩ := Option.map_eq_some_iff.1 hs
    exact ⟨_, inv_link h hp⟩
  | consume =>
    cases hs
    exact inv_tryPop h

theorem tryPop_exchanged (s : MpscQueue V) : s.tryPop.1.exchanged = s.exchanged := by
  fun_cases tryPop s <;> rfl

/-- `TryPop` compares `produce_end_` after it has found no link. -/
theorem tryPop_loadProduceEnd {node : MpscNode} (h : s.tryPop.1.pc = .loadProduceEnd node) :
    s.tryPop.1 = s.goto (.loadProduceEnd node) ∧ s.next node = none ∧
      (s.pc = .loadNext node ∨ s.pc = .loadNextAgain node) := by
  revert h
  fun_cases tryPop s <;> intro h <;> simp_all [goto]

/-- Where `TryPop` returns false. -/
theorem tryPop_false (h : s.tryPop.2 = some false) :
    s.tryPop.1 = s.goto .idle ∧
      ((s.pc = .loadNext .stub ∧ s.next .stub = none) ∨
        (∃ node, s.pc = .loadProduceEnd node ∧ node ≠ s.produceEnd) ∨
        ∃ node, s.pc = .reloadNext node ∧ s.next node = none) := by
  revert h
  fun_cases tryPop s <;> intro h <;> simp_all

theorem tryPop_frees {addr : Nat} (hl : s.live addr = true) (hf : s.tryPop.1.live addr = false) :
    ∃ out, s.pc = .deleteNode (.heap addr) out := by
  have hkeep : s.live addr ≠ false := by simp [hl]
  revert hf
  fun_cases tryPop s <;> intro hf <;> try exact absurd hf hkeep
  next node out hpc =>
    cases node with
    | stub => exact absurd hf hkeep
    | heap a =>
      by_cases ha : addr = a
      · subst ha
        exact ⟨out, hpc⟩
      · exact absurd ((Function.update_of_ne ha ..).symm.trans hf) hkeep

theorem good_init (item : V) : Good (init item, false) :=
  ⟨⟨_, inv_init item⟩, nofun, nofun⟩

theorem good_watch {x x' : MpscQueue V × Bool} {i : MpscInput V} (h : Good x)
    (hs : watch x i = some x') : Good x' := by
  obtain ⟨s, seen⟩ := x
  obtain ⟨t, ht, rfl⟩ := Option.map_eq_some_iff.1 hs
  obtain ⟨chain, hinv⟩ := h.list
  have hlist := inv_step hinv ht
  cases i with
  | exchange addr item =>
    simp only [step] at ht
    split at ht
    · cases ht
    · cases ht
      refine ⟨hlist, fun r hr => ?_, fun _ _ => .inr ?_⟩
      · rcases List.mem_append.1 hr with hr | hr
        · exact h.pushed r hr
        · rw [List.mem_singleton.1 hr]
          nofun
      · simp [push]
  | link i =>
    obtain ⟨p, hp, rfl⟩ := Option.map_eq_some_iff.1 ht
    refine ⟨hlist, h.pushed, fun node hpc => (h.seen node hpc).imp id fun hseen => ?_⟩
    simp_all [loads]
  | consume =>
    cases ht
    refine ⟨hlist, ?_, fun node hpc => ?_⟩
    · rw [tryPop_exchanged]
      exact h.pushed
    · obtain ⟨hgoto, hn, hfrom⟩ := tryPop_loadProduceEnd hpc
      have hat := hinv.atPc
      have hplain : Plain s.pc = true := by rcases hfrom with hf | hf <;> rw [hf] <;> rfl
      have hc : s.consumeEnd = node := by
        rcases hfrom with hf | hf <;> rw [hf] at hat
        · exact hat
        · exact hat.1
      rw [hgoto]
      refine or_iff_not_imp_left.2 fun hne => ?_
      have hbusy := hinv.blocked hplain (hc ▸ hn) (hinv.not_alone (hc ▸ hne))
      simpa [goto] using .inl hbusy

theorem good_reachable {item : V} {x : MpscQueue V × Bool}
    (hr : Trace.Reachable watch (init item, false) x) : Good x :=
  Trace.Reachable.invariant hr (fun _ _ _ h hs => good_watch h hs) (good_init item)

theorem Inv.path (h : s.Inv chain) {nodes : List MpscNode} (hp : s.Path nodes) :
    nodes <+: chain := by
  obtain ⟨l, rfl⟩ := h.cons
  obtain ⟨p, rfl⟩ := List.head?_eq_some_iff.1 hp.1
  exact h.list.linked.path_prefix hp.2

/-- A step that frees a node. -/
theorem Inv.frees {i : MpscInput V} (h : s.Inv chain) (hs : s.step i = some t) {addr : Nat}
    (hl : s.live addr = true) (hf : t.live addr = false) : s.Passed chain (.heap addr) := by
  cases i with
  | exchange a item =>
    simp only [step] at hs
    split at hs
    · cases hs
    · cases hs
      have : (s.push a item).live addr = true := (env_push item (by simp_all) chain).inUse (.heap addr) hl
      rw [this] at hf
      cases hf
  | link i =>
    obtain ⟨p, -, rfl⟩ := Option.map_eq_some_iff.1 hs
    exact absurd (hl.symm.trans hf) nofun
  | consume =>
    cases hs
    obtain ⟨out, hpc⟩ := tryPop_frees hl hf
    exact h.at_pc hpc

/-- A failed `TryPop` with something in the queue has met a producer. -/
theorem Good.fails {seen : Bool} {i : MpscInput V} {x' : MpscQueue V × Bool}
    (h : Good (s, seen)) (hs : watch (s, seen) i = some x') (hf : s.Fails i)
    (hq : x'.1.popped.length < x'.1.exchanged.length) : x'.2 = true := by
  obtain ⟨t, ht, rfl⟩ := Option.map_eq_some_iff.1 hs
  obtain ⟨chain, hinv⟩ := h.list
  cases i with
  | exchange | link => exact absurd hf id
  | consume =>
    cases ht
    obtain ⟨hgoto, ⟨hpc, hn⟩ | ⟨node, hpc, hne⟩ | ⟨node, hpc, hn⟩⟩ := tryPop_false hf
    · have hplain : Plain s.pc = true := by rw [hpc]; rfl
      have hc : s.consumeEnd = .stub := hinv.at_pc hpc
      have hbusy := hinv.blocked hplain (hc ▸ hn) fun hchain => ?_
      · simp only [hgoto]
        simpa [goto] using .inl hbusy
      · -- with only the stub in the list everything pushed has been returned
        have horder := hinv.order
        rw [inHand_of_plain hplain, hchain, hc] at horder
        have hempty : s.exchanged = s.popped := by simpa [contents] using horder
        rw [hgoto] at hq
        simp only [goto, hempty, Nat.lt_irrefl] at hq
    · have := (h.seen node hpc).resolve_left hne
      simp_all [loads]
    · have hat := hinv.at_pc hpc
      have hplain : Plain s.pc = true := by rw [hpc]; rfl
      have hbusy := hinv.blocked hplain (hat.1 ▸ hn) (hinv.not_alone (hat.1 ▸ hat.2.2))
      simp only [hgoto]
      simpa [goto] using .inl hbusy

/-- **First in, first out.** In every interleaving the values returned are the
first of the values pushed, in the order of the exchanges; the stub is linked
in the list at most once and never returned; a node is freed only after its
link has been written and the consumer has passed it; and when `TryPop` returns
false with a value in the queue, then at some moment since its last load of a
`next` a producer was between its two steps. -/
theorem mpsc_fifo {item : V} {s : MpscQueue V} {seen : Bool}
    (hr : Trace.Reachable watch (init item, false) (s, seen)) :
    s.popped.map Prod.snd <+: s.exchanged.map Prod.snd ∧
    (∀ nodes, s.Path nodes → nodes.count .stub ≤ 1) ∧
    (∀ r ∈ s.popped, r.1 ≠ .stub) ∧
    (∀ i t, s.step i = some t → ∀ addr, s.live addr = true → t.live addr = false →
      (∃ next, s.next (.heap addr) = some next) ∧ ∀ nodes, s.Path nodes → .heap addr ∉ nodes) ∧
    (∀ i x', watch (s, seen) i = some x' → s.Fails i →
      x'.1.popped.length < x'.1.exchanged.length → x'.2 = true) := by
  have h := good_reachable hr
  obtain ⟨chain, hinv⟩ := h.list
  have hfirst : s.popped <+: s.exchanged := ⟨_, hinv.order.symm⟩
  refine ⟨hfirst.map _, fun nodes hp => ?_, fun r hr => h.pushed r (hfirst.mem hr),
    fun i t hs addr hl hf => ?_, fun i x' hs hf hq => h.fails hs hf hq⟩
  · exact List.nodup_iff_count_le_one.1
      (hinv.list.linked.nodup.sublist (hinv.path hp).sublist) _
  · have hpassed := hinv.frees hs hl hf
    exact ⟨hpassed.linked, fun nodes hp hm => hpassed.notMem ((hinv.path hp).mem hm)⟩

/-- Two values are pushed and the first is returned. -/
def popOneRun : List (MpscInput Nat) :=
  [.exchange 0 7, .link 0, .exchange 1 8, .link 0, .consume, .consume, .consume, .consume,
    .consume, .consume, .consume]

theorem mpsc_fifo_one :
    ∃ s seen, Trace.run watch (init 0, false) popOneRun = some (s, seen) ∧
      s.popped = [(.heap 0, 7)] ∧ s.popped.map Prod.snd <+: s.exchanged.map Prod.snd :=
  ⟨_, _, rfl, rfl, (mpsc_fifo (.of_run popOneRun rfl)).1⟩

/-- The consumer finds no link at the only node; a second push takes both its
steps before the consumer compares `produce_end_`. -/
def lateTailRun : List (MpscInput Nat) :=
  [.exchange 0 7, .link 0, .consume, .consume, .consume, .consume, .exchange 1 8, .link 0]

/-- `TryPop` returns false with two values in the queue and no producer between
its two steps. -/
theorem tryPop_fails_without_producer :
    ∃ s, Trace.run step (init 0) lateTailRun = some s ∧ s.tryPop.2 = some false ∧
      s.tryPop.1.popped = [] ∧ s.tryPop.1.exchanged = [(.heap 0, 7), (.heap 1, 8)] ∧
      s.producers = [] ∧ s.tryPop.1.producers = [] :=
  ⟨_, rfl, rfl, rfl, rfl, rfl, rfl⟩

end MpscQueue

end IouringRuntime
