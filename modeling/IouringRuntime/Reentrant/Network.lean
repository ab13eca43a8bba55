import Mathlib.Data.List.Chain
import IouringRuntime.Reentrant.Machine

/-!
# Machines that call each other

A network links re-entrant machines, its parts, into one machine: what a part
calls back is code of the network, which calls another part and returns to the
first when that call has run. The parts share one control stack. An external
event reaches one part, and only between events does the surrounding program
call a part or change what belongs to no part.

The frames of one part are a stack of that part's own machine (`Network.part`).
As long as the frames are `Nested`, every step of the network is a step of one
part and leaves the others as they were (`step_part`), so what the machine of a
part keeps holds in the network.
-/

namespace Reentrant

/-- A machine with its types. -/
structure Component where
  State : Type
  Code : Type
  Callback : Type
  Call : Type
  Event : Type
  Choice : Type
  machine : Machine State Code Callback Call Event Choice

namespace Component

abbrev PFrame (C : Component) := Frame C.Code C.Callback

abbrev PConf (C : Component) := Conf C.State C.Code C.Callback

abbrev PInput (C : Component) := Input C.Call C.Event C.Choice

end Component

variable {I : Type}

/-- Code of a part, a callback of a part that has been entered, and one that
waits for the call it has made. -/
inductive LinkInstr (P : I → Component) where
  | code (i : I) (x : (P i).Code)
  | enter (i : I) (k : (P i).Callback)
  | leave (i : I) (k : (P i).Callback)

/-- What a callback does: call a part, or return. -/
inductive Wire (P : I → Component) where
  | call (i : I) (a : (P i).Call)
  | done (b : Bool)

/-- What happens between events: the program calls a part, a part's event
occurs, or something that concerns no part. -/
inductive NetEvent (P : I → Component) (ε : Type) where
  | call (i : I) (a : (P i).Call)
  | event (i : I) (e : (P i).Event)
  | other (x : ε)

/-- State `τ`, events that concern no part `ε`; `ω` is what the environment
decides for one segment. -/
structure Network (P : I → Component) (τ ε ω : Type) where
  get : τ → ∀ i, (P i).State
  set : τ → ∀ i, (P i).State → τ
  get_set : ∀ s i x, get (set s i x) i = x
  get_set_ne : ∀ s {i} x {j}, j ≠ i → get (set s i x) j = get s j
  /-- What the environment decides, as a part sees it. -/
  choice : ω → τ → ∀ i, (P i).Choice
  wire : ω → τ → ∀ i, (P i).Callback → Wire P
  /-- What a callback returns once the call it made has run. -/
  answer : τ → ∀ i, (P i).Callback → Bool
  /-- The calls the program makes between events. -/
  admits : τ → ∀ i, (P i).Call → Bool
  other : τ → ε → Option τ
  get_other : ∀ {s x s'}, other s x = some s' → ∀ i, get s' i = get s i

namespace Network

variable {P : I → Component} {τ ε ω : Type}

abbrev NFrame (P : I → Component) := Frame (LinkInstr P) Empty

/-- A frame of a part, on the network's stack. -/
def lift (i : I) : (P i).PFrame → NFrame P
  | .code x => .code (.code i x)
  | .callback k => .code (.enter i k)

def exec (N : Network P τ ε ω) (o : ω) (s : τ) : LinkInstr P → τ × List (NFrame P)
  | .code i x =>
    let r := (P i).machine.exec (N.choice o s i) (N.get s i) x
    (N.set s i r.1, r.2.map (lift i))
  | .enter i k =>
    match N.wire o s i k with
    | .call j a =>
      let r := (P j).machine.call (N.choice o s j) (N.get s j) a
      (N.set s j r.1, r.2.map (lift j) ++ [.code (.leave i k)])
    | .done b => (N.set s i ((P i).machine.ret (N.get s i) k b), [])
  | .leave i k => (N.set s i ((P i).machine.ret (N.get s i) k (N.answer s i k)), [])

def event (N : Network P τ ε ω) (o : ω) (s : τ) : NetEvent P ε → Option (τ × List (NFrame P))
  | .call i a =>
    if N.admits s i a then
      let r := (P i).machine.call (N.choice o s i) (N.get s i) a
      some (N.set s i r.1, r.2.map (lift i))
    else none
  | .event i e =>
    ((P i).machine.event (N.choice o s i) (N.get s i) e).map fun r =>
      (N.set s i r.1, r.2.map (lift i))
  | .other x => (N.other s x).map (·, [])

/-- User code is the parts themselves, so nobody else calls the network. -/
def machine (N : Network P τ ε ω) : Machine τ (LinkInstr P) Empty Empty (NetEvent P ε) ω where
  exec := N.exec
  call _ _ a := a.elim
  event := N.event
  ret _ k _ := k.elim

abbrev NConf (_ : Network P τ ε ω) := Conf τ (LinkInstr P) Empty

abbrev NInput (_ : Network P τ ε ω) := Input Empty (NetEvent P ε) ω

/-! ## What a step can be -/

inductive Step (N : Network P τ ε ω) : N.NConf → N.NInput → N.NConf → Prop where
  | code (o : ω) (s : τ) (i : I) (x : (P i).Code) (rest : List (NFrame P))
      (r : (P i).State × List (P i).PFrame)
      (hr : r = (P i).machine.exec (N.choice o s i) (N.get s i) x) :
      Step N ⟨s, .code (.code i x) :: rest⟩ (.exec o) ⟨N.set s i r.1, r.2.map (lift i) ++ rest⟩
  | call (o : ω) (s : τ) (i : I) (k : (P i).Callback) (rest : List (NFrame P)) (j : I)
      (a : (P j).Call) (hw : N.wire o s i k = .call j a) (r : (P j).State × List (P j).PFrame)
      (hr : r = (P j).machine.call (N.choice o s j) (N.get s j) a) :
      Step N ⟨s, .code (.enter i k) :: rest⟩ (.exec o)
        ⟨N.set s j r.1, r.2.map (lift j) ++ .code (.leave i k) :: rest⟩
  | done (o : ω) (s : τ) (i : I) (k : (P i).Callback) (rest : List (NFrame P)) (b : Bool)
      (hw : N.wire o s i k = .done b) :
      Step N ⟨s, .code (.enter i k) :: rest⟩ (.exec o)
        ⟨N.set s i ((P i).machine.ret (N.get s i) k b), rest⟩
  | leave (o : ω) (s : τ) (i : I) (k : (P i).Callback) (rest : List (NFrame P)) :
      Step N ⟨s, .code (.leave i k) :: rest⟩ (.exec o)
        ⟨N.set s i ((P i).machine.ret (N.get s i) k (N.answer s i k)), rest⟩
  | enter (o : ω) (s : τ) (i : I) (a : (P i).Call) (ha : N.admits s i a = true)
      (r : (P i).State × List (P i).PFrame)
      (hr : r = (P i).machine.call (N.choice o s i) (N.get s i) a) :
      Step N ⟨s, []⟩ (.event o (.call i a)) ⟨N.set s i r.1, r.2.map (lift i)⟩
  | event (o : ω) (s : τ) (i : I) (e : (P i).Event) (r : (P i).State × List (P i).PFrame)
      (hr : (P i).machine.event (N.choice o s i) (N.get s i) e = some r) :
      Step N ⟨s, []⟩ (.event o (.event i e)) ⟨N.set s i r.1, r.2.map (lift i)⟩
  | other (o : ω) (s : τ) (x : ε) (s' : τ) (hs : N.other s x = some s') :
      Step N ⟨s, []⟩ (.event o (.other x)) ⟨s', []⟩

theorem step_cases {N : Network P τ ε ω} {c c' : N.NConf} {i : N.NInput}
    (hs : N.machine.step c i = some c') : N.Step c i c' := by
  rcases Machine.step_cases hs with ⟨o, x, rest, rfl, hst, rfl⟩ | ⟨_, a, _⟩ | ⟨_, k, _⟩ |
    ⟨o, e, r, rfl, hst, he, rfl⟩
  · obtain ⟨s, st⟩ := c
    subst hst
    cases x with
    | code i x => exact .code o s i x rest _ rfl
    | enter i k =>
      cases hw : N.wire o s i k with
      | call j a =>
        have := Step.call o s i k rest j a hw _ rfl
        simpa [machine, exec, hw] using this
      | done b =>
        have := Step.done o s i k rest b hw
        simpa [machine, exec, hw] using this
    | leave i k => exact .leave o s i k rest
  · exact a.elim
  · exact k.elim
  · obtain ⟨s, st⟩ := c
    subst hst
    cases e with
    | call i a =>
      simp only [machine, event] at he
      split at he
      · next ha =>
        cases he
        exact .enter o s i a ha _ rfl
      · cases he
    | event i e =>
      obtain ⟨r, hr, rfl⟩ := Option.map_eq_some_iff.1 he
      exact .event o s i e r hr
    | other x =>
      obtain ⟨s', hs', rfl⟩ := Option.map_eq_some_iff.1 he
      exact .other o s x s' hs'

/-! ## The stack of a part -/

def owner : NFrame P → I
  | .code (.code i _) | .code (.enter i _) | .code (.leave i _) => i
  | .callback e => e.elim

def isLeave : NFrame P → Bool
  | .code (.leave _ _) => true
  | _ => false

/-- Above the code of a part stand only frames of that part. -/
def Above (f g : NFrame P) : Prop := owner f = owner g ∨ isLeave g = true

abbrev Nested (st : List (NFrame P)) : Prop := st.IsChain Above

@[simp] theorem owner_lift (i : I) (f : (P i).PFrame) : owner (lift i f) = i := by
  cases f <;> rfl

/-- The frames of one part on top of a stack that had a frame of that part on top. -/
theorem Nested.push {i : I} {rest : List (NFrame P)} (fs : List (P i).PFrame)
    (h : ∀ g ∈ rest.head?, i = owner g ∨ isLeave g = true) (hr : Nested rest) :
    Nested (fs.map (lift i) ++ rest) := by
  induction fs with
  | nil => exact hr
  | cons f fs ih =>
    refine List.isChain_cons.2 ⟨fun g hg => ?_, ih⟩
    cases fs with
    | nil =>
      rw [Above, owner_lift]
      exact h g hg
    | cons f' fs =>
      cases hg
      exact .inl (by simp)

theorem Nested.head {f : NFrame P} {st : List (NFrame P)} (h : Nested (f :: st)) :
    ∀ g ∈ st.head?, owner f = owner g ∨ isLeave g = true :=
  (List.isChain_cons.1 h).1

theorem Nested.tail {f : NFrame P} {st : List (NFrame P)} (h : Nested (f :: st)) : Nested st :=
  (List.isChain_cons.1 h).2

theorem nested_step {N : Network P τ ε ω} {c c' : N.NConf} {i : N.NInput}
    (hs : N.Step c i c') (h : Nested c.stack) : Nested c'.stack := by
  cases hs with
  | code o s i x rest r hr => exact Nested.push r.2 h.head h.tail
  | call o s i k rest j a hw r hr =>
    refine Nested.push r.2 (fun g hg => ?_) ?_
    · cases hg
      exact .inr rfl
    · exact List.isChain_cons.2 ⟨h.head, h.tail⟩
  | done o s i k rest b hw => exact h.tail
  | leave o s i k rest => exact h.tail
  | enter o s i a ha r hr | event o s i e r hr =>
    have := @Nested.push _ _ i [] r.2 (fun g hg => by cases hg) .nil
    rwa [List.append_nil] at this
  | other o s x s' hs => exact .nil

variable [DecidableEq I]

/-- A frame of the network as a frame of the part, if it is one. -/
def frameAt (i : I) : NFrame P → Option (P i).PFrame
  | .code (.code j x) => if h : j = i then some (.code (h ▸ x)) else none
  | .code (.enter j k) | .code (.leave j k) =>
    if h : j = i then some (.callback (h ▸ k)) else none
  | .callback e => e.elim

def frames (i : I) (st : List (NFrame P)) : List (P i).PFrame := st.filterMap (frameAt i)

def part (N : Network P τ ε ω) (c : N.NConf) (i : I) : (P i).PConf :=
  ⟨N.get c.state i, frames i c.stack⟩

@[simp] theorem frames_nil (i : I) : frames i ([] : List (NFrame P)) = [] := rfl

@[simp] theorem frames_append (i : I) (xs ys : List (NFrame P)) :
    frames i (xs ++ ys) = frames i xs ++ frames i ys :=
  List.filterMap_append

@[simp] theorem frames_code (i : I) (x : (P i).Code) (st : List (NFrame P)) :
    frames i (.code (.code i x) :: st) = .code x :: frames i st := by
  simp [frames, frameAt]

@[simp] theorem frames_enter (i : I) (k : (P i).Callback) (st : List (NFrame P)) :
    frames i (.code (.enter i k) :: st) = .callback k :: frames i st := by
  simp [frames, frameAt]

@[simp] theorem frames_leave (i : I) (k : (P i).Callback) (st : List (NFrame P)) :
    frames i (.code (.leave i k) :: st) = .callback k :: frames i st := by
  simp [frames, frameAt]

theorem frames_cons_ne {i : I} {f : NFrame P} (hf : owner f ≠ i) (st : List (NFrame P)) :
    frames i (f :: st) = frames i st := by
  have hn : frameAt i f = none := by
    match f, hf with
    | .code (.code j x), hf | .code (.enter j k), hf | .code (.leave j k), hf =>
      have hf : ¬ j = i := hf
      simp only [frameAt, hf, dite_false]
    | .callback e, _ => exact e.elim
  rw [frames, List.filterMap_cons_none hn]
  rfl

theorem frames_code_ne {i j : I} (h : j ≠ i) (x : (P j).Code) (st : List (NFrame P)) :
    frames i (.code (.code j x) :: st) = frames i st :=
  frames_cons_ne (f := .code (.code j x)) h st

theorem frames_enter_ne {i j : I} (h : j ≠ i) (k : (P j).Callback) (st : List (NFrame P)) :
    frames i (.code (.enter j k) :: st) = frames i st :=
  frames_cons_ne (f := .code (.enter j k)) h st

theorem frames_leave_ne {i j : I} (h : j ≠ i) (k : (P j).Callback) (st : List (NFrame P)) :
    frames i (.code (.leave j k) :: st) = frames i st :=
  frames_cons_ne (f := .code (.leave j k)) h st

@[simp] theorem frames_lift (i : I) (fs : List (P i).PFrame) : frames i (fs.map (lift i)) = fs := by
  induction fs with
  | nil => rfl
  | cons f fs ih => cases f <;> simp [lift, ih]

theorem frames_lift_ne {i j : I} (h : j ≠ i) (fs : List (P j).PFrame) :
    frames i (fs.map (lift j)) = [] := by
  induction fs with
  | nil => rfl
  | cons f fs ih => rw [List.map_cons, frames_cons_ne (by rwa [owner_lift]), ih]

/-- Below a frame of another part the topmost frame of a part is a callback. -/
theorem userRuns_frames {i : I} {st : List (NFrame P)} :
    ∀ {f : NFrame P}, Nested (f :: st) → owner f ≠ i → UserRuns (frames i st) = true := by
  induction st with
  | nil => intro f _ _; rfl
  | cons g st ih =>
    intro f h hf
    by_cases hg : owner g = i
    · have hl : isLeave g = true := (h.head g rfl).resolve_left fun he => hf (he.trans hg)
      match g, hg, hl with
      | .code (.leave j k), hg, _ =>
        have hg : j = i := hg
        subst hg
        rw [frames_leave]
        rfl
    · rw [frames_cons_ne hg]
      exact ih h.tail hg

/-! ## Steps of the parts -/

/-- The part that takes the step, and with which input of its own. -/
def acts (N : Network P τ ε ω) (c : N.NConf) : N.NInput → Option ((i : I) × (P i).PInput)
  | .exec o =>
    match c.stack with
    | .code (.code i _) :: _ => some ⟨i, .exec (N.choice o c.state i)⟩
    | .code (.enter i k) :: _ =>
      match N.wire o c.state i k with
      | .call j a => some ⟨j, .call (N.choice o c.state j) a⟩
      | .done b => some ⟨i, .ret b⟩
    | .code (.leave i k) :: _ => some ⟨i, .ret (N.answer c.state i k)⟩
    | _ => none
  | .event o (.call i a) => some ⟨i, .call (N.choice o c.state i) a⟩
  | .event o (.event i e) => some ⟨i, .event (N.choice o c.state i) e⟩
  | _ => none

/-- The step is one of part `i`, with input `x`. -/
structure Moves (N : Network P τ ε ω) (c c' : N.NConf) (i : I) (x : (P i).PInput) : Prop where
  step : (P i).machine.step (N.part c i) x = some (N.part c' i)
  same : ∀ j, j ≠ i → N.part c' j = N.part c j

theorem part_ne {N : Network P τ ε ω} {s : τ} {i j : I} {x : (P i).State} {st st' : List (NFrame P)}
    (h : j ≠ i) (hst : frames j st' = frames j st) : N.part ⟨N.set s i x, st'⟩ j = N.part ⟨s, st⟩ j := by
  simp only [part, N.get_set_ne s x h, hst]

theorem step_part {N : Network P τ ε ω} {c c' : N.NConf} {i : N.NInput} (hs : N.Step c i c')
    (hn : Nested c.stack) :
    (∃ j x, N.acts c i = some ⟨j, x⟩ ∧ N.Moves c c' j x) ∨
      (N.acts c i = none ∧ ∀ j, N.part c' j = N.part c j) := by
  cases hs with
  | code o s i x rest r hr =>
    refine .inl ⟨i, _, rfl, ?_, fun j hj => part_ne hj ?_⟩
    · simp [part, Machine.step, N.get_set, hr]
    · rw [frames_append, frames_lift_ne hj.symm, frames_code_ne hj.symm, List.nil_append]
  | call o s i k rest j a hw r hr =>
    refine .inl ⟨j, .call (N.choice o s j) a, by simp [acts, hw], ?_, fun l hl => part_ne hl ?_⟩
    · by_cases hij : i = j
      · subst hij
        simp [part, Machine.step, UserRuns, N.get_set, hr]
      · have hu := userRuns_frames hn (i := j) hij
        simp [part, Machine.step, frames_enter_ne hij, frames_leave_ne hij, hu, N.get_set, hr]
    · rw [frames_append, frames_lift_ne hl.symm, List.nil_append]
      by_cases hil : i = l
      · subst hil
        simp
      · rw [frames_enter_ne hil, frames_leave_ne hil]
  | done o s i k rest b hw =>
    refine .inl ⟨i, .ret b, by simp [acts, hw], ?_, fun j hj => part_ne hj ?_⟩
    · simp [part, Machine.step, N.get_set]
    · rw [frames_enter_ne hj.symm]
  | leave o s i k rest =>
    refine .inl ⟨i, _, rfl, ?_, fun j hj => part_ne hj ?_⟩
    · simp [part, Machine.step, N.get_set]
    · rw [frames_leave_ne hj.symm]
  | enter o s i a ha r hr =>
    refine .inl ⟨i, _, rfl, ?_, fun j hj => part_ne hj ?_⟩
    · simp [part, Machine.step, UserRuns, N.get_set, hr]
    · rw [frames_lift_ne hj.symm, frames_nil]
  | event o s i e r hr =>
    refine .inl ⟨i, _, rfl, ?_, fun j hj => part_ne hj ?_⟩
    · simp [part, Machine.step, N.get_set, hr]
    · rw [frames_lift_ne hj.symm, frames_nil]
  | other o s x s' hs =>
    exact .inr ⟨rfl, fun j => by simp [part, N.get_other hs]⟩

end Network

end Reentrant
