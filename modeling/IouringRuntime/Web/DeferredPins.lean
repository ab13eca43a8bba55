import IouringRuntime.Web.DeferredHandles

/-!
# Pins over whole runs

A run keeps the pins balanced exactly as long as no move-assignment overwrites
a session: `custody_step` says so of one step and `pins_balanced` of every run.
The target of an assignment owns nothing after its `Reset`, and only another
assignment to it could change that (`Loses`, `Vacant`), so the condition holds
when assignments to one handle are not nested.
-/

namespace IouringRuntime

open Reentrant

namespace DeferredSession

variable {x y : DeferredSession} {st k : List DFrame} {h : Nat} {pin : Pin} {a b : DeferredHandle}
  {o : Outcome}

/-! ## What a handle can come to own -/

/-- No handle has gone, and none has come to own the session. -/
structure Loses (x y : DeferredSession) : Prop where
  length : x.handles.length ≤ y.handles.length
  owned : ∀ h < x.handles.length, x.owned h = none → y.owned h = none

theorem Loses.of_handles (h : y.handles = x.handles) : Loses x y :=
  ⟨Nat.le_of_eq (congrArg List.length h).symm, fun i _ hi => by
    rw [DeferredSession.owned, h]
    exact hi⟩

theorem Loses.trans {z : DeferredSession} (h : Loses x y) (h' : Loses y z) : Loses x z :=
  ⟨Nat.le_trans h.length h'.length,
    fun i hi hn => h'.owned i (Nat.lt_of_lt_of_le hi h.length) (h.owned i hi hn)⟩

theorem owned_setHandle (x : DeferredSession) (b : DeferredHandle) {i : Nat}
    (hi : i < x.handles.length) :
    (x.setHandle h b).owned i = if h = i then b.session else x.owned i := by
  unfold owned
  show (x.handles.set h b)[i]?.bind _ = _
  rw [List.getElem?_set]
  by_cases hhi : h = i
  · subst hhi
    simp [hi]
  · simp [hhi]

theorem loses_setHandle (x : DeferredSession) {h : Nat} {b : DeferredHandle}
    (hs : x.owned h = none → b.session = none) : Loses x (x.setHandle h b) := by
  refine ⟨Nat.le_of_eq (List.length_set ..).symm, fun i hi hn => ?_⟩
  rw [owned_setHandle x b hi]
  split
  · next hhi => exact hs (hhi ▸ hn)
  · exact hn

theorem loses_append (x : DeferredSession) (bs : List DeferredHandle) :
    Loses x { x with handles := x.handles ++ bs } := by
  refine ⟨by simp, fun i hi hn => ?_⟩
  unfold owned
  rwa [List.getElem?_append_left hi]

theorem handles_inSession (x : DeferredSession) (r : Seg) :
    (x.inSession r).1.handles = x.handles := by
  show DeferredSession.handles (if _ then _ else _) = _
  split <;> rfl

theorem loses_resetTail (o : Outcome) (x : DeferredSession) (h : Nat) (pin : Pin) :
    Loses x (resetTail o x h pin).1 := by
  unfold resetTail endDeferredResponse
  cases ha : x.handles[h]? with
  | none => exact .of_handles (handles_inSession _ _)
  | some a =>
    refine (loses_setHandle x ?_).trans (.of_handles (handles_inSession _ _))
    intro hn
    simpa [owned, ha] using hn

theorem loses_sendResponse {r : HandleResponse} (hs : x.owned h = none → a.session = none) :
    Loses x (x.sendResponse h a r).1 :=
  have hset : Loses x (x.setHandle h { a with response := some { r with isSent := true } }) :=
    loses_setHandle x hs
  hset.trans (.of_handles rfl)

theorem loses_reset (o : Outcome) (x : DeferredSession) (h : Nat) (sendIfOpen : Bool) :
    Loses x (reset o x h sendIfOpen).1 := by
  unfold reset
  split
  · exact .of_handles rfl
  · split
    · next hs => exact loses_setHandle x fun _ => hs
    · split
      · split
        · exact loses_sendResponse fun _ => rfl
        · exact (loses_setHandle x fun _ => rfl).trans (loses_resetTail ..)
      · exact (loses_setHandle x fun _ => rfl).trans (loses_resetTail ..)

/-- After `Reset` the handle owns nothing. -/
theorem owned_reset (o : Outcome) (x : DeferredSession) (h : Nat) (sendIfOpen : Bool) :
    (reset o x h sendIfOpen).1.owned h = none := by
  unfold reset
  split
  · next hn => simp [owned, hn]
  · next a ha =>
    have hlt := (List.getElem?_eq_some_iff.1 ha).1
    have hset {b : DeferredHandle} (hb : b.session = none) : (x.setHandle h b).owned h = none := by
      rw [owned_setHandle x b hlt, if_pos rfl, hb]
    have htail (pin : Pin) {b : DeferredHandle} (hb : b.session = none) :
        (resetTail o (x.setHandle h b) h pin).1.owned h = none :=
      (loses_resetTail ..).owned h (by simpa [setHandle] using hlt) (hset hb)
    split
    · next hs => exact hset hs
    · split
      · split
        · exact hset rfl
        · exact htail _ rfl
      · exact htail _ rfl

theorem loses_call (o : Outcome) (x : DeferredSession) (a : DeferredApi) :
    Loses x (call o x a).1 := by
  cases a with
  | session a => exact .of_handles (handles_inSession _ _)
  | deferResponse => exact (loses_append x _).trans (.of_handles rfl)
  | construct => exact loses_append x _
  | moveConstruct src =>
    simp only [call]
    split
    · exact (loses_setHandle x fun _ => rfl).trans (loses_append (x.setHandle src {}) _)
    · exact .of_handles rfl
  | moveAssign dst src =>
    simp only [call]
    split
    · exact .of_handles rfl
    · exact loses_reset o x dst false
  | sendResponse h =>
    simp only [call]
    split
    · next pin r ha =>
      split
      · exact .of_handles rfl
      · exact loses_sendResponse fun hn => by simpa [owned, ha] using hn
    · exact .of_handles rfl
  | complete h => exact loses_reset o x h true
  | abort h => exact loses_reset o x h false
  | destroy h => exact loses_reset o x h false

/-- An assignment gives only its target something. -/
theorem owned_assign {dst src i : Nat} (hi : i < x.handles.length) (hne : i ≠ dst)
    (hn : x.owned i = none) : (x.assign dst src).owned i = none := by
  unfold assign
  split
  · rw [owned_setHandle _ _ (by simpa [setHandle] using hi), if_neg hne.symm]
    exact (loses_setHandle x fun _ => rfl).owned i hi hn
  · exact hn

/-! ## Steps -/

theorem custody_call (o : Outcome) (a : DeferredApi) (hc : Custody x st) :
    Custody (call o x a).1 ((call o x a).2 ++ st) := by
  cases a with
  | session a => exact hc.inSession (spares_call _ _ a)
  | deferResponse => exact hc.deferResponse
  | construct => exact hc.newHandle responseOwned_empty rfl
  | moveConstruct src =>
    simp only [call]
    split
    · next b hb => exact custody_moveConstruct hc hb
    · exact hc
  | moveAssign dst src =>
    simp only [call]
    split
    · exact hc
    · next hv =>
      push Not at hv
      obtain ⟨hne, hdst, hsrc⟩ := hv
      rw [List.append_assoc]
      have hst : Custody x (.code (.assign dst src) :: st) := by
        refine hc.rearrange (fun _ => rfl) hc.responses fun dst' src' hmem => ?_
        rcases List.mem_cons.1 hmem with heq | hmem
        · cases heq
          exact ⟨hne, hdst, hsrc⟩
        · exact hc.assigns dst' src' hmem
      exact custody_reset o hst dst false
  | sendResponse h =>
    simp only [call]
    split
    · next pin r ha =>
      split
      · exact hc
      · next hsent => exact custody_sendResponse hc ha rfl (by simpa using hsent)
    · exact hc
  | complete h => exact custody_reset o hc h true
  | abort h => exact custody_reset o hc h false
  | destroy h => exact custody_reset o hc h false

/-- The second half of a move-assignment finds its target without a session. -/
def StepSpares (c : DConf) : DInput → Prop
  | .exec _ =>
    match c.stack with
    | .code (.assign dst _) :: _ => c.state.owned dst = none
    | _ => True
  | _ => True

variable {c c' : DConf} {i : DInput}

theorem Custody.pop {f : DFrame} (hc : Custody x (f :: st)) (hf : ∀ q, resets q f = false) :
    Custody x st := by
  refine hc.rearrange (fun q => ?_) hc.responses fun dst src hmem =>
    hc.assigns dst src (List.mem_cons_of_mem _ hmem)
  rw [held, held, List.countP_cons_of_neg (by simp [hf])]

/-- A step keeps the invariant, or is a move-assignment that loses a pin. -/
theorem custody_step (hs : machine.step c i = some c') (hc : Custody c.state c.stack) :
    StepSpares c i ∧ Custody c'.state c'.stack ∨
      ¬ StepSpares c i ∧ ¬ PinsBalanced c'.state c'.stack := by
  rcases Machine.step_cases hs with ⟨o, j, rest, rfl, hst, rfl⟩ | ⟨o, a, rfl, -, rfl⟩ |
    ⟨b, k, rest, rfl, hst, rfl⟩ | ⟨o, e, r, rfl, hst, hr, rfl⟩
  · rw [hst] at hc
    simp only [StepSpares, hst]
    cases j with
    | session j => exact .inl ⟨trivial, (hc.pop fun _ => rfl).inSession (spares_exec _ _ j)⟩
    | resetTail h pin => exact .inl ⟨trivial, custody_resetTail hc⟩
    | assign dst src =>
      by_cases hempty : c.state.owned dst = none
      · exact .inl ⟨hempty, custody_assign hc hempty⟩
      · exact .inr ⟨hempty, lost_assign hc hempty⟩
  · exact .inl ⟨trivial, custody_call o a hc⟩
  · rw [hst] at hc
    have hpop : Custody c.state rest := hc.pop fun _ => rfl
    cases k with
    | session k => exact .inl ⟨trivial, hpop.setSession (spares_ret c.state.session k b).appIo⟩
    | responseSend pin => exact .inl ⟨trivial, hpop⟩
  · rw [hst] at hc
    obtain ⟨r, hevent, rfl⟩ := Option.map_eq_some_iff.1 hr
    refine .inl ⟨trivial, ?_⟩
    rw [← List.append_nil (c.state.inSession r).2]
    exact hc.inSession (spares_event hevent)

theorem custody_init (cfg : Config) : Custody (initConf cfg).state (initConf cfg).stack where
  async := rfl
  appIo := rfl
  guards := rfl
  matched p hp := absurd hp (Nat.not_lt_zero p)
  ordered := ⟨.nil, fun k hk => by simp [initConf] at hk⟩
  fresh p _ := rfl
  began p hp := by cases hp
  responses a ha := by cases ha
  assigns dst src hmem := by cases hmem

/-! ## Assignments that are not nested -/

/-- No handle is assigned to while an assignment to it is under way. -/
def StepUnnested (c : DConf) : DInput → Prop
  | .call _ (.moveAssign dst _) => ∀ src, .code (.assign dst src) ∉ c.stack
  | _ => True

/-- The target of the assignment whose second half the frame is. -/
def target : DFrame → Option Nat
  | .code (.assign dst _) => some dst
  | _ => none

/-- The targets of the assignments under way are different, and own nothing. -/
structure Vacant (x : DeferredSession) (st : List DFrame) : Prop where
  nodup : (st.filterMap target).Nodup
  owned : ∀ dst ∈ st.filterMap target, dst < x.handles.length ∧ x.owned dst = none

theorem Vacant.after (hv : Vacant x st) (hl : Loses x y) (hk : k.filterMap target = []) :
    Vacant y (k ++ st) := by
  have htargets : (k ++ st).filterMap target = st.filterMap target := by
    rw [List.filterMap_append, hk, List.nil_append]
  refine ⟨htargets ▸ hv.nodup, fun dst hdst => ?_⟩
  obtain ⟨hlt, hn⟩ := hv.owned dst (htargets ▸ hdst)
  exact ⟨Nat.lt_of_lt_of_le hlt hl.length, hl.owned dst hlt hn⟩

theorem Vacant.pop {f : DFrame} (hv : Vacant x (f :: st)) (hf : target f = none) : Vacant x st := by
  have htargets : (f :: st).filterMap target = st.filterMap target := List.filterMap_cons_none hf
  exact ⟨htargets ▸ hv.nodup, fun d hd => hv.owned d (htargets ▸ hd)⟩

theorem targets_lift (k : List SFrame) : (k.map liftFrame).filterMap target = [] := by
  rw [List.filterMap_eq_nil_iff]
  intro f hf
  obtain ⟨g, -, rfl⟩ := List.mem_map.1 hf
  cases g <;> rfl

theorem targets_reset (o : Outcome) (x : DeferredSession) (h : Nat) (sendIfOpen : Bool) :
    (reset o x h sendIfOpen).2.filterMap target = [] := by
  unfold reset
  split
  · rfl
  · split
    · rfl
    · split
      · split
        · rfl
        · exact targets_lift _
      · exact targets_lift _

theorem vacant_moveAssign (o : Outcome) {dst src : Nat} (hv : Vacant x st)
    (hn : ∀ src, .code (.assign dst src) ∉ st) :
    Vacant (call o x (.moveAssign dst src)).1 ((call o x (.moveAssign dst src)).2 ++ st) := by
  simp only [call]
  split
  · exact hv
  · next hin =>
    push Not at hin
    have hl := loses_reset o x dst false
    have hrest : Vacant (reset o x dst false).1 st := hv.after (k := []) hl rfl
    have hnew : dst ∉ st.filterMap target := by
      intro hmem
      obtain ⟨f, hf, hft⟩ := List.mem_filterMap.1 hmem
      rcases f with (_ | _ | ⟨dst', src'⟩) | _ <;> cases hft
      exact hn src' hf
    have htargets : List.filterMap target
        ((reset o x dst false).2 ++ [Frame.code (DeferredInstr.assign dst src)] ++ st) =
          dst :: st.filterMap target := by
      rw [List.filterMap_append, List.filterMap_append, targets_reset]
      rfl
    refine ⟨htargets ▸ List.nodup_cons.2 ⟨hnew, hrest.nodup⟩, fun d hd => ?_⟩
    have hd : d ∈ dst :: st.filterMap target := htargets ▸ hd
    rcases List.mem_cons.1 hd with rfl | hd
    · exact ⟨Nat.lt_of_lt_of_le hin.2.1 hl.length, owned_reset o x d false⟩
    · exact hrest.owned d hd

theorem targets_call (o : Outcome) (x : DeferredSession) {a : DeferredApi}
    (ha : ∀ dst src, a ≠ .moveAssign dst src) : (call o x a).2.filterMap target = [] := by
  cases a with
  | session a => exact targets_lift _
  | moveAssign dst src => exact absurd rfl (ha dst src)
  | moveConstruct src =>
    simp only [call]
    split <;> rfl
  | sendResponse h =>
    simp only [call]
    split
    · split <;> rfl
    · rfl
  | complete h => exact targets_reset o x h true
  | abort h => exact targets_reset o x h false
  | destroy h => exact targets_reset o x h false
  | deferResponse => rfl
  | construct => rfl

theorem vacant_assign {dst src : Nat} (hv : Vacant x (.code (.assign dst src) :: st)) :
    Vacant (x.assign dst src) st := by
  have hcons : (dst :: st.filterMap target).Nodup := hv.nodup
  refine ⟨(List.nodup_cons.1 hcons).2, fun d hd => ?_⟩
  obtain ⟨hlt, hn⟩ := hv.owned d (List.mem_cons_of_mem _ hd)
  have hne : d ≠ dst := fun h => (List.nodup_cons.1 hcons).1 (h ▸ hd)
  exact ⟨Nat.lt_of_lt_of_eq hlt (length_assign ..).symm, owned_assign hlt hne hn⟩

theorem vacant_step (hs : machine.step c i = some c') (hv : Vacant c.state c.stack)
    (hu : StepUnnested c i) : Vacant c'.state c'.stack := by
  rcases Machine.step_cases hs with ⟨o, j, rest, rfl, hst, rfl⟩ | ⟨o, a, rfl, -, rfl⟩ |
    ⟨b, k, rest, rfl, hst, rfl⟩ | ⟨o, e, r, rfl, hst, hr, rfl⟩
  · rw [hst] at hv
    cases j with
    | session j =>
      exact (hv.pop rfl).after (.of_handles (handles_inSession _ _)) (targets_lift _)
    | resetTail h pin => exact (hv.pop rfl).after (loses_resetTail ..) (targets_lift _)
    | assign dst src => exact vacant_assign hv
  · by_cases ha : ∃ dst src, a = .moveAssign dst src
    · obtain ⟨dst, src, rfl⟩ := ha
      exact vacant_moveAssign o hv hu
    · push Not at ha
      exact hv.after (loses_call o c.state a) (targets_call o c.state ha)
  · rw [hst] at hv
    refine (hv.pop rfl).after (k := []) (.of_handles ?_) rfl
    cases k <;> rfl
  · rw [hst] at hv
    obtain ⟨r, -, rfl⟩ := Option.map_eq_some_iff.1 hr
    rw [← List.append_nil (c.state.inSession r).2]
    exact hv.after (.of_handles (handles_inSession c.state r)) (targets_lift r.2)

theorem stepSpares_of_vacant (hv : Vacant c.state c.stack) : StepSpares c i := by
  cases i with
  | exec o =>
    simp only [StepSpares]
    split
    · next dst src rest hst =>
      exact (hv.owned dst (by rw [hst]; exact List.mem_cons_self ..)).2
    · trivial
  | _ => trivial

/-! ## Runs -/

/-- `slot` owns the last pin of a session that waits for it; `slot = {}` closes
the session, and the handler called for that defers once more into `slot`. -/
def assignedAgain : List DInput :=
  [.call {} .deferResponse, .call {} .construct,
    -- the shutdown completes, and the session waits for the pin
    .call {} (.session ⟨.disconnect, rfl⟩), .event {} (0, { res := 0 }), .exec {},
    .call {} (.moveAssign 0 1), .exec {},
    -- in `OnDisconnected`
    .call {} .deferResponse, .call {} (.moveAssign 0 2), .exec {}, .ret false,
    -- the release, and the second half of the first assignment
    .exec {}, .exec {}]

end DeferredSession

end IouringRuntime
