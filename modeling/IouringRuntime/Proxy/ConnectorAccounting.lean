import Mathlib.Data.List.Nodup
import IouringRuntime.Proxy.ProxyConnector

/-!
# The connector's accounts

A connector that has been started waits for its connect (`Unfinished`) until
one of the connect, the timeout and `Cancel` ends it (`Ending`); the finished
callback then takes it out of the worker's table (`Finished`), and it lives on
until its last operation completes.

`Cancel` does not look at whether `Start` succeeded. A connector whose `Start`
failed has been taken out of the table, but `CancelConnectors` may have copied
the table just before, and `Cancel` then runs the finished callback for it.
-/

namespace IouringRuntime

namespace ProxyConnector

/-- What holds of a connector between events. -/
structure Accounted (c : ProxyConnector) : Prop where
  pendingOps : c.pendingOps = c.inFlight.length
  selfRef : c.selfRef = true ↔ c.pendingOps ≠ 0
  finishedCalls : c.finishedCalls ≤ if c.started = some true then 1 else 0
  finishedOnce : c.started = some true → c.inFlight = [] → c.finishedCalls = 1
  resultOnce : c.results.length ≤ 1
  success : (∃ timeout, (true, timeout) ∈ c.results) ↔ c.sessions = 1
  socket : c.closed + c.sessions + (if c.socket then 1 else 0) = c.opened
  socketOnce : c.opened ≤ 1
  socketLeft : c.inFlight = [] → c.socket = false

/-- Started, and neither connected nor given up. -/
structure Unfinished (c : ProxyConnector) : Prop where
  started : c.started = some true
  count : c.pendingOps = c.inFlight.length
  ref : c.selfRef = true
  finished : c.finished = false
  notified : c.finishedNotified = false
  calls : c.finishedCalls = 0
  unreported : c.connectResultNotified = false
  results : c.results = []
  opened : c.opened = 1
  closed : c.closed = 0
  sessions : c.sessions = 0
  socket : c.socket = true

/-- The outcome is settled. -/
structure Ended (c : ProxyConnector) : Prop where
  started : c.started = some true
  count : c.pendingOps = c.inFlight.length
  finished : c.finished = true
  once : c.results.length ≤ 1
  success : (∃ timeout, (true, timeout) ∈ c.results) ↔ c.sessions = 1
  opened : c.opened = 1
  socket : c.socket = false
  handed : c.closed + c.sessions = 1

/-- The finished callback has still to run. -/
structure Ending (c : ProxyConnector) : Prop extends Ended c where
  ref : c.selfRef = true
  notified : c.finishedNotified = false
  calls : c.finishedCalls = 0

structure Finished (c : ProxyConnector) : Prop extends Ended c where
  ref : c.selfRef = !c.inFlight.isEmpty
  notified : c.finishedNotified = true
  calls : c.finishedCalls = 1

/-- `Start` failed. -/
structure Failed (c : ProxyConnector) : Prop where
  started : c.started = some false
  pendingOps : c.pendingOps = 0
  inFlight : c.inFlight = []
  ref : c.selfRef = false
  notified : c.finishedNotified = false
  calls : c.finishedCalls = 0
  results : c.results = []
  sessions : c.sessions = 0
  socket : c.socket = false
  opened : c.opened ≤ 1
  closed : c.closed = c.opened

/-- The life of a connector, between events. -/
inductive Sound (c : ProxyConnector) : Prop where
  | fresh : c = {} → Sound c
  | failed : Failed c → Sound c
  | waiting (ev : Nat) : Unfinished c → .connect ev ∈ c.inFlight → Sound c
  | finished : Finished c → Sound c

variable {c : ProxyConnector}

theorem Sound.accounted (h : Sound c) : Accounted c := by
  cases h with
  | fresh h => subst h; constructor <;> simp
  | failed h =>
    constructor <;> simp [h.pendingOps, h.inFlight, h.ref, h.calls, h.started, h.results,
      h.sessions, h.socket, h.closed, h.opened]
  | waiting ev h hm =>
    have hne : c.inFlight ≠ [] := List.ne_nil_of_mem hm
    constructor <;> simp [h.count, h.ref, h.calls, h.started, h.results, h.opened, h.closed,
      h.sessions, h.socket, hne]
  | finished h =>
    refine ⟨h.count, ?_, by simp [h.calls, h.started], fun _ _ => h.calls, h.once, h.success, ?_,
      Nat.le_of_eq h.opened, fun _ => h.socket⟩
    · rw [h.ref, h.count]
      cases c.inFlight with
      | nil => simp
      | cons op ops =>
        simp only [List.isEmpty_cons, Bool.not_false, List.length_cons, true_iff]
        omega
    · rw [h.socket, h.opened, h.handed]; rfl

/-! ## Operations -/

theorem count_retire {op : ConnectOp} (h : c.pendingOps = c.inFlight.length)
    (hop : op ∈ c.inFlight) : (c.retire op).pendingOps = (c.retire op).inFlight.length := by
  have hpos := List.length_pos_of_mem hop
  simp only [retire, List.length_erase_of_mem hop, h]
  omega

theorem Unfinished.prepCancel (h : Unfinished c) (armed : Bool) (target : Option Nat) (ok : Bool) :
    Unfinished (c.prepCancel armed target ok) := by
  unfold ProxyConnector.prepCancel
  split
  · exact h
  · split
    · refine { h with count := ?_ }
      simp [prep, h.count]
    · exact h

theorem Ending.prepCancel (h : Ending c) (armed : Bool) (target : Option Nat) (ok : Bool) :
    Ending (c.prepCancel armed target ok) := by
  unfold ProxyConnector.prepCancel
  split
  · exact h
  · split
    · refine { h with count := ?_ }
      simp [prep, h.count]
    · exact h

/-- `MaybeRelease` of a connector whose finished callback has run. -/
theorem Ended.release (h : Ended c) (href : c.selfRef = true) (hn : c.finishedNotified = true)
    (hc : c.finishedCalls = 1) : Finished c.maybeRelease := by
  unfold maybeRelease
  split
  · next hz =>
    refine { h with ref := ?_, notified := hn, calls := hc }
    have hnil : c.inFlight = [] := List.eq_nil_of_length_eq_zero (by rw [h.count] at hz; omega)
    simp [hnil]
  · next hz =>
    refine { h with ref := ?_, notified := hn, calls := hc }
    have hne : c.inFlight ≠ [] := fun hnil => hz (by rw [h.count, hnil]; rfl)
    rw [href]
    simpa using hne

theorem Ended.retire {op : ConnectOp} (h : Ended c) (hop : op ∈ c.inFlight) :
    Ended (c.retire op) :=
  { h with count := count_retire h.count hop }

theorem Finished.selfRef {op : ConnectOp} (h : Finished c) (hop : op ∈ c.inFlight) :
    c.selfRef = true := by
  rw [h.ref]
  simpa using List.ne_nil_of_mem hop

theorem Unfinished.retire {op : ConnectOp} (h : Unfinished c) (hop : op ∈ c.inFlight) :
    Unfinished (c.retire op) :=
  { h with count := count_retire h.count hop }

/-- An operation other than the connect completes, and the connector waits on. -/
theorem Unfinished.maybeRelease {ev : Nat} (h : Unfinished c) (hm : .connect ev ∈ c.inFlight) :
    c.maybeRelease = c := by
  unfold ProxyConnector.maybeRelease
  rw [if_neg]
  rw [h.count]
  have := List.length_pos_of_mem hm
  omega

theorem notifyConnectResult_setFinished (c : ProxyConnector) (success timeout : Bool) :
    c.setFinished.notifyConnectResult success timeout =
      (c.notifyConnectResult success timeout).setFinished := by
  unfold notifyConnectResult
  show (if c.connectResultNotified = true then _ else _) = _
  split <;> rfl

/-! ## Endings -/

/-- `Cancel` closes the socket and reports nothing. -/
theorem Unfinished.close (h : Unfinished c) : Ending c.setFinished.resetSocket := by
  simp only [setFinished, resetSocket, h.socket, ↓reduceIte]
  refine ⟨⟨h.started, h.count, rfl, ?_, ?_, h.opened, rfl, ?_⟩, h.ref, h.notified, h.calls⟩
  · simp [h.results]
  · simp [h.results, h.sessions]
  · simp [h.closed, h.sessions]

/-- The connect failed or timed out. -/
theorem Unfinished.fail (h : Unfinished c) (timeout : Bool) :
    Ending (c.notifyConnectResult false timeout).setFinished.resetSocket := by
  simp only [notifyConnectResult, setFinished, resetSocket, h.unreported, Bool.false_eq_true,
    h.socket, ↓reduceIte]
  refine ⟨⟨h.started, h.count, rfl, ?_, ?_, h.opened, rfl, ?_⟩, h.ref, h.notified, h.calls⟩
  · simp [h.results]
  · simp [h.results, h.sessions]
  · simp [h.closed, h.sessions]

/-- The connect succeeded. -/
theorem Unfinished.succeed (h : Unfinished c) :
    Ending (c.createSession.notifyConnectResult true false).setFinished := by
  simp only [createSession, notifyConnectResult, setFinished, h.unreported, Bool.false_eq_true,
    ↓reduceIte]
  refine ⟨⟨h.started, h.count, rfl, ?_, ?_, h.opened, rfl, ?_⟩, h.ref, h.notified, h.calls⟩
  · simp [h.results]
  · simp [h.results, h.sessions]
  · simp [h.closed, h.sessions]

/-! ## `Start` -/

theorem start_cases (o : ConnectOutcome) (hasTimeout : Bool) :
    Failed (start {} o hasTimeout) ∨
      Unfinished (start {} o hasTimeout) ∧ .connect 0 ∈ (start {} o hasTimeout).inFlight := by
  unfold start
  dsimp only
  split
  · exact .inl (by constructor <;> simp [failStart, resetSocket])
  · split
    · exact .inl (by constructor <;> simp [failStart, resetSocket])
    · split
      · exact .inl (by constructor <;> simp [failStart, resetSocket])
      · refine .inr ?_
        unfold armTimeout
        split
        · exact ⟨by constructor <;> simp [prep], by simp [prep]⟩
        · exact ⟨by constructor <;> simp [prep], by simp [prep]⟩

end ProxyConnector

namespace ConnectorScope

open ProxyConnector

/-- What a handler does to its connector and to the table. -/
inductive Handled (x : ConnectorScope) : ConnectorScope → Prop where
  | kept {c : ProxyConnector} : Sound c → c.started = x.conn.started →
      c.finishedNotified = x.conn.finishedNotified → Handled x (x.set c)
  | ended {c : ProxyConnector} : x.conn.finishedNotified = false →
      x.conn.started = some true → Finished c →
      Handled x ⟨x.key, c, ⟨x.table.liveConnectors - 1, x.table.connectors.erase x.key⟩⟩

variable {x : ConnectorScope} {c : ProxyConnector}

theorem finish_eq (h : Ending c) : ∃ c', Finished c' ∧ (x.set c).finish =
    ⟨x.key, c', ⟨x.table.liveConnectors - 1, x.table.connectors.erase x.key⟩⟩ := by
  let d : ProxyConnector :=
    { c with finishedNotified := true, finishedCalls := c.finishedCalls + 1 }
  have hd : Ended d := { h.toEnded with }
  have hn : (x.set c).notifyFinished = { (x.set c) with
      conn := d
      table := ⟨x.table.liveConnectors - 1, x.table.connectors.erase x.key⟩ } := by
    unfold notifyFinished
    rw [if_neg (by simp [set, h.notified])]
    rfl
  refine ⟨d.maybeRelease, ?_, by rw [finish, hn]; rfl⟩
  exact hd.release h.ref rfl (by simp [d, h.calls])

/-- A connector that was waiting ends. -/
theorem handled_finish (hx : Unfinished x.conn) (h : Ending c) : Handled x (x.set c).finish := by
  obtain ⟨c', hc', he⟩ := finish_eq (x := x) h
  rw [he]
  exact .ended hx.notified hx.started hc'

theorem handled_cancel (h : Sound x.conn) (hs : x.conn.started = some true) (o : ConnectOutcome) :
    Handled x (x.cancel o) := by
  unfold cancel
  split
  · exact .kept h rfl rfl
  · next hf =>
    cases h with
    | fresh h => rw [h] at hs; cases hs
    | failed h => rw [h.started] at hs; cases hs
    | finished h => exact absurd h.finished hf
    | waiting ev hx hm =>
      refine handled_finish hx ?_
      exact { (hx.close.prepCancel _ _ _).prepCancel _ _ _ with }

/-- A connector with an operation in flight waits or is finished. -/
theorem sound_inFlight {op : ConnectOp} (h : Sound c) (hop : op ∈ c.inFlight) :
    Finished c ∨ Unfinished c ∧ ∃ ev, .connect ev ∈ c.inFlight := by
  cases h with
  | fresh h => rw [h] at hop; cases hop
  | failed h => rw [h.inFlight] at hop; cases hop
  | waiting ev hx hm => exact .inr ⟨hx, ev, hm⟩
  | finished h => exact .inl h

/-- A connector that is finished takes note of a completion. -/
theorem handled_late (hx : Finished x.conn) (h : Ended c) (href : c.selfRef = true)
    (hn : c.finishedNotified = true) (hc : c.finishedCalls = 1) :
    Handled x (x.set c.maybeRelease) := by
  have hfin := h.release href hn hc
  exact .kept (.finished hfin) (hfin.started.trans hx.started.symm)
    (hfin.notified.trans hx.notified.symm)

/-- A connector that waits takes note of a completion other than the connect. -/
theorem handled_waiting {ev : Nat} (hx : Unfinished x.conn) (h : Unfinished c)
    (hm : .connect ev ∈ c.inFlight) : Handled x (x.set c.maybeRelease) := by
  rw [h.maybeRelease hm]
  exact .kept (.waiting ev h hm) (h.started.trans hx.started.symm)
    (h.notified.trans hx.notified.symm)

theorem handled_onConnect (h : Sound x.conn) {ev : Nat} (hop : .connect ev ∈ x.conn.inFlight)
    (res : Int) (o : ConnectOutcome) : Handled x (x.onConnect ev res o) := by
  unfold onConnect
  dsimp only
  rcases sound_inFlight h hop with hx | ⟨hx, -⟩
  · rw [if_pos (show (x.conn.connectDone ev).finished = true from hx.finished)]
    exact handled_late hx { hx.toEnded.retire hop with } (hx.selfRef hop) hx.notified hx.calls
  · have hc : Unfinished (x.conn.connectDone ev) := { hx.retire hop with }
    have hd : Unfinished ((x.conn.connectDone ev).cancelTimeout o.cancelTimeout) :=
      { hc.prepCancel _ _ _ with }
    rw [if_neg (by simp [hc.finished])]
    split
    · exact handled_finish hx (hd.fail false)
    · exact handled_finish hx hd.succeed

theorem handled_onTimeout (h : Sound x.conn) {ev : Nat} (hop : .timeout ev ∈ x.conn.inFlight)
    (res : Int) (o : ConnectOutcome) : Handled x (x.onTimeout ev res o) := by
  unfold onTimeout
  dsimp only
  rcases sound_inFlight h hop with hx | ⟨hx, ev', hm⟩
  · rw [if_pos (show (x.conn.timeoutDone ev).finished = true from hx.finished)]
    exact handled_late hx { hx.toEnded.retire hop with } (hx.selfRef hop) hx.notified hx.calls
  · have hc : Unfinished (x.conn.timeoutDone ev) := { hx.retire hop with }
    rw [if_neg (by simp [hc.finished])]
    split
    · have hleft : .connect ev' ∈ (x.conn.timeoutDone ev).inFlight :=
        (List.mem_erase_of_ne (by simp)).2 hm
      exact handled_waiting hx hc hleft
    · refine handled_finish hx ?_
      rw [notifyConnectResult_setFinished]
      exact (hc.fail true).prepCancel _ _ _

theorem handled_complete (h : Sound x.conn) {op : ConnectOp} (hop : op ∈ x.conn.inFlight)
    (res : Int) (o : ConnectOutcome) : Handled x (x.complete op res o) := by
  cases op with
  | connect ev => exact handled_onConnect h hop res o
  | timeout ev => exact handled_onTimeout h hop res o
  | cancel ev target =>
    rcases sound_inFlight h hop with hx | ⟨hx, ev', hm⟩
    · exact handled_late hx (hx.toEnded.retire hop) (hx.selfRef hop) hx.notified hx.calls
    · exact handled_waiting hx (hx.retire hop) ((List.mem_erase_of_ne (by simp)).2 hm)

end ConnectorScope

namespace ConnectorWorker

open ProxyConnector ConnectorScope

/-- Every connector is accounted for, and `live_connectors` counts the table. -/
def Accounted (w : ConnectorWorker) : Prop :=
  w.table.liveConnectors = w.table.connectors.length ∧
    ∀ c ∈ w.objects, ProxyConnector.Accounted c

/-- A posted `Cancel` runs only for a connector whose `Start` succeeded. -/
def CancelsStarted (w : ConnectorWorker) : Action → Prop
  | .cancel j _ =>
    ∀ key c, w.posted[j]? = some key → w.objects[key]? = some c → c.started = some true
  | _ => True

/-- In the table: neither failed to start nor finished. -/
def Listed (w : ConnectorWorker) (key : Nat) : Prop :=
  ∃ c, w.objects[key]? = some c ∧ c.started ≠ some false ∧ c.finishedNotified = false

structure Inv (w : ConnectorWorker) : Prop where
  live : w.table.liveConnectors = w.table.connectors.length
  nodup : w.table.connectors.Nodup
  listed : ∀ key, key ∈ w.table.connectors ↔ w.Listed key
  sound : ∀ (key : Nat) c, w.objects[key]? = some c → Sound c
  starting : ∀ (key : Nat) c, w.objects[key]? = some c → (c.started = none ↔ w.starting = some key)

variable {w w' : ConnectorWorker} {key : Nat} {c c' : ProxyConnector}

theorem Inv.accounted (h : Inv w) : w.Accounted := by
  refine ⟨h.live, fun c hc => ?_⟩
  obtain ⟨key, hk⟩ := List.mem_iff_getElem?.1 hc
  exact (h.sound key c hk).accounted

/-! ## One connector changes -/

theorem getElem?_set_cases {objects : List ProxyConnector} (hk : objects[key]? = some c) (k : Nat) :
    (objects.set key c')[k]? = if k = key then some c' else objects[k]? := by
  have hlt : key < objects.length := (List.getElem?_eq_some_iff.1 hk).1
  by_cases h : k = key
  · subst h
    rw [if_pos rfl, List.getElem?_set_self hlt]
  · rw [if_neg h, List.getElem?_set_ne (Ne.symm h)]

/-- The table that goes with the change: the entry stays or is erased. -/
theorem Inv.change (h : Inv w) (hk : w.objects[key]? = some c) (hs : Sound c')
    (hst : c'.started ≠ none) (hfree : ∀ k, w.starting = some k → k = key)
    (ho : w'.objects = w.objects.set key c') (hw : w'.starting = none)
    (hlive : w'.table.liveConnectors = w'.table.connectors.length)
    (hnodup : w'.table.connectors.Nodup)
    (hkey : key ∈ w'.table.connectors ↔ c'.started ≠ some false ∧ c'.finishedNotified = false)
    (hother : ∀ k, k ≠ key → (k ∈ w'.table.connectors ↔ k ∈ w.table.connectors)) : Inv w' := by
  have hget : ∀ k, (w.objects.set key c')[k]? = if k = key then some c' else w.objects[k]? :=
    fun k => getElem?_set_cases hk k
  refine ⟨hlive, hnodup, fun k => ?_, fun k d hd => ?_, fun k d hd => ?_⟩
  · unfold Listed
    rw [ho]
    by_cases hkk : k = key
    · subst hkk
      rw [hkey]
      constructor
      · exact fun hc => ⟨c', by rw [hget, if_pos rfl], hc⟩
      · rintro ⟨d, hd, hc⟩
        rw [hget, if_pos rfl] at hd
        cases hd
        exact hc
    · rw [hother k hkk, h.listed k, hget, if_neg hkk]
      rfl
  · rw [ho, hget] at hd
    split at hd
    · cases hd; exact hs
    · exact h.sound k d hd
  · rw [ho, hget] at hd
    rw [hw]
    split at hd
    · cases hd
      exact ⟨fun hn => absurd hn hst, fun hn => by cases hn⟩
    · next hkk =>
      rw [h.starting k d hd]
      exact ⟨fun hn => absurd (hfree k hn) hkk, fun hn => by cases hn⟩

/-- The connector stays in the table, or stays out of it. -/
theorem Inv.keep (h : Inv w) (hk : w.objects[key]? = some c) (hs : Sound c')
    (hst : c'.started ≠ none) (hfree : ∀ k, w.starting = some k → k = key)
    (hl : (c'.started ≠ some false ∧ c'.finishedNotified = false) ↔
      (c.started ≠ some false ∧ c.finishedNotified = false))
    (ho : w'.objects = w.objects.set key c') (hw : w'.starting = none) (ht : w'.table = w.table) :
    Inv w' := by
  refine h.change hk hs hst hfree ho hw (ht ▸ h.live) (ht ▸ h.nodup) ?_ fun k _ => by rw [ht]
  rw [ht, h.listed key, hl]
  constructor
  · rintro ⟨d, hd, hc⟩
    cases hk.symm.trans hd
    exact hc
  · exact fun hc => ⟨c, hk, hc⟩

/-- The connector is taken out of the table. -/
theorem Inv.remove (h : Inv w) (hk : w.objects[key]? = some c) (hs : Sound c')
    (hst : c'.started ≠ none) (hfree : ∀ k, w.starting = some k → k = key)
    (hin : c.started ≠ some false ∧ c.finishedNotified = false)
    (hout : ¬ (c'.started ≠ some false ∧ c'.finishedNotified = false))
    (ho : w'.objects = w.objects.set key c') (hw : w'.starting = none)
    (ht : w'.table = ⟨w.table.liveConnectors - 1, w.table.connectors.erase key⟩) : Inv w' := by
  have hmem : key ∈ w.table.connectors := (h.listed key).2 ⟨c, hk, hin⟩
  have hpos := List.length_pos_of_mem hmem
  refine h.change hk hs hst hfree ho hw ?_ ?_ ?_ fun k hkk => ?_
  · rw [ht]
    simp only [h.live, List.length_erase_of_mem hmem]
    omega
  · rw [ht]
    exact h.nodup.erase key
  · rw [ht]
    exact ⟨fun hm => absurd hm h.nodup.not_mem_erase, fun hc => absurd hc hout⟩
  · rw [ht]
    exact List.mem_erase_of_ne hkk

/-! ## Steps -/

theorem inv_leave (h : Inv w) (hk : w.objects[key]? = some c) (hst : w.starting = none)
    {x : ConnectorScope} (hx : Handled ⟨key, c, w.table⟩ x) : Inv (w.leave x) := by
  have hfree : ∀ k, w.starting = some k → k = key := fun k hk => by rw [hst] at hk; cases hk
  have hstarted : c.started ≠ none := fun hn => by
    have := (h.starting key c hk).1 hn
    rw [hst] at this
    cases this
  cases hx with
  | kept hs h1 h2 =>
    refine h.keep hk hs (h1 ▸ hstarted) hfree ?_ rfl hst rfl
    rw [h1, h2]
  | @ended c' hn h1 hf =>
    refine h.remove hk (.finished hf) (by simp [hf.started]) hfree ?_ ?_ rfl hst rfl
    · exact ⟨by rw [show c.started = some true from h1]; simp, hn⟩
    · simp [hf.notified]

theorem inv_enter (h : Inv w) (hst : w.starting = none) : Inv w.enter := by
  have hget (k : Nat) : (w.objects ++ [({} : ProxyConnector)])[k]? =
      if k = w.objects.length then some {} else w.objects[k]? := by
    rcases Nat.lt_trichotomy k w.objects.length with hlt | rfl | hgt
    · rw [List.getElem?_append_left hlt, if_neg (by omega)]
    · simp
    · rw [if_neg (by omega), List.getElem?_eq_none (by simp; omega),
        List.getElem?_eq_none (by omega)]
  have hnew : w.objects.length ∉ w.table.connectors := fun hm => by
    obtain ⟨c, hc, -⟩ := (h.listed _).1 hm
    simp at hc
  refine ⟨?_, ?_, fun k => ?_, fun k c hc => ?_, fun k c hc => ?_⟩
  · simp [enter, h.live]
  · exact List.nodup_append.2 ⟨h.nodup, List.nodup_singleton _, fun a ha b hb => by
      rw [List.mem_singleton.1 hb]
      rintro rfl
      exact hnew ha⟩
  · simp only [enter, Listed, hget, List.mem_append, List.mem_singleton, h.listed]
    by_cases hk : k = w.objects.length
    · simp [hk]
    · simp [hk]
  · simp only [enter, hget] at hc
    split at hc
    · cases hc; exact .fresh rfl
    · exact h.sound k c hc
  · simp only [enter, hget] at hc ⊢
    split at hc
    · next hk =>
      cases hc
      exact ⟨fun _ => by rw [hk], fun _ => rfl⟩
    · next hk =>
      rw [h.starting k c hc, hst]
      exact ⟨fun hn => (by cases hn), fun hn => absurd (Option.some.inj hn).symm hk⟩

theorem inv_start (h : Inv w) (hst : w.starting = some key) (hk : w.objects[key]? = some c)
    (o : ConnectOutcome) : Inv (w.start key c o) := by
  have hfresh : c = {} := by
    have hnone := (h.starting key c hk).2 hst
    cases h.sound key c hk with
    | fresh h => exact h
    | failed h => rw [h.started] at hnone; cases hnone
    | waiting ev h => rw [h.started] at hnone; cases hnone
    | finished h => rw [h.started] at hnone; cases hnone
  subst hfresh
  have hfree : ∀ k, w.starting = some k → k = key := fun k hk => by
    rw [hst] at hk
    exact (Option.some.inj hk).symm
  rcases start_cases o w.hasTimeout with hf | ⟨hu, hm⟩
  · refine h.remove hk (.failed hf) (by simp [hf.started]) hfree (by simp) (by simp [hf.started])
      rfl rfl ?_
    simp [start, hf.started]
  · refine h.keep hk (.waiting 0 hu hm) (by simp [hu.started]) hfree ?_ rfl rfl ?_
    · simp [hu.started, hu.notified]
    · simp [start, hu.started]

theorem inv_step {a : Action} (h : Inv w) (hs : w.step a = some w') (hQ : w.CancelsStarted a) :
    Inv w' := by
  cases a with
  | enter =>
    simp only [step] at hs
    split at hs
    · cases hs
    · next hst =>
      cases hs
      exact inv_enter h (by simpa using hst)
  | start o =>
    simp only [step] at hs
    split at hs
    · cases hs
    · next key hst =>
      obtain ⟨c, hk, rfl⟩ := Option.map_eq_some_iff.1 hs
      exact inv_start h hst hk o
  | cancelConnectors =>
    cases hs
    exact { h with }
  | cancel j o =>
    simp only [step] at hs
    split at hs
    · cases hs
    · next hst =>
      split at hs
      · cases hs
      · next key hj =>
        obtain ⟨c, hk, rfl⟩ := Option.map_eq_some_iff.1 hs
        have hw : Inv { w with posted := w.posted.eraseIdx j } := { h with }
        refine inv_leave hw hk (by simpa using hst) ?_
        exact handled_cancel (h.sound key c hk) (hQ key c hj hk) o
  | complete key op res o =>
    simp only [step] at hs
    split at hs
    · cases hs
    · next hst =>
      split at hs
      · cases hs
      · next c hk =>
        split at hs
        · next hop =>
          cases hs
          exact inv_leave h hk (by simpa using hst) (handled_complete (h.sound key c hk) hop res o)
        · cases hs

/-- **Connector accounting.** In every run in which no posted `Cancel` reaches
a connector whose `Start` failed, every connector is accounted for and
`live_connectors` counts the table. -/
theorem connector_accounting (hasTimeout : Bool) (as : List Action)
    (hQ : Trace.Steps step CancelsStarted { hasTimeout } as) :
    Trace.Visits step Accounted { hasTimeout } as := by
  refine Trace.visits_of_steps (fun _ h => h.accounted) (fun _ _ _ h hs hQ => inv_step h hs hQ) as
    ⟨rfl, List.nodup_nil, fun key => ?_, fun key c hc => ?_, fun key c hc => ?_⟩ hQ
  · exact ⟨fun hm => absurd hm List.not_mem_nil, fun ⟨c, hc, _⟩ => by simp at hc⟩
  · simp at hc
  · simp at hc

/-- The connector times out; its connect and the cancel complete afterwards. -/
def timedOutRun : List Action :=
  [.enter, .start {}, .complete 0 (.timeout 1) (-62) {}, .complete 0 (.connect 0) (-125) {},
    .complete 0 (.cancel 2 0) 0 {}]

theorem connector_accounting_timedOut :
    (∃ w c, Trace.run step { hasTimeout := true } timedOutRun = some w ∧ w.objects = [c] ∧
      c.finishedCalls = 1 ∧ c.results = [(false, true)] ∧ c.closed = 1 ∧ c.selfRef = false) ∧
      Trace.Visits step Accounted { hasTimeout := true } timedOutRun := by
  refine ⟨⟨_, _, rfl, rfl, rfl, rfl, rfl, rfl⟩, connector_accounting true timedOutRun ?_⟩
  refine .cons rfl trivial (.cons rfl trivial (.cons rfl trivial ?_))
  exact .cons rfl trivial (.cons rfl trivial trivial)

/-- `CancelConnectors` copies the table while `Start` is about to fail. -/
def lateCancelRun : List Action :=
  [.enter, .cancelConnectors, .start { prepConnect := false }, .cancel 0 {}]

theorem cancel_after_failed_start :
    ∃ w c, Trace.run step { hasTimeout := true } lateCancelRun = some w ∧ w.objects = [c] ∧
      c.started = some false ∧ c.finishedCalls = 1 ∧ w.table.liveConnectors = -1 ∧
      w.table.connectors = [] ∧ ¬ w.Accounted := by
  refine ⟨_, _, rfl, rfl, rfl, rfl, rfl, rfl, fun h => ?_⟩
  exact absurd h.1 (by decide)

end ConnectorWorker

end IouringRuntime
