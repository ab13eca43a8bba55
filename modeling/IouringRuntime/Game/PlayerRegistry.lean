import Mathlib.Data.Finmap
import Mathlib.Data.PEquiv

/-!
# The player registry

`PlayerRegistry` (`game/PlayerRegistry.h`) keeps a record for each session and
an index from players to sessions. Every function runs under the registry's
mutex, so that a history is a sequence of calls. An `unordered_map` is a finite
map; `it->second` is the entry the iterator found.

`Linked` says that the two maps are one partial bijection between sessions and
players (`Linked.pairs`).
-/

namespace IouringRuntime

abbrev SessionId := UInt64

abbrev PlayerId := UInt64

abbrev RoomId := UInt32

/-- `RoomLike*`; `none` is `nullptr`. -/
abbrev RoomPtr := Option Nat

structure PlayerRecord where
  sessionId : SessionId := 0
  playerId : PlayerId := 0
  roomId : RoomId := 0
  room : RoomPtr := none
  deriving DecidableEq, Repr

structure PlayerRegistry where
  bySession : Finmap (fun _ : SessionId => PlayerRecord) := ∅
  byPlayer : Finmap (fun _ : PlayerId => SessionId) := ∅

namespace PlayerRegistry

def register (g : PlayerRegistry) (sessionId : SessionId) (playerId : PlayerId) :
    PlayerRegistry × Bool :=
  if sessionId = 0 ∨ playerId = 0 then (g, false)
  else if sessionId ∈ g.bySession ∨ playerId ∈ g.byPlayer then (g, false)
  else
    ({ bySession := g.bySession.insert sessionId { sessionId, playerId }
       byPlayer := g.byPlayer.insert playerId sessionId }, true)

def unregisterBySession (g : PlayerRegistry) (sessionId : SessionId) :
    PlayerRegistry × Option PlayerRecord :=
  match g.bySession.lookup sessionId with
  | none => (g, none)
  | some record =>
    ({ bySession := g.bySession.erase sessionId
       byPlayer := g.byPlayer.erase record.playerId }, some record)

def unregisterByPlayer (g : PlayerRegistry) (playerId : PlayerId) :
    PlayerRegistry × Option PlayerRecord :=
  match g.byPlayer.lookup playerId with
  | none => (g, none)
  | some sessionId =>
    match g.bySession.lookup sessionId with
    | none => ({ g with byPlayer := g.byPlayer.erase playerId }, none)
    | some record =>
      ({ bySession := g.bySession.erase sessionId
         byPlayer := g.byPlayer.erase playerId }, some record)

def bindRoomLocked (roomId : RoomId) (room : RoomPtr) (record : PlayerRecord) :
    PlayerRecord × Bool :=
  if roomId = 0 ∨ room = none then (record, false)
  else ({ record with roomId, room }, true)

def clearRoomLocked (record : PlayerRecord) : PlayerRecord × Bool :=
  ({ record with roomId := 0, room := none }, true)

/-- `f` works on the record of the session, if there is one. -/
def editBySession (g : PlayerRegistry) (f : PlayerRecord → PlayerRecord × Bool)
    (sessionId : SessionId) : PlayerRegistry × Bool :=
  match g.bySession.lookup sessionId with
  | none => (g, false)
  | some record =>
    ({ g with bySession := g.bySession.insert sessionId (f record).1 }, (f record).2)

/-- The same, with the session looked up by the player. -/
def editByPlayer (g : PlayerRegistry) (f : PlayerRecord → PlayerRecord × Bool)
    (playerId : PlayerId) : PlayerRegistry × Bool :=
  match g.byPlayer.lookup playerId with
  | none => (g, false)
  | some sessionId => g.editBySession f sessionId

def bindRoomBySession (g : PlayerRegistry) (sessionId : SessionId) (roomId : RoomId)
    (room : RoomPtr) : PlayerRegistry × Bool :=
  g.editBySession (bindRoomLocked roomId room) sessionId

def bindRoomByPlayer (g : PlayerRegistry) (playerId : PlayerId) (roomId : RoomId)
    (room : RoomPtr) : PlayerRegistry × Bool :=
  g.editByPlayer (bindRoomLocked roomId room) playerId

def clearRoomBySession (g : PlayerRegistry) (sessionId : SessionId) : PlayerRegistry × Bool :=
  g.editBySession clearRoomLocked sessionId

def clearRoomByPlayer (g : PlayerRegistry) (playerId : PlayerId) : PlayerRegistry × Bool :=
  g.editByPlayer clearRoomLocked playerId

def findBySession (g : PlayerRegistry) (sessionId : SessionId) : Option PlayerRecord :=
  g.bySession.lookup sessionId

def findByPlayer (g : PlayerRegistry) (playerId : PlayerId) : Option PlayerRecord :=
  match g.byPlayer.lookup playerId with
  | none => none
  | some sessionId => g.bySession.lookup sessionId

/-! ## Histories -/

inductive RegistryCall where
  | register (sessionId : SessionId) (playerId : PlayerId)
  | unregisterBySession (sessionId : SessionId)
  | unregisterByPlayer (playerId : PlayerId)
  | bindRoomBySession (sessionId : SessionId) (roomId : RoomId) (room : RoomPtr)
  | bindRoomByPlayer (playerId : PlayerId) (roomId : RoomId) (room : RoomPtr)
  | clearRoomBySession (sessionId : SessionId)
  | clearRoomByPlayer (playerId : PlayerId)
  deriving DecidableEq, Repr

/-- The registry after a call, and whether the call returned something other
than `false` or `nullopt`. -/
def apply (g : PlayerRegistry) : RegistryCall → PlayerRegistry × Bool
  | .register s p => g.register s p
  | .unregisterBySession s => ((g.unregisterBySession s).1, (g.unregisterBySession s).2.isSome)
  | .unregisterByPlayer p => ((g.unregisterByPlayer p).1, (g.unregisterByPlayer p).2.isSome)
  | .bindRoomBySession s roomId room => g.bindRoomBySession s roomId room
  | .bindRoomByPlayer p roomId room => g.bindRoomByPlayer p roomId room
  | .clearRoomBySession s => g.clearRoomBySession s
  | .clearRoomByPlayer p => g.clearRoomByPlayer p

def run (calls : List RegistryCall) : PlayerRegistry :=
  calls.foldl (fun g c => (g.apply c).1) {}

/-- The session whose record a `BindRoom` or `ClearRoom` call is about. -/
def addressed (g : PlayerRegistry) : RegistryCall → Option SessionId
  | .bindRoomBySession s _ _ | .clearRoomBySession s => some s
  | .bindRoomByPlayer p _ _ | .clearRoomByPlayer p => g.byPlayer.lookup p
  | _ => none

def isRoomCall : RegistryCall → Bool
  | .bindRoomBySession .. | .clearRoomBySession _ | .bindRoomByPlayer .. | .clearRoomByPlayer _ =>
    true
  | _ => false

/-! ## The two maps -/

/-- The maps are inverse to each other, a record stands under its own session,
and no id is zero. -/
structure Linked (g : PlayerRegistry) : Prop where
  inverse : ∀ p s, g.byPlayer.lookup p = some s ↔
    ∃ r, g.bySession.lookup s = some r ∧ r.sessionId = s ∧ r.playerId = p
  own : ∀ s r, g.bySession.lookup s = some r → r.sessionId = s
  nonzero : ∀ s r, g.bySession.lookup s = some r → r.sessionId ≠ 0 ∧ r.playerId ≠ 0

variable {g : PlayerRegistry} {s : SessionId} {p : PlayerId} {r : PlayerRecord}

namespace Linked

theorem lookup_player (h : g.Linked) (hs : g.bySession.lookup s = some r) :
    g.byPlayer.lookup r.playerId = some s :=
  (h.inverse _ _).2 ⟨r, hs, h.own s r hs, rfl⟩

theorem lookup_session (h : g.Linked) (hp : g.byPlayer.lookup p = some s) :
    ∃ r, g.bySession.lookup s = some r ∧ r.playerId = p := by
  obtain ⟨r, hs, -, hr⟩ := (h.inverse p s).1 hp
  exact ⟨r, hs, hr⟩

/-- Sessions and their players. -/
def pairs (h : g.Linked) : SessionId ≃. PlayerId where
  toFun s := (g.bySession.lookup s).map PlayerRecord.playerId
  invFun p := g.byPlayer.lookup p
  inv s p := by
    rw [h.inverse, Option.map_eq_some_iff]
    constructor
    · rintro ⟨r, hs, -, hr⟩
      exact ⟨r, hs, hr⟩
    · rintro ⟨r, hs, hr⟩
      exact ⟨r, hs, h.own s r hs, hr⟩

theorem empty : ({} : PlayerRegistry).Linked := by
  refine ⟨fun p s => ?_, ?_, ?_⟩ <;> simp

theorem register (h : g.Linked) (hs : s ≠ 0) (hp : p ≠ 0) (hns : s ∉ g.bySession)
    (hnp : p ∉ g.byPlayer) :
    Linked { bySession := g.bySession.insert s { sessionId := s, playerId := p }
             byPlayer := g.byPlayer.insert p s } := by
  have hs' := Finmap.lookup_eq_none.2 hns
  have hp' := Finmap.lookup_eq_none.2 hnp
  refine ⟨fun q t => ?_, fun t r ht => ?_, fun t r ht => ?_⟩
  · -- the new session has no other player, and the new player no other session
    by_cases hq : q = p
    · subst hq
      rw [Finmap.lookup_insert]
      by_cases ht : t = s
      · subst ht
        simp
      · rw [Finmap.lookup_insert_of_ne _ ht]
        constructor
        · rintro ⟨⟩
          exact absurd rfl ht
        · rintro ⟨r, hr, -, rfl⟩
          exact absurd (h.lookup_player hr) (by simp [hp'])
    · rw [Finmap.lookup_insert_of_ne _ hq, h.inverse]
      by_cases ht : t = s
      · subst ht
        simp [hs', Ne.symm hq]
      · rw [Finmap.lookup_insert_of_ne _ ht]
  · by_cases he : t = s
    · subst he
      rw [Finmap.lookup_insert] at ht
      cases ht
      rfl
    · rw [Finmap.lookup_insert_of_ne _ he] at ht
      exact h.own t r ht
  · by_cases he : t = s
    · subst he
      rw [Finmap.lookup_insert] at ht
      cases ht
      exact ⟨hs, hp⟩
    · rw [Finmap.lookup_insert_of_ne _ he] at ht
      exact h.nonzero t r ht

/-- A pair leaves both maps. -/
theorem erase (h : g.Linked) (hs : g.bySession.lookup s = some r) :
    Linked { bySession := g.bySession.erase s, byPlayer := g.byPlayer.erase r.playerId } := by
  have kept : ∀ t q, (g.bySession.erase s).lookup t = some q →
      t ≠ s ∧ g.bySession.lookup t = some q := by
    intro t q ht
    by_cases he : t = s
    · subst he
      rw [Finmap.lookup_erase] at ht
      cases ht
    · exact ⟨he, by rwa [Finmap.lookup_erase_ne he] at ht⟩
  refine ⟨fun q t => ?_, fun t q ht => h.own t q (kept t q ht).2,
    fun t q ht => h.nonzero t q (kept t q ht).2⟩
  by_cases hq : q = r.playerId
  · subst hq
    rw [Finmap.lookup_erase]
    refine ⟨fun ht => (by cases ht), ?_⟩
    rintro ⟨r', ht, -, hr'⟩
    -- another record with the player of `r` would stand under the same session
    obtain ⟨hne, ht⟩ := kept t r' ht
    have h1 := h.lookup_player ht
    rw [hr', h.lookup_player hs] at h1
    exact absurd (Option.some.inj h1).symm hne
  · rw [Finmap.lookup_erase_ne hq, h.inverse]
    constructor
    · rintro ⟨r', ht, h1, h2⟩
      have hne : t ≠ s := by
        rintro rfl
        rw [hs] at ht
        cases ht
        exact hq h2.symm
      exact ⟨r', by rwa [Finmap.lookup_erase_ne hne], h1, h2⟩
    · rintro ⟨r', ht, h1, h2⟩
      exact ⟨r', (kept t r' ht).2, h1, h2⟩

end Linked

/-- `f` leaves the ids of a record alone, and the record too when it fails. -/
structure EditsRoom (f : PlayerRecord → PlayerRecord × Bool) : Prop where
  sessionId : ∀ r, (f r).1.sessionId = r.sessionId
  playerId : ∀ r, (f r).1.playerId = r.playerId
  failed : ∀ r, (f r).2 = false → (f r).1 = r

theorem editsRoom_bindRoomLocked (roomId : RoomId) (room : RoomPtr) :
    EditsRoom (bindRoomLocked roomId room) := by
  refine ⟨fun r => ?_, fun r => ?_, fun r hr => ?_⟩ <;> unfold bindRoomLocked at *
  · split <;> rfl
  · split <;> rfl
  · split at hr
    · next hb => rw [if_pos hb]
    · cases hr

theorem editsRoom_clearRoomLocked : EditsRoom clearRoomLocked :=
  ⟨fun _ => rfl, fun _ => rfl, fun _ h => by cases h⟩

/-- What an edit of the record of `s` can do. -/
structure Edits (g : PlayerRegistry) (s : Option SessionId) (x : PlayerRegistry × Bool) :
    Prop where
  byPlayer : x.1.byPlayer = g.byPlayer
  other : ∀ t, s ≠ some t → x.1.bySession.lookup t = g.bySession.lookup t
  ids : ∀ t, (x.1.bySession.lookup t).map (fun r => (r.sessionId, r.playerId)) =
    (g.bySession.lookup t).map fun r => (r.sessionId, r.playerId)
  failed : x.2 = false → x.1 = g

theorem edits_same (g : PlayerRegistry) (s : Option SessionId) : Edits g s (g, false) :=
  ⟨rfl, fun _ _ => rfl, fun _ => rfl, fun _ => rfl⟩

theorem edits_editBySession {f : PlayerRecord → PlayerRecord × Bool} (hf : EditsRoom f)
    (g : PlayerRegistry) (s : SessionId) : Edits g (some s) (g.editBySession f s) := by
  unfold editBySession
  split
  · exact edits_same g _
  · next r hr =>
    refine ⟨rfl, fun t ht => ?_, fun t => ?_, fun hfail => ?_⟩
    · exact Finmap.lookup_insert_of_ne _ fun he => ht (by rw [he])
    · by_cases he : t = s
      · subst he
        simp [hr, hf.sessionId, hf.playerId]
      · rw [Finmap.lookup_insert_of_ne _ he]
    · have hm : g.bySession.insert s (f r).1 = g.bySession := by
        refine Finmap.ext_lookup fun t => ?_
        by_cases he : t = s
        · subst he
          rw [Finmap.lookup_insert, hr, hf.failed r hfail]
        · rw [Finmap.lookup_insert_of_ne _ he]
      rw [hm]

theorem edits_editByPlayer {f : PlayerRecord → PlayerRecord × Bool} (hf : EditsRoom f)
    (g : PlayerRegistry) (p : PlayerId) :
    Edits g (g.byPlayer.lookup p) (g.editByPlayer f p) := by
  unfold editByPlayer
  split
  · exact edits_same g _
  · next s hs =>
    rw [hs]
    exact edits_editBySession hf g s

/-- A record that was edited has the ids it had. -/
theorem Edits.lookup {x : PlayerRegistry × Bool} {t : Option SessionId} (h : Edits g t x)
    (hs : x.1.bySession.lookup s = some r) :
    ∃ r', g.bySession.lookup s = some r' ∧ r'.sessionId = r.sessionId ∧
      r'.playerId = r.playerId := by
  have hi := h.ids s
  rw [hs] at hi
  obtain ⟨r', hr', he⟩ := Option.map_eq_some_iff.1 hi.symm
  obtain ⟨h1, h2⟩ := Prod.mk.inj he
  exact ⟨r', hr', h1, h2⟩

theorem Edits.symm_lookup {x : PlayerRegistry × Bool} {t : Option SessionId} (h : Edits g t x)
    (hs : g.bySession.lookup s = some r) :
    ∃ r', x.1.bySession.lookup s = some r' ∧ r'.sessionId = r.sessionId ∧
      r'.playerId = r.playerId := by
  have hi := h.ids s
  rw [hs] at hi
  obtain ⟨r', hr', he⟩ := Option.map_eq_some_iff.1 hi
  obtain ⟨h1, h2⟩ := Prod.mk.inj he
  exact ⟨r', hr', h1, h2⟩

theorem Linked.edit (h : g.Linked) {x : PlayerRegistry × Bool} {t : Option SessionId}
    (he : Edits g t x) : x.1.Linked := by
  refine ⟨fun p s => ?_, fun s r hs => ?_, fun s r hs => ?_⟩
  · rw [he.byPlayer, h.inverse]
    constructor
    · rintro ⟨r, hs, h1, h2⟩
      obtain ⟨r', hs', h1', h2'⟩ := he.symm_lookup hs
      exact ⟨r', hs', h1'.trans h1, h2'.trans h2⟩
    · rintro ⟨r, hs, h1, h2⟩
      obtain ⟨r', hs', h1', h2'⟩ := he.lookup hs
      exact ⟨r', hs', h1'.trans h1, h2'.trans h2⟩
  · obtain ⟨r', hs', h1, -⟩ := he.lookup hs
    rw [← h1]
    exact h.own s r' hs'
  · obtain ⟨r', hs', h1, h2⟩ := he.lookup hs
    rw [← h1, ← h2]
    exact h.nonzero s r' hs'

/-! ## One call -/

theorem edits_apply {c : RegistryCall} (hc : isRoomCall c = true) :
    Edits g (g.addressed c) (g.apply c) := by
  cases c with
  | bindRoomBySession s roomId room =>
    exact edits_editBySession (editsRoom_bindRoomLocked roomId room) g s
  | bindRoomByPlayer p roomId room =>
    exact edits_editByPlayer (editsRoom_bindRoomLocked roomId room) g p
  | clearRoomBySession s => exact edits_editBySession editsRoom_clearRoomLocked g s
  | clearRoomByPlayer p => exact edits_editByPlayer editsRoom_clearRoomLocked g p
  | _ => cases hc

/-- Every call keeps the maps linked, and one that fails keeps them as they are. -/
theorem apply_linked (h : g.Linked) (c : RegistryCall) :
    (g.apply c).1.Linked ∧ ((g.apply c).2 = false → (g.apply c).1 = g) := by
  cases hc : isRoomCall c with
  | true => exact ⟨h.edit (edits_apply hc), (edits_apply hc).failed⟩
  | false =>
    cases c with
    | register s p =>
      simp only [apply, register]
      split
      · exact ⟨h, fun _ => rfl⟩
      · next hz =>
        split
        · exact ⟨h, fun _ => rfl⟩
        · next hn =>
          rw [not_or] at hz hn
          exact ⟨h.register hz.1 hz.2 hn.1 hn.2, fun he => by cases he⟩
    | unregisterBySession s =>
      simp only [apply, unregisterBySession]
      split
      · exact ⟨h, fun _ => rfl⟩
      · next r hr => exact ⟨h.erase hr, fun he => by cases he⟩
    | unregisterByPlayer p =>
      simp only [apply, unregisterByPlayer]
      split
      · exact ⟨h, fun _ => rfl⟩
      · next s hp =>
        obtain ⟨r, hs, hr⟩ := h.lookup_session hp
        subst hr
        simp only [hs]
        exact ⟨h.erase hs, fun he => by cases he⟩
    | _ => cases hc

theorem linked_run (calls : List RegistryCall) : (run calls).Linked :=
  List.foldlRecOn calls _ Linked.empty fun _ hg c _ => (apply_linked hg c).1

/-- **The registry is a bijection.** After any calls the two maps are linked,
each player of the index has a record, found by either key; the next call
leaves the maps alone when it fails, and when it binds or clears a room it
changes at most the room of the record it is about. -/
theorem registry_bijection (calls : List RegistryCall) (c : RegistryCall) :
    (run calls).Linked ∧
      (∀ p s, (run calls).byPlayer.lookup p = some s →
        ∃ r, (run calls).findBySession s = some r ∧ (run calls).findByPlayer p = some r) ∧
      (((run calls).apply c).2 = false → ((run calls).apply c).1 = run calls) ∧
      (isRoomCall c = true → Edits (run calls) ((run calls).addressed c) ((run calls).apply c)) := by
  have h := linked_run calls
  refine ⟨h, fun p s hp => ?_, (apply_linked h c).2, edits_apply⟩
  obtain ⟨r, hs, -⟩ := h.lookup_session hp
  refine ⟨r, hs, ?_⟩
  simp only [findByPlayer, hp]
  exact hs

end PlayerRegistry

end IouringRuntime
