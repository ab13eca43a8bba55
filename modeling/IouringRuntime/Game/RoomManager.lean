import Mathlib.Data.Finset.Card
import IouringRuntime.Game.PlayerRegistry
import IouringRuntime.Reentrant.Trace

/-!
# The room manager

`RoomManager` (`game/RoomManager.h`) gives out room ids from a 32-bit counter
that wraps, skipping 0 and the ids in use; rooms with any id can be added from
outside. Every function runs under the manager's mutex, so that a history is a
sequence of calls.

Before the counter has come round once, the values it passes are distinct, and
those it skips are 0 and keys of the map: the search ends within
`rooms_.size() + 2` increments whenever a non-zero id is free
(`nextRoomIdLocked_fresh`, `room_ids_fresh`).
-/

namespace IouringRuntime

/-- A `shared_ptr<Room>`: the object it points to, and what `Id` and `Name` say. -/
structure Room where
  object : Nat
  id : RoomId
  name : String
  deriving DecidableEq, Repr

/-- A room type with the arguments for its constructor but the id, which it
passes on to `Room`. -/
structure RoomType where
  make : RoomId → Room
  id_make : ∀ id, (make id).id = id

/-- `Room` itself; the allocator puts the object at `object`. -/
def Room.plain (object : Nat) (name : String) : RoomType where
  make id := { object, id, name }
  id_make _ := rfl

structure RoomManager where
  nextRoomId : RoomId := 1
  rooms : Finmap (fun _ : RoomId => Room) := ∅

namespace RoomManager

/-- The loop of `NextRoomIdLocked` and its last increment; `none` if it takes
more than `fuel` increments. -/
def nextRoomIdLocked : Nat → RoomManager → Option (RoomManager × RoomId)
  | 0, _ => none
  | fuel + 1, m =>
    if m.nextRoomId = 0 ∨ m.nextRoomId ∈ m.rooms then
      nextRoomIdLocked fuel { m with nextRoomId := m.nextRoomId + 1 }
    else some ({ m with nextRoomId := m.nextRoomId + 1 }, m.nextRoomId)

/-- `rooms_.emplace`: a key that is present is left as it is. -/
def emplace (m : RoomManager) (id : RoomId) (room : Room) : RoomManager × Bool :=
  if id ∈ m.rooms then (m, false) else ({ m with rooms := m.rooms.insert id room }, true)

def createRoomAs (fuel : Nat) (m : RoomManager) (T : RoomType) : Option (RoomManager × Room) :=
  (m.nextRoomIdLocked fuel).map fun r => ((r.1.emplace r.2 (T.make r.2)).1, T.make r.2)

def createRoom (fuel : Nat) (m : RoomManager) (object : Nat) (name : String) :
    Option (RoomManager × Room) :=
  createRoomAs fuel m (Room.plain object name)

/-- `none` is a null pointer. -/
def addRoom (m : RoomManager) : Option Room → RoomManager × Bool
  | none => (m, false)
  | some room => m.emplace room.id room

def removeRoom (m : RoomManager) (id : RoomId) : RoomManager × Bool :=
  ({ m with rooms := m.rooms.erase id }, id ∈ m.rooms)

inductive RoomCall where
  | createRoom (object : Nat) (name : String)
  | createRoomAs (T : RoomType)
  | addRoom (room : Option Room)
  | removeRoom (id : RoomId)

/-- The number of values of the counter, and the last increment. A search that
takes more never ends, and the call does not return. -/
def kSearch : Nat := 0x100000001

def step (m : RoomManager) : RoomCall → Option RoomManager
  | .createRoom object name => (m.createRoom kSearch object name).map (·.1)
  | .createRoomAs T => (m.createRoomAs kSearch T).map (·.1)
  | .addRoom room => some (m.addRoom room).1
  | .removeRoom id => some (m.removeRoom id).1

/-! ## The search -/

/-- Of more than `B.card` distinct values one is outside `B`; the first such one
comes after at most `B.card` others. -/
theorem first_outside {α : Type} [DecidableEq α] {f : Nat → α} {N : Nat}
    (hf : Set.InjOn f (Finset.range N)) {B : Finset α} (hB : B.card < N) :
    ∃ k ≤ B.card, f k ∉ B ∧ ∀ j < k, f j ∈ B := by
  have hex : ∃ k, k ≤ B.card ∧ f k ∉ B := by
    by_contra hno
    push Not at hno
    have hle : (Finset.range (B.card + 1)).card ≤ B.card := by
      refine Finset.card_le_card_of_injOn f (fun k hk => ?_) (hf.mono fun k hk => ?_)
      · exact hno k (Nat.lt_succ_iff.1 (Finset.mem_range.1 hk))
      · simp only [Finset.coe_range, Set.mem_Iio] at hk ⊢
        omega
    rw [Finset.card_range] at hle
    omega
  refine ⟨Nat.find hex, (Nat.find_spec hex).1, (Nat.find_spec hex).2, fun j hj => ?_⟩
  have hmin := Nat.find_min hex hj
  have hle := (Nat.find_spec hex).1
  by_contra hout
  exact hmin ⟨by omega, hout⟩

/-- The values that the search skips. -/
def skipped (m : RoomManager) : Finset RoomId := insert 0 m.rooms.keys

theorem mem_skipped {m : RoomManager} {id : RoomId} :
    id ∈ m.skipped ↔ id = 0 ∨ id ∈ m.rooms := by
  rw [skipped, Finset.mem_insert, Finmap.mem_keys]

theorem card_skipped_le (m : RoomManager) : m.skipped.card ≤ m.rooms.keys.card + 1 :=
  Finset.card_insert_le _ _

theorem card_lt_of_not_mem {B : Finset RoomId} {id : RoomId} (h : id ∉ B) :
    B.card < 0x100000000 := by
  have hle : (insert id B).card ≤ (Finset.range (0x100000000)).card :=
    Finset.card_le_card_of_injOn UInt32.toNat (fun k _ => Finset.mem_range.2 k.toNat_lt)
      fun _ _ _ _ he => UInt32.toNat_inj.1 he
  rw [Finset.card_range, Finset.card_insert_of_notMem h] at hle
  omega

/-- The counter passes distinct values until it has come round. -/
theorem counter_injOn (n : RoomId) :
    Set.InjOn (fun k => n + UInt32.ofNat k) (Finset.range (0x100000000)) := by
  intro i hi j hj he
  simp only [Finset.coe_range, Set.mem_Iio] at hi hj
  have hij := congrArg UInt32.toNat ((UInt32.add_right_inj n).1 he)
  rwa [UInt32.toNat_ofNat_of_lt' hi, UInt32.toNat_ofNat_of_lt' hj] at hij

/-- The search takes the first value of the counter that it does not skip. -/
theorem nextRoomIdLocked_eq (fuel k : Nat) : ∀ m : RoomManager,
    (∀ j < k, m.nextRoomId + UInt32.ofNat j ∈ m.skipped) →
    m.nextRoomId + UInt32.ofNat k ∉ m.skipped → k < fuel →
    m.nextRoomIdLocked fuel =
      some ({ m with nextRoomId := m.nextRoomId + UInt32.ofNat k + 1 },
        m.nextRoomId + UInt32.ofNat k) := by
  induction k generalizing fuel with
  | zero =>
    intro m _ hfree hlt
    obtain ⟨fuel, rfl⟩ : ∃ f, fuel = f + 1 := ⟨fuel - 1, by omega⟩
    have hz : m.nextRoomId + UInt32.ofNat 0 = m.nextRoomId := UInt32.add_zero _
    rw [hz] at hfree ⊢
    rw [nextRoomIdLocked, if_neg (mt mem_skipped.2 hfree)]
  | succ k ih =>
    intro m hskip hfree hlt
    obtain ⟨fuel, rfl⟩ : ∃ f, fuel = f + 1 := ⟨fuel - 1, by omega⟩
    have hnext (j : Nat) :
        m.nextRoomId + 1 + UInt32.ofNat j = m.nextRoomId + UInt32.ofNat (j + 1) := by
      rw [UInt32.ofNat_add, UInt32.add_assoc, UInt32.add_comm 1]
      rfl
    have h0 : m.nextRoomId ∈ m.skipped := by
      have := hskip 0 (by omega)
      rwa [show m.nextRoomId + UInt32.ofNat 0 = m.nextRoomId from UInt32.add_zero _] at this
    rw [nextRoomIdLocked, if_pos (mem_skipped.1 h0)]
    have := ih fuel { m with nextRoomId := m.nextRoomId + 1 }
      (fun j hj => by rw [hnext]; exact hskip (j + 1) (by omega)) (by rw [hnext]; exact hfree)
      (by omega)
    rw [this, hnext]

/-- With a non-zero id free the search ends within `rooms_.size() + 2` increments
at a fresh id, and changes nothing but the counter. -/
theorem nextRoomIdLocked_fresh (m : RoomManager) (hfree : ∃ id, id ≠ 0 ∧ id ∉ m.rooms) :
    ∃ id, id ≠ 0 ∧ id ∉ m.rooms ∧ ∀ fuel ≥ m.rooms.keys.card + 2,
      m.nextRoomIdLocked fuel = some ({ m with nextRoomId := id + 1 }, id) := by
  obtain ⟨free, hne, hnot⟩ := hfree
  have hcard : m.skipped.card < 0x100000000 :=
    card_lt_of_not_mem fun h => (mem_skipped.1 h).elim hne hnot
  obtain ⟨k, hk, hout, hin⟩ := first_outside (counter_injOn m.nextRoomId) hcard
  have hle := card_skipped_le m
  have hid := not_or.1 (mt mem_skipped.2 hout)
  refine ⟨m.nextRoomId + UInt32.ofNat k, hid.1, hid.2, fun fuel hf => ?_⟩
  exact nextRoomIdLocked_eq fuel k m hin hout (by omega)

theorem free_of_nextRoomIdLocked (fuel : Nat) : ∀ {m : RoomManager} {r : RoomManager × RoomId},
    m.nextRoomIdLocked fuel = some r → r.2 ≠ 0 ∧ r.2 ∉ m.rooms := by
  induction fuel with
  | zero => intro m r h; cases h
  | succ fuel ih =>
    intro m r h
    rw [nextRoomIdLocked] at h
    split at h
    · exact ih (m := { m with nextRoomId := m.nextRoomId + 1 }) h
    · next hfree => cases h; exact not_or.1 hfree

/-- `kSearch` increments decide: with no id free the search never ends. -/
theorem nextRoomIdLocked_kSearch (m : RoomManager) :
    (m.nextRoomIdLocked kSearch).isSome ↔ ∃ id, id ≠ 0 ∧ id ∉ m.rooms := by
  constructor
  · intro h
    obtain ⟨r, hr⟩ := Option.isSome_iff_exists.1 h
    exact ⟨r.2, free_of_nextRoomIdLocked kSearch hr⟩
  · intro h
    obtain ⟨id, -, hnot, hsearch⟩ := nextRoomIdLocked_fresh m h
    have hcard := card_lt_of_not_mem (mt Finmap.mem_keys.1 hnot)
    rw [hsearch kSearch (by rw [kSearch]; omega)]
    rfl

/-! ## Histories -/

/-- Every room stands under its own id. -/
def Keyed (m : RoomManager) : Prop :=
  ∀ id room, m.rooms.lookup id = some room → room.id = id

theorem keyed_emplace {m : RoomManager} {id : RoomId} {room : Room} (hm : Keyed m)
    (hr : room.id = id) : Keyed (m.emplace id room).1 := by
  rw [emplace]
  split
  · exact hm
  · intro key r hl
    by_cases hk : key = id
    · subst hk
      rw [Finmap.lookup_insert] at hl
      cases hl
      exact hr
    · rw [Finmap.lookup_insert_of_ne _ hk] at hl
      exact hm key r hl

theorem rooms_nextRoomIdLocked (fuel : Nat) : ∀ {m : RoomManager} {r : RoomManager × RoomId},
    m.nextRoomIdLocked fuel = some r → r.1.rooms = m.rooms := by
  induction fuel with
  | zero => intro m r h; cases h
  | succ fuel ih =>
    intro m r h
    rw [nextRoomIdLocked] at h
    split at h
    · exact (ih h).trans rfl
    · cases h; rfl

theorem keyed_createRoomAs {m m' : RoomManager} {fuel : Nat} {T : RoomType} (hm : Keyed m)
    (h : (m.createRoomAs fuel T).map (·.1) = some m') : Keyed m' := by
  rw [createRoomAs, Option.map_map] at h
  obtain ⟨r, hr, rfl⟩ := Option.map_eq_some_iff.1 h
  refine keyed_emplace ?_ (T.id_make r.2)
  rw [Keyed, rooms_nextRoomIdLocked fuel hr]
  exact hm

theorem keyed_step {m m' : RoomManager} {c : RoomCall} (hm : Keyed m) (h : step m c = some m') :
    Keyed m' := by
  cases c with
  | createRoom object name => exact keyed_createRoomAs hm h
  | createRoomAs T => exact keyed_createRoomAs hm h
  | addRoom room =>
    cases h
    cases room with
    | none => exact hm
    | some room => exact keyed_emplace hm rfl
  | removeRoom id =>
    cases h
    intro key room hl
    by_cases hk : key = id
    · subst hk
      rw [removeRoom, Finmap.lookup_erase] at hl
      cases hl
    · rw [removeRoom, Finmap.lookup_erase_ne hk] at hl
      exact hm key room hl

theorem addRoom_rejected (m : RoomManager) (room : Option Room)
    (h : (m.addRoom room).2 = false) : (m.addRoom room).1 = m := by
  cases room with
  | none => rfl
  | some room =>
    rw [addRoom, emplace] at h ⊢
    split at h
    · next hin => rw [if_pos hin]
    · cases h

/-- In every state reached by any calls, from any value of the counter: each room
stands under its own id; a rejected `AddRoom` changes nothing; and if a non-zero
id is free, the search ends within `rooms_.size() + 2` increments at a non-zero id
that is not in use, under which `CreateRoomAs` puts the new room beside the
others. -/
theorem room_ids_fresh {n : RoomId} {m : RoomManager}
    (hr : Trace.Reachable step { nextRoomId := n } m) :
    (∀ id room, m.rooms.lookup id = some room → room.id = id) ∧
    (∀ room, (m.addRoom room).2 = false → (m.addRoom room).1 = m) ∧
    ((∃ id, id ≠ 0 ∧ id ∉ m.rooms) →
      ∃ id, id ≠ 0 ∧ id ∉ m.rooms ∧ ∀ fuel ≥ m.rooms.keys.card + 2,
        m.nextRoomIdLocked fuel = some ({ m with nextRoomId := id + 1 }, id) ∧
        ∀ T, m.createRoomAs fuel T =
          some ({ nextRoomId := id + 1, rooms := m.rooms.insert id (T.make id) }, T.make id)) := by
  have hkeyed : Keyed m :=
    hr.invariant (fun _ _ _ hm hs => keyed_step hm hs) fun _ _ h => by cases h
  refine ⟨hkeyed, addRoom_rejected m, fun hfree => ?_⟩
  obtain ⟨id, hne, hnot, hsearch⟩ := nextRoomIdLocked_fresh m hfree
  refine ⟨id, hne, hnot, fun fuel hf => ⟨hsearch fuel hf, fun T => ?_⟩⟩
  rw [createRoomAs, hsearch fuel hf, Option.map_some, emplace, if_neg hnot]

/-- The counter is at its last value, and that id has been added from outside. -/
def atWrap : RoomManager :=
  (addRoom { nextRoomId := 0xFFFFFFFF } (some { object := 0, id := 0xFFFFFFFF, name := "" })).1

theorem room_ids_fresh_atWrap :
    (∀ id room, atWrap.rooms.lookup id = some room → room.id = id) ∧
    (∀ room, (atWrap.addRoom room).2 = false → (atWrap.addRoom room).1 = atWrap) ∧
    ∃ id, id ≠ 0 ∧ id ∉ atWrap.rooms ∧ ∀ fuel ≥ atWrap.rooms.keys.card + 2,
      atWrap.nextRoomIdLocked fuel = some ({ atWrap with nextRoomId := id + 1 }, id) ∧
      ∀ T, atWrap.createRoomAs fuel T =
        some ({ nextRoomId := id + 1, rooms := atWrap.rooms.insert id (T.make id) },
          T.make id) := by
  have hr : Trace.Reachable step { nextRoomId := 0xFFFFFFFF } atWrap :=
    .step (.addRoom (some { object := 0, id := 0xFFFFFFFF, name := "" })) .refl rfl
  obtain ⟨hkeyed, hadd, hcreate⟩ := room_ids_fresh hr
  exact ⟨hkeyed, hadd, hcreate ⟨1, by decide, by decide⟩⟩

example : ((atWrap.createRoomAs 3 (Room.plain 1 "")).map (·.2.id)) = some 1 := by decide

end RoomManager

end IouringRuntime
