import ChatApp.Foundation.Tally
import ChatApp.Server.Routines
import ChatApp.Server.Schedule

/-!
# Rooms and members

The invariant that links the rooms' arrays and counters to the client records.
A room on its own is `Room.Ok`.  Across the tables, a client is in the array
of room `i` exactly when it is `Resident` there: live, in the state
`IN_CHAT_ROOM`, with `room_index` equal to `i`, and not between `leave_room`
and the end of its departure.
-/

namespace ChatApp.Server

open ChatApp.Foundation

variable {N C : Nat}

/-! ## One room -/

/-- The number of non-NULL entries of a room's array. -/
def Room.occupancy (room : Room N C) : Nat :=
  tally Option.isSome room.clients

/-- The client is in the room's array. -/
def Room.Has (room : Room N C) (c : ClientPtr N C) : Prop :=
  ∃ j, room.clients j = some c

/-- The counter of a room counts its clients, and the room is in use while there
are any. -/
structure Room.Counted (room : Room N C) : Prop where
  count : room.numClients = room.occupancy
  inUse_iff : room.inUse = true ↔ 0 < room.numClients

/-- What holds of a room whenever its lock is free. -/
structure Room.Ok (room : Room N C) : Prop extends Room.Counted room where
  freeName : room.inUse = false → room.roomName = []
  nameLen : room.roomName.length ≤ maxRoomNameLen
  once : ∀ j k c, room.clients j = some c → room.clients k = some c → j = k

namespace Room.Counted

variable {room : Room N C} {c : ClientPtr N C}

theorem zero (N C : Nat) : (Room.zero N C).Counted := by
  have htally : tally Option.isSome
      (fun _ : Fin maxClientsRoom => (none : Option (ClientPtr N C))) = 0 :=
    tally_const_false rfl
  constructor
  · simp [Room.occupancy, Room.zero, htally]
  · simp [Room.zero]

/-- The counter stays within the array. -/
theorem bounds (h : room.Counted) :
    0 ≤ room.numClients ∧ room.numClients ≤ maxClientsRoom := by
  have hle := tally_le_card Option.isSome room.clients
  rw [Fintype.card_fin] at hle
  have hcount := h.count
  unfold Room.occupancy at hcount
  omega

/-- A free room has an all-NULL array. -/
theorem clients_of_free (h : room.Counted) (hfree : room.inUse = false)
    (j : Fin maxClientsRoom) : room.clients j = none := by
  have hcount := h.count
  have hiff := h.inUse_iff
  rw [hfree] at hiff
  have hzero : room.occupancy = 0 := by
    by_contra hne
    exact absurd (hiff.mpr (by omega)) (by simp)
  have hnone := (tally_eq_zero_iff _ _).mp hzero j
  simpa using hnone

theorem inUse_of_has (h : room.Counted) (hc : room.Has c) :
    room.inUse = true := by
  obtain ⟨j, hj⟩ := hc
  by_contra hu
  have hnone := h.clients_of_free (by simpa using hu) j
  rw [hnone] at hj
  cases hj

theorem opened (h : room.Counted) (hfree : room.inUse = false)
    (name : Bytes) : (room.opened c name).Counted := by
  have hnone := h.clients_of_free hfree
  have hzero : tally Option.isSome room.clients = 0 :=
    (tally_eq_zero_iff _ _).mpr fun j => by simp [hnone j]
  have hupdate := tally_update Option.isSome room.clients
    ⟨0, by decide⟩ (some c)
  rw [hnone, hzero] at hupdate
  simp only [Option.isSome_none, Bool.toNat_false, Option.isSome_some,
    Bool.toNat_true] at hupdate
  constructor
  · simp only [Room.occupancy, Room.opened]
    omega
  · simp [Room.opened]

theorem added (h : room.Counted) (hinUse : room.inUse = true)
    {j : Fin maxClientsRoom} (hslot : room.clients j = none) :
    (room.added j c).Counted := by
  have hpos := h.inUse_iff.mp hinUse
  have hupdate := tally_update Option.isSome room.clients j (some c)
  rw [hslot] at hupdate
  simp only [Option.isSome_none, Bool.toNat_false, Option.isSome_some,
    Bool.toNat_true] at hupdate
  have hcount := h.count
  constructor
  · simp only [Room.occupancy, Room.added] at hcount ⊢
    omega
  · simp only [Room.added, hinUse, true_iff]
    omega

/-- The count of a room from which a member was removed. -/
theorem occupancy_remove {j : Fin maxClientsRoom} (h : room.Counted)
    (hj : room.clients j = some c) :
    room.numClients - 1 =
      tally Option.isSome (Function.update room.clients j none) := by
  have hupdate := tally_update Option.isSome room.clients j none
  rw [hj] at hupdate
  simp only [Option.isSome_none, Bool.toNat_false, Option.isSome_some,
    Bool.toNat_true] at hupdate
  have hcount := h.count
  simp only [Room.occupancy] at hcount
  omega

/-- Whoever is removed, the room that is emptied is freed. -/
theorem left (h : room.Counted) : (room.remove c).cleanUp.Counted := by
  have hnone : tally Option.isSome
      (fun _ : Fin maxClientsRoom => (none : Option (ClientPtr N C))) = 0 :=
    tally_const_false rfl
  unfold Room.cleanUp
  split
  · rename_i hzero
    constructor
    · simpa [Room.occupancy, hnone] using hzero
    · simpa using hzero.le
  · rename_i hpos
    cases hj : room.slotOf? c with
    | none =>
        rw [Room.remove_of_no_slot hj]
        exact h
    | some j =>
        have hslot := Room.slotOf?_some hj
        have hcount := h.occupancy_remove hslot
        have hinUse := h.inUse_of_has ⟨j, hslot⟩
        rw [Room.remove_of_slot hj] at hpos ⊢
        simp only at hpos
        refine ⟨hcount, ?_⟩
        simp only [hinUse, true_iff]
        omega

end Room.Counted

namespace Room.Ok

variable {room : Room N C} {c d : ClientPtr N C}

theorem zero (N C : Nat) : (Room.zero N C).Ok :=
  { toCounted := Room.Counted.zero N C
    freeName := fun _ => rfl
    nameLen := by simp [Room.zero]
    once := by simp [Room.zero] }

/-! ### Creation -/

theorem opened (h : room.Ok) (hfree : room.inUse = false) {name : Bytes}
    (hname : name.length ≤ maxRoomNameLen) : (room.opened c name).Ok := by
  have hnone := h.clients_of_free hfree
  refine
    { toCounted := h.toCounted.opened hfree name
      freeName := by simp [Room.opened]
      nameLen := hname
      once := ?_ }
  intro j k d hj hk
  have hat : ∀ i, Function.update room.clients ⟨0, by decide⟩ (some c) i =
      some d → i = ⟨0, by decide⟩ := by
    intro i hi
    by_contra hne
    rw [Function.update_of_ne hne, hnone] at hi
    cases hi
  rw [hat j hj, hat k hk]

theorem has_opened (h : room.Ok) (hfree : room.inUse = false)
    (name : Bytes) : (room.opened c name).Has d ↔ d = c := by
  have hnone := h.clients_of_free hfree
  constructor
  · rintro ⟨j, hj⟩
    simp only [Room.opened, Function.update_apply, hnone] at hj
    split at hj
    · exact (Option.some.inj hj).symm
    · cases hj
  · rintro rfl
    exact ⟨⟨0, by decide⟩, by simp [Room.opened]⟩

/-! ### Joining -/

theorem added (h : room.Ok) (hinUse : room.inUse = true)
    {j : Fin maxClientsRoom} (hslot : room.clients j = none)
    (hnot : ¬ room.Has c) : (room.added j c).Ok := by
  refine
    { toCounted := h.toCounted.added hinUse hslot
      freeName := h.freeName
      nameLen := h.nameLen
      once := ?_ }
  intro k l d hk hl
  simp only [Room.added, Function.update_apply] at hk hl
  split at hk <;> split at hl
  · simp_all
  · cases hk
    exact absurd ⟨l, hl⟩ hnot
  · cases hl
    exact absurd ⟨k, hk⟩ hnot
  · exact h.once k l d hk hl

theorem has_added {j : Fin maxClientsRoom} (hslot : room.clients j = none) :
    (room.added j c).Has d ↔ d = c ∨ room.Has d := by
  constructor
  · rintro ⟨k, hk⟩
    simp only [Room.added, Function.update_apply] at hk
    split at hk
    · exact .inl (Option.some.inj hk).symm
    · exact .inr ⟨k, hk⟩
  · rintro (rfl | ⟨k, hk⟩)
    · exact ⟨j, by simp [Room.added]⟩
    · refine ⟨k, ?_⟩
      have hne : k ≠ j := by
        rintro rfl
        rw [hslot] at hk
        cases hk
      simpa [Room.added, hne] using hk

/-! ### Leaving -/

/-- A member has a slot, and only its slot is emptied. -/
theorem remove_eq (_h : room.Ok) (hc : room.Has c) :
    ∃ j, room.clients j = some c ∧
      room.remove c =
        { room with
          clients := Function.update room.clients j none
          numClients := room.numClients - 1 } := by
  cases hj : room.slotOf? c with
  | none =>
      obtain ⟨j, hc⟩ := hc
      exact absurd hc (Room.slotOf?_none hj j)
  | some j => exact ⟨j, Room.slotOf?_some hj, Room.remove_of_slot hj⟩

theorem left (h : room.Ok) (hc : room.Has c) :
    (room.remove c).cleanUp.Ok := by
  obtain ⟨j, hj, hremove⟩ := h.remove_eq hc
  have hcounted := h.toCounted.left (c := c)
  unfold Room.cleanUp at hcounted ⊢
  rw [hremove] at hcounted ⊢
  split
  · rename_i hzero
    rw [if_pos hzero] at hcounted
    exact
      { toCounted := hcounted
        freeName := fun _ => rfl
        nameLen := by simp
        once := by simp }
  · rename_i hpos
    rw [if_neg hpos] at hcounted
    refine
      { toCounted := hcounted
        freeName := h.freeName
        nameLen := h.nameLen
        once := ?_ }
    intro k l d hk hl
    simp only [Function.update_apply] at hk hl
    split at hk <;> split at hl
    · cases hk
    · cases hk
    · cases hl
    · exact h.once k l d hk hl

theorem has_left (h : room.Ok) (hc : room.Has c) :
    (room.remove c).cleanUp.Has d ↔ room.Has d ∧ d ≠ c := by
  obtain ⟨j, hj, hremove⟩ := h.remove_eq hc
  have hcount := h.occupancy_remove hj
  have hother : ∀ k, Function.update room.clients j none k = some d ↔
      room.clients k = some d ∧ d ≠ c := by
    intro k
    simp only [Function.update_apply]
    split
    · rename_i hk
      subst hk
      simp only [reduceCtorEq, false_iff, not_and, not_not]
      intro hd
      rw [hj] at hd
      exact (Option.some.inj hd).symm
    · rename_i hk
      refine ⟨fun hd => ⟨hd, ?_⟩, fun hd => hd.1⟩
      rintro rfl
      exact hk (h.once k j d hd hj)
  have hclients : ∀ k, (room.remove c).cleanUp.clients k = some d ↔
      room.clients k = some d ∧ d ≠ c := by
    intro k
    rw [← hother k]
    unfold Room.cleanUp
    rw [hremove]
    split
    · rename_i hzero
      simp only at hzero
      rw [hcount] at hzero
      have hnone := (tally_eq_zero_iff _ _).mp (by exact_mod_cast hzero) k
      have hk : Function.update room.clients j none k = none := by
        simpa using hnone
      simp [hk]
    · rfl
  unfold Room.Has
  simp only [hclients, exists_and_right]

end Room.Ok

/-! ## All rooms and all clients -/

/-- The slot that has already left its room while its record still says
`IN_CHAT_ROOM`. -/
def WorkerPoint.departing : WorkerPoint C → Option (Fin C)
  | .left j | .closed j => some j
  | _ => none

/-- The client counts as a member of room `i`, judged by its own record and
its worker's program point. -/
def Resident (s : State N C) (i : Fin maxRooms) (c : ClientPtr N C) : Prop :=
  (s.clients c).inUse = true ∧ (s.clients c).state = .inChatRoom ∧
    (s.clients c).roomIndex = i ∧
    (s.point c.worker).departing ≠ some c.index

/-- What links rooms and client records in every reachable state. -/
structure RoomInv (s : State N C) : Prop where
  ok : ∀ i, (s.rooms i).Ok
  member : ∀ i c, (s.rooms i).Has c ↔ Resident s i c
  released : ∀ c, (s.clients c).inUse = false →
    (s.clients c).state = .awaitingUsername

namespace RoomInv

variable {s s' : State N C} {c : ClientPtr N C} {i : Fin maxRooms}

theorem init [NeZero N] : RoomInv (State.init N C) := by
  constructor
  · intro i
    exact Room.Ok.zero N C
  · intro i c
    constructor
    · intro h
      rcases h with ⟨j, hj⟩
      cases hj
    · intro h
      exact absurd h.1 (by simp [State.init, Client.zero])
  · intro c _
    rfl

/-- A step that changes no room and of the records only what membership does
not depend on. -/
theorem frame (h : RoomInv s) (hrooms : s'.rooms = s.rooms)
    (hstate : ∀ c, (s'.clients c).state = (s.clients c).state)
    (hroom : ∀ c, (s'.clients c).roomIndex = (s.clients c).roomIndex)
    (huse : ∀ c, (s'.clients c).inUse = (s.clients c).inUse)
    (hpoint : ∀ w, (s'.point w).departing = (s.point w).departing) :
    RoomInv s' := by
  constructor
  · intro i
    rw [hrooms]
    exact h.ok i
  · intro i c
    unfold Resident
    rw [hrooms, hstate, hroom, huse, hpoint]
    exact h.member i c
  · intro c
    rw [hstate, huse]
    exact h.released c

/-- The special case of a step that moves one program point. -/
theorem move (h : RoomInv s) {w : Fin N} {p : WorkerPoint C}
    (hrooms : s'.rooms = s.rooms) (hclients : s'.clients = s.clients)
    (hpoint : s'.point = Function.update s.point w p)
    (hp : p.departing = (s.point w).departing) : RoomInv s' := by
  apply h.frame hrooms
  · intro c
    rw [hclients]
  · intro c
    rw [hclients]
  · intro c
    rw [hclients]
  · intro v
    rw [hpoint]
    by_cases hv : v = w
    · rw [hv, Function.update_self, hp]
    · rw [Function.update_of_ne hv]

/-- The special case of a step of the main thread or inside the hand-off. -/
theorem same (h : RoomInv s) (hrooms : s'.rooms = s.rooms)
    (hclients : s'.clients = s.clients) (hpoint : s'.point = s.point) :
    RoomInv s' := by
  apply h.frame hrooms
  · intro c
    rw [hclients]
  · intro c
    rw [hclients]
  · intro c
    rw [hclients]
  · intro v
    rw [hpoint]

/-- Membership of the other clients after a step on client `c` that touches
room `i` and `c`'s worker only. -/
theorem step_on (h : RoomInv s)
    (hrooms : ∀ k, k ≠ i → s'.rooms k = s.rooms k)
    (hclients : ∀ d, d ≠ c → s'.clients d = s.clients d)
    (hpoint : ∀ d, d ≠ c →
      ((s'.point d.worker).departing ≠ some d.index ↔
        (s.point d.worker).departing ≠ some d.index))
    (hok : (s'.rooms i).Ok)
    (hother : ∀ d, d ≠ c → ((s'.rooms i).Has d ↔ (s.rooms i).Has d))
    (hself : ∀ k, (s'.rooms k).Has c ↔ Resident s' k c)
    (hreleased : (s'.clients c).inUse = false →
      (s'.clients c).state = .awaitingUsername) : RoomInv s' := by
  constructor
  · intro k
    by_cases hk : k = i
    · rw [hk]
      exact hok
    · rw [hrooms k hk]
      exact h.ok k
  · intro k d
    by_cases hd : d = c
    · rw [hd]
      exact hself k
    · have hhas : (s'.rooms k).Has d ↔ (s.rooms k).Has d := by
        by_cases hk : k = i
        · rw [hk]
          exact hother d hd
        · rw [hrooms k hk]
      have hresident : Resident s' k d ↔ Resident s k d := by
        unfold Resident
        rw [hclients d hd, hpoint d hd]
      rw [hhas, hresident]
      exact h.member k d
  · intro d
    by_cases hd : d = c
    · rw [hd]
      exact hreleased
    · rw [hclients d hd]
      exact h.released d

/-- A client whose record is not in a room is in no array. -/
theorem not_has_of_state (h : RoomInv s)
    (hs : (s.clients c).state ≠ .inChatRoom) (k : Fin maxRooms) :
    ¬ (s.rooms k).Has c := by
  intro hc
  exact hs ((h.member k c).mp hc).2.1

/-- The array of no other room has a client whose record says room `i`. -/
theorem not_has_of_room (h : RoomInv s) {k : Fin maxRooms}
    (hk : (s.clients c).roomIndex ≠ k) : ¬ (s.rooms k).Has c := by
  intro hc
  exact hk ((h.member k c).mp hc).2.2.1

/-- Moving the point of `c`'s worker between points that are about no other
slot does not matter to other clients. -/
theorem departing_update {p : WorkerPoint C}
    (hold : ∀ j, (s.point c.worker).departing = some j → j = c.index)
    (hnew : ∀ j, p.departing = some j → j = c.index) {d : ClientPtr N C}
    (hd : d ≠ c) :
    (Function.update s.point c.worker p d.worker).departing ≠ some d.index ↔
      (s.point d.worker).departing ≠ some d.index := by
  by_cases hw : d.worker = c.worker
  · have hindex : d.index ≠ c.index := by
      intro hi
      apply hd
      cases d
      cases c
      simp_all
    rw [hw, Function.update_self]
    constructor
    · intro _ h
      exact hindex (hold _ h)
    · intro _ h
      exact hindex (hnew _ h)
  · rw [Function.update_of_ne hw]

/-! ### The operations -/

theorem afterCreate (h : RoomInv s) {t : Thread N}
    (hready : Ready s t c .inChatLobby) {roomName : Bytes}
    (hname : roomName.length ≤ maxRoomNameLen)
    (hfree : (s.rooms i).inUse = false) (successMsg : Bytes) :
    RoomInv (s.afterCreate i c roomName successMsg) := by
  have hok := h.ok i
  have hout : ∀ k, ¬ (s.rooms k).Has c :=
    h.not_has_of_state (by rw [hready.2.1]; decide)
  have hnew : (s.afterCreate i c roomName successMsg).rooms i =
      (s.rooms i).opened c roomName := by
    simp [State.afterCreate]
  have hold : ∀ k, k ≠ i →
      (s.afterCreate i c roomName successMsg).rooms k = s.rooms k := by
    intro k hk
    simp [State.afterCreate, hk]
  have hrecord : (s.afterCreate i c roomName successMsg).clients c =
      (s.clients c).entered i := by
    simp [State.afterCreate]
  apply h.step_on (c := c) hold
  · intro d hd
    simp [State.afterCreate, hd]
  · intro d _
    rfl
  · rw [hnew]
    exact hok.opened hfree hname
  · intro d hd
    rw [hnew, hok.has_opened hfree]
    have hnone := hok.clients_of_free hfree
    simp [hd, Room.Has, hnone]
  · intro k
    have hpoint : (s.point c.worker).departing ≠ some c.index := by
      rw [hready.2.2]
      simp [WorkerPoint.departing]
    have hinUse := hready.1.2
    unfold Resident
    rw [hrecord]
    by_cases hk : k = i
    · rw [hk, hnew, hok.has_opened hfree]
      simp [Client.entered, hinUse, State.afterCreate, hpoint]
    · rw [hold k hk]
      simp [Client.entered, hout k, Ne.symm hk]
  · rw [hrecord]
    simp [Client.entered, hready.1.2]

theorem afterJoin (h : RoomInv s) {t : Thread N}
    (hready : Ready s t c .inChatLobby) {j : Fin maxClientsRoom}
    (hinUse : (s.rooms i).inUse = true)
    (hj : (s.rooms i).freeSlot? = some j) (joinMsg : Bytes) :
    RoomInv (s.afterJoin i j c joinMsg) := by
  have hok := h.ok i
  have hslot := Room.freeSlot?_some hj
  have hout : ∀ k, ¬ (s.rooms k).Has c :=
    h.not_has_of_state (by rw [hready.2.1]; decide)
  have hnew : (s.afterJoin i j c joinMsg).rooms i =
      (s.rooms i).added j c := by
    simp [State.afterJoin]
  have hold : ∀ k, k ≠ i →
      (s.afterJoin i j c joinMsg).rooms k = s.rooms k := by
    intro k hk
    simp [State.afterJoin, hk]
  have hrecord : (s.afterJoin i j c joinMsg).clients c =
      (s.clients c).entered i := by
    simp [State.afterJoin]
  apply h.step_on (c := c) hold
  · intro d hd
    simp [State.afterJoin, hd]
  · intro d _
    rfl
  · rw [hnew]
    exact hok.added hinUse hslot (hout i)
  · intro d hd
    rw [hnew, Room.Ok.has_added hslot]
    simp [hd]
  · intro k
    have hpoint : (s.point c.worker).departing ≠ some c.index := by
      rw [hready.2.2]
      simp [WorkerPoint.departing]
    have hlive := hready.1.2
    unfold Resident
    rw [hrecord]
    by_cases hk : k = i
    · rw [hk, hnew, Room.Ok.has_added hslot]
      simp [Client.entered, hlive, State.afterJoin, hpoint]
    · rw [hold k hk]
      simp [Client.entered, hout k, Ne.symm hk]
  · rw [hrecord]
    simp [Client.entered, hready.1.2]

theorem afterLeave (h : RoomInv s) {t : Thread N}
    (hready : Ready s t c .inChatRoom) (hi : (s.clients c).roomIndex = i) :
    RoomInv (s.afterLeave i c) := by
  have hok := h.ok i
  have hidle : (s.point c.worker).departing = none := by
    rw [hready.2.2]
    rfl
  have hhas : (s.rooms i).Has c := by
    apply (h.member i c).mpr
    refine ⟨hready.1.2, hready.2.1, hi, ?_⟩
    rw [hidle]
    simp
  have hnew : (s.afterLeave i c).rooms i =
      ((s.rooms i).remove c).cleanUp := by
    simp [State.afterLeave]
  have hold : ∀ k, k ≠ i → (s.afterLeave i c).rooms k = s.rooms k := by
    intro k hk
    simp [State.afterLeave, hk]
  apply h.step_on (c := c) hold
  · intro d _
    rfl
  · intro d hd
    apply departing_update _ _ hd
    · intro j hj
      rw [hidle] at hj
      cases hj
    · intro j hj
      exact (Option.some.inj hj).symm
  · rw [hnew]
    exact hok.left hhas
  · intro d hd
    rw [hnew, hok.has_left hhas]
    simp [hd]
  · intro k
    have hgone : ¬ Resident (s.afterLeave i c) k c := by
      intro hr
      apply hr.2.2.2
      simp [State.afterLeave, WorkerPoint.departing]
    simp only [hgone, iff_false]
    by_cases hk : k = i
    · rw [hk, hnew, hok.has_left hhas]
      simp
    · rw [hold k hk]
      apply h.not_has_of_room
      rw [hi]
      exact Ne.symm hk
  · exact h.released c

/-- A step on a client outside all rooms that changes its record to one
outside all rooms. -/
theorem outside (h : RoomInv s) {r : Client} {p : WorkerPoint C}
    (hrooms : s'.rooms = s.rooms)
    (hclients : s'.clients = Function.update s.clients c r)
    (hpoint : s'.point = Function.update s.point c.worker p)
    (hout : ∀ k, ¬ (s.rooms k).Has c) (hr : r.state ≠ .inChatRoom)
    (hreleased : r.inUse = false → r.state = .awaitingUsername)
    (hold : ∀ j, (s.point c.worker).departing = some j → j = c.index)
    (hnew : ∀ j, p.departing = some j → j = c.index) : RoomInv s' := by
  have hrecord : s'.clients c = r := by
    rw [hclients, Function.update_self]
  apply h.step_on (c := c) (i := (s.clients c).roomIndex)
  · intro k _
    rw [hrooms]
  · intro d hd
    rw [hclients, Function.update_of_ne hd]
  · intro d hd
    rw [hpoint]
    exact departing_update hold hnew hd
  · rw [hrooms]
    exact h.ok _
  · intro d _
    rw [hrooms]
  · intro k
    rw [hrooms]
    simp only [hout k, false_iff]
    intro hres
    apply hr
    rw [← hrecord]
    exact hres.2.1
  · rw [hrecord]
    exact hreleased

/-- A client that is departing is in no array any more. -/
theorem not_has_of_departing (h : RoomInv s)
    (hp : (s.point c.worker).departing = some c.index) (k : Fin maxRooms) :
    ¬ (s.rooms k).Has c := by
  intro hc
  exact ((h.member k c).mp hc).2.2.2 hp

/-- Every allowed action keeps the invariant. -/
theorem step (h : RoomInv s) {t : Thread N} {a : Act N C} {b : a.Answer}
    (ha : Allowed t s a) (he : exec a s = some (b, s')) : RoomInv s' := by
  by_cases htext : a.isText = true
  · have hsame := exec_sameControl htext he
    exact h.frame hsame.rooms hsame.state hsame.roomIndex hsame.inUse
      fun w => by rw [hsame.point]
  cases a <;> simp only [Act.isText, not_true_eq_false,
    Bool.false_eq_true, not_false_eq_true] at htext
  case createSection i c roomName successMsg =>
    rcases exec_createSection he with ⟨-, -, rfl⟩ | ⟨hfree, -, rfl⟩
    · exact h
    · exact h.afterCreate ha.1 ha.2 hfree successMsg
  case joinSection i c joinMsg =>
    rcases exec_joinSection he with ⟨r, -, rfl⟩ | rfl | ⟨j, hu, hj, rfl⟩
    · exact h.same rfl rfl rfl
    · exact h
    · exact h.afterJoin ha hu hj joinMsg
  case leaveSection i c =>
    rw [exec_leaveSection he]
    exact h.afterLeave ha.1 ha.2
  case chatSection i c msg =>
    rw [exec_chatSection he]
    refine h.move rfl rfl rfl ?_
    rw [ha.2.2.2]
    rfl
  case routeMessage c =>
    rcases exec_routeMessage he with ⟨-, ⟨-, rfl⟩ | ⟨line, -, rfl⟩⟩
    · exact h.same rfl rfl rfl
    · refine h.move rfl rfl rfl ?_
      rw [ha.2]
      rfl
  case setLobby c =>
    cases he
    have hout : ∀ k, ¬ (s.rooms k).Has c := by
      rcases ha with hready | ⟨-, hleft⟩
      · apply h.not_has_of_state
        rw [hready.2.1]
        decide
      · apply h.not_has_of_departing
        rw [hleft]
        rfl
    have hlive : (s.clients c).inUse = true := by
      rcases ha with hready | ⟨hlive, -⟩
      · exact hready.1.2
      · exact hlive.2
    refine h.outside rfl rfl rfl hout (by simp) ?_ ?_ ?_
    · intro hfree
      simp [hlive] at hfree
    · intro j hj
      rcases ha with hready | ⟨-, hleft⟩
      · rw [hready.2.2] at hj
        cases hj
      · rw [hleft] at hj
        exact (Option.some.inj hj).symm
    · intro j hj
      cases hj
  case closeClient c =>
    cases he
    rcases ha with ⟨hlive, ⟨hs, hidle⟩ | hleft⟩
    · refine h.outside (r := s.clients c) rfl
        (Function.update_eq_self c s.clients).symm rfl
        (h.not_has_of_state hs) hs (h.released c) ?_ ?_
      · intro j hj
        rw [hidle] at hj
        cases hj
      · intro j hj
        exact (Option.some.inj hj).symm
    · refine h.move rfl rfl rfl ?_
      rw [hleft]
      rfl
  case zeroClient c =>
    cases he
    have hclosed : (s.point c.worker).departing = some c.index := by
      rw [ha.2]
      rfl
    refine h.outside rfl rfl rfl (h.not_has_of_departing hclosed)
      (by decide) (fun _ => rfl) ?_ ?_
    · intro j hj
      rw [hclosed] at hj
      exact (Option.some.inj hj).symm
    · intro j hj
      cases hj
  case allocateClientSlot w fd =>
    rcases exec_allocateClientSlot he with ⟨-, -, rfl⟩ | ⟨j, hj, -, rfl⟩
    · refine h.move rfl rfl rfl ?_
      rw [ha.2]
      rfl
    · have hfree := State.freeSlot?_some hj
      have hstate := h.released _ hfree
      refine h.outside (c := ⟨w, j⟩) rfl rfl rfl ?_ ?_ (fun _ => rfl) ?_ ?_
      · apply h.not_has_of_state
        rw [hstate]
        decide
      · simp [Client.fresh, Client.zero]
      · intro k hk
        rw [ha.2] at hk
        cases hk
      · intro k hk
        cases hk
  case readEventfd w ok =>
    rcases exec_readEventfd he with ⟨-, -, -, rfl⟩ | ⟨-, -, rfl⟩
    all_goals
      refine h.move rfl rfl rfl ?_
      rw [ha.2]
      rfl
  case registerWithEpoll w fd ok =>
    rcases exec_registerWithEpoll he with ⟨-, -, rfl⟩ | ⟨-, -, rfl⟩
    all_goals
      refine h.move rfl rfl rfl ?_
      rw [ha.2]
      rfl
  case accept fd =>
    rw [(exec_accept he).2.2]
    exact h.same rfl rfl rfl
  case setSocketKeepAlive fd ok =>
    rcases exec_setSocketKeepAlive he with ⟨-, -, rfl⟩ | ⟨-, -, rfl⟩
    all_goals exact h.same rfl rfl rfl
  case inspectWorker fd =>
    rcases exec_inspectWorker he with ⟨-, -, rfl⟩ | ⟨-, -, rfl⟩
    all_goals exact h.same rfl rfl rfl
  case semWait w fd =>
    rw [(exec_semWait he).2]
    exact h.same rfl rfl rfl
  case writeEventfd w fd ok =>
    rcases exec_writeEventfd he with ⟨-, -, rfl⟩ | ⟨-, -, rfl⟩
    all_goals exact h.same rfl rfl rfl
  case subtractZeroed | postUnread | semPost | subtractRefused
      | closeRefused =>
    cases he
    refine h.move rfl rfl rfl ?_
    rw [ha.2]
    rfl
  all_goals
    cases he
    exact h.same rfl rfl rfl

end RoomInv

/-! ## Names -/

/-- The action is a critical section that may change a room. -/
def Act.isRoom : Act N C → Bool
  | .createSection .. | .joinSection .. | .leaveSection .. => true
  | _ => false

theorem exec_rooms {a : Act N C} {s s' : State N C} {b : a.Answer}
    (ha : a.isRoom = false) (he : exec a s = some (b, s')) :
    s'.rooms = s.rooms := by
  by_cases htext : a.isText = true
  · exact (exec_sameControl htext he).rooms
  cases a <;> simp only [Act.isRoom, Bool.true_eq_false, Act.isText,
    not_true_eq_false] at ha htext
  case chatSection i c msg =>
    rw [exec_chatSection he]
    rfl
  case routeMessage c =>
    rcases exec_routeMessage he with ⟨-, ⟨-, rfl⟩ | ⟨line, -, rfl⟩⟩ <;> rfl
  case allocateClientSlot w fd =>
    rcases exec_allocateClientSlot he with ⟨-, -, rfl⟩ | ⟨j, -, -, rfl⟩ <;>
      rfl
  case readEventfd w ok =>
    rcases exec_readEventfd he with ⟨-, -, -, rfl⟩ | ⟨-, -, rfl⟩ <;> rfl
  case registerWithEpoll w fd ok =>
    rcases exec_registerWithEpoll he with ⟨-, -, rfl⟩ | ⟨-, -, rfl⟩ <;> rfl
  case accept fd => rw [(exec_accept he).2.2]
  case setSocketKeepAlive fd ok =>
    rcases exec_setSocketKeepAlive he with ⟨-, -, rfl⟩ | ⟨-, -, rfl⟩ <;> rfl
  case inspectWorker fd =>
    rcases exec_inspectWorker he with ⟨-, -, rfl⟩ | ⟨-, -, rfl⟩ <;> rfl
  case semWait w fd => rw [(exec_semWait he).2]
  case writeEventfd w fd ok =>
    rcases exec_writeEventfd he with ⟨-, -, rfl⟩ | ⟨-, -, rfl⟩ <;> rfl
  all_goals
    cases he
    rfl

/-- No step miscounts a room, whoever takes it. -/
theorem exec_counted {a : Act N C} {s s' : State N C} {b : a.Answer}
    (he : exec a s = some (b, s')) (h : ∀ i, (s.rooms i).Counted)
    (i : Fin maxRooms) : (s'.rooms i).Counted := by
  by_cases hroom : a.isRoom = true
  · have hupdate : ∀ (k : Fin maxRooms) (room : Room N C), room.Counted →
        (Function.update s.rooms k room i).Counted := by
      intro k room hcounted
      by_cases hi : i = k
      · subst hi
        rw [Function.update_self]
        exact hcounted
      · rw [Function.update_of_ne hi]
        exact h i
    cases a <;> simp only [Act.isRoom, Bool.false_eq_true] at hroom
    case createSection k c roomName successMsg =>
      rcases exec_createSection he with ⟨-, -, rfl⟩ | ⟨hfree, -, rfl⟩
      · exact h i
      · exact hupdate k _ ((h k).opened hfree roomName)
    case joinSection k c joinMsg =>
      rcases exec_joinSection he with ⟨r, -, rfl⟩ | rfl | ⟨j, hu, hj, rfl⟩
      · exact h i
      · exact h i
      · exact hupdate k _ ((h k).added hu (Room.freeSlot?_some hj))
    case leaveSection k c =>
      rw [exec_leaveSection he]
      exact hupdate k _ (h k).left
  · rw [exec_rooms (by simpa using hroom) he]
    exact h i

/-- No step renames a room that stays in use. -/
theorem RoomInv.name_step {s s' : State N C} (h : RoomInv s) {t : Thread N}
    {a : Act N C} {b : a.Answer} (ha : Allowed t s a)
    (he : exec a s = some (b, s')) {i : Fin maxRooms}
    (hu : (s.rooms i).inUse = true) (hu' : (s'.rooms i).inUse = true) :
    (s'.rooms i).roomName = (s.rooms i).roomName := by
  by_cases hroom : a.isRoom = true
  · cases a <;> simp only [Act.isRoom, Bool.false_eq_true] at hroom
    case createSection k c roomName successMsg =>
      rcases exec_createSection he with ⟨-, -, rfl⟩ | ⟨hfree, -, rfl⟩
      · rfl
      · have hne : i ≠ k := by
          intro hi
          rw [hi, hfree] at hu
          cases hu
        simp [State.afterCreate, hne]
    case joinSection k c joinMsg =>
      rcases exec_joinSection he with ⟨r, -, rfl⟩ | rfl | ⟨j, -, -, rfl⟩
      · rfl
      · rfl
      · by_cases hi : i = k
        · simp [State.afterJoin, Room.added, hi]
        · simp [State.afterJoin, hi]
    case leaveSection k c =>
      rw [exec_leaveSection he] at hu' ⊢
      by_cases hi : i = k
      · subst hi
        have hhas : (s.rooms i).Has c := by
          apply (h.member i c).mpr
          refine ⟨ha.1.1.2, ha.1.2.1, ha.2, ?_⟩
          rw [ha.1.2.2]
          simp [WorkerPoint.departing]
        obtain ⟨j, -, hremove⟩ := (h.ok i).remove_eq hhas
        simp only [State.afterLeave, Function.update_self] at hu' ⊢
        unfold Room.cleanUp at hu' ⊢
        by_cases hzero : ((s.rooms i).remove c).numClients = 0
        · rw [if_pos hzero] at hu'
          cases hu'
        · rw [if_neg hzero, hremove]
      · simp [State.afterLeave, hi]
  · rw [exec_rooms (by simpa using hroom) he]

/-! ## Runs -/

/-- Rooms and client records agree. -/
structure RoomsConsistent (s : State N C) : Prop where
  count : ∀ i, (s.rooms i).numClients = (s.rooms i).occupancy
  bounds : ∀ i, 0 ≤ (s.rooms i).numClients ∧
    (s.rooms i).numClients ≤ maxClientsRoom
  inUse_iff : ∀ i, (s.rooms i).inUse = true ↔ 0 < (s.rooms i).numClients
  free : ∀ i, (s.rooms i).inUse = false →
    (∀ j, (s.rooms i).clients j = none) ∧ (s.rooms i).roomName = []
  name : ∀ i, (s.rooms i).inUse = true →
    (s.rooms i).roomName.length ≤ maxRoomNameLen
  once : ∀ i j i' j' c, (s.rooms i).clients j = some c →
    (s.rooms i').clients j' = some c → i = i' ∧ j = j'
  member : ∀ i j c, (s.rooms i).clients j = some c →
    (s.clients c).inUse = true ∧ (s.clients c).state = .inChatRoom ∧
      (s.clients c).roomIndex = i
  settled : ∀ c, (s.clients c).inUse = true →
    (s.clients c).state = .inChatRoom →
    (s.point c.worker).departing ≠ some c.index →
    ∃ j, (s.rooms (s.clients c).roomIndex).clients j = some c

theorem RoomInv.consistent {s : State N C} (h : RoomInv s) :
    RoomsConsistent s := by
  have hmember : ∀ i j c, (s.rooms i).clients j = some c →
      Resident s i c := fun i j c hj => (h.member i c).mp ⟨j, hj⟩
  constructor
  · exact fun i => (h.ok i).count
  · exact fun i => (h.ok i).bounds
  · exact fun i => (h.ok i).inUse_iff
  · exact fun i hfree =>
      ⟨(h.ok i).clients_of_free hfree, (h.ok i).freeName hfree⟩
  · exact fun i _ => (h.ok i).nameLen
  · intro i j i' j' c hj hj'
    have hi := (hmember i j c hj).2.2.1
    have hi' := (hmember i' j' c hj').2.2.1
    have heq : i = i' := by rw [← hi, ← hi']
    subst heq
    exact ⟨rfl, (h.ok i).once j j' c hj hj'⟩
  · intro i j c hj
    have hres := hmember i j c hj
    exact ⟨hres.1, hres.2.1, hres.2.2.1⟩
  · intro c hlive hs hp
    exact (h.member _ c).mpr ⟨hlive, hs, rfl, hp⟩

section Runs

variable [NeZero N] {ls ls' : List (Step N C)} {k k' : Configuration N C}

/-- The rooms are counted right in every run, whatever follows a `CMD_EXIT` in a
chunk. -/
theorem counted_run
    (hrun : (server N C).Run EventOk (Configuration.init N C) ls k)
    (i : Fin maxRooms) : (k.shared.rooms i).Counted :=
  event_invariant (I := fun s => ∀ i, (s.rooms i).Counted) (fun _ _ h => h)
    (fun _ => Room.Counted.zero N C)
    (fun _ _ _ _ _ _ _ he h => exec_counted he h) hrun i

/-- The invariant holds in every state of every run. -/
theorem roomInv_run
    (hrun : (server N C).Run LiveOk (Configuration.init N C) ls k) :
    RoomInv k.shared :=
  run_invariant (fun _ _ h => h) RoomInv.init
    (fun _ _ _ _ _ ha _ he h => h.step ha he) hrun

/-- The steps of a run during which room `i` is in use. -/
def KeepsRoom (i : Fin maxRooms) (s : State N C) (l : Step N C) : Prop :=
  LiveOk s l ∧ (s.rooms i).inUse = true

/-- A room keeps its name for as long as it stays in use. -/
theorem name_run {i : Fin maxRooms}
    (hrun : (server N C).Run LiveOk (Configuration.init N C) ls k)
    (hstay : (server N C).Run (KeepsRoom i) k ls' k')
    (hu : (k'.shared.rooms i).inUse = true) :
    (k'.shared.rooms i).roomName = (k.shared.rooms i).roomName := by
  induction hstay with
  | nil => rfl
  | snoc hstay hok hstep ih =>
      have hname := ih hok.2
      have hreach := hrun.append (hstay.mono fun _ _ h => h.1)
      have hsound := control_sound hreach
      cases hstep with
      | start => exact hname
      | act t a next answer s hp he =>
          rw [← hname]
          exact (roomInv_run hreach).name_step (hsound.pre hp hok.1) he
            hok.2 hu

/-- **Rooms over whole runs**: in every state of every run the rooms agree
with the client records, and a room keeps its name for as long as it stays in
use. -/
theorem rooms_consistent_run
    (hrun : (server N C).Run LiveOk (Configuration.init N C) ls k) :
    RoomsConsistent k.shared ∧
      ∀ i ls' k', (server N C).Run (KeepsRoom i) k ls' k' →
        (k'.shared.rooms i).inUse = true →
        (k'.shared.rooms i).roomName = (k.shared.rooms i).roomName :=
  ⟨(roomInv_run hrun).consistent, fun _ _ _ hstay hu =>
    name_run hrun hstay hu⟩

end Runs

/-- The actions while room `i` is in use. -/
def execInUse (i : Fin maxRooms) (a : Act N C) (s : State N C) :
    Option (a.Answer × State N C) :=
  if (s.rooms i).inUse then execReads a s else none

theorem keepsRoom_of_execInUse {i : Fin maxRooms} {a : Act N C}
    {s : State N C} {out : a.Answer × State N C}
    (h : execInUse i a s = some out) (t : Thread N) :
    exec a s = some out ∧ KeepsRoom i s (.act t a) := by
  obtain ⟨huse, he⟩ := Option.ite_none_right_eq_some.mp h
  obtain ⟨hexec, hok⟩ := exec_of_execReads he t
  exact ⟨hexec, hok.1, huse⟩

/-- A client creates a room, and two others join it. -/
def gather : List (Thread maxThreads × Job maxThreads maxClientsPerThread) :=
  opensRoom 0 (text "bob") (text "den") ++ connects 1 ++ connects 2 ++
    [sends 1 (frame cmdUsernameSubmit (text "eve")),
      sends 2 (frame cmdUsernameSubmit (text "ann")),
      sends 1 (frame cmdRoomJoinRequest (text "0")),
      sends 2 (frame cmdRoomJoinRequest (text "0"))]

/-- Two of them leave: the one who created the room, and while it does, another
one that opens a room of its own. -/
def scatter : List (System.Cue (Thread maxThreads)
    (Job maxThreads maxClientsPerThread)) :=
  [.give (.worker 0) (sends 0 (frame cmdLeaveRoom (text "x"))).2,
    .act (.worker 0) 4] ++
    finishing [sends 1 (frame cmdLeaveRoom (text "x")),
      sends 1 (frame cmdRoomCreateRequest (text "pit"))] ++
    [.act (.worker 0) 1000]

/-- The room keeps its name over this. -/
theorem rooms_consistent_den :
    ∃ (s : RealState) (k : Configuration maxThreads maxClientsPerThread),
      play (State.init _ _) gather = some s ∧
        (s.rooms 0).numClients = 3 ∧ RoomsConsistent s ∧
        (k.shared.rooms 0).numClients = 1 ∧
        (k.shared.rooms 1).roomName = text "pit" ∧
        (s.rooms 0).roomName = text "den" ∧
        (k.shared.rooms 0).roomName = (s.rooms 0).roomName := by
  have hplay : ((play (State.init maxThreads maxClientsPerThread)
      gather).bind fun s =>
        ((server _ _).script (execInUse 0)
          (fun s t j => startOk s t j && (s.rooms 0).inUse)
          (fun _ _ => ([] : List Unit)) scatter (quiet s)).map fun out =>
            decide (((s.rooms 0).numClients = 3 ∧
              (s.rooms 0).roomName = text "den") ∧
              (out.2.shared.rooms 0).numClients = 1 ∧
              (out.2.shared.rooms 0).inUse = true ∧
              (out.2.shared.rooms 1).roomName = text "pit")) =
      some true := by
    decide +kernel
  obtain ⟨s, hs, hplay⟩ := Option.bind_eq_some_iff.mp hplay
  obtain ⟨⟨es, k⟩, hk, hfacts⟩ := Option.map_eq_some_iff.mp hplay
  obtain ⟨⟨hthree, hname⟩, hone, huse, hpit⟩ := of_decide_eq_true hfacts
  obtain ⟨ls, hrun⟩ := play_live hs
  obtain ⟨ls', hstay⟩ := (System.Logged.script (S := server _ _)
    (fun t _ _ _ he => keepsRoom_of_execInUse he t)
    (fun s t j hj => by
      obtain ⟨hok, huse⟩ := Bool.and_eq_true_iff.mp hj
      exact (⟨liveOk_of_startOk hok, huse⟩ : KeepsRoom 0 s (.start t j)))
    scatter .nil hk).run
  obtain ⟨hconsistent, hkeeps⟩ := rooms_consistent_run hrun
  exact ⟨s, k, hs, hthree, hconsistent, hone, hpit, hname,
    hkeeps 0 ls' k hstay huse⟩

end ChatApp.Server
