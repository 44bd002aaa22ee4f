import ChatApp.Server.Routines
import ChatApp.Server.Schedule

/-!
# The two scans of the rooms

`create_chat_room` and `send_avail_rooms` visit the rooms one critical section
after the other.  What they report is a fact about each room at the moment its
lock was held, whatever the other threads do in between: the environment of the
executions here is arbitrary.
-/

namespace ChatApp.Server

open ChatApp.Foundation

variable {N C : Nat} {R : State N C → State N C → Prop} {s s' : State N C}
  {client : ClientPtr N C} {fd : Fd} {steps : Steps N C}

/-! ## Creating a room -/

/-- The step refuses a room for want of space. -/
def Refuses (e : Executed N C) : Prop :=
  ∃ fd message, e.action = .send fd errRoomCapacityFull message

section Create

variable {roomName successMsg : Bytes} {rooms : List (Fin maxRooms)}

/-- A scan that refuses has found every room in use. -/
theorem createScan_refused :
    ∀ {s : State N C} {steps : Steps N C},
      Prog.Exec exec R (createScan client fd roomName successMsg rooms) s
        steps () s' →
      (∃ e ∈ steps, Refuses e) →
      ∀ i ∈ rooms, ∃ e ∈ steps,
        e.action = .createSection i client roomName successMsg ∧
          (e.before.rooms i).inUse = true := by
  induction rooms with
  | nil =>
      intro s steps _ _ i hi
      cases hi
  | cons k rooms ih =>
      intro s steps h hrefuses i hi
      obtain ⟨s₁, created, s₂, rest, rfl, -, he, hrest⟩ := Prog.Exec.act_inv h
      have hlater : ∃ e ∈ rest, Refuses e := by
        obtain ⟨e, hmem, fd', message, heq⟩ := hrefuses
        rcases List.mem_cons.mp hmem with rfl | hmem
        · cases heq
        · exact ⟨e, hmem, fd', message, heq⟩
      rcases exec_createSection he with ⟨huse, rfl, -⟩ | ⟨-, rfl, -⟩
      · rcases List.mem_cons.mp hi with rfl | hi
        · exact ⟨_, List.mem_cons_self, rfl, huse⟩
        · obtain ⟨e, hmem, hfound⟩ := ih hrest hlater i hi
          exact ⟨e, List.mem_cons_of_mem _ hmem, hfound⟩
      · obtain ⟨-, rfl, -⟩ := Prog.Exec.ret_inv hrest
        obtain ⟨e, hmem, -⟩ := hlater
        cases hmem

/-- When no room is freed meanwhile, the rooms found in use are all in use at the
end. -/
theorem createScan_full
    (hkeeps : ∀ s s' i, R s s' → (s.rooms i).inUse = true →
      (s'.rooms i).inUse = true) :
    ∀ {s : State N C} {steps : Steps N C} (seen : List (Fin maxRooms)),
      (∀ i ∈ seen, (s.rooms i).inUse = true) →
      Prog.Exec exec R (createScan client fd roomName successMsg rooms) s
        steps () s' →
      (∃ e ∈ steps, Refuses e) →
      ∃ e ∈ steps, ∀ i ∈ seen ++ rooms, (e.before.rooms i).inUse = true := by
  induction rooms with
  | nil =>
      intro s steps seen hseen h _
      obtain ⟨s₁, _, s₂, rest, rfl, hR, -, -⟩ := Prog.Exec.act_inv h
      refine ⟨_, List.mem_cons_self, ?_⟩
      intro i hi
      rw [List.append_nil] at hi
      exact hkeeps s s₁ i hR (hseen i hi)
  | cons i rooms ih =>
      intro s steps seen hseen h hrefuses
      obtain ⟨s₁, created, s₂, rest, rfl, hR, he, hrest⟩ :=
        Prog.Exec.act_inv h
      have hlater : ∃ e ∈ rest, Refuses e := by
        obtain ⟨e, hmem, fd', message, heq⟩ := hrefuses
        rcases List.mem_cons.mp hmem with rfl | hmem
        · cases heq
        · exact ⟨e, hmem, fd', message, heq⟩
      rcases exec_createSection he with ⟨huse, rfl, rfl⟩ | ⟨-, rfl, -⟩
      · have hseen' : ∀ j ∈ seen ++ [i], (s₂.rooms j).inUse = true := by
          intro j hj
          rcases List.mem_append.mp hj with hj | hj
          · exact hkeeps s s₂ j hR (hseen j hj)
          · cases List.mem_singleton.mp hj
            exact huse
        obtain ⟨e, hmem, hall⟩ := ih (seen ++ [i]) hseen' hrest hlater
        refine ⟨e, List.mem_cons_of_mem _ hmem, ?_⟩
        intro j hj
        apply hall
        rw [List.append_assoc]
        exact hj
      · obtain ⟨-, rfl, -⟩ := Prog.Exec.ret_inv hrest
        obtain ⟨e, hmem, -⟩ := hlater
        cases hmem

/-- The call scans all rooms, unless the name is refused. -/
theorem createChatRoom_scans
    (h : Prog.Exec exec R (createChatRoom client) s steps () s')
    (hrefuses : ∃ e ∈ steps, Refuses e) :
    ∃ fd roomName successMsg s₁ first rest, steps = first ++ rest ∧
      Prog.Exec exec R (createScan client fd roomName successMsg
        (List.finRange maxRooms)) s₁ rest () s' ∧
      ∃ e ∈ rest, Refuses e := by
  obtain ⟨s₁, self, s₂, rest, rfl, -, he, h⟩ := Prog.Exec.act_inv h
  obtain ⟨s₃, _, s₄, rest, rfl, -, -, h⟩ := Prog.Exec.act_inv h
  have hlater : ∃ e ∈ rest, Refuses e := by
    obtain ⟨e, hmem, fd, message, heq⟩ := hrefuses
    rcases List.mem_cons.mp hmem with rfl | hmem
    · cases heq
    · rcases List.mem_cons.mp hmem with rfl | hmem
      · cases heq
      · exact ⟨e, hmem, fd, message, heq⟩
  replace h : Prog.Exec exec R (if _ then _ else _) s₄ rest () s' := h
  split at h
  case isTrue hlong =>
    obtain ⟨s₅, _, s₆, rest, rfl, -, -, h⟩ := Prog.Exec.act_inv h
    obtain ⟨-, rfl, -⟩ := Prog.Exec.ret_inv h
    obtain ⟨e, hmem, fd, message, heq⟩ := hlater
    cases List.mem_singleton.mp hmem
    have hcode : errRoomNameInvalid ≠ errRoomCapacityFull := by decide
    have hsame := (Act.send.inj heq).2.1
    exact absurd hsame hcode
  case isFalse hshort =>
    exact ⟨_, _, _, _, [_, _], rest, rfl, h, hlater⟩

/-- **A refused creation** has found each room in use at the moment it held the
room's lock; and when no room was freed meanwhile, all rooms were in use at one
moment of the call. -/
theorem createChatRoom_refused
    (h : Prog.Exec exec R (createChatRoom client) s steps () s')
    (hrefuses : ∃ e ∈ steps, Refuses e) :
    (∀ i, ∃ e ∈ steps, (∃ roomName successMsg,
        e.action = .createSection i client roomName successMsg) ∧
      (e.before.rooms i).inUse = true) ∧
    ((∀ s s' i, R s s' → (s.rooms i).inUse = true →
        (s'.rooms i).inUse = true) →
      ∃ e ∈ steps, ∀ i, (e.before.rooms i).inUse = true) := by
  obtain ⟨fd, roomName, successMsg, s₁, first, rest, rfl, hscan, hlater⟩ :=
    createChatRoom_scans h hrefuses
  constructor
  · intro i
    obtain ⟨e, hmem, haction, huse⟩ :=
      createScan_refused hscan hlater i (List.mem_finRange i)
    exact ⟨e, List.mem_append_right _ hmem, ⟨_, _, haction⟩, huse⟩
  · intro hkeeps
    obtain ⟨e, hmem, hall⟩ := createScan_full hkeeps [] nofun hscan hlater
    exact ⟨e, List.mem_append_right _ hmem, fun i =>
      hall i (List.mem_finRange i)⟩

end Create

/-! ## Listing the rooms -/

/-- The lines of the list, for rooms with their names. -/
def roomLines (listed : List (Fin maxRooms × Bytes)) : Bytes :=
  listed.flatMap fun room => roomEntryText room.1 room.2

/-- The list as `send_avail_rooms` builds it. -/
def roomListText (listed : List (Fin maxRooms × Bytes)) : Bytes :=
  roomListHeader ++ roomLines listed ++
    if listed = [] then noRoomsText else []

/-- The step visits the room, which is listed with these names. -/
def Lists (i : Fin maxRooms) (listed : List (Fin maxRooms × Bytes))
    (e : Executed N C) : Prop :=
  (∃ msg, e.action = .listSection i msg) ∧ ∀ roomName,
    (i, roomName) ∈ listed ↔
      (e.before.rooms i).inUse = true ∧ (e.before.rooms i).roomName = roomName

theorem Lists.mem_iff {i : Fin maxRooms} {listed : List (Fin maxRooms × Bytes)}
    {e : Executed N C} (h : Lists i listed e)
    {listed' : List (Fin maxRooms × Bytes)}
    (hsame : ∀ roomName, (i, roomName) ∈ listed' ↔ (i, roomName) ∈ listed) :
    Lists i listed' e :=
  ⟨h.1, fun roomName => (hsame roomName).trans (h.2 roomName)⟩

/-- The frame that a step sends. -/
def frameOf (e : Executed N C) : Option (Fd × UInt8 × Bytes) :=
  match e.action with
  | .send fd cmdType message => some (fd, cmdType, message)
  | _ => none

/-- The steps send one frame, once. -/
def SendsOnce (fd : Fd) (cmdType : UInt8) (message : Bytes)
    (steps : Steps N C) : Prop :=
  steps.filterMap frameOf = [(fd, cmdType, message)]

section Sends

variable {cmdType : UInt8} {message : Bytes}

theorem SendsOnce.one {e : Executed N C}
    (he : e.action = .send fd cmdType message) :
    SendsOnce fd cmdType message [e] := by
  have hframe : frameOf e = some (fd, cmdType, message) := by
    simp only [frameOf, he]
  simp [SendsOnce, hframe]

theorem SendsOnce.cons {e : Executed N C} (h : SendsOnce fd cmdType message steps)
    (he : frameOf e = none) : SendsOnce fd cmdType message (e :: steps) := by
  unfold SendsOnce
  rw [List.filterMap_cons_none he]
  exact h

end Sends

/-- The first step reads the client's record, with this descriptor. -/
def ReadsFd (client : ClientPtr N C) (fd : Fd) (steps : Steps N C) : Prop :=
  ∃ e rest, steps = e :: rest ∧ e.action = .readClient client ∧
    (e.before.clients client).clientFd = fd

section List

variable {rooms : List (Fin maxRooms)}

/-- What the rest of a scan appends to the list, room by room. -/
theorem listScan_exec (hnodup : rooms.Nodup) :
    ∀ {s : State N C} {steps : Steps N C} {msg : Bytes} {avail : Bool},
      Prog.Exec exec R (listScan fd msg avail rooms) s steps () s' →
      ∃ listed : List (Fin maxRooms × Bytes),
        (listed.map Prod.fst).Sublist rooms ∧
        SendsOnce fd cmdRoomListResponse
          (msg ++ roomLines listed ++
            if avail = true ∨ listed ≠ [] then [] else noRoomsText) steps ∧
        ∀ i ∈ rooms, ∃ e ∈ steps, Lists i listed e := by
  induction rooms with
  | nil =>
      intro s steps msg avail h
      refine ⟨[], .slnil, ?_, nofun⟩
      cases avail with
      | true =>
          obtain ⟨s₁, _, s₂, rest, rfl, -, -, h⟩ := Prog.Exec.act_inv h
          obtain ⟨-, rfl, -⟩ := Prog.Exec.ret_inv h
          exact .one (by simp [roomLines])
      | false =>
          obtain ⟨s₁, _, s₂, rest, rfl, -, -, h⟩ := Prog.Exec.act_inv h
          obtain ⟨s₃, _, s₄, rest, rfl, -, -, h⟩ := Prog.Exec.act_inv h
          obtain ⟨-, rfl, -⟩ := Prog.Exec.ret_inv h
          exact (SendsOnce.one (by simp [roomLines])).cons rfl
  | cons k rooms ih =>
      intro s steps msg avail h
      obtain ⟨hk, hnodup⟩ := List.nodup_cons.mp hnodup
      obtain ⟨s₁, answer, s₂, rest, rfl, -, he, hrest⟩ := Prog.Exec.act_inv h
      have hnot : ∀ {listed : List (Fin maxRooms × Bytes)},
          (listed.map Prod.fst).Sublist rooms →
          ∀ roomName, (k, roomName) ∉ listed := by
        intro listed hsub roomName hmem
        exact hk (hsub.subset (List.mem_map.mpr ⟨_, hmem, rfl⟩))
      rcases exec_listSection he with ⟨hfree, rfl, -⟩ | ⟨huse, rfl, -⟩
      · obtain ⟨listed, hsub, hsends, hlists⟩ := ih hnodup hrest
        refine ⟨listed, hsub.cons k, hsends.cons rfl, ?_⟩
        intro i hi
        rcases List.mem_cons.mp hi with rfl | hi
        · refine ⟨_, List.mem_cons_self, ⟨msg, rfl⟩, fun roomName => ?_⟩
          constructor
          · exact fun hin => absurd hin (hnot hsub roomName)
          · rintro ⟨huse, -⟩
            rw [hfree] at huse
            cases huse
        · obtain ⟨e, hmem, h⟩ := hlists i hi
          exact ⟨e, List.mem_cons_of_mem _ hmem, h⟩
      · obtain ⟨listed, hsub, hsends, hlists⟩ := ih hnodup hrest
        refine ⟨(k, (s₁.rooms k).roomName) :: listed, hsub.cons_cons k, ?_, ?_⟩
        · have htext : msg ++ roomEntryText k (s₁.rooms k).roomName ++
              roomLines listed ++
                (if true = true ∨ listed ≠ [] then [] else noRoomsText) =
              msg ++ roomLines ((k, (s₁.rooms k).roomName) :: listed) ++
                if avail = true ∨ (k, (s₁.rooms k).roomName) :: listed ≠ []
                  then [] else noRoomsText := by
            simp [roomLines]
          rw [← htext]
          exact hsends.cons rfl
        · intro i hi
          rcases List.mem_cons.mp hi with rfl | hi
          · refine ⟨_, List.mem_cons_self, ⟨msg, rfl⟩, fun roomName => ?_⟩
            constructor
            · intro hin
              rcases List.mem_cons.mp hin with heq | hin
              · exact ⟨huse, (Prod.mk.inj heq).2.symm⟩
              · exact absurd hin (hnot hsub roomName)
            · rintro ⟨-, rfl⟩
              exact List.mem_cons_self
          · obtain ⟨e, hmem, h⟩ := hlists i hi
            refine ⟨e, List.mem_cons_of_mem _ hmem, h.mem_iff ?_⟩
            intro roomName
            have hne : (i, roomName) ≠ (k, (s₁.rooms k).roomName) := by
              rintro ⟨-, -⟩
              exact hk hi
            simp [hne]

/-- What every call of `send_avail_rooms` sends. -/
theorem sendAvailRooms_exec
    (h : Prog.Exec exec R (sendAvailRooms client) s steps () s') :
    ∃ fd listed, ReadsFd client fd steps ∧
      SendsOnce fd cmdRoomListResponse (roomListText listed) steps ∧
      (listed.map Prod.fst).Pairwise (· < ·) ∧
      ∀ i, ∃ e ∈ steps, Lists i listed e := by
  obtain ⟨s₁, self, s₂, rest, rfl, -, he, h⟩ := Prog.Exec.act_inv h
  cases he
  obtain ⟨listed, hsub, hsends, hlists⟩ :=
    listScan_exec (List.nodup_finRange maxRooms) h
  have htext : roomListHeader ++ roomLines listed ++
      (if false = true ∨ listed ≠ [] then [] else noRoomsText) =
        roomListText listed := by
    unfold roomListText
    by_cases hnil : listed = [] <;> simp [hnil]
  rw [htext] at hsends
  refine ⟨_, listed, ⟨_, rest, rfl, rfl, rfl⟩, hsends.cons rfl,
    (List.pairwise_lt_finRange maxRooms).sublist hsub, fun i => ?_⟩
  obtain ⟨e, hmem, he⟩ := hlists i (List.mem_finRange i)
  exact ⟨e, List.mem_cons_of_mem _ hmem, he⟩

/-- One list is sent to the client, in ascending order; a room is listed with a name exactly
when it was in use with this name at the moment its lock was held; so rooms in use
with one name all the time are listed once, with that name, rooms free all the
time are not listed, and that there are no rooms is said only when each was free
at some moment. -/
theorem sendAvailRooms_regular
    (h : Prog.Exec exec R (sendAvailRooms client) s steps () s') :
    ∃ fd listed, ReadsFd client fd steps ∧
      SendsOnce fd cmdRoomListResponse (roomListText listed) steps ∧
      (listed.map Prod.fst).Pairwise (· < ·) ∧
      (∀ i, ∃ e ∈ steps, Lists i listed e) ∧
      (∀ i roomName, (∀ e ∈ steps, (e.before.rooms i).inUse = true ∧
          (e.before.rooms i).roomName = roomName) →
        ∀ roomName', (i, roomName') ∈ listed ↔ roomName' = roomName) ∧
      (∀ i, (∀ e ∈ steps, (e.before.rooms i).inUse = false) →
        ∀ roomName, (i, roomName) ∉ listed) ∧
      (listed = [] → ∀ i, ∃ e ∈ steps, (e.before.rooms i).inUse = false) := by
  obtain ⟨fd, listed, hfd, hsends, hascending, hlists⟩ := sendAvailRooms_exec h
  refine ⟨fd, listed, hfd, hsends, hascending, hlists, ?_, ?_, ?_⟩
  · intro i roomName hsame roomName'
    obtain ⟨e, hmem, -, hlisted⟩ := hlists i
    obtain ⟨huse, hname⟩ := hsame e hmem
    rw [hlisted roomName', hname]
    constructor
    · exact fun h => h.2.symm
    · exact fun h => ⟨huse, h.symm⟩
  · intro i hfree roomName hin
    obtain ⟨e, hmem, -, hlisted⟩ := hlists i
    have huse := ((hlisted roomName).mp hin).1
    rw [hfree e hmem] at huse
    cases huse
  · intro hnil i
    obtain ⟨e, hmem, -, hlisted⟩ := hlists i
    refine ⟨e, hmem, ?_⟩
    rw [← Bool.not_eq_true]
    intro huse
    have hin := (hlisted _).mpr ⟨huse, rfl⟩
    rw [hnil] at hin
    cases hin

end List

end ChatApp.Server
