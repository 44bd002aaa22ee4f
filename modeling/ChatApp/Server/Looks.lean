import ChatApp.Foundation.Notes
import ChatApp.Server.Scans

/-!
# What a list is made of

Every thread notes the rooms whose locks it takes, with their names when they
are in use, and the lists of rooms it sends.  A list is made of the thread's own
last notes: one of every room, in ascending order (`list_noted`).
-/

namespace ChatApp.Server

open ChatApp.Foundation

variable {N C : Nat}

/-! ## Notes -/

/-- The lock of a room is taken, and the room is free or in use with a name; or
a list of rooms is sent. -/
inductive Note where
  | room (i : Fin maxRooms) (name? : Option Bytes)
  | list (fd : Fd) (roomListMsg : Bytes)
  deriving DecidableEq

/-- The name of a room that is in use. -/
def Room.name? (room : Room N C) : Option Bytes :=
  if room.inUse then some room.roomName else none

/-- The notes of all sections of rooms, and the lists. -/
def Act.look (a : Act N C) (s : State N C) : Option Note :=
  match a with
  | .send fd cmdType message =>
      if cmdType = cmdRoomListResponse then some (.list fd message) else none
  | a => a.room?.map fun i => .room i (s.rooms i).name?

theorem look_room {a : Act N C} {s : State N C} {i : Fin maxRooms}
    {name? : Option Bytes} (h : a.look s = some (.room i name?)) :
    a.room? = some i ∧ (s.rooms i).name? = name? := by
  cases a
  case send fd cmdType message =>
    obtain ⟨-, heq⟩ := Option.ite_none_right_eq_some.mp h
    cases heq
  all_goals
    cases h
    try exact ⟨rfl, rfl⟩

/-- The notes of the sections of `send_avail_rooms` only, and the lists. -/
def Act.scan (a : Act N C) (s : State N C) : Option Note :=
  match a with
  | .listSection i _ => some (.room i (s.rooms i).name?)
  | .send fd cmdType message =>
      if cmdType = cmdRoomListResponse then some (.list fd message) else none
  | _ => none

/-- What the list of rooms needs of what is noted. -/
structure Noting (note : Act N C → State N C → Option Note) : Prop where
  room : ∀ i msg s, note (.listSection i msg) s =
    some (.room i (s.rooms i).name?)
  sprintf : ∀ buffer len s, note (.sprintf buffer len) s = none
  list : ∀ a s fd msg, note a s = some (.list fd msg) →
    a = .send fd cmdRoomListResponse msg

theorem noting_look : Noting (Act.look (N := N) (C := C)) := by
  refine ⟨fun _ _ _ => rfl, fun _ _ _ => rfl, fun a s fd msg h => ?_⟩
  cases a
  case send fd' cmdType message =>
    obtain ⟨rfl, heq⟩ := Option.ite_none_right_eq_some.mp h
    cases heq
    rfl
  all_goals cases h

theorem noting_scan : Noting (Act.scan (N := N) (C := C)) := by
  refine ⟨fun _ _ _ => rfl, fun _ _ _ => rfl, fun a s fd msg h => ?_⟩
  cases a
  case send fd' cmdType message =>
    obtain ⟨rfl, heq⟩ := Option.ite_none_right_eq_some.mp h
    cases heq
    rfl
  all_goals cases h

/-! ## Lists of rooms -/

/-- The last notes are those of the given rooms. -/
def Saw (seen : Fin maxRooms → Option Bytes) (rooms : List (Fin maxRooms))
    (notes : List Note) : Prop :=
  (rooms.map fun i => Note.room i (seen i)) <:+ notes

/-- The rooms seen in use, with their names. -/
def tableOf (seen : Fin maxRooms → Option Bytes) (rooms : List (Fin maxRooms)) :
    List (Fin maxRooms × Bytes) :=
  rooms.filterMap fun i => (seen i).map (Prod.mk i)

/-- The rooms before room `i`. -/
def roomsBefore (i : Fin maxRooms) : List (Fin maxRooms) :=
  (List.finRange maxRooms).take i

/-- What `send_avail_rooms` takes from its thread's notes: the list is extended
and sent as the rooms visited so far make it. -/
def Act.Lists (a : Act N C) (notes : List Note) : Prop :=
  match a with
  | .listSection i roomListMsg =>
      ∃ seen, Saw seen (roomsBefore i) notes ∧
        roomListMsg = roomListHeader ++ roomLines (tableOf seen (roomsBefore i))
  | .send _ cmdType message =>
      cmdType = cmdRoomListResponse →
        ∃ seen, Saw seen (List.finRange maxRooms) notes ∧
          message = roomListText (tableOf seen (List.finRange maxRooms))
  | .sprintf buffer len => buffer ≠ .messageBuffer ∧
      (buffer = .roomListMsg → len = (roomListHeader ++ noRoomsText).length)
  | _ => True

section Saw

variable {seen seen' : Fin maxRooms → Option Bytes} {rooms : List (Fin maxRooms)}
  {notes : List Note}

theorem tableOf_congr (h : ∀ i ∈ rooms, seen i = seen' i) :
    tableOf seen rooms = tableOf seen' rooms := by
  unfold tableOf
  refine List.filterMap_congr fun i hi => ?_
  rw [h i hi]

/-- One more room is visited. -/
theorem Saw.snoc (h : Saw seen rooms notes) {i : Fin maxRooms}
    (hi : i ∉ rooms) (name? : Option Bytes) :
    Saw (Function.update seen i name?) (rooms ++ [i])
      (notes ++ [.room i name?]) := by
  have hsame : (rooms.map fun k => Note.room k (Function.update seen i name? k)) =
      rooms.map fun k => Note.room k (seen k) := by
    refine List.map_congr_left fun k hk => ?_
    rw [Function.update_of_ne]
    rintro rfl
    exact hi hk
  obtain ⟨earlier, rfl⟩ := h
  refine ⟨earlier, ?_⟩
  rw [List.map_append, hsame, List.append_assoc]
  simp

theorem tableOf_snoc {i : Fin maxRooms} (hi : i ∉ rooms) (name? : Option Bytes) :
    tableOf (Function.update seen i name?) (rooms ++ [i]) =
      tableOf seen rooms ++ (name?.map (Prod.mk i)).toList := by
  have hsame : tableOf (Function.update seen i name?) rooms =
      tableOf seen rooms := by
    refine tableOf_congr fun k hk => Function.update_of_ne ?_ _ _
    rintro rfl
    exact hi hk
  rw [← hsame]
  unfold tableOf
  rw [List.filterMap_append]
  cases name? <;> simp

end Saw

theorem mem_tableOf {seen : Fin maxRooms → Option Bytes} {i : Fin maxRooms}
    {roomName : Bytes} :
    (i, roomName) ∈ tableOf seen (List.finRange maxRooms) ↔
      seen i = some roomName := by
  unfold tableOf
  rw [List.mem_filterMap]
  constructor
  · rintro ⟨k, -, hk⟩
    obtain ⟨name, hname, heq⟩ := Option.map_eq_some_iff.mp hk
    cases heq
    exact hname
  · intro h
    exact ⟨i, List.mem_finRange i, by rw [h]; rfl⟩

theorem tableOf_ascending (seen : Fin maxRooms → Option Bytes) :
    ((tableOf seen (List.finRange maxRooms)).map Prod.fst).Pairwise (· < ·) := by
  refine (List.pairwise_lt_finRange maxRooms).sublist ?_
  unfold tableOf
  generalize List.finRange maxRooms = rooms
  induction rooms with
  | nil => exact .slnil
  | cons i rest ih =>
      cases h : seen i with
      | none => simpa [h] using ih.cons i
      | some name => simpa [h] using ih

/-- The rooms visited before room `i` are those before it. -/
theorem eq_roomsBefore {visited rest : List (Fin maxRooms)} {i : Fin maxRooms}
    (h : visited ++ i :: rest = List.finRange maxRooms) :
    visited = roomsBefore i ∧ i ∉ visited := by
  have hlength : visited.length = i := by
    have hget : (visited ++ i :: rest)[visited.length]? = some i := by simp
    rw [h, List.getElem?_eq_some_iff] at hget
    obtain ⟨hlt, heq⟩ := hget
    rw [List.getElem_finRange] at heq
    rw [← heq]
    rfl
  refine ⟨?_, ?_⟩
  · unfold roomsBefore
    rw [← h, ← hlength, List.take_left]
  · have hnodup := List.nodup_finRange maxRooms
    rw [← h] at hnodup
    exact fun hi => (List.nodup_append.mp hnodup).2.2 i hi i List.mem_cons_self rfl

/-! ## Every thread follows its notes -/

section Follows

variable {note : Act N C → State N C → Option Note}

/-- The program takes its lists from the notes. -/
abbrev FollowsNotes (note : Act N C → State N C → Option Note) {α : Type}
    (prog : ServerProg N C α) (notes : List Note) : Prop :=
  Prog.Follows exec note Act.Lists (fun _ _ => True) prog notes

/-- The rest of a scan, after the rooms visited. -/
theorem follows_listScan (hnote : Noting note) (fd : Fd)
    (rooms : List (Fin maxRooms)) :
    ∀ (visited : List (Fin maxRooms)) (seen : Fin maxRooms → Option Bytes)
      (roomListMsg : Bytes) (roomsAvail : Bool) (notes : List Note),
      visited ++ rooms = List.finRange maxRooms →
      Saw seen visited notes →
      roomListMsg = roomListHeader ++ roomLines (tableOf seen visited) →
      (roomsAvail = true ↔ tableOf seen visited ≠ []) →
      FollowsNotes note (listScan fd roomListMsg roomsAvail rooms) notes := by
  induction rooms with
  | nil =>
      intro visited seen roomListMsg roomsAvail notes hall hsaw hmsg havail
      rw [List.append_nil] at hall
      subst hall
      cases roomsAvail with
      | true =>
          have hne := havail.mp rfl
          refine ⟨fun _ => ⟨seen, hsaw, ?_⟩, fun _ _ _ _ => trivial⟩
          rw [hmsg, roomListText, if_neg hne, List.append_nil]
      | false =>
          have hnil : tableOf seen (List.finRange maxRooms) = [] := by
            by_contra hne
            cases havail.mpr hne
          have hheader : roomListMsg = roomListHeader := by
            rw [hmsg, hnil]
            exact List.append_nil _
          refine ⟨⟨by decide, fun _ => by rw [hheader]⟩, fun s _ _ _ => ?_⟩
          rw [hnote.sprintf]
          refine ⟨fun _ => ⟨seen, by simpa using hsaw, ?_⟩, fun _ _ _ _ => trivial⟩
          rw [hmsg, roomListText, if_pos hnil]
  | cons i rest ih =>
      intro visited seen roomListMsg roomsAvail notes hall hsaw hmsg havail
      obtain ⟨hbefore, hi⟩ := eq_roomsBefore hall
      refine ⟨⟨seen, hbefore ▸ hsaw, hbefore ▸ hmsg⟩, fun s answer s' he => ?_⟩
      rw [hnote.room]
      have hall' : (visited ++ [i]) ++ rest = List.finRange maxRooms := by
        rw [List.append_assoc]
        exact hall
      have htable : tableOf (Function.update seen i (s.rooms i).name?) _ = _ :=
        tableOf_snoc hi _
      rcases exec_listSection he with ⟨hfree, rfl, -⟩ | ⟨huse, rfl, -⟩
      · have hname : (s.rooms i).name? = none := by simp [Room.name?, hfree]
        rw [hname] at htable ⊢
        have hsame := htable.trans (List.append_nil _)
        exact ih _ _ _ _ _ hall' (hsaw.snoc hi none) (by rw [hsame]; exact hmsg)
          (by rw [hsame]; exact havail)
      · have hname : (s.rooms i).name? = some (s.rooms i).roomName := by
          simp [Room.name?, huse]
        rw [hname] at htable ⊢
        refine ih _ _ _ _ _ hall' (hsaw.snoc hi _) ?_ ?_
        · rw [htable, hmsg]
          simp [roomLines]
        · rw [htable]
          simp

theorem follows_sendAvailRooms (hnote : Noting note) (c : ClientPtr N C)
    (notes : List Note) : FollowsNotes note (sendAvailRooms c) notes := by
  refine ⟨trivial, fun _ _ _ _ => ?_⟩
  refine follows_listScan hnote _ _ [] (fun _ => none) _ _ _ rfl
    (List.nil_suffix) ?_ ?_
  · exact (List.append_nil _).symm
  · simp [tableOf]

/-- Besides lists the actions of a program send and build no lists. -/
def Act.Aside (a : Act N C) : Prop :=
  ∀ notes, a.Lists notes

theorem aside_send {fd : Fd} {cmdType : UInt8} {message : Bytes}
    (h : cmdType ≠ cmdRoomListResponse) :
    (Act.send fd cmdType message : Act N C).Aside :=
  fun _ heq => absurd heq h

theorem aside_sprintf {buffer : Buffer} {len : Nat} (h : buffer ≠ .roomListMsg)
    (h' : buffer ≠ .messageBuffer) : (Act.sprintf buffer len : Act N C).Aside :=
  fun _ => ⟨h', fun heq => absurd heq h⟩

theorem follows_of_all {α : Type} {prog : ServerProg N C α}
    (h : Prog.All Act.Aside prog) (notes : List Note) :
    FollowsNotes note prog notes :=
  .of_all h notes

theorem aside_createScan (c : ClientPtr N C) (fd : Fd)
    (roomName successMsg : Bytes) (rooms : List (Fin maxRooms)) :
    Prog.All Act.Aside (createScan c fd roomName successMsg rooms) := by
  induction rooms with
  | nil => exact all_one (aside_send (by decide))
  | cons i rest ih =>
      refine ⟨fun _ => trivial, fun created => ?_⟩
      cases created with
      | true => trivial
      | false => exact ih

theorem aside_createChatRoom (c : ClientPtr N C) :
    Prog.All Act.Aside (createChatRoom c) := by
  refine ⟨fun _ => trivial, fun self =>
    ⟨aside_sprintf (by decide) (by decide), fun _ => ?_⟩⟩
  show Prog.All _ (if _ then _ else _)
  split
  · exact all_one (aside_send (by decide))
  · exact aside_createScan _ _ _ _ _

theorem aside_joinChatRoom (c : ClientPtr N C) :
    Prog.All Act.Aside (joinChatRoom c) := by
  refine ⟨fun _ => trivial, fun self =>
    ⟨aside_sprintf (by decide) (by decide), fun _ => ?_⟩⟩
  cases parseRoomNumber self.currentMsg with
  | none => exact all_one (aside_send (by decide))
  | some roomIndex =>
      dsimp only
      split
      · exact all_one fun _ => trivial
      · exact all_one (aside_send (by decide))

theorem aside_handleInChatRoom (c : ClientPtr N C) (self : Client) :
    Prog.All Act.Aside (handleInChatRoom c self) := by
  unfold handleInChatRoom
  dsimp only
  split
  · exact ⟨aside_sprintf (by decide) (by decide), fun _ => all_one fun _ => trivial⟩
  · exact ⟨aside_sprintf (by decide) (by decide), fun _ => ⟨fun _ => trivial, fun _ =>
      ⟨fun _ => trivial, fun _ => all_one fun _ => trivial⟩⟩⟩

theorem aside_disconnection (c : ClientPtr N C) :
    Prog.All Act.Aside (handleClientDisconnection c) := by
  have hcleanup : Prog.All Act.Aside (cleanupClient c) :=
    ⟨fun _ => trivial, fun _ => ⟨fun _ => trivial, fun _ =>
      ⟨fun _ => trivial, fun _ => all_one fun _ => trivial⟩⟩⟩
  rw [handleClientDisconnection_eq]
  refine ⟨fun _ => trivial, fun self => ?_⟩
  show Prog.All _ (if self.state = .inChatRoom then _ else _)
  split
  · have hleave : Prog.All Act.Aside (leaveRoom c self.roomIndex) :=
      all_one fun _ => trivial
    exact hleave.bind fun _ => hcleanup
  · exact hcleanup

theorem follows_handleAwaitingUsername (hnote : Noting note)
    (c : ClientPtr N C) (self : Client) (notes : List Note) :
    FollowsNotes note (handleAwaitingUsername c self) notes := by
  unfold handleAwaitingUsername
  dsimp only
  split
  · exact follows_of_all (all_one (aside_send (by decide))) _
  · exact ⟨trivial, fun _ _ _ _ => ⟨trivial, fun _ _ _ _ =>
      follows_sendAvailRooms hnote c _⟩⟩

theorem follows_handleInChatLobby (hnote : Noting note) (c : ClientPtr N C)
    (self : Client) (notes : List Note) :
    FollowsNotes note (handleInChatLobby c self) notes := by
  unfold handleInChatLobby
  dsimp only
  split
  · exact follows_of_all (aside_createChatRoom c) _
  split
  · exact follows_of_all (aside_joinChatRoom c) _
  split
  · exact follows_sendAvailRooms hnote c _
  · trivial

theorem follows_dispatch (hnote : Noting note) (c : ClientPtr N C)
    (self : Client) (notes : List Note) :
    FollowsNotes note (dispatch c self) notes := by
  unfold dispatch
  cases hr : refusal self with
  | some answer =>
      exact follows_of_all (all_one (aside_send (refusal_code hr (by decide)))) _
  | none =>
      unfold handleAccepted
      dsimp only
      split
      · exact follows_of_all (aside_disconnection c) _
      · cases self.state with
        | awaitingUsername => exact follows_handleAwaitingUsername hnote c self _
        | inChatLobby => exact follows_handleInChatLobby hnote c self _
        | inChatRoom => exact follows_of_all (aside_handleInChatRoom c self) _

theorem follows_messageLoop (hnote : Noting note) (c : ClientPtr N C)
    (fuel : Nat) :
    ∀ (temp : Bytes) (notes : List Note),
      FollowsNotes note (messageLoop c fuel temp) notes := by
  induction fuel with
  | zero => exact fun _ _ => trivial
  | succ fuel ih =>
      intro temp notes
      unfold messageLoop
      cases strstrTerminator temp with
      | some out =>
          have hroute : ∀ notes,
              FollowsNotes note (routeClientCommand c) notes := by
            intro notes
            rw [routeClientCommand_eq]
            exact ⟨trivial, fun _ self _ _ => follows_dispatch hnote c self _⟩
          refine ⟨trivial, fun _ _ _ _ => (hroute _).bind fun _ notes _ => ?_⟩
          exact ⟨trivial, fun _ _ _ _ => ih out.2 _⟩
      | none =>
          dsimp only
          split
          · trivial
          · exact ⟨trivial, fun _ _ _ _ => trivial⟩

theorem Act.ofRegister.aside {w : Fin N} {a : Act N C}
    (ha : a.ofRegister w) : a.Aside := by
  cases a
  case send fd cmdType message =>
    obtain ⟨rfl, -⟩ := ha
    exact aside_send (by decide)
  all_goals first | exact fun _ => trivial | cases ha

theorem Act.ofMain.aside {a : Act N C} (ha : a.ofMain) : a.Aside := by
  cases a
  case send fd cmdType message =>
    rcases ha with ⟨rfl, -⟩ | ⟨rfl, -⟩
    · exact aside_send (by decide)
    · exact aside_send (by decide)
  all_goals first | exact fun _ => trivial | cases ha

/-- Every job takes its lists from its thread's notes. -/
theorem follows_job (hnote : Noting note) (t : Thread N) (j : Job N C)
    (notes : List Note) : FollowsNotes note (jobProg t j) notes := by
  cases j with
  | accept fd keepAliveOk writeOk =>
      cases t with
      | main =>
          exact follows_of_all ((all_acceptClient fd keepAliveOk writeOk).imp
            fun _ => Act.ofMain.aside) _
      | worker w => trivial
  | register readOk epollOk =>
      cases t with
      | main => trivial
      | worker w =>
          exact follows_of_all (all_registering (fun _ => trivial)
            (fun _ => Act.ofRegister.aside) epollOk) _
  | receive client result =>
      cases t with
      | main => trivial
      | worker w =>
          cases result with
          | nothing wouldBlock =>
              cases wouldBlock with
              | true => trivial
              | false => exact follows_of_all (aside_disconnection client) _
          | data bytes => exact follows_messageLoop hnote client _ _ _
  | hangUp client =>
      cases t with
      | main => trivial
      | worker w => exact follows_of_all (aside_disconnection client) _

end Follows

section Runs

variable [NeZero N] {note : Act N C → State N C → Option Note}
  {ok : State N C → Step N C → Prop} {es : List (Thread N × Note)}
  {k : Configuration N C}

/-- **A list is made of the last notes of its thread**: one of every room, in
ascending order. -/
theorem list_noted (hnote : Noting note)
    (hrun : (server N C).Logged ok (noteLog note) (Configuration.init N C) es k)
    {before after : List (Thread N × Note)} {t : Thread N} {fd : Fd}
    {roomListMsg : Bytes}
    (hes : es = before ++ (t, .list fd roomListMsg) :: after) :
    ∃ seen, Saw seen (List.finRange maxRooms) (notesOf t before) ∧
      roomListMsg = roomListText (tableOf seen (List.finRange maxRooms)) := by
  refine System.Logged.noted (X := fun notes e => ∀ fd msg, e = .list fd msg →
    ∃ seen, Saw seen (List.finRange maxRooms) notes ∧
      msg = roomListText (tableOf seen (List.finRange maxRooms)))
    (fun t j _ notes _ => follows_job hnote t j notes) (fun _ => rfl) ?_ hrun hes
    fd roomListMsg rfl
  rintro a s notes e ha he fd msg rfl
  rw [hnote.list a s fd msg he] at ha
  exact ha rfl

end Runs

end ChatApp.Server
