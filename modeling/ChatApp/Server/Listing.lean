import ChatApp.Foundation.Lines
import ChatApp.Server.Atomicity

/-!
# The room list

What the list says of the rooms among creations, joins and leaves of the other
threads.  The scan reads whole rooms: a name that is read with the room's lock
held is the name of the room in a run of whole sections.
-/

namespace ChatApp.Server

open ChatApp.Foundation

variable {N C : Nat}

/-! ## Among other threads -/

theorem codeNote_room {a : LockAct (Thread N) (Lock N) (Access N C)}
    {g g' : Guarded (Thread N) (Lock N) (Memory N C)}
    {answer : a.Answer Access.Answer} {i : Fin maxRooms} {name? : Option Bytes}
    (h : codeNote a g = some (.room i name?))
    (he : (codeServer N C).exec a g = some (answer, g')) :
    g.holder (.room i) = none ∧ (g.state.rooms i).name? = name? := by
  cases a with
  | lock t l =>
      cases l with
      | room j =>
          cases h
          obtain ⟨hfree, -⟩ := Option.ite_none_right_eq_some.mp he
          exact ⟨hfree, rfl⟩
      | _ => cases h
  | unlock t l => cases h
  | step a =>
      cases a
      case plain a hplain =>
        obtain ⟨hroom, -⟩ := look_room h
        cases a <;> cases hroom
        all_goals cases hplain
      all_goals cases h

/-- The notes of a run of the accesses. -/
abbrev CodeLogged [NeZero N] (es : List (Thread N × Note))
    (k : CodeConfiguration N C) : Prop :=
  (codeServer N C).Logged CodeOk (noteLog codeNote) (CodeConfiguration.init N C)
    es k

/-- Between `before` and `after` a thread takes the free lock of room `i`; the
room in the memory, and that of the run of whole sections, has this name, or is
free. -/
structure FoundAt [NeZero N] (k : CodeConfiguration N C) (c : Configuration N C)
    (before after : List (Thread N × Note)) (i : Fin maxRooms)
    (name? : Option Bytes) : Prop where
  memory : ∃ k₁ : CodeConfiguration N C, CodeLogged before k₁ ∧
    (codeServer N C).Logged CodeOk (noteLog codeNote) k₁ after k ∧
    k₁.shared.holder (.room i) = none ∧
    (k₁.shared.state.rooms i).name? = name?
  whole : ∃ c₁ : Configuration N C,
    (server N C).Logged ReadsSucceed (noteLog Act.look) (Configuration.init N C)
      before c₁ ∧
    (server N C).Logged ReadsSucceed (noteLog Act.look) c₁ after c ∧
    (c₁.shared.rooms i).name? = name?

/-- The list that thread `t` sends after `before` has the rooms, in ascending
order, that were in use when it last took their locks, with their names then. -/
def ListRegular [NeZero N] (k : CodeConfiguration N C) (c : Configuration N C)
    (before : List (Thread N × Note)) (t : Thread N) (fd : Fd) (list : Bytes)
    (after : List (Thread N × Note)) : Prop :=
  ∃ (seen : Fin maxRooms → Option Bytes) (listed : List (Fin maxRooms × Bytes)),
    list = roomListText listed ∧
    (listed.map Prod.fst).Pairwise (· < ·) ∧
    (∀ i roomName, (i, roomName) ∈ listed ↔ seen i = some roomName) ∧
    ∀ i : Fin maxRooms, ∃ earlier later,
      before = earlier ++ (t, .room i (seen i)) :: later ∧
      notesOf t later = ((List.finRange maxRooms).drop (i + 1)).map
        (fun j => Note.room j (seen j)) ∧
      FoundAt k c earlier ((t, .room i (seen i)) :: later ++
        (t, .list fd list) :: after) i (seen i)

section Regular

variable [NeZero N] {es : List (Thread N × Note)} {k : CodeConfiguration N C}
  {c : Configuration N C}

/-- The moment of a note about a room. -/
theorem found_at (hcode : CodeLogged es k)
    (hrun : (server N C).Logged ReadsSucceed (noteLog Act.look)
      (Configuration.init N C) es c)
    {before after : List (Thread N × Note)} {t : Thread N} {i : Fin maxRooms}
    {name? : Option Bytes} (hes : es = before ++ (t, .room i name?) :: after) :
    FoundAt k c before ((t, .room i name?) :: after) i name? := by
  obtain ⟨k₁, hbefore, hafter, a, answer, g, hnote, he⟩ := hcode.at_note hes
  obtain ⟨hfree, hname⟩ := codeNote_room hnote he
  obtain ⟨c₁, hbefore', hafter', a', -, -, hnote', -⟩ := hrun.at_note hes
  exact ⟨⟨k₁, hbefore, hafter, hfree, hname⟩,
    ⟨c₁, hbefore', hafter', (look_room hnote').2⟩⟩

/-- What a list that is sent says of the rooms. -/
theorem list_found (hcode : CodeLogged es k)
    (hrun : (server N C).Logged ReadsSucceed (noteLog Act.look)
      (Configuration.init N C) es c)
    {before after : List (Thread N × Note)} {t : Thread N} {fd : Fd}
    {list : Bytes} (hes : es = before ++ (t, .list fd list) :: after) :
    ListRegular k c before t fd list after := by
  obtain ⟨seen, ⟨first, hsaw⟩, hlist⟩ := list_noted noting_look hrun hes
  refine ⟨seen, _, hlist, tableOf_ascending seen, fun i roomName => mem_tableOf,
    fun i => ?_⟩
  have hlt : i.val < (List.finRange maxRooms).length := by simp
  have hsplit : List.finRange maxRooms = (List.finRange maxRooms).take i ++
      i :: (List.finRange maxRooms).drop (i + 1) := by
    conv_lhs => rw [← List.take_append_drop i (List.finRange maxRooms),
      List.drop_eq_getElem_cons hlt]
    simp
  rw [hsplit, List.map_append, List.map_cons, ← List.append_assoc] at hsaw
  obtain ⟨earlier, later, rfl, -, hlater⟩ := notesOf_split hsaw.symm
  refine ⟨earlier, later, rfl, hlater, ?_⟩
  refine found_at hcode hrun ?_
  rw [hes, List.append_assoc]
  rfl

/-- **The room list is regular.**  Whatever the other threads do during a call
of `send_avail_rooms`, one list is sent to the client, in ascending order; it has
a room with a name exactly when the room was in use with this name at the moment
its lock was held; so rooms in use with one name all the time are listed once,
with that name, rooms free all the time are not listed, and that there are no
rooms is said only when each was free at some moment.  And in every run of single
accesses, in which names are written byte by byte, the names in a list are those
that the rooms had when the lister took their locks, in the memory and in the run
of whole sections that it is coupled with. -/
theorem room_list_run :
    (∀ (R : State N C → State N C → Prop) (client : ClientPtr N C)
        (s s' : State N C) (steps : Steps N C),
      Prog.Exec exec R (sendAvailRooms client) s steps () s' →
      ∃ fd listed, ReadsFd client fd steps ∧
        SendsOnce fd cmdRoomListResponse (roomListText listed) steps ∧
        (listed.map Prod.fst).Pairwise (· < ·) ∧
        (∀ i, ∃ e ∈ steps, Lists i listed e) ∧
        (∀ i roomName, (∀ e ∈ steps, (e.before.rooms i).inUse = true ∧
            (e.before.rooms i).roomName = roomName) →
          ∀ roomName', (i, roomName') ∈ listed ↔ roomName' = roomName) ∧
        (∀ i, (∀ e ∈ steps, (e.before.rooms i).inUse = false) →
          ∀ roomName, (i, roomName) ∉ listed) ∧
        (listed = [] →
          ∀ i, ∃ e ∈ steps, (e.before.rooms i).inUse = false)) ∧
    ∀ (es : List (Thread N × Note)) (k : CodeConfiguration N C),
      CodeLogged es k →
      ∃ c : Configuration N C,
        (server N C).Logged ReadsSucceed (noteLog Act.look)
          (Configuration.init N C) es c ∧
        Matches k.shared c.shared ∧
        ∀ before t fd list after, es = before ++ (t, .list fd list) :: after →
          ListRegular k c before t fd list after := by
  refine ⟨fun _ _ _ _ _ => sendAvailRooms_regular, fun es k hcode => ?_⟩
  obtain ⟨c, phases, hrun, hcoupled⟩ := coupled_logged hcode
  obtain ⟨ls, hls⟩ := hrun.run
  exact ⟨c, hrun, hcoupled.rel.matches (good_run hls).1,
    fun _ _ _ _ _ hes => list_found hcode hrun hes⟩

end Regular

/-- One client has opened a room; a second one is about to create a room, and a
third one to be sent the list. -/
def pitOpening : List (Thread maxThreads × Job maxThreads maxClientsPerThread) :=
  opensRoom 0 (text "bob") (text "den") ++ connects 1 ++
    [sends 1 (frame cmdUsernameSubmit (text "dan"))] ++ connects 2

/-- What is noted until half of the name of room 1 is written. -/
def pitHalf : List (Thread maxThreads × Note) :=
  [(.worker (workerOf 2), .room 0 (some (text "den"))),
    (.worker (workerOf 1), .room 0 (some (text "den"))),
    (.worker (workerOf 1), .room 1 none)]

/-- What the lister notes when the room is there. -/
def pitRest : List (Thread maxThreads × Note) :=
  (.worker (workerOf 2), .room 1 (some (text "pit"))) ::
    ((List.finRange maxRooms).drop 2).map fun i =>
      (.worker (workerOf 2), .room i none)

theorem pit_half_written : ∃ opened,
    ∃ k₁ k₂ : CodeConfiguration maxThreads maxClientsPerThread,
    CodeLogged (opened ++ pitHalf) k₁ ∧
      (k₁.shared.state.rooms 1).roomName = text "pi" ∧
      CodeLogged (opened ++ pitHalf ++ (pitRest ++ [(.worker (workerOf 2),
        .list 7 (roomListText [(0, text "den"), (1, text "pit")]))])) k₂ := by
  have hplay : ((scriptCode (finishing pitOpening)
      (CodeConfiguration.init maxThreads maxClientsPerThread)).bind fun opened =>
        (scriptCode
          [.give (.worker (workerOf 2)) (.receive (clientOf 2)
            (.data (frame cmdUsernameSubmit (text "eve")))),
          .act (.worker (workerOf 2)) 9,
          .give (.worker (workerOf 1)) (.receive (clientOf 1)
            (.data (frame cmdRoomCreateRequest (text "pit")))),
          .act (.worker (workerOf 1)) 13] opened.2).bind fun half =>
        (scriptCode [.act (.worker (workerOf 1)) 1000,
          .act (.worker (workerOf 2)) 1000] half.2).map fun rest =>
        (half.1, (half.2.shared.state.rooms 1).roomName, rest.1)) =
      some (pitHalf, text "pi", pitRest ++ [(.worker (workerOf 2),
        .list 7 (roomListText [(0, text "den"), (1, text "pit")]))]) := by
    decide +kernel
  obtain ⟨⟨opened, k₀⟩, hopened, hplay⟩ := Option.bind_eq_some_iff.mp hplay
  obtain ⟨⟨half, k₁⟩, hhalf, hplay⟩ := Option.bind_eq_some_iff.mp hplay
  obtain ⟨⟨rest, k₂⟩, hrest, heq⟩ := Option.map_eq_some_iff.mp hplay
  obtain ⟨rfl, heq⟩ := Prod.mk.inj heq
  obtain ⟨hname, rfl⟩ := Prod.mk.inj heq
  have h₁ := scriptCode_logged (scriptCode_logged .nil hopened) hhalf
  exact ⟨opened, k₁, k₂, h₁, hname, scriptCode_logged h₁ hrest⟩

/-- The same with the whole creation between two sections of the lister. -/
theorem pit_between : ∃ (s s' : RealState)
    (steps : Steps maxThreads maxClientsPerThread),
    Prog.Exec exec (Meanwhile (workerOf 2)) (sendAvailRooms (clientOf 2)) s
      steps () s' := by
  have hplay : ((play (State.init maxThreads maxClientsPerThread) (pitOpening ++
      [sends 2 (frame cmdUsernameSubmit (text "eve"))])).bind fun s =>
        (Prog.advance exec 2 (sendAvailRooms (clientOf 2)) s).bind fun scan =>
        (play scan.2 [sends 1 (frame cmdRoomCreateRequest (text "pit"))]).bind
          fun s₂ => Prog.run exec scan.1 s₂).isSome = true := by
    decide +kernel
  obtain ⟨⟨⟨⟩, s'⟩, hout⟩ := Option.isSome_iff_exists.mp hplay
  obtain ⟨s, -, hout⟩ := Option.bind_eq_some_iff.mp hout
  obtain ⟨⟨p, s₁⟩, hadvance, hout⟩ := Option.bind_eq_some_iff.mp hout
  obtain ⟨s₂, hcreate, hout⟩ := Option.bind_eq_some_iff.mp hout
  obtain ⟨steps, hexec⟩ := Prog.exec_of_advance (R := Meanwhile (workerOf 2))
    (Meanwhile.refl _) (fun _ _ _ => Meanwhile.trans) hadvance
    (.one (by decide) hcreate) hout
  exact ⟨s, s', steps, hexec⟩

/-- While the lister waits for the lock of room 1, half of its name is written;
the list has the whole name. -/
theorem room_list_pit : ∃ opened c,
    ∃ k₁ k₂ : CodeConfiguration maxThreads maxClientsPerThread,
    CodeLogged (opened ++ pitHalf) k₁ ∧
      (k₁.shared.state.rooms 1).roomName = text "pi" ∧
      ListRegular k₂ c (opened ++ pitHalf ++ pitRest) (.worker (workerOf 2)) 7
        (roomListText [(0, text "den"), (1, text "pit")]) [] ∧
      ∃ (s s' : RealState) (steps : Steps maxThreads maxClientsPerThread) (fd : Fd)
        (listed : List (Fin maxRooms × Bytes)),
        Prog.Exec exec (Meanwhile (workerOf 2)) (sendAvailRooms (clientOf 2)) s
          steps () s' ∧
        ReadsFd (clientOf 2) fd steps ∧
        SendsOnce fd cmdRoomListResponse (roomListText listed) steps ∧
        ∀ i, ∃ e ∈ steps, Lists i listed e := by
  obtain ⟨opened, k₁, k₂, h₁, hname, h₂⟩ := pit_half_written
  obtain ⟨s, s', steps, hexec⟩ := pit_between
  obtain ⟨hscan, hlists⟩ :=
    room_list_run (N := maxThreads) (C := maxClientsPerThread)
  obtain ⟨fd, listed, hfd, hsends, -, hlisted, -⟩ := hscan _ _ _ _ _ hexec
  obtain ⟨c, -, -, hlist⟩ := hlists _ _ h₂
  refine ⟨opened, c, k₁, k₂, h₁, hname, ?_,
    s, s', steps, fd, listed, hexec, hfd, hsends, hlisted⟩
  exact hlist _ _ _ _ [] (List.append_assoc _ _ _).symm

/-! ## Reading the list -/

/-- A line of the list, `Room <index>: <name>`. -/
def readRoomLine (line : Bytes) : Option (Nat × Bytes) :=
  (line.dropPrefix? (text "Room ")).bind fun rest =>
    let digits := rest.takeWhile isDigit
    if digits = [] then none
    else
      ((rest.drop digits.length).dropPrefix? (text ": ")).map fun roomName =>
        (atoi digits, roomName)

/-- The rooms a list names, line by line after its two-line header. -/
def readRoomList (roomListMsg : Bytes) : List (Nat × Bytes) :=
  ((lines lf roomListMsg).drop 2).filterMap readRoomLine

/-- The rooms in use with their names, by index. -/
def State.roomTable (s : State N C) : List (Fin maxRooms × Bytes) :=
  (List.finRange maxRooms).filterMap fun i =>
    if (s.rooms i).inUse then some (i, (s.rooms i).roomName) else none

/-- What a reader should find. -/
def indexed (table : List (Fin maxRooms × Bytes)) : List (Nat × Bytes) :=
  table.map fun room => (room.1.val, room.2)

/-- The line of a room, without its newline. -/
def roomLine (room : Fin maxRooms × Bytes) : Bytes :=
  text "Room " ++ decimal room.1 ++ text ": " ++ room.2

theorem decimal_digits (i : Fin maxRooms) :
    decimal i ≠ [] ∧ (∀ d ∈ decimal i, isDigit d = true ∧ d ≠ lf) ∧
      atoi (decimal i) = i := by
  have hall : ∀ i : Fin maxRooms, decimal i ≠ [] ∧
      (decimal i).all (fun d => isDigit d && d != lf) = true ∧
        atoi (decimal i) = i := by
    decide
  obtain ⟨hne, hdigits, hatoi⟩ := hall i
  refine ⟨hne, fun d hd => ?_, hatoi⟩
  simpa using List.all_eq_true.mp hdigits d hd

/-- A line is read back, whatever the name. -/
theorem readRoomLine_roomLine (room : Fin maxRooms × Bytes) :
    readRoomLine (roomLine room) = some (room.1.val, room.2) := by
  obtain ⟨hne, hdigits, hatoi⟩ := decimal_digits room.1
  have hinitial : (roomLine room).dropPrefix? (text "Room ") =
      some (decimal room.1 ++ (text ": " ++ room.2)) := by
    rw [List.dropPrefix?_eq_some_iff]
    exact ⟨text "Room ", by simp [roomLine], beq_self_eq_true _⟩
  have htake : (decimal room.1 ++ (text ": " ++ room.2)).takeWhile isDigit =
      decimal room.1 := by
    rw [List.takeWhile_append_of_pos fun d hd => (hdigits d hd).1]
    have hcolon : (text ": " ++ room.2).takeWhile isDigit = [] := rfl
    rw [hcolon, List.append_nil]
  have hname : (text ": " ++ room.2).dropPrefix? (text ": ") =
      some room.2 := by
    rw [List.dropPrefix?_eq_some_iff]
    exact ⟨text ": ", rfl, beq_self_eq_true _⟩
  unfold readRoomLine
  rw [hinitial]
  show (if _ then _ else _) = _
  rw [htake, if_neg hne, List.drop_left, hname, hatoi]
  rfl

theorem roomLine_newline {room : Fin maxRooms × Bytes} (h : lf ∉ room.2) :
    lf ∉ roomLine room := by
  obtain ⟨-, hdigits, -⟩ := decimal_digits room.1
  have hroom : lf ∉ text "Room " := by decide
  have hcolon : lf ∉ text ": " := by decide
  have hindex : lf ∉ decimal room.1 := fun hmem => (hdigits lf hmem).2 rfl
  simp only [roomLine, List.mem_append, not_or]
  exact ⟨⟨⟨hroom, hindex⟩, hcolon⟩, h⟩

/-- The header is two lines. -/
theorem lines_header (t : Bytes) :
    (lines lf (roomListHeader ++ t)).drop 2 = lines lf t := by
  have htitle : lf ∉ text "=== Available Chat Rooms ===" := by decide
  have hheader : roomListHeader =
      text "=== Available Chat Rooms ===" ++ [lf, lf] := by decide
  have hsplit : roomListHeader ++ t =
      text "=== Available Chat Rooms ===" ++ lf :: ([] ++ lf :: t) := by
    rw [hheader, List.append_assoc]
    rfl
  rw [hsplit, lines_append htitle, lines_append List.not_mem_nil]
  rfl

/-- The lines of the list after its header are those of the rooms. -/
theorem lines_roomListText {table : List (Fin maxRooms × Bytes)}
    (h : ∀ room ∈ table, lf ∉ room.2) :
    (lines lf (roomListText table)).drop 2 =
      table.map roomLine ++
        lines lf (if table = [] then noRoomsText else []) := by
  unfold roomListText
  rw [List.append_assoc, lines_header]
  exact lines_flatMap roomLine table (fun room hmem => roomLine_newline (h room hmem)) _

/-- A name that is read is part of its line. -/
theorem mem_of_readRoomLine {line : Bytes} {room : Nat × Bytes}
    (h : readRoomLine line = some room) {b : UInt8} (hb : b ∈ room.2) :
    b ∈ line := by
  obtain ⟨rest, hrest, h⟩ := Option.bind_eq_some_iff.mp h
  obtain ⟨hdigits, h⟩ := Option.ite_none_left_eq_some.mp h
  obtain ⟨roomName, hname, rfl⟩ := Option.map_eq_some_iff.mp h
  obtain ⟨p, rfl, -⟩ := List.dropPrefix?_eq_some_iff.mp hrest
  obtain ⟨p', hdrop, -⟩ := List.dropPrefix?_eq_some_iff.mp hname
  have hmem : b ∈ rest.drop (rest.takeWhile isDigit).length := by
    rw [hdrop]
    exact List.mem_append_right _ hb
  exact List.mem_append_right _ (List.mem_of_mem_drop hmem)

/-- **Reading the list** gives back the rooms exactly when no name has a
newline. -/
theorem readRoomList_iff (table : List (Fin maxRooms × Bytes)) :
    readRoomList (roomListText table) = indexed table ↔
      ∀ room ∈ table, lf ∉ room.2 := by
  constructor
  · intro hread room hmem hnewline
    have hindexed : (room.1.val, room.2) ∈ indexed table :=
      List.mem_map.mpr ⟨room, hmem, rfl⟩
    rw [← hread] at hindexed
    obtain ⟨line, hline, hroom⟩ := List.mem_filterMap.mp hindexed
    exact not_mem_of_mem_lines (List.mem_of_mem_drop hline)
      (mem_of_readRoomLine hroom hnewline)
  · intro h
    have hrooms : (table.map roomLine).filterMap readRoomLine =
        indexed table := by
      rw [List.filterMap_map]
      unfold indexed
      rw [← List.filterMap_eq_map]
      congr 1
      funext room
      exact readRoomLine_roomLine room
    have htail : (lines lf (if table = [] then noRoomsText else [])).filterMap
        readRoomLine = [] := by
      split
      · decide +kernel
      · rfl
    unfold readRoomList
    rw [lines_roomListText h, List.filterMap_append, hrooms, htail,
      List.append_nil]

/-- Lists that can be read are of one table only. -/
theorem roomListText_inj {table table' : List (Fin maxRooms × Bytes)}
    (h : ∀ room ∈ table, lf ∉ room.2) (h' : ∀ room ∈ table', lf ∉ room.2)
    (htext : roomListText table = roomListText table') : table = table' := by
  have hread := (readRoomList_iff table).mpr h
  rw [htext, (readRoomList_iff table').mpr h'] at hread
  have hinj : Function.Injective
      fun room : Fin maxRooms × Bytes => (room.1.val, room.2) := by
    intro room room' heq
    obtain ⟨hindex, hname⟩ := Prod.mk.inj heq
    exact Prod.ext (Fin.ext hindex) hname
  exact (List.map_injective_iff.mpr hinj hread).symm

/-! ## Without concurrent changes -/

/-- No other thread changes a room. -/
def SameRooms (s s' : State N C) : Prop :=
  s'.rooms = s.rooms

/-- No room in use has a newline in its name. -/
def State.NamesOneLine (s : State N C) : Prop :=
  ∀ i, (s.rooms i).inUse = true → lf ∉ (s.rooms i).roomName

theorem mem_roomTable {s : State N C} {i : Fin maxRooms} {roomName : Bytes} :
    (i, roomName) ∈ s.roomTable ↔
      (s.rooms i).inUse = true ∧ (s.rooms i).roomName = roomName := by
  unfold State.roomTable
  rw [List.mem_filterMap]
  constructor
  · rintro ⟨k, -, hk⟩
    obtain ⟨huse, heq⟩ := Option.ite_none_right_eq_some.mp hk
    cases heq
    exact ⟨huse, rfl⟩
  · rintro ⟨huse, rfl⟩
    exact ⟨i, List.mem_finRange i, if_pos huse⟩

theorem State.NamesOneLine.iff {s : State N C} :
    (∀ room ∈ s.roomTable, lf ∉ room.2) ↔ s.NamesOneLine := by
  constructor
  · intro h i huse
    exact h (i, (s.rooms i).roomName) (mem_roomTable.mpr ⟨huse, rfl⟩)
  · rintro h ⟨i, roomName⟩ hmem
    obtain ⟨huse, rfl⟩ := mem_roomTable.mp hmem
    exact h i huse

/-- The table is in ascending order. -/
theorem roomTable_ascending (s : State N C) :
    s.roomTable.Pairwise fun room room' => room.1 < room'.1 := by
  apply List.Pairwise.filterMap _ _ (List.pairwise_lt_finRange maxRooms)
  intro i k hlt room hroom room' hroom'
  obtain ⟨-, heq⟩ := Option.ite_none_right_eq_some.mp hroom
  obtain ⟨-, heq'⟩ := Option.ite_none_right_eq_some.mp hroom'
  cases heq
  cases heq'
  exact hlt

/-- The list that is sent when no room changes. -/
theorem sendAvailRooms_quiet {client : ClientPtr N C} {s s' : State N C}
    {steps : Steps N C}
    (h : Prog.Exec exec SameRooms (sendAvailRooms client) s steps () s') :
    ∃ fd, ReadsFd client fd steps ∧
      SendsOnce fd cmdRoomListResponse (roomListText s.roomTable) steps := by
  obtain ⟨fd, listed, hfd, hsends, hascending, hlists⟩ := sendAvailRooms_exec h
  have hsame : ∀ e ∈ steps, e.before.rooms = s.rooms := by
    have hkeeps := h.keeps (I := fun t => t.rooms = s.rooms)
      (fun hR ht => hR.trans ht) ?_ rfl
    · exact fun e hmem => (hkeeps.1 e hmem).1
    · intro e hmem hbefore
      obtain ⟨b, he⟩ := h.mem_exec e hmem
      have hquiet := h.mem_of_all (quiet_sendAvailRooms client) e hmem
      have htext : e.action.isText = true := by
        revert hquiet
        cases e.action <;> simp [Act.isQuiet, Act.isText]
      exact (exec_sameControl htext he).rooms.trans hbefore
  have hmem : ∀ room, room ∈ listed ↔ room ∈ s.roomTable := by
    rintro ⟨i, roomName⟩
    obtain ⟨e, he, -, hlisted⟩ := hlists i
    rw [hlisted, hsame e he, mem_roomTable]
  have heq : listed = s.roomTable :=
    eq_of_ascending (List.pairwise_map.mp hascending) (roomTable_ascending s) hmem
  rw [← heq]
  exact ⟨fd, hfd, hsends⟩

/-- **Reading the list.**  With no concurrent change, the list that is sent gives
back the rooms in use with their names, in order, exactly when none of the names
has a newline; and tables without such names are never listed alike. -/
theorem room_list_readable {client : ClientPtr N C} {s s' : State N C}
    {steps : Steps N C}
    (h : Prog.Exec exec SameRooms (sendAvailRooms client) s steps () s') :
    ∃ fd list, ReadsFd client fd steps ∧
      SendsOnce fd cmdRoomListResponse list steps ∧
      (readRoomList list = indexed s.roomTable ↔ s.NamesOneLine) ∧
      ∀ s₂ : State N C, s.NamesOneLine → s₂.NamesOneLine →
        roomListText s₂.roomTable = list → s₂.roomTable = s.roomTable := by
  obtain ⟨fd, hfd, hsends⟩ := sendAvailRooms_quiet h
  refine ⟨fd, _, hfd, hsends, ?_, ?_⟩
  · rw [readRoomList_iff, State.NamesOneLine.iff]
  · intro s₂ hs hs₂ htext
    exact roomListText_inj (State.NamesOneLine.iff.mpr hs₂)
      (State.NamesOneLine.iff.mpr hs) htext

/-- A client is listed eleven rooms, its own among them. -/
theorem room_list_readable_eleven : ∃ (s s' : RealState) (steps : Steps _ _),
    Prog.Exec exec SameRooms (sendAvailRooms (clientOf 0)) s steps () s' ∧
      (10, text "room10") ∈ s.roomTable ∧ s.roomTable.length = 11 ∧
      ∃ fd list, ReadsFd (clientOf 0) fd steps ∧
        SendsOnce fd cmdRoomListResponse list steps ∧
        readRoomList list = indexed s.roomTable := by
  have hplay : ((play (State.init maxThreads maxClientsPerThread)
      ((List.range 11).flatMap fun n =>
        opensRoom n (text "bob") (text "room" ++ decimal n))).bind fun s =>
      (Prog.run exec (sendAvailRooms (clientOf 0)) s).map fun _ =>
        (decide ((10, text "room10") ∈ s.roomTable), s.roomTable.length,
          s.roomTable.all fun room => lf ∉ room.2)) = some (true, 11, true) := by
    decide +kernel
  obtain ⟨s, -, hrun⟩ := Option.bind_eq_some_iff.mp hplay
  obtain ⟨⟨⟨⟩, s'⟩, hrun, heq⟩ := Option.map_eq_some_iff.mp hrun
  obtain ⟨hten, heq⟩ := Prod.mk.inj heq
  obtain ⟨hlength, hnames⟩ := Prod.mk.inj heq
  obtain ⟨steps, hexec⟩ :=
    Prog.exec_of_run (R := SameRooms) (fun _ => rfl) hrun
  obtain ⟨fd, list, hfd, hsends, hread, -⟩ := room_list_readable hexec
  refine ⟨s, s', steps, hexec, of_decide_eq_true hten, hlength, fd, list, hfd,
    hsends, hread.mpr ?_⟩
  refine State.NamesOneLine.iff.mp fun room hmem => ?_
  exact of_decide_eq_true (List.all_eq_true.mp hnames room hmem)

/-- The list a client is sent when it submits its name is the same for one room
with a newline in its name and for two rooms. -/
theorem room_list_forged : ∃ (s₁ s₂ : RealState) (list : Bytes),
    play (State.init _ _)
        (opensRoom 0 (text "bob") (text "a\nRoom 1: b") ++ connects 1 ++
          [sends 1 (frame cmdUsernameSubmit (text "eve"))]) = some s₁ ∧
      play (State.init _ _)
        (opensRoom 0 (text "bob") (text "a") ++
          opensRoom 1 (text "den") (text "b") ++ connects 2 ++
          [sends 2 (frame cmdUsernameSubmit (text "eve"))]) = some s₂ ∧
      (framesTo 1 s₁.calls).getLast? = some (cmdRoomListResponse, list) ∧
      (framesTo 2 s₂.calls).getLast? = some (cmdRoomListResponse, list) ∧
      s₁.roomTable = [(0, text "a\nRoom 1: b")] ∧
      s₂.roomTable = [(0, text "a"), (1, text "b")] ∧
      readRoomList list ≠ indexed s₁.roomTable := by
  let list : Bytes :=
    text "=== Available Chat Rooms ===\n\nRoom 0: a\nRoom 1: b\n"
  have hforged : (play (State.init maxThreads maxClientsPerThread)
      (opensRoom 0 (text "bob") (text "a\nRoom 1: b") ++ connects 1 ++
        [sends 1 (frame cmdUsernameSubmit (text "eve"))])).map (fun s =>
          ((framesTo 1 s.calls).getLast?, s.roomTable)) =
        some (some (cmdRoomListResponse, list),
          [(0, text "a\nRoom 1: b")]) := by
    decide +kernel
  have htwo : (play (State.init maxThreads maxClientsPerThread)
      (opensRoom 0 (text "bob") (text "a") ++
        opensRoom 1 (text "den") (text "b") ++ connects 2 ++
        [sends 2 (frame cmdUsernameSubmit (text "eve"))])).map (fun s =>
          ((framesTo 2 s.calls).getLast?, s.roomTable)) =
        some (some (cmdRoomListResponse, list),
          [(0, text "a"), (1, text "b")]) := by
    decide +kernel
  obtain ⟨s₁, hs₁, heq₁⟩ := Option.map_eq_some_iff.mp hforged
  obtain ⟨s₂, hs₂, heq₂⟩ := Option.map_eq_some_iff.mp htwo
  obtain ⟨hlist₁, htable₁⟩ := Prod.mk.inj heq₁
  obtain ⟨hlist₂, htable₂⟩ := Prod.mk.inj heq₂
  refine ⟨s₁, s₂, list, hs₁, hs₂, hlist₁, hlist₂, htable₁, htable₂, ?_⟩
  rw [htable₁]
  decide +kernel

end ChatApp.Server
