import ChatApp.Server.System

/-!
# What the critical sections do

Closed forms of the sections of `Server/Actions.lean`, so that later proofs
never unfold a broadcast loop: a broadcast appends one send for each
recipient, in array order, and changes nothing else.
-/

namespace ChatApp.Server

variable {N C : Nat}

/-! ## Broadcasts -/

/-- The clients a broadcast goes to, in array order. -/
def Room.recipients (room : Room N C) (client : ClientPtr N C) :
    List (ClientPtr N C) :=
  ((List.finRange maxClientsRoom).filterMap room.clients).filter (· ≠ client)

theorem Room.mem_recipients {room : Room N C} {client c : ClientPtr N C} :
    c ∈ room.recipients client ↔
      (∃ j, room.clients j = some c) ∧ c ≠ client := by
  simp [Room.recipients]

/-- The send of one broadcast frame. -/
def roomSend (s : State N C) (msg : Bytes) (c : ClientPtr N C) : SysCall :=
  .send (s.clients c).clientFd (s.connOf c) cmdRoomMsg msg

/-- The sends and the journal entries of a broadcast. -/
def State.deliver (s : State N C) (msg : Bytes)
    (cs : List (ClientPtr N C)) : State N C :=
  { s with
    calls := s.calls ++ cs.map (roomSend s msg)
    journal := s.journal ++
      cs.map fun _ => .built .messageBuffer (msg.length + 4) }

theorem deliver_nil (s : State N C) (msg : Bytes) : s.deliver msg [] = s := by
  simp [State.deliver]

theorem deliver_cons (s : State N C) (msg : Bytes) (c : ClientPtr N C)
    (cs : List (ClientPtr N C)) :
    s.deliver msg (c :: cs) =
      (sendMessageToClient s (s.clients c).clientFd cmdRoomMsg msg).deliver
        msg cs := by
  simp [State.deliver, sendMessageToClient, roomSend, State.connOf]

/-- The loop of `broadcast_message_in_room` over any part of the array. -/
theorem broadcast_loop (msg : Bytes) (i : Fin maxRooms)
    (client : ClientPtr N C) (slots : List (Fin maxClientsRoom)) :
    ∀ s : State N C,
      slots.foldl
        (fun s j =>
          match (s.rooms i).clients j with
          | none => s
          | some c =>
              if c = client then s
              else sendMessageToClient s (s.clients c).clientFd cmdRoomMsg msg)
        s =
      s.deliver msg
        ((slots.filterMap (s.rooms i).clients).filter (· ≠ client)) := by
  induction slots with
  | nil => intro s; simp [deliver_nil]
  | cons j slots ih =>
      intro s
      rw [List.foldl_cons, ih]
      cases hj : (s.rooms i).clients j with
      | none => simp [hj]
      | some c =>
          by_cases hc : c = client
          · simp [hj, hc]
          · simp only [hc, if_false]
            rw [List.filterMap_cons_some hj, List.filter_cons_of_pos (by simpa)]
            rw [deliver_cons]
            rfl

theorem broadcast_eq (s : State N C) (msg : Bytes) (i : Fin maxRooms)
    (client : ClientPtr N C) :
    broadcastMessageInRoom s msg i client =
      s.deliver msg ((s.rooms i).recipients client) :=
  broadcast_loop msg i client _ s

/-! ## Rooms -/

/-- The room whose lock the action takes. -/
def Act.room? : Act N C → Option (Fin maxRooms)
  | .createSection i .. | .listSection i _ | .joinSection i ..
  | .chatSection i .. | .leaveSection i _ | .leaveOkSection i _ => some i
  | _ => none

/-- The room a successful `create_chat_room` leaves behind. -/
def Room.opened (room : Room N C) (client : ClientPtr N C)
    (roomName : Bytes) : Room N C :=
  { clients := Function.update room.clients ⟨0, maxClientsRoom_pos⟩
      (some client)
    roomName := roomName
    numClients := 1
    inUse := true }

/-- The room with a client added at a free slot. -/
def Room.added (room : Room N C) (j : Fin maxClientsRoom)
    (client : ClientPtr N C) : Room N C :=
  { room with
    clients := Function.update room.clients j (some client)
    numClients := room.numClients + 1 }

/-- The client record after it entered room `i`. -/
def Client.entered (record : Client) (i : Fin maxRooms) : Client :=
  { record with
    state := .inChatRoom
    roomIndex := i }

/-- The state after a successful `create_chat_room`. -/
def State.afterCreate (s : State N C) (i : Fin maxRooms)
    (client : ClientPtr N C) (roomName successMsg : Bytes) : State N C :=
  { s with
    rooms := Function.update s.rooms i ((s.rooms i).opened client roomName)
    clients := Function.update s.clients client
      ((s.clients client).entered i)
    calls := s.calls ++
      [.send (s.clients client).clientFd (s.connOf client) cmdRoomCreateOk
        successMsg]
    journal := s.journal ++
      [.built .roomName roomName.length,
        .room i (s.connOf client) .created,
        .built .messageBuffer (successMsg.length + 4)] }

theorem createSection_of_inUse {s : State N C} {i : Fin maxRooms}
    (h : (s.rooms i).inUse = true) (client : ClientPtr N C)
    (roomName successMsg : Bytes) :
    createSection s i client roomName successMsg = (false, s) := by
  simp [createSection, h]

theorem createSection_of_free {s : State N C} {i : Fin maxRooms}
    (h : (s.rooms i).inUse = false) (client : ClientPtr N C)
    (roomName successMsg : Bytes) :
    createSection s i client roomName successMsg =
      (true, s.afterCreate i client roomName successMsg) := by
  simp [createSection, h, sendMessageToClient, Room.opened, Client.entered,
    State.connOf, State.afterCreate]

theorem exec_createSection {s s' : State N C} {i : Fin maxRooms}
    {client : ClientPtr N C} {roomName successMsg : Bytes} {b : Bool}
    (he : exec (.createSection i client roomName successMsg) s =
      some (b, s')) :
    (s.rooms i).inUse = true ∧ b = false ∧ s' = s ∨
      (s.rooms i).inUse = false ∧ b = true ∧
        s' = s.afterCreate i client roomName successMsg := by
  simp only [exec, Option.some.injEq] at he
  cases hu : (s.rooms i).inUse with
  | true =>
      rw [createSection_of_inUse hu, Prod.mk.injEq] at he
      exact .inl ⟨rfl, he.1.symm, he.2.symm⟩
  | false =>
      rw [createSection_of_free hu, Prod.mk.injEq] at he
      exact .inr ⟨rfl, he.1.symm, he.2.symm⟩

/-- The first free slot of a room's array. -/
def Room.freeSlot? (room : Room N C) : Option (Fin maxClientsRoom) :=
  (List.finRange maxClientsRoom).find? fun j => (room.clients j).isNone

theorem Room.freeSlot?_some {room : Room N C} {j : Fin maxClientsRoom}
    (h : room.freeSlot? = some j) : room.clients j = none := by
  have hj := List.find?_some h
  simpa using hj

theorem Room.freeSlot?_none {room : Room N C} (h : room.freeSlot? = none)
    (j : Fin maxClientsRoom) : (room.clients j).isSome = true := by
  have hj := List.find?_eq_none.mp h j (List.mem_finRange j)
  cases hc : room.clients j with
  | none => simp [hc] at hj
  | some c => rfl

/-- The state after a successful `join_chat_room`. -/
def State.afterJoin (s : State N C) (i : Fin maxRooms)
    (j : Fin maxClientsRoom) (client : ClientPtr N C) (joinMsg : Bytes) :
    State N C :=
  { s with
    rooms := Function.update s.rooms i ((s.rooms i).added j client)
    clients := Function.update s.clients client
      ((s.clients client).entered i)
    calls := s.calls ++
      (((s.rooms i).added j client).recipients client).map
        (roomSend s joinMsg) ++
      [.send (s.clients client).clientFd (s.connOf client) cmdRoomJoinOk
        (text "Successfully joined room\n")]
    journal := s.journal ++
      [.room i (s.connOf client) (.joined joinMsg)] ++
      (((s.rooms i).added j client).recipients client).map
        (fun _ => .built .messageBuffer (joinMsg.length + 4)) ++
      [.built .messageBuffer
        ((text "Successfully joined room\n").length + 4)] }

theorem joinSection_of_slot {s : State N C} {i : Fin maxRooms}
    {j : Fin maxClientsRoom} (hu : (s.rooms i).inUse = true)
    (hn : (s.rooms i).numClients ≠ maxClientsRoom)
    (hj : (s.rooms i).freeSlot? = some j) (client : ClientPtr N C)
    (joinMsg : Bytes) :
    joinSection s i client joinMsg = s.afterJoin i j client joinMsg := by
  unfold Room.freeSlot? at hj
  simp [joinSection, hu, hn, hj, broadcast_eq, State.deliver,
    sendMessageToClient, Room.added, Client.entered, State.connOf,
    State.afterJoin]
  exact fun _ _ => rfl

/-- What `join_chat_room` answers when the room is free or full. -/
def joinRefusals : List (UInt8 × Bytes) :=
  [(errRoomNotFound, text "Room does not exist\n"),
    (errRoomCapacityFull, text "Cannot join room: Room is full\n")]

theorem joinSection_refused {s : State N C} {i : Fin maxRooms}
    (h : (s.rooms i).inUse = false ∨
      (s.rooms i).numClients = maxClientsRoom)
    (client : ClientPtr N C) (joinMsg : Bytes) :
    ∃ r ∈ joinRefusals,
      joinSection s i client joinMsg =
        sendMessageToClient s (s.clients client).clientFd r.1 r.2 := by
  by_cases hu : (s.rooms i).inUse = false
  · exact ⟨_, List.mem_cons_self, by simp [joinSection, hu]⟩
  · exact ⟨_, List.mem_cons_of_mem _ List.mem_cons_self,
      by simp [joinSection, hu, h.resolve_left hu]⟩

theorem exec_joinSection {s s' : State N C} {i : Fin maxRooms}
    {client : ClientPtr N C} {joinMsg : Bytes} {b : Unit}
    (he : exec (.joinSection i client joinMsg) s = some (b, s')) :
    (∃ r ∈ joinRefusals,
        s' = sendMessageToClient s (s.clients client).clientFd r.1 r.2) ∨
      s' = s ∨
      ∃ j, (s.rooms i).inUse = true ∧
        (s.rooms i).freeSlot? = some j ∧
        s' = s.afterJoin i j client joinMsg := by
  simp only [exec, Option.some.injEq, Prod.mk.injEq] at he
  obtain ⟨-, rfl⟩ := he
  by_cases hr : (s.rooms i).inUse = false ∨
      (s.rooms i).numClients = maxClientsRoom
  · exact .inl (joinSection_refused hr client joinMsg)
  · rw [not_or, Bool.not_eq_false] at hr
    cases hj : (s.rooms i).freeSlot? with
    | none =>
        unfold Room.freeSlot? at hj
        exact .inr (.inl (by simp [joinSection, hr.1, hr.2, hj]))
    | some j =>
        exact .inr (.inr ⟨j, hr.1, rfl,
          joinSection_of_slot hr.1 hr.2 hj client joinMsg⟩)

/-- The slot of a client in a room's array. -/
def Room.slotOf? (room : Room N C) (client : ClientPtr N C) :
    Option (Fin maxClientsRoom) :=
  (List.finRange maxClientsRoom).find? fun j => room.clients j = some client

theorem Room.slotOf?_some {room : Room N C} {client : ClientPtr N C}
    {j : Fin maxClientsRoom} (h : room.slotOf? client = some j) :
    room.clients j = some client := by
  have hj := List.find?_some h
  simpa using hj

theorem Room.slotOf?_none {room : Room N C} {client : ClientPtr N C}
    (h : room.slotOf? client = none) (j : Fin maxClientsRoom) :
    room.clients j ≠ some client := by
  have hj := List.find?_eq_none.mp h j (List.mem_finRange j)
  simpa using hj

theorem Room.remove_of_slot {room : Room N C} {client : ClientPtr N C}
    {j : Fin maxClientsRoom} (h : room.slotOf? client = some j) :
    room.remove client =
      { room with
        clients := Function.update room.clients j none
        numClients := room.numClients - 1 } := by
  unfold Room.slotOf? at h
  simp [Room.remove, h]

theorem Room.remove_of_no_slot {room : Room N C} {client : ClientPtr N C}
    (h : room.slotOf? client = none) : room.remove client = room := by
  unfold Room.slotOf? at h
  simp [Room.remove, h]

/-- The state after `leave_room`. -/
def State.afterLeave (s : State N C) (i : Fin maxRooms)
    (client : ClientPtr N C) : State N C :=
  { s with
    rooms := Function.update s.rooms i ((s.rooms i).remove client).cleanUp
    point := Function.update s.point client.worker (.left client.index)
    calls := s.calls ++
      (((s.rooms i).remove client).recipients client).map
        (roomSend s (clientLeftText (s.clients client).name))
    journal := s.journal ++
      [.built .clientLeftMsg (clientLeftText (s.clients client).name).length,
        .room i (s.connOf client)
          (.left (clientLeftText (s.clients client).name))] ++
      (((s.rooms i).remove client).recipients client).map
        (fun _ => .built .messageBuffer
          ((clientLeftText (s.clients client).name).length + 4)) }

theorem exec_leaveSection {s s' : State N C} {i : Fin maxRooms}
    {client : ClientPtr N C} {b : Unit}
    (he : exec (.leaveSection i client) s = some (b, s')) :
    s' = s.afterLeave i client := by
  simp only [exec, Option.some.injEq, Prod.mk.injEq] at he
  obtain ⟨-, rfl⟩ := he
  simp [leaveSection, broadcast_eq, State.deliver, State.afterLeave]
  exact fun _ _ => rfl

/-- The state after the broadcast of a chat line. -/
def State.afterChat (s : State N C) (i : Fin maxRooms)
    (client : ClientPtr N C) (msg : Bytes) : State N C :=
  { s with
    point := Function.update s.point client.worker .idle
    calls := s.calls ++ ((s.rooms i).recipients client).map (roomSend s msg)
    journal := s.journal ++
      [.room i (s.connOf client) (.said msg)] ++
      ((s.rooms i).recipients client).map
        (fun _ => .built .messageBuffer (msg.length + 4)) }

theorem exec_chatSection {s s' : State N C} {i : Fin maxRooms}
    {client : ClientPtr N C} {msg : Bytes} {b : Unit}
    (he : exec (.chatSection i client msg) s = some (b, s')) :
    s' = s.afterChat i client msg := by
  simp only [exec, Option.some.injEq, Prod.mk.injEq] at he
  obtain ⟨-, rfl⟩ := he
  simp [chatSection, broadcast_eq, State.deliver, State.afterChat]
  exact fun _ _ => rfl

theorem exec_routeMessage {s s' : State N C} {client : ClientPtr N C}
    {b : Client} (he : exec (.routeMessage client) s = some (b, s')) :
    b = s.clients client ∧
      (chatLine? (s.clients client) = none ∧
          s' = { s with
            journal := s.journal ++
              [.routed client (s.connOf client) (s.clients client)] } ∨
        ∃ line, chatLine? (s.clients client) = some line ∧
          s' = { s with
            journal := s.journal ++
              [.routed client (s.connOf client) (s.clients client)]
            point := Function.update s.point client.worker
              (.sending client.index line) }) := by
  simp only [exec, routeMessage, Option.some.injEq, Prod.mk.injEq] at he
  obtain ⟨rfl, rfl⟩ := he
  refine ⟨rfl, ?_⟩
  cases chatLine? (s.clients client) with
  | none => exact .inl ⟨rfl, rfl⟩
  | some line => exact .inr ⟨line, rfl, rfl⟩

/-! ## Hand-off and allocation -/

/-- The first free slot of a worker. -/
def State.freeSlot? (s : State N C) (w : Fin N) : Option (Fin C) :=
  (List.finRange C).find? fun j => !(s.clients ⟨w, j⟩).inUse

theorem State.freeSlot?_some {s : State N C} {w : Fin N} {j : Fin C}
    (h : s.freeSlot? w = some j) : (s.clients ⟨w, j⟩).inUse = false := by
  have hj := List.find?_some h
  simpa using hj

theorem State.freeSlot?_none {s : State N C} {w : Fin N}
    (h : s.freeSlot? w = none) (j : Fin C) :
    (s.clients ⟨w, j⟩).inUse = true := by
  have hj := List.find?_eq_none.mp h j (List.mem_finRange j)
  simpa using hj

/-- A record as `allocate_client_slot` leaves it. -/
def Client.fresh (clientFd : Fd) : Client :=
  { Client.zero with
    inUse := true
    clientFd := clientFd }

theorem exec_allocateClientSlot {s s' : State N C} {w : Fin N} {fd : Fd}
    {b : Bool} (he : exec (.allocateClientSlot w fd) s = some (b, s')) :
    s.freeSlot? w = none ∧ b = false ∧
        s' = { s with point := Function.update s.point w (.refused fd) } ∨
      ∃ j, s.freeSlot? w = some j ∧ b = true ∧
        s' = { s with
          clients := Function.update s.clients ⟨w, j⟩ (Client.fresh fd)
          point := Function.update s.point w .idle } := by
  simp only [exec, allocateClientSlot, Option.some.injEq] at he
  cases hj : s.freeSlot? w with
  | none =>
      unfold State.freeSlot? at hj
      rw [hj] at he
      cases he
      exact .inl ⟨rfl, rfl, rfl⟩
  | some j =>
      unfold State.freeSlot? at hj
      rw [hj] at he
      cases he
      exact .inr ⟨j, rfl, rfl, rfl⟩

theorem exec_readEventfd {s s' : State N C} {w : Fin N} {ok : Bool}
    {b : Option Fd} (he : exec (.readEventfd w ok) s = some (b, s')) :
    ok = true ∧ s.notification w ≠ 0 ∧ b = some (s.notification w) ∧
        s' = { s with
          notification := Function.update s.notification w 0
          journal := s.journal ++ [.pickedUp w (s.notification w)]
          point := Function.update s.point w
            (.picked (s.notification w)) } ∨
      ok = false ∧ b = none ∧
        s' = { s with point := Function.update s.point w .unread } := by
  simp only [exec, readEventfd] at he
  split at he
  case isTrue hok =>
    split at he
    · cases he
    · rename_i hn
      cases he
      exact .inl ⟨hok, hn, rfl, rfl⟩
  case isFalse hok =>
    cases he
    exact .inr ⟨by simpa using hok, rfl, rfl⟩

theorem exec_accept {s s' : State N C} {fd : Fd} {b : Unit}
    (he : exec (.accept fd) s = some (b, s')) :
    0 < fd ∧ s.conns fd = none ∧
      s' = { s with
        conns := Function.update s.conns fd (some s.accepted)
        accepted := s.accepted + 1
        main := .accepted fd } := by
  simp only [exec] at he
  split at he
  case isTrue h =>
    cases he
    exact ⟨h.1, h.2, rfl⟩
  case isFalse => cases he

theorem exec_inspectWorker {s s' : State N C} {fd : Fd}
    {b : Option (Fin N)} (he : exec (.inspectWorker fd) s = some (b, s')) :
    (C : Int) ≤ s.numOfClients s.workerIndex ∧ b = none ∧ s' = s ∨
      s.numOfClients s.workerIndex < C ∧ b = some s.workerIndex ∧
        s' = { s with
          numOfClients := Function.update s.numOfClients s.workerIndex
            (s.numOfClients s.workerIndex + 1)
          main := .assigned s.workerIndex fd
          journal := s.journal ++ [.assigned s.workerIndex fd] } := by
  simp only [exec, inspectWorker] at he
  split at he
  case isTrue h =>
    cases he
    exact .inl ⟨h, rfl, rfl⟩
  case isFalse h =>
    cases he
    exact .inr ⟨Int.not_le.mp h, rfl, rfl⟩

theorem exec_semWait {s s' : State N C} {w : Fin N} {fd : Fd} {b : Unit}
    (he : exec (.semWait w fd) s = some (b, s')) :
    s.newClient w ≠ 0 ∧
      s' = { s with
        newClient := Function.update s.newClient w (s.newClient w - 1)
        main := .writing w fd } := by
  simp only [exec] at he
  split at he
  case isTrue => cases he
  case isFalse h =>
    cases he
    exact ⟨h, rfl⟩

theorem exec_writeEventfd {s s' : State N C} {w : Fin N} {fd : Fd}
    {ok b : Bool} (he : exec (.writeEventfd w fd ok) s = some (b, s')) :
    ok = true ∧ b = true ∧
        s' = { s with
          notification := Function.update s.notification w
            (s.notification w + fd)
          main := .idle } ∨
      ok = false ∧ b = false ∧
        s' = { s with
          journal := s.journal ++ [.writeError w fd]
          main := .failed w fd } := by
  cases ok with
  | true =>
      cases he
      exact .inl ⟨rfl, rfl, rfl⟩
  | false =>
      cases he
      exact .inr ⟨rfl, rfl, rfl⟩

theorem exec_registerWithEpoll {s s' : State N C} {w : Fin N} {fd : Fd}
    {ok b : Bool} (he : exec (.registerWithEpoll w fd ok) s = some (b, s')) :
    ok = true ∧ b = true ∧
        s' = { s with
          calls := s.calls ++ [.epollAdd w fd]
          point := Function.update s.point w (.registered fd) } ∨
      ok = false ∧ b = false ∧
        s' = { s with
          point := Function.update s.point w (.refused fd) } := by
  cases ok with
  | true =>
      cases he
      exact .inl ⟨rfl, rfl, rfl⟩
  | false =>
      cases he
      exact .inr ⟨rfl, rfl, rfl⟩

theorem exec_setSocketKeepAlive {s s' : State N C} {fd : Fd} {ok b : Bool}
    (he : exec (.setSocketKeepAlive fd ok) s = some (b, s')) :
    ok = true ∧ b = true ∧ s' = s ∨
      ok = false ∧ b = false ∧ s' = { s with main := .idle } := by
  cases ok with
  | true =>
      cases he
      exact .inl ⟨rfl, rfl, rfl⟩
  | false =>
      cases he
      exact .inr ⟨rfl, rfl, rfl⟩

/-! ## Actions that only touch texts -/

/-- The action changes only texts, the log of system calls and the journal. -/
def Act.isText : Act N C → Bool
  | .readClient _ | .strcatCurrentMsg .. | .clearCurrentMsg _
  | .strcpyName .. | .sprintf .. | .send .. | .listSection ..
  | .leaveOkSection .. | .epollDel _ => true
  | _ => false

/-- The two states agree but for texts, system calls and the journal. -/
structure State.SameControl (s s' : State N C) : Prop where
  rooms : s'.rooms = s.rooms
  clientFd : ∀ c, (s'.clients c).clientFd = (s.clients c).clientFd
  state : ∀ c, (s'.clients c).state = (s.clients c).state
  roomIndex : ∀ c, (s'.clients c).roomIndex = (s.clients c).roomIndex
  inUse : ∀ c, (s'.clients c).inUse = (s.clients c).inUse
  point : s'.point = s.point
  numOfClients : s'.numOfClients = s.numOfClients
  notification : s'.notification = s.notification
  newClient : s'.newClient = s.newClient
  main : s'.main = s.main
  conns : s'.conns = s.conns

theorem State.SameControl.refl (s : State N C) : s.SameControl s := by
  constructor <;> intros <;> rfl

/-- A record changed in its texts only. -/
theorem sameControl_update (s : State N C) (c : ClientPtr N C) (r : Client)
    (journal : List (Entry N C))
    (hfd : r.clientFd = (s.clients c).clientFd)
    (hstate : r.state = (s.clients c).state)
    (hroom : r.roomIndex = (s.clients c).roomIndex)
    (huse : r.inUse = (s.clients c).inUse) :
    s.SameControl { s with
      clients := Function.update s.clients c r
      journal := journal } := by
  refine
    { rooms := rfl
      clientFd := fun d => ?_
      state := fun d => ?_
      roomIndex := fun d => ?_
      inUse := fun d => ?_
      point := rfl
      numOfClients := rfl
      notification := rfl
      newClient := rfl
      main := rfl
      conns := rfl }
  all_goals
    by_cases hd : d = c
    · subst hd
      simpa
    · simp [hd]

theorem exec_listSection {s s' : State N C} {i : Fin maxRooms}
    {roomListMsg : Bytes} {b : Option Bytes}
    (he : exec (.listSection i roomListMsg) s = some (b, s')) :
    (s.rooms i).inUse = false ∧ b = none ∧ s' = s ∨
      (s.rooms i).inUse = true ∧
        b = some (roomListMsg ++ roomEntryText i (s.rooms i).roomName) ∧
        s' = { s with
          journal := s.journal ++
            [.built .roomEntry
                (roomEntryText i (s.rooms i).roomName).length,
              .built .roomListMsg
                (roomListMsg ++
                  roomEntryText i (s.rooms i).roomName).length] } := by
  cases hu : (s.rooms i).inUse with
  | true =>
      simp only [exec, listSection, hu, if_true, Option.some.injEq,
        Prod.mk.injEq] at he
      exact .inr ⟨rfl, he.1.symm, he.2.symm⟩
  | false =>
      simp only [exec, listSection, hu, Bool.false_eq_true, if_false,
        Option.some.injEq, Prod.mk.injEq] at he
      exact .inl ⟨rfl, he.1.symm, he.2.symm⟩

theorem exec_sameControl {a : Act N C} (ha : a.isText = true)
    {s s' : State N C} {b : a.Answer} (he : exec a s = some (b, s')) :
    s.SameControl s' := by
  cases a <;> simp only [Act.isText, Bool.false_eq_true] at ha
  case readClient c =>
    cases he
    exact .refl s
  case strcatCurrentMsg c piece =>
    cases he
    exact sameControl_update s c _ _ rfl rfl rfl rfl
  case clearCurrentMsg c =>
    cases he
    exact sameControl_update s c _ _ rfl rfl rfl rfl
  case strcpyName c name =>
    cases he
    exact sameControl_update s c _ _ rfl rfl rfl rfl
  case sprintf buffer len =>
    cases he
    constructor <;> intros <;> rfl
  case send fd cmdType message =>
    cases he
    constructor <;> intros <;> rfl
  case leaveOkSection i c =>
    cases he
    constructor <;> intros <;> rfl
  case epollDel c =>
    cases he
    constructor <;> intros <;> rfl
  case listSection i roomListMsg =>
    obtain ⟨-, -, rfl⟩ | ⟨-, -, rfl⟩ := exec_listSection he
    · exact .refl _
    · constructor <;> intros <;> rfl

/-! ## What an action does to a client's record -/

/-- The record of client `c` after an action. -/
inductive Act.Updates (s : State N C) (c : ClientPtr N C) :
    Act N C → Client → Prop
  | same {a : Act N C} : Updates s c a (s.clients c)
  | appended (piece : Bytes) : Updates s c (.strcatCurrentMsg c piece)
      { s.clients c with currentMsg := (s.clients c).currentMsg ++ piece }
  | cleared : Updates s c (.clearCurrentMsg c)
      { s.clients c with currentMsg := [] }
  | named (name : Bytes) : Updates s c (.strcpyName c name)
      { s.clients c with name := name }
  | lobby : Updates s c (.setLobby c)
      { s.clients c with state := .inChatLobby }
  | created (i : Fin maxRooms) (roomName successMsg : Bytes) :
      Updates s c (.createSection i c roomName successMsg)
        ((s.clients c).entered i)
  | joined (i : Fin maxRooms) (joinMsg : Bytes) :
      Updates s c (.joinSection i c joinMsg) ((s.clients c).entered i)
  | zeroed : Updates s c (.zeroClient c) Client.zero
  | allocated (fd : Fd) : s.freeSlot? c.worker = some c.index →
      Updates s c (.allocateClientSlot c.worker fd) (Client.fresh fd)

theorem Act.Updates.of_eq {s s' : State N C} {c : ClientPtr N C}
    {a : Act N C} (h : s'.clients c = s.clients c) :
    a.Updates s c (s'.clients c) := by
  rw [h]
  exact .same

/-- One record is changed, as the action says. -/
theorem Act.Updates.of_update {s s' : State N C} {c d : ClientPtr N C}
    {a : Act N C} {r : Client}
    (h : s'.clients = Function.update s.clients d r)
    (hd : a.Updates s d r) : a.Updates s c (s'.clients c) := by
  by_cases hc : c = d
  · subst hc
    rw [h, Function.update_self]
    exact hd
  · exact .of_eq (by rw [h, Function.update_of_ne hc])

theorem exec_updates {a : Act N C} {s s' : State N C} {b : a.Answer}
    (he : exec a s = some (b, s')) (c : ClientPtr N C) :
    a.Updates s c (s'.clients c) := by
  cases a
  case strcatCurrentMsg d piece =>
    cases he
    exact .of_update rfl (.appended piece)
  case clearCurrentMsg d =>
    cases he
    exact .of_update rfl .cleared
  case strcpyName d name =>
    cases he
    exact .of_update rfl (.named name)
  case setLobby d =>
    cases he
    exact .of_update rfl .lobby
  case zeroClient d =>
    cases he
    exact .of_update rfl .zeroed
  case createSection i d roomName successMsg =>
    rcases exec_createSection he with ⟨-, -, rfl⟩ | ⟨-, -, rfl⟩
    · exact .same
    · exact .of_update rfl (.created i roomName successMsg)
  case joinSection i d joinMsg =>
    rcases exec_joinSection he with ⟨r, -, rfl⟩ | rfl | ⟨j, -, -, rfl⟩
    · exact .of_eq rfl
    · exact .same
    · exact .of_update rfl (.joined i joinMsg)
  case allocateClientSlot w fd =>
    rcases exec_allocateClientSlot he with ⟨-, -, rfl⟩ | ⟨j, hj, -, rfl⟩
    · exact .of_eq rfl
    · exact .of_update (d := ⟨w, j⟩) rfl (.allocated fd hj)
  case chatSection i d msg =>
    rw [exec_chatSection he]
    exact .of_eq rfl
  case leaveSection i d =>
    rw [exec_leaveSection he]
    exact .of_eq rfl
  case routeMessage d =>
    rcases exec_routeMessage he with ⟨-, ⟨-, rfl⟩ | ⟨line, -, rfl⟩⟩
    all_goals exact .of_eq rfl
  case listSection i msg =>
    rcases exec_listSection he with ⟨-, -, rfl⟩ | ⟨-, -, rfl⟩
    all_goals exact .of_eq rfl
  case readEventfd w ok =>
    rcases exec_readEventfd he with ⟨-, -, -, rfl⟩ | ⟨-, -, rfl⟩
    all_goals exact .of_eq rfl
  case registerWithEpoll w fd ok =>
    rcases exec_registerWithEpoll he with ⟨-, -, rfl⟩ | ⟨-, -, rfl⟩
    all_goals exact .of_eq rfl
  case accept fd =>
    rw [(exec_accept he).2.2]
    exact .of_eq rfl
  case setSocketKeepAlive fd ok =>
    rcases exec_setSocketKeepAlive he with ⟨-, -, rfl⟩ | ⟨-, -, rfl⟩
    all_goals exact .of_eq rfl
  case inspectWorker fd =>
    rcases exec_inspectWorker he with ⟨-, -, rfl⟩ | ⟨-, -, rfl⟩
    all_goals exact .of_eq rfl
  case semWait w fd =>
    rw [(exec_semWait he).2]
    exact .of_eq rfl
  case writeEventfd w fd ok =>
    rcases exec_writeEventfd he with ⟨-, -, rfl⟩ | ⟨-, -, rfl⟩
    all_goals exact .of_eq rfl
  all_goals
    cases he
    exact .of_eq rfl

end ChatApp.Server
