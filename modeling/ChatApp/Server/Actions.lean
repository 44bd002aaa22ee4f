import ChatApp.Server.State

/-!
# Atomic actions of the server

Everything a server thread does to shared data is one of the actions below:
a whole critical section under a `room_lock` or a `num_of_clients_lock`, one
unlocked update of a `Client` record by the worker that owns it, or one system
call.  `exec` gives the effect and the answer of each; it is `none` where the
call blocks, or where the assumed outcome of a system call is impossible.

The critical sections are written in the order of the source; the routines
that perform them follow in `RoomManager`, `ClientStateManager`,
`ConnectionHandler` and `ClientDistributor`.
-/

namespace ChatApp.Server

variable {N C : Nat}

/-! ## Sending -/

/-- `send_message_to_client`, each frame taken as one call.  The frame is
built in `message_buffer`: command byte, space, text, terminator. -/
def sendMessageToClient (s : State N C) (clientFd : Fd) (cmdType : UInt8)
    (message : Bytes) : State N C :=
  { s with
    calls := s.calls ++ [.send clientFd (s.conns clientFd) cmdType message]
    journal := s.journal ++ [.built .messageBuffer (message.length + 4)] }

/-- `broadcast_message_in_room`: the slots of the array in order, free ones
and the sender's own left out. -/
def broadcastMessageInRoom (s : State N C) (msg : Bytes)
    (roomIndex : Fin maxRooms) (client : ClientPtr N C) : State N C :=
  (List.finRange maxClientsRoom).foldl
    (fun s i =>
      match (s.rooms roomIndex).clients i with
      | none => s
      | some c =>
          if c = client then s
          else sendMessageToClient s (s.clients c).clientFd cmdRoomMsg msg)
    s

/-! ## Critical sections of `room_manager.c` -/

/-- The body of the loop of `create_chat_room` for one room index; the answer
says whether the room was free and is now the client's. -/
def createSection (s : State N C) (i : Fin maxRooms) (client : ClientPtr N C)
    (roomName successMsg : Bytes) : Bool × State N C :=
  if (s.rooms i).inUse then (false, s)
  else
    let room : Room N C :=
      { clients := Function.update (s.rooms i).clients ⟨0, by decide⟩
          (some client)
        roomName := roomName
        numClients := 1
        inUse := true }
    let s' : State N C :=
      { s with
        rooms := Function.update s.rooms i room
        clients := Function.update s.clients client
          { s.clients client with roomIndex := i, state := .inChatRoom }
        journal := s.journal ++
          [.built .roomName roomName.length,
            .room i (s.connOf client) .created] }
    (true, sendMessageToClient s' (s.clients client).clientFd cmdRoomCreateOk
      successMsg)

/-- `sprintf(room_entry, "Room %d: %s\n", i, room_name)`. -/
def roomEntryText (i : Nat) (roomName : Bytes) : Bytes :=
  text "Room " ++ decimal i ++ text ": " ++ roomName ++ text "\n"

/-- The body of the loop of `send_avail_rooms`: the answer is the new
`room_list_msg` when the room is listed. -/
def listSection (s : State N C) (i : Fin maxRooms) (roomListMsg : Bytes) :
    Option Bytes × State N C :=
  if (s.rooms i).inUse then
    let roomEntry := roomEntryText i (s.rooms i).roomName
    (some (roomListMsg ++ roomEntry),
      { s with
        journal := s.journal ++
          [.built .roomEntry roomEntry.length,
            .built .roomListMsg (roomListMsg ++ roomEntry).length] })
  else (none, s)

/-- `join_chat_room` from its lock to its unlock. -/
def joinSection (s : State N C) (i : Fin maxRooms) (client : ClientPtr N C)
    (joinMsg : Bytes) : State N C :=
  let fd := (s.clients client).clientFd
  if (s.rooms i).inUse = false then
    sendMessageToClient s fd errRoomNotFound (text "Room does not exist\n")
  else if (s.rooms i).numClients = maxClientsRoom then
    sendMessageToClient s fd errRoomCapacityFull
      (text "Cannot join room: Room is full\n")
  else
    match (List.finRange maxClientsRoom).find? fun j =>
        ((s.rooms i).clients j).isNone with
    | none => s
    | some j =>
        let room : Room N C :=
          { s.rooms i with
            clients := Function.update (s.rooms i).clients j (some client)
            numClients := (s.rooms i).numClients + 1 }
        let s₁ : State N C :=
          { s with
            rooms := Function.update s.rooms i room
            journal := s.journal ++
              [.room i (s.connOf client) (.joined joinMsg)] }
        let s₂ := broadcastMessageInRoom s₁ joinMsg i client
        let s₃ := sendMessageToClient s₂ fd cmdRoomJoinOk
          (text "Successfully joined room\n")
        { s₃ with
          clients := Function.update s₃.clients client
            { s₃.clients client with state := .inChatRoom, roomIndex := i } }

/-- `sprintf(client_left_msg, "%s left the room\n", client->name)`. -/
def clientLeftText (name : Bytes) : Bytes :=
  name ++ text " left the room\n"

/-- The room without the client: its slot emptied and the count decremented
when the client is found. -/
def Room.remove (room : Room N C) (client : ClientPtr N C) : Room N C :=
  match (List.finRange maxClientsRoom).find? fun j =>
      room.clients j = some client with
  | none => room
  | some j =>
      { room with
        clients := Function.update room.clients j none
        numClients := room.numClients - 1 }

/-- The clean-up of a room whose last client is gone. -/
def Room.cleanUp (room : Room N C) : Room N C :=
  if room.numClients = 0 then
    { room with roomName := [], clients := fun _ => none, inUse := false }
  else room

/-- `leave_room`: one critical section. -/
def leaveSection (s : State N C) (i : Fin maxRooms) (client : ClientPtr N C) :
    State N C :=
  let leftMsg := clientLeftText (s.clients client).name
  let s₁ : State N C :=
    { s with
      rooms := Function.update s.rooms i ((s.rooms i).remove client)
      journal := s.journal ++
        [.built .clientLeftMsg leftMsg.length,
          .room i (s.connOf client) (.left leftMsg)] }
  let s₂ := broadcastMessageInRoom s₁ leftMsg i client
  { s₂ with
    rooms := Function.update s₂.rooms i (s₂.rooms i).cleanUp
    point := Function.update s₂.point client.worker (.left client.index) }

/-! ## Critical sections of `client_state_manager.c` -/

/-- The broadcast of a chat line in `handle_in_chat_room`. -/
def chatSection (s : State N C) (i : Fin maxRooms) (client : ClientPtr N C)
    (msg : Bytes) : State N C :=
  let s₁ : State N C :=
    { s with
      journal := s.journal ++ [.room i (s.connOf client) (.said msg)] }
  let s₂ := broadcastMessageInRoom s₁ msg i client
  { s₂ with point := Function.update s₂.point client.worker .idle }

/-- What `handle_in_chat_room` formats for a `CMD_ROOM_MESSAGE_SEND`:
`sprintf(msg, "%s: %s", client->name, line)`. -/
def chatText (name line : Bytes) : Bytes :=
  name ++ text ": " ++ line

/-- `validate_msg_format`: the error code and text of the first check that
fails. -/
def formatError (currentMsg : Bytes) : Option (UInt8 × Bytes) :=
  if currentMsg.length < 3 then
    some (errProtocolInvalidFormat,
      text ("Message too short\nCorrect format:[command " ++
        "char][space][message content][MSG_TERMINATOR]\n"))
  else if maxContentLen < (content currentMsg).length then
    some (errProtocolInvalidFormat,
      text ("Invalid Foramt: Message too long\nCorrect format:[command " ++
        "char][space][message content][MSG_TERMINATOR]\n"))
  else if currentMsg[1]? ≠ some space then
    some (errProtocolInvalidFormat,
      text ("Missing space after command.\nCorrect format: [command " ++
        "char][space][message content][MSG_TERMINATOR]\n"))
  else if signedChar (command currentMsg) < signedChar cmdExit ∨
      signedChar cmdRoomMessageSend < signedChar (command currentMsg) then
    some (errProtocolInvalidFormat,
      text ("Command not found\nCorrect format: [command " ++
        "char][space][message content][MSG_TERMINATOR]\n"))
  else if (content currentMsg).dropWhile (· = space) = [] then
    some (errMsgEmptyContent,
      text ("Content is Empty\nCorrect format: [command " ++
        "char][space][message content][MSG_TERMINATOR]\n"))
  else none

/-- `command_valid_for_state`: the error text when the command is refused. -/
def stateError (state : ClientState) (command : UInt8) : Option Bytes :=
  if command = cmdExit then none
  else if state = .awaitingUsername ∧ command ≠ cmdUsernameSubmit then
    some (text "CMD not correct for client in awaiting username state\n")
  else if state = .inChatLobby ∧ command ≠ cmdRoomCreateRequest ∧
      command ≠ cmdRoomJoinRequest ∧ command ≠ cmdRoomListRequest then
    some (text "Invalid command for lobby state\n")
  else if state = .inChatRoom ∧ command ≠ cmdRoomMessageSend ∧
      command ≠ cmdLeaveRoom then
    some (text "Invalid command for in chat room state\n")
  else none

/-- Both checks of `route_client_command` pass. -/
def accepts (record : Client) : Bool :=
  (formatError record.currentMsg).isNone &&
    (stateError record.state (command record.currentMsg)).isNone

/-- The line a client in a room is about to say, when its message is one. -/
def chatLine? (record : Client) : Option Bytes :=
  if accepts record && decide (record.state = .inChatRoom) &&
      decide (command record.currentMsg = cmdRoomMessageSend) then
    some (chatText record.name (content record.currentMsg))
  else none

/-- A complete message is handed to `route_client_command`. -/
def routeMessage (s : State N C) (client : ClientPtr N C) : State N C :=
  { s with
    journal := s.journal ++
      [.routed client (s.connOf client) (s.clients client)]
    point :=
      match chatLine? (s.clients client) with
      | none => s.point
      | some line =>
          Function.update s.point client.worker (.sending client.index line) }

/-- `cleanup_client`: `close(client->client_fd)`. -/
def closeClient (s : State N C) (client : ClientPtr N C) : State N C :=
  { s with
    calls := s.calls ++ [.close (s.clients client).clientFd]
    conns := Function.update s.conns (s.clients client).clientFd none
    point := Function.update s.point client.worker (.closed client.index) }

/-- `cleanup_client`: `memset(client, 0, sizeof(Client))`. -/
def zeroClient (s : State N C) (client : ClientPtr N C) : State N C :=
  { s with
    clients := Function.update s.clients client Client.zero
    point := Function.update s.point client.worker .zeroed }

/-- `cleanup_client`: `num_of_clients--` under its lock. -/
def subtractZeroed (s : State N C) (w : Fin N) : State N C :=
  { s with
    numOfClients := Function.update s.numOfClients w (s.numOfClients w - 1)
    point := Function.update s.point w .idle }

/-! ## Updates of `connection_handler.c` -/

/-- The `read` of the eventfd in `register_new_client`: a non-zero counter is
returned and reset; a failed read leaves it alone. -/
def readEventfd (s : State N C) (w : Fin N) (ok : Bool) :
    Option (Option Fd × State N C) :=
  if ok then
    if s.notification w = 0 then none
    else
      some (some (s.notification w),
        { s with
          notification := Function.update s.notification w 0
          journal := s.journal ++ [.pickedUp w (s.notification w)]
          point := Function.update s.point w (.picked (s.notification w)) })
  else some (none, { s with point := Function.update s.point w .unread })

/-- `allocate_client_slot`: the first free slot is zeroed and given to the
connection; the answer says whether there was one. -/
def allocateClientSlot (s : State N C) (w : Fin N) (clientFd : Fd) :
    Bool × State N C :=
  match (List.finRange C).find? fun i => !(s.clients ⟨w, i⟩).inUse with
  | none => (false, { s with
      point := Function.update s.point w (.refused clientFd) })
  | some i => (true, { s with
      clients := Function.update s.clients ⟨w, i⟩
        { Client.zero with inUse := true, clientFd := clientFd }
      point := Function.update s.point w .idle })

/-! ## Updates of `client_distributor.c` -/

/-- One inspection of `find_worker_not_at_capacity`: the worker at the static
index is counted when it is below capacity. -/
def inspectWorker (s : State N C) (clientFd : Fd) :
    Option (Fin N) × State N C :=
  let w := s.workerIndex
  if (C : Int) ≤ s.numOfClients w then (none, s)
  else
    (some w,
      { s with
        numOfClients := Function.update s.numOfClients w
          (s.numOfClients w + 1)
        main := .assigned w clientFd
        journal := s.journal ++ [.assigned w clientFd] })

/-- The cyclic successor `(worker_index + 1) % MAX_THREADS`. -/
def nextIndex (w : Fin N) : Fin N :=
  ⟨(w.val + 1) % N, Nat.mod_lt _ (Nat.lt_of_le_of_lt (Nat.zero_le _) w.isLt)⟩

/-- The `write` of the descriptor to the worker's eventfd. -/
def writeEventfd (s : State N C) (w : Fin N) (clientFd : Fd) (ok : Bool) :
    Bool × State N C :=
  if ok then
    (true, { s with
      notification := Function.update s.notification w
        (s.notification w + clientFd)
      main := .idle })
  else
    (false, { s with
      journal := s.journal ++ [.writeError w clientFd]
      main := .failed w clientFd })

/-! ## Actions -/

/-- The atomic actions of all threads. -/
inductive Act (N C : Nat) where
  | readClient (client : ClientPtr N C)
  | strcatCurrentMsg (client : ClientPtr N C) (piece : Bytes)
  | routeMessage (client : ClientPtr N C)
  | clearCurrentMsg (client : ClientPtr N C)
  | strcpyName (client : ClientPtr N C) (name : Bytes)
  | setLobby (client : ClientPtr N C)
  | sprintf (buffer : Buffer) (len : Nat)
  | send (fd : Fd) (cmdType : UInt8) (message : Bytes)
  | createSection (i : Fin maxRooms) (client : ClientPtr N C)
      (roomName successMsg : Bytes)
  | listSection (i : Fin maxRooms) (roomListMsg : Bytes)
  | joinSection (i : Fin maxRooms) (client : ClientPtr N C) (joinMsg : Bytes)
  | chatSection (i : Fin maxRooms) (client : ClientPtr N C) (msg : Bytes)
  | leaveSection (i : Fin maxRooms) (client : ClientPtr N C)
  | leaveOkSection (i : Fin maxRooms) (client : ClientPtr N C)
  | epollDel (client : ClientPtr N C)
  | closeClient (client : ClientPtr N C)
  | zeroClient (client : ClientPtr N C)
  | subtractZeroed (w : Fin N)
  | readEventfd (w : Fin N) (ok : Bool)
  | subtractUnread (w : Fin N)
  | postUnread (w : Fin N)
  | semPost (w : Fin N) (clientFd : Fd)
  | registerWithEpoll (w : Fin N) (clientFd : Fd) (ok : Bool)
  | allocateClientSlot (w : Fin N) (clientFd : Fd)
  | subtractRefused (w : Fin N) (clientFd : Fd)
  | closeRefused (w : Fin N) (clientFd : Fd)
  | accept (clientFd : Fd)
  | setSocketKeepAlive (clientFd : Fd) (ok : Bool)
  | inspectWorker (clientFd : Fd)
  | advanceIndex
  | closeRejected (clientFd : Fd)
  | semWait (w : Fin N) (clientFd : Fd)
  | writeEventfd (w : Fin N) (clientFd : Fd) (ok : Bool)
  | postFailed (w : Fin N) (clientFd : Fd)
  | closeFailed (w : Fin N) (clientFd : Fd)
  | subtractFailed (w : Fin N)

/-- The answer an action gives to the thread that performs it. -/
abbrev Act.Answer : Act N C → Type
  | .readClient _ | .routeMessage _ => Client
  | .createSection .. | .registerWithEpoll .. | .allocateClientSlot ..
  | .setSocketKeepAlive .. | .writeEventfd .. => Bool
  | .listSection .. => Option Bytes
  | .readEventfd .. => Option Fd
  | .inspectWorker _ => Option (Fin N)
  | _ => Unit

/-- The effect and the answer of an action. -/
def exec : (a : Act N C) → State N C → Option (a.Answer × State N C)
  | .readClient c, s => some (s.clients c, s)
  | .strcatCurrentMsg c piece, s =>
      some ((), { s with
        clients := Function.update s.clients c { s.clients c with
          currentMsg := (s.clients c).currentMsg ++ piece }
        journal := s.journal ++ [.built .currentMsg
          ((s.clients c).currentMsg ++ piece).length] })
  | .routeMessage c, s => some (s.clients c, Server.routeMessage s c)
  | .clearCurrentMsg c, s =>
      some ((), { s with
        clients := Function.update s.clients c
          { s.clients c with currentMsg := [] } })
  | .strcpyName c name, s =>
      some ((), { s with
        clients := Function.update s.clients c
          { s.clients c with name := name }
        journal := s.journal ++ [.built .name name.length] })
  | .setLobby c, s =>
      some ((), { s with
        clients := Function.update s.clients c
          { s.clients c with state := .inChatLobby }
        point := Function.update s.point c.worker .idle })
  | .sprintf buffer len, s =>
      some ((), { s with journal := s.journal ++ [.built buffer len] })
  | .send fd cmdType message, s =>
      some ((), sendMessageToClient s fd cmdType message)
  | .createSection i c roomName successMsg, s =>
      some (Server.createSection s i c roomName successMsg)
  | .listSection i roomListMsg, s => some (Server.listSection s i roomListMsg)
  | .joinSection i c joinMsg, s => some ((), Server.joinSection s i c joinMsg)
  | .chatSection i c msg, s => some ((), Server.chatSection s i c msg)
  | .leaveSection i c, s => some ((), Server.leaveSection s i c)
  | .leaveOkSection _ c, s =>
      some ((), sendMessageToClient s (s.clients c).clientFd cmdRoomLeaveOk
        (text "You have left the room\n"))
  | .epollDel c, s =>
      some ((), { s with
        calls := s.calls ++ [.epollDel c.worker (s.clients c).clientFd] })
  | .closeClient c, s => some ((), Server.closeClient s c)
  | .zeroClient c, s => some ((), Server.zeroClient s c)
  | .subtractZeroed w, s => some ((), Server.subtractZeroed s w)
  | .readEventfd w ok, s => Server.readEventfd s w ok
  | .subtractUnread w, s =>
      some ((), { s with
        numOfClients := Function.update s.numOfClients w
          (s.numOfClients w - 1) })
  | .postUnread w, s =>
      some ((), { s with
        newClient := Function.update s.newClient w (s.newClient w + 1)
        point := Function.update s.point w .idle })
  | .semPost w fd, s =>
      some ((), { s with
        newClient := Function.update s.newClient w (s.newClient w + 1)
        point := Function.update s.point w (.posted fd) })
  | .registerWithEpoll w fd ok, s =>
      some (ok,
        if ok then
          { s with
            calls := s.calls ++ [.epollAdd w fd]
            point := Function.update s.point w (.registered fd) }
        else { s with point := Function.update s.point w (.refused fd) })
  | .allocateClientSlot w fd, s => some (Server.allocateClientSlot s w fd)
  | .subtractRefused w fd, s =>
      some ((), { s with
        numOfClients := Function.update s.numOfClients w
          (s.numOfClients w - 1)
        point := Function.update s.point w (.dropping fd) })
  | .closeRefused w fd, s =>
      some ((), { s with
        calls := s.calls ++ [.close fd]
        conns := Function.update s.conns fd none
        point := Function.update s.point w .idle })
  | .accept fd, s =>
      if 0 < fd ∧ s.conns fd = none then
        some ((), { s with
          conns := Function.update s.conns fd (some s.accepted)
          accepted := s.accepted + 1
          main := .accepted fd })
      else none
  | .setSocketKeepAlive _ ok, s =>
      some (ok, if ok then s else { s with main := .idle })
  | .inspectWorker fd, s => some (Server.inspectWorker s fd)
  | .advanceIndex, s =>
      some ((), { s with workerIndex := nextIndex s.workerIndex })
  | .closeRejected fd, s =>
      some ((), { s with
        calls := s.calls ++ [.close fd]
        conns := Function.update s.conns fd none
        main := .idle })
  | .semWait w fd, s =>
      if s.newClient w = 0 then none
      else
        some ((), { s with
          newClient := Function.update s.newClient w (s.newClient w - 1)
          main := .writing w fd })
  | .writeEventfd w fd ok, s => some (Server.writeEventfd s w fd ok)
  | .postFailed w fd, s =>
      some ((), { s with
        newClient := Function.update s.newClient w (s.newClient w + 1)
        main := .posted w fd })
  | .closeFailed w fd, s =>
      some ((), { s with
        calls := s.calls ++ [.close fd]
        conns := Function.update s.conns fd none
        main := .closed w })
  | .subtractFailed w, s =>
      some ((), { s with
        numOfClients := Function.update s.numOfClients w
          (s.numOfClients w - 1)
        main := .idle })

end ChatApp.Server
