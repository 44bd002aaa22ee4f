import ChatApp.Foundation.Program
import ChatApp.Server.Actions

/-!
# `room_manager.c`

The routines as the worker threads execute them: programs over the atomic
actions of `Server/Actions.lean`.  A loop over `SERVER_ROOMS` is a recursion
over the room indices still to visit.
-/

namespace ChatApp.Server

open ChatApp.Foundation

variable {N C : Nat}

/-- What a server thread executes. -/
abbrev ServerProg (N C : Nat) : Type → Type :=
  Prog (Act N C) Act.Answer

/-- Perform one action. -/
def act (a : Act N C) : ServerProg N C a.Answer :=
  Prog.perform a

@[simp] theorem act_eq (a : Act N C) : act a = .act a .ret := rfl

/-- `atoi` on a string of digits. -/
def atoi (digits : Bytes) : Nat :=
  (digits.takeWhile isDigit).foldl (fun n d => 10 * n + (d.toNat - 48)) 0

/-- `parse_room_number`; `none` is the source's `-1`. -/
def parseRoomNumber (currentMsg : Bytes) : Option Nat :=
  let roomIndex := content currentMsg
  if !isDigit (roomIndex.headD 0) then none
  else if roomIndex[1]?.isSome &&
      (!isDigit (roomIndex.getD 1 0) || roomIndex[2]?.isSome) then none
  else some (atoi roomIndex)

/-- `sprintf(success_msg, "Room created successfully: %s\n", room_name)`. -/
def roomCreatedText (roomName : Bytes) : Bytes :=
  text "Room created successfully: " ++ roomName ++ text "\n"

/-- The loop of `create_chat_room` over the room indices still to visit. -/
def createScan (client : ClientPtr N C) (clientFd : Fd)
    (roomName successMsg : Bytes) : List (Fin maxRooms) → ServerProg N C Unit
  | [] =>
      act (.send clientFd errRoomCapacityFull
        (text "Room creation failed: Maximum number of rooms reached\n"))
  | i :: rest => do
      let created ← act (.createSection i client roomName successMsg)
      if created then pure ()
      else createScan client clientFd roomName successMsg rest

def createChatRoom (client : ClientPtr N C) : ServerProg N C Unit := do
  let self ← act (.readClient client)
  let roomName := content self.currentMsg
  let successMsg := roomCreatedText roomName
  act (.sprintf .successMsg successMsg.length)
  if maxRoomNameLen < roomName.length then
    act (.send self.clientFd errRoomNameInvalid
      (text "Room creation failed: Room name length invalid\n"))
  else
    createScan client self.clientFd roomName successMsg
      (List.finRange maxRooms)

/-- The initial value of `room_list_msg`. -/
def roomListHeader : Bytes := text "=== Available Chat Rooms ===\n\n"

/-- What `send_avail_rooms` appends when no room is in use. -/
def noRoomsText : Bytes :=
  text ("No chat rooms available!\nUse the create room command to start " ++
    "your own chat room.\n")

/-- The loop of `send_avail_rooms`, with `room_list_msg` and `rooms_avail`. -/
def listScan (clientFd : Fd) (roomListMsg : Bytes) (roomsAvail : Bool) :
    List (Fin maxRooms) → ServerProg N C Unit
  | [] =>
      if roomsAvail then
        act (.send clientFd cmdRoomListResponse roomListMsg)
      else do
        let roomListMsg := roomListMsg ++ noRoomsText
        act (.sprintf .roomListMsg roomListMsg.length)
        act (.send clientFd cmdRoomListResponse roomListMsg)
  | i :: rest => do
      match ← act (.listSection i roomListMsg) with
      | none => listScan clientFd roomListMsg roomsAvail rest
      | some roomListMsg => listScan clientFd roomListMsg true rest

def sendAvailRooms (client : ClientPtr N C) : ServerProg N C Unit := do
  let self ← act (.readClient client)
  listScan self.clientFd roomListHeader false (List.finRange maxRooms)

/-- `sprintf(client_room_join_msg, "%s has entered the room\n", name)`. -/
def clientRoomJoinText (name : Bytes) : Bytes :=
  name ++ text " has entered the room\n"

def joinChatRoom (client : ClientPtr N C) : ServerProg N C Unit := do
  let self ← act (.readClient client)
  let joinMsg := clientRoomJoinText self.name
  act (.sprintf .clientRoomJoinMsg joinMsg.length)
  match parseRoomNumber self.currentMsg with
  | none =>
      act (.send self.clientFd errRoomNotFound
        (text "Invalid room number format. Must be a number between 0-49\n"))
  | some roomIndex =>
      if h : roomIndex < maxRooms then
        act (.joinSection ⟨roomIndex, h⟩ client joinMsg)
      else
        act (.send self.clientFd errRoomNotFound
          (text
            "Invalid room number format. Must be a number between 0-49\n"))

def leaveRoom (client : ClientPtr N C) (roomIndex : Fin maxRooms) :
    ServerProg N C Unit :=
  act (.leaveSection roomIndex client)

end ChatApp.Server
