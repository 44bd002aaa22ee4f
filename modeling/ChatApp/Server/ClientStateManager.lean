import ChatApp.Foundation.Delimited
import ChatApp.Server.RoomManager

/-!
# `client_state_manager.c`

From the bytes `recv` returns to the handlers.  The checks of
`validate_msg_format` and `command_valid_for_state` are the pure functions
`formatError` and `stateError` of `Server/Actions.lean`; here they answer the
client.
-/

namespace ChatApp.Server

open ChatApp.Foundation

variable {N C : Nat}

/-- The outcome of `recv`: bytes, or a result of at most zero with the value
`errno` has then. -/
inductive RecvResult where
  | data (bytes : Bytes)
  | nothing (wouldBlock : Bool)

def validateMsgFormat (self : Client) : ServerProg N C Bool :=
  match formatError self.currentMsg with
  | some (code, message) => do
      act (.send self.clientFd code message)
      return false
  | none => return true

def commandValidForState (self : Client) : ServerProg N C Bool :=
  match stateError self.state (command self.currentMsg) with
  | some message => do
      act (.send self.clientFd errProtocolInvalidStateCmd message)
      return false
  | none => return true

def handleAwaitingUsername (client : ClientPtr N C) (self : Client) :
    ServerProg N C Unit := do
  let username := content self.currentMsg
  if maxUsernameLen < username.length then
    act (.send self.clientFd errUsernameLength
      (text "\x1b[32mUser name too long, must be less than 32\n"))
  else
    act (.strcpyName client username)
    act (.setLobby client)
    sendAvailRooms client

def handleInChatLobby (client : ClientPtr N C) (self : Client) :
    ServerProg N C Unit :=
  let command := command self.currentMsg
  if command = cmdRoomCreateRequest then createChatRoom client
  else if command = cmdRoomJoinRequest then joinChatRoom client
  else if command = cmdRoomListRequest then sendAvailRooms client
  else pure ()

/-- `sprintf(msg, "%s has left the room", client->name)`; the string is built
and not used. -/
def hasLeftText (name : Bytes) : Bytes :=
  name ++ text " has left the room"

def handleInChatRoom (client : ClientPtr N C) (self : Client) :
    ServerProg N C Unit := do
  let roomIndex := self.roomIndex
  if command self.currentMsg = cmdRoomMessageSend then
    let msg := chatText self.name (content self.currentMsg)
    act (.sprintf .msg msg.length)
    act (.chatSection roomIndex client msg)
  else
    act (.sprintf .msg (hasLeftText self.name).length)
    leaveRoom client roomIndex
    act (.leaveOkSection roomIndex client)
    act (.setLobby client)

def cleanupClient (client : ClientPtr N C) : ServerProg N C Unit := do
  act (.epollDel client)
  act (.closeClient client)
  act (.zeroClient client)
  act (.subtractZeroed client.worker)

def handleClientDisconnection (client : ClientPtr N C) :
    ServerProg N C Unit := do
  let self ← act (.readClient client)
  if self.state = .inChatRoom then
    leaveRoom client self.roomIndex
  cleanupClient client

def routeClientCommand (client : ClientPtr N C) : ServerProg N C Unit := do
  let self ← act (.routeMessage client)
  let formatted ← validateMsgFormat self
  let valid ← if formatted then commandValidForState self else pure false
  if valid then
    if command self.currentMsg = cmdExit then
      handleClientDisconnection client
    else
      match self.state with
      | .awaitingUsername => handleAwaitingUsername client self
      | .inChatLobby => handleInChatLobby client self
      | .inChatRoom => handleInChatRoom client self

/-- `strstr(temp, "\r\n")`: the text before the terminator and the text two
bytes after its start. -/
def strstrTerminator (temp : Bytes) : Option (Bytes × Bytes) :=
  Delimited.cut cr lf temp

/-- The `while (msg_term != NULL)` loop and the saving of the partial message
after it.  Each round moves `temp` forward, so `fuel` above the length of
`temp` is never used up. -/
def messageLoop (client : ClientPtr N C) :
    (fuel : Nat) → (temp : Bytes) → ServerProg N C Unit
  | 0, _ => pure ()
  | fuel + 1, temp =>
      match strstrTerminator temp with
      | some (piece, rest) => do
          act (.strcatCurrentMsg client piece)
          routeClientCommand client
          act (.clearCurrentMsg client)
          messageLoop client fuel rest
      | none =>
          if temp = [] then pure ()
          else act (.strcatCurrentMsg client temp)

def readAndProcessClientMessage (client : ClientPtr N C) :
    RecvResult → ServerProg N C Unit
  | .nothing wouldBlock =>
      if wouldBlock then pure ()
      else handleClientDisconnection client
  | .data bytes =>
      messageLoop client ((cString bytes).length + 1) (cString bytes)

end ChatApp.Server
