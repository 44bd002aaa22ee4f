import ChatApp.Protocol

/-!
# The client (`client/main.c`)

The client has two threads.  One turns what the user types into messages for
the server, the other interprets what `recv` returns.  They share the global
variables `is_running` and `is_in_room` and the windows; `App` is that shared
state, the windows as the list of strings displayed so far.

Arrays that the source leaves uninitialised are arguments.
-/

namespace ChatApp.Client

/-- The windows of `user_interface.c` that messages are displayed in. -/
inductive Window where
  | outputWin
  | msgWin
  deriving DecidableEq, Repr

/-- The global variables of the client. -/
structure App where
  isRunning : Bool
  isInRoom : Bool
  displayed : List (Window × Bytes)
  deriving DecidableEq

/-- The globals after a username was sent. -/
def App.init : App :=
  { isRunning := true
    isInRoom := false
    displayed := [] }

/-- `ui_msg_display`. -/
def uiMsgDisplay (app : App) (window : Window) (string : Bytes) : App :=
  { app with displayed := app.displayed ++ [(window, string)] }

/-- `exit_client`; the descriptor is closed. -/
def exitClient (app : App) : App :=
  { uiMsgDisplay app .outputWin (text " Exiting client\n") with
    isRunning := false }

/-! ## From the user to the server -/

/-- One entry of the table `commands`; `format` is applied to the string that
replaces its `%s`, if it has one. -/
structure CommandFormat where
  command : Bytes
  cmdCode : UInt8
  argc : Int
  format : Bytes → Bytes

def commands : List CommandFormat :=
  [{ command := text "submit"
     cmdCode := 0x02
     argc := 1
     format := fun arg => text "\x02 " ++ arg ++ text "\r\n" },
   { command := text "/create"
     cmdCode := 0x03
     argc := 1
     format := fun arg => text "\x03 " ++ arg ++ text "\r\n" },
   { command := text "/join"
     cmdCode := 0x05
     argc := 1
     format := fun arg => text "\x05 " ++ arg ++ text "\r\n" },
   { command := text "/exit"
     cmdCode := 0x01
     argc := 0
     format := fun _ => text "\x01 dummy\r\n" },
   { command := text "/msg"
     cmdCode := 0x07
     argc := 1
     format := fun arg => text "\x07 " ++ arg ++ text "\r\n" },
   { command := text "/leave"
     cmdCode := 0x06
     argc := 0
     format := fun _ => text "\x06 dummy\r\n" },
   { command := text "/list"
     cmdCode := 0x04
     argc := 0
     format := fun _ => text "\x04 dummy\r\n" }]

/-- The entry the loops over `commands` stop at. -/
def findCommand (cmd : Bytes) : Option CommandFormat :=
  commands.find? fun entry => entry.command = cmd

/-- `snprintf` into an array of `outSize` bytes, the formatted string
given. -/
def snprintf (outSize : Nat) (formatted : Bytes) : Bytes :=
  formatted.take (outSize - 1)

/-- One `%s` of `sscanf`: the next word and the input after it. -/
def scanWord (input : Bytes) : Bytes × Bytes :=
  let start := input.dropWhile isSpace
  (start.takeWhile fun b => !isSpace b, start.dropWhile fun b => !isSpace b)

/-- `sscanf(input, "%s %s", cmd, arg1)`: the result and the two arrays, which
keep what they held when there is no word for them. -/
def sscanfWords (input cmd arg1 : Bytes) : Int × Bytes × Bytes :=
  match scanWord input with
  | ([], _) => (-1, cmd, arg1)
  | (cmd, rest) =>
      match scanWord rest with
      | ([], _) => (1, cmd, arg1)
      | (arg1, _) => (2, cmd, arg1)

/-- `handle_commands`: the string written to `output` when it returns `true`.
`cmd₀` and `arg₀` are what the arrays `cmd` and `arg1` hold at the start. -/
def handleCommands (app : App) (input : Bytes) (outSize : Nat)
    (cmd₀ arg₀ : Bytes) : Option Bytes × App :=
  let (numArgs, cmd, arg1) := sscanfWords input cmd₀ arg₀
  if app.isInRoom then
    if cmd = text "/leave" ∨ cmd = text "/exit" then
      match findCommand cmd with
      | some entry => (some (snprintf outSize (entry.format arg1)), app)
      | none => (none, app)
    else
      (none, uiMsgDisplay app .outputWin
        (text ("\n Invalid command. Available commands while in a room:\n" ++
          "\t/leave, /exit.\n")))
  else
    if cmd = text "/create" ∨ cmd = text "/join" ∨ cmd = text "/list" ∨
        cmd = text "/exit" then
      match findCommand cmd with
      | some entry =>
          if numArgs - 1 = entry.argc then
            (some (snprintf outSize (entry.format arg1)), app)
          else
            (none, uiMsgDisplay app .outputWin (text
              "\n Improper Usage. Type HELP for a list of commands.\n"))
      | none => (none, app)
    else
      (none, uiMsgDisplay app .outputWin
        (text ("\n Invalid command. Available commands while not in a room " ++
          "are:\n\t/create, /join, /list, /exit.\n")))

/-- `validate_and_format`: the string written to `output` when it returns
`true`. -/
def validateAndFormat (app : App) (input : Bytes) (outSize : Nat)
    (cmd₀ arg₀ : Bytes) : Option Bytes × App :=
  if app.isRunning = false then
    (none, uiMsgDisplay app .outputWin
      (text (" Server has terminated the connection.\n" ++
        "No further commands can be processed.\n")))
  else if input.head? = some 47 then
    handleCommands app input outSize cmd₀ arg₀
  else if app.isInRoom then
    if maxContentLen < input.length then
      (none, uiMsgDisplay app .outputWin
        (text "\n Message too long please keep it under 128 characters\n"))
    else
      (some (snprintf outSize (text "\x07 " ++ input ++ text "\r\n")), app)
  else
    (none, uiMsgDisplay app .outputWin
      (text "Invalid input. type HELP for list of commands\n"))

/-- `send_command`: what is handed to `send_message`, if anything. -/
def sendCommand (app : App) (message cmd₀ arg₀ : Bytes) :
    Option Bytes × App :=
  if message.length = 0 then
    (none, uiMsgDisplay app .outputWin
      (text " Invalid input. Command cannot be empty.\n"))
  else
    match validateAndFormat app message maxMessageLenToServer cmd₀ arg₀ with
    | (some formattedCommand, app) => (some formattedCommand, app)
    | (none, app) =>
        (none, uiMsgDisplay app .outputWin
          (text " Failed to send command. Please retry\n\n"))

/-- One round of the loop of `get_username`: the username it accepts, if it
does.  `read` is the string `wgetnstr` stores, `none` when it returns `ERR`. -/
def usernameRound (app : App) (read : Option Bytes) : Option Bytes × App :=
  match read with
  | none =>
      (none, uiMsgDisplay app .outputWin
        (text "Error reading username. Try again.\n"))
  | some username =>
      if maxUsernameLen - 1 < username.length then
        (none, uiMsgDisplay app .outputWin
          (text "Username too long. Maximum allowed is " ++
            decimal (maxUsernameLen - 1) ++
            text " characters. Try again.\n"))
      else
        let username := username.takeWhile (· ≠ lf)
        if username = [] then
          (none, uiMsgDisplay app .outputWin
            (text "Username cannot be empty. Try again.\n"))
        else if username.any isSpace then
          (none, uiMsgDisplay app .outputWin (text
            "Username cannot contain spaces or whitespace. Try again.\n"))
        else if username = text "/exit" ∨ username = text "HELP" then
          (none, uiMsgDisplay app .outputWin (text
            "Username cannot be \"/exit\" or \"HELP\". Try again.\n"))
        else
          (some username, uiMsgDisplay app .outputWin
            (text "\t\n\nLive Long And Prosper " ++ username ++
              text "\n\n"))

/-- `get_username`: the accepted username and the string handed to
`send_message`, unless the loop is still reading. -/
def getUsername (app : App) :
    (reads : List (Option Bytes)) → Option (Bytes × Bytes) × App
  | [] => (none, app)
  | read :: reads =>
      match usernameRound app read with
      | (some username, app) =>
          (some (username,
            snprintf 256 (text "\x02 " ++ username ++ text "\r\n")), app)
      | (none, app) => getUsername app reads

/-! ## From the server to the user -/

/-- The copy of a room message without its carriage returns. -/
def sanitize (string : Bytes) : Bytes :=
  string.filter (· ≠ cr)

/-- `parse_server_msg` on the bytes that `recv` returned, a NUL after them. -/
def parseServerMsg (app : App) (buffer : Bytes) : App :=
  let cmdCode := buffer.headD 0
  let rest := cString (buffer.drop 1)
  if cmdCode = cmdWelcomeRequest then
    uiMsgDisplay app .outputWin (text
      " Server: Welcome request received. Please submit your username.\n")
  else if cmdCode = cmdRoomCreateOk then
    { uiMsgDisplay app .outputWin (text
        " Server: Room created successfully\nPlease type a message:\n") with
      isInRoom := true }
  else if cmdCode = cmdRoomListResponse then
    uiMsgDisplay app .outputWin
      (text " Server: Room list received:\n" ++ rest ++ text "\n")
  else if cmdCode = cmdRoomJoinOk then
    { uiMsgDisplay app .outputWin (text
        " Server: Room joined successfully\nPlease type a message:\n") with
      isInRoom := true }
  else if cmdCode = cmdRoomMsg then
    uiMsgDisplay app .msgWin (text " " ++ sanitize rest)
  else if cmdCode = cmdRoomLeaveOk then
    { uiMsgDisplay app .outputWin (text
        " Server: You have left the room.\n") with
      isInRoom := false }
  else
    uiMsgDisplay app .outputWin (text "\n Server: " ++ rest ++ text "\n")

/-- One round of `receive_message` after `recv` returned without an error; an
empty result means that the server has closed the connection. -/
def receiveMessage (app : App) (received : Bytes) : App :=
  if received = [] then
    exitClient (uiMsgDisplay app .outputWin
      (text "Server has terminated connection\n"))
  else parseServerMsg app received

/-- The results of `recv`, one round each. -/
def receiveAll (app : App) (chunks : List Bytes) : App :=
  chunks.foldl receiveMessage app

end ChatApp.Client
