import ChatApp.Client.Following

/-!
# The two threads of the client

After the username has been sent, `handle_user_input` and `receive_message` run
side by side.  Here every use of what they share is a step of its own: a read of
`is_running` or `is_in_room`, `set_global_bool`, `ui_msg_display`, and the calls
on the socket.  What a function computes between two of these is what
`Client/Main.lean` says, told what the reads have returned.

`ui_input_prompt` writes to the input window only and is left out.
-/

namespace ChatApp.Client

open ChatApp.Foundation ChatApp.Server

/-! ## What the threads share -/

/-- The two threads `main` creates. -/
inductive ClientThread where
  | handleUserInput
  | receiveMessage
  deriving DecidableEq, Repr

/-- What happens to the client, oldest first. -/
inductive ClientEntry where
  | typed (line : Bytes)
  | received (buffer : Bytes)
  | sent (message : Bytes)
  | shown (t : ClientThread) (window : Window) (string : Bytes)
  | stopped
  | closed
  deriving DecidableEq

/-- The global variables, whether each thread has returned and whether the
process has exited, and what has happened. -/
structure Session where
  isRunning : Bool
  isInRoom : Bool
  inputEnded : Bool
  receiverEnded : Bool
  exited : Bool
  journal : List ClientEntry
  deriving DecidableEq

/-- The client when `main` creates the threads: `get_username` has handed
`message` to `send_message`. -/
def Session.init (message : Bytes) : Session :=
  { isRunning := true
    isInRoom := false
    inputEnded := false
    receiverEnded := false
    exited := false
    journal := [.sent message] }

def Session.note (s : Session) (e : ClientEntry) : Session :=
  { s with journal := s.journal ++ [e] }

def Session.ended (s : Session) : ClientThread → Bool
  | .handleUserInput => s.inputEnded
  | .receiveMessage => s.receiverEnded

/-- The lines `wgetnstr` has stored. -/
def Session.typed (s : Session) : List Bytes :=
  s.journal.filterMap fun
    | .typed line => some line
    | _ => none

/-- The results of `recv`. -/
def Session.received (s : Session) : List Bytes :=
  s.journal.filterMap fun
    | .received buffer => some buffer
    | _ => none

/-- The strings handed to `send`. -/
def Session.sent (s : Session) : List Bytes :=
  s.journal.filterMap fun
    | .sent message => some message
    | _ => none

/-- What a thread has displayed. -/
def Session.shownBy (t : ClientThread) (s : Session) :
    List (Window × Bytes) :=
  s.journal.filterMap fun
    | .shown u window string => if u = t then some (window, string) else none
    | _ => none

/-! ## Steps -/

/-- One use of what the threads share, or one call. -/
inductive ClientAct where
  | uiMsgDisplay (t : ClientThread) (window : Window) (string : Bytes)
  | readIsRunning
  | readIsInRoom
  /-- `set_global_bool(&is_running, &run_state_mutex, false)`. -/
  | clearIsRunning
  | setIsInRoom (state : Bool)
  | wgetnstr (line : Bytes)
  | recv (buffer : Bytes)
  | send (message : Bytes)
  | close
  /-- `return NULL`. -/
  | finish (t : ClientThread)
  /-- `exit(1)`. -/
  | exit
  deriving DecidableEq

abbrev ClientAct.Answer : ClientAct → Type
  | .readIsRunning => Bool
  | .readIsInRoom => Bool
  | _ => Unit

/-- What an action does while the process runs. -/
def ClientAct.exec : (a : ClientAct) → Session → a.Answer × Session
  | .uiMsgDisplay t window string, s => ((), s.note (.shown t window string))
  | .readIsRunning, s => (s.isRunning, s)
  | .readIsInRoom, s => (s.isInRoom, s)
  | .clearIsRunning, s => ((), { s.note .stopped with isRunning := false })
  | .setIsInRoom state, s => ((), { s with isInRoom := state })
  | .wgetnstr line, s => ((), s.note (.typed line))
  | .recv buffer, s => ((), s.note (.received buffer))
  | .send message, s => ((), s.note (.sent message))
  | .close, s => ((), s.note .closed)
  | .finish .handleUserInput, s => ((), { s with inputEnded := true })
  | .finish .receiveMessage, s => ((), { s with receiverEnded := true })
  | .exit, s => ((), { s with exited := true })

/-- Nothing happens after `exit`. -/
def execClient (a : ClientAct) (s : Session) : Option (a.Answer × Session) :=
  if s.exited then none else some (a.exec s)

abbrev ClientProg : Type → Type :=
  Prog ClientAct ClientAct.Answer

def perform (a : ClientAct) : ClientProg a.Answer :=
  Prog.perform a

/-! ## The code of the threads -/

/-- Calls of `ui_msg_display`. -/
def displayAll (t : ClientThread) : List (Window × Bytes) → ClientProg Unit
  | [] => pure ()
  | (window, string) :: rest => do
      perform (.uiMsgDisplay t window string)
      displayAll t rest

/-- The variables a function has read, and nothing displayed yet. -/
def App.seen (isRunning isInRoom : Bool) : App :=
  { isRunning := isRunning
    isInRoom := isInRoom
    displayed := [] }

def exitClientCode (t : ClientThread) : ClientProg Unit := do
  perform (.uiMsgDisplay t .outputWin (text " Exiting client\n"))
  perform .clearIsRunning
  perform .close

/-- `send_message`; `sendOk` says that `send` does not return `-1`. -/
def sendMessage (message : Bytes) (sendOk : Bool) : ClientProg Unit := do
  if sendOk then perform (.send message) else perform .exit

/-- `send_message`, when there is something to send. -/
def sendFormatted (formattedCommand : Option Bytes) (sendOk : Bool) :
    ClientProg Unit :=
  match formattedCommand with
  | some formattedCommand => sendMessage formattedCommand sendOk
  | none => pure ()

/-- `send_command`: `validate_and_format` reads `is_running`, and `is_in_room`
when the client is running. -/
def sendCommandCode (message cmd₀ arg₀ : Bytes) (sendOk : Bool) :
    ClientProg Unit := do
  if message.length = 0 then
    displayAll .handleUserInput
      (sendCommand (App.seen true false) message cmd₀ arg₀).2.displayed
  else
    let isRunning ← perform .readIsRunning
    let isInRoom ← if isRunning then perform .readIsInRoom else pure false
    let (formattedCommand, app) :=
      sendCommand (App.seen isRunning isInRoom) message cmd₀ arg₀
    displayAll .handleUserInput app.displayed
    sendFormatted formattedCommand sendOk

def listOfCommands : Bytes :=
  text ("\n List of commands:\n" ++
    "\t/exit -this will allow you to close the client " ++
    "*NOT AVAILABLE WHEN ENTERING USERNAME*\n" ++
    "\t/create 'enter room name' -this will allow you to create and enter " ++
    "a room\n" ++
    "\t/list -this will allow you to view available rooms\n" ++
    "\t/join 'enter room NUMBER' -this will allow you to join a room\n" ++
    "\t/leave -this will allow you to leave a room\n" ++
    "\n For a list of commands available in a room or not in a room type " ++
    "HELP\n")

def listOfAvailableCommands : Bytes :=
  text ("\n List of commands available when NOT IN a room:\n" ++
    "\t/exit , /create , /join 'room #' , /list\n" ++
    "\n List of commands available when IN a room:\n" ++
    "\t/exit , /leave\n\n")

/-- One round of the loop of `handle_user_input`.  `read` is the string
`wgetnstr` stores, `none` when it does not return `OK`. -/
def handleUserInput (read : Option Bytes) (cmd₀ arg₀ : Bytes)
    (sendOk : Bool) : ClientProg Unit := do
  let isRunning ← perform .readIsRunning
  if isRunning = false then perform (.finish .handleUserInput)
  else
    match read with
    | none =>
        perform (.uiMsgDisplay .handleUserInput .outputWin
          (text " Input error\n"))
        perform (.finish .handleUserInput)
    | some line =>
        perform (.wgetnstr line)
        let command := line.takeWhile (· ≠ lf)
        if command.length = 0 then
          perform (.uiMsgDisplay .handleUserInput .outputWin
            (text " Invalid input, cannot be empty.\n"))
        else if command = text "/exit" then
          sendCommandCode command cmd₀ arg₀ sendOk
          exitClientCode .handleUserInput
          perform (.finish .handleUserInput)
        else if command = text "HELP!" then
          perform (.uiMsgDisplay .handleUserInput .outputWin listOfCommands)
        else if command = text "HELP" then
          perform (.uiMsgDisplay .handleUserInput .outputWin
            listOfAvailableCommands)
        else
          sendCommandCode command cmd₀ arg₀ sendOk
          let isInRoom ← perform .readIsInRoom
          if isInRoom then
            perform (.uiMsgDisplay .handleUserInput .msgWin
              (text " You: " ++ command ++ text "\n"))

/-- `parse_server_msg`: what is displayed, and then `set_global_bool` for the
commands that change `is_in_room`. -/
def parseServerMsgCode (buffer : Bytes) : ClientProg Unit := do
  displayAll .receiveMessage
    (parseServerMsg (App.seen true false) buffer).displayed
  match mode? (buffer.headD 0) with
  | some state => perform (.setIsInRoom state)
  | none => pure ()

/-- One round of the loop of `receive_message`.  `result` is what `recv` stores,
`none` when it returns `-1`. -/
def receiveMessageCode (result : Option Bytes) : ClientProg Unit := do
  let isRunning ← perform .readIsRunning
  if isRunning = false then perform (.finish .receiveMessage)
  else
    match result with
    | none => perform .exit
    | some buffer =>
        perform (.recv buffer)
        if buffer = [] then
          perform (.uiMsgDisplay .receiveMessage .outputWin
            (text "Server has terminated connection\n"))
          exitClientCode .receiveMessage
          perform (.finish .receiveMessage)
        else parseServerMsgCode buffer

/-! ## Both threads -/

/-- One round of a thread's loop. -/
inductive Round where
  | input (read : Option Bytes) (cmd₀ arg₀ : Bytes) (sendOk : Bool)
  | receive (result : Option Bytes)
  deriving DecidableEq

def roundProg : ClientThread → Round → ClientProg Unit
  | .handleUserInput, .input read cmd₀ arg₀ sendOk =>
      handleUserInput read cmd₀ arg₀ sendOk
  | .receiveMessage, .receive result => receiveMessageCode result
  | _, _ => pure ()

def client : System ClientThread ClientAct ClientAct.Answer Round Session :=
  { exec := execClient
    job := roundProg }

abbrev ClientConfiguration : Type :=
  Config ClientThread ClientAct ClientAct.Answer Session

abbrev ClientStep : Type := Label ClientThread ClientAct Round

/-- A thread that has returned starts no further round, and `wgetnstr` stores a
string of at most `MAX_CONTENT_LEN` characters. -/
def RoundOk (s : Session) : ClientStep → Prop
  | .start t round => s.ended t = false ∧
      ∀ line cmd₀ arg₀ sendOk, round = .input (some line) cmd₀ arg₀ sendOk →
        0 ∉ line ∧ line.length ≤ maxContentLen
  | .act .. => True

/-- The threads when `main` has created them. -/
def ClientConfiguration.init (message : Bytes) : ClientConfiguration :=
  .quiet (Session.init message)

/-! ## What each thread owns -/

/-- The actions of a thread: only `handle_user_input` reads lines and sends, only
`receive_message` receives and sets `is_in_room`. -/
def ClientAct.Owned (t : ClientThread) : ClientAct → Prop
  | .uiMsgDisplay u .. | .finish u => u = t
  | .wgetnstr _ | .send _ => t = .handleUserInput
  | .recv _ | .setIsInRoom _ => t = .receiveMessage
  | _ => True

/-- What the other thread leaves alone: the lines typed and the strings sent, and
what was received, `is_in_room` and what was displayed of it. -/
abbrev ClientView : ClientThread → Type
  | .handleUserInput => List Bytes × List Bytes
  | .receiveMessage => List Bytes × Bool × List (Window × Bytes)

def clientView : (t : ClientThread) → Session → ClientView t
  | .handleUserInput, s => (s.typed, s.sent)
  | .receiveMessage, s => (s.received, s.isInRoom, s.shownBy .receiveMessage)

section View

variable {s s' : Session} {a : ClientAct} {b : a.Answer}

theorem execClient_eq (h : execClient a s = some (b, s')) :
    a.exec s = (b, s') := by
  unfold execClient at h
  split at h
  case isTrue => cases h
  case isFalse => exact Option.some.inj h

/-- What an action adds to the journal. -/
def ClientAct.entry? : ClientAct → Option ClientEntry
  | .uiMsgDisplay t window string => some (.shown t window string)
  | .wgetnstr line => some (.typed line)
  | .recv buffer => some (.received buffer)
  | .send message => some (.sent message)
  | .clearIsRunning => some .stopped
  | .close => some .closed
  | _ => none

theorem exec_journal (h : execClient a s = some (b, s')) :
    s'.journal = s.journal ++ a.entry?.toList := by
  have hexec := execClient_eq h
  cases a
  case finish t => cases t <;> cases hexec <;> exact (List.append_nil _).symm
  all_goals
    cases hexec
    first
      | rfl
      | exact (List.append_nil _).symm

theorem exec_isInRoom (ha : ∀ state, a ≠ .setIsInRoom state)
    (h : execClient a s = some (b, s')) : s'.isInRoom = s.isInRoom := by
  have hexec := execClient_eq h
  cases a
  case finish t => cases t <;> cases hexec <;> rfl
  case setIsInRoom state => exact absurd rfl (ha state)
  all_goals
    cases hexec
    rfl

/-- What an action does to what a thread owns. -/
def ClientAct.effect : (t : ClientThread) → ClientAct → ClientView t →
    ClientView t
  | .handleUserInput, .wgetnstr line, (typed, sent) => (typed ++ [line], sent)
  | .handleUserInput, .send message, (typed, sent) =>
      (typed, sent ++ [message])
  | .receiveMessage, .recv buffer, (received, rest) =>
      (received ++ [buffer], rest)
  | .receiveMessage, .setIsInRoom state, (received, _, shown) =>
      (received, state, shown)
  | .receiveMessage, .uiMsgDisplay .receiveMessage window string,
      (received, isInRoom, shown) =>
      (received, isInRoom, shown ++ [(window, string)])
  | _, _, v => v

theorem clientView_step {t : ClientThread}
    (h : execClient a s = some (b, s')) :
    clientView t s' = a.effect t (clientView t s) := by
  have hjournal := exec_journal h
  cases t with
  | handleUserInput =>
      simp only [clientView, Session.typed, Session.sent, hjournal,
        List.filterMap_append]
      cases a <;> simp [ClientAct.entry?, ClientAct.effect]
  | receiveMessage =>
      by_cases hset : ∃ state, a = .setIsInRoom state
      · obtain ⟨state, rfl⟩ := hset
        cases execClient_eq h
        rfl
      · push Not at hset
        simp only [clientView, Session.received, Session.shownBy, hjournal,
          List.filterMap_append, exec_isInRoom hset h]
        cases a
        case setIsInRoom state => exact absurd rfl (hset state)
        case uiMsgDisplay u window string =>
          cases u <;> simp [ClientAct.entry?, ClientAct.effect]
        all_goals simp [ClientAct.entry?, ClientAct.effect]

/-- A thread's actions leave the other thread's part alone. -/
theorem effect_other {t u : ClientThread} (hu : u ≠ t) (ha : a.Owned t)
    (v : ClientView u) : a.effect u v = v := by
  cases u <;> cases a
  case receiveMessage.uiMsgDisplay w window string =>
    obtain rfl : w = t := ha
    cases w with
    | handleUserInput => rfl
    | receiveMessage => exact absurd rfl hu
  all_goals first
    | rfl
    | exact absurd ha.symm hu

end View

/-- Threads that keep to their own actions. -/
def clientOwners : Contract client RoundOk :=
  { V := ClientView
    view := clientView
    Inv := fun _ => True
    Pre := fun t a _ => a.Owned t
    inv_exec := fun _ _ _ _ _ _ _ _ _ => trivial
    view_exec := fun _ _ _ _ _ _ hu _ ha he => by
      rw [clientView_step he, effect_other hu ha] }

section Safe

variable {t : ClientThread} {α : Type} {Q : α → ClientView t → Prop}

/-- An action of the thread's own. -/
theorem safe_own {a : ClientAct} {next : a.Answer → ClientProg α}
    {v : ClientView t} (ha : a.Owned t)
    (h : ∀ b, clientOwners.Safe t Q (next b) (a.effect t v)) :
    clientOwners.Safe t Q (.act a next) v := by
  intro s _ hv _
  refine ⟨ha, fun b s' he => ?_⟩
  have hstep : clientOwners.view t s' = a.effect t v := by
    rw [← hv]
    exact clientView_step he
  rw [hstep]
  exact h b

end Safe

end ChatApp.Client
