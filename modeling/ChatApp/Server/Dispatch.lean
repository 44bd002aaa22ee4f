import ChatApp.Server.System

/-!
# The dispatcher and the message loop, unfolded

`route_client_command` refuses a message or hands it to one handler;
`refusal` and `handleAccepted` are the two halves.  The message loop routes
the first complete message and goes on with the rest of the chunk, in step
with `messages`.
-/

namespace ChatApp.Server

open ChatApp.Foundation

variable {N C : Nat}

/-- The answer `route_client_command` refuses a message with. -/
def refusal (self : Client) : Option (UInt8 × Bytes) :=
  match formatError self.currentMsg with
  | some answer => some answer
  | none =>
      (stateError self.state (command self.currentMsg)).map fun message =>
        (errProtocolInvalidStateCmd, message)

/-- The record is in the given state and its message is an accepted one with
the given command. -/
structure Accepted (record : Client) (state : ClientState) (cmd : UInt8) :
    Prop where
  valid : refusal record = none
  state : record.state = state
  command : command record.currentMsg = cmd

/-- What `route_client_command` does with a message that passed both
checks. -/
def handleAccepted (client : ClientPtr N C) (self : Client) :
    ServerProg N C Unit :=
  if command self.currentMsg = cmdExit then
    handleClientDisconnection client
  else
    match self.state with
    | .awaitingUsername => handleAwaitingUsername client self
    | .inChatLobby => handleInChatLobby client self
    | .inChatRoom => handleInChatRoom client self

/-- What `route_client_command` does once the message is handed over. -/
def dispatch (client : ClientPtr N C) (self : Client) :
    ServerProg N C Unit :=
  match refusal self with
  | some (code, message) => act (.send self.clientFd code message)
  | none => handleAccepted client self

theorem formatError_code {currentMsg : Bytes} {answer : UInt8 × Bytes}
    (h : formatError currentMsg = some answer) :
    answer.1 = errProtocolInvalidFormat ∨ answer.1 = errMsgEmptyContent := by
  unfold formatError at h
  repeat' split at h
  all_goals
    first
    | (cases h; exact .inl rfl)
    | (cases h; exact .inr rfl)
    | cases h

/-- The codes of refusals. -/
def refusalCodes : List UInt8 :=
  [errProtocolInvalidFormat, errMsgEmptyContent, errProtocolInvalidStateCmd]

theorem refusal_mem_codes {self : Client} {answer : UInt8 × Bytes}
    (h : refusal self = some answer) : answer.1 ∈ refusalCodes := by
  unfold refusal at h
  cases hf : formatError self.currentMsg with
  | some answer' =>
      rw [hf] at h
      cases h
      obtain hc | hc := formatError_code hf
      all_goals
        rw [hc]
        decide
  | none =>
      rw [hf] at h
      simp only [Option.map_eq_some_iff] at h
      obtain ⟨message, -, rfl⟩ := h
      show errProtocolInvalidStateCmd ∈ refusalCodes
      decide

/-- A refusal is an error reply. -/
theorem refusal_code {self : Client} {answer : UInt8 × Bytes}
    (h : refusal self = some answer) {cmdType : UInt8}
    (hcode : cmdType ∉ refusalCodes) : answer.1 ≠ cmdType := by
  rintro rfl
  exact hcode (refusal_mem_codes h)

theorem accepts_eq (self : Client) :
    accepts self = (refusal self).isNone := by
  unfold accepts refusal
  cases formatError self.currentMsg <;> simp

theorem routeClientCommand_eq (client : ClientPtr N C) :
    routeClientCommand client =
      .act (.routeMessage client) (dispatch client) := by
  unfold routeClientCommand
  simp only [act_eq, Prog.act_bind, Prog.ret_bind]
  congr 1
  funext self
  unfold dispatch refusal validateMsgFormat commandValidForState
  cases formatError self.currentMsg with
  | some answer => rfl
  | none =>
      cases stateError self.state (command self.currentMsg) with
      | some message => rfl
      | none => rfl

theorem handleClientDisconnection_eq (client : ClientPtr N C) :
    handleClientDisconnection client =
      .act (.readClient client) fun self =>
        if self.state = .inChatRoom then
          leaveRoom client self.roomIndex >>= fun _ => cleanupClient client
        else cleanupClient client :=
  rfl

/-- An exit message that passes the checks is accepted in every state. -/
theorem refusal_of_isExit {self : Client} (h : isExit self.currentMsg = true) :
    refusal self = none := by
  simp only [isExit, Bool.and_eq_true, Option.isNone_iff_eq_none,
    decide_eq_true_eq] at h
  simp [refusal, h.1, h.2, stateError]

theorem isExit_iff (self : Client) :
    isExit self.currentMsg = true ↔
      refusal self = none ∧ command self.currentMsg = cmdExit := by
  constructor
  · intro h
    refine ⟨refusal_of_isExit h, ?_⟩
    simp only [isExit, Bool.and_eq_true, decide_eq_true_eq] at h
    exact h.2
  · rintro ⟨hr, hc⟩
    have hf : formatError self.currentMsg = none := by
      cases hf : formatError self.currentMsg with
      | none => rfl
      | some answer => simp [refusal, hf] at hr
    simp only [isExit, hf, Option.isNone_none, Bool.true_and,
      decide_eq_true_eq]
    exact hc

/-! ## The commands accepted in each state -/

theorem command_of_lobby {self : Client} (hr : refusal self = none)
    (hs : self.state = .inChatLobby)
    (he : command self.currentMsg ≠ cmdExit) :
    command self.currentMsg = cmdRoomCreateRequest ∨
      command self.currentMsg = cmdRoomJoinRequest ∨
      command self.currentMsg = cmdRoomListRequest := by
  by_contra hn
  simp only [not_or] at hn
  obtain ⟨h₁, h₂, h₃⟩ := hn
  unfold refusal at hr
  cases hf : formatError self.currentMsg with
  | some answer => simp [hf] at hr
  | none => simp [hf, stateError, hs, h₁, h₂, h₃, he] at hr

theorem command_of_room {self : Client} (hr : refusal self = none)
    (hs : self.state = .inChatRoom)
    (he : command self.currentMsg ≠ cmdExit) :
    command self.currentMsg = cmdRoomMessageSend ∨
      command self.currentMsg = cmdLeaveRoom := by
  by_contra hn
  simp only [not_or] at hn
  obtain ⟨h₁, h₂⟩ := hn
  unfold refusal at hr
  cases hf : formatError self.currentMsg with
  | some answer => simp [hf] at hr
  | none => simp [hf, stateError, hs, h₁, h₂, he] at hr

theorem command_of_awaiting {self : Client} (hr : refusal self = none)
    (hs : self.state = .awaitingUsername)
    (he : command self.currentMsg ≠ cmdExit) :
    command self.currentMsg = cmdUsernameSubmit := by
  by_contra hn
  unfold refusal at hr
  cases hf : formatError self.currentMsg with
  | some answer => simp [hf] at hr
  | none => simp [hf, stateError, hs, hn, he] at hr

theorem chatLine?_none {self : Client}
    (h : refusal self ≠ none ∨ self.state ≠ .inChatRoom ∨
      command self.currentMsg ≠ cmdRoomMessageSend) :
    chatLine? self = none := by
  unfold chatLine?
  rw [accepts_eq]
  cases hr : refusal self with
  | some answer => simp
  | none =>
      have h' := h.resolve_left (by simp [hr])
      rw [if_neg]
      simpa [or_iff_not_imp_left] using h'

theorem chatLine?_some {self : Client} (hr : refusal self = none)
    (hs : self.state = .inChatRoom)
    (hc : command self.currentMsg = cmdRoomMessageSend) :
    chatLine? self = some (chatText self.name (content self.currentMsg)) := by
  simp [chatLine?, accepts_eq, hr, hs, hc]

/-! ## The actions of the handlers -/

/-- The actions the handlers of a command of client `c` are made of. -/
def Act.ofCommand (c : ClientPtr N C) : Act N C → Prop
  | .readClient d | .strcpyName d _ | .setLobby d | .createSection _ d _ _
  | .joinSection _ d _ | .chatSection _ d _ | .leaveSection _ d
  | .leaveOkSection _ d => d = c
  | .sprintf .. | .send .. | .listSection .. => True
  | _ => False

/-- The actions of the handlers of a client that has its username. -/
def Act.ofRoom (c : ClientPtr N C) : Act N C → Prop
  | .readClient d | .setLobby d | .createSection _ d _ _
  | .joinSection _ d _ | .chatSection _ d _ | .leaveSection _ d
  | .leaveOkSection _ d => d = c
  | .sprintf .. | .send .. | .listSection .. => True
  | _ => False

theorem Act.ofRoom.ofCommand {c : ClientPtr N C} {a : Act N C}
    (ha : a.ofRoom c) : a.ofCommand c := by
  cases a <;> first | exact ha | cases ha

/-- The actions of the disconnection of client `c`. -/
def Act.ofRelease (c : ClientPtr N C) : Act N C → Prop
  | .epollDel d | .closeClient d | .zeroClient d => d = c
  | .subtractZeroed w => w = c.worker
  | a => a.ofRoom c

/-- The actions of all handlers of client `c`, its disconnection
included. -/
def Act.ofHandler (c : ClientPtr N C) (a : Act N C) : Prop :=
  match a with
  | .epollDel d | .closeClient d | .zeroClient d => d = c
  | .subtractZeroed w => w = c.worker
  | a => a.ofCommand c

theorem Act.ofCommand.ofHandler {c : ClientPtr N C} {a : Act N C}
    (ha : a.ofCommand c) : a.ofHandler c := by
  cases a <;> first | exact ha | cases ha

theorem Act.ofRelease.ofHandler {c : ClientPtr N C} {a : Act N C}
    (ha : a.ofRelease c) : a.ofHandler c := by
  cases a <;> first | exact ha | cases ha

section Handlers

variable (c : ClientPtr N C) (self : Client)

/-- One action. -/
theorem all_one {P : Act N C → Prop} {a : Act N C} (ha : P a) :
    Prog.All P (act a) :=
  ⟨ha, fun _ => trivial⟩

/-- The codes of the answers a client gets outside the critical sections. -/
def replyCodes : List UInt8 :=
  [errProtocolInvalidFormat, errMsgEmptyContent, errProtocolInvalidStateCmd,
    errUsernameLength, errRoomNameInvalid, errRoomCapacityFull,
    errRoomNotFound, cmdRoomListResponse]

/-- The codes of the answers a client gets once its message is accepted. -/
def handlerCodes : List UInt8 :=
  [errRoomNameInvalid, errRoomCapacityFull, errRoomNotFound,
    cmdRoomListResponse]

/-- A property of what all handlers do besides entering and leaving rooms. -/
structure Replying (P : Act N C → Prop) (c : ClientPtr N C) : Prop where
  readClient : P (.readClient c)
  sprintf : ∀ buffer len, P (.sprintf buffer len)
  listSection : ∀ i roomListMsg, P (.listSection i roomListMsg)
  send : ∀ fd cmdType message, cmdType ∈ handlerCodes →
    P (.send fd cmdType message)

section Replying

variable {P : Act N C → Prop} {c}

theorem Replying.listScan (h : Replying P c) (clientFd : Fd)
    (rooms : List (Fin maxRooms)) :
    ∀ (roomListMsg : Bytes) (roomsAvail : Bool),
      Prog.All P (listScan clientFd roomListMsg roomsAvail rooms) := by
  have hcode : cmdRoomListResponse ∈ handlerCodes := by decide
  induction rooms with
  | nil =>
      intro roomListMsg roomsAvail
      cases roomsAvail with
      | true => exact all_one (h.send _ _ _ hcode)
      | false =>
          exact ⟨h.sprintf _ _, fun _ => all_one (h.send _ _ _ hcode)⟩
  | cons i rest ih =>
      intro roomListMsg roomsAvail
      refine ⟨h.listSection i _, fun answer => ?_⟩
      cases answer with
      | none => exact ih _ _
      | some roomListMsg => exact ih _ _

theorem Replying.sendAvailRooms (h : Replying P c) :
    Prog.All P (sendAvailRooms c) :=
  ⟨h.readClient, fun _ => h.listScan _ _ _ _⟩

theorem Replying.createScan (h : Replying P c)
    (hsection : ∀ i roomName successMsg,
      P (.createSection i c roomName successMsg))
    (clientFd : Fd) (roomName successMsg : Bytes)
    (rooms : List (Fin maxRooms)) :
    Prog.All P (createScan c clientFd roomName successMsg rooms) := by
  induction rooms with
  | nil => exact all_one (h.send _ _ _ (by decide))
  | cons i rest ih =>
      refine ⟨hsection i _ _, fun created => ?_⟩
      cases created with
      | true => trivial
      | false => exact ih

theorem Replying.createChatRoom (h : Replying P c)
    (hsection : ∀ i roomName successMsg,
      P (.createSection i c roomName successMsg)) :
    Prog.All P (createChatRoom c) := by
  refine ⟨h.readClient, fun self => ⟨h.sprintf _ _, fun _ => ?_⟩⟩
  show Prog.All _ (if _ then _ else _)
  split
  · exact all_one (h.send _ _ _ (by decide))
  · exact h.createScan hsection _ _ _ _

theorem Replying.joinChatRoom (h : Replying P c)
    (hsection : ∀ i joinMsg, P (.joinSection i c joinMsg)) :
    Prog.All P (joinChatRoom c) := by
  have hcode : errRoomNotFound ∈ handlerCodes := by decide
  refine ⟨h.readClient, fun self => ⟨h.sprintf _ _, fun _ => ?_⟩⟩
  cases parseRoomNumber self.currentMsg with
  | none => exact all_one (h.send _ _ _ hcode)
  | some roomIndex =>
      dsimp only
      split
      · exact all_one (hsection _ _)
      · exact all_one (h.send _ _ _ hcode)

theorem Replying.handleAwaitingUsername (h : Replying P c)
    (hlong : maxUsernameLen < (content self.currentMsg).length →
      ∀ fd message, P (.send fd errUsernameLength message))
    (hname : ∀ name, P (.strcpyName c name)) (hlobby : P (.setLobby c)) :
    Prog.All P (handleAwaitingUsername c self) := by
  unfold Server.handleAwaitingUsername
  dsimp only
  split
  · rename_i hlength
    exact all_one (hlong hlength _ _)
  · exact ⟨hname _, fun _ => ⟨hlobby, fun _ => h.sendAvailRooms⟩⟩

theorem Replying.handleInChatLobby (h : Replying P c)
    (hcreate : ∀ i roomName successMsg,
      P (.createSection i c roomName successMsg))
    (hjoin : ∀ i joinMsg, P (.joinSection i c joinMsg)) :
    Prog.All P (handleInChatLobby c self) := by
  unfold Server.handleInChatLobby
  dsimp only
  split
  · exact h.createChatRoom hcreate
  split
  · exact h.joinChatRoom hjoin
  split
  · exact h.sendAvailRooms
  · trivial

theorem refusal_mem_replyCodes {answer : UInt8 × Bytes}
    (h : refusal self = some answer) : answer.1 ∈ replyCodes := by
  have hsub : refusalCodes ⊆ replyCodes := by decide
  exact hsub (refusal_mem_codes h)

end Replying

theorem replying_ofRoom : Replying (Act.ofRoom c) c :=
  ⟨rfl, fun _ _ => trivial, fun _ _ => trivial, fun _ _ _ _ => trivial⟩

theorem replying_ofCommand : Replying (Act.ofCommand c) c :=
  ⟨rfl, fun _ _ => trivial, fun _ _ => trivial, fun _ _ _ _ => trivial⟩

theorem all_sendAvailRooms : Prog.All (Act.ofRoom c) (sendAvailRooms c) :=
  (replying_ofRoom c).sendAvailRooms

theorem all_handleAwaitingUsername :
    Prog.All (Act.ofCommand c) (handleAwaitingUsername c self) :=
  (replying_ofCommand c).handleAwaitingUsername self (fun _ _ _ => trivial)
    (fun _ => rfl) rfl

theorem all_handleInChatLobby :
    Prog.All (Act.ofRoom c) (handleInChatLobby c self) :=
  (replying_ofRoom c).handleInChatLobby self (fun _ _ _ => rfl)
    fun _ _ => rfl

theorem all_handleInChatRoom :
    Prog.All (Act.ofRoom c) (handleInChatRoom c self) := by
  unfold handleInChatRoom
  dsimp only
  split
  · exact ⟨trivial, fun _ => all_one rfl⟩
  · exact ⟨trivial, fun _ => ⟨rfl, fun _ => ⟨rfl, fun _ => all_one rfl⟩⟩⟩

/-- A message that is no exit is handled by a command's handler. -/
theorem all_handleCommand (h : command self.currentMsg ≠ cmdExit) :
    Prog.All (Act.ofCommand c) (handleAccepted c self) := by
  unfold handleAccepted
  rw [if_neg h]
  cases self.state with
  | awaitingUsername => exact all_handleAwaitingUsername c self
  | inChatLobby =>
      exact (all_handleInChatLobby c self).imp fun _ => Act.ofRoom.ofCommand
  | inChatRoom =>
      exact (all_handleInChatRoom c self).imp fun _ => Act.ofRoom.ofCommand

theorem all_dispatchCommand (h : isExit self.currentMsg = false) :
    Prog.All (Act.ofCommand c) (dispatch c self) := by
  unfold dispatch
  split
  · exact all_one trivial
  · rename_i hr
    apply all_handleCommand
    intro hcmd
    have hexit := (isExit_iff self).mpr ⟨hr, hcmd⟩
    rw [hexit] at h
    cases h

theorem all_cleanupClient : Prog.All (Act.ofRelease c) (cleanupClient c) :=
  ⟨rfl, fun _ => ⟨rfl, fun _ => ⟨rfl, fun _ => all_one rfl⟩⟩⟩

theorem all_releaseClient :
    Prog.All (Act.ofRelease c) (handleClientDisconnection c) := by
  rw [handleClientDisconnection_eq]
  refine ⟨rfl, fun self => ?_⟩
  show Prog.All _ (if self.state = .inChatRoom then _ else _)
  split
  · have hleave : Prog.All (Act.ofRelease c) (leaveRoom c self.roomIndex) :=
      all_one rfl
    exact hleave.bind fun _ => all_cleanupClient c
  · exact all_cleanupClient c

theorem all_handleClientDisconnection :
    Prog.All (Act.ofHandler c) (handleClientDisconnection c) :=
  (all_releaseClient c).imp fun _ => Act.ofRelease.ofHandler

theorem all_dispatch : Prog.All (Act.ofHandler c) (dispatch c self) := by
  cases hexit : isExit self.currentMsg with
  | false =>
      exact (all_dispatchCommand c self hexit).imp
        fun _ => Act.ofCommand.ofHandler
  | true =>
      obtain ⟨hr, hcmd⟩ := (isExit_iff self).mp hexit
      simp only [dispatch, hr, handleAccepted, hcmd, if_true]
      exact all_handleClientDisconnection c

end Handlers

/-! ## The actions of the hand-over -/

/-- The actions of `register_new_client` on worker `w` after it has read the
eventfd. -/
def Act.ofRegister (w : Fin N) : Act N C → Prop
  | .subtractUnread v | .postUnread v | .semPost v _
  | .registerWithEpoll v _ _ | .allocateClientSlot v _
  | .subtractRefused v _ | .closeRefused v _ => v = w
  | .send _ cmdType message =>
      cmdType = cmdWelcomeRequest ∧ message = welcomeText
  | _ => False

theorem all_setUpClient (w : Fin N) (clientFd : Fd) (epollOk : Bool) :
    Prog.All (Act.ofRegister w)
      (setUpClient w clientFd epollOk : ServerProg N C Unit) := by
  have hrefused : Prog.All (Act.ofRegister w)
      (act (.subtractRefused w clientFd) >>= fun _ =>
        act (.closeRefused w clientFd) : ServerProg N C Unit) :=
    ⟨rfl, fun _ => all_one rfl⟩
  refine ⟨rfl, fun registered => ?_⟩
  cases registered with
  | false => exact hrefused
  | true =>
      refine ⟨rfl, fun allocated => ?_⟩
      cases allocated with
      | false => exact hrefused
      | true => exact all_one ⟨rfl, rfl⟩

theorem all_registerNewClient (w : Fin N) (readOk epollOk : Bool) :
    ∃ next, (registerNewClient w readOk epollOk : ServerProg N C Unit) =
        .act (.readEventfd w readOk) next ∧
      ∀ answer, Prog.All (Act.ofRegister w) (next answer) := by
  refine ⟨_, registerNewClient_eq w readOk epollOk, fun answer => ?_⟩
  cases answer with
  | none => exact ⟨rfl, fun _ => all_one rfl⟩
  | some clientFd => exact ⟨rfl, fun _ => all_setUpClient w clientFd epollOk⟩

theorem all_registering {P : Act N C → Prop} {w : Fin N} {readOk : Bool}
    (hread : P (.readEventfd w readOk)) (h : ∀ a, a.ofRegister w → P a)
    (epollOk : Bool) :
    Prog.All P (registerNewClient w readOk epollOk : ServerProg N C Unit) := by
  obtain ⟨next, hprog, hall⟩ :=
    all_registerNewClient (C := C) w readOk epollOk
  rw [hprog]
  exact ⟨hread, fun answer => (hall answer).imp h⟩

/-- The actions of the accept loop, with the sends of its refusals. -/
def Act.ofMain : Act N C → Prop
  | .send _ cmdType message =>
      cmdType = errServerFull ∧ message = capacityErrMsg ∨
        cmdType = errConnecting ∧ message = connectionErrorMsg
  | .accept _ | .setSocketKeepAlive .. | .inspectWorker _ | .advanceIndex
  | .closeRejected _ | .semWait .. | .writeEventfd .. | .postFailed ..
  | .closeFailed .. | .subtractFailed _ => True
  | _ => False

theorem all_findWorkerLoop (clientFd : Fd) (left : Nat) :
    Prog.All Act.ofMain (findWorkerLoop (N := N) (C := C) clientFd left) := by
  have hround : ∀ retry, Prog.All Act.ofMain retry →
      Prog.All Act.ofMain
        (findWorkerRound (N := N) (C := C) clientFd retry) := by
    intro retry h
    refine ⟨trivial, fun answer => ?_⟩
    cases answer with
    | none => exact ⟨trivial, fun _ => h⟩
    | some w => exact ⟨trivial, fun _ => trivial⟩
  induction left with
  | zero => exact hround _ trivial
  | succ left ih => exact hround _ ih

theorem all_acceptClient (clientFd : Fd) (keepAliveOk writeOk : Bool) :
    Prog.All Act.ofMain
      (acceptClient (N := N) (C := C) clientFd keepAliveOk writeOk) := by
  refine ⟨trivial, fun _ => ⟨trivial, fun configured => ?_⟩⟩
  cases configured with
  | false => trivial
  | true =>
      refine (all_findWorkerLoop clientFd N).bind fun found => ?_
      cases found with
      | none => exact ⟨.inl ⟨rfl, rfl⟩, fun _ => all_one trivial⟩
      | some w =>
          refine ⟨trivial, fun _ => ⟨trivial, fun written => ?_⟩⟩
          cases written with
          | true => trivial
          | false =>
              exact ⟨trivial, fun _ => ⟨.inr ⟨rfl, rfl⟩,
                fun _ => ⟨trivial, fun _ => all_one trivial⟩⟩⟩

/-- Actions that wait for another thread or for the kernel. -/
def Act.blocks : Act N C → Bool
  | .readEventfd .. | .accept _ | .semWait .. => true
  | _ => false

theorem isSome_exec {a : Act N C} (s : State N C) (ha : a.blocks = false) :
    (exec a s).isSome := by
  cases a <;> first | rfl | cases ha

theorem Act.ofHandler.not_blocks {c : ClientPtr N C} {a : Act N C}
    (ha : a.ofHandler c) : a.blocks = false := by
  cases a <;> first | rfl | cases ha

/-- A program that never blocks can be executed to its end. -/
theorem exists_exec {R : State N C → State N C → Prop} {α : Type}
    (hrefl : ∀ s, R s s) {p : ServerProg N C α}
    (hp : Prog.All (fun a => a.blocks = false) p) (s : State N C) :
    ∃ steps value s', Prog.Exec exec R p s steps value s' := by
  have hexec : ∀ (a : Act N C) (s : State N C), a.blocks = false →
      (exec a s).isSome := fun _ s ha => isSome_exec s ha
  exact Prog.exists_exec hrefl hexec hp s

/-- What holds of the handlers' actions and of the three actions of the loop
itself holds of all actions of the message loop. -/
theorem all_messageLoop {P : Act N C → Prop} (c : ClientPtr N C)
    (hhandler : ∀ a, a.ofHandler c → P a)
    (hstrcat : ∀ piece, P (.strcatCurrentMsg c piece))
    (hroute : P (.routeMessage c)) (hclear : P (.clearCurrentMsg c))
    (fuel : Nat) : ∀ temp, Prog.All P (messageLoop c fuel temp) := by
  have hcommand : Prog.All P (routeClientCommand c) := by
    rw [routeClientCommand_eq]
    exact ⟨hroute, fun self => (all_dispatch c self).imp hhandler⟩
  induction fuel with
  | zero => intro temp; trivial
  | succ fuel ih =>
      intro temp
      unfold messageLoop
      cases strstrTerminator temp with
      | some out =>
          exact ⟨hstrcat _,
            fun _ => hcommand.bind fun _ => ⟨hclear, fun _ => ih out.2⟩⟩
      | none =>
          dsimp only
          split
          · trivial
          · exact all_one (hstrcat _)

/-- Every chunk can be handled to its end. -/
theorem exists_received {R : State N C → State N C → Prop}
    (hrefl : ∀ s, R s s) (c : ClientPtr N C) (chunk : Bytes)
    (s : State N C) :
    ∃ steps s', Prog.Exec exec R
      (readAndProcessClientMessage c (.data chunk)) s steps () s' := by
  have hloop := all_messageLoop (P := fun a => a.blocks = false) c
    (fun _ => Act.ofHandler.not_blocks) (fun _ => rfl) rfl rfl
    ((cString chunk).length + 1) (cString chunk)
  obtain ⟨steps, _, s', h⟩ := exists_exec hrefl hloop s
  exact ⟨steps, s', h⟩

/-! ## The message loop -/

theorem feed_of_cut {carry temp piece rest : Bytes}
    (h : strstrTerminator temp = some (piece, rest)) :
    Delimited.feed cr lf carry temp =
      ((carry ++ piece) :: (Delimited.feed cr lf [] rest).1,
        (Delimited.feed cr lf [] rest).2) := by
  have hp := Delimited.pieces_of_cut h
  unfold Delimited.feed
  rw [hp]
  cases hq : Delimited.pieces cr lf rest with
  | mk ps tail =>
      cases ps with
      | nil => simp
      | cons q qs => simp

theorem feed_of_free {carry temp : Bytes} (h : strstrTerminator temp = none) :
    Delimited.feed cr lf carry temp = ([], carry ++ temp) := by
  have hp := Delimited.pieces_of_free (Delimited.cut_eq_none.mp h)
  simp [Delimited.feed, hp]

/-- A chunk that completes no message has no terminator. -/
theorem cut_of_feed_nil {carry temp : Bytes}
    (h : (Delimited.feed cr lf carry temp).1 = []) :
    strstrTerminator temp = none := by
  cases hcut : strstrTerminator temp with
  | none => rfl
  | some out =>
      rw [feed_of_cut hcut] at h
      simp at h

theorem ExitsLast.head {msg : Bytes} {msgs : List Bytes}
    (h : ExitsLast (msg :: msgs)) (hne : msgs ≠ []) : isExit msg = false := by
  apply h
  obtain ⟨next, rest, rfl⟩ := List.exists_cons_of_ne_nil hne
  simp

theorem ExitsLast.tail {msg : Bytes} {msgs : List Bytes}
    (h : ExitsLast (msg :: msgs)) : ExitsLast msgs := by
  intro m hm
  apply h
  cases msgs with
  | nil => simp at hm
  | cons next rest => simpa using Or.inr hm

end ChatApp.Server
