import ChatApp.Server.Routines

/-!
# Where texts go

A text enters the server as the content of an accepted message and leaves it
in frames, put together with the templates of the source.  A `TextPolicy` says
which strings are allowed as a name, a room name, a room list, the text of a
frame, and which lengths are allowed in the buffers; its laws are about the
templates and about accepted messages only.  `texts_run` follows the texts
through all routines of all threads: in every run everything sent and
everything built is as the policy allows.
-/

namespace ChatApp.Server

open ChatApp.Foundation

variable {N C : Nat}

/-! ## Policies -/

/-- The answers with a fixed text. -/
def fixedAnswers : List (UInt8 × Bytes) :=
  [(errProtocolInvalidFormat,
      text ("Message too short\nCorrect format:[command " ++
        "char][space][message content][MSG_TERMINATOR]\n")),
    (errProtocolInvalidFormat,
      text ("Invalid Foramt: Message too long\nCorrect format:[command " ++
        "char][space][message content][MSG_TERMINATOR]\n")),
    (errProtocolInvalidFormat,
      text ("Missing space after command.\nCorrect format: [command " ++
        "char][space][message content][MSG_TERMINATOR]\n")),
    (errProtocolInvalidFormat,
      text ("Command not found\nCorrect format: [command " ++
        "char][space][message content][MSG_TERMINATOR]\n")),
    (errMsgEmptyContent,
      text ("Content is Empty\nCorrect format: [command " ++
        "char][space][message content][MSG_TERMINATOR]\n")),
    (errProtocolInvalidStateCmd,
      text "CMD not correct for client in awaiting username state\n"),
    (errProtocolInvalidStateCmd, text "Invalid command for lobby state\n"),
    (errProtocolInvalidStateCmd,
      text "Invalid command for in chat room state\n"),
    (errUsernameLength,
      text "\x1b[32mUser name too long, must be less than 32\n"),
    (errRoomNameInvalid,
      text "Room creation failed: Room name length invalid\n"),
    (errRoomCapacityFull,
      text "Room creation failed: Maximum number of rooms reached\n"),
    (errRoomNotFound,
      text "Invalid room number format. Must be a number between 0-49\n"),
    (errRoomNotFound, text "Room does not exist\n"),
    (errRoomCapacityFull, text "Cannot join room: Room is full\n"),
    (cmdRoomJoinOk, text "Successfully joined room\n"),
    (cmdRoomLeaveOk, text "You have left the room\n"),
    (cmdWelcomeRequest, welcomeText),
    (errServerFull, capacityErrMsg),
    (errConnecting, connectionErrorMsg)]

/-- Which texts are allowed where. -/
structure TextPolicy (N C : Nat) (ok : State N C → Step N C → Prop) where
  Name : Bytes → Prop
  RoomName : Bytes → Prop
  Listing : Bytes → Prop
  Sent : UInt8 → Bytes → Prop
  Built : Buffer → Nat → Prop
  live : ∀ s l, ok s l → EventOk s l
  noName : Name []
  submitted : ∀ s t c, ok s (.act t (.routeMessage c)) →
    Accepted (s.clients c) .awaitingUsername cmdUsernameSubmit →
    (content (s.clients c).currentMsg).length ≤ maxUsernameLen →
    Name (content (s.clients c).currentMsg)
  requested : ∀ s t c, ok s (.act t (.routeMessage c)) →
    Accepted (s.clients c) .inChatLobby cmdRoomCreateRequest →
    Built .successMsg
        (roomCreatedText (content (s.clients c).currentMsg)).length ∧
      ((content (s.clients c).currentMsg).length ≤ maxRoomNameLen →
        RoomName (content (s.clients c).currentMsg) ∧
          Sent cmdRoomCreateOk
            (roomCreatedText (content (s.clients c).currentMsg)))
  said : ∀ s t c, ok s (.act t (.routeMessage c)) →
    Accepted (s.clients c) .inChatRoom cmdRoomMessageSend →
    Name (s.clients c).name →
    Built .msg (chatText (s.clients c).name
        (content (s.clients c).currentMsg)).length ∧
      Sent cmdRoomMsg (chatText (s.clients c).name
        (content (s.clients c).currentMsg))
  nameBuilt : ∀ n, Name n → Built .name n.length
  roomNameBuilt : ∀ n, RoomName n → Built .roomName n.length
  joined : ∀ n, Name n →
    Built .clientRoomJoinMsg (clientRoomJoinText n).length ∧
      Sent cmdRoomMsg (clientRoomJoinText n)
  left : ∀ n, Name n →
    Built .clientLeftMsg (clientLeftText n).length ∧
      Built .msg (hasLeftText n).length ∧
      Sent cmdRoomMsg (clientLeftText n)
  header : Listing roomListHeader
  entry : ∀ s t i msg, ok s (.act t (.listSection i msg)) → Listing msg →
    (s.rooms i).inUse = true → RoomName (s.rooms i).roomName →
    Listing (msg ++ roomEntryText i (s.rooms i).roomName) ∧
      Built .roomEntry (roomEntryText i (s.rooms i).roomName).length ∧
      Built .roomListMsg
        (msg ++ roomEntryText i (s.rooms i).roomName).length
  listed : ∀ msg, Listing msg → Sent cmdRoomListResponse msg
  noRooms : Built .roomListMsg (roomListHeader ++ noRoomsText).length ∧
    Sent cmdRoomListResponse (roomListHeader ++ noRoomsText)
  frame : ∀ cmd msg, Sent cmd msg → Built .messageBuffer (msg.length + 4)
  currentMsg : ∀ len, Built .currentMsg len
  fixed : ∀ answer ∈ fixedAnswers, Sent answer.1 answer.2

theorem fixedAnswer (n : Nat) {answer : UInt8 × Bytes}
    (h : fixedAnswers[n]? = some answer) : answer ∈ fixedAnswers :=
  List.mem_of_getElem? h

theorem formatError_mem {currentMsg : Bytes} {answer : UInt8 × Bytes}
    (h : formatError currentMsg = some answer) : answer ∈ fixedAnswers := by
  unfold formatError at h
  repeat' split at h
  all_goals cases h
  · exact fixedAnswer 0 rfl
  · exact fixedAnswer 1 rfl
  · exact fixedAnswer 2 rfl
  · exact fixedAnswer 3 rfl
  · exact fixedAnswer 4 rfl

theorem stateError_mem {state : ClientState} {cmd : UInt8} {message : Bytes}
    (h : stateError state cmd = some message) :
    (errProtocolInvalidStateCmd, message) ∈ fixedAnswers := by
  unfold stateError at h
  repeat' split at h
  all_goals cases h
  · exact fixedAnswer 5 rfl
  · exact fixedAnswer 6 rfl
  · exact fixedAnswer 7 rfl

theorem refusal_mem {self : Client} {answer : UInt8 × Bytes}
    (h : refusal self = some answer) : answer ∈ fixedAnswers := by
  unfold refusal at h
  cases hf : formatError self.currentMsg with
  | some answer' =>
      rw [hf] at h
      cases h
      exact formatError_mem hf
  | none =>
      rw [hf] at h
      simp only [Option.map_eq_some_iff] at h
      obtain ⟨message, hs, rfl⟩ := h
      exact stateError_mem hs

theorem joinRefusals_mem {answer : UInt8 × Bytes} (h : answer ∈ joinRefusals) :
    answer ∈ fixedAnswers := by
  simp only [joinRefusals, List.mem_cons, List.not_mem_nil, or_false] at h
  rcases h with rfl | rfl
  · exact fixedAnswer 12 rfl
  · exact fixedAnswer 13 rfl

/-! ## Every thread keeps to what is its own -/

theorem Act.ofHandler.owned {c : ClientPtr N C} {a : Act N C}
    (ha : a.ofHandler c) : a.Owned (.worker c.worker) := by
  refine ⟨fun w hw => ?_, fun hmain => ?_⟩
  · cases a <;> simp only [Act.worker?, Option.some.injEq, reduceCtorEq] at hw
    all_goals cases ha
    all_goals rw [hw]
  · cases a <;> simp only [Act.isMain, Bool.false_eq_true] at hmain
    all_goals cases ha

theorem Act.ofRegister.owned {w : Fin N} {a : Act N C}
    (ha : a.ofRegister w) : a.Owned (.worker w) := by
  refine ⟨fun v hv => ?_, fun hmain => ?_⟩
  · cases a <;> simp only [Act.worker?, Option.some.injEq, reduceCtorEq] at hv
    all_goals cases ha
    all_goals rw [hv]
  · cases a <;> simp only [Act.isMain, Bool.false_eq_true] at hmain
    all_goals cases ha

theorem Act.ofMain.owned {a : Act N C} (ha : a.ofMain) :
    a.Owned .main := by
  refine ⟨fun w hw => ?_, fun _ => rfl⟩
  cases a <;> simp only [Act.worker?, Option.some.injEq, reduceCtorEq] at hw
  all_goals cases ha

theorem all_owned (t : Thread N) (j : Job N C) (s : State N C)
    (hok : EventOk s (.start t j)) :
    Prog.All (Act.Owned t) (jobProg t j) := by
  cases j with
  | accept fd keepAliveOk writeOk =>
      cases t with
      | main =>
          exact (all_acceptClient fd keepAliveOk writeOk).imp
            fun _ => Act.ofMain.owned
      | worker w => trivial
  | register readOk epollOk =>
      cases t with
      | main => trivial
      | worker w =>
          have hread : (Act.readEventfd w readOk : Act N C).Owned
              (.worker w) :=
            ⟨fun v hv => congrArg Thread.worker (Option.some.inj hv),
              fun hmain => by cases hmain⟩
          exact all_registering hread (fun _ => Act.ofRegister.owned) epollOk
  | receive client result =>
      obtain ⟨⟨rfl, -⟩, -⟩ := hok
      have hown : ∀ a : Act N C, a.worker? = some client.worker →
          a.isMain = false → a.Owned (.worker client.worker) := by
        intro a hworker hmain
        refine ⟨fun w hw => ?_, fun h => ?_⟩
        · rw [hworker, Option.some.injEq] at hw
          rw [hw]
        · rw [hmain] at h
          cases h
      cases result with
      | nothing wouldBlock =>
          cases wouldBlock with
          | true => trivial
          | false =>
              exact (all_handleClientDisconnection client).imp
                fun _ => Act.ofHandler.owned
      | data bytes =>
          exact all_messageLoop client (fun _ => Act.ofHandler.owned)
            (fun _ => hown _ rfl rfl) (hown _ rfl rfl) (hown _ rfl rfl) _ _
  | hangUp client =>
      obtain ⟨rfl, -⟩ := hok
      exact (all_handleClientDisconnection client).imp
        fun _ => Act.ofHandler.owned

theorem owners_job (t : Thread N) (j : Job N C) (s : State N C)
    (hok : EventOk s (.start t j)) :
    (owners N C).Safe t (fun _ _ => True) (jobProg t j) (view t s) :=
  .of_all (Q := fun _ => True) (fun _ _ ha _ _ _ => ha)
    (fun _ _ _ _ _ _ _ _ => trivial) (all_owned t j s hok) trivial

/-! ## What a policy says of states and actions -/

section Policy

variable {ok : State N C → Step N C → Prop} (p : TextPolicy N C ok)

/-- Every text in the state is as the policy allows. -/
structure TextPolicy.Inv (s : State N C) : Prop where
  name : ∀ c, p.Name (s.clients c).name
  roomName : ∀ i, (s.rooms i).inUse = true → p.RoomName (s.rooms i).roomName
  sent : ∀ fd conn cmd msg, SysCall.send fd conn cmd msg ∈ s.calls →
    p.Sent cmd msg
  built : ∀ buffer len, Entry.built buffer len ∈ s.journal →
    p.Built buffer len

/-- The texts an action is given are as the policy allows. -/
def TextPolicy.Pre : Act N C → Prop
  | .strcpyName _ name => p.Name name
  | .sprintf buffer len => p.Built buffer len
  | .send _ cmdType message => p.Sent cmdType message
  | .createSection _ _ roomName successMsg =>
      p.RoomName roomName ∧ p.Sent cmdRoomCreateOk successMsg
  | .listSection _ roomListMsg => p.Listing roomListMsg
  | .joinSection _ _ joinMsg => p.Sent cmdRoomMsg joinMsg
  | .chatSection _ _ msg => p.Sent cmdRoomMsg msg
  | _ => True

variable {p} {s s' : State N C}

/-- A step that adds allowed sends and allowed strings and changes names and
rooms as given. -/
theorem TextPolicy.Inv.extend (h : p.Inv s) {calls : List SysCall}
    {journal : List (Entry N C)} (hcalls : s'.calls = s.calls ++ calls)
    (hjournal : s'.journal = s.journal ++ journal)
    (hsent : ∀ fd conn cmd msg, SysCall.send fd conn cmd msg ∈ calls →
      p.Sent cmd msg)
    (hbuilt : ∀ buffer len, Entry.built buffer len ∈ journal →
      p.Built buffer len)
    (hname : ∀ c, p.Name (s'.clients c).name)
    (hroom : ∀ i, (s'.rooms i).inUse = true →
      p.RoomName (s'.rooms i).roomName) : p.Inv s' := by
  refine ⟨hname, hroom, ?_, ?_⟩
  · intro fd conn cmd msg hmem
    rw [hcalls, List.mem_append] at hmem
    rcases hmem with hmem | hmem
    · exact h.sent fd conn cmd msg hmem
    · exact hsent fd conn cmd msg hmem
  · intro buffer len hmem
    rw [hjournal, List.mem_append] at hmem
    rcases hmem with hmem | hmem
    · exact h.built buffer len hmem
    · exact hbuilt buffer len hmem

/-- A step that sends and builds nothing and touches no name and no room. -/
theorem TextPolicy.Inv.silent (h : p.Inv s)
    (hname : ∀ c, (s'.clients c).name = (s.clients c).name)
    (hrooms : s'.rooms = s.rooms)
    (hcalls : ∀ fd conn cmd msg, SysCall.send fd conn cmd msg ∈ s'.calls →
      SysCall.send fd conn cmd msg ∈ s.calls)
    (hjournal : ∀ buffer len, Entry.built buffer len ∈ s'.journal →
      Entry.built buffer len ∈ s.journal) : p.Inv s' := by
  refine ⟨?_, ?_, ?_, ?_⟩
  · intro c
    rw [hname]
    exact h.name c
  · rw [hrooms]
    exact h.roomName
  · intro fd conn cmd msg hmem
    exact h.sent fd conn cmd msg (hcalls _ _ _ _ hmem)
  · intro buffer len hmem
    exact h.built buffer len (hjournal _ _ hmem)

theorem Room.roomName_cleanUp {room : Room N C} (c : ClientPtr N C)
    (h : (room.remove c).cleanUp.inUse = true) :
    room.inUse = true ∧ (room.remove c).cleanUp.roomName = room.roomName := by
  have hremove : (room.remove c).inUse = room.inUse ∧
      (room.remove c).roomName = room.roomName := by
    unfold Room.remove
    split <;> exact ⟨rfl, rfl⟩
  unfold Room.cleanUp at h ⊢
  split at h
  · cases h
  · rename_i hpos
    rw [if_neg hpos]
    exact ⟨hremove.1 ▸ h, hremove.2⟩

/-- One frame. -/
theorem TextPolicy.Inv.one (h : p.Inv s) {fd : Fd} {cmdType : UInt8}
    {message : Bytes} (hsent : p.Sent cmdType message) :
    p.Inv (sendMessageToClient s fd cmdType message) := by
  refine h.extend rfl rfl ?_ ?_ h.name h.roomName
  · intro fd' conn cmd msg hmem
    cases List.mem_singleton.mp hmem
    exact hsent
  · intro buffer len hmem
    cases List.mem_singleton.mp hmem
    exact p.frame _ _ hsent

/-- The sends of a broadcast. -/
theorem sent_of_broadcast {msg : Bytes} {cs : List (ClientPtr N C)} {fd : Fd}
    {conn : Option Conn} {cmd : UInt8} {m : Bytes}
    (h : SysCall.send fd conn cmd m ∈ cs.map (roomSend s msg)) :
    cmd = cmdRoomMsg ∧ m = msg := by
  obtain ⟨c, -, hc⟩ := List.mem_map.mp h
  cases hc
  exact ⟨rfl, rfl⟩

/-- The strings of a broadcast. -/
theorem built_of_broadcast {len len' : Nat} {cs : List (ClientPtr N C)}
    {buffer : Buffer}
    (h : Entry.built buffer len' ∈
      cs.map fun _ => (Entry.built .messageBuffer len : Entry N C)) :
    buffer = .messageBuffer ∧ len' = len := by
  obtain ⟨c, -, hc⟩ := List.mem_map.mp h
  cases hc
  exact ⟨rfl, rfl⟩

/-- Every action that is given allowed texts keeps the texts of the state
allowed. -/
theorem TextPolicy.Inv.step (h : p.Inv s) {t : Thread N} {a : Act N C}
    {b : a.Answer} (hok : ok s (.act t a)) (ha : p.Pre a)
    (he : exec a s = some (b, s')) : p.Inv s' := by
  have hupdate : ∀ c (r : Client), p.Name r.name → ∀ d,
      p.Name (Function.update s.clients c r d).name := by
    intro c r hr d
    by_cases hd : d = c
    · subst hd
      rwa [Function.update_self]
    · rw [Function.update_of_ne hd]
      exact h.name d
  have hsame : ∀ c (r : Client), r.name = (s.clients c).name → ∀ d,
      (Function.update s.clients c r d).name = (s.clients d).name := by
    intro c r hr d
    by_cases hd : d = c
    · subst hd
      rwa [Function.update_self]
    · rw [Function.update_of_ne hd]
  cases a
  case readClient c =>
    cases he
    exact h
  case strcatCurrentMsg c piece =>
    cases he
    refine h.extend (List.append_nil _).symm rfl (by simp) ?_
      (hupdate c _ (h.name c)) h.roomName
    intro buffer len hmem
    cases List.mem_singleton.mp hmem
    exact p.currentMsg _
  case strcpyName c name =>
    cases he
    refine h.extend (List.append_nil _).symm rfl (by simp) ?_
      (hupdate c _ ha) h.roomName
    intro buffer len hmem
    cases List.mem_singleton.mp hmem
    exact p.nameBuilt _ ha
  case sprintf buffer len =>
    cases he
    refine h.extend (List.append_nil _).symm rfl (by simp) ?_ h.name h.roomName
    intro buffer' len' hmem
    cases List.mem_singleton.mp hmem
    exact ha
  case send fd cmdType message =>
    cases he
    exact h.one ha
  case leaveOkSection i c =>
    cases he
    exact h.one (p.fixed (cmdRoomLeaveOk, text "You have left the room\n")
      (fixedAnswer 15 rfl))
  case createSection i c roomName successMsg =>
    rcases exec_createSection he with ⟨-, -, rfl⟩ | ⟨-, -, rfl⟩
    · exact h
    · refine h.extend rfl rfl ?_ ?_ (hupdate c _ (h.name c)) ?_
      · intro fd conn cmd msg hmem
        cases List.mem_singleton.mp hmem
        exact ha.2
      · intro buffer len hmem
        simp only [List.mem_cons, Entry.built.injEq, reduceCtorEq,
          List.not_mem_nil, or_false, false_or] at hmem
        rcases hmem with ⟨rfl, rfl⟩ | ⟨rfl, rfl⟩
        · exact p.roomNameBuilt _ ha.1
        · exact p.frame _ _ ha.2
      · intro j hj
        by_cases hji : j = i
        · subst hji
          simp only [State.afterCreate, Function.update_self, Room.opened]
          exact ha.1
        · simp only [State.afterCreate, Function.update_of_ne hji] at hj ⊢
          exact h.roomName j hj
  case listSection i roomListMsg =>
    rcases exec_listSection he with ⟨-, -, rfl⟩ | ⟨hu, -, rfl⟩
    · exact h
    · obtain ⟨-, hentry, hlist⟩ :=
        p.entry s t i roomListMsg hok ha hu (h.roomName i hu)
      refine h.extend (List.append_nil _).symm rfl (by simp) ?_ h.name
        h.roomName
      intro buffer len hmem
      simp only [List.mem_cons, Entry.built.injEq, List.not_mem_nil,
        or_false] at hmem
      rcases hmem with ⟨rfl, rfl⟩ | ⟨rfl, rfl⟩
      · exact hentry
      · exact hlist
  case joinSection i c joinMsg =>
    rcases exec_joinSection he with ⟨r, hr, rfl⟩ | rfl | ⟨j, hu, -, rfl⟩
    · exact h.one (p.fixed r (joinRefusals_mem hr))
    · exact h
    · have hjoined := p.fixed
        (cmdRoomJoinOk, text "Successfully joined room\n") (fixedAnswer 14 rfl)
      refine h.extend (by simp only [State.afterJoin, List.append_assoc]; rfl)
        (by simp only [State.afterJoin, List.append_assoc]; rfl) ?_ ?_
        (hupdate c _ (h.name c)) ?_
      · intro fd conn cmd msg hmem
        rcases List.mem_append.mp hmem with hmem | hmem
        · obtain ⟨rfl, rfl⟩ := sent_of_broadcast hmem
          exact ha
        · cases List.mem_singleton.mp hmem
          exact hjoined
      · intro buffer len hmem
        simp only [List.mem_append, List.mem_singleton, reduceCtorEq,
          false_or] at hmem
        rcases hmem with hmem | hmem
        · obtain ⟨rfl, rfl⟩ := built_of_broadcast hmem
          exact p.frame _ _ ha
        · cases hmem
          exact p.frame _ _ hjoined
      · intro k hk
        by_cases hki : k = i
        · subst hki
          simp only [State.afterJoin, Function.update_self, Room.added]
          exact h.roomName k hu
        · simp only [State.afterJoin, Function.update_of_ne hki] at hk ⊢
          exact h.roomName k hk
  case leaveSection i c =>
    rw [exec_leaveSection he]
    obtain ⟨hbuilt, -, hsent⟩ := p.left _ (h.name c)
    refine h.extend rfl (by rw [State.afterLeave, List.append_assoc]) ?_ ?_
      h.name ?_
    · intro fd conn cmd msg hmem
      obtain ⟨rfl, rfl⟩ := sent_of_broadcast hmem
      exact hsent
    · intro buffer len hmem
      rcases List.mem_append.mp hmem with hmem | hmem
      · simp only [List.mem_cons, Entry.built.injEq, reduceCtorEq,
          List.not_mem_nil, or_false] at hmem
        obtain ⟨rfl, rfl⟩ := hmem
        exact hbuilt
      · obtain ⟨rfl, rfl⟩ := built_of_broadcast hmem
        exact p.frame _ _ hsent
    · intro k hk
      by_cases hki : k = i
      · subst hki
        simp only [State.afterLeave, Function.update_self] at hk ⊢
        obtain ⟨hu, hname⟩ := Room.roomName_cleanUp c hk
        rw [hname]
        exact h.roomName k hu
      · simp only [State.afterLeave, Function.update_of_ne hki] at hk ⊢
        exact h.roomName k hk
  case chatSection i c msg =>
    rw [exec_chatSection he]
    refine h.extend rfl (by rw [State.afterChat, List.append_assoc]) ?_ ?_
      h.name h.roomName
    · intro fd conn cmd m hmem
      obtain ⟨rfl, rfl⟩ := sent_of_broadcast hmem
      exact ha
    · intro buffer len hmem
      simp only [List.mem_append, List.mem_singleton, reduceCtorEq,
        false_or] at hmem
      obtain ⟨rfl, rfl⟩ := built_of_broadcast hmem
      exact p.frame _ _ ha
  case zeroClient c =>
    cases he
    exact h.extend (List.append_nil _).symm
      (List.append_nil _).symm (by simp) (by simp)
      (hupdate c _ p.noName) h.roomName
  case allocateClientSlot w fd =>
    rcases exec_allocateClientSlot he with ⟨-, -, rfl⟩ | ⟨j, -, -, rfl⟩
    · exact h.silent (fun _ => rfl) rfl (by simp) (by simp)
    · exact h.extend (List.append_nil _).symm (List.append_nil _).symm
        (by simp) (by simp) (hupdate _ _ p.noName) h.roomName
  case routeMessage c =>
    rcases exec_routeMessage he with ⟨-, ⟨-, rfl⟩ | ⟨line, -, rfl⟩⟩
    all_goals exact h.silent (fun _ => rfl) rfl (by simp) (by simp)
  case readEventfd w ok =>
    rcases exec_readEventfd he with ⟨-, -, -, rfl⟩ | ⟨-, -, rfl⟩
    all_goals exact h.silent (fun _ => rfl) rfl (by simp) (by simp)
  case registerWithEpoll w fd ok =>
    rcases exec_registerWithEpoll he with ⟨-, -, rfl⟩ | ⟨-, -, rfl⟩
    all_goals exact h.silent (fun _ => rfl) rfl (by simp) (by simp)
  case accept fd =>
    rw [(exec_accept he).2.2]
    exact h.silent (fun _ => rfl) rfl (by simp) (by simp)
  case setSocketKeepAlive fd ok =>
    rcases exec_setSocketKeepAlive he with ⟨-, -, rfl⟩ | ⟨-, -, rfl⟩
    all_goals exact h.silent (fun _ => rfl) rfl (by simp) (by simp)
  case inspectWorker fd =>
    rcases exec_inspectWorker he with ⟨-, -, rfl⟩ | ⟨-, -, rfl⟩
    all_goals exact h.silent (fun _ => rfl) rfl (by simp) (by simp)
  case semWait w fd =>
    rw [(exec_semWait he).2]
    exact h.silent (fun _ => rfl) rfl (by simp) (by simp)
  case writeEventfd w fd ok =>
    rcases exec_writeEventfd he with ⟨-, -, rfl⟩ | ⟨-, -, rfl⟩
    all_goals exact h.silent (fun _ => rfl) rfl (by simp) (by simp)
  case clearCurrentMsg c =>
    cases he
    exact h.silent (hsame c _ rfl) rfl (by simp) (by simp)
  case setLobby c =>
    cases he
    exact h.silent (hsame c _ rfl) rfl (by simp) (by simp)
  case closeClient c =>
    cases he
    exact h.silent (fun _ => rfl) rfl (by simp [closeClient])
      (by simp [closeClient])
  case subtractZeroed w =>
    cases he
    exact h.silent (fun _ => rfl) rfl (by simp [subtractZeroed])
      (by simp [subtractZeroed])
  all_goals
    cases he
    exact h.silent (fun _ => rfl) rfl (by simp) (by simp)

/-! ## Texts through the routines -/

variable (p) in
/-- The policy on top of what every thread keeps to. -/
def TextPolicy.extension : (owners N C).Extension ok :=
  { G := fun _ => Unit
    ghost := fun _ _ => ()
    Inv := p.Inv
    Pre := fun _ a _ => p.Pre a
    weaken := p.live
    inv_exec := fun _ _ _ _ _ _ hs hl _ ha he => hs.step hl ha he
    ghost_exec := fun _ _ _ _ _ _ _ _ _ _ _ _ => rfl }

variable (p) in
/-- Started with record `r` of client `c`, the program is given allowed texts
only. -/
def TextFlow (c : ClientPtr N C) (r : Client) {α : Type}
    (prog : ServerProg N C α) : Prop :=
  ∀ v : View N C (.worker c.worker), v.1 c.index = r →
    p.extension.Flows (.worker c.worker) (fun _ _ _ => True) prog v ()

variable {c : ClientPtr N C} {r : Client} {α β : Type}

theorem TextFlow.ret (value : α) : TextFlow p c r (.ret value) := by
  intro v _
  trivial

theorem TextFlow.act {a : Act N C} {next : a.Answer → ServerProg N C α}
    (h : ∀ s : State N C, p.Inv s → s.clients c = r →
      ok s (.act (.worker c.worker) a) → p.Pre a ∧
        ∀ b s', exec a s = some (b, s') →
          TextFlow p c (s'.clients c) (next b)) :
    TextFlow p c r (.act a next) := by
  intro v hr s _ hs hv _ hok _
  have hrecord : s.clients c = r := by rw [← hr, ← hv]; rfl
  obtain ⟨hpre, hnext⟩ := h s hs hrecord hok
  exact ⟨hpre, fun b s' he => hnext b s' he _ rfl⟩

/-- An action that is given allowed texts, whatever comes of it. -/
theorem TextFlow.then {a : Act N C} {next : a.Answer → ServerProg N C α}
    (ha : p.Pre a) (h : ∀ b r', TextFlow p c r' (next b)) :
    TextFlow p c r (.act a next) :=
  .act fun _ _ _ _ => ⟨ha, fun b _ _ => h b _⟩

theorem TextFlow.one {a : Act N C} (ha : p.Pre a) :
    TextFlow p c r (Server.act a) :=
  .then ha fun b _ => .ret b

theorem TextFlow.bind {prog : ServerProg N C α} {k : α → ServerProg N C β}
    (h : TextFlow p c r prog) (hk : ∀ value r', TextFlow p c r' (k value)) :
    TextFlow p c r (prog >>= k) := by
  intro v hr
  exact (h v hr).bind fun value v' _ _ => hk value _ v' rfl

/-- Reading the own record gives the record. -/
theorem TextFlow.readClient {next : Client → ServerProg N C α}
    (h : TextFlow p c r (next r)) :
    TextFlow p c r (.act (.readClient c) next) := by
  refine .act fun s _ hr _ => ⟨trivial, fun b s' he => ?_⟩
  cases he
  rw [hr]
  exact h

/-- A program all of whose actions are given allowed texts. -/
theorem flows_of_all {t : Thread N} {prog : ServerProg N C α}
    (h : Prog.All p.Pre prog) :
    ∀ v, p.extension.Flows t (fun _ _ _ => True) prog v () := by
  intro v
  exact .of_all (R := fun _ _ => True)
    (fun _ _ ha _ _ _ _ _ => ⟨ha, fun _ _ _ => trivial⟩) h trivial

theorem TextFlow.of_all {prog : ServerProg N C α} (h : Prog.All p.Pre prog) :
    TextFlow p c r prog :=
  fun v _ => flows_of_all (t := .worker c.worker) h v

theorem flow_listScan (clientFd : Fd) (rooms : List (Fin maxRooms)) :
    ∀ (roomListMsg : Bytes) (roomsAvail : Bool) (r : Client),
      p.Listing roomListMsg →
      (roomsAvail = false → roomListMsg = roomListHeader) →
      TextFlow p c r (listScan clientFd roomListMsg roomsAvail rooms) := by
  induction rooms with
  | nil =>
      intro roomListMsg roomsAvail r hlist hnone
      cases roomsAvail with
      | true => exact .one (p.listed _ hlist)
      | false =>
          rw [hnone rfl]
          exact .then p.noRooms.1 fun _ _ => .one p.noRooms.2
  | cons i rest ih =>
      intro roomListMsg roomsAvail r hlist hnone
      refine .act fun s hs _ hok => ⟨hlist, fun b s' he => ?_⟩
      rcases exec_listSection he with ⟨-, rfl, -⟩ | ⟨hu, rfl, -⟩
      · exact ih _ _ _ hlist hnone
      · obtain ⟨hentry, -, -⟩ :=
          p.entry s _ i roomListMsg hok hlist hu (hs.roomName i hu)
        exact ih _ _ _ hentry fun h => by cases h

theorem flow_sendAvailRooms : TextFlow p c r (sendAvailRooms c) :=
  .readClient (flow_listScan _ _ _ _ _ p.header fun _ => rfl)

theorem flow_createScan (clientFd : Fd) {roomName successMsg : Bytes}
    (hname : p.RoomName roomName)
    (hmsg : p.Sent cmdRoomCreateOk successMsg) (rooms : List (Fin maxRooms)) :
    TextFlow p c r (createScan c clientFd roomName successMsg rooms) := by
  induction rooms generalizing r with
  | nil => exact .one (p.fixed _ (fixedAnswer 10 rfl))
  | cons i rest ih =>
      refine .then ⟨hname, hmsg⟩ fun created r' => ?_
      cases created with
      | true => exact .ret _
      | false => exact ih

section Dispatch

variable {s₀ : State N C} {t : Thread N}

theorem flow_createChatRoom (hok : ok s₀ (.act t (.routeMessage c)))
    (hr : Accepted (s₀.clients c) .inChatLobby cmdRoomCreateRequest) :
    TextFlow p c (s₀.clients c) (createChatRoom c) := by
  obtain ⟨hbuilt, hname⟩ := p.requested s₀ t c hok hr
  refine .readClient (.then hbuilt fun _ r' => ?_)
  show TextFlow p c r' (if _ then _ else _)
  split
  · exact .one (p.fixed _ (fixedAnswer 9 rfl))
  · rename_i hlen
    obtain ⟨hroom, hsent⟩ := hname (by omega)
    exact flow_createScan _ hroom hsent _

theorem flow_joinChatRoom : TextFlow p c r (joinChatRoom c) := by
  refine .act fun s hs hr _ => ⟨trivial, fun b s' he => ?_⟩
  cases he
  obtain ⟨hbuilt, hsent⟩ := p.joined _ (hs.name c)
  refine .then hbuilt fun _ r' => ?_
  cases parseRoomNumber (s.clients c).currentMsg with
  | none => exact .one (p.fixed _ (fixedAnswer 11 rfl))
  | some roomIndex =>
      dsimp only
      split
      · exact .one hsent
      · exact .one (p.fixed _ (fixedAnswer 11 rfl))

theorem flow_handleAwaitingUsername
    (hok : ok s₀ (.act t (.routeMessage c)))
    (hr : Accepted (s₀.clients c) .awaitingUsername cmdUsernameSubmit) :
    TextFlow p c r (handleAwaitingUsername c (s₀.clients c)) := by
  unfold handleAwaitingUsername
  dsimp only
  split
  · exact .one (p.fixed _ (fixedAnswer 8 rfl))
  · rename_i hlen
    have hname := p.submitted s₀ t c hok hr (by omega)
    exact .then hname fun _ _ => .then trivial fun _ _ => flow_sendAvailRooms

theorem flow_handleInChatRoom (hok : ok s₀ (.act t (.routeMessage c)))
    (hs : p.Inv s₀) (hvalid : refusal (s₀.clients c) = none)
    (hstate : (s₀.clients c).state = .inChatRoom) :
    TextFlow p c r (handleInChatRoom c (s₀.clients c)) := by
  unfold handleInChatRoom
  dsimp only
  split
  · rename_i hcmd
    obtain ⟨hbuilt, hsent⟩ :=
      p.said s₀ t c hok ⟨hvalid, hstate, hcmd⟩ (hs.name c)
    exact .then hbuilt fun _ _ => .one hsent
  · obtain ⟨-, hbuilt, -⟩ := p.left _ (hs.name c)
    exact .then hbuilt fun _ _ => .then trivial fun _ _ =>
      .then trivial fun _ _ => .one trivial

theorem all_disconnection (c : ClientPtr N C) :
    Prog.All p.Pre (handleClientDisconnection c) := by
  have hcleanup : Prog.All p.Pre (cleanupClient c) :=
    ⟨trivial, fun _ => ⟨trivial, fun _ => ⟨trivial, fun _ => all_one trivial⟩⟩⟩
  rw [handleClientDisconnection_eq]
  refine ⟨trivial, fun self => ?_⟩
  show Prog.All _ (if self.state = .inChatRoom then _ else _)
  split
  · have hleave : Prog.All p.Pre (leaveRoom c self.roomIndex) :=
      all_one trivial
    exact hleave.bind fun _ => hcleanup
  · exact hcleanup

theorem flow_dispatch (hok : ok s₀ (.act t (.routeMessage c)))
    (hs : p.Inv s₀) :
    TextFlow p c (s₀.clients c) (dispatch c (s₀.clients c)) := by
  unfold dispatch
  cases hr : refusal (s₀.clients c) with
  | some answer => exact .one (p.fixed answer (refusal_mem hr))
  | none =>
      unfold handleAccepted
      dsimp only
      split
      · exact .of_all (all_disconnection c)
      · rename_i hcmd
        cases hstate : (s₀.clients c).state with
        | awaitingUsername =>
            exact flow_handleAwaitingUsername hok
              ⟨hr, hstate, command_of_awaiting hr hstate hcmd⟩
        | inChatLobby =>
            unfold handleInChatLobby
            dsimp only
            split
            · rename_i hcreate
              exact flow_createChatRoom hok ⟨hr, hstate, hcreate⟩
            split
            · exact flow_joinChatRoom
            split
            · exact flow_sendAvailRooms
            · exact .ret _
        | inChatRoom => exact flow_handleInChatRoom hok hs hr hstate

end Dispatch

theorem flow_routeClientCommand :
    TextFlow p c r (routeClientCommand c) := by
  rw [routeClientCommand_eq]
  refine .act fun s hs hr hok => ⟨trivial, fun b s' he => ?_⟩
  have hrecord : b = s.clients c ∧ s'.clients c = s.clients c := by
    rcases exec_routeMessage he with ⟨hb, ⟨-, rfl⟩ | ⟨line, -, rfl⟩⟩
    all_goals exact ⟨hb, rfl⟩
  rw [hrecord.1, hrecord.2]
  exact flow_dispatch hok hs

theorem flow_messageLoop (fuel : Nat) :
    ∀ (temp : Bytes) (r : Client),
      TextFlow p c r (messageLoop c fuel temp) := by
  induction fuel with
  | zero => intro temp r; exact .ret _
  | succ fuel ih =>
      intro temp r
      unfold messageLoop
      cases strstrTerminator temp with
      | some out =>
          exact .then trivial fun _ _ => flow_routeClientCommand.bind
            fun _ _ => .then trivial fun _ _ => ih out.2 _
      | none =>
          dsimp only
          split
          · exact .ret _
          · exact .one trivial

theorem Act.ofRegister.pre {w : Fin N} {a : Act N C}
    (ha : a.ofRegister w) : p.Pre a := by
  cases a
  case send fd cmdType message =>
    obtain ⟨rfl, rfl⟩ := ha
    exact p.fixed _ (fixedAnswer 16 rfl)
  all_goals first | exact trivial | cases ha

theorem Act.ofMain.pre {a : Act N C} (ha : a.ofMain) : p.Pre a := by
  cases a
  case send fd cmdType message =>
    rcases ha with ⟨rfl, rfl⟩ | ⟨rfl, rfl⟩
    · exact p.fixed _ (fixedAnswer 17 rfl)
    · exact p.fixed _ (fixedAnswer 18 rfl)
  all_goals first | exact trivial | cases ha

/-- Every job is given allowed texts only. -/
theorem flows_job (t : Thread N) (j : Job N C) (s : State N C)
    (hok : EventOk s (.start t j)) :
    p.extension.Flows t (fun _ _ _ => True) (jobProg t j) (view t s) () := by
  cases j with
  | accept fd keepAliveOk writeOk =>
      cases t with
      | main =>
          exact flows_of_all ((all_acceptClient fd keepAliveOk writeOk).imp
            fun _ => Act.ofMain.pre) _
      | worker w => trivial
  | register readOk epollOk =>
      cases t with
      | main => trivial
      | worker w =>
          exact flows_of_all
            (all_registering trivial (fun _ => Act.ofRegister.pre) epollOk) _
  | receive client result =>
      obtain ⟨⟨rfl, -⟩, -⟩ := hok
      cases result with
      | nothing wouldBlock =>
          cases wouldBlock with
          | true => trivial
          | false => exact flows_of_all (all_disconnection client) _
      | data bytes => exact flow_messageLoop _ _ _ _ rfl
  | hangUp client =>
      obtain ⟨rfl, -⟩ := hok
      exact flows_of_all (all_disconnection client) _

theorem TextPolicy.Inv.init [NeZero N] : p.Inv (State.init N C) := by
  refine ⟨fun _ => p.noName, ?_, ?_, ?_⟩
  · intro i hi
    cases hi
  · intro fd conn cmd msg hmem
    cases hmem
  · intro buffer len hmem
    cases hmem

/-- **Texts over whole runs**: everything that is sent or built in a run is
as the policy allows. -/
theorem texts_run [NeZero N] {ls : List (Step N C)} {k : Configuration N C}
    (hrun : (server N C).Run ok (Configuration.init N C) ls k) :
    p.Inv k.shared := by
  have hidle : p.extension.contract.Sound
      (fun _ _ => True ∧ True) (Configuration.init N C) :=
    ⟨⟨trivial, .init⟩, fun _ => ⟨trivial, trivial⟩⟩
  have hsound := Contract.Extension.sound
    (fun t j s _ _ hl => owners_job t j s hl)
    (fun t j s _ _ _ _ hl => flows_job t j s (p.live _ _ hl)) hidle hrun
  exact hsound.inv.2

end Policy

end ChatApp.Server
