import ChatApp.Foundation.Exchange
import ChatApp.Server.Draining

/-!
# The dialogue with each client

What a connection asks for is to be let in and then one thing after the other:
the messages that `route_client_command` is handed and does not pass over in
silence.  Whatever the threads do meanwhile, the frames the server sends it,
those of `broadcast_message_in_room` left out, reply to these requests one by one
and in their order; `AnswerTo` is the table of the replies.
-/

namespace ChatApp.Server

open ChatApp.Foundation

variable {N C : Nat}

/-! ## Requests and replies -/

/-- What a client is replied to. -/
inductive Request where
  /-- To be let in. -/
  | connect
  /-- The message in `current_msg` of the record. -/
  | message (record : Client)

/-- The replies of the protocol. -/
inductive AnswerTo : Request → UInt8 × Bytes → Prop
  | welcome : AnswerTo .connect (cmdWelcomeRequest, welcomeText)
  | serverFull : AnswerTo .connect (errServerFull, capacityErrMsg)
  | notPassedOn : AnswerTo .connect (errConnecting, connectionErrorMsg)
  | refused {self : Client} {answer : UInt8 × Bytes}
      (h : refusal self = some answer) : AnswerTo (.message self) answer
  | nameTooLong {self : Client}
      (h : Accepted self .awaitingUsername cmdUsernameSubmit)
      (hlen : maxUsernameLen < (content self.currentMsg).length) :
      AnswerTo (.message self) (errUsernameLength,
        text "\x1b[32mUser name too long, must be less than 32\n")
  | nameTaken {self : Client}
      (h : Accepted self .awaitingUsername cmdUsernameSubmit)
      (hlen : (content self.currentMsg).length ≤ maxUsernameLen)
      (roomListMsg : Bytes) :
      AnswerTo (.message self) (cmdRoomListResponse, roomListMsg)
  | roomNameTooLong {self : Client}
      (h : Accepted self .inChatLobby cmdRoomCreateRequest)
      (hlen : maxRoomNameLen < (content self.currentMsg).length) :
      AnswerTo (.message self) (errRoomNameInvalid,
        text "Room creation failed: Room name length invalid\n")
  | roomCreated {self : Client}
      (h : Accepted self .inChatLobby cmdRoomCreateRequest)
      (hlen : (content self.currentMsg).length ≤ maxRoomNameLen) :
      AnswerTo (.message self) (cmdRoomCreateOk,
        roomCreatedText (content self.currentMsg))
  | noRoomLeft {self : Client}
      (h : Accepted self .inChatLobby cmdRoomCreateRequest)
      (hlen : (content self.currentMsg).length ≤ maxRoomNameLen) :
      AnswerTo (.message self) (errRoomCapacityFull,
        text "Room creation failed: Maximum number of rooms reached\n")
  | badRoomNumber {self : Client}
      (h : Accepted self .inChatLobby cmdRoomJoinRequest)
      (hnumber : ∀ i : Fin maxRooms,
        parseRoomNumber self.currentMsg ≠ some i.val) :
      AnswerTo (.message self) (errRoomNotFound,
        text "Invalid room number format. Must be a number between 0-49\n")
  | joinRefused {self : Client}
      (h : Accepted self .inChatLobby cmdRoomJoinRequest)
      (i : Fin maxRooms) (hnumber : parseRoomNumber self.currentMsg = some i.val)
      {answer : UInt8 × Bytes} (hanswer : answer ∈ joinRefusals) :
      AnswerTo (.message self) answer
  | joined {self : Client}
      (h : Accepted self .inChatLobby cmdRoomJoinRequest)
      (i : Fin maxRooms) (hnumber : parseRoomNumber self.currentMsg = some i.val) :
      AnswerTo (.message self) (cmdRoomJoinOk, text "Successfully joined room\n")
  | listed {self : Client}
      (h : Accepted self .inChatLobby cmdRoomListRequest)
      (roomListMsg : Bytes) :
      AnswerTo (.message self) (cmdRoomListResponse, roomListMsg)
  | left {self : Client} (h : Accepted self .inChatRoom cmdLeaveRoom) :
      AnswerTo (.message self) (cmdRoomLeaveOk, text "You have left the room\n")

instance (record : Client) : Decidable (Unanswered record) :=
  inferInstanceAs (Decidable (_ ∧ _))

/-- The request an entry hands over for the connection. -/
def Entry.asked? (q : Conn) : Entry N C → Option Request
  | .routed _ who record =>
      if who = some q ∧ ¬ Unanswered record then some (.message record)
      else none
  | _ => none

/-- What the connection has asked for. -/
def State.asked (s : State N C) (q : Conn) : List Request :=
  .connect :: s.journal.filterMap (Entry.asked? q)

/-- The frames that are no `CMD_ROOM_MSG`. -/
def replies (frames : List (UInt8 × Bytes)) : List (UInt8 × Bytes) :=
  frames.filter fun f => f.1 ≠ cmdRoomMsg

/-- What the connection has been replied. -/
def State.answered (s : State N C) (q : Conn) : List (UInt8 × Bytes) :=
  replies (framesTo q s.calls)

/-- The request of the connection that has no reply yet. -/
def State.awaited (s : State N C) (q : Conn) : Option Request :=
  waiting (s.asked q) (s.answered q)

/-- The request a holder of a descriptor has to see to. -/
def State.due (s : State N C) (d : Holder N C) : Option Request :=
  (s.holding d).bind fun fd => (s.conns fd).bind s.awaited

/-- The thread that works on what the holder holds. -/
def Holder.thread? : Holder N C → Option (Thread N)
  | .main => some .main
  | .slot c => some (.worker c.worker)
  | _ => none

/-- The connection waits in an eventfd or with the worker that registers
it. -/
def Holder.isWaiting : Holder N C → Bool
  | .eventfd _ | .worker _ => true
  | _ => false

/-! ## What an action sends -/

/-- The answer of `join_chat_room` to the client. -/
def Room.joinAnswer (room : Room N C) : Option (UInt8 × Bytes) :=
  if room.inUse = false then
    some (errRoomNotFound, text "Room does not exist\n")
  else if room.numClients = maxClientsRoom then
    some (errRoomCapacityFull, text "Cannot join room: Room is full\n")
  else room.freeSlot?.map fun _ =>
    (cmdRoomJoinOk, text "Successfully joined room\n")

/-- The descriptor an action replies to, and the frame. -/
def Act.reply? (s : State N C) : Act N C → Option (Fd × UInt8 × Bytes)
  | .send fd cmdType message => some (fd, cmdType, message)
  | .createSection i c _ successMsg =>
      if (s.rooms i).inUse then none
      else some ((s.clients c).clientFd, cmdRoomCreateOk, successMsg)
  | .joinSection i c _ =>
      (s.rooms i).joinAnswer.map fun f => ((s.clients c).clientFd, f)
  | .leaveOkSection _ c =>
      some ((s.clients c).clientFd, cmdRoomLeaveOk,
        text "You have left the room\n")
  | _ => none

/-- The call of a reply. -/
def State.replyCall (s : State N C) (r : Fd × UInt8 × Bytes) : SysCall :=
  .send r.1 (s.conns r.1) r.2.1 r.2.2

/-- What the calls of an action are: a notice to members of rooms, then its
reply, then what is no send. -/
structure Sends (s s' : State N C) (reply : Option (Fd × UInt8 × Bytes)) :
    Prop where
  split : ∃ msg, ∃ cs : List (ClientPtr N C), ∃ other,
    s'.calls = s.calls ++
      (cs.map (roomSend s msg) ++ (reply.map s.replyCall).toList ++ other) ∧
    (∀ d ∈ cs, ∃ i, (s.rooms i).Has d) ∧
    ∀ call ∈ other, SysCall.isSend call = false

theorem Sends.of_reply {s s' : State N C} {reply : Option (Fd × UInt8 × Bytes)}
    (h : s'.calls = s.calls ++ (reply.map s.replyCall).toList) :
    Sends s s' reply :=
  ⟨[], [], [], by simpa using h, by simp, by simp⟩

/-- Who is in a room without the client was in it before. -/
theorem Room.of_remove {room : Room N C} {c d : ClientPtr N C}
    (h : (room.remove c).Has d) : room.Has d := by
  cases hj : room.slotOf? c with
  | none =>
      unfold Room.slotOf? at hj
      simpa [Room.remove, hj] using h
  | some j =>
      rw [Room.remove_of_slot hj] at h
      obtain ⟨k, hk⟩ := h
      refine ⟨k, ?_⟩
      by_cases hkj : k = j
      · subst hkj
        simp at hk
      · simpa [hkj] using hk

theorem exec_sends {s s' : State N C} {a : Act N C} {b : a.Answer}
    (he : exec a s = some (b, s')) : Sends s s' (a.reply? s) := by
  have haside : Aside s s' → a.reply? s = none → Sends s s' (a.reply? s) := by
    rintro ⟨-, extra, hcalls, hextra⟩ hnone
    rw [hnone]
    exact ⟨[], [], extra, by simpa using hcalls, by simp, hextra⟩
  cases hchat : a.isChat with
  | false =>
      refine haside (exec_aside hchat he) ?_
      cases a <;> first | rfl | cases hchat
  | true =>
      cases a <;> simp only [Act.isChat, Bool.false_eq_true] at hchat
      case routeMessage c =>
        rcases exec_routeMessage he with ⟨-, ⟨-, rfl⟩ | ⟨line, -, rfl⟩⟩
        all_goals exact .of_reply (List.append_nil _).symm
      case send fd cmdType message =>
        cases he
        exact .of_reply rfl
      case leaveOkSection i c =>
        cases he
        exact .of_reply rfl
      case createSection i c roomName successMsg =>
        rcases exec_createSection he with ⟨hu, -, rfl⟩ | ⟨hu, -, rfl⟩
        · exact .of_reply (by simp [Act.reply?, hu])
        · exact .of_reply (by
            simp [Act.reply?, hu, State.afterCreate, State.replyCall,
              State.connOf])
      case chatSection i c msg =>
        rw [exec_chatSection he]
        refine ⟨msg, (s.rooms i).recipients c, [],
          by simp [State.afterChat, Act.reply?], fun d hd => ?_, by simp⟩
        exact ⟨i, (Room.mem_recipients.mp hd).1⟩
      case leaveSection i c =>
        rw [exec_leaveSection he]
        refine ⟨clientLeftText (s.clients c).name,
          ((s.rooms i).remove c).recipients c, [],
          by simp [State.afterLeave, Act.reply?], fun d hd => ?_, by simp⟩
        exact ⟨i, Room.of_remove (Room.mem_recipients.mp hd).1⟩
      case joinSection i c joinMsg =>
        simp only [exec, Option.some.injEq, Prod.mk.injEq] at he
        obtain ⟨-, rfl⟩ := he
        by_cases hu : (s.rooms i).inUse = false
        · exact .of_reply (by
            simp [joinSection, Act.reply?, Room.joinAnswer, hu,
              sendMessageToClient, State.replyCall])
        by_cases hn : (s.rooms i).numClients = maxClientsRoom
        · exact .of_reply (by
            simp [joinSection, Act.reply?, Room.joinAnswer, hu, hn,
              sendMessageToClient, State.replyCall])
        rw [Bool.not_eq_false] at hu
        cases hj : (s.rooms i).freeSlot? with
        | none =>
            have hnone := hj
            unfold Room.freeSlot? at hnone
            exact .of_reply (by
              simp [joinSection, Act.reply?, Room.joinAnswer, hu, hn, hj,
                hnone])
        | some j =>
            rw [joinSection_of_slot hu hn hj]
            refine ⟨joinMsg, ((s.rooms i).added j c).recipients c, [], ?_,
              fun d hd => ?_, by simp⟩
            · simp [State.afterJoin, Act.reply?, Room.joinAnswer, hu, hn, hj,
                State.replyCall, State.connOf]
            · obtain ⟨hhas, hne⟩ := Room.mem_recipients.mp hd
              exact ⟨i, ((Room.Ok.has_added (Room.freeSlot?_some hj)).mp
                hhas).resolve_left hne⟩

/-! ## What a step does to the dialogues -/

section Talk

variable {s s' : State N C} {t : Thread N} {a : Act N C} {b : a.Answer}
  {c : ClientPtr N C} {d : Holder N C} {q : Conn}

theorem AnswerTo.code {request : Request} {f : UInt8 × Bytes}
    (h : AnswerTo request f) : f.1 ≠ cmdRoomMsg := by
  cases h with
  | refused h => exact refusal_code h (by decide)
  | joinRefused h i hnumber hanswer =>
      simp only [joinRefusals, List.mem_cons, List.not_mem_nil,
        or_false] at hanswer
      rcases hanswer with rfl | rfl
      · show errRoomNotFound ≠ cmdRoomMsg
        decide
      · show errRoomCapacityFull ≠ cmdRoomMsg
        decide
  | welcome => show cmdWelcomeRequest ≠ cmdRoomMsg; decide
  | serverFull => show errServerFull ≠ cmdRoomMsg; decide
  | notPassedOn => show errConnecting ≠ cmdRoomMsg; decide
  | nameTooLong => show errUsernameLength ≠ cmdRoomMsg; decide
  | nameTaken | listed => show cmdRoomListResponse ≠ cmdRoomMsg; decide
  | roomNameTooLong => show errRoomNameInvalid ≠ cmdRoomMsg; decide
  | roomCreated => show cmdRoomCreateOk ≠ cmdRoomMsg; decide
  | noRoomLeft => show errRoomCapacityFull ≠ cmdRoomMsg; decide
  | badRoomNumber => show errRoomNotFound ≠ cmdRoomMsg; decide
  | joined => show cmdRoomJoinOk ≠ cmdRoomMsg; decide
  | left => show cmdRoomLeaveOk ≠ cmdRoomMsg; decide

@[simp] theorem replies_append (frames frames' : List (UInt8 × Bytes)) :
    replies (frames ++ frames') = replies frames ++ replies frames' :=
  List.filter_append ..

/-- A notice is no reply. -/
theorem replies_broadcast (q : Conn) (msg : Bytes)
    (cs : List (ClientPtr N C)) :
    replies (framesTo q (cs.map (roomSend s msg))) = [] := by
  refine List.filter_eq_nil_iff.mpr fun f hf => ?_
  obtain ⟨call, hcall, hframe⟩ := List.mem_filterMap.mp hf
  obtain ⟨e, -, rfl⟩ := List.mem_map.mp hcall
  rw [roomSend] at hframe
  cases he : s.connOf e with
  | none =>
      rw [he] at hframe
      cases hframe
  | some q' =>
      simp only [he, SysCall.frameTo, Option.ite_none_right_eq_some,
        Option.some.injEq] at hframe
      rw [← hframe.2]
      simp

theorem framesTo_other {calls : List SysCall}
    (h : ∀ call ∈ calls, SysCall.isSend call = false) :
    framesTo q calls = [] := by
  refine List.filterMap_eq_nil_iff.mpr fun call hcall => ?_
  have hsend := h call hcall
  cases call <;> first | rfl | cases hsend

/-- What a step adds to the replies is its reply. -/
theorem Sends.answered {reply : Option (Fd × UInt8 × Bytes)}
    (h : Sends s s' reply) (q : Conn) :
    s'.answered q = s.answered q ++
      replies (framesTo q (reply.map s.replyCall).toList) := by
  obtain ⟨msg, cs, other, hcalls, -, hother⟩ := h.split
  simp only [State.answered, hcalls, framesTo_append, replies_append,
    replies_broadcast, framesTo_other hother, List.nil_append]
  rw [show replies [] = [] from rfl, List.append_nil]

/-- A reply goes to the connection its descriptor denotes. -/
theorem framesTo_reply {fd : Fd} {f : UInt8 × Bytes}
    (hq : s.conns fd = some q) (p : Conn) :
    framesTo p [s.replyCall (fd, f)] = if p = q then [f] else [] := by
  rw [State.replyCall, hq]
  split
  · rename_i hp
    rw [hp]
    exact framesTo_send q fd f.1 f.2
  · rename_i hp
    exact framesTo_send_ne (by simpa using Ne.symm hp) _ _ _

theorem answered_quiet (hreply : a.reply? s = none)
    (he : exec a s = some (b, s')) : s'.answered = s.answered := by
  have hsends := exec_sends he
  rw [hreply] at hsends
  funext p
  rw [hsends.answered p]
  exact List.append_nil _

theorem answered_reply {fd : Fd} {f : UInt8 × Bytes}
    (hreply : a.reply? s = some (fd, f)) (hq : s.conns fd = some q)
    (hf : f.1 ≠ cmdRoomMsg) (he : exec a s = some (b, s')) :
    s'.answered = Function.update s.answered q (s.answered q ++ [f]) := by
  have hsends := exec_sends he
  rw [hreply] at hsends
  funext p
  rw [hsends.answered p]
  show _ ++ replies (framesTo p [s.replyCall (fd, f)]) = _
  rw [framesTo_reply hq]
  by_cases hp : p = q
  · subst hp
    simp [replies, hf]
  · simp [hp, replies]

/-- A step of thread `t` leaves the dialogues as they are, hands a message of
one of its clients over, or replies to whom it works for. -/
inductive Talk (t : Thread N) (s s' : State N C) : Prop
  | keep (hasked : s'.asked = s.asked) (hanswered : s'.answered = s.answered)
  | ask (c : ClientPtr N C) (q : Conn) (record : Client)
      (ht : t = .worker c.worker) (hc : s.HeldBy q (.slot c))
      (hnone : s.awaited q = none)
      (hasked : s'.asked =
        Function.update s.asked q (s.asked q ++ [.message record]))
      (hanswered : s'.answered = s.answered)
  | reply (d : Holder N C) (q : Conn) (request : Request)
      (f : UInt8 × Bytes) (ht : d.thread? = some t) (hd : s.HeldBy q d)
      (hawaited : s.awaited q = some request) (hanswer : AnswerTo request f)
      (hasked : s'.asked = s.asked)
      (hanswered : s'.answered =
        Function.update s.answered q (s.answered q ++ [f]))

/-- What thread `t` owes to the dialogues when it performs an action. -/
structure Act.Courteous (t : Thread N) (s : State N C) (a : Act N C) :
    Prop where
  /-- It replies to a request of its own that waits, as the protocol says. -/
  reply : ∀ fd f, a.reply? s = some (fd, f) → ∃ d request,
    d.thread? = some t ∧ s.holding d = some fd ∧ s.due d = some request ∧
      AnswerTo request f
  /-- The next message is taken up, and the connection closed, when nothing
  waits. -/
  settled : ∀ c, a = .routeMessage c ∨ a = .closeClient c →
    s.due (.slot c) = none
  welcomed : ∀ c, a = .setLobby c → s.due (.slot c) ≠ some .connect
  /-- What is passed on was not welcomed yet. -/
  passedOn : ∀ w fd ok, a = .writeEventfd w fd ok → s.due .main = some .connect

theorem due_of_heldBy (h : s.HeldBy q d) : s.due d = s.awaited q := by
  obtain ⟨fd, hd, hq⟩ := h
  simp [State.due, hd, hq]

theorem exists_of_due {request : Request} (h : s.due d = some request) :
    ∃ q, s.HeldBy q d ∧ s.awaited q = some request := by
  obtain ⟨fd, hd, hrest⟩ := Option.bind_eq_some_iff.mp h
  obtain ⟨q, hq, hawaited⟩ := Option.bind_eq_some_iff.mp hrest
  exact ⟨q, ⟨fd, hd, hq⟩, hawaited⟩

theorem due_eq_none (h : ∀ q, ¬ s.HeldBy q d) : s.due d = none := by
  cases hdue : s.due d with
  | none => rfl
  | some request =>
      obtain ⟨q, hd, -⟩ := exists_of_due hdue
      exact absurd hd (h q)

/-- Only `route_client_command` takes a request. -/
theorem asked_other (ha : ∀ c, a ≠ .routeMessage c)
    (he : exec a s = some (b, s')) : s'.asked = s.asked := by
  obtain ⟨extra, hjournal, hextra⟩ := exec_unrouted ha he
  funext p
  have hnone : extra.filterMap (Entry.asked? p) = [] := by
    refine List.filterMap_eq_nil_iff.mpr fun e hmem => ?_
    cases e with
    | routed d who record => exact absurd hmem (hextra d who record)
    | _ => rfl
  rw [State.asked, hjournal, List.filterMap_append, hnone, List.append_nil]
  rfl

theorem asked_route {r : Client} (he : exec (.routeMessage c) s = some (r, s'))
    (hq : s.connOf c = some q) :
    s'.asked = if Unanswered (s.clients c) then s.asked
      else Function.update s.asked q
        (s.asked q ++ [.message (s.clients c)]) := by
  have hjournal : s'.journal = s.journal ++
      [.routed c (some q) (s.clients c)] := by
    rw [← hq]
    rcases exec_routeMessage he with ⟨-, ⟨-, rfl⟩ | ⟨line, -, rfl⟩⟩
    all_goals rfl
  funext p
  simp only [State.asked, hjournal, List.filterMap_append]
  by_cases hun : Unanswered (s.clients c)
  · simp [Entry.asked?, hun, State.asked]
  by_cases hp : p = q
  · subst hp
    simp [Entry.asked?, hun]
  · have hpq : q ≠ p := Ne.symm hp
    simp [Entry.asked?, hun, State.asked, hp, hpq]

theorem exec_talk (h : ServerInv s) (ha : Allowed t s a)
    (hcourteous : a.Courteous t s) (he : exec a s = some (b, s')) :
    Talk t s s' := by
  by_cases hroute : ∃ c, a = .routeMessage c
  · obtain ⟨c, rfl⟩ := hroute
    have hslot : s.holding (.slot c) = some (s.clients c).clientFd := by
      refine holding_slot ha.1.2 ?_
      rw [ha.2]
      rintro ⟨⟩
    obtain ⟨q, hq⟩ := h.connected hslot
    have hheld := heldBy_slot hslot hq
    have hanswered := answered_quiet rfl he
    have hasked := asked_route he hq
    by_cases hun : Unanswered (s.clients c)
    · rw [if_pos hun] at hasked
      exact .keep hasked hanswered
    · rw [if_neg hun] at hasked
      refine .ask c q _ ha.1.1 hheld ?_ hasked hanswered
      rw [← due_of_heldBy hheld]
      exact hcourteous.settled c (.inl rfl)
  · push Not at hroute
    have hasked := asked_other hroute he
    cases hreply : a.reply? s with
    | none => exact .keep hasked (answered_quiet hreply he)
    | some r =>
        obtain ⟨fd, f⟩ := r
        obtain ⟨d, request, ht, hfd, hdue, hanswer⟩ :=
          hcourteous.reply fd f hreply
        obtain ⟨q, hd, hawaited⟩ := exists_of_due hdue
        refine .reply d q request f ht hd hawaited hanswer hasked ?_
        have hq : s.conns fd = some q := by
          obtain ⟨fd', hfd', hq⟩ := hd
          rw [hfd] at hfd'
          cases hfd'
          exact hq
        exact answered_reply hreply hq hanswer.code he

namespace Talk

/-- Nothing changes for a connection the thread does not hold. -/
theorem awaited_same (h : Talk t s s')
    (hq : ∀ d : Holder N C, d.thread? = some t → ¬ s.HeldBy q d) :
    s'.awaited q = s.awaited q := by
  unfold State.awaited
  cases h with
  | keep hasked hanswered => rw [hasked, hanswered]
  | ask c p record ht hc hnone hasked hanswered =>
      have hne : q ≠ p := by
        rintro rfl
        exact hq (.slot c) (by rw [ht]; rfl) hc
      rw [hasked, hanswered, Function.update_of_ne hne]
  | reply d p request f ht hd hawaited hanswer hasked hanswered =>
      have hne : q ≠ p := by
        rintro rfl
        exact hq d ht hd
      rw [hasked, hanswered, Function.update_of_ne hne]

/-- Replies stay. -/
theorem grows (h : Talk t s s') (q : Conn) :
    s.answered q <+: s'.answered q := by
  cases h with
  | keep hasked hanswered => rw [hanswered]
  | ask c p record ht hc hnone hasked hanswered => rw [hanswered]
  | reply d p request f ht hd hawaited hanswer hasked hanswered =>
      rw [hanswered]
      by_cases hp : q = p
      · subst hp
        rw [Function.update_self]
        exact List.prefix_append _ _
      · rw [Function.update_of_ne hp]

theorem paired (h : Talk t s s')
    (hpaired : ∀ q, Exchange AnswerTo (s.asked q) (s.answered q)) (q : Conn) :
    Exchange AnswerTo (s'.asked q) (s'.answered q) := by
  cases h with
  | keep hasked hanswered =>
      rw [hasked, hanswered]
      exact hpaired q
  | ask c p record ht hc hnone hasked hanswered =>
      rw [hasked, hanswered]
      by_cases hp : q = p
      · subst hp
        rw [Function.update_self]
        exact (hpaired q).ask hnone _
      · rw [Function.update_of_ne hp]
        exact hpaired q
  | reply d p request f ht hd hawaited hanswer hasked hanswered =>
      rw [hasked, hanswered]
      by_cases hp : q = p
      · subst hp
        rw [Function.update_self]
        exact (hpaired q).reply hawaited hanswer
      · rw [Function.update_of_ne hp]
        exact hpaired q

/-- A message that waits after the step waited before it, or its client's own
worker has just taken it up. -/
theorem message_waits (h : Talk t s s') {record : Client}
    (hpaired : ∀ q, Exchange AnswerTo (s.asked q) (s.answered q))
    (hawaited : s'.awaited q = some (.message record)) :
    s.awaited q = some (.message record) ∨ ∃ c, s.HeldBy q (.slot c) := by
  cases h with
  | keep hasked hanswered =>
      rw [State.awaited, hasked, hanswered] at hawaited
      exact .inl hawaited
  | ask c p record' ht hc hnone hasked hanswered =>
      by_cases hp : q = p
      · subst hp
        exact .inr ⟨c, hc⟩
      · rw [State.awaited, hasked, hanswered, Function.update_of_ne hp]
          at hawaited
        exact .inl hawaited
  | reply d p request f ht hd hwaits hanswer hasked hanswered =>
      by_cases hp : q = p
      · subst hp
        rw [State.awaited, hasked, hanswered, Function.update_self,
          (hpaired q).waiting_reply] at hawaited
        cases hawaited
      · rw [State.awaited, hasked, hanswered, Function.update_of_ne hp]
          at hawaited
        exact .inl hawaited

end Talk

end Talk

/-! ## The invariant -/

section Invariant

variable {s s' : State N C} {t : Thread N} {a : Act N C} {b : a.Answer}
  {c : ClientPtr N C} {d : Holder N C} {q : Conn}

/-- An action that takes no request and sends no reply. -/
theorem awaited_quiet (hroute : ∀ c, a ≠ .routeMessage c)
    (hreply : a.reply? s = none) (he : exec a s = some (b, s')) :
    s'.awaited = s.awaited := by
  unfold State.awaited
  rw [asked_other hroute he, answered_quiet hreply he]

/-- Of the main thread's actions only the write of an eventfd changes what
waits elsewhere. -/
theorem exec_keepsWaiting (ha : a.isMain = true)
    (hwrite : ∀ w fd ok, a ≠ .writeEventfd w fd ok)
    (he : exec a s = some (b, s')) :
    s'.notification = s.notification ∧ s'.point = s.point := by
  cases a <;> simp only [Act.isMain, Bool.false_eq_true] at ha
  case writeEventfd w fd ok => exact absurd rfl (hwrite w fd ok)
  case accept fd =>
    rw [(exec_accept he).2.2]
    exact ⟨rfl, rfl⟩
  case setSocketKeepAlive fd ok =>
    rcases exec_setSocketKeepAlive he with ⟨-, -, rfl⟩ | ⟨-, -, rfl⟩
    all_goals exact ⟨rfl, rfl⟩
  case inspectWorker fd =>
    rcases exec_inspectWorker he with ⟨-, -, rfl⟩ | ⟨-, -, rfl⟩
    all_goals exact ⟨rfl, rfl⟩
  case semWait w fd =>
    rw [(exec_semWait he).2]
    exact ⟨rfl, rfl⟩
  all_goals
    cases he
    exact ⟨rfl, rfl⟩

/-- What waits in an eventfd or with a worker waited there before, or the main
thread has just passed it on. -/
theorem waiting_origin (h : ServerInv s) (ha : Allowed t s a)
    (he : exec a s = some (b, s')) (hd : d.isWaiting = true)
    (hheld : s'.HeldBy q d) :
    (∃ e : Holder N C, e.isWaiting = true ∧ s.HeldBy q e) ∨
      s.HeldBy q .main ∧ ∃ w fd ok, a = .writeEventfd w fd ok := by
  obtain ⟨fd, hd', hq'⟩ := hheld
  rcases h.own.origin h.hand ha he hd' hq' with
    ⟨hsame, hq⟩ | ⟨e, hslot, hfrom, hq, -⟩ | ⟨rfl, -, -⟩
  · exact .inl ⟨d, hd, fd, hsame, hq⟩
  · cases e with
    | slot c => exact absurd rfl (hslot c)
    | eventfd w => exact .inl ⟨_, rfl, fd, hfrom, hq⟩
    | worker w => exact .inl ⟨_, rfl, fd, hfrom, hq⟩
    | main =>
        refine .inr ⟨⟨fd, hfrom, hq⟩, ?_⟩
        by_contra hwrite
        push Not at hwrite
        have hown' := h.own.step h.hand ha he
        -- Otherwise two holders would hold the descriptor, before or after.
        cases hmain : a.isMain with
        | false =>
            have hkept : s'.holding .main = some fd := by
              rw [← hfrom]
              simp only [State.holding, exec_main hmain he]
            cases hown'.owned.unique _ _ fd hd' hkept
            cases hd
        | true =>
            obtain ⟨hnote, hpoint⟩ := exec_keepsWaiting hmain hwrite he
            have hkept : s.holding d = some fd := by
              rw [← hd']
              cases d with
              | eventfd w => simp only [State.holding, hnote]
              | worker w => simp only [State.holding, hpoint]
              | main => cases hd
              | slot c => cases hd
            cases h.own.owned.unique _ _ fd hkept hfrom
            cases hd
  · cases hd

/-- In every dialogue the replies are those of the requests, in their order,
and at most one request waits; a connection that is passed on has not been
welcomed, a client that has its username has, and a message that waits is that
of a client with a slot. -/
structure Dialogue (s : State N C) : Prop where
  inv : ServerInv s
  paired : ∀ q, Exchange AnswerTo (s.asked q) (s.answered q)
  greeted : ∀ q, (framesTo q s.calls).head? = (s.answered q).head?
  future : ∀ q, s.accepted ≤ q → s.awaited q = some .connect
  waiting : ∀ (d : Holder N C) q, d.isWaiting = true → s.HeldBy q d →
    s.awaited q = some .connect
  entered : ∀ c q, s.HeldBy q (.slot c) →
    (s.clients c).state ≠ .awaitingUsername → s.answered q ≠ []
  served : ∀ q record, s.awaited q = some (.message record) →
    ∃ c, s.HeldBy q (.slot c)

namespace Dialogue

theorem init [NeZero N] : Dialogue (State.init N C) := by
  have hnone : ∀ (d : Holder N C) q, ¬ (State.init N C).HeldBy q d := by
    rintro d q ⟨fd, -, hq⟩
    cases hq
  refine ⟨.init, fun _ => .first _, fun _ => rfl, fun _ _ => rfl,
    fun d q _ hd => absurd hd (hnone d q), fun c q hc => absurd hc (hnone _ q),
    fun q record hawaited => ?_⟩
  cases hawaited

theorem answered_ne_nil (hq : s.awaited q ≠ some .connect) :
    s.answered q ≠ [] := by
  intro hnone
  apply hq
  rw [State.awaited, hnone]
  rfl

/-- The first frame of all is a reply. -/
theorem greeted_step (h : Dialogue s) (hcourteous : a.Courteous t s)
    (he : exec a s = some (b, s')) (q : Conn) :
    (framesTo q s'.calls).head? = (s'.answered q).head? := by
  have hsends := exec_sends he
  have hreplies : replies
      (framesTo q ((a.reply? s).map s.replyCall).toList) =
        framesTo q ((a.reply? s).map s.replyCall).toList := by
    cases hreply : a.reply? s with
    | none => rfl
    | some r =>
        obtain ⟨fd, f⟩ := r
        obtain ⟨d, request, -, hfd, hdue, hanswer⟩ :=
          hcourteous.reply fd f hreply
        obtain ⟨p, ⟨fd', hfd', hp⟩, -⟩ := exists_of_due hdue
        rw [hfd] at hfd'
        cases hfd'
        show replies (framesTo q [s.replyCall (fd, f)]) = _
        rw [Option.map_some, Option.toList_some, framesTo_reply hp]
        split
        · simp [replies, hanswer.code]
        · rfl
  have hanswered := hsends.answered q
  rw [hreplies] at hanswered
  obtain ⟨msg, cs, other, hcalls, hcs, hother⟩ := hsends.split
  have hframes : framesTo q s'.calls = framesTo q s.calls ++
      (framesTo q (cs.map (roomSend s msg)) ++
        framesTo q ((a.reply? s).map s.replyCall).toList) := by
    rw [hcalls, framesTo_append, framesTo_append, framesTo_append,
      framesTo_other hother, List.append_nil]
  rw [hframes, hanswered, List.head?_append, List.head?_append,
    List.head?_append, h.greeted q]
  cases hfirst : s.answered q with
  | cons f rest => rfl
  | nil =>
      -- Who has not been welcomed is in no room.
      have hmute : framesTo q (cs.map (roomSend s msg)) = [] := by
        apply framesTo_broadcast
        intro e hmem hq
        obtain ⟨i, hhas⟩ := hcs e hmem
        have hheld := heldBy_slot (h.inv.member_holds hhas) hq
        refine h.entered e q hheld ?_ hfirst
        rw [((h.inv.rooms.member i e).mp hhas).2.1]
        rintro ⟨⟩
      rw [hmute]
      rfl

theorem entered_step (h : Dialogue s) (ha : Allowed t s a)
    (hcourteous : a.Courteous t s) (he : exec a s = some (b, s'))
    (htalk : Talk t s s') (hc : s'.HeldBy q (.slot c))
    (hstate : (s'.clients c).state ≠ .awaitingUsername) :
    s'.answered q ≠ [] := by
  have hgrows : s.answered q ≠ [] → s'.answered q ≠ [] := by
    intro hne hnone
    have hprefix := htalk.grows q
    rw [hnone, List.prefix_nil] at hprefix
    exact hne hprefix
  by_cases hheld : s.HeldBy q (.slot c)
  case neg =>
    obtain ⟨fd, -, hfresh⟩ := h.inv.own.heldBy_new h.inv.relay ha he hheld hc
    rw [hfresh] at hstate
    exact absurd rfl hstate
  apply hgrows
  by_cases hbefore : (s.clients c).state = .awaitingUsername
  case neg => exact h.entered c q hheld hbefore
  have hupdates := exec_updates he c
  generalize s'.clients c = r at hupdates hstate
  cases hupdates with
  | same | appended | cleared | named => exact absurd hbefore hstate
  | zeroed | allocated => exact absurd rfl hstate
  | created i roomName successMsg =>
      have hlobby := ha.1.2.1
      rw [hbefore] at hlobby
      cases hlobby
  | joined i joinMsg =>
      have hlobby := ha.2.1
      rw [hbefore] at hlobby
      cases hlobby
  | lobby =>
      apply answered_ne_nil
      rw [← due_of_heldBy hheld]
      exact hcourteous.welcomed c rfl

theorem step (h : Dialogue s) (ha : Allowed t s a)
    (hread : ∀ w, a ≠ .readEventfd w false) (hcourteous : a.Courteous t s)
    (he : exec a s = some (b, s')) : Dialogue s' := by
  have htalk := exec_talk h.inv ha hcourteous he
  have hown := h.inv.own
  refine ⟨h.inv.step ha hread he, htalk.paired h.paired,
    h.greeted_step hcourteous he, fun q hq => ?_, fun d q hd hheld => ?_,
    fun c q => h.entered_step ha hcourteous he htalk,
    fun q record hawaited => ?_⟩
  · have haccepted : s.accepted ≤ s'.accepted := by
      rcases exec_conns he with ⟨fd, -, -, -, hmore⟩ | ⟨hsame, -⟩ <;> omega
    have hbefore : s.accepted ≤ q := Nat.le_trans haccepted hq
    rw [htalk.awaited_same, h.future q hbefore]
    rintro d - ⟨fd, -, hq'⟩
    exact absurd (hown.range fd q hq') (Nat.not_lt.mpr hbefore)
  · rcases waiting_origin h.inv ha he hd hheld with
      ⟨e, hwaits, he'⟩ | ⟨hmain, w, fd, ok, rfl⟩
    · rw [htalk.awaited_same, h.waiting e q hwaits he']
      rintro d' ht ⟨fd', hd', hq'⟩
      obtain ⟨fd, hfd, hq⟩ := he'
      cases hown.owned.holder_unique hfd hd' hq hq'
      cases e with
      | eventfd w => cases ht
      | worker w => cases ht
      | main => cases hwaits
      | slot c => cases hwaits
    · rw [awaited_quiet (by rintro c ⟨⟩) rfl he, ← due_of_heldBy hmain]
      exact hcourteous.passedOn w fd ok rfl
  · have hheld : ∃ c, s.HeldBy q (.slot c) :=
      (htalk.message_waits h.paired hawaited).elim (h.served q record) id
    obtain ⟨c, hc⟩ := hheld
    refine ⟨c, ?_⟩
    by_cases hclose : a = .closeClient c
    · subst hclose
      rw [awaited_quiet (by rintro d ⟨⟩) rfl he, ← due_of_heldBy hc,
        hcourteous.settled c (.inr rfl)] at hawaited
      cases hawaited
    · obtain ⟨fd, hslot, hq⟩ := hc
      obtain ⟨hslot', hconn⟩ := hown.slot_stays h.inv.hand ha hclose he hslot
      exact ⟨fd, hslot', hconn.trans hq⟩

end Dialogue

end Invariant

end ChatApp.Server
