import ChatApp.Server.Invariants

/-!
# One reply per request

What `route_client_command` sends while it handles one message, whatever the
other threads do meanwhile.  `sentTo` lists the frames its own steps send to a
connection; frames other workers broadcast to it are no reply.  A refused
request, one answered with an `ERR_` code, is harmless in every step: it
changes no room, no counter and nothing of any client that others rely on, and
sends to nobody else.
-/

namespace ChatApp.Server

open ChatApp.Foundation

variable {N C : Nat}

/-! ## Frames -/

/-- The frame a call sends to the connection. -/
def SysCall.frameTo (q : Conn) : SysCall → Option (UInt8 × Bytes)
  | .send _ (some q') cmd message =>
      if q' = q then some (cmd, message) else none
  | _ => none

/-- The frames among the calls that go to the connection, oldest first. -/
def framesTo (q : Conn) (calls : List SysCall) : List (UInt8 × Bytes) :=
  calls.filterMap (SysCall.frameTo q)

@[simp] theorem framesTo_nil (q : Conn) : framesTo q [] = [] := rfl

@[simp] theorem framesTo_append (q : Conn) (calls calls' : List SysCall) :
    framesTo q (calls ++ calls') = framesTo q calls ++ framesTo q calls' :=
  List.filterMap_append

theorem framesTo_send (q : Conn) (fd : Fd) (cmd : UInt8) (message : Bytes) :
    framesTo q [.send fd (some q) cmd message] = [(cmd, message)] := by
  simp [framesTo, SysCall.frameTo]

theorem framesTo_send_ne {q : Conn} {conn : Option Conn}
    (h : conn ≠ some q) (fd : Fd) (cmd : UInt8) (message : Bytes) :
    framesTo q [.send fd conn cmd message] = [] := by
  cases conn with
  | none => rfl
  | some q' =>
      have hne : q' ≠ q := by
        rintro rfl
        exact h rfl
      simp [framesTo, SysCall.frameTo, hne]

/-- A broadcast sends nothing to a connection that is no recipient's. -/
theorem framesTo_broadcast {q : Conn} {s : State N C} (msg : Bytes)
    {cs : List (ClientPtr N C)} (h : ∀ d ∈ cs, s.connOf d ≠ some q) :
    framesTo q (cs.map (roomSend s msg)) = [] := by
  induction cs with
  | nil => rfl
  | cons d cs ih =>
      have hd := framesTo_send_ne (h d List.mem_cons_self)
        (s.clients d).clientFd cmdRoomMsg msg
      rw [List.map_cons, ← List.singleton_append, framesTo_append,
        ih fun e he => h e (List.mem_cons_of_mem _ he), List.append_nil]
      exact hd

/-- The system calls a step makes. -/
def newCalls (e : Executed N C) : List SysCall :=
  e.after.calls.drop e.before.calls.length

theorem newCalls_eq {e : Executed N C} {extra : List SysCall}
    (h : e.after.calls = e.before.calls ++ extra) : newCalls e = extra := by
  rw [newCalls, h, List.drop_left]

/-- The frames the steps send to the connection. -/
def sentTo (q : Conn) (steps : Steps N C) : List (UInt8 × Bytes) :=
  steps.flatMap fun e => framesTo q (newCalls e)

@[simp] theorem sentTo_nil (q : Conn) :
    sentTo q ([] : Steps N C) = [] := rfl

@[simp] theorem sentTo_cons (q : Conn) (e : Executed N C) (steps : Steps N C) :
    sentTo q (e :: steps) = framesTo q (newCalls e) ++ sentTo q steps := rfl

@[simp] theorem sentTo_append (q : Conn) (steps steps' : Steps N C) :
    sentTo q (steps ++ steps') = sentTo q steps ++ sentTo q steps' :=
  List.flatMap_append

/-! ## Replies -/

/-- The `ERR_` codes of `protocol.h` that the server sends. -/
def errorCodes : List UInt8 :=
  [errRoomNameInvalid, errRoomCapacityFull, errRoomNotFound,
    errProtocolInvalidStateCmd, errProtocolInvalidFormat, errMsgEmptyContent,
    errServerFull, errConnecting, errUsernameLength]

/-- Nothing that other clients rely on has changed. -/
structure Unchanged (s s' : State N C) : Prop where
  rooms : s'.rooms = s.rooms
  numOfClients : s'.numOfClients = s.numOfClients
  state : ∀ d, (s'.clients d).state = (s.clients d).state
  name : ∀ d, (s'.clients d).name = (s.clients d).name
  roomIndex : ∀ d, (s'.clients d).roomIndex = (s.clients d).roomIndex

/-- The step changes nothing and sends to no other connection than `q`. -/
structure Harmless (q : Conn) (e : Executed N C) : Prop where
  unchanged : Unchanged e.before e.after
  others : ∀ q', q' ≠ q → framesTo q' (newCalls e) = []

/-- The steps send the connection the one frame `f`, and are harmless when it
is an error. -/
structure Answers (q : Conn) (steps : Steps N C) (f : UInt8 × Bytes) :
    Prop where
  frame : sentTo q steps = [f]
  refused : f.1 ∈ errorCodes → ∀ e ∈ steps, Harmless q e

/-- A silent step before an answer. -/
theorem Answers.cons {q : Conn} {e : Executed N C} {steps : Steps N C}
    {f : UInt8 × Bytes} (h : Answers q steps f) (he : Harmless q e)
    (hcalls : newCalls e = []) : Answers q (e :: steps) f := by
  refine ⟨?_, fun hf d hd => ?_⟩
  · rw [sentTo_cons, hcalls, framesTo_nil, List.nil_append, h.frame]
  · rcases List.mem_cons.mp hd with rfl | hd
    · exact he
    · exact h.refused hf d hd

/-- A message that is answered by no frame: an accepted `CMD_EXIT` or
`CMD_ROOM_MESSAGE_SEND`. -/
def Unanswered (record : Client) : Prop :=
  refusal record = none ∧
    (command record.currentMsg = cmdExit ∨
      command record.currentMsg = cmdRoomMessageSend)

/-- What the handling of a message of client `c`, with the given record, does
for the connection. -/
structure Replied (c : ClientPtr N C) (q : Conn) (record : Client)
    (steps : Steps N C) (s' : State N C) : Prop where
  none : Unanswered record → sentTo q steps = []
  one : ¬ Unanswered record → ∃ f, Answers q steps f
  join : Accepted record .inChatLobby cmdRoomJoinRequest →
    ∀ i : Fin maxRooms, parseRoomNumber record.currentMsg = some i.val →
      ∃ e ∈ steps, ∃ joinMsg, e.action = .joinSection i c joinMsg ∧
        ((e.before.rooms i).inUse = true →
          (e.before.rooms i).numClients < maxClientsRoom →
          (∃ message, sentTo q steps = [(cmdRoomJoinOk, message)]) ∧
            (s'.rooms i).Has c)

/-- A step that is not about the reply before the handling of a message. -/
theorem Replied.cons {c : ClientPtr N C} {q : Conn} {self : Client}
    {e : Executed N C} {steps : Steps N C} {s' : State N C}
    (h : Replied c q self steps s') (he : Harmless q e)
    (hcalls : newCalls e = []) : Replied c q self (e :: steps) s' := by
  have hsent : sentTo q (e :: steps) = sentTo q steps := by
    rw [sentTo_cons, hcalls]
    rfl
  refine ⟨fun hun => ?_, fun hun => ?_, fun hjoin i hi => ?_⟩
  · rw [hsent, h.none hun]
  · obtain ⟨f, hf⟩ := h.one hun
    exact ⟨f, hf.cons he hcalls⟩
  · obtain ⟨d, hd, joinMsg, haction, hjoins⟩ := h.join hjoin i hi
    rw [hsent]
    exact ⟨d, List.mem_cons_of_mem _ hd, joinMsg, haction, hjoins⟩

/-! ## Serving a client -/

/-- The slot holds the descriptor of the connection. -/
structure Serving (s : State N C) (c : ClientPtr N C) (fd : Fd) (q : Conn) :
    Prop where
  inv : ServerInv s
  holds : s.holding (.slot c) = some fd
  conn : s.conns fd = some q

namespace Serving

variable {s s' : State N C} {c : ClientPtr N C} {fd : Fd} {q : Conn}

theorem live (h : Serving s c fd q) : (s.clients c).inUse = true :=
  (of_holding_slot h.holds).1

theorem clientFd (h : Serving s c fd q) : (s.clients c).clientFd = fd :=
  (of_holding_slot h.holds).2

theorem connOf (h : Serving s c fd q) : s.connOf c = some q := by
  rw [State.connOf, h.clientFd, h.conn]

theorem peers (h : Serving s c fd q) (hs : Peers c.worker s s') :
    Serving s' c fd q := by
  obtain ⟨hslot, hconn⟩ := hs.holds h.inv h.holds
  exact ⟨hs.inv h.inv, hslot, hconn.trans h.conn⟩

/-- Every own action but the close keeps the connection. -/
theorem step (h : Serving s c fd q) {a : Act N C} {b : a.Answer}
    (ha : Allowed (.worker c.worker) s a) (hclose : a ≠ .closeClient c)
    (hread : ∀ w, a ≠ .readEventfd w false) (he : exec a s = some (b, s')) :
    Serving s' c fd q := by
  obtain ⟨hslot, hconn⟩ :=
    h.inv.own.slot_stays h.inv.hand ha hclose he h.holds
  exact ⟨h.inv.step ha hread he, hslot, hconn.trans h.conn⟩

/-- No other member of a room has the connection. -/
theorem other (h : Serving s c fd q) {i : Fin maxRooms} {d : ClientPtr N C}
    (hd : (s.rooms i).Has d) (hne : d ≠ c) : s.connOf d ≠ some q := by
  intro hq
  have hc : s.holding (.slot c) = some (s.clients c).clientFd := by
    rw [h.holds, h.clientFd]
  apply hne
  apply h.inv.connOf_inj (h.inv.member_holds hd) hc
  rw [hq, h.connOf]

/-- A broadcast to members other than the client sends it nothing. -/
theorem broadcast (h : Serving s c fd q) {i : Fin maxRooms}
    {room : Room N C} (msg : Bytes)
    (hroom : ∀ d, d ≠ c → room.Has d → (s.rooms i).Has d) :
    framesTo q ((room.recipients c).map (roomSend s msg)) = [] := by
  apply framesTo_broadcast
  intro d hd
  obtain ⟨hhas, hne⟩ := Room.mem_recipients.mp hd
  exact h.other (hroom d hne hhas) hne

end Serving

/-! ## Programs that reply -/

/-- Executed for the connection of client `c`, with record `r` and at program
point `p`, the program ends as `Q` says of its steps and the final state. -/
def Replies (c : ClientPtr N C) (fd : Fd) (q : Conn) (r : Client)
    (p : WorkerPoint C) (prog : ServerProg N C Unit)
    (Q : Steps N C → State N C → Prop) : Prop :=
  ∀ s steps s', Serving s c fd q → s.clients c = r → s.point c.worker = p →
    Prog.Exec exec (Peers c.worker) prog s steps () s' → Q steps s'

namespace Replies

variable {c : ClientPtr N C} {fd : Fd} {q : Conn} {r : Client}
  {p : WorkerPoint C} {prog : ServerProg N C Unit}
  {Q Q' : Steps N C → State N C → Prop}

theorem imp (h : Replies c fd q r p prog Q)
    (hQ : ∀ steps s', Q steps s' → Q' steps s') :
    Replies c fd q r p prog Q' :=
  fun s steps s' hs hr hp hexec => hQ _ _ (h s steps s' hs hr hp hexec)

/-- The end of a program; the others may still move. -/
theorem ret
    (h : ∀ s', Serving s' c fd q → s'.clients c = r →
      s'.point c.worker = p → Q [] s') :
    Replies c fd q r p (.ret ()) Q := by
  intro s steps s' hs hr hp hexec
  obtain ⟨-, rfl, hR⟩ := hexec.ret_inv
  refine h s' (hs.peers hR) ?_ ?_
  · rw [hR.others.clients, hr]
  · rw [hR.others.point, hp]

/-- One action, after which the program goes on. -/
theorem act {a : Act N C} {next : a.Answer → ServerProg N C Unit}
    (h : ∀ s b s', Serving s c fd q → s.clients c = r →
      s.point c.worker = p → exec a s = some (b, s') →
      Serving s' c fd q ∧
        Replies c fd q (s'.clients c) (s'.point c.worker) (next b)
          fun steps t => Q (⟨a, s, s'⟩ :: steps) t) :
    Replies c fd q r p (.act a next) Q := by
  intro s steps t hs hr hp hexec
  obtain ⟨s₁, b, s₂, rest, rfl, hR, he, hnext⟩ := hexec.act_inv
  obtain ⟨hs₂, hrest⟩ := h s₁ b s₂ (hs.peers hR)
    (by rw [hR.others.clients, hr]) (by rw [hR.others.point, hp]) he
  exact hrest s₂ rest t hs₂ rfl rfl hnext

/-- The frame of a reply. -/
theorem send {cmd : UInt8} {message : Bytes} (hcmd : cmd ≠ cmdRoomMsg)
    (hfd : r.clientFd = fd) :
    Replies c fd q r p (Server.act (.send r.clientFd cmd message))
      fun steps _ => Answers q steps (cmd, message) := by
  refine .act fun s b s' hs hr hp he => ?_
  have hserving := hs.step (a := .send r.clientFd cmd message) hcmd nofun
    nofun he
  refine ⟨hserving, .ret fun t _ _ _ => ?_⟩
  cases he
  have hcalls : newCalls (N := N) (C := C)
      ⟨.send r.clientFd cmd message, s,
        sendMessageToClient s r.clientFd cmd message⟩ =
      [.send r.clientFd (some q) cmd message] := by
    apply newCalls_eq
    rw [← hs.conn, hfd]
    rfl
  refine ⟨?_, fun _ e he => ?_⟩
  · rw [sentTo_cons, hcalls, framesTo_send]
    rfl
  · cases List.mem_singleton.mp he
    refine ⟨⟨rfl, rfl, fun _ => rfl, fun _ => rfl, fun _ => rfl⟩, ?_⟩
    intro q' hq'
    rw [hcalls]
    exact framesTo_send_ne (by simpa using hq'.symm) _ _ _

end Replies

/-- Actions that send nothing and change nothing but the journal. -/
def Act.isSilent : Act N C → Prop
  | .readClient _ | .sprintf .. | .listSection .. => True
  | _ => False

theorem exec_silent {a : Act N C} (ha : a.isSilent) {s s' : State N C}
    {b : a.Answer} (he : exec a s = some (b, s')) :
    s'.calls = s.calls ∧ s'.clients = s.clients ∧ s'.point = s.point ∧
      s'.rooms = s.rooms ∧ s'.numOfClients = s.numOfClients := by
  cases a <;> simp only [Act.isSilent] at ha
  case listSection i roomListMsg =>
    rcases exec_listSection he with ⟨-, -, rfl⟩ | ⟨-, -, rfl⟩
    all_goals exact ⟨rfl, rfl, rfl, rfl, rfl⟩
  all_goals
    cases he
    exact ⟨rfl, rfl, rfl, rfl, rfl⟩

theorem Act.isSilent.quiet {a : Act N C} (ha : a.isSilent) : a.isQuiet := by
  cases a <;> simp only [Act.isSilent] at ha <;> exact trivial

theorem Harmless.of_silent {a : Act N C} (ha : a.isSilent) {s s' : State N C}
    {b : a.Answer} (q : Conn) (he : exec a s = some (b, s')) :
    Harmless q ⟨a, s, s'⟩ ∧
      newCalls (⟨a, s, s'⟩ : Executed N C) = [] := by
  obtain ⟨hcalls, hclients, -, hrooms, hnum⟩ := exec_silent ha he
  have hnone : newCalls (⟨a, s, s'⟩ : Executed N C) = [] :=
    newCalls_eq (by rw [hcalls, List.append_nil])
  refine ⟨⟨⟨hrooms, hnum, ?_, ?_, ?_⟩, ?_⟩, hnone⟩
  · exact fun d => by rw [hclients]
  · exact fun d => by rw [hclients]
  · exact fun d => by rw [hclients]
  · intro q' _
    rw [hnone]
    rfl

/-- An answer that is no error refuses nothing. -/
theorem Answers.of_ok {q : Conn} {steps : Steps N C} {f : UInt8 × Bytes}
    (h : sentTo q steps = [f]) (hf : f.1 ∉ errorCodes) : Answers q steps f :=
  ⟨h, fun herror => absurd herror hf⟩

section Handlers

variable {c : ClientPtr N C} {fd : Fd} {q : Conn} {r : Client}
  {p : WorkerPoint C}

/-- A silent action at the head of a program. -/
theorem Replies.silent {Q : Steps N C → State N C → Prop} {a : Act N C}
    {next : a.Answer → ServerProg N C Unit} (ha : a.isSilent)
    (hQ : ∀ e steps t, Harmless q e → newCalls e = [] → Q steps t →
      Q (e :: steps) t)
    (h : ∀ s b s', s.clients c = r → exec a s = some (b, s') →
      Replies c fd q r p (next b) Q) :
    Replies c fd q r p (.act a next) Q := by
  refine .act fun s b s' hs hr hp he => ?_
  obtain ⟨-, hclients, hpoint, -⟩ := exec_silent ha he
  have hquiet := ha.quiet
  refine ⟨hs.step (hquiet.allowed _ s) ?_ ?_ he, ?_⟩
  · rintro rfl
    exact ha
  · rintro w rfl
    exact ha
  · rw [hclients, hpoint, hr, hp]
    obtain ⟨hharmless, hcalls⟩ := Harmless.of_silent ha q he
    exact (h s b s' hr he).imp fun steps t => hQ _ steps t hharmless hcalls

/-- The same in a program that answers. -/
theorem Replies.silentAnswer {a : Act N C}
    {next : a.Answer → ServerProg N C Unit} (ha : a.isSilent)
    (h : ∀ s b s', s.clients c = r → exec a s = some (b, s') →
      Replies c fd q r p (next b) fun steps _ => ∃ f, Answers q steps f) :
    Replies c fd q r p (.act a next) fun steps _ => ∃ f, Answers q steps f := by
  refine .silent ha ?_ h
  rintro e steps t he hcalls ⟨f, hf⟩
  exact ⟨f, hf.cons he hcalls⟩

/-! ### The handlers -/

/-- The reply of a program that sends one frame. -/
theorem Replies.reply {cmd : UInt8} {message : Bytes}
    (hcmd : cmd ≠ cmdRoomMsg) (hfd : r.clientFd = fd) :
    Replies c fd q r p (Server.act (.send r.clientFd cmd message))
      fun steps _ => ∃ f, Answers q steps f :=
  (Replies.send hcmd hfd).imp fun _ _ h => ⟨_, h⟩

/-- The steps are answered with a list of rooms. -/
def Listed (q : Conn) (steps : Steps N C) : Prop :=
  ∃ message, Answers q steps (cmdRoomListResponse, message)

theorem Listed.cons {e : Executed N C} {steps : Steps N C}
    (h : Listed q steps) (he : Harmless q e) (hcalls : newCalls e = []) :
    Listed q (e :: steps) := by
  obtain ⟨message, hanswers⟩ := h
  exact ⟨message, hanswers.cons he hcalls⟩

theorem replies_listScan (hfd : r.clientFd = fd)
    (rooms : List (Fin maxRooms)) : ∀ (roomListMsg : Bytes) (avail : Bool),
      Replies c fd q r p (listScan r.clientFd roomListMsg avail rooms)
        fun steps _ => Listed q steps := by
  have hsend : ∀ roomListMsg, Replies c fd q r p
      (Server.act (.send r.clientFd cmdRoomListResponse roomListMsg))
        fun steps _ => Listed q steps := fun roomListMsg =>
    (Replies.send (by decide) hfd).imp fun _ _ h => ⟨roomListMsg, h⟩
  have hQ : ∀ (e : Executed N C) steps (_ : State N C), Harmless q e →
      newCalls e = [] → Listed q steps → Listed q (e :: steps) :=
    fun _ _ _ he hcalls h => h.cons he hcalls
  induction rooms with
  | nil =>
      intro roomListMsg avail
      cases avail with
      | true => exact hsend _
      | false => exact .silent trivial hQ fun _ _ _ _ _ => hsend _
  | cons i rest ih =>
      intro roomListMsg avail
      refine .silent trivial hQ fun _ b _ _ _ => ?_
      cases b with
      | none => exact ih _ _
      | some roomListMsg => exact ih _ _

theorem replies_sendAvailRooms (hfd : r.clientFd = fd) :
    Replies c fd q r p (sendAvailRooms c) fun steps _ => Listed q steps := by
  refine .silent trivial (fun _ _ _ he hcalls h => h.cons he hcalls)
    fun s b s' hr he => ?_
  cases he
  rw [hr]
  exact replies_listScan hfd _ _ _

theorem replies_createScan (hfd : r.clientFd = fd)
    (hs : r.state = .inChatLobby) {roomName : Bytes}
    (hn : roomName.length ≤ maxRoomNameLen) (successMsg : Bytes)
    (rooms : List (Fin maxRooms)) :
    Replies c fd q r .idle (createScan c r.clientFd roomName successMsg rooms)
      fun steps _ => ∃ f, Answers q steps f := by
  induction rooms with
  | nil => exact .reply (by decide) hfd
  | cons i rest ih =>
      refine .act fun s b s' hserving hr hp he => ?_
      have hready : Ready s (.worker c.worker) c .inChatLobby :=
        ⟨⟨rfl, hserving.live⟩, by rw [hr, hs], hp⟩
      refine ⟨hserving.step (a := .createSection i c roomName successMsg)
        ⟨hready, hn⟩ nofun nofun he, ?_⟩
      rcases exec_createSection he with ⟨-, rfl, rfl⟩ | ⟨-, rfl, rfl⟩
      · rw [hr, hp]
        have hcalls : newCalls (N := N) (C := C)
            ⟨.createSection i c roomName successMsg, s', s'⟩ = [] :=
          newCalls_eq (List.append_nil _).symm
        refine ih.imp ?_
        rintro steps t ⟨f, hf⟩
        refine ⟨f, hf.cons ⟨⟨rfl, rfl, fun _ => rfl, fun _ => rfl,
          fun _ => rfl⟩, fun q' _ => ?_⟩ hcalls⟩
        rw [hcalls]
        rfl
      · have hok : cmdRoomCreateOk ∉ errorCodes := by decide
        refine .ret fun t _ _ _ =>
          ⟨(cmdRoomCreateOk, successMsg), .of_ok ?_ hok⟩
        rw [sentTo_cons, newCalls_eq rfl, hserving.connOf, framesTo_send]
        rfl

theorem replies_createChatRoom (hfd : r.clientFd = fd)
    (hs : r.state = .inChatLobby) :
    Replies c fd q r .idle (createChatRoom c)
      fun steps _ => ∃ f, Answers q steps f := by
  refine .silentAnswer trivial fun s b s' hr he => ?_
  cases he
  rw [hr]
  refine .silentAnswer trivial fun _ _ _ _ _ => ?_
  split
  · exact .reply (by decide) hfd
  · rename_i hlen
    exact replies_createScan hfd hs (Nat.not_lt.mp hlen) _ _

/-- A room that is not full has a free slot. -/
theorem Room.Ok.freeSlot {room : Room N C} (h : room.Ok)
    (hn : room.numClients ≠ maxClientsRoom) :
    ∃ j, room.freeSlot? = some j := by
  have hlt : room.occupancy < Fintype.card (Fin maxClientsRoom) := by
    have hle := h.bounds.2
    have hcount := h.count
    rw [Fintype.card_fin]
    omega
  obtain ⟨k, hk⟩ := exists_of_tally_lt hlt
  cases hj : room.freeSlot? with
  | some j => exact ⟨j, rfl⟩
  | none =>
      have hsome := Room.freeSlot?_none hj k
      rw [hk] at hsome
      cases hsome

/-- `join_chat_room` refuses or lets the client in. -/
theorem joinSection_cases {s : State N C} (i : Fin maxRooms)
    (hok : (s.rooms i).Ok) (c : ClientPtr N C) (joinMsg : Bytes) :
    ((s.rooms i).inUse = false ∨ (s.rooms i).numClients = maxClientsRoom) ∧
        (∃ answer ∈ joinRefusals, joinSection s i c joinMsg =
          sendMessageToClient s (s.clients c).clientFd answer.1 answer.2) ∨
      ∃ j, (s.rooms i).freeSlot? = some j ∧ (s.rooms i).inUse = true ∧
        joinSection s i c joinMsg = s.afterJoin i j c joinMsg := by
  by_cases hr : (s.rooms i).inUse = false ∨
      (s.rooms i).numClients = maxClientsRoom
  · exact .inl ⟨hr, joinSection_refused hr c joinMsg⟩
  · rw [not_or, Bool.not_eq_false] at hr
    obtain ⟨j, hj⟩ := hok.freeSlot hr.2
    exact .inr ⟨j, hj, hr.1, joinSection_of_slot hr.1 hr.2 hj c joinMsg⟩

/-- What a join request for room `i` comes to. -/
def Joins (c : ClientPtr N C) (q : Conn) (i : Fin maxRooms) (steps : Steps N C)
    (s' : State N C) : Prop :=
  ∃ e ∈ steps, ∃ joinMsg, e.action = .joinSection i c joinMsg ∧
    ((e.before.rooms i).inUse = true →
      (e.before.rooms i).numClients < maxClientsRoom →
      (∃ message, sentTo q steps = [(cmdRoomJoinOk, message)]) ∧
        (s'.rooms i).Has c)

theorem replies_joinSection (hs : r.state = .inChatLobby) (i : Fin maxRooms)
    (joinMsg : Bytes) :
    Replies c fd q r .idle (act (.joinSection i c joinMsg))
      fun steps s' => (∃ f, Answers q steps f) ∧ Joins c q i steps s' := by
  refine .act fun s b s' hserving hr hp he => ?_
  have hready : Ready s (.worker c.worker) c .inChatLobby :=
    ⟨⟨rfl, hserving.live⟩, by rw [hr, hs], hp⟩
  have hnext := hserving.step (a := .joinSection i c joinMsg) hready nofun
    nofun he
  refine ⟨hnext, .ret fun t ht htc htp => ?_⟩
  have hok := hserving.inv.rooms.ok i
  cases he
  rcases joinSection_cases i hok c joinMsg with
    ⟨hr, answer, hmem, heq⟩ | ⟨j, hj, -, heq⟩
  · -- A refusal is sent and nothing else happens.
    have hcalls : newCalls (N := N) (C := C)
        ⟨.joinSection i c joinMsg, s, joinSection s i c joinMsg⟩ =
        [.send fd (some q) answer.1 answer.2] := by
      apply newCalls_eq
      rw [heq, hserving.clientFd, ← hserving.conn]
      rfl
    refine ⟨⟨answer, ?_, fun _ e he => ?_⟩, _, List.mem_singleton_self _,
      joinMsg, rfl, fun hu hn => ?_⟩
    · rw [sentTo_cons, hcalls, framesTo_send]
      rfl
    · cases List.mem_singleton.mp he
      refine ⟨?_, fun q' hq' => ?_⟩
      · rw [heq]
        exact ⟨rfl, rfl, fun _ => rfl, fun _ => rfl, fun _ => rfl⟩
      · rw [hcalls]
        exact framesTo_send_ne (by simpa using hq'.symm) _ _ _
    · rcases hr with hr | hr
      · rw [hr] at hu
        cases hu
      · exact absurd hr (Int.ne_of_lt hn)
  · -- The others are told, then the client.
    have hframes : sentTo q
        [(⟨.joinSection i c joinMsg, s, joinSection s i c joinMsg⟩ :
          Executed N C)] =
        [(cmdRoomJoinOk, text "Successfully joined room\n")] := by
      have hothers := hserving.broadcast (i := i)
        joinMsg fun d hne hd =>
          ((Room.Ok.has_added (Room.freeSlot?_some hj)).mp hd).resolve_left hne
      rw [sentTo_cons, newCalls_eq
        (by rw [heq]; exact List.append_assoc _ _ _), framesTo_append,
        hothers, hserving.connOf, framesTo_send]
      rfl
    have hmember : (t.rooms i).Has c := by
      apply (ht.inv.rooms.member i c).mpr
      rw [heq] at htc htp
      have hentered : t.clients c = (s.clients c).entered i := by
        rw [htc]
        exact Function.update_self _ _ _
      refine ⟨ht.live, by rw [hentered]; rfl, by rw [hentered]; rfl, ?_⟩
      have hidle : t.point c.worker = .idle := htp.trans hp
      rw [hidle]
      exact nofun
    exact ⟨⟨_, .of_ok hframes (by decide)⟩, _, List.mem_singleton_self _,
      joinMsg, rfl, fun _ _ => ⟨⟨_, hframes⟩, hmember⟩⟩

theorem replies_joinChatRoom (hfd : r.clientFd = fd)
    (hs : r.state = .inChatLobby) :
    Replies c fd q r .idle (joinChatRoom c)
      fun steps s' => (∃ f, Answers q steps f) ∧
        ∀ i : Fin maxRooms, parseRoomNumber r.currentMsg = some i.val →
          Joins c q i steps s' := by
  have hQ : ∀ e steps (t : State N C), Harmless q e → newCalls e = [] →
      ((∃ f, Answers q steps f) ∧
        ∀ i : Fin maxRooms, parseRoomNumber r.currentMsg = some i.val →
          Joins c q i steps t) →
      (∃ f, Answers q (e :: steps) f) ∧
        ∀ i : Fin maxRooms, parseRoomNumber r.currentMsg = some i.val →
          Joins c q i (e :: steps) t := by
    rintro e steps t he hcalls ⟨⟨f, hf⟩, hjoins⟩
    refine ⟨⟨f, hf.cons he hcalls⟩, fun i hi => ?_⟩
    obtain ⟨d, hd, joinMsg, haction, hjoin⟩ := hjoins i hi
    refine ⟨d, List.mem_cons_of_mem _ hd, joinMsg, haction, ?_⟩
    rw [sentTo_cons, hcalls]
    exact hjoin
  refine .silent trivial hQ fun s b s' hr he => ?_
  cases he
  rw [hr]
  refine .silent trivial hQ fun _ _ _ _ _ => ?_
  cases hn : parseRoomNumber r.currentMsg with
  | none =>
      refine (Replies.reply (by decide) hfd).imp fun steps t hanswer => ?_
      exact ⟨hanswer, nofun⟩
  | some n =>
      dsimp only
      split
      · rename_i hlt
        refine (replies_joinSection hs ⟨n, hlt⟩ _).imp ?_
        rintro steps t ⟨hanswer, hjoins⟩
        refine ⟨hanswer, fun i hi => ?_⟩
        have hi' : i = ⟨n, hlt⟩ := Fin.ext (Option.some.inj hi).symm
        rw [hi']
        exact hjoins
      · rename_i hge
        refine (Replies.reply (by decide) hfd).imp fun steps t hanswer => ?_
        refine ⟨hanswer, fun i hi => ?_⟩
        rw [Option.some.inj hi] at hge
        exact absurd i.isLt hge

theorem replies_handleAwaitingUsername (hfd : r.clientFd = fd)
    (hs : r.state = .awaitingUsername) :
    Replies c fd q r .idle (handleAwaitingUsername c r)
      fun steps _ => ∃ f, Answers q steps f := by
  have hok : cmdRoomListResponse ∉ errorCodes := by decide
  unfold handleAwaitingUsername
  dsimp only
  split
  · exact .reply (by decide) hfd
  rename_i hlen
  refine .act fun s b s' hserving hr hp he => ?_
  have hready : Ready s (.worker c.worker) c .awaitingUsername :=
    ⟨⟨rfl, hserving.live⟩, by rw [hr, hs], hp⟩
  refine ⟨hserving.step (a := .strcpyName c _) ⟨hready, Nat.not_lt.mp hlen⟩
    nofun nofun he, ?_⟩
  have hstate : (s'.clients c).state = .awaitingUsername := by
    cases he
    simpa using hready.2.1
  have hpoint : s'.point c.worker = .idle := by
    cases he
    exact hp
  have hcalls : s'.calls = s.calls := by
    cases he
    rfl
  refine .act fun s₁ b s₂ hserving hr₁ hp₁ he₁ => ?_
  have hready₁ : Ready s₁ (.worker c.worker) c .awaitingUsername :=
    ⟨⟨rfl, hserving.live⟩, by rw [hr₁, hstate], by rw [hp₁, hpoint]⟩
  have hnext := hserving.step (a := .setLobby c) (.inl hready₁) nofun nofun he₁
  refine ⟨hnext, (replies_sendAvailRooms hnext.clientFd).imp ?_⟩
  have hcalls₁ : s₂.calls = s₁.calls := by
    cases he₁
    rfl
  rintro steps t ⟨message, hanswers⟩
  refine ⟨_, .of_ok (f := (cmdRoomListResponse, message)) ?_ hok⟩
  rw [sentTo_cons, sentTo_cons,
    newCalls_eq (by rw [hcalls, List.append_nil]),
    newCalls_eq (by rw [hcalls₁, List.append_nil]),
    hanswers.frame]
  rfl

theorem replies_handleInChatLobby (hfd : r.clientFd = fd)
    (hs : r.state = .inChatLobby) (hacc : refusal r = none)
    (hexit : command r.currentMsg ≠ cmdExit) :
    Replies c fd q r .idle (handleInChatLobby c r)
      fun steps s' => (∃ f, Answers q steps f) ∧
        (command r.currentMsg = cmdRoomJoinRequest →
          ∀ i : Fin maxRooms, parseRoomNumber r.currentMsg = some i.val →
            Joins c q i steps s') := by
  unfold handleInChatLobby
  dsimp only
  rcases command_of_lobby hacc hs hexit with hcmd | hcmd | hcmd
  · rw [if_pos hcmd]
    refine (replies_createChatRoom hfd hs).imp fun _ _ h => ⟨h, fun hjoin => ?_⟩
    rw [hcmd] at hjoin
    exact absurd hjoin (by decide)
  · rw [if_neg (by rw [hcmd]; decide), if_pos hcmd]
    exact (replies_joinChatRoom hfd hs).imp fun _ _ h => ⟨h.1, fun _ => h.2⟩
  · rw [if_neg (by rw [hcmd]; decide), if_neg (by rw [hcmd]; decide),
      if_pos hcmd]
    refine (replies_sendAvailRooms hfd).imp ?_
    rintro _ _ ⟨message, hanswers⟩
    refine ⟨⟨_, hanswers⟩, fun hjoin => ?_⟩
    rw [hcmd] at hjoin
    exact absurd hjoin (by decide)

/-- `leave_room` tells the others only. -/
theorem replies_leaveRoom (hs : r.state = .inChatRoom)
    {k : Unit → ServerProg N C Unit} {Q : Steps N C → State N C → Prop}
    (hk : Replies c fd q r (.left c.index) (k ()) fun steps t =>
      ∀ e, framesTo q (newCalls e) = [] → Q (e :: steps) t) :
    Replies c fd q r .idle (leaveRoom c r.roomIndex >>= k) Q := by
  refine .act fun s b s' hserving hr hp he => ?_
  have hready : Ready s (.worker c.worker) c .inChatRoom :=
    ⟨⟨rfl, hserving.live⟩, by rw [hr, hs], hp⟩
  refine ⟨hserving.step (a := .leaveSection r.roomIndex c)
    ⟨hready, by rw [hr]⟩ nofun nofun he, ?_⟩
  have hhas : (s.rooms r.roomIndex).Has c := by
    apply (hserving.inv.rooms.member _ c).mpr
    refine ⟨hserving.live, hready.2.1, by rw [hr], ?_⟩
    rw [hp]
    exact nofun
  have hmute : framesTo q (newCalls
      (⟨.leaveSection r.roomIndex c, s, s'⟩ : Executed N C)) = [] := by
    rw [exec_leaveSection he, newCalls_eq rfl]
    apply hserving.broadcast
    intro d hne hd
    obtain ⟨j, -, hremove⟩ := (hserving.inv.rooms.ok _).remove_eq hhas
    rw [hremove] at hd
    obtain ⟨l, hl⟩ := hd
    refine ⟨l, ?_⟩
    by_cases hlj : l = j
    · subst hlj
      simp at hl
    · simpa [hlj] using hl
  have hclients : s'.clients c = r ∧ s'.point c.worker = .left c.index := by
    rw [exec_leaveSection he]
    exact ⟨hr, Function.update_self _ _ _⟩
  rw [hclients.1, hclients.2]
  exact hk.imp fun steps t h => h _ hmute

/-- Setting the state back to the lobby sends nothing. -/
theorem replies_setLobby {Q : Steps N C → State N C → Prop}
    (hQ : ∀ e t, newCalls e = [] → Q [e] t) :
    Replies c fd q r (.left c.index) (Server.act (.setLobby c)) Q := by
  refine .act fun s b s' hserving hr hp he => ?_
  refine ⟨hserving.step (a := .setLobby c) (.inr ⟨⟨rfl, hserving.live⟩, hp⟩)
    nofun nofun he, .ret fun t _ _ _ => hQ _ _ ?_⟩
  cases he
  exact newCalls_eq (List.append_nil _).symm

theorem replies_handleInChatRoom
    (hs : r.state = .inChatRoom) (hacc : refusal r = none) :
    Replies c fd q r (routedPoint c r) (handleInChatRoom c r) fun steps _ =>
      if command r.currentMsg = cmdRoomMessageSend then sentTo q steps = []
      else ∃ f, Answers q steps f := by
  have hok : cmdRoomLeaveOk ∉ errorCodes := by decide
  unfold handleInChatRoom
  split
  · rename_i hcmd
    rw [routedPoint, chatLine?_some hacc hs hcmd]
    refine .silent trivial ?_ fun _ _ _ _ _ => ?_
    · intro e steps t _ hcalls h
      rw [sentTo_cons, hcalls, h]
      rfl
    refine .act fun s b s' hserving hr hp he => ?_
    have hpre : Allowed (.worker c.worker) s (.chatSection r.roomIndex c
        (chatText r.name (content r.currentMsg))) :=
      ⟨⟨rfl, hserving.live⟩, by rw [hr, hs], by rw [hr], hp⟩
    refine ⟨hserving.step hpre (by rintro ⟨⟩) (by rintro w ⟨⟩) he, .ret fun t _ _ _ => ?_⟩
    rw [sentTo_cons, exec_chatSection he, newCalls_eq rfl,
      hserving.broadcast _ fun _ _ hd => hd]
    rfl
  · rename_i hcmd
    rw [routedPoint, chatLine?_none (.inr (.inr hcmd))]
    refine .silent trivial ?_ fun _ _ _ _ _ => ?_
    · rintro e steps t he hcalls ⟨f, hf⟩
      exact ⟨f, hf.cons he hcalls⟩
    refine replies_leaveRoom hs ?_
    refine .act fun s b s' hserving hr hp he => ?_
    refine ⟨hserving.step (a := .leaveOkSection r.roomIndex c)
      ⟨⟨rfl, hserving.live⟩, hp⟩ (by rintro ⟨⟩) (by rintro w ⟨⟩) he, ?_⟩
    have hpoint : s'.point c.worker = .left c.index := by
      cases he
      exact hp
    have hframe : framesTo q (newCalls
        (⟨.leaveOkSection r.roomIndex c, s, s'⟩ : Executed N C)) =
        [(cmdRoomLeaveOk, text "You have left the room\n")] := by
      cases he
      rw [newCalls_eq rfl, hserving.clientFd, hserving.conn]
      exact framesTo_send _ _ _ _
    rw [hpoint]
    refine replies_setLobby fun d t hd e he => ?_
    refine ⟨(cmdRoomLeaveOk, text "You have left the room\n"), .of_ok ?_ hok⟩
    rw [sentTo_cons, sentTo_cons, sentTo_cons, he, hframe, hd]
    rfl

/-- The actions of `cleanup_client`. -/
def Act.cleansUp (c : ClientPtr N C) : Act N C → Prop
  | .epollDel d | .closeClient d | .zeroClient d => d = c
  | .subtractZeroed w => w = c.worker
  | _ => False

theorem Act.cleansUp.mute {a : Act N C} (ha : a.cleansUp c) {s s' : State N C}
    {b : a.Answer} (he : exec a s = some (b, s')) :
    framesTo q (newCalls (⟨a, s, s'⟩ : Executed N C)) = [] := by
  cases a <;> simp only [Act.cleansUp] at ha
  case epollDel d =>
    cases he
    rw [newCalls_eq rfl]
    rfl
  case closeClient d =>
    cases he
    rw [newCalls_eq rfl]
    rfl
  all_goals
    cases he
    rw [newCalls_eq (List.append_nil _).symm]
    rfl

theorem replies_cleanupClient :
    Replies c fd q r p (cleanupClient c) fun steps _ => sentTo q steps = [] := by
  intro s steps s' _ _ _ hexec
  have hall : Prog.All (Act.cleansUp c) (cleanupClient c) :=
    ⟨rfl, fun _ => ⟨rfl, fun _ => ⟨rfl, fun _ => all_one rfl⟩⟩⟩
  refine List.flatMap_eq_nil_iff.mpr fun e he => ?_
  obtain ⟨b, hb⟩ := hexec.mem_exec e he
  exact (hexec.mem_of_all hall e he).mute hb

/-- The end of a client's session sends it nothing. -/
theorem replies_handleClientDisconnection :
    Replies c fd q r .idle (handleClientDisconnection c)
      fun steps _ => sentTo q steps = [] := by
  rw [handleClientDisconnection_eq]
  refine .silent trivial ?_ fun s b s' hr he => ?_
  · intro e steps t _ hcalls h
    rw [sentTo_cons, hcalls, h]
    rfl
  cases he
  rw [hr]
  split
  · rename_i hs
    refine replies_leaveRoom hs (replies_cleanupClient.imp ?_)
    intro steps t h e he
    rw [sentTo_cons, he, h]
    rfl
  · exact replies_cleanupClient

/-! ### The dispatcher -/

theorem replies_dispatch (hfd : r.clientFd = fd) :
    Replies c fd q r (routedPoint c r) (dispatch c r) (Replied c q r) := by
  unfold dispatch
  cases hacc : refusal r with
  | some answer =>
      refine (Replies.send (refusal_code hacc (by decide)) hfd).imp fun steps t h => ?_
      have hanswered : ¬ Unanswered r := by
        rintro ⟨hnone, -⟩
        rw [hacc] at hnone
        cases hnone
      refine ⟨fun hun => absurd hun hanswered, fun _ => ⟨_, h⟩, fun hjoin => ?_⟩
      rw [hjoin.valid] at hacc
      cases hacc
  | none =>
      show Replies c fd q r (routedPoint c r) (handleAccepted c r) _
      unfold handleAccepted
      by_cases hcmd : command r.currentMsg = cmdExit
      · rw [if_pos hcmd, routedPoint,
          chatLine?_none (.inr (.inr (by rw [hcmd]; decide)))]
        refine replies_handleClientDisconnection.imp fun steps t h => ?_
        refine ⟨fun _ => h, fun hun => absurd ⟨hacc, .inl hcmd⟩ hun,
          fun hjoin => ?_⟩
        rw [hjoin.command] at hcmd
        exact absurd hcmd (by decide)
      rw [if_neg hcmd]
      have hanswered : ∀ {cmd}, command r.currentMsg = cmd →
          cmd ≠ cmdRoomMessageSend → ¬ Unanswered r := by
        rintro cmd rfl hne ⟨-, hexit | hsend⟩
        · exact hcmd hexit
        · exact hne hsend
      cases hs : r.state with
      | awaitingUsername =>
          rw [routedPoint, chatLine?_none (.inr (.inl (by simp [hs])))]
          have hun := hanswered (command_of_awaiting hacc hs hcmd) (by decide)
          refine (replies_handleAwaitingUsername hfd hs).imp fun steps t h => ?_
          refine ⟨fun h' => absurd h' hun, fun _ => h, fun hjoin => ?_⟩
          rw [hjoin.state] at hs
          cases hs
      | inChatLobby =>
          rw [routedPoint, chatLine?_none (.inr (.inl (by simp [hs])))]
          have hun : ¬ Unanswered r := by
            rcases command_of_lobby hacc hs hcmd with h | h | h
            all_goals exact hanswered h (by decide)
          refine (replies_handleInChatLobby hfd hs hacc hcmd).imp
            fun steps t h => ?_
          exact ⟨fun h' => absurd h' hun, fun _ => h.1,
            fun hjoin => h.2 hjoin.command⟩
      | inChatRoom =>
          refine (replies_handleInChatRoom hs hacc).imp fun steps t h => ?_
          refine ⟨fun hun => ?_, fun hun => ?_, fun hjoin => ?_⟩
          · rwa [if_pos (hun.2.resolve_left hcmd)] at h
          · rwa [if_neg fun hsend => hun ⟨hacc, .inr hsend⟩] at h
          · rw [hjoin.state] at hs
            cases hs

theorem replies_routeClientCommand :
    Replies c fd q r .idle (routeClientCommand c) (Replied c q r) := by
  rw [routeClientCommand_eq]
  refine .act fun s b s' hserving hr hp he => ?_
  have hnext := hserving.step (a := .routeMessage c)
    ⟨⟨rfl, hserving.live⟩, hp⟩ nofun nofun he
  refine ⟨hnext, ?_⟩
  obtain ⟨rfl, hcases⟩ := exec_routeMessage he
  have hrouted : s'.clients c = r ∧ s'.point c.worker = routedPoint c r ∧
      Unchanged s s' ∧ s'.calls = s.calls := by
    unfold routedPoint
    rw [hr] at hcases
    rcases hcases with ⟨hl, rfl⟩ | ⟨line, hl, rfl⟩
    · rw [hl]
      exact ⟨hr, hp, ⟨rfl, rfl, fun _ => rfl, fun _ => rfl, fun _ => rfl⟩, rfl⟩
    · rw [hl]
      exact ⟨hr, Function.update_self _ _ _,
        ⟨rfl, rfl, fun _ => rfl, fun _ => rfl, fun _ => rfl⟩, rfl⟩
  obtain ⟨hclients, hpoint, hsame, hcalls⟩ := hrouted
  have hnone : newCalls (⟨.routeMessage c, s, s'⟩ : Executed N C) = [] :=
    newCalls_eq (by rw [hcalls, List.append_nil])
  have hfd := hnext.clientFd
  rw [hclients] at hfd
  rw [hclients, hpoint, hr]
  refine (replies_dispatch hfd).imp fun steps t h => h.cons ⟨hsame, ?_⟩ hnone
  intro q' _
  rw [hnone]
  rfl

/-! ### The messages of a chunk -/

/-- A message that is no exit leaves the client its connection. -/
theorem Serving.routed {s s' : State N C} {steps : Steps N C}
    (h : Serving s c fd q) (hp : s.point c.worker = .idle)
    (hexit : isExit (s.clients c).currentMsg = false)
    (hexec : Prog.Exec exec (Peers c.worker) (routeClientCommand c) s steps ()
      s') : Serving s' c fd q ∧ s'.point c.worker = .idle := by
  have huse : Live (s.clients c).inUse := h.live
  have hothers := hexec.mono fun _ _ hR => Peers.others hR
  obtain ⟨hallowed, hidle, -⟩ :=
    (local_routeClientCommand (c := c) huse).exec rfl hp hothers
  rw [routeClientCommand_eq] at hexec
  obtain ⟨s₁, self, s₂, rest, rfl, hR, he, hrest⟩ := Prog.Exec.act_inv hexec
  have hself : self = s.clients c := by
    rw [(exec_routeMessage he).1, (Peers.others hR).clients]
  have hcommand := hrest.mem_of_all (all_dispatchCommand c self (hself ▸ hexit))
  have h₂ : Serving s₂ c fd q := (h.peers hR).step
    (hallowed _ List.mem_cons_self) (by rintro ⟨⟩) (by rintro w ⟨⟩) he
  have hkeeps := hrest.keeps (I := fun s => Serving s c fd q)
    (fun hR h => h.peers hR) (fun e hmem hserving => ?_) h₂
  · exact ⟨hkeeps.2, hidle⟩
  · obtain ⟨b, hb⟩ := hrest.mem_exec e hmem
    refine hserving.step (hallowed e (List.mem_cons_of_mem _ hmem)) ?_ ?_ hb
    · intro heq
      have hcmd := hcommand e hmem
      rw [heq] at hcmd
      exact hcmd
    · intro w heq
      have hcmd := hcommand e hmem
      rw [heq] at hcmd
      exact hcmd

/-- A message of a chunk: the record it is handled with, the steps that handle it,
and the state after them. -/
structure Handling (N C : Nat) where
  record : Client
  steps : Steps N C
  after : State N C

/-- The steps handle the messages one after the other, each as `Replied` says, and
send the connection nothing in between. -/
def RepliedEach (c : ClientPtr N C) (q : Conn) (msgs : List Bytes)
    (steps : Steps N C) : Prop :=
  ∃ parts : List (Handling N C),
    parts.map (fun p => p.record.currentMsg) = msgs ∧
    (∀ p ∈ parts, Replied c q p.record p.steps p.after) ∧
    sentTo q steps = parts.flatMap fun p => sentTo q p.steps

/-- What completes no message is stored and answered by nothing. -/
theorem sentTo_rest {s s' : State N C} {steps : Steps N C} {temp : Bytes}
    (hfree : strstrTerminator temp = none) (fuel : Nat)
    (hexec : Prog.Exec exec (Peers c.worker) (messageLoop c fuel temp) s steps
      () s') : sentTo q steps = [] := by
  cases fuel with
  | zero =>
      obtain ⟨-, rfl, -⟩ := Prog.Exec.ret_inv hexec
      rfl
  | succ fuel =>
      unfold messageLoop at hexec
      simp only [hfree] at hexec
      split at hexec
      · obtain ⟨-, rfl, -⟩ := Prog.Exec.ret_inv hexec
        rfl
      · obtain ⟨s₁, _, s₂, rest, rfl, -, he, hrest⟩ :=
          Prog.Exec.act_inv hexec
        obtain ⟨-, rfl, -⟩ := Prog.Exec.ret_inv hrest
        have hnone : newCalls (⟨.strcatCurrentMsg c temp, s₁, s₂⟩ :
            Executed N C) = [] := by
          cases he
          exact newCalls_eq (List.append_nil _).symm
        rw [sentTo_cons, hnone]
        rfl

/-- Every message of a chunk is replied to, one after the other. -/
theorem replied_messageLoop (fuel : Nat) :
    ∀ {temp : Bytes} {s s' : State N C} {steps : Steps N C},
      temp.length < fuel → Serving s c fd q → s.point c.worker = .idle →
      ExitsLast (Delimited.feed cr lf (s.clients c).currentMsg temp).1 →
      Prog.Exec exec (Peers c.worker) (messageLoop c fuel temp) s steps () s' →
      RepliedEach c q
        (Delimited.feed cr lf (s.clients c).currentMsg temp).1 steps := by
  induction fuel with
  | zero => intro temp s s' steps hfuel; omega
  | succ fuel ih =>
      intro temp s s' steps hfuel hserving hp hexits hexec
      cases hcut : strstrTerminator temp with
      | none =>
          refine ⟨[], ?_, fun p hp => (by cases hp), ?_⟩
          · rw [feed_of_free hcut]
            rfl
          · exact sentTo_rest hcut (fuel + 1) hexec
      | some out =>
          obtain ⟨piece, rest⟩ := out
          have hlen := Delimited.length_of_cut hcut
          rw [feed_of_cut hcut] at hexits ⊢
          unfold messageLoop at hexec
          simp only [hcut] at hexec
          obtain ⟨s₁, _, s₂, steps₁, rfl, hR₁, he₁, hexec⟩ :=
            Prog.Exec.act_inv hexec
          replace hexec : Prog.Exec exec (Peers c.worker)
              (routeClientCommand c >>= fun _ =>
                act (.clearCurrentMsg c) >>= fun _ => messageLoop c fuel rest)
              s₂ steps₁ () s' := hexec
          obtain ⟨routed, steps₂, ⟨⟩, s₃, rfl, hroute, hexec⟩ :=
            Prog.Exec.bind_inv (Peers.refl c.worker) hexec
          obtain ⟨s₄, _, s₅, steps₃, rfl, hR₃, he₃, hexec⟩ :=
            Prog.Exec.act_inv hexec
          have hrecord₁ := (Peers.others hR₁).clients (c := c)
          have hserving₂ := (hserving.peers hR₁).step
            (a := .strcatCurrentMsg c piece) rfl (by rintro ⟨⟩)
            (by rintro w ⟨⟩) he₁
          have hp₂ : s₂.point c.worker = .idle := by
            cases he₁
            exact (Peers.others hR₁).point.trans hp
          have hmsg : (s₂.clients c).currentMsg =
              (s.clients c).currentMsg ++ piece := by
            cases he₁
            simp [hrecord₁]
          have hnone₁ : newCalls (⟨.strcatCurrentMsg c piece, s₁, s₂⟩ :
              Executed N C) = [] := by
            cases he₁
            exact newCalls_eq (List.append_nil _).symm
          have hnone₃ : newCalls (⟨.clearCurrentMsg c, s₄, s₅⟩ :
              Executed N C) = [] := by
            cases he₃
            exact newCalls_eq (List.append_nil _).symm
          have hreplied := replies_routeClientCommand s₂ routed s₃ hserving₂
            rfl hp₂ hroute
          have hsent : sentTo q (⟨.strcatCurrentMsg c piece, s₁, s₂⟩ ::
              (routed ++ ⟨.clearCurrentMsg c, s₄, s₅⟩ :: steps₃)) =
                sentTo q routed ++ sentTo q steps₃ := by
            simp [hnone₁, hnone₃]
          cases hexit : isExit (s₂.clients c).currentMsg with
          | true =>
              have hlast : (Delimited.feed cr lf [] rest).1 = [] := by
                by_contra hne
                have hhead := hexits.head hne
                rw [← hmsg, hexit] at hhead
                cases hhead
              refine ⟨[⟨s₂.clients c, routed, s₃⟩], ?_, ?_, ?_⟩
              · simp [hmsg, hlast]
              · intro p hmem
                cases List.mem_singleton.mp hmem
                exact hreplied
              · rw [hsent, sentTo_rest (cut_of_feed_nil hlast) fuel hexec]
                simp
          | false =>
              obtain ⟨hserving₃, hp₃⟩ := hserving₂.routed hp₂ hexit hroute
              have hserving₅ := (hserving₃.peers hR₃).step
                (a := .clearCurrentMsg c) rfl (by rintro ⟨⟩)
                (by rintro w ⟨⟩) he₃
              have hp₅ : s₅.point c.worker = .idle := by
                cases he₃
                exact (Peers.others hR₃).point.trans hp₃
              have hempty : (s₅.clients c).currentMsg = [] := by
                cases he₃
                simp
              obtain ⟨parts, hparts, hall, hrest⟩ := ih (by omega) hserving₅
                hp₅ (by rw [hempty]; exact hexits.tail) hexec
              refine ⟨⟨s₂.clients c, routed, s₃⟩ :: parts, ?_, ?_, ?_⟩
              · rw [List.map_cons, hparts, hempty, hmsg]
              · intro p hmem
                rcases List.mem_cons.mp hmem with rfl | hmem
                · exact hreplied
                · exact hall p hmem
              · rw [hsent, hrest]
                rfl

end Handlers

/-! ## Runs -/

section Runs

variable [NeZero N] {ls : List (Step N C)} {k : Configuration N C}
  {c : ClientPtr N C}

/-- **One reply per request**: from every state of every run, a message of a
live client is handled to its end, and whatever the other threads do meanwhile
its connection is sent one frame, or none if the message is an accepted
`CMD_EXIT` or `CMD_ROOM_MESSAGE_SEND`; a message answered with an error
changes nothing; and a request to join a room that has a place ends in the
room.  In the run itself the messages of a chunk are replied to one after the
other. -/
theorem replied_run
    (hrun : (server N C).Run ReadsSucceed (Configuration.init N C) ls k)
    (hlive : (k.shared.clients c).inUse = true)
    (hidle : k.shared.point c.worker = .idle) (msg : Bytes) :
    (∃ steps s', Prog.Exec exec (Peers c.worker) (routeClientCommand c)
      (k.shared.receiving c msg) steps () s') ∧
    ∃ q, k.shared.connOf c = some q ∧
      (∀ steps s',
        Prog.Exec exec (Peers c.worker) (routeClientCommand c)
          (k.shared.receiving c msg) steps () s' →
        Replied c q { k.shared.clients c with currentMsg := msg } steps s') ∧
      ∀ bytes ls' k', k.prog (.worker c.worker) = .ret () →
        ReadsSucceed k.shared
          (.start (.worker c.worker) (.receive c (.data bytes))) →
        (server N C).Run ReadsSucceed (k.update (.worker c.worker) k.shared
          (readAndProcessClientMessage c (.data bytes))) ls' k' →
        (∀ j, .start (.worker c.worker) j ∉ ls') →
        k'.prog (.worker c.worker) = .ret () →
        ∃ steps, Prog.Exec exec (Peers c.worker)
            (readAndProcessClientMessage c (.data bytes)) k.shared steps ()
            k'.shared ∧
          RepliedEach c q (messages (k.shared.clients c).currentMsg bytes)
            steps := by
  have hinv := serverInv_run hrun
  have hholds : k.shared.holding (.slot c) =
      some (k.shared.clients c).clientFd :=
    holding_slot hlive (by rw [hidle]; exact nofun)
  constructor
  · have hall : Prog.All (fun a => a.blocks = false) (routeClientCommand c) := by
      rw [routeClientCommand_eq]
      exact ⟨rfl, fun self => (all_dispatch c self).imp
        fun _ => Act.ofHandler.not_blocks⟩
    obtain ⟨steps, _, s', h⟩ := exists_exec (Peers.refl c.worker) hall
      (k.shared.receiving c msg)
    exact ⟨steps, s', h⟩
  obtain ⟨q, hq⟩ := hinv.connected hholds
  refine ⟨q, hq, ?_, ?_⟩
  · have hrecord : (k.shared.receiving c msg).clients c =
        { k.shared.clients c with currentMsg := msg } :=
      Function.update_self _ _ _
    have hserving : Serving (k.shared.receiving c msg) c
        (k.shared.clients c).clientFd q := by
      refine ⟨hinv.receiving c msg, ?_, hq⟩
      rw [holding_slot (by rw [hrecord]; exact hlive)
        (by show (k.shared.point _).closing ≠ _; rw [hidle]; exact nofun),
        hrecord]
    exact fun steps s' hexec =>
      replies_routeClientCommand _ steps s' hserving hrecord hidle hexec
  · intro bytes ls' k' hprog hok hjob hone hend
    have hstarted := System.Run.snoc hrun hok
      (.start k (.worker c.worker) (Job.receive c (.data bytes)) hprog)
    obtain ⟨steps, hexec⟩ := exec_of_reads hstarted hjob hone hend
    rw [Config.update_prog_self, Config.update_shared] at hexec
    exact ⟨steps, hexec, replied_messageLoop _ (Nat.lt_succ_self _)
      ⟨hinv, hholds, hq⟩ hidle (hok.1.2 _ c bytes rfl) hexec⟩

end Runs

/-- The first client is in its room; it says something, which is answered by
nothing, and submits a username again, which is refused; the second client joins
the room. -/
theorem replied_bob :
    ∃ s : RealState,
      play (State.init _ _) (opensRoom 0 (text "bob") (text "den") ++
        connects 1 ++ [sends 1 (frame cmdUsernameSubmit (text "eve"))]) =
          some s ∧
      (∀ steps s', Prog.Exec exec (Peers (workerOf 0))
        (routeClientCommand (clientOf 0))
        (s.receiving (clientOf 0) (cmdRoomMessageSend :: text " hi")) steps ()
        s' → sentTo 0 steps = []) ∧
      (∃ steps s' message, Prog.Exec exec (Peers (workerOf 0))
        (routeClientCommand (clientOf 0))
        (s.receiving (clientOf 0) (cmdUsernameSubmit :: text " al")) steps ()
        s' ∧ sentTo 0 steps = [(errProtocolInvalidStateCmd, message)] ∧
        ∀ e ∈ steps, Harmless 0 e) ∧
      ∃ steps s' message, Prog.Exec exec (Peers (workerOf 1))
        (routeClientCommand (clientOf 1))
        (s.receiving (clientOf 1) (cmdRoomJoinRequest :: text " 0")) steps ()
        s' ∧ sentTo 1 steps = [(cmdRoomJoinOk, message)] ∧
        (s'.rooms 0).Has (clientOf 1) := by
  have hplay : ((play (State.init maxThreads maxClientsPerThread)
      (opensRoom 0 (text "bob") (text "den") ++ connects 1 ++
        [sends 1 (frame cmdUsernameSubmit (text "eve"))])).bind fun s =>
      (Prog.traced exec (routeClientCommand (clientOf 0))
        (s.receiving (clientOf 0) (cmdUsernameSubmit :: text " al"))).bind
          fun refused =>
      (Prog.traced exec (routeClientCommand (clientOf 1))
        (s.receiving (clientOf 1) (cmdRoomJoinRequest :: text " 0"))).map
          fun joined =>
        decide (((s.clients (clientOf 0)).inUse = true ∧
          (s.clients (clientOf 0)).state = .inChatRoom ∧
          s.point (workerOf 0) = .idle ∧ s.connOf (clientOf 0) = some 0) ∧
          ((s.clients (clientOf 1)).inUse = true ∧
          (s.clients (clientOf 1)).state = .inChatLobby ∧
          s.point (workerOf 1) = .idle ∧ s.connOf (clientOf 1) = some 1) ∧
          (sentTo 0 refused.1).map Prod.fst = [errProtocolInvalidStateCmd] ∧
          ∀ e ∈ joined.1, (e.before.rooms 0).inUse = true ∧
            (e.before.rooms 0).numClients < (maxClientsRoom : Int))) =
      some true := by
    decide +kernel
  obtain ⟨s, hs, hplay⟩ := Option.bind_eq_some_iff.mp hplay
  obtain ⟨⟨refused, ⟨⟩, s₁⟩, hrefused, hplay⟩ := Option.bind_eq_some_iff.mp hplay
  obtain ⟨⟨joined, ⟨⟩, s₂⟩, hjoined, heq⟩ := Option.map_eq_some_iff.mp hplay
  obtain ⟨⟨hlive, hstate, hidle, hq⟩, ⟨hlive', hstate', hidle', hq'⟩, hcode,
    hroom⟩ := of_decide_eq_true heq
  obtain ⟨ls, hrun⟩ := play_reaches hs
  have hbob : ∀ msg steps s', Prog.Exec exec (Peers (workerOf 0))
      (routeClientCommand (clientOf 0)) (s.receiving (clientOf 0) msg) steps ()
      s' → Replied (clientOf 0) 0
        { s.clients (clientOf 0) with currentMsg := msg } steps s' := by
    intro msg steps s' hexec
    obtain ⟨q, hconn, hreplied, -⟩ := (replied_run hrun hlive hidle msg).2
    obtain rfl : q = 0 := Option.some.inj (hconn.symm.trans hq)
    exact hreplied steps s' hexec
  refine ⟨s, hs, fun steps s' hexec => ?_, ?_, ?_⟩
  · refine (hbob _ steps s' hexec).none ⟨?_, .inr rfl⟩
    simp [refusal, hstate]
    decide
  · have hexec := Prog.exec_of_traced (Peers.refl (workerOf 0)) hrefused
    obtain ⟨f, hf⟩ := (hbob _ refused s₁ hexec).one (by
      rintro ⟨-, hexit | hsend⟩
      · cases hexit
      · cases hsend)
    obtain ⟨code, message⟩ := f
    rw [hf.frame] at hcode
    obtain rfl : code = errProtocolInvalidStateCmd := (List.cons.inj hcode).1
    exact ⟨refused, s₁, message, hexec, hf.frame,
      hf.refused (by simp [errorCodes])⟩
  · have hexec := Prog.exec_of_traced (Peers.refl (workerOf 1)) hjoined
    obtain ⟨q, hconn, hreplied, -⟩ := (replied_run hrun hlive' hidle'
      (cmdRoomJoinRequest :: text " 0")).2
    obtain rfl : q = 1 := Option.some.inj (hconn.symm.trans hq')
    have haccepted : Accepted { s.clients (clientOf 1) with
        currentMsg := cmdRoomJoinRequest :: text " 0" } .inChatLobby
        cmdRoomJoinRequest := by
      refine ⟨?_, hstate', rfl⟩
      simp [refusal, hstate']
      decide
    have hparse : parseRoomNumber (cmdRoomJoinRequest :: text " 0") = some 0 := by
      decide
    obtain ⟨e, he, joinMsg, -, hjoin⟩ := (hreplied joined s₂ hexec).join
      haccepted 0 hparse
    obtain ⟨⟨message, hsent⟩, hhas⟩ := hjoin (hroom e he).1 (hroom e he).2
    exact ⟨joined, s₂, message, hexec, hsent, hhas⟩

end ChatApp.Server
