import ChatApp.Foundation.Broadcast
import ChatApp.Server.Replies

/-!
# The server as an ordered broadcast

The journal's room entries are a log of an ordered broadcast with connections
as participants and room indices as groups.  `RoomStep` says once what an
action does to the log, to the members of the rooms and to the frames of room
traffic; from it follows that the log is valid, that it says who is in the
rooms' arrays, and that each connection has been sent what the log says, up to
one `CMD_ROOM_LEAVE_OK` that is still owed.
-/

namespace ChatApp.Server

open ChatApp.Foundation

variable {N C : Nat}

/-! ## The log -/

/-- What an operation on a room is in the log. -/
def RoomOp.deed : RoomOp → Deed Bytes
  | .created => .founded
  | .joined notice => .joined notice
  | .said line => .said line
  | .left notice => .left notice

/-- An event of the log: a connection, a room and what happened. -/
abbrev RoomEvent : Type := Event (Fin maxRooms) Conn Bytes

def Entry.event? : Entry N C → Option RoomEvent
  | .room i (some q) op => some ⟨i, q, op.deed⟩
  | _ => none

/-- The log of room events so far. -/
def State.events (s : State N C) : List RoomEvent :=
  s.journal.filterMap Entry.event?

/-- The room traffic a frame is: everything but the room is read off it. -/
def roomFrame (f : UInt8 × Bytes) : Option (Told Unit Bytes) :=
  if f.1 = cmdRoomCreateOk then some (.founded ())
  else if f.1 = cmdRoomJoinOk then some (.joined ())
  else if f.1 = cmdRoomMsg then some (.notice () f.2)
  else if f.1 = cmdRoomLeaveOk then some (.left ())
  else none

/-- The room traffic sent to the connection, in order. -/
def roomTraffic (q : Conn) (calls : List SysCall) : List (Told Unit Bytes) :=
  (framesTo q calls).filterMap roomFrame

/-- The command codes of room traffic. -/
def trafficCodes : List UInt8 :=
  [cmdRoomCreateOk, cmdRoomJoinOk, cmdRoomMsg, cmdRoomLeaveOk]

/-- What a participant is told, without the room. -/
def forget : Told (Fin maxRooms) Bytes → Told Unit Bytes
  | .founded _ => .founded ()
  | .joined _ => .joined ()
  | .notice _ msg => .notice () msg
  | .left _ => .left ()

@[simp] theorem roomTraffic_append (q : Conn) (calls calls' : List SysCall) :
    roomTraffic q (calls ++ calls') =
      roomTraffic q calls ++ roomTraffic q calls' := by
  simp [roomTraffic]

theorem roomFrame_none {f : UInt8 × Bytes} (h : f.1 ∉ trafficCodes) :
    roomFrame f = none := by
  simp only [trafficCodes, List.mem_cons, List.not_mem_nil, or_false,
    not_or] at h
  simp [roomFrame, h]

theorem roomFrame_msg (msg : Bytes) :
    roomFrame (cmdRoomMsg, msg) = some (.notice () msg) := by
  simp [roomFrame, cmdRoomMsg, cmdRoomCreateOk, cmdRoomJoinOk]

/-- A frame to the connection. -/
theorem roomTraffic_send (q : Conn) (fd : Fd) (cmd : UInt8) (msg : Bytes) :
    roomTraffic q [.send fd (some q) cmd msg] =
      (roomFrame (cmd, msg)).toList := by
  rw [roomTraffic, framesTo_send]
  cases h : roomFrame (cmd, msg) <;> simp [h]

theorem roomTraffic_send_ne {q : Conn} {conn : Option Conn}
    (h : conn ≠ some q) (fd : Fd) (cmd : UInt8) (msg : Bytes) :
    roomTraffic q [.send fd conn cmd msg] = [] := by
  rw [roomTraffic, framesTo_send_ne h]
  rfl

/-! ## Actions aside from rooms -/

/-- The action touches a room, hands a message over, or sends a reply. -/
def Act.isChat : Act N C → Bool
  | .createSection .. | .joinSection .. | .chatSection .. | .leaveSection ..
  | .leaveOkSection .. | .routeMessage _ | .send .. => true
  | _ => false

def Entry.isChat : Entry N C → Bool
  | .room .. | .routed .. => true
  | _ => false

def SysCall.isSend : SysCall → Bool
  | .send .. => true
  | _ => false

/-- What the action adds to the journal and to the calls has nothing to do
with rooms. -/
def Aside (s s' : State N C) : Prop :=
  (∃ extra, s'.journal = s.journal ++ extra ∧
      ∀ e ∈ extra, Entry.isChat e = false) ∧
    ∃ extra, s'.calls = s.calls ++ extra ∧
      ∀ call ∈ extra, SysCall.isSend call = false

theorem Aside.of_same {s s' : State N C} (hjournal : s'.journal = s.journal)
    (hcalls : s'.calls = s.calls) : Aside s s' :=
  ⟨⟨[], by rw [hjournal, List.append_nil], nofun⟩,
    ⟨[], by rw [hcalls, List.append_nil], nofun⟩⟩

theorem Aside.of_entry {s s' : State N C} {e : Entry N C}
    (hjournal : s'.journal = s.journal ++ [e]) (he : e.isChat = false)
    (hcalls : s'.calls = s.calls) : Aside s s' := by
  refine ⟨⟨[e], hjournal, ?_⟩, ⟨[], by rw [hcalls, List.append_nil], nofun⟩⟩
  intro d hd
  cases List.mem_singleton.mp hd
  exact he

theorem Aside.of_call {s s' : State N C} {call : SysCall}
    (hcalls : s'.calls = s.calls ++ [call]) (hcall : call.isSend = false)
    (hjournal : s'.journal = s.journal) : Aside s s' := by
  refine ⟨⟨[], by rw [hjournal, List.append_nil], nofun⟩, ⟨[call], hcalls, ?_⟩⟩
  intro d hd
  cases List.mem_singleton.mp hd
  exact hcall

theorem exec_aside {a : Act N C} {s s' : State N C} {b : a.Answer}
    (ha : a.isChat = false) (he : exec a s = some (b, s')) : Aside s s' := by
  cases a <;> simp only [Act.isChat, Bool.true_eq_false] at ha
  case listSection i msg =>
    rcases exec_listSection he with ⟨-, -, rfl⟩ | ⟨-, -, rfl⟩
    · exact .of_same rfl rfl
    · refine ⟨⟨_, rfl, ?_⟩, ⟨[], (List.append_nil _).symm, nofun⟩⟩
      simp [Entry.isChat]
  case readEventfd w ok =>
    rcases exec_readEventfd he with ⟨-, -, -, rfl⟩ | ⟨-, -, rfl⟩
    · exact .of_entry rfl rfl rfl
    · exact .of_same rfl rfl
  case registerWithEpoll w fd ok =>
    rcases exec_registerWithEpoll he with ⟨-, -, rfl⟩ | ⟨-, -, rfl⟩
    · exact .of_call rfl rfl rfl
    · exact .of_same rfl rfl
  case allocateClientSlot w fd =>
    rcases exec_allocateClientSlot he with ⟨-, -, rfl⟩ | ⟨j, -, -, rfl⟩
    all_goals exact .of_same rfl rfl
  case accept fd =>
    rw [(exec_accept he).2.2]
    exact .of_same rfl rfl
  case setSocketKeepAlive fd ok =>
    rcases exec_setSocketKeepAlive he with ⟨-, -, rfl⟩ | ⟨-, -, rfl⟩
    all_goals exact .of_same rfl rfl
  case inspectWorker fd =>
    rcases exec_inspectWorker he with ⟨-, -, rfl⟩ | ⟨-, -, rfl⟩
    · exact .of_same rfl rfl
    · exact .of_entry rfl rfl rfl
  case semWait w fd =>
    rw [(exec_semWait he).2]
    exact .of_same rfl rfl
  case writeEventfd w fd ok =>
    rcases exec_writeEventfd he with ⟨-, -, rfl⟩ | ⟨-, -, rfl⟩
    · exact .of_same rfl rfl
    · exact .of_entry rfl rfl rfl
  case strcatCurrentMsg | strcpyName | sprintf =>
    cases he
    exact .of_entry rfl rfl rfl
  case epollDel | closeClient | closeRefused | closeRejected | closeFailed =>
    cases he
    exact .of_call rfl rfl rfl
  all_goals
    cases he
    exact .of_same rfl rfl

theorem Aside.events {s s' : State N C} (h : Aside s s') :
    s'.events = s.events := by
  obtain ⟨⟨extra, hjournal, hextra⟩, -⟩ := h
  have hnone : extra.filterMap Entry.event? = [] := by
    refine List.filterMap_eq_nil_iff.mpr fun e he => ?_
    have hchat := hextra e he
    cases e <;> first | rfl | cases hchat
  rw [State.events, hjournal, List.filterMap_append, hnone, List.append_nil]
  rfl

theorem Aside.traffic {s s' : State N C} (h : Aside s s') (q : Conn) :
    roomTraffic q s'.calls = roomTraffic q s.calls := by
  obtain ⟨-, extra, hcalls, hextra⟩ := h
  have hnone : framesTo q extra = [] := by
    refine List.filterMap_eq_nil_iff.mpr fun call hcall => ?_
    have hsend := hextra call hcall
    cases call <;> first | rfl | cases hsend
  rw [hcalls, roomTraffic_append, roomTraffic, roomTraffic, hnone]
  simp

/-! ## Who is in the rooms -/

/-- The connection is a member of the room, by the room's array. -/
def Present (s : State N C) (q : Conn) (i : Fin maxRooms) : Prop :=
  ∃ d, (s.rooms i).Has d ∧ s.connOf d = some q

/-- The table says who is in the rooms. -/
def Placed (s : State N C) (members : Members (Fin maxRooms) Conn) : Prop :=
  ∀ q i, members q = some i ↔ Present s q i

section Placed

variable {s s' : State N C} {c d : ClientPtr N C} {q : Conn}
  {i : Fin maxRooms} {members : Members (Fin maxRooms) Conn}

/-- A member keeps its connection at every step. -/
theorem ServerInv.conn_stays (h : ServerInv s) {t : Thread N} {a : Act N C}
    {b : a.Answer} (ha : Allowed t s a) (he : exec a s = some (b, s'))
    (hd : (s.rooms i).Has d) : s'.connOf d = s.connOf d := by
  have hclose : a ≠ .closeClient d := by
    rintro rfl
    obtain ⟨-, hstate, -, hpoint⟩ := (h.rooms.member i d).mp hd
    rcases ha.2 with ⟨hs, -⟩ | hleft
    · exact hs hstate
    · rw [hleft] at hpoint
      exact hpoint rfl
  obtain ⟨hslot, hconn⟩ :=
    h.own.slot_stays h.hand ha hclose he (h.member_holds hd)
  rw [State.connOf, (of_holding_slot hslot).2, hconn]
  rfl

/-- The connection of a slot is in the rooms the slot is in. -/
theorem ServerInv.present_iff (h : ServerInv s)
    (hc : s.holding (.slot c) = some (s.clients c).clientFd)
    (hq : s.connOf c = some q) : Present s q i ↔ (s.rooms i).Has c := by
  constructor
  · rintro ⟨d, hd, hdq⟩
    have hdc := h.connOf_inj (h.member_holds hd) hc (hdq.trans hq.symm)
    rwa [← hdc]
  · exact fun hc => ⟨c, hc, hq⟩

theorem Placed.slot (h : Placed s members) (hinv : ServerInv s)
    (hc : s.holding (.slot c) = some (s.clients c).clientFd)
    (hq : s.connOf c = some q) :
    members q = some i ↔ (s.rooms i).Has c :=
  (h q i).trans (hinv.present_iff hc hq)

theorem Placed.of_same (h : Placed s members)
    (hhas : ∀ i d, (s'.rooms i).Has d ↔ (s.rooms i).Has d)
    (hconn : ∀ i d, (s.rooms i).Has d → s'.connOf d = s.connOf d) :
    Placed s' members := by
  intro q i
  rw [h q i]
  unfold Present
  constructor
  · rintro ⟨d, hd, hq⟩
    exact ⟨d, (hhas i d).mpr hd, by rw [hconn i d hd, hq]⟩
  · rintro ⟨d, hd, hq⟩
    have hd' := (hhas i d).mp hd
    exact ⟨d, hd', by rw [← hconn i d hd', hq]⟩

/-- An event moves the connection of its client only. -/
theorem Placed.after (h : Placed s members) (hinv : ServerInv s)
    {e : RoomEvent}
    (hc : s.holding (.slot c) = some (s.clients c).clientFd)
    (hq : s.connOf c = some e.who)
    (hself : ∀ k, (s'.rooms k).Has c ↔ e.after members e.who = some k)
    (hother : ∀ k d, d ≠ c → ((s'.rooms k).Has d ↔ (s.rooms k).Has d))
    (hconn : ∀ i d, (s.rooms i).Has d → s'.connOf d = s.connOf d)
    (hconn_c : s'.connOf c = s.connOf c) : Placed s' (e.after members) := by
  intro q k
  by_cases hqe : e.who = q
  · subst hqe
    rw [← hself k]
    constructor
    · exact fun hhas => ⟨c, hhas, hconn_c.trans hq⟩
    · rintro ⟨d, hd, hdq⟩
      by_cases hdc : d = c
      · rwa [← hdc]
      · have hd' := (hother k d hdc).mp hd
        rw [hconn k d hd'] at hdq
        exact absurd (hinv.connOf_inj (hinv.member_holds hd') hc
          (hdq.trans hq.symm)) hdc
  · rw [e.after_of_ne hqe, h q k]
    have hne : ∀ d, s.connOf d = some q → d ≠ c := by
      rintro d hd rfl
      exact hqe (Option.some.inj (hq.symm.trans hd))
    constructor
    · rintro ⟨d, hd, hdq⟩
      exact ⟨d, (hother k d (hne d hdq)).mpr hd, (hconn k d hd).trans hdq⟩
    · rintro ⟨d, hd, hdq⟩
      by_cases hdc : d = c
      · rw [hdc, hconn_c, hq] at hdq
        exact absurd (Option.some.inj hdq) hqe
      · have hd' := (hother k d hdc).mp hd
        exact ⟨d, hd', by rw [← hconn k d hd', hdq]⟩

end Placed

/-! ## Broadcasts -/

section Recipients

variable {s : State N C} {c : ClientPtr N C} {q : Conn} {i : Fin maxRooms}
  {room : Room N C}

theorem Room.recipients_nodup
    (honce : ∀ j k d, room.clients j = some d → room.clients k = some d →
      j = k) (c : ClientPtr N C) : (room.recipients c).Nodup := by
  refine List.Nodup.filter _ (List.Nodup.filterMap ?_ (List.nodup_finRange _))
  intro j k d hj hk
  exact honce j k d hj hk

/-- A broadcast sends one frame to the connection of one recipient. -/
theorem framesTo_one {cs : List (ClientPtr N C)} {d : ClientPtr N C}
    (hnodup : cs.Nodup) (hd : d ∈ cs) (hq : s.connOf d = some q)
    (hunique : ∀ d' ∈ cs, s.connOf d' = some q → d' = d) (msg : Bytes) :
    framesTo q (cs.map (roomSend s msg)) = [(cmdRoomMsg, msg)] := by
  obtain ⟨before, after, rfl⟩ := List.append_of_mem hd
  have hnot : ∀ d' ∈ before ++ after, s.connOf d' ≠ some q := by
    intro d' hmem hq'
    have hdd : d' = d := by
      apply hunique d' _ hq'
      rcases List.mem_append.mp hmem with h | h
      · exact List.mem_append_left _ h
      · exact List.mem_append_right _ (List.mem_cons_of_mem _ h)
    rw [hdd] at hmem
    exact (List.nodup_middle.mp hnodup).notMem hmem
  rw [List.map_append, List.map_cons, framesTo_append,
    framesTo_broadcast msg fun d' h => hnot d' (List.mem_append_left _ h),
    ← List.singleton_append, framesTo_append,
    framesTo_broadcast msg fun d' h => hnot d' (List.mem_append_right _ h),
    roomSend, hq, framesTo_send]
  rfl

/-- What a broadcast in room `i` sends to a connection. -/
theorem traffic_broadcast (hinv : ServerInv s)
    (hc : s.holding (.slot c) = some (s.clients c).clientFd)
    {members : Members (Fin maxRooms) Conn} (hplaced : Placed s members)
    (honce : ∀ j k d, room.clients j = some d → room.clients k = some d →
      j = k)
    (hroom : ∀ d, d ≠ c → (room.Has d ↔ (s.rooms i).Has d))
    (msg : Bytes) (q : Conn) :
    roomTraffic q ((room.recipients c).map (roomSend s msg)) =
      if s.connOf c ≠ some q ∧ members q = some i then [.notice () msg]
      else [] := by
  have hmember : ∀ d ∈ room.recipients c, (s.rooms i).Has d := by
    intro d hd
    obtain ⟨hhas, hne⟩ := Room.mem_recipients.mp hd
    exact (hroom d hne).mp hhas
  split
  case isTrue h =>
    obtain ⟨d, hd, hdq⟩ := (hplaced q i).mp h.2
    have hne : d ≠ c := by
      rintro rfl
      exact h.1 hdq
    have hmem : d ∈ room.recipients c :=
      Room.mem_recipients.mpr ⟨(hroom d hne).mpr hd, hne⟩
    rw [roomTraffic, framesTo_one (Room.recipients_nodup honce c) hmem hdq]
    · simp [roomFrame_msg]
    · intro d' hd' hdq'
      exact hinv.connOf_inj (hinv.member_holds (hmember d' hd'))
        (hinv.member_holds hd) (hdq'.trans hdq.symm)
  case isFalse h =>
    rw [roomTraffic, framesTo_broadcast]
    · rfl
    · intro d hd hdq
      obtain ⟨hhas, hne⟩ := Room.mem_recipients.mp hd
      have hd' := hmember d hd
      by_cases hcq : s.connOf c = some q
      · exact hne (hinv.connOf_inj (hinv.member_holds hd') hc
          (hdq.trans hcq.symm))
      · exact h ⟨hcq, (hplaced q i).mpr ⟨d, hd', hdq⟩⟩

end Recipients

/-! ## What an action does to the log -/

/-- The confirmation of leaving is sent after the event. -/
def owed (e : RoomEvent) (q : Conn) : List (Told Unit Bytes) :=
  if e.who = q then
    match e.deed with
    | .left _ => [.left ()]
    | _ => []
  else []

/-- The effect of action `a` of thread `t` on rooms, log and room traffic. -/
inductive RoomStep (t : Thread N) (a : Act N C) (s : State N C)
    (members : Members (Fin maxRooms) Conn) (s' : State N C) : Prop
  | keep (hevents : s'.events = s.events)
      (htraffic : ∀ q, roomTraffic q s'.calls = roomTraffic q s.calls)
      (hplaced : Placed s' members)
  | confirm (i : Fin maxRooms) (c : ClientPtr N C) (q : Conn)
      (ha : a = .leaveOkSection i c) (ht : t = .worker c.worker)
      (hpoint : s.point c.worker = .left c.index)
      (hc : s.holding (.slot c) = some (s.clients c).clientFd)
      (hq : s.connOf c = some q)
      (hevents : s'.events = s.events)
      (htraffic : ∀ q', roomTraffic q' s'.calls = roomTraffic q' s.calls ++
        if q' = q then [.left ()] else [])
      (hplaced : Placed s' members)
  | event (e : RoomEvent) (c : ClientPtr N C)
      (ht : t = .worker c.worker)
      (hc : s.holding (.slot c) = some (s.clients c).clientFd)
      (hq : s.connOf c = some e.who)
      (hpoint : ∀ j, s.point c.worker ≠ .left j)
      (hleft : (∃ m, e.deed = .left m) → s'.point c.worker = .left c.index)
      (hpossible : e.Possible members)
      (hevents : s'.events = s.events ++ [e])
      (htraffic : ∀ q n, roomTraffic q s'.calls ++ owed e q =
        roomTraffic q s.calls ++ (Moment.tells q ⟨e, members, n⟩).map forget)
      (hplaced : Placed s' (e.after members))
      (hroom : a.room? = some e.room)

section Steps

variable {s s' : State N C} {t : Thread N} {c : ClientPtr N C}
  {members : Members (Fin maxRooms) Conn}

/-- The client of an action is served and its connection stays. -/
theorem ServerInv.served (h : ServerInv s) {a : Act N C} {b : a.Answer}
    (ha : Allowed t s a) (hclose : a ≠ .closeClient c)
    (he : exec a s = some (b, s')) (huse : (s.clients c).inUse = true)
    (hpoint : (s.point c.worker).closing ≠ some c.index) :
    s.holding (.slot c) = some (s.clients c).clientFd ∧
      (∃ q, s.connOf c = some q) ∧ s'.connOf c = s.connOf c := by
  have hc := holding_slot huse hpoint
  obtain ⟨hslot, hconn⟩ := h.own.slot_stays h.hand ha hclose he hc
  refine ⟨hc, h.connected hc, ?_⟩
  rw [State.connOf, (of_holding_slot hslot).2, hconn]
  rfl

/-- The traffic of one event: its confirmation, unless it is owed, and its
notice to the others in the room. -/
theorem tells_eq (e : RoomEvent) (q : Conn) (n : Nat)
    (confirm notice : List (Told Unit Bytes))
    (hconfirm : confirm ++ owed e e.who = e.confirms.map forget)
    (hnotice : notice =
      (e.deed.notice?.map fun msg => Told.notice () msg).toList) :
    (if e.who = q then confirm
      else if members q = some e.room then notice else []) ++ owed e q =
      (Moment.tells q ⟨e, members, n⟩).map forget := by
  unfold Moment.tells
  dsimp only
  by_cases hq : e.who = q
  · subst hq
    rw [if_pos rfl, if_pos rfl, hconfirm]
  · rw [if_neg hq, if_neg hq]
    have howed : owed e q = [] := if_neg hq
    rw [howed, List.append_nil]
    split
    · rw [hnotice]
      cases e.deed.notice? <;> rfl
    · rfl

/-- A string built is no event. -/
theorem filterMap_built (cs : List (ClientPtr N C)) (len : Nat) :
    (cs.map fun _ => (Entry.built .messageBuffer len : Entry N C)).filterMap
      Entry.event? = [] := by
  induction cs with
  | nil => rfl
  | cons d cs ih => exact ih

theorem roomStep_create (h : ServerInv s) (hplaced : Placed s members)
    {i : Fin maxRooms} {roomName successMsg : Bytes}
    (ha : Allowed t s (.createSection i c roomName successMsg))
    (hfree : (s.rooms i).inUse = false)
    (he : exec (.createSection i c roomName successMsg) s = some (true, s'))
    (hs' : s' = s.afterCreate i c roomName successMsg) :
    RoomStep t (.createSection i c roomName successMsg) s members s' := by
  obtain ⟨hc, ⟨q, hq⟩, hconn⟩ := h.served ha nofun he ha.1.1.2
    (by rw [ha.1.2.2]; exact nofun)
  have hout : ∀ k, ¬ (s.rooms k).Has c :=
    h.rooms.not_has_of_state (by rw [ha.1.2.1]; decide)
  have hempty : ∀ d, ¬ (s.rooms i).Has d := by
    rintro d ⟨j, hj⟩
    rw [(h.rooms.ok i).clients_of_free hfree j] at hj
    cases hj
  refine .event ⟨i, q, .founded⟩ c ha.1.1.1 hc hq (by rw [ha.1.2.2]; exact nofun) nofun
    ⟨?_, ?_⟩ ?_ ?_ ?_ rfl
  · cases hm : members q with
    | none => rfl
    | some k => exact absurd ((hplaced.slot h hc hq).mp hm) (hout k)
  · intro q' hq'
    obtain ⟨d, hd, -⟩ := (hplaced q' i).mp hq'
    exact hempty d hd
  · subst hs'
    simp [State.events, State.afterCreate, hq]
    rfl
  · intro q' n
    rw [← tells_eq ⟨i, q, .founded⟩ q' n
      [.founded ()] [] (by simp [owed, Event.confirms, forget]) rfl,
      ← List.append_assoc]
    congr 1
    subst hs'
    show roomTraffic q' (s.calls ++ [_]) = _
    rw [roomTraffic_append, hq]
    congr 1
    by_cases hqq : q = q'
    · subst hqq
      rw [if_pos rfl, roomTraffic_send]
      rfl
    · rw [if_neg hqq, roomTraffic_send_ne (by simpa using hqq)]
      simp
  · refine hplaced.after h hc hq ?_ ?_ (fun _ _ hd => h.conn_stays ha he hd)
      hconn
    · intro k
      subst hs'
      by_cases hk : k = i
      · subst hk
        simp [State.afterCreate, (h.rooms.ok k).has_opened hfree, Event.after]
      · simp [State.afterCreate, hk, hout k, Event.after, Ne.symm hk]
    · intro k d hd
      subst hs'
      by_cases hk : k = i
      · subst hk
        simp [State.afterCreate, (h.rooms.ok k).has_opened hfree, hd, hempty]
      · simp [State.afterCreate, hk]

theorem roomStep_join (h : ServerInv s) (hplaced : Placed s members)
    {i : Fin maxRooms} {j : Fin maxClientsRoom} {joinMsg : Bytes}
    (ha : Allowed t s (.joinSection i c joinMsg))
    (hu : (s.rooms i).inUse = true) (hj : (s.rooms i).freeSlot? = some j)
    (he : exec (.joinSection i c joinMsg) s = some ((), s'))
    (hs' : s' = s.afterJoin i j c joinMsg) :
    RoomStep t (.joinSection i c joinMsg) s members s' := by
  obtain ⟨hc, ⟨q, hq⟩, hconn⟩ := h.served ha nofun he ha.1.2
    (by rw [ha.2.2]; exact nofun)
  have hout : ∀ k, ¬ (s.rooms k).Has c :=
    h.rooms.not_has_of_state (by rw [ha.2.1]; decide)
  have hslot := Room.freeSlot?_some hj
  have hok := (h.rooms.ok i).added hu hslot (hout i)
  refine .event ⟨i, q, .joined joinMsg⟩ c ha.1.1 hc hq (by rw [ha.2.2]; exact nofun)
    nofun ⟨?_, ?_⟩ ?_ ?_ ?_ rfl
  · cases hm : members q with
    | none => rfl
    | some k => exact absurd ((hplaced.slot h hc hq).mp hm) (hout k)
  · -- The room is in use, so somebody is in it.
    have hpos := (h.rooms.ok i).inUse_iff.mp hu
    rw [(h.rooms.ok i).count] at hpos
    have hsome : ∃ k, ((s.rooms i).clients k).isSome = true := by
      by_contra hnone
      push Not at hnone
      have hzero : (s.rooms i).occupancy = 0 :=
        (tally_eq_zero_iff _ _).mpr fun k => by simpa using hnone k
      rw [hzero] at hpos
      exact absurd hpos (by decide)
    obtain ⟨k, hk⟩ := hsome
    obtain ⟨d, hd⟩ := Option.isSome_iff_exists.mp hk
    obtain ⟨q', hq'⟩ := h.connected (h.member_holds ⟨k, hd⟩)
    exact ⟨q', (hplaced q' i).mpr ⟨d, ⟨k, hd⟩, hq'⟩⟩
  · subst hs'
    simp only [State.events, State.afterJoin, List.filterMap_append,
      filterMap_built, hq, List.append_nil]
    exact List.append_nil _
  · intro q' n
    rw [← tells_eq ⟨i, q, .joined joinMsg⟩ q' n
      [.joined ()] [.notice () joinMsg]
      (by simp [owed, Event.confirms, forget]) rfl, ← List.append_assoc]
    congr 1
    subst hs'
    show roomTraffic q' (s.calls ++ _ ++ [_]) = _
    rw [roomTraffic_append, roomTraffic_append, List.append_assoc]
    congr 1
    rw [traffic_broadcast (i := i) h hc hplaced hok.once
      (fun d hd => by simp [Room.Ok.has_added hslot, hd]), hq]
    by_cases hqq : q = q'
    · subst hqq
      rw [if_pos rfl, roomTraffic_send]
      simp [roomFrame, cmdRoomJoinOk, cmdRoomCreateOk]
    · rw [if_neg hqq, roomTraffic_send_ne (by simpa using hqq)]
      simp [hqq]
  · refine hplaced.after h hc hq ?_ ?_ (fun _ _ hd => h.conn_stays ha he hd)
      hconn
    · intro k
      subst hs'
      by_cases hk : k = i
      · subst hk
        simp [State.afterJoin, Room.Ok.has_added hslot, Event.after]
      · simp [State.afterJoin, hk, hout k, Event.after, Ne.symm hk]
    · intro k d hd
      subst hs'
      by_cases hk : k = i
      · subst hk
        simp [State.afterJoin, Room.Ok.has_added hslot, hd]
      · simp [State.afterJoin, hk]

theorem roomStep_chat (h : ServerInv s) (hplaced : Placed s members)
    {i : Fin maxRooms} {msg : Bytes}
    (ha : Allowed t s (.chatSection i c msg))
    (he : exec (.chatSection i c msg) s = some ((), s')) :
    RoomStep t (.chatSection i c msg) s members s' := by
  obtain ⟨hc, ⟨q, hq⟩, hconn⟩ := h.served ha nofun he ha.1.2
    (by rw [ha.2.2.2]; exact nofun)
  have hhas : (s.rooms i).Has c := by
    refine (h.rooms.member i c).mpr ⟨ha.1.2, ha.2.1, ha.2.2.1, ?_⟩
    rw [ha.2.2.2]
    exact nofun
  have hs' := exec_chatSection he
  refine .event ⟨i, q, .said msg⟩ c ha.1.1 hc hq (by rw [ha.2.2.2]; exact nofun) nofun
    ((hplaced.slot h hc hq).mpr hhas) ?_ ?_ ?_ rfl
  · subst hs'
    simp only [State.events, State.afterChat, List.filterMap_append,
      filterMap_built, hq, List.append_nil]
    rfl
  · intro q' n
    rw [← tells_eq ⟨i, q, .said msg⟩ q' n []
      [.notice () msg] (by simp [owed, Event.confirms]) rfl,
      ← List.append_assoc]
    congr 1
    subst hs'
    show roomTraffic q' (s.calls ++ _) = _
    rw [roomTraffic_append, traffic_broadcast h hc hplaced
      (h.rooms.ok i).once (fun _ _ => Iff.rfl), hq]
    by_cases hqq : q = q'
    · simp [hqq]
    · simp [hqq]
  · refine hplaced.of_same ?_ ?_
    · intro k d
      rw [hs']
      rfl
    · exact fun k d hd => h.conn_stays ha he hd

theorem roomStep_leave (h : ServerInv s) (hplaced : Placed s members)
    {i : Fin maxRooms} (ha : Allowed t s (.leaveSection i c))
    (he : exec (.leaveSection i c) s = some ((), s')) :
    RoomStep t (.leaveSection i c) s members s' := by
  obtain ⟨hc, ⟨q, hq⟩, hconn⟩ := h.served ha nofun he ha.1.1.2
    (by rw [ha.1.2.2]; exact nofun)
  have hhas : (s.rooms i).Has c := by
    refine (h.rooms.member i c).mpr ⟨ha.1.1.2, ha.1.2.1, ha.2, ?_⟩
    rw [ha.1.2.2]
    exact nofun
  have hok := h.rooms.ok i
  have hout : ∀ k, k ≠ i → ¬ (s.rooms k).Has c := by
    intro k hk
    apply h.rooms.not_has_of_room
    rw [ha.2]
    exact hk.symm
  have hs' := exec_leaveSection he
  -- The array during the broadcast, before the room may be cleaned up.
  obtain ⟨j, hj, hremove⟩ := hok.remove_eq hhas
  have honce : ∀ k l d, ((s.rooms i).remove c).clients k = some d →
      ((s.rooms i).remove c).clients l = some d → k = l := by
    intro k l d hk hl
    rw [hremove] at hk hl
    simp only [Function.update_apply] at hk hl
    split at hk
    · cases hk
    · split at hl
      · cases hl
      · exact hok.once k l d hk hl
  have hothers : ∀ d, d ≠ c →
      (((s.rooms i).remove c).Has d ↔ (s.rooms i).Has d) := by
    intro d hd
    rw [hremove]
    constructor
    · rintro ⟨k, hk⟩
      simp only [Function.update_apply] at hk
      split at hk
      · cases hk
      · exact ⟨k, hk⟩
    · rintro ⟨k, hk⟩
      refine ⟨k, ?_⟩
      have hne : k ≠ j := by
        rintro rfl
        exact hd (Option.some.inj (hk.symm.trans hj))
      simpa [hne] using hk
  have hpoint : s'.point c.worker = .left c.index := by
    rw [hs']
    exact Function.update_self _ _ _
  refine .event ⟨i, q, .left (clientLeftText (s.clients c).name)⟩ c ha.1.1.1
    hc hq
    (by rw [ha.1.2.2]; exact nofun) (fun _ => hpoint)
    ((hplaced.slot h hc hq).mpr hhas) ?_ ?_ ?_ rfl
  · subst hs'
    simp only [State.events, State.afterLeave, List.filterMap_append,
      filterMap_built, hq, List.append_nil]
    rfl
  · intro q' n
    rw [← tells_eq
      ⟨i, q, .left (clientLeftText (s.clients c).name)⟩ q' n []
      [.notice () (clientLeftText (s.clients c).name)]
      (by simp [owed, Event.confirms, forget]) rfl, ← List.append_assoc]
    congr 1
    subst hs'
    show roomTraffic q' (s.calls ++ _) = _
    rw [roomTraffic_append, traffic_broadcast h hc hplaced honce hothers, hq]
    by_cases hqq : q = q'
    · simp [hqq]
    · simp [hqq]
  · refine hplaced.after h hc hq ?_ ?_ (fun _ _ hd => h.conn_stays ha he hd)
      hconn
    · intro k
      subst hs'
      by_cases hk : k = i
      · subst hk
        simp [State.afterLeave, hok.has_left hhas, Event.after]
      · simp [State.afterLeave, hk, hout k hk, Event.after]
    · intro k d hd
      subst hs'
      by_cases hk : k = i
      · subst hk
        simp [State.afterLeave, hok.has_left hhas, hd]
      · simp [State.afterLeave, hk]

theorem roomStep_leaveOk (h : ServerInv s) (hplaced : Placed s members)
    {i : Fin maxRooms} (ha : Allowed t s (.leaveOkSection i c))
    (he : exec (.leaveOkSection i c) s = some ((), s')) :
    RoomStep t (.leaveOkSection i c) s members s' := by
  obtain ⟨hc, ⟨q, hq⟩, -⟩ := h.served ha nofun he ha.1.2
    (by rw [ha.2]; exact nofun)
  have hsame : Placed s' members := by
    refine hplaced.of_same ?_ fun k d hd => h.conn_stays ha he hd
    intro k d
    cases he
    rfl
  refine .confirm i c q rfl ha.1.1 ha.2 hc hq ?_ ?_ hsame
  · cases he
    simp only [State.events, sendMessageToClient, List.filterMap_append]
    exact List.append_nil _
  · intro q'
    cases he
    show roomTraffic q' (s.calls ++ [_]) = _
    have hconn : s.conns (s.clients c).clientFd = some q := hq
    rw [roomTraffic_append, hconn]
    by_cases hqq : q' = q
    · subst hqq
      rw [if_pos rfl, roomTraffic_send]
      rfl
    · rw [if_neg hqq, roomTraffic_send_ne (by simpa using Ne.symm hqq)]

/-- A step that concerns no room. -/
theorem RoomStep.quiet (h : ServerInv s) (hplaced : Placed s members)
    {a : Act N C} {b : a.Answer} (ha : Allowed t s a)
    (he : exec a s = some (b, s')) (hrooms : s'.rooms = s.rooms)
    (hevents : s'.events = s.events)
    (htraffic : ∀ q, roomTraffic q s'.calls = roomTraffic q s.calls) :
    RoomStep t a s members s' := by
  refine .keep hevents htraffic (hplaced.of_same ?_ ?_)
  · intro i d
    rw [hrooms]
  · exact fun i d hd => h.conn_stays ha he hd

/-- A reply that is no room traffic. -/
theorem roomStep_send (h : ServerInv s) (hplaced : Placed s members)
    {a : Act N C} {b : a.Answer} (ha : Allowed t s a) {fd : Fd} {cmd : UInt8}
    {message : Bytes} (hcmd : cmd ∉ trafficCodes)
    (he : exec a s = some (b, s'))
    (hs' : s' = sendMessageToClient s fd cmd message) :
    RoomStep t a s members s' := by
  refine .quiet h hplaced ha he (by rw [hs']; rfl) ?_ fun q => ?_
  · subst hs'
    simp only [State.events, sendMessageToClient, List.filterMap_append]
    exact List.append_nil _
  · subst hs'
    show roomTraffic q (s.calls ++ [_]) = _
    have hnone : roomTraffic q [.send fd (s.conns fd) cmd message] = [] := by
      by_cases hq : s.conns fd = some q
      · rw [hq, roomTraffic_send, roomFrame_none hcmd]
        rfl
      · exact roomTraffic_send_ne hq _ _ _
    rw [roomTraffic_append, hnone, List.append_nil]

/-- Every allowed action is one of these. -/
theorem exec_roomStep (h : ServerInv s) (hplaced : Placed s members)
    {a : Act N C} {b : a.Answer} (ha : Allowed t s a)
    (hplain : ∀ fd cmd message, a = .send fd cmd message →
      cmd ∉ trafficCodes)
    (he : exec a s = some (b, s')) : RoomStep t a s members s' := by
  cases hchat : a.isChat with
  | false =>
      have haside := exec_aside hchat he
      have hrooms : a.isRoom = false := by
        cases a <;> first | rfl | cases hchat
      exact .quiet h hplaced ha he (exec_rooms hrooms he) haside.events
        haside.traffic
  | true =>
      cases a <;> simp only [Act.isChat, Bool.false_eq_true] at hchat
      case createSection i c roomName successMsg =>
        rcases exec_createSection he with ⟨-, -, rfl⟩ | ⟨hfree, rfl, hs'⟩
        · exact .quiet h hplaced ha he rfl rfl fun _ => rfl
        · exact roomStep_create h hplaced ha hfree he hs'
      case joinSection i c joinMsg =>
        have hcodes : ∀ answer ∈ joinRefusals, answer.1 ∉ trafficCodes := by
          decide
        rcases exec_joinSection he with ⟨answer, hmem, hs'⟩ | rfl |
          ⟨j, hu, hj, hs'⟩
        · exact roomStep_send h hplaced ha (hcodes answer hmem) he hs'
        · exact .quiet h hplaced ha he rfl rfl fun _ => rfl
        · exact roomStep_join h hplaced ha hu hj he hs'
      case chatSection i c msg => exact roomStep_chat h hplaced ha he
      case leaveSection i c => exact roomStep_leave h hplaced ha he
      case leaveOkSection i c => exact roomStep_leaveOk h hplaced ha he
      case send fd cmd message =>
        cases he
        exact roomStep_send h hplaced ha (hplain fd cmd message rfl) rfl rfl
      case routeMessage c =>
        obtain ⟨-, hcases⟩ := exec_routeMessage he
        have hfacts : s'.rooms = s.rooms ∧ s'.calls = s.calls ∧
            s'.journal = s.journal ++
              [.routed c (s.connOf c) (s.clients c)] := by
          rcases hcases with ⟨-, rfl⟩ | ⟨line, -, rfl⟩
          all_goals exact ⟨rfl, rfl, rfl⟩
        obtain ⟨hrooms, hcalls, hjournal⟩ := hfacts
        refine .quiet h hplaced ha he hrooms ?_ fun q => by rw [hcalls]
        rw [State.events, hjournal, List.filterMap_append]
        exact List.append_nil _

end Steps

end ChatApp.Server
