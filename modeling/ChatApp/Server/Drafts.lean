import ChatApp.Server.Code
import ChatApp.Server.Effects

/-!
# Sections executed under their lock

While a thread holds the lock of a room, what its section does depends on that
room and on the record of its own client only.  A `Draft` is both as the thread
has written them so far, with the frames it is still to send and with the room
and the record it has to end with.  `Phase.exec` executes the code of a section
on the draft alone.

`Performs` says that the code of a section, run in this way after it has taken
its lock, ends with the answer and the effect of the section as one action.
-/

namespace ChatApp.Server

open ChatApp.Foundation

variable {N C : Nat}

/-! ## Drafts -/

/-- A frame still to be sent, with the client it is for. -/
structure Parcel (N C : Nat) where
  origin : Origin
  client : ClientPtr N C
  fd : Fd
  conn : Option Conn
  cmdType : UInt8
  message : Bytes

def Parcel.call (p : Parcel N C) : SysCall :=
  .send p.fd p.conn p.cmdType p.message

def Parcel.sent (p : Parcel N C) : Call :=
  ⟨p.origin, p.call⟩

/-- The room a call was made for. -/
def Origin.room? : Origin → Option (Fin maxRooms)
  | .reply => none
  | .room i | .seat i _ => some i

/-- A frame sent from a seat is for the client in it. -/
def Parcel.Seated (p : Parcel N C) (room : Room N C) : Prop :=
  match p.origin with
  | .seat _ j => room.clients j = some p.client
  | _ => True

instance (p : Parcel N C) (room : Room N C) : Decidable (p.Seated room) := by
  unfold Parcel.Seated
  split
  · infer_instance
  · infer_instance

/-- A room and a client record in the course of a section. -/
structure Draft (N C : Nat) where
  index : Fin maxRooms
  client : Option (ClientPtr N C)
  room : Room N C
  record : Client
  pending : List (Parcel N C)
  target : Room N C
  final : Client

namespace Draft

def setRoom (d : Draft N C) (room : Room N C) : Draft N C :=
  { d with room := room }

def setRecord (d : Draft N C) (record : Client) : Draft N C :=
  { d with record := record }

def setPending (d : Draft N C) (pending : List (Parcel N C)) : Draft N C :=
  { d with pending := pending }

/-- The section has done what it has to do. -/
def Done (d : Draft N C) : Prop :=
  d.room = d.target ∧ d.record = d.final ∧ d.pending = []

end Draft

/-- How far a thread has got with a section: outside, in the section of a room,
with `worker_index` read, or in the section of a count, with the count as
written so far and as it has to become. -/
inductive Phase (N C : Nat) where
  | out
  | room (d : Draft N C)
  | picked (w : Fin N)
  | count (w : Fin N) (value target : Int)

def Phase.pending : Phase N C → List (Parcel N C)
  | .room d => d.pending
  | _ => []

/-- The lock a thread holds in the phase. -/
def Phase.lock? : Phase N C → Option (Lock N)
  | .room d => some (.room d.index)
  | .count w _ _ => some (.count w)
  | _ => none

/-! ## Executing a section on its draft -/

section Exec

/-- An access as the draft answers it; `none` where it is none of the draft's
business. -/
def Access.draft : (a : Access N C) → Draft N C →
    Option (a.Answer × Draft N C)
  | .inUse i, d => if i = d.index then some (d.room.inUse, d) else none
  | .setInUse i value, d =>
      if i = d.index then some ((), d.setRoom { d.room with inUse := value })
      else none
  | .numClients i, d =>
      if i = d.index then some (d.room.numClients, d) else none
  | .setNumClients i value, d =>
      if i = d.index then
        some ((), d.setRoom { d.room with numClients := value })
      else none
  | .slot i j, d => if i = d.index then some (d.room.clients j, d) else none
  | .setSlot i j value, d =>
      if i = d.index ∧ (value = none ∨ value = d.client) then
        some ((), d.setRoom { d.room with
          clients := Function.update d.room.clients j value })
      else none
  | .clearSlots i, d =>
      if i = d.index then
        some ((), d.setRoom { d.room with clients := fun _ => none })
      else none
  | .roomName i, d => if i = d.index then some (d.room.roomName, d) else none
  | .putName i j byte, d =>
      if i = d.index then
        some ((), d.setRoom { d.room with
          roomName := putByte d.room.roomName j byte })
      else none
  | .cutName i j, d =>
      if i = d.index then
        some ((), d.setRoom { d.room with roomName := d.room.roomName.take j })
      else none
  | .broadcast _, d => some ((), d)
  | .clientFd c, d =>
      match d.pending with
      | p :: _ => if p.client = c then some (p.fd, d) else none
      | [] => none
  | .clientName c, d =>
      if d.client = some c then some (d.record.name, d) else none
  | .setState c value, d =>
      if d.client = some c then
        some ((), d.setRecord { d.record with state := value })
      else none
  | .setRoomIndex c value, d =>
      if d.client = some c then
        some ((), d.setRecord { d.record with roomIndex := value })
      else none
  | .send origin fd cmdType message, d =>
      match d.pending with
      | p :: rest =>
          if origin = p.origin ∧ fd = p.fd ∧ cmdType = p.cmdType ∧
              message = p.message ∧ p.Seated d.room then
            some ((), d.setPending rest)
          else none
      | [] => none
  | _, _ => none

open Classical in
/-- A step of a section on its draft, and the end of the section. -/
noncomputable def Phase.exec (t : Thread N) :
    (a : LockAct (Thread N) (Lock N) (Access N C)) → Phase N C →
      Option (a.Answer Access.Answer × Phase N C)
  | .unlock u l, .room d =>
      if u = t ∧ l = .room d.index ∧ d.Done then some ((), .out) else none
  | .unlock u l, .count w value target =>
      if u = t ∧ l = .count w ∧ value = target then some ((), .out) else none
  | .step a, .room d => (a.draft d).map fun out => (out.1, .room out.2)
  | .step (.numOfClients v), .count w value target =>
      if v = w then some (value, .count w value target) else none
  | .step (.setNumOfClients v value), .count w _ target =>
      if v = w then some ((), .count w value target) else none
  | _, _ => none

end Exec

section Rules

variable {t : Thread N} {d d' : Draft N C} {i : Fin maxRooms} {α β : Type}
  {out : β × Phase N C}

/-! ### Accesses -/

theorem draft_inUse (h : i = d.index) :
    (Access.inUse i).draft d = some (d.room.inUse, d) :=
  if_pos h

theorem draft_setInUse (h : i = d.index) (value : Bool) :
    (Access.setInUse i value).draft d =
      some ((), d.setRoom { d.room with inUse := value }) :=
  if_pos h

theorem draft_numClients (h : i = d.index) :
    (Access.numClients i).draft d = some (d.room.numClients, d) :=
  if_pos h

theorem draft_setNumClients (h : i = d.index) (value : Int) :
    (Access.setNumClients i value).draft d =
      some ((), d.setRoom { d.room with numClients := value }) :=
  if_pos h

theorem draft_slot (h : i = d.index) (j : Fin maxClientsRoom) :
    (Access.slot i j).draft d = some (d.room.clients j, d) :=
  if_pos h

theorem draft_setSlot (h : i = d.index) {value : Option (ClientPtr N C)}
    (hvalue : value = none ∨ value = d.client) (j : Fin maxClientsRoom) :
    (Access.setSlot i j value).draft d =
      some ((), d.setRoom { d.room with
        clients := Function.update d.room.clients j value }) :=
  if_pos ⟨h, hvalue⟩

theorem draft_clearSlots (h : i = d.index) :
    (Access.clearSlots i).draft d =
      some ((), d.setRoom { d.room with clients := fun _ => none }) :=
  if_pos h

theorem draft_roomName (h : i = d.index) :
    (Access.roomName i).draft d = some (d.room.roomName, d) :=
  if_pos h

theorem draft_putName (h : i = d.index) (j : Nat) (byte : UInt8) :
    (Access.putName i j byte).draft d =
      some ((), d.setRoom { d.room with
        roomName := putByte d.room.roomName j byte }) :=
  if_pos h

theorem draft_cutName (h : i = d.index) (j : Nat) :
    (Access.cutName i j).draft d =
      some ((), d.setRoom { d.room with roomName := d.room.roomName.take j }) :=
  if_pos h

theorem draft_clientName {c : ClientPtr N C} (h : d.client = some c) :
    (Access.clientName c).draft d = some (d.record.name, d) :=
  if_pos h

theorem draft_setState {c : ClientPtr N C} (h : d.client = some c)
    (value : ClientState) :
    (Access.setState c value).draft d =
      some ((), d.setRecord { d.record with state := value }) :=
  if_pos h

theorem draft_setRoomIndex {c : ClientPtr N C} (h : d.client = some c)
    (value : Fin maxRooms) :
    (Access.setRoomIndex c value).draft d =
      some ((), d.setRecord { d.record with roomIndex := value }) :=
  if_pos h

/-! ### Code -/

theorem run_access {a : Access N C} {answer : a.Answer}
    {next : a.Answer → Code N C β} (ha : a.draft d = some (answer, d'))
    (h : (next answer).run (Phase.exec t) (.room d') = some out) :
    (access a >>= next).run (Phase.exec t) (.room d) = some out := by
  refine Prog.run_act ?_ h
  simp only [Phase.exec, ha, Option.map_some]

theorem run_unlock {next : Unit → Code N C β} (hi : i = d.index) (hd : d.Done)
    (h : (next ()).run (Phase.exec t) .out = some out) :
    (unlock t (.room i) >>= next).run (Phase.exec t) (.room d) = some out := by
  subst hi
  refine Prog.run_act ?_ h
  simp only [Phase.exec, hd, and_self, if_true]

theorem run_then {code : Code N C α} {value : α} {k : α → Code N C β}
    {g : Phase N C} (hcode : code.run (Phase.exec t) (.room d) = some (value, g))
    (h : (k value).run (Phase.exec t) g = some out) :
    (code >>= k).run (Phase.exec t) (.room d) = some out := by
  rw [Prog.run_bind, hcode]
  exact h

/-- A frame is sent: its descriptor is read and passed on. -/
theorem run_send {p : Parcel N C} {rest : List (Parcel N C)}
    {next : Unit → Code N C β} (hpending : d.pending = p :: rest)
    (hseated : p.Seated d.room)
    (h : (next ()).run (Phase.exec t) (.room (d.setPending rest)) = some out) :
    (access (.clientFd p.client) >>= fun clientFd =>
      access (.send p.origin clientFd p.cmdType p.message) >>= next).run
        (Phase.exec t) (.room d) = some out := by
  have hread : (Access.clientFd p.client).draft d = some (p.fd, d) := by
    simp [Access.draft, hpending]
  have hsend : (Access.send p.origin p.fd p.cmdType p.message).draft d =
      some ((), d.setPending rest) := by
    simp [Access.draft, hpending, hseated]
  exact run_access hread (run_access hsend h)

end Rules

/-! ## Names -/

section Names

variable {t : Thread N} {i : Fin maxRooms}

/-- `strcpy` leaves what was there before position `j` and the copied string. -/
theorem run_strcpyCode (value : Bytes) :
    ∀ (d : Draft N C) (j : Nat), i = d.index → j ≤ d.room.roomName.length →
      (strcpyCode i j value).run (Phase.exec t) (.room d) =
        some ((), .room (d.setRoom { d.room with
          roomName := d.room.roomName.take j ++ value })) := by
  induction value with
  | nil =>
      intro d j hi _
      rw [List.append_nil]
      exact run_access (draft_cutName hi j) rfl
  | cons byte rest ih =>
      intro d j hi hj
      let put := d.setRoom { d.room with
        roomName := putByte d.room.roomName j byte }
      have hname : put.room.roomName =
          d.room.roomName.take j ++ byte :: d.room.roomName.drop (j + 1) :=
        if_pos hj
      have htake : (d.room.roomName.take j).length = j :=
        List.length_take_of_le hj
      have hlen : j + 1 ≤ put.room.roomName.length := by
        rw [hname, List.length_append, htake, List.length_cons]
        omega
      have hstart : put.room.roomName.take (j + 1) =
          d.room.roomName.take j ++ [byte] := by
        rw [hname, List.take_append, htake, Nat.add_sub_cancel_left,
          List.take_of_length_le (by omega)]
        rfl
      have hrest := ih put (j + 1) hi hlen
      rw [hstart, List.append_assoc] at hrest
      exact run_access (draft_putName hi j byte) hrest

/-- An empty name stays empty. -/
theorem run_memsetCode_nil (positions : List Nat) {d : Draft N C}
    (hi : i = d.index) (hd : d.room.roomName = []) :
    (memsetCode i positions).run (Phase.exec t) (.room d) =
      some ((), .room d) := by
  induction positions with
  | nil => rfl
  | cons j rest ih =>
      have hsame : d.setRoom { d.room with
          roomName := d.room.roomName.take j } = d := by
        rw [hd, List.take_nil, ← hd]
        rfl
      have hcut := draft_cutName hi j
      rw [hsame] at hcut
      exact run_access hcut ih

/-- `memset` clears the name with its first byte. -/
theorem run_memsetCode (n : Nat) {d : Draft N C} (hi : i = d.index) :
    (memsetCode i (List.range (n + 1))).run (Phase.exec t) (.room d) =
      some ((), .room (d.setRoom { d.room with roomName := [] })) := by
  have hcut := draft_cutName hi 0
  rw [List.take_zero] at hcut
  rw [List.range_succ_eq_map]
  exact run_access hcut (run_memsetCode_nil _ hi rfl)

end Names

/-! ## Broadcasts -/

/-- The frame for a client. -/
def parcelTo (s : State N C) (origin : Origin) (c : ClientPtr N C)
    (cmdType : UInt8) (message : Bytes) : Parcel N C :=
  { origin := origin
    client := c
    fd := (s.clients c).clientFd
    conn := s.connOf c
    cmdType := cmdType
    message := message }

/-- The frames of a broadcast to the clients in the given seats. -/
def broadcastParcels (s : State N C) (room : Room N C) (i : Fin maxRooms)
    (client : ClientPtr N C) (msg : Bytes)
    (seats : List (Fin maxClientsRoom)) : List (Parcel N C) :=
  seats.filterMap fun j => (room.clients j).bind fun c =>
    if c = client then none else some (parcelTo s (.seat i j) c cmdRoomMsg msg)

section Broadcast

variable {s : State N C} {t : Thread N} {d : Draft N C}
  {client : ClientPtr N C} {msg : Bytes} {rest : List (Parcel N C)}

theorem broadcastParcels_call (s : State N C) (room : Room N C)
    (i : Fin maxRooms) (client : ClientPtr N C) (msg : Bytes) :
    (broadcastParcels s room i client msg
        (List.finRange maxClientsRoom)).map Parcel.call =
      (room.recipients client).map (roomSend s msg) := by
  unfold broadcastParcels Room.recipients
  generalize List.finRange maxClientsRoom = seats
  induction seats with
  | nil => rfl
  | cons j seats ih =>
      cases hj : room.clients j with
      | none => simpa [hj] using ih
      | some c =>
          by_cases hc : c = client
          · simpa [hj, hc] using ih
          · simpa [hj, hc, parcelTo, Parcel.call, roomSend] using ih

theorem mem_broadcastParcels {room : Room N C} {i : Fin maxRooms}
    {seats : List (Fin maxClientsRoom)} {p : Parcel N C}
    (hp : p ∈ broadcastParcels s room i client msg seats) :
    ∃ j c, room.clients j = some c ∧ c ≠ client ∧
      p = parcelTo s (.seat i j) c cmdRoomMsg msg := by
  obtain ⟨j, -, hj⟩ := List.mem_filterMap.mp hp
  obtain ⟨c, hc, hsome⟩ := Option.bind_eq_some_iff.mp hj
  split at hsome
  · cases hsome
  · rename_i hne
    exact ⟨j, c, hc, hne, (Option.some.inj hsome).symm⟩

/-- The loop of a broadcast sends its frames in their order. -/
theorem run_broadcastLoop (seats : List (Fin maxClientsRoom)) :
    ∀ d : Draft N C, d.pending =
        broadcastParcels s d.room d.index client msg seats ++ rest →
      (broadcastLoop d.index client msg seats).run (Phase.exec t) (.room d) =
        some ((), .room (d.setPending rest)) := by
  induction seats with
  | nil =>
      intro d hpending
      have hsame : d.setPending rest = d := by
        rw [Draft.setPending, ← show d.pending = rest from hpending]
      rw [hsame]
      rfl
  | cons j seats ih =>
      intro d hpending
      refine run_access (draft_slot rfl j) ?_
      cases hj : d.room.clients j with
      | none =>
          refine ih d ?_
          simpa [broadcastParcels, hj] using hpending
      | some c =>
          dsimp only
          by_cases hc : c = client
          · rw [if_pos hc]
            refine ih d ?_
            simpa [broadcastParcels, hj, hc] using hpending
          · rw [if_neg hc]
            have hnext : d.pending =
                parcelTo s (.seat d.index j) c cmdRoomMsg msg ::
                  (broadcastParcels s d.room d.index client msg seats ++
                    rest) := by
              simpa [broadcastParcels, hj, hc] using hpending
            exact run_send hnext hj (ih (d.setPending
              (broadcastParcels s d.room d.index client msg seats ++ rest)) rfl)

theorem run_broadcastCode (hpending : d.pending =
      broadcastParcels s d.room d.index client msg
        (List.finRange maxClientsRoom) ++ rest) :
    (broadcastCode d.index client msg).run (Phase.exec t) (.room d) =
      some ((), .room (d.setPending rest)) :=
  run_access rfl (run_broadcastLoop _ d hpending)

end Broadcast

/-! ## The sections -/

/-- The client an action on a room is for. -/
def Act.client? : Act N C → Option (ClientPtr N C)
  | .createSection _ c .. | .joinSection _ c _ | .chatSection _ c _
  | .leaveSection _ c | .leaveOkSection _ c => some c
  | _ => none

/-- The frames a section sends, in their order. -/
def Act.parcels (s : State N C) : Act N C → List (Parcel N C)
  | .createSection i c _ successMsg =>
      if (s.rooms i).inUse then []
      else [parcelTo s (.room i) c cmdRoomCreateOk successMsg]
  | .joinSection i c joinMsg =>
      if (s.rooms i).inUse = false then
        [parcelTo s (.room i) c errRoomNotFound (text "Room does not exist\n")]
      else if (s.rooms i).numClients = maxClientsRoom then
        [parcelTo s (.room i) c errRoomCapacityFull
          (text "Cannot join room: Room is full\n")]
      else
        match (s.rooms i).freeSlot? with
        | none => []
        | some j =>
            broadcastParcels s ((s.rooms i).added j c) i c joinMsg
                (List.finRange maxClientsRoom) ++
              [parcelTo s (.room i) c cmdRoomJoinOk
                (text "Successfully joined room\n")]
  | .chatSection i c msg =>
      broadcastParcels s (s.rooms i) i c msg (List.finRange maxClientsRoom)
  | .leaveSection i c =>
      broadcastParcels s ((s.rooms i).remove c) i c
        (clientLeftText (s.clients c).name) (List.finRange maxClientsRoom)
  | .leaveOkSection i c =>
      [parcelTo s (.room i) c cmdRoomLeaveOk (text "You have left the room\n")]
  | _ => []

/-- The record of the client, if there is one. -/
def State.recordOf (s : State N C) : Option (ClientPtr N C) → Client
  | some c => s.clients c
  | none => Client.zero

/-- The draft a section that leads from `s` to `s'` starts with. -/
def Act.draft (a : Act N C) (s s' : State N C) (i : Fin maxRooms) :
    Draft N C :=
  { index := i
    client := a.client?
    room := s.rooms i
    record := s.recordOf a.client?
    pending := a.parcels s
    target := s'.rooms i
    final := s'.recordOf a.client? }

/-- After its lock, the code ends with the answer, having made of the draft what
it has to become. -/
def Performs (t : Thread N) (d : Draft N C) {α : Type} (code : Code N C α)
    (answer : α) : Prop :=
  ∃ next, code = .act (.lock t (.room d.index)) next ∧
    (next ()).run (Phase.exec t) (.room d) = some (answer, .out)

section Sections

variable {s s' : State N C} {t : Thread N} {i : Fin maxRooms}
  {c : ClientPtr N C}

theorem performs_of_run {d : Draft N C} {α : Type} {code : Code N C α}
    {answer : α}
    (h : code.run (Phase.exec t) (.room d) = some (answer, .out)) :
    Performs t d (lock t (.room d.index) >>= fun _ => code) answer :=
  ⟨_, rfl, h⟩

theorem performs_createCode {roomName successMsg : Bytes} {d : Draft N C}
    (hclient : d.client = some c) (hfree : d.room.inUse = false)
    (hpending : d.pending =
      [parcelTo s (.room d.index) c cmdRoomCreateOk successMsg])
    (htarget : d.target = d.room.opened c roomName)
    (hfinal : d.final = d.record.entered d.index) :
    Performs t d (createCode t d.index c roomName successMsg) true := by
  refine performs_of_run (run_access (draft_inUse rfl) ?_)
  rw [hfree]
  refine run_access (draft_setInUse rfl true) ?_
  refine run_access (draft_setNumClients (by rfl) 1) ?_
  refine run_then (run_strcpyCode roomName _ 0 (by rfl) (Nat.zero_le _)) ?_
  refine run_access (draft_setRoomIndex (by exact hclient) d.index) ?_
  refine run_access (draft_setSlot (by rfl) (.inr (by exact hclient.symm))
    ⟨0, by decide⟩) ?_
  refine run_access (draft_setState (by exact hclient) .inChatRoom) ?_
  refine run_send (p := parcelTo s (.room d.index) c cmdRoomCreateOk successMsg)
    (by exact hpending) trivial ?_
  exact run_unlock (by rfl) (by exact ⟨htarget.symm, hfinal.symm, rfl⟩) rfl

/-- A section that finds nothing to do. -/
theorem performs_createCode_inUse {roomName successMsg : Bytes}
    {d : Draft N C} (hu : d.room.inUse = true) (hdone : d.Done) :
    Performs t d (createCode t d.index c roomName successMsg) false := by
  refine performs_of_run (run_access (draft_inUse rfl) ?_)
  rw [hu]
  exact run_unlock rfl hdone rfl

theorem performs_listCode {roomListMsg : Bytes} {d : Draft N C}
    (hdone : d.Done) :
    Performs t d (listCode t d.index roomListMsg)
      (if d.room.inUse then
        some (roomListMsg ++ roomEntryText d.index d.room.roomName)
      else none) := by
  refine performs_of_run (run_access (draft_inUse rfl) ?_)
  cases hu : d.room.inUse with
  | false => exact run_unlock rfl hdone rfl
  | true => exact run_access (draft_roomName rfl) (run_unlock rfl hdone rfl)

theorem performs_leaveOkCode {d : Draft N C}
    (hpending : d.pending = [parcelTo s (.room d.index) c cmdRoomLeaveOk
      (text "You have left the room\n")])
    (htarget : d.target = d.room) (hfinal : d.final = d.record) :
    Performs t d (leaveOkCode t d.index c) () := by
  refine performs_of_run (run_send hpending trivial ?_)
  exact run_unlock (d := d.setPending []) rfl
    ⟨htarget.symm, hfinal.symm, rfl⟩ rfl

theorem performs_chatCode {msg : Bytes} {d : Draft N C}
    (hpending : d.pending = broadcastParcels s d.room d.index c msg
      (List.finRange maxClientsRoom))
    (htarget : d.target = d.room) (hfinal : d.final = d.record) :
    Performs t d (chatCode t d.index c msg) () := by
  have hbroadcast : (broadcastCode d.index c msg).run (Phase.exec t)
      (.room d) = some ((), .room (d.setPending [])) :=
    run_broadcastCode (s := s) (by simpa using hpending)
  refine performs_of_run (run_then hbroadcast ?_)
  exact run_unlock (d := d.setPending []) rfl ⟨htarget.symm, hfinal.symm, rfl⟩ rfl

/-! ### Joining -/

/-- A seat that is taken is passed over. -/
theorem run_joinLoop_full {joinMsg : Bytes} {d : Draft N C}
    (seats : List (Fin maxClientsRoom))
    (hfull : (seats.find? fun j => (d.room.clients j).isNone) = none) :
    (joinLoop d.index c joinMsg seats).run (Phase.exec t) (.room d) =
      some ((), .room d) := by
  induction seats with
  | nil => rfl
  | cons j seats ih =>
      refine run_access (draft_slot rfl j) ?_
      cases hj : d.room.clients j with
      | none => simp [hj] at hfull
      | some e => exact ih (by simpa [hj] using hfull)

theorem run_joinLoop {joinMsg : Bytes} {d : Draft N C}
    (hclient : d.client = some c) (seats : List (Fin maxClientsRoom))
    {j : Fin maxClientsRoom}
    (hj : (seats.find? fun j => (d.room.clients j).isNone) = some j)
    (hpending : d.pending =
      broadcastParcels s (d.room.added j c) d.index c joinMsg
          (List.finRange maxClientsRoom) ++
        [parcelTo s (.room d.index) c cmdRoomJoinOk
          (text "Successfully joined room\n")]) :
    (joinLoop d.index c joinMsg seats).run (Phase.exec t) (.room d) =
      some ((), .room { d with
        room := d.room.added j c
        record := d.record.entered d.index
        pending := [] }) := by
  induction seats with
  | nil => cases hj
  | cons k seats ih =>
      refine run_access (draft_slot rfl k) ?_
      cases hk : d.room.clients k with
      | some e => exact ih (by simpa [hk] using hj)
      | none =>
          have hkj : k = j := by simpa [hk] using hj
          subst hkj
          refine run_access (draft_setSlot rfl (.inr hclient.symm) k) ?_
          refine run_access (draft_numClients (by rfl)) ?_
          refine run_access (draft_setNumClients (by rfl) _) ?_
          refine run_access (draft_roomName (by rfl)) ?_
          refine run_then (run_broadcastCode (s := s) hpending) ?_
          refine run_send (p := parcelTo s (.room d.index) c cmdRoomJoinOk _)
            rfl trivial ?_
          refine run_access (draft_setState (by exact hclient) .inChatRoom) ?_
          exact run_access (draft_setRoomIndex (by exact hclient) d.index) rfl

theorem performs_joinCode {joinMsg : Bytes} {d : Draft N C}
    {j : Fin maxClientsRoom} (hclient : d.client = some c)
    (hu : d.room.inUse = true) (hn : d.room.numClients ≠ maxClientsRoom)
    (hj : d.room.freeSlot? = some j)
    (hpending : d.pending =
      broadcastParcels s (d.room.added j c) d.index c joinMsg
          (List.finRange maxClientsRoom) ++
        [parcelTo s (.room d.index) c cmdRoomJoinOk
          (text "Successfully joined room\n")])
    (htarget : d.target = d.room.added j c)
    (hfinal : d.final = d.record.entered d.index) :
    Performs t d (joinCode t d.index c joinMsg) () := by
  refine performs_of_run (run_access (draft_inUse rfl) ?_)
  rw [if_neg (by simp [hu])]
  refine run_access (draft_numClients rfl) ?_
  rw [if_neg hn]
  refine run_then (run_joinLoop hclient _ hj hpending) ?_
  exact run_unlock (d := { d with room := _, record := _, pending := [] }) rfl
    ⟨htarget.symm, hfinal.symm, rfl⟩ rfl

theorem performs_joinCode_full {joinMsg : Bytes} {d : Draft N C}
    (hu : d.room.inUse = true) (hn : d.room.numClients ≠ maxClientsRoom)
    (hj : d.room.freeSlot? = none) (hdone : d.Done) :
    Performs t d (joinCode t d.index c joinMsg) () := by
  refine performs_of_run (run_access (draft_inUse rfl) ?_)
  rw [if_neg (by simp [hu])]
  refine run_access (draft_numClients rfl) ?_
  rw [if_neg hn]
  exact run_then (run_joinLoop_full _ hj) (run_unlock rfl hdone rfl)

/-- A refused join answers with one frame. -/
theorem performs_joinCode_refused {joinMsg : Bytes} {d : Draft N C}
    (hpending : d.pending =
      if d.room.inUse = false then
        [parcelTo s (.room d.index) c errRoomNotFound
          (text "Room does not exist\n")]
      else
        [parcelTo s (.room d.index) c errRoomCapacityFull
          (text "Cannot join room: Room is full\n")])
    (h : d.room.inUse = false ∨ d.room.numClients = maxClientsRoom)
    (htarget : d.target = d.room) (hfinal : d.final = d.record) :
    Performs t d (joinCode t d.index c joinMsg) () := by
  have hdone : (d.setPending []).Done := ⟨htarget.symm, hfinal.symm, rfl⟩
  refine performs_of_run (run_access (draft_inUse rfl) ?_)
  by_cases hu : d.room.inUse = false
  · rw [if_pos hu] at hpending ⊢
    exact run_send hpending trivial (run_unlock rfl hdone rfl)
  · rw [if_neg hu] at hpending ⊢
    refine run_access (draft_numClients rfl) ?_
    rw [if_pos (h.resolve_left hu)]
    refine run_access (draft_roomName rfl) ?_
    refine run_access (draft_numClients rfl) ?_
    exact run_send hpending trivial (run_unlock rfl hdone rfl)

/-! ### Leaving -/

theorem run_leaveLoop {d : Draft N C} (seats : List (Fin maxClientsRoom)) :
    (leaveLoop d.index c seats).run (Phase.exec t) (.room d) =
      some ((), .room (d.setRoom
        (match seats.find? fun j => d.room.clients j = some c with
        | none => d.room
        | some j =>
            { d.room with
              clients := Function.update d.room.clients j none
              numClients := d.room.numClients - 1 }))) := by
  induction seats with
  | nil => rfl
  | cons j seats ih =>
      refine run_access (draft_slot rfl j) ?_
      by_cases hj : d.room.clients j = some c
      · rw [if_pos hj, List.find?_cons_of_pos (by simpa using hj)]
        refine run_access (draft_setSlot rfl (.inl rfl) j) ?_
        refine run_access (draft_numClients (by rfl)) ?_
        exact run_access (draft_setNumClients (by rfl) _) rfl
      · rw [if_neg hj, List.find?_cons_of_neg (by simpa using hj)]
        exact ih

theorem performs_leaveCode {d : Draft N C} (hclient : d.client = some c)
    (hpending : d.pending =
      broadcastParcels s (d.room.remove c) d.index c
        (clientLeftText d.record.name) (List.finRange maxClientsRoom))
    (htarget : d.target = (d.room.remove c).cleanUp)
    (hfinal : d.final = d.record) :
    ∃ next, leaveCode t d.index c = .act (.step (.roomName d.index)) next ∧
      ∀ name, Performs t d (next name) () := by
  refine ⟨_, rfl, fun _ => ?_⟩
  refine performs_of_run (run_access (draft_clientName hclient) ?_)
  refine run_then (run_leaveLoop _) ?_
  refine run_access (draft_numClients (by rfl)) ?_
  have hbroadcast : (broadcastCode d.index c
      (clientLeftText d.record.name)).run (Phase.exec t)
        (.room (d.setRoom (d.room.remove c))) =
      some ((), .room ((d.setRoom (d.room.remove c)).setPending [])) :=
    run_broadcastCode (s := s) (by rw [List.append_nil]; exact hpending)
  refine run_then hbroadcast ?_
  refine run_access (draft_numClients (by rfl)) ?_
  unfold Room.cleanUp at htarget
  split
  case isTrue hzero =>
    have hzero : (d.room.remove c).numClients = 0 := hzero
    rw [if_pos hzero] at htarget
    refine run_access (draft_roomName (by rfl)) ?_
    refine run_then (run_memsetCode maxRoomNameLen (by rfl)) ?_
    refine run_access (draft_clearSlots (by rfl)) ?_
    refine run_access (draft_setInUse (by rfl) false) ?_
    exact run_unlock (by rfl)
      (by exact ⟨htarget.symm, hfinal.symm, rfl⟩) rfl
  case isFalse hne =>
    have hne : (d.room.remove c).numClients ≠ 0 := hne
    rw [if_neg hne] at htarget
    exact run_unlock (by rfl)
      (by exact ⟨htarget.symm, hfinal.symm, rfl⟩) rfl

/-! ### Every section -/

/-- The frames of a section are what the action appends to the calls. -/
theorem parcels_call {a : Act N C} {b : a.Answer} (hroom : a.room? = some i)
    (he : exec a s = some (b, s')) :
    s'.calls = s.calls ++ (a.parcels s).map Parcel.call := by
  cases a <;> simp only [Act.room?, Option.some.injEq, reduceCtorEq] at hroom
  all_goals subst hroom
  case createSection i c roomName successMsg =>
    obtain ⟨hu, -, rfl⟩ | ⟨hu, -, rfl⟩ := exec_createSection he
    · simp [Act.parcels, hu]
    · simp [Act.parcels, hu, State.afterCreate, parcelTo, Parcel.call]
  case listSection i msg =>
    obtain ⟨-, -, rfl⟩ | ⟨-, -, rfl⟩ := exec_listSection he
    all_goals simp [Act.parcels]
  case joinSection i c joinMsg =>
    simp only [exec, Option.some.injEq, Prod.mk.injEq] at he
    obtain ⟨-, rfl⟩ := he
    simp only [Act.parcels]
    by_cases hu : (s.rooms i).inUse = false
    · simp [joinSection, hu, sendMessageToClient, parcelTo, Parcel.call,
        State.connOf]
    by_cases hn : (s.rooms i).numClients = maxClientsRoom
    · simp [joinSection, hu, hn, sendMessageToClient, parcelTo, Parcel.call,
        State.connOf]
    rw [if_neg hu, if_neg hn]
    rw [Bool.not_eq_false] at hu
    cases hj : (s.rooms i).freeSlot? with
    | none =>
        unfold Room.freeSlot? at hj
        simp [joinSection, hu, hn, hj]
    | some j =>
        rw [joinSection_of_slot hu hn hj]
        simp [State.afterJoin, broadcastParcels_call, parcelTo, Parcel.call]
  case chatSection i c msg =>
    rw [exec_chatSection he]
    simp [State.afterChat, Act.parcels, broadcastParcels_call]
  case leaveSection i c =>
    rw [exec_leaveSection he]
    simp [State.afterLeave, Act.parcels, broadcastParcels_call]
  case leaveOkSection i c =>
    cases he
    rfl

/-- The code of a section does what the action does; `leave_room` reads
`room_name` before its lock. -/
theorem performs_implement {a : Act N C} {b : a.Answer}
    (hroom : a.room? = some i) (hleave : ∀ k d, a ≠ .leaveSection k d)
    (he : exec a s = some (b, s')) :
    Performs t (a.draft s s' i) (implement t a) b := by
  cases a <;> simp only [Act.room?, Option.some.injEq, reduceCtorEq] at hroom
  all_goals subst hroom
  case leaveSection i c => exact absurd rfl (hleave i c)
  case createSection i c roomName successMsg =>
    obtain ⟨hu, rfl, hs'⟩ | ⟨hu, rfl, hs'⟩ := exec_createSection he
    · subst hs'
      refine performs_createCode_inUse (d := Act.draft _ s' s' i) hu
        ⟨rfl, rfl, ?_⟩
      simp [Act.draft, Act.parcels, hu]
    · subst hs'
      refine performs_createCode (s := s) rfl hu ?_ ?_ ?_
      · simp [Act.draft, Act.parcels, hu]
      · simp [Act.draft, State.afterCreate]
      · simp [Act.draft, State.afterCreate, State.recordOf, Act.client?]
  case listSection i msg =>
    have hsame : s'.rooms = s.rooms ∧ b = if (s.rooms i).inUse then
        some (msg ++ roomEntryText i (s.rooms i).roomName) else none := by
      obtain ⟨hu, rfl, rfl⟩ | ⟨hu, rfl, rfl⟩ := exec_listSection he
      all_goals simp [hu]
    rw [hsame.2]
    refine performs_listCode (d := Act.draft _ s s' i) ⟨?_, rfl, rfl⟩
    simp [Act.draft, hsame.1]
  case joinSection i c joinMsg =>
    simp only [exec, Option.some.injEq, Prod.mk.injEq] at he
    obtain ⟨-, rfl⟩ := he
    by_cases hrefused : (s.rooms i).inUse = false ∨
        (s.rooms i).numClients = maxClientsRoom
    · obtain ⟨r, -, hr⟩ := joinSection_refused hrefused c joinMsg
      rw [hr]
      have hpending : (Act.joinSection i c joinMsg).parcels s =
          if (s.rooms i).inUse = false then
            [parcelTo s (.room i) c errRoomNotFound
              (text "Room does not exist\n")]
          else
            [parcelTo s (.room i) c errRoomCapacityFull
              (text "Cannot join room: Room is full\n")] := by
        by_cases hu : (s.rooms i).inUse = false
        · simp [Act.parcels, hu]
        · simp [Act.parcels, hu, hrefused.resolve_left hu]
      exact performs_joinCode_refused (s := s) hpending hrefused rfl rfl
    · rw [not_or, Bool.not_eq_false] at hrefused
      obtain ⟨hu, hn⟩ := hrefused
      cases hj : (s.rooms i).freeSlot? with
      | none =>
          have hsame : joinSection s i c joinMsg = s := by
            unfold Room.freeSlot? at hj
            simp [joinSection, hu, hn, hj]
          rw [hsame]
          refine performs_joinCode_full (d := Act.draft _ s s i) hu hn hj
            ⟨rfl, rfl, ?_⟩
          simp [Act.draft, Act.parcels, hu, hn, hj]
      | some j =>
          rw [joinSection_of_slot hu hn hj]
          refine performs_joinCode (s := s) rfl hu hn hj ?_ ?_ ?_
          · simp [Act.draft, Act.parcels, hu, hn, hj]
          · simp [Act.draft, State.afterJoin]
          · simp [Act.draft, State.afterJoin, State.recordOf, Act.client?]
  case chatSection i c msg =>
    rw [exec_chatSection he]
    exact performs_chatCode (s := s) rfl rfl rfl
  case leaveOkSection i c =>
    cases he
    exact performs_leaveOkCode (s := s) rfl rfl rfl

theorem performs_implement_leave {b : Unit}
    (he : exec (.leaveSection i c) s = some (b, s')) :
    ∃ next, implement t (.leaveSection i c) =
        .act (.step (.roomName i)) next ∧
      ∀ name, Performs t ((Act.leaveSection i c).draft s s' i) (next name) b := by
  rw [exec_leaveSection he]
  refine performs_leaveCode (s := s)
    (d := (Act.leaveSection i c).draft s (s.afterLeave i c) i) rfl rfl ?_ rfl
  simp [Act.draft, State.afterLeave]

end Sections

end ChatApp.Server
