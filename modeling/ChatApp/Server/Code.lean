import ChatApp.Foundation.Locks
import ChatApp.Server.System

/-!
# The critical sections, access by access

In `Server/Actions.lean` a critical section is one action.  Here it is the
program the source spells out: taking the lock, every read and write of a
`struct Room`, of `num_of_clients` and of other clients' records, every call of
`send_message_to_client`, and giving the lock back.  Other threads may run
between any two of these.  `implement` replaces the actions of the routines by
these programs and leaves alone what was a single access already.

The log lines of the source count as accesses of what they print.  The reads of
one slot that a round of a loop makes in succession are one read.  `strcpy` and
`memset` write `room_name` byte by byte.
-/

namespace ChatApp.Server

open ChatApp.Foundation

variable {N C : Nat}

/-! ## The shared memory -/

/-- Where a frame is sent from: outside the rooms' sections, in the section of
a room, or by its broadcast to the client in one of its seats. -/
inductive Origin where
  | reply
  | room (i : Fin maxRooms)
  | seat (i : Fin maxRooms) (j : Fin maxClientsRoom)
  deriving DecidableEq

/-- A system call and where it was made. -/
structure Call where
  origin : Origin
  call : SysCall

/-- The memory the threads share, and the kernel: what `State` says of them
without program points and journal.  `seats` remembers for each entry of a
room's `clients` array the connection it was filled for; no routine reads
it. -/
structure Memory (N C : Nat) where
  rooms : Fin maxRooms → Room N C
  clients : ClientPtr N C → Client
  numOfClients : Fin N → Int
  notification : Fin N → Nat
  newClient : Fin N → Nat
  workerIndex : Fin N
  conns : Fd → Option Conn
  accepted : Nat
  calls : List Call
  seats : Fin maxRooms → Fin maxClientsRoom → Option Conn

/-- The memory after `init_server_rooms` and `setup_threads`. -/
def Memory.init (N C : Nat) [NeZero N] : Memory N C :=
  { rooms := fun _ => Room.zero N C
    clients := fun _ => Client.zero
    numOfClients := fun _ => 0
    notification := fun _ => 0
    newClient := fun _ => 1
    workerIndex := 0
    conns := fun _ => none
    accepted := 0
    calls := []
    seats := fun _ _ => none }

/-- The memory as a state, for actions that are one access. -/
def Memory.state (m : Memory N C) : State N C :=
  { rooms := m.rooms
    clients := m.clients
    point := fun _ => .idle
    numOfClients := m.numOfClients
    notification := m.notification
    newClient := m.newClient
    workerIndex := m.workerIndex
    main := .idle
    conns := m.conns
    accepted := m.accepted
    calls := []
    journal := [] }

/-- The memory after such an action. -/
def Memory.after (m : Memory N C) (s : State N C) : Memory N C :=
  { rooms := s.rooms
    clients := s.clients
    numOfClients := s.numOfClients
    notification := s.notification
    newClient := s.newClient
    workerIndex := s.workerIndex
    conns := s.conns
    accepted := s.accepted
    calls := m.calls ++ s.calls.map fun call => ⟨.reply, call⟩
    seats := m.seats }

/-! ## Accesses -/

/-- The string in an array after a character is written at position `j`: what is
behind its end is zeroed. -/
def putByte (name : Bytes) (j : Nat) (byte : UInt8) : Bytes :=
  if j ≤ name.length then name.take j ++ byte :: name.drop (j + 1) else name

/-- `room_lock` and `num_of_clients_lock`. -/
inductive Lock (N : Nat) where
  | room (i : Fin maxRooms)
  | count (w : Fin N)
  deriving DecidableEq

/-- The action is a critical section. -/
def Act.isSection : Act N C → Bool
  | .createSection .. | .listSection .. | .joinSection .. | .chatSection ..
  | .leaveSection .. | .leaveOkSection .. | .subtractZeroed _
  | .subtractUnread _ | .subtractRefused .. | .inspectWorker _
  | .subtractFailed _ => true
  | _ => false

/-- One access to the shared memory, one call of `send_message_to_client`, or
an action that is no critical section.  `putName` writes a character of a room's
`room_name`, `cutName` a zero byte; `broadcast` is the entry of
`broadcast_message_in_room` with its log line, `clearSlots` the `memset` of a
room's `clients`. -/
inductive Access (N C : Nat) where
  | inUse (i : Fin maxRooms)
  | setInUse (i : Fin maxRooms) (value : Bool)
  | numClients (i : Fin maxRooms)
  | setNumClients (i : Fin maxRooms) (value : Int)
  | slot (i : Fin maxRooms) (j : Fin maxClientsRoom)
  | setSlot (i : Fin maxRooms) (j : Fin maxClientsRoom)
      (value : Option (ClientPtr N C))
  | clearSlots (i : Fin maxRooms)
  | roomName (i : Fin maxRooms)
  | putName (i : Fin maxRooms) (j : Nat) (byte : UInt8)
  | cutName (i : Fin maxRooms) (j : Nat)
  | broadcast (i : Fin maxRooms)
  | clientFd (client : ClientPtr N C)
  | clientName (client : ClientPtr N C)
  | setState (client : ClientPtr N C) (value : ClientState)
  | setRoomIndex (client : ClientPtr N C) (value : Fin maxRooms)
  | workerIndex
  | numOfClients (w : Fin N)
  | setNumOfClients (w : Fin N) (value : Int)
  | send (origin : Origin) (fd : Fd) (cmdType : UInt8) (message : Bytes)
  | plain (a : Act N C) (h : a.isSection = false)

/-- The frame of a call of `send_message_to_client`. -/
def outgoing : LockAct (Thread N) (Lock N) (Access N C) →
    Option (Fd × UInt8 × Bytes)
  | .step (.send _ fd cmdType message) => some (fd, cmdType, message)
  | .step (.plain (.send fd cmdType message) _) => some (fd, cmdType, message)
  | _ => none

/-- The call is made with the lock of a room held. -/
def underLock : LockAct (Thread N) (Lock N) (Access N C) → Bool
  | .step (.send ..) => true
  | _ => false

abbrev Access.Answer : Access N C → Type
  | .inUse _ => Bool
  | .numClients _ | .numOfClients _ => Int
  | .slot .. => Option (ClientPtr N C)
  | .roomName _ | .clientName _ => Bytes
  | .clientFd _ => Fd
  | .workerIndex => Fin N
  | .plain a _ => a.Answer
  | _ => Unit

namespace Memory

def setRoom (m : Memory N C) (i : Fin maxRooms) (room : Room N C) :
    Memory N C :=
  { m with rooms := Function.update m.rooms i room }

def setClient (m : Memory N C) (c : ClientPtr N C) (record : Client) :
    Memory N C :=
  { m with clients := Function.update m.clients c record }

def setSeats (m : Memory N C) (i : Fin maxRooms)
    (seats : Fin maxClientsRoom → Option Conn) : Memory N C :=
  { m with seats := Function.update m.seats i seats }

end Memory

/-- The effect and the answer of an access. -/
def Access.exec : (a : Access N C) → Memory N C →
    Option (a.Answer × Memory N C)
  | .inUse i, m => some ((m.rooms i).inUse, m)
  | .setInUse i value, m =>
      some ((), m.setRoom i { m.rooms i with inUse := value })
  | .numClients i, m => some ((m.rooms i).numClients, m)
  | .setNumClients i value, m =>
      some ((), m.setRoom i { m.rooms i with numClients := value })
  | .slot i j, m => some ((m.rooms i).clients j, m)
  | .setSlot i j value, m =>
      some ((), (m.setRoom i { m.rooms i with
        clients := Function.update (m.rooms i).clients j value }).setSeats i
          (Function.update (m.seats i) j
            (value.bind fun c => m.conns (m.clients c).clientFd)))
  | .clearSlots i, m =>
      some ((), (m.setRoom i { m.rooms i with
        clients := fun _ => none }).setSeats i fun _ => none)
  | .roomName i, m => some ((m.rooms i).roomName, m)
  | .putName i j byte, m =>
      some ((), m.setRoom i { m.rooms i with
        roomName := putByte (m.rooms i).roomName j byte })
  | .cutName i j, m =>
      some ((), m.setRoom i { m.rooms i with
        roomName := (m.rooms i).roomName.take j })
  | .broadcast _, m => some ((), m)
  | .clientFd c, m => some ((m.clients c).clientFd, m)
  | .clientName c, m => some ((m.clients c).name, m)
  | .setState c value, m =>
      some ((), m.setClient c { m.clients c with state := value })
  | .setRoomIndex c value, m =>
      some ((), m.setClient c { m.clients c with roomIndex := value })
  | .workerIndex, m => some (m.workerIndex, m)
  | .numOfClients w, m => some (m.numOfClients w, m)
  | .setNumOfClients w value, m =>
      some ((), { m with
        numOfClients := Function.update m.numOfClients w value })
  | .send origin fd cmdType message, m =>
      some ((), { m with
        calls := m.calls ++
          [⟨origin, .send fd (m.conns fd) cmdType message⟩] })
  | .plain a _, m =>
      (Server.exec a m.state).map fun out => (out.1, m.after out.2)

/-! ## The code of the critical sections -/

/-- What a thread executes, access by access. -/
abbrev Code (N C : Nat) : Type → Type :=
  LockProg (Thread N) (Lock N) (Access N C) Access.Answer

def access (a : Access N C) : Code N C a.Answer :=
  Prog.perform (A := LockAct (Thread N) (Lock N) (Access N C)) (.step a)

def lock (t : Thread N) (l : Lock N) : Code N C Unit :=
  Prog.perform (A := LockAct (Thread N) (Lock N) (Access N C)) (.lock t l)

def unlock (t : Thread N) (l : Lock N) : Code N C Unit :=
  Prog.perform (A := LockAct (Thread N) (Lock N) (Access N C)) (.unlock t l)

section Sections

variable (t : Thread N)

/-- The loop of `broadcast_message_in_room` over the seats still to visit. -/
def broadcastLoop (i : Fin maxRooms) (client : ClientPtr N C) (msg : Bytes) :
    List (Fin maxClientsRoom) → Code N C Unit
  | [] => pure ()
  | j :: rest => do
      match ← access (.slot i j) with
      | none => broadcastLoop i client msg rest
      | some c =>
          if c = client then broadcastLoop i client msg rest
          else
            let clientFd ← access (.clientFd c)
            access (.send (.seat i j) clientFd cmdRoomMsg msg)
            broadcastLoop i client msg rest

def broadcastCode (i : Fin maxRooms) (client : ClientPtr N C) (msg : Bytes) :
    Code N C Unit := do
  access (.broadcast i)
  broadcastLoop i client msg (List.finRange maxClientsRoom)

/-- `strcpy` to a room's `room_name`, from position `j` on. -/
def strcpyCode (i : Fin maxRooms) (j : Nat) : Bytes → Code N C Unit
  | [] => access (.cutName i j)
  | byte :: rest => do
      access (.putName i j byte)
      strcpyCode i (j + 1) rest

/-- `memset` of a room's `room_name`, over the positions still to clear. -/
def memsetCode (i : Fin maxRooms) : List Nat → Code N C Unit
  | [] => pure ()
  | j :: rest => do
      access (.cutName i j)
      memsetCode i rest

/-- The body of the loop of `create_chat_room`. -/
def createCode (i : Fin maxRooms) (client : ClientPtr N C)
    (roomName successMsg : Bytes) : Code N C Bool := do
  lock t (.room i)
  let inUse ← access (.inUse i)
  if inUse then
    unlock t (.room i)
    return false
  else
    access (.setInUse i true)
    access (.setNumClients i 1)
    strcpyCode i 0 roomName
    access (.setRoomIndex client i)
    access (.setSlot i ⟨0, maxClientsRoom_pos⟩ (some client))
    access (.setState client .inChatRoom)
    let clientFd ← access (.clientFd client)
    access (.send (.room i) clientFd cmdRoomCreateOk successMsg)
    unlock t (.room i)
    return true

/-- The body of the loop of `send_avail_rooms`. -/
def listCode (i : Fin maxRooms) (roomListMsg : Bytes) :
    Code N C (Option Bytes) := do
  lock t (.room i)
  let inUse ← access (.inUse i)
  if inUse then
    let roomName ← access (.roomName i)
    unlock t (.room i)
    return some (roomListMsg ++ roomEntryText i roomName)
  else
    unlock t (.room i)
    return none

/-- The loop of `join_chat_room` over the seats still to visit. -/
def joinLoop (i : Fin maxRooms) (client : ClientPtr N C) (joinMsg : Bytes) :
    List (Fin maxClientsRoom) → Code N C Unit
  | [] => pure ()
  | j :: rest => do
      match ← access (.slot i j) with
      | some _ => joinLoop i client joinMsg rest
      | none =>
          access (.setSlot i j (some client))
          let numClients ← access (.numClients i)
          access (.setNumClients i (numClients + 1))
          let _ ← access (.roomName i)
          broadcastCode i client joinMsg
          let clientFd ← access (.clientFd client)
          access (.send (.room i) clientFd cmdRoomJoinOk
            (text "Successfully joined room\n"))
          access (.setState client .inChatRoom)
          access (.setRoomIndex client i)

/-- `join_chat_room` from its lock on. -/
def joinCode (i : Fin maxRooms) (client : ClientPtr N C) (joinMsg : Bytes) :
    Code N C Unit := do
  lock t (.room i)
  let inUse ← access (.inUse i)
  if inUse = false then
    let clientFd ← access (.clientFd client)
    access (.send (.room i) clientFd errRoomNotFound
      (text "Room does not exist\n"))
    unlock t (.room i)
  else
    let numClients ← access (.numClients i)
    if numClients = maxClientsRoom then
      let _ ← access (.roomName i)
      let _ ← access (.numClients i)
      let clientFd ← access (.clientFd client)
      access (.send (.room i) clientFd errRoomCapacityFull
        (text "Cannot join room: Room is full\n"))
      unlock t (.room i)
    else
      joinLoop i client joinMsg (List.finRange maxClientsRoom)
      unlock t (.room i)

/-- The loop of `leave_room` over the seats still to visit. -/
def leaveLoop (i : Fin maxRooms) (client : ClientPtr N C) :
    List (Fin maxClientsRoom) → Code N C Unit
  | [] => pure ()
  | j :: rest => do
      let c ← access (.slot i j)
      if c = some client then
        access (.setSlot i j none)
        let numClients ← access (.numClients i)
        access (.setNumClients i (numClients - 1))
      else leaveLoop i client rest

/-- `leave_room`; its first log line reads `room_name` without the lock. -/
def leaveCode (i : Fin maxRooms) (client : ClientPtr N C) :
    Code N C Unit := do
  let _ ← access (.roomName i)
  lock t (.room i)
  let name ← access (.clientName client)
  leaveLoop i client (List.finRange maxClientsRoom)
  let _ ← access (.numClients i)
  broadcastCode i client (clientLeftText name)
  let numClients ← access (.numClients i)
  if numClients = 0 then
    let _ ← access (.roomName i)
    memsetCode i (List.range (maxRoomNameLen + 1))
    access (.clearSlots i)
    access (.setInUse i false)
    unlock t (.room i)
  else unlock t (.room i)

/-- The broadcast of a chat line in `handle_in_chat_room`. -/
def chatCode (i : Fin maxRooms) (client : ClientPtr N C) (msg : Bytes) :
    Code N C Unit := do
  lock t (.room i)
  broadcastCode i client msg
  unlock t (.room i)

/-- The confirmation of leaving in `handle_in_chat_room`. -/
def leaveOkCode (i : Fin maxRooms) (client : ClientPtr N C) :
    Code N C Unit := do
  lock t (.room i)
  let clientFd ← access (.clientFd client)
  access (.send (.room i) clientFd cmdRoomLeaveOk
    (text "You have left the room\n"))
  unlock t (.room i)

/-- `num_of_clients--` under its lock. -/
def subtractCode (w : Fin N) : Code N C Unit := do
  lock t (.count w)
  let numOfClients ← access (.numOfClients w)
  access (.setNumOfClients w (numOfClients - 1))
  unlock t (.count w)

/-- One inspection of `find_worker_not_at_capacity`. -/
def inspectCode : Code N C (Option (Fin N)) := do
  let w ← access .workerIndex
  lock t (.count w)
  let numOfClients ← access (.numOfClients w)
  if (C : Int) ≤ numOfClients then
    unlock t (.count w)
    return none
  else
    let numOfClients ← access (.numOfClients w)
    access (.setNumOfClients w (numOfClients + 1))
    unlock t (.count w)
    return some w

end Sections

/-- What thread `t` executes for an action. -/
def implement (t : Thread N) : (a : Act N C) → Code N C a.Answer
  | .createSection i c roomName successMsg =>
      createCode t i c roomName successMsg
  | .listSection i roomListMsg => listCode t i roomListMsg
  | .joinSection i c joinMsg => joinCode t i c joinMsg
  | .chatSection i c msg => chatCode t i c msg
  | .leaveSection i c => leaveCode t i c
  | .leaveOkSection i c => leaveOkCode t i c
  | .subtractZeroed w | .subtractUnread w | .subtractRefused w _
  | .subtractFailed w => subtractCode t w
  | .inspectWorker _ => inspectCode t
  | .readClient c => access (.plain (.readClient c) rfl)
  | .strcatCurrentMsg c piece => access (.plain (.strcatCurrentMsg c piece) rfl)
  | .routeMessage c => access (.plain (.routeMessage c) rfl)
  | .clearCurrentMsg c => access (.plain (.clearCurrentMsg c) rfl)
  | .strcpyName c name => access (.plain (.strcpyName c name) rfl)
  | .setLobby c => access (.plain (.setLobby c) rfl)
  | .sprintf buffer len => access (.plain (.sprintf buffer len) rfl)
  | .send fd cmdType message => access (.plain (.send fd cmdType message) rfl)
  | .epollDel c => access (.plain (.epollDel c) rfl)
  | .closeClient c => access (.plain (.closeClient c) rfl)
  | .zeroClient c => access (.plain (.zeroClient c) rfl)
  | .readEventfd w ok => access (.plain (.readEventfd w ok) rfl)
  | .postUnread w => access (.plain (.postUnread w) rfl)
  | .semPost w fd => access (.plain (.semPost w fd) rfl)
  | .registerWithEpoll w fd ok => access (.plain (.registerWithEpoll w fd ok) rfl)
  | .allocateClientSlot w fd => access (.plain (.allocateClientSlot w fd) rfl)
  | .closeRefused w fd => access (.plain (.closeRefused w fd) rfl)
  | .accept fd => access (.plain (.accept fd) rfl)
  | .setSocketKeepAlive fd ok => access (.plain (.setSocketKeepAlive fd ok) rfl)
  | .advanceIndex => access (.plain .advanceIndex rfl)
  | .closeRejected fd => access (.plain (.closeRejected fd) rfl)
  | .semWait w fd => access (.plain (.semWait w fd) rfl)
  | .writeEventfd w fd ok => access (.plain (.writeEventfd w fd ok) rfl)
  | .postFailed w fd => access (.plain (.postFailed w fd) rfl)
  | .closeFailed w fd => access (.plain (.closeFailed w fd) rfl)

/-- What a thread executes for a job, access by access. -/
def jobCode (t : Thread N) (j : Job N C) : Code N C Unit :=
  (jobProg t j).expand (implement t)

/-- The server with every access on its own. -/
def codeServer (N C : Nat) :
    System (Thread N) (LockAct (Thread N) (Lock N) (Access N C))
      (LockAct.Answer Access.Answer) (Job N C)
      (Guarded (Thread N) (Lock N) (Memory N C)) :=
  lockSystem Access.exec jobCode

/-- The memory with the locks, and what all threads still have to do. -/
abbrev CodeConfiguration (N C : Nat) : Type :=
  LockConfig (Thread N) (Lock N) (Access N C) Access.Answer (Memory N C)

abbrev CodeStep (N C : Nat) : Type :=
  Label (Thread N) (LockAct (Thread N) (Lock N) (Access N C)) (Job N C)

/-- After initialisation: no thread has anything to do, all locks are free. -/
def CodeConfiguration.init (N C : Nat) [NeZero N] : CodeConfiguration N C :=
  ⟨⟨fun _ => none, Memory.init N C⟩, fun _ => .ret ()⟩

end ChatApp.Server
