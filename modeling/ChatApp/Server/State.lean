import ChatApp.Protocol
import Mathlib.Algebra.GroupWithZero.Nat
import Mathlib.Logic.Function.Basic

/-!
# Server state

The records of `server_config.h` and the parts of the kernel the server talks
to.  `N` is the number of worker threads and `C` the number of clients a
worker handles; the real server has `maxThreads` and `maxClientsPerThread`.

Besides the program's own data the state records three things a reader of the
C code sees only by looking at a thread's program counter or at its log:

* `MainPoint` and `WorkerPoint` say how far a thread has got with a
  descriptor or a client between two updates of the shared data;
* `calls` lists the system calls made on behalf of clients;
* `journal` lists what the source logs or prints into its buffers.

No modelled function branches on these.
-/

namespace ChatApp.Server

/-- A file descriptor; `0` is what a zeroed `client_fd` holds. -/
abbrev Fd := Nat

/-- The number of an accepted connection, in the order of acceptance. -/
abbrev Conn := Nat

/-- `enum CLIENT_STATE`. -/
inductive ClientState where
  | awaitingUsername
  | inChatLobby
  | inChatRoom
  deriving DecidableEq, Repr

/-- `struct Client`. -/
structure Client where
  clientFd : Fd
  name : Bytes
  state : ClientState
  roomIndex : Fin maxRooms
  inUse : Bool
  currentMsg : Bytes
  deriving DecidableEq

/-- A record after `memset(client, 0, sizeof(Client))`. -/
def Client.zero : Client :=
  { clientFd := 0
    name := []
    state := .awaitingUsername
    roomIndex := ⟨0, by decide⟩
    inUse := false
    currentMsg := [] }

/-- `struct Client *`: a slot of a worker's `clients` array. -/
structure ClientPtr (N C : Nat) where
  worker : Fin N
  index : Fin C
  deriving DecidableEq

/-- `struct Room`, without its lock. -/
structure Room (N C : Nat) where
  clients : Fin maxClientsRoom → Option (ClientPtr N C)
  roomName : Bytes
  numClients : Int
  inUse : Bool

def Room.zero (N C : Nat) : Room N C :=
  { clients := fun _ => none
    roomName := []
    numClients := 0
    inUse := false }

/-- Where the main thread is with the descriptor `accept4` returned. -/
inductive MainPoint (N : Nat) where
  | idle
  /-- Accepted; no worker chosen yet. -/
  | accepted (fd : Fd)
  /-- Counted in the worker's `num_of_clients`, waiting for its semaphore. -/
  | assigned (worker : Fin N) (fd : Fd)
  /-- `sem_wait` has returned; about to write to the eventfd. -/
  | writing (worker : Fin N) (fd : Fd)
  /-- The write failed; the semaphore is not posted back yet. -/
  | failed (worker : Fin N) (fd : Fd)
  /-- Posted back; the descriptor is not closed yet. -/
  | posted (worker : Fin N) (fd : Fd)
  /-- Closed; still counted. -/
  | closed (worker : Fin N)
  deriving DecidableEq

/-- Where a worker thread is with a descriptor or with one of its slots. -/
inductive WorkerPoint (C : Nat) where
  | idle
  /-- The eventfd read failed; the count is not corrected yet. -/
  | unread
  /-- Read from the eventfd; the semaphore is not posted yet. -/
  | picked (fd : Fd)
  /-- Posted; not yet registered with epoll. -/
  | posted (fd : Fd)
  /-- Registered with epoll; no slot yet. -/
  | registered (fd : Fd)
  /-- Registration failed; still counted. -/
  | refused (fd : Fd)
  /-- Registration failed and subtracted; not closed yet. -/
  | dropping (fd : Fd)
  /-- An accepted chat line of the slot is about to be broadcast. -/
  | sending (slot : Fin C) (line : Bytes)
  /-- `leave_room` is done; the slot's `state` still says `IN_CHAT_ROOM`. -/
  | left (slot : Fin C)
  /-- The slot's descriptor is closed; the slot is not zeroed yet. -/
  | closed (slot : Fin C)
  /-- The slot is zeroed; the worker's count is not decremented yet. -/
  | zeroed
  deriving DecidableEq

/-- The fixed-size character arrays strings are built in. -/
inductive Buffer where
  | currentMsg
  | name
  | roomName
  | messageBuffer
  | successMsg
  | roomListMsg
  | roomEntry
  | clientLeftMsg
  | clientRoomJoinMsg
  | msg
  deriving DecidableEq, Repr

/-- The size of the array, terminating NUL included. -/
def Buffer.size : Buffer → Nat
  | .currentMsg => maxMessageLenToServer * 3
  | .name => maxUsernameLen + 1
  | .roomName => maxRoomNameLen + 1
  | .roomEntry => 100
  | .messageBuffer | .successMsg | .roomListMsg | .clientLeftMsg
  | .clientRoomJoinMsg | .msg => maxMessageLenFromServer

/-- System calls on descriptors.  A send names the connection its descriptor
denoted at that moment. -/
inductive SysCall where
  | send (fd : Fd) (conn : Option Conn) (cmd : UInt8) (message : Bytes)
  | close (fd : Fd)
  | epollAdd (worker : Nat) (fd : Fd)
  | epollDel (worker : Nat) (fd : Fd)
  deriving DecidableEq

/-- What happens to a room in one critical section. -/
inductive RoomOp where
  | created
  | joined (notice : Bytes)
  | said (line : Bytes)
  | left (notice : Bytes)
  deriving DecidableEq

/-- Entries of the journal. -/
inductive Entry (N C : Nat) where
  /-- A string of `len` bytes was built in `buffer`. -/
  | built (buffer : Buffer) (len : Nat)
  /-- A complete message was handed to `route_client_command`. -/
  | routed (client : ClientPtr N C) (who : Option Conn) (record : Client)
  | room (index : Fin maxRooms) (who : Option Conn) (op : RoomOp)
  /-- `find_worker_not_at_capacity` chose the worker for the descriptor. -/
  | assigned (worker : Fin N) (fd : Fd)
  /-- `register_new_client` read the descriptor from the eventfd. -/
  | pickedUp (worker : Fin N) (fd : Fd)
  /-- The eventfd write failed and `handle_write_error` took over. -/
  | writeError (worker : Fin N) (fd : Fd)
  deriving DecidableEq

/-- The whole server.  `clients`, `numOfClients`, `notification` (the counter
of the eventfd `notification_fd`) and `newClient` (the value of the semaphore)
are the fields of the `struct Worker_Thread` array, one table per field;
`rooms` is `SERVER_ROOMS`, `workerIndex` the static variable of
`find_worker_not_at_capacity`, and `conns` tells what descriptors denote. -/
structure State (N C : Nat) where
  rooms : Fin maxRooms → Room N C
  clients : ClientPtr N C → Client
  point : Fin N → WorkerPoint C
  numOfClients : Fin N → Int
  notification : Fin N → Nat
  newClient : Fin N → Nat
  workerIndex : Fin N
  main : MainPoint N
  conns : Fd → Option Conn
  accepted : Nat
  calls : List SysCall
  journal : List (Entry N C)

variable {N C : Nat}

/-- The state after `init_server_rooms` and `setup_threads`: everything
zeroed, the semaphores at one. -/
def State.init (N C : Nat) [NeZero N] : State N C :=
  { rooms := fun _ => Room.zero N C
    clients := fun _ => Client.zero
    point := fun _ => .idle
    numOfClients := fun _ => 0
    notification := fun _ => 0
    newClient := fun _ => 1
    workerIndex := 0
    main := .idle
    conns := fun _ => none
    accepted := 0
    calls := []
    journal := [] }

/-- The connection a client record stands for. -/
def State.connOf (s : State N C) (c : ClientPtr N C) : Option Conn :=
  s.conns (s.clients c).clientFd

end ChatApp.Server
