import ChatApp.Foundation.Interleaving
import ChatApp.Server.ClientDistributor
import ChatApp.Server.ClientStateManager
import ChatApp.Server.ConnectionHandler

/-!
# The server as a system of threads

The main thread accepts connections one after the other; each worker thread
handles one epoll event after the other.  A job is the handling of one such
event, with the outcomes of its system calls.

`EventOk` is what epoll and `recv` promise when a job starts: an event of a
client is for a live client of the worker, `recv` returns between one and
`MAX_MESSAGE_LEN_TO_SERVER` bytes.  `ExitsLast` is the restriction to chunks
in which nothing complete follows a `CMD_EXIT` message.
-/

namespace ChatApp.Server

open ChatApp.Foundation

/-- The main thread and the workers. -/
inductive Thread (N : Nat) where
  | main
  | worker (w : Fin N)
  deriving DecidableEq

/-- One event a thread handles. -/
inductive Job (N C : Nat) where
  | accept (clientFd : Fd) (keepAliveOk writeOk : Bool)
  | register (readOk epollOk : Bool)
  | receive (client : ClientPtr N C) (result : RecvResult)
  | hangUp (client : ClientPtr N C)

variable {N C : Nat}

/-- What a thread executes for a job. -/
def jobProg : Thread N → Job N C → ServerProg N C Unit
  | .main, .accept fd keepAliveOk writeOk =>
      acceptClient fd keepAliveOk writeOk
  | .worker w, .register readOk epollOk =>
      registerNewClient w readOk epollOk
  | .worker _, .receive client result =>
      readAndProcessClientMessage client result
  | .worker _, .hangUp client => handleClientDisconnection client
  | _, _ => pure ()

def server (N C : Nat) :
    System (Thread N) (Act N C) Act.Answer (Job N C) (State N C) :=
  { exec := exec
    job := jobProg }

/-- The shared state and the programs of all threads. -/
abbrev Configuration (N C : Nat) : Type :=
  Config (Thread N) (Act N C) Act.Answer (State N C)

abbrev Step (N C : Nat) : Type :=
  Label (Thread N) (Act N C) (Job N C)

/-- An executed action with the states around it. -/
abbrev Executed (N C : Nat) : Type :=
  Prog.Event (Act N C) (State N C)

/-- The actions one thread executes, in order. -/
abbrev Steps (N C : Nat) : Type :=
  List (Executed N C)

/-- After initialisation: no thread has anything to do. -/
def Configuration.init (N C : Nat) [NeZero N] : Configuration N C :=
  ⟨State.init N C, fun _ => .ret ()⟩

/-- The client of an event is a live client of the worker. -/
def LiveOf (s : State N C) (t : Thread N) (client : ClientPtr N C) : Prop :=
  t = .worker client.worker ∧ (s.clients client).inUse = true

/-- A chunk `recv` can return. -/
def ChunkOk (bytes : Bytes) : Prop :=
  1 ≤ bytes.length ∧ bytes.length ≤ maxMessageLenToServer

instance (bytes : Bytes) : Decidable (ChunkOk bytes) := by
  unfold ChunkOk
  infer_instance

/-- What epoll and `recv` promise about the events threads handle. -/
def EventOk (s : State N C) : Step N C → Prop
  | .start t (.receive client result) =>
      LiveOf s t client ∧ ∀ bytes, result = .data bytes → ChunkOk bytes
  | .start t (.hangUp client) => LiveOf s t client
  | .start _ (.accept ..) => True
  | .start _ (.register ..) => True
  | .act _ _ => True

/-- The message is a `CMD_EXIT` that passes the checks. -/
def isExit (currentMsg : Bytes) : Bool :=
  (formatError currentMsg).isNone && command currentMsg = cmdExit

/-- The messages a chunk completes, the first one continuing `currentMsg`. -/
def messages (currentMsg bytes : Bytes) : List Bytes :=
  (Delimited.feed cr lf currentMsg (cString bytes)).1

/-- Every message but the last is no `CMD_EXIT`. -/
def ExitsLast (msgs : List Bytes) : Prop :=
  ∀ msg ∈ msgs.dropLast, isExit msg = false

instance (msgs : List Bytes) : Decidable (ExitsLast msgs) := by
  unfold ExitsLast
  infer_instance

/-- Nothing complete follows a `CMD_EXIT` in a received chunk, so handlers
are only ever started for live clients. -/
def LiveOk (s : State N C) (l : Step N C) : Prop :=
  EventOk s l ∧
    ∀ t client bytes, l = .start t (.receive client (.data bytes)) →
      ExitsLast (messages (s.clients client).currentMsg bytes)

/-- What epoll and `recv` promise, and no read of an eventfd fails: `read` is
taken to fail only on a counter that is zero, and epoll reports an eventfd
only while its counter is positive. -/
def CountersRead (s : State N C) (l : Step N C) : Prop :=
  EventOk s l ∧ ∀ t w, l ≠ .act t (.readEventfd w false)

/-- Moreover no read of an eventfd fails.  Left out are the starts for chunks
in which a complete message follows a `CMD_EXIT`, and reads of an eventfd that
fail although its counter is positive; `read` is taken to fail only on a
counter that is zero, which epoll does not report. -/
def ReadsSucceed (s : State N C) (l : Step N C) : Prop :=
  LiveOk s l ∧ ∀ t w, l ≠ .act t (.readEventfd w false)

theorem CountersRead.event (s : State N C) (l : Step N C)
    (h : CountersRead s l) : EventOk s l :=
  h.1

theorem ReadsSucceed.counters {s : State N C} {l : Step N C}
    (h : ReadsSucceed s l) : CountersRead s l :=
  ⟨h.1.1, h.2⟩

theorem ReadsSucceed.live (s : State N C) (l : Step N C)
    (h : ReadsSucceed s l) : LiveOk s l :=
  h.1

end ChatApp.Server
