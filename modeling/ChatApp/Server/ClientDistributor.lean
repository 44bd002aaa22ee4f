import ChatApp.Server.RoomManager

/-!
# `client_distributor.c` and the accept loop of `main.c`

One iteration of the main thread's loop for an accepted descriptor, with the
outcomes of its system calls as arguments: `keepAliveOk` of the four
`setsockopt` calls, `writeOk` of the eventfd `write`.
-/

namespace ChatApp.Server

open ChatApp.Foundation

variable {N C : Nat}

/-- One round of the loop of `find_worker_not_at_capacity`, going on with
`retry` when the worker is at capacity. -/
def findWorkerRound (clientFd : Fd)
    (retry : ServerProg N C (Option (Fin N))) :
    ServerProg N C (Option (Fin N)) := do
  match ← act (.inspectWorker clientFd) with
  | some w =>
      act .advanceIndex
      return some w
  | none =>
      act .advanceIndex
      retry

/-- The loop of `find_worker_not_at_capacity`.  `left` is
`MAX_THREADS - num_attempts`, so the comparison of the post-incremented
counter with `MAX_THREADS` succeeds at `left = 0`. -/
def findWorkerLoop (clientFd : Fd) :
    (left : Nat) → ServerProg N C (Option (Fin N))
  | 0 => findWorkerRound clientFd (pure none)
  | left + 1 => findWorkerRound clientFd (findWorkerLoop clientFd left)

def findWorkerNotAtCapacity (clientFd : Fd) :
    ServerProg N C (Option (Fin N)) :=
  findWorkerLoop clientFd N

def capacityErrMsg : Bytes :=
  text ("Sorry, the server is currently at full " ++
    "capacity. Please try again later!\r\n")

def connectionErrorMsg : Bytes :=
  text ("Sorry, there was an error connecting to the server. Please try " ++
    "again!\r\n")

def handleWriteError (w : Fin N) (clientFd : Fd) : ServerProg N C Unit := do
  act (.postFailed w clientFd)
  act (.send clientFd errConnecting connectionErrorMsg)
  act (.closeFailed w clientFd)
  act (.subtractFailed w)

def distributeClient (clientFd : Fd) (writeOk : Bool) :
    ServerProg N C Unit := do
  match ← findWorkerNotAtCapacity clientFd with
  | none =>
      act (.send clientFd errServerFull capacityErrMsg)
      act (.closeRejected clientFd)
  | some w =>
      act (.semWait w clientFd)
      let written ← act (.writeEventfd w clientFd writeOk)
      if written then pure ()
      else handleWriteError w clientFd

/-- `distribute_client` from its `write` on. -/
def writeClient (w : Fin N) (clientFd : Fd) (writeOk : Bool) :
    ServerProg N C Unit := do
  let written ← act (.writeEventfd w clientFd writeOk)
  if written then pure ()
  else handleWriteError w clientFd

theorem distributeClient_eq (clientFd : Fd) (writeOk : Bool) :
    (distributeClient clientFd writeOk : ServerProg N C Unit) =
      findWorkerNotAtCapacity clientFd >>= fun
        | none => act (.send clientFd errServerFull capacityErrMsg) >>= fun _ =>
            act (.closeRejected clientFd)
        | some w => .act (.semWait w clientFd) fun _ =>
            writeClient w clientFd writeOk := rfl

/-- One accepted connection in the main loop. -/
def acceptClient (clientFd : Fd) (keepAliveOk writeOk : Bool) :
    ServerProg N C Unit := do
  act (.accept clientFd)
  let configured ← act (.setSocketKeepAlive clientFd keepAliveOk)
  if configured then distributeClient clientFd writeOk

end ChatApp.Server
