import ChatApp.Server.RoomManager

/-!
# `connection_handler.c`

`register_new_client`, with the outcomes of its system calls as arguments:
`readOk` of the eventfd `read`, `epollOk` of `epoll_ctl`.
-/

namespace ChatApp.Server

open ChatApp.Foundation

variable {N C : Nat}

def welcomeText : Bytes :=
  text ("WELCOME TO THE SERVER: THIS IS A FAMILY FRIENDLY SPACE" ++
    ", NO CURSING\nPlease enter Your User Name")

def registerNewClient (w : Fin N) (readOk epollOk : Bool) :
    ServerProg N C Unit := do
  match ← act (.readEventfd w readOk) with
  | none =>
      act (.subtractUnread w)
      act (.postUnread w)
  | some clientFd =>
      act (.semPost w clientFd)
      let registered ← act (.registerWithEpoll w clientFd epollOk)
      if registered then
        let allocated ← act (.allocateClientSlot w clientFd)
        if allocated then
          act (.send clientFd cmdWelcomeRequest welcomeText)
        else
          act (.subtractRefused w clientFd)
          act (.closeRefused w clientFd)
      else
        act (.subtractRefused w clientFd)
        act (.closeRefused w clientFd)

/-- `register_new_client` from its `epoll_ctl` on. -/
def setUpClient (w : Fin N) (clientFd : Fd) (epollOk : Bool) :
    ServerProg N C Unit := do
  let registered ← act (.registerWithEpoll w clientFd epollOk)
  if registered then
    let allocated ← act (.allocateClientSlot w clientFd)
    if allocated then
      act (.send clientFd cmdWelcomeRequest welcomeText)
    else
      act (.subtractRefused w clientFd)
      act (.closeRefused w clientFd)
  else
    act (.subtractRefused w clientFd)
    act (.closeRefused w clientFd)

theorem registerNewClient_eq (w : Fin N) (readOk epollOk : Bool) :
    (registerNewClient w readOk epollOk : ServerProg N C Unit) =
      .act (.readEventfd w readOk) fun
        | none => act (.subtractUnread w) >>= fun _ => act (.postUnread w)
        | some clientFd => .act (.semPost w clientFd) fun _ =>
            setUpClient w clientFd epollOk := rfl

end ChatApp.Server
