import ChatApp.Server.Interference
import ChatApp.Server.Ownership

/-!
# Events and the connections they are for

`process_client_connections` waits for a batch of events and handles them one
after the other; other threads run in between, and clients of the batch may be
disconnected and new ones registered before its last event is looked at.  An
event names a descriptor number only, and `find_client_by_fd` compares it with
every slot, free or not.

`PollStep` is a step of all threads together with the batches the workers are
working on.  What epoll promises is in `Reported`; that the events find live
clients of their own, which `EventOk` assumes, is proved here.
-/

namespace ChatApp.Server

open ChatApp.Foundation

variable {N C : Nat}

/-! ## The code -/

/-- `struct epoll_event`: the descriptor, and whether one of `EPOLLRDHUP`,
`EPOLLERR` and `EPOLLHUP` is set. -/
structure EpollEvent where
  fd : Fd
  hangUp : Bool
  deriving DecidableEq

/-- `find_client_by_fd`. -/
def findClientByFd (s : State N C) (w : Fin N) (fd : Fd) :
    Option (ClientPtr N C) :=
  ((List.finRange C).find? fun j => (s.clients ⟨w, j⟩).clientFd = fd).map
    fun j => ⟨w, j⟩

/-- The body of the loop of `process_epoll_events`: the handler it calls.
`result` is what `recv` will return, `readOk` and `epollOk` the outcomes of
the calls of `register_new_client`. -/
def processEpollEvent (notificationFd : Fin N → Fd) (s : State N C)
    (w : Fin N) (event : EpollEvent) (result : RecvResult)
    (readOk epollOk : Bool) : Option (Job N C) :=
  if event.fd = notificationFd w then some (.register readOk epollOk)
  else
    match findClientByFd s w event.fd with
    | none => none
    | some user =>
        if event.hangUp then some (.hangUp user)
        else some (.receive user result)

/-! ## The kernel's side -/

/-- An event together with the connection it was raised for; `none` when it
was raised for the worker's eventfd. -/
structure Raised where
  event : EpollEvent
  source : Option Conn
  deriving DecidableEq

/-- One system call's effect on the descriptors registered with the epoll
instance of worker `w`. -/
def SysCall.register (w : Nat) (fds : List Fd) : SysCall → List Fd
  | .epollAdd v fd => if v = w then fd :: fds else fds
  | .epollDel v fd => if v = w then fds.filter (· ≠ fd) else fds
  | .close fd => fds.filter (· ≠ fd)
  | .send .. => fds

/-- The descriptors registered with the epoll instance of worker `w`. -/
def State.registered (s : State N C) (w : Fin N) : List Fd :=
  s.calls.foldl (SysCall.register w) []

/-- What `epoll_wait` may report to a worker: at most one event for a
descriptor, each for the eventfd while its counter is not zero or for an open
descriptor registered with the worker's instance. -/
def Reported (notificationFd : Fin N → Fd) (s : State N C) (w : Fin N)
    (batch : List Raised) : Prop :=
  (batch.map fun r => r.event.fd).Nodup ∧ ∀ r ∈ batch,
    r.event.fd = notificationFd w ∧ r.source = none ∧ s.notification w ≠ 0 ∨
      r.event.fd ∈ s.registered w ∧ s.conns r.event.fd = r.source ∧
        r.source.isSome

/-- What the other calls promise: `accept4` returns no descriptor that is
open, the eventfds included, and the read of an eventfd fails only when its
counter is zero. -/
def Promised (notificationFd : Fin N → Fd) (s : State N C) : Act N C → Prop
  | .accept fd => ∀ w, fd ≠ notificationFd w
  | .readEventfd w false => s.notification w = 0
  | _ => True

/-- The server together with the events each worker has still to handle. -/
structure Polling (N C : Nat) where
  config : Configuration N C
  batch : Fin N → List Raised

def Polling.init (N C : Nat) [NeZero N] : Polling N C :=
  ⟨Configuration.init N C, fun _ => []⟩

/-- What `recv` returns for the job is a chunk. -/
def JobOk (j : Job N C) : Prop :=
  ∀ client bytes, j = .receive client (.data bytes) → ChunkOk bytes

/-- One step: a worker is given a batch, or takes the next event of its batch;
the main thread accepts a connection; a thread performs an action. -/
inductive PollStep (notificationFd : Fin N → Fd) :
    Polling N C → Polling N C → Prop
  | wait (p : Polling N C) (w : Fin N) (batch : List Raised) :
      p.config.prog (.worker w) = .ret () → p.batch w = [] →
      Reported notificationFd p.config.shared w batch →
      PollStep notificationFd p
        { p with batch := Function.update p.batch w batch }
  | handle (p : Polling N C) (w : Fin N) (r : Raised) (rest : List Raised)
      (result : RecvResult) (readOk epollOk : Bool) (j : Job N C) :
      p.config.prog (.worker w) = .ret () → p.batch w = r :: rest →
      processEpollEvent notificationFd p.config.shared w r.event result
        readOk epollOk = some j →
      JobOk j →
      PollStep notificationFd p
        ⟨p.config.update (.worker w) p.config.shared (jobProg (.worker w) j),
          Function.update p.batch w rest⟩
  | skip (p : Polling N C) (w : Fin N) (r : Raised) (rest : List Raised) :
      p.config.prog (.worker w) = .ret () → p.batch w = r :: rest →
      (∀ result readOk epollOk, processEpollEvent notificationFd
        p.config.shared w r.event result readOk epollOk = none) →
      PollStep notificationFd p
        { p with batch := Function.update p.batch w rest }
  | accept (p : Polling N C) (clientFd : Fd) (keepAliveOk writeOk : Bool) :
      p.config.prog .main = .ret () →
      PollStep notificationFd p
        ⟨p.config.update .main p.config.shared
          (acceptClient clientFd keepAliveOk writeOk), p.batch⟩
  | act (p : Polling N C) (t : Thread N) (a : Act N C)
      (next : a.Answer → ServerProg N C Unit) (answer : a.Answer)
      (s : State N C) :
      p.config.prog t = .act a next →
      exec a p.config.shared = some (answer, s) →
      Promised notificationFd p.config.shared a →
      PollStep notificationFd p
        ⟨p.config.update t s (next answer), p.batch⟩

/-- What can happen from the start of the server. -/
def Polled (notificationFd : Fin N → Fd) [NeZero N] : Polling N C → Prop :=
  Relation.ReflTransGen (PollStep notificationFd) (Polling.init N C)

/-! ## Registered descriptors -/

section Registered

variable {s s' : State N C} {t : Thread N} {w : Fin N} {fd : Fd}

theorem registered_sends {extra : List SysCall}
    (hcalls : s'.calls = s.calls ++ extra)
    (hsend : ∀ e ∈ extra, ∃ fd conn cmd message,
      e = .send fd conn cmd message) (w : Fin N) :
    s'.registered w = s.registered w := by
  unfold State.registered
  rw [hcalls, List.foldl_append]
  generalize s.calls.foldl (SysCall.register w) [] = fds
  induction extra generalizing s' with
  | nil => rfl
  | cons e extra ih =>
      obtain ⟨fd, conn, cmd, message, rfl⟩ := hsend e List.mem_cons_self
      have hcalls' : ({ s' with calls := s.calls ++ extra } :
          State N C).calls = s.calls ++ extra := rfl
      exact ih hcalls'
        fun e' he' => hsend e' (List.mem_cons_of_mem _ he')

/-- The call an action makes that concerns an epoll instance. -/
def Act.epollCall (s : State N C) : Act N C → Option SysCall
  | .registerWithEpoll w fd true => some (.epollAdd w fd)
  | .epollDel c => some (.epollDel c.worker (s.clients c).clientFd)
  | a => (a.closes s).map .close

/-- What an action does to the registered descriptors. -/
theorem exec_registered {a : Act N C} {b : a.Answer}
    (he : exec a s = some (b, s')) (w : Fin N) :
    s'.registered w =
      (a.epollCall s).toList.foldl (SysCall.register w) (s.registered w) := by
  have happend : ∀ (s' : State N C) (call : Option SysCall),
      s'.calls = s.calls ++ call.toList →
      s'.registered w =
        call.toList.foldl (SysCall.register w) (s.registered w) := by
    intro s' call hcalls
    simp only [State.registered, hcalls, List.foldl_append]
  cases a
  case createSection i c roomName successMsg =>
    rcases exec_createSection he with ⟨-, -, rfl⟩ | ⟨-, -, rfl⟩
    · rfl
    · exact registered_sends rfl (by simp) w
  case joinSection i c joinMsg =>
    rcases exec_joinSection he with ⟨r, -, rfl⟩ | rfl | ⟨j, -, -, rfl⟩
    · exact registered_sends rfl (by simp) w
    · rfl
    · refine registered_sends (List.append_assoc _ _ _) ?_ w
      simp only [List.mem_append, List.mem_map, List.mem_singleton]
      rintro e (⟨d, -, rfl⟩ | rfl)
      · exact ⟨_, _, _, _, rfl⟩
      · exact ⟨_, _, _, _, rfl⟩
  case leaveSection i c =>
    rw [exec_leaveSection he]
    refine registered_sends rfl ?_ w
    simp only [List.mem_map]
    rintro e ⟨d, -, rfl⟩
    exact ⟨_, _, _, _, rfl⟩
  case chatSection i c msg =>
    rw [exec_chatSection he]
    refine registered_sends rfl ?_ w
    simp only [List.mem_map]
    rintro e ⟨d, -, rfl⟩
    exact ⟨_, _, _, _, rfl⟩
  case send fd cmdType message =>
    cases he
    exact registered_sends rfl (by simp) w
  case leaveOkSection i c =>
    cases he
    exact registered_sends rfl (by simp) w
  case routeMessage c =>
    rcases exec_routeMessage he with ⟨-, ⟨-, rfl⟩ | ⟨line, -, rfl⟩⟩ <;> rfl
  case listSection i msg =>
    rcases exec_listSection he with ⟨-, -, rfl⟩ | ⟨-, -, rfl⟩ <;> rfl
  case readEventfd w' ok =>
    rcases exec_readEventfd he with ⟨-, -, -, rfl⟩ | ⟨-, -, rfl⟩ <;> rfl
  case allocateClientSlot w' fd =>
    rcases exec_allocateClientSlot he with ⟨-, -, rfl⟩ | ⟨j, -, -, rfl⟩ <;> rfl
  case registerWithEpoll w' fd ok =>
    rcases exec_registerWithEpoll he with ⟨rfl, -, rfl⟩ | ⟨rfl, -, rfl⟩
    · exact happend _ _ rfl
    · rfl
  case accept fd =>
    rw [(exec_accept he).2.2]
    rfl
  case setSocketKeepAlive fd ok =>
    rcases exec_setSocketKeepAlive he with ⟨-, -, rfl⟩ | ⟨-, -, rfl⟩ <;> rfl
  case inspectWorker fd =>
    rcases exec_inspectWorker he with ⟨-, -, rfl⟩ | ⟨-, -, rfl⟩ <;> rfl
  case semWait w' fd =>
    rw [(exec_semWait he).2]
    rfl
  case writeEventfd w' fd ok =>
    rcases exec_writeEventfd he with ⟨-, -, rfl⟩ | ⟨-, -, rfl⟩ <;> rfl
  case epollDel | closeClient | closeRefused | closeRejected | closeFailed =>
    cases he
    exact happend _ _ rfl
  all_goals
    cases he
    rfl

/-- The descriptor of a worker that has registered it and neither filled a
slot with it nor closed it. -/
def WorkerPoint.enrolled : WorkerPoint C → Option Fd
  | .registered fd | .refused fd | .dropping fd => some fd
  | _ => none

/-- A descriptor registered with a worker's instance is the one the worker is
registering or that of one of its live slots. -/
def Enrolled (s : State N C) : Prop :=
  ∀ w, ∀ fd ∈ s.registered w,
    (s.point w).enrolled = some fd ∨
      ∃ j, s.holding (.slot ⟨w, j⟩) = some fd

theorem mem_registered {a : Act N C} {b : a.Answer}
    (he : exec a s = some (b, s')) (hmem : fd ∈ s'.registered w) :
    a = .registerWithEpoll w fd true ∨
      fd ∈ s.registered w ∧ a.closes s ≠ some fd := by
  have hcalls := exec_registered he w
  by_cases hcloses : a.closes s = some fd
  · have hcall : a.epollCall s = some (.close fd) := by
      cases a <;> simp_all [Act.closes, Act.epollCall]
    rw [hcall] at hcalls
    rw [hcalls] at hmem
    simp [SysCall.register] at hmem
  cases hcall : a.epollCall s with
  | none =>
      rw [hcall] at hcalls
      rw [hcalls] at hmem
      exact .inr ⟨hmem, hcloses⟩
  | some call =>
      rw [hcall] at hcalls
      rw [hcalls] at hmem
      simp only [Option.toList_some, List.foldl_cons, List.foldl_nil] at hmem
      cases call with
      | send => exact .inr ⟨hmem, hcloses⟩
      | close fd' => exact .inr ⟨(List.mem_filter.mp hmem).1, hcloses⟩
      | epollDel v fd' =>
          simp only [SysCall.register] at hmem
          split at hmem
          · exact .inr ⟨(List.mem_filter.mp hmem).1, hcloses⟩
          · exact .inr ⟨hmem, hcloses⟩
      | epollAdd v fd' =>
          have ha : ∃ w', v = w'.val ∧ a = .registerWithEpoll w' fd' true := by
            cases a <;> simp only [Act.epollCall, Act.closes, Option.map_none,
              Option.map_some, Option.some.injEq, reduceCtorEq] at hcall
            case registerWithEpoll w' fd'' ok =>
              cases ok with
              | true =>
                  cases hcall
                  exact ⟨w', rfl, rfl⟩
              | false => cases hcall
          obtain ⟨w', rfl, rfl⟩ := ha
          simp only [SysCall.register] at hmem
          split at hmem
          case isTrue hw =>
            have hw' := Fin.ext hw
            subst hw'
            rcases List.mem_cons.mp hmem with rfl | hold
            · exact .inl rfl
            · exact .inr ⟨hold, hcloses⟩
          case isFalse => exact .inr ⟨hmem, hcloses⟩

/-- A registered descriptor stays with its worker until it has a slot or is
closed. -/
theorem enrolled_stays {live : Bool → Prop} {a : Act N C} {b : a.Answer}
    (ha : AllowedOf live t s a) (he : exec a s = some (b, s')) (hcloses : a.closes s ≠ some fd)
    (hpoint : (s.point w).enrolled = some fd) :
    (s'.point w).enrolled = some fd ∨
      ∃ j, s'.holding (.slot ⟨w, j⟩) = some fd := by
  by_cases hworker : a.worker? = some w
  · have hnone : ∀ {p : WorkerPoint C}, s.point w = p → p.enrolled = none →
        (s'.point w).enrolled = some fd ∨
          ∃ j, s'.holding (.slot ⟨w, j⟩) = some fd := by
      intro p hp hnone
      rw [hp, hnone] at hpoint
      cases hpoint
    cases a <;> simp only [Act.worker?, Option.some.injEq, reduceCtorEq]
      at hworker
    all_goals subst hworker
    case strcatCurrentMsg | clearCurrentMsg =>
      cases he
      exact .inl hpoint
    case routeMessage c => exact hnone ha.2 rfl
    case strcpyName c name => exact hnone ha.1.2.2 rfl
    case createSection i c roomName successMsg => exact hnone ha.1.2.2 rfl
    case joinSection i c joinMsg => exact hnone ha.2.2 rfl
    case chatSection i c msg => exact hnone ha.2.2.2 rfl
    case leaveSection i c => exact hnone ha.1.2.2 rfl
    case setLobby c =>
      rcases ha with hready | ⟨-, hleft⟩
      · exact hnone hready.2.2 rfl
      · exact hnone hleft rfl
    case closeClient c =>
      rcases ha.2 with ⟨-, hidle⟩ | hleft
      · exact hnone hidle rfl
      · exact hnone hleft rfl
    case zeroClient c => exact hnone ha.2 rfl
    case subtractZeroed => exact hnone ha.2 rfl
    case readEventfd ok => exact hnone ha.2 rfl
    case postUnread => exact hnone ha.2 rfl
    case semPost fd' => exact hnone ha.2 rfl
    case registerWithEpoll fd' ok => exact hnone ha.2 rfl
    case allocateClientSlot w fd' =>
      rw [ha.2] at hpoint
      cases hpoint
      rcases exec_allocateClientSlot he with ⟨-, -, rfl⟩ | ⟨j, -, -, rfl⟩
      · exact .inl (by simp [WorkerPoint.enrolled])
      · refine .inr ⟨j, ?_⟩
        simp [State.holding, State.slotFd, Client.fresh, WorkerPoint.closing]
    case subtractRefused w fd' =>
      rw [ha.2] at hpoint
      cases hpoint
      cases he
      exact .inl (by simp [WorkerPoint.enrolled])
    case closeRefused w fd' =>
      rw [ha.2] at hpoint
      cases hpoint
      exact absurd rfl hcloses
  · rw [exec_point_of_ne hworker he]
    exact .inl hpoint

theorem Enrolled.step {live : Bool → Prop} (h : Enrolled s)
    (hinv : ∀ v, Relay s v) (hown : Own s) {a : Act N C} {b : a.Answer}
    (ha : AllowedOf live t s a) (he : exec a s = some (b, s')) :
    Enrolled s' := by
  intro w fd hmem
  rcases mem_registered he hmem with rfl | ⟨hold, hcloses⟩
  · rcases exec_registerWithEpoll he with ⟨-, -, rfl⟩ | ⟨hok, -, -⟩
    · exact .inl (by simp [WorkerPoint.enrolled])
    · cases hok
  · rcases h w fd hold with hpoint | ⟨j, hslot⟩
    · exact enrolled_stays ha he hcloses hpoint
    · refine .inr ⟨j, (hown.slot_stays_of hinv ha ?_ he hslot).1⟩
      rintro rfl
      exact hcloses (congrArg some (of_holding_slot hslot).2)

end Registered

/-! ## The lookup -/

section Lookup

variable {s : State N C} {w : Fin N} {c : ClientPtr N C} {fd : Fd}

/-- A held descriptor is found at its own slot. -/
theorem findClientByFd_slot (hown : Own s)
    (hslot : s.holding (.slot c) = some fd) :
    (s.clients c).inUse = true ∧ findClientByFd s c.worker fd = some c := by
  obtain ⟨huse, hfd⟩ := of_holding_slot hslot
  refine ⟨huse, ?_⟩
  unfold findClientByFd
  cases hfind : (List.finRange C).find? fun j =>
      (s.clients ⟨c.worker, j⟩).clientFd = fd with
  | none =>
      have hnone := List.find?_eq_none.mp hfind c.index (List.mem_finRange _)
      exact absurd (by simpa using hfd) hnone
  | some j =>
      have hj : (s.clients ⟨c.worker, j⟩).clientFd = fd := by
        simpa using List.find?_some hfind
      -- A free slot holds descriptor zero, so the one found is live.
      have huse' : (s.clients ⟨c.worker, j⟩).inUse = true := by
        by_contra hfree
        have hzero := hown.free _ (Bool.not_eq_true _ ▸ hfree)
        have hpos := hown.used c huse
        rw [hfd, ← hj, hzero] at hpos
        exact Nat.lt_irrefl 0 hpos
      have hc := hown.apart ⟨c.worker, j⟩ c rfl huse' huse (hj.trans hfd.symm)
      rw [Option.map_some, hc]

end Lookup

/-! ## What the jobs of a batch leave alone -/

/-- The action reads the eventfd of the worker. -/
def Act.readsEventfd (w : Fin N) : Act N C → Prop
  | .readEventfd v _ => v = w
  | _ => False

/-- The action closes a client other than `c`, or reads an eventfd. -/
def Act.strays (c : ClientPtr N C) : Act N C → Prop
  | .closeClient d => d ≠ c
  | .readEventfd .. => True
  | _ => False

theorem Act.ofHandler.not_strays {c : ClientPtr N C} {a : Act N C}
    (ha : a.ofHandler c) : ¬ a.strays c := by
  cases a <;> simp_all [Act.ofHandler, Act.ofCommand, Act.strays]

theorem all_receive (c : ClientPtr N C) (result : RecvResult) :
    Prog.All (fun a => ¬ a.strays c)
      (readAndProcessClientMessage c result) := by
  cases result with
  | nothing wouldBlock =>
      cases wouldBlock with
      | true => trivial
      | false =>
          exact (all_handleClientDisconnection c).imp
            fun _ => Act.ofHandler.not_strays
  | data bytes =>
      exact all_messageLoop c (fun _ => Act.ofHandler.not_strays)
        (fun _ => nofun) nofun nofun _ _

theorem Act.ofRegister.not_strays {w : Fin N} {a : Act N C}
    (ha : a.ofRegister w) :
    (∀ v, ¬ a.readsEventfd v) ∧ ∀ c, a ≠ .closeClient c := by
  constructor
  · intro v hread
    cases a <;> simp only [Act.readsEventfd] at hread
    exact ha
  · rintro c rfl
    exact ha

/-! ## One step of all threads and batches -/

/-- The counter of an eventfd is emptied by a read only. -/
theorem exec_notification {a : Act N C} {s s' : State N C} {b : a.Answer}
    {w : Fin N} (hread : ¬ a.readsEventfd w) (he : exec a s = some (b, s'))
    (hne : s.notification w ≠ 0) : s'.notification w ≠ 0 := by
  cases a
  case readEventfd v ok =>
    have hv : w ≠ v := fun h => hread h.symm
    rcases exec_readEventfd he with ⟨-, -, -, rfl⟩ | ⟨-, -, rfl⟩
    · show Function.update s.notification v 0 w ≠ 0
      rwa [Function.update_of_ne hv]
    · exact hne
  case writeEventfd v fd ok =>
    rcases exec_writeEventfd he with ⟨-, -, rfl⟩ | ⟨-, -, rfl⟩
    · show Function.update s.notification v (s.notification v + fd) w ≠ 0
      by_cases hv : w = v
      · subst hv
        rw [Function.update_self]
        omega
      · rwa [Function.update_of_ne hv]
    · exact hne
  case createSection i c roomName successMsg =>
    rcases exec_createSection he with ⟨-, -, rfl⟩ | ⟨-, -, rfl⟩ <;> exact hne
  case joinSection i c joinMsg =>
    rcases exec_joinSection he with ⟨r, -, rfl⟩ | rfl | ⟨j, -, -, rfl⟩
    all_goals exact hne
  case leaveSection i c =>
    rw [exec_leaveSection he]
    exact hne
  case chatSection i c msg =>
    rw [exec_chatSection he]
    exact hne
  case listSection i msg =>
    rcases exec_listSection he with ⟨-, -, rfl⟩ | ⟨-, -, rfl⟩ <;> exact hne
  case allocateClientSlot v fd =>
    rcases exec_allocateClientSlot he with ⟨-, -, rfl⟩ | ⟨j, -, -, rfl⟩
    all_goals exact hne
  case registerWithEpoll v fd ok =>
    rcases exec_registerWithEpoll he with ⟨-, -, rfl⟩ | ⟨-, -, rfl⟩
    all_goals exact hne
  case accept fd =>
    rw [(exec_accept he).2.2]
    exact hne
  case setSocketKeepAlive fd ok =>
    rcases exec_setSocketKeepAlive he with ⟨-, -, rfl⟩ | ⟨-, -, rfl⟩
    all_goals exact hne
  case inspectWorker fd =>
    rcases exec_inspectWorker he with ⟨-, -, rfl⟩ | ⟨-, -, rfl⟩
    all_goals exact hne
  case semWait v fd =>
    rw [(exec_semWait he).2]
    exact hne
  all_goals
    cases he
    exact hne

/-- Descriptors of eventfds are never given to connections. -/
theorem exec_notificationFd {notificationFd : Fin N → Fd} {a : Act N C}
    {s s' : State N C} {b : a.Answer}
    (hpromise : Promised notificationFd s a) (he : exec a s = some (b, s'))
    (hfree : ∀ w, s.conns (notificationFd w) = none) (w : Fin N) :
    s'.conns (notificationFd w) = none := by
  rcases exec_conns he with ⟨fd, rfl, -, hconns, -⟩ | ⟨-, hclosed⟩
  · rw [hconns, Function.update_of_ne (hpromise w).symm]
    exact hfree w
  rcases hclosed with ⟨-, hconns⟩ | ⟨fd, -, hconns⟩
  · rw [hconns]
    exact hfree w
  · rw [hconns]
    by_cases hfd : notificationFd w = fd
    · rw [hfd, Function.update_self]
    · rw [Function.update_of_ne hfd]
      exact hfree w

/-- The events a worker has still to handle are for its eventfd, whose
counter is not zero, or for open slots of its own; what it is executing
concerns none of them. -/
structure BatchOk (notificationFd : Fin N → Fd) (s : State N C) (w : Fin N)
    (prog : ServerProg N C Unit) (batch : List Raised) : Prop where
  nodup : (batch.map fun r => r.event.fd).Nodup
  eventfd : ∀ r ∈ batch, r.source = none →
    r.event.fd = notificationFd w ∧ s.notification w ≠ 0 ∧
      Prog.All (fun a => ¬ a.readsEventfd w) prog
  client : ∀ r ∈ batch, ∀ q, r.source = some q →
    ∃ j, s.holding (.slot ⟨w, j⟩) = some r.event.fd ∧
      s.conns r.event.fd = some q ∧
      Prog.All (fun a => a ≠ .closeClient ⟨w, j⟩) prog

/-- The worker reads its eventfd only if the counter is not zero. -/
def ReadsReady (s : State N C) (w : Fin N) (prog : ServerProg N C Unit) :
    Prop :=
  Prog.All (fun a => ¬ a.readsEventfd w) prog ∨
    s.notification w ≠ 0 ∧ ∃ ok next, prog = .act (.readEventfd w ok) next ∧
      ∀ answer, Prog.All (fun a => ¬ a.readsEventfd w) (next answer)

/-- What holds in everything that can happen. -/
structure PollInv (notificationFd : Fin N → Fd) [NeZero N]
    (p : Polling N C) : Prop where
  run : ∃ ls, (server N C).Run CountersRead (Configuration.init N C) ls
    p.config
  enrolled : Enrolled p.config.shared
  eventfds : ∀ w, p.config.shared.conns (notificationFd w) = none
  batch : ∀ w, BatchOk notificationFd p.config.shared w
    (p.config.prog (.worker w)) (p.batch w)
  reads : ∀ w, ReadsReady p.config.shared w (p.config.prog (.worker w))

section Steps

variable {notificationFd : Fin N → Fd} {s s' : State N C} {w : Fin N}
  {t : Thread N} {a : Act N C} {b : a.Answer} {batch rest : List Raised}
  {prog : ServerProg N C Unit} {r : Raised}

/-- A reported batch, for a worker that has nothing to do. -/
theorem Reported.batchOk (h : Reported notificationFd s w batch)
    (henrolled : Enrolled s) (hidle : s.point w = .idle) :
    BatchOk notificationFd s w (.ret ()) batch := by
  refine ⟨h.1, ?_, ?_⟩
  · intro r hr hsource
    rcases h.2 r hr with ⟨hfd, -, hne⟩ | ⟨-, -, hsome⟩
    · exact ⟨hfd, hne, trivial⟩
    · rw [hsource] at hsome
      cases hsome
  · intro r hr q hq
    rcases h.2 r hr with ⟨-, hsource, -⟩ | ⟨hmem, hconns, -⟩
    · rw [hq] at hsource
      cases hsource
    · rcases henrolled w _ hmem with hpoint | ⟨j, hslot⟩
      · rw [hidle] at hpoint
        cases hpoint
      · exact ⟨j, hslot, hconns.trans hq, trivial⟩

/-- The step of another thread. -/
theorem BatchOk.other (h : BatchOk notificationFd s w prog batch)
    (hinv : ∀ v, Relay s v) (hown : Own s) (ha : AllowedOf Any t s a)
    (ht : t ≠ .worker w) (he : exec a s = some (b, s')) :
    BatchOk notificationFd s' w prog batch := by
  refine ⟨h.nodup, ?_, ?_⟩
  · intro r hr hsource
    obtain ⟨hfd, hne, hall⟩ := h.eventfd r hr hsource
    refine ⟨hfd, exec_notification ?_ he hne, hall⟩
    intro hread
    cases a <;> simp only [Act.readsEventfd] at hread
    subst hread
    exact ht ha.1
  · intro r hr q hq
    obtain ⟨j, hslot, hconns, hall⟩ := h.client r hr q hq
    have hclose : a ≠ .closeClient ⟨w, j⟩ := by
      rintro rfl
      exact ht ha.1.1
    obtain ⟨hslot', hconns'⟩ := hown.slot_stays_of hinv ha hclose he hslot
    exact ⟨j, hslot', hconns'.trans hconns, hall⟩

/-- The step of the worker itself. -/
theorem BatchOk.own {next : a.Answer → ServerProg N C Unit}
    (h : BatchOk notificationFd s w (.act a next) batch)
    (hinv : ∀ v, Relay s v) (hown : Own s) (ha : AllowedOf Any t s a)
    (he : exec a s = some (b, s')) :
    BatchOk notificationFd s' w (next b) batch := by
  refine ⟨h.nodup, ?_, ?_⟩
  · intro r hr hsource
    obtain ⟨hfd, hne, hall⟩ := h.eventfd r hr hsource
    exact ⟨hfd, exec_notification hall.1 he hne, hall.2 b⟩
  · intro r hr q hq
    obtain ⟨j, hslot, hconns, hall⟩ := h.client r hr q hq
    obtain ⟨hslot', hconns'⟩ := hown.slot_stays_of hinv ha hall.1 he hslot
    exact ⟨j, hslot', hconns'.trans hconns, hall.2 b⟩

/-- An event of a connection is handled at the connection's slot. -/
theorem processEpollEvent_client (hown : Own s)
    (hfree : s.conns (notificationFd w) = none) {j : Fin C} {q : Conn}
    (hslot : s.holding (.slot ⟨w, j⟩) = some r.event.fd)
    (hconns : s.conns r.event.fd = some q) (result : RecvResult)
    (readOk epollOk : Bool) :
    processEpollEvent notificationFd s w r.event result readOk epollOk =
      some (if r.event.hangUp then .hangUp ⟨w, j⟩
        else .receive ⟨w, j⟩ result) := by
  have hne : r.event.fd ≠ notificationFd w := by
    intro hfd
    rw [hfd, hfree] at hconns
    cases hconns
  have hfind := (findClientByFd_slot hown hslot).2
  unfold processEpollEvent
  rw [if_neg hne, hfind]
  cases r.event.hangUp <;> rfl

theorem BatchOk.distinct
    (h : BatchOk notificationFd s w prog (r :: rest)) :
    ∀ r' ∈ rest, r'.event.fd ≠ r.event.fd := by
  have hnodup := h.nodup
  rw [List.map_cons, List.nodup_cons] at hnodup
  intro r' hr' hfd
  exact hnodup.1 (List.mem_map.mpr ⟨r', hr', hfd⟩)

theorem BatchOk.tail (h : BatchOk notificationFd s w prog (r :: rest)) :
    BatchOk notificationFd s w prog rest := by
  have hnodup := h.nodup
  rw [List.map_cons, List.nodup_cons] at hnodup
  exact ⟨hnodup.2, fun r' hr' => h.eventfd r' (List.mem_cons_of_mem _ hr'),
    fun r' hr' => h.client r' (List.mem_cons_of_mem _ hr')⟩

/-- The handler of the next event leaves the others' clients and eventfd
alone, and is only started for a live client. -/
theorem BatchOk.handle (h : BatchOk notificationFd s w (.ret ()) (r :: rest))
    (hown : Own s) (hfree : s.conns (notificationFd w) = none)
    {result : RecvResult} {readOk epollOk : Bool} {j : Job N C}
    (hevent : processEpollEvent notificationFd s w r.event result readOk
      epollOk = some j) :
    BatchOk notificationFd s w (jobProg (.worker w) j) rest ∧
      ReadsReady s w (jobProg (.worker w) j) ∧
      (JobOk j → CountersRead s (.start (.worker w) j)) := by
  have htail := h.tail
  cases hsource : r.source with
  | none =>
      obtain ⟨hfd, hne, -⟩ := h.eventfd r List.mem_cons_self hsource
      unfold processEpollEvent at hevent
      rw [if_pos hfd] at hevent
      cases hevent
      obtain ⟨next, hprog, hall⟩ :=
        all_registerNewClient (C := C) w readOk epollOk
      refine ⟨⟨htail.nodup, ?_, ?_⟩, .inr ⟨hne, readOk, next, hprog, ?_⟩,
        fun _ => ⟨trivial, fun _ _ hj => by cases hj⟩⟩
      · intro r' hr' hsource'
        have hfd' := (h.eventfd r' (List.mem_cons_of_mem _ hr') hsource').1
        exact absurd (hfd'.trans hfd.symm) (h.distinct r' hr')
      · intro r' hr' q hq
        obtain ⟨j, hslot, hconns, -⟩ := htail.client r' hr' q hq
        refine ⟨j, hslot, hconns, ?_⟩
        show Prog.All _ (registerNewClient w readOk epollOk)
        rw [hprog]
        exact ⟨nofun, fun answer =>
          (hall answer).imp fun _ h => h.not_strays.2 _⟩
      · exact fun answer => (hall answer).imp fun _ h => h.not_strays.1 w
  | some q =>
      obtain ⟨i, hslot, hconns, -⟩ := h.client r List.mem_cons_self q hsource
      have huse := (findClientByFd_slot hown hslot).1
      rw [processEpollEvent_client hown hfree hslot hconns] at hevent
      have hall : Prog.All (fun a => ¬ a.strays ⟨w, i⟩)
          (jobProg (.worker w) j) := by
        cases hup : r.event.hangUp with
        | true =>
            rw [hup] at hevent
            cases hevent
            exact (all_handleClientDisconnection ⟨w, i⟩).imp
              fun _ => Act.ofHandler.not_strays
        | false =>
            rw [hup] at hevent
            cases hevent
            exact all_receive ⟨w, i⟩ result
      have hreads : Prog.All (fun a => ¬ a.readsEventfd w)
          (jobProg (.worker w) j) := by
        refine hall.imp fun a ha hread => ha ?_
        cases a <;> simp_all [Act.readsEventfd, Act.strays]
      refine ⟨⟨htail.nodup, ?_, ?_⟩, .inl hreads, ?_⟩
      · intro r' hr' hsource'
        obtain ⟨hfd, hne, -⟩ := htail.eventfd r' hr' hsource'
        exact ⟨hfd, hne, hreads⟩
      · intro r' hr' q' hq'
        obtain ⟨i', hslot', hconns', -⟩ := htail.client r' hr' q' hq'
        refine ⟨i', hslot', hconns', hall.imp fun a ha hclose => ha ?_⟩
        rw [hclose]
        -- Another event is for another slot.
        intro heq
        rw [heq, hslot] at hslot'
        exact h.distinct r' hr' (Option.some.inj hslot').symm
      · intro hjob
        refine ⟨?_, fun _ _ hj => by cases hj⟩
        cases hup : r.event.hangUp with
        | true =>
            rw [hup] at hevent
            cases hevent
            exact ⟨rfl, huse⟩
        | false =>
            rw [hup] at hevent
            cases hevent
            refine ⟨⟨rfl, huse⟩, ?_⟩
            rintro bytes rfl
            exact hjob _ bytes rfl

end Steps

/-! ## Everything that can happen -/

section Polled

variable [NeZero N] {notificationFd : Fin N → Fd} {p p' : Polling N C}
  {w : Fin N}

theorem PollInv.init :
    PollInv notificationFd (Polling.init N C) := by
  refine ⟨⟨[], .nil⟩, ?_, fun _ => rfl, fun _ => ⟨.nil, nofun, nofun⟩,
    fun _ => .inl trivial⟩
  intro w fd hmem
  cases hmem

theorem PollInv.relay (h : PollInv notificationFd p) (w : Fin N) :
    Relay p.config.shared w := by
  obtain ⟨ls, hrun⟩ := h.run
  exact (owned_run hrun).1 w

theorem PollInv.own (h : PollInv notificationFd p) : Own p.config.shared := by
  obtain ⟨ls, hrun⟩ := h.run
  exact (owned_run hrun).2

theorem PollInv.sound (h : PollInv notificationFd p) :
    (handling N C Any).Sound idleView p.config := by
  obtain ⟨ls, hrun⟩ := h.run
  exact handling_sound (hrun.mono CountersRead.event)

/-- The steps of the batches are steps of the server as well. -/
theorem PollInv.step (h : PollInv notificationFd p)
    (hstep : PollStep notificationFd p p') : PollInv notificationFd p' := by
  obtain ⟨ls, hrun⟩ := h.run
  cases hstep with
  | wait w batch hidle hempty hreported =>
      refine ⟨⟨ls, hrun⟩, h.enrolled, h.eventfds, fun v => ?_, h.reads⟩
      show BatchOk notificationFd p.config.shared v _
        (Function.update p.batch w batch v)
      by_cases hv : v = w
      · subst hv
        rw [Function.update_self, hidle]
        exact hreported.batchOk h.enrolled (h.sound.idle_view hidle)
      · rw [Function.update_of_ne hv]
        exact h.batch v
  | handle w r rest result readOk epollOk j hidle hbatch hevent hjob =>
      have hw := h.batch w
      rw [hidle, hbatch] at hw
      obtain ⟨hrest, hreads, hok⟩ := hw.handle h.own (h.eventfds w) hevent
      refine ⟨⟨_, .snoc hrun (hok hjob) (.start p.config _ j hidle)⟩,
        h.enrolled, h.eventfds, fun v => ?_, fun v => ?_⟩
      · show BatchOk notificationFd p.config.shared v _
          (Function.update p.batch w rest v)
        by_cases hv : v = w
        · subst hv
          rw [Function.update_self, Config.update_prog_self]
          exact hrest
        · rw [Function.update_of_ne hv,
            Config.update_prog_ne _ (fun h => hv (Thread.worker.inj h))]
          exact h.batch v
      · by_cases hv : v = w
        · subst hv
          show ReadsReady p.config.shared v _
          rw [Config.update_prog_self]
          exact hreads
        · show ReadsReady p.config.shared v _
          rw [Config.update_prog_ne _ (fun h => hv (Thread.worker.inj h))]
          exact h.reads v
  | skip w r rest hidle hbatch hskip =>
      refine ⟨⟨ls, hrun⟩, h.enrolled, h.eventfds, fun v => ?_, h.reads⟩
      show BatchOk notificationFd p.config.shared v _
        (Function.update p.batch w rest v)
      by_cases hv : v = w
      · subst hv
        have hw := h.batch v
        rw [hbatch] at hw
        rw [Function.update_self]
        exact hw.tail
      · rw [Function.update_of_ne hv]
        exact h.batch v
  | accept fd keepAliveOk writeOk hidle =>
      have hok : CountersRead p.config.shared
          (.start .main (.accept fd keepAliveOk writeOk)) :=
        ⟨trivial, fun _ _ hj => by cases hj⟩
      refine ⟨⟨_, .snoc hrun hok (.start p.config _ _ hidle)⟩,
        h.enrolled, h.eventfds, fun v => ?_, fun v => ?_⟩
      · rw [Config.update_prog_ne _ (by simp)]
        exact h.batch v
      · rw [Config.update_prog_ne _ (by simp)]
        exact h.reads v
  | act t a next answer s hp he hpromise =>
      have ha : AllowedOf Any t p.config.shared a := h.sound.pre hp trivial
      have hread : ∀ t' w, Label.act t a ≠
          (.act t' (.readEventfd w false) : Step N C) := by
        intro t' w hl
        cases hl
        obtain ⟨rfl, -⟩ := ha
        rcases h.reads w with hall | ⟨hne, -⟩
        · rw [hp] at hall
          exact hall.1 rfl
        · exact hne hpromise
      have hok : CountersRead p.config.shared (.act t a) := ⟨trivial, hread⟩
      refine ⟨⟨_, .snoc hrun hok (.act p.config t a next answer s hp he)⟩,
        h.enrolled.step h.relay h.own ha he,
        exec_notificationFd hpromise he h.eventfds, fun v => ?_, fun v => ?_⟩
      · by_cases hv : t = .worker v
        · subst hv
          rw [Config.update_prog_self]
          have hv := h.batch v
          rw [hp] at hv
          exact hv.own h.relay h.own ha he
        · rw [Config.update_prog_ne _ (Ne.symm hv)]
          exact (h.batch v).other h.relay h.own ha hv he
      · by_cases hv : t = .worker v
        · subst hv
          rw [Config.update_prog_self]
          rcases h.reads v with hall | ⟨hne, ok, next', hprog, hall⟩
          · rw [hp] at hall
            exact .inl (hall.2 answer)
          · rw [hp] at hprog
            cases hprog
            exact .inl (hall answer)
        · rw [Config.update_prog_ne _ (Ne.symm hv)]
          have hother : ¬ a.readsEventfd v := by
            intro hread
            cases a <;> simp only [Act.readsEventfd] at hread
            subst hread
            exact hv ha.1
          rcases h.reads v with hall | ⟨hne, hprog⟩
          · exact .inl hall
          · exact .inr ⟨exec_notification hother he hne, hprog⟩

theorem pollInv_polled (h : Polled notificationFd p) :
    PollInv notificationFd p := by
  induction h with
  | refl => exact PollInv.init
  | tail _ hstep ih => exact ih.step hstep

/-- The slots of a worker and the events it still has to handle. -/
structure EventsFound (notificationFd : Fin N → Fd) (p : Polling N C)
    (w : Fin N) : Prop where
  free : ∀ j, (p.config.shared.clients ⟨w, j⟩).inUse = false →
    (p.config.shared.clients ⟨w, j⟩).clientFd = 0
  used : ∀ j, (p.config.shared.clients ⟨w, j⟩).inUse = true →
    0 < (p.config.shared.clients ⟨w, j⟩).clientFd
  apart : ∀ i j, (p.config.shared.clients ⟨w, i⟩).inUse = true →
    (p.config.shared.clients ⟨w, j⟩).inUse = true →
    (p.config.shared.clients ⟨w, i⟩).clientFd =
      (p.config.shared.clients ⟨w, j⟩).clientFd → i = j
  /-- The event raised for connection `q` is handled at the one slot that
  stands for `q`, which is live. -/
  found : ∀ r ∈ p.batch w, ∀ q, r.source = some q →
    ∃ c : ClientPtr N C, c.worker = w ∧
      findClientByFd p.config.shared w r.event.fd = some c ∧
      (p.config.shared.clients c).inUse = true ∧
      p.config.shared.connOf c = some q ∧
      ∀ result readOk epollOk,
        processEpollEvent notificationFd p.config.shared w r.event result
          readOk epollOk =
        some (if r.event.hangUp then .hangUp c else .receive c result)

/-- **Events reach their own connection**, however batches, disconnections,
registrations and reused descriptor numbers are interleaved. -/
theorem eventsFound_polled (h : Polled notificationFd p) (w : Fin N) :
    EventsFound notificationFd p w := by
  have hinv := pollInv_polled h
  have hown := hinv.own
  refine ⟨fun j => hown.free ⟨w, j⟩, fun j => hown.used ⟨w, j⟩, ?_, ?_⟩
  · intro i j hi hj hfd
    exact congrArg ClientPtr.index (hown.apart ⟨w, i⟩ ⟨w, j⟩ rfl hi hj hfd)
  · intro r hr q hq
    obtain ⟨j, hslot, hconns, -⟩ := (hinv.batch w).client r hr q hq
    obtain ⟨huse, hfind⟩ := findClientByFd_slot hown hslot
    refine ⟨⟨w, j⟩, rfl, hfind, huse, ?_, ?_⟩
    · rw [State.connOf, (of_holding_slot hslot).2, hconns]
    · exact processEpollEvent_client hown (hinv.eventfds w) hslot hconns

end Polled

/-! ## A client that hangs up -/

/-- The actions as far as their promises are kept. -/
def execPromised (notificationFd : Fin N → Fd) (a : Act N C)
    (s : State N C) : Option (a.Answer × State N C) :=
  match a with
  | .accept fd =>
      if ∀ w, fd ≠ notificationFd w then exec (.accept fd) s else none
  | .readEventfd _ false => none
  | a => exec a s

theorem exec_of_execPromised {notificationFd : Fin N → Fd} {a : Act N C}
    {s : State N C} {out : a.Answer × State N C}
    (h : execPromised notificationFd a s = some out) :
    exec a s = some out ∧ Promised notificationFd s a := by
  unfold execPromised at h
  split at h
  · split at h
    case isTrue hfd => exact ⟨h, hfd⟩
    case isFalse => cases h
  · cases h
  · rename_i haccept hread
    refine ⟨h, ?_⟩
    cases a <;> try trivial
    case accept fd => exact absurd rfl (haccept fd)
    case readEventfd w ok =>
      cases ok with
      | true => trivial
      | false => exact absurd rfl (hread w)

/-- A thread works on alone. -/
theorem pollStep_run {notificationFd : Fin N → Fd} {t : Thread N}
    (prog : ServerProg N C Unit) :
    ∀ (p : Polling N C) (s : State N C), p.config.prog t = prog →
      Prog.run (execPromised notificationFd) prog p.config.shared =
        some ((), s) →
      Relation.ReflTransGen (PollStep notificationFd) p
        ⟨p.config.update t s (.ret ()), p.batch⟩ := by
  induction prog with
  | ret value =>
      intro p s hp hrun
      simp only [Prog.run, Option.some.injEq, Prod.mk.injEq,
        true_and] at hrun
      subst hrun
      have hself : p.config.update t p.config.shared (.ret ()) = p.config := by
        simp only [Config.update]
        rw [← hp, Function.update_eq_self]
      rw [hself]
  | act a next ih =>
      intro p s hp hrun
      simp only [Prog.run] at hrun
      cases he : execPromised notificationFd a p.config.shared with
      | none => simp [he] at hrun
      | some out =>
          obtain ⟨answer, s₁⟩ := out
          rw [he] at hrun
          obtain ⟨hexec, hpromise⟩ := exec_of_execPromised he
          have hrest := ih answer ⟨p.config.update t s₁ (next answer), p.batch⟩
            s (by simp) (by simpa using hrun)
          rw [Config.update_update] at hrest
          exact .head (.act p t a next answer s₁ hp hexec hpromise) hrest

theorem quiet_update (s s' : State N C) (t : Thread N) :
    (quiet s).update t s' (.ret ()) = quiet s' :=
  congrArg (Config.mk s') (Function.update_eq_self t _)

theorem Polled.accept {notificationFd : Fin N → Fd} [NeZero N]
    {s s' : State N C} {batch : Fin N → List Raised} {fd : Fd}
    {keepAliveOk writeOk : Bool}
    (h : Polled notificationFd ⟨quiet s, batch⟩)
    (hrun : Prog.run (execPromised notificationFd)
      (acceptClient fd keepAliveOk writeOk) s = some ((), s')) :
    Polled notificationFd ⟨quiet s', batch⟩ := by
  have hstart := h.tail (.accept _ fd keepAliveOk writeOk rfl)
  have hwork := pollStep_run _
    ⟨(quiet s).update .main s (acceptClient fd keepAliveOk writeOk), batch⟩ s'
    (Config.update_prog_self _ _ _ _) hrun
  rw [Config.update_update, quiet_update] at hwork
  exact hstart.trans hwork

theorem Polled.wait {notificationFd : Fin N → Fd} [NeZero N]
    {s : State N C} {batch : Fin N → List Raised}
    (h : Polled notificationFd ⟨quiet s, batch⟩) (w : Fin N)
    (reported : List Raised) (hempty : batch w = [])
    (hreported : Reported notificationFd s w reported) :
    Polled notificationFd ⟨quiet s, Function.update batch w reported⟩ :=
  h.tail (.wait _ w reported rfl hempty hreported)

theorem Polled.handle {notificationFd : Fin N → Fd} [NeZero N]
    {s s' : State N C} {batch : Fin N → List Raised} {w : Fin N} {r : Raised}
    {rest : List Raised} (result : RecvResult) (readOk epollOk : Bool)
    (j : Job N C) (h : Polled notificationFd ⟨quiet s, batch⟩)
    (hbatch : batch w = r :: rest)
    (hevent : processEpollEvent notificationFd s w r.event result readOk
      epollOk = some j) (hjob : JobOk j)
    (hrun : Prog.run (execPromised notificationFd) (jobProg (.worker w) j) s =
      some ((), s')) :
    Polled notificationFd ⟨quiet s', Function.update batch w rest⟩ := by
  have hstart := h.tail
    (.handle _ w r rest result readOk epollOk j rfl hbatch hevent hjob)
  have hwork := pollStep_run _
    ⟨(quiet s).update (.worker w) s (jobProg (.worker w) j),
      Function.update batch w rest⟩ s' (Config.update_prog_self _ _ _ _) hrun
  rw [Config.update_update, quiet_update] at hwork
  exact hstart.trans hwork

/-- What is next: a connection is accepted, a worker is given a batch, or it
handles the next event of its batch. -/
inductive PollCue (N : Nat) where
  | accept (fd : Fd)
  | wait (w : Fin N) (reported : List Raised)
  | handle (w : Fin N) (result : RecvResult)

instance (notificationFd : Fin N → Fd) (s : State N C) (w : Fin N)
    (batch : List Raised) : Decidable (Reported notificationFd s w batch) := by
  unfold Reported
  infer_instance

/-- The decidable form of `JobOk`. -/
def jobOk : Job N C → Bool
  | .receive _ (.data bytes) => decide (ChunkOk bytes)
  | _ => true

theorem jobOk_of {j : Job N C} (h : jobOk j = true) : JobOk j := by
  rintro client bytes rfl
  exact of_decide_eq_true h

/-- What a cue makes of the server and the batches, every job being handled to
its end; `none` when it cannot be followed. -/
def followPoll (notificationFd : Fin N → Fd) (s : State N C)
    (batch : Fin N → List Raised) :
    PollCue N → Option (State N C × (Fin N → List Raised))
  | .accept fd =>
      (Prog.run (execPromised notificationFd) (acceptClient fd true true)
        s).map fun out => (out.2, batch)
  | .wait w reported =>
      if (batch w).isEmpty ∧ Reported notificationFd s w reported then
        some (s, Function.update batch w reported)
      else none
  | .handle w result =>
      (batch w).head?.bind fun r =>
        (processEpollEvent notificationFd s w r.event result true true).bind
          fun j =>
            if jobOk j then
              (Prog.run (execPromised notificationFd) (jobProg (.worker w) j)
                s).map fun out =>
                  (out.2, Function.update batch w (batch w).tail)
            else none

/-- The cues one after the other. -/
def followPolls (notificationFd : Fin N → Fd) (s : State N C)
    (batch : Fin N → List Raised) :
    List (PollCue N) → Option (State N C × (Fin N → List Raised))
  | [] => some (s, batch)
  | cue :: cues =>
      (followPoll notificationFd s batch cue).bind fun out =>
        followPolls notificationFd out.1 out.2 cues

theorem Polled.cue {notificationFd : Fin N → Fd} [NeZero N]
    {s s' : State N C} {batch batch' : Fin N → List Raised} {cue : PollCue N}
    (h : Polled notificationFd ⟨quiet s, batch⟩)
    (hcue : followPoll notificationFd s batch cue = some (s', batch')) :
    Polled notificationFd ⟨quiet s', batch'⟩ := by
  cases cue with
  | accept fd =>
      obtain ⟨⟨⟨⟩, s₁⟩, hrun, heq⟩ := Option.map_eq_some_iff.mp hcue
      cases heq
      exact h.accept hrun
  | wait w reported =>
      simp only [followPoll] at hcue
      split at hcue
      case isFalse => cases hcue
      case isTrue hok =>
        cases hcue
        exact h.wait w reported (List.isEmpty_iff.mp hok.1) hok.2
  | handle w result =>
      obtain ⟨r, hhead, hcue⟩ := Option.bind_eq_some_iff.mp hcue
      obtain ⟨j, hevent, hcue⟩ := Option.bind_eq_some_iff.mp hcue
      split at hcue
      case isFalse => cases hcue
      case isTrue hok =>
        obtain ⟨⟨⟨⟩, s₁⟩, hrun, heq⟩ := Option.map_eq_some_iff.mp hcue
        cases heq
        exact h.handle result true true j (List.eq_cons_of_mem_head? hhead)
          hevent (jobOk_of hok) hrun

theorem Polled.cues {notificationFd : Fin N → Fd} [NeZero N]
    {s' : State N C} {batch' : Fin N → List Raised} (cues : List (PollCue N)) :
    ∀ {s : State N C} {batch : Fin N → List Raised},
      Polled notificationFd ⟨quiet s, batch⟩ →
      followPolls notificationFd s batch cues = some (s', batch') →
      Polled notificationFd ⟨quiet s', batch'⟩ := by
  induction cues with
  | nil =>
      intro s batch h hcues
      cases hcues
      exact h
  | cons cue cues ih =>
      intro s batch h hcues
      obtain ⟨⟨s₁, batch₁⟩, hcue, hcues⟩ := Option.bind_eq_some_iff.mp hcues
      exact ih (h.cue hcue) hcues

/-- The descriptors of the eventfds in the example. -/
def exampleFd (w : Fin maxThreads) : Fd := 100 + w

/-- The worker is given the event of its eventfd and registers a client. -/
def registers (w : Fin maxThreads) : List (PollCue maxThreads) :=
  [.wait w [⟨⟨exampleFd w, false⟩, none⟩], .handle w (.nothing true)]

/-- Five clients come; the first worker has the first and the fifth of them, and
is told of both.  It lets the first one go, whose descriptor number is given to
the next client, of another worker, while the event of the fifth one waits. -/
def reuses : List (PollCue maxThreads) :=
  [.accept 5] ++ registers 0 ++ [.accept 6] ++ registers 1 ++
    [.accept 7, .accept 8, .accept 9] ++ registers 0 ++
    [.wait 0 [⟨⟨5, true⟩, some 0⟩, ⟨⟨9, false⟩, some 4⟩],
      .handle 0 (.nothing true), .accept 5] ++ registers 1

/-- The event that waits is still for the fifth client. -/
theorem eventsFound_reused :
    ∃ p : Polling maxThreads maxClientsPerThread,
      p.batch 0 = [⟨⟨9, false⟩, some 4⟩] ∧
        p.config.shared.conns 5 = some 5 ∧
        (p.config.shared.clients (clientOf 0)).inUse = false ∧
        (p.config.shared.clients (clientOf 5)).clientFd = 5 ∧
        EventsFound exampleFd p 0 ∧ EventsFound exampleFd p 1 := by
  have hfollow : (followPolls exampleFd
      (State.init maxThreads maxClientsPerThread) (fun _ => []) reuses).map
        (fun out => decide (out.2 0 = [⟨⟨9, false⟩, some 4⟩] ∧ out.1.conns 5 = some 5 ∧
          (out.1.clients (clientOf 0)).inUse = false ∧
          (out.1.clients (clientOf 5)).clientFd = 5)) = some true := by
    decide +kernel
  obtain ⟨⟨s, batch⟩, hcues, hfacts⟩ := Option.map_eq_some_iff.mp hfollow
  obtain ⟨hbatch, hconn, hfree, hfd⟩ := of_decide_eq_true hfacts
  have hpolled : Polled exampleFd ⟨quiet s, batch⟩ :=
    Polled.cues _ .refl hcues
  exact ⟨⟨quiet s, batch⟩, hbatch, hconn, hfree, hfd,
    eventsFound_polled hpolled 0, eventsFound_polled hpolled 1⟩

end ChatApp.Server
