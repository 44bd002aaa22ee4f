import ChatApp.Server.Buffers
import ChatApp.Server.HandOff

/-!
# As many rooms as wanted

One client after the other connects, submits a username and creates a room
with a name of the greatest length.  `crowded_reachable` follows this for any
number of rooms, so the list of all of them can be examined without playing
the scenario: with 44 rooms it no longer fits.
-/

namespace ChatApp.Server

open ChatApp.Foundation

variable {N C : Nat} {s s' : State N C} {c : ClientPtr N C}

/-! ## The jobs of one client, alone -/

theorem run_findWorkerLoop {fd : Fd}
    (hroom : s.numOfClients s.workerIndex < C) (left : Nat) :
    Prog.run execReads (findWorkerLoop fd left) s =
      some (some s.workerIndex,
        { (inspectWorker s fd).2 with
          workerIndex := nextIndex s.workerIndex }) := by
  have hbelow : ¬ (C : Int) ≤ s.numOfClients s.workerIndex := by omega
  cases left with
  | zero =>
      simp [findWorkerLoop, findWorkerRound, Prog.run, execReads, exec,
        inspectWorker, hbelow]
  | succ left =>
      simp [findWorkerLoop, findWorkerRound, Prog.run, execReads, exec,
        inspectWorker, hbelow]

/-- A connection that the worker at the static index takes. -/
theorem run_accept {fd : Fd} (hfd : 0 < fd) (hconn : s.conns fd = none)
    (hroom : s.numOfClients s.workerIndex < C)
    (hsem : s.newClient s.workerIndex ≠ 0) :
    Prog.run execReads (jobProg .main (.accept fd true true)) s = some ((),
      { s with
        conns := Function.update s.conns fd (some s.accepted)
        accepted := s.accepted + 1
        numOfClients := Function.update s.numOfClients s.workerIndex
          (s.numOfClients s.workerIndex + 1)
        journal := s.journal ++ [.assigned s.workerIndex fd]
        workerIndex := nextIndex s.workerIndex
        newClient := Function.update s.newClient s.workerIndex
          (s.newClient s.workerIndex - 1)
        notification := Function.update s.notification s.workerIndex
          (s.notification s.workerIndex + fd)
        main := .idle }) := by
  have hbelow : ¬ (C : Int) ≤ s.numOfClients s.workerIndex := by omega
  simp [jobProg, acceptClient, distributeClient, findWorkerNotAtCapacity,
    Prog.run, Prog.run_bind, run_findWorkerLoop, execReads, exec, hfd, hroom,
    hconn, inspectWorker, hbelow, hsem, writeEventfd]

/-- A registration for which the worker has a free slot. -/
theorem run_register {w : Fin N} {j : Fin C} (hfd : s.notification w ≠ 0)
    (hslot : s.freeSlot? w = some j) :
    Prog.run execReads (jobProg (.worker w) (.register true true)) s =
      some ((), { s with
        notification := Function.update s.notification w 0
        newClient := Function.update s.newClient w (s.newClient w + 1)
        clients := Function.update s.clients ⟨w, j⟩
          (Client.fresh (s.notification w))
        point := Function.update s.point w .idle
        calls := s.calls ++
          [.epollAdd w (s.notification w),
            .send (s.notification w) (s.conns (s.notification w))
              cmdWelcomeRequest welcomeText]
        journal := s.journal ++
          [.pickedUp w (s.notification w),
            .built .messageBuffer (welcomeText.length + 4)] }) := by
  unfold State.freeSlot? at hslot
  simp [jobProg, registerNewClient, Prog.run, execReads, exec, readEventfd,
    hfd, allocateClientSlot, hslot, sendMessageToClient, Client.fresh]

/-- The state once message `msg` of client `c` is handed over. -/
def routedState (s : State N C) (c : ClientPtr N C) (msg : Bytes) :
    State N C :=
  routeMessage
    { s with
      clients := Function.update s.clients c
        { s.clients c with currentMsg := msg }
      journal := s.journal ++ [.built .currentMsg msg.length] } c

/-- A chunk that holds one message. -/
theorem run_message {chunk msg : Bytes}
    (hcut : strstrTerminator chunk = some (msg, []))
    (hnul : cString chunk = chunk) (hempty : (s.clients c).currentMsg = [])
    (h : Prog.run execReads
      (dispatch c { s.clients c with currentMsg := msg })
      (routedState s c msg) = some ((), s')) :
    Prog.run execReads
        (jobProg (.worker c.worker) (.receive c (.data chunk))) s =
      some ((), { s' with
        clients := Function.update s'.clients c
          { s'.clients c with currentMsg := [] } }) := by
  have hnil : ∀ fuel, messageLoop c fuel [] = .ret () := by
    intro fuel
    cases fuel <;> rfl
  unfold routedState at h
  simp [jobProg, readAndProcessClientMessage, hnul, messageLoop, hcut,
    Prog.run, Prog.run_bind, execReads, exec, routeClientCommand_eq, hnil,
    hempty, h]

/-- What a client's job leaves alone here. -/
structure SameHandOff (s s' : State N C) : Prop where
  numOfClients : s'.numOfClients = s.numOfClients
  newClient : s'.newClient = s.newClient
  notification : s'.notification = s.notification
  conns : s'.conns = s.conns

/-! ## The room list, alone -/

theorem length_roomEntryText_ge (i : Fin maxRooms) (roomName : Bytes) :
    roomName.length + 9 ≤ (roomEntryText i roomName).length := by
  have hroom : (text "Room ").length = 5 := rfl
  have hcolon : (text ": ").length = 2 := rfl
  have hend : (text "\n").length = 1 := rfl
  have hindex : 1 ≤ (decimal i).length := by
    revert i
    decide
  simp only [roomEntryText, List.length_append, hroom, hcolon, hend]
  omega

/-- All names have the greatest length. -/
def NamesFull (s : State N C) : Prop :=
  ∀ i, (s.rooms i).inUse = true →
    (s.rooms i).roomName.length = maxRoomNameLen

/-- The frame of the list is at least as long as its lines require. -/
def ListBuilt (s s' : State N C) (start : Nat) (rooms : List (Fin maxRooms)) :
    Prop :=
  ∃ len, Entry.built .messageBuffer len ∈ s'.journal ∧
    start + (maxRoomNameLen + 9) *
      rooms.countP (fun i => (s.rooms i).inUse) + 4 ≤ len

theorem run_listScan (fd : Fd) (rooms : List (Fin maxRooms)) :
    ∀ (msg : Bytes) (avail : Bool) (s : State N C), NamesFull s →
      ∃ calls journal,
        Prog.run execReads (listScan fd msg avail rooms) s =
            some ((), { s with calls := calls, journal := journal }) ∧
          ListBuilt s { s with journal := journal } msg.length rooms := by
  induction rooms with
  | nil =>
      intro msg avail s hs
      cases avail with
      | true => exact ⟨_, _, rfl, msg.length + 4, by simp, by simp⟩
      | false =>
          exact ⟨_, _, rfl, (msg ++ noRoomsText).length + 4, by simp,
            by simp⟩
  | cons i rest ih =>
      intro msg avail s hs
      by_cases hu : (s.rooms i).inUse = true
      · have hrooms : (listSection s i msg).2.rooms = s.rooms := by
          simp [listSection, hu]
        obtain ⟨calls, journal, hrun, len, hmem, hlen⟩ :=
          ih (msg ++ roomEntryText i (s.rooms i).roomName) true
            (listSection s i msg).2 (by unfold NamesFull; rwa [hrooms])
        refine ⟨calls, journal, ?_, len, hmem, ?_⟩
        · simpa [listScan, Prog.run, execReads, exec, listSection, hu]
            using hrun
        · have hentry := length_roomEntryText_ge i (s.rooms i).roomName
          rw [hs i hu] at hentry
          rw [hrooms, List.length_append] at hlen
          rw [List.countP_cons_of_pos (p := fun i => (s.rooms i).inUse) hu,
            Nat.mul_add]
          omega
      · obtain ⟨calls, journal, hrun, len, hmem, hlen⟩ := ih msg avail s hs
        refine ⟨calls, journal, ?_, len, hmem, ?_⟩
        · simp [listScan, Prog.run, execReads, exec, listSection, hu, hrun]
        · simpa [hu] using hlen

/-! ## A client enters the lobby -/

/-- The message that submits a username. -/
def submitMsg : Bytes := cmdUsernameSubmit :: space :: text "bob"

theorem dispatch_submit {r : Client} (hr : r.state = .awaitingUsername)
    (hmsg : r.currentMsg = submitMsg) :
    dispatch c r =
      .act (.strcpyName c (content submitMsg)) fun _ =>
        .act (.setLobby c) fun _ => sendAvailRooms c := by
  cases r
  cases hr
  cases hmsg
  rfl

/-- The state once a username is stored. -/
def namedState (s : State N C) (c : ClientPtr N C) (name : Bytes) :
    State N C :=
  { s with
    clients := Function.update
      (Function.update s.clients c { s.clients c with name := name }) c
      { Function.update s.clients c { s.clients c with name := name } c with
        state := .inChatLobby }
    journal := s.journal ++ [.built .name name.length]
    point := Function.update s.point c.worker .idle }

theorem run_submit (hs : NamesFull s)
    (hstate : (s.clients c).state = .awaitingUsername)
    (hempty : (s.clients c).currentMsg = []) :
    ∃ s', Prog.run execReads (jobProg (.worker c.worker)
        (.receive c (.data (submitMsg ++ msgTerminator)))) s = some ((), s') ∧
      SameHandOff s s' ∧ s'.rooms = s.rooms ∧
      s'.workerIndex = s.workerIndex ∧
      s'.clients = Function.update s.clients c
        { s.clients c with
          name := content submitMsg
          state := .inChatLobby } ∧
      ListBuilt s s' roomListHeader.length (List.finRange maxRooms) := by
  obtain ⟨calls, journal, hrun, hbuilt⟩ :=
    run_listScan
      ((namedState (routedState s c submitMsg) c (content submitMsg)).clients
        c).clientFd
      (List.finRange maxRooms) roomListHeader false
      (namedState (routedState s c submitMsg) c (content submitMsg)) hs
  have hlist : Prog.run execReads (sendAvailRooms c)
      (namedState (routedState s c submitMsg) c (content submitMsg)) =
        some ((), { namedState (routedState s c submitMsg) c
          (content submitMsg) with calls := calls, journal := journal }) :=
    Prog.run_act rfl hrun
  have hprog : Prog.run execReads
      (dispatch c { s.clients c with currentMsg := submitMsg })
      (routedState s c submitMsg) =
        some ((), { namedState (routedState s c submitMsg) c
          (content submitMsg) with calls := calls, journal := journal }) := by
    rw [dispatch_submit (r := { s.clients c with currentMsg := submitMsg })
      hstate rfl]
    exact Prog.run_act rfl (Prog.run_act rfl hlist)
  refine ⟨_, run_message (by decide) (by decide) hempty hprog,
    ⟨rfl, rfl, rfl, rfl⟩, rfl, rfl, ?_, hbuilt⟩
  simp [namedState, routedState, routeMessage, hempty]

/-! ## A client opens a room -/

/-- The message that asks for a room with a name of the greatest length. -/
def createMsg : Bytes :=
  cmdRoomCreateRequest :: space :: List.replicate maxRoomNameLen 114

theorem dispatch_create {r : Client} (hr : r.state = .inChatLobby)
    (hmsg : r.currentMsg = createMsg) : dispatch c r = createChatRoom c := by
  cases r
  cases hr
  cases hmsg
  rfl

theorem run_createScan {fd : Fd} {roomName successMsg : Bytes}
    {i : Fin maxRooms} (rooms : List (Fin maxRooms))
    (h : rooms.find? (fun i => !(s.rooms i).inUse) = some i) :
    Prog.run execReads (createScan c fd roomName successMsg rooms) s =
      some ((), s.afterCreate i c roomName successMsg) := by
  induction rooms with
  | nil => cases h
  | cons j rest ih =>
      rw [List.find?_cons] at h
      cases hu : (s.rooms j).inUse with
      | true =>
          simp only [hu, Bool.not_true] at h
          simpa [createScan, Prog.run, execReads, exec,
            createSection_of_inUse hu] using ih h
      | false =>
          simp only [hu, Bool.not_false] at h
          cases h
          simp [createScan, Prog.run, execReads, exec,
            createSection_of_free hu]

theorem run_create {i : Fin maxRooms}
    (hi : (List.finRange maxRooms).find? (fun i => !(s.rooms i).inUse) =
      some i)
    (hstate : (s.clients c).state = .inChatLobby)
    (hempty : (s.clients c).currentMsg = []) :
    ∃ s', Prog.run execReads (jobProg (.worker c.worker)
        (.receive c (.data (createMsg ++ msgTerminator)))) s = some ((), s') ∧
      SameHandOff s s' ∧ s'.workerIndex = s.workerIndex ∧
      s'.rooms = Function.update s.rooms i
        ((s.rooms i).opened c (content createMsg)) ∧
      s'.clients = Function.update s.clients c ((s.clients c).entered i) := by
  let s₁ : State N C :=
    { routedState s c createMsg with
      journal := (routedState s c createMsg).journal ++
        [.built .successMsg (roomCreatedText (content createMsg)).length] }
  let s₂ := s₁.afterCreate i c (content createMsg)
    (roomCreatedText (content createMsg))
  have hself : (routedState s c createMsg).clients c =
      { s.clients c with currentMsg := createMsg } := by
    simp [routedState, routeMessage]
  have hscan : Prog.run execReads (createScan c
      ((routedState s c createMsg).clients c).clientFd (content createMsg)
      (roomCreatedText (content createMsg)) (List.finRange maxRooms)) s₁ =
        some ((), s₂) := run_createScan _ hi
  have hcreate : Prog.run execReads (createChatRoom c)
      (routedState s c createMsg) = some ((), s₂) := by
    refine Prog.run_act rfl ?_
    rw [hself] at hscan ⊢
    exact Prog.run_act rfl hscan
  have hprog : Prog.run execReads
      (dispatch c { s.clients c with currentMsg := createMsg })
      (routedState s c createMsg) = some ((), s₂) := by
    rw [dispatch_create (r := { s.clients c with currentMsg := createMsg })
      hstate rfl]
    exact hcreate
  refine ⟨_, run_message (by decide) (by decide) hempty hprog,
    ⟨rfl, rfl, rfl, rfl⟩, rfl, rfl, ?_⟩
  simp [s₂, s₁, State.afterCreate, routedState, routeMessage, hempty,
    Client.entered]

/-! ## One room after the other -/

/-- The next connection can be taken: all descriptors above `n` are free, no
worker has more than `n` clients, and no hand-over is under way. -/
structure Waiting (n : Nat) (s : State N C) : Prop where
  live : ∀ w, slots s w ≤ n
  counts : ∀ w, s.numOfClients w ≤ n
  newClient : ∀ w, s.newClient w ≠ 0
  notification : ∀ w, s.notification w = 0
  conns : ∀ fd, n < fd → s.conns fd = none

theorem Waiting.init [NeZero N] : Waiting 0 (State.init N C) := by
  have hslots : ∀ w, slots (State.init N C) w = 0 := fun w =>
    tally_const_false (p := Client.inUse) (b := Client.zero) rfl
  exact
    { live := fun w => (hslots w).le
      counts := fun w => le_refl 0
      newClient := fun w => Nat.one_ne_zero
      notification := fun w => rfl
      conns := fun fd _ => rfl }

theorem Waiting.same {n : Nat} (h : Waiting n s) (hsame : SameHandOff s s')
    (huse : ∀ c, (s'.clients c).inUse = (s.clients c).inUse) :
    Waiting n s' := by
  constructor
  · intro w
    rw [slots_congr huse]
    exact h.live w
  · rw [hsame.numOfClients]
    exact h.counts
  · rw [hsame.newClient]
    exact h.newClient
  · rw [hsame.notification]
    exact h.notification
  · rw [hsame.conns]
    exact h.conns

/-- A slot taken counts for its worker only. -/
theorem slots_update_le {r : Client}
    (h : s'.clients = Function.update s.clients c r) (w : Fin N) :
    slots s' w ≤ slots s w + 1 := by
  by_cases hw : w = c.worker
  · subst hw
    have hupdate := slots_update h
    have hone := Bool.toNat_le r.inUse
    omega
  · rw [slots_update_of_ne h hw]
    omega

/-- A worker below capacity has a free slot. -/
theorem exists_freeSlot {w : Fin N} (h : slots s w < C) :
    ∃ j, s.freeSlot? w = some j := by
  cases hfree : s.freeSlot? w with
  | some j => exact ⟨j, rfl⟩
  | none =>
      obtain ⟨j, hj⟩ := exists_of_tally_lt (f := fun j => s.clients ⟨w, j⟩)
        (p := Client.inUse) (by rwa [Fintype.card_fin])
      have huse := State.freeSlot?_none hfree j
      rw [hj] at huse
      cases huse

/-- Client `c` came between the two states: its slot was free, and its worker is
the one whose turn it was. -/
structure Came (s s' : State N C) (c : ClientPtr N C) : Prop where
  others : ∀ d, d ≠ c → s'.clients d = s.clients d
  free : (s.clients c).inUse = false
  worker : c.worker = s.workerIndex
  next : s'.workerIndex = nextIndex s.workerIndex

/-- What the client does next changes its own record only. -/
theorem Came.trans {s₁ : State N C} {r : Client} (h : Came s s₁ c)
    (hclients : s'.clients = Function.update s₁.clients c r)
    (hindex : s'.workerIndex = s₁.workerIndex) : Came s s' c where
  others := fun d hd => by
    rw [hclients, Function.update_of_ne hd]
    exact h.others d hd
  free := h.free
  worker := h.worker
  next := hindex.trans h.next

/-- One more client is connected. -/
theorem connect_reachable {n : Nat} (h : Waiting n s) (hn : n < C) :
    ∃ jobs s' c, play s jobs = some s' ∧ Waiting (n + 1) s' ∧
      s'.rooms = s.rooms ∧ s'.clients c = Client.fresh (n + 1) ∧
      Came s s' c := by
  obtain ⟨w, hw⟩ : ∃ w, s.workerIndex = w := ⟨_, rfl⟩
  have hnone := h.notification w
  have hroom : s.numOfClients s.workerIndex < C := by
    have hcount := h.counts s.workerIndex
    omega
  have haccept := run_accept (Nat.succ_pos n) (h.conns _ (Nat.lt_succ_self n))
    hroom (h.newClient _)
  rw [hw, hnone, Nat.zero_add] at haccept
  obtain ⟨s₁, hs₁, haccept⟩ : ∃ s₁, _ = s₁ ∧
      Prog.run execReads (jobProg .main (.accept (n + 1) true true)) s =
        some ((), s₁) := ⟨_, rfl, haccept⟩
  have hclients : s₁.clients = s.clients := by rw [← hs₁]
  obtain ⟨j, hj⟩ : ∃ j, s₁.freeSlot? w = some j := by
    apply exists_freeSlot
    have hle := h.live w
    have hsame := slots_congr (s := s)
      (fun c => by rw [hclients]) w
    omega
  have hfd : s₁.notification w = n + 1 := by simp [← hs₁]
  have hregister := run_register (by omega) hj
  rw [hfd] at hregister
  have hfree : (s.clients ⟨w, j⟩).inUse = false := by
    rw [← hclients]
    exact State.freeSlot?_some hj
  refine ⟨_, _, ⟨w, j⟩, play_append (play_one rfl haccept)
    (play_one rfl hregister), ?_, by rw [← hs₁], by simp,
    ⟨fun d hd => ?_, hfree, hw.symm, by rw [← hs₁, hw]⟩⟩
  rotate_left
  · show Function.update s₁.clients _ _ d = s.clients d
    rw [Function.update_of_ne hd, hclients]
  constructor
  · intro v
    have hle := h.live v
    have hupdate : slots { s₁ with
        clients := Function.update s₁.clients ⟨w, j⟩
          (Client.fresh (n + 1)) } v ≤ slots s v + 1 :=
      slots_update_le (by rw [hclients]) v
    exact hupdate.trans (by omega)
  · intro v
    have hle := h.counts v
    by_cases hv : v = w
    · subst hv
      simp only [← hs₁, Function.update_self]
      omega
    · simp only [← hs₁, Function.update_of_ne hv]
      omega
  · intro v
    by_cases hv : v = w
    · subst hv
      simp
    · simpa [← hs₁, hv] using h.newClient v
  · intro v
    by_cases hv : v = w
    · subst hv
      simp
    · simpa [← hs₁, hv] using h.notification v
  · intro fd hlt
    have hne : fd ≠ n + 1 := by omega
    simpa [← hs₁, hne] using h.conns fd (by omega)

/-- `n` rooms are in use, all with names of the greatest length. -/
structure Crowded (n : Nat) (s : State N C) : Prop where
  waiting : Waiting n s
  rooms : tally Room.inUse s.rooms = n
  names : NamesFull s

theorem Crowded.init [NeZero N] : Crowded 0 (State.init N C) where
  waiting := .init
  rooms := tally_const_false (b := Room.zero N C) rfl
  names := by
    intro i hi
    cases hi

/-- One more client is connected and has submitted its username; the list it
is sent holds all rooms. -/
theorem enter_reachable {n : Nat} (hwaiting : Waiting n s)
    (hnames : NamesFull s) (hn : n < C) :
    ∃ jobs s' c, play s jobs = some s' ∧ Waiting (n + 1) s' ∧
      s'.rooms = s.rooms ∧ (s'.clients c).inUse = true ∧
      (s'.clients c).state = .inChatLobby ∧
      (s'.clients c).currentMsg = [] ∧ Came s s' c ∧
      ∃ len, Entry.built .messageBuffer len ∈ s'.journal ∧
        roomListHeader.length +
          (maxRoomNameLen + 9) * tally Room.inUse s.rooms + 4 ≤ len := by
  obtain ⟨jobs, s₁, c, hplay, hwait, hrooms, hfresh, hcame⟩ :=
    connect_reachable hwaiting hn
  have hnames₁ : NamesFull s₁ := by
    unfold NamesFull
    rw [hrooms]
    exact hnames
  obtain ⟨s₂, hrun, hsame, hrooms₂, hindex, hclients, len, hmem, hlen⟩ :=
    run_submit hnames₁ (c := c) (by rw [hfresh]; rfl) (by rw [hfresh]; rfl)
  have hok : startOk s₁ (.worker c.worker)
      (.receive c (.data (submitMsg ++ msgTerminator))) = true := by
    have hlive : (s₁.clients c).inUse = true := by rw [hfresh]; rfl
    have hempty : (s₁.clients c).currentMsg = [] := by rw [hfresh]; rfl
    simp only [startOk, hlive, hempty]
    decide +kernel
  refine ⟨_, s₂, c, play_append hplay (play_one hok hrun),
    hwait.same hsame ?_, hrooms₂.trans hrooms, ?_, ?_, ?_,
    hcame.trans hclients hindex, len, hmem, ?_⟩
  · intro d
    rw [hclients]
    by_cases hd : d = c
    · subst hd
      simp
    · simp [hd]
  · simp [hclients, hfresh, Client.fresh]
  · simp [hclients]
  · simp [hclients, hfresh, Client.fresh, Client.zero]
  · rw [hrooms, ← tally_eq_countP] at hlen
    exact hlen

/-- Client `c` came and opened room `i`, the first free one. -/
structure Opened (s s' : State N C) (c : ClientPtr N C) (i : Fin maxRooms) :
    Prop where
  came : Came s s' c
  first : (List.finRange maxRooms).find? (fun i => !(s.rooms i).inUse) = some i
  rooms : s'.rooms =
    Function.update s.rooms i ((s.rooms i).opened c (content createMsg))
  live : (s'.clients c).inUse = true
  state : (s'.clients c).state = .inChatRoom
  roomIndex : (s'.clients c).roomIndex = i
  currentMsg : (s'.clients c).currentMsg = []

/-- One more room is opened. -/
theorem open_reachable {n : Nat} (h : Crowded n s) (hn : n < C)
    (hroom : n < maxRooms) :
    ∃ jobs s' c i, play s jobs = some s' ∧ Crowded (n + 1) s' ∧
      Opened s s' c i := by
  obtain ⟨jobs, s₁, c, hplay, hwait, hrooms, hlive, hstate, hempty, hcame, -⟩ :=
    enter_reachable h.waiting h.names hn
  obtain ⟨i, hi⟩ : ∃ i, (List.finRange maxRooms).find?
      (fun i => !(s.rooms i).inUse) = some i := by
    obtain ⟨i, hi⟩ := exists_of_tally_lt (p := Room.inUse) (f := s.rooms)
      (by rw [h.rooms, Fintype.card_fin]; exact hroom)
    rw [← Option.isSome_iff_exists, List.find?_isSome]
    exact ⟨i, List.mem_finRange i, by simp [hi]⟩
  have hfree : (s.rooms i).inUse = false := by
    have hfound := List.find?_some hi
    simpa using hfound
  obtain ⟨s₂, hrun, hsame, hindex, hrooms₂, hclients⟩ :=
    run_create (c := c) (by rw [hrooms]; exact hi) hstate hempty
  rw [hrooms] at hrooms₂
  have hok : startOk s₁ (.worker c.worker)
      (.receive c (.data (createMsg ++ msgTerminator))) = true := by
    simp only [startOk, hlive, hempty]
    decide +kernel
  have hself : s₂.clients c = (s₁.clients c).entered i := by
    rw [hclients, Function.update_self]
  refine ⟨_, s₂, c, i, play_append hplay (play_one hok hrun),
    ⟨hwait.same hsame ?_, ?_, ?_⟩,
    ⟨hcame.trans hclients hindex, hi, hrooms₂, ?_, ?_, ?_, ?_⟩⟩
  · intro d
    rw [hclients]
    by_cases hd : d = c
    · subst hd
      simp [Client.entered]
    · simp [hd]
  · have hupdate := tally_update Room.inUse s.rooms i
      ((s.rooms i).opened c (content createMsg))
    rw [hfree, h.rooms] at hupdate
    rw [hrooms₂]
    simpa [Room.opened] using hupdate
  · intro k hk
    rw [hrooms₂] at hk ⊢
    by_cases hki : k = i
    · subst hki
      rw [Function.update_self]
      rfl
    · simp only [Function.update_of_ne hki] at hk ⊢
      exact h.names k hk
  · rw [hself]
    exact hlive
  · rw [hself]
    rfl
  · rw [hself]
    rfl
  · rw [hself]
    exact hempty

/-- **Crowded servers are reachable**: any number of rooms can be in use, all
with names of the greatest length. -/
theorem crowded_reachable [NeZero N] (n : Nat) (hn : n ≤ C)
    (hrooms : n ≤ maxRooms) :
    ∃ jobs s, play (State.init N C) jobs = some s ∧ Crowded n s := by
  induction n with
  | zero => exact ⟨[], _, rfl, .init⟩
  | succ n ih =>
      obtain ⟨jobs, s, hplay, hs⟩ := ih (by omega) (by omega)
      obtain ⟨jobs', s', -, -, hplay', hs', -⟩ :=
        open_reachable hs (by omega) (by omega)
      exact ⟨_, s', play_append hplay hplay', hs'⟩

/-- With 44 such rooms the next room list overflows its buffers. -/
theorem not_buffers_fit :
    ¬ ∀ (ls : List (Step maxThreads maxClientsPerThread))
      (k : Configuration maxThreads maxClientsPerThread),
      (server maxThreads maxClientsPerThread).Run EventOk
        (Configuration.init maxThreads maxClientsPerThread) ls k →
      ∀ buffer len, Entry.built buffer len ∈ k.shared.journal →
        FitsBuffer buffer len := by
  intro hall
  obtain ⟨jobs, s, hplay, hs⟩ :=
    crowded_reachable (N := maxThreads) (C := maxClientsPerThread) 44
      (by decide) (by decide)
  obtain ⟨jobs', s', -, hplay', -, -, -, -, -, -, len, hmem, hlen⟩ :=
    enter_reachable hs.waiting hs.names (by decide)
  rw [hs.rooms] at hlen
  obtain ⟨ls, hrun⟩ := play_live (play_append hplay hplay')
  have hfit : len < maxMessageLenFromServer :=
    hall ls _ (hrun.mono fun _ _ hok => hok.1) .messageBuffer len hmem
      (by decide)
  have hheader : roomListHeader.length + (maxRoomNameLen + 9) * 44 + 4 ≥
      maxMessageLenFromServer := by decide +kernel
  omega

end ChatApp.Server
