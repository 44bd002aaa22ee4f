import ChatApp.Server.Crowding
import ChatApp.Server.Scans

/-!
# A refusal while a room is free

A scan that has found the first 49 rooms in use is overtaken.  When another client
takes the last room and none is freed, all are in use at one moment
(`refused_when_taken`).  When the first room is freed before the last one is taken,
some room is free at every moment of the call that is refused
(`refused_while_free`).
-/

namespace ChatApp.Server

open ChatApp.Foundation

variable {N C : Nat} {s s' : State N C} {c : ClientPtr N C}

/-! ## While a room is free -/

/-- The actions, without failing reads, as long as room `g` is free. -/
def execWhile (g : Fin maxRooms) (a : Act N C) (s : State N C) :
    Option (a.Answer × State N C) :=
  if (s.rooms g).inUse then none else execReads a s

theorem execWhile_of {g : Fin maxRooms} (h : (s.rooms g).inUse = false)
    (a : Act N C) : execWhile g a s = execReads a s :=
  if_neg (by simp [h])

/-- No read of an eventfd fails, some room is free, and thread `t` is given
nothing new. -/
def FreeDuring (t : Thread N) (s : State N C) (l : Step N C) : Prop :=
  ReadsSucceed s l ∧ (∃ i, (s.rooms i).inUse = false) ∧ ∀ j, l ≠ .start t j

theorem freeDuring_of_execWhile {g : Fin maxRooms} {a : Act N C}
    {out : a.Answer × State N C} (t u : Thread N)
    (h : execWhile g a s = some out) :
    exec a s = some out ∧ FreeDuring t s (.act u a) := by
  unfold execWhile at h
  split at h
  case isTrue => cases h
  case isFalse hfree =>
    obtain ⟨he, hok⟩ := exec_of_execReads h u
    exact ⟨he, hok, ⟨g, by simpa using hfree⟩, fun _ heq => by cases heq⟩

/-- The rooms found in use are passed. -/
theorem advance_createScan {g : Fin maxRooms} (hfree : (s.rooms g).inUse = false)
    {fd : Fd} {roomName successMsg : Bytes} (seen rest : List (Fin maxRooms))
    (hseen : ∀ i ∈ seen, (s.rooms i).inUse = true) :
    Prog.advance (execWhile g) seen.length
        (createScan c fd roomName successMsg (seen ++ rest)) s =
      some (createScan c fd roomName successMsg rest, s) := by
  induction seen with
  | nil => rfl
  | cons i seen ih =>
      have he : execWhile g (.createSection i c roomName successMsg) s =
          some (false, s) := by
        simp [execWhile, hfree, execReads, exec,
          createSection_of_inUse (hseen i List.mem_cons_self)]
      exact Prog.advance_act he
        (ih fun j hj => hseen j (List.mem_cons_of_mem _ hj))

/-- The state when the scan for client `c` begins. -/
def scanningState (s : State N C) (c : ClientPtr N C) : State N C :=
  { routedState s c createMsg with
    journal := (routedState s c createMsg).journal ++
      [.built .successMsg (roomCreatedText (content createMsg)).length] }

/-- The job of a client that asks for a room. -/
def createJob (c : ClientPtr N C) : Job N C :=
  .receive c (.data (createMsg ++ msgTerminator))

/-- What is left of the job when the rooms `rest` are still to visit. -/
def scanningProg (c : ClientPtr N C) (fd : Fd) (rest : List (Fin maxRooms)) :
    ServerProg N C Unit :=
  createScan c fd (content createMsg) (roomCreatedText (content createMsg))
      rest >>= fun _ =>
    .act (.clearCurrentMsg c) fun _ =>
      messageLoop c (createMsg ++ msgTerminator).length []

theorem jobProg_createJob :
    jobProg (.worker c.worker) (createJob c) =
      .act (.strcatCurrentMsg c createMsg) fun _ =>
        .act (.routeMessage c) fun self =>
          dispatch c self >>= fun _ =>
            .act (.clearCurrentMsg c) fun _ =>
              messageLoop c (createMsg ++ msgTerminator).length [] := by
  have hnul : cString (createMsg ++ msgTerminator) =
    createMsg ++ msgTerminator := by decide
  have hcut : strstrTerminator (createMsg ++ msgTerminator) =
    some (createMsg, []) := by decide
  show messageLoop c ((cString (createMsg ++ msgTerminator)).length + 1)
    (cString (createMsg ++ msgTerminator)) = _
  rw [hnul, messageLoop, hcut]
  simp [routeClientCommand_eq]

/-- The call passes the rooms in use. -/
theorem advance_createChatRoom {g : Fin maxRooms}
    (hfree : (s.rooms g).inUse = false) {seen rest : List (Fin maxRooms)}
    (hrooms : List.finRange maxRooms = seen ++ rest)
    (hseen : ∀ i ∈ seen, (s.rooms i).inUse = true) :
    Prog.advance (execWhile g) (seen.length + 2) (createChatRoom c)
        (routedState s c createMsg) =
      some (createScan c (s.clients c).clientFd (content createMsg)
        (roomCreatedText (content createMsg)) rest, scanningState s c) := by
  have hscan : Prog.advance (execWhile g) seen.length
      (createScan c (s.clients c).clientFd (content createMsg)
        (roomCreatedText (content createMsg)) (seen ++ rest))
      (scanningState s c) =
        some (createScan c (s.clients c).clientFd (content createMsg)
          (roomCreatedText (content createMsg)) rest, scanningState s c) :=
    advance_createScan (s := scanningState s c) hfree seen rest hseen
  rw [← hrooms] at hscan
  have hself : (routedState s c createMsg).clients c =
      { s.clients c with currentMsg := createMsg } := by
    simp [routedState, routeMessage]
  have hroute : ((routedState s c createMsg).rooms g).inUse = false := hfree
  have hread : execWhile g (.readClient c) (routedState s c createMsg) =
      some ((routedState s c createMsg).clients c,
        routedState s c createMsg) := by
    simp [execWhile, hroute, execReads, exec]
  refine Prog.advance_act hread ?_
  rw [hself]
  have hprinted : execWhile g
      (.sprintf .successMsg (roomCreatedText (content createMsg)).length)
      (routedState s c createMsg) = some ((), scanningState s c) := by
    simp [execWhile, hroute, execReads, exec]
    rfl
  exact Prog.advance_act hprinted hscan

/-- A client in the lobby asks for a room and passes those in use. -/
theorem advance_createJob {g : Fin maxRooms} (hfree : (s.rooms g).inUse = false)
    (hstate : (s.clients c).state = .inChatLobby)
    (hempty : (s.clients c).currentMsg = []) {seen rest : List (Fin maxRooms)}
    (hrooms : List.finRange maxRooms = seen ++ rest)
    (hseen : ∀ i ∈ seen, (s.rooms i).inUse = true) :
    Prog.advance (execWhile g) (seen.length + 4)
        (jobProg (.worker c.worker) (createJob c)) s =
      some (scanningProg c (s.clients c).clientFd rest, scanningState s c) := by
  have hcreate := advance_createChatRoom (c := c) hfree hrooms hseen
  rw [jobProg_createJob]
  have hrecord : ((routedState s c createMsg).clients c).state =
      .inChatLobby := by
    simp [routedState, routeMessage, hstate]
  have hmsg : ((routedState s c createMsg).clients c).currentMsg =
      createMsg := by
    simp [routedState, routeMessage]
  let s₁ : State N C := { s with
    clients := Function.update s.clients c
      { s.clients c with currentMsg := createMsg }
    journal := s.journal ++ [.built .currentMsg createMsg.length] }
  have hstrcat : execWhile g (.strcatCurrentMsg c createMsg) s =
      some ((), s₁) := by
    simp [s₁, execWhile, hfree, execReads, exec, hempty]
  have hroute : execWhile g (.routeMessage c) s₁ =
      some ((routedState s c createMsg).clients c,
        routedState s c createMsg) := by
    simp [s₁, execWhile, hfree, execReads, exec, routedState, routeMessage]
  refine Prog.advance_act hstrcat (Prog.advance_act hroute ?_)
  rw [dispatch_create hrecord hmsg]
  exact Prog.advance_bind _ hcreate

/-- The scan that finds the last room free takes it. -/
theorem advance_take {g : Fin maxRooms} (hfree : (s.rooms g).inUse = false)
    (fd : Fd) :
    ∃ p, Prog.advance (execWhile g) 1 (scanningProg c fd [g]) s =
      some (p, s.afterCreate g c (content createMsg)
        (roomCreatedText (content createMsg))) := by
  have htake : execWhile g (.createSection g c (content createMsg)
      (roomCreatedText (content createMsg))) s =
        some (true, s.afterCreate g c (content createMsg)
          (roomCreatedText (content createMsg))) := by
    simp [execWhile, hfree, execReads, exec, createSection_of_free hfree]
  exact ⟨_, Prog.advance_act htake rfl⟩

/-- The scan that finds the last room in use refuses. -/
theorem advance_refuse {g i : Fin maxRooms} (hfree : (s.rooms g).inUse = false)
    (huse : (s.rooms i).inUse = true) (fd : Fd) :
    ∃ next, Prog.advance (execWhile g) 1 (scanningProg c fd [i]) s =
      some (.act (.send fd errRoomCapacityFull
        (text "Room creation failed: Maximum number of rooms reached\n")) next,
        s) := by
  have hrefuse : execWhile g (.createSection i c (content createMsg)
      (roomCreatedText (content createMsg))) s = some (false, s) := by
    simp [execWhile, hfree, execReads, exec, createSection_of_inUse huse]
  exact ⟨_, Prog.advance_act hrefuse rfl⟩

/-! ## The only client of a room leaves -/

theorem Room.remove_opened (room : Room N C) (c : ClientPtr N C)
    (roomName : Bytes) :
    (((room.opened c roomName).remove c).cleanUp).inUse = false := by
  have hslot : ∃ j, (room.opened c roomName).slotOf? c = some j := by
    rw [← Option.isSome_iff_exists, Room.slotOf?, List.find?_isSome]
    exact ⟨⟨0, by decide⟩, List.mem_finRange _, by simp [Room.opened]⟩
  obtain ⟨j, hj⟩ := hslot
  rw [Room.remove_of_slot hj]
  simp [Room.cleanUp, Room.opened]

theorem run_cleanupClient {g : Fin maxRooms} (hfree : (s.rooms g).inUse = false) :
    ∃ s', Prog.run (execWhile g) (cleanupClient c) s = some ((), s') ∧
      s'.rooms = s.rooms := by
  let s₁ : State N C := { s with
    calls := s.calls ++ [.epollDel c.worker (s.clients c).clientFd] }
  refine ⟨subtractZeroed (zeroClient (closeClient s₁ c) c) c.worker, ?_, rfl⟩
  refine Prog.run_act (execWhile_of hfree _) ?_
  refine Prog.run_act (execWhile_of (s := s₁) hfree _) ?_
  refine Prog.run_act (execWhile_of (s := closeClient s₁ c) hfree _) ?_
  exact Prog.run_act
    (execWhile_of (s := zeroClient (closeClient s₁ c) c) hfree _) rfl

/-- A client in a room is disconnected. -/
theorem run_hangUp {g i : Fin maxRooms} (hfree : (s.rooms g).inUse = false)
    (hne : g ≠ i) (hstate : (s.clients c).state = .inChatRoom)
    (hindex : (s.clients c).roomIndex = i) :
    ∃ s', Prog.run (execWhile g) (jobProg (.worker c.worker) (.hangUp c)) s =
        some ((), s') ∧
      s'.rooms =
        Function.update s.rooms i ((s.rooms i).remove c).cleanUp := by
  have hleave : leaveSection s i c = s.afterLeave i c :=
    exec_leaveSection (b := ()) rfl
  have hrooms : (s.afterLeave i c).rooms =
      Function.update s.rooms i ((s.rooms i).remove c).cleanUp := rfl
  have hfree' : ((s.afterLeave i c).rooms g).inUse = false := by
    rw [hrooms, Function.update_of_ne hne]
    exact hfree
  obtain ⟨s', hclean, hsame⟩ := run_cleanupClient (c := c) hfree'
  have hexec : execWhile g (.leaveSection i c) s =
      some ((), s.afterLeave i c) := by
    rw [execWhile_of hfree]
    simp only [execReads, exec, hleave]
  refine ⟨s', ?_, hsame.trans hrooms⟩
  have hread : execWhile g (.readClient c) s = some (s.clients c, s) :=
    execWhile_of hfree _
  refine Prog.run_act hread ?_
  show Prog.run (execWhile g)
    (if (s.clients c).state = .inChatRoom then
      leaveRoom c (s.clients c).roomIndex >>= fun _ => cleanupClient c
    else cleanupClient c) s = _
  rw [if_pos hstate, hindex]
  exact Prog.run_act hexec hclean

/-! ## The first rooms are in use -/

/-- The first `n` rooms are in use, and `z`, the first client, is the only one in
the first room. -/
structure Filled (z : ClientPtr maxThreads maxClientsPerThread) (n : Nat)
    (s : RealState) : Prop where
  crowded : Crowded n s
  inUse : ∀ i, (s.rooms i).inUse = true ↔ i.val < n
  index : s.workerIndex = workerOf n
  worker : z.worker = workerOf 0
  live : (s.clients z).inUse = true
  state : (s.clients z).state = .inChatRoom
  roomIndex : (s.clients z).roomIndex = 0
  alone : ∃ room, s.rooms 0 = Room.opened room z (content createMsg)

theorem nextIndex_workerOf (n : Nat) :
    nextIndex (workerOf n) = workerOf (n + 1) := by
  unfold nextIndex workerOf
  rw [Fin.mk.injEq, Nat.mod_add_mod]

/-- The next room is opened at the first free index. -/
theorem Opened.inUse {n : Nat} {i : Fin maxRooms} (h : Opened s s' c i)
    (hinUse : ∀ i, (s.rooms i).inUse = true ↔ i.val < n) :
    i.val = n ∧ ∀ j, (s'.rooms j).inUse = true ↔ j.val < n + 1 := by
  have hval : i.val = n := by
    obtain ⟨hfree, k, hk, heq, hbefore⟩ :=
      List.find?_eq_some_iff_getElem.mp h.first
    rw [List.getElem_finRange] at heq
    have hkval : k = i.val := by
      rw [← heq]
      rfl
    have hge : ¬ i.val < n := by
      rw [← hinUse i]
      simpa using hfree
    have hle : ¬ n < i.val := by
      intro hlt
      have hused := hbefore n (by omega)
      rw [List.getElem_finRange] at hused
      have hself := (hinUse ⟨n, hlt.trans i.isLt⟩).mp (by simpa using hused)
      exact Nat.lt_irrefl _ hself
    omega
  refine ⟨hval, fun j => ?_⟩
  rw [h.rooms]
  by_cases hj : j = i
  · subst hj
    rw [Function.update_self]
    simp only [Room.opened, true_iff]
    omega
  · have hne : j.val ≠ i.val := fun heq => hj (Fin.ext heq)
    rw [Function.update_of_ne hj, hinUse j]
    omega

theorem Filled.first {s : RealState}
    {z : ClientPtr maxThreads maxClientsPerThread} {i : Fin maxRooms}
    (hcrowded : Crowded 1 s)
    (h : Opened (State.init maxThreads maxClientsPerThread) s z i) :
    Filled z 1 s := by
  have hinUse : ∀ j, ((State.init maxThreads maxClientsPerThread).rooms
      j).inUse = true ↔ j.val < 0 := by
    intro j
    simp [State.init, Room.zero]
  obtain ⟨hval, hinUse⟩ := h.inUse hinUse
  have hi : i = 0 := Fin.ext hval
  subst hi
  exact
    { crowded := hcrowded
      inUse := hinUse
      index := h.came.next
      worker := h.came.worker
      live := h.live
      state := h.state
      roomIndex := h.roomIndex
      alone := ⟨_, by rw [h.rooms, Function.update_self]⟩ }

theorem Filled.more {s s' : RealState} {n : Nat}
    {z c : ClientPtr maxThreads maxClientsPerThread} {i : Fin maxRooms}
    (h : Filled z n s) (hn : 0 < n) (hcrowded : Crowded (n + 1) s')
    (hopened : Opened s s' c i) : Filled z (n + 1) s' := by
  obtain ⟨hval, hinUse⟩ := hopened.inUse h.inUse
  have hz : s'.clients z = s.clients z := by
    apply hopened.came.others
    intro heq
    have hlive := h.live
    rw [heq, hopened.came.free] at hlive
    cases hlive
  have hne : (0 : Fin maxRooms) ≠ i := by
    intro heq
    rw [← heq] at hval
    exact absurd hval.symm hn.ne'
  have hroom : s'.rooms 0 = s.rooms 0 := by
    rw [hopened.rooms, Function.update_of_ne hne]
  exact
    { crowded := hcrowded
      inUse := hinUse
      index := by rw [hopened.came.next, h.index, nextIndex_workerOf]
      worker := h.worker
      live := by rw [hz]; exact h.live
      state := by rw [hz]; exact h.state
      roomIndex := by rw [hz]; exact h.roomIndex
      alone := by rw [hroom]; exact h.alone }

theorem filled_reachable (n : Nat) (hn : n < maxRooms) :
    ∃ jobs s z, play (State.init maxThreads maxClientsPerThread) jobs = some s ∧
      Filled z (n + 1) s := by
  induction n with
  | zero =>
      obtain ⟨jobs, s, z, i, hplay, hcrowded, hopened⟩ := open_reachable
        (N := maxThreads) (C := maxClientsPerThread) .init (by decide) hn
      exact ⟨jobs, s, z, hplay, .first hcrowded hopened⟩
  | succ n ih =>
      obtain ⟨jobs, s, z, hplay, hs⟩ := ih (by omega)
      obtain ⟨jobs', s', c, i, hplay', hcrowded, hopened⟩ :=
        open_reachable hs.crowded (hn.trans (by decide)) hn
      exact ⟨_, s', z, play_append hplay hplay',
        hs.more (Nat.succ_pos n) hcrowded hopened⟩

/-! ## The run -/

/-- The last room. -/
def lastRoom : Fin maxRooms := Fin.last 49

/-- The rooms before the last one. -/
def firstRooms : List (Fin maxRooms) := (List.finRange 49).map Fin.castSucc

theorem finRange_maxRooms :
    List.finRange maxRooms = firstRooms ++ [lastRoom] :=
  List.finRange_succ_last

theorem mem_firstRooms {i : Fin maxRooms} (h : i ∈ firstRooms) :
    i.val < 49 := by
  obtain ⟨k, -, rfl⟩ := List.mem_map.mp h
  exact k.isLt

/-- Three clients of three workers: `z` is alone in the first room, `x` and `y`
are in the lobby; only the last room is free. -/
structure Poised (x y z : ClientPtr maxThreads maxClientsPerThread)
    (s : RealState) : Prop where
  inUse : ∀ i, (s.rooms i).inUse = true ↔ i.val < 49
  alone : ∃ room, s.rooms 0 = Room.opened room z (content createMsg)
  inRoom : (s.clients z).inUse = true ∧ (s.clients z).state = .inChatRoom ∧
    (s.clients z).roomIndex = 0
  lobby : ∀ c ∈ [x, y], (s.clients c).inUse = true ∧
    (s.clients c).state = .inChatLobby ∧ (s.clients c).currentMsg = []
  workers : x.worker = workerOf 49 ∧ y.worker = workerOf 50 ∧
    z.worker = workerOf 0

theorem Came.ne {d : ClientPtr N C} (h : Came s s' c)
    (hd : (s.clients d).inUse = true) : d ≠ c := by
  rintro rfl
  rw [h.free] at hd
  cases hd

theorem poised_reachable :
    ∃ jobs s x y z, play (State.init maxThreads maxClientsPerThread) jobs =
      some s ∧ Poised x y z s := by
  obtain ⟨jobs, s, z, hplay, hs⟩ := filled_reachable 48 (by decide)
  obtain ⟨jobs₁, s₁, x, hplay₁, hwaiting, hrooms₁, hlive₁, hstate₁, hempty₁,
    hcame₁, -⟩ := enter_reachable hs.crowded.waiting hs.crowded.names
      (by decide)
  have hnames : NamesFull s₁ := by
    unfold NamesFull
    rw [hrooms₁]
    exact hs.crowded.names
  obtain ⟨jobs₂, s₂, y, hplay₂, -, hrooms₂, hlive₂, hstate₂, hempty₂, hcame₂,
    -⟩ := enter_reachable hwaiting hnames (by decide)
  have hz₁ : s₁.clients z = s.clients z := hcame₁.others z (hcame₁.ne hs.live)
  have hz : s₂.clients z = s.clients z := by
    rw [hcame₂.others z (hcame₂.ne (by rw [hz₁]; exact hs.live)), hz₁]
  have hx : s₂.clients x = s₁.clients x :=
    hcame₂.others x (hcame₂.ne hlive₁)
  have hrooms : s₂.rooms = s.rooms := hrooms₂.trans hrooms₁
  refine ⟨_, s₂, x, y, z, play_append (play_append hplay hplay₁) hplay₂, ?_⟩
  constructor
  · rw [hrooms]
    exact hs.inUse
  · rw [hrooms]
    exact hs.alone
  · rw [hz]
    exact ⟨hs.live, hs.state, hs.roomIndex⟩
  · intro c hc
    rcases List.mem_cons.mp hc with rfl | hc
    · rw [hx]
      exact ⟨hlive₁, hstate₁, hempty₁⟩
    · cases List.mem_singleton.mp hc
      exact ⟨hlive₂, hstate₂, hempty₂⟩
  · refine ⟨hcame₁.worker.trans hs.index, ?_, hs.worker⟩
    rw [hcame₂.worker, hcame₁.next, hs.index, nextIndex_workerOf]

theorem scanningState_ne {d : ClientPtr N C} (h : d ≠ c) :
    (scanningState s c).clients d = s.clients d :=
  Function.update_of_ne h _ _

theorem startOk_createJob (hlive : (s.clients c).inUse = true)
    (hempty : (s.clients c).currentMsg = []) :
    startOk s (.worker c.worker) (createJob c) = true := by
  simp only [createJob, startOk, hlive, hempty]
  decide +kernel

/-- Threads other than worker `w` handle jobs, and no room is freed. -/
def NoneFreed (w : Fin N) (s s' : State N C) : Prop :=
  Meanwhile w s s' ∧ ∀ i, (s.rooms i).inUse = true → (s'.rooms i).inUse = true

theorem NoneFreed.refl (w : Fin N) (s : State N C) : NoneFreed w s s :=
  ⟨.refl w s, fun _ => id⟩

theorem NoneFreed.trans {w : Fin N} {s₁ s₂ s₃ : State N C}
    (h : NoneFreed w s₁ s₂) (h' : NoneFreed w s₂ s₃) : NoneFreed w s₁ s₃ :=
  ⟨h.1.trans h'.1, fun i hi => h'.2 i (h.2 i hi)⟩

/-- The last room is taken while a client scans the rooms before it: it is
refused, and when it was all rooms were in use. -/
theorem refused_when_taken :
    ∃ (jobs : List (Thread maxThreads × Job maxThreads maxClientsPerThread))
      (s s' : RealState) (x : ClientPtr maxThreads maxClientsPerThread)
      (steps : Steps _ _),
      play (State.init _ _) jobs = some s ∧
      (s.rooms lastRoom).inUse = false ∧
      Prog.Exec exec (NoneFreed x.worker) (createChatRoom x)
        (routedState s x createMsg) steps () s' ∧
      (∀ i, ∃ e ∈ steps, (∃ roomName successMsg, e.action =
          .createSection i x roomName successMsg) ∧
        (e.before.rooms i).inUse = true) ∧
      ∃ e ∈ steps, ∀ i, (e.before.rooms i).inUse = true := by
  obtain ⟨jobs, s, x, y, z, hplay, hs⟩ := poised_reachable
  obtain ⟨hx, hxstate, hxempty⟩ := hs.lobby x (by simp)
  obtain ⟨hy, hystate, hyempty⟩ := hs.lobby y (by simp)
  obtain ⟨hwx, hwy, -⟩ := hs.workers
  have hyx : Thread.worker y.worker ≠ .worker x.worker := by
    rw [hwx, hwy]
    decide
  have hyx' : y ≠ x := fun h => hyx (by rw [h])
  have hlast : (s.rooms lastRoom).inUse = false := by
    rw [← Bool.not_eq_true, hs.inUse]
    decide
  have hbefore : ∀ i ∈ firstRooms, (s.rooms i).inUse = true :=
    fun i hi => (hs.inUse i).mpr (mem_firstRooms hi)
  have hless : ∀ (a : Act maxThreads maxClientsPerThread) s out,
      execWhile lastRoom a s = some out → exec a s = some out :=
    fun a s out he => (freeDuring_of_execWhile .main .main he).1
  have hpassed := Prog.advance_mono hless
    (advance_createChatRoom (c := x) hlast finRange_maxRooms hbefore)
  -- `y` takes the last room
  have hfirst : (List.finRange maxRooms).find?
      (fun i => !((scanningState s x).rooms i).inUse) = some lastRoom := by
    have hnone : firstRooms.find? (fun i => !(s.rooms i).inUse) = none := by
      rw [List.find?_eq_none]
      intro i hi
      simp [hbefore i hi]
    have hsame : (scanningState s x).rooms = s.rooms := rfl
    rw [hsame, finRange_maxRooms, List.find?_append, hnone]
    simp [hlast]
  have hy₁ : (scanningState s x).clients y = s.clients y :=
    scanningState_ne hyx'
  obtain ⟨s₁, hrun, -, -, hrooms, -⟩ := run_create (c := y) hfirst
    (by rw [hy₁]; exact hystate) (by rw [hy₁]; exact hyempty)
  have hall : ∀ i, (s₁.rooms i).inUse = true := by
    intro i
    rw [hrooms]
    by_cases hi : i = lastRoom
    · subst hi
      rw [Function.update_self]
      rfl
    · rw [Function.update_of_ne hi]
      have hlt : i.val < 49 := by
        have hne : i.val ≠ 49 := fun h => hi (Fin.ext h)
        have hbound : i.val < 50 := i.isLt
        omega
      exact (hs.inUse i).mpr hlt
  have htaken : NoneFreed x.worker (scanningState s x) s₁ :=
    ⟨.one hyx (play_one (j := createJob y)
      (startOk_createJob (by rw [hy₁]; exact hy) (by rw [hy₁]; exact hyempty))
      hrun), fun i _ => hall i⟩
  -- `x` finds it in use
  have hsection : exec (.createSection lastRoom x (content createMsg)
      (roomCreatedText (content createMsg))) s₁ = some (false, s₁) := by
    simp only [exec, createSection_of_inUse (hall lastRoom)]
  obtain ⟨first, hexec⟩ := Prog.Exec.of_advance (NoneFreed.refl x.worker)
    (fun _ _ _ => NoneFreed.trans) hpassed htaken
    (.act (.refl _ _) hsection (.act (.refl _ _) rfl (.ret (.refl _ _))))
  obtain ⟨hfound, hfull⟩ := createChatRoom_refused hexec
    ⟨_, List.mem_append_right _ (List.mem_cons_of_mem _ List.mem_cons_self),
      _, _, rfl⟩
  exact ⟨jobs, s, _, x, _, hplay, hlast, hexec, hfound,
    hfull fun s s' i h => h.2 i⟩

/-- A creation is refused although some room was free at every moment of the
call. -/
theorem refused_while_free :
    ∃ (ls ls' : List (Step maxThreads maxClientsPerThread))
      (k k' : Configuration maxThreads maxClientsPerThread)
      (t : Thread maxThreads) (j : Job maxThreads maxClientsPerThread)
      (fd : Fd) (next : Unit → ServerProg _ _ Unit),
      (server _ _).Run ReadsSucceed (Configuration.init _ _) ls k ∧
      k.prog t = .ret () ∧ ReadsSucceed k.shared (.start t j) ∧
      (server _ _).Run (FreeDuring t)
        (k.update t k.shared (jobProg t j)) ls' k' ∧
      k'.prog t = .act (.send fd errRoomCapacityFull
        (text "Room creation failed: Maximum number of rooms reached\n")) next ∧
      ∃ i, (k'.shared.rooms i).inUse = false := by
  obtain ⟨jobs, s, x, y, z, hplay, hs⟩ := poised_reachable
  obtain ⟨ls, hreach⟩ := play_reaches hplay
  obtain ⟨hx, hxstate, hxempty⟩ := hs.lobby x (by simp)
  obtain ⟨hy, hystate, hyempty⟩ := hs.lobby y (by simp)
  obtain ⟨hz, hzstate, hzindex⟩ := hs.inRoom
  obtain ⟨hwx, hwy, hwz⟩ := hs.workers
  have hyx : Thread.worker y.worker ≠ .worker x.worker := by
    rw [hwx, hwy]
    decide
  have hzx : Thread.worker z.worker ≠ .worker x.worker := by
    rw [hwx, hwz]
    decide
  have hzy : Thread.worker z.worker ≠ .worker y.worker := by
    rw [hwy, hwz]
    decide
  have hyx' : y ≠ x := fun h => hyx (by rw [h])
  have hzx' : z ≠ x := fun h => hzx (by rw [h])
  have hzy' : z ≠ y := fun h => hzy (by rw [h])
  have hlast : (s.rooms lastRoom).inUse = false := by
    rw [← Bool.not_eq_true, hs.inUse]
    decide
  have hbefore : ∀ i ∈ firstRooms, (s.rooms i).inUse = true :=
    fun i hi => (hs.inUse i).mpr (mem_firstRooms hi)
  have hact : ∀ g u (a : Act maxThreads maxClientsPerThread) s out,
      execWhile g a s = some out → (server _ _).exec a s = some out ∧
        FreeDuring (.worker x.worker) s (.act u a) :=
    fun g u a s out he => freeDuring_of_execWhile (.worker x.worker) u he
  -- `x` passes all rooms but the last
  let k₀ : Configuration maxThreads maxClientsPerThread := quiet s
  have hnil : (server _ _).Run (FreeDuring (.worker x.worker))
      (k₀.update (.worker x.worker) s
        (jobProg (.worker x.worker) (createJob x))) []
      (k₀.update (.worker x.worker) s
        (jobProg (.worker x.worker) (createJob x))) := .nil
  obtain ⟨ls₁, h₁⟩ := hnil.proceed (t := .worker x.worker) (hact lastRoom _)
    (by
      rw [Config.update_prog_self]
      exact advance_createJob hlast hxstate hxempty finRange_maxRooms hbefore)
  rw [Config.update_update] at h₁
  -- so does `y`
  have hy₁ := scanningState_ne (s := s) hyx'
  obtain ⟨ls₂, h₂⟩ := h₁.begin (t := .worker y.worker) (j := createJob y)
    (by rw [Config.update_prog_ne _ hyx]; rfl) (hact lastRoom _)
    ⟨reads_of_startOk (startOk_createJob (by
        show ((scanningState s x).clients y).inUse = true
        rw [hy₁]
        exact hy) (by
        show ((scanningState s x).clients y).currentMsg = []
        rw [hy₁]
        exact hyempty)), ⟨lastRoom, hlast⟩, fun _ heq => hyx (Label.start.inj heq).1⟩
    (advance_createJob (s := scanningState s x) hlast (by rw [hy₁]; exact hystate)
      (by rw [hy₁]; exact hyempty) finRange_maxRooms hbefore)
  -- `z` leaves the first room, which is free then
  have hz₂ : (scanningState (scanningState s x) y).clients z = s.clients z := by
    rw [scanningState_ne hzy', scanningState_ne hzx']
  obtain ⟨s₃, hgone, hrooms₃⟩ := run_hangUp (c := z)
    (s := scanningState (scanningState s x) y) hlast (i := 0) (by decide)
    (by rw [hz₂]; exact hzstate) (by rw [hz₂]; exact hzindex)
  have hlast₃ : (s₃.rooms lastRoom).inUse = false := by
    rw [hrooms₃, Function.update_of_ne (by decide)]
    exact hlast
  have hfree₃ : (s₃.rooms 0).inUse = false := by
    obtain ⟨room, hroom⟩ := hs.alone
    have hsame : (scanningState (scanningState s x) y).rooms 0 = s.rooms 0 := rfl
    rw [hrooms₃, Function.update_self, hsame, hroom]
    exact Room.remove_opened room z (content createMsg)
  have hzok : FreeDuring (.worker x.worker)
      (scanningState (scanningState s x) y)
      (.start (.worker z.worker) (.hangUp z)) := by
    refine ⟨reads_of_startOk ?_, ⟨lastRoom, hlast⟩,
      fun _ heq => hzx (Label.start.inj heq).1⟩
    simp only [startOk, hz₂, hz, Bool.and_true, decide_true]
  obtain ⟨ls₃, h₃⟩ := h₂.job (t := Thread.worker z.worker) (j := Job.hangUp z)
    (by
      rw [Config.update_prog_ne _ hzy, Config.update_prog_ne _ hzx]
      rfl) (hact lastRoom _) hzok hgone
  -- `y` takes the last room
  obtain ⟨p, htake⟩ := advance_take (c := y) hlast₃
    ((scanningState s x).clients y).clientFd
  obtain ⟨ls₄, h₄⟩ := h₃.proceed (t := .worker y.worker) (hact lastRoom _)
    (by
      rw [Config.update_prog_ne _ hzy.symm, Config.update_prog_self]
      exact htake)
  -- `x` finds it in use
  have hrooms₄ : (s₃.afterCreate lastRoom y (content createMsg)
      (roomCreatedText (content createMsg))).rooms = Function.update s₃.rooms
        lastRoom ((s₃.rooms lastRoom).opened y (content createMsg)) := rfl
  have hfree₄ : ((s₃.afterCreate lastRoom y (content createMsg)
      (roomCreatedText (content createMsg))).rooms 0).inUse = false := by
    rw [hrooms₄, Function.update_of_ne (by decide)]
    exact hfree₃
  have huse₄ : ((s₃.afterCreate lastRoom y (content createMsg)
      (roomCreatedText (content createMsg))).rooms lastRoom).inUse = true := by
    rw [hrooms₄, Function.update_self]
    rfl
  obtain ⟨next, hrefuse⟩ := advance_refuse (c := x) hfree₄ huse₄
    (s.clients x).clientFd
  obtain ⟨ls₅, h₅⟩ := h₄.proceed (t := .worker x.worker) (hact 0 _)
    (by
      rw [Config.update_prog_ne _ hyx.symm, Config.update_prog_ne _ hzx.symm,
        Config.update_prog_ne _ hyx.symm, Config.update_prog_self]
      exact hrefuse)
  exact ⟨ls, ls₅, k₀, _, .worker x.worker, createJob x, _, next, hreach, rfl,
    reads_of_startOk (startOk_createJob hx hxempty), h₅,
    Config.update_prog_self _ _ _ _, 0, hfree₄⟩

end ChatApp.Server
