import ChatApp.Foundation.Refinement
import ChatApp.Server.Chronicle
import ChatApp.Server.Discipline
import ChatApp.Server.Drafts

/-!
# The accesses against the sections

How a memory in the middle of several sections relates to a state in which each
of these sections is one action that happened when its lock was taken.  Rooms
and counts whose locks are free are the same in both, and so are the client
records of threads outside the sections; a thread inside one has a `Draft` of
what it is going to have done.  `Tied` says this of all threads at once, and that
every connection has been sent the room traffic of the state but for the frames
that one thread is still to send.
-/

namespace ChatApp.Server

open ChatApp.Foundation

variable {N C : Nat}

/-! ## Room traffic with its rooms -/

/-- Room traffic with the room in whose section it was sent. -/
abbrev Traffic : Type := Option (Fin maxRooms) × Told Unit Bytes

/-- The room traffic sent to the connection, in order. -/
def codeTraffic (q : Conn) (calls : List Call) : List Traffic :=
  calls.filterMap fun call =>
    ((call.call.frameTo q).bind roomFrame).map (Prod.mk call.origin.room?)

/-- The traffic a participant's message is. -/
def traffic : Told (Fin maxRooms) Bytes → Traffic
  | .founded i => (some i, .founded ())
  | .joined i => (some i, .joined ())
  | .notice i msg => (some i, .notice () msg)
  | .left i => (some i, .left ())

/-- What the connection has been sent of what the log says. -/
def delivered (s : State N C) (q : Conn) : List (Told (Fin maxRooms) Bytes) :=
  (told s.events q).take (roomTraffic q s.calls).length

section Traffic

variable {q : Conn}

@[simp] theorem codeTraffic_nil : codeTraffic q [] = [] := rfl

@[simp] theorem codeTraffic_append (calls calls' : List Call) :
    codeTraffic q (calls ++ calls') =
      codeTraffic q calls ++ codeTraffic q calls' := by
  simp [codeTraffic]

/-- Calls made for one room. -/
theorem codeTraffic_room {i : Option (Fin maxRooms)} {calls : List Call}
    (h : ∀ call ∈ calls, call.origin.room? = i) :
    codeTraffic q calls =
      (roomTraffic q (calls.map Call.call)).map (Prod.mk i) := by
  induction calls with
  | nil => rfl
  | cons call calls ih =>
      have hcall := h call List.mem_cons_self
      have hrest := ih fun call' h' => h call' (List.mem_cons_of_mem _ h')
      have hsplit : roomTraffic q (call.call :: calls.map Call.call) =
          roomTraffic q [call.call] ++ roomTraffic q (calls.map Call.call) :=
        roomTraffic_append q [call.call] _
      rw [List.map_cons, hsplit, List.map_append, ← hrest]
      unfold codeTraffic
      rw [List.filterMap_cons, hcall]
      cases hf : call.call.frameTo q with
      | none => simp [roomTraffic, framesTo, hf]
      | some f =>
          cases hr : roomFrame f with
          | none => simp [roomTraffic, framesTo, hf, hr]
          | some x => simp [roomTraffic, framesTo, hf, hr]

/-- All messages of an event are of its room. -/
theorem map_traffic_tells (m : Moment (Fin maxRooms) Conn Bytes) :
    (m.tells q).map traffic =
      ((m.tells q).map forget).map (Prod.mk (some m.event.room)) := by
  unfold Moment.tells
  split
  · unfold Event.confirms
    cases m.event.deed <;> rfl
  · split
    · cases m.event.deed.notice? <;> rfl
    · rfl

end Traffic

section Delivered

variable {s s' : State N C} {t : Thread N} {a : Act N C} {b : a.Answer}

/-- An action delivers its room traffic, and it is of the action's room. -/
theorem Chronicle.delivers (h : Chronicle s) (ha : Allowed t s a)
    (hhonest : a.Honest t s) (he : exec a s = some (b, s'))
    {new : List SysCall} (hcalls : s'.calls = s.calls ++ new) (q : Conn) :
    (delivered s' q).map traffic = (delivered s q).map traffic ++
      (roomTraffic q new).map (Prod.mk a.room?) := by
  have hplain : ∀ fd cmd message, a = .send fd cmd message →
      cmd ∉ trafficCodes := by
    rintro fd cmd message rfl
    exact hhonest
  have hnew : roomTraffic q s'.calls =
      roomTraffic q s.calls ++ roomTraffic q new := by
    rw [hcalls, roomTraffic_append]
  cases exec_roomStep h.inv h.placed ha hplain he with
  | keep hevents htraffic _ =>
      have hnone : roomTraffic q new = [] := by
        rw [htraffic q] at hnew
        exact List.self_eq_append_right.mp hnew
      unfold delivered
      rw [hevents, htraffic q, hnone, List.map_nil, List.append_nil]
  | confirm i c q' hact _ _ hc hq hevents htraffic _ =>
      rw [htraffic q] at hnew
      have hnew := List.append_cancel_left hnew
      unfold delivered
      rw [hevents, htraffic q, ← hnew]
      split
      case isFalse => simp
      case isTrue hqq =>
        subst hqq hact
        obtain ⟨-, q', hheld, howes, hlast⟩ := hhonest
        have hsame := (HeldBy.slot hheld).2.symm.trans hq
        cases hsame
        obtain ⟨w, k, hw, hsent⟩ := howes.last
        rw [hw] at hlast
        have hk : k = i := by simpa using hlast
        subst hk
        have hlength : (roomTraffic q s.calls).length = w.length := by
          rw [← hsent, List.length_map]
        simp [hw, hlength, traffic, Act.room?]
  | event e c _ hc hq hpoint _ _ hevents htraffic _ hroom =>
      have htold : told s'.events q = told s.events q ++
          Moment.tells q ⟨e, member s.events,
            foundings (s.events ++ [e]) e.room⟩ := by
        rw [hevents, told_snoc]
      have hmoment := htraffic q (foundings (s.events ++ [e]) e.room)
      rw [hnew, List.append_assoc] at hmoment
      have hmoment := List.append_cancel_left hmoment
      have hrooms := map_traffic_tells (q := q) ⟨e, member s.events,
        foundings (s.events ++ [e]) e.room⟩
      unfold delivered
      rw [hnew, List.length_append, htold, hroom]
      rcases h.accounts q with hlevel | howes
      · have hlength : (roomTraffic q s.calls).length =
            (told s.events q).length := by
          rw [hlevel, List.length_map]
        rw [hlength, List.take_length_add_append, List.take_length,
          List.map_append, List.map_take, hrooms, ← List.map_take, ← hmoment,
          List.take_left]
      · -- Who is owed the confirmation neither acts nor is told anything.
        have hne : e.who ≠ q := by
          rintro rfl
          exact (h.served c e.who (heldBy_slot hc hq)
            (hpoint c.index)).not_owes howes
        have hnone : Moment.tells q ⟨e, member s.events,
            foundings (s.events ++ [e]) e.room⟩ = [] := by
          rw [Moment.tells, if_neg hne, if_neg]
          show ¬ member s.events q = some e.room
          rw [howes.member h.valid]
          rintro ⟨⟩
        rw [hnone] at hmoment ⊢
        have hempty := (List.append_eq_nil_iff.mp hmoment).1
        simp [hempty]

end Delivered

/-! ## Drafts against the state -/

/-- The client is in the room of the draft or is the one it is made for. -/
def Stands (s : State N C) (d : Draft N C) (c : ClientPtr N C) : Prop :=
  (s.rooms d.index).Has c ∨ d.client = some c

/-- The client a section of thread `t` is for: its record is the draft's in the
memory and the final one in the state, and it is in no other room. -/
structure Serves (m : Memory N C) (s : State N C) (t : Thread N)
    (d : Draft N C) (c : ClientPtr N C) : Prop where
  owner : t = .worker c.worker
  held : s.holding (.slot c) = some (s.clients c).clientFd
  memory : m.clients c = d.record
  state : s.clients c = d.final
  clientFd : d.record.clientFd = d.final.clientFd
  inUse : d.record.inUse = d.final.inUse
  apart : ∀ k, (s.rooms k).Has c → k = d.index

/-- The frame still to be sent is for a client that stands, with its descriptor
and its connection. -/
structure Parcel.Addressed (p : Parcel N C) (s : State N C) (d : Draft N C) :
    Prop where
  stands : Stands s d p.client
  fd : p.fd = (s.clients p.client).clientFd
  conn : p.conn = s.connOf p.client
  origin : p.origin.room? = some d.index

/-- The draft of thread `t` is what the memory has of the room, and leads to
what the state has of it. -/
structure Drafted (m : Memory N C) (s : State N C) (t : Thread N)
    (d : Draft N C) : Prop where
  room : m.rooms d.index = d.room
  target : s.rooms d.index = d.target
  serves : ∀ c, d.client = some c → Serves m s t d c
  seated : ∀ j c, d.room.clients j = some c → Stands s d c
  pending : ∀ p ∈ d.pending, p.Addressed s d

section Drafted

variable {m m' : Memory N C} {s s' : State N C} {t u : Thread N}
  {d : Draft N C} {c : ClientPtr N C} {a : Act N C} {b : a.Answer}

/-- Who stands holds its slot. -/
theorem Drafted.held (h : Drafted m s t d) (hinv : ServerInv s)
    (hc : Stands s d c) :
    s.holding (.slot c) = some (s.clients c).clientFd := by
  rcases hc with hc | hc
  · exact hinv.member_holds hc
  · exact (h.serves c hc).held

/-- A client keeps its slot and its connection until it is released. -/
theorem ServerInv.slot_kept (h : ServerInv s) (ha : Allowed u s a)
    (hclose : a ≠ .closeClient c) (he : exec a s = some (b, s'))
    (hc : s.holding (.slot c) = some (s.clients c).clientFd) :
    s'.holding (.slot c) = some (s'.clients c).clientFd ∧
      (s'.clients c).clientFd = (s.clients c).clientFd ∧
      s'.connOf c = s.connOf c := by
  obtain ⟨hslot, hconn⟩ := h.own.slot_stays h.hand ha hclose he hc
  have hfd := (of_holding_slot hslot).2
  rw [State.connOf, hfd, hconn]
  exact ⟨hslot, rfl, rfl⟩

/-- No member of a room is released. -/
theorem ServerInv.not_close (h : ServerInv s) (ha : Allowed u s a)
    {i : Fin maxRooms} (hc : (s.rooms i).Has c) : a ≠ .closeClient c := by
  rintro rfl
  obtain ⟨-, hstate, -, hpoint⟩ := (h.rooms.member i c).mp hc
  rcases ha.2 with ⟨hs, -⟩ | hleft
  · exact hs hstate
  · rw [hleft] at hpoint
    exact hpoint rfl

/-- A thread moves no clients of the others from room to room. -/
theorem ServerInv.has_other (h : ServerInv s) (h' : ServerInv s')
    (ha : Allowed u s a) (he : exec a s = some (b, s'))
    (hu : .worker c.worker ≠ u) (k : Fin maxRooms) :
    (s'.rooms k).Has c ↔ (s.rooms k).Has c := by
  have hview := view_exec hu ha.owned he
  have hclient : s'.clients c = s.clients c :=
    congrFun (congrArg Prod.fst hview) c.index
  have hpoint : s'.point c.worker = s.point c.worker := congrArg Prod.snd hview
  rw [h'.rooms.member k c, h.rooms.member k c]
  unfold Resident
  rw [hclient, hpoint]

/-- Another thread's action leaves a draft alone. -/
theorem Drafted.other (h : Drafted m s t d) (hinv : ServerInv s)
    (hinv' : ServerInv s') (hu : t ≠ u) (ha : Allowed u s a)
    (he : exec a s = some (b, s')) (hrooms : s'.rooms d.index = s.rooms d.index)
    (hmemory : m'.rooms d.index = m.rooms d.index)
    (hclients : ∀ c, d.client = some c → m'.clients c = m.clients c) :
    Drafted m' s' t d := by
  have hclose : ∀ c, Stands s d c → a ≠ .closeClient c := by
    rintro c (hc | hc)
    · exact hinv.not_close ha hc
    · rintro rfl
      exact hu ((h.serves c hc).owner.trans (ha.owner rfl).symm)
  have hkept := fun c hc =>
    hinv.slot_kept ha (hclose c hc) he (h.held hinv hc)
  have hstands : ∀ c, Stands s' d c ↔ Stands s d c := by
    intro c
    unfold Stands
    rw [hrooms]
  refine ⟨hmemory.trans h.room, hrooms.trans h.target, fun c hc => ?_,
    fun j c hj => (hstands c).mpr (h.seated j c hj), fun p hp => ?_⟩
  · have hserves := h.serves c hc
    have hne : .worker c.worker ≠ u := fun heq =>
      hu (hserves.owner.trans heq)
    have hclient : s'.clients c = s.clients c :=
      congrFun (congrArg Prod.fst (view_exec hne ha.owned he)) c.index
    refine ⟨hserves.owner, (hkept c (.inr hc)).1,
      (hclients c hc).trans hserves.memory, hclient.trans hserves.state,
      hserves.clientFd, hserves.inUse, fun k hk => ?_⟩
    exact hserves.apart k ((hinv.has_other hinv' ha he hne k).mp hk)
  · have haddressed := h.pending p hp
    obtain ⟨-, hfd, hconn⟩ := hkept _ haddressed.stands
    exact ⟨(hstands _).mpr haddressed.stands, haddressed.fd.trans hfd.symm,
      haddressed.conn.trans hconn.symm, haddressed.origin⟩

/-- Two drafts of different rooms are for different clients. -/
theorem Drafted.index_eq {e : Draft N C} (hinv : ServerInv s)
    (ht : Drafted m s t d) (hu : Drafted m s u e) (hd : Stands s d c)
    (he : Stands s e c) : t = u ∨ d.index = e.index := by
  rcases hd with hd | hd <;> rcases he with he | he
  · obtain ⟨-, -, hroom, -⟩ := (hinv.rooms.member _ c).mp hd
    obtain ⟨-, -, hroom', -⟩ := (hinv.rooms.member _ c).mp he
    exact .inr (hroom.symm.trans hroom')
  · exact .inr ((hu.serves c he).apart _ hd)
  · exact .inr ((ht.serves c hd).apart _ he).symm
  · exact .inl ((ht.serves c hd).owner.trans (hu.serves c he).owner.symm)

/-- Who is sent room traffic is the client of a frame. -/
theorem exists_parcel {q : Conn} {parcels : List (Parcel N C)}
    (h : codeTraffic q (parcels.map Parcel.sent) ≠ []) :
    ∃ p ∈ parcels, p.conn = some q := by
  obtain ⟨x, hx⟩ := List.exists_mem_of_ne_nil _ h
  obtain ⟨call, hcall, hsome⟩ := List.mem_filterMap.mp hx
  obtain ⟨p, hp, rfl⟩ := List.mem_map.mp hcall
  refine ⟨p, hp, ?_⟩
  by_contra hne
  have hnone : (p.sent.call).frameTo q = none := by
    obtain ⟨origin, c, fd, conn, cmd, msg⟩ := p
    cases conn with
    | none => rfl
    | some q' => exact if_neg fun hq => hne (congrArg some hq)
  rw [hnone] at hsome
  cases hsome

/-- Frames of different rooms go to different connections. -/
theorem Drafted.apart {e : Draft N C} (hinv : ServerInv s)
    (ht : Drafted m s t d) (hu : Drafted m s u e) (hne : t ≠ u)
    (hindex : d.index ≠ e.index) {q : Conn}
    (h : codeTraffic q (d.pending.map Parcel.sent) ≠ []) :
    codeTraffic q (e.pending.map Parcel.sent) = [] := by
  by_contra h'
  obtain ⟨p, hp, hpq⟩ := exists_parcel h
  obtain ⟨p', hp', hpq'⟩ := exists_parcel h'
  have haddressed := ht.pending p hp
  have haddressed' := hu.pending p' hp'
  have hclient : p.client = p'.client := by
    refine hinv.connOf_inj (ht.held hinv haddressed.stands)
      (hu.held hinv haddressed'.stands) ?_
    rw [← haddressed.conn, ← haddressed'.conn, hpq, hpq']
  have hstands := haddressed'.stands
  rw [← hclient] at hstands
  rcases Drafted.index_eq hinv ht hu haddressed.stands hstands with heq | heq
  · exact hne heq
  · exact hindex heq

end Drafted

/-! ## All threads -/

theorem Phase.of_lock_room {p : Phase N C} {i : Fin maxRooms}
    (h : p.lock? = some (.room i)) : ∃ d, p = .room d ∧ d.index = i := by
  cases p with
  | room d =>
      cases h
      exact ⟨d, rfl, rfl⟩
  | _ => cases h

/-- The memory, in the middle of the threads' sections, and the state after
them. -/
structure Tied (g : Guarded (Thread N) (Lock N) (Memory N C)) (s : State N C)
    (phases : Thread N → Phase N C) : Prop where
  conns : g.state.conns = s.conns
  notification : g.state.notification = s.notification
  newClient : g.state.newClient = s.newClient
  workerIndex : g.state.workerIndex = s.workerIndex
  accepted : g.state.accepted = s.accepted
  locks : ∀ l t, g.holder l = some t ↔ (phases t).lock? = some l
  rooms : ∀ i, g.holder (.room i) = none → g.state.rooms i = s.rooms i
  counts : ∀ w, g.holder (.count w) = none →
    g.state.numOfClients w = s.numOfClients w
  drafted : ∀ t d, phases t = .room d → Drafted g.state s t d
  counted : ∀ t w value target, phases t = .count w value target →
    g.state.numOfClients w = value ∧ s.numOfClients w = target
  picked : ∀ t w, phases t = .picked w → t = .main ∧ s.workerIndex = w
  clients : ∀ c, (∀ d, phases (.worker c.worker) = .room d →
    d.client ≠ some c) → g.state.clients c = s.clients c
  seats : ∀ i j c, (g.state.rooms i).clients j = some c →
    g.state.seats i j = s.connOf c
  traffic : ∀ q, ∃ t, (delivered s q).map traffic =
      codeTraffic q g.state.calls ++
        codeTraffic q ((phases t).pending.map Parcel.sent) ∧
    ∀ u, u ≠ t → codeTraffic q ((phases u).pending.map Parcel.sent) = []

namespace Tied

variable {g : Guarded (Thread N) (Lock N) (Memory N C)} {s : State N C}
  {phases : Thread N → Phase N C} {t u : Thread N} {c : ClientPtr N C}
  {q : Conn}

/-- Who is in a room of the memory holds its slot. -/
theorem held (h : Tied g s phases) (hinv : ServerInv s) {i : Fin maxRooms}
    {j : Fin maxClientsRoom} (hc : (g.state.rooms i).clients j = some c) :
    s.holding (.slot c) = some (s.clients c).clientFd := by
  cases hlock : g.holder (.room i) with
  | none =>
      rw [h.rooms i hlock] at hc
      exact hinv.member_holds ⟨j, hc⟩
  | some t =>
      obtain ⟨d, hd, rfl⟩ := Phase.of_lock_room ((h.locks _ t).mp hlock)
      have hdraft := h.drafted t d hd
      rw [hdraft.room] at hc
      exact hdraft.held hinv (hdraft.seated j c hc)

/-- The memory's record of a client has the descriptor of the state's. -/
theorem same_record (h : Tied g s phases) (c : ClientPtr N C) :
    (g.state.clients c).clientFd = (s.clients c).clientFd ∧
      (g.state.clients c).inUse = (s.clients c).inUse := by
  by_cases hc : ∃ d, phases (.worker c.worker) = .room d ∧ d.client = some c
  · obtain ⟨d, hd, hclient⟩ := hc
    have hserves := (h.drafted _ d hd).serves c hclient
    rw [hserves.memory, hserves.state]
    exact ⟨hserves.clientFd, hserves.inUse⟩
  · rw [h.clients c fun d hd hclient => hc ⟨d, hd, hclient⟩]
    exact ⟨rfl, rfl⟩

end Tied

/-! ## Actions that are one access -/

/-- What such an action of thread `t` makes of the memory and of the state. -/
structure Along (t : Thread N) (m : Memory N C) (s n s' : State N C) :
    Prop where
  conns : n.conns = s'.conns
  notification : n.notification = s'.notification
  newClient : n.newClient = s'.newClient
  accepted : n.accepted = s'.accepted
  workerIndex : n.workerIndex = s'.workerIndex
  clients : ∀ c, t = .worker c.worker → n.clients c = s'.clients c
  rooms : s'.rooms = s.rooms
  counts : s'.numOfClients = s.numOfClients
  memoryCounts : n.numOfClients = m.numOfClients
  calls : s'.calls = s.calls ++ n.calls

section Plain

variable {m : Memory N C} {s n : State N C} {t : Thread N} {a : Act N C}
  {b : a.Answer}

theorem along_update
    (hclients : ∀ c, t = .worker c.worker → m.clients c = s.clients c)
    {c : ClientPtr N C} {r r' : Client} (hr : r = r') (d : ClientPtr N C)
    (hd : t = .worker d.worker) :
    Function.update m.clients c r d = Function.update s.clients c r' d := by
  subst hr
  by_cases hdc : d = c
  · subst hdc
    rw [Function.update_self, Function.update_self]
  · rw [Function.update_of_ne hdc, Function.update_of_ne hdc]
    exact hclients d hd

/-- The state follows the memory. -/
theorem exec_along (hplain : a.isSection = false)
    (hconns : m.conns = s.conns) (hnotification : m.notification = s.notification)
    (hnew : m.newClient = s.newClient) (haccepted : m.accepted = s.accepted)
    (hindex : m.workerIndex = s.workerIndex)
    (hclients : ∀ c, t = .worker c.worker → m.clients c = s.clients c)
    (ha : Allowed t s a) (hhonest : a.Honest t s)
    (he : exec a m.state = some (b, n)) :
    ∃ s', exec a s = some (b, s') ∧ Along t m s n s' := by
  have hnil : ∀ calls : List SysCall, calls = calls ++ [] :=
    fun calls => (List.append_nil calls).symm
  have hsame : Along t m s m.state s :=
    ⟨hconns, hnotification, hnew, haccepted, hindex, hclients, rfl, rfl, rfl,
      hnil _⟩
  cases a <;> simp only [Act.isSection, Bool.true_eq_false] at hplain
  case readClient c =>
    cases he
    refine ⟨s, ?_, hsame⟩
    simp only [exec, Memory.state, hclients c hhonest]
  case strcatCurrentMsg c piece =>
    cases he
    exact ⟨_, rfl, { hsame with
      clients := along_update hclients (congrArg
        (fun r => { r with currentMsg := r.currentMsg ++ piece })
        (hclients c ha)) }⟩
  case clearCurrentMsg c =>
    cases he
    exact ⟨_, rfl, { hsame with
      clients := along_update hclients (congrArg
        (fun r => { r with currentMsg := [] }) (hclients c ha)) }⟩
  case routeMessage c =>
    cases he
    refine ⟨routeMessage s c, ?_, { hsame with }⟩
    simp only [exec, Memory.state, hclients c ha.1.1]
  case strcpyName c name =>
    cases he
    exact ⟨_, rfl, { hsame with
      clients := along_update hclients (congrArg
        (fun r => { r with name := name }) (hclients c ha.1.1.1)) }⟩
  case setLobby c =>
    cases he
    exact ⟨_, rfl, { hsame with
      clients := along_update hclients (congrArg
        (fun r => { r with state := .inChatLobby })
        (hclients c (ha.owner rfl))) }⟩
  case sprintf buffer len =>
    cases he
    exact ⟨_, rfl, { hsame with }⟩
  case send fd cmd message =>
    cases he
    refine ⟨_, rfl, { hsame with calls := ?_ }⟩
    simp only [sendMessageToClient, Memory.state, hconns, List.nil_append]
  case epollDel c =>
    cases he
    refine ⟨_, rfl, { hsame with calls := ?_ }⟩
    simp only [Memory.state, hclients c ha.1.1, List.nil_append]
  case closeClient c =>
    cases he
    refine ⟨_, rfl, { hsame with conns := ?_, calls := ?_ }⟩
    · simp only [closeClient, Memory.state, hconns, hclients c ha.1.1]
    · simp only [closeClient, Memory.state, hclients c ha.1.1, List.nil_append]
  case zeroClient c =>
    cases he
    exact ⟨_, rfl, { hsame with clients := along_update hclients rfl }⟩
  case readEventfd w ok =>
    rcases exec_readEventfd he with ⟨rfl, hne, rfl, rfl⟩ | ⟨rfl, rfl, rfl⟩
    · have hvalue : m.state.notification w = s.notification w :=
        congrFun hnotification w
      rw [hvalue] at hne ⊢
      have hs : exec (.readEventfd w true) s = some (some (s.notification w),
          { s with
            notification := Function.update s.notification w 0
            journal := s.journal ++ [.pickedUp w (s.notification w)]
            point := Function.update s.point w
              (.picked (s.notification w)) }) := by
        simp [exec, readEventfd, hne]
      refine ⟨_, hs, { hsame with notification := ?_ }⟩
      simp only [Memory.state, hnotification]
    · exact ⟨_, rfl, { hsame with }⟩
  case postUnread w =>
    cases he
    refine ⟨_, rfl, { hsame with newClient := ?_ }⟩
    simp only [Memory.state, hnew]
  case semPost w fd =>
    cases he
    refine ⟨_, rfl, { hsame with newClient := ?_ }⟩
    simp only [Memory.state, hnew]
  case registerWithEpoll w fd ok =>
    rcases exec_registerWithEpoll he with ⟨rfl, rfl, rfl⟩ | ⟨rfl, rfl, rfl⟩
    · exact ⟨_, rfl, { hsame with calls := rfl }⟩
    · exact ⟨_, rfl, { hsame with }⟩
  case allocateClientSlot w fd =>
    have hfree : m.state.freeSlot? w = s.freeSlot? w := by
      unfold State.freeSlot?
      congr 1
      funext j
      exact congrArg (fun r => !r.inUse) (hclients ⟨w, j⟩ ha.1)
    rcases exec_allocateClientSlot he with ⟨hj, rfl, rfl⟩ | ⟨j, hj, rfl, rfl⟩
    · have hs : exec (.allocateClientSlot w fd) s = some (false,
          { s with point := Function.update s.point w (.refused fd) }) := by
        rw [hfree] at hj
        unfold State.freeSlot? at hj
        simp only [exec, allocateClientSlot, hj]
      exact ⟨_, hs, { hsame with }⟩
    · have hs : exec (.allocateClientSlot w fd) s = some (true, { s with
          clients := Function.update s.clients ⟨w, j⟩ (Client.fresh fd)
          point := Function.update s.point w .idle }) := by
        rw [hfree] at hj
        unfold State.freeSlot? at hj
        simp only [exec, allocateClientSlot, hj]
        rfl
      exact ⟨_, hs, { hsame with clients := along_update hclients rfl }⟩
  case closeRefused w fd =>
    cases he
    refine ⟨_, rfl, { hsame with conns := ?_, calls := rfl }⟩
    simp only [Memory.state, hconns]
  case accept fd =>
    obtain ⟨hpos, hfree, rfl⟩ := exec_accept he
    have hfree : s.conns fd = none := by
      rw [← hconns]
      exact hfree
    refine ⟨_, if_pos ⟨hpos, hfree⟩, { hsame with conns := ?_, accepted := ?_ }⟩
    · simp only [Memory.state, hconns, haccepted]
    · simp only [Memory.state, haccepted]
  case setSocketKeepAlive fd ok =>
    rcases exec_setSocketKeepAlive he with ⟨rfl, rfl, rfl⟩ | ⟨rfl, rfl, rfl⟩
    · exact ⟨_, rfl, { hsame with }⟩
    · exact ⟨_, rfl, { hsame with }⟩
  case advanceIndex =>
    cases he
    refine ⟨_, rfl, { hsame with workerIndex := ?_ }⟩
    simp only [Memory.state, hindex]
  case closeRejected fd =>
    cases he
    refine ⟨_, rfl, { hsame with conns := ?_, calls := rfl }⟩
    simp only [Memory.state, hconns]
  case semWait w fd =>
    obtain ⟨hne, rfl⟩ := exec_semWait he
    have hne : s.newClient w ≠ 0 := by
      rw [← hnew]
      exact hne
    refine ⟨_, if_neg hne, { hsame with newClient := ?_ }⟩
    simp only [Memory.state, hnew]
  case writeEventfd w fd ok =>
    rcases exec_writeEventfd he with ⟨rfl, rfl, rfl⟩ | ⟨rfl, rfl, rfl⟩
    · refine ⟨_, rfl, { hsame with notification := ?_ }⟩
      simp only [Memory.state, hnotification]
    · exact ⟨_, rfl, { hsame with }⟩
  case postFailed w fd =>
    cases he
    refine ⟨_, rfl, { hsame with newClient := ?_ }⟩
    simp only [Memory.state, hnew]
  case closeFailed w fd =>
    cases he
    refine ⟨_, rfl, { hsame with conns := ?_, calls := rfl }⟩
    simp only [Memory.state, hconns]

end Plain

/-! ## What a step leaves alone -/

/-- The count an action is about. -/
def Act.count? (s : State N C) : Act N C → Option (Fin N)
  | .subtractZeroed w | .subtractUnread w | .subtractRefused w _
  | .subtractFailed w => some w
  | .inspectWorker _ => some s.workerIndex
  | _ => none

/-- What no critical section changes. -/
structure OutsideSame (s s' : State N C) : Prop where
  conns : s'.conns = s.conns
  notification : s'.notification = s.notification
  newClient : s'.newClient = s.newClient
  accepted : s'.accepted = s.accepted
  workerIndex : s'.workerIndex = s.workerIndex

section Frame

variable {s s' : State N C} {t : Thread N} {a : Act N C} {b : a.Answer}

theorem OutsideSame.refl (s : State N C) : OutsideSame s s :=
  ⟨rfl, rfl, rfl, rfl, rfl⟩

/-- The section of a room touches its room and its client. -/
theorem exec_room_frame {i : Fin maxRooms} (hroom : a.room? = some i)
    (he : exec a s = some (b, s')) :
    OutsideSame s s' ∧ s'.numOfClients = s.numOfClients ∧
      (∀ k, k ≠ i → s'.rooms k = s.rooms k) ∧
      ∀ c, a.client? ≠ some c → s'.clients c = s.clients c := by
  cases a <;> simp only [Act.room?, Option.some.injEq, reduceCtorEq] at hroom
  all_goals subst hroom
  case createSection i d roomName successMsg =>
    obtain ⟨-, -, rfl⟩ | ⟨-, -, rfl⟩ := exec_createSection he
    · exact ⟨.refl s', rfl, fun _ _ => rfl, fun _ _ => rfl⟩
    · refine ⟨⟨rfl, rfl, rfl, rfl, rfl⟩, rfl,
        fun k hk => Function.update_of_ne hk _ _, fun c hc => ?_⟩
      refine Function.update_of_ne (fun hcd => hc ?_) _ _
      rw [hcd]
      rfl
  case listSection i msg =>
    obtain ⟨-, -, rfl⟩ | ⟨-, -, rfl⟩ := exec_listSection he
    all_goals exact ⟨⟨rfl, rfl, rfl, rfl, rfl⟩, rfl, fun _ _ => rfl,
      fun _ _ => rfl⟩
  case joinSection i d joinMsg =>
    obtain ⟨r, -, rfl⟩ | rfl | ⟨j, -, -, rfl⟩ := exec_joinSection he
    · exact ⟨⟨rfl, rfl, rfl, rfl, rfl⟩, rfl, fun _ _ => rfl, fun _ _ => rfl⟩
    · exact ⟨.refl s', rfl, fun _ _ => rfl, fun _ _ => rfl⟩
    · refine ⟨⟨rfl, rfl, rfl, rfl, rfl⟩, rfl,
        fun k hk => Function.update_of_ne hk _ _, fun c hc => ?_⟩
      refine Function.update_of_ne (fun hcd => hc ?_) _ _
      rw [hcd]
      rfl
  case chatSection i d msg =>
    rw [exec_chatSection he]
    exact ⟨⟨rfl, rfl, rfl, rfl, rfl⟩, rfl, fun _ _ => rfl, fun _ _ => rfl⟩
  case leaveSection i d =>
    rw [exec_leaveSection he]
    exact ⟨⟨rfl, rfl, rfl, rfl, rfl⟩, rfl,
      fun k hk => Function.update_of_ne hk _ _, fun _ _ => rfl⟩
  case leaveOkSection i d =>
    cases he
    exact ⟨⟨rfl, rfl, rfl, rfl, rfl⟩, rfl, fun _ _ => rfl, fun _ _ => rfl⟩

/-- The section of a count touches its count. -/
theorem exec_count_frame {w : Fin N} (hcount : a.count? s = some w)
    (he : exec a s = some (b, s')) :
    OutsideSame s s' ∧ s'.rooms = s.rooms ∧ s'.clients = s.clients ∧
      s'.calls = s.calls ∧
      ∀ v, v ≠ w → s'.numOfClients v = s.numOfClients v := by
  cases a <;> simp only [Act.count?, Option.some.injEq, reduceCtorEq] at hcount
  all_goals subst hcount
  case inspectWorker fd =>
    rcases exec_inspectWorker he with ⟨-, -, rfl⟩ | ⟨-, -, rfl⟩
    · exact ⟨.refl s', rfl, rfl, rfl, fun _ _ => rfl⟩
    · exact ⟨⟨rfl, rfl, rfl, rfl, rfl⟩, rfl, rfl, rfl,
        fun v hv => Function.update_of_ne hv _ _⟩
  all_goals
    cases he
    exact ⟨⟨rfl, rfl, rfl, rfl, rfl⟩, rfl, rfl, rfl,
      fun v hv => Function.update_of_ne hv _ _⟩

/-- No worker moves `worker_index`. -/
theorem exec_workerIndex (hplain : a.isSection = false) (ha : Allowed t s a)
    (ht : t ≠ .main) (he : exec a s = some (b, s')) :
    s'.workerIndex = s.workerIndex := by
  cases a <;> simp only [Act.isSection, Bool.true_eq_false] at hplain
  case advanceIndex => exact absurd ha ht
  case readEventfd w ok =>
    rcases exec_readEventfd he with ⟨-, -, -, rfl⟩ | ⟨-, -, rfl⟩
    all_goals rfl
  case allocateClientSlot w fd =>
    rcases exec_allocateClientSlot he with ⟨-, -, rfl⟩ | ⟨j, -, -, rfl⟩
    all_goals rfl
  case registerWithEpoll w fd ok =>
    rcases exec_registerWithEpoll he with ⟨-, -, rfl⟩ | ⟨-, -, rfl⟩
    all_goals rfl
  case accept fd => rw [(exec_accept he).2.2]
  case setSocketKeepAlive fd ok => exact absurd ha.1 ht
  case semWait w fd => rw [(exec_semWait he).2]
  case writeEventfd w fd ok => exact absurd ha.1 ht
  all_goals
    cases he
    rfl

/-- An action outside the sections of the rooms is no room traffic. -/
theorem Chronicle.quiet (h : Chronicle s) (ha : Allowed t s a)
    (hhonest : a.Honest t s) (hroom : a.room? = none)
    (he : exec a s = some (b, s')) {new : List SysCall}
    (hcalls : s'.calls = s.calls ++ new) (q : Conn) :
    roomTraffic q new = [] := by
  have hplain : ∀ fd cmd message, a = .send fd cmd message →
      cmd ∉ trafficCodes := by
    rintro fd cmd message rfl
    exact hhonest
  cases exec_roomStep h.inv h.placed ha hplain he with
  | keep _ htraffic _ =>
      have hnew := htraffic q
      rw [hcalls, roomTraffic_append] at hnew
      exact List.append_right_eq_self.mp hnew
  | confirm i c _ hact =>
      rw [hact] at hroom
      cases hroom
  | event e c _ _ _ _ _ _ _ _ _ hsome =>
      rw [hsome] at hroom
      cases hroom

end Frame

/-! ## Entering a section -/

section Enter

variable {s s' : State N C} {m : Memory N C} {t : Thread N} {a : Act N C}
  {b : a.Answer} {i : Fin maxRooms} {c : ClientPtr N C}

theorem Room.has_of_remove {room : Room N C} {d : ClientPtr N C}
    (h : (room.remove c).Has d) : room.Has d := by
  unfold Room.remove at h
  split at h
  · exact h
  · obtain ⟨k, hk⟩ := h
    simp only [Function.update_apply] at hk
    split at hk
    · cases hk
    · exact ⟨k, hk⟩

/-- A section is for a client of its own worker, which is served and in no other
room. -/
theorem ServerInv.section_client (h : ServerInv s) (ha : Allowed t s a)
    (hroom : a.room? = some i) (hc : a.client? = some c) :
    t = .worker c.worker ∧
      s.holding (.slot c) = some (s.clients c).clientFd ∧
      ∀ k, (s.rooms k).Has c → k = i := by
  cases a <;> simp only [Act.room?, Option.some.injEq, reduceCtorEq] at hroom
  all_goals simp only [Act.client?, Option.some.injEq, reduceCtorEq] at hc
  all_goals subst hroom hc
  case createSection i c roomName successMsg =>
    refine ⟨ha.1.1.1, holding_slot ha.1.1.2 (by rw [ha.1.2.2]; rintro ⟨⟩),
      fun k hk => absurd hk (h.rooms.not_has_of_state ?_ k)⟩
    rw [ha.1.2.1]
    decide
  case joinSection i c joinMsg =>
    refine ⟨ha.1.1, holding_slot ha.1.2 (by rw [ha.2.2]; rintro ⟨⟩),
      fun k hk => absurd hk (h.rooms.not_has_of_state ?_ k)⟩
    rw [ha.2.1]
    decide
  case chatSection i c msg =>
    refine ⟨ha.1.1, holding_slot ha.1.2 (by rw [ha.2.2.2]; rintro ⟨⟩),
      fun k hk => ?_⟩
    rw [← ha.2.2.1]
    exact ((h.rooms.member k c).mp hk).2.2.1.symm
  case leaveSection i c =>
    refine ⟨ha.1.1.1, holding_slot ha.1.1.2 (by rw [ha.1.2.2]; rintro ⟨⟩),
      fun k hk => ?_⟩
    rw [← ha.2]
    exact ((h.rooms.member k c).mp hk).2.2.1.symm
  case leaveOkSection i c =>
    refine ⟨ha.1.1, holding_slot ha.1.2 (by rw [ha.2]; rintro ⟨⟩),
      fun k hk => ?_⟩
    have hpoint := ((h.rooms.member k c).mp hk).2.2.2
    rw [ha.2] at hpoint
    exact absurd rfl hpoint

/-- A section moves only its own client. -/
theorem ServerInv.section_stays (h : ServerInv s) (ha : Allowed t s a)
    (hroom : a.room? = some i) (hne : a.client? ≠ some c)
    (he : exec a s = some (b, s')) (hc : (s.rooms i).Has c) :
    (s'.rooms i).Has c := by
  cases a <;> simp only [Act.room?, Option.some.injEq, reduceCtorEq] at hroom
  all_goals subst hroom
  all_goals simp only [Act.client?, ne_eq, Option.some.injEq] at hne
  case createSection i d roomName successMsg =>
    obtain ⟨-, -, rfl⟩ | ⟨hfree, -, -⟩ := exec_createSection he
    · exact hc
    · have hu := (h.rooms.ok i).inUse_of_has hc
      rw [hfree] at hu
      cases hu
  case listSection i msg =>
    obtain ⟨-, -, rfl⟩ | ⟨-, -, rfl⟩ := exec_listSection he
    all_goals exact hc
  case joinSection i d joinMsg =>
    obtain ⟨r, -, rfl⟩ | rfl | ⟨j, -, hj, rfl⟩ := exec_joinSection he
    · exact hc
    · exact hc
    · have hslot := Room.freeSlot?_some hj
      simpa [State.afterJoin, Room.Ok.has_added hslot] using .inr hc
  case chatSection i d msg =>
    rw [exec_chatSection he]
    exact hc
  case leaveSection i d =>
    rw [exec_leaveSection he]
    have hd : (s.rooms i).Has d := by
      refine (h.rooms.member i d).mpr ⟨ha.1.1.2, ha.1.2.1, ha.2, ?_⟩
      rw [ha.1.2.2]
      rintro ⟨⟩
    have hleft := ((h.rooms.ok i).has_left hd (d := c)).mpr ⟨hc, Ne.symm hne⟩
    simpa [State.afterLeave] using hleft
  case leaveOkSection i d =>
    cases he
    exact hc

/-- The frames of a section are for its client and for clients in its room. -/
theorem mem_parcels {p : Parcel N C} (hroom : a.room? = some i)
    (hp : p ∈ a.parcels s) :
    ∃ origin d cmd msg, p = parcelTo s origin d cmd msg ∧
      origin.room? = some i ∧ (a.client? = some d ∨ (s.rooms i).Has d) := by
  cases a <;> simp only [Act.room?, Option.some.injEq, reduceCtorEq] at hroom
  all_goals subst hroom
  all_goals simp only [Act.parcels] at hp
  case createSection i d roomName successMsg =>
    split at hp
    · cases hp
    · cases List.mem_singleton.mp hp
      exact ⟨_, _, _, _, rfl, rfl, .inl rfl⟩
  case listSection i msg => cases hp
  case joinSection i d joinMsg =>
    split at hp
    · cases List.mem_singleton.mp hp
      exact ⟨_, _, _, _, rfl, rfl, .inl rfl⟩
    split at hp
    · cases List.mem_singleton.mp hp
      exact ⟨_, _, _, _, rfl, rfl, .inl rfl⟩
    split at hp
    · cases hp
    · rename_i j hj
      rcases List.mem_append.mp hp with hp | hp
      · obtain ⟨k, e, hk, hne, rfl⟩ := mem_broadcastParcels hp
        have hhas := (Room.Ok.has_added (Room.freeSlot?_some hj)).mp ⟨k, hk⟩
        exact ⟨_, _, _, _, rfl, rfl, .inr (hhas.resolve_left hne)⟩
      · cases List.mem_singleton.mp hp
        exact ⟨_, _, _, _, rfl, rfl, .inl rfl⟩
  case chatSection i d msg =>
    obtain ⟨k, e, hk, -, rfl⟩ := mem_broadcastParcels hp
    exact ⟨_, _, _, _, rfl, rfl, .inr ⟨k, hk⟩⟩
  case leaveSection i d =>
    obtain ⟨k, e, hk, -, rfl⟩ := mem_broadcastParcels hp
    exact ⟨_, _, _, _, rfl, rfl, .inr (Room.has_of_remove ⟨k, hk⟩)⟩
  case leaveOkSection i d =>
    cases List.mem_singleton.mp hp
    exact ⟨_, _, _, _, rfl, rfl, .inl rfl⟩

theorem room_not_close (hroom : a.room? = some i) (c : ClientPtr N C) :
    a ≠ .closeClient c := by
  rintro rfl
  cases hroom

/-- The draft a section starts with. -/
theorem Drafted.entered (h : ServerInv s) (ha : Allowed t s a)
    (hroom : a.room? = some i) (he : exec a s = some (b, s'))
    (hrooms : m.rooms i = s.rooms i)
    (hclients : ∀ c, a.client? = some c → m.clients c = s.clients c) :
    Drafted m s' t (a.draft s s' i) := by
  have hkept : ∀ c, s.holding (.slot c) = some (s.clients c).clientFd →
      s'.holding (.slot c) = some (s'.clients c).clientFd ∧
        (s'.clients c).clientFd = (s.clients c).clientFd ∧
        s'.connOf c = s.connOf c :=
    fun c hc => h.slot_kept ha (room_not_close hroom c) he hc
  have hstands : ∀ c, (s.rooms i).Has c →
      Stands s' (a.draft s s' i) c := by
    intro c hc
    by_cases hclient : a.client? = some c
    · exact .inr hclient
    · exact .inl (h.section_stays ha hroom hclient he hc)
  obtain ⟨-, -, hothers, -⟩ := exec_room_frame hroom he
  refine ⟨hrooms, rfl, fun c hc => ?_, fun j c hj => hstands c ⟨j, hj⟩,
    fun p hp => ?_⟩
  · have hclient : a.client? = some c := hc
    obtain ⟨ht, hheld, hapart⟩ := h.section_client ha hroom hclient
    obtain ⟨hheld', hfd, -⟩ := hkept c hheld
    have hrecord : (a.draft s s' i).record = s.clients c := by
      show s.recordOf a.client? = _
      rw [hclient]
      rfl
    have hfinal : (a.draft s s' i).final = s'.clients c := by
      show s'.recordOf a.client? = _
      rw [hclient]
      rfl
    refine ⟨ht, hheld', (hclients c hclient).trans hrecord.symm, hfinal.symm,
      ?_, ?_, fun k hk => ?_⟩
    · rw [hrecord, hfinal, hfd]
    · rw [hrecord, hfinal, (of_holding_slot hheld).1,
        (of_holding_slot hheld').1]
    · by_cases hki : k = i
      · exact hki
      · rw [hothers k hki] at hk
        exact hapart k hk
  · obtain ⟨origin, d, cmd, msg, rfl, horigin, hd⟩ := mem_parcels hroom hp
    have hheld : s.holding (.slot d) = some (s.clients d).clientFd := by
      rcases hd with hd | hd
      · exact (h.section_client ha hroom hd).2.1
      · exact h.member_holds hd
    obtain ⟨-, hfd, hconn⟩ := hkept d hheld
    exact ⟨hd.elim .inr (hstands d), hfd.symm, hconn.symm, horigin⟩

end Enter

end ChatApp.Server
