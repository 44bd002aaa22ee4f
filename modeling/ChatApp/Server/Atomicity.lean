import ChatApp.Server.Conversation
import ChatApp.Server.Coupling
import ChatApp.Server.Looks

/-!
# Sections are atomic

Every step of the memory keeps it tied to a state: an action that is one access
happens in both, taking the lock of a section is the whole section in the
state, and what the thread does until it gives the lock back only brings the
memory closer to it.  So every run of the accesses is coupled with a run of the
actions (`coupled_run`), and what is known of the latter holds of the former.
-/

namespace ChatApp.Server

open ChatApp.Foundation

variable {N C : Nat}

/-! ## Steps of the memory -/

section Locks

variable {holder : Lock N → Option (Thread N)}
  {phases : Thread N → Phase N C} {t : Thread N} {p : Phase N C} {l : Lock N}

theorem locks_keep (h : ∀ l t, holder l = some t ↔ (phases t).lock? = some l)
    (hp : p.lock? = (phases t).lock?) (l : Lock N) (u : Thread N) :
    holder l = some u ↔ (Function.update phases t p u).lock? = some l := by
  rw [h l u]
  by_cases hu : u = t
  · subst hu
    rw [Function.update_self, hp]
  · rw [Function.update_of_ne hu]

theorem locks_acquire (h : ∀ l t, holder l = some t ↔ (phases t).lock? = some l)
    (hfree : holder l = none) (hout : (phases t).lock? = none)
    (hp : p.lock? = some l) (k : Lock N) (u : Thread N) :
    Function.update holder l (some t) k = some u ↔
      (Function.update phases t p u).lock? = some k := by
  have hfree : (phases u).lock? ≠ some l := fun hu => by
    rw [(h l u).mpr hu] at hfree
    cases hfree
  by_cases hu : u = t
  · subst hu
    rw [Function.update_self, hp, Option.some.injEq]
    by_cases hk : k = l
    · simp [hk]
    · rw [Function.update_of_ne hk, h k u, hout]
      simp [Ne.symm hk]
  · rw [Function.update_of_ne hu]
    by_cases hk : k = l
    · subst hk
      simp [hfree, Ne.symm hu]
    · rw [Function.update_of_ne hk, h k u]

theorem locks_release (h : ∀ l t, holder l = some t ↔ (phases t).lock? = some l)
    (hin : (phases t).lock? = some l) (hp : p.lock? = none) (k : Lock N)
    (u : Thread N) :
    Function.update holder l none k = some u ↔
      (Function.update phases t p u).lock? = some k := by
  have hholder := (h l t).mpr hin
  by_cases hu : u = t
  · subst hu
    rw [Function.update_self, hp]
    by_cases hk : k = l
    · simp [hk]
    · rw [Function.update_of_ne hk, h k u, hin]
      simp [Ne.symm hk]
  · rw [Function.update_of_ne hu]
    by_cases hk : k = l
    · subst hk
      rw [Function.update_self, ← h k u, hholder]
      simp [Ne.symm hu]
    · rw [Function.update_of_ne hk, h k u]

end Locks

namespace Tied

variable {g : Guarded (Thread N) (Lock N) (Memory N C)} {s s' : State N C}
  {phases : Thread N → Phase N C} {t : Thread N} {a : Act N C} {b : a.Answer}

/-- Nobody in a room of the memory is released by a thread outside the
sections. -/
theorem not_close (h : Tied g s phases) (hinv : ServerInv s)
    (hout : ∀ d, phases t ≠ .room d) (ha : Allowed t s a) {i : Fin maxRooms}
    {j : Fin maxClientsRoom} {c : ClientPtr N C}
    (hc : (g.state.rooms i).clients j = some c) : a ≠ .closeClient c := by
  cases hlock : g.holder (.room i) with
  | none =>
      rw [h.rooms i hlock] at hc
      exact hinv.not_close ha ⟨j, hc⟩
  | some u =>
      obtain ⟨d, hd, rfl⟩ := Phase.of_lock_room ((h.locks _ u).mp hlock)
      have hdraft := h.drafted u d hd
      rw [hdraft.room] at hc
      rcases hdraft.seated j c hc with hhas | hclient
      · exact hinv.not_close ha hhas
      · rintro rfl
        have hu := (hdraft.serves c hclient).owner.trans (ha.owner rfl).symm
        subst hu
        exact hout d hd

/-- An action that is one access. -/
theorem plain (h : Tied g s phases) (hgood : Chronicle s)
    (hout : phases t = .out) (hplain : a.isSection = false)
    (hread : ∀ w, a ≠ .readEventfd w false) (ha : Allowed t s a)
    (hhonest : a.Honest t s) {n : State N C}
    (he : exec a g.state.state = some (b, n)) :
    ∃ s', exec a s = some (b, s') ∧
      Tied { g with state := g.state.after n } s' phases := by
  have hclients : ∀ c, t = .worker c.worker →
      g.state.clients c = s.clients c := by
    rintro c rfl
    refine h.clients c fun d hd => ?_
    rw [hout] at hd
    cases hd
  obtain ⟨s', he', halong⟩ := exec_along hplain h.conns h.notification
    h.newClient h.accepted h.workerIndex hclients ha hhonest he
  have hgood' := hgood.step ha hread hhonest he'
  have hroom : a.room? = none := by
    cases a <;> first | rfl | cases hplain
  have hrooms : n.rooms = g.state.rooms := plain_rooms hplain he
  have hother : ∀ c, t ≠ .worker c.worker →
      n.clients c = g.state.clients c ∧ s'.clients c = s.clients c := by
    intro c hc
    have hworker : a.worker? ≠ some c.worker := fun hw => hc (ha.owner hw)
    exact ⟨exec_clients_of_ne hworker he, exec_clients_of_ne hworker he'⟩
  have hne : ∀ u d, phases u = .room d → u ≠ t := by
    rintro u d hd rfl
    rw [hout] at hd
    cases hd
  refine ⟨s', he', ?_⟩
  refine
    { conns := halong.conns
      notification := halong.notification
      newClient := halong.newClient
      workerIndex := halong.workerIndex
      accepted := halong.accepted
      locks := h.locks
      rooms := ?_
      counts := ?_
      drafted := ?_
      counted := ?_
      picked := ?_
      clients := ?_
      seats := ?_
      traffic := ?_ }
  · intro i hi
    show n.rooms i = s'.rooms i
    rw [hrooms, halong.rooms]
    exact h.rooms i hi
  · intro w hw
    show n.numOfClients w = s'.numOfClients w
    rw [halong.memoryCounts, halong.counts]
    exact h.counts w hw
  · intro u d hd
    refine (h.drafted u d hd).other hgood.inv hgood'.inv (hne u d hd) ha he'
      (congrFun halong.rooms _) (congrFun hrooms _) fun c hc => ?_
    refine (hother c fun heq => hne u d hd ?_).1
    exact ((h.drafted u d hd).serves c hc).owner.trans heq.symm
  · intro u w value target hu
    show n.numOfClients w = value ∧ s'.numOfClients w = target
    rw [halong.memoryCounts, halong.counts]
    exact h.counted u w value target hu
  · intro u w hu
    obtain ⟨rfl, hw⟩ := h.picked u w hu
    refine ⟨rfl, ?_⟩
    rw [exec_workerIndex hplain ha ?_ he', hw]
    rintro rfl
    rw [hout] at hu
    cases hu
  · intro c hc
    show n.clients c = s'.clients c
    by_cases ht : t = .worker c.worker
    · exact halong.clients c ht
    · rw [(hother c ht).1, (hother c ht).2]
      exact h.clients c hc
  · intro i j c hc
    have hc : (g.state.rooms i).clients j = some c := by
      rw [← hrooms]
      exact hc
    have hclose := h.not_close hgood.inv
      (fun d hd => by rw [hout] at hd; cases hd) ha hc
    rw [(hgood.inv.slot_kept ha hclose he' (h.held hgood.inv hc)).2.2]
    exact h.seats i j c hc
  · intro q
    obtain ⟨u, hu, hrest⟩ := h.traffic q
    have hquiet := hgood.quiet ha hhonest hroom he' halong.calls q
    refine ⟨u, ?_, hrest⟩
    rw [hgood.delivers ha hhonest he' halong.calls q, hquiet, List.map_nil,
      List.append_nil, hu]
    show _ = codeTraffic q (g.state.calls ++ _) ++ _
    have hreplies : codeTraffic q
        (n.calls.map fun call => (⟨.reply, call⟩ : Call)) = [] := by
      have hmap : (n.calls.map fun call => (⟨.reply, call⟩ : Call)).map
          Call.call = n.calls := by
        rw [List.map_map]
        exact List.map_id _
      rw [codeTraffic_room (i := none) (by simp [Origin.room?]), hmap, hquiet]
      rfl
    rw [codeTraffic_append, hreplies, List.append_nil]

/-- Taking the lock of a room: the section happens in the state. -/
theorem enterRoom (h : Tied g s phases) (hgood : Chronicle s)
    (hout : phases t = .out) {i : Fin maxRooms} (hroom : a.room? = some i)
    (ha : Allowed t s a) (hhonest : a.Honest t s)
    (hfree : g.holder (.room i) = none) (he : exec a s = some (b, s')) :
    Tied { g with holder := Function.update g.holder (.room i) (some t) } s'
      (Function.update phases t (.room (a.draft s s' i))) := by
  have hread : ∀ w, a ≠ .readEventfd w false := by
    rintro w rfl
    cases hroom
  have hinv' : ServerInv s' := hgood.inv.step ha hread he
  obtain ⟨hsame, hcounts, hothers, hrecords⟩ := exec_room_frame hroom he
  have howner : ∀ c, a.client? = some c → t = .worker c.worker := fun c hc =>
    (hgood.inv.section_client ha hroom hc).1
  have hne : ∀ u d, u ≠ t → Function.update phases t
      (.room (a.draft s s' i)) u = .room d → phases u = .room d := by
    intro u d hu hd
    rwa [Function.update_of_ne hu] at hd
  have hindex : ∀ u d, phases u = .room d → d.index ≠ i := by
    rintro u d hd rfl
    have hlock := (h.locks (.room d.index) u).mpr (by rw [hd]; rfl)
    rw [hfree] at hlock
    cases hlock
  have hentered : Drafted g.state s' t (a.draft s s' i) := by
    refine .entered hgood.inv ha hroom he (h.rooms i hfree) fun c hc => ?_
    refine h.clients c fun d hd => ?_
    rw [← howner c hc, hout] at hd
    cases hd
  have hdrafted : ∀ u d, u ≠ t → phases u = .room d →
      Drafted g.state s' u d := fun u d hu hd =>
    (h.drafted u d hd).other hgood.inv hinv' hu ha he
      (hothers _ (hindex u d hd)) rfl fun _ _ => rfl
  refine
    { conns := h.conns.trans hsame.conns.symm
      notification := h.notification.trans hsame.notification.symm
      newClient := h.newClient.trans hsame.newClient.symm
      workerIndex := h.workerIndex.trans hsame.workerIndex.symm
      accepted := h.accepted.trans hsame.accepted.symm
      locks := locks_acquire h.locks hfree (by rw [hout]; rfl) rfl
      rooms := ?_
      counts := ?_
      drafted := ?_
      counted := ?_
      picked := ?_
      clients := ?_
      seats := ?_
      traffic := ?_ }
  · intro k hk
    have hki : k ≠ i := by
      rintro rfl
      simp at hk
    rw [hothers k hki]
    exact h.rooms k (by simpa [hki] using hk)
  · intro w hw
    rw [hcounts]
    exact h.counts w (by simpa using hw)
  · intro u d hd
    by_cases hu : u = t
    · subst hu
      rw [Function.update_self] at hd
      cases hd
      exact hentered
    · exact hdrafted u d hu (hne u d hu hd)
  · intro u w value target hu
    rw [hcounts]
    refine h.counted u w value target ?_
    by_cases hut : u = t
    · subst hut
      rw [Function.update_self] at hu
      cases hu
    · rwa [Function.update_of_ne hut] at hu
  · intro u w hu
    rw [hsame.workerIndex]
    refine h.picked u w ?_
    by_cases hut : u = t
    · subst hut
      rw [Function.update_self] at hu
      cases hu
    · rwa [Function.update_of_ne hut] at hu
  · intro c hc
    have hclient : a.client? ≠ some c := by
      intro hclient
      have ht := howner c hclient
      subst ht
      exact hc _ (Function.update_self _ _ _) hclient
    rw [hrecords c hclient]
    refine h.clients c fun d hd => ?_
    refine hc d ?_
    rw [Function.update_of_ne, hd]
    rintro rfl
    rw [hout] at hd
    cases hd
  · intro k j c hc
    have hheld := h.held hgood.inv hc
    rw [(hgood.inv.slot_kept ha (room_not_close hroom c) he hheld).2.2]
    exact h.seats k j c hc
  · intro q
    obtain ⟨u, hu, hrest⟩ := h.traffic q
    have horigin : ∀ call ∈ (a.parcels s).map Parcel.sent,
        call.origin.room? = some i := by
      intro call hcall
      obtain ⟨p, hp, rfl⟩ := List.mem_map.mp hcall
      obtain ⟨origin, d, cmd, msg, rfl, horigin, -⟩ := mem_parcels hroom hp
      exact horigin
    have hdelivers := hgood.delivers ha hhonest he (parcels_call hroom he) q
    have hmap : ((a.parcels s).map Parcel.sent).map Call.call =
        (a.parcels s).map Parcel.call := List.map_map
    rw [hroom, ← hmap, ← codeTraffic_room horigin] at hdelivers
    have hself : codeTraffic q ((phases t).pending.map Parcel.sent) = [] := by
      rw [hout]
      rfl
    have hpending : ∀ v, v ≠ t →
        Function.update phases t (.room (a.draft s s' i)) v = phases v :=
      fun v hv => Function.update_of_ne hv _ _
    by_cases hnone : codeTraffic q ((a.parcels s).map Parcel.sent) = []
    · -- Nothing for this connection: whoever owed it frames still does.
      rw [hnone, List.append_nil] at hdelivers
      have hmine : codeTraffic q ((Function.update phases t
          (.room (a.draft s s' i)) t).pending.map Parcel.sent) = [] := by
        rw [Function.update_self]
        exact hnone
      refine ⟨u, ?_, fun v hv => ?_⟩
      · rw [hdelivers, hu]
        by_cases hut : u = t
        · subst hut
          rw [hmine, hself]
        · rw [hpending u hut]
      · by_cases hvt : v = t
        · subst hvt
          exact hmine
        · rw [hpending v hvt]
          exact hrest v hv
    · have hothers : ∀ v, v ≠ t →
          codeTraffic q ((phases v).pending.map Parcel.sent) = [] := by
        intro v hv
        cases hphase : phases v with
        | room e =>
            exact Drafted.apart hinv' hentered (hdrafted v e hv hphase)
              hv.symm (hindex v e hphase).symm hnone
        | _ => rfl
      have hall : codeTraffic q ((phases u).pending.map Parcel.sent) = [] := by
        by_cases hut : u = t
        · rw [hut, hself]
        · exact hothers u hut
      refine ⟨t, ?_, fun v hv => ?_⟩
      · rw [hdelivers, hu, hall, List.append_nil, Function.update_self]
        rfl
      · rw [hpending v hv]
        exact hothers v hv

end Tied

/-! ### Inside a section -/

/-- What an access of a section does to the memory and to its draft. -/
structure Moved (m m' : Memory N C) (d d' : Draft N C) : Prop where
  index : d'.index = d.index
  client : d'.client = d.client
  target : d'.target = d.target
  final : d'.final = d.final
  clientFd : d'.record.clientFd = d.record.clientFd
  inUse : d'.record.inUse = d.record.inUse
  conns : m'.conns = m.conns
  notification : m'.notification = m.notification
  newClient : m'.newClient = m.newClient
  workerIndex : m'.workerIndex = m.workerIndex
  accepted : m'.accepted = m.accepted
  numOfClients : m'.numOfClients = m.numOfClients
  rooms : m'.rooms = Function.update m.rooms d.index d'.room
  own : ∀ c, d.client = some c → m'.clients c = d'.record
  others : ∀ c, d.client ≠ some c → m'.clients c = m.clients c
  seats : ∀ k, k ≠ d.index → m'.seats k = m.seats k
  seated : ∀ j c, d'.room.clients j = some c →
    d.room.clients j = some c ∧ m'.seats d.index j = m.seats d.index j ∨
      d.client = some c ∧
        m'.seats d.index j = m.conns (m.clients c).clientFd
  sent : ∃ parcels, d.pending = parcels ++ d'.pending ∧
    m'.calls = m.calls ++ parcels.map Parcel.sent

section Moved

variable {g : Guarded (Thread N) (Lock N) (Memory N C)} {s : State N C}
  {phases : Thread N → Phase N C} {t : Thread N} {d d' : Draft N C}
  {m m' : Memory N C}

theorem Moved.refl (h : Drafted m s t d) : Moved m m d d := by
  refine ⟨rfl, rfl, rfl, rfl, rfl, rfl, rfl, rfl, rfl, rfl, rfl, rfl, ?_,
    fun c hc => (h.serves c hc).memory, fun _ _ => rfl, fun _ _ => rfl,
    fun j c hj => .inl ⟨hj, rfl⟩, [], rfl, (List.append_nil _).symm⟩
  rw [← h.room, Function.update_eq_self]

/-- A write to a field of the room other than its array. -/
theorem Moved.setRoom (h : Drafted m s t d) {room : Room N C}
    (hclients : room.clients = d.room.clients) :
    Moved m (m.setRoom d.index room) d (d.setRoom room) :=
  { Moved.refl h with
    rooms := rfl
    seated := fun j c hj => .inl ⟨by rw [← hclients]; exact hj, rfl⟩ }

/-- A write to the own client's record. -/
theorem Moved.setRecord (h : Drafted m s t d) {c : ClientPtr N C}
    (hc : d.client = some c) {record : Client}
    (hfd : record.clientFd = d.record.clientFd)
    (huse : record.inUse = d.record.inUse) :
    Moved m (m.setClient c record) d (d.setRecord record) := by
  refine { Moved.refl h with
    clientFd := hfd
    inUse := huse
    own := fun e he => ?_
    others := fun e he => ?_ }
  · cases hc.symm.trans he
    exact Function.update_self _ _ _
  · refine Function.update_of_ne ?_ _ _
    rintro rfl
    exact he hc

/-- An access the draft answers is answered alike by the memory. -/
theorem draft_moves (h : Tied g s phases) (ht : phases t = .room d)
    {a : Access N C} {answer answer' : a.Answer}
    (ha : a.draft d = some (answer, d'))
    (he : a.exec g.state = some (answer', m')) :
    answer' = answer ∧ Moved g.state m' d d' := by
  have hdraft := h.drafted t d ht
  have hroom : g.state.rooms d.index = d.room := hdraft.room
  have hsame := Moved.refl hdraft
  cases a
  case inUse i =>
    obtain ⟨rfl, heq⟩ := Option.ite_none_right_eq_some.mp ha
    cases heq
    cases he
    exact ⟨congrArg Room.inUse hroom, hsame⟩
  case setInUse i value =>
    obtain ⟨rfl, heq⟩ := Option.ite_none_right_eq_some.mp ha
    cases heq
    cases he
    rw [hroom]
    exact ⟨rfl, .setRoom hdraft rfl⟩
  case numClients i =>
    obtain ⟨rfl, heq⟩ := Option.ite_none_right_eq_some.mp ha
    cases heq
    cases he
    exact ⟨congrArg Room.numClients hroom, hsame⟩
  case setNumClients i value =>
    obtain ⟨rfl, heq⟩ := Option.ite_none_right_eq_some.mp ha
    cases heq
    cases he
    rw [hroom]
    exact ⟨rfl, .setRoom hdraft rfl⟩
  case slot i j =>
    obtain ⟨rfl, heq⟩ := Option.ite_none_right_eq_some.mp ha
    cases heq
    cases he
    exact ⟨congrArg (fun room => room.clients j) hroom, hsame⟩
  case setSlot i j value =>
    obtain ⟨⟨rfl, hvalue⟩, heq⟩ := Option.ite_none_right_eq_some.mp ha
    cases heq
    cases he
    rw [hroom]
    refine ⟨rfl, { hsame with
      rooms := rfl
      seats := fun k hk => Function.update_of_ne hk _ _
      seated := fun k c hk => ?_ }⟩
    simp only [Memory.setSeats, Memory.setRoom, Function.update_self]
    by_cases hkj : k = j
    · subst hkj
      have hc : value = some c := by simpa [Draft.setRoom] using hk
      subst hc
      refine .inr ⟨(hvalue.resolve_left (by rintro ⟨⟩)).symm, ?_⟩
      rw [Function.update_self]
      rfl
    · rw [Function.update_of_ne hkj]
      exact .inl ⟨by simpa [Draft.setRoom, hkj] using hk, rfl⟩
  case clearSlots i =>
    obtain ⟨rfl, heq⟩ := Option.ite_none_right_eq_some.mp ha
    cases heq
    cases he
    rw [hroom]
    refine ⟨rfl, { hsame with
      rooms := rfl
      seats := fun k hk => Function.update_of_ne hk _ _
      seated := fun k c hk => ?_ }⟩
    cases hk
  case roomName i =>
    obtain ⟨rfl, heq⟩ := Option.ite_none_right_eq_some.mp ha
    cases heq
    cases he
    exact ⟨congrArg Room.roomName hroom, hsame⟩
  case putName i j byte =>
    obtain ⟨rfl, heq⟩ := Option.ite_none_right_eq_some.mp ha
    cases heq
    cases he
    rw [hroom]
    exact ⟨rfl, .setRoom hdraft rfl⟩
  case cutName i j =>
    obtain ⟨rfl, heq⟩ := Option.ite_none_right_eq_some.mp ha
    cases heq
    cases he
    rw [hroom]
    exact ⟨rfl, .setRoom hdraft rfl⟩
  case broadcast i =>
    cases ha
    cases he
    exact ⟨rfl, hsame⟩
  case clientFd c =>
    simp only [Access.draft] at ha
    cases hpending : d.pending with
    | nil =>
        rw [hpending] at ha
        cases ha
    | cons p rest =>
        rw [hpending] at ha
        obtain ⟨rfl, heq⟩ := Option.ite_none_right_eq_some.mp ha
        cases heq
        cases he
        have hp := hdraft.pending p (by rw [hpending]; exact List.mem_cons_self)
        exact ⟨(h.same_record p.client).1.trans hp.fd.symm, hsame⟩
  case clientName c =>
    obtain ⟨hc, heq⟩ := Option.ite_none_right_eq_some.mp ha
    cases heq
    cases he
    exact ⟨congrArg Client.name (hdraft.serves c hc).memory, hsame⟩
  case setState c value =>
    obtain ⟨hc, heq⟩ := Option.ite_none_right_eq_some.mp ha
    cases heq
    cases he
    rw [(hdraft.serves c hc).memory]
    exact ⟨rfl, .setRecord hdraft hc rfl rfl⟩
  case setRoomIndex c value =>
    obtain ⟨hc, heq⟩ := Option.ite_none_right_eq_some.mp ha
    cases heq
    cases he
    rw [(hdraft.serves c hc).memory]
    exact ⟨rfl, .setRecord hdraft hc rfl rfl⟩
  case send origin fd cmdType message =>
    simp only [Access.draft] at ha
    cases hpending : d.pending with
    | nil =>
        rw [hpending] at ha
        cases ha
    | cons p rest =>
        rw [hpending] at ha
        obtain ⟨⟨rfl, rfl, rfl, rfl, -⟩, heq⟩ :=
          Option.ite_none_right_eq_some.mp ha
        cases heq
        cases he
        have hp := hdraft.pending p (by rw [hpending]; exact List.mem_cons_self)
        have hconn : g.state.conns p.fd = p.conn := by
          rw [h.conns, hp.fd, hp.conn]
          rfl
        rw [hconn]
        exact ⟨rfl, { hsame with sent := ⟨[p], hpending, rfl⟩ }⟩
  all_goals cases ha

/-- The draft after an access. -/
theorem Drafted.moved (h : Drafted m s t d) (hm : Moved m m' d d') :
    Drafted m' s t d' := by
  have hstands : ∀ c, Stands s d c → Stands s d' c := by
    intro c hc
    unfold Stands
    rw [hm.index, hm.client]
    exact hc
  refine ⟨?_, ?_, fun c hc => ?_, fun j c hj => ?_, fun p hp => ?_⟩
  · rw [hm.index, hm.rooms, Function.update_self]
  · rw [hm.index, hm.target]
    exact h.target
  · rw [hm.client] at hc
    have hserves := h.serves c hc
    refine ⟨hserves.owner, hserves.held, hm.own c hc, ?_, ?_, ?_, ?_⟩
    · rw [hm.final]
      exact hserves.state
    · rw [hm.clientFd, hm.final]
      exact hserves.clientFd
    · rw [hm.inUse, hm.final]
      exact hserves.inUse
    · rw [hm.index]
      exact hserves.apart
  · rcases hm.seated j c hj with ⟨hold, -⟩ | ⟨hc, -⟩
    · exact hstands c (h.seated j c hold)
    · exact hstands c (.inr hc)
  · obtain ⟨parcels, hpending, -⟩ := hm.sent
    have haddressed := h.pending p (by
      rw [hpending]
      exact List.mem_append_right _ hp)
    refine ⟨hstands _ haddressed.stands, haddressed.fd, haddressed.conn, ?_⟩
    rw [hm.index]
    exact haddressed.origin

/-- The drafts of the other threads after it. -/
theorem Drafted.moved_other {u : Thread N} {e : Draft N C}
    (h : Drafted m s t d) (hu : Drafted m s u e) (hne : u ≠ t)
    (hindex : e.index ≠ d.index) (hm : Moved m m' d d') :
    Drafted m' s u e := by
  refine ⟨?_, hu.target, fun c hc => ?_, hu.seated, hu.pending⟩
  · rw [hm.rooms, Function.update_of_ne hindex]
    exact hu.room
  · have hserves := hu.serves c hc
    refine { hserves with memory := ?_ }
    rw [hm.others c fun hd => hne ?_]
    · exact hserves.memory
    · exact hserves.owner.trans (h.serves c hd).owner.symm

/-- **What a section does under its lock** keeps the memory tied to the state in
which it has already happened. -/
theorem Tied.moves (h : Tied g s phases) (ht : phases t = .room d)
    (hm : Moved g.state m' d d') :
    Tied { g with state := m' } s (Function.update phases t (.room d')) := by
  have hdraft := h.drafted t d ht
  have hlock : g.holder (.room d.index) = some t :=
    (h.locks _ t).mpr (by rw [ht]; rfl)
  have hindex : ∀ u e, u ≠ t → phases u = .room e → e.index ≠ d.index := by
    intro u e hu he heq
    have hlock' := (h.locks (.room e.index) u).mpr (by rw [he]; rfl)
    rw [heq, hlock] at hlock'
    exact hu (Option.some.inj hlock').symm
  have hphase : ∀ u, u ≠ t →
      Function.update phases t (.room d') u = phases u :=
    fun u hu => Function.update_of_ne hu _ _
  refine
    { conns := hm.conns.trans h.conns
      notification := hm.notification.trans h.notification
      newClient := hm.newClient.trans h.newClient
      workerIndex := hm.workerIndex.trans h.workerIndex
      accepted := hm.accepted.trans h.accepted
      locks := locks_keep h.locks ?_
      rooms := fun k hk => ?_
      counts := fun w hw => ?_
      drafted := fun u e he => ?_
      counted := fun u w value target hu => ?_
      picked := fun u w hu => ?_
      clients := fun c hc => ?_
      seats := fun k j c hc => ?_
      traffic := fun q => ?_ }
  · rw [ht]
    exact congrArg (fun i => some (Lock.room i)) hm.index
  · show m'.rooms k = s.rooms k
    rw [hm.rooms, Function.update_of_ne]
    · exact h.rooms k hk
    · rintro rfl
      rw [hlock] at hk
      cases hk
  · show m'.numOfClients w = s.numOfClients w
    rw [hm.numOfClients]
    exact h.counts w hw
  · by_cases hu : u = t
    · subst hu
      rw [Function.update_self] at he
      cases he
      exact hdraft.moved hm
    · rw [hphase u hu] at he
      exact hdraft.moved_other (h.drafted u e he) hu (hindex u e hu he) hm
  · show m'.numOfClients w = value ∧ _
    rw [hm.numOfClients]
    refine h.counted u w value target ?_
    by_cases hut : u = t
    · subst hut
      rw [Function.update_self] at hu
      cases hu
    · rwa [hphase u hut] at hu
  · refine h.picked u w ?_
    by_cases hut : u = t
    · subst hut
      rw [Function.update_self] at hu
      cases hu
    · rwa [hphase u hut] at hu
  · show m'.clients c = s.clients c
    have hnot : d.client ≠ some c := by
      intro hclient
      have howner := (hdraft.serves c hclient).owner
      subst howner
      refine hc d' (Function.update_self _ _ _) ?_
      rw [hm.client]
      exact hclient
    rw [hm.others c hnot]
    refine h.clients c fun e he => ?_
    by_cases hu : Thread.worker c.worker = t
    · rw [hu, ht] at he
      cases he
      exact hnot
    · exact hc e ((hphase _ hu).trans he)
  · show m'.seats k j = s.connOf c
    have hc : (m'.rooms k).clients j = some c := hc
    rw [hm.rooms] at hc
    by_cases hk : k = d.index
    · subst hk
      rw [Function.update_self] at hc
      rcases hm.seated j c hc with ⟨hold, hseat⟩ | ⟨-, hseat⟩
      · rw [hseat]
        rw [← hdraft.room] at hold
        exact h.seats d.index j c hold
      · rw [hseat, h.conns, (h.same_record c).1]
        rfl
    · rw [Function.update_of_ne hk] at hc
      rw [hm.seats k hk]
      exact h.seats k j c hc
  · obtain ⟨u, hu, hrest⟩ := h.traffic q
    obtain ⟨parcels, hpending, hcalls⟩ := hm.sent
    show ∃ v, _ = codeTraffic q m'.calls ++ _ ∧ _
    rw [hcalls, codeTraffic_append]
    have hsplit : codeTraffic q ((phases t).pending.map Parcel.sent) =
        codeTraffic q (parcels.map Parcel.sent) ++
          codeTraffic q (d'.pending.map Parcel.sent) := by
      rw [ht, ← codeTraffic_append, ← List.map_append, ← hpending]
      rfl
    refine ⟨u, ?_, fun v hv => ?_⟩
    · by_cases hut : u = t
      · subst hut
        rw [Function.update_self, hu, hsplit, List.append_assoc]
        rfl
      · have hnone := hrest t (Ne.symm hut)
        rw [hsplit] at hnone
        rw [hphase u hut, hu, (List.append_eq_nil_iff.mp hnone).1,
          List.append_nil]
    · by_cases hvt : v = t
      · subst hvt
        have hnone := hrest v hv
        rw [hsplit] at hnone
        rw [Function.update_self]
        exact (List.append_eq_nil_iff.mp hnone).2
      · rw [hphase v hvt]
        exact hrest v hv

end Moved

/-! ### Leaving a section, and counts -/

namespace Tied

variable {g : Guarded (Thread N) (Lock N) (Memory N C)} {s s' : State N C}
  {phases : Thread N → Phase N C} {t : Thread N} {d : Draft N C} {w : Fin N}
  {a : Act N C} {b : a.Answer} {p : Phase N C}

theorem phase_other {u : Thread N} {p' : Phase N C}
    (hu : Function.update phases t p u = p') (hne : p' ≠ p) :
    u ≠ t ∧ phases u = p' := by
  by_cases hut : u = t
  · subst hut
    rw [Function.update_self] at hu
    exact absurd hu.symm hne
  · exact ⟨hut, by rwa [Function.update_of_ne hut] at hu⟩

/-- Where a thread's phase holds no draft and no frames before and after,
nothing changes for the drafts and the traffic. -/
theorem traffic_of_empty (h : Tied g s phases)
    (hbefore : (phases t).pending = []) (hafter : p.pending = []) (q : Conn) :
    ∃ u, (delivered s q).map Server.traffic = codeTraffic q g.state.calls ++
        codeTraffic q ((Function.update phases t p u).pending.map
          Parcel.sent) ∧
      ∀ v, v ≠ u → codeTraffic q ((Function.update phases t p v).pending.map
        Parcel.sent) = [] := by
  have hsame : ∀ v, (Function.update phases t p v).pending =
      (phases v).pending := by
    intro v
    by_cases hv : v = t
    · subst hv
      rw [Function.update_self, hbefore, hafter]
    · rw [Function.update_of_ne hv]
  obtain ⟨u, hu, hrest⟩ := h.traffic q
  refine ⟨u, ?_, fun v hv => ?_⟩
  · rw [hsame u]
    exact hu
  · rw [hsame v]
    exact hrest v hv

/-- Giving back the lock of a room. -/
theorem exitRoom (h : Tied g s phases) (ht : phases t = .room d)
    (hdone : d.Done) :
    Tied { g with holder := Function.update g.holder (.room d.index) none } s
      (Function.update phases t .out) := by
  obtain ⟨hroom, hrecord, hpending⟩ := hdone
  have hdraft := h.drafted t d ht
  have hphase : ∀ u, u ≠ t → Function.update phases t .out u = phases u :=
    fun u hu => Function.update_of_ne hu _ _
  refine { h with
    locks := locks_release h.locks (by rw [ht]; rfl) rfl
    rooms := fun k hk => ?_
    counts := fun v hv => h.counts v (by simpa using hv)
    drafted := fun u e he => h.drafted u e (phase_other he nofun).2
    counted := fun u v x y hu => h.counted u v x y (phase_other hu nofun).2
    picked := fun u v hu => h.picked u v (phase_other hu nofun).2
    clients := fun c hc => ?_
    traffic := h.traffic_of_empty (by rw [ht]; exact hpending) rfl }
  · by_cases hkd : k = d.index
    · rw [hkd]
      exact hdraft.room.trans (hroom.trans hdraft.target.symm)
    · exact h.rooms k (by simpa [hkd] using hk)
  · by_cases hclient : t = .worker c.worker ∧ d.client = some c
    · have hserves := hdraft.serves c hclient.2
      exact hserves.memory.trans (hrecord.trans hserves.state.symm)
    · refine h.clients c fun e he hec => ?_
      by_cases hu : Thread.worker c.worker = t
      · rw [hu, ht] at he
        cases he
        exact hclient ⟨hu.symm, hec⟩
      · exact hc e ((hphase _ hu).trans he) hec

/-- Reading `worker_index`. -/
theorem pick (h : Tied g s phases) (hout : phases t = .out)
    (ht : t = .main) : Tied g s
      (Function.update phases t (.picked g.state.workerIndex)) := by

  refine { h with
    locks := locks_keep h.locks (by rw [hout]; rfl)
    drafted := fun u e he => h.drafted u e (phase_other he nofun).2
    counted := fun u v x y hu => h.counted u v x y (phase_other hu nofun).2
    picked := fun u v hu => ?_
    clients := fun c hc => ?_
    traffic := h.traffic_of_empty (by rw [hout]; rfl) rfl }
  · by_cases hut : u = t
    · subst hut
      rw [Function.update_self] at hu
      cases hu
      exact ⟨ht, h.workerIndex.symm⟩
    · rw [Function.update_of_ne hut] at hu
      exact h.picked u v hu
  · refine h.clients c fun e he => hc e ?_
    rw [Function.update_of_ne, he]
    rw [ht]
    exact nofun

/-- Taking the lock of a count: the section happens in the state. -/
theorem enterCount (h : Tied g s phases) (hgood : Chronicle s)
    (hroom : ∀ e, phases t ≠ .room e) (hcount : ∀ v x y, phases t ≠ .count v x y)
    (hw : a.count? s = some w) (ha : Allowed t s a) (hhonest : a.Honest t s)
    (hfree : g.holder (.count w) = none) (he : exec a s = some (b, s')) :
    Tied { g with holder := Function.update g.holder (.count w) (some t) } s'
      (Function.update phases t
        (.count w (s.numOfClients w) (s'.numOfClients w))) := by
  have hread : ∀ w, a ≠ .readEventfd w false := by
    rintro w rfl
    cases hw
  have hnoroom : a.room? = none := by
    cases a <;> first | rfl | cases hw
  have hinv' : ServerInv s' := hgood.inv.step ha hread he
  obtain ⟨hsame, hrooms, hclients, hcalls, hcounts⟩ := exec_count_frame hw he

  have hpending : (phases t).pending = [] := by
    cases hp : phases t with
    | room e => exact absurd hp (hroom e)
    | _ => rfl
  have hlock : (phases t).lock? = none := by
    cases hp : phases t with
    | room e => exact absurd hp (hroom e)
    | count v x y => exact absurd hp (hcount v x y)
    | _ => rfl
  have hdelivered : ∀ q, (delivered s' q).map Server.traffic =
      (delivered s q).map Server.traffic := by
    intro q
    have hnone : s'.calls = s.calls ++ [] := by
      rw [hcalls, List.append_nil]
    rw [hgood.delivers ha hhonest he hnone q]
    exact List.append_nil _
  refine
    { conns := h.conns.trans hsame.conns.symm
      notification := h.notification.trans hsame.notification.symm
      newClient := h.newClient.trans hsame.newClient.symm
      workerIndex := h.workerIndex.trans hsame.workerIndex.symm
      accepted := h.accepted.trans hsame.accepted.symm
      locks := locks_acquire h.locks hfree hlock rfl
      rooms := fun k hk => ?_
      counts := fun v hv => ?_
      drafted := fun u e hue => ?_
      counted := fun u v x y hu => ?_
      picked := fun u v hu => ?_
      clients := fun c hc => ?_
      seats := fun k j c hc => ?_
      traffic := fun q => ?_ }
  · rw [hrooms]
    exact h.rooms k (by simpa using hk)
  · have hvw : v ≠ w := by
      rintro rfl
      simp at hv
    rw [hcounts v hvw]
    exact h.counts v (by simpa [hvw] using hv)
  · obtain ⟨hu, hue⟩ := phase_other hue nofun
    exact (h.drafted u e hue).other hgood.inv hinv' hu ha he
      (congrFun hrooms _) rfl fun _ _ => rfl
  · by_cases hut : u = t
    · subst hut
      rw [Function.update_self] at hu
      cases hu
      exact ⟨h.counts w hfree, rfl⟩
    · rw [Function.update_of_ne hut] at hu
      have hvw : v ≠ w := by
        rintro rfl
        rw [(h.locks (.count v) u).mpr (by rw [hu]; rfl)] at hfree
        cases hfree
      rw [hcounts v hvw]
      exact h.counted u v x y hu
  · rw [hsame.workerIndex]
    exact h.picked u v (phase_other hu nofun).2
  · rw [hclients]
    refine h.clients c fun e he => hc e ?_
    rw [Function.update_of_ne, he]
    rintro rfl
    exact hroom e he
  · have hclose : a ≠ .closeClient c := by
      rintro rfl
      cases hw
    rw [(hgood.inv.slot_kept ha hclose he (h.held hgood.inv hc)).2.2]
    exact h.seats k j c hc
  · rw [hdelivered q]
    exact h.traffic_of_empty hpending rfl q

/-- Writing a count under its lock. -/
theorem setCount (h : Tied g s phases) {x y : Int}
    (ht : phases t = .count w x y) (value : Int) :
    Tied { g with state := { g.state with
        numOfClients := Function.update g.state.numOfClients w value } } s
      (Function.update phases t (.count w value y)) := by
  have hlock : g.holder (.count w) = some t :=
    (h.locks _ t).mpr (by rw [ht]; rfl)

  refine
    { conns := h.conns
      notification := h.notification
      newClient := h.newClient
      workerIndex := h.workerIndex
      accepted := h.accepted
      locks := locks_keep h.locks (by rw [ht]; rfl)
      rooms := h.rooms
      counts := fun v hv => ?_
      drafted := fun u e he => ?_
      counted := fun u v x' y' hu => ?_
      picked := fun u v hu => h.picked u v (phase_other hu nofun).2
      clients := fun c hc => ?_
      seats := h.seats
      traffic := h.traffic_of_empty (by rw [ht]; rfl) rfl }
  · show Function.update g.state.numOfClients w value v = _
    rw [Function.update_of_ne]
    · exact h.counts v hv
    · rintro rfl
      rw [hlock] at hv
      cases hv
  · obtain ⟨hroom, htarget, hserves, hseated, hpending⟩ :=
      h.drafted u e (phase_other he nofun).2
    exact ⟨hroom, htarget, fun c hc => { hserves c hc with }, hseated, hpending⟩
  · by_cases hut : u = t
    · subst hut
      rw [Function.update_self] at hu
      cases hu
      exact ⟨Function.update_self _ _ _, (h.counted u w x y ht).2⟩
    · rw [Function.update_of_ne hut] at hu
      have hvw : v ≠ w := by
        rintro rfl
        have hlock' := (h.locks (.count v) u).mpr (by rw [hu]; rfl)
        exact hut (Option.some.inj (hlock'.symm.trans hlock))
      refine ⟨?_, (h.counted u v x' y' hu).2⟩
      rw [← (h.counted u v x' y' hu).1]
      exact Function.update_of_ne hvw _ _
  · refine h.clients c fun e he => hc e ?_
    rw [Function.update_of_ne, he]
    rintro rfl
    rw [ht] at he
    cases he

/-- Giving back the lock of a count. -/
theorem exitCount (h : Tied g s phases) {x : Int}
    (ht : phases t = .count w x x) :
    Tied { g with holder := Function.update g.holder (.count w) none } s
      (Function.update phases t .out) := by

  refine { h with
    locks := locks_release h.locks (by rw [ht]; rfl) rfl
    rooms := fun k hk => h.rooms k (by simpa using hk)
    counts := fun v hv => ?_
    drafted := fun u e he => h.drafted u e (phase_other he nofun).2
    counted := fun u v x y hu => h.counted u v x y (phase_other hu nofun).2
    picked := fun u v hu => h.picked u v (phase_other hu nofun).2
    clients := fun c hc => ?_
    traffic := h.traffic_of_empty (by rw [ht]; rfl) rfl }
  · by_cases hvw : v = w
    · rw [hvw]
      obtain ⟨hvalue, htarget⟩ := h.counted t w x x ht
      exact hvalue.trans htarget.symm
    · exact h.counts v (by simpa [hvw] using hv)
  · refine h.clients c fun e he => hc e ?_
    rw [Function.update_of_ne, he]
    rintro rfl
    rw [ht] at he
    cases he

end Tied

/-! ## The coupling -/

/-- What the environment promises a run of the accesses: what `ReadsSucceed`
promises a run of the sections.  Left out are the starts for chunks in which a
complete message follows a `CMD_EXIT`, and reads of an eventfd that fail;
`read` is taken to fail only on a counter that is zero. -/
def CodeOk (g : Guarded (Thread N) (Lock N) (Memory N C))
    (l : CodeStep N C) : Prop :=
  (∀ t j, l = .start t j → LiveOk g.state.state (.start t j)) ∧
    ∀ t w h, l ≠ .act t (.step (.plain (.readEventfd w false) h))

/-- A frame that a broadcast sends from a seat goes to the open connection the
seat was filled for, which is the connection of the live client in it. -/
def Addressee (g : Guarded (Thread N) (Lock N) (Memory N C)) :
    LockAct (Thread N) (Lock N) (Access N C) → Prop
  | .step (.send (.seat i j) fd _ _) => ∃ q c,
      g.state.conns fd = some q ∧ (g.state.rooms i).clients j = some c ∧
        g.state.seats i j = some q ∧ (g.state.clients c).clientFd = fd ∧
        (g.state.clients c).inUse = true
  | _ => True

/-- Whoever is about to send a frame has it among those of its section, or holds
the descriptor. -/
def Speaks (t : Thread N) (s : State N C) (p : Phase N C) :
    LockAct (Thread N) (Lock N) (Access N C) → Prop
  | .step (.send _ fd _ _) => ∃ d, p = .room d ∧ ∃ parcel ∈ d.pending,
      parcel.fd = fd
  | .step (.plain (.send fd _ _) _) => ∃ d : Holder N C,
      d.thread? = some t ∧ s.holding d = some fd
  | _ => True

/-- What is noted of the accesses: the room when its lock is taken, and the
lists of rooms. -/
def codeNote (a : LockAct (Thread N) (Lock N) (Access N C))
    (g : Guarded (Thread N) (Lock N) (Memory N C)) : Option Note :=
  match a with
  | .lock _ (.room i) => some (.room i (g.state.rooms i).name?)
  | .step (.plain a _) => a.look g.state.state
  | _ => none

/-- The accesses implement the sections. -/
def sections (N C : Nat) : Coupling Note (codeServer N C) (server N C) :=
  { G := Phase N C
    out := .out
    Rel := Tied
    ok' := CodeOk
    ok := ReadsSucceed
    Good := Chronicle
    Pre := fun t a s => Allowed t s a ∧ a.Honest t s ∧
      ∀ fd cmdType message, a = .send fd cmdType message →
        ∃ d : Holder N C, d.thread? = some t ∧ s.holding d = some fd
    Check := fun t a g s p => Addressee g a ∧ Speaks t s p a
    note' := codeNote
    note := Act.look }

section Steps

variable {g g' : Guarded (Thread N) (Lock N) (Memory N C)} {s : State N C}
  {phases : Thread N → Phase N C} {t : Thread N} {p p' : Phase N C}

/-- A frame the draft is to send is for a client with an open connection. -/
theorem connected_of_draft (h : Tied g s phases) (hinv : ServerInv s)
    {d : Draft N C} (ht : phases t = .room d) {p : Parcel N C}
    (hp : p ∈ d.pending) : ∃ q, g.state.conns p.fd = some q ∧
      s.connOf p.client = some q := by
  have hdraft := h.drafted t d ht
  have haddressed := hdraft.pending p hp
  obtain ⟨q, hq⟩ := hinv.connected (hdraft.held hinv haddressed.stands)
  refine ⟨q, ?_, hq⟩
  rw [h.conns, haddressed.fd]
  exact hq

/-- The addressee of a frame the draft is to send. -/
theorem addressee_of_draft (h : Tied g s phases) (hinv : ServerInv s)
    {d d' : Draft N C} (ht : phases t = .room d) {a : Access N C}
    {answer : a.Answer} (ha : a.draft d = some (answer, d')) :
    Addressee g (.step a) ∧ Speaks t s (.room d) (.step a) := by
  cases a
  case send origin fd cmdType message =>
    simp only [Access.draft] at ha
    cases hpending : d.pending with
    | nil =>
        rw [hpending] at ha
        cases ha
    | cons p rest =>
        rw [hpending] at ha
        obtain ⟨⟨horigin, rfl, -, -, hseated⟩, -⟩ :=
          Option.ite_none_right_eq_some.mp ha
        have hmem : p ∈ d.pending := by
          rw [hpending]
          exact List.mem_cons_self
        obtain ⟨q, hconn, hq⟩ := connected_of_draft h hinv ht hmem
        constructor
        · cases origin with
          | seat i j =>
              have hdraft := h.drafted t d ht
              have hp := hdraft.pending p hmem
              have hindex : i = d.index := by
                have hroom := hp.origin
                rw [← horigin] at hroom
                exact Option.some.inj hroom
              subst hindex
              have hseat : (g.state.rooms d.index).clients j =
                  some p.client := by
                rw [hdraft.room]
                simpa [Parcel.Seated, ← horigin] using hseated
              obtain ⟨hfd, huse⟩ := h.same_record p.client
              refine ⟨q, p.client, hconn, hseat, ?_, hfd.trans hp.fd.symm, ?_⟩
              · rw [h.seats d.index j p.client hseat, hq]
              · rw [huse]
                exact (of_holding_slot (hdraft.held hinv hp.stands)).1
          | _ => trivial
        · exact ⟨d, rfl, p, hmem, rfl⟩
  case plain => cases ha
  all_goals exact ⟨trivial, trivial⟩

/-- A frame is one of a section, whose room is locked, or it is for a descriptor
that the thread holds. -/
theorem speaks_cases {a : LockAct (Thread N) (Lock N) (Access N C)}
    {f : Fd × UInt8 × Bytes} (ha : Speaks t s p a) (hf : outgoing a = some f) :
    (underLock a = true ∧
      ∃ d, p = .room d ∧ ∃ parcel ∈ d.pending, parcel.fd = f.1) ∨
    (underLock a = false ∧
      ∃ d : Holder N C, d.thread? = some t ∧ s.holding d = some f.1) := by
  cases a with
  | step a =>
      cases a
      case send =>
        cases hf
        exact .inl ⟨rfl, ha⟩
      case plain a hplain =>
        cases a
        case send =>
          cases hf
          exact .inr ⟨rfl, ha⟩
        all_goals cases hf
      all_goals cases hf
  | _ => cases hf

/-- Whoever is about to send a frame has an open descriptor for it. -/
theorem connected_of_speaks (h : Tied g s phases) (hinv : ServerInv s)
    {a : LockAct (Thread N) (Lock N) (Access N C)} {f : Fd × UInt8 × Bytes}
    (ha : Speaks t s (phases t) a) (hf : outgoing a = some f) :
    ∃ q, g.state.conns f.1 = some q := by
  rcases speaks_cases ha hf with ⟨-, d, ht, p, hp, hfd⟩ | ⟨-, d, -, hd⟩
  · obtain ⟨q, hq, -⟩ := connected_of_draft h hinv ht hp
    exact ⟨q, hfd ▸ hq⟩
  · rw [h.conns]
    exact hinv.own.owned.known d _ hd

/-- Two threads in the sections of rooms send to different connections. -/
theorem drafts_apart (h : Tied g s phases) (hinv : ServerInv s)
    {u : Thread N} {d e : Draft N C} (ht : phases t = .room d)
    (hu : phases u = .room e) {p p' : Parcel N C} (hp : p ∈ d.pending)
    (hp' : p' ∈ e.pending) {q : Conn} (hq : g.state.conns p.fd = some q)
    (hq' : g.state.conns p'.fd = some q) : t = u := by
  have hd := h.drafted t d ht
  have he := h.drafted u e hu
  have haddressed := (hd.pending p hp).stands
  have haddressed' := (he.pending p' hp').stands
  obtain ⟨q₁, hq₁, hconn⟩ := connected_of_draft h hinv ht hp
  obtain ⟨q₂, hq₂, hconn'⟩ := connected_of_draft h hinv hu hp'
  cases hq.symm.trans hq₁
  cases hq'.symm.trans hq₂
  have hclient : p.client = p'.client :=
    hinv.connOf_inj (hd.held hinv haddressed) (he.held hinv haddressed')
      (hconn.trans hconn'.symm)
  rw [← hclient] at haddressed'
  rcases Drafted.index_eq hinv hd he haddressed haddressed' with heq | heq
  · exact heq
  · -- both hold the lock of the room
    have hlock := (h.locks (.room d.index) t).mpr (by rw [ht]; rfl)
    have hlock' := (h.locks (.room e.index) u).mpr (by rw [hu]; rfl)
    rw [← heq] at hlock'
    exact Option.some.inj (hlock.symm.trans hlock')

/-- Two threads send to one connection only if one holds the lock of a room and
the other one holds none. -/
theorem rivals_of_speaks (h : Tied g s phases) (hinv : ServerInv s)
    {u : Thread N} (htu : t ≠ u)
    {a b : LockAct (Thread N) (Lock N) (Access N C)} {f f' : Fd × UInt8 × Bytes}
    (ha : Speaks t s (phases t) a) (hb : Speaks u s (phases u) b)
    (hf : outgoing a = some f) (hf' : outgoing b = some f') {q : Conn}
    (hq : g.state.conns f.1 = some q) (hq' : g.state.conns f'.1 = some q) :
    underLock a ≠ underLock b := by
  intro hlock
  rcases speaks_cases ha hf with ⟨ha, d, ht, p, hp, hfd⟩ | ⟨ha, d, ht, hd⟩ <;>
    rcases speaks_cases hb hf' with ⟨hb, e, hu, p', hp', hfd'⟩ | ⟨hb, e, hu, he⟩
  · rw [← hfd] at hq
    rw [← hfd'] at hq'
    exact htu (drafts_apart h hinv ht hu hp hp' hq hq')
  · cases ha.symm.trans (hlock.trans hb)
  · cases ha.symm.trans (hlock.trans hb)
  · rw [h.conns] at hq hq'
    cases hinv.own.owned.holder_unique hd he hq hq'
    exact htu (Option.some.inj (ht.symm.trans hu))

/-- Inside a section nothing is noted. -/
theorem codeNote_of_phase {a : LockAct (Thread N) (Lock N) (Access N C)}
    {out : a.Answer Access.Answer × Phase N C}
    (h : Phase.exec t a p = some out) : codeNote a g = none := by
  cases a with
  | lock u l => cases p <;> cases h
  | unlock u l => rfl
  | step a =>
      cases a
      case plain => cases p <;> cases h
      all_goals rfl

/-- A step of a section. -/
theorem phase_step (h : Tied g s phases) (hinv : ServerInv s)
    (ht : phases t = p) {a : LockAct (Thread N) (Lock N) (Access N C)}
    {answer : a.Answer Access.Answer}
    (ha : Phase.exec t a p = some (answer, p')) :
    (Addressee g a ∧ Speaks t s p a) ∧
      ∀ answer', (codeServer N C).exec a g = some (answer', g') →
        answer' = answer ∧ Tied g' s (Function.update phases t p') := by
  cases a with
  | lock u l => cases p <;> cases ha
  | unlock u l =>
      refine ⟨⟨trivial, trivial⟩, fun answer' he => ⟨rfl, ?_⟩⟩
      obtain ⟨-, heq⟩ := Option.ite_none_right_eq_some.mp he
      cases heq
      cases p with
      | room d =>
          obtain ⟨⟨rfl, rfl, hdone⟩, heq⟩ := Option.ite_none_right_eq_some.mp ha
          cases heq
          exact h.exitRoom ht hdone
      | count w x y =>
          obtain ⟨⟨rfl, rfl, rfl⟩, heq⟩ := Option.ite_none_right_eq_some.mp ha
          cases heq
          exact h.exitCount ht
      | _ => cases ha
  | step a =>
      cases p with
      | room d =>
          obtain ⟨⟨out, d'⟩, hd, heq⟩ := Option.map_eq_some_iff.mp ha
          cases heq
          refine ⟨addressee_of_draft h hinv ht hd, fun answer' he => ?_⟩
          obtain ⟨⟨out', m'⟩, hm, heq⟩ := Option.map_eq_some_iff.mp he
          cases heq
          obtain ⟨hout, hmoved⟩ := draft_moves h ht hd hm
          exact ⟨hout, h.moves ht hmoved⟩
      | count w x y =>
          cases a
          case numOfClients v =>
            obtain ⟨rfl, heq⟩ := Option.ite_none_right_eq_some.mp ha
            cases heq
            refine ⟨⟨trivial, trivial⟩, fun answer' he => ?_⟩
            cases he
            refine ⟨(h.counted t v _ _ ht).1, ?_⟩
            rw [← ht, Function.update_eq_self]
            exact h
          case setNumOfClients v value =>
            obtain ⟨rfl, heq⟩ := Option.ite_none_right_eq_some.mp ha
            cases heq
            refine ⟨⟨trivial, trivial⟩, fun answer' he => ⟨rfl, ?_⟩⟩
            cases he
            exact h.setCount ht value
          all_goals cases ha
      | _ => cases a <;> cases ha

end Steps

section Refinement

variable {t : Thread N} {a : Act N C} {α : Type} {p : Phase N C}

/-- What is left of a section is matched by nothing. -/
theorem refines_section {code : Code N C α} {value : α} :
    ∀ {p : Phase N C}, code.run (Phase.exec t) p = some (value, .out) →
      (sections N C).Refines t (fun _ g => g = .out) code (.ret value) p := by
  induction code with
  | ret answer =>
      intro p hrun
      cases hrun
      exact ⟨rfl, rfl⟩
  | act a next ih =>
      intro p hrun m s phases hrel ht hgood hok _
      simp only [Prog.run] at hrun
      cases hstep : Phase.exec t a p with
      | none =>
          rw [hstep] at hrun
          cases hrun
      | some out =>
          rw [hstep] at hrun
          have hall : ∀ g', (Addressee m a ∧ Speaks t s p a) ∧ ∀ answer',
              (codeServer N C).exec a m = some (answer', g') →
              answer' = out.1 ∧ Tied g' s (Function.update phases t out.2) :=
            fun g' => phase_step hrel hgood.inv ht hstep
          refine ⟨(hall m).1, fun answer m' he => ?_⟩
          obtain ⟨rfl, htied⟩ := (hall m').2 answer he
          have hnote : codeNote a m = none := codeNote_of_phase hstep
          refine ⟨out.2, _, s, ?_, htied, ih _ hrun⟩
          show (sections N C).Follow t (codeNote a m) _ _ _ _
          rw [hnote]
          exact .stay _ _

theorem room_enabled {i : Fin maxRooms} (hroom : a.room? = some i)
    (s : State N C) : ∃ b s', exec a s = some (b, s') := by
  cases a <;> simp only [Act.room?, Option.some.injEq, reduceCtorEq] at hroom
  all_goals exact ⟨_, _, rfl⟩

theorem reads_of_room {i : Fin maxRooms} (hroom : a.room? = some i)
    (s : State N C) : ReadsSucceed s (.act t a) := by
  refine ⟨⟨trivial, nofun⟩, ?_⟩
  rintro u w heq
  cases heq
  cases hroom

theorem look_of_room {i : Fin maxRooms} (hroom : a.room? = some i)
    (s : State N C) : a.look s = some (.room i (s.rooms i).name?) := by
  cases a <;> simp only [Act.room?, Option.some.injEq, reduceCtorEq] at hroom
  all_goals
    subst hroom
    rfl

/-- What a plain access notes is no matter of the state. -/
theorem look_of_plain (hplain : a.isSection = false) (s s' : State N C) :
    a.look s = a.look s' := by
  cases a
  case send => rfl
  all_goals first | rfl | cases hplain

/-- The section of a room, from its lock on. -/
theorem refines_room {i : Fin maxRooms} (hroom : a.room? = some i)
    {next : Unit → Code N C a.Answer}
    (hcode : ∀ s s' b, exec a s = some (b, s') →
      (next ()).run (Phase.exec t) (.room (a.draft s s' i)) = some (b, .out)) :
    (sections N C).Refines t (fun _ g => g = .out)
      (.act (.lock t (.room i)) next) (Prog.perform a) .out := by
  intro m s phases hrel ht hgood hok hpre
  obtain ⟨ha, hhonest, -⟩ := hpre a .ret rfl (reads_of_room hroom s)
  obtain ⟨b, s', he⟩ := room_enabled hroom s
  refine ⟨⟨trivial, trivial⟩, fun answer m' hm => ?_⟩
  obtain ⟨hfree, heq⟩ := Option.ite_none_right_eq_some.mp hm
  cases heq
  refine ⟨_, .ret b, s', ?_,
    hrel.enterRoom hgood ht hroom ha hhonest hfree he,
    refines_section (hcode s s' b he)⟩
  have hnote : codeNote (.lock t (.room i)) m = a.look s := by
    rw [look_of_room hroom, codeNote, hrel.rooms i hfree]
  show (sections N C).Follow t (codeNote (.lock t (.room i)) m) _ _ _ _
  rw [hnote]
  exact .act (reads_of_room hroom s) he

/-- The section of a count, from its lock on. -/
theorem refines_count {w : Fin N} {next : Unit → Code N C a.Answer}
    (hread : ∀ s, ReadsSucceed s (.act t a)) (hlook : ∀ s, a.look s = none)
    (henabled : ∀ s, ∃ b s', exec a s = some (b, s'))
    (hroom : ∀ e, p ≠ .room e) (hcount : ∀ v x y, p ≠ .count v x y)
    (hw : ∀ m s phases, Tied m s phases → phases t = p → a.count? s = some w)
    (hcode : ∀ s s' b, a.count? s = some w → exec a s = some (b, s') →
      (next ()).run (Phase.exec t)
        (.count w (s.numOfClients w) (s'.numOfClients w)) = some (b, .out)) :
    (sections N C).Refines t (fun _ g => g = .out)
      (.act (.lock t (.count w)) next) (Prog.perform a) p := by
  intro m s phases hrel ht hgood hok hpre
  obtain ⟨ha, hhonest, -⟩ := hpre a .ret rfl (hread s)
  obtain ⟨b, s', he⟩ := henabled s
  have hws := hw m s phases hrel ht
  refine ⟨⟨trivial, trivial⟩, fun answer m' hm => ?_⟩
  obtain ⟨hfree, heq⟩ := Option.ite_none_right_eq_some.mp hm
  cases heq
  refine ⟨_, .ret b, s', ?_,
    hrel.enterCount hgood (by rw [ht]; exact hroom) (by rw [ht]; exact hcount)
      hws ha hhonest hfree he,
    refines_section (hcode s s' b hws he)⟩
  show (sections N C).Follow t none _ _ _ _
  rw [← hlook s]
  exact .act (hread s) he

/-- The decrement of a count. -/
theorem refines_subtract {w : Fin N} {next : Unit → Code N C a.Answer}
    (henabled : ∀ s, ∃ b s', exec a s = some (b, s') ∧
      s'.numOfClients w = s.numOfClients w - 1)
    (hcount : ∀ s, a.count? s = some w)
    (hread : ∀ s, ReadsSucceed s (.act t a)) (hlook : ∀ s, a.look s = none)
    (hcode : ∀ s s' b (x : Int), exec a s = some (b, s') →
      (next ()).run (Phase.exec t) (.count w x (x - 1)) = some (b, .out)) :
    (sections N C).Refines t (fun _ g => g = .out)
      (.act (.lock t (.count w)) next) (Prog.perform a) .out := by
  refine refines_count hread hlook (fun s => ?_)
    (fun _ heq => by cases heq) (fun _ _ _ heq => by cases heq)
    (fun _ s _ _ _ => hcount s) fun s s' b _ he => ?_
  · obtain ⟨b, s', he, -⟩ := henabled s
    exact ⟨b, s', he⟩
  · obtain ⟨b', s'', he', hvalue⟩ := henabled s
    cases he.symm.trans he'
    rw [hvalue]
    exact hcode s s' b _ he

theorem implement_plain (hplain : a.isSection = false) :
    implement t a = access (.plain a hplain) := by
  cases a <;> first | rfl | cases hplain

/-- An action that is one access happens in both. -/
theorem refines_plain (hplain : a.isSection = false) :
    (sections N C).Refines t (fun _ g => g = .out) (implement t a)
      (Prog.perform a) .out := by
  rw [implement_plain hplain]
  intro m s phases hrel ht hgood hok hpre
  have hread : ∀ w, a ≠ .readEventfd w false := by
    rintro w rfl
    exact hok.2 t w hplain rfl
  have hreads : ReadsSucceed s (.act t a) := by
    refine ⟨⟨trivial, nofun⟩, ?_⟩
    rintro u w heq
    cases heq
    exact hread w rfl
  obtain ⟨ha, hhonest, hsends⟩ := hpre a .ret rfl hreads
  refine ⟨⟨trivial, ?_⟩, fun answer m' hm => ?_⟩
  · cases a
    case send fd cmdType message => exact hsends _ _ _ rfl
    all_goals trivial
  obtain ⟨⟨out, m₁⟩, hm₁, heq⟩ := Option.map_eq_some_iff.mp hm
  cases heq
  obtain ⟨⟨b, n⟩, he, heq⟩ := Option.map_eq_some_iff.mp hm₁
  cases heq
  obtain ⟨s', hs', htied⟩ := hrel.plain hgood ht hplain hread ha hhonest he
  have hnote : codeNote (.step (.plain a hplain)) m = a.look s :=
    look_of_plain hplain _ _
  refine ⟨.out, .ret b, s', ?_, ?_, rfl, rfl⟩
  · show (sections N C).Follow t (codeNote (.step (.plain a hplain)) m) _ _ _ _
    rw [hnote]
    exact .act hreads hs'
  · rw [← ht, Function.update_eq_self]
    exact htied

/-- `leave_room` logs `room_name` before it takes the lock. -/
theorem refines_leave (i : Fin maxRooms) (c : ClientPtr N C) :
    (sections N C).Refines t (fun _ g => g = .out)
      (implement t (.leaveSection i c)) (Prog.perform (Act.leaveSection i c))
      .out := by
  have hperforms : ∀ (s s' : State N C) (b : Unit),
      exec (.leaveSection i c) s = some (b, s') →
      ∃ next, implement t (.leaveSection i c) =
          .act (.step (.roomName i)) next ∧
        ∀ name, Performs t ((Act.leaveSection i c).draft s s' i) (next name)
          b :=
    fun _ _ _ he => performs_implement_leave he
  show (sections N C).Refines t _ (leaveCode t i c) _ _
  refine fun m s phases hrel ht hgood hok hpre =>
    ⟨⟨trivial, trivial⟩, fun name m' hm => ?_⟩
  cases hm
  refine ⟨.out, _, s, .stay _ _, ?_, ?_⟩
  · rw [← ht, Function.update_eq_self]
    exact hrel
  · refine refines_room rfl fun s s' b he => ?_
    obtain ⟨next, hnext, hname⟩ := hperforms s s' b he
    cases hnext
    obtain ⟨next', hnext', hrun⟩ := hname []
    cases hnext'
    exact hrun

/-! ### Counts -/

theorem run_readCount {β : Type} {w : Fin N} {x y : Int}
    {next : Int → Code N C β} {out : β × Phase N C}
    (h : (next x).run (Phase.exec t) (.count w x y) = some out) :
    (access (.numOfClients w) >>= next).run (Phase.exec t) (.count w x y) =
      some out :=
  Prog.run_act (if_pos rfl) h

theorem run_setCount {β : Type} {w : Fin N} {x y value : Int}
    {next : Unit → Code N C β} {out : β × Phase N C}
    (h : (next ()).run (Phase.exec t) (.count w value y) = some out) :
    (access (.setNumOfClients w value) >>= next).run (Phase.exec t)
      (.count w x y) = some out :=
  Prog.run_act (if_pos rfl) h

theorem run_unlockCount {β : Type} {w : Fin N} {x : Int}
    {next : Unit → Code N C β} {out : β × Phase N C}
    (h : (next ()).run (Phase.exec t) .out = some out) :
    (unlock t (.count w) >>= next).run (Phase.exec t) (.count w x x) =
      some out :=
  Prog.run_act (if_pos ⟨rfl, rfl, rfl⟩) h

/-- `num_of_clients--` under its lock. -/
theorem refines_subtractCode {w : Fin N} (a : Act N C)
    (ha : a = .subtractZeroed w ∨ a = .subtractUnread w ∨
      (∃ fd, a = .subtractRefused w fd) ∨ a = .subtractFailed w) :
    (sections N C).Refines t (fun _ g => g = .out) (implement t a)
      (Prog.perform a) .out := by
  have hrun : ∀ x : Int, (access (C := C) (.numOfClients w) >>= fun n =>
      access (.setNumOfClients w (n - 1)) >>= fun _ =>
        unlock t (.count w)).run (Phase.exec t) (.count w x (x - 1)) =
      some ((), .out) := fun x =>
    run_readCount (run_setCount (run_unlockCount rfl))
  rcases ha with rfl | rfl | ⟨fd, rfl⟩ | rfl
  all_goals
    refine refines_subtract (w := w) (fun s => ⟨(), _, rfl, ?_⟩)
      (fun _ => rfl) (fun _ => ⟨⟨trivial, nofun⟩, nofun⟩) (fun _ => rfl)
      fun _ _ _ x _ => hrun x
    exact Function.update_self _ _ _

/-- One inspection of `find_worker_not_at_capacity`. -/
theorem refines_inspect (fd : Fd) :
    (sections N C).Refines t (fun _ g => g = .out)
      (implement t (.inspectWorker fd)) (Prog.perform (Act.inspectWorker fd))
      .out := by
  have hreads : ∀ s : State N C, ReadsSucceed s (.act t (.inspectWorker fd)) :=
    fun _ => ⟨⟨trivial, nofun⟩, nofun⟩
  show (sections N C).Refines t _ (inspectCode t) _ _
  intro m s phases hrel ht hgood hok hpre
  obtain ⟨ha, -⟩ := hpre (.inspectWorker fd) .ret rfl (hreads s)
  refine ⟨⟨trivial, trivial⟩, fun w m' hm => ?_⟩
  cases hm
  refine ⟨.picked m.state.workerIndex, _, s, .stay _ _, hrel.pick ht ha.1, ?_⟩
  generalize m.state.workerIndex = w
  refine refines_count (w := w) hreads (fun _ => rfl) (fun s => ⟨_, _, rfl⟩)
    (fun _ heq => by cases heq) (fun _ _ _ heq => by cases heq)
    (fun m s phases hrel ht => ?_) fun s s' b hw he => ?_
  · exact congrArg some (hrel.picked t w ht).2
  · have hw : s.workerIndex = w := Option.some.inj hw
    refine run_readCount ?_
    rcases exec_inspectWorker he with ⟨hfull, rfl, rfl⟩ | ⟨hbelow, rfl, rfl⟩
    · rw [hw] at hfull
      rw [if_pos hfull]
      exact run_unlockCount rfl
    · rw [hw] at hbelow ⊢
      rw [if_neg (not_le.mpr hbelow)]
      refine run_readCount (run_setCount ?_)
      simp only [Function.update_self]
      exact run_unlockCount rfl

/-- **Every action is implemented.** -/
theorem refines_implement (t : Thread N) (a : Act N C) :
    (sections N C).Refines t (fun _ g => g = .out) (implement t a)
      (Prog.perform a) .out := by
  have hroom : ∀ {a : Act N C} {i : Fin maxRooms}
      {next : Unit → Code N C a.Answer}, a.room? = some i →
      (∀ k d, a ≠ .leaveSection k d) →
      implement t a = .act (.lock t (.room i)) next →
      (sections N C).Refines t (fun _ g => g = .out) (implement t a)
        (Prog.perform a) .out := by
    intro a i next hroom hleave hnext
    rw [hnext]
    refine refines_room hroom fun s s' b he => ?_
    obtain ⟨next', hnext', hrun⟩ :=
      performs_implement (t := t) hroom hleave he
    cases hnext.symm.trans hnext'
    exact hrun
  cases a with
  | createSection i c roomName successMsg => exact hroom rfl nofun rfl
  | listSection i msg => exact hroom rfl nofun rfl
  | joinSection i c msg => exact hroom rfl nofun rfl
  | chatSection i c msg => exact hroom rfl nofun rfl
  | leaveOkSection i c => exact hroom rfl nofun rfl
  | leaveSection i c => exact refines_leave i c
  | subtractZeroed w => exact refines_subtractCode _ (.inl rfl)
  | subtractUnread w => exact refines_subtractCode _ (.inr (.inl rfl))
  | subtractRefused w fd =>
      exact refines_subtractCode _ (.inr (.inr (.inl ⟨fd, rfl⟩)))
  | subtractFailed w => exact refines_subtractCode _ (.inr (.inr (.inr rfl)))
  | inspectWorker fd => exact refines_inspect fd
  | _ => exact refines_plain rfl

end Refinement

/-! ## Playing the accesses -/

/-- The steps, without the failing reads of an eventfd. -/
def execCode (a : LockAct (Thread N) (Lock N) (Access N C))
    (g : Guarded (Thread N) (Lock N) (Memory N C)) :
    Option (LockAct.Answer Access.Answer a ×
      Guarded (Thread N) (Lock N) (Memory N C)) :=
  match a with
  | .step (.plain (.readEventfd _ false) _) => none
  | a => (codeServer N C).exec a g

theorem exec_of_execCode {a : LockAct (Thread N) (Lock N) (Access N C)}
    {g : Guarded (Thread N) (Lock N) (Memory N C)}
    {out : LockAct.Answer Access.Answer a ×
      Guarded (Thread N) (Lock N) (Memory N C)}
    (h : execCode a g = some out) (t : Thread N) :
    (codeServer N C).exec a g = some out ∧ CodeOk g (.act t a) := by
  unfold execCode at h
  split at h
  case h_1 => cases h
  case h_2 hread =>
    refine ⟨h, fun _ _ heq => (by cases heq), ?_⟩
    intro t' w hplain heq
    cases heq
    exact hread w hplain rfl

/-- The jobs that may start on the memory. -/
def codeStartOk (g : Guarded (Thread N) (Lock N) (Memory N C)) (t : Thread N)
    (j : Job N C) : Bool :=
  startOk g.state.state t j

theorem codeOk_start {g : Guarded (Thread N) (Lock N) (Memory N C)}
    {t : Thread N} {j : Job N C} (h : codeStartOk g t j = true) :
    CodeOk g (.start t j) := by
  refine ⟨?_, fun _ _ _ heq => by cases heq⟩
  intro t' j' heq
  cases heq
  exact liveOk_of_startOk h

/-- The jobs are handled to their ends one after the other. -/
def playCode [NeZero N] (jobs : List (Thread N × Job N C)) :
    Option (Guarded (Thread N) (Lock N) (Memory N C)) :=
  (codeServer N C).play execCode codeStartOk
    (CodeConfiguration.init N C).shared jobs

theorem playCode_reaches [NeZero N] {jobs : List (Thread N × Job N C)}
    {g : Guarded (Thread N) (Lock N) (Memory N C)}
    (h : playCode jobs = some g) :
    ∃ ls, (codeServer N C).Run CodeOk (CodeConfiguration.init N C) ls
      (Config.quiet g) :=
  System.play_run (S := codeServer N C)
    (fun t _ _ _ he => exec_of_execCode he t)
    (fun _ _ _ hok => codeOk_start hok) jobs h

/-- Then thread `t` is given one more job and performs the first `n` steps of
it. -/
def playThen [NeZero N] (jobs : List (Thread N × Job N C)) (t : Thread N)
    (j : Job N C) (n : Nat) :
    Option (Code N C Unit × Guarded (Thread N) (Lock N) (Memory N C)) :=
  (playCode jobs).bind fun g =>
    if codeStartOk g t j then Prog.advance execCode n (jobCode t j) g else none

theorem playThen_reaches [NeZero N] {jobs : List (Thread N × Job N C)}
    {t : Thread N} {j : Job N C} {n : Nat} {p : Code N C Unit}
    {g : Guarded (Thread N) (Lock N) (Memory N C)}
    (h : playThen jobs t j n = some (p, g)) :
    ∃ ls, (codeServer N C).Run CodeOk (CodeConfiguration.init N C) ls
      ((Config.quiet g).update t g p) := by
  obtain ⟨g₀, hplay, hthen⟩ := Option.bind_eq_some_iff.mp h
  obtain ⟨hok, hadv⟩ := Option.ite_none_right_eq_some.mp hthen
  obtain ⟨ls₀, h₀⟩ := playCode_reaches hplay
  have hstart := h₀.snoc (codeOk_start hok) (.start _ t j rfl)
  have hrest : ∃ ls₁, (codeServer N C).Run CodeOk
      ((Config.quiet g₀).update t g₀ (jobCode t j)) ls₁
      (((Config.quiet g₀).update t g₀ (jobCode t j)).update t g p) :=
    System.Run.of_advance (S := codeServer N C)
      (fun _ _ _ he => exec_of_execCode he t) n (by simpa using hadv)
  obtain ⟨ls₁, h₁⟩ := hrest
  rw [Config.update_update] at h₁
  exact ⟨_, hstart.append h₁⟩

/-- Follow a script, with the notes. -/
def scriptCode (cues : List (System.Cue (Thread N) (Job N C)))
    (k : CodeConfiguration N C) :
    Option (List (Thread N × Note) × CodeConfiguration N C) :=
  (codeServer N C).script execCode codeStartOk (noteLog codeNote) cues k

theorem scriptCode_logged {cues : List (System.Cue (Thread N) (Job N C))}
    {k₀ k k' : CodeConfiguration N C} {es es' : List (Thread N × Note)}
    (h : (codeServer N C).Logged CodeOk (noteLog codeNote) k₀ es k)
    (hscript : scriptCode cues k = some (es', k')) :
    (codeServer N C).Logged CodeOk (noteLog codeNote) k₀ (es ++ es') k' :=
  System.Logged.script (S := codeServer N C)
    (fun t _ _ _ he => exec_of_execCode he t)
    (fun _ _ _ hok => codeOk_start hok) cues h hscript

/-- The frame that a program of accesses is about to send to a seat. -/
def seatFrame :
    Code N C Unit → Option (Fin maxRooms × Fin maxClientsRoom × Fd × Bytes)
  | .act (.step (.send (.seat i j) fd _ message)) _ => some (i, j, fd, message)
  | _ => none

theorem eq_of_seatFrame {p : Code N C Unit} {i : Fin maxRooms}
    {j : Fin maxClientsRoom} {fd : Fd} {message : Bytes}
    (h : seatFrame p = some (i, j, fd, message)) :
    ∃ cmdType next,
      p = .act (.step (.send (.seat i j) fd cmdType message)) next := by
  unfold seatFrame at h
  split at h
  case h_1 =>
    cases h
    exact ⟨_, _, rfl⟩
  case h_2 => cases h

/-! ## Over whole runs -/

/-- A job that may start on the memory may start on the state. -/
theorem Tied.start {g : Guarded (Thread N) (Lock N) (Memory N C)}
    {s : State N C} {phases : Thread N → Phase N C} (h : Tied g s phases)
    {t : Thread N} (hout : phases t = .out) {j : Job N C}
    (hok : CodeOk g (.start t j)) : ReadsSucceed s (.start t j) := by
  have hlive := hok.1 t j rfl
  have hclients : ∀ c, t = .worker c.worker →
      g.state.clients c = s.clients c := by
    rintro c rfl
    refine h.clients c fun d hd => ?_
    rw [hout] at hd
    cases hd
  have hsame : ∀ c, LiveOf g.state.state t c → LiveOf s t c := by
    rintro c ⟨ht, huse⟩
    refine ⟨ht, ?_⟩
    rw [← hclients c ht]
    exact huse
  refine ⟨⟨?_, ?_⟩, fun _ _ heq => by cases heq⟩
  · cases j with
    | receive c result => exact ⟨hsame c hlive.1.1, hlive.1.2⟩
    | hangUp c => exact hsame c hlive.1
    | _ => trivial
  · rintro u c bytes heq
    have hexits := hlive.2 u c bytes heq
    cases heq
    rw [← hclients c hlive.1.1.1]
    exact hexits

section Runs

variable [NeZero N] {ls : List (CodeStep N C)} {k : CodeConfiguration N C}

theorem Tied.init :
    Tied (CodeConfiguration.init N C).shared (State.init N C)
      fun _ => .out := by
  refine ⟨rfl, rfl, rfl, rfl, rfl, fun _ _ => ?_, fun _ _ => rfl,
    fun _ _ => rfl, fun _ _ h => (by cases h), fun _ _ _ _ h => (by cases h),
    fun _ _ h => (by cases h), fun _ _ => rfl, fun _ _ _ h => (by cases h),
    fun q => ⟨.main, rfl, fun _ _ => rfl⟩⟩
  constructor
  · intro h
    cases h
  · intro h
    cases h

/-- What is known of the runs of the sections. -/
theorem good_run {ls : List (Step N C)} {c : Configuration N C}
    (hrun : (server N C).Run ReadsSucceed (Configuration.init N C) ls c) :
    Chronicle c.shared ∧ ∀ t a next, c.prog t = .act a next →
      ReadsSucceed c.shared (.act t a) →
        Allowed t c.shared a ∧ a.Honest t c.shared ∧
          ∀ fd cmdType message, a = .send fd cmdType message →
            ∃ d : Holder N C, d.thread? = some t ∧
              c.shared.holding d = some fd := by
  have hsound := accounting_sound hrun
  refine ⟨hsound.inv.2, fun t a next hp hok => ?_⟩
  obtain ⟨ha, hhonest⟩ := hsound.pre hp hok
  refine ⟨ha, hhonest, ?_⟩
  rintro fd cmdType message rfl
  -- whoever sends replies to a request of a connection it holds
  have hcourteous := ((conversing_sound hrun).pre hp hok).2
  obtain ⟨d, request, hthread, hfd, -, -⟩ := hcourteous.reply fd _ rfl
  exact ⟨d, hthread, hfd⟩

/-- Every interleaving of the accesses is tied to one of whole sections in
which the threads note the same. -/
theorem coupled_logged {es : List (Thread N × Note)}
    (hrun : (codeServer N C).Logged CodeOk (noteLog codeNote)
      (CodeConfiguration.init N C) es k) :
    ∃ c phases, (server N C).Logged ReadsSucceed (noteLog Act.look)
        (Configuration.init N C) es c ∧
      (sections N C).Coupled k c phases :=
  (sections N C).simulates
    (fun _ _ _ _ _ hrel hout _ hok => hrel.start hout hok)
    (fun t j => Coupling.Refines.expand (refines_implement t) (jobProg t j))
    (fun _ _ hrun => good_run hrun) ⟨Tied.init, fun _ => ⟨rfl, rfl⟩⟩ hrun

/-- **Sections are atomic**: every interleaving of the accesses is tied to one of
whole sections. -/
theorem coupled_run
    (hrun : (codeServer N C).Run CodeOk (CodeConfiguration.init N C) ls k) :
    ∃ ls₀ c phases,
      (server N C).Run ReadsSucceed (Configuration.init N C) ls₀ c ∧
        (sections N C).Coupled k c phases := by
  obtain ⟨es, hes⟩ := hrun.logged (noteLog codeNote)
  obtain ⟨c, phases, hlogged, hcoupled⟩ := coupled_logged hes
  obtain ⟨ls₀, hrun₀⟩ := hlogged.run
  exact ⟨ls₀, c, phases, hrun₀, hcoupled⟩

/-- Whoever is about to send a frame has an open descriptor for it, and two of them
have the same connection only if one holds the lock of a room and the other one
holds none. -/
theorem rivals_run
    (hrun : (codeServer N C).Run CodeOk (CodeConfiguration.init N C) ls k)
    {t : Thread N} {a : LockAct (Thread N) (Lock N) (Access N C)}
    {next : a.Answer Access.Answer → Code N C Unit} {f : Fd × UInt8 × Bytes}
    (hnext : k.prog t = .act a next) (hok : CodeOk k.shared (.act t a))
    (hf : outgoing a = some f) :
    ∃ q, k.shared.state.conns f.1 = some q ∧
      ∀ u b (next' : b.Answer Access.Answer → Code N C Unit) f',
        k.prog u = .act b next' → CodeOk k.shared (.act u b) →
        outgoing b = some f' → k.shared.state.conns f'.1 = some q → t ≠ u →
          underLock a ≠ underLock b := by
  obtain ⟨ls₀, c, phases, hrun₀, hcoupled⟩ := coupled_run hrun
  obtain ⟨hgood, hpre⟩ := good_run hrun₀
  have hspeaks := (hcoupled.check hgood hpre hnext hok).2
  obtain ⟨q, hq⟩ := connected_of_speaks hcoupled.rel hgood.inv hspeaks hf
  refine ⟨q, hq, fun u b next' f' hnext' hok' hf' hq' htu => ?_⟩
  exact rivals_of_speaks hcoupled.rel hgood.inv htu hspeaks
    (hcoupled.check hgood hpre hnext' hok').2 hf hf' hq hq'

/-- **No write to a closed or recycled descriptor.**  Whenever
`broadcast_message_in_room` is about to send to the client in a seat, the
descriptor it has read is open, and it is that of the very connection the seat
was filled for, whose live client is still in it. -/
theorem addressee_run
    (hrun : (codeServer N C).Run CodeOk (CodeConfiguration.init N C) ls k)
    {t : Thread N} {i : Fin maxRooms} {j : Fin maxClientsRoom} {fd : Fd}
    {cmdType : UInt8} {message : Bytes} {next : Unit → Code N C Unit}
    (hnext : k.prog t =
      .act (.step (.send (.seat i j) fd cmdType message)) next) :
    ∃ q c, k.shared.state.conns fd = some q ∧
      (k.shared.state.rooms i).clients j = some c ∧
      k.shared.state.seats i j = some q ∧
      (k.shared.state.clients c).clientFd = fd ∧
      (k.shared.state.clients c).inUse = true := by
  obtain ⟨ls₀, c, phases, hrun₀, hcoupled⟩ := coupled_run hrun
  obtain ⟨hgood, hpre⟩ := good_run hrun₀
  exact (hcoupled.check hgood hpre hnext ⟨nofun, nofun⟩).1

end Runs

/-- One client has opened a room; another one has joined it and is about to
tell so. -/
theorem addressee_bob : ∃ ls k,
    (codeServer maxThreads maxClientsPerThread).Run CodeOk
        (CodeConfiguration.init _ _) ls k ∧
      (∃ cmdType next, k.prog (.worker (workerOf 1)) =
        .act (.step (.send (.seat 0 0) 5 cmdType
          (text "eve has entered the room\n"))) next) ∧
      ∃ q c, k.shared.state.conns 5 = some q ∧
        (k.shared.state.rooms 0).clients 0 = some c ∧
        k.shared.state.seats 0 0 = some q ∧
        (k.shared.state.clients c).clientFd = 5 ∧
        (k.shared.state.clients c).inUse = true := by
  have hplay : ((playThen (N := maxThreads) (C := maxClientsPerThread)
      (opensRoom 0 (text "bob") (text "den") ++ connects 1 ++
        [sends 1 (frame cmdUsernameSubmit (text "eve"))])
      (.worker (workerOf 1))
      (.receive (clientOf 1) (.data (frame cmdRoomJoinRequest (text "0"))))
      16).map fun out => seatFrame out.1) =
        some (some (0, 0, 5, text "eve has entered the room\n")) := by
    decide +kernel
  obtain ⟨⟨p, g⟩, hthen, hseat⟩ := Option.map_eq_some_iff.mp hplay
  obtain ⟨cmdType, next, rfl⟩ := eq_of_seatFrame hseat
  obtain ⟨ls, hrun⟩ := playThen_reaches hthen
  exact ⟨ls, _, hrun, ⟨cmdType, next, Config.update_prog_self _ _ _ _⟩,
    addressee_run hrun (Config.update_prog_self _ _ _ _)⟩

/-! ## The server as one of whole sections -/

/-- What the sections under way do not touch is in the memory as in the state,
and the room traffic sent is that of the state up to what they still send. -/
structure Matches (g : Guarded (Thread N) (Lock N) (Memory N C))
    (s : State N C) : Prop where
  conns : g.state.conns = s.conns
  notification : g.state.notification = s.notification
  newClient : g.state.newClient = s.newClient
  workerIndex : g.state.workerIndex = s.workerIndex
  accepted : g.state.accepted = s.accepted
  rooms : ∀ i, g.holder (.room i) = none → g.state.rooms i = s.rooms i
  counts : ∀ w, g.holder (.count w) = none →
    g.state.numOfClients w = s.numOfClients w
  clients : ∀ c, (∀ l, g.holder l ≠ some (.worker c.worker)) →
    g.state.clients c = s.clients c
  sent : ∀ q, (codeTraffic q g.state.calls).map Prod.snd <+:
    roomTraffic q s.calls
  settled : (∀ l, g.holder l = none) → ∀ q,
    (codeTraffic q g.state.calls).map Prod.snd = roomTraffic q s.calls

/-- What has been delivered is the room traffic of the calls. -/
theorem Chronicle.delivered_forget {s : State N C} (h : Chronicle s)
    (q : Conn) : (delivered s q).map forget = roomTraffic q s.calls := by
  have hprefix : roomTraffic q s.calls <+: (told s.events q).map forget := by
    rcases h.accounts q with hlevel | howes
    · rw [hlevel]
    · rw [← howes]
      exact List.prefix_append _ _
  rw [delivered, List.map_take]
  exact (List.prefix_iff_eq_take.mp hprefix).symm

/-- A tied memory matches its state. -/
theorem Tied.matches {g : Guarded (Thread N) (Lock N) (Memory N C)}
    {s : State N C} {phases : Thread N → Phase N C} (h : Tied g s phases)
    (hs : Chronicle s) : Matches g s := by
  have hroom : ∀ q, roomTraffic q s.calls =
      ((delivered s q).map Server.traffic).map Prod.snd := by
    intro q
    rw [← hs.delivered_forget q, List.map_map]
    refine List.map_congr_left fun x _ => ?_
    cases x <;> rfl
  refine ⟨h.conns, h.notification, h.newClient, h.workerIndex, h.accepted,
    h.rooms, h.counts, fun c hc => ?_, fun q => ?_, fun hfree q => ?_⟩
  · refine h.clients c fun d hd => ?_
    exact absurd ((h.locks _ _).mpr (by rw [hd]; rfl)) (hc (.room d.index))
  · obtain ⟨t, ht, -⟩ := h.traffic q
    rw [hroom q, ht, List.map_append]
    exact List.prefix_append _ _
  · -- Who holds no lock has nothing left to send.
    obtain ⟨t, ht, -⟩ := h.traffic q
    have hnone : (phases t).pending = [] := by
      cases hphase : phases t with
      | room d =>
          have hholder := (h.locks (.room d.index) t).mpr (by rw [hphase]; rfl)
          rw [hfree] at hholder
          cases hholder
      | _ => rfl
    rw [hroom q, ht, hnone, List.map_nil, codeTraffic_nil, List.append_nil]

/-- **Refinement**: whatever the order of the threads' single accesses, there is
a run of the server in which every critical section is one step, whose state is
that of the memory outside the sections under way; and who has nothing left to do
in the one has nothing left to do in the other. -/
theorem atomic_run [NeZero N] {ls : List (CodeStep N C)}
    {k : CodeConfiguration N C}
    (hrun : (codeServer N C).Run CodeOk (CodeConfiguration.init N C) ls k) :
    ∃ ls₀ c, (server N C).Run ReadsSucceed (Configuration.init N C) ls₀ c ∧
      Matches k.shared c.shared ∧
      ∀ t, k.prog t = .ret () → c.prog t = .ret () := by
  obtain ⟨ls₀, c, phases, hrun₀, hcoupled⟩ := coupled_run hrun
  refine ⟨ls₀, c, hrun₀, hcoupled.rel.matches (good_run hrun₀).1,
    fun t hidle => ?_⟩
  have hrefines := hcoupled.refines t
  rw [hidle] at hrefines
  exact hrefines.1

/-- One client opens a room and another one joins it. -/
theorem atomic_eve : ∃ ls k,
    (codeServer maxThreads maxClientsPerThread).Run CodeOk
        (CodeConfiguration.init _ _) ls k ∧
      (k.shared.state.rooms 0).numClients = 2 ∧
      ∃ ls₀ c, (server maxThreads maxClientsPerThread).Run ReadsSucceed
          (Configuration.init _ _) ls₀ c ∧
        Matches k.shared c.shared ∧
        ∀ t, k.prog t = .ret () → c.prog t = .ret () := by
  have hplay : ((playCode (N := maxThreads) (C := maxClientsPerThread)
      (opensRoom 0 (text "bob") (text "den") ++ connects 1 ++
        [sends 1 (frame cmdUsernameSubmit (text "eve")),
          sends 1 (frame cmdRoomJoinRequest (text "0"))])).map
        fun g => (g.state.rooms 0).numClients) = some 2 := by
    decide +kernel
  obtain ⟨g, hg, hcount⟩ := Option.map_eq_some_iff.mp hplay
  obtain ⟨ls, hrun⟩ := playCode_reaches hg
  exact ⟨ls, _, hrun, hcount, atomic_run hrun⟩

end ChatApp.Server
