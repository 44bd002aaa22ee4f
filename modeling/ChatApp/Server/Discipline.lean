import ChatApp.Server.Code
import ChatApp.Server.Schedule

/-!
# Lock discipline

Which lock each access needs, and that the code of every critical section takes
one lock, gives it back on each of its exits, and accesses the fields of a room
only in between.
-/

namespace ChatApp.Server

open ChatApp.Foundation

variable {N C : Nat}

/-- The lock an access needs: `room_lock` for the fields `clients`,
`num_clients` and `in_use` of a room and for `broadcast_message_in_room`,
`num_of_clients_lock` for `num_of_clients`. -/
def Access.needs : Access N C → Option (Lock N)
  | .inUse i | .setInUse i _ | .numClients i | .setNumClients i _
  | .slot i _ | .setSlot i _ _ | .clearSlots i | .broadcast i =>
      some (.room i)
  | .numOfClients w | .setNumOfClients w _ => some (.count w)
  | _ => none

/-! ## What an access touches -/

/-- Room `i` with the locked fields of `room`. -/
def Memory.refill (m : Memory N C) (i : Fin maxRooms) (room : Room N C) :
    Memory N C :=
  m.setRoom i { room with roomName := (m.rooms i).roomName }

/-- An action that is no critical section neither reads nor changes rooms. -/
theorem exec_plain_rooms {a : Act N C} (ha : a.isSection = false)
    (s : State N C) (rooms : Fin maxRooms → Room N C) :
    exec a { s with rooms := rooms } =
      (exec a s).map fun out => (out.1, { out.2 with rooms := rooms }) := by
  cases a <;> simp only [Act.isSection, Bool.true_eq_false] at ha
  case readEventfd w ok =>
    cases ok
    · rfl
    · by_cases hw : s.notification w = 0 <;> simp [exec, readEventfd, hw]
  case registerWithEpoll w fd ok => cases ok <;> rfl
  case allocateClientSlot w fd =>
    simp only [exec, allocateClientSlot]
    split <;> rfl
  case accept fd =>
    simp only [exec]
    split <;> rfl
  case setSocketKeepAlive fd ok => cases ok <;> rfl
  case semWait w fd =>
    simp only [exec]
    split <;> rfl
  case writeEventfd w fd ok => cases ok <;> rfl
  all_goals rfl

theorem plain_rooms {a : Act N C} (ha : a.isSection = false) {s : State N C}
    {out : a.Answer × State N C} (he : exec a s = some out) :
    out.2.rooms = s.rooms := by
  have hsame := exec_plain_rooms ha s s.rooms
  rw [he, Option.map_some] at hsame
  exact congrArg (fun o => o.2.rooms) (Option.some.inj hsame)

theorem refill_rooms_ne {m : Memory N C} {i k : Fin maxRooms} (hk : k ≠ i)
    (room : Room N C) : (m.refill i room).rooms k = m.rooms k :=
  Function.update_of_ne hk _ _

theorem refill_setRoom {m : Memory N C} {i k : Fin maxRooms} (hk : k ≠ i)
    (room r : Room N C) :
    (m.refill i room).setRoom k r = (m.setRoom k r).refill i room := by
  simp only [Memory.refill, Memory.setRoom, Function.update_of_ne hk.symm,
    Function.update_comm hk.symm]

/-- An access that needs no lock of a room neither reads nor changes the fields
the lock is for. -/
theorem exec_refill {a : Access N C} {i : Fin maxRooms}
    (ha : a.needs ≠ some (.room i)) (m : Memory N C) (room : Room N C) :
    a.exec (m.refill i room) =
      (a.exec m).map fun out => (out.1, out.2.refill i room) := by
  cases a <;> simp only [Access.needs, ne_eq, Option.some.injEq,
    Lock.room.injEq, reduceCtorEq, not_false_eq_true] at ha
  case plain a h =>
    show Option.map _ (exec a { m.state with rooms := _ }) = _
    rw [exec_plain_rooms h]
    simp only [Access.exec, Option.map_map]
    cases he : exec a m.state with
    | none => rfl
    | some out =>
        have hsame := plain_rooms h he
        simp [Memory.after, Memory.refill, Memory.setRoom, hsame,
          Memory.state]
  case roomName k =>
    by_cases hk : k = i
    · subst hk
      simp [Access.exec, Memory.refill, Memory.setRoom]
    · simp [Access.exec, refill_rooms_ne hk]
  case putName k j byte =>
    by_cases hk : k = i
    · subst hk
      simp [Access.exec, Memory.refill, Memory.setRoom]
    · simp [Access.exec, refill_rooms_ne hk, refill_setRoom hk]
  case cutName k j =>
    by_cases hk : k = i
    · subst hk
      simp [Access.exec, Memory.refill, Memory.setRoom]
    · simp [Access.exec, refill_rooms_ne hk, refill_setRoom hk]
  case setSlot k j value =>
    simp only [Access.exec, refill_rooms_ne ha, refill_setRoom ha]
    rfl
  case clearSlots k =>
    simp only [Access.exec, refill_rooms_ne ha, refill_setRoom ha]
    rfl
  all_goals first
    | rfl
    | simp [Access.exec, refill_rooms_ne ha, refill_setRoom ha]
/-! ## The code of one section -/

/-- Started by thread `t` while it holds `before`, the code is disciplined and
ends holding `after`. -/
def Takes (t : Thread N) (before after : Option (Lock N)) {α : Type}
    (code : Code N C α) : Prop :=
  Disciplined Access.needs t (fun _ held => held = after) code before

section Sections

variable {t : Thread N} {i : Fin maxRooms} {α β : Type}
  {client : ClientPtr N C} {before between after : Option (Lock N)}

theorem takes_ret (value : α) :
    Takes (C := C) t before before (.ret value) := rfl

theorem takes_lock {l : Lock N} {next : Unit → Code N C β}
    (h : Takes t (some l) after (next ())) :
    Takes t none after (lock t l >>= next) :=
  ⟨rfl, rfl, h⟩

theorem takes_unlock {l : Lock N} {next : Unit → Code N C β}
    (h : Takes t none after (next ())) :
    Takes t (some l) after (unlock t l >>= next) :=
  ⟨rfl, rfl, h⟩

/-- An access that needs the lock held, or none. -/
theorem takes_access {a : Access N C} {next : a.Answer → Code N C β}
    (ha : a.needs = before ∨ a.needs = none)
    (h : ∀ answer, Takes t before after (next answer)) :
    Takes t before after (access a >>= next) := by
  refine ⟨fun l hl => ?_, h⟩
  rcases ha with ha | ha
  · exact ha.symm.trans hl
  · rw [ha] at hl
    cases hl

theorem Takes.bind {code : Code N C α} {k : α → Code N C β}
    (h : Takes t before between code)
    (hk : ∀ value, Takes t between after (k value)) :
    Takes t before after (code >>= k) := by
  refine Disciplined.bind ?_ h
  rintro value held rfl
  exact hk value

theorem takes_broadcastLoop (msg : Bytes) (seats : List (Fin maxClientsRoom)) :
    Takes t (some (.room i)) (some (.room i))
      (broadcastLoop i client msg seats) := by
  induction seats with
  | nil => exact takes_ret ()
  | cons j rest ih =>
      refine takes_access (.inl rfl) fun answer => ?_
      cases answer with
      | none => exact ih
      | some c =>
          dsimp only
          split
          · exact ih
          · exact takes_access (.inr rfl) fun _ =>
              takes_access (.inr rfl) fun _ => ih

theorem takes_broadcastCode (msg : Bytes) :
    Takes t (some (.room i)) (some (.room i))
      (broadcastCode i client msg) :=
  takes_access (.inl rfl) fun _ => takes_broadcastLoop msg _

theorem takes_joinLoop (joinMsg : Bytes) (seats : List (Fin maxClientsRoom)) :
    Takes t (some (.room i)) (some (.room i))
      (joinLoop i client joinMsg seats) := by
  induction seats with
  | nil => exact takes_ret ()
  | cons j rest ih =>
      refine takes_access (.inl rfl) fun answer => ?_
      cases answer with
      | some c => exact ih
      | none =>
          refine takes_access (.inl rfl) fun _ => takes_access (.inl rfl) fun _ =>
            takes_access (.inl rfl) fun _ => takes_access (.inr rfl) fun _ => ?_
          refine (takes_broadcastCode joinMsg).bind fun _ => ?_
          exact takes_access (.inr rfl) fun _ => takes_access (.inr rfl) fun _ =>
            takes_access (.inr rfl) fun _ => takes_access (.inr rfl) takes_ret

theorem takes_leaveLoop (seats : List (Fin maxClientsRoom)) :
    Takes t (some (.room i)) (some (.room i)) (leaveLoop i client seats) := by
  induction seats with
  | nil => exact takes_ret ()
  | cons j rest ih =>
      refine takes_access (.inl rfl) fun c => ?_
      split
      · exact takes_access (.inl rfl) fun _ => takes_access (.inl rfl) fun _ =>
          takes_access (.inl rfl) takes_ret
      · exact ih

theorem takes_strcpyCode {held : Option (Lock N)} (value : Bytes) :
    ∀ j, Takes (C := C) t held held (strcpyCode i j value) := by
  induction value with
  | nil => exact fun j => takes_access (.inr rfl) takes_ret
  | cons byte rest ih =>
      exact fun j => takes_access (.inr rfl) fun _ => ih (j + 1)

theorem takes_memsetCode {held : Option (Lock N)} (positions : List Nat) :
    Takes (C := C) t held held (memsetCode i positions) := by
  induction positions with
  | nil => exact takes_ret ()
  | cons j rest ih => exact takes_access (.inr rfl) fun _ => ih

theorem takes_createCode (roomName successMsg : Bytes) :
    Takes t none none (createCode t i client roomName successMsg) := by
  refine takes_lock (takes_access (.inl rfl) fun inUse => ?_)
  cases inUse with
  | true => exact takes_unlock (takes_ret false)
  | false =>
      refine takes_access (.inl rfl) fun _ => takes_access (.inl rfl) fun _ => ?_
      refine (takes_strcpyCode roomName 0).bind fun _ => ?_
      refine takes_access (.inr rfl) fun _ => takes_access (.inl rfl) fun _ =>
        takes_access (.inr rfl) fun _ => ?_
      exact takes_access (.inr rfl) fun _ => takes_access (.inr rfl) fun _ =>
        takes_unlock (takes_ret true)

theorem takes_listCode (roomListMsg : Bytes) :
    Takes (C := C) t none none (listCode t i roomListMsg) := by
  refine takes_lock (takes_access (.inl rfl) fun inUse => ?_)
  cases inUse with
  | true =>
      exact takes_access (.inr rfl) fun _ => takes_unlock (takes_ret _)
  | false => exact takes_unlock (takes_ret none)

theorem takes_joinCode (joinMsg : Bytes) :
    Takes t none none (joinCode t i client joinMsg) := by
  refine takes_lock (takes_access (.inl rfl) fun inUse => ?_)
  split
  · exact takes_access (.inr rfl) fun _ => takes_access (.inr rfl) fun _ =>
      takes_unlock (takes_ret ())
  refine takes_access (.inl rfl) fun numClients => ?_
  split
  · exact takes_access (.inr rfl) fun _ => takes_access (.inl rfl) fun _ =>
      takes_access (.inr rfl) fun _ => takes_access (.inr rfl) fun _ =>
      takes_unlock (takes_ret ())
  · exact (takes_joinLoop joinMsg _).bind fun _ => takes_unlock (takes_ret ())

theorem takes_leaveCode : Takes t none none (leaveCode t i client) := by
  refine takes_access (.inr rfl) fun _ => takes_lock ?_
  refine takes_access (.inr rfl) fun name => ?_
  refine (takes_leaveLoop _).bind fun _ => takes_access (.inl rfl) fun _ => ?_
  refine (takes_broadcastCode _).bind fun _ => ?_
  refine takes_access (.inl rfl) fun numClients => ?_
  split
  · refine takes_access (.inr rfl) fun _ => (takes_memsetCode _).bind fun _ => ?_
    exact takes_access (.inl rfl) fun _ => takes_access (.inl rfl) fun _ =>
      takes_unlock (takes_ret ())
  · exact takes_unlock (takes_ret ())

theorem takes_chatCode (msg : Bytes) :
    Takes t none none (chatCode t i client msg) :=
  takes_lock ((takes_broadcastCode msg).bind fun _ =>
    takes_unlock (takes_ret ()))

theorem takes_leaveOkCode : Takes t none none (leaveOkCode t i client) :=
  takes_lock (takes_access (.inr rfl) fun _ => takes_access (.inr rfl) fun _ =>
    takes_unlock (takes_ret ()))

theorem takes_subtractCode (w : Fin N) :
    Takes (C := C) t none none (subtractCode t w) :=
  takes_lock (takes_access (.inl rfl) fun _ => takes_access (.inl rfl) fun _ =>
    takes_unlock (takes_ret ()))

theorem takes_inspectCode : Takes (C := C) t none none (inspectCode t) := by
  refine takes_access (.inr rfl) fun w => takes_lock ?_
  refine takes_access (.inl rfl) fun numOfClients => ?_
  split
  · exact takes_unlock (takes_ret none)
  · exact takes_access (.inl rfl) fun _ => takes_access (.inl rfl) fun _ =>
      takes_unlock (takes_ret _)

/-- The code of every action starts and ends without a lock. -/
theorem takes_implement (a : Act N C) : Takes t none none (implement t a) := by
  cases a with
  | createSection => exact takes_createCode _ _
  | listSection => exact takes_listCode _
  | joinSection => exact takes_joinCode _
  | chatSection => exact takes_chatCode _
  | leaveSection => exact takes_leaveCode
  | leaveOkSection => exact takes_leaveOkCode
  | subtractZeroed w => exact takes_subtractCode w
  | subtractUnread w => exact takes_subtractCode w
  | subtractRefused w => exact takes_subtractCode w
  | subtractFailed w => exact takes_subtractCode w
  | inspectWorker => exact takes_inspectCode
  | _ => exact takes_access (.inr rfl) takes_ret

/-- So does every routine. -/
theorem takes_expand (routine : ServerProg N C α) :
    Takes t none none (routine.expand (implement t)) :=
  Disciplined.expand (fun a => takes_implement a) routine

end Sections

/-! ## Over whole runs -/

section Runs

variable [NeZero N] {ls : List (CodeStep N C)} {k : CodeConfiguration N C}
  {ok : Guarded (Thread N) (Lock N) (Memory N C) → CodeStep N C → Prop}

theorem orderly_init :
    Orderly Access.needs (CodeConfiguration.init N C) := by
  intro t
  refine ⟨none, rfl, fun l => ?_⟩
  constructor
  · intro h
    cases h
  · intro h
    cases h

theorem orderly_run
    (hrun : (codeServer N C).Run ok (CodeConfiguration.init N C) ls k) :
    Orderly Access.needs k :=
  Orderly.run (fun t j => takes_expand (jobProg t j)) orderly_init hrun

/-- **Lock discipline**, in every configuration that can be reached: who asks
for a lock holds none; every routine, started without a lock, keeps to that and
gives back on each of its exits what it took, and who has nothing to do holds no
lock; `broadcast_message_in_room` is entered, and the fields of a room are
accessed, with the room's lock held, all other accesses being indifferent to
these fields; and no set of threads is deadlocked. -/
theorem lock_discipline_run
    (hrun : (codeServer N C).Run ok (CodeConfiguration.init N C) ls k) :
    (∀ t u l next, k.prog t = .act (.lock u l) next →
      u = t ∧ ∀ l', k.shared.holder l' ≠ some t) ∧
    (∀ (t : Thread N) (α : Type) (routine : ServerProg N C α),
      Takes t none none (routine.expand (implement t))) ∧
    (∀ t, k.prog t = .ret () → ∀ l, k.shared.holder l ≠ some t) ∧
    (∀ t i next, k.prog t = .act (.step (.broadcast i)) next →
      k.shared.holder (.room i) = some t) ∧
    (∀ t a next l, k.prog t = .act (.step a) next → a.needs = some l →
      k.shared.holder l = some t) ∧
    (∀ (a : Access N C) i, a.needs ≠ some (.room i) → ∀ m room,
      a.exec (m.refill i room) =
        (a.exec m).map fun out => (out.1, out.2.refill i room)) ∧
    ∀ waiting : Thread N → Prop, (∃ t, waiting t) →
      ¬ ∀ t, waiting t → ∃ l u, Waits k t l ∧ k.shared.holder l = some u ∧
        waiting u := by
  have h := orderly_run hrun
  exact ⟨fun t u l next hp => h.requests hp,
    fun t α routine => takes_expand routine,
    fun t hp l => h.idle hp l,
    fun t i next hp => h.access hp rfl,
    fun t a next l hp hl => h.access hp hl,
    fun a i ha m room => exec_refill ha m room,
    fun waiting hsome => h.no_deadlock waiting hsome⟩

end Runs

/-- The memory of the server with its own constants, and its locks. -/
abbrev RealMemory : Type :=
  Guarded (Thread maxThreads) (Lock maxThreads)
    (Memory maxThreads maxClientsPerThread)

/-- A client has opened a room. -/
theorem lock_discipline_bob : ∃ g : RealMemory,
    (codeServer _ _).play (codeServer _ _).exec (fun _ _ _ => true)
        (CodeConfiguration.init _ _).shared
        (opensRoom 0 (text "bob") (text "den")) = some g ∧
      (g.state.rooms 0).inUse = true ∧ ∀ t l, g.holder l ≠ some t := by
  have hplay : ((codeServer maxThreads maxClientsPerThread).play
      (codeServer _ _).exec (fun _ _ _ => true)
      (CodeConfiguration.init _ _).shared
      (opensRoom 0 (text "bob") (text "den"))).map
        (fun g => (g.state.rooms 0).inUse) = some true := by
    decide +kernel
  obtain ⟨g, hg, huse⟩ := Option.map_eq_some_iff.mp hplay
  obtain ⟨ls, hrun⟩ : ∃ ls, (codeServer maxThreads maxClientsPerThread).Run
      (fun _ _ => True) (.quiet _) ls (.quiet g) :=
    System.play_run (fun _ _ _ _ he => ⟨he, trivial⟩)
      (fun _ _ _ _ => trivial) _ hg
  exact ⟨g, hg, huse, fun t => (lock_discipline_run hrun).2.2.1 t rfl⟩

end ChatApp.Server
