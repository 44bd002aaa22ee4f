import ChatApp.Server.Membership

/-!
# What connections have been sent

At every point of a run a connection has been sent what the log says, or all
of it but the `CMD_ROOM_LEAVE_OK` of its last event.  The debt is known to the
worker that serves the connection and to nobody else: it arises in
`leave_room`, and `handle_in_chat_room` pays it before it sets the state back.
A connection that is being released keeps it for ever.
-/

namespace ChatApp.Server

open ChatApp.Foundation

variable {N C : Nat}

/-! ## Debts -/

/-- The connection has been sent what the log says. -/
def Level (s : State N C) (q : Conn) : Prop :=
  roomTraffic q s.calls = (told s.events q).map forget

/-- The confirmation of leaving is still to be sent. -/
def Owes (s : State N C) (q : Conn) : Prop :=
  roomTraffic q s.calls ++ [.left ()] = (told s.events q).map forget

/-- The worker has taken its client out of room `i` and owes it the
confirmation. -/
def Owing (s : State N C) (c : ClientPtr N C) (i : Fin maxRooms) : Prop :=
  s.point c.worker = .left c.index ∧ ∃ q, s.HeldBy q (.slot c) ∧ Owes s q ∧
    (told s.events q).getLast? = some (.left i)

/-- What the connection has been sent and is owed stays as it is. -/
def Spared (s s' : State N C) (q : Conn) : Prop :=
  (Level s q → Level s' q) ∧
    (Owes s q → Owes s' q ∧ told s'.events q = told s.events q)

section Debts

variable {s s' : State N C} {t : Thread N} {a : Act N C}
  {c : ClientPtr N C} {q : Conn}

theorem Level.not_owes (h : Level s q) : ¬ Owes s q := by
  intro howes
  have hlength := congrArg List.length (h.trans howes.symm)
  simp at hlength

/-- What is owed is the confirmation of having left some room. -/
theorem Owes.last (h : Owes s q) :
    ∃ w i, told s.events q = w ++ [.left i] ∧
      w.map forget = roomTraffic q s.calls := by
  obtain ⟨w, last, hw, hsent, hlast⟩ := List.map_eq_append_iff.mp h.symm
  obtain ⟨x, hx, hleft⟩ := List.map_eq_singleton_iff.mp hlast
  subst hx
  cases x with
  | left i => exact ⟨w, i, hw, hsent⟩
  | _ => cases hleft

/-- Nothing more is said to a connection that is owed its confirmation. -/
theorem Owes.member (h : Owes s q) (hvalid : Valid s.events) :
    member s.events q = none := by
  obtain ⟨w, i, hw, -⟩ := h.last
  exact member_of_told_left hvalid hw

theorem HeldBy.slot (h : s.HeldBy q (.slot c)) :
    s.holding (.slot c) = some (s.clients c).clientFd ∧
      s.connOf c = some q := by
  obtain ⟨fd, hslot, hq⟩ := h
  have hfd := (of_holding_slot hslot).2
  rw [State.connOf, hfd]
  exact ⟨hslot, hq⟩

theorem heldBy_slot
    (hslot : s.holding (.slot c) = some (s.clients c).clientFd)
    (hq : s.connOf c = some q) : s.HeldBy q (.slot c) :=
  ⟨_, hslot, hq⟩

/-! ## One step -/

/-- What an event does to what a connection has been sent. -/
theorem Level.event (h : Level s q) {e : RoomEvent}
    (hevents : s'.events = s.events ++ [e])
    (htraffic : ∀ q n, roomTraffic q s'.calls ++ owed e q =
      roomTraffic q s.calls ++
        (Moment.tells q ⟨e, member s.events, n⟩).map forget) :
    roomTraffic q s'.calls ++ owed e q =
      (told s'.events q).map forget := by
  rw [htraffic q, h, hevents, told_snoc, List.map_append]

theorem accounts_same (hevents : s'.events = s.events)
    (htraffic : roomTraffic q s'.calls = roomTraffic q s.calls) :
    Spared s s' q := by
  unfold Spared Level Owes
  rw [hevents, htraffic]
  exact ⟨id, fun h => ⟨h, rfl⟩⟩

/-- An event leaves the accounts of the others as they are. -/
theorem accounts_event {e : RoomEvent} (hvalid : Valid s.events)
    (hne : e.who ≠ q) (hevents : s'.events = s.events ++ [e])
    (htraffic : ∀ q n, roomTraffic q s'.calls ++ owed e q =
      roomTraffic q s.calls ++
        (Moment.tells q ⟨e, member s.events, n⟩).map forget) :
    Spared s s' q := by
  have howed : owed e q = [] := if_neg hne
  refine ⟨fun h => ?_, fun h => ?_⟩
  · have htold := h.event hevents htraffic
    rwa [howed, List.append_nil] at htold
  · -- Who is owed the confirmation is in no room, so it is told nothing.
    have hnone : Moment.tells q ⟨e, member s.events,
        foundings (s.events ++ [e]) e.room⟩ = [] := by
      rw [Moment.tells, if_neg hne, if_neg]
      show ¬ member s.events q = some e.room
      rw [h.member hvalid]
      rintro ⟨⟩
    have htraffic := htraffic q (foundings (s.events ++ [e]) e.room)
    rw [howed, hnone, List.map_nil, List.append_nil, List.append_nil]
      at htraffic
    have htold : told s'.events q = told s.events q := by
      rw [hevents, told_snoc, hnone, List.append_nil]
    refine ⟨?_, htold⟩
    unfold Owes
    rw [htraffic, h, htold]

/-- A step leaves the accounts of the other threads' connections alone. -/
theorem RoomStep.spares (hstep : RoomStep t a s (member s.events) s')
    (hvalid : Valid s.events)
    (hq : ∀ d : ClientPtr N C, t = .worker d.worker →
      ¬ s.HeldBy q (.slot d)) : Spared s s' q := by
  cases hstep with
  | keep hevents htraffic _ => exact accounts_same hevents (htraffic q)
  | confirm i d q' _ ht _ hd hdq hevents htraffic _ =>
      have hne : q ≠ q' := by
        rintro rfl
        exact hq d ht (heldBy_slot hd hdq)
      have hsame := htraffic q
      rw [if_neg hne, List.append_nil] at hsame
      exact accounts_same hevents hsame
  | event e d ht hd hdq _ _ _ hevents htraffic _ =>
      refine accounts_event hvalid ?_ hevents htraffic
      rintro rfl
      exact hq d ht (heldBy_slot hd hdq)

/-- A step of the own worker leaves the account of its client alone unless it
sends the confirmation or the client was in no debt before. -/
theorem RoomStep.keeps (hstep : RoomStep t a s (member s.events) s')
    (hinv : ServerInv s) (hvalid : Valid s.events)
    (hc : s.HeldBy q (.slot c)) (hconfirm : ∀ i, a ≠ .leaveOkSection i c)
    (hpoint : s.point c.worker = .left c.index) : Spared s s' q := by
  cases hstep with
  | keep hevents htraffic _ => exact accounts_same hevents (htraffic q)
  | confirm i d q' ha _ _ hd hdq hevents htraffic _ =>
      have hne : q ≠ q' := by
        rintro rfl
        cases hinv.own.slot_inj hc (heldBy_slot hd hdq)
        exact hconfirm i ha
      have hsame := htraffic q
      rw [if_neg hne, List.append_nil] at hsame
      exact accounts_same hevents hsame
  | event e d _ hd hdq hbefore _ _ hevents htraffic _ =>
      refine accounts_event hvalid ?_ hevents htraffic
      rintro rfl
      cases hinv.own.slot_inj hc (heldBy_slot hd hdq)
      exact hbefore c.index hpoint

/-- A step of the own worker keeps an account level unless it takes the client
out of its room. -/
theorem RoomStep.level (hstep : RoomStep t a s (member s.events) s')
    (hinv : ServerInv s) (hvalid : Valid s.events)
    (hc : s.HeldBy q (.slot c)) (hconfirm : ∀ i, a ≠ .leaveOkSection i c)
    (hpoint : s'.point c.worker ≠ .left c.index) (h : Level s q) :
    Level s' q := by
  by_cases hbefore : s.point c.worker = .left c.index
  case pos => exact (hstep.keeps hinv hvalid hc hconfirm hbefore).1 h
  cases hstep with
  | keep hevents htraffic _ => exact (accounts_same hevents (htraffic q)).1 h
  | confirm i d q' ha _ hleft hd hdq hevents htraffic _ =>
      have hne : q ≠ q' := by
        rintro rfl
        cases hinv.own.slot_inj hc (heldBy_slot hd hdq)
        exact hbefore hleft
      have hsame := htraffic q
      rw [if_neg hne, List.append_nil] at hsame
      exact (accounts_same hevents hsame).1 h
  | event e d _ hd hdq _ hleft _ hevents htraffic _ =>
      have htold := h.event hevents htraffic
      have howed : owed e q = [] := by
        unfold owed
        split
        · rename_i hwho
          subst hwho
          cases hinv.own.slot_inj hc (heldBy_slot hd hdq)
          cases hdeed : e.deed with
          | left m => exact absurd (hleft ⟨m, hdeed⟩) hpoint
          | _ => rfl
        · rfl
      rwa [howed, List.append_nil] at htold

/-- A client stays out of its room until its state is set or it is
released. -/
theorem left_stays {b : a.Answer} (ha : Allowed t s a)
    (hlobby : a ≠ .setLobby c) (hclose : a ≠ .closeClient c)
    (he : exec a s = some (b, s'))
    (hpoint : s.point c.worker = .left c.index) :
    s'.point c.worker = .left c.index := by
  by_cases hw : a.worker? = some c.worker
  case neg => rwa [exec_point_of_ne hw he]
  -- The actions of the worker are not allowed at this point, these aside.
  have hsame : ∀ d : ClientPtr N C, d.worker = c.worker →
      s.point d.worker = .left d.index → d = c := by
    intro d hd hleft
    rw [hd, hpoint] at hleft
    obtain ⟨w, j⟩ := d
    obtain ⟨w', j'⟩ := c
    simp_all
  cases a <;> simp only [Act.worker?, Option.some.injEq, reduceCtorEq] at hw
  all_goals
    simp only [AllowedOf, ReadyOf, DetachedOf, hw, hpoint, reduceCtorEq,
      and_false, false_and, false_or] at ha
  case strcatCurrentMsg =>
    cases he
    exact hpoint
  case clearCurrentMsg =>
    cases he
    exact hpoint
  case setLobby d =>
    cases hsame d hw (by rw [hw, hpoint]; exact ha.2)
    exact absurd rfl hlobby
  case closeClient d =>
    cases hsame d hw (by rw [hw, hpoint]; exact ha.2)
    exact absurd rfl hclose

/-- Only `leave_room` takes a client out of its room. -/
theorem left_of_exec {b : a.Answer} (hleave : ∀ i d, a ≠ .leaveSection i d)
    (he : exec a s = some (b, s')) {w : Fin N} {j : Fin C}
    (hpoint : s'.point w = .left j) : s.point w = .left j := by
  by_cases hw : a.worker? = some w
  case neg => rwa [exec_point_of_ne hw he] at hpoint
  cases a <;> simp only [Act.worker?, Option.some.injEq, reduceCtorEq] at hw
  all_goals subst hw
  case leaveSection i d => exact absurd rfl (hleave i d)
  case createSection i d roomName successMsg =>
    obtain ⟨-, -, rfl⟩ | ⟨-, -, rfl⟩ := exec_createSection he
    · exact hpoint
    · exact hpoint
  case joinSection i d joinMsg =>
    obtain ⟨r, -, rfl⟩ | rfl | ⟨k, -, -, rfl⟩ := exec_joinSection he
    all_goals exact hpoint
  case chatSection i d msg =>
    rw [exec_chatSection he] at hpoint
    simp [State.afterChat] at hpoint
  case routeMessage d =>
    obtain ⟨-, ⟨-, rfl⟩ | ⟨line, -, rfl⟩⟩ := exec_routeMessage he
    · exact hpoint
    · simp at hpoint
  case readEventfd w ok =>
    obtain ⟨-, -, -, rfl⟩ | ⟨-, -, rfl⟩ := exec_readEventfd he
    all_goals simp at hpoint
  case registerWithEpoll w fd ok =>
    obtain ⟨-, -, rfl⟩ | ⟨-, -, rfl⟩ := exec_registerWithEpoll he
    all_goals simp at hpoint
  case allocateClientSlot w fd =>
    obtain ⟨-, -, rfl⟩ | ⟨k, -, -, rfl⟩ := exec_allocateClientSlot he
    all_goals simp at hpoint
  all_goals cases he
  all_goals first
    | exact hpoint
    | simp [closeClient, zeroClient, subtractZeroed] at hpoint

end Debts

/-! ## All accounts -/

/-- The action is no room traffic of its own, or pays what is owed, or finds
nothing owed; and the thread reads records of its own clients only. -/
def Act.Honest (t : Thread N) (s : State N C) : Act N C → Prop
  | .readClient c => t = .worker c.worker
  | .send _ cmd _ => cmd ∉ trafficCodes
  | .leaveOkSection i c => Owing s c i
  | .setLobby c => ∀ i, ¬ Owing s c i
  | _ => True

/-- The log is possible, tells who is in the rooms, and every connection has
been sent what it says; only a connection that has left and whose worker is not
done with it may still be owed the confirmation. -/
structure Chronicle (s : State N C) : Prop where
  inv : ServerInv s
  valid : Valid s.events
  placed : Placed s (member s.events)
  accounts : ∀ q, Level s q ∨ Owes s q
  served : ∀ c q, s.HeldBy q (.slot c) → s.point c.worker ≠ .left c.index →
    Level s q
  waiting : ∀ d q, (∀ c, d ≠ .slot c) → s.HeldBy q d → Level s q
  future : ∀ q, s.accepted ≤ q → Level s q

namespace Chronicle

variable {s s' : State N C} {t : Thread N} {a : Act N C} {b : a.Answer}
  {q : Conn}

theorem init [NeZero N] : Chronicle (State.init N C) := by
  have hlevel : ∀ q, Level (State.init N C) q := fun _ => rfl
  refine ⟨.init, .nil, ?_, fun q => .inl (hlevel q), fun _ q _ _ => hlevel q,
    fun _ q _ _ => hlevel q, fun q _ => hlevel q⟩
  intro q i
  constructor
  · intro h
    cases h
  · rintro ⟨d, ⟨j, hj⟩, -⟩
    cases hj

theorem step (h : Chronicle s) (ha : Allowed t s a)
    (hread : ∀ w, a ≠ .readEventfd w false) (hhonest : a.Honest t s)
    (he : exec a s = some (b, s')) : Chronicle s' := by
  have hplain : ∀ fd cmd message, a = .send fd cmd message →
      cmd ∉ trafficCodes := by
    rintro fd cmd message rfl
    exact hhonest
  have hstep := exec_roomStep h.inv h.placed ha hplain he
  have hown := h.inv.own
  -- Connections without a slot concern no worker.
  have hwaiting : ∀ d q, (∀ c, d ≠ .slot c) → s.HeldBy q d →
      Level s' q := by
    rintro d q hnot ⟨fd, hd, hq⟩
    refine (hstep.spares h.valid ?_).1 (h.waiting d q hnot ⟨fd, hd, hq⟩)
    rintro c - ⟨fd', hc, hq'⟩
    exact hnot c (hown.owned.holder_unique hd hc hq hq')
  have hfuture : ∀ q, s.accepted ≤ q → Level s' q := by
    intro q hq
    refine (hstep.spares h.valid ?_).1 (h.future q hq)
    rintro c - ⟨fd, -, hc⟩
    exact absurd (hown.range fd q hc) (Nat.not_lt.mpr hq)
  have haccepted : s.accepted ≤ s'.accepted := by
    rcases exec_conns he with ⟨fd, -, -, -, hmore⟩ | ⟨hsame, -⟩ <;> omega
  refine ⟨h.inv.step ha hread he, ?_, ?_, ?_, ?_, ?_,
    fun q hq => hfuture q (Nat.le_trans haccepted hq)⟩
  · cases hstep with
    | keep hevents _ _ => rw [hevents]; exact h.valid
    | confirm _ _ _ _ _ _ _ _ hevents _ _ => rw [hevents]; exact h.valid
    | event e c _ _ _ _ _ hpossible hevents _ _ =>
        rw [hevents]
        exact .snoc h.valid hpossible
  · cases hstep with
    | keep hevents _ hplaced => rw [hevents]; exact hplaced
    | confirm _ _ _ _ _ _ _ _ hevents _ hplaced => rw [hevents]; exact hplaced
    | event e c _ _ _ _ _ _ hevents _ hplaced =>
        rw [hevents, member_snoc]
        exact hplaced
  · intro q
    cases hstep with
    | keep hevents htraffic _ =>
        unfold Level Owes
        rw [hevents, htraffic]
        exact h.accounts q
    | confirm i c q' hact _ _ hc hq hevents htraffic _ =>
        by_cases hqq : q = q'
        · subst hqq hact
          obtain ⟨-, q', hheld, howes, -⟩ := hhonest
          have hsame := (HeldBy.slot hheld).2.symm.trans hq
          cases hsame
          left
          unfold Level
          rw [hevents, htraffic, if_pos rfl]
          exact howes
        · unfold Level Owes
          rw [hevents, htraffic, if_neg hqq, List.append_nil]
          exact h.accounts q
    | event e c _ hc hq hpoint _ _ hevents htraffic _ =>
        by_cases hwho : e.who = q
        · subst hwho
          have hlevel := h.served c e.who (heldBy_slot hc hq) (hpoint c.index)
          have htold := hlevel.event hevents htraffic
          rw [owed, if_pos rfl] at htold
          cases hdeed : e.deed with
          | left m =>
              rw [hdeed] at htold
              exact .inr htold
          | _ =>
              rw [hdeed, List.append_nil] at htold
              exact .inl htold
        · obtain ⟨hlevel, howes⟩ := accounts_event h.valid hwho hevents htraffic
          exact (h.accounts q).imp hlevel fun ho => (howes ho).1
  · rintro c q ⟨fd, hslot', hq'⟩ hpoint'
    rcases hown.origin h.inv.hand ha he hslot' hq' with
      ⟨hslot, hq⟩ | ⟨d, hnot, hd, hq, -⟩ | ⟨hmain, -, -⟩
    · have hheld : s.HeldBy q (.slot c) := ⟨fd, hslot, hq⟩
      have hlevel : Level s q := by
        by_cases hpoint : s.point c.worker = .left c.index
        case neg => exact h.served c q hheld hpoint
        by_cases hlobby : a = .setLobby c
        · subst hlobby
          refine (h.accounts q).resolve_right fun howes => ?_
          obtain ⟨w, i, hw, -⟩ := howes.last
          exact hhonest i ⟨hpoint, q, hheld, howes, by rw [hw]; simp⟩
        by_cases hclose : a = .closeClient c
        · subst hclose
          cases he
          simp [State.holding, State.slotFd, closeClient] at hslot'
        · exact absurd (left_stays ha hlobby hclose he hpoint) hpoint'
      refine hstep.level h.inv h.valid hheld ?_ hpoint' hlevel
      rintro i rfl
      obtain ⟨-, q', hheld', howes, -⟩ := hhonest
      have hsame := (HeldBy.slot hheld').2.symm.trans (HeldBy.slot hheld).2
      cases hsame
      exact hlevel.not_owes howes
    · exact hwaiting d q hnot ⟨fd, hd, hq⟩
    · cases hmain
  · rintro d q hnot ⟨fd, hd', hq'⟩
    rcases hown.origin h.inv.hand ha he hd' hq' with
      ⟨hd, hq⟩ | ⟨e, hnot', hd, hq, -⟩ | ⟨-, rfl, -⟩
    · exact hwaiting d q hnot ⟨fd, hd, hq⟩
    · exact hwaiting e q hnot' ⟨fd, hd, hq⟩
    · exact hfuture _ (Nat.le_refl _)

/-- A spared connection owes after a step what it owed before. -/
theorem owes_iff (h : Chronicle s) (hspared : Spared s s' q)
    (i : Fin maxRooms) :
    Owes s' q ∧ (told s'.events q).getLast? = some (.left i) ↔
      Owes s q ∧ (told s.events q).getLast? = some (.left i) := by
  obtain ⟨hlevel, howes⟩ := hspared
  constructor
  · rintro ⟨howes', hlast'⟩
    have hbefore : Owes s q :=
      (h.accounts q).resolve_left fun hl => (hlevel hl).not_owes howes'
    rw [(howes hbefore).2] at hlast'
    exact ⟨hbefore, hlast'⟩
  · rintro ⟨hbefore, hlast⟩
    obtain ⟨hafter, htold⟩ := howes hbefore
    rw [htold]
    exact ⟨hafter, hlast⟩

/-- Other threads incur and pay no debts of a worker. -/
theorem owing_other (h : Chronicle s) (ha : Allowed t s a)
    (hhonest : a.Honest t s) (he : exec a s = some (b, s')) {w : Fin N}
    (hw : .worker w ≠ t) (j : Fin C) (i : Fin maxRooms) :
    Owing s' ⟨w, j⟩ i ↔ Owing s ⟨w, j⟩ i := by
  have hplain : ∀ fd cmd message, a = .send fd cmd message →
      cmd ∉ trafficCodes := by
    rintro fd cmd message rfl
    exact hhonest
  have hview := view_exec hw ha.owned he
  have hclient : s'.clients ⟨w, j⟩ = s.clients ⟨w, j⟩ :=
    congrFun (congrArg Prod.fst hview) j
  have hpoint : s'.point w = s.point w := congrArg Prod.snd hview
  have hholding : s'.holding (.slot ⟨w, j⟩) = s.holding (.slot ⟨w, j⟩) := by
    simp only [State.holding, State.slotFd, hclient, hpoint]
  have hclose : a ≠ .closeClient ⟨w, j⟩ := by
    rintro rfl
    exact hw (ha.owner rfl).symm
  have hheld : ∀ q, s'.HeldBy q (.slot ⟨w, j⟩) ↔ s.HeldBy q (.slot ⟨w, j⟩) := by
    intro q
    unfold State.HeldBy
    rw [hholding]
    refine exists_congr fun fd => and_congr_right fun hslot => ?_
    rw [(h.inv.own.slot_stays h.inv.hand ha hclose he hslot).2]
  unfold Owing
  rw [hpoint]
  refine and_congr_right fun _ => exists_congr fun q => ?_
  rw [hheld q]
  refine and_congr_right fun hq => ?_
  have hspared : Spared s s' q := by
    refine (exec_roomStep h.inv h.placed ha hplain he).spares h.valid ?_
    rintro d ht hd
    cases h.inv.own.slot_inj hd hq
    exact hw ht.symm
  exact h.owes_iff hspared i

/-- A debt arises in `leave_room` only. -/
theorem owing_of_exec (h : Chronicle s) (ha : Allowed t s a)
    (hhonest : a.Honest t s) (hleave : ∀ i d, a ≠ .leaveSection i d)
    (hconfirm : ∀ i d, a ≠ .leaveOkSection i d)
    (he : exec a s = some (b, s')) {c : ClientPtr N C} {i : Fin maxRooms}
    (howing : Owing s' c i) : Owing s c i := by
  have hplain : ∀ fd cmd message, a = .send fd cmd message →
      cmd ∉ trafficCodes := by
    rintro fd cmd message rfl
    exact hhonest
  obtain ⟨hpoint', q, ⟨fd, hslot', hq'⟩, howes', hlast'⟩ := howing
  have hpoint := left_of_exec hleave he hpoint'
  have hheld : s.HeldBy q (.slot c) := by
    rcases h.inv.own.origin h.inv.hand ha he hslot' hq' with
      ⟨hslot, hq⟩ | ⟨d, -, -, hq, hfresh⟩ | ⟨hmain, -, -⟩
    · exact ⟨fd, hslot, hq⟩
    · obtain ⟨huse', hfd'⟩ := of_holding_slot hslot'
      rcases exec_slot ha he c with ⟨huse, hfd⟩ | hzero | ⟨fd', hreg, -, -⟩
      · refine ⟨fd, ?_, hq⟩
        rw [← hfd', hfd]
        exact holding_slot (huse ▸ huse') (by rw [hpoint]; exact nofun)
      · rw [hzero] at huse'
        cases huse'
      · rw [hpoint] at hreg
        cases hreg
    · cases hmain
  have hstep := exec_roomStep h.inv h.placed ha hplain he
  have hspared := hstep.keeps h.inv h.valid hheld (fun i => hconfirm i c)
    hpoint
  exact ⟨hpoint, q, hheld, (h.owes_iff hspared i).mp ⟨howes', hlast'⟩⟩

end Chronicle

/-! ## The routines settle their debts -/

/-- Each worker knows which confirmations it owes. -/
def accounting (N C : Nat) : (control N C).Extension ReadsSucceed :=
  { G := fun _ => Fin maxRooms → Prop
    ghost := fun t s i =>
      match t with
      | .main => False
      | .worker w => ∃ j, Owing s ⟨w, j⟩ i
    Inv := Chronicle
    Pre := fun t a s => a.Honest t s
    weaken := ReadsSucceed.live
    inv_exec := by
      intro t a s b s' _ h hok ha hhonest he
      refine h.step ha ?_ hhonest he
      rintro w rfl
      exact hok.2 t w rfl
    ghost_exec := by
      intro t u a s b s' hu _ h ha hhonest he
      cases u with
      | main => rfl
      | worker w =>
          funext i
          exact propext (exists_congr fun j =>
            h.owing_other ha hhonest he hu j i) }

/-- The action of thread `t` is neither room traffic of its own nor a part of
leaving. -/
def Act.Plain (t : Thread N) : Act N C → Prop
  | .readClient c => t = .worker c.worker
  | .send _ cmd _ => cmd ∉ trafficCodes
  | .leaveSection .. | .leaveOkSection .. => False
  | _ => True

section Flows

variable {t : Thread N} {c : ClientPtr N C} {self : Client} {α β : Type}

/-- Where nothing is owed before the program, nothing is owed after it. -/
def Settles (t : Thread N) (prog : ServerProg N C α) : Prop :=
  ∀ (v : View N C t) (owing : Fin maxRooms → Prop), (∀ i, ¬ owing i) →
    (accounting N C).Flows t (fun _ _ owing => ∀ i, ¬ owing i) prog v owing

theorem Settles.bind {prog : ServerProg N C α} {k : α → ServerProg N C β}
    (h : Settles t prog) (hk : ∀ value, Settles t (k value)) :
    Settles t (prog >>= k) :=
  fun v owing howing =>
    (h v owing howing).bind fun value v' _ howing' => hk value v' _ howing'

theorem Settles.of_all {prog : ServerProg N C α}
    (h : Prog.All (Act.Plain t) prog) : Settles t prog := by
  intro v owing howing
  refine Contract.Extension.Flows.of_all (E := accounting N C)
    (R := fun _ owing => ∀ i, ¬ owing i) ?_ h howing
  intro a s hplain hinv hchronicle howing hok hallowed
  have hhonest : a.Honest t s := by
    cases a
    case send => exact hplain
    case leaveOkSection => cases hplain
    case setLobby d =>
      intro i hd
      have hlobby : Allowed t s (.setLobby d) := hallowed
      have ht : t = .worker d.worker := hlobby.owner rfl
      subst ht
      exact howing i ⟨d.index, hd⟩
    all_goals trivial
  refine ⟨hhonest, fun b s' he => ?_⟩
  cases t with
  | main => exact fun _ => id
  | worker w =>
      rintro i ⟨j, hj⟩
      refine howing i ⟨j, hchronicle.owing_of_exec hallowed hhonest ?_ ?_ he hj⟩
      · rintro i d rfl
        cases hplain
      · rintro i d rfl
        cases hplain

theorem Settles.then {a : Act N C} {next : a.Answer → ServerProg N C α}
    (ha : a.Plain t) (h : ∀ b, Settles t (next b)) : Settles t (.act a next) :=
  Settles.bind (.of_all (all_one ha)) h

theorem replying_plain : Replying (Act.Plain (.worker c.worker)) c := by
  have hcodes : ∀ cmd ∈ handlerCodes, cmd ∉ trafficCodes := by
    decide +kernel
  exact ⟨rfl, fun _ _ => trivial, fun _ _ => trivial,
    fun _ cmd _ h => hcodes cmd h⟩

/-- `leave_room` incurs the debt. -/
theorem owing_of_leave {s s' : State N C} {i : Fin maxRooms} {b : Unit}
    (h : Chronicle s) (ha : Allowed t s (.leaveSection i c))
    (he : exec (.leaveSection i c) s = some (b, s')) : Owing s' c i := by
  have hstep := roomStep_leave h.inv h.placed ha he
  have hchronicle := h.step ha (by rintro w ⟨⟩) trivial he
  have hpoint : s'.point c.worker = .left c.index := by
    rw [exec_leaveSection he]
    exact Function.update_self _ _ _
  obtain ⟨hc, ⟨q, hq⟩, hconn⟩ := h.inv.served ha (by rintro ⟨⟩) he ha.1.1.2
    (by rw [ha.1.2.2]; rintro ⟨⟩)
  have hheld : s'.HeldBy q (.slot c) := by
    obtain ⟨hslot, hsame⟩ := h.inv.own.slot_stays h.inv.hand ha (by rintro ⟨⟩) he hc
    exact ⟨_, hslot, hsame.trans hq⟩
  have hlog : s'.events = s.events ++
      [⟨i, q, .left (clientLeftText (s.clients c).name)⟩] := by
    rw [exec_leaveSection he]
    simp only [State.events, State.afterLeave, List.filterMap_append,
      filterMap_built, hq, List.append_nil]
    rfl
  refine ⟨hpoint, q, hheld, ?_⟩
  cases hstep with
  | keep hevents _ _ =>
      rw [hlog] at hevents
      simp at hevents
  | confirm _ _ _ hact => cases hact
  | event e d _ hd hdq hbefore _ _ hevents htraffic _ =>
      rw [hlog] at hevents
      obtain ⟨-, hlast⟩ := List.append_inj' hevents rfl
      cases hlast
      have hlevel := h.served c q (heldBy_slot hc hq)
        (by rw [ha.1.2.2]; rintro ⟨⟩)
      have htold := hlevel.event hlog htraffic
      rw [owed, if_pos rfl] at htold
      refine ⟨htold, ?_⟩
      rw [hlog, told_snoc, Moment.tells, if_pos rfl]
      exact List.getLast?_concat

/-- The confirmation of leaving pays the debt. -/
theorem not_owing_of_leaveOk {s s' : State N C} {i : Fin maxRooms} {b : Unit}
    (howing : Owing s c i) (he : exec (.leaveOkSection i c) s = some (b, s'))
    (j : Fin C) (k : Fin maxRooms) : ¬ Owing s' ⟨c.worker, j⟩ k := by
  obtain ⟨hpoint, q, hheld, howes, -⟩ := howing
  have hconn := (HeldBy.slot hheld).2
  rintro ⟨hpoint', q', hheld', howes', -⟩
  cases he
  have hj : j = c.index := by
    have hsame : s.point c.worker = .left j := hpoint'
    rw [hpoint] at hsame
    exact (WorkerPoint.left.inj hsame).symm
  subst hj
  have hqq : q = q' :=
    Option.some.inj (hconn.symm.trans (HeldBy.slot (s := s) hheld').2)
  subst hqq
  -- Everything the log says has been sent now.
  have hlevel : Level (sendMessageToClient s (s.clients c).clientFd
      cmdRoomLeaveOk (text "You have left the room\n")) q := by
    have hevents : (sendMessageToClient s (s.clients c).clientFd
        cmdRoomLeaveOk (text "You have left the room\n")).events = s.events := by
      simp only [State.events, sendMessageToClient, List.filterMap_append]
      exact List.append_nil _
    unfold Level
    rw [hevents, ← howes]
    show roomTraffic q (s.calls ++ [_]) = _
    have hfd : s.conns (s.clients c).clientFd = some q := hconn
    rw [roomTraffic_append, hfd, roomTraffic_send]
    rfl
  exact hlevel.not_owes howes'

/-- In the room: a line, or leaving and its confirmation. -/
theorem settles_handleInChatRoom :
    Settles (.worker c.worker) (handleInChatRoom c self) := by
  unfold handleInChatRoom
  dsimp only
  split
  · exact .then trivial fun _ => .of_all (all_one trivial)
  refine .then trivial fun _ => ?_
  intro v owing _ s₁ _ h₁ _ _ _ hleave
  refine ⟨trivial, fun b s₂ he₁ => ?_⟩
  have howing₂ := owing_of_leave h₁ hleave he₁
  intro s₃ _ h₃ hview₃ hghost₃ _ hconfirm
  have howing₃ : Owing s₃ c self.roomIndex := by
    have hsome : ∃ j, Owing s₃ ⟨c.worker, j⟩ self.roomIndex := by
      have hghost : (∃ j, Owing s₃ ⟨c.worker, j⟩ self.roomIndex) =
          ∃ j, Owing s₂ ⟨c.worker, j⟩ self.roomIndex :=
        congrFun hghost₃ self.roomIndex
      rw [hghost]
      exact ⟨c.index, howing₂⟩
    obtain ⟨j, hj⟩ := hsome
    have hpoint : s₃.point c.worker = .left c.index := hconfirm.2
    have hleft := hj.1
    rw [hpoint] at hleft
    cases hleft
    exact hj
  refine ⟨howing₃, fun b s₄ he₂ => ?_⟩
  apply Settles.of_all (all_one (a := Act.setLobby c) trivial)
  rintro k ⟨j, hj⟩
  exact not_owing_of_leaveOk howing₃ he₂ j k hj

/-- A disconnection leaves the worker with no client. -/
theorem settles_cleanupClient (v : View N C (.worker c.worker))
    (owing : Fin maxRooms → Prop) :
    (accounting N C).Flows (.worker c.worker)
      (fun _ _ owing => ∀ i, ¬ owing i) (cleanupClient c) v owing := by
  intro s₁ _ _ _ _ _ _
  refine ⟨trivial, fun b₁ s₁' _ => ?_⟩
  intro s₂ _ _ _ _ _ _
  refine ⟨trivial, fun b₂ s₂' _ => ?_⟩
  intro s₃ _ _ _ _ _ _
  refine ⟨trivial, fun b₃ s₃' _ => ?_⟩
  intro s₄ _ _ _ _ _ _
  refine ⟨trivial, fun b₄ s₄' he => ?_⟩
  rintro i ⟨j, hpoint, -⟩
  cases he
  simp [subtractZeroed] at hpoint

theorem settles_handleClientDisconnection :
    Settles (.worker c.worker) (handleClientDisconnection c) := by
  rw [handleClientDisconnection_eq]
  refine .then rfl fun self => ?_
  split
  · intro v owing _ s₁ _ _ _ _ _ _
    exact ⟨trivial, fun b s₂ _ => settles_cleanupClient _ _⟩
  · exact fun v owing _ => settles_cleanupClient v owing

theorem settles_dispatch :
    Settles (.worker c.worker) (dispatch c self) := by
  have hcodes : ∀ cmd ∈ replyCodes, cmd ∉ trafficCodes := by
    decide +kernel
  unfold dispatch
  cases hr : refusal self with
  | some answer =>
      exact .of_all (all_one (hcodes _ (refusal_mem_replyCodes self hr)))
  | none =>
      dsimp only
      unfold handleAccepted
      split
      · exact settles_handleClientDisconnection
      cases self.state with
      | awaitingUsername =>
          exact .of_all (replying_plain.handleAwaitingUsername self
            (fun _ _ _ => hcodes _ (by decide)) (fun _ => trivial) trivial)
      | inChatLobby =>
          exact .of_all (replying_plain.handleInChatLobby self
            (fun _ _ _ => trivial) fun _ _ => trivial)
      | inChatRoom => exact settles_handleInChatRoom

theorem settles_messageLoop (fuel : Nat) :
    ∀ temp, Settles (.worker c.worker) (messageLoop c fuel temp) := by
  have hroute : Settles (.worker c.worker) (routeClientCommand c) := by
    rw [routeClientCommand_eq]
    exact .then trivial fun self => settles_dispatch
  induction fuel with
  | zero => exact fun _ => .of_all trivial
  | succ fuel ih =>
      intro temp
      unfold messageLoop
      cases strstrTerminator temp with
      | some out =>
          exact .then trivial fun _ => hroute.bind fun _ =>
            .then trivial fun _ => ih out.2
      | none =>
          dsimp only
          split
          · exact .of_all trivial
          · exact .of_all (all_one trivial)

theorem settles_job (t : Thread N) (j : Job N C) (s : State N C)
    (hok : LiveOk s (.start t j)) : Settles t (jobProg t j) := by
  obtain ⟨hevent, -⟩ := hok
  have hmain : ∀ a : Act N C, a.ofMain → a.Plain .main := by
    have hcodes : errServerFull ∉ trafficCodes ∧
        errConnecting ∉ trafficCodes := by decide
    intro a ha
    cases a
    case send fd cmd message =>
      rcases ha with ⟨rfl, -⟩ | ⟨rfl, -⟩
      · exact hcodes.1
      · exact hcodes.2
    all_goals first | exact trivial | cases ha
  have hregister : ∀ (w : Fin N) (a : Act N C), a.ofRegister w →
      a.Plain (.worker w) := by
    have hcode : cmdWelcomeRequest ∉ trafficCodes := by decide
    intro w a ha
    cases a
    case send fd cmd message =>
      obtain ⟨rfl, -⟩ := ha
      exact hcode
    all_goals first | exact trivial | cases ha
  cases j with
  | accept fd keepAliveOk writeOk =>
      cases t with
      | main =>
          exact .of_all ((all_acceptClient fd keepAliveOk writeOk).imp hmain)
      | worker w => exact .of_all trivial
  | register readOk epollOk =>
      cases t with
      | main => exact .of_all trivial
      | worker w =>
          exact .of_all (all_registering trivial (hregister w) epollOk)
  | receive client result =>
      obtain ⟨⟨rfl, -⟩, -⟩ := hevent
      cases result with
      | nothing wouldBlock =>
          cases wouldBlock with
          | true => exact .of_all trivial
          | false => exact settles_handleClientDisconnection
      | data bytes => exact settles_messageLoop _ _
  | hangUp client =>
      obtain ⟨rfl, -⟩ := hevent
      exact settles_handleClientDisconnection

end Flows

/-! ## Over whole runs -/

section Runs

variable [NeZero N] {ls : List (Step N C)} {k : Configuration N C}

theorem accounting_init :
    (accounting N C).contract.Sound (fun t w => idleView t w.1 ∧ True)
      (Configuration.init N C) := by
  refine ⟨⟨trivial, .init⟩, fun t => ?_⟩
  cases t with
  | main => exact ⟨rfl, trivial⟩
  | worker w => exact ⟨rfl, trivial⟩

theorem accounting_sound
    (hrun : (server N C).Run ReadsSucceed (Configuration.init N C) ls k) :
    (accounting N C).contract.Sound (fun t w => idleView t w.1 ∧ True) k := by
  refine @Contract.Extension.sound _ _ _ _ _ (server N C) _ _ _ _
    (accounting N C) (fun t => idleView t) (fun _ _ _ => True)
    (fun t j s _ => safe_job t j s) ?_ _ _ accounting_init _ hrun
  intro t j s _ _ hidle _ hok
  have hsettled : ∀ i, ¬ (accounting N C).ghost t s i := by
    cases t with
    | main => exact fun _ => id
    | worker w =>
        rintro i ⟨j, hpoint, -⟩
        have hp : s.point w = .idle := hidle
        rw [hp] at hpoint
        cases hpoint
  exact (settles_job t j s hok.1 (view t s) _ hsettled).imp
    fun _ _ _ _ => trivial

/-- The accounts of every state that can be reached. -/
theorem chronicle_run
    (hrun : (server N C).Run ReadsSucceed (Configuration.init N C) ls k) :
    Chronicle k.shared :=
  (accounting_sound hrun).inv.2

end Runs

end ChatApp.Server
