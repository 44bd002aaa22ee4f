import ChatApp.Server.Chronicle

/-!
# Total order

The log of room events is the one sequence of every room, cut into the room's
lifetimes.  `ordered_run` says what each connection has been sent of it, and
that every connection's own events are in it in the order of its commands: the
lines a client has said are those it has sent and that were accepted, but for
the one its worker is about to broadcast.
-/

namespace ChatApp.Server

open ChatApp.Foundation

variable {N C : Nat}

/-! ## What clients say -/

/-- The chat line an entry hands over for the connection. -/
def Entry.spoken? (q : Conn) : Entry N C → Option Bytes
  | .routed _ (some q') record => if q' = q then chatLine? record else none
  | _ => none

/-- The chat lines of the connection that were handed over and accepted, in
their order. -/
def State.spoken (s : State N C) (q : Conn) : List Bytes :=
  s.journal.filterMap (Entry.spoken? q)

/-- The worker of the connection is about to broadcast the line. -/
def Unsaid (s : State N C) (q : Conn) (line : Bytes) : Prop :=
  ∃ c, s.HeldBy q (.slot c) ∧ s.point c.worker = .sending c.index line

/-- What was handed over was said, but for the line that is about to be. -/
structure Recited (s : State N C) : Prop where
  inv : ServerInv s
  unsaid : ∀ q line, Unsaid s q line →
    s.spoken q = sayings s.events q ++ [line]
  settled : ∀ q, (∀ line, ¬ Unsaid s q line) → s.spoken q = sayings s.events q

/-- The entry hands a message over or tells what was said. -/
def Entry.isSpeech : Entry N C → Bool
  | .routed .. | .room _ _ (.said _) => true
  | _ => false

def Act.isSpeech : Act N C → Bool
  | .routeMessage _ | .chatSection .. => true
  | _ => false

section Steps

variable {s s' : State N C} {t : Thread N} {a : Act N C} {b : a.Answer}
  {q : Conn} {line : Bytes}

theorem exec_speech (ha : a.isSpeech = false) (he : exec a s = some (b, s')) :
    ∃ extra, s'.journal = s.journal ++ extra ∧
      ∀ e ∈ extra, Entry.isSpeech e = false := by
  cases hchat : a.isChat with
  | false =>
      obtain ⟨⟨extra, hjournal, hextra⟩, -⟩ := exec_aside hchat he
      refine ⟨extra, hjournal, fun e hmem => ?_⟩
      have hnot := hextra e hmem
      cases e <;> first | rfl | cases hnot
  | true =>
      cases a <;> simp only [Act.isChat, Bool.false_eq_true] at hchat
      case routeMessage c => cases ha
      case chatSection i c msg => cases ha
      case createSection i c roomName successMsg =>
        rcases exec_createSection he with ⟨-, -, rfl⟩ | ⟨-, -, rfl⟩
        · exact ⟨[], by simp⟩
        · exact ⟨_, rfl, by simp [Entry.isSpeech]⟩
      case joinSection i c joinMsg =>
        rcases exec_joinSection he with ⟨r, -, rfl⟩ | rfl | ⟨j, -, -, rfl⟩
        · exact ⟨_, rfl, by simp [Entry.isSpeech]⟩
        · exact ⟨[], by simp⟩
        · simp only [State.afterJoin, List.append_assoc]
          refine ⟨_, rfl, ?_⟩
          simp only [List.mem_append, List.mem_singleton, List.mem_map]
          rintro e (rfl | ⟨d, -, rfl⟩ | rfl) <;> rfl
      case leaveSection i c =>
        rw [exec_leaveSection he]
        simp only [State.afterLeave, List.append_assoc]
        refine ⟨_, rfl, ?_⟩
        simp only [List.mem_append, List.mem_cons, List.mem_map,
          List.not_mem_nil, or_false]
        rintro e ((rfl | rfl) | ⟨d, -, rfl⟩) <;> rfl
      case send | leaveOkSection =>
        cases he
        exact ⟨_, rfl, by simp [Entry.isSpeech]⟩

/-- The other actions neither hand lines over nor say them. -/
theorem exec_lines (ha : a.isSpeech = false) (he : exec a s = some (b, s'))
    (q : Conn) :
    s'.spoken q = s.spoken q ∧ sayings s'.events q = sayings s.events q := by
  obtain ⟨extra, hjournal, hextra⟩ := exec_speech ha he
  constructor
  · have hnone : extra.filterMap (Entry.spoken? q) = [] := by
      refine List.filterMap_eq_nil_iff.mpr fun e hmem => ?_
      have hnot := hextra e hmem
      cases e <;> first | rfl | cases hnot
    rw [State.spoken, hjournal, List.filterMap_append, hnone, List.append_nil]
    rfl
  · have hevents : s'.events = s.events ++ extra.filterMap Entry.event? := by
      rw [State.events, hjournal, List.filterMap_append]
      rfl
    rw [hevents]
    unfold sayings caused
    rw [List.filter_append, List.filterMap_append]
    have hnone : ((extra.filterMap Entry.event?).filter
        fun e => decide (e.who = q)).filterMap (fun e => e.deed.line?) =
          [] := by
      refine List.filterMap_eq_nil_iff.mpr fun e hmem => ?_
      obtain ⟨hmem, -⟩ := List.mem_filter.mp hmem
      obtain ⟨entry, hentry, he⟩ := List.mem_filterMap.mp hmem
      have hnot := hextra entry hentry
      cases entry with
      | room i who op =>
          cases who with
          | none => cases he
          | some q' =>
              cases he
              cases op <;> first | rfl | cases hnot
      | _ => cases he
    rw [hnone, List.append_nil]

/-- A line that is about to be broadcast stays so until it is. -/
theorem sending_stays {c : ClientPtr N C} (ha : Allowed t s a)
    (hchat : ∀ i msg, a ≠ .chatSection i c msg)
    (he : exec a s = some (b, s'))
    (hpoint : s.point c.worker = .sending c.index line) :
    s'.point c.worker = .sending c.index line := by
  by_cases hw : a.worker? = some c.worker
  case neg => rwa [exec_point_of_ne hw he]
  -- No other action of the worker is allowed at this point.
  cases a <;> simp only [Act.worker?, Option.some.injEq, reduceCtorEq] at hw
  all_goals
    simp only [AllowedOf, ReadyOf, DetachedOf, hw, hpoint, reduceCtorEq,
      and_false, false_and, or_self] at ha
  case strcatCurrentMsg =>
    cases he
    exact hpoint
  case clearCurrentMsg =>
    cases he
    exact hpoint
  case chatSection i d msg =>
    have hindex := (WorkerPoint.sending.inj ha.2.2.2).1
    obtain ⟨w, j⟩ := c
    obtain ⟨w', j'⟩ := d
    dsimp only at hw hindex
    subst hw hindex
    exact absurd rfl (hchat i msg)

/-- Lines are about to be broadcast only after they were handed over. -/
theorem sending_of_exec {w : Fin N} {j : Fin C}
    (hroute : ∀ c, a ≠ .routeMessage c) (he : exec a s = some (b, s'))
    (hpoint : s'.point w = .sending j line) :
    s.point w = .sending j line := by
  by_cases hw : a.worker? = some w
  case neg => rwa [exec_point_of_ne hw he] at hpoint
  cases a <;> simp only [Act.worker?, Option.some.injEq, reduceCtorEq] at hw
  all_goals subst hw
  case routeMessage d => exact absurd rfl (hroute d)
  case createSection i d roomName successMsg =>
    obtain ⟨-, -, rfl⟩ | ⟨-, -, rfl⟩ := exec_createSection he
    all_goals exact hpoint
  case joinSection i d joinMsg =>
    obtain ⟨r, -, rfl⟩ | rfl | ⟨k, -, -, rfl⟩ := exec_joinSection he
    all_goals exact hpoint
  case chatSection i d msg =>
    rw [exec_chatSection he] at hpoint
    simp [State.afterChat] at hpoint
  case leaveSection i d =>
    rw [exec_leaveSection he] at hpoint
    simp [State.afterLeave] at hpoint
  case readEventfd w ok =>
    obtain ⟨-, -, -, rfl⟩ | ⟨-, -, rfl⟩ := exec_readEventfd he
    all_goals simp at hpoint
  case registerWithEpoll w fd ok =>
    obtain ⟨-, -, rfl⟩ | ⟨-, -, rfl⟩ := exec_registerWithEpoll he
    all_goals simp at hpoint
  case allocateClientSlot w fd =>
    obtain ⟨-, -, rfl⟩ | ⟨k, -, -, rfl⟩ := exec_allocateClientSlot he
    all_goals simp at hpoint
  all_goals cases he
  all_goals first
    | exact hpoint
    | simp [closeClient, zeroClient, subtractZeroed] at hpoint

/-- A slot whose worker is busy with its client was not filled just now. -/
theorem ServerInv.heldBy_of_exec (h : ServerInv s) {c : ClientPtr N C}
    (ha : Allowed t s a) (he : exec a s = some (b, s'))
    (hclosing : (s.point c.worker).closing ≠ some c.index)
    (hpoint : ∀ fd, s.point c.worker ≠ .registered fd)
    (hheld : s'.HeldBy q (.slot c)) : s.HeldBy q (.slot c) := by
  obtain ⟨fd, hslot', hq'⟩ := hheld
  rcases h.own.origin h.hand ha he hslot' hq' with
    ⟨hslot, hq⟩ | ⟨d, -, -, hq, hfresh⟩ | ⟨hmain, -, -⟩
  · exact ⟨fd, hslot, hq⟩
  · obtain ⟨huse', hfd'⟩ := of_holding_slot hslot'
    rcases exec_slot ha he c with ⟨huse, hfd⟩ | hzero | ⟨fd', hreg, -, -⟩
    · refine ⟨fd, ?_, hq⟩
      rw [← hfd', hfd]
      exact holding_slot (huse ▸ huse') hclosing
    · rw [hzero] at huse'
      cases huse'
    · exact absurd hreg (hpoint fd')
  · cases hmain

/-- What is about to be said changes only when lines are handed over and
said. -/
theorem ServerInv.unsaid_iff (h : ServerInv s) (ha : Allowed t s a)
    (hspeech : a.isSpeech = false) (he : exec a s = some (b, s')) (q : Conn)
    (line : Bytes) : Unsaid s' q line ↔ Unsaid s q line := by
  constructor
  · rintro ⟨c, hheld, hpoint'⟩
    have hpoint := sending_of_exec (by rintro d rfl; cases hspeech) he hpoint'
    exact ⟨c, h.heldBy_of_exec ha he (by rw [hpoint]; exact nofun)
      (by rw [hpoint]; exact nofun) hheld, hpoint⟩
  · rintro ⟨c, ⟨fd, hslot, hq⟩, hpoint⟩
    have hclose : a ≠ .closeClient c := by
      rintro rfl
      rcases ha.2 with ⟨-, hidle⟩ | hleft
      · rw [hpoint] at hidle
        cases hidle
      · rw [hpoint] at hleft
        cases hleft
    obtain ⟨hslot', hconn⟩ := h.own.slot_stays h.hand ha hclose he hslot
    exact ⟨c, ⟨fd, hslot', hconn.trans hq⟩, sending_stays ha
      (by rintro i msg rfl; cases hspeech) he hpoint⟩

/-- Where no slot is filled or emptied, the slots hold what they held. -/
theorem heldBy_congr {c : ClientPtr N C} (hclients : s'.clients = s.clients)
    (hconns : s'.conns = s.conns)
    (hclosing : ∀ w, (s'.point w).closing = (s.point w).closing) :
    s'.HeldBy q (.slot c) ↔ s.HeldBy q (.slot c) := by
  have hholding : s'.holding (.slot c) = s.holding (.slot c) := by
    show s'.slotFd c = s.slotFd c
    unfold State.slotFd
    rw [hclients, hclosing]
  unfold State.HeldBy
  rw [hholding, hconns]

theorem sending_inj {c d : ClientPtr N C} {line' : Bytes}
    (hw : d.worker = c.worker)
    (h : WorkerPoint.sending d.index line = .sending c.index line') :
    d = c ∧ line = line' := by
  obtain ⟨w, j⟩ := c
  obtain ⟨w', j'⟩ := d
  obtain ⟨rfl, rfl⟩ := WorkerPoint.sending.inj h
  dsimp only at hw
  subst hw
  exact ⟨rfl, rfl⟩

/-- A line that is handed over is about to be said. -/
theorem Recited.route (h : Recited s) {c : ClientPtr N C}
    {r : Client} (ha : Allowed t s (.routeMessage c))
    (he : exec (.routeMessage c) s = some (r, s')) : Recited s' := by
  have hinv := h.inv.step ha nofun he
  obtain ⟨hc, ⟨q, hq⟩, -⟩ := h.inv.served ha nofun he ha.1.2
    (by rw [ha.2]; exact nofun)
  have hcq := heldBy_slot hc hq
  have hquiet : ∀ line, ¬ Unsaid s q line := by
    rintro line ⟨d, hd, hpoint⟩
    cases h.inv.own.slot_inj hcq hd
    rw [ha.2] at hpoint
    cases hpoint
  obtain ⟨-, hcases⟩ := exec_routeMessage he
  have hpoint : s'.point c.worker = routedPoint c (s.clients c) := by
    obtain ⟨hnone, rfl⟩ | ⟨line, hsome, rfl⟩ := hcases
    · rw [routedPoint, hnone]
      exact ha.2
    · rw [routedPoint, hsome]
      exact Function.update_self _ _ _
  have hother : ∀ w, w ≠ c.worker → s'.point w = s.point w := by
    intro w hw
    refine exec_point_of_ne ?_ he
    rintro ⟨⟩
    exact hw rfl
  have hheld : ∀ q' d, s'.HeldBy q' (.slot d) ↔ s.HeldBy q' (.slot d) := by
    intro q' d
    refine heldBy_congr ?_ ?_ fun w => ?_
    · obtain ⟨-, rfl⟩ | ⟨line, -, rfl⟩ := hcases
      all_goals rfl
    · obtain ⟨-, rfl⟩ | ⟨line, -, rfl⟩ := hcases
      all_goals rfl
    · by_cases hw : w = c.worker
      · rw [hw, hpoint, ha.2, routedPoint]
        cases chatLine? (s.clients c) <;> rfl
      · rw [hother w hw]
  have hjournal : s'.journal = s.journal ++
      [.routed c (some q) (s.clients c)] := by
    rw [← hq]
    obtain ⟨-, rfl⟩ | ⟨line, -, rfl⟩ := hcases
    all_goals rfl
  have hevents : s'.events = s.events := by
    rw [State.events, hjournal, List.filterMap_append]
    exact List.append_nil _
  have hspoken : ∀ q', s'.spoken q' = s.spoken q' ++
      if q = q' then (chatLine? (s.clients c)).toList else [] := by
    intro q'
    rw [State.spoken, hjournal, List.filterMap_append]
    congr 1
    by_cases hqq : q = q'
    · cases hline : chatLine? (s.clients c) <;>
        simp [Entry.spoken?, hqq, hline]
    · simp [Entry.spoken?, hqq]
  refine ⟨hinv, ?_, ?_⟩
  · rintro q' line ⟨d, hd, hsending⟩
    have hd := (hheld q' d).mp hd
    rw [hspoken, hevents]
    by_cases hw : d.worker = c.worker
    · rw [hw, hpoint, routedPoint] at hsending
      cases hline : chatLine? (s.clients c) with
      | none =>
          rw [hline] at hsending
          cases hsending
      | some said =>
          rw [hline] at hsending
          obtain ⟨rfl, rfl⟩ := sending_inj hw hsending.symm
          have hqq : q = q' :=
            Option.some.inj (hq.symm.trans (HeldBy.slot hd).2)
          rw [if_pos hqq, ← hqq, h.settled q hquiet]
          rfl
    · have hbefore : Unsaid s q' line :=
        ⟨d, hd, by rw [← hother _ hw]; exact hsending⟩
      have hqq : q ≠ q' := by
        rintro rfl
        exact hquiet line hbefore
      rw [if_neg hqq, List.append_nil]
      exact h.unsaid q' line hbefore
  · intro q' hnone
    rw [hspoken, hevents]
    by_cases hqq : q = q'
    · subst hqq
      cases hline : chatLine? (s.clients c) with
      | none => simpa using h.settled q hquiet
      | some line =>
          rw [routedPoint, hline] at hpoint
          exact absurd ⟨c, (hheld q c).mpr hcq, hpoint⟩ (hnone line)
    · rw [if_neg hqq, List.append_nil]
      refine h.settled q' ?_
      rintro line ⟨d, hd, hsending⟩
      have hw : d.worker ≠ c.worker := by
        intro hw
        rw [hw, ha.2] at hsending
        cases hsending
      exact hnone line ⟨d, (hheld q' d).mpr hd, by
        rw [hother _ hw]; exact hsending⟩

/-- The line that was about to be said is said. -/
theorem Recited.chat (h : Recited s) {c : ClientPtr N C} {i : Fin maxRooms}
    {msg : Bytes} {u : Unit} (ha : Allowed t s (.chatSection i c msg))
    (he : exec (.chatSection i c msg) s = some (u, s')) : Recited s' := by
  have hinv := h.inv.step ha nofun he
  obtain ⟨hc, ⟨q, hq⟩, -⟩ := h.inv.served ha nofun he ha.1.2
    (by rw [ha.2.2.2]; exact nofun)
  have hcq := heldBy_slot hc hq
  have hs' := exec_chatSection he
  have hpoint : s'.point c.worker = .idle := by
    rw [hs']
    exact Function.update_self _ _ _
  have hother : ∀ w, w ≠ c.worker → s'.point w = s.point w := by
    intro w hw
    refine exec_point_of_ne ?_ he
    rintro ⟨⟩
    exact hw rfl
  have hheld : ∀ q' d, s'.HeldBy q' (.slot d) ↔ s.HeldBy q' (.slot d) := by
    intro q' d
    refine heldBy_congr (by rw [hs']; rfl) (by rw [hs']; rfl) fun w => ?_
    by_cases hw : w = c.worker
    · rw [hw, hpoint, ha.2.2.2]
      rfl
    · rw [hother w hw]
  have hevents : s'.events = s.events ++ [⟨i, q, .said msg⟩] := by
    subst hs'
    simp only [State.events, State.afterChat, List.filterMap_append,
      filterMap_built, hq, List.append_nil]
    rfl
  have hspoken : ∀ q', s'.spoken q' = s.spoken q' := by
    intro q'
    subst hs'
    simp only [State.spoken, State.afterChat, List.filterMap_append,
      List.filterMap_map]
    have hnone : ∀ cs : List (ClientPtr N C),
        cs.filterMap (Entry.spoken? q' ∘ fun _ =>
          (Entry.built .messageBuffer (msg.length + 4) : Entry N C)) = [] :=
      fun cs => List.filterMap_eq_nil_iff.mpr fun _ _ => rfl
    rw [hnone]
    simp [Entry.spoken?]
  have hsayings : ∀ q', sayings s'.events q' = sayings s.events q' ++
      if q = q' then [msg] else [] := by
    intro q'
    rw [hevents, sayings_snoc]
    rfl
  refine ⟨hinv, ?_, ?_⟩
  · rintro q' line ⟨d, hd, hsending⟩
    have hd := (hheld q' d).mp hd
    have hw : d.worker ≠ c.worker := by
      intro hw
      rw [hw, hpoint] at hsending
      cases hsending
    have hqq : q ≠ q' := by
      rintro rfl
      exact hw (congrArg ClientPtr.worker (h.inv.own.slot_inj hd hcq))
    rw [hspoken, hsayings, if_neg hqq, List.append_nil]
    exact h.unsaid q' line ⟨d, hd, by rw [← hother _ hw]; exact hsending⟩
  · intro q' hnone
    rw [hspoken, hsayings]
    by_cases hqq : q = q'
    · subst hqq
      rw [if_pos rfl]
      exact h.unsaid q msg ⟨c, hcq, ha.2.2.2⟩
    · rw [if_neg hqq, List.append_nil]
      refine h.settled q' ?_
      rintro line ⟨d, hd, hsending⟩
      have hw : d.worker ≠ c.worker := by
        intro hw
        have hsame := hsending.symm.trans (hw ▸ ha.2.2.2)
        obtain ⟨rfl, -⟩ := sending_inj hw hsame
        exact hqq (Option.some.inj (hq.symm.trans (HeldBy.slot hd).2))
      exact hnone line ⟨d, (hheld q' d).mpr hd, by
        rw [hother _ hw]; exact hsending⟩

theorem Recited.step (h : Recited s) (ha : Allowed t s a)
    (hread : ∀ w, a ≠ .readEventfd w false) (he : exec a s = some (b, s')) :
    Recited s' := by
  cases hspeech : a.isSpeech with
  | false =>
      have hunsaid := h.inv.unsaid_iff ha hspeech he
      refine ⟨h.inv.step ha hread he, fun q line hline => ?_, fun q hnone => ?_⟩
      · obtain ⟨hspoken, hsayings⟩ := exec_lines hspeech he q
        rw [hspoken, hsayings]
        exact h.unsaid q line ((hunsaid q line).mp hline)
      · obtain ⟨hspoken, hsayings⟩ := exec_lines hspeech he q
        rw [hspoken, hsayings]
        exact h.settled q fun line hline =>
          hnone line ((hunsaid q line).mpr hline)
  | true =>
      cases a <;> simp only [Act.isSpeech, Bool.false_eq_true] at hspeech
      case routeMessage c => exact h.route ha he
      case chatSection i c msg => exact h.chat ha he

/-- The journal only grows. -/
theorem exec_grows (he : exec a s = some (b, s')) : s.journal <+: s'.journal := by
  cases hspeech : a.isSpeech with
  | false =>
      obtain ⟨extra, hjournal, -⟩ := exec_speech hspeech he
      exact ⟨extra, hjournal.symm⟩
  | true =>
      cases a <;> simp only [Act.isSpeech, Bool.false_eq_true] at hspeech
      case routeMessage c =>
        obtain ⟨-, ⟨-, rfl⟩ | ⟨line, -, rfl⟩⟩ := exec_routeMessage he
        all_goals exact List.prefix_append _ _
      case chatSection i c msg =>
        rw [exec_chatSection he]
        simp only [State.afterChat, List.append_assoc]
        exact List.prefix_append _ _

end Steps

/-! ## What members receive -/

/-- The texts of the `CMD_ROOM_MSG` frames a connection has been sent. -/
def State.received (s : State N C) (q : Conn) : List Bytes :=
  (framesTo q s.calls).filterMap fun f =>
    if f.1 = cmdRoomMsg then some f.2 else none

theorem notices_traffic (s : State N C) (q : Conn) :
    (roomTraffic q s.calls).filterMap Told.notice? = s.received q := by
  unfold roomTraffic State.received
  rw [List.filterMap_filterMap]
  congr 1
  funext f
  unfold roomFrame
  by_cases hmsg : f.1 = cmdRoomMsg
  · have hcreate : cmdRoomMsg ≠ cmdRoomCreateOk := by decide
    have hjoin : cmdRoomMsg ≠ cmdRoomJoinOk := by decide
    rw [if_pos hmsg, hmsg, if_neg hcreate, if_neg hjoin, if_pos rfl]
    rfl
  · rw [if_neg hmsg, if_neg hmsg]
    split
    · rfl
    split
    · rfl
    split
    · rfl
    · rfl

theorem notices_forget (w : List (Told (Fin maxRooms) Bytes)) :
    (w.map forget).filterMap Told.notice? = w.filterMap Told.notice? := by
  rw [List.filterMap_map]
  congr 1
  funext x
  cases x <;> rfl

/-- The log is the sequence of events of every lifetime of every room; each
connection has been sent, in the order of the log, what others caused in its
room while it was in it, and its own events are in the log in its order, all its
lines among them. -/
structure Ordered (k : Configuration N C) : Prop where
  /-- The log says who is in the rooms. -/
  placed : Placed k.shared (member k.shared.events)
  lifetimes : ∀ i n, if 0 < n ∧ n ≤ foundings k.shared.events i then
      IsLifetime i (lifetime k.shared.events i n)
    else lifetime k.shared.events i n = []
  received : ∀ q, k.shared.received q =
    (heard k.shared.events q).filterMap fun m => m.event.deed.notice?
  /-- What is heard of one lifetime is a part of that lifetime's events. -/
  isolated : ∀ q i n,
    (heard k.shared.events q).filter (fun m =>
        decide (m.event.room = i) && decide (m.lifetime = n)) =
      (lifetime k.shared.events i n).filter (Moment.isFor q)
  /-- Each connection enters, speaks, and leaves. -/
  visits : ∀ q, (ownStages (Fin maxRooms) Conn Bytes).Follows
    (member k.shared.events q) (caused k.shared.events q)
  /-- The line that a worker is about to broadcast is the only one of its client
  that the log still lacks. -/
  unsaid : ∀ q line, Unsaid k.shared q line →
    k.shared.spoken q = sayings k.shared.events q ++ [line]
  said : ∀ q, (∀ line, ¬ Unsaid k.shared q line) →
    k.shared.spoken q = sayings k.shared.events q
  /-- Between two events of its worker, and after its release, all the lines of a
  connection are in the log. -/
  settled : ∀ q, (∀ c, k.shared.HeldBy q (.slot c) →
      k.prog (.worker c.worker) = .ret ()) →
    k.shared.spoken q = sayings k.shared.events q

theorem Chronicle.received {s : State N C} (h : Chronicle s) (q : Conn) :
    s.received q =
      (heard s.events q).filterMap fun m => m.event.deed.notice? := by
  rw [← notices_told, ← notices_traffic, ← notices_forget]
  rcases h.accounts q with hlevel | howes
  · rw [hlevel]
  · rw [← howes, List.filterMap_append]
    exact (List.append_nil _).symm

theorem events_grow {ok : State N C → Step N C → Prop}
    {ls : List (Step N C)} {k k' : Configuration N C}
    (hrun : (server N C).Run ok k ls k') :
    k.shared.events <+: k'.shared.events := by
  induction hrun with
  | nil => exact List.prefix_refl _
  | snoc _ _ hstep ih =>
      cases hstep with
      | start => exact ih
      | act t a next answer s hp he =>
          exact ih.trans ((exec_grows he).filterMap _)

section Runs

variable [NeZero N] {ls ls' : List (Step N C)} {k k' : Configuration N C}

theorem recited_run
    (hrun : (server N C).Run ReadsSucceed (Configuration.init N C) ls k) :
    Recited k.shared := by
  refine run_invariant (fun _ _ h => h.1) ?_ ?_ hrun
  · exact ⟨.init, fun _ _ ⟨_, _, hpoint⟩ => (by cases hpoint), fun _ _ => rfl⟩
  · rintro t a s b s' ha hok he h
    refine h.step ha ?_ he
    rintro w rfl
    exact hok.2 t w rfl

/-- **Ordered delivery**: at any moment the log orders the events of every
room and says what each connection has been sent, and it only grows. -/
theorem ordered_run
    (hrun : (server N C).Run ReadsSucceed (Configuration.init N C) ls k)
    (hmore : (server N C).Run ReadsSucceed k ls' k') :
    Ordered k ∧ Ordered k' ∧ k.shared.events <+: k'.shared.events := by
  have hordered : ∀ {ls k},
      (server N C).Run ReadsSucceed (Configuration.init N C) ls k →
      Ordered k := by
    intro ls k hrun
    have hchronicle := chronicle_run hrun
    have hrecited := recited_run hrun
    have hsound := control_sound (hrun.mono ReadsSucceed.live)
    refine
      { placed := hchronicle.placed
        lifetimes := fun i n => lifetime_founded hchronicle.valid i n
        received := hchronicle.received
        isolated := fun q i n => heard_filter _ q _
        visits := fun q => follows_caused hchronicle.valid q
        unsaid := hrecited.unsaid
        said := hrecited.settled
        settled := fun q hidle => hrecited.settled q ?_ }
    rintro line ⟨c, hheld, hsending⟩
    have hpoint : k.shared.point c.worker = .idle :=
      hsound.idle_view (hidle c hheld)
    rw [hpoint] at hsending
    cases hsending
  exact ⟨hordered hrun, hordered (hrun.append hmore), events_grow hmore⟩

end Runs

/-- One client opens a room that another one joins, speaks in and leaves. -/
theorem ordered_bob : ∃ ls k,
    (server maxThreads maxClientsPerThread).Run ReadsSucceed
        (Configuration.init _ _) ls k ∧
      k.shared.received 0 =
        [text "eve has entered the room\n", text "eve: hi",
          text "eve left the room\n"] ∧
      k.shared.spoken 1 = [text "eve: hi"] ∧ Ordered k := by
  have hplay : (play (State.init maxThreads maxClientsPerThread)
      (opensRoom 0 (text "bob") (text "den") ++ connects 1 ++
        [sends 1 (frame cmdUsernameSubmit (text "eve")),
          sends 1 (frame cmdRoomJoinRequest (text "0")),
          sends 1 (frame cmdRoomMessageSend (text "hi")),
          sends 1 (frame cmdLeaveRoom (text "x"))])).map
        (fun s => (s.received 0, s.spoken 1)) = some
        ([text "eve has entered the room\n", text "eve: hi",
          text "eve left the room\n"], [text "eve: hi"]) := by
    decide +kernel
  obtain ⟨s, hs, heq⟩ := Option.map_eq_some_iff.mp hplay
  obtain ⟨hreceived, hspoken⟩ := Prod.mk.inj heq
  obtain ⟨ls, hrun⟩ := play_reaches hs
  exact ⟨ls, _, hrun, hreceived, hspoken, (ordered_run hrun .nil).1⟩

end ChatApp.Server
