import ChatApp.Server.Dialogue

/-!
# Every routine replies

Each thread knows which requests wait for it: the main thread that of the
connection it distributes, a worker those of its slots.  A routine replies to the
one request it was given before it takes up another, so a thread that has nothing
to do has replied to all; `dialogue_run` says so of every run.
-/

namespace ChatApp.Server

open ChatApp.Foundation

variable {N C : Nat}

/-! ## What each thread has to see to -/

/-- The requests that wait for a thread. -/
abbrev Dues (N C : Nat) : Thread N → Type
  | .main => Option Request
  | .worker _ => Fin C → Option Request

def State.dues (s : State N C) : (t : Thread N) → Dues N C t
  | .main => s.due .main
  | .worker w => fun j => s.due (.slot ⟨w, j⟩)

/-- No request waits for the thread. -/
def NothingDue (N C : Nat) : (t : Thread N) → Dues N C t → Prop
  | .main, g => g = none
  | .worker _, g => g = fun _ => none

/-- The action takes no request, sends no reply, fills no slot and is not the
main thread's. -/
def Act.isCalm : Act N C → Bool
  | .routeMessage _ | .send .. | .createSection .. | .joinSection ..
  | .leaveOkSection .. | .allocateClientSlot .. => false
  | a => !a.isMain

section Dues

variable {s s' : State N C} {t : Thread N} {a : Act N C} {b : a.Answer}
  {c : ClientPtr N C} {d : Holder N C} {q : Conn}

theorem due_congr (hheld : ∀ q, s'.HeldBy q d ↔ s.HeldBy q d)
    (hawaited : ∀ q, s.HeldBy q d → s'.awaited q = s.awaited q) :
    s'.due d = s.due d := by
  by_cases hq : ∃ q, s.HeldBy q d
  · obtain ⟨q, hq⟩ := hq
    rw [due_of_heldBy hq, due_of_heldBy ((hheld q).mpr hq), hawaited q hq]
  · push Not at hq
    rw [due_eq_none hq, due_eq_none fun q hq' => hq q ((hheld q).mp hq')]

/-- What a slot holds changes only when it is filled or closed. -/
theorem heldBy_slot_iff (h : ServerInv s) (ha : Allowed t s a)
    (hclose : a ≠ .closeClient c)
    (hfill : ∀ fd, a ≠ .allocateClientSlot c.worker fd)
    (he : exec a s = some (b, s')) (q : Conn) :
    s'.HeldBy q (.slot c) ↔ s.HeldBy q (.slot c) := by
  constructor
  · intro hheld
    by_contra hnot
    obtain ⟨fd, hact, -⟩ := h.own.heldBy_new h.relay ha he hnot hheld
    exact hfill fd hact
  · rintro ⟨fd, hslot, hq⟩
    obtain ⟨hslot', hconn⟩ := h.own.slot_stays h.hand ha hclose he hslot
    exact ⟨fd, hslot', hconn.trans hq⟩

/-- What the main thread holds changes only by its own actions. -/
theorem heldBy_main_iff (h : ServerInv s) (ha : Allowed t s a)
    (ht : t ≠ .main) (he : exec a s = some (b, s')) (q : Conn) :
    s'.HeldBy q .main ↔ s.HeldBy q .main := by
  have hnot : a.isMain = false := by
    by_contra hmain
    exact ht (ha.main (by simpa using hmain))
  have hsame : s'.holding .main = s.holding .main := by
    simp only [State.holding, exec_main hnot he]
  -- No other thread closes the descriptor of the main thread.
  have hclose : ∀ fd, a.closes s = some fd → s.holding .main ≠ some fd := by
    intro fd hcloses hmain
    cases a <;> simp only [Act.closes, Option.some.injEq, reduceCtorEq]
      at hcloses
    case closeClient c =>
      have hpoint : (s.point c.worker).closing ≠ some c.index := by
        rcases ha.2 with ⟨-, hidle⟩ | hleft
        · rw [hidle]
          rintro ⟨⟩
        · rw [hleft]
          rintro ⟨⟩
      have hslot := holding_slot ha.1.2 hpoint
      rw [hcloses] at hslot
      cases h.own.owned.unique _ _ fd hmain hslot
    case closeRefused w fd' =>
      have hworker : s.holding (.worker w) = some fd := by
        simp only [State.holding, ha.2, WorkerPoint.fd?, hcloses]
      cases h.own.owned.unique _ _ fd hmain hworker
    case closeRejected => cases hnot
    case closeFailed => cases hnot
  have hconn : ∀ fd, s.holding .main = some fd → s'.conns fd = s.conns fd := by
    intro fd hmain
    rcases exec_conns he with ⟨fd', rfl, -⟩ | ⟨-, ⟨-, hsame⟩ | ⟨fd', hfd', hupdate⟩⟩
    · cases hnot
    · rw [hsame]
    · have hne : fd ≠ fd' := by
        rintro rfl
        exact hclose fd hfd' hmain
      rw [hupdate, Function.update_of_ne hne]
  unfold State.HeldBy
  rw [hsame]
  refine exists_congr fun fd => and_congr_right fun hmain => ?_
  rw [hconn fd hmain]

/-- Other threads see to none of a thread's requests. -/
theorem dues_other (h : Dialogue s) (ha : Allowed t s a)
    (hcourteous : a.Courteous t s) {u : Thread N} (hu : u ≠ t)
    (he : exec a s = some (b, s')) : s'.dues u = s.dues u := by
  have htalk := exec_talk h.inv ha hcourteous he
  have hawaited : ∀ d : Holder N C, d.thread? = some u → ∀ q,
      s.HeldBy q d → s'.awaited q = s.awaited q := by
    rintro d hd q ⟨fd, hfd, hq⟩
    refine htalk.awaited_same ?_
    rintro e he' ⟨fd', hfd', hq'⟩
    cases h.inv.own.owned.holder_unique hfd hfd' hq hq'
    rw [hd] at he'
    exact hu (Option.some.inj he')
  cases u with
  | main =>
      exact due_congr (heldBy_main_iff h.inv ha hu.symm he)
        (hawaited .main rfl)
  | worker w =>
      funext j
      refine due_congr (heldBy_slot_iff h.inv ha ?_ ?_ he)
        (hawaited (.slot ⟨w, j⟩) rfl)
      · rintro rfl
        exact hu (ha.owner rfl).symm
      · rintro fd rfl
        exact hu (ha.owner rfl).symm

theorem Act.isCalm.route (ha : a.isCalm = true) (c : ClientPtr N C) :
    a ≠ .routeMessage c := by
  rintro rfl
  cases ha

theorem Act.isCalm.reply? (ha : a.isCalm = true) (s : State N C) :
    a.reply? s = none := by
  cases a <;> first | rfl | cases ha

/-- A calm action leaves to its worker what waits for it. -/
theorem dues_calm {w : Fin N} (h : Dialogue s)
    (ha : Allowed (.worker w) s a) (hcalm : a.isCalm = true)
    (hclose : ∀ c, a = .closeClient c → s.due (.slot c) = none)
    (he : exec a s = some (b, s')) :
    s'.dues (.worker w) = s.dues (.worker w) := by
  funext j
  show s'.due (.slot ⟨w, j⟩) = s.due (.slot ⟨w, j⟩)
  by_cases hslot : a = .closeClient ⟨w, j⟩
  · rw [hclose _ hslot]
    subst hslot
    cases he
    refine due_eq_none ?_
    rintro q ⟨fd, hfd, -⟩
    simp [State.holding, State.slotFd, closeClient] at hfd
  · refine due_congr (heldBy_slot_iff h.inv ha hslot ?_ he) fun q _ => ?_
    · rintro fd rfl
      cases hcalm
    · rw [awaited_quiet (Act.isCalm.route hcalm) (Act.isCalm.reply? hcalm s) he]

end Dues

/-- Each thread knows which requests wait for it. -/
def conversing (N C : Nat) : (control N C).Extension ReadsSucceed :=
  { G := Dues N C
    ghost := fun t s => s.dues t
    Inv := Dialogue
    Pre := fun t a s => a.Courteous t s
    weaken := ReadsSucceed.live
    inv_exec := by
      intro t a s b s' _ h hok ha hcourteous he
      refine h.step ha ?_ hcourteous he
      rintro w rfl
      exact hok.2 t w rfl
    ghost_exec := by
      intro t u a s b s' hu _ h ha hcourteous he
      exact dues_other h ha hcourteous hu he }

/-! ## The routines of a worker -/

/-- The action may reply to a client. -/
def Act.isReply : Act N C → Bool
  | .send .. | .createSection .. | .joinSection .. | .leaveOkSection .. => true
  | _ => false

/-- All that waits for the worker is the request of client `c`. -/
def owing (c : ClientPtr N C) (request : Option Request) :
    Fin C → Option Request :=
  Function.update (fun _ => none) c.index request

theorem owing_none (c : ClientPtr N C) : owing c none = fun _ => none :=
  Function.update_eq_self c.index _

/-- Where no request waits for the thread, none waits for it afterwards. -/
def Rests (t : Thread N) {α : Type} (prog : ServerProg N C α) : Prop :=
  ∀ (v : View N C t) (g : Dues N C t), NothingDue N C t g →
    (conversing N C).Flows t (fun _ _ => NothingDue N C t) prog v g

/-- Executed with record `r` of client `c`, whose request is all that waits for
the worker, the program leaves none waiting. -/
def Pays (c : ClientPtr N C) (r : Client) (request : Option Request)
    {α : Type} (prog : ServerProg N C α) : Prop :=
  ∀ (v : View N C (.worker c.worker)) (g : Dues N C (.worker c.worker)),
    v.1 c.index = r → g = owing c request →
    (conversing N C).Flows (.worker c.worker)
      (fun _ _ => NothingDue N C (.worker c.worker)) prog v g

section Worker

variable {s s' : State N C} {w : Fin N} {c : ClientPtr N C}
  {r self : Client} {request : Request} {waits : Option Request}
  {a : Act N C} {b : a.Answer} {α β : Type}

theorem courteous_calm (hcalm : a.isCalm = true)
    (ha : Allowed (.worker w) s a)
    (hwelcomed : ∀ j, s.due (.slot ⟨w, j⟩) ≠ some .connect)
    (hclose : ∀ d, a = .closeClient d → s.due (.slot d) = none) :
    a.Courteous (.worker w) s := by
  refine ⟨fun fd f hreply => ?_, ?_, ?_, ?_⟩
  · rw [Act.isCalm.reply? hcalm s] at hreply
    cases hreply
  · rintro d (rfl | hd)
    · cases hcalm
    · exact hclose d hd
  · rintro d rfl
    have hlobby : Allowed (.worker w) s (.setLobby d) := ha
    cases hlobby.owner rfl
    exact hwelcomed d.index
  · rintro v fd ok rfl
    cases hcalm

theorem due_owing (hdues : s.dues (.worker c.worker) = owing c waits)
    (j : Fin C) :
    s.due (.slot ⟨c.worker, j⟩) = if j = c.index then waits else none := by
  have hj := congrFun hdues j
  rwa [owing, Function.update_apply] at hj

/-- The slot of the client whose request waits is held. -/
theorem heldBy_of_owing
    (hdues : s.dues (.worker c.worker) = owing c (some request)) :
    ∃ q, s.HeldBy q (.slot c) ∧ s.awaited q = some request ∧
      s.holding (.slot c) = some (s.clients c).clientFd := by
  have hdue := due_owing hdues c.index
  rw [if_pos rfl] at hdue
  obtain ⟨q, hq, hawaited⟩ := exists_of_due hdue
  exact ⟨q, hq, hawaited, (HeldBy.slot hq).1⟩

/-! ### Actions that reply to nothing -/

theorem Rests.bind {prog : ServerProg N C α} {k : α → ServerProg N C β}
    {t : Thread N} (h : Rests t prog) (hk : ∀ value, Rests t (k value)) :
    Rests t (prog >>= k) :=
  fun v g hg => (h v g hg).bind fun value v' g' hg' => hk value v' g' hg'

theorem Rests.of_all {prog : ServerProg N C α}
    (h : Prog.All (fun a => a.isCalm = true) prog) :
    Rests (.worker w) prog := by
  intro v g hg
  refine Contract.Extension.Flows.of_all (E := conversing N C)
    (t := Thread.worker w) (R := fun _ => NothingDue N C (.worker w)) ?_ h hg
  intro a s hcalm _ hdialogue hsettled _ ha
  have hnone : ∀ j, s.due (.slot ⟨w, j⟩) = none := congrFun hsettled
  have hclose : ∀ d, a = .closeClient d → s.due (.slot d) = none := by
    rintro d rfl
    have hdrop : Allowed (.worker w) s (.closeClient d) := ha
    cases hdrop.owner rfl
    exact hnone d.index
  refine ⟨courteous_calm hcalm ha ?_ hclose, fun b s' he => ?_⟩
  · intro j
    rw [hnone j]
    rintro ⟨⟩
  · exact (dues_calm hdialogue ha hcalm hclose he).trans hsettled

theorem Rests.then {a : Act N C} {next : a.Answer → ServerProg N C α}
    (ha : a.isCalm = true) (h : ∀ b, Rests (.worker w) (next b)) :
    Rests (.worker w) (.act a next) :=
  Rests.bind (.of_all (all_one ha)) h

theorem Pays.of_rests {prog : ServerProg N C α}
    (h : Rests (.worker c.worker) prog) : Pays c r none prog := by
  intro v g _ hg
  exact h v g (hg.trans (owing_none c))

/-! ### While a request waits -/

theorem Pays.act {a : Act N C} {next : a.Answer → ServerProg N C α}
    (hpre : ∀ s, Dialogue s → Allowed (.worker c.worker) s a →
      s.clients c = r → s.dues (.worker c.worker) = owing c waits →
      a.Courteous (.worker c.worker) s)
    (hpost : ∀ s b s', Dialogue s → Allowed (.worker c.worker) s a →
      s.clients c = r → s.dues (.worker c.worker) = owing c waits →
      exec a s = some (b, s') →
      ∃ waits', s'.dues (.worker c.worker) = owing c waits' ∧
        Pays c (s'.clients c) waits' (next b)) :
    Pays c r waits (.act a next) := by
  intro v g hr hg s _ h hv hghost _ ha
  have hclient : s.clients c = r := by
    rw [← hr, ← hv]
    rfl
  have hdues : s.dues (.worker c.worker) = owing c waits := hghost.trans hg
  refine ⟨hpre s h ha hclient hdues, fun b s' he => ?_⟩
  obtain ⟨waits', hdues', hpays⟩ := hpost s b s' h ha hclient hdues he
  exact hpays _ _ rfl hdues'

/-- A calm action before the reply to a message. -/
theorem Pays.calm {a : Act N C} {next : a.Answer → ServerProg N C α}
    (hcalm : a.isCalm = true) (hclose : ∀ d, a ≠ .closeClient d)
    (hnext : ∀ s b s', s.clients c = r → exec a s = some (b, s') →
      Pays c (s'.clients c) (some (.message self)) (next b)) :
    Pays c r (some (.message self)) (.act a next) := by
  have hnot : ∀ (s : State N C) d, a = .closeClient d →
      s.due (.slot d) = none := fun _ d hd => absurd hd (hclose d)
  refine .act (fun s _ ha _ hdues => ?_) fun s b s' h ha hr hdues he => ?_
  · refine courteous_calm hcalm ha (fun j => ?_) (hnot s)
    rw [due_owing hdues]
    split <;> rintro ⟨⟩
  · exact ⟨_, (dues_calm h ha hcalm (hnot s) he).trans hdues,
      hnext s b s' hr he⟩

/-- The same where the record stays. -/
theorem Pays.silent {a : Act N C} {next : a.Answer → ServerProg N C α}
    (hsilent : a.isSilent)
    (hnext : ∀ s b s', s.clients c = r → exec a s = some (b, s') →
      Pays c r (some (.message self)) (next b)) :
    Pays c r (some (.message self)) (.act a next) := by
  refine .calm ?_ ?_ fun s b s' hr he => ?_
  · cases a <;> first | rfl | cases hsilent
  · rintro d rfl
    cases hsilent
  · rw [(exec_silent hsilent he).2.1, hr]
    exact hnext s b s' hr he

/-- Of an action that may reply, what waits afterwards. -/
theorem dues_reply (h : Dialogue s) (ha : Allowed (.worker c.worker) s a)
    (hreplies : a.isReply = true)
    (hanswer : ∀ fd f, a.reply? s = some (fd, f) →
      fd = (s.clients c).clientFd ∧ AnswerTo request f)
    (hdues : s.dues (.worker c.worker) = owing c (some request))
    (he : exec a s = some (b, s')) :
    s'.dues (.worker c.worker) =
      owing c (if (a.reply? s).isSome then none else some request) := by
  have hroute : ∀ d, a ≠ .routeMessage d := by
    rintro d rfl
    cases hreplies
  have hheld : ∀ j q, s'.HeldBy q (.slot ⟨c.worker, j⟩) ↔
      s.HeldBy q (.slot ⟨c.worker, j⟩) := by
    intro j
    apply heldBy_slot_iff h.inv ha _ _ he
    · rintro rfl
      cases hreplies
    · rintro fd rfl
      cases hreplies
  cases hreply : a.reply? s with
  | none =>
      rw [Option.isSome_none, if_neg Bool.false_ne_true, ← hdues]
      funext j
      refine due_congr (hheld j) fun q _ => ?_
      rw [awaited_quiet hroute hreply he]
  | some reply =>
      obtain ⟨fd, f⟩ := reply
      obtain ⟨rfl, hf⟩ := hanswer fd f hreply
      obtain ⟨q, hq, -, hslot⟩ := heldBy_of_owing hdues
      have hconn : s.conns (s.clients c).clientFd = some q := (HeldBy.slot hq).2
      have hanswered := answered_reply hreply hconn hf.code he
      have hasked := asked_other hroute he
      rw [Option.isSome_some, if_pos rfl, owing_none]
      funext j
      show s'.due (.slot ⟨c.worker, j⟩) = none
      by_cases hany : ∃ p, s'.HeldBy p (.slot ⟨c.worker, j⟩)
      case neg =>
        push Not at hany
        exact due_eq_none hany
      obtain ⟨p, hp'⟩ := hany
      have hp := (hheld j p).mp hp'
      rw [due_of_heldBy hp', State.awaited, hasked, hanswered]
      by_cases hpq : p = q
      · subst hpq
        rw [Function.update_self]
        exact (h.paired p).waiting_reply f
      · rw [Function.update_of_ne hpq]
        have hj : j ≠ c.index := by
          rintro rfl
          exact hpq (Option.some.inj
            ((HeldBy.slot hp).2.symm.trans (HeldBy.slot hq).2))
        have hdue := due_owing hdues j
        rw [if_neg hj, due_of_heldBy hp] at hdue
        exact hdue

/-- An action that may reply to the client. -/
theorem Pays.replying {a : Act N C} {next : a.Answer → ServerProg N C α}
    (hreplies : a.isReply = true)
    (hanswer : ∀ s, s.clients c = r → ∀ fd f, a.reply? s = some (fd, f) →
      fd = r.clientFd ∧ AnswerTo request f)
    (hnext : ∀ s b s', ServerInv s → s.clients c = r →
      exec a s = some (b, s') → Pays c (s'.clients c)
        (if (a.reply? s).isSome then none else some request) (next b)) :
    Pays c r (some request) (.act a next) := by
  refine .act (fun s _ _ hr hdues => ?_) fun s b s' h ha hr hdues he => ?_
  · obtain ⟨q, hq, hawaited, hslot⟩ := heldBy_of_owing hdues
    refine ⟨fun fd f hreply => ?_, ?_, ?_, ?_⟩
    · obtain ⟨rfl, hf⟩ := hanswer s hr fd f hreply
      exact ⟨.slot c, request, rfl, by rw [hslot, hr],
        (due_of_heldBy hq).trans hawaited, hf⟩
    · rintro d (rfl | rfl)
      all_goals cases hreplies
    · rintro d rfl
      cases hreplies
    · rintro v fd ok rfl
      cases hreplies
  · refine ⟨_, dues_reply h ha hreplies ?_ hdues he, hnext s b s' h.inv hr he⟩
    rw [hr]
    exact hanswer s hr

theorem Pays.done (value : α) :
    Pays c r none (.ret value : ServerProg N C α) :=
  .of_rests (.of_all trivial)

/-- The reply. -/
theorem Pays.send {cmd : UInt8} {message : Bytes}
    (h : AnswerTo request (cmd, message)) :
    Pays c r (some request)
      (Server.act (.send r.clientFd cmd message) : ServerProg N C Unit) := by
  refine .replying rfl (fun s _ fd f hreply => ?_) fun s b s' _ _ _ => .done b
  cases hreply
  exact ⟨rfl, h⟩

/-! ### The handlers -/

theorem pays_listScan
    (hanswer : ∀ roomListMsg,
      AnswerTo (.message self) (cmdRoomListResponse, roomListMsg))
    (rooms : List (Fin maxRooms)) : ∀ (roomListMsg : Bytes) (roomsAvail : Bool),
      Pays c r (some (.message self))
        (listScan r.clientFd roomListMsg roomsAvail rooms) := by
  induction rooms with
  | nil =>
      intro roomListMsg roomsAvail
      cases roomsAvail with
      | true => exact .send (hanswer _)
      | false => exact .silent trivial fun _ _ _ _ _ => .send (hanswer _)
  | cons i rest ih =>
      intro roomListMsg roomsAvail
      refine .silent trivial fun _ b _ _ _ => ?_
      cases b with
      | none => exact ih _ _
      | some roomListMsg => exact ih _ _

theorem pays_sendAvailRooms
    (hanswer : ∀ roomListMsg,
      AnswerTo (.message self) (cmdRoomListResponse, roomListMsg)) :
    Pays c r (some (.message self)) (sendAvailRooms c) := by
  refine .silent trivial fun s b s' hr he => ?_
  cases he
  rw [hr]
  exact pays_listScan hanswer _ _ _

theorem pays_createScan {roomName successMsg : Bytes}
    (hcreated : AnswerTo (.message self) (cmdRoomCreateOk, successMsg))
    (hnone : AnswerTo (.message self) (errRoomCapacityFull,
      text "Room creation failed: Maximum number of rooms reached\n"))
    (rooms : List (Fin maxRooms)) :
    Pays c r (some (.message self))
      (createScan c r.clientFd roomName successMsg rooms) := by
  induction rooms with
  | nil => exact .send hnone
  | cons i rest ih =>
      refine .replying rfl (fun s hr fd f hreply => ?_)
        fun s b s' _ hr he => ?_
      · simp only [Act.reply?] at hreply
        split at hreply
        · cases hreply
        · cases hreply
          exact ⟨by rw [hr], hcreated⟩
      · rcases exec_createSection he with ⟨hu, rfl, rfl⟩ | ⟨hu, rfl, rfl⟩
        · simp only [Act.reply?, hu, if_true, Option.isSome_none,
            Bool.false_eq_true, if_false, hr]
          exact ih
        · simp only [Act.reply?, hu, Bool.false_eq_true, if_false,
            Option.isSome_some, if_true]
          exact .done _

theorem pays_createChatRoom
    (h : Accepted r .inChatLobby cmdRoomCreateRequest) :
    Pays c r (some (.message r)) (createChatRoom c) := by
  refine .silent trivial fun s b s' hr he => ?_
  cases he
  rw [hr]
  refine .silent trivial fun _ _ _ _ _ => ?_
  split
  · rename_i hlen
    exact .send (.roomNameTooLong h hlen)
  · rename_i hlen
    have hle := Nat.not_lt.mp hlen
    exact pays_createScan (.roomCreated h hle) (.noRoomLeft h hle) _

/-- `join_chat_room` always replies. -/
theorem Room.joinAnswer_isSome {room : Room N C} (h : room.Ok) :
    room.joinAnswer.isSome = true := by
  unfold Room.joinAnswer
  split
  · rfl
  split
  · rfl
  · rename_i hn
    obtain ⟨j, hj⟩ := h.freeSlot hn
    rw [hj]
    rfl

theorem Room.joinAnswer_mem {room : Room N C} {f : UInt8 × Bytes}
    (h : room.joinAnswer = some f) :
    f ∈ joinRefusals ∨ f = (cmdRoomJoinOk, text "Successfully joined room\n") := by
  unfold Room.joinAnswer at h
  split at h
  · cases h
    exact .inl List.mem_cons_self
  split at h
  · cases h
    exact .inl (List.mem_cons_of_mem _ List.mem_cons_self)
  · obtain ⟨j, -, rfl⟩ := Option.map_eq_some_iff.mp h
    exact .inr rfl

theorem pays_joinChatRoom (h : Accepted r .inChatLobby cmdRoomJoinRequest) :
    Pays c r (some (.message r)) (joinChatRoom c) := by
  refine .silent trivial fun s b s' hr he => ?_
  cases he
  rw [hr]
  refine .silent trivial fun _ _ _ _ _ => ?_
  cases hn : parseRoomNumber r.currentMsg with
  | none =>
      refine .send (.badRoomNumber h fun i => ?_)
      rw [hn]
      rintro ⟨⟩
  | some n =>
      dsimp only
      split
      · rename_i hlt
        have hnumber : parseRoomNumber r.currentMsg =
            some (⟨n, hlt⟩ : Fin maxRooms).val := hn
        refine .replying rfl (fun s hr fd f hreply => ?_)
          fun s b s' hinv _ _ => ?_
        · obtain ⟨answer, hanswer, hpair⟩ := Option.map_eq_some_iff.mp hreply
          cases hpair
          refine ⟨by rw [hr], ?_⟩
          rcases Room.joinAnswer_mem hanswer with hrefused | rfl
          · exact .joinRefused h _ hnumber hrefused
          · exact .joined h _ hnumber
        · have hsome : ((Act.joinSection ⟨n, hlt⟩ c
              (clientRoomJoinText r.name)).reply? s).isSome = true := by
            rw [Act.reply?, Option.isSome_map]
            exact Room.joinAnswer_isSome (hinv.rooms.ok _)
          rw [if_pos hsome]
          exact .done _
      · rename_i hge
        refine .send (.badRoomNumber h fun i hi => ?_)
        rw [hn] at hi
        cases hi
        exact hge i.isLt

theorem pays_handleAwaitingUsername
    (h : Accepted r .awaitingUsername cmdUsernameSubmit) :
    Pays c r (some (.message r)) (handleAwaitingUsername c r) := by
  unfold handleAwaitingUsername
  dsimp only
  split
  · rename_i hlen
    exact .send (.nameTooLong h hlen)
  · rename_i hlen
    have hle := Nat.not_lt.mp hlen
    refine .calm rfl (by rintro d ⟨⟩) fun s b s' _ _ => ?_
    refine .calm rfl (by rintro d ⟨⟩) fun s b s' _ _ => ?_
    exact pays_sendAvailRooms fun roomListMsg => .nameTaken h hle roomListMsg

theorem pays_handleInChatLobby (hr : refusal r = none)
    (hs : r.state = .inChatLobby) (hexit : command r.currentMsg ≠ cmdExit) :
    Pays c r (some (.message r)) (handleInChatLobby c r) := by
  unfold handleInChatLobby
  dsimp only
  rcases command_of_lobby hr hs hexit with hcmd | hcmd | hcmd
  · rw [if_pos hcmd]
    exact pays_createChatRoom ⟨hr, hs, hcmd⟩
  · rw [if_neg (by rw [hcmd]; decide), if_pos hcmd]
    exact pays_joinChatRoom ⟨hr, hs, hcmd⟩
  · rw [if_neg (by rw [hcmd]; decide), if_neg (by rw [hcmd]; decide),
      if_pos hcmd]
    exact pays_sendAvailRooms fun roomListMsg =>
      .listed ⟨hr, hs, hcmd⟩ roomListMsg

/-- A chat line is replied to by nothing. -/
theorem rests_chat (hcmd : command self.currentMsg = cmdRoomMessageSend) :
    Rests (.worker c.worker) (handleInChatRoom c self) := by
  unfold handleInChatRoom
  dsimp only
  rw [if_pos hcmd]
  exact .of_all ⟨rfl, fun _ => all_one rfl⟩

theorem pays_leave (h : Accepted r .inChatRoom cmdLeaveRoom) :
    Pays c r (some (.message r)) (handleInChatRoom c r) := by
  unfold handleInChatRoom
  dsimp only
  rw [if_neg (by rw [h.command]; decide)]
  refine .silent trivial fun _ _ _ _ _ => ?_
  refine .calm rfl (by rintro d ⟨⟩) fun s b s' hr he => ?_
  have hsame : s'.clients c = r := by
    rw [exec_leaveSection he]
    exact hr
  rw [hsame]
  refine .replying rfl (fun s hr fd f hreply => ?_) fun s b s' _ _ _ => ?_
  · cases hreply
    exact ⟨by rw [hr], .left h⟩
  · exact .of_rests (.of_all (all_one rfl))

theorem rests_handleClientDisconnection :
    Rests (.worker c.worker) (handleClientDisconnection c) := by
  have hcleanup : Prog.All (fun a : Act N C => a.isCalm = true)
      (cleanupClient c) :=
    ⟨rfl, fun _ => ⟨rfl, fun _ => ⟨rfl, fun _ => all_one rfl⟩⟩⟩
  rw [handleClientDisconnection_eq]
  refine .then rfl fun self => ?_
  split
  · exact .then rfl fun _ => .of_all hcleanup
  · exact .of_all hcleanup

theorem pays_dispatch :
    Pays c r (if Unanswered r then none else some (.message r))
      (dispatch c r) := by
  unfold dispatch
  cases hr : refusal r with
  | some answer =>
      have hnot : ¬ Unanswered r := by
        rintro ⟨hnone, -⟩
        rw [hr] at hnone
        cases hnone
      rw [if_neg hnot]
      exact .send (.refused hr)
  | none =>
      dsimp only
      unfold handleAccepted
      by_cases hexit : command r.currentMsg = cmdExit
      · rw [if_pos hexit, if_pos ⟨hr, .inl hexit⟩]
        exact .of_rests rests_handleClientDisconnection
      rw [if_neg hexit]
      have hsilent : ∀ {cmd}, command r.currentMsg = cmd →
          cmd ≠ cmdExit → cmd ≠ cmdRoomMessageSend → ¬ Unanswered r := by
        rintro cmd hcmd hne hne' ⟨-, hc | hc⟩
        · exact hne (hcmd.symm.trans hc)
        · exact hne' (hcmd.symm.trans hc)
      cases hs : r.state with
      | awaitingUsername =>
          have hcmd := command_of_awaiting hr hs hexit
          rw [if_neg (hsilent hcmd (by decide) (by decide))]
          exact pays_handleAwaitingUsername ⟨hr, hs, hcmd⟩
      | inChatLobby =>
          have hnot : ¬ Unanswered r := by
            rcases command_of_lobby hr hs hexit with hcmd | hcmd | hcmd
            all_goals exact hsilent hcmd (by decide) (by decide)
          rw [if_neg hnot]
          exact pays_handleInChatLobby hr hs hexit
      | inChatRoom =>
          rcases command_of_room hr hs hexit with hcmd | hcmd
          · rw [if_pos ⟨hr, .inr hcmd⟩]
            exact .of_rests (rests_chat hcmd)
          · rw [if_neg (hsilent hcmd (by decide) (by decide))]
            exact pays_leave ⟨hr, hs, hcmd⟩

/-! ### Messages and connections taken up -/

/-- The message handed over is all that waits for the worker. -/
theorem dues_route (h : Dialogue s)
    (ha : Allowed (.worker c.worker) s (.routeMessage c))
    (hnone : ∀ j, s.due (.slot ⟨c.worker, j⟩) = none)
    (he : exec (.routeMessage c) s = some (r, s')) :
    s'.dues (.worker c.worker) = owing c (if Unanswered (s.clients c) then none
      else some (.message (s.clients c))) := by
  have hheld : ∀ j q, s'.HeldBy q (.slot ⟨c.worker, j⟩) ↔
      s.HeldBy q (.slot ⟨c.worker, j⟩) := fun j =>
    heldBy_slot_iff h.inv ha (by rintro ⟨⟩) (by rintro fd ⟨⟩) he
  have hslot : s.holding (.slot c) = some (s.clients c).clientFd := by
    refine holding_slot ha.1.2 ?_
    rw [ha.2]
    rintro ⟨⟩
  obtain ⟨q, hq⟩ := h.inv.connected hslot
  have hc := heldBy_slot hslot hq
  have hasked := asked_route he hq
  have hanswered := answered_quiet rfl he
  have hbefore : s.awaited q = none := by
    rw [← due_of_heldBy hc]
    exact hnone c.index
  funext j
  rw [owing, Function.update_apply]
  show s'.due (.slot ⟨c.worker, j⟩) = _
  by_cases hj : j = c.index
  · subst hj
    rw [if_pos rfl, due_of_heldBy ((hheld c.index q).mpr hc), State.awaited,
      hasked, hanswered]
    split
    · exact hbefore
    · rw [Function.update_self]
      exact (h.paired q).waiting_ask hbefore _
  · rw [if_neg hj, ← hnone j]
    refine due_congr (hheld j) fun p hp => ?_
    have hpq : p ≠ q := by
      rintro rfl
      have hsame : (⟨c.worker, j⟩ : ClientPtr N C) = c :=
        h.inv.own.slot_inj hp hc
      exact hj (congrArg ClientPtr.index hsame)
    rw [State.awaited, hasked, hanswered]
    split
    · rfl
    · rw [Function.update_of_ne hpq]
      rfl

theorem rests_routeClientCommand :
    Rests (.worker c.worker) (routeClientCommand c) := by
  rw [routeClientCommand_eq]
  intro v g hg s _ h hv hghost _ ha
  have hnone : ∀ j, s.due (.slot ⟨c.worker, j⟩) = none :=
    congrFun (hghost.trans hg)
  refine ⟨⟨fun fd f hreply => ?_, ?_, ?_, ?_⟩, fun b s' he => ?_⟩
  · cases hreply
  · rintro d (hd | hd)
    · cases hd
      exact hnone c.index
    · cases hd
  · rintro d ⟨⟩
  · rintro w fd ok ⟨⟩
  · have hdues := dues_route h ha hnone he
    have hrecord : b = s.clients c ∧ s'.clients c = s.clients c := by
      rcases exec_routeMessage he with ⟨hb, ⟨-, rfl⟩ | ⟨line, -, rfl⟩⟩
      all_goals exact ⟨hb, rfl⟩
    rw [hrecord.1]
    exact pays_dispatch _ _ hrecord.2 hdues

theorem rests_messageLoop (fuel : Nat) :
    ∀ temp, Rests (.worker c.worker) (messageLoop c fuel temp) := by
  induction fuel with
  | zero => exact fun _ => .of_all trivial
  | succ fuel ih =>
      intro temp
      unfold messageLoop
      cases strstrTerminator temp with
      | some out =>
          exact .then rfl fun _ => rests_routeClientCommand.bind fun _ =>
            .then rfl fun _ => ih out.2
      | none =>
          dsimp only
          split
          · exact .of_all trivial
          · exact .of_all (all_one rfl)

/-- A new slot has to be welcomed. -/
theorem dues_allocated {fd : Fd} (h : Dialogue s)
    (ha : Allowed (.worker w) s (.allocateClientSlot w fd))
    (hnone : ∀ j, s.due (.slot ⟨w, j⟩) = none) {b : Bool}
    (he : exec (.allocateClientSlot w fd) s = some (b, s')) :
    b = false ∧ s'.dues (.worker w) = (fun _ => none) ∨
      ∃ j, b = true ∧ (s'.clients ⟨w, j⟩).clientFd = fd ∧
        s'.dues (.worker w) = owing ⟨w, j⟩ (some .connect) := by
  have hpoint : s.point w = .registered fd := ha.2
  have hawaited := awaited_quiet (by rintro c ⟨⟩) rfl he
  have hconns : s'.conns = s.conns := by
    rcases exec_allocateClientSlot he with ⟨-, -, rfl⟩ | ⟨j, -, -, rfl⟩ <;> rfl
  have hsame : ∀ k, s'.slotFd ⟨w, k⟩ = s.slotFd ⟨w, k⟩ →
      s'.due (.slot ⟨w, k⟩) = none := by
    intro k hslot
    rw [← hnone k]
    simp only [State.due, State.holding, hslot, hconns, hawaited]
  rcases exec_allocateClientSlot he with ⟨-, hb, hs'⟩ | ⟨j, -, hb, hs'⟩
  · refine .inl ⟨hb, funext fun k => hsame k ?_⟩
    rw [hs']
    simp only [State.slotFd, Function.update_self, hpoint, WorkerPoint.closing]
  have hclients : s'.clients =
      Function.update s.clients ⟨w, j⟩ (Client.fresh fd) := by
    rw [hs']
  have hpoint' : s'.point w = .idle := by
    rw [hs']
    exact Function.update_self _ _ _
  have hfresh : s'.clients ⟨w, j⟩ = Client.fresh fd := by
    rw [hclients, Function.update_self]
  refine .inr ⟨j, hb, by rw [hfresh]; rfl, funext fun k => ?_⟩
  rw [owing, Function.update_apply]
  by_cases hk : k = j
  · -- The descriptor waited with the worker and was not welcomed.
    have hworker : s.holding (.worker w) = some fd := by
      simp only [State.holding, hpoint, WorkerPoint.fd?]
    obtain ⟨q, hq⟩ := h.inv.own.owned.known _ _ hworker
    have hwaits := h.waiting (.worker w) q rfl ⟨fd, hworker, hq⟩
    have hslot : s'.holding (.slot ⟨w, k⟩) = some fd := by
      simp only [State.holding, State.slotFd, hk, hfresh, hpoint']
      rfl
    rw [if_pos hk, ← hwaits, ← hawaited]
    exact due_of_heldBy ⟨fd, hslot, by rw [hconns, hq]⟩
  · rw [if_neg hk]
    refine hsame k ?_
    have hne : (⟨w, k⟩ : ClientPtr N C) ≠ ⟨w, j⟩ := by
      simpa using hk
    simp only [State.slotFd, hclients, Function.update_of_ne hne, hpoint,
      hpoint', WorkerPoint.closing]

theorem rests_setUpClient (fd : Fd) (epollOk : Bool) :
    Rests (.worker w) (setUpClient w fd epollOk : ServerProg N C Unit) := by
  have hrefused : Rests (.worker w)
      (act (.subtractRefused w fd) >>= fun _ => act (.closeRefused w fd) :
        ServerProg N C Unit) :=
    .of_all ⟨rfl, fun _ => all_one rfl⟩
  refine .then rfl fun registered => ?_
  cases registered with
  | false => exact hrefused
  | true =>
      intro v g hg s _ h hv hghost _ ha
      have hnone : ∀ j, s.due (.slot ⟨w, j⟩) = none :=
        congrFun (hghost.trans hg)
      refine ⟨⟨fun fd f hreply => ?_, ?_, ?_, ?_⟩, fun b s' he => ?_⟩
      · cases hreply
      · rintro d (hd | hd)
        all_goals cases hd
      · rintro d ⟨⟩
      · rintro w fd ok ⟨⟩
      · rcases dues_allocated h ha hnone he with
          ⟨rfl, hdues⟩ | ⟨j, rfl, hfd, hdues⟩
        · exact hrefused _ _ hdues
        · have hsend := Pays.send (N := N) (c := ⟨w, j⟩)
            (r := s'.clients ⟨w, j⟩) .welcome
          rw [hfd] at hsend
          exact hsend _ _ rfl hdues

theorem rests_registerNewClient (readOk epollOk : Bool) :
    Rests (.worker w)
      (registerNewClient w readOk epollOk : ServerProg N C Unit) := by
  rw [registerNewClient_eq]
  refine .then rfl fun answer => ?_
  cases answer with
  | none => exact .of_all ⟨rfl, fun _ => all_one rfl⟩
  | some fd => exact .then rfl fun _ => rests_setUpClient fd epollOk

end Worker

/-! ## The main thread -/

/-- Executed while the main thread holds the descriptor of a connection that
waits to be let in, the program ends as `Q` says. -/
def Greets (fd : Fd) {α : Type} (prog : ServerProg N C α)
    (Q : α → View N C .main → Dues N C .main → Prop) : Prop :=
  ∀ (v : View N C .main) (g : Dues N C .main),
    MainPoint.fd? v = some fd → g = some .connect →
    (conversing N C).Flows .main Q prog v g

section Main

variable {s s' : State N C} {fd : Fd} {a : Act N C} {b : a.Answer}
  {α β : Type}

theorem courteous_main (ha : a.isMain = true)
    (hpassedOn : ∀ w fd ok, a = .writeEventfd w fd ok →
      s.due .main = some .connect) : a.Courteous .main s := by
  refine ⟨fun fd f hreply => ?_, ?_, ?_, hpassedOn⟩
  · cases a <;> simp only [Act.isMain, Bool.false_eq_true] at ha
    all_goals cases hreply
  · rintro c (rfl | rfl)
    all_goals cases ha
  · rintro c rfl
    cases ha

theorem due_main_released (h : s.main.fd? = none) : s.due .main = none := by
  show (s.main.fd?).bind _ = none
  rw [h]
  rfl

/-- An action of the main thread that keeps its descriptor. -/
theorem due_main_kept (ha : a.isMain = true) (hcloses : a.closes s = none)
    (haccept : ∀ fd, a ≠ .accept fd) (hfd : s'.main.fd? = s.main.fd?)
    (he : exec a s = some (b, s')) : s'.due .main = s.due .main := by
  have hreply : a.reply? s = none := by
    cases a <;> first | rfl | cases ha
  have hawaited := awaited_quiet (by rintro c rfl; cases ha) hreply he
  have hconns : s'.conns = s.conns := by
    rcases exec_conns he with ⟨fd', rfl, -⟩ | ⟨-, ⟨-, hsame⟩ | ⟨fd', hfd', -⟩⟩
    · exact absurd rfl (haccept fd')
    · exact hsame
    · rw [hcloses] at hfd'
      cases hfd'
  simp only [State.due, State.holding, hfd, hconns, hawaited]

namespace Greets

variable {Q : α → View N C .main → Dues N C .main → Prop}

theorem act {next : a.Answer → ServerProg N C α} (ha : a.isMain = true)
    (hnext : ∀ s b s', Allowed .main s a → s.main.fd? = some fd →
      s.due .main = some .connect → exec a s = some (b, s') →
      (conversing N C).Flows .main Q (next b) s'.main (s'.due .main)) :
    Greets fd (.act a next) Q := by
  intro v g hv hg s _ h hview hghost _ hallowed
  have hdue : s.due .main = some .connect := hghost.trans hg
  refine ⟨courteous_main ha fun _ _ _ _ => hdue, fun b s' he => ?_⟩
  refine hnext s b s' hallowed ?_ hdue he
  rw [← hv, ← hview]
  rfl

/-- An action that keeps the descriptor and closes nothing. -/
theorem keep {next : a.Answer → ServerProg N C α} (ha : a.isMain = true)
    (hcloses : ∀ s : State N C, a.closes s = none)
    (haccept : ∀ fd, a ≠ .accept fd)
    (hfd : ∀ s b s', Allowed .main s a → exec a s = some (b, s') →
      s'.main.fd? = s.main.fd?)
    (hnext : ∀ b, Greets fd (next b) Q) : Greets fd (.act a next) Q := by
  refine .act ha fun s b s' hallowed hmain hdue he => ?_
  have hsame := hfd s b s' hallowed he
  exact hnext b _ _ (hsame.trans hmain)
    ((due_main_kept ha (hcloses s) haccept hsame he).trans hdue)

/-- The reply of the main thread. -/
theorem send {cmd : UInt8} {message : Bytes} {k : Unit → ServerProg N C α}
    (hanswer : AnswerTo .connect (cmd, message))
    (hnext : ∀ v g, (conversing N C).Flows .main Q (k ()) v g) :
    Greets fd (Server.act (.send fd cmd message) >>= k) Q := by
  intro v g hv hg s _ h hview hghost _ hallowed
  have hdue : s.due .main = some .connect := hghost.trans hg
  refine ⟨⟨fun fd' f hreply => ?_, ?_, ?_, ?_⟩, fun b s' he => hnext _ _⟩
  · cases hreply
    refine ⟨.main, .connect, rfl, ?_, hdue, hanswer⟩
    rw [← hv, ← hview]
    rfl
  · rintro c (hc | hc)
    all_goals cases hc
  · rintro c ⟨⟩
  · rintro w fd ok ⟨⟩

end Greets

/-- An action after which the main thread holds nothing. -/
theorem flows_released {Q : α → View N C .main → Dues N C .main → Prop}
    {next : a.Answer → ServerProg N C α} (ha : a.isMain = true)
    (hwrite : ∀ w fd ok, a ≠ .writeEventfd w fd ok)
    (hfd : ∀ s b s', exec a s = some (b, s') → s'.main.fd? = none)
    (hnext : ∀ b v, (conversing N C).Flows .main Q (next b) v none)
    (v : View N C .main) (g : Dues N C .main) :
    (conversing N C).Flows .main Q (.act a next) v g := by
  intro s _ _ _ _ _ _
  refine ⟨courteous_main ha fun w fd ok hact => absurd hact (hwrite w fd ok),
    fun b s' he => ?_⟩
  have hdue := due_main_released (hfd s b s' he)
  show (conversing N C).Flows .main Q (next b) _ (s'.due .main)
  rw [hdue]
  exact hnext b _

theorem greets_findWorkerLoop (fd : Fd) (left : Nat) :
    Greets fd (findWorkerLoop fd left : ServerProg N C (Option (Fin N)))
      fun _ v g => MainPoint.fd? v = some fd ∧ g = some .connect := by
  have hround : ∀ retry : ServerProg N C (Option (Fin N)),
      Greets fd retry (fun _ v g => MainPoint.fd? v = some fd ∧
        g = some .connect) →
      Greets fd (findWorkerRound fd retry) fun _ v g =>
        MainPoint.fd? v = some fd ∧ g = some .connect := by
    intro retry hretry
    refine .keep rfl (fun _ => rfl) (by rintro fd ⟨⟩) ?_ fun answer => ?_
    · rintro s b s' ha he
      rcases exec_inspectWorker he with ⟨-, -, rfl⟩ | ⟨-, -, rfl⟩
      · rfl
      · rw [ha.2]
        rfl
    cases answer with
    | none =>
        refine .keep rfl (fun _ => rfl) (by rintro fd ⟨⟩) ?_ fun _ => hretry
        rintro s b s' - he
        cases he
        rfl
    | some w =>
        refine .keep rfl (fun _ => rfl) (by rintro fd ⟨⟩) ?_ fun _ => ?_
        · rintro s b s' - he
          cases he
          rfl
        · exact fun v g hv hg => ⟨hv, hg⟩
  induction left with
  | zero => exact hround _ fun v g hv hg => ⟨hv, hg⟩
  | succ left ih => exact hround _ ih

/-- A connection that cannot be passed on is told so. -/
theorem greets_writeClient (w : Fin N) (fd : Fd) (writeOk : Bool) :
    Greets fd (writeClient w fd writeOk : ServerProg N C Unit)
      fun _ _ => NothingDue N C .main := by
  refine .act rfl fun s b s' ha hmain hdue he => ?_
  rcases exec_writeEventfd he with ⟨-, rfl, hs'⟩ | ⟨-, rfl, hs'⟩
  · refine due_main_released ?_
    rw [hs']
    rfl
  · have hkept : s'.main.fd? = s.main.fd? := by
      rw [hs', ha.2]
      rfl
    have hdue' := (due_main_kept rfl rfl (by rintro fd ⟨⟩) hkept he).trans
      hdue
    refine Greets.keep rfl (fun _ => rfl) (by rintro fd ⟨⟩) ?_ ?_ _ _
      (hkept.trans hmain) hdue'
    · rintro s b s' ha he
      cases he
      rw [ha.2]
      rfl
    intro _
    refine .send .notPassedOn ?_
    refine flows_released rfl (by rintro w fd ok ⟨⟩) ?_ fun _ v => ?_
    · rintro s b s' he
      cases he
      rfl
    refine flows_released rfl (by rintro w fd ok ⟨⟩) ?_ ?_ v none
    · rintro s b s' he
      cases he
      rfl
    · exact fun _ _ => rfl

/-- A connection that is not passed on is told so before it is closed. -/
theorem greets_distributeClient (fd : Fd) (writeOk : Bool) :
    Greets fd (distributeClient fd writeOk : ServerProg N C Unit)
      fun _ _ => NothingDue N C .main := by
  rw [distributeClient_eq]
  intro v g hv hg
  refine (greets_findWorkerLoop fd N v g hv hg).bind ?_
  rintro found v g ⟨hv, hg⟩
  cases found with
  | none =>
      refine Greets.send .serverFull ?_ v g hv hg
      refine flows_released rfl (by rintro w fd ok ⟨⟩) ?_ ?_
      · rintro s b s' he
        cases he
        rfl
      · exact fun _ _ => rfl
  | some w =>
      refine Greets.keep rfl (fun _ => rfl) (by rintro fd ⟨⟩) ?_ ?_ v g hv hg
      · rintro s b s' ha he
        rw [(exec_semWait he).2, ha.2]
        rfl
      exact fun _ => greets_writeClient w fd writeOk

theorem flows_acceptClient (fd : Fd) (keepAliveOk writeOk : Bool)
    (v : View N C .main) (g : Dues N C .main) :
    (conversing N C).Flows .main (fun _ _ => NothingDue N C .main)
      (acceptClient fd keepAliveOk writeOk) v g := by
  intro s _ h _ _ _ _
  refine ⟨courteous_main rfl (by rintro w fd ok ⟨⟩), fun b s' he => ?_⟩
  have hawaited := awaited_quiet (a := .accept fd) (by rintro c ⟨⟩) rfl he
  obtain ⟨-, -, hs'⟩ := exec_accept he
  have hdue : s'.due .main = some .connect := by
    have hheld : s'.HeldBy s.accepted .main := by
      rw [hs']
      exact ⟨fd, rfl, Function.update_self _ _ _⟩
    rw [due_of_heldBy hheld, hawaited]
    exact h.future _ (Nat.le_refl _)
  have hmain : s'.main.fd? = some fd := by
    rw [hs']
    rfl
  refine Greets.act rfl ?_ _ _ hmain hdue
  intro s b s' ha hmain hdue he
  rcases exec_setSocketKeepAlive he with ⟨-, rfl, rfl⟩ | ⟨-, rfl, rfl⟩
  · exact greets_distributeClient fd writeOk _ _ hmain hdue
  · exact due_main_released rfl

end Main

/-! ## Over whole runs -/

theorem rests_job (t : Thread N) (j : Job N C) (s : State N C)
    (hok : LiveOk s (.start t j)) : Rests t (jobProg t j) := by
  obtain ⟨hevent, -⟩ := hok
  cases j with
  | accept fd keepAliveOk writeOk =>
      cases t with
      | main => exact fun v g _ => flows_acceptClient fd keepAliveOk writeOk v g
      | worker w => exact .of_all trivial
  | register readOk epollOk =>
      cases t with
      | main => exact fun _ _ hg => hg
      | worker w => exact rests_registerNewClient readOk epollOk
  | receive client result =>
      obtain ⟨⟨rfl, -⟩, -⟩ := hevent
      cases result with
      | nothing wouldBlock =>
          cases wouldBlock with
          | true => exact .of_all trivial
          | false => exact rests_handleClientDisconnection
      | data bytes => exact rests_messageLoop _ _
  | hangUp client =>
      obtain ⟨rfl, -⟩ := hevent
      exact rests_handleClientDisconnection

/-- How the dialogue with a connection stands. -/
structure Conversed (k : Configuration N C) (q : Conn) : Prop where
  /-- The replies are those of the requests, one by one and in their order,
  and at most one request waits. -/
  paired : Exchange AnswerTo (k.shared.asked q) (k.shared.answered q)
  /-- The first frame of all is a reply: no notice of a room comes before. -/
  greeted : (framesTo q k.shared.calls).head? = (k.shared.answered q).head?
  /-- A message waits only while the worker of its client is at work. -/
  working : ∀ record, k.shared.awaited q = some (.message record) →
    ∃ c, k.shared.HeldBy q (.slot c) ∧ k.prog (.worker c.worker) ≠ .ret ()
  /-- A worker with nothing to do has replied to all its clients. -/
  settled : ∀ c, k.shared.HeldBy q (.slot c) →
    k.prog (.worker c.worker) = .ret () → k.shared.awaited q = none

section Runs

variable [NeZero N] {ls : List (Step N C)} {k : Configuration N C}

theorem conversing_init :
    (conversing N C).contract.Sound
      (fun t w => idleView t w.1 ∧ NothingDue N C t w.2)
      (Configuration.init N C) := by
  have hnone : ∀ d : Holder N C, (State.init N C).due d = none := fun d =>
    due_eq_none (by rintro q ⟨fd, -, hq⟩; cases hq)
  refine ⟨⟨trivial, .init⟩, fun t => ?_⟩
  cases t with
  | main => exact ⟨rfl, hnone .main⟩
  | worker w => exact ⟨rfl, funext fun j => hnone (.slot ⟨w, j⟩)⟩

theorem conversing_sound
    (hrun : (server N C).Run ReadsSucceed (Configuration.init N C) ls k) :
    (conversing N C).contract.Sound
      (fun t w => idleView t w.1 ∧ NothingDue N C t w.2) k := by
  refine @Contract.Extension.sound _ _ _ _ _ (server N C) _ _ _ _
    (conversing N C) (fun t => idleView t) (fun t _ => NothingDue N C t)
    (fun t j s _ => safe_job t j s) ?_ _ _ conversing_init _ hrun
  intro t j s _ _ _ hsettled hok
  exact rests_job t j s hok.1 _ _ hsettled

/-- **The dialogue with each client.**  In every run, whatever the order of the
threads' steps, each connection is replied to as the protocol says, once for
each of its requests and in their order, beginning with the welcome or the
refusal; a request waits for its reply only while the thread that took it up is
at work on it. -/
theorem dialogue_run
    (hrun : (server N C).Run ReadsSucceed (Configuration.init N C) ls k)
    (q : Conn) : Conversed k q := by
  have hsound := conversing_sound hrun
  have hdialogue : Dialogue k.shared := hsound.inv.2
  have hsettled : ∀ c, k.shared.HeldBy q (.slot c) →
      k.prog (.worker c.worker) = .ret () → k.shared.awaited q = none := by
    intro c hc hidle
    have hdues : k.shared.dues (.worker c.worker) = fun _ => none :=
      (hsound.idle_view hidle).2
    rw [← due_of_heldBy hc]
    exact congrFun hdues c.index
  refine ⟨hdialogue.paired q, hdialogue.greeted q, fun record hawaited => ?_,
    hsettled⟩
  obtain ⟨c, hc⟩ := hdialogue.served q record hawaited
  refine ⟨c, hc, fun hidle => ?_⟩
  rw [hsettled c hc hidle] at hawaited
  cases hawaited

end Runs

/-- One client that takes a name and opens a room. -/
theorem dialogue_bob : ∃ s : RealState,
    play (State.init _ _) (opensRoom 0 (text "bob") (text "den")) = some s ∧
      (s.asked 0).length = 3 ∧
      (s.answered 0).map Prod.fst =
        [cmdWelcomeRequest, cmdRoomListResponse, cmdRoomCreateOk] ∧
      Conversed (quiet s) 0 := by
  have hplay : (play (State.init maxThreads maxClientsPerThread)
      (opensRoom 0 (text "bob") (text "den"))).map
        (fun s => ((s.asked 0).length, (s.answered 0).map Prod.fst)) =
      some (3, [cmdWelcomeRequest, cmdRoomListResponse, cmdRoomCreateOk]) := by
    decide +kernel
  obtain ⟨s, hs, hfacts⟩ := Option.map_eq_some_iff.mp hplay
  obtain ⟨hasked, hanswered⟩ := Prod.mk.inj hfacts
  obtain ⟨ls, hrun⟩ := play_reaches hs
  exact ⟨s, hs, hasked, hanswered, dialogue_run hrun 0⟩

end ChatApp.Server
