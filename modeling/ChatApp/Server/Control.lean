import ChatApp.Server.Effects

/-!
# Where each thread is when it performs an action

The contract of the server.  A worker alone changes the client records in its
table and its own program point; the main thread alone changes its own point.
`Allowed` is what an action may rely on when it is performed: whose it is, the
program point, and for the room operations the liveness and the state of the
client.

`control_sound` is the one result the invariants are derived from: in every
run in which nothing complete follows a `CMD_EXIT` in a chunk, every action is
allowed when it is performed.
-/

namespace ChatApp.Server

open ChatApp.Foundation

variable {N C : Nat}

/-! ## Views and preconditions -/

/-- The part of the state that only the given thread changes. -/
abbrev View (N C : Nat) : Thread N → Type
  | .main => MainPoint N
  | .worker _ => (Fin C → Client) × WorkerPoint C

def view : (t : Thread N) → State N C → View N C t
  | .main, s => s.main
  | .worker w, s => (fun j => s.clients ⟨w, j⟩, s.point w)

/-- A client that its worker handles; `live` says what is known of its
`in_use` flag. -/
def Handled (live : Bool → Prop) (s : State N C) (t : Thread N)
    (c : ClientPtr N C) : Prop :=
  t = .worker c.worker ∧ live (s.clients c).inUse

/-- The client is in the given state and its worker has just taken it up. -/
def ReadyOf (live : Bool → Prop) (s : State N C) (t : Thread N)
    (c : ClientPtr N C) (state : ClientState) : Prop :=
  Handled live s t c ∧ (s.clients c).state = state ∧ s.point c.worker = .idle

/-- The client is in no room any more, or it never was in one. -/
def DetachedOf (live : Bool → Prop) (s : State N C) (t : Thread N)
    (c : ClientPtr N C) : Prop :=
  Handled live s t c ∧
    ((s.clients c).state ≠ .inChatRoom ∧ s.point c.worker = .idle ∨
      s.point c.worker = .left c.index)

/-- What holds when thread `t` performs an action, `live` being known of the
records it handles. -/
def AllowedOf (live : Bool → Prop) (t : Thread N) (s : State N C) :
    Act N C → Prop
  | .readClient _ | .sprintf .. | .listSection .. => True
  | .send _ cmdType _ => cmdType ≠ cmdRoomMsg
  | .strcatCurrentMsg c _ | .clearCurrentMsg c => t = .worker c.worker
  | .routeMessage c => Handled live s t c ∧ s.point c.worker = .idle
  | .strcpyName c name =>
      ReadyOf live s t c .awaitingUsername ∧ name.length ≤ maxUsernameLen
  | .setLobby c =>
      ReadyOf live s t c .awaitingUsername ∨
        Handled live s t c ∧ s.point c.worker = .left c.index
  | .createSection _ c roomName _ =>
      ReadyOf live s t c .inChatLobby ∧ roomName.length ≤ maxRoomNameLen
  | .joinSection _ c _ => ReadyOf live s t c .inChatLobby
  | .chatSection i c msg =>
      Handled live s t c ∧ (s.clients c).state = .inChatRoom ∧
        (s.clients c).roomIndex = i ∧
        s.point c.worker = .sending c.index msg
  | .leaveSection i c =>
      ReadyOf live s t c .inChatRoom ∧ (s.clients c).roomIndex = i
  | .leaveOkSection _ c =>
      Handled live s t c ∧ s.point c.worker = .left c.index
  | .epollDel c | .closeClient c => DetachedOf live s t c
  | .zeroClient c =>
      Handled live s t c ∧ s.point c.worker = .closed c.index
  | .subtractZeroed w => t = .worker w ∧ s.point w = .zeroed
  | .readEventfd w _ => t = .worker w ∧ s.point w = .idle
  | .subtractUnread w | .postUnread w => t = .worker w ∧ s.point w = .unread
  | .semPost w fd => t = .worker w ∧ s.point w = .picked fd
  | .registerWithEpoll w fd _ => t = .worker w ∧ s.point w = .posted fd
  | .allocateClientSlot w fd => t = .worker w ∧ s.point w = .registered fd
  | .subtractRefused w fd => t = .worker w ∧ s.point w = .refused fd
  | .closeRefused w fd => t = .worker w ∧ s.point w = .dropping fd
  | .accept _ => t = .main ∧ s.main = .idle
  | .setSocketKeepAlive fd _ | .inspectWorker fd | .closeRejected fd =>
      t = .main ∧ s.main = .accepted fd
  | .advanceIndex => t = .main
  | .semWait w fd => t = .main ∧ s.main = .assigned w fd
  | .writeEventfd w fd _ => t = .main ∧ s.main = .writing w fd
  | .postFailed w fd => t = .main ∧ s.main = .failed w fd
  | .closeFailed w fd => t = .main ∧ s.main = .posted w fd
  | .subtractFailed w => t = .main ∧ s.main = .closed w

/-- The clients that are handled are live. -/
abbrev Live (inUse : Bool) : Prop := inUse = true

/-- Also a client that was released is handled, for the messages that follow
its `CMD_EXIT` in the same chunk. -/
abbrev Any (_inUse : Bool) : Prop := True

/-- A live client in the given state whose worker has just taken it up. -/
abbrev Ready (s : State N C) (t : Thread N) (c : ClientPtr N C)
    (state : ClientState) : Prop :=
  ReadyOf Live s t c state

/-- What holds when thread `t` performs an action for live clients only. -/
abbrev Allowed (t : Thread N) (s : State N C) (a : Act N C) : Prop :=
  AllowedOf Live t s a

/-! ## What an action changes -/

/-- The worker whose records and program point the action may change. -/
def Act.worker? : Act N C → Option (Fin N)
  | .strcatCurrentMsg c _ | .clearCurrentMsg c | .routeMessage c
  | .strcpyName c _ | .setLobby c | .createSection _ c _ _
  | .joinSection _ c _ | .chatSection _ c _ | .leaveSection _ c
  | .closeClient c | .zeroClient c => some c.worker
  | .subtractZeroed w | .readEventfd w _ | .postUnread w | .semPost w _
  | .registerWithEpoll w _ _ | .allocateClientSlot w _
  | .subtractRefused w _ | .closeRefused w _ => some w
  | _ => none

/-- The action belongs to the main thread. -/
def Act.isMain : Act N C → Bool
  | .accept _ | .setSocketKeepAlive .. | .inspectWorker _ | .advanceIndex
  | .closeRejected _ | .semWait .. | .writeEventfd .. | .postFailed ..
  | .closeFailed .. | .subtractFailed _ => true
  | _ => false

/-- An action of a worker leaves the records of the others alone. -/
theorem exec_clients_of_ne {a : Act N C} {s s' : State N C} {b : a.Answer}
    {c : ClientPtr N C} (hc : a.worker? ≠ some c.worker)
    (he : exec a s = some (b, s')) : s'.clients c = s.clients c := by
  have hne : ∀ d : ClientPtr N C, d.worker ≠ c.worker → c ≠ d := by
    rintro d hd rfl
    exact hd rfl
  cases a <;> simp only [Act.worker?, ne_eq, Option.some.injEq,
    reduceCtorEq, not_false_eq_true] at hc
  case createSection i d roomName successMsg =>
    obtain ⟨-, -, rfl⟩ | ⟨-, -, rfl⟩ := exec_createSection he
    · rfl
    · exact Function.update_of_ne (hne d hc) _ _
  case joinSection i d joinMsg =>
    obtain ⟨r, -, rfl⟩ | rfl | ⟨j, -, -, rfl⟩ := exec_joinSection he
    · rfl
    · rfl
    · exact Function.update_of_ne (hne d hc) _ _
  case chatSection i d msg => rw [exec_chatSection he]; rfl
  case leaveSection i d => rw [exec_leaveSection he]; rfl
  case listSection i msg =>
    obtain ⟨-, -, rfl⟩ | ⟨-, -, rfl⟩ := exec_listSection he <;> rfl
  case readEventfd w ok =>
    obtain ⟨-, -, -, rfl⟩ | ⟨-, -, rfl⟩ := exec_readEventfd he <;> rfl
  case registerWithEpoll w fd ok =>
    obtain ⟨-, -, rfl⟩ | ⟨-, -, rfl⟩ := exec_registerWithEpoll he <;> rfl
  case allocateClientSlot w fd =>
    obtain ⟨-, -, rfl⟩ | ⟨j, -, -, rfl⟩ := exec_allocateClientSlot he
    · rfl
    · exact Function.update_of_ne (hne ⟨w, j⟩ hc) _ _
  case accept fd => rw [(exec_accept he).2.2]
  case setSocketKeepAlive fd ok =>
    obtain ⟨-, -, rfl⟩ | ⟨-, -, rfl⟩ := exec_setSocketKeepAlive he <;> rfl
  case inspectWorker fd =>
    obtain ⟨-, -, rfl⟩ | ⟨-, -, rfl⟩ := exec_inspectWorker he <;> rfl
  case semWait w fd => rw [(exec_semWait he).2]
  case writeEventfd w fd ok =>
    obtain ⟨-, -, rfl⟩ | ⟨-, -, rfl⟩ := exec_writeEventfd he <;> rfl
  all_goals cases he
  all_goals first | rfl | exact Function.update_of_ne (hne _ hc) _ _

/-- An action of a worker leaves the program points of the others alone. -/
theorem exec_point_of_ne {a : Act N C} {s s' : State N C} {b : a.Answer}
    {w : Fin N} (hw : a.worker? ≠ some w)
    (he : exec a s = some (b, s')) : s'.point w = s.point w := by
  cases a <;> simp only [Act.worker?, ne_eq, Option.some.injEq,
    reduceCtorEq, not_false_eq_true] at hw
  case createSection i d roomName successMsg =>
    obtain ⟨-, -, rfl⟩ | ⟨-, -, rfl⟩ := exec_createSection he <;> rfl
  case joinSection i d joinMsg =>
    obtain ⟨r, -, rfl⟩ | rfl | ⟨j, -, -, rfl⟩ := exec_joinSection he <;> rfl
  case chatSection i d msg =>
    rw [exec_chatSection he]
    exact Function.update_of_ne (Ne.symm hw) _ _
  case leaveSection i d =>
    rw [exec_leaveSection he]
    exact Function.update_of_ne (Ne.symm hw) _ _
  case routeMessage d =>
    obtain ⟨-, ⟨-, rfl⟩ | ⟨line, -, rfl⟩⟩ := exec_routeMessage he
    · rfl
    · exact Function.update_of_ne (Ne.symm hw) _ _
  case readEventfd w ok =>
    obtain ⟨-, -, -, rfl⟩ | ⟨-, -, rfl⟩ := exec_readEventfd he
    all_goals exact Function.update_of_ne (Ne.symm hw) _ _
  case registerWithEpoll w fd ok =>
    obtain ⟨-, -, rfl⟩ | ⟨-, -, rfl⟩ := exec_registerWithEpoll he
    all_goals exact Function.update_of_ne (Ne.symm hw) _ _
  case allocateClientSlot w fd =>
    obtain ⟨-, -, rfl⟩ | ⟨j, -, -, rfl⟩ := exec_allocateClientSlot he
    all_goals exact Function.update_of_ne (Ne.symm hw) _ _
  case listSection i msg =>
    obtain ⟨-, -, rfl⟩ | ⟨-, -, rfl⟩ := exec_listSection he <;> rfl
  case accept fd => rw [(exec_accept he).2.2]
  case setSocketKeepAlive fd ok =>
    obtain ⟨-, -, rfl⟩ | ⟨-, -, rfl⟩ := exec_setSocketKeepAlive he <;> rfl
  case inspectWorker fd =>
    obtain ⟨-, -, rfl⟩ | ⟨-, -, rfl⟩ := exec_inspectWorker he <;> rfl
  case semWait w fd => rw [(exec_semWait he).2]
  case writeEventfd w fd ok =>
    obtain ⟨-, -, rfl⟩ | ⟨-, -, rfl⟩ := exec_writeEventfd he <;> rfl
  all_goals cases he
  all_goals first | rfl | exact Function.update_of_ne (Ne.symm hw) _ _

/-- An action of a worker leaves the program point of the main thread
alone. -/
theorem exec_main {a : Act N C} {s s' : State N C} {b : a.Answer}
    (ha : a.isMain = false) (he : exec a s = some (b, s')) :
    s'.main = s.main := by
  cases a <;> simp only [Act.isMain, Bool.true_eq_false] at ha
  case createSection i d roomName successMsg =>
    obtain ⟨-, -, rfl⟩ | ⟨-, -, rfl⟩ := exec_createSection he <;> rfl
  case joinSection i d joinMsg =>
    obtain ⟨r, -, rfl⟩ | rfl | ⟨j, -, -, rfl⟩ := exec_joinSection he <;> rfl
  case chatSection i d msg => rw [exec_chatSection he]; rfl
  case leaveSection i d => rw [exec_leaveSection he]; rfl
  case listSection i msg =>
    obtain ⟨-, -, rfl⟩ | ⟨-, -, rfl⟩ := exec_listSection he <;> rfl
  case readEventfd w ok =>
    obtain ⟨-, -, -, rfl⟩ | ⟨-, -, rfl⟩ := exec_readEventfd he <;> rfl
  case registerWithEpoll w fd ok =>
    obtain ⟨-, -, rfl⟩ | ⟨-, -, rfl⟩ := exec_registerWithEpoll he <;> rfl
  case allocateClientSlot w fd =>
    obtain ⟨-, -, rfl⟩ | ⟨j, -, -, rfl⟩ := exec_allocateClientSlot he <;> rfl
  all_goals
    cases he
    rfl

theorem AllowedOf.owner {live : Bool → Prop} {t : Thread N} {s : State N C}
    {a : Act N C} {w : Fin N} (h : AllowedOf live t s a)
    (hw : a.worker? = some w) : t = .worker w := by
  cases a <;> simp only [Act.worker?, Option.some.injEq, reduceCtorEq] at hw
  all_goals subst hw
  all_goals simp only [AllowedOf, ReadyOf, DetachedOf, Handled] at h
  case setLobby c => exact h.elim (fun h => h.1.1) fun h => h.1.1
  case strcatCurrentMsg => exact h
  case clearCurrentMsg => exact h
  case routeMessage => exact h.1.1
  case strcpyName => exact h.1.1.1
  case createSection => exact h.1.1.1
  case joinSection => exact h.1.1
  case chatSection => exact h.1.1
  case leaveSection => exact h.1.1.1
  case closeClient => exact h.1.1
  case zeroClient => exact h.1.1
  all_goals exact h.1

theorem AllowedOf.main {live : Bool → Prop} {t : Thread N} {s : State N C}
    {a : Act N C} (h : AllowedOf live t s a) (ha : a.isMain = true) :
    t = .main := by
  cases a <;> simp only [Act.isMain, Bool.false_eq_true] at ha
  case advanceIndex => exact h
  all_goals exact h.1

/-- The thread that performs the action may change what it changes. -/
def Act.Owned (t : Thread N) (a : Act N C) : Prop :=
  (∀ w, a.worker? = some w → t = .worker w) ∧ (a.isMain = true → t = .main)

theorem AllowedOf.owned {live : Bool → Prop} {t : Thread N} {s : State N C}
    {a : Act N C} (h : AllowedOf live t s a) : a.Owned t :=
  ⟨fun _ hw => h.owner hw, h.main⟩

theorem view_exec {t u : Thread N} (hu : u ≠ t) {a : Act N C}
    {s s' : State N C} {b : a.Answer} (ha : a.Owned t)
    (he : exec a s = some (b, s')) : view u s' = view u s := by
  cases u with
  | main =>
      have hmain : a.isMain = false := by
        by_contra h
        exact hu (ha.2 (by simpa using h)).symm
      exact exec_main hmain he
  | worker w =>
      have hw : a.worker? ≠ some w := fun h => hu (ha.1 w h).symm
      have hclients : ∀ j, s'.clients ⟨w, j⟩ = s.clients ⟨w, j⟩ :=
        fun j => exec_clients_of_ne hw he
      simp only [view, hclients, exec_point_of_ne hw he]

/-- The contract of the server's threads. -/
def control (N C : Nat) : Contract (server N C) LiveOk :=
  { V := View N C
    view := view
    Inv := fun _ => True
    Pre := fun t a s => Allowed t s a
    inv_exec := fun _ _ _ _ _ _ _ _ _ => trivial
    view_exec := fun _ _ _ _ _ _ hu _ ha he => view_exec hu ha.owned he }

/-- The same contract for every chunk, `live` being known of the records that
are handled. -/
def handling (N C : Nat) (live : Bool → Prop) : Contract (server N C) EventOk :=
  { V := View N C
    view := view
    Inv := fun _ => True
    Pre := fun t a s => AllowedOf live t s a
    inv_exec := fun _ _ _ _ _ _ _ _ _ => trivial
    view_exec := fun _ _ _ _ _ _ hu _ ha he => view_exec hu ha.owned he }

/-- What is shown for every chunk of live clients holds where chunks end with
an exit. -/
theorem control_safe {t : Thread N} {α : Type} {Q : α → View N C t → Prop}
    {prog : ServerProg N C α} :
    ∀ {v}, (handling N C Live).Safe t Q prog v →
      (control N C).Safe t Q prog v := by
  induction prog with
  | ret value => intro v h; exact h
  | act a next ih =>
      intro v h s hI hv _
      obtain ⟨hpre, hnext⟩ := h s hI hv trivial
      exact ⟨hpre, fun b s' he => ih b (hnext b s' he)⟩

/-- Every thread keeps to what is its own, whatever follows a `CMD_EXIT`. -/
def owners (N C : Nat) : Contract (server N C) EventOk :=
  { V := View N C
    view := view
    Inv := fun _ => True
    Pre := fun t a _ => a.Owned t
    inv_exec := fun _ _ _ _ _ _ _ _ _ => trivial
    view_exec := fun _ _ _ _ _ _ hu _ ha he => view_exec hu ha he }

/-! ## Programs of a worker on one client -/

section Local

variable {live : Bool → Prop} {c : ClientPtr N C} {r : Client}
  {p : WorkerPoint C} {α β : Type}

/-- Started with record `r` of client `c` at program point `p`, the program
performs allowed actions only and ends as `Q` says. -/
def Local (live : Bool → Prop) (c : ClientPtr N C) (r : Client)
    (p : WorkerPoint C) (prog : ServerProg N C α)
    (Q : α → Client → WorkerPoint C → Prop) : Prop :=
  ∀ v : View N C (.worker c.worker), v.1 c.index = r → v.2 = p →
    (handling N C live).Safe (.worker c.worker)
      (fun value v => Q value (v.1 c.index) v.2) prog v

theorem Local.ret {Q : α → Client → WorkerPoint C → Prop} {value : α}
    (h : Q value r p) : Local live c r p (.ret value) Q := by
  intro v hr hp
  subst hr hp
  exact h

theorem Local.act {Q : α → Client → WorkerPoint C → Prop} {a : Act N C}
    {next : a.Answer → ServerProg N C α}
    (hpre : ∀ s : State N C, s.clients c = r → s.point c.worker = p →
      AllowedOf live (.worker c.worker) s a)
    (hpost : ∀ s : State N C, s.clients c = r → s.point c.worker = p →
      ∀ b s', exec a s = some (b, s') →
        Local live c (s'.clients c) (s'.point c.worker) (next b) Q) :
    Local live c r p (.act a next) Q := by
  intro v hr hp s _ hv _
  have hv₁ : s.clients c = r := by rw [← hr, ← hv]; rfl
  have hv₂ : s.point c.worker = p := by rw [← hp, ← hv]; rfl
  refine ⟨hpre s hv₁ hv₂, fun b s' he => ?_⟩
  exact hpost s hv₁ hv₂ b s' he _ rfl rfl

theorem Local.bind {Q : α → Client → WorkerPoint C → Prop}
    {Q' : β → Client → WorkerPoint C → Prop} {prog : ServerProg N C α}
    {k : α → ServerProg N C β} (h : Local live c r p prog Q)
    (hk : ∀ value r' p', Q value r' p' → Local live c r' p' (k value) Q') :
    Local live c r p (prog >>= k) Q' := by
  intro v hr hp
  exact (h v hr hp).bind fun value v' hQ => hk value _ _ hQ v' rfl rfl

theorem Local.imp {Q Q' : α → Client → WorkerPoint C → Prop}
    {prog : ServerProg N C α} (h : Local live c r p prog Q)
    (hQ : ∀ value r' p', Q value r' p' → Q' value r' p') :
    Local live c r p prog Q' := by
  intro v hr hp
  exact (h v hr hp).imp fun value v' hv => hQ value _ _ hv

/-- Actions that are always allowed and change no record and no point. -/
def Act.isQuiet : Act N C → Prop
  | .readClient _ | .sprintf .. | .listSection .. => True
  | .send _ cmdType _ => cmdType ≠ cmdRoomMsg
  | _ => False

theorem Act.isQuiet.worker {a : Act N C} (ha : a.isQuiet) :
    a.worker? = none := by
  cases a <;> simp_all [Act.isQuiet, Act.worker?]

theorem Act.isQuiet.allowed {a : Act N C} (ha : a.isQuiet) (t : Thread N)
    (s : State N C) : AllowedOf live t s a := by
  cases a <;> simp_all [Act.isQuiet, AllowedOf]

theorem Local.quietAct {Q : α → Client → WorkerPoint C → Prop}
    {a : Act N C} {next : a.Answer → ServerProg N C α} (ha : a.isQuiet)
    (h : ∀ b, Local live c r p (next b) Q) : Local live c r p (.act a next) Q := by
  refine .act (fun s _ _ => ha.allowed _ s) fun s hr hp b s' he => ?_
  have hw : a.worker? ≠ some c.worker := by simp [ha.worker]
  rw [exec_clients_of_ne hw he, exec_point_of_ne hw he, hr, hp]
  exact h b

/-- A program of quiet actions leaves the record and the point alone. -/
theorem Local.quiet {prog : ServerProg N C α}
    (h : Prog.All Act.isQuiet prog) :
    Local live c r p prog (fun _ r' p' => r' = r ∧ p' = p) := by
  induction prog with
  | ret value => exact .ret ⟨rfl, rfl⟩
  | act a next ih =>
      exact .quietAct h.1 fun b => ih b (h.2 b)

/-- Reading the own record gives the record. -/
theorem Local.readClient {Q : α → Client → WorkerPoint C → Prop}
    {next : Client → ServerProg N C α} (h : Local live c r p (next r) Q) :
    Local live c r p (.act (.readClient c) next) Q := by
  refine .act (fun _ _ _ => trivial) fun s hr hp b s' he => ?_
  cases he
  rw [hr, hp]
  exact h

end Local

end ChatApp.Server
