import ChatApp.Foundation.Registry
import ChatApp.Server.HandOff

/-!
# Who owns a descriptor

Every descriptor `accept4` returned is with the main thread, in a worker's
eventfd, with the worker that registers it, or in a live slot, and the holder
that lets go of it closes it.  `Transfer` says once what an action does to
descriptors: nothing, a move between two holders, an acceptance, or a close.
One action does something else: when the socket cannot be configured, the main
loop goes on without closing it.
-/

namespace ChatApp.Server

open ChatApp.Foundation

variable {N C : Nat}

/-! ## Holders -/

/-- Where a descriptor can be. -/
inductive Holder (N C : Nat) where
  | main
  | eventfd (w : Fin N)
  | worker (w : Fin N)
  | slot (c : ClientPtr N C)
  deriving DecidableEq

/-- The descriptor a worker is registering. -/
def WorkerPoint.fd? : WorkerPoint C → Option Fd
  | .picked fd | .posted fd | .registered fd | .refused fd | .dropping fd =>
      some fd
  | _ => none

/-- The slot whose descriptor the worker has closed and not zeroed yet. -/
def WorkerPoint.closing : WorkerPoint C → Option (Fin C)
  | .closed j => some j
  | _ => none

@[simp] theorem closing_closed (j : Fin C) :
    (WorkerPoint.closed j).closing = some j := rfl

/-- The descriptor of a live slot, until it is closed. -/
def State.slotFd (s : State N C) (c : ClientPtr N C) : Option Fd :=
  if (s.clients c).inUse = true ∧
      (s.point c.worker).closing ≠ some c.index then
    some (s.clients c).clientFd
  else none

/-- The descriptor each holder holds. -/
def State.holding (s : State N C) : Holder N C → Option Fd
  | .main => s.main.fd?
  | .eventfd w => if s.notification w = 0 then none else some (s.notification w)
  | .worker w => (s.point w).fd?
  | .slot c => s.slotFd c

/-- The descriptor an action closes. -/
def Act.closes (s : State N C) : Act N C → Option Fd
  | .closeClient c => some (s.clients c).clientFd
  | .closeRefused _ fd | .closeRejected fd | .closeFailed _ fd => some fd
  | _ => none

/-! ## What an action does to descriptors -/

/-- The effect of an action that closes the given descriptor, or none. -/
inductive Transfer (s : State N C) : Option Fd → State N C → Prop
  | keep {s' : State N C} (hh : s'.holding = s.holding)
      (hc : s'.conns = s.conns) (ha : s'.accepted = s.accepted) :
      Transfer s none s'
  | move {s' : State N C} (a b : Holder N C) (fd : Fd)
      (hslot : ∀ c, a ≠ .slot c)
      (hfill : ∀ c, b = .slot c → s'.clients c = Client.fresh fd)
      (hfrom : s.holding a = some fd) (hto : s.holding b = none)
      (hh : s'.holding =
        Function.update (Function.update s.holding a none) b (some fd))
      (hc : s'.conns = s.conns) (ha : s'.accepted = s.accepted) :
      Transfer s none s'
  | accept {s' : State N C} (fd : Fd) (hpos : 0 < fd)
      (hfree : s.conns fd = none) (hto : s.holding .main = none)
      (hh : s'.holding = Function.update s.holding .main (some fd))
      (hc : s'.conns = Function.update s.conns fd (some s.accepted))
      (ha : s'.accepted = s.accepted + 1) : Transfer s none s'
  | close {s' : State N C} (a : Holder N C) (fd : Fd)
      (hfrom : s.holding a = some fd)
      (hh : s'.holding = Function.update s.holding a none)
      (hc : s'.conns = Function.update s.conns fd none)
      (ha : s'.accepted = s.accepted) : Transfer s (some fd) s'

section Holding

variable {s s' : State N C}

theorem holding_ext (hmain : s'.main.fd? = s.main.fd?)
    (hnote : s'.notification = s.notification)
    (hpoint : ∀ w, (s'.point w).fd? = (s.point w).fd?)
    (hslot : ∀ c, s'.slotFd c = s.slotFd c) : s'.holding = s.holding := by
  funext a
  cases a with
  | main => exact hmain
  | eventfd w => simp only [State.holding, hnote]
  | worker w => exact hpoint w
  | slot c => exact hslot c

/-- Records that keep liveness and descriptor, at points that close the same
slots, hold the same. -/
theorem slotFd_congr (huse : ∀ c, (s'.clients c).inUse = (s.clients c).inUse)
    (hfd : ∀ c, (s'.clients c).clientFd = (s.clients c).clientFd)
    (hpoint : ∀ w, (s'.point w).closing = (s.point w).closing)
    (c : ClientPtr N C) : s'.slotFd c = s.slotFd c := by
  simp only [State.slotFd, huse, hfd, hpoint]

/-- A record changed without touching liveness or descriptor. -/
theorem same_record {c : ClientPtr N C} {r : Client}
    (hclients : s'.clients = Function.update s.clients c r)
    (huse : r.inUse = (s.clients c).inUse)
    (hfd : r.clientFd = (s.clients c).clientFd) (d : ClientPtr N C) :
    (s'.clients d).inUse = (s.clients d).inUse ∧
      (s'.clients d).clientFd = (s.clients d).clientFd := by
  rw [hclients]
  by_cases hd : d = c
  · subst hd
    rw [Function.update_self]
    exact ⟨huse, hfd⟩
  · rw [Function.update_of_ne hd]
    exact ⟨rfl, rfl⟩

/-- One program point moved, another function of it staying as it was. -/
theorem update_same (point : Fin N → WorkerPoint C) {α : Type}
    {f : WorkerPoint C → α} {w : Fin N} {p : WorkerPoint C}
    (hf : f p = f (point w)) (v : Fin N) :
    f (Function.update point w p v) = f (point v) := by
  by_cases hv : v = w
  · subst hv
    rw [Function.update_self, hf]
  · rw [Function.update_of_ne hv]

theorem point_same {α : Type} {f : WorkerPoint C → α} {w : Fin N}
    {p : WorkerPoint C} (hpoint : s'.point = Function.update s.point w p)
    (hf : f p = f (s.point w)) (v : Fin N) :
    f (s'.point v) = f (s.point v) := by
  rw [hpoint]
  exact update_same _ hf v

/-- Nothing about descriptors changes. -/
theorem Transfer.same (hmain : s'.main.fd? = s.main.fd?)
    (hnote : s'.notification = s.notification)
    (hpoint : ∀ w, (s'.point w).fd? = (s.point w).fd? ∧
      (s'.point w).closing = (s.point w).closing)
    (hclients : ∀ c, (s'.clients c).inUse = (s.clients c).inUse ∧
      (s'.clients c).clientFd = (s.clients c).clientFd)
    (hc : s'.conns = s.conns) (ha : s'.accepted = s.accepted) :
    Transfer s none s' :=
  .keep
    (holding_ext hmain hnote (fun w => (hpoint w).1)
      (slotFd_congr (fun c => (hclients c).1) (fun c => (hclients c).2)
        fun w => (hpoint w).2)) hc ha

/-- A worker moves to a program point with the same descriptor. -/
theorem Transfer.samePoint {w : Fin N} {p : WorkerPoint C}
    (hpoint : s'.point = Function.update s.point w p)
    (hfd : p.fd? = (s.point w).fd?)
    (hclosing : p.closing = (s.point w).closing)
    (hmain : s'.main = s.main) (hnote : s'.notification = s.notification)
    (hclients : ∀ c, (s'.clients c).inUse = (s.clients c).inUse ∧
      (s'.clients c).clientFd = (s.clients c).clientFd)
    (hc : s'.conns = s.conns) (ha : s'.accepted = s.accepted) :
    Transfer s none s' :=
  .same (by rw [hmain]) hnote
    (fun v => ⟨point_same (f := WorkerPoint.fd?) hpoint hfd v,
      point_same (f := WorkerPoint.closing) hpoint hclosing v⟩) hclients hc ha

/-- The main thread moves to a program point with the same descriptor. -/
theorem Transfer.sameMain (hmain : s'.main.fd? = s.main.fd?)
    (hnote : s'.notification = s.notification) (hpoint : s'.point = s.point)
    (hclients : s'.clients = s.clients)
    (hc : s'.conns = s.conns) (ha : s'.accepted = s.accepted) :
    Transfer s none s' :=
  .same hmain hnote (fun w => by rw [hpoint]; exact ⟨rfl, rfl⟩)
    (fun c => by rw [hclients]; exact ⟨rfl, rfl⟩) hc ha

/-- The main thread writes its descriptor to a worker's empty eventfd. -/
theorem transfer_written {w : Fin N} {fd : Fd} (hpos : 0 < fd)
    (hmain : s.main = .writing w fd) (hzero : s.notification w = 0) :
    Transfer s none { s with
      notification := Function.update s.notification w
        (s.notification w + fd)
      main := .idle } := by
  have hfd : fd ≠ 0 := Nat.pos_iff_ne_zero.mp hpos
  refine .move .main (.eventfd w) fd nofun nofun ?_ ?_ ?_ rfl rfl
  · simp only [State.holding, hmain, MainPoint.fd?]
  · simp only [State.holding, hzero, if_true]
  · funext a
    cases a with
    | main => rfl
    | worker v => rfl
    | slot c => rfl
    | eventfd v =>
        by_cases hv : v = w
        · subst hv
          simp [State.holding, hzero, hfd]
        · have hne : (Holder.eventfd v : Holder N C) ≠ .eventfd w := by
            simpa using hv
          simp [State.holding, Function.update_of_ne hv,
            Function.update_of_ne hne]

/-- An idle worker reads the descriptor from its eventfd. -/
theorem transfer_picked {w : Fin N} (hpoint : s.point w = .idle)
    (hne : s.notification w ≠ 0) :
    Transfer s none { s with
      notification := Function.update s.notification w 0
      journal := s.journal ++ [.pickedUp w (s.notification w)]
      point := Function.update s.point w (.picked (s.notification w)) } := by
  refine .move (.eventfd w) (.worker w) (s.notification w) nofun nofun ?_ ?_ ?_
    rfl rfl
  · simp only [State.holding, hne, if_false]
  · simp only [State.holding, hpoint, WorkerPoint.fd?]
  · funext a
    cases a with
    | main => rfl
    | worker v =>
        by_cases hv : v = w
        · subst hv
          simp [State.holding, WorkerPoint.fd?]
        · have hne' : (Holder.worker v : Holder N C) ≠ .worker w := by
            simpa using hv
          simp [State.holding, Function.update_of_ne hv,
            Function.update_of_ne hne']
    | slot c =>
        have hclosing := update_same s.point (f := WorkerPoint.closing)
          (p := .picked (s.notification w)) (by rw [hpoint]; rfl) c.worker
        simp only [State.holding, State.slotFd, reduceCtorEq, ne_eq,
          not_false_eq_true, Function.update_of_ne] at hclosing ⊢
        simp only [hclosing]
    | eventfd v =>
        by_cases hv : v = w
        · subst hv
          simp [State.holding]
        · have hne' : (Holder.eventfd v : Holder N C) ≠ .eventfd w := by
            simpa using hv
          simp [State.holding, Function.update_of_ne hv,
            Function.update_of_ne hne']

/-- A registered descriptor goes to a free slot. -/
theorem transfer_allocated {w : Fin N} {j : Fin C} {fd : Fd}
    (hpoint : s.point w = .registered fd)
    (hfree : (s.clients ⟨w, j⟩).inUse = false) :
    Transfer s none { s with
      clients := Function.update s.clients ⟨w, j⟩ (Client.fresh fd)
      point := Function.update s.point w .idle } := by
  refine .move (.worker w) (.slot ⟨w, j⟩) fd nofun ?_ ?_ ?_ ?_ rfl rfl
  · rintro c hc
    cases hc
    exact Function.update_self _ _ _
  · simp only [State.holding, hpoint, WorkerPoint.fd?]
  · simp [State.holding, State.slotFd, hfree]
  · have hclosing : ∀ v, (Function.update s.point w .idle v).closing =
        (s.point v).closing :=
      update_same s.point (f := WorkerPoint.closing) (by rw [hpoint]; rfl)
    funext a
    cases a with
    | main => rfl
    | eventfd v => rfl
    | worker v =>
        by_cases hv : v = w
        · subst hv
          simp [State.holding, WorkerPoint.fd?]
        · have hne : (Holder.worker v : Holder N C) ≠ .worker w := by
            simpa using hv
          simp [State.holding, Function.update_of_ne hv,
            Function.update_of_ne hne]
    | slot c =>
        by_cases hc : c = ⟨w, j⟩
        · subst hc
          simp [State.holding, State.slotFd, WorkerPoint.closing,
            Client.fresh]
        · have hne : (Holder.slot c : Holder N C) ≠ .slot ⟨w, j⟩ := by
            simpa using hc
          rw [Function.update_of_ne hne, Function.update_of_ne (by simp)]
          simp only [State.holding, State.slotFd, hclosing,
            Function.update_of_ne hc]

/-- A worker closes the descriptor of a live slot. -/
theorem transfer_closedSlot {c : ClientPtr N C}
    (huse : (s.clients c).inUse = true)
    (hpoint : (s.point c.worker).closing = none ∧
      (s.point c.worker).fd? = none) :
    Transfer s (some (s.clients c).clientFd) (closeClient s c) := by
  refine .close (.slot c) (s.clients c).clientFd ?_ ?_ rfl rfl
  · simp [State.holding, State.slotFd, huse, hpoint.1]
  · funext a
    cases a with
    | main => rfl
    | eventfd v => rfl
    | worker v =>
        rw [Function.update_of_ne (by simp)]
        exact update_same s.point (f := WorkerPoint.fd?)
          (p := .closed c.index) hpoint.2.symm v
    | slot d =>
        by_cases hd : d = c
        · subst hd
          simp [State.holding, State.slotFd, closeClient]
        · have hne : (Holder.slot d : Holder N C) ≠ .slot c := by
            simpa using hd
          rw [Function.update_of_ne hne]
          by_cases hw : d.worker = c.worker
          · have hindex : c.index ≠ d.index := by
              intro h
              cases c
              cases d
              simp_all
            simp [State.holding, State.slotFd, closeClient, hw, hpoint.1,
              hindex]
          · simp [State.holding, State.slotFd, closeClient,
              Function.update_of_ne hw]

/-- A worker closes descriptor zero for a record that is not in use. -/
theorem transfer_closedFree {c : ClientPtr N C}
    (huse : (s.clients c).inUse = false)
    (hfd : s.conns (s.clients c).clientFd = none)
    (hpoint : (s.point c.worker).closing = none ∧
      (s.point c.worker).fd? = none) :
    Transfer s none (closeClient s c) := by
  refine .keep ?_ (Function.update_eq_self_iff.mpr hfd.symm) rfl
  funext a
  cases a with
  | main => rfl
  | eventfd v => rfl
  | worker v =>
      exact update_same s.point (f := WorkerPoint.fd?)
        (p := .closed c.index) hpoint.2.symm v
  | slot d =>
      by_cases hd : d = c
      · subst hd
        simp [State.holding, State.slotFd, closeClient, huse]
      · by_cases hw : d.worker = c.worker
        · have hindex : c.index ≠ d.index := by
            intro h
            cases c
            cases d
            simp_all
          simp [State.holding, State.slotFd, closeClient, hw, hpoint.1,
            hindex]
        · simp [State.holding, State.slotFd, closeClient,
            Function.update_of_ne hw]

/-- Zeroing the slot that was closed changes no holder. -/
theorem transfer_zeroed {c : ClientPtr N C}
    (hpoint : s.point c.worker = .closed c.index) :
    Transfer s none (zeroClient s c) := by
  refine .keep ?_ rfl rfl
  funext a
  cases a with
  | main => rfl
  | eventfd v => rfl
  | worker v =>
      exact update_same s.point (f := WorkerPoint.fd?) (by rw [hpoint]; rfl) v
  | slot d =>
      by_cases hd : d = c
      · subst hd
        simp [State.holding, State.slotFd, zeroClient, hpoint, Client.zero]
      · by_cases hw : d.worker = c.worker
        · have hindex : c.index ≠ d.index := by
            intro h
            cases c
            cases d
            simp_all
          simp [State.holding, State.slotFd, zeroClient, hw, hpoint, hd,
            WorkerPoint.closing, hindex]
        · simp [State.holding, State.slotFd, zeroClient, hd,
            Function.update_of_ne hw]

/-- A worker closes a descriptor it could not register. -/
theorem transfer_closedRefused {w : Fin N} {fd : Fd}
    (hpoint : s.point w = .dropping fd) :
    Transfer s (some fd) { s with
      calls := s.calls ++ [.close fd]
      conns := Function.update s.conns fd none
      point := Function.update s.point w .idle } := by
  refine .close (.worker w) fd ?_ ?_ rfl rfl
  · simp only [State.holding, hpoint, WorkerPoint.fd?]
  · have hclosing : ∀ v, (Function.update s.point w .idle v).closing =
        (s.point v).closing :=
      update_same s.point (f := WorkerPoint.closing) (by rw [hpoint]; rfl)
    funext a
    cases a with
    | main => rfl
    | eventfd v => rfl
    | worker v =>
        by_cases hv : v = w
        · subst hv
          simp [State.holding, WorkerPoint.fd?]
        · have hne : (Holder.worker v : Holder N C) ≠ .worker w := by
            simpa using hv
          simp [State.holding, Function.update_of_ne hv,
            Function.update_of_ne hne]
    | slot c =>
        rw [Function.update_of_ne (by simp)]
        simp only [State.holding, State.slotFd, hclosing]

/-- The main thread closes the descriptor it works on. -/
theorem transfer_closedMain {fd : Fd} {p : MainPoint N}
    (hmain : s.main.fd? = some fd) (hp : p.fd? = none) :
    Transfer s (some fd) { s with
      calls := s.calls ++ [.close fd]
      conns := Function.update s.conns fd none
      main := p } := by
  refine .close .main fd hmain ?_ rfl rfl
  funext a
  cases a with
  | main => exact hp
  | eventfd v => rfl
  | worker v => rfl
  | slot c => rfl

end Holding

/-! ## One step -/

/-- What an action does to the connections: nothing, or it accepts one, or
closes a descriptor. -/
theorem exec_conns {a : Act N C} {s s' : State N C} {b : a.Answer}
    (he : exec a s = some (b, s')) :
    (∃ fd, a = .accept fd ∧ s.conns fd = none ∧
        s'.conns = Function.update s.conns fd (some s.accepted) ∧
        s'.accepted = s.accepted + 1) ∨
      s'.accepted = s.accepted ∧
        (a.closes s = none ∧ s'.conns = s.conns ∨
          ∃ fd, a.closes s = some fd ∧
            s'.conns = Function.update s.conns fd none) := by
  cases a
  case accept fd =>
    obtain ⟨-, hfree, rfl⟩ := exec_accept he
    exact .inl ⟨fd, rfl, hfree, rfl, rfl⟩
  case closeClient | closeRefused | closeRejected | closeFailed =>
    cases he
    exact .inr ⟨rfl, .inr ⟨_, rfl, rfl⟩⟩
  case createSection i c roomName successMsg =>
    rcases exec_createSection he with ⟨-, -, rfl⟩ | ⟨-, -, rfl⟩
    all_goals exact .inr ⟨rfl, .inl ⟨rfl, rfl⟩⟩
  case joinSection i c joinMsg =>
    rcases exec_joinSection he with ⟨r, -, rfl⟩ | rfl | ⟨j, -, -, rfl⟩
    all_goals exact .inr ⟨rfl, .inl ⟨rfl, rfl⟩⟩
  case chatSection i c msg =>
    rw [exec_chatSection he]
    exact .inr ⟨rfl, .inl ⟨rfl, rfl⟩⟩
  case leaveSection i c =>
    rw [exec_leaveSection he]
    exact .inr ⟨rfl, .inl ⟨rfl, rfl⟩⟩
  case listSection i msg =>
    rcases exec_listSection he with ⟨-, -, rfl⟩ | ⟨-, -, rfl⟩
    all_goals exact .inr ⟨rfl, .inl ⟨rfl, rfl⟩⟩
  case readEventfd w ok =>
    rcases exec_readEventfd he with ⟨-, -, -, rfl⟩ | ⟨-, -, rfl⟩
    all_goals exact .inr ⟨rfl, .inl ⟨rfl, rfl⟩⟩
  case registerWithEpoll w fd ok =>
    rcases exec_registerWithEpoll he with ⟨-, -, rfl⟩ | ⟨-, -, rfl⟩
    all_goals exact .inr ⟨rfl, .inl ⟨rfl, rfl⟩⟩
  case allocateClientSlot w fd =>
    rcases exec_allocateClientSlot he with ⟨-, -, rfl⟩ | ⟨j, -, -, rfl⟩
    all_goals exact .inr ⟨rfl, .inl ⟨rfl, rfl⟩⟩
  case setSocketKeepAlive fd ok =>
    rcases exec_setSocketKeepAlive he with ⟨-, -, rfl⟩ | ⟨-, -, rfl⟩
    all_goals exact .inr ⟨rfl, .inl ⟨rfl, rfl⟩⟩
  case inspectWorker fd =>
    rcases exec_inspectWorker he with ⟨-, -, rfl⟩ | ⟨-, -, rfl⟩
    all_goals exact .inr ⟨rfl, .inl ⟨rfl, rfl⟩⟩
  case semWait w fd =>
    rw [(exec_semWait he).2]
    exact .inr ⟨rfl, .inl ⟨rfl, rfl⟩⟩
  case writeEventfd w fd ok =>
    rcases exec_writeEventfd he with ⟨-, -, rfl⟩ | ⟨-, -, rfl⟩
    all_goals exact .inr ⟨rfl, .inl ⟨rfl, rfl⟩⟩
  all_goals
    cases he
    exact .inr ⟨rfl, .inl ⟨rfl, rfl⟩⟩

/-- What an allowed action does to descriptors, a failed configuration of a
socket and a close for a record that is not in use left aside. -/
theorem exec_transfer {live : Bool → Prop} {t : Thread N} {a : Act N C}
    {s s' : State N C} {b : a.Answer} (hinv : ∀ v, Relay s v)
    (ha : AllowedOf live t s a)
    (hkeep : ∀ fd, a ≠ .setSocketKeepAlive fd false)
    (huse : ∀ c, a = .closeClient c → (s.clients c).inUse = true)
    (he : exec a s = some (b, s')) : Transfer s (a.closes s) s' := by
  by_cases htext : a.isText = true
  · have hsame := exec_sameControl htext he
    have hcloses : a.closes s = none := by
      cases a <;> simp_all [Act.isText, Act.closes]
    rw [hcloses]
    refine .same (by rw [hsame.main]) hsame.notification
      (fun w => by rw [hsame.point]; exact ⟨rfl, rfl⟩)
      (fun c => ⟨hsame.inUse c, hsame.clientFd c⟩) hsame.conns ?_
    rcases exec_conns he with ⟨fd, rfl, -⟩ | ⟨haccepted, -⟩
    · cases htext
    · exact haccepted
  cases a <;> simp only [Act.isText, not_true_eq_false, Bool.false_eq_true,
    not_false_eq_true] at htext
  case createSection i c roomName successMsg =>
    rcases exec_createSection he with ⟨-, -, rfl⟩ | ⟨-, -, rfl⟩
    · exact .keep rfl rfl rfl
    · exact .same rfl rfl (fun _ => ⟨rfl, rfl⟩)
        (same_record (c := c) rfl rfl rfl) rfl rfl
  case joinSection i c joinMsg =>
    rcases exec_joinSection he with ⟨r, -, rfl⟩ | rfl | ⟨j, -, -, rfl⟩
    · exact .same rfl rfl (fun _ => ⟨rfl, rfl⟩) (fun _ => ⟨rfl, rfl⟩) rfl rfl
    · exact .keep rfl rfl rfl
    · exact .same rfl rfl (fun _ => ⟨rfl, rfl⟩)
        (same_record (c := c) rfl rfl rfl) rfl rfl
  case leaveSection i c =>
    rw [exec_leaveSection he]
    exact .samePoint (w := c.worker) rfl (by rw [ha.1.2.2]; rfl)
      (by rw [ha.1.2.2]; rfl) rfl rfl (fun _ => ⟨rfl, rfl⟩) rfl rfl
  case chatSection i c msg =>
    rw [exec_chatSection he]
    exact .samePoint (w := c.worker) rfl (by rw [ha.2.2.2]; rfl)
      (by rw [ha.2.2.2]; rfl) rfl rfl (fun _ => ⟨rfl, rfl⟩) rfl rfl
  case routeMessage c =>
    rcases exec_routeMessage he with ⟨-, ⟨-, rfl⟩ | ⟨line, -, rfl⟩⟩
    · exact .same rfl rfl (fun _ => ⟨rfl, rfl⟩) (fun _ => ⟨rfl, rfl⟩) rfl rfl
    · exact .samePoint (w := c.worker) rfl (by rw [ha.2]; rfl)
        (by rw [ha.2]; rfl) rfl rfl (fun _ => ⟨rfl, rfl⟩) rfl rfl
  case setLobby c =>
    cases he
    have hpoint : (s.point c.worker).fd? = none ∧
        (s.point c.worker).closing = none := by
      rcases ha with hready | ⟨-, hleft⟩
      · rw [hready.2.2]
        exact ⟨rfl, rfl⟩
      · rw [hleft]
        exact ⟨rfl, rfl⟩
    exact .samePoint (w := c.worker) rfl hpoint.1.symm hpoint.2.symm rfl rfl
      (same_record (c := c) rfl rfl rfl) rfl rfl
  case closeClient c =>
    cases he
    apply transfer_closedSlot (huse c rfl)
    rcases ha.2 with ⟨-, hidle⟩ | hleft
    · rw [hidle]
      exact ⟨rfl, rfl⟩
    · rw [hleft]
      exact ⟨rfl, rfl⟩
  case zeroClient c =>
    cases he
    exact transfer_zeroed ha.2
  case subtractZeroed w =>
    cases he
    exact .samePoint (w := w) rfl (by rw [ha.2]; rfl) (by rw [ha.2]; rfl) rfl
      rfl (fun _ => ⟨rfl, rfl⟩) rfl rfl
  case readEventfd w ok =>
    rcases exec_readEventfd he with ⟨-, hne, -, rfl⟩ | ⟨-, -, rfl⟩
    · exact transfer_picked ha.2 hne
    · exact .samePoint (w := w) rfl (by rw [ha.2]; rfl) (by rw [ha.2]; rfl)
        rfl rfl (fun _ => ⟨rfl, rfl⟩) rfl rfl
  case subtractUnread w =>
    cases he
    exact .same rfl rfl (fun _ => ⟨rfl, rfl⟩) (fun _ => ⟨rfl, rfl⟩) rfl rfl
  case postUnread w =>
    cases he
    exact .samePoint (w := w) rfl (by rw [ha.2]; rfl) (by rw [ha.2]; rfl) rfl
      rfl (fun _ => ⟨rfl, rfl⟩) rfl rfl
  case semPost w fd =>
    cases he
    exact .samePoint (w := w) rfl (by rw [ha.2]; rfl) (by rw [ha.2]; rfl) rfl
      rfl (fun _ => ⟨rfl, rfl⟩) rfl rfl
  case registerWithEpoll w fd ok =>
    rcases exec_registerWithEpoll he with ⟨-, -, rfl⟩ | ⟨-, -, rfl⟩
    all_goals
      exact .samePoint (w := w) rfl (by rw [ha.2]; rfl) (by rw [ha.2]; rfl)
        rfl rfl (fun _ => ⟨rfl, rfl⟩) rfl rfl
  case allocateClientSlot w fd =>
    rcases exec_allocateClientSlot he with ⟨-, -, rfl⟩ | ⟨j, hj, -, rfl⟩
    · exact .samePoint (w := w) rfl (by rw [ha.2]; rfl) (by rw [ha.2]; rfl)
        rfl rfl (fun _ => ⟨rfl, rfl⟩) rfl rfl
    · exact transfer_allocated ha.2 (State.freeSlot?_some hj)
  case subtractRefused w fd =>
    cases he
    exact .samePoint (w := w) rfl (by rw [ha.2]; rfl) (by rw [ha.2]; rfl) rfl
      rfl (fun _ => ⟨rfl, rfl⟩) rfl rfl
  case closeRefused w fd =>
    cases he
    exact transfer_closedRefused ha.2
  case accept fd =>
    obtain ⟨hpos, hfree, rfl⟩ := exec_accept he
    refine .accept fd hpos hfree (by rw [State.holding, ha.2]; rfl) ?_ rfl rfl
    funext d
    cases d <;> rfl
  case setSocketKeepAlive fd ok =>
    rcases exec_setSocketKeepAlive he with ⟨-, -, rfl⟩ | ⟨rfl, -, -⟩
    · exact .keep rfl rfl rfl
    · exact absurd rfl (hkeep fd)
  case inspectWorker fd =>
    rcases exec_inspectWorker he with ⟨-, -, rfl⟩ | ⟨-, -, rfl⟩
    · exact .keep rfl rfl rfl
    · exact .sameMain (by rw [ha.2]; rfl) rfl rfl rfl rfl rfl
  case advanceIndex =>
    cases he
    exact .sameMain rfl rfl rfl rfl rfl rfl
  case closeRejected fd =>
    cases he
    exact transfer_closedMain (by rw [ha.2]; rfl) rfl
  case semWait w fd =>
    obtain ⟨-, rfl⟩ := exec_semWait he
    exact .sameMain (by rw [ha.2]; rfl) rfl rfl rfl rfl rfl
  case writeEventfd w fd ok =>
    have hmain := ha.2
    have hpos : 0 < fd := (hinv w).positive fd (by rw [hmain]; rfl)
    rcases exec_writeEventfd he with ⟨-, -, rfl⟩ | ⟨-, -, rfl⟩
    · exact transfer_written hpos hmain ((hinv w).empty hmain)
    · exact .sameMain (by rw [hmain]; rfl) rfl rfl rfl rfl rfl
  case postFailed w fd =>
    cases he
    exact .sameMain (by rw [ha.2]; rfl) rfl rfl rfl rfl rfl
  case closeFailed w fd =>
    cases he
    exact transfer_closedMain (by rw [ha.2]; rfl) rfl
  case subtractFailed w =>
    cases he
    exact .sameMain (by rw [ha.2]; rfl) rfl rfl rfl rfl rfl

/-- What an allowed action does to a slot: nothing that concerns its
descriptor, or it is zeroed or filled. -/
theorem exec_slot {live : Bool → Prop} {t : Thread N} {a : Act N C}
    {s s' : State N C} {b : a.Answer} (ha : AllowedOf live t s a)
    (he : exec a s = some (b, s')) (c : ClientPtr N C) :
    (s'.clients c).inUse = (s.clients c).inUse ∧
        (s'.clients c).clientFd = (s.clients c).clientFd ∨
      s'.clients c = Client.zero ∨
      ∃ fd, s.point c.worker = .registered fd ∧
        s.freeSlot? c.worker = some c.index ∧
        s'.clients c = Client.fresh fd := by
  have hupdates := exec_updates he c
  generalize s'.clients c = r at hupdates ⊢
  cases hupdates with
  | zeroed => exact .inr (.inl rfl)
  | allocated fd hfree => exact .inr (.inr ⟨fd, ha.2, hfree, rfl⟩)
  | _ => exact .inl ⟨rfl, rfl⟩

/-! ## The invariant -/

/-- Held descriptors are open and have one holder, no connection has two
descriptors, free slots hold descriptor zero, and the live slots of a worker
hold positive descriptors of their own, also while one is being closed. -/
structure Own (s : State N C) : Prop where
  owned : Owned s.holding s.conns
  zero : s.conns 0 = none
  range : ∀ fd q, s.conns fd = some q → q < s.accepted
  free : ∀ c, (s.clients c).inUse = false → (s.clients c).clientFd = 0
  used : ∀ c, (s.clients c).inUse = true → 0 < (s.clients c).clientFd
  apart : ∀ c d : ClientPtr N C, c.worker = d.worker →
    (s.clients c).inUse = true → (s.clients d).inUse = true →
    (s.clients c).clientFd = (s.clients d).clientFd → c = d

section Invariant

variable {s s' : State N C} {t : Thread N}

/-- What a transfer does to the descriptors keeps them owned. -/
theorem Transfer.owned {closed : Option Fd} (h : Transfer s closed s')
    (hown : Own s) : Owned s'.holding s'.conns ∧ s'.conns 0 = none ∧
      ∀ fd q, s'.conns fd = some q → q < s'.accepted := by
  cases h with
  | keep hh hc ha =>
      rw [hh, hc, ha]
      exact ⟨hown.owned, hown.zero, hown.range⟩
  | move a b fd hslot hfill hfrom hto hh hc ha =>
      rw [hh, hc, ha]
      exact ⟨hown.owned.move hfrom hto, hown.zero, hown.range⟩
  | accept fd hpos hfree hto hh hc ha =>
      rw [hh, hc, ha]
      refine ⟨hown.owned.take hfree ?_, ?_, ?_⟩
      · intro fd' hfd'
        exact absurd (hown.range fd' _ hfd') (Nat.lt_irrefl _)
      · rw [Function.update_of_ne (Nat.ne_of_lt hpos)]
        exact hown.zero
      · intro fd' q hq
        by_cases hfd : fd' = fd
        · rw [hfd, Function.update_self] at hq
          rw [← Option.some.inj hq]
          exact Nat.lt_succ_self _
        · rw [Function.update_of_ne hfd] at hq
          exact Nat.lt_succ_of_lt (hown.range fd' q hq)
  | close a fd hfrom hh hc ha =>
      rw [hh, hc, ha]
      have hshrinks : ∀ fd' q, Function.update s.conns fd none fd' = some q →
          s.conns fd' = some q := by
        intro fd' q hq
        by_cases hfd : fd' = fd
        · rw [hfd, Function.update_self] at hq
          cases hq
        · rwa [Function.update_of_ne hfd] at hq
      refine ⟨hown.owned.drop hfrom, ?_, ?_⟩
      · by_contra hne
        obtain ⟨q, hq⟩ := Option.ne_none_iff_exists'.mp hne
        have hopen := hshrinks 0 q hq
        rw [hown.zero] at hopen
        cases hopen
      · exact fun fd' q hq => hown.range fd' q (hshrinks fd' q hq)

/-- A live slot that is not being closed holds its descriptor. -/
theorem holding_slot {c : ClientPtr N C} (huse : (s.clients c).inUse = true)
    (hpoint : (s.point c.worker).closing ≠ some c.index) :
    s.holding (.slot c) = some (s.clients c).clientFd :=
  if_pos ⟨huse, hpoint⟩

theorem of_holding_slot {c : ClientPtr N C} {fd : Fd}
    (h : s.holding (.slot c) = some fd) :
    (s.clients c).inUse = true ∧ (s.clients c).clientFd = fd := by
  simp only [State.holding, State.slotFd] at h
  split at h
  case isTrue hlive => exact ⟨hlive.1, Option.some.inj h⟩
  case isFalse => cases h

theorem Own.pos (h : Own s) {a : Holder N C} {fd : Fd}
    (ha : s.holding a = some fd) : 0 < fd := by
  apply Nat.pos_of_ne_zero
  rintro rfl
  obtain ⟨q, hq⟩ := h.owned.known a 0 ha
  rw [h.zero] at hq
  cases hq

/-- The slots stay as `Own` says. -/
theorem Own.slots (h : Own s)
    (hslot : ∀ c, (s'.clients c).inUse = (s.clients c).inUse ∧
        (s'.clients c).clientFd = (s.clients c).clientFd ∨
      s'.clients c = Client.zero ∨
      ∃ fd, s.point c.worker = .registered fd ∧
        s.freeSlot? c.worker = some c.index ∧
        s'.clients c = Client.fresh fd) :
    (∀ c, (s'.clients c).inUse = false → (s'.clients c).clientFd = 0) ∧
      (∀ c, (s'.clients c).inUse = true → 0 < (s'.clients c).clientFd) ∧
      ∀ c d : ClientPtr N C, c.worker = d.worker →
        (s'.clients c).inUse = true → (s'.clients d).inUse = true →
        (s'.clients c).clientFd = (s'.clients d).clientFd → c = d := by
  -- No live slot of a worker has the descriptor the worker registers.
  have hother : ∀ {c : ClientPtr N C} {fd : Fd},
      s.point c.worker = .registered fd → (s.clients c).inUse = true →
      (s.clients c).clientFd ≠ fd := by
    intro c fd hpoint hc hfd
    have hworker : s.holding (.worker c.worker) = some fd := by
      simp only [State.holding, hpoint, WorkerPoint.fd?]
    have hheld := holding_slot hc (by rw [hpoint]; exact nofun)
    rw [hfd] at hheld
    cases h.owned.unique _ _ fd hheld hworker
  refine ⟨fun c hc => ?_, fun c hc => ?_, fun c d hw hc hd hfd => ?_⟩
  · rcases hslot c with ⟨huse, hsame⟩ | hzero | ⟨fd, -, -, hfresh⟩
    · rw [huse] at hc
      rw [hsame]
      exact h.free c hc
    · rw [hzero]
      rfl
    · rw [hfresh] at hc
      cases hc
  · rcases hslot c with ⟨huse, hsame⟩ | hzero | ⟨fd, hpoint, -, hfresh⟩
    · rw [huse] at hc
      rw [hsame]
      exact h.used c hc
    · rw [hzero] at hc
      cases hc
    · rw [hfresh]
      have hworker : s.holding (.worker c.worker) = some fd := by
        simp only [State.holding, hpoint, WorkerPoint.fd?]
      exact h.pos hworker
  · rcases hslot c with ⟨huse, hsame⟩ | hzero | ⟨fd, hpoint, hfree, hfresh⟩
    · rw [huse] at hc
      rw [hsame] at hfd
      rcases hslot d with ⟨huse', hsame'⟩ | hzero | ⟨fd, hpoint, -, hfresh⟩
      · rw [huse'] at hd
        rw [hsame'] at hfd
        exact h.apart c d hw hc hd hfd
      · rw [hzero] at hd
        cases hd
      · rw [hfresh] at hfd
        rw [← hw] at hpoint
        exact absurd hfd (hother hpoint hc)
    · rw [hzero] at hc
      cases hc
    · rcases hslot d with ⟨huse', hsame'⟩ | hzero | ⟨fd', -, hfree', -⟩
      · rw [huse'] at hd
        rw [hsame', hfresh] at hfd
        rw [hw] at hpoint
        exact absurd hfd.symm (hother hpoint hd)
      · rw [hzero] at hd
        cases hd
      · rw [hw, hfree'] at hfree
        cases c
        cases d
        cases hw
        cases hfree
        rfl

/-- What an allowed action does to descriptors, for records in use or not: a
transfer, or the main thread forgets the descriptor of a socket it could not
configure. -/
theorem Own.transfer {live : Bool → Prop} (h : Own s) (hinv : ∀ v, Relay s v)
    {a : Act N C} {b : a.Answer} (ha : AllowedOf live t s a)
    (he : exec a s = some (b, s')) :
    (∃ closed, Transfer s closed s' ∧
        (closed = none ∨ closed = a.closes s)) ∨
      s' = { s with main := .idle } := by
  by_cases hkeep : ∀ fd, a ≠ .setSocketKeepAlive fd false
  · left
    by_cases huse : ∀ c, a = .closeClient c → (s.clients c).inUse = true
    · exact ⟨_, exec_transfer hinv ha hkeep huse he, .inr rfl⟩
    · push Not at huse
      obtain ⟨c, rfl, hc⟩ := huse
      have hfree : (s.clients c).inUse = false := by simpa using hc
      cases he
      refine ⟨none, transfer_closedFree hfree ?_ ?_, .inl rfl⟩
      · rw [h.free c hfree]
        exact h.zero
      · rcases ha.2 with ⟨-, hidle⟩ | hleft
        · rw [hidle]
          exact ⟨rfl, rfl⟩
        · rw [hleft]
          exact ⟨rfl, rfl⟩
  · push Not at hkeep
    obtain ⟨fd, rfl⟩ := hkeep
    rcases exec_setSocketKeepAlive he with ⟨hok, -, -⟩ | ⟨-, -, rfl⟩
    · cases hok
    · exact .inr rfl

/-- Every allowed action keeps descriptors owned, for records in use or
not. -/
theorem Own.step_of {live : Bool → Prop} (h : Own s) (hinv : ∀ v, Relay s v)
    {a : Act N C} {b : a.Answer} (ha : AllowedOf live t s a)
    (he : exec a s = some (b, s')) : Own s' := by
  obtain ⟨hfree, hused, hapart⟩ := h.slots (exec_slot ha he)
  rcases h.transfer hinv ha he with ⟨closed, htransfer, -⟩ | rfl
  · obtain ⟨howned, hzero, hrange⟩ := htransfer.owned h
    exact ⟨howned, hzero, hrange, hfree, hused, hapart⟩
  · have hholding : { s with main := .idle }.holding =
        Function.update s.holding .main none := by
      funext d
      cases d <;> rfl
    refine ⟨?_, h.zero, h.range, hfree, hused, hapart⟩
    rw [hholding]
    exact h.owned.forget .main

theorem Own.step (h : Own s) (hinv : ∀ v, HandInv s v) {a : Act N C}
    {b : a.Answer} (ha : Allowed t s a) (he : exec a s = some (b, s')) :
    Own s' :=
  h.step_of (fun v => (hinv v).toRelay) ha he

/-- Where what is held after a transfer was before: with the same holder, with
a holder that is no slot and passed it on, or not accepted yet. -/
theorem Transfer.origin {closed : Option Fd} (h : Transfer s closed s')
    (hown : Own s) {a : Holder N C} {fd : Fd} {q : Conn}
    (ha : s'.holding a = some fd) (hq : s'.conns fd = some q) :
    s.holding a = some fd ∧ s.conns fd = some q ∨
      (∃ b, (∀ c, b ≠ .slot c) ∧ s.holding b = some fd ∧
        s.conns fd = some q ∧
        ∀ c, a = .slot c → s'.clients c = Client.fresh fd) ∨
      a = .main ∧ q = s.accepted ∧ s'.accepted = s.accepted + 1 := by
  cases h with
  | keep hh hc _ =>
      rw [hh] at ha
      rw [hc] at hq
      exact .inl ⟨ha, hq⟩
  | move d e fd' hslot hfill hfrom hto hh hc _ =>
      rw [hh] at ha
      rw [hc] at hq
      by_cases hae : a = e
      · subst hae
        rw [Function.update_self] at ha
        cases ha
        exact .inr (.inl ⟨d, hslot, hfrom, hq, hfill⟩)
      rw [Function.update_of_ne hae] at ha
      by_cases had : a = d
      · subst had
        rw [Function.update_self] at ha
        cases ha
      · rw [Function.update_of_ne had] at ha
        exact .inl ⟨ha, hq⟩
  | accept fd' hpos hfree hto hh hc haccepted =>
      rw [hh] at ha
      rw [hc] at hq
      by_cases hmain : a = .main
      · subst hmain
        rw [Function.update_self] at ha
        cases ha
        rw [Function.update_self] at hq
        exact .inr (.inr ⟨rfl, (Option.some.inj hq).symm, haccepted⟩)
      · rw [Function.update_of_ne hmain] at ha
        have hfd : fd ≠ fd' := by
          rintro rfl
          obtain ⟨q', hq'⟩ := hown.owned.known a fd ha
          rw [hfree] at hq'
          cases hq'
        rw [Function.update_of_ne hfd] at hq
        exact .inl ⟨ha, hq⟩
  | close d fd' hfrom hh hc _ =>
      rw [hh] at ha
      rw [hc] at hq
      by_cases had : a = d
      · subst had
        rw [Function.update_self] at ha
        cases ha
      rw [Function.update_of_ne had] at ha
      have hfd : fd ≠ fd' := by
        rintro rfl
        exact had (hown.owned.unique a d fd ha hfrom)
      rw [Function.update_of_ne hfd] at hq
      exact .inl ⟨ha, hq⟩

/-- The same for every allowed action, for records in use or not. -/
theorem Own.origin_of {live : Bool → Prop} (h : Own s)
    (hinv : ∀ v, Relay s v) {a : Act N C} {b : a.Answer}
    (ha : AllowedOf live t s a) (he : exec a s = some (b, s'))
    {d : Holder N C} {fd : Fd} {q : Conn} (hd : s'.holding d = some fd)
    (hq : s'.conns fd = some q) :
    s.holding d = some fd ∧ s.conns fd = some q ∨
      (∃ e, (∀ c, e ≠ .slot c) ∧ s.holding e = some fd ∧
        s.conns fd = some q ∧
        ∀ c, d = .slot c → s'.clients c = Client.fresh fd) ∨
      d = .main ∧ q = s.accepted ∧ s'.accepted = s.accepted + 1 := by
  rcases h.transfer hinv ha he with ⟨closed, htransfer, -⟩ | rfl
  · exact htransfer.origin h hd hq
  · refine .inl ⟨?_, hq⟩
    cases d with
    | main => cases hd
    | eventfd w => exact hd
    | worker w => exact hd
    | slot c => exact hd

theorem Own.origin (h : Own s) (hinv : ∀ v, HandInv s v) {a : Act N C}
    {b : a.Answer} (ha : Allowed t s a) (he : exec a s = some (b, s'))
    {d : Holder N C} {fd : Fd} {q : Conn} (hd : s'.holding d = some fd)
    (hq : s'.conns fd = some q) :
    s.holding d = some fd ∧ s.conns fd = some q ∨
      (∃ e, (∀ c, e ≠ .slot c) ∧ s.holding e = some fd ∧
        s.conns fd = some q ∧
        ∀ c, d = .slot c → s'.clients c = Client.fresh fd) ∨
      d = .main ∧ q = s.accepted ∧ s'.accepted = s.accepted + 1 :=
  h.origin_of (fun v => (hinv v).toRelay) ha he hd hq

/-- The one action that closes the descriptor of a slot. -/
theorem Own.closer_of_slot {live : Bool → Prop} (h : Own s) {a : Act N C}
    {c : ClientPtr N C} {fd : Fd} (ha : AllowedOf live t s a)
    (hcloses : a.closes s = some fd)
    (hslot : s.holding (.slot c) = some fd) : a = .closeClient c := by
  cases a <;> simp only [Act.closes, Option.some.injEq, reduceCtorEq]
    at hcloses
  case closeClient d =>
    have hpoint : (s.point d.worker).closing ≠ some d.index := by
      rcases ha.2 with ⟨-, hidle⟩ | hleft
      · rw [hidle]
        exact nofun
      · rw [hleft]
        exact nofun
    have huse : (s.clients d).inUse = true := by
      by_contra hfree
      have hzero := h.free d (by simpa using hfree)
      have hpos := h.pos hslot
      rw [← hcloses, hzero] at hpos
      exact Nat.lt_irrefl 0 hpos
    have hd := holding_slot huse hpoint
    rw [hcloses] at hd
    cases h.owned.unique _ _ fd hslot hd
    rfl
  case closeRefused w fd' =>
    have hw : s.holding (.worker w) = some fd := by
      simp only [State.holding, ha.2, WorkerPoint.fd?, hcloses]
    cases h.owned.unique _ _ fd hslot hw
  case closeRejected fd' =>
    have hmain : s.holding .main = some fd := by
      simp only [State.holding, ha.2, MainPoint.fd?, hcloses]
    cases h.owned.unique _ _ fd hslot hmain
  case closeFailed w fd' =>
    have hmain : s.holding .main = some fd := by
      simp only [State.holding, ha.2, MainPoint.fd?, hcloses]
    cases h.owned.unique _ _ fd hslot hmain

/-- A slot keeps its descriptor and its connection until its own worker
closes it. -/
theorem Own.slot_stays_of {live : Bool → Prop} (h : Own s)
    (hinv : ∀ v, Relay s v) {a : Act N C} {b : a.Answer} {c : ClientPtr N C}
    {fd : Fd} (ha : AllowedOf live t s a) (hclose : a ≠ .closeClient c)
    (he : exec a s = some (b, s')) (hslot : s.holding (.slot c) = some fd) :
    s'.holding (.slot c) = some fd ∧ s'.conns fd = s.conns fd := by
  rcases h.transfer hinv ha he with ⟨closed, htransfer, hcloses⟩ | rfl
  · cases htransfer with
    | keep hh hc _ =>
        rw [hh, hc]
        exact ⟨hslot, rfl⟩
    | move d e fd' hfromSlot hfill hfrom hto hh hc _ =>
        have hd : Holder.slot c ≠ d := (hfromSlot c).symm
        have he : Holder.slot c ≠ e := by
          rintro rfl
          rw [hto] at hslot
          cases hslot
        rw [hh, hc, Function.update_of_ne he, Function.update_of_ne hd]
        exact ⟨hslot, rfl⟩
    | accept fd' hpos hfree hto hh hc _ =>
        have hfd : fd ≠ fd' := by
          rintro rfl
          obtain ⟨q, hq⟩ := h.owned.known _ fd hslot
          rw [hfree] at hq
          cases hq
        rw [hh, hc, Function.update_of_ne hfd, Function.update_of_ne (by simp)]
        exact ⟨hslot, rfl⟩
    | close d fd' hfrom hh hc _ =>
        rcases hcloses with hnone | hcloses
        · cases hnone
        have hfd : fd ≠ fd' := by
          rintro rfl
          exact hclose (h.closer_of_slot ha hcloses.symm hslot)
        have hd : Holder.slot c ≠ d := by
          rintro rfl
          rw [hfrom] at hslot
          exact hfd (Option.some.inj hslot).symm
        rw [hh, hc, Function.update_of_ne hfd, Function.update_of_ne hd]
        exact ⟨hslot, rfl⟩
  · exact ⟨hslot, rfl⟩

theorem Own.slot_stays (h : Own s) (hinv : ∀ v, HandInv s v) {a : Act N C}
    {b : a.Answer} {c : ClientPtr N C} {fd : Fd} (ha : Allowed t s a)
    (hclose : a ≠ .closeClient c) (he : exec a s = some (b, s'))
    (hslot : s.holding (.slot c) = some fd) :
    s'.holding (.slot c) = some fd ∧ s'.conns fd = s.conns fd :=
  h.slot_stays_of (fun v => (hinv v).toRelay) ha hclose he hslot

theorem Own.init [NeZero N] : Own (State.init N C) := by
  have hnone : (State.init N C).holding = fun _ => none := by
    funext a
    cases a <;> rfl
  constructor
  · rw [hnone]
    constructor
    · exact nofun
    · exact nofun
    · exact nofun
  · rfl
  · exact nofun
  · exact fun _ _ => rfl
  · exact nofun
  · exact nofun

end Invariant

/-! ## Runs -/

/-- The connections the descriptors closed by a step denote. -/
def closings (s : State N C) : Step N C → List (Option Conn)
  | .act _ a => ((a.closes s).map s.conns).toList
  | .start .. => []

/-- No read of an eventfd fails and every socket can be configured.  `read` is
taken to fail only on a counter that is zero; the starts that `ReadsSucceed`
leaves out are left out. -/
def Configured (s : State N C) (l : Step N C) : Prop :=
  ReadsSucceed s l ∧ ∀ t fd, l ≠ .act t (.setSocketKeepAlive fd false)

/-- The holder holds a descriptor of the connection. -/
def State.HeldBy (s : State N C) (q : Conn) (a : Holder N C) : Prop :=
  ∃ fd, s.holding a = some fd ∧ s.conns fd = some q

/-- One connection has one slot. -/
theorem Own.slot_inj {s : State N C} (h : Own s) {c d : ClientPtr N C}
    {q : Conn} (hc : s.HeldBy q (.slot c)) (hd : s.HeldBy q (.slot d)) :
    c = d := by
  obtain ⟨fd, hslot, hq⟩ := hc
  obtain ⟨fd', hslot', hq'⟩ := hd
  exact Holder.slot.inj (h.owned.holder_unique hslot hslot' hq hq')

/-- Where the accepted connections are, `closed` being what the closes so far
closed. -/
structure Accounted (k : Configuration N C) (closed : List (Option Conn)) :
    Prop where
  /-- Open, with exactly one holder and never closed, or closed once. -/
  placed : ∀ q < k.shared.accepted,
    (∃! a, k.shared.HeldBy q a) ∧ closed.count (some q) = 0 ∨
      (∀ fd, k.shared.conns fd ≠ some q) ∧ closed.count (some q) = 1
  /-- Between two iterations the main thread holds nothing. -/
  main : k.prog .main = .ret () → ∀ q, ¬ k.shared.HeldBy q .main
  /-- Between two events a worker holds nothing outside its slots. -/
  worker : ∀ w, k.prog (.worker w) = .ret () →
    ∀ q, ¬ k.shared.HeldBy q (.worker w)
  /-- Nothing is closed that is not open. -/
  once : none ∉ closed

/-- A transfer keeps every open connection held and the closes in order. -/
theorem Transfer.ledger {s s' : State N C} {fd : Option Fd}
    {closed : List (Option Conn)} (h : Transfer s fd s') (hown : Own s)
    (hheld : Complete s.holding s.conns)
    (hledger : Ledger s.conns {q | q < s.accepted} closed) :
    Complete s'.holding s'.conns ∧
      Ledger s'.conns {q | q < s'.accepted}
        (closed ++ (fd.map s.conns).toList) := by
  cases h with
  | keep hh hc ha =>
      rw [hh, hc, ha]
      simpa using ⟨hheld, hledger⟩
  | move a b fd hslot hfill hfrom hto hh hc ha =>
      rw [hh, hc, ha]
      simpa using ⟨hheld.move hfrom hto, hledger⟩
  | accept fd hpos hfree hto hh hc ha =>
      have htaken : {q | q < s.accepted + 1} =
          insert s.accepted {q | q < s.accepted} := by
        ext q
        simp only [Set.mem_ofPred_eq, Set.mem_insert_iff]
        omega
      rw [hh, hc, ha, htaken]
      refine ⟨hheld.take hto, ?_⟩
      simpa using hledger.take hfree (v := s.accepted) (by simp)
  | close a fd hfrom hh hc ha =>
      rw [hh, hc, ha]
      obtain ⟨q, hq⟩ := hown.owned.known a fd hfrom
      refine ⟨hheld.drop hfrom, ?_⟩
      simpa using hledger.drop hq fun fd' q' hq' hfd' =>
        hown.owned.distinct fd' fd q' hfd' hq'

section Runs

variable [NeZero N] {ls : List (Step N C)} {k : Configuration N C}

/-- Whatever follows a `CMD_EXIT` in a chunk, there is one token for each
worker and descriptors are owned. -/
theorem owned_run
    (hrun : (server N C).Run CountersRead (Configuration.init N C) ls k) :
    (∀ w, Relay k.shared w) ∧ Own k.shared := by
  refine event_invariant (I := fun s => (∀ w, Relay s w) ∧ Own s)
    CountersRead.event ⟨Relay.init, Own.init⟩ ?_ hrun
  rintro t a s b s' ha hok he ⟨hinv, hown⟩
  refine ⟨Relay.step hinv ha ?_ he, hown.step_of hinv ha he⟩
  rintro w rfl
  exact hok.2 t w rfl

/-- **Descriptor ownership**: as long as every socket can be configured, each
accepted connection is open with exactly one holder or was closed exactly
once. -/
theorem accounted_run {closed : List (Option Conn)}
    (hrun : (server N C).Logged Configured closings (Configuration.init N C)
      closed k) : Accounted k closed := by
  obtain ⟨ls, hls⟩ := hrun.run
  have hreads : ∀ (s : State N C) l, Configured s l → ReadsSucceed s l :=
    fun _ _ h => h.1
  have hinv : ((∀ w, HandInv k.shared w) ∧ Own k.shared) ∧
      Complete k.shared.holding k.shared.conns ∧
        Ledger k.shared.conns {q | q < k.shared.accepted} closed := by
    apply logged_invariant (I := fun s closed =>
      ((∀ w, HandInv s w) ∧ Own s) ∧ Complete s.holding s.conns ∧
        Ledger s.conns {q | q < s.accepted} closed)
      (fun _ _ h => h.1.1) _ _ _ hrun
    · refine ⟨⟨HandInv.init, Own.init⟩, nofun, ?_⟩
      have hempty : {q | q < (State.init N C).accepted} = (∅ : Set Conn) := by
        ext q
        simp [State.init]
      rw [hempty]
      exact Ledger.empty
    · intro t j s closed _ h
      simpa [closings] using h
    · rintro t a s b s' closed ha hok he ⟨⟨hinv, hown⟩, hheld, hledger⟩
      have hkeep : ∀ fd, a ≠ .setSocketKeepAlive fd false := by
        rintro fd rfl
        exact hok.2 t fd rfl
      have hread : ∀ w, a ≠ .readEventfd w false := by
        rintro w rfl
        exact hok.1.2 t w rfl
      exact ⟨⟨HandInv.step hinv ha hread he, hown.step hinv ha he⟩,
        (exec_transfer (fun v => (hinv v).toRelay) ha hkeep
          (fun c hc => by subst hc; exact ha.1.2) he).ledger hown hheld
            hledger⟩
  obtain ⟨⟨-, hown⟩, hheld, hledger⟩ := hinv
  have hsound := control_sound (hls.mono fun _ _ h => h.1.1)
  constructor
  · intro q hq
    by_cases hopen : ∃ fd, k.shared.conns fd = some q
    · obtain ⟨fd, hfd⟩ := hopen
      obtain ⟨a, ha⟩ := hheld fd q hfd
      refine .inl ⟨⟨a, ⟨fd, ha, hfd⟩, ?_⟩, hledger.present fd q hfd⟩
      rintro b ⟨fd', hb, hfd'⟩
      exact hown.owned.holder_unique hb ha hfd' hfd
    · push Not at hopen
      exact .inr ⟨hopen, hledger.absent q hq hopen⟩
  · rintro hidle q ⟨fd, hfd, -⟩
    have hmain : k.shared.main = .idle := hsound.idle_view hidle
    simp only [State.holding, hmain, MainPoint.fd?] at hfd
    cases hfd
  · rintro w hidle q ⟨fd, hfd, -⟩
    have hpoint : k.shared.point w = .idle := hsound.idle_view hidle
    simp only [State.holding, hpoint, WorkerPoint.fd?] at hfd
    cases hfd
  · exact hledger.found

end Runs

/-- The actions, without failing reads of an eventfd and without sockets that
cannot be configured. -/
def execConfigured (a : Act N C) (s : State N C) :
    Option (a.Answer × State N C) :=
  match a with
  | .setSocketKeepAlive _ false => none
  | a => execReads a s

theorem exec_of_execConfigured {a : Act N C} {s : State N C}
    {out : a.Answer × State N C} (h : execConfigured a s = some out)
    (t : Thread N) : exec a s = some out ∧ Configured s (.act t a) := by
  unfold execConfigured at h
  split at h
  · cases h
  · rename_i hkeep
    obtain ⟨he, hok⟩ := exec_of_execReads h t
    refine ⟨he, hok, ?_⟩
    intro t' fd hl
    cases hl
    exact hkeep fd rfl

/-- One client connects and leaves again; a second one stays. -/
theorem accounted_second : ∃ (s : RealState) (closed : List (Option Conn)),
    playBy execConfigured (State.init _ _)
        (connects 0 ++ [(.worker 0, .hangUp (clientOf 0))] ++ connects 1) =
      some s ∧ s.accepted = 2 ∧ Accounted (quiet s) closed := by
  have hplay : (playBy execConfigured
      (State.init maxThreads maxClientsPerThread)
      (connects 0 ++ [(.worker 0, .hangUp (clientOf 0))] ++ connects 1)).map
        (fun s => s.accepted) = some 2 := by
    decide +kernel
  obtain ⟨s, hs, haccepted⟩ := Option.map_eq_some_iff.mp hplay
  obtain ⟨ls, hrun⟩ := playBy_run
    (fun t _ _ _ he => exec_of_execConfigured he t)
    (fun _ _ _ hok => ⟨⟨liveOk_of_startOk hok, fun _ _ hj => by cases hj⟩,
      fun _ _ hj => by cases hj⟩) _ hs
  obtain ⟨closed, hclosed⟩ := hrun.logged closings
  exact ⟨s, closed, hs, haccepted, accounted_run hclosed⟩

/-- A connection whose socket cannot be configured stays open and is
forgotten. -/
theorem not_accounted_leaked : ¬ ∀ (closed : List (Option Conn))
    (k : Configuration maxThreads maxClientsPerThread),
    (server _ _).Logged ReadsSucceed closings (Configuration.init _ _)
      closed k → Accounted k closed := by
  intro h
  -- The state after the main loop has gone on with the next connection.
  obtain ⟨s, hs⟩ : ∃ s : RealState, s = { State.init _ _ with
      conns := Function.update (fun _ => none) 5 (some 0)
      accepted := 1 } := ⟨_, rfl⟩
  have hplay : play (State.init _ _) [(.main, .accept 5 false true)] =
      some s := by
    apply play_one rfl
    rw [hs]
    rfl
  obtain ⟨ls, hrun⟩ := play_reaches hplay
  obtain ⟨closed, hclosed⟩ := hrun.logged closings
  have hopen : s.conns 5 = some 0 := by
    rw [hs]
    rfl
  have hnone : ∀ a, s.holding a = none := by
    intro a
    rw [hs]
    cases a <;> rfl
  have hone : 0 < s.accepted := by
    rw [hs]
    exact Nat.one_pos
  rcases (h closed _ hclosed).placed 0 hone with ⟨⟨a, ⟨fd, ha, -⟩, -⟩, -⟩ | hgone
  · rw [show (quiet s).shared.holding a = none from hnone a] at ha
    cases ha
  · exact hgone.1 5 hopen

end ChatApp.Server
