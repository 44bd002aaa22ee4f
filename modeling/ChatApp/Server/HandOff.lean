import ChatApp.Foundation.Tally
import ChatApp.Server.Routines
import ChatApp.Server.Schedule

/-!
# Handing connections over

The main thread passes a descriptor to a worker through the worker's eventfd,
an additive counter guarded by a semaphore with one token.  `HandInv` follows
one worker through all program points of both sides:

* the token is in the semaphore, or with the main thread that is writing, or
  stands for the value in the counter, or is with the worker that has read it;
* `num_of_clients` counts the live slots and everything on its way to or from
  a slot;
* what was assigned to the worker is, in order, what was picked up or reported
  as a write error, then the descriptor in the counter, then the one the main
  thread holds.
-/

namespace ChatApp.Server

open ChatApp.Foundation

variable {N C : Nat}

/-! ## Accounts -/

/-- The main thread is between `sem_wait` and the end of its write, or has
not posted back after a failed one. -/
def MainPoint.token (w : Fin N) : MainPoint N → Nat
  | .writing v _ | .failed v _ => if v = w then 1 else 0
  | _ => 0

/-- The main thread has counted a connection for the worker and neither
passed it on nor subtracted it again. -/
def MainPoint.reserved (w : Fin N) : MainPoint N → Nat
  | .assigned v _ | .writing v _ | .failed v _ | .posted v _ | .closed v =>
      if v = w then 1 else 0
  | _ => 0

/-- The descriptor the main thread has assigned and not yet written. -/
def MainPoint.held (w : Fin N) : MainPoint N → List Fd
  | .assigned v fd | .writing v fd => if v = w then [fd] else []
  | _ => []

/-- The descriptor the main thread works on. -/
def MainPoint.fd? : MainPoint N → Option Fd
  | .idle | .closed _ => none
  | .accepted fd | .assigned _ fd | .writing _ fd | .failed _ fd
  | .posted _ fd => some fd

/-- The worker has read the counter and not posted yet. -/
def WorkerPoint.token : WorkerPoint C → Nat
  | .picked _ => 1
  | _ => 0

/-- The worker has read a descriptor that is still counted and has no slot
yet. -/
def WorkerPoint.incoming : WorkerPoint C → Nat
  | .picked _ | .posted _ | .registered _ | .refused _ => 1
  | _ => 0

/-- The worker has zeroed a slot that is still counted. -/
def WorkerPoint.outgoing : WorkerPoint C → Nat
  | .zeroed => 1
  | _ => 0

def WorkerPoint.reserved (p : WorkerPoint C) : Nat :=
  p.incoming + p.outgoing

/-- A value is in the worker's counter. -/
def pending (s : State N C) (w : Fin N) : Nat :=
  if s.notification w = 0 then 0 else 1

/-- The worker's live slots. -/
def slots (s : State N C) (w : Fin N) : Nat :=
  tally Client.inUse fun j => s.clients ⟨w, j⟩

/-- What became of an assigned descriptor. -/
inductive Fate where
  | pickedUp
  | writeError
  deriving DecidableEq

/-- The descriptor an entry assigns to the worker. -/
def Entry.assigned? (w : Fin N) : Entry N C → Option Fd
  | .assigned v fd => if v = w then some fd else none
  | _ => none

/-- The descriptor whose hand-over to the worker an entry ends. -/
def Entry.fate? (w : Fin N) : Entry N C → Option (Fd × Fate)
  | .pickedUp v fd => if v = w then some (fd, .pickedUp) else none
  | .writeError v fd => if v = w then some (fd, .writeError) else none
  | _ => none

/-- The descriptors assigned to the worker so far, in order. -/
def State.assignedTo (s : State N C) (w : Fin N) : List Fd :=
  s.journal.filterMap (Entry.assigned? w)

/-- The descriptors picked up by the worker or reported, in order. -/
def State.fates (s : State N C) (w : Fin N) : List (Fd × Fate) :=
  s.journal.filterMap (Entry.fate? w)

/-- The descriptor in the worker's counter. -/
def State.inCounter (s : State N C) (w : Fin N) : List Fd :=
  if s.notification w = 0 then [] else [s.notification w]

/-- The token of one worker, whatever became of the counts. -/
structure Relay (s : State N C) (w : Fin N) : Prop where
  token : s.newClient w + pending s w + s.main.token w +
    (s.point w).token = 1
  reads : s.point w ≠ .unread
  positive : ∀ fd ∈ s.main.fd?, 0 < fd

/-- The hand-over to one worker. -/
structure HandInv (s : State N C) (w : Fin N) : Prop extends Relay s w where
  count : s.numOfClients w = slots s w + s.main.reserved w + pending s w +
    (s.point w).reserved
  capacity : s.numOfClients w ≤ C
  order : s.assignedTo w =
    (s.fates w).map Prod.fst ++ s.inCounter w ++ s.main.held w

/-- A step that moves nothing the accounts of the worker depend on. -/
theorem HandInv.frame {s s' : State N C} {v : Fin N} (h : HandInv s v)
    (hrelay : Relay s' v)
    (hcounter : s'.notification v = s.notification v)
    (hnum : s'.numOfClients v = s.numOfClients v)
    (hslots : slots s' v = slots s v)
    (hreserved : s'.main.reserved v = s.main.reserved v)
    (hheld : s'.main.held v = s.main.held v)
    (hpoint : (s'.point v).reserved = (s.point v).reserved)
    (hassigned : s'.assignedTo v = s.assignedTo v)
    (hfates : s'.fates v = s.fates v) : HandInv s' v := by
  have hpending : pending s' v = pending s v := by
    simp only [pending, hcounter]
  have hin : s'.inCounter v = s.inCounter v := by
    simp only [State.inCounter, hcounter]
  refine { toRelay := hrelay, count := ?_, capacity := ?_, order := ?_ }
  · rw [hnum, hslots, hreserved, hpending, hpoint]
    exact h.count
  · rw [hnum]
    exact h.capacity
  · rw [hassigned, hfates, hin, hheld]
    exact h.order

/-! ## The journal of the hand-over -/

/-- The entry is about a hand-over. -/
def Entry.isTransfer : Entry N C → Bool
  | .assigned .. | .pickedUp .. | .writeError .. => true
  | _ => false

/-- The action may enter a hand-over in the journal. -/
def Act.isTransfer : Act N C → Bool
  | .inspectWorker _ | .readEventfd .. | .writeEventfd .. => true
  | _ => false

/-- The other actions enter nothing about a hand-over. -/
theorem exec_journal {a : Act N C} {s s' : State N C} {b : a.Answer}
    (ha : a.isTransfer = false) (he : exec a s = some (b, s')) :
    ∃ extra, s'.journal = s.journal ++ extra ∧
      ∀ e ∈ extra, Entry.isTransfer e = false := by
  cases a <;> simp only [Act.isTransfer, Bool.true_eq_false] at ha
  case createSection i c roomName successMsg =>
    rcases exec_createSection he with ⟨-, -, rfl⟩ | ⟨-, -, rfl⟩
    · exact ⟨[], by simp⟩
    · exact ⟨_, rfl, by simp [Entry.isTransfer]⟩
  case joinSection i c joinMsg =>
    rcases exec_joinSection he with ⟨r, -, rfl⟩ | rfl | ⟨j, -, -, rfl⟩
    · exact ⟨_, rfl, by simp [Entry.isTransfer]⟩
    · exact ⟨[], by simp⟩
    · simp only [State.afterJoin, List.append_assoc]
      refine ⟨_, rfl, ?_⟩
      simp only [List.mem_append, List.mem_singleton, List.mem_map]
      rintro e (rfl | ⟨d, -, rfl⟩ | rfl) <;> rfl
  case leaveSection i c =>
    rw [exec_leaveSection he]
    simp only [State.afterLeave, List.append_assoc]
    refine ⟨_, rfl, ?_⟩
    simp only [List.mem_append, List.mem_cons, List.mem_map,
      List.not_mem_nil, or_false]
    rintro e ((rfl | rfl) | ⟨d, -, rfl⟩) <;> rfl
  case chatSection i c msg =>
    rw [exec_chatSection he]
    simp only [State.afterChat, List.append_assoc]
    refine ⟨_, rfl, ?_⟩
    simp only [List.mem_append, List.mem_singleton, List.mem_map]
    rintro e (rfl | ⟨d, -, rfl⟩) <;> rfl
  case routeMessage c =>
    rcases exec_routeMessage he with ⟨-, ⟨-, rfl⟩ | ⟨line, -, rfl⟩⟩
    all_goals exact ⟨_, rfl, by simp [Entry.isTransfer]⟩
  case listSection i msg =>
    rcases exec_listSection he with ⟨-, -, rfl⟩ | ⟨-, -, rfl⟩
    · exact ⟨[], by simp⟩
    · exact ⟨_, rfl, by simp [Entry.isTransfer]⟩
  case allocateClientSlot w fd =>
    rcases exec_allocateClientSlot he with ⟨-, -, rfl⟩ | ⟨j, -, -, rfl⟩
    all_goals exact ⟨[], by simp⟩
  case registerWithEpoll w fd ok =>
    rcases exec_registerWithEpoll he with ⟨-, -, rfl⟩ | ⟨-, -, rfl⟩
    all_goals exact ⟨[], by simp⟩
  case accept fd =>
    rw [(exec_accept he).2.2]
    exact ⟨[], by simp⟩
  case setSocketKeepAlive fd ok =>
    rcases exec_setSocketKeepAlive he with ⟨-, -, rfl⟩ | ⟨-, -, rfl⟩
    all_goals exact ⟨[], by simp⟩
  case semWait w fd =>
    rw [(exec_semWait he).2]
    exact ⟨[], by simp⟩
  case strcatCurrentMsg | strcpyName | sprintf | send | leaveOkSection =>
    cases he
    exact ⟨_, rfl, by simp [Entry.isTransfer]⟩
  all_goals
    cases he
    exact ⟨[], (List.append_nil _).symm, by simp⟩

theorem assigned?_of_not {w : Fin N} {e : Entry N C}
    (h : e.isTransfer = false) :
    e.assigned? w = none ∧ e.fate? w = none := by
  cases e <;> simp [Entry.isTransfer, Entry.assigned?, Entry.fate?] at h ⊢

theorem exec_transfers {a : Act N C} {s s' : State N C} {b : a.Answer}
    (ha : a.isTransfer = false) (he : exec a s = some (b, s')) (w : Fin N) :
    s'.assignedTo w = s.assignedTo w ∧ s'.fates w = s.fates w := by
  obtain ⟨extra, hjournal, hextra⟩ := exec_journal ha he
  have hassigned : extra.filterMap (Entry.assigned? w) = [] :=
    List.filterMap_eq_nil_iff.mpr fun e he =>
      (assigned?_of_not (hextra e he)).1
  have hfates : extra.filterMap (Entry.fate? w) = [] :=
    List.filterMap_eq_nil_iff.mpr fun e he =>
      (assigned?_of_not (hextra e he)).2
  simp [State.assignedTo, State.fates, hjournal, hassigned, hfates]

/-! ## Slots -/

/-- A changed record that is live exactly when the old one was. -/
theorem slots_congr {s s' : State N C}
    (h : ∀ c, (s'.clients c).inUse = (s.clients c).inUse) (w : Fin N) :
    slots s' w = slots s w := by
  unfold slots tally
  simp only [h]

theorem slots_update {s s' : State N C} {c : ClientPtr N C} {r : Client}
    (h : s'.clients = Function.update s.clients c r) :
    slots s' c.worker + (s.clients c).inUse.toNat =
      slots s c.worker + r.inUse.toNat := by
  have htable : (fun j => s'.clients ⟨c.worker, j⟩) =
      Function.update (fun j => s.clients ⟨c.worker, j⟩) c.index r := by
    funext j
    rw [h]
    by_cases hj : j = c.index
    · subst hj
      simp
    · have hne : (⟨c.worker, j⟩ : ClientPtr N C) ≠ c := by
        intro heq
        exact hj (congrArg ClientPtr.index heq)
      simp [hj, hne]
  unfold slots
  rw [htable]
  exact tally_update Client.inUse _ c.index r

theorem slots_update_of_ne {s s' : State N C} {c : ClientPtr N C}
    {r : Client} (h : s'.clients = Function.update s.clients c r)
    {w : Fin N} (hw : w ≠ c.worker) : slots s' w = slots s w := by
  have htable : (fun j => s'.clients ⟨w, j⟩) =
      fun j => s.clients ⟨w, j⟩ := by
    funext j
    rw [h, Function.update_of_ne]
    intro heq
    exact hw (congrArg ClientPtr.worker heq)
  unfold slots
  rw [htable]

/-! ## One step of the token -/

section Token

variable {s s' : State N C} {w v : Fin N} {fd : Fd}

/-- A step that leaves the token where it is. -/
theorem Relay.frame (h : Relay s v)
    (hsem : s'.newClient v = s.newClient v)
    (hcounter : s'.notification v = s.notification v)
    (htoken : s'.main.token v = s.main.token v)
    (hfd : ∀ fd ∈ s'.main.fd?, 0 < fd)
    (hpoint : (s'.point v).token = (s.point v).token)
    (hreads : s'.point v ≠ .unread) : Relay s' v := by
  have hpending : pending s' v = pending s v := by
    simp only [pending, hcounter]
  constructor
  · rw [hsem, hpending, htoken, hpoint]
    exact h.token
  · exact hreads
  · exact hfd

/-- The same for one moved program point. -/
theorem Relay.movePoint (h : Relay s v) {p : WorkerPoint C}
    (hsem : s'.newClient = s.newClient)
    (hcounter : s'.notification = s.notification) (hmain : s'.main = s.main)
    (hpoint : s'.point = Function.update s.point w p)
    (hsame : p.token = (s.point w).token) (hp : p ≠ .unread) :
    Relay s' v := by
  refine h.frame (by rw [hsem]) (by rw [hcounter]) (by rw [hmain])
    (by rw [hmain]; exact h.positive) ?_ ?_
  all_goals rw [hpoint]
  · by_cases hv : v = w
    · rw [hv, Function.update_self]
      exact hsame
    · rw [Function.update_of_ne hv]
  · by_cases hv : v = w
    · rw [hv, Function.update_self]
      exact hp
    · rw [Function.update_of_ne hv]
      exact h.reads

/-- A step of the main thread that leaves the token where it is. -/
theorem Relay.moveMain (h : Relay s v)
    (hsem : s'.newClient = s.newClient)
    (hcounter : s'.notification = s.notification)
    (hpoint : s'.point = s.point)
    (hmain : s'.main.token v = s.main.token v)
    (hfd : ∀ fd ∈ s'.main.fd?, 0 < fd) : Relay s' v :=
  h.frame (by rw [hsem]) (by rw [hcounter]) hmain hfd (by rw [hpoint])
    (by rw [hpoint]; exact h.reads)

/-- The main thread takes the token from the semaphore. -/
theorem Relay.wait (h : Relay s v) (hmain : s.main = .assigned w fd)
    (hsem : s.newClient w ≠ 0) :
    Relay { s with
      newClient := Function.update s.newClient w (s.newClient w - 1)
      main := .writing w fd } v := by
  have hpos : 0 < fd := h.positive fd (by rw [hmain]; rfl)
  have htoken := h.token
  simp only [hmain, MainPoint.token] at htoken
  refine
    { token := ?_
      reads := h.reads
      positive := by simpa [MainPoint.fd?] using hpos }
  by_cases hv : v = w
  · subst hv
    simp only [MainPoint.token, pending, Function.update_self,
      if_true] at htoken ⊢
    omega
  · have hv' : w ≠ v := Ne.symm hv
    simpa [MainPoint.token, pending, hv, hv'] using htoken

/-- While the main thread has the token the counter is empty. -/
theorem Relay.empty (h : Relay s w) (hmain : s.main = .writing w fd) :
    s.notification w = 0 := by
  have htoken := h.token
  by_contra hne
  simp only [hmain, MainPoint.token, pending, hne, if_false,
    if_true] at htoken
  omega

/-- The token passes to the value in the counter. -/
theorem Relay.written (h : ∀ v, Relay s v) (hmain : s.main = .writing w fd)
    (v : Fin N) :
    Relay { s with
      notification := Function.update s.notification w
        (s.notification w + fd)
      main := .idle } v := by
  have hpos : fd ≠ 0 :=
    Nat.pos_iff_ne_zero.mp ((h v).positive fd (by rw [hmain]; rfl))
  have hzero := (h w).empty hmain
  have htoken := (h v).token
  simp only [hmain, MainPoint.token] at htoken
  refine
    { token := ?_
      reads := (h v).reads
      positive := by simp [MainPoint.fd?] }
  by_cases hv : v = w
  · subst hv
    simp only [MainPoint.token, pending, hzero, Function.update_self,
      if_true, Nat.zero_add, hpos, if_false] at htoken ⊢
    omega
  · have hv' : w ≠ v := Ne.symm hv
    simpa [MainPoint.token, pending, hv, hv'] using htoken

/-- The main thread posts the token back. -/
theorem Relay.postBack (h : Relay s v) (hmain : s.main = .failed w fd) :
    Relay { s with
      newClient := Function.update s.newClient w (s.newClient w + 1)
      main := .posted w fd } v := by
  have hpos : 0 < fd := h.positive fd (by rw [hmain]; rfl)
  have htoken := h.token
  simp only [hmain, MainPoint.token] at htoken
  refine
    { token := ?_
      reads := h.reads
      positive := by simpa [MainPoint.fd?] using hpos }
  by_cases hv : v = w
  · subst hv
    simp only [MainPoint.token, pending, Function.update_self,
      reduceIte] at htoken ⊢
    omega
  · have hv' : w ≠ v := Ne.symm hv
    simpa [MainPoint.token, pending, hv, hv'] using htoken

/-- The worker reads the counter and has the token. -/
theorem Relay.picked (h : Relay s v) (hpoint : s.point w = .idle)
    (hne : s.notification w ≠ 0) :
    Relay { s with
      notification := Function.update s.notification w 0
      journal := s.journal ++ [.pickedUp w (s.notification w)]
      point := Function.update s.point w (.picked (s.notification w)) } v := by
  by_cases hv : v = w
  · subst hv
    have htoken := h.token
    refine { token := ?_, reads := by simp, positive := h.positive }
    simp only [pending, hne, hpoint, WorkerPoint.token,
      Function.update_self, reduceIte] at htoken ⊢
    omega
  · exact h.frame rfl (Function.update_of_ne hv _ _) rfl h.positive
      (by simp [hv]) (by simpa [hv] using h.reads)

/-- The worker posts the token. -/
theorem Relay.posted (h : Relay s v) (hpoint : s.point w = .picked fd) :
    Relay { s with
      newClient := Function.update s.newClient w (s.newClient w + 1)
      point := Function.update s.point w (.posted fd) } v := by
  by_cases hv : v = w
  · subst hv
    have htoken := h.token
    refine { token := ?_, reads := by simp, positive := h.positive }
    simp only [pending, hpoint, WorkerPoint.token,
      Function.update_self] at htoken ⊢
    omega
  · exact h.frame (Function.update_of_ne hv _ _) rfl rfl h.positive
      (by simp [hv]) (by simpa [hv] using h.reads)

/-- Every allowed action but a failed read of an eventfd keeps one token, for
clients in use or not. -/
theorem Relay.step {live : Bool → Prop} (h : ∀ v, Relay s v) {t : Thread N}
    {a : Act N C} {b : a.Answer} (ha : AllowedOf live t s a)
    (hread : ∀ w, a ≠ .readEventfd w false) (he : exec a s = some (b, s'))
    (v : Fin N) : Relay s' v := by
  by_cases htext : a.isText = true
  · have hsame := exec_sameControl htext he
    exact (h v).frame (by rw [hsame.newClient]) (by rw [hsame.notification])
      (by rw [hsame.main]) (by rw [hsame.main]; exact (h v).positive)
      (by rw [hsame.point]) (by rw [hsame.point]; exact (h v).reads)
  cases a <;> simp only [Act.isText, not_true_eq_false, Bool.false_eq_true,
    not_false_eq_true] at htext
  case createSection i c roomName successMsg =>
    rcases exec_createSection he with ⟨-, -, rfl⟩ | ⟨-, -, rfl⟩
    · exact h v
    · exact (h v).frame rfl rfl rfl (h v).positive rfl (h v).reads
  case joinSection i c joinMsg =>
    rcases exec_joinSection he with ⟨r, -, rfl⟩ | rfl | ⟨j, -, -, rfl⟩
    · exact (h v).frame rfl rfl rfl (h v).positive rfl (h v).reads
    · exact h v
    · exact (h v).frame rfl rfl rfl (h v).positive rfl (h v).reads
  case leaveSection i c =>
    rw [exec_leaveSection he]
    refine (h v).movePoint (w := c.worker) rfl rfl rfl rfl ?_ (by simp)
    rw [ha.1.2.2]
    rfl
  case chatSection i c msg =>
    rw [exec_chatSection he]
    refine (h v).movePoint (w := c.worker) rfl rfl rfl rfl ?_ (by simp)
    rw [ha.2.2.2]
    rfl
  case routeMessage c =>
    rcases exec_routeMessage he with ⟨-, ⟨-, rfl⟩ | ⟨line, -, rfl⟩⟩
    · exact (h v).frame rfl rfl rfl (h v).positive rfl (h v).reads
    · refine (h v).movePoint (w := c.worker) rfl rfl rfl rfl ?_ (by simp)
      rw [ha.2]
      rfl
  case setLobby c =>
    cases he
    refine (h v).movePoint (w := c.worker) rfl rfl rfl rfl ?_ (by simp)
    rcases ha with hready | ⟨-, hleft⟩
    · rw [hready.2.2]
    · rw [hleft]
      rfl
  case closeClient c =>
    cases he
    refine (h v).movePoint (w := c.worker) rfl rfl rfl rfl ?_ (by simp)
    rcases ha.2 with ⟨-, hidle⟩ | hleft
    · rw [hidle]
      rfl
    · rw [hleft]
      rfl
  case zeroClient c =>
    cases he
    refine (h v).movePoint (w := c.worker) rfl rfl rfl rfl ?_ (by simp)
    rw [ha.2]
    rfl
  case subtractZeroed w =>
    cases he
    refine (h v).movePoint (w := w) rfl rfl rfl rfl ?_ (by simp)
    rw [ha.2]
    rfl
  case readEventfd w ok =>
    rcases exec_readEventfd he with ⟨-, hne, -, rfl⟩ | ⟨rfl, -, -⟩
    · exact (h v).picked ha.2 hne
    · exact absurd rfl (hread w)
  case subtractUnread w => exact absurd ha.2 (h w).reads
  case postUnread w => exact absurd ha.2 (h w).reads
  case semPost w fd =>
    cases he
    exact (h v).posted ha.2
  case registerWithEpoll w fd ok =>
    rcases exec_registerWithEpoll he with ⟨-, -, rfl⟩ | ⟨-, -, rfl⟩
    all_goals
      refine (h v).movePoint (w := w) rfl rfl rfl rfl ?_ (by simp)
      rw [ha.2]
      rfl
  case allocateClientSlot w fd =>
    rcases exec_allocateClientSlot he with ⟨-, -, rfl⟩ | ⟨j, -, -, rfl⟩
    all_goals
      refine (h v).movePoint (w := w) rfl rfl rfl rfl ?_ (by simp)
      rw [ha.2]
      rfl
  case subtractRefused w fd =>
    cases he
    refine (h v).movePoint (w := w) rfl rfl rfl rfl ?_ (by simp)
    rw [ha.2]
    rfl
  case closeRefused w fd =>
    cases he
    refine (h v).movePoint (w := w) rfl rfl rfl rfl ?_ (by simp)
    rw [ha.2]
    rfl
  case accept fd =>
    obtain ⟨hpos, -, rfl⟩ := exec_accept he
    refine (h v).moveMain rfl rfl rfl ?_ (by simpa [MainPoint.fd?] using hpos)
    rw [ha.2]
    rfl
  case setSocketKeepAlive fd ok =>
    rcases exec_setSocketKeepAlive he with ⟨-, -, rfl⟩ | ⟨-, -, rfl⟩
    · exact h v
    · refine (h v).moveMain rfl rfl rfl ?_ (by simp [MainPoint.fd?])
      rw [ha.2]
      rfl
  case inspectWorker fd =>
    rcases exec_inspectWorker he with ⟨-, -, rfl⟩ | ⟨-, -, rfl⟩
    · exact h v
    · have hpos : 0 < fd := (h v).positive fd (by rw [ha.2]; rfl)
      refine (h v).moveMain rfl rfl rfl ?_
        (by simpa [MainPoint.fd?] using hpos)
      rw [ha.2]
      rfl
  case advanceIndex =>
    cases he
    exact (h v).moveMain rfl rfl rfl rfl (h v).positive
  case closeRejected fd =>
    cases he
    refine (h v).moveMain rfl rfl rfl ?_ (by simp [MainPoint.fd?])
    rw [ha.2]
    rfl
  case semWait w fd =>
    obtain ⟨hsem, rfl⟩ := exec_semWait he
    exact (h v).wait ha.2 hsem
  case writeEventfd w fd ok =>
    rcases exec_writeEventfd he with ⟨-, -, rfl⟩ | ⟨-, -, rfl⟩
    · exact Relay.written h ha.2 v
    · have hpos : 0 < fd := (h v).positive fd (by rw [ha.2]; rfl)
      refine (h v).moveMain rfl rfl rfl ?_
        (by simpa [MainPoint.fd?] using hpos)
      rw [ha.2]
      rfl
  case postFailed w fd =>
    cases he
    exact (h v).postBack ha.2
  case closeFailed w fd =>
    cases he
    refine (h v).moveMain rfl rfl rfl ?_ (by simp [MainPoint.fd?])
    rw [ha.2]
    rfl
  case subtractFailed w =>
    cases he
    refine (h v).moveMain rfl rfl rfl ?_ (by simp [MainPoint.fd?])
    rw [ha.2]
    rfl

end Token

/-! ## One step of the accounts -/

section Step

variable {s s' : State N C} {w v : Fin N} {fd : Fd}

/-- A step that moves no counter and no list of the hand-over, and the
program points only in ways that reserve the same. -/
theorem HandInv.points (h : HandInv s v) (hrelay : Relay s' v)
    (hcounter : s'.notification = s.notification)
    (hnum : s'.numOfClients = s.numOfClients)
    (hslots : slots s' v = slots s v) (hmain : s'.main = s.main)
    (hpoint : (s'.point v).reserved = (s.point v).reserved)
    (hjournal : s'.assignedTo v = s.assignedTo v ∧ s'.fates v = s.fates v) :
    HandInv s' v :=
  h.frame hrelay (by rw [hcounter]) (by rw [hnum]) hslots
    (by rw [hmain]) (by rw [hmain]) hpoint hjournal.1 hjournal.2

/-- The same for one moved program point. -/
theorem HandInv.movePoint (h : HandInv s v) (hrelay : Relay s' v)
    {p : WorkerPoint C} (hcounter : s'.notification = s.notification)
    (hnum : s'.numOfClients = s.numOfClients)
    (hslots : slots s' v = slots s v) (hmain : s'.main = s.main)
    (hpoint : s'.point = Function.update s.point w p)
    (hsame : p.reserved = (s.point w).reserved)
    (hjournal : s'.assignedTo v = s.assignedTo v ∧ s'.fates v = s.fates v) :
    HandInv s' v := by
  refine h.points hrelay hcounter hnum hslots hmain ?_ hjournal
  rw [hpoint]
  by_cases hv : v = w
  · rw [hv, Function.update_self]
    exact hsame
  · rw [Function.update_of_ne hv]

/-- A step of the main thread that touches no account. -/
theorem HandInv.moveMain (h : HandInv s v) (hrelay : Relay s' v)
    (hcounter : s'.notification = s.notification)
    (hnum : s'.numOfClients = s.numOfClients)
    (hclients : s'.clients = s.clients) (hpoint : s'.point = s.point)
    (hmain : s'.main.reserved v = s.main.reserved v ∧
      s'.main.held v = s.main.held v)
    (hjournal : s'.assignedTo v = s.assignedTo v ∧ s'.fates v = s.fates v) :
    HandInv s' v :=
  h.frame hrelay (by rw [hcounter]) (by rw [hnum])
    (slots_congr (fun c => by rw [hclients]) v) hmain.1 hmain.2
    (by rw [hpoint]) hjournal.1 hjournal.2

/-! ### The main thread -/

theorem HandInv.inspect (h : HandInv s v) (hmain : s.main = .accepted fd)
    (hlt : s.numOfClients s.workerIndex < C)
    (hrelay : Relay { s with
      numOfClients := Function.update s.numOfClients s.workerIndex
        (s.numOfClients s.workerIndex + 1)
      main := .assigned s.workerIndex fd
      journal := s.journal ++ [.assigned s.workerIndex fd] } v) :
    HandInv { s with
      numOfClients := Function.update s.numOfClients s.workerIndex
        (s.numOfClients s.workerIndex + 1)
      main := .assigned s.workerIndex fd
      journal := s.journal ++ [.assigned s.workerIndex fd] } v := by
  have hcount := h.count
  have hcap := h.capacity
  have horder := h.order
  simp only [hmain, MainPoint.reserved, MainPoint.held,
    List.append_nil] at hcount horder
  by_cases hv : v = s.workerIndex
  · subst hv
    refine
      { toRelay := hrelay
        count := ?_
        capacity := ?_
        order := ?_ }
    · simp only [MainPoint.reserved, pending, slots, Function.update_self,
        if_true] at hcount ⊢
      omega
    · simp only [Function.update_self]
      omega
    · simp only [State.assignedTo, State.fates, State.inCounter,
        MainPoint.held, List.filterMap_append, List.filterMap_cons,
        List.filterMap_nil, Entry.assigned?, Entry.fate?,
        if_true, List.append_nil] at horder ⊢
      rw [horder]
  · have hv' : s.workerIndex ≠ v := Ne.symm hv
    refine h.frame hrelay rfl (Function.update_of_ne hv _ _) rfl ?_ ?_ rfl
      ?_ ?_
    · simp [hmain, MainPoint.reserved, hv']
    · simp [hmain, MainPoint.held, hv']
    · simp [State.assignedTo, Entry.assigned?, hv']
    · simp [State.fates, Entry.fate?]

theorem HandInv.written (h : HandInv s v) (hzero : s.notification w = 0)
    (hmain : s.main = .writing w fd)
    (hrelay : Relay { s with
      notification := Function.update s.notification w
        (s.notification w + fd)
      main := .idle } v) :
    HandInv { s with
      notification := Function.update s.notification w
        (s.notification w + fd)
      main := .idle } v := by
  have hcount := h.count
  have horder := h.order
  have hfd : fd ≠ 0 :=
    Nat.pos_iff_ne_zero.mp (h.positive fd (by rw [hmain]; rfl))
  simp only [hmain, MainPoint.reserved, MainPoint.held] at hcount horder
  by_cases hv : v = w
  · subst hv
    refine
      { toRelay := hrelay
        count := ?_
        capacity := h.capacity
        order := ?_ }
    · simp only [MainPoint.reserved, pending, hzero, Function.update_self,
        reduceIte, Nat.zero_add, hfd, slots] at hcount ⊢
      omega
    · simp only [State.inCounter, hzero, if_true, Function.update_self,
        Nat.zero_add, hfd, if_false, MainPoint.held, List.append_nil,
        State.assignedTo, State.fates] at horder ⊢
      exact horder
  · have hv' : w ≠ v := Ne.symm hv
    refine h.frame hrelay (Function.update_of_ne hv _ _) rfl rfl ?_ ?_ rfl
      rfl rfl
    · simp [hmain, MainPoint.reserved, hv']
    · simp [hmain, MainPoint.held, hv']

theorem HandInv.writeFailed (h : HandInv s v) (hzero : s.notification w = 0)
    (hmain : s.main = .writing w fd)
    (hrelay : Relay { s with
      journal := s.journal ++ [.writeError w fd]
      main := .failed w fd } v) :
    HandInv { s with
      journal := s.journal ++ [.writeError w fd]
      main := .failed w fd } v := by
  have hcount := h.count
  have horder := h.order
  simp only [hmain, MainPoint.reserved, MainPoint.held] at hcount horder
  by_cases hv : v = w
  · subst hv
    refine
      { toRelay := hrelay
        count := hcount
        capacity := h.capacity
        order := ?_ }
    simp only [State.assignedTo, State.fates, State.inCounter, hzero,
      if_true, MainPoint.held, List.filterMap_append, List.filterMap_cons,
      List.filterMap_nil, Entry.assigned?, Entry.fate?, List.append_nil,
      List.map_append, List.map_cons, List.map_nil] at horder ⊢
    exact horder
  · have hv' : w ≠ v := Ne.symm hv
    refine h.frame hrelay rfl rfl rfl ?_ ?_ rfl ?_ ?_
    · simp [hmain, MainPoint.reserved]
    · simp [hmain, MainPoint.held, hv']
    · simp [State.assignedTo, Entry.assigned?]
    · simp [State.fates, Entry.fate?, hv']

theorem HandInv.subtractMain (h : HandInv s v) (hmain : s.main = .closed w)
    (hrelay : Relay { s with
      numOfClients := Function.update s.numOfClients w
        (s.numOfClients w - 1)
      main := .idle } v) :
    HandInv { s with
      numOfClients := Function.update s.numOfClients w
        (s.numOfClients w - 1)
      main := .idle } v := by
  have hcount := h.count
  have horder := h.order
  have hcap := h.capacity
  simp only [hmain, MainPoint.reserved, MainPoint.held] at hcount horder
  by_cases hv : v = w
  · subst hv
    refine
      { toRelay := hrelay
        count := ?_
        capacity := ?_
        order := horder }
    · simp only [MainPoint.reserved, pending, slots, Function.update_self,
        reduceIte] at hcount ⊢
      omega
    · simp only [Function.update_self]
      omega
  · have hv' : w ≠ v := Ne.symm hv
    refine h.frame hrelay rfl (Function.update_of_ne hv _ _) rfl ?_ ?_ rfl
      rfl rfl
    · simp [hmain, MainPoint.reserved, hv']
    · simp [hmain, MainPoint.held]

/-! ### The workers -/

theorem HandInv.picked (h : HandInv s v) (hpoint : s.point w = .idle)
    (hne : s.notification w ≠ 0) :
    HandInv { s with
      notification := Function.update s.notification w 0
      journal := s.journal ++ [.pickedUp w (s.notification w)]
      point := Function.update s.point w (.picked (s.notification w)) } v := by
  have hrelay := h.toRelay.picked hpoint hne
  by_cases hv : v = w
  · subst hv
    have hcount := h.count
    have horder := h.order
    refine
      { toRelay := hrelay
        count := ?_
        capacity := h.capacity
        order := ?_ }
    · simp only [pending, hne, hpoint, WorkerPoint.reserved,
        WorkerPoint.incoming, WorkerPoint.outgoing, slots,
        Function.update_self, reduceIte] at hcount ⊢
      omega
    · simp only [State.assignedTo, State.fates, State.inCounter, hne,
        Function.update_self, List.filterMap_append, List.filterMap_cons,
        List.filterMap_nil, Entry.assigned?, Entry.fate?, reduceIte,
        List.append_nil, List.map_append, List.map_cons,
        List.map_nil] at horder ⊢
      exact horder
  · have hv' : w ≠ v := Ne.symm hv
    refine h.frame hrelay (Function.update_of_ne hv _ _) rfl rfl rfl rfl ?_
      ?_ ?_
    · simp [hv]
    · simp [State.assignedTo, Entry.assigned?]
    · simp [State.fates, Entry.fate?, hv']

/-- A subtraction from the count together with what it accounts for. -/
theorem HandInv.subtract (h : HandInv s v) {p : WorkerPoint C}
    (hpoint : (s.point w).reserved = 1) (hp : p.reserved = 0)
    (hrelay : Relay { s with
      numOfClients := Function.update s.numOfClients w
        (s.numOfClients w - 1)
      point := Function.update s.point w p } v) :
    HandInv { s with
      numOfClients := Function.update s.numOfClients w
        (s.numOfClients w - 1)
      point := Function.update s.point w p } v := by
  by_cases hv : v = w
  · subst hv
    have hcount := h.count
    have hcap := h.capacity
    refine
      { toRelay := hrelay
        count := ?_
        capacity := ?_
        order := h.order }
    · simp only [pending, hpoint, hp, slots,
        Function.update_self] at hcount ⊢
      omega
    · simp only [Function.update_self]
      omega
  · refine h.frame hrelay rfl (Function.update_of_ne hv _ _) rfl rfl rfl ?_
      rfl rfl
    simp [hv]

/-- A slot that is filled or emptied against what the program point
reserves. -/
theorem HandInv.exchange (h : HandInv s v) {c : ClientPtr N C} {r : Client}
    {p : WorkerPoint C}
    (htotal : r.inUse.toNat + p.reserved =
      (s.clients c).inUse.toNat + (s.point c.worker).reserved)
    (hrelay : Relay { s with
      clients := Function.update s.clients c r
      point := Function.update s.point c.worker p } v) :
    HandInv { s with
      clients := Function.update s.clients c r
      point := Function.update s.point c.worker p } v := by
  by_cases hv : v = c.worker
  · subst hv
    have hcount := h.count
    have hslots :
        slots { s with
          clients := Function.update s.clients c r
          point := Function.update s.point c.worker p } c.worker +
            (s.clients c).inUse.toNat =
          slots s c.worker + r.inUse.toNat := slots_update rfl
    refine
      { toRelay := hrelay
        count := ?_
        capacity := h.capacity
        order := h.order }
    simp only [pending, Function.update_self] at hcount ⊢
    omega
  · refine h.frame hrelay rfl rfl (slots_update_of_ne rfl hv) rfl rfl ?_ rfl
      rfl
    simp [hv]

/-- Every allowed action but a failed read of an eventfd keeps the accounts
of every worker. -/
theorem HandInv.step (h : ∀ v, HandInv s v) {t : Thread N} {a : Act N C}
    {b : a.Answer} (ha : Allowed t s a)
    (hread : ∀ w, a ≠ .readEventfd w false) (he : exec a s = some (b, s'))
    (v : Fin N) : HandInv s' v := by
  have hrelay := Relay.step (fun v => (h v).toRelay) ha hread he v
  by_cases htransfer : a.isTransfer = true
  · cases a <;> simp only [Act.isTransfer, Bool.false_eq_true] at htransfer
    case inspectWorker fd =>
      rcases exec_inspectWorker he with ⟨-, -, rfl⟩ | ⟨hlt, -, rfl⟩
      · exact h v
      · exact (h v).inspect ha.2 hlt hrelay
    case readEventfd w ok =>
      rcases exec_readEventfd he with ⟨-, hne, -, rfl⟩ | ⟨rfl, -, -⟩
      · exact (h v).picked ha.2 hne
      · exact absurd rfl (hread w)
    case writeEventfd w fd ok =>
      have hzero := (h w).empty ha.2
      rcases exec_writeEventfd he with ⟨-, -, rfl⟩ | ⟨-, -, rfl⟩
      · exact (h v).written hzero ha.2 hrelay
      · exact (h v).writeFailed hzero ha.2 hrelay
  have hjournal := exec_transfers (by simpa using htransfer) he v
  by_cases htext : a.isText = true
  · have hsame := exec_sameControl htext he
    exact (h v).points hrelay hsame.notification hsame.numOfClients
      (slots_congr hsame.inUse v) hsame.main (by rw [hsame.point]) hjournal
  cases a <;> simp only [Act.isText, Act.isTransfer, not_true_eq_false,
    Bool.false_eq_true, not_false_eq_true] at htext htransfer
  case createSection i c roomName successMsg =>
    rcases exec_createSection he with ⟨-, -, rfl⟩ | ⟨-, -, rfl⟩
    · exact h v
    · refine (h v).points hrelay rfl rfl ?_ rfl rfl hjournal
      apply slots_congr
      intro d
      by_cases hd : d = c
      · simp [State.afterCreate, Client.entered, hd]
      · simp [State.afterCreate, hd]
  case joinSection i c joinMsg =>
    rcases exec_joinSection he with ⟨r, -, rfl⟩ | rfl | ⟨j, -, -, rfl⟩
    · exact (h v).points hrelay rfl rfl rfl rfl rfl hjournal
    · exact h v
    · refine (h v).points hrelay rfl rfl ?_ rfl rfl hjournal
      apply slots_congr
      intro d
      by_cases hd : d = c
      · simp [State.afterJoin, Client.entered, hd]
      · simp [State.afterJoin, hd]
  case leaveSection i c =>
    rw [exec_leaveSection he] at hjournal hrelay ⊢
    refine (h v).movePoint hrelay rfl rfl rfl rfl rfl ?_ hjournal
    rw [ha.1.2.2]
    rfl
  case chatSection i c msg =>
    rw [exec_chatSection he] at hjournal hrelay ⊢
    refine (h v).movePoint hrelay rfl rfl rfl rfl rfl ?_ hjournal
    rw [ha.2.2.2]
    rfl
  case routeMessage c =>
    rcases exec_routeMessage he with ⟨-, ⟨-, rfl⟩ | ⟨line, -, rfl⟩⟩
    · exact (h v).points hrelay rfl rfl rfl rfl rfl hjournal
    · refine (h v).movePoint hrelay rfl rfl rfl rfl rfl ?_ hjournal
      rw [ha.2]
      rfl
  case setLobby c =>
    cases he
    have hpoint : (s.point c.worker).reserved = 0 := by
      rcases ha with hready | ⟨-, hleft⟩
      · rw [hready.2.2]
        rfl
      · rw [hleft]
        rfl
    refine (h v).exchange ?_ hrelay
    rw [hpoint]
    rfl
  case closeClient c =>
    cases he
    refine (h v).movePoint hrelay rfl rfl rfl rfl rfl ?_ hjournal
    rcases ha.2 with ⟨-, hidle⟩ | hleft
    · rw [hidle]
      rfl
    · rw [hleft]
      rfl
  case zeroClient c =>
    cases he
    refine (h v).exchange ?_ hrelay
    rw [ha.1.2, ha.2]
    rfl
  case subtractZeroed w =>
    cases he
    refine (h v).subtract ?_ rfl hrelay
    rw [ha.2]
    rfl
  case subtractUnread w => exact absurd ha.2 (h w).reads
  case postUnread w => exact absurd ha.2 (h w).reads
  case semPost w fd =>
    cases he
    refine (h v).movePoint hrelay rfl rfl rfl rfl rfl ?_ hjournal
    rw [ha.2]
    rfl
  case registerWithEpoll w fd ok =>
    rcases exec_registerWithEpoll he with ⟨-, -, rfl⟩ | ⟨-, -, rfl⟩
    all_goals
      refine (h v).movePoint hrelay rfl rfl rfl rfl rfl ?_ hjournal
      rw [ha.2]
      rfl
  case allocateClientSlot w fd =>
    rcases exec_allocateClientSlot he with ⟨-, -, rfl⟩ | ⟨j, hj, -, rfl⟩
    · refine (h v).movePoint hrelay rfl rfl rfl rfl rfl ?_ hjournal
      rw [ha.2]
      rfl
    · have hfree := State.freeSlot?_some hj
      refine (h v).exchange (c := ⟨w, j⟩) ?_ hrelay
      rw [hfree, ha.2]
      rfl
  case subtractRefused w fd =>
    cases he
    refine (h v).subtract ?_ rfl hrelay
    rw [ha.2]
    rfl
  case closeRefused w fd =>
    cases he
    refine (h v).movePoint hrelay rfl rfl rfl rfl rfl ?_ hjournal
    rw [ha.2]
    rfl
  case accept fd =>
    obtain ⟨hpos, -, rfl⟩ := exec_accept he
    refine (h v).moveMain hrelay rfl rfl rfl rfl ?_ hjournal
    rw [ha.2]
    exact ⟨rfl, rfl⟩
  case setSocketKeepAlive fd ok =>
    rcases exec_setSocketKeepAlive he with ⟨-, -, rfl⟩ | ⟨-, -, rfl⟩
    · exact h v
    · refine (h v).moveMain hrelay rfl rfl rfl rfl ?_ hjournal
      rw [ha.2]
      exact ⟨rfl, rfl⟩
  case advanceIndex =>
    cases he
    exact (h v).moveMain hrelay rfl rfl rfl rfl ⟨rfl, rfl⟩ hjournal
  case closeRejected fd =>
    cases he
    refine (h v).moveMain hrelay rfl rfl rfl rfl ?_ hjournal
    rw [ha.2]
    exact ⟨rfl, rfl⟩
  case semWait w fd =>
    obtain ⟨hsem, rfl⟩ := exec_semWait he
    refine (h v).moveMain hrelay rfl rfl rfl rfl ?_ hjournal
    rw [ha.2]
    exact ⟨rfl, rfl⟩
  case postFailed w fd =>
    cases he
    refine (h v).moveMain hrelay rfl rfl rfl rfl ?_ hjournal
    rw [ha.2]
    exact ⟨rfl, rfl⟩
  case closeFailed w fd =>
    cases he
    refine (h v).moveMain hrelay rfl rfl rfl rfl ?_ hjournal
    rw [ha.2]
    exact ⟨rfl, rfl⟩
  case subtractFailed w =>
    cases he
    exact (h v).subtractMain ha.2 hrelay

/-- A registered descriptor is counted, so there is a slot for it. -/
theorem HandInv.allocates {b : Bool} (h : HandInv s w)
    (hpoint : s.point w = .registered fd)
    (he : exec (.allocateClientSlot w fd) s = some (b, s')) : b = true := by
  rcases exec_allocateClientSlot he with ⟨hnone, -, -⟩ | ⟨j, -, hb, -⟩
  · exfalso
    have hcount := h.count
    have hcap := h.capacity
    have hreserved : (s.point w).reserved = 1 := by
      rw [hpoint]
      rfl
    have hlt : tally Client.inUse (fun j => s.clients ⟨w, j⟩) <
        Fintype.card (Fin C) := by
      rw [Fintype.card_fin]
      simp only [slots] at hcount
      omega
    obtain ⟨j, hj⟩ := exists_of_tally_lt hlt
    rw [State.freeSlot?_none hnone j] at hj
    cases hj
  · exact hb

end Step

/-! ## Runs -/

theorem Relay.init [NeZero N] (w : Fin N) : Relay (State.init N C) w := by
  constructor
  · simp [State.init, pending, MainPoint.token, WorkerPoint.token]
  · simp [State.init]
  · simp [State.init, MainPoint.fd?]

theorem HandInv.init [NeZero N] (w : Fin N) :
    HandInv (State.init N C) w := by
  have hslots : slots (State.init N C) w = 0 :=
    tally_const_false (b := Client.zero) rfl
  refine { toRelay := .init w, count := ?_, capacity := ?_, order := ?_ }
  · rw [hslots]
    simp [State.init, pending, MainPoint.reserved, WorkerPoint.reserved,
      WorkerPoint.incoming, WorkerPoint.outgoing]
  · simp [State.init]
  · simp [State.init, State.assignedTo, State.fates, State.inCounter,
      MainPoint.held]

section Runs

variable [NeZero N] {ls : List (Step N C)} {k : Configuration N C}

theorem handInv_run
    (hrun : (server N C).Run ReadsSucceed (Configuration.init N C) ls k)
    (w : Fin N) : HandInv k.shared w := by
  have hall : ∀ w, HandInv k.shared w := by
    apply run_invariant (I := fun s => ∀ w, HandInv s w)
      (fun _ _ h => h.1) HandInv.init _ hrun
    intro t a s b s' ha hok he h
    apply HandInv.step h ha _ he
    intro w hw
    rw [hw] at hok
    exact hok.2 t w rfl
  exact hall w

/-- The hand-overs to the worker that are counted and have no slot yet:
selected, or failed and not yet subtracted; written to the eventfd; read and
not allocated. -/
def handOffs (s : State N C) (w : Fin N) : Nat :=
  s.main.reserved w + pending s w + (s.point w).incoming

/-- **Capacity accounting**: in every reachable state the count of a worker
is its live slots, the hand-overs on their way and the slots zeroed but not
yet subtracted; it stays between zero and the capacity, and
`allocate_client_slot` finds a free slot whenever it is called. -/
theorem capacity_run
    (hrun : (server N C).Run ReadsSucceed (Configuration.init N C) ls k)
    (w : Fin N) :
    k.shared.numOfClients w =
        slots k.shared w + handOffs k.shared w +
          (k.shared.point w).outgoing ∧
      0 ≤ k.shared.numOfClients w ∧ k.shared.numOfClients w ≤ C ∧
      ∀ t fd next b s',
        k.prog t = .act (.allocateClientSlot w fd) next →
        exec (.allocateClientSlot w fd) k.shared = some (b, s') →
        b = true := by
  have h := handInv_run hrun w
  have hcount := h.count
  have hcap := h.capacity
  have htotal : k.shared.numOfClients w =
      slots k.shared w + handOffs k.shared w +
        (k.shared.point w).outgoing := by
    rw [hcount]
    simp only [handOffs, WorkerPoint.reserved]
    push_cast
    omega
  refine ⟨htotal, by omega, hcap, ?_⟩
  intro t fd next b s' hp he
  have hsound := control_sound (hrun.mono fun _ _ h => h.1)
  have hok : LiveOk k.shared (.act t (.allocateClientSlot w fd)) :=
    ⟨trivial, fun _ _ _ hj => by cases hj⟩
  exact h.allocates (hsound.pre hp hok).2 he

/-- Four connections have their slots, a fifth is written to the eventfd of the
first worker, and this worker has zeroed the slot of the first one. -/
def departs : List (System.Cue (Thread maxThreads)
    (Job maxThreads maxClientsPerThread)) :=
  finishing (connects 0 ++ connects 1 ++ connects 2 ++ connects 3 ++
    [(.main, .accept 9 true true)]) ++
    [.give (.worker 0) (.hangUp (clientOf 0)), .act (.worker 0) 4]

/-- A hand-over and a departure are under way. -/
theorem capacity_departing :
    ∃ k : Configuration maxThreads maxClientsPerThread,
      follow startOk (fun _ _ => []) departs (Configuration.init _ _) =
        some (([] : List Unit), k) ∧
        slots k.shared 0 = 0 ∧ handOffs k.shared 0 = 1 ∧
        (k.shared.point 0).outgoing = 1 ∧ k.shared.numOfClients 0 = 2 := by
  have hfollow : (follow startOk (fun _ _ => ([] : List Unit)) departs
      (Configuration.init maxThreads maxClientsPerThread)).map (fun out =>
        decide (out.1 = [] ∧ slots out.2.shared 0 = 0 ∧
          handOffs out.2.shared 0 = 1 ∧
          (out.2.shared.point 0).outgoing = 1)) = some true := by
    decide +kernel
  obtain ⟨⟨es, k⟩, hk, hfacts⟩ := Option.map_eq_some_iff.mp hfollow
  obtain ⟨rfl, hslots, hhandOffs, houtgoing⟩ := of_decide_eq_true hfacts
  obtain ⟨ls, hrun⟩ := follow_reaches hk
  have hcount := (capacity_run hrun 0).1
  rw [hslots, hhandOffs, houtgoing] at hcount
  exact ⟨k, hk, hslots, hhandOffs, houtgoing, hcount⟩

/-- What the semaphore protocol guarantees of one worker. -/
structure HandedOver (s : State N C) (w : Fin N) : Prop where
  /-- The semaphore and the hand-overs being written, pending and being read
  share one token. -/
  token : s.newClient w + pending s w + s.main.token w +
    (s.point w).token = 1
  /-- The counter is zero or one descriptor, assigned and not yet read. -/
  counter : s.notification w = 0 ∨
    0 < s.notification w ∧ s.notification w ∈ s.assignedTo w ∧
      s.inCounter w = [s.notification w]
  /-- The assigned descriptors are, in order and each once, those that were
  picked up or reported, the one in the counter, and the one the main thread
  has not written yet. -/
  order : s.assignedTo w =
    (s.fates w).map Prod.fst ++ s.inCounter w ++ s.main.held w

/-- **Exactly-once hand-over** in every reachable state. -/
theorem handedOver_run
    (hrun : (server N C).Run ReadsSucceed (Configuration.init N C) ls k)
    (w : Fin N) : HandedOver k.shared w := by
  have h := handInv_run hrun w
  constructor
  · exact h.token
  · by_cases hzero : k.shared.notification w = 0
    · exact .inl hzero
    · have hin : k.shared.inCounter w = [k.shared.notification w] := by
        simp [State.inCounter, hzero]
      refine .inr ⟨Nat.pos_of_ne_zero hzero, ?_, hin⟩
      rw [h.order, hin]
      simp
  · exact h.order

end Runs

/-- One connection that has been accepted and written to its worker's
eventfd. -/
theorem handedOver_pending :
    ∃ s : RealState,
      play (State.init _ _) [(.main, .accept 5 true true)] = some s ∧
        s.notification 0 = 5 ∧ HandedOver s 0 := by
  have hplay : (play (State.init maxThreads maxClientsPerThread)
      [(.main, .accept 5 true true)]).map (fun s => s.notification 0) =
        some 5 := by
    decide +kernel
  obtain ⟨s, hs, hnote⟩ := Option.map_eq_some_iff.mp hplay
  obtain ⟨ls, hrun⟩ := play_reaches hs
  exact ⟨s, hs, hnote, handedOver_run hrun 0⟩

end ChatApp.Server
