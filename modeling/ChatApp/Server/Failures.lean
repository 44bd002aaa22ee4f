import ChatApp.Server.HandOff

/-!
# The failure exits of the hand-over

A failing eventfd write, eventfd read or `epoll_ctl` is handled by undoing what was
done for the connection so far.  `restored_iff` says for which of the three the
accounts of all workers are right again afterwards, whatever the other threads do
meanwhile as long as they keep the accounts themselves.
-/

namespace ChatApp.Server

open ChatApp.Foundation

variable {N C : Nat} {s s' : State N C} {v w : Fin N} {fd : Fd}

/-! ## The accounts -/

/-- The accounts of a worker: one token between the semaphore and the hand-overs,
and every slot and every reserved hand-over counted once. -/
structure Accounts (s : State N C) (w : Fin N) : Prop where
  token : s.newClient w + pending s w + s.main.token w +
    (s.point w).token = 1
  count : s.numOfClients w = slots s w + s.main.reserved w + pending s w +
    (s.point w).reserved

theorem HandInv.accounts (h : HandInv s w) : Accounts s w :=
  ⟨h.token, h.count⟩

/-- The semaphore is at most one, what is in the counter is counted, and so are
the live slots. -/
theorem Accounts.bounds (h : Accounts s w) :
    s.newClient w ≤ 1 ∧ (slots s w + pending s w : Int) ≤ s.numOfClients w := by
  have htoken := h.token
  have hcount := h.count
  omega

/-- A step of the main thread that moves as much as it gives back. -/
theorem Accounts.moveMain (h : Accounts s v)
    (hclients : s'.clients = s.clients) (hpoint : s'.point = s.point)
    (hcounter : s'.notification = s.notification)
    (htoken : s'.newClient v + s'.main.token v =
      s.newClient v + s.main.token v)
    (hnum : s'.numOfClients v + s.main.reserved v =
      s.numOfClients v + s'.main.reserved v) : Accounts s' v := by
  have htoken₀ := h.token
  have hcount₀ := h.count
  have hslots : slots s' v = slots s v :=
    slots_congr (fun c => by rw [hclients]) v
  have hpending : pending s' v = pending s v := by
    simp only [pending, hcounter]
  constructor
  · rw [hpending, hpoint]
    omega
  · rw [hpending, hpoint, hslots]
    omega

/-- A step of a worker that moves as much as it gives back. -/
theorem Accounts.movePoint (h : Accounts s v)
    (hclients : s'.clients = s.clients) (hmain : s'.main = s.main)
    (hcounter : s'.notification = s.notification)
    (hsem : s'.newClient = s.newClient)
    (htoken : (s'.point v).token = (s.point v).token)
    (hnum : s'.numOfClients v + (s.point v).reserved =
      s.numOfClients v + (s'.point v).reserved) : Accounts s' v := by
  have htoken₀ := h.token
  have hcount₀ := h.count
  have hslots : slots s' v = slots s v :=
    slots_congr (fun c => by rw [hclients]) v
  have hpending : pending s' v = pending s v := by
    simp only [pending, hcounter]
  constructor
  · rw [hpending, hmain, hsem, htoken]
    exact htoken₀
  · rw [hpending, hmain, hslots]
    omega

/-! ## The failures -/

/-- A failing system call of the hand-over. -/
inductive Failure (N : Nat) where
  | write (w : Fin N) (clientFd : Fd)
  | read (w : Fin N)
  | epollCtl (w : Fin N) (clientFd : Fd)

namespace Failure

/-- The failing call and all that is done about it. -/
def prog : Failure N → ServerProg N C Unit
  | .write w clientFd => writeClient w clientFd false
  | .read w => registerNewClient w false true
  | .epollCtl w clientFd => setUpClient w clientFd false

/-- The thread has come to the call. -/
def Possible (s : State N C) : Failure N → Prop
  | .write w clientFd => s.main = .writing w clientFd
  | .read w => s.point w = .idle
  | .epollCtl w clientFd => s.point w = .posted clientFd

/-- What the other threads may do: they keep the accounts, and do not touch the
program point of the thread that handles the failure. -/
structure Rely (f : Failure N) (s s' : State N C) : Prop where
  accounts : (∀ v, Accounts s v) → ∀ v, Accounts s' v
  point : match f with
    | .write .. => s'.main = s.main
    | .read w | .epollCtl w _ => s'.point w = s.point w

def isRead : Failure N → Bool
  | .read _ => true
  | _ => false

/-- Handled to the end, the failure leaves the accounts of all workers right. -/
def Restores (R : State N C → State N C → Prop) (f : Failure N)
    (s : State N C) : Prop :=
  ∀ steps s', Prog.Exec exec R f.prog s steps () s' → ∀ v, Accounts s' v ∧
    s'.newClient v ≤ 1 ∧ (slots s' v + pending s' v : Int) ≤ s'.numOfClients v

end Failure

section Handling

variable {R : State N C → State N C → Prop} {steps : Steps N C}

/-- Up to the next step of the thread the accounts stay right. -/
theorem exec_next {f : Failure N} (hR : ∀ s s', R s s' → f.Rely s s')
    (hs : ∀ v, Accounts s v) {a : Act N C}
    {next : a.Answer → ServerProg N C Unit}
    (h : Prog.Exec exec R (.act a next) s steps () s') :
    ∃ s₁ answer s₂ rest, (∀ v, Accounts s₁ v) ∧ f.Rely s s₁ ∧
      exec a s₁ = some (answer, s₂) ∧
      Prog.Exec exec R (next answer) s₂ rest () s' := by
  obtain ⟨s₁, answer, s₂, rest, -, hR₁, he, hrest⟩ := Prog.Exec.act_inv h
  exact ⟨s₁, answer, s₂, rest, (hR _ _ hR₁).accounts hs, hR _ _ hR₁, he, hrest⟩

/-- The failing write and `handle_write_error`. -/
theorem exec_writeFailure
    (hR : ∀ s s', R s s' → (Failure.write w fd).Rely s s')
    (hs : ∀ v, Accounts s v) (hmain : s.main = .writing w fd)
    (h : Prog.Exec exec R (Failure.write w fd).prog s steps () s') :
    ∀ v, Accounts s' v := by
  obtain ⟨s₁, _, s₂, _, hs₁, hrely₁, he₁, h⟩ := exec_next hR hs h
  have hmain₁ : s₁.main = .writing w fd := hrely₁.point.trans hmain
  cases he₁
  have hs₂ : ∀ v, Accounts (writeEventfd s₁ w fd false).2 v := by
    intro v
    refine (hs₁ v).moveMain rfl rfl rfl ?_ ?_
    · simp [writeEventfd, hmain₁, MainPoint.token]
    · simp [writeEventfd, hmain₁, MainPoint.reserved]
  -- the semaphore is posted back
  obtain ⟨s₃, _, s₄, _, hs₃, hrely₃, he₃, h⟩ := exec_next hR hs₂ h
  have hmain₃ : s₃.main = .failed w fd := hrely₃.point
  have hs₄ : ∀ v, Accounts s₄ v := by
    cases he₃
    intro v
    refine (hs₃ v).moveMain rfl rfl rfl ?_ ?_
    · by_cases hv : v = w
      · subst hv
        simp [hmain₃, MainPoint.token]
      · simp [hmain₃, MainPoint.token, hv, Ne.symm hv]
    · simp [hmain₃, MainPoint.reserved]
  have hmain₄ : s₄.main = .posted w fd := by
    cases he₃
    rfl
  -- the client is told and its descriptor closed
  obtain ⟨s₅, _, s₆, _, hs₅, hrely₅, he₅, h⟩ := exec_next hR hs₄ h
  have hmain₅ : s₅.main = .posted w fd := hrely₅.point.trans hmain₄
  have hs₆ : ∀ v, Accounts s₆ v := by
    cases he₅
    exact fun v => (hs₅ v).moveMain rfl rfl rfl rfl rfl
  have hmain₆ : s₆.main = .posted w fd := by
    cases he₅
    exact hmain₅
  obtain ⟨s₇, _, s₈, _, hs₇, hrely₇, he₇, h⟩ := exec_next hR hs₆ h
  have hmain₇ : s₇.main = .posted w fd := hrely₇.point.trans hmain₆
  have hs₈ : ∀ v, Accounts s₈ v := by
    cases he₇
    intro v
    refine (hs₇ v).moveMain rfl rfl rfl ?_ ?_
    · simp [hmain₇, MainPoint.token]
    · simp [hmain₇, MainPoint.reserved]
  have hmain₈ : s₈.main = .closed w := by
    cases he₇
    rfl
  -- and the connection is no longer counted
  obtain ⟨s₉, _, s₁₀, _, hs₉, hrely₉, he₉, h⟩ := exec_next hR hs₈ h
  have hmain₉ : s₉.main = .closed w := hrely₉.point.trans hmain₈
  have hs₁₀ : ∀ v, Accounts s₁₀ v := by
    cases he₉
    intro v
    refine (hs₉ v).moveMain rfl rfl rfl ?_ ?_
    · simp [hmain₉, MainPoint.token]
    · by_cases hv : v = w
      · subst hv
        simp [hmain₉, MainPoint.reserved]
      · simp [hmain₉, MainPoint.reserved, hv, Ne.symm hv]
  obtain ⟨-, -, hend⟩ := Prog.Exec.ret_inv h
  exact (hR _ _ hend).accounts hs₁₀

/-- The failing `epoll_ctl`: the connection is dropped. -/
theorem exec_epollFailure
    (hR : ∀ s s', R s s' → (Failure.epollCtl w fd).Rely s s')
    (hs : ∀ v, Accounts s v) (hpoint : s.point w = .posted fd)
    (h : Prog.Exec exec R (Failure.epollCtl w fd).prog s steps () s') :
    ∀ v, Accounts s' v := by
  obtain ⟨s₁, _, s₂, _, hs₁, hrely₁, he₁, h⟩ := exec_next hR hs h
  have hpoint₁ : s₁.point w = .posted fd := hrely₁.point.trans hpoint
  cases he₁
  have hs₂ : ∀ v, Accounts { s₁ with
      point := Function.update s₁.point w (.refused fd) } v := by
    intro v
    by_cases hv : v = w
    · subst hv
      refine (hs₁ v).movePoint rfl rfl rfl rfl ?_ ?_
      · simp [hpoint₁, WorkerPoint.token]
      · simp [hpoint₁, WorkerPoint.reserved, WorkerPoint.incoming,
          WorkerPoint.outgoing]
    · refine (hs₁ v).movePoint rfl rfl rfl rfl ?_ ?_ <;> simp [hv]
  -- the connection is no longer counted
  obtain ⟨s₃, _, s₄, _, hs₃, hrely₃, he₃, h⟩ := exec_next hR hs₂ h
  have hpoint₃ : s₃.point w = .refused fd :=
    hrely₃.point.trans (Function.update_self _ _ _)
  have hs₄ : ∀ v, Accounts s₄ v := by
    cases he₃
    intro v
    by_cases hv : v = w
    · subst hv
      refine (hs₃ v).movePoint rfl rfl rfl rfl ?_ ?_
      · simp [hpoint₃, WorkerPoint.token]
      · simp [hpoint₃, WorkerPoint.reserved, WorkerPoint.incoming,
          WorkerPoint.outgoing]
    · refine (hs₃ v).movePoint rfl rfl rfl rfl ?_ ?_ <;> simp [hv]
  have hpoint₄ : s₄.point w = .dropping fd := by
    cases he₃
    exact Function.update_self _ _ _
  -- and its descriptor closed
  obtain ⟨s₅, _, s₆, _, hs₅, hrely₅, he₅, h⟩ := exec_next hR hs₄ h
  have hpoint₅ : s₅.point w = .dropping fd := hrely₅.point.trans hpoint₄
  have hs₆ : ∀ v, Accounts s₆ v := by
    cases he₅
    intro v
    by_cases hv : v = w
    · subst hv
      refine (hs₅ v).movePoint rfl rfl rfl rfl ?_ ?_
      · simp [hpoint₅, WorkerPoint.token]
      · simp [hpoint₅, WorkerPoint.reserved, WorkerPoint.incoming,
          WorkerPoint.outgoing]
    · refine (hs₅ v).movePoint rfl rfl rfl rfl ?_ ?_ <;> simp [hv]
  obtain ⟨-, -, hend⟩ := Prog.Exec.ret_inv h
  exact (hR _ _ hend).accounts hs₆

/-- The failing `read` posts the semaphore although the token is where it was. -/
theorem exec_readFailure (hrefl : ∀ s, R s s) (hs : Accounts s w)
    (hpoint : s.point w = .idle) :
    ∃ steps s', Prog.Exec exec R (Failure.read w).prog s steps () s' ∧
      ¬ Accounts s' w := by
  let s₁ : State N C := { s with point := Function.update s.point w .unread }
  let s₂ : State N C := { s₁ with
    numOfClients := Function.update s₁.numOfClients w (s₁.numOfClients w - 1) }
  let s₃ : State N C := { s₂ with
    newClient := Function.update s₂.newClient w (s₂.newClient w + 1)
    point := Function.update s₂.point w .idle }
  refine ⟨_, s₃, .act (hrefl s) rfl
    (.act (hrefl s₁) rfl
      (.act (hrefl s₂) rfl (.ret (hrefl s₃)))), ?_⟩
  intro hend
  have htoken := hs.token
  have htoken' := hend.token
  have hsem : s₃.newClient w = s.newClient w + 1 := Function.update_self _ _ _
  have hidle : s₃.point w = .idle := Function.update_self _ _ _
  have hpending : pending s₃ w = pending s w := rfl
  have hmain : s₃.main = s.main := rfl
  rw [hsem, hidle, hpending, hmain] at htoken'
  rw [hpoint] at htoken
  omega

end Handling

/-- **The failure exits.**  From every state in which the accounts of all workers
are right, handling a failure to its end makes them right again if and only if it
is not the `read` of an eventfd that failed. -/
theorem restored_iff {R : State N C → State N C → Prop} {f : Failure N}
    (hs : ∀ v, Accounts s v) (hf : f.Possible s) (hrefl : ∀ s, R s s)
    (hR : ∀ s s', R s s' → f.Rely s s') :
    f.Restores R s ↔ f.isRead = false := by
  constructor
  · intro h
    cases f with
    | write w fd => rfl
    | epollCtl w fd => rfl
    | read w =>
        obtain ⟨steps, s', hexec, hbroken⟩ :=
          exec_readFailure hrefl (hs w) hf
        exact absurd (h steps s' hexec w).1 hbroken
  · intro hread steps s' hexec
    have hend : ∀ v, Accounts s' v := by
      cases f with
      | write w fd => exact exec_writeFailure hR hs hf hexec
      | epollCtl w fd => exact exec_epollFailure hR hs hf hexec
      | read w => cases hread
    exact fun v => ⟨hend v, (hend v).bounds⟩

/-- A descriptor that the first worker cannot register with epoll. -/
theorem restored_epollCtl : ∃ s : RealState,
    (∀ v, Accounts s v) ∧ (Failure.epollCtl 0 5).Possible s ∧
      (Failure.epollCtl 0 5).Restores Eq s := by
  let s : RealState := { State.init _ _ with
    numOfClients := Function.update (fun _ => 0) 0 1
    point := Function.update (fun _ => .idle) 0 (.posted 5) }
  have hslots : ∀ v, slots s v = 0 := fun v =>
    tally_const_false (p := Client.inUse) (b := Client.zero) rfl
  have hs : ∀ v, Accounts s v := by
    intro v
    by_cases hv : v = 0
    · subst hv
      exact ⟨rfl, by rw [hslots]; rfl⟩
    · have hpoint : s.point v = .idle := by simp [s, hv]
      have hnum : s.numOfClients v = 0 := by simp [s, hv]
      exact ⟨by rw [hpoint]; rfl, by rw [hslots, hpoint, hnum]; rfl⟩
  have hpossible : (Failure.epollCtl 0 5).Possible s := by
    simp [Failure.Possible, s]
  exact ⟨s, hs, hpossible, (restored_iff hs hpossible (fun _ => rfl)
    (by rintro s _ rfl; exact ⟨id, rfl⟩)).mpr rfl⟩

/-- A read that fails while a descriptor is in the counter. -/
theorem not_restored_read : ¬ ∀ (ls : List (Step _ _))
    (k : Configuration maxThreads maxClientsPerThread)
    (f : Failure maxThreads),
    (server _ _).Run ReadsSucceed (Configuration.init _ _) ls k →
      (∀ t, k.prog t = .ret ()) → (∀ v, Accounts k.shared v) →
      f.Possible k.shared → f.Restores Eq k.shared := by
  intro hall
  have hplay : (play (State.init maxThreads maxClientsPerThread)
      [(.main, .accept 5 true true)]).map (fun s =>
        (s.notification 0, s.point 0)) = some (5, .idle) := by
    decide +kernel
  obtain ⟨s, hs, hstart⟩ := Option.map_eq_some_iff.mp hplay
  obtain ⟨-, hpoint⟩ := Prod.mk.inj hstart
  obtain ⟨ls, hrun⟩ := play_reaches hs
  have haccounts : ∀ v, Accounts s v := fun v => (handInv_run hrun v).accounts
  have hrestores := hall ls (quiet s) (.read 0) hrun (fun _ => rfl) haccounts
    hpoint
  obtain ⟨steps, s', hexec, hbroken⟩ :=
    exec_readFailure (R := Eq) (fun _ => rfl) (haccounts 0) hpoint
  exact hbroken (hrestores steps s' hexec 0).1

end ChatApp.Server
