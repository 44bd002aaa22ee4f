import ChatApp.Foundation.RoundRobin
import ChatApp.Server.Coupling

/-!
# Selecting a worker

`find_worker_not_at_capacity` inspects the workers in cyclic order, one critical
section each, while they may lower their counts.  `Passed` says of a part of the
call that it found nobody below capacity, `findWorkerLoop_exec` how the call
goes on from any index.

Without departures the workers are dealt connections in turn: `Dealt` ties the
counts to the shares of so many items, and the static index to whose turn it is.
-/

namespace ChatApp.Server

open ChatApp.Foundation

variable {N C : Nat}

theorem nextIndex_eq : (nextIndex : Fin N → Fin N) = next := rfl

/-! ## One call among departures -/

/-- What workers may do between two inspections. -/
def Lowers (s s' : State N C) : Prop :=
  s'.workerIndex = s.workerIndex ∧ ∀ w, s'.numOfClients w ≤ s.numOfClients w

theorem Lowers.refl (s : State N C) : Lowers s s :=
  ⟨rfl, fun _ => Int.le_refl _⟩

/-- Only the actions on a count change one, and only one action moves the
index. -/
theorem exec_counts {s s' : State N C} {a : Act N C} {b : a.Answer}
    (hcount : a.count? s = none) (he : exec a s = some (b, s')) :
    s'.numOfClients = s.numOfClients ∧
      (a ≠ .advanceIndex → s'.workerIndex = s.workerIndex) := by
  cases hroom : a.room? with
  | some i =>
      obtain ⟨hsame, hnum, -⟩ := exec_room_frame hroom he
      exact ⟨hnum, fun _ => hsame.workerIndex⟩
  | none =>
      cases a <;> simp only [Act.room?, Act.count?, reduceCtorEq] at hroom hcount
      case readEventfd w ok =>
        rcases exec_readEventfd he with ⟨-, -, -, rfl⟩ | ⟨-, -, rfl⟩
        all_goals exact ⟨rfl, fun _ => rfl⟩
      case allocateClientSlot w fd =>
        rcases exec_allocateClientSlot he with ⟨-, -, rfl⟩ | ⟨j, -, -, rfl⟩
        all_goals exact ⟨rfl, fun _ => rfl⟩
      case registerWithEpoll w fd ok =>
        rcases exec_registerWithEpoll he with ⟨-, -, rfl⟩ | ⟨-, -, rfl⟩
        all_goals exact ⟨rfl, fun _ => rfl⟩
      case routeMessage c =>
        rcases exec_routeMessage he with ⟨-, ⟨-, rfl⟩ | ⟨line, -, rfl⟩⟩
        all_goals exact ⟨rfl, fun _ => rfl⟩
      case accept fd =>
        rw [(exec_accept he).2.2]
        exact ⟨rfl, fun _ => rfl⟩
      case setSocketKeepAlive fd ok =>
        rcases exec_setSocketKeepAlive he with ⟨-, -, rfl⟩ | ⟨-, -, rfl⟩
        all_goals exact ⟨rfl, fun _ => rfl⟩
      case semWait w fd =>
        rw [(exec_semWait he).2]
        exact ⟨rfl, fun _ => rfl⟩
      case writeEventfd w fd ok =>
        rcases exec_writeEventfd he with ⟨-, -, rfl⟩ | ⟨-, -, rfl⟩
        all_goals exact ⟨rfl, fun _ => rfl⟩
      case advanceIndex =>
        cases he
        exact ⟨rfl, fun h => absurd rfl h⟩
      all_goals
        cases he
        exact ⟨rfl, fun _ => rfl⟩

/-- Workers do nothing else to the counts and the index. -/
theorem lowers_of_worker {live : Bool → Prop} {s s' : State N C}
    {t : Thread N} {a : Act N C} {b : a.Answer} (ha : AllowedOf live t s a)
    (ht : t ≠ .main)
    (he : exec a s = some (b, s')) : Lowers s s' := by
  cases hcount : a.count? s with
  | none =>
      obtain ⟨hnum, hindex⟩ := exec_counts hcount he
      refine ⟨hindex ?_, fun w => by rw [hnum]⟩
      rintro rfl
      exact ht ha
  | some w =>
      obtain ⟨hsame, -, -, -, hother⟩ := exec_count_frame hcount he
      refine ⟨hsame.workerIndex, fun v => ?_⟩
      by_cases hv : v = w
      · subst hv
        cases a <;> simp only [Act.count?, Option.some.injEq,
          reduceCtorEq] at hcount
        case inspectWorker fd => exact absurd ha.1 ht
        all_goals
          cases he
          subst hcount
          show Function.update s.numOfClients _ _ _ ≤ _
          rw [Function.update_self]
          omega
      · rw [hother v hv]

/-- The worker a step inspects and the count it sees. -/
def inspection? (e : Executed N C) : Option (Fin N × Int) :=
  match e.action with
  | .inspectWorker _ =>
      some (e.before.workerIndex, e.before.numOfClients e.before.workerIndex)
  | _ => none

/-- The inspections, in order. -/
def inspections (steps : Steps N C) : List (Fin N × Int) :=
  steps.filterMap inspection?

/-- The steps inspect `n` workers in cyclic order, the first one being `w`; all
are at capacity, and no count is changed. -/
structure Passed (w : Fin N) (n : Nat) (steps : Steps N C) : Prop where
  order : (inspections steps).map Prod.fst = List.iterate nextIndex w n
  full : ∀ seen ∈ inspections steps, (C : Int) ≤ seen.2
  counts : ∀ e ∈ steps, e.after.numOfClients = e.before.numOfClients

/-- The steps select worker `w`: they see it below capacity and add one to its
count. -/
structure Selected (w : Fin N) (steps : Steps N C) : Prop where
  inspected : ∃ n, inspections steps = [(w, n)] ∧ n < C
  counted : ∃ e rest, steps = e :: rest ∧
    e.after.numOfClients = Function.update e.before.numOfClients w
      (e.before.numOfClients w + 1) ∧ e.after.numOfClients w ≤ C ∧
    ∀ e' ∈ rest, e'.after.numOfClients = e'.before.numOfClients

theorem Passed.nil (w : Fin N) : Passed (C := C) w 0 [] :=
  ⟨rfl, fun _ h => absurd h List.not_mem_nil,
    fun _ h => absurd h List.not_mem_nil⟩

theorem Passed.cons {w : Fin N} {n : Nat} {first rest : Steps N C}
    (h : Passed w 1 first) (h' : Passed (nextIndex w) n rest) :
    Passed w (n + 1) (first ++ rest) := by
  have happend : inspections (first ++ rest) =
      inspections first ++ inspections rest := List.filterMap_append
  constructor
  · rw [happend, List.map_append, h.order, h'.order]
    rfl
  · rw [happend]
    intro seen hseen
    rcases List.mem_append.mp hseen with hseen | hseen
    · exact h.full seen hseen
    · exact h'.full seen hseen
  · intro e he
    rcases List.mem_append.mp he with he | he
    · exact h.counts e he
    · exact h'.counts e he

section Search

variable {fd : Fd} {s s' : State N C} {steps : Steps N C}
  {value : Option (Fin N)}

/-- One round of the loop. -/
theorem findWorkerRound_exec {retry : ServerProg N C (Option (Fin N))}
    (h : Prog.Exec exec Lowers (findWorkerRound fd retry) s steps value s') :
    (∃ s₁ first rest, steps = first ++ rest ∧ Passed s.workerIndex 1 first ∧
      s₁.workerIndex = nextIndex s.workerIndex ∧
      Prog.Exec exec Lowers retry s₁ rest value s') ∨
    value = some s.workerIndex ∧ Selected s.workerIndex steps ∧
      s'.workerIndex = nextIndex s.workerIndex := by
  obtain ⟨s₁, answer, s₂, rest, rfl, hlower, he, hadvance⟩ :=
    Prog.Exec.act_inv h
  have hindex := hlower.1
  rcases exec_inspectWorker he with ⟨hfull, rfl, rfl⟩ | ⟨hbelow, rfl, rfl⟩
  · left
    obtain ⟨s₃, _, s₄, rest, rfl, hlower', he', hend⟩ :=
      Prog.Exec.act_inv hadvance
    cases he'
    refine ⟨_, [_, _], rest, rfl, ?_, ?_, hend⟩
    · constructor
      · show [s₂.workerIndex] = [s.workerIndex]
        rw [hindex]
      · intro seen hseen
        cases List.mem_singleton.mp hseen
        exact hfull
      · intro e he
        rcases List.mem_cons.mp he with rfl | he
        · rfl
        · cases List.mem_singleton.mp he
          rfl
    · show nextIndex s₃.workerIndex = nextIndex s.workerIndex
      rw [hlower'.1, hindex]
  · right
    obtain ⟨s₃, _, s₄, rest, rfl, hlower', he', hend⟩ :=
      Prog.Exec.act_inv hadvance
    cases he'
    obtain ⟨rfl, rfl, hlast⟩ := Prog.Exec.ret_inv hend
    refine ⟨by rw [hindex], ⟨⟨_, ?_, hbelow⟩, ?_⟩, ?_⟩
    · show [(s₁.workerIndex, _)] = [(s.workerIndex, _)]
      rw [hindex]
    · rw [← hindex]
      refine ⟨_, _, rfl, rfl, ?_, ?_⟩
      · show Function.update s₁.numOfClients _ _ _ ≤ _
        rw [Function.update_self]
        omega
      · intro e he
        cases List.mem_singleton.mp he
        rfl
    · rw [hlast.1]
      show nextIndex s₃.workerIndex = nextIndex s.workerIndex
      rw [hlower'.1]
      show nextIndex s₁.workerIndex = nextIndex s.workerIndex
      rw [hindex]

/-- The loop, `left + 1` inspections before it gives up. -/
theorem findWorkerLoop_exec {left : Nat} :
    ∀ {s steps},
      Prog.Exec exec Lowers (findWorkerLoop fd left) s steps value s' →
      value = none ∧ Passed s.workerIndex (left + 1) steps ∨
      ∃ n passed last, n ≤ left ∧ steps = passed ++ last ∧
        Passed s.workerIndex n passed ∧
        value = some (nextIndex^[n] s.workerIndex) ∧
        Selected (nextIndex^[n] s.workerIndex) last ∧
        s'.workerIndex = nextIndex (nextIndex^[n] s.workerIndex) := by
  induction left with
  | zero =>
      intro s steps h
      rcases findWorkerRound_exec h with
        ⟨s₁, first, rest, rfl, hfirst, -, hrest⟩ | ⟨hvalue, hsel, hnext⟩
      · obtain ⟨rfl, rfl, -⟩ := Prog.Exec.ret_inv hrest
        exact .inl ⟨rfl, hfirst.cons (.nil _)⟩
      · exact .inr ⟨0, [], steps, Nat.le_refl 0, rfl, .nil _, hvalue, hsel,
          hnext⟩
  | succ left ih =>
      intro s steps h
      rcases findWorkerRound_exec h with
        ⟨s₁, first, rest, rfl, hfirst, hindex, hrest⟩ | ⟨hvalue, hsel, hnext⟩
      · rcases ih hrest with ⟨hnone, hpassed⟩ |
          ⟨n, passed, last, hn, rfl, hpassed, hvalue, hsel, hnext⟩
        · rw [hindex] at hpassed
          exact .inl ⟨hnone, hfirst.cons hpassed⟩
        · rw [hindex, ← Function.iterate_succ_apply] at hvalue hsel hnext
          rw [hindex] at hpassed
          have hassoc := (List.append_assoc first passed last).symm
          exact .inr ⟨n + 1, first ++ passed, last, Nat.succ_le_succ hn,
            hassoc, hfirst.cons hpassed, hvalue, hsel, hnext⟩
      · exact .inr ⟨0, [], steps, Nat.zero_le _, rfl, .nil _, hvalue, hsel,
          hnext⟩

/-- Every call comes to an end. -/
theorem exists_findWorkerLoop (left : Nat) (s : State N C) :
    ∃ steps value s',
      Prog.Exec exec Lowers (findWorkerLoop fd left) s steps value s' := by
  have hall : Prog.All (fun a : Act N C =>
      a = .advanceIndex ∨ ∃ fd, a = .inspectWorker fd)
      (findWorkerLoop fd left) := by
    induction left with
    | zero =>
        refine ⟨.inr ⟨fd, rfl⟩, fun answer => ?_⟩
        cases answer <;> exact ⟨.inl rfl, fun _ => trivial⟩
    | succ left ih =>
        refine ⟨.inr ⟨fd, rfl⟩, fun answer => ?_⟩
        cases answer with
        | none => exact ⟨.inl rfl, fun _ => ih⟩
        | some w => exact ⟨.inl rfl, fun _ => trivial⟩
  refine Prog.exists_exec Lowers.refl ?_ hall s
  rintro a s (rfl | ⟨fd, rfl⟩)
  · rfl
  · rfl

end Search

/-! ## Connections only -/

/-- A connection that is accepted and registered without a failure. -/
def Job.isConnection : Job N C → Bool
  | .accept _ _ writeOk => writeOk
  | .register readOk epollOk => readOk && epollOk
  | _ => false

/-- All events are connections. -/
def Connecting (s : State N C) (l : Step N C) : Prop :=
  ReadsSucceed s l ∧ ∀ t j, l = .start t j → j.isConnection = true

/-- The counts after `m` connections. -/
def Dealt (m : Nat) (counts : Fin N → Int) : Prop :=
  ∀ w, counts w = share m w

/-- So many connections are dealt, and the index says whose turn it is. -/
def InTurn [NeZero N] (C : Nat) (index : Fin N) (counts : Fin N → Int) :
    Prop :=
  ∃ m, m ≤ N * C ∧ Dealt m counts ∧ (m < N * C → index = turn m)

/-- All workers are at capacity. -/
def AllFull (C : Nat) (counts : Fin N → Int) : Prop :=
  ∀ w, counts w = C

theorem Dealt.total {m : Nat} {counts : Fin N → Int} [NeZero N]
    (h : Dealt m counts) : ∑ w, counts w = m := by
  have hsum := sum_share (N := N) m
  calc
    ∑ w, counts w = ∑ w : Fin N, ((share m w : Nat) : Int) :=
      Finset.sum_congr rfl fun w _ => h w
    _ = m := by rw [← Nat.cast_sum, hsum]

theorem AllFull.total {counts : Fin N → Int} (h : AllFull C counts) :
    ∑ w, counts w = N * C := by
  simp [Finset.sum_congr rfl fun w _ => h w]

theorem AllFull.inTurn [NeZero N] {counts : Fin N → Int}
    (h : AllFull C counts) (index : Fin N) : InTurn C index counts := by
  refine ⟨N * C, Nat.le_refl _, fun w => ?_, fun hlt => ?_⟩
  · rw [share_full, h w]
  · omega

section Turn

variable [NeZero N] {index : Fin N} {counts : Fin N → Int}

/-- The worker whose turn it is is at capacity when all are. -/
theorem InTurn.full (h : InTurn C index counts)
    (hfull : (C : Int) ≤ counts index) : AllFull C counts := by
  obtain ⟨m, hm, hdealt, hturn⟩ := h
  have heq : m = N * C := by
    by_contra hne
    have hlt : m < N * C := by omega
    have hshare := share_turn_lt (N := N) hlt
    have hcount := hdealt index
    rw [hturn hlt] at hcount hfull
    omega
  intro w
  rw [hdealt w, heq, share_full]

/-- The next connection goes to the worker whose turn it is. -/
theorem InTurn.count (h : InTurn C index counts) (hbelow : counts index < C) :
    ∃ m, m < N * C ∧ Dealt m counts ∧ index = turn m ∧
      Dealt (m + 1)
        (Function.update counts index (counts index + 1)) := by
  obtain ⟨m, hm, hdealt, hturn⟩ := h
  have hlt : m < N * C := by
    by_contra hge
    have heq : m = N * C := by omega
    have hcount := hdealt index
    rw [heq, share_full] at hcount
    omega
  refine ⟨m, hlt, hdealt, hturn hlt, fun w => ?_⟩
  have hindex := hturn hlt
  subst hindex
  rw [share_succ]
  by_cases hw : w = turn m
  · subst hw
    simp [hdealt (turn m)]
  · simp [Function.update_of_ne hw, hdealt w]

end Turn

/-! ## Their flow -/

section Flows

variable [NeZero N]

/-- The part of the state that only the main thread changes in such runs. -/
abbrev TurnView (N : Nat) : Thread N → Type
  | .main => Fin N × (Fin N → Int)
  | .worker _ => Unit

def turnView : (t : Thread N) → State N C → TurnView N t
  | .main, s => (s.workerIndex, s.numOfClients)
  | .worker _, _ => ()

/-- What holds when an action about the counts is performed. -/
def CountsAllowed (s : State N C) : Act N C → Prop
  | .inspectWorker _ => InTurn C s.workerIndex s.numOfClients
  | .closeRejected _ => AllFull C s.numOfClients
  | .subtractZeroed _ | .subtractUnread _ | .subtractRefused ..
  | .subtractFailed _ => False
  | _ => True

/-- An action that lowers no count. -/
theorem CountsAllowed.exec {t : Thread N} {s s' : State N C} {a : Act N C}
    {b : a.Answer} (h : CountsAllowed s a) (ha : Allowed t s a)
    (he : exec a s = some (b, s')) :
    (s'.numOfClients = s.numOfClients ∧
      (t ≠ .main → s'.workerIndex = s.workerIndex)) ∨
    t = .main ∧ ∃ fd, a = .inspectWorker fd := by
  cases hcount : a.count? s with
  | none =>
      obtain ⟨hnum, hindex⟩ := exec_counts hcount he
      refine .inl ⟨hnum, fun ht => hindex ?_⟩
      rintro rfl
      exact ht ha
  | some w =>
      cases a <;> simp only [Act.count?, reduceCtorEq] at hcount
      case inspectWorker fd => exact .inr ⟨ha.1, fd, rfl⟩
      all_goals exact h.elim

variable (N C) in
/-- The main thread deals connections in turn. -/
def dealing : (control N C).Extension Connecting :=
  { G := TurnView N
    ghost := turnView
    Inv := fun s => (∀ w, HandInv s w) ∧
      ∃ m, m ≤ N * C ∧ Dealt m s.numOfClients
    Pre := fun _ a s => CountsAllowed s a
    weaken := fun _ _ h => h.1.1
    inv_exec := fun t a s b s' _ h hok ha hpre he => by
      refine ⟨HandInv.step h.1 ha (fun w hw => hok.1.2 t w (by rw [hw])) he,
        ?_⟩
      rcases hpre.exec ha he with ⟨hnum, -⟩ | ⟨-, fd, rfl⟩
      · rw [hnum]
        exact h.2
      · rcases exec_inspectWorker he with ⟨-, -, rfl⟩ | ⟨hbelow, -, rfl⟩
        · exact h.2
        · obtain ⟨m, hm, -, -, hdealt⟩ := hpre.count hbelow
          exact ⟨m + 1, hm, hdealt⟩
    ghost_exec := fun t u a s b s' hu _ _ ha hpre he => by
      cases u with
      | worker w => rfl
      | main =>
          rcases hpre.exec ha he with ⟨hnum, hindex⟩ | ⟨ht, -⟩
          · show (s'.workerIndex, s'.numOfClients) = _
            rw [hnum, hindex (Ne.symm hu)]
            rfl
          · exact absurd ht.symm hu }

/-- Between its jobs the main thread knows whose turn it is. -/
def idleInTurn (C : Nat) : (t : Thread N) → TurnView N t → Prop
  | .main, g => InTurn C g.1 g.2
  | .worker _, _ => True

/-- The action is neither about counts nor about the index. -/
def Act.offTurn : Act N C → Bool
  | .inspectWorker _ | .advanceIndex | .closeRejected _ | .subtractZeroed _
  | .subtractUnread _ | .subtractRefused .. | .subtractFailed _ => false
  | _ => true

theorem Act.offTurn.counts {a : Act N C} (ha : a.offTurn = true)
    (s : State N C) : CountsAllowed s a ∧ a.count? s = none ∧
      a ≠ .advanceIndex := by
  cases a <;> simp only [Act.offTurn, Bool.false_eq_true] at ha
  all_goals exact ⟨trivial, rfl, fun heq => by cases heq⟩

/-- Such actions keep what the thread knows. -/
theorem Act.offTurn.view {t : Thread N} {a : Act N C} {b : a.Answer}
    {s s' : State N C} (ha : a.offTurn = true)
    (he : exec a s = some (b, s')) : turnView t s' = turnView t s := by
  obtain ⟨-, hcount, hadvance⟩ := Act.offTurn.counts ha s
  obtain ⟨hnum, hindex⟩ := exec_counts hcount he
  cases t with
  | worker w => rfl
  | main =>
      show (s'.workerIndex, s'.numOfClients) = _
      rw [hnum, hindex hadvance]
      rfl

variable {α : Type} {t : Thread N}
  {Q : α → View N C t → TurnView N t → Prop}

/-- One such action. -/
theorem deals_act {a : Act N C} {next : a.Answer → ServerProg N C α}
    {v : View N C t} {g : TurnView N t} (ha : a.offTurn = true)
    (hnext : ∀ s b s' v', (∀ w, HandInv s w) → Allowed t s a →
      exec a s = some (b, s') →
      (dealing N C).Flows t Q (next b) v' g) :
    (dealing N C).Flows t Q (.act a next) v g := by
  intro s _ hI _ hg _ hpre
  refine ⟨(Act.offTurn.counts ha s).1, fun b s' he => ?_⟩
  have hview : (dealing N C).ghost t s' = g := (Act.offTurn.view ha he).trans hg
  rw [hview]
  exact hnext s b s' _ hI.1 hpre he

variable {fd : Fd}

/-- One round of the search: it selects the worker whose turn it is, or all are
at capacity. -/
theorem deals_findWorkerRound {retry : ServerProg N C (Option (Fin N))}
    {Q : Option (Fin N) → MainPoint N → TurnView N .main → Prop}
    (hfound : ∀ w v index counts, InTurn C index counts →
      Q (some w) v (index, counts))
    (hretry : ∀ v index counts, AllFull C counts →
      (dealing N C).Flows .main Q retry v (index, counts))
    {v : MainPoint N} {index : Fin N} {counts : Fin N → Int}
    (hturn : InTurn C index counts) :
    (dealing N C).Flows .main Q (findWorkerRound fd retry) v
      (index, counts) := by
  intro s _ _ _ hg _ _
  cases hg
  refine ⟨hturn, fun answer s' he => ?_⟩
  rcases exec_inspectWorker he with ⟨hfull, rfl, rfl⟩ | ⟨hbelow, rfl, rfl⟩
  · intro s₁ _ _ _ hg _ _
    refine ⟨trivial, fun answer s₂ he' => ?_⟩
    cases he'
    have hcounts : s₁.numOfClients = s'.numOfClients := (Prod.mk.inj hg).2
    apply hretry
    show AllFull C s₁.numOfClients
    rw [hcounts]
    exact hturn.full hfull
  · obtain ⟨m, hm, -, hindex, hdealt⟩ := hturn.count hbelow
    intro s₁ _ _ _ hg _ _
    refine ⟨trivial, fun answer s₂ he' => ?_⟩
    cases he'
    have hview : s₁.workerIndex = s.workerIndex ∧ s₁.numOfClients =
        Function.update s.numOfClients s.workerIndex
          (s.numOfClients s.workerIndex + 1) := Prod.mk.inj hg
    apply hfound
    refine ⟨m + 1, hm, ?_, fun _ => ?_⟩
    · show Dealt (m + 1) s₁.numOfClients
      rw [hview.2]
      exact hdealt
    · rw [hview.1, hindex, nextIndex_eq, next_turn]

/-- The search gives up only when all are at capacity. -/
theorem deals_findWorkerLoop (left : Nat) :
    ∀ {v : MainPoint N} {index : Fin N} {counts : Fin N → Int},
      InTurn C index counts →
      (dealing N C).Flows .main
        (fun value _ g => InTurn C g.1 g.2 ∧ (value = none → AllFull C g.2))
        (findWorkerLoop fd left) v (index, counts) := by
  induction left with
  | zero =>
      intro v index counts hturn
      apply deals_findWorkerRound _ _ hturn
      · exact fun _ _ _ _ h => ⟨h, fun heq => by cases heq⟩
      · exact fun _ index _ h => ⟨h.inTurn index, fun _ => h⟩
  | succ left ih =>
      intro v index counts hturn
      apply deals_findWorkerRound _ _ hturn
      · exact fun _ _ _ _ h => ⟨h, fun heq => by cases heq⟩
      · exact fun _ index _ h => ih (h.inTurn index)

/-- `distribute_client` when the eventfd can be written. -/
theorem deals_distributeClient {v : MainPoint N} {index : Fin N}
    {counts : Fin N → Int} (hturn : InTurn C index counts) :
    (dealing N C).Flows .main (fun _ _ g => InTurn C g.1 g.2)
      (distributeClient fd true) v (index, counts) := by
  refine Contract.Extension.Flows.bind ?_ (deals_findWorkerLoop N hturn)
  rintro value v ⟨index, counts⟩ ⟨hturn, hfull⟩
  cases value with
  | some w =>
      refine deals_act rfl fun _ _ _ _ _ _ _ => ?_
      refine deals_act rfl fun s b s' _ _ _ he => ?_
      rcases exec_writeEventfd he with ⟨-, rfl, -⟩ | ⟨hok, -, -⟩
      · exact hturn
      · cases hok
  | none =>
      refine deals_act rfl fun _ _ _ _ _ _ _ => ?_
      intro s _ _ _ hg _ _
      cases hg
      refine ⟨hfull rfl, fun b s' he => ?_⟩
      cases he
      exact hturn

/-- Every connection is dealt in turn. -/
theorem deals_job (t : Thread N) (j : Job N C) (s : State N C)
    (hok : Connecting s (.start t j)) {v : View N C t} {g : TurnView N t}
    (hturn : idleInTurn C t g) :
    (dealing N C).Flows t (fun _ _ g => idleInTurn C t g) (jobProg t j) v
      g := by
  have hconn := hok.2 t j rfl
  cases t with
  | main =>
      cases j with
      | accept fd keepAliveOk writeOk =>
          cases (show writeOk = true from hconn)
          refine deals_act rfl fun _ _ _ _ _ _ _ => ?_
          refine deals_act rfl fun _ configured _ _ _ _ _ => ?_
          cases configured with
          | true => exact deals_distributeClient hturn
          | false => exact hturn
      | _ => exact hturn
  | worker w =>
      cases j with
      | register readOk epollOk =>
          obtain ⟨rfl, rfl⟩ := Bool.and_eq_true_iff.mp hconn
          refine deals_act rfl fun s b s' _ _ _ he => ?_
          rcases exec_readEventfd he with ⟨-, -, rfl, -⟩ | ⟨hread, -, -⟩
          · refine deals_act rfl fun _ _ _ _ _ _ _ => ?_
            refine deals_act rfl fun s b s' _ _ _ he => ?_
            rcases exec_registerWithEpoll he with ⟨-, rfl, -⟩ | ⟨hctl, -, -⟩
            · refine deals_act rfl fun s b s' _ hinv ha he => ?_
              cases (hinv w).allocates ha.2 he
              exact deals_act rfl fun _ _ _ _ _ _ _ => trivial
            · cases hctl
          · cases hread
      | receive client result => cases hconn
      | hangUp client => cases hconn
      | accept => trivial

/-- The configurations of such runs. -/
theorem dealing_sound {ls : List (Step N C)} {k : Configuration N C}
    (hrun : (server N C).Run Connecting (Configuration.init N C) ls k) :
    (dealing N C).contract.Sound
      (fun t w => idleView t w.1 ∧ idleInTurn C t w.2) k := by
  refine Contract.Extension.sound (fun t j s _ => safe_job t j s)
    (fun t j s _ _ _ hturn hok => deals_job t j s hok hturn) ?_ hrun
  have hzero : Dealt 0 (State.init N C).numOfClients :=
    fun w => by simp [State.init]
  refine ⟨⟨trivial, HandInv.init, 0, Nat.zero_le _, hzero⟩, fun t => ?_⟩
  cases t with
  | main =>
      refine ⟨rfl, 0, Nat.zero_le _, hzero, fun _ => ?_⟩
      show (0 : Fin N) = turn 0
      apply Fin.ext
      simp [turn]
  | worker w => exact ⟨rfl, trivial⟩

end Flows

/-! ## Round robin -/

/-- A call that inspects all workers in vain, or selects one of them. -/
theorem findWorkerNotAtCapacity_exec {fd : Fd} {s s' : State N C}
    {steps : Steps N C} {value : Option (Fin N)}
    (h : Prog.Exec exec Lowers (findWorkerNotAtCapacity fd) s steps value s') :
    (inspections steps).length ≤ N + 1 ∧
      (value = none →
        (∀ w, ∃ n, (w, n) ∈ inspections steps ∧ (C : Int) ≤ n) ∧
          ∀ e ∈ steps, e.after.numOfClients = e.before.numOfClients) ∧
      ∀ w, value = some w → ∃ n passed last, steps = passed ++ last ∧
        Passed s.workerIndex n passed ∧
        w = nextIndex^[n] s.workerIndex ∧ Selected w last ∧
        s'.workerIndex = nextIndex w := by
  have hlength : ∀ {w : Fin N} {n : Nat} {xs : Steps N C},
      Passed w n xs → (inspections xs).length = n := by
    intro w n xs hpassed
    rw [← List.length_map Prod.fst, hpassed.order, List.length_iterate]
  rcases findWorkerLoop_exec h with ⟨rfl, hpassed⟩ |
    ⟨n, passed, last, hn, rfl, hpassed, rfl, hsel, hnext⟩
  · refine ⟨Nat.le_of_eq (hlength hpassed),
      fun _ => ⟨fun w => ?_, hpassed.counts⟩, fun w hw => by cases hw⟩
    have hmem : w ∈ List.iterate nextIndex s.workerIndex (N + 1) :=
      mem_iterate_next s.workerIndex w (Nat.le_succ N)
    rw [← hpassed.order] at hmem
    obtain ⟨⟨v, n⟩, hseen, rfl⟩ := List.mem_map.mp hmem
    exact ⟨n, hseen, hpassed.full _ hseen⟩
  · refine ⟨?_, fun hnone => (by cases hnone), fun w hw => ?_⟩
    · obtain ⟨count, hlast, -⟩ := hsel.inspected
      have hsplit : inspections (passed ++ last) =
          inspections passed ++ inspections last := List.filterMap_append
      rw [hsplit, hlast, List.length_append, hlength hpassed]
      show n + 1 ≤ N + 1
      omega
    · cases hw
      exact ⟨n, passed, last, rfl, hpassed, rfl, hsel, hnext⟩

/-- A call that nothing interferes with selects the worker at the index when
that is below capacity. -/
theorem select_alone (fd : Fd) {s : State N C}
    (hroom : s.numOfClients s.workerIndex < C) (left : Nat) :
    Prog.run exec (findWorkerLoop fd left) s =
      some (some s.workerIndex, { (inspectWorker s fd).2 with
        workerIndex := nextIndex s.workerIndex }) := by
  have hbelow : ¬ (C : Int) ≤ s.numOfClients s.workerIndex := by omega
  cases left <;>
    simp [findWorkerLoop, findWorkerRound, Prog.run, exec, inspectWorker,
      hbelow]

section Runs

variable [NeZero N]

/-- In every configuration of a run of connections the counts are balanced, who
is refused finds all workers at capacity, and who is accepted does not. -/
theorem balanced_run {ls : List (Step N C)} {k : Configuration N C}
    (hrun : (server N C).Run Connecting (Configuration.init N C) ls k) :
    (∀ u v, k.shared.numOfClients u ≤ k.shared.numOfClients v + 1) ∧
      (∀ t fd next, k.prog t = .act (.closeRejected fd) next →
        ∑ w, k.shared.numOfClients w = N * C) ∧
      ∀ t fd next w s', k.prog t = .act (.inspectWorker fd) next →
        exec (.inspectWorker fd) k.shared = some (some w, s') →
        ∑ w, k.shared.numOfClients w < N * C := by
  have hsound := dealing_sound hrun
  have hok : ∀ t a, (∀ w, a ≠ .readEventfd w false) →
      Connecting k.shared (.act t a) := by
    intro t a hread
    refine ⟨⟨⟨trivial, fun _ _ _ hj => by cases hj⟩, ?_⟩,
      fun _ _ hj => by cases hj⟩
    rintro u w hl
    cases hl
    exact hread w rfl
  refine ⟨fun u v => ?_, fun t fd next hnext => ?_,
    fun t fd next w s' hnext he => ?_⟩
  · obtain ⟨-, -, m, -, hdealt⟩ := hsound.inv
    have hle := share_le_succ m u v
    rw [hdealt u, hdealt v]
    omega
  · have hpre := (hsound.pre hnext
      (hok t _ fun w heq => by cases heq)).2
    exact AllFull.total hpre
  · have hpre : InTurn C k.shared.workerIndex k.shared.numOfClients :=
      (hsound.pre hnext (hok t _ fun w heq => by cases heq)).2
    rcases exec_inspectWorker he with ⟨-, hnone, -⟩ | ⟨hbelow, -, -⟩
    · cases hnone
    · obtain ⟨m, hm, hdealt, -, -⟩ := hpre.count hbelow
      rw [hdealt.total]
      exact_mod_cast hm

/-- What a worker does in a run lowers counts at most. -/
theorem lowers_run {ls : List (Step N C)} {k : Configuration N C}
    (hrun : (server N C).Run EventOk (Configuration.init N C) ls k) {w : Fin N}
    {a : Act N C} {next : a.Answer → ServerProg N C Unit}
    (hp : k.prog (.worker w) = .act a next) {b : a.Answer} {s' : State N C}
    (he : exec a k.shared = some (b, s')) : Lowers k.shared s' := by
  have hpre : AllowedOf Any (.worker w) k.shared a :=
    (handling_sound hrun).pre hp trivial
  exact lowers_of_worker hpre (by simp) he

/-- **Round-robin selection.**  A call of `find_worker_not_at_capacity` takes and
gives back one lock at a time and comes to an end after at most `N + 1`
inspections, whatever counts the workers lower meanwhile; it fails only when it
has seen every worker at capacity, and then changes no count; otherwise it
selects the first worker in cyclic order that it sees below capacity, adds one
to its count only, and leaves the index at its successor.  To lower counts is
all that the workers do to them in any run.  Without departures
the counts stay within one of each other, and a connection is refused exactly
when all workers are at capacity. -/
theorem selection_run (fd : Fd) :
    (∀ t : Thread N, Takes t none none
      ((findWorkerNotAtCapacity (C := C) fd).expand (implement t))) ∧
    (∀ s : State N C, ∃ steps value s',
      Prog.Exec exec Lowers (findWorkerNotAtCapacity fd) s steps value s') ∧
    (∀ (s s' : State N C) (steps : Steps N C) (value : Option (Fin N)),
      Prog.Exec exec Lowers (findWorkerNotAtCapacity fd) s steps value s' →
      (inspections steps).length ≤ N + 1 ∧
        (value = none →
          (∀ w, ∃ n, (w, n) ∈ inspections steps ∧ (C : Int) ≤ n) ∧
            ∀ e ∈ steps, e.after.numOfClients = e.before.numOfClients) ∧
        ∀ w, value = some w → ∃ n passed last, steps = passed ++ last ∧
          Passed s.workerIndex n passed ∧
          w = nextIndex^[n] s.workerIndex ∧ Selected w last ∧
          s'.workerIndex = nextIndex w) ∧
    (∀ (ls : List (Step N C)) (k : Configuration N C),
      (server N C).Run EventOk (Configuration.init N C) ls k →
      ∀ w a next b s', k.prog (.worker w) = .act a next →
        exec a k.shared = some (b, s') → Lowers k.shared s') ∧
    ∀ (ls : List (Step N C)) (k : Configuration N C),
      (server N C).Run Connecting (Configuration.init N C) ls k →
      (∀ u v, k.shared.numOfClients u ≤ k.shared.numOfClients v + 1) ∧
        (∀ t fd next, k.prog t = .act (.closeRejected fd) next →
          ∑ w, k.shared.numOfClients w = N * C) ∧
        ∀ t fd next w s', k.prog t = .act (.inspectWorker fd) next →
          exec (.inspectWorker fd) k.shared = some (some w, s') →
          ∑ w, k.shared.numOfClients w < N * C :=
  ⟨fun _ => takes_expand _, exists_findWorkerLoop N,
    fun _ _ _ _ => findWorkerNotAtCapacity_exec,
    fun _ _ hrun _ _ _ _ _ hp he => lowers_run hrun hp he,
    fun _ _ => balanced_run⟩

end Runs

/-- Two connections are accepted, and the next call selects a third worker. -/
theorem selection_third : ∃ s : RealState,
    s.numOfClients 1 = 1 ∧ s.numOfClients 2 = 0 ∧
      (∀ u v, s.numOfClients u ≤ s.numOfClients v + 1) ∧
      ∃ steps s', Prog.Exec exec Lowers (findWorkerNotAtCapacity 7) s steps
          (some 2) s' ∧
        (inspections steps).length ≤ maxThreads + 1 ∧
        s'.workerIndex = nextIndex 2 := by
  have hplay : (((server maxThreads maxClientsPerThread).play execReads
      (fun s t j => startOk s t j && j.isConnection) (State.init _ _)
      (connects 0 ++ connects 1)).map fun s =>
        (s.numOfClients 1, s.numOfClients 2, s.workerIndex)) =
        some (1, 0, 2) := by
    decide +kernel
  obtain ⟨s, hs, hvalues⟩ := Option.map_eq_some_iff.mp hplay
  obtain ⟨hone, hzero, hindex⟩ : s.numOfClients 1 = 1 ∧
      s.numOfClients 2 = 0 ∧ s.workerIndex = 2 := by
    simpa using hvalues
  have hreach : ∃ ls, (server maxThreads maxClientsPerThread).Run Connecting
      (Configuration.init _ _) ls (quiet s) := by
    refine System.play_run (S := server _ _) ?_ ?_ _ hs
    · intro t a s out he
      obtain ⟨he, hok⟩ := exec_of_execReads he t
      exact ⟨he, hok, fun _ _ hj => by cases hj⟩
    · intro _ _ _ hstart
      obtain ⟨hok, hconn⟩ := Bool.and_eq_true_iff.mp hstart
      refine ⟨⟨liveOk_of_startOk hok, fun _ _ hj => by cases hj⟩, ?_⟩
      intro t' j' hj
      cases hj
      exact hconn
  obtain ⟨ls, hrun⟩ := hreach
  obtain ⟨-, -, hcall, -, hbalanced⟩ :=
    selection_run (N := maxThreads) (C := maxClientsPerThread) 7
  refine ⟨s, hone, hzero, (hbalanced ls _ hrun).1, ?_⟩
  have hroom : s.numOfClients s.workerIndex < maxClientsPerThread := by
    rw [hindex, hzero]
    decide
  have halone := select_alone 7 hroom maxThreads
  obtain ⟨steps, hexec⟩ := Prog.exec_of_run Lowers.refl halone
  rw [hindex] at hexec
  obtain ⟨hbound, -, hselected⟩ := hcall _ _ _ _ hexec
  obtain ⟨n, passed, last, -, -, -, -, hnext⟩ := hselected 2 rfl
  exact ⟨steps, _, hexec, hbound, hnext⟩

end ChatApp.Server
