/-!
# Programs as trees of atomic actions

A thread of a concurrent program is modelled by what it still has to do: a
finite tree whose inner nodes are *atomic actions* on a state that several
threads share, branching on the answer each action gives.  The tree is a
monad, so a routine of the modelled code is written with `do` and still
exposes every point at which another thread may run.

Three readings of a tree are given.

* `Prog.run` executes it alone, without interference.
* `Prog.Exec` executes it while an environment changes the shared state
  between its actions, subject to a relation.
* `Prog.All` looks at the actions it can ever perform, whatever the answers.

The parallel reading, and the rules that make proofs about it local to one
thread, are in `Foundation/Interleaving.lean`.
-/

namespace ChatApp.Foundation

/-- What a thread still has to do: return `value`, or perform `action` and go
on as its answer says. -/
inductive Prog (A : Type) (B : A → Type) (α : Type) where
  | ret (value : α)
  | act (action : A) (next : B action → Prog A B α)

namespace Prog

variable {A : Type} {B : A → Type} {α β γ σ : Type}

/-- Sequential composition. -/
def bind : Prog A B α → (α → Prog A B β) → Prog A B β
  | .ret value, k => k value
  | .act action next, k => .act action fun answer => bind (next answer) k

instance : Monad (Prog A B) where
  pure := .ret
  bind := bind

/-- The program that performs one action and returns its answer. -/
def perform (action : A) : Prog A B (B action) :=
  .act action .ret

@[simp] theorem pure_eq_ret (value : α) :
    (pure value : Prog A B α) = .ret value := rfl

@[simp] theorem ret_bind (value : α) (k : α → Prog A B β) :
    (Prog.ret value >>= k) = k value := rfl

@[simp] theorem act_bind (action : A) (next : B action → Prog A B α)
    (k : α → Prog A B β) :
    (Prog.act action next >>= k) =
      .act action fun answer => next answer >>= k := rfl

@[simp] theorem perform_bind (action : A) (k : B action → Prog A B β) :
    (perform action >>= k) = .act action k := rfl

theorem bind_ret (p : Prog A B α) : (p >>= .ret) = p := by
  induction p with
  | ret value => rfl
  | act action next ih =>
      simp only [act_bind]
      congr 1
      funext answer
      exact ih answer

theorem bind_assoc (p : Prog A B α) (k : α → Prog A B β)
    (m : β → Prog A B γ) :
    (p >>= k) >>= m = p >>= fun value => k value >>= m := by
  induction p with
  | ret value => rfl
  | act action next ih =>
      simp only [act_bind]
      congr 1
      funext answer
      exact ih answer

/-- Perform every action by a program of other actions. -/
def expand {A' : Type} {B' : A' → Type}
    (implement : (a : A) → Prog A' B' (B a)) :
    Prog A B α → Prog A' B' α
  | .ret value => .ret value
  | .act action next =>
      implement action >>= fun answer => expand implement (next answer)

/-! ## Execution -/

/-- Execution without interference; `none` when an action is not enabled. -/
def run (exec : (a : A) → σ → Option (B a × σ)) :
    Prog A B α → σ → Option (α × σ)
  | .ret value, s => some (value, s)
  | .act action next, s =>
      match exec action s with
      | none => none
      | some (answer, s') => run exec (next answer) s'

/-- What is left of a program after its first actions, without interference. -/
def advance (exec : (a : A) → σ → Option (B a × σ)) :
    Nat → Prog A B α → σ → Option (Prog A B α × σ)
  | 0, p, s => some (p, s)
  | _ + 1, .ret _, _ => none
  | n + 1, .act action next, s =>
      (exec action s).bind fun out => advance exec n (next out.1) out.2

/-- Nothing is left of the program. -/
def isRet : Prog A B α → Bool
  | .ret _ => true
  | .act .. => false

theorem eq_of_isRet {p : Prog A B Unit} (h : p.isRet = true) : p = .ret () := by
  cases p with
  | ret value => rfl
  | act a next => cases h

/-- One executed action with the states right before and after it. -/
structure Event (A σ : Type) where
  action : A
  before : σ
  after : σ

/-- Execution without interference, with the program's steps. -/
def traced (exec : (a : A) → σ → Option (B a × σ)) :
    Prog A B α → σ → Option (List (Event A σ) × α × σ)
  | .ret value, s => some ([], value, s)
  | .act action next, s =>
      (exec action s).bind fun step =>
        (traced exec (next step.1) step.2).map fun out =>
          (⟨action, s, step.2⟩ :: out.1, out.2)

/-- Execution of a whole program while the environment moves the state by
`R` before each action and at the end.  The list records the program's own
steps. -/
inductive Exec (exec : (a : A) → σ → Option (B a × σ)) (R : σ → σ → Prop) :
    Prog A B α → σ → List (Event A σ) → α → σ → Prop
  | ret {value : α} {s s' : σ} :
      R s s' → Exec exec R (.ret value) s [] value s'
  | act {action : A} {next : B action → Prog A B α} {s s₁ s₂ s' : σ}
      {answer : B action} {trace : List (Event A σ)} {value : α} :
      R s s₁ → exec action s₁ = some (answer, s₂) →
      Exec exec R (next answer) s₂ trace value s' →
      Exec exec R (.act action next) s (⟨action, s₁, s₂⟩ :: trace) value s'

section Exec

variable {exec : (a : A) → σ → Option (B a × σ)} {R : σ → σ → Prop}
  {trace : List (Event A σ)}

theorem Exec.ret_inv {value result : α} {s s' : σ}
    (h : Exec exec R (.ret value) s trace result s') :
    result = value ∧ trace = [] ∧ R s s' := by
  cases h with
  | ret hR => exact ⟨rfl, rfl, hR⟩

theorem Exec.act_inv {action : A} {next : B action → Prog A B α} {s s' : σ}
    {value : α} (h : Exec exec R (.act action next) s trace value s') :
    ∃ s₁ answer s₂ rest, trace = ⟨action, s₁, s₂⟩ :: rest ∧ R s s₁ ∧
      exec action s₁ = some (answer, s₂) ∧
      Exec exec R (next answer) s₂ rest value s' := by
  cases h with
  | act hR he hnext => exact ⟨_, _, _, _, rfl, hR, he, hnext⟩

/-- An execution of a composition is one of its first part followed by one of
its second. -/
theorem Exec.bind_inv (hrefl : ∀ s, R s s) {p : Prog A B α}
    {k : α → Prog A B β} :
    ∀ {s s' : σ} {trace : List (Event A σ)} {value : β},
      Exec exec R (p >>= k) s trace value s' →
      ∃ first second middle t, trace = first ++ second ∧
        Exec exec R p s first middle t ∧
        Exec exec R (k middle) t second value s' := by
  induction p with
  | ret middle =>
      intro s s' trace value h
      exact ⟨[], trace, middle, s, rfl, .ret (hrefl s), h⟩
  | act action next ih =>
      intro s s' trace value h
      obtain ⟨s₁, answer, s₂, rest, rfl, hR, he, hnext⟩ := Exec.act_inv h
      obtain ⟨first, second, middle, t, rfl, hp, hk⟩ := ih answer hnext
      exact ⟨_ :: first, second, middle, t, rfl, .act hR he hp, hk⟩

/-- What an environment may do, a more liberal one may do as well. -/
theorem Exec.mono {R' : σ → σ → Prop} (hR : ∀ s s', R s s' → R' s s')
    {p : Prog A B α} {s s' : σ} {value : α}
    (h : Exec exec R p s trace value s') : Exec exec R' p s trace value s' := by
  induction h with
  | ret hR₁ => exact .ret (hR _ _ hR₁)
  | act hR₁ he hnext ih => exact .act (hR _ _ hR₁) he ih

/-- The environment may move before the execution starts. -/
theorem Exec.after (htrans : ∀ a b c, R a b → R b c → R a c)
    {p : Prog A B α} {s t s' : σ} {value : α} (hR : R s t)
    (h : Exec exec R p t trace value s') : Exec exec R p s trace value s' := by
  cases h with
  | ret hR' => exact .ret (htrans _ _ _ hR hR')
  | act hR' he hnext => exact .act (htrans _ _ _ hR hR') he hnext

/-- Execution alone is an execution in which the environment does nothing. -/
theorem exec_of_run (hrefl : ∀ s, R s s) {p : Prog A B α} :
    ∀ {s s' : σ} {value : α}, run exec p s = some (value, s') →
      ∃ trace, Exec exec R p s trace value s' := by
  induction p with
  | ret value =>
      intro s s' result h
      simp only [run, Option.some.injEq, Prod.mk.injEq] at h
      obtain ⟨rfl, rfl⟩ := h
      exact ⟨[], .ret (hrefl s)⟩
  | act action next ih =>
      intro s s' result h
      simp only [run] at h
      cases he : exec action s with
      | none => simp [he] at h
      | some step =>
          obtain ⟨answer, s₁⟩ := step
          rw [he] at h
          obtain ⟨trace, htrace⟩ := ih answer h
          exact ⟨_, .act (hrefl s) he htrace⟩

/-- The steps are those of an execution in which the environment does
nothing. -/
theorem exec_of_traced (hrefl : ∀ s, R s s) {p : Prog A B α} :
    ∀ {s s' : σ} {value : α},
      traced exec p s = some (trace, value, s') →
        Exec exec R p s trace value s' := by
  induction p generalizing trace with
  | ret value =>
      intro s s' result h
      cases h
      exact .ret (hrefl s)
  | act action next ih =>
      intro s s' result h
      obtain ⟨⟨answer, s₁⟩, he, h⟩ := Option.bind_eq_some_iff.mp h
      obtain ⟨⟨rest, out⟩, hnext, heq⟩ := Option.map_eq_some_iff.mp h
      obtain ⟨rfl, rfl⟩ := Prod.mk.inj heq
      exact .act (hrefl s) he (ih answer hnext)

/-- An execution goes on after `n` actions alone and a move of the
environment. -/
theorem Exec.of_advance (hrefl : ∀ s, R s s)
    (htrans : ∀ a b c, R a b → R b c → R a c) {n : Nat} :
    ∀ {p p₁ : Prog A B α} {s s₁ s₂ s' : σ} {value : α},
      advance exec n p s = some (p₁, s₁) → R s₁ s₂ →
      Exec exec R p₁ s₂ trace value s' →
      ∃ first, Exec exec R p s (first ++ trace) value s' := by
  induction n with
  | zero =>
      intro p p₁ s s₁ s₂ s' value h hR hexec
      cases h
      exact ⟨[], hexec.after htrans hR⟩
  | succ n ih =>
      intro p p₁ s s₁ s₂ s' value h hR hexec
      cases p with
      | ret result => cases h
      | act action next =>
          obtain ⟨⟨answer, s₀⟩, he, h⟩ := Option.bind_eq_some_iff.mp h
          obtain ⟨first, hfirst⟩ := ih h hR hexec
          exact ⟨_ :: first, .act (hrefl s) he hfirst⟩

/-- An execution alone, but for one move of the environment after the first `n`
actions. -/
theorem exec_of_advance (hrefl : ∀ s, R s s)
    (htrans : ∀ a b c, R a b → R b c → R a c) {n : Nat} {p p₁ : Prog A B α}
    {s s₁ s₂ s' : σ} {value : α} (h : advance exec n p s = some (p₁, s₁))
    (hR : R s₁ s₂) (hrun : run exec p₁ s₂ = some (value, s')) :
    ∃ trace, Exec exec R p s trace value s' := by
  obtain ⟨trace, htrace⟩ := exec_of_run hrefl hrun
  obtain ⟨first, hexec⟩ := Exec.of_advance hrefl htrans h hR htrace
  exact ⟨_, hexec⟩

/-- What is done with fewer actions allowed is done with more. -/
theorem advance_mono {exec' : (a : A) → σ → Option (B a × σ)}
    (h : ∀ a s out, exec' a s = some out → exec a s = some out) {n : Nat} :
    ∀ {p : Prog A B α} {s : σ} {out : Prog A B α × σ},
      advance exec' n p s = some out → advance exec n p s = some out := by
  induction n with
  | zero =>
      intro p s out hout
      exact hout
  | succ n ih =>
      intro p s out hout
      cases p with
      | ret result => cases hout
      | act action next =>
          obtain ⟨step, he, hout⟩ := Option.bind_eq_some_iff.mp hout
          exact Option.bind_eq_some_iff.mpr ⟨step, h _ _ _ he, ih hout⟩

theorem run_bind (p : Prog A B α) (k : α → Prog A B β) :
    ∀ s, run exec (p >>= k) s =
      (run exec p s).bind fun out => run exec (k out.1) out.2 := by
  induction p with
  | ret value => intro s; rfl
  | act action next ih =>
      intro s
      simp only [act_bind, run]
      cases exec action s with
      | none => rfl
      | some step => exact ih step.1 step.2

theorem run_act {action : A} {next : B action → Prog A B α} {s s₁ : σ}
    {answer : B action} {out : α × σ}
    (he : exec action s = some (answer, s₁))
    (h : run exec (next answer) s₁ = some out) :
    run exec (.act action next) s = some out := by
  simp only [run, he, h]

theorem advance_act {action : A} {next : B action → Prog A B α} {n : Nat}
    {s s₁ : σ} {answer : B action} {out : Prog A B α × σ}
    (he : exec action s = some (answer, s₁))
    (h : advance exec n (next answer) s₁ = some out) :
    advance exec (n + 1) (.act action next) s = some out := by
  simp only [advance, he, Option.bind_some, h]

theorem advance_bind {p p' : Prog A B α} {s s' : σ} {n : Nat}
    (k : α → Prog A B β) (h : advance exec n p s = some (p', s')) :
    advance exec n (p >>= k) s = some (p' >>= k, s') := by
  induction n generalizing p s with
  | zero =>
      obtain ⟨rfl, rfl⟩ := Prod.mk.inj (Option.some.inj h)
      rfl
  | succ n ih =>
      cases p with
      | ret value => cases h
      | act action next =>
          obtain ⟨out, he, hrest⟩ := Option.bind_eq_some_iff.mp h
          exact advance_act he (ih hrest)

/-- A property that the environment and the steps in the trace keep holds
around every step and at the end. -/
theorem Exec.keeps {I : σ → Prop} (hR : ∀ {s s'}, R s s' → I s → I s')
    {p : Prog A B α} {s s' : σ} {value : α}
    (h : Exec exec R p s trace value s')
    (hown : ∀ e ∈ trace, I e.before → I e.after) (hs : I s) :
    (∀ e ∈ trace, I e.before ∧ I e.after) ∧ I s' := by
  induction h with
  | ret hR' =>
      constructor
      · intro e he
        cases he
      · exact hR hR' hs
  | act hR' he hnext ih =>
      have hbefore := hR hR' hs
      have hafter := hown _ List.mem_cons_self hbefore
      obtain ⟨hrest, hend⟩ := ih
        (fun e h => hown e (List.mem_cons_of_mem _ h)) hafter
      refine ⟨?_, hend⟩
      intro e hmem
      rcases List.mem_cons.mp hmem with rfl | hmem
      · exact ⟨hbefore, hafter⟩
      · exact hrest e hmem

/-- Every step in the trace is a step of the action it names. -/
theorem Exec.mem_exec {p : Prog A B α} {s s' : σ} {value : α}
    (h : Exec exec R p s trace value s') :
    ∀ e ∈ trace, ∃ answer, exec e.action e.before = some (answer, e.after) := by
  induction h with
  | ret hR => intro e he; cases he
  | act hR he hnext ih =>
      intro e hmem
      rcases List.mem_cons.mp hmem with rfl | hmem
      · exact ⟨_, he⟩
      · exact ih e hmem

end Exec

/-! ## The actions a program can perform -/

/-- Every action the program can reach, whatever the answers, satisfies `P`. -/
def All (P : A → Prop) : Prog A B α → Prop
  | .ret _ => True
  | .act action next => P action ∧ ∀ answer, All P (next answer)

section All

variable {P Q : A → Prop}

@[simp] theorem all_ret (value : α) : All P (.ret value : Prog A B α) :=
  trivial

@[simp] theorem all_act (action : A) (next : B action → Prog A B α) :
    All P (.act action next) ↔ P action ∧ ∀ answer, All P (next answer) :=
  Iff.rfl

theorem All.bind {p : Prog A B α} {k : α → Prog A B β} (hp : All P p)
    (hk : ∀ value, All P (k value)) : All P (p >>= k) := by
  induction p with
  | ret value => exact hk value
  | act action next ih =>
      exact ⟨hp.1, fun answer => ih answer (hp.2 answer)⟩

theorem All.imp {p : Prog A B α} (hPQ : ∀ a, P a → Q a) (hp : All P p) :
    All Q p := by
  induction p with
  | ret value => trivial
  | act action next ih =>
      exact ⟨hPQ action hp.1, fun answer => ih answer (hp.2 answer)⟩

/-- What all actions of a program satisfy, the actions of its traces
satisfy. -/
theorem Exec.mem_of_all {exec : (a : A) → σ → Option (B a × σ)}
    {R : σ → σ → Prop} {p : Prog A B α} {s s' : σ} {value : α}
    {trace : List (Event A σ)} (h : Exec exec R p s trace value s')
    (hp : All P p) : ∀ e ∈ trace, P e.action := by
  induction h with
  | ret hR => intro e he; cases he
  | act hR he hnext ih =>
      intro e hmem
      rcases List.mem_cons.mp hmem with rfl | hmem
      · exact hp.1
      · exact ih (hp.2 _) e hmem

/-- A program none of whose actions ever blocks can be executed. -/
theorem exists_exec {exec : (a : A) → σ → Option (B a × σ)}
    {R : σ → σ → Prop} (hrefl : ∀ s, R s s)
    (hP : ∀ a s, P a → (exec a s).isSome) {p : Prog A B α} (hp : All P p) :
    ∀ s, ∃ trace value s', Exec exec R p s trace value s' := by
  induction p with
  | ret value => intro s; exact ⟨[], value, s, .ret (hrefl s)⟩
  | act action next ih =>
      intro s
      obtain ⟨⟨answer, s₁⟩, he⟩ := Option.isSome_iff_exists.mp
        (hP action s hp.1)
      obtain ⟨trace, value, s', hnext⟩ := ih answer (hp.2 answer) s₁
      exact ⟨_, value, s', .act (hrefl s) he hnext⟩

end All

end Prog

end ChatApp.Foundation
