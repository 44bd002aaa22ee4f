import ChatApp.Foundation.Program
import Mathlib.Logic.Function.Basic

/-!
# Interleaved threads and thread-local proofs

A `System` fixes what every atomic action does to the shared state and which
program a thread executes for each job it can be given.  A `Config` is the
shared state together with what each thread still has to do; a step either
gives a job to a thread that has nothing to do or executes the next action of
one thread.  Runs record the labels of their steps, oldest first.

A `Contract` is what makes a proof about all interleavings local to a thread.
It consists of

* an invariant of the shared state,
* for each thread a *view*, the part of the shared state that no other thread
  changes, and
* for each action a precondition.

Actions executed under their precondition keep the invariant and leave the
views of the other threads alone.  `Safe` says of one thread's program that
every action it comes to execute meets its precondition, knowing only the
invariant and the thread's own view; `Contract.Sound.run` turns this into a
statement about every run of all threads together.
-/

namespace ChatApp.Foundation

/-- Atomic actions on a shared state and the programs threads are given. -/
structure System (T A : Type) (B : A → Type) (J σ : Type) where
  exec : (a : A) → σ → Option (B a × σ)
  job : T → J → Prog A B Unit

/-- The shared state and what each thread still has to do. -/
structure Config (T A : Type) (B : A → Type) (σ : Type) where
  shared : σ
  prog : T → Prog A B Unit

/-- What one step does: a thread is given a job, or performs an action. -/
inductive Label (T A J : Type) where
  | start (t : T) (job : J)
  | act (t : T) (action : A)

variable {T A J σ : Type} {B : A → Type}

section Steps

variable [DecidableEq T]

namespace Config

/-- Replace what thread `t` has to do and the shared state. -/
def update (c : Config T A B σ) (t : T) (s : σ) (p : Prog A B Unit) :
    Config T A B σ :=
  ⟨s, Function.update c.prog t p⟩

@[simp] theorem update_shared (c : Config T A B σ) (t : T) (s : σ)
    (p : Prog A B Unit) : (c.update t s p).shared = s := rfl

@[simp] theorem update_prog_self (c : Config T A B σ) (t : T) (s : σ)
    (p : Prog A B Unit) : (c.update t s p).prog t = p := by
  simp [update]

theorem update_prog_ne (c : Config T A B σ) {t u : T} (h : u ≠ t) (s : σ)
    (p : Prog A B Unit) : (c.update t s p).prog u = c.prog u := by
  simp [update, h]

theorem update_update (c : Config T A B σ) (t : T) (s s' : σ)
    (p p' : Prog A B Unit) :
    (c.update t s p).update t s' p' = c.update t s' p' := by
  simp [update]

end Config

/-- One step of the interleaved system. -/
inductive System.Step (S : System T A B J σ) :
    Config T A B σ → Label T A J → Config T A B σ → Prop
  | start (c : Config T A B σ) (t : T) (j : J) :
      c.prog t = .ret () →
      S.Step c (.start t j) (c.update t c.shared (S.job t j))
  | act (c : Config T A B σ) (t : T) (a : A)
      (next : B a → Prog A B Unit) (answer : B a) (s : σ) :
      c.prog t = .act a next → S.exec a c.shared = some (answer, s) →
      S.Step c (.act t a) (c.update t s (next answer))

/-- No thread has anything to do. -/
def Config.quiet (s : σ) : Config T A B σ :=
  ⟨s, fun _ => .ret ()⟩

theorem Config.quiet_update (s s' : σ) (t : T) :
    (quiet s : Config T A B σ).update t s' (.ret ()) = quiet s' := by
  unfold quiet update
  rw [Function.update_eq_self]

/-- Runs whose steps all satisfy `ok`, with their labels. -/
inductive System.Run (S : System T A B J σ) (ok : σ → Label T A J → Prop)
    (c₀ : Config T A B σ) : List (Label T A J) → Config T A B σ → Prop
  | nil : S.Run ok c₀ [] c₀
  | snoc {ls : List (Label T A J)} {l : Label T A J}
      {c c' : Config T A B σ} :
      S.Run ok c₀ ls c → ok c.shared l → S.Step c l c' →
      S.Run ok c₀ (ls ++ [l]) c'

/-- Runs together with what `log` notes about each step, oldest first. -/
inductive System.Logged {E : Type} (S : System T A B J σ)
    (ok : σ → Label T A J → Prop) (log : σ → Label T A J → List E)
    (c₀ : Config T A B σ) : List E → Config T A B σ → Prop
  | nil : S.Logged ok log c₀ [] c₀
  | snoc {es : List E} {l : Label T A J} {c c' : Config T A B σ} :
      S.Logged ok log c₀ es c → ok c.shared l → S.Step c l c' →
      S.Logged ok log c₀ (es ++ log c.shared l) c'

namespace System

variable {S : System T A B J σ} {ok ok' : σ → Label T A J → Prop}
  {c₀ c c' : Config T A B σ}

theorem Logged.run {E : Type} {log : σ → Label T A J → List E} {es : List E}
    (h : S.Logged ok log c₀ es c) : ∃ ls, S.Run ok c₀ ls c := by
  induction h with
  | nil => exact ⟨[], .nil⟩
  | snoc _ hok hstep ih =>
      obtain ⟨ls, hls⟩ := ih
      exact ⟨_, .snoc hls hok hstep⟩

/-- Every run can be logged. -/
theorem Run.logged {E : Type} (log : σ → Label T A J → List E)
    {ls : List (Label T A J)} (h : S.Run ok c₀ ls c) :
    ∃ es, S.Logged ok log c₀ es c := by
  induction h with
  | nil => exact ⟨[], .nil⟩
  | snoc _ hok hstep ih =>
      obtain ⟨es, hes⟩ := ih
      exact ⟨_, .snoc hes hok hstep⟩

theorem Run.append {ls ls' : List (Label T A J)} (h : S.Run ok c₀ ls c)
    (h' : S.Run ok c ls' c') : S.Run ok c₀ (ls ++ ls') c' := by
  induction h' with
  | nil => simpa using h
  | snoc _ hok hstep ih =>
      rw [← List.append_assoc]
      exact .snoc ih hok hstep

/-- The empty run from where a run has led. -/
theorem Run.here {ls : List (Label T A J)} (_ : S.Run ok c₀ ls c) :
    S.Run ok c [] c := .nil

theorem Run.mono (hok : ∀ s l, ok s l → ok' s l) {ls : List (Label T A J)}
    (h : S.Run ok c₀ ls c) : S.Run ok' c₀ ls c := by
  induction h with
  | nil => exact .nil
  | snoc _ hl hstep ih => exact .snoc ih (hok _ _ hl) hstep

/-- A program that runs alone to its end does so in the interleaved system
when the scheduler picks only its thread.  `exec'` may refuse actions of the
system that the run is not to take. -/
theorem Run.of_run {t : T} {exec' : (a : A) → σ → Option (B a × σ)}
    (hexec : ∀ a s out, exec' a s = some out →
      S.exec a s = some out ∧ ok s (.act t a)) :
    ∀ (p : Prog A B Unit) (c : Config T A B σ) (s : σ),
      c.prog t = p → Prog.run exec' p c.shared = some ((), s) →
      ∃ ls, S.Run ok c ls (c.update t s (.ret ())) := by
  intro p
  induction p with
  | ret value =>
      intro c s hp hrun
      simp only [Prog.run, Option.some.injEq, Prod.mk.injEq, true_and] at hrun
      subst hrun
      refine ⟨[], ?_⟩
      have hself : c.update t c.shared (.ret ()) = c := by
        simp only [Config.update]
        rw [← hp, Function.update_eq_self]
      rw [hself]
      exact .nil
  | act a next ih =>
      intro c s hp hrun
      simp only [Prog.run] at hrun
      cases he : exec' a c.shared with
      | none => simp [he] at hrun
      | some out =>
          obtain ⟨answer, s₁⟩ := out
          rw [he] at hrun
          obtain ⟨hS, hok⟩ := hexec a c.shared _ he
          obtain ⟨ls, hls⟩ := ih answer (c.update t s₁ (next answer)) s
            (by simp) (by simpa using hrun)
          rw [Config.update_update] at hls
          exact ⟨[.act t a] ++ ls, Run.append
            (.snoc .nil hok (.act c t a next answer s₁ hp hS)) hls⟩

/-- Giving a job to an idle thread and letting it finish alone. -/
theorem Run.job {t : T} {j : J} {s : σ} {ls : List (Label T A J)}
    {exec' : (a : A) → σ → Option (B a × σ)}
    (h : S.Run ok c₀ ls c) (hidle : c.prog t = .ret ())
    (hexec : ∀ a s out, exec' a s = some out →
      S.exec a s = some out ∧ ok s (.act t a))
    (hj : ok c.shared (.start t j))
    (hrun : Prog.run exec' (S.job t j) c.shared = some ((), s)) :
    ∃ ls', S.Run ok c₀ ls' (c.update t s (.ret ())) := by
  have hstart := Run.snoc h hj (.start c t j hidle)
  obtain ⟨ls₁, h₁⟩ := Run.of_run (S := S) hexec (S.job t j)
    (c.update t c.shared (S.job t j)) s (by simp) (by simpa using hrun)
  rw [Config.update_update] at h₁
  exact ⟨_, hstart.append h₁⟩

/-- A thread that performs its next actions alone. -/
theorem Run.of_advance {t : T} {exec' : (a : A) → σ → Option (B a × σ)}
    (hexec : ∀ a s out, exec' a s = some out →
      S.exec a s = some out ∧ ok s (.act t a)) {p : Prog A B Unit} {s : σ}
    (n : Nat) :
    ∀ {c : Config T A B σ},
      Prog.advance exec' n (c.prog t) c.shared = some (p, s) →
      ∃ ls, S.Run ok c ls (c.update t s p) := by
  induction n with
  | zero =>
      intro c h
      obtain ⟨rfl, rfl⟩ := Prod.mk.inj (Option.some.inj h)
      refine ⟨[], ?_⟩
      have hself : c.update t c.shared (c.prog t) = c := by
        simp only [Config.update, Function.update_eq_self]
      rw [hself]
      exact .nil
  | succ n ih =>
      intro c h
      cases hp : c.prog t with
      | ret value =>
          rw [hp] at h
          cases h
      | act a next =>
          rw [hp] at h
          obtain ⟨⟨answer, s₁⟩, he, hrest⟩ := Option.bind_eq_some_iff.mp h
          obtain ⟨hS, hok⟩ := hexec a c.shared _ he
          obtain ⟨ls, hls⟩ := ih (c := c.update t s₁ (next answer))
            (by simpa using hrest)
          rw [Config.update_update] at hls
          exact ⟨[.act t a] ++ ls, Run.append
            (.snoc .nil hok (.act c t a next answer s₁ hp hS)) hls⟩

/-- A run goes on with the next actions of one thread. -/
theorem Run.proceed {t : T} {s : σ} {p : Prog A B Unit}
    {ls : List (Label T A J)} {exec' : (a : A) → σ → Option (B a × σ)}
    (h : S.Run ok c₀ ls c)
    (hexec : ∀ a s out, exec' a s = some out →
      S.exec a s = some out ∧ ok s (.act t a)) {n : Nat}
    (hadvance : Prog.advance exec' n (c.prog t) c.shared = some (p, s)) :
    ∃ ls', S.Run ok c₀ ls' (c.update t s p) := by
  obtain ⟨ls₁, h₁⟩ := Run.of_advance (S := S) hexec n hadvance
  exact ⟨_, h.append h₁⟩

/-- Giving a job to an idle thread and letting it perform some actions alone. -/
theorem Run.begin {t : T} {j : J} {s : σ} {p : Prog A B Unit}
    {ls : List (Label T A J)} {exec' : (a : A) → σ → Option (B a × σ)}
    (h : S.Run ok c₀ ls c) (hidle : c.prog t = .ret ())
    (hexec : ∀ a s out, exec' a s = some out →
      S.exec a s = some out ∧ ok s (.act t a))
    (hj : ok c.shared (.start t j)) {n : Nat}
    (hadvance : Prog.advance exec' n (S.job t j) c.shared = some (p, s)) :
    ∃ ls', S.Run ok c₀ ls' (c.update t s p) := by
  have hstart := Run.snoc h hj (.start c t j hidle)
  obtain ⟨ls₁, h₁⟩ := hstart.proceed hexec (by simpa using hadvance)
  rw [Config.update_update] at h₁
  exact ⟨ls₁, h₁⟩

variable (S) in
/-- Give the jobs to the threads one after the other, letting each finish alone;
`none` when one may not start or cannot be finished. -/
def play (exec' : (a : A) → σ → Option (B a × σ)) (startOk : σ → T → J → Bool)
    (s : σ) : List (T × J) → Option σ
  | [] => some s
  | (t, j) :: rest =>
      if startOk s t j then
        (Prog.run exec' (S.job t j) s).bind fun out =>
          play exec' startOk out.2 rest
      else none

theorem play_run {exec' : (a : A) → σ → Option (B a × σ)}
    {startOk : σ → T → J → Bool}
    (hexec : ∀ t a s out, exec' a s = some out →
      S.exec a s = some out ∧ ok s (.act t a))
    (hstart : ∀ s t j, startOk s t j = true → ok s (.start t j))
    (jobs : List (T × J)) :
    ∀ {s s' : σ}, S.play exec' startOk s jobs = some s' →
      ∃ ls, S.Run ok (.quiet s) ls (.quiet s') := by
  induction jobs with
  | nil =>
      intro s s' h
      simp only [play, Option.some.injEq] at h
      subst h
      exact ⟨[], .nil⟩
  | cons job rest ih =>
      intro s s' h
      obtain ⟨t, j⟩ := job
      simp only [play] at h
      split at h
      case isFalse => cases h
      case isTrue hok =>
        rw [Option.bind_eq_some_iff] at h
        obtain ⟨⟨⟨⟩, s₁⟩, hrun, hrest⟩ := h
        have hnil : S.Run ok (.quiet s) [] (.quiet s) := .nil
        obtain ⟨ls₁, h₁⟩ := hnil.job rfl (hexec t) (hstart s t j hok) hrun
        rw [Config.quiet_update] at h₁
        obtain ⟨ls₂, h₂⟩ := ih hrest
        exact ⟨ls₁ ++ ls₂, h₁.append h₂⟩

variable {E : Type} {log : σ → Label T A J → List E}

/-- At most the next `n` actions of thread `t`, and what is logged of them. -/
def perform (exec' : (a : A) → σ → Option (B a × σ))
    (log : σ → Label T A J → List E) (t : T) :
    Nat → Prog A B Unit → σ → Option (List E × Prog A B Unit × σ)
  | 0, p, s => some ([], p, s)
  | _ + 1, .ret value, s => some ([], .ret value, s)
  | n + 1, .act a next, s =>
      (exec' a s).bind fun out =>
        (perform exec' log t n (next out.1) out.2).map fun done =>
          (log s (.act t a) ++ done.1, done.2)

theorem Logged.perform {exec' : (a : A) → σ → Option (B a × σ)} {t : T}
    (hexec : ∀ a s out, exec' a s = some out →
      S.exec a s = some out ∧ ok s (.act t a)) {n : Nat} :
    ∀ {es es' : List E} {c : Config T A B σ} {p : Prog A B Unit} {s : σ},
      S.Logged ok log c₀ es c →
      System.perform exec' log t n (c.prog t) c.shared = some (es', p, s) →
      S.Logged ok log c₀ (es ++ es') (c.update t s p) := by
  induction n with
  | zero =>
      intro es es' c p s h hdone
      cases hdone
      have hself : c.update t c.shared (c.prog t) = c := by
        simp only [Config.update, Function.update_eq_self]
      rwa [List.append_nil, hself]
  | succ n ih =>
      intro es es' c p s h hdone
      cases hp : c.prog t with
      | ret value =>
          rw [hp] at hdone
          cases hdone
          have hself : c.update t c.shared (.ret value) = c := by
            rw [← hp]
            simp only [Config.update, Function.update_eq_self]
          rwa [List.append_nil, hself]
      | act a next =>
          rw [hp] at hdone
          obtain ⟨⟨answer, s₁⟩, he, hdone⟩ := Option.bind_eq_some_iff.mp hdone
          obtain ⟨⟨es₁, p₁, s₂⟩, hrest, heq⟩ := Option.map_eq_some_iff.mp hdone
          cases heq
          obtain ⟨hS, hok⟩ := hexec a c.shared _ he
          have hall := ih (h.snoc hok (.act c t a next answer s₁ hp hS))
            (by simpa using hrest)
          rwa [Config.update_update, List.append_assoc] at hall

/-- A line of a script: a job is given to a thread, or a thread performs at most
its next `n` actions. -/
inductive Cue (T J : Type) where
  | give (t : T) (j : J)
  | act (t : T) (n : Nat)

variable (S) in
/-- Follow a script; `none` when a job may not start or an action is not
enabled. -/
def script (exec' : (a : A) → σ → Option (B a × σ)) (startOk : σ → T → J → Bool)
    (log : σ → Label T A J → List E) :
    List (Cue T J) → Config T A B σ → Option (List E × Config T A B σ)
  | [], c => some ([], c)
  | .give t j :: rest, c =>
      if (c.prog t).isRet && startOk c.shared t j then
        (script exec' startOk log rest (c.update t c.shared (S.job t j))).map
          fun done => (log c.shared (.start t j) ++ done.1, done.2)
      else none
  | .act t n :: rest, c =>
      (perform exec' log t n (c.prog t) c.shared).bind fun out =>
        (script exec' startOk log rest (c.update t out.2.2 out.2.1)).map
          fun done => (out.1 ++ done.1, done.2)

/-- A script that can be followed is a run. -/
theorem Logged.script {exec' : (a : A) → σ → Option (B a × σ)}
    {startOk : σ → T → J → Bool}
    (hexec : ∀ t a s out, exec' a s = some out →
      S.exec a s = some out ∧ ok s (.act t a))
    (hstart : ∀ s t j, startOk s t j = true → ok s (.start t j))
    (cues : List (Cue T J)) :
    ∀ {es es' : List E} {c c' : Config T A B σ}, S.Logged ok log c₀ es c →
      S.script exec' startOk log cues c = some (es', c') →
      S.Logged ok log c₀ (es ++ es') c' := by
  induction cues with
  | nil =>
      intro es es' c c' h hdone
      cases hdone
      rwa [List.append_nil]
  | cons cue rest ih =>
      intro es es' c c' h hdone
      cases cue with
      | give t j =>
          obtain ⟨hok, hdone⟩ := Option.ite_none_right_eq_some.mp hdone
          obtain ⟨hidle, hj⟩ := Bool.and_eq_true_iff.mp hok
          obtain ⟨⟨es₁, c₁⟩, hrest, heq⟩ := Option.map_eq_some_iff.mp hdone
          cases heq
          rw [← List.append_assoc]
          exact ih (h.snoc (hstart _ t j hj)
            (.start c t j (Prog.eq_of_isRet hidle))) hrest
      | act t n =>
          obtain ⟨⟨es₁, p, s⟩, hout, hdone⟩ := Option.bind_eq_some_iff.mp hdone
          obtain ⟨⟨es₂, c₁⟩, hrest, heq⟩ := Option.map_eq_some_iff.mp hdone
          cases heq
          rw [← List.append_assoc]
          exact ih (h.perform (hexec t) hout) hrest

/-- What one thread does in a run while it works on one program is an
execution of that program, the steps of the others being the environment. -/
theorem Run.exec_of {t : T} {R : σ → σ → Prop} (hrefl : ∀ s, R s s)
    (htrans : ∀ a b c, R a b → R b c → R a c)
    (hR : ∀ u a s b s', u ≠ t → ok s (.act u a) →
      S.exec a s = some (b, s') → R s s')
    {ls : List (Label T A J)} (h : S.Run ok c ls c')
    (hstart : ∀ j, .start t j ∉ ls) :
    ∃ trace, ∀ rest s, Prog.Exec S.exec R (c'.prog t) c'.shared rest () s →
      Prog.Exec S.exec R (c.prog t) c.shared (trace ++ rest) () s := by
  induction h with
  | nil => exact ⟨[], fun rest s h => h⟩
  | @snoc ls l c₁ c₂ hrun hok hstep ih =>
      obtain ⟨trace, htrace⟩ := ih fun j hj =>
        hstart j (List.mem_append_left _ hj)
      cases hstep with
      | start u j hp =>
          have hu : t ≠ u := by
            rintro rfl
            exact hstart j (by simp)
          refine ⟨trace, fun rest s h => htrace rest s ?_⟩
          rwa [Config.update_prog_ne _ hu] at h
      | act u a next answer s₁ hp he =>
          by_cases hu : t = u
          · subst hu
            refine ⟨trace ++ [⟨a, c₁.shared, s₁⟩], fun rest s h => ?_⟩
            rw [Config.update_prog_self] at h
            rw [List.append_assoc]
            apply htrace
            rw [hp]
            exact .act (hrefl _) he h
          · refine ⟨trace, fun rest s h => htrace rest s ?_⟩
            rw [Config.update_prog_ne _ hu, Config.update_shared] at h
            exact h.after htrans (hR u a _ answer s₁ (Ne.symm hu) hok he)

end System

end Steps

/-! ## Contracts -/

/-- Preconditions under which actions keep an invariant and one another's
views. -/
structure Contract (S : System T A B J σ) (ok : σ → Label T A J → Prop) where
  V : T → Type
  view : (t : T) → σ → V t
  Inv : σ → Prop
  Pre : T → A → σ → Prop
  inv_exec : ∀ t a s b s', Inv s → ok s (.act t a) → Pre t a s →
    S.exec a s = some (b, s') → Inv s'
  view_exec : ∀ t u a s b s', u ≠ t → Inv s → Pre t a s →
    S.exec a s = some (b, s') → view u s' = view u s

namespace Contract

variable {S : System T A B J σ} {ok : σ → Label T A J → Prop}
  (K : Contract S ok) {t : T} {α β : Type}

/-- Every action of the program meets its precondition when it is executed,
and the program ends with `Q`, starting from the own view `v`. -/
def Safe (t : T) (Q : α → K.V t → Prop) : Prog A B α → K.V t → Prop
  | .ret value, v => Q value v
  | .act action next, v =>
      ∀ s, K.Inv s → K.view t s = v → ok s (.act t action) →
        K.Pre t action s ∧
          ∀ answer s', S.exec action s = some (answer, s') →
            Safe t Q (next answer) (K.view t s')

@[simp] theorem safe_ret (Q : α → K.V t → Prop) (value : α) (v : K.V t) :
    K.Safe t Q (.ret value) v ↔ Q value v := Iff.rfl

variable {K}

theorem Safe.imp {Q Q' : α → K.V t → Prop} {p : Prog A B α}
    (hQ : ∀ value v, Q value v → Q' value v) :
    ∀ {v}, K.Safe t Q p v → K.Safe t Q' p v := by
  induction p with
  | ret value => intro v h; exact hQ _ _ h
  | act action next ih =>
      intro v h s hI hv hok
      obtain ⟨hpre, hnext⟩ := h s hI hv hok
      exact ⟨hpre, fun answer s' he => ih answer (hnext answer s' he)⟩

/-- The rule of sequential composition. -/
theorem Safe.bind {Q : α → K.V t → Prop} {Q' : β → K.V t → Prop}
    {p : Prog A B α} {k : α → Prog A B β}
    (hk : ∀ value v, Q value v → K.Safe t Q' (k value) v) :
    ∀ {v}, K.Safe t Q p v → K.Safe t Q' (p >>= k) v := by
  induction p with
  | ret value => intro v h; exact hk _ _ h
  | act action next ih =>
      intro v h s hI hv hok
      obtain ⟨hpre, hnext⟩ := h s hI hv hok
      exact ⟨hpre, fun answer s' he => ih answer (hnext answer s' he)⟩

/-- A program all of whose actions are always allowed and leave a property of
the own view in place keeps that property. -/
theorem Safe.of_all {P : A → Prop} {Q : K.V t → Prop} {p : Prog A B α}
    (hpre : ∀ a s, P a → K.Inv s → Q (K.view t s) → ok s (.act t a) →
      K.Pre t a s)
    (hkeep : ∀ a s b s', P a → K.Inv s → Q (K.view t s) →
      S.exec a s = some (b, s') → Q (K.view t s'))
    (hp : Prog.All P p) :
    ∀ {v}, Q v → K.Safe t (fun _ v => Q v) p v := by
  induction p with
  | ret value => intro v hv; exact hv
  | act action next ih =>
      intro v hQ s hI hv hok
      subst hv
      exact ⟨hpre _ _ hp.1 hI hQ hok, fun answer s' he =>
        ih answer (hp.2 answer) (hkeep _ _ _ _ hp.1 hI hQ he)⟩

/-- In an execution of a safe program under an environment that keeps the
invariant and the own view, every own action meets its precondition. -/
theorem Safe.exec {Q : α → K.V t → Prop} {R : σ → σ → Prop}
    (hR : ∀ {s s'}, R s s' → K.Inv s →
      K.Inv s' ∧ K.view t s' = K.view t s)
    (hok : ∀ s a, ok s (.act t a)) {p : Prog A B α} {s s' : σ}
    {trace : List (Prog.Event A σ)} {value : α}
    (h : Prog.Exec S.exec R p s trace value s') (hI : K.Inv s)
    (hsafe : K.Safe t Q p (K.view t s)) :
    (∀ e ∈ trace, K.Pre t e.action e.before) ∧ K.Inv s' ∧
      Q value (K.view t s') := by
  induction h with
  | ret hR' =>
      obtain ⟨hI', hv⟩ := hR hR' hI
      refine ⟨?_, hI', ?_⟩
      · intro e he
        cases he
      · rw [hv]
        exact hsafe
  | act hR' he hnext ih =>
      obtain ⟨hI₁, hv⟩ := hR hR' hI
      obtain ⟨hpre, hsafe'⟩ := hsafe _ hI₁ hv (hok _ _)
      have hI₂ := K.inv_exec t _ _ _ _ hI₁ (hok _ _) hpre he
      obtain ⟨hrest, hend⟩ := ih hI₂ (hsafe' _ _ he)
      refine ⟨?_, hend⟩
      intro e hmem
      rcases List.mem_cons.mp hmem with rfl | hmem
      · exact hpre
      · exact hrest e hmem

/-! ### A further invariant on top of a contract -/

/-- What is proved on top of a contract once the contract is known to be kept:
a further invariant, further preconditions, and for each thread a *ghost*, a
further part of the state that no other thread changes. -/
structure Extension (K : Contract S ok) (ok' : σ → Label T A J → Prop) where
  G : T → Type
  ghost : (t : T) → σ → G t
  Inv : σ → Prop
  Pre : T → A → σ → Prop
  weaken : ∀ s l, ok' s l → ok s l
  inv_exec : ∀ t a s b s', K.Inv s → Inv s → ok' s (.act t a) → K.Pre t a s →
    Pre t a s → S.exec a s = some (b, s') → Inv s'
  ghost_exec : ∀ t u a s b s', u ≠ t → K.Inv s → Inv s → K.Pre t a s →
    Pre t a s → S.exec a s = some (b, s') → ghost u s' = ghost u s

namespace Extension

variable {ok' : σ → Label T A J → Prop} (E : Extension K ok')

/-- The contract with the further conditions. -/
def contract : Contract S ok' :=
  { V := fun t => K.V t × E.G t
    view := fun t s => (K.view t s, E.ghost t s)
    Inv := fun s => K.Inv s ∧ E.Inv s
    Pre := fun t a s => K.Pre t a s ∧ E.Pre t a s
    inv_exec := fun t a s b s' hs hl ha he =>
      ⟨K.inv_exec t a s b s' hs.1 (E.weaken _ _ hl) ha.1 he,
        E.inv_exec t a s b s' hs.1 hs.2 hl ha.1 ha.2 he⟩
    view_exec := fun t u a s b s' hu hs ha he => by
      rw [K.view_exec t u a s b s' hu hs.1 ha.1 he,
        E.ghost_exec t u a s b s' hu hs.1 hs.2 ha.1 ha.2 he] }

/-- Every action of the program meets its further precondition when it is
executed, given that it meets the contract's, and the program ends with
`Q`. -/
def Flows (t : T) (Q : α → K.V t → E.G t → Prop) :
    Prog A B α → K.V t → E.G t → Prop
  | .ret value, v, g => Q value v g
  | .act action next, v, g =>
      ∀ s, K.Inv s → E.Inv s → K.view t s = v → E.ghost t s = g →
        ok' s (.act t action) → K.Pre t action s →
        E.Pre t action s ∧
          ∀ answer s', S.exec action s = some (answer, s') →
            Flows t Q (next answer) (K.view t s') (E.ghost t s')

variable {E} {Q Q' : α → K.V t → E.G t → Prop}

theorem Flows.imp {p : Prog A B α}
    (hQ : ∀ value v g, Q value v g → Q' value v g) :
    ∀ {v g}, E.Flows t Q p v g → E.Flows t Q' p v g := by
  induction p with
  | ret value => intro v g h; exact hQ _ _ _ h
  | act action next ih =>
      intro v g h s hK hI hv hg hok hpre
      obtain ⟨ha, hnext⟩ := h s hK hI hv hg hok hpre
      exact ⟨ha, fun answer s' he => ih answer (hnext answer s' he)⟩

theorem Flows.bind {R : β → K.V t → E.G t → Prop} {p : Prog A B α}
    {k : α → Prog A B β}
    (hk : ∀ value v g, Q value v g → E.Flows t R (k value) v g) :
    ∀ {v g}, E.Flows t Q p v g → E.Flows t R (p >>= k) v g := by
  induction p with
  | ret value => intro v g h; exact hk _ _ _ h
  | act action next ih =>
      intro v g h s hK hI hv hg hok hpre
      obtain ⟨ha, hnext⟩ := h s hK hI hv hg hok hpre
      exact ⟨ha, fun answer s' he => ih answer (hnext answer s' he)⟩

/-- A program all of whose actions meet the further precondition and keep a
property of the own view and ghost. -/
theorem Flows.of_all {P : A → Prop} {R : K.V t → E.G t → Prop}
    (hstep : ∀ a s, P a → K.Inv s → E.Inv s → R (K.view t s) (E.ghost t s) →
      ok' s (.act t a) → K.Pre t a s → E.Pre t a s ∧
        ∀ b s', S.exec a s = some (b, s') → R (K.view t s') (E.ghost t s'))
    {p : Prog A B α} (hp : Prog.All P p) :
    ∀ {v g}, R v g → E.Flows t (fun _ v g => R v g) p v g := by
  induction p with
  | ret value => intro v g h; exact h
  | act action next ih =>
      intro v g hR s hK hI hv hg hok hpre
      subst hv hg
      obtain ⟨ha, hnext⟩ := hstep action s hp.1 hK hI hR hok hpre
      exact ⟨ha, fun answer s' he => ih answer (hp.2 answer) (hnext answer s' he)⟩

/-- A program that is safe and flows well is safe for the extended
contract. -/
theorem safe {R : α → K.V t → Prop} {p : Prog A B α} :
    ∀ {v g}, K.Safe t R p v → E.Flows t Q p v g →
      E.contract.Safe t (fun value w => R value w.1 ∧ Q value w.1 w.2) p
        (v, g) := by
  induction p with
  | ret value => intro v g h hflow; exact ⟨h, hflow⟩
  | act action next ih =>
      intro v g h hflow s hs hw hl
      obtain ⟨hv, hg⟩ := Prod.mk.inj hw
      obtain ⟨hpre, hnext⟩ := h s hs.1 hv (E.weaken _ _ hl)
      obtain ⟨ha, hflow'⟩ := hflow s hs.1 hs.2 hv hg hl hpre
      exact ⟨⟨hpre, ha⟩, fun answer s' he =>
        ih answer (hnext answer s' he) (hflow' answer s' he)⟩

end Extension

variable (K) in
/-- The invariant holds and every thread is safe in what it still has to do,
ending with `idle`. -/
structure Sound (idle : (t : T) → K.V t → Prop) (c : Config T A B σ) :
    Prop where
  inv : K.Inv c.shared
  safe : ∀ t, K.Safe t (fun _ => idle t) (c.prog t) (K.view t c.shared)

namespace Sound

variable {idle : (t : T) → K.V t → Prop} {c c' : Config T A B σ}

/-- The action a thread is about to perform meets its precondition. -/
theorem pre (h : K.Sound idle c) {a : A} {next : B a → Prog A B Unit}
    (hp : c.prog t = .act a next) (hok : ok c.shared (.act t a)) :
    K.Pre t a c.shared := by
  have hs := h.safe t
  rw [hp] at hs
  exact (hs c.shared h.inv rfl hok).1

/-- A thread that has nothing to do is idle in its own view. -/
theorem idle_view (h : K.Sound idle c) (hp : c.prog t = .ret ()) :
    idle t (K.view t c.shared) := by
  have hs := h.safe t
  rwa [hp] at hs

variable [DecidableEq T]

/-- One step keeps soundness. -/
theorem step
    (hjob : ∀ t j s, K.Inv s → idle t (K.view t s) → ok s (.start t j) →
      K.Safe t (fun _ => idle t) (S.job t j) (K.view t s))
    (h : K.Sound idle c) {l : Label T A J} (hok : ok c.shared l)
    (hstep : S.Step c l c') : K.Sound idle c' := by
  cases hstep with
  | start t j hp =>
      refine ⟨h.inv, fun u => ?_⟩
      by_cases hu : u = t
      · subst hu
        simpa using hjob _ j _ h.inv (h.idle_view hp) hok
      · rw [Config.update_prog_ne c hu]
        exact h.safe u
  | act t a next answer s hp he =>
      have hpre := h.pre hp hok
      refine ⟨K.inv_exec t a _ _ _ h.inv hok hpre he, fun u => ?_⟩
      by_cases hu : u = t
      · subst hu
        have hs := h.safe u
        rw [hp] at hs
        simpa using (hs c.shared h.inv rfl hok).2 answer s he
      · rw [Config.update_prog_ne c hu, Config.update_shared,
          K.view_exec t u a _ _ _ hu h.inv hpre he]
        exact h.safe u

/-- **Soundness of thread-local proofs**: every configuration of every run is
sound. -/
theorem run
    (hjob : ∀ t j s, K.Inv s → idle t (K.view t s) → ok s (.start t j) →
      K.Safe t (fun _ => idle t) (S.job t j) (K.view t s))
    {c₀ : Config T A B σ} (h₀ : K.Sound idle c₀)
    {ls : List (Label T A J)} (hrun : S.Run ok c₀ ls c) :
    K.Sound idle c := by
  induction hrun with
  | nil => exact h₀
  | snoc _ hok hstep ih => exact step hjob ih hok hstep

/-- In a run from a sound configuration every action meets its
precondition. -/
theorem run_pre {ok' : σ → Label T A J → Prop}
    (hok : ∀ s l, ok' s l → ok s l)
    (hjob : ∀ t j s, K.Inv s → idle t (K.view t s) → ok s (.start t j) →
      K.Safe t (fun _ => idle t) (S.job t j) (K.view t s))
    {c₀ : Config T A B σ} (h₀ : K.Sound idle c₀)
    {ls : List (Label T A J)} (hrun : S.Run ok' c₀ ls c) :
    S.Run (fun s l => ok' s l ∧ ∀ t a, l = .act t a → K.Pre t a s) c₀ ls
      c := by
  induction hrun with
  | nil => exact .nil
  | snoc hrun hl hstep ih =>
      have hsound := run hjob h₀ (hrun.mono hok)
      cases hstep with
      | start t j hp =>
          exact .snoc ih ⟨hl, fun _ _ h => by cases h⟩ (.start _ t j hp)
      | act t a next answer s hp he =>
          refine .snoc ih ⟨hl, ?_⟩ (.act _ t a next answer s hp he)
          intro u a' heq
          cases heq
          exact hsound.pre hp (hok _ _ hl)

/-- An invariant of the state, from what actions under their preconditions do
to it. -/
theorem invariant {ok' : σ → Label T A J → Prop}
    (hok : ∀ s l, ok' s l → ok s l)
    (hjob : ∀ t j s, K.Inv s → idle t (K.view t s) → ok s (.start t j) →
      K.Safe t (fun _ => idle t) (S.job t j) (K.view t s))
    {c₀ : Config T A B σ} (h₀ : K.Sound idle c₀) {I : σ → Prop}
    (hinit : I c₀.shared)
    (hact : ∀ t a s b s', K.Pre t a s → ok' s (.act t a) →
      S.exec a s = some (b, s') → I s → I s')
    {ls : List (Label T A J)} (hrun : S.Run ok' c₀ ls c) : I c.shared := by
  have hpre := run_pre hok hjob h₀ hrun
  clear hrun
  induction hpre with
  | nil => exact hinit
  | snoc _ hl hstep ih =>
      cases hstep with
      | start => exact ih
      | act t a next answer s hp he =>
          exact hact t a _ answer s (hl.2 t a rfl) hl.1 he ih

/-- An invariant of the state and a log of the run, from what actions under
their preconditions do to it. -/
theorem logged {ok' : σ → Label T A J → Prop}
    (hok : ∀ s l, ok' s l → ok s l)
    (hjob : ∀ t j s, K.Inv s → idle t (K.view t s) → ok s (.start t j) →
      K.Safe t (fun _ => idle t) (S.job t j) (K.view t s))
    {c₀ : Config T A B σ} (h₀ : K.Sound idle c₀) {E : Type}
    {log : σ → Label T A J → List E} {I : σ → List E → Prop}
    (hinit : I c₀.shared [])
    (hstart : ∀ t j s es, ok' s (.start t j) → I s es →
      I s (es ++ log s (.start t j)))
    (hact : ∀ t a s b s' es, K.Inv s → K.Pre t a s → ok' s (.act t a) →
      S.exec a s = some (b, s') → I s es → I s' (es ++ log s (.act t a)))
    {es : List E} (hrun : S.Logged ok' log c₀ es c) : I c.shared es := by
  induction hrun with
  | nil => exact hinit
  | snoc hrun hl hstep ih =>
      obtain ⟨ls, hls⟩ := hrun.run
      have hsound := run hjob h₀ (hls.mono hok)
      cases hstep with
      | start t j hp => exact hstart t j _ _ hl ih
      | act t a next answer s hp he =>
          exact hact t a _ answer _ _ hsound.inv (hsound.pre hp (hok _ _ hl))
            hl he ih

end Sound

/-- Soundness for an extended contract, from the jobs' safety for the contract
and their flows. -/
theorem Extension.sound [DecidableEq T] {ok' : σ → Label T A J → Prop}
    {E : Extension K ok'} {idle : (t : T) → K.V t → Prop}
    {idle' : (t : T) → K.V t → E.G t → Prop}
    (hjob : ∀ t j s, K.Inv s → idle t (K.view t s) → ok s (.start t j) →
      K.Safe t (fun _ => idle t) (S.job t j) (K.view t s))
    (hflow : ∀ t j s, K.Inv s → E.Inv s → idle t (K.view t s) →
      idle' t (K.view t s) (E.ghost t s) → ok' s (.start t j) →
      E.Flows t (fun _ => idle' t) (S.job t j) (K.view t s) (E.ghost t s))
    {c₀ c : Config T A B σ}
    (h₀ : E.contract.Sound (fun t w => idle t w.1 ∧ idle' t w.1 w.2) c₀)
    {ls : List (Label T A J)} (hrun : S.Run ok' c₀ ls c) :
    E.contract.Sound (fun t w => idle t w.1 ∧ idle' t w.1 w.2) c :=
  Sound.run (fun t j s hs hw hok =>
    E.safe (hjob t j s hs.1 hw.1 (E.weaken _ _ hok))
      (hflow t j s hs.1 hs.2 hw.1 hw.2 hok)) h₀ hrun

end Contract

end ChatApp.Foundation
