import ChatApp.Foundation.Interleaving

/-!
# Threads that wind down

Threads that look at a flag before they go on do not stop at once when another
thread clears it.  `Few` bounds what a program may still do once the flag is
cleared, knowing what every later look at it tells; `Winding.rest_run` bounds
what a thread does in all from then on, whatever the interleaving: the rest of
the job it is at, and nothing in later jobs.
-/

namespace ChatApp.Foundation

variable {T A J σ : Type} {B : A → Type}

/-- The states in which the flag is cleared stay so, and then an action can only
have some of its answers. -/
structure Winding (S : System T A B J σ) where
  stopped : σ → Prop
  answers : (a : A) → B a → Prop
  stays : ∀ {a s b s'}, stopped s → S.exec a s = some (b, s') →
    stopped s' ∧ answers a b

namespace Winding

variable {S : System T A B J σ} (W : Winding S) (marked : A → Bool)
  {α β : Type}

/-- While the flag is cleared, the program performs at most `n` marked
actions. -/
def Few : Nat → Prog A B α → Prop
  | _, .ret _ => True
  | n, .act a next => (marked a = true → 0 < n) ∧
      ∀ b, W.answers a b → Few (n - (marked a).toNat) (next b)

/-- Wherever the program has got to when the flag is cleared, it performs at most
`n` marked actions from there on. -/
def Soon (n : Nat) : Prog A B α → Prop
  | .ret _ => True
  | .act a next => W.Few marked n (.act a next) ∧ ∀ b, Soon n (next b)

variable {W marked} {n m : Nat}

theorem Few.mono (h : n ≤ m) {p : Prog A B α} (hp : W.Few marked n p) :
    W.Few marked m p := by
  induction p generalizing n m with
  | ret value => trivial
  | act a next ih =>
      refine ⟨fun ha => Nat.lt_of_lt_of_le (hp.1 ha) h, fun b hb => ?_⟩
      exact ih b (Nat.sub_le_sub_right h _) (hp.2 b hb)

theorem Soon.few {p : Prog A B α} (h : W.Soon marked n p) :
    W.Few marked n p := by
  cases p with
  | ret value => trivial
  | act a next => exact h.1

theorem Soon.mono (h : n ≤ m) {p : Prog A B α} (hp : W.Soon marked n p) :
    W.Soon marked m p := by
  induction p with
  | ret value => trivial
  | act a next ih => exact ⟨hp.1.mono h, fun b => ih b (hp.2 b)⟩

/-- An unmarked action comes first. -/
theorem soon_plain {a : A} {next : B a → Prog A B α} (ha : marked a = false)
    (h : ∀ b, W.Soon marked n (next b)) : W.Soon marked n (.act a next) := by
  refine ⟨⟨fun hmark => ?_, fun b _ => ?_⟩, h⟩
  · rw [ha] at hmark
    cases hmark
  · rw [ha]
    exact (h b).few

/-- A marked action comes first. -/
theorem soon_marked {a : A} {next : B a → Prog A B α}
    (hfew : ∀ b, W.answers a b → W.Few marked n (next b))
    (h : ∀ b, W.Soon marked (n + 1) (next b)) (ha : marked a = true) :
    W.Soon marked (n + 1) (.act a next) := by
  refine ⟨⟨fun _ => Nat.succ_pos n, fun b hb => ?_⟩, h⟩
  rw [ha]
  exact hfew b hb

theorem Few.bind {p : Prog A B α} {k : α → Prog A B β}
    (hk : ∀ value, W.Few marked m (k value)) (hp : W.Few marked n p) :
    W.Few marked (n + m) (p >>= k) := by
  induction p generalizing n with
  | ret value => exact (hk value).mono (Nat.le_add_left m n)
  | act a next ih =>
      refine ⟨fun ha => Nat.lt_add_right m (hp.1 ha), fun b hb => ?_⟩
      refine (ih b (hp.2 b hb)).mono ?_
      cases hmark : marked a with
      | true =>
          have hpos := hp.1 hmark
          simp only [Bool.toNat_true]
          omega
      | false =>
          simp only [Bool.toNat_false]
          omega

theorem Soon.bind {p : Prog A B α} {k : α → Prog A B β}
    (hk : ∀ value, W.Soon marked m (k value)) (hp : W.Soon marked n p) :
    W.Soon marked (n + m) (p >>= k) := by
  induction p with
  | ret value => exact (hk value).mono (Nat.le_add_left m n)
  | act a next ih =>
      exact ⟨hp.1.bind fun value => (hk value).few, fun b => ih b (hp.2 b)⟩

section Run

variable [DecidableEq T] {ok : σ → Label T A J → Prop} {t : T}
  {c₀ c c' : Config T A B σ} {ls ls' : List (Label T A J)}

variable (marked t) in
/-- The step is a marked action of thread `t`. -/
def marks : Label T A J → Bool
  | .start .. => false
  | .act u a => u = t && marked a

/-- In every run a thread is at a point from which it soon winds down. -/
theorem soon_run (hjob : ∀ j, W.Soon marked n (S.job t j))
    (h₀ : W.Soon marked n (c₀.prog t)) (h : S.Run ok c₀ ls c) :
    W.Soon marked n (c.prog t) := by
  induction h with
  | nil => exact h₀
  | snoc _ _ hstep ih =>
      cases hstep with
      | start u j hp =>
          by_cases hu : t = u
          · subst hu
            rw [Config.update_prog_self]
            exact hjob j
          · rwa [Config.update_prog_ne _ hu]
      | act u a next answer s hp he =>
          by_cases hu : t = u
          · subst hu
            rw [Config.update_prog_self]
            rw [hp] at ih
            exact ih.2 answer
          · rwa [Config.update_prog_ne _ hu]

/-- From a state in which the flag is cleared. -/
theorem few_run (hjob : ∀ j, W.Few marked 0 (S.job t j))
    (hstop : W.stopped c.shared) (hfew : W.Few marked n (c.prog t))
    (h : S.Run ok c ls c') :
    W.stopped c'.shared ∧ ∃ m, ls.countP (marks marked t) + m ≤ n ∧
      W.Few marked m (c'.prog t) := by
  induction h with
  | nil => exact ⟨hstop, n, by simp, hfew⟩
  | snoc _ _ hstep ih =>
      obtain ⟨hstopped, m, hcount, hrest⟩ := ih
      cases hstep with
      | start u j hp =>
          refine ⟨hstopped, m, by simpa [marks] using hcount, ?_⟩
          by_cases hu : t = u
          · subst hu
            rw [Config.update_prog_self]
            exact (hjob j).mono (Nat.zero_le m)
          · rwa [Config.update_prog_ne _ hu]
      | act u a next answer s hp he =>
          obtain ⟨hstopped', hanswer⟩ := W.stays hstopped he
          refine ⟨hstopped', ?_⟩
          by_cases hu : u = t
          · subst hu
            rw [hp] at hrest
            refine ⟨m - (marked a).toNat, ?_, ?_⟩
            · cases hmark : marked a with
              | true =>
                  have hpos := hrest.1 hmark
                  simp [marks, hmark]
                  omega
              | false => simpa [marks, hmark] using hcount
            · rw [Config.update_prog_self]
              exact hrest.2 answer hanswer
          · refine ⟨m, by simpa [marks, hu] using hcount, ?_⟩
            rwa [Config.update_prog_ne _ (Ne.symm hu)]

/-- **Winding down.**  Once the flag is cleared, a thread performs at most `n`
marked actions in all the rest of the run, if from every point of its jobs it
performs at most `n`, and none in a job that it starts later. -/
theorem rest_run {s₀ : σ} (hsoon : ∀ j, W.Soon marked n (S.job t j))
    (hfew : ∀ j, W.Few marked 0 (S.job t j))
    (hrun : S.Run ok (.quiet s₀) ls c) (hstop : W.stopped c.shared)
    (hrest : S.Run ok c ls' c') :
    W.stopped c'.shared ∧ ls'.countP (marks marked t) ≤ n := by
  have hidle : W.Soon marked n ((Config.quiet s₀ : Config T A B σ).prog t) :=
    trivial
  have hnow := (soon_run hsoon hidle hrun).few
  obtain ⟨hstopped, m, hcount, -⟩ := few_run hfew hstop hnow hrest
  exact ⟨hstopped, by omega⟩

end Run

end Winding

end ChatApp.Foundation
