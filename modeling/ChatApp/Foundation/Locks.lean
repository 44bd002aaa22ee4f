import ChatApp.Foundation.Interleaving

/-!
# Threads that take locks

`LockAct` adds to a set of atomic actions the taking and giving back of locks,
and `Guarded` adds to a state the table of who holds which lock; taking a lock
that somebody holds blocks.

A program is `Disciplined` when it takes a lock only while it holds none, gives
back only the lock it holds, and performs an action that needs a lock only
while it holds that lock.  Runs of disciplined jobs are `Orderly`: the table
and the programs agree.  So nobody holds a lock while it waits for another, and
no set of threads is deadlocked.
-/

namespace ChatApp.Foundation

/-- Thread `t` takes a lock, gives one back, or performs an action. -/
inductive LockAct (T L A : Type) where
  | lock (t : T) (l : L)
  | unlock (t : T) (l : L)
  | step (a : A)

/-- A state with the table of the locks' holders. -/
structure Guarded (T L σ : Type) where
  holder : L → Option T
  state : σ

variable {T L A J σ : Type} {B : A → Type}

abbrev LockAct.Answer (B : A → Type) : LockAct T L A → Type
  | .step a => B a
  | _ => Unit

/-- Taking a lock blocks while somebody holds it, and only its holder can give
it back. -/
def LockAct.exec [DecidableEq T] [DecidableEq L]
    (exec : (a : A) → σ → Option (B a × σ)) :
    (a : LockAct T L A) → Guarded T L σ → Option (a.Answer B × Guarded T L σ)
  | .lock t l, s =>
      if s.holder l = none then
        some ((), { s with holder := Function.update s.holder l (some t) })
      else none
  | .unlock t l, s =>
      if s.holder l = some t then
        some ((), { s with holder := Function.update s.holder l none })
      else none
  | .step a, s => (exec a s.state).map fun out => (out.1, { s with state := out.2 })

/-- Programs of threads that take locks. -/
abbrev LockProg (T L A : Type) (B : A → Type) : Type → Type :=
  Prog (LockAct T L A) (LockAct.Answer B)

/-! ## Discipline -/

section Discipline

variable (needs : A → Option L) {t : T} {α β : Type}

/-- Started by thread `t` while it holds `held`, the program takes a lock only
while it holds none, gives back the one it holds, performs no action without
the lock the action needs, and ends as `Q` says. -/
def Disciplined (t : T) (Q : α → Option L → Prop) :
    LockProg T L A B α → Option L → Prop
  | .ret value, held => Q value held
  | .act (.lock u l) next, held =>
      u = t ∧ held = none ∧ Disciplined t Q (next ()) (some l)
  | .act (.unlock u l) next, held =>
      u = t ∧ held = some l ∧ Disciplined t Q (next ()) none
  | .act (.step a) next, held =>
      (∀ l, needs a = some l → held = some l) ∧
        ∀ answer, Disciplined t Q (next answer) held

variable {needs}

theorem Disciplined.bind {Q : α → Option L → Prop} {Q' : β → Option L → Prop}
    {p : LockProg T L A B α} {k : α → LockProg T L A B β}
    (hk : ∀ value held, Q value held → Disciplined needs t Q' (k value) held) :
    ∀ {held}, Disciplined needs t Q p held →
      Disciplined needs t Q' (p >>= k) held := by
  induction p with
  | ret value => intro held h; exact hk _ _ h
  | act a next ih =>
      intro held h
      cases a with
      | lock u l => exact ⟨h.1, h.2.1, ih () h.2.2⟩
      | unlock u l => exact ⟨h.1, h.2.1, ih () h.2.2⟩
      | step a => exact ⟨h.1, fun answer => ih answer (h.2 answer)⟩

theorem Disciplined.imp {Q Q' : α → Option L → Prop}
    {p : LockProg T L A B α} (hQ : ∀ value held, Q value held → Q' value held) :
    ∀ {held}, Disciplined needs t Q p held →
      Disciplined needs t Q' p held := by
  induction p with
  | ret value => intro held h; exact hQ _ _ h
  | act a next ih =>
      intro held h
      cases a with
      | lock u l => exact ⟨h.1, h.2.1, ih () h.2.2⟩
      | unlock u l => exact ⟨h.1, h.2.1, ih () h.2.2⟩
      | step a => exact ⟨h.1, fun answer => ih answer (h.2 answer)⟩

/-- Implementing every action by a program that holds no lock before and after
it. -/
theorem Disciplined.expand {A₀ : Type} {B₀ : A₀ → Type}
    {implement : (a : A₀) → LockProg T L A B (B₀ a)}
    (h : ∀ a, Disciplined needs t (fun _ held => held = none) (implement a) none)
    (p : Prog A₀ B₀ α) :
    Disciplined needs t (fun _ held => held = none) (p.expand implement)
      none := by
  induction p with
  | ret value => exact rfl
  | act a next ih =>
      refine (h a).bind ?_
      rintro answer held rfl
      exact ih answer

end Discipline

/-! ## Runs -/

section Runs

variable [DecidableEq T] [DecidableEq L]

/-- Threads with locks that are given jobs. -/
def lockSystem (exec : (a : A) → σ → Option (B a × σ))
    (job : T → J → LockProg T L A B Unit) :
    System T (LockAct T L A) (LockAct.Answer B) J (Guarded T L σ) :=
  { exec := LockAct.exec exec
    job := job }

abbrev LockConfig (T L A : Type) (B : A → Type) (σ : Type) : Type :=
  Config T (LockAct T L A) (LockAct.Answer B) (Guarded T L σ)

variable {exec : (a : A) → σ → Option (B a × σ)}
  {job : T → J → LockProg T L A B Unit} (needs : A → Option L)
  {c c' : LockConfig T L A B σ}

/-- Every thread is disciplined in what it still has to do, and holds by the
table what its program takes it to hold. -/
def Orderly (c : LockConfig T L A B σ) : Prop :=
  ∀ t, ∃ held, Disciplined needs t (fun _ held => held = none) (c.prog t) held ∧
    ∀ l, c.shared.holder l = some t ↔ held = some l

variable {needs}

theorem Orderly.step
    (hjob : ∀ t j, Disciplined needs t (fun _ held => held = none) (job t j) none)
    (h : Orderly needs c) {l : Label T (LockAct T L A) J}
    (hstep : (lockSystem exec job).Step c l c') : Orderly needs c' := by
  cases hstep with
  | start t j hp =>
      intro u
      by_cases hu : u = t
      · subst hu
        obtain ⟨held, hdisc, hheld⟩ := h u
        rw [hp] at hdisc
        have hnone : held = none := hdisc
        subst hnone
        refine ⟨none, ?_, hheld⟩
        rw [Config.update_prog_self]
        exact hjob u j
      · rw [Config.update_prog_ne c hu]
        exact h u
  | act t a next answer s hp he =>
      obtain ⟨held, hdisc, hheld⟩ := h t
      rw [hp] at hdisc
      cases a with
      | lock u lck =>
          obtain ⟨rfl, rfl, hnext⟩ := hdisc
          simp only [lockSystem, LockAct.exec] at he
          split at he
          case isFalse => cases he
          rename_i hfree
          cases he
          intro v
          by_cases hv : v = u
          · subst hv
            refine ⟨some lck, by simpa using hnext, fun l' => ?_⟩
            by_cases hl : l' = lck
            · simp [hl]
            · have hnot := (hheld l').not.mpr nofun
              simp [hl, hnot, Ne.symm hl]
          · obtain ⟨held', hdisc', hheld'⟩ := h v
            refine ⟨held', by rwa [Config.update_prog_ne c hv], fun l' => ?_⟩
            by_cases hl : l' = lck
            · subst hl
              have hnot := (hheld' l').not.mp (by rw [hfree]; exact nofun)
              simp [hnot, Ne.symm hv]
            · simpa [hl] using hheld' l'
      | unlock u lck =>
          obtain ⟨rfl, rfl, hnext⟩ := hdisc
          simp only [lockSystem, LockAct.exec] at he
          split at he
          case isFalse => cases he
          rename_i hmine
          cases he
          intro v
          by_cases hv : v = u
          · subst hv
            refine ⟨none, by simpa using hnext, fun l' => ?_⟩
            by_cases hl : l' = lck
            · simp [hl]
            · have hnot := (hheld l').not.mpr (by simpa using Ne.symm hl)
              simp [hl, hnot]
          · obtain ⟨held', hdisc', hheld'⟩ := h v
            refine ⟨held', by rwa [Config.update_prog_ne c hv], fun l' => ?_⟩
            by_cases hl : l' = lck
            · subst hl
              have hnot := (hheld' l').not.mp
                (by rw [hmine]; simpa using Ne.symm hv)
              simp [hnot]
            · simpa [hl] using hheld' l'
      | step a =>
          simp only [lockSystem, LockAct.exec, Option.map_eq_some_iff] at he
          obtain ⟨out, -, hout⟩ := he
          cases hout
          intro v
          by_cases hv : v = t
          · subst hv
            exact ⟨held, by simpa using hdisc.2 out.1, hheld⟩
          · rw [Config.update_prog_ne c hv]
            exact h v

theorem Orderly.run {ok : Guarded T L σ → Label T (LockAct T L A) J → Prop}
    (hjob : ∀ t j, Disciplined needs t (fun _ held => held = none) (job t j) none)
    {c₀ : LockConfig T L A B σ} (h₀ : Orderly needs c₀)
    {ls : List (Label T (LockAct T L A) J)}
    (hrun : (lockSystem exec job).Run ok c₀ ls c) : Orderly needs c := by
  induction hrun with
  | nil => exact h₀
  | snoc _ _ hstep ih => exact ih.step hjob hstep

end Runs

/-! ## What follows for every configuration -/

section Consequences

variable {needs : A → Option L} {c : LockConfig T L A B σ}

/-- The thread has asked for a lock that somebody holds. -/
def Waits (c : LockConfig T L A B σ) (t : T) (l : L) : Prop :=
  (∃ next, c.prog t = .act (.lock t l) next) ∧ c.shared.holder l ≠ none

/-- Whoever asks for a lock holds none. -/
theorem Orderly.requests (h : Orderly needs c) {t u : T} {l : L}
    {next : Unit → LockProg T L A B Unit}
    (hp : c.prog t = .act (.lock u l) next) :
    u = t ∧ ∀ l', c.shared.holder l' ≠ some t := by
  obtain ⟨held, hdisc, hheld⟩ := h t
  rw [hp] at hdisc
  obtain ⟨rfl, rfl, -⟩ := hdisc
  refine ⟨rfl, fun l' => ?_⟩
  rw [ne_eq, hheld l']
  exact nofun

/-- Whoever gives a lock back holds it. -/
theorem Orderly.releases (h : Orderly needs c) {t u : T} {l : L}
    {next : Unit → LockProg T L A B Unit}
    (hp : c.prog t = .act (.unlock u l) next) :
    u = t ∧ c.shared.holder l = some t := by
  obtain ⟨held, hdisc, hheld⟩ := h t
  rw [hp] at hdisc
  exact ⟨hdisc.1, (hheld l).mpr hdisc.2.1⟩

/-- Whoever performs an action that needs a lock holds it. -/
theorem Orderly.access (h : Orderly needs c) {t : T} {a : A} {l : L}
    {next : B a → LockProg T L A B Unit}
    (hp : c.prog t = .act (.step a) next) (hl : needs a = some l) :
    c.shared.holder l = some t := by
  obtain ⟨held, hdisc, hheld⟩ := h t
  rw [hp] at hdisc
  exact (hheld l).mpr (hdisc.1 l hl)

/-- Whoever has nothing to do holds no lock. -/
theorem Orderly.idle (h : Orderly needs c) {t : T} (hp : c.prog t = .ret ())
    (l : L) : c.shared.holder l ≠ some t := by
  obtain ⟨held, hdisc, hheld⟩ := h t
  rw [hp] at hdisc
  have hnone : held = none := hdisc
  rw [ne_eq, hheld l, hnone]
  exact nofun

/-- **No deadlock**: no set of threads has each of them waiting for a lock that
another of them holds. -/
theorem Orderly.no_deadlock (h : Orderly needs c) (waiting : T → Prop)
    (hsome : ∃ t, waiting t) :
    ¬ ∀ t, waiting t → ∃ l u, Waits c t l ∧ c.shared.holder l = some u ∧
      waiting u := by
  intro hall
  obtain ⟨t, ht⟩ := hsome
  obtain ⟨l, u, -, hu, hwaiting⟩ := hall t ht
  obtain ⟨l', v, ⟨⟨next, hp⟩, -⟩, -⟩ := hall u hwaiting
  exact (h.requests hp).2 l hu

end Consequences

end ChatApp.Foundation
