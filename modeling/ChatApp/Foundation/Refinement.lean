import ChatApp.Foundation.Notes

/-!
# Implementing atomic actions by programs

A system whose threads perform large atomic actions is implemented by one in
which each of these actions is a program of smaller ones, with other threads
running in between.  A `Coupling` relates the states of the two; the relation
may mention for each thread a *phase*, how far the thread has got with the
program of one large action.

`Refines` says of one thread's programs that the small steps of the one are
matched by the other: each is matched by one large action, or by nothing while
the phase changes.  It is proved program by program (`Refines.bind`,
`Refines.expand`), and `Coupling.simulates` turns it into a statement about
runs: whatever the interleaving of the small steps, there is a run of the large
ones that it is coupled with, and the same is noted in both.
-/

namespace ChatApp.Foundation

variable {T A A' J E σ σ' : Type} {B : A → Type} {B' : A' → Type}

/-- How an implementation `F` relates to the system `S` of large actions.
`Good` and `Pre` are known of the runs of `S`; `Check` is what is to be shown of
the actions of `F`, in the phase their thread is in, and `note'` and `note` what
is to agree. -/
structure Coupling (E : Type) (F : System T A' B' J σ') (S : System T A B J σ)
    where
  G : Type
  out : G
  Rel : σ' → σ → (T → G) → Prop
  ok' : σ' → Label T A' J → Prop
  ok : σ → Label T A J → Prop
  Good : σ → Prop
  Pre : T → A → σ → Prop
  Check : T → A' → σ' → σ → G → Prop
  note' : A' → σ' → Option E
  note : A → σ → Option E

namespace Coupling

variable {F : System T A' B' J σ'} {S : System T A B J σ}
  (K : Coupling E F S) {t : T} {α β : Type}

/-- Thread `t` does nothing or performs one action, with what is noted of it. -/
inductive Follow (t : T) : Option E → Prog A B α → σ → Prog A B α → σ → Prop
  | stay (p : Prog A B α) (s : σ) : Follow t none p s p s
  | act {a : A} {next : B a → Prog A B α} {s s' : σ} {answer : B a} :
      K.ok s (.act t a) → S.exec a s = some (answer, s') →
      Follow t (K.note a s) (.act a next) s (next answer) s'

variable {K} in
theorem Follow.bind {e : Option E} {p p₁ : Prog A B α} {s s₁ : σ}
    {k : α → Prog A B β} (h : K.Follow t e p s p₁ s₁) :
    K.Follow t e (p >>= k) s (p₁ >>= k) s₁ := by
  cases h with
  | stay => exact .stay _ _
  | act hok he => exact .act hok he

variable [DecidableEq T]

/-- The small steps of the first program are matched by the second, starting
in the given phase and ending as `Q` says. -/
def Refines (t : T) (Q : α → K.G → Prop) :
    Prog A' B' α → Prog A B α → K.G → Prop
  | .ret value, p, g => p = .ret value ∧ Q value g
  | .act a next, p, g =>
      ∀ m s phases, K.Rel m s phases → phases t = g → K.Good s →
        K.ok' m (.act t a) →
        (∀ a₀ next₀, p = .act a₀ next₀ → K.ok s (.act t a₀) → K.Pre t a₀ s) →
        K.Check t a m s g ∧
          ∀ answer m', F.exec a m = some (answer, m') → ∃ g' p' s',
            K.Follow t (K.note' a m) p s p' s' ∧
              K.Rel m' s' (Function.update phases t g') ∧
              Refines t Q (next answer) p' g'

variable {K} {Q : α → K.G → Prop}

theorem Refines.imp {Q' : α → K.G → Prop} {p' : Prog A' B' α}
    (hQ : ∀ value g, Q value g → Q' value g) :
    ∀ {p : Prog A B α} {g}, K.Refines t Q p' p g → K.Refines t Q' p' p g := by
  induction p' with
  | ret value => exact fun h => ⟨h.1, hQ _ _ h.2⟩
  | act a next ih =>
      intro p g h m s phases hrel hg hgood hok hpre
      obtain ⟨hcheck, hnext⟩ := h m s phases hrel hg hgood hok hpre
      refine ⟨hcheck, fun answer m' he => ?_⟩
      obtain ⟨g', p₁, s', hfollow, hrel', hp⟩ := hnext answer m' he
      exact ⟨g', p₁, s', hfollow, hrel', ih answer hp⟩

/-- The rule of sequential composition. -/
theorem Refines.bind {R : β → K.G → Prop} {p' : Prog A' B' α}
    {k' : α → Prog A' B' β} {k : α → Prog A B β}
    (hk : ∀ value g, Q value g → K.Refines t R (k' value) (k value) g) :
    ∀ {p : Prog A B α} {g}, K.Refines t Q p' p g →
      K.Refines t R (p' >>= k') (p >>= k) g := by
  induction p' with
  | ret value =>
      rintro p g ⟨rfl, hQ⟩
      exact hk value g hQ
  | act a next ih =>
      intro p g h m s phases hrel hg hgood hok hpre
      obtain ⟨hcheck, hnext⟩ := h m s phases hrel hg hgood hok (by
        rintro a₀ next₀ rfl hok₀
        exact hpre a₀ (fun answer => next₀ answer >>= k) rfl hok₀)
      refine ⟨hcheck, fun answer m' he => ?_⟩
      obtain ⟨g', p₁, s', hfollow, hrel', hp⟩ := hnext answer m' he
      exact ⟨g', p₁ >>= k, s', hfollow.bind, hrel', ih answer hp⟩

/-- Implementing every action of a program. -/
theorem Refines.expand {implement : (a : A) → Prog A' B' (B a)}
    (h : ∀ a, K.Refines t (fun _ g => g = K.out) (implement a)
      (Prog.perform a) K.out) (p : Prog A B α) :
    K.Refines t (fun _ g => g = K.out) (p.expand implement) p K.out := by
  induction p with
  | ret value => exact ⟨rfl, rfl⟩
  | act a next ih =>
      refine Refines.bind (p := Prog.perform a) ?_ (h a)
      rintro answer g rfl
      exact ih answer

variable (K) in
/-- The two configurations are coupled, and every thread goes on to be
matched. -/
structure Coupled (c' : Config T A' B' σ') (c : Config T A B σ)
    (phases : T → K.G) : Prop where
  rel : K.Rel c'.shared c.shared phases
  refines : ∀ t, K.Refines t (fun _ g => g = K.out) (c'.prog t) (c.prog t)
    (phases t)

/-- **Simulation**: every run of the implementation is coupled with a run of
the large actions in which the same is noted. -/
theorem simulates {c₀' c' : Config T A' B' σ'} {c₀ : Config T A B σ}
    (hstart : ∀ t j m s phases, K.Rel m s phases → phases t = K.out →
      K.Good s → K.ok' m (.start t j) → K.ok s (.start t j))
    (hjob : ∀ t j, K.Refines t (fun _ g => g = K.out) (F.job t j) (S.job t j)
      K.out)
    (hgood : ∀ ls c, S.Run K.ok c₀ ls c → K.Good c.shared ∧
      ∀ t a next, c.prog t = .act a next → K.ok c.shared (.act t a) →
        K.Pre t a c.shared)
    (h₀ : K.Coupled c₀' c₀ fun _ => K.out) {es : List (T × E)}
    (hrun : F.Logged K.ok' (noteLog K.note') c₀' es c') :
    ∃ c phases, S.Logged K.ok (noteLog K.note) c₀ es c ∧
      K.Coupled c' c phases := by
  induction hrun with
  | nil => exact ⟨c₀, _, .nil, h₀⟩
  | @snoc es l c₁ c₂ _ hok hstep ih =>
      obtain ⟨c, phases, hrun₀, hrel, hrefines⟩ := ih
      obtain ⟨ls₀, hls₀⟩ := hrun₀.run
      obtain ⟨hg, hpre⟩ := hgood ls₀ c hls₀
      cases hstep with
      | start t j hp =>
          have ht := hrefines t
          rw [hp] at ht
          obtain ⟨hidle, hout⟩ := ht
          have hok₀ := hstart t j _ _ phases hrel hout hg hok
          refine ⟨_, phases, .snoc hrun₀ hok₀ (.start c t j hidle), hrel,
            fun u => ?_⟩
          by_cases hu : u = t
          · subst hu
            rw [Config.update_prog_self, Config.update_prog_self, hout]
            exact hjob u j
          · rw [Config.update_prog_ne _ hu, Config.update_prog_ne _ hu]
            exact hrefines u
      | act t a next answer m' hp he =>
          have ht := hrefines t
          rw [hp] at ht
          obtain ⟨-, hnext⟩ := ht _ _ phases hrel rfl hg hok
            fun a₀ next₀ hp₀ hok₀ => hpre t a₀ next₀ hp₀ hok₀
          obtain ⟨g', p₁, s', hfollow, hrel', hp₁⟩ := hnext answer m' he
          have hall : ∀ u, K.Refines u (fun _ g => g = K.out)
              (Function.update c₁.prog t (next answer) u)
              (Function.update c.prog t p₁ u)
              (Function.update phases t g' u) := by
            intro u
            by_cases hu : u = t
            · subst hu
              simpa using hp₁
            · rw [Function.update_of_ne hu, Function.update_of_ne hu,
                Function.update_of_ne hu]
              exact hrefines u
          generalize hp₀ : c.prog t = p₀ at hfollow
          generalize hnote : K.note' a c₁.shared = e at hfollow
          rw [noteLog, hnote]
          cases hfollow with
          | stay =>
              rw [← hp₀, Function.update_eq_self] at hall
              exact ⟨c, _, by simpa using hrun₀, hrel', hall⟩
          | act hok₀ he₀ =>
              exact ⟨c.update t s' _, _,
                .snoc hrun₀ hok₀ (.act c t _ _ _ s' hp₀ he₀), hrel', hall⟩

/-- In a coupled configuration every action that comes next passes its
check. -/
theorem Coupled.check {c' : Config T A' B' σ'} {c : Config T A B σ}
    {phases : T → K.G} (h : K.Coupled c' c phases) (hgood : K.Good c.shared)
    (hpre : ∀ t a next, c.prog t = .act a next → K.ok c.shared (.act t a) →
      K.Pre t a c.shared) {a : A'} {next : B' a → Prog A' B' Unit}
    (hp : c'.prog t = .act a next) (hok : K.ok' c'.shared (.act t a)) :
    K.Check t a c'.shared c.shared (phases t) := by
  have ht := h.refines t
  rw [hp] at ht
  exact (ht _ _ phases h.rel rfl hgood hok
    fun a₀ next₀ hp₀ hok₀ => hpre t a₀ next₀ hp₀ hok₀).1

end Coupling

end ChatApp.Foundation
