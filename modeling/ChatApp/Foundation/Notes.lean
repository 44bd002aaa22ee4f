import ChatApp.Foundation.Interleaving

/-!
# Programs that go by their notes

`noteLog` is a log that notes something about some of the actions, with the
thread that performs them.  `Follows` says of a program that each of its actions
is as `P` says of what its thread has noted before.  It is proved program by
program (`Follows.bind`), and what it says holds along every run
(`Logged.follows`, `Logged.keeps`, `Logged.noted`).
-/

namespace ChatApp.Foundation

variable {T A J σ E : Type} {B : A → Type} {α β : Type}

/-! ## Programs -/

namespace Prog

variable (exec : (a : A) → σ → Option (B a × σ)) (note : A → σ → Option E)
  (P : A → List E → Prop)

/-- Every action is as `P` says of the notes so far, and at the end they are as
`Q` says. -/
def Follows (Q : α → List E → Prop) : Prog A B α → List E → Prop
  | .ret value, es => Q value es
  | .act a next, es =>
      P a es ∧ ∀ s answer s', exec a s = some (answer, s') →
        Follows Q (next answer) (es ++ (note a s).toList)

variable {exec note P} {Q Q' : α → List E → Prop}

theorem Follows.imp {p : Prog A B α} (hQ : ∀ value es, Q value es → Q' value es) :
    ∀ {es}, Follows exec note P Q p es → Follows exec note P Q' p es := by
  induction p with
  | ret value => exact fun h => hQ value _ h
  | act a next ih =>
      exact fun h => ⟨h.1, fun s answer s' he => ih answer (h.2 s answer s' he)⟩

/-- The rule of sequential composition. -/
theorem Follows.bind {R : β → List E → Prop} {p : Prog A B α}
    {k : α → Prog A B β}
    (hk : ∀ value es, Q value es → Follows exec note P R (k value) es) :
    ∀ {es}, Follows exec note P Q p es → Follows exec note P R (p >>= k) es := by
  induction p with
  | ret value => exact fun h => hk value _ h
  | act a next ih =>
      exact fun h => ⟨h.1, fun s answer s' he => ih answer (h.2 s answer s' he)⟩

/-- A program all of whose actions are as `P` says, whatever was noted. -/
theorem Follows.of_all {p : Prog A B α} (h : All (fun a => ∀ es, P a es) p) :
    ∀ es, Follows exec note P (fun _ _ => True) p es := by
  induction p with
  | ret value => exact fun _ => trivial
  | act a next ih =>
      exact fun es => ⟨h.1 es, fun s answer s' _ => ih answer (h.2 answer) _⟩

end Prog

/-! ## Runs -/

/-- What an action notes, with its thread. -/
def noteLog (note : A → σ → Option E) (s : σ) : Label T A J → List (T × E)
  | .start .. => []
  | .act t a => (note a s).toList.map (Prod.mk t)

section Runs

variable [DecidableEq T]

/-- What one thread has noted. -/
def notesOf (t : T) (es : List (T × E)) : List E :=
  es.filterMap fun e => if e.1 = t then some e.2 else none

theorem notesOf_append (t : T) (es es' : List (T × E)) :
    notesOf t (es ++ es') = notesOf t es ++ notesOf t es' :=
  List.filterMap_append

theorem notesOf_self (t : T) (es : List E) :
    notesOf t (es.map (Prod.mk t)) = es := by
  simp only [notesOf, List.filterMap_map, Function.comp_def, if_true,
    List.filterMap_some]

theorem notesOf_other {t u : T} (h : t ≠ u) (es : List E) :
    notesOf t (es.map (Prod.mk u)) = [] := by
  refine List.filterMap_eq_nil_iff.mpr fun e he => if_neg ?_
  obtain ⟨e', -, rfl⟩ := List.mem_map.mp he
  exact Ne.symm h

/-- What one thread has noted comes from the whole log. -/
theorem notesOf_split {t : T} {es : List (T × E)} {before after : List E} {e : E}
    (h : notesOf t es = before ++ e :: after) :
    ∃ es₁ es₂, es = es₁ ++ (t, e) :: es₂ ∧ notesOf t es₁ = before ∧
      notesOf t es₂ = after := by
  obtain ⟨first, rest, rfl, hfirst, hrest⟩ := List.filterMap_eq_append_iff.mp h
  obtain ⟨others, ⟨u, e'⟩, es₂, rfl, hothers, he, hes₂⟩ :=
    List.filterMap_eq_cons_iff.mp hrest
  obtain ⟨rfl, heq⟩ := Option.ite_none_right_eq_some.mp he
  cases heq
  refine ⟨first ++ others, es₂, by simp, ?_, hes₂⟩
  have hnone : notesOf u others = [] := List.filterMap_eq_nil_iff.mpr hothers
  rw [notesOf_append, hnone, List.append_nil]
  exact hfirst

namespace System.Logged

variable {S : System T A B J σ} {ok : σ → Label T A J → Prop}
  {c₀ c : Config T A B σ} {note : A → σ → Option E} {P : A → List E → Prop}
  {es : List (T × E)}

/-- **Every thread follows its notes** in what it still has to do. -/
theorem follows
    (hjob : ∀ t j s es, ok s (.start t j) →
      Prog.Follows S.exec note P (fun _ _ => True) (S.job t j) es)
    (h₀ : ∀ t, c₀.prog t = .ret ())
    (hrun : S.Logged ok (noteLog note) c₀ es c) :
    ∀ t, Prog.Follows S.exec note P (fun _ _ => True) (c.prog t)
      (notesOf t es) := by
  induction hrun with
  | nil =>
      intro t
      rw [h₀ t]
      trivial
  | @snoc es l c₁ c₂ hrun hok hstep ih =>
      intro u
      rw [notesOf_append]
      cases hstep with
      | start t j hp =>
          have hnone : notesOf u (noteLog note c₁.shared
              (.start t j : Label T A J)) = [] := rfl
          rw [hnone, List.append_nil]
          by_cases hu : u = t
          · subst hu
            rw [Config.update_prog_self]
            exact hjob u j _ _ hok
          · rw [Config.update_prog_ne _ hu]
            exact ih u
      | act t a next answer s hp he =>
          by_cases hu : u = t
          · subst hu
            have hfollows := ih u
            rw [hp] at hfollows
            rw [Config.update_prog_self, noteLog, notesOf_self]
            exact hfollows.2 _ answer s he
          · rw [Config.update_prog_ne _ hu, noteLog, notesOf_other hu,
              List.append_nil]
            exact ih u

/-- An invariant of the state and the notes, from what actions do that follow
their threads' notes. -/
theorem keeps
    (hjob : ∀ t j s es, ok s (.start t j) →
      Prog.Follows S.exec note P (fun _ _ => True) (S.job t j) es)
    (h₀ : ∀ t, c₀.prog t = .ret ()) {I : σ → List (T × E) → Prop}
    (hinit : I c₀.shared [])
    (hact : ∀ t a s answer s' es, P a (notesOf t es) → ok s (.act t a) →
      S.exec a s = some (answer, s') → I s es →
      I s' (es ++ (note a s).toList.map (Prod.mk t)))
    (hrun : S.Logged ok (noteLog note) c₀ es c) : I c.shared es := by
  induction hrun with
  | nil => exact hinit
  | @snoc es l c₁ c₂ hrun hok hstep ih =>
      cases hstep with
      | start t j hp =>
          have hsame : es ++ noteLog note c₁.shared
              (.start t j : Label T A J) = es := List.append_nil es
          rw [hsame]
          exact ih
      | act t a next answer s hp he =>
          have hfollows := follows hjob h₀ hrun t
          rw [hp] at hfollows
          exact hact t a _ answer s es hfollows.1 hok he ih

/-- What a note says of the notes before it. -/
theorem noted
    (hjob : ∀ t j s es, ok s (.start t j) →
      Prog.Follows S.exec note P (fun _ _ => True) (S.job t j) es)
    (h₀ : ∀ t, c₀.prog t = .ret ()) {X : List E → E → Prop}
    (hX : ∀ a s es e, P a es → note a s = some e → X es e)
    (hrun : S.Logged ok (noteLog note) c₀ es c) {before after : List (T × E)}
    {t : T} {e : E} (hes : es = before ++ (t, e) :: after) :
    X (notesOf t before) e := by
  have hall := keeps hjob h₀
    (I := fun _ es => ∀ before t e after, es = before ++ (t, e) :: after →
      X (notesOf t before) e) (fun before t e after h => by cases before <;> cases h)
    ?_ hrun
  · exact hall before t e after hes
  intro u a s answer s' es hP _ _ ih before t e after h
  cases hnote : note a s with
  | none =>
      rw [hnote] at h
      exact ih before t e after ((List.append_nil es).symm.trans h)
  | some e' =>
      rw [hnote] at h
      rcases List.eq_nil_or_concat after with rfl | ⟨after, last, rfl⟩
      · obtain ⟨rfl, heq⟩ := List.append_inj' h rfl
        cases heq
        exact hX a s _ e hP hnote
      · refine ih before t e after ?_
        rw [List.concat_eq_append, ← List.cons_append, ← List.append_assoc] at h
        exact (List.append_inj' h rfl).1

/-- The configuration on the way in which a note was made. -/
theorem at_note (hrun : S.Logged ok (noteLog note) c₀ es c)
    {before after : List (T × E)} {t : T} {e : E}
    (hes : es = before ++ (t, e) :: after) :
    ∃ c₁, S.Logged ok (noteLog note) c₀ before c₁ ∧
      S.Logged ok (noteLog note) c₁ ((t, e) :: after) c ∧
      ∃ a answer s, note a c₁.shared = some e ∧
        S.exec a c₁.shared = some (answer, s) := by
  induction hrun generalizing after with
  | nil => cases before <;> cases hes
  | @snoc es l c₁ c₂ hrun hok hstep ih =>
      have hearlier : ∀ {after'}, es = before ++ (t, e) :: after' →
          after' ++ noteLog note c₁.shared l = after →
          ∃ c', S.Logged ok (noteLog note) c₀ before c' ∧
            S.Logged ok (noteLog note) c' ((t, e) :: after) c₂ ∧
            ∃ a answer s, note a c'.shared = some e ∧
              S.exec a c'.shared = some (answer, s) := by
        rintro after' hes' rfl
        obtain ⟨c', hbefore, hafter, hnote⟩ := ih hes'
        exact ⟨c', hbefore, hafter.snoc hok hstep, hnote⟩
      cases hstep with
      | start u j hp =>
          exact hearlier ((List.append_nil es).symm.trans hes)
            (List.append_nil after)
      | act u a next answer s hp he =>
          cases hnote : note a c₁.shared with
          | none =>
              rw [noteLog, hnote] at hes hearlier
              exact hearlier ((List.append_nil es).symm.trans hes)
                (List.append_nil after)
          | some e' =>
              rw [noteLog, hnote] at hes hearlier
              rcases List.eq_nil_or_concat after with rfl | ⟨after, last, rfl⟩
              · obtain ⟨rfl, heq⟩ := List.append_inj' hes rfl
                cases heq
                refine ⟨c₁, hrun, ?_, a, answer, s, hnote, he⟩
                have hlast : S.Logged ok (noteLog note) c₁
                    ([] ++ (note a c₁.shared).toList.map (Prod.mk t)) _ :=
                  .snoc .nil hok (.act c₁ t a next answer s hp he)
                rwa [hnote] at hlast
              · rw [List.concat_eq_append, ← List.cons_append,
                  ← List.append_assoc] at hes
                obtain ⟨hes', hlast⟩ := List.append_inj' hes rfl
                exact hearlier hes' (by rw [hlast, List.concat_eq_append])

end System.Logged

end Runs

end ChatApp.Foundation
