import ChatApp.Server.Routines
import ChatApp.Server.Schedule
import Mathlib.Logic.Relation

/-!
# What the other threads do meanwhile

`Others w` is any number of allowed actions of the threads other than worker
`w`.  Nothing in it touches the worker's records or its program point, so a
result about one routine executed under `Others w` is a result about every
interleaving; `exec_of_run` finds that execution in a run.  `Neighbours w`
asks of the other threads only that they keep to what is their own, which they
do in every run.
-/

namespace ChatApp.Server

open ChatApp.Foundation

variable {N C : Nat} {w : Fin N} {c : ClientPtr N C} {s s' : State N C}

/-- One allowed action of a thread other than worker `w`. -/
def OtherStep (w : Fin N) (s s' : State N C) : Prop :=
  ∃ t a, ∃ b : a.Answer, t ≠ Thread.worker w ∧ Allowed t s a ∧
    exec a s = some (b, s')

/-- Any number of allowed actions of threads other than worker `w`. -/
def Others (w : Fin N) : State N C → State N C → Prop :=
  Relation.ReflTransGen (OtherStep w)

theorem Others.refl (w : Fin N) (s : State N C) : Others w s s :=
  Relation.ReflTransGen.refl

theorem Others.trans {s₁ s₂ s₃ : State N C} (h : Others w s₁ s₂)
    (h' : Others w s₂ s₃) : Others w s₁ s₃ :=
  Relation.ReflTransGen.trans h h'

theorem OtherStep.view (h : OtherStep w s s') :
    view (.worker w) s' = view (.worker w) s := by
  obtain ⟨t, a, b, ht, ha, he⟩ := h
  exact view_exec (Ne.symm ht) ha.owned he

theorem Others.view (h : Others w s s') :
    view (.worker w) s' = view (.worker w) s := by
  induction h with
  | refl => rfl
  | tail hsteps hstep ih => rw [hstep.view, ih]

theorem Others.clients (h : Others c.worker s s') :
    s'.clients c = s.clients c :=
  congrFun (congrArg Prod.fst h.view) c.index

theorem Others.point (h : Others w s s') : s'.point w = s.point w :=
  congrArg Prod.snd h.view

/-- One action of a thread other than worker `w` on what is its own. -/
def NeighbourStep (w : Fin N) (s s' : State N C) : Prop :=
  ∃ t a, ∃ b : a.Answer, t ≠ Thread.worker w ∧ a.Owned t ∧
    exec a s = some (b, s')

/-- Any number of actions of threads other than worker `w`, each on what is
the thread's own. -/
def Neighbours (w : Fin N) : State N C → State N C → Prop :=
  Relation.ReflTransGen (NeighbourStep w)

theorem Neighbours.trans {s₁ s₂ s₃ : State N C} (h : Neighbours w s₁ s₂)
    (h' : Neighbours w s₂ s₃) : Neighbours w s₁ s₃ :=
  Relation.ReflTransGen.trans h h'

/-- What another thread executes alone, when all of it is its own. -/
theorem neighbours_of_run {α : Type} {t : Thread N} (ht : t ≠ .worker w)
    {prog : ServerProg N C α} (hprog : Prog.All (Act.Owned t) prog) :
    ∀ {s s' : State N C} {value : α},
      Prog.run execReads prog s = some (value, s') → Neighbours w s s' := by
  induction prog with
  | ret value =>
      intro s s' result h
      cases h
      exact Relation.ReflTransGen.refl
  | act a next ih =>
      intro s s' result h
      simp only [Prog.run] at h
      cases he : execReads a s with
      | none => simp [he] at h
      | some out =>
          rw [he] at h
          have hexec := (exec_of_execReads he t).1
          exact .head ⟨t, a, out.1, ht, hprog.1, hexec⟩ (ih _ (hprog.2 _) h)

theorem Neighbours.view (h : Neighbours w s s') :
    view (.worker w) s' = view (.worker w) s := by
  induction h with
  | refl => rfl
  | tail hsteps hstep ih =>
      obtain ⟨t, a, b, ht, ha, he⟩ := hstep
      rw [view_exec (Ne.symm ht) ha he, ih]

theorem Neighbours.refl (w : Fin N) (s : State N C) : Neighbours w s s :=
  Relation.ReflTransGen.refl

theorem Neighbours.clients (h : Neighbours c.worker s s') :
    s'.clients c = s.clients c :=
  congrFun (congrArg Prod.fst h.view) c.index

/-- What every allowed action keeps, the others keep. -/
theorem Others.invariant {I : State N C → Prop}
    (hI : ∀ t a s b s', Allowed t s a → exec a s = some (b, s') → I s → I s')
    (h : Others w s s') (hs : I s) : I s' := by
  induction h with
  | refl => exact hs
  | tail hsteps hstep ih =>
      obtain ⟨t, a, b, -, ha, he⟩ := hstep
      exact hI t a _ b _ ha he ih

section Exec

variable {α : Type} {prog : ServerProg N C α} {value : α}
  {steps : Steps N C}

/-- A routine that keeps to the contract performs allowed actions only, and
ends as its postcondition says, whatever leaves the worker's view alone. -/
theorem Local.exec_of {live : Bool → Prop} {R : State N C → State N C → Prop}
    {r : Client} {p : WorkerPoint C}
    {Q : α → Client → WorkerPoint C → Prop} (h : Local live c r p prog Q)
    (hR : ∀ {s s'}, R s s' →
      ChatApp.Server.view (.worker c.worker) s' =
        ChatApp.Server.view (.worker c.worker) s)
    (hr : s.clients c = r) (hp : s.point c.worker = p)
    (hexec : Prog.Exec exec R prog s steps value s') :
    (∀ e ∈ steps, AllowedOf live (.worker c.worker) e.before e.action) ∧
      Q value (s'.clients c) (s'.point c.worker) := by
  have hsafe := h (view (.worker c.worker) s) hr hp
  have hview : ∀ {s s' : State N C}, R s s' → True →
      True ∧ (handling N C live).view (.worker c.worker) s' =
        (handling N C live).view (.worker c.worker) s :=
    fun hs _ => ⟨trivial, hR hs⟩
  obtain ⟨hpre, -, hQ⟩ := hsafe.exec hview (fun _ _ => trivial) hexec trivial
  exact ⟨hpre, hQ⟩

/-- The same whatever the others do. -/
theorem Local.exec {live : Bool → Prop} {r : Client} {p : WorkerPoint C}
    {Q : α → Client → WorkerPoint C → Prop} (h : Local live c r p prog Q)
    (hr : s.clients c = r) (hp : s.point c.worker = p)
    (hexec : Prog.Exec exec (Others c.worker) prog s steps value s') :
    (∀ e ∈ steps, AllowedOf live (.worker c.worker) e.before e.action) ∧
      Q value (s'.clients c) (s'.point c.worker) :=
  h.exec_of Others.view hr hp hexec

/-- What every allowed action keeps holds around every step of a routine that
performs allowed actions only. -/
theorem Exec.invariant {I : State N C → Prop}
    (hI : ∀ t a s b s', Allowed t s a → exec a s = some (b, s') → I s → I s')
    (hexec : Prog.Exec exec (Others w) prog s steps value s')
    (hallowed : ∀ e ∈ steps, Allowed (.worker w) e.before e.action)
    (hs : I s) : (∀ e ∈ steps, I e.before ∧ I e.after) ∧ I s' := by
  refine hexec.keeps (fun hR => hR.invariant hI) ?_ hs
  intro e he
  obtain ⟨b, hb⟩ := hexec.mem_exec e he
  exact hI _ _ _ b _ (hallowed e he) hb

end Exec

/-- A job that a worker begins and ends in a run is executed under
`Others`. -/
theorem exec_of_run [NeZero N] {ls ls' : List (Step N C)}
    {k k' : Configuration N C}
    (hrun : (server N C).Run LiveOk (Configuration.init N C) ls k)
    (hjob : (server N C).Run LiveOk k ls' k')
    (hstart : ∀ j, .start (.worker w) j ∉ ls')
    (hend : k'.prog (.worker w) = .ret ()) :
    ∃ steps, Prog.Exec exec (Others w) (k.prog (.worker w)) k.shared steps ()
      k'.shared := by
  have hjobs : ∀ t j s, (control N C).Inv s → idleView t (view t s) →
      LiveOk s (.start t j) →
      (control N C).Safe t (fun _ => idleView t) ((server N C).job t j)
        (view t s) := fun t j s _ => safe_job t j s
  have hpre := Contract.Sound.run_pre (fun _ _ h => h) hjobs
    (control_sound hrun) hjob
  obtain ⟨trace, htrace⟩ := System.Run.exec_of (R := Others w)
    (Others.refl w) (fun _ _ _ => Others.trans)
    (fun u a s b s' hu hok he =>
      .single ⟨u, a, b, hu, hok.2 u a rfl, he⟩) hpre hstart
  refine ⟨trace ++ [], htrace [] _ ?_⟩
  rw [hend]
  exact .ret (Others.refl w _)

end ChatApp.Server
