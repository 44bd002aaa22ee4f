import Mathlib.Algebra.BigOperators.Group.Finset.Basic
import Mathlib.Algebra.Order.BigOperators.Group.Finset
import Mathlib.Data.Fintype.BigOperators
import Mathlib.Algebra.BigOperators.Fin

/-!
# Counting the entries of a table

A table is a function on a finite index type.  `tally p f` counts the entries
that satisfy `p`; a single update changes it by at most one, as
`tally_update` says exactly.
-/

namespace ChatApp.Foundation

variable {ι β : Type} [Fintype ι]

/-- The number of entries of the table that satisfy `p`. -/
def tally (p : β → Bool) (f : ι → β) : Nat :=
  ∑ i, (p (f i)).toNat

/-- Replacing an entry trades its contribution for that of the new one. -/
theorem tally_update [DecidableEq ι] (p : β → Bool) (f : ι → β) (i : ι)
    (b : β) :
    tally p (Function.update f i b) + (p (f i)).toNat =
      tally p f + (p b).toNat := by
  unfold tally
  have hnew := Finset.add_sum_erase Finset.univ
    (fun j => (p (Function.update f i b j)).toNat) (Finset.mem_univ i)
  have hold := Finset.add_sum_erase Finset.univ
    (fun j => (p (f j)).toNat) (Finset.mem_univ i)
  have hrest :
      ∑ j ∈ Finset.univ.erase i, (p (Function.update f i b j)).toNat =
        ∑ j ∈ Finset.univ.erase i, (p (f j)).toNat := by
    apply Finset.sum_congr rfl
    intro j hj
    rw [Function.update_of_ne (Finset.ne_of_mem_erase hj)]
  simp only [Function.update_self] at hnew
  rw [← hnew, ← hold, hrest]
  omega

theorem tally_le_card (p : β → Bool) (f : ι → β) :
    tally p f ≤ Fintype.card ι := by
  calc
    tally p f ≤ ∑ _i : ι, 1 := by
      apply Finset.sum_le_sum
      intro i _
      exact Bool.toNat_le (p (f i))
    _ = Fintype.card ι := by simp

theorem tally_eq_zero_iff (p : β → Bool) (f : ι → β) :
    tally p f = 0 ↔ ∀ i, p (f i) = false := by
  unfold tally
  simp [Finset.sum_eq_zero_iff, Bool.toNat_eq_zero]

/-- A tally below the size of the table leaves an entry that does not
count. -/
theorem exists_of_tally_lt {p : β → Bool} {f : ι → β}
    (h : tally p f < Fintype.card ι) : ∃ i, p (f i) = false := by
  by_contra hn
  have hall : ∀ i, p (f i) = true := by simpa using hn
  have hfull : tally p f = Fintype.card ι := by
    unfold tally
    simp [hall]
  omega

theorem tally_const_false {p : β → Bool} {b : β} (h : p b = false) :
    tally p (fun _ : ι => b) = 0 :=
  (tally_eq_zero_iff _ _).mpr fun _ => h

theorem tally_eq_countP {n : Nat} (p : β → Bool) (f : Fin n → β) :
    tally p f = (List.finRange n).countP fun i => p (f i) := by
  have hsum : ∀ l : List (Fin n),
      (l.map fun i => (p (f i)).toNat).sum = l.countP fun i => p (f i) := by
    intro l
    induction l with
    | nil => rfl
    | cons i l ih =>
        rw [List.map_cons, List.sum_cons, List.countP_cons, ih]
        cases p (f i) <;> simp [Nat.add_comm]
  unfold tally
  rw [Fin.sum_univ_def, hsum]

end ChatApp.Foundation
