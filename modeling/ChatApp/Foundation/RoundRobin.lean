import Mathlib.Algebra.BigOperators.Fin
import Mathlib.Algebra.Order.BigOperators.Group.Finset
import Mathlib.Data.List.Iterate

/-!
# Dealing in turn

`share m w` is what receiver `w` of `N` has got when `m` items have been dealt
in turn, the first one to receiver `0`.  The next item goes to `turn m`; all
shares are within one of each other and sum up to `m`; and a search that starts
anywhere and goes from each receiver to the next has met all of them after `N`
steps (`mem_iterate_next`).
-/

namespace ChatApp.Foundation

variable {N : Nat}

/-! ## Cyclic order -/

theorem next_lt (w : Fin N) : (w.val + 1) % N < N :=
  Nat.mod_lt _ (Nat.lt_of_le_of_lt (Nat.zero_le _) w.isLt)

/-- The receiver after `w`. -/
def next (w : Fin N) : Fin N :=
  ⟨(w.val + 1) % N, next_lt w⟩

theorem next_iterate (w : Fin N) (n : Nat) :
    (next^[n] w).val = (w.val + n) % N := by
  induction n with
  | zero => exact (Nat.mod_eq_of_lt w.isLt).symm
  | succ n ih =>
      rw [Function.iterate_succ_apply']
      show ((next^[n] w).val + 1) % N = (w.val + (n + 1)) % N
      rw [ih, Nat.mod_add_mod, Nat.add_assoc]

/-- Whoever goes round once meets everybody. -/
theorem mem_iterate_next (w v : Fin N) {n : Nat} (hn : N ≤ n) :
    v ∈ List.iterate next w n := by
  rw [List.mem_iterate]
  have hw := w.isLt
  have hv := v.isLt
  refine ⟨(v.val + N - w.val) % N,
    Nat.lt_of_lt_of_le (Nat.mod_lt _ (by omega)) hn, ?_⟩
  apply Fin.ext
  rw [next_iterate, Nat.add_mod_mod]
  have hsum : w.val + (v.val + N - w.val) = v.val + N := by omega
  rw [hsum, Nat.add_mod_right, Nat.mod_eq_of_lt hv]

/-! ## Shares -/

/-- What `w` has got of `m` items dealt in turn. -/
def share (m : Nat) (w : Fin N) : Nat :=
  m / N + if w.val < m % N then 1 else 0

/-- Who gets the next item. -/
def turn [NeZero N] (m : Nat) : Fin N :=
  ⟨m % N, Nat.mod_lt m (Nat.pos_of_neZero N)⟩

@[simp] theorem share_zero (w : Fin N) : share 0 w = 0 := by
  simp [share]

theorem share_le_succ (m : Nat) (u v : Fin N) :
    share m u ≤ share m v + 1 := by
  unfold share
  split <;> split <;> omega

section Turns

variable [NeZero N]

theorem share_turn (m : Nat) : share m (turn m : Fin N) = m / N := by
  simp [share, turn]

theorem next_turn (m : Nat) : next (turn m : Fin N) = turn (m + 1) := by
  apply Fin.ext
  show (m % N + 1) % N = (m + 1) % N
  exact Nat.mod_add_mod m N 1

/-- One more item is dealt. -/
theorem share_succ (m : Nat) :
    (share (m + 1) : Fin N → Nat) =
      Function.update (share m) (turn m) (share m (turn m : Fin N) + 1) := by
  have hN := Nat.pos_of_neZero N
  have hlt := Nat.mod_lt m hN
  have hdiv : (m + 1) / N = m / N + if m % N + 1 = N then 1 else 0 := by
    rw [Nat.succ_div]
    congr 1
    have hiff : N ∣ m + 1 ↔ m % N + 1 = N := by
      rw [Nat.dvd_iff_mod_eq_zero, ← Nat.mod_add_mod]
      constructor
      · intro h
        by_contra hne
        rw [Nat.mod_eq_of_lt (by omega)] at h
        omega
      · intro h
        rw [h, Nat.mod_self]
    simp only [hiff]
  have hmod : (m + 1) % N = if m % N + 1 = N then 0 else m % N + 1 := by
    rw [← Nat.mod_add_mod]
    split
    case isTrue h => rw [h, Nat.mod_self]
    case isFalse h => exact Nat.mod_eq_of_lt (by omega)
  funext w
  have hw := w.isLt
  by_cases heq : w = turn m
  · subst heq
    rw [Function.update_self, share_turn]
    show (m + 1) / N + (if m % N < (m + 1) % N then 1 else 0) = m / N + 1
    rw [hdiv, hmod]
    split <;> simp
  · rw [Function.update_of_ne heq]
    have hne : w.val ≠ m % N := fun h => heq (Fin.ext h)
    unfold share
    rw [hdiv, hmod]
    split
    case isTrue hlast =>
      rw [if_neg (by omega), if_pos (by omega)]
    case isFalse hlast =>
      have hiff : w.val < m % N + 1 ↔ w.val < m % N := by omega
      simp only [hiff, Nat.add_zero]

/-- The shares are all there is. -/
theorem sum_share (m : Nat) : ∑ w : Fin N, share m w = m := by
  induction m with
  | zero => simp
  | succ m ih =>
      rw [share_succ, Finset.sum_update_of_mem (Finset.mem_univ _)]
      have hsplit := Finset.add_sum_erase Finset.univ (share m)
        (Finset.mem_univ (turn m : Fin N))
      rw [ih, Finset.erase_eq] at hsplit
      omega

/-- As long as not all have `C` items, whose turn it is has fewer. -/
theorem share_turn_lt {m C : Nat} (h : m < N * C) :
    share m (turn m : Fin N) < C := by
  rw [share_turn]
  exact Nat.div_lt_of_lt_mul h

/-- Then all have `C` items. -/
theorem share_full (C : Nat) (w : Fin N) : share (N * C) w = C := by
  have hN := Nat.pos_of_neZero N
  simp [share, Nat.mul_div_cancel_left C hN]

end Turns

end ChatApp.Foundation
