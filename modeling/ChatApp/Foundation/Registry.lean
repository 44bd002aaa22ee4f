import Mathlib.Data.Set.Insert
import Mathlib.Logic.Function.Basic

/-!
# Keys with one holder each

A table says what each key stands for at the moment; holders hold at most one
key each.  `Owned` says that a held key stands for something, that no key has
two holders and no value two keys.  A key is taken into the table by a holder,
moves from holder to holder, and is dropped from the table by its holder; a
dropped key may be taken again later for another value.

`Complete` says that moreover nothing in the table is without a holder, and
`Ledger` that every value ever taken is in the table or was dropped from it
exactly once.
-/

namespace ChatApp.Foundation

variable {H K V : Type} {holds : H → Option K} {table : K → Option V}
  {a b : H} {k : K} {v : V}

/-- Held keys are in the table, each with one holder and its own value. -/
structure Owned (holds : H → Option K) (table : K → Option V) : Prop where
  known : ∀ a k, holds a = some k → ∃ v, table k = some v
  unique : ∀ a b k, holds a = some k → holds b = some k → a = b
  distinct : ∀ k k' v, table k = some v → table k' = some v → k = k'

/-- Every key in the table has a holder. -/
def Complete (holds : H → Option K) (table : K → Option V) : Prop :=
  ∀ k v, table k = some v → ∃ a, holds a = some k

namespace Owned

section Holders

variable [DecidableEq H]

/-- A key passes from one holder to another one that holds none. -/
theorem move (h : Owned holds table) (ha : holds a = some k)
    (hb : holds b = none) :
    Owned (Function.update (Function.update holds a none) b (some k))
      table := by
  have hnew : ∀ c k', Function.update (Function.update holds a none) b
      (some k) c = some k' →
        c = b ∧ k' = k ∨ c ≠ b ∧ c ≠ a ∧ holds c = some k' := by
    intro c k' hc
    by_cases hcb : c = b
    · subst hcb
      rw [Function.update_self] at hc
      exact .inl ⟨rfl, (Option.some.inj hc).symm⟩
    · rw [Function.update_of_ne hcb] at hc
      by_cases hca : c = a
      · subst hca
        rw [Function.update_self] at hc
        cases hc
      · rw [Function.update_of_ne hca] at hc
        exact .inr ⟨hcb, hca, hc⟩
  constructor
  · intro c k' hc
    rcases hnew c k' hc with ⟨-, rfl⟩ | ⟨-, -, hc⟩
    · exact h.known a _ ha
    · exact h.known c k' hc
  · intro c d k' hc hd
    rcases hnew c k' hc with ⟨rfl, rfl⟩ | ⟨-, hca, hc'⟩
    · rcases hnew d _ hd with ⟨rfl, -⟩ | ⟨-, hda, hd'⟩
      · rfl
      · exact absurd (h.unique d a _ hd' ha) hda
    · rcases hnew d k' hd with ⟨-, rfl⟩ | ⟨-, -, hd'⟩
      · exact absurd (h.unique c a _ hc' ha) hca
      · exact h.unique c d k' hc' hd'
  · exact h.distinct

/-- A holder lets go of its key without dropping it. -/
theorem forget (h : Owned holds table) (a : H) :
    Owned (Function.update holds a none) table := by
  have hold : ∀ c k', Function.update holds a none c = some k' →
      holds c = some k' := by
    intro c k' hc
    by_cases hca : c = a
    · subst hca
      rw [Function.update_self] at hc
      cases hc
    · rwa [Function.update_of_ne hca] at hc
  constructor
  · exact fun c k' hc => h.known c k' (hold c k' hc)
  · exact fun c d k' hc hd => h.unique c d k' (hold c k' hc) (hold d k' hd)
  · exact h.distinct

variable [DecidableEq K]

/-- A free key is taken for a value that has none. -/
theorem take (h : Owned holds table) (hk : table k = none)
    (hv : ∀ k', table k' ≠ some v) :
    Owned (Function.update holds b (some k))
      (Function.update table k (some v)) := by
  have hheld : ∀ c, holds c ≠ some k := by
    intro c hc
    obtain ⟨v', hv'⟩ := h.known c k hc
    rw [hk] at hv'
    cases hv'
  constructor
  · intro c k' hc
    by_cases hkk : k' = k
    · subst hkk
      exact ⟨v, Function.update_self _ _ _⟩
    · rw [Function.update_of_ne hkk]
      by_cases hcb : c = b
      · subst hcb
        rw [Function.update_self] at hc
        exact absurd (Option.some.inj hc).symm hkk
      · rw [Function.update_of_ne hcb] at hc
        exact h.known c k' hc
  · intro c d k' hc hd
    by_cases hcb : c = b
    · subst hcb
      rw [Function.update_self] at hc
      cases hc
      by_cases hdc : d = c
      · exact hdc.symm
      · rw [Function.update_of_ne hdc] at hd
        exact absurd hd (hheld d)
    · rw [Function.update_of_ne hcb] at hc
      by_cases hdb : d = b
      · subst hdb
        rw [Function.update_self] at hd
        cases hd
        exact absurd hc (hheld c)
      · rw [Function.update_of_ne hdb] at hd
        exact h.unique c d k' hc hd
  · intro k₁ k₂ v' h₁ h₂
    by_cases hk₁ : k₁ = k
    · subst hk₁
      rw [Function.update_self] at h₁
      cases h₁
      by_cases hk₂ : k₂ = k₁
      · exact hk₂.symm
      · rw [Function.update_of_ne hk₂] at h₂
        exact absurd h₂ (hv k₂)
    · rw [Function.update_of_ne hk₁] at h₁
      by_cases hk₂ : k₂ = k
      · subst hk₂
        rw [Function.update_self] at h₂
        cases h₂
        exact absurd h₁ (hv k₁)
      · rw [Function.update_of_ne hk₂] at h₂
        exact h.distinct k₁ k₂ v' h₁ h₂

/-- A holder drops its key. -/
theorem drop (h : Owned holds table) (ha : holds a = some k) :
    Owned (Function.update holds a none) (Function.update table k none) := by
  have hold : ∀ c k', Function.update holds a none c = some k' →
      c ≠ a ∧ holds c = some k' := by
    intro c k' hc
    by_cases hca : c = a
    · subst hca
      rw [Function.update_self] at hc
      cases hc
    · rw [Function.update_of_ne hca] at hc
      exact ⟨hca, hc⟩
  have htable : ∀ k' v', Function.update table k none k' = some v' →
      table k' = some v' := by
    intro k' v' hk'
    by_cases hkk : k' = k
    · subst hkk
      rw [Function.update_self] at hk'
      cases hk'
    · rwa [Function.update_of_ne hkk] at hk'
  constructor
  · intro c k' hc
    obtain ⟨hca, hc⟩ := hold c k' hc
    have hkk : k' ≠ k := by
      rintro rfl
      exact hca (h.unique c a _ hc ha)
    rw [Function.update_of_ne hkk]
    exact h.known c k' hc
  · exact fun c d k' hc hd =>
      h.unique c d k' (hold c k' hc).2 (hold d k' hd).2
  · exact fun k₁ k₂ v' h₁ h₂ =>
      h.distinct k₁ k₂ v' (htable k₁ v' h₁) (htable k₂ v' h₂)

end Holders

/-- The value a held key stands for tells the holder. -/
theorem holder_unique (h : Owned holds table) {k' : K}
    (ha : holds a = some k) (hb : holds b = some k') (hk : table k = some v)
    (hk' : table k' = some v) : a = b := by
  have hkk := h.distinct k k' v hk hk'
  subst hkk
  exact h.unique a b k ha hb

end Owned

section Complete

variable [DecidableEq H]

theorem Complete.move (h : Complete holds table) (ha : holds a = some k)
    (hb : holds b = none) :
    Complete (Function.update (Function.update holds a none) b (some k))
      table := by
  intro k' v' hk'
  obtain ⟨c, hc⟩ := h k' v' hk'
  have hcb : c ≠ b := by
    rintro rfl
    rw [hb] at hc
    cases hc
  by_cases hca : c = a
  · subst hca
    rw [ha] at hc
    exact ⟨b, by rw [Function.update_self, hc]⟩
  · exact ⟨c, by rw [Function.update_of_ne hcb, Function.update_of_ne hca, hc]⟩

variable [DecidableEq K]

theorem Complete.take (h : Complete holds table) (hb : holds b = none) :
    Complete (Function.update holds b (some k))
      (Function.update table k (some v)) := by
  intro k' v' hk'
  by_cases hkk : k' = k
  · subst hkk
    exact ⟨b, Function.update_self _ _ _⟩
  · rw [Function.update_of_ne hkk] at hk'
    obtain ⟨c, hc⟩ := h k' v' hk'
    have hcb : c ≠ b := by
      rintro rfl
      rw [hb] at hc
      cases hc
    exact ⟨c, by rw [Function.update_of_ne hcb, hc]⟩

theorem Complete.drop (h : Complete holds table) (ha : holds a = some k) :
    Complete (Function.update holds a none)
      (Function.update table k none) := by
  intro k' v' hk'
  have hkk : k' ≠ k := by
    rintro rfl
    rw [Function.update_self] at hk'
    cases hk'
  rw [Function.update_of_ne hkk] at hk'
  obtain ⟨c, hc⟩ := h k' v' hk'
  have hca : c ≠ a := by
    rintro rfl
    rw [ha] at hc
    exact hkk (Option.some.inj hc).symm
  exact ⟨c, by rw [Function.update_of_ne hca, hc]⟩

end Complete

/-! ## What was dropped -/

/-- The values taken so far and what each drop found in the table: a value in
the table was never dropped, any other taken value was dropped once, and no
drop found nothing. -/
structure Ledger (table : K → Option V) (taken : Set V)
    (dropped : List (Option V)) [DecidableEq V] : Prop where
  listed : ∀ k v, table k = some v → v ∈ taken
  present : ∀ k v, table k = some v → dropped.count (some v) = 0
  absent : ∀ v ∈ taken, (∀ k, table k ≠ some v) →
    dropped.count (some v) = 1
  fresh : ∀ v, v ∉ taken → dropped.count (some v) = 0
  found : none ∉ dropped

namespace Ledger

variable [DecidableEq V] {taken : Set V} {dropped : List (Option V)}

theorem empty : Ledger (fun _ : K => (none : Option V)) ∅ [] := by
  constructor
  · intro k v hk
    cases hk
  · intro k v hk
    cases hk
  · intro v hv
    cases hv
  · intro v _
    rfl
  · intro h
    cases h

variable [DecidableEq K]

/-- A value never taken before is entered at a free key. -/
theorem take (h : Ledger table taken dropped) (hk : table k = none)
    (hv : v ∉ taken) :
    Ledger (Function.update table k (some v)) (insert v taken) dropped := by
  have hcase : ∀ k' v', Function.update table k (some v) k' = some v' →
      v' = v ∨ table k' = some v' := by
    intro k' v' hk'
    by_cases hkk : k' = k
    · subst hkk
      rw [Function.update_self] at hk'
      exact .inl (Option.some.inj hk').symm
    · rw [Function.update_of_ne hkk] at hk'
      exact .inr hk'
  constructor
  · intro k' v' hk'
    rcases hcase k' v' hk' with rfl | hold
    · exact Set.mem_insert _ _
    · exact Set.mem_insert_of_mem _ (h.listed k' v' hold)
  · intro k' v' hk'
    rcases hcase k' v' hk' with rfl | hold
    · exact h.fresh _ hv
    · exact h.present k' v' hold
  · intro v' hv' hnone
    rcases Set.mem_insert_iff.mp hv' with rfl | hold
    · exact absurd (Function.update_self _ _ _) (hnone k)
    · refine h.absent v' hold fun k' hk' => ?_
      by_cases hkk : k' = k
      · subst hkk
        rw [hk] at hk'
        cases hk'
      · exact hnone k' (by rw [Function.update_of_ne hkk, hk'])
  · intro v' hv'
    exact h.fresh v' fun hold => hv' (Set.mem_insert_of_mem _ hold)
  · exact h.found

/-- An entry is dropped; its key and its value are in no other entry. -/
theorem drop (h : Ledger table taken dropped) (hk : table k = some v)
    (hdistinct : ∀ k' v', table k = some v' → table k' = some v' → k' = k) :
    Ledger (Function.update table k none) taken
      (dropped ++ [table k]) := by
  have hcount : ∀ v', (dropped ++ [table k]).count (some v') =
      dropped.count (some v') + if v = v' then 1 else 0 := by
    intro v'
    rw [List.count_append, hk, List.count_singleton]
    simp only [beq_iff_eq, Option.some.injEq]
  have hold : ∀ k' v', Function.update table k none k' = some v' →
      k' ≠ k ∧ table k' = some v' := by
    intro k' v' hk'
    by_cases hkk : k' = k
    · subst hkk
      rw [Function.update_self] at hk'
      cases hk'
    · rw [Function.update_of_ne hkk] at hk'
      exact ⟨hkk, hk'⟩
  constructor
  · exact fun k' v' hk' => h.listed k' v' (hold k' v' hk').2
  · intro k' v' hk'
    obtain ⟨hkk, hk'⟩ := hold k' v' hk'
    have hv : v ≠ v' := by
      rintro rfl
      exact hkk (hdistinct k' v hk hk')
    rw [hcount, if_neg hv]
    exact h.present k' v' hk'
  · intro v' hv' hnone
    rw [hcount]
    by_cases hv : v = v'
    · subst hv
      rw [if_pos rfl, h.present k v hk]
    · rw [if_neg hv]
      refine h.absent v' hv' fun k' hk' => ?_
      have hkk : k' ≠ k := by
        rintro rfl
        rw [hk] at hk'
        exact hv (Option.some.inj hk')
      exact hnone k' (by rw [Function.update_of_ne hkk, hk'])
  · intro v' hv'
    have hv : v ≠ v' := by
      rintro rfl
      exact hv' (h.listed k v hk)
    rw [hcount, if_neg hv]
    exact h.fresh v' hv'
  · rw [List.mem_append, List.mem_singleton, hk]
    rintro (hmem | hnone)
    · exact h.found hmem
    · cases hnone

end Ledger

end ChatApp.Foundation
