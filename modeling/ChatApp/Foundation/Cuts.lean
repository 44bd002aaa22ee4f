import Mathlib.Algebra.Group.Nat.Even
import Mathlib.Data.List.DropRight
import Mathlib.Data.List.Sort

/-!
# Streams cut into pieces

A stream of bytes is a sequence of pieces, and may be cut into other pieces on
its way.  `placed` gives each piece the position in the stream at which it begins,
so that the pieces of two cuttings can be compared by where they begin; lists in
ascending order of their positions are equal when they have the same members
(`eq_of_ascending`).

`Alternates` is for switches that some of the pieces turn: who misses the last of
them is wrong exactly when their number is odd (`Alternates.misses`).
-/

namespace ChatApp.Foundation

variable {α β : Type} {bytes : β → List α} {xs : List β} {x : β} {p q : Nat}

/-! ## Positions -/

/-- The pieces from position `p` of the stream on, with their positions. -/
def placed (bytes : β → List α) (p : Nat) : List β → List (Nat × β)
  | [] => []
  | x :: xs => (p, x) :: placed bytes (p + (bytes x).length) xs

theorem map_snd_placed (bytes : β → List α) (p : Nat) (xs : List β) :
    (placed bytes p xs).map Prod.snd = xs := by
  induction xs generalizing p with
  | nil => rfl
  | cons x xs ih =>
      rw [placed, List.map_cons, ih]

theorem mem_placed :
    (q, x) ∈ placed bytes p xs ↔ ∃ before after, xs = before ++ x :: after ∧
      q = p + (before.flatMap bytes).length := by
  induction xs generalizing p with
  | nil =>
      constructor
      · intro h
        cases h
      · rintro ⟨before, after, heq, -⟩
        cases before <;> cases heq
  | cons y xs ih =>
      rw [placed, List.mem_cons, ih]
      constructor
      · rintro (heq | ⟨before, after, rfl, rfl⟩)
        · cases heq
          exact ⟨[], xs, rfl, rfl⟩
        · refine ⟨y :: before, after, rfl, ?_⟩
          rw [List.flatMap_cons, List.length_append, Nat.add_assoc]
      · rintro ⟨before, after, heq, rfl⟩
        cases before with
        | nil =>
            cases heq
            exact .inl rfl
        | cons z before =>
            cases heq
            refine .inr ⟨before, after, rfl, ?_⟩
            rw [List.flatMap_cons, List.length_append, Nat.add_assoc]

theorem le_of_mem_placed (h : (q, x) ∈ placed bytes p xs) : p ≤ q := by
  obtain ⟨before, after, -, rfl⟩ := mem_placed.mp h
  exact Nat.le_add_right _ _

/-- No two pieces begin at one position. -/
theorem placed_ascending (h : ∀ x ∈ xs, bytes x ≠ []) :
    (placed bytes p xs).Pairwise fun a b => a.1 < b.1 := by
  induction xs generalizing p with
  | nil => exact .nil
  | cons x xs ih =>
      refine .cons ?_ (ih fun y hy => h y (List.mem_cons_of_mem _ hy))
      intro b hb
      have hle := le_of_mem_placed hb
      have hlt := List.length_pos_of_ne_nil (h x List.mem_cons_self)
      show p < b.1
      omega

/-- What the stream is from the beginning of a piece on. -/
theorem drop_of_placed (h : (q, x) ∈ placed bytes 0 xs) :
    ∃ before after, xs = before ++ x :: after ∧
      (xs.flatMap bytes).drop q = bytes x ++ after.flatMap bytes := by
  obtain ⟨before, after, rfl, rfl⟩ := mem_placed.mp h
  refine ⟨before, after, rfl, ?_⟩
  rw [List.flatMap_append, Nat.zero_add, List.drop_left, List.flatMap_cons]

/-- Every position is in a piece. -/
theorem exists_placed (hle : p ≤ q) (hlt : q < p + (xs.flatMap bytes).length) :
    ∃ r x, (r, x) ∈ placed bytes p xs ∧ r ≤ q ∧ q < r + (bytes x).length := by
  induction xs generalizing p with
  | nil =>
      rw [List.flatMap_nil, List.length_nil] at hlt
      omega
  | cons x xs ih =>
      rw [List.flatMap_cons, List.length_append] at hlt
      by_cases hin : q < p + (bytes x).length
      · exact ⟨p, x, List.mem_cons_self, hle, hin⟩
      · obtain ⟨r, y, hmem, hr⟩ := ih (p := p + (bytes x).length) (by omega)
          (by omega)
        exact ⟨r, y, List.mem_cons_of_mem _ hmem, hr⟩

section Ascending

variable {γ κ : Type} [Preorder κ] {key : γ → κ} {l l' : List γ}

theorem nodup_keys (h : l.Pairwise fun a b => key a < key b) :
    (l.map key).Nodup :=
  List.pairwise_map.mpr (h.imp fun hlt => ne_of_lt hlt)

/-- No two members come at one place. -/
theorem eq_of_key (h : l.Pairwise fun a b => key a < key b) {a b : γ}
    (ha : a ∈ l) (hb : b ∈ l) (hkey : key a = key b) : a = b :=
  List.inj_on_of_nodup_map (nodup_keys h) ha hb hkey

/-- Lists in ascending order with the same members are equal. -/
theorem eq_of_ascending (h : l.Pairwise fun a b => key a < key b)
    (h' : l'.Pairwise fun a b => key a < key b) (hmem : ∀ a, a ∈ l ↔ a ∈ l') :
    l = l' := by
  have hperm : l.Perm l' := (List.perm_ext_iff_of_nodup
    (nodup_keys h).of_map (nodup_keys h').of_map).mpr hmem
  exact hperm.eq_of_pairwise (fun a b _ _ hab hba => absurd hab (lt_asymm hba)) h h'

end Ascending

/-! ## Switches -/

/-- Each of the values is another one than that before it, beginning with
`b`. -/
def Alternates : Bool → List Bool → Prop
  | _, [] => True
  | b, x :: xs => x = !b ∧ Alternates x xs

theorem getLast_getD_cons (b x : Bool) (xs : List Bool) :
    (x :: xs).getLast?.getD b = xs.getLast?.getD x := by
  cases xs <;> simp [List.getLast?_cons]

theorem alternates_append {b : Bool} {xs ys : List Bool} :
    Alternates b (xs ++ ys) ↔
      Alternates b xs ∧ Alternates (xs.getLast?.getD b) ys := by
  induction xs generalizing b with
  | nil => simp [Alternates]
  | cons x xs ih =>
      rw [List.cons_append, Alternates, ih, Alternates, getLast_getD_cons,
        and_assoc]

/-- After an even number of changes the value is the first one. -/
theorem Alternates.last_iff {b : Bool} {xs : List Bool} (h : Alternates b xs) :
    xs.getLast?.getD b = b ↔ Even xs.length := by
  induction xs generalizing b with
  | nil => exact iff_of_true rfl Even.zero
  | cons x xs ih =>
      obtain ⟨rfl, hrest⟩ := h
      rw [getLast_getD_cons, List.length_cons, Nat.even_add_one, ← ih hrest]
      cases hlast : xs.getLast?.getD !b <;> cases b <;> simp

/-- Who only sees some of the changes ends as all of them do exactly when it
missed an even number of them after the last one it saw. -/
theorem Alternates.misses {γ : Type} {b : Bool} {l : List γ} {value : γ → Bool}
    {sees : γ → Bool} (h : Alternates b (l.map value)) :
    ((l.filter sees).map value).getLast?.getD b = (l.map value).getLast?.getD b ↔
      Even (l.rtakeWhile fun a => !sees a).length := by
  have hsplit : l = l.rdropWhile (fun a => !sees a) ++
      l.rtakeWhile fun a => !sees a := List.rdropWhile_append_rtakeWhile.symm
  generalize hfirst : l.rdropWhile (fun a => !sees a) = first at hsplit
  generalize hmissed : (l.rtakeWhile fun a => !sees a) = missed at hsplit ⊢
  have hnone : missed.filter sees = [] := by
    rw [List.filter_eq_nil_iff]
    intro a ha
    rw [← hmissed] at ha
    simpa using List.mem_rtakeWhile_imp ha
  have hlast : (first.filter sees).getLast? = first.getLast? := by
    cases hl : first.getLast? with
    | none => rw [List.getLast?_eq_none_iff.mp hl, List.filter_nil, List.getLast?_nil]
    | some a =>
        have hne : first ≠ [] := by
          rintro rfl
          cases hl
        obtain ⟨init, rfl⟩ := List.getLast?_eq_some_iff.mp hl
        have hsees : sees a = true := by
          have hnot := List.rdropWhile_last_not (fun a => !sees a) l
            (by rw [hfirst]; exact hne)
          simpa [hfirst] using hnot
        rw [List.filter_append, List.filter_cons_of_pos hsees,
          List.filter_nil, List.getLast?_concat]
  rw [hsplit, List.map_append] at h
  obtain ⟨-, hmiss⟩ := alternates_append.mp h
  have hall : (l.map value).getLast?.getD b =
      (missed.map value).getLast?.getD ((first.map value).getLast?.getD b) := by
    rw [hsplit, List.map_append, List.getLast?_append]
    cases (missed.map value).getLast? <;> rfl
  have hseen : ((l.filter sees).map value).getLast?.getD b =
      (first.map value).getLast?.getD b := by
    rw [hsplit, List.filter_append, hnone, List.append_nil, List.getLast?_map,
      List.getLast?_map, hlast]
  rw [hall, hseen, eq_comm, hmiss.last_iff, List.length_map]

end ChatApp.Foundation
