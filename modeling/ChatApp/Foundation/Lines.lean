import Mathlib.Data.List.Basic

/-!
# Lines

A text is cut at every occurrence of a delimiter; what follows the last one, if
anything, is the last line.  No line has the delimiter (`not_mem_of_mem_lines`),
and a text of lines that do not have it is cut into these lines
(`lines_flatMap`).
-/

namespace ChatApp.Foundation

variable {α : Type} [DecidableEq α] {d : α}

/-- The lines of a text. -/
def lines (d : α) : List α → List (List α)
  | [] => []
  | x :: rest =>
      if x = d then [] :: lines d rest
      else
        match lines d rest with
        | [] => [[x]]
        | line :: more => (x :: line) :: more

/-- Lines have no delimiter. -/
theorem not_mem_of_mem_lines {t line : List α} (h : line ∈ lines d t) :
    d ∉ line := by
  induction t generalizing line with
  | nil => cases h
  | cons x rest ih =>
      unfold lines at h
      split at h
      case isTrue hx =>
        rcases List.mem_cons.mp h with rfl | h
        · exact List.not_mem_nil
        · exact ih h
      case isFalse hx =>
        split at h
        case h_1 hnil =>
          cases List.mem_singleton.mp h
          simpa using Ne.symm hx
        case h_2 first more hmore =>
          rcases List.mem_cons.mp h with rfl | h
          · have hfirst := @ih first (by rw [hmore]; simp)
            simp [Ne.symm hx, hfirst]
          · exact ih (by rw [hmore]; exact List.mem_cons_of_mem _ h)

/-- A line without the delimiter, ended by one, is the first line. -/
theorem lines_append {line : List α} (h : d ∉ line) (t : List α) :
    lines d (line ++ d :: t) = line :: lines d t := by
  induction line with
  | nil => simp [lines]
  | cons x line ih =>
      have hx : d ≠ x := List.ne_of_not_mem_cons h
      have hline : d ∉ line := List.not_mem_of_not_mem_cons h
      have hstep : lines d (x :: (line ++ d :: t)) =
          match lines d (line ++ d :: t) with
          | [] => [[x]]
          | first :: more => (x :: first) :: more := if_neg (Ne.symm hx)
      rw [List.cons_append, hstep, ih hline]

/-- Texts of one line each. -/
theorem lines_flatMap {β : Type} (f : β → List α) (xs : List β)
    (h : ∀ x ∈ xs, d ∉ f x) (t : List α) :
    lines d (xs.flatMap (fun x => f x ++ [d]) ++ t) =
      xs.map f ++ lines d t := by
  induction xs with
  | nil => rfl
  | cons x xs ih =>
      have hrest := ih fun y hy => h y (List.mem_cons_of_mem _ hy)
      have hx := h x List.mem_cons_self
      calc
        lines d ((x :: xs).flatMap (fun x => f x ++ [d]) ++ t) =
            lines d (f x ++ d :: (xs.flatMap (fun x => f x ++ [d]) ++ t)) := by
          simp
        _ = f x :: lines d (xs.flatMap (fun x => f x ++ [d]) ++ t) :=
          lines_append hx _
        _ = (x :: xs).map f ++ lines d t := by
          rw [hrest]
          rfl

end ChatApp.Foundation
