import ChatApp.Foundation.Delimited

/-!
# Writers of one stream

Several threads write frames to a stream, each a part of its frame at a time.
`whole` is what the finished frames have put on the stream, `part t` what thread
`t` has written of the frame it is in the middle of.  The stream is `Untorn` when
it is the finished frames and then the part of one of the threads.  It stays so
as long as nobody writes while somebody else is in the middle of a frame
(`Untorn.write`); frames that end in a delimiter do not survive anything else
(`Writes.alone`).
-/

namespace ChatApp.Foundation

variable {T β : Type} {stream whole bytes frame : List β}
  {part part' : T → List β} {t u : T}

/-- Nobody but thread `t` is in the middle of a frame. -/
def Alone (part : T → List β) (t : T) : Prop :=
  ∀ u, u ≠ t → part u = []

/-- The stream is the finished frames and the part of at most one other. -/
def Untorn (stream whole : List β) (part : T → List β) : Prop :=
  ∃ t, stream = whole ++ part t ∧ Alone part t

/-- Thread `t` writes some bytes: it goes on with its frame, or it ends it. -/
structure Writes (part part' : T → List β) (t : T) (bytes frame : List β) :
    Prop where
  eq : part t ++ bytes = frame ++ part' t
  ends : frame = [] ∨ part' t = []
  others : ∀ u, u ≠ t → part' u = part u

namespace Untorn

/-- Who is in the middle of a frame is the only one. -/
theorem alone (h : Untorn stream whole part) (ht : part t ≠ []) :
    Alone part t := by
  obtain ⟨u, -, hu⟩ := h
  by_cases htu : t = u
  · rw [htu]
    exact hu
  · exact absurd (hu t htu) ht

theorem eq_append (h : Untorn stream whole part) (ht : Alone part t) :
    stream = whole ++ part t := by
  obtain ⟨u, hstream, hu⟩ := h
  by_cases htu : t = u
  · rw [htu]
    exact hstream
  · rw [hstream, ht u (Ne.symm htu), hu t htu]

/-- The only one to write does not tear the stream. -/
theorem write (h : Untorn stream whole part)
    (hwrites : Writes part part' t bytes frame)
    (ht : bytes ≠ [] → Alone part t) :
    Untorn (stream ++ bytes) (whole ++ frame) part' := by
  have halone : Alone part t → Untorn (stream ++ bytes) (whole ++ frame) part' := by
    intro hall
    refine ⟨t, ?_, fun u hu => ?_⟩
    · rw [h.eq_append hall, List.append_assoc, hwrites.eq, List.append_assoc]
    · rw [hwrites.others u hu, hall u hu]
  by_cases hbytes : bytes = []
  · by_cases hpart : part t = []
    · -- nothing is written, and no frame ends
      have heq := hwrites.eq
      rw [hpart, hbytes] at heq
      obtain ⟨hframe, hpart'⟩ := List.append_eq_nil_iff.mp heq.symm
      have hsame : part' = part := by
        funext u
        by_cases hu : u = t
        · rw [hu, hpart, hpart']
        · exact hwrites.others u hu
      rw [hbytes, hframe, List.append_nil, List.append_nil, hsame]
      exact h
    · exact halone (h.alone hpart)
  · exact halone (ht hbytes)

end Untorn

section Delimited

open Delimited

variable {d e : β} {head : List β}

/-- A text without delimiters does not commute with one that ends in a
delimiter. -/
theorem append_ne_of_free (hde : d ≠ e) (hhead : head ≠ [])
    (hfree : Free d e head) (n : Nat) :
    ∀ {text : List β}, text.length < n →
      head ++ (text ++ [d, e]) ≠ (text ++ [d, e]) ++ head := by
  have hpos : 0 < head.length := List.length_pos_iff.mpr hhead
  induction n with
  | zero => exact fun hlength => absurd hlength (Nat.not_lt_zero _)
  | succ n ih =>
      intro text hlength heq
      have hfirst : text ++ [d, e] <+: head ++ (text ++ [d, e]) :=
        ⟨head, heq.symm⟩
      rcases Nat.le_total (text ++ [d, e]).length head.length with hle | hle
      · -- the delimiter is in the head
        obtain ⟨rest, rfl⟩ := List.prefix_of_prefix_length_le hfirst
          ⟨_, rfl⟩ hle
        rw [List.append_assoc] at hfree
        exact not_free_delim _ _ hfree
      · -- the head can be taken off the text
        obtain ⟨tail, htail⟩ := List.prefix_of_prefix_length_le
          ⟨_, rfl⟩ hfirst hle
        rw [← htail, List.append_assoc] at heq
        have hcommutes := List.append_cancel_left heq
        rcases List.append_eq_append_iff.mp htail with
          ⟨text', rfl, rfl⟩ | ⟨cut, rfl, hcut⟩
        · refine ih ?_ hcommutes
          rw [List.length_append] at hlength
          omega
        · rcases List.cons_eq_append_iff.mp hcut with
            ⟨rfl, rfl⟩ | ⟨cut', rfl, hcut'⟩
          · have hlt : ([] : List β).length < n := by
              rw [List.append_nil] at hpos
              simp only [List.length_nil]
              omega
            exact ih hlt hcommutes
          · rcases List.cons_eq_append_iff.mp hcut' with
              ⟨rfl, rfl⟩ | ⟨cut, rfl, hempty⟩
            · have hreverse := congrArg List.reverse hcommutes
              simp only [List.reverse_append, List.reverse_cons,
                List.reverse_nil, List.nil_append, List.cons_append]
                at hreverse
              exact hde (List.cons.inj hreverse).1.symm
            · have hfree' : Free d e (text ++ d :: e :: cut) := hfree
              exact not_free_delim _ _ hfree'

/-- Who writes to a stream that is untorn then is the only one to write. -/
theorem Writes.alone (hwrites : Writes part part' t bytes frame) (hde : d ≠ e)
    (h : Untorn stream whole part)
    (h' : Untorn (stream ++ bytes) (whole ++ frame) part') (hbytes : bytes ≠ [])
    (hframe : frame ≠ [] → ∃ text, frame = text ++ [d, e])
    (hfree : ∀ u, u ≠ t → Free d e (part u)) : Alone part t := by
  intro u hu
  by_contra hpart
  have hpart' : part' u ≠ [] := by
    rw [hwrites.others u hu]
    exact hpart
  have heq : bytes = frame ++ part' t := by
    rw [← hwrites.eq, h.alone hpart t hu.symm, List.nil_append]
  have hidle : part' t = [] := h'.alone hpart' t hu.symm
  rw [hidle, List.append_nil] at heq
  subst heq
  -- the frame has come behind a part of another
  obtain ⟨text, rfl⟩ := hframe hbytes
  have hstream := h'.eq_append (h'.alone hpart')
  rw [h.eq_append (h.alone hpart), hwrites.others u hu, List.append_assoc,
    List.append_assoc] at hstream
  exact append_ne_of_free hde hpart (hfree u hu) _ (Nat.lt_succ_self _)
    (List.append_cancel_left hstream)

end Delimited

end ChatApp.Foundation
