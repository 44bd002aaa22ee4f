import Mathlib.Data.List.Forall2

/-!
# Requests and their replies

One side asks, the other replies, one request at a time.  In an exchange the
replies so far belong, in order, to the first requests, and at most one request
is still waiting for its own.
-/

namespace ChatApp.Foundation

variable {α β : Type*}

/-- The first request that has no reply yet. -/
def waiting (asked : List α) (replies : List β) : Option α :=
  asked[replies.length]?

/-- The replies are those of the requests in their order, `R` telling which
reply a request may get, and at most one request is waiting. -/
structure Exchange (R : α → β → Prop) (asked : List α) (replies : List β) :
    Prop where
  paired : List.Forall₂ R (asked.take replies.length) replies
  one : asked.length ≤ replies.length + 1

section Waiting

variable {asked : List α} {replies : List β}

theorem waiting_eq_none :
    waiting asked replies = none ↔ asked.length ≤ replies.length :=
  List.getElem?_eq_none_iff

end Waiting

namespace Exchange

variable {R : α → β → Prop} {asked : List α} {replies : List β} {r : α}
  {f : β}

theorem first (r : α) : Exchange R [r] [] :=
  ⟨.nil, Nat.le_refl 1⟩

theorem length_le (h : Exchange R asked replies) :
    replies.length ≤ asked.length := by
  have hlength := h.paired.length_eq
  rw [List.length_take] at hlength
  omega

/-- With no request waiting another one may be made. -/
theorem ask (h : Exchange R asked replies)
    (hnone : waiting asked replies = none) (r : α) :
    Exchange R (asked ++ [r]) replies := by
  have hle := waiting_eq_none.mp hnone
  refine ⟨?_, ?_⟩
  · rw [List.take_append_of_le_length h.length_le]
    exact h.paired
  · rw [List.length_append, List.length_singleton]
    omega

theorem waiting_ask (h : Exchange R asked replies)
    (hnone : waiting asked replies = none) (r : α) :
    waiting (asked ++ [r]) replies = some r := by
  have hlength : replies.length = asked.length :=
    Nat.le_antisymm h.length_le (waiting_eq_none.mp hnone)
  rw [waiting, hlength]
  exact List.getElem?_concat_length

/-- The waiting request is replied to. -/
theorem reply (h : Exchange R asked replies)
    (hwaiting : waiting asked replies = some r) (hf : R r f) :
    Exchange R asked (replies ++ [f]) := by
  have htake : asked.take (replies.length + 1) =
      asked.take replies.length ++ [r] := by
    rw [List.take_add_one]
    rw [waiting] at hwaiting
    rw [hwaiting, Option.toList_some]
  have hone := h.one
  refine ⟨?_, ?_⟩
  · rw [List.length_append, List.length_singleton, htake]
    exact List.rel_append h.paired (.cons hf .nil)
  · rw [List.length_append, List.length_singleton]
    omega

theorem waiting_reply (h : Exchange R asked replies) (f : β) :
    waiting asked (replies ++ [f]) = none := by
  have hone := h.one
  rw [waiting_eq_none, List.length_append, List.length_singleton]
  omega

end Exchange

end ChatApp.Foundation
