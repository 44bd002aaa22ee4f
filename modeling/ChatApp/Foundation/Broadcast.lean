import ChatApp.Foundation.Cuts
import Mathlib.Data.List.Basic
import Mathlib.Logic.Function.Basic

/-!
# Ordered broadcast to changing groups

A log of events decides who is where and who is told what.  An event is caused
by one participant in one group: it founds the group, joins it, says something
in it, or leaves it.  `member` is where a participant is after a log, `Valid`
says that every event was possible when it happened, and `heard` lists the
events a participant is told of: those that others caused in its group while it
was in it.

`told` is everything a participant is sent, its own confirmations included.
For a valid log it is a sequence of *visits*, each one group's confirmation of
entering, that group's notices, and the confirmation of leaving
(`follows_told`); a participant's own events are visits too
(`follows_caused`); and the events of one lifetime of a group begin with its
founding and go on while somebody is in it (`lifetime_founded`).
-/

namespace ChatApp.Foundation

/-! ## Visits -/

/-- What entering a group, being in it and leaving it look like. -/
structure Stages (R α : Type) where
  enters : R → α → Prop
  inside : R → α → Prop
  leaves : R → α → Prop

namespace Stages

variable {R α : Type} (S : Stages R α) {r : R} {w : List α} {x : α}

/-- A visit that is not over. -/
def Stay (r : R) (w : List α) : Prop :=
  ∃ first rest, S.enters r first ∧ (∀ x ∈ rest, S.inside r x) ∧
    w = first :: rest

def Visit (w : List α) : Prop :=
  ∃ r stay last, S.Stay r stay ∧ S.leaves r last ∧ w = stay ++ [last]

/-- One visit after the other, the last one going on in the given group. -/
def Follows : Option R → List α → Prop
  | none, w => ∃ visits : List (List α), (∀ v ∈ visits, S.Visit v) ∧ w = visits.flatten
  | some r, w => ∃ (visits : List (List α)) (stay : List α),
      (∀ v ∈ visits, S.Visit v) ∧ S.Stay r stay ∧ w = visits.flatten ++ stay

variable {S}

theorem Follows.nil : S.Follows none [] :=
  ⟨[], nofun, rfl⟩

theorem Follows.enter (h : S.Follows none w) (hx : S.enters r x) :
    S.Follows (some r) (w ++ [x]) := by
  obtain ⟨visits, hvisits, rfl⟩ := h
  exact ⟨visits, [x], hvisits, ⟨x, [], hx, nofun, rfl⟩, rfl⟩

theorem Follows.stay (h : S.Follows (some r) w) (hx : S.inside r x) :
    S.Follows (some r) (w ++ [x]) := by
  obtain ⟨visits, stay, hvisits, ⟨first, rest, hfirst, hrest, rfl⟩, rfl⟩ := h
  refine ⟨visits, first :: (rest ++ [x]), hvisits,
    ⟨first, rest ++ [x], hfirst, ?_, rfl⟩, by simp⟩
  intro y hy
  rcases List.mem_append.mp hy with hy | hy
  · exact hrest y hy
  · cases List.mem_singleton.mp hy
    exact hx

theorem Follows.leave (h : S.Follows (some r) w) (hx : S.leaves r x) :
    S.Follows none (w ++ [x]) := by
  obtain ⟨visits, stay, hvisits, hstay, rfl⟩ := h
  refine ⟨visits ++ [stay ++ [x]], ?_, by simp⟩
  intro v hv
  rcases List.mem_append.mp hv with hv | hv
  · exact hvisits v hv
  · cases List.mem_singleton.mp hv
    exact ⟨r, stay, x, hstay, hx, rfl⟩

section Map

variable {β : Type} {S' : Stages R β} {f : α → β}

/-- A map that keeps the stages keeps visits. -/
theorem Stay.map (henters : ∀ r x, S.enters r x → S'.enters r (f x))
    (hinside : ∀ r x, S.inside r x → S'.inside r (f x)) (h : S.Stay r w) :
    S'.Stay r (w.map f) := by
  obtain ⟨first, rest, hfirst, hrest, rfl⟩ := h
  refine ⟨f first, rest.map f, henters r first hfirst, ?_, rfl⟩
  intro y hy
  obtain ⟨x, hx, rfl⟩ := List.mem_map.mp hy
  exact hinside r x (hrest x hx)

theorem Visit.map (henters : ∀ r x, S.enters r x → S'.enters r (f x))
    (hinside : ∀ r x, S.inside r x → S'.inside r (f x))
    (hleaves : ∀ r x, S.leaves r x → S'.leaves r (f x)) (h : S.Visit w) :
    S'.Visit (w.map f) := by
  obtain ⟨r, stay, last, hstay, hlast, rfl⟩ := h
  exact ⟨r, stay.map f, f last, hstay.map henters hinside,
    hleaves r last hlast, by simp⟩

end Map

/-- Every such word begins a sequence of visits. -/
theorem Follows.begins (hleave : ∀ r, ∃ x, S.leaves r x) {room : Option R}
    (h : S.Follows room w) :
    ∃ visits : List (List α), (∀ v ∈ visits, S.Visit v) ∧
      w <+: visits.flatten := by
  cases room with
  | none =>
      obtain ⟨visits, hvisits, rfl⟩ := h
      exact ⟨visits, hvisits, List.prefix_refl _⟩
  | some r =>
      obtain ⟨x, hx⟩ := hleave r
      obtain ⟨visits, hvisits, heq⟩ := h.leave hx
      exact ⟨visits, hvisits, heq ▸ List.prefix_append w [x]⟩

end Stages

/-! ## Events -/

/-- What a participant does to a group; `M` are the notices the others get. -/
inductive Deed (M : Type) where
  | founded
  | joined (notice : M)
  | said (line : M)
  | left (notice : M)

/-- What the others are told. -/
def Deed.notice? {M : Type} : Deed M → Option M
  | .founded => none
  | .joined m | .said m | .left m => some m

/-- What is said. -/
def Deed.line? {M : Type} : Deed M → Option M
  | .said m => some m
  | _ => none

def Deed.isFounding {M : Type} : Deed M → Bool
  | .founded => true
  | _ => false

/-- An event: who did what in which group. -/
structure Event (R Q M : Type) where
  room : R
  who : Q
  deed : Deed M

/-- Who is where. -/
abbrev Members (R Q : Type) := Q → Option R

section Log

variable {R Q M : Type} [DecidableEq Q] {log : List (Event R Q M)}
  {e : Event R Q M}

/-- Who is where after an event. -/
def Event.after (e : Event R Q M) (members : Members R Q) : Members R Q :=
  match e.deed with
  | .founded | .joined _ => Function.update members e.who (some e.room)
  | .said _ => members
  | .left _ => Function.update members e.who none

/-- The event is possible: a group is founded when nobody is in it and joined
when somebody is, by participants that are in no group; and only members speak
and leave. -/
def Event.Possible (e : Event R Q M) (members : Members R Q) : Prop :=
  match e.deed with
  | .founded => members e.who = none ∧ ∀ q, members q ≠ some e.room
  | .joined _ => members e.who = none ∧ ∃ q, members q = some e.room
  | .said _ | .left _ => members e.who = some e.room

/-- An event moves nobody but who causes it. -/
theorem Event.after_of_ne {q : Q} (h : e.who ≠ q) (members : Members R Q) :
    e.after members q = members q := by
  unfold Event.after
  cases e.deed with
  | said => rfl
  | _ => exact Function.update_of_ne h.symm _ _

/-- What a possible event does to who causes it. -/
theorem Event.Possible.effect {members : Members R Q}
    (h : e.Possible members) :
    (members e.who = none ∧ e.after members e.who = some e.room ∧
      (e.deed = .founded ∧ (∀ q, members q ≠ some e.room) ∨
        (∃ m, e.deed = .joined m) ∧ ∃ q, members q = some e.room)) ∨
    (members e.who = some e.room ∧ e.after members e.who = some e.room ∧
      ∃ m, e.deed = .said m) ∨
    (members e.who = some e.room ∧ e.after members e.who = none ∧
      ∃ m, e.deed = .left m) := by
  obtain ⟨room, who, deed⟩ := e
  cases deed with
  | founded =>
      exact .inl ⟨h.1, Function.update_self _ _ _, .inl ⟨rfl, h.2⟩⟩
  | joined m =>
      exact .inl ⟨h.1, Function.update_self _ _ _, .inr ⟨⟨m, rfl⟩, h.2⟩⟩
  | said m => exact .inr (.inl ⟨h, h, m, rfl⟩)
  | left m => exact .inr (.inr ⟨h, Function.update_self _ _ _, m, rfl⟩)

/-- An event that founds no group finds somebody in it. -/
theorem Event.Possible.somebody {members : Members R Q}
    (h : e.Possible members) (hdeed : e.deed.isFounding = false) :
    ∃ q, members q = some e.room := by
  rcases h.effect with ⟨-, -, ⟨hd, -⟩ | ⟨-, hsome⟩⟩ | ⟨hin, -⟩ | ⟨hin, -⟩
  · rw [hd] at hdeed
    cases hdeed
  · exact hsome
  · exact ⟨e.who, hin⟩
  · exact ⟨e.who, hin⟩

/-- Where a participant is after the log. -/
def member (log : List (Event R Q M)) : Members R Q :=
  log.foldl (fun members e => e.after members) fun _ => none

@[simp] theorem member_nil : member ([] : List (Event R Q M)) = fun _ => none :=
  rfl

@[simp] theorem member_snoc (log : List (Event R Q M)) (e : Event R Q M) :
    member (log ++ [e]) = e.after (member log) := by
  simp [member]

/-- Logs in which every event was possible. -/
inductive Valid : List (Event R Q M) → Prop
  | nil : Valid []
  | snoc {log : List (Event R Q M)} {e : Event R Q M} :
      Valid log → e.Possible (member log) → Valid (log ++ [e])

/-- The events a participant causes. -/
def caused (log : List (Event R Q M)) (q : Q) : List (Event R Q M) :=
  log.filter fun e => e.who = q

theorem caused_snoc (log : List (Event R Q M)) (e : Event R Q M) (q : Q) :
    caused (log ++ [e]) q =
      if e.who = q then caused log q ++ [e] else caused log q := by
  unfold caused
  split
  case isTrue h => simp [h]
  case isFalse h => simp [h]

/-- The lines a participant says, in their order. -/
def sayings (log : List (Event R Q M)) (q : Q) : List M :=
  (caused log q).filterMap fun e => e.deed.line?

theorem sayings_snoc (log : List (Event R Q M)) (e : Event R Q M) (q : Q) :
    sayings (log ++ [e]) q =
      sayings log q ++ if e.who = q then e.deed.line?.toList else [] := by
  unfold sayings
  rw [caused_snoc]
  split
  case isTrue =>
    rw [List.filterMap_append]
    cases h : e.deed.line? <;> simp [h]
  case isFalse => rw [List.append_nil]

/-- Visits in terms of a participant's own events. -/
def ownStages (R Q M : Type) : Stages R (Event R Q M) :=
  { enters := fun r e => e.room = r ∧
      (e.deed = .founded ∨ ∃ m, e.deed = .joined m)
    inside := fun r e => e.room = r ∧ ∃ m, e.deed = .said m
    leaves := fun r e => e.room = r ∧ ∃ m, e.deed = .left m }

/-- A participant enters, speaks and leaves in this order, in one group at a
time. -/
theorem follows_caused (h : Valid log) (q : Q) :
    (ownStages R Q M).Follows (member log q) (caused log q) := by
  induction h with
  | nil => exact .nil
  | @snoc log e _ hpossible ih =>
      rw [member_snoc, caused_snoc]
      split
      case isFalse hne =>
        rw [e.after_of_ne hne]
        exact ih
      case isTrue hwho =>
        subst hwho
        rcases hpossible.effect with ⟨hout, hin, hdeed⟩ | ⟨hin, hin', hdeed⟩ |
          ⟨hin, hout, hdeed⟩
        · rw [hout] at ih
          rw [hin]
          exact ih.enter ⟨rfl, hdeed.imp (·.1) (·.1)⟩
        · rw [hin] at ih
          rw [hin']
          exact ih.stay ⟨rfl, hdeed⟩
        · rw [hin] at ih
          rw [hout]
          exact ih.leave ⟨rfl, hdeed⟩

end Log

/-! ## What participants are told -/

/-- An event with the members right before it and the number of times its
group was founded up to and including it. -/
structure Moment (R Q M : Type) where
  event : Event R Q M
  members : Members R Q
  lifetime : Nat

/-- What a participant is sent. -/
inductive Told (R M : Type) where
  | founded (r : R)
  | joined (r : R)
  | notice (r : R) (m : M)
  | left (r : R)
  deriving DecidableEq

/-- The notice a participant is sent. -/
def Told.notice? {R M : Type} : Told R M → Option M
  | .notice _ m => some m
  | _ => none

/-- The confirmation a participant is sent of its own event. -/
def Event.confirms {R Q M : Type} (e : Event R Q M) : List (Told R M) :=
  match e.deed with
  | .founded => [.founded e.room]
  | .joined _ => [.joined e.room]
  | .said _ => []
  | .left _ => [.left e.room]

/-- How often a group was founded. -/
def foundings {R Q M : Type} [DecidableEq R] (log : List (Event R Q M))
    (r : R) : Nat :=
  log.countP fun e => decide (e.room = r) && e.deed.isFounding

theorem foundings_snoc {R Q M : Type} [DecidableEq R]
    (log : List (Event R Q M)) (e : Event R Q M) (r : R) :
    foundings (log ++ [e]) r = foundings log r +
      if e.room = r ∧ e.deed.isFounding = true then 1 else 0 := by
  unfold foundings
  rw [List.countP_append, List.countP_singleton]
  simp

section Told

variable {R Q M : Type} [DecidableEq R] [DecidableEq Q]
  {log : List (Event R Q M)}

/-- The events of a log, with their circumstances when `past` went before. -/
def historyFrom (past : List (Event R Q M)) :
    List (Event R Q M) → List (Moment R Q M)
  | [] => []
  | e :: rest =>
      ⟨e, member past, foundings (past ++ [e]) e.room⟩ ::
        historyFrom (past ++ [e]) rest

/-- The events of the log in their order, with their circumstances. -/
def history (log : List (Event R Q M)) : List (Moment R Q M) :=
  historyFrom [] log

theorem historyFrom_append (log log' : List (Event R Q M)) :
    ∀ past, historyFrom past (log ++ log') =
      historyFrom past log ++ historyFrom (past ++ log) log' := by
  induction log with
  | nil => intro past; simp [historyFrom]
  | cons e log ih =>
      intro past
      simp only [List.cons_append, historyFrom, ih, List.append_assoc,
        List.nil_append]

@[simp] theorem history_nil : history ([] : List (Event R Q M)) = [] := rfl

theorem history_snoc (log : List (Event R Q M)) (e : Event R Q M) :
    history (log ++ [e]) =
      history log ++ [⟨e, member log, foundings (log ++ [e]) e.room⟩] := by
  simp [history, historyFrom_append, historyFrom]

/-- The participant is told of the event: it is in the group and did not cause
the event. -/
def Moment.isFor (q : Q) (m : Moment R Q M) : Bool :=
  decide (m.members q = some m.event.room) && decide (m.event.who ≠ q)

/-- The events the participant is told of, in their order. -/
def heard (log : List (Event R Q M)) (q : Q) : List (Moment R Q M) :=
  (history log).filter (Moment.isFor q)

/-- What a participant is told of a part of the log is the part of what it is
told of. -/
theorem heard_filter (log : List (Event R Q M)) (q : Q)
    (part : Moment R Q M → Bool) :
    (heard log q).filter part =
      ((history log).filter part).filter (Moment.isFor q) := by
  unfold heard
  rw [List.filter_filter, List.filter_filter]
  congr 1
  funext m
  exact Bool.and_comm _ _

/-- What a participant is sent at an event. -/
def Moment.tells (q : Q) (m : Moment R Q M) : List (Told R M) :=
  if m.event.who = q then m.event.confirms
  else if m.members q = some m.event.room then
    (m.event.deed.notice?.map (Told.notice m.event.room)).toList
  else []

/-- Everything a participant is sent. -/
def told (log : List (Event R Q M)) (q : Q) : List (Told R M) :=
  (history log).flatMap (Moment.tells q)

@[simp] theorem told_nil (q : Q) : told ([] : List (Event R Q M)) q = [] := rfl

theorem told_snoc (log : List (Event R Q M)) (e : Event R Q M) (q : Q) :
    told (log ++ [e]) q = told log q ++
      Moment.tells q ⟨e, member log, foundings (log ++ [e]) e.room⟩ := by
  simp [told, history_snoc]

/-- The notices among what a participant is sent are those of the events it is
told of. -/
theorem notices_told (log : List (Event R Q M)) (q : Q) :
    (told log q).filterMap Told.notice? =
      (heard log q).filterMap fun m => m.event.deed.notice? := by
  unfold told heard
  induction history log with
  | nil => rfl
  | cons m rest ih =>
      rw [List.flatMap_cons, List.filterMap_append, ih]
      by_cases hwho : m.event.who = q
      · have hnot : Moment.isFor q m = false := by simp [Moment.isFor, hwho]
        rw [List.filter_cons_of_neg (by simp [hnot]), Moment.tells,
          if_pos hwho, Event.confirms]
        cases m.event.deed <;> rfl
      · by_cases hroom : m.members q = some m.event.room
        · have hfor : Moment.isFor q m = true := by
            simp [Moment.isFor, hroom, hwho]
          rw [List.filter_cons_of_pos hfor, Moment.tells, if_neg hwho,
            if_pos hroom]
          cases hn : m.event.deed.notice? with
          | none => simp [hn]
          | some text => simp [hn, Told.notice?]
        · have hnot : Moment.isFor q m = false := by simp [Moment.isFor, hroom]
          rw [List.filter_cons_of_neg (by simp [hnot]), Moment.tells,
            if_neg hwho, if_neg hroom]
          rfl

/-- Visits in terms of what a participant is sent. -/
def toldStages (R M : Type) : Stages R (Told R M) :=
  { enters := fun r x => x = .founded r ∨ x = .joined r
    inside := fun r x => ∃ m, x = .notice r m
    leaves := fun r x => x = .left r }

/-- **Brackets**: notices reach a participant between its confirmations of
entering and leaving, and are of the group it entered. -/
theorem follows_told (h : Valid log) (q : Q) :
    (toldStages R M).Follows (member log q) (told log q) := by
  induction h with
  | nil => exact .nil
  | @snoc log e _ hpossible ih =>
      rw [member_snoc, told_snoc, Moment.tells]
      dsimp only
      split
      case isTrue hwho =>
        subst hwho
        unfold Event.confirms
        rcases hpossible.effect with
          ⟨hout, hin, ⟨hdeed, -⟩ | ⟨⟨m, hdeed⟩, -⟩⟩ | ⟨hin, hin', m, hdeed⟩ |
            ⟨hin, hout, m, hdeed⟩
        · rw [hout] at ih
          rw [hin, hdeed]
          exact ih.enter (.inl rfl)
        · rw [hout] at ih
          rw [hin, hdeed]
          exact ih.enter (.inr rfl)
        · rw [hin] at ih
          rw [hin', hdeed, List.append_nil]
          exact ih
        · rw [hin] at ih
          rw [hout, hdeed]
          exact ih.leave rfl
      case isFalse hwho =>
        rw [e.after_of_ne hwho]
        split
        case isFalse => simpa using ih
        case isTrue hroom =>
          cases hn : e.deed.notice? with
          | none => simpa using ih
          | some m =>
              rw [hroom] at ih ⊢
              exact ih.stay ⟨m, rfl⟩

/-- Whether the participant is in a group after it was sent this, if that
changes it. -/
def Told.isIn? {R M : Type} : Told R M → Option Bool
  | .founded _ | .joined _ => some true
  | .notice _ _ => none
  | .left _ => some false

/-- What a participant was last sent of entering and leaving says whether it is
in a group. -/
theorem isIn_told (h : Valid log) (q : Q) :
    ((told log q).filterMap Told.isIn?).getLast?.getD false =
      (member log q).isSome := by
  induction h with
  | nil => rfl
  | @snoc log e _ hpossible ih =>
      rw [member_snoc, told_snoc, Moment.tells]
      dsimp only
      split
      case isTrue hwho =>
        subst hwho
        unfold Event.confirms
        rcases hpossible.effect with
          ⟨-, hin, ⟨hdeed, -⟩ | ⟨⟨m, hdeed⟩, -⟩⟩ | ⟨hin, hin', m, hdeed⟩ |
            ⟨-, hout, m, hdeed⟩
        · rw [hin, hdeed]
          simp [Told.isIn?]
        · rw [hin, hdeed]
          simp [Told.isIn?]
        · rw [hin', hdeed, List.append_nil, ih, hin]
        · rw [hout, hdeed]
          simp [Told.isIn?]
      case isFalse hwho =>
        rw [e.after_of_ne hwho]
        split
        case isFalse => rw [List.append_nil, ih]
        case isTrue =>
          cases hn : e.deed.notice? with
          | none => simpa using ih
          | some m => simpa [Told.isIn?] using ih

/-- A participant is sent of entering and leaving in turn. -/
theorem alternates_told (h : Valid log) (q : Q) :
    Alternates false ((told log q).filterMap Told.isIn?) := by
  induction h with
  | nil => trivial
  | @snoc log e hvalid hpossible ih =>
      have hlast := isIn_told hvalid q
      have hturn : ∀ x : Told R M, x.isIn? = some (!(member log q).isSome) →
          Alternates false ((told log q ++ [x]).filterMap Told.isIn?) := by
        intro x hx
        rw [List.filterMap_append, alternates_append, hlast]
        refine ⟨ih, ?_⟩
        simp [hx, Alternates]
      rw [told_snoc, Moment.tells]
      dsimp only
      split
      case isTrue hwho =>
        subst hwho
        unfold Event.confirms
        rcases hpossible.effect with
          ⟨hout, -, ⟨hdeed, -⟩ | ⟨⟨m, hdeed⟩, -⟩⟩ | ⟨-, -, m, hdeed⟩ |
            ⟨hin, -, m, hdeed⟩
        · rw [hdeed]
          exact hturn _ (by rw [hout]; rfl)
        · rw [hdeed]
          exact hturn _ (by rw [hout]; rfl)
        · rw [hdeed, List.append_nil]
          exact ih
        · rw [hdeed]
          exact hturn _ (by rw [hin]; rfl)
      case isFalse hwho =>
        split
        case isFalse =>
          rw [List.append_nil]
          exact ih
        case isTrue =>
          rw [List.filterMap_append]
          cases hn : e.deed.notice? with
          | none => exact (List.append_nil _).symm ▸ ih
          | some m => exact (List.append_nil _).symm ▸ ih

/-- Who was last told that it has left is nowhere. -/
theorem member_of_told_left (h : Valid log) {q : Q} {w : List (Told R M)}
    {r : R} (hlast : told log q = w ++ [.left r]) : member log q = none := by
  cases hm : member log q with
  | none => rfl
  | some k =>
      have hfollows := follows_told h q
      rw [hm] at hfollows
      obtain ⟨visits, stay, -, ⟨first, rest, hfirst, hrest, rfl⟩, heq⟩ :=
        hfollows
      rw [hlast] at heq
      have hmem : Told.left r ∈ first :: rest := by
        have h := congrArg List.getLast? heq
        rw [List.getLast?_append, List.getLast?_append] at h
        apply List.mem_of_getLast?
        simpa [List.getLast?_cons] using h.symm
      rcases List.mem_cons.mp hmem with rfl | hmem
      · rcases hfirst with h | h <;> cases h
      · obtain ⟨m, hm⟩ := hrest _ hmem
        cases hm

/-! ## Lifetimes -/

/-- The events of one lifetime of a group. -/
def lifetime (log : List (Event R Q M)) (r : R) (n : Nat) :
    List (Moment R Q M) :=
  (history log).filter fun m =>
    decide (m.event.room = r) && decide (m.lifetime = n)

/-- A group's lifetime: it is founded when nobody is in it, and every later
event finds somebody in it. -/
def IsLifetime (r : R) (moments : List (Moment R Q M)) : Prop :=
  ∃ first rest, moments = first :: rest ∧ first.event.deed = .founded ∧
    (∀ q, first.members q ≠ some r) ∧
    ∀ m ∈ rest, m.event.deed ≠ .founded ∧ ∃ q, m.members q = some r

theorem lifetime_snoc (log : List (Event R Q M)) (e : Event R Q M) (r : R)
    (n : Nat) :
    lifetime (log ++ [e]) r n =
      if e.room = r ∧ foundings (log ++ [e]) r = n then
        lifetime log r n ++
          [⟨e, member log, foundings (log ++ [e]) e.room⟩]
      else lifetime log r n := by
  unfold lifetime
  rw [history_snoc, List.filter_append]
  by_cases hroom : e.room = r
  · subst hroom
    by_cases hn : foundings (log ++ [e]) e.room = n
    · simp [hn]
    · simp [hn]
  · simp [hroom]

/-- A group with somebody in it was founded. -/
theorem founded_of_member (h : Valid log) {q : Q} {r : R}
    (hq : member log q = some r) : 0 < foundings log r := by
  induction h generalizing q with
  | nil => cases hq
  | @snoc log e _ hpossible ih =>
      rw [member_snoc] at hq
      rw [foundings_snoc]
      by_cases hwho : e.who = q
      · subst hwho
        rcases hpossible.effect with
          ⟨-, hin, ⟨hdeed, -⟩ | ⟨-, q, hsome⟩⟩ | ⟨hin, hin', -⟩ | ⟨-, hout, -⟩
        · rw [hin] at hq
          have hroom := Option.some.inj hq
          simp [hroom, hdeed, Deed.isFounding]
        · rw [hin] at hq
          rw [Option.some.inj hq] at hsome
          exact Nat.add_pos_left (ih hsome) _
        · rw [hin'] at hq
          rw [hq] at hin
          exact Nat.add_pos_left (ih hin) _
        · rw [hout] at hq
          cases hq
      · rw [e.after_of_ne hwho] at hq
        exact Nat.add_pos_left (ih hq) _

/-- **Lifetimes**: every event belongs to the lifetime of its group that the
last founding began. -/
theorem lifetime_founded (h : Valid log) (r : R) (n : Nat) :
    if 0 < n ∧ n ≤ foundings log r then IsLifetime r (lifetime log r n)
    else lifetime log r n = [] := by
  induction h generalizing n with
  | nil =>
      rw [if_neg (by simp only [foundings, List.countP_nil]; omega)]
      rfl
  | @snoc log e hvalid hpossible ih =>
      rw [lifetime_snoc, foundings_snoc]
      by_cases hroom : e.room = r
      case neg => simpa [hroom] using ih n
      subst hroom
      cases hdeed : e.deed.isFounding with
      | true =>
          have hd : e.deed = .founded := by
            cases hd : e.deed with
            | founded => rfl
            | _ => rw [hd] at hdeed; cases hdeed
          simp only [and_self, if_true, true_and]
          by_cases hn : foundings log e.room + 1 = n
          · subst hn
            have hempty := ih (foundings log e.room + 1)
            rw [if_neg (by omega)] at hempty
            unfold Event.Possible at hpossible
            rw [hd] at hpossible
            rw [if_pos (by omega), if_pos rfl, hempty]
            exact ⟨_, [], rfl, hd, hpossible.2, nofun⟩
          · rw [if_neg hn]
            have hold := ih n
            split
            · rwa [if_pos (by omega)] at hold
            · rwa [if_neg (by omega)] at hold
      | false =>
          obtain ⟨q, hq⟩ := hpossible.somebody hdeed
          have hpos := founded_of_member hvalid hq
          simp only [Bool.false_eq_true, and_false, if_false, Nat.add_zero,
            true_and]
          by_cases hn : foundings log e.room = n
          · subst hn
            have hold := ih (foundings log e.room)
            rw [if_pos ⟨hpos, Nat.le_refl _⟩] at hold ⊢
            rw [if_pos rfl]
            obtain ⟨first, rest, heq, hfirst, hnobody, hrest⟩ := hold
            refine ⟨first, rest ++ [_], by rw [heq]; rfl, hfirst, hnobody, ?_⟩
            intro m hm
            rcases List.mem_append.mp hm with hm | hm
            · exact hrest m hm
            · cases List.mem_singleton.mp hm
              refine ⟨?_, q, hq⟩
              intro hd
              rw [hd] at hdeed
              cases hdeed
          · rw [if_neg hn]
            exact ih n

end Told

end ChatApp.Foundation
