import Mathlib.Data.List.Chain

/-!
# Streams cut at a two-symbol delimiter

A stream over any alphabet is split at every occurrence of the delimiter
`x y`.  `pieces` is that splitting; it is characterised by what it returns
(`pieces_unique`): delimiter-free pieces and a delimiter-free tail that
join up to the stream again.

A reader that looks for the delimiter in every received chunk separately and
only carries the text of the unfinished piece over is `feed`.  It computes
`pieces` of the concatenation exactly when no cut falls between an `x` and a
`y` (`feedAll_eq_pieces_iff`): the text before such a cut and the text after
it are glued together with a delimiter inside.
-/

namespace ChatApp.Foundation.Delimited

variable {α : Type} (x y : α)

/-- No delimiter occurs in the text. -/
def Free (l : List α) : Prop :=
  l.IsChain fun a b => ¬ (a = x ∧ b = y)

instance [DecidableEq α] (l : List α) : Decidable (Free x y l) := by
  unfold Free
  infer_instance

/-- The text before the first delimiter and the text after it. -/
def cut [DecidableEq α] : List α → Option (List α × List α)
  | [] => none
  | [_] => none
  | a :: b :: l =>
      if a = x ∧ b = y then some ([], l)
      else (cut (b :: l)).map fun out => (a :: out.1, out.2)

/-- All pieces that a delimiter ends, and the unfinished tail. -/
def pieces [DecidableEq α] : List α → List (List α) × List α
  | [] => ([], [])
  | [a] => ([], [a])
  | a :: b :: l =>
      if a = x ∧ b = y then ([] :: (pieces l).1, (pieces l).2)
      else
        match pieces (b :: l) with
        | ([], tail) => ([], a :: tail)
        | (p :: ps, tail) => ((a :: p) :: ps, tail)

/-- Put the delimiter back after every piece. -/
def join (ps : List (List α)) : List α :=
  ps.flatMap (· ++ [x, y])

variable {x y}

/-! ## Delimiter-free text -/

@[simp] theorem free_nil : Free x y [] := .nil

@[simp] theorem free_singleton (a : α) : Free x y [a] := .singleton a

theorem free_cons_cons {a b : α} {l : List α} :
    Free x y (a :: b :: l) ↔ ¬ (a = x ∧ b = y) ∧ Free x y (b :: l) :=
  List.isChain_cons_cons

theorem free_append {l m : List α} :
    Free x y (l ++ m) ↔ Free x y l ∧ Free x y m ∧
      ∀ a ∈ l.getLast?, ∀ b ∈ m.head?, ¬ (a = x ∧ b = y) :=
  List.isChain_append

theorem Free.left {l m : List α} (h : Free x y (l ++ m)) : Free x y l :=
  (free_append.mp h).1

theorem Free.right {l m : List α} (h : Free x y (l ++ m)) : Free x y m :=
  (free_append.mp h).2.1

/-- Delimiter-free means that the delimiter is not a factor of the text. -/
theorem free_iff_not_infix {l : List α} :
    Free x y l ↔ ¬ [x, y] <:+: l := by
  constructor
  · rintro h ⟨before, after, rfl⟩
    have hmid : Free x y [x, y] := (h.left : Free x y (before ++ [x, y])).right
    exact (free_cons_cons.mp hmid).1 ⟨rfl, rfl⟩
  · intro h
    refine (List.isChain_isInfix l).imp ?_
    rintro a b hab ⟨rfl, rfl⟩
    exact h hab

theorem not_free_delim (p q : List α) : ¬ Free x y (p ++ x :: y :: q) := by
  intro h
  exact (free_cons_cons.mp h.right).1 ⟨rfl, rfl⟩

/-- A delimiter-free text followed by the first half of the delimiter stays
delimiter-free. -/
theorem free_snoc (hxy : x ≠ y) {p : List α} (h : Free x y p) :
    Free x y (p ++ [x]) := by
  refine free_append.mpr ⟨h, free_singleton x, ?_⟩
  intro a _ b hb
  simp only [List.head?_cons, Option.mem_def, Option.some.injEq] at hb
  subst hb
  exact fun hab => hxy hab.2

variable (x y) in
/-- A cut between the two texts falls between an `x` and a `y`. -/
def Straddles (before after : List α) : Prop :=
  before.getLast? = some x ∧ after.head? = some y

theorem free_glue {l m : List α} (hl : Free x y l) (hm : Free x y m)
    (h : ¬ Straddles x y l m) : Free x y (l ++ m) := by
  refine free_append.mpr ⟨hl, hm, ?_⟩
  rintro a ha b hb ⟨rfl, rfl⟩
  exact h ⟨ha, hb⟩

theorem not_free_glue {l m : List α} (h : Straddles x y l m) :
    ¬ Free x y (l ++ m) := by
  intro hfree
  exact (free_append.mp hfree).2.2 x h.1 y h.2 ⟨rfl, rfl⟩

/-- A text between two others that do not touch it with half a delimiter,
except that the second may begin with the second half. -/
theorem free_between {before l after : List α} (hbefore : Free x y before)
    (hafter : Free x y after) (hlast : before.getLast? ≠ some x) :
    Free x y (before ++ l ++ after) ↔
      Free x y l ∧ ¬ Straddles x y l after := by
  constructor
  · intro h
    refine ⟨h.left.right, fun hst => not_free_glue ?_ h⟩
    refine ⟨?_, hst.2⟩
    rw [List.getLast?_append, hst.1]
    rfl
  · rintro ⟨hl, hst⟩
    have hfirst : Free x y (before ++ l) :=
      free_glue hbefore hl fun h => hlast h.1
    apply free_glue hfirst hafter
    rintro ⟨hend, hhead⟩
    rw [List.getLast?_append] at hend
    cases hl' : l.getLast? with
    | none =>
        rw [hl', Option.none_or] at hend
        exact hlast hend
    | some a =>
        rw [hl', Option.some_or] at hend
        exact hst ⟨hl'.trans hend, hhead⟩

theorem join_nil : join x y [] = [] := rfl

theorem join_cons (p : List α) (ps : List (List α)) :
    join x y (p :: ps) = p ++ x :: y :: join x y ps := by
  simp [join]

theorem join_append (ps qs : List (List α)) :
    join x y (ps ++ qs) = join x y ps ++ join x y qs := by
  simp [join]

/-! ## Splitting -/

variable [DecidableEq α]

theorem pieces_of_free {l : List α} (h : Free x y l) :
    pieces x y l = ([], l) := by
  induction l with
  | nil => rfl
  | cons a l ih =>
      cases l with
      | nil => rfl
      | cons b l =>
          obtain ⟨hab, hl⟩ := free_cons_cons.mp h
          simp only [pieces, if_neg hab, ih hl]

/-- The first delimiter ends the first piece. -/
theorem pieces_append_delim {p : List α} (hp : Free x y (p ++ [x]))
    (q : List α) :
    pieces x y (p ++ x :: y :: q) =
      (p :: (pieces x y q).1, (pieces x y q).2) := by
  induction p with
  | nil => simp [pieces]
  | cons a p ih =>
      cases p with
      | nil =>
          obtain ⟨hax, -⟩ := free_cons_cons.mp hp
          have hnext := ih (free_singleton x)
          simp only [List.nil_append] at hnext
          simp only [List.cons_append, List.nil_append]
          rw [pieces, if_neg hax, hnext]
      | cons b p =>
          obtain ⟨hab, hp'⟩ := free_cons_cons.mp hp
          have hnext := ih hp'
          simp only [List.cons_append] at hnext ⊢
          rw [pieces, if_neg hab, hnext]

/-- Splitting loses nothing. -/
theorem join_pieces (l : List α) :
    join x y (pieces x y l).1 ++ (pieces x y l).2 = l := by
  fun_induction pieces x y l with
  | case1 => rfl
  | case2 a => rfl
  | case3 a b l hab ih =>
      obtain ⟨rfl, rfl⟩ := hab
      simpa [join_cons] using ih
  | case4 a b l hab tail heq ih =>
      rw [heq] at ih
      simpa [join_nil] using ih
  | case5 a b l hab p ps tail heq ih =>
      rw [heq] at ih
      simpa [join_cons] using ih

/-- The pieces and the tail that come back hold no delimiter. -/
theorem pieces_free (l : List α) :
    (∀ p ∈ (pieces x y l).1, Free x y p) ∧ Free x y (pieces x y l).2 := by
  fun_induction pieces x y l with
  | case1 => simp
  | case2 a => simp
  | case3 a b l hab ih => simpa using ih
  | case4 a b l hab tail heq ih =>
      have hjoin := join_pieces (x := x) (y := y) (b :: l)
      rw [heq] at ih hjoin
      simp only [join_nil, List.nil_append] at hjoin
      subst hjoin
      exact ⟨by simp, free_cons_cons.mpr ⟨hab, ih.2⟩⟩
  | case5 a b l hab p ps tail heq ih =>
      have hjoin := join_pieces (x := x) (y := y) (b :: l)
      rw [heq] at ih hjoin
      refine ⟨?_, ih.2⟩
      intro q hq
      rcases List.mem_cons.mp hq with rfl | hq
      · cases p with
        | nil => exact free_singleton a
        | cons b' p =>
            simp only [join_cons, List.cons_append, List.cons.injEq] at hjoin
            obtain ⟨rfl, -⟩ := hjoin
            exact free_cons_cons.mpr ⟨hab, ih.1 _ List.mem_cons_self⟩
      · exact ih.1 q (List.mem_cons_of_mem _ hq)

theorem pieces_join (hxy : x ≠ y) {ps : List (List α)}
    (hps : ∀ p ∈ ps, Free x y p) (l : List α) :
    pieces x y (join x y ps ++ l) =
      (ps ++ (pieces x y l).1, (pieces x y l).2) := by
  induction ps with
  | nil => simp [join_nil]
  | cons p ps ih =>
      have hp : Free x y (p ++ [x]) :=
        free_snoc hxy (hps p List.mem_cons_self)
      have hrest := ih fun q hq => hps q (List.mem_cons_of_mem _ hq)
      simp only [join_cons, List.append_assoc, List.cons_append]
      rw [pieces_append_delim hp, hrest]

/-- Delimiter-free pieces and a delimiter-free tail are the splitting of the
text they join up to. -/
theorem pieces_unique (hxy : x ≠ y) {ps : List (List α)} {tail : List α}
    (hps : ∀ p ∈ ps, Free x y p) (htail : Free x y tail) :
    pieces x y (join x y ps ++ tail) = (ps, tail) := by
  rw [pieces_join hxy hps, pieces_of_free htail]
  simp

theorem pieces_fst_eq_nil {l : List α} (h : (pieces x y l).1 = []) :
    Free x y l := by
  have hjoin := join_pieces (x := x) (y := y) l
  rw [h, join_nil, List.nil_append] at hjoin
  rw [← hjoin]
  exact (pieces_free l).2

/-! ## Searching for the next delimiter -/

theorem cut_eq_none {l : List α} : cut x y l = none ↔ Free x y l := by
  fun_induction cut x y l with
  | case1 => simp
  | case2 a => simp
  | case3 a b l hab => simp [free_cons_cons, hab]
  | case4 a b l hab ih => simp [free_cons_cons, hab, ih]

theorem cut_eq_some {l p q : List α} (h : cut x y l = some (p, q)) :
    l = p ++ x :: y :: q ∧ Free x y (p ++ [x]) := by
  fun_induction cut x y l generalizing p q with
  | case1 => simp at h
  | case2 a => simp at h
  | case3 a b l hab =>
      simp only [Option.some.injEq, Prod.mk.injEq] at h
      obtain ⟨rfl, rfl⟩ := h
      obtain ⟨rfl, rfl⟩ := hab
      exact ⟨rfl, free_singleton a⟩
  | case4 a b l hab ih =>
      simp only [Option.map_eq_some_iff, Prod.mk.injEq] at h
      obtain ⟨⟨p', q'⟩, hcut, rfl, rfl⟩ := h
      obtain ⟨heq, hfree⟩ := ih hcut
      refine ⟨by simp [heq], ?_⟩
      cases p' with
      | nil =>
          simp only [List.nil_append, List.cons.injEq] at heq
          obtain ⟨rfl, -⟩ := heq
          exact free_cons_cons.mpr ⟨hab, free_singleton b⟩
      | cons c p' =>
          simp only [List.cons_append, List.cons.injEq] at heq
          obtain ⟨rfl, -⟩ := heq
          exact free_cons_cons.mpr ⟨hab, hfree⟩

theorem pieces_of_cut {l p q : List α} (h : cut x y l = some (p, q)) :
    pieces x y l = (p :: (pieces x y q).1, (pieces x y q).2) := by
  obtain ⟨rfl, hp⟩ := cut_eq_some h
  exact pieces_append_delim hp q

theorem length_of_cut {l p q : List α} (h : cut x y l = some (p, q)) :
    q.length < l.length := by
  obtain ⟨rfl, -⟩ := cut_eq_some h
  simp only [List.length_append, List.length_cons]
  omega

/-! ## Reading in chunks -/

variable (x y) in
/-- One received chunk: the carried-over text goes in front of the first
piece the chunk ends, or in front of the chunk when it ends none. -/
def feed (carry chunk : List α) : List (List α) × List α :=
  match pieces x y chunk with
  | ([], tail) => ([], carry ++ tail)
  | (p :: ps, tail) => ((carry ++ p) :: ps, tail)

/-- A text leaves no tail when a delimiter ends it. -/
theorem pieces_snd_eq_nil_iff (hxy : x ≠ y) {l : List α} :
    (pieces x y l).2 = [] ↔ l = [] ∨ [x, y] <:+ l := by
  constructor
  · intro htail
    have hjoin := join_pieces (x := x) (y := y) l
    rw [htail, List.append_nil] at hjoin
    cases hps : (pieces x y l).1 using List.reverseRecOn with
    | nil =>
        rw [hps, join_nil] at hjoin
        exact .inl hjoin.symm
    | append_singleton ps p =>
        rw [hps, join_append, join_cons, join_nil] at hjoin
        exact .inr ⟨join x y ps ++ p, by rw [← hjoin]; simp⟩
  · rintro (rfl | ⟨l, rfl⟩)
    · rfl
    · have hfree := pieces_free (x := x) (y := y) l
      have hpieces : ∀ p ∈ (pieces x y l).1 ++ [(pieces x y l).2],
          Free x y p := by
        intro p hp
        rcases List.mem_append.mp hp with hp | hp
        · exact hfree.1 p hp
        · rw [List.mem_singleton.mp hp]
          exact hfree.2
      have hall := pieces_unique hxy hpieces (free_nil (x := x) (y := y))
      have hjoin := join_pieces (x := x) (y := y) l
      have htext : join x y ((pieces x y l).1 ++ [(pieces x y l).2]) ++ [] =
          l ++ [x, y] := by
        conv_rhs => rw [← hjoin]
        simp [join_append, join_cons, join_nil]
      rw [htext] at hall
      rw [hall]

/-- Nothing is carried over when a delimiter ends the chunk, or there was nothing
at all. -/
theorem feed_snd_eq_nil_iff (hxy : x ≠ y) {carry chunk : List α} :
    (feed x y carry chunk).2 = [] ↔
      carry = [] ∧ chunk = [] ∨ [x, y] <:+ chunk := by
  have htail := pieces_snd_eq_nil_iff hxy (l := chunk)
  cases hp : pieces x y chunk with
  | mk ps tail =>
      cases ps with
      | nil =>
          have hfree := pieces_fst_eq_nil (x := x) (y := y) (l := chunk)
            (by rw [hp])
          have hnot : ¬ [x, y] <:+ chunk := by
            rintro ⟨l, rfl⟩
            exact not_free_delim l [] hfree
          have hchunk : tail = chunk := by
            rw [pieces_of_free hfree] at hp
            exact (Prod.mk.inj hp).2.symm
          simp [feed, hp, hnot, hchunk]
      | cons p ps =>
          have hne : chunk ≠ [] := by
            rintro rfl
            cases hp
          rw [hp] at htail
          simp only [feed, hp]
          rw [htail]
          simp [hne]

variable (x y) in
/-- Successive chunks, from the carried-over text `carry`. -/
def feedAll (carry : List α) : List (List α) → List (List α) × List α
  | [] => ([], carry)
  | chunk :: rest =>
      ((feed x y carry chunk).1 ++ (feedAll (feed x y carry chunk).2 rest).1,
        (feedAll (feed x y carry chunk).2 rest).2)

instance (before after : List α) :
    Decidable (Straddles x y before after) := by
  unfold Straddles
  infer_instance

variable (x y) in
/-- No cut between successive chunks falls inside a delimiter of the stream
that starts with the text `read`. -/
def CutsClear (read : List α) : List (List α) → Prop
  | [] => True
  | chunk :: rest =>
      ¬ Straddles x y read chunk ∧ CutsClear (read ++ chunk) rest

instance decidableCutsClear (read : List α) :
    (chunks : List (List α)) → Decidable (CutsClear x y read chunks)
  | [] => .isTrue trivial
  | chunk :: rest =>
      haveI := decidableCutsClear (read ++ chunk) rest
      inferInstanceAs
        (Decidable (¬ Straddles x y read chunk ∧
          CutsClear x y (read ++ chunk) rest))

/-- Feeding a chunk that does not complete a cut delimiter splits the
carried-over text together with the chunk. -/
theorem feed_eq_pieces {carry chunk : List α} (hxy : x ≠ y)
    (hcarry : Free x y carry) (h : ¬ Straddles x y carry chunk) :
    feed x y carry chunk = pieces x y (carry ++ chunk) := by
  have hjoin := join_pieces (x := x) (y := y) chunk
  obtain ⟨hps, htail⟩ := pieces_free (x := x) (y := y) chunk
  unfold feed
  cases hsplit : pieces x y chunk with
  | mk ps tail =>
      rw [hsplit] at hjoin hps htail
      cases ps with
      | nil =>
          simp only [join_nil, List.nil_append] at hjoin
          subst hjoin
          exact (pieces_of_free (free_glue hcarry htail h)).symm
      | cons p ps =>
          simp only [join_cons, List.append_assoc, List.cons_append] at hjoin
          have hp : Free x y (carry ++ p) := by
            refine free_glue hcarry (hps p List.mem_cons_self) ?_
            rintro ⟨hlast, hhead⟩
            refine h ⟨hlast, ?_⟩
            cases p with
            | nil => simp at hhead
            | cons a p =>
                rw [← hjoin]
                simpa using hhead
          have hrest := pieces_unique (x := x) (y := y) hxy
            (fun q hq => hps q (List.mem_cons_of_mem _ hq)) htail
          rw [← hjoin, ← List.append_assoc,
            pieces_append_delim (free_snoc hxy hp), hrest]

/-- Feeding a chunk that completes a cut delimiter leaves that delimiter in a
piece or in the carried-over text. -/
theorem feed_not_free {carry chunk : List α} (hxy : x ≠ y)
    (h : Straddles x y carry chunk) :
    (∃ p ∈ (feed x y carry chunk).1, ¬ Free x y p) ∨
      ¬ Free x y (feed x y carry chunk).2 := by
  have hjoin := join_pieces (x := x) (y := y) chunk
  unfold feed
  cases hsplit : pieces x y chunk with
  | mk ps tail =>
      rw [hsplit] at hjoin
      cases ps with
      | nil =>
          simp only [join_nil, List.nil_append] at hjoin
          subst hjoin
          exact .inr (not_free_glue h)
      | cons p ps =>
          refine .inl ⟨carry ++ p, List.mem_cons_self, not_free_glue ⟨h.1, ?_⟩⟩
          have hhead := h.2
          rw [← hjoin, join_cons] at hhead
          cases p with
          | nil =>
              simp only [List.nil_append, List.cons_append, List.head?_cons,
                Option.some.injEq] at hhead
              exact absurd hhead hxy
          | cons a p => simpa using hhead

/-- A delimiter in the carried-over text ends up in a piece or stays in the
carried-over text. -/
theorem feed_keeps_not_free {carry : List α} (chunk : List α)
    (h : ¬ Free x y carry) :
    (∃ p ∈ (feed x y carry chunk).1, ¬ Free x y p) ∨
      ¬ Free x y (feed x y carry chunk).2 := by
  unfold feed
  split
  · exact .inr fun hfree => h hfree.left
  · exact .inl ⟨_, List.mem_cons_self, fun hfree => h hfree.left⟩

theorem feedAll_keeps_not_free {carry : List α} (chunks : List (List α))
    (h : ¬ Free x y carry) :
    (∃ p ∈ (feedAll x y carry chunks).1, ¬ Free x y p) ∨
      ¬ Free x y (feedAll x y carry chunks).2 := by
  induction chunks generalizing carry with
  | nil => exact .inr h
  | cons chunk rest ih =>
      simp only [feedAll, List.mem_append]
      rcases feed_keeps_not_free chunk h with ⟨p, hp, hfree⟩ | hcarry
      · exact .inl ⟨p, .inl hp, hfree⟩
      · rcases ih hcarry with ⟨p, hp, hfree⟩ | htail
        · exact .inl ⟨p, .inr hp, hfree⟩
        · exact .inr htail

/-- The tail of a text ends like the text when the text ends with the first
half of a delimiter. -/
theorem pieces_snd_getLast? (hxy : x ≠ y) {l : List α}
    (h : l.getLast? = some x) : (pieces x y l).2.getLast? = some x := by
  have hjoin := join_pieces (x := x) (y := y) l
  cases htail : (pieces x y l).2 with
  | nil =>
      rw [htail, List.append_nil] at hjoin
      cases hps : (pieces x y l).1 using List.reverseRecOn with
      | nil => rw [← hjoin, hps] at h; simp [join_nil] at h
      | append_singleton ps p =>
          rw [← hjoin, hps, join_append, join_cons, join_nil] at h
          simp only [List.getLast?_append, List.getLast?_cons_cons,
            List.getLast?_singleton, Option.some_or, Option.some.injEq] at h
          exact absurd h.symm hxy
  | cons a tail =>
      rw [htail] at hjoin
      rw [← hjoin, List.getLast?_append] at h
      cases hlast : (a :: tail).getLast? with
      | none => simp at hlast
      | some b => rw [hlast] at h; simpa using h

theorem straddles_tail_iff (hxy : x ≠ y) (read chunk : List α) :
    Straddles x y (pieces x y read).2 chunk ↔ Straddles x y read chunk := by
  constructor
  · rintro ⟨hlast, hhead⟩
    refine ⟨?_, hhead⟩
    rw [← join_pieces (x := x) (y := y) read, List.getLast?_append, hlast]
    rfl
  · rintro ⟨hlast, hhead⟩
    exact ⟨pieces_snd_getLast? hxy hlast, hhead⟩

/-- Splitting what was read so far and then feeding one more chunk. -/
theorem pieces_append (hxy : x ≠ y) (read chunk : List α) :
    pieces x y (read ++ chunk) =
      ((pieces x y read).1 ++ (pieces x y ((pieces x y read).2 ++ chunk)).1,
        (pieces x y ((pieces x y read).2 ++ chunk)).2) := by
  conv_lhs => rw [← join_pieces (x := x) (y := y) read]
  rw [List.append_assoc, pieces_join hxy (pieces_free read).1]

/-- The reader agrees with the splitting of the whole stream, wherever it
starts, as long as no cut falls inside a delimiter. -/
theorem feedAll_of_cutsClear (hxy : x ≠ y) (chunks : List (List α)) :
    ∀ read : List α, CutsClear x y read chunks →
      ((pieces x y read).1 ++ (feedAll x y (pieces x y read).2 chunks).1,
        (feedAll x y (pieces x y read).2 chunks).2) =
      pieces x y (read ++ chunks.flatten) := by
  induction chunks with
  | nil => intro read _; simp [feedAll]
  | cons chunk rest ih =>
      intro read h
      have hclear : ¬ Straddles x y (pieces x y read).2 chunk := by
        rw [straddles_tail_iff hxy]
        exact h.1
      have hfeed := feed_eq_pieces hxy (pieces_free read).2 hclear
      have hnext := ih (read ++ chunk) h.2
      rw [pieces_append hxy read chunk] at hnext
      simp only [feedAll, hfeed, List.flatten_cons, ← List.append_assoc]
      simpa using hnext

/-- A cut inside a delimiter leaves that delimiter in what the reader returns. -/
theorem feedAll_not_free (hxy : x ≠ y) (chunks : List (List α)) :
    ∀ read : List α, ¬ CutsClear x y read chunks →
      (∃ p ∈ (feedAll x y (pieces x y read).2 chunks).1, ¬ Free x y p) ∨
        ¬ Free x y (feedAll x y (pieces x y read).2 chunks).2 := by
  induction chunks with
  | nil => intro read h; exact absurd trivial h
  | cons chunk rest ih =>
      intro read h
      simp only [feedAll, List.mem_append]
      by_cases hst : Straddles x y read chunk
      · rcases feed_not_free hxy ((straddles_tail_iff hxy read chunk).mpr hst)
          with ⟨p, hp, hfree⟩ | hcarry
        · exact .inl ⟨p, .inl hp, hfree⟩
        · rcases feedAll_keeps_not_free rest hcarry with ⟨p, hp, hfree⟩ | ht
          · exact .inl ⟨p, .inr hp, hfree⟩
          · exact .inr ht
      · have hclear : ¬ Straddles x y (pieces x y read).2 chunk := by
          rwa [straddles_tail_iff hxy]
        have hfeed := feed_eq_pieces hxy (pieces_free read).2 hclear
        have hsplit := pieces_append hxy read chunk
        rcases ih (read ++ chunk) fun hrest => h ⟨hst, hrest⟩
          with ⟨p, hp, hfree⟩ | ht
        · rw [hsplit] at hp
          refine .inl ⟨p, .inr ?_, hfree⟩
          rw [hfeed]
          exact hp
        · rw [hsplit] at ht
          refine .inr ?_
          rw [hfeed]
          exact ht

/-- What the reader returns is free of delimiters if and only if no cut falls
inside one. -/
theorem feedAll_free_iff (hxy : x ≠ y) {carry : List α}
    (hcarry : Free x y carry) (chunks : List (List α)) :
    ((∀ p ∈ (feedAll x y carry chunks).1, Free x y p) ∧
        Free x y (feedAll x y carry chunks).2) ↔
      CutsClear x y carry chunks := by
  have hread := pieces_of_free hcarry
  constructor
  · rintro ⟨hpieces, htail⟩
    by_contra hcut
    have hbad := feedAll_not_free hxy chunks carry hcut
    rw [hread] at hbad
    rcases hbad with ⟨p, hp, hfree⟩ | hfree
    · exact hfree (hpieces p hp)
    · exact hfree htail
  · intro h
    have hall := feedAll_of_cutsClear hxy chunks carry h
    rw [hread] at hall
    have hfree := pieces_free (x := x) (y := y) (carry ++ chunks.flatten)
    rw [← hall] at hfree
    simpa using hfree

/-- **Chunked reading.**  The reader returns the splitting of the whole
stream if and only if no cut falls inside a delimiter. -/
theorem feedAll_eq_pieces_iff (hxy : x ≠ y) (chunks : List (List α)) :
    feedAll x y [] chunks = pieces x y chunks.flatten ↔
      CutsClear x y [] chunks := by
  constructor
  · intro h
    by_contra hcut
    have hbad := feedAll_not_free hxy chunks [] hcut
    simp only [pieces] at hbad
    rw [h] at hbad
    rcases hbad with ⟨p, hp, hfree⟩ | ht
    · exact hfree ((pieces_free chunks.flatten).1 p hp)
    · exact ht (pieces_free chunks.flatten).2
  · intro h
    have hall := feedAll_of_cutsClear hxy chunks [] h
    simpa [pieces] using hall

/-! ## The reader's buffer -/

variable (x y) in
/-- What the reader's buffer holds right after each time text is appended to
it: every completed piece, and the carried-over text when it grew. -/
def writes (carry : List α) : List (List α) → List (List α)
  | [] => []
  | chunk :: rest =>
      (feed x y carry chunk).1 ++
        (if (pieces x y chunk).2 = [] then []
          else [(feed x y carry chunk).2]) ++
        writes (feed x y carry chunk).2 rest

/-- The text before a cut that is no cut inside a delimiter is the beginning
of a piece or of the tail. -/
theorem tail_length_le {l m : List α} {bound : Nat} (hxy : x ≠ y)
    (hcut : ¬ Straddles x y l m)
    (hpieces : ∀ p ∈ (pieces x y (l ++ m)).1, p.length ≤ bound)
    (htail : (pieces x y (l ++ m)).2.length ≤ bound) :
    (pieces x y l).2.length ≤ bound := by
  have hfree := (pieces_free (x := x) (y := y) l).2
  have hcut' : ¬ Straddles x y (pieces x y l).2 m := by
    rwa [straddles_tail_iff hxy]
  have hsplit := pieces_append hxy l m
  have hjoin := join_pieces (x := x) (y := y) ((pieces x y l).2 ++ m)
  rw [hsplit] at hpieces htail
  simp only [List.mem_append] at hpieces htail
  cases hps : (pieces x y ((pieces x y l).2 ++ m)).1 with
  | nil =>
      rw [hps, join_nil, List.nil_append] at hjoin
      have hlen := congrArg List.length hjoin
      rw [List.length_append] at hlen
      omega
  | cons p ps =>
      have hp : p.length ≤ bound := by
        apply hpieces p
        right
        rw [hps]
        exact List.mem_cons_self
      by_contra hlong
      have hlt : p.length < (pieces x y l).2.length := by omega
      rw [hps, join_cons, List.append_assoc] at hjoin
      rcases List.append_eq_append_iff.mp hjoin with
        ⟨q, hq, hrest⟩ | ⟨q, hq, -⟩
      · rw [hq, List.length_append] at hlt
        cases q with
        | nil => simp at hlt
        | cons b q =>
            simp only [List.cons_append, List.cons.injEq] at hrest
            obtain ⟨rfl, hrest⟩ := hrest
            cases q with
            | nil =>
                apply hcut'
                rw [List.nil_append] at hrest
                rw [hq, ← hrest]
                exact ⟨by simp, rfl⟩
            | cons d q =>
                simp only [List.cons_append, List.cons.injEq] at hrest
                obtain ⟨rfl, -⟩ := hrest
                rw [hq] at hfree
                exact not_free_delim p q hfree
      · rw [hq, List.length_append] at hlt
        omega

omit [DecidableEq α] in
theorem CutsClear.flatten {read : List α} {chunks : List (List α)}
    (h : CutsClear x y read chunks) : ¬ Straddles x y read chunks.flatten := by
  induction chunks generalizing read with
  | nil => intro hst; cases hst.2
  | cons chunk rest ih =>
      cases chunk with
      | nil =>
          have hrest := ih h.2
          rwa [List.append_nil] at hrest
      | cons a chunk =>
          intro hst
          exact h.1 ⟨hst.1, hst.2⟩

/-- While no cut falls inside a delimiter, the buffer never holds more than
the longest piece or the tail. -/
theorem writes_length_le (hxy : x ≠ y) (bound : Nat)
    (chunks : List (List α)) :
    ∀ read : List α, CutsClear x y read chunks →
      (∀ p ∈ (pieces x y (read ++ chunks.flatten)).1, p.length ≤ bound) →
      (pieces x y (read ++ chunks.flatten)).2.length ≤ bound →
      ∀ t ∈ writes x y (pieces x y read).2 chunks, t.length ≤ bound := by
  induction chunks with
  | nil => intro read _ _ _ t ht; cases ht
  | cons chunk rest ih =>
      intro read hcuts hpieces htail t ht
      have hclear : ¬ Straddles x y (pieces x y read).2 chunk := by
        rw [straddles_tail_iff hxy]
        exact hcuts.1
      have hfeed := feed_eq_pieces hxy (pieces_free read).2 hclear
      have hread := pieces_append hxy read chunk
      have hall := pieces_append hxy (read ++ chunk) rest.flatten
      have hsnd : (feed x y (pieces x y read).2 chunk).2 =
          (pieces x y (read ++ chunk)).2 := by
        rw [hfeed, hread]
      rw [List.flatten_cons, ← List.append_assoc] at hpieces htail
      have hend : (pieces x y (read ++ chunk)).2.length ≤ bound :=
        tail_length_le hxy hcuts.2.flatten hpieces htail
      simp only [writes, List.mem_append] at ht
      rcases ht with (ht | ht) | ht
      · apply hpieces
        rw [hall, hread]
        rw [hfeed] at ht
        simp [ht]
      · split at ht
        · cases ht
        · rw [List.mem_singleton.mp ht, hsnd]
          exact hend
      · rw [hsnd] at ht
        exact ih (read ++ chunk) hcuts.2 hpieces htail t ht

/-- When the text that was carried over and everything written since fits a
bound, so does what is left. -/
theorem feedAll_snd_length_le (bound : Nat) (chunks : List (List α)) :
    ∀ carry : List α, carry.length ≤ bound →
      (∀ t ∈ writes x y carry chunks, t.length ≤ bound) →
      (feedAll x y carry chunks).2.length ≤ bound := by
  induction chunks with
  | nil => intro carry hcarry _; exact hcarry
  | cons chunk rest ih =>
      intro carry hcarry hwrites
      simp only [writes, List.mem_append] at hwrites
      apply ih
      · by_cases hempty : (pieces x y chunk).2 = []
        · unfold feed
          cases hp : pieces x y chunk with
          | mk ps tail =>
              rw [hp] at hempty
              simp only at hempty
              subst hempty
              cases ps with
              | nil => simpa using hcarry
              | cons p ps => simp
        · apply hwrites
          simp [hempty]
      · intro t ht
        exact hwrites t (.inr ht)

/-! ### Stretches without a delimiter

The chunks are looked at one by one here: a delimiter that a cut divides does
not end a stretch. -/

variable (x y) in
/-- The text before the first delimiter, all of it when there is none. -/
def head (l : List α) : List α :=
  match (pieces x y l).1 with
  | [] => (pieces x y l).2
  | p :: _ => p

variable (x y) in
/-- From `n` symbols on, the text up to the next delimiter stays within the
bound. -/
def Opening (bound n : Nat) (chunks : List (List α)) : Prop :=
  ∀ middle last after, chunks = middle ++ last :: after →
    (∀ chunk ∈ middle, Free x y chunk) →
    n + middle.flatten.length + (head x y last).length ≤ bound

variable (x y) in
/-- Every stretch of the chunks without a delimiter stays within the bound:
the one that `n` symbols precede, and each one that begins behind the last
delimiter of a chunk. -/
structure Stretches (bound n : Nat) (chunks : List (List α)) : Prop where
  first : Opening x y bound n chunks
  later : ∀ before chunk after, chunks = before ++ chunk :: after →
    Opening x y bound (pieces x y chunk).2.length after

theorem head_of_free {l : List α} (h : Free x y l) : head x y l = l := by
  simp [head, pieces_of_free h]

theorem opening_nil (bound n : Nat) :
    Opening x y bound n [] := by
  intro middle last after h
  simp at h

/-- The next chunk either continues the opening stretch or ends it. -/
theorem opening_cons {bound n : Nat} {chunk : List α}
    {rest : List (List α)} :
    Opening x y bound n (chunk :: rest) ↔
      n + (head x y chunk).length ≤ bound ∧
        (Free x y chunk → Opening x y bound (n + chunk.length) rest) := by
  constructor
  · intro h
    constructor
    · have hfirst := h [] chunk rest rfl (by simp)
      simpa using hfirst
    · intro hfree middle last after hrest hmiddle
      have hnext := h (chunk :: middle) last after (by rw [hrest]; rfl)
        (by simpa [hfree] using hmiddle)
      simp only [List.flatten_cons, List.length_append] at hnext
      omega
  · rintro ⟨hfirst, hrest⟩ middle last after hchunks hmiddle
    cases middle with
    | nil =>
        simp only [List.nil_append, List.cons.injEq] at hchunks
        rw [← hchunks.1]
        simpa using hfirst
    | cons c middle =>
        simp only [List.cons_append, List.cons.injEq] at hchunks
        obtain ⟨rfl, hrest'⟩ := hchunks
        have hfree := hmiddle chunk List.mem_cons_self
        have hnext := hrest hfree middle last after hrest'
          fun c hc => hmiddle c (List.mem_cons_of_mem _ hc)
        simp only [List.flatten_cons, List.length_append]
        omega

theorem Opening.mono {bound n m : Nat} {chunks : List (List α)}
    (hmn : m ≤ n) (h : Opening x y bound n chunks) :
    Opening x y bound m chunks := by
  intro middle last after hchunks hmiddle
  have hle := h middle last after hchunks hmiddle
  omega

theorem stretches_nil (bound n : Nat) : Stretches x y bound n [] := by
  refine ⟨opening_nil bound n, ?_⟩
  intro before chunk after h
  simp at h

/-- A chunk without a delimiter lengthens the stretch. -/
theorem stretches_cons_free {bound n : Nat} {chunk : List α}
    {rest : List (List α)} (hfree : Free x y chunk) :
    Stretches x y bound n (chunk :: rest) ↔
      n + chunk.length ≤ bound ∧
        Stretches x y bound (n + chunk.length) rest := by
  have htail : (pieces x y chunk).2 = chunk := by
    rw [pieces_of_free hfree]
  constructor
  · rintro ⟨hfirst, hlater⟩
    rw [opening_cons, head_of_free hfree] at hfirst
    refine ⟨hfirst.1, hfirst.2 hfree, ?_⟩
    intro before c after hrest
    exact hlater (chunk :: before) c after (by rw [hrest]; rfl)
  · rintro ⟨hlen, hfirst, hlater⟩
    refine ⟨?_, ?_⟩
    · rw [opening_cons, head_of_free hfree]
      exact ⟨hlen, fun _ => hfirst⟩
    · intro before c after hchunks
      cases before with
      | nil =>
          simp only [List.nil_append, List.cons.injEq] at hchunks
          obtain ⟨rfl, rfl⟩ := hchunks
          rw [htail]
          exact hfirst.mono (by omega)
      | cons d before =>
          simp only [List.cons_append, List.cons.injEq] at hchunks
          exact hlater before c after hchunks.2

/-- A chunk with a delimiter ends the stretch and begins another one. -/
theorem stretches_cons_delim {bound n : Nat} {chunk p : List α}
    {ps : List (List α)} {rest : List (List α)}
    (hp : (pieces x y chunk).1 = p :: ps) :
    Stretches x y bound n (chunk :: rest) ↔
      n + p.length ≤ bound ∧
        Stretches x y bound (pieces x y chunk).2.length rest := by
  have hhead : head x y chunk = p := by simp [head, hp]
  have hfree : ¬ Free x y chunk := by
    intro h
    rw [pieces_of_free h] at hp
    cases hp
  constructor
  · rintro ⟨hfirst, hlater⟩
    rw [opening_cons, hhead] at hfirst
    refine ⟨hfirst.1, hlater [] chunk rest rfl, ?_⟩
    intro before c after hrest
    exact hlater (chunk :: before) c after (by rw [hrest]; rfl)
  · rintro ⟨hlen, hfirst, hlater⟩
    refine ⟨?_, ?_⟩
    · rw [opening_cons, hhead]
      exact ⟨hlen, fun h => absurd h hfree⟩
    · intro before c after hchunks
      cases before with
      | nil =>
          simp only [List.nil_append, List.cons.injEq] at hchunks
          obtain ⟨rfl, rfl⟩ := hchunks
          exact hfirst
      | cons d before =>
          simp only [List.cons_append, List.cons.injEq] at hchunks
          exact hlater before c after hchunks.2

/-- The pieces and the tail of a text are no longer than the text. -/
theorem length_piece_le {l t : List α}
    (h : t ∈ (pieces x y l).1 ∨ t = (pieces x y l).2) :
    t.length ≤ l.length := by
  have hjoin := congrArg List.length (join_pieces (x := x) (y := y) l)
  rw [List.length_append] at hjoin
  rcases h with h | rfl
  · have hmem : ∀ ps : List (List α), t ∈ ps →
        t.length ≤ (join x y ps).length := by
      intro ps
      induction ps with
      | nil => intro h; cases h
      | cons p ps ih =>
          intro h
          rw [join_cons]
          simp only [List.length_append, List.length_cons]
          rcases List.mem_cons.mp h with rfl | h
          · omega
          · have hle := ih h
            omega
    have hle := hmem _ h
    omega
  · omega

/-- Everything written to the reader's buffer stays within a bound exactly
when every stretch without a delimiter does. -/
theorem writes_le_iff {bound : Nat} (chunks : List (List α)) :
    ∀ carry : List α, carry.length ≤ bound →
      (∀ chunk ∈ chunks, chunk.length ≤ bound) →
      ((∀ t ∈ writes x y carry chunks, t.length ≤ bound) ↔
        Stretches x y bound carry.length chunks) := by
  induction chunks with
  | nil =>
      intro carry _ _
      refine ⟨fun _ => stretches_nil bound carry.length, ?_⟩
      intro _ t ht
      cases ht
  | cons chunk rest ih =>
      intro carry hcarry hchunks
      have hchunk := hchunks chunk List.mem_cons_self
      have hrest : ∀ c ∈ rest, c.length ≤ bound :=
        fun c hc => hchunks c (List.mem_cons_of_mem _ hc)
      cases hp : (pieces x y chunk).1 with
      | nil =>
          have hfree := pieces_fst_eq_nil hp
          have hfeed : feed x y carry chunk = ([], carry ++ chunk) := by
            simp [feed, pieces_of_free hfree]
          have htail : (pieces x y chunk).2 = chunk := by
            rw [pieces_of_free hfree]
          rw [stretches_cons_free hfree]
          simp only [writes, hfeed, htail, List.nil_append]
          by_cases hlen : carry.length + chunk.length ≤ bound
          · have hiff := ih (carry ++ chunk)
              (by rwa [List.length_append]) hrest
            rw [List.length_append] at hiff
            rw [← hiff]
            constructor
            · intro h
              exact ⟨hlen, fun t ht => h t (List.mem_append_right _ ht)⟩
            · rintro ⟨-, h⟩ t ht
              rcases List.mem_append.mp ht with ht | ht
              · split at ht
                · cases ht
                · rw [List.mem_singleton.mp ht, List.length_append]
                  exact hlen
              · exact h t ht
          · have hne : chunk ≠ [] := by
              rintro rfl
              exact hlen hcarry
            refine ⟨fun h => absurd (h (carry ++ chunk) ?_) ?_,
              fun h => absurd h.1 hlen⟩
            · simp [hne]
            · rwa [List.length_append]
      | cons p ps =>
          have hfeed : feed x y carry chunk =
              ((carry ++ p) :: ps, (pieces x y chunk).2) := by
            unfold feed
            cases hq : pieces x y chunk with
            | mk qs tail =>
                rw [hq] at hp
                simp only at hp
                subst hp
                rfl
          have htail := length_piece_le (x := x) (y := y) (l := chunk)
            (.inr rfl)
          have hps : ∀ t ∈ ps, t.length ≤ bound := fun t ht =>
            (length_piece_le (.inl (hp ▸ List.mem_cons_of_mem _ ht))).trans
              hchunk
          rw [stretches_cons_delim hp,
            ← ih (pieces x y chunk).2 (htail.trans hchunk) hrest]
          simp only [writes, hfeed]
          constructor
          · intro h
            constructor
            · have hpiece := h (carry ++ p) (by simp)
              rwa [List.length_append] at hpiece
            · intro t ht
              exact h t (List.mem_append_right _ ht)
          · rintro ⟨hpiece, h⟩ t ht
            rcases List.mem_append.mp ht with ht | ht
            · rcases List.mem_append.mp ht with ht | ht
              · rcases List.mem_cons.mp ht with rfl | ht
                · rwa [List.length_append]
                · exact hps t ht
              · split at ht
                · cases ht
                · rw [List.mem_singleton.mp ht]
                  exact htail.trans hchunk
            · exact h t ht

end ChatApp.Foundation.Delimited
