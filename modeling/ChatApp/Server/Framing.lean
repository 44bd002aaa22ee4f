import ChatApp.Server.Dispatch
import ChatApp.Server.Schedule
import Mathlib.Data.List.TakeWhile

/-!
# Framing

What `read_and_process_client_message` hands to `route_client_command` over a
series of received chunks.  The environment of the worker may do anything that
leaves the client's record alone.  The loop behaves as the reader of
`Foundation/Delimited.lean`, so its messages are the frames of the stream
exactly when no `recv` result ends between a CR and its LF, and its buffer is
large enough exactly when the unfinished tail is.
-/

namespace ChatApp.Server

open ChatApp.Foundation

variable {N C : Nat}

/-- The client's record is left alone. -/
def Keeps (c : ClientPtr N C) (s s' : State N C) : Prop :=
  s'.clients c = s.clients c

theorem Keeps.refl (c : ClientPtr N C) (s : State N C) : Keeps c s s := rfl

/-! ## Observations -/

/-- The message an event hands to `route_client_command`. -/
def routed? (c : ClientPtr N C) (e : Executed N C) :
    Option Bytes :=
  match e.action with
  | .routeMessage d =>
      if d = c then some (e.before.clients c).currentMsg else none
  | _ => none

/-- What `current_msg` holds after an event that appends to it. -/
def written? (c : ClientPtr N C) (e : Executed N C) :
    Option Bytes :=
  match e.action with
  | .strcatCurrentMsg d _ =>
      if d = c then some (e.after.clients c).currentMsg else none
  | _ => none

/-- The messages handed to `route_client_command`, in order. -/
def routedTo (c : ClientPtr N C) (steps : Steps N C) : List Bytes :=
  steps.filterMap (routed? c)

/-- What `current_msg` held after each `strcat`, in order. -/
def writtenTo (c : ClientPtr N C) (steps : Steps N C) : List Bytes :=
  steps.filterMap (written? c)

theorem routedTo_append (c : ClientPtr N C) (first second : Steps N C) :
    routedTo c (first ++ second) = routedTo c first ++ routedTo c second :=
  List.filterMap_append

theorem writtenTo_append (c : ClientPtr N C) (first second : Steps N C) :
    writtenTo c (first ++ second) = writtenTo c first ++ writtenTo c second :=
  List.filterMap_append

/-- Handlers neither hand over messages nor append to `current_msg`. -/
theorem handler_steps {c d : ClientPtr N C} {steps : Steps N C}
    (h : ∀ e ∈ steps, Act.ofHandler d e.action) :
    routedTo c steps = [] ∧ writtenTo c steps = [] := by
  constructor
  · apply List.filterMap_eq_nil_iff.mpr
    intro e he
    have ha := h e he
    cases hact : e.action <;>
      simp_all [routed?, Act.ofHandler, Act.ofCommand]
  · apply List.filterMap_eq_nil_iff.mpr
    intro e he
    have ha := h e he
    cases hact : e.action <;>
      simp_all [written?, Act.ofHandler, Act.ofCommand]

/-! ## One chunk -/

section Chunk

variable {c : ClientPtr N C} {s s' : State N C} {steps : Steps N C}

/-- `route_client_command` is handed the message in `current_msg`. -/
theorem exec_routeClientCommand {value : Unit}
    (h : Prog.Exec exec (Keeps c) (routeClientCommand c) s steps value s') :
    routedTo c steps = [(s.clients c).currentMsg] ∧
      writtenTo c steps = [] := by
  rw [routeClientCommand_eq] at h
  obtain ⟨s₁, self, s₂, rest, rfl, hkeep, he, hrest⟩ := Prog.Exec.act_inv h
  have hhandler := handler_steps (c := c)
    (Prog.Exec.mem_of_all hrest (all_dispatch c self))
  unfold Keeps at hkeep
  simp only [routedTo, writtenTo, List.filterMap_cons, routed?, written?,
    if_true, hkeep] at hhandler ⊢
  rw [hhandler.1, hhandler.2]
  exact ⟨rfl, rfl⟩

/-- The loop over one chunk, in step with the reader. -/
theorem exec_messageLoop (fuel : Nat) :
    ∀ (temp : Bytes) (s s' : State N C) (steps : Steps N C) (value : Unit),
      temp.length < fuel →
      Prog.Exec exec (Keeps c) (messageLoop c fuel temp) s steps value s' →
      routedTo c steps =
          (Delimited.feed cr lf (s.clients c).currentMsg temp).1 ∧
        writtenTo c steps =
          (Delimited.feed cr lf (s.clients c).currentMsg temp).1 ++
            (if (Delimited.pieces cr lf temp).2 = [] then []
              else [(Delimited.feed cr lf
                (s.clients c).currentMsg temp).2]) ∧
        (s'.clients c).currentMsg =
          (Delimited.feed cr lf (s.clients c).currentMsg temp).2 := by
  induction fuel with
  | zero => intro temp s s' steps value hfuel _; omega
  | succ fuel ih =>
      intro temp s s' steps value hfuel h
      unfold messageLoop at h
      cases hcut : strstrTerminator temp with
      | none =>
          have hfree := Delimited.pieces_of_free
            (Delimited.cut_eq_none.mp hcut)
          rw [feed_of_free hcut, hfree]
          simp only [hcut] at h
          by_cases htemp : temp = []
          · simp only [htemp, if_true] at h
            obtain ⟨-, rfl, hkeep⟩ := Prog.Exec.ret_inv h
            unfold Keeps at hkeep
            simp [htemp, routedTo, writtenTo, hkeep]
          · simp only [htemp, if_false] at h
            obtain ⟨s₁, _, s₂, rest, rfl, hkeep, he, hrest⟩ :=
              Prog.Exec.act_inv h
            obtain ⟨-, rfl, hkeep'⟩ := Prog.Exec.ret_inv hrest
            cases he
            unfold Keeps at hkeep hkeep'
            simp [htemp, routedTo, writtenTo, routed?, written?, hkeep',
              hkeep]
      | some out =>
          obtain ⟨piece, rest⟩ := out
          have hlen := Delimited.length_of_cut hcut
          have hpieces := Delimited.pieces_of_cut hcut
          rw [feed_of_cut hcut, hpieces]
          simp only [hcut] at h
          obtain ⟨s₁, _, s₂, steps₁, rfl, hkeep₁, he₁, h⟩ :=
            Prog.Exec.act_inv h
          have hloop : Prog.Exec exec (Keeps c)
              (routeClientCommand c >>= fun _ =>
                act (.clearCurrentMsg c) >>= fun _ =>
                  messageLoop c fuel rest) s₂ steps₁ value s' := h
          obtain ⟨first, second, _, s₃, rfl, hroute, h⟩ :=
            Prog.Exec.bind_inv (Keeps.refl c) hloop
          obtain ⟨s₄, _, s₅, steps₂, rfl, -, he₂, h⟩ := Prog.Exec.act_inv h
          have hrest := ih rest s₅ s' steps₂ value (by omega) h
          have hfirst := exec_routeClientCommand hroute
          cases he₁
          cases he₂
          unfold Keeps at hkeep₁
          simp only [Function.update_self] at hrest hfirst
          refine ⟨?_, ?_, hrest.2.2⟩
          · simp only [routedTo, List.filterMap_cons, List.filterMap_append,
              routed?] at hrest hfirst ⊢
            rw [hfirst.1, hrest.1, hkeep₁]
            rfl
          · simp only [writtenTo, List.filterMap_cons, List.filterMap_append,
              written?, if_true, Function.update_self] at hrest hfirst ⊢
            rw [hfirst.2, hrest.2.1, hkeep₁]
            simp

theorem cString_of_not_mem {bytes : Bytes} (h : 0 ∉ bytes) :
    cString bytes = bytes := by
  apply List.takeWhile_eq_self_iff.mpr
  intro b hb
  have hne : b ≠ 0 := fun hzero => h (hzero ▸ hb)
  simpa using hne

end Chunk

/-! ## Successive chunks -/

/-- The chunks of one connection handled one after the other.  Between them
and while they are handled the others may do anything that leaves the client's
record alone. -/
inductive Session (c : ClientPtr N C) :
    State N C → List Bytes → Steps N C → State N C → Prop
  | nil {s s' : State N C} : Keeps c s s' → Session c s [] [] s'
  | cons {s t s' : State N C} {chunk : Bytes} {rest : List Bytes}
      {first second : Steps N C} :
      Prog.Exec exec (Keeps c)
        (readAndProcessClientMessage c (.data chunk)) s first () t →
      Session c t rest second s' →
      Session c s (chunk :: rest) (first ++ second) s'

/-- Every series of chunks can be handled to its end. -/
theorem session_exists (c : ClientPtr N C) (chunks : List Bytes) :
    ∀ s, ∃ steps s', Session c s chunks steps s' := by
  induction chunks with
  | nil => intro s; exact ⟨[], s, .nil rfl⟩
  | cons chunk rest ih =>
      intro s
      obtain ⟨first, t, hfirst⟩ := exists_received (Keeps.refl c) c chunk s
      obtain ⟨second, s', hsecond⟩ := ih t
      exact ⟨first ++ second, s', .cons hfirst hsecond⟩

/-- What a series of chunks hands over, writes and leaves.  The string
functions see each chunk up to its first NUL. -/
theorem session_cString {c : ClientPtr N C} {s s' : State N C}
    {chunks : List Bytes} {steps : Steps N C}
    (h : Session c s chunks steps s') :
    routedTo c steps =
        (Delimited.feedAll cr lf (s.clients c).currentMsg
          (chunks.map cString)).1 ∧
      writtenTo c steps =
        Delimited.writes cr lf (s.clients c).currentMsg
          (chunks.map cString) ∧
      (s'.clients c).currentMsg =
        (Delimited.feedAll cr lf (s.clients c).currentMsg
          (chunks.map cString)).2 := by
  induction h with
  | nil hkeep =>
      unfold Keeps at hkeep
      exact ⟨rfl, rfl, by rw [hkeep]; rfl⟩
  | @cons s t s' chunk rest first second hexec hrest ih =>
      have hfirst := exec_messageLoop _ _ _ _ _ _
        (Nat.lt_succ_self _) hexec
      rw [hfirst.2.2] at ih
      rw [routedTo_append, writtenTo_append, hfirst.1, hfirst.2.1,
        ih.1, ih.2.1, ih.2.2]
      exact ⟨rfl, rfl, rfl⟩

/-- The same for chunks without a NUL. -/
theorem session_feed {c : ClientPtr N C} {s s' : State N C}
    {chunks : List Bytes} {steps : Steps N C}
    (h : Session c s chunks steps s') (hnul : ∀ chunk ∈ chunks, 0 ∉ chunk) :
    routedTo c steps =
        (Delimited.feedAll cr lf (s.clients c).currentMsg chunks).1 ∧
      writtenTo c steps =
        Delimited.writes cr lf (s.clients c).currentMsg chunks ∧
      (s'.clients c).currentMsg =
        (Delimited.feedAll cr lf (s.clients c).currentMsg chunks).2 := by
  have hchunks : chunks.map cString = chunks := by
    conv_rhs => rw [← List.map_id chunks]
    apply List.map_congr_left
    intro chunk hmem
    exact cString_of_not_mem (hnul chunk hmem)
  have hall := session_cString h
  rwa [hchunks] at hall

/-! ## Framing of a stream -/

/-- A stream a client may send, cut into results of `recv`. -/
structure StreamOk (chunks : List Bytes) : Prop where
  sizes : ∀ chunk ∈ chunks, ChunkOk chunk
  noNul : ∀ chunk ∈ chunks, 0 ∉ chunk
  frames : ∀ p ∈ (Delimited.pieces cr lf chunks.flatten).1,
    (p ++ msgTerminator).length ≤ maxMessageLenToServer
  noExit : ∀ p ∈ (Delimited.pieces cr lf chunks.flatten).1,
    command p ≠ cmdExit

instance (chunks : List Bytes) : Decidable (StreamOk chunks) :=
  decidable_of_iff
    ((∀ chunk ∈ chunks, ChunkOk chunk) ∧
      (∀ chunk ∈ chunks, 0 ∉ chunk) ∧
      (∀ p ∈ (Delimited.pieces cr lf chunks.flatten).1,
        (p ++ msgTerminator).length ≤ maxMessageLenToServer) ∧
      ∀ p ∈ (Delimited.pieces cr lf chunks.flatten).1, command p ≠ cmdExit)
    ⟨fun h => ⟨h.1, h.2.1, h.2.2.1, h.2.2.2⟩,
      fun h => ⟨h.sizes, h.noNul, h.frames, h.noExit⟩⟩

/-- The messages handed over are the frames of the stream, the unfinished
tail is kept, and `current_msg` is never written past its end. -/
structure FramesExactly (c : ClientPtr N C) (stream : Bytes)
    (steps : Steps N C) (s' : State N C) : Prop where
  routed : routedTo c steps = (Delimited.pieces cr lf stream).1
  rest : (s'.clients c).currentMsg = (Delimited.pieces cr lf stream).2
  fits : ∀ t ∈ writtenTo c steps, t.length < Buffer.currentMsg.size

/-- **Framing.**  The loop splits the stream exactly if and only if no `recv`
result ends between a CR and its LF and the unfinished tail fits
`current_msg`. -/
theorem framesExactly_iff {c : ClientPtr N C} {s s' : State N C}
    {chunks : List Bytes} {steps : Steps N C}
    (hsession : Session c s chunks steps s')
    (hstart : (s.clients c).currentMsg = []) (hstream : StreamOk chunks) :
    FramesExactly c chunks.flatten steps s' ↔
      Delimited.CutsClear cr lf [] chunks ∧
        (Delimited.pieces cr lf chunks.flatten).2.length <
          Buffer.currentMsg.size := by
  have hcrlf : cr ≠ lf := by decide
  obtain ⟨hrouted, hwritten, hrest⟩ := session_feed hsession hstream.noNul
  rw [hstart] at hrouted hwritten hrest
  constructor
  · intro h
    have hfeed : Delimited.feedAll cr lf [] chunks =
        Delimited.pieces cr lf chunks.flatten := by
      apply Prod.ext
      · rw [← hrouted, h.routed]
      · rw [← hrest, h.rest]
    refine ⟨(Delimited.feedAll_eq_pieces_iff hcrlf chunks).mp hfeed, ?_⟩
    have htail := Delimited.feedAll_snd_length_le (x := cr) (y := lf)
      (Buffer.currentMsg.size - 1) chunks [] (Nat.zero_le _) fun t ht => by
        have hfits := h.fits t (hwritten ▸ ht)
        omega
    rw [hfeed] at htail
    have hsize : 0 < Buffer.currentMsg.size := by decide
    omega
  · rintro ⟨hcuts, htail⟩
    have hfeed := (Delimited.feedAll_eq_pieces_iff hcrlf chunks).mpr hcuts
    rw [hfeed] at hrouted hrest
    refine ⟨hrouted, hrest, ?_⟩
    intro t ht
    have hbound := Delimited.writes_length_le hcrlf
      (Buffer.currentMsg.size - 1) chunks [] hcuts
      (fun p hp => by
        have hlen := hstream.frames p hp
        rw [List.length_append] at hlen
        have hsize : maxMessageLenToServer ≤ Buffer.currentMsg.size - 1 := by
          decide
        omega)
      (by rw [List.nil_append]; omega)
    have hle := hbound t (hwritten ▸ ht)
    have hsize : 0 < Buffer.currentMsg.size := by decide
    omega

/-- A username cut in the middle. -/
theorem framesExactly_bob : ∃ (s s' : RealState) (steps : Steps _ _),
    play (State.init _ _) (connects 0) = some s ∧
      Session (clientOf 0) s [text "\x02 bo", text "b\r\n"] steps s' ∧
      FramesExactly (clientOf 0) (text "\x02 bob\r\n") steps s' := by
  have hplay : (play (State.init maxThreads maxClientsPerThread)
      (connects 0)).map (fun s => (s.clients (clientOf 0)).currentMsg) =
        some [] := by decide +kernel
  obtain ⟨s, hs, hempty⟩ := Option.map_eq_some_iff.mp hplay
  obtain ⟨steps, s', h⟩ := session_exists (clientOf 0)
    [text "\x02 bo", text "b\r\n"] s
  exact ⟨s, s', steps, hs, h,
    (framesExactly_iff h hempty (by decide)).mpr (by decide)⟩

/-- Cut between its CR and its LF, the frame is never handed over. -/
theorem not_framesExactly_cut : ¬ ∀ (s s' : RealState) (steps : Steps _ _)
    (c : ClientPtr _ _) (chunks : List Bytes) (ls : List (Step _ _)),
    (server _ _).Run LiveOk (Configuration.init _ _) ls (quiet s) →
      (s.clients c).inUse = true → (s.clients c).currentMsg = [] →
      StreamOk chunks → Session c s chunks steps s' →
      FramesExactly c chunks.flatten steps s' := by
  intro hall
  have hplay : (play (State.init maxThreads maxClientsPerThread)
      (connects 0)).map (fun s => ((s.clients (clientOf 0)).inUse,
        (s.clients (clientOf 0)).currentMsg)) =
        some (true, []) := by decide +kernel
  obtain ⟨s, hs, hstart⟩ := Option.map_eq_some_iff.mp hplay
  obtain ⟨hlive, hempty⟩ := Prod.mk.inj hstart
  obtain ⟨ls, hrun⟩ := play_live hs
  obtain ⟨steps, s', h⟩ := session_exists (clientOf 0)
    [text "\x02 bob\r", text "\n"] s
  have hframes := hall s s' steps _ _ ls hrun hlive hempty (by decide) h
  have hrouted := (session_feed h (by decide)).1
  rw [hframes.routed, hempty] at hrouted
  revert hrouted
  decide

end ChatApp.Server
