import ChatApp.Server.Framing
import ChatApp.Server.Replies
import ChatApp.Server.Texts

/-!
# What can be forged in a frame

A receiver takes CR LF for the end of a frame.  The texts that clients choose
are set between the templates of the source, and a template can complete a
terminator: the line feed behind a room name does.  `unforged_run` says which
messages the server may be handed so that no frame holds a terminator but its
own, and which cuts of the input hand it others.
-/

namespace ChatApp.Server

open ChatApp.Foundation

variable {N C : Nat}

/-! ## Frames on a connection -/

/-- The bytes sent to a connection. -/
def streamTo (q : Conn) (calls : List SysCall) : Bytes :=
  (framesTo q calls).flatMap fun f => frame f.1 f.2

/-- The two answers of the main thread whose text ends in a terminator of its
own.  No client chooses anything in them. -/
def terminatedAnswers : List (UInt8 × Bytes) :=
  [(errServerFull, capacityErrMsg), (errConnecting, connectionErrorMsg)]

/-- What a receiver finds when it splits a frame at CR LF. -/
def payloads (f : UInt8 × Bytes) : List Bytes :=
  if f ∈ terminatedAnswers then (Delimited.pieces cr lf (frame f.1 f.2)).1
  else [f.1 :: space :: f.2]

/-- CR LF stands in frames as their last two bytes only, and splitting what a
connection is sent at CR LF gives the commands and texts back. -/
structure Unforged (s : State N C) : Prop where
  frames : ∀ fd conn cmd msg, SysCall.send fd conn cmd msg ∈ s.calls →
    (cmd, msg) ∉ terminatedAnswers →
    Delimited.Free cr lf (cmd :: space :: msg ++ [cr])
  split : ∀ q, Delimited.pieces cr lf (streamTo q s.calls) =
    ((framesTo q s.calls).flatMap payloads, [])

theorem mem_framesTo {q : Conn} {calls : List SysCall} {f : UInt8 × Bytes}
    (h : f ∈ framesTo q calls) :
    ∃ fd, SysCall.send fd (some q) f.1 f.2 ∈ calls := by
  obtain ⟨call, hcall, hf⟩ := List.mem_filterMap.mp h
  cases call with
  | send fd conn cmd msg =>
      cases conn with
      | none => cases hf
      | some q' =>
          by_cases hq : q' = q
          · simp only [SysCall.frameTo, if_pos hq, Option.some.injEq] at hf
            subst hf hq
            exact ⟨fd, hcall⟩
          · simp only [SysCall.frameTo, if_neg hq] at hf
            cases hf
  | close fd => cases hf
  | epollAdd w fd => cases hf
  | epollDel w fd => cases hf

/-- The command byte and the space complete no terminator. -/
theorem free_head {cmd : UInt8} {msg : Bytes} :
    Delimited.Free cr lf (cmd :: space :: msg) ↔
      Delimited.Free cr lf msg := by
  have hlf : space ≠ lf := by decide
  have hcr : space ≠ cr := by decide
  rw [Delimited.free_cons_cons]
  constructor
  · rintro ⟨-, h⟩
    exact Delimited.Free.right (l := [space]) h
  · intro h
    refine ⟨fun hlf' => hlf hlf'.2, ?_⟩
    refine Delimited.free_glue (l := [space]) (Delimited.free_singleton _) h ?_
    intro hst
    exact hcr (Option.some.inj hst.1)

/-- A frame is its payloads, each with a terminator, and they hold none. -/
theorem payloads_frame {f : UInt8 × Bytes}
    (h : f ∈ terminatedAnswers ∨ Delimited.Free cr lf f.2) :
    Delimited.join cr lf (payloads f) = frame f.1 f.2 ∧
      ∀ p ∈ payloads f, Delimited.Free cr lf p := by
  have hend : ∀ f ∈ terminatedAnswers,
      (Delimited.pieces cr lf (frame f.1 f.2)).2 = [] := by decide +kernel
  unfold payloads
  split
  · rename_i hf
    have hjoin := Delimited.join_pieces (x := cr) (y := lf) (frame f.1 f.2)
    rw [hend f hf, List.append_nil] at hjoin
    exact ⟨hjoin, (Delimited.pieces_free _).1⟩
  · rename_i hf
    refine ⟨by rw [Delimited.join_cons, Delimited.join_nil]; rfl, ?_⟩
    intro p hp
    rw [List.mem_singleton.mp hp]
    exact free_head.mpr (h.resolve_left hf)

/-- The payloads of many frames. -/
theorem join_payloads {fs : List (UInt8 × Bytes)}
    (h : ∀ f ∈ fs, f ∈ terminatedAnswers ∨ Delimited.Free cr lf f.2) :
    Delimited.join cr lf (fs.flatMap payloads) =
      fs.flatMap fun f => frame f.1 f.2 := by
  induction fs with
  | nil => rfl
  | cons f fs ih =>
      have hrest := ih fun g hg => h g (List.mem_cons_of_mem _ hg)
      rw [List.flatMap_cons, List.flatMap_cons, Delimited.join_append, hrest,
        (payloads_frame (h f List.mem_cons_self)).1]

/-- Frames around texts without a terminator. -/
theorem unforged_of_free {s : State N C}
    (h : ∀ fd conn cmd msg, SysCall.send fd conn cmd msg ∈ s.calls →
      (cmd, msg) ∈ terminatedAnswers ∨ Delimited.Free cr lf msg) :
    Unforged s := by
  have hcrlf : cr ≠ lf := by decide
  constructor
  · intro fd conn cmd msg hmem hnot
    have hfree := (h fd conn cmd msg hmem).resolve_left hnot
    exact Delimited.free_snoc hcrlf (free_head.mpr hfree)
  · intro q
    have hframes : ∀ f ∈ framesTo q s.calls,
        f ∈ terminatedAnswers ∨ Delimited.Free cr lf f.2 := by
      intro f hf
      obtain ⟨fd, hsend⟩ := mem_framesTo hf
      exact h fd _ _ _ hsend
    have hfree : ∀ p ∈ (framesTo q s.calls).flatMap payloads,
        Delimited.Free cr lf p := by
      intro p hp
      obtain ⟨f, hf, hpf⟩ := List.mem_flatMap.mp hp
      exact (payloads_frame (hframes f hf)).2 p hpf
    have hpieces := Delimited.pieces_unique hcrlf hfree
      (Delimited.free_nil (x := cr) (y := lf))
    rwa [List.append_nil, join_payloads hframes] at hpieces

/-! ## Templates -/

theorem roomCreatedText_free {n : Bytes} :
    Delimited.Free cr lf (roomCreatedText n) ↔
      Delimited.Free cr lf n ∧ n.getLast? ≠ some cr := by
  have hst : Delimited.Straddles cr lf n (text "\n") ↔ n.getLast? = some cr :=
    ⟨And.left, fun h => ⟨h, rfl⟩⟩
  unfold roomCreatedText
  rw [Delimited.free_between (by decide +kernel) (by decide +kernel)
    (by decide +kernel), hst]

theorem roomEntryText_free {i : Fin maxRooms} {n : Bytes} :
    Delimited.Free cr lf (roomEntryText i n) ↔
      Delimited.Free cr lf n ∧ n.getLast? ≠ some cr := by
  have hbefore : ∀ i : Fin maxRooms,
      Delimited.Free cr lf (text "Room " ++ decimal i ++ text ": ") ∧
        (text "Room " ++ decimal i ++ text ": ").getLast? ≠ some cr := by
    decide +kernel
  have hst : Delimited.Straddles cr lf n (text "\n") ↔ n.getLast? = some cr :=
    ⟨And.left, fun h => ⟨h, rfl⟩⟩
  unfold roomEntryText
  rw [Delimited.free_between (hbefore i).1 (by decide +kernel) (hbefore i).2,
    hst]

/-- A template that only follows the text. -/
theorem free_followed {n after : Bytes} (hafter : Delimited.Free cr lf after)
    (hhead : after.head? ≠ some lf) :
    Delimited.Free cr lf (n ++ after) ↔ Delimited.Free cr lf n := by
  have h := Delimited.free_between (l := n) Delimited.free_nil hafter
    (by rintro ⟨⟩)
  rw [List.nil_append] at h
  rw [h, and_iff_left]
  exact fun hst => hhead hst.2

theorem clientRoomJoinText_free {n : Bytes} :
    Delimited.Free cr lf (clientRoomJoinText n) ↔ Delimited.Free cr lf n :=
  free_followed (by decide +kernel) (by decide +kernel)

theorem clientLeftText_free {n : Bytes} :
    Delimited.Free cr lf (clientLeftText n) ↔ Delimited.Free cr lf n :=
  free_followed (by decide +kernel) (by decide +kernel)

theorem chatText_free {name line : Bytes} :
    Delimited.Free cr lf (chatText name line) ↔
      Delimited.Free cr lf name ∧ Delimited.Free cr lf line := by
  constructor
  · intro h
    exact ⟨h.left.left, h.right⟩
  · rintro ⟨hname, hline⟩
    have hcolon : Delimited.Free cr lf (name ++ text ": ") :=
      (free_followed (by decide +kernel) (by decide +kernel)).mpr hname
    apply Delimited.free_glue hcolon hline
    rintro ⟨hlast, -⟩
    have hspace : (text ": ").getLast? = some space := rfl
    rw [List.getLast?_append, hspace] at hlast
    cases hlast

/-! ## Texts that clients choose -/

/-- The text of an accepted message that is kept or passed on holds no CR LF,
and a room name does not end in CR. -/
structure TextClean (record : Client) : Prop where
  username : Accepted record .awaitingUsername cmdUsernameSubmit →
    (content record.currentMsg).length ≤ maxUsernameLen →
    Delimited.Free cr lf (content record.currentMsg)
  roomName : Accepted record .inChatLobby cmdRoomCreateRequest →
    (content record.currentMsg).length ≤ maxRoomNameLen →
    Delimited.Free cr lf (content record.currentMsg) ∧
      (content record.currentMsg).getLast? ≠ some cr
  line : Accepted record .inChatRoom cmdRoomMessageSend →
    Delimited.Free cr lf (content record.currentMsg)

instance (record : Client) (state : ClientState) (cmd : UInt8) :
    Decidable (Accepted record state cmd) :=
  decidable_of_iff
    (refusal record = none ∧ record.state = state ∧
      command record.currentMsg = cmd)
    ⟨fun h => ⟨h.1, h.2.1, h.2.2⟩, fun h => ⟨h.valid, h.state, h.command⟩⟩

instance (record : Client) : Decidable (TextClean record) :=
  decidable_of_iff _
    ⟨fun h => ⟨h.1, h.2.1, h.2.2⟩,
      fun h => And.intro h.username (And.intro h.roomName h.line)⟩

/-- Only clean texts are handed to `route_client_command`. -/
def CleanOk (s : State N C) (l : Step N C) : Prop :=
  EventOk s l ∧
    ∀ t c, l = .act t (.routeMessage c) → TextClean (s.clients c)

theorem fixedAnswers_free : ∀ answer ∈ fixedAnswers,
    answer ∈ terminatedAnswers ∨ Delimited.Free cr lf answer.2 := by
  unfold fixedAnswers terminatedAnswers welcomeText capacityErrMsg
    connectionErrorMsg
  simp only [text_append]
  repeat rw [text_ofList]
  decide +kernel

/-- No text holds a terminator. -/
def cleanPolicy (N C : Nat) : TextPolicy N C CleanOk where
  Name n := Delimited.Free cr lf n
  RoomName n := Delimited.Free cr lf n ∧ n.getLast? ≠ some cr
  Listing msg := Delimited.Free cr lf msg
  Sent cmd msg := (cmd, msg) ∈ terminatedAnswers ∨ Delimited.Free cr lf msg
  Built _ _ := True
  live _ _ h := h.1
  noName := Delimited.free_nil
  submitted s t c hok hr hlen := (hok.2 t c rfl).username hr hlen
  requested s t c hok hr := by
    refine ⟨trivial, fun hlen => ?_⟩
    have hname := (hok.2 t c rfl).roomName hr hlen
    exact ⟨hname, .inr (roomCreatedText_free.mpr hname)⟩
  said s t c hok hr hname :=
    ⟨trivial, .inr (chatText_free.mpr ⟨hname, (hok.2 t c rfl).line hr⟩)⟩
  nameBuilt _ _ := trivial
  roomNameBuilt _ _ := trivial
  joined n h := ⟨trivial, .inr (clientRoomJoinText_free.mpr h)⟩
  left n h := ⟨trivial, trivial, .inr (clientLeftText_free.mpr h)⟩
  header := by decide +kernel
  entry s t i msg _ hlist _ hname := by
    refine ⟨?_, trivial, trivial⟩
    apply Delimited.free_glue hlist (roomEntryText_free.mpr hname)
    rintro ⟨-, hhead⟩
    exact absurd (show some (82 : UInt8) = some lf from hhead) (by decide)
  listed _ h := .inr h
  noRooms := ⟨trivial, .inr (by decide +kernel)⟩
  frame _ _ _ := trivial
  currentMsg _ := trivial
  fixed := fixedAnswers_free

/-- What a client's chunks hand over is free of CR LF if and only if no `recv`
result ends between a CR and its LF. -/
theorem routedTo_free_iff {c : ClientPtr N C} {s s' : State N C}
    {chunks : List Bytes} {steps : Steps N C}
    (h : Session c s chunks steps s')
    (hcarry : Delimited.Free cr lf (s.clients c).currentMsg) :
    ((∀ msg ∈ routedTo c steps, Delimited.Free cr lf msg) ∧
        Delimited.Free cr lf (s'.clients c).currentMsg) ↔
      Delimited.CutsClear cr lf (s.clients c).currentMsg
        (chunks.map cString) := by
  obtain ⟨hrouted, -, hrest⟩ := session_cString h
  rw [hrouted, hrest]
  exact Delimited.feedAll_free_iff (by decide) hcarry _

/-- **Frames cannot be forged** in a run in which every accepted username, room
name and line that is handed over is clean; and the messages of a client hold
no CR LF exactly when no `recv` result cuts one. -/
theorem unforged_run [NeZero N] :
    (∀ (ls : List (Step N C)) (k : Configuration N C),
      (server N C).Run CleanOk (Configuration.init N C) ls k →
      Unforged k.shared) ∧
    ∀ (c : ClientPtr N C) (s s' : State N C) (chunks : List Bytes)
      (steps : Steps N C), Session c s chunks steps s' →
      Delimited.Free cr lf (s.clients c).currentMsg →
      (((∀ msg ∈ routedTo c steps, Delimited.Free cr lf msg) ∧
          Delimited.Free cr lf (s'.clients c).currentMsg) ↔
        Delimited.CutsClear cr lf (s.clients c).currentMsg
          (chunks.map cString)) := by
  constructor
  · intro ls k hrun
    exact unforged_of_free (texts_run (p := cleanPolicy N C) hrun).sent
  · intro c s s' chunks steps h hcarry
    exact routedTo_free_iff h hcarry

/-- The actions, without the messages that are not clean. -/
def execClean (a : Act N C) (s : State N C) : Option (a.Answer × State N C) :=
  match a with
  | .routeMessage c =>
      if TextClean (s.clients c) then exec (.routeMessage c) s else none
  | a => exec a s

theorem exec_of_execClean {a : Act N C} {s : State N C}
    {out : a.Answer × State N C} (h : execClean a s = some out)
    (t : Thread N) : exec a s = some out ∧ CleanOk s (.act t a) := by
  unfold execClean at h
  split at h
  · split at h
    · rename_i hclean
      refine ⟨h, trivial, ?_⟩
      intro t' c hl
      cases hl
      exact hclean
    · cases h
  · rename_i hroute
    refine ⟨h, trivial, ?_⟩
    intro t' c hl
    cases hl
    exact absurd rfl (hroute c)

/-- One client opens a room, a second one joins it and speaks. -/
theorem unforged_bob : ∃ s : RealState,
    playBy execClean (State.init _ _)
        (opensRoom 0 (text "bob") (text "den") ++ connects 1 ++
          [sends 1 (frame cmdUsernameSubmit (text "eve")),
            sends 1 (frame cmdRoomJoinRequest (text "0")),
            sends 1 (frame cmdRoomMessageSend (text "hi\r"))]) = some s ∧
      (cmdRoomMsg, text "eve: hi\r") ∈ framesTo 0 s.calls ∧ Unforged s ∧
      ∃ steps s', Session (clientOf 1) s [text "\x08 a", text "b\r\n"] steps
          s' ∧
        ∀ msg ∈ routedTo (clientOf 1) steps, Delimited.Free cr lf msg := by
  have hplay : (playBy execClean (State.init maxThreads maxClientsPerThread)
      (opensRoom 0 (text "bob") (text "den") ++ connects 1 ++
        [sends 1 (frame cmdUsernameSubmit (text "eve")),
          sends 1 (frame cmdRoomJoinRequest (text "0")),
          sends 1 (frame cmdRoomMessageSend (text "hi\r"))])).map
        (fun s => (decide ((cmdRoomMsg, text "eve: hi\r") ∈ framesTo 0 s.calls),
          (s.clients (clientOf 1)).currentMsg)) = some (true, []) := by
    decide +kernel
  obtain ⟨s, hs, hend⟩ := Option.map_eq_some_iff.mp hplay
  obtain ⟨hframe, hempty⟩ := Prod.mk.inj hend
  obtain ⟨ls, hrun⟩ := playBy_run
    (fun t _ _ _ he => exec_of_execClean he t)
    (fun _ _ _ hok => ⟨(liveOk_of_startOk hok).1, fun _ _ hl => by cases hl⟩)
    _ hs
  obtain ⟨steps, s', h⟩ := session_exists (clientOf 1)
    [text "\x08 a", text "b\r\n"] s
  have hunforged := unforged_run (N := maxThreads) (C := maxClientsPerThread)
  have hcuts := (hunforged.2 _ s s' _ steps h
    (by rw [hempty]; exact Delimited.free_nil)).mpr
      (by rw [hempty]; decide +kernel)
  exact ⟨s, hs, of_decide_eq_true hframe, hunforged.1 ls _ hrun, steps, s', h,
    hcuts.1⟩

/-- Bytes without a NUL, in chunks of any size. -/
def BytesOk (s : State N C) (l : Step N C) : Prop :=
  LiveOk s l ∧ ∀ t c bytes, l = .start t (.receive c (.data bytes)) → 0 ∉ bytes

/-- The decidable form of `BytesOk` for the start of a job. -/
def bytesStartOk (s : State N C) (t : Thread N) (j : Job N C) : Bool :=
  startOk s t j &&
    match j with
    | .receive _ (.data bytes) => decide (0 ∉ bytes)
    | _ => true

theorem bytes_run {jobs : List (Thread N × Job N C)} {s s' : State N C}
    (h : (server N C).play execReads bytesStartOk s jobs = some s') :
    ∃ ls, (server N C).Run BytesOk (quiet s) ls (quiet s') := by
  have hexec : ∀ (t : Thread N) (a : Act N C) (s : State N C) out,
      execReads a s = some out → exec a s = some out ∧ BytesOk s (.act t a) :=
    fun t a s out he => ⟨(exec_of_execReads he t).1,
      (exec_of_execReads he t).2.1, fun _ _ _ hl => by cases hl⟩
  have hstart : ∀ (s : State N C) t j, bytesStartOk s t j = true →
      BytesOk s (.start t j) := by
    intro s t j hok
    obtain ⟨hlive, hnul⟩ := Bool.and_eq_true_iff.mp hok
    refine ⟨liveOk_of_startOk hlive, ?_⟩
    intro t' c bytes hl
    cases hl
    exact of_decide_eq_true hnul
  exact System.play_run hexec hstart jobs h

/-- A line whose CR and LF come in two results of `recv`, and behind the LF a
`CMD_ROOM_LEAVE_OK` for the other client. -/
def forgery : List (Thread maxThreads × Job maxThreads maxClientsPerThread) :=
  opensRoom 0 (text "bob") (text "den") ++ connects 1 ++
    [sends 1 (frame cmdUsernameSubmit (text "eve")),
      sends 1 (frame cmdRoomJoinRequest (text "0")),
      sends 1 (cmdRoomMessageSend :: text " hi\r"),
      sends 1 (lf :: frame cmdRoomLeaveOk (text "bye"))]

/-- The other client is told by the server that it has left the room. -/
theorem not_unforged_cut : ¬ ∀ (ls : List (Step _ _))
    (k : Configuration maxThreads maxClientsPerThread),
    (server _ _).Run BytesOk (Configuration.init _ _) ls k →
      Unforged k.shared := by
  intro hall
  have hplay : ((server maxThreads maxClientsPerThread).play execReads
      bytesStartOk (State.init _ _) forgery).map (fun s =>
        decide (cmdRoomLeaveOk :: space :: text "bye" ∈
          (Delimited.pieces cr lf (streamTo 0 s.calls)).1) &&
        decide (cmdRoomLeaveOk :: space :: text "bye" ∉
          (framesTo 0 s.calls).flatMap payloads)) = some true := by
    decide +kernel
  obtain ⟨s, hs, hforged⟩ := Option.map_eq_some_iff.mp hplay
  simp only [Bool.and_eq_true, decide_eq_true_eq] at hforged
  obtain ⟨ls, hrun⟩ := bytes_run hs
  have hsplit : Delimited.pieces cr lf (streamTo 0 s.calls) =
      ((framesTo 0 s.calls).flatMap payloads, []) := (hall ls _ hrun).split 0
  rw [hsplit] at hforged
  exact hforged.2 hforged.1

end ChatApp.Server
