import ChatApp.Client.Agreement
import ChatApp.Client.Threads

/-!
# Each thread as if it were alone

The threads of the client share two flags, but each writes what the other only
reads.  So whatever the interleaving, `receive_message` leaves `is_in_room` and
its share of the windows as the results of `recv` do one after the other
(`received_run`), and what `handle_user_input` sends are the frames of some of
the lines typed, in order, which a server splits as they were sent
(`stream_run`).
-/

namespace ChatApp.Client

open ChatApp.Foundation ChatApp.Server

/-! ## The receiving thread -/

/-- What `parse_server_msg` does to the variables, and what it displays. -/
theorem parseServerMsg_seen (app : App) (buffer : Bytes) :
    parseServerMsg app buffer =
      { app with
        isInRoom := (mode? (buffer.headD 0)).getD app.isInRoom
        displayed := app.displayed ++
          (parseServerMsg (App.seen true false) buffer).displayed } := by
  unfold parseServerMsg
  dsimp only
  generalize buffer.headD 0 = code
  split
  case isTrue hcode =>
    subst hcode
    rfl
  split
  case isTrue hcode =>
    subst hcode
    rfl
  split
  case isTrue hcode =>
    subst hcode
    rfl
  split
  case isTrue hcode =>
    subst hcode
    rfl
  split
  case isTrue hcode =>
    subst hcode
    rfl
  split
  case isTrue hcode =>
    subst hcode
    rfl
  case isFalse hwelcome hcreate hlist hjoin hmsg hleave =>
    have hmode : mode? code = none := by
      unfold mode?
      rw [if_neg (not_or.mpr ⟨hcreate, hjoin⟩), if_neg hleave]
    rw [hmode]
    rfl

/-- What the receiving thread owns is as if it had received alone. -/
def ReceivedAlone (v : ClientView .receiveMessage) : Prop :=
  v.2 = ((receiveAll App.init v.1).isInRoom,
    (receiveAll App.init v.1).displayed)

theorem safe_displayAll {α : Type} {Q : α → ClientView .receiveMessage → Prop}
    {k : Unit → ClientProg α} (strings : List (Window × Bytes)) :
    ∀ v : ClientView .receiveMessage,
      clientOwners.Safe .receiveMessage Q (k ())
        (v.1, v.2.1, v.2.2 ++ strings) →
      clientOwners.Safe .receiveMessage Q
        (displayAll .receiveMessage strings >>= k) v := by
  induction strings with
  | nil =>
      intro v h
      rwa [List.append_nil] at h
  | cons d strings ih =>
      intro v h
      refine safe_own rfl fun _ => ih _ ?_
      show clientOwners.Safe .receiveMessage Q (k ())
        (v.1, v.2.1, v.2.2 ++ [d] ++ strings)
      rwa [List.append_assoc]

theorem safe_receiveMessage (result : Option Bytes)
    {v : ClientView .receiveMessage} (h : ReceivedAlone v) :
    clientOwners.Safe .receiveMessage (fun _ => ReceivedAlone)
      (receiveMessageCode result) v := by
  refine safe_own trivial fun isRunning => ?_
  cases isRunning with
  | false => exact safe_own rfl fun _ => h
  | true =>
      cases result with
      | none => exact safe_own trivial fun _ => h
      | some buffer =>
          refine safe_own rfl fun _ => ?_
          obtain ⟨received, isInRoom, shown⟩ := v
          obtain ⟨hflag, hshown⟩ := Prod.mk.inj h
          have hall : receiveAll App.init (received ++ [buffer]) =
              receiveMessage (receiveAll App.init received) buffer := by
            simp [receiveAll]
          by_cases hempty : buffer = []
          · subst hempty
            refine safe_own rfl fun _ => safe_own rfl fun _ =>
              safe_own trivial fun _ => safe_own trivial fun _ =>
                safe_own rfl fun _ => ?_
            show ReceivedAlone _
            unfold ReceivedAlone
            simp only [ClientAct.effect, hall, hflag, hshown]
            simp [receiveMessage, exitClient, uiMsgDisplay]
          · show clientOwners.Safe _ _ (if buffer = [] then _ else _) _
            rw [if_neg hempty]
            refine safe_displayAll _ _ ?_
            have hdone : receiveAll App.init (received ++ [buffer]) =
                parseServerMsg (receiveAll App.init received) buffer := by
              rw [hall, receiveMessage, if_neg hempty]
            rw [parseServerMsg_seen, ← hshown, ← hflag] at hdone
            cases hmode : mode? (buffer.headD 0) with
            | none =>
                show ReceivedAlone _
                unfold ReceivedAlone
                simp only [ClientAct.effect, hdone, hmode, Option.getD]
            | some state =>
                refine safe_own rfl fun _ => ?_
                show ReceivedAlone _
                unfold ReceivedAlone
                simp only [ClientAct.effect, hdone, hmode, Option.getD]

/-! ## The sending thread -/

/-- What `send_command` makes of a line while the client is running. -/
def SentFor (line message : Bytes) : Prop :=
  ∃ isInRoom cmd₀ arg₀, (sendCommand (App.seen true isInRoom)
    (line.takeWhile (· ≠ lf)) cmd₀ arg₀).1 = some message

/-- What `wgetnstr` can store. -/
def LineRead (line : Bytes) : Prop :=
  0 ∉ line ∧ line.length ≤ maxContentLen

/-- After `first`, strings have been sent for some of the lines typed, in
order. -/
structure SentAlone (first : Bytes) (v : ClientView .handleUserInput) :
    Prop where
  lines : ∀ line ∈ v.1, LineRead line
  sent : ∃ lines messages, lines.Sublist v.1 ∧ v.2 = first :: messages ∧
    List.Forall₂ SentFor lines messages

theorem SentAlone.type {first line : Bytes}
    {v : ClientView .handleUserInput} (h : SentAlone first v)
    (hline : LineRead line) : SentAlone first (v.1 ++ [line], v.2) := by
  obtain ⟨lines, messages, hsub, hsent, hall⟩ := h.sent
  refine ⟨fun l hl => ?_, lines, messages, ?_, hsent, hall⟩
  · rcases List.mem_append.mp hl with hl | hl
    · exact h.lines l hl
    · rwa [List.mem_singleton.mp hl]
  · exact hsub.trans (List.sublist_append_left _ _)

theorem SentAlone.send {first line message : Bytes}
    {v : ClientView .handleUserInput} (h : SentAlone first v)
    (hline : LineRead line) (hmessage : SentFor line message) :
    SentAlone first (v.1 ++ [line], v.2 ++ [message]) := by
  obtain ⟨lines, messages, hsub, hsent, hall⟩ := h.sent
  refine ⟨(h.type hline).lines, lines ++ [line], messages ++ [message], ?_, ?_,
    ?_⟩
  · exact hsub.append (List.Sublist.refl _)
  · rw [hsent, List.cons_append]
  · exact List.rel_append hall (.cons hmessage .nil)

section Input

variable {α : Type} {Q : α → ClientView .handleUserInput → Prop}
  {k : Unit → ClientProg α} {v : ClientView .handleUserInput}

theorem safe_displayInput (strings : List (Window × Bytes))
    (h : clientOwners.Safe .handleUserInput Q (k ()) v) :
    clientOwners.Safe .handleUserInput Q
      (displayAll .handleUserInput strings >>= k) v := by
  induction strings with
  | nil => exact h
  | cons d strings ih => exact safe_own rfl fun _ => ih

/-- While the client is not running nothing is sent. -/
theorem sendCommand_stopped (isInRoom : Bool) (message cmd₀ arg₀ : Bytes) :
    (sendCommand (App.seen false isInRoom) message cmd₀ arg₀).1 = none := by
  unfold sendCommand
  split
  · rfl
  · rfl

theorem safe_sendCommand {line : Bytes} (cmd₀ arg₀ : Bytes) (sendOk : Bool)
    (h : clientOwners.Safe .handleUserInput Q (k ()) v)
    (hsent : ∀ message, SentFor line message →
      clientOwners.Safe .handleUserInput Q (k ()) (v.1, v.2 ++ [message])) :
    clientOwners.Safe .handleUserInput Q
      (sendCommandCode (line.takeWhile (· ≠ lf)) cmd₀ arg₀ sendOk >>= k)
      v := by
  unfold sendCommandCode
  split
  case isTrue => exact safe_displayInput _ h
  case isFalse =>
    refine safe_own trivial fun isRunning => ?_
    cases isRunning with
    | false =>
        show clientOwners.Safe .handleUserInput Q ((displayAll _ _ >>= fun _ =>
          sendFormatted (sendCommand (App.seen false false) _ cmd₀ arg₀).1
            sendOk) >>= k) v
        rw [sendCommand_stopped, Prog.bind_assoc]
        exact safe_displayInput _ h
    | true =>
        refine safe_own trivial fun isInRoom => ?_
        show clientOwners.Safe .handleUserInput Q ((displayAll _ _ >>= fun _ =>
          sendFormatted (sendCommand (App.seen true isInRoom) _ cmd₀ arg₀).1
            sendOk) >>= k) v
        rw [Prog.bind_assoc]
        refine safe_displayInput _ ?_
        cases hout : (sendCommand (App.seen true isInRoom)
            (line.takeWhile (· ≠ lf)) cmd₀ arg₀).1 with
        | none => exact h
        | some message =>
            cases sendOk with
            | true => exact safe_own rfl fun _ => hsent _ ⟨_, _, _, hout⟩
            | false => exact safe_own trivial fun _ => h

end Input

theorem safe_handleUserInput {first : Bytes} {read : Option Bytes}
    (cmd₀ arg₀ : Bytes) (sendOk : Bool)
    (hread : ∀ line, read = some line → LineRead line)
    {v : ClientView .handleUserInput} (h : SentAlone first v) :
    clientOwners.Safe .handleUserInput (fun _ => SentAlone first)
      (handleUserInput read cmd₀ arg₀ sendOk) v := by
  refine safe_own trivial fun isRunning => ?_
  cases isRunning with
  | false => exact safe_own rfl fun _ => h
  | true =>
      cases read with
      | none => exact safe_own rfl fun _ => safe_own rfl fun _ => h
      | some line =>
          have hline := hread line rfl
          have htyped := h.type hline
          have hsend : ∀ message, SentFor line message →
              SentAlone first (v.1 ++ [line], v.2 ++ [message]) :=
            fun message => h.send hline
          refine safe_own rfl fun _ => ?_
          show clientOwners.Safe .handleUserInput _ (if _ then _ else _)
            (v.1 ++ [line], v.2)
          split
          · exact safe_own rfl fun _ => htyped
          split
          · have hexit : ∀ {w : ClientView .handleUserInput},
                SentAlone first w →
                clientOwners.Safe .handleUserInput (fun _ => SentAlone first)
                  (exitClientCode .handleUserInput >>= fun _ =>
                    perform (.finish .handleUserInput)) w :=
              fun hw => safe_own rfl fun _ => safe_own trivial fun _ =>
                safe_own trivial fun _ => safe_own rfl fun _ => hw
            exact safe_sendCommand cmd₀ arg₀ sendOk (hexit htyped)
              fun message hfor => hexit (hsend message hfor)
          split
          · exact safe_own rfl fun _ => htyped
          split
          · exact safe_own rfl fun _ => htyped
          · have hecho : ∀ {w : ClientView .handleUserInput},
                SentAlone first w →
                clientOwners.Safe .handleUserInput (fun _ => SentAlone first)
                  (perform .readIsInRoom >>= fun isInRoom =>
                    if isInRoom then
                      perform (.uiMsgDisplay .handleUserInput .msgWin
                        (text " You: " ++ line.takeWhile (· ≠ lf) ++
                          text "\n"))
                    else pure ()) w := by
              intro w hw
              refine safe_own trivial fun isInRoom => ?_
              cases isInRoom with
              | true => exact safe_own rfl fun _ => hw
              | false => exact hw
            exact safe_sendCommand cmd₀ arg₀ sendOk (hecho htyped)
              fun message hfor => hecho (hsend message hfor)

/-! ## Every interleaving -/

/-- What each thread owns between two rounds. -/
def idleAlone (first : Bytes) : (t : ClientThread) → ClientView t → Prop
  | .handleUserInput => SentAlone first
  | .receiveMessage => ReceivedAlone

section Run

variable {first : Bytes} {ls : List ClientStep} {k : ClientConfiguration}

theorem alone_run
    (h : client.Run RoundOk (ClientConfiguration.init first) ls k) :
    clientOwners.Sound (idleAlone first) k := by
  refine Contract.Sound.run ?_ ⟨trivial, ?_⟩ h
  · intro t j s _ hidle hok
    cases t with
    | handleUserInput =>
        cases j with
        | input read cmd₀ arg₀ sendOk =>
            refine safe_handleUserInput cmd₀ arg₀ sendOk ?_ hidle
            rintro line rfl
            exact hok.2 line cmd₀ arg₀ sendOk rfl
        | receive result => exact hidle
    | receiveMessage =>
        cases j with
        | input read cmd₀ arg₀ sendOk => exact hidle
        | receive result => exact safe_receiveMessage result hidle
  · intro t
    cases t with
    | handleUserInput =>
        exact ⟨nofun, [], [], .slnil, rfl, .nil⟩
    | receiveMessage => exact rfl

/-- **The receiving thread is not disturbed.**  Whatever `handle_user_input` does
meanwhile, between two rounds of `receive_message` the flag `is_in_room`, and what
the thread has displayed, are what the results of `recv` make of them one after
the other. -/
theorem received_run
    (h : client.Run RoundOk (ClientConfiguration.init first) ls k)
    (hidle : k.prog .receiveMessage = .ret ()) :
    k.shared.isInRoom = (receiveAll App.init k.shared.received).isInRoom ∧
      k.shared.shownBy .receiveMessage =
        (receiveAll App.init k.shared.received).displayed := by
  have hview := (alone_run h).idle_view hidle
  exact Prod.mk.inj hview

/-- The message that submits a username. -/
def usernameFrame (username : Bytes) : Bytes :=
  cmdUsernameSubmit :: space :: username

theorem sentFor_frame {line message : Bytes} (hline : LineRead line)
    (hshort : line.length < maxContentLen) (h : SentFor line message) :
    ∃ frame, Means (line.takeWhile (· ≠ lf)) frame ∧
      Delimited.Free cr lf frame ∧ message = frame ++ msgTerminator := by
  obtain ⟨isInRoom, cmd₀, arg₀, hsent⟩ := h
  have hinitial := List.takeWhile_prefix (· ≠ lf) (l := line)
  have hok : LineOk (line.takeWhile (· ≠ lf)) := by
    refine ⟨?_, ?_, ?_, ?_⟩
    · intro hempty
      rw [hempty] at hsent
      cases hsent
    · exact fun hmem => hline.1 (hinitial.subset hmem)
    · intro hmem
      simpa using List.mem_takeWhile_imp hmem
    · exact hinitial.length_le.trans hline.2
  obtain ⟨frame, hmeans, -, hlf, hout⟩ := sent_frame hok hsent
  have hfits : ¬ (Plain (line.takeWhile (· ≠ lf)) ∧
      (line.takeWhile (· ≠ lf)).length = maxContentLen) := by
    intro hfull
    have hle := hinitial.length_le
    omega
  rw [if_neg hfits] at hout
  exact ⟨frame, hmeans, free_of_not_mem hlf, hout⟩

theorem username_frame {reads : List (Option Bytes)} {username : Bytes}
    (hnul : ∀ string, some string ∈ reads → 0 ∉ string)
    (h : (getUsername App.init reads).1 = some (username, first)) :
    Delimited.Free cr lf (usernameFrame username) ∧
      first = usernameFrame username ++ msgTerminator := by
  obtain ⟨msg, hfirst, hmsg⟩ := expected_username (r := Client.fresh 0) rfl
    hnul h
  obtain ⟨hcommand, hcontent, -⟩ := hmsg.username rfl
  have hspaced := hmsg.spaced
  rw [hcommand, hcontent] at hspaced
  obtain rfl : msg = usernameFrame username := hspaced
  exact ⟨free_of_not_mem hmsg.noNewline, hfirst⟩

/-- The frames of the strings that were sent. -/
theorem sentFor_frames {lines messages : List Bytes}
    (hlines : ∀ line ∈ lines, LineRead line ∧ line.length < maxContentLen)
    (h : List.Forall₂ SentFor lines messages) :
    ∃ frames, messages = frames.map (· ++ msgTerminator) ∧
      List.Forall₂ (fun line frame => Means (line.takeWhile (· ≠ lf)) frame)
        lines frames ∧ ∀ frame ∈ frames, Delimited.Free cr lf frame := by
  induction h with
  | nil => exact ⟨[], rfl, .nil, nofun⟩
  | cons hsent _ ih =>
      obtain ⟨hread, hshort⟩ := hlines _ List.mem_cons_self
      obtain ⟨frame, hmeans, hfree, rfl⟩ := sentFor_frame hread hshort hsent
      obtain ⟨frames, rfl, hall, hfrees⟩ :=
        ih fun line hline => hlines line (List.mem_cons_of_mem _ hline)
      refine ⟨frame :: frames, rfl, .cons hmeans hall, ?_⟩
      rintro f hf
      rcases List.mem_cons.mp hf with rfl | hf
      · exact hfree
      · exact hfrees f hf

theorem flatten_frames (frames : List Bytes) :
    (frames.map (· ++ msgTerminator)).flatten =
      Delimited.join cr lf frames := by
  rw [Delimited.join, List.flatMap_def]
  rfl

/-- **What a client sends in all.**  However the two threads are interleaved, the
server splits the bytes sent into the message that submits the username and one
message for some of the lines typed, in order, each of which says what its line
says; it does so however the bytes are cut on the way, if not within a CR LF.
Lines of `MAX_CONTENT_LEN` characters are left out: their frames may lack the
LF. -/
theorem stream_run {reads : List (Option Bytes)} {username : Bytes}
    (hnul : ∀ string, some string ∈ reads → 0 ∉ string)
    (hname : (getUsername App.init reads).1 = some (username, first))
    (h : client.Run RoundOk (ClientConfiguration.init first) ls k)
    (hidle : k.prog .handleUserInput = .ret ())
    (hshort : ∀ line ∈ k.shared.typed, line.length < maxContentLen) :
    ∃ lines frames, lines.Sublist k.shared.typed ∧
      List.Forall₂ (fun line frame => Means (line.takeWhile (· ≠ lf)) frame)
        lines frames ∧
      ∀ chunks : List Bytes, chunks.flatten = k.shared.sent.flatten →
        Delimited.CutsClear cr lf [] chunks →
        Delimited.feedAll cr lf [] chunks =
          (usernameFrame username :: frames, []) := by
  have hcr : cr ≠ lf := by decide
  have halone : SentAlone first (clientView .handleUserInput k.shared) :=
    (alone_run h).idle_view hidle
  obtain ⟨lines, messages, hsub, hsent, hall⟩ := halone.sent
  obtain ⟨hfirst, rfl⟩ := username_frame hnul hname
  obtain ⟨frames, rfl, hmeans, hfrees⟩ := sentFor_frames
    (fun line hline =>
      ⟨halone.lines line (hsub.subset hline), hshort line (hsub.subset hline)⟩)
    hall
  refine ⟨lines, frames, hsub, hmeans, fun chunks hchunks hclear => ?_⟩
  have hstream : chunks.flatten =
      Delimited.join cr lf (usernameFrame username :: frames) := by
    rw [hchunks, show k.shared.sent = _ from hsent, ← flatten_frames]
    rfl
  have hfree : ∀ frame ∈ usernameFrame username :: frames,
      Delimited.Free cr lf frame := by
    intro frame hframe
    rcases List.mem_cons.mp hframe with rfl | hframe
    · exact hfirst
    · exact hfrees frame hframe
  have hpieces := Delimited.pieces_unique hcr hfree Delimited.free_nil
  rw [List.append_nil] at hpieces
  rw [(Delimited.feedAll_eq_pieces_iff hcr chunks).mpr hclear, hstream,
    hpieces]

end Run

/-! ## A client says hi -/

/-- The start of a round is allowed. -/
def roundOk (s : Session) (t : ClientThread) (round : Round) : Bool :=
  !s.ended t &&
    match round with
    | .input (some line) _ _ _ => 0 ∉ line && line.length ≤ maxContentLen
    | _ => true

theorem roundOk_start (s : Session) (t : ClientThread) (round : Round)
    (h : roundOk s t round = true) : RoundOk s (.start t round) := by
  simp only [roundOk, Bool.and_eq_true, Bool.not_eq_true'] at h
  refine ⟨h.1, ?_⟩
  rintro line cmd₀ arg₀ sendOk rfl
  simpa using h.2

/-- The client of the example joins a room and says hi. -/
def exampleRounds : List (ClientThread × Round) :=
  [(.handleUserInput, .input (some (text "/join 0")) [] [] true),
   (.receiveMessage, .receive (some [cmdRoomJoinOk, space, cr, lf])),
   (.handleUserInput, .input (some (text "hi")) [] [] true)]

/-- The string sent for the username of the example. -/
def exampleFirst : Bytes := usernameFrame (text "alice") ++ msgTerminator

theorem exampleRounds_run : ∃ ls k,
    client.Run RoundOk (ClientConfiguration.init exampleFirst) ls k ∧
      (∀ t, k.prog t = .ret ()) ∧
      k.shared.typed = [text "/join 0", text "hi"] ∧
      k.shared.sent = [exampleFirst, text "\x05 0\r\n", text "\x07 hi\r\n"] ∧
      k.shared.received = [[cmdRoomJoinOk, space, cr, lf]] := by
  have hplay : (client.play execClient roundOk (Session.init exampleFirst)
      exampleRounds).map (fun s => (s.typed, s.sent, s.received)) =
      some ([text "/join 0", text "hi"],
        [exampleFirst, text "\x05 0\r\n", text "\x07 hi\r\n"],
        [[cmdRoomJoinOk, space, cr, lf]]) := by
    decide +kernel
  obtain ⟨s, hplay, hfacts⟩ := Option.map_eq_some_iff.mp hplay
  simp only [Prod.mk.injEq] at hfacts
  obtain ⟨ls, hrun⟩ := System.play_run (fun _ _ _ _ he => ⟨he, trivial⟩)
    roundOk_start exampleRounds hplay
  exact ⟨ls, _, hrun, fun _ => rfl, hfacts⟩

theorem received_hi : ∃ ls k,
    client.Run RoundOk (ClientConfiguration.init exampleFirst) ls k ∧
      k.shared.received = [[cmdRoomJoinOk, space, cr, lf]] ∧
      k.shared.isInRoom = (receiveAll App.init k.shared.received).isInRoom ∧
      k.shared.shownBy .receiveMessage =
        (receiveAll App.init k.shared.received).displayed := by
  obtain ⟨ls, k, hrun, hidle, -, -, hreceived⟩ := exampleRounds_run
  exact ⟨ls, k, hrun, hreceived, received_run hrun (hidle .receiveMessage)⟩

theorem stream_hi : ∃ ls k,
    client.Run RoundOk (ClientConfiguration.init exampleFirst) ls k ∧
      k.shared.typed = [text "/join 0", text "hi"] ∧
      ∃ lines frames, lines.Sublist k.shared.typed ∧
        List.Forall₂ (fun line frame => Means (line.takeWhile (· ≠ lf)) frame)
          lines frames ∧
        ∀ chunks : List Bytes, chunks.flatten = k.shared.sent.flatten →
          Delimited.CutsClear cr lf [] chunks →
          Delimited.feedAll cr lf [] chunks =
            (usernameFrame (text "alice") :: frames, []) := by
  obtain ⟨ls, k, hrun, hidle, htyped, -, -⟩ := exampleRounds_run
  have hnul : ∀ string, some string ∈ [some (text "alice")] → 0 ∉ string := by
    intro string hmem
    rw [Option.some.inj (List.mem_singleton.mp hmem)]
    decide
  have hname : (getUsername App.init [some (text "alice")]).1 =
      some (text "alice", exampleFirst) := by
    decide
  refine ⟨ls, k, hrun, htyped, stream_run hnul hname hrun
    (hidle .handleUserInput) ?_⟩
  rw [htyped]
  decide

end ChatApp.Client
