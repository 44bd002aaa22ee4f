import ChatApp.Client.Main
import ChatApp.Server.Framing

/-!
# What the server reads of what the user types

`validate_and_format` on one side, `read_and_process_client_message` on the
other.  A formatted string that fits its array arrives as one message; a plain
line of exactly `MAX_CONTENT_LEN` bytes does not fit, since its frame and the
NUL take one byte more than the array has, and the server waits for the LF
that was cut off.
-/

namespace ChatApp.Client

open ChatApp.Foundation ChatApp.Server

/-! ## What the user means -/

/-- A line the user may type: at most `MAX_CONTENT_LEN` characters. -/
structure LineOk (input : Bytes) : Prop where
  nonempty : input ≠ []
  noNul : 0 ∉ input
  noNewline : lf ∉ input
  short : input.length ≤ maxContentLen

instance (input : Bytes) : Decidable (LineOk input) :=
  decidable_of_iff
    (input ≠ [] ∧ 0 ∉ input ∧ lf ∉ input ∧ input.length ≤ maxContentLen)
    ⟨fun h => ⟨h.1, h.2.1, h.2.2.1, h.2.2.2⟩,
      fun h => ⟨h.nonempty, h.noNul, h.noNewline, h.short⟩⟩

/-- The line is no command. -/
def Plain (input : Bytes) : Prop := input.head? ≠ some 47

instance (input : Bytes) : Decidable (Plain input) := by
  unfold Plain
  infer_instance

/-- The word that says which command is meant, and the word after it. -/
def commandWord (input : Bytes) : Bytes := (scanWord input).1

def argumentWord (input : Bytes) : Bytes :=
  (scanWord (scanWord input).2).1

/-- The code `protocol.h` has for a command the user can type. -/
def codeOf (word : Bytes) : Option UInt8 :=
  if word = text "/create" then some cmdRoomCreateRequest
  else if word = text "/join" then some cmdRoomJoinRequest
  else if word = text "/list" then some cmdRoomListRequest
  else if word = text "/leave" then some cmdLeaveRoom
  else if word = text "/exit" then some cmdExit
  else none

/-- The message says what was typed. -/
def Means (input msg : Bytes) : Prop :=
  if Plain input then
    command msg = cmdRoomMessageSend ∧ content msg = input
  else
    codeOf (commandWord input) = some (command msg) ∧
      (commandWord input = text "/create" ∨
          commandWord input = text "/join" →
        content msg = argumentWord input)

/-- The server was handed exactly one message, which says what was typed, and
nothing is left over. -/
def Decodes {N C : Nat} (c : ClientPtr N C) (input : Bytes)
    (steps : Steps N C) (s' : State N C) : Prop :=
  (∃ msg, routedTo c steps = [msg] ∧ Means input msg) ∧
    (s'.clients c).currentMsg = []

/-! ## Words -/

theorem scanWord_length (input : Bytes) :
    (scanWord input).1.length + (scanWord input).2.length ≤ input.length := by
  have hskip := (List.dropWhile_sublist (l := input) isSpace).length_le
  have hsplit := congrArg List.length (List.takeWhile_append_dropWhile
    (p := fun b => !isSpace b) (l := input.dropWhile isSpace))
  rw [List.length_append] at hsplit
  unfold scanWord
  dsimp only
  omega

theorem mem_of_mem_scanWord {input : Bytes} {b : UInt8}
    (h : b ∈ (scanWord input).1) : b ∈ input := by
  have hstart := (List.takeWhile_sublist _).subset h
  exact (List.dropWhile_sublist _).subset hstart

theorem mem_of_mem_rest {input : Bytes} {b : UInt8}
    (h : b ∈ (scanWord input).2) : b ∈ input := by
  have hstart := (List.dropWhile_sublist _).subset h
  exact (List.dropWhile_sublist _).subset hstart

/-- A command is read as its word and its argument. -/
theorem sscanfWords_of_command {input : Bytes} (h : commandWord input ≠ [])
    (cmd₀ arg₀ : Bytes) :
    (sscanfWords input cmd₀ arg₀).2.1 = commandWord input ∧
      ((sscanfWords input cmd₀ arg₀).1 = 2 →
        (sscanfWords input cmd₀ arg₀).2.2 = argumentWord input ∧
          argumentWord input ≠ []) := by
  unfold commandWord at h
  unfold sscanfWords commandWord argumentWord
  cases hfirst : scanWord input with
  | mk cmd rest =>
      rw [hfirst] at h
      cases cmd with
      | nil => exact absurd rfl h
      | cons b cmd =>
          cases hsecond : scanWord rest with
          | mk arg1 rest' => cases arg1 <;> simp [hsecond]

/-- A line that starts with a slash starts with its command word. -/
theorem commandWord_ne_nil {input : Bytes} (h : ¬ Plain input) :
    commandWord input ≠ [] := by
  unfold Plain at h
  cases input with
  | nil => simp at h
  | cons b rest =>
      simp only [List.head?_cons, ne_eq, Option.some.injEq, not_not] at h
      subst h
      have hslash : isSpace 47 = false := by decide
      simp [commandWord, scanWord, hslash]

/-- The argument is shorter than the line. -/
theorem argumentWord_length {input : Bytes} (h : ¬ Plain input) :
    (argumentWord input).length < input.length := by
  have hword := List.length_pos_iff.mpr (commandWord_ne_nil h)
  have hfirst := scanWord_length input
  have hsecond := scanWord_length (scanWord input).2
  unfold commandWord at hword
  unfold argumentWord
  omega

theorem codeOf_ne {word : Bytes} {code : UInt8} (h : codeOf word = some code) :
    code ≠ 0 ∧ code ≠ lf := by
  unfold codeOf at h
  repeat' split at h
  all_goals
    cases h
    try decide

/-! ## What is formatted -/

/-- The two kinds of entries of `commands`: with an argument and without. -/
theorem findCommand_format {word : Bytes} {entry : CommandFormat}
    (hcode : codeOf word ≠ none) (h : findCommand word = some entry) :
    codeOf word = some entry.cmdCode ∧
      (entry.argc = 1 ∧
          (∀ arg, entry.format arg =
            entry.cmdCode :: space :: arg ++ msgTerminator) ∨
        word ≠ text "/create" ∧ word ≠ text "/join" ∧
          ∀ arg, entry.format arg =
            entry.cmdCode :: space :: text "dummy" ++ msgTerminator) := by
  unfold codeOf at hcode
  split at hcode
  case isTrue hword =>
    subst hword
    cases h
    exact ⟨rfl, .inl ⟨rfl, fun _ => rfl⟩⟩
  split at hcode
  case isTrue hword =>
    subst hword
    cases h
    exact ⟨rfl, .inl ⟨rfl, fun _ => rfl⟩⟩
  split at hcode
  case isTrue hword =>
    subst hword
    cases h
    exact ⟨rfl, .inr ⟨by decide, by decide, fun _ => rfl⟩⟩
  split at hcode
  case isTrue hword =>
    subst hword
    cases h
    exact ⟨rfl, .inr ⟨by decide, by decide, fun _ => rfl⟩⟩
  split at hcode
  case isTrue hword =>
    subst hword
    cases h
    exact ⟨rfl, .inr ⟨by decide, by decide, fun _ => rfl⟩⟩
  exact absurd rfl hcode

/-- The commands the client sends in a room and outside of one. -/
def clientTable (isInRoom : Bool) : List UInt8 :=
  if isInRoom then [cmdRoomMessageSend, cmdLeaveRoom, cmdExit]
  else [cmdRoomCreateRequest, cmdRoomJoinRequest, cmdRoomListRequest, cmdExit]

/-- The message says what was typed and is laid out as the protocol asks; its
content is blank only when all of the line is. -/
structure Formatted (app : App) (input msg : Bytes) : Prop where
  means : Means input msg
  noNul : 0 ∉ msg
  noNewline : lf ∉ msg
  spaced : msg = command msg :: space :: content msg
  offered : command msg ∈ clientTable app.isInRoom
  blank : (∃ b ∈ content msg, b ≠ space) ↔ ∃ b ∈ input, b ≠ space
  length : if Plain input then msg.length = input.length + 2
    else msg.length ≤ maxContentLen + 1

/-- A command is formatted as its code and its argument, or as its code and
the dummy content. -/
theorem handleCommands_some {app : App} {input out cmd₀ arg₀ : Bytes}
    {outSize : Nat} (hcommand : ¬ Plain input)
    (h : (handleCommands app input outSize cmd₀ arg₀).1 = some out) :
    ∃ code body, codeOf (commandWord input) = some code ∧
      code ∈ clientTable app.isInRoom ∧
      out = snprintf outSize (code :: space :: body ++ msgTerminator) ∧
      (body = argumentWord input ∧ argumentWord input ≠ [] ∨
        body = text "dummy" ∧ commandWord input ≠ text "/create" ∧
        commandWord input ≠ text "/join") := by
  have hwords := sscanfWords_of_command (commandWord_ne_nil hcommand)
    cmd₀ arg₀
  unfold handleCommands at h
  unfold clientTable
  generalize sscanfWords input cmd₀ arg₀ = words at h hwords
  obtain ⟨numArgs, cmd, arg1⟩ := words
  obtain ⟨hcmd, harg⟩ := hwords
  dsimp only at h hcmd harg
  rw [← hcmd]
  split at h
  case isTrue hroom =>
    rw [if_pos hroom]
    split at h
    case isTrue hleave =>
      rcases hleave with rfl | rfl
      · cases h
        exact ⟨cmdLeaveRoom, text "dummy", rfl, by decide, rfl,
          .inr (by decide)⟩
      · cases h
        exact ⟨cmdExit, text "dummy", rfl, by decide, rfl, .inr (by decide)⟩
    case isFalse => cases h
  case isFalse hlobby =>
    rw [if_neg hlobby]
    split at h
    case isTrue hword =>
      have hcode : ∃ code ∈ [cmdRoomCreateRequest, cmdRoomJoinRequest,
          cmdRoomListRequest, cmdExit], codeOf cmd = some code := by
        rcases hword with rfl | rfl | rfl | rfl <;> decide
      obtain ⟨code, hmem, hcode⟩ := hcode
      cases hentry : findCommand cmd with
      | none => simp [hentry] at h
      | some entry =>
          obtain ⟨hcodeOf, hformat⟩ :=
            findCommand_format (by rw [hcode]; exact nofun) hentry
          rw [hcode] at hcodeOf
          cases hcodeOf
          simp only [hentry] at h
          split at h
          case isFalse => cases h
          case isTrue hargc =>
            cases h
            rcases hformat with ⟨hone, hformat⟩ | ⟨hcreate, hjoin, hformat⟩
            · have hnum : numArgs = 2 := by omega
              exact ⟨_, arg1, hcode, hmem, by rw [hformat],
                .inl (harg hnum)⟩
            · exact ⟨_, _, hcode, hmem, by rw [hformat],
                .inr ⟨rfl, hcreate, hjoin⟩⟩
    case isFalse => cases h

/-- A word has characters other than spaces, unless it is empty. -/
theorem exists_ne_space {input : Bytes} (h : (scanWord input).1 ≠ []) :
    ∃ b ∈ (scanWord input).1, b ≠ space := by
  obtain ⟨b, hb⟩ := List.exists_mem_of_ne_nil _ h
  refine ⟨b, hb, ?_⟩
  rintro rfl
  have hword := List.mem_takeWhile_imp hb
  revert hword
  decide

/-- What `validate_and_format` writes when it returns `true`: the frame of a
message, as far as the array has room. -/
theorem validateAndFormat_some {app : App} {input out cmd₀ arg₀ : Bytes}
    {outSize : Nat} (hline : LineOk input)
    (h : (validateAndFormat app input outSize cmd₀ arg₀).1 = some out) :
    ∃ msg, out = snprintf outSize (msg ++ msgTerminator) ∧
      Formatted app input msg := by
  unfold validateAndFormat at h
  split at h
  case isTrue => cases h
  by_cases hplain : Plain input
  · rw [if_neg hplain] at h
    split at h
    case isFalse => cases h
    case isTrue hroom =>
      split at h
      case isTrue => cases h
      cases h
      have hnul := hline.noNul
      have hlf := hline.noNewline
      refine ⟨cmdRoomMessageSend :: space :: input, rfl, ?_⟩
      exact
        { means := by
            rw [Means, if_pos hplain]
            exact ⟨rfl, rfl⟩
          noNul := by simpa [cmdRoomMessageSend, space] using hnul
          noNewline := by simpa [cmdRoomMessageSend, space, lf] using hlf
          spaced := rfl
          offered := by
            rw [clientTable, if_pos hroom]
            exact List.mem_cons_self
          blank := Iff.rfl
          length := by
            rw [if_pos hplain]
            rfl }
  · rw [if_pos (not_not.mp hplain)] at h
    obtain ⟨code, body, hcode, hoffered, rfl, hbody⟩ :=
      handleCommands_some hplain h
    obtain ⟨hzero, hlf⟩ := codeOf_ne hcode
    have hshort := hline.short
    have hlen := argumentWord_length hplain
    have hnul : 0 ∉ body := by
      rcases hbody with ⟨rfl, -⟩ | ⟨rfl, -, -⟩
      · intro hm
        exact hline.noNul (mem_of_mem_rest (mem_of_mem_scanWord hm))
      · decide
    have hnewline : lf ∉ body := by
      rcases hbody with ⟨rfl, -⟩ | ⟨rfl, -, -⟩
      · intro hm
        exact hline.noNewline (mem_of_mem_rest (mem_of_mem_scanWord hm))
      · decide
    have hfilled : ∃ b ∈ body, b ≠ space := by
      rcases hbody with ⟨rfl, hne⟩ | ⟨rfl, -, -⟩
      · exact exists_ne_space hne
      · decide
    have hslash : ∃ b ∈ input, b ≠ space :=
      ⟨47, List.mem_of_mem_head? (not_not.mp hplain), by decide⟩
    have hzs : (0 : UInt8) ≠ space := by decide
    have hls : lf ≠ space := by decide
    refine ⟨code :: space :: body, rfl, ?_⟩
    exact
      { means := by
          rw [Means, if_neg hplain]
          refine ⟨hcode, fun harg => ?_⟩
          rcases hbody with ⟨rfl, -⟩ | ⟨-, hcreate, hjoin⟩
          · rfl
          · exact absurd harg (not_or.mpr ⟨hcreate, hjoin⟩)
        noNul := by simp [hnul, hzs, Ne.symm hzero]
        noNewline := by simp [hnewline, hls, Ne.symm hlf]
        spaced := rfl
        offered := hoffered
        blank := iff_of_true hfilled hslash
        length := by
          rw [if_neg hplain]
          have hdummy : (text "dummy").length ≤ maxContentLen - 1 := by decide
          have hmax : 0 < maxContentLen := by decide
          simp only [List.length_cons]
          rcases hbody with ⟨rfl, -⟩ | ⟨rfl, -, -⟩ <;> omega }

/-! ## What arrives -/

theorem free_of_not_mem {l : Bytes} (h : lf ∉ l) :
    Delimited.Free cr lf l := by
  apply Delimited.free_iff_not_infix.mpr
  intro hwithin
  exact h (hwithin.subset (by simp))

/-- A whole frame is handed over and leaves nothing. -/
theorem feed_frame {msg : Bytes} (h : lf ∉ msg) :
    Delimited.feed cr lf [] (msg ++ msgTerminator) = ([msg], []) := by
  have hfree : ∀ p ∈ [msg], Delimited.Free cr lf p := by
    simpa using free_of_not_mem h
  have hpieces := Delimited.pieces_unique (by decide) hfree Delimited.free_nil
  simp only [Delimited.join, List.flatMap_cons, List.flatMap_nil,
    List.append_nil] at hpieces
  unfold Delimited.feed msgTerminator
  rw [hpieces]
  rfl

/-- A frame without its LF stays in `current_msg`. -/
theorem feed_cut_frame {msg : Bytes} (h : lf ∉ msg) :
    Delimited.feed cr lf [] (msg ++ [cr]) = ([], msg ++ [cr]) := by
  have hfree : lf ∉ msg ++ [cr] := by
    have hne : lf ≠ cr := by decide
    simp [h, hne]
  unfold Delimited.feed
  rw [Delimited.pieces_of_free (free_of_not_mem hfree)]
  rfl

theorem sendCommand_some {app : App} {input out cmd₀ arg₀ : Bytes}
    (h : (sendCommand app input cmd₀ arg₀).1 = some out) :
    (validateAndFormat app input maxMessageLenToServer cmd₀ arg₀).1 =
      some out := by
  unfold sendCommand at h
  split at h
  case isTrue => cases h
  case isFalse =>
    split at h
    · rename_i formatted app' heq
      cases h
      rw [heq]
    · cases h

/-- The string sent is a whole frame, or a frame without its LF. -/
theorem sent_frame {app : App} {input out cmd₀ arg₀ : Bytes}
    (hline : LineOk input) (h : (sendCommand app input cmd₀ arg₀).1 = some out) :
    ∃ msg, Means input msg ∧ 0 ∉ msg ∧ lf ∉ msg ∧
      out = if Plain input ∧ input.length = maxContentLen then msg ++ [cr]
        else msg ++ msgTerminator := by
  obtain ⟨msg, rfl, hmsg⟩ :=
    validateAndFormat_some hline (sendCommand_some h)
  have hlen := hmsg.length
  refine ⟨msg, hmsg.means, hmsg.noNul, hmsg.noNewline, ?_⟩
  have hshort := hline.short
  have hroom : maxContentLen + 4 = maxMessageLenToServer := rfl
  split
  case isTrue hfull =>
    rw [if_pos hfull.1] at hlen
    have hsplit : msg ++ msgTerminator = (msg ++ [cr]) ++ [lf] := by
      simp [msgTerminator]
    rw [hsplit, snprintf]
    apply List.take_left'
    simp only [List.length_append, List.length_singleton]
    omega
  case isFalse hfits =>
    apply List.take_of_length_le
    have hterm : msgTerminator.length = 2 := rfl
    rw [List.length_append, hterm]
    split at hlen
    case isTrue hplain =>
      have hne : input.length ≠ maxContentLen := fun hl => hfits ⟨hplain, hl⟩
      omega
    case isFalse => omega

section Received

variable {N C : Nat} {c : ClientPtr N C} {s s' : State N C}
  {steps : Steps N C}

/-- One chunk that arrives while `current_msg` is empty. -/
theorem exec_received {chunk : Bytes} (hnul : 0 ∉ chunk)
    (hempty : (s.clients c).currentMsg = [])
    (hexec : Prog.Exec exec (Keeps c)
      (readAndProcessClientMessage c (.data chunk)) s steps () s') :
    routedTo c steps = (Delimited.feed cr lf [] chunk).1 ∧
      (s'.clients c).currentMsg = (Delimited.feed cr lf [] chunk).2 := by
  have hsession : Session c s [chunk] (steps ++ []) s' :=
    .cons hexec (.nil (Keeps.refl c s'))
  have hfeed := session_feed hsession (by simpa using hnul)
  rw [List.append_nil, hempty] at hfeed
  simp only [Delimited.feedAll, List.append_nil] at hfeed
  exact ⟨hfeed.1, hfeed.2.2⟩

/-- **Encoding.**  What the user typed arrives as one message that says so,
unless it is a plain line of exactly `MAX_CONTENT_LEN` bytes. -/
theorem decodes_iff {app : App} {input out cmd₀ arg₀ : Bytes}
    (hline : LineOk input)
    (hsent : (sendCommand app input cmd₀ arg₀).1 = some out)
    (hempty : (s.clients c).currentMsg = [])
    (hexec : Prog.Exec exec (Keeps c)
      (readAndProcessClientMessage c (.data out)) s steps () s') :
    Decodes c input steps s' ↔
      ¬ (Plain input ∧ input.length = maxContentLen) := by
  obtain ⟨msg, hmeans, hnul, hlf, hout⟩ := sent_frame hline hsent
  have hcr : (0 : UInt8) ≠ cr := by decide
  have hzero : (0 : UInt8) ∉ msgTerminator := by decide
  by_cases hfull : Plain input ∧ input.length = maxContentLen
  · rw [if_pos hfull] at hout
    subst hout
    have hfeed := exec_received (by simp [hnul, hcr]) hempty hexec
    rw [feed_cut_frame hlf] at hfeed
    refine iff_of_false (fun h => ?_) (not_not.mpr hfull)
    have hrest := h.2
    rw [hfeed.2] at hrest
    simp at hrest
  · rw [if_neg hfull] at hout
    subst hout
    have hfeed := exec_received (by simp [hnul, hzero]) hempty hexec
    rw [feed_frame hlf] at hfeed
    exact iff_of_true ⟨⟨msg, hfeed.1, hmeans⟩, hfeed.2⟩ hfull

end Received

/-- A client in a room says hi. -/
theorem decodes_hi : ∃ (s s' : RealState) (steps : Steps _ _) (out : Bytes),
    play (State.init _ _) (connects 0) = some s ∧
      (sendCommand { App.init with isInRoom := true } (text "hi") [] []).1 =
        some out ∧
      Prog.Exec exec (Keeps (clientOf 0))
        (readAndProcessClientMessage (clientOf 0) (.data out)) s steps () s' ∧
      Decodes (clientOf 0) (text "hi") steps s' := by
  have hplay : (play (State.init maxThreads maxClientsPerThread)
      (connects 0)).map (fun s => (s.clients (clientOf 0)).currentMsg) =
        some [] := by decide +kernel
  obtain ⟨s, hs, hempty⟩ := Option.map_eq_some_iff.mp hplay
  have hsent : (sendCommand { App.init with isInRoom := true } (text "hi")
      [] []).1 = some (text "\x07 hi\r\n") := by decide
  obtain ⟨steps, s', hexec⟩ := exists_received
    (Keeps.refl (clientOf 0)) (clientOf 0)
    (text "\x07 hi\r\n") s
  exact ⟨s, s', steps, _, hs, hsent, hexec,
    (decodes_iff (by decide) hsent hempty hexec).mpr (by decide)⟩

/-- A line of 128 bytes, the most the client lets through, is not decoded. -/
theorem not_decodes_full : ¬ ∀ (s s' : RealState) (steps : Steps _ _)
    (c : ClientPtr _ _) (ls : List (Step _ _)) (app : App)
    (input out cmd₀ arg₀ : Bytes),
    (server _ _).Run LiveOk (Configuration.init _ _) ls (quiet s) →
      (s.clients c).inUse = true → LineOk input →
      (sendCommand app input cmd₀ arg₀).1 = some out →
      (s.clients c).currentMsg = [] →
      Prog.Exec exec (Keeps c)
        (readAndProcessClientMessage c (.data out)) s steps () s' →
      Decodes c input steps s' := by
  intro hall
  have hplay : (play (State.init maxThreads maxClientsPerThread)
      (connects 0)).map (fun s => ((s.clients (clientOf 0)).inUse,
        (s.clients (clientOf 0)).currentMsg)) =
        some (true, []) := by decide +kernel
  obtain ⟨s, hs, hstart⟩ := Option.map_eq_some_iff.mp hplay
  obtain ⟨hlive, hempty⟩ := Prod.mk.inj hstart
  obtain ⟨ls, hrun⟩ := play_live hs
  have hline : LineOk (List.replicate 128 97) := by decide +kernel
  have hsent : (sendCommand { App.init with isInRoom := true }
      (List.replicate 128 97) [] []).1 =
        some (text "\x07 " ++ List.replicate 128 97 ++ [cr]) := by
    decide +kernel
  obtain ⟨steps, s', hexec⟩ := exists_received
    (Keeps.refl (clientOf 0)) (clientOf 0)
    (text "\x07 " ++ List.replicate 128 97 ++ [cr]) s
  have hdecodes := hall s s' steps _ ls _ _ _ _ _ hrun hlive hline hsent
    hempty hexec
  have hrest := (exec_received (by decide +kernel) hempty hexec).2
  rw [hdecodes.2] at hrest
  revert hrest
  decide +kernel

end ChatApp.Client
