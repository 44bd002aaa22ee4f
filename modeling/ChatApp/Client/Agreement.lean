import ChatApp.Client.Encoding
import ChatApp.Server.Drafts
import ChatApp.Server.Gate
import ChatApp.Server.Replies

/-!
# What the client lets through

The checks of `get_username` and `validate_and_format` on one side, those of
`validate_msg_format`, `command_valid_for_state` and
`handle_awaiting_username` on the other.  `get_username` refuses blanks and
the words of a command have none, but a line said in a room is not looked at:
`undisputed_iff` says that the server rejects the lines of spaces, and
nothing else that the client lets through.
-/

namespace ChatApp.Client

open ChatApp.Foundation ChatApp.Server

variable {N C : Nat} {c : ClientPtr N C} {s s' : State N C}
  {steps : Steps N C}

/-! ## Rejections -/

/-- The codes that tell a client its message was malformed. -/
def rejections : List UInt8 :=
  [errProtocolInvalidFormat, errMsgEmptyContent, errProtocolInvalidStateCmd,
    errUsernameLength]

/-- None of the calls sends a rejection. -/
def Silent (calls : List SysCall) : Prop :=
  ∀ fd conn code message, SysCall.send fd conn code message ∈ calls →
    code ∉ rejections

/-- The action of a handler that is not a rejection. -/
def Accepting (c : ClientPtr N C) (a : Act N C) : Prop :=
  a.ofHandler c ∧ ∀ fd code message, a = .send fd code message →
    code ∉ rejections

theorem Silent.nil : Silent [] := fun _ _ _ _ h => nomatch h

theorem Silent.send {code : UInt8} (h : code ∉ rejections) (fd : Fd)
    (conn : Option Conn) (message : Bytes) :
    Silent [.send fd conn code message] := by
  intro fd' conn' code' message' hmem
  cases List.mem_singleton.mp hmem
  exact h

/-- The frames of a critical section are no rejections. -/
theorem silent_parcels (s : State N C) (a : Act N C) :
    Silent ((a.parcels s).map Parcel.call) := by
  have hmsg : cmdRoomMsg ∉ rejections := by decide
  have hone : ∀ {code : UInt8}, code ∉ rejections → ∀ i d message,
      ∀ p ∈ [parcelTo s (.room i) d code message], p.cmdType ∉ rejections := by
    intro code hcode i d message p hp
    cases List.mem_singleton.mp hp
    exact hcode
  have hroom : ∀ {room : Room N C} {i d msg seats}, ∀ p ∈
      broadcastParcels s room i d msg seats, p.cmdType ∉ rejections := by
    intro room i d msg seats p hp
    obtain ⟨j, e, -, -, rfl⟩ := mem_broadcastParcels hp
    exact hmsg
  have hcodes : ∀ p ∈ a.parcels s, p.cmdType ∉ rejections := by
    intro p hp
    cases a <;> simp only [Act.parcels] at hp
    case createSection =>
      split at hp
      · cases hp
      · exact hone (by decide) _ _ _ p hp
    case joinSection =>
      split at hp
      · exact hone (by decide) _ _ _ p hp
      split at hp
      · exact hone (by decide) _ _ _ p hp
      split at hp
      · cases hp
      rcases List.mem_append.mp hp with hp | hp
      · exact hroom p hp
      · exact hone (by decide) _ _ _ p hp
    case chatSection => exact hroom p hp
    case leaveSection => exact hroom p hp
    case leaveOkSection => exact hone (by decide) _ _ _ p hp
    all_goals cases hp
  intro fd conn code message hmem
  obtain ⟨p, hp, hcall⟩ := List.mem_map.mp hmem
  cases hcall
  exact hcodes p hp

/-- The calls of an accepting action. -/
theorem Accepting.silent {a : Act N C} {b : a.Answer} (ha : Accepting c a)
    (he : exec a s = some (b, s')) : Silent (newCalls ⟨a, s, s'⟩) := by
  obtain ⟨hhandler, hsend⟩ := ha
  have hsame : s'.calls = s.calls → Silent (newCalls ⟨a, s, s'⟩) := by
    intro hcalls
    rw [newCalls_eq (by rw [hcalls, List.append_nil])]
    exact .nil
  cases hroom : a.room? with
  | some i =>
      rw [newCalls_eq (parcels_call hroom he)]
      exact silent_parcels s a
  | none =>
      cases a
      case send fd code message =>
        cases he
        rw [newCalls_eq rfl]
        exact .send (hsend _ _ _ rfl) _ _ _
      case epollDel d =>
        cases he
        rw [newCalls_eq rfl]
        intro _ _ _ _ hmem
        cases List.mem_singleton.mp hmem
      case closeClient d =>
        cases he
        rw [newCalls_eq rfl]
        intro _ _ _ _ hmem
        cases List.mem_singleton.mp hmem
      all_goals
        first
        | (cases hhandler; done)
        | (cases hroom; done)
        | (cases he; exact hsame rfl)

theorem replying_accepting (c : ClientPtr N C) :
    Replying (Accepting c) c := by
  have hcodes : ∀ code ∈ handlerCodes, code ∉ rejections := by
    decide +kernel
  exact
    { readClient := ⟨rfl, nofun⟩
      sprintf := fun _ _ => ⟨trivial, nofun⟩
      listSection := fun _ _ => ⟨trivial, nofun⟩
      send := fun fd code message hcode => ⟨trivial, by
        rintro _ _ _ ⟨⟩
        exact hcodes code hcode⟩ }

/-- The handler of an accepted message sends no rejection, unless the message
is a username that is too long. -/
theorem accepting_handleAccepted (c : ClientPtr N C) {self : Client}
    (hname : self.state = .awaitingUsername →
      (content self.currentMsg).length ≤ maxUsernameLen) :
    Prog.All (Accepting c) (handleAccepted c self) := by
  have hreplying := replying_accepting c
  unfold handleAccepted
  split
  · rw [handleClientDisconnection_eq]
    refine ⟨⟨rfl, nofun⟩, fun r => ?_⟩
    have hclean : Prog.All (Accepting c) (cleanupClient c) :=
      ⟨⟨rfl, nofun⟩, fun _ => ⟨⟨rfl, nofun⟩, fun _ => ⟨⟨rfl, nofun⟩, fun _ =>
        all_one ⟨rfl, nofun⟩⟩⟩⟩
    show Prog.All _ (if r.state = .inChatRoom then _ else _)
    split
    · exact ⟨⟨rfl, nofun⟩, fun _ => hclean⟩
    · exact hclean
  cases hstate : self.state with
  | awaitingUsername =>
      refine hreplying.handleAwaitingUsername self ?_ (fun _ => ⟨rfl, nofun⟩)
        ⟨rfl, nofun⟩
      intro hlong
      have hshort := hname hstate
      omega
  | inChatLobby =>
      exact hreplying.handleInChatLobby self (fun _ _ _ => ⟨rfl, nofun⟩)
        fun _ _ => ⟨rfl, nofun⟩
  | inChatRoom =>
      unfold handleInChatRoom
      dsimp only
      split
      · exact ⟨⟨trivial, nofun⟩, fun _ => all_one ⟨rfl, nofun⟩⟩
      · exact ⟨⟨trivial, nofun⟩, fun _ => ⟨⟨rfl, nofun⟩, fun _ =>
          ⟨⟨rfl, nofun⟩, fun _ => all_one ⟨rfl, nofun⟩⟩⟩⟩

/-! ## One frame -/

/-- The frame is one piece and nothing. -/
theorem strstrTerminator_frame {msg : Bytes} (hlf : lf ∉ msg) :
    strstrTerminator (msg ++ msgTerminator) = some (msg, []) := by
  have hpieces : Delimited.pieces cr lf (msg ++ msgTerminator) = ([msg], []) :=
    Delimited.pieces_append_delim
      (Delimited.free_snoc (by decide) (free_of_not_mem hlf)) []
  cases hcut : strstrTerminator (msg ++ msgTerminator) with
  | none =>
      rw [Delimited.pieces_of_free (Delimited.cut_eq_none.mp hcut)] at hpieces
      cases hpieces
  | some out =>
      obtain ⟨piece, rest⟩ := out
      rw [Delimited.pieces_of_cut hcut] at hpieces
      simp only [Prod.mk.injEq, List.cons.injEq] at hpieces
      obtain ⟨⟨rfl, hnone⟩, htail⟩ := hpieces
      have hjoin := Delimited.join_pieces (x := cr) (y := lf) rest
      rw [hnone, htail] at hjoin
      rw [← hjoin]
      rfl

theorem messageLoop_nil (c : ClientPtr N C) (fuel : Nat) :
    messageLoop c fuel [] = .ret () := by
  cases fuel <;> rfl

/-- A frame that arrives on its own: its message is put into `current_msg`,
handled, and taken out again. -/
theorem exec_frame {msg : Bytes} (hnul : 0 ∉ msg) (hlf : lf ∉ msg)
    (hempty : (s.clients c).currentMsg = [])
    (hexec : Prog.Exec exec (Keeps c) (readAndProcessClientMessage c
      (.data (msg ++ msgTerminator))) s steps () s') :
    ∃ (handled : Steps N C) (t t' : State N C),
      (∀ e ∈ steps, newCalls e = [] ∨ e ∈ handled) ∧
      t.clients c = { s.clients c with currentMsg := msg } ∧
      Prog.Exec exec (Keeps c)
        (dispatch c { s.clients c with currentMsg := msg }) t handled () t' ∧
      s'.clients c = { t'.clients c with currentMsg := [] } := by
  have hzero : (0 : UInt8) ∉ msgTerminator := by decide
  have hchunk : cString (msg ++ msgTerminator) = msg ++ msgTerminator :=
    cString_of_not_mem (by simp [hnul, hzero])
  unfold readAndProcessClientMessage messageLoop at hexec
  dsimp only at hexec
  rw [hchunk, strstrTerminator_frame hlf] at hexec
  obtain ⟨s₁, _, s₂, steps₁, rfl, hkeep₁, he₁, hexec⟩ :=
    Prog.Exec.act_inv hexec
  have hbody : Prog.Exec exec (Keeps c)
      (routeClientCommand c >>= fun _ => act (.clearCurrentMsg c) >>= fun _ =>
        messageLoop c (msg ++ msgTerminator).length []) s₂ steps₁ () s' :=
    hexec
  obtain ⟨route, steps₂, ⟨⟩, s₃, rfl, hroute, hclear⟩ :=
    Prog.Exec.bind_inv (Keeps.refl c) hbody
  rw [routeClientCommand_eq] at hroute
  obtain ⟨s₄, self, t, handled, rfl, hkeep₂, he₂, hhandled⟩ :=
    Prog.Exec.act_inv hroute
  obtain ⟨s₅, _, s₆, steps₃, rfl, hkeep₃, he₃, hnil⟩ :=
    Prog.Exec.act_inv hclear
  rw [messageLoop_nil] at hnil
  obtain ⟨-, rfl, hkeep₄⟩ := Prog.Exec.ret_inv hnil
  unfold Keeps at hkeep₁ hkeep₂ hkeep₃ hkeep₄
  have hrecord : s₂.clients c = { s.clients c with currentMsg := msg } := by
    cases he₁
    simp [hkeep₁, hempty]
  obtain ⟨rfl, hrouted⟩ := exec_routeMessage he₂
  have ht : t.clients c = s₄.clients c := by
    obtain ⟨-, rfl⟩ | ⟨line, -, rfl⟩ := hrouted
    all_goals rfl
  rw [hkeep₂, hrecord] at hhandled ht
  refine ⟨handled, t, s₃, ?_, ht, hhandled, ?_⟩
  · intro e he
    simp only [List.mem_cons, List.mem_append, List.not_mem_nil,
      or_false] at he
    obtain rfl | (rfl | he) | rfl := he
    · cases he₁
      exact .inl (newCalls_eq (by simp))
    · refine .inl (newCalls_eq ?_)
      obtain ⟨-, rfl⟩ | ⟨line, -, rfl⟩ := hrouted
      all_goals simp
    · exact .inr he
    · cases he₃
      exact .inl (newCalls_eq (by simp))
  · rw [hkeep₄]
    cases he₃
    simp [hkeep₃]

/-! ## What the client lets through -/

/-- The flag `is_in_room` says where the server has the client. -/
def Agrees (app : App) (r : Client) : Prop :=
  r.state = if app.isInRoom then .inChatRoom else .inChatLobby

/-- What was typed passes the checks of the client and becomes the string it
hands to `send_message`. -/
inductive LetThrough (r : Client) : (typed out : Bytes) → Prop
  | line {app : App} {input out cmd₀ arg₀ : Bytes} : Agrees app r →
      LineOk input → input.length < maxContentLen →
      (validateAndFormat app input maxMessageLenToServer cmd₀ arg₀).1 =
        some out →
      LetThrough r input out
  | username {app : App} {reads : List (Option Bytes)}
      {username out : Bytes} : r.state = .awaitingUsername →
      (∀ string, some string ∈ reads → 0 ∉ string) →
      (getUsername app reads).1 = some (username, out) →
      LetThrough r username out

/-- The server takes the message as the client meant it: it passes both
checks, nothing is rejected, and a username is stored unchanged. -/
structure Undisputed (c : ClientPtr N C) (s : State N C) (typed : Bytes)
    (steps : Steps N C) (s' : State N C) : Prop where
  passes : ∃ msg, routedTo c steps = [msg] ∧ formatError msg = none ∧
    stateError (s.clients c).state (command msg) = none
  silent : ∀ e ∈ steps, Silent (newCalls e)
  stored : (s.clients c).state = .awaitingUsername →
    (s'.clients c).name = typed ∧ (s'.clients c).state = .inChatLobby

/-- The message is what the server expects of a client with this record, but
may be blank where the line is. -/
structure Expected (r : Client) (typed msg : Bytes) : Prop where
  noNul : 0 ∉ msg
  noNewline : lf ∉ msg
  spaced : msg = command msg :: space :: content msg
  short : (content msg).length ≤ maxContentLen
  available : command msg ∈ availableCommands r.state
  blank : (∃ b ∈ content msg, b ≠ space) ↔ ∃ b ∈ typed, b ≠ space
  username : r.state = .awaitingUsername →
    command msg = cmdUsernameSubmit ∧ content msg = typed ∧
      typed.length ≤ maxUsernameLen

/-- The commands the client sends are those of the state it is in. -/
theorem clientTable_available {app : App} {r : Client} (h : Agrees app r)
    {code : UInt8} (hcode : code ∈ clientTable app.isInRoom) :
    code ∈ availableCommands r.state := by
  have hroom : ∀ code ∈ clientTable true,
      code ∈ availableCommands .inChatRoom := by decide +kernel
  have hlobby : ∀ code ∈ clientTable false,
      code ∈ availableCommands .inChatLobby := by decide +kernel
  unfold Agrees at h
  rw [h]
  cases hflag : app.isInRoom with
  | true => exact hroom code (hflag ▸ hcode)
  | false => exact hlobby code (hflag ▸ hcode)

theorem expected_line {app : App} {r : Client} {input out cmd₀ arg₀ : Bytes}
    (hagree : Agrees app r) (hline : LineOk input)
    (hshort : input.length < maxContentLen)
    (h : (validateAndFormat app input maxMessageLenToServer cmd₀ arg₀).1 =
      some out) :
    ∃ msg, out = msg ++ msgTerminator ∧ Expected r input msg := by
  obtain ⟨msg, rfl, hmsg⟩ := validateAndFormat_some hline h
  have hlen : msg.length ≤ maxContentLen + 2 := by
    have hlength := hmsg.length
    split at hlength <;> omega
  have hroom : maxContentLen + 4 = maxMessageLenToServer := rfl
  have hcontent : (content msg).length = msg.length - 2 := List.length_drop
  refine ⟨msg, ?_, ?_⟩
  · apply List.take_of_length_le
    have hterm : msgTerminator.length = 2 := rfl
    rw [List.length_append, hterm]
    have hlength := hmsg.length
    split at hlength <;> omega
  · exact
      { noNul := hmsg.noNul
        noNewline := hmsg.noNewline
        spaced := hmsg.spaced
        short := by omega
        available := clientTable_available hagree hmsg.offered
        blank := hmsg.blank
        username := by
          intro hstate
          unfold Agrees at hagree
          rw [hstate] at hagree
          split at hagree <;> cases hagree }

/-- An accepted username is a word of at most 31 characters. -/
theorem usernameRound_some {app : App} {read : Option Bytes}
    {username : Bytes} (h : (usernameRound app read).1 = some username) :
    ∃ string, read = some string ∧ username = string.takeWhile (· ≠ lf) ∧
      username.length < maxUsernameLen ∧ username ≠ [] ∧
      ∀ b ∈ username, isSpace b = false := by
  unfold usernameRound at h
  cases read with
  | none => cases h
  | some string =>
      dsimp only at h
      split at h
      case isTrue => cases h
      split at h
      case isTrue => cases h
      split at h
      case isTrue => cases h
      split at h
      case isTrue => cases h
      rename_i hshort hempty hblank hreserved
      cases h
      have hle := (List.takeWhile_prefix (· ≠ lf) (l := string)).length_le
      refine ⟨string, rfl, rfl, ?_, hempty, ?_⟩
      · have hpos : 0 < maxUsernameLen := by decide
        omega
      · simpa using hblank

theorem getUsername_some {app : App} {reads : List (Option Bytes)}
    {username out : Bytes}
    (h : (getUsername app reads).1 = some (username, out)) :
    ∃ string, some string ∈ reads ∧
      username = string.takeWhile (· ≠ lf) ∧
      username.length < maxUsernameLen ∧ username ≠ [] ∧
      (∀ b ∈ username, isSpace b = false) ∧
      out = snprintf 256 (text "\x02 " ++ username ++ text "\r\n") := by
  induction reads generalizing app with
  | nil => cases h
  | cons read reads ih =>
      unfold getUsername at h
      split at h
      case h_1 accepted app' heq =>
        cases h
        obtain ⟨string, rfl, husername, hshort, hempty, hblank⟩ :=
          usernameRound_some (congrArg Prod.fst heq)
        exact ⟨string, List.mem_cons_self, husername, hshort, hempty, hblank,
          rfl⟩
      case h_2 =>
        obtain ⟨string, hmem, hrest⟩ := ih h
        exact ⟨string, List.mem_cons_of_mem _ hmem, hrest⟩

theorem expected_username {app : App} {r : Client}
    {reads : List (Option Bytes)} {username out : Bytes}
    (hstate : r.state = .awaitingUsername)
    (hnul : ∀ string, some string ∈ reads → 0 ∉ string)
    (h : (getUsername app reads).1 = some (username, out)) :
    ∃ msg, out = msg ++ msgTerminator ∧ Expected r username msg := by
  obtain ⟨string, hmem, husername, hshort, hempty, hblank, rfl⟩ :=
    getUsername_some h
  have hsub : ∀ b ∈ username, b ∈ string := by
    intro b hb
    rw [husername] at hb
    exact (List.takeWhile_prefix _).subset hb
  have hzero : 0 ∉ username := fun hb => hnul string hmem (hsub 0 hb)
  have hnewline : lf ∉ username := by
    intro hb
    have hspace := hblank lf hb
    revert hspace
    decide
  have hword : ∃ b ∈ username, b ≠ space := by
    obtain ⟨b, hb⟩ := List.exists_mem_of_ne_nil _ hempty
    refine ⟨b, hb, ?_⟩
    rintro rfl
    have hspace := hblank space hb
    revert hspace
    decide
  have hmax : maxUsernameLen ≤ maxContentLen := by decide
  refine ⟨cmdUsernameSubmit :: space :: username, ?_, ?_⟩
  · apply List.take_of_length_le
    have hterm : (text "\r\n").length = 2 := rfl
    have hcode : (text "\x02 ").length = 2 := rfl
    have hlimit : maxUsernameLen = 32 := rfl
    simp only [List.length_append, hterm, hcode]
    omega
  · exact
      { noNul := by simpa [cmdUsernameSubmit, space] using hzero
        noNewline := by simpa [cmdUsernameSubmit, space, lf] using hnewline
        spaced := rfl
        short := by
          show username.length ≤ maxContentLen
          omega
        available := by
          rw [hstate]
          exact List.mem_cons_self
        blank := Iff.rfl
        username := fun _ => ⟨rfl, rfl, Nat.le_of_lt hshort⟩ }

theorem expected_of_letThrough {r : Client} {typed out : Bytes}
    (h : LetThrough r typed out) :
    ∃ msg, out = msg ++ msgTerminator ∧ Expected r typed msg := by
  cases h with
  | line hagree hline hshort hsent =>
      exact expected_line hagree hline hshort hsent
  | username hstate hnul hsent => exact expected_username hstate hnul hsent

/-! ## What the server makes of it -/

theorem Expected.formatError_none {r : Client} {typed msg : Bytes}
    (h : Expected r typed msg) :
    formatError msg = none ↔ ∃ b ∈ typed, b ≠ space := by
  have hknown : ∀ state, ∀ code ∈ availableCommands state,
      code ∈ clientCommands := by
    intro state
    cases state <;> decide +kernel
  rw [Server.formatError_none, ← h.blank]
  constructor
  · rintro ⟨cmd, -, body, rfl, -, -, hbody⟩
    exact hbody
  · rintro ⟨b, hb, hne⟩
    exact ⟨command msg, hknown _ _ h.available, content msg, h.spaced,
      List.length_pos_of_mem hb, h.short, b, hb, hne⟩

/-- A listing leaves all records alone. -/
theorem exec_quiet_clients {a : Act N C} {b : a.Answer} (ha : a.isQuiet)
    (he : exec a s = some (b, s')) : s'.clients c = s.clients c := by
  have hupdates := exec_updates he c
  generalize s'.clients c = r at hupdates ⊢
  cases hupdates with
  | same => rfl
  | appended => cases ha
  | cleared => cases ha
  | named => cases ha
  | lobby => cases ha
  | created => cases ha
  | joined => cases ha
  | zeroed => cases ha
  | allocated => cases ha

/-- `handle_awaiting_username` stores a username that is short enough. -/
theorem exec_handleAwaitingUsername {self : Client} {t : State N C}
    (hshort : (content self.currentMsg).length ≤ maxUsernameLen)
    (hexec : Prog.Exec exec (Keeps c) (handleAwaitingUsername c self) s steps
      () t) :
    (t.clients c).name = content self.currentMsg ∧
      (t.clients c).state = .inChatLobby := by
  unfold handleAwaitingUsername at hexec
  rw [if_neg (Nat.not_lt.mpr hshort)] at hexec
  obtain ⟨s₁, _, s₂, steps₁, rfl, -, he₁, hexec⟩ := Prog.Exec.act_inv hexec
  obtain ⟨s₃, _, s₄, steps₂, rfl, hkeep, he₂, hexec⟩ :=
    Prog.Exec.act_inv hexec
  have hlist : Prog.Exec exec (Keeps c) (sendAvailRooms c) s₄ steps₂ () t :=
    hexec
  unfold Keeps at hkeep
  have hnamed : (s₄.clients c).name = content self.currentMsg ∧
      (s₄.clients c).state = .inChatLobby := by
    cases he₁
    cases he₂
    simp [hkeep]
  refine (hlist.keeps (I := fun s => (s.clients c).name =
    content self.currentMsg ∧ (s.clients c).state = .inChatLobby) ?_ ?_
    hnamed).2
  · intro s s' hR hs
    unfold Keeps at hR
    rwa [hR]
  · intro e he hs
    obtain ⟨b, hb⟩ := hlist.mem_exec e he
    rwa [exec_quiet_clients
      (hlist.mem_of_all (quiet_sendAvailRooms c) e he) hb]

/-- **Agreement.**  A client whose flag is right is not told that its message
is malformed, and its username is stored as typed, if and only if what was
typed is not all spaces. -/
theorem undisputed_iff {typed out : Bytes}
    (htyped : LetThrough (s.clients c) typed out)
    (hempty : (s.clients c).currentMsg = [])
    (hexec : Prog.Exec exec (Keeps c)
      (readAndProcessClientMessage c (.data out)) s steps () s') :
    Undisputed c s typed steps s' ↔ ∃ b ∈ typed, b ≠ space := by
  obtain ⟨msg, rfl, hmsg⟩ := expected_of_letThrough htyped
  have hzero : (0 : UInt8) ∉ msgTerminator := by decide
  have hrouted := (exec_received (by simp [hmsg.noNul, hzero]) hempty hexec).1
  rw [feed_frame hmsg.noNewline] at hrouted
  constructor
  · rintro ⟨⟨msg', hmsg', hformat, -⟩, -, -⟩
    rw [hrouted] at hmsg'
    cases hmsg'
    exact hmsg.formatError_none.mp hformat
  · intro hword
    have hformat := hmsg.formatError_none.mpr hword
    have hstate := (stateError_none _ _).mpr hmsg.available
    obtain ⟨handled, t, t', hsteps, ht, hhandled, hs'⟩ :=
      exec_frame hmsg.noNul hmsg.noNewline hempty hexec
    have haccepted : refusal { s.clients c with currentMsg := msg } = none := by
      unfold refusal
      dsimp only
      rw [hformat, hstate]
      rfl
    unfold dispatch at hhandled
    rw [haccepted] at hhandled
    refine ⟨⟨msg, hrouted, hformat, hstate⟩, ?_, ?_⟩
    · intro e he
      rcases hsteps e he with hnone | hmem
      · rw [hnone]
        exact .nil
      · obtain ⟨b, hb⟩ := hhandled.mem_exec e hmem
        have hall : Prog.All (Accepting c) (handleAccepted c
            { s.clients c with currentMsg := msg }) := by
          apply accepting_handleAccepted c
          intro hawaiting
          obtain ⟨-, hcontent, hshort⟩ := hmsg.username hawaiting
          show (content msg).length ≤ maxUsernameLen
          rwa [hcontent]
        exact (hhandled.mem_of_all hall e hmem).silent hb
    · intro hawaiting
      obtain ⟨hcommand, hcontent, hshort⟩ := hmsg.username hawaiting
      have hexit : msg.headD 0 ≠ cmdExit := by
        show command msg ≠ cmdExit
        rw [hcommand]
        decide
      have hname : Prog.Exec exec (Keeps c) (handleAwaitingUsername c
          { s.clients c with currentMsg := msg }) t handled () t' := by
        unfold handleAccepted command at hhandled
        dsimp only at hhandled
        rwa [if_neg hexit, hawaiting] at hhandled
      have hstored := exec_handleAwaitingUsername (by
        show (content msg).length ≤ maxUsernameLen
        rwa [hcontent]) hname
      rw [hs', ← hcontent]
      exact hstored

/-- The creator of a room says hi in it. -/
theorem undisputed_hi : ∃ (s s' : RealState) (steps : Steps _ _) (out : Bytes),
    play (State.init _ _) (opensRoom 0 (text "bob") (text "den")) = some s ∧
      LetThrough (s.clients (clientOf 0)) (text "hi") out ∧
      Prog.Exec exec (Keeps (clientOf 0))
        (readAndProcessClientMessage (clientOf 0) (.data out)) s steps () s' ∧
      Undisputed (clientOf 0) s (text "hi") steps s' := by
  have hplay : (play (State.init maxThreads maxClientsPerThread)
      (opensRoom 0 (text "bob") (text "den"))).map (fun s =>
        ((s.clients (clientOf 0)).currentMsg,
          (s.clients (clientOf 0)).state)) = some ([], .inChatRoom) := by
    decide +kernel
  obtain ⟨s, hs, hstart⟩ := Option.map_eq_some_iff.mp hplay
  obtain ⟨hempty, hstate⟩ := Prod.mk.inj hstart
  have hagree : Agrees { App.init with isInRoom := true }
      (s.clients (clientOf 0)) := hstate
  have hformat : (validateAndFormat { App.init with isInRoom := true }
      (text "hi") maxMessageLenToServer [] []).1 = some (text "\x07 hi\r\n") := by
    decide
  have hsent : LetThrough (s.clients (clientOf 0)) (text "hi")
      (text "\x07 hi\r\n") :=
    .line hagree (by decide) (by decide) hformat
  obtain ⟨steps, s', hexec⟩ := exists_received (Keeps.refl (clientOf 0))
    (clientOf 0) (text "\x07 hi\r\n") s
  exact ⟨s, s', steps, _, hs, hsent, hexec,
    (undisputed_iff hsent hempty hexec).mpr (by decide)⟩

/-- A line of two spaces is let through and rejected. -/
theorem not_undisputed_blank : ¬ ∀ (ls : List (Step _ _)) (s s' : RealState)
    (steps : Steps _ _) (c : ClientPtr _ _) (typed out : Bytes),
    (server _ _).Run LiveOk (Configuration.init _ _) ls (quiet s) →
      (s.clients c).inUse = true → (s.clients c).currentMsg = [] →
      LetThrough (s.clients c) typed out →
      Prog.Exec exec (Keeps c)
        (readAndProcessClientMessage c (.data out)) s steps () s' →
      Undisputed c s typed steps s' := by
  intro hall
  have hplay : (play (State.init maxThreads maxClientsPerThread)
      (opensRoom 0 (text "bob") (text "den"))).map (fun s =>
        ((s.clients (clientOf 0)).inUse, (s.clients (clientOf 0)).currentMsg,
          (s.clients (clientOf 0)).state)) =
        some (true, [], .inChatRoom) := by
    decide +kernel
  obtain ⟨s, hs, hstart⟩ := Option.map_eq_some_iff.mp hplay
  obtain ⟨hlive, hstart⟩ := Prod.mk.inj hstart
  obtain ⟨hempty, hstate⟩ := Prod.mk.inj hstart
  obtain ⟨ls, hrun⟩ := play_live hs
  have hagree : Agrees { App.init with isInRoom := true }
      (s.clients (clientOf 0)) := hstate
  have hformat : (validateAndFormat { App.init with isInRoom := true }
      (text "  ") maxMessageLenToServer [] []).1 = some (text "\x07   \r\n") := by
    decide
  have hsent : LetThrough (s.clients (clientOf 0)) (text "  ")
      (text "\x07   \r\n") :=
    .line hagree (by decide) (by decide) hformat
  obtain ⟨steps, s', hexec⟩ := exists_received (Keeps.refl (clientOf 0))
    (clientOf 0) (text "\x07   \r\n") s
  obtain ⟨msg, hmsg, hpasses, -⟩ :=
    (hall ls s s' steps _ _ _ hrun hlive hempty hsent hexec).passes
  have hrouted := (exec_received (by decide) hempty hexec).1
  rw [hmsg] at hrouted
  have hblank : msg = text "\x07   " := by
    have hfeed : (Delimited.feed cr lf [] (text "\x07   \r\n")).1 =
        [text "\x07   "] := by decide
    rw [hfeed] at hrouted
    simpa using hrouted
  subst hblank
  revert hpasses
  decide

end ChatApp.Client
