import ChatApp.Server.Control
import ChatApp.Server.Dispatch

/-!
# Every routine keeps to the contract

One lemma for each routine of the source: started for a live client whose
worker has just taken it up, it performs allowed actions only and leaves the
worker idle again.  The last section puts the jobs together and draws the
conclusion for whole runs.
-/

namespace ChatApp.Server

open ChatApp.Foundation

variable {N C : Nat} {live : Bool → Prop} {c : ClientPtr N C} {r : Client}

/-- The worker is idle again. -/
def Idle (p : WorkerPoint C) : Prop := p = .idle

/-- The record is as before or has entered a room, and the worker is idle
again. -/
def Entered (r r' : Client) (p : WorkerPoint C) : Prop :=
  (r' = r ∨ ∃ i, r' = r.entered i) ∧ p = .idle

/-- What the handling of a message may do to the client's record. -/
inductive Moves (r : Client) : Client → Prop
  | stays : isExit r.currentMsg = false → Moves r r
  | named : Accepted r .awaitingUsername cmdUsernameSubmit →
      (content r.currentMsg).length ≤ maxUsernameLen →
      Moves r { r with
        name := content r.currentMsg
        state := .inChatLobby }
  | entered (i : Fin maxRooms) :
      Accepted r .inChatLobby cmdRoomCreateRequest ∨
        Accepted r .inChatLobby cmdRoomJoinRequest →
      Moves r (r.entered i)
  | left : Accepted r .inChatRoom cmdLeaveRoom →
      Moves r { r with state := .inChatLobby }
  | released : isExit r.currentMsg = true → Moves r Client.zero

/-- The client stays live unless its message was an exit. -/
theorem Moves.inUse {r' : Client} (h : Moves r r')
    (hexit : isExit r.currentMsg = false) : r'.inUse = r.inUse := by
  cases h with
  | stays => rfl
  | named => rfl
  | entered => rfl
  | left => rfl
  | released hrelease =>
      rw [hexit] at hrelease
      cases hrelease

theorem Accepted.not_exit {r : Client} {state : ClientState} {cmd : UInt8}
    (h : Accepted r state cmd) (hcmd : cmd ≠ cmdExit) :
    isExit r.currentMsg = false := by
  cases hexit : isExit r.currentMsg with
  | false => rfl
  | true =>
      have hc := ((isExit_iff r).mp hexit).2
      rw [h.command] at hc
      exact absurd hc hcmd

/-! ## `room_manager.c` -/

theorem quiet_sendAvailRooms (c : ClientPtr N C) :
    Prog.All Act.isQuiet (sendAvailRooms c) := by
  have hcodes : ∀ cmdType ∈ handlerCodes, cmdType ≠ cmdRoomMsg := by
    decide +kernel
  have hreplying : Replying Act.isQuiet c :=
    ⟨trivial, fun _ _ => trivial, fun _ _ => trivial,
      fun _ cmdType _ h => hcodes cmdType h⟩
  exact hreplying.sendAvailRooms

/-- One send is quiet. -/
theorem quiet_send {clientFd : Fd} {cmdType : UInt8} (message : Bytes)
    (h : cmdType ≠ cmdRoomMsg) :
    Prog.All (Act.isQuiet (N := N) (C := C))
      (act (.send clientFd cmdType message)) :=
  ⟨h, fun _ => trivial⟩

/-- A quiet routine enters no room. -/
theorem local_quiet {α : Type} {prog : ServerProg N C α}
    (h : Prog.All Act.isQuiet prog) :
    Local live c r .idle prog (fun _ r' p' => Entered r r' p') := by
  refine (Local.quiet h).imp ?_
  rintro value r' p' ⟨rfl, rfl⟩
  exact ⟨.inl rfl, rfl⟩

theorem local_createScan (roomName successMsg : Bytes) (clientFd : Fd)
    (hr : live r.inUse) (hs : r.state = .inChatLobby)
    (hn : roomName.length ≤ maxRoomNameLen) (rooms : List (Fin maxRooms)) :
    Local live c r .idle (createScan c clientFd roomName successMsg rooms)
      (fun _ r' p' => Entered r r' p') := by
  induction rooms with
  | nil => exact local_quiet (quiet_send _ (by decide))
  | cons i rest ih =>
      refine .act ?_ ?_
      · intro s hc hp
        exact ⟨⟨⟨rfl, by rw [hc]; exact hr⟩, by rw [hc]; exact hs, hp⟩, hn⟩
      · intro s hc hp b s' he
        obtain ⟨-, rfl, rfl⟩ | ⟨-, rfl, rfl⟩ := exec_createSection he
        · rw [hc, hp]
          exact ih
        · refine .ret ⟨.inr ⟨i, ?_⟩, hp⟩
          simp [State.afterCreate, hc]

theorem local_createChatRoom (hr : live r.inUse)
    (hs : r.state = .inChatLobby) :
    Local live c r .idle (createChatRoom c) (fun _ r' p' => Entered r r' p') := by
  refine .readClient (.quietAct trivial fun _ => ?_)
  split
  · exact local_quiet (quiet_send _ (by decide))
  · rename_i hlen
    exact local_createScan _ _ _ hr hs (Nat.not_lt.mp hlen) _

theorem local_joinSection (i : Fin maxRooms) (joinMsg : Bytes)
    (hr : live r.inUse) (hs : r.state = .inChatLobby) :
    Local live c r .idle (act (.joinSection i c joinMsg))
      (fun _ r' p' => Entered r r' p') := by
  refine .act ?_ ?_
  · intro s hc hp
    exact ⟨⟨rfl, by rw [hc]; exact hr⟩, by rw [hc]; exact hs, hp⟩
  · intro s hc hp b s' he
    subst hc
    obtain ⟨answer, -, rfl⟩ | rfl | ⟨j, -, -, rfl⟩ := exec_joinSection he
    · exact .ret ⟨.inl rfl, hp⟩
    · exact .ret ⟨.inl rfl, hp⟩
    · refine .ret ⟨.inr ⟨i, ?_⟩, hp⟩
      simp [State.afterJoin]

theorem local_joinChatRoom (hr : live r.inUse)
    (hs : r.state = .inChatLobby) :
    Local live c r .idle (joinChatRoom c) (fun _ r' p' => Entered r r' p') := by
  refine .readClient (.quietAct trivial fun _ => ?_)
  split
  · exact local_quiet (quiet_send _ (by decide))
  · split
    · exact local_joinSection _ _ hr hs
    · exact local_quiet (quiet_send _ (by decide))

/-- `leave_room` only moves the program point of its worker. -/
theorem local_leaveRoom (hr : live r.inUse) (hs : r.state = .inChatRoom) :
    Local live c r .idle (leaveRoom c r.roomIndex)
      (fun _ r' p' => r' = r ∧ p' = .left c.index) := by
  refine .act ?_ ?_
  · intro s hc hp
    subst hc
    exact ⟨⟨⟨rfl, hr⟩, hs, hp⟩, rfl⟩
  · intro s hc hp b s' he
    rw [exec_leaveSection he]
    refine .ret ⟨hc, ?_⟩
    simp [State.afterLeave]

/-! ## `client_state_manager.c` -/

/-- The record is zeroed and the worker is idle again. -/
theorem local_cleanupClient {p : WorkerPoint C} (hr : live r.inUse)
    (h : r.state ≠ .inChatRoom ∧ p = .idle ∨ p = .left c.index) :
    Local live c r p (cleanupClient c)
      (fun _ r' p' => r' = Client.zero ∧ Idle p') := by
  have hdet : ∀ s : State N C, s.clients c = r → s.point c.worker = p →
      DetachedOf live s (.worker c.worker) c := by
    intro s hc hp
    subst hc hp
    exact ⟨⟨rfl, hr⟩, h⟩
  refine .act hdet fun s hc hp b s' he => ?_
  cases he
  rw [hc, hp]
  refine .act hdet fun s hc hp b s' he => ?_
  cases he
  refine .act (fun s hc' hp => ?_) fun s hc hp b s' he => ?_
  · simp only [closeClient, Function.update_self] at hp
    have hlive : live (s.clients c).inUse := by
      rw [hc']
      simpa only [closeClient, hc] using hr
    exact ⟨⟨rfl, hlive⟩, hp⟩
  · cases he
    refine .act (fun s _ hp => ?_) fun s hc hp b s' he => ?_
    · simp only [zeroClient, Function.update_self] at hp
      exact ⟨rfl, hp⟩
    · cases he
      refine .ret ⟨?_, ?_⟩
      · simpa [zeroClient, subtractZeroed] using hc
      · simp [Idle, subtractZeroed]

theorem local_handleClientDisconnection (hr : live r.inUse) :
    Local live c r .idle (handleClientDisconnection c)
      (fun _ r' p' => r' = Client.zero ∧ Idle p') := by
  rw [handleClientDisconnection_eq]
  refine .readClient ?_
  split
  · rename_i hs
    refine (local_leaveRoom hr hs).bind ?_
    rintro - r' p' ⟨rfl, rfl⟩
    exact local_cleanupClient hr (.inr rfl)
  · rename_i hs
    exact local_cleanupClient hr (.inl ⟨hs, rfl⟩)

theorem local_setLobby {p : WorkerPoint C} (hr : live r.inUse)
    (h : r.state = .awaitingUsername ∧ p = .idle ∨ p = .left c.index) :
    Local live c r p (act (.setLobby c))
      (fun _ r' p' => r' = { r with state := .inChatLobby } ∧ p' = .idle) := by
  refine .act ?_ ?_
  · intro s hc hp
    subst hc hp
    obtain ⟨hs, hi⟩ | hl := h
    · exact .inl ⟨⟨rfl, hr⟩, hs, hi⟩
    · exact .inr ⟨⟨rfl, hr⟩, hl⟩
  · intro s hc hp b s' he
    subst hc
    cases he
    refine .ret ⟨?_, ?_⟩
    · simp
    · simp

theorem local_handleAwaitingUsername (hr : live r.inUse)
    (hs : r.state = .awaitingUsername) :
    Local live c r .idle (handleAwaitingUsername c r)
      (fun _ r' p' =>
        (r' = r ∨ (content r.currentMsg).length ≤ maxUsernameLen ∧
          r' = { r with
            name := content r.currentMsg
            state := .inChatLobby }) ∧ p' = .idle) := by
  unfold handleAwaitingUsername
  dsimp only
  split
  · refine (Local.quiet (quiet_send _ (by decide))).imp ?_
    rintro - r' p' ⟨rfl, rfl⟩
    exact ⟨.inl rfl, rfl⟩
  · rename_i hlen
    have hlen' := Nat.not_lt.mp hlen
    refine .act ?_ ?_
    · intro s hc hp
      subst hc
      exact ⟨⟨⟨rfl, hr⟩, hs, hp⟩, hlen'⟩
    · intro s hc hp b s' he
      subst hc
      cases he
      rw [hp]
      show Local live c _ _ (act (.setLobby c) >>= fun _ => sendAvailRooms c) _
      refine Local.bind (local_setLobby ?_ (.inl ⟨?_, rfl⟩)) ?_
      · simpa using hr
      · simpa using hs
      · rintro - r' p' ⟨rfl, rfl⟩
        refine (Local.quiet (quiet_sendAvailRooms c)).imp ?_
        rintro - r' p' ⟨rfl, rfl⟩
        exact ⟨.inr ⟨hlen', by simp⟩, rfl⟩

theorem local_handleInChatLobby (hr : live r.inUse)
    (hs : r.state = .inChatLobby) (hacc : refusal r = none)
    (he : command r.currentMsg ≠ cmdExit) :
    Local live c r .idle (handleInChatLobby c r)
      (fun _ r' p' => Moves r r' ∧ p' = .idle) := by
  have hexit : isExit r.currentMsg = false := by
    cases hexit : isExit r.currentMsg with
    | false => rfl
    | true => exact absurd ((isExit_iff r).mp hexit).2 he
  have hentered : Accepted r .inChatLobby cmdRoomCreateRequest ∨
      Accepted r .inChatLobby cmdRoomJoinRequest →
      ∀ r' (p' : WorkerPoint C), Entered r r' p' →
        Moves r r' ∧ p' = .idle := by
    rintro hcmd r' p' ⟨rfl | ⟨i, rfl⟩, hp'⟩
    · exact ⟨.stays hexit, hp'⟩
    · exact ⟨.entered i hcmd, hp'⟩
  unfold handleInChatLobby
  dsimp only
  split
  · rename_i hcmd
    exact (local_createChatRoom hr hs).imp
      fun _ => hentered (.inl ⟨hacc, hs, hcmd⟩)
  split
  · rename_i hcmd
    exact (local_joinChatRoom hr hs).imp
      fun _ => hentered (.inr ⟨hacc, hs, hcmd⟩)
  split
  · refine (Local.quiet (quiet_sendAvailRooms c)).imp ?_
    rintro - r' p' ⟨rfl, rfl⟩
    exact ⟨.stays hexit, rfl⟩
  · exact .ret ⟨.stays hexit, rfl⟩

/-- The program point after a message is handed to the dispatcher. -/
def routedPoint (c : ClientPtr N C) (r : Client) : WorkerPoint C :=
  match chatLine? r with
  | none => .idle
  | some line => .sending c.index line

theorem local_handleInChatRoom (hr : live r.inUse)
    (hs : r.state = .inChatRoom) (hacc : refusal r = none)
    (he : command r.currentMsg ≠ cmdExit) :
    Local live c r (routedPoint c r) (handleInChatRoom c r)
      (fun _ r' p' => Moves r r' ∧ p' = .idle) := by
  unfold handleInChatRoom
  split
  · rename_i hcmd
    have hsend : Accepted r .inChatRoom cmdRoomMessageSend := ⟨hacc, hs, hcmd⟩
    rw [routedPoint, chatLine?_some hacc hs hcmd]
    refine .quietAct trivial fun _ => .act ?_ ?_
    · intro s hc hp
      subst hc
      exact ⟨⟨rfl, hr⟩, hs, rfl, hp⟩
    · intro s hc hp b s' he
      subst hc
      rw [exec_chatSection he]
      refine .ret ⟨.stays (hsend.not_exit (by decide)), ?_⟩
      simp [State.afterChat]
  · rename_i hcmd
    have hleave : Accepted r .inChatRoom cmdLeaveRoom :=
      ⟨hacc, hs, (command_of_room hacc hs he).resolve_left hcmd⟩
    rw [routedPoint, chatLine?_none (.inr (.inr hcmd))]
    refine .quietAct trivial fun _ => (local_leaveRoom hr hs).bind ?_
    rintro - r' p' ⟨rfl, rfl⟩
    refine .act (fun s hc hp => ?_) fun s hc hp b s' he => ?_
    · subst hc
      exact ⟨⟨rfl, hr⟩, hp⟩
    · subst hc
      cases he
      show Local live c (s.clients c) (s.point c.worker) (act (.setLobby c)) _
      rw [hp]
      refine (local_setLobby hr (.inr rfl)).imp ?_
      rintro - r' p' ⟨rfl, rfl⟩
      exact ⟨.left hleave, rfl⟩

theorem local_handleAccepted (hr : live r.inUse)
    (hacc : refusal r = none) (he : command r.currentMsg ≠ cmdExit) :
    Local live c r (routedPoint c r) (handleAccepted c r)
      (fun _ r' p' => Moves r r' ∧ p' = .idle) := by
  rw [handleAccepted, if_neg he]
  cases hs : r.state with
  | awaitingUsername =>
      have hsubmit : Accepted r .awaitingUsername cmdUsernameSubmit :=
        ⟨hacc, hs, command_of_awaiting hacc hs he⟩
      rw [routedPoint, chatLine?_none (.inr (.inl (by simp [hs])))]
      refine (local_handleAwaitingUsername hr hs).imp ?_
      rintro - r' p' ⟨rfl | ⟨hlen, rfl⟩, hp'⟩
      · exact ⟨.stays (hsubmit.not_exit (by decide)), hp'⟩
      · exact ⟨.named hsubmit hlen, hp'⟩
  | inChatLobby =>
      rw [routedPoint, chatLine?_none (.inr (.inl (by simp [hs])))]
      exact local_handleInChatLobby hr hs hacc he
  | inChatRoom => exact local_handleInChatRoom hr hs hacc he

/-- One message moves the record as documented. -/
theorem local_routeClientCommand (hr : live r.inUse) :
    Local live c r .idle (routeClientCommand c)
      (fun _ r' p' => Idle p' ∧ Moves r r') := by
  rw [routeClientCommand_eq]
  refine .act (fun s hc hp => ?_) fun s hc hp b s' he => ?_
  · subst hc
    exact ⟨⟨rfl, hr⟩, hp⟩
  subst hc
  have hpoint : s'.clients c = s.clients c ∧
      s'.point c.worker = routedPoint c (s.clients c) := by
    unfold routedPoint
    obtain ⟨-, ⟨hl, rfl⟩ | ⟨line, hl, rfl⟩⟩ := exec_routeMessage he
    · simp [hl, hp]
    · simp [hl]
  rw [(exec_routeMessage he).1, hpoint.1, hpoint.2, dispatch]
  cases hacc : refusal (s.clients c) with
  | some answer =>
      have hstays : isExit (s.clients c).currentMsg = false := by
        cases hexit : isExit (s.clients c).currentMsg with
        | false => rfl
        | true =>
            rw [refusal_of_isExit hexit] at hacc
            cases hacc
      have hcode : answer.1 ≠ cmdRoomMsg := refusal_code hacc (by decide)
      rw [routedPoint, chatLine?_none (.inl (by simp [hacc]))]
      refine (Local.quiet (quiet_send _ hcode)).imp ?_
      rintro - r' p' ⟨rfl, rfl⟩
      exact ⟨rfl, .stays hstays⟩
  | none =>
      by_cases hcmd : command (s.clients c).currentMsg = cmdExit
      · have hexit := (isExit_iff (s.clients c)).mpr ⟨hacc, hcmd⟩
        have hne : cmdExit ≠ cmdRoomMessageSend := by decide
        rw [routedPoint, chatLine?_none (.inr (.inr (by rw [hcmd]; exact hne)))]
        simp only [handleAccepted, hcmd, if_true]
        refine (local_handleClientDisconnection hr).imp ?_
        rintro - r' p' ⟨rfl, hp'⟩
        exact ⟨hp', .released hexit⟩
      · refine (local_handleAccepted hr hacc hcmd).imp ?_
        rintro - r' p' ⟨hmoves, hp'⟩
        exact ⟨hp', hmoves⟩

/-- The rest of a chunk may be processed for a client that is gone when it
completes no message, or when nothing is asked of the client. -/
theorem local_messageLoop (fuel : Nat) :
    ∀ (temp : Bytes) (r : Client),
      live r.inUse ∧
          (ExitsLast (Delimited.feed cr lf r.currentMsg temp).1 ∨
            ∀ inUse, live inUse) ∨
        strstrTerminator temp = none →
      Local live c r .idle (messageLoop c fuel temp)
        (fun _ _ p' => Idle p') := by
  induction fuel with
  | zero => intro temp r _; exact .ret rfl
  | succ fuel ih =>
      intro temp r h
      unfold messageLoop
      cases hcut : strstrTerminator temp with
      | none =>
          by_cases ht : temp = []
          · simp only [ht, if_true]
            exact .ret rfl
          · simp only [ht, if_false]
            refine .act (fun s _ _ => rfl) fun s hc hp b s' he => ?_
            cases he
            exact .ret hp
      | some out =>
          obtain ⟨piece, rest⟩ := out
          obtain ⟨hr, hexits⟩ := h.resolve_right (by simp [hcut])
          refine .act (fun s _ _ => rfl) fun s hc hp b s' he => ?_
          subst hc
          cases he
          rw [hp]
          show Local live c _ _ (routeClientCommand c >>= fun _ =>
            act (.clearCurrentMsg c) >>= fun _ => messageLoop c fuel rest) _
          refine Local.bind (local_routeClientCommand ?_) ?_
          · simpa using hr
          rintro - r' p' ⟨rfl, hmoves⟩
          refine .act (fun s _ _ => rfl) fun s hc hp b s' he => ?_
          subst hc
          cases he
          show Local live c _ (s.point c.worker) (messageLoop c fuel rest) _
          rw [hp]
          apply ih
          by_cases hlast : (Delimited.feed cr lf [] rest).1 = []
          · exact .inr (cut_of_feed_nil hlast)
          · left
            rcases hexits with hexits | hany
            · rw [feed_of_cut hcut] at hexits
              have huse := hmoves.inUse (by simpa using hexits.head hlast)
              refine ⟨?_, .inl (by simpa using hexits.tail)⟩
              simpa [huse] using hr
            · exact ⟨hany _, .inr hany⟩

theorem local_readAndProcess (result : RecvResult) (hr : live r.inUse)
    (hexits : ∀ bytes, result = .data bytes →
      ExitsLast (messages r.currentMsg bytes) ∨ ∀ inUse, live inUse) :
    Local live c r .idle (readAndProcessClientMessage c result)
      (fun _ _ p' => Idle p') := by
  cases result with
  | nothing wouldBlock =>
      cases wouldBlock with
      | true => exact .ret rfl
      | false =>
          exact (local_handleClientDisconnection hr).imp fun _ _ _ h => h.2
  | data bytes =>
      exact local_messageLoop _ _ r (.inl ⟨hr, hexits bytes rfl⟩)

/-! ## `connection_handler.c` -/

section Register

variable {w : Fin N} {fd : Fd}

/-- The rule for an action of a worker that is only about its program
point. -/
theorem safe_point {p : WorkerPoint C} {a : Act N C}
    {next : a.Answer → ServerProg N C Unit}
    {Q : Unit → View N C (.worker w) → Prop}
    (hpre : ∀ s : State N C, s.point w = p → AllowedOf live (.worker w) s a)
    (hpost : ∀ s : State N C, s.point w = p → ∀ b s',
      exec a s = some (b, s') →
        (handling N C live).Safe (.worker w) Q (next b) (view (.worker w) s'))
    {v : View N C (.worker w)} (hv : v.2 = p) :
    (handling N C live).Safe (.worker w) Q (.act a next) v := by
  intro s _ hs _
  have hp : s.point w = p := by rw [← hv, ← hs]; rfl
  exact ⟨hpre s hp, hpost s hp⟩

theorem safe_refused {v : View N C (.worker w)} (hv : v.2 = .refused fd) :
    (handling N C live).Safe (.worker w) (fun _ v => v.2 = .idle)
      (act (.subtractRefused w fd) >>= fun _ => act (.closeRefused w fd))
      v := by
  refine safe_point ?_ ?_ hv
  · intro s hp
    exact ⟨rfl, hp⟩
  intro s hp b s' he
  cases he
  refine safe_point (p := .dropping fd) ?_ ?_ (by simp [view])
  · intro s hp
    exact ⟨rfl, hp⟩
  intro s hp b s' he
  cases he
  show Function.update s.point w .idle w = .idle
  simp

theorem safe_setUpClient (epollOk : Bool) {v : View N C (.worker w)}
    (hv : v.2 = .posted fd) :
    (handling N C live).Safe (.worker w) (fun _ v => v.2 = .idle)
      (setUpClient w fd epollOk) v := by
  refine safe_point ?_ ?_ hv
  · intro s hp
    exact ⟨rfl, hp⟩
  intro s hp b s' he
  obtain ⟨-, rfl, rfl⟩ | ⟨-, rfl, rfl⟩ := exec_registerWithEpoll he
  · refine safe_point (p := .registered fd) ?_ ?_ (by simp [view])
    · intro s hp
      exact ⟨rfl, hp⟩
    intro s hp b s' he
    obtain ⟨-, rfl, rfl⟩ | ⟨j, -, rfl, rfl⟩ := exec_allocateClientSlot he
    · exact safe_refused (by simp [view])
    · refine safe_point (p := .idle) ?_ ?_ (by simp [view])
      · intro s hp
        show cmdWelcomeRequest ≠ cmdRoomMsg
        decide
      intro s hp b s' he
      cases he
      exact hp
  · exact safe_refused (by simp [view])

theorem safe_registerNewClient (readOk epollOk : Bool)
    {v : View N C (.worker w)} (hv : v.2 = .idle) :
    (handling N C live).Safe (.worker w) (fun _ v => v.2 = .idle)
      (registerNewClient w readOk epollOk) v := by
  rw [registerNewClient_eq]
  refine safe_point ?_ ?_ hv
  · intro s hp
    exact ⟨rfl, hp⟩
  intro s₀ hp₀ b s' he
  obtain ⟨-, -, rfl, rfl⟩ | ⟨-, rfl, rfl⟩ := exec_readEventfd he
  · refine safe_point (p := .picked (s₀.notification w)) ?_ ?_ (by simp [view])
    · intro s hp
      exact ⟨rfl, hp⟩
    intro s hp b s' he
    cases he
    exact safe_setUpClient epollOk (by simp [view])
  · refine safe_point (p := .unread) ?_ ?_ (by simp [view])
    · intro s hp
      exact ⟨rfl, hp⟩
    intro s hp b s' he
    cases he
    refine safe_point ?_ ?_ hp
    · intro s hp
      exact ⟨rfl, hp⟩
    intro s hp b s' he
    cases he
    show Function.update s.point w .idle w = .idle
    simp

end Register

/-! ## `client_distributor.c` -/

section Distribute

variable {α : Type} {fd : Fd}

/-- The rule for an action of the main thread. -/
theorem safe_main {p : MainPoint N} {a : Act N C}
    {next : a.Answer → ServerProg N C α}
    {Q : α → View N C .main → Prop}
    (hpre : ∀ s : State N C, s.main = p → AllowedOf live .main s a)
    (hpost : ∀ s : State N C, s.main = p → ∀ b s',
      exec a s = some (b, s') →
        (handling N C live).Safe .main Q (next b) (view .main s'))
    {v : View N C .main} (hv : v = p) :
    (handling N C live).Safe .main Q (.act a next) v := by
  intro s _ hs _
  have hp : s.main = p := by rw [← hv, ← hs]; rfl
  exact ⟨hpre s hp, hpost s hp⟩

/-- Where the main thread is once `find_worker_not_at_capacity` has
answered. -/
def foundPoint (fd : Fd) : Option (Fin N) → MainPoint N
  | none => .accepted fd
  | some w => .assigned w fd

theorem safe_findWorkerRound {retry : ServerProg N C (Option (Fin N))}
    (h : (handling N C live).Safe .main (fun found v => v = foundPoint fd found)
      retry (.accepted fd)) :
    (handling N C live).Safe .main (fun found v => v = foundPoint fd found)
      (findWorkerRound fd retry) (.accepted fd) := by
  refine safe_main ?_ ?_ rfl
  · intro s hp
    exact ⟨rfl, hp⟩
  intro s hp b s' he
  obtain ⟨-, rfl, rfl⟩ | ⟨-, rfl, rfl⟩ := exec_inspectWorker he
  · refine safe_main ?_ ?_ hp
    · intro s _
      exact rfl
    intro s hp b s' he
    cases he
    show (handling N C live).Safe .main _ retry s.main
    rw [hp]
    exact h
  · refine safe_main ?_ ?_ rfl
    · intro s _
      exact rfl
    intro s hp b s' he
    cases he
    exact hp

theorem safe_findWorkerLoop (left : Nat) :
    (handling N C live).Safe .main (fun found v => v = foundPoint fd found)
      (findWorkerLoop fd left) (.accepted fd) := by
  induction left with
  | zero => exact safe_findWorkerRound rfl
  | succ left ih => exact safe_findWorkerRound ih

theorem safe_handleWriteError (w : Fin N) {v : View N C .main}
    (hv : v = .failed w fd) :
    (handling N C live).Safe .main (fun _ v => v = .idle) (handleWriteError w fd)
      v := by
  refine safe_main ?_ ?_ hv
  · intro s hp
    exact ⟨rfl, hp⟩
  intro s hp b s' he
  cases he
  refine safe_main (p := .posted w fd) ?_ ?_ rfl
  · intro s hp
    show errConnecting ≠ cmdRoomMsg
    decide
  intro s hp b s' he
  cases he
  refine safe_main ?_ ?_ hp
  · intro s hp
    exact ⟨rfl, hp⟩
  intro s hp b s' he
  cases he
  refine safe_main (p := .closed w) ?_ ?_ rfl
  · intro s hp
    exact ⟨rfl, hp⟩
  intro s hp b s' he
  cases he
  rfl

theorem safe_writeClient (w : Fin N) (writeOk : Bool) {v : View N C .main}
    (hv : v = .writing w fd) :
    (handling N C live).Safe .main (fun _ v => v = .idle)
      (writeClient w fd writeOk) v := by
  refine safe_main ?_ ?_ hv
  · intro s hp
    exact ⟨rfl, hp⟩
  intro s hp b s' he
  obtain ⟨-, rfl, rfl⟩ | ⟨-, rfl, rfl⟩ := exec_writeEventfd he
  · rfl
  · exact safe_handleWriteError w rfl

theorem safe_distributeClient (writeOk : Bool) {v : View N C .main}
    (hv : v = .accepted fd) :
    (handling N C live).Safe .main (fun _ v => v = .idle)
      (distributeClient fd writeOk) v := by
  subst hv
  rw [distributeClient_eq]
  refine Contract.Safe.bind ?_ (safe_findWorkerLoop N)
  rintro (_ | w) v rfl
  · refine safe_main (p := .accepted fd) ?_ ?_ rfl
    · intro s hp
      show errServerFull ≠ cmdRoomMsg
      decide
    intro s hp b s' he
    cases he
    refine safe_main ?_ ?_ hp
    · intro s hp
      exact ⟨rfl, hp⟩
    intro s hp b s' he
    cases he
    rfl
  · refine safe_main (p := .assigned w fd) ?_ ?_ rfl
    · intro s hp
      exact ⟨rfl, hp⟩
    intro s hp b s' he
    obtain ⟨-, rfl⟩ := exec_semWait he
    exact safe_writeClient w writeOk rfl

theorem safe_acceptClient (keepAliveOk writeOk : Bool)
    {v : View N C .main} (hv : v = .idle) :
    (handling N C live).Safe .main (fun _ v => v = .idle)
      (acceptClient fd keepAliveOk writeOk) v := by
  refine safe_main ?_ ?_ hv
  · intro s hp
    exact ⟨rfl, hp⟩
  intro s hp b s' he
  obtain ⟨-, -, rfl⟩ := exec_accept he
  refine safe_main (p := .accepted fd) ?_ ?_ rfl
  · intro s hp
    exact ⟨rfl, hp⟩
  intro s hp b s' he
  obtain ⟨-, rfl, rfl⟩ | ⟨-, rfl, rfl⟩ := exec_setSocketKeepAlive he
  · exact safe_distributeClient writeOk hp
  · rfl

end Distribute

/-! ## Jobs and runs -/

/-- A thread between two jobs. -/
def idleView : (t : Thread N) → View N C t → Prop
  | .main, v => v = .idle
  | .worker _, v => v.2 = .idle

theorem safe_of_local {prog : ServerProg N C Unit} {w : Fin N} {j : Fin C}
    {v : View N C (.worker w)}
    (h : Local live ⟨w, j⟩ (v.1 j) .idle prog (fun _ _ p' => Idle p'))
    (hv : v.2 = .idle) :
    (handling N C live).Safe (.worker w) (fun _ => idleView (.worker w)) prog
      v :=
  h v rfl hv

/-- Every job keeps to the contract for what is known of live clients. -/
theorem safe_handling (live : Bool → Prop) (hlive : live true)
    (t : Thread N) (j : Job N C) (s : State N C)
    (hidle : idleView t (view t s)) (hok : EventOk s (.start t j))
    (hexits : ∀ client bytes, j = .receive client (.data bytes) →
      ExitsLast (messages (s.clients client).currentMsg bytes) ∨
        ∀ inUse, live inUse) :
    (handling N C live).Safe t (fun _ => idleView t) (jobProg t j)
      (view t s) := by
  cases j with
  | accept fd keepAliveOk writeOk =>
      cases t with
      | main => exact safe_acceptClient keepAliveOk writeOk hidle
      | worker w => exact hidle
  | register readOk epollOk =>
      cases t with
      | main => exact hidle
      | worker w => exact safe_registerNewClient readOk epollOk hidle
  | receive client result =>
      obtain ⟨⟨rfl, huse⟩, -⟩ := hok
      refine safe_of_local (local_readAndProcess result ?_ ?_) hidle
      · rw [show ((view (.worker client.worker) s).1 client.index).inUse = true
          from huse]
        exact hlive
      · rintro bytes rfl
        exact hexits client bytes rfl
  | hangUp client =>
      obtain ⟨rfl, huse⟩ := hok
      refine safe_of_local ((local_handleClientDisconnection ?_).imp
        fun _ _ _ h => h.2) hidle
      rw [show ((view (.worker client.worker) s).1 client.index).inUse = true
        from huse]
      exact hlive

/-- Every job keeps to the contract. -/
theorem safe_job (t : Thread N) (j : Job N C) (s : State N C)
    (hidle : idleView t (view t s)) (hok : LiveOk s (.start t j)) :
    (control N C).Safe t (fun _ => idleView t) (jobProg t j) (view t s) := by
  refine control_safe (safe_handling Live rfl t j s hidle hok.1 ?_)
  rintro client bytes rfl
  exact .inl (hok.2 t client bytes rfl)

/-- Whatever follows a `CMD_EXIT`, only the liveness of the clients is lost. -/
theorem safe_any (t : Thread N) (j : Job N C) (s : State N C)
    (hidle : idleView t (view t s)) (hok : EventOk s (.start t j)) :
    (handling N C Any).Safe t (fun _ => idleView t) (jobProg t j)
      (view t s) :=
  safe_handling Any trivial t j s hidle hok fun _ _ _ =>
    .inr fun _ => trivial

section Runs

variable [NeZero N] {ls : List (Step N C)} {k : Configuration N C}

/-- The server's threads start out sound. -/
theorem control_init :
    (control N C).Sound idleView (Configuration.init N C) := by
  refine ⟨trivial, fun t => ?_⟩
  cases t with
  | main => rfl
  | worker w => rfl

/-- **Control**: in every run in which nothing complete follows a `CMD_EXIT`
in a chunk, every thread keeps to the contract. -/
theorem control_sound
    (hrun : (server N C).Run LiveOk (Configuration.init N C) ls k) :
    (control N C).Sound idleView k := by
  refine Contract.Sound.run ?_ control_init hrun
  intro t j s _ hidle hok
  exact safe_job t j s hidle hok

theorem handling_init (live : Bool → Prop) :
    (handling N C live).Sound idleView (Configuration.init N C) := by
  refine ⟨trivial, fun t => ?_⟩
  cases t with
  | main => rfl
  | worker w => rfl

/-- Whatever follows a `CMD_EXIT` in a chunk, every thread keeps to the
contract but for the liveness of the clients. -/
theorem handling_sound
    (hrun : (server N C).Run EventOk (Configuration.init N C) ls k) :
    (handling N C Any).Sound idleView k :=
  Contract.Sound.run (fun t j s _ => safe_any t j s) (handling_init Any) hrun

/-- The rule for invariants of runs: it is enough that every allowed action
keeps them. -/
theorem run_invariant {ok : State N C → Step N C → Prop}
    (hok : ∀ s l, ok s l → LiveOk s l) {I : State N C → Prop}
    (h₀ : I (State.init N C))
    (hI : ∀ t a s b s', Allowed t s a → ok s (.act t a) →
      exec a s = some (b, s') → I s → I s')
    (hrun : (server N C).Run ok (Configuration.init N C) ls k) :
    I k.shared :=
  Contract.Sound.invariant hok (fun t j s _ => safe_job t j s) control_init h₀
    hI hrun

/-- The same whatever follows a `CMD_EXIT` in a chunk. -/
theorem event_invariant {ok : State N C → Step N C → Prop}
    (hok : ∀ s l, ok s l → EventOk s l) {I : State N C → Prop}
    (h₀ : I (State.init N C))
    (hI : ∀ t a s b s', AllowedOf Any t s a → ok s (.act t a) →
      exec a s = some (b, s') → I s → I s')
    (hrun : (server N C).Run ok (Configuration.init N C) ls k) :
    I k.shared :=
  Contract.Sound.invariant hok (fun t j s _ => safe_any t j s)
    (handling_init Any) h₀ hI hrun

/-- The same for invariants that relate the state to a log of the run. -/
theorem logged_invariant {ok : State N C → Step N C → Prop} {E : Type}
    {log : State N C → Step N C → List E} {es : List E}
    (hok : ∀ s l, ok s l → LiveOk s l) {I : State N C → List E → Prop}
    (h₀ : I (State.init N C) [])
    (hstart : ∀ t j s es, ok s (.start t j) → I s es →
      I s (es ++ log s (.start t j)))
    (hI : ∀ t a s b s' es, Allowed t s a → ok s (.act t a) →
      exec a s = some (b, s') → I s es → I s' (es ++ log s (.act t a)))
    (hrun : (server N C).Logged ok log (Configuration.init N C) es k) :
    I k.shared es :=
  Contract.Sound.logged hok (fun t j s _ => safe_job t j s) control_init h₀
    hstart (fun t a s b s' es _ => hI t a s b s' es) hrun

end Runs

end ChatApp.Server
