import ChatApp.Server.Epoll
import ChatApp.Server.Framing
import ChatApp.Server.Ordered

/-!
# What is read before a client is let go

One connection is seen from the socket: what its client has sent arrives in
parts, waits to be read, and ends.  An event that says that the end has arrived
is handled without a `recv`, however much waits to be read.  `heard_run` says
what a run must avoid for every frame to be handed over before
`handle_client_disconnection`, and that a frame is lost whenever it is not
avoided.
-/

namespace ChatApp.Server

open ChatApp.Foundation

variable {N C : Nat}

/-! ## The socket of one connection -/

/-- What the client has sent and has not arrived, what has arrived and has not
been read, and whether the end of what it sends has arrived. -/
structure Link where
  coming : Bytes
  queue : Bytes
  closed : Bool
  deriving DecidableEq

/-- The events of connection `q` in a batch tell what is so on the socket: there
is something to read or the end has arrived, and `EPOLLRDHUP` is set when it
has. -/
def Link.Reports (l : Link) (q : Conn) (batch : List Raised) : Prop :=
  ∀ r ∈ batch, r.source = some q →
    r.event.hangUp = l.closed ∧ (l.queue ≠ [] ∨ l.closed = true)

/-- What `recv` returns and leaves: some of what has arrived, or nothing when
nothing waits; not `EAGAIN` in `errno` tells that the end has arrived. -/
def Link.Returns (l : Link) : RecvResult → Link → Prop
  | .data bytes, l' =>
      ∃ rest, l.queue = bytes ++ rest ∧ l' = { l with queue := rest }
  | .nothing wouldBlock, l' =>
      l.queue = [] ∧ l' = l ∧ (wouldBlock = false → l.closed = true)

/-- The server, the batches of its workers, and the socket of connection
`q`. -/
structure Linked (N C : Nat) where
  polling : Polling N C
  link : Link

/-- What happens in a step, as far as the socket is concerned. -/
inductive LinkEvent (N : Nat) where
  | arrive (count : Nat)
  | close
  | wait (w : Fin N) (batch : List Raised)
  | handle (w : Fin N) (r : Raised) (result : RecvResult)
  | other

/-- A step of the server with its batches, as in `PollStep`, that treats the
socket of connection `q` as the calls do; or a step of the network. -/
inductive LinkStep (notificationFd : Fin N → Fd) (q : Conn) :
    Linked N C → LinkEvent N → Linked N C → Prop
  | arrive (p : Polling N C) (l : Link) (count : Nat) :
      LinkStep notificationFd q ⟨p, l⟩ (.arrive count)
        ⟨p, ⟨l.coming.drop count, l.queue ++ l.coming.take count, l.closed⟩⟩
  | close (p : Polling N C) (l : Link) :
      l.coming = [] →
      LinkStep notificationFd q ⟨p, l⟩ .close ⟨p, { l with closed := true }⟩
  | wait (p : Polling N C) (l : Link) (w : Fin N) (batch : List Raised) :
      p.config.prog (.worker w) = .ret () → p.batch w = [] →
      Reported notificationFd p.config.shared w batch → l.Reports q batch →
      LinkStep notificationFd q ⟨p, l⟩ (.wait w batch)
        ⟨{ p with batch := Function.update p.batch w batch }, l⟩
  | handle (p : Polling N C) (l l' : Link) (w : Fin N) (r : Raised)
      (rest : List Raised) (result : RecvResult) (readOk epollOk : Bool)
      (j : Job N C) :
      p.config.prog (.worker w) = .ret () → p.batch w = r :: rest →
      processEpollEvent notificationFd p.config.shared w r.event result
        readOk epollOk = some j →
      JobOk j →
      (if r.source = some q ∧ r.event.hangUp = false then
        l.Returns result l' else l' = l) →
      LinkStep notificationFd q ⟨p, l⟩ (.handle w r result)
        ⟨⟨p.config.update (.worker w) p.config.shared (jobProg (.worker w) j),
          Function.update p.batch w rest⟩, l'⟩
  | skip (p : Polling N C) (l : Link) (w : Fin N) (r : Raised)
      (rest : List Raised) :
      p.config.prog (.worker w) = .ret () → p.batch w = r :: rest →
      (∀ result readOk epollOk, processEpollEvent notificationFd
        p.config.shared w r.event result readOk epollOk = none) →
      LinkStep notificationFd q ⟨p, l⟩ .other
        ⟨{ p with batch := Function.update p.batch w rest }, l⟩
  | accept (p : Polling N C) (l : Link) (clientFd : Fd)
      (keepAliveOk writeOk : Bool) :
      p.config.prog .main = .ret () →
      LinkStep notificationFd q ⟨p, l⟩ .other
        ⟨⟨p.config.update .main p.config.shared
          (acceptClient clientFd keepAliveOk writeOk), p.batch⟩, l⟩
  | act (p : Polling N C) (l : Link) (t : Thread N) (a : Act N C)
      (next : a.Answer → ServerProg N C Unit) (answer : a.Answer)
      (s : State N C) :
      p.config.prog t = .act a next →
      exec a p.config.shared = some (answer, s) →
      Promised notificationFd p.config.shared a →
      LinkStep notificationFd q ⟨p, l⟩ .other
        ⟨⟨p.config.update t s (next answer), p.batch⟩, l⟩

/-- The client has sent `stream` and closes its side. -/
def Linked.init (N C : Nat) [NeZero N] (stream : Bytes) : Linked N C :=
  ⟨Polling.init N C, ⟨stream, [], false⟩⟩

/-- What can happen while every step meets `cond`. -/
def LinkRun [NeZero N] (notificationFd : Fin N → Fd) (q : Conn)
    (stream : Bytes) (cond : Linked N C → LinkEvent N → Prop) :
    Linked N C → Prop :=
  Relation.ReflTransGen
    (fun p p' => ∃ e, cond p e ∧ LinkStep notificationFd q p e p')
    (Linked.init N C stream)

/-! ## What is to be handed over -/

/-- The messages handed to `route_client_command` for a connection. -/
def routedOf (q : Conn) (s : State N C) : List Bytes :=
  s.journal.filterMap fun
    | .routed _ who record =>
        if who = some q then some record.currentMsg else none
    | _ => none

/-- The messages up to the first `CMD_EXIT`, that one included. -/
def upToExit : List Bytes → List Bytes
  | [] => []
  | msg :: msgs => if isExit msg then [msg] else msg :: upToExit msgs

/-- When `handle_client_disconnection` is about to run for the client of the
connection, all its messages up to a `CMD_EXIT` have been handed over. -/
def Heard (q : Conn) (frames : List Bytes) (p : Polling N C) : Prop :=
  ∀ (c : ClientPtr N C) (k : Unit → ServerProg N C Unit),
    p.config.prog (.worker c.worker) = (handleClientDisconnection c >>= k) →
    p.config.shared.HeldBy q (.slot c) →
    routedOf q p.config.shared = upToExit frames

/-- An event with `EPOLLRDHUP` is taken up only when everything that has arrived
has been read, and no `recv` result ends between a CR and its LF. -/
def Unhurried (q : Conn) (p : Linked N C) : LinkEvent N → Prop
  | .handle _ r result => r.source = some q →
      if r.event.hangUp then p.link.queue = []
      else ∀ bytes, result = .data bytes →
        ¬ Delimited.Straddles cr lf bytes
          (p.link.queue.drop bytes.length ++ p.link.coming)
  | _ => True

/-- A frame without its terminator. -/
structure FrameText (msg : Bytes) : Prop where
  free : Delimited.Free cr lf msg
  noNul : 0 ∉ msg

theorem upToExit_append {msgs : List Bytes} {msg : Bytes}
    (hmsgs : ∀ m ∈ msgs, isExit m = false) (hmsg : isExit msg = true)
    (rest : List Bytes) :
    upToExit (msgs ++ msg :: rest) = msgs ++ [msg] := by
  induction msgs with
  | nil => simp [upToExit, hmsg]
  | cons m msgs ih =>
      have hm := hmsgs m List.mem_cons_self
      have hrest := ih fun m' hm' => hmsgs m' (List.mem_cons_of_mem _ hm')
      simp [upToExit, hm, hrest]

theorem upToExit_of_none {msgs : List Bytes}
    (hmsgs : ∀ m ∈ msgs, isExit m = false) : upToExit msgs = msgs := by
  induction msgs with
  | nil => rfl
  | cons m msgs ih =>
      have hm := hmsgs m List.mem_cons_self
      have hrest := ih fun m' hm' => hmsgs m' (List.mem_cons_of_mem _ hm')
      simp [upToExit, hm, hrest]

theorem exit_of_upToExit {msgs : List Bytes}
    (h : ∃ msg ∈ msgs, isExit msg = true) :
    ∃ msg ∈ upToExit msgs, isExit msg = true := by
  obtain ⟨msg, hmem, hexit⟩ := h
  induction msgs with
  | nil => cases hmem
  | cons m msgs ih =>
      by_cases hm : isExit m = true
      · exact ⟨m, by simp [upToExit, hm], hm⟩
      · rcases List.mem_cons.mp hmem with rfl | hmem
        · exact absurd hexit hm
        · obtain ⟨last, hlast, hlastExit⟩ := ih hmem
          exact ⟨last, by simp [upToExit, hm, hlast], hlastExit⟩

/-! ## One client through a program of its worker -/

/-- The action goes on with the text of client `c`, or lets go of the client. -/
def Act.disturbs (c : ClientPtr N C) : Act N C → Prop
  | .strcatCurrentMsg d _ | .clearCurrentMsg d | .zeroClient d
  | .routeMessage d | .epollDel d | .closeClient d => d = c
  | _ => False

/-- Followed through the program, client `c` is let go of only when `Ends` holds
of the messages handed over, and if it is not, the program ends as `Q` says of
its record and of them. -/
def Drains (c : ClientPtr N C) (Ends : List Bytes → Prop) {α : Type}
    (Q : Client → List Bytes → Prop) :
    ServerProg N C α → Client → List Bytes → Prop
  | .ret _, r, msgs => Q r msgs
  | .act a next, r, msgs =>
      (a = .epollDel c → Ends msgs) ∧
        ∀ s b s', s.clients c = r → exec a s = some (b, s') →
          a ≠ .closeClient c →
          Drains c Ends Q (next b) (s'.clients c)
            (msgs ++ (routed? c ⟨a, s, s'⟩).toList)

section Drains

variable {c d : ClientPtr N C} {Ends : List Bytes → Prop}
  {Q Q' : Client → List Bytes → Prop} {α β : Type} {r : Client}
  {msgs : List Bytes}

theorem Drains.imp {prog : ServerProg N C α}
    (hQ : ∀ r msgs, Q r msgs → Q' r msgs) :
    ∀ {r msgs}, Drains c Ends Q prog r msgs →
      Drains c Ends Q' prog r msgs := by
  induction prog with
  | ret value => intro r msgs h; exact hQ _ _ h
  | act a next ih =>
      intro r msgs h
      exact ⟨h.1, fun s b s' hr he hclose => ih b (h.2 s b s' hr he hclose)⟩

theorem Drains.bind {prog : ServerProg N C α} {k : α → ServerProg N C β}
    (hk : ∀ value r msgs, Q r msgs → Drains c Ends Q' (k value) r msgs) :
    ∀ {r msgs}, Drains c Ends Q prog r msgs →
      Drains c Ends Q' (prog >>= k) r msgs := by
  induction prog with
  | ret value => intro r msgs h; exact hk value _ _ h
  | act a next ih =>
      intro r msgs h
      exact ⟨h.1, fun s b s' hr he hclose => ih b (h.2 s b s' hr he hclose)⟩

theorem routed?_none {a : Act N C} {s s' : State N C}
    (ha : a ≠ .routeMessage c) : routed? c ⟨a, s, s'⟩ = none := by
  unfold routed?
  split
  · rename_i d hd
    have hdc : d ≠ c := by
      rintro rfl
      exact ha hd
    rw [if_neg hdc]
  · rfl

/-- An action that hands nothing over and does not let go. -/
theorem Drains.act {a : Act N C} {next : a.Answer → ServerProg N C α}
    (hroute : a ≠ .routeMessage c) (hdel : a ≠ .epollDel c)
    (h : ∀ s b s', s.clients c = r → exec a s = some (b, s') →
      Drains c Ends Q (next b) (s'.clients c) msgs) :
    Drains c Ends Q (.act a next) r msgs := by
  refine ⟨fun ha => absurd ha hdel, fun s b s' hr he _ => ?_⟩
  rw [routed?_none hroute, Option.toList_none, List.append_nil]
  exact h s b s' hr he

theorem Drains.next {a : Act N C} {next : a.Answer → ServerProg N C α}
    {s s' : State N C} {b : a.Answer}
    (h : Drains c Ends Q (.act a next) r msgs) (hroute : a ≠ .routeMessage c)
    (hclose : a ≠ .closeClient c) (hr : s.clients c = r)
    (he : exec a s = some (b, s')) :
    Drains c Ends Q (next b) (s'.clients c) msgs := by
  have hnext := h.2 s b s' hr he hclose
  rwa [routed?_none hroute, Option.toList_none, List.append_nil] at hnext

/-- Other actions leave the text of a client that is in use, and hand nothing of
it over. -/
theorem exec_undisturbed {a : Act N C} {s s' : State N C} {b : a.Answer}
    (ha : ¬ a.disturbs c) (he : exec a s = some (b, s'))
    (huse : (s.clients c).inUse = true) :
    (s'.clients c).currentMsg = (s.clients c).currentMsg ∧
      (s'.clients c).inUse = true ∧ routed? c ⟨a, s, s'⟩ = none := by
  have hroute : a ≠ .routeMessage c := by
    rintro rfl
    exact ha rfl
  have hupdates := exec_updates he c
  refine and_assoc.mp ⟨?_, routed?_none hroute⟩
  generalize s'.clients c = r at hupdates ⊢
  cases hupdates with
  | same | named | lobby | created | joined => exact ⟨rfl, huse⟩
  | appended | cleared | zeroed => exact absurd rfl ha
  | allocated fd hfree =>
      unfold State.freeSlot? at hfree
      have hnot := List.find?_some hfree
      simp [huse] at hnot

/-- A program that leaves the client's text alone. -/
theorem Drains.undisturbed {prog : ServerProg N C α}
    (h : Prog.All (fun a => ¬ a.disturbs c) prog) :
    ∀ {r : Client} {msgs}, r.inUse = true →
      Drains c Ends (fun r' msgs' => r'.currentMsg = r.currentMsg ∧
        r'.inUse = true ∧ msgs' = msgs) prog r msgs := by
  induction prog with
  | ret value => exact fun huse => ⟨rfl, huse, rfl⟩
  | act a next ih =>
      intro r msgs huse
      refine ⟨?_, fun s b s' hr he _ => ?_⟩
      · rintro rfl
        exact absurd rfl h.1
      · subst hr
        obtain ⟨htext, huse', hrouted⟩ := exec_undisturbed h.1 he huse
        rw [hrouted, Option.toList_none, List.append_nil]
        have hnext := @ih b (h.2 b) _ msgs huse'
        rwa [htext] at hnext

theorem drains_cleanupClient (hends : Ends msgs) :
    Drains c Ends (fun _ _ => False) (cleanupClient c) r msgs := by
  refine ⟨fun _ => hends, fun s b s' _ _ _ => ⟨nofun, ?_⟩⟩
  intro s b s' _ _ hclose
  exact absurd rfl hclose

/-- The disconnection lets go of the client and does not come back to it. -/
theorem drains_disconnection (hends : Ends msgs) :
    Drains c Ends (fun _ _ => False) (handleClientDisconnection c) r
      msgs := by
  rw [handleClientDisconnection_eq]
  refine .act nofun nofun fun s self s' hr he => ?_
  show Drains c Ends _ (if self.state = .inChatRoom then _ else _) _ msgs
  split
  · exact .act nofun nofun fun _ _ _ _ _ => drains_cleanupClient hends
  · exact drains_cleanupClient hends

/-- The disconnection that is about to run lets go of the client. -/
theorem Drains.ends {k : Unit → ServerProg N C α}
    (h : Drains c Ends Q (handleClientDisconnection c >>= k) r msgs)
    (s : State N C) (hr : s.clients c = r) : Ends msgs := by
  rw [handleClientDisconnection_eq] at h
  have hnext : Drains c Ends Q ((if r.state = .inChatRoom then
      leaveRoom c r.roomIndex >>= fun _ => cleanupClient c
      else cleanupClient c) >>= k) r msgs := by
    have hread := h.next (b := s.clients c) nofun nofun hr rfl
    rwa [hr] at hread
  split at hnext
  · obtain ⟨⟨b, s'⟩, hleave⟩ := Option.isSome_iff_exists.mp
      (isSome_exec (a := .leaveSection r.roomIndex c) s rfl)
    have hcleanup : Drains c Ends Q (cleanupClient c >>= k) (s'.clients c)
        msgs := Drains.next hnext nofun nofun hr hleave
    exact hcleanup.1 rfl
  · exact hnext.1 rfl

theorem Act.ofCommand.undisturbed {a : Act N C} (ha : a.ofCommand d) :
    ¬ a.disturbs c := by
  cases a <;> simp_all [Act.ofCommand, Act.disturbs]

/-- A message that is no `CMD_EXIT` leaves the client its text. -/
theorem drains_dispatch (huse : r.inUse = true)
    (hexit : isExit r.currentMsg = true → Ends msgs) :
    Drains c Ends (fun r' msgs' => r'.currentMsg = r.currentMsg ∧
      r'.inUse = true ∧ msgs' = msgs ∧ isExit r.currentMsg = false)
      (dispatch c r) r msgs := by
  cases hmsg : isExit r.currentMsg with
  | false =>
      have hall := (all_dispatchCommand c r hmsg).imp
        fun _ ha => Act.ofCommand.undisturbed (c := c) ha
      exact (Drains.undisturbed hall huse).imp
        fun r' msgs' h => ⟨h.1, h.2.1, h.2.2, rfl⟩
  | true =>
      obtain ⟨hr, hcmd⟩ := (isExit_iff r).mp hmsg
      simp only [dispatch, hr, handleAccepted, hcmd, if_true]
      exact (drains_disconnection (hexit hmsg)).imp fun _ _ h => h.elim

/-- What has been read is handed over, but for the text of the client. -/
structure Settled (read : Bytes) (r : Client) (msgs : List Bytes) : Prop where
  pieces : Delimited.pieces cr lf read = (msgs, r.currentMsg)
  stays : ∀ msg ∈ msgs, isExit msg = false
  inUse : r.inUse = true

/-- The loop hands over what a reader of the text and the chunk finds. -/
theorem drains_messageLoop {read : Bytes} {frames : List Bytes}
    (hframes : (Delimited.pieces cr lf read).1 <+: frames) (fuel : Nat) :
    ∀ (temp : Bytes) (r : Client) (msgs : List Bytes), temp.length < fuel →
      r.inUse = true → (∀ msg ∈ msgs, isExit msg = false) →
      Delimited.pieces cr lf read =
        (msgs ++ (Delimited.feed cr lf r.currentMsg temp).1,
          (Delimited.feed cr lf r.currentMsg temp).2) →
      Drains c (fun msgs => msgs = upToExit frames) (Settled read)
        (messageLoop c fuel temp) r msgs := by
  induction fuel with
  | zero => intro temp r msgs hfuel; omega
  | succ fuel ih =>
      intro temp r msgs hfuel huse hstays hread
      unfold messageLoop
      cases hcut : strstrTerminator temp with
      | none =>
          rw [feed_of_free hcut, List.append_nil] at hread
          by_cases htemp : temp = []
          · simp only [htemp, if_true]
            rw [htemp, List.append_nil] at hread
            exact ⟨hread, hstays, huse⟩
          · simp only [htemp, if_false]
            refine .act (by rintro ⟨⟩) (by rintro ⟨⟩) fun s b s' hr he => ?_
            cases he
            simp only [Function.update_self, hr]
            exact ⟨hread, hstays, huse⟩
      | some out =>
          obtain ⟨piece, rest⟩ := out
          have hlen := Delimited.length_of_cut hcut
          rw [feed_of_cut hcut] at hread
          refine .act (by rintro ⟨⟩) (by rintro ⟨⟩) fun s b s' hr he => ?_
          cases he
          simp only [Function.update_self, hr]
          show Drains c _ _ (routeClientCommand c >>= fun _ =>
            act (.clearCurrentMsg c) >>= fun _ => messageLoop c fuel rest) _
              msgs
          generalize hmsg : r.currentMsg ++ piece = msg at hread ⊢
          have hexit : isExit msg = true → msgs ++ [msg] = upToExit frames := by
            intro hexit
            obtain ⟨tail, htail⟩ := hframes
            rw [hread, List.append_assoc, List.cons_append] at htail
            rw [← htail, upToExit_append hstays hexit]
          have hroute : Drains c (fun msgs => msgs = upToExit frames)
              (fun r' msgs' => r'.currentMsg = msg ∧ r'.inUse = true ∧
                msgs' = msgs ++ [msg] ∧ isExit msg = false)
              (routeClientCommand c) { r with currentMsg := msg } msgs := by
            rw [routeClientCommand_eq]
            refine ⟨by rintro ⟨⟩, fun s b s' hr he _ => ?_⟩
            have hrecord : b = { r with currentMsg := msg } ∧
                s'.clients c = { r with currentMsg := msg } := by
              rcases exec_routeMessage he with ⟨hb, ⟨-, rfl⟩ | ⟨line, -, rfl⟩⟩
              all_goals exact ⟨hb.trans hr, hr⟩
            have hrouted : routed? c ⟨.routeMessage c, s, s'⟩ = some msg := by
              simp only [routed?, if_true, hr]
            rw [hrecord.1, hrecord.2, hrouted]
            exact drains_dispatch (r := { r with currentMsg := msg }) huse hexit
          apply hroute.bind
          rintro - r' msgs' ⟨-, huse', rfl, hno⟩
          refine .act (by rintro ⟨⟩) (by rintro ⟨⟩) fun s b s' hr' he => ?_
          cases he
          simp only [Function.update_self, hr']
          apply ih rest { r' with currentMsg := [] } _ (by omega) huse'
          · intro m hm
            rcases List.mem_append.mp hm with hm | hm
            · exact hstays m hm
            · rw [List.mem_singleton.mp hm]
              exact hno
          · rw [hread, List.append_assoc]
            rfl

end Drains

/-! ## One step of the server -/

section Exec

variable {live : Bool → Prop} {s s' : State N C} {t : Thread N} {a : Act N C}
  {b : a.Answer} {c d : ClientPtr N C} {q : Conn}

theorem routedOf_route {r : Client}
    (he : exec (.routeMessage d) s = some (r, s')) :
    routedOf q s' = routedOf q s ++
      if s.connOf d = some q then [(s.clients d).currentMsg] else [] := by
  have hjournal : s'.journal = s.journal ++
      [.routed d (s.connOf d) (s.clients d)] := by
    rcases exec_routeMessage he with ⟨-, ⟨-, rfl⟩ | ⟨line, -, rfl⟩⟩
    all_goals rfl
  unfold routedOf
  rw [hjournal, List.filterMap_append]
  by_cases hq : s.connOf d = some q
  · simp [hq]
  · simp [hq]

/-- The other actions hand no message over. -/
theorem exec_unrouted (ha : ∀ d, a ≠ .routeMessage d)
    (he : exec a s = some (b, s')) :
    ∃ extra, s'.journal = s.journal ++ extra ∧
      ∀ d who record, Entry.routed d who record ∉ extra := by
  cases hspeech : a.isSpeech with
  | false =>
      obtain ⟨extra, hjournal, hextra⟩ := exec_speech hspeech he
      refine ⟨extra, hjournal, fun d who record hmem => ?_⟩
      cases hextra _ hmem
  | true =>
      cases a <;> simp only [Act.isSpeech, Bool.false_eq_true] at hspeech
      case routeMessage d => exact absurd rfl (ha d)
      case chatSection i d msg =>
        rw [exec_chatSection he]
        simp only [State.afterChat, List.append_assoc]
        refine ⟨_, rfl, fun d who record hmem => ?_⟩
        simp at hmem

theorem routedOf_other (ha : ∀ d, a ≠ .routeMessage d)
    (he : exec a s = some (b, s')) : routedOf q s' = routedOf q s := by
  obtain ⟨extra, hjournal, hextra⟩ := exec_unrouted ha he
  have hnone : extra.filterMap (fun
      | .routed _ who record =>
          if who = some q then some record.currentMsg else none
      | _ => none) = [] := by
    refine List.filterMap_eq_nil_iff.mpr fun e hmem => ?_
    cases e with
    | routed d who record => exact absurd hmem (hextra d who record)
    | _ => rfl
  unfold routedOf
  rw [hjournal, List.filterMap_append, hnone, List.append_nil]

/-- A message of a connection is handed over by its own client. -/
theorem Own.heldBy_of_route (h : Own s)
    (ha : AllowedOf live t s (.routeMessage d)) (hq : s.connOf d = some q) :
    s.HeldBy q (.slot d) := by
  have huse : (s.clients d).inUse = true := by
    by_contra hfree
    rw [State.connOf, h.free d (by simpa using hfree), h.zero] at hq
    cases hq
  refine heldBy_slot (holding_slot huse fun hclosing => ?_) hq
  rw [ha.2] at hclosing
  cases hclosing

theorem Own.routedOf_exec (h : Own s) (ha : AllowedOf live t s a)
    (hheld : s.HeldBy q (.slot c)) (he : exec a s = some (b, s')) :
    routedOf q s' = routedOf q s ++ (routed? c ⟨a, s, s'⟩).toList := by
  by_cases hroute : ∃ d, a = .routeMessage d
  · obtain ⟨d, rfl⟩ := hroute
    rw [routedOf_route he]
    by_cases hd : d = c
    · subst hd
      rw [if_pos (HeldBy.slot hheld).2]
      simp [routed?]
    · have hq : s.connOf d ≠ some q := fun hq =>
        hd (h.slot_inj (h.heldBy_of_route ha hq) hheld)
      rw [if_neg hq]
      simp [routed?, hd]
  · push Not at hroute
    rw [routedOf_other hroute he, routed?_none (hroute c),
      Option.toList_none, List.append_nil]

/-- A slot that is being closed stays so until it is zeroed. -/
theorem closing_stays (ha : AllowedOf live t s a) (he : exec a s = some (b, s'))
    (hzero : a ≠ .zeroClient c)
    (hpoint : (s.point c.worker).closing = some c.index) :
    (s'.point c.worker).closing = some c.index := by
  by_cases hw : a.worker? = some c.worker
  swap
  · rwa [exec_point_of_ne hw he]
  have hcontra : ∀ {p : WorkerPoint C}, s.point c.worker = p →
      p.closing = none → (s'.point c.worker).closing = some c.index := by
    intro p hp hnone
    rw [hp, hnone] at hpoint
    cases hpoint
  obtain ⟨w, j⟩ := c
  cases a <;> simp only [Act.worker?, Option.some.injEq, reduceCtorEq] at hw
  all_goals subst hw
  case strcatCurrentMsg | clearCurrentMsg =>
    cases he
    exact hpoint
  case routeMessage c => exact hcontra ha.2 rfl
  case strcpyName c name => exact hcontra ha.1.2.2 rfl
  case createSection i c roomName successMsg => exact hcontra ha.1.2.2 rfl
  case joinSection i c joinMsg => exact hcontra ha.2.2 rfl
  case chatSection i c msg => exact hcontra ha.2.2.2 rfl
  case leaveSection i c => exact hcontra ha.1.2.2 rfl
  case setLobby c =>
    rcases ha with hready | ⟨-, hleft⟩
    · exact hcontra hready.2.2 rfl
    · exact hcontra hleft rfl
  case closeClient c =>
    rcases ha.2 with ⟨-, hidle⟩ | hleft
    · exact hcontra hidle rfl
    · exact hcontra hleft rfl
  case zeroClient c =>
    have hclosed := ha.2
    rw [hclosed, closing_closed, Option.some.injEq] at hpoint
    obtain rfl : c.index = j := hpoint
    exact absurd rfl hzero
  case subtractZeroed => exact hcontra ha.2 rfl
  case readEventfd ok => exact hcontra ha.2 rfl
  case postUnread => exact hcontra ha.2 rfl
  case semPost fd => exact hcontra ha.2 rfl
  case registerWithEpoll fd ok => exact hcontra ha.2 rfl
  case allocateClientSlot fd => exact hcontra ha.2 rfl
  case subtractRefused fd => exact hcontra ha.2 rfl
  case closeRefused fd => exact hcontra ha.2 rfl

/-- A slot comes to hold a connection when it is filled. -/
theorem Own.heldBy_new (h : Own s) (hinv : ∀ v, Relay s v)
    (ha : AllowedOf live t s a) (he : exec a s = some (b, s')) (hnot : ¬ s.HeldBy q (.slot c))
    (hheld : s'.HeldBy q (.slot c)) :
    ∃ fd, a = .allocateClientSlot c.worker fd ∧
      s'.clients c = Client.fresh fd := by
  obtain ⟨fd, hslot', hq'⟩ := hheld
  obtain ⟨huse', hfd'⟩ := of_holding_slot hslot'
  have hclosing' : (s'.point c.worker).closing ≠ some c.index := by
    intro hclosing
    simp [State.holding, State.slotFd, hclosing] at hslot'
  have hclose : a ≠ .closeClient c := by
    rintro rfl
    cases he
    exact hclosing' (by simp [closeClient])
  have hold : (s.clients c).inUse = true → (s.clients c).clientFd = fd →
      a ≠ .zeroClient c → False := by
    intro huse hfd hzero
    have hslot := holding_slot huse fun hclosing =>
      hclosing' (closing_stays ha he hzero hclosing)
    rw [hfd] at hslot
    have hconn := (h.slot_stays_of hinv ha hclose he hslot).2
    exact hnot ⟨fd, hslot, hconn.symm.trans hq'⟩
  have hupdates := exec_updates he c
  generalize hr : s'.clients c = r at hupdates huse' hfd' ⊢
  cases hupdates with
  | allocated fd' _ => exact ⟨fd', rfl, rfl⟩
  | zeroed => cases huse'
  | same =>
      by_cases hzero : a = .zeroClient c
      · subst hzero
        cases he
        have huse : (s.clients c).inUse = false := by
          rw [← hr]
          simp [zeroClient, Client.zero]
        rw [huse] at huse'
        cases huse'
      · exact (hold huse' hfd' hzero).elim
  | appended | cleared | named | lobby | created | joined =>
      exact (hold huse' hfd' (by rintro ⟨⟩)).elim

end Exec

/-! ## Jobs that concern other clients -/

section Jobs

variable {c d : ClientPtr N C}

/-- The action fills a slot. -/
def Act.fills : Act N C → Prop
  | .allocateClientSlot .. => True
  | _ => False

/-- The program fills no slot, or is a registration. -/
def FillsAlone (prog : ServerProg N C Unit) : Prop :=
  Prog.All (fun a => ¬ a.fills) prog ∨
    Prog.All (fun a => ∀ c, ¬ a.disturbs c) prog

theorem FillsAlone.next {a : Act N C} {next : a.Answer → ServerProg N C Unit}
    (h : FillsAlone (.act a next)) (b : a.Answer) : FillsAlone (next b) :=
  h.imp (fun h => h.2 b) fun h => h.2 b

theorem Act.ofHandler.undisturbed (hd : d ≠ c) {a : Act N C}
    (ha : a.ofHandler d) : ¬ a.disturbs c := by
  cases a <;> simp_all [Act.ofHandler, Act.ofCommand, Act.disturbs]

theorem Act.ofHandler.not_fills {a : Act N C} (ha : a.ofHandler d) :
    ¬ a.fills := by
  cases a <;> simp_all [Act.ofHandler, Act.ofCommand, Act.fills]

theorem all_reading {P : Act N C → Prop} (hhandler : ∀ a, a.ofHandler d → P a)
    (hstrcat : ∀ piece, P (.strcatCurrentMsg d piece))
    (hroute : P (.routeMessage d)) (hclear : P (.clearCurrentMsg d))
    (result : RecvResult) :
    Prog.All P (readAndProcessClientMessage d result) := by
  cases result with
  | nothing wouldBlock =>
      cases wouldBlock with
      | true => trivial
      | false => exact (all_handleClientDisconnection d).imp hhandler
  | data bytes =>
      exact all_messageLoop d hhandler hstrcat hroute hclear _ _

/-- What a worker does for another client. -/
theorem undisturbed_client (hd : d ≠ c) {j : Job N C} {result : RecvResult}
    (hj : j = .hangUp d ∨ j = .receive d result) (w : Fin N) :
    Prog.All (fun a => ¬ a.disturbs c) (jobProg (.worker w) j) := by
  rcases hj with rfl | rfl
  · exact (all_handleClientDisconnection d).imp
      fun _ => Act.ofHandler.undisturbed hd
  · exact all_reading (fun _ => Act.ofHandler.undisturbed hd)
      (fun _ => hd) hd hd result

theorem undisturbed_register (w : Fin N) (readOk epollOk : Bool) :
    Prog.All (fun a => ∀ c, ¬ a.disturbs c)
      (jobProg (.worker w) (.register readOk epollOk) :
        ServerProg N C Unit) := by
  refine all_registering (fun _ => nofun) (fun a ha c => ?_) epollOk
  cases a <;> simp_all [Act.ofRegister, Act.disturbs]

theorem fillsAlone_client {j : Job N C} {result : RecvResult}
    (hj : j = .hangUp d ∨ j = .receive d result) (w : Fin N) :
    FillsAlone (jobProg (.worker w) j) := by
  rcases hj with rfl | rfl
  · exact .inl ((all_handleClientDisconnection d).imp
      fun _ => Act.ofHandler.not_fills)
  · exact .inl (all_reading (fun _ => Act.ofHandler.not_fills)
      (fun _ => nofun) nofun nofun result)

end Jobs

/-! ## Every step -/

/-- Where connection `q` is, and what of its stream has been read. -/
inductive Stage (q : Conn) (frames : List Bytes) (p : Linked N C) : Prop where
  /-- It has no slot yet. -/
  | waiting
      (hlink : Delimited.join cr lf frames = p.link.queue ++ p.link.coming)
      (hrouted : routedOf q p.polling.config.shared = [])
      (hslot : ∀ c, ¬ p.polling.config.shared.HeldBy q (.slot c))
  /-- Its client follows the stream without a cut in a terminator. -/
  | serving (c : ClientPtr N C) (read : Bytes)
      (hheld : p.polling.config.shared.HeldBy q (.slot c))
      (hlink : Delimited.join cr lf frames =
        read ++ (p.link.queue ++ p.link.coming))
      (hcut : ¬ Delimited.Straddles cr lf read
        (p.link.queue ++ p.link.coming))
      (hdrains : Drains c (fun msgs => msgs = upToExit frames) (Settled read)
        (p.polling.config.prog (.worker c.worker))
        (p.polling.config.shared.clients c)
        (routedOf q p.polling.config.shared))
  /-- It is closed. -/
  | gone (hclosed : ∀ fd, p.polling.config.shared.conns fd ≠ some q)
      (hrange : q < p.polling.config.shared.accepted)

/-- What holds in everything that can happen while every step is unhurried. -/
structure LinkInv (notificationFd : Fin N → Fd) [NeZero N] (q : Conn)
    (frames : List Bytes) (p : Linked N C) : Prop where
  poll : PollInv notificationFd p.polling
  ended : p.link.closed = true → p.link.coming = []
  flags : ∀ w, ∀ r ∈ p.polling.batch w, r.source = some q →
    r.event.hangUp = true → p.link.closed = true
  fills : ∀ w, FillsAlone (p.polling.config.prog (.worker w))
  stage : Stage q frames p

theorem Stage.heard {q : Conn} {frames : List Bytes} {p : Linked N C}
    [NeZero N] {notificationFd : Fin N → Fd}
    (h : Stage q frames p) (hpoll : PollInv notificationFd p.polling) :
    Heard q frames p.polling := by
  intro c k hprog hheld
  cases h with
  | waiting hlink hrouted hslot => exact absurd hheld (hslot c)
  | gone hclosed hrange =>
      obtain ⟨fd, -, hq⟩ := hheld
      exact absurd hq (hclosed fd)
  | serving d read hd hlink hcut hdrains =>
      have hdc := hpoll.own.slot_inj hd hheld
      subst hdc
      rw [hprog] at hdrains
      exact hdrains.ends _ rfl

section Steps

variable {q : Conn} {frames : List Bytes} {p : Polling N C} {l l' : Link}
  {w : Fin N}

/-- A step of a thread. -/
theorem Stage.act {t : Thread N} {a : Act N C}
    {next : a.Answer → ServerProg N C Unit} {b : a.Answer} {s' : State N C}
    (h : Stage q frames ⟨p, l⟩) (hinv : ∀ v, Relay p.config.shared v)
    (hown : Own p.config.shared)
    (hfills : ∀ w, FillsAlone (p.config.prog (.worker w)))
    (hp : p.config.prog t = .act a next)
    (ha : AllowedOf Any t p.config.shared a)
    (he : exec a p.config.shared = some (b, s')) :
    Stage q frames ⟨⟨p.config.update t s' (next b), p.batch⟩, l⟩ := by
  cases h with
  | waiting hlink hrouted hslot =>
      have hrouted' : routedOf q s' = [] := by
        by_cases hroute : ∃ d, a = .routeMessage d
        · obtain ⟨d, rfl⟩ := hroute
          rw [routedOf_route he, if_neg fun hq => hslot d
            (hown.heldBy_of_route ha hq), List.append_nil]
          exact hrouted
        · push Not at hroute
          rw [routedOf_other hroute he]
          exact hrouted
      by_cases hnew : ∃ c, s'.HeldBy q (.slot c)
      · obtain ⟨c, hheld⟩ := hnew
        obtain ⟨fd, rfl, hfresh⟩ := hown.heldBy_new hinv ha he (hslot c) hheld
        obtain ⟨rfl, -⟩ := ha
        have hrest : Prog.All (fun a => ∀ c, ¬ a.disturbs c) (next b) := by
          have hfill := hfills c.worker
          rw [hp] at hfill
          rcases hfill with hfill | hfill
          · exact absurd trivial hfill.1
          · exact hfill.2 b
        refine .serving c [] hheld hlink (fun hst => by cases hst.1) ?_
        show Drains c _ _ _ (s'.clients c) (routedOf q s')
        rw [Config.update_prog_self, hrouted', hfresh]
        apply (Drains.undisturbed (hrest.imp fun _ ha => ha c) rfl).imp
        rintro r msgs ⟨htext, huse, rfl⟩
        exact ⟨by rw [htext]; rfl, nofun, huse⟩
      · push Not at hnew
        exact .waiting hlink hrouted' hnew
  | serving c read hheld hlink hcut hdrains =>
      have hrouted := hown.routedOf_exec ha hheld he
      by_cases hclose : a = .closeClient c
      · subst hclose
        obtain ⟨hslot, hq⟩ := HeldBy.slot hheld
        cases he
        refine .gone (fun fd hfd => ?_) (hown.range _ _ hq)
        simp only [closeClient, Config.update_shared] at hfd
        by_cases hsame : fd = (p.config.shared.clients c).clientFd
        · subst hsame
          rw [Function.update_self] at hfd
          cases hfd
        · rw [Function.update_of_ne hsame] at hfd
          exact hsame (hown.owned.distinct _ _ _ hfd hq)
      · have hheld' : s'.HeldBy q (.slot c) := by
          obtain ⟨fd, hslot, hq⟩ := hheld
          obtain ⟨hslot', hconn⟩ :=
            hown.slot_stays_of hinv ha hclose he hslot
          exact ⟨fd, hslot', hconn.trans hq⟩
        refine .serving c read hheld' hlink hcut ?_
        show Drains c _ _ _ (s'.clients c) (routedOf q s')
        by_cases ht : t = .worker c.worker
        · subst ht
          rw [Config.update_prog_self, hrouted]
          have hnow : Drains c _ _ (p.config.prog (.worker c.worker)) _ _ :=
            hdrains
          rw [hp] at hnow
          exact hnow.2 _ b s' rfl he hclose
        · have hroute : a ≠ .routeMessage c := by
            rintro rfl
            exact ht ha.1.1
          have hclient : s'.clients c = p.config.shared.clients c :=
            congrFun (congrArg Prod.fst
              (view_exec (Ne.symm ht) ha.owned he)) c.index
          rw [Config.update_prog_ne _ (Ne.symm ht), hclient, hrouted,
            routed?_none hroute, Option.toList_none, List.append_nil]
          exact hdrains
  | gone hclosed hrange =>
      rcases exec_conns he with ⟨fd, -, -, hconns, haccepted⟩ |
        ⟨haccepted, hconns⟩
      · refine .gone (fun fd' hq => ?_) ?_
        · simp only [Config.update_shared, hconns] at hq
          by_cases hfd : fd' = fd
          · subst hfd
            rw [Function.update_self, Option.some.injEq] at hq
            exact hrange.ne' hq
          · rw [Function.update_of_ne hfd] at hq
            exact hclosed fd' hq
        · show q < s'.accepted
          rw [haccepted]
          exact Nat.lt_succ_of_lt hrange
      · refine .gone (fun fd' hq => ?_) (haccepted ▸ hrange)
        rcases hconns with ⟨-, hconns⟩ | ⟨fd, -, hconns⟩
        · simp only [Config.update_shared, hconns] at hq
          exact hclosed fd' hq
        · simp only [Config.update_shared, hconns] at hq
          by_cases hfd : fd' = fd
          · subst hfd
            rw [Function.update_self] at hq
            cases hq
          · rw [Function.update_of_ne hfd] at hq
            exact hclosed fd' hq

/-- What is read from the stream and where it is cut. -/
theorem settled_read {r : Client} {read bytes rest : Bytes} {msgs : List Bytes}
    (hframes : ∀ msg ∈ frames, FrameText msg) (hset : Settled read r msgs)
    (hlink : Delimited.join cr lf frames = read ++ (bytes ++ rest))
    (hcut : ¬ Delimited.Straddles cr lf read (bytes ++ rest))
    (hne : bytes ≠ []) :
    cString bytes = bytes ∧
      (Delimited.pieces cr lf (read ++ bytes)).1 <+: frames ∧
      Delimited.pieces cr lf (read ++ bytes) =
        (msgs ++ (Delimited.feed cr lf r.currentMsg bytes).1,
          (Delimited.feed cr lf r.currentMsg bytes).2) := by
  have hcr : cr ≠ lf := by decide
  have hpieces := hset.pieces
  have hnul : 0 ∉ bytes := by
    intro hmem
    have hall : (0 : UInt8) ∈ Delimited.join cr lf frames := by
      rw [hlink]
      simp [hmem]
    obtain ⟨msg, hmsg, hin⟩ := List.mem_flatMap.mp hall
    rcases List.mem_append.mp hin with hin | hin
    · exact (hframes msg hmsg).noNul hin
    · exact absurd hin (by decide)
  refine ⟨cString_of_not_mem hnul, ?_, ?_⟩
  · have hwhole := Delimited.pieces_unique hcr
      (fun msg hmsg => (hframes msg hmsg).free) (Delimited.free_nil)
    rw [List.append_nil, hlink, ← List.append_assoc,
      Delimited.pieces_append hcr (read ++ bytes)] at hwhole
    exact ⟨_, congrArg Prod.fst hwhole⟩
  · have hhead : ¬ Delimited.Straddles cr lf r.currentMsg bytes := by
      have htail := Delimited.straddles_tail_iff hcr read bytes
      rw [hpieces] at htail
      intro hst
      refine hcut ⟨(htail.mp hst).1, ?_⟩
      rw [List.head?_append_of_ne_nil _ hne]
      exact hst.2
    have hfree : Delimited.Free cr lf r.currentMsg := by
      have hfree := (Delimited.pieces_free (x := cr) (y := lf) read).2
      rwa [hpieces] at hfree
    rw [Delimited.feed_eq_pieces hcr hfree hhead, Delimited.pieces_append hcr,
      hpieces]

/-- When everything has been read, everything has been handed over. -/
theorem settled_all {r : Client} {read : Bytes} {msgs : List Bytes}
    (hframes : ∀ msg ∈ frames, FrameText msg) (hset : Settled read r msgs)
    (hlink : Delimited.join cr lf frames = read) : msgs = upToExit frames := by
  have hwhole := Delimited.pieces_unique (by decide)
    (fun msg hmsg => (hframes msg hmsg).free) (Delimited.free_nil)
  rw [List.append_nil, hlink, hset.pieces] at hwhole
  obtain rfl : msgs = frames := congrArg Prod.fst hwhole
  exact (upToExit_of_none hset.stays).symm

/-- While something is still to be read, not everything has been handed over. -/
theorem settled_unread {r : Client} {read rest : Bytes} {msgs : List Bytes}
    (hset : Settled read r msgs)
    (hlink : Delimited.join cr lf frames = read ++ rest) (hrest : rest ≠ []) :
    msgs ≠ upToExit frames := by
  intro hall
  have hstays : ∀ msg ∈ frames, isExit msg = false := by
    by_contra hexit
    push Not at hexit
    obtain ⟨msg, hmsg, hexit⟩ := hexit
    obtain ⟨last, hlast, hlastExit⟩ :=
      exit_of_upToExit ⟨msg, hmsg, by simpa using hexit⟩
    rw [hset.stays last (hall ▸ hlast)] at hlastExit
    cases hlastExit
  rw [upToExit_of_none hstays] at hall
  have hread := Delimited.join_pieces (x := cr) (y := lf) read
  rw [hset.pieces, hall, hlink, List.append_assoc] at hread
  have hnil := List.append_right_eq_self.mp hread
  exact hrest (List.append_eq_nil_iff.mp hnil).1

/-- The handler of an event of the connection itself. -/
theorem drains_event {c : ClientPtr N C} {r : Client} {read : Bytes}
    {msgs : List Bytes} {event : EpollEvent} {result : RecvResult}
    (hframes : ∀ msg ∈ frames, FrameText msg) (hset : Settled read r msgs)
    (hlink : Delimited.join cr lf frames = read ++ (l.queue ++ l.coming))
    (hcut : ¬ Delimited.Straddles cr lf read (l.queue ++ l.coming))
    (hended : l.closed = true → l.coming = [])
    (hclosed : event.hangUp = true → l.closed = true ∧ l.queue = [])
    (hsplit : event.hangUp = false → ∀ bytes, result = .data bytes →
      bytes ≠ [] ∧ ¬ Delimited.Straddles cr lf bytes
        (l.queue.drop bytes.length ++ l.coming))
    (hreturns : if event.hangUp = false then l.Returns result l' else l' = l) :
    ∃ read', Delimited.join cr lf frames = read' ++ (l'.queue ++ l'.coming) ∧
      ¬ Delimited.Straddles cr lf read' (l'.queue ++ l'.coming) ∧
      Drains c (fun msgs => msgs = upToExit frames) (Settled read')
        (jobProg (.worker c.worker)
          (if event.hangUp then .hangUp c else .receive c result)) r msgs := by
  have hall : l.queue = [] → l.closed = true →
      Drains c (fun msgs => msgs = upToExit frames) (Settled read)
        (handleClientDisconnection c) r msgs := by
    intro hempty hclosed
    rw [hempty, hended hclosed, List.append_nil, List.append_nil] at hlink
    refine Drains.imp (fun _ _ h => False.elim h) (drains_disconnection ?_)
    exact settled_all hframes hset hlink
  cases hup : event.hangUp with
  | true =>
      obtain ⟨hclosed, hempty⟩ := hclosed hup
      rw [hup] at hreturns
      cases hreturns
      exact ⟨read, hlink, hcut, hall hempty hclosed⟩
  | false =>
      rw [hup] at hreturns
      cases result with
      | nothing wouldBlock =>
          obtain ⟨hempty, rfl, hclosed⟩ := hreturns
          refine ⟨read, hlink, hcut, ?_⟩
          cases wouldBlock with
          | true => exact hset
          | false => exact hall hempty (hclosed rfl)
      | data bytes =>
          obtain ⟨rest, hqueue, rfl⟩ := hreturns
          obtain ⟨hne, hsplit⟩ := hsplit hup bytes rfl
          rw [hqueue, List.append_assoc] at hlink hcut
          rw [hqueue, List.drop_left] at hsplit
          obtain ⟨hcstring, hprefix, hread⟩ :=
            settled_read hframes hset hlink hcut hne
          refine ⟨read ++ bytes, ?_, ?_, ?_⟩
          · rw [hlink, List.append_assoc]
          · rintro ⟨hlast, hhead⟩
            rw [List.getLast?_append_of_ne_nil _ hne] at hlast
            exact hsplit ⟨hlast, hhead⟩
          · show Drains c _ _ (messageLoop c ((cString bytes).length + 1)
              (cString bytes)) r msgs
            rw [hcstring]
            exact drains_messageLoop hprefix _ bytes r msgs
              (Nat.lt_succ_self _) hset.inUse hset.stays hread

/-- What the next event of a batch starts. -/
theorem event_job {notificationFd : Fin N → Fd} {s : State N C} {r : Raised}
    {rest : List Raised} {result : RecvResult} {readOk epollOk : Bool}
    {j : Job N C} (hown : Own s) (hfree : s.conns (notificationFd w) = none)
    (hbatch : BatchOk notificationFd s w (.ret ()) (r :: rest))
    (hevent : processEpollEvent notificationFd s w r.event result readOk
      epollOk = some j) :
    (r.source = none ∧ j = .register readOk epollOk) ∨
      ∃ (d : ClientPtr N C) (q' : Conn), d.worker = w ∧ r.source = some q' ∧
        s.HeldBy q' (.slot d) ∧
        j = if r.event.hangUp then .hangUp d else .receive d result := by
  cases hsource : r.source with
  | none =>
      have hfd := (hbatch.eventfd r List.mem_cons_self hsource).1
      unfold processEpollEvent at hevent
      rw [if_pos hfd] at hevent
      cases hevent
      exact .inl ⟨rfl, rfl⟩
  | some q' =>
      obtain ⟨i, hslot, hconns, -⟩ :=
        hbatch.client r List.mem_cons_self q' hsource
      rw [processEpollEvent_client hown hfree hslot hconns] at hevent
      exact .inr ⟨⟨w, i⟩, q', rfl, rfl, ⟨_, hslot, hconns⟩,
        (Option.some.inj hevent).symm⟩

theorem client_job {d : ClientPtr N C} {hangUp : Bool} {result : RecvResult}
    {j : Job N C} (hj : j = if hangUp then .hangUp d else .receive d result) :
    j = .hangUp d ∨ j = .receive d result := by
  rw [hj]
  cases hangUp with
  | true => exact .inl rfl
  | false => exact .inr rfl

/-- A worker takes up the next event of its batch. -/
theorem Stage.handle [NeZero N] {notificationFd : Fin N → Fd} {r : Raised}
    {rest : List Raised} {result : RecvResult} {readOk epollOk : Bool}
    {j : Job N C} (hframes : ∀ msg ∈ frames, FrameText msg)
    (h : Stage q frames ⟨p, l⟩) (hpoll : PollInv notificationFd p)
    (hended : l.closed = true → l.coming = [])
    (hidle : p.config.prog (.worker w) = .ret ())
    (hbatch : p.batch w = r :: rest)
    (hevent : processEpollEvent notificationFd p.config.shared w r.event
      result readOk epollOk = some j)
    (hjob : JobOk j)
    (hflag : r.source = some q → r.event.hangUp = true → l.closed = true)
    (hunhurried : Unhurried q ⟨p, l⟩ (.handle w r result))
    (hreturns : if r.source = some q ∧ r.event.hangUp = false then
      l.Returns result l' else l' = l) :
    Stage q frames ⟨⟨p.config.update (.worker w) p.config.shared
      (jobProg (.worker w) j), Function.update p.batch w rest⟩, l'⟩ := by
  have hw := hpoll.batch w
  rw [hidle, hbatch] at hw
  have hevents := event_job hpoll.own (hpoll.eventfds w) hw hevent
  -- An event of another descriptor leaves the socket as it is.
  have hother : r.source ≠ some q → l' = l := by
    intro hsource
    rwa [if_neg fun hq => hsource hq.1] at hreturns
  cases h with
  | waiting hlink hrouted hslot =>
      have hsource : r.source ≠ some q := by
        rcases hevents with ⟨hnone, -⟩ | ⟨d, q', -, hsome, hheld, -⟩
        · rw [hnone]
          exact nofun
        · rw [hsome]
          rintro ⟨⟩
          exact hslot d hheld
      cases hother hsource
      exact .waiting hlink hrouted hslot
  | gone hclosed hrange => exact .gone hclosed hrange
  | serving c read hheld hlink hcut hdrains =>
      have hown := hpoll.own
      by_cases hworker : w = c.worker
      swap
      · have hsource : r.source ≠ some q := by
          rcases hevents with ⟨hnone, -⟩ | ⟨d, q', hd, hsome, hheld', -⟩
          · rw [hnone]
            exact nofun
          · rw [hsome]
            rintro ⟨⟩
            exact hworker (hd ▸ congrArg ClientPtr.worker
              (hown.slot_inj hheld' hheld))
        cases hother hsource
        refine .serving c read hheld hlink hcut ?_
        show Drains c _ _ _ _ _
        rw [Config.update_prog_ne _ fun h => hworker (Thread.worker.inj h).symm]
        exact hdrains
      subst hworker
      have hset : Settled read (p.config.shared.clients c)
          (routedOf q p.config.shared) := by
        have hnow : Drains c _ _ (p.config.prog (.worker c.worker)) _ _ :=
          hdrains
        rwa [hidle] at hnow
      have hundisturbed : r.source ≠ some q →
          Prog.All (fun a => ¬ a.disturbs c)
            (jobProg (.worker c.worker) j) → Stage q frames
          ⟨⟨p.config.update (.worker c.worker) p.config.shared
            (jobProg (.worker c.worker) j),
            Function.update p.batch c.worker rest⟩, l'⟩ := by
        intro hsource hall
        cases hother hsource
        refine .serving c read hheld hlink hcut ?_
        show Drains c _ _ _ _ _
        rw [Config.update_prog_self]
        apply (Drains.undisturbed hall hset.inUse).imp
        rintro r' msgs ⟨htext, huse, rfl⟩
        exact ⟨by rw [htext]; exact hset.pieces, hset.stays, huse⟩
      rcases hevents with ⟨hnone, rfl⟩ | ⟨d, q', hd, hsome, hheld', hj⟩
      · refine hundisturbed (by rw [hnone]; exact nofun) ?_
        exact (undisturbed_register c.worker readOk epollOk).imp
          fun _ ha => ha c
      by_cases hq : q' = q
      · subst hq
        have hdc := hown.slot_inj hheld' hheld
        subst hdc
        have hnow := hunhurried hsome
        have hclosed : r.event.hangUp = true →
            l.closed = true ∧ l.queue = [] := by
          intro hup
          rw [if_pos hup] at hnow
          exact ⟨hflag hsome hup, hnow⟩
        have hsplit : r.event.hangUp = false → ∀ bytes, result = .data bytes →
            bytes ≠ [] ∧ ¬ Delimited.Straddles cr lf bytes
              (l.queue.drop bytes.length ++ l.coming) := by
          rintro hup bytes rfl
          rw [if_neg (by simp [hup])] at hnow
          rw [hup] at hj
          have hlength := (hjob d bytes hj).1
          exact ⟨List.ne_nil_of_length_pos hlength, hnow bytes rfl⟩
        have hreads : if r.event.hangUp = false then l.Returns result l'
            else l' = l := by
          simpa only [hsome, true_and] using hreturns
        obtain ⟨read', hlink', hcut', hdrains'⟩ :=
          drains_event hframes hset hlink hcut hended hclosed hsplit hreads
        refine .serving d read' hheld hlink' hcut' ?_
        show Drains d _ _ _ _ _
        rw [Config.update_prog_self, hj]
        exact hdrains'
      · have hne : d ≠ c := by
          rintro rfl
          exact hq (Option.some.inj
            ((HeldBy.slot hheld').2.symm.trans (HeldBy.slot hheld).2))
        refine hundisturbed ?_ (undisturbed_client hne (client_job hj) _)
        rw [hsome]
        exact fun h => hq (Option.some.inj h)

end Steps

/-! ## Everything that can happen -/

section Linked

variable {notificationFd : Fin N → Fd} {q : Conn} {frames : List Bytes}
  {p p' : Linked N C} {e : LinkEvent N}

/-- For the server a step of the network is no step. -/
theorem LinkStep.polling (h : LinkStep notificationFd q p e p') :
    p'.polling = p.polling ∨
      PollStep notificationFd p.polling p'.polling := by
  cases h with
  | arrive | close => exact .inl rfl
  | wait p l w batch hidle hempty hreported _ =>
      exact .inr (.wait p w batch hidle hempty hreported)
  | handle p l l' w r rest result readOk epollOk j hidle hbatch hevent hjob _ =>
      exact .inr (.handle p w r rest result readOk epollOk j hidle hbatch
        hevent hjob)
  | skip p l w r rest hidle hbatch hskip =>
      exact .inr (.skip p w r rest hidle hbatch hskip)
  | accept p l fd keepAliveOk writeOk hidle =>
      exact .inr (.accept p fd keepAliveOk writeOk hidle)
  | act p l t a next answer s hp he hpromise =>
      exact .inr (.act p t a next answer s hp he hpromise)

/-- The jobs a worker is given fill slots alone. -/
theorem fillsAlone_handle {s : State N C} {w : Fin N} {r : Raised}
    {rest : List Raised} {result : RecvResult} {readOk epollOk : Bool}
    {j : Job N C} (hown : Own s) (hfree : s.conns (notificationFd w) = none)
    (hbatch : BatchOk notificationFd s w (.ret ()) (r :: rest))
    (hevent : processEpollEvent notificationFd s w r.event result readOk
      epollOk = some j) : FillsAlone (jobProg (.worker w) j) := by
  rcases event_job hown hfree hbatch hevent with ⟨-, rfl⟩ | ⟨d, -, -, -, -, hj⟩
  · exact .inr (undisturbed_register w readOk epollOk)
  · exact fillsAlone_client (client_job hj) w

/-- What does not concern the workers, and leaves what is still to be read. -/
theorem Stage.congr (h : Stage q frames p)
    (hshared : p'.polling.config.shared = p.polling.config.shared)
    (hprog : ∀ w, p'.polling.config.prog (.worker w) =
      p.polling.config.prog (.worker w))
    (hunread : p'.link.queue ++ p'.link.coming =
      p.link.queue ++ p.link.coming) : Stage q frames p' := by
  cases h with
  | waiting hlink hrouted hslot =>
      rw [← hunread] at hlink
      rw [← hshared] at hrouted hslot
      exact .waiting hlink hrouted hslot
  | serving c read hheld hlink hcut hdrains =>
      rw [← hunread] at hlink hcut
      rw [← hshared, ← hprog] at hdrains
      rw [← hshared] at hheld
      exact .serving c read hheld hlink hcut hdrains
  | gone hclosed hrange =>
      rw [← hshared] at hclosed hrange
      exact .gone hclosed hrange

variable [NeZero N]

theorem LinkInv.init :
    LinkInv notificationFd q frames
      (Linked.init N C (Delimited.join cr lf frames)) := by
  refine ⟨PollInv.init, nofun, nofun, fun _ => .inl trivial, ?_⟩
  refine .waiting rfl rfl ?_
  rintro c ⟨fd, hslot, -⟩
  have huse := (of_holding_slot hslot).1
  cases huse

theorem LinkInv.step (hframes : ∀ msg ∈ frames, FrameText msg)
    (h : LinkInv notificationFd q frames p) (he : Unhurried q p e)
    (hstep : LinkStep notificationFd q p e p') :
    LinkInv notificationFd q frames p' := by
  have hpoll : PollInv notificationFd p'.polling := by
    rcases hstep.polling with hsame | hpolled
    · rw [hsame]
      exact h.poll
    · exact h.poll.step hpolled
  have hended := h.ended
  have hflags := h.flags
  have hfills := h.fills
  have hstage := h.stage
  cases hstep with
  | arrive p l count =>
      have hcoming : (l.queue ++ l.coming.take count) ++ l.coming.drop count =
          l.queue ++ l.coming := by
        rw [List.append_assoc, List.take_append_drop]
      refine ⟨hpoll, fun hclosed => ?_, hflags, hfills, ?_⟩
      · show l.coming.drop count = []
        rw [hended hclosed, List.drop_nil]
      · exact hstage.congr rfl (fun _ => rfl) hcoming
  | close p l hcoming =>
      exact ⟨hpoll, fun _ => hcoming, fun _ _ _ _ _ => rfl, hfills,
        hstage.congr rfl (fun _ => rfl) rfl⟩
  | wait p l w batch hidle hempty hreported hreports =>
      refine ⟨hpoll, hended, fun v r hr hsource hup => ?_, hfills, ?_⟩
      · by_cases hv : v = w
        · subst hv
          have hmem : r ∈ batch := by
            simpa only [Function.update_self] using hr
          rw [← (hreports r hmem hsource).1]
          exact hup
        · have hmem : r ∈ p.batch v := by
            simpa only [Function.update_of_ne hv] using hr
          exact hflags v r hmem hsource hup
      · exact hstage.congr rfl (fun _ => rfl) rfl
  | skip p l w r rest hidle hbatch hskip =>
      refine ⟨hpoll, hended, fun v r' hr hsource hup => ?_, hfills, ?_⟩
      · by_cases hv : v = w
        · subst hv
          have hmem : r' ∈ rest := by
            simpa only [Function.update_self] using hr
          refine hflags v r' ?_ hsource hup
          rw [hbatch]
          exact List.mem_cons_of_mem _ hmem
        · have hmem : r' ∈ p.batch v := by
            simpa only [Function.update_of_ne hv] using hr
          exact hflags v r' hmem hsource hup
      · exact hstage.congr rfl (fun _ => rfl) rfl
  | accept p l fd keepAliveOk writeOk hidle =>
      have hprog : ∀ w, (p.config.update .main p.config.shared
          (acceptClient fd keepAliveOk writeOk)).prog (.worker w) =
          p.config.prog (.worker w) :=
        fun w => Config.update_prog_ne _ (by simp) _ _
      refine ⟨hpoll, hended, hflags, fun w => ?_, ?_⟩
      · show FillsAlone (Config.prog _ _)
        rw [hprog]
        exact hfills w
      · exact hstage.congr rfl hprog rfl
  | handle p l l' w r rest result readOk epollOk j hidle hbatch hevent hjob
      hreturns =>
      have hw := h.poll.batch w
      rw [hidle, hbatch] at hw
      have hlink : l'.closed = l.closed ∧ (l.coming = [] → l'.coming = []) := by
        split at hreturns
        · cases result with
          | data bytes =>
              obtain ⟨rest, -, rfl⟩ := hreturns
              exact ⟨rfl, id⟩
          | nothing wouldBlock =>
              obtain ⟨-, rfl, -⟩ := hreturns
              exact ⟨rfl, id⟩
        · rw [hreturns]
          exact ⟨rfl, id⟩
      have hmember : ∀ v, ∀ r' ∈ Function.update p.batch w rest v,
          r' ∈ p.batch v := by
        intro v r' hr
        by_cases hv : v = w
        · subst hv
          rw [Function.update_self] at hr
          rw [hbatch]
          exact List.mem_cons_of_mem _ hr
        · rwa [Function.update_of_ne hv] at hr
      refine ⟨hpoll, fun hclosed => ?_, fun v r' hr hsource hup => ?_,
        fun v => ?_, ?_⟩
      · exact hlink.2 (hended (hlink.1 ▸ hclosed))
      · exact hlink.1.trans (hflags v r' (hmember v r' hr) hsource hup)
      · show FillsAlone (Config.prog _ _)
        by_cases hv : v = w
        · subst hv
          rw [Config.update_prog_self]
          exact fillsAlone_handle h.poll.own (h.poll.eventfds v) hw hevent
        · rw [Config.update_prog_ne _ fun h => hv (Thread.worker.inj h)]
          exact hfills v
      · refine hstage.handle hframes h.poll hended hidle hbatch hevent hjob ?_
          he hreturns
        intro hsource hup
        refine hflags w r ?_ hsource hup
        rw [hbatch]
        exact List.mem_cons_self
  | act p l t a next answer s hp hexec hpromise =>
      have ha : AllowedOf Any t p.config.shared a := h.poll.sound.pre hp trivial
      refine ⟨hpoll, hended, hflags, fun v => ?_,
        hstage.act h.poll.relay h.poll.own hfills hp ha hexec⟩
      show FillsAlone (Config.prog _ _)
      by_cases hv : Thread.worker v = t
      · subst hv
        rw [Config.update_prog_self]
        have hfill := hfills v
        rw [hp] at hfill
        exact hfill.next answer
      · rw [Config.update_prog_ne _ hv]
        exact hfills v

theorem linkInv_run (hframes : ∀ msg ∈ frames, FrameText msg)
    (h : LinkRun notificationFd q (Delimited.join cr lf frames) (Unhurried q)
      p) : LinkInv notificationFd q frames p := by
  induction h with
  | refl => exact LinkInv.init
  | tail _ hstep ih =>
      obtain ⟨e, hcond, hstep⟩ := hstep
      exact ih.step hframes hcond hstep

/-- Something that waits unread is never handed over once an event with
`EPOLLRDHUP` is taken up. -/
theorem LinkInv.lost {w : Fin N} {r : Raised} {result : RecvResult}
    (h : LinkInv notificationFd q frames p) (hsource : r.source = some q)
    (hup : r.event.hangUp = true) (hqueue : p.link.queue ≠ [])
    (hstep : LinkStep notificationFd q p (.handle w r result) p') :
    ¬ Heard q frames p'.polling := by
  cases hstep with
  | handle p l l' w r rest result readOk epollOk j hidle hbatch hevent hjob
      hreturns =>
      have hw := h.poll.batch w
      rw [hidle, hbatch] at hw
      rcases event_job h.poll.own (h.poll.eventfds w) hw hevent with
        ⟨hnone, -⟩ | ⟨d, q', rfl, hsome, hheld, hj⟩
      · rw [hnone] at hsource
        cases hsource
      obtain rfl : q' = q := Option.some.inj (hsome.symm.trans hsource)
      rw [if_pos hup] at hj
      subst hj
      intro hheard
      have hrouted : routedOf q' p.config.shared = upToExit frames := by
        refine hheard d .ret ?_ hheld
        rw [Prog.bind_ret]
        exact Config.update_prog_self _ _ _ _
      rcases h.stage with ⟨-, -, hslot⟩ | ⟨c, read, hc, hlink, -, hdrains⟩ |
        ⟨hclosed, -⟩
      · exact hslot d hheld
      · obtain rfl := h.poll.own.slot_inj hc hheld
        have hset : Settled read (p.config.shared.clients c)
            (routedOf q' p.config.shared) := by
          have hnow : Drains c _ _ (p.config.prog (.worker c.worker)) _ _ :=
            hdrains
          rwa [hidle] at hnow
        exact settled_unread hset hlink (by simp [hqueue]) hrouted
      · exact hclosed _ (HeldBy.slot hheld).2

/-- **Nothing that has arrived is lost with a client**, as long as no event
with `EPOLLRDHUP` is taken up while there is something to read: whatever else
happens, `handle_client_disconnection` comes after every frame of the client
has been handed to `route_client_command`.  The first such event that is taken
up with something to read loses a frame. -/
theorem heard_run (hframes : ∀ msg ∈ frames, FrameText msg) :
    (∀ p : Linked N C, LinkRun notificationFd q (Delimited.join cr lf frames)
      (Unhurried q) p → Heard q frames p.polling) ∧
    ∀ (p p' : Linked N C) (w : Fin N) (r : Raised) (result : RecvResult),
      LinkRun notificationFd q (Delimited.join cr lf frames) (Unhurried q) p →
      LinkStep notificationFd q p (.handle w r result) p' →
      r.source = some q → r.event.hangUp = true → p.link.queue ≠ [] →
        ¬ Heard q frames p'.polling := by
  constructor
  · intro p h
    have hinv := linkInv_run hframes h
    exact hinv.stage.heard hinv.poll
  · intro p p' w r result h hstep hsource hup hqueue
    exact (linkInv_run hframes h).lost hsource hup hqueue hstep

end Linked

/-! ## Two frames and a hang-up -/

section Example

variable [NeZero N] {notificationFd : Fin N → Fd} {q : Conn} {stream : Bytes}
  {cond : Linked N C → LinkEvent N → Prop}

/-- A thread works on alone. -/
theorem linkRun_work {t : Thread N} (hcond : ∀ p, cond p .other)
    (prog : ServerProg N C Unit) :
    ∀ (p : Polling N C) (l : Link) (s : State N C), p.config.prog t = prog →
      Prog.run (execPromised notificationFd) prog p.config.shared =
        some ((), s) →
      LinkRun notificationFd q stream cond ⟨p, l⟩ →
      LinkRun notificationFd q stream cond
        ⟨⟨p.config.update t s (.ret ()), p.batch⟩, l⟩ := by
  induction prog with
  | ret value =>
      intro p l s hp hrun h
      simp only [Prog.run, Option.some.injEq, Prod.mk.injEq,
        true_and] at hrun
      subst hrun
      have hself : p.config.update t p.config.shared (.ret ()) = p.config := by
        simp only [Config.update]
        rw [← hp, Function.update_eq_self]
      rwa [hself]
  | act a next ih =>
      intro p l s hp hrun h
      simp only [Prog.run] at hrun
      cases he : execPromised notificationFd a p.config.shared with
      | none => simp [he] at hrun
      | some out =>
          obtain ⟨answer, s₁⟩ := out
          rw [he] at hrun
          obtain ⟨hexec, hpromise⟩ := exec_of_execPromised he
          have hnext := h.tail ⟨.other, hcond _,
            .act p l t a next answer s₁ hp hexec hpromise⟩
          have hrest := ih answer ⟨p.config.update t s₁ (next answer), p.batch⟩
            l s (by simp) (by simpa using hrun) hnext
          rwa [Config.update_update] at hrest

theorem LinkRun.accept {s s' : State N C} {batch : Fin N → List Raised}
    {l : Link} {fd : Fd} {keepAliveOk writeOk : Bool}
    (h : LinkRun notificationFd q stream cond ⟨⟨quiet s, batch⟩, l⟩)
    (hcond : ∀ p, cond p .other)
    (hrun : Prog.run (execPromised notificationFd)
      (acceptClient fd keepAliveOk writeOk) s = some ((), s')) :
    LinkRun notificationFd q stream cond ⟨⟨quiet s', batch⟩, l⟩ := by
  have hstart := h.tail
    ⟨.other, hcond _, .accept _ l fd keepAliveOk writeOk rfl⟩
  have hwork := linkRun_work hcond _ _ l s' (Config.update_prog_self _ _ _ _)
    hrun hstart
  rwa [Config.update_update, quiet_update] at hwork

theorem LinkRun.wait {s : State N C} {batch : Fin N → List Raised} {l : Link}
    (h : LinkRun notificationFd q stream cond ⟨⟨quiet s, batch⟩, l⟩)
    (w : Fin N) (reported : List Raised)
    (hcond : cond ⟨⟨quiet s, batch⟩, l⟩ (.wait w reported))
    (hempty : batch w = []) (hreported : Reported notificationFd s w reported)
    (hreports : l.Reports q reported) :
    LinkRun notificationFd q stream cond
      ⟨⟨quiet s, Function.update batch w reported⟩, l⟩ :=
  h.tail ⟨_, hcond, .wait _ l w reported rfl hempty hreported hreports⟩

theorem LinkRun.handle {s : State N C} {batch : Fin N → List Raised}
    {l l' : Link} {w : Fin N} {r : Raised} {rest : List Raised}
    (result : RecvResult) (readOk epollOk : Bool) (j : Job N C)
    (h : LinkRun notificationFd q stream cond ⟨⟨quiet s, batch⟩, l⟩)
    (hcond : cond ⟨⟨quiet s, batch⟩, l⟩ (.handle w r result))
    (hbatch : batch w = r :: rest)
    (hevent : processEpollEvent notificationFd s w r.event result readOk
      epollOk = some j) (hjob : JobOk j)
    (hreturns : if r.source = some q ∧ r.event.hangUp = false then
      l.Returns result l' else l' = l) :
    LinkRun notificationFd q stream cond
      ⟨⟨(quiet s).update (.worker w) s (jobProg (.worker w) j),
        Function.update batch w rest⟩, l'⟩ :=
  h.tail ⟨_, hcond, .handle _ l l' w r rest result readOk epollOk j rfl hbatch
    hevent hjob hreturns⟩

theorem LinkRun.work {s s' : State N C} {batch : Fin N → List Raised}
    {l : Link} {t : Thread N} {prog : ServerProg N C Unit}
    (h : LinkRun notificationFd q stream cond
      ⟨⟨(quiet s).update t s prog, batch⟩, l⟩)
    (hcond : ∀ p, cond p .other)
    (hrun : Prog.run (execPromised notificationFd) prog s = some ((), s')) :
    LinkRun notificationFd q stream cond ⟨⟨quiet s', batch⟩, l⟩ := by
  have hwork := linkRun_work hcond _ _ l s' (Config.update_prog_self _ _ _ _)
    hrun h
  rwa [Config.update_update, quiet_update] at hwork

end Example

/-- The frames that are sent in the example. -/
def exampleFrames : List Bytes :=
  [cmdUsernameSubmit :: text " alice", cmdRoomCreateRequest :: text " den"]

/-- The first frame and a part of the second. -/
def exampleHead : Bytes :=
  (cmdUsernameSubmit :: text " alice") ++ msgTerminator ++
    (cmdRoomCreateRequest :: text " d")

/-- The rest of the second frame. -/
def exampleTail : Bytes := text "en" ++ msgTerminator

theorem exampleFrames_text : ∀ msg ∈ exampleFrames, FrameText msg := by
  have hall : ∀ msg ∈ exampleFrames, Delimited.Free cr lf msg ∧ 0 ∉ msg := by
    decide
  exact fun msg hmsg => ⟨(hall msg hmsg).1, (hall msg hmsg).2⟩

/-- The first connection has been accepted and registered. -/
def exampleServed : Option (State maxThreads maxClientsPerThread) :=
  (Prog.run (execPromised exampleFd) (acceptClient 5 true true)
    (State.init _ _)).bind fun out =>
      (Prog.run (execPromised exampleFd) (registerNewClient 0 true true)
        out.2).map Prod.snd

theorem linkRun_served {s : State maxThreads maxClientsPerThread}
    (stream : Bytes)
    (cond : Linked maxThreads maxClientsPerThread →
      LinkEvent maxThreads → Prop)
    (hserved : exampleServed = some s) (hother : ∀ p, cond p .other)
    (hwait : ∀ p w batch, cond p (.wait w batch))
    (hhandle : ∀ p w r result, r.source = none → cond p (.handle w r result)) :
    ∃ batch : Fin maxThreads → List Raised, batch 0 = [] ∧
      LinkRun exampleFd 0 stream cond
        ⟨⟨quiet s, batch⟩, ⟨stream, [], false⟩⟩ := by
  have hnote : ∀ out ∈ Prog.run (execPromised exampleFd)
      (acceptClient (C := maxClientsPerThread) 5 true true) (State.init _ _),
      out.2.notification 0 = 5 := by
    decide +kernel
  obtain ⟨⟨⟨⟩, s₁⟩, hrun₁, hserved⟩ := Option.bind_eq_some_iff.mp hserved
  obtain ⟨⟨⟨⟩, s₂⟩, hrun₂, rfl⟩ := Option.map_eq_some_iff.mp hserved
  have hinit : LinkRun (C := maxClientsPerThread) exampleFd 0 stream cond
      ⟨⟨quiet (State.init _ _), fun _ => []⟩, ⟨stream, [], false⟩⟩ := .refl
  have haccepted := hinit.accept hother hrun₁
  have hpending : s₁.notification 0 = 5 := hnote _ hrun₁
  have hnotified := haccepted.wait 0 [⟨⟨100, false⟩, none⟩] (hwait _ _ _) rfl
    ⟨by simp, by simp [exampleFd, hpending]⟩ (by simp [Link.Reports])
  have hregister := hnotified.handle (.nothing true) true true
    (.register true true) (hhandle _ _ _ _ rfl) (Function.update_self _ _ _)
    (by simp [processEpollEvent, exampleFd]) (fun _ _ hj => by cases hj) rfl
  exact ⟨_, Function.update_self _ _ _, hregister.work hother hrun₂⟩

/-- The connection of the example has its slot. -/
structure ExampleAt (s : State maxThreads maxClientsPerThread) : Prop where
  registered : s.registered 0 = [5]
  slot : s.holding (.slot (clientOf 0)) = some 5
  conn : s.conns 5 = some 0
  found : findClientByFd s 0 5 = some (clientOf 0)

/-- A chunk has been read and handled. -/
def exampleRead (bytes : Bytes) (s : State maxThreads maxClientsPerThread) :
    Option (State maxThreads maxClientsPerThread) :=
  (Prog.run (execPromised exampleFd) (jobProg (.worker 0)
    (.receive (clientOf 0) (.data bytes))) s).map Prod.snd

/-- What the connection of the example sees of the states before and after its
chunks. -/
theorem exampleAt {s : State maxThreads maxClientsPerThread}
    (h : some s ∈ [exampleServed, exampleServed.bind (exampleRead exampleHead),
      (exampleServed.bind (exampleRead exampleHead)).bind
        (exampleRead exampleTail)]) : ExampleAt s := by
  have hall : ∀ out ∈ [exampleServed,
      exampleServed.bind (exampleRead exampleHead),
      (exampleServed.bind (exampleRead exampleHead)).bind
        (exampleRead exampleTail)], ∀ s ∈ out,
      (s.registered 0 = [5] ∧ s.holding (.slot (clientOf 0)) = some 5) ∧
        s.conns 5 = some 0 ∧ findClientByFd s 0 5 = some (clientOf 0) := by
    decide +kernel
  obtain ⟨⟨hreg, hslot⟩, hconn, hfind⟩ := hall _ h s rfl
  exact ⟨hreg, hslot, hconn, hfind⟩

/-- What waits is reported, read and handled. -/
theorem LinkRun.receive {stream : Bytes}
    {cond : Linked maxThreads maxClientsPerThread →
      LinkEvent maxThreads → Prop}
    {s s' : State maxThreads maxClientsPerThread}
    {batch : Fin maxThreads → List Raised} {coming bytes : Bytes}
    (h : LinkRun exampleFd 0 stream cond
      ⟨⟨quiet s, batch⟩, ⟨coming, bytes, false⟩⟩)
    (hempty : batch 0 = []) (hat : ExampleAt s) (hchunk : ChunkOk bytes)
    (hread : exampleRead bytes s = some s') (hother : ∀ p, cond p .other)
    (hwait : ∀ p w reported, cond p (.wait w reported))
    (hcond : ∀ p : Polling _ _, cond ⟨p, ⟨coming, bytes, false⟩⟩
      (.handle 0 ⟨⟨5, false⟩, some 0⟩ (.data bytes))) :
    ∃ batch' : Fin maxThreads → List Raised, batch' 0 = [] ∧
      LinkRun exampleFd 0 stream cond
        ⟨⟨quiet s', batch'⟩, ⟨coming, [], false⟩⟩ := by
  obtain ⟨⟨⟨⟩, s'⟩, hrun, rfl⟩ := Option.map_eq_some_iff.mp hread
  have hne : bytes ≠ [] := List.ne_nil_of_length_pos hchunk.1
  have hreported := h.wait 0 [⟨⟨5, false⟩, some 0⟩] (hwait _ _ _) hempty
    ⟨by simp, by simp [hat.registered, hat.conn]⟩ (by simp [Link.Reports, hne])
  have htaken := hreported.handle (.data bytes) true true
    (.receive (clientOf 0) (.data bytes)) (hcond _)
    (Function.update_self _ _ _)
    (by simp [processEpollEvent, exampleFd, hat.found])
    (fun _ _ hj => by cases hj; exact hchunk)
    (by exact ⟨[], (List.append_nil _).symm, rfl⟩)
  exact ⟨_, Function.update_self _ _ _, htaken.work hother hrun⟩

/-- The end of the stream is reported, and the event is about to be taken up. -/
theorem LinkRun.ended {stream : Bytes}
    {cond : Linked maxThreads maxClientsPerThread →
      LinkEvent maxThreads → Prop}
    {s : State maxThreads maxClientsPerThread}
    {batch : Fin maxThreads → List Raised} {queue : Bytes}
    (h : LinkRun exampleFd 0 stream cond
      ⟨⟨quiet s, batch⟩, ⟨[], queue, false⟩⟩)
    (hempty : batch 0 = []) (hat : ExampleAt s)
    (hclose : ∀ p, cond p .close)
    (hwait : ∀ p w reported, cond p (.wait w reported)) :
    ∃ p p' : Linked maxThreads maxClientsPerThread,
      LinkRun exampleFd 0 stream cond p ∧ p.link.queue = queue ∧
        LinkStep exampleFd 0 p (.handle 0 ⟨⟨5, true⟩, some 0⟩ (.nothing true))
          p' ∧
        p'.polling.config.shared = s ∧
        p'.polling.config.prog (.worker 0) =
          handleClientDisconnection (clientOf 0) := by
  have hclosed : LinkRun exampleFd 0 stream cond
      ⟨⟨quiet s, batch⟩, ⟨[], queue, true⟩⟩ :=
    h.tail ⟨.close, hclose _, .close _ _ rfl⟩
  have hreported := hclosed.wait 0 [⟨⟨5, true⟩, some 0⟩] (hwait _ _ _) hempty
    ⟨by simp, by simp [hat.registered, hat.conn]⟩ (by simp [Link.Reports])
  have hevent : processEpollEvent exampleFd s 0 ⟨5, true⟩ (.nothing true) true
      true = some (.hangUp (clientOf 0)) := by
    simp [processEpollEvent, exampleFd, hat.found]
  have hbatch : Function.update batch 0 [⟨⟨5, true⟩, some 0⟩] 0 =
      [(⟨⟨5, true⟩, some 0⟩ : Raised)] := Function.update_self _ _ _
  have hstep : LinkStep exampleFd 0 _
      (.handle 0 ⟨⟨5, true⟩, some 0⟩ (.nothing true)) _ :=
    .handle ⟨quiet s, Function.update batch 0 [⟨⟨5, true⟩, some 0⟩]⟩
      ⟨[], queue, true⟩ ⟨[], queue, true⟩ 0 ⟨⟨5, true⟩, some 0⟩ []
      (.nothing true) true true (.hangUp (clientOf 0)) rfl hbatch hevent
      (fun _ _ hj => by cases hj) rfl
  exact ⟨_, _, hreported, rfl, hstep, rfl, Config.update_prog_self _ _ _ _⟩

/-- Two frames in two chunks.  When the second has been read before the end of
the stream is taken up, both are heard; when it waits unread, one is lost. -/
theorem heard_frames :
    (∃ p : Polling maxThreads maxClientsPerThread,
      p.config.prog (.worker 0) = handleClientDisconnection (clientOf 0) ∧
        p.config.shared.HeldBy 0 (.slot (clientOf 0)) ∧
        Heard 0 exampleFrames p) ∧
      ∃ p : Polling maxThreads maxClientsPerThread,
        p.config.prog (.worker 0) = handleClientDisconnection (clientOf 0) ∧
          ¬ Heard 0 exampleFrames p := by
  have hsome : ((exampleServed.bind (exampleRead exampleHead)).bind
      (exampleRead exampleTail)).isSome = true := by
    decide +kernel
  obtain ⟨s₂, hall⟩ := Option.isSome_iff_exists.mp hsome
  obtain ⟨s₁, hboth, hread₂⟩ := Option.bind_eq_some_iff.mp hall
  obtain ⟨s, hserved, hread₁⟩ := Option.bind_eq_some_iff.mp hboth
  have hat : ExampleAt s := exampleAt (by simp [hserved])
  have hat₁ : ExampleAt s₁ := exampleAt (by simp [hboth])
  have hat₂ : ExampleAt s₂ := exampleAt (by simp [hall])
  have hother : ∀ p, Unhurried (N := maxThreads) (C := maxClientsPerThread) 0 p
      .other := fun _ => trivial
  have hwait : ∀ p w batch, Unhurried (N := maxThreads)
      (C := maxClientsPerThread) 0 p (.wait w batch) := fun _ _ _ => trivial
  obtain ⟨batch, hempty, hlinked⟩ := linkRun_served
    (Delimited.join cr lf exampleFrames) (Unhurried 0) hserved hother hwait
    (fun _ _ _ _ hnone hsome => by rw [hnone] at hsome; cases hsome)
  have harrived : LinkRun exampleFd 0 _ (Unhurried 0) ⟨⟨quiet s, batch⟩,
      ⟨exampleTail, exampleHead, false⟩⟩ :=
    hlinked.tail ⟨.arrive 12, trivial, .arrive _ _ 12⟩
  obtain ⟨batch₁, hempty₁, hlinked₁⟩ := harrived.receive hempty hat (by decide)
    hread₁ hother hwait (by
      rintro p - bytes ⟨⟩ ⟨hlast, -⟩
      exact absurd hlast (by decide))
  have harrived₁ : LinkRun exampleFd 0 _ (Unhurried 0) ⟨⟨quiet s₁, batch₁⟩,
      ⟨[], exampleTail, false⟩⟩ :=
    hlinked₁.tail ⟨.arrive 4, trivial, .arrive _ _ 4⟩
  have hheard : (∀ p : Linked maxThreads maxClientsPerThread, LinkRun exampleFd 0
      (Delimited.join cr lf exampleFrames) (Unhurried 0) p →
      Heard 0 exampleFrames p.polling) ∧ _ := heard_run exampleFrames_text
  constructor
  · obtain ⟨batch₂, hempty₂, hlinked₂⟩ := harrived₁.receive hempty₁ hat₁
      (by decide) hread₂ hother hwait (by
        rintro p - bytes ⟨⟩ ⟨-, hhead⟩
        simp at hhead)
    obtain ⟨p, p', hrun, hqueue, hstep, hshared, hprog⟩ :=
      hlinked₂.ended hempty₂ hat₂ (fun _ => trivial) hwait
    refine ⟨p'.polling, hprog, ?_, hheard.1 p' (hrun.tail ⟨_, ?_, hstep⟩)⟩
    · rw [hshared]
      exact ⟨5, hat₂.slot, hat₂.conn⟩
    · exact fun _ => hqueue
  · obtain ⟨p, p', hrun, hqueue, hstep, hshared, hprog⟩ :=
      harrived₁.ended hempty₁ hat₁ (fun _ => trivial) hwait
    refine ⟨p'.polling, hprog, hheard.2 p p' 0 _ _ hrun hstep rfl rfl ?_⟩
    rw [hqueue]
    decide

/-- The frames and the end of the stream arrive before the first `epoll_wait`
after the connection is registered. -/
theorem not_heard_unread : ¬ ∀ (p : Linked maxThreads maxClientsPerThread)
    (frames : List Bytes), (∀ msg ∈ frames, FrameText msg) →
      LinkRun exampleFd 0 (Delimited.join cr lf frames) (fun _ _ => True) p →
        Heard 0 frames p.polling := by
  intro hall
  have hsome : exampleServed.isSome = true := by decide +kernel
  obtain ⟨s, hserved⟩ := Option.isSome_iff_exists.mp hsome
  have hat : ExampleAt s := exampleAt (by simp [hserved])
  obtain ⟨batch, hempty, hlinked⟩ := linkRun_served
    (Delimited.join cr lf exampleFrames) (fun _ _ => True) hserved
    (fun _ => trivial) (fun _ _ _ => trivial) (fun _ _ _ _ _ => trivial)
  have harrived : LinkRun exampleFd 0 _ (fun _ _ => True) ⟨⟨quiet s, batch⟩,
      ⟨[], Delimited.join cr lf exampleFrames, false⟩⟩ :=
    hlinked.tail ⟨.arrive 16, trivial, .arrive _ _ 16⟩
  obtain ⟨p, p', hrun, -, hstep, hshared, hprog⟩ := harrived.ended hempty hat
    (fun _ => trivial) (fun _ _ _ => trivial)
  have hheard := hall p' exampleFrames exampleFrames_text
    (hrun.tail ⟨_, trivial, hstep⟩)
  have hrouted : routedOf 0 s = upToExit exampleFrames := by
    rw [← hshared]
    refine hheard (clientOf 0) .ret ?_ ?_
    · rw [Prog.bind_ret]
      exact hprog
    · rw [hshared]
      exact ⟨5, hat.slot, hat.conn⟩
  have hsilent : ∀ s ∈ exampleServed, routedOf 0 s = [] := by decide +kernel
  rw [hsilent s hserved] at hrouted
  exact absurd hrouted (by decide)

end ChatApp.Server
