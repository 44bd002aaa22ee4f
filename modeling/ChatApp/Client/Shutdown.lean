import ChatApp.Client.Alone
import ChatApp.Foundation.Winding

/-!
# How the client stops

`exit_client` clears `is_running`, and each thread looks at it when it comes by:
at the head of its loop, and `send_command` once more after a line has been
read.  `shutdown_run` says what can still happen after that, whichever thread
calls it and wherever the other one is.
-/

namespace ChatApp.Client

open ChatApp.Foundation ChatApp.Server

/-- While the client is not running, reads of `is_running` say so. -/
def clientWinding : Winding client :=
  { stopped := fun s => s.isRunning = false
    answers := fun
      | .readIsRunning, isRunning => isRunning = false
      | _, _ => True
    stays := by
      intro a s b s' hstop he
      have hexec := execClient_eq he
      cases a
      case finish t =>
        cases t <;> cases hexec <;> exact ⟨hstop, trivial⟩
      all_goals
        cases hexec
        first
          | exact ⟨hstop, hstop⟩
          | exact ⟨hstop, trivial⟩
          | exact ⟨rfl, trivial⟩ }

/-- A line is read, or a string is sent. -/
def ClientAct.isInput : ClientAct → Bool
  | .wgetnstr _ | .send _ => true
  | _ => false

/-- Something is received. -/
def ClientAct.isRecv : ClientAct → Bool
  | .recv _ => true
  | _ => false

section Rounds

variable {marked : ClientAct → Bool} {n : Nat}

/-- No round goes on once the client is not running. -/
theorem few_round (t : ClientThread) (round : Round)
    (hread : marked .readIsRunning = false)
    (hfinish : ∀ t, marked (.finish t) = false) :
    clientWinding.Few marked 0 (roundProg t round) := by
  have hfirst : ∀ next : Bool → ClientProg Unit,
      next false = perform (.finish t) →
      clientWinding.Few marked 0 (perform .readIsRunning >>= next) := by
    intro next hnext
    refine ⟨by simp [hread], ?_⟩
    rintro b (rfl : b = false)
    show clientWinding.Few marked _ (next false)
    rw [hnext]
    exact ⟨by simp [hfinish], fun _ _ => trivial⟩
  cases t with
  | handleUserInput =>
      cases round with
      | input read cmd₀ arg₀ sendOk => exact hfirst _ rfl
      | receive result => trivial
  | receiveMessage =>
      cases round with
      | input read cmd₀ arg₀ sendOk => trivial
      | receive result => exact hfirst _ rfl

theorem soon_displayAll (t : ClientThread)
    (h : ∀ window string, marked (.uiMsgDisplay t window string) = false)
    (strings : List (Window × Bytes)) :
    clientWinding.Soon marked 0 (displayAll t strings) := by
  induction strings with
  | nil => trivial
  | cons d strings ih => exact Winding.soon_plain (h _ _) fun _ => ih

end Rounds

/-- While the client is not running `send_command` sends nothing. -/
theorem few_sendCommand (message cmd₀ arg₀ : Bytes) (sendOk : Bool) :
    clientWinding.Few ClientAct.isInput 0
      (sendCommandCode message cmd₀ arg₀ sendOk) := by
  have hquiet : ∀ strings, clientWinding.Few ClientAct.isInput 0
      (displayAll .handleUserInput strings) := fun strings =>
    (soon_displayAll .handleUserInput (fun _ _ => rfl) strings).few
  unfold sendCommandCode
  split
  case isTrue => exact hquiet _
  case isFalse =>
    refine ⟨nofun, ?_⟩
    rintro b (rfl : b = false)
    show clientWinding.Few _ 0 (displayAll _ _ >>= fun _ =>
      sendFormatted (sendCommand (App.seen false false) _ cmd₀ arg₀).1 sendOk)
    rw [sendCommand_stopped]
    exact (hquiet _).bind (m := 0) fun _ => trivial

theorem soon_sendCommand (message cmd₀ arg₀ : Bytes) (sendOk : Bool) :
    clientWinding.Soon ClientAct.isInput 1
      (sendCommandCode message cmd₀ arg₀ sendOk) := by
  have hquiet : ∀ strings, clientWinding.Soon ClientAct.isInput 0
      (displayAll .handleUserInput strings) := fun strings =>
    soon_displayAll .handleUserInput (fun _ _ => rfl) strings
  have hsend : ∀ formatted : Option Bytes,
      clientWinding.Soon ClientAct.isInput 1
        (sendFormatted formatted sendOk) := by
    intro formatted
    cases formatted with
    | none => trivial
    | some formattedCommand =>
        cases sendOk with
        | true =>
            exact Winding.soon_marked (fun _ _ => trivial) (fun _ => trivial)
              rfl
        | false => exact Winding.soon_plain rfl fun _ => trivial
  unfold sendCommandCode
  split
  case isTrue => exact (hquiet _).mono (Nat.zero_le 1)
  case isFalse =>
    have hrest : ∀ isRunning isInRoom, clientWinding.Soon ClientAct.isInput 1
        (displayAll .handleUserInput (sendCommand (App.seen isRunning isInRoom)
            message cmd₀ arg₀).2.displayed >>= fun _ =>
          sendFormatted (sendCommand (App.seen isRunning isInRoom) message
            cmd₀ arg₀).1 sendOk) :=
      fun _ _ => (hquiet _).bind (m := 1) fun _ => hsend _
    refine Winding.soon_plain rfl fun isRunning => ?_
    cases isRunning with
    | false => exact hrest false false
    | true => exact Winding.soon_plain rfl fun isInRoom => hrest true isInRoom

theorem soon_exitClient (t : ClientThread) {marked : ClientAct → Bool}
    (hshow : ∀ window string, marked (.uiMsgDisplay t window string) = false)
    (hclear : marked .clearIsRunning = false) (hclose : marked .close = false)
    (hfinish : marked (.finish t) = false) :
    clientWinding.Soon marked 0
      (exitClientCode t >>= fun _ => perform (.finish t)) :=
  Winding.soon_plain (hshow _ _) fun _ => Winding.soon_plain hclear fun _ =>
    Winding.soon_plain hclose fun _ => Winding.soon_plain hfinish fun _ =>
      trivial

/-- Of one line at most something is read or sent after the stop. -/
theorem soon_handleUserInput (read : Option Bytes) (cmd₀ arg₀ : Bytes)
    (sendOk : Bool) :
    clientWinding.Soon ClientAct.isInput 1
      (handleUserInput read cmd₀ arg₀ sendOk) := by
  refine Winding.soon_plain rfl fun isRunning => ?_
  cases isRunning with
  | false => exact Winding.soon_plain rfl fun _ => trivial
  | true =>
      cases read with
      | none =>
          exact Winding.soon_plain rfl fun _ =>
            Winding.soon_plain rfl fun _ => trivial
      | some line =>
          have hshow : ∀ window string, clientWinding.Soon ClientAct.isInput 0
              (perform (.uiMsgDisplay .handleUserInput window string)) :=
            fun _ _ => Winding.soon_plain rfl fun _ => trivial
          have hexit : clientWinding.Soon ClientAct.isInput 0
              (exitClientCode .handleUserInput >>= fun _ =>
                perform (.finish .handleUserInput)) :=
            soon_exitClient .handleUserInput (fun _ _ => rfl) rfl rfl rfl
          have hecho : clientWinding.Soon ClientAct.isInput 0
              (perform .readIsInRoom >>= fun isInRoom =>
                if isInRoom then
                  perform (.uiMsgDisplay .handleUserInput .msgWin
                    (text " You: " ++ line.takeWhile (· ≠ lf) ++ text "\n"))
                else pure ()) := by
            refine Winding.soon_plain rfl fun isInRoom => ?_
            cases isInRoom with
            | true => exact hshow _ _
            | false => trivial
          have hsoon := fun (k : Unit → ClientProg Unit)
              (hk : clientWinding.Soon ClientAct.isInput 0 (k ())) =>
            (soon_sendCommand (line.takeWhile (· ≠ lf)) cmd₀ arg₀ sendOk).bind
              (k := k) (m := 0) fun _ => hk
          have hfew := fun (k : Unit → ClientProg Unit)
              (hk : clientWinding.Soon ClientAct.isInput 0 (k ())) =>
            (few_sendCommand (line.takeWhile (· ≠ lf)) cmd₀ arg₀ sendOk).bind
              (k := k) (m := 0) fun _ => hk.few
          refine Winding.soon_marked (fun _ _ => ?_) (fun _ => ?_) rfl
          · show clientWinding.Few _ 0 (if _ then _ else _)
            split
            · exact (hshow _ _).few
            split
            · exact hfew _ hexit
            split
            · exact (hshow _ _).few
            split
            · exact (hshow _ _).few
            · exact hfew _ hecho
          · show clientWinding.Soon _ 1 (if _ then _ else _)
            split
            · exact (hshow _ _).mono (Nat.zero_le 1)
            split
            · exact hsoon _ hexit
            split
            · exact (hshow _ _).mono (Nat.zero_le 1)
            split
            · exact (hshow _ _).mono (Nat.zero_le 1)
            · exact hsoon _ hecho

theorem soon_receiveMessage (result : Option Bytes) :
    clientWinding.Soon ClientAct.isRecv 1 (receiveMessageCode result) := by
  refine Winding.soon_plain rfl fun isRunning => ?_
  cases isRunning with
  | false => exact Winding.soon_plain rfl fun _ => trivial
  | true =>
      cases result with
      | none => exact Winding.soon_plain rfl fun _ => trivial
      | some buffer =>
          have hrest : clientWinding.Soon ClientAct.isRecv 0
              (if buffer = [] then
                perform (.uiMsgDisplay .receiveMessage .outputWin
                  (text "Server has terminated connection\n")) >>= fun _ =>
                exitClientCode .receiveMessage >>= fun _ =>
                perform (.finish .receiveMessage)
              else parseServerMsgCode buffer) := by
            split
            · exact Winding.soon_plain rfl fun _ =>
                soon_exitClient .receiveMessage (fun _ _ => rfl) rfl rfl rfl
            · refine (soon_displayAll .receiveMessage (fun _ _ => rfl) _).bind
                (m := 0) fun _ => ?_
              cases mode? (buffer.headD 0) with
              | none => trivial
              | some state => exact Winding.soon_plain rfl fun _ => trivial
          exact Winding.soon_marked (fun _ _ => hrest.few)
            (fun _ => hrest.mono (Nat.zero_le 1)) rfl

/-! ## From the stop to the end -/

section Count

variable {s s' : Session} {a : ClientAct} {b : a.Answer}

theorem input_step (h : execClient a s = some (b, s')) :
    s'.typed.length + s'.sent.length =
      s.typed.length + s.sent.length + a.isInput.toNat := by
  obtain ⟨htyped, hsent⟩ := Prod.mk.inj
    (show (s'.typed, s'.sent) = _ from clientView_step (t := .handleUserInput) h)
  rw [htyped, hsent]
  simp only [clientView]
  cases a <;> simp [ClientAct.isInput] <;> omega

theorem recv_step (h : execClient a s = some (b, s')) :
    s'.received.length = s.received.length + a.isRecv.toNat := by
  obtain ⟨hreceived, -⟩ := Prod.mk.inj
    (show (s'.received, _) = _ from clientView_step (t := .receiveMessage) h)
  rw [hreceived]
  simp only [clientView]
  cases a
  case uiMsgDisplay t window string => cases t <;> rfl
  all_goals simp [ClientAct.isRecv]

end Count

section Run

variable {first : Bytes} {ls ls' : List ClientStep}
  {k k' : ClientConfiguration}

/-- The lines read, the strings sent and the results of `recv`, counted. -/
theorem counted_run
    (h : client.Run RoundOk (ClientConfiguration.init first) ls k)
    (hrest : client.Run RoundOk k ls' k') :
    k'.shared.typed.length + k'.shared.sent.length =
        k.shared.typed.length + k.shared.sent.length +
          ls'.countP (Winding.marks ClientAct.isInput .handleUserInput) ∧
      k'.shared.received.length = k.shared.received.length +
        ls'.countP (Winding.marks ClientAct.isRecv .receiveMessage) := by
  induction hrest with
  | nil => exact ⟨rfl, rfl⟩
  | snoc hbefore _ hstep ih =>
      obtain ⟨hinput, hrecv⟩ := ih
      cases hstep with
      | start t round hp =>
          exact ⟨by simpa [Winding.marks] using hinput,
            by simpa [Winding.marks] using hrecv⟩
      | act t a next answer s hp he =>
          have howned : a.Owned t := (alone_run (h.append hbefore)).pre hp trivial
          have hgrows := input_step he
          have hgrows' := recv_step he
          have hmark : Winding.marks ClientAct.isInput .handleUserInput
              (.act t a : ClientStep) = a.isInput := by
            cases a <;> simp_all [Winding.marks, ClientAct.isInput,
              ClientAct.Owned]
          have hmark' : Winding.marks ClientAct.isRecv .receiveMessage
              (.act t a : ClientStep) = a.isRecv := by
            cases a <;> simp_all [Winding.marks, ClientAct.isRecv,
              ClientAct.Owned]
          refine ⟨?_, ?_⟩
          · rw [List.countP_append, List.countP_singleton, hmark,
              Config.update_shared, hgrows, hinput]
            cases a.isInput <;> rfl
          · rw [List.countP_append, List.countP_singleton, hmark',
              Config.update_shared, hgrows', hrecv]
            cases a.isRecv <;> rfl

/-- **Stopping.**  Once `is_running` is false it stays so, and in all the rest of
the run at most one more line is read or string sent, and at most one more
result of `recv` taken. -/
theorem shutdown_run
    (h : client.Run RoundOk (ClientConfiguration.init first) ls k)
    (hstop : k.shared.isRunning = false)
    (hrest : client.Run RoundOk k ls' k') :
    k'.shared.isRunning = false ∧
      k'.shared.typed.length + k'.shared.sent.length ≤
        k.shared.typed.length + k.shared.sent.length + 1 ∧
      k'.shared.received.length ≤ k.shared.received.length + 1 := by
  obtain ⟨hinput, hrecv⟩ := counted_run h hrest
  have hsoonInput : ∀ round, clientWinding.Soon ClientAct.isInput 1
      (client.job .handleUserInput round) := by
    intro round
    cases round with
    | input read cmd₀ arg₀ sendOk => exact soon_handleUserInput _ _ _ _
    | receive result => trivial
  have hsoonRecv : ∀ round, clientWinding.Soon ClientAct.isRecv 1
      (client.job .receiveMessage round) := by
    intro round
    cases round with
    | input read cmd₀ arg₀ sendOk => trivial
    | receive result => exact soon_receiveMessage result
  obtain ⟨hstopped, hcount⟩ := Winding.rest_run hsoonInput
    (fun round => few_round _ round rfl fun _ => rfl) h hstop hrest
  obtain ⟨-, hcount'⟩ := Winding.rest_run hsoonRecv
    (fun round => few_round _ round rfl fun _ => rfl) h hstop hrest
  exact ⟨hstopped, by omega, by omega⟩

end Run

/-- A line is being typed when the server closes the connection. -/
theorem shutdown_typing : ∃ ls k ls' k',
    client.Run RoundOk (ClientConfiguration.init exampleFirst) ls k ∧
      client.Run RoundOk k ls' k' ∧
      k.shared.isRunning = false ∧ k.shared.inputEnded = false ∧
      k'.shared.isRunning = false ∧
      k'.shared.typed.length + k'.shared.sent.length ≤
        k.shared.typed.length + k.shared.sent.length + 1 ∧
      k'.shared.received.length ≤ k.shared.received.length + 1 := by
  have hexec : ∀ (t : ClientThread) a s out, execClient a s = some out →
      client.exec a s = some out ∧ RoundOk s (.act t a) :=
    fun _ _ _ _ he => ⟨he, trivial⟩
  have hinit : client.Run RoundOk (ClientConfiguration.init exampleFirst) []
      (ClientConfiguration.init exampleFirst) := .nil
  obtain ⟨ls₁, htyping⟩ := hinit.begin (t := .handleUserInput)
    (j := .input (some (text "hi")) [] [] true) rfl (hexec _)
    (roundOk_start _ _ _ (by decide)) (n := 1) rfl
  obtain ⟨ls₂, hclosed⟩ := htyping.begin (t := .receiveMessage)
    (j := .receive (some [])) rfl (hexec _)
    (roundOk_start _ _ _ (by decide)) (n := 7) rfl
  obtain ⟨ls₃, hread⟩ := hclosed.here.proceed (t := .handleUserInput)
    (hexec _) (n := 2) rfl
  exact ⟨_, _, _, _, hclosed, hread, rfl, rfl, shutdown_run hclosed rfl hread⟩

end ChatApp.Client
