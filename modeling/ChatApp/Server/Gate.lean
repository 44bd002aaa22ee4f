import ChatApp.Server.Interference
import ChatApp.Server.Ownership
import ChatApp.Server.Texts
import Mathlib.Data.List.TakeWhile

/-!
# The command gate

`route_client_command` runs a handler for exactly the messages the protocol
describes: `WellFormed` is its message format and `availableCommands` its
table of commands for each state.  What a handled message does to the record
is `Moves`; over whole runs this means that a connection is named at most
once, when it leaves `AWAITING_USERNAME`.
-/

namespace ChatApp.Server

open ChatApp.Foundation

variable {N C : Nat}

/-! ## The protocol -/

/-- The commands of a client. -/
def clientCommands : List UInt8 :=
  [cmdExit, cmdUsernameSubmit, cmdRoomCreateRequest, cmdRoomListRequest,
    cmdRoomJoinRequest, cmdLeaveRoom, cmdRoomMessageSend]

/-- A message: a command, a space, and a content that is not blank. -/
def WellFormed (msg : Bytes) : Prop :=
  ∃ cmd ∈ clientCommands, ∃ content : Bytes, msg = cmd :: space :: content ∧
    1 ≤ content.length ∧ content.length ≤ maxContentLen ∧
      ∃ b ∈ content, b ≠ space

/-- The commands available in each state. -/
def availableCommands : ClientState → List UInt8
  | .awaitingUsername => [cmdUsernameSubmit, cmdExit]
  | .inChatLobby =>
      [cmdExit, cmdRoomCreateRequest, cmdRoomListRequest, cmdRoomJoinRequest]
  | .inChatRoom => [cmdExit, cmdRoomMessageSend, cmdLeaveRoom]

/-- The protocol lets a client in this state send this message. -/
def Permitted (self : Client) : Prop :=
  WellFormed self.currentMsg ∧
    command self.currentMsg ∈ availableCommands self.state

/-! ## The checks -/

theorem signedChar_range : ∀ n : Fin 256,
    ¬ (signedChar (UInt8.ofNat n) < signedChar cmdExit ∨
        signedChar cmdRoomMessageSend < signedChar (UInt8.ofNat n)) ↔
      UInt8.ofNat n ∈ clientCommands := by
  decide +kernel

/-- The comparisons of signed characters accept the seven commands. -/
theorem command_range (b : UInt8) :
    ¬ (signedChar b < signedChar cmdExit ∨
        signedChar cmdRoomMessageSend < signedChar b) ↔
      b ∈ clientCommands := by
  have h := signedChar_range ⟨b.toNat, b.toNat_lt⟩
  rwa [show UInt8.ofNat (⟨b.toNat, b.toNat_lt⟩ : Fin 256) = b from
    UInt8.ofNat_toNat] at h

theorem dropWhile_space (bytes : Bytes) :
    bytes.dropWhile (· = space) ≠ [] ↔ ∃ b ∈ bytes, b ≠ space := by
  rw [ne_eq, List.dropWhile_eq_nil_iff]
  simp

/-- The five checks of `validate_msg_format` pass on the messages of the
protocol. -/
theorem formatError_none (msg : Bytes) :
    formatError msg = none ↔ WellFormed msg := by
  match msg with
  | [] => simp [formatError, WellFormed]
  | [cmd] => simp [formatError, WellFormed]
  | cmd :: sep :: content =>
      have hrange := command_range cmd
      have hblank := dropWhile_space content
      unfold formatError WellFormed
      simp only [ChatApp.content, ChatApp.command, List.drop_succ_cons,
        List.drop_zero, List.headD_cons, List.length_cons,
        List.getElem?_cons_succ, List.getElem?_cons_zero, ne_eq,
        Option.some.injEq]
      constructor
      · intro h
        split at h
        · cases h
        split at h
        · cases h
        split at h
        · cases h
        split at h
        · cases h
        split at h
        · cases h
        rename_i hshort hlong hsep hcmd hcontent
        refine ⟨cmd, hrange.mp hcmd, content, ?_, ?_, Nat.not_lt.mp hlong,
          hblank.mp hcontent⟩
        · rw [not_not.mp hsep]
        · omega
      · rintro ⟨cmd', hmem, content', hmsg, hone, hmax, hsome⟩
        cases hmsg
        rw [if_neg (by omega), if_neg (Nat.not_lt.mpr hmax), if_neg (by simp),
          if_neg (hrange.mpr hmem), if_neg (hblank.mpr hsome)]

/-- The state table lets exactly the available commands pass. -/
theorem stateError_none (state : ClientState) (cmd : UInt8) :
    stateError state cmd = none ↔ cmd ∈ availableCommands state := by
  unfold stateError
  cases state <;>
    by_cases hexit : cmd = cmdExit <;>
    simp [hexit, availableCommands] <;>
    grind

/-- **The gate**: a message is not refused if and only if the protocol permits
it. -/
theorem refusal_none (self : Client) :
    refusal self = none ↔ Permitted self := by
  unfold refusal Permitted
  rw [← formatError_none, ← stateError_none]
  cases formatError self.currentMsg with
  | some answer => simp
  | none => simp

/-! ## The handlers -/

/-- The program is the handler of the client's command, or its
disconnection. -/
inductive Handles (client : ClientPtr N C) (self : Client) :
    ServerProg N C Unit → Prop
  | exit : command self.currentMsg = cmdExit →
      Handles client self (handleClientDisconnection client)
  | username : command self.currentMsg = cmdUsernameSubmit →
      Handles client self (handleAwaitingUsername client self)
  | create : command self.currentMsg = cmdRoomCreateRequest →
      Handles client self (createChatRoom client)
  | list : command self.currentMsg = cmdRoomListRequest →
      Handles client self (sendAvailRooms client)
  | join : command self.currentMsg = cmdRoomJoinRequest →
      Handles client self (joinChatRoom client)
  | room : command self.currentMsg = cmdRoomMessageSend ∨
        command self.currentMsg = cmdLeaveRoom →
      Handles client self (handleInChatRoom client self)

/-- No handler is a refusal. -/
theorem Handles.not_refusal {client : ClientPtr N C} {self : Client}
    {prog : ServerProg N C Unit} (h : Handles client self prog) (fd : Fd)
    {code : UInt8} (hcode : code ∈ refusalCodes) (message : Bytes) :
    prog ≠ act (.send fd code message) := by
  cases h with
  | exit => exact nofun
  | create => exact nofun
  | list => exact nofun
  | join => exact nofun
  | room =>
      unfold handleInChatRoom
      split <;> exact nofun
  | username =>
      have hne : errUsernameLength ∉ refusalCodes := by decide
      unfold handleAwaitingUsername
      dsimp only
      split
      · intro heq
        cases heq
        exact hne hcode
      · exact nofun

theorem dispatch_refused {client : ClientPtr N C} {self : Client}
    (h : ¬ Permitted self) :
    ∃ code ∈ refusalCodes, ∃ message,
      dispatch client self = act (.send self.clientFd code message) := by
  rw [← refusal_none] at h
  obtain ⟨answer, hanswer⟩ := Option.ne_none_iff_exists'.mp h
  refine ⟨answer.1, refusal_mem_codes hanswer, answer.2, ?_⟩
  rw [dispatch, hanswer]

/-- Exactly the permitted messages are handled. -/
theorem dispatch_handles (client : ClientPtr N C) (self : Client) :
    Handles client self (dispatch client self) ↔ Permitted self := by
  constructor
  · intro h
    by_contra hn
    obtain ⟨code, hcode, message, heq⟩ := dispatch_refused hn
    exact h.not_refusal self.clientFd hcode message heq
  · intro h
    have hr := (refusal_none self).mpr h
    rw [dispatch, hr]
    show Handles client self (handleAccepted client self)
    unfold handleAccepted
    by_cases he : command self.currentMsg = cmdExit
    · rw [if_pos he]
      exact .exit he
    rw [if_neg he]
    cases hs : self.state with
    | awaitingUsername => exact .username (command_of_awaiting hr hs he)
    | inChatRoom => exact .room (command_of_room hr hs he)
    | inChatLobby =>
        unfold handleInChatLobby
        dsimp only
        rcases command_of_lobby hr hs he with hcmd | hcmd | hcmd
        · rw [if_pos hcmd]
          exact .create hcmd
        · rw [if_neg (by rw [hcmd]; decide), if_pos hcmd]
          exact .join hcmd
        · rw [if_neg (by rw [hcmd]; decide), if_neg (by rw [hcmd]; decide),
            if_pos hcmd]
          exact .list hcmd

/-! ## A connection is named once -/

/-- A record without a username has no name. -/
def Nameless (r : Client) : Prop :=
  r.state = .awaitingUsername → r.name = []

/-- The name of a connection is set once, and not to the empty name. -/
def naming (N C : Nat) : (handling N C Any).Extension EventOk :=
  { G := fun _ => Unit
    ghost := fun _ _ => ()
    Inv := fun _ => True
    Pre := fun _ a s => ∀ c name, a = .strcpyName c name →
      (s.clients c).name = [] ∧ name ≠ []
    weaken := fun _ _ h => h
    inv_exec := fun _ _ _ _ _ _ _ _ _ _ _ => trivial
    ghost_exec := fun _ _ _ _ _ _ _ _ _ _ _ _ => rfl }

/-- All records of a worker that await a username have no name. -/
def idleNameless : (t : Thread N) → View N C t → Unit → Prop
  | .main, _, _ => True
  | .worker _, v, _ => ∀ j, Nameless (v.1 j)

/-- The action names no client. -/
def Act.unnamed : Act N C → Prop
  | .strcpyName .. => False
  | _ => True

/-- Every other action keeps records without a username nameless. -/
theorem Nameless.exec {a : Act N C} {s s' : State N C} {b : a.Answer}
    (ha : a.unnamed) (he : exec a s = some (b, s')) (c : ClientPtr N C)
    (h : Nameless (s.clients c)) : Nameless (s'.clients c) := by
  have hupdates := exec_updates he c
  generalize s'.clients c = r at hupdates ⊢
  cases hupdates with
  | same => exact h
  | appended => exact h
  | cleared => exact h
  | named => cases ha
  | lobby => exact nofun
  | created => exact nofun
  | joined => exact nofun
  | zeroed => exact fun _ => rfl
  | allocated => exact fun _ => rfl

/-- A program that names no client. -/
theorem naming_of_all {t : Thread N} {α : Type} {prog : ServerProg N C α}
    (hprog : Prog.All Act.unnamed prog) {v : View N C t}
    (hv : idleNameless t v ()) :
    (naming N C).Flows t (fun _ v g => idleNameless t v g) prog v () := by
  refine Contract.Extension.Flows.of_all (E := naming N C)
    (R := fun v g => idleNameless t v g) ?_ hprog hv
  intro a s ha _ _ hR _ _
  refine ⟨?_, fun b s' he => ?_⟩
  · rintro c name rfl
    cases ha
  · cases t with
    | main => trivial
    | worker w => exact fun j => (hR j).exec ha he

theorem Act.ofRoom.unnamed {c : ClientPtr N C} {a : Act N C}
    (ha : a.ofRoom c) : a.unnamed := by
  cases a <;> first | exact trivial | cases ha

theorem Act.ofRelease.unnamed {c : ClientPtr N C} {a : Act N C}
    (ha : a.ofRelease c) : a.unnamed := by
  cases a <;> first | exact trivial | cases ha

section Flows

variable {c : ClientPtr N C} {self : Client}

/-- Keeps the records without a username nameless. -/
def KeepsNameless (c : ClientPtr N C) {α : Type} (prog : ServerProg N C α) :
    Prop :=
  ∀ v : View N C (.worker c.worker), idleNameless (.worker c.worker) v () →
    (naming N C).Flows (.worker c.worker)
      (fun _ v g => idleNameless (.worker c.worker) v g) prog v ()

theorem KeepsNameless.of_all {α : Type} {prog : ServerProg N C α}
    (h : Prog.All Act.unnamed prog) : KeepsNameless c prog :=
  fun _ hv => naming_of_all (t := .worker c.worker) h hv

theorem KeepsNameless.bind {α β : Type} {prog : ServerProg N C α}
    {k : α → ServerProg N C β} (h : KeepsNameless c prog)
    (hk : ∀ value, KeepsNameless c (k value)) :
    KeepsNameless c (prog >>= k) :=
  fun v hv => (h v hv).bind fun value v' _ hv' => hk value v' hv'

/-- An action that names no client. -/
theorem KeepsNameless.then {α : Type} {a : Act N C}
    {next : a.Answer → ServerProg N C α} (ha : a.unnamed)
    (h : ∀ b, KeepsNameless c (next b)) : KeepsNameless c (.act a next) :=
  KeepsNameless.bind
    (.of_all (all_one ha)) h

/-- The name is set on leaving `AWAITING_USERNAME`. -/
theorem keeps_handleAwaitingUsername (hcontent : content self.currentMsg ≠ []) :
    KeepsNameless c (handleAwaitingUsername c self) := by
  unfold handleAwaitingUsername
  dsimp only
  split
  · exact .of_all (all_one trivial)
  · intro v hv s _ _ hview _ _ hallowed
    subst hview
    have hready : ReadyOf Any s (.worker c.worker) c .awaitingUsername :=
      hallowed.1
    have hnameless : ∀ j, Nameless (s.clients ⟨c.worker, j⟩) := hv
    refine ⟨?_, fun b s₁ he => ?_⟩
    · intro d name hact
      cases hact
      exact ⟨hnameless c.index hready.2.1, hcontent⟩
    -- Until the state is set, only the other records are known to comply.
    have hothers : ∀ j, j ≠ c.index →
        Nameless (s₁.clients ⟨c.worker, j⟩) := by
      intro j hj
      have hne : (⟨c.worker, j⟩ : ClientPtr N C) ≠ c := by
        intro heq
        exact hj (congrArg ClientPtr.index heq)
      cases he
      simpa [hne] using hnameless j
    intro s₂ _ _ hview₂ _ _ _
    have hclients : ∀ j, s₂.clients ⟨c.worker, j⟩ = s₁.clients ⟨c.worker, j⟩ :=
      fun j => congrFun (congrArg Prod.fst hview₂) j
    refine ⟨nofun, fun b s₃ he₂ => ?_⟩
    apply KeepsNameless.of_all (c := c)
      ((all_sendAvailRooms c).imp fun _ => Act.ofRoom.unnamed)
    show ∀ j, Nameless (s₃.clients ⟨c.worker, j⟩)
    intro j
    by_cases hj : j = c.index
    · subst hj
      cases he₂
      intro hstate
      simp at hstate
    · have hne : (⟨c.worker, j⟩ : ClientPtr N C) ≠ c := by
        intro heq
        exact hj (congrArg ClientPtr.index heq)
      cases he₂
      simpa [hne, hclients] using hothers j hj

theorem keeps_handleAccepted (h : refusal self = none) :
    KeepsNameless c (handleAccepted c self) := by
  obtain ⟨⟨cmd, -, content, hmsg, hone, -, -⟩, -⟩ := (refusal_none self).mp h
  have hcontent : ChatApp.content self.currentMsg ≠ [] := by
    rw [hmsg]
    show content ≠ []
    rintro rfl
    cases hone
  unfold handleAccepted
  split
  · exact .of_all ((all_releaseClient c).imp fun _ => Act.ofRelease.unnamed)
  · cases self.state with
    | awaitingUsername => exact keeps_handleAwaitingUsername hcontent
    | inChatLobby =>
        exact .of_all
          ((all_handleInChatLobby c self).imp fun _ => Act.ofRoom.unnamed)
    | inChatRoom =>
        exact .of_all
          ((all_handleInChatRoom c self).imp fun _ => Act.ofRoom.unnamed)

theorem keeps_messageLoop (fuel : Nat) :
    ∀ temp, KeepsNameless c (messageLoop c fuel temp) := by
  have hroute : KeepsNameless c (routeClientCommand c) := by
    rw [routeClientCommand_eq]
    refine .then trivial fun self => ?_
    unfold dispatch
    cases hr : refusal self with
    | some answer => exact .of_all (all_one trivial)
    | none => exact keeps_handleAccepted hr
  induction fuel with
  | zero => exact fun _ => .of_all trivial
  | succ fuel ih =>
      intro temp
      unfold messageLoop
      cases strstrTerminator temp with
      | some out =>
          exact .then trivial fun _ => hroute.bind fun _ =>
            .then trivial fun _ => ih out.2
      | none =>
          dsimp only
          split
          · exact .of_all trivial
          · exact .of_all (all_one trivial)

end Flows

theorem Act.ofRegister.unnamed {w : Fin N} {a : Act N C}
    (ha : a.ofRegister w) : a.unnamed := by
  cases a <;> first | exact trivial | cases ha

theorem Act.ofMain.unnamed {a : Act N C} (ha : a.ofMain) : a.unnamed := by
  cases a <;> first | exact trivial | cases ha

theorem keeps_job (t : Thread N) (j : Job N C) (s : State N C)
    (hok : EventOk s (.start t j)) (hidle : idleNameless t (view t s) ()) :
    (naming N C).Flows t (fun _ v g => idleNameless t v g) (jobProg t j)
      (view t s) () := by
  cases j with
  | accept fd keepAliveOk writeOk =>
      cases t with
      | main =>
          exact naming_of_all ((all_acceptClient fd keepAliveOk writeOk).imp
            fun _ => Act.ofMain.unnamed) hidle
      | worker w => exact hidle
  | register readOk epollOk =>
      cases t with
      | main => exact hidle
      | worker w =>
          exact naming_of_all (all_registering trivial
            (fun _ => Act.ofRegister.unnamed) epollOk) hidle
  | receive client result =>
      obtain ⟨⟨rfl, -⟩, -⟩ := hok
      cases result with
      | nothing wouldBlock =>
          cases wouldBlock with
          | true => exact hidle
          | false =>
              exact naming_of_all ((all_releaseClient client).imp
                fun _ => Act.ofRelease.unnamed) hidle
      | data bytes => exact keeps_messageLoop _ _ _ hidle
  | hangUp client =>
      obtain ⟨rfl, -⟩ := hok
      exact naming_of_all ((all_releaseClient client).imp
        fun _ => Act.ofRelease.unnamed) hidle

/-! ## Over whole runs -/

/-- The names given so far, with the connection each was given to. -/
def namings (s : State N C) : Step N C → List (Option Conn × Bytes)
  | .act _ (.strcpyName c name) => [(s.connOf c, name)]
  | _ => []

/-- The names given to one connection. -/
def namesOf (es : List (Option Conn × Bytes)) (q : Conn) : List Bytes :=
  (es.filter fun e => e.1 = some q).map Prod.snd

/-- A record's name as a list of names given. -/
def Client.given (r : Client) : List Bytes :=
  if r.name = [] then [] else [r.name]

/-- The names given so far agree with the records. -/
structure NamedOnce (s : State N C) (es : List (Option Conn × Bytes)) :
    Prop where
  once : ∀ q, (namesOf es q).length ≤ 1
  current : ∀ c fd q, s.holding (.slot c) = some fd → s.conns fd = some q →
    namesOf es q = (s.clients c).given
  waiting : ∀ a fd q, (∀ c, a ≠ .slot c) → s.holding a = some fd →
    s.conns fd = some q → namesOf es q = []
  future : ∀ q, s.accepted ≤ q → namesOf es q = []

section Named

variable {s s' : State N C} {t : Thread N} {es : List (Option Conn × Bytes)}

theorem namesOf_append (es : List (Option Conn × Bytes)) (q q' : Conn)
    (name : Bytes) :
    namesOf (es ++ [(some q, name)]) q' =
      if q = q' then namesOf es q' ++ [name] else namesOf es q' := by
  unfold namesOf
  by_cases hq : q = q'
  · simp [hq]
  · simp [hq]

/-- A step that names no client. -/
theorem NamedOnce.keep (h : NamedOnce s es) (hown : Own s)
    (hinv : ∀ v, Relay s v) {a : Act N C} {b : a.Answer}
    (ha : AllowedOf Any t s a) (hunnamed : a.unnamed)
    (he : exec a s = some (b, s')) : NamedOnce s' es := by
  have haccepted : s.accepted ≤ s'.accepted := by
    rcases exec_conns he with ⟨fd, -, -, -, hmore⟩ | ⟨hsame, -⟩
    · omega
    · omega
  refine ⟨h.once, ?_, ?_, fun q hq => h.future q (by omega)⟩
  · intro c fd q hslot hq
    rcases hown.origin_of hinv ha he hslot hq with
      ⟨hslot₀, hq₀⟩ | ⟨e, hnot, he₀, hq₀, hfresh⟩ | ⟨hmain, -, -⟩
    · rw [h.current c fd q hslot₀ hq₀]
      have hupdates := exec_updates he c
      have huse := (of_holding_slot hslot).1
      have huse₀ := (of_holding_slot hslot₀).1
      generalize s'.clients c = r at hupdates huse ⊢
      cases hupdates with
      | named => cases hunnamed
      | zeroed => cases huse
      | allocated fd' hfree =>
          have hunused := State.freeSlot?_some hfree
          rw [huse₀] at hunused
          cases hunused
      | _ => rfl
    · rw [h.waiting e fd q hnot he₀ hq₀, hfresh c rfl]
      rfl
    · cases hmain
  · intro d fd q hnot hd hq
    rcases hown.origin_of hinv ha he hd hq with
      ⟨hd₀, hq₀⟩ | ⟨e, hnot', he₀, hq₀, -⟩ | ⟨-, rfl, -⟩
    · exact h.waiting d fd q hnot hd₀ hq₀
    · exact h.waiting e fd q hnot' he₀ hq₀
    · exact h.future _ (Nat.le_refl _)

/-- Setting a name moves no descriptor. -/
theorem holding_strcpyName {c : ClientPtr N C} {name : Bytes} {b : Unit}
    (he : exec (.strcpyName c name) s = some (b, s')) :
    s'.holding = s.holding ∧ s'.conns = s.conns ∧
      s'.accepted = s.accepted := by
  have hcontrol := exec_sameControl rfl he
  refine ⟨holding_ext (by rw [hcontrol.main]) hcontrol.notification
    (fun w => by rw [hcontrol.point])
    (slotFd_congr hcontrol.inUse hcontrol.clientFd
      fun w => by rw [hcontrol.point]), hcontrol.conns, ?_⟩
  cases he
  rfl

/-- The name of a connection is set. -/
theorem NamedOnce.named (h : NamedOnce s es) (hown : Own s)
    {c : ClientPtr N C} {name : Bytes} {b : Unit}
    (huse : (s.clients c).inUse = true) (hidle : s.point c.worker = .idle)
    (hempty : (s.clients c).name = []) (hname : name ≠ [])
    (he : exec (.strcpyName c name) s = some (b, s')) :
    NamedOnce s' (es ++ [(s.connOf c, name)]) := by
  have hslot : s.holding (.slot c) = some (s.clients c).clientFd :=
    holding_slot huse (by rw [hidle]; exact nofun)
  obtain ⟨q, hq⟩ := hown.owned.known _ _ hslot
  have hconn : s.connOf c = some q := hq
  have hnone : namesOf es q = [] := by
    rw [h.current c _ q hslot hq, Client.given, if_pos hempty]
  have hsame := holding_strcpyName he
  have hclients : s'.clients = Function.update s.clients c
      { s.clients c with name := name } := by
    cases he
    rfl
  -- No other holder has a descriptor of this connection.
  have hother : ∀ d fd q', s.holding d = some fd → s.conns fd = some q' →
      d ≠ .slot c → q ≠ q' := by
    rintro d fd q' hd hq' hdc rfl
    exact hdc (hown.owned.holder_unique hd hslot hq' hq)
  rw [hconn]
  refine ⟨fun q' => ?_, fun d fd q' hd hq' => ?_, fun d fd q' hnot hd hq' => ?_,
    fun q' hq' => ?_⟩
  · rw [namesOf_append]
    split
    case isTrue hqq =>
      subst hqq
      rw [hnone]
      exact Nat.le_refl 1
    case isFalse => exact h.once q'
  · rw [hsame.1] at hd
    rw [hsame.2.1] at hq'
    rw [namesOf_append, hclients]
    by_cases hdc : d = c
    · subst hdc
      rw [hslot] at hd
      cases hd
      have hqq : q' = q := Option.some.inj (hq'.symm.trans hq)
      rw [hqq, if_pos rfl, hnone, Function.update_self]
      simp [Client.given, hname]
    · have hne : Holder.slot d ≠ .slot c := by
        intro heq
        exact hdc (Holder.slot.inj heq)
      rw [if_neg (hother _ fd q' hd hq' hne), h.current d fd q' hd hq',
        Function.update_of_ne hdc]
  · rw [hsame.1] at hd
    rw [hsame.2.1] at hq'
    rw [namesOf_append, if_neg (hother d fd q' hd hq' (hnot c))]
    exact h.waiting d fd q' hnot hd hq'
  · rw [hsame.2.2] at hq'
    have hlt := hown.range _ q hq
    have hqq : q ≠ q' := Nat.ne_of_lt (Nat.lt_of_lt_of_le hlt hq')
    rw [namesOf_append, if_neg hqq]
    exact h.future q' hq'

/-- A name set in a record that was released is no connection's. -/
theorem NamedOnce.unheld (h : NamedOnce s es) (hown : Own s)
    {c : ClientPtr N C} {name : Bytes} {b : Unit}
    (huse : (s.clients c).inUse = false)
    (he : exec (.strcpyName c name) s = some (b, s')) :
    NamedOnce s' (es ++ [(s.connOf c, name)]) := by
  have hconn : s.connOf c = none := by
    rw [State.connOf, hown.free c huse]
    exact hown.zero
  have hsame := holding_strcpyName he
  have hnames : ∀ q, namesOf (es ++ [(s.connOf c, name)]) q = namesOf es q := by
    intro q
    rw [hconn]
    simp [namesOf]
  refine ⟨fun q => ?_, fun d fd q hd hq => ?_, fun d fd q hnot hd hq => ?_,
    fun q hq => ?_⟩
  · rw [hnames]
    exact h.once q
  · rw [hsame.1] at hd
    rw [hsame.2.1] at hq
    have hdc : d ≠ c := by
      rintro rfl
      rw [(of_holding_slot hd).1] at huse
      cases huse
    rw [hnames, h.current d fd q hd hq]
    cases he
    simp [hdc]
  · rw [hsame.1] at hd
    rw [hsame.2.1] at hq
    rw [hnames]
    exact h.waiting d fd q hnot hd hq
  · rw [hsame.2.2] at hq
    rw [hnames]
    exact h.future q hq

theorem NamedOnce.step (h : NamedOnce s es) (hown : Own s)
    (hinv : ∀ v, Relay s v) {a : Act N C} {b : a.Answer}
    (ha : AllowedOf Any t s a) (hpre : (naming N C).Pre t a s)
    (he : exec a s = some (b, s')) :
    NamedOnce s' (es ++ namings s (.act t a)) := by
  by_cases hunnamed : a.unnamed
  · have hnone : namings s (.act t a) = [] := by
      cases a <;> first | rfl | cases hunnamed
    rw [hnone, List.append_nil]
    exact h.keep hown hinv ha hunnamed he
  · cases a <;> simp only [Act.unnamed, not_true_eq_false] at hunnamed
    case strcpyName c name =>
      obtain ⟨hempty, hname⟩ := hpre c name rfl
      cases huse : (s.clients c).inUse with
      | true => exact h.named hown huse ha.1.2.2 hempty hname he
      | false => exact h.unheld hown huse he

theorem NamedOnce.init [NeZero N] : NamedOnce (State.init N C) [] :=
  ⟨fun _ => Nat.zero_le 1, nofun, fun _ _ _ _ _ _ => rfl, fun _ _ => rfl⟩

end Named

section Runs

variable [NeZero N] {k k' : Configuration N C}
  {es es' : List (Option Conn × Bytes)}

theorem naming_init :
    (naming N C).contract.Sound
      (fun t w => idleView t w.1 ∧ idleNameless t w.1 w.2)
      (Configuration.init N C) := by
  refine ⟨⟨trivial, trivial⟩, fun t => ?_⟩
  cases t with
  | main => exact ⟨rfl, trivial⟩
  | worker w => exact ⟨rfl, fun _ _ => rfl⟩

theorem naming_sound {ls : List (Step N C)}
    (hrun : (server N C).Run EventOk (Configuration.init N C) ls k) :
    (naming N C).contract.Sound
      (fun t w => idleView t w.1 ∧ idleNameless t w.1 w.2) k :=
  Contract.Extension.sound (fun t j s _ => safe_any t j s)
    (fun t j s _ _ _ hv hok => keeps_job t j s hok hv) naming_init hrun

theorem namedOnce_run
    (hrun : (server N C).Logged CountersRead namings (Configuration.init N C)
      es k) : NamedOnce k.shared es := by
  have hall : ((∀ w, Relay k.shared w) ∧ Own k.shared) ∧
      NamedOnce k.shared es := by
    apply Contract.Sound.logged (K := (naming N C).contract)
      (I := fun s es => ((∀ w, Relay s w) ∧ Own s) ∧ NamedOnce s es)
      CountersRead.event _ naming_init _ _ _ hrun
    · intro t j s _ hv hok
      exact (naming N C).safe (safe_any t j s hv.1 hok)
        (keeps_job t j s hok hv.2)
    · exact ⟨⟨Relay.init, Own.init⟩, .init⟩
    · intro t j s es _ h
      simpa [namings] using h
    · rintro t a s b s' es - ⟨ha, hpre⟩ hok he ⟨⟨hinv, hown⟩, hnamed⟩
      refine ⟨⟨Relay.step hinv ha ?_ he, hown.step_of hinv ha he⟩,
        hnamed.step hown hinv ha hpre he⟩
      rintro w rfl
      exact hok.2 t w rfl
  exact hall.2

/-- **The command gate**, in every state that can be reached: exactly the
permitted messages are handled, the others are only answered with an error;
one message moves the record as documented; and no connection is named twice,
renamed, or named before it leaves `AWAITING_USERNAME`, whatever follows a
`CMD_EXIT` in a chunk. -/
theorem gate_run
    (hrun : (server N C).Logged CountersRead namings (Configuration.init N C)
      es k) :
    (∀ client : ClientPtr N C, ∃ next,
      routeClientCommand client = .act (.routeMessage client) next ∧
        ∀ self, (Handles client self (next self) ↔ Permitted self) ∧
          (¬ Permitted self → ∃ code ∈ refusalCodes, ∃ message,
            next self = act (.send self.clientFd code message))) ∧
    (∀ (c : ClientPtr N C) steps s', k.shared.point c.worker = .idle →
      Prog.Exec exec (Neighbours c.worker) (routeClientCommand c) k.shared
        steps () s' →
      Moves (k.shared.clients c) (s'.clients c)) ∧
    NamedOnce k.shared es ∧
    (∀ (c : ClientPtr N C), k.prog (.worker c.worker) = .ret () →
      Nameless (k.shared.clients c)) ∧
    ∀ es' k', (server N C).Logged CountersRead namings
        (Configuration.init N C) (es ++ es') k' →
      ∀ (c c' : ClientPtr N C) q, k.shared.HeldBy q (.slot c) →
        k'.shared.HeldBy q (.slot c') → (k.shared.clients c).name ≠ [] →
        (k'.shared.clients c').name = (k.shared.clients c).name := by
  obtain ⟨ls, hls⟩ := hrun.run
  have hnamed := namedOnce_run hrun
  refine ⟨fun client => ⟨dispatch client, routeClientCommand_eq client,
      fun self => ⟨dispatch_handles client self, dispatch_refused⟩⟩,
    fun c steps s' hidle hexec => ?_, hnamed, fun c hprog => ?_,
    fun es' k' hrun' c c' q hc hc' hname => ?_⟩
  · have hlocal := local_routeClientCommand (c := c) (r := k.shared.clients c)
      (show Any (k.shared.clients c).inUse from trivial)
    exact (hlocal.exec_of Neighbours.view rfl hidle hexec).2.2
  · have hsound := naming_sound (hls.mono CountersRead.event)
    exact (hsound.idle_view hprog).2 c.index
  · obtain ⟨fd, hslot, hq⟩ := hc
    obtain ⟨fd', hslot', hq'⟩ := hc'
    have hgiven := hnamed.current c fd q hslot hq
    have hnamed' := namedOnce_run hrun'
    have hgiven' := hnamed'.current c' fd' q hslot' hq'
    have honce := hnamed'.once q
    have happend : namesOf (es ++ es') q = namesOf es q ++ namesOf es' q := by
      simp [namesOf]
    rw [Client.given, if_neg hname] at hgiven
    rw [happend, hgiven] at hgiven' honce
    have hnil : namesOf es' q = [] := by
      rw [List.length_append, List.length_singleton] at honce
      exact List.length_eq_zero_iff.mp (by omega)
    rw [hnil, List.append_nil, Client.given] at hgiven'
    split at hgiven'
    · cases hgiven'
    · exact (List.cons.inj hgiven').1.symm

end Runs

/-- The first two clients connect, the first submits its username, and its
worker has the message that creates a room. -/
def bobCreates :
    List (System.Cue (Thread maxThreads)
      (Job maxThreads maxClientsPerThread)) :=
  finishing (connects 0 ++ connects 1 ++
      [sends 0 (frame cmdUsernameSubmit (text "bob"))]) ++
    [.give (.worker (workerOf 0))
        (sends 0 (frame cmdRoomCreateRequest (text "den"))).2,
      .act (.worker (workerOf 0)) 1]

/-- The second client submits its username. -/
def eveNamed : Thread maxThreads × Job maxThreads maxClientsPerThread :=
  sends 1 (frame cmdUsernameSubmit (text "eve"))

/-- The room is created; the second client sends an exit and a username in one
chunk. -/
def eveLeaves :
    List (System.Cue (Thread maxThreads)
      (Job maxThreads maxClientsPerThread)) :=
  .act (.worker (workerOf 0)) 1000 ::
    finishing [sends 1 (frame cmdExit (text "bye") ++
      frame cmdUsernameSubmit (text "ann"))]

/-- The first client's message is handled while the second one submits its
username, and the first client keeps its name over the exit of the second,
behind which a name is given to no connection. -/
theorem gate_bob : ∃ (k k' : Configuration maxThreads maxClientsPerThread)
    (s' : RealState) (steps : Steps maxThreads maxClientsPerThread),
    (server _ _).Logged CountersRead namings (Configuration.init _ _)
        [(some 0, text "bob")] k ∧
      (server _ _).Logged CountersRead namings (Configuration.init _ _)
        ([(some 0, text "bob")] ++ [(none, text "ann")]) k' ∧
      Prog.Exec exec (Neighbours (workerOf 0)) (routeClientCommand (clientOf 0))
        k.shared steps () s' ∧
      (s'.clients (clientOf 1)).name = text "eve" ∧
      (s'.clients (clientOf 0)).state = .inChatRoom ∧
      Moves (k.shared.clients (clientOf 0)) (s'.clients (clientOf 0)) ∧
      NamedOnce k'.shared ([(some 0, text "bob")] ++ [(none, text "ann")]) ∧
      (k.shared.clients (clientOf 0)).name = text "bob" ∧
      (k'.shared.clients (clientOf 0)).name =
        (k.shared.clients (clientOf 0)).name := by
  have hplay : ((follow mayStart namings bobCreates
      (Configuration.init maxThreads maxClientsPerThread)).bind fun bob =>
        (Prog.run execReads (jobProg eveNamed.1 eveNamed.2)
          bob.2.shared).bind fun eve =>
        (Prog.run exec (routeClientCommand (clientOf 0)) eve.2).bind fun den =>
        (follow mayStart namings eveLeaves bob.2).map fun ann =>
          decide (bob.1 = [(some 0, text "bob")] ∧
            ann.1 = [(none, text "ann")] ∧
            mayStart bob.2.shared eveNamed.1 eveNamed.2 = true ∧
            bob.2.shared.point (workerOf 0) = .idle ∧
            bob.2.shared.holding (.slot (clientOf 0)) = some 5 ∧
            bob.2.shared.conns 5 = some 0 ∧
            (bob.2.shared.clients (clientOf 0)).name = text "bob" ∧
            ann.2.shared.holding (.slot (clientOf 0)) = some 5 ∧
            ann.2.shared.conns 5 = some 0 ∧
            (den.2.clients (clientOf 1)).name = text "eve" ∧
            (den.2.clients (clientOf 0)).state = .inChatRoom)) =
      some true := by
    decide +kernel
  obtain ⟨⟨es, k⟩, hbob, hplay⟩ := Option.bind_eq_some_iff.mp hplay
  obtain ⟨⟨⟨⟩, s₁⟩, heve, hplay⟩ := Option.bind_eq_some_iff.mp hplay
  obtain ⟨⟨⟨⟩, s'⟩, hden, hplay⟩ := Option.bind_eq_some_iff.mp hplay
  obtain ⟨⟨es', k'⟩, hann, heq⟩ := Option.map_eq_some_iff.mp hplay
  obtain ⟨rfl, rfl, hstart, hpoint, hslot, hconn, hname, hslot', hconn',
    hother, hstate⟩ := of_decide_eq_true heq
  have hk := follow_counters .nil hbob
  have hk' := follow_counters hk hann
  -- The second client's worker is at work before the first one's goes on.
  have hmeanwhile : Neighbours (workerOf 0) k.shared s₁ :=
    neighbours_of_run (by decide)
      (all_owned _ _ k.shared (countersRead_of_mayStart hstart).1) heve
  obtain ⟨steps, hexec⟩ := Prog.exec_of_run (R := Neighbours (workerOf 0))
    (fun _ => Relation.ReflTransGen.refl) hden
  have hexec := hexec.after (fun _ _ _ => Neighbours.trans) hmeanwhile
  obtain ⟨-, hmoves, -, -, hlater⟩ := gate_run hk
  exact ⟨k, k', s', steps, hk, hk', hexec, hother, hstate,
    hmoves (clientOf 0) steps s' hpoint hexec, (gate_run hk').2.2.1, hname,
    hlater _ k' hk' (clientOf 0) (clientOf 0) 0 ⟨5, hslot, hconn⟩
      ⟨5, hslot', hconn'⟩ (by rw [hname]; decide)⟩

end ChatApp.Server
