import ChatApp.Foundation.Writers
import ChatApp.Server.Atomicity
import ChatApp.Server.Sending

/-!
# Frames on the sockets

Elsewhere a frame is sent in one step.  Here every call of `send` that
`send_message_to_client` makes is a step of its own, in which the socket accepts
some of the bytes that are left or none, and between two of them all the other
threads go on: those that broadcast to the client's room, with the room's lock
held, and the client's own worker, which replies to it without that lock.
`untorn_run` says what keeps the frames of a connection apart.
-/

namespace ChatApp.Server

open ChatApp.Foundation Delimited

variable {N C : Nat}

/-! ## The calls of `send` -/

/-- The frames sent to the connection. -/
def Memory.frames (m : Memory N C) (q : Conn) : List (UInt8 × Bytes) :=
  framesTo q (m.calls.map Call.call)

/-- The threads and the memory, how many bytes of its frame each thread has sent
in the call of `send_message_to_client` that it is in, and the bytes that the
socket of each connection has accepted. -/
structure Wire (N C : Nat) where
  config : CodeConfiguration N C
  sent : Thread N → Nat
  accepted : Conn → Bytes

namespace Wire

/-- After initialisation. -/
def init (N C : Nat) [NeZero N] : Wire N C :=
  ⟨CodeConfiguration.init N C, fun _ => 0, fun _ => []⟩

/-- The connection a descriptor denotes. -/
def conn (w : Wire N C) (fd : Fd) : Option Conn :=
  w.config.shared.state.conns fd

/-- The bytes are for the connection if the descriptor denotes it. -/
def toward (w : Wire N C) (fd : Fd) (q : Conn) (bytes : Bytes) : Bytes :=
  if w.conn fd = some q then bytes else []

/-- What the sockets have accepted when that of the descriptor has accepted the
bytes. -/
def accept (w : Wire N C) (fd : Fd) (bytes : Bytes) (q : Conn) : Bytes :=
  w.accepted q ++ w.toward fd q bytes

/-- The call of `send_message_to_client` that the thread is in. -/
def sending (w : Wire N C) (t : Thread N) : Option (Fd × UInt8 × Bytes) :=
  match w.config.prog t with
  | .act a _ => outgoing a
  | .ret _ => none

/-- The thread makes this call with the lock of a room held. -/
def locked (w : Wire N C) (t : Thread N) : Bool :=
  match w.config.prog t with
  | .act a _ => underLock a
  | .ret _ => false

/-- The part of a frame that the thread has sent to the connection. -/
def part (w : Wire N C) (q : Conn) (t : Thread N) : Bytes :=
  match w.sending t with
  | none => []
  | some f => w.toward f.1 q ((messageBuffer f.2.1 f.2.2).take (w.sent t))

/-- The frames of the calls that have returned, in the order of their returns. -/
def whole (w : Wire N C) (q : Conn) : Bytes :=
  (w.config.shared.state.frames q).flatMap fun f => messageBuffer f.1 f.2

end Wire

/-- What happens: a call of `send`, or another access. -/
inductive WireEvent (N C : Nat) where
  | send (t : Thread N) (fd : Fd) (bytes : Bytes)
  | other (l : CodeStep N C)

namespace WireEvent

/-- The thread that takes the step. -/
def thread : WireEvent N C → Thread N
  | .send t _ _ => t
  | .other (.start t _) => t
  | .other (.act t _) => t

/-- The bytes that the socket of the connection accepts. -/
def bytes (e : WireEvent N C) (w : Wire N C) (q : Conn) : Bytes :=
  match e with
  | .send _ fd bytes => w.toward fd q bytes
  | .other _ => []

end WireEvent

/-- A step.  The last call of `send` and the return of `send_message_to_client` are
one step, for there is no access in between; of an empty string no byte is
sent. -/
inductive WireStep : Wire N C → WireEvent N C → Wire N C → Prop
  | goOn (w : Wire N C) (t : Thread N)
      (a : LockAct (Thread N) (Lock N) (Access N C))
      (next : a.Answer Access.Answer → Code N C Unit) (fd : Fd)
      (cmdType : UInt8) (message : Bytes) (call : SendCall) (sent : Nat) :
      w.config.prog t = .act a next → outgoing a = some (fd, cmdType, message) →
      call.offset = w.sent t → call.Inside (messageBuffer cmdType message).length →
      call.Honest → sendRound (w.sent t) call.result = some sent →
      sent < (messageBuffer cmdType message).length →
      WireStep w
        (.send t fd (call.accepted (messageBuffer cmdType message)))
        ⟨w.config, Function.update w.sent t sent,
          w.accept fd (call.accepted (messageBuffer cmdType message))⟩
  | goBack (w : Wire N C) (t : Thread N)
      (a : LockAct (Thread N) (Lock N) (Access N C))
      (next : a.Answer Access.Answer → Code N C Unit) (fd : Fd)
      (cmdType : UInt8) (message : Bytes) (call : SendCall) (sent : Nat)
      (answer : a.Answer Access.Answer)
      (g : Guarded (Thread N) (Lock N) (Memory N C)) :
      w.config.prog t = .act a next → outgoing a = some (fd, cmdType, message) →
      call.offset = w.sent t → call.Inside (messageBuffer cmdType message).length →
      call.Honest → sendRound (w.sent t) call.result = some sent →
      (messageBuffer cmdType message).length ≤ sent →
      (codeServer N C).exec a w.config.shared = some (answer, g) →
      WireStep w
        (.send t fd (call.accepted (messageBuffer cmdType message)))
        ⟨w.config.update t g (next answer), Function.update w.sent t 0,
          w.accept fd (call.accepted (messageBuffer cmdType message))⟩
  | goPast (w : Wire N C) (t : Thread N)
      (a : LockAct (Thread N) (Lock N) (Access N C))
      (next : a.Answer Access.Answer → Code N C Unit) (fd : Fd)
      (cmdType : UInt8) (message : Bytes) (answer : a.Answer Access.Answer)
      (g : Guarded (Thread N) (Lock N) (Memory N C)) :
      w.config.prog t = .act a next → outgoing a = some (fd, cmdType, message) →
      messageBuffer cmdType message = [] →
      (codeServer N C).exec a w.config.shared = some (answer, g) →
      WireStep w (.send t fd [])
        ⟨w.config.update t g (next answer), w.sent, w.accept fd []⟩
  | other (w : Wire N C) (l : CodeStep N C) (config : CodeConfiguration N C) :
      (∀ t a, l = .act t a → outgoing a = none) →
      (codeServer N C).Step w.config l config →
      WireStep w (.other l) ⟨config, w.sent, w.accepted⟩

/-- The runs all of whose steps are as `ok` says. -/
inductive WireRun [NeZero N] (ok : Wire N C → WireEvent N C → Prop) :
    Wire N C → Prop
  | init : WireRun ok (Wire.init N C)
  | snoc {w w' : Wire N C} {e : WireEvent N C} :
      WireRun ok w → ok w e → WireStep w e w' → WireRun ok w'

/-- What the environment promises. -/
def WireOk (w : Wire N C) : WireEvent N C → Prop
  | .send .. => True
  | .other l => CodeOk w.config.shared l

/-- A socket accepts bytes of a frame that is sent with the lock of a room held
only while no thread is in the middle of one to the same connection that is sent
without, and the other way round. -/
def Unmixed (w : Wire N C) (e : WireEvent N C) : Prop :=
  WireOk w e ∧ ∀ q, e.bytes w q ≠ [] → ∀ u, w.locked u ≠ w.locked e.thread →
    w.part q u = []

/-- What the socket of each connection has accepted is the frames of the calls that
have returned, one after the other, and then the part of one that is under way, if
one is. -/
def Wire.Apart (w : Wire N C) : Prop :=
  ∀ q, Untorn (w.accepted q) (w.whole q) (w.part q)

/-- The frames under way end in the terminator and have no other. -/
def Wire.Terminated (w : Wire N C) : Prop :=
  ∀ t f, w.sending t = some f → ∃ message,
    messageBuffer f.2.1 f.2.2 = message ++ msgTerminator ∧
      Free cr lf (message ++ [cr])

/-! ## Accesses -/

section Accesses

variable {t : Thread N} {a : LockAct (Thread N) (Lock N) (Access N C)}
  {answer : a.Answer Access.Answer}
  {g g' : Guarded (Thread N) (Lock N) (Memory N C)} {fd : Fd}
  {cmdType : UInt8} {message : Bytes} {q p : Conn}

theorem codeOk_sending {f : Fd × UInt8 × Bytes} (h : outgoing a = some f)
    (g : Guarded (Thread N) (Lock N) (Memory N C)) (t : Thread N) :
    CodeOk g (.act t a) := by
  refine ⟨fun _ _ heq => (by cases heq), ?_⟩
  intro u w hplain heq
  cases heq
  cases h

theorem exec_enabled {f : Fd × UInt8 × Bytes} (h : outgoing a = some f)
    (g : Guarded (Thread N) (Lock N) (Memory N C)) :
    ∃ answer g', (codeServer N C).exec a g = some (answer, g') := by
  cases a with
  | step a =>
      cases a
      case send => exact ⟨_, _, rfl⟩
      case plain a hplain =>
        cases a
        case send => exact ⟨_, _, rfl⟩
        all_goals cases h
      all_goals cases h
  | _ => cases h

/-- What is sent is sent to the connection of its descriptor. -/
theorem exec_sending (h : outgoing a = some (fd, cmdType, message))
    (he : (codeServer N C).exec a g = some (answer, g')) :
    g'.state.conns = g.state.conns ∧
      g'.state.frames q = g.state.frames q ++
        if g.state.conns fd = some q then [(cmdType, message)] else [] := by
  have hone : ∀ origin : Origin, g'.state.calls = g.state.calls ++
      [⟨origin, .send fd (g.state.conns fd) cmdType message⟩] →
      g'.state.frames q = g.state.frames q ++
        if g.state.conns fd = some q then [(cmdType, message)] else [] := by
    intro origin hcalls
    unfold Memory.frames
    rw [hcalls, List.map_append, framesTo_append]
    congr 1
    split
    · rename_i hq
      rw [List.map_singleton, hq]
      exact framesTo_send q fd cmdType message
    · rename_i hq
      exact framesTo_send_ne hq _ _ _
  cases a with
  | step a =>
      cases a
      case send origin fd' cmdType' message' =>
        cases h
        cases he
        exact ⟨rfl, hone origin rfl⟩
      case plain a hplain =>
        cases a
        case send fd' cmdType' message' =>
          cases h
          cases he
          exact ⟨rfl, hone .reply rfl⟩
        all_goals cases h
      all_goals cases h
  | _ => cases h

/-- No other access sends a frame. -/
theorem exec_frames (h : outgoing a = none)
    (he : (codeServer N C).exec a g = some (answer, g')) :
    g'.state.frames q = g.state.frames q := by
  cases a with
  | lock u l =>
      obtain ⟨-, heq⟩ := Option.ite_none_right_eq_some.mp he
      cases heq
      rfl
  | unlock u l =>
      obtain ⟨-, heq⟩ := Option.ite_none_right_eq_some.mp he
      cases heq
      rfl
  | step a =>
      obtain ⟨⟨out, m'⟩, hm, heq⟩ := Option.map_eq_some_iff.mp he
      cases heq
      cases a
      case plain a hplain =>
        obtain ⟨⟨b, s'⟩, hs, heq⟩ := Option.map_eq_some_iff.mp hm
        cases heq
        have hnone : framesTo q s'.calls = [] := by
          by_cases hroute : ∃ c, a = .routeMessage c
          · obtain ⟨c, rfl⟩ := hroute
            rcases exec_routeMessage hs with ⟨-, ⟨-, rfl⟩ | ⟨line, -, rfl⟩⟩
            all_goals rfl
          · have hchat : a.isChat = false := by
              cases a
              case routeMessage c => exact absurd ⟨c, rfl⟩ hroute
              case send => cases h
              all_goals first | rfl | cases hplain
            obtain ⟨-, extra, hcalls, hextra⟩ := exec_aside hchat hs
            rw [hcalls]
            exact framesTo_other hextra
        show framesTo q ((g.state.calls ++ _).map Call.call) = _
        rw [List.map_append, framesTo_append, List.map_map]
        have hmap : s'.calls.map (Call.call ∘ fun call => ⟨.reply, call⟩) =
            s'.calls := List.map_id _
        rw [hmap, hnone, List.append_nil]
        rfl
      case send => cases h
      all_goals
        cases hm
        rfl

/-- No access leads a descriptor from one connection to another. -/
theorem exec_conn (he : (codeServer N C).exec a g = some (answer, g'))
    (hq : g.state.conns fd = some q) (hp : g'.state.conns fd = some p) :
    p = q := by
  have hsame : g'.state.conns = g.state.conns → p = q := by
    intro hsame
    rw [hsame, hq] at hp
    exact (Option.some.inj hp).symm
  cases a with
  | lock u l =>
      obtain ⟨-, heq⟩ := Option.ite_none_right_eq_some.mp he
      cases heq
      exact hsame rfl
  | unlock u l =>
      obtain ⟨-, heq⟩ := Option.ite_none_right_eq_some.mp he
      cases heq
      exact hsame rfl
  | step a =>
      obtain ⟨⟨out, m'⟩, hm, heq⟩ := Option.map_eq_some_iff.mp he
      cases heq
      cases a
      case plain a hplain =>
        obtain ⟨⟨b, s'⟩, hs, heq⟩ := Option.map_eq_some_iff.mp hm
        cases heq
        have hold : g.state.state.conns fd = some q := hq
        have hnew : s'.conns fd = some p := hp
        rcases exec_conns hs with ⟨fd', -, hfree, hconns, -⟩ |
          ⟨-, ⟨-, hconns⟩ | ⟨fd', -, hconns⟩⟩
        · rw [hconns] at hnew
          by_cases hfd : fd = fd'
          · subst hfd
            rw [hfree] at hold
            cases hold
          · rw [Function.update_of_ne hfd, hold] at hnew
            exact (Option.some.inj hnew).symm
        · exact hsame hconns
        · rw [hconns] at hnew
          by_cases hfd : fd = fd'
          · subst hfd
            rw [Function.update_self] at hnew
            cases hnew
          · rw [Function.update_of_ne hfd, hold] at hnew
            exact (Option.some.inj hnew).symm
      all_goals
        cases hm
        exact hsame rfl

end Accesses

/-! ## What a step writes -/

namespace Wire

/-- Who is in no call has sent nothing of a frame, and who is in one has not yet
sent it all. -/
def Underway (w : Wire N C) : Prop :=
  ∀ t, w.sent t = 0 ∨ ∃ f, w.sending t = some f ∧
    w.sent t < (messageBuffer f.2.1 f.2.2).length

/-- Every frame under way is for an open descriptor, and two are for the same
connection only if one is sent with the lock of a room held and the other one
without. -/
def Orderly (w : Wire N C) : Prop :=
  ∀ t f, w.sending t = some f → ∃ q, w.conn f.1 = some q ∧
    ∀ u f', w.sending u = some f' → w.conn f'.1 = some q → t ≠ u →
      w.locked t ≠ w.locked u

section Parts

variable {w w' : Wire N C} {t : Thread N} {fd : Fd} {cmdType : UInt8}
  {message bytes : Bytes} {q : Conn}

theorem toward_nil : w.toward fd q [] = [] :=
  ite_self _

theorem conn_of_toward (h : w.toward fd q bytes ≠ []) :
    w.conn fd = some q := by
  by_contra hq
  rw [toward, if_neg hq] at h
  exact h rfl

theorem toward_of_ne (h : w.toward fd q bytes ≠ []) :
    w.toward fd q bytes = bytes :=
  if_pos (conn_of_toward h)

theorem toward_append (bytes' : Bytes) :
    w.toward fd q bytes ++ w.toward fd q bytes' =
      w.toward fd q (bytes ++ bytes') := by
  unfold toward
  split
  · rfl
  · rfl

theorem sending_of {a : LockAct (Thread N) (Lock N) (Access N C)}
    {next : a.Answer Access.Answer → Code N C Unit}
    (h : w.config.prog t = .act a next) : w.sending t = outgoing a := by
  rw [sending, h]

theorem locked_of {a : LockAct (Thread N) (Lock N) (Access N C)}
    {next : a.Answer Access.Answer → Code N C Unit}
    (h : w.config.prog t = .act a next) : w.locked t = underLock a := by
  rw [locked, h]

theorem exists_call {f : Fd × UInt8 × Bytes} (h : w.sending t = some f) :
    ∃ a next, w.config.prog t = .act a next ∧ outgoing a = some f := by
  unfold sending at h
  cases hp : w.config.prog t with
  | ret value =>
      rw [hp] at h
      cases h
  | act a next =>
      rw [hp] at h
      exact ⟨a, next, rfl, h⟩

theorem part_of (h : w.sending t = some (fd, cmdType, message)) :
    w.part q t =
      w.toward fd q ((messageBuffer cmdType message).take (w.sent t)) := by
  rw [part, h]

theorem part_of_zero (h : w.sent t = 0) : w.part q t = [] := by
  cases hf : w.sending t with
  | none => rw [part, hf]
  | some f => rw [part_of hf, h, List.take_zero, toward_nil]

/-- Where a thread neither goes on with its frame nor has it go elsewhere, its
part is what it was. -/
theorem part_same (hsending : w'.sending t = w.sending t)
    (hsent : w'.sent t = w.sent t)
    (hconn : ∀ f, w.sending t = some f → w'.conn f.1 = w.conn f.1) :
    w'.part q t = w.part q t := by
  cases hf : w.sending t with
  | none => rw [part, part, hsending, hf]
  | some f =>
      rw [part_of hf, part_of (hsending.trans hf), hsent, toward, toward,
        hconn f hf]

/-- Who has sent a part is in a call to the connection. -/
theorem exists_of_part (h : w.part q t ≠ []) :
    ∃ f, w.sending t = some f ∧ w.conn f.1 = some q := by
  cases hf : w.sending t with
  | none =>
      rw [part, hf] at h
      exact absurd rfl h
  | some f =>
      rw [part_of hf] at h
      exact ⟨f, rfl, conn_of_toward h⟩

/-- A part has no terminator. -/
theorem free_part (hunder : w.Underway) (hterminated : w.Terminated) :
    Free cr lf (w.part q t) := by
  rcases hunder t with hzero | ⟨f, hf, hlt⟩
  · rw [part_of_zero hzero]
    exact free_nil
  · rw [part_of hf, toward]
    split
    · obtain ⟨message, heq, hfree⟩ := hterminated t f hf
      have hsplit : message ++ msgTerminator = message ++ [cr] ++ [lf] :=
        List.append_cons message cr [lf]
      rw [heq, hsplit] at hlt ⊢
      rw [List.length_append, List.length_singleton] at hlt
      rw [List.take_append_of_le_length (Nat.le_of_lt_succ hlt)]
      rw [← List.take_append_drop (w.sent t) (message ++ [cr])] at hfree
      exact hfree.left
    · exact free_nil

/-- Of an empty string no byte is sent. -/
theorem Underway.zero (hunder : w.Underway)
    (h : w.sending t = some (fd, cmdType, message))
    (hempty : messageBuffer cmdType message = []) : w.sent t = 0 := by
  rcases hunder t with hzero | ⟨f, hf, hlt⟩
  · exact hzero
  · cases hf.symm.trans h
    rw [hempty] at hlt
    exact absurd hlt (Nat.not_lt_zero _)

/-- The thread goes on with its frame. -/
theorem writes_on {sent : Nat} (h : w.sending t = some (fd, cmdType, message))
    (h' : w'.sending t = some (fd, cmdType, message))
    (hconn : w'.conn fd = w.conn fd) (hsent : w'.sent t = sent)
    (htake : (messageBuffer cmdType message).take (w.sent t) ++ bytes =
      (messageBuffer cmdType message).take sent)
    (hothers : ∀ u, u ≠ t → w'.part q u = w.part q u) :
    Writes (w.part q) (w'.part q) t (w.toward fd q bytes) [] := by
  refine ⟨?_, .inl rfl, hothers⟩
  rw [part_of h, part_of h', toward_append, htake, hsent, List.nil_append,
    toward, toward, hconn]

/-- The thread ends its frame. -/
theorem writes_back (h : w.sending t = some (fd, cmdType, message))
    (hzero : w'.sent t = 0)
    (htake : (messageBuffer cmdType message).take (w.sent t) ++ bytes =
      messageBuffer cmdType message)
    (hothers : ∀ u, u ≠ t → w'.part q u = w.part q u) :
    Writes (w.part q) (w'.part q) t (w.toward fd q bytes)
      (w.toward fd q (messageBuffer cmdType message)) := by
  have hnone := part_of_zero (q := q) hzero
  refine ⟨?_, .inr hnone, hothers⟩
  rw [part_of h, hnone, toward_append, htake, List.append_nil]

end Parts

end Wire

/-- A call of `send` goes on where the last one has stopped. -/
theorem accepted_call {buffer : Bytes} {call : SendCall} {sent sent' : Nat}
    (hoffset : call.offset = sent) (hinside : call.Inside buffer.length)
    (hhonest : call.Honest) (hround : sendRound sent call.result = some sent') :
    buffer.take sent ++ call.accepted buffer = buffer.take sent' := by
  obtain ⟨offset, length, result⟩ := call
  subst hoffset
  obtain ⟨hlt, hlength⟩ := hinside
  obtain rfl : length = buffer.length - offset := by
    dsimp only at hlength
    omega
  exact (sendRound_accepted hlt hround hhonest).2

section Steps

variable {w w' : Wire N C} {e : WireEvent N C} {q : Conn}

/-- The other threads stay where they are. -/
theorem WireStep.others (hstep : WireStep w e w') {u : Thread N}
    (hu : u ≠ e.thread) :
    w'.sending u = w.sending u ∧ w'.sent u = w.sent u := by
  have hsending : w'.config.prog u = w.config.prog u →
      w'.sending u = w.sending u := by
    intro hprog
    rw [Wire.sending, Wire.sending, hprog]
  cases hstep with
  | goOn => exact ⟨rfl, Function.update_of_ne hu _ _⟩
  | goBack =>
      exact ⟨hsending (Config.update_prog_ne _ hu _ _),
        Function.update_of_ne hu _ _⟩
  | goPast => exact ⟨hsending (Config.update_prog_ne _ hu _ _), rfl⟩
  | other l config _ hconfig =>
      cases hconfig with
      | start => exact ⟨hsending (Config.update_prog_ne _ hu _ _), rfl⟩
      | act => exact ⟨hsending (Config.update_prog_ne _ hu _ _), rfl⟩

/-- No descriptor comes to denote another connection. -/
theorem WireStep.conn (hstep : WireStep w e w') {fd : Fd} {p p' : Conn}
    (hp : w.conn fd = some p) (hp' : w'.conn fd = some p') : p' = p := by
  cases hstep with
  | goOn => exact Option.some.inj (hp'.symm.trans hp)
  | goBack t a next fd' cmdType message call sent answer g _ _ _ _ _ _ _ he =>
      exact exec_conn he hp hp'
  | goPast t a next fd' cmdType message answer g _ _ _ he =>
      exact exec_conn he hp hp'
  | other l config _ hconfig =>
      cases hconfig with
      | start => exact Option.some.inj (hp'.symm.trans hp)
      | act t a next answer g _ he => exact exec_conn he hp hp'

/-- What the socket accepts. -/
theorem WireStep.accepted (hstep : WireStep w e w') (q : Conn) :
    w'.accepted q = w.accepted q ++ e.bytes w q := by
  cases hstep with
  | other => exact (List.append_nil _).symm
  | _ => rfl

/-- Who takes another step is in no call. -/
theorem Wire.Underway.idle (h : w.Underway) {l : CodeStep N C}
    {config : CodeConfiguration N C}
    (hl : ∀ t a, l = .act t a → outgoing a = none)
    (hconfig : (codeServer N C).Step w.config l config) :
    w.sent (WireEvent.other l).thread = 0 := by
  rcases h (WireEvent.other l).thread with hzero | ⟨f, hf, -⟩
  · exact hzero
  · cases hconfig with
    | start t j hp =>
        have hnone : w.sending t = none := by rw [Wire.sending, hp]
        cases hf.symm.trans hnone
    | act t a next answer g hp he =>
        cases hf.symm.trans ((Wire.sending_of hp).trans (hl t a rfl))

theorem WireStep.underway (h : w.Underway) (hstep : WireStep w e w') :
    w'.Underway := by
  intro u
  by_cases hu : u = e.thread
  · subst hu
    cases hstep with
    | goOn t a next fd cmdType message call sent hp ha _ _ _ _ hlt =>
        refine .inr ⟨_, (Wire.sending_of hp).trans ha, ?_⟩
        show Function.update w.sent t sent t < _
        rw [Function.update_self]
        exact hlt
    | goBack => exact .inl (Function.update_self _ _ _)
    | goPast t a next fd cmdType message answer g hp ha hempty =>
        exact .inl (h.zero ((Wire.sending_of hp).trans ha) hempty)
    | other l config hl hconfig => exact .inl (h.idle hl hconfig)
  · obtain ⟨hsending, hsent⟩ := hstep.others hu
    rw [hsending, hsent]
    exact h u

/-- The call returns, and its frame is among the finished ones. -/
theorem whole_sending {a : LockAct (Thread N) (Lock N) (Access N C)}
    {answer : a.Answer Access.Answer}
    {g : Guarded (Thread N) (Lock N) (Memory N C)} {fd : Fd} {cmdType : UInt8}
    {message : Bytes} (ha : outgoing a = some (fd, cmdType, message))
    (he : (codeServer N C).exec a w.config.shared = some (answer, g))
    (hg : w'.config.shared = g) :
    w'.whole q = w.whole q ++ w.toward fd q (messageBuffer cmdType message) := by
  unfold Wire.whole Wire.toward
  rw [hg, (exec_sending (q := q) ha he).2, List.flatMap_append]
  congr 1
  have hconn : w.conn fd = w.config.shared.state.conns fd := rfl
  rw [hconn]
  split
  · exact List.flatMap_singleton _ _
  · rfl

/-- Each step writes some bytes of one thread's frame. -/
theorem WireStep.writes (hunder : w.Underway) (horderly : w.Orderly)
    (horderly' : w'.Orderly) (hstep : WireStep w e w') (q : Conn) :
    ∃ frame, Writes (w.part q) (w'.part q) e.thread (e.bytes w q) frame ∧
      w'.whole q = w.whole q ++ frame ∧
      (frame ≠ [] → ∃ f, w.sending e.thread = some f ∧
        frame = messageBuffer f.2.1 f.2.2) := by
  have hothers : ∀ u, u ≠ e.thread → w'.part q u = w.part q u := by
    intro u hu
    obtain ⟨hsending, hsent⟩ := hstep.others hu
    refine Wire.part_same hsending hsent fun f hf => ?_
    obtain ⟨p, hp, -⟩ := horderly u f hf
    obtain ⟨p', hp', -⟩ := horderly' u f (hsending.trans hf)
    rw [hp, hp', hstep.conn hp hp']
  cases hstep with
  | goOn t a next fd cmdType message call sent hp ha hoffset hinside hhonest
      hround hlt =>
      have hsending := (Wire.sending_of hp).trans ha
      have htake := accepted_call hoffset hinside hhonest hround
      exact ⟨[], Wire.writes_on hsending hsending rfl
        (Function.update_self _ _ _) htake hothers, (List.append_nil _).symm,
        fun hne => absurd rfl hne⟩
  | goBack t a next fd cmdType message call sent answer g hp ha hoffset hinside
      hhonest hround hle he =>
      have hsending := (Wire.sending_of hp).trans ha
      have htake := (accepted_call hoffset hinside hhonest hround).trans
        (List.take_of_length_le hle)
      exact ⟨_, Wire.writes_back hsending (Function.update_self _ _ _) htake
        hothers, whole_sending ha he rfl,
        fun hne => ⟨_, hsending, Wire.toward_of_ne hne⟩⟩
  | goPast t a next fd cmdType message answer g hp ha hempty he =>
      have hsending := (Wire.sending_of hp).trans ha
      refine ⟨_, Wire.writes_back hsending (hunder.zero hsending hempty) ?_
        hothers, whole_sending ha he rfl,
        fun hne => ⟨_, hsending, Wire.toward_of_ne hne⟩⟩
      rw [hempty, List.take_nil, List.append_nil]
  | other l config hl hconfig =>
      have hzero := hunder.idle hl hconfig
      have hnone : w.part q (WireEvent.other l).thread = [] :=
        Wire.part_of_zero hzero
      have hnone' : Wire.part ⟨config, w.sent, w.accepted⟩ q
          (WireEvent.other l).thread = [] := Wire.part_of_zero hzero
      refine ⟨[], ⟨?_, .inl rfl, hothers⟩, ?_, fun hne => absurd rfl hne⟩
      · rw [hnone, hnone']
        rfl
      · rw [List.append_nil, Wire.whole, Wire.whole]
        cases hconfig with
        | start => rfl
        | act t a next answer g hp he =>
            show (g.state.frames q).flatMap _ = _
            rw [exec_frames (hl t a rfl) he]

/-- The bytes are those of a call of the thread's. -/
theorem WireStep.exists_of_bytes (hstep : WireStep w e w')
    (hbytes : e.bytes w q ≠ []) :
    ∃ f, w.sending e.thread = some f ∧ w.conn f.1 = some q := by
  cases hstep with
  | goOn t a next fd cmdType message call sent hp ha =>
      exact ⟨_, (Wire.sending_of hp).trans ha, Wire.conn_of_toward hbytes⟩
  | goBack t a next fd cmdType message call sent answer g hp ha =>
      exact ⟨_, (Wire.sending_of hp).trans ha, Wire.conn_of_toward hbytes⟩
  | goPast t a next fd cmdType message answer g hp ha =>
      exact ⟨_, (Wire.sending_of hp).trans ha, Wire.conn_of_toward hbytes⟩
  | other => exact absurd rfl hbytes

/-- Broadcasts are kept apart by the lock of the room, replies by being all of the
thread that holds the descriptor. -/
theorem WireStep.alone_iff (horderly : w.Orderly) (hstep : WireStep w e w')
    (hbytes : e.bytes w q ≠ []) :
    Alone (w.part q) e.thread ↔
      ∀ u, w.locked u ≠ w.locked e.thread → w.part q u = [] := by
  constructor
  · intro halone u hu
    exact halone u fun heq => hu (congrArg w.locked heq)
  · intro hothers u hu
    by_contra hpart
    obtain ⟨f, hf, hq⟩ := Wire.exists_of_part hpart
    obtain ⟨f', hf', hq'⟩ := hstep.exists_of_bytes hbytes
    obtain ⟨p, hp, hrivals⟩ := horderly u f hf
    cases hq.symm.trans hp
    exact hpart (hothers u (hrivals e.thread f' hf' hq' hu))

theorem WireStep.apart (hunder : w.Underway) (horderly : w.Orderly)
    (horderly' : w'.Orderly) (hstep : WireStep w e w') (hapart : w.Apart)
    (hunmixed : Unmixed w e) : w'.Apart := by
  intro q
  obtain ⟨frame, hwrites, hwhole, -⟩ :=
    hstep.writes hunder horderly horderly' q
  rw [hstep.accepted q, hwhole]
  exact (hapart q).write hwrites fun hbytes =>
    (hstep.alone_iff horderly hbytes).mpr (hunmixed.2 q hbytes)

/-- A step keeps the frames apart if and only if nobody else is in the middle of a
frame to the socket that accepts something. -/
theorem WireStep.apart_iff (hunder : w.Underway) (horderly : w.Orderly)
    (horderly' : w'.Orderly) (hstep : WireStep w e w') (hapart : w.Apart)
    (hok : WireOk w e) (hterminated : w.Terminated) :
    Unmixed w e ↔ w'.Apart := by
  constructor
  · exact fun hunmixed => hstep.apart hunder horderly horderly' hapart hunmixed
  · refine fun hapart' => ⟨hok, fun q hbytes => ?_⟩
    obtain ⟨frame, hwrites, hwhole, hframe⟩ :=
      hstep.writes hunder horderly horderly' q
    have huntorn := hapart' q
    rw [hstep.accepted q, hwhole] at huntorn
    refine (hstep.alone_iff horderly hbytes).mp (hwrites.alone (by decide)
      (hapart q) huntorn hbytes ?_ fun u _ => Wire.free_part hunder hterminated)
    intro hne
    obtain ⟨f, hf, rfl⟩ := hframe hne
    obtain ⟨message, heq, -⟩ := hterminated _ f hf
    exact ⟨message, heq⟩

/-- A frame in one call of `send`. -/
theorem wireStep_frame {t : Thread N}
    {a : LockAct (Thread N) (Lock N) (Access N C)}
    {next : a.Answer Access.Answer → Code N C Unit} {fd : Fd} {cmdType : UInt8}
    {message : Bytes} {answer : a.Answer Access.Answer}
    {g : Guarded (Thread N) (Lock N) (Memory N C)}
    (hp : w.config.prog t = .act a next)
    (ha : outgoing a = some (fd, cmdType, message)) (hzero : w.sent t = 0)
    (he : (codeServer N C).exec a w.config.shared = some (answer, g)) :
    WireStep w (.send t fd (messageBuffer cmdType message))
      ⟨w.config.update t g (next answer), w.sent,
        w.accept fd (messageBuffer cmdType message)⟩ := by
  by_cases hempty : messageBuffer cmdType message = []
  · have hstep := WireStep.goPast w t a next fd cmdType message answer g hp ha
      hempty he
    rwa [← hempty] at hstep
  · have hpos := List.length_pos_iff.mpr hempty
    have hstep := WireStep.goBack w t a next fd cmdType message
      ⟨0, _, .bytes (messageBuffer cmdType message).length⟩
      (messageBuffer cmdType message).length answer g hp ha hzero.symm
      ⟨hpos, Nat.zero_add _⟩ (fun _ heq => by cases heq; exact le_rfl)
      (by rw [sendRound, if_pos hpos, hzero, Nat.zero_add]) le_rfl he
    have hsent : Function.update w.sent t 0 = w.sent := by
      rw [← hzero, Function.update_eq_self]
    have haccepted : SendCall.accepted (messageBuffer cmdType message)
        ⟨0, (messageBuffer cmdType message).length,
          .bytes (messageBuffer cmdType message).length⟩ =
        messageBuffer cmdType message := List.take_length
    rw [hsent, haccepted] at hstep
    exact hstep

end Steps

section Runs

variable [NeZero N] {w : Wire N C}
  {ok : Wire N C → WireEvent N C → Prop}

theorem WireRun.underway (hrun : WireRun ok w) : w.Underway := by
  induction hrun with
  | init => exact fun _ => .inl rfl
  | snoc _ _ hstep ih => exact hstep.underway ih

/-- The accesses of a run of the sockets are a run. -/
theorem WireRun.config (hok : ∀ w e, ok w e → WireOk w e)
    (hrun : WireRun ok w) :
    ∃ ls, (codeServer N C).Run CodeOk (CodeConfiguration.init N C) ls
      w.config := by
  induction hrun with
  | init => exact ⟨[], .nil⟩
  | @snoc w w' e _ he hstep ih =>
      obtain ⟨ls, hls⟩ := ih
      cases hstep with
      | goOn => exact ⟨ls, hls⟩
      | goBack t a next fd cmdType message call sent answer g hp ha _ _ _ _ _
          hexec =>
          exact ⟨_, hls.snoc (codeOk_sending ha _ _)
            (.act _ t a next answer g hp hexec)⟩
      | goPast t a next fd cmdType message answer g hp ha _ hexec =>
          exact ⟨_, hls.snoc (codeOk_sending ha _ _)
            (.act _ t a next answer g hp hexec)⟩
      | other l config _ hconfig => exact ⟨_, hls.snoc (hok _ _ he) hconfig⟩

theorem WireRun.orderly (hok : ∀ w e, ok w e → WireOk w e)
    (hrun : WireRun ok w) : w.Orderly := by
  obtain ⟨ls, hls⟩ := hrun.config hok
  intro t f hf
  obtain ⟨a, next, hp, ha⟩ := Wire.exists_call hf
  obtain ⟨q, hq, hrivals⟩ := rivals_run hls hp (codeOk_sending ha _ t) ha
  refine ⟨q, hq, fun u f' hf' hq' htu => ?_⟩
  obtain ⟨b, next', hp', hb⟩ := Wire.exists_call hf'
  rw [Wire.locked_of hp, Wire.locked_of hp']
  exact hrivals u b next' f' hp' (codeOk_sending hb _ u) hb hq' htu

theorem WireRun.mono {ok' : Wire N C → WireEvent N C → Prop}
    (hok : ∀ w e, ok w e → ok' w e) (hrun : WireRun ok w) :
    WireRun ok' w := by
  induction hrun with
  | init => exact .init
  | snoc _ he hstep ih => exact ih.snoc (hok _ _ he) hstep

/-- The frames are apart while nobody writes into another's frame. -/
theorem apart_run (hrun : WireRun Unmixed w) : w.Apart := by
  induction hrun with
  | init =>
      refine fun q => ⟨.main, ?_, fun u _ => Wire.part_of_zero rfl⟩
      rw [Wire.part_of_zero rfl]
      rfl
  | snoc hrun he hstep ih =>
      exact hstep.apart hrun.underway (hrun.orderly fun _ _ h => h.1)
        ((hrun.snoc he hstep).orderly fun _ _ h => h.1) ih he

/-- What the step does to the frames shows whether somebody wrote into
another's. -/
theorem apart_step {w' : Wire N C} {e : WireEvent N C}
    (hrun : WireRun Unmixed w) (hterminated : w.Terminated) (hok : WireOk w e)
    (hstep : WireStep w e w') : Unmixed w e ↔ w'.Apart := by
  have hrun' : WireRun WireOk w := hrun.mono fun _ _ h => h.1
  exact hstep.apart_iff hrun.underway (hrun'.orderly fun _ _ h => h)
    ((hrun'.snoc hok hstep).orderly fun _ _ h => h) (apart_run hrun) hok
    hterminated

/-- Every run of the accesses is one of the sockets in which each frame is sent in
one call. -/
theorem exists_wireRun {ls : List (CodeStep N C)} {k : CodeConfiguration N C}
    (hrun : (codeServer N C).Run CodeOk (CodeConfiguration.init N C) ls k) :
    ∃ accepted, WireRun Unmixed ⟨k, fun _ => 0, accepted⟩ := by
  induction hrun with
  | nil => exact ⟨_, .init⟩
  | @snoc ls l k k' hls hok hstep ih =>
      obtain ⟨accepted, hrun⟩ := ih
      have hsilent : (∀ t a, l = .act t a → outgoing a = none) →
          ∃ accepted, WireRun Unmixed ⟨k', fun _ => 0, accepted⟩ := by
        intro hl
        have hwire := WireStep.other ⟨k, fun _ => 0, accepted⟩ l k' hl hstep
        refine ⟨_, hrun.snoc ?_ hwire⟩
        exact ⟨hok, fun q hbytes => absurd rfl hbytes⟩
      cases hstep with
      | start t j hp => exact hsilent fun _ _ heq => by cases heq
      | act t a next answer g hp he =>
          cases hf : outgoing a with
          | none =>
              refine hsilent fun u b heq => ?_
              cases heq
              exact hf
          | some f =>
              have hwire := wireStep_frame
                (w := ⟨k, fun _ => 0, accepted⟩) hp hf rfl he
              refine ⟨_, hrun.snoc ?_ hwire⟩
              exact ⟨trivial, fun q _ u _ => Wire.part_of_zero rfl⟩

/-- **Frames are not mixed up.**  Broadcasts to a room are kept apart by its lock,
and replies by being all of the thread that holds the descriptor.  So in every run
in which a socket accepts bytes of a frame of the one kind only while no thread is
in the middle of one of the other kind to the same connection, what the socket of
each connection has accepted is the frames of the calls that have returned, one
after the other, and then the part of one that is under way.  When the frames under
way hold no terminator but their own, the first step in which it is not so mixes
them up. -/
theorem untorn_run :
    (∀ w : Wire N C, WireRun Unmixed w → w.Apart) ∧
    ∀ (w w' : Wire N C) (e : WireEvent N C), WireRun Unmixed w →
      w.Terminated → WireOk w e → WireStep w e w' →
        (Unmixed w e ↔ w'.Apart) :=
  ⟨fun _ => apart_run, fun _ _ _ => apart_step⟩

end Runs

/-- One client has opened a room, another one is connected and has a name. -/
def bobOpening : List (Thread maxThreads × Job maxThreads maxClientsPerThread) :=
  opensRoom 0 (text "bob") (text "den") ++ connects 1 ++
    [sends 1 (frame cmdUsernameSubmit (text "eve"))]

/-- What the members are told. -/
def eveNotice : Bytes := text "eve has entered the room\n"

/-- What a member is told that wants to create a room. -/
def bobRefusal : Bytes := text "Invalid command for in chat room state\n"

/-- The frames under way, and whether they are sent with the lock of a room
held. -/
def Wire.calls (w : Wire N C) :
    List ((Thread N × Bool) × Fd × UInt8 × Bytes) :=
  (.main :: (List.finRange N).map .worker).filterMap fun t =>
    (w.sending t).map fun f => ((t, w.locked t), f)

theorem Wire.mem_calls {w : Wire N C} {t : Thread N} {locked : Bool}
    {f : Fd × UInt8 × Bytes} :
    ((t, locked), f) ∈ w.calls ↔ w.sending t = some f ∧ w.locked t = locked := by
  have hall : t ∈ Thread.main :: (List.finRange N).map Thread.worker := by
    cases t with
    | main => exact List.mem_cons_self
    | worker v =>
        exact List.mem_cons_of_mem _
          (List.mem_map.mpr ⟨v, List.mem_finRange v, rfl⟩)
  unfold calls
  rw [List.mem_filterMap]
  constructor
  · rintro ⟨u, -, hu⟩
    obtain ⟨f', hf, heq⟩ := Option.map_eq_some_iff.mp hu
    cases heq
    exact ⟨hf, rfl⟩
  · rintro ⟨hf, rfl⟩
    exact ⟨t, hall, by rw [hf]; rfl⟩

/-- Two frames are on their way to the first client: its own worker's refusal, and
the notice that the other one has entered its room, with the room locked. -/
def twoCalls : List
    ((Thread maxThreads × Bool) × Fd × UInt8 × Bytes) :=
  [((.worker (workerOf 0), false), 5, errProtocolInvalidStateCmd, bobRefusal),
    ((.worker (workerOf 1), true), 5, cmdRoomMsg, eveNotice)]

theorem reply_mem : ((.worker (workerOf 0), false), 5, errProtocolInvalidStateCmd,
    bobRefusal) ∈ twoCalls :=
  List.mem_cons_self

theorem notice_mem : ((.worker (workerOf 1), true), 5, cmdRoomMsg, eveNotice) ∈
    twoCalls :=
  List.mem_cons_of_mem _ List.mem_cons_self

theorem two_calls : ∃ w : Wire maxThreads maxClientsPerThread,
    WireRun Unmixed w ∧ (∀ t, w.sent t = 0) ∧ w.conn 5 = some 0 ∧
      w.calls = twoCalls := by
  have hplay : ((scriptCode (finishing bobOpening)
      (CodeConfiguration.init maxThreads maxClientsPerThread)).bind fun opened =>
        (scriptCode
          [.give (.worker (workerOf 1)) (.receive (clientOf 1)
            (.data (frame cmdRoomJoinRequest (text "0")))),
          .act (.worker (workerOf 1)) 16,
          .give (.worker (workerOf 0)) (.receive (clientOf 0)
            (.data (frame cmdRoomCreateRequest (text "x")))),
          .act (.worker (workerOf 0)) 2] opened.2).map fun joining =>
        decide (joining.2.shared.state.conns 5 = some 0) &&
          decide (Wire.calls ⟨joining.2, fun _ => 0, fun _ => []⟩ = twoCalls)) =
      some true := by
    decide +kernel
  obtain ⟨⟨opened, k₀⟩, hopened, hplay⟩ := Option.bind_eq_some_iff.mp hplay
  obtain ⟨⟨joining, k⟩, hjoining, heq⟩ := Option.map_eq_some_iff.mp hplay
  simp only [Bool.and_eq_true, decide_eq_true_eq] at heq
  obtain ⟨hconn, hcalls⟩ := heq
  obtain ⟨ls, hrun⟩ :=
    (scriptCode_logged (scriptCode_logged .nil hopened) hjoining).run
  obtain ⟨accepted, hwire⟩ := exists_wireRun hrun
  exact ⟨_, hwire, fun _ => rfl, hconn, hcalls⟩

/-- The notice stands in the first client's socket as far as its third byte. -/
theorem half_sent : ∃ w : Wire maxThreads maxClientsPerThread,
    WireRun Unmixed w ∧ w.calls = twoCalls ∧ w.conn 5 = some 0 ∧
      w.sent (.worker (workerOf 1)) = 3 ∧
      (∀ u, u ≠ .worker (workerOf 1) → w.sent u = 0) ∧
      (messageBuffer cmdRoomMsg eveNotice).take 3 <:+ w.accepted 0 := by
  obtain ⟨w, hrun, hzero, hconn, hcalls⟩ := two_calls
  have hnotice := notice_mem
  rw [← hcalls] at hnotice
  obtain ⟨a, next, hp, ha⟩ := Wire.exists_call ( Wire.mem_calls.mp hnotice).1
  have hstep := WireStep.goOn w _ a next 5 cmdRoomMsg eveNotice
    ⟨0, 29, .bytes 3⟩ 3 hp ha (hzero _).symm ⟨by decide, rfl⟩
    (fun _ heq => by cases heq; decide) (by rw [hzero]; rfl) (by decide)
  refine ⟨_, hrun.snoc ?_ hstep, hcalls, hconn,
    Function.update_self (.worker (workerOf 1)) 3 w.sent, fun u hu => ?_, ?_⟩
  · exact ⟨trivial, fun q _ u _ => Wire.part_of_zero (hzero u)⟩
  · exact (Function.update_of_ne hu _ _).trans (hzero u)
  · refine ⟨w.accepted 0, ?_⟩
    show _ = w.accepted 0 ++ w.toward 5 0 _
    rw [Wire.toward, if_pos hconn]
    rfl

theorem terminated_of_calls {w : Wire maxThreads maxClientsPerThread}
    (hcalls : w.calls = twoCalls) : w.Terminated := by
  intro t f hf
  have hmem := Wire.mem_calls.mpr ⟨hf, rfl⟩
  rw [hcalls, twoCalls] at hmem
  rcases List.mem_cons.mp hmem with heq | hmem
  · obtain rfl := (Prod.mk.inj heq).2
    exact ⟨errProtocolInvalidStateCmd :: space :: bobRefusal, by decide, by decide⟩
  · obtain rfl := (Prod.mk.inj (List.mem_singleton.mp hmem)).2
    exact ⟨cmdRoomMsg :: space :: eveNotice, by decide, by decide⟩

/-- The other one's worker goes on with its notice, and the frames stay apart. -/
theorem untorn_bob : ∃ w w' : Wire maxThreads maxClientsPerThread, ∃ rest,
    WireRun Unmixed w ∧ w.Apart ∧
      w.part 0 (.worker (workerOf 1)) = (messageBuffer cmdRoomMsg eveNotice).take 3 ∧
      WireStep w (.send (.worker (workerOf 1)) 5 rest) w' ∧
      w.part 0 (.worker (workerOf 1)) ++ rest = messageBuffer cmdRoomMsg eveNotice ∧
      w'.Apart := by
  obtain ⟨w, hrun, hcalls, hconn, hsent, hzero, -⟩ := half_sent
  have hnotice := notice_mem
  rw [← hcalls] at hnotice
  obtain ⟨hsending, -⟩ := Wire.mem_calls.mp hnotice
  obtain ⟨a, next, hp, ha⟩ := Wire.exists_call hsending
  obtain ⟨answer, g, he⟩ := exec_enabled ha w.config.shared
  have hstep := WireStep.goBack w _ a next 5 cmdRoomMsg eveNotice
    ⟨3, 26, .bytes 26⟩ 29 answer g hp ha hsent.symm ⟨by decide, rfl⟩
    (fun _ heq => by cases heq; decide) (by rw [hsent]; rfl) (by decide) he
  have hpart : w.part 0 (.worker (workerOf 1)) =
      (messageBuffer cmdRoomMsg eveNotice).take 3 := by
    rw [Wire.part_of hsending, Wire.toward, if_pos hconn, hsent]
  have hok : Unmixed w (.send (.worker (workerOf 1)) 5
      (SendCall.accepted (messageBuffer cmdRoomMsg eveNotice)
        ⟨3, 26, .bytes 26⟩)) := by
    refine ⟨trivial, fun q _ u hu => Wire.part_of_zero (hzero u ?_)⟩
    exact fun heq => hu (congrArg w.locked heq)
  refine ⟨w, _, _, hrun, untorn_run.1 w hrun, hpart, hstep, ?_,
    (untorn_run.2 w _ _ hrun (terminated_of_calls hcalls) hok.1 hstep).mp hok⟩
  rw [hpart]
  decide

/-- A frame in the middle of another: the first client's worker replies while the
notice stands in its socket as far as the third byte. -/
theorem not_untorn_reply : ∃ w : Wire maxThreads maxClientsPerThread,
    WireRun WireOk w ∧ ¬ w.Apart ∧
      (messageBuffer cmdRoomMsg eveNotice).take 3 ++
        messageBuffer errProtocolInvalidStateCmd bobRefusal <:+ w.accepted 0 := by
  obtain ⟨w, hrun, hcalls, hconn, hsent, hzero, haccepted⟩ := half_sent
  have hreply := reply_mem
  have hnotice := notice_mem
  rw [← hcalls] at hreply hnotice
  obtain ⟨hsending, hlocked⟩ := Wire.mem_calls.mp hreply
  obtain ⟨hsending', hlocked'⟩ := Wire.mem_calls.mp hnotice
  obtain ⟨a, next, hp, ha⟩ := Wire.exists_call hsending
  obtain ⟨answer, g, he⟩ := exec_enabled ha w.config.shared
  have hstep := wireStep_frame hp ha (hzero _ (by decide)) he
  have hok : WireOk w (.send (.worker (workerOf 0)) 5
      (messageBuffer errProtocolInvalidStateCmd bobRefusal)) := trivial
  have htoward : ∀ bytes, w.toward 5 0 bytes = bytes := fun bytes => if_pos hconn
  refine ⟨_, (hrun.mono fun _ _ h => h.1).snoc hok hstep, fun hapart => ?_, ?_⟩
  · -- the notice is sent with the room locked, the reply without
    have hunmixed := (apart_step hrun (terminated_of_calls hcalls) hok
      hstep).mpr hapart
    have hbytes : w.toward 5 0
        (messageBuffer errProtocolInvalidStateCmd bobRefusal) ≠ [] := by
      rw [htoward]
      decide
    have hlocks : w.locked (.worker (workerOf 1)) ≠
        w.locked (.worker (workerOf 0)) := by
      rw [hlocked, hlocked']
      decide
    have hempty := hunmixed.2 0 hbytes _ hlocks
    rw [Wire.part_of hsending', htoward, hsent] at hempty
    exact absurd hempty (by decide)
  · obtain ⟨earlier, hearlier⟩ := haccepted
    refine ⟨earlier, ?_⟩
    show _ = w.accepted 0 ++ w.toward 5 0 _
    rw [htoward, ← hearlier, List.append_assoc]

end ChatApp.Server
