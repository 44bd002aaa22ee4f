import ChatApp.Server.Framing

/-!
# The loop of `send_message_to_client`

Elsewhere a frame is sent in one step.  Here the calls of `send` are seen one by
one: each passes what is left of the frame, and the socket accepts some of its
bytes, or none.  `sends_prefix` says that the calls resume where the last one
stopped.
-/

namespace ChatApp.Server

open ChatApp.Foundation

/-- What `send` returns: a number of bytes, or `-1` with the value of `errno`. -/
inductive SendResult where
  | bytes (count : Nat)
  | wouldBlock
  | fatal
  deriving DecidableEq

/-- The string in `message_buffer` after
`sprintf(message_buffer, "%c %s%s", cmd_type, message, MSG_TERMINATOR)`. -/
def messageBuffer (cmdType : UInt8) (message : Bytes) : Bytes :=
  cString (cmdType :: space :: cString message ++ msgTerminator)

/-- One call: where in the buffer it starts, how much it passes, and what it
returns. -/
structure SendCall where
  offset : Nat
  length : Nat
  result : SendResult
  deriving DecidableEq

/-- The body of the loop after a call: the new `sent`, or `none` for the
`break`. -/
def sendRound (sent : Nat) : SendResult → Option Nat
  | .fatal => none
  | .wouldBlock => some sent
  | .bytes count => some (if 0 < count then sent + count else sent)

/-- `while (sent < length)`: the calls made when the loop ends after exactly these
results. -/
def sendLoop (length : Nat) : (sent : Nat) → List SendResult →
    Option (List SendCall)
  | sent, [] => if sent < length then none else some []
  | sent, result :: results =>
      if sent < length then
        match sendRound sent result with
        | none =>
            if results = [] then some [⟨sent, length - sent, result⟩] else none
        | some sent' =>
            (sendLoop length sent' results).map
              (⟨sent, length - sent, result⟩ :: ·)
      else none

/-- The calls of `send_message_to_client` that returns after these results. -/
def sendCalls (cmdType : UInt8) (message : Bytes) (results : List SendResult) :
    Option (List SendCall) :=
  sendLoop (messageBuffer cmdType message).length 0 results

/-- The socket accepts no more than it is passed. -/
def SendCall.Honest (call : SendCall) : Prop :=
  ∀ count, call.result = .bytes count → count ≤ call.length

/-- The bytes of the buffer the socket accepts in one call. -/
def SendCall.accepted (buffer : Bytes) (call : SendCall) : Bytes :=
  match call.result with
  | .bytes count => (buffer.drop call.offset).take count
  | _ => []

/-- The bytes accepted over all calls. -/
def accepted (buffer : Bytes) (calls : List SendCall) : Bytes :=
  calls.flatMap (SendCall.accepted buffer)

/-- The call passes a part of the buffer that reaches to its end. -/
def SendCall.Inside (length : Nat) (call : SendCall) : Prop :=
  call.offset < length ∧ call.offset + call.length = length

section Loop

variable {buffer : Bytes} {sent : Nat} {result : SendResult}

/-- One round: `sent` counts the bytes accepted so far. -/
theorem sendRound_accepted {sent' : Nat} (hsent : sent < buffer.length)
    (h : sendRound sent result = some sent')
    (hhonest : SendCall.Honest ⟨sent, buffer.length - sent, result⟩) :
    sent' ≤ buffer.length ∧
      buffer.take sent ++
          SendCall.accepted buffer ⟨sent, buffer.length - sent, result⟩ =
        buffer.take sent' := by
  cases result with
  | fatal => cases h
  | wouldBlock =>
      cases h
      exact ⟨hsent.le, List.append_nil _⟩
  | bytes count =>
      have hle : count ≤ buffer.length - sent := hhonest count rfl
      have hsent' : sent' = sent + count := by
        simp only [sendRound, Option.some.injEq] at h
        split at h <;> omega
      subst hsent'
      refine ⟨by omega, ?_⟩
      show buffer.take sent ++ (buffer.drop sent).take count = _
      rw [List.take_add]

theorem getLast?_cons_ne_fatal {results : List SendResult}
    (h : result ≠ .fatal) :
    (result :: results).getLast? ≠ some .fatal ↔
      results.getLast? ≠ some .fatal := by
  cases results with
  | nil => simpa using h
  | cons next results => rw [List.getLast?_cons_cons]

/-- What the rest of the loop sends. -/
theorem sendLoop_accepted {results : List SendResult} :
    ∀ {sent : Nat} {calls : List SendCall}, sent ≤ buffer.length →
      sendLoop buffer.length sent results = some calls →
      (∀ call ∈ calls, call.Honest) →
      (∃ total, total ≤ buffer.length ∧
        buffer.take sent ++ accepted buffer calls = buffer.take total ∧
        (total = buffer.length ↔ results.getLast? ≠ some .fatal)) ∧
      ∀ call ∈ calls, call.Inside buffer.length := by
  induction results with
  | nil =>
      intro sent calls hsent h _
      simp only [sendLoop] at h
      split at h
      case isTrue => cases h
      case isFalse hdone =>
        cases h
        refine ⟨⟨sent, hsent, List.append_nil _, ?_⟩, nofun⟩
        simp only [List.getLast?_nil, ne_eq, reduceCtorEq, not_false_eq_true,
          iff_true]
        omega
  | cons result results ih =>
      intro sent calls hsent h hhonest
      simp only [sendLoop] at h
      split at h
      case isFalse => cases h
      case isTrue hlt =>
      have hinside : SendCall.Inside buffer.length
          ⟨sent, buffer.length - sent, result⟩ :=
        ⟨hlt, Nat.add_sub_cancel' hlt.le⟩
      cases hround : sendRound sent result with
      | none =>
          rw [hround] at h
          dsimp only at h
          split at h
          case isFalse => cases h
          case isTrue hend =>
          cases h
          have hfatal : result = .fatal := by
            cases result with
            | fatal => rfl
            | wouldBlock => cases hround
            | bytes count => cases hround
          subst hfatal
          refine ⟨⟨sent, hsent, List.append_nil _, ?_⟩, ?_⟩
          · simp only [hend, List.getLast?_singleton, ne_eq, not_true_eq_false,
              iff_false]
            omega
          · intro call hcall
            cases List.mem_singleton.mp hcall
            exact hinside
      | some sent' =>
          rw [hround] at h
          obtain ⟨later, hlater, rfl⟩ := Option.map_eq_some_iff.mp h
          obtain ⟨hsent', happend⟩ := sendRound_accepted hlt hround
            (hhonest _ List.mem_cons_self)
          obtain ⟨⟨total, htotal, hlaterAccepted, hlast⟩, hlaterInside⟩ :=
            ih hsent' hlater fun call hcall =>
              hhonest call (List.mem_cons_of_mem _ hcall)
          refine ⟨⟨total, htotal, ?_, ?_⟩, ?_⟩
          · rw [accepted, List.flatMap_cons, ← List.append_assoc, happend]
            exact hlaterAccepted
          · rw [hlast, getLast?_cons_ne_fatal]
            rintro rfl
            cases hround
          · intro call hcall
            rcases List.mem_cons.mp hcall with rfl | hcall
            · exact hinside
            · exact hlaterInside call hcall

end Loop

/-- The buffer holds the frame. -/
theorem messageBuffer_eq {cmdType : UInt8} {message : Bytes}
    (hcmd : cmdType ≠ 0) (hmessage : 0 ∉ message) :
    messageBuffer cmdType message = frame cmdType message := by
  unfold messageBuffer
  rw [cString_of_not_mem hmessage]
  apply cString_of_not_mem
  intro hb
  simp only [List.cons_append, List.mem_cons, List.mem_append] at hb
  rcases hb with hb | hb | hb | hb
  · exact hcmd hb.symm
  · exact absurd hb (by decide)
  · exact hmessage hb
  · exact absurd hb (by decide)

/-- **The send loop.**  The bytes accepted over all calls are a prefix of the
frame, the whole frame unless the last result was a fatal error; and no call
passes anything outside the frame. -/
theorem sends_prefix {cmdType : UInt8} {message : Bytes} (hcmd : cmdType ≠ 0)
    (hmessage : 0 ∉ message) {results : List SendResult} {calls : List SendCall}
    (h : sendCalls cmdType message results = some calls)
    (hhonest : ∀ call ∈ calls, call.Honest) :
    accepted (messageBuffer cmdType message) calls <+: frame cmdType message ∧
      (accepted (messageBuffer cmdType message) calls = frame cmdType message ↔
        results.getLast? ≠ some .fatal) ∧
      ∀ call ∈ calls, call.Inside (frame cmdType message).length := by
  obtain ⟨⟨total, htotal, haccepted, hlast⟩, hinside⟩ :=
    sendLoop_accepted (Nat.zero_le _) h hhonest
  rw [List.take_zero, List.nil_append] at haccepted
  rw [← messageBuffer_eq hcmd hmessage, haccepted, ← hlast]
  refine ⟨List.take_prefix _ _, ?_, hinside⟩
  constructor
  · intro hwhole
    have hlength := congrArg List.length hwhole
    rw [List.length_take] at hlength
    omega
  · rintro rfl
    exact List.take_length

/-- A frame of six bytes, in three calls. -/
theorem sends_hi : ∃ calls,
    sendCalls cmdRoomMsg (text "hi") [.bytes 2, .wouldBlock, .bytes 4] =
        some calls ∧
      accepted (messageBuffer cmdRoomMsg (text "hi")) calls =
        frame cmdRoomMsg (text "hi") := by
  have hhonest : ∀ call ∈ [⟨0, 6, .bytes 2⟩, ⟨2, 4, .wouldBlock⟩,
      (⟨2, 4, .bytes 4⟩ : SendCall)], call.Honest := by
    intro call hcall count hcount
    simp only [List.mem_cons, List.not_mem_nil, or_false] at hcall
    rcases hcall with rfl | rfl | rfl
    · cases hcount
      decide
    · cases hcount
    · cases hcount
      decide
  have hcalls : sendCalls cmdRoomMsg (text "hi")
      [.bytes 2, .wouldBlock, .bytes 4] = some [⟨0, 6, .bytes 2⟩,
        ⟨2, 4, .wouldBlock⟩, ⟨2, 4, .bytes 4⟩] := rfl
  exact ⟨_, hcalls, ( sends_prefix (by decide) (by decide) hcalls
    hhonest).2.1.mpr (by decide)⟩

end ChatApp.Server
