import ChatApp.Server.Framing

/-!
# The reassembly buffer

`strcat` appends to `current_msg` without looking at lengths.  What keeps the
buffer from overflowing is only how much text arrives without a terminator
that the loop recognises; `noOverflow_iff` says how much that may be.
-/

namespace ChatApp.Server

open ChatApp.Foundation

variable {N C : Nat} {c : ClientPtr N C} {s s' : State N C}
  {chunks : List Bytes} {steps : Steps N C}

/-- No `strcat` writes past the end of `current_msg`, and what is handed over
with too long a content is refused for that. -/
structure NoOverflow (c : ClientPtr N C) (steps : Steps N C) : Prop where
  fits : ∀ t ∈ writtenTo c steps, t.length ≤ Buffer.currentMsg.size - 1
  refused : ∀ msg ∈ routedTo c steps,
    maxContentLen < (content msg).length →
    formatError msg = some (errProtocolInvalidFormat,
      text ("Invalid Foramt: Message too long\nCorrect format:[command " ++
        "char][space][message content][MSG_TERMINATOR]\n"))

/-- The check of the length comes before all others that can fail for a long
message. -/
theorem formatError_of_long {msg : Bytes}
    (h : maxContentLen < (content msg).length) :
    formatError msg = some (errProtocolInvalidFormat,
      text ("Invalid Foramt: Message too long\nCorrect format:[command " ++
        "char][space][message content][MSG_TERMINATOR]\n")) := by
  have hlen : ¬ msg.length < 3 := by
    have hdrop : (content msg).length = msg.length - 2 := List.length_drop
    have hmax : 1 ≤ maxContentLen := by decide
    omega
  unfold formatError
  rw [if_neg hlen, if_pos h]

/-- **The reassembly buffer.**  It never overflows if and only if no stretch
of received text without a terminator inside one `recv` result, the carried
over text included, is longer than the buffer less its NUL. -/
theorem noOverflow_iff (h : Session c s chunks steps s')
    (hchunks : ∀ chunk ∈ chunks, ChunkOk chunk)
    (hcarry : (s.clients c).currentMsg.length ≤
      Buffer.currentMsg.size - 1) :
    NoOverflow c steps ↔
      Delimited.Stretches cr lf (Buffer.currentMsg.size - 1)
        (s.clients c).currentMsg.length (chunks.map cString) := by
  have hshort : ∀ chunk ∈ chunks.map cString,
      chunk.length ≤ Buffer.currentMsg.size - 1 := by
    intro chunk hmem
    obtain ⟨bytes, hbytes, rfl⟩ := List.mem_map.mp hmem
    have hlen := (hchunks bytes hbytes).2
    have hle : (cString bytes).length ≤ bytes.length :=
      (List.takeWhile_prefix _).length_le
    have hsize : maxMessageLenToServer ≤ Buffer.currentMsg.size - 1 := by
      decide
    omega
  rw [← Delimited.writes_le_iff _ _ hcarry hshort, ← (session_cString h).2.1]
  constructor
  · intro hno
    exact hno.fits
  · intro hfits
    exact ⟨hfits, fun msg _ => formatError_of_long⟩

/-- A message in three results of `recv`. -/
theorem noOverflow_parts : ∃ (s s' : RealState) (steps : Steps _ _),
    play (State.init _ _) (connects 0) = some s ∧
      Session (clientOf 0) s
        [text "\x02 b", text "o", text "b\r\n"] steps s' ∧
      NoOverflow (clientOf 0) steps := by
  have hplay : (play (State.init maxThreads maxClientsPerThread)
      (connects 0)).map (fun s => (s.clients (clientOf 0)).currentMsg) =
        some [] := by decide +kernel
  obtain ⟨s, hs, hempty⟩ := Option.map_eq_some_iff.mp hplay
  obtain ⟨steps, s', h⟩ := session_exists (clientOf 0)
    [text "\x02 b", text "o", text "b\r\n"] s
  refine ⟨s, s', steps, hs, h, (noOverflow_iff h (by decide) ?_).mpr ?_⟩
  · rw [hempty]
    exact Nat.zero_le _
  · rw [hempty, ← Delimited.writes_le_iff _ [] (Nat.zero_le _) (by decide)]
    decide

/-- Three full results of `recv` without a terminator overflow the buffer. -/
theorem not_noOverflow_endless : ¬ ∀ (ls : List (Step _ _)) (s s' : RealState)
    (steps : Steps _ _) (c : ClientPtr _ _) (chunks : List Bytes),
    (server _ _).Run LiveOk (Configuration.init _ _) ls (quiet s) →
      (s.clients c).inUse = true → (s.clients c).currentMsg = [] →
      (∀ chunk ∈ chunks, ChunkOk chunk) → Session c s chunks steps s' →
      NoOverflow c steps := by
  intro hall
  have hplay : (play (State.init maxThreads maxClientsPerThread)
      (connects 0)).map (fun s => ((s.clients (clientOf 0)).inUse,
        (s.clients (clientOf 0)).currentMsg)) =
        some (true, []) := by decide +kernel
  obtain ⟨s, hs, hstart⟩ := Option.map_eq_some_iff.mp hplay
  obtain ⟨hlive, hempty⟩ := Prod.mk.inj hstart
  obtain ⟨ls, hrun⟩ := play_live hs
  obtain ⟨steps, s', h⟩ := session_exists (clientOf 0)
    (List.replicate 3 (List.replicate maxMessageLenToServer 97)) s
  have hfits := (hall ls s s' steps _ _ hrun hlive hempty
    (by decide +kernel) h).fits
  rw [(session_cString h).2.1, hempty] at hfits
  revert hfits
  decide +kernel

end ChatApp.Server
