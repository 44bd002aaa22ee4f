import ChatApp.Client.Encoding
import ChatApp.Foundation.Cuts
import ChatApp.Server.Ordered
import ChatApp.Server.Sending

/-!
# How the client follows the server

`receive_message` hands what one `recv` returns to `parse_server_msg`, which
looks at its first byte only: it takes every result of `recv` for one frame.
`follows_iff` says which segmentations the client survives, in terms of where
results and frames begin in the stream, and that the client then knows whether
the server has it in a room.
-/

namespace ChatApp.Client

open ChatApp.Foundation ChatApp.Server

variable {N C : Nat}

/-! ## Frames and segments -/

/-- A frame: its command byte and its text. -/
abbrev Frame : Type := UInt8 × Bytes

/-- The bytes of a frame on the wire. -/
def wire (f : Frame) : Bytes := f.1 :: space :: f.2 ++ msgTerminator

/-- The command codes the server sends. -/
def serverCodes : List UInt8 :=
  [cmdWelcomeRequest, cmdRoomCreateOk, cmdRoomListResponse, cmdRoomJoinOk,
    cmdRoomMsg, cmdRoomLeaveOk] ++ errorCodes

/-- A frame the server may send; CR LF is its terminator only. -/
structure FrameOk (f : Frame) : Prop where
  code : f.1 ∈ serverCodes
  noNul : 0 ∉ f.2
  terminated : Delimited.Free cr lf (f.2 ++ [cr])

/-- The bytes of the frames, cut into results of `recv`. -/
structure Segments (frames : List Frame) (chunks : List Bytes) : Prop where
  bytes : chunks.flatten = frames.flatMap wire
  sizes : ∀ chunk ∈ chunks,
    chunk ≠ [] ∧ chunk.length ≤ maxMessageLenFromServer - 1

/-- The mode a command puts the client in, if it does. -/
def mode? (code : UInt8) : Option Bool :=
  if code = cmdRoomCreateOk ∨ code = cmdRoomJoinOk then some true
  else if code = cmdRoomLeaveOk then some false
  else none

/-- Whether the client is in a room after these commands. -/
def modeAfter (isInRoom : Bool) (codes : List UInt8) : Bool :=
  (codes.filterMap mode?).getLast?.getD isInRoom

/-- What has been displayed in `msg_win`. -/
def App.messages (app : App) : List Bytes :=
  app.displayed.filterMap fun d => if d.1 = .msgWin then some d.2 else none

/-- The text of a room message as it is displayed. -/
def shown (f : Frame) : Bytes :=
  text " " ++ sanitize (space :: f.2 ++ msgTerminator)

/-- The client is where the frames put it, and has displayed the text of every
`CMD_ROOM_MSG` once and in order. -/
structure Follows (app : App) (frames : List Frame) (chunks : List Bytes) :
    Prop where
  mode : (receiveAll app chunks).isInRoom =
    modeAfter app.isInRoom (frames.map Prod.fst)
  messages : (receiveAll app chunks).messages =
    app.messages ++ (frames.filter fun f => f.1 = cmdRoomMsg).map shown

/-- The commands that the client acts on. -/
def actedOn : List UInt8 :=
  [cmdRoomCreateOk, cmdRoomJoinOk, cmdRoomMsg, cmdRoomLeaveOk]

/-- Where the frames begin in the stream. -/
def framesAt (frames : List Frame) : List (Nat × Frame) := placed wire 0 frames

/-- Where the results of `recv` begin. -/
def resultsAt (chunks : List Bytes) : List (Nat × Bytes) := placed id 0 chunks

def begins (chunks : List Bytes) (p : Nat) : Bool :=
  (resultsAt chunks).any fun r => r.1 = p

/-- Where the frames begin that change the mode, and what they change it to. -/
def modesAt (frames : List Frame) : List (Nat × Bool) :=
  (framesAt frames).filterMap fun r => (mode? r.2.1).map (Prod.mk r.1)

/-- The frames that change the mode after the last of them at which a result of
`recv` begins. -/
def missed (frames : List Frame) (chunks : List Bytes) : List (Nat × Bool) :=
  (modesAt frames).rtakeWhile fun r => !begins chunks r.1

/-- The results of `recv` fit the frames. -/
structure Aligned (frames : List Frame) (chunks : List Bytes) : Prop where
  /-- A result with a command that the client acts on begins with a frame. -/
  starts : ∀ r ∈ resultsAt chunks, r.2.headD 0 ∈ actedOn →
    ∃ f, (r.1, f) ∈ framesAt frames
  /-- Every room message is one result. -/
  whole : ∀ r ∈ framesAt frames, r.2.1 = cmdRoomMsg →
    (r.1, wire r.2) ∈ resultsAt chunks
  /-- Of entering and leaving rooms an even number was missed in the end. -/
  even : Even (missed frames chunks).length

/-- The text has no byte that the client takes for a command. -/
def Clean (f : Frame) : Prop := ∀ b ∈ f.2, b ∉ actedOn

instance (f : Frame) : Decidable (Clean f) := List.decidableBAll _ _

/-- The frames enter and leave rooms in turn. -/
def InTurn (isInRoom : Bool) (frames : List Frame) : Prop :=
  Alternates isInRoom ((frames.map Prod.fst).filterMap mode?)

/-! ## One result of `recv` -/

theorem modeAfter_cons (isInRoom : Bool) (code : UInt8) (codes : List UInt8) :
    modeAfter isInRoom (code :: codes) =
      modeAfter ((mode? code).getD isInRoom) codes := by
  unfold modeAfter
  cases hmode : mode? code with
  | none => simp [hmode]
  | some flag =>
      rw [List.filterMap_cons_some hmode]
      cases codes.filterMap mode? <;> simp [List.getLast?_cons]

@[simp] theorem messages_output (app : App) (string : Bytes) :
    (uiMsgDisplay app .outputWin string).messages = app.messages := by
  simp [uiMsgDisplay, App.messages]

@[simp] theorem messages_msg (app : App) (string : Bytes) :
    (uiMsgDisplay app .msgWin string).messages = app.messages ++ [string] := by
  simp [uiMsgDisplay, App.messages]

@[simp] theorem messages_mode (app : App) (isInRoom : Bool) :
    ({ app with isInRoom := isInRoom } : App).messages = app.messages := rfl

/-- `parse_server_msg` changes the mode as the first byte says, and displays
the rest in `msg_win` if that byte is `CMD_ROOM_MSG`. -/
theorem parseServerMsg_eq (app : App) {chunk : Bytes} (hnul : 0 ∉ chunk) :
    (parseServerMsg app chunk).isInRoom =
        (mode? (chunk.headD 0)).getD app.isInRoom ∧
      (parseServerMsg app chunk).messages = app.messages ++
        if chunk.headD 0 = cmdRoomMsg then
          [text " " ++ sanitize (chunk.drop 1)] else [] := by
  have hrest : cString (chunk.drop 1) = chunk.drop 1 :=
    cString_of_not_mem fun h => hnul (List.mem_of_mem_drop h)
  generalize happ : parseServerMsg app chunk = app'
  unfold parseServerMsg at happ
  dsimp only at happ
  rw [hrest] at happ
  generalize chunk.headD 0 = code at happ ⊢
  have hquiet : ∀ {code : UInt8} {string : Bytes}, code ≠ cmdRoomMsg →
      (uiMsgDisplay app .outputWin string).messages = app.messages ++
        if code = cmdRoomMsg then [text " " ++ sanitize (chunk.drop 1)]
        else [] := by
    intro code string hcode
    rw [messages_output, if_neg hcode, List.append_nil]
  split at happ
  case isTrue hcode =>
    subst hcode happ
    exact ⟨rfl, hquiet (by decide)⟩
  split at happ
  case isTrue hcode =>
    subst hcode happ
    exact ⟨rfl, hquiet (by decide)⟩
  split at happ
  case isTrue hcode =>
    subst hcode happ
    exact ⟨rfl, hquiet (by decide)⟩
  split at happ
  case isTrue hcode =>
    subst hcode happ
    exact ⟨rfl, hquiet (by decide)⟩
  split at happ
  case isTrue hcode =>
    subst hcode happ
    exact ⟨rfl, by rw [messages_msg, if_pos rfl]⟩
  split at happ
  case isTrue hcode =>
    subst hcode happ
    exact ⟨rfl, hquiet (by decide)⟩
  case isFalse hwelcome hcreate hlist hjoin hmsg hleave =>
    subst happ
    have hmode : mode? code = none := by
      unfold mode?
      rw [if_neg (not_or.mpr ⟨hcreate, hjoin⟩), if_neg hleave]
    exact ⟨by rw [hmode]; rfl, hquiet hmsg⟩

/-- The results of `recv`, by their first bytes. -/
theorem receiveAll_eq {chunks : List Bytes} :
    ∀ app : App, (∀ chunk ∈ chunks, chunk ≠ [] ∧ 0 ∉ chunk) →
      (receiveAll app chunks).isInRoom =
          modeAfter app.isInRoom (chunks.map fun chunk => chunk.headD 0) ∧
        (receiveAll app chunks).messages = app.messages ++
          (chunks.filter fun chunk => chunk.head? = some cmdRoomMsg).map
            fun chunk => text " " ++ sanitize (chunk.drop 1) := by
  induction chunks with
  | nil => exact fun app _ => ⟨rfl, (List.append_nil _).symm⟩
  | cons chunk rest ih =>
      intro app hchunks
      obtain ⟨hne, hnul⟩ := hchunks chunk List.mem_cons_self
      obtain ⟨hmode, hmessages⟩ := parseServerMsg_eq app hnul
      have hreceive : receiveAll app (chunk :: rest) =
          receiveAll (parseServerMsg app chunk) rest := by
        show receiveAll (receiveMessage app chunk) rest = _
        rw [receiveMessage, if_neg hne]
      obtain ⟨hmode', hmessages'⟩ := ih (parseServerMsg app chunk)
        fun c hc => hchunks c (List.mem_cons_of_mem _ hc)
      rw [hreceive, hmode', hmessages', hmode, hmessages, List.map_cons,
        modeAfter_cons]
      refine ⟨rfl, ?_⟩
      cases chunk with
      | nil => exact absurd rfl hne
      | cons code body =>
          by_cases hcode : code = cmdRoomMsg
          · simp [hcode]
          · simp [hcode]

/-! ## Segmentations -/

theorem sanitize_append (first second : Bytes) :
    sanitize (first ++ second) = sanitize first ++ sanitize second :=
  List.filter_append ..

theorem Segments.noNul {frames : List Frame} {chunks : List Bytes}
    (h : Segments frames chunks) (hframes : ∀ f ∈ frames, FrameOk f) :
    ∀ chunk ∈ chunks, 0 ∉ chunk := by
  intro chunk hchunk hzero
  have hmem : (0 : UInt8) ∈ frames.flatMap wire :=
    h.bytes ▸ List.mem_flatten.mpr ⟨chunk, hchunk, hzero⟩
  obtain ⟨f, hf, hwire⟩ := List.mem_flatMap.mp hmem
  have hok := hframes f hf
  have hcodes : (0 : UInt8) ∉ serverCodes := by decide
  have hterm : (0 : UInt8) ∉ msgTerminator := by decide
  have hspace : (0 : UInt8) ≠ space := by decide
  simp only [wire, List.cons_append, List.mem_cons, List.mem_append, hspace,
    hok.noNul, hterm, or_false] at hwire
  exact hcodes (hwire ▸ hok.code)

theorem sanitize_cons {code : UInt8} (h : code ≠ cr) (body : Bytes) :
    sanitize (code :: body) = code :: sanitize body := by
  simp [sanitize, h]

/-- Room messages are displayed alike if and only if they are alike, CRs
aside. -/
theorem shown_iff {frames : List Frame} {chunks : List Bytes} :
    (chunks.filter fun chunk => chunk.head? = some cmdRoomMsg).map
          (fun chunk => text " " ++ sanitize (chunk.drop 1)) =
        (frames.filter fun f => f.1 = cmdRoomMsg).map shown ↔
      (chunks.filter fun chunk => chunk.head? = some cmdRoomMsg).map
          sanitize =
        (frames.filter fun f => f.1 = cmdRoomMsg).map
          fun f => sanitize (wire f) := by
  have hcr : cmdRoomMsg ≠ cr := by decide
  have hchunks : (chunks.filter fun chunk =>
        chunk.head? = some cmdRoomMsg).map sanitize =
      ((chunks.filter fun chunk => chunk.head? = some cmdRoomMsg).map
        fun chunk => sanitize (chunk.drop 1)).map (cmdRoomMsg :: ·) := by
    rw [List.map_map]
    apply List.map_congr_left
    intro chunk hchunk
    have hhead := (List.mem_filter.mp hchunk).2
    cases chunk with
    | nil => cases hhead
    | cons code body =>
        have hcode : code = cmdRoomMsg := by simpa using hhead
        subst hcode
        exact sanitize_cons hcr body
  have hframes : ((frames.filter fun f => f.1 = cmdRoomMsg).map
        fun f => sanitize (wire f)) =
      ((frames.filter fun f => f.1 = cmdRoomMsg).map fun f =>
        sanitize (space :: f.2 ++ msgTerminator)).map (cmdRoomMsg :: ·) := by
    rw [List.map_map]
    apply List.map_congr_left
    intro f hf
    have hcode : f.1 = cmdRoomMsg := by
      simpa using (List.mem_filter.mp hf).2
    unfold wire
    rw [hcode]
    exact sanitize_cons hcr _
  have hprefix : Function.Injective fun l : Bytes => text " " ++ l :=
    fun _ _ => List.append_cancel_left
  have hshown : (chunks.filter fun chunk =>
        chunk.head? = some cmdRoomMsg).map
        (fun chunk => text " " ++ sanitize (chunk.drop 1)) =
      ((chunks.filter fun chunk => chunk.head? = some cmdRoomMsg).map
        fun chunk => sanitize (chunk.drop 1)).map (text " " ++ ·) := by
    rw [List.map_map]
    rfl
  have hshown' : (frames.filter fun f => f.1 = cmdRoomMsg).map shown =
      ((frames.filter fun f => f.1 = cmdRoomMsg).map fun f =>
        sanitize (space :: f.2 ++ msgTerminator)).map (text " " ++ ·) := by
    rw [List.map_map]
    rfl
  rw [hchunks, hframes, hshown, hshown', hprefix.list_map.eq_iff,
    List.cons_injective.list_map.eq_iff]

/-- The result of `recv` looks like a room message. -/
def opens (chunk : Bytes) : Bool := chunk.head? = some cmdRoomMsg

variable {frames : List Frame} {chunks : List Bytes}

/-- What the client displays and where it ends, in terms of the results of
`recv`. -/
theorem follows_iff_results {app : App} (hframes : ∀ f ∈ frames, FrameOk f)
    (h : Segments frames chunks) :
    Follows app frames chunks ↔
      (chunks.filter opens).map sanitize =
        (frames.filter fun f => f.1 = cmdRoomMsg).map (fun f =>
          sanitize (wire f)) ∧
      modeAfter app.isInRoom (chunks.map fun chunk => chunk.headD 0) =
        modeAfter app.isInRoom (frames.map Prod.fst) := by
  obtain ⟨hmode, hmessages⟩ := receiveAll_eq app fun chunk hchunk =>
    ⟨(h.sizes chunk hchunk).1, h.noNul hframes chunk hchunk⟩
  constructor
  · intro hfollows
    have hshown := hfollows.messages
    rw [hmessages] at hshown
    refine ⟨shown_iff.mp (List.append_cancel_left hshown), ?_⟩
    rw [← hmode]
    exact hfollows.mode
  · rintro ⟨hsame, hstep⟩
    refine ⟨?_, ?_⟩
    · rw [hmode]
      exact hstep
    · rw [hmessages, shown_iff.mpr hsame]

/-! ## Where results and frames begin -/

section Positions

variable {p : Nat} {f : Frame} {chunk tail rest : Bytes}

theorem wire_ne_nil (f : Frame) : wire f ≠ [] := by
  unfold wire
  exact List.cons_ne_nil _ _

theorem head_frames (hcodes : ∀ f ∈ frames, f.1 ∈ serverCodes) :
    (frames.flatMap wire).head? ≠ some cr := by
  cases frames with
  | nil => exact nofun
  | cons f frames =>
      have hcode := hcodes f List.mem_cons_self
      have hcr : cr ∉ serverCodes := by decide
      rw [List.flatMap_cons]
      intro hhead
      exact hcr (Option.some.inj hhead ▸ hcode)

theorem framesAt_ascending (frames : List Frame) :
    (framesAt frames).Pairwise fun a b => a.1 < b.1 :=
  placed_ascending fun f _ => wire_ne_nil f

theorem Segments.resultsAt_ascending (h : Segments frames chunks) :
    (resultsAt chunks).Pairwise fun a b => a.1 < b.1 :=
  placed_ascending fun chunk hchunk => (h.sizes chunk hchunk).1

theorem begins_iff : begins chunks p = true ↔ ∃ chunk, (p, chunk) ∈ resultsAt chunks := by
  unfold begins
  rw [List.any_eq_true]
  constructor
  · rintro ⟨⟨q, chunk⟩, hmem, heq⟩
    cases of_decide_eq_true heq
    exact ⟨chunk, hmem⟩
  · rintro ⟨chunk, hmem⟩
    exact ⟨_, hmem, decide_eq_true rfl⟩

/-- From where a result begins. -/
theorem Segments.result_at (h : Segments frames chunks)
    (hresult : (p, chunk) ∈ resultsAt chunks) :
    chunk ≠ [] ∧ ∃ tail, (frames.flatMap wire).drop p = chunk ++ tail := by
  obtain ⟨before, after, rfl, hdrop⟩ := drop_of_placed hresult
  have hbytes := h.bytes
  rw [List.flatMap_id] at hdrop
  exact ⟨(h.sizes chunk (by simp)).1, _, by rw [← hbytes, hdrop]; rfl⟩

/-- From where a frame begins; the next one does not begin with a CR. -/
theorem frame_at (hframes : ∀ f ∈ frames, FrameOk f)
    (hframe : (p, f) ∈ framesAt frames) :
    f ∈ frames ∧ ∃ rest, (frames.flatMap wire).drop p = wire f ++ rest ∧
      rest.head? ≠ some cr := by
  obtain ⟨before, after, rfl, hdrop⟩ := drop_of_placed hframe
  refine ⟨by simp, _, hdrop, head_frames fun g hg => ?_⟩
  exact (hframes g (by simp [hg])).code

/-- A result and a frame that begin at one position begin alike. -/
theorem Segments.same_code (h : Segments frames chunks)
    (hframes : ∀ f ∈ frames, FrameOk f)
    (hresult : (p, chunk) ∈ resultsAt chunks)
    (hframe : (p, f) ∈ framesAt frames) : chunk.headD 0 = f.1 := by
  obtain ⟨hne, tail, hdrop⟩ := h.result_at hresult
  obtain ⟨-, rest, hdrop', -⟩ := frame_at hframes hframe
  rw [hdrop] at hdrop'
  cases chunk with
  | nil => exact absurd rfl hne
  | cons b body => exact (List.cons.inj hdrop').1

theorem acted_of_mode {code : UInt8} {isInRoom : Bool}
    (h : mode? code = some isInRoom) : code ∈ actedOn := by
  unfold mode? at h
  split at h
  case isTrue hroom =>
    rcases hroom with rfl | rfl
    all_goals decide
  case isFalse =>
    obtain ⟨rfl, -⟩ := Option.ite_none_right_eq_some.mp h
    decide

/-- What begins with a command, and not with a frame, has it in a text. -/
theorem Segments.starts_of_clean (h : Segments frames chunks)
    (hclean : ∀ f ∈ frames, Clean f) (hresult : (p, chunk) ∈ resultsAt chunks)
    (hcode : chunk.headD 0 ∈ actedOn) : ∃ f, (p, f) ∈ framesAt frames := by
  obtain ⟨hne, tail, hdrop⟩ := h.result_at hresult
  obtain ⟨b, body, rfl⟩ := List.exists_cons_of_ne_nil hne
  have hlt : p < (frames.flatMap wire).length := by
    by_contra hge
    rw [List.drop_of_length_le (not_lt.mp hge)] at hdrop
    cases hdrop
  obtain ⟨q, f, hframe, hle, hin⟩ := exists_placed (Nat.zero_le p)
    (by rw [Nat.zero_add]; exact hlt)
  obtain ⟨before, after, hsplit, hdrop'⟩ := drop_of_placed hframe
  obtain ⟨n, rfl⟩ := Nat.exists_eq_add_of_le hle
  cases n with
  | zero => exact ⟨f, hframe⟩
  | succ n =>
      rw [← List.drop_drop, hdrop', List.drop_append_of_le_length (by omega)] at hdrop
      have hpos : (wire f).drop (n + 1) ≠ [] := by
        rw [Ne, List.drop_eq_nil_iff]
        omega
      obtain ⟨b', body', hcons⟩ := List.exists_cons_of_ne_nil hpos
      rw [hcons] at hdrop
      obtain rfl : b' = b := (List.cons.inj hdrop).1
      have hmem : b' ∈ space :: f.2 ++ msgTerminator := by
        have hin : b' ∈ (wire f).drop (n + 1) := by
          rw [hcons]
          exact List.mem_cons_self
        exact List.mem_of_mem_drop (i := n) hin
      have hspace : space ∉ actedOn := by decide
      have hterm : Clean (space, msgTerminator) := by decide
      have hf : f ∈ frames := by
        rw [hsplit]
        simp
      rcases List.mem_append.mp hmem with hmem | hmem
      · rcases List.mem_cons.mp hmem with rfl | hmem
        · exact absurd hcode hspace
        · exact absurd hcode (hclean f hf b' hmem)
      · exact absurd hcode (hterm b' hmem)

/-- What starts with a frame and is it, CRs aside, is it. -/
theorem eq_wire {f : Frame} (heq : chunk ++ tail = wire f ++ rest)
    (hsame : sanitize chunk = sanitize (wire f))
    (hrest : rest.head? ≠ some cr) : chunk = wire f := by
  have hall : ∀ {w : Bytes}, sanitize w = [] → ∀ b ∈ w, b = cr := by
    intro w hw b hb
    by_contra hne
    have hmem : b ∈ sanitize w := List.mem_filter.mpr ⟨hb, by simpa using hne⟩
    rw [hw] at hmem
    cases hmem
  rcases List.append_eq_append_iff.mp heq with
    ⟨extra, hwire, -⟩ | ⟨extra, rfl, hextra⟩
  · rw [hwire, sanitize_append] at hsame
    have hcr := hall (List.self_eq_append_right.mp hsame)
    -- The frame ends in a LF, so nothing is missing.
    cases hlast : extra.getLast? with
    | none =>
        rw [List.getLast?_eq_none_iff.mp hlast, List.append_nil] at hwire
        exact hwire.symm
    | some b =>
        have hb := hcr b (List.mem_of_getLast? hlast)
        have hend : (wire f).getLast? = some lf := by
          unfold wire
          rw [List.getLast?_append]
          rfl
        rw [hwire, List.getLast?_append, hlast, hb] at hend
        cases hend
  · rw [sanitize_append] at hsame
    have hcr := hall (List.self_eq_append_right.mp hsame.symm)
    cases extra with
    | nil => rw [List.append_nil]
    | cons b extra =>
        rw [hextra] at hrest
        exact absurd (by simp [hcr b List.mem_cons_self]) hrest

/-- Where no other result begins with a command, the mode changes by the frames
at which results begin. -/
theorem Segments.modes (h : Segments frames chunks)
    (hframes : ∀ f ∈ frames, FrameOk f)
    (hstarts : ∀ r ∈ resultsAt chunks, r.2.headD 0 ∈ actedOn →
      ∃ f, (r.1, f) ∈ framesAt frames) :
    (chunks.map fun chunk => chunk.headD 0).filterMap mode? =
      ((modesAt frames).filter fun r => begins chunks r.1).map Prod.snd := by
  have hkeyed : (resultsAt chunks).filterMap (fun r =>
        (mode? (r.2.headD 0)).map (Prod.mk r.1)) =
      (modesAt frames).filter fun r => begins chunks r.1 := by
    have hkey : ∀ {β : Type} (code : β → UInt8) {l : List (Nat × β)},
        (l.Pairwise fun a b => a.1 < b.1) →
        (l.filterMap fun r => (mode? (code r.2)).map (Prod.mk r.1)).Pairwise
          fun a b => a.1 < b.1 := by
      intro β code l hl
      refine hl.filterMap _ fun a a' hlt b hb b' hb' => ?_
      obtain ⟨m, -, rfl⟩ := Option.map_eq_some_iff.mp hb
      obtain ⟨m', -, rfl⟩ := Option.map_eq_some_iff.mp hb'
      exact hlt
    refine eq_of_ascending
      (hkey (fun chunk => chunk.headD 0) h.resultsAt_ascending)
      ((hkey Prod.fst (framesAt_ascending frames)).filter _) ?_
    rintro ⟨p, isInRoom⟩
    rw [List.mem_filter, begins_iff, modesAt, List.mem_filterMap,
      List.mem_filterMap]
    constructor
    · rintro ⟨⟨q, chunk⟩, hresult, heq⟩
      obtain ⟨m, hmode, heq⟩ := Option.map_eq_some_iff.mp heq
      cases heq
      obtain ⟨f, hframe⟩ := hstarts (q, chunk) hresult (acted_of_mode hmode)
      rw [h.same_code hframes hresult hframe] at hmode
      exact ⟨⟨(q, f), hframe, by rw [hmode]; rfl⟩, chunk, hresult⟩
    · rintro ⟨⟨⟨q, f⟩, hframe, heq⟩, chunk, hresult⟩
      obtain ⟨m, hmode, heq⟩ := Option.map_eq_some_iff.mp heq
      cases heq
      rw [← h.same_code hframes hresult hframe] at hmode
      exact ⟨(q, chunk), hresult, by rw [hmode]; rfl⟩
  have hchunks := congrArg (List.map Prod.snd) hkeyed
  rw [← hchunks, List.map_filterMap]
  conv_lhs => rw [← map_snd_placed id 0 chunks]
  rw [List.map_map, List.filterMap_map]
  congr 1
  funext r
  show mode? (r.2.headD 0) = ((mode? (r.2.headD 0)).map _).map _
  cases mode? (r.2.headD 0) <;> rfl

theorem modes_map (frames : List Frame) :
    (modesAt frames).map Prod.snd = (frames.map Prod.fst).filterMap mode? := by
  unfold modesAt
  rw [List.map_filterMap]
  conv_rhs => rw [← map_snd_placed wire 0 frames]
  rw [List.map_map, List.filterMap_map]
  congr 1
  funext r
  show ((mode? r.2.1).map _).map _ = mode? r.2.1
  cases mode? r.2.1 <;> rfl

/-- Then the mode is right in the end if and only if an even number of changes
is missed. -/
theorem Segments.mode_iff (h : Segments frames chunks)
    (hframes : ∀ f ∈ frames, FrameOk f)
    (hstarts : ∀ r ∈ resultsAt chunks, r.2.headD 0 ∈ actedOn →
      ∃ f, (r.1, f) ∈ framesAt frames)
    {isInRoom : Bool} (hturn : InTurn isInRoom frames) :
    modeAfter isInRoom (chunks.map fun chunk => chunk.headD 0) =
        modeAfter isInRoom (frames.map Prod.fst) ↔
      Even (missed frames chunks).length := by
  unfold modeAfter InTurn at *
  rw [h.modes hframes hstarts, ← modes_map]
  rw [← modes_map] at hturn
  exact hturn.misses

/-- The results that look like room messages, with their positions. -/
def opening (chunks : List Bytes) : List (Nat × Bytes) :=
  (resultsAt chunks).filter fun r => opens r.2

/-- The room messages, with their positions. -/
def messagesAt (frames : List Frame) : List (Nat × Frame) :=
  (framesAt frames).filter fun r => r.2.1 = cmdRoomMsg

theorem map_opening (chunks : List Bytes) :
    (opening chunks).map Prod.snd = chunks.filter opens := by
  conv_rhs => rw [← map_snd_placed id 0 chunks]
  rw [List.filter_map]
  rfl

theorem map_messagesAt (frames : List Frame) :
    (messagesAt frames).map Prod.snd =
      frames.filter fun f => f.1 = cmdRoomMsg := by
  conv_rhs => rw [← map_snd_placed wire 0 frames]
  rw [List.filter_map]
  rfl

theorem opens_iff {chunk : Bytes} :
    opens chunk = true ↔ chunk ≠ [] ∧ chunk.headD 0 = cmdRoomMsg := by
  cases chunk <;> simp [opens]

/-- A result that looks like a room message begins with one. -/
theorem Segments.message_of_opening (h : Segments frames chunks)
    (hframes : ∀ f ∈ frames, FrameOk f)
    (hstarts : ∀ r ∈ resultsAt chunks, r.2.headD 0 ∈ actedOn →
      ∃ f, (r.1, f) ∈ framesAt frames)
    (hopening : (p, chunk) ∈ opening chunks) :
    ∃ f, (p, f) ∈ messagesAt frames := by
  obtain ⟨hresult, hopens⟩ := List.mem_filter.mp hopening
  obtain ⟨-, hcode⟩ := opens_iff.mp hopens
  have hacted : chunk.headD 0 ∈ actedOn := by
    rw [hcode]
    decide
  obtain ⟨f, hframe⟩ := hstarts (p, chunk) hresult hacted
  refine ⟨f, List.mem_filter.mpr ⟨hframe, decide_eq_true ?_⟩⟩
  rw [← hcode]
  exact (h.same_code hframes hresult hframe).symm

/-- Room messages that are results of their own are what looks like room
messages. -/
theorem Segments.messages_of_whole (h : Segments frames chunks)
    (hframes : ∀ f ∈ frames, FrameOk f)
    (hstarts : ∀ r ∈ resultsAt chunks, r.2.headD 0 ∈ actedOn →
      ∃ f, (r.1, f) ∈ framesAt frames)
    (hwhole : ∀ r ∈ framesAt frames, r.2.1 = cmdRoomMsg →
      (r.1, wire r.2) ∈ resultsAt chunks) :
    chunks.filter opens =
      (frames.filter fun f => f.1 = cmdRoomMsg).map wire := by
  have hopens : ∀ {f : Frame}, f.1 = cmdRoomMsg → opens (wire f) = true := by
    intro f hcode
    exact opens_iff.mpr ⟨wire_ne_nil f, hcode⟩
  have hkeyed : opening chunks =
      (messagesAt frames).map fun r => (r.1, wire r.2) := by
    refine eq_of_ascending (h.resultsAt_ascending.filter _)
      (List.pairwise_map.mpr ((framesAt_ascending frames).filter _)) ?_
    rintro ⟨p, chunk⟩
    rw [List.mem_map]
    constructor
    · intro hopening
      obtain ⟨f, hmessage⟩ := h.message_of_opening hframes hstarts hopening
      obtain ⟨hframe, hcode⟩ := List.mem_filter.mp hmessage
      have hresult := hwhole (p, f) hframe (of_decide_eq_true hcode)
      refine ⟨(p, f), hmessage, ?_⟩
      exact eq_of_key h.resultsAt_ascending hresult
        (List.mem_filter.mp hopening).1 rfl
    · rintro ⟨⟨q, f⟩, hmessage, heq⟩
      cases heq
      obtain ⟨hframe, hcode⟩ := List.mem_filter.mp hmessage
      have hcode := of_decide_eq_true hcode
      exact List.mem_filter.mpr ⟨hwhole (q, f) hframe hcode, hopens hcode⟩
  rw [← map_opening, hkeyed, ← map_messagesAt, List.map_map, List.map_map]
  rfl

/-- When the results that look like room messages are these messages, CRs aside,
and no text has a command in it, then they begin together. -/
theorem Segments.whole_of_messages (h : Segments frames chunks)
    (hframes : ∀ f ∈ frames, FrameOk f) (hclean : ∀ f ∈ frames, Clean f)
    (hsame : (chunks.filter opens).map sanitize =
      (frames.filter fun f => f.1 = cmdRoomMsg).map fun f => sanitize (wire f)) :
    ∀ r ∈ framesAt frames, r.2.1 = cmdRoomMsg →
      (r.1, wire r.2) ∈ resultsAt chunks := by
  have hlength : (opening chunks).length = (messagesAt frames).length := by
    have hlength := congrArg List.length hsame
    rw [← map_opening, ← map_messagesAt] at hlength
    simpa using hlength
  have hascending : ((opening chunks).map Prod.fst).Pairwise (· < ·) :=
    List.pairwise_map.mpr (h.resultsAt_ascending.filter _)
  have hascending' : ((messagesAt frames).map Prod.fst).Pairwise (· < ·) :=
    List.pairwise_map.mpr ((framesAt_ascending frames).filter _)
  -- As many positions, all of them beginnings of room messages.
  have hsub : (opening chunks).map Prod.fst ⊆ (messagesAt frames).map Prod.fst := by
    intro p hp
    obtain ⟨⟨q, chunk⟩, hopening, rfl⟩ := List.mem_map.mp hp
    obtain ⟨f, hmessage⟩ := h.message_of_opening hframes
      (fun _ => h.starts_of_clean hclean) hopening
    exact List.mem_map.mpr ⟨(q, f), hmessage, rfl⟩
  have hperm : ((opening chunks).map Prod.fst).Perm
      ((messagesAt frames).map Prod.fst) :=
    (List.subperm_of_subset (hascending.imp ne_of_lt) hsub).perm_of_length_le
      (by simp [hlength])
  have hpositions : (opening chunks).map Prod.fst =
      (messagesAt frames).map Prod.fst :=
    hperm.eq_of_pairwise (fun _ _ _ _ hab hba => absurd hab (lt_asymm hba))
      hascending hascending'
  rintro ⟨p, f⟩ hframe hcode
  have hmessage : (p, f) ∈ messagesAt frames :=
    List.mem_filter.mpr ⟨hframe, decide_eq_true hcode⟩
  obtain ⟨i, hi, hget⟩ := List.getElem_of_mem hmessage
  have hi' : i < (opening chunks).length := hlength ▸ hi
  generalize hresult : (opening chunks)[i] = result
  obtain ⟨q, chunk⟩ := result
  have hq : q = p := by
    have hat := congrArg (fun l : List Nat => l[i]?) hpositions
    simpa [hi, hi', hget, hresult] using hat
  have htext : sanitize chunk = sanitize (wire f) := by
    rw [← map_opening, ← map_messagesAt] at hsame
    have hat := congrArg (fun l : List Bytes => l[i]?) hsame
    simpa [hi, hi', hget, hresult] using hat
  subst hq
  have hin : (q, chunk) ∈ resultsAt chunks := by
    rw [← hresult]
    exact (List.mem_filter.mp (List.getElem_mem hi')).1
  obtain ⟨-, tail, hdrop⟩ := h.result_at hin
  obtain ⟨-, rest, hdrop', hrest⟩ := frame_at hframes hframe
  rw [← eq_wire (hdrop.symm.trans hdrop') htext hrest]
  exact hin

/-- A client follows what is aligned. -/
theorem follows_of_aligned {app : App} (hframes : ∀ f ∈ frames, FrameOk f)
    (hturn : InTurn app.isInRoom frames) (h : Segments frames chunks)
    (haligned : Aligned frames chunks) : Follows app frames chunks := by
  refine (follows_iff_results hframes h).mpr ⟨?_,
    (h.mode_iff hframes haligned.starts hturn).mpr haligned.even⟩
  rw [h.messages_of_whole hframes haligned.starts haligned.whole, List.map_map]
  rfl

/-- When no text has a command in it, a client follows only what is aligned. -/
theorem aligned_of_follows {app : App} (hframes : ∀ f ∈ frames, FrameOk f)
    (hclean : ∀ f ∈ frames, Clean f) (hturn : InTurn app.isInRoom frames)
    (h : Segments frames chunks) (hfollows : Follows app frames chunks) :
    Aligned frames chunks := by
  obtain ⟨hsame, hmode⟩ := (follows_iff_results hframes h).mp hfollows
  have hstarts : ∀ r ∈ resultsAt chunks, r.2.headD 0 ∈ actedOn →
      ∃ f, (r.1, f) ∈ framesAt frames := fun _ => h.starts_of_clean hclean
  exact ⟨hstarts, h.whole_of_messages hframes hclean hsame,
    (h.mode_iff hframes hstarts hturn).mp hmode⟩

end Positions

/-! ## Where the server has the client -/

theorem modes_traffic (s : State N C) (q : Conn) :
    ((framesTo q s.calls).map Prod.fst).filterMap mode? =
      (roomTraffic q s.calls).filterMap Told.isIn? := by
  unfold roomTraffic
  rw [List.filterMap_map, List.filterMap_filterMap]
  congr 1
  funext f
  show mode? f.1 = (roomFrame f).bind Told.isIn?
  have hmsg : mode? cmdRoomMsg = none := by decide
  unfold roomFrame
  by_cases hcreate : f.1 = cmdRoomCreateOk
  · rw [if_pos hcreate, hcreate]
    rfl
  rw [if_neg hcreate]
  by_cases hjoin : f.1 = cmdRoomJoinOk
  · rw [if_pos hjoin, hjoin]
    rfl
  rw [if_neg hjoin]
  by_cases hroom : f.1 = cmdRoomMsg
  · rw [if_pos hroom, hroom]
    rfl
  rw [if_neg hroom]
  unfold mode?
  rw [if_neg (not_or.mpr ⟨hcreate, hjoin⟩)]
  split <;> rfl

theorem isIn_forget (w : List (Told (Fin maxRooms) Bytes)) :
    (w.map forget).filterMap Told.isIn? = w.filterMap Told.isIn? := by
  rw [List.filterMap_map]
  congr 1
  funext x
  cases x <;> rfl

section Runs

variable [NeZero N] {ls : List (Step N C)} {k : Configuration N C}
  {c : ClientPtr N C} {q : Conn}

/-- While the worker of a client has nothing to do, the frames the client was
sent put it in the mode the server has it in. -/
theorem flag_of_server
    (hrun : (server N C).Run ReadsSucceed (Configuration.init N C) ls k)
    (hheld : k.shared.HeldBy q (.slot c))
    (hidle : k.prog (.worker c.worker) = .ret ()) :
    modeAfter false ((framesTo q k.shared.calls).map Prod.fst) = true ↔
      (k.shared.clients c).state = .inChatRoom := by
  have hchronicle := chronicle_run hrun
  have hpoint : k.shared.point c.worker = .idle :=
    (control_sound (hrun.mono fun _ _ h => h.1)).idle_view hidle
  have hlevel := hchronicle.served c q hheld (by rw [hpoint]; exact nofun)
  obtain ⟨hslot, hconn⟩ := HeldBy.slot hheld
  rw [modeAfter, modes_traffic, hlevel, isIn_forget, isIn_told hchronicle.valid,
    Option.isSome_iff_exists]
  constructor
  · rintro ⟨i, hi⟩
    have hhas := (hchronicle.placed.slot hchronicle.inv hslot hconn).mp hi
    exact ((hchronicle.inv.rooms.member i c).mp hhas).2.1
  · intro hstate
    refine ⟨(k.shared.clients c).roomIndex,
      (hchronicle.placed.slot hchronicle.inv hslot hconn).mpr ?_⟩
    refine (hchronicle.inv.rooms.member _ c).mpr
      ⟨(of_holding_slot hslot).1, hstate, rfl, ?_⟩
    rw [hpoint]
    exact nofun

/-- The server confirms entering and leaving in turn. -/
theorem inTurn_run
    (hrun : (server N C).Run ReadsSucceed (Configuration.init N C) ls k)
    (q : Conn) : InTurn false (framesTo q k.shared.calls) := by
  have hchronicle := chronicle_run hrun
  have htold := alternates_told hchronicle.valid q
  rw [← isIn_forget] at htold
  rw [InTurn, modes_traffic]
  rcases hchronicle.accounts q with hlevel | howes
  · rw [hlevel]
    exact htold
  · rw [← howes, List.filterMap_append] at htold
    exact (alternates_append.mp htold).1

theorem modes_append {before frames : List Frame}
    (hbefore : ∀ f ∈ before, mode? f.1 = none) :
    ((before ++ frames).map Prod.fst).filterMap mode? =
      (frames.map Prod.fst).filterMap mode? := by
  have hnone : (before.map Prod.fst).filterMap mode? = [] := by
    rw [List.filterMap_eq_nil_iff]
    intro code hcode
    obtain ⟨f, hf, rfl⟩ := List.mem_map.mp hcode
    exact hbefore f hf
  rw [List.map_append, List.filterMap_append, hnone, List.nil_append]

/-- **Following the server.**  A client follows the frames it is sent if the
results of `recv` are aligned with them, and only then unless a text has one of
the four commands in it.  The frames that the server sends enter and leave rooms
in turn; and a client that follows them knows, while its worker has nothing to do,
whether the server has it in a room. -/
theorem follows_iff :
    (∀ (app : App) (frames : List Frame) (chunks : List Bytes),
      (∀ f ∈ frames, FrameOk f) → InTurn app.isInRoom frames →
      Segments frames chunks →
      (Aligned frames chunks → Follows app frames chunks) ∧
        ((∀ f ∈ frames, Clean f) →
          (Follows app frames chunks ↔ Aligned frames chunks))) ∧
    ∀ (ls : List (Step N C)) (k : Configuration N C) (q : Conn) (app : App)
        (before frames : List Frame),
      (server N C).Run ReadsSucceed (Configuration.init N C) ls k →
      framesTo q k.shared.calls = before ++ frames →
      (∀ f ∈ before, mode? f.1 = none) → app.isInRoom = false →
      InTurn app.isInRoom frames ∧
        ∀ (chunks : List Bytes) (c : ClientPtr N C),
          (∀ f ∈ frames, FrameOk f) → Segments frames chunks →
          Aligned frames chunks → k.shared.HeldBy q (.slot c) →
          k.prog (.worker c.worker) = .ret () →
          ((receiveAll app chunks).isInRoom = true ↔
            (k.shared.clients c).state = .inChatRoom) := by
  constructor
  · intro app frames chunks hframes hturn h
    exact ⟨follows_of_aligned hframes hturn h, fun hclean =>
      ⟨aligned_of_follows hframes hclean hturn h,
        follows_of_aligned hframes hturn h⟩⟩
  · intro ls k q app before frames hrun hsent hbefore happ
    have hturn : InTurn app.isInRoom frames := by
      have hall := inTurn_run hrun q
      rw [InTurn, hsent, modes_append hbefore, ← happ] at hall
      exact hall
    refine ⟨hturn, fun chunks c hframes h haligned hheld hidle => ?_⟩
    have hfollows := follows_of_aligned hframes hturn h haligned
    rw [hfollows.mode, happ, ← flag_of_server hrun hheld hidle, hsent, modeAfter,
      modeAfter, modes_append hbefore]

end Runs

/-- A join, a line of somebody else, and leaving again. -/
def visitFrames : List Frame :=
  [(cmdRoomJoinOk, text "Successfully joined room\n"),
    (cmdRoomMsg, text "eve: hi"),
    (cmdRoomLeaveOk, text "You have left the room\n")]

theorem visitFrames_ok : ∀ f ∈ visitFrames, FrameOk f := by
  intro f hf
  simp only [visitFrames, List.mem_cons, List.not_mem_nil, or_false] at hf
  rcases hf with rfl | rfl | rfl
  · exact ⟨by decide, by decide, Delimited.free_iff_not_infix.mpr (by decide)⟩
  · exact ⟨by decide, by decide, Delimited.free_iff_not_infix.mpr (by decide)⟩
  · exact ⟨by decide, by decide, Delimited.free_iff_not_infix.mpr (by decide)⟩

/-- The confirmations arrive in two results of `recv` each, the line in one. -/
def visitResults : List Bytes :=
  [text "\x1b", text " Successfully joined room\n\r\n",
    text "\x1c eve: hi\r\n", text "\x1d You have", text " left the room\n\r\n"]

/-- What confirms that a room was created, and two results of `recv`. -/
def createdFrames : List Frame :=
  [(cmdRoomCreateOk, text "Room created successfully: den\n")]

def createdResults : List Bytes :=
  [text "\x18 Room created", text " successfully: den\n\r\n"]

theorem createdFrames_ok : ∀ f ∈ createdFrames, FrameOk f := by
  intro f hf
  cases List.mem_singleton.mp hf
  exact ⟨by decide, by decide, Delimited.free_iff_not_infix.mpr (by decide)⟩

/-- The client follows a visit; and when it has created a room on the server it
knows that it is in one. -/
theorem follows_apart : Aligned visitFrames visitResults ∧
    Follows App.init visitFrames visitResults ∧
    ∃ (ls : List (Step maxThreads maxClientsPerThread)) (s : RealState),
      (server maxThreads maxClientsPerThread).Run ReadsSucceed
        (Configuration.init _ _) ls (quiet s) ∧
      ((receiveAll App.init createdResults).isInRoom = true ↔
        (s.clients (clientOf 0)).state = .inChatRoom) := by
  obtain ⟨hfollows, hserver⟩ :=
    follows_iff (N := maxThreads) (C := maxClientsPerThread)
  obtain ⟨hvisit, hvisit'⟩ := hfollows App.init visitFrames visitResults
    visitFrames_ok ⟨rfl, rfl, trivial⟩ ⟨by decide, by decide⟩
  have haligned : Aligned visitFrames visitResults :=
    (hvisit' (by decide)).mp ⟨by decide, by decide⟩
  obtain ⟨-, hcreated⟩ := hfollows App.init createdFrames createdResults
    createdFrames_ok ⟨rfl, trivial⟩ ⟨by decide, by decide⟩
  have haligned' : Aligned createdFrames createdResults :=
    (hcreated (by decide)).mp ⟨by decide, by decide⟩
  have hplay : (play (State.init maxThreads maxClientsPerThread)
      (opensRoom 0 (text "bob") (text "den"))).map (fun s =>
        ((framesTo 0 s.calls).drop 2,
          ((framesTo 0 s.calls).take 2).all fun f => mode? f.1 = none,
          (s.holding (.slot (clientOf 0))).bind s.conns)) =
        some (createdFrames, true, some 0) := by
    decide +kernel
  obtain ⟨s, hs, heq⟩ := Option.map_eq_some_iff.mp hplay
  obtain ⟨hsent, heq⟩ := Prod.mk.inj heq
  obtain ⟨hbefore, hheld⟩ := Prod.mk.inj heq
  obtain ⟨fd, hfd, hconn⟩ := Option.bind_eq_some_iff.mp hheld
  obtain ⟨ls, hrun⟩ := play_reaches hs
  have hsplit : framesTo 0 s.calls = (framesTo 0 s.calls).take 2 ++
      createdFrames := by
    rw [← hsent, List.take_append_drop]
  obtain ⟨-, hagrees⟩ := hserver ls (quiet s) 0 App.init _ createdFrames hrun
    hsplit (fun f hf => of_decide_eq_true (List.all_eq_true.mp hbefore f hf)) rfl
  exact ⟨haligned, hvisit haligned, ls, s, hrun,
    hagrees createdResults (clientOf 0) createdFrames_ok ⟨by decide, by decide⟩
      haligned' ⟨fd, hfd, hconn⟩ rfl⟩

/-- The line and the confirmation of leaving in one result of `recv`: the
client believes to be in the room. -/
theorem not_follows_joined : ¬ ∀ (app : App) (frames : List Frame)
    (chunks : List Bytes), app.isInRoom = false →
    (∀ f ∈ frames, FrameOk f) → InTurn app.isInRoom frames →
    Segments frames chunks → Follows app frames chunks := by
  intro hall
  have hmode := (hall App.init visitFrames
    [text "\x1b Successfully joined room\n\r\n",
      text "\x1c eve: hi\r\n\x1d You have left the room\n\r\n"] rfl
    visitFrames_ok ⟨rfl, rfl, trivial⟩ ⟨by decide, by decide⟩).mode
  revert hmode
  decide

end ChatApp.Client
