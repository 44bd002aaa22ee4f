import ChatApp.Server.Looks
import ChatApp.Server.Texts

/-!
# What fits the buffers

Usernames, room names and contents are short, so every string made of them
fits, with one exception: the room list is a sum over all rooms, and a frame
around it needs five bytes more.  Whether it fits is read off the rooms that
`send_avail_rooms` finds in use.
-/

namespace ChatApp.Server

open ChatApp.Foundation

variable {N C : Nat}

/-! ## Lengths -/

theorem length_content_le {record : Client} {state : ClientState} {cmd : UInt8}
    (h : Accepted record state cmd) :
    (content record.currentMsg).length ≤ maxContentLen := by
  have hvalid := h.valid
  unfold refusal at hvalid
  cases hf : formatError record.currentMsg with
  | some answer => simp [hf] at hvalid
  | none =>
      unfold formatError at hf
      by_contra hlong
      split at hf
      · cases hf
      · rw [if_pos (by omega)] at hf
        cases hf

theorem length_decimal (i : Fin maxRooms) : (decimal i).length ≤ 2 := by
  revert i
  decide

theorem length_roomEntryText (i : Fin maxRooms) (roomName : Bytes) :
    (roomEntryText i roomName).length ≤ roomName.length + 10 := by
  have hroom : (text "Room ").length = 5 := rfl
  have hcolon : (text ": ").length = 2 := rfl
  have hend : (text "\n").length = 1 := rfl
  have hindex := length_decimal i
  simp only [roomEntryText, List.length_append, hroom, hcolon, hend]
  omega

/-- A string in a buffer; `current_msg` has its own bound. -/
def FitsBuffer (buffer : Buffer) (len : Nat) : Prop :=
  buffer ≠ .currentMsg → len < buffer.size

/-- Names are as long as their checks allow, and everything but the room list and
the frames fits its buffer; the frame fits of everything but a room list. -/
def lengthPolicy (N C : Nat) : TextPolicy N C EventOk where
  Name n := n.length ≤ maxUsernameLen
  RoomName n := n.length ≤ maxRoomNameLen
  Listing _ := True
  Sent cmdType msg := cmdType ≠ cmdRoomListResponse →
    msg.length + 4 < maxMessageLenFromServer
  Built buffer len := buffer ≠ .roomListMsg → buffer ≠ .messageBuffer →
    FitsBuffer buffer len
  live _ _ h := h
  noName := Nat.zero_le _
  submitted _ _ _ _ _ h := h
  requested s t c _ hr := by
    have hlen := length_content_le hr
    have hfixed : (text "Room created successfully: ").length +
        (text "\n").length + maxContentLen + 4 <
          maxMessageLenFromServer := by decide
    simp only [roomCreatedText, List.length_append, FitsBuffer, Buffer.size]
    exact ⟨fun _ _ _ => by omega, fun h => ⟨h, fun _ => by omega⟩⟩
  said s t c _ hr hname := by
    have hlen := length_content_le hr
    have hfixed : maxUsernameLen + (text ": ").length + maxContentLen + 4 <
        maxMessageLenFromServer := by decide
    simp only [chatText, List.length_append, FitsBuffer, Buffer.size]
    exact ⟨fun _ _ _ => by omega, fun _ => by omega⟩
  nameBuilt n h := by
    simp only [FitsBuffer, Buffer.size]
    exact fun _ _ _ => by omega
  roomNameBuilt n h := by
    simp only [FitsBuffer, Buffer.size]
    exact fun _ _ _ => by omega
  joined n h := by
    have hfixed : maxUsernameLen + (text " has entered the room\n").length +
        4 < maxMessageLenFromServer := by decide
    simp only [clientRoomJoinText, List.length_append, FitsBuffer,
      Buffer.size]
    exact ⟨fun _ _ _ => by omega, fun _ => by omega⟩
  left n h := by
    have hleft : maxUsernameLen + (text " left the room\n").length + 4 <
        maxMessageLenFromServer := by decide
    have hmsg : maxUsernameLen + (text " has left the room").length <
        maxMessageLenFromServer := by decide
    simp only [clientLeftText, hasLeftText, List.length_append, FitsBuffer,
      Buffer.size]
    exact ⟨fun _ _ _ => by omega, fun _ _ _ => by omega, fun _ => by omega⟩
  header := trivial
  entry s t i msg _ _ _ hname := by
    have hentry := length_roomEntryText i (s.rooms i).roomName
    have hfixed : maxRoomNameLen + 10 < 100 := by decide
    refine ⟨trivial, fun _ _ _ => ?_, fun h => absurd rfl h⟩
    simp only [Buffer.size]
    omega
  listed _ _ h := absurd rfl h
  noRooms := ⟨fun h => absurd rfl h, fun h => absurd rfl h⟩
  frame _ _ _ _ h := absurd rfl h
  currentMsg _ _ _ h := absurd rfl h
  fixed := by
    have hfixed : ∀ answer ∈ fixedAnswers,
        answer.2.length + 4 < maxMessageLenFromServer := by
      unfold fixedAnswers welcomeText capacityErrMsg connectionErrorMsg
      simp only [text_append]
      repeat rw [text_ofList]
      decide +kernel
    exact fun answer hmem _ => hfixed answer hmem

/-! ## Frames and room lists -/

/-- The command byte and the text of a frame. -/
def SysCall.frame? : SysCall → Option (UInt8 × Bytes)
  | .send _ _ cmd message => some (cmd, message)
  | _ => none

/-- The length of a string built in the buffer. -/
def Entry.builtIn (buffer : Buffer) : Entry N C → Option Nat
  | .built buffer' len => if buffer' = buffer then some len else none
  | _ => none

/-- All frames sent, in order. -/
def State.frames (s : State N C) : List (UInt8 × Bytes) :=
  s.calls.filterMap SysCall.frame?

/-- The lengths of all strings built in the buffer, in order. -/
def State.lengths (s : State N C) (buffer : Buffer) : List Nat :=
  s.journal.filterMap (Entry.builtIn buffer)

theorem mem_lengths {s : State N C} {buffer : Buffer} {len : Nat} :
    len ∈ s.lengths buffer ↔ Entry.built buffer len ∈ s.journal := by
  unfold State.lengths
  rw [List.mem_filterMap]
  constructor
  · rintro ⟨e, he, hlen⟩
    cases e
    case built buffer' len' =>
      obtain ⟨rfl, heq⟩ := Option.ite_none_right_eq_some.mp hlen
      cases heq
      exact he
    all_goals cases hlen
  · exact fun h => ⟨_, h, if_pos rfl⟩

theorem mem_frames {s : State N C} {cmd : UInt8} {message : Bytes} :
    (cmd, message) ∈ s.frames ↔
      ∃ fd conn, SysCall.send fd conn cmd message ∈ s.calls := by
  unfold State.frames
  rw [List.mem_filterMap]
  constructor
  · rintro ⟨call, hcall, hframe⟩
    cases call
    case send fd conn cmd' message' =>
      cases hframe
      exact ⟨fd, conn, hcall⟩
    all_goals cases hframe
  · rintro ⟨fd, conn, h⟩
    exact ⟨_, h, rfl⟩

/-- The room lists an action builds, by their lengths. -/
def Act.listLengths (s : State N C) : Act N C → List Nat
  | .listSection i roomListMsg =>
      if (s.rooms i).inUse then
        [(roomListMsg ++ roomEntryText i (s.rooms i).roomName).length]
      else []
  | .sprintf buffer len => if buffer = .roomListMsg then [len] else []
  | _ => []

/-- The step sends the frames, builds each in `message_buffer`, and builds room
lists of the given lengths. -/
structure Prints (s s' : State N C) (frames : List (UInt8 × Bytes))
    (lists : List Nat) : Prop where
  sent : s'.frames = s.frames ++ frames
  buffers : s'.lengths .messageBuffer = s.lengths .messageBuffer ++
    frames.map fun f => f.2.length + 4
  lists : s'.lengths .roomListMsg = s.lengths .roomListMsg ++ lists

section Prints

variable {s s' : State N C} {a : Act N C} {b : a.Answer}

theorem Prints.of_append {calls : List SysCall} {entries : List (Entry N C)}
    (hcalls : s'.calls = s.calls ++ calls)
    (hjournal : s'.journal = s.journal ++ entries)
    {frames : List (UInt8 × Bytes)} {lists : List Nat}
    (hframes : calls.filterMap SysCall.frame? = frames)
    (hbuffers : entries.filterMap (Entry.builtIn .messageBuffer) =
      frames.map fun f => f.2.length + 4)
    (hlists : entries.filterMap (Entry.builtIn .roomListMsg) = lists) :
    Prints s s' frames lists := by
  refine ⟨?_, ?_, ?_⟩
  · rw [State.frames, hcalls, List.filterMap_append, hframes]
    rfl
  · rw [State.lengths, hjournal, List.filterMap_append, hbuffers]
    rfl
  · rw [State.lengths, hjournal, List.filterMap_append, hlists]
    rfl

/-- A step that sends nothing. -/
theorem Prints.built {entries : List (Entry N C)} {lists : List Nat}
    (hcalls : s'.calls = s.calls) (hjournal : s'.journal = s.journal ++ entries)
    (hbuffers : entries.filterMap (Entry.builtIn .messageBuffer) = [])
    (hlists : entries.filterMap (Entry.builtIn .roomListMsg) = lists) :
    Prints s s' [] lists :=
  .of_append (by rw [hcalls, List.append_nil]) hjournal rfl hbuffers hlists

theorem Prints.same (hcalls : s'.calls = s.calls)
    (hjournal : s'.journal = s.journal) : Prints s s' [] [] :=
  .built hcalls (by rw [hjournal, List.append_nil]) rfl rfl

/-- A step that notes one thing. -/
theorem Prints.entry {e : Entry N C} (hcalls : s'.calls = s.calls)
    (hjournal : s'.journal = s.journal ++ [e])
    (hbuffer : e.builtIn .messageBuffer = none)
    (hlist : e.builtIn .roomListMsg = none) : Prints s s' [] [] :=
  .built hcalls hjournal (by rw [List.filterMap_cons, hbuffer]; rfl)
    (by rw [List.filterMap_cons, hlist]; rfl)

/-- A system call that sends nothing. -/
theorem Prints.call {call : SysCall} (hcalls : s'.calls = s.calls ++ [call])
    (hjournal : s'.journal = s.journal) (hframe : call.frame? = none) :
    Prints s s' [] [] :=
  .of_append hcalls (by rw [hjournal, List.append_nil])
    (by rw [List.filterMap_cons, hframe]; rfl) rfl rfl

theorem frames_broadcast (s : State N C) (msg : Bytes)
    (cs : List (ClientPtr N C)) :
    (cs.map (roomSend s msg)).filterMap SysCall.frame? =
      cs.map fun _ => (cmdRoomMsg, msg) := by
  rw [List.filterMap_map, ← List.filterMap_eq_map]
  rfl

theorem built_broadcast (buffer : Buffer) (len : Nat)
    (cs : List (ClientPtr N C)) :
    (cs.map fun _ => (Entry.built .messageBuffer len : Entry N C)).filterMap
        (Entry.builtIn buffer) =
      if Buffer.messageBuffer = buffer then cs.map fun _ => len else [] := by
  rw [List.filterMap_map]
  split
  case isTrue h =>
    rw [← List.filterMap_eq_map]
    congr 1
    funext c
    exact if_pos h
  case isFalse h =>
    exact List.filterMap_eq_nil_iff.mpr fun c _ => if_neg h

/-- What the broadcast builds. -/
theorem built_frames (msg : Bytes) (cs : List (ClientPtr N C)) :
    (cs.map fun _ => (Entry.built .messageBuffer (msg.length + 4) :
        Entry N C)).filterMap (Entry.builtIn .messageBuffer) =
      (cs.map fun _ => (cmdRoomMsg, msg)).map fun f => f.2.length + 4 := by
  rw [built_broadcast, if_pos rfl, List.map_map]
  rfl

theorem built_none (len : Nat) (cs : List (ClientPtr N C)) :
    (cs.map fun _ => (Entry.built .messageBuffer len : Entry N C)).filterMap
      (Entry.builtIn .roomListMsg) = [] :=
  (built_broadcast _ _ cs).trans (if_neg (by decide))

/-- The frames are those of the action: a room list is sent by a send of its
own. -/
def Act.SendsFrames (a : Act N C) (frames : List (UInt8 × Bytes)) : Prop :=
  (∃ fd cmd message, a = .send fd cmd message ∧ frames = [(cmd, message)]) ∨
    (∀ fd cmd message, a ≠ .send fd cmd message) ∧
      ∀ f ∈ frames, f.1 ≠ cmdRoomListResponse

theorem Act.SendsFrames.none (h : ∀ fd cmd message, a ≠ .send fd cmd message) :
    a.SendsFrames [] :=
  .inr ⟨h, fun _ hf => by cases hf⟩

theorem Act.SendsFrames.one (h : ∀ fd cmd message, a ≠ .send fd cmd message)
    {cmd : UInt8} (hcmd : cmd ≠ cmdRoomListResponse) (message : Bytes) :
    a.SendsFrames [(cmd, message)] := by
  refine .inr ⟨h, fun f hf => ?_⟩
  cases List.mem_singleton.mp hf
  exact hcmd

theorem Act.SendsFrames.broadcast
    (h : ∀ fd cmd message, a ≠ .send fd cmd message) (msg : Bytes)
    (cs : List (ClientPtr N C)) :
    a.SendsFrames (cs.map fun _ => (cmdRoomMsg, msg)) := by
  refine .inr ⟨h, fun f hf => ?_⟩
  obtain ⟨c, -, rfl⟩ := List.mem_map.mp hf
  have hmsg : cmdRoomMsg ≠ cmdRoomListResponse := by decide
  exact hmsg

/-- What an action prints. -/
theorem exec_prints (ha : ∀ len, a ≠ .sprintf .messageBuffer len)
    (he : exec a s = some (b, s')) :
    ∃ frames, Prints s s' frames (a.listLengths s) ∧ a.SendsFrames frames := by
  have hcode : ∀ r ∈ joinRefusals, r.1 ≠ cmdRoomListResponse := by decide
  have hmsg : cmdRoomMsg ≠ cmdRoomListResponse := by decide
  have hjoined : cmdRoomJoinOk ≠ cmdRoomListResponse := by decide
  cases a
  case send fd cmd message =>
    cases he
    exact ⟨_, .of_append rfl rfl rfl rfl rfl,
      .inl ⟨fd, cmd, message, rfl, rfl⟩⟩
  case createSection i c roomName successMsg =>
    have hsend : ∀ fd cmd message,
        (Act.createSection i c roomName successMsg : Act N C) ≠
          .send fd cmd message := fun _ _ _ h => by cases h
    rcases exec_createSection he with ⟨-, -, rfl⟩ | ⟨-, -, rfl⟩
    · exact ⟨[], .same rfl rfl, .none hsend⟩
    · exact ⟨[(cmdRoomCreateOk, successMsg)], .of_append rfl rfl rfl rfl rfl,
        .one hsend (by decide) _⟩
  case listSection i roomListMsg =>
    refine ⟨[], ?_, .none fun _ _ _ h => by cases h⟩
    rcases exec_listSection he with ⟨hfree, -, rfl⟩ | ⟨huse, -, rfl⟩
    · rw [Act.listLengths, hfree]
      exact .same rfl rfl
    · rw [Act.listLengths, if_pos huse]
      exact .built rfl rfl rfl rfl
  case joinSection i c joinMsg =>
    have hsend : ∀ fd cmd message,
        (Act.joinSection i c joinMsg : Act N C) ≠ .send fd cmd message :=
      fun _ _ _ h => by cases h
    rcases exec_joinSection he with ⟨r, hr, rfl⟩ | rfl | ⟨j, -, -, rfl⟩
    · exact ⟨[(r.1, r.2)], .of_append rfl rfl rfl rfl rfl,
        .one hsend (hcode r hr) _⟩
    · exact ⟨[], .same rfl rfl, .none hsend⟩
    · -- The notice to the others, then the confirmation.
      let others := ((s.rooms i).added j c).recipients c
      refine ⟨(others.map fun _ => (cmdRoomMsg, joinMsg)) ++
        [(cmdRoomJoinOk, text "Successfully joined room\n")],
        .of_append (List.append_assoc _ _ _)
          ((List.append_assoc _ _ _).trans (List.append_assoc _ _ _)) ?_ ?_ ?_,
        .inr ⟨hsend, fun f hf => ?_⟩⟩
      · rw [List.filterMap_append, frames_broadcast]
        rfl
      · rw [List.filterMap_append, List.filterMap_append, built_frames,
          List.map_append]
        rfl
      · rw [List.filterMap_append, List.filterMap_append, built_none]
        rfl
      · rcases List.mem_append.mp hf with hf | hf
        · obtain ⟨d, -, rfl⟩ := List.mem_map.mp hf
          exact hmsg
        · cases List.mem_singleton.mp hf
          exact hjoined
  case leaveSection i c =>
    rw [exec_leaveSection he]
    refine ⟨_, .of_append rfl (List.append_assoc _ _ _)
      (frames_broadcast s _ _) ?_ ?_, .broadcast (fun _ _ _ h => by cases h) _ _⟩
    · rw [List.filterMap_append, built_frames]
      rfl
    · rw [List.filterMap_append, built_none]
      rfl
  case chatSection i c msg =>
    rw [exec_chatSection he]
    refine ⟨_, .of_append rfl (List.append_assoc _ _ _)
      (frames_broadcast s _ _) ?_ ?_, .broadcast (fun _ _ _ h => by cases h) _ _⟩
    · rw [List.filterMap_append, built_frames]
      rfl
    · rw [List.filterMap_append, built_none]
      rfl
  case leaveOkSection i c =>
    cases he
    exact ⟨[(cmdRoomLeaveOk, text "You have left the room\n")],
      .of_append rfl rfl rfl rfl rfl,
      .one (fun _ _ _ h => by cases h) (by decide) _⟩
  all_goals refine ⟨[], ?_, .none fun _ _ _ h => by cases h⟩
  case sprintf buffer len =>
    cases he
    have hbuffer : buffer ≠ .messageBuffer := by
      rintro rfl
      exact ha len rfl
    refine .built rfl rfl ?_ ?_
    · simp [Entry.builtIn, hbuffer]
    · by_cases hlist : buffer = .roomListMsg <;>
        simp [Entry.builtIn, Act.listLengths, hlist]
  case routeMessage c =>
    rcases exec_routeMessage he with ⟨-, ⟨-, rfl⟩ | ⟨line, -, rfl⟩⟩
    all_goals exact .entry rfl rfl rfl rfl
  case readEventfd w ok =>
    rcases exec_readEventfd he with ⟨-, -, -, rfl⟩ | ⟨-, -, rfl⟩
    · exact .entry rfl rfl rfl rfl
    · exact .same rfl rfl
  case registerWithEpoll w fd ok =>
    rcases exec_registerWithEpoll he with ⟨-, -, rfl⟩ | ⟨-, -, rfl⟩
    · exact .call rfl rfl rfl
    · exact .same rfl rfl
  case allocateClientSlot w fd =>
    rcases exec_allocateClientSlot he with ⟨-, -, rfl⟩ | ⟨j, -, -, rfl⟩
    all_goals exact .same rfl rfl
  case accept fd =>
    rw [(exec_accept he).2.2]
    exact .same rfl rfl
  case setSocketKeepAlive fd ok =>
    rcases exec_setSocketKeepAlive he with ⟨-, -, rfl⟩ | ⟨-, -, rfl⟩
    all_goals exact .same rfl rfl
  case inspectWorker fd =>
    rcases exec_inspectWorker he with ⟨-, -, rfl⟩ | ⟨-, -, rfl⟩
    · exact .same rfl rfl
    · exact .entry rfl rfl rfl rfl
  case semWait w fd =>
    rw [(exec_semWait he).2]
    exact .same rfl rfl
  case writeEventfd w fd ok =>
    rcases exec_writeEventfd he with ⟨-, -, rfl⟩ | ⟨-, -, rfl⟩
    · exact .same rfl rfl
    · exact .entry rfl rfl rfl rfl
  all_goals
    cases he
    first
      | exact .same rfl rfl
      | exact .entry rfl rfl rfl rfl
      | exact .call rfl rfl rfl

end Prints

/-! ## Lists that fit -/

/-- The line of a room found in use. -/
def Note.line : Note → Bytes
  | .room i (some roomName) => roomEntryText i roomName
  | _ => []

/-- The room list as the last `n` notes make it. -/
def listOf (n : Nat) (notes : List Note) : Bytes :=
  roomListHeader ++ (notes.drop (notes.length - n)).flatMap Note.line

/-- A room in use leaves `room_list_msg` long enough for its line, and a list
that is sent leaves `message_buffer` long enough for the frame. -/
def Note.Fits (notes : List Note) : Note → Prop
  | .room i (some roomName) =>
      (listOf i notes ++ roomEntryText i roomName).length <
        Buffer.roomListMsg.size
  | .room _ none => True
  | .list .. => (listOf maxRooms notes).length + 4 < Buffer.messageBuffer.size

/-- At every scan of `send_avail_rooms` the rooms that it finds in use are so
few, or their names so short, that the list and its frame fit. -/
def ListsFit (es : List (Thread N × Note)) : Prop :=
  ∀ before t e after, es = before ++ (t, e) :: after →
    e.Fits (notesOf t before)

theorem ListsFit.nil : ListsFit (N := N) [] := by
  intro before t e after h
  cases before <;> cases h

theorem listsFit_snoc {es : List (Thread N × Note)} {t : Thread N} {e : Note} :
    ListsFit (es ++ [(t, e)]) ↔ ListsFit es ∧ e.Fits (notesOf t es) := by
  constructor
  · intro h
    refine ⟨fun before u e' after hes => ?_, h es t e [] rfl⟩
    refine h before u e' (after ++ [(t, e)]) ?_
    rw [hes, List.append_assoc]
    rfl
  · rintro ⟨h, he⟩ before u e' after hes
    rcases List.eq_nil_or_concat after with rfl | ⟨after, last, rfl⟩
    · obtain ⟨rfl, heq⟩ := List.append_inj' hes rfl
      cases heq
      exact he
    · rw [List.concat_eq_append, ← List.cons_append, ← List.append_assoc] at hes
      exact h before u e' after (List.append_inj' hes rfl).1

theorem lines_of_rooms (seen : Fin maxRooms → Option Bytes)
    (rooms : List (Fin maxRooms)) :
    (rooms.map fun i => Note.room i (seen i)).flatMap Note.line =
      roomLines (tableOf seen rooms) := by
  induction rooms with
  | nil => rfl
  | cons i rest ih =>
      unfold tableOf roomLines at ih ⊢
      cases hseen : seen i with
      | none => simpa [hseen, Note.line] using ih
      | some roomName => simpa [hseen, Note.line] using ih

/-- The list is the one the notes make. -/
theorem Saw.listOf {seen : Fin maxRooms → Option Bytes}
    {rooms : List (Fin maxRooms)} {notes : List Note}
    (h : Saw seen rooms notes) :
    listOf rooms.length notes =
      roomListHeader ++ roomLines (tableOf seen rooms) := by
  obtain ⟨earlier, rfl⟩ := h
  unfold Server.listOf
  rw [List.length_append, List.length_map, Nat.add_sub_cancel, List.drop_left,
    lines_of_rooms]

theorem length_roomsBefore (i : Fin maxRooms) : (roomsBefore i).length = i := by
  unfold roomsBefore
  rw [List.length_take, List.length_finRange]
  exact Nat.min_eq_left (Nat.le_of_lt i.isLt)

/-- Every room list built and every room list's frame fits. -/
def ListBuffersFit (s : State N C) : Prop :=
  (∀ len ∈ s.lengths .roomListMsg, len < Buffer.roomListMsg.size) ∧
    ∀ f ∈ s.frames, f.1 = cmdRoomListResponse →
      f.2.length + 4 < Buffer.messageBuffer.size

section Fits

variable {s s' : State N C} {a : Act N C} {b : a.Answer}
  {frames : List (UInt8 × Bytes)} {lists : List Nat}

theorem Prints.listBuffersFit (h : Prints s s' frames lists) :
    ListBuffersFit s' ↔ ListBuffersFit s ∧
      (∀ len ∈ lists, len < Buffer.roomListMsg.size) ∧
      ∀ f ∈ frames, f.1 = cmdRoomListResponse →
        f.2.length + 4 < Buffer.messageBuffer.size := by
  unfold ListBuffersFit
  rw [h.lists, h.sent, List.forall_mem_append, List.forall_mem_append]
  constructor
  · rintro ⟨⟨h₁, h₂⟩, h₃, h₄⟩
    exact ⟨⟨h₁, h₃⟩, h₂, h₄⟩
  · rintro ⟨⟨h₁, h₃⟩, h₂, h₄⟩
    exact ⟨⟨h₁, h₂⟩, h₃, h₄⟩

/-- The list without rooms fits. -/
theorem noRooms_fits :
    (roomListHeader ++ noRoomsText).length + 4 < maxMessageLenFromServer := by
  decide +kernel

theorem roomListText_fits {table : List (Fin maxRooms × Bytes)} :
    (roomListText table).length + 4 < maxMessageLenFromServer ↔
      (roomListHeader ++ roomLines table).length + 4 <
        maxMessageLenFromServer := by
  unfold roomListText
  by_cases hnil : table = []
  · subst hnil
    have hheader : (roomListHeader ++ roomLines []).length + 4 <
        maxMessageLenFromServer := by decide +kernel
    rw [if_pos rfl]
    exact iff_of_true noRooms_fits hheader
  · rw [if_neg hnil, List.append_nil]

/-- What an action adds to the room lists is what it notes. -/
theorem exec_listBuffersFit {t : Thread N} {es : List (Thread N × Note)}
    (ha : a.Lists (notesOf t es)) (he : exec a s = some (b, s'))
    (h : ListBuffersFit s ↔ ListsFit es) :
    ListBuffersFit s' ↔
      ListsFit (es ++ (a.scan s).toList.map (Prod.mk t)) := by
  obtain ⟨frames, hprints, hsends⟩ := exec_prints (by
    rintro len rfl
    exact ha.1 rfl) he
  rw [hprints.listBuffersFit, h]
  have hquiet : (∀ fd cmd message, a ≠ .send fd cmd message) →
      ((∀ f ∈ frames, f.1 = cmdRoomListResponse →
        f.2.length + 4 < Buffer.messageBuffer.size) ↔ True) := by
    intro hsend
    rcases hsends with ⟨fd, cmd, message, rfl, -⟩ | ⟨-, hframes⟩
    · exact absurd rfl (hsend fd cmd message)
    · exact iff_of_true (fun f hf hlist => absurd hlist (hframes f hf)) trivial
  cases a
  case listSection i roomListMsg =>
    obtain ⟨seen, hsaw, rfl⟩ := ha
    rw [hquiet fun _ _ _ heq => by cases heq]
    have hlist := hsaw.listOf
    rw [length_roomsBefore] at hlist
    have hnote : (Act.listSection i (roomListHeader ++
        roomLines (tableOf seen (roomsBefore i))) : Act N C).scan s =
          some (.room i (s.rooms i).name?) := rfl
    rw [hnote, Option.toList_some, List.map_singleton, listsFit_snoc, ← hlist]
    cases huse : (s.rooms i).inUse with
    | false =>
        have hname : (s.rooms i).name? = none := by simp [Room.name?, huse]
        simp [Act.listLengths, huse, hname, Note.Fits]
    | true =>
        have hname : (s.rooms i).name? = some (s.rooms i).roomName := by
          simp [Room.name?, huse]
        simp [Act.listLengths, huse, hname, Note.Fits]
  case send fd cmd message =>
    rcases hsends with ⟨fd', cmd', message', heq, rfl⟩ | ⟨hsend, -⟩
    case inr => exact absurd rfl (hsend fd cmd message)
    cases heq
    have hlists : (Act.send fd cmd message : Act N C).listLengths s = [] := rfl
    rw [hlists]
    by_cases hcmd : cmd = cmdRoomListResponse
    · subst hcmd
      obtain ⟨seen, hsaw, rfl⟩ := ha rfl
      have hlist := hsaw.listOf
      rw [List.length_finRange] at hlist
      have hnote : (Act.send fd cmdRoomListResponse (roomListText
          (tableOf seen (List.finRange maxRooms))) : Act N C).scan s =
            some (.list fd (roomListText
              (tableOf seen (List.finRange maxRooms)))) := by simp [Act.scan]
      rw [hnote, Option.toList_some, List.map_singleton, listsFit_snoc]
      simpa [Note.Fits, hlist, Buffer.size] using fun _ =>
        @roomListText_fits (tableOf seen (List.finRange maxRooms))
    · have hnote : (Act.send fd cmd message : Act N C).scan s = none :=
        if_neg hcmd
      rw [hnote]
      simp [hcmd]
  case sprintf buffer len =>
    rw [hquiet fun _ _ _ heq => by cases heq]
    have hlen : ∀ len' ∈ (Act.sprintf buffer len : Act N C).listLengths s,
        len' < Buffer.roomListMsg.size := by
      intro len' hmem
      obtain ⟨hbuffer, hmem⟩ := List.mem_ite_nil_right.mp hmem
      cases List.mem_singleton.mp hmem
      rw [ha.2 hbuffer]
      have hfits := noRooms_fits
      simp only [Buffer.size]
      omega
    have hnote : (Act.sprintf buffer len : Act N C).scan s = none := rfl
    rw [hnote]
    simpa using fun _ => hlen
  all_goals
    rw [hquiet fun _ _ _ heq => by cases heq]
    simp [Act.listLengths, Act.scan]

end Fits

/-! ## Over whole runs -/

section Runs

variable [NeZero N] {es : List (Thread N × Note)} {k : Configuration N C}

theorem listBuffersFit_run {ok : State N C → Step N C → Prop}
    (hrun : (server N C).Logged ok (noteLog Act.scan) (Configuration.init N C) es
      k) : ListBuffersFit k.shared ↔ ListsFit es := by
  refine System.Logged.keeps (I := fun s es => ListBuffersFit s ↔ ListsFit es)
    (fun t j _ notes _ => follows_job noting_scan t j notes) (fun _ => rfl) ?_
    ?_ hrun
  · refine iff_of_true ⟨?_, ?_⟩ .nil
    · exact fun _ h => (List.not_mem_nil h).elim
    · exact fun _ h => (List.not_mem_nil h).elim
  · intro t a s answer s' es ha _ he h
    exact exec_listBuffersFit ha he h

/-- Every frame is built in `message_buffer`, and nothing else is. -/
theorem frames_run {ok : State N C → Step N C → Prop}
    (hrun : (server N C).Logged ok (noteLog Act.scan) (Configuration.init N C) es
      k) :
    k.shared.lengths .messageBuffer =
      k.shared.frames.map fun f => f.2.length + 4 := by
  refine System.Logged.keeps
    (I := fun s _ => s.lengths .messageBuffer =
      s.frames.map fun f => f.2.length + 4)
    (fun t j _ notes _ => follows_job noting_scan t j notes) (fun _ => rfl) rfl
    ?_ hrun
  intro t a s answer s' es ha _ he h
  obtain ⟨frames, hprints, -⟩ := exec_prints (by
    rintro len rfl
    exact ha.1 rfl) he
  rw [hprints.buffers, hprints.sent, h, List.map_append]

/-- **Buffers over whole runs**: everything that is built fits its buffer if and
only if the rooms that `send_avail_rooms` finds in use leave room for their lists
and the frames around them; and everything but the lists and these frames always
fits. -/
theorem buffers_fit_iff
    (hrun : (server N C).Logged EventOk (noteLog Act.scan)
      (Configuration.init N C) es k) :
    ((∀ buffer len, Entry.built buffer len ∈ k.shared.journal →
        FitsBuffer buffer len) ↔ ListsFit es) ∧
    (∀ buffer len, Entry.built buffer len ∈ k.shared.journal →
      buffer ≠ .roomListMsg → buffer ≠ .messageBuffer →
        FitsBuffer buffer len) ∧
    (∀ fd conn cmdType message,
      SysCall.send fd conn cmdType message ∈ k.shared.calls →
        cmdType ≠ cmdRoomListResponse →
          message.length + 4 < Buffer.messageBuffer.size) ∧
    k.shared.lengths .messageBuffer =
      k.shared.frames.map fun f => f.2.length + 4 := by
  obtain ⟨ls, hls⟩ := hrun.run
  have htexts := texts_run (p := lengthPolicy N C) hls
  have hframes := frames_run hrun
  refine ⟨?_, htexts.built, fun fd conn cmd msg hmem hcmd =>
    htexts.sent fd conn cmd msg hmem hcmd, hframes⟩
  rw [← listBuffersFit_run hrun]
  constructor
  · intro hall
    refine ⟨fun len hlen => ?_, fun f hf _ => ?_⟩
    · exact hall _ len (mem_lengths.mp hlen) (by decide)
    · refine hall .messageBuffer _ (mem_lengths.mp ?_) (by decide)
      rw [hframes]
      exact List.mem_map.mpr ⟨f, hf, rfl⟩
  · rintro ⟨hlists, hsent⟩ buffer len hmem
    by_cases hlist : buffer = .roomListMsg
    · subst hlist
      exact fun _ => hlists len (mem_lengths.mpr hmem)
    by_cases hbuffer : buffer = .messageBuffer
    · subst hbuffer
      have hlen := mem_lengths.mpr hmem
      rw [hframes] at hlen
      obtain ⟨⟨cmd, msg⟩, hf, rfl⟩ := List.mem_map.mp hlen
      intro _
      by_cases hcmd : cmd = cmdRoomListResponse
      · exact hsent _ hf hcmd
      · obtain ⟨fd, conn, hcall⟩ := mem_frames.mp hf
        exact htexts.sent fd conn cmd msg hcall hcmd
    · exact htexts.built buffer len hmem hlist hbuffer

end Runs

/-- Whether a string that the journal mentions fits its buffer. -/
def Entry.fits : Entry N C → Bool
  | .built buffer len => buffer = .currentMsg || len < buffer.size
  | _ => true

theorem Entry.fitsBuffer {e : Entry N C} {buffer : Buffer} {len : Nat}
    (h : e.fits = true) (he : e = .built buffer len) :
    FitsBuffer buffer len := by
  subst he
  rcases Bool.or_eq_true_iff.mp h with heq | hlt
  · exact fun hne => absurd (of_decide_eq_true heq) hne
  · exact fun _ => of_decide_eq_true hlt

/-- Two rooms with names of three and four bytes, listed to a third client. -/
theorem buffers_fit_room : ∃ (es : List (Thread maxThreads × Note))
    (s : RealState),
    (server maxThreads maxClientsPerThread).Logged EventOk (noteLog Act.scan)
        (Configuration.init maxThreads maxClientsPerThread) es (quiet s) ∧
      Entry.built .roomListMsg 55 ∈ s.journal ∧
      Entry.built .messageBuffer 59 ∈ s.journal ∧
      ListsFit es ∧
      (∀ fd conn cmdType message,
        SysCall.send fd conn cmdType message ∈ s.calls →
          cmdType ≠ cmdRoomListResponse →
            message.length + 4 < Buffer.messageBuffer.size) := by
  have hplay : (play (State.init maxThreads maxClientsPerThread)
      (opensRoom 0 (text "bob") (text "den") ++
        opensRoom 1 (text "dan") (text "room") ++ connects 2 ++
        [sends 2 (frame cmdUsernameSubmit (text "eve"))])).map
        (fun s => decide (Entry.built .roomListMsg 55 ∈ s.journal) &&
          decide (Entry.built .messageBuffer 59 ∈ s.journal) &&
          s.journal.all Entry.fits) = some true := by decide +kernel
  obtain ⟨s, hs, hdecide⟩ := Option.map_eq_some_iff.mp hplay
  simp only [Bool.and_eq_true, decide_eq_true_eq, List.all_eq_true] at hdecide
  obtain ⟨⟨hlist, hframe⟩, hall⟩ := hdecide
  obtain ⟨ls, hrun⟩ := play_live hs
  have hevents : (server maxThreads maxClientsPerThread).Run EventOk
      (Configuration.init maxThreads maxClientsPerThread) ls (quiet s) :=
    hrun.mono fun _ _ hok => hok.1
  obtain ⟨es, hlogged⟩ := hevents.logged (noteLog Act.scan)
  obtain ⟨hfits, -, hsent, -⟩ := buffers_fit_iff hlogged
  refine ⟨es, s, hlogged, hlist, hframe, hfits.mp ?_, hsent⟩
  intro buffer len hmem
  exact Entry.fitsBuffer (hall _ hmem) rfl

end ChatApp.Server
