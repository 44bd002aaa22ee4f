import ChatApp.Server.Release

/-!
# What `errno` was left at

`read_and_process_client_message` looks at `errno` whenever `recv` returned at most
zero, also when it returned zero and did not set it.  `errno` is the thread's and
holds what the last failing call left, whichever client that call was for.
`independent_iff` says when this makes no difference, and where a client must sit
for its close to take it out of every room.
-/

namespace ChatApp.Server

open ChatApp.Foundation

variable {N C : Nat} {c : ClientPtr N C}

/-! ## The calls of a thread -/

abbrev Errno := Nat

/-- `EAGAIN`. -/
def eagain : Errno := 11

/-- `EWOULDBLOCK`, the same number on Linux. -/
def ewouldblock : Errno := 11

/-- How a system call ends. -/
inductive Outcome where
  | succeeded
  | failed (errno : Errno)

/-- A failing call sets `errno`, a successful one leaves it alone. -/
def Outcome.errno (errno : Errno) : Outcome → Errno
  | .succeeded => errno
  | .failed errno' => errno'

/-- A call of `recv` or `send` that the thread made on behalf of a client. -/
structure IoCall (N C : Nat) where
  client : ClientPtr N C
  outcome : Outcome

/-- The calls on behalf of clients other than `c`, oldest first. -/
structure History (c : ClientPtr N C) where
  calls : List (IoCall N C)
  others : ∀ call ∈ calls, call.client ≠ c

/-- The value of `errno` after the calls. -/
def History.errno (history : History c) (errno : Errno) : Errno :=
  history.calls.foldl (fun errno call => call.outcome.errno errno) errno

/-- What `recv` returns: bytes, zero, or `-1` with `errno` set. -/
inductive RecvReturn where
  | bytes (bytes : Bytes)
  | closed
  | failed (errno : Errno)

/-- `errno == EAGAIN || errno == EWOULDBLOCK`. -/
def isWouldBlock (errno : Errno) : Bool :=
  errno = eagain || errno = ewouldblock

/-- The result as `read_and_process_client_message` sees it, `errno` being the
thread's before the call. -/
def recvResult (errno : Errno) : RecvReturn → RecvResult
  | .bytes bytes => .data bytes
  | .closed => .nothing (isWouldBlock errno)
  | .failed errno' => .nothing (isWouldBlock errno')

/-! ## Seats in rooms -/

/-- The client has no seat in a room but one, to which its record points. -/
def Seated (s : State N C) (c : ClientPtr N C) : Prop :=
  ∀ i j, (s.rooms i).clients j = some c →
    (s.clients c).state = .inChatRoom ∧ (s.clients c).roomIndex = i ∧
      ∀ k, (s.rooms i).clients k = some c → k = j

section Seats

variable {room : Room N C} {d : ClientPtr N C} {i : Fin maxRooms}
  {j k : Fin maxClientsRoom} {s s' : State N C}

theorem seat_of_left (h : (room.remove d).cleanUp.clients j = some c) :
    room.clients j = some c := by
  unfold Room.cleanUp at h
  split at h
  · cases h
  cases hd : room.slotOf? d with
  | none => rwa [Room.remove_of_no_slot hd] at h
  | some k =>
      rw [Room.remove_of_slot hd] at h
      simp only [Function.update_apply] at h
      split at h
      · cases h
      · exact h

/-- Who leaves gives up the first of its seats. -/
theorem not_seat_left (hfirst : ∀ k, room.clients k = some c → k = j) :
    (room.remove c).cleanUp.clients j ≠ some c := by
  intro h
  unfold Room.cleanUp at h
  split at h
  · cases h
  cases hc : room.slotOf? c with
  | none =>
      rw [Room.remove_of_no_slot hc] at h
      exact Room.slotOf?_none hc j h
  | some k =>
      rw [Room.remove_of_slot hc] at h
      cases hfirst k (Room.slotOf?_some hc)
      simp only [Function.update_self] at h
      cases h

/-- A second seat is not given up. -/
theorem second_seat (hcounted : room.Counted) (hj : room.clients j = some c)
    (hk : room.clients k = some c) (hne : k ≠ j) :
    ∃ l, (room.remove c).cleanUp.clients l = some c := by
  cases hc : room.slotOf? c with
  | none => exact absurd hj (Room.slotOf?_none hc j)
  | some first =>
      have hother : ∃ l, l ≠ first ∧ room.clients l = some c := by
        by_cases hfirst : j = first
        · exact ⟨k, by rwa [← hfirst], hk⟩
        · exact ⟨j, hfirst, hj⟩
      obtain ⟨l, hl, hseat⟩ := hother
      have hstays : Function.update room.clients first none l = some c := by
        rw [Function.update_of_ne hl]
        exact hseat
      refine ⟨l, ?_⟩
      unfold Room.cleanUp
      rw [Room.remove_of_slot hc]
      split
      · rename_i hzero
        -- the room is not empty, so it is not cleaned up
        have hcount := hcounted.occupancy_remove (Room.slotOf?_some hc)
        have hempty : tally Option.isSome
            (Function.update room.clients first none) = 0 := by
          have hnumber : room.numClients - 1 = 0 := hzero
          omega
        have hnone := (tally_eq_zero_iff _ _).mp hempty l
        rw [hstays] at hnone
        cases hnone
      · exact hstays

/-- Only a step of its own worker gives a client a seat. -/
theorem exec_seat {a : Act N C} {b : a.Answer} (he : exec a s = some (b, s'))
    (ha : a.isRoom = true → a.worker? ≠ some c.worker)
    (hseat : (s'.rooms i).clients j = some c) :
    (s.rooms i).clients j = some c := by
  by_cases hroom : a.isRoom = true
  · have hworker := ha hroom
    have hupdate : ∀ (l : Fin maxRooms) (room : Room N C),
        (room.clients j = some c → (s.rooms l).clients j = some c) →
        (Function.update s.rooms l room i).clients j = some c →
        (s.rooms i).clients j = some c := by
      intro l room hsame hseat
      by_cases hi : i = l
      · subst hi
        rw [Function.update_self] at hseat
        exact hsame hseat
      · rwa [Function.update_of_ne hi] at hseat
    have hset : ∀ (d : ClientPtr N C) (l : Fin maxRooms)
        (k : Fin maxClientsRoom), d.worker ≠ c.worker →
        Function.update (s.rooms l).clients k (some d) j = some c →
        (s.rooms l).clients j = some c := by
      intro d l k hd h
      rw [Function.update_apply] at h
      split at h
      · cases h
        exact absurd rfl hd
      · exact h
    cases a <;> simp only [Act.isRoom, Bool.false_eq_true] at hroom
    case createSection l d roomName successMsg =>
      have hd : d.worker ≠ c.worker := fun h => hworker (congrArg some h)
      rcases exec_createSection he with ⟨-, -, rfl⟩ | ⟨-, -, rfl⟩
      · exact hseat
      · exact hupdate l _ (hset d l _ hd) hseat
    case joinSection l d joinMsg =>
      have hd : d.worker ≠ c.worker := fun h => hworker (congrArg some h)
      rcases exec_joinSection he with ⟨r, -, rfl⟩ | rfl | ⟨k, -, -, rfl⟩
      · exact hseat
      · exact hseat
      · exact hupdate l _ (hset d l k hd) hseat
    case leaveSection l d =>
      rw [exec_leaveSection he] at hseat
      exact hupdate l _ seat_of_left hseat
  · rwa [exec_rooms (by simpa using hroom) he] at hseat

/-- The other threads give the client no seat. -/
theorem Neighbours.seat (h : Neighbours c.worker s s')
    (hseat : (s'.rooms i).clients j = some c) :
    (s.rooms i).clients j = some c := by
  induction h with
  | refl => exact hseat
  | tail hsteps hstep ih =>
      obtain ⟨t, a, b, ht, ha, he⟩ := hstep
      exact ih (exec_seat he (fun _ hw => ht (ha.1 _ hw)) hseat)

theorem Neighbours.seated (h : Neighbours c.worker s s') (hs : Seated s c) :
    Seated s' c := by
  intro i j hj
  rw [h.clients]
  obtain ⟨hstate, hindex, honly⟩ := hs i j (h.seat hj)
  exact ⟨hstate, hindex, fun k hk => honly k (h.seat hk)⟩

end Seats

/-! ## Two histories -/

/-- The record of client `c` can be `record` after the result is handled. -/
def EndsWith (c : ClientPtr N C) (s : State N C) (result : RecvResult)
    (record : Client) : Prop :=
  ∃ steps s', Prog.Exec exec (Neighbours c.worker)
    (readAndProcessClientMessage c result) s steps () s' ∧
      s'.clients c = record

/-- An orderly close releases the slot and leaves the room. -/
def CloseReleases (c : ClientPtr N C) (s : State N C) (result : RecvResult) :
    Prop :=
  ∀ steps s', Prog.Exec exec (Neighbours c.worker)
    (readAndProcessClientMessage c result) s steps () s' → Released s' c

/-- The same result of `recv` is handled in the same way after both histories; a
close always releases the client. -/
structure Independent (s : State N C) (errno : Errno) (returned : RecvReturn)
    (history history' : History c) : Prop where
  same : ∀ record,
    EndsWith c s (recvResult (history.errno errno) returned) record ↔
      EndsWith c s (recvResult (history'.errno errno) returned) record
  releases : returned = .closed → ∀ h ∈ [history, history'],
    CloseReleases c s (recvResult (h.errno errno) .closed)

/-- A result taken for `EAGAIN` does nothing. -/
theorem wouldBlock_keeps {s : State N C} (hlive : (s.clients c).inUse = true) :
    ¬ CloseReleases c s (.nothing true) := by
  intro h
  have hreleased := h [] s (.ret (Neighbours.refl c.worker s))
  rw [hreleased.1] at hlive
  cases hlive

section Disconnection

variable {s s' : State N C} {steps : Steps N C}

/-- `cleanup_client` touches no room. -/
theorem cleanup_rooms {R : State N C → State N C → Prop}
    {I : (Fin maxRooms → Room N C) → Prop}
    (hR : ∀ {s s'}, R s s' → I s.rooms → I s'.rooms)
    (h : Prog.Exec exec R (cleanupClient c) s steps () s') (hs : I s.rooms) :
    I s'.rooms := by
  have hall : Prog.All (fun a : Act N C => a.isRoom = false)
      (cleanupClient c) :=
    ⟨rfl, fun _ => ⟨rfl, fun _ => ⟨rfl, fun _ => all_one rfl⟩⟩⟩
  refine (h.keeps (I := fun s => I s.rooms) hR ?_ hs).2
  intro e he hbefore
  obtain ⟨b, hb⟩ := h.mem_exec e he
  rwa [exec_rooms (h.mem_of_all hall e he) hb]

/-- A disconnection releases a client that is nowhere but where its record
says. -/
theorem disconnection_releases (hseated : Seated s c) :
    CloseReleases c s (.nothing false) := by
  intro steps s' hexec
  change Prog.Exec exec (Neighbours c.worker) (handleClientDisconnection c) s
    steps () s' at hexec
  rw [handleClientDisconnection_eq] at hexec
  obtain ⟨t₁, self, t₂, later, -, hR, he, h⟩ := Prog.Exec.act_inv hexec
  obtain ⟨hself, rfl⟩ : self = t₁.clients c ∧ t₂ = t₁ := by
    cases he
    exact ⟨rfl, rfl⟩
  have hseated₁ := hR.seated hseated
  have hclean : ∀ {s : State N C} {steps : Steps N C},
      (∀ i j, (s.rooms i).clients j ≠ some c) →
      Prog.Exec exec (Neighbours c.worker) (cleanupClient c) s steps () s' →
      Released s' c := by
    intro s steps hout hcleanup
    obtain ⟨-, -, -, -, -, -, -, -, -, hzero⟩ :=
      exec_cleanupClient Neighbours.clients hcleanup
    have hstays := cleanup_rooms
      (I := fun rooms => ∀ i j, (rooms i).clients j ≠ some c)
      (fun hR hout i j hseat => hout i j (hR.seat hseat)) hcleanup hout
    refine ⟨?_, ?_, fun i hhas => ?_⟩
    · rw [hzero]
      rfl
    · rw [hzero]
      rfl
    · obtain ⟨j, hj⟩ := hhas
      exact hstays i j hj
  split at h
  · rename_i hstate
    obtain ⟨left, rest, ⟨⟩, t₃, -, hleave, hcleanup⟩ :=
      Prog.Exec.bind_inv (Neighbours.refl c.worker) h
    obtain ⟨t₄, _, t₅, _, -, hR₄, he₄, hret⟩ := Prog.Exec.act_inv hleave
    obtain ⟨-, -, hR₅⟩ := Prog.Exec.ret_inv hret
    have hseated₄ := hR₄.seated hseated₁
    refine hclean (fun i j hseat => ?_) hcleanup
    have hseat₅ := hR₅.seat hseat
    rw [exec_leaveSection he₄] at hseat₅
    simp only [State.afterLeave] at hseat₅
    by_cases hi : i = self.roomIndex
    · subst hi
      rw [Function.update_self] at hseat₅
      have hold := hseated₄ _ j (seat_of_left hseat₅)
      exact not_seat_left hold.2.2 hseat₅
    · rw [Function.update_of_ne hi] at hseat₅
      have hindex := (hseated₄ i j hseat₅).2.1
      rw [hR₄.clients, ← hself] at hindex
      exact hi hindex.symm
  · rename_i hstate
    refine hclean (fun i j hseat => hstate ?_) h
    rw [hself]
    exact (hseated₁ i j hseat).1

/-- Elsewhere its seat is kept. -/
theorem seated_of_releases (hcounted : ∀ i, (s.rooms i).Counted)
    (h : CloseReleases c s (.nothing false)) : Seated s c := by
  obtain ⟨steps, ⟨⟩, s', hexec⟩ := exists_exec (R := Eq) (fun _ => rfl)
    ((all_handleClientDisconnection c).imp fun _ => Act.ofHandler.not_blocks) s
  have hout := (h steps s' (hexec.mono fun s s' hs => by
    rw [hs]
    exact Neighbours.refl _ _)).2.2
  rw [handleClientDisconnection_eq] at hexec
  obtain ⟨t₁, self, t₂, later, -, hst, he, hrest⟩ := Prog.Exec.act_inv hexec
  subst hst
  obtain ⟨rfl, rfl⟩ : self = s.clients c ∧ s = t₂ := by
    cases he
    exact ⟨rfl, rfl⟩
  have hkept : ∀ {t : State N C} {steps : Steps N C} {i j},
      Prog.Exec exec Eq (cleanupClient c) t steps () s' →
      (t.rooms i).clients j ≠ some c := by
    intro t steps i j hcleanup hseat
    have hrooms := cleanup_rooms (I := fun rooms => rooms = t.rooms)
      (fun hs hrooms => by rw [← hs, hrooms]) hcleanup rfl
    exact hout i ⟨j, by rw [hrooms]; exact hseat⟩
  intro i j hseat
  split at hrest
  · rename_i hstate
    obtain ⟨left, rest, ⟨⟩, t₃, -, hleave, hcleanup⟩ :=
      Prog.Exec.bind_inv (fun _ => rfl) hrest
    obtain ⟨t₄, _, t₅, _, -, hst₄, he₄, hret⟩ := Prog.Exec.act_inv hleave
    obtain ⟨-, -, hst₅⟩ := Prog.Exec.ret_inv hret
    subst hst₄
    rw [← hst₅, exec_leaveSection he₄] at hcleanup
    by_cases hi : i = (s.clients c).roomIndex
    · refine ⟨hstate, hi.symm, fun k hk => ?_⟩
      by_contra hne
      obtain ⟨l, hl⟩ := second_seat (hcounted i) hseat hk hne
      refine hkept (i := i) (j := l) hcleanup ?_
      show (Function.update s.rooms _ _ i).clients l = some c
      rw [← hi, Function.update_self]
      exact hl
    · refine absurd ?_ (hkept (i := i) (j := j) hcleanup)
      show (Function.update s.rooms _ _ i).clients j = some c
      rw [Function.update_of_ne hi]
      exact hseat
  · exact absurd hseat (hkept hrest)

end Disconnection

section Reachable

variable [NeZero N]

/-- **Independence of other clients.**  In every reachable state and for every two
histories: the result of `recv` is handled alike, and a close releases the client,
if and only if `recv` did not return zero, or neither history has left `EAGAIN` or
`EWOULDBLOCK` in `errno` and the client sits where its record says.  It does
unless a complete message has followed a `CMD_EXIT` in a chunk. -/
theorem independent_iff (errno : Errno) (returned : RecvReturn)
    (history history' : History c) :
    (∀ (ls : List (Step N C)) (k : Configuration N C),
      (server N C).Run EventOk (Configuration.init N C) ls k →
      (k.shared.clients c).inUse = true →
      (Independent k.shared errno returned history history' ↔
        (returned = .closed → isWouldBlock (history.errno errno) = false ∧
          isWouldBlock (history'.errno errno) = false ∧ Seated k.shared c))) ∧
    ∀ (ls : List (Step N C)) (k : Configuration N C),
      (server N C).Run LiveOk (Configuration.init N C) ls k →
      Seated k.shared c := by
  constructor
  · intro ls k hrun hlive
    constructor
    · rintro h rfl
      have hnone : ∀ h' ∈ [history, history'],
          isWouldBlock (h'.errno errno) = false := by
        intro h' hmem
        rw [← Bool.not_eq_true]
        intro hblock
        have hreleases := h.releases rfl h' hmem
        rw [recvResult, hblock] at hreleases
        exact wouldBlock_keeps hlive hreleases
      have hfirst := hnone history (by simp)
      refine ⟨hfirst, hnone history' (by simp), ?_⟩
      have hreleases := h.releases rfl history (by simp)
      rw [recvResult, hfirst] at hreleases
      exact seated_of_releases (counted_run hrun) hreleases
    · intro hclear
      cases returned with
      | bytes bytes => exact ⟨fun _ => Iff.rfl, nofun⟩
      | failed errno' => exact ⟨fun _ => Iff.rfl, nofun⟩
      | closed =>
          obtain ⟨hfirst, hsecond, hseated⟩ := hclear rfl
          constructor
          · intro record
            rw [recvResult, recvResult, hfirst, hsecond]
          · intro _ h hmem
            have hnone : isWouldBlock (h.errno errno) = false := by
              rcases List.mem_cons.mp hmem with rfl | hmem
              · exact hfirst
              · cases List.mem_singleton.mp hmem
                exact hsecond
            rw [recvResult, hnone]
            exact disconnection_releases hseated
  · intro ls k hrun i j hj
    have hconsistent := (roomInv_run hrun).consistent
    obtain ⟨-, hstate, hindex⟩ := hconsistent.member i j c hj
    exact ⟨hstate, hindex, fun k hk => (hconsistent.once i k i j c hk hj).2⟩

end Reachable

/-- The first client closes while it is in its room.  In one of the histories the
socket of another client was full, and then broken. -/
theorem independent_closes : ∃ s : RealState,
    play (State.init _ _) (opensRoom 0 (text "bob") (text "den")) = some s ∧
      (s.clients (clientOf 0)).state = .inChatRoom ∧
      Independent (c := clientOf 0) s 0 .closed ⟨[], nofun⟩
        ⟨[⟨clientOf 4, .failed eagain⟩, ⟨clientOf 4, .failed 32⟩],
          by decide⟩ := by
  have hplay : (play (State.init maxThreads maxClientsPerThread)
      (opensRoom 0 (text "bob") (text "den"))).map (fun s =>
        ((s.clients (clientOf 0)).inUse, (s.clients (clientOf 0)).state)) =
        some (true, .inChatRoom) := by decide +kernel
  obtain ⟨s, hs, heq⟩ := Option.map_eq_some_iff.mp hplay
  obtain ⟨hlive, hstate⟩ := Prod.mk.inj heq
  obtain ⟨ls, hrun⟩ := play_live hs
  obtain ⟨hiff, hseated⟩ := independent_iff (c := clientOf 0) 0 .closed
    ⟨[], nofun⟩
    ⟨[⟨clientOf 4, .failed eagain⟩, ⟨clientOf 4, .failed 32⟩], by decide⟩
  have hevent := hrun.mono fun _ _ h => h.1
  exact ⟨s, hs, hstate, (hiff ls (quiet s) hevent hlive).mpr
    fun _ => ⟨rfl, rfl, hseated ls (quiet s) hrun⟩⟩

/-- The socket of another client of the worker was full for a moment: the close
goes unnoticed. -/
theorem not_independent_eagain : ¬ ∀ (ls : List (Step _ _))
    (k : Configuration maxThreads maxClientsPerThread) (c : ClientPtr _ _)
    (returned : RecvReturn) (history history' : History c),
    (server _ _).Run LiveOk (Configuration.init _ _) ls k →
      k.prog (.worker c.worker) = .ret () →
      (k.shared.clients c).inUse = true →
      Independent k.shared 0 returned history history' := by
  intro hall
  have hplay : (play (State.init maxThreads maxClientsPerThread)
      (connects 0)).map (fun s => (s.clients (clientOf 0)).inUse) =
        some true := by decide +kernel
  obtain ⟨s, hs, hlive⟩ := Option.map_eq_some_iff.mp hplay
  obtain ⟨ls, hrun⟩ := play_live hs
  let full : History (clientOf 0) :=
    ⟨[⟨clientOf 4, .failed eagain⟩, ⟨clientOf 4, .succeeded⟩], by decide⟩
  have h := hall ls (quiet s) (clientOf 0) .closed ⟨[], nofun⟩ full hrun rfl
    hlive
  have hreleases : CloseReleases (clientOf 0) s (.nothing true) :=
    h.releases rfl full (by simp)
  exact wouldBlock_keeps hlive hreleases

end ChatApp.Server
