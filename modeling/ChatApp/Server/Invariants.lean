import ChatApp.Server.Interference
import ChatApp.Server.Ownership
import ChatApp.Server.RoomInvariant

/-!
# The invariants together

`ServerInv` is what is known of every state of every run: the hand-over, the
ownership of descriptors, and the rooms.  `Peers w` is what the other threads
do while worker `w` executes a routine; unlike `Others w` it leaves out failing
reads of an eventfd, so it keeps `ServerInv`.
-/

namespace ChatApp.Server

open ChatApp.Foundation

variable {N C : Nat}

/-- The state in which `current_msg` of the client is the given message. -/
def State.receiving (s : State N C) (c : ClientPtr N C) (msg : Bytes) :
    State N C :=
  { s with
    clients := Function.update s.clients c
      { s.clients c with currentMsg := msg } }

/-- The invariants of the server. -/
structure ServerInv (s : State N C) : Prop where
  hand : ∀ w, HandInv s w
  own : Own s
  rooms : RoomInv s

namespace ServerInv

variable {s s' : State N C} {c d : ClientPtr N C} {i : Fin maxRooms}

theorem relay (h : ServerInv s) (v : Fin N) : Relay s v :=
  (h.hand v).toRelay

theorem init [NeZero N] : ServerInv (State.init N C) :=
  ⟨HandInv.init, Own.init, RoomInv.init⟩

theorem step (h : ServerInv s) {t : Thread N} {a : Act N C} {b : a.Answer}
    (ha : Allowed t s a) (hread : ∀ w, a ≠ .readEventfd w false)
    (he : exec a s = some (b, s')) : ServerInv s' :=
  ⟨HandInv.step h.hand ha hread he, h.own.step h.hand ha he,
    h.rooms.step ha he⟩

/-- The text a client has sent so far matters to no invariant. -/
theorem receiving (h : ServerInv s) (c : ClientPtr N C) (msg : Bytes) :
    ServerInv (s.receiving c msg) := by
  have hsame : s.SameControl (s.receiving c msg) :=
    sameControl_update s c _ s.journal rfl rfl rfl rfl
  have htransfer : Transfer s none (s.receiving c msg) :=
    .same rfl rfl (fun _ => ⟨rfl, rfl⟩)
      (fun d => ⟨hsame.inUse d, hsame.clientFd d⟩) rfl rfl
  refine ⟨fun w => ?_, ?_, ?_⟩
  · have hrelay : Relay (s.receiving c msg) w :=
      (h.hand w).toRelay.frame rfl rfl rfl (h.hand w).positive rfl
        (h.hand w).reads
    exact (h.hand w).points hrelay rfl rfl (slots_congr hsame.inUse w) rfl rfl
      ⟨rfl, rfl⟩
  · obtain ⟨howned, hzero, hrange⟩ := htransfer.owned h.own
    obtain ⟨hfree, hused, hapart⟩ := h.own.slots
      fun d => .inl ⟨hsame.inUse d, hsame.clientFd d⟩
    exact ⟨howned, hzero, hrange, hfree, hused, hapart⟩
  · exact h.rooms.frame rfl hsame.state hsame.roomIndex hsame.inUse
      fun _ => rfl

/-- A member of a room is live and its descriptor is open. -/
theorem member_holds (h : ServerInv s) (hc : (s.rooms i).Has c) :
    s.holding (.slot c) = some (s.clients c).clientFd := by
  obtain ⟨huse, -, -, hpoint⟩ := (h.rooms.member i c).mp hc
  apply holding_slot huse
  intro hclosing
  apply hpoint
  revert hclosing
  cases s.point c.worker <;> simp [WorkerPoint.closing, WorkerPoint.departing]

/-- A live client that is not being released has an open connection. -/
theorem connected (h : ServerInv s)
    (hc : s.holding (.slot c) = some (s.clients c).clientFd) :
    ∃ q, s.connOf c = some q :=
  h.own.owned.known _ _ hc

/-- Two slots with one connection are one slot. -/
theorem connOf_inj (h : ServerInv s)
    (hc : s.holding (.slot c) = some (s.clients c).clientFd)
    (hd : s.holding (.slot d) = some (s.clients d).clientFd)
    (heq : s.connOf c = s.connOf d) : c = d := by
  obtain ⟨q, hq⟩ := h.connected hc
  have hq' := heq.symm.trans hq
  cases h.own.owned.holder_unique hc hd hq hq'
  rfl

end ServerInv

section Runs

variable [NeZero N] {ls : List (Step N C)} {k : Configuration N C}

theorem serverInv_run
    (hrun : (server N C).Run ReadsSucceed (Configuration.init N C) ls k) :
    ServerInv k.shared := by
  refine run_invariant (fun _ _ h => h.1) ServerInv.init ?_ hrun
  rintro t a s b s' ha hok he h
  refine h.step ha ?_ he
  rintro w rfl
  exact hok.2 t w rfl

end Runs

/-! ## The other threads -/

/-- One allowed action of a thread other than worker `w`, no read of an
eventfd failing. -/
def PeerStep (w : Fin N) (s s' : State N C) : Prop :=
  ∃ t a, ∃ b : a.Answer, t ≠ Thread.worker w ∧ Allowed t s a ∧
    (∀ v, a ≠ .readEventfd v false) ∧ exec a s = some (b, s')

/-- Any number of such actions. -/
def Peers (w : Fin N) : State N C → State N C → Prop :=
  Relation.ReflTransGen (PeerStep w)

namespace Peers

variable {w : Fin N} {c : ClientPtr N C} {s s' : State N C}

theorem refl (w : Fin N) (s : State N C) : Peers w s s :=
  Relation.ReflTransGen.refl

theorem trans {s₁ s₂ s₃ : State N C} (h : Peers w s₁ s₂)
    (h' : Peers w s₂ s₃) : Peers w s₁ s₃ :=
  Relation.ReflTransGen.trans h h'

theorem others (h : Peers w s s') : Others w s s' := by
  have hstep : PeerStep w ≤ OtherStep (C := C) w := by
    rintro s s' ⟨t, a, b, ht, ha, -, he⟩
    exact ⟨t, a, b, ht, ha, he⟩
  exact Relation.ReflTransGen.mono hstep _ _ h

theorem inv (h : Peers w s s') (hs : ServerInv s) : ServerInv s' := by
  induction h with
  | refl => exact hs
  | tail _ hstep ih =>
      obtain ⟨t, a, b, -, ha, hread, he⟩ := hstep
      exact ih.step ha hread he

/-- What a worker's slot holds is closed by no other thread. -/
theorem holds (h : Peers c.worker s s') (hs : ServerInv s) {fd : Fd}
    (hfd : s.holding (.slot c) = some fd) :
    s'.holding (.slot c) = some fd ∧ s'.conns fd = s.conns fd := by
  induction h with
  | refl => exact ⟨hfd, rfl⟩
  | tail hsteps hstep ih =>
      have hinv := Peers.inv hsteps hs
      obtain ⟨t, a, b, ht, ha, -, he⟩ := hstep
      have hclose : a ≠ .closeClient c := by
        rintro rfl
        exact ht (ha.owner rfl)
      obtain ⟨hslot, hconn⟩ :=
        hinv.own.slot_stays hinv.hand ha hclose he ih.1
      exact ⟨hslot, hconn.trans ih.2⟩

end Peers

/-- What a worker executes of a job in a run is executed under `Peers`. -/
theorem exec_of_reads [NeZero N] {w : Fin N} {ls ls' : List (Step N C)}
    {k k' : Configuration N C}
    (hrun : (server N C).Run ReadsSucceed (Configuration.init N C) ls k)
    (hjob : (server N C).Run ReadsSucceed k ls' k')
    (hstart : ∀ j, .start (.worker w) j ∉ ls')
    (hend : k'.prog (.worker w) = .ret ()) :
    ∃ steps, Prog.Exec exec (Peers w) (k.prog (.worker w)) k.shared steps ()
      k'.shared := by
  have hpre := Contract.Sound.run_pre (K := control N C)
    (fun _ _ h => h.1) (fun t j s _ => safe_job t j s)
    (control_sound (hrun.mono fun _ _ h => h.1)) hjob
  obtain ⟨trace, htrace⟩ := System.Run.exec_of (R := Peers w)
    (Peers.refl w) (fun _ _ _ => Peers.trans)
    (fun u a s b s' hu hok he => .single ⟨u, a, b, hu, hok.2 u a rfl,
      fun v hv => hok.1.2 u v (by rw [hv]), he⟩) hpre hstart
  refine ⟨trace ++ [], htrace [] _ ?_⟩
  rw [hend]
  exact .ret (Peers.refl w _)

end ChatApp.Server
