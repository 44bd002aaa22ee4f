import ChatApp.Server.Interference
import ChatApp.Server.RoomInvariant

/-!
# The end of a connection

What `read_and_process_client_message` does after a `CMD_EXIT` has released
the client's slot.  The frame loop goes on with the rest of the chunk.  When
nothing complete follows, the release is final: nothing but `current_msg` of
the dead slot is touched again.  A complete message after the exit is handled
on the zeroed record, which writes to descriptor 0, or gives the dead slot a
name and a state.
-/

namespace ChatApp.Server

open ChatApp.Foundation

variable {N C : Nat} {c : ClientPtr N C} {s s' : State N C}

/-! ## What a final release is -/

/-- The action zeroes the client's slot. -/
def isRelease (c : ClientPtr N C) (e : Executed N C) : Bool :=
  match e.action with
  | .zeroClient d => d = c
  | _ => false

/-- The action is the decrement that ends `cleanup_client`. -/
def isSubtract (w : Fin N) (e : Executed N C) : Bool :=
  match e.action with
  | .subtractZeroed v => v = w
  | _ => false

/-- What is executed after the slot has been zeroed. -/
def afterRelease (c : ClientPtr N C) (steps : Steps N C) : Steps N C :=
  (steps.dropWhile fun e => !isRelease c e).drop 1

/-- The slot is free and in no room. -/
def Released (s : State N C) (c : ClientPtr N C) : Prop :=
  (s.clients c).inUse = false ∧ (s.clients c).state = .awaitingUsername ∧
    ∀ i, ¬ (s.rooms i).Has c

/-- The states differ at most in `current_msg` of the client and in the
journal. -/
def SameBut (c : ClientPtr N C) (s s' : State N C) : Prop :=
  ∃ currentMsg journal, s' =
    { s with
      clients := Function.update s.clients c
        { s.clients c with currentMsg := currentMsg }
      journal := journal }

/-- The action gives the slot to a new connection. -/
def Reuses (c : ClientPtr N C) (s : State N C) (a : Act N C) : Prop :=
  ∃ fd, a = .allocateClientSlot c.worker fd ∧
    s.freeSlot? c.worker = some c.index

/-- Any number of allowed actions of any threads before the slot is reused. -/
def UntilReuse (c : ClientPtr N C) : State N C → State N C → Prop :=
  Relation.ReflTransGen fun s s' =>
    ∃ t a, ∃ b : a.Answer, Allowed t s a ∧ ¬ Reuses c s a ∧
      exec a s = some (b, s')

/-- The release of the slot is final. -/
structure FinalRelease (c : ClientPtr N C) (steps : Steps N C)
    (s' : State N C) : Prop where
  once : steps.countP (isSubtract c.worker) = 1
  quiet : ∀ e ∈ afterRelease c steps, isSubtract c.worker e = false →
    SameBut c e.before e.after
  slot : ∀ e ∈ afterRelease c steps,
    Released e.before c ∧ Released e.after c
  stays : ∀ t, UntilReuse c s' t → Released t c
  fresh : ∀ t, UntilReuse c s' t → ∀ fd b t', Reuses c t
      (.allocateClientSlot c.worker fd) →
    exec (.allocateClientSlot c.worker fd) t = some (b, t') →
    t'.clients c = Client.fresh fd

/-! ## Free slots -/

/-- Only its release and its reuse change whether a slot is in use. -/
theorem exec_inUse {a : Act N C} {b : a.Answer} (hzero : a ≠ .zeroClient c)
    (hreuse : ¬ Reuses c s a) (he : exec a s = some (b, s')) :
    (s'.clients c).inUse = (s.clients c).inUse := by
  by_cases htext : a.isText = true
  · exact (exec_sameControl htext he).inUse c
  by_cases hworker : a.worker? ≠ some c.worker
  · rw [exec_clients_of_ne hworker he]
  have hupdate : ∀ (d : ClientPtr N C) (r : Client),
      (d = c → r.inUse = (s.clients d).inUse) →
      (Function.update s.clients d r c).inUse = (s.clients c).inUse := by
    intro d r hr
    by_cases hd : c = d
    · subst hd
      rw [Function.update_self, hr rfl]
    · rw [Function.update_of_ne hd]
  cases a <;> simp only [Act.isText, not_true_eq_false,
    Bool.false_eq_true, not_false_eq_true] at htext
  case createSection i d roomName successMsg =>
    rcases exec_createSection he with ⟨-, -, rfl⟩ | ⟨-, -, rfl⟩
    · rfl
    · exact hupdate d _ fun _ => rfl
  case joinSection i d joinMsg =>
    rcases exec_joinSection he with ⟨r, -, rfl⟩ | rfl | ⟨j, -, -, rfl⟩
    · rfl
    · rfl
    · exact hupdate d _ fun _ => rfl
  case chatSection i d msg =>
    rw [exec_chatSection he]
    rfl
  case leaveSection i d =>
    rw [exec_leaveSection he]
    rfl
  case routeMessage d =>
    rcases exec_routeMessage he with ⟨-, ⟨-, rfl⟩ | ⟨line, -, rfl⟩⟩
    all_goals rfl
  case readEventfd w ok =>
    rcases exec_readEventfd he with ⟨-, -, -, rfl⟩ | ⟨-, -, rfl⟩
    all_goals rfl
  case registerWithEpoll w fd ok =>
    rcases exec_registerWithEpoll he with ⟨-, -, rfl⟩ | ⟨-, -, rfl⟩
    all_goals rfl
  case allocateClientSlot w fd =>
    rcases exec_allocateClientSlot he with ⟨-, -, rfl⟩ | ⟨j, hj, -, rfl⟩
    · rfl
    · by_cases hd : (⟨w, j⟩ : ClientPtr N C) = c
      · subst hd
        exact absurd ⟨fd, rfl, hj⟩ hreuse
      · exact hupdate _ _ fun h => absurd h hd
  case setLobby d =>
    cases he
    exact hupdate d _ fun _ => rfl
  case zeroClient d =>
    cases he
    exact hupdate d _ fun hd => absurd (congrArg Act.zeroClient hd) hzero
  all_goals
    first
    | (exfalso; apply hworker; simp [Act.worker?]; done)
    | (cases he; rfl)

/-- A free slot stays free until it is reused. -/
theorem exec_free {a : Act N C} {b : a.Answer} (hreuse : ¬ Reuses c s a)
    (he : exec a s = some (b, s')) (hfree : (s.clients c).inUse = false) :
    (s'.clients c).inUse = false := by
  by_cases hzero : a = .zeroClient c
  · subst hzero
    cases he
    show (Function.update s.clients c Client.zero c).inUse = false
    rw [Function.update_self]
    rfl
  · rw [exec_inUse hzero hreuse he]
    exact hfree

/-- A free slot of a consistent state is released, and stays so until it is
reused. -/
theorem released_of_free (h : RoomInv s)
    (hfree : (s.clients c).inUse = false) : Released s c := by
  refine ⟨hfree, h.released c hfree, fun i hi => ?_⟩
  have hlive := ((h.member i c).mp hi).1
  rw [hfree] at hlive
  cases hlive

theorem UntilReuse.released {t : State N C} (h : UntilReuse c s t)
    (hinv : RoomInv s) (hfree : (s.clients c).inUse = false) :
    Released t c := by
  have hkeep : RoomInv t ∧ (t.clients c).inUse = false := by
    induction h with
    | refl => exact ⟨hinv, hfree⟩
    | tail hsteps hstep ih =>
        obtain ⟨u, a, b, ha, hreuse, he⟩ := hstep
        exact ⟨ih.1.step ha he, exec_free hreuse he ih.2⟩
  exact released_of_free hkeep.1 hkeep.2

/-! ## The trace of a chunk with an exit -/

section Trace

variable {first rest : Steps N C}

/-- The steps neither release the slot nor subtract it. -/
def Before (c : ClientPtr N C) (steps : Steps N C) : Prop :=
  ∀ e ∈ steps, isRelease c e = false ∧ isSubtract c.worker e = false

theorem Before.append (h : Before c first) (h' : Before c rest) :
    Before c (first ++ rest) := by
  intro e he
  rcases List.mem_append.mp he with he | he
  · exact h e he
  · exact h' e he

theorem Before.cons {e : Executed N C} (hr : isRelease c e = false)
    (hs : isSubtract c.worker e = false) (h : Before c rest) :
    Before c (e :: rest) := by
  intro e' he
  rcases List.mem_cons.mp he with rfl | he
  · exact ⟨hr, hs⟩
  · exact h e' he

theorem before_of_all (h : ∀ e ∈ rest, Act.ofCommand c e.action) :
    Before c rest := by
  intro e he
  have ha := h e he
  unfold isRelease isSubtract
  cases hact : e.action <;> simp_all [Act.ofCommand]

theorem afterRelease_append (h : Before c first) {e : Executed N C}
    (he : isRelease c e = true) : afterRelease c (first ++ e :: rest) = rest := by
  have hskip : ∀ e ∈ first, (!isRelease c e) = true := by
    intro e he
    simp [(h e he).1]
  unfold afterRelease
  rw [List.dropWhile_append_of_pos hskip]
  simp [he]

theorem countP_append (h : Before c first) :
    (first ++ rest).countP (isSubtract c.worker) =
      rest.countP (isSubtract c.worker) := by
  have hzero : first.countP (isSubtract c.worker) = 0 := by
    apply List.countP_eq_zero.mpr
    intro e he
    simp [(h e he).2]
  rw [List.countP_append, hzero, Nat.zero_add]

end Trace

section Chunk

variable {steps : Steps N C}

/-- `cleanup_client`: the slot is zeroed and then subtracted. -/
theorem exec_cleanupClient {R : State N C → State N C → Prop}
    (hR : ∀ {s s'}, R s s' → s'.clients c = s.clients c)
    (h : Prog.Exec exec R (cleanupClient c) s steps () s') :
    ∃ first s₁ s₂ s₃ s₄, Before c first ∧
      steps = first ++ [⟨.zeroClient c, s₁, s₂⟩,
        ⟨.subtractZeroed c.worker, s₃, s₄⟩] ∧
      s₃.clients c = Client.zero ∧ s₄.clients c = Client.zero ∧
      s'.clients c = Client.zero := by
  obtain ⟨t₁, _, t₂, steps₁, rfl, -, he₁, h⟩ := Prog.Exec.act_inv h
  obtain ⟨t₃, _, t₄, steps₂, rfl, -, he₂, h⟩ := Prog.Exec.act_inv h
  obtain ⟨s₁, _, s₂, steps₃, rfl, -, he₃, h⟩ := Prog.Exec.act_inv h
  obtain ⟨s₃, _, s₄, steps₄, rfl, hR₄, he₄, h⟩ := Prog.Exec.act_inv h
  obtain ⟨-, rfl, hR₅⟩ := Prog.Exec.ret_inv h
  have hzero : s₃.clients c = Client.zero := by
    rw [hR hR₄]
    cases he₃
    exact Function.update_self _ _ _
  have hsame : s₄.clients c = s₃.clients c := by
    cases he₄
    rfl
  refine ⟨[⟨.epollDel c, t₁, t₂⟩, ⟨.closeClient c, t₃, t₄⟩], s₁, s₂, s₃, s₄,
    ?_, rfl, hzero, hsame.trans hzero, ?_⟩
  · exact .cons rfl rfl (.cons rfl rfl fun e he => by cases he)
  · rw [hR hR₅, hsame, hzero]

/-- A `CMD_EXIT` that passes the checks. -/
theorem exec_routeExit (hexit : isExit (s.clients c).currentMsg = true)
    (h : Prog.Exec exec (Others c.worker) (routeClientCommand c) s steps ()
      s') :
    ∃ first s₁ s₂ s₃ s₄, Before c first ∧
      steps = first ++ [⟨.zeroClient c, s₁, s₂⟩,
        ⟨.subtractZeroed c.worker, s₃, s₄⟩] ∧
      s₃.clients c = Client.zero ∧ s₄.clients c = Client.zero ∧
      s'.clients c = Client.zero := by
  rw [routeClientCommand_eq] at h
  obtain ⟨t₁, self, t₂, steps₁, rfl, hR, he, h⟩ := Prog.Exec.act_inv h
  have hself : self = s.clients c := by
    rw [(exec_routeMessage he).1, hR.clients]
  subst hself
  obtain ⟨hr, hcmd⟩ := (isExit_iff (s.clients c)).mp hexit
  simp only [dispatch, hr, handleAccepted, hcmd, if_true] at h
  rw [handleClientDisconnection_eq] at h
  obtain ⟨t₃, self', t₄, steps₂, rfl, -, he', h⟩ := Prog.Exec.act_inv h
  have hpre : Before c
      [⟨.routeMessage c, t₁, t₂⟩, ⟨.readClient c, t₃, t₄⟩] :=
    .cons rfl rfl (.cons rfl rfl fun e he => by cases he)
  split at h
  · obtain ⟨left, steps₃, _, t₅, rfl, hleave, h⟩ :=
      Prog.Exec.bind_inv (Others.refl c.worker) h
    obtain ⟨first, s₁, s₂, s₃, s₄, hbefore, rfl, hzero⟩ :=
      exec_cleanupClient Others.clients h
    have hleft : Before c left := by
      apply before_of_all
      have hall : Prog.All (Act.ofCommand c) (leaveRoom c self'.roomIndex) :=
        all_one rfl
      exact hleave.mem_of_all hall
    exact ⟨_, s₁, s₂, s₃, s₄, hpre.append (hleft.append hbefore), by simp,
      hzero⟩
  · obtain ⟨first, s₁, s₂, s₃, s₄, hbefore, rfl, hzero⟩ :=
      exec_cleanupClient Others.clients h
    exact ⟨_, s₁, s₂, s₃, s₄, hpre.append hbefore, by simp, hzero⟩

/-- A message that is no exit. -/
theorem exec_routeCommand (hexit : isExit (s.clients c).currentMsg = false)
    (h : Prog.Exec exec (Others c.worker) (routeClientCommand c) s steps ()
      s') : Before c steps := by
  rw [routeClientCommand_eq] at h
  obtain ⟨t₁, self, t₂, steps₁, rfl, hR, he, h⟩ := Prog.Exec.act_inv h
  have hself : self = s.clients c := by
    rw [(exec_routeMessage he).1, hR.clients]
  subst hself
  refine .cons rfl rfl (before_of_all ?_)
  exact h.mem_of_all (all_dispatchCommand c _ hexit)

/-- A chunk up to its exit message, and the rest of it. -/
theorem exec_untilExit (fuel : Nat) :
    ∀ (temp : Bytes) (s s' : State N C) (steps : Steps N C),
      temp.length < fuel → (s.clients c).inUse = true →
      s.point c.worker = .idle →
      (∃ m ∈ (Delimited.feed cr lf (s.clients c).currentMsg temp).1,
        isExit m = true) →
      Prog.Exec exec (Others c.worker) (messageLoop c fuel temp) s steps ()
        s' →
      ∃ first s₁ s₂ s₃ s₄ s₅ s₆ last rest fuel', Before c first ∧
        steps = first ++ ⟨.zeroClient c, s₁, s₂⟩ ::
          ⟨.subtractZeroed c.worker, s₃, s₄⟩ ::
          ⟨.clearCurrentMsg c, s₅, s₆⟩ :: last ∧
        s₃.clients c = Client.zero ∧ s₄.clients c = Client.zero ∧
        s₅.clients c = Client.zero ∧ s₆.clients c = Client.zero ∧
        rest.length < fuel' ∧
        Prog.Exec exec (Others c.worker) (messageLoop c fuel' rest) s₆ last ()
          s' ∧
        (ExitsLast (Delimited.feed cr lf (s.clients c).currentMsg temp).1 ↔
          strstrTerminator rest = none) := by
  induction fuel with
  | zero => intro temp s s' steps hfuel; omega
  | succ fuel ih =>
      intro temp s s' steps hfuel hlive hidle hexit h
      unfold messageLoop at h
      cases hcut : strstrTerminator temp with
      | none =>
          rw [feed_of_free hcut] at hexit
          obtain ⟨m, hm, -⟩ := hexit
          cases hm
      | some out =>
          obtain ⟨piece, rest⟩ := out
          have hlen := Delimited.length_of_cut hcut
          rw [feed_of_cut hcut] at hexit ⊢
          simp only [hcut] at h
          obtain ⟨t₁, _, t₂, steps₁, rfl, hR₁, he₁, h⟩ := Prog.Exec.act_inv h
          have hbody : Prog.Exec exec (Others c.worker)
              (routeClientCommand c >>= fun _ =>
                act (.clearCurrentMsg c) >>= fun _ =>
                  messageLoop c fuel rest) t₂ steps₁ () s' := h
          obtain ⟨route, steps₂, ⟨⟩, t₃, rfl, hroute, hclear⟩ :=
            Prog.Exec.bind_inv (Others.refl c.worker) hbody
          obtain ⟨t₄, _, t₅, steps₃, rfl, hR₄, he₄, hrest⟩ :=
            Prog.Exec.act_inv hclear
          have hrecord : t₂.clients c = { s.clients c with
              currentMsg := (s.clients c).currentMsg ++ piece } := by
            rw [← hR₁.clients]
            cases he₁
            exact Function.update_self _ _ _
          have hpoint : t₂.point c.worker = .idle := by
            cases he₁
            rw [← hidle]
            exact hR₁.point
          have hcleared : t₅.clients c =
              { t₃.clients c with currentMsg := [] } := by
            rw [← hR₄.clients]
            cases he₄
            exact Function.update_self _ _ _
          have hhead : Before c [⟨.strcatCurrentMsg c piece, t₁, t₂⟩] :=
            .cons rfl rfl fun e he => by cases he
          cases hmsg : isExit ((s.clients c).currentMsg ++ piece) with
          | true =>
              obtain ⟨first, s₁, s₂, s₃, s₄, hbefore, rfl, hz₃, hz₄, hend⟩ :=
                exec_routeExit (by rw [hrecord]; exact hmsg) hroute
              refine ⟨_, s₁, s₂, s₃, s₄, t₄, t₅, steps₃, rest, fuel,
                hhead.append hbefore, by simp, hz₃, hz₄, ?_, ?_, by omega,
                hrest, ?_⟩
              · rw [hR₄.clients, hend]
              · rw [hcleared, hend]
                rfl
              · constructor
                · intro hlast
                  by_contra hsome
                  have hne : (Delimited.feed cr lf [] rest).1 ≠ [] :=
                    fun hnil => hsome (cut_of_feed_nil hnil)
                  have hfalse := hlast.head hne
                  rw [hmsg] at hfalse
                  cases hfalse
                · intro hnone
                  rw [feed_of_free hnone]
                  intro m hm
                  cases hm
          | false =>
              have hlive₂ : Live (t₂.clients c).inUse := by
                rw [hrecord]
                exact hlive
              have hlocal := (local_routeClientCommand (c := c)
                hlive₂).exec rfl hpoint hroute
              obtain ⟨hidle', hmoves⟩ := hlocal.2
              have hexit' : ∃ m ∈ (Delimited.feed cr lf
                  (t₅.clients c).currentMsg rest).1, isExit m = true := by
                rw [hcleared]
                obtain ⟨m, hm, hme⟩ := hexit
                rcases List.mem_cons.mp hm with rfl | hm
                · rw [hmsg] at hme
                  cases hme
                · exact ⟨m, hm, hme⟩
              have hlive₅ : (t₅.clients c).inUse = true := by
                rw [hcleared]
                rw [hmoves.inUse (by rw [hrecord]; exact hmsg), hrecord]
                exact hlive
              have hidle₅ : t₅.point c.worker = .idle := by
                cases he₄
                rw [← hidle']
                exact hR₄.point
              obtain ⟨first, s₁, s₂, s₃, s₄, s₅, s₆, last, rest', fuel',
                  hbefore, rfl, hz₃, hz₄, hz₅, hz₆, hfuel', hlast, hiff⟩ :=
                ih rest t₅ s' steps₃ (by omega) hlive₅ hidle₅ hexit' hrest
              have hroute' := exec_routeCommand
                (by rw [hrecord]; exact hmsg) hroute
              have hcleared' : Before c [⟨.clearCurrentMsg c, t₄, t₅⟩] :=
                .cons rfl rfl fun e he => by cases he
              refine ⟨_, s₁, s₂, s₃, s₄, s₅, s₆, last, rest', fuel',
                hhead.append (hroute'.append (hcleared'.append hbefore)),
                by simp, hz₃, hz₄, hz₅, hz₆, hfuel', hlast, ?_⟩
              rw [← hiff, hcleared]
              have hne : (Delimited.feed cr lf [] rest).1 ≠ [] := by
                intro hnil
                rw [hcleared] at hexit'
                obtain ⟨m, hm, -⟩ := hexit'
                rw [hnil] at hm
                cases hm
              constructor
              · exact fun hl => hl.tail
              · intro hl m hm
                rw [List.dropLast_cons_of_ne_nil hne] at hm
                rcases List.mem_cons.mp hm with rfl | hm
                · exact hmsg
                · exact hl m hm

/-- A step after the release that is not to happen: a system call, or a state
for the free slot. -/
def Spoils (c : ClientPtr N C) (e : Executed N C) : Prop :=
  (isSubtract c.worker e = false ∧ e.after.calls ≠ e.before.calls) ∨
    (e.after.clients c).state ≠ .awaitingUsername

theorem FinalRelease.not_spoils (h : FinalRelease c steps s')
    {e : Executed N C} (he : e ∈ afterRelease c steps) : ¬ Spoils c e := by
  rintro (⟨hsub, hcalls⟩ | hstate)
  · obtain ⟨m, j, heq⟩ := h.quiet e he hsub
    apply hcalls
    rw [heq]
  · exact hstate (h.slot e he).2.2.1

/-- A message that is handled on the zeroed record spoils the release. -/
theorem exec_dispatchReleased {self : Client}
    (hstate : self.state = .awaitingUsername) (hself : s.clients c = self)
    (h : Prog.Exec exec (Others c.worker) (dispatch c self) s steps () s') :
    ∃ e ∈ steps, Spoils c e := by
  have hsend : ∀ {fd cmdType message} {s s' : State N C} {steps : Steps N C},
      Prog.Exec exec (Others c.worker)
        (act (.send fd cmdType message) : ServerProg N C Unit) s steps () s' →
      ∃ e ∈ steps, Spoils c e := by
    intro fd cmdType message s s' steps h
    obtain ⟨t₁, _, t₂, rest, rfl, -, he, -⟩ := Prog.Exec.act_inv h
    cases he
    exact ⟨_, List.mem_cons_self, .inl ⟨rfl, by simp [sendMessageToClient]⟩⟩
  unfold dispatch at h
  cases hr : refusal self with
  | some answer =>
      simp only [hr] at h
      exact hsend h
  | none =>
      simp only [hr] at h
      unfold handleAccepted at h
      by_cases hcmd : command self.currentMsg = cmdExit
      · rw [if_pos hcmd, handleClientDisconnection_eq] at h
        obtain ⟨t₁, record, t₂, rest₁, rfl, hR, he₁, h⟩ :=
          Prog.Exec.act_inv h
        have hrecord : record.state = .awaitingUsername := by
          cases he₁
          rw [hR.clients, hself]
          exact hstate
        simp only [hrecord, reduceCtorEq, if_false] at h
        obtain ⟨t₃, _, t₄, rest₂, rfl, -, he₂, -⟩ := Prog.Exec.act_inv h
        cases he₂
        exact ⟨_, List.mem_cons_of_mem _ List.mem_cons_self,
          .inl ⟨rfl, by simp⟩⟩
      · rw [if_neg hcmd] at h
        simp only [hstate] at h
        unfold handleAwaitingUsername at h
        dsimp only at h
        split at h
        · exact hsend h
        · obtain ⟨t₁, _, t₂, rest₁, rfl, -, -, h⟩ := Prog.Exec.act_inv h
          obtain ⟨t₃, _, t₄, rest₂, rfl, -, he₂, -⟩ := Prog.Exec.act_inv h
          cases he₂
          exact ⟨_, List.mem_cons_of_mem _ List.mem_cons_self,
            .inr (by simp)⟩

/-- The rest of a chunk that completes a message spoils the release. -/
theorem exec_restRouted {fuel : Nat} {temp : Bytes}
    (hfuel : temp.length < fuel) (hsome : strstrTerminator temp ≠ none)
    (hzero : s.clients c = Client.zero)
    (h : Prog.Exec exec (Others c.worker) (messageLoop c fuel temp) s steps ()
      s') : ∃ e ∈ steps, Spoils c e := by
  cases fuel with
  | zero => omega
  | succ fuel =>
      unfold messageLoop at h
      cases hcut : strstrTerminator temp with
      | none => exact absurd hcut hsome
      | some out =>
          obtain ⟨piece, rest⟩ := out
          simp only [hcut] at h
          obtain ⟨t₁, _, t₂, steps₁, rfl, hR₁, he₁, hbody⟩ :=
            Prog.Exec.act_inv h
          have hloop : Prog.Exec exec (Others c.worker)
              (routeClientCommand c >>= fun _ =>
                act (.clearCurrentMsg c) >>= fun _ =>
                  messageLoop c fuel rest) t₂ steps₁ () s' := hbody
          obtain ⟨route, steps₂, _, t₃, rfl, hroute, -⟩ :=
            Prog.Exec.bind_inv (Others.refl c.worker) hloop
          rw [routeClientCommand_eq] at hroute
          obtain ⟨t₄, self, t₅, route', rfl, hR₄, he₄, hdispatch⟩ :=
            Prog.Exec.act_inv hroute
          have hrecord : (t₂.clients c).state = .awaitingUsername := by
            have hz₁ := hR₁.clients.trans hzero
            cases he₁
            simp [hz₁, Client.zero]
          have hself : self = t₂.clients c := by
            rw [(exec_routeMessage he₄).1, hR₄.clients]
          have hsame : t₅.clients c = self := by
            rw [hself, ← hR₄.clients]
            rcases exec_routeMessage he₄ with
              ⟨-, ⟨-, rfl⟩ | ⟨line, -, rfl⟩⟩ <;> rfl
          obtain ⟨e, hmem, hbad⟩ :=
            exec_dispatchReleased (by rw [hself]; exact hrecord) hsame hdispatch
          exact ⟨e, by simp [hmem], hbad⟩

/-- The rest of a chunk that completes no message: at most `current_msg` of
the free slot is written. -/
theorem exec_restFree {fuel : Nat} {temp : Bytes}
    (hfuel : temp.length < fuel) (hnone : strstrTerminator temp = none)
    (hfree : (s.clients c).inUse = false)
    (h : Prog.Exec exec (Others c.worker) (messageLoop c fuel temp) s steps ()
      s') :
    (∀ e ∈ steps, isSubtract c.worker e = false ∧
      SameBut c e.before e.after ∧ (e.before.clients c).inUse = false ∧
      (e.after.clients c).inUse = false) ∧
      (s'.clients c).inUse = false := by
  cases fuel with
  | zero => omega
  | succ fuel =>
      unfold messageLoop at h
      simp only [hnone] at h
      split at h
      · obtain ⟨-, rfl, hR⟩ := Prog.Exec.ret_inv h
        refine ⟨fun e he => (by cases he), ?_⟩
        rw [hR.clients]
        exact hfree
      · obtain ⟨t₁, _, t₂, rest, rfl, hR₁, he₁, h⟩ := Prog.Exec.act_inv h
        obtain ⟨-, rfl, hR₂⟩ := Prog.Exec.ret_inv h
        have hbefore : (t₁.clients c).inUse = false := by
          rw [hR₁.clients]
          exact hfree
        have hafter : (t₂.clients c).inUse = false := by
          cases he₁
          simpa using hbefore
        constructor
        · intro e he
          rw [List.mem_singleton.mp he]
          refine ⟨rfl, ?_, hbefore, hafter⟩
          cases he₁
          exact ⟨_, _, rfl⟩
        · rw [hR₂.clients]
          exact hafter

end Chunk

/-! ## When the release is final -/

/-- A slot that is reused forgets everything. -/
theorem exec_reuse {fd : Fd} {b : Bool}
    (hreuse : Reuses c s (.allocateClientSlot c.worker fd))
    (he : exec (.allocateClientSlot c.worker fd) s = some (b, s')) :
    s'.clients c = Client.fresh fd := by
  obtain ⟨fd', hfd, hslot⟩ := hreuse
  rcases exec_allocateClientSlot he with ⟨hfull, -, -⟩ | ⟨j, hj, -, rfl⟩
  · rw [hfull] at hslot
    cases hslot
  · rw [hj] at hslot
    cases hslot
    exact Function.update_self _ _ _

section Final

variable [NeZero N] {ls : List (Step N C)} {k : Configuration N C}
  {bytes : Bytes} {steps : Steps N C}

/-- After a final release nothing complete follows the exit. -/
theorem exitsLast_of_final
    (hrun : (server N C).Run LiveOk (Configuration.init N C) ls k)
    (hidle : k.prog (.worker c.worker) = .ret ())
    (hlive : (k.shared.clients c).inUse = true)
    (hexit : ∃ m ∈ messages (k.shared.clients c).currentMsg bytes,
      isExit m = true)
    (hexec : Prog.Exec exec (Others c.worker)
      (readAndProcessClientMessage c (.data bytes)) k.shared steps () s')
    (hfinal : FinalRelease c steps s') :
    ExitsLast (messages (k.shared.clients c).currentMsg bytes) := by
  have hpoint : k.shared.point c.worker = .idle :=
    (control_sound hrun).idle_view hidle
  obtain ⟨first, s₁, s₂, s₃, s₄, s₅, s₆, last, rest, fuel, hbefore, rfl,
      -, -, -, hzero, hfuel, hlast, hiff⟩ :=
    exec_untilExit _ _ _ _ _ (Nat.lt_succ_self _) hlive hpoint hexit hexec
  rw [messages, hiff]
  by_contra hsome
  obtain ⟨e, hmem, hbad⟩ := exec_restRouted hfuel hsome hzero hlast
  have hgood := hfinal.not_spoils (e := e)
  rw [afterRelease_append hbefore (by simp [isRelease])] at hgood
  exact hgood (by simp [hmem]) hbad

/-- When nothing complete follows the exit, the release is final. -/
theorem final_of_exitsLast
    (hrun : (server N C).Run LiveOk (Configuration.init N C) ls k)
    (hidle : k.prog (.worker c.worker) = .ret ())
    (hlive : (k.shared.clients c).inUse = true)
    (hexit : ∃ m ∈ messages (k.shared.clients c).currentMsg bytes,
      isExit m = true)
    (hexec : Prog.Exec exec (Others c.worker)
      (readAndProcessClientMessage c (.data bytes)) k.shared steps () s')
    (hexits : ExitsLast (messages (k.shared.clients c).currentMsg bytes)) :
    FinalRelease c steps s' := by
  have hpoint : k.shared.point c.worker = .idle :=
    (control_sound hrun).idle_view hidle
  have huse : Live (k.shared.clients c).inUse := hlive
  have hallowed := ((local_readAndProcess (c := c) (.data bytes) huse
    fun b hb => by
      cases hb
      exact .inl hexits).exec rfl hpoint hexec).1
  obtain ⟨hinv, hinv'⟩ := Exec.invariant
    (fun t a s b s' ha he h => RoomInv.step h ha he) hexec hallowed
    (roomInv_run hrun)
  obtain ⟨first, s₁, s₂, s₃, s₄, s₅, s₆, last, rest, fuel, hbefore, rfl,
      hz₃, hz₄, hz₅, hz₆, hfuel, hlast, hiff⟩ :=
    exec_untilExit _ _ _ _ _ (Nat.lt_succ_self _) hlive hpoint hexit hexec
  have hafter : afterRelease c (first ++ ⟨.zeroClient c, s₁, s₂⟩ ::
        ⟨.subtractZeroed c.worker, s₃, s₄⟩ ::
        ⟨.clearCurrentMsg c, s₅, s₆⟩ :: last) =
      ⟨.subtractZeroed c.worker, s₃, s₄⟩ ::
        ⟨.clearCurrentMsg c, s₅, s₆⟩ :: last :=
    afterRelease_append hbefore (by simp [isRelease])
  obtain ⟨hrest, hfree⟩ := exec_restFree hfuel (hiff.mp hexits)
    (by rw [hz₆]; rfl) hlast
  refine
    { once := ?_
      quiet := ?_
      slot := ?_
      stays := fun t ht => ht.released hinv' hfree
      fresh := fun t _ fd b t' hreuse he => exec_reuse hreuse he }
  · have hlast₀ : last.countP (isSubtract c.worker) = 0 := by
      apply List.countP_eq_zero.mpr
      intro e he
      simp [(hrest e he).1]
    rw [countP_append hbefore]
    simp [isSubtract, hlast₀]
  · rw [hafter]
    intro e he hsub
    rcases List.mem_cons.mp he with rfl | he
    · simp [isSubtract] at hsub
    rcases List.mem_cons.mp he with rfl | he
    · obtain ⟨b, hclear⟩ :=
        hexec.mem_exec ⟨.clearCurrentMsg c, s₅, s₆⟩ (by simp)
      exact ⟨[], s₅.journal,
        (congrArg Prod.snd (Option.some.inj hclear)).symm⟩
    · exact (hrest e he).2.1
  · intro e he
    rw [hafter] at he
    have hstep := hinv e (by simp only [List.mem_append]; right; simp_all)
    have hboth : (e.before.clients c).inUse = false ∧
        (e.after.clients c).inUse = false := by
      rcases List.mem_cons.mp he with rfl | he
      · exact ⟨by rw [hz₃]; rfl, by rw [hz₄]; rfl⟩
      rcases List.mem_cons.mp he with rfl | he
      · exact ⟨by rw [hz₅]; rfl, by rw [hz₆]; rfl⟩
      · exact (hrest e he).2.2
    exact ⟨released_of_free hstep.1 hboth.1,
      released_of_free hstep.2 hboth.2⟩

/-- **The end of a connection.**  In every reachable state, for every live
client and every chunk with a `CMD_EXIT`, whatever the other threads do
meanwhile: the release of the slot is final if and only if no complete message
follows the exit in the chunk. -/
theorem finalRelease_iff
    (hrun : (server N C).Run LiveOk (Configuration.init N C) ls k)
    (hidle : k.prog (.worker c.worker) = .ret ())
    (hlive : (k.shared.clients c).inUse = true)
    (hexit : ∃ m ∈ messages (k.shared.clients c).currentMsg bytes,
      isExit m = true)
    (hexec : Prog.Exec exec (Others c.worker)
      (readAndProcessClientMessage c (.data bytes)) k.shared steps () s') :
    FinalRelease c steps s' ↔
      ExitsLast (messages (k.shared.clients c).currentMsg bytes) := by
  constructor
  · exact exitsLast_of_final hrun hidle hlive hexit hexec
  · exact final_of_exitsLast hrun hidle hlive hexit hexec

/-- In a run in which nothing complete follows a `CMD_EXIT` in a chunk, every
release is final. -/
theorem finalRelease_run {ls' : List (Step N C)} {k' : Configuration N C}
    (hrun : (server N C).Run LiveOk (Configuration.init N C) ls k)
    (hidle : k.prog (.worker c.worker) = .ret ())
    (hok : LiveOk k.shared
      (.start (.worker c.worker) (.receive c (.data bytes))))
    (hexit : ∃ m ∈ messages (k.shared.clients c).currentMsg bytes,
      isExit m = true)
    (hjob : (server N C).Run LiveOk (k.update (.worker c.worker) k.shared
      (readAndProcessClientMessage c (.data bytes))) ls' k')
    (hone : ∀ j, .start (.worker c.worker) j ∉ ls')
    (hend : k'.prog (.worker c.worker) = .ret ()) :
    ∃ steps, FinalRelease c steps k'.shared ∧
      Prog.Exec exec (Others c.worker)
        (readAndProcessClientMessage c (.data bytes)) k.shared steps ()
        k'.shared := by
  have hstarted := System.Run.snoc hrun hok
    (.start k (.worker c.worker) (Job.receive c (.data bytes)) hidle)
  obtain ⟨steps, hexec⟩ := exec_of_run hstarted hjob hone hend
  rw [Config.update_prog_self, Config.update_shared] at hexec
  exact ⟨steps, final_of_exitsLast hrun hidle hok.1.1.2 hexit hexec
    (hok.2 _ c bytes rfl), hexec⟩

end Final

/-- The first client says goodbye in its room; the beginning of another message
follows in the same chunk. -/
theorem finalRelease_bye : ∃ (s s' : RealState) (steps : Steps _ _),
    play (State.init _ _) (opensRoom 0 (text "bob") (text "den")) = some s ∧
      Prog.Exec exec (Others (workerOf 0))
        (readAndProcessClientMessage (clientOf 0)
          (.data (frame cmdExit (text "bye") ++ text "\x02 al"))) s steps ()
        s' ∧
      FinalRelease (clientOf 0) steps s' := by
  have hplay : (play (State.init maxThreads maxClientsPerThread)
      (opensRoom 0 (text "bob") (text "den"))).map (fun s =>
        ((s.clients (clientOf 0)).inUse,
          (s.clients (clientOf 0)).currentMsg)) = some (true, []) := by
    decide +kernel
  obtain ⟨s, hs, hstart⟩ := Option.map_eq_some_iff.mp hplay
  obtain ⟨hlive, hempty⟩ := Prod.mk.inj hstart
  obtain ⟨ls, hrun⟩ := play_live hs
  obtain ⟨steps, s', hexec⟩ := exists_received (Others.refl (workerOf 0))
    (clientOf 0) (frame cmdExit (text "bye") ++ text "\x02 al") s
  have hexit : ∃ m ∈ messages (s.clients (clientOf 0)).currentMsg
      (frame cmdExit (text "bye") ++ text "\x02 al"), isExit m = true := by
    rw [hempty]
    decide
  have hlast : ExitsLast (messages (s.clients (clientOf 0)).currentMsg
      (frame cmdExit (text "bye") ++ text "\x02 al")) := by
    rw [hempty]
    decide
  exact ⟨s, s', steps, hs, hexec,
    (finalRelease_iff hrun rfl hlive hexit hexec).mpr hlast⟩

/-- A username after the exit, in the same chunk, is accepted on the zeroed
slot. -/
theorem not_finalRelease_trailing : ¬ ∀ (ls : List (Step _ _))
    (k : Configuration maxThreads maxClientsPerThread) (c : ClientPtr _ _)
    (bytes : Bytes) (steps : Steps _ _) (s' : RealState),
    (server _ _).Run LiveOk (Configuration.init _ _) ls k →
      k.prog (.worker c.worker) = .ret () →
      (k.shared.clients c).inUse = true → ChunkOk bytes →
      (∃ m ∈ messages (k.shared.clients c).currentMsg bytes,
        isExit m = true) →
      Prog.Exec exec (Others c.worker)
        (readAndProcessClientMessage c (.data bytes)) k.shared steps () s' →
      FinalRelease c steps s' := by
  intro hall
  have hplay : (play (State.init maxThreads maxClientsPerThread)
      (connects 0)).map (fun s => ((s.clients (clientOf 0)).inUse,
        (s.clients (clientOf 0)).currentMsg)) =
        some (true, []) := by decide +kernel
  obtain ⟨s, hs, hstart⟩ := Option.map_eq_some_iff.mp hplay
  obtain ⟨hlive, hempty⟩ := Prod.mk.inj hstart
  obtain ⟨ls, hrun⟩ := play_live hs
  obtain ⟨steps, s', hexec⟩ := exists_received (Others.refl (workerOf 0))
    (clientOf 0) (text "\x01 x\r\n\x02 bob\r\n") s
  have hexit : ∃ m ∈ messages (s.clients (clientOf 0)).currentMsg
      (text "\x01 x\r\n\x02 bob\r\n"), isExit m = true := by
    rw [hempty]
    decide
  have hfinal := hall ls _ (clientOf 0) _ steps s' hrun rfl hlive
    (by decide) hexit hexec
  have hlast : ExitsLast (messages (s.clients (clientOf 0)).currentMsg
      (text "\x01 x\r\n\x02 bob\r\n")) :=
    exitsLast_of_final hrun rfl hlive hexit hexec hfinal
  rw [hempty] at hlast
  revert hlast
  decide

end ChatApp.Server
