import ChatApp.Server.Framing
import ChatApp.Server.Release

/-!
# After a bad frame

A chunk that ends in a terminator should leave nothing in `current_msg`, so that
the next frame is handed over as it was sent.  The string functions stop at the
first NUL of the chunk, though, and what stands before it is kept:
`resynchronised_iff` says when nothing is.
-/

namespace ChatApp.Server

open ChatApp.Foundation

variable {N C : Nat} {c : ClientPtr N C} {s s' : State N C}
  {steps : Steps N C} {chunk : Bytes}

theorem Others.keeps (h : Others c.worker s s') : Keeps c s s' := h.clients

/-! ## Whether the client stays connected -/

/-- What neither releases nor reuses the slot leaves it as it is. -/
theorem exec_keepsInUse {prog : ServerProg N C Unit} {b : Bool}
    (hall : Prog.All (fun a => a ≠ .zeroClient c ∧
      ∀ w fd, a ≠ .allocateClientSlot w fd) prog)
    (h : Prog.Exec exec (Others c.worker) prog s steps () s')
    (hs : (s.clients c).inUse = b) : (s'.clients c).inUse = b := by
  refine (h.keeps (I := fun s => (s.clients c).inUse = b) ?_ ?_ hs).2
  · intro s s' hR hs
    rwa [hR.clients]
  · intro e he hs
    obtain ⟨hzero, hallocate⟩ := h.mem_of_all hall e he
    obtain ⟨answer, hexec⟩ := h.mem_exec e he
    rw [exec_inUse hzero (fun ⟨fd, heq, _⟩ => hallocate _ fd heq) hexec]
    exact hs

/-- A released slot stays free for the rest of the chunk. -/
theorem exec_loopFree {fuel : Nat} {temp : Bytes}
    (h : Prog.Exec exec (Others c.worker) (messageLoop c fuel temp) s steps ()
      s') (hfree : (s.clients c).inUse = false) :
    (s'.clients c).inUse = false := by
  have hloop := all_messageLoop
    (P := fun a => ∀ w fd, a ≠ Act.allocateClientSlot w fd) c
    (by rintro a ha w fd rfl; cases ha) (fun _ _ _ heq => by cases heq)
    (fun _ _ heq => by cases heq) (fun _ _ heq => by cases heq) fuel temp
  refine (h.keeps (I := fun s => (s.clients c).inUse = false) ?_ ?_ hfree).2
  · intro s s' hR hs
    rwa [hR.clients]
  · intro e he hs
    obtain ⟨answer, hexec⟩ := h.mem_exec e he
    have hallocate := h.mem_of_all hloop e he
    exact exec_free (fun ⟨fd, heq, _⟩ => hallocate _ fd heq) hexec hs

/-- One message: the client stays connected unless it is a `CMD_EXIT`. -/
theorem exec_routeInUse
    (h : Prog.Exec exec (Others c.worker) (routeClientCommand c) s steps ()
      s') (hlive : (s.clients c).inUse = true) :
    (s'.clients c).inUse = !isExit (s.clients c).currentMsg := by
  cases hexit : isExit (s.clients c).currentMsg with
  | true =>
      obtain ⟨first, s₁, s₂, s₃, s₄, -, -, -, -, hzero⟩ :=
        exec_routeExit hexit h
      rw [hzero]
      rfl
  | false =>
      rw [routeClientCommand_eq] at h
      obtain ⟨s₁, self, s₂, rest, rfl, hR, he, hrest⟩ := Prog.Exec.act_inv h
      have hself : self = s.clients c := by
        rw [(exec_routeMessage he).1, hR.clients]
      subst hself
      have hroute : (s₂.clients c).inUse = true := by
        rw [exec_inUse (fun heq => by cases heq)
          (fun ⟨fd, heq, _⟩ => by cases heq) he, hR.clients]
        exact hlive
      refine exec_keepsInUse ((all_dispatchCommand c _ hexit).imp ?_) hrest
        hroute
      intro a ha
      constructor
      · rintro rfl
        cases ha
      · rintro w fd rfl
        cases ha

/-- A chunk: the client stays connected unless the chunk completes a
`CMD_EXIT`. -/
theorem exec_loopInUse (fuel : Nat) :
    ∀ (temp : Bytes) (s s' : State N C) (steps : Steps N C),
      temp.length < fuel → (s.clients c).inUse = true →
      Prog.Exec exec (Others c.worker) (messageLoop c fuel temp) s steps ()
        s' →
      ((s'.clients c).inUse = true ↔
        ∀ m ∈ (Delimited.feed cr lf (s.clients c).currentMsg temp).1,
          isExit m = false) := by
  induction fuel with
  | zero => intro temp s s' steps hfuel; omega
  | succ fuel ih =>
      intro temp s s' steps hfuel hlive h
      cases hcut : strstrTerminator temp with
      | none =>
          rw [feed_of_free hcut]
          have hall : Prog.All (fun a => a ≠ .zeroClient c ∧
              ∀ w fd, a ≠ .allocateClientSlot w fd)
              (messageLoop c (fuel + 1) temp) := by
            unfold messageLoop
            rw [hcut]
            dsimp only
            split
            · trivial
            · exact all_one ⟨fun heq => (by cases heq),
                fun _ _ heq => by cases heq⟩
          simp [exec_keepsInUse hall h hlive]
      | some out =>
          obtain ⟨piece, rest⟩ := out
          have hlen := Delimited.length_of_cut hcut
          rw [feed_of_cut hcut]
          unfold messageLoop at h
          simp only [hcut] at h
          obtain ⟨t₁, _, t₂, steps₁, rfl, hR₁, he₁, h⟩ := Prog.Exec.act_inv h
          have hbody : Prog.Exec exec (Others c.worker)
              (routeClientCommand c >>= fun _ =>
                act (.clearCurrentMsg c) >>= fun _ =>
                  messageLoop c fuel rest) t₂ steps₁ () s' := h
          obtain ⟨route, steps₂, ⟨⟩, t₃, rfl, hroute, hclear⟩ :=
            Prog.Exec.bind_inv (Others.refl c.worker) hbody
          obtain ⟨t₄, _, t₅, steps₃, rfl, hR₄, he₄, hrest⟩ :=
            Prog.Exec.act_inv hclear
          have hrecord : t₂.clients c = { s.clients c with
              currentMsg := (s.clients c).currentMsg ++ piece } := by
            rw [← hR₁.clients]
            cases he₁
            exact Function.update_self _ _ _
          have hcleared : t₅.clients c =
              { t₃.clients c with currentMsg := [] } := by
            rw [← hR₄.clients]
            cases he₄
            exact Function.update_self _ _ _
          have huse := exec_routeInUse hroute (by rw [hrecord]; exact hlive)
          rw [hrecord] at huse
          rw [List.forall_mem_cons]
          cases hmsg : isExit ((s.clients c).currentMsg ++ piece) with
          | true =>
              have hfree : (t₅.clients c).inUse = false := by
                rw [hcleared]
                simpa [hmsg] using huse
              simp [exec_loopFree hrest hfree]
          | false =>
              have hlive₅ : (t₅.clients c).inUse = true := by
                rw [hcleared]
                simpa [hmsg] using huse
              have hiff := ih rest t₅ s' steps₃ (by omega) hlive₅ hrest
              rw [hcleared] at hiff
              simpa using hiff

/-- The same for what `recv` returned. -/
theorem received_inUse (hlive : (s.clients c).inUse = true)
    (h : Prog.Exec exec (Others c.worker)
      (readAndProcessClientMessage c (.data chunk)) s steps () s') :
    (s'.clients c).inUse = true ↔
      ∀ m ∈ messages (s.clients c).currentMsg chunk, isExit m = false :=
  exec_loopInUse _ _ _ _ _ (Nat.lt_succ_self _) hlive h

/-- What is handed over and what is carried over. -/
theorem received_feed
    (h : Prog.Exec exec (Others c.worker)
      (readAndProcessClientMessage c (.data chunk)) s steps () s') :
    routedTo c steps = messages (s.clients c).currentMsg chunk ∧
      (s'.clients c).currentMsg =
        (Delimited.feed cr lf (s.clients c).currentMsg (cString chunk)).2 := by
  have hkeeps : Prog.Exec exec (Keeps c)
      (readAndProcessClientMessage c (.data chunk)) s steps () s' :=
    h.mono fun _ _ hR => hR.keeps
  obtain ⟨hrouted, -, hcarry⟩ :=
    exec_messageLoop _ _ _ _ _ _ (Nat.lt_succ_self _) hkeeps
  exact ⟨hrouted, hcarry⟩

/-! ## What is carried over -/

/-- If the client is still connected, nothing is carried over, and a frame that
arrives next in its own chunk is handed over as it was sent. -/
def Resynchronised (c : ClientPtr N C) (s : State N C) : Prop :=
  (s.clients c).inUse = true →
    (s.clients c).currentMsg = [] ∧
      ∀ (msg : Bytes) (t t' : State N C) (steps : Steps N C), 0 ∉ msg →
        Delimited.Free cr lf msg → Others c.worker s t →
        Prog.Exec exec (Others c.worker)
          (readAndProcessClientMessage c (.data (msg ++ msgTerminator))) t
          steps () t' →
        routedTo c steps = [msg]

/-- What the string functions see of the chunk ends in a terminator, or nothing
was there and nothing comes, or the chunk disconnects the client. -/
def ClearEnd (c : ClientPtr N C) (s : State N C) (chunk : Bytes) : Prop :=
  msgTerminator <:+ cString chunk ∨
    ((s.clients c).currentMsg = [] ∧ cString chunk = []) ∨
    ∃ m ∈ messages (s.clients c).currentMsg chunk, isExit m = true

/-- A frame on its own, nothing being carried over. -/
theorem routedTo_frame {msg : Bytes} (hempty : (s.clients c).currentMsg = [])
    (hnul : 0 ∉ msg) (hfree : Delimited.Free cr lf msg)
    (h : Prog.Exec exec (Others c.worker)
      (readAndProcessClientMessage c (.data (msg ++ msgTerminator))) s steps ()
      s') : routedTo c steps = [msg] := by
  have hchunk : cString (msg ++ msgTerminator) = msg ++ msgTerminator := by
    apply cString_of_not_mem
    rw [List.mem_append]
    rintro (hmem | hmem)
    · exact hnul hmem
    · exact absurd hmem (by decide)
  have hpieces : Delimited.pieces cr lf (msg ++ msgTerminator) = ([msg], []) :=
    Delimited.pieces_append_delim
      (Delimited.free_snoc (by decide) hfree) []
  rw [(received_feed h).1, messages, hchunk, hempty]
  simp [Delimited.feed, hpieces]

/-- **Resynchronisation.**  A chunk leaves nothing behind that could spoil the next
frame if and only if it ends in a terminator up to its first NUL, or there was
nothing at all, or it disconnects the client. -/
theorem resynchronised_iff (hlive : (s.clients c).inUse = true)
    (h : Prog.Exec exec (Others c.worker)
      (readAndProcessClientMessage c (.data chunk)) s steps () s') :
    Resynchronised c s' ↔ ClearEnd c s chunk := by
  have huse := received_inUse hlive h
  have hcarry := (received_feed h).2
  have hempty : (Delimited.feed cr lf (s.clients c).currentMsg
        (cString chunk)).2 = [] ↔
      (s.clients c).currentMsg = [] ∧ cString chunk = [] ∨
        [cr, lf] <:+ cString chunk :=
    Delimited.feed_snd_eq_nil_iff (by decide)
  rw [← hcarry] at hempty
  constructor
  · intro hsync
    by_cases hexit : ∃ m ∈ messages (s.clients c).currentMsg chunk,
        isExit m = true
    · exact .inr (.inr hexit)
    · have hstays : (s'.clients c).inUse = true := by
        rw [huse]
        intro m hm
        rw [← Bool.not_eq_true]
        exact fun hm' => hexit ⟨m, hm, hm'⟩
      rcases hempty.mp (hsync hstays).1 with hnothing | hend
      · exact .inr (.inl hnothing)
      · exact .inl hend
  · intro hclear hstays
    have hnil : (s'.clients c).currentMsg = [] := by
      rw [hempty]
      rcases hclear with hend | hnothing | ⟨m, hm, hexit⟩
      · exact .inr hend
      · exact .inl hnothing
      · rw [huse.mp hstays m hm] at hexit
        cases hexit
    refine ⟨hnil, ?_⟩
    intro msg t t' steps hnul hfree hR hnext
    refine routedTo_frame ?_ hnul hfree hnext
    rw [hR.clients]
    exact hnil

/-- A bad frame of the first client, complete. -/
theorem resynchronised_garbage : ∃ (s s' : RealState) (steps : Steps _ _),
    play (State.init _ _) (connects 0) = some s ∧
      Prog.Exec exec (Others (workerOf 0)) (readAndProcessClientMessage
        (clientOf 0) (.data (text "garbage\r\n"))) s steps () s' ∧
      Resynchronised (clientOf 0) s' := by
  have hplay : (play (State.init maxThreads maxClientsPerThread)
      (connects 0)).map (fun s => (s.clients (clientOf 0)).inUse) =
        some true := by decide +kernel
  obtain ⟨s, hs, hlive⟩ := Option.map_eq_some_iff.mp hplay
  obtain ⟨steps, s', hexec⟩ := exists_received (Others.refl (workerOf 0))
    (clientOf 0) (text "garbage\r\n") s
  have hend : msgTerminator <:+ cString (text "garbage\r\n") := by decide
  exact ⟨s, s', steps, hs, hexec,
    (resynchronised_iff hlive hexec).mpr (.inl hend)⟩

/-- A NUL before the terminator: what stands before it stays. -/
theorem not_resynchronised_nul : ¬ ∀ (ls : List (Step _ _))
    (k : Configuration maxThreads maxClientsPerThread) (c : ClientPtr _ _)
    (chunk : Bytes) (steps : Steps _ _) (s' : RealState),
    (server _ _).Run LiveOk (Configuration.init _ _) ls k →
      k.prog (.worker c.worker) = .ret () →
      (k.shared.clients c).inUse = true → ChunkOk chunk →
      msgTerminator <:+ chunk →
      Prog.Exec exec (Others c.worker)
        (readAndProcessClientMessage c (.data chunk)) k.shared steps () s' →
      (s'.clients c).inUse = true → (s'.clients c).currentMsg = [] := by
  intro hall
  have hplay : (play (State.init maxThreads maxClientsPerThread)
      (connects 0)).map (fun s => ((s.clients (clientOf 0)).inUse,
        (s.clients (clientOf 0)).currentMsg)) =
        some (true, []) := by decide +kernel
  obtain ⟨s, hs, hstart⟩ := Option.map_eq_some_iff.mp hplay
  obtain ⟨hlive, hempty⟩ := Prod.mk.inj hstart
  obtain ⟨ls, hrun⟩ := play_live hs
  obtain ⟨steps, s', hexec⟩ := exists_received (Others.refl (workerOf 0))
    (clientOf 0) (text "x\x00\r\n") s
  have hstays : (s'.clients (clientOf 0)).inUse = true := by
    rw [received_inUse hlive hexec, hempty]
    decide
  have hnil := hall ls _ (clientOf 0) _ steps s' hrun rfl hlive (by decide)
    (by decide) hexec hstays
  have hcarry := (received_feed (c := clientOf 0) hexec).2
  rw [hnil, hempty] at hcarry
  revert hcarry
  decide

end ChatApp.Server
