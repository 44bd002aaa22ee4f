import ChatApp.Server.Atomicity

/-!
# What the members of rooms are sent

Every interleaving of the accesses is tied to a run of whole sections, whose log
of events says what each connection is told.  What a connection has been sent of
room traffic is a beginning of what it is told, so that the laws of the log are
laws of the frames.
-/

namespace ChatApp.Server

open ChatApp.Foundation

variable {N C : Nat} [NeZero N]

/-! ## Brackets -/

/-- A visit to a room as a client sees it, each frame with the room in whose
section it was sent. -/
def trafficStages : Stages (Fin maxRooms) Traffic :=
  { enters := fun i x => x = (some i, .founded ()) ∨ x = (some i, .joined ())
    inside := fun i x => ∃ msg, x = (some i, .notice () msg)
    leaves := fun i x => x = (some i, .left ()) }

/-- What a connection is told, as the frames that tell it, is one visit after the
other. -/
theorem visits_told {log : List (Event (Fin maxRooms) Conn Bytes)}
    (h : Valid log) (q : Conn) :
    ∃ visits : List (List Traffic), (∀ v ∈ visits, trafficStages.Visit v) ∧
      (told log q).map traffic <+: visits.flatten := by
  have hleave : ∀ i, ∃ x, (toldStages (Fin maxRooms) Bytes).leaves i x :=
    fun i => ⟨.left i, rfl⟩
  obtain ⟨visits, hvisits, hprefix⟩ := (follows_told h q).begins hleave
  refine ⟨visits.map (List.map traffic), ?_, ?_⟩
  · intro v hv
    obtain ⟨w, hw, rfl⟩ := List.mem_map.mp hv
    apply (hvisits w hw).map
    · rintro i x (rfl | rfl)
      · exact .inl rfl
      · exact .inr rfl
    · rintro i x ⟨msg, rfl⟩
      exact ⟨msg, rfl⟩
    · rintro i x rfl
      rfl
  · rw [← List.map_flatten]
    exact hprefix.map traffic

variable {ls : List (CodeStep N C)} {k : CodeConfiguration N C}

/-- What a connection has been sent is a beginning of what it is told. -/
theorem traffic_begins
    (hrun : (codeServer N C).Run CodeOk (CodeConfiguration.init N C) ls k) :
    ∃ log, Valid log ∧ ∀ q,
      codeTraffic q k.shared.state.calls <+: (told log q).map traffic := by
  obtain ⟨ls₀, c, phases, hrun₀, hcoupled⟩ := coupled_run hrun
  refine ⟨c.shared.events, (good_run hrun₀).1.valid, fun q => ?_⟩
  obtain ⟨t, ht, -⟩ := hcoupled.rel.traffic q
  have hsent : codeTraffic q k.shared.state.calls <+:
      (delivered c.shared q).map traffic := by
    rw [ht]
    exact List.prefix_append _ _
  exact hsent.trans ((List.take_prefix _ _).map traffic)

/-- **Brackets**: at any moment the room traffic a connection has been sent
begins a sequence of visits, each the confirmation of entering one room, messages
sent in the section of that room, and the confirmation of leaving it. -/
theorem brackets_run
    (hrun : (codeServer N C).Run CodeOk (CodeConfiguration.init N C) ls k)
    (q : Conn) :
    ∃ visits : List (List Traffic), (∀ v ∈ visits, trafficStages.Visit v) ∧
      codeTraffic q k.shared.state.calls <+: visits.flatten := by
  obtain ⟨log, hlog, hbegins⟩ := traffic_begins hrun
  obtain ⟨visits, hvisits, hprefix⟩ := visits_told hlog q
  exact ⟨visits, hvisits, (hbegins q).trans hprefix⟩

/-- One client opens a room that another one joins, speaks in and leaves; then
the first one leaves, too. -/
theorem brackets_bob : ∃ ls k,
    (codeServer maxThreads maxClientsPerThread).Run CodeOk
        (CodeConfiguration.init _ _) ls k ∧
      codeTraffic 0 k.shared.state.calls =
        [(some 0, .founded ()),
          (some 0, .notice () (text "eve has entered the room\n")),
          (some 0, .notice () (text "eve: hi")),
          (some 0, .notice () (text "eve left the room\n")),
          (some 0, .left ())] ∧
      ∃ visits : List (List Traffic), (∀ v ∈ visits, trafficStages.Visit v) ∧
        codeTraffic 0 k.shared.state.calls <+: visits.flatten := by
  have hplay : ((playCode (N := maxThreads) (C := maxClientsPerThread)
      (opensRoom 0 (text "bob") (text "den") ++ connects 1 ++
        [sends 1 (frame cmdUsernameSubmit (text "eve")),
          sends 1 (frame cmdRoomJoinRequest (text "0")),
          sends 1 (frame cmdRoomMessageSend (text "hi")),
          sends 1 (frame cmdLeaveRoom (text "x")),
          sends 0 (frame cmdLeaveRoom (text "x"))])).map
        fun g => codeTraffic 0 g.state.calls) = some
        [(some 0, .founded ()),
          (some 0, .notice () (text "eve has entered the room\n")),
          (some 0, .notice () (text "eve: hi")),
          (some 0, .notice () (text "eve left the room\n")),
          (some 0, .left ())] := by
    decide +kernel
  obtain ⟨g, hg, htraffic⟩ := Option.map_eq_some_iff.mp hplay
  obtain ⟨ls, hrun⟩ := playCode_reaches hg
  exact ⟨ls, _, hrun, htraffic, brackets_run hrun 0⟩

end ChatApp.Server
