import ChatApp.Server.System

/-!
# Jobs handled one after the other

`play` lets the threads handle a list of jobs, each to its end before the next
one starts, and checks that every job may start.  It computes, so reachable
states can be exhibited; `play_run` makes them states of a run.
-/

namespace ChatApp.Server

open ChatApp.Foundation

variable {N C : Nat}

/-- The decidable form of `LiveOk` for the start of a job. -/
def startOk (s : State N C) : Thread N → Job N C → Bool
  | t, .receive client result =>
      decide (t = .worker client.worker) && (s.clients client).inUse &&
        match result with
        | .nothing _ => true
        | .data bytes =>
            decide (1 ≤ bytes.length) &&
              decide (bytes.length ≤ maxMessageLenToServer) &&
              decide (ExitsLast (messages (s.clients client).currentMsg bytes))
  | t, .hangUp client =>
      decide (t = .worker client.worker) && (s.clients client).inUse
  | _, _ => true

theorem liveOk_of_startOk {s : State N C} {t : Thread N} {j : Job N C}
    (h : startOk s t j = true) : LiveOk s (.start t j) := by
  cases j with
  | accept fd keepAliveOk writeOk =>
      exact ⟨trivial, fun _ _ _ hj => by cases hj⟩
  | register readOk epollOk =>
      exact ⟨trivial, fun _ _ _ hj => by cases hj⟩
  | hangUp client =>
      simp only [startOk, Bool.and_eq_true, decide_eq_true_eq] at h
      exact ⟨h, fun _ _ _ hj => by cases hj⟩
  | receive client result =>
      cases result with
      | nothing wouldBlock =>
          simp only [startOk, Bool.and_eq_true, decide_eq_true_eq,
            and_true] at h
          exact ⟨⟨h, fun _ hb => by cases hb⟩, fun _ _ _ hj => by cases hj⟩
      | data bytes =>
          simp only [startOk, Bool.and_eq_true, decide_eq_true_eq] at h
          have hchunk : ∀ b, RecvResult.data bytes = .data b → ChunkOk b := by
            intro b hb
            cases hb
            exact h.2.1
          refine ⟨⟨h.1, hchunk⟩, ?_⟩
          intro t' client' bytes' hj
          cases hj
          exact h.2.2

/-- The actions, without the failing reads of an eventfd. -/
def execReads (a : Act N C) (s : State N C) :
    Option (a.Answer × State N C) :=
  match a with
  | .readEventfd _ false => none
  | a => exec a s

theorem exec_of_execReads {a : Act N C} {s : State N C}
    {out : a.Answer × State N C} (h : execReads a s = some out)
    (t : Thread N) :
    exec a s = some out ∧ ReadsSucceed s (.act t a) := by
  have hlive : LiveOk s (.act t a) :=
    ⟨trivial, fun _ _ _ hj => by cases hj⟩
  unfold execReads at h
  split at h
  · cases h
  · rename_i hread
    refine ⟨h, hlive, ?_⟩
    intro t' w hw
    cases hw
    exact hread w rfl

/-- Handle the jobs one after the other with the actions that `exec'` allows;
`none` when one may not start or cannot be finished. -/
def playBy
    (exec' : (a : Act N C) → State N C → Option (a.Answer × State N C))
    (s : State N C) : List (Thread N × Job N C) → Option (State N C)
  | [] => some s
  | (t, j) :: rest =>
      if startOk s t j then
        (Prog.run exec' (jobProg t j) s).bind fun out =>
          playBy exec' out.2 rest
      else none

/-- Handle the jobs one after the other, no read of an eventfd failing. -/
def play (s : State N C) (jobs : List (Thread N × Job N C)) :
    Option (State N C) :=
  playBy execReads s jobs

/-- No thread has anything to do. -/
def quiet (s : State N C) : Configuration N C :=
  ⟨s, fun _ => .ret ()⟩

theorem playBy_eq
    (exec' : (a : Act N C) → State N C → Option (a.Answer × State N C))
    (jobs : List (Thread N × Job N C)) :
    ∀ s, playBy exec' s jobs = (server N C).play exec' startOk s jobs := by
  induction jobs with
  | nil => exact fun _ => rfl
  | cons job rest ih =>
      intro s
      simp only [playBy, System.play, ih]
      rfl

theorem playBy_run {ok : State N C → Step N C → Prop}
    {exec' : (a : Act N C) → State N C → Option (a.Answer × State N C)}
    (hexec : ∀ t a s out, exec' a s = some out →
      exec a s = some out ∧ ok s (.act t a))
    (hstart : ∀ s t j, startOk s t j = true → ok s (.start t j))
    (jobs : List (Thread N × Job N C)) {s s' : State N C}
    (h : playBy exec' s jobs = some s') :
    ∃ ls, (server N C).Run ok (quiet s) ls (quiet s') := by
  rw [playBy_eq] at h
  exact System.play_run hexec hstart jobs h

theorem reads_of_startOk {s : State N C} {t : Thread N} {j : Job N C}
    (h : startOk s t j = true) : ReadsSucceed s (.start t j) :=
  ⟨liveOk_of_startOk h, fun _ _ heq => by cases heq⟩

theorem play_run (jobs : List (Thread N × Job N C)) {s s' : State N C}
    (h : play s jobs = some s') :
    ∃ ls, (server N C).Run ReadsSucceed (quiet s) ls (quiet s') :=
  playBy_run (fun t _ _ _ he => exec_of_execReads he t)
    (fun _ _ _ => reads_of_startOk) jobs h

theorem play_append {s s₁ s₂ : State N C}
    {jobs jobs' : List (Thread N × Job N C)}
    (h : play s jobs = some s₁) (h' : play s₁ jobs' = some s₂) :
    play s (jobs ++ jobs') = some s₂ := by
  unfold play at *
  induction jobs generalizing s with
  | nil =>
      cases h
      exact h'
  | cons job rest ih =>
      obtain ⟨t, j⟩ := job
      simp only [playBy, List.cons_append] at h ⊢
      split at h
      case isFalse => cases h
      case isTrue hok =>
        rw [if_pos hok]
        rw [Option.bind_eq_some_iff] at h ⊢
        obtain ⟨out, hrun, hrest⟩ := h
        exact ⟨out, hrun, ih hrest⟩

/-- One job handled to its end. -/
theorem play_one {s s' : State N C} {t : Thread N} {j : Job N C}
    (hok : startOk s t j = true)
    (hrun : Prog.run execReads (jobProg t j) s = some ((), s')) :
    play s [(t, j)] = some s' := by
  simp [play, playBy, hok, hrun]

theorem play_reaches [NeZero N] {jobs : List (Thread N × Job N C)}
    {s : State N C} (h : play (State.init N C) jobs = some s) :
    ∃ ls, (server N C).Run ReadsSucceed (Configuration.init N C) ls
      (quiet s) :=
  play_run jobs h

theorem play_live [NeZero N] {jobs : List (Thread N × Job N C)}
    {s : State N C} (h : play (State.init N C) jobs = some s) :
    ∃ ls, (server N C).Run LiveOk (Configuration.init N C) ls (quiet s) := by
  obtain ⟨ls, hrun⟩ := play_reaches h
  exact ⟨ls, hrun.mono fun _ _ hok => hok.1⟩

/-! ## Scripts

A script interleaves the jobs: a thread is given a job, or performs some of
its actions. -/

/-- The decidable form of `EventOk` for the start of a job. -/
def mayStart (s : State N C) (t : Thread N) : Job N C → Bool
  | .receive client result =>
      decide (t = .worker client.worker) && (s.clients client).inUse &&
        match result with
        | .nothing _ => true
        | .data bytes => decide (ChunkOk bytes)
  | .hangUp client =>
      decide (t = .worker client.worker) && (s.clients client).inUse
  | _ => true

theorem countersRead_of_mayStart {s : State N C} {t : Thread N} {j : Job N C}
    (h : mayStart s t j = true) : CountersRead s (.start t j) := by
  refine ⟨?_, fun _ _ hj => by cases hj⟩
  cases j with
  | accept fd keepAliveOk writeOk => trivial
  | register readOk epollOk => trivial
  | hangUp client =>
      simp only [mayStart, Bool.and_eq_true, decide_eq_true_eq] at h
      exact h
  | receive client result =>
      cases result with
      | nothing wouldBlock =>
          simp only [mayStart, Bool.and_eq_true, decide_eq_true_eq,
            and_true] at h
          exact ⟨h, fun _ hb => by cases hb⟩
      | data bytes =>
          simp only [mayStart, Bool.and_eq_true, decide_eq_true_eq] at h
          refine ⟨h.1, fun b hb => ?_⟩
          cases hb
          exact h.2

/-- The cues by which threads handle the jobs to their ends. -/
def finishing (jobs : List (Thread N × Job N C)) :
    List (System.Cue (Thread N) (Job N C)) :=
  jobs.flatMap fun job => [.give job.1 job.2, .act job.1 1000]

/-- Follow a script, `start` saying which jobs may start and no read of an
eventfd failing. -/
def follow {E : Type} (start : State N C → Thread N → Job N C → Bool)
    (log : State N C → Step N C → List E)
    (cues : List (System.Cue (Thread N) (Job N C))) (k : Configuration N C) :
    Option (List E × Configuration N C) :=
  (server N C).script execReads start log cues k

theorem follow_logged {E : Type} {ok : State N C → Step N C → Prop}
    {start : State N C → Thread N → Job N C → Bool}
    {log : State N C → Step N C → List E}
    {cues : List (System.Cue (Thread N) (Job N C))}
    {k₀ k k' : Configuration N C} {es es' : List E}
    (hact : ∀ s t a, ReadsSucceed s (.act t a) → ok s (.act t a))
    (hstart : ∀ s t j, start s t j = true → ok s (.start t j))
    (h : (server N C).Logged ok log k₀ es k)
    (hfollow : follow start log cues k = some (es', k')) :
    (server N C).Logged ok log k₀ (es ++ es') k' := by
  have hexec : ∀ t (a : Act N C) s out, execReads a s = some out →
      exec a s = some out ∧ ok s (.act t a) := by
    intro t a s out he
    obtain ⟨hexec, hok⟩ := exec_of_execReads he t
    exact ⟨hexec, hact s t a hok⟩
  exact h.script hexec hstart cues hfollow

/-- A script whose jobs are of live clients. -/
theorem follow_reaches [NeZero N]
    {cues : List (System.Cue (Thread N) (Job N C))} {k : Configuration N C}
    {es : List Unit}
    (h : follow startOk (fun _ _ => []) cues (Configuration.init N C) =
      some (es, k)) :
    ∃ ls, (server N C).Run ReadsSucceed (Configuration.init N C) ls k :=
  (follow_logged (fun _ _ _ hok => hok) (fun _ _ _ => reads_of_startOk) .nil
    h).run

/-- A script whose jobs are any that the events allow. -/
theorem follow_counters {E : Type} {log : State N C → Step N C → List E}
    {cues : List (System.Cue (Thread N) (Job N C))}
    {k₀ k k' : Configuration N C} {es es' : List E}
    (h : (server N C).Logged CountersRead log k₀ es k)
    (hfollow : follow mayStart log cues k = some (es', k')) :
    (server N C).Logged CountersRead log k₀ (es ++ es') k' :=
  follow_logged (fun _ _ _ hok => hok.counters)
    (fun _ _ _ => countersRead_of_mayStart) h hfollow

/-- Threads other than worker `w` handle jobs. -/
def Meanwhile (w : Fin N) (s s' : State N C) : Prop :=
  ∃ jobs, (∀ job ∈ jobs, job.1 ≠ .worker w) ∧ play s jobs = some s'

theorem Meanwhile.refl (w : Fin N) (s : State N C) : Meanwhile w s s :=
  ⟨[], fun _ hmem => absurd hmem List.not_mem_nil, rfl⟩

theorem Meanwhile.trans {w : Fin N} {s₁ s₂ s₃ : State N C}
    (h : Meanwhile w s₁ s₂) (h' : Meanwhile w s₂ s₃) : Meanwhile w s₁ s₃ := by
  obtain ⟨jobs, hothers, hplay⟩ := h
  obtain ⟨jobs', hothers', hplay'⟩ := h'
  refine ⟨jobs ++ jobs', fun job hmem => ?_, play_append hplay hplay'⟩
  exact (List.mem_append.mp hmem).elim (hothers job) (hothers' job)

theorem Meanwhile.one {w : Fin N} {s s' : State N C} {t : Thread N} {j : Job N C}
    (ht : t ≠ .worker w) (h : play s [(t, j)] = some s') : Meanwhile w s s' := by
  refine ⟨_, fun job hmem => ?_, h⟩
  cases List.mem_singleton.mp hmem
  exact ht

/-! ## The first clients of the real server -/

instance : NeZero maxThreads := ⟨by decide⟩

instance : NeZero maxRooms := ⟨by decide⟩

instance : NeZero maxClientsRoom := ⟨by decide⟩

/-- The state of the server with its own constants. -/
abbrev RealState : Type := State maxThreads maxClientsPerThread

/-- The worker that the `n`-th connection is distributed to. -/
def workerOf (n : Nat) : Fin maxThreads :=
  ⟨n % maxThreads, Nat.mod_lt _ (by decide)⟩

/-- The slot that the `n`-th connection is given. -/
def clientOf (n : Nat) : ClientPtr maxThreads maxClientsPerThread :=
  ⟨workerOf n, ⟨n / maxThreads % maxClientsPerThread,
    Nat.mod_lt _ (by decide)⟩⟩

/-- The `n`-th client sends one chunk. -/
def sends (n : Nat) (chunk : Bytes) :
    Thread maxThreads × Job maxThreads maxClientsPerThread :=
  (.worker (workerOf n), .receive (clientOf n) (.data chunk))

/-- The `n`-th connection is accepted as descriptor `n + 5` and handed
over. -/
def connects (n : Nat) :
    List (Thread maxThreads × Job maxThreads maxClientsPerThread) :=
  [(.main, .accept (n + 5) true true),
    (.worker (workerOf n), .register true true)]

/-- A frame as a client sends it. -/
def frame (cmd : UInt8) (body : Bytes) : Bytes :=
  cmd :: space :: body ++ msgTerminator

/-- The `n`-th client connects, submits a username and creates a room. -/
def opensRoom (n : Nat) (username roomName : Bytes) :
    List (Thread maxThreads × Job maxThreads maxClientsPerThread) :=
  connects n ++
    [sends n (frame cmdUsernameSubmit username),
      sends n (frame cmdRoomCreateRequest roomName)]

end ChatApp.Server
