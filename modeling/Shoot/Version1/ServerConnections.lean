import Shoot.Version1.ServerTables

/-!
# The life of a connection

A connection is registered with `EPOLLONESHOT`, and nothing registers it again:
`epoll_event_mod` is never called. So it is reported once, and whatever it
sends later is not read: in every run a connection gets at most one task, and no
two tasks are about the same request (`Server.served_once`).

What ends a connection is its timer. It is added with the request, in the same
call, and never marked or taken away, and its handler deletes the request as it
leaves the heap. So the requests that are allocated are those that have a timer,
one each (`Server.timer_iff`), and the main thread has no way to leak one or to
delete it twice. It is also why the number of connections is bounded by the heap:
a run ends with an overflow when 1023 requests wait for their timers.
-/

namespace Version1

namespace Server

variable {listenFd : ℕ} {s s' : Server} {e : ServerEvent}

/-! ## What two of the steps need -/

/-- A report is one of a registration that is armed. -/
theorem of_step_ready {fd : Fd} {mask : EventMask}
    (h : step listenFd s (.ready fd mask) = some s') :
    ∃ events i, s.phase = .waiting events ∧ s.epoll fd = some i ∧ i.armed = true
      ∧ i.data ∉ events.map EpollEvent.ptr
      ∧ s' = { s with
          epoll := Function.update s.epoll fd (some i.delivered)
          edge := s.edge && fd != listenFd
          phase := .waiting (events ++ [⟨mask, i.data⟩]) } := by
  obtain ⟨-, h⟩ := Option.ite_none_right_eq_some.mp h
  rw [move] at h
  split at h
  · obtain ⟨⟨-, -, -, hnew⟩, h⟩ := Option.ite_none_right_eq_some.mp h
    cases h
    obtain ⟨i, hi, ha, -, hd, hK⟩ := EpollSet.deliver_eq_some ‹_›
    subst hd hK
    exact ⟨_, i, ‹_›, hi, ha, hnew, rfl⟩
  · cases h

/-- What is registered after a call of `accept_connection` was before, or is the new
request, for one report. -/
theorem epoll_acceptConnection (hwf : Wf listenFd s) {ret : Option ℕ} {phase : Phase}
    (hret : ∀ fd ∈ ret, s.files (fd : Fd) = none) {tv : Option Timeval} {fd : Fd}
    {i : Interest ℕ}
    (hi : (({ s with phase := phase } : Server).acceptConnection ret tv).epoll fd = some i) :
    s.epoll fd = some i
      ∨ (i.events = epollIn ||| epollEt ||| epollOneshot ∧ i.data = s.next) := by
  have hepoll : (({ s with phase := phase } : Server).acceptConnection ret tv).epoll
      = ((({ s with phase := phase } : Server).accept ret).epollEventAdd (acceptFd ret) s.next
        (epollIn ||| epollEt ||| epollOneshot)).epoll := by
    unfold acceptConnection timeNAdd
    split <;> rfl
  have haccept : (({ s with phase := phase } : Server).accept ret).epoll = s.epoll := by
    cases ret <;> rfl
  rw [hepoll] at hi
  unfold epollEventAdd at hi
  split at hi
  · rename_i hopen
    cases ret with
    | none =>
      obtain ⟨o, ho⟩ := Option.isSome_iff_exists.mp hopen
      exact absurd (hwf.opened _ o ho) (by decide)
    | some n =>
      have hnone : s.epoll (n : Fd) = none := by
        refine Option.eq_none_iff_forall_ne_some.mpr fun j hj => ?_
        rcases hwf.registered _ j hj with ⟨hl, -⟩ | hf
        · exact absurd (hwf.listening.symm.trans (hl ▸ hret n rfl)) (by simp)
        · exact absurd (hf.symm.trans (hret n rfl)) (by simp)
      have hadd : s.epoll.ctl .add (n : Fd) (epollIn ||| epollEt ||| epollOneshot) s.next fd
          = some i := hi
      rw [EpollSet.ctl_add hnone] at hadd
      rcases update_some_eq_some.mp hadd with ⟨-, rfl⟩ | ⟨-, hj⟩
      · exact Or.inr ⟨rfl, rfl⟩
      · exact Or.inl hj
  · rw [haccept] at hi
    exact Or.inl hi

/-- A turn of the timers, while none is marked and all of them close connections:
the loop ends, or the top is popped and its request closed. -/
theorem of_step_expireTurn {tv : Option Timeval} (hwf : Wf listenFd s)
    (hmark : ∀ n ∈ s.time.pq.nodes, s.time.deleted n.ptr = false)
    (h : step listenFd s (.expireTurn tv) = some s') :
    ∃ events, s.phase = .expiring events
      ∧ ((∃ u, s' = { s with time := s.time.timeUpdate u, phase := .handling events })
        ∨ (s.time.Due tv ∧ s' = (({ s with
            time := { s.time.timeUpdate tv with pq := s.time.pq.pqPop TimeNode.key } }
            : Server).closeConn s.time.pq.pqFront.request))) := by
  obtain ⟨-, h⟩ := Option.ite_none_right_eq_some.mp h
  rw [move] at h
  split at h
  case h_2 => cases h
  case h_1 events hphase =>
    cases h
    refine ⟨events, hphase, ?_⟩
    unfold Server.expireTurn
    rcases s.time.expireTurn_cases tv with ⟨-, ht⟩ | ⟨-, -, -, ht⟩ | ⟨hsize, hdel, -⟩
      | ⟨hdue, ht⟩
    · rw [ht]
      exact Or.inl ⟨none, rfl⟩
    · rw [ht]
      exact Or.inl ⟨tv, rfl⟩
    · exact absurd (hdel.symm.trans (hmark _ (PriorityQueue.pqFront_mem hsize))) (by simp)
    · rw [ht]
      dsimp only
      rw [hwf.handlers _ (PriorityQueue.pqFront_mem hdue.1)]
      exact Or.inr ⟨hdue, rfl⟩

/-! ## One task for each connection -/

/-- What a step puts into the queue of tasks. -/
def recordTasks (s : Server) (e : ServerEvent) (l : List ℕ) : List ℕ :=
  match e with
  | .dispatch =>
    match s.phase with
    | .handling (a :: _) =>
      match s.requests a.ptr with
      | some _ => if hungUp a.events then l else l ++ [a.ptr]
      | none => l
    | _ => l
  | _ => l

/-- The requests that were put into the queue of tasks in a run, in order. -/
def taskLog (listenFd : ℕ) (others : List ℕ) (waiting : ℕ) (heap : ℕ → TimeNode ℕ Handler)
    (currentTime : ℕ) (tr : List ServerEvent) : List ℕ :=
  (machine listenFd others waiting heap currentTime).history recordTasks
    (start listenFd others waiting heap currentTime) [] tr

/-- The requests of the tasks, the one that runs first. -/
def tasks (s : Server) : List ℕ := (s.running.map RunningTask.request).toList ++ s.tq

/-- **A connection is on its way to its task, or was.** It is registered and armed, or
in the events to handle, or in the log `l`, and only one of these. -/
structure Served (s : Server) (l : List ℕ) : Prop where
  nodup : l.Nodup
  below : ∀ r ∈ l, r ≠ 0 ∧ r < s.next
  tasks : s.tasks.Nodup ∧ ∀ r ∈ s.tasks, r ∈ l
  events : ∀ r ∈ s.phase.events.map EpollEvent.ptr, r ∉ l ∧ r < s.next
  idle : ∀ fd i, s.epoll fd = some i → i.data ≠ 0 → i.events.has epollOneshot = true
    ∧ (i.armed = true → i.data ∉ l ∧ i.data ∉ s.phase.events.map EpollEvent.ptr)

section Served

variable {l : List ℕ}

theorem served_start (others : List ℕ) (waiting : ℕ) (heap : ℕ → TimeNode ℕ Handler)
    (currentTime : ℕ) : Served (start listenFd others waiting heap currentTime) [] where
  nodup := List.nodup_nil
  below _ h := by cases h
  tasks := ⟨List.nodup_nil, fun _ h => by cases h⟩
  events _ h := by cases h
  idle fd i h hd := by
    rw [start] at h
    rcases update_some_eq_some.mp h with ⟨-, hi⟩ | ⟨-, h⟩
    · exact absurd (hi ▸ rfl) hd
    · cases h

/-- A step that puts nothing into the queue, and after which there is no further
registration and no further event. -/
theorem Served.mono (h : Served s l) (hnext : s.next ≤ s'.next)
    (htasks : s'.tasks.Sublist s.tasks)
    (hevents : ∀ r ∈ s'.phase.events.map EpollEvent.ptr, r ∈ s.phase.events.map EpollEvent.ptr)
    (hepoll : ∀ fd i, s'.epoll fd = some i → s.epoll fd = some i) : Served s' l where
  nodup := h.nodup
  below r hr := ⟨(h.below r hr).1, Nat.lt_of_lt_of_le (h.below r hr).2 hnext⟩
  tasks := ⟨h.tasks.1.sublist htasks, fun r hr => h.tasks.2 r (htasks.subset hr)⟩
  events r hr := by
    obtain ⟨hl, hlt⟩ := h.events r (hevents r hr)
    exact ⟨hl, Nat.lt_of_lt_of_le hlt hnext⟩
  idle fd i hi hd := by
    obtain ⟨hone, harmed⟩ := h.idle fd i (hepoll fd i hi) hd
    exact ⟨hone, fun ha => ⟨(harmed ha).1, fun hm => (harmed ha).2 (hevents _ hm)⟩⟩

/-- **A connection is reported**, and not again. -/
theorem Served.ready (hwf : Wf listenFd s) (h : Served s l) {fd : Fd} {mask : EventMask}
    {events : List EpollEvent} {i : Interest ℕ} {edge : Bool} (hphase : s.phase = .waiting events)
    (hi : s.epoll fd = some i) (ha : i.armed = true) :
    Served { s with
      epoll := Function.update s.epoll fd (some i.delivered)
      edge := edge
      phase := .waiting (events ++ [⟨mask, i.data⟩]) } l where
  nodup := h.nodup
  below := h.below
  tasks := h.tasks
  events r hr := by
    have hreq := hwf.requests_of_epoll hi
    simp only [Phase.events, List.map_append, List.mem_append, List.map_cons, List.map_nil,
      List.mem_singleton] at hr
    rcases hr with hr | rfl
    · exact h.events r (by rw [hphase]; exact hr)
    · refine ⟨fun hm => ?_, hwf.allocated _ _ hreq⟩
      exact ((h.idle fd i hi (h.below _ hm).1).2 ha).1 hm
  idle fd' j hj hd := by
    rcases update_some_eq_some.mp hj with ⟨rfl, rfl⟩ | ⟨hne, hj⟩
    · obtain ⟨hone, -⟩ := h.idle fd' i hi hd
      refine ⟨hone, fun hf => ?_⟩
      rw [Interest.delivered, show i.events.has epollOneshot = true from hone] at hf
      cases hf
    · obtain ⟨hone, harmed⟩ := h.idle fd' j hj hd
      refine ⟨hone, fun hf => ⟨(harmed hf).1, ?_⟩⟩
      simp only [Phase.events, List.map_append, List.mem_append, List.map_cons, List.map_nil,
        List.mem_singleton, not_or]
      refine ⟨fun hm => (harmed hf).2 (by rw [hphase]; exact hm), fun he => ?_⟩
      -- the address of a request is registered with its own descriptor
      have hreq := hwf.requests_of_epoll hi
      have hreq' := hwf.requests_of_epoll hj
      rw [he] at hreq'
      cases hreq.symm.trans hreq'
      exact hne rfl

/-- **A connection is accepted**: it is registered, armed and for one report, with an
address that was never used. -/
theorem Served.accept (hwf : Wf listenFd s) (h : Served s l) {a : EpollEvent}
    {rest : List EpollEvent} (hphase : s.phase = .handling (a :: rest)) {ret : Option ℕ}
    (hret : ∀ fd ∈ ret, s.files (fd : Fd) = none) (tv : Option Timeval) :
    Served (({ s with phase := .handling rest } : Server).acceptConnection ret tv) l := by
  have hrest : ∀ r ∈ rest.map EpollEvent.ptr, r ∈ s.phase.events.map EpollEvent.ptr := by
    intro r hr
    rw [hphase]
    exact List.mem_cons_of_mem _ hr
  have hfresh : s.next ∉ l ∧ s.next ∉ rest.map EpollEvent.ptr :=
    ⟨fun hm => Nat.lt_irrefl _ (h.below _ hm).2,
      fun hm => Nat.lt_irrefl _ (h.events _ (hrest _ hm)).2⟩
  refine ⟨h.nodup, fun r hr => ?_, ?_, fun r hr => ?_, fun fd i hi hd => ?_⟩
  · rw [next_acceptConnection]
    exact ⟨(h.below r hr).1, Nat.lt_succ_of_lt (h.below r hr).2⟩
  · unfold Server.tasks
    rw [running_acceptConnection, tq_acceptConnection]
    exact h.tasks
  · rw [phase_acceptConnection] at hr
    rw [next_acceptConnection]
    obtain ⟨hl, hlt⟩ := h.events r (hrest r hr)
    exact ⟨hl, Nat.lt_succ_of_lt hlt⟩
  · rw [phase_acceptConnection]
    rcases epoll_acceptConnection hwf hret hi with hi | ⟨hevents, hdata⟩
    · obtain ⟨hone, harmed⟩ := h.idle fd i hi hd
      exact ⟨hone, fun ha => ⟨(harmed ha).1, fun hm => (harmed ha).2 (hrest _ hm)⟩⟩
    · rw [hevents, hdata]
      exact ⟨by decide, fun _ => hfresh⟩

/-- **A connection gets its task.** Its event was its last one. -/
theorem Served.queued (hwf : Wf listenFd s) (h : Served s l) {a : EpollEvent}
    {rest : List EpollEvent} {fd : Fd} (hphase : s.phase = .handling (a :: rest))
    (hnodup : (s.phase.events.map EpollEvent.ptr).Nodup) (hfd : s.requests a.ptr = some fd)
    (hne : fd ≠ listenFd) :
    Served { s with tq := a.ptr :: s.tq, phase := .handling rest } (l ++ [a.ptr]) := by
  rw [hphase] at hnodup
  obtain ⟨hout, -⟩ := List.nodup_cons.mp hnodup
  obtain ⟨hnew, hlt⟩ := h.events a.ptr (by rw [hphase]; exact List.mem_cons_self)
  have h0 : a.ptr ≠ 0 := by
    intro h0
    rw [h0, hwf.listen] at hfd
    cases hfd
    exact hne rfl
  refine ⟨?_, fun r hr => ?_, ⟨?_, fun r hr => ?_⟩, fun r hr => ?_, fun fd i hi hd => ?_⟩
  · rw [← List.concat_eq_append]
    exact h.nodup.concat hnew
  · rcases List.mem_append.mp hr with hr | hr
    · exact h.below r hr
    · rw [List.mem_singleton.mp hr]
      exact ⟨h0, hlt⟩
  · have hperm : (Server.tasks { s with tq := a.ptr :: s.tq, phase := .handling rest }).Perm
        (a.ptr :: s.tasks) := List.perm_middle
    exact hperm.nodup_iff.mpr
      (List.nodup_cons.mpr ⟨fun hm => hnew (h.tasks.2 _ hm), h.tasks.1⟩)
  · rcases List.mem_append.mp hr with hr | hr
    · exact List.mem_append_left _ (h.tasks.2 r (List.mem_append_left _ hr))
    · rcases List.mem_cons.mp hr with rfl | hr
      · exact List.mem_append_right _ (List.mem_singleton_self _)
      · exact List.mem_append_left _ (h.tasks.2 r (List.mem_append_right _ hr))
  · obtain ⟨hl, hr'⟩ := h.events r (by rw [hphase]; exact List.mem_cons_of_mem _ hr)
    refine ⟨fun hm => ?_, hr'⟩
    rcases List.mem_append.mp hm with hm | hm
    · exact hl hm
    · exact hout (List.mem_singleton.mp hm ▸ hr)
  · obtain ⟨hone, harmed⟩ := h.idle fd i hi hd
    refine ⟨hone, fun ha => ⟨fun hm => ?_, fun hm => ?_⟩⟩
    · rcases List.mem_append.mp hm with hm | hm
      · exact (harmed ha).1 hm
      · refine (harmed ha).2 ?_
        rw [hphase, List.mem_singleton.mp hm]
        exact List.mem_cons_self
    · refine (harmed ha).2 ?_
      rw [hphase]
      exact List.mem_cons_of_mem _ hm

/-- The descriptor of a request is closed, and the registration with it. -/
theorem Served.closeConn (h : Served s l) (time : Time ℕ Handler) (r : ℕ) :
    Served (({ s with time := time } : Server).closeConn r) l := by
  unfold Server.closeConn
  split
  · exact h.mono (le_refl _) (List.Sublist.refl _) (fun _ hr => hr)
      fun fd i hi => (update_none_eq_some.mp hi).2
  · exact h.mono (le_refl _) (List.Sublist.refl _) (fun _ hr => hr) fun _ _ hi => hi

/-- **Every step puts a request into the queue that was not there before, or
none.** -/
theorem Served.step (hwf : Wf listenFd s)
    (hnodup : (s.phase.events.map EpollEvent.ptr).Nodup) (h : Served s l)
    (hs : step listenFd s e = some s') : Served s' (recordTasks s e l) := by
  have hsteps := (Steps.of_step hs).2
  cases hsteps with
  | ready =>
    obtain ⟨events, i, hphase, hi, ha, -, heq⟩ := of_step_ready hs
    rw [heq]
    exact h.ready hwf hphase hi ha
  | connect => exact h.mono (le_refl _) (List.Sublist.refl _) (fun _ hr => hr) fun _ _ hi => hi
  | abort => exact h.mono (le_refl _) (List.Sublist.refl _) (fun _ hr => hr) fun _ _ hi => hi
  | wait hphase =>
    refine h.mono (le_refl _) (List.Sublist.refl _) (fun r hr => ?_) fun _ _ hi => hi
    rw [hphase]
    exact hr
  | expired hphase =>
    refine h.mono (le_refl _) (List.Sublist.refl _) (fun r hr => ?_) fun _ _ hi => hi
    rw [hphase]
    exact hr
  | popped => exact h.mono (le_refl _) (List.Sublist.refl _) (fun _ hr => hr) fun _ _ hi => hi
  | timedOut => exact h.closeConn _ _
  | acceptConnection hphase _ hret =>
    exact h.accept hwf hphase (fun fd hfd => (hret fd hfd).2) _
  | dangling hphase hfreed =>
    have hlog : recordTasks s .dispatch l = l := by simp [recordTasks, hphase, hfreed]
    rw [hlog]
    exact h.mono (le_refl _) (List.Sublist.refl _) (fun _ hr => hr) fun _ _ hi => hi
  | hungUp hphase hfd hne hup =>
    have hlog : recordTasks s .dispatch l = l := by simp [recordTasks, hphase, hfd, hup]
    rw [hlog]
    refine h.mono (le_refl _) (List.Sublist.refl _) (fun r hr => ?_)
      fun fd i hi => (update_none_eq_some.mp hi).2
    rw [hphase]
    exact List.mem_cons_of_mem _ hr
  | @queued a rest fd hphase hfd hne hup =>
    have hlog : recordTasks s .dispatch l = l ++ [a.ptr] := by
      simp [recordTasks, hphase, hfd, hup]
    rw [hlog]
    exact h.queued hwf hphase hnodup hfd hne
  | handled hphase =>
    refine h.mono (le_refl _) (List.Sublist.refl _) (fun r hr => ?_) fun _ _ hi => hi
    cases hr
  | take hrun htq =>
    refine h.mono (le_refl _) ?_ (fun _ hr => hr) fun _ _ hi => hi
    unfold Server.tasks
    rw [hrun, htq]
    exact List.Sublist.refl _
  | access => exact h
  | accessFreed => exact h.mono (le_refl _) (List.Sublist.refl _) (fun _ hr => hr) fun _ _ hi => hi
  | openFile hrun =>
    refine h.mono (le_refl _) ?_ (fun _ hr => hr) fun _ _ hi => hi
    unfold Server.tasks
    rw [hrun]
    exact List.Sublist.refl _
  | closeFile hrun =>
    refine h.mono (le_refl _) ?_ (fun _ hr => hr) fun fd i hi => (update_none_eq_some.mp hi).2
    unfold Server.tasks
    rw [hrun]
    exact List.Sublist.refl _
  | finish hrun =>
    refine h.mono (le_refl _) ?_ (fun _ hr => hr) fun _ _ hi => hi
    unfold Server.tasks
    exact List.sublist_append_right _ _

end Served

/-- **A connection is served once.** In every run no request is put into the queue of
tasks twice; the tasks in the queue and the one that runs are about different
requests; and a connection that had its task is not reported again. -/
theorem served_once {others : List ℕ} {waiting : ℕ} {heap : ℕ → TimeNode ℕ Handler}
    {currentTime : ℕ} {tr : List ServerEvent}
    (h : (machine listenFd others waiting heap currentTime).exec
      (start listenFd others waiting heap currentTime) tr = some s) :
    (taskLog listenFd others waiting heap currentTime tr).Nodup
      ∧ s.tasks.Nodup
      ∧ (∀ r ∈ s.tasks, r ∈ taskLog listenFd others waiting heap currentTime tr)
      ∧ ∀ r ∈ taskLog listenFd others waiting heap currentTime tr,
        r ∉ s.phase.events.map EpollEvent.ptr
          ∧ ∀ fd i, s.epoll fd = some i → i.armed = true → i.data ≠ r := by
  have hserved : Served s (taskLog listenFd others waiting heap currentTime tr) := by
    refine Machine.history_invariant (I := Served) ?_ ?_ h
    · exact served_start others waiting heap currentTime
    · intro tr t e t' l ht hs ih
      exact ih.step (Wf.of_exec ht) (nodup_events ht) hs
  refine ⟨hserved.nodup, hserved.tasks.1, hserved.tasks.2, fun r hr => ⟨fun hm => ?_, ?_⟩⟩
  · exact (hserved.events r hm).1 hr
  · rintro fd i hi ha rfl
    exact ((hserved.idle fd i hi (hserved.below _ hr).1).2 ha).1 hr

/-- Two connections have their tasks, one of which runs, and the first has sent more. -/
theorem served_once_two :
    ∃ s, (machine 5 [0, 1, 2, 3, 4] 1 (fun _ => ⟨0, 0, none, 0⟩) 0).exec
        (start 5 [0, 1, 2, 3, 4] 1 (fun _ => ⟨0, 0, none, 0⟩) 0)
        [.ready 5 epollIn, .wait, .expireTurn none,
          .acceptConnection (some 6) (some ⟨0, 0, by decide⟩), .handled,
          .connect, .ready 5 epollIn, .ready 6 epollIn, .wait,
          .expireTurn (some ⟨0, 1000, by decide⟩),
          .acceptConnection (some 7) (some ⟨0, 1000, by decide⟩), .dispatch, .handled, .take,
          .finish, .ready 7 epollIn, .wait, .expireTurn (some ⟨0, 2000, by decide⟩), .dispatch,
          .take] = some s
      ∧ s.tasks = [2]
      ∧ ∀ fd i, s.epoll fd = some i → i.armed = true → i.data ≠ 1 := by
  have hrun : ((machine 5 [0, 1, 2, 3, 4] 1 (fun _ => ⟨0, 0, none, 0⟩) 0).exec
      (start 5 [0, 1, 2, 3, 4] 1 (fun _ => ⟨0, 0, none, 0⟩) 0)
        [.ready 5 epollIn, .wait, .expireTurn none,
          .acceptConnection (some 6) (some ⟨0, 0, by decide⟩), .handled,
          .connect, .ready 5 epollIn, .ready 6 epollIn, .wait,
          .expireTurn (some ⟨0, 1000, by decide⟩),
          .acceptConnection (some 7) (some ⟨0, 1000, by decide⟩), .dispatch, .handled, .take,
          .finish, .ready 7 epollIn, .wait, .expireTurn (some ⟨0, 2000, by decide⟩), .dispatch,
          .take]).map tasks = some [2] := by
    decide +kernel
  have hlog : taskLog 5 [0, 1, 2, 3, 4] 1 (fun _ => ⟨0, 0, none, 0⟩) 0
        [.ready 5 epollIn, .wait, .expireTurn none,
          .acceptConnection (some 6) (some ⟨0, 0, by decide⟩), .handled,
          .connect, .ready 5 epollIn, .ready 6 epollIn, .wait,
          .expireTurn (some ⟨0, 1000, by decide⟩),
          .acceptConnection (some 7) (some ⟨0, 1000, by decide⟩), .dispatch, .handled, .take,
          .finish, .ready 7 epollIn, .wait, .expireTurn (some ⟨0, 2000, by decide⟩), .dispatch,
          .take] = [1, 2] := by
    decide +kernel
  obtain ⟨s, hs, htasks⟩ := Option.map_eq_some_iff.mp hrun
  obtain ⟨-, -, -, hdone⟩ := served_once hs
  rw [hlog] at hdone
  exact ⟨s, hs, htasks, (hdone 1 List.mem_cons_self).2⟩

/-! ## One timer for each connection -/

/-- **The requests are those of the timers**, as long as the heap has room. -/
structure Timed (s : Server) : Prop where
  unmarked : ∀ n ∈ s.time.pq.nodes, s.time.deleted n.ptr = false
  timer : s.fault ≠ some .heapOverflow → ∀ r fd, s.requests r = some fd → r ≠ 0 →
    r ∈ s.time.pq.nodes.map TimeNode.request
  full : s.fault = some .heapOverflow → heapSize ≤ s.time.pq.size + 1

section Timed

theorem timed_start (others : List ℕ) (waiting : ℕ) (heap : ℕ → TimeNode ℕ Handler)
    (currentTime : ℕ) : Timed (start listenFd others waiting heap currentTime) where
  unmarked _ h := by cases h
  timer _ r fd h h0 := by
    rw [requests_start] at h
    rcases update_some_eq_some.mp h with ⟨hr, -⟩ | ⟨-, h⟩
    · exact absurd hr h0
    · cases h
  full h := by cases h

/-- A step that leaves the requests and the timers alone. -/
theorem Timed.mono (h : Timed s) (htime : s'.time = s.time)
    (hrequests : s'.requests = s.requests)
    (hfault : s'.fault = some .heapOverflow → s.fault = some .heapOverflow)
    (hdefined : s.fault ≠ some .heapOverflow) : Timed s' where
  unmarked := by
    rw [htime]
    exact h.unmarked
  timer _ := by
    rw [htime, hrequests]
    exact h.timer hdefined
  full hf := absurd (hfault hf) hdefined

/-- **A connection is accepted**, and its timer added. -/
theorem Timed.accept (hwf : Wf listenFd s) (h : Timed s) (hfault : s.fault = none)
    {phase : Phase} (ret : Option ℕ) (tv : Option Timeval) :
    Timed (({ s with phase := phase } : Server).acceptConnection ret tv) := by
  have hrequests := requests_acceptConnection ({ s with phase := phase } : Server) ret tv
  obtain ⟨u, htime, hufault, hadd⟩ : ∃ u : Server, u.time = s.time ∧ u.fault = none
      ∧ ({ s with phase := phase } : Server).acceptConnection ret tv = u.timeNAdd s.next tv := by
    refine ⟨_, ?_, ?_, rfl⟩
    · rw [time_epollEventAdd]
      cases ret <;> rfl
    · unfold epollEventAdd
      cases ret <;> split <;> exact hfault
  rw [hadd] at hrequests ⊢
  unfold Server.timeNAdd at hrequests ⊢
  by_cases hroom : u.time.pq.size + 1 < heapSize
  · rw [if_pos hroom] at hrequests ⊢
    have hnodes := Time.nodes_timeNAdd hwf.sound s.next timeoutDefault (some Handler.closeConn) tv
    rw [← htime] at hnodes
    refine ⟨fun n hn => ?_, fun _ r fd hr h0 => ?_, fun hf => ?_⟩
    · have hdeleted : (u.time.timeNAdd s.next timeoutDefault (some Handler.closeConn) tv).deleted
          = Function.update s.time.deleted u.time.next false := by
        rw [← htime]
        cases tv <;> rfl
      show (u.time.timeNAdd s.next timeoutDefault (some Handler.closeConn) tv).deleted n.ptr = false
      rw [hdeleted, Function.update_apply]
      split
      · rfl
      · rcases Multiset.mem_cons.mp (hnodes ▸ hn) with rfl | hn
        · exact absurd rfl ‹_›
        · exact h.unmarked n (htime ▸ hn)
    · rw [hrequests] at hr
      show r ∈ (u.time.timeNAdd s.next timeoutDefault (some Handler.closeConn) tv).pq.nodes.map _
      rw [hnodes, Multiset.map_cons, Multiset.mem_cons, htime]
      rcases update_some_eq_some.mp hr with ⟨rfl, -⟩ | ⟨-, hr⟩
      · exact Or.inl rfl
      · exact Or.inr (h.timer (by simp [hfault]) r fd hr h0)
    · exact absurd (hufault.symm.trans hf) (by simp)
  · rw [if_neg hroom]
    refine ⟨fun n hn => ?_, fun hf => absurd rfl hf, fun _ => Nat.not_lt.mp hroom⟩
    rw [htime] at hn ⊢
    exact h.unmarked n hn

/-- **A connection times out**: its request goes with its timer. -/
theorem Timed.timedOut (hwf : Wf listenFd s) (h : Timed s) (hfault : s.fault = none)
    {tv : Option Timeval} (hdue : s.time.Due tv) :
    Timed (({ s with
      time := { s.time.timeUpdate tv with pq := s.time.pq.pqPop TimeNode.key } }
      : Server).closeConn s.time.pq.pqFront.request) := by
  obtain ⟨h0, fd, hfd⟩ := hwf.timers _ (PriorityQueue.pqFront_mem hdue.1)
  obtain ⟨-, hnodes, -⟩ := hwf.sound.pop hdue.1 tv
  have hclose : (({ s with
      time := { s.time.timeUpdate tv with pq := s.time.pq.pqPop TimeNode.key } }
      : Server).closeConn s.time.pq.pqFront.request)
      = { ({ s with time := { s.time.timeUpdate tv with pq := s.time.pq.pqPop TimeNode.key } }
          : Server).close fd with
        requests := Function.update s.requests s.time.pq.pqFront.request none } := by
    unfold Server.closeConn
    rw [show ({ s with time := _ } : Server).requests _ = some fd from hfd]
  rw [hclose]
  refine ⟨fun n hn => ?_, fun _ r fd' hr hr0 => ?_, fun hf => ?_⟩
  · show (s.time.timeUpdate tv).deleted n.ptr = false
    rw [Time.deleted_timeUpdate]
    exact h.unmarked n (hnodes ▸ Multiset.mem_cons_of_mem hn)
  · obtain ⟨hne, hr⟩ := update_none_eq_some.mp hr
    have hmem := h.timer (by rw [hfault]; simp) r fd' hr hr0
    rw [hnodes, Multiset.map_cons, Multiset.mem_cons] at hmem
    exact hmem.resolve_left hne
  · exact absurd (hfault.symm.trans hf) (by simp)

/-- **Every step keeps the timers with their requests.** -/
theorem Timed.step (hwf : Wf listenFd s) (h : Timed s) (hs : step listenFd s e = some s') :
    Timed s' := by
  obtain ⟨hfault, hsteps⟩ := Steps.of_step hs
  have hdefined : s.fault ≠ some .heapOverflow := by
    rw [hfault]
    simp
  by_cases hexpire : ∃ tv, e = .expireTurn tv
  · obtain ⟨tv, rfl⟩ := hexpire
    obtain ⟨events, -, ⟨u, heq⟩ | ⟨hdue, heq⟩⟩ := of_step_expireTurn hwf h.unmarked hs
    · rw [heq]
      refine ⟨?_, fun _ r fd hr h0 => ?_, fun hf => absurd hf hdefined⟩
      · rw [Time.pq_timeUpdate, Time.deleted_timeUpdate]
        exact h.unmarked
      · rw [Time.pq_timeUpdate]
        exact h.timer hdefined r fd hr h0
    · rw [heq]
      exact h.timedOut hwf hfault hdue
  · cases hsteps with
    | expired => exact absurd ⟨_, rfl⟩ hexpire
    | popped => exact absurd ⟨_, rfl⟩ hexpire
    | timedOut => exact absurd ⟨_, rfl⟩ hexpire
    | acceptConnection => exact h.accept hwf hfault _ _
    | dangling => exact h.mono rfl rfl (by simp) hdefined
    | accessFreed => exact h.mono rfl rfl (by simp) hdefined
    | _ => exact h.mono rfl rfl id hdefined

end Timed

/-- **A request lives as long as its timer.** In every run in which the heap did not
overflow, the requests that are allocated, but for that of the listening socket, are
those of the timers in the heap; each has one, no timer is marked, and all of them
close their connections. A run overflows the heap only where 1023 timers are in it. -/
theorem timer_iff {others : List ℕ} {waiting : ℕ} {heap : ℕ → TimeNode ℕ Handler}
    {currentTime : ℕ} {tr : List ServerEvent}
    (h : (machine listenFd others waiting heap currentTime).exec
      (start listenFd others waiting heap currentTime) tr = some s) :
    (s.fault ≠ some .heapOverflow → ∀ r, r ≠ 0 →
        ((∃ fd, s.requests r = some fd) ↔ r ∈ s.time.pq.nodes.map TimeNode.request))
      ∧ (s.time.pq.nodes.map TimeNode.request).Nodup
      ∧ (∀ n ∈ s.time.pq.nodes, s.time.deleted n.ptr = false ∧ n.handler = some .closeConn)
      ∧ (s.fault = some .heapOverflow → heapSize ≤ s.time.pq.size + 1) := by
  have hwf : Wf listenFd s := Wf.of_exec h
  have htimed : Timed s := by
    refine Machine.exec_induction (motive := fun _ s => Timed s) ?_ ?_ h
    · exact timed_start others waiting heap currentTime
    · intro tr t e t' ht hs ih
      exact ih.step (Wf.of_exec ht) hs
  refine ⟨fun hf r h0 => ⟨?_, fun hm => ?_⟩, hwf.apart, fun n hn => ?_, htimed.full⟩
  · rintro ⟨fd, hfd⟩
    exact htimed.timer hf r fd hfd h0
  · obtain ⟨n, hn, rfl⟩ := Multiset.mem_map.mp hm
    exact (hwf.timers n hn).2
  · exact ⟨htimed.unmarked n hn, hwf.handlers n hn⟩

/-- A connection that was hung up and one that has failed wait for their timers; a third
one has timed out. -/
theorem timer_iff_three :
    ∃ s, (machine 5 [0, 1, 2, 3, 4] 1 (fun _ => ⟨0, 0, none, 0⟩) 0).exec
        (start 5 [0, 1, 2, 3, 4] 1 (fun _ => ⟨0, 0, none, 0⟩) 0)
        [.ready 5 epollIn, .wait, .expireTurn none,
          .acceptConnection (some 6) (some ⟨0, 0, by decide⟩), .handled,
          .connect, .ready 5 epollIn, .wait, .expireTurn (some ⟨0, 1000, by decide⟩),
          .acceptConnection (some 7) (some ⟨0, 1000, by decide⟩), .handled,
          .connect, .ready 5 epollIn, .ready 7 epollHup, .wait,
          .expireTurn (some ⟨0, 500000, by decide⟩), .expireTurn (some ⟨0, 500000, by decide⟩),
          .acceptConnection none (some ⟨0, 500000, by decide⟩), .dispatch] = some s
      ∧ ∀ r, r ≠ 0 → ((∃ fd, s.requests r = some fd) ↔ r = 3 ∨ r = 2) := by
  have hrun : ((machine 5 [0, 1, 2, 3, 4] 1 (fun _ => ⟨0, 0, none, 0⟩) 0).exec
      (start 5 [0, 1, 2, 3, 4] 1 (fun _ => ⟨0, 0, none, 0⟩) 0)
        [.ready 5 epollIn, .wait, .expireTurn none,
          .acceptConnection (some 6) (some ⟨0, 0, by decide⟩), .handled,
          .connect, .ready 5 epollIn, .wait, .expireTurn (some ⟨0, 1000, by decide⟩),
          .acceptConnection (some 7) (some ⟨0, 1000, by decide⟩), .handled,
          .connect, .ready 5 epollIn, .ready 7 epollHup, .wait,
          .expireTurn (some ⟨0, 500000, by decide⟩), .expireTurn (some ⟨0, 500000, by decide⟩),
          .acceptConnection none (some ⟨0, 500000, by decide⟩), .dispatch]).map
      (fun s => (s.fault, s.time.pq.nodes.map TimeNode.request)) = some (none, {3, 2}) := by
    decide +kernel
  obtain ⟨s, hs, hend⟩ := Option.map_eq_some_iff.mp hrun
  obtain ⟨hfault, hnodes⟩ := Prod.mk.inj hend
  refine ⟨s, hs, fun r h0 => ?_⟩
  rw [(timer_iff hs).1 (by simp [hfault]) r h0, hnodes]
  simp

end Server

end Version1
