import Shoot.EpollSet
import Shoot.Version1.Time

/-!
# The server of version 1.0

`Server::start` is a loop of one thread: it waits for events
(`epoll_event_wait`), runs the timers that are due (`handle_expire_time_ns`)
and then handles the events it got, one after the other (`handle_events`). An
event of the listening socket is answered by one call of `accept`: a request is
allocated for the connection, its address is registered with the descriptor,
and a timer is set that closes the descriptor and deletes the request
(`Http::close_conn`). An event of a connection with an error, a hang-up or no
input closes the descriptor; any other one puts the request into the queue of
tasks. Four workers take tasks from the queue. They run them under the mutex of
the queue, so one runs at a time, and the main thread waits for it before it
adds another one.

So the address of a request is kept in four places: in the kernel, in the
events that are still to be handled, in the queue or a running task, and in the
heap of timers. This module is the model, and what a step of it can do
(`Server.Steps`).

A request is an address with the descriptor in it, and no address is used
again: what counts as freed here stays freed. Where the program touches a
request that is freed, or adds a timer to a full heap, its behaviour is not
defined, and a run ends with a **fault**. What a task does with its request is
left out, apart from the file it may open.
-/

namespace Version1

/-- `EPOLLET`. -/
def epollEt : EventMask := 0x80000000

/-- `MAXEVENTS`. -/
def maxEvents : ℕ := 1024

/-- `TIMEOUT_DEFAULT`. -/
def timeoutDefault : ℕ := 500

/-- What a descriptor is open on. -/
inductive OpenFile where
  /-- The listening socket. -/
  | listening
  /-- The connection that was accepted for the request at an address. -/
  | connection (request : ℕ)
  /-- Any other file. -/
  | file
deriving DecidableEq, Repr

/-- The handlers of the timers. -/
inductive Handler where
  /-- `Http::close_conn`. -/
  | closeConn
deriving DecidableEq, Repr

/-- **A `struct epoll_event`**, with the address of a request. -/
structure EpollEvent where
  /-- `events`. -/
  events : EventMask
  /-- `data.ptr`. -/
  ptr : ℕ
deriving DecidableEq, Repr

/-- Where the main thread is. -/
inductive Phase where
  /-- In `epoll_event_wait`; the kernel has stored these events so far. -/
  | waiting (events : List EpollEvent)
  /-- In `handle_expire_time_ns`. -/
  | expiring (events : List EpollEvent)
  /-- In `handle_events`, before these events. -/
  | handling (events : List EpollEvent)
deriving DecidableEq, Repr

/-- The events that are still to be handled. -/
def Phase.events : Phase → List EpollEvent
  | .waiting events => events
  | .expiring events => events
  | .handling events => events

/-- A task that a worker is running. -/
structure RunningTask where
  /-- The request `do_request` was called with. -/
  request : ℕ
  /-- The file `parse_analysis` has opened and not closed yet. -/
  file : Option ℕ
deriving DecidableEq, Repr

/-- Undefined behaviour. -/
inductive Fault where
  /-- `handle_events` reads a request that is freed. -/
  | handleEvents (request : ℕ)
  /-- A task uses a request that is freed. -/
  | doRequest (request : ℕ)
  /-- `close_conn` reads a request that is freed. -/
  | closeConn (request : ℕ)
  /-- A timer is stored behind the end of the heap. -/
  | heapOverflow
deriving DecidableEq, Repr

/-- **The server and the kernel under it.** -/
structure Server where
  /-- The requests that are allocated, by address, with their `fd`. -/
  requests : ℕ → Option Fd
  /-- The addresses below this one have been used. -/
  next : ℕ
  /-- The table of descriptors. -/
  files : Fd → Option OpenFile
  /-- The epoll instance. -/
  epoll : EpollSet ℕ
  /-- The connections that wait on the listening socket. -/
  backlog : ℕ
  /-- An event of the listening socket is due. -/
  edge : Bool
  /-- `time_`. -/
  time : Time ℕ Handler
  /-- Where the main thread is. -/
  phase : Phase
  /-- `tq`, the requests of the tasks in the queue. -/
  tq : List ℕ
  /-- The task that runs. -/
  running : Option RunningTask
  /-- What ended the run. -/
  fault : Option Fault

/-- What can happen. -/
inductive ServerEvent where
  /-- A client connects. -/
  | connect
  /-- A connection that waits is aborted. -/
  | abort
  /-- The kernel stores an event of a descriptor for `epoll_event_wait`. -/
  | ready (fd : Fd) (mask : EventMask)
  /-- `epoll_event_wait` returns. -/
  | wait
  /-- A turn of the loop of `handle_expire_time_ns`. -/
  | expireTurn (tv : Option Timeval)
  /-- `handle_events` calls `accept_connection`; `accept` returns `ret`, or fails. -/
  | acceptConnection (ret : Option ℕ) (tv : Option Timeval)
  /-- `handle_events` handles an event of a connection. -/
  | dispatch
  /-- `handle_events` returns. -/
  | handled
  /-- A worker takes a task. -/
  | take
  /-- The task uses its request. -/
  | access
  /-- The task opens a file. -/
  | openFile (fd : ℕ)
  /-- The task closes its file. -/
  | closeFile
  /-- The task returns. -/
  | finish
deriving DecidableEq, Repr

namespace Server

/-- `epoll->epoll_event_add(fd, request, events)`, which fails for a descriptor
that is not open. -/
def epollEventAdd (s : Server) (fd : Fd) (request : ℕ) (events : EventMask) : Server :=
  if (s.files fd).isSome then { s with epoll := s.epoll.ctl .add fd events request } else s

/-- `close(fd)`. The kernel drops the registration with the descriptor. -/
def close (s : Server) (fd : Fd) : Server :=
  { s with
    files := Function.update s.files fd none
    epoll := Function.update s.epoll fd none }

/-- `Http::close_conn(request)`. -/
def closeConn (s : Server) (request : ℕ) : Server :=
  match s.requests request with
  | some fd => { s.close fd with requests := Function.update s.requests request none }
  | none => { s with fault := some (.closeConn request) }

/-- `accept`, and the request that is allocated for what it returned: for a
failure, one with the descriptor -1. -/
def accept (s : Server) : Option ℕ → Server
  | some fd => { s with
      files := Function.update s.files fd (some (.connection s.next))
      backlog := s.backlog - 1
      requests := Function.update s.requests s.next (some (fd : Fd))
      next := s.next + 1 }
  | none => { s with
      requests := Function.update s.requests s.next (some (-1))
      next := s.next + 1 }

/-- `time_->time_n_add(request, TIMEOUT_DEFAULT, Http::close_conn)`. -/
def timeNAdd (s : Server) (request : ℕ) (tv : Option Timeval) : Server :=
  if s.time.pq.size + 1 < heapSize then
    { s with time := s.time.timeNAdd request timeoutDefault (some .closeConn) tv }
  else
    { s with fault := some .heapOverflow }

/-- The descriptor in a new request. -/
def acceptFd (ret : Option ℕ) : Fd := ret.elim (-1) fun fd => fd

/-- `accept_connection()`, where `accept` returns `ret`. -/
def acceptConnection (s : Server) (ret : Option ℕ) (tv : Option Timeval) : Server :=
  ((s.accept ret).epollEventAdd (acceptFd ret) s.next
    (epollIn ||| epollEt ||| epollOneshot)).timeNAdd s.next tv

/-- The test of `handle_events` for a connection to close. -/
def hungUp (events : EventMask) : Bool :=
  events.has epollErr || events.has epollHup || !events.has epollIn

/-- A turn of the loop of `handle_expire_time_ns`, with the handler it calls. -/
def expireTurn (s : Server) (events : List EpollEvent) (tv : Option Timeval) : Server :=
  match s.time.expireTurn tv with
  | (.done, time) => { s with time := time, phase := .handling events }
  | (.passed _, time) => { s with time := time }
  | (.due n, time) =>
    match n.handler with
    | some .closeConn => ({ s with time := time } : Server).closeConn n.request
    | none => { s with time := time }

/-- A turn of the loop of `handle_events` for the event of a connection. The
queue is locked while a task runs. -/
def dispatch (s : Server) (listenFd : ℕ) (e : EpollEvent) (rest : List EpollEvent) :
    Option Server :=
  match s.requests e.ptr with
  | none => some { s with fault := some (.handleEvents e.ptr) }
  | some fd =>
    if fd = listenFd then
      none
    else if hungUp e.events then
      some { s.close fd with phase := .handling rest }
    else if s.running = none then
      some { s with tq := e.ptr :: s.tq, phase := .handling rest }
    else
      none

/-- What an event does, if nothing has ended the run. -/
def move (s : Server) (listenFd : ℕ) : ServerEvent → Option Server
  | .connect => some { s with backlog := s.backlog + 1, edge := true }
  | .abort => if 1 ≤ s.backlog then some { s with backlog := s.backlog - 1 } else none
  | .ready fd mask =>
    match s.phase, s.epoll.deliver fd mask with
    | .waiting events, some (epoll, ptr) =>
      -- the listening socket is reported after a new arrival, and each descriptor once
      if (fd = listenFd → s.edge = true) ∧ mask.has epollEt = false
          ∧ events.length < maxEvents ∧ ptr ∉ events.map EpollEvent.ptr then
        some { s with
          epoll := epoll
          edge := s.edge && fd != listenFd
          phase := .waiting (events ++ [⟨mask, ptr⟩]) }
      else
        none
    | _, _ => none
  | .wait =>
    match s.phase with
    | .waiting events => some { s with phase := .expiring events }
    | _ => none
  | .expireTurn tv =>
    match s.phase with
    | .expiring events => some (s.expireTurn events tv)
    | _ => none
  | .acceptConnection ret tv =>
    match s.phase with
    | .handling (e :: rest) =>
      if s.requests e.ptr = some (listenFd : Fd)
          ∧ ∀ fd ∈ ret, 1 ≤ s.backlog ∧ s.files (fd : Fd) = none then
        some (({ s with phase := .handling rest } : Server).acceptConnection ret tv)
      else
        none
    | _ => none
  | .dispatch =>
    match s.phase with
    | .handling (e :: rest) => s.dispatch listenFd e rest
    | _ => none
  | .handled =>
    match s.phase with
    | .handling [] => some { s with phase := .waiting [] }
    | _ => none
  | .take =>
    match s.running, s.tq with
    | none, request :: tq => some { s with running := some ⟨request, none⟩, tq := tq }
    | _, _ => none
  | .access =>
    match s.running with
    | some task =>
      if (s.requests task.request).isSome then
        some s
      else
        some { s with fault := some (.doRequest task.request) }
    | none => none
  | .openFile fd =>
    match s.running with
    | some ⟨request, none⟩ =>
      if s.files (fd : Fd) = none then
        some { s with
          files := Function.update s.files (fd : Fd) (some .file)
          running := some ⟨request, some fd⟩ }
      else
        none
    | _ => none
  | .closeFile =>
    match s.running with
    | some ⟨request, some fd⟩ => some { s.close fd with running := some ⟨request, none⟩ }
    | _ => none
  | .finish =>
    match s.running with
    | some ⟨_, none⟩ => some { s with running := none }
    | _ => none

/-- One step of the server. -/
def step (listenFd : ℕ) (s : Server) (e : ServerEvent) : Option Server :=
  if s.fault = none then s.move listenFd e else none

/-- **What `start` finds**: the listening socket is registered, with `waiting`
connections on it, and some other descriptors are open. -/
def start (listenFd : ℕ) (others : List ℕ) (waiting : ℕ) (heap : ℕ → TimeNode ℕ Handler)
    (currentTime : ℕ) : Server where
  requests := Function.update (fun _ => none) 0 (some (listenFd : Fd))
  next := 1
  files := fun fd =>
    if fd = listenFd then some .listening
    else if fd ∈ others.map Nat.cast then some .file
    else none
  epoll := EpollSet.empty.ctl .add listenFd (epollIn ||| epollEt) 0
  backlog := waiting
  edge := decide (1 ≤ waiting)
  time := .new heap currentTime
  phase := .waiting []
  tq := []
  running := none
  fault := none

/-- **The server**, as a machine. -/
def machine (listenFd : ℕ) (others : List ℕ) (waiting : ℕ) (heap : ℕ → TimeNode ℕ Handler)
    (currentTime : ℕ) : Machine Server ServerEvent :=
  ⟨start listenFd others waiting heap currentTime, step listenFd⟩

/-! ## What a step can do -/

/-- **What a step can do**, said once. In each case the run goes on from
the state given, or ends there with a fault. -/
inductive Steps (listenFd : ℕ) (s : Server) : ServerEvent → Server → Prop
  | connect : Steps listenFd s .connect { s with backlog := s.backlog + 1, edge := true }
  | abort (h : 1 ≤ s.backlog) : Steps listenFd s .abort { s with backlog := s.backlog - 1 }
  | ready {fd : Fd} {mask : EventMask} {events : List EpollEvent} {i : Interest ℕ}
      (hphase : s.phase = .waiting events) (hedge : fd = listenFd → s.edge = true)
      (hi : s.epoll fd = some i) (hnew : i.data ∉ events.map EpollEvent.ptr) :
      Steps listenFd s (.ready fd mask) { s with
        epoll := Function.update s.epoll fd (some i.delivered)
        edge := s.edge && fd != listenFd
        phase := .waiting (events ++ [⟨mask, i.data⟩]) }
  | wait {events : List EpollEvent} (hphase : s.phase = .waiting events) :
      Steps listenFd s .wait { s with phase := .expiring events }
  | expired {tv u : Option Timeval} {events : List EpollEvent}
      (hphase : s.phase = .expiring events) (hwait : ¬ s.time.Due tv) :
      Steps listenFd s (.expireTurn tv)
        { s with time := s.time.timeUpdate u, phase := .handling events }
  | popped {tv : Option Timeval} {events : List EpollEvent}
      (hphase : s.phase = .expiring events) (hsize : 1 ≤ s.time.pq.size)
      (hskip : ¬ (s.time.Due tv ∧ s.time.pq.pqFront.handler = some .closeConn)) :
      Steps listenFd s (.expireTurn tv)
        { s with time := { s.time.timeUpdate tv with pq := s.time.pq.pqPop TimeNode.key } }
  | timedOut {tv : Option Timeval} {events : List EpollEvent}
      (hphase : s.phase = .expiring events) (hdue : s.time.Due tv)
      (hhandler : s.time.pq.pqFront.handler = some .closeConn) :
      Steps listenFd s (.expireTurn tv)
        (({ s with
          time := { s.time.timeUpdate tv with pq := s.time.pq.pqPop TimeNode.key } }
          : Server).closeConn s.time.pq.pqFront.request)
  | acceptConnection {ret : Option ℕ} {tv : Option Timeval} {e : EpollEvent}
      {rest : List EpollEvent} (hphase : s.phase = .handling (e :: rest))
      (hlisten : s.requests e.ptr = some (listenFd : Fd))
      (hret : ∀ fd ∈ ret, 1 ≤ s.backlog ∧ s.files (fd : Fd) = none) :
      Steps listenFd s (.acceptConnection ret tv)
        (({ s with phase := .handling rest } : Server).acceptConnection ret tv)
  | dangling {e : EpollEvent} {rest : List EpollEvent}
      (hphase : s.phase = .handling (e :: rest)) (hfreed : s.requests e.ptr = none) :
      Steps listenFd s .dispatch { s with fault := some (.handleEvents e.ptr) }
  | hungUp {e : EpollEvent} {rest : List EpollEvent} {fd : Fd}
      (hphase : s.phase = .handling (e :: rest)) (hfd : s.requests e.ptr = some fd)
      (hne : fd ≠ listenFd) (hup : hungUp e.events = true) :
      Steps listenFd s .dispatch { s.close fd with phase := .handling rest }
  | queued {e : EpollEvent} {rest : List EpollEvent} {fd : Fd}
      (hphase : s.phase = .handling (e :: rest)) (hfd : s.requests e.ptr = some fd)
      (hne : fd ≠ listenFd) (hup : hungUp e.events = false) :
      Steps listenFd s .dispatch { s with tq := e.ptr :: s.tq, phase := .handling rest }
  | handled (hphase : s.phase = .handling []) :
      Steps listenFd s .handled { s with phase := .waiting [] }
  | take {request : ℕ} {tq : List ℕ} (hrun : s.running = none) (htq : s.tq = request :: tq) :
      Steps listenFd s .take { s with running := some ⟨request, none⟩, tq := tq }
  | access {task : RunningTask} {fd : Fd} (hrun : s.running = some task)
      (hfd : s.requests task.request = some fd) : Steps listenFd s .access s
  | accessFreed {task : RunningTask} (hrun : s.running = some task)
      (hfreed : s.requests task.request = none) :
      Steps listenFd s .access { s with fault := some (.doRequest task.request) }
  | openFile {fd request : ℕ} (hrun : s.running = some ⟨request, none⟩)
      (hfd : s.files (fd : Fd) = none) :
      Steps listenFd s (.openFile fd) { s with
        files := Function.update s.files (fd : Fd) (some .file)
        running := some ⟨request, some fd⟩ }
  | closeFile {fd request : ℕ} (hrun : s.running = some ⟨request, some fd⟩) :
      Steps listenFd s .closeFile { s.close fd with running := some ⟨request, none⟩ }
  | finish {request : ℕ} (hrun : s.running = some ⟨request, none⟩) :
      Steps listenFd s .finish { s with running := none }

section Steps

variable {listenFd : ℕ} {s s' : Server} {e : ServerEvent}

/-- A turn of the timers. -/
theorem Steps.of_expireTurn {tv : Option Timeval} {events : List EpollEvent}
    (hphase : s.phase = .expiring events) :
    Steps listenFd s (.expireTurn tv) (s.expireTurn events tv) := by
  unfold Server.expireTurn
  rcases s.time.expireTurn_cases tv with ⟨hsize, ht⟩ | ⟨-, -, hkey, ht⟩ | ⟨hsize, hmark, ht⟩
    | ⟨hdue, ht⟩
  · rw [ht]
    refine Steps.expired (u := none) hphase fun hdue => ?_
    exact absurd hdue.1 (by rw [hsize]; exact Nat.not_succ_le_zero 0)
  · rw [ht]
    exact Steps.expired (u := tv) hphase fun hdue => absurd hdue.2.2 (Nat.not_le.mpr hkey)
  · rw [ht]
    refine Steps.popped hphase hsize fun hdue => ?_
    exact Bool.false_ne_true (hdue.1.2.1.symm.trans hmark)
  · rw [ht]
    dsimp only
    split
    · exact Steps.timedOut hphase hdue ‹_›
    · refine Steps.popped hphase hdue.1 fun h => ?_
      cases h.2.symm.trans ‹_›

/-- A turn of `handle_events` for a connection. -/
theorem Steps.of_dispatch {a : EpollEvent} {rest : List EpollEvent}
    (hphase : s.phase = .handling (a :: rest)) (h : s.dispatch listenFd a rest = some s') :
    Steps listenFd s .dispatch s' := by
  unfold Server.dispatch at h
  split at h
  · cases h
    exact Steps.dangling hphase ‹_›
  · obtain ⟨hne, h⟩ := Option.ite_none_left_eq_some.mp h
    split at h
    · cases h
      exact Steps.hungUp hphase ‹_› hne ‹_›
    · obtain ⟨-, h⟩ := Option.ite_none_right_eq_some.mp h
      cases h
      exact Steps.queued hphase ‹_› hne (Bool.eq_false_iff.mpr ‹_›)

/-- **Every step is one of these**, in a run that has not ended. -/
theorem Steps.of_step (h : step listenFd s e = some s') :
    s.fault = none ∧ Steps listenFd s e s' := by
  obtain ⟨hfault, h⟩ := Option.ite_none_right_eq_some.mp h
  refine ⟨hfault, ?_⟩
  cases e with
  | connect =>
    cases h
    exact Steps.connect
  | abort =>
    obtain ⟨hb, h⟩ := Option.ite_none_right_eq_some.mp h
    cases h
    exact Steps.abort hb
  | ready fd mask =>
    rw [move] at h
    split at h
    · obtain ⟨⟨hedge, -, -, hnew⟩, h⟩ := Option.ite_none_right_eq_some.mp h
      cases h
      obtain ⟨i, hi, -, -, hd, hK⟩ := EpollSet.deliver_eq_some ‹_›
      subst hd hK
      exact Steps.ready ‹_› hedge hi hnew
    · cases h
  | wait =>
    rw [move] at h
    split at h
    · cases h
      exact Steps.wait ‹_›
    · cases h
  | expireTurn tv =>
    rw [move] at h
    split at h
    · cases h
      exact Steps.of_expireTurn ‹_›
    · cases h
  | acceptConnection ret tv =>
    rw [move] at h
    split at h
    · obtain ⟨⟨hlisten, hret⟩, h⟩ := Option.ite_none_right_eq_some.mp h
      cases h
      exact Steps.acceptConnection ‹_› hlisten hret
    · cases h
  | dispatch =>
    rw [move] at h
    split at h
    · exact Steps.of_dispatch ‹_› h
    · cases h
  | handled =>
    rw [move] at h
    split at h
    · cases h
      exact Steps.handled ‹_›
    · cases h
  | take =>
    rw [move] at h
    split at h
    · cases h
      exact Steps.take ‹_› ‹_›
    · cases h
  | access =>
    rw [move] at h
    split at h
    · split at h
      · obtain ⟨fd, hfd⟩ := Option.isSome_iff_exists.mp ‹_›
        cases h
        exact Steps.access ‹_› hfd
      · cases h
        exact Steps.accessFreed ‹_› (Option.not_isSome_iff_eq_none.mp ‹_›)
    · cases h
  | openFile fd =>
    rw [move] at h
    split at h
    · obtain ⟨hfd, h⟩ := Option.ite_none_right_eq_some.mp h
      cases h
      exact Steps.openFile ‹_› hfd
    · cases h
  | closeFile =>
    rw [move] at h
    split at h
    · cases h
      exact Steps.closeFile ‹_›
    · cases h
  | finish =>
    rw [move] at h
    split at h
    · cases h
      exact Steps.finish ‹_›
    · cases h

end Steps

end Server

end Version1
