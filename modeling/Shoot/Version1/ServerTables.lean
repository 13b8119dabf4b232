import Shoot.Version1.Server

/-!
# The tables of the server

What holds in every reachable state (`Server.Wf`): how the requests, the table
of descriptors, the registrations and the heap of timers fit together. Each
operation of the server keeps it, whether the descriptor it closes is the right
one or not.
-/

namespace Version1

section Tables

variable {α β : Type*} [DecidableEq α] {f : α → Option β} {a b : α} {v w : β}

/-- An entry that is left after a removal. -/
theorem update_none_eq_some :
    Function.update f a none b = some v ↔ b ≠ a ∧ f b = some v := by
  by_cases hb : b = a
  · rw [hb, Function.update_self]
    exact ⟨fun h => (Option.some_ne_none v h.symm).elim, fun h => absurd rfl h.1⟩
  · rw [Function.update_of_ne hb]
    exact ⟨fun h => ⟨hb, h⟩, fun h => h.2⟩

/-- An entry of a table after an addition. -/
theorem update_some_eq_some :
    Function.update f a (some w) b = some v ↔ (b = a ∧ w = v) ∨ (b ≠ a ∧ f b = some v) := by
  by_cases hb : b = a
  · rw [hb, Function.update_self, Option.some.injEq]
    exact ⟨fun h => Or.inl ⟨rfl, h⟩, fun h => h.elim And.right fun h' => absurd rfl h'.1⟩
  · rw [Function.update_of_ne hb]
    exact ⟨fun h => Or.inr ⟨hb, h⟩, fun h => h.elim (fun h' => absurd h'.1 hb) And.right⟩

end Tables

namespace Server

/-! ## Fields after the operations -/

section Accept

variable (s : Server) (ret : Option ℕ) (tv : Option Timeval)

@[simp] theorem requests_epollEventAdd (fd : Fd) (r : ℕ) (events : EventMask) :
    (s.epollEventAdd fd r events).requests = s.requests := by
  unfold Server.epollEventAdd
  split <;> rfl

@[simp] theorem time_epollEventAdd (fd : Fd) (r : ℕ) (events : EventMask) :
    (s.epollEventAdd fd r events).time = s.time := by
  unfold Server.epollEventAdd
  split <;> rfl

@[simp] theorem requests_acceptConnection : (s.acceptConnection ret tv).requests
    = Function.update s.requests s.next (some (acceptFd ret)) := by
  unfold acceptConnection timeNAdd epollEventAdd
  cases ret <;> split <;> split <;> rfl

@[simp] theorem next_acceptConnection : (s.acceptConnection ret tv).next = s.next + 1 := by
  unfold acceptConnection timeNAdd epollEventAdd
  cases ret <;> split <;> split <;> rfl

@[simp] theorem files_acceptConnection :
    (s.acceptConnection ret tv).files = (s.accept ret).files := by
  unfold acceptConnection timeNAdd epollEventAdd
  split <;> split <;> rfl

@[simp] theorem backlog_acceptConnection :
    (s.acceptConnection ret tv).backlog = (s.accept ret).backlog := by
  unfold acceptConnection timeNAdd epollEventAdd
  split <;> split <;> rfl

@[simp] theorem edge_acceptConnection : (s.acceptConnection ret tv).edge = s.edge := by
  unfold acceptConnection timeNAdd epollEventAdd
  cases ret <;> split <;> split <;> rfl

@[simp] theorem phase_acceptConnection : (s.acceptConnection ret tv).phase = s.phase := by
  unfold acceptConnection timeNAdd epollEventAdd
  cases ret <;> split <;> split <;> rfl

@[simp] theorem tq_acceptConnection : (s.acceptConnection ret tv).tq = s.tq := by
  unfold acceptConnection timeNAdd epollEventAdd
  cases ret <;> split <;> split <;> rfl

@[simp] theorem running_acceptConnection : (s.acceptConnection ret tv).running = s.running := by
  unfold acceptConnection timeNAdd epollEventAdd
  cases ret <;> split <;> split <;> rfl

variable {s ret} in
/-- The connections of old requests were open before. -/
theorem connection_of_accept {fd : Fd} {r : ℕ} (hr : r ≠ s.next)
    (hf : (s.accept ret).files fd = some (.connection r)) :
    s.files fd = some (.connection r) := by
  cases ret with
  | none => exact hf
  | some fd' =>
    rcases update_some_eq_some.mp hf with ⟨-, hf⟩ | ⟨-, hf⟩
    · cases hf
      exact absurd rfl hr
    · exact hf

/-- The only undefined behaviour is a heap of timers that is full. -/
theorem fault_acceptConnection : (s.acceptConnection ret tv).fault = s.fault
    ∨ (s.acceptConnection ret tv).fault = some .heapOverflow := by
  unfold acceptConnection timeNAdd epollEventAdd
  cases ret <;> split <;> split <;> first | exact Or.inl rfl | exact Or.inr rfl

end Accept

@[simp] theorem phase_closeConn (s : Server) (r : ℕ) : (s.closeConn r).phase = s.phase := by
  unfold closeConn
  split <;> rfl

@[simp] theorem tq_closeConn (s : Server) (r : ℕ) : (s.closeConn r).tq = s.tq := by
  unfold closeConn
  split <;> rfl

@[simp] theorem running_closeConn (s : Server) (r : ℕ) :
    (s.closeConn r).running = s.running := by
  unfold closeConn
  split <;> rfl

@[simp] theorem backlog_closeConn (s : Server) (r : ℕ) : (s.closeConn r).backlog = s.backlog := by
  unfold closeConn
  split <;> rfl

@[simp] theorem edge_closeConn (s : Server) (r : ℕ) : (s.closeConn r).edge = s.edge := by
  unfold closeConn
  split <;> rfl

/-! ## The tables -/


/-- **What holds of the tables.** Only the listening request has the listening
descriptor; a descriptor that is open on a connection is the one in the request
of the connection; what is registered is open, with the address of its request;
and each timer in the heap is of a request of its own, which is allocated. -/
structure Wf (listenFd : ℕ) (s : Server) : Prop where
  listen : s.requests 0 = some (listenFd : Fd)
  listening : s.files listenFd = some .listening
  own : ∀ r, s.requests r = some (listenFd : Fd) → r = 0
  allocated : ∀ r fd, s.requests r = some fd → r < s.next
  opened : ∀ fd o, s.files fd = some o → 0 ≤ fd
  owner : ∀ fd r, s.files fd = some (.connection r) → s.requests r = some fd
  registered : ∀ fd i, s.epoll fd = some i →
    (fd = listenFd ∧ i.data = 0) ∨ s.files fd = some (.connection i.data)
  sound : s.time.Sound
  timers : ∀ n ∈ s.time.pq.nodes, n.request ≠ 0 ∧ ∃ fd, s.requests n.request = some fd
  handlers : ∀ n ∈ s.time.pq.nodes, n.handler = some .closeConn
  apart : (s.time.pq.nodes.map TimeNode.request).Nodup
  file : ∀ r fd, s.running = some ⟨r, some fd⟩ → fd ≠ listenFd
  noFault : ∀ r, s.fault ≠ some (.closeConn r)

section Wf

variable {listenFd : ℕ} {s s' : Server}

theorem requests_start (others : List ℕ) (waiting : ℕ) (heap : ℕ → TimeNode ℕ Handler)
    (currentTime : ℕ) : (start listenFd others waiting heap currentTime).requests
      = Function.update (fun _ => none) 0 (some (listenFd : Fd)) := rfl

theorem wf_start (others : List ℕ) (waiting : ℕ) (heap : ℕ → TimeNode ℕ Handler)
    (currentTime : ℕ) : Wf listenFd (start listenFd others waiting heap currentTime) where
  listen := by
    rw [requests_start]
    exact update_some_eq_some.mpr (Or.inl ⟨rfl, rfl⟩)
  listening := if_pos rfl
  own r h := by
    rw [requests_start] at h
    rcases update_some_eq_some.mp h with ⟨hr, -⟩ | ⟨-, h⟩
    · exact hr
    · cases h
  allocated r fd h := by
    rw [requests_start] at h
    rcases update_some_eq_some.mp h with ⟨hr, -⟩ | ⟨-, h⟩
    · exact hr ▸ Nat.zero_lt_one
    · cases h
  opened fd o h := by
    simp only [start] at h
    split at h
    · rename_i hl
      exact hl ▸ Int.natCast_nonneg listenFd
    · obtain ⟨hm, -⟩ := Option.ite_none_right_eq_some.mp h
      obtain ⟨k, -, rfl⟩ := List.mem_map.mp hm
      exact Int.natCast_nonneg k
  owner fd r h := by
    simp only [start] at h
    split at h
    · cases h
    · cases (Option.ite_none_right_eq_some.mp h).2
  registered fd i h := by
    rw [start] at h
    rcases update_some_eq_some.mp h with ⟨hf, hi⟩ | ⟨-, h⟩
    · exact Or.inl ⟨hf, hi ▸ rfl⟩
    · cases h
  sound := Time.sound_new heap currentTime
  timers _ h := by cases h
  handlers _ h := by cases h
  apart := Multiset.nodup_zero
  file _ _ h := by cases h
  noFault _ h := by cases h

/-- What the threads do next does not matter for the tables. -/
theorem Wf.scheduled (h : Wf listenFd s) {backlog : ℕ} {edge : Bool} {phase : Phase}
    {tq : List ℕ} {running : Option RunningTask} {fault : Option Fault}
    (hfile : ∀ r fd, running = some ⟨r, some fd⟩ → fd ≠ listenFd)
    (hfault : ∀ r, fault ≠ some (.closeConn r)) :
    Wf listenFd { s with
      backlog := backlog, edge := edge, phase := phase, tq := tq, running := running
      fault := fault } :=
  ⟨h.listen, h.listening, h.own, h.allocated, h.opened, h.owner, h.registered, h.sound,
    h.timers, h.handlers, h.apart, hfile, hfault⟩

/-- A delivery leaves the data of a registration alone. -/
theorem Wf.delivered (h : Wf listenFd s) {fd : Fd} {i : Interest ℕ} (hi : s.epoll fd = some i) :
    Wf listenFd { s with epoll := Function.update s.epoll fd (some i.delivered) } where
  __ := h
  registered fd' j hj := by
    rcases update_some_eq_some.mp hj with ⟨rfl, rfl⟩ | ⟨-, hj⟩
    · exact h.registered fd' i hi
    · exact h.registered fd' j hj

/-- Reading the clock changes no timer. -/
theorem Wf.timeUpdate (h : Wf listenFd s) (tv : Option Timeval) :
    Wf listenFd { s with time := s.time.timeUpdate tv } where
  __ := h
  sound := h.sound.timeUpdate tv
  timers := by
    rw [Time.pq_timeUpdate]
    exact h.timers
  handlers := by
    rw [Time.pq_timeUpdate]
    exact h.handlers
  apart := by
    rw [Time.pq_timeUpdate]
    exact h.apart

/-- A timer that is popped was the only one of its request. -/
theorem Wf.popped (h : Wf listenFd s) (hs : 1 ≤ s.time.pq.size) (tv : Option Timeval) :
    Wf listenFd { s with
        time := { s.time.timeUpdate tv with pq := s.time.pq.pqPop TimeNode.key } }
      ∧ s.time.pq.pqFront.request ∉ (s.time.pq.pqPop TimeNode.key).nodes.map TimeNode.request := by
  obtain ⟨hsound, hnodes, -⟩ := h.sound.pop hs tv
  have hapart := h.apart
  rw [hnodes, Multiset.map_cons, Multiset.nodup_cons] at hapart
  have hmem : ∀ {n}, n ∈ (s.time.pq.pqPop TimeNode.key).nodes → n ∈ s.time.pq.nodes :=
    fun hn => hnodes ▸ Multiset.mem_cons_of_mem hn
  refine ⟨{ __ := h, sound := hsound, timers := ?_, handlers := ?_, apart := hapart.2 },
    hapart.1⟩
  · exact fun n hn => h.timers n (hmem hn)
  · exact fun n hn => h.handlers n (hmem hn)

/-- **A descriptor is closed**, whatever it is open on. -/
theorem Wf.close (h : Wf listenFd s) {fd : Fd} (hne : fd ≠ listenFd) :
    Wf listenFd (s.close fd) where
  __ := h
  listening := (Function.update_of_ne hne.symm _ _).trans h.listening
  opened fd' o hf := h.opened fd' o (update_none_eq_some.mp hf).2
  owner fd' r hf := h.owner fd' r (update_none_eq_some.mp hf).2
  registered fd' i hi := by
    obtain ⟨hfd, hi⟩ := update_none_eq_some.mp hi
    exact (h.registered fd' i hi).imp_right fun hf => update_none_eq_some.mpr ⟨hfd, hf⟩

/-- **A connection is closed and its request freed**, once its timer is popped. -/
theorem Wf.closeConn (h : Wf listenFd s) {r : ℕ} {fd : Fd} (hr : s.requests r = some fd)
    (h0 : r ≠ 0) (hout : r ∉ s.time.pq.nodes.map TimeNode.request) :
    Wf listenFd (s.closeConn r) := by
  have hne : fd ≠ listenFd := by
    rintro rfl
    exact h0 (h.own r hr)
  have hclose := h.close hne
  rw [Server.closeConn, hr]
  refine { __ := hclose, listen := ?_, own := ?_, allocated := ?_, owner := ?_, timers := ?_ }
  · exact (Function.update_of_ne h0.symm _ _).trans h.listen
  · exact fun r' hr' => h.own r' (update_none_eq_some.mp hr').2
  · exact fun r' fd' hr' => h.allocated r' fd' (update_none_eq_some.mp hr').2
  · -- the descriptor in the request is the one that was closed
    intro fd' r' hf
    have hr' := hclose.owner fd' r' hf
    refine update_none_eq_some.mpr ⟨?_, hr'⟩
    rintro rfl
    exact (update_none_eq_some.mp hf).1 (Option.some.inj (hr'.symm.trans hr))
  · intro n hn
    obtain ⟨hn0, fd', hfd'⟩ := h.timers n hn
    refine ⟨hn0, fd', update_none_eq_some.mpr ⟨?_, hfd'⟩⟩
    rintro rfl
    exact hout (Multiset.mem_map_of_mem _ hn)

/-- **A descriptor that was not open** is opened. -/
theorem Wf.openAs (h : Wf listenFd s) {fd : ℕ} (hfd : s.files (fd : Fd) = none) (o : OpenFile)
    (hown : ∀ r, o = .connection r → s.requests r = some (fd : Fd)) :
    Wf listenFd { s with files := Function.update s.files (fd : Fd) (some o) } := by
  have hkeep : ∀ {fd' : Fd} {o' : OpenFile}, s.files fd' = some o' →
      Function.update s.files (fd : Fd) (some o) fd' = some o' := by
    intro fd' o' hf
    refine update_some_eq_some.mpr (Or.inr ⟨?_, hf⟩)
    rintro rfl
    cases hfd.symm.trans hf
  refine { __ := h, listening := hkeep h.listening, opened := ?_, owner := ?_, registered := ?_ }
  · intro fd' o' hf
    rcases update_some_eq_some.mp hf with ⟨rfl, -⟩ | ⟨-, hf⟩
    · exact Int.natCast_nonneg fd
    · exact h.opened fd' o' hf
  · intro fd' r hf
    rcases update_some_eq_some.mp hf with ⟨rfl, ho⟩ | ⟨-, hf⟩
    · exact hown r ho
    · exact h.owner fd' r hf
  · exact fun fd' i hi => (h.registered fd' i hi).imp_right hkeep

/-- A request is allocated at a new address. -/
theorem Wf.allocate (h : Wf listenFd s) {fd : Fd} (hne : fd ≠ listenFd) :
    Wf listenFd { s with
      requests := Function.update s.requests s.next (some fd), next := s.next + 1 } := by
  have hkeep : ∀ {r : ℕ} {fd' : Fd}, s.requests r = some fd' →
      Function.update s.requests s.next (some fd) r = some fd' := by
    intro r fd' hr
    exact update_some_eq_some.mpr (Or.inr ⟨Nat.ne_of_lt (h.allocated r fd' hr), hr⟩)
  refine {
    __ := h
    listen := hkeep h.listen
    own := ?_
    allocated := ?_
    owner := ?_
    timers := ?_ }
  · intro r hr
    rcases update_some_eq_some.mp hr with ⟨-, hfd⟩ | ⟨-, hr⟩
    · exact absurd hfd hne
    · exact h.own r hr
  · intro r fd' hr
    rcases update_some_eq_some.mp hr with ⟨rfl, -⟩ | ⟨-, hr⟩
    · exact Nat.lt_succ_self _
    · exact Nat.lt_succ_of_lt (h.allocated r fd' hr)
  · exact fun fd' r hf => hkeep (h.owner fd' r hf)
  · intro n hn
    obtain ⟨hn0, fd', hfd'⟩ := h.timers n hn
    exact ⟨hn0, fd', hkeep hfd'⟩

/-- **A connection is accepted**, or a request is allocated for none. -/
theorem Wf.accept (h : Wf listenFd s) {ret : Option ℕ}
    (hret : ∀ fd ∈ ret, s.files (fd : Fd) = none) : Wf listenFd (s.accept ret) := by
  cases ret with
  | none =>
    refine h.allocate fun hl => absurd (Int.natCast_nonneg listenFd) ?_
    rw [← hl]
    decide
  | some fd =>
    have hfd := hret fd rfl
    have hne : (fd : Fd) ≠ listenFd := by
      intro he
      rw [he, h.listening] at hfd
      cases hfd
    refine ((h.allocate hne).openAs hfd (.connection s.next) ?_).scheduled h.file h.noFault
    rintro r hr
    cases hr
    exact Function.update_self _ _ _

theorem requests_accept (s : Server) (ret : Option ℕ) :
    (s.accept ret).requests = Function.update s.requests s.next (some (acceptFd ret)) := by
  cases ret <;> rfl

/-- The new descriptor is open on the new connection, if there is one. -/
theorem Wf.files_accept (h : Wf listenFd s) {ret : Option ℕ} {o : OpenFile}
    (ho : (s.accept ret).files (acceptFd ret) = some o) : o = .connection s.next := by
  cases ret with
  | none => exact absurd (h.opened _ _ ho) (by decide)
  | some fd =>
    rcases update_some_eq_some.mp ho with ⟨-, ho⟩ | ⟨hne, -⟩
    · exact ho.symm
    · exact absurd rfl hne

/-- A registration is added for the connection a descriptor is open on. -/
theorem Wf.epollEventAdd (h : Wf listenFd s) {fd : Fd} {r : ℕ} (events : EventMask)
    (hfd : ∀ o, s.files fd = some o → o = .connection r) :
    Wf listenFd (s.epollEventAdd fd r events) := by
  unfold Server.epollEventAdd
  split
  · obtain ⟨o, hf⟩ := Option.isSome_iff_exists.mp ‹_›
    refine { __ := h, registered := fun fd' i hi => ?_ }
    by_cases hfd' : fd' = fd
    · rcases EpollSet.data_of_ctl hi with hd | hi
      · rw [hfd', hd]
        exact Or.inr (hfd o hf ▸ hf)
      · exact h.registered fd' i hi
    · exact h.registered fd' i ((EpollSet.ctl_of_ne _ hfd').symm.trans hi)
  · exact h

/-- A timer is added for a request that has none. -/
theorem Wf.timeNAdd (h : Wf listenFd s) {r : ℕ} {fd : Fd} (hr : s.requests r = some fd)
    (h0 : r ≠ 0) (hout : r ∉ s.time.pq.nodes.map TimeNode.request) (tv : Option Timeval) :
    Wf listenFd (s.timeNAdd r tv) := by
  unfold Server.timeNAdd
  split
  · have hnodes := Time.nodes_timeNAdd h.sound r timeoutDefault (some Handler.closeConn) tv
    refine { __ := h, sound := h.sound.timeNAdd _ _ _ _, timers := ?_, handlers := ?_, apart := ?_ }
    · rw [hnodes]
      intro n hn
      rcases Multiset.mem_cons.mp hn with rfl | hn
      · exact ⟨h0, fd, hr⟩
      · exact h.timers n hn
    · rw [hnodes]
      intro n hn
      rcases Multiset.mem_cons.mp hn with rfl | hn
      · rfl
      · exact h.handlers n hn
    · rw [hnodes, Multiset.map_cons, Multiset.nodup_cons]
      exact ⟨hout, h.apart⟩
  · exact h.scheduled h.file (by simp)

/-- **`accept_connection` keeps the tables.** -/
theorem Wf.acceptConnection (h : Wf listenFd s) {ret : Option ℕ}
    (hret : ∀ fd ∈ ret, s.files (fd : Fd) = none) (tv : Option Timeval) :
    Wf listenFd (s.acceptConnection ret tv) := by
  have hnext : s.next ∉ s.time.pq.nodes.map TimeNode.request := by
    intro hm
    obtain ⟨n, hn, hreq⟩ := Multiset.mem_map.mp hm
    obtain ⟨-, fd, hfd⟩ := h.timers n hn
    exact absurd (h.allocated _ fd hfd) (by rw [hreq]; exact Nat.lt_irrefl _)
  have h0 : s.next ≠ 0 := Nat.ne_of_gt (Nat.zero_lt_of_lt (h.allocated 0 _ h.listen))
  have hadd := (h.accept hret).epollEventAdd (epollIn ||| epollEt ||| epollOneshot)
    fun o ho => h.files_accept ho
  have hrequest : ((s.accept ret).epollEventAdd (acceptFd ret) s.next
      (epollIn ||| epollEt ||| epollOneshot)).requests s.next = some (acceptFd ret) := by
    rw [requests_epollEventAdd, requests_accept]
    exact update_some_eq_some.mpr (Or.inl ⟨rfl, rfl⟩)
  have htime : (s.accept ret).time = s.time := by
    cases ret <;> rfl
  refine hadd.timeNAdd hrequest h0 ?_ tv
  rw [time_epollEventAdd, htime]
  exact hnext

/-- **Every step keeps the tables.** -/
theorem Wf.steps (h : Wf listenFd s) {e : ServerEvent} (hs : Steps listenFd s e s') :
    Wf listenFd s' := by
  cases hs with
  | connect => exact h.scheduled h.file h.noFault
  | abort => exact h.scheduled h.file h.noFault
  | ready _ _ hi => exact (h.delivered hi).scheduled h.file h.noFault
  | wait => exact h.scheduled h.file h.noFault
  | expired => exact (h.timeUpdate _).scheduled h.file h.noFault
  | popped _ hsize => exact (h.popped hsize _).1
  | timedOut _ hdue =>
    obtain ⟨h0, fd, hfd⟩ := h.timers _ (PriorityQueue.pqFront_mem hdue.1)
    obtain ⟨hpop, hout⟩ := h.popped hdue.1 _
    exact hpop.closeConn hfd h0 hout
  | acceptConnection _ _ hret =>
    refine Wf.acceptConnection ?_ ?_ _
    · exact h.scheduled h.file h.noFault
    · exact fun fd hfd => (hret fd hfd).2
  | dangling => exact h.scheduled h.file (by simp)
  | hungUp _ _ hne => exact (h.close hne).scheduled h.file h.noFault
  | queued => exact h.scheduled h.file h.noFault
  | handled => exact h.scheduled h.file h.noFault
  | take => exact h.scheduled (by simp) h.noFault
  | access => exact h
  | accessFreed => exact h.scheduled h.file (by simp)
  | openFile hrun hfd =>
    refine (h.openAs hfd .file (by simp)).scheduled ?_ h.noFault
    rintro r fd' hr
    cases hr
    rintro rfl
    cases hfd.symm.trans h.listening
  | closeFile hrun =>
    have hne := h.file _ _ hrun
    exact (h.close (by exact_mod_cast hne)).scheduled (by simp) h.noFault
  | finish => exact h.scheduled (by simp) h.noFault

/-- **The tables are right in every reachable state.** -/
theorem Wf.of_exec {others : List ℕ} {waiting : ℕ} {heap : ℕ → TimeNode ℕ Handler}
    {currentTime : ℕ} {tr : List ServerEvent}
    (h : (machine listenFd others waiting heap currentTime).exec
      (start listenFd others waiting heap currentTime) tr = some s) : Wf listenFd s :=
  Machine.exec_invariant (I := Wf listenFd)
    (fun _ _ _ hI hst => hI.steps (Steps.of_step hst).2) h
    (wf_start others waiting heap currentTime)

/-- What is registered is the address of a request. -/
theorem Wf.requests_of_epoll (h : Wf listenFd s) {fd : Fd} {i : Interest ℕ}
    (hi : s.epoll fd = some i) : s.requests i.data = some fd := by
  rcases h.registered fd i hi with ⟨rfl, hd⟩ | hf
  · rw [hd]
    exact h.listen
  · exact h.owner fd i.data hf

end Wf

/-! ## The events to come -/

section Events

variable {listenFd : ℕ} {s s' : Server}

/-- **The events to come are of distinct requests**: a call of `epoll_event_wait`
reports a descriptor once. -/
theorem Steps.nodup_events {e : ServerEvent} (hs : Steps listenFd s e s')
    (h : (s.phase.events.map EpollEvent.ptr).Nodup) :
    (s'.phase.events.map EpollEvent.ptr).Nodup := by
  cases hs with
  | ready hphase _ _ hnew =>
    rw [hphase] at h
    show ((_ ++ [_]).map EpollEvent.ptr).Nodup
    rw [List.map_append, List.map_singleton, ← List.concat_eq_append]
    exact h.concat hnew
  | wait hphase => rwa [hphase] at h
  | expired hphase => rwa [hphase] at h
  | timedOut =>
    rw [phase_closeConn]
    exact h
  | acceptConnection hphase =>
    rw [phase_acceptConnection]
    rw [hphase] at h
    exact h.of_cons
  | hungUp hphase =>
    rw [hphase] at h
    exact h.of_cons
  | queued hphase =>
    rw [hphase] at h
    exact h.of_cons
  | handled => exact List.nodup_nil
  | connect => exact h
  | abort => exact h
  | popped => exact h
  | dangling => exact h
  | take => exact h
  | access => exact h
  | accessFreed => exact h
  | openFile => exact h
  | closeFile => exact h
  | finish => exact h

theorem nodup_events {others : List ℕ} {waiting : ℕ} {heap : ℕ → TimeNode ℕ Handler}
    {currentTime : ℕ} {tr : List ServerEvent}
    (h : (machine listenFd others waiting heap currentTime).exec
      (start listenFd others waiting heap currentTime) tr = some s) :
    (s.phase.events.map EpollEvent.ptr).Nodup :=
  Machine.exec_invariant (I := fun s => (s.phase.events.map EpollEvent.ptr).Nodup)
    (fun _ _ _ hI hst => (Steps.of_step hst).2.nodup_events hI) h List.nodup_nil

end Events

end Server

end Version1
