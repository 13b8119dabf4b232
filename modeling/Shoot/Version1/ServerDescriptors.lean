import Shoot.Version1.ServerTables

/-!
# Who closes which descriptor

The descriptor of a connection is closed in `handle_events`, when its event
reports an error, a hang-up or no input, and by `Http::close_conn`, when its
timer expires. Nothing keeps the second from happening after the first: the
timer is not marked as deleted, and the request keeps the number. By then the
kernel may have given it to another connection, which is closed in its place
(`Server.closes_another`).

Nor does anything keep the first from happening after the second. The events
are fetched before the timers are looked at, so a timer may free a request
whose event is still to be handled, and `handle_events` reads the number out
of the freed request. If an event of the listening socket comes first, the
number may be that of a new connection by then. What the freed memory holds is
undefined, and the run ends there; the close that `handle_events` makes is
recorded with the number that the request had.

These are the only ways to close a wrong descriptor. In a run, every close of
the two paths is one of the connection's own descriptor, and no number is
closed twice without being accepted in between, if and only if no connection
is closed by both (`Server.closes_own_iff`).

The descriptor -1 of a request for which `accept` failed is not closed by
anything, since it is never open.
-/

namespace Version1

/-- What happens to the descriptors of connections. -/
inductive DescriptorAction where
  /-- `accept` returns `fd`, for a new request. -/
  | accepted (request : ℕ) (fd : Fd)
  /-- `handle_events` closes `fd`, which is open on `was`. -/
  | hungUp (request : ℕ) (fd : Fd) (was : Option OpenFile)
  /-- `close_conn` closes `fd`, which is open on `was`. -/
  | timedOut (request : ℕ) (fd : Fd) (was : Option OpenFile)
deriving DecidableEq, Repr

namespace DescriptorAction

/-- The descriptor is closed. -/
def Closes (fd : Fd) : DescriptorAction → Prop
  | .accepted _ _ => False
  | .hungUp _ fd' _ => fd' = fd
  | .timedOut _ fd' _ => fd' = fd

/-- **A close of the connection's own descriptor.** -/
def OwnClose : DescriptorAction → Prop
  | .accepted _ _ => True
  | .hungUp r fd was => 0 ≤ fd → was = some (.connection r)
  | .timedOut r fd was => 0 ≤ fd → was = some (.connection r)

/-- **No time-out after a hang-up** of the same connection, and no hang-up after a
time-out. -/
def MayPrecede : DescriptorAction → DescriptorAction → Prop
  | .hungUp r _ _, .timedOut r' _ _ => r ≠ r'
  | .timedOut r _ _, .hungUp r' _ _ => r ≠ r'
  | _, _ => True

/-- `accept` has returned the descriptor since it was last closed. -/
def Reopened (fd : Fd) (l : List DescriptorAction) : Prop :=
  ∀ l₁ a l₂, l = l₁ ++ a :: l₂ → a.Closes fd → ∃ r, .accepted r fd ∈ l₂

/-- The descriptor that the time-out of a request closed. -/
def timedOutFd (request : ℕ) : DescriptorAction → Option Fd
  | .timedOut r fd _ => if r = request then some fd else none
  | _ => none

/-- **Each descriptor is closed at most once before `accept` returns it again.** -/
def ClosedOnce (l : List DescriptorAction) : Prop :=
  ∀ fd, 0 ≤ fd → ∀ l₁ a l₂ b l₃, l = l₁ ++ a :: l₂ ++ b :: l₃ → a.Closes fd → b.Closes fd →
    ∃ r, .accepted r fd ∈ l₂

section Lists

variable {l : List DescriptorAction} {x : DescriptorAction} {fd : Fd}

/-- A descriptor that `accept` has just returned. -/
theorem reopened_accepted (r : ℕ) : Reopened fd (l ++ [.accepted r fd]) := by
  intro l₁ a l₂ hl ha
  rcases Log.concat_eq_append_cons hl with ⟨-, rfl, -⟩ | ⟨l₂', rfl, -⟩
  · exact ha.elim
  · exact ⟨r, Log.mem_concat_self⟩

/-- What does not close a descriptor leaves it reopened. -/
theorem Reopened.concat (h : Reopened fd l) (hx : ¬ x.Closes fd) : Reopened fd (l ++ [x]) := by
  intro l₁ a l₂ hl ha
  rcases Log.concat_eq_append_cons hl with ⟨-, rfl, -⟩ | ⟨l₂', rfl, hl'⟩
  · exact absurd ha hx
  · obtain ⟨r, hr⟩ := h l₁ a l₂' hl' ha
    exact ⟨r, List.mem_append_left _ hr⟩

/-- A further close of a descriptor that was reopened. -/
theorem ClosedOnce.concat (h : ClosedOnce l)
    (hx : ∀ fd, 0 ≤ fd → x.Closes fd → Reopened fd l) : ClosedOnce (l ++ [x]) := by
  intro fd hfd l₁ a l₂ b l₃ hl ha hb
  rcases Log.concat_eq_append_cons hl with ⟨-, rfl, hl'⟩ | ⟨l₃', -, hl'⟩
  · exact hx fd hfd hb l₁ a l₂ hl'.symm ha
  · exact h fd hfd l₁ a l₂ b l₃' hl' ha hb

end Lists

end DescriptorAction

namespace Server

open DescriptorAction

/-- The descriptor in a request. One that a time-out has freed is taken to hold still the
one that it had. -/
def heldFd (s : Server) (l : List DescriptorAction) (request : ℕ) : Option Fd :=
  match s.requests request with
  | some fd => some fd
  | none => l.findSome? (timedOutFd request)

/-- What a step does to the descriptors of connections. -/
def recordDescriptors (s : Server) (e : ServerEvent) (l : List DescriptorAction) :
    List DescriptorAction :=
  match e with
  | .acceptConnection (some fd) _ => l ++ [.accepted s.next fd]
  | .dispatch =>
    match s.phase with
    | .handling (a :: _) =>
      match s.heldFd l a.ptr with
      | some fd => if hungUp a.events then l ++ [.hungUp a.ptr fd (s.files fd)] else l
      | none => l
    | _ => l
  | .expireTurn tv =>
    let t_n := s.time.pq.pqFront
    if s.time.Due tv ∧ t_n.handler = some .closeConn then
      match s.requests t_n.request with
      | some fd => l ++ [.timedOut t_n.request fd (s.files fd)]
      | none => l
    else l
  | _ => l

/-- What a run does to the descriptors of connections. -/
def descriptorLog (listenFd : ℕ) (others : List ℕ) (waiting : ℕ) (heap : ℕ → TimeNode ℕ Handler)
    (currentTime : ℕ) (tr : List ServerEvent) : List DescriptorAction :=
  (machine listenFd others waiting heap currentTime).history recordDescriptors
    (start listenFd others waiting heap currentTime) [] tr

section Held

variable {s : Server} {l : List DescriptorAction} {r : ℕ} {fd : Fd}

/-- A request that is allocated holds its descriptor. -/
theorem heldFd_of_some (h : s.requests r = some fd) : s.heldFd l r = some fd := by
  unfold heldFd
  rw [h]

/-- One that is not has timed out. -/
theorem timedOut_of_heldFd (hr : s.requests r = none) (h : s.heldFd l r = some fd) :
    ∃ was, .timedOut r fd was ∈ l := by
  unfold heldFd at h
  rw [hr] at h
  obtain ⟨a, ha, hfd⟩ := List.exists_of_findSome?_eq_some h
  cases a with
  | timedOut r' fd' was =>
    rw [timedOutFd] at hfd
    obtain ⟨rfl, he⟩ := Option.ite_none_right_eq_some.mp hfd
    rw [← Option.some.inj he]
    exact ⟨was, ha⟩
  | accepted => cases hfd
  | hungUp => cases hfd

/-- And what has timed out is found. -/
theorem heldFd_of_timedOut {was : Option OpenFile} (h : .timedOut r fd was ∈ l) :
    ∃ fd', s.heldFd l r = some fd' := by
  unfold heldFd
  split
  · exact ⟨_, rfl⟩
  · refine Option.isSome_iff_exists.mp (List.findSome?_isSome_iff.mpr ⟨_, h, ?_⟩)
    simp [timedOutFd]

end Held

/-! ## Connections that were hung up -/

/-- **What is known of a connection that was closed.** After `handle_events` has closed
it, its request is in no event to come, and no descriptor is open on it. After its timer
has, its request is freed; if there is an event to come of the request, the descriptor was
one that had been open. The requests of the events to come have descriptors that were
open. -/
structure HangUps (s : Server) (l : List DescriptorAction) : Prop where
  events : ∀ r ∈ s.phase.events.map EpollEvent.ptr,
    r < s.next ∧ ∀ fd, s.requests r = some fd → 0 ≤ fd
  handled : ∀ r fd was, .hungUp r fd was ∈ l → r ∉ s.phase.events.map EpollEvent.ptr
  closed : ∀ r fd was, .hungUp r fd was ∈ l → ∀ fd', s.files fd' ≠ some (.connection r)
  old : ∀ r fd was, .hungUp r fd was ∈ l →
    0 < r ∧ r < s.next ∧ 0 ≤ fd ∧ ∀ fd', s.requests r = some fd' → fd' = fd
  gone : ∀ r fd was, .timedOut r fd was ∈ l → r < s.next ∧ s.requests r = none
  stale : ∀ r fd was, .timedOut r fd was ∈ l → r ∈ s.phase.events.map EpollEvent.ptr → 0 ≤ fd

section HangUps

variable {listenFd : ℕ} {s s' : Server} {l : List DescriptorAction}

theorem hangUps_start (others : List ℕ) (waiting : ℕ) (heap : ℕ → TimeNode ℕ Handler)
    (currentTime : ℕ) : HangUps (start listenFd others waiting heap currentTime) [] where
  events _ h := by cases h
  handled _ _ _ h := by cases h
  closed _ _ _ h := by cases h
  old _ _ _ h := by cases h
  gone _ _ _ h := by cases h
  stale _ _ _ h := by cases h

/-- A step that adds no event, and opens nothing for an old request. -/
theorem HangUps.mono (h : HangUps s l)
    (hevents : (s'.phase.events.map EpollEvent.ptr).Sublist (s.phase.events.map EpollEvent.ptr))
    (hnext : s.next ≤ s'.next)
    (hrequests : ∀ r fd, r < s.next → s'.requests r = some fd → s.requests r = some fd)
    (hfiles : ∀ fd r, r < s.next → s'.files fd = some (.connection r) →
      s.files fd = some (.connection r)) : HangUps s' l where
  events r hr := by
    obtain ⟨hlt, hfd⟩ := h.events r (hevents.subset hr)
    exact ⟨Nat.lt_of_lt_of_le hlt hnext, fun fd hr' => hfd fd (hrequests r fd hlt hr')⟩
  handled r fd was hm hr := h.handled r fd was hm (hevents.subset hr)
  closed r fd was hm fd' hf :=
    h.closed r fd was hm fd' (hfiles fd' r (h.old r fd was hm).2.1 hf)
  old r fd was hm := by
    obtain ⟨h0, hlt, hfd, hreq⟩ := h.old r fd was hm
    exact ⟨h0, Nat.lt_of_lt_of_le hlt hnext, hfd, fun fd' hr => hreq fd' (hrequests r fd' hlt hr)⟩
  gone r fd was hm := by
    obtain ⟨hlt, hnone⟩ := h.gone r fd was hm
    refine ⟨Nat.lt_of_lt_of_le hlt hnext, Option.eq_none_iff_forall_ne_some.mpr fun fd' hr => ?_⟩
    cases hnone.symm.trans (hrequests r fd' hlt hr)
  stale r fd was hm hr := h.stale r fd was hm (hevents.subset hr)

/-- A step that only goes on with the events. -/
theorem HangUps.next (h : HangUps s l) (hrequests : s'.requests = s.requests)
    (hnext : s'.next = s.next) (hfiles : s'.files = s.files)
    (hevents : (s'.phase.events.map EpollEvent.ptr).Sublist
      (s.phase.events.map EpollEvent.ptr)) : HangUps s' l := by
  refine h.mono hevents (le_of_eq hnext.symm) ?_ ?_
  · exact fun r fd _ hr => hrequests ▸ hr
  · exact fun fd r _ hf => hfiles ▸ hf

/-- What is not a close can be entered in the log. -/
theorem HangUps.log (h : HangUps s l) {x : DescriptorAction}
    (hx : ∀ r fd was, x ≠ .hungUp r fd was) (hx' : ∀ r fd was, x ≠ .timedOut r fd was) :
    HangUps s (l ++ [x]) where
  events := h.events
  handled r fd was hm :=
    h.handled r fd was ((Log.mem_concat.mp hm).resolve_right fun he => hx r fd was he.symm)
  closed r fd was hm :=
    h.closed r fd was ((Log.mem_concat.mp hm).resolve_right fun he => hx r fd was he.symm)
  old r fd was hm :=
    h.old r fd was ((Log.mem_concat.mp hm).resolve_right fun he => hx r fd was he.symm)
  gone r fd was hm :=
    h.gone r fd was ((Log.mem_concat.mp hm).resolve_right fun he => hx' r fd was he.symm)
  stale r fd was hm :=
    h.stale r fd was ((Log.mem_concat.mp hm).resolve_right fun he => hx' r fd was he.symm)

/-- **A connection times out**: its request is freed. -/
theorem HangUps.timedOut (h : HangUps s l) {r : ℕ} {fd : Fd} {was : Option OpenFile}
    (hlt : r < s.next) (hfd : s.requests r = some fd)
    (hrequests : s'.requests = Function.update s.requests r none) (hnext : s'.next = s.next)
    (hfiles : ∀ fd' r', s'.files fd' = some (.connection r') →
      s.files fd' = some (.connection r'))
    (hphase : s'.phase = s.phase) : HangUps s' (l ++ [.timedOut r fd was]) := by
  have hmono : HangUps s' l := by
    refine h.mono ?_ (le_of_eq hnext.symm) (fun r' fd' _ hr => ?_) fun fd' r' _ => hfiles fd' r'
    · rw [hphase]
    · rw [hrequests] at hr
      exact (update_none_eq_some.mp hr).2
  have hup : ∀ {r' fd' was'}, .hungUp r' fd' was' ∈ l ++ [.timedOut r fd was] →
      DescriptorAction.hungUp r' fd' was' ∈ l :=
    fun hm => (Log.mem_concat.mp hm).resolve_right fun he => by cases he
  refine ⟨hmono.events, fun r' fd' was' hm => hmono.handled r' fd' was' (hup hm),
    fun r' fd' was' hm => hmono.closed r' fd' was' (hup hm),
    fun r' fd' was' hm => hmono.old r' fd' was' (hup hm), fun r' fd' was' hm => ?_,
    fun r' fd' was' hm hr => ?_⟩
  · rcases Log.mem_concat.mp hm with hm | hm
    · exact hmono.gone r' fd' was' hm
    · cases hm
      rw [hnext, hrequests]
      exact ⟨hlt, Function.update_self ..⟩
  · rcases Log.mem_concat.mp hm with hm | hm
    · exact hmono.stale r' fd' was' hm hr
    · cases hm
      rw [hphase] at hr
      exact (h.events r hr).2 fd hfd

/-- An event that is stored is not of a connection that was hung up: those are
not registered. -/
theorem HangUps.ready (hwf : Wf listenFd s) (h : HangUps s l) {fd : Fd} {mask : EventMask}
    {events : List EpollEvent} {i : Interest ℕ} {epoll : EpollSet ℕ} {edge : Bool}
    (hphase : s.phase = .waiting events) (hi : s.epoll fd = some i) :
    HangUps { s with
      epoll := epoll, edge := edge, phase := .waiting (events ++ [⟨mask, i.data⟩]) } l := by
  have hmem : ∀ {r : ℕ}, r ∈ (events ++ [(⟨mask, i.data⟩ : EpollEvent)]).map EpollEvent.ptr →
      r ∈ s.phase.events.map EpollEvent.ptr ∨ r = i.data := by
    intro r hr
    rw [List.map_append, List.mem_append, List.map_singleton, List.mem_singleton] at hr
    rwa [hphase]
  have hreq := hwf.requests_of_epoll hi
  refine ⟨fun r hr => ?_, fun r fd' was hm hr => ?_, h.closed, h.old, h.gone,
    fun r fd' was hm hr => ?_⟩
  · rcases hmem hr with hr | rfl
    · exact h.events r hr
    · refine ⟨hwf.allocated _ fd hreq, fun fd' hfd' => ?_⟩
      rw [← Option.some.inj (hreq.symm.trans hfd')]
      rcases hwf.registered fd i hi with ⟨rfl, -⟩ | hf
      · exact Int.natCast_nonneg listenFd
      · exact hwf.opened fd _ hf
  · rcases hmem hr with hr | rfl
    · exact h.handled r fd' was hm hr
    · rcases hwf.registered fd i hi with ⟨-, hd⟩ | hf
      · exact absurd (h.old _ fd' was hm).1 (by rw [hd]; exact Nat.lt_irrefl 0)
      · exact h.closed _ fd' was hm fd hf
  · rcases hmem hr with hr | rfl
    · exact h.stale r fd' was hm hr
    · cases (h.gone _ fd' was hm).2.symm.trans hreq

/-- **A connection is hung up**: its event was the only one, and its descriptor
the one in the request. -/
theorem HangUps.hungUp (hwf : Wf listenFd s) (h : HangUps s l)
    (hnodup : (s.phase.events.map EpollEvent.ptr).Nodup) {e : EpollEvent}
    {rest : List EpollEvent} {fd : Fd} (hphase : s.phase = .handling (e :: rest))
    (hfd : s.requests e.ptr = some fd) (hne : fd ≠ listenFd) :
    HangUps { s.close fd with phase := .handling rest }
      (l ++ [.hungUp e.ptr fd (s.files fd)]) := by
  rw [hphase] at hnodup
  have hmono : HangUps { s.close fd with phase := .handling rest } l := by
    refine h.mono ?_ (Nat.le_refl _) (fun _ _ _ hr => hr) fun fd' r _ hf => ?_
    · rw [hphase]
      exact List.sublist_cons_self _ _
    · exact (update_none_eq_some.mp hf).2
  have hin := h.events e.ptr (by rw [hphase]; exact List.mem_cons_self)
  have hmem : ∀ {r fd' was}, DescriptorAction.hungUp r fd' was ∈
      l ++ [.hungUp e.ptr fd (s.files fd)] →
        DescriptorAction.hungUp r fd' was ∈ l ∨ (r = e.ptr ∧ fd' = fd) := by
    intro r fd' was hm
    rcases Log.mem_concat.mp hm with hm | hm
    · exact Or.inl hm
    · cases hm
      exact Or.inr ⟨rfl, rfl⟩
  have hout : ∀ {r fd' was}, .timedOut r fd' was ∈ l ++ [.hungUp e.ptr fd (s.files fd)] →
      DescriptorAction.timedOut r fd' was ∈ l :=
    fun hm => (Log.mem_concat.mp hm).resolve_right fun he => by cases he
  refine ⟨hmono.events, ?_, ?_, ?_, fun r fd' was hm => hmono.gone r fd' was (hout hm),
    fun r fd' was hm => hmono.stale r fd' was (hout hm)⟩
  · intro r fd' was hm
    rcases hmem hm with hm | ⟨rfl, rfl⟩
    · exact hmono.handled r fd' was hm
    · exact (List.nodup_cons.mp hnodup).1
  · intro r fd' was hm
    rcases hmem hm with hm | ⟨rfl, rfl⟩
    · exact hmono.closed r fd' was hm
    · intro fd'' hf
      obtain ⟨hff, hf⟩ := update_none_eq_some.mp hf
      exact hff (Option.some.inj ((hwf.owner fd'' _ hf).symm.trans hfd))
  · intro r fd' was hm
    rcases hmem hm with hm | ⟨rfl, rfl⟩
    · exact hmono.old r fd' was hm
    · refine ⟨Nat.pos_of_ne_zero ?_, hin.1, hin.2 _ hfd, fun fd'' hr => ?_⟩
      · intro h0
        rw [h0, hwf.listen, Option.some.injEq] at hfd
        exact hne hfd.symm
      · exact Option.some.inj (hr.symm.trans hfd)

section Record

/-- No timer expires. -/
theorem recordDescriptors_waits {tv : Option Timeval}
    (h : ¬ (s.time.Due tv ∧ s.time.pq.pqFront.handler = some .closeConn)) :
    recordDescriptors s (.expireTurn tv) l = l := if_neg h

/-- The timer at the top expires. -/
theorem recordDescriptors_timedOut {tv : Option Timeval} {fd : Fd} (hdue : s.time.Due tv)
    (hhandler : s.time.pq.pqFront.handler = some .closeConn)
    (hfd : s.requests s.time.pq.pqFront.request = some fd) :
    recordDescriptors s (.expireTurn tv) l
      = l ++ [.timedOut s.time.pq.pqFront.request fd (s.files fd)] := by
  simp only [recordDescriptors, hfd]
  exact if_pos ⟨hdue, hhandler⟩

/-- An event of a connection is handled. -/
theorem recordDescriptors_dispatch {e : EpollEvent} {rest : List EpollEvent} {fd : Fd}
    (hphase : s.phase = .handling (e :: rest)) (hfd : s.heldFd l e.ptr = some fd) :
    recordDescriptors s .dispatch l
      = if Server.hungUp e.events then l ++ [.hungUp e.ptr fd (s.files fd)] else l := by
  simp only [recordDescriptors, hphase, hfd]

end Record

/-- **Every step keeps what is known of the closed connections**, unless the run ends with
it. -/
theorem HangUps.steps (hwf : Wf listenFd s) (h : HangUps s l)
    (hnodup : (s.phase.events.map EpollEvent.ptr).Nodup) {e : ServerEvent}
    (hs : Steps listenFd s e s') (hfault : s'.fault = none) :
    HangUps s' (recordDescriptors s e l) := by
  cases hs with
  | connect => exact h.next rfl rfl rfl (List.Sublist.refl _)
  | abort => exact h.next rfl rfl rfl (List.Sublist.refl _)
  | ready hphase _ hi => exact h.ready hwf hphase hi
  | wait hphase => exact h.next rfl rfl rfl (by rw [hphase]; exact List.Sublist.refl _)
  | expired hphase hwait =>
    rw [recordDescriptors_waits fun hd => hwait hd.1]
    exact h.next rfl rfl rfl (by rw [hphase]; exact List.Sublist.refl _)
  | popped _ _ hskip =>
    rw [recordDescriptors_waits hskip]
    exact h.next rfl rfl rfl (List.Sublist.refl _)
  | timedOut _ hdue hhandler =>
    obtain ⟨-, fd, hfd⟩ := hwf.timers _ (PriorityQueue.pqFront_mem hdue.1)
    rw [recordDescriptors_timedOut hdue hhandler hfd, closeConn, show _ = some fd from hfd]
    exact h.timedOut (hwf.allocated _ fd hfd) hfd rfl rfl
      (fun fd' r hf => (update_none_eq_some.mp hf).2) rfl
  | @acceptConnection ret tv a rest hphase _ _ =>
    have hmono : HangUps (({ s with phase := .handling rest } : Server).acceptConnection ret tv)
        l := by
      refine h.mono ?_ ?_ (fun r fd hr hfd => ?_) fun fd r hr hf => ?_
      · rw [phase_acceptConnection, hphase]
        exact List.sublist_cons_self _ _
      · rw [next_acceptConnection]
        exact Nat.le_succ _
      · rw [requests_acceptConnection] at hfd
        exact (Function.update_of_ne (Nat.ne_of_lt hr) _ _).symm.trans hfd
      · rw [files_acceptConnection] at hf
        exact connection_of_accept (s := { s with phase := .handling rest }) (Nat.ne_of_lt hr) hf
    cases ret with
    | none => exact hmono
    | some fd => exact hmono.log (by simp) (by simp)
  | dangling hphase hfreed => cases hfault
  | hungUp hphase hfd hne hup =>
    rw [recordDescriptors_dispatch hphase (heldFd_of_some hfd), if_pos hup]
    exact h.hungUp hwf hnodup hphase hfd hne
  | queued hphase hfd _ hup =>
    rw [recordDescriptors_dispatch hphase (heldFd_of_some hfd),
      if_neg (by rw [hup]; exact Bool.false_ne_true)]
    exact h.next rfl rfl rfl (by rw [hphase]; exact List.sublist_cons_self _ _)
  | handled hphase => exact h.next rfl rfl rfl (List.nil_sublist _)
  | take => exact h.next rfl rfl rfl (List.Sublist.refl _)
  | access => exact h
  | accessFreed => exact h.next rfl rfl rfl (List.Sublist.refl _)
  | openFile _ hfd =>
    refine h.mono (List.Sublist.refl _) (Nat.le_refl _) (fun _ _ _ hr => hr) ?_
    intro fd' r _ hf
    rcases update_some_eq_some.mp hf with ⟨-, hf⟩ | ⟨-, hf⟩
    · cases hf
    · exact hf
  | closeFile =>
    refine h.mono (List.Sublist.refl _) (Nat.le_refl _) (fun _ _ _ hr => hr) ?_
    exact fun fd' r _ hf => (update_none_eq_some.mp hf).2
  | finish => exact h.next rfl rfl rfl (List.Sublist.refl _)

end HangUps

/-! ## Connections that own their descriptors -/

/-- **Every connection owns its descriptor** until it is closed: every close was
one of the connection's own descriptor, a request that is allocated and was not
hung up has its descriptor, and so has a task its file. -/
structure Owns (s : Server) (l : List DescriptorAction) : Prop where
  once : ClosedOnce l
  own : ∀ a ∈ l, a.OwnClose
  opened : ∀ r fd, s.requests r = some fd → r ≠ 0 → 0 ≤ fd →
    (∀ fd' was, .hungUp r fd' was ∉ l) → s.files fd = some (.connection r)
  reopened : ∀ fd r, s.files fd = some (.connection r) → Reopened fd l
  file : ∀ r fd, s.running = some ⟨r, some fd⟩ → s.files (fd : Fd) = some .file

section Owns

variable {listenFd : ℕ} {s s' : Server} {l : List DescriptorAction}

theorem owns_start (others : List ℕ) (waiting : ℕ) (heap : ℕ → TimeNode ℕ Handler)
    (currentTime : ℕ) : Owns (start listenFd others waiting heap currentTime) [] where
  once fd _ l₁ a l₂ b l₃ hl := by simp at hl
  own _ h := by cases h
  opened r fd hr h0 := by
    rw [requests_start] at hr
    rcases update_some_eq_some.mp hr with ⟨hr, -⟩ | ⟨-, hr⟩
    · exact absurd hr h0
    · cases hr
  reopened fd r _ l₁ a l₂ hl := by simp at hl
  file _ _ h := by cases h

/-- A step that leaves the connections alone. -/
theorem Owns.mono (h : Owns s l) (hrequests : s'.requests = s.requests)
    (hfiles : ∀ fd r, s'.files fd = some (.connection r) ↔ s.files fd = some (.connection r))
    (hfile : ∀ r fd, s'.running = some ⟨r, some fd⟩ → s'.files (fd : Fd) = some .file) :
    Owns s' l where
  once := h.once
  own := h.own
  opened r fd hr h0 hfd hup := (hfiles fd r).mpr (h.opened r fd (hrequests ▸ hr) h0 hfd hup)
  reopened fd r hf := h.reopened fd r ((hfiles fd r).mp hf)
  file := hfile

/-- A step that opens and closes nothing. -/
theorem Owns.next (h : Owns s l) (hrequests : s'.requests = s.requests)
    (hfiles : s'.files = s.files) (hrunning : s'.running = s.running) : Owns s' l := by
  refine h.mono hrequests (fun fd r => by rw [hfiles]) fun r fd hr => ?_
  rw [hfiles]
  exact h.file r fd (hrunning ▸ hr)

/-- **A connection closes its own descriptor**, and is then hung up or gone. -/
theorem Owns.close (h : Owns s l) {x : DescriptorAction} {r : ℕ} {fd : Fd}
    (hrequests : ∀ r' fd', s'.requests r' = some fd' → s.requests r' = some fd')
    (hfiles : s'.files = Function.update s.files fd none)
    (hrunning : s'.running = s.running)
    (hx : ∀ fd', x.Closes fd' → fd' = fd) (hown : x.OwnClose)
    (hconn : 0 ≤ fd → s.files fd = some (.connection r))
    (hgone : s'.requests r = none ∨ ∃ fd' was, x = .hungUp r fd' was) : Owns s' (l ++ [x]) where
  once := by
    refine h.once.concat fun fd' hfd' hc => ?_
    obtain rfl := hx fd' hc
    exact h.reopened fd' r (hconn hfd')
  own a ha := by
    rcases Log.mem_concat.mp ha with ha | ha
    · exact h.own a ha
    · rw [ha]
      exact hown
  opened r' fd' hr' h0 hfd' hup := by
    have hf := h.opened r' fd' (hrequests r' fd' hr') h0 hfd' fun fd'' was hm =>
      hup fd'' was (List.mem_append_left _ hm)
    rw [hfiles]
    refine update_none_eq_some.mpr ⟨?_, hf⟩
    -- another connection on the same descriptor would be this one
    rintro rfl
    cases (hconn hfd').symm.trans hf
    rcases hgone with hgone | ⟨fd'', was, rfl⟩
    · cases hgone.symm.trans hr'
    · exact hup fd'' was Log.mem_concat_self
  reopened fd' r' hf := by
    rw [hfiles] at hf
    obtain ⟨hne, hf⟩ := update_none_eq_some.mp hf
    exact (h.reopened fd' r' hf).concat fun hc => hne (hx fd' hc)
  file r' fd' hr' := by
    rw [hrunning] at hr'
    have hf := h.file r' fd' hr'
    rw [hfiles]
    refine update_none_eq_some.mpr ⟨?_, hf⟩
    rintro rfl
    cases (hconn (Int.natCast_nonneg fd')).symm.trans hf

/-- **A connection is accepted** on a descriptor that was not open. -/
theorem Owns.accept (h : Owns s l) {fd : ℕ}
    (hfd : s.files (fd : Fd) = none)
    (hrequests : s'.requests = Function.update s.requests s.next (some (fd : Fd)))
    (hfiles : s'.files = Function.update s.files (fd : Fd) (some (.connection s.next)))
    (hrunning : s'.running = s.running) : Owns s' (l ++ [.accepted s.next fd]) where
  once := h.once.concat fun _ _ hc => hc.elim
  own a ha := by
    rcases Log.mem_concat.mp ha with ha | ha
    · exact h.own a ha
    · rw [ha]
      trivial
  opened r fd' hr h0 hfd' hup := by
    rw [hrequests] at hr
    rw [hfiles]
    rcases update_some_eq_some.mp hr with ⟨rfl, rfl⟩ | ⟨-, hr⟩
    · exact update_some_eq_some.mpr (Or.inl ⟨rfl, rfl⟩)
    · have hf := h.opened r fd' hr h0 hfd' fun fd'' was hm =>
        hup fd'' was (List.mem_append_left _ hm)
      refine update_some_eq_some.mpr (Or.inr ⟨?_, hf⟩)
      rintro rfl
      cases hfd.symm.trans hf
  reopened fd' r hf := by
    rw [hfiles] at hf
    rcases update_some_eq_some.mp hf with ⟨rfl, -⟩ | ⟨-, hf⟩
    · exact reopened_accepted _
    · exact (h.reopened fd' r hf).concat fun hc => hc
  file r fd' hr := by
    rw [hrunning] at hr
    have hf := h.file r fd' hr
    rw [hfiles]
    refine update_some_eq_some.mpr (Or.inr ⟨?_, hf⟩)
    intro he
    rw [he] at hf
    cases hfd.symm.trans hf

/-- **Every step keeps the owners**, if no connection is closed by both paths. -/
theorem Owns.steps (hwf : Wf listenFd s) (hh : HangUps s l) (h : Owns s l) {e : ServerEvent}
    (hp : (recordDescriptors s e l).Pairwise MayPrecede) (hs : Steps listenFd s e s') :
    Owns s' (recordDescriptors s e l) := by
  cases hs with
  | connect => exact h.next rfl rfl rfl
  | abort => exact h.next rfl rfl rfl
  | ready => exact h.next rfl rfl rfl
  | wait => exact h.next rfl rfl rfl
  | expired _ hwait =>
    rw [recordDescriptors_waits fun hd => hwait hd.1]
    exact h.next rfl rfl rfl
  | popped _ _ hskip =>
    rw [recordDescriptors_waits hskip]
    exact h.next rfl rfl rfl
  | timedOut _ hdue hhandler =>
    obtain ⟨h0, fd, hfd⟩ := hwf.timers _ (PriorityQueue.pqFront_mem hdue.1)
    rw [recordDescriptors_timedOut hdue hhandler hfd] at hp ⊢
    have hup : ∀ fd' was, .hungUp s.time.pq.pqFront.request fd' was ∉ l := by
      intro fd' was hm
      exact (Log.pairwise_concat.mp hp).2 _ hm rfl
    rw [closeConn, show _ = some fd from hfd]
    refine h.close (r := s.time.pq.pqFront.request) ?_ rfl rfl ?_ ?_ ?_ ?_
    · exact fun r' fd' hr' => (update_none_eq_some.mp hr').2
    · exact fun fd' hc => hc.symm
    · exact fun hnn => h.opened _ fd hfd h0 hnn hup
    · exact fun hnn => h.opened _ fd hfd h0 hnn hup
    · exact Or.inl (Function.update_self _ _ _)
  | @acceptConnection ret tv a rest hphase _ hret =>
    cases ret with
    | none =>
      refine ⟨h.once, h.own, fun r fd hr h0 hfd hup => ?_, ?_, ?_⟩
      · rw [requests_acceptConnection] at hr
        rw [files_acceptConnection]
        rcases update_some_eq_some.mp hr with ⟨-, rfl⟩ | ⟨-, hr⟩
        · exact absurd hfd (by decide)
        · exact h.opened r fd hr h0 hfd hup
      · rw [files_acceptConnection]
        exact h.reopened
      · rw [files_acceptConnection, running_acceptConnection]
        exact h.file
    | some fd =>
      refine h.accept (hret fd rfl).2 ?_ ?_ ?_
      · exact requests_acceptConnection _ _ _
      · exact files_acceptConnection _ _ _
      · exact running_acceptConnection _ _ _
  | @dangling e rest hphase hfreed =>
    have hsame : recordDescriptors s .dispatch l = l := by
      cases hfd : s.heldFd l e.ptr with
      | none => simp only [recordDescriptors, hphase, hfd]
      | some fd =>
        rw [recordDescriptors_dispatch hphase hfd] at hp ⊢
        split at hp
        · -- the request has timed out before
          obtain ⟨was, hm⟩ := timedOut_of_heldFd hfreed hfd
          exact absurd rfl ((Log.pairwise_concat.mp hp).2 _ hm)
        · exact if_neg ‹_›
    rw [hsame]
    exact h.next rfl rfl rfl
  | @hungUp e rest fd hphase hfd hne hup =>
    have hin : e.ptr ∈ s.phase.events.map EpollEvent.ptr := by
      rw [hphase]
      exact List.mem_cons_self
    have h0 : e.ptr ≠ 0 := by
      intro h0
      rw [h0, hwf.listen, Option.some.injEq] at hfd
      exact hne hfd.symm
    have hconn : 0 ≤ fd → s.files fd = some (.connection e.ptr) := fun hnn =>
      h.opened _ fd hfd h0 hnn fun fd' was hm => hh.handled _ fd' was hm hin
    rw [recordDescriptors_dispatch hphase (heldFd_of_some hfd), if_pos hup]
    refine h.close (r := e.ptr) (fun _ _ hr => hr) rfl rfl ?_ hconn hconn ?_
    · exact fun fd' hc => hc.symm
    · exact Or.inr ⟨fd, _, rfl⟩
  | queued hphase hfd _ hup =>
    rw [recordDescriptors_dispatch hphase (heldFd_of_some hfd),
      if_neg (by rw [hup]; exact Bool.false_ne_true)]
    exact h.next rfl rfl rfl
  | handled => exact h.next rfl rfl rfl
  | take => exact h.mono rfl (fun _ _ => Iff.rfl) (by simp)
  | access => exact h
  | accessFreed => exact h.next rfl rfl rfl
  | @openFile fd request _ hfd =>
    refine h.mono rfl (fun fd' r => ⟨fun hf => ?_, fun hf => ?_⟩) fun r fd' hr => ?_
    · rcases update_some_eq_some.mp hf with ⟨-, hf⟩ | ⟨-, hf⟩
      · cases hf
      · exact hf
    · refine update_some_eq_some.mpr (Or.inr ⟨?_, hf⟩)
      rintro rfl
      cases hfd.symm.trans hf
    · cases hr
      exact update_some_eq_some.mpr (Or.inl ⟨rfl, rfl⟩)
  | closeFile hrun =>
    refine h.mono rfl (fun fd' r => ⟨fun hf => ?_, fun hf => ?_⟩) (by simp)
    · exact (update_none_eq_some.mp hf).2
    · refine update_none_eq_some.mpr ⟨?_, hf⟩
      rintro rfl
      cases (h.file _ _ hrun).symm.trans hf
  | finish => exact h.mono rfl (fun _ _ => Iff.rfl) (by simp)

end Owns

/-! ## Runs -/

section Runs

variable {listenFd : ℕ} {s s' : Server} {l : List DescriptorAction}

/-- What a step enters in the log. -/
theorem recordDescriptors_cases (s : Server) (e : ServerEvent) (l : List DescriptorAction) :
    recordDescriptors s e l = l
      ∨ (∃ r fd, recordDescriptors s e l = l ++ [.accepted r fd])
      ∨ (∃ a rest fd, s.phase = .handling (a :: rest) ∧ s.heldFd l a.ptr = some fd
          ∧ recordDescriptors s e l = l ++ [.hungUp a.ptr fd (s.files fd)])
      ∨ ∃ r fd, s.requests r = some fd
          ∧ recordDescriptors s e l = l ++ [.timedOut r fd (s.files fd)] := by
  cases e with
  | acceptConnection ret tv =>
    cases ret with
    | none => exact Or.inl rfl
    | some fd => exact Or.inr (Or.inl ⟨s.next, fd, rfl⟩)
  | dispatch =>
    rw [recordDescriptors]
    split
    · split
      · split
        · exact Or.inr (Or.inr (Or.inl ⟨_, _, _, ‹_›, ‹_›, rfl⟩))
        · exact Or.inl rfl
      · exact Or.inl rfl
    · exact Or.inl rfl
  | expireTurn tv =>
    rw [recordDescriptors]
    split
    · split
      · exact Or.inr (Or.inr (Or.inr ⟨_, _, ‹_›, rfl⟩))
      · exact Or.inl rfl
    · exact Or.inl rfl
  | connect => exact Or.inl rfl
  | abort => exact Or.inl rfl
  | ready => exact Or.inl rfl
  | wait => exact Or.inl rfl
  | handled => exact Or.inl rfl
  | take => exact Or.inl rfl
  | access => exact Or.inl rfl
  | openFile => exact Or.inl rfl
  | closeFile => exact Or.inl rfl
  | finish => exact Or.inl rfl

/-- What was recorded stays recorded. -/
theorem prefix_recordDescriptors (s : Server) (e : ServerEvent) (l : List DescriptorAction) :
    l <+: recordDescriptors s e l := by
  rcases recordDescriptors_cases s e l with h | ⟨r, fd, h⟩ | ⟨a, rest, fd, -, -, h⟩ | ⟨r, fd, -, h⟩
  · rw [h]
  · exact ⟨[.accepted r fd], h.symm⟩
  · exact ⟨[.hungUp a.ptr fd (s.files fd)], h.symm⟩
  · exact ⟨[.timedOut r fd (s.files fd)], h.symm⟩

/-- **The second close of a connection** is not one of its own descriptor, since none is
open on the connection. -/
theorem HangUps.mayPrecede (hwf : Wf listenFd s) (h : HangUps s l) (hp : l.Pairwise MayPrecede)
    {e : ServerEvent} (hown : ∀ a ∈ recordDescriptors s e l, a.OwnClose) :
    (recordDescriptors s e l).Pairwise MayPrecede := by
  rcases recordDescriptors_cases s e l with hr | ⟨r, fd, hr⟩ | ⟨b, rest, fd, hphase, hfd, hr⟩
    | ⟨r, fd, hfd, hr⟩
  · rw [hr]
    exact hp
  · rw [hr]
    refine Log.pairwise_concat.mpr ⟨hp, fun a _ => ?_⟩
    cases a <;> trivial
  · rw [hr] at hown ⊢
    refine Log.pairwise_concat.mpr ⟨hp, fun a ha => ?_⟩
    cases a with
    | accepted => trivial
    | hungUp => trivial
    | timedOut r' fd' was =>
      rintro rfl
      have hfreed := (h.gone b.ptr fd' was ha).2
      obtain ⟨was', hm⟩ := timedOut_of_heldFd hfreed hfd
      have hnn : 0 ≤ fd := h.stale b.ptr fd was' hm (by rw [hphase]; exact List.mem_cons_self)
      have hwas : s.files fd = some (.connection b.ptr) := hown _ Log.mem_concat_self hnn
      cases hfreed.symm.trans (hwf.owner fd _ hwas)
  · rw [hr] at hown ⊢
    refine Log.pairwise_concat.mpr ⟨hp, fun a ha => ?_⟩
    cases a with
    | accepted => trivial
    | timedOut => trivial
    | hungUp r' fd' was =>
      rintro rfl
      obtain ⟨-, -, hnn, hreq⟩ := h.old r' fd' was ha
      have hwas := hown _ Log.mem_concat_self
      rw [← hreq fd hfd] at hnn
      exact h.closed r' fd' was ha fd (hwas hnn)

/-- Every request that is not allocated any more has timed out. -/
def Logged (s : Server) (l : List DescriptorAction) : Prop :=
  ∀ r < s.next, s.requests r = none → ∃ fd was, DescriptorAction.timedOut r fd was ∈ l

theorem Logged.steps (hwf : Wf listenFd s) (h : Logged s l) {e : ServerEvent}
    (hs : Steps listenFd s e s') : Logged s' (recordDescriptors s e l) := by
  have hsame : s'.next = s.next → s'.requests = s.requests →
      Logged s' (recordDescriptors s e l) := by
    intro hnext hreq r hr hnone
    rw [hnext] at hr
    rw [hreq] at hnone
    obtain ⟨fd, was, hm⟩ := h r hr hnone
    exact ⟨fd, was, (prefix_recordDescriptors s e l).subset hm⟩
  cases hs with
  | timedOut _ hdue hhandler =>
    obtain ⟨-, fd, hfd⟩ := hwf.timers _ (PriorityQueue.pqFront_mem hdue.1)
    rw [recordDescriptors_timedOut hdue hhandler hfd, closeConn, show _ = some fd from hfd]
    intro r hr hnone
    by_cases hr' : r = s.time.pq.pqFront.request
    · exact ⟨fd, s.files fd, by rw [hr']; exact Log.mem_concat_self⟩
    · have hold : s.requests r = none :=
        (Function.update_of_ne hr' none s.requests).symm.trans hnone
      obtain ⟨fd', was, hm⟩ := h r hr hold
      exact ⟨fd', was, List.mem_append_left _ hm⟩
  | acceptConnection hphase _ _ =>
    intro r hr hnone
    rw [next_acceptConnection] at hr
    rw [requests_acceptConnection] at hnone
    rcases Nat.lt_succ_iff_lt_or_eq.mp hr with hr | rfl
    · have hold : s.requests r = none := (Function.update_of_ne hr.ne _ _).symm.trans hnone
      obtain ⟨fd, was, hm⟩ := h r hr hold
      exact ⟨fd, was, (prefix_recordDescriptors s _ l).subset hm⟩
    · cases (Function.update_self ..).symm.trans hnone
  | _ => exact hsame rfl rfl

/-- **The condition is exact for a log**: if no connection is closed by both paths every
connection owns its descriptor, and if one is a wrong descriptor is closed. -/
def Exact (s : Server) (l : List DescriptorAction) : Prop :=
  (s.fault = none → HangUps s l) ∧ (l.Pairwise MayPrecede → Owns s l)
    ∧ ((∀ a ∈ l, a.OwnClose) → l.Pairwise MayPrecede)

/-- Every step keeps the condition exact. -/
theorem Exact.steps (h : Exact s l) (hwf : Wf listenFd s)
    (hnodup : (s.phase.events.map EpollEvent.ptr).Nodup) (hfault : s.fault = none)
    {e : ServerEvent} (hs : Steps listenFd s e s') : Exact s' (recordDescriptors s e l) := by
  obtain ⟨hh, howns, hpair⟩ := h
  have hpre := prefix_recordDescriptors s e l
  refine ⟨(hh hfault).steps hwf hnodup hs, fun hp => ?_, fun hown => ?_⟩
  · exact (howns (hp.sublist hpre.sublist)).steps hwf (hh hfault) hp hs
  · exact (hh hfault).mayPrecede hwf (hpair fun a ha => hown a (hpre.subset ha)) hown

/-- The condition is exact for the log of every run. -/
theorem exact_of_exec {others : List ℕ} {waiting : ℕ} {heap : ℕ → TimeNode ℕ Handler}
    {currentTime : ℕ} {tr : List ServerEvent}
    (h : (machine listenFd others waiting heap currentTime).exec
      (start listenFd others waiting heap currentTime) tr = some s) :
    Exact s (descriptorLog listenFd others waiting heap currentTime tr)
      ∧ Logged s (descriptorLog listenFd others waiting heap currentTime tr) := by
  refine Machine.history_invariant (I := fun s l => Exact s l ∧ Logged s l) ?_ ?_ h
  · refine ⟨⟨fun _ => hangUps_start others waiting heap currentTime,
      fun _ => owns_start others waiting heap currentTime, fun _ => List.Pairwise.nil⟩, ?_⟩
    intro r hr hnone
    obtain rfl : r = 0 := Nat.lt_one_iff.mp hr
    rw [requests_start, Function.update_self] at hnone
    cases hnone
  · intro tr t e t' l ht hs ⟨hexact, hlogged⟩
    obtain ⟨hfault, hsteps⟩ := Steps.of_step hs
    exact ⟨hexact.steps (Wf.of_exec ht) (nodup_events ht) hfault hsteps,
      hlogged.steps (Wf.of_exec ht) hsteps⟩

/-- **No close goes unrecorded**: where `handle_events` has a hung-up event before it, of a
request that is allocated or was freed, the descriptor it closes is entered in the log. -/
theorem hangUp_recorded {others : List ℕ} {waiting : ℕ} {heap : ℕ → TimeNode ℕ Handler}
    {currentTime : ℕ} {tr : List ServerEvent} {a : EpollEvent} {rest : List EpollEvent}
    (h : (machine listenFd others waiting heap currentTime).exec
      (start listenFd others waiting heap currentTime) tr = some s) (hfault : s.fault = none)
    (hphase : s.phase = .handling (a :: rest)) (hup : Server.hungUp a.events = true) :
    ∃ fd, recordDescriptors s .dispatch (descriptorLog listenFd others waiting heap currentTime tr)
      = descriptorLog listenFd others waiting heap currentTime tr
        ++ [.hungUp a.ptr fd (s.files fd)] := by
  obtain ⟨⟨hh, -, -⟩, hlogged⟩ := exact_of_exec h
  have hlt : a.ptr < s.next :=
    ((hh hfault).events a.ptr (by rw [hphase]; exact List.mem_cons_self)).1
  have hheld : ∃ fd, s.heldFd (descriptorLog listenFd others waiting heap currentTime tr) a.ptr
      = some fd := by
    cases hr : s.requests a.ptr with
    | some fd => exact ⟨fd, heldFd_of_some hr⟩
    | none =>
      obtain ⟨fd, was, hm⟩ := hlogged a.ptr hlt hr
      exact heldFd_of_timedOut hm
  obtain ⟨fd, hfd⟩ := hheld
  exact ⟨fd, (recordDescriptors_dispatch hphase hfd).trans (if_pos hup)⟩

/-- **The connections close their own descriptors, each once**, in exactly the
runs in which no connection is closed by both paths: no timer expires for one that
`handle_events` has closed, and no hang-up is handled for one that its timer has
closed. Then no descriptor is closed twice without being returned by `accept` in
between, and what a connection closes is never open on another one. -/
theorem closes_own_iff {others : List ℕ} {waiting : ℕ} {heap : ℕ → TimeNode ℕ Handler}
    {currentTime : ℕ} {tr : List ServerEvent}
    (h : (machine listenFd others waiting heap currentTime).exec
      (start listenFd others waiting heap currentTime) tr = some s) :
    (ClosedOnce (descriptorLog listenFd others waiting heap currentTime tr)
        ∧ ∀ a ∈ descriptorLog listenFd others waiting heap currentTime tr, a.OwnClose)
      ↔ (descriptorLog listenFd others waiting heap currentTime tr).Pairwise MayPrecede := by
  obtain ⟨⟨-, howns, hpair⟩, -⟩ := exact_of_exec h
  exact ⟨fun hl => hpair hl.2, fun hp => ⟨(howns hp).once, (howns hp).own⟩⟩

/-- One connection times out, and the next one on its number is hung up. -/
theorem closes_own_iff_reused :
    ∃ s, (machine 5 [0, 1, 2, 3, 4] 1 (fun _ => ⟨0, 0, none, 0⟩) 0).exec
        (start 5 [0, 1, 2, 3, 4] 1 (fun _ => ⟨0, 0, none, 0⟩) 0)
        [.ready 5 epollIn, .wait, .expireTurn none,
          .acceptConnection (some 6) (some ⟨0, 0, by decide⟩), .handled,
          .connect, .ready 5 epollIn, .wait, .expireTurn (some ⟨0, 500000, by decide⟩),
          .expireTurn none, .acceptConnection (some 6) (some ⟨0, 500000, by decide⟩), .handled,
          .ready 6 epollHup, .wait, .expireTurn (some ⟨0, 600000, by decide⟩), .dispatch] = some s
      ∧ ClosedOnce [.accepted 1 6, .timedOut 1 6 (some (.connection 1)), .accepted 2 6,
          .hungUp 2 6 (some (.connection 2))] := by
  have hlog : descriptorLog 5 [0, 1, 2, 3, 4] 1 (fun _ => ⟨0, 0, none, 0⟩) 0
      [.ready 5 epollIn, .wait, .expireTurn none,
        .acceptConnection (some 6) (some ⟨0, 0, by decide⟩), .handled,
        .connect, .ready 5 epollIn, .wait, .expireTurn (some ⟨0, 500000, by decide⟩),
        .expireTurn none, .acceptConnection (some 6) (some ⟨0, 500000, by decide⟩), .handled,
        .ready 6 epollHup, .wait, .expireTurn (some ⟨0, 600000, by decide⟩), .dispatch]
      = [.accepted 1 6, .timedOut 1 6 (some (.connection 1)), .accepted 2 6,
          .hungUp 2 6 (some (.connection 2))] := by
    decide +kernel
  have hrun : ((machine 5 [0, 1, 2, 3, 4] 1 (fun _ => ⟨0, 0, none, 0⟩) 0).exec
      (start 5 [0, 1, 2, 3, 4] 1 (fun _ => ⟨0, 0, none, 0⟩) 0)
        [.ready 5 epollIn, .wait, .expireTurn none,
          .acceptConnection (some 6) (some ⟨0, 0, by decide⟩), .handled,
          .connect, .ready 5 epollIn, .wait, .expireTurn (some ⟨0, 500000, by decide⟩),
          .expireTurn none, .acceptConnection (some 6) (some ⟨0, 500000, by decide⟩), .handled,
          .ready 6 epollHup, .wait, .expireTurn (some ⟨0, 600000, by decide⟩),
          .dispatch]).isSome = true := by
    decide +kernel
  obtain ⟨s, hs⟩ := Option.isSome_iff_exists.mp hrun
  have hiff := closes_own_iff hs
  rw [hlog] at hiff
  exact ⟨s, hs, (hiff.mpr (by simp [MayPrecede])).1⟩

/-- **A timer closes the descriptor of another connection.** The first
connection is hung up, and `accept` returns its number again; its timer then
closes the second connection, whose own timer closes the number once more. -/
theorem closes_another :
    ((machine 5 [0, 1, 2, 3, 4] 1 (fun _ => ⟨0, 0, none, 0⟩) 0).exec
        (start 5 [0, 1, 2, 3, 4] 1 (fun _ => ⟨0, 0, none, 0⟩) 0)
        [.ready 5 epollIn, .wait, .expireTurn none,
          .acceptConnection (some 6) (some ⟨0, 0, by decide⟩), .handled,
          .ready 6 epollHup, .wait, .expireTurn (some ⟨0, 1000, by decide⟩), .dispatch, .handled,
          .connect, .ready 5 epollIn, .wait, .expireTurn (some ⟨0, 100000, by decide⟩),
          .acceptConnection (some 6) (some ⟨0, 100000, by decide⟩), .handled,
          .connect, .ready 5 epollIn, .wait, .expireTurn (some ⟨0, 600000, by decide⟩),
          .expireTurn (some ⟨0, 600000, by decide⟩)]).isSome = true
      ∧ descriptorLog 5 [0, 1, 2, 3, 4] 1 (fun _ => ⟨0, 0, none, 0⟩) 0
        [.ready 5 epollIn, .wait, .expireTurn none,
          .acceptConnection (some 6) (some ⟨0, 0, by decide⟩), .handled,
          .ready 6 epollHup, .wait, .expireTurn (some ⟨0, 1000, by decide⟩), .dispatch, .handled,
          .connect, .ready 5 epollIn, .wait, .expireTurn (some ⟨0, 100000, by decide⟩),
          .acceptConnection (some 6) (some ⟨0, 100000, by decide⟩), .handled,
          .connect, .ready 5 epollIn, .wait, .expireTurn (some ⟨0, 600000, by decide⟩),
          .expireTurn (some ⟨0, 600000, by decide⟩)]
        = [.accepted 1 6, .hungUp 1 6 (some (.connection 1)), .accepted 2 6,
            .timedOut 1 6 (some (.connection 2)), .timedOut 2 6 none]
      ∧ ¬ ClosedOnce [.accepted 1 6, .hungUp 1 6 (some (.connection 1)), .accepted 2 6,
            .timedOut 1 6 (some (.connection 2)), .timedOut 2 6 none] := by
  refine ⟨by decide +kernel, by decide +kernel, fun h => ?_⟩
  obtain ⟨r, hr⟩ := h 6 (by decide)
    [.accepted 1 6, .hungUp 1 6 (some (.connection 1)), .accepted 2 6]
    (.timedOut 1 6 (some (.connection 2))) [] (.timedOut 2 6 none) [] rfl rfl rfl
  cases hr

-- The other order: the timer closes and frees the first connection, the number is accepted
-- again, and the event that was fetched before closes the second connection.
example :
    descriptorLog 5 [0, 1, 2, 3, 4] 1 (fun _ => ⟨0, 0, none, 0⟩) 0
      [.ready 5 epollIn, .wait, .expireTurn none,
        .acceptConnection (some 6) (some ⟨0, 0, by decide⟩), .handled,
        .connect, .ready 5 epollIn, .ready 6 (epollIn ||| epollHup), .wait,
        .expireTurn (some ⟨0, 500000, by decide⟩), .expireTurn none,
        .acceptConnection (some 6) (some ⟨0, 500000, by decide⟩), .dispatch]
      = [.accepted 1 6, .timedOut 1 6 (some (.connection 1)), .accepted 2 6,
          .hungUp 1 6 (some (.connection 2))] := by
  decide +kernel

end Runs

end Server

end Version1
