import Shoot.Version1.ServerTables

/-!
# Connections that are left waiting

The listening socket is registered with `EPOLLET`, so it is reported once after
any number of arrivals, and `accept_connection` calls `accept` once. If more than
one connection waits by then, or `accept` fails, the others are left in the
backlog: the main thread goes back to `epoll_event_wait`, which has nothing to
report until somebody else connects (`Server.left_waiting`). The socket is
non-blocking and could be drained, as `Http::read_` drains a connection.

In every state of a run each waiting connection is **announced**, by an event
that is due or one that is still to be handled, if and only if each `accept`
takes the last connection, or finds a further event due
(`Server.announced_iff`).
-/

namespace Version1

namespace Server

/-- **The connections that wait are announced**: an event of the listening
socket is due or still to be handled, if there are any. -/
def Announced (s : Server) : Prop :=
  s.edge = true ∨ 0 ∈ s.phase.events.map EpollEvent.ptr ∨ s.backlog = 0

/-- **The call of `accept` leaves no connection behind**, except where a further
event is due. -/
def AcceptsLast (s : Server) : ServerEvent → Prop
  | .acceptConnection (some _) _ => s.backlog ≤ 1 ∨ s.edge = true
  | .acceptConnection none _ => s.backlog = 0 ∨ s.edge = true
  | _ => True

instance : ∀ (s : Server) (e : ServerEvent), Decidable (s.AcceptsLast e)
  | s, .acceptConnection (some _) _ => inferInstanceAs (Decidable (s.backlog ≤ 1 ∨ s.edge = true))
  | s, .acceptConnection none _ => inferInstanceAs (Decidable (s.backlog = 0 ∨ s.edge = true))
  | _, .connect => isTrue trivial
  | _, .abort => isTrue trivial
  | _, .ready _ _ => isTrue trivial
  | _, .wait => isTrue trivial
  | _, .expireTurn _ => isTrue trivial
  | _, .dispatch => isTrue trivial
  | _, .handled => isTrue trivial
  | _, .take => isTrue trivial
  | _, .access => isTrue trivial
  | _, .openFile _ => isTrue trivial
  | _, .closeFile => isTrue trivial
  | _, .finish => isTrue trivial

section Announced

variable {listenFd : ℕ} {s s' : Server}

theorem announced_start (others : List ℕ) (waiting : ℕ) (heap : ℕ → TimeNode ℕ Handler)
    (currentTime : ℕ) : Announced (start listenFd others waiting heap currentTime) := by
  by_cases hw : 1 ≤ waiting
  · exact Or.inl (decide_eq_true hw)
  · exact Or.inr (Or.inr (Nat.lt_one_iff.mp (Nat.not_le.mp hw)))

/-- A step that goes on with the events, but not past one of the listening
socket. -/
theorem Announced.mono (h : s.Announced) (hedge : s.edge = true → s'.edge = true)
    (hevents : 0 ∈ s.phase.events.map EpollEvent.ptr → 0 ∈ s'.phase.events.map EpollEvent.ptr)
    (hbacklog : s.backlog = 0 → s'.backlog = 0) : s'.Announced :=
  h.imp hedge (Or.imp hevents hbacklog)

/-- Handling an event of a connection goes past no event of the listening
socket. -/
theorem mem_rest (hwf : Wf listenFd s) {e : EpollEvent} {rest : List EpollEvent} {fd : Fd}
    (hphase : s.phase = .handling (e :: rest)) (hfd : s.requests e.ptr = some fd)
    (hne : fd ≠ listenFd) (hm : 0 ∈ s.phase.events.map EpollEvent.ptr) :
    0 ∈ rest.map EpollEvent.ptr := by
  rw [hphase] at hm
  rcases List.mem_cons.mp hm with h0 | hm
  · rw [← h0, hwf.listen, Option.some.injEq] at hfd
    exact absurd hfd.symm hne
  · exact hm

/-- **What `accept_connection` leaves**: the event was the only one of the
listening socket, so the others are announced exactly if there are none or a
further event is due. -/
theorem announced_acceptConnection (hwf : Wf listenFd s)
    (hnodup : (s.phase.events.map EpollEvent.ptr).Nodup) {ret : Option ℕ} {tv : Option Timeval}
    {e : EpollEvent} {rest : List EpollEvent} (hphase : s.phase = .handling (e :: rest))
    (hlisten : s.requests e.ptr = some (listenFd : Fd)) :
    (({ s with phase := .handling rest } : Server).acceptConnection ret tv).Announced
      ↔ s.AcceptsLast (.acceptConnection ret tv) := by
  rw [hphase] at hnodup
  have hout : 0 ∉ rest.map EpollEvent.ptr := by
    rw [← hwf.own e.ptr hlisten]
    exact (List.nodup_cons.mp hnodup).1
  rw [Announced, edge_acceptConnection, phase_acceptConnection, backlog_acceptConnection]
  constructor
  · rintro (hedge | hm | hb)
    · cases ret <;> exact Or.inr hedge
    · exact absurd hm hout
    · cases ret with
      | none => exact Or.inl hb
      | some fd => exact Or.inl (Nat.sub_eq_zero_iff_le.mp hb)
  · intro hlast
    cases ret with
    | none => exact hlast.elim (fun hb => Or.inr (Or.inr hb)) Or.inl
    | some fd =>
      exact hlast.elim (fun hb => Or.inr (Or.inr (Nat.sub_eq_zero_iff_le.mpr hb))) Or.inl

/-- **Every step keeps the connections announced**, if it is not an `accept`
that leaves some behind. -/
theorem Announced.steps (hwf : Wf listenFd s)
    (hnodup : (s.phase.events.map EpollEvent.ptr).Nodup) (h : s.Announced) {e : ServerEvent}
    (hlast : s.AcceptsLast e) (hs : Steps listenFd s e s') : s'.Announced := by
  cases hs with
  | connect => exact Or.inl rfl
  | abort => exact h.mono id id fun hb => by show s.backlog - 1 = 0; rw [hb]
  | @ready fd mask events i hphase _ hi _ =>
    by_cases hfd : fd = listenFd
    · -- the event of the listening socket is now to be handled
      subst hfd
      refine Or.inr (Or.inl (List.mem_map.mpr ⟨⟨mask, i.data⟩, ?_, ?_⟩))
      · exact List.mem_append_right _ (List.mem_singleton_self _)
      · exact hwf.own _ (hwf.requests_of_epoll hi)
    · refine h.mono (fun hedge => ?_) (fun hm => ?_) id
      · show (s.edge && fd != listenFd) = true
        rw [hedge, Bool.true_and, bne_iff_ne]
        exact hfd
      · rw [hphase] at hm
        show 0 ∈ (events ++ [_]).map EpollEvent.ptr
        rw [List.map_append]
        exact List.mem_append_left _ hm
  | wait hphase => exact h.mono id (fun hm => by rwa [hphase] at hm) id
  | expired hphase => exact h.mono id (fun hm => by rwa [hphase] at hm) id
  | popped => exact h
  | timedOut =>
    rw [Announced, edge_closeConn, phase_closeConn, backlog_closeConn]
    exact h
  | acceptConnection hphase hlisten =>
    exact (announced_acceptConnection hwf hnodup hphase hlisten).mpr hlast
  | dangling => exact h
  | hungUp hphase hfd hne => exact h.mono id (mem_rest hwf hphase hfd hne) id
  | queued hphase hfd hne => exact h.mono id (mem_rest hwf hphase hfd hne) id
  | handled hphase =>
    refine h.mono id (fun hm => ?_) id
    rw [hphase] at hm
    cases hm
  | take => exact h
  | access => exact h
  | accessFreed => exact h
  | openFile => exact h
  | closeFile => exact h
  | finish => exact h

/-- **A waiting connection is announced in every state of a run** exactly if
each `accept` of the run takes the last connection or finds a further event due.
Then, where the main thread waits for events and none of the listening socket is
due, the backlog is empty. -/
theorem announced_iff {others : List ℕ} {waiting : ℕ} {heap : ℕ → TimeNode ℕ Handler}
    {currentTime : ℕ} {tr : List ServerEvent}
    (h : (machine listenFd others waiting heap currentTime).exec
      (start listenFd others waiting heap currentTime) tr = some s) :
    ((∀ tr' t, tr' <+: tr → (machine listenFd others waiting heap currentTime).exec
          (start listenFd others waiting heap currentTime) tr' = some t → t.Announced)
        ↔ (machine listenFd others waiting heap currentTime).Along AcceptsLast
          (start listenFd others waiting heap currentTime) tr)
      ∧ (s.Announced → s.phase = .waiting [] → s.edge = false → s.backlog = 0) := by
  refine ⟨Machine.forall_prefix_iff_along ?_ ?_ h, fun ha hphase hedge => ?_⟩
  · intro tr t ht hk
    have hall : t.Announced ∧ Wf listenFd t ∧ (t.phase.events.map EpollEvent.ptr).Nodup := by
      refine hk.invariant (I := fun t => t.Announced ∧ Wf listenFd t
        ∧ (t.phase.events.map EpollEvent.ptr).Nodup) ?_ ht
        ⟨announced_start others waiting heap currentTime,
          wf_start others waiting heap currentTime, List.nodup_nil⟩
      rintro t e t' ⟨ha, hwf, hnodup⟩ hlast hst
      have hsteps := (Steps.of_step hst).2
      exact ⟨ha.steps hwf hnodup hlast hsteps, hwf.steps hsteps, hsteps.nodup_events hnodup⟩
    exact hall.1
  · intro tr t e t' ht hst _ ha
    have hsteps := (Steps.of_step hst).2
    cases hsteps with
    | acceptConnection hphase hlisten =>
      exact (announced_acceptConnection (Wf.of_exec ht) (nodup_events ht) hphase hlisten).mp ha
    | _ => trivial
  · rw [Announced, hedge, hphase] at ha
    rcases ha with ha | ha | ha
    · cases ha
    · cases ha
    · exact ha

/-- A client that connects while the first one's event is about to be handled. -/
theorem announced_iff_two :
    ∃ s, (machine 5 [0, 1, 2, 3, 4] 1 (fun _ => ⟨0, 0, none, 0⟩) 0).exec
        (start 5 [0, 1, 2, 3, 4] 1 (fun _ => ⟨0, 0, none, 0⟩) 0)
        [.ready 5 epollIn, .wait, .connect, .expireTurn none,
          .acceptConnection (some 6) (some ⟨0, 0, by decide⟩), .handled,
          .ready 5 epollIn, .wait, .expireTurn (some ⟨0, 1000, by decide⟩),
          .acceptConnection (some 7) (some ⟨0, 1000, by decide⟩), .handled] = some s
      ∧ s.phase = .waiting [] ∧ s.edge = false ∧ s.backlog = 0 := by
  have hrun : ((machine 5 [0, 1, 2, 3, 4] 1 (fun _ => ⟨0, 0, none, 0⟩) 0).exec
      (start 5 [0, 1, 2, 3, 4] 1 (fun _ => ⟨0, 0, none, 0⟩) 0)
        [.ready 5 epollIn, .wait, .connect, .expireTurn none,
          .acceptConnection (some 6) (some ⟨0, 0, by decide⟩), .handled,
          .ready 5 epollIn, .wait, .expireTurn (some ⟨0, 1000, by decide⟩),
          .acceptConnection (some 7) (some ⟨0, 1000, by decide⟩), .handled]).map
        (fun s => (s.phase, s.edge)) = some (.waiting [], false) := by
    decide +kernel
  obtain ⟨s, hs, hend⟩ := Option.map_eq_some_iff.mp hrun
  obtain ⟨hphase, hedge⟩ := Prod.mk.inj hend
  obtain ⟨hiff, hempty⟩ := announced_iff hs
  have hall := hiff.mpr (by decide +kernel)
  exact ⟨s, hs, hphase, hedge, hempty (hall _ s (List.prefix_refl _) hs) hphase hedge⟩

/-- **A client is left waiting.** Two wait when the event of the listening
socket is delivered; one is accepted, and the main thread blocks. -/
theorem left_waiting :
    ((machine 5 [0, 1, 2, 3, 4] 2 (fun _ => ⟨0, 0, none, 0⟩) 0).exec
      (start 5 [0, 1, 2, 3, 4] 2 (fun _ => ⟨0, 0, none, 0⟩) 0)
        [.ready 5 epollIn, .wait, .expireTurn none,
          .acceptConnection (some 6) (some ⟨0, 0, by decide⟩), .handled]).map
        (fun s => (s.phase, s.edge, s.backlog)) = some (.waiting [], false, 1) := by
  decide +kernel

end Announced

end Server

end Version1
