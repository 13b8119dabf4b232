import Shoot.Version1.ServerTables

/-!
# Requests that are freed too early

`Http::close_conn` deletes the request of a connection when its timer expires,
whoever else has the address. The timer is set once, when the connection is
accepted, and neither `handle_events` nor `do_request` marks or renews it. So it
may expire while the request is in the events that `epoll_event_wait` has just
returned, in the queue of tasks, or in use by a task, and the next one to touch
it touches freed memory (`Server.used_after_free`).

Nothing else goes wrong with the requests. What the kernel returns is always
the address of a request that is allocated, since `close_conn` closes the
descriptor with it; so as long as no timer expires for a request that somebody
still holds, no freed request is ever used, nor even held
(`Server.no_use_after_free`).
-/

namespace Version1

namespace Server

/-- **A request is held** by the events to handle, by the queue of tasks or by
the task that runs. -/
def Held (s : Server) (r : ℕ) : Prop :=
  r ∈ s.phase.events.map EpollEvent.ptr ∨ r ∈ s.tq
    ∨ s.running.map RunningTask.request = some r

instance (s : Server) (r : ℕ) : Decidable (s.Held r) := inferInstanceAs (Decidable (_ ∨ _ ∨ _))

/-- **A timer expires only for a request that is not held.** -/
def ExpiresUnheld (s : Server) : ServerEvent → Prop
  | .expireTurn tv => s.time.Due tv → ¬ s.Held s.time.pq.pqFront.request
  | _ => True

instance : ∀ (s : Server) (e : ServerEvent), Decidable (s.ExpiresUnheld e)
  | s, .expireTurn tv => inferInstanceAs (Decidable (s.time.Due tv → ¬ s.Held _))
  | _, .connect => isTrue trivial
  | _, .abort => isTrue trivial
  | _, .ready _ _ => isTrue trivial
  | _, .wait => isTrue trivial
  | _, .acceptConnection _ _ => isTrue trivial
  | _, .dispatch => isTrue trivial
  | _, .handled => isTrue trivial
  | _, .take => isTrue trivial
  | _, .access => isTrue trivial
  | _, .openFile _ => isTrue trivial
  | _, .closeFile => isTrue trivial
  | _, .finish => isTrue trivial

/-- **No request that is held is freed**, and nothing else was undefined than
the heap of timers. -/
structure Safe (s : Server) : Prop where
  allocated : ∀ r, s.Held r → ∃ fd, s.requests r = some fd
  defined : s.fault = none ∨ s.fault = some .heapOverflow

section Safe

variable {listenFd : ℕ} {s s' : Server}

theorem safe_start (others : List ℕ) (waiting : ℕ) (heap : ℕ → TimeNode ℕ Handler)
    (currentTime : ℕ) : Safe (start listenFd others waiting heap currentTime) where
  allocated r hr := by
    rcases hr with hr | hr | hr <;> cases hr
  defined := Or.inl rfl

/-- A step that frees nothing, after which nobody holds a further request. -/
theorem Safe.mono (h : Safe s) (hheld : ∀ r, s'.Held r → s.Held r)
    (hkeep : ∀ r fd, s.Held r → s.requests r = some fd → s'.requests r = some fd)
    (hfault : s'.fault = none ∨ s'.fault = some .heapOverflow) : Safe s' where
  allocated r hr := by
    obtain ⟨fd, hfd⟩ := h.allocated r (hheld r hr)
    exact ⟨fd, hkeep r fd (hheld r hr) hfd⟩
  defined := hfault

/-- **Every step keeps the requests that are held**, if no timer expires for
one of them. -/
theorem Safe.steps (hwf : Wf listenFd s) (h : Safe s) (hfault : s.fault = none)
    {e : ServerEvent} (hc : s.ExpiresUnheld e) (hs : Steps listenFd s e s') : Safe s' := by
  cases hs with
  | connect => exact h.mono (fun _ hr => hr) (fun _ _ _ hfd => hfd) h.defined
  | abort => exact h.mono (fun _ hr => hr) (fun _ _ _ hfd => hfd) h.defined
  | ready hphase _ hi _ =>
    refine ⟨fun r hr => ?_, h.defined⟩
    rcases hr with hr | hr
    · -- the new event carries the address of a request that is allocated
      simp only [Phase.events, List.map_append, List.mem_append, List.map_cons, List.map_nil,
        List.mem_singleton] at hr
      rcases hr with hr | rfl
      · exact h.allocated r (Or.inl (by rw [hphase]; exact hr))
      · exact ⟨_, hwf.requests_of_epoll hi⟩
    · exact h.allocated r (Or.inr hr)
  | wait hphase =>
    refine h.mono (fun r hr => ?_) (fun _ _ _ hfd => hfd) h.defined
    exact hr.imp_left fun hr => by rw [hphase]; exact hr
  | expired hphase =>
    refine h.mono (fun r hr => ?_) (fun _ _ _ hfd => hfd) h.defined
    exact hr.imp_left fun hr => by rw [hphase]; exact hr
  | popped => exact h.mono (fun _ hr => hr) (fun _ _ _ hfd => hfd) h.defined
  | timedOut _ hdue =>
    obtain ⟨-, fd, hfd⟩ := hwf.timers _ (PriorityQueue.pqFront_mem hdue.1)
    rw [closeConn, show _ = some fd from hfd]
    refine h.mono (fun _ hr => hr) (fun r fd' hr hfd' => ?_) h.defined
    refine update_none_eq_some.mpr ⟨?_, hfd'⟩
    rintro rfl
    exact hc hdue hr
  | acceptConnection hphase =>
    refine h.mono (fun r hr => ?_) (fun r fd _ hfd => ?_) ?_
    · rw [Held, phase_acceptConnection, tq_acceptConnection, running_acceptConnection] at hr
      exact hr.imp_left fun hr => by rw [hphase]; exact List.mem_cons_of_mem _ hr
    · rw [requests_acceptConnection]
      exact update_some_eq_some.mpr (Or.inr ⟨Nat.ne_of_lt (hwf.allocated r fd hfd), hfd⟩)
    · refine (fault_acceptConnection _ _ _).imp_left fun hf => ?_
      exact hf.trans hfault
  | dangling hphase hfreed =>
    obtain ⟨fd, hfd⟩ := h.allocated _ (Or.inl (by rw [hphase]; exact List.mem_cons_self))
    cases hfreed.symm.trans hfd
  | hungUp hphase =>
    refine h.mono (fun r hr => ?_) (fun _ _ _ hfd => hfd) h.defined
    exact hr.imp_left fun hr => by rw [hphase]; exact List.mem_cons_of_mem _ hr
  | queued hphase =>
    refine h.mono (fun r hr => ?_) (fun _ _ _ hfd => hfd) h.defined
    rw [Held, hphase]
    rcases hr with hr | hr | hr
    · exact Or.inl (List.mem_cons_of_mem _ hr)
    · rcases List.mem_cons.mp hr with rfl | hr
      · exact Or.inl List.mem_cons_self
      · exact Or.inr (Or.inl hr)
    · exact Or.inr (Or.inr hr)
  | handled hphase =>
    refine h.mono (fun r hr => ?_) (fun _ _ _ hfd => hfd) h.defined
    exact hr.imp_left fun hr => by cases hr
  | take hrun htq =>
    refine h.mono (fun r hr => ?_) (fun _ _ _ hfd => hfd) h.defined
    rw [Held, htq]
    rcases hr with hr | hr | hr
    · exact Or.inl hr
    · exact Or.inr (Or.inl (List.mem_cons_of_mem _ hr))
    · cases hr
      exact Or.inr (Or.inl List.mem_cons_self)
  | access => exact h
  | accessFreed hrun hfreed =>
    obtain ⟨fd, hfd⟩ := h.allocated _ (Or.inr (Or.inr (by rw [hrun]; rfl)))
    cases hfreed.symm.trans hfd
  | openFile hrun =>
    refine h.mono (fun r hr => ?_) (fun _ _ _ hfd => hfd) h.defined
    exact hr.imp_right fun hr => hr.imp_right fun hr => by rw [hrun]; exact hr
  | closeFile hrun =>
    refine h.mono (fun r hr => ?_) (fun _ _ _ hfd => hfd) h.defined
    exact hr.imp_right fun hr => hr.imp_right fun hr => by rw [hrun]; exact hr
  | finish =>
    refine h.mono (fun r hr => ?_) (fun _ _ _ hfd => hfd) h.defined
    rcases hr with hr | hr | hr
    · exact Or.inl hr
    · exact Or.inr (Or.inl hr)
    · cases hr

/-- **A timer that expires for a request that is held** leaves a request that is
held and freed. -/
theorem dangles (hwf : Wf listenFd s) {e : ServerEvent} (hc : ¬ s.ExpiresUnheld e)
    (hs : Steps listenFd s e s') : ∃ r, s'.Held r ∧ s'.requests r = none := by
  cases hs with
  | expired _ hwait => exact absurd (fun hdue => absurd hdue hwait) hc
  | popped _ hsize hskip =>
    refine absurd (fun hdue => absurd ⟨hdue, ?_⟩ hskip) hc
    exact hwf.handlers _ (PriorityQueue.pqFront_mem hsize)
  | @timedOut tv events _ hdue =>
    obtain ⟨-, fd, hfd⟩ := hwf.timers _ (PriorityQueue.pqFront_mem hdue.1)
    have hheld : s.Held s.time.pq.pqFront.request := by
      by_contra hn
      exact hc fun _ => hn
    refine ⟨s.time.pq.pqFront.request, ?_, ?_⟩
    · rw [Held, phase_closeConn, tq_closeConn, running_closeConn]
      exact hheld
    · rw [closeConn, show _ = some fd from hfd]
      exact Function.update_self _ _ _
  | _ => exact absurd trivial hc

end Safe

/-- **No freed request is used**, in any run in which the timers that expire are
those of requests that nobody holds: neither `handle_events` nor a task reads a
request that `close_conn` has deleted. These are exactly the runs in which
nobody ever holds the address of a request that is freed. -/
theorem no_use_after_free {listenFd : ℕ} {others : List ℕ} {waiting : ℕ}
    {heap : ℕ → TimeNode ℕ Handler} {currentTime : ℕ} {tr : List ServerEvent} {s : Server}
    (h : (machine listenFd others waiting heap currentTime).exec
      (start listenFd others waiting heap currentTime) tr = some s) :
    ((machine listenFd others waiting heap currentTime).Along ExpiresUnheld
        (start listenFd others waiting heap currentTime) tr →
          ∀ r, s.fault ≠ some (.handleEvents r) ∧ s.fault ≠ some (.doRequest r))
      ∧ ((∀ tr' t, tr' <+: tr → (machine listenFd others waiting heap currentTime).exec
            (start listenFd others waiting heap currentTime) tr' = some t →
              ∀ r, t.Held r → t.requests r ≠ none)
          ↔ (machine listenFd others waiting heap currentTime).Along ExpiresUnheld
            (start listenFd others waiting heap currentTime) tr) := by
  have hsafe : ∀ tr t, (machine listenFd others waiting heap currentTime).exec
      (start listenFd others waiting heap currentTime) tr = some t →
      (machine listenFd others waiting heap currentTime).Along ExpiresUnheld
        (start listenFd others waiting heap currentTime) tr → Safe t := by
    intro tr t ht hc
    have hinv : Wf listenFd t ∧ Safe t := by
      refine hc.invariant (I := fun t => Wf listenFd t ∧ Safe t) ?_ ht
        ⟨wf_start others waiting heap currentTime, safe_start others waiting heap currentTime⟩
      rintro t e t' ⟨hwf, hsafe⟩ hce hs
      obtain ⟨hfault, hsteps⟩ := Steps.of_step hs
      exact ⟨hwf.steps hsteps, hsafe.steps hwf hfault hce hsteps⟩
    exact hinv.2
  refine ⟨fun hc r => ?_, Machine.forall_prefix_iff_along ?_ ?_ h⟩
  · rcases (hsafe tr s h hc).defined with hf | hf <;> rw [hf] <;> simp
  · intro tr t ht hc r hr hfreed
    obtain ⟨fd, hfd⟩ := (hsafe tr t ht hc).allocated r hr
    cases hfreed.symm.trans hfd
  · intro tr t e t' ht hs _ hheld
    by_contra hc
    obtain ⟨r, hr, hfreed⟩ := dangles (Wf.of_exec ht) hc (Steps.of_step hs).2
    exact hheld r hr hfreed

/-- A connection whose input is handled before its timer expires. -/
theorem no_use_after_free_served :
    ∃ s, (machine 5 [0, 1, 2, 3, 4] 1 (fun _ => ⟨0, 0, none, 0⟩) 0).exec
        (start 5 [0, 1, 2, 3, 4] 1 (fun _ => ⟨0, 0, none, 0⟩) 0)
        [.ready 5 epollIn, .wait, .expireTurn none,
          .acceptConnection (some 6) (some ⟨0, 0, by decide⟩), .handled,
          .ready 6 epollIn, .wait, .expireTurn (some ⟨0, 1000, by decide⟩), .dispatch, .handled,
          .take, .access, .openFile 7, .access, .closeFile, .finish,
          .connect, .ready 5 epollIn, .wait, .expireTurn (some ⟨0, 500000, by decide⟩)] = some s
      ∧ s.requests 1 = none
      ∧ ∀ r, s.fault ≠ some (.handleEvents r) ∧ s.fault ≠ some (.doRequest r) := by
  have hrun : ((machine 5 [0, 1, 2, 3, 4] 1 (fun _ => ⟨0, 0, none, 0⟩) 0).exec
      (start 5 [0, 1, 2, 3, 4] 1 (fun _ => ⟨0, 0, none, 0⟩) 0)
        [.ready 5 epollIn, .wait, .expireTurn none,
          .acceptConnection (some 6) (some ⟨0, 0, by decide⟩), .handled,
          .ready 6 epollIn, .wait, .expireTurn (some ⟨0, 1000, by decide⟩), .dispatch, .handled,
          .take, .access, .openFile 7, .access, .closeFile, .finish,
          .connect, .ready 5 epollIn, .wait,
          .expireTurn (some ⟨0, 500000, by decide⟩)]).map (fun s => s.requests 1)
      = some none := by
    decide +kernel
  obtain ⟨s, hs, hfreed⟩ := Option.map_eq_some_iff.mp hrun
  exact ⟨s, hs, hfreed, (no_use_after_free hs).1 (by decide +kernel)⟩

/-- **The timer of a connection expires too early.** In the first run its event
is in the batch that is about to be handled; in the second one its task is in
the queue. -/
theorem used_after_free :
    ((machine 5 [0, 1, 2, 3, 4] 1 (fun _ => ⟨0, 0, none, 0⟩) 0).exec
        (start 5 [0, 1, 2, 3, 4] 1 (fun _ => ⟨0, 0, none, 0⟩) 0)
        [.ready 5 epollIn, .wait, .expireTurn none,
          .acceptConnection (some 6) (some ⟨0, 0, by decide⟩), .handled,
          .ready 6 epollIn, .wait, .expireTurn (some ⟨0, 500000, by decide⟩), .expireTurn none,
          .dispatch]).map Server.fault = some (some (.handleEvents 1))
      ∧ ((machine 5 [0, 1, 2, 3, 4] 1 (fun _ => ⟨0, 0, none, 0⟩) 0).exec
        (start 5 [0, 1, 2, 3, 4] 1 (fun _ => ⟨0, 0, none, 0⟩) 0)
        [.ready 5 epollIn, .wait, .expireTurn none,
          .acceptConnection (some 6) (some ⟨0, 0, by decide⟩), .handled,
          .ready 6 epollIn, .wait, .expireTurn (some ⟨0, 1000, by decide⟩), .dispatch, .handled,
          .connect, .ready 5 epollIn, .wait, .expireTurn (some ⟨0, 500000, by decide⟩),
          .take, .access]).map Server.fault = some (some (.doRequest 1)) := by
  decide +kernel

end Server

end Version1
