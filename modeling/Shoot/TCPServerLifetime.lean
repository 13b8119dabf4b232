import Shoot.TCPServerDispatch

/-!
# A connection and the handling of its events

`handle_events` runs in a channel, which is owned by its connection, and so do
the callbacks it calls. While a connection waits in `active_vector`, and while
its events are handled up to `erase`, its entry in `connections_` keeps it
alive. But when the peer has closed, `handle_read` itself erases that entry,
and then `handle_events` goes on to read `revent_`. Nothing else holds the
connection by then, unless the acceptor, on another thread, has not destroyed
its `conn_ptr` yet.

So the connections outlive the handling of their events in exactly the runs
all of whose steps meet `KeepsOwner`: an entry is destroyed inside
`handle_read` only while the acceptor holds the connection, and the acceptor
does not let go of it between that and the return of `handle_events`
(`TCPServer.outlives_iff`).
-/

namespace ServerPc

/-- The channels whose events the thread handles or is about to handle. -/
def dispatched : ServerPc → List ChannelPtr
  | .poll active | .next active => active
  | .handle d | .read _ _ d | .accept _ _ d => d.channel :: d.active
  | .swap | .functors _ _ | .put _ _ _ | .arm _ _ _ | .drop _ => []

/-- The channel whose `handle_events` the thread is in, with no callback
running. -/
def handling : ServerPc → Option ChannelPtr
  | .handle d => some d.channel
  | _ => none

/-- The connection whose entry `erase` is about to destroy. -/
def releasing : ServerPc → Option ConnId
  | .read c .release _ => some c
  | _ => none

/-- The connection whose `conn_ptr` the acceptor is about to destroy. -/
def dropping : ServerPc → Option ConnId
  | .accept (.dropLocal c) _ _ => some c
  | _ => none

variable {pc : ServerPc} {c : ConnId}

theorem eq_of_handling {p : ChannelPtr} (h : pc.handling = some p) :
    ∃ d, pc = .handle d ∧ d.channel = p := by
  unfold handling at h
  split at h
  · exact ⟨_, rfl, Option.some.inj h⟩
  · cases h

theorem eq_of_releasing (h : pc.releasing = some c) : ∃ d, pc = .read c .release d := by
  unfold releasing at h
  split at h
  · rw [← Option.some.inj h]
    exact ⟨_, rfl⟩
  · cases h

theorem eq_of_dropping (h : pc.dropping = some c) : ∃ k d, pc = .accept (.dropLocal c) k d := by
  unfold dropping at h
  split at h
  · rw [← Option.some.inj h]
    exact ⟨_, _, rfl⟩
  · cases h

end ServerPc

namespace TCPServer

variable {s s' : TCPServer} {l : LoopId} {c : ConnId} {e : ServerEvent}

/-- **The connections outlive their events**: one whose channel is being
handled, or waits in `active_vector`, is alive. -/
def Outlives (s : TCPServer) : Prop :=
  ∀ l c, .conn c ∈ (s.loops l).pc.dispatched → 0 < (s.heap c).useCount

/-- `handle_events` of the connection is past the `erase` of its entry. -/
def Passed (s : TCPServer) (c : ConnId) : Prop :=
  (s.loops (s.heap c).loop).pc.handling = some (.conn c) ∧ s.entry c ≠ some c

instance (s : TCPServer) (c : ConnId) : Decidable (s.Passed c) :=
  inferInstanceAs (Decidable (_ ∧ _))

/-- **The step keeps an owner** for a connection whose events are handled:
`erase` destroys its entry only while the acceptor's `conn_ptr` refers to it,
and `conn_ptr` is not destroyed between that and the return of
`handle_events`. -/
def KeepsOwner (s : TCPServer) : ServerEvent → Prop
  | .step l => (∀ c ∈ (s.loops l).pc.releasing, c ∈ (s.loops 0).pc.acceptPc.refs)
      ∧ ∀ c ∈ (s.loops l).pc.dropping, ¬ s.Passed c
  | _ => True

instance (s : TCPServer) : ∀ e, Decidable (s.KeepsOwner e)
  | .step _ => inferInstanceAs (Decidable (_ ∧ _))
  | .deliver _ _ _ | .read _ _ | .accept _ _ | .flags _ _ => isTrue trivial

/-! ## What the acceptor holds -/

/-- An event is a statement of a thread, or the answer of a system call; after
an answer the thread is neither between two tests of `handle_events` nor in
`erase`, and the acceptor has no connection yet. -/
theorem Moves.answered (hm : s.Moves e s') : (∃ l, e = .step l ∧ s.Advances l s')
    ∨ (s'.loops e.loop).pc.handling = none ∧ (s'.loops e.loop).pc.releasing = none
      ∧ (s'.loops e.loop).pc.acceptPc.unput = [] ∧ (s.loops e.loop).pc.acceptPc.refs = [] := by
  cases hm with
  | advance ha => exact Or.inl ⟨_, rfl, ha⟩
  | deliver hpc _ | flags hpc _ | noFlags hpc =>
    dsimp only [ServerEvent.loop]
    rw [pc_goto, hpc]
    exact Or.inr ⟨rfl, rfl, rfl, rfl⟩
  | read n hpc =>
    dsimp only [ServerEvent.loop]
    rw [pc_goto, hpc]
    refine Or.inr ⟨rfl, ?_, rfl, rfl⟩
    unfold afterRead
    split
    · rfl
    · split <;> rfl
  | accept hpc _ =>
    dsimp only [ServerEvent.loop]
    rw [pc_goto, hpc]
    refine Or.inr ⟨rfl, rfl, ?_, rfl⟩
    unfold afterAccept
    split <;> rfl

/-- The acceptor lets go of a connection only where it destroys `conn_ptr`. -/
theorem Advances.refs (h : s.Advances 0 s') (hc : c ∈ (s.loops 0).pc.acceptPc.refs) :
    c ∈ (s'.loops 0).pc.acceptPc.refs ∨ (s.loops 0).pc.dropping = some c := by
  cases h with
  | @runHere c' k d hpc hl =>
    rw [hpc] at hc
    rw [pc_goto]
    exact Or.inl (List.mem_cons_of_mem _ hc)
  | @runThere c' l' k d hpc hl' hl =>
    rw [hpc] at hc
    rw [pc_queueNewEvent, pc_goto]
    exact Or.inl hc
  | @acceptPut c' k d hpc =>
    rw [hpc] at hc
    rw [pc_put, pc_goto]
    exact Or.inl hc
  | @acceptArm c' k d hpc =>
    rw [hpc] at hc
    rw [pc_goto]
    exact Or.inl hc
  | @dropCallback c' k d hpc =>
    rw [hpc] at hc
    rw [pc_release, pc_goto]
    exact Or.inl ((List.mem_cons.mp hc).elim (fun he => he ▸ List.mem_cons_self) id)
  | @dropLocal c' k d hpc =>
    rw [hpc] at hc ⊢
    rw [List.mem_singleton.mp hc]
    exact Or.inr rfl
  | poll hpc | nextNil hpc | next hpc | readRearm hpc | readClose hpc | readDestroy hpc
  | readRelease hpc | nextLoop hpc | construct hpc | rearm hpc | acceptRet hpc | swap hpc | put hpc
  | arm hpc | dropNil hpc | drop hpc =>
    rw [hpc] at hc
    cases hc
  | handleRet hpc _ | handle hpc _ | unlink hpc _ | unlinkNone hpc _ | limitClose hpc _
  | limit hpc _ | functor hpc _ | functorsEnd hpc _ =>
    rw [hpc] at hc
    cases hc

/-- Whatever the event. -/
theorem Moves.refs (hm : s.Moves e s') (hp : Placed s) (hc : c ∈ (s.loops 0).pc.acceptPc.refs) :
    c ∈ (s'.loops 0).pc.acceptPc.refs
      ∨ e = .step 0 ∧ (s.loops 0).pc.dropping = some c := by
  by_cases hl : e.loop = 0
  · rcases hm.answered with ⟨l, rfl, ha⟩ | ⟨-, -, -, hrefs⟩
    · obtain rfl : l = 0 := hl
      exact (ha.refs hc).imp id fun hd => ⟨rfl, hd⟩
    · rw [hl] at hrefs
      rw [hrefs] at hc
      cases hc
  · rw [(hm.apart hp hl).2]
    exact Or.inl hc

/-! ## Connections that are past -/

/-- A waiting connection is entered. -/
theorem Disarmed.entry (h : s.Disarmed l (.conn c)) (hs : s.Serves l) (hp : Placed s)
    (hl : (s.heap c).loop = l) : s.entry c = some c := by
  have hent := h.registered.entry hs.books hp
  unfold TCPServer.entry
  rw [hl]
  exact hent

theorem entry_goto (s : TCPServer) (l : LoopId) (pc : ServerPc) (c : ConnId) :
    (s.goto l pc).entry c = s.entry c := by
  show ((s.goto l pc).loops (s.heap c).loop).connections (s.heap c).fd = _
  rw [(Apart.goto s l pc (s.heap c).loop).connections]
  rfl

theorem SameRefs.entry (h : SameRefs s s') (c : ConnId) : s'.entry c = s.entry c := by
  unfold TCPServer.entry
  rw [h.loop, h.fd, h.connections]

/-- `handle_events` gets past the `erase` of a connection where the entry is
destroyed, and nowhere else. -/
theorem Advances.passed (h : s.Advances l s') (hp : Placed s) (hs : s.Serves l)
    (hl : (s'.heap c).loop = l) (hpass : s'.Passed c) :
    s.Passed c ∨ (s.loops l).pc.releasing = some c := by
  obtain ⟨hh, hne⟩ := hpass
  rw [hl] at hh
  cases h with
  | poll hpc | nextNil hpc | readClose hpc | readDestroy hpc | nextLoop hpc | construct hpc
  | acceptArm hpc | rearm hpc | swap hpc | arm hpc | dropNil hpc =>
    rw [pc_goto] at hh
    cases hh
  | handleRet hpc _ | unlink hpc _ | limitClose hpc _ | limit hpc _ | runHere hpc _
  | functor hpc _ | functorsEnd hpc _ =>
    rw [pc_goto] at hh
    cases hh
  | runThere hpc _ _ =>
    rw [pc_queueNewEvent, pc_goto] at hh
    cases hh
  | acceptPut hpc | put hpc =>
    rw [pc_put, pc_goto] at hh
    cases hh
  | dropCallback hpc | dropLocal hpc | drop hpc =>
    rw [pc_release, pc_goto] at hh
    cases hh
  | @next p active hpc =>
    -- a channel that was taken from `active_vector` is still entered
    rw [pc_goto] at hh
    obtain rfl := Option.some.inj hh
    have hw := (hs.standing hpc).2
    exact absurd ((hw.disarmed _ List.mem_cons_self).entry hs hp hl) (entry_goto s l _ c ▸ hne)
  | @handle d hpc hd =>
    have ht := hp.tested hpc hd
    rw [pc_goto] at hh
    rw [entry_goto] at hne
    refine Or.inl ⟨?_, hne⟩
    have hl' : (s.heap c).loop = l := hl
    rw [hl', hpc]
    generalize s.handle d = pc at ht hh
    cases ht with
    | readConn hs hc hin => cases hh
    | readAcceptor hs hc hin => cases hh
    | _ => exact hh
  | @readRearm c' d hpc =>
    -- the connection was still entered when it was enabled
    rw [pc_goto] at hh
    obtain ⟨-, hd, -, -, hat⟩ := (hs.standing hpc).2
    obtain rfl : c' = c := ChannelPtr.conn.inj (hd.symm.trans (Option.some.inj hh))
    have hsame := SameRefs.enableRead s c'
    have hl' : (s.heap c').loop = l := (hsame.loop c').symm.trans hl
    refine absurd (Disarmed.entry hat hs hp hl') ?_
    rw [entry_goto, hsame.entry] at hne
    exact hne
  | @unlinkNone c' d hpc he =>
    rw [pc_goto] at hh
    obtain ⟨-, hd, -, -, hent, -⟩ := (hs.standing hpc).2
    obtain rfl : c' = c := ChannelPtr.conn.inj (hd.symm.trans (Option.some.inj hh))
    have hl' : (s.heap c').loop = l := hl
    have he' : (s.loops (s.heap c').loop).connections (s.heap c').fd = none := he
    rw [hl', hent] at he'
    cases he'
  | @readRelease c' d hpc =>
    rw [pc_release, pc_goto] at hh
    obtain ⟨-, hd, -⟩ := (hs.standing hpc).2
    obtain rfl : c' = c := ChannelPtr.conn.inj (hd.symm.trans (Option.some.inj hh))
    rw [hpc]
    exact Or.inr rfl
  | @acceptRet k d hpc =>
    rw [pc_goto] at hh
    obtain ⟨-, hd, -⟩ := (hs.standing hpc).2
    cases hd.symm.trans (Option.some.inj hh)

/-- Whatever the event. -/
theorem Moves.passed (hm : s.Moves e s') (hp : Placed s) (hs : ∀ l, s.Serves l)
    (hpass : s'.Passed c) :
    s.Passed c ∨ ∃ l, e = .step l ∧ (s.loops l).pc.releasing = some c := by
  by_cases hl : e.loop = (s'.heap c).loop
  · have hh := hpass.1
    rw [← hl] at hh
    rcases hm.answered with ⟨l, rfl, ha⟩ | ⟨hnone, -⟩
    · exact (ha.passed hp (hs l) hl.symm hpass).imp id fun hr => ⟨l, rfl, hr⟩
    · rw [hnone] at hh
      cases hh
  · -- another thread moves
    obtain ⟨ha, hpc⟩ := hm.apart hp hl
    obtain ⟨hh, hne⟩ := hpass
    rw [hpc] at hh
    obtain ⟨d, heq, hd⟩ := ServerPc.eq_of_handling hh
    have hc : c < s.fresh ∧ (s.heap c).loop = (s'.heap c).loop :=
      hp.conn_at heq (hd ▸ List.mem_cons_self)
    refine Or.inl ⟨?_, ?_⟩
    · rw [hc.2]
      exact hh
    · have hfd := (ha.kept c hc.1).2
      unfold TCPServer.entry at hne ⊢
      rw [ha.connections, hfd] at hne
      rw [hc.2]
      exact hne

/-! ## Runs that keep an owner -/

/-- A connection whose `handle_events` is past the `erase` of its entry is
held by the acceptor. -/
def Held (s : TCPServer) : Prop := ∀ c, s.Passed c → c ∈ (s.loops 0).pc.acceptPc.refs

/-- A step that keeps an owner keeps this. -/
theorem Held.moves (h : s.Held) (hm : s.Moves e s') (hp : Placed s) (hs : ∀ l, s.Serves l)
    (hk : s.KeepsOwner e) : s'.Held := by
  intro c hpass
  have hbefore : c ∈ (s.loops 0).pc.acceptPc.refs := by
    rcases hm.passed hp hs hpass with hpass | ⟨l, rfl, hr⟩
    · exact h c hpass
    · exact hk.1 c hr
  refine (hm.refs hp hbefore).resolve_right ?_
  rintro ⟨rfl, hd⟩
  -- the acceptor lets go of a connection that is past already
  rcases hm.passed hp hs hpass with hpass | ⟨l, he, hr⟩
  · exact hk.2 c hd hpass
  · obtain rfl : l = 0 := (ServerEvent.step.inj he).symm
    obtain ⟨d, hpc⟩ := ServerPc.eq_of_releasing hr
    rw [hpc] at hd
    cases hd

/-- **Then every connection outlives its events.** Those that wait or are
handled up to `erase` are entered, the one whose entry is being destroyed is
held by that, and after it the acceptor holds it. -/
theorem Held.outlives (h : s.Held) (hp : Placed s) (ho : Owns s) (hs : ∀ l, s.Serves l) :
    s.Outlives := by
  intro l c hc
  have hst := (hs l).stands
  have hb := (hs l).books
  -- an entered connection is alive
  have hlive : (s.loops l).connections (s.heap c).fd = some c → 0 < (s.heap c).useCount :=
    ho.alive_of_entry hp
  have hdis : s.Disarmed l (.conn c) → 0 < (s.heap c).useCount := fun hd =>
    hlive (hd.registered.entry hb hp)
  cases hpc : (s.loops l).pc with
  | poll active =>
    rw [hpc] at hst hc
    exact hdis (hst.disarmed _ hc)
  | next active =>
    rw [hpc] at hst hc
    exact hdis (hst.disarmed _ hc)
  | handle d =>
    rw [hpc] at hst hc
    rcases List.mem_cons.mp hc with hd | hc
    · have hh := hst.2 c hd.symm
      split at hh
      · by_cases hent : (s.loops l).connections (s.heap c).fd = some c
        · exact hlive hent
        · have hl : (s.heap c).loop = l :=
            (hp.conn_at hpc (hd ▸ List.mem_cons_self)).2
          refine ho.alive_of_accept (h c ⟨?_, ?_⟩)
          · rw [hl, hpc]
            exact congrArg some hd.symm
          · unfold entry
            rw [hl]
            exact hent
      · exact hdis hh
    · exact hdis (hst.1.waiting.disarmed _ hc)
  | read c' pos d =>
    rw [hpc] at hst hc
    obtain ⟨hw, hd, -, -, hat⟩ := hst
    rcases List.mem_cons.mp hc with hc | hc
    · obtain rfl : c' = c := ChannelPtr.conn.inj (hd.symm.trans hc.symm)
      cases pos with
      | destroy => exact hlive (Registered.entry hat hb hp)
      | erase => exact hlive hat.1
      | release =>
        exact ho.alive_of_stack hp (l := l) (by rw [hpc]; exact List.mem_singleton_self _)
      | _ => exact hdis hat
    · exact hdis (hw.waiting.disarmed _ hc)
  | accept pos k d =>
    rw [hpc] at hst hc
    rcases List.mem_cons.mp hc with hd | hc
    · cases hd.trans hst.2.1
    · exact hdis (hst.1.waiting.disarmed _ hc)
  | _ =>
    rw [hpc] at hc
    cases hc

/-! ## Nobody else holds it

A connection is handed over once. When it is taken out of `connections_` again
no function waits for it any more, so that beside the acceptor nobody is left
to hold it.
-/

/-- No function that would put the connection is waiting, or will be. -/
def Spent (s : TCPServer) (c : ConnId) : Prop :=
  c ∉ (s.loops 0).pc.acceptPc.unput ∧ c ∉ (s.loops (s.heap c).loop).pending

section Pending

variable (s) (l' : LoopId)

/-- A change of a loop that leaves its queue. -/
theorem pending_update {L : ServerLoop} (h : L.pending = (s.loops l).pending) :
    (Function.update s.loops l L l').pending = (s.loops l').pending :=
  (Function.forall_update_iff s.loops fun l' L' => L'.pending = (s.loops l').pending).mpr
    ⟨h, fun _ _ => rfl⟩ l'

@[simp] theorem pending_goto (l : LoopId) (pc : ServerPc) :
    ((s.goto l pc).loops l').pending = (s.loops l').pending :=
  s.pending_update l' rfl

@[simp] theorem pending_unlink (c : ConnId) :
    ((s.unlink c).loops l').pending = (s.loops l').pending :=
  s.pending_update l' rfl

@[simp] theorem pending_put (c : ConnId) : ((s.put c).loops l').pending = (s.loops l').pending := by
  unfold put
  dsimp only
  split
  · rfl
  · exact s.pending_update l' rfl

theorem mem_queueNewEvent {c' : ConnId} (h : c' ∈ ((s.queueNewEvent l c).loops l').pending) :
    c' ∈ (s.loops l').pending ∨ c' = c := by
  unfold queueNewEvent at h
  dsimp only at h
  by_cases hl : l' = l
  · rw [hl, Function.update_self] at h
    rw [hl]
    exact (List.mem_append.mp h).imp id List.mem_singleton.mp
  · rw [Function.update_of_ne hl] at h
    exact Or.inl h

end Pending

/-- What is queued is what the acceptor had to hand over. -/
theorem Advances.pending (h : s.Advances l s') (hp : Placed s) (l' : LoopId)
    (hc : c ∈ (s'.loops l').pending) :
    c ∈ (s.loops l').pending ∨ c ∈ (s.loops 0).pc.acceptPc.unput := by
  cases h with
  | poll _ | nextNil _ | next _ | handleRet _ _ | handle _ _ | unlinkNone _ _ | limit _ _
  | acceptRet _ | functor _ _ | functorsEnd _ _ | dropNil _ =>
    rw [pending_goto] at hc
    exact Or.inl hc
  | readRelease _ | dropCallback _ | dropLocal _ | drop _ =>
    change c ∈ ((s.goto l _).loops l').pending at hc
    rw [pending_goto] at hc
    exact Or.inl hc
  | limitClose _ _ | construct _ | runHere _ _ =>
    rw [pending_goto] at hc
    exact Or.inl hc
  | @readRearm c' d _ =>
    rw [pending_goto, (SameRefs.enableRead s c').pending] at hc
    exact Or.inl hc
  | @readClose c' d _ =>
    rw [pending_goto, (SameRefs.handleClose s c').pending] at hc
    exact Or.inl hc
  | @readDestroy c' d _ =>
    rw [pending_goto, (SameRefs.destroyConn s c').pending] at hc
    exact Or.inl hc
  | unlink _ _ =>
    rw [pending_goto, pending_unlink] at hc
    exact Or.inl hc
  | nextLoop _ =>
    rw [pending_goto, loops_getNextLoop] at hc
    exact Or.inl hc
  | acceptPut _ | put _ =>
    rw [pending_put, pending_goto] at hc
    exact Or.inl hc
  | @acceptArm c' k d _ =>
    rw [pending_goto, (SameRefs.enableRead s c').pending] at hc
    exact Or.inl hc
  | @arm c' fs i _ =>
    rw [pending_goto, (SameRefs.enableRead s c').pending] at hc
    exact Or.inl hc
  | rearm _ =>
    rw [pending_goto, (SameRefs.rearmAcceptor s).pending] at hc
    exact Or.inl hc
  | swap _ =>
    rw [pending_goto] at hc
    change c ∈ (Function.update s.loops l { s.loops l with pending := [] } l').pending at hc
    by_cases hl : l' = l
    · rw [hl, Function.update_self] at hc
      cases hc
    · rw [Function.update_of_ne hl] at hc
      exact Or.inl hc
  | @runThere c' l'' k d hpc hl'' hne =>
    -- the acceptor queues the connection it has just constructed
    obtain rfl := hp.accept_loop hpc
    rcases mem_queueNewEvent _ l' hc with hc | hc
    · rw [pending_goto] at hc
      exact Or.inl hc
    · rw [hpc, hc]
      exact Or.inr (List.mem_singleton_self c')

/-- The acceptor has nothing to hand over but what it constructs. -/
theorem Advances.unput (h : s.Advances 0 s') (hp : Placed s)
    (hc : c ∈ (s'.loops 0).pc.acceptPc.unput) :
    c ∈ (s.loops 0).pc.acceptPc.unput ∨ c = s.fresh := by
  cases h with
  | construct hpc =>
    rw [pc_goto] at hc
    exact Or.inr (List.mem_singleton.mp hc)
  | runHere hpc _ =>
    rw [pc_goto] at hc
    rw [hpc]
    exact Or.inl hc
  | @handle d hpc hd =>
    have ht := hp.tested hpc hd
    rw [pc_goto] at hc
    generalize s.handle d = pc at ht hc
    cases ht <;> cases hc
  | poll _ | nextNil _ | next _ | readRearm _ | readClose _ | readDestroy _ | nextLoop _
  | acceptArm _ | rearm _ | acceptRet _ | swap _ | arm _ | dropNil _ =>
    rw [pc_goto] at hc
    cases hc
  | handleRet _ _ | unlink _ _ | unlinkNone _ _ | limitClose _ _ | limit _ _ | functor _ _
  | functorsEnd _ _ =>
    rw [pc_goto] at hc
    cases hc
  | readRelease _ | dropCallback _ | dropLocal _ | drop _ =>
    rw [pc_release, pc_goto] at hc
    cases hc
  | runThere _ _ _ =>
    rw [pc_queueNewEvent, pc_goto] at hc
    cases hc
  | acceptPut _ | put _ =>
    rw [pc_put, pc_goto] at hc
    cases hc

/-- Whatever the event. -/
theorem Moves.unput (hm : s.Moves e s') (hp : Placed s)
    (hc : c ∈ (s'.loops 0).pc.acceptPc.unput) :
    c ∈ (s.loops 0).pc.acceptPc.unput ∨ c = s.fresh := by
  by_cases hl : e.loop = 0
  · rcases hm.answered with ⟨l, rfl, ha⟩ | ⟨-, -, hunput, -⟩
    · obtain rfl : l = 0 := hl
      exact ha.unput hp hc
    · rw [hl] at hunput
      rw [hunput] at hc
      cases hc
  · rw [(hm.apart hp hl).2] at hc
    exact Or.inl hc

theorem Moves.pending (hm : s.Moves e s') (hp : Placed s) (l' : LoopId)
    (hc : c ∈ (s'.loops l').pending) :
    c ∈ (s.loops l').pending ∨ c ∈ (s.loops 0).pc.acceptPc.unput := by
  cases hm with
  | advance ha => exact ha.pending hp l' hc
  | @deliver l fd mask active r hpc hr =>
    rw [pending_goto, loops_setRevents, (SameRefs.setInterest s l r.1).pending] at hc
    exact Or.inl hc
  | read _ _ | flags _ _ | noFlags _ =>
    rw [pending_goto] at hc
    exact Or.inl hc
  | accept _ _ =>
    rw [pending_goto] at hc
    exact Or.inl hc

/-- **A connection that is spent stays so.** -/
theorem Spent.moves (h : s.Spent c) (hm : s.Moves e s') (hp : Placed s) (hc : c < s.fresh) :
    s'.Spent c := by
  -- it stays in its loop, as any other loop would notice
  have hloop : (s'.heap c).loop = (s.heap c).loop :=
    ((hm.apart hp (Nat.succ_ne_self e.loop).symm).1.kept c hc).1
  unfold Spent
  rw [hloop]
  exact ⟨fun hmem => (hm.unput hp hmem).elim h.1 hc.ne,
    fun hmem => (hm.pending hp _ hmem).elim h.2 h.1⟩

/-- An entered connection is spent: being entered is its one position. -/
theorem Owns.spent (ho : Owns s) (hc : s.entry c = some c) : s.Spent c := by
  have honce := Owned.once ho c
  have hent : (s.loops (s.heap c).loop).connections (s.heap c).fd = some c := hc
  unfold positions ServerLoop.holds at honce
  rw [if_pos hent] at honce
  refine ⟨fun hmem => ?_, fun hmem => ?_⟩
  · have := List.count_pos_iff.mpr hmem
    omega
  · have := List.count_pos_iff.mpr hmem
    omega

/-- `erase` comes to the destruction of an entry only from the entry. -/
theorem Advances.releasing (h : s.Advances l s') (hp : Placed s) (hs : s.Serves l)
    (hr : (s'.loops l).pc.releasing = some c) : s.entry c = some c := by
  cases h with
  | @unlink c₁ c₂ d hpc he =>
    rw [pc_goto] at hr
    obtain rfl : c₂ = c := Option.some.inj hr
    have hl : (s.heap c₁).loop = l := (hp.conn_at hpc List.mem_cons_self).2
    obtain ⟨-, -, -, -, hent, -⟩ := (hs.standing hpc).2
    have he' : (s.loops (s.heap c₁).loop).connections (s.heap c₁).fd = some c₂ := he
    rw [hl, hent] at he'
    obtain rfl := Option.some.inj he'
    exact he
  | @handle d hpc hd =>
    have ht := hp.tested hpc hd
    rw [pc_goto] at hr
    generalize s.handle d = pc at ht hr
    cases ht <;> cases hr
  | poll _ | nextNil _ | next _ | readRearm _ | readClose _ | readDestroy _ | nextLoop _
  | construct _ | acceptArm _ | rearm _ | acceptRet _ | swap _ | arm _ | dropNil _ =>
    rw [pc_goto] at hr
    cases hr
  | handleRet _ _ | unlinkNone _ _ | limitClose _ _ | limit _ _ | runHere _ _ | functor _ _
  | functorsEnd _ _ =>
    rw [pc_goto] at hr
    cases hr
  | readRelease _ | dropCallback _ | dropLocal _ | drop _ =>
    rw [pc_release, pc_goto] at hr
    cases hr
  | runThere _ _ _ =>
    rw [pc_queueNewEvent, pc_goto] at hr
    cases hr
  | acceptPut _ | put _ =>
    rw [pc_put, pc_goto] at hr
    cases hr

/-- Whatever the event. -/
theorem Moves.releasing (hm : s.Moves e s') (hp : Placed s) (hs : ∀ l, s.Serves l)
    (hr : (s'.loops l).pc.releasing = some c) :
    (s.loops l).pc.releasing = some c ∨ s.entry c = some c := by
  by_cases hl : e.loop = l
  · rcases hm.answered with ⟨l', rfl, ha⟩ | ⟨-, hnone, -⟩
    · obtain rfl : l' = l := hl
      exact Or.inr (ha.releasing hp (hs _) hr)
    · rw [hl] at hnone
      cases hnone.symm.trans hr
  · rw [(hm.apart hp hl).2] at hr
    exact Or.inl hr

/-- **The connections whose events are past their `erase`, or whose entry is
being destroyed, are spent.** -/
def Retired (s : TCPServer) : Prop :=
  ∀ c, (s.Passed c ∨ (s.loops (s.heap c).loop).pc.releasing = some c) → s.Spent c

theorem Retired.moves (h : s.Retired) (hm : s.Moves e s') (hp : Placed s) (ho : Owns s)
    (hs : ∀ l, s.Serves l) : s'.Retired := by
  have hreleasing : ∀ {l c}, (s.loops l).pc.releasing = some c → c < s.fresh ∧ s.Spent c := by
    intro l c hr
    obtain ⟨d, hpc⟩ := ServerPc.eq_of_releasing hr
    have hc := hp.conn_at (c := c) hpc List.mem_cons_self
    refine ⟨hc.1, h c (Or.inr ?_)⟩
    rw [hc.2]
    exact hr
  intro c hor
  obtain ⟨hlt, hspent⟩ : c < s.fresh ∧ s.Spent c := by
    rcases hor with hpass | hr
    · rcases hm.passed hp hs hpass with hpass | ⟨l, -, hr⟩
      · obtain ⟨d, hpc, hd⟩ := ServerPc.eq_of_handling hpass.1
        exact ⟨(hp.conn_at hpc (hd ▸ List.mem_cons_self)).1, h c (Or.inl hpass)⟩
      · exact hreleasing hr
    · rcases hm.releasing hp hs hr with hr | hent
      · exact hreleasing hr
      · exact ⟨(hp.home _ _ (.connections hent)).1, ho.spent hent⟩
  exact hspent.moves hm hp hlt

/-- A connection that is spent and not entered has the references on the
stacks only. -/
theorem Owns.useCount_spent (ho : Owns s) (hspent : s.Spent c) (hent : s.entry c ≠ some c) :
    (s.heap c).useCount = (s.loops 0).pc.acceptPc.refs.count c
      + (s.loops (s.heap c).loop).pc.refs.count c := by
  have hent' : (s.loops (s.heap c).loop).connections (s.heap c).fd ≠ some c := hent
  rw [Owned.count ho c]
  unfold uses ServerLoop.holds
  rw [if_neg hent', List.count_eq_zero.mpr hspent.2]
  rfl

/-- The last reference has been destroyed. -/
theorem useCount_release (h : (s.heap c).useCount = 1) : ((s.release c).heap c).useCount = 0 := by
  show (Function.update s.heap c _ c).useCount = 0
  rw [Function.update_self]
  show (s.heap c).useCount - 1 = 0
  rw [h]

/-- If its events are handled, that was too early. -/
theorem not_outlives_release (hone : (s.heap c).useCount = 1)
    (hc : .conn c ∈ (s.loops l).pc.dispatched) : ¬ (s.release c).Outlives := by
  intro hout
  have hpos := hout l c hc
  rw [useCount_release hone] at hpos
  exact absurd hpos (lt_irrefl 0)

/-- **A step that keeps no owner frees the connection** whose events are
handled. -/
theorem Retired.freed (h : s.Retired) (hp : Placed s) (ho : Owns s) (hs : ∀ l, s.Serves l)
    (hstep : s.step e = some s') (hk : ¬ s.KeepsOwner e) : ¬ s'.Outlives := by
  cases e with
  | step l =>
    rcases not_and_or.mp hk with hk | hk
    · -- the entry held the last reference
      obtain ⟨c, hk⟩ := not_forall.mp hk
      obtain ⟨hr, hnot⟩ := Classical.not_imp.mp hk
      obtain ⟨d, hpc⟩ := ServerPc.eq_of_releasing hr
      have hl : (s.heap c).loop = l := (hp.conn_at hpc List.mem_cons_self).2
      obtain ⟨-, hd, -, -, hent⟩ := ((hs l).standing hpc).2
      have hent' : s.entry c ≠ some c := by
        unfold entry
        rw [hl]
        exact hent
      have hone : (s.heap c).useCount = 1 := by
        rw [ho.useCount_spent (h c (Or.inr (hl ▸ hr))) hent', List.count_eq_zero.mpr hnot, hl, hpc]
        show 0 + [c].count c = 1
        rw [List.count_singleton_self]
      have hs' : s' = (s.goto l (.handle d)).release c := by
        change s.advance l = some s' at hstep
        unfold advance at hstep
        rw [hpc] at hstep
        exact (Option.some.inj hstep).symm
      rw [hs']
      refine not_outlives_release (s := s.goto l (.handle d)) (l := l) hone ?_
      rw [pc_goto, ← hd]
      exact List.mem_cons_self
    · -- `conn_ptr` was
      obtain ⟨c, hk⟩ := not_forall.mp hk
      obtain ⟨hr, hpass⟩ := Classical.not_imp.mp hk
      have hpass : s.Passed c := not_not.mp hpass
      obtain ⟨k, d, hpc⟩ := ServerPc.eq_of_dropping hr
      obtain rfl := hp.accept_loop hpc
      obtain ⟨d', hpc', hd'⟩ := ServerPc.eq_of_handling hpass.1
      have hne : (s.heap c).loop ≠ 0 := by
        intro hl
        rw [hl, hpc] at hpc'
        cases hpc'
      have hone : (s.heap c).useCount = 1 := by
        rw [ho.useCount_spent (h c (Or.inl hpass)) hpass.2, hpc, hpc']
        show [c].count c + 0 = 1
        rw [List.count_singleton_self]
      have hs' : s' = (s.goto 0 (.accept .rearm k d)).release c := by
        change s.advance 0 = some s' at hstep
        unfold advance at hstep
        rw [hpc] at hstep
        exact (Option.some.inj hstep).symm
      rw [hs']
      refine not_outlives_release (s := s.goto 0 (.accept .rearm k d)) (l := (s.heap c).loop)
        hone ?_
      rw [loops_goto_of_ne s _ hne, hpc', ← hd']
      exact List.mem_cons_self
  | _ => exact absurd trivial hk

section Runs

variable {n : ℕ} {fd : Fd} {others : Finset Fd} {tr : List ServerEvent}

/-- In every reachable state the connections past their `erase` are spent. -/
theorem reachable_retired (h : (machine n fd others).Reachable s) : s.Retired := by
  obtain ⟨tr, ht⟩ := h
  have hall : (machine n fd others).Reachable s ∧ s.Retired := by
    refine Machine.exec_invariant (I := fun s => (machine n fd others).Reachable s ∧ s.Retired)
      (fun s e s' ⟨hr, hret⟩ hstep => ⟨hr.step hstep, ?_⟩) ht ⟨⟨[], rfl⟩, fun c hor => ?_⟩
    · exact hret.moves (.of_step hstep) (reachable_placed hr) (reachable_owns hr)
        (reachable_serves hr)
    · rcases hor with ⟨hh, -⟩ | hr
      · cases hh
      · cases hr
  exact hall.2

/-- In a run that keeps an owner at every step, every connection outlives its
events. -/
theorem outlives_of_along (h : (machine n fd others).exec (machine n fd others).init tr = some s)
    (hk : (machine n fd others).Along KeepsOwner (machine n fd others).init tr) : s.Outlives := by
  have hall : (machine n fd others).Reachable s ∧ s.Held := by
    refine hk.invariant (I := fun s => (machine n fd others).Reachable s ∧ s.Held)
      (fun s e s' ⟨hr, hh⟩ he hstep => ⟨hr.step hstep, ?_⟩) h ⟨⟨[], rfl⟩, fun c hpass => ?_⟩
    · exact hh.moves (.of_step hstep) (reachable_placed hr) (reachable_serves hr) he
    · cases hpass.1
  exact hall.2.outlives (reachable_placed hall.1) (reachable_owns hall.1) (reachable_serves hall.1)

/-- **The connections outlive the handling of their events exactly in the runs
that keep an owner.** In every state a run goes through, each connection whose
channel waits in `active_vector` or is being handled is alive, if and only if
at every step of the run `erase` destroys an entry inside `handle_read` only
while the acceptor's `conn_ptr` refers to the connection, and `conn_ptr` is
not destroyed between that and the return of `handle_events`. -/
theorem outlives_iff (h : (machine n fd others).exec (machine n fd others).init tr = some s) :
    (∀ tr' s', tr' <+: tr →
        (machine n fd others).exec (machine n fd others).init tr' = some s' → s'.Outlives)
      ↔ (machine n fd others).Along KeepsOwner (machine n fd others).init tr := by
  refine Machine.forall_prefix_iff_along (fun tr t => outlives_of_along) ?_ h
  intro tr t e t' ht hstep _ hout
  have hr : (machine n fd others).Reachable t := ⟨tr, ht⟩
  by_contra hk
  -- a step that keeps no owner would free a connection
  exact (reachable_retired hr).freed (reachable_placed hr) (reachable_owns hr)
    (reachable_serves hr) hstep hk hout

end Runs

/-- The base loop accepts the connection 0 and queues it for the loop of the
pool; `conn_ptr` is still there. -/
def handOver : List ServerEvent :=
  [.deliver 0 3 epollIn, .step 0, .step 0, .step 0, .step 0, .step 0, .accept 0 10,
    .step 0, .step 0, .flags 0 true, .step 0, .step 0]

/-- The loop of the pool enters the connection 0, and its peer closes. -/
def peerCloses : List ServerEvent :=
  List.replicate 9 (.step 1) ++ [.deliver 1 10 epollIn] ++ List.replicate 5 (.step 1)
    ++ [.read 1 0] ++ List.replicate 4 (.step 1)

/-- The peer closes while the acceptor still has its `conn_ptr`. -/
theorem outlives_held :
    ∃ s : TCPServer, (machine 1 3 ∅).exec (machine 1 3 ∅).init (handOver ++ peerCloses) = some s
      ∧ (s.loops 1).pc = .handle ⟨.conn 0, .write, []⟩ ∧ s.Outlives := by
  have hend : ((machine 1 3 ∅).exec (machine 1 3 ∅).init (handOver ++ peerCloses)).map
      (fun s => (s.loops 1).pc) = some (.handle ⟨.conn 0, .write, []⟩) := by decide +kernel
  obtain ⟨s, hrun, hpc⟩ := Option.map_eq_some_iff.mp hend
  have hk : (machine 1 3 ∅).Along KeepsOwner (machine 1 3 ∅).init (handOver ++ peerCloses) := by
    decide +kernel
  exact ⟨s, hrun, hpc, (outlives_iff hrun).mpr hk _ s (List.prefix_refl _) hrun⟩

/-- **A connection is freed while its events are handled**: the acceptor has
destroyed its `conn_ptr`, the peer closes, and `handle_events` goes on in a
channel that was destroyed. -/
theorem freed_in_handler :
    ∃ s : TCPServer, (machine 1 3 ∅).exec (machine 1 3 ∅).init
        (handOver ++ [.step 0] ++ peerCloses) = some s
      ∧ (s.loops 1).pc = .handle ⟨.conn 0, .write, []⟩ ∧ (s.heap 0).useCount = 0
      ∧ ¬ s.Outlives := by
  have hend : ((machine 1 3 ∅).exec (machine 1 3 ∅).init
      (handOver ++ [.step 0] ++ peerCloses)).map (fun s => ((s.loops 1).pc, (s.heap 0).useCount))
      = some (.handle ⟨.conn 0, .write, []⟩, 0) := by decide +kernel
  obtain ⟨s, hrun, hs⟩ := Option.map_eq_some_iff.mp hend
  obtain ⟨hpc, huse⟩ := Prod.mk.inj hs
  refine ⟨s, hrun, hpc, huse, fun hout => ?_⟩
  have hpos := hout 1 0 (by rw [hpc]; exact List.mem_cons_self)
  rw [huse] at hpos
  exact absurd hpos (lt_irrefl 0)

end TCPServer
