import Shoot.TCPServerProgress

/-!
# Where a connection is

From its construction on, a connection is somewhere: the acceptor has still to hand it
over, or it waits in `pending_functions_` of its loop or in the round that the loop is
calling, or it is entered in `connections_`. It drops out of this only by `erase`, which
`handle_read` calls when the peer has closed (`TCPServer.reachable_traced`). With
`Owned.once`, which says that it is in one place at most, and with the references, whose
last one closes the descriptor, this is what becomes of every descriptor that the acceptor
hands over.
-/

/-- `handle_close` has been executed, and the connection is being removed. -/
def ReadPc.leaving : ReadPc → Bool
  | .destroy | .erase | .release => true
  | .read | .rearm | .close => false

/-- The loop has the connection: the current round has still to put it, or it waits for
the next one, or it is entered. -/
def ServerLoop.Has (L : ServerLoop) (fd : Fd) (c : ConnId) : Prop :=
  c ∈ L.pc.unput ∨ c ∈ L.pending ∨ L.connections fd = some c

namespace TCPServer

variable {s s' : TCPServer} {l l' : LoopId} {c : ConnId} {e : ServerEvent}

/-- The acceptor has still to hand the connection over, or its loop has it. -/
def Located (s : TCPServer) (c : ConnId) : Prop :=
  c ∈ (s.loops 0).pc.acceptPc.unput ∨ (s.loops (s.heap c).loop).Has (s.heap c).fd c

/-- The peer of the connection has closed. -/
def Disconnected (s : TCPServer) (c : ConnId) : Prop :=
  (s.heap c).connectionState = .disconnected

/-! ## The state of a connection -/

section State

variable (s : TCPServer) (l : LoopId) (c c' : ConnId)

/-- A change of a connection that leaves its state. -/
theorem state_update {x : TCPConnection} (h : x.connectionState = (s.heap c).connectionState) :
    (Function.update s.heap c x c').connectionState = (s.heap c').connectionState :=
  (Function.forall_update_iff s.heap
    fun c' y => y.connectionState = (s.heap c').connectionState).mpr
    ⟨h, fun _ _ => rfl⟩ c'

theorem state_retain : ((s.retain c).heap c').connectionState = (s.heap c').connectionState :=
  s.state_update c c' rfl

theorem state_release : ((s.release c).heap c').connectionState = (s.heap c').connectionState :=
  s.state_update c c' rfl

theorem state_connChannel (f) :
    ((s.connChannel c f).heap c').connectionState = (s.heap c').connectionState :=
  s.state_update c c' rfl

theorem state_put : ((s.put c).heap c').connectionState = (s.heap c').connectionState := by
  unfold put
  dsimp only
  split
  · rfl
  · exact s.state_retain c c'

theorem state_setRevents (p : ChannelPtr) (mask : EventMask) :
    ((s.setRevents p mask).heap c').connectionState = (s.heap c').connectionState := by
  cases p with
  | acceptor => rfl
  | conn c => exact s.state_update c c' rfl

/-- `handle_close` disconnects. -/
theorem disconnected_handleClose : (s.handleClose c).Disconnected c := by
  unfold Disconnected handleClose
  rw [state_connChannel]
  show (Function.update s.heap c _ c).connectionState = _
  rw [Function.update_self]

theorem Disconnected.handleClose {c'} (h : s.Disconnected c') :
    (s.handleClose c).Disconnected c' := by
  unfold Disconnected TCPServer.handleClose
  rw [state_connChannel]
  exact (Function.forall_update_iff s.heap fun c' y => s.Disconnected c' →
    y.connectionState = .disconnected).mpr ⟨fun _ => rfl, fun _ _ h => h⟩ c' h

theorem Disconnected.destroyConn {c'} (h : s.Disconnected c') :
    (s.destroyConn c).Disconnected c' := by
  unfold Disconnected TCPServer.destroyConn
  rw [state_connChannel]
  split
  · exact h.handleClose s c
  · exact h

end State

/-- **A connection that is disconnected stays so.** -/
theorem Advances.disconnected (hm : s.Advances l s') (hc : c < s.fresh) (h : s.Disconnected c) :
    s'.Disconnected c := by
  cases hm with
  | readRearm _ | acceptArm _ | arm _ => exact (s.state_connChannel _ c _).trans h
  | readClose _ => exact h.handleClose s _
  | readDestroy _ => exact h.destroyConn s _
  | readRelease _ | dropCallback _ | dropLocal _ | drop _ =>
    exact (state_release _ _ c).trans h
  | acceptPut _ | put _ => exact (state_put _ _ c).trans h
  | runHere _ _ | runThere _ _ _ => exact (s.state_retain _ c).trans h
  | construct _ =>
    exact (congrArg TCPConnection.connectionState (Function.update_of_ne hc.ne ..)).trans h
  | nextLoop _ =>
    show (s.getNextLoop.1.heap c).connectionState = _
    unfold getNextLoop
    split <;> exact h
  | _ => exact h

theorem Moves.disconnected (hm : s.Moves e s') (hc : c < s.fresh) (h : s.Disconnected c) :
    s'.Disconnected c := by
  cases hm with
  | advance ha => exact ha.disconnected hc h
  | deliver _ _ => exact (state_setRevents _ c _ _).trans h
  | _ => exact h

/-! ## The places -/

section Connections

variable (s : TCPServer) (l l' : LoopId) (c : ConnId)

@[simp] theorem connections_goto (pc : ServerPc) :
    ((s.goto l' pc).loops l).connections = (s.loops l).connections :=
  (Apart.goto s l' pc l).connections

@[simp] theorem connections_queueNewEvent :
    ((s.queueNewEvent l' c).loops l).connections = (s.loops l).connections :=
  (Apart.queueNewEvent s l' c l).connections

@[simp] theorem connections_takePending :
    ((s.takePending l').loops l).connections = (s.loops l).connections :=
  (Apart.takePending s l' l).connections

/-- `put` leaves the entries that there are. -/
theorem connections_put {c'} {f : Fd} (h : (s.loops l).connections f = some c') :
    ((s.put c).loops l).connections f = some c' := by
  unfold put
  dsimp only
  split
  · exact h
  · next hnone =>
    show (Function.update s.loops (s.heap c).loop _ l).connections f = some c'
    by_cases hl : l = (s.heap c).loop
    · subst hl
      rw [Function.update_self]
      have hf : f ≠ (s.heap c).channel.fd := by
        rintro rfl
        cases h.symm.trans hnone
      exact (Function.update_of_ne hf ..).trans h
    · rw [Function.update_of_ne hl]
      exact h

/-- `erase` leaves the others. -/
theorem connections_unlink {c'} {f : Fd} (h : (s.loops l).connections f = some c')
    (hf : l = (s.heap c).loop → f ≠ (s.heap c).fd) :
    ((s.unlink c).loops l).connections f = some c' := by
  show (Function.update s.loops (s.heap c).loop _ l).connections f = some c'
  by_cases hl : l = (s.heap c).loop
  · have hf' := hf hl
    subst hl
    rw [Function.update_self]
    exact (Function.update_of_ne hf' ..).trans h
  · rw [Function.update_of_ne hl]
    exact h

end Connections

/-- **An entry stays until it is erased**, which is where its connection is removed. -/
theorem Advances.entered (hm : s.Advances l s') (hp : Placed s) (hs : s.Serves l) {f : Fd}
    (h : (s.loops l').connections f = some c) :
    (s'.loops l').connections f = some c ∨ ∃ d, (s.loops l).pc = .read c .erase d := by
  cases hm with
  | @unlink c₁ c₂ d hpc he =>
    obtain ⟨-, -, -, -, hent, -⟩ := (hs.standing hpc).2
    have hl : (s.heap c₁).loop = l := (hp.conn_at hpc List.mem_cons_self).2
    by_cases hat : l' = (s.heap c₁).loop ∧ f = (s.heap c₁).fd
    · obtain ⟨rfl, rfl⟩ := hat
      rw [hl, hent] at h
      obtain rfl := Option.some.inj h
      exact Or.inr ⟨d, hpc⟩
    · rw [connections_goto]
      exact Or.inl (s.connections_unlink l' c₁ h fun hl' hf => hat ⟨hl', hf⟩)
  | acceptPut _ | put _ =>
    refine Or.inl (connections_put _ l' _ ?_)
    rw [connections_goto]
    exact h
  | readRearm _ | acceptArm _ | arm _ =>
    rw [connections_goto, (SameRefs.enableRead s _).connections]
    exact Or.inl h
  | readClose _ =>
    rw [connections_goto, (SameRefs.handleClose s _).connections]
    exact Or.inl h
  | readDestroy _ =>
    rw [connections_goto, (SameRefs.destroyConn s _).connections]
    exact Or.inl h
  | rearm _ =>
    rw [connections_goto, (SameRefs.rearmAcceptor s).connections]
    exact Or.inl h
  | runThere _ _ _ =>
    rw [connections_queueNewEvent, connections_goto]
    exact Or.inl h
  | swap _ =>
    rw [connections_goto, connections_takePending]
    exact Or.inl h
  | nextLoop _ =>
    rw [connections_goto, loops_getNextLoop]
    exact Or.inl h
  | _ =>
    refine Or.inl ?_
    simpa using h

/-- `put` leaves what a connection was made for. -/
theorem kept_put (s : TCPServer) (c : ConnId) :
    (∀ c', ((s.put c).heap c').loop = (s.heap c').loop ∧ ((s.put c).heap c').fd = (s.heap c').fd)
      ∧ (s.put c).fresh = s.fresh := by
  unfold put
  dsimp only
  split
  · exact ⟨fun _ => ⟨rfl, rfl⟩, rfl⟩
  · exact ⟨fun c' => ⟨s.loop_retain c c', s.fd_retain c c'⟩, rfl⟩

/-- What `put` enters, where its key is absent. -/
theorem has_put (hp : Placed s) (ho : Owns s) (hc : (s.loops l).pc.putting = some c)
    (l' : LoopId) (pc : ServerPc) :
    (((s.goto l' pc).put c).loops (s.heap c).loop).connections (s.heap c).fd = some c := by
  obtain ⟨hlt, hlive, hput⟩ := ho.of_putting hp hc
  have hnone : s.entry c = none := ho.absent hp hlive hput
  have hfd : (s.heap c).channel.fd = (s.heap c).fd := (hp.formed c hlt).fd
  have hent : ((s.goto l' pc).put c).entry c = some c := by
    refine entry_put hfd ?_
    rw [entry_goto]
    exact hnone
  unfold entry at hent
  obtain ⟨hkept, -⟩ := kept_put (s.goto l' pc) c
  rwa [(hkept c).1, (hkept c).2] at hent

/-- A function that waits in the round is called in it. -/
theorem Advances.unput_has (hm : s.Advances l s') (hp : Placed s) (ho : Owns s)
    (hl : (s.heap c).loop = l) (hc : c ∈ (s.loops l).pc.unput) :
    (s'.loops l).Has (s.heap c).fd c := by
  cases hm with
  | @functor fs i c' hpc hc' =>
    obtain ⟨hi, hget⟩ := List.getElem?_eq_some_iff.mp hc'
    rw [hpc, ServerPc.unput, List.drop_eq_getElem_cons hi, hget] at hc
    refine Or.inl ?_
    rw [pc_goto]
    exact hc
  | @put c' fs i hpc =>
    rw [hpc] at hc
    rcases List.mem_cons.mp hc with rfl | hc
    · refine Or.inr (Or.inr ?_)
      have hent := has_put hp ho (l := l) (by rw [hpc]; rfl) l (.arm c fs i)
      rwa [hl] at hent
    · refine Or.inl ?_
      rw [pc_put, pc_goto]
      exact hc
  | arm hpc =>
    rw [hpc] at hc
    refine Or.inl ?_
    rw [pc_goto]
    exact hc
  | functorsEnd hpc hnone =>
    rw [hpc, ServerPc.unput, List.drop_eq_nil_of_le (List.getElem?_eq_none_iff.mp hnone)] at hc
    cases hc
  | poll hpc | nextNil hpc | next hpc | readRearm hpc | readClose hpc | readDestroy hpc
  | readRelease hpc | nextLoop hpc | construct hpc | acceptPut hpc | acceptArm hpc
  | dropCallback hpc | dropLocal hpc | rearm hpc | acceptRet hpc | swap hpc | dropNil hpc
  | drop hpc =>
    rw [hpc] at hc
    cases hc
  | handleRet hpc _ | handle hpc _ | unlink hpc _ | unlinkNone hpc _ | limitClose hpc _
  | limit hpc _ | runHere hpc _ | runThere hpc _ _ =>
    rw [hpc] at hc
    cases hc

/-- A function that is pending is taken into the round, or goes on pending. -/
theorem Advances.pending_has (hm : s.Advances l s') (hp : Placed s) (hs : s.Serves l) {fd : Fd}
    (hc : c ∈ (s.loops l).pending) : (s'.loops l).Has fd c := by
  cases hm.works hp hs with
  | swap _ hpc' =>
    refine Or.inl ?_
    rw [hpc']
    exact hc
  | functor _ _ _ hp | put _ _ hp | arm _ _ hp _ | other _ _ _ hp => exact Or.inr (Or.inl (hp ▸ hc))

/-- **A statement of its loop's thread** leaves a connection with the loop, unless it is
erased. -/
theorem Advances.has (hm : s.Advances l s') (hp : Placed s) (ho : Owns s) (hs : s.Serves l)
    (hl : (s.heap c).loop = l) (h : (s.loops l).Has (s.heap c).fd c) :
    (s'.loops l).Has (s.heap c).fd c ∨ ∃ d, (s.loops l).pc = .read c .erase d := by
  rcases h with hunput | hpending | hent
  · exact Or.inl (hm.unput_has hp ho hl hunput)
  · exact Or.inl (hm.pending_has hp hs hpending)
  · exact (hm.entered hp hs hent).imp (fun h => Or.inr (Or.inr h)) id

/-- The acceptor hands a connection over, or puts it itself. -/
theorem Advances.unput_located (hm : s.Advances 0 s') (hp : Placed s) (ho : Owns s)
    (hc : c ∈ (s.loops 0).pc.acceptPc.unput) : s'.Located c := by
  cases hm with
  | @runHere c' k d hpc _ =>
    rw [hpc] at hc
    refine Or.inl ?_
    rw [pc_goto]
    exact hc
  | @runThere c' l' k d hpc hl' _ =>
    rw [hpc] at hc
    obtain rfl := List.mem_singleton.mp hc
    refine Or.inr (Or.inr (Or.inl ?_))
    have hloop : ((((s.retain c).goto 0 (.accept (.dropLocal c) (k.act (.register c l')) d))
        |>.queueNewEvent l' c).heap c).loop = l' := (s.loop_retain c c).trans hl'
    rw [hloop, pending_queueNewEvent, if_pos rfl]
    exact List.mem_append_right _ (List.mem_singleton_self c)
  | @acceptPut c' k d hpc =>
    rw [hpc] at hc
    obtain rfl := List.mem_singleton.mp hc
    refine Or.inr (Or.inr (Or.inr ?_))
    obtain ⟨hkept, -⟩ := kept_put (s.goto 0 (.accept (.arm c) k d)) c
    rw [(hkept c).1, (hkept c).2]
    exact has_put hp ho (l := 0) (by rw [hpc]; rfl) 0 _
  | poll hpc | nextNil hpc | next hpc | readRearm hpc | readClose hpc | readDestroy hpc
  | readRelease hpc | nextLoop hpc | construct hpc | acceptArm hpc | dropCallback hpc
  | dropLocal hpc | rearm hpc | acceptRet hpc | swap hpc | put hpc | arm hpc | dropNil hpc
  | drop hpc =>
    rw [hpc] at hc
    cases hc
  | handleRet hpc _ | handle hpc _ | unlink hpc _ | unlinkNone hpc _ | limitClose hpc _
  | limit hpc _ | functor hpc _ | functorsEnd hpc _ =>
    rw [hpc] at hc
    cases hc

/-- **An event leaves a connection with its loop**, unless it is erased. -/
theorem Moves.has (hm : s.Moves e s') (hp : Placed s) (ho : Owns s) (hs : s.Serves l)
    (hl : (s.heap c).loop = l) (h : (s.loops l).Has (s.heap c).fd c) :
    (s'.loops l).Has (s.heap c).fd c ∨ ∃ d, (s.loops l).pc = .read c .erase d := by
  by_cases he : e.loop = l
  · cases hm with
    | advance ha =>
      obtain rfl := he
      exact ha.has hp ho hs hl h
    | @deliver l' f mask active r hpc hr =>
      obtain rfl : l' = l := he
      refine Or.inl (h.imp (fun hu => ?_) (Or.imp (fun hq => ?_) fun hent => ?_))
      · rw [hpc] at hu
        cases hu
      · rwa [pending_goto, loops_setRevents, pending_setInterest]
      · rwa [connections_goto, loops_setRevents, (SameRefs.setInterest s l' r.1).connections]
    | @read l' c' d n hpc | @accept l' k d r hpc hr | @flags l' f l'' k d hpc hfd
    | @noFlags l' f l'' k d hpc =>
      obtain rfl : l' = l := he
      refine Or.inl (h.imp (fun hu => ?_) (Or.imp (fun hq => ?_) fun hent => ?_))
      · rw [hpc] at hu
        cases hu
      · rw [pending_goto]
        exact hq
      · rw [connections_goto]
        exact hent
  · obtain ⟨ha, hpc⟩ := hm.apart hp he
    have hqueue : ∃ cs, (s'.loops l).pending = (s.loops l).pending ++ cs := by
      cases hm with
      | advance ha' => exact ha'.queue he
      | _ => exact ⟨[], by simp⟩
    obtain ⟨cs, hcs⟩ := hqueue
    refine Or.inl (h.imp (fun hu => ?_) (Or.imp (fun hq => ?_) fun hent => ?_))
    · rwa [hpc]
    · rw [hcs]
      exact List.mem_append_left _ hq
    · rwa [ha.connections]

/-- An event leaves what a connection was made for. -/
theorem Moves.kept (hm : s.Moves e s') (hp : Placed s) (hc : c < s.fresh) :
    (s'.heap c).loop = (s.heap c).loop ∧ (s'.heap c).fd = (s.heap c).fd :=
  (hm.apart hp (Nat.succ_ne_self e.loop).symm).1.kept c hc

/-- **An event leaves a connection in its place**, or brings it to the next one, unless it
is erased. -/
theorem Moves.located (hm : s.Moves e s') (hp : Placed s) (ho : Owns s)
    (hs : ∀ l, s.Serves l) (hc : c < s.fresh) (h : s.Located c) :
    s'.Located c ∨ ∃ l d, (s.loops l).pc = .read c .erase d := by
  rcases h with hu | hh
  · by_cases he : e.loop = 0
    · cases hm with
      | advance ha =>
        obtain rfl := he
        exact Or.inl (ha.unput_located hp ho hu)
      | deliver hpc _ | read _ hpc | accept hpc _ | flags hpc _ | noFlags hpc =>
        obtain rfl := he
        rw [hpc] at hu
        cases hu
    · refine Or.inl (Or.inl ?_)
      rwa [(hm.apart hp he).2]
  · obtain ⟨hl, hfd⟩ := hm.kept hp hc
    refine (hm.has hp ho (hs _) rfl hh).imp (fun h' => Or.inr ?_) fun ⟨d, hd⟩ => ⟨_, d, hd⟩
    rwa [hl, hfd]

/-- A connection that is new is in the hand of the acceptor. -/
theorem Moves.constructed (hm : s.Moves e s') (hp : Placed s) (hc : s.fresh ≤ c)
    (hc' : c < s'.fresh) : c ∈ (s'.loops 0).pc.acceptPc.unput := by
  have hsame : s'.fresh = s.fresh → c ∈ (s'.loops 0).pc.acceptPc.unput :=
    fun hf => absurd (hf ▸ hc') (not_lt.mpr hc)
  cases hm with
  | @deliver l f mask active r hpc hr =>
    exact hsame ((SameRefs.setRevents _ r.2 mask).fresh)
  | advance ha =>
    cases ha with
    | @construct fd l' k d hpc =>
      obtain rfl := hp.accept_loop hpc
      rw [pc_goto, Nat.le_antisymm (Nat.le_of_lt_succ hc') hc]
      exact List.mem_singleton_self _
    | @readDestroy c d hpc => exact hsame (SameRefs.destroyConn s c).fresh
    | nextLoop _ => exact hsame (SameRefs.getNextLoop s).fresh
    | acceptPut _ | put _ => exact hsame (kept_put _ _).2
    | _ => exact hsame rfl
  | _ => exact hsame rfl

/-! ## What has become of every connection -/

/-- **A connection is somewhere, or its peer has closed**; and `handle_close` comes before
what removes it. -/
structure Traced (s : TCPServer) : Prop where
  located : ∀ c < s.fresh, s.Located c ∨ s.Disconnected c
  leaving : ∀ l c pos d, (s.loops l).pc = .read c pos d → pos.leaving = true → s.Disconnected c

/-- **Each statement that comes to remove a connection** has found it disconnected. -/
theorem Advances.leaving (hm : s.Advances l s') (hp : Placed s) (hs : s.Serves l)
    (ht : s.Traced) {pos : ReadPc} {d : Dispatch} (hpc' : (s'.loops l).pc = .read c pos d)
    (hpos : pos.leaving = true) : s'.Disconnected c := by
  cases hm with
  | @readClose c' d' hpc =>
    rw [pc_goto] at hpc'
    obtain ⟨rfl, -, -⟩ := ServerPc.read.inj hpc'
    exact s.disconnected_handleClose c'
  | @readDestroy c' d' hpc =>
    rw [pc_goto] at hpc'
    obtain ⟨rfl, -, -⟩ := ServerPc.read.inj hpc'
    exact (ht.leaving l c' .destroy d' hpc rfl).destroyConn s c'
  | @unlink c₁ c₂ d' hpc hent =>
    rw [pc_goto] at hpc'
    obtain ⟨rfl, -, -⟩ := ServerPc.read.inj hpc'
    -- the entry that is found is the one of the connection itself
    obtain ⟨-, -, -, -, hbare, -⟩ := (hs.standing hpc).2
    have hl : (s.heap c₁).loop = l := (hp.conn_at hpc List.mem_cons_self).2
    have he : (s.loops (s.heap c₁).loop).connections (s.heap c₁).fd = some c₂ := hent
    rw [hl, hbare] at he
    obtain rfl := Option.some.inj he
    exact ht.leaving l c₁ .erase d' hpc rfl
  | @handle d' hpc hd =>
    rw [pc_goto] at hpc'
    have htest := hp.tested hpc hd
    rw [hpc'] at htest
    cases htest
    cases hpos
  | put hpc | acceptPut hpc =>
    rw [pc_put, pc_goto] at hpc'
    cases hpc'
  | runThere hpc _ _ =>
    rw [pc_queueNewEvent, pc_goto] at hpc'
    cases hpc'
  | readRelease hpc | dropCallback hpc | dropLocal hpc | drop hpc =>
    rw [pc_release, pc_goto] at hpc'
    cases hpc'
  | _ =>
    rw [pc_goto] at hpc'
    cases hpc'

theorem Traced.moves (ht : s.Traced) (hp : Placed s) (ho : Owns s) (hs : ∀ l, s.Serves l)
    (hm : s.Moves e s') : s'.Traced where
  located c hc' := by
    by_cases hc : c < s.fresh
    · rcases ht.located c hc with hl | hd
      · rcases hm.located hp ho hs hc hl with hl | ⟨l, d, hpc⟩
        · exact Or.inl hl
        · exact Or.inr (hm.disconnected hc (ht.leaving l c .erase d hpc rfl))
      · exact Or.inr (hm.disconnected hc hd)
    · exact Or.inl (Or.inl (hm.constructed hp (not_lt.mp hc) hc'))
  leaving l c pos d hpc' hpos := by
    by_cases he : e.loop = l
    · cases hm with
      | advance ha =>
        obtain rfl := he
        exact ha.leaving hp (hs _) ht hpc' hpos
      | @read l' c' d' n hpc =>
        obtain rfl : l' = l := he
        rw [pc_goto] at hpc'
        obtain ⟨-, rfl, -⟩ := ServerPc.read.inj hpc'
        -- what `read` returns leads to no statement that removes
        unfold afterRead at hpos
        split at hpos
        · cases hpos
        · split at hpos <;> cases hpos
      | deliver hpc _ | accept hpc _ | flags hpc _ | noFlags hpc =>
        obtain rfl := he
        exact absurd ((pc_goto ..).symm.trans hpc') (by simp)
    · rw [(hm.apart hp he).2] at hpc'
      exact hm.disconnected (hp.conn_at hpc' List.mem_cons_self).1 (ht.leaving l c pos d hpc' hpos)

/-- **In every reachable state** every connection is accounted for. -/
theorem reachable_traced {n : ℕ} {fd : Fd} {others : Finset Fd} {s : TCPServer}
    (h : (machine n fd others).Reachable s) : s.Traced := by
  obtain ⟨tr, ht⟩ := h
  have hall : (machine n fd others).Reachable s ∧ s.Traced := by
    refine Machine.exec_invariant (I := fun s => (machine n fd others).Reachable s ∧ s.Traced)
      (fun s e s' ⟨hr, ha⟩ hstep => ⟨hr.step hstep, ?_⟩) ht
      ⟨⟨[], rfl⟩, fun _ hc => absurd hc (Nat.not_lt_zero _), fun _ _ _ _ hpc => ?_⟩
    · exact ha.moves (reachable_placed hr) (reachable_owns hr) (reachable_serves hr)
        (.of_step hstep)
    · cases hpc
  exact hall.2

/-! ## What becomes of descriptors -/

/-- **The descriptor does not outlive its connection**: with the last reference it was
closed, and nobody has opened the number again. -/
def Settled (s : TCPServer) (c : ConnId) : Prop :=
  (s.heap c).useCount = 0 → (s.heap c).fd ∉ s.openFds

/-- The descriptor is open, and no connection will close it. -/
def Unclaimed (s : TCPServer) (fd : Fd) : Prop :=
  fd ∈ s.openFds ∧ ∀ c, 0 < (s.heap c).useCount → (s.heap c).fd ≠ fd

theorem count_retain (s : TCPServer) (c c' : ConnId) :
    ((s.retain c).heap c').useCount = (s.heap c').useCount + if c' = c then 1 else 0 := by
  show (Function.update s.heap c _ c').useCount = _
  rw [Function.update_apply]
  split
  · next h => rw [h]
  · rfl

theorem count_release (s : TCPServer) (c c' : ConnId) :
    ((s.release c).heap c').useCount = (s.heap c').useCount - if c' = c then 1 else 0 := by
  show (Function.update s.heap c _ c').useCount = _
  rw [Function.update_apply]
  split
  · next h => rw [h]
  · rfl

/-- **What most statements do to descriptors**: none is opened, one that a connection has
is closed with its last reference, and one that no connection has is not closed. -/
structure Keeps (s s' : TCPServer) : Prop where
  openFds : s'.openFds ⊆ s.openFds
  settled : ∀ c, s.Settled c → s'.Settled c
  unclaimed : ∀ fd, s.Unclaimed fd → s'.Unclaimed fd

namespace Keeps

theorem trans {s'' : TCPServer} (h : Keeps s s') (h' : Keeps s' s'') : Keeps s s'' where
  openFds := h'.openFds.trans h.openFds
  settled c hc := h'.settled c (h.settled c hc)
  unclaimed fd hfd := h'.unclaimed fd (h.unclaimed fd hfd)

theorem of_sameRefs (h : SameRefs s s') : Keeps s s' where
  openFds := h.openFds.subset
  settled c hc := by
    unfold Settled
    rw [h.useCount, h.fd, h.openFds]
    exact hc
  unclaimed fd hfd := by
    unfold Unclaimed
    rw [h.openFds]
    refine ⟨hfd.1, fun c hc => ?_⟩
    rw [h.useCount] at hc
    rw [h.fd]
    exact hfd.2 c hc

/-- A change that leaves the connections and the descriptors. -/
theorem of_eq (hheap : s'.heap = s.heap) (hopen : s'.openFds = s.openFds) : Keeps s s' where
  openFds := hopen.subset
  settled c hc := by
    unfold Settled
    rw [hheap, hopen]
    exact hc
  unclaimed fd hfd := by
    unfold Unclaimed
    rw [hheap, hopen]
    exact hfd

theorem goto (s : TCPServer) (l : LoopId) (pc : ServerPc) : Keeps s (s.goto l pc) :=
  of_eq rfl rfl

/-- A reference to a living connection is copied. -/
theorem retain (hc : 0 < (s.heap c).useCount) : Keeps s (s.retain c) where
  openFds := Finset.Subset.refl _
  settled c' hc' := by
    unfold Settled
    rw [count_retain, fd_retain]
    exact fun hzero => hc' (Nat.eq_zero_of_add_eq_zero_right hzero)
  unclaimed fd hfd := by
    refine ⟨hfd.1, fun c' hpos => ?_⟩
    rw [fd_retain]
    rw [count_retain] at hpos
    by_cases h : c' = c
    · rw [h]
      exact hfd.2 c hc
    · rw [if_neg h] at hpos
      exact hfd.2 c' hpos

/-- A reference is destroyed, and with the last one the descriptor is closed. -/
theorem release (s : TCPServer) (c : ConnId) : Keeps s (s.release c) where
  openFds := by
    show (if (s.heap c).useCount = 1 then s.openFds.erase (s.heap c).fd else s.openFds) ⊆ _
    split
    · exact Finset.erase_subset _ _
    · exact Finset.Subset.refl _
  settled c' hc' := by
    unfold Settled
    rw [count_release, fd_release]
    show _ → _ ∉ if (s.heap c).useCount = 1 then s.openFds.erase (s.heap c).fd else s.openFds
    intro hzero
    by_cases h : c' = c
    · subst h
      rw [if_pos rfl] at hzero
      split
      · exact Finset.notMem_erase _ _
      · exact hc' (by omega)
    · rw [if_neg h] at hzero
      split
      · exact fun hmem => hc' hzero (Finset.mem_of_mem_erase hmem)
      · exact hc' hzero
  unclaimed fd hfd := by
    refine ⟨?_, fun c' hpos => ?_⟩
    · show fd ∈ if (s.heap c).useCount = 1 then s.openFds.erase (s.heap c).fd else s.openFds
      split
      · next hone => exact Finset.mem_erase.mpr ⟨(hfd.2 c (by omega)).symm, hfd.1⟩
      · exact hfd.1
    · rw [fd_release]
      rw [count_release] at hpos
      exact hfd.2 c' (by omega)

/-- A living connection is entered. -/
theorem put (hc : 0 < (s.heap c).useCount) : Keeps s (s.put c) := by
  unfold TCPServer.put
  dsimp only
  split
  · exact of_eq rfl rfl
  · exact (retain hc).trans (of_eq rfl rfl)

end Keeps

/-- **A statement keeps the descriptors**, but for the close of one beyond `MAXFDS` and
the construction of a connection. -/
theorem Advances.keeps (hm : s.Advances l s') (hp : Placed s) (ho : Owns s)
    (hlimit : ∀ fd l' k d, (s.loops l).pc ≠ .accept (.limit fd l') k d)
    (hconstruct : ∀ fd l' k d, (s.loops l).pc ≠ .accept (.construct fd l') k d) :
    Keeps s s' := by
  cases hm with
  | limitClose h _ => exact absurd h (hlimit _ _ _ _)
  | construct h => exact absurd h (hconstruct _ _ _ _)
  | readRearm _ | acceptArm _ | arm _ =>
    exact (Keeps.of_sameRefs (SameRefs.enableRead s _)).trans (.goto _ l _)
  | readClose _ => exact (Keeps.of_sameRefs (SameRefs.handleClose s _)).trans (.goto _ l _)
  | readDestroy _ => exact (Keeps.of_sameRefs (SameRefs.destroyConn s _)).trans (.goto _ l _)
  | nextLoop _ => exact (Keeps.of_sameRefs (SameRefs.getNextLoop s)).trans (.goto _ l _)
  | rearm _ => exact (Keeps.of_sameRefs (SameRefs.rearmAcceptor s)).trans (.goto _ l _)
  | readRelease _ | dropCallback _ | dropLocal _ | drop _ =>
    exact (Keeps.goto s l _).trans (.release _ _)
  | @runHere c k d h hl =>
    obtain rfl := hp.accept_loop h
    have hc : 0 < (s.heap c).useCount :=
      ho.alive_of_accept (by rw [h]; exact List.mem_singleton_self c)
    exact (Keeps.retain hc).trans (.goto _ 0 _)
  | @runThere c l' k d h hl' hl =>
    obtain rfl := hp.accept_loop h
    have hc : 0 < (s.heap c).useCount :=
      ho.alive_of_accept (by rw [h]; exact List.mem_singleton_self c)
    exact (Keeps.retain hc).trans (.of_eq rfl rfl)
  | @acceptPut c k d h =>
    obtain ⟨-, hc, -⟩ := ho.of_putting (l := l) (c := c) hp (by rw [h]; rfl)
    exact (Keeps.goto s l _).trans (.put hc)
  | @put c fs i h =>
    obtain ⟨-, hc, -⟩ := ho.of_putting (l := l) (c := c) hp (by rw [h]; rfl)
    exact (Keeps.goto s l _).trans (.put hc)
  | _ => exact .of_eq rfl rfl

/-- The other threads than the base loop's keep the descriptors. -/
theorem Moves.keeps (hm : s.Moves e s') (hp : Placed s) (ho : Owns s) (he : e.loop ≠ 0) :
    Keeps s s' := by
  cases hm with
  | @deliver l f mask active r hpc hr =>
    have hsame : SameRefs s ((s.setInterest l r.1).setRevents r.2 mask) :=
      (SameRefs.setInterest s l r.1).trans (SameRefs.setRevents _ r.2 mask)
    exact (Keeps.of_sameRefs hsame).trans (.goto _ l _)
  | accept hpc _ => exact absurd (hp.accept_loop hpc) he
  | advance ha =>
    exact ha.keeps hp ho (fun _ _ _ _ hpc => he (hp.accept_loop hpc))
      fun _ _ _ _ hpc => he (hp.accept_loop hpc)
  | _ => exact .of_eq rfl rfl

end TCPServer
