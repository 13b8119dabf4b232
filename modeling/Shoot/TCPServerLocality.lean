import Shoot.TCPServerPlaces

/-!
# Threads that do not meet

A loop's interest list and its `connections_` are changed by its own thread
alone, and so are the channels of its connections: the acceptor, which is the
one thread that touches the state of other loops, only pushes functions,
constructs connections and counts references. This is a frame rule
(`Moves.apart`): an event of one loop's thread leaves everything another loop
sees as it was. An invariant of a loop has then to be proved only for the
events of its own thread.
-/

/-- The loop whose thread an event moves. -/
def ServerEvent.loop : ServerEvent → LoopId
  | .deliver l _ _ | .read l _ | .accept l _ | .flags l _ | .step l => l

namespace TCPServer

variable {s s' : TCPServer} {l l' : LoopId} {c : ConnId}

/-- **The loop `l` sees no difference** between two servers: the channels
registered with it, its entries, the channels of its connections. There may
be new connections, whose channels are new as well. -/
structure Apart (s s' : TCPServer) (l : LoopId) : Prop where
  interest : (s'.loops l).epoll.interest = (s.loops l).epoll.interest
  connections : (s'.loops l).connections = (s.loops l).connections
  kept : ∀ c < s.fresh, (s'.heap c).loop = (s.heap c).loop ∧ (s'.heap c).fd = (s.heap c).fd
  channel : ∀ c < s.fresh, (s.heap c).loop = l → (s'.heap c).channel = (s.heap c).channel
  fresh : s.fresh ≤ s'.fresh
  added : ∀ c, s.fresh ≤ c → c < s'.fresh → (s'.heap c).loop = l →
    (s'.heap c).channel.status = .new
  listenFd : s'.listenFd = s.listenFd
  acceptChannel : l = 0 → s'.acceptChannel = s.acceptChannel

namespace Apart

theorem refl (s : TCPServer) (l : LoopId) : Apart s s l where
  interest := rfl
  connections := rfl
  kept _ _ := ⟨rfl, rfl⟩
  channel _ _ _ := rfl
  fresh := le_rfl
  added _ hc hc' := absurd hc' (not_lt.mpr hc)
  listenFd := rfl
  acceptChannel _ := rfl

theorem trans {s'' : TCPServer} (h : Apart s s' l) (h' : Apart s' s'' l) : Apart s s'' l where
  interest := h'.interest.trans h.interest
  connections := h'.connections.trans h.connections
  kept c hc :=
    have hk := h.kept c hc
    have hk' := h'.kept c (hc.trans_le h.fresh)
    ⟨hk'.1.trans hk.1, hk'.2.trans hk.2⟩
  channel c hc hl :=
    (h'.channel c (hc.trans_le h.fresh) ((h.kept c hc).1.trans hl)).trans (h.channel c hc hl)
  fresh := h.fresh.trans h'.fresh
  added c hc hc' hl := by
    by_cases hlt : c < s'.fresh
    · -- a connection of the first part, which the second left alone
      have hl' : (s'.heap c).loop = l := (h'.kept c hlt).1.symm.trans hl
      rw [h'.channel c hlt hl']
      exact h.added c hc hlt hl'
    · exact h'.added c (not_lt.mp hlt) hc' hl
  listenFd := h'.listenFd.trans h.listenFd
  acceptChannel hl := (h'.acceptChannel hl).trans (h.acceptChannel hl)

/-- A change of a loop's thread or queue. -/
theorem setThread (s : TCPServer) {L : ServerLoop} (l : LoopId)
    (hi : L.epoll.interest = (s.loops l').epoll.interest)
    (hc : L.connections = (s.loops l').connections) :
    Apart s { s with loops := Function.update s.loops l' L } l :=
  have key : (Function.update s.loops l' L l).epoll.interest = (s.loops l).epoll.interest
      ∧ (Function.update s.loops l' L l).connections = (s.loops l).connections :=
    (Function.forall_update_iff s.loops fun k L => L.epoll.interest = (s.loops k).epoll.interest
      ∧ L.connections = (s.loops k).connections).mpr ⟨⟨hi, hc⟩, fun _ _ => ⟨rfl, rfl⟩⟩ l
  { refl s l with
    interest := key.1
    connections := key.2 }

/-- A change of another loop. -/
theorem setLoop (s : TCPServer) (L : ServerLoop) (hl : l' ≠ l) :
    Apart s { s with loops := Function.update s.loops l' L } l :=
  { refl s l with
    interest := by
      show (Function.update s.loops l' L l).epoll.interest = _
      rw [Function.update_of_ne hl.symm]
    connections := by
      show (Function.update s.loops l' L l).connections = _
      rw [Function.update_of_ne hl.symm] }

/-- A change of a connection that leaves its channel alone, or is of another
loop. -/
theorem setConn (s : TCPServer) {x : TCPConnection} {o : Finset Fd}
    (hloop : x.loop = (s.heap c).loop) (hfd : x.fd = (s.heap c).fd)
    (hch : (s.heap c).loop = l → x.channel = (s.heap c).channel) :
    Apart s { s with heap := Function.update s.heap c x, openFds := o } l :=
  { refl s l with
    kept := fun c' _ => ⟨s.loop_update c hloop c', s.fd_update c hfd c'⟩
    channel := fun c' _ => (Function.forall_update_iff s.heap fun c' y =>
      (s.heap c').loop = l → y.channel = (s.heap c').channel).mpr
        ⟨hch, fun _ _ _ => rfl⟩ c'
    added := fun _ hc hc' => absurd hc' (not_lt.mpr hc) }

/-! ### The operations -/

theorem goto (s : TCPServer) (l' : LoopId) (pc : ServerPc) (l : LoopId) :
    Apart s (s.goto l' pc) l :=
  setThread s l rfl rfl

theorem queueNewEvent (s : TCPServer) (l' : LoopId) (c : ConnId) (l : LoopId) :
    Apart s (s.queueNewEvent l' c) l :=
  setThread s l rfl rfl

theorem takePending (s : TCPServer) (l' l : LoopId) : Apart s (s.takePending l') l :=
  setThread s l rfl rfl

theorem of_openFds (s : TCPServer) (o : Finset Fd) (n : ℕ) (l : LoopId) :
    Apart s { s with openFds := o, next := n } l :=
  { refl s l with }

theorem close (s : TCPServer) (fd : Fd) (l : LoopId) : Apart s (s.close fd) l :=
  of_openFds s (s.openFds.erase fd) s.next l

theorem accepted (s : TCPServer) (r : ℤ) (l : LoopId) : Apart s (s.accepted r) l :=
  of_openFds s (if 0 ≤ r then insert r s.openFds else s.openFds) s.next l

theorem getNextLoop (s : TCPServer) (l : LoopId) : Apart s s.getNextLoop.1 l := by
  unfold TCPServer.getNextLoop
  split
  · exact refl s l
  · exact of_openFds s s.openFds _ l

theorem retain (s : TCPServer) (c : ConnId) (l : LoopId) : Apart s (s.retain c) l :=
  setConn s (o := s.openFds) rfl rfl fun _ => rfl

theorem release (s : TCPServer) (c : ConnId) (l : LoopId) : Apart s (s.release c) l :=
  setConn s rfl rfl fun _ => rfl

theorem construct (s : TCPServer) (fd : Fd) (l' l : LoopId) : Apart s (s.construct fd l') l where
  interest := rfl
  connections := rfl
  kept c hc := by
    show (Function.update s.heap s.fresh _ c).loop = _ ∧ (Function.update s.heap s.fresh _ c).fd = _
    rw [Function.update_of_ne hc.ne]
    exact ⟨rfl, rfl⟩
  channel c hc _ := by
    show (Function.update s.heap s.fresh _ c).channel = _
    rw [Function.update_of_ne hc.ne]
  fresh := Nat.le_succ _
  added c hc hc' _ := by
    rw [Nat.le_antisymm (Nat.le_of_lt_succ hc') hc]
    show (Function.update s.heap s.fresh _ s.fresh).channel.status = _
    rw [Function.update_self]
    rfl
  listenFd := rfl
  acceptChannel _ := rfl

section Other

variable (s)

theorem setInterest (K : EpollSet ChannelPtr) (hl : l' ≠ l) : Apart s (s.setInterest l' K) l :=
  setLoop s _ hl

theorem setRevents {p : ChannelPtr} (mask : EventMask) (hp : s.Home l' p) (hl : l' ≠ l) :
    Apart s (s.setRevents p mask) l := by
  cases p with
  | conn c =>
    exact setConn s (o := s.openFds) rfl rfl fun h => absurd (hp.2.symm.trans h) hl
  | acceptor =>
    have hne : l ≠ 0 := fun h => hl ((h.trans hp.symm).symm)
    exact { refl s l with acceptChannel := fun h => absurd h hne }

theorem connChannel {f : Epoll ChannelPtr → ChannelPtr → Channel Handler →
    Epoll ChannelPtr × Channel Handler} (hc : (s.heap c).loop ≠ l) :
    Apart s (s.connChannel c f) l := by
  have h : Apart s { s with
      loops := Function.update s.loops (s.heap c).loop { s.loops (s.heap c).loop with
        epoll := (f (s.loops (s.heap c).loop).epoll (.conn c) (s.heap c).channel).1 } } l :=
    setLoop s _ hc
  refine h.trans ?_
  exact setConn _ (o := s.openFds) rfl rfl fun h => absurd h hc

theorem enableRead (hc : (s.heap c).loop ≠ l) : Apart s (s.enableRead c) l := connChannel s hc

theorem handleClose (hc : (s.heap c).loop ≠ l) : Apart s (s.handleClose c) l := by
  have h : Apart s { s with
      heap := Function.update s.heap c { s.heap c with connectionState := .disconnected } } l :=
    setConn s (o := s.openFds) rfl rfl fun _ => rfl
  exact h.trans (connChannel _ ((s.loop_update c (by rfl) c).trans_ne hc))

theorem destroyConn (hc : (s.heap c).loop ≠ l) : Apart s (s.destroyConn c) l := by
  unfold TCPServer.destroyConn
  split
  · refine (handleClose s hc).trans (connChannel _ ?_)
    show (Function.update (Function.update s.heap c _) c _ c).loop ≠ l
    rw [Function.update_self]
    show (Function.update s.heap c _ c).loop ≠ l
    rw [Function.update_self]
    exact hc
  · exact connChannel s hc

theorem put (hc : (s.heap c).loop ≠ l) : Apart s (s.put c) l := by
  unfold TCPServer.put
  dsimp only
  split
  · exact refl s l
  · exact (retain s c l).trans (setLoop _ _ hc)

theorem unlink (hc : (s.heap c).loop ≠ l) : Apart s (s.unlink c) l := setLoop s _ hc

theorem rearmAcceptor (hl : (0 : LoopId) ≠ l) : Apart s s.rearmAcceptor l := by
  have h : Apart s { s with
      loops := Function.update s.loops 0 { s.loops 0 with
        epoll := (s.acceptChannel.enableRead (s.loops 0).epoll .acceptor).1 } } l :=
    setLoop s _ hl
  exact { h with acceptChannel := fun h0 => absurd h0.symm hl }

end Other

end Apart

/-! ## The frame rule -/

/-- A thread goes on after an operation that is nothing to another loop. -/
theorem Apart.then_goto (h : Apart s s' l') (hpc : (s'.loops l').pc = (s.loops l').pc)
    (hl : l ≠ l') (pc : ServerPc) :
    Apart s (s'.goto l pc) l' ∧ ((s'.goto l pc).loops l').pc = (s.loops l').pc := by
  refine ⟨h.trans (goto s' l pc l'), ?_⟩
  rw [loops_goto_of_ne s' pc hl.symm]
  exact hpc

/-- **A statement of a loop's thread is nothing to the other loops.** -/
theorem Advances.apart (h : s.Advances l s') (hp : Placed s) (hl : l ≠ l') :
    Apart s s' l' ∧ (s'.loops l').pc = (s.loops l').pc := by
  -- a connection on the stack is of this loop, and not of the other
  have hconn : ∀ {c pc}, (s.loops l).pc = pc → .conn c ∈ pc.pointers → (s.heap c).loop ≠ l' :=
    fun hpc hc he => hl ((hp.conn_at hpc hc).2.symm.trans he)
  have hgoto : ∀ pc, Apart s (s.goto l pc) l' ∧ ((s.goto l pc).loops l').pc = (s.loops l').pc :=
    fun pc => (Apart.refl s l').then_goto rfl hl pc
  cases h with
  | poll hpc => exact hgoto _
  | nextNil hpc => exact hgoto _
  | next hpc => exact hgoto _
  | handleRet hpc hd => exact hgoto _
  | handle hpc hd => exact hgoto _
  | @readRearm c d hpc =>
    exact (Apart.enableRead s (hconn hpc List.mem_cons_self)).then_goto (s.pc_enableRead l' c) hl _
  | @readClose c d hpc =>
    exact (Apart.handleClose s (hconn hpc List.mem_cons_self)).then_goto
      (s.pc_handleClose l' c) hl _
  | @readDestroy c d hpc =>
    exact (Apart.destroyConn s (hconn hpc List.mem_cons_self)).then_goto
      (s.pc_destroyConn l' c) hl _
  | @unlink c c' d hpc he =>
    exact (Apart.unlink s (hconn hpc List.mem_cons_self)).then_goto (s.pc_unlink l' c) hl _
  | unlinkNone hpc he => exact hgoto _
  | @readRelease c d hpc =>
    obtain ⟨ha, hpc'⟩ := hgoto (.handle d)
    exact ⟨ha.trans (Apart.release _ c l'), hpc'⟩
  | nextLoop hpc =>
    exact (Apart.getNextLoop s l').then_goto (by rw [loops_getNextLoop]) hl _
  | limitClose hpc hfd => exact (Apart.close s _ l').then_goto rfl hl _
  | limit hpc hfd => exact hgoto _
  | construct hpc => exact (Apart.construct s _ _ l').then_goto rfl hl _
  | @runHere c k d hpc hl' => exact (Apart.retain s c l').then_goto rfl hl _
  | @runThere c l'' k d hpc hl' hne =>
    obtain ⟨ha, hpc'⟩ := (Apart.retain s c l').then_goto rfl hl
      (.accept (.dropLocal c) (k.act (.register c l'')) d)
    exact ⟨ha.trans (Apart.queueNewEvent _ l'' c l'), (pc_queueNewEvent _ _ _ c).trans hpc'⟩
  | @acceptPut c k d hpc =>
    obtain ⟨ha, hpc'⟩ := hgoto (.accept (.arm c) k d)
    exact ⟨ha.trans (Apart.put _ (hconn hpc List.mem_cons_self)), (pc_put _ l' c).trans hpc'⟩
  | @acceptArm c k d hpc =>
    exact (Apart.enableRead s (hconn hpc List.mem_cons_self)).then_goto (s.pc_enableRead l' c) hl _
  | @dropCallback c k d hpc =>
    obtain ⟨ha, hpc'⟩ := hgoto (.accept (.dropLocal c) k d)
    exact ⟨ha.trans (Apart.release _ c l'), hpc'⟩
  | @dropLocal c k d hpc =>
    obtain ⟨ha, hpc'⟩ := hgoto (.accept .rearm k d)
    exact ⟨ha.trans (Apart.release _ c l'), hpc'⟩
  | rearm hpc =>
    have h0 : (0 : LoopId) ≠ l' := (hp.accept_loop hpc) ▸ hl
    exact (Apart.rearmAcceptor s h0).then_goto (s.pc_rearmAcceptor l') hl _
  | acceptRet hpc => exact hgoto _
  | swap hpc => exact (Apart.takePending s l l').then_goto (s.pc_takePending l' l) hl _
  | functor hpc hc => exact hgoto _
  | functorsEnd hpc hc => exact hgoto _
  | @put c fs i hpc =>
    obtain ⟨ha, hpc'⟩ := hgoto (.arm c fs i)
    exact ⟨ha.trans (Apart.put _ (hconn hpc List.mem_cons_self)), (pc_put _ l' c).trans hpc'⟩
  | @arm c fs i hpc =>
    exact (Apart.enableRead s (hconn hpc List.mem_cons_self)).then_goto (s.pc_enableRead l' c) hl _
  | dropNil hpc => exact hgoto _
  | @drop c fs hpc =>
    obtain ⟨ha, hpc'⟩ := hgoto (.drop fs)
    exact ⟨ha.trans (Apart.release _ c l'), hpc'⟩

/-- **An event is nothing to the other loops.** -/
theorem Moves.apart {e : ServerEvent} (h : s.Moves e s') (hp : Placed s) (hl : e.loop ≠ l') :
    Apart s s' l' ∧ (s'.loops l').pc = (s.loops l').pc := by
  cases h with
  | @deliver l fd mask active r hpc hr =>
    obtain ⟨i, hi, -, -, hd, -⟩ := EpollSet.deliver_eq_some hr
    have hhome : s.Home l r.2 := hd ▸ hp.home l _ (.interest hi)
    have ha : Apart s ((s.setInterest l r.1).setRevents r.2 mask) l' := by
      refine (Apart.setInterest s r.1 hl).trans (Apart.setRevents _ mask ?_ hl)
      cases hr2 : r.2 with
      | acceptor =>
        rw [hr2] at hhome
        exact hhome
      | conn c =>
        rw [hr2] at hhome
        exact hhome
    refine ha.then_goto ?_ hl _
    rw [loops_setRevents, pc_setInterest]
  | read n hpc => exact (Apart.refl s l').then_goto rfl hl _
  | accept hpc hr => exact (Apart.accepted s _ l').then_goto rfl hl _
  | flags hpc hfd => exact (Apart.refl s l').then_goto rfl hl _
  | noFlags hpc => exact (Apart.refl s l').then_goto rfl hl _
  | advance h => exact h.apart hp hl

end TCPServer
