import Shoot.TCPServer

/-!
# What the server's threads can do

The step function of `Shoot.TCPServer` follows the source statement by
statement. Here its branches become the constructors of an inductive
relation, each with what was tested on the way, so that an invariant is
proved by one case per transition and never unfolds the step function.

A transition is a composition of few operations: a thread goes on (`goto`), a
reference is copied or destroyed, a connection is put or unlinked, a channel
is changed. What each of them leaves alone is stated once, for all the
invariants.
-/

namespace TCPServer

/-- **What a statement of a loop's thread can do.** -/
inductive Advances (s : TCPServer) (l : LoopId) : TCPServer → Prop where
  | poll {active} (hpc : (s.loops l).pc = .poll active) : Advances s l (s.goto l (.next active))
  | nextNil (hpc : (s.loops l).pc = .next []) : Advances s l (s.goto l .swap)
  | next {p active} (hpc : (s.loops l).pc = .next (p :: active)) :
      Advances s l (s.goto l (.handle ⟨p, .hup, active⟩))
  | handleRet {d} (hpc : (s.loops l).pc = .handle d) (hd : d.stage = .ret) :
      Advances s l (s.goto l (.next d.active))
  | handle {d} (hpc : (s.loops l).pc = .handle d) (hd : d.stage ≠ .ret) :
      Advances s l (s.goto l (s.handle d))
  | readRearm {c d} (hpc : (s.loops l).pc = .read c .rearm d) :
      Advances s l ((s.enableRead c).goto l (.handle d))
  | readClose {c d} (hpc : (s.loops l).pc = .read c .close d) :
      Advances s l ((s.handleClose c).goto l (.read c .destroy d))
  | readDestroy {c d} (hpc : (s.loops l).pc = .read c .destroy d) :
      Advances s l ((s.destroyConn c).goto l (.read c .erase d))
  | unlink {c c' d} (hpc : (s.loops l).pc = .read c .erase d) (he : s.entry c = some c') :
      Advances s l ((s.unlink c).goto l (.read c' .release d))
  | unlinkNone {c d} (hpc : (s.loops l).pc = .read c .erase d) (he : s.entry c = none) :
      Advances s l (s.goto l (.handle d))
  | readRelease {c d} (hpc : (s.loops l).pc = .read c .release d) :
      Advances s l ((s.goto l (.handle d)).release c)
  | nextLoop {fd k d} (hpc : (s.loops l).pc = .accept (.nextLoop fd) k d) :
      Advances s l (s.getNextLoop.1.goto l (.accept (.limit fd s.getNextLoop.2) k d))
  | limitClose {fd l' k d} (hpc : (s.loops l).pc = .accept (.limit fd l') k d)
      (hfd : maxFds ≤ fd) :
      Advances s l ((s.close fd).goto l (.accept (.nonBlocking fd l') (k.act .close) d))
  | limit {fd l' k d} (hpc : (s.loops l).pc = .accept (.limit fd l') k d) (hfd : ¬ maxFds ≤ fd) :
      Advances s l (s.goto l (.accept (.nonBlocking fd l') k d))
  | construct {fd l' k d} (hpc : (s.loops l).pc = .accept (.construct fd l') k d) :
      Advances s l ((s.construct fd l').goto l
        (.accept (.runInLoop s.fresh) (k.act (.construct s.fresh)) d))
  | runHere {c k d} (hpc : (s.loops l).pc = .accept (.runInLoop c) k d)
      (hl : (s.heap c).loop = l) :
      Advances s l ((s.retain c).goto l (.accept (.put c) (k.act (.register c l)) d))
  | runThere {c l' k d} (hpc : (s.loops l).pc = .accept (.runInLoop c) k d)
      (hl' : (s.heap c).loop = l') (hl : l' ≠ l) :
      Advances s l (((s.retain c).goto l
        (.accept (.dropLocal c) (k.act (.register c l')) d)).queueNewEvent l' c)
  | acceptPut {c k d} (hpc : (s.loops l).pc = .accept (.put c) k d) :
      Advances s l ((s.goto l (.accept (.arm c) k d)).put c)
  | acceptArm {c k d} (hpc : (s.loops l).pc = .accept (.arm c) k d) :
      Advances s l ((s.enableRead c).goto l (.accept (.dropCallback c) k d))
  | dropCallback {c k d} (hpc : (s.loops l).pc = .accept (.dropCallback c) k d) :
      Advances s l ((s.goto l (.accept (.dropLocal c) k d)).release c)
  | dropLocal {c k d} (hpc : (s.loops l).pc = .accept (.dropLocal c) k d) :
      Advances s l ((s.goto l (.accept .rearm k d)).release c)
  | rearm {k d} (hpc : (s.loops l).pc = .accept .rearm k d) :
      Advances s l (s.rearmAcceptor.goto l (.accept .ret k d))
  | acceptRet {k d} (hpc : (s.loops l).pc = .accept .ret k d) :
      Advances s l (s.goto l (.handle d))
  | swap (hpc : (s.loops l).pc = .swap) :
      Advances s l ((s.takePending l).goto l (.functors (s.loops l).pending 0))
  | functor {fs i c} (hpc : (s.loops l).pc = .functors fs i) (hc : fs[i]? = some c) :
      Advances s l (s.goto l (.put c fs i))
  | functorsEnd {fs i} (hpc : (s.loops l).pc = .functors fs i) (hc : fs[i]? = none) :
      Advances s l (s.goto l (.drop fs))
  | put {c fs i} (hpc : (s.loops l).pc = .put c fs i) :
      Advances s l ((s.goto l (.arm c fs i)).put c)
  | arm {c fs i} (hpc : (s.loops l).pc = .arm c fs i) :
      Advances s l ((s.enableRead c).goto l (.functors fs (i + 1)))
  | dropNil (hpc : (s.loops l).pc = .drop []) : Advances s l (s.goto l (.poll []))
  | drop {c fs} (hpc : (s.loops l).pc = .drop (c :: fs)) :
      Advances s l ((s.goto l (.drop fs)).release c)

/-- **What an event can do**, one constructor per transition. -/
inductive Moves (s : TCPServer) : ServerEvent → TCPServer → Prop where
  | deliver {l fd mask active} {r : EpollSet ChannelPtr × ChannelPtr}
      (hpc : (s.loops l).pc = .poll active)
      (hr : (s.loops l).epoll.interest.deliver fd mask = some r) :
      Moves s (.deliver l fd mask)
        (((s.setInterest l r.1).setRevents r.2 mask).goto l (.poll (active ++ [r.2])))
  | read {l c d} (n : ℤ) (hpc : (s.loops l).pc = .read c .read d) :
      Moves s (.read l n) (s.goto l (.read c (afterRead n) d))
  | accept {l k d r} (hpc : (s.loops l).pc = .accept .accept k d) (hr : r ∉ s.openFds) :
      Moves s (.accept l r)
        ((s.accepted r).goto l (.accept (afterAccept r) ⟨r, none, []⟩ d))
  | flags {l fd l' k d} (hpc : (s.loops l).pc = .accept (.nonBlocking fd l') k d)
      (hfd : fd ∈ s.openFds) :
      Moves s (.flags l true)
        (s.goto l (.accept (.construct fd l') ({ k with flags := some true }.act .use) d))
  | noFlags {l fd l' k d} (hpc : (s.loops l).pc = .accept (.nonBlocking fd l') k d) :
      Moves s (.flags l false)
        (s.goto l (.accept .ret ({ k with flags := some false }.act .use) d))
  | advance {l s'} (h : s.Advances l s') : Moves s (.step l) s'

variable {s s' : TCPServer} {l : LoopId}

theorem Advances.of_handleRead {c : ConnId} {pos : ReadPc} {d : Dispatch}
    (hpc : (s.loops l).pc = .read c pos d) (h : s.handleRead l c d pos = some s') :
    s.Advances l s' := by
  unfold handleRead at h
  cases pos with
  | read => cases h
  | rearm => cases h; exact .readRearm hpc
  | close => cases h; exact .readClose hpc
  | destroy => cases h; exact .readDestroy hpc
  | erase =>
    dsimp only at h
    split at h <;> cases h
    · exact .unlink hpc ‹_›
    · exact .unlinkNone hpc ‹_›
  | release => cases h; exact .readRelease hpc

theorem Advances.of_handleNewConn {pos : AcceptPc} {k : AcceptCall} {d : Dispatch}
    (hpc : (s.loops l).pc = .accept pos k d) (h : s.handleNewConn l k d pos = some s') :
    s.Advances l s' := by
  unfold handleNewConn at h
  cases pos with
  | accept => cases h
  | nextLoop fd => cases h; exact .nextLoop hpc
  | limit fd l' =>
    dsimp only at h
    split at h <;> cases h
    · exact .limitClose hpc ‹_›
    · exact .limit hpc ‹_›
  | nonBlocking fd l' => cases h
  | construct fd l' => cases h; exact .construct hpc
  | runInLoop c =>
    dsimp only at h
    split at h <;> cases h
    · rename_i hl
      rw [hl]
      exact .runHere hpc hl
    · exact .runThere hpc rfl ‹_›
  | put c => cases h; exact .acceptPut hpc
  | arm c => cases h; exact .acceptArm hpc
  | dropCallback c => cases h; exact .dropCallback hpc
  | dropLocal c => cases h; exact .dropLocal hpc
  | rearm => cases h; exact .rearm hpc
  | ret => cases h; exact .acceptRet hpc

theorem Advances.of_advance (h : s.advance l = some s') : s.Advances l s' := by
  unfold advance at h
  split at h
  case h_1 hpc => cases h; exact .poll hpc
  case h_2 hpc => cases h; exact .nextNil hpc
  case h_3 hpc => cases h; exact .next hpc
  case h_4 hpc =>
    split at h <;> cases h
    · exact .handleRet hpc ‹_›
    · exact .handle hpc ‹_›
  case h_5 hpc => exact .of_handleRead hpc h
  case h_6 hpc => exact .of_handleNewConn hpc h
  case h_7 hpc => cases h; exact .swap hpc
  case h_8 hpc =>
    split at h <;> cases h
    · exact .functor hpc ‹_›
    · exact .functorsEnd hpc ‹_›
  case h_9 hpc => cases h; exact .put hpc
  case h_10 hpc => cases h; exact .arm hpc
  case h_11 hpc => cases h; exact .dropNil hpc
  case h_12 hpc => cases h; exact .drop hpc

/-- **A step is one of the transitions.** -/
theorem Moves.of_step {e : ServerEvent} (h : s.step e = some s') : s.Moves e s' := by
  unfold step at h
  cases e with
  | deliver l fd mask =>
    dsimp only at h
    split at h
    · obtain ⟨r, hr, h⟩ := Option.map_eq_some_iff.mp h
      cases h
      exact .deliver ‹_› hr
    · cases h
  | read l n =>
    dsimp only at h
    split at h <;> cases h
    exact .read n ‹_›
  | accept l r =>
    dsimp only at h
    split at h
    · obtain ⟨hr, h⟩ := Option.ite_none_left_eq_some.mp h
      cases h
      exact .accept ‹_› hr
    · cases h
  | flags l ok =>
    dsimp only at h
    split at h
    · cases ok with
      | true =>
        obtain ⟨hfd, h⟩ := Option.ite_none_right_eq_some.mp h
        cases h
        exact .flags ‹_› hfd
      | false =>
        cases h
        exact .noFlags ‹_›
    · cases h
  | step l => exact .advance (.of_advance h)

/-! ## What the operations leave alone -/

section Frame

variable (s : TCPServer) (l l' : LoopId) (c : ConnId)

/-- A change of a loop that leaves its thread where it is. -/
theorem pc_update {L : ServerLoop} (h : L.pc = (s.loops l).pc) :
    (Function.update s.loops l L l').pc = (s.loops l').pc :=
  (Function.forall_update_iff s.loops fun l' L' => L'.pc = (s.loops l').pc).mpr
    ⟨h, fun _ _ => rfl⟩ l'

/-- A change of a connection that leaves its loop. -/
theorem loop_update {x : TCPConnection} (h : x.loop = (s.heap c).loop) (c' : ConnId) :
    (Function.update s.heap c x c').loop = (s.heap c').loop :=
  (Function.forall_update_iff s.heap fun c' y => y.loop = (s.heap c').loop).mpr
    ⟨h, fun _ _ => rfl⟩ c'

/-- One that leaves its descriptor. -/
theorem fd_update {x : TCPConnection} (h : x.fd = (s.heap c).fd) (c' : ConnId) :
    (Function.update s.heap c x c').fd = (s.heap c').fd :=
  (Function.forall_update_iff s.heap fun c' y => y.fd = (s.heap c').fd).mpr
    ⟨h, fun _ _ => rfl⟩ c'

/-- One that leaves its channel. -/
theorem channel_update {x : TCPConnection} (h : x.channel = (s.heap c).channel) (c' : ConnId) :
    (Function.update s.heap c x c').channel = (s.heap c').channel :=
  (Function.forall_update_iff s.heap fun c' y => y.channel = (s.heap c').channel).mpr
    ⟨h, fun _ _ => rfl⟩ c'

@[simp] theorem loop_retain (c' : ConnId) : ((s.retain c).heap c').loop = (s.heap c').loop :=
  s.loop_update c (by rfl) c'

@[simp] theorem fd_retain (c' : ConnId) : ((s.retain c).heap c').fd = (s.heap c').fd :=
  s.fd_update c (by rfl) c'

@[simp] theorem loop_release (c' : ConnId) : ((s.release c).heap c').loop = (s.heap c').loop :=
  s.loop_update c (by rfl) c'

@[simp] theorem fd_release (c' : ConnId) : ((s.release c).heap c').fd = (s.heap c').fd :=
  s.fd_update c (by rfl) c'

@[simp] theorem pc_goto (pc : ServerPc) : ((s.goto l pc).loops l).pc = pc := by
  show (Function.update s.loops l _ l).pc = pc
  rw [Function.update_self]

/-- The other threads stay where they are. -/
theorem loops_goto_of_ne (pc : ServerPc) {l l' : LoopId} (h : l' ≠ l) :
    (s.goto l pc).loops l' = s.loops l' :=
  Function.update_of_ne h _ _

@[simp] theorem pc_connChannel (f) : ((s.connChannel c f).loops l).pc = (s.loops l).pc :=
  s.pc_update _ l rfl

@[simp] theorem pc_enableRead : ((s.enableRead c).loops l).pc = (s.loops l).pc :=
  s.pc_connChannel l c _

@[simp] theorem pc_handleClose : ((s.handleClose c).loops l).pc = (s.loops l).pc :=
  pc_connChannel _ l c _

@[simp] theorem pc_destroyConn : ((s.destroyConn c).loops l).pc = (s.loops l).pc := by
  unfold destroyConn
  rw [pc_connChannel]
  split
  · exact s.pc_handleClose l c
  · rfl

@[simp] theorem pc_rearmAcceptor : (s.rearmAcceptor.loops l).pc = (s.loops l).pc :=
  s.pc_update _ l rfl

@[simp] theorem pc_put : ((s.put c).loops l).pc = (s.loops l).pc := by
  unfold put
  dsimp only
  split
  · rfl
  · exact s.pc_update _ l rfl

@[simp] theorem pc_unlink : ((s.unlink c).loops l).pc = (s.loops l).pc :=
  s.pc_update _ l rfl

@[simp] theorem pc_release : ((s.release c).loops l).pc = (s.loops l).pc := rfl

@[simp] theorem pc_queueNewEvent : ((s.queueNewEvent l' c).loops l).pc = (s.loops l).pc :=
  s.pc_update _ l rfl

@[simp] theorem pc_takePending : ((s.takePending l').loops l).pc = (s.loops l).pc :=
  s.pc_update _ l rfl

@[simp] theorem pc_setInterest (K) : ((s.setInterest l' K).loops l).pc = (s.loops l).pc :=
  s.pc_update _ l rfl

@[simp] theorem loops_setRevents (p mask) : (s.setRevents p mask).loops = s.loops := by
  cases p <;> rfl

@[simp] theorem loops_getNextLoop : s.getNextLoop.1.loops = s.loops := by
  unfold getNextLoop
  split <;> rfl

end Frame

end TCPServer
