import Shoot.TCPServerSteps

/-!
# Everything in its loop

A connection belongs to one loop, whose thread alone touches its channel and
its entry. Nothing in the source checks this; it holds because the addresses
of connections only travel along a few paths. Whatever a loop can reach – the
channels its `Epoll` would report, those in `active_vector` or being handled,
the functions waiting or running, the entries of `connections_` – is a
connection of that loop, or on the base loop the acceptor (`Placed.home`).

The parts of a connection that its constructor sets for good are stated here
too, since the same argument carries them: nobody changes `loop_`, `fd_` or
the callbacks.
-/

/-! ## What a loop reaches -/

/-- The connection that `new_event` puts or enables, called in place. -/
def AcceptPc.here : AcceptPc → List ChannelPtr
  | .put c | .arm c => [.conn c]
  | _ => []

/-- The channels and connections a thread has at hand. -/
def ServerPc.pointers : ServerPc → List ChannelPtr
  | .poll active | .next active => active
  | .handle d => d.channel :: d.active
  | .read c _ d => .conn c :: d.channel :: d.active
  | .accept pos _ d => pos.here ++ .acceptor :: d.channel :: d.active
  | .swap => []
  | .functors fs _ | .drop fs => fs.map .conn
  | .put c fs _ | .arm c fs _ => .conn c :: fs.map .conn

/-- The connection `handle_new_conn` works on. -/
def AcceptPc.locals : AcceptPc → List ConnId
  | .runInLoop c | .put c | .arm c | .dropCallback c | .dropLocal c => [c]
  | _ => []

/-- The connection the acceptor works on, where the thread is in it. -/
def ServerPc.locals : ServerPc → List ConnId
  | .accept pos _ _ => pos.locals
  | _ => []

/-- **What a loop reaches.** -/
inductive ServerLoop.Points (L : ServerLoop) : ChannelPtr → Prop where
  | pc {p} (h : p ∈ L.pc.pointers) : Points L p
  | pending {c} (h : c ∈ L.pending) : Points L (.conn c)
  | connections {fd c} (h : L.connections fd = some c) : Points L (.conn c)
  | interest {fd i} (h : L.epoll.interest fd = some i) : Points L i.data

/-- What the constructor of a connection sets for good. -/
structure TCPConnection.Formed (c : ConnId) (x : TCPConnection) : Prop where
  fd : x.channel.fd = x.fd
  read : x.channel.readHandler = some (.handleRead c)
  error : x.channel.errorHandler = some (.handleErr c)
  write : x.channel.writeHandler = none
  close : x.channel.closeHandler = none

namespace TCPServer

/-- A channel that the loop `l` may reach. -/
def Home (s : TCPServer) (l : LoopId) : ChannelPtr → Prop
  | .acceptor => l = 0
  | .conn c => c < s.fresh ∧ (s.heap c).loop = l

/-- **Everything is in its loop**, and made as its constructor made it. -/
structure Placed (s : TCPServer) : Prop where
  /-- What a loop reaches belongs to it. -/
  home : ∀ l p, (s.loops l).Points p → s.Home l p
  /-- The acceptor works on a connection that was constructed. -/
  locals : ∀ l, ∀ c ∈ (s.loops l).pc.locals, c < s.fresh
  /-- A connection is entered under its descriptor. -/
  entries : ∀ l fd c, (s.loops l).connections fd = some c → (s.heap c).fd = fd
  /-- The connections keep what they were constructed with. -/
  formed : ∀ c < s.fresh, (s.heap c).Formed c
  /-- So does the accept channel. -/
  acceptor : s.acceptChannel.fd = s.listenFd
    ∧ s.acceptChannel.readHandler = some .handleNewConn
    ∧ s.acceptChannel.errorHandler = none ∧ s.acceptChannel.writeHandler = none
    ∧ s.acceptChannel.closeHandler = none

namespace Placed

variable {s s' : TCPServer} {l : LoopId} {c : ConnId}

/-- A connection on the stack of a loop's thread belongs to the loop. -/
theorem conn (h : Placed s) (hc : .conn c ∈ (s.loops l).pc.pointers) :
    c < s.fresh ∧ (s.heap c).loop = l :=
  h.home l _ (.pc hc)

/-- In particular one that the thread works on where it stands. -/
theorem conn_at (h : Placed s) {pc : ServerPc} (hpc : (s.loops l).pc = pc)
    (hc : .conn c ∈ pc.pointers) : c < s.fresh ∧ (s.heap c).loop = l :=
  h.conn (hpc ▸ hc)

/-- Only the thread of the base loop is ever in `handle_new_conn`. -/
theorem accept_loop (h : Placed s) {pos : AcceptPc} {k : AcceptCall} {d : Dispatch}
    (hpc : (s.loops l).pc = .accept pos k d) : l = 0 :=
  h.home l .acceptor (.pc (by rw [hpc]; exact List.mem_append_right _ List.mem_cons_self))

/-- The invariant after a change of one loop. -/
theorem setLoop (h : Placed s) {L : ServerLoop} (hp : ∀ p, L.Points p → s.Home l p)
    (hloc : ∀ c ∈ L.pc.locals, c < s.fresh)
    (hent : ∀ fd c, L.connections fd = some c → (s.heap c).fd = fd) :
    Placed { s with loops := Function.update s.loops l L } where
  home := (Function.forall_update_iff s.loops fun l' L' => ∀ p, L'.Points p → s.Home l' p).mpr
    ⟨hp, fun l' _ => h.home l'⟩
  locals := (Function.forall_update_iff s.loops fun _ L' => ∀ c ∈ L'.pc.locals, c < s.fresh).mpr
    ⟨hloc, fun l' _ => h.locals l'⟩
  entries := (Function.forall_update_iff s.loops fun _ L' =>
    ∀ fd c, L'.connections fd = some c → (s.heap c).fd = fd).mpr ⟨hent, fun l' _ => h.entries l'⟩
  formed := h.formed
  acceptor := h.acceptor

/-- The invariant after a change of one connection that keeps what its
constructor set. -/
theorem setConn (h : Placed s) {x : TCPConnection} {o : Finset Fd}
    (hl : x.loop = (s.heap c).loop) (hfd : x.fd = (s.heap c).fd)
    (hx : (s.heap c).Formed c → x.Formed c) :
    Placed { s with heap := Function.update s.heap c x, openFds := o } := by
  refine ⟨fun l p hp => ?_, h.locals, fun l fd c' hc' => ?_, fun c' hc' => ?_, h.acceptor⟩
  · have hh := h.home l p hp
    cases p with
    | acceptor => exact hh
    | conn c' => exact ⟨hh.1, (s.loop_update c hl c').trans hh.2⟩
  · exact (s.fd_update c hfd c').trans (h.entries l fd c' hc')
  · by_cases he : c' = c
    · subst he
      show (Function.update s.heap c' x c').Formed c'
      rw [Function.update_self]
      exact hx (h.formed c' hc')
    · show (Function.update s.heap c x c').Formed c'
      rw [Function.update_of_ne he]
      exact h.formed c' hc'

/-- A thread goes on, with nothing at hand that is not the loop's. -/
theorem goto (h : Placed s) {pc : ServerPc} (hp : ∀ p ∈ pc.pointers, s.Home l p)
    (hloc : ∀ c ∈ pc.locals, c < s.fresh) : Placed (s.goto l pc) := by
  refine h.setLoop (fun p hL => ?_) hloc (h.entries l)
  cases hL with
  | pc h' => exact hp p h'
  | pending h' => exact h.home l _ (.pending h')
  | connections h' => exact h.home l _ (.connections h')
  | interest h' => exact h.home l _ (.interest h')

/-- A thread goes on with what it had at hand. -/
theorem goto_of_subset (h : Placed s) {pc : ServerPc}
    (hp : pc.pointers ⊆ (s.loops l).pc.pointers) (hloc : pc.locals ⊆ (s.loops l).pc.locals) :
    Placed (s.goto l pc) :=
  h.goto (fun p hm => h.home l p (.pc (hp hm))) fun c hc => h.locals l c (hloc hc)

/-- The open descriptors do not matter, nor does the next loop. -/
theorem of_openFds (h : Placed s) (o : Finset Fd) (n : ℕ) :
    Placed { s with openFds := o, next := n } :=
  ⟨h.home, h.locals, h.entries, h.formed, h.acceptor⟩

theorem getNextLoop (h : Placed s) : Placed s.getNextLoop.1 := by
  unfold TCPServer.getNextLoop
  split
  · exact h
  · exact h.of_openFds s.openFds _

theorem retain (h : Placed s) (c : ConnId) : Placed (s.retain c) :=
  h.setConn rfl rfl fun hf => ⟨hf.fd, hf.read, hf.error, hf.write, hf.close⟩

theorem release (h : Placed s) (c : ConnId) : Placed (s.release c) :=
  h.setConn rfl rfl fun hf => ⟨hf.fd, hf.read, hf.error, hf.write, hf.close⟩

theorem setRevents (h : Placed s) (p : ChannelPtr) (mask : EventMask) :
    Placed (s.setRevents p mask) := by
  cases p with
  | acceptor => exact ⟨h.home, h.locals, h.entries, h.formed, h.acceptor⟩
  | conn c => exact h.setConn rfl rfl fun hf => ⟨hf.fd, hf.read, hf.error, hf.write, hf.close⟩

/-- The invariant after a change of one `Epoll` that registers nothing but channels the
loop may reach. -/
theorem setEpoll (h : Placed s) {E : Epoll ChannelPtr}
    (hE : ∀ fd i, E.interest fd = some i → s.Home l i.data) :
    Placed { s with loops := Function.update s.loops l { s.loops l with epoll := E } } := by
  refine h.setLoop (fun p hL => ?_) (h.locals l) (h.entries l)
  cases hL with
  | pc h' => exact h.home l _ (.pc h')
  | pending h' => exact h.home l _ (.pending h')
  | connections h' => exact h.home l _ (.connections h')
  | interest h' => exact hE _ _ h'

/-- A change of the interest list that registers nothing new. -/
theorem setInterest (h : Placed s) {K : EpollSet ChannelPtr}
    (hK : ∀ fd i, K fd = some i → (s.loops l).Points i.data) : Placed (s.setInterest l K) :=
  h.setEpoll fun fd i hi => h.home l _ (hK fd i hi)

theorem connChannel (h : Placed s) (hc : c < s.fresh)
    {f : Epoll ChannelPtr → ChannelPtr → Channel Handler → Epoll ChannelPtr × Channel Handler}
    (hf : Channel.Operation f) : Placed (s.connChannel c f) := by
  have hloop : Placed { s with
      loops := Function.update s.loops (s.heap c).loop { s.loops (s.heap c).loop with
        epoll := (f (s.loops (s.heap c).loop).epoll (.conn c) (s.heap c).channel).1 } } := by
    refine h.setEpoll fun fd i hi => ?_
    rcases hf.data hi with hd | hd
    · rw [hd]
      exact ⟨hc, rfl⟩
    · exact h.home _ _ (.interest hd)
  have hk := hf.keeps (s.loops (s.heap c).loop).epoll (.conn c) (s.heap c).channel
  refine hloop.setConn rfl rfl fun hx => ?_
  show TCPConnection.Formed c { s.heap c with channel := _ }
  rw [hk]
  exact ⟨hx.fd, hx.read, hx.error, hx.write, hx.close⟩

theorem enableRead (h : Placed s) (hc : c < s.fresh) : Placed (s.enableRead c) :=
  h.connChannel hc (Channel.operation_update (· ||| Channel.readEvent))

theorem handleClose (h : Placed s) (hc : c < s.fresh) : Placed (s.handleClose c) := by
  have hconn : Placed { s with
      heap := Function.update s.heap c { s.heap c with connectionState := .disconnected } } :=
    h.setConn rfl rfl fun hf => ⟨hf.fd, hf.read, hf.error, hf.write, hf.close⟩
  exact hconn.connChannel hc (Channel.operation_update fun _ => Channel.noneEvent)

theorem destroyConn (h : Placed s) (hc : c < s.fresh) : Placed (s.destroyConn c) := by
  unfold TCPServer.destroyConn
  split
  · exact (h.handleClose hc).connChannel hc Channel.operation_remove
  · exact h.connChannel hc Channel.operation_remove

theorem rearmAcceptor (h : Placed s) : Placed s.rearmAcceptor := by
  have hloop : Placed { s with
      loops := Function.update s.loops 0 { s.loops 0 with
        epoll := (s.acceptChannel.enableRead (s.loops 0).epoll .acceptor).1 } } := by
    refine h.setEpoll fun fd i hi => ?_
    rcases (Channel.operation_update (· ||| Channel.readEvent)).data hi with hd | hd
    · rw [hd]
      exact rfl
    · exact h.home _ _ (.interest hd)
  refine ⟨hloop.home, hloop.locals, hloop.entries, hloop.formed, ?_⟩
  show (Channel.enableRead _ _ _).2.fd = _ ∧ (Channel.enableRead _ _ _).2.readHandler = _
    ∧ (Channel.enableRead _ _ _).2.errorHandler = _ ∧ (Channel.enableRead _ _ _).2.writeHandler = _
    ∧ (Channel.enableRead _ _ _).2.closeHandler = _
  rw [Channel.enableRead_snd]
  exact h.acceptor

/-- An entry is made for a connection on its own loop, under its descriptor. -/
theorem put (h : Placed s) (hc : c < s.fresh) : Placed (s.put c) := by
  unfold TCPServer.put
  dsimp only
  split
  · exact h
  refine (h.retain c).setLoop (fun p hL => ?_) (h.locals _) (fun fd c' hc' => ?_)
  · cases hL with
    | pc h' => exact (h.retain c).home _ _ (.pc h')
    | pending h' => exact (h.retain c).home _ _ (.pending h')
    | @connections fd c' h' =>
      by_cases hfd : fd = (s.heap c).channel.fd
      · dsimp only at h'
        rw [hfd, Function.update_self, Option.some.injEq] at h'
        subst h'
        exact ⟨hc, s.loop_retain c c⟩
      · dsimp only at h'
        rw [Function.update_of_ne hfd] at h'
        exact (h.retain c).home _ _ (.connections h')
    | interest h' => exact (h.retain c).home _ _ (.interest h')
  · by_cases hfd : fd = (s.heap c).channel.fd
    · dsimp only at hc'
      rw [hfd, Function.update_self, Option.some.injEq] at hc'
      subst hc'
      rw [hfd]
      exact (s.fd_retain c c).trans (h.formed c hc).fd.symm
    · dsimp only at hc'
      rw [Function.update_of_ne hfd] at hc'
      exact (h.retain c).entries _ fd c' hc'

theorem unlink (h : Placed s) (c : ConnId) : Placed (s.unlink c) := by
  have hsub : ∀ {fd c'}, Function.update (s.loops (s.heap c).loop).connections (s.heap c).fd none fd
      = some c' → (s.loops (s.heap c).loop).connections fd = some c' := by
    intro fd c' h'
    by_cases hfd : fd = (s.heap c).fd
    · rw [hfd, Function.update_self] at h'
      cases h'
    · rwa [Function.update_of_ne hfd] at h'
  refine h.setLoop (fun p hL => ?_) (h.locals _) fun fd c' hc' => h.entries _ fd c' (hsub hc')
  cases hL with
  | pc h' => exact h.home _ _ (.pc h')
  | pending h' => exact h.home _ _ (.pending h')
  | connections h' => exact h.home _ _ (.connections (hsub h'))
  | interest h' => exact h.home _ _ (.interest h')

/-- A function is queued for a connection of the loop. -/
theorem queueNewEvent (h : Placed s) (hc : c < s.fresh) (hl : (s.heap c).loop = l) :
    Placed (s.queueNewEvent l c) := by
  refine h.setLoop (fun p hL => ?_) (h.locals _) (h.entries _)
  cases hL with
  | pc h' => exact h.home _ _ (.pc h')
  | @pending c' h' =>
    rcases List.mem_append.mp h' with h' | h'
    · exact h.home _ _ (.pending h')
    · rw [List.mem_singleton.mp h']
      exact ⟨hc, hl⟩
  | connections h' => exact h.home _ _ (.connections h')
  | interest h' => exact h.home _ _ (.interest h')

theorem takePending (h : Placed s) (l : LoopId) : Placed (s.takePending l) := by
  refine h.setLoop (fun p hL => ?_) (h.locals _) (h.entries _)
  cases hL with
  | pc h' => exact h.home _ _ (.pc h')
  | pending h' => cases h'
  | connections h' => exact h.home _ _ (.connections h')
  | interest h' => exact h.home _ _ (.interest h')

/-- A connection is constructed at a fresh address. -/
theorem construct (h : Placed s) (fd : Fd) (l' : LoopId) : Placed (s.construct fd l') where
  home l p hp := by
    have hh := h.home l p hp
    cases p with
    | acceptor => exact hh
    | conn c =>
      refine ⟨Nat.lt_succ_of_lt hh.1, ?_⟩
      show (Function.update s.heap s.fresh _ c).loop = l
      rw [Function.update_of_ne hh.1.ne]
      exact hh.2
  locals l c hc := Nat.lt_succ_of_lt (h.locals l c hc)
  entries l fd' c hc := by
    have hlt : c < s.fresh := (h.home l _ (.connections hc)).1
    show (Function.update s.heap s.fresh _ c).fd = fd'
    rw [Function.update_of_ne hlt.ne]
    exact h.entries l fd' c hc
  formed c hc := by
    show (Function.update s.heap s.fresh _ c).Formed c
    rcases Nat.lt_succ_iff_lt_or_eq.mp hc with hc | hc
    · rw [Function.update_of_ne hc.ne]
      exact h.formed c hc
    · rw [hc, Function.update_self]
      exact ⟨rfl, rfl, rfl, rfl, rfl⟩
  acceptor := h.acceptor

end Placed

/-! ## The tests of `handle_events` -/

/-- **Where a test leads**, on the channel of a connection or the acceptor. -/
inductive Tested (s : TCPServer) (d : Dispatch) : ServerPc → Prop where
  | hangUp (hs : d.stage = .hup)
      (hm : (s.channel d.channel).revent.has epollHup = true
        ∧ (s.channel d.channel).revent.has epollIn = false) :
      Tested s d (.handle { d with stage := .ret })
  | err (hs : d.stage = .hup) : Tested s d (.handle { d with stage := .err })
  | read (hs : d.stage = .err) : Tested s d (.handle { d with stage := .read })
  | noRead (hs : d.stage = .read)
      (hin : (s.channel d.channel).revent.has epollIn = false) :
      Tested s d (.handle { d with stage := .write })
  | readConn {c} (hs : d.stage = .read) (hd : d.channel = .conn c)
      (hin : (s.channel d.channel).revent.has epollIn = true) :
      Tested s d (.read c .read { d with stage := .write })
  | readAcceptor (hs : d.stage = .read) (hd : d.channel = .acceptor)
      (hin : (s.channel d.channel).revent.has epollIn = true) :
      Tested s d (.accept .accept ⟨0, none, []⟩ { d with stage := .write })
  | ret (hs : d.stage = .write) : Tested s d (.handle { d with stage := .ret })

section Handle

variable {s : TCPServer} {d : Dispatch} {c : ConnId}

/-- The test for a hang-up, on any channel without a close callback: it ends
the call, or lets it go on. -/
theorem handle_hup (hs : d.stage = .hup) (hc : (s.channel d.channel).closeHandler = none) :
    s.handle d = .handle { d with stage :=
      if (s.channel d.channel).revent.has epollHup ∧ ¬ (s.channel d.channel).revent.has epollIn
      then .ret else .err } := by
  unfold handle Channel.handleEvents
  rw [hs, hc]
  dsimp only
  by_cases hm : (s.channel d.channel).revent.has epollHup
      ∧ ¬ (s.channel d.channel).revent.has epollIn
  · rw [if_pos hm, if_pos hm]
  · rw [if_neg hm, if_neg hm]

/-- The test for an error calls nothing that is modelled. -/
theorem handle_err (hs : d.stage = .err)
    (hc : (s.channel d.channel).errorHandler = none
      ∨ ∃ c, (s.channel d.channel).errorHandler = some (.handleErr c)) :
    s.handle d = .handle { d with stage := .read } := by
  unfold handle Channel.handleEvents
  rw [hs]
  dsimp only
  rcases hc with hc | ⟨c, hc⟩
  · rw [hc, ite_self]
  · rw [hc]
    cases (s.channel d.channel).revent.has epollErr <;> rfl

/-- The test for input on a channel without it. -/
theorem handle_read_of_not (hs : d.stage = .read)
    (hin : (s.channel d.channel).revent.has epollIn = false) :
    s.handle d = .handle { d with stage := .write } := by
  unfold handle Channel.handleEvents
  rw [hs]
  dsimp only
  rw [hin]
  rfl

/-- The test for input calls `handle_read` of the connection. -/
theorem handle_read_conn (hs : d.stage = .read)
    (hin : (s.channel d.channel).revent.has epollIn = true)
    (hc : (s.channel d.channel).readHandler = some (.handleRead c)) :
    s.handle d = .read c .read { d with stage := .write } := by
  unfold handle Channel.handleEvents
  rw [hs]
  dsimp only
  rw [hin, if_pos rfl, hc]

/-- Or `handle_new_conn` of the server. -/
theorem handle_read_acceptor (hs : d.stage = .read)
    (hin : (s.channel d.channel).revent.has epollIn = true)
    (hc : (s.channel d.channel).readHandler = some .handleNewConn) :
    s.handle d = .accept .accept ⟨0, none, []⟩ { d with stage := .write } := by
  unfold handle Channel.handleEvents
  rw [hs]
  dsimp only
  rw [hin, if_pos rfl, hc]

/-- The test for output calls nothing on a channel without a write callback. -/
theorem handle_write (hs : d.stage = .write)
    (hc : (s.channel d.channel).writeHandler = none) :
    s.handle d = .handle { d with stage := .ret } := by
  unfold handle Channel.handleEvents
  rw [hs, hc]
  dsimp only
  rw [ite_self]

/-- **A test of `handle_events` is one of these.** -/
theorem Placed.tested (h : Placed s) {l : LoopId} (hpc : (s.loops l).pc = .handle d)
    (hr : d.stage ≠ .ret) : s.Tested d (s.handle d) := by
  have hd : s.Home l d.channel := h.home l _ (.pc (by rw [hpc]; exact List.mem_cons_self))
  obtain ⟨herr, hclose, hwrite⟩ : ((s.channel d.channel).errorHandler = none
      ∨ ∃ c, (s.channel d.channel).errorHandler = some (.handleErr c))
      ∧ (s.channel d.channel).closeHandler = none
      ∧ (s.channel d.channel).writeHandler = none := by
    cases hch : d.channel with
    | acceptor =>
      obtain ⟨-, -, he, hw, hc⟩ := h.acceptor
      exact ⟨Or.inl he, hc, hw⟩
    | conn c =>
      rw [hch] at hd
      have hf := h.formed c hd.1
      exact ⟨Or.inr ⟨c, hf.error⟩, hf.close, hf.write⟩
  cases hs : d.stage with
  | hup =>
    rw [handle_hup hs hclose]
    split
    · rename_i hm
      exact .hangUp hs ⟨hm.1, Bool.not_eq_true _ ▸ hm.2⟩
    · exact .err hs
  | err => rw [handle_err hs herr]; exact .read hs
  | read =>
    cases hin : (s.channel d.channel).revent.has epollIn with
    | false => rw [handle_read_of_not hs hin]; exact .noRead hs hin
    | true =>
      cases hch : d.channel with
      | acceptor =>
        rw [handle_read_acceptor hs hin (by rw [hch]; exact h.acceptor.2.1)]
        exact .readAcceptor hs hch hin
      | conn c =>
        rw [hch] at hd
        rw [handle_read_conn hs hin (by rw [hch]; exact (h.formed c hd.1).read)]
        exact .readConn hs hch hin
  | write => rw [handle_write hs hwrite]; exact .ret hs
  | ret => exact absurd hs hr

end Handle

/-! ## Every transition -/

namespace Placed

variable {s s' : TCPServer} {l : LoopId}

/-- After an operation that moves no thread, a thread goes on with what it had
at hand. -/
theorem goto_congr (h : Placed s') {pc pc' : ServerPc} (hpc : (s'.loops l).pc = pc')
    (hp : pc.pointers ⊆ pc'.pointers) (hloc : pc.locals ⊆ pc'.locals) :
    Placed (s'.goto l pc) :=
  h.goto_of_subset (hpc ▸ hp) (hpc ▸ hloc)

/-- A test of `handle_events` puts nothing new at hand. -/
theorem handle (h : Placed s) {d : Dispatch} (hpc : (s.loops l).pc = .handle d)
    (hd : d.stage ≠ .ret) : Placed (s.goto l (s.handle d)) := by
  have ht := h.tested hpc hd
  generalize s.handle d = pc at ht ⊢
  refine h.goto (fun p hp => ?_) (fun c hc => ?_)
  · have hmem : p ∈ d.channel :: d.active := by
      cases ht with
      | readConn hs hc hin =>
        rcases List.mem_cons.mp hp with hp | hp
        · rw [hp, ← hc]
          exact List.mem_cons_self
        · exact hp
      | readAcceptor hs hc hin =>
        rcases List.mem_cons.mp hp with hp | hp
        · rw [hp, ← hc]
          exact List.mem_cons_self
        · exact hp
      | _ => exact hp
    exact h.home l p (.pc (by rw [hpc]; exact hmem))
  · cases ht <;> cases hc

/-- **Each statement of a loop's thread.** -/
theorem advances (h : Placed s) (hs : s.Advances l s') : Placed s' := by
  -- what the thread has at hand before the statement
  have hconn : ∀ {c pc}, (s.loops l).pc = pc → .conn c ∈ pc.pointers → c < s.fresh :=
    fun hpc hc => (h.conn_at hpc hc).1
  have hlocal : ∀ {c pc}, (s.loops l).pc = pc → c ∈ pc.locals → c < s.fresh :=
    fun hpc hc => h.locals l _ (hpc ▸ hc)
  cases hs with
  | poll hpc => exact h.goto_congr hpc (List.Subset.refl _) (List.Subset.refl _)
  | nextNil hpc => exact h.goto_congr hpc (List.nil_subset _) (List.nil_subset _)
  | next hpc => exact h.goto_congr hpc (List.Subset.refl _) (List.Subset.refl _)
  | handleRet hpc hd => exact h.goto_congr hpc (List.subset_cons_self _ _) (List.nil_subset _)
  | handle hpc hd => exact h.handle hpc hd
  | @readRearm c d hpc =>
    exact (h.enableRead (hconn hpc List.mem_cons_self)).goto_congr
      ((s.pc_enableRead l c).trans hpc) (List.subset_cons_self _ _) (List.nil_subset _)
  | @readClose c d hpc =>
    exact (h.handleClose (hconn hpc List.mem_cons_self)).goto_congr
      ((s.pc_handleClose l c).trans hpc) (List.Subset.refl _) (List.Subset.refl _)
  | @readDestroy c d hpc =>
    exact (h.destroyConn (hconn hpc List.mem_cons_self)).goto_congr
      ((s.pc_destroyConn l c).trans hpc) (List.Subset.refl _) (List.Subset.refl _)
  | @unlink c c' d hpc he =>
    have hc : c < s.fresh ∧ (s.heap c).loop = l := h.conn (hpc ▸ List.mem_cons_self)
    refine (h.unlink c).goto (fun p hp => ?_) fun _ hx => by cases hx
    rcases List.mem_cons.mp hp with hp | hp
    · rw [hp]
      have he' : (s.loops (s.heap c).loop).connections (s.heap c).fd = some c' := he
      rw [hc.2] at he'
      exact h.home l _ (.connections he')
    · exact h.home l p (.pc (hpc ▸ List.mem_cons_of_mem _ hp))
  | unlinkNone hpc he =>
    exact h.goto_congr hpc (List.subset_cons_self _ _) (List.nil_subset _)
  | @readRelease c d hpc =>
    exact (h.goto_congr hpc (List.subset_cons_self _ _) (List.nil_subset _)).release c
  | nextLoop hpc =>
    have hpc' := (congrArg (fun f => (f l).pc) s.loops_getNextLoop).trans hpc
    exact h.getNextLoop.goto_congr hpc' (List.Subset.refl _) (List.Subset.refl _)
  | limitClose hpc hfd =>
    exact (h.of_openFds _ s.next).goto_congr hpc (List.Subset.refl _) (List.Subset.refl _)
  | limit hpc hfd => exact h.goto_congr hpc (List.Subset.refl _) (List.Subset.refl _)
  | @construct fd l' k d hpc =>
    have hc := h.construct fd l'
    refine hc.goto (fun p hp => hc.home l p (.pc ?_)) fun c hm => ?_
    · show p ∈ (s.loops l).pc.pointers
      rw [hpc]
      exact hp
    · rw [List.mem_singleton.mp hm]
      exact Nat.lt_succ_self _
  | @runHere c k d hpc hl =>
    have hr := h.retain c
    refine hr.goto (fun p hp => ?_) fun c' hc' => hr.locals l c' ?_
    · rcases List.mem_cons.mp hp with hp | hp
      · rw [hp]
        exact ⟨hlocal hpc (List.mem_singleton_self c), (s.loop_retain c c).trans hl⟩
      · refine hr.home l p (.pc ?_)
        show p ∈ (s.loops l).pc.pointers
        rw [hpc]
        exact hp
    · show c' ∈ (s.loops l).pc.locals
      rw [hpc]
      exact hc'
  | @runThere c l' k d hpc hl' hl =>
    have hc := hlocal hpc (List.mem_singleton_self c)
    exact Placed.queueNewEvent ((h.retain c).goto_congr hpc (List.Subset.refl _)
      (List.Subset.refl _)) hc ((s.loop_retain c c).trans hl')
  | @acceptPut c k d hpc =>
    exact Placed.put (h.goto_congr hpc (List.Subset.refl _) (List.Subset.refl _))
      (hlocal hpc (List.mem_singleton_self c))
  | @acceptArm c k d hpc =>
    exact (h.enableRead (hlocal hpc (List.mem_singleton_self c))).goto_congr
      ((s.pc_enableRead l c).trans hpc) (List.subset_cons_self _ _) (List.Subset.refl _)
  | @dropCallback c k d hpc =>
    refine Placed.release ?_ c
    exact h.goto_congr hpc (List.Subset.refl _) (List.Subset.refl _)
  | @dropLocal c k d hpc =>
    refine Placed.release ?_ c
    exact h.goto_congr hpc (List.Subset.refl _) (List.nil_subset _)
  | rearm hpc =>
    exact h.rearmAcceptor.goto_congr ((s.pc_rearmAcceptor l).trans hpc) (List.Subset.refl _)
      (List.nil_subset _)
  | acceptRet hpc => exact h.goto_congr hpc (List.subset_cons_self _ _) (List.nil_subset _)
  | swap hpc =>
    refine (h.takePending l).goto (fun p hp => ?_) fun _ hx => by cases hx
    obtain ⟨c, hc, rfl⟩ := List.mem_map.mp hp
    exact h.home l _ (.pending hc)
  | @functor fs i c hpc hc =>
    have hmem : .conn c ∈ (ServerPc.functors fs i).pointers :=
      List.mem_map_of_mem (List.mem_of_getElem? hc)
    exact h.goto_congr hpc (List.cons_subset.mpr ⟨hmem, List.Subset.refl _⟩) (List.nil_subset _)
  | functorsEnd hpc hc => exact h.goto_congr hpc (List.Subset.refl _) (List.nil_subset _)
  | @put c fs i hpc =>
    exact Placed.put (h.goto_congr hpc (List.Subset.refl _) (List.nil_subset _))
      (hconn hpc List.mem_cons_self)
  | @arm c fs i hpc =>
    exact (h.enableRead (hconn hpc List.mem_cons_self)).goto_congr
      ((s.pc_enableRead l c).trans hpc) (List.subset_cons_self _ _) (List.nil_subset _)
  | dropNil hpc => exact h.goto_congr hpc (List.nil_subset _) (List.nil_subset _)
  | @drop c fs hpc =>
    exact (h.goto_congr hpc (List.subset_cons_self _ _) (List.nil_subset _)).release c

/-- **Each event.** -/
theorem moves {e : ServerEvent} (h : Placed s) (hs : s.Moves e s') : Placed s' := by
  cases hs with
  | @deliver l fd mask active r hpc hr =>
    obtain ⟨i, hi, -, -, hd, hK⟩ := EpollSet.deliver_eq_some hr
    have hset : Placed (s.setInterest l r.1) := by
      refine h.setInterest fun fd' j hj => ?_
      rw [hK] at hj
      by_cases hf : fd' = fd
      · rw [hf, Function.update_self, Option.some.injEq] at hj
        rw [← hj]
        show (s.loops l).Points i.data
        exact .interest hi
      · rw [Function.update_of_ne hf] at hj
        exact .interest hj
    have hrev := hset.setRevents r.2 mask
    refine hrev.goto (fun p hp => hrev.home l p ?_) fun _ hx => by cases hx
    rw [loops_setRevents]
    rcases List.mem_append.mp hp with hp | hp
    · refine .pc ?_
      rw [pc_setInterest, hpc]
      exact hp
    · rw [List.mem_singleton.mp hp, ← hd]
      have hreg : ((s.setInterest l r.1).loops l).epoll.interest fd = some i.delivered := by
        show (Function.update s.loops l _ l).epoll.interest fd = _
        rw [Function.update_self, hK]
        exact Function.update_self ..
      show ((s.setInterest l r.1).loops l).Points i.delivered.data
      exact .interest hreg
  | read n hpc => exact h.goto_congr hpc (List.Subset.refl _) (List.nil_subset _)
  | @accept l k d r hpc hr =>
    have ho := h.of_openFds (if 0 ≤ r then insert r s.openFds else s.openFds) s.next
    unfold afterAccept
    split
    · exact ho.goto_congr hpc (List.Subset.refl _) (List.nil_subset _)
    · exact ho.goto_congr hpc (List.Subset.refl _) (List.nil_subset _)
  | flags hpc hfd => exact h.goto_congr hpc (List.Subset.refl _) (List.nil_subset _)
  | noFlags hpc => exact h.goto_congr hpc (List.Subset.refl _) (List.nil_subset _)
  | advance hs => exact h.advances hs

/-- Nothing is reachable in a new server but the acceptor. -/
theorem new (n : ℕ) (fd : Fd) (others : Finset Fd) : Placed (.new n fd others) where
  home l p hp := by
    cases hp with
    | pc h => cases h
    | pending h => cases h
    | connections h => cases h
    | @interest f i h =>
      dsimp only [TCPServer.new] at h
      split at h
      · rcases (Channel.operation_update (· ||| Channel.readEvent)).data h with hd | hd
        · rw [hd]
          exact ‹l = 0›
        · cases hd
      · cases h
  locals l c hc := by cases hc
  entries l fd c hc := by cases hc
  formed c hc := absurd hc (Nat.not_lt_zero c)
  acceptor := by
    show (Channel.enableRead _ _ _).2.fd = _ ∧ (Channel.enableRead _ _ _).2.readHandler = _
      ∧ (Channel.enableRead _ _ _).2.errorHandler = _
      ∧ (Channel.enableRead _ _ _).2.writeHandler = _
      ∧ (Channel.enableRead _ _ _).2.closeHandler = _
    rw [Channel.enableRead_snd]
    exact ⟨rfl, rfl, rfl, rfl, rfl⟩

end Placed

/-- **In every reachable state everything is in its loop.** -/
theorem reachable_placed {n : ℕ} {fd : Fd} {others : Finset Fd} {s : TCPServer}
    (h : (machine n fd others).Reachable s) : Placed s :=
  h.invariant (Placed.new n fd others) fun _ _ _ hi hs => hi.moves (.of_step hs)

end TCPServer
