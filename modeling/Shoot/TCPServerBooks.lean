import Shoot.TCPServerLocality

/-!
# The books of a loop

What a loop has registered with its `Epoll` and what it has entered in
`connections_` go together. Registered is the listening descriptor, or an
entry, under its own channel; the status of a channel tells whether it is
registered; and every registration is one-shot, but for those the loop is
closing (`Books`).

The operations change one thing at a time: the registration of an entry
(`Rewired`), or an entry under which nothing is registered (`Relinked`). The
books are kept by both, by a delivery and by the acceptor enabling the
listening channel.
-/

namespace TCPServer

variable {s s' : TCPServer} {l : LoopId} {c : ConnId} {cs cs' : List ConnId}

/-- **The books of a loop**, where it is closing the connections `cs`. -/
structure Books (s : TCPServer) (l : LoopId) (cs : List ConnId) : Prop where
  /-- What is registered is the listening descriptor, or an entry. -/
  interest : ∀ f i, (s.loops l).epoll.interest f = some i →
    (l = 0 ∧ f = s.listenFd ∧ i.data = .acceptor)
      ∨ ∃ c, i.data = .conn c ∧ (s.loops l).connections f = some c
  /-- An entry's channel knows whether it is registered. -/
  linked : ∀ f c, (s.loops l).connections f = some c →
    Channel.Known (s.loops l).epoll (s.heap c).channel
  /-- The channels of other connections are not registered. -/
  unlinked : ∀ c < s.fresh, (s.heap c).loop = l → (s.loops l).connections (s.heap c).fd ≠ some c →
    (s.heap c).channel.status ≠ .add
  /-- The listening descriptor is. -/
  listen : l = 0 → s.acceptChannel.status = .add
    ∧ ∃ i, (s.loops l).epoll.interest s.listenFd = some i ∧ i.data = .acceptor
  /-- The registrations are one-shot. -/
  oneshot : ∀ f i, (s.loops l).epoll.interest f = some i →
    i.events.has epollOneshot = true ∨ ∃ c ∈ cs, i.data = .conn c

namespace Books

/-- What the loop does not see does not change its books. -/
theorem congr (h : Books s l cs) (hp : Placed s) (ha : Apart s s' l) : Books s' l cs where
  interest f i hi := by
    rw [ha.interest] at hi
    rw [ha.listenFd, ha.connections]
    exact h.interest f i hi
  linked f c hc := by
    rw [ha.connections] at hc
    have hhome := hp.home l _ (.connections hc)
    unfold Channel.Known
    rw [ha.channel c hhome.1 hhome.2, ha.interest]
    exact h.linked f c hc
  unlinked c hlt hl hc := by
    by_cases hold : c < s.fresh
    · obtain ⟨hloop, hfd⟩ := ha.kept c hold
      rw [hfd, ha.connections] at hc
      rw [ha.channel c hold (hloop.symm.trans hl)]
      exact h.unlinked c hold (hloop.symm.trans hl) hc
    · rw [ha.added c (not_lt.mp hold) hlt hl]
      decide
  listen hl := by
    rw [ha.acceptChannel hl, ha.interest, ha.listenFd]
    exact h.listen hl
  oneshot f i hi := by
    rw [ha.interest] at hi
    exact h.oneshot f i hi

/-- A channel is registered under one descriptor. -/
theorem data_inj (h : Books s l cs) (hp : Placed s) {f f' : Fd} {i i' : Interest ChannelPtr}
    (hi : (s.loops l).epoll.interest f = some i) (hi' : (s.loops l).epoll.interest f' = some i')
    (hd : i.data = i'.data) : f = f' := by
  rcases h.interest f i hi with ⟨-, hf, ha⟩ | ⟨c, hc, he⟩
  · rcases h.interest f' i' hi' with ⟨-, hf', -⟩ | ⟨c', hc', -⟩
    · exact hf.trans hf'.symm
    · rw [hd, hc'] at ha
      cases ha
  · rcases h.interest f' i' hi' with ⟨-, -, ha'⟩ | ⟨c', hc', he'⟩
    · rw [← hd, hc] at ha'
      cases ha'
    · rw [hd, hc'] at hc
      cases hc
      exact (hp.entries l f c he).symm.trans (hp.entries l f' c he')

/-- What is registered under the descriptor of an entry is its channel. -/
theorem data_of_entry (h : Books s l cs) {f : Fd} (hc : (s.loops l).connections f = some c)
    (hf : f ≠ s.listenFd) {i : Interest ChannelPtr}
    (hi : (s.loops l).epoll.interest f = some i) : i.data = .conn c := by
  rcases h.interest f i hi with ⟨-, hl, -⟩ | ⟨c', hd, hc'⟩
  · exact absurd hl hf
  · rw [hd, Option.some.inj (hc'.symm.trans hc)]

/-- Nothing is registered under a descriptor that has no entry. -/
theorem not_registered (h : Books s l cs) {f : Fd} (hc : (s.loops l).connections f = none)
    (hf : f ≠ s.listenFd) : (s.loops l).epoll.interest f = none := by
  cases hi : (s.loops l).epoll.interest f with
  | none => rfl
  | some i =>
    rcases h.interest f i hi with ⟨-, hl, -⟩ | ⟨c', -, hc'⟩
    · exact absurd hl hf
    · cases hc.symm.trans hc'

end Books

/-- **The registration of a connection is changed** by its loop, to `o`. -/
structure Rewired (s s' : TCPServer) (l : LoopId) (c : ConnId) (o : Option (Interest ChannelPtr)) :
    Prop where
  interest : (s'.loops l).epoll.interest
    = Function.update (s.loops l).epoll.interest (s.heap c).fd o
  connections : (s'.loops l).connections = (s.loops l).connections
  kept : ∀ c', (s'.heap c').loop = (s.heap c').loop ∧ (s'.heap c').fd = (s.heap c').fd
    ∧ (s'.heap c').channel.fd = (s.heap c').channel.fd
    ∧ (s'.heap c').channel.revent = (s.heap c').channel.revent
  others : ∀ c', c' ≠ c → (s'.heap c').channel = (s.heap c').channel
  status : (s'.heap c).channel.status = .add ↔ o.isSome = true
  fresh : s'.fresh = s.fresh
  listenFd : s'.listenFd = s.listenFd
  acceptChannel : s'.acceptChannel = s.acceptChannel

namespace Rewired

variable {o o' : Option (Interest ChannelPtr)}

theorem trans {s'' : TCPServer} (h : Rewired s s' l c o) (h' : Rewired s' s'' l c o') :
    Rewired s s'' l c o' where
  interest := by rw [h'.interest, h.interest, (h.kept c).2.1, Function.update_idem]
  connections := h'.connections.trans h.connections
  kept c' :=
    have hk := h.kept c'
    have hk' := h'.kept c'
    ⟨hk'.1.trans hk.1, hk'.2.1.trans hk.2.1, hk'.2.2.1.trans hk.2.2.1, hk'.2.2.2.trans hk.2.2.2⟩
  others c' hc := (h'.others c' hc).trans (h.others c' hc)
  status := h'.status
  fresh := h'.fresh.trans h.fresh
  listenFd := h'.listenFd.trans h.listenFd
  acceptChannel := h'.acceptChannel.trans h.acceptChannel

/-- What an operation on the interest does to the connection's loop. -/
theorem connChannel {f : Epoll ChannelPtr → ChannelPtr → Channel Handler →
      Epoll ChannelPtr × Channel Handler} (hf : Channel.Operation f) (hl : (s.heap c).loop = l)
    (hi : (f (s.loops l).epoll (.conn c) (s.heap c).channel).1.interest
      = Function.update (s.loops l).epoll.interest (s.heap c).fd o)
    (ho : (f (s.loops l).epoll (.conn c) (s.heap c).channel).2.status = .add ↔ o.isSome = true) :
    Rewired s (s.connChannel c f) l c o := by
  subst hl
  have hnew : (s.connChannel c f).heap c = { s.heap c with
      channel := (f (s.loops (s.heap c).loop).epoll (.conn c) (s.heap c).channel).2 } :=
    Function.update_self ..
  have hold : ∀ {c'}, c' ≠ c → (s.connChannel c f).heap c' = s.heap c' := fun hc =>
    Function.update_of_ne hc _ _
  have hkeeps := hf.keeps (s.loops (s.heap c).loop).epoll (.conn c) (s.heap c).channel
  have hk : ((f (s.loops (s.heap c).loop).epoll (.conn c) (s.heap c).channel).2.fd
        = (s.heap c).channel.fd)
      ∧ (f (s.loops (s.heap c).loop).epoll (.conn c) (s.heap c).channel).2.revent
        = (s.heap c).channel.revent := by
    rw [hkeeps]
    exact ⟨rfl, rfl⟩
  refine ⟨?_, ?_, fun c' => ?_, fun c' hc => by rw [hold hc], by rw [hnew]; exact ho, rfl, rfl, rfl⟩
  · show (Function.update s.loops (s.heap c).loop _ (s.heap c).loop).epoll.interest = _
    rw [Function.update_self]
    exact hi
  · show (Function.update s.loops (s.heap c).loop _ (s.heap c).loop).connections = _
    rw [Function.update_self]
  · by_cases hc : c' = c
    · rw [hc, hnew]
      exact ⟨rfl, rfl, hk.1, hk.2⟩
    · rw [hold hc]
      exact ⟨rfl, rfl, rfl, rfl⟩

/-- `enable_read` arms the registration. -/
theorem enableRead (hl : (s.heap c).loop = l) (hfd : (s.heap c).channel.fd = (s.heap c).fd)
    (hk : Channel.Known (s.loops l).epoll (s.heap c).channel) :
    Rewired s (s.enableRead c) l c
      (some ⟨(s.heap c).channel.event ||| Channel.readEvent, .conn c, true⟩) := by
  refine connChannel (Channel.operation_update (· ||| Channel.readEvent)) hl ?_ ?_
  · rw [← hfd]
    exact Channel.enableRead_interest hk
  · have h2 := Channel.enableRead_snd (s.loops l).epoll (ChannelPtr.conn c) (s.heap c).channel
    exact iff_of_true (congrArg Channel.status h2) rfl

/-- What a connection knows beside its channel does not matter. -/
theorem of_same {s₁ : TCPServer} (h : Rewired s₁ s' l c o) (hloops : s₁.loops = s.loops)
    (hheap : ∀ c', (s₁.heap c').loop = (s.heap c').loop ∧ (s₁.heap c').fd = (s.heap c').fd
      ∧ (s₁.heap c').channel = (s.heap c').channel)
    (hf : s₁.fresh = s.fresh) (hl : s₁.listenFd = s.listenFd)
    (ha : s₁.acceptChannel = s.acceptChannel) : Rewired s s' l c o where
  interest := by rw [h.interest, hloops, (hheap c).2.1]
  connections := by rw [h.connections, hloops]
  kept c' := by
    obtain ⟨hl, hf, hc⟩ := hheap c'
    rw [← hl, ← hf, ← hc]
    exact h.kept c'
  others c' hc := by
    rw [h.others c' hc, (hheap c').2.2]
  status := h.status
  fresh := h.fresh.trans hf
  listenFd := h.listenFd.trans hl
  acceptChannel := h.acceptChannel.trans ha

/-- `handle_close` leaves a registration for no events. -/
theorem handleClose (hl : (s.heap c).loop = l) (hfd : (s.heap c).channel.fd = (s.heap c).fd)
    (hk : Channel.Known (s.loops l).epoll (s.heap c).channel) :
    Rewired s (s.handleClose c) l c (some ⟨Channel.noneEvent, .conn c, true⟩) := by
  have hsame : ∀ c', (Function.update s.heap c
          { s.heap c with connectionState := .disconnected } c').loop = (s.heap c').loop
      ∧ (Function.update s.heap c
          { s.heap c with connectionState := .disconnected } c').fd = (s.heap c').fd
      ∧ (Function.update s.heap c
          { s.heap c with connectionState := .disconnected } c').channel = (s.heap c').channel :=
    fun c' =>
      ⟨s.loop_update c (by rfl) c', s.fd_update c (by rfl) c', s.channel_update c (by rfl) c'⟩
  refine of_same (connChannel (Channel.operation_update fun _ => Channel.noneEvent) ?_ ?_ ?_) rfl
    hsame rfl rfl rfl
  · exact (hsame c).1.trans hl
  · dsimp only
    rw [(hsame c).2.2, (hsame c).2.1, ← hfd]
    exact Channel.disalbelAll_interest hk
  · dsimp only
    exact iff_of_true (congrArg Channel.status (Channel.disalbelAll_snd ..)) rfl

/-- `destroy_conn` leaves none. -/
theorem destroyConn (hl : (s.heap c).loop = l) (hfd : (s.heap c).channel.fd = (s.heap c).fd)
    (hk : Channel.Known (s.loops l).epoll (s.heap c).channel) :
    Rewired s (s.destroyConn c) l c none := by
  have hremove : ∀ t : TCPServer, (t.heap c).loop = l → (t.heap c).channel.fd = (t.heap c).fd →
      Rewired t (t.connChannel c fun ep p ch => ch.remove ep p) l c none := by
    intro t htl htfd
    refine connChannel Channel.operation_remove htl ?_ ?_
    · rw [Channel.remove_interest, htfd]
    · exact iff_of_false (by rw [Channel.remove_snd]; nofun) Bool.false_ne_true
  unfold TCPServer.destroyConn
  split
  · have hclose := handleClose hl hfd hk
    obtain ⟨hl', hf', hcf, -⟩ := hclose.kept c
    exact hclose.trans (hremove _ (hl'.trans hl) (hcf.trans (hfd.trans hf'.symm)))
  · exact hremove s hl hfd

end Rewired

/-- The books after the loop has changed the registration of an entry. -/
theorem Books.rewired {o : Option (Interest ChannelPtr)} (h : Books s l cs) (hp : Placed s)
    (hr : Rewired s s' l c o) (hc : (s.loops l).connections (s.heap c).fd = some c)
    (hf : (s.heap c).fd ≠ s.listenFd)
    (ho : ∀ i, o = some i → i.data = .conn c ∧ (i.events.has epollOneshot = true ∨ c ∈ cs'))
    (hcs : ∀ c' ∈ cs, c' = c ∨ c' ∈ cs') : Books s' l cs' := by
  have hnew : (s'.loops l).epoll.interest (s.heap c).fd = o := by
    rw [hr.interest]
    exact Function.update_self ..
  have hold : ∀ {f}, f ≠ (s.heap c).fd →
      (s'.loops l).epoll.interest f = (s.loops l).epoll.interest f := by
    intro f hne
    rw [hr.interest]
    exact Function.update_of_ne hne _ _
  refine ⟨fun f i hi => ?_, fun f c' hc' => ?_, fun c' hlt hl hc' => ?_, fun hl => ?_,
    fun f i hi => ?_⟩
  · rw [hr.connections, hr.listenFd]
    by_cases hfc : f = (s.heap c).fd
    · subst hfc
      exact Or.inr ⟨c, (ho i (hnew.symm.trans hi)).1, hc⟩
    · exact h.interest f i ((hold hfc).symm.trans hi)
  · rw [hr.connections] at hc'
    have hfc' : (s.heap c').fd = f := hp.entries l f c' hc'
    have hchfd : (s'.heap c').channel.fd = f :=
      (hr.kept c').2.2.1.trans ((hp.formed c' (hp.home l _ (.connections hc')).1).fd.trans hfc')
    unfold Channel.Known EpollSet.registered
    by_cases hcc : c' = c
    · subst hcc
      rw [hchfd, ← hfc', hnew]
      exact hr.status
    · -- another entry is under another descriptor
      have hne : f ≠ (s.heap c).fd := fun he => hcc (Option.some.inj ((he ▸ hc').symm.trans hc))
      have hk := h.linked f c' hc'
      rw [hchfd, hold hne]
      rw [hr.others c' hcc] at hchfd ⊢
      unfold Channel.Known EpollSet.registered at hk
      rw [hchfd] at hk
      exact hk
  · obtain ⟨hloop, hfd, -, -⟩ := hr.kept c'
    rw [hfd, hr.connections] at hc'
    have hcc : c' ≠ c := fun he => hc' (he ▸ hc)
    rw [hr.others c' hcc]
    exact h.unlinked c' (hr.fresh ▸ hlt) (hloop.symm.trans hl) hc'
  · obtain ⟨hst, i, hi, hd⟩ := h.listen hl
    rw [hr.acceptChannel, hr.listenFd, hold (Ne.symm hf)]
    exact ⟨hst, i, hi, hd⟩
  · by_cases hfc : f = (s.heap c).fd
    · subst hfc
      obtain ⟨hd, hor⟩ := ho i (hnew.symm.trans hi)
      exact hor.imp id fun hmem => ⟨c, hmem, hd⟩
    · rw [hold hfc] at hi
      refine (h.oneshot f i hi).imp id fun ⟨c', hmem, hd⟩ => ?_
      rcases hcs c' hmem with he | hmem'
      · -- no second registration of `c`
        rcases h.interest f i hi with ⟨-, -, ha⟩ | ⟨c'', hd', hc''⟩
        · rw [hd] at ha
          cases ha
        · rw [hd, ChannelPtr.conn.injEq] at hd'
          rw [← hd', he] at hc''
          exact absurd (hp.entries l f c hc'').symm hfc
      · exact ⟨c', hmem', hd⟩

namespace Books

/-- The books after a delivery: a registration is disarmed, and the channel
told. -/
theorem deliver (h : Books s l cs) {f : Fd} {i : Interest ChannelPtr}
    {mask : EventMask} (hi : (s.loops l).epoll.interest f = some i) :
    Books ((s.setInterest l (Function.update (s.loops l).epoll.interest f
      (some i.delivered))).setRevents i.data mask) l cs := by
  set s₁ := s.setInterest l (Function.update (s.loops l).epoll.interest f (some i.delivered))
  have hloops : (s₁.setRevents i.data mask).loops = s₁.loops := loops_setRevents ..
  have hint : (s₁.loops l).epoll.interest
      = Function.update (s.loops l).epoll.interest f (some i.delivered) := by
    show (Function.update s.loops l _ l).epoll.interest = _
    rw [Function.update_self]
  have hcon : (s₁.loops l).connections = (s.loops l).connections := by
    show (Function.update s.loops l _ l).connections = _
    rw [Function.update_self]
  -- the same descriptors are registered, with the same data and events
  have hback : ∀ {f' j}, (s₁.loops l).epoll.interest f' = some j →
      ∃ j', (s.loops l).epoll.interest f' = some j' ∧ j.data = j'.data ∧ j.events = j'.events := by
    intro f' j hj
    rw [hint] at hj
    by_cases hf : f' = f
    · subst hf
      rw [Function.update_self, Option.some.injEq] at hj
      exact ⟨i, hi, hj ▸ rfl, hj ▸ rfl⟩
    · rw [Function.update_of_ne hf] at hj
      exact ⟨j, hj, rfl, rfl⟩
  have hreg : ∀ f', (s₁.loops l).epoll.interest.registered f'
      = (s.loops l).epoll.interest.registered f' := by
    intro f'
    unfold EpollSet.registered
    rw [hint]
    by_cases hf : f' = f
    · rw [hf, Function.update_self, hi]
      rfl
    · rw [Function.update_of_ne hf]
  -- and the channels say the same, apart from what was delivered
  have hheap : ∀ c, ((s₁.setRevents i.data mask).heap c).loop = (s.heap c).loop
      ∧ ((s₁.setRevents i.data mask).heap c).fd = (s.heap c).fd
      ∧ ((s₁.setRevents i.data mask).heap c).channel.fd = (s.heap c).channel.fd
      ∧ ((s₁.setRevents i.data mask).heap c).channel.status = (s.heap c).channel.status := by
    cases i.data with
    | acceptor => exact fun _ => ⟨rfl, rfl, rfl, rfl⟩
    | conn c =>
      exact (Function.forall_update_iff s.heap fun c' x => x.loop = (s.heap c').loop
        ∧ x.fd = (s.heap c').fd ∧ x.channel.fd = (s.heap c').channel.fd
        ∧ x.channel.status = (s.heap c').channel.status).mpr
          ⟨⟨rfl, rfl, rfl, rfl⟩, fun _ _ => ⟨rfl, rfl, rfl, rfl⟩⟩
  have hacc : (s₁.setRevents i.data mask).acceptChannel.status = s.acceptChannel.status
      ∧ (s₁.setRevents i.data mask).listenFd = s.listenFd
      ∧ (s₁.setRevents i.data mask).fresh = s.fresh := by
    cases i.data <;> exact ⟨rfl, rfl, rfl⟩
  refine ⟨fun f' j hj => ?_, fun f' c hc => ?_, fun c hlt hl hc => ?_, fun hl => ?_,
    fun f' j hj => ?_⟩
  · rw [hloops] at hj
    obtain ⟨j', hj', hd, -⟩ := hback hj
    rw [hloops, hcon, hd, hacc.2.1]
    exact h.interest f' j' hj'
  · rw [hloops, hcon] at hc
    obtain ⟨-, -, hcf, hst⟩ := hheap c
    unfold Channel.Known
    rw [hloops, hcf, hst, hreg]
    exact h.linked f' c hc
  · obtain ⟨hloop, hfd, -, hst⟩ := hheap c
    rw [hloops, hcon, hfd] at hc
    rw [hst]
    exact h.unlinked c (hacc.2.2 ▸ hlt) (hloop.symm.trans hl) hc
  · obtain ⟨hst, j, hj, hd⟩ := h.listen hl
    refine ⟨hacc.1.trans hst, ?_⟩
    rw [hloops, hacc.2.1, hint]
    by_cases hf : s.listenFd = f
    · rw [hf, Function.update_self]
      rw [hf, hi, Option.some.injEq] at hj
      exact ⟨_, rfl, hj ▸ hd⟩
    · rw [Function.update_of_ne hf]
      exact ⟨j, hj, hd⟩
  · rw [hloops] at hj
    obtain ⟨j', hj', hd, he⟩ := hback hj
    rw [hd, he]
    exact h.oneshot f' j' hj'

end Books

/-- **The entry under a descriptor is changed** by the loop, to `o`. -/
structure Relinked (s s' : TCPServer) (l : LoopId) (f : Fd) (o : Option ConnId) : Prop where
  interest : (s'.loops l).epoll.interest = (s.loops l).epoll.interest
  connections : (s'.loops l).connections = Function.update (s.loops l).connections f o
  kept : ∀ c', (s'.heap c').loop = (s.heap c').loop ∧ (s'.heap c').fd = (s.heap c').fd
    ∧ (s'.heap c').channel = (s.heap c').channel
  fresh : s'.fresh = s.fresh
  listenFd : s'.listenFd = s.listenFd
  acceptChannel : s'.acceptChannel = s.acceptChannel

namespace Relinked

theorem put (hl : (s.heap c).loop = l) (hfd : (s.heap c).channel.fd = (s.heap c).fd)
    (hnone : (s.loops l).connections (s.heap c).fd = none) :
    Relinked s (s.put c) l (s.heap c).fd (some c) := by
  subst hl
  unfold TCPServer.put
  dsimp only
  rw [hfd, hnone]
  refine ⟨?_, ?_, ?_, rfl, rfl, rfl⟩
  · show (Function.update s.loops (s.heap c).loop _ (s.heap c).loop).epoll.interest = _
    rw [Function.update_self]
  · show (Function.update s.loops (s.heap c).loop _ (s.heap c).loop).connections = _
    rw [Function.update_self]
  · exact fun c' => ⟨s.loop_retain c c', s.fd_retain c c', s.channel_update c (by rfl) c'⟩

theorem unlink (hl : (s.heap c).loop = l) : Relinked s (s.unlink c) l (s.heap c).fd none := by
  subst hl
  refine ⟨?_, ?_, fun _ => ⟨rfl, rfl, rfl⟩, rfl, rfl, rfl⟩
  · show (Function.update s.loops (s.heap c).loop _ (s.heap c).loop).epoll.interest = _
    rw [Function.update_self]
  · show (Function.update s.loops (s.heap c).loop _ (s.heap c).loop).connections = _
    rw [Function.update_self]

end Relinked

namespace Books

/-- The books after the loop has changed an entry under which nothing is
registered. -/
theorem relinked {f : Fd} {o : Option ConnId} (h : Books s l cs) (hr : Relinked s s' l f o)
    (hnone : (s.loops l).epoll.interest f = none)
    (ho : ∀ c, o = some c → Channel.Known (s.loops l).epoll (s.heap c).channel)
    (hold : ∀ c, (s.loops l).connections f = some c → (s.heap c).channel.status ≠ .add) :
    Books s' l cs where
  interest f' i hi := by
    rw [hr.interest] at hi
    have hne : f' ≠ f := fun he => by
      rw [he, hnone] at hi
      cases hi
    rw [hr.connections, hr.listenFd, Function.update_of_ne hne]
    exact h.interest f' i hi
  linked f' c hc := by
    unfold Channel.Known
    rw [hr.interest, (hr.kept c).2.2]
    rw [hr.connections] at hc
    by_cases hf : f' = f
    · rw [hf, Function.update_self] at hc
      exact ho c hc
    · rw [Function.update_of_ne hf] at hc
      exact h.linked f' c hc
  unlinked c hlt hl hc := by
    obtain ⟨hloop, hfd, hch⟩ := hr.kept c
    rw [hfd, hr.connections] at hc
    rw [hch]
    by_cases hold' : (s.loops l).connections (s.heap c).fd = some c
    · have hf : (s.heap c).fd = f := by
        by_contra hne
        rw [Function.update_of_ne hne] at hc
        exact hc hold'
      exact hold c (hf ▸ hold')
    · exact h.unlinked c (hr.fresh ▸ hlt) (hloop.symm.trans hl) hold'
  listen hl := by
    rw [hr.acceptChannel, hr.listenFd, hr.interest]
    exact h.listen hl
  oneshot f' i hi := by
    rw [hr.interest] at hi
    exact h.oneshot f' i hi

end Books

/-- **The listening channel is enabled.** -/
theorem interest_rearmAcceptor (h : Books s 0 cs) (hfd : s.acceptChannel.fd = s.listenFd) :
    (s.rearmAcceptor.loops 0).epoll.interest
      = Function.update (s.loops 0).epoll.interest s.listenFd
        (some ⟨s.acceptChannel.event ||| Channel.readEvent, .acceptor, true⟩) := by
  obtain ⟨hst, i, hi, -⟩ := h.listen rfl
  have hk : Channel.Known (s.loops 0).epoll s.acceptChannel := by
    refine iff_of_true hst ?_
    rw [hfd]
    exact congrArg Option.isSome hi
  show (Function.update s.loops 0 _ 0).epoll.interest = _
  rw [Function.update_self, ← hfd]
  exact Channel.enableRead_interest hk

/-- The books after that. -/
theorem Books.rearmAcceptor (h : Books s 0 cs) (hfd : s.acceptChannel.fd = s.listenFd) :
    Books s.rearmAcceptor 0 cs := by
  have hint := interest_rearmAcceptor h hfd
  have hcon : (s.rearmAcceptor.loops 0).connections = (s.loops 0).connections := by
    show (Function.update s.loops 0 _ 0).connections = _
    rw [Function.update_self]
    rfl
  obtain ⟨hst, i₀, hi₀, -⟩ := h.listen rfl
  refine ⟨fun f i hi => ?_, fun f c hc => ?_, fun c hlt hl hc => ?_, fun _ => ⟨?_, ?_⟩,
    fun f i hi => ?_⟩
  · rw [hint] at hi
    rw [hcon]
    by_cases hf : f = s.listenFd
    · rw [hf, Function.update_self, Option.some.injEq] at hi
      exact Or.inl ⟨rfl, hf, hi ▸ rfl⟩
    · rw [Function.update_of_ne hf] at hi
      exact h.interest f i hi
  · rw [hcon] at hc
    have hk := h.linked f c hc
    unfold Channel.Known EpollSet.registered at hk ⊢
    have hsame : s.rearmAcceptor.heap c = s.heap c := rfl
    rw [hint, hsame]
    by_cases hf : (s.heap c).channel.fd = s.listenFd
    · rw [hf, Function.update_self]
      rw [hf, hi₀] at hk
      exact hk
    · rw [Function.update_of_ne hf]
      exact hk
  · rw [hcon] at hc
    exact h.unlinked c hlt hl hc
  · exact congrArg Channel.status (Channel.enableRead_snd ..)
  · rw [hint]
    exact ⟨_, Function.update_self .., rfl⟩
  · rw [hint] at hi
    by_cases hf : f = s.listenFd
    · rw [hf, Function.update_self, Option.some.injEq] at hi
      rw [← hi]
      exact Or.inl (EventMask.has_or_right (by decide))
    · rw [Function.update_of_ne hf] at hi
      exact h.oneshot f i hi

end TCPServer
