import Shoot.TCPServerBooks
import Shoot.TCPServerOwnership

/-!
# Every channel where its loop left it

All registrations are one-shot. A channel whose events were delivered stays
silent until someone enables it again, so between the delivery and the return
of `handle_events` its registration is disarmed, and what happens to it
depends on the path the handler takes. The invariant of a loop (`Serves`)
says, for each place where its thread can stand, in what state the
registration of the channel at hand is. It rests on the books of the loop.

The result is `TCPServer.not_deaf_iff`: when `handle_events` returns for a
connection, the connection is armed for reading again or has left both the
interest list and `connections_` exactly if the delivered events contained
`EPOLLIN`. On a hang-up, an error or urgent data alone, no callback re-arms
or removes it, and nothing is ever delivered for it again.
-/

/-- The connection `handle_read` is about to remove, whose registration asks
for no events. -/
def ServerPc.closing : ServerPc → List ConnId
  | .read c .destroy _ => [c]
  | _ => []

namespace TCPServer

variable {s s' : TCPServer} {l : LoopId} {c : ConnId} {p : ChannelPtr} {cs : List ConnId}

/-! ## Where a thread can stand -/

/-- The channel is registered. -/
def Registered (s : TCPServer) (l : LoopId) (p : ChannelPtr) : Prop :=
  ∃ f i, (s.loops l).epoll.interest f = some i ∧ i.data = p

/-- The channel is registered, and nothing is delivered for it. -/
def Disarmed (s : TCPServer) (l : LoopId) (p : ChannelPtr) : Prop :=
  ∃ f i, (s.loops l).epoll.interest f = some i ∧ i.data = p ∧ i.armed = false

/-- **The connection is listening**: it is in `connections_`, and its read
interest is armed. -/
def Armed (s : TCPServer) (l : LoopId) (c : ConnId) : Prop :=
  (s.loops l).connections (s.heap c).fd = some c
    ∧ ∃ i, (s.loops l).epoll.interest (s.heap c).fd = some i ∧ i.data = .conn c ∧ i.armed = true
      ∧ i.events.has epollIn = true

/-- The connection is entered, and not registered. -/
def Bare (s : TCPServer) (l : LoopId) (c : ConnId) : Prop :=
  (s.loops l).connections (s.heap c).fd = some c
    ∧ (s.loops l).epoll.interest (s.heap c).fd = none

/-- The channels of `active_vector` that are still to be handled: none of them
twice, and none of them delivered again meanwhile. -/
structure Waiting (s : TCPServer) (l : LoopId) (active : List ChannelPtr) : Prop where
  nodup : active.Nodup
  disarmed : ∀ p ∈ active, s.Disarmed l p

/-- A channel is being handled, and others wait. -/
structure Handling (s : TCPServer) (l : LoopId) (d : Dispatch) : Prop where
  waiting : s.Waiting l d.active
  once : d.channel ∉ d.active

/-- **What a call of `handle_events` has done** to a connection: once it has
passed the test for input with input there, the connection is listening again
or has left the loop, and otherwise nothing has happened to it. -/
def Handled (s : TCPServer) (l : LoopId) (d : Dispatch) : Prop :=
  ∀ c, d.channel = .conn c →
    if (d.stage = .write ∨ d.stage = .ret) ∧ (s.heap c).channel.revent.has epollIn = true then
      s.Armed l c ∨ (s.loops l).connections (s.heap c).fd ≠ some c
    else s.Disarmed l (.conn c)

/-- What `handle_read` has done to its connection. -/
def ReadAt (s : TCPServer) (l : LoopId) (c : ConnId) : ReadPc → Prop
  | .read | .rearm | .close => s.Disarmed l (.conn c)
  | .destroy => s.Registered l (.conn c)
  | .erase => s.Bare l c
  | .release => (s.loops l).connections (s.heap c).fd ≠ some c

/-- What `new_event`, called in place, has done to its connection. -/
def AcceptAt (s : TCPServer) (l : LoopId) : AcceptPc → Prop
  | .arm c => s.Bare l c
  | _ => True

/-- **What holds where a thread stands.** -/
def Stands (s : TCPServer) (l : LoopId) : ServerPc → Prop
  | .poll active | .next active => s.Waiting l active
  | .handle d => s.Handling l d ∧ s.Handled l d
  | .read c pos d => s.Handling l d ∧ d.channel = .conn c ∧ d.stage = .write
      ∧ (s.heap c).channel.revent.has epollIn = true ∧ s.ReadAt l c pos
  | .accept pos _ d => s.Handling l d ∧ d.channel = .acceptor ∧ s.AcceptAt l pos
  | .arm c _ _ => s.Bare l c
  | .swap | .functors _ _ | .put _ _ _ | .drop _ => True

/-- **The invariant of a loop.** -/
structure Serves (s : TCPServer) (l : LoopId) : Prop where
  books : s.Books l (s.loops l).pc.closing
  stands : s.Stands l (s.loops l).pc

/-- The invariant, where the thread is known to stand. -/
theorem Serves.standing (h : s.Serves l) {pc : ServerPc} (hpc : (s.loops l).pc = pc) :
    s.Books l pc.closing ∧ s.Stands l pc :=
  ⟨hpc ▸ h.books, hpc ▸ h.stands⟩

section Congr

variable {active : List ChannelPtr} {d : Dispatch} {pc : ServerPc}

theorem Disarmed.congr (h : s.Disarmed l p)
    (hi : (s'.loops l).epoll.interest = (s.loops l).epoll.interest) : s'.Disarmed l p := by
  unfold Disarmed
  rw [hi]
  exact h

theorem Handling.congr (h : s.Handling l d)
    (hi : (s'.loops l).epoll.interest = (s.loops l).epoll.interest) : s'.Handling l d :=
  ⟨⟨h.waiting.nodup, fun p hp => (h.waiting.disarmed p hp).congr hi⟩, h.once⟩

theorem Armed.congr (h : s.Armed l c) (ha : Apart s s' l) (hc : c < s.fresh) : s'.Armed l c := by
  unfold Armed
  rw [(ha.kept c hc).2, ha.connections, ha.interest]
  exact h

theorem Bare.congr (h : s.Bare l c) (ha : Apart s s' l) (hc : c < s.fresh) : s'.Bare l c := by
  unfold Bare
  rw [(ha.kept c hc).2, ha.connections, ha.interest]
  exact h

/-- What a thread relies on is not changed by the other loops. -/
theorem Stands.congr (h : s.Stands l pc) (ha : Apart s s' l)
    (hm : ∀ c, .conn c ∈ pc.pointers → c < s.fresh ∧ (s.heap c).loop = l) : s'.Stands l pc := by
  cases pc with
  | poll active => exact ⟨h.nodup, fun p hp => (h.disarmed p hp).congr ha.interest⟩
  | next active => exact ⟨h.nodup, fun p hp => (h.disarmed p hp).congr ha.interest⟩
  | handle d =>
    refine ⟨h.1.congr ha.interest, fun c hc => ?_⟩
    have hc' := hm c (hc ▸ List.mem_cons_self)
    have hh := h.2 c hc
    rw [ha.channel c hc'.1 hc'.2]
    split at hh
    · rw [if_pos ‹_›, (ha.kept c hc'.1).2, ha.connections]
      exact hh.imp (fun hh => hh.congr ha hc'.1) id
    · rw [if_neg ‹_›]
      exact hh.congr ha.interest
  | read c pos d =>
    obtain ⟨hw, hd, hs, hin, hat⟩ := h
    have hc := hm c List.mem_cons_self
    refine ⟨hw.congr ha.interest, hd, hs, ?_, ?_⟩
    · rw [ha.channel c hc.1 hc.2]
      exact hin
    · cases pos with
      | destroy =>
        show s'.Registered l (.conn c)
        unfold Registered
        rw [ha.interest]
        exact hat
      | erase => exact Bare.congr hat ha hc.1
      | release =>
        show (s'.loops l).connections (s'.heap c).fd ≠ some c
        rw [(ha.kept c hc.1).2, ha.connections]
        exact hat
      | _ => exact Disarmed.congr hat ha.interest
  | accept pos k d =>
    refine ⟨h.1.congr ha.interest, h.2.1, ?_⟩
    cases pos with
    | arm c => exact Bare.congr h.2.2 ha (hm c List.mem_cons_self).1
    | _ => trivial
  | arm c fs i => exact Bare.congr h ha (hm c List.mem_cons_self).1
  | _ => trivial

/-- **What a loop does not see keeps its invariant.** -/
theorem Serves.congr (h : s.Serves l) (hp : Placed s) (ha : Apart s s' l)
    (hpc : (s'.loops l).pc = (s.loops l).pc) : s'.Serves l where
  books := by
    rw [hpc]
    exact h.books.congr hp ha
  stands := by
    rw [hpc]
    exact h.stands.congr ha fun c hc => hp.conn hc

/-- A thread goes on to a place where its loop meets what holds there. -/
theorem Serves.goto (hp : Placed s) (hp' : Placed (s.goto l pc)) (hb : s.Books l pc.closing)
    (hst : s.Stands l pc) : (s.goto l pc).Serves l where
  books := by
    rw [pc_goto]
    exact hb.congr hp (Apart.goto s l pc l)
  stands := by
    rw [pc_goto]
    exact hst.congr (Apart.goto s l pc l) fun c hc => hp'.conn (l := l) (by rw [pc_goto]; exact hc)

/-- The other channels stay as they are when one registration changes. -/
theorem Disarmed.update {f : Fd} {o : Option (Interest ChannelPtr)} (h : s.Disarmed l p)
    (hi : (s'.loops l).epoll.interest = Function.update (s.loops l).epoll.interest f o)
    (hf : ∀ i, (s.loops l).epoll.interest f = some i → i.data ≠ p) : s'.Disarmed l p := by
  obtain ⟨f', i, hi', hd, ha⟩ := h
  have hne : f' ≠ f := fun he => hf i (he ▸ hi') hd
  refine ⟨f', i, ?_, hd, ha⟩
  rw [hi, Function.update_of_ne hne]
  exact hi'

theorem Waiting.update {f : Fd} {o : Option (Interest ChannelPtr)} (h : s.Waiting l active)
    (hi : (s'.loops l).epoll.interest = Function.update (s.loops l).epoll.interest f o)
    (hf : ∀ i, (s.loops l).epoll.interest f = some i → i.data ∉ active) : s'.Waiting l active :=
  ⟨h.nodup, fun p hp => (h.disarmed p hp).update hi fun i hi' he => hf i hi' (he ▸ hp)⟩

/-- In particular those that wait while a connection is handled. -/
theorem Handling.rewired {o : Option (Interest ChannelPtr)} (h : s.Handling l d)
    (hb : s.Books l cs) (hr : Rewired s s' l c o) (hd : d.channel = .conn c)
    (hc : (s.loops l).connections (s.heap c).fd = some c) (hf : (s.heap c).fd ≠ s.listenFd) :
    s'.Handling l d := by
  refine ⟨h.waiting.update hr.interest fun i hi hmem => h.once ?_, h.once⟩
  rw [hd, ← hb.data_of_entry hc hf hi]
  exact hmem

end Congr

/-- A registered connection is entered, under its own descriptor. -/
theorem Registered.entry (h : s.Registered l (.conn c)) (hb : s.Books l cs) (hp : Placed s) :
    (s.loops l).connections (s.heap c).fd = some c := by
  obtain ⟨f, i, hi, hd⟩ := h
  rcases hb.interest f i hi with ⟨-, -, ha⟩ | ⟨c', hc', he⟩
  · rw [hd] at ha
    cases ha
  · rw [hd, ChannelPtr.conn.injEq] at hc'
    subst hc'
    rw [hp.entries l f c he]
    exact he

theorem Disarmed.registered (h : s.Disarmed l p) : s.Registered l p := by
  obtain ⟨f, i, hi, hd, -⟩ := h
  exact ⟨f, i, hi, hd⟩

/-- An entered connection does not have the listening descriptor. -/
theorem Owns.fd_ne_listen (ho : Owns s) (hp : Placed s) {f : Fd}
    (hc : (s.loops l).connections f = some c) : (s.heap c).fd ≠ s.listenFd :=
  (Owned.isOpen ho c (ho.alive_of_entry hp hc)).2

/-! ## What each statement does -/

namespace Serves

/-- A test of `handle_events`. -/
theorem handle (h : s.Serves l) (hp : Placed s) {d : Dispatch}
    (hpc : (s.loops l).pc = .handle d) (hd : d.stage ≠ .ret) :
    (s.goto l (s.handle d)).Serves l := by
  have hp' : Placed (s.goto l (s.handle d)) := hp.handle hpc hd
  have ht := hp.tested hpc hd
  obtain ⟨hb, hst⟩ := h.standing hpc
  obtain ⟨hw, hh⟩ := hst
  generalize s.handle d = pc at ht hp' ⊢
  -- before the test for input a connection is as it was delivered
  have hbefore : ∀ c, d.channel = .conn c → d.stage ≠ .write → s.Disarmed l (.conn c) := by
    intro c hc hne
    have hc' := hh c hc
    rw [if_neg fun hor => hor.1.elim hne hd] at hc'
    exact hc'
  cases ht with
  | hangUp hs hm =>
    refine .goto hp hp' hb ⟨⟨hw.waiting, hw.once⟩, fun c hc => ?_⟩
    have hin : (s.heap c).channel.revent.has epollIn = false := by
      have hm2 := hm.2
      rw [show d.channel = .conn c from hc] at hm2
      exact hm2
    rw [if_neg fun hor => Bool.false_ne_true (hin.symm.trans hor.2)]
    exact hbefore c hc (by rw [hs]; decide)
  | err hs =>
    refine .goto hp hp' hb ⟨⟨hw.waiting, hw.once⟩, fun c hc => ?_⟩
    rw [if_neg fun hor => hor.1.elim (by nofun) (by nofun)]
    exact hbefore c hc (by rw [hs]; decide)
  | read hs =>
    refine .goto hp hp' hb ⟨⟨hw.waiting, hw.once⟩, fun c hc => ?_⟩
    rw [if_neg fun hor => hor.1.elim (by nofun) (by nofun)]
    exact hbefore c hc (by rw [hs]; decide)
  | noRead hs hin =>
    refine .goto hp hp' hb ⟨⟨hw.waiting, hw.once⟩, fun c hc => ?_⟩
    rw [show d.channel = .conn c from hc] at hin
    have hin' : (s.heap c).channel.revent.has epollIn = false := hin
    rw [if_neg fun hor => Bool.false_ne_true (hin'.symm.trans hor.2)]
    exact hbefore c hc (by rw [hs]; decide)
  | @readConn c hs hc hin =>
    refine .goto hp hp' hb ⟨⟨hw.waiting, hw.once⟩, hc, rfl, ?_, hbefore c hc (by rw [hs]; decide)⟩
    rw [hc] at hin
    exact hin
  | readAcceptor hs hc hin => exact .goto hp hp' hb ⟨⟨hw.waiting, hw.once⟩, hc, trivial⟩
  | ret hs =>
    refine .goto hp hp' hb ⟨⟨hw.waiting, hw.once⟩, fun c hc => ?_⟩
    have hc' := hh c hc
    split at hc'
    · rename_i hor
      rw [if_pos ⟨Or.inr rfl, hor.2⟩]
      exact hc'
    · rename_i hor
      rw [if_neg fun hor' => hor ⟨Or.inl hs, hor'.2⟩]
      exact hc'

section Read

variable {d : Dispatch}

/-- After the response the connection is listening again. -/
theorem readRearm (h : s.Serves l) (hp : Placed s) (ho : Owns s)
    (hpc : (s.loops l).pc = .read c .rearm d) : ((s.enableRead c).goto l (.handle d)).Serves l := by
  have hp' : Placed ((s.enableRead c).goto l (.handle d)) := hp.advances (.readRearm hpc)
  have hc := hp.conn_at (c := c) hpc List.mem_cons_self
  obtain ⟨hb, hst⟩ := h.standing hpc
  obtain ⟨hw, hd, hs, hin, hdis⟩ := hst
  have hent := hdis.registered.entry hb hp
  have hf := ho.fd_ne_listen hp hent
  have hr := Rewired.enableRead hc.2 (hp.formed c hc.1).fd (hb.linked _ c hent)
  obtain ⟨-, hfd, -, hrev⟩ := hr.kept c
  have hshot : (s.heap c).channel.event ||| Channel.readEvent |>.has epollOneshot :=
    EventMask.has_or_right (by decide)
  have hread : ((s.heap c).channel.event ||| Channel.readEvent).has epollIn = true :=
    EventMask.has_or_right (by decide)
  refine .goto (hp.enableRead hc.1) hp' (hb.rewired hp hr hent hf (fun i hi => ?_)
    fun c' hc' => by cases hc') ⟨hw.rewired hb hr hd hent hf, fun c' hc' => ?_⟩
  · rw [← Option.some.inj hi]
    exact ⟨rfl, Or.inl hshot⟩
  · rw [hd, ChannelPtr.conn.injEq] at hc'
    subst hc'
    rw [if_pos ⟨Or.inl hs, hrev ▸ hin⟩]
    refine Or.inl ⟨?_, ⟨(s.heap c).channel.event ||| Channel.readEvent, .conn c, true⟩, ?_, rfl,
      rfl, hread⟩
    · rw [hfd, hr.connections]
      exact hent
    · rw [hfd, hr.interest]
      exact Function.update_self ..

/-- `handle_close` leaves the connection registered for nothing. -/
theorem readClose (h : s.Serves l) (hp : Placed s) (ho : Owns s)
    (hpc : (s.loops l).pc = .read c .close d) :
    ((s.handleClose c).goto l (.read c .destroy d)).Serves l := by
  have hp' : Placed ((s.handleClose c).goto l (.read c .destroy d)) := hp.advances (.readClose hpc)
  have hc := hp.conn_at (c := c) hpc List.mem_cons_self
  obtain ⟨hb, hst⟩ := h.standing hpc
  obtain ⟨hw, hd, hs, hin, hdis⟩ := hst
  have hent := hdis.registered.entry hb hp
  have hf := ho.fd_ne_listen hp hent
  have hr := Rewired.handleClose hc.2 (hp.formed c hc.1).fd (hb.linked _ c hent)
  obtain ⟨-, hfd, -, hrev⟩ := hr.kept c
  refine .goto (hp.handleClose hc.1) hp' (hb.rewired hp hr hent hf (fun i hi => ?_)
    fun c' hc' => by cases hc') ⟨hw.rewired hb hr hd hent hf, hd, hs, hrev ▸ hin, ?_⟩
  · rw [← Option.some.inj hi]
    exact ⟨rfl, Or.inr (List.mem_singleton_self c)⟩
  · refine ⟨(s.heap c).fd, ⟨Channel.noneEvent, .conn c, true⟩, ?_, rfl⟩
    rw [hr.interest]
    exact Function.update_self ..

/-- `destroy_conn` takes it out of the interest list. -/
theorem readDestroy (h : s.Serves l) (hp : Placed s) (ho : Owns s)
    (hpc : (s.loops l).pc = .read c .destroy d) :
    ((s.destroyConn c).goto l (.read c .erase d)).Serves l := by
  have hp' : Placed ((s.destroyConn c).goto l (.read c .erase d)) := hp.advances (.readDestroy hpc)
  have hc := hp.conn_at (c := c) hpc List.mem_cons_self
  obtain ⟨hb, hst⟩ := h.standing hpc
  obtain ⟨hw, hd, hs, hin, hreg⟩ := hst
  have hent := Registered.entry hreg hb hp
  have hf := ho.fd_ne_listen hp hent
  have hr := Rewired.destroyConn hc.2 (hp.formed c hc.1).fd (hb.linked _ c hent)
  obtain ⟨-, hfd, -, hrev⟩ := hr.kept c
  refine .goto (hp.destroyConn hc.1) hp' (hb.rewired hp hr hent hf (fun i hi => by cases hi)
    fun c' hc' => Or.inl (List.mem_singleton.mp hc'))
    ⟨hw.rewired hb hr hd hent hf, hd, hs, hrev ▸ hin, ?_, ?_⟩
  · rw [hfd, hr.connections]
    exact hent
  · rw [hfd, hr.interest]
    exact Function.update_self ..

/-- `erase` takes it out of `connections_`: the entry is its own. -/
theorem unlink (h : s.Serves l) (hp : Placed s) {c' : ConnId}
    (hpc : (s.loops l).pc = .read c .erase d) (he : s.entry c = some c') :
    ((s.unlink c).goto l (.read c' .release d)).Serves l := by
  have hp' : Placed ((s.unlink c).goto l (.read c' .release d)) := hp.advances (.unlink hpc he)
  have hc := hp.conn_at (c := c) hpc List.mem_cons_self
  obtain ⟨hb, hst⟩ := h.standing hpc
  obtain ⟨hw, hd, hs, hin, hent, hbare⟩ := hst
  have he' : (s.loops l).connections (s.heap c).fd = some c' := by
    rw [← hc.2]
    exact he
  obtain rfl : c = c' := Option.some.inj (hent.symm.trans he')
  have hr := Relinked.unlink hc.2
  have hunreg : (s.heap c).channel.status ≠ .add := by
    intro hadd
    have hk := (hb.linked _ c hent).mp hadd
    rw [(hp.formed c hc.1).fd] at hk
    unfold EpollSet.registered at hk
    rw [hbare] at hk
    cases hk
  refine .goto (hp.unlink c) hp' (hb.relinked hr hbare (fun c' hc' => by cases hc')
    fun c' hc' => ?_) ⟨hw.congr hr.interest, hd, hs, ?_, ?_⟩
  · rw [← Option.some.inj (hent.symm.trans hc')]
    exact hunreg
  · rw [(hr.kept c).2.2]
    exact hin
  · show ((s.unlink c).loops l).connections ((s.unlink c).heap c).fd ≠ some c
    rw [(hr.kept c).2.1, hr.connections, Function.update_self]
    nofun

/-- The entry has been destroyed, and `handle_read` returns. -/
theorem releaseEntry (h : s.Serves l) (hp : Placed s) (hpc : (s.loops l).pc = .read c .release d) :
    ((s.goto l (.handle d)).release c).Serves l := by
  have hp' : Placed (s.goto l (.handle d)) :=
    hp.goto_congr hpc (List.subset_cons_self _ _) (List.nil_subset _)
  obtain ⟨hb, hst⟩ := h.standing hpc
  obtain ⟨hw, hd, hs, hin, hgone⟩ := hst
  have hg : (s.goto l (.handle d)).Serves l := by
    refine .goto hp hp' hb ⟨hw, fun c' hc' => ?_⟩
    rw [hd, ChannelPtr.conn.injEq] at hc'
    subst hc'
    rw [if_pos ⟨Or.inl hs, hin⟩]
    exact Or.inr hgone
  exact hg.congr hp' (Apart.release _ c l) rfl

end Read

section NewEvent

/-- `put` enters a connection whose key was absent, and leaves it bare. -/
theorem put_bare (hb : s.Books l cs) (hp : Placed s) (ho : Owns s) (hl : (s.heap c).loop = l)
    (hput : (s.loops l).pc.putting = some c) (pc : ServerPc) :
    ((s.goto l pc).put c).Books l cs ∧ ((s.goto l pc).put c).Bare l c
      ∧ (((s.goto l pc).put c).loops l).epoll.interest = (s.loops l).epoll.interest := by
  obtain ⟨hlt, hlive, hpos⟩ := Owned.of_putting ho hp hput
  have hnone : (s.loops l).connections (s.heap c).fd = none := by
    rw [← hl]
    exact Owned.absent ho hp hlive hpos
  have hf : (s.heap c).fd ≠ s.listenFd := (Owned.isOpen ho c hlive).2
  have hbare : (s.loops l).epoll.interest (s.heap c).fd = none := hb.not_registered hnone hf
  -- the thread going on changes nothing of this
  have hg := Apart.goto s l pc l
  have hb' : (s.goto l pc).Books l cs := hb.congr hp hg
  have hr : Relinked (s.goto l pc) ((s.goto l pc).put c) l (s.heap c).fd (some c) := by
    refine Relinked.put (s := s.goto l pc) hl (hp.formed c hlt).fd ?_
    rw [hg.connections]
    exact hnone
  refine ⟨hb'.relinked hr ?_ (fun c' hc' => ?_) (fun c' hc' => ?_), ⟨?_, ?_⟩, ?_⟩
  · rw [hg.interest]
    exact hbare
  · -- its channel is new
    obtain rfl := Option.some.inj hc'
    have hst : (s.heap c).channel.status ≠ .add :=
      hb.unlinked c hlt hl fun he => by cases hnone.symm.trans he
    refine iff_of_false hst fun hreg => ?_
    have hreg' : ((s.goto l pc).loops l).epoll.interest.registered (s.heap c).channel.fd = true :=
      hreg
    unfold EpollSet.registered at hreg'
    rw [hg.interest, (hp.formed c hlt).fd, hbare] at hreg'
    cases hreg'
  · rw [hg.connections, hnone] at hc'
    cases hc'
  · rw [(hr.kept c).2.1, hr.connections]
    exact Function.update_self ..
  · rw [(hr.kept c).2.1, hr.interest, hg.interest]
    exact hbare
  · rw [hr.interest, hg.interest]

/-- `enable_read` on a bare connection keeps the books, and the channels that
wait. -/
theorem enableRead_bare (hb : s.Books l cs) (hp : Placed s) (ho : Owns s) (hlt : c < s.fresh)
    (hl : (s.heap c).loop = l) (hbare : s.Bare l c) :
    (s.enableRead c).Books l cs
      ∧ ∀ d, s.Handling l d → (s.enableRead c).Handling l d := by
  have hf := ho.fd_ne_listen hp hbare.1
  have hr := Rewired.enableRead hl (hp.formed c hlt).fd (hb.linked _ c hbare.1)
  refine ⟨hb.rewired hp hr hbare.1 hf (fun i hi => ?_) fun c' hc' => Or.inr hc', fun d hd => ?_⟩
  · rw [← Option.some.inj hi]
    exact ⟨rfl, Or.inl (EventMask.has_or_right (by decide))⟩
  · refine ⟨hd.waiting.update hr.interest fun i hi => ?_, hd.once⟩
    rw [hbare.2] at hi
    cases hi

/-- `new_event`, run by `do_pending_functions`, puts. -/
theorem put (h : s.Serves l) (hp : Placed s) (ho : Owns s) {fs : List ConnId} {i : ℕ}
    (hpc : (s.loops l).pc = .put c fs i) : ((s.goto l (.arm c fs i)).put c).Serves l := by
  have hc := hp.conn_at (c := c) hpc List.mem_cons_self
  have hb := (h.standing hpc).1
  obtain ⟨hb', hbare, -⟩ := put_bare hb hp ho hc.2 (by rw [hpc]; rfl) (.arm c fs i)
  have hpc' : (((s.goto l (.arm c fs i)).put c).loops l).pc = .arm c fs i := by
    rw [pc_put, pc_goto]
  refine ⟨?_, ?_⟩
  · rw [hpc']
    exact hb'
  · rw [hpc']
    exact hbare

/-- And enables. -/
theorem arm (h : s.Serves l) (hp : Placed s) (ho : Owns s) {fs : List ConnId} {i : ℕ}
    (hpc : (s.loops l).pc = .arm c fs i) :
    ((s.enableRead c).goto l (.functors fs (i + 1))).Serves l := by
  have hc := hp.conn_at (c := c) hpc List.mem_cons_self
  obtain ⟨hb, hst⟩ := h.standing hpc
  exact .goto (hp.enableRead hc.1) (hp.advances (.arm hpc))
    (enableRead_bare hb hp ho hc.1 hc.2 hst).1 trivial

variable {k : AcceptCall} {d : Dispatch}

/-- `new_event`, called in place by the acceptor, puts. -/
theorem acceptPut (h : s.Serves l) (hp : Placed s) (ho : Owns s)
    (hpc : (s.loops l).pc = .accept (.put c) k d) :
    ((s.goto l (.accept (.arm c) k d)).put c).Serves l := by
  have hc := hp.conn_at (c := c) hpc List.mem_cons_self
  obtain ⟨hb, hst⟩ := h.standing hpc
  obtain ⟨hb', hbare, hint⟩ := put_bare hb hp ho hc.2 (by rw [hpc]; rfl) (.accept (.arm c) k d)
  have hpc' : (((s.goto l (.accept (.arm c) k d)).put c).loops l).pc = .accept (.arm c) k d := by
    rw [pc_put, pc_goto]
  refine ⟨?_, ?_⟩
  · rw [hpc']
    exact hb'
  · rw [hpc']
    exact ⟨hst.1.congr hint, hst.2.1, hbare⟩

/-- And enables. -/
theorem acceptArm (h : s.Serves l) (hp : Placed s) (ho : Owns s)
    (hpc : (s.loops l).pc = .accept (.arm c) k d) :
    ((s.enableRead c).goto l (.accept (.dropCallback c) k d)).Serves l := by
  have hc := hp.conn_at (c := c) hpc List.mem_cons_self
  obtain ⟨hb, hst⟩ := h.standing hpc
  obtain ⟨hb', hhand⟩ := enableRead_bare hb hp ho hc.1 hc.2 hst.2.2
  exact .goto (hp.enableRead hc.1) (hp.advances (.acceptArm hpc)) hb'
    ⟨hhand d hst.1, hst.2.1, trivial⟩

/-- The acceptor enables the listening channel. -/
theorem rearm (h : s.Serves l) (hp : Placed s) (hpc : (s.loops l).pc = .accept .rearm k d) :
    (s.rearmAcceptor.goto l (.accept .ret k d)).Serves l := by
  have hp' : Placed (s.rearmAcceptor.goto l (.accept .ret k d)) := hp.advances (.rearm hpc)
  obtain rfl := hp.accept_loop hpc
  obtain ⟨hb, hst⟩ := h.standing hpc
  obtain ⟨hw, hd, -⟩ := hst
  have hint := interest_rearmAcceptor hb hp.acceptor.1
  refine .goto hp.rearmAcceptor hp' (hb.rearmAcceptor hp.acceptor.1)
    ⟨⟨hw.waiting.update hint fun i hi hmem => hw.once ?_, hw.once⟩, hd, trivial⟩
  -- what is registered under the listening descriptor is the acceptor
  obtain ⟨-, i', hi', hd'⟩ := hb.listen rfl
  rw [hi, Option.some.injEq] at hi'
  rw [hd, ← hd', ← hi']
  exact hmem

end NewEvent

/-- A thread goes on after an operation that is nothing to its loop. -/
theorem then_goto (h : s.Serves l) (hp : Placed s) {s₁ : TCPServer} {pc₀ pc : ServerPc}
    (hpc : (s.loops l).pc = pc₀) (ha : Apart s s₁ l) (hp₁ : Placed s₁)
    (hp' : Placed (s₁.goto l pc)) (hcl : pc.closing = pc₀.closing)
    (hm : pc.pointers ⊆ pc₀.pointers) (hst : s.Stands l pc₀ → s.Stands l pc) :
    (s₁.goto l pc).Serves l := by
  obtain ⟨hb₀, hst₀⟩ := h.standing hpc
  refine .goto hp₁ hp' ?_ ((hst hst₀).congr ha fun c hc => hp.conn_at hpc (hm hc))
  rw [hcl]
  exact hb₀.congr hp ha

/-- A thread goes on and does nothing else. -/
theorem only_goto (h : s.Serves l) (hp : Placed s) {pc₀ pc : ServerPc}
    (hpc : (s.loops l).pc = pc₀) (hp' : Placed (s.goto l pc)) (hcl : pc.closing = pc₀.closing)
    (hst : s.Stands l pc₀ → s.Stands l pc) : (s.goto l pc).Serves l := by
  obtain ⟨hb₀, hst₀⟩ := h.standing hpc
  exact .goto hp hp' (hcl ▸ hb₀) (hst hst₀)

/-- **Every statement of its thread keeps the invariant of a loop.** -/
theorem advances (h : s.Serves l) (hp : Placed s) (ho : Owns s) (hs : s.Advances l s') :
    s'.Serves l := by
  have hp' : Placed s' := hp.advances hs
  cases hs with
  | poll hpc => exact h.only_goto hp hpc hp' rfl id
  | nextNil hpc => exact h.only_goto hp hpc hp' rfl fun _ => trivial
  | @next p active hpc =>
    refine h.only_goto hp hpc hp' rfl fun hw => ?_
    have hnd := List.nodup_cons.mp hw.nodup
    refine ⟨⟨⟨hnd.2, fun p' hp' => hw.disarmed p' (List.mem_cons_of_mem _ hp')⟩, hnd.1⟩,
      fun c hc => ?_⟩
    rw [if_neg fun hor => hor.1.elim (by nofun) (by nofun), ← hc]
    exact hw.disarmed p List.mem_cons_self
  | handleRet hpc hd => exact h.only_goto hp hpc hp' rfl fun hst => hst.1.waiting
  | handle hpc hd => exact h.handle hp hpc hd
  | readRearm hpc => exact h.readRearm hp ho hpc
  | readClose hpc => exact h.readClose hp ho hpc
  | readDestroy hpc => exact h.readDestroy hp ho hpc
  | unlink hpc he => exact h.unlink hp hpc he
  | @unlinkNone c d hpc he =>
    -- the entry is there
    have hc := hp.conn_at (c := c) hpc List.mem_cons_self
    obtain ⟨-, -, -, -, -, hent, -⟩ := h.standing hpc
    have he' : (s.loops (s.heap c).loop).connections (s.heap c).fd = none := he
    rw [hc.2, hent] at he'
    cases he'
  | readRelease hpc => exact h.releaseEntry hp hpc
  | nextLoop hpc =>
    exact h.then_goto hp hpc (Apart.getNextLoop s l) hp.getNextLoop hp' rfl (List.Subset.refl _) id
  | limitClose hpc hfd =>
    exact h.then_goto hp hpc (Apart.close s _ l) (hp.of_openFds _ s.next) hp' rfl
      (List.Subset.refl _) id
  | limit hpc hfd => exact h.only_goto hp hpc hp' rfl id
  | construct hpc =>
    exact h.then_goto hp hpc (Apart.construct s _ _ l) (hp.construct _ _) hp' rfl
      (List.Subset.refl _) id
  | @runHere c k d hpc hl =>
    obtain ⟨hb₀, hst₀⟩ := h.standing hpc
    refine .goto (hp.retain c) hp' (hb₀.congr hp (Apart.retain s c l)) ?_
    exact ⟨hst₀.1.congr (Apart.retain s c l).interest, hst₀.2.1, trivial⟩
  | @runThere c l' k d hpc hl' hl =>
    have hg : ((s.retain c).goto l (.accept (.dropLocal c) (k.act (.register c l')) d)).Serves l :=
      h.then_goto hp hpc (Apart.retain s c l) (hp.retain c)
        ((hp.retain c).goto_congr hpc (List.Subset.refl _) (List.Subset.refl _)) rfl
        (List.Subset.refl _) id
    refine hg.congr ?_ (Apart.queueNewEvent _ l' c l) (pc_queueNewEvent ..)
    exact (hp.retain c).goto_congr hpc (List.Subset.refl _) (List.Subset.refl _)
  | acceptPut hpc => exact h.acceptPut hp ho hpc
  | acceptArm hpc => exact h.acceptArm hp ho hpc
  | @dropCallback c k d hpc =>
    have hpg : Placed (s.goto l (.accept (.dropLocal c) k d)) :=
      hp.goto_congr hpc (List.Subset.refl _) (List.Subset.refl _)
    exact (h.only_goto hp hpc hpg rfl id).congr hpg (Apart.release _ c l) rfl
  | @dropLocal c k d hpc =>
    have hpg : Placed (s.goto l (.accept .rearm k d)) :=
      hp.goto_congr hpc (List.Subset.refl _) (List.nil_subset _)
    exact (h.only_goto hp hpc hpg rfl id).congr hpg (Apart.release _ c l) rfl
  | rearm hpc => exact h.rearm hp hpc
  | @acceptRet k d hpc =>
    refine h.only_goto hp hpc hp' rfl fun hst => ⟨hst.1, fun c hc => ?_⟩
    rw [hst.2.1] at hc
    cases hc
  | swap hpc =>
    have hb₀ := (h.standing hpc).1
    exact .goto (hp.takePending l) hp' (hb₀.congr hp (Apart.takePending s l l)) trivial
  | functor hpc hc => exact h.only_goto hp hpc hp' rfl fun _ => trivial
  | functorsEnd hpc hc => exact h.only_goto hp hpc hp' rfl fun _ => trivial
  | put hpc => exact h.put hp ho hpc
  | arm hpc => exact h.arm hp ho hpc
  | dropNil hpc =>
    exact h.only_goto hp hpc hp' rfl fun _ => ⟨List.nodup_nil, fun p hp => by cases hp⟩
  | @drop c fs hpc =>
    have hpg : Placed (s.goto l (.drop fs)) :=
      hp.goto_congr hpc (List.subset_cons_self _ _) (List.nil_subset _)
    exact (h.only_goto hp hpc hpg rfl fun _ => trivial).congr hpg (Apart.release _ c l) rfl

/-- **A delivery disarms the channel it reports**, which was not waiting. -/
theorem deliver (h : s.Serves l) (hp : Placed s) {f : Fd} {mask : EventMask}
    {active : List ChannelPtr} {r : EpollSet ChannelPtr × ChannelPtr}
    (hpc : (s.loops l).pc = .poll active)
    (hr : (s.loops l).epoll.interest.deliver f mask = some r) :
    (((s.setInterest l r.1).setRevents r.2 mask).goto l (.poll (active ++ [r.2]))).Serves l := by
  have hmoves : Placed (((s.setInterest l r.1).setRevents r.2 mask).goto l
      (.poll (active ++ [r.2]))) := hp.moves (.deliver hpc hr)
  obtain ⟨i, hi, harmed, -, hd, hK⟩ := EpollSet.deliver_eq_some hr
  obtain ⟨hb, hst⟩ := h.standing hpc
  rw [← hd, hK] at hmoves ⊢
  have hp₁ : Placed (s.setInterest l
      (Function.update (s.loops l).epoll.interest f (some i.delivered))) := by
    refine hp.setInterest fun f' j hj => ?_
    by_cases hf : f' = f
    · rw [hf, Function.update_self, Option.some.injEq] at hj
      rw [← hj]
      exact .interest (i := i) hi
    · rw [Function.update_of_ne hf] at hj
      exact .interest hj
  refine .goto (hp₁.setRevents i.data mask) hmoves (hb.deliver hi) ?_
  have hint : (((s.setInterest l (Function.update (s.loops l).epoll.interest f
        (some i.delivered))).setRevents i.data mask).loops l).epoll.interest
      = Function.update (s.loops l).epoll.interest f (some i.delivered) := by
    rw [loops_setRevents]
    show (Function.update s.loops l _ l).epoll.interest = _
    rw [Function.update_self]
  have hnot : i.data ∉ active := by
    intro hmem
    obtain ⟨f', i', hi', hd', ha'⟩ := hst.disarmed _ hmem
    have hf := hb.data_inj hp hi hi' hd'.symm
    rw [← hf, hi, Option.some.injEq] at hi'
    rw [← hi', harmed] at ha'
    cases ha'
  have hshot : i.events.has epollOneshot = true :=
    (hb.oneshot f i hi).resolve_right fun ⟨c, hc, _⟩ => by cases hc
  have hw := Waiting.update hst hint fun j hj hmem => hnot (by
    rw [Option.some.inj (hi.symm.trans hj)]
    exact hmem)
  refine ⟨?_, fun p hmem => ?_⟩
  · exact List.nodup_append.mpr ⟨hst.nodup, List.nodup_singleton _, fun a ha b hb he =>
      hnot (List.mem_singleton.mp hb ▸ he ▸ ha)⟩
  · rcases List.mem_append.mp hmem with hmem | hmem
    · exact hw.disarmed p hmem
    · rw [List.mem_singleton.mp hmem]
      refine ⟨f, i.delivered, ?_, rfl, ?_⟩
      · rw [hint]
        exact Function.update_self ..
      · show (!i.events.has epollOneshot) = false
        rw [hshot]
        rfl

/-- **Every event of its thread does.** -/
theorem moves {e : ServerEvent} (h : s.Serves e.loop) (hp : Placed s) (ho : Owns s)
    (hs : s.Moves e s') : s'.Serves e.loop := by
  have hp' : Placed s' := hp.moves hs
  cases hs with
  | deliver hpc hr => exact h.deliver hp hpc hr
  | @read l c d n hpc =>
    refine h.only_goto hp hpc hp' ?_ fun ⟨hw, hd, hs, hin, hdis⟩ => ⟨hw, hd, hs, hin, ?_⟩
    · unfold afterRead
      split
      · rfl
      · split <;> rfl
    · have hdis' : s.Disarmed l (.conn c) := hdis
      unfold afterRead
      split
      · exact hdis'
      · split <;> exact hdis'
  | @accept l k d r hpc hr =>
    refine h.then_goto hp hpc (Apart.accepted s r l) (hp.of_openFds _ s.next) hp' rfl ?_
      fun ⟨hw, hd, _⟩ => ⟨hw, hd, ?_⟩
    · unfold afterAccept
      split <;> exact List.Subset.refl _
    · unfold afterAccept
      split <;> trivial
  | flags hpc hfd => exact h.only_goto hp hpc hp' rfl id
  | noFlags hpc => exact h.only_goto hp hpc hp' rfl id
  | advance hs => exact h.advances hp ho hs

/-- The interest lists of a new server. -/
theorem interest_new (n : ℕ) (fd : Fd) (others : Finset Fd) (l : LoopId) :
    ((TCPServer.new n fd others).loops l).epoll.interest
      = if l = 0 then Function.update EpollSet.empty fd
          (some ⟨Channel.noneEvent ||| Channel.readEvent, .acceptor, true⟩)
        else EpollSet.empty := by
  have hk : Channel.Known (C := Handler) (Epoll.new (D := ChannelPtr))
      { Channel.new fd with readHandler := some Handler.handleNewConn } :=
    iff_of_false (by nofun) (by nofun)
  unfold TCPServer.new
  dsimp only
  split
  · exact Channel.enableRead_interest hk
  · rfl

/-- Nothing is registered with a new loop but the acceptor. -/
theorem new (n : ℕ) (fd : Fd) (others : Finset Fd) (l : LoopId) :
    (TCPServer.new n fd others).Serves l where
  books := by
    have hint := interest_new n fd others l
    -- what is registered, and under which descriptor
    have hreg : ∀ {f i}, ((TCPServer.new n fd others).loops l).epoll.interest f = some i →
        l = 0 ∧ f = fd ∧ i = ⟨Channel.noneEvent ||| Channel.readEvent, .acceptor, true⟩ := by
      intro f i hi
      rw [hint] at hi
      split at hi
      · by_cases hf : f = fd
        · rw [hf, Function.update_self, Option.some.injEq] at hi
          exact ⟨‹l = 0›, hf, hi.symm⟩
        · rw [Function.update_of_ne hf] at hi
          cases hi
      · cases hi
    refine ⟨fun f i hi => ?_, nofun, fun c hlt => absurd hlt (Nat.not_lt_zero c),
      fun hl => ⟨?_, ?_⟩, fun f i hi => ?_⟩
    · obtain ⟨hl, hf, he⟩ := hreg hi
      exact Or.inl ⟨hl, hf, he ▸ rfl⟩
    · exact congrArg Channel.status (Channel.enableRead_snd ..)
    · rw [hint, if_pos hl]
      exact ⟨_, Function.update_self .., rfl⟩
    · obtain ⟨-, -, he⟩ := hreg hi
      rw [he]
      exact Or.inl (by decide)
  stands := ⟨List.nodup_nil, fun p hp => by cases hp⟩

end Serves

/-- **In every reachable state every loop meets its invariant.** -/
theorem reachable_serves {n : ℕ} {fd : Fd} {others : Finset Fd} {s : TCPServer}
    (h : (machine n fd others).Reachable s) (l : LoopId) : s.Serves l := by
  have hall : (Placed s ∧ Owns s) ∧ ∀ l, s.Serves l := by
    refine h.invariant (I := fun s => (Placed s ∧ Owns s) ∧ ∀ l, s.Serves l)
      ⟨⟨Placed.new n fd others, Owns.new n fd others⟩, Serves.new n fd others⟩ ?_
    intro s e s' ⟨⟨hp, ho⟩, hs⟩ hstep
    have hm : s.Moves e s' := .of_step hstep
    refine ⟨⟨hp.moves hm, ho.moves hp hm⟩, fun l => ?_⟩
    by_cases hl : e.loop = l
    · exact hl ▸ (hs e.loop).moves hp ho hm
    · obtain ⟨ha, hpc⟩ := hm.apart hp hl
      exact (hs l).congr hp ha hpc
  exact hall.2 l

/-! ## When `handle_events` returns -/

/-- **The connection has left**: it is neither in `connections_` nor in the
interest list. -/
def Removed (s : TCPServer) (l : LoopId) (c : ConnId) : Prop :=
  (∀ f, (s.loops l).connections f ≠ some c)
    ∧ ∀ f i, (s.loops l).epoll.interest f = some i → i.data ≠ .conn c

/-- A connection that is not entered under its descriptor has left. -/
theorem Serves.removed (h : s.Serves l) (hp : Placed s)
    (hc : (s.loops l).connections (s.heap c).fd ≠ some c) : s.Removed l c := by
  refine ⟨fun f hf => ?_, fun f i hi hd => ?_⟩
  · rw [hp.entries l f c hf] at hc
    exact hc hf
  · exact hc (Registered.entry ⟨f, i, hi, hd⟩ h.books hp)

/-- A disarmed connection is neither listening nor has it left. -/
theorem Disarmed.deaf (h : s.Disarmed l (.conn c)) (hs : s.Serves l) (hp : Placed s) :
    ¬ (s.Armed l c ∨ s.Removed l c) := by
  obtain ⟨f, i, hi, hd, ha⟩ := h
  rintro (⟨-, i', hi', hd', ha', -⟩ | hr)
  · have hf := hs.books.data_inj hp hi hi' (hd.trans hd'.symm)
    rw [← hf, hi, Option.some.injEq] at hi'
    rw [← hi', ha] at ha'
    cases ha'
  · exact hr.2 f i hi hd

/-- **A connection is not left deaf exactly if its events contain input.** In
every run of a server, when `handle_events` returns for a connection, the
connection is in `connections_` with its read interest armed, or has left both
`connections_` and the interest list, if and only if the events that were
delivered for it contain `EPOLLIN`. -/
theorem not_deaf_iff {n : ℕ} {fd : Fd} {others : Finset Fd} {s : TCPServer} {l : LoopId}
    {c : ConnId} {active : List ChannelPtr} (h : (machine n fd others).Reachable s)
    (hpc : (s.loops l).pc = .handle ⟨.conn c, .ret, active⟩) :
    (s.Armed l c ∨ s.Removed l c) ↔ (s.heap c).channel.revent.has epollIn = true := by
  have hp : Placed s := reachable_placed h
  have hs : s.Serves l := reachable_serves h l
  have hst := hs.stands
  rw [hpc] at hst
  have hh := hst.2 c rfl
  by_cases hin : (s.heap c).channel.revent.has epollIn = true
  · rw [if_pos ⟨Or.inr rfl, hin⟩] at hh
    exact iff_of_true (hh.imp id (hs.removed hp)) hin
  · rw [if_neg fun hor => hin hor.2] at hh
    exact iff_of_false (hh.deaf hs hp) hin

/-- The connection 0 is accepted on the base loop and served by it. -/
def serveOne : List ServerEvent :=
  [.deliver 0 3 epollIn, .step 0, .step 0, .step 0, .step 0, .step 0, .accept 0 10,
    .step 0, .step 0, .flags 0 true] ++ List.replicate 14 (.step 0)

/-- After data was read the connection is listening again. -/
theorem not_deaf_input :
    ∃ s : TCPServer, (machine 0 3 ∅).exec (machine 0 3 ∅).init
        (serveOne ++ [.deliver 0 10 (epollIn ||| epollHup), .step 0, .step 0, .step 0, .step 0,
          .step 0, .read 0 100, .step 0, .step 0]) = some s
      ∧ (s.loops 0).pc = .handle ⟨.conn 0, .ret, []⟩ ∧ (s.Armed 0 0 ∨ s.Removed 0 0) := by
  have hend : ((machine 0 3 ∅).exec (machine 0 3 ∅).init
      (serveOne ++ [.deliver 0 10 (epollIn ||| epollHup), .step 0, .step 0, .step 0, .step 0,
        .step 0, .read 0 100, .step 0, .step 0])).map
        (fun s => ((s.loops 0).pc, (s.heap 0).channel.revent.has epollIn))
      = some (.handle ⟨.conn 0, .ret, []⟩, true) := by decide +kernel
  obtain ⟨s, hrun, hs⟩ := Option.map_eq_some_iff.mp hend
  obtain ⟨hpc, hin⟩ := Prod.mk.inj hs
  exact ⟨s, hrun, hpc, (not_deaf_iff ⟨_, hrun⟩ hpc).mpr hin⟩

/-- **A hang-up alone leaves the connection deaf.** It stays entered and
registered, and no event of it is delivered any more. -/
theorem deaf_hangUp :
    ∃ s : TCPServer, (machine 0 3 ∅).exec (machine 0 3 ∅).init
        (serveOne ++ [.deliver 0 10 epollHup, .step 0, .step 0, .step 0]) = some s
      ∧ (s.loops 0).pc = .handle ⟨.conn 0, .ret, []⟩ ∧ ¬ (s.Armed 0 0 ∨ s.Removed 0 0) := by
  have hend : ((machine 0 3 ∅).exec (machine 0 3 ∅).init
      (serveOne ++ [.deliver 0 10 epollHup, .step 0, .step 0, .step 0])).map
        (fun s => ((s.loops 0).pc, (s.heap 0).fd, (s.loops 0).connections 10,
          ((s.loops 0).epoll.interest 10).map Interest.armed))
      = some (.handle ⟨.conn 0, .ret, []⟩, 10, some 0, some false) := by decide +kernel
  obtain ⟨s, hrun, hs⟩ := Option.map_eq_some_iff.mp hend
  obtain ⟨hpc, hs⟩ := Prod.mk.inj hs
  obtain ⟨hfd, hs⟩ := Prod.mk.inj hs
  obtain ⟨hcon, harmed⟩ := Prod.mk.inj hs
  refine ⟨s, hrun, hpc, ?_⟩
  rintro (⟨-, i, hi, -, ha, -⟩ | ⟨hc, -⟩)
  · rw [hfd] at hi
    rw [hi, Option.map_some, Option.some.injEq, ha] at harmed
    cases harmed
  · exact hc 10 hcon

end TCPServer
