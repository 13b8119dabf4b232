import Shoot.EpollSet

/-!
# Channels

A `Channel` carries the interest of one descriptor in the events of a loop:
the mask `event_` it wants, the mask `revent_` it was last given, a status
that remembers whether the kernel knows about it, and four optional callbacks.
The six operations that change the interest all go through
`EventLoop::update_channel` or `EventLoop::remove_channel`, which choose an
`epoll_ctl` operation by the status and ignore its result.

`Channel::handle_events` tests `revent_` four times, and calls a callback
after each test that holds. A callback may do anything – change the channel,
or destroy it – so the function is given here test by test: `handleEvents`
reads the channel at one of its tests and says which callback runs there and
which test comes next.

The callbacks are of an arbitrary type, and so are the pointers to channels
that the kernel gives back with an event.
-/

/-- `channelStatus`. -/
inductive ChannelStatus where
  | new | add | del
deriving DecidableEq, Repr

/-- **A channel**, with callbacks in `C`. Its loop is the one that holds it. -/
structure Channel (C : Type*) where
  /-- `event_`, what the channel wants. -/
  event : EventMask
  /-- `revent_`, what it was given. -/
  revent : EventMask
  /-- `fd`. -/
  fd : Fd
  /-- `status`. -/
  status : ChannelStatus
  /-- `read_handler_`. -/
  readHandler : Option C
  /-- `write_handler_`. -/
  writeHandler : Option C
  /-- `error_handler_`. -/
  errorHandler : Option C
  /-- `close_handler_`. -/
  closeHandler : Option C

/-- A call of `epoll_ctl`, as the kernel sees it. -/
structure CtlCall where
  /-- The operation. -/
  op : CtlOp
  /-- The descriptor. -/
  fd : Fd
  /-- Whether the descriptor was registered when the call was made. -/
  registered : Bool
deriving DecidableEq, Repr

/-- **An `Epoll`**, whose channels are named by `D`: the kernel's set, and the
calls that were made to it. -/
structure Epoll (D : Type*) where
  /-- The set behind `epoll_fd_`. -/
  interest : EpollSet D
  /-- The calls of `epoll_ctl` so far; nothing reads them. -/
  calls : List CtlCall

variable {C D : Type*}

namespace Epoll

/-- A new `Epoll`. -/
def new : Epoll D := ⟨.empty, []⟩

/-- The body that `epoll_add`, `epoll_mod` and `epoll_del` share: `epoll_ctl`
with the channel's descriptor, its `event_` and its address, the result of
which is not used. -/
def ctl (ep : Epoll D) (p : D) (ch : Channel C) (op : CtlOp) : Epoll D where
  interest := ep.interest.ctl op ch.fd ch.event p
  calls := ep.calls ++ [⟨op, ch.fd, ep.interest.registered ch.fd⟩]

/-- `Epoll::epoll_add`. -/
def epollAdd (ep : Epoll D) (p : D) (ch : Channel C) (op : CtlOp) : Epoll D := ep.ctl p ch op

/-- `Epoll::epoll_mod`. -/
def epollMod (ep : Epoll D) (p : D) (ch : Channel C) (op : CtlOp) : Epoll D := ep.ctl p ch op

/-- `Epoll::epoll_del`. -/
def epollDel (ep : Epoll D) (p : D) (ch : Channel C) (op : CtlOp) : Epoll D := ep.ctl p ch op

end Epoll

/-- `EventLoop::update_channel`. -/
def EventLoop.updateChannel (ep : Epoll D) (p : D) (ch : Channel C) : Epoll D × Channel C :=
  if ch.status = .new ∨ ch.status = .del then
    (ep.epollAdd p { ch with status := .add } .add, { ch with status := .add })
  else if ch.status = .add then (ep.epollMod p ch .mod, ch)
  else (ep, ch)

/-- `EventLoop::remove_channel`. -/
def EventLoop.removeChannel (ep : Epoll D) (p : D) (ch : Channel C) : Epoll D × Channel C :=
  (ep.epollDel p ch .del, { ch with status := .new })

namespace Channel

/-- `Channel::none_event`. -/
def noneEvent : EventMask := 0

/-- `Channel::read_event`. -/
def readEvent : EventMask := epollIn ||| epollOneshot ||| epollPri

/-- `Channel::write_event`. -/
def writeEvent : EventMask := epollOut ||| epollOneshot

/-- The constructor. -/
def new (fd : Fd) : Channel C where
  event := 0
  revent := 0
  fd := fd
  status := .new
  readHandler := none
  writeHandler := none
  errorHandler := none
  closeHandler := none

/-- `Channel::update`. -/
def update (ep : Epoll D) (p : D) (ch : Channel C) : Epoll D × Channel C :=
  EventLoop.updateChannel ep p ch

/-- `Channel::remove`. -/
def remove (ep : Epoll D) (p : D) (ch : Channel C) : Epoll D × Channel C :=
  EventLoop.removeChannel ep p ch

/-- `Channel::enable_read`. -/
def enableRead (ep : Epoll D) (p : D) (ch : Channel C) : Epoll D × Channel C :=
  update ep p { ch with event := ch.event ||| readEvent }

/-- `Channel::enable_write`. -/
def enableWrite (ep : Epoll D) (p : D) (ch : Channel C) : Epoll D × Channel C :=
  update ep p { ch with event := ch.event ||| writeEvent }

/-- `Channel::disable_read`. -/
def disableRead (ep : Epoll D) (p : D) (ch : Channel C) : Epoll D × Channel C :=
  update ep p { ch with event := ch.event &&& ~~~readEvent }

/-- `Channel::disable_write`. -/
def disableWrite (ep : Epoll D) (p : D) (ch : Channel C) : Epoll D × Channel C :=
  update ep p { ch with event := ch.event &&& ~~~writeEvent }

/-- `Channel::disalbel_all`. -/
def disalbelAll (ep : Epoll D) (p : D) (ch : Channel C) : Epoll D × Channel C :=
  update ep p { ch with event := noneEvent }

/-- **Where a call of `handle_events` stands**: before one of its tests, or
about to return. -/
inductive HandlePc where
  /-- Before the test for `EPOLLHUP` without `EPOLLIN`. -/
  | hup
  /-- Before the test for `EPOLLERR`. -/
  | err
  /-- Before the test for `EPOLLIN`. -/
  | read
  /-- Before the test for `EPOLLOUT`. -/
  | write
  /-- About to return. -/
  | ret
deriving DecidableEq, Repr

/-- **`Channel::handle_events`, one test of it**: the callback that runs, if
any, and where the call stands after it. -/
def handleEvents (ch : Channel C) : HandlePc → Option C × HandlePc
  | .hup =>
    if ch.revent.has epollHup ∧ ¬ ch.revent.has epollIn then (ch.closeHandler, .ret)
    else (none, .err)
  | .err => (if ch.revent.has epollErr then ch.errorHandler else none, .read)
  | .read => (if ch.revent.has epollIn then ch.readHandler else none, .write)
  | .write => (if ch.revent.has epollOut then ch.writeHandler else none, .ret)
  | .ret => (none, .ret)

/-! ## What the operations do -/

section Operations

variable {ep : Epoll D} {p : D} {ch : Channel C}

/-- **The status tells whether the kernel knows the descriptor.** -/
def Known (ep : Epoll D) (ch : Channel C) : Prop :=
  ch.status = .add ↔ ep.interest.registered ch.fd = true

/-- An update leaves the channel with the status `ADD`. -/
@[simp] theorem update_snd (ep : Epoll D) (p : D) (ch : Channel C) :
    (update ep p ch).2 = { ch with status := .add } := by
  unfold update EventLoop.updateChannel
  split
  · rfl
  · split
    · rename_i _ h
      rw [← h]
    · cases h : ch.status <;> simp_all

/-- An update of a channel whose status is right registers what it wants,
with one call of the operation that the kernel expects. -/
theorem update_fst (h : Known ep ch) : (update ep p ch).1 = {
    interest := Function.update ep.interest ch.fd (some ⟨ch.event, p, true⟩)
    calls := ep.calls ++ [⟨if ch.status = .add then .mod else .add, ch.fd,
      ep.interest.registered ch.fd⟩] } := by
  unfold update EventLoop.updateChannel
  by_cases hs : ch.status = .add
  · obtain ⟨i, hi⟩ := Option.isSome_iff_exists.mp (h.mp hs)
    rw [hs, if_neg (by decide), if_pos rfl, if_pos rfl]
    show Epoll.mk _ _ = _
    rw [EpollSet.ctl_mod hi]
  · have hi : ep.interest ch.fd = none := by
      rw [← Option.not_isSome_iff_eq_none]
      exact fun hr => hs (h.mpr hr)
    have hnew : ch.status = .new ∨ ch.status = .del := by
      cases hc : ch.status <;> simp_all
    rw [if_pos hnew, if_neg hs]
    show Epoll.mk _ _ = _
    rw [EpollSet.ctl_add hi]

/-- `enable_read` arms the registration. -/
theorem enableRead_interest (h : Known ep ch) : (ch.enableRead ep p).1.interest
    = Function.update ep.interest ch.fd (some ⟨ch.event ||| readEvent, p, true⟩) := by
  have hk : Known ep { ch with event := ch.event ||| readEvent } := h
  exact congrArg Epoll.interest (update_fst hk)

@[simp] theorem enableRead_snd (ep : Epoll D) (p : D) (ch : Channel C) :
    (ch.enableRead ep p).2 = { ch with event := ch.event ||| readEvent, status := .add } :=
  update_snd ep p { ch with event := ch.event ||| readEvent }

/-- `disalbel_all` registers for nothing. -/
theorem disalbelAll_interest (h : Known ep ch) : (ch.disalbelAll ep p).1.interest
    = Function.update ep.interest ch.fd (some ⟨noneEvent, p, true⟩) := by
  have hk : Known ep { ch with event := noneEvent } := h
  exact congrArg Epoll.interest (update_fst hk)

@[simp] theorem disalbelAll_snd (ep : Epoll D) (p : D) (ch : Channel C) :
    (ch.disalbelAll ep p).2 = { ch with event := noneEvent, status := .add } :=
  update_snd ep p { ch with event := noneEvent }

/-- A removal leaves the descriptor unregistered. -/
@[simp] theorem remove_interest (ep : Epoll D) (p : D) (ch : Channel C) :
    (remove ep p ch).1.interest = Function.update ep.interest ch.fd none :=
  EpollSet.ctl_del

@[simp] theorem remove_snd (ep : Epoll D) (p : D) (ch : Channel C) :
    (remove ep p ch).2 = { ch with status := .new } := rfl

/-- An operation on the interest of a channel: it registers nothing but the
channel, and changes nothing in it but `event_` and the status. -/
structure Operation (f : Epoll D → D → Channel C → Epoll D × Channel C) : Prop where
  data : ∀ {ep p ch fd i}, (f ep p ch).1.interest fd = some i →
    i.data = p ∨ ep.interest fd = some i
  keeps : ∀ ep p ch, (f ep p ch).2
    = { ch with event := (f ep p ch).2.event, status := (f ep p ch).2.status }

/-- An update is one, whatever it first does to `event_`. -/
theorem operation_update (g : EventMask → EventMask) :
    Operation fun ep p (ch : Channel C) =>
      update (D := D) ep p { ch with event := g ch.event } where
  data {ep p ch fd i} h := by
    unfold update EventLoop.updateChannel at h
    split at h
    · exact EpollSet.data_of_ctl h
    · split at h
      · exact EpollSet.data_of_ctl h
      · exact Or.inr h
  keeps ep p ch := by
    rw [update_snd]

theorem operation_remove :
    Operation fun ep p (ch : Channel C) => remove (D := D) ep p ch where
  data h := EpollSet.data_of_ctl h
  keeps _ _ _ := rfl

/-- **The kernel knows what the channel says**: whether the descriptor is
registered, and then for the events of `event_` and under the address of the
channel. -/
structure Tracked (ep : Epoll D) (p : D) (ch : Channel C) : Prop where
  known : Known ep ch
  asked : ∀ i, ep.interest ch.fd = some i → i.events = ch.event ∧ i.data = p

/-- Nothing but the registration of the descriptor matters. -/
theorem Tracked.congr {ep' : Epoll D} (h : Tracked ep p ch)
    (he : ep'.interest ch.fd = ep.interest ch.fd) : Tracked ep' p ch := by
  refine ⟨?_, he ▸ h.asked⟩
  unfold Known EpollSet.registered
  rw [he]
  exact h.known

/-- An update makes the kernel know what the channel says now. -/
theorem tracked_update (h : Known ep ch) :
    Tracked (update ep p ch).1 p (update ep p ch).2 := by
  have hi : (update ep p ch).1.interest ch.fd = some ⟨ch.event, p, true⟩ := by
    rw [update_fst h]
    exact Function.update_self ..
  rw [update_snd]
  refine ⟨iff_of_true rfl ?_, fun i hi' => ?_⟩
  · exact congrArg Option.isSome hi
  · cases hi.symm.trans hi'
    exact ⟨rfl, rfl⟩

/-- After a removal there is nothing to know. -/
theorem tracked_remove : Tracked (remove ep p ch).1 p (remove ep p ch).2 := by
  have hi : (remove ep p ch).1.interest ch.fd = none := by
    rw [remove_interest]
    exact Function.update_self ..
  refine ⟨iff_of_false (fun hs => by cases hs) fun hr => ?_, fun i hi' => ?_⟩
  · exact Bool.false_ne_true ((congrArg Option.isSome hi).symm.trans hr)
  · cases hi.symm.trans hi'

end Operations

end Channel
