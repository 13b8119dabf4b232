import Shoot.Channel
import Shoot.Machine

/-!
# The channels of a loop and the kernel's interest list

A loop has any number of channels on distinct descriptors. Their owners
enable, disable and remove them in any order, and the kernel delivers events
for the registered descriptors in between. The result of `epoll_ctl` is never
looked at, so nothing but the bookkeeping itself keeps the status of a channel
in step with the kernel.

It does (`ChannelLoop.bookkeeping`). The status of a channel is `ADD` exactly
when its descriptor is registered; the mask the kernel was last given for it
is `event_`; and no addition or modification is ever made that the kernel
would refuse. A deletion can be refused – `remove` on a channel that was never
added makes one – and that one does no harm.
-/

/-- **The channels of one loop**, named by `ι`, and its `Epoll`. -/
structure ChannelLoop (ι C : Type*) where
  /-- `poll_`. -/
  epoll : Epoll ι
  /-- The channels. -/
  channel : ι → Channel C

/-- The operations on the interest of a channel. -/
inductive ChannelOp where
  | enableRead | enableWrite | disableRead | disableWrite | disalbelAll | remove
deriving DecidableEq, Repr

/-- The events of the channels of a loop. -/
inductive ChannelEvent (ι : Type*) where
  /-- An operation on a channel. -/
  | op (o : ChannelOp) (i : ι)
  /-- `Epoll::poll` gets an event for a descriptor. -/
  | deliver (fd : Fd) (mask : EventMask)

/-- A call that the kernel accepts, unless it is a deletion. -/
def CtlCall.Sound (call : CtlCall) : Prop :=
  (call.op = .add → call.registered = false) ∧ (call.op = .mod → call.registered = true)

namespace ChannelOp

variable {ι C : Type*}

/-- The operation itself. -/
def run (o : ChannelOp) (ep : Epoll ι) (i : ι) (ch : Channel C) : Epoll ι × Channel C :=
  match o with
  | .enableRead => ch.enableRead ep i
  | .enableWrite => ch.enableWrite ep i
  | .disableRead => ch.disableRead ep i
  | .disableWrite => ch.disableWrite ep i
  | .disalbelAll => ch.disalbelAll ep i
  | .remove => ch.remove ep i

/-- **An operation changes `event_` and updates the channel, or removes it.** -/
theorem run_eq (o : ChannelOp) (ep : Epoll ι) (i : ι) (ch : Channel C) :
    (∃ e, o.run ep i ch = Channel.update ep i { ch with event := e })
      ∨ o.run ep i ch = ch.remove ep i := by
  cases o with
  | remove => exact Or.inr rfl
  | _ => exact Or.inl ⟨_, rfl⟩

end ChannelOp

namespace ChannelLoop

variable {ι C : Type*} [DecidableEq ι]

/-- New channels on the given descriptors. -/
def new (fd : ι → Fd) : ChannelLoop ι C := ⟨.new, fun i => .new (fd i)⟩

/-- The loop after an operation on a channel. -/
def put (s : ChannelLoop ι C) (i : ι) (r : Epoll ι × Channel C) : ChannelLoop ι C :=
  ⟨r.1, Function.update s.channel i r.2⟩

/-- One event of the channels. -/
def step (s : ChannelLoop ι C) : ChannelEvent ι → Option (ChannelLoop ι C)
  | .op o i => some (s.put i (o.run s.epoll i (s.channel i)))
  | .deliver fd mask =>
    (s.epoll.interest.deliver fd mask).map fun r =>
      { epoll := { s.epoll with interest := r.1 }
        channel := Function.update s.channel r.2 { s.channel r.2 with revent := mask } }

/-- **The channels of a loop**, as a machine. -/
def machine (fd : ι → Fd) : Machine (ChannelLoop ι C) (ChannelEvent ι) := ⟨new fd, step⟩

/-- **The books agree**: the kernel knows what each of the channels says, and
refused none of the additions and modifications. -/
structure Agrees (fd : ι → Fd) (s : ChannelLoop ι C) : Prop where
  fds : ∀ i, (s.channel i).fd = fd i
  tracked : ∀ i, (s.channel i).Tracked s.epoll i
  sound : ∀ call ∈ s.epoll.calls, call.Sound

section Agrees

variable {fd : ι → Fd} {s : ChannelLoop ι C}

omit [DecidableEq ι] in
/-- The channels of a new loop are unknown to the kernel. -/
theorem agrees_new (fd : ι → Fd) : Agrees (C := C) fd (.new fd) where
  fds _ := rfl
  tracked _ := ⟨iff_of_false (fun h => by cases h) (fun h => by cases h), fun _ h => by cases h⟩
  sound _ h := by cases h

/-- The books still agree after a change of one channel, if they agree about
that one and the registrations of the others are left alone. -/
theorem Agrees.put (hfd : Function.Injective fd) (h : Agrees fd s) (i : ι)
    {r : Epoll ι × Channel C} (hrfd : r.2.fd = fd i) (hr : r.2.Tracked r.1 i)
    (hframe : ∀ f, f ≠ fd i → r.1.interest f = s.epoll.interest f)
    (hcalls : ∀ call ∈ r.1.calls, call.Sound) : Agrees fd (s.put i r) where
  fds := (Function.forall_update_iff s.channel fun j ch => ch.fd = fd j).mpr
    ⟨hrfd, fun j _ => h.fds j⟩
  tracked := by
    refine (Function.forall_update_iff s.channel fun j ch => ch.Tracked r.1 j).mpr
      ⟨hr, fun j hj => (h.tracked j).congr (hframe _ ?_)⟩
    rw [h.fds j]
    exact hfd.ne hj
  sound := hcalls

/-- An update keeps the books in agreement: the call it makes is the one the
kernel accepts. -/
theorem Agrees.update (hfd : Function.Injective fd) (h : Agrees fd s) (i : ι) (e : EventMask) :
    Agrees fd (s.put i (Channel.update s.epoll i { s.channel i with event := e })) := by
  have hk : Channel.Known s.epoll { s.channel i with event := e } := (h.tracked i).known
  refine h.put hfd i ?_ (Channel.tracked_update hk) (fun f hf => ?_) (fun call hc => ?_)
  · rw [Channel.update_snd]
    exact h.fds i
  · rw [Channel.update_fst hk]
    exact Function.update_of_ne (h.fds i ▸ hf) _ _
  · rw [Channel.update_fst hk] at hc
    rcases List.mem_append.mp hc with hc | hc
    · exact h.sound call hc
    rw [List.mem_singleton.mp hc]
    show (_ = CtlOp.add → _) ∧ (_ = CtlOp.mod → _)
    -- the operation is chosen by the status, and the status is right
    by_cases hs : (s.channel i).status = .add
    · rw [if_pos hs]
      exact ⟨fun ho => (by cases ho), fun _ => hk.mp hs⟩
    · rw [if_neg hs]
      exact ⟨fun _ => Bool.eq_false_iff.mpr fun hr => hs (hk.mpr hr), fun ho => by cases ho⟩

/-- So does a removal, even of a channel the kernel does not know. -/
theorem Agrees.remove (hfd : Function.Injective fd) (h : Agrees fd s) (i : ι) :
    Agrees fd (s.put i ((s.channel i).remove s.epoll i)) := by
  refine h.put hfd i (h.fds i) Channel.tracked_remove (fun f hf => ?_) (fun call hc => ?_)
  · rw [Channel.remove_interest]
    exact Function.update_of_ne (h.fds i ▸ hf) _ _
  · rcases List.mem_append.mp hc with hc | hc
    · exact h.sound call hc
    rw [List.mem_singleton.mp hc]
    exact ⟨fun ho => (by cases ho), fun ho => (by cases ho)⟩

/-- A delivery changes neither what is registered nor what the channels say. -/
theorem Agrees.deliver (h : Agrees fd s) {f : Fd} {mask : EventMask} {r : EpollSet ι × ι}
    (hr : s.epoll.interest.deliver f mask = some r) :
    Agrees fd {
      epoll := { s.epoll with interest := r.1 }
      channel := Function.update s.channel r.2 { s.channel r.2 with revent := mask } } := by
  obtain ⟨x, hx, -, -, -, hK⟩ := EpollSet.deliver_eq_some hr
  -- every registration keeps its events and its data
  have hkeep : ∀ i, (s.channel i).Tracked { s.epoll with interest := r.1 } i := by
    intro i
    by_cases hf : (s.channel i).fd = f
    · have hold := h.tracked i
      have hreg : r.1 (s.channel i).fd = some x.delivered := by
        rw [hK, hf, Function.update_self]
      refine ⟨?_, fun y hy => ?_⟩
      · refine hold.known.trans (iff_of_true ?_ ?_)
        · rw [EpollSet.registered, hf, hx]
          rfl
        · exact congrArg Option.isSome hreg
      · cases hreg.symm.trans hy
        exact hold.asked x (hf ▸ hx)
    · refine (h.tracked i).congr ?_
      rw [hK]
      exact Function.update_of_ne hf _ _
  refine ⟨?_, ?_, h.sound⟩
  · exact (Function.forall_update_iff s.channel fun j ch => ch.fd = fd j).mpr
      ⟨h.fds r.2, fun j _ => h.fds j⟩
  · exact (Function.forall_update_iff s.channel fun j ch =>
      ch.Tracked { s.epoll with interest := r.1 } j).mpr
        ⟨⟨(hkeep r.2).known, (hkeep r.2).asked⟩, fun j _ => hkeep j⟩

/-- **Every event keeps the books in agreement.** -/
theorem Agrees.step (hfd : Function.Injective fd) (h : Agrees fd s) {e : ChannelEvent ι}
    {s' : ChannelLoop ι C} (hs : s.step e = some s') : Agrees fd s' := by
  cases e with
  | op o i =>
    cases hs
    rcases o.run_eq s.epoll i (s.channel i) with ⟨e, ho⟩ | ho
    · rw [ho]
      exact h.update hfd i e
    · rw [ho]
      exact h.remove hfd i
  | deliver f mask =>
    obtain ⟨r, hr, hs⟩ := Option.map_eq_some_iff.mp hs
    cases hs
    exact h.deliver hr

end Agrees

/-- **The bookkeeping of the channels refines the kernel's interest list.**
After any operations on any channels of a loop and any deliveries, in any
order, the status of a channel is `ADD` exactly when its descriptor is
registered; the kernel was last given the events of `event_` for it; and every
addition that was made found the descriptor unregistered, every modification
found it registered. -/
theorem bookkeeping {fd : ι → Fd} (hfd : Function.Injective fd) {s : ChannelLoop ι C}
    (h : (machine fd).Reachable s) :
    (∀ i, (s.channel i).status = .add ↔ s.epoll.interest.registered (fd i) = true)
      ∧ (∀ i x, s.epoll.interest (fd i) = some x →
          x.events = (s.channel i).event ∧ x.data = i)
      ∧ ∀ call ∈ s.epoll.calls,
          (call.op = .add → call.registered = false)
            ∧ (call.op = .mod → call.registered = true) := by
  have hi : Agrees fd s := h.invariant (agrees_new fd) fun _ _ _ hi hs => hi.step hfd hs
  refine ⟨fun i => ?_, fun i x hx => ?_, hi.sound⟩
  · rw [← hi.fds i]
    exact (hi.tracked i).known
  · exact (hi.tracked i).asked x ((hi.fds i).symm ▸ hx)

/-- A channel is removed before it was ever added, enabled, delivered an event
and enabled for writing too. -/
theorem bookkeeping_two :
    ∃ s : ChannelLoop Bool Unit, (machine fun b => if b then 5 else 6).exec
        (machine fun b => if b then 5 else 6).init
        [.op .remove true, .op .enableRead true, .deliver 5 epollIn, .op .enableWrite true]
          = some s
      ∧ (s.channel true).status = .add
      ∧ (s.epoll.interest.registered 5 = true ∧ s.epoll.interest.registered 6 = false)
      ∧ s.epoll.calls.map CtlCall.op = [.del, .add, .mod] := by
  have hrun : (machine (C := Unit) fun b => if b then 5 else 6).exec
      (machine fun b => if b then 5 else 6).init
      [.op .remove true, .op .enableRead true, .deliver 5 epollIn, .op .enableWrite true]
        = some _ := rfl
  have hfd : Function.Injective fun b : Bool => if b then (5 : Fd) else 6 := by
    intro a b
    cases a <;> cases b <;> decide
  have hb := bookkeeping hfd ⟨_, hrun⟩
  exact ⟨_, hrun, rfl, ⟨(hb.1 true).mp rfl, rfl⟩, rfl⟩

end ChannelLoop
