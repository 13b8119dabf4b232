import Mathlib.Logic.Function.Basic
import Mathlib.Data.Int.Notation

/-!
# Interest lists

The kernel's side of epoll(7). An epoll instance is a map from descriptors to
**interests**: the events a descriptor was registered for, the word of user
data that comes back with them, and whether the registration is armed. A
registration made with `EPOLLONESHOT` is disarmed by the delivery of an event
and armed again by `EPOLL_CTL_MOD`; the kernel then looks at the readiness of
the descriptor anew, so an event that is still due is delivered again.

`epoll_ctl` is taken to fail only where the registration is in the way: an
addition of a registered descriptor, and a modification or a deletion of one
that is not. It then changes nothing. What the kernel reports is part of what
was asked for, except for `EPOLLERR` and `EPOLLHUP`, which it always reports;
`EPOLLONESHOT` is a flag of the registration and never reported.
-/

/-- A file descriptor, or what a system call returned in its place. -/
abbrev Fd : Type := ℤ

/-- A set of epoll events. -/
abbrev EventMask : Type := BitVec 32

/-- `EPOLLIN`. -/
def epollIn : EventMask := 0x1

/-- `EPOLLPRI`. -/
def epollPri : EventMask := 0x2

/-- `EPOLLOUT`. -/
def epollOut : EventMask := 0x4

/-- `EPOLLERR`. -/
def epollErr : EventMask := 0x8

/-- `EPOLLHUP`. -/
def epollHup : EventMask := 0x10

/-- `EPOLLONESHOT`. -/
def epollOneshot : EventMask := 0x40000000

/-- The test `mask & events`. -/
def EventMask.has (mask events : EventMask) : Bool := mask &&& events != 0

/-- An event that was added is in the mask. -/
theorem EventMask.has_or_right {mask mask' events : EventMask} (h : mask'.has events = true) :
    (mask ||| mask').has events = true := by
  unfold has at h ⊢
  rw [bne_iff_ne] at h ⊢
  intro h0
  rw [BitVec.and_or_distrib_right] at h0
  exact h (BitVec.or_eq_zero_iff.mp h0).2

/-- What a descriptor is registered for. -/
structure Interest (D : Type*) where
  /-- The events asked for. -/
  events : EventMask
  /-- `event.data`. -/
  data : D
  /-- Events are delivered. -/
  armed : Bool

/-- A registration, once an event of it was delivered. -/
def Interest.delivered {D : Type*} (i : Interest D) : Interest D :=
  { i with armed := !i.events.has epollOneshot }

/-- The operations of `epoll_ctl`. -/
inductive CtlOp where
  | add | mod | del
deriving DecidableEq, Repr

/-- **An epoll instance**: the descriptors registered with it. -/
abbrev EpollSet (D : Type*) : Type _ := Fd → Option (Interest D)

namespace EpollSet

variable {D : Type*}

/-- `epoll_create1`. -/
def empty : EpollSet D := fun _ => none

/-- The descriptor is registered. -/
def registered (K : EpollSet D) (fd : Fd) : Bool := (K fd).isSome

/-- `epoll_ctl`, which changes nothing where it fails. -/
def ctl (K : EpollSet D) (op : CtlOp) (fd : Fd) (events : EventMask) (data : D) : EpollSet D :=
  match op, K fd with
  | .add, none => Function.update K fd (some ⟨events, data, true⟩)
  | .mod, some _ => Function.update K fd (some ⟨events, data, true⟩)
  | .del, some _ => Function.update K fd none
  | _, _ => K

/-- What the kernel can report of a registration. -/
def Reportable (events mask : EventMask) : Prop :=
  mask ≠ 0 ∧ mask &&& ~~~((events &&& ~~~epollOneshot) ||| epollErr ||| epollHup) = 0

instance (events mask : EventMask) : Decidable (Reportable events mask) :=
  inferInstanceAs (Decidable (_ ∧ _))

/-- `epoll_wait` reports `mask` for a descriptor, and the data registered with
it; `none` where it cannot. -/
def deliver (K : EpollSet D) (fd : Fd) (mask : EventMask) : Option (EpollSet D × D) :=
  match K fd with
  | none => none
  | some i =>
    if i.armed = true ∧ Reportable i.events mask then
      some (Function.update K fd (some i.delivered), i.data)
    else none

section Lemmas

variable {K K' : EpollSet D} {fd fd' : Fd} {events mask : EventMask} {data : D}

theorem ctl_add (h : K fd = none) :
    K.ctl .add fd events data = Function.update K fd (some ⟨events, data, true⟩) := by
  unfold ctl
  rw [h]

theorem ctl_mod {i : Interest D} (h : K fd = some i) :
    K.ctl .mod fd events data = Function.update K fd (some ⟨events, data, true⟩) := by
  unfold ctl
  rw [h]

/-- A deletion leaves the descriptor unregistered, whether it fails or not. -/
theorem ctl_del : K.ctl .del fd events data = Function.update K fd none := by
  unfold ctl
  cases h : K fd with
  | some i => rfl
  | none => exact (Function.update_eq_self_iff.mpr h.symm).symm

/-- `epoll_ctl` on one descriptor leaves the others alone. -/
theorem ctl_of_ne (op : CtlOp) (h : fd' ≠ fd) : K.ctl op fd events data fd' = K fd' := by
  cases op <;> unfold ctl <;> cases K fd <;> first | rfl | exact Function.update_of_ne h _ _

/-- `epoll_ctl` gives a descriptor no other data than its own argument. -/
theorem data_of_ctl {op : CtlOp} {i : Interest D} (h : K.ctl op fd events data fd' = some i) :
    i.data = data ∨ K fd' = some i := by
  by_cases hf : fd' = fd
  · subst hf
    cases hK : K fd' with
    | none =>
      cases op with
      | add =>
        rw [ctl_add hK, Function.update_self, Option.some.injEq] at h
        exact Or.inl (h ▸ rfl)
      | mod =>
        unfold ctl at h
        rw [hK] at h
        exact absurd (hK.symm.trans h) (by simp)
      | del =>
        rw [ctl_del, Function.update_self] at h
        cases h
    | some j =>
      cases op with
      | add =>
        unfold ctl at h
        rw [hK] at h
        exact Or.inr (hK ▸ h)
      | mod =>
        rw [ctl_mod hK, Function.update_self, Option.some.injEq] at h
        exact Or.inl (h ▸ rfl)
      | del =>
        rw [ctl_del, Function.update_self] at h
        cases h
  · exact Or.inr ((ctl_of_ne op hf).symm.trans h)

/-- An armed registration delivers what is reportable. -/
theorem deliver_of_armed {i : Interest D} (h : K fd = some i) (ha : i.armed = true)
    (hr : Reportable i.events mask) :
    K.deliver fd mask = some (Function.update K fd (some i.delivered), i.data) := by
  unfold deliver
  rw [h]
  exact if_pos ⟨ha, hr⟩

/-- A delivery is one of an armed registration. -/
theorem deliver_eq_some {d : D} (h : K.deliver fd mask = some (K', d)) :
    ∃ i, K fd = some i ∧ i.armed = true ∧ Reportable i.events mask ∧ i.data = d
      ∧ K' = Function.update K fd (some i.delivered) := by
  unfold deliver at h
  split at h
  · cases h
  · obtain ⟨⟨ha, hr⟩, h⟩ := Option.ite_none_right_eq_some.mp h
    cases h
    exact ⟨_, ‹_›, ha, hr, rfl, rfl⟩

end Lemmas

end EpollSet
