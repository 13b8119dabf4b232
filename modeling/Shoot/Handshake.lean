import Shoot.Progress

/-!
# A handshake under a mutex

One thread waits, under a mutex and with a condition variable, until a shared
value is ready,

    lock; while (!ready(value)) wait; v = value; unlock

and another one sets the value once and notifies,

    lock; value = set(value); if (notifies(value)) notify; unlock

Every statement is a step, the two run in any order, and a blocked waiter can
wake up without having been notified. `Handshake.Sound` holds in every state the
two get into. It says that a waiter that is blocked is going to be notified, for
it blocks before the value is set and without letting the mutex go in between,
and that a waiter behind the loop has the set value and the setter behind it: the
mutex and the value are nobody's any more and can be destroyed
(`Handshake.Sound.returned`).

`Handshake.rank` measures what the two still have to do. Each of their steps
brings it down, and an unprompted wake-up raises it by three
(`Handshake.rank_lt`, `Handshake.rank_wakeUp_le`); and as long as the waiter has not
returned, one of the two can move (`Handshake.enabled`).
-/

namespace Handshake

/-- **What the two threads run**: the condition the waiter waits for, what the
setter does to the value, and whether it notifies afterwards. -/
structure Code (V : Type*) where
  ready : V → Bool
  set : V → V
  notifies : V → Bool

/-- The code does what a handshake is for, from the value `v₀` on: the value is
not ready, the setter makes it ready, and then notifies. -/
structure Code.Works {V : Type*} (c : Code V) (v₀ : V) : Prop where
  not_ready : c.ready v₀ = false
  ready_set : c.ready (c.set v₀) = true
  notifies_set : c.notifies (c.set v₀) = true

/-- Where the waiter is. -/
inductive WaiterPc (V : Type*) where
  | outside
  /-- It takes the mutex, at its call or to return from its block. -/
  | lock
  | test
  /-- It blocks, and lets the mutex go in the same step. -/
  | sleep
  | blocked
  /-- Behind the loop, before it reads the value. -/
  | read
  | unlock (v : V)
  | returned (v : V)
deriving DecidableEq, Repr

/-- Where the setter is. -/
inductive SetterPc where
  | outside
  | lock
  | set
  | test
  | notify
  | unlock
  | returned
deriving DecidableEq, Repr

end Handshake

/-- **The value, the mutex, and the two threads.** -/
structure Handshake (V : Type*) where
  value : V
  /-- Whether one of the two has the mutex. -/
  held : Bool
  waiter : Handshake.WaiterPc V
  setter : Handshake.SetterPc
deriving Repr

namespace Handshake

variable {V : Type*}

/-- Who moves. -/
inductive Event where
  | waiter
  | setter
  /-- The waiter wakes up without a notification. -/
  | wakeUp
deriving DecidableEq, Repr

/-- Neither of the two has begun. -/
def start (v₀ : V) : Handshake V := ⟨v₀, false, .outside, .outside⟩

/-- The waiter begins. -/
def enterWaiter (s : Handshake V) : Handshake V := { s with waiter := .lock }

/-- The setter begins. -/
def enterSetter (s : Handshake V) : Handshake V := { s with setter := .lock }

@[simp] theorem enterWaiter_waiter (s : Handshake V) : s.enterWaiter.waiter = .lock := rfl

@[simp] theorem enterWaiter_setter (s : Handshake V) : s.enterWaiter.setter = s.setter := rfl

@[simp] theorem enterSetter_waiter (s : Handshake V) : s.enterSetter.waiter = s.waiter := rfl

@[simp] theorem enterSetter_setter (s : Handshake V) : s.enterSetter.setter = .lock := rfl

/-- The next step of the waiter. -/
def waiterStep (c : Code V) (s : Handshake V) : Option (Handshake V) :=
  match s.waiter with
  | .outside | .blocked | .returned _ => none
  | .lock => if s.held then none else some { s with held := true, waiter := .test }
  | .test => some { s with waiter := if c.ready s.value then .read else .sleep }
  | .sleep => some { s with held := false, waiter := .blocked }
  | .read => some { s with waiter := .unlock s.value }
  | .unlock v => some { s with held := false, waiter := .returned v }

/-- The waiter when it is notified. -/
def WaiterPc.wake : WaiterPc V → WaiterPc V
  | .blocked => .lock
  | pc => pc

/-- The next step of the setter. -/
def setterStep (c : Code V) (s : Handshake V) : Option (Handshake V) :=
  match s.setter with
  | .outside | .returned => none
  | .lock => if s.held then none else some { s with held := true, setter := .set }
  | .set => some { s with value := c.set s.value, setter := .test }
  | .test => some { s with setter := if c.notifies s.value then .notify else .unlock }
  | .notify => some { s with waiter := s.waiter.wake, setter := .unlock }
  | .unlock => some { s with held := false, setter := .returned }

/-- **One step of the handshake.** -/
def step (c : Code V) (s : Handshake V) : Event → Option (Handshake V)
  | .waiter => s.waiterStep c
  | .setter => s.setterStep c
  | .wakeUp =>
    match s.waiter with
    | .blocked => some { s with waiter := .lock }
    | _ => none

/-! ## What holds in every state -/

/-- The waiter has the mutex. -/
def WaiterPc.holds : WaiterPc V → Bool
  | .test | .sleep | .read | .unlock _ => true
  | .outside | .lock | .blocked | .returned _ => false

/-- The setter has the mutex. -/
def SetterPc.holds : SetterPc → Bool
  | .set | .test | .notify | .unlock => true
  | .outside | .lock | .returned => false

/-- The setter has set the value. -/
def SetterPc.done : SetterPc → Bool
  | .test | .notify | .unlock | .returned => true
  | .outside | .lock | .set => false

/-- What the waiter can rely on where it is. -/
def Knows (c : Code V) (v₀ : V) (setter : SetterPc) : WaiterPc V → Prop
  | .sleep => setter.done = false
  | .blocked => setter.done = false ∨ setter = .test ∨ setter = .notify
  | .read => setter = .returned
  | .unlock v | .returned v => setter = .returned ∧ v = c.set v₀
  | .outside | .lock | .test => True

/-- **The handshake works.** One thread has the mutex at most, the value is the
one the setter has set if it has, and a blocked waiter has its notification
ahead. -/
structure Sound (c : Code V) (v₀ : V) (s : Handshake V) : Prop where
  held_eq : s.held = (s.waiter.holds || s.setter.holds)
  exclusive : (s.waiter.holds && s.setter.holds) = false
  value_eq : s.value = if s.setter.done then c.set v₀ else v₀
  knows : Knows c v₀ s.setter s.waiter

variable {c : Code V} {v₀ : V} {s s' : Handshake V}

/-- Before it begins, the handshake is sound. -/
theorem sound_start : Sound c v₀ (start v₀) := ⟨rfl, rfl, rfl, trivial⟩

/-- The waiter can begin. -/
theorem Sound.enterWaiter (h : s.Sound c v₀) (hw : s.waiter = .outside) :
    s.enterWaiter.Sound c v₀ := by
  obtain ⟨hheld, hexcl, hvalue, hknows⟩ := h
  rw [hw] at hheld hexcl
  exact ⟨hheld, hexcl, hvalue, trivial⟩

/-- What the waiter knows does not depend on whether the setter has begun. -/
theorem Knows.enterSetter {pc : WaiterPc V} (h : Knows c v₀ .outside pc) : Knows c v₀ .lock pc := by
  cases pc with
  | blocked => exact Or.inl rfl
  | read => cases h
  | unlock v | returned v => cases h.1
  | _ => exact h

/-- The setter can begin. -/
theorem Sound.enterSetter (h : s.Sound c v₀) (hs : s.setter = .outside) :
    s.enterSetter.Sound c v₀ := by
  obtain ⟨hheld, hexcl, hvalue, hknows⟩ := h
  rw [hs] at hheld hexcl hvalue hknows
  exact ⟨hheld, hexcl, hvalue, hknows.enterSetter⟩

/-- A setter that has set the value and has let the mutex go has returned. -/
theorem SetterPc.eq_returned {pc : SetterPc} (hdone : pc.done = true)
    (hout : pc.holds = false) : pc = .returned := by
  cases pc with
  | returned => rfl
  | outside | lock | set => cases hdone
  | test | notify | unlock => cases hout

/-- Where the mutex is free, neither of the two has it. -/
theorem Sound.holds_of_free (h : s.Sound c v₀) (hfree : ¬ s.held = true) :
    s.waiter.holds = false ∧ s.setter.holds = false := by
  rw [h.held_eq] at hfree
  exact Bool.or_eq_false_iff.mp (Bool.eq_false_iff.mpr hfree)

/-- Where the waiter has the mutex, the setter does not. -/
theorem Sound.setter_holds (h : s.Sound c v₀) (hw : s.waiter.holds = true) :
    s.setter.holds = false := by
  have hexcl := h.exclusive
  rwa [hw, Bool.true_and] at hexcl

/-- Where the setter has the mutex, the waiter does not. -/
theorem Sound.waiter_holds (h : s.Sound c v₀) (hs : s.setter.holds = true) :
    s.waiter.holds = false := by
  have hexcl := h.exclusive
  rwa [hs, Bool.and_true] at hexcl

/-- **A step of the waiter.** -/
theorem Sound.waiterStep (hc : c.Works v₀) (h : s.Sound c v₀)
    (hs : s.waiterStep c = some s') : s'.Sound c v₀ := by
  have ⟨hheld, hexcl, hvalue, hknows⟩ := h
  unfold Handshake.waiterStep at hs
  cases hw : s.waiter with
  | outside | blocked | returned v =>
    rw [hw] at hs
    cases hs
  | lock =>
    rw [hw] at hs
    obtain ⟨hfree, hs⟩ := Option.ite_none_left_eq_some.mp hs
    cases hs
    exact ⟨rfl, (h.holds_of_free hfree).2, hvalue, trivial⟩
  | test =>
    have hout := h.setter_holds (by rw [hw]; rfl)
    rw [hw] at hs hheld hexcl
    cases hs
    cases hdone : s.setter.done with
    | false =>
      -- the setter has not set the value: the waiter goes to sleep
      rw [hdone, if_neg Bool.false_ne_true] at hvalue
      rw [hvalue, hc.not_ready, if_neg Bool.false_ne_true]
      exact ⟨hheld, hexcl, by rw [hdone]; rfl, hdone⟩
    | true =>
      -- the setter has set the value, and does not have the mutex: it has returned
      have hreturned : s.setter = .returned := SetterPc.eq_returned hdone hout
      rw [hdone, if_pos rfl] at hvalue
      rw [hvalue, hc.ready_set, if_pos rfl]
      exact ⟨hheld, hexcl, by rw [hdone]; rfl, hreturned⟩
  | sleep =>
    have hout := h.setter_holds (by rw [hw]; rfl)
    rw [hw] at hs hknows
    cases hs
    exact ⟨by rw [hout]; rfl, rfl, hvalue, Or.inl hknows⟩
  | read =>
    rw [hw] at hs hheld hexcl hknows
    cases hs
    have hreturned : s.setter = .returned := hknows
    refine ⟨hheld, hexcl, hvalue, hreturned, ?_⟩
    rw [hvalue, hreturned]
    rfl
  | unlock v =>
    have hout := h.setter_holds (by rw [hw]; rfl)
    rw [hw] at hs hknows
    cases hs
    exact ⟨by rw [hout]; rfl, rfl, hvalue, hknows⟩

/-- What the waiter knows before the setter takes the mutex, or sets the value. -/
theorem Knows.set {pc : WaiterPc V} {setter : SetterPc} (hset : setter.done = false)
    (hfree : pc.holds = false) (h : Knows c v₀ setter pc) :
    Knows c v₀ .set pc ∧ Knows c v₀ .test pc := by
  cases pc with
  | outside | lock => exact ⟨trivial, trivial⟩
  | blocked => exact ⟨Or.inl rfl, Or.inr (Or.inl rfl)⟩
  | returned v =>
    rw [h.1] at hset
    cases hset
  | test | sleep | read | unlock v => cases hfree

/-- **A step of the setter.** -/
theorem Sound.setterStep (hc : c.Works v₀) (h : s.Sound c v₀)
    (hs : s.setterStep c = some s') : s'.Sound c v₀ := by
  have ⟨hheld, hexcl, hvalue, hknows⟩ := h
  unfold Handshake.setterStep at hs
  cases hset : s.setter with
  | outside | returned =>
    rw [hset] at hs
    cases hs
  | lock =>
    rw [hset] at hs hvalue hknows
    obtain ⟨hfree, hs⟩ := Option.ite_none_left_eq_some.mp hs
    cases hs
    have hout := (h.holds_of_free hfree).1
    exact ⟨by rw [hout]; rfl, by rw [hout]; rfl, hvalue, (hknows.set rfl hout).1⟩
  | set =>
    have hout := h.waiter_holds (by rw [hset]; rfl)
    rw [hset] at hs hheld hexcl hvalue hknows
    cases hs
    refine ⟨hheld, hexcl, ?_, (hknows.set rfl hout).2⟩
    rw [hvalue]
    rfl
  | test =>
    rw [hset] at hs hheld hexcl hvalue hknows
    cases hs
    have hset' : s.value = c.set v₀ := hvalue
    have hnotifies : c.notifies s.value = true := hset' ▸ hc.notifies_set
    rw [hnotifies, if_pos rfl]
    refine ⟨hheld, hexcl, hvalue, ?_⟩
    cases hw : s.waiter with
    | blocked => exact Or.inr (Or.inr rfl)
    | read | sleep =>
      rw [hw] at hknows
      cases hknows
    | unlock v | returned v =>
      rw [hw] at hknows
      cases hknows.1
    | _ => trivial
  | notify =>
    rw [hset] at hs hheld hexcl hvalue hknows
    cases hs
    cases hw : s.waiter with
    | sleep | read =>
      rw [hw] at hknows
      cases hknows
    | unlock v | returned v =>
      rw [hw] at hknows
      cases hknows.1
    | _ =>
      rw [hw] at hheld hexcl
      exact ⟨hheld, hexcl, hvalue, trivial⟩
  | unlock =>
    have hout := h.waiter_holds (by rw [hset]; rfl)
    rw [hset] at hs hvalue hknows
    cases hs
    refine ⟨by rw [hout]; rfl, by rw [hout]; rfl, hvalue, ?_⟩
    cases hw : s.waiter with
    | outside | lock => trivial
    | returned v =>
      rw [hw] at hknows
      cases hknows.1
    | blocked =>
      rw [hw] at hknows
      rcases hknows with h | h | h <;> cases h
    | test | sleep | read | unlock v =>
      rw [hw] at hout
      cases hout

/-- **A step of either of them.** -/
theorem Sound.step (hc : c.Works v₀) (h : s.Sound c v₀) {e : Event}
    (hs : s.step c e = some s') : s'.Sound c v₀ := by
  cases e with
  | waiter => exact h.waiterStep hc hs
  | setter => exact h.setterStep hc hs
  | wakeUp =>
    obtain ⟨hheld, hexcl, hvalue, -⟩ := h
    unfold Handshake.step at hs
    cases hw : s.waiter with
    | blocked =>
      rw [hw] at hs hheld hexcl
      cases hs
      exact ⟨hheld, hexcl, hvalue, trivial⟩
    | _ =>
      rw [hw] at hs
      cases hs

/-- **A waiter that has returned has the set value, and is alone**: the setter
has let the mutex go for good. -/
theorem Sound.returned (h : s.Sound c v₀) {v : V} (hw : s.waiter = .returned v) :
    v = c.set v₀ ∧ s.value = c.set v₀ ∧ s.setter = .returned ∧ s.held = false := by
  have hknows := h.knows
  have hheld := h.held_eq
  have hvalue := h.value_eq
  rw [hw] at hknows hheld
  obtain ⟨hset, hv⟩ : s.setter = .returned ∧ v = c.set v₀ := hknows
  rw [hset] at hheld hvalue
  exact ⟨hv, hvalue, hset, hheld⟩

/-- **What a step leaves as it was**: who has begun, and who has returned. -/
structure Keeps (s s' : Handshake V) : Prop where
  waiter_outside : s'.waiter = .outside ↔ s.waiter = .outside
  setter_outside : s'.setter = .outside ↔ s.setter = .outside
  waiter_returned : ∀ v, s.waiter = .returned v → s'.waiter = .returned v
  setter_returned : s.setter = .returned → s'.setter = .returned

/-- A step of the waiter keeps what the setter has done. -/
theorem keeps_waiterStep (hs : s.waiterStep c = some s') : Keeps s s' := by
  unfold waiterStep at hs
  cases hw : s.waiter with
  | outside | blocked | returned v =>
    rw [hw] at hs
    cases hs
  | lock =>
    rw [hw] at hs
    obtain ⟨-, hs⟩ := Option.ite_none_left_eq_some.mp hs
    cases hs
    exact ⟨by simp [hw], Iff.rfl, fun v h => by simp [hw] at h, id⟩
  | test =>
    rw [hw] at hs
    cases hs
    cases c.ready s.value <;> exact ⟨by simp [hw], Iff.rfl, fun v h => by simp [hw] at h, id⟩
  | sleep | read | unlock v =>
    rw [hw] at hs
    cases hs
    exact ⟨by simp [hw], Iff.rfl, fun v h => by simp [hw] at h, id⟩

/-- A notification does not make the waiter begin. -/
theorem WaiterPc.wake_eq_outside {pc : WaiterPc V} : pc.wake = .outside ↔ pc = .outside := by
  cases pc <;> simp [wake]

/-- A step of the setter keeps what the waiter has done. -/
theorem keeps_setterStep (hs : s.setterStep c = some s') : Keeps s s' := by
  unfold setterStep at hs
  cases hset : s.setter with
  | outside | returned =>
    rw [hset] at hs
    cases hs
  | lock =>
    rw [hset] at hs
    obtain ⟨-, hs⟩ := Option.ite_none_left_eq_some.mp hs
    cases hs
    exact ⟨Iff.rfl, by simp [hset], fun _ => id, by simp [hset]⟩
  | test =>
    rw [hset] at hs
    cases hs
    cases c.notifies s.value <;> exact ⟨Iff.rfl, by simp [hset], fun _ => id, by simp [hset]⟩
  | notify =>
    rw [hset] at hs
    cases hs
    refine ⟨WaiterPc.wake_eq_outside, by simp [hset], fun v h => ?_, by simp [hset]⟩
    show s.waiter.wake = _
    rw [h]
    rfl
  | set | unlock =>
    rw [hset] at hs
    cases hs
    exact ⟨Iff.rfl, by simp [hset], fun _ => id, by simp [hset]⟩

/-- A step of either of them keeps who has begun, and who has returned. -/
theorem keeps_step {e : Event} (hs : s.step c e = some s') : Keeps s s' := by
  cases e with
  | waiter => exact keeps_waiterStep hs
  | setter => exact keeps_setterStep hs
  | wakeUp =>
    unfold step at hs
    cases hw : s.waiter with
    | blocked =>
      rw [hw] at hs
      cases hs
      exact ⟨by simp [hw], Iff.rfl, fun v h => by simp [hw] at h, id⟩
    | _ =>
      rw [hw] at hs
      cases hs

/-! ## What is still to be done -/

/-- What the waiter has still to do, by whether the value is set. -/
def WaiterPc.rank (done : Bool) : WaiterPc V → ℕ
  | .outside => 9
  | .lock => if done then 4 else 8
  | .test => if done then 3 else 7
  | .sleep => 6
  | .blocked => 5
  | .read => 2
  | .unlock _ => 1
  | .returned _ => 0

/-- What the setter has still to do. -/
def SetterPc.rank : SetterPc → ℕ
  | .outside => 6
  | .lock => 5
  | .set => 4
  | .test => 3
  | .notify => 2
  | .unlock => 1
  | .returned => 0

/-- **What the two have still to do.** -/
def rank (s : Handshake V) : ℕ := s.waiter.rank s.setter.done + s.setter.rank

/-- The waiter has no more to do once the value is set. -/
theorem WaiterPc.rank_le (pc : WaiterPc V) (done : Bool) : pc.rank true ≤ pc.rank done := by
  cases done <;> cases pc <;> simp [rank]

/-- Notifying the waiter is no loss. -/
theorem WaiterPc.rank_wake_le (pc : WaiterPc V) : pc.wake.rank true ≤ pc.rank true := by
  cases pc <;> simp [wake, rank]

/-- A waiter that has begun has less to do. -/
theorem rank_enterWaiter (hw : s.waiter = .outside) : s.enterWaiter.rank < s.rank := by
  have hlock : WaiterPc.rank (V := V) s.setter.done .lock ≤ 8 := by
    cases s.setter.done <;> simp [WaiterPc.rank]
  show WaiterPc.rank (V := V) s.setter.done .lock + s.setter.rank < _
  simp only [rank, hw, WaiterPc.rank] at *
  omega

/-- A setter that has begun has less to do. -/
theorem rank_enterSetter (hs : s.setter = .outside) : s.enterSetter.rank < s.rank := by
  simp only [rank, enterSetter, hs, SetterPc.rank, SetterPc.done]
  omega

/-- A step of the waiter leaves it less to do. -/
theorem rank_waiterStep (hc : c.Works v₀) (h : s.Sound c v₀)
    (hs : s.waiterStep c = some s') : s'.rank < s.rank := by
  unfold Handshake.waiterStep at hs
  unfold rank
  cases hw : s.waiter with
  | outside | blocked | returned v =>
    rw [hw] at hs
    cases hs
  | lock =>
    rw [hw] at hs
    obtain ⟨-, hs⟩ := Option.ite_none_left_eq_some.mp hs
    cases hs
    cases s.setter.done <;> simp [WaiterPc.rank]
  | test =>
    rw [hw] at hs
    cases hs
    -- it goes to sleep only if the value is not set
    have hvalue := h.value_eq
    cases hdone : s.setter.done with
    | false =>
      rw [hdone, if_neg Bool.false_ne_true] at hvalue
      simp [hvalue, hc.not_ready, WaiterPc.rank]
    | true =>
      rw [hdone, if_pos rfl] at hvalue
      simp [hvalue, hc.ready_set, WaiterPc.rank]
  | sleep | read | unlock v =>
    rw [hw] at hs
    cases hs
    simp [WaiterPc.rank]

/-- A step of the setter leaves less to do. -/
theorem rank_setterStep (hs : s.setterStep c = some s') : s'.rank < s.rank := by
  unfold Handshake.setterStep at hs
  unfold rank
  cases hset : s.setter with
  | outside | returned =>
    rw [hset] at hs
    cases hs
  | lock =>
    rw [hset] at hs
    obtain ⟨-, hs⟩ := Option.ite_none_left_eq_some.mp hs
    cases hs
    simp [SetterPc.rank, SetterPc.done]
  | set =>
    rw [hset] at hs
    cases hs
    have hle := s.waiter.rank_le false
    show s.waiter.rank true + 3 < s.waiter.rank false + 4
    omega
  | test =>
    rw [hset] at hs
    cases hs
    cases c.notifies s.value <;> simp [SetterPc.rank, SetterPc.done]
  | notify =>
    rw [hset] at hs
    cases hs
    have hle := s.waiter.rank_wake_le
    show s.waiter.wake.rank true + 1 < s.waiter.rank true + 2
    omega
  | unlock =>
    rw [hset] at hs
    cases hs
    simp [SetterPc.rank, SetterPc.done]

/-- **Each step of the two leaves them less to do.** -/
theorem rank_lt (hc : c.Works v₀) (h : s.Sound c v₀) {e : Event} (he : e ≠ .wakeUp)
    (hs : s.step c e = some s') : s'.rank < s.rank := by
  cases e with
  | waiter => exact rank_waiterStep hc h hs
  | setter => exact rank_setterStep hs
  | wakeUp => exact absurd rfl he

/-- **An unprompted wake-up costs three steps**: the waiter takes the mutex,
tests, and sleeps again. -/
theorem rank_wakeUp_le (hs : s.step c .wakeUp = some s') : s'.rank ≤ s.rank + 3 := by
  unfold Handshake.step at hs
  unfold rank
  cases hw : s.waiter with
  | blocked =>
    rw [hw] at hs
    cases hs
    cases s.setter.done <;> simp [WaiterPc.rank] <;> omega
  | _ =>
    rw [hw] at hs
    cases hs

/-- A thread at its lock can take the mutex if the other one does not have it. -/
theorem Sound.held_eq_false (h : s.Sound c v₀) (hw : s.waiter.holds = false)
    (hset : s.setter.holds = false) : s.held = false := by
  rw [h.held_eq, hw, hset]
  rfl

/-- The holder of the mutex can move, if it is the setter. -/
theorem exists_setter (hset : s.setter.holds = true) :
    ∃ s', s.step c .setter = some s' := by
  show ∃ s', s.setterStep c = some s'
  unfold setterStep
  cases hs : s.setter with
  | set | test | notify | unlock => exact ⟨_, rfl⟩
  | outside | lock | returned =>
    rw [hs] at hset
    cases hset

/-- **Neither deadlock nor a lost notification.** As long as the waiter has not
returned, one of the two can move. -/
theorem enabled (h : s.Sound c v₀) (hw : s.waiter ≠ .outside) (hset : s.setter ≠ .outside)
    (hback : ∀ v, s.waiter ≠ .returned v) :
    ∃ e s', e ≠ .wakeUp ∧ s.step c e = some s' := by
  have hknows := h.knows
  cases hpc : s.waiter with
  | outside => exact absurd hpc hw
  | returned v => exact absurd hpc (hback v)
  | test | sleep | read | unlock v =>
    refine ⟨.waiter, ?_⟩
    show ∃ s', _ ∧ s.waiterStep c = some s'
    unfold waiterStep
    rw [hpc]
    exact ⟨_, by simp, rfl⟩
  | lock =>
    cases hholds : s.setter.holds with
    | true =>
      obtain ⟨s', hs⟩ := exists_setter (c := c) hholds
      exact ⟨.setter, s', by simp, hs⟩
    | false =>
      refine ⟨.waiter, { s with held := true, waiter := .test }, by simp, ?_⟩
      show s.waiterStep c = _
      rw [waiterStep, hpc]
      dsimp only
      rw [h.held_eq_false (by rw [hpc]; rfl) hholds]
      rfl
  | blocked =>
    cases hholds : s.setter.holds with
    | true =>
      obtain ⟨s', hs⟩ := exists_setter (c := c) hholds
      exact ⟨.setter, s', by simp, hs⟩
    | false =>
      -- the setter has not set the value: it has to be before its lock
      rw [hpc] at hknows
      have hlock : s.setter = .lock := by
        cases hs : s.setter with
        | lock => rfl
        | outside => exact absurd hs hset
        | returned =>
          rw [hs] at hknows
          rcases hknows with h' | h' | h' <;> cases h'
        | set | test | notify | unlock =>
          rw [hs] at hholds
          cases hholds
      refine ⟨.setter, { s with held := true, setter := .set }, by simp, ?_⟩
      show s.setterStep c = _
      rw [setterStep, hlock]
      dsimp only
      rw [h.held_eq_false (by rw [hpc]; rfl) hholds]
      rfl

end Handshake
