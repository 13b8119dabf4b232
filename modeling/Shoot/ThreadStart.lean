import Shoot.CountDownLatch
import Shoot.Handshake

/-!
# The latch of a thread that is started

`Thread::start` creates a thread and waits on the `CountDownLatch` of one that is
a member of the `Thread`; the new thread counts it down, through the pointer it
was given, as its first statement. One thread waits once and the other one counts
down once, which is a handshake about the counter (`latchCode`). This module shows
that it is one: what the two threads do in the handshake is a run of the latch
(`CountDownLatch.Simulates.step`), so that what is known of every run of the latch
is known of the handshake.
-/

/-- The two threads that use the latch of a `Thread`. -/
inductive LatchUser where
  /-- In `Thread::start`. -/
  | starter
  /-- In `start_thread`. -/
  | started
deriving DecidableEq, Repr

/-- `CountDownLatch` with a `count` of one: what the starter runs, `while (count > 0)
condition_.wait()`, and what the started thread runs, `--count; if (count == 0)
condition_.notify_all()`. -/
def latchCode : Handshake.Code ℤ where
  ready count := !decide (count > 0)
  set count := count - 1
  notifies count := decide (count = 0)

/-- A latch of one is open when it is counted down. -/
theorem latchCode_works : latchCode.Works 1 := ⟨rfl, rfl, rfl⟩

namespace CountDownLatch

open Handshake

/-- Who has the mutex of the latch, where the starter does not have it. The number
of a decrement does not matter. -/
def SetterMutex : SetterPc → LatchMutex LatchUser → Prop
  | .set, m => m = .decrement .started
  | .test, m => ∃ k, m = .zeroTest .started k
  | .notify, m => ∃ k, m = .notifyAll .started k
  | .unlock, m => ∃ k, m = .unlock .started k
  | .outside, m | .lock, m | .returned, m => m = .free

/-- Who has the mutex of the latch. -/
def MutexPlace (m : LatchMutex LatchUser) (setter : SetterPc) : WaiterPc ℤ → Prop
  | .test => m = .test .starter
  | .sleep => m = .sleep .starter
  | .read | .unlock _ => m = .leave .starter
  | .outside | .lock | .blocked | .returned _ => SetterMutex setter m

/-- Where the starter is. -/
def WaiterPlace : WaiterPc ℤ → LatchPc → Prop
  | .outside, pc | .returned _, pc => pc = .outside
  | .lock, pc => pc = .waitLock ∨ pc = .woken
  | .test, pc | .sleep, pc | .read, pc | .unlock _, pc => pc = .inside
  | .blocked, pc => pc = .blocked

/-- Where the started thread is. -/
def SetterPlace : SetterPc → LatchPc → Prop
  | .outside, pc | .returned, pc => pc = .outside
  | .lock, pc => pc = .countLock
  | .set, pc | .test, pc | .notify, pc | .unlock, pc => pc = .inside

/-- **The handshake and the latch are in the same place.** -/
structure Simulates (l : CountDownLatch LatchUser) (h : Handshake ℤ) : Prop where
  count_eq : l.count = h.value
  mutex : MutexPlace l.mutex h.setter h.waiter
  starter : WaiterPlace h.waiter (l.pc .starter)
  started : SetterPlace h.setter (l.pc .started)

variable {l : CountDownLatch LatchUser} {h h' : Handshake ℤ}

/-- The machine of the latch, for the two threads. -/
abbrev startMachine : Machine (CountDownLatch LatchUser) (LatchEvent LatchUser) :=
  machine LatchUser 1

/-- One step of the latch as a run. -/
theorem exec_one {e : LatchEvent LatchUser} {l' : CountDownLatch LatchUser}
    (hs : l.step e = some l') : startMachine.exec l [e] = some l' := by
  show (l.step e).bind _ = _
  rw [hs]
  rfl

/-- Where the starter does not have the mutex, it is the other thread that knows of
it. -/
theorem mutexPlace_iff {w : WaiterPc ℤ} (hw : w.holds = false) {setter : SetterPc}
    {m : LatchMutex LatchUser} : MutexPlace m setter w ↔ SetterMutex setter m := by
  cases w with
  | outside | lock | blocked | returned v => exact Iff.rfl
  | test | sleep | read | unlock v => cases hw

/-- The mutex is free where no thread has it. -/
theorem setterMutex_free {pc : SetterPc} (hs : pc.holds = false) {m : LatchMutex LatchUser} :
    SetterMutex pc m ↔ m = .free := by
  cases pc with
  | outside | lock | returned => exact Iff.rfl
  | set | test | notify | unlock => cases hs

/-- The mutex is free where no thread of the handshake has it. -/
theorem mutexPlace_free {w : WaiterPc ℤ} (hw : w.holds = false) {setter : SetterPc}
    (hs : setter.holds = false) {m : LatchMutex LatchUser} :
    MutexPlace m setter w ↔ m = .free :=
  (mutexPlace_iff hw).trans (setterMutex_free hs)

section Places

variable (pc : LatchUser → LatchPc) {p : LatchPc}

/-- A thread that moves is where it has moved to. -/
theorem waiterPlace_move {w : WaiterPc ℤ} (hp : WaiterPlace w p) :
    WaiterPlace w (Function.update pc .starter p .starter) := by
  rwa [Function.update_self]

theorem setterPlace_move {s : SetterPc} (hp : SetterPlace s p) :
    SetterPlace s (Function.update pc .started p .started) := by
  rwa [Function.update_self]

variable (p)

/-- A thread is not moved by the other one. -/
theorem waiterPlace_stay {w : WaiterPc ℤ} (hp : WaiterPlace w (pc .starter)) :
    WaiterPlace w (Function.update pc .started p .starter) := by
  rwa [Function.update_of_ne (by decide)]

theorem setterPlace_stay {s : SetterPc} (hp : SetterPlace s (pc .started)) :
    SetterPlace s (Function.update pc .starter p .started) := by
  rwa [Function.update_of_ne (by decide)]

end Places

/-- **A step of the starter** is one of the latch, or none: it reads the counter
before it lets the mutex go. -/
theorem Simulates.waiterStep (hsim : l.Simulates h) (hsound : h.Sound latchCode 1)
    (hs : h.waiterStep latchCode = some h') :
    ∃ tr l', startMachine.exec l tr = some l' ∧ l'.Simulates h' := by
  obtain ⟨hcount, hmutex, hstarter, hstarted⟩ := hsim
  unfold Handshake.waiterStep at hs
  cases hw : h.waiter with
  | outside | blocked | returned v =>
    rw [hw] at hs
    cases hs
  | lock =>
    rw [hw] at hs hstarter
    obtain ⟨hfree, hs⟩ := Option.ite_none_left_eq_some.mp hs
    cases hs
    obtain ⟨hin, hout⟩ := hsound.holds_of_free hfree
    have hm : l.mutex = .free := (mutexPlace_free hin hout).mp hmutex
    refine ⟨[.lock .starter], { l with
      mutex := .test .starter
      pc := Function.update l.pc .starter .inside }, exec_one (if_pos ⟨hm, hstarter⟩), ?_⟩
    exact ⟨hcount, rfl, waiterPlace_move l.pc rfl, setterPlace_stay l.pc .inside hstarted⟩
  | test =>
    rw [hw] at hs hstarter
    cases hs
    have hm : l.mutex = .test .starter := by
      rw [hw] at hmutex
      exact hmutex
    refine ⟨[.run], { l with
      mutex := if l.count > 0 then .sleep .starter else .leave .starter },
      exec_one (by show l.run = _; rw [run, hm]), hcount, ?_, ?_, hstarted⟩
    · rw [hcount]
      by_cases hpos : h.value > 0
      · simp [latchCode, hpos, MutexPlace]
      · simp [latchCode, hpos, MutexPlace]
    · rw [show latchCode.ready h.value = !decide (h.value > 0) from rfl]
      cases decide (h.value > 0) <;> exact hstarter
  | sleep =>
    have hout := hsound.setter_holds (by rw [hw]; rfl)
    rw [hw] at hs hstarter
    cases hs
    have hm : l.mutex = .sleep .starter := by
      rw [hw] at hmutex
      exact hmutex
    refine ⟨[.run], { l with
      mutex := .free
      pc := Function.update l.pc .starter .blocked },
      exec_one (by show l.run = _; rw [run, hm]), ?_⟩
    exact ⟨hcount, (mutexPlace_free rfl hout).mpr rfl, waiterPlace_move l.pc rfl,
      setterPlace_stay l.pc .blocked hstarted⟩
  | read =>
    rw [hw] at hs hstarter
    cases hs
    have hm : l.mutex = .leave .starter := by
      rw [hw] at hmutex
      exact hmutex
    exact ⟨[], l, rfl, hcount, by simp [MutexPlace, hm], hstarter, hstarted⟩
  | unlock v =>
    have hout := hsound.setter_holds (by rw [hw]; rfl)
    rw [hw] at hs hstarter
    cases hs
    have hm : l.mutex = .leave .starter := by
      rw [hw] at hmutex
      exact hmutex
    refine ⟨[.run], { l with
      mutex := .free
      pc := Function.update l.pc .starter .outside },
      exec_one (by show l.run = _; rw [run, hm]), ?_⟩
    exact ⟨hcount, (mutexPlace_free rfl hout).mpr rfl, waiterPlace_move l.pc rfl,
      setterPlace_stay l.pc .outside hstarted⟩

/-- What is to be decremented is one: the counter is an `int` above the least. -/
theorem Simulates.count_of_set (hsim : l.Simulates h) (hsound : h.Sound latchCode 1)
    (hset : h.setter = .set) : l.count = 1 := by
  have hvalue := hsound.value_eq
  rw [hset] at hvalue
  exact hsim.count_eq.trans hvalue

/-- A notification wakes the starter if it is blocked, and moves nobody else. -/
theorem places_wakeAll {pc : LatchUser → LatchPc} {w : WaiterPc ℤ}
    (hw : WaiterPlace w (pc .starter)) (hs : SetterPlace .notify (pc .started)) :
    WaiterPlace w.wake (wakeAll pc .starter) ∧ SetterPlace .unlock (wakeAll pc .started) := by
  have hinside : pc .started = .inside := hs
  refine ⟨?_, by rw [wakeAll, hinside]; rfl⟩
  cases w with
  | blocked =>
    have hblocked : pc .starter = .blocked := hw
    rw [wakeAll, if_pos hblocked]
    exact Or.inr rfl
  | lock =>
    rcases hw with hw | hw <;> rw [wakeAll, hw]
    · exact Or.inl rfl
    · exact Or.inr rfl
  | outside | returned v | test | sleep | read | unlock v =>
    rw [wakeAll, hw]
    rfl

/-- **A step of the started thread is one of the latch.** -/
theorem Simulates.setterStep (hsim : l.Simulates h) (hsound : h.Sound latchCode 1)
    (hs : h.setterStep latchCode = some h') :
    ∃ tr l', startMachine.exec l tr = some l' ∧ l'.Simulates h' := by
  have hcount := hsim.count_eq
  have hmutex := hsim.mutex
  have hstarter := hsim.starter
  have hstarted := hsim.started
  unfold Handshake.setterStep at hs
  cases hset : h.setter with
  | outside | returned =>
    rw [hset] at hs
    cases hs
  | lock =>
    rw [hset] at hs hstarted
    obtain ⟨hfree, hs⟩ := Option.ite_none_left_eq_some.mp hs
    cases hs
    obtain ⟨hout, hin⟩ := hsound.holds_of_free hfree
    have hm : l.mutex = .free := (mutexPlace_free hout hin).mp hmutex
    have hlock : l.step (.lock .started) = some { l with
        mutex := .decrement .started
        pc := Function.update l.pc .started .inside } := by
      have hpc : l.pc .started = .countLock := hstarted
      show (if _ then _ else _) = _
      rw [if_neg (by simp [hpc]), if_pos ⟨hm, hpc⟩]
    refine ⟨_, _, exec_one hlock, hcount, (mutexPlace_iff hout).mpr rfl, ?_, ?_⟩
    · exact waiterPlace_stay l.pc .inside hstarter
    · exact setterPlace_move l.pc rfl
  | set =>
    have hout := hsound.waiter_holds (by rw [hset]; rfl)
    rw [hset] at hs hstarted
    cases hs
    have hm : l.mutex = .decrement .started := by
      rw [hset] at hmutex
      exact (mutexPlace_iff hout).mp hmutex
    have hrun : l.step .run = some { l with
        count := l.count - 1
        mutex := .zeroTest .started (l.decrements + 1)
        decrements := l.decrements + 1 } := by
      show l.run = _
      rw [run, hm]
      dsimp only
      rw [if_pos (by rw [hsim.count_of_set hsound hset]; decide)]
    refine ⟨_, _, exec_one hrun, ?_, (mutexPlace_iff hout).mpr ⟨_, rfl⟩, hstarter, hstarted⟩
    show l.count - 1 = h.value - 1
    rw [hcount]
  | test =>
    have hout := hsound.waiter_holds (by rw [hset]; rfl)
    rw [hset] at hs hstarted
    cases hs
    obtain ⟨k, hm⟩ : ∃ k, l.mutex = .zeroTest .started k := by
      rw [hset] at hmutex
      exact (mutexPlace_iff hout).mp hmutex
    have hrun : l.step .run = some { l with
        mutex := if l.count = 0 then .notifyAll .started k else .unlock .started k } := by
      show l.run = _
      rw [run, hm]
    refine ⟨_, _, exec_one hrun, hcount, (mutexPlace_iff hout).mpr ?_, hstarter, ?_⟩
    · show SetterMutex (if decide (h.value = 0) then .notify else .unlock) _
      rw [← hcount]
      by_cases hzero : l.count = 0
      · simp [hzero, SetterMutex]
      · simp [hzero, SetterMutex]
    · show SetterPlace (if latchCode.notifies h.value then .notify else .unlock) _
      cases latchCode.notifies h.value <;> exact hstarted
  | notify =>
    have hout := hsound.waiter_holds (by rw [hset]; rfl)
    rw [hset] at hs hstarted
    cases hs
    obtain ⟨k, hm⟩ : ∃ k, l.mutex = .notifyAll .started k := by
      rw [hset] at hmutex
      exact (mutexPlace_iff hout).mp hmutex
    have hrun : l.step .run = some { l with
        mutex := .unlock .started k
        pc := wakeAll l.pc } := by
      show l.run = _
      rw [run, hm]
    obtain ⟨hstarter', hstarted'⟩ := places_wakeAll hstarter hstarted
    refine ⟨_, _, exec_one hrun, hcount, (mutexPlace_iff ?_).mpr ⟨k, rfl⟩, hstarter', hstarted'⟩
    show h.waiter.wake.holds = false
    cases hw : h.waiter with
    | test | sleep | read | unlock v =>
      rw [hw] at hout
      cases hout
    | outside | lock | blocked | returned v => rfl
  | unlock =>
    have hout := hsound.waiter_holds (by rw [hset]; rfl)
    rw [hset] at hs hstarted
    cases hs
    obtain ⟨k, hm⟩ : ∃ k, l.mutex = .unlock .started k := by
      rw [hset] at hmutex
      exact (mutexPlace_iff hout).mp hmutex
    have hrun : l.step .run = some { l with
        mutex := .free
        pc := Function.update l.pc .started .outside
        returned := l.returned ++ [k] } := by
      show l.run = _
      rw [run, hm]
    refine ⟨_, _, exec_one hrun, hcount, (mutexPlace_iff hout).mpr rfl, ?_, ?_⟩
    · exact waiterPlace_stay l.pc .outside hstarter
    · exact setterPlace_move l.pc rfl

/-- **What the two threads do in the handshake is a run of the latch.** A step of
the handshake is matched by steps of the model of `CountDownLatch`. -/
theorem Simulates.step (hsim : l.Simulates h) (hsound : h.Sound latchCode 1)
    {e : Handshake.Event} (hs : h.step latchCode e = some h') :
    ∃ tr l', startMachine.exec l tr = some l' ∧ l'.Simulates h' := by
  cases e with
  | waiter => exact hsim.waiterStep hsound hs
  | setter => exact hsim.setterStep hsound hs
  | wakeUp =>
    obtain ⟨hcount, hmutex, hstarter, hstarted⟩ := hsim
    unfold Handshake.step at hs
    cases hw : h.waiter with
    | blocked =>
      rw [hw] at hs hstarter
      cases hs
      have hwake : l.step (.wakeUp .starter) = some { l with
          pc := Function.update l.pc .starter .woken } := if_pos hstarter
      refine ⟨_, _, exec_one hwake, hcount, ?_, waiterPlace_move l.pc (Or.inr rfl),
        setterPlace_stay l.pc .woken hstarted⟩
      exact (mutexPlace_iff rfl).mpr ((mutexPlace_iff (by rw [hw]; rfl)).mp hmutex)
    | _ =>
      rw [hw] at hs
      cases hs

/-- The latch before either thread uses it. -/
theorem simulates_start : Simulates startMachine.init (.start 1) :=
  ⟨rfl, rfl, rfl, rfl⟩

/-- The starter calls `wait`. -/
theorem Simulates.enterWaiter (hsim : l.Simulates h) (hw : h.waiter = .outside) :
    ∃ tr l', startMachine.exec l tr = some l' ∧ l'.Simulates h.enterWaiter := by
  obtain ⟨hcount, hmutex, hstarter, hstarted⟩ := hsim
  rw [hw] at hstarter
  have hwait : l.step (.wait .starter) = some { l with
      pc := Function.update l.pc .starter .waitLock } := if_pos hstarter
  refine ⟨_, _, exec_one hwait, hcount, ?_, waiterPlace_move l.pc (Or.inl rfl),
    setterPlace_stay l.pc .waitLock hstarted⟩
  exact (mutexPlace_iff rfl).mpr ((mutexPlace_iff (by rw [hw]; rfl)).mp hmutex)

/-- The started thread calls `count_down`. -/
theorem Simulates.enterSetter (hsim : l.Simulates h) (hset : h.setter = .outside) :
    ∃ tr l', startMachine.exec l tr = some l' ∧ l'.Simulates h.enterSetter := by
  obtain ⟨hcount, hmutex, hstarter, hstarted⟩ := hsim
  rw [hset] at hstarted
  have hcall : l.step (.countDown .started) = some { l with
      pc := Function.update l.pc .started .countLock } := if_pos hstarted
  refine ⟨_, _, exec_one hcall, hcount, ?_, waiterPlace_stay l.pc .countLock hstarter,
    setterPlace_move l.pc rfl⟩
  rw [hset] at hmutex
  show MutexPlace l.mutex .lock h.waiter
  cases hw : h.waiter with
  | _ =>
    rw [hw] at hmutex
    exact hmutex

end CountDownLatch
