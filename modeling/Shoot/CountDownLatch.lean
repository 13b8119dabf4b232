import Mathlib.Algebra.Order.Ring.Int
import Mathlib.Logic.Function.Basic
import Shoot.Machine

/-!
# The latch

A `CountDownLatch` is a counter under a mutex, with a condition variable.
`wait` takes the mutex and blocks on the condition variable as long as the
counter is positive; `count_down` takes it, decrements the counter, and
notifies all the blocked threads if the counter is zero now. `Thread::start`
waits on a latch of one for the new thread to count it down, and would hang if
the notification got lost.

The notification is sent once, by the call that takes the counter from one to
zero, and a thread that blocks after it is never woken. There is no such
thread: a thread goes from the test of the counter to its block without giving
the mutex back, so it blocks under a positive counter, and a positive counter
has its transition to zero ahead. `CountDownLatch.Sound` says this of every
reachable state – where a thread is blocked, the counter is positive or the
call that took it to zero has its notification still to send – and
`CountDownLatch.released` draws the conclusion.

The mutex and the condition variable have their standard semantics: a blocked
thread is woken by a notification, or by nothing at all, and takes the mutex
again before `pthread_cond_wait` returns.
-/

/-- The mutex, and the statement that the thread is at that holds it. -/
inductive LatchMutex (ι : Type*) where
  | free
  /-- In `wait`, at the test of `count`. -/
  | test (i : ι)
  /-- In `wait`, at `condition_.wait()`. -/
  | sleep (i : ι)
  /-- In `wait`, behind the loop. -/
  | leave (i : ι)
  /-- In `count_down`, at `--count`. -/
  | decrement (i : ι)
  /-- In `count_down`, at the test of `count`, with the decrement it made. -/
  | zeroTest (i : ι) (k : ℕ)
  /-- In `count_down`, at `condition_.notify_all()`. -/
  | notifyAll (i : ι) (k : ℕ)
  /-- In `count_down`, behind its last statement. -/
  | unlock (i : ι) (k : ℕ)
deriving DecidableEq, Repr

/-- Where a thread is. -/
inductive LatchPc where
  /-- In neither `wait` nor `count_down`. -/
  | outside
  /-- In `wait`, before `mutex_.lock()`. -/
  | waitLock
  /-- In `count_down`, before `mutex_.lock()`. -/
  | countLock
  /-- It holds the mutex. -/
  | inside
  /-- Blocked in `pthread_cond_wait`. -/
  | blocked
  /-- Woken in `pthread_cond_wait`, before it has the mutex again. -/
  | woken
deriving DecidableEq, Repr

/-- **The latch and the threads `ι` that use it.** A decrement is known by its
number, from one on. -/
structure CountDownLatch (ι : Type*) where
  count : ℤ
  /-- `mutex_`. -/
  mutex : LatchMutex ι
  pc : ι → LatchPc
  /-- How many decrements were made. -/
  decrements : ℕ
  /-- The decrements whose calls have returned. -/
  returned : List ℕ

/-- What the threads do. -/
inductive LatchEvent (ι : Type*) where
  /-- A thread calls `wait`. -/
  | wait (i : ι)
  /-- A thread calls `count_down`. -/
  | countDown (i : ι)
  /-- A thread takes the mutex, for its call or to return from its block. -/
  | lock (i : ι)
  /-- The thread that holds the mutex makes its next step. -/
  | run
  /-- A thread wakes without a notification. -/
  | wakeUp (i : ι)
deriving DecidableEq, Repr

namespace CountDownLatch

variable {ι : Type*} [DecidableEq ι]

/-- `pthread_cond_broadcast`: the blocked threads wake. -/
def wakeAll (pc : ι → LatchPc) (i : ι) : LatchPc :=
  if pc i = .blocked then .woken else pc i

/-- The next step of the thread that holds the mutex. A decrement of the least
`int` has no behaviour. -/
def run (s : CountDownLatch ι) : Option (CountDownLatch ι) :=
  match s.mutex with
  | .free => none
  | .test i => some { s with mutex := if s.count > 0 then .sleep i else .leave i }
  | .sleep i => some { s with mutex := .free, pc := Function.update s.pc i .blocked }
  | .leave i => some { s with mutex := .free, pc := Function.update s.pc i .outside }
  | .decrement i =>
    if -2 ^ 31 < s.count then
      some { s with
             count := s.count - 1
             mutex := .zeroTest i (s.decrements + 1)
             decrements := s.decrements + 1 }
    else
      none
  | .zeroTest i k =>
    some { s with mutex := if s.count = 0 then .notifyAll i k else .unlock i k }
  | .notifyAll i k => some { s with mutex := .unlock i k, pc := wakeAll s.pc }
  | .unlock i k =>
    some { s with
           mutex := .free
           pc := Function.update s.pc i .outside
           returned := s.returned ++ [k] }

/-- **One step of a thread.** -/
def step (s : CountDownLatch ι) : LatchEvent ι → Option (CountDownLatch ι)
  | .wait i =>
    if s.pc i = .outside then
      some { s with pc := Function.update s.pc i .waitLock }
    else
      none
  | .countDown i =>
    if s.pc i = .outside then
      some { s with pc := Function.update s.pc i .countLock }
    else
      none
  | .lock i =>
    if s.mutex = .free ∧ (s.pc i = .waitLock ∨ s.pc i = .woken) then
      some { s with mutex := .test i, pc := Function.update s.pc i .inside }
    else if s.mutex = .free ∧ s.pc i = .countLock then
      some { s with mutex := .decrement i, pc := Function.update s.pc i .inside }
    else
      none
  | .run => s.run
  | .wakeUp i =>
    if s.pc i = .blocked then
      some { s with pc := Function.update s.pc i .woken }
    else
      none

/-- **A latch of `N`**, and threads that have not called it yet. -/
def machine (ι : Type*) [DecidableEq ι] (N : ℕ) :
    Machine (CountDownLatch ι) (LatchEvent ι) :=
  ⟨⟨N, .free, fun _ => .outside, 0, []⟩, step⟩

/-- What the holder of the mutex knows: about the counter in `wait`, and about
its own decrement in `count_down`. -/
def Knows (s : CountDownLatch ι) : LatchMutex ι → Prop
  | .sleep _ => 0 < s.count
  | .leave _ => s.count ≤ 0
  | .zeroTest _ k | .notifyAll _ k | .unlock _ k => k = s.decrements ∧ k ∉ s.returned
  | .free | .test _ | .decrement _ => True

/-- The call that made the decrement number `N` has not got to its
notification, if it has one to send. -/
def Notifying (N : ℕ) : LatchMutex ι → Prop
  | .zeroTest _ k | .notifyAll _ k => k = N
  | _ => False

/-- **The blocked threads will be notified.** The counter is what the decrements
have left of `N`, and a thread is blocked only while the counter is positive, or
while the last decrement's notification is still to be sent. -/
structure Sound (N : ℕ) (s : CountDownLatch ι) : Prop where
  count_eq : s.count = N - s.decrements
  returned_le : ∀ k ∈ s.returned, k ≤ s.decrements
  knows : s.Knows s.mutex
  blocked : ∀ i, s.pc i = .blocked → 0 < s.count ∨ Notifying N s.mutex

variable {N : ℕ} {s s' : CountDownLatch ι} {i : ι}

/-- A thread that is blocked after another one moved was blocked before. -/
theorem blocked_of_update {pc : ι → LatchPc} {p : LatchPc} {j : ι}
    (hp : p ≠ .blocked) (h : Function.update pc i p j = .blocked) : pc j = .blocked := by
  by_cases hj : j = i
  · rw [hj, Function.update_self] at h
    exact absurd h hp
  · rwa [Function.update_of_ne hj] at h

omit [DecidableEq ι] in
/-- No thread is blocked after a notification. -/
theorem wakeAll_ne_blocked (pc : ι → LatchPc) (j : ι) : wakeAll pc j ≠ .blocked := by
  unfold wakeAll
  split
  · simp
  · assumption

/-- A step outside of the mutex moves one thread, and does not block it. -/
theorem Sound.move (h : s.Sound N) {p : LatchPc} (hp : p ≠ .blocked) :
    Sound N { s with pc := Function.update s.pc i p } where
  count_eq := h.count_eq
  returned_le := h.returned_le
  knows := h.knows
  blocked j hj := h.blocked j (blocked_of_update hp hj)

/-- A thread takes the mutex. Nothing is known to it yet. -/
theorem Sound.take (h : s.Sound N) (hfree : s.mutex = .free) {m : LatchMutex ι}
    (hm : m = .test i ∨ m = .decrement i) :
    Sound N { s with mutex := m, pc := Function.update s.pc i .inside } where
  count_eq := h.count_eq
  returned_le := h.returned_le
  knows := by
    rcases hm with rfl | rfl
    · trivial
    · trivial
  blocked j hj := by
    have hbefore := h.blocked j (blocked_of_update (by simp) hj)
    rw [hfree] at hbefore
    exact Or.inl (hbefore.resolve_right id)

/-- **A step of the holder of the mutex.** -/
theorem Sound.run (h : s.Sound N) (hs : s.run = some s') : s'.Sound N := by
  obtain ⟨hcount, hreturned, hknows, hblocked⟩ := h
  unfold CountDownLatch.run at hs
  cases hm : s.mutex with
  | free =>
    rw [hm] at hs
    cases hs
  | test i =>
    rw [hm] at hs hblocked
    cases hs
    refine ⟨hcount, hreturned, ?_, fun j hj => Or.inl ((hblocked j hj).resolve_right id)⟩
    show Knows _ (if s.count > 0 then LatchMutex.sleep i else LatchMutex.leave i)
    split
    · assumption
    · exact not_lt.mp ‹_›
  | sleep i =>
    rw [hm] at hs hknows
    cases hs
    exact ⟨hcount, hreturned, trivial, fun _ _ => Or.inl hknows⟩
  | leave i =>
    rw [hm] at hs hblocked
    cases hs
    refine ⟨hcount, hreturned, trivial, fun j hj => Or.inl ?_⟩
    exact (hblocked j (blocked_of_update (by simp) hj)).resolve_right id
  | decrement i =>
    rw [hm] at hs hblocked
    obtain ⟨-, hs⟩ := Option.ite_none_right_eq_some.mp hs
    cases hs
    refine ⟨?_, fun k hk => Nat.le_succ_of_le (hreturned k hk), ⟨rfl, fun hk => ?_⟩, ?_⟩
    · show s.count - 1 = N - ((s.decrements + 1 : ℕ) : ℤ)
      omega
    · exact absurd (hreturned _ hk) (by omega)
    · -- the counter was positive: it is still, or this is the decrement number `N`
      intro j hj
      have hpos : 0 < s.count := (hblocked j hj).resolve_right id
      show 0 < s.count - 1 ∨ s.decrements + 1 = N
      omega
  | zeroTest i k =>
    rw [hm] at hs hknows hblocked
    cases hs
    obtain ⟨hk, hnot⟩ : k = s.decrements ∧ k ∉ s.returned := hknows
    by_cases hzero : s.count = 0
    · rw [if_pos hzero]
      exact ⟨hcount, hreturned, ⟨hk, hnot⟩, hblocked⟩
    · -- the decrement number `N` would have left zero
      rw [if_neg hzero]
      refine ⟨hcount, hreturned, ⟨hk, hnot⟩, fun j hj => Or.inl ?_⟩
      refine (hblocked j hj).resolve_right fun hN => hzero ?_
      have hkN : k = N := hN
      omega
  | notifyAll i k =>
    rw [hm] at hs hknows
    cases hs
    exact ⟨hcount, hreturned, hknows, fun j hj => absurd hj (wakeAll_ne_blocked s.pc j)⟩
  | unlock i k =>
    rw [hm] at hs hknows hblocked
    cases hs
    obtain ⟨hk, -⟩ : k = s.decrements ∧ k ∉ s.returned := hknows
    refine ⟨hcount, fun n hn => ?_, trivial, fun j hj => Or.inl ?_⟩
    · rcases Log.mem_concat.mp hn with hn | rfl
      · exact hreturned n hn
      · exact Nat.le_of_eq hk
    · exact (hblocked j (blocked_of_update (by simp) hj)).resolve_right id

/-- **A step of any thread.** -/
theorem Sound.step {e : LatchEvent ι} (h : s.Sound N) (hs : s.step e = some s') :
    s'.Sound N := by
  cases e with
  | wait i =>
    obtain ⟨-, hs⟩ := Option.ite_none_right_eq_some.mp hs
    cases hs
    exact h.move (by simp)
  | countDown i =>
    obtain ⟨-, hs⟩ := Option.ite_none_right_eq_some.mp hs
    cases hs
    exact h.move (by simp)
  | lock i =>
    unfold CountDownLatch.step at hs
    dsimp only at hs
    split at hs
    · next hfree =>
      cases hs
      exact h.take hfree.1 (Or.inl rfl)
    · obtain ⟨⟨hfree, -⟩, hs⟩ := Option.ite_none_right_eq_some.mp hs
      cases hs
      exact h.take hfree (Or.inr rfl)
  | run => exact h.run hs
  | wakeUp i =>
    obtain ⟨-, hs⟩ := Option.ite_none_right_eq_some.mp hs
    cases hs
    exact h.move (by simp)

/-- Every reachable state is sound. -/
theorem sound_of_reachable (h : (machine ι N).Reachable s) : s.Sound N := by
  have hinit : (machine ι N).init.Sound N :=
    ⟨(Int.sub_zero _).symm, by simp [machine], trivial, by simp [machine]⟩
  exact h.invariant hinit fun _ _ _ hi hs => hi.step hs

omit [DecidableEq ι] in
/-- While the call that made the decrement number `N` has its notification to send, it
has not returned. -/
theorem Sound.notMem_of_notifying (h : s.Sound N) (hn : Notifying N s.mutex) :
    N ∉ s.returned := by
  have hknows := h.knows
  cases hm : s.mutex with
  | zeroTest j k | notifyAll j k =>
    rw [hm] at hn hknows
    obtain rfl : k = N := hn
    exact hknows.2
  | _ =>
    rw [hm] at hn
    exact hn.elim

/-- **The holder of the mutex is never stuck**: each of the first `N + 2 ^ 31` decrements
is one of an `int` above the least. -/
theorem isSome_run (h : s.Sound N) (hm : s.mutex ≠ .free) (hmade : s.decrements < N + 2 ^ 31) :
    s.run.isSome := by
  have hcount := h.count_eq
  unfold run
  cases hm' : s.mutex with
  | free => exact absurd hm' hm
  | decrement i =>
    dsimp only
    rw [if_pos (by omega)]
    rfl
  | _ => rfl

/-- A thread that finds the counter no longer positive leaves the loop. -/
theorem step_test (hm : s.mutex = .test i) (hcount : s.count ≤ 0) :
    (machine ι N).step s .run = some { s with mutex := .leave i } := by
  show s.run = _
  rw [run, hm]
  dsimp only
  rw [if_neg (not_lt.mpr hcount)]

/-- A thread behind the loop returns. -/
theorem step_leave (hm : s.mutex = .leave i) :
    (machine ι N).step s .run
      = some { s with mutex := .free, pc := Function.update s.pc i .outside } := by
  show s.run = _
  rw [run, hm]

/-- A thread that calls `wait`, or is woken in it, when the counter is not
positive, gets through it in three steps. -/
theorem exec_wait (hcount : s.count ≤ 0) (hfree : s.mutex = .free)
    (hpc : s.pc i = .waitLock ∨ s.pc i = .woken) :
    (machine ι N).exec s [.lock i, .run, .run]
      = some { s with pc := Function.update s.pc i .outside } := by
  have hlock : (machine ι N).step s (.lock i)
      = some { s with mutex := .test i, pc := Function.update s.pc i .inside } :=
    if_pos ⟨hfree, hpc⟩
  have htest : (machine ι N).step
        { s with mutex := .test i, pc := Function.update s.pc i .inside } .run
      = some { s with mutex := .leave i, pc := Function.update s.pc i .inside } :=
    step_test rfl hcount
  have hleave : (machine ι N).step
        { s with mutex := .leave i, pc := Function.update s.pc i .inside } .run
      = some { s with
          mutex := .free
          pc := Function.update (Function.update s.pc i .inside) i .outside } :=
    step_leave rfl
  rw [Machine.exec_cons, hlock, Option.bind_some, Machine.exec_cons, htest, Option.bind_some,
    Machine.exec_cons, hleave, Option.bind_some, Machine.exec_nil, Function.update_idem, ← hfree]

/-- **Nobody leaves early and nobody is left behind.** For any number of
threads, in whatever order they call `wait` and `count_down` and take their
steps: a thread that leaves its `wait` has `N` decrements behind it; and once
the call that made the decrement number `N` has returned, no thread is blocked
or about to block, and a thread in `wait` that finds the mutex free takes it,
finds the counter no longer positive, and returns. -/
theorem released (h : (machine ι N).Reachable s) :
    (∀ i, s.mutex = .leave i → N ≤ s.decrements)
      ∧ (N ∈ s.returned →
        (∀ i, s.pc i ≠ .blocked) ∧ (∀ i, s.mutex ≠ .sleep i)
          ∧ ∀ i, s.mutex = .free → s.pc i = .waitLock ∨ s.pc i = .woken →
            (machine ι N).exec s [.lock i, .run, .run]
              = some { s with pc := Function.update s.pc i .outside }) := by
  have hsound := sound_of_reachable h
  have hcount := hsound.count_eq
  have hknows := hsound.knows
  refine ⟨fun i hm => ?_, fun hN => ?_⟩
  · rw [hm] at hknows
    have hle : s.count ≤ 0 := hknows
    omega
  · have hle : s.count ≤ 0 := by
      have hmade := hsound.returned_le N hN
      omega
    refine ⟨fun i hi => ?_, fun i hm => ?_, fun i hfree hpc => exec_wait hle hfree hpc⟩
    · have hnotify := (hsound.blocked i hi).resolve_left (not_lt.mpr hle)
      exact hsound.notMem_of_notifying hnotify hN
    · rw [hm] at hknows
      exact absurd hknows (not_lt.mpr hle)

/-- A thread waits on a latch of one and blocks, another one counts it down, and
a third one waits afterwards. -/
theorem released_one :
    ∃ s : CountDownLatch (Fin 3), s.returned = [1] ∧ s.pc 0 = .woken ∧ s.pc 2 = .waitLock
      ∧ (∀ i, s.pc i ≠ .blocked)
      ∧ (machine (Fin 3) 1).exec s [.lock 2, .run, .run]
        = some { s with pc := Function.update s.pc 2 .outside } := by
  have hrun : ((machine (Fin 3) 1).exec (machine (Fin 3) 1).init
      [.wait 0, .lock 0, .run, .run, .countDown 1, .lock 1, .wait 2, .run, .run, .run,
        .run]).map (fun s => (s.returned, s.mutex, s.pc 0, s.pc 2))
      = some ([1], .free, .woken, .waitLock) := by
    decide +kernel
  obtain ⟨s, hs, hend⟩ := Option.map_eq_some_iff.mp hrun
  obtain ⟨hreturned, hfree, h0, h2⟩ : s.returned = [1] ∧ s.mutex = .free ∧ s.pc 0 = .woken
      ∧ s.pc 2 = .waitLock := by simpa using hend
  obtain ⟨hblocked, -, hwait⟩ := (released ⟨_, hs⟩).2 (by simp [hreturned])
  exact ⟨s, hreturned, h0, h2, hblocked, hwait 2 hfree (Or.inl h2)⟩

end CountDownLatch
