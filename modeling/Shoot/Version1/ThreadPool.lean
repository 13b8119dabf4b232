import Mathlib.Data.Fintype.Basic
import Shoot.Version1.TaskQueue

/-!
# The workers of version 1.0

The workers of a `Thread_pool` share one task queue with the threads that add to
it. Every access to the queue is made under its mutex, and a worker runs its
task under it too. A worker that finds the queue empty waits on the condition
variable, which gives the mutex back until a signal, or nothing at all, wakes
it; it takes the mutex again then, and looks at the size again. A thread that
adds a task signals when it has unlocked the mutex.

Signals are not kept. One that is sent while no worker waits is lost, and one
that wakes a worker may be for a task that another one takes first. No task is
left behind by this (`ThreadPool.exactly_once`): a worker goes to wait only
under the mutex, when the size is zero, and whoever makes it positive after that
still has its signal to send.

The mutex and the condition variable have their standard semantics, and `close`
stays zero. A task does not use the queue itself.
-/

namespace Version1

/-- The mutex, and what the thread is at that holds it. -/
inductive Mutex (W A : Type*) where
  | free
  /-- A worker is at the test of the size. -/
  | test (w : W)
  /-- A worker is in `handle` and has taken the node off the list. -/
  | unlinked (w : W) (task : ℕ)
  /-- A worker is in `handle` and has counted the task and called its function. -/
  | running (w : W) (task : ℕ)
  /-- A thread is in `add`. -/
  | adding (a : A)
  /-- A thread is in `add` and has put its node into the list. -/
  | linked (a : A)
deriving DecidableEq, Repr

/-- Where a worker is in `thread_handler`. -/
inductive WorkerPc where
  /-- Before `pthread_mutex_lock`. -/
  | lock
  /-- It holds the mutex. -/
  | inside
  /-- Blocked in `pthread_cond_wait`. -/
  | waiting
  /-- Woken in `pthread_cond_wait`, before it has the mutex again. -/
  | woken
deriving DecidableEq, Repr

/-- Where a thread is that adds tasks. -/
inductive AdderPc where
  /-- Before `pthread_mutex_lock`. -/
  | lock
  /-- It holds the mutex. -/
  | inside
  /-- Between `pthread_mutex_unlock` and `pthread_cond_signal`. -/
  | signal
deriving DecidableEq, Repr

/-- **The workers `W`, the threads `A` that add tasks, and their queue.** A task
is known by the number of tasks that were added before it. -/
structure ThreadPool (W A : Type*) where
  /-- `tq`. -/
  queue : TaskQueue ℕ
  /-- `tq->mut`. -/
  mutex : Mutex W A
  worker : W → WorkerPc
  adder : A → AdderPc
  /-- How many tasks were added. -/
  added : ℕ
  /-- The tasks whose functions were called, in order. -/
  executed : List ℕ

/-- What the threads do. -/
inductive PoolEvent (W A : Type*) where
  /-- A worker takes the mutex, the first time or to return from its wait. -/
  | lock (w : W)
  /-- A worker finds the size zero and waits. -/
  | wait (w : W)
  /-- A worker wakes without a signal. -/
  | wakeUp (w : W)
  /-- A worker enters `handle` and takes a node off the list. -/
  | unlink (w : W)
  /-- A worker counts the task and calls its function. -/
  | call (w : W) (task : ℕ)
  /-- The function returns; the worker deletes the node and unlocks. -/
  | finish (w : W) (task : ℕ)
  /-- A thread calls `add` and takes the mutex. -/
  | addLock (a : A)
  /-- It puts a new node into the list. -/
  | addLink (a : A) (task : ℕ)
  /-- It counts the task and unlocks. Nobody else reads the size before. -/
  | addUnlock (a : A)
  /-- It signals, which wakes a worker if one waits. -/
  | addSignal (a : A) (w : Option W)
deriving DecidableEq, Repr

namespace ThreadPool

variable {W A : Type*}

/-- **One step of a thread.** -/
def step [Fintype W] [DecidableEq W] [DecidableEq A] (s : ThreadPool W A) :
    PoolEvent W A → Option (ThreadPool W A)
  | .lock w =>
    if s.mutex = .free ∧ (s.worker w = .lock ∨ s.worker w = .woken) then
      some { s with mutex := .test w, worker := Function.update s.worker w .inside }
    else
      none
  | .wait w =>
    if s.mutex = .test w ∧ s.queue.size = 0 then
      some { s with mutex := .free, worker := Function.update s.worker w .waiting }
    else
      none
  | .wakeUp w =>
    if s.worker w = .waiting then
      some { s with worker := Function.update s.worker w .woken }
    else
      none
  | .unlink w =>
    if s.mutex = .test w ∧ s.queue.size ≠ 0 then
      s.queue.unlink.map fun r => { s with queue := r.2, mutex := .unlinked w r.1 }
    else
      none
  | .call w task =>
    if s.mutex = .unlinked w task then
      (s.queue.nodes task).map fun n =>
        { s with
          queue := s.queue.addSize (-1)
          mutex := .running w task
          executed := s.executed ++ [n.value] }
    else
      none
  | .finish w task =>
    if s.mutex = .running w task then
      some { s with
             queue := s.queue.delete task
             mutex := .free
             worker := Function.update s.worker w .lock }
    else
      none
  | .addLock a =>
    if s.mutex = .free ∧ s.adder a = .lock then
      some { s with mutex := .adding a, adder := Function.update s.adder a .inside }
    else
      none
  | .addLink a task =>
    if s.mutex = .adding a ∧ s.queue.nodes task = none then
      some { s with
             queue := s.queue.link task s.added
             mutex := .linked a
             added := s.added + 1 }
    else
      none
  | .addUnlock a =>
    if s.mutex = .linked a then
      some { s with
             queue := s.queue.addSize 1
             mutex := .free
             adder := Function.update s.adder a .signal }
    else
      none
  | .addSignal a (some w) =>
    if s.adder a = .signal ∧ s.worker w = .waiting then
      some { s with
             worker := Function.update s.worker w .woken
             adder := Function.update s.adder a .lock }
    else
      none
  | .addSignal a none =>
    if s.adder a = .signal ∧ ∀ w, s.worker w ≠ .waiting then
      some { s with adder := Function.update s.adder a .lock }
    else
      none

/-- **A new queue**, with what its dummy held, and the threads that use it. -/
def machine (W A : Type*) [Fintype W] [DecidableEq W] [DecidableEq A] (next : ℕ) :
    Machine (ThreadPool W A) (PoolEvent W A) :=
  ⟨⟨.new next, .free, fun _ => .lock, fun _ => .lock, 0, []⟩, step⟩

/-- By how much the size is ahead of the length of the list. -/
def ahead (s : ThreadPool W A) : ℤ :=
  match s.mutex with
  | .unlinked _ _ => 1
  | .linked _ => -1
  | _ => 0

/-- The task that was taken off the list and not called yet. -/
def inHand (s : ThreadPool W A) : List ℕ :=
  match s.mutex with
  | .unlinked _ task => ((s.queue.nodes task).map LinkedNode.value).toList
  | _ => []

/-- **Stuck**: there are tasks, every worker is blocked in its wait, and no
thread has a signal to send. -/
def Stuck (s : ThreadPool W A) : Prop :=
  0 < s.queue.size ∧ (∀ w, s.worker w = .waiting) ∧ ∀ a, s.adder a ≠ .signal

/-- **The tasks are accounted for.** The list behind the dummy is as long as the
size says, but for what the holder of the mutex is doing; the tasks that were
added are those called, the one in hand and those in the list; and the node of a
running task is no longer in the list. -/
structure Sound (stop : ℕ) (s : ThreadPool W A) (l : List (ℕ × ℕ)) : Prop where
  holds : s.queue.Holds stop l
  size_eq : s.queue.size = l.length + s.ahead
  perm : (s.executed ++ s.inHand ++ l.map Prod.snd).Perm (List.range s.added)
  apart : ∀ w task, s.mutex = .unlinked w task ∨ s.mutex = .running w task →
    task ∉ l.map Prod.fst

variable {stop : ℕ} {s s' : ThreadPool W A} {l : List (ℕ × ℕ)} {e : PoolEvent W A}

/-- A step that moves the mutex between threads outside of `handle` and `add`,
or not at all, leaves the tasks as they are. -/
theorem Sound.of_queue (h : s.Sound stop l) (hq : s'.queue = s.queue)
    (hadded : s'.added = s.added) (hexec : s'.executed = s.executed)
    (hahead : s'.ahead = s.ahead) (hhand : s'.inHand = s.inHand)
    (hapart : ∀ w task, s'.mutex = .unlinked w task ∨ s'.mutex = .running w task →
      s.mutex = .unlinked w task ∨ s.mutex = .running w task) : s'.Sound stop l where
  holds := hq ▸ h.holds
  size_eq := by rw [hq, hahead, h.size_eq]
  perm := by
    rw [hexec, hhand, hadded]
    exact h.perm
  apart w task hm := h.apart w task (hapart w task hm)

/-- While nobody is in the middle of `handle` or `add`, the size is right, and no
task is in hand. -/
theorem Sound.quiet (h : s.Sound stop l) (hahead : s.ahead = 0) (hhand : s.inHand = []) :
    s.queue.size = l.length ∧ (s.executed ++ l.map Prod.snd).Perm (List.range s.added) := by
  have hsize := h.size_eq
  have hperm := h.perm
  rw [hahead, Int.add_zero] at hsize
  rw [hhand, List.append_nil] at hperm
  exact ⟨hsize, hperm⟩

variable [Fintype W] [DecidableEq W] [DecidableEq A]

/-- **What a step does to the tasks.** -/
theorem Sound.step (h : s.Sound stop l) (hs : s.step e = some s') : ∃ l', s'.Sound stop l' := by
  cases e with
  | lock w =>
    obtain ⟨⟨hm, -⟩, hs⟩ := Option.ite_none_right_eq_some.mp hs
    cases hs
    exact ⟨l, h.of_queue rfl rfl rfl (by simp [ahead, hm]) (by simp [inHand, hm]) (by simp)⟩
  | wait w =>
    obtain ⟨⟨hm, -⟩, hs⟩ := Option.ite_none_right_eq_some.mp hs
    cases hs
    exact ⟨l, h.of_queue rfl rfl rfl (by simp [ahead, hm]) (by simp [inHand, hm]) (by simp)⟩
  | wakeUp w =>
    obtain ⟨-, hs⟩ := Option.ite_none_right_eq_some.mp hs
    cases hs
    exact ⟨l, h.of_queue rfl rfl rfl rfl rfl fun _ _ hm => hm⟩
  | unlink w =>
    obtain ⟨⟨hm, hsize⟩, hs⟩ := Option.ite_none_right_eq_some.mp hs
    obtain ⟨r, hr, hs⟩ := Option.map_eq_some_iff.mp hs
    cases hs
    obtain ⟨hlen, hperm⟩ := h.quiet (by simp [ahead, hm]) (by simp [inHand, hm])
    cases l with
    | nil => exact absurd hlen hsize
    | cons b l =>
      obtain ⟨q', hq, -, hsize', ⟨n, hn⟩, hl, hout⟩ := h.holds.unlink
      cases hq.symm.trans hr
      refine ⟨l, hl, ?_, ?_, ?_⟩
      · show q'.size = l.length + 1
        rw [hsize', hlen, List.length_cons]
        rfl
      · show (s.executed ++ ((q'.nodes b.1).map LinkedNode.value).toList ++ _).Perm _
        rw [hn, List.append_assoc]
        exact hperm
      · simpa using hout
  | call w task =>
    obtain ⟨hm, hs⟩ := Option.ite_none_right_eq_some.mp hs
    obtain ⟨n, hn, hs⟩ := Option.map_eq_some_iff.mp hs
    cases hs
    have hlen : s.queue.size = l.length + 1 := by simpa [ahead, hm] using h.size_eq
    refine ⟨l, h.holds.addSize _, ?_, ?_, ?_⟩
    · show s.queue.size + -1 = l.length + 0
      omega
    · simpa [inHand, hm, hn] using h.perm
    · simpa using h.apart w task (Or.inl hm)
  | finish w task =>
    obtain ⟨hm, hs⟩ := Option.ite_none_right_eq_some.mp hs
    cases hs
    refine ⟨l, h.holds.delete (h.apart w task (Or.inr hm)), ?_, ?_, by simp⟩
    · simpa [ahead, hm, TaskQueue.delete] using h.size_eq
    · simpa [inHand, hm] using h.perm
  | addLock a =>
    obtain ⟨⟨hm, -⟩, hs⟩ := Option.ite_none_right_eq_some.mp hs
    cases hs
    exact ⟨l, h.of_queue rfl rfl rfl (by simp [ahead, hm]) (by simp [inHand, hm]) (by simp)⟩
  | addLink a task =>
    obtain ⟨⟨hm, hnew⟩, hs⟩ := Option.ite_none_right_eq_some.mp hs
    cases hs
    obtain ⟨hlen, hperm⟩ := h.quiet (by simp [ahead, hm]) (by simp [inHand, hm])
    refine ⟨(task, s.added) :: l, h.holds.link hnew s.added, ?_, ?_, by simp⟩
    · show s.queue.size = (l.length + 1 : ℕ) + -1
      omega
    · show (s.executed ++ [] ++ s.added :: l.map Prod.snd).Perm (List.range (s.added + 1))
      rw [List.append_nil]
      exact perm_range_succ hperm
  | addUnlock a =>
    obtain ⟨hm, hs⟩ := Option.ite_none_right_eq_some.mp hs
    cases hs
    have hlen : s.queue.size = l.length + -1 := by simpa [ahead, hm] using h.size_eq
    refine ⟨l, h.holds.addSize 1, ?_, ?_, by simp⟩
    · show s.queue.size + 1 = l.length + 0
      omega
    · simpa [inHand, hm] using h.perm
  | addSignal a w =>
    cases w with
    | some w =>
      obtain ⟨-, hs⟩ := Option.ite_none_right_eq_some.mp hs
      cases hs
      exact ⟨l, h.of_queue rfl rfl rfl rfl rfl fun _ _ hm => hm⟩
    | none =>
      obtain ⟨-, hs⟩ := Option.ite_none_right_eq_some.mp hs
      cases hs
      exact ⟨l, h.of_queue rfl rfl rfl rfl rfl fun _ _ hm => hm⟩

/-- **No step gets the workers stuck.** A worker waits only when the size is
zero, and the size grows only with a signal to be sent, which finds a worker that
waits or leaves none waiting. -/
theorem not_stuck_step [Nonempty W] (h : ¬ s.Stuck) (hs : s.step e = some s') : ¬ s'.Stuck := by
  rintro ⟨hpos, hwait, hsignal⟩
  cases e with
  | lock w =>
    obtain ⟨-, hs⟩ := Option.ite_none_right_eq_some.mp hs
    cases hs
    exact absurd (hwait w) (by simp)
  | wait w =>
    obtain ⟨⟨-, hsize⟩, hs⟩ := Option.ite_none_right_eq_some.mp hs
    cases hs
    exact absurd hpos (by rw [hsize]; decide)
  | wakeUp w =>
    obtain ⟨-, hs⟩ := Option.ite_none_right_eq_some.mp hs
    cases hs
    exact absurd (hwait w) (by simp)
  | unlink w =>
    obtain ⟨-, hs⟩ := Option.ite_none_right_eq_some.mp hs
    obtain ⟨r, hr, hs⟩ := Option.map_eq_some_iff.mp hs
    cases hs
    exact h ⟨TaskQueue.size_of_unlink hr ▸ hpos, hwait, hsignal⟩
  | call w task =>
    obtain ⟨-, hs⟩ := Option.ite_none_right_eq_some.mp hs
    obtain ⟨n, -, hs⟩ := Option.map_eq_some_iff.mp hs
    cases hs
    have hless : 0 < s.queue.size + -1 := hpos
    exact h ⟨by omega, hwait, hsignal⟩
  | finish w task =>
    obtain ⟨-, hs⟩ := Option.ite_none_right_eq_some.mp hs
    cases hs
    exact absurd (hwait w) (by simp)
  | addLock a =>
    obtain ⟨⟨-, ha⟩, hs⟩ := Option.ite_none_right_eq_some.mp hs
    cases hs
    refine h ⟨hpos, hwait, fun b hb => ?_⟩
    have hne : b ≠ a := by
      rintro rfl
      cases ha.symm.trans hb
    exact hsignal b (by rw [← hb]; exact Function.update_of_ne hne _ _)
  | addLink a task =>
    obtain ⟨-, hs⟩ := Option.ite_none_right_eq_some.mp hs
    cases hs
    exact h ⟨hpos, hwait, hsignal⟩
  | addUnlock a =>
    obtain ⟨-, hs⟩ := Option.ite_none_right_eq_some.mp hs
    cases hs
    exact hsignal a (Function.update_self ..)
  | addSignal a w =>
    cases w with
    | some w =>
      obtain ⟨-, hs⟩ := Option.ite_none_right_eq_some.mp hs
      cases hs
      exact absurd (hwait w) (by simp)
    | none =>
      obtain ⟨⟨-, hnone⟩, hs⟩ := Option.ite_none_right_eq_some.mp hs
      cases hs
      obtain ⟨w⟩ := ‹Nonempty W›
      exact hnone w (hwait w)

/-- Every reachable state is sound. -/
theorem exists_sound (h : (machine W A stop).Reachable s) : ∃ l, s.Sound stop l := by
  refine h.invariant (I := fun s : ThreadPool W A => ∃ l, s.Sound stop l) ⟨[], ?_⟩ ?_
  · exact ⟨TaskQueue.holds_new, rfl, List.Perm.refl _, by simp [machine]⟩
  · exact fun _ _ _ ⟨_, hl⟩ hs => hl.step hs

/-- **Exactly once, and no lost wake-up.** For any number of workers and of
threads that add tasks, in whatever order they take their steps, there is a list
behind the dummy such that: its length is the size whenever the mutex is free; a
task is executed at most once, and each task that was added is executed, or in
the list, or the one that the holder of the mutex has just taken off it to
execute; a worker that enters `handle` finds a task; and if there are workers at
all, they are not all blocked while there is a task and no signal is to be
sent. -/
theorem exactly_once (h : (machine W A stop).Reachable s) :
    ∃ l, s.queue.Holds stop l
      ∧ (s.mutex = .free → s.queue.size = l.length)
      ∧ (s.executed.Nodup ∧ (∀ x, x < s.added ↔
          x ∈ s.executed ∨ x ∈ l.map Prod.snd ∨ x ∈ s.inHand)
        ∧ (∀ x ∈ s.executed, x ∉ l.map Prod.snd) ∧ (s.mutex = .free → s.inHand = []))
      ∧ (∀ w, s.mutex = .test w → s.queue.size ≠ 0 → l ≠ [])
      ∧ (Nonempty W → ¬ s.Stuck) := by
  obtain ⟨l, hl⟩ := exists_sound h
  have hnodup : (s.executed ++ s.inHand ++ l.map Prod.snd).Nodup :=
    hl.perm.nodup_iff.mpr List.nodup_range
  have hdisjoint : ∀ x ∈ s.executed, x ∉ l.map Prod.snd := fun x hx hxl =>
    List.disjoint_of_nodup_append hnodup (List.mem_append_left _ hx) hxl
  refine ⟨l, hl.holds, fun hm => ?_, ⟨?_, fun x => ?_, hdisjoint, fun hm => ?_⟩,
    fun w hm hsize hnil => hsize ?_, fun hW => ?_⟩
  · simpa [ahead, hm] using hl.size_eq
  · exact hnodup.of_append_left.of_append_left
  · rw [← List.mem_range, ← hl.perm.mem_iff, List.mem_append, List.mem_append]
    tauto
  · unfold inHand
    rw [hm]
  · simpa [ahead, hm, hnil] using hl.size_eq
  · exact h.invariant (I := fun s : ThreadPool W A => ¬ s.Stuck)
      (fun hstuck => lt_irrefl 0 hstuck.1) fun _ _ _ hs hstep => not_stuck_step hs hstep

/-- Two workers wait when a task is added. The signal wakes one of them, the
other one wakes by itself and takes the task, and the first finds nothing left. -/
theorem exactly_once_two :
    ∃ s : ThreadPool (Fin 2) Unit, s.executed = [0]
      ∧ (∃ l, s.queue.Holds 7 l ∧ (s.mutex = .free → s.queue.size = l.length)) ∧ ¬ s.Stuck := by
  have hrun : (((machine (Fin 2) Unit 7).exec (machine (Fin 2) Unit 7).init
      [.lock 0, .wait 0, .lock 1, .wait 1, .addLock (), .addLink () 1, .addUnlock (),
        .addSignal () (some 0), .wakeUp 1, .lock 1, .unlink 1, .call 1 1, .finish 1 1,
        .lock 0, .wait 0]).map ThreadPool.executed) = some [0] := by
    decide +kernel
  obtain ⟨s, hs, hexec⟩ := Option.map_eq_some_iff.mp hrun
  obtain ⟨l, hl, hsize, -, -, hstuck⟩ := exactly_once ⟨_, hs⟩
  exact ⟨s, hexec, ⟨l, hl, hsize⟩, hstuck ⟨0⟩⟩

end ThreadPool

end Version1
