import Mathlib.Data.Fintype.EquivFin
import Shoot.Progress
import Shoot.Version1.ThreadPool

/-!
# The workers get done

What the threads of a pool do costs steps, and who pays for them is counted here. A
task pays for nine: to be put into the list, counted and signalled, to wake a
worker, to be taken, called and deleted, and to send the worker to sleep again. A
worker pays for two when it starts, and for two each time it wakes for nothing. So
the threads cannot be busy for longer than that, and when none of them can go on,
every task has been executed and every worker waits (`ThreadPool.drains`).

A node of the list is allocated from when a task is added until it has been
executed, and no other node is (`ThreadPool.allocated_iff`): none leaks, and none is
deleted while it is in the list.
-/

namespace Version1

namespace ThreadPool

variable {W A : Type*} {stop : ℕ} {s s' : ThreadPool W A} {e : PoolEvent W A}

/-! ## The nodes -/

/-- The node that was taken off the list and not deleted. -/
def handled (s : ThreadPool W A) : Option ℕ :=
  match s.mutex with
  | .unlinked _ task | .running _ task => some task
  | _ => none

/-- **The allocated nodes are counted**: they are those that the size counts, but
for what the holder of the mutex is doing, and the one it has in hand. -/
structure Counted (s : ThreadPool W A) (nodes : Finset ℕ) : Prop where
  mem : ∀ a, (s.queue.nodes a).isSome = true ↔ a ∈ nodes
  card : (nodes.card : ℤ) = s.queue.size - s.ahead + s.handled.toList.length
  handled : ∀ task ∈ s.handled, task ∈ nodes

variable {nodes : Finset ℕ}

/-- A step that leaves the list and the node in hand alone. -/
theorem Counted.of_queue (h : s.Counted nodes) (hq : s'.queue = s.queue)
    (hahead : s'.ahead = s.ahead) (hhand : s'.handled = s.handled) : s'.Counted nodes where
  mem := by
    rw [hq]
    exact h.mem
  card := by rw [hq, hahead, hhand, h.card]
  handled := by
    rw [hhand]
    exact h.handled

/-- An entry of the memory is written: the node is allocated, or deleted. -/
theorem mem_update_iff {T : Type*} {m : ℕ → Option T} (hmem : ∀ a, (m a).isSome = true ↔ a ∈ nodes)
    (task a : ℕ) (v : Option T) : (Function.update m task v a).isSome = true
      ↔ a ∈ if v.isSome then insert task nodes else nodes.erase task := by
  rw [Function.update_apply]
  by_cases ha : a = task
  · rw [if_pos ha]
    cases v <;> simp [ha]
  · rw [if_neg ha, hmem]
    cases v <;> simp [ha]

variable [Fintype W] [DecidableEq W] [DecidableEq A]

/-- **The count of the nodes in each step.** -/
theorem Counted.step (h : s.Counted nodes) (hs : s.step e = some s') :
    ∃ nodes, s'.Counted nodes := by
  cases e with
  | lock w =>
    obtain ⟨⟨hm, -⟩, hs⟩ := Option.ite_none_right_eq_some.mp hs
    cases hs
    exact ⟨nodes, h.of_queue rfl (by simp [ahead, hm]) (by simp [ThreadPool.handled, hm])⟩
  | wait w =>
    obtain ⟨⟨hm, -⟩, hs⟩ := Option.ite_none_right_eq_some.mp hs
    cases hs
    exact ⟨nodes, h.of_queue rfl (by simp [ahead, hm]) (by simp [ThreadPool.handled, hm])⟩
  | wakeUp w =>
    obtain ⟨-, hs⟩ := Option.ite_none_right_eq_some.mp hs
    cases hs
    exact ⟨nodes, h.of_queue rfl rfl rfl⟩
  | unlink w =>
    obtain ⟨⟨hm, -⟩, hs⟩ := Option.ite_none_right_eq_some.mp hs
    obtain ⟨r, hr, hs⟩ := Option.map_eq_some_iff.mp hs
    obtain ⟨n, hn, rfl⟩ := Option.map_eq_some_iff.mp hr
    cases hs
    have hcard := h.card
    refine ⟨nodes, h.mem, ?_, ?_⟩
    · simp only [ahead, ThreadPool.handled, hm, Option.toList_none, List.length_nil] at hcard
      show (nodes.card : ℤ) = s.queue.size - 1 + ([s.queue.next].length : ℕ)
      rw [List.length_singleton]
      omega
    · rintro task ⟨⟩
      exact (h.mem _).mp (by rw [hn]; rfl)
  | call w task =>
    obtain ⟨hm, hs⟩ := Option.ite_none_right_eq_some.mp hs
    obtain ⟨n, -, hs⟩ := Option.map_eq_some_iff.mp hs
    cases hs
    have hcard := h.card
    refine ⟨nodes, h.mem, ?_, ?_⟩
    · simp only [ahead, ThreadPool.handled, hm] at hcard
      show (nodes.card : ℤ) = s.queue.size + -1 - 0 + ((some task).toList.length : ℕ)
      omega
    · intro a ha
      exact h.handled a (by simpa [ThreadPool.handled, hm] using ha)
  | finish w task =>
    obtain ⟨hm, hs⟩ := Option.ite_none_right_eq_some.mp hs
    cases hs
    have hcard := h.card
    have hmem : task ∈ nodes := h.handled task (by simp [ThreadPool.handled, hm])
    refine ⟨nodes.erase task, fun a => mem_update_iff h.mem task a none, ?_, ?_⟩
    · simp only [ahead, ThreadPool.handled, hm, Option.toList_some, List.length_singleton]
        at hcard
      have hpos : 0 < nodes.card := Finset.card_pos.mpr ⟨task, hmem⟩
      show ((nodes.erase task).card : ℤ) = s.queue.size - 0 + ((0 : ℕ) : ℤ)
      rw [Finset.card_erase_of_mem hmem]
      omega
    · rintro a ⟨⟩
  | addLock a =>
    obtain ⟨⟨hm, -⟩, hs⟩ := Option.ite_none_right_eq_some.mp hs
    cases hs
    exact ⟨nodes, h.of_queue rfl (by simp [ahead, hm]) (by simp [ThreadPool.handled, hm])⟩
  | addLink a task =>
    obtain ⟨⟨hm, hnew⟩, hs⟩ := Option.ite_none_right_eq_some.mp hs
    cases hs
    have hcard := h.card
    have hmem : task ∉ nodes := by
      rw [← h.mem, hnew]
      exact Bool.false_ne_true
    refine ⟨insert task nodes, fun b => mem_update_iff h.mem task b (some _), ?_, ?_⟩
    · simp only [ahead, ThreadPool.handled, hm, Option.toList_none, List.length_nil] at hcard
      show ((insert task nodes).card : ℤ) = s.queue.size - -1 + ((0 : ℕ) : ℤ)
      rw [Finset.card_insert_of_notMem hmem]
      omega
    · rintro b ⟨⟩
  | addUnlock a =>
    obtain ⟨hm, hs⟩ := Option.ite_none_right_eq_some.mp hs
    cases hs
    have hcard := h.card
    refine ⟨nodes, h.mem, ?_, ?_⟩
    · simp only [ahead, ThreadPool.handled, hm, Option.toList_none, List.length_nil] at hcard
      show (nodes.card : ℤ) = s.queue.size + 1 - 0 + ((0 : ℕ) : ℤ)
      omega
    · rintro b ⟨⟩
  | addSignal a w =>
    cases w with
    | some w =>
      obtain ⟨-, hs⟩ := Option.ite_none_right_eq_some.mp hs
      cases hs
      exact ⟨nodes, h.of_queue rfl rfl rfl⟩
    | none =>
      obtain ⟨-, hs⟩ := Option.ite_none_right_eq_some.mp hs
      cases hs
      exact ⟨nodes, h.of_queue rfl rfl rfl⟩

/-- The nodes of every reachable state are counted. -/
theorem exists_counted (h : (machine W A stop).Reachable s) : ∃ nodes, s.Counted nodes := by
  refine h.invariant (I := fun s : ThreadPool W A => ∃ nodes, s.Counted nodes) ⟨∅, ?_⟩ ?_
  · exact ⟨fun a => by simp [machine, TaskQueue.new], rfl, fun task ht => by cases ht⟩
  · rintro s e s' ⟨nodes, hn⟩ hs
    exact hn.step hs

/-- **A node is allocated while its task waits or runs.** In every reachable state
the allocated nodes are those of the list behind the dummy and the one that the
holder of the mutex has in hand, which is not in the list; so none leaks, and none
in the list was deleted. -/
theorem allocated_iff (h : (machine W A stop).Reachable s) :
    ∃ l, s.queue.Holds stop l ∧ (∀ task ∈ s.handled, task ∉ l.map Prod.fst)
      ∧ ∀ a, s.queue.nodes a ≠ none ↔ a ∈ l.map Prod.fst ∨ s.handled = some a := by
  obtain ⟨l, hl⟩ := exists_sound h
  obtain ⟨nodes, hn⟩ := exists_counted h
  have hapart : ∀ task ∈ s.handled, task ∉ l.map Prod.fst := by
    intro task ht
    unfold ThreadPool.handled at ht
    split at ht
    · cases ht
      exact hl.apart _ _ (Or.inl ‹_›)
    · cases ht
      exact hl.apart _ _ (Or.inr ‹_›)
    · cases ht
  refine ⟨l, hl.holds, hapart, fun a => ?_⟩
  have hnodup : (s.handled.toList ++ l.map Prod.fst).Nodup := by
    rw [List.nodup_append']
    refine ⟨by cases s.handled <;> simp, hl.holds.nodup, fun b hb hbl => ?_⟩
    exact hapart b (Option.mem_toList.mp hb) hbl
  have hsub : (s.handled.toList ++ l.map Prod.fst).toFinset ⊆ nodes := by
    intro b hb
    rcases List.mem_append.mp (List.mem_toFinset.mp hb) with hb | hb
    · exact hn.handled b (Option.mem_toList.mp hb)
    · exact (hn.mem b).mp (hl.holds.chain.isSome hb)
  have hcard : nodes.card ≤ (s.handled.toList ++ l.map Prod.fst).toFinset.card := by
    have hsize := hl.size_eq
    have hcount := hn.card
    rw [List.toFinset_card_of_nodup hnodup, List.length_append, List.length_map]
    omega
  rw [← Option.isSome_iff_ne_none, hn.mem, ← Finset.eq_of_subset_of_card_le hsub hcard,
    List.mem_toFinset, List.mem_append, Option.mem_toList]
  exact or_comm

/-- A worker has taken the first of two tasks off the list and is running it. -/
theorem allocated_iff_running :
    ∃ s : ThreadPool Unit Unit, s.handled = some 2 ∧ ∃ l, s.queue.Holds 7 l
      ∧ ∀ a, s.queue.nodes a ≠ none ↔ a ∈ l.map Prod.fst ∨ s.handled = some a := by
  have hrun : (((machine Unit Unit 7).exec (machine Unit Unit 7).init
      [.addLock (), .addLink () 1, .addUnlock (), .addSignal () none, .addLock (),
        .addLink () 2, .addUnlock (), .lock (), .unlink (), .call () 2]).map
      ThreadPool.handled) = some (some 2) := by
    decide +kernel
  obtain ⟨s, hs, hend⟩ := Option.map_eq_some_iff.mp hrun
  obtain ⟨l, hl, -, hnodes⟩ := allocated_iff ⟨_, hs⟩
  exact ⟨s, hend, l, hl, hnodes⟩

/-! ## The steps -/

/-- The event is a step of a thread that has something to do. -/
def working : PoolEvent W A → Bool
  | .wakeUp _ | .addLock _ => false
  | _ => true

/-- The event begins a call of `add`. -/
def isAdd : PoolEvent W A → Bool
  | .addLock _ => true
  | _ => false

/-- The event is a wake-up without a signal. -/
def spurious : PoolEvent W A → Bool
  | .wakeUp _ => true
  | _ => false

/-- What a worker has to do, apart from tasks: to take the mutex and to wait
again. -/
def workerCost : WorkerPc → ℕ
  | .lock | .woken => 2
  | .inside | .waiting => 0

/-- What a thread has to do that has unlocked in `add`: to signal, and a worker may
wake. -/
def adderCost : AdderPc → ℕ
  | .lock | .inside => 0
  | .signal => 3

/-- What the holder of the mutex has to do, apart from tasks that were added and
not called. -/
def mutexCost : Mutex W A → ℕ
  | .free | .unlinked .. => 0
  | .test _ => 1
  | .running .. => 3
  | .adding _ => 9
  | .linked _ => 4

/-- **What there is to do**: four steps for a task that was not called, and what the
threads are in the middle of. -/
def work [Fintype A] (s : ThreadPool W A) : ℕ :=
  4 * (s.added - s.executed.length) + mutexCost s.mutex + ∑ w, workerCost (s.worker w)
    + ∑ a, adderCost (s.adder a)

omit [Fintype W] [DecidableEq W] [DecidableEq A] in
/-- A task that is in hand was not called. -/
theorem Sound.executed_lt {l : List (ℕ × ℕ)} (h : s.Sound stop l) {x : ℕ}
    (hx : s.inHand = [x]) : s.executed.length < s.added := by
  have hlength := h.perm.length_eq
  rw [hx, List.length_append, List.length_append, List.length_singleton,
    List.length_range] at hlength
  omega

omit [Fintype W] [DecidableEq W] [DecidableEq A] in
/-- No more tasks are called than were added. -/
theorem Sound.executed_le {l : List (ℕ × ℕ)} (h : s.Sound stop l) :
    s.executed.length ≤ s.added := by
  have hlength := h.perm.length_eq
  rw [List.length_append, List.length_append, List.length_range] at hlength
  omega

/-- **A step of a thread that has something to do leaves less of it.** -/
theorem work_lt [Fintype A] {l : List (ℕ × ℕ)} (h : s.Sound stop l) (he : working e = true)
    (hs : s.step e = some s') : s'.work < s.work := by
  cases e with
  | lock w =>
    obtain ⟨⟨hm, hw⟩, hs⟩ := Option.ite_none_right_eq_some.mp hs
    cases hs
    have hcost : workerCost (s.worker w) = 2 := by
      rcases hw with hw | hw <;> rw [hw] <;> rfl
    have hsum : _ + workerCost (s.worker w) = _ + 0 :=
      sum_update_add workerCost s.worker w .inside
    simp only [work, mutexCost, hm]
    omega
  | wait w =>
    obtain ⟨⟨hm, -⟩, hs⟩ := Option.ite_none_right_eq_some.mp hs
    cases hs
    have hsum : _ + workerCost (s.worker w) = _ + 0 :=
      sum_update_add workerCost s.worker w .waiting
    simp only [work, mutexCost, hm]
    omega
  | wakeUp w => cases he
  | unlink w =>
    obtain ⟨⟨hm, -⟩, hs⟩ := Option.ite_none_right_eq_some.mp hs
    obtain ⟨r, -, hs⟩ := Option.map_eq_some_iff.mp hs
    cases hs
    simp only [work, mutexCost, hm]
    omega
  | call w task =>
    obtain ⟨hm, hs⟩ := Option.ite_none_right_eq_some.mp hs
    obtain ⟨n, hn, hs⟩ := Option.map_eq_some_iff.mp hs
    cases hs
    have hhand : s.inHand = [n.value] := by simp [inHand, hm, hn]
    have hlt := h.executed_lt hhand
    simp only [work, mutexCost, hm, List.length_append, List.length_singleton]
    omega
  | finish w task =>
    obtain ⟨hm, hs⟩ := Option.ite_none_right_eq_some.mp hs
    cases hs
    have hsum : _ + workerCost (s.worker w) = _ + 2 :=
      sum_update_add workerCost s.worker w .lock
    simp only [work, mutexCost, hm]
    omega
  | addLock a => cases he
  | addLink a task =>
    obtain ⟨⟨hm, -⟩, hs⟩ := Option.ite_none_right_eq_some.mp hs
    cases hs
    have hle := h.executed_le
    simp only [work, mutexCost, hm]
    omega
  | addUnlock a =>
    obtain ⟨hm, hs⟩ := Option.ite_none_right_eq_some.mp hs
    cases hs
    have hsum : _ + adderCost (s.adder a) = _ + 3 :=
      sum_update_add adderCost s.adder a .signal
    simp only [work, mutexCost, hm]
    omega
  | addSignal a w =>
    cases w with
    | some w =>
      obtain ⟨⟨ha, hw⟩, hs⟩ := Option.ite_none_right_eq_some.mp hs
      cases hs
      have hworkers : _ + workerCost (s.worker w) = _ + 2 :=
        sum_update_add workerCost s.worker w .woken
      have hadders : _ + adderCost (s.adder a) = _ + 0 :=
        sum_update_add adderCost s.adder a .lock
      have hcost : adderCost (s.adder a) = 3 := by rw [ha]; rfl
      simp only [work]
      omega
    | none =>
      obtain ⟨⟨ha, -⟩, hs⟩ := Option.ite_none_right_eq_some.mp hs
      cases hs
      have hadders : _ + adderCost (s.adder a) = _ + 0 :=
        sum_update_add adderCost s.adder a .lock
      have hcost : adderCost (s.adder a) = 3 := by rw [ha]; rfl
      simp only [work]
      omega

/-- What a call of `add` and a wake-up without a signal bring to do. -/
def cost : PoolEvent W A → ℕ
  | .addLock _ => 9
  | .wakeUp _ => 2
  | _ => 0

/-- **The other events bring nine steps, or two.** -/
theorem work_le [Fintype A] (he : working e = false) (hs : s.step e = some s') :
    s'.work ≤ s.work + cost e := by
  cases e with
  | wakeUp w =>
    obtain ⟨-, hs⟩ := Option.ite_none_right_eq_some.mp hs
    cases hs
    have hsum : _ + workerCost (s.worker w) = _ + 2 :=
      sum_update_add workerCost s.worker w .woken
    simp only [work, cost]
    omega
  | addLock a =>
    obtain ⟨⟨hm, -⟩, hs⟩ := Option.ite_none_right_eq_some.mp hs
    cases hs
    have hsum : _ + adderCost (s.adder a) = _ + 0 :=
      sum_update_add adderCost s.adder a .inside
    simp only [work, mutexCost, cost, hm]
    omega
  | _ => cases he

/-- **The pool has a measure.** -/
theorem measured [Fintype A] : (machine W A stop).Measured (fun s => ∃ l, s.Sound stop l)
    working cost work where
  keeps _ _ _ hi hs := by
    obtain ⟨l, hl⟩ := hi
    exact hl.step hs
  falls _ _ _ hi hs he := by
    obtain ⟨l, hl⟩ := hi
    exact work_lt hl he hs
  rises _ _ _ _ hs he := work_le he hs

omit [Fintype W] [DecidableEq W] [DecidableEq A] in
theorem totalCost_cost (tr : List (PoolEvent W A)) :
    Machine.totalCost cost tr = 9 * tr.countP isAdd + 2 * tr.countP spurious := by
  rw [← Machine.totalCost_ite, ← Machine.totalCost_ite, ← Machine.totalCost_add]
  refine congrArg (Machine.totalCost · tr) (funext fun e => ?_)
  cases e <;> rfl

/-! ## When nothing is left to do -/

/-- The worker that holds the mutex. -/
def holder : Mutex W A → Option W
  | .test w | .unlinked w _ | .running w _ => some w
  | _ => none

/-- A worker that is inside holds the mutex. -/
def Placed (s : ThreadPool W A) : Prop := ∀ w, s.worker w = .inside → holder s.mutex = some w

omit [Fintype W] [DecidableEq A] in
/-- One worker moves, and the mutex stays with any other one. -/
theorem Placed.of_worker (h : s.Placed) {w : W} {pc : WorkerPc}
    (hworker : s'.worker = Function.update s.worker w pc)
    (hw : pc = .inside → holder s'.mutex = some w)
    (hm : ∀ v, v ≠ w → holder s.mutex = some v → holder s'.mutex = some v) : s'.Placed := by
  intro v hv
  rw [hworker] at hv
  by_cases hvw : v = w
  · subst hvw
    rw [Function.update_self] at hv
    exact hw hv
  · rw [Function.update_of_ne hvw] at hv
    exact hm v hvw (h v hv)

/-- **Where the mutex is, in each step.** -/
theorem Placed.step (h : s.Placed) (hs : s.step e = some s') : s'.Placed := by
  cases e with
  | lock w =>
    obtain ⟨⟨hm, -⟩, hs⟩ := Option.ite_none_right_eq_some.mp hs
    cases hs
    exact h.of_worker rfl (fun _ => rfl) fun v _ hv => by rw [hm] at hv; cases hv
  | wait w =>
    obtain ⟨⟨hm, -⟩, hs⟩ := Option.ite_none_right_eq_some.mp hs
    cases hs
    refine h.of_worker rfl (fun hpc => by cases hpc) fun v hne hv => ?_
    rw [hm] at hv
    cases hv
    exact absurd rfl hne
  | wakeUp w =>
    obtain ⟨-, hs⟩ := Option.ite_none_right_eq_some.mp hs
    cases hs
    exact h.of_worker rfl (fun hpc => by cases hpc) fun v _ hv => hv
  | unlink w =>
    obtain ⟨⟨hm, -⟩, hs⟩ := Option.ite_none_right_eq_some.mp hs
    obtain ⟨r, -, hs⟩ := Option.map_eq_some_iff.mp hs
    cases hs
    intro v hv
    have := h v hv
    rwa [hm] at this
  | call w task =>
    obtain ⟨hm, hs⟩ := Option.ite_none_right_eq_some.mp hs
    obtain ⟨n, -, hs⟩ := Option.map_eq_some_iff.mp hs
    cases hs
    intro v hv
    have := h v hv
    rwa [hm] at this
  | finish w task =>
    obtain ⟨hm, hs⟩ := Option.ite_none_right_eq_some.mp hs
    cases hs
    refine h.of_worker rfl (fun hpc => by cases hpc) fun v hne hv => ?_
    rw [hm] at hv
    cases hv
    exact absurd rfl hne
  | addLock a =>
    obtain ⟨⟨hm, -⟩, hs⟩ := Option.ite_none_right_eq_some.mp hs
    cases hs
    intro v hv
    have := h v hv
    rwa [hm] at this
  | addLink a task =>
    obtain ⟨⟨hm, -⟩, hs⟩ := Option.ite_none_right_eq_some.mp hs
    cases hs
    intro v hv
    have := h v hv
    rwa [hm] at this
  | addUnlock a =>
    obtain ⟨hm, hs⟩ := Option.ite_none_right_eq_some.mp hs
    cases hs
    intro v hv
    have := h v hv
    rwa [hm] at this
  | addSignal a w =>
    cases w with
    | some w =>
      obtain ⟨-, hs⟩ := Option.ite_none_right_eq_some.mp hs
      cases hs
      exact h.of_worker rfl (fun hpc => by cases hpc) fun v _ hv => hv
    | none =>
      obtain ⟨-, hs⟩ := Option.ite_none_right_eq_some.mp hs
      cases hs
      exact h

/-- **Nothing to do**: no thread has a step, but for a new call of `add` or a wake-up
without a signal. -/
def Idle (s : ThreadPool W A) : Prop := ∀ e, working e = true → s.step e = none

/-- Somebody can go on while the mutex is held. -/
theorem Idle.mutex_eq {l : List (ℕ × ℕ)} (h : s.Idle) (hl : s.Sound stop l)
    (hn : s.Counted nodes) : s.mutex = .free := by
  cases hm : s.mutex with
  | free => rfl
  | test w =>
    exfalso
    by_cases hsize : s.queue.size = 0
    · have hnone := h (.wait w) rfl
      rw [ThreadPool.step, if_pos ⟨hm, hsize⟩] at hnone
      cases hnone
    · have hnone := h (.unlink w) rfl
      obtain ⟨hlen, -⟩ := hl.quiet (by simp [ahead, hm]) (by simp [inHand, hm])
      cases l with
      | nil => exact hsize hlen
      | cons b l =>
        obtain ⟨q', hq, -⟩ := hl.holds.unlink
        rw [ThreadPool.step, if_pos ⟨hm, hsize⟩, hq] at hnone
        cases hnone
  | unlinked w task =>
    exfalso
    have hnone := h (.call w task) rfl
    have hmem : task ∈ nodes := hn.handled task (by simp [ThreadPool.handled, hm])
    obtain ⟨n, hnode⟩ := Option.isSome_iff_exists.mp ((hn.mem task).mpr hmem)
    rw [ThreadPool.step, if_pos hm, hnode] at hnone
    cases hnone
  | running w task =>
    exfalso
    have hnone := h (.finish w task) rfl
    rw [ThreadPool.step, if_pos hm] at hnone
    cases hnone
  | adding a =>
    exfalso
    obtain ⟨task, htask⟩ := Infinite.exists_notMem_finset nodes
    have hnew : s.queue.nodes task = none := by
      rw [← hn.mem] at htask
      exact Option.not_isSome_iff_eq_none.mp htask
    have hnone := h (.addLink a task) rfl
    rw [ThreadPool.step, if_pos ⟨hm, hnew⟩] at hnone
    cases hnone
  | linked a =>
    exfalso
    have hnone := h (.addUnlock a) rfl
    rw [ThreadPool.step, if_pos hm] at hnone
    cases hnone

/-- No signal is left to send. -/
theorem Idle.adder_ne (h : s.Idle) (a : A) : s.adder a ≠ .signal := by
  intro ha
  by_cases hw : ∃ w, s.worker w = .waiting
  · obtain ⟨w, hw⟩ := hw
    have hnone := h (.addSignal a (some w)) rfl
    rw [ThreadPool.step, if_pos ⟨ha, hw⟩] at hnone
    cases hnone
  · have hnone := h (.addSignal a none) rfl
    rw [ThreadPool.step, if_pos ⟨ha, fun w hw' => hw ⟨w, hw'⟩⟩] at hnone
    cases hnone

/-- Every worker waits. -/
theorem Idle.worker_eq (h : s.Idle) (hp : s.Placed) (hm : s.mutex = .free) (w : W) :
    s.worker w = .waiting := by
  have hlock := h (.lock w) rfl
  cases hw : s.worker w with
  | lock =>
    rw [ThreadPool.step, if_pos ⟨hm, Or.inl hw⟩] at hlock
    cases hlock
  | inside =>
    have hholder := hp w hw
    rw [hm] at hholder
    cases hholder
  | waiting => rfl
  | woken =>
    rw [ThreadPool.step, if_pos ⟨hm, Or.inr hw⟩] at hlock
    cases hlock

/-- **The workers get done.** For a pool with at least one worker, in every run: the
threads take at most nine steps for each call of `add`, two for each wake-up without
a signal, and two for each worker; and when none of them has a step left, every
task that was added has been executed once, every worker waits, and every node was
deleted. -/
theorem drains [Fintype A] [Nonempty W] {tr : List (PoolEvent W A)}
    (h : (machine W A stop).exec (machine W A stop).init tr = some s) :
    tr.countP working
        ≤ 2 * Fintype.card W + 9 * tr.countP isAdd + 2 * tr.countP spurious
      ∧ (s.Idle → s.executed.Perm (List.range s.added) ∧ (∀ w, s.worker w = .waiting)
        ∧ ∀ a, s.queue.nodes a = none) := by
  have hreach : (machine W A stop).Reachable s := ⟨tr, h⟩
  constructor
  · have hinit : (machine W A stop).init.work = 2 * Fintype.card W := by
      show 4 * (0 - 0) + 0 + ∑ _w : W, 2 + ∑ _a : A, 0 = _
      simp [Nat.mul_comm]
    have hcount := measured.count_le h
      ⟨[], TaskQueue.holds_new, rfl, List.Perm.refl _, by simp [machine]⟩
    rw [hinit, totalCost_cost] at hcount
    omega
  · intro hidle
    obtain ⟨l, hl⟩ := exists_sound hreach
    obtain ⟨nodes, hn⟩ := exists_counted hreach
    have hplaced : s.Placed := hreach.invariant (fun w hw => by cases hw)
      fun _ _ _ hp hs => hp.step hs
    have hmutex := hidle.mutex_eq hl hn
    have hwait := hidle.worker_eq hplaced hmutex
    have hnotstuck : ¬ s.Stuck := hreach.invariant (I := fun s : ThreadPool W A => ¬ s.Stuck)
      (fun hstuck => lt_irrefl 0 hstuck.1) fun _ _ _ hs hstep => not_stuck_step hs hstep
    obtain ⟨hsize, hperm⟩ := hl.quiet (by simp [ahead, hmutex]) (by simp [inHand, hmutex])
    have hnil : l = [] := by
      by_contra hne
      have hpos : 0 < l.length := List.length_pos_iff.mpr hne
      exact hnotstuck ⟨by omega, hwait, hidle.adder_ne⟩
    have hempty : nodes = ∅ := by
      have hcard := hn.card
      simp only [ahead, ThreadPool.handled, hmutex, Option.toList_none, List.length_nil]
        at hcard
      rw [hnil, List.length_nil] at hsize
      exact Finset.card_eq_zero.mp (by omega)
    refine ⟨?_, hwait, fun a => ?_⟩
    · rwa [hnil, List.map_nil, List.append_nil] at hperm
    · have hmem := hn.mem a
      rw [hempty] at hmem
      exact Option.not_isSome_iff_eq_none.mp fun hsome =>
        Finset.notMem_empty a (hmem.mp hsome)

/-- Two workers and one task: a worker is woken without a signal and takes the task, so
the signal that the other one gets is for nothing. The threads have taken fifteen
steps, which is the bound, and no more are left. -/
theorem drains_two :
    ∃ s : ThreadPool (Fin 2) Unit, s.executed.Perm (List.range s.added) ∧ s.added = 1
      ∧ ∀ w, s.worker w = .waiting := by
  have hrun : (((machine (Fin 2) Unit 7).exec (machine (Fin 2) Unit 7).init
      [.lock 0, .wait 0, .lock 1, .wait 1, .addLock (), .addLink () 1, .addUnlock (),
        .addSignal () (some 0), .wakeUp 1, .lock 1, .unlink 1, .call 1 1, .finish 1 1,
        .lock 0, .wait 0, .lock 1, .wait 1]).map fun s =>
      (s.mutex, s.worker 0, s.worker 1, s.adder (), s.added))
      = some (.free, .waiting, .waiting, .lock, 1) := by
    decide +kernel
  obtain ⟨s, hs, hend⟩ := Option.map_eq_some_iff.mp hrun
  simp only [Prod.mk.injEq] at hend
  obtain ⟨hm, h0, h1, ha, hadded⟩ := hend
  have hworker : ∀ w, s.worker w = .waiting := by
    intro w
    match w with
    | 0 => exact h0
    | 1 => exact h1
  have hidle : s.Idle := by
    intro e he
    cases e with
    | wakeUp w => cases he
    | addLock a => cases he
    | addSignal a w => cases w <;> simp [step, ha]
    | _ => simp [step, hm, hworker]
  obtain ⟨-, hdone⟩ := drains hs
  obtain ⟨hperm, hwait, -⟩ := hdone hidle
  exact ⟨s, hperm, hadded, hwait⟩

end ThreadPool

end Version1
