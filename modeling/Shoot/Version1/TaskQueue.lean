import Mathlib.Data.List.Range
import Shoot.LinkedList
import Shoot.Machine

/-!
# The task queue of version 1.0

A `task_queue_t` is a linked list behind a dummy node, with its length beside
it. The dummy is allocated without a value, so the list ends in whatever its
`next` held: the end of the list is known from `size` only.

`add` puts its task behind the dummy, and `handle` takes the first one off, so
the queue is a stack. `TaskQueue.fifo_iff` says when this cannot be told from a
queue: when there is never more than one task at a time. Otherwise the task that
was added last is handled first, and one that was added before may wait for ever
(`TaskQueue.overtaken`).
-/

namespace Version1

/-- **A `task_queue_t`**, with tasks in `T`, and without its mutex and condition
variable. -/
structure TaskQueue (T : Type*) where
  /-- The nodes that are allocated, without the dummy. -/
  nodes : ℕ → Option (LinkedNode T)
  /-- `tasks->next`, of the dummy. -/
  next : ℕ
  /-- `size`. It is an `int`, whose `++` is undefined at its greatest value: that 2^31 tasks
  are queued at once is left out, and the number is one of any size. -/
  size : ℤ

namespace TaskQueue

variable {T : Type*}

/-- The constructor, with what the dummy held. -/
def new (next : ℕ) : TaskQueue T := ⟨fun _ => none, next, 0⟩

/-- `task->next = tasks->next; tasks->next = task`, for a new node at an
address. -/
def link (q : TaskQueue T) (task : ℕ) (t : T) : TaskQueue T :=
  { q with nodes := Function.update q.nodes task (some ⟨t, q.next⟩), next := task }

/-- `task = tasks->next; tasks->next = task->next`: the node, and the queue
without it. -/
def unlink (q : TaskQueue T) : Option (ℕ × TaskQueue T) :=
  (q.nodes q.next).map fun n => (q.next, { q with next := n.next })

/-- `size++`, `size--`. -/
def addSize (q : TaskQueue T) (n : ℤ) : TaskQueue T := { q with size := q.size + n }

/-- `delete task`. -/
def delete (q : TaskQueue T) (task : ℕ) : TaskQueue T :=
  { q with nodes := Function.update q.nodes task none }

/-- `add(func, arg)`, between the locks. -/
def add (q : TaskQueue T) (task : ℕ) (t : T) : TaskQueue T := (q.link task t).addSize 1

/-- **`handle()`**: the task that is executed, and the queue after it. -/
def handle (q : TaskQueue T) : Option (T × TaskQueue T) := do
  let (task, q) ← q.unlink
  let q := q.addSize (-1)
  let n ← q.nodes task
  return (n.value, q.delete task)

/-- **The list behind the dummy**: the nodes passed until the address that was
in the dummy, no node twice. -/
structure Holds (stop : ℕ) (q : TaskQueue T) (l : List (ℕ × T)) : Prop where
  chain : Chain q.nodes q.next l stop
  nodup : (l.map Prod.fst).Nodup

section Operations

variable {q : TaskQueue T} {stop task : ℕ} {t : T} {l : List (ℕ × T)}

theorem holds_new : Holds stop (new stop : TaskQueue T) [] := ⟨chain_nil.mpr rfl, List.nodup_nil⟩

/-- A task is linked in front. -/
theorem Holds.link (h : Holds stop q l) (hnew : q.nodes task = none) (t : T) :
    Holds stop (q.link task t) ((task, t) :: l) :=
  ⟨h.chain.cons hnew t, List.nodup_cons.mpr ⟨h.chain.notMem hnew, h.nodup⟩⟩

/-- **The first task is unlinked.** Its node stays allocated, apart from the
list. -/
theorem Holds.unlink (h : Holds stop q ((task, t) :: l)) :
    ∃ q', q.unlink = some (task, q') ∧ q'.nodes = q.nodes ∧ q'.size = q.size
      ∧ (∃ n, q'.nodes task = some ⟨t, n⟩) ∧ Holds stop q' l ∧ task ∉ l.map Prod.fst := by
  obtain ⟨hp, n, hn, hl⟩ := chain_cons.mp h.chain
  obtain ⟨hfresh, hnodup⟩ := List.nodup_cons.mp h.nodup
  refine ⟨{ q with next := n }, ?_, rfl, rfl, ⟨n, hn⟩, ⟨hl, hnodup⟩, hfresh⟩
  unfold TaskQueue.unlink
  rw [hp, hn]
  rfl

/-- Taking a task off the list does not count it. -/
theorem size_of_unlink {r : ℕ × TaskQueue T} (h : q.unlink = some r) : r.2.size = q.size := by
  obtain ⟨n, -, hr⟩ := Option.map_eq_some_iff.mp h
  rw [← hr]

/-- Counting does not touch the list. -/
theorem Holds.addSize (h : Holds stop q l) (n : ℤ) : Holds stop (q.addSize n) l :=
  ⟨h.chain, h.nodup⟩

/-- A node apart from the list is freed. -/
theorem Holds.delete (h : Holds stop q l) (hout : task ∉ l.map Prod.fst) :
    Holds stop (q.delete task) l :=
  ⟨h.chain.update hout none, h.nodup⟩

/-- `add` puts its task in front of the list. -/
theorem Holds.add (h : Holds stop q l) (hnew : q.nodes task = none) (t : T) :
    Holds stop (q.add task t) ((task, t) :: l) ∧ (q.add task t).size = q.size + 1 :=
  ⟨(h.link hnew t).addSize 1, rfl⟩

/-- **`handle` executes the first task of the list.** -/
theorem Holds.handle (h : Holds stop q ((task, t) :: l)) :
    ∃ q', q.handle = some (t, q') ∧ Holds stop q' l ∧ q'.size = q.size - 1 := by
  obtain ⟨q', hq, -, hsize, ⟨n, hn⟩, hl, hout⟩ := h.unlink
  refine ⟨(q'.addSize (-1)).delete task, ?_, (hl.addSize (-1)).delete hout, ?_⟩
  · unfold TaskQueue.handle
    rw [hq, Option.bind_eq_bind, Option.bind_some]
    show ((q'.nodes task).bind fun n => _) = _
    rw [hn]
    rfl
  · show q'.size + -1 = q.size - 1
    rw [hsize]
    rfl

/-- **`handle` undoes `add`.** -/
theorem handle_add (hnew : q.nodes task = none) (t : T) :
    (q.add task t).handle = some (t, q) := by
  have hnode : Function.update q.nodes task (some ⟨t, q.next⟩) task = some ⟨t, q.next⟩ :=
    Function.update_self ..
  have hfree : Function.update (Function.update q.nodes task (some ⟨t, q.next⟩)) task none
      = q.nodes := by
    rw [Function.update_idem, ← hnew, Function.update_eq_self]
  unfold TaskQueue.handle unlink TaskQueue.add TaskQueue.link TaskQueue.addSize TaskQueue.delete
  simp only [hnode, Option.map_some, Option.bind_eq_bind, Option.bind_some, hfree,
    Int.add_neg_cancel_right]
  rfl

end Operations

end TaskQueue

/-! ## The order of the tasks -/

/-- Numbers that are shared out, and the next one. -/
theorem perm_range_succ {l l' : List ℕ} {n : ℕ} (h : (l ++ l').Perm (List.range n)) :
    (l ++ n :: l').Perm (List.range (n + 1)) := by
  rw [List.range_succ]
  exact List.perm_middle.trans ((h.cons _).trans (List.perm_append_singleton _ _).symm)

/-- **A queue and what was done to it.** A task is known by the number of tasks
that were added before it. -/
structure QueueRun where
  queue : TaskQueue ℕ
  /-- How many tasks were added. -/
  added : ℕ
  /-- The tasks that were executed, in order. -/
  executed : List ℕ

/-- The operations on a queue, with the address of a new node. -/
inductive QueueEvent where
  | add (task : ℕ)
  | handle
deriving DecidableEq, Repr

namespace QueueRun

/-- One operation. `handle` is called only when the size is positive. -/
def step (s : QueueRun) : QueueEvent → Option QueueRun
  | .add task =>
    if s.queue.nodes task = none then
      some { s with queue := s.queue.add task s.added, added := s.added + 1 }
    else
      none
  | .handle =>
    if 0 < s.queue.size then
      s.queue.handle.map fun r => { s with queue := r.2, executed := s.executed ++ [r.1] }
    else
      none

/-- **A new queue**, with what its dummy held, and the operations on it. -/
def machine (next : ℕ) : Machine QueueRun QueueEvent := ⟨⟨.new next, 0, []⟩, step⟩

/-- Not more than one task is in the queue when one is handled. -/
def HandlesOnly (s : QueueRun) (e : QueueEvent) : Prop := e = .handle → s.queue.size = 1

instance (s : QueueRun) (e : QueueEvent) : Decidable (s.HandlesOnly e) :=
  inferInstanceAs (Decidable (e = .handle → s.queue.size = 1))

/-- **A sound run**: the size is the length of the list, the tasks are the
executed ones and those in the list, and the list has the later ones in
front. -/
structure Sound (stop : ℕ) (s : QueueRun) (l : List (ℕ × ℕ)) : Prop where
  holds : s.queue.Holds stop l
  size_eq : s.queue.size = l.length
  perm : (s.executed ++ l.map Prod.snd).Perm (List.range s.added)
  later : (l.map Prod.snd).Pairwise (· > ·)

variable {stop : ℕ} {s s' : QueueRun} {l : List (ℕ × ℕ)} {x y : ℕ}

theorem Sound.lt_added (h : s.Sound stop l) (hx : x ∈ s.executed ++ l.map Prod.snd) :
    x < s.added :=
  List.mem_range.mp (h.perm.mem_iff.mp hx)

/-- A new task is the latest. -/
theorem Sound.add (h : s.Sound stop l) {task : ℕ} (hs : s.step (.add task) = some s') :
    s'.Sound stop ((task, s.added) :: l) := by
  obtain ⟨hnew, hs⟩ := Option.ite_none_right_eq_some.mp hs
  cases hs
  obtain ⟨hl, hsize⟩ := h.holds.add hnew s.added
  refine ⟨hl, ?_, ?_, ?_⟩
  · show (s.queue.add task s.added).size = _
    rw [hsize, h.size_eq, List.length_cons]
    rfl
  · exact perm_range_succ h.perm
  · exact List.pairwise_cons.mpr
      ⟨fun y hy => h.lt_added (List.mem_append_right _ hy), h.later⟩

/-- **The first task of the list is handled**, the latest one. -/
theorem Sound.handle (h : s.Sound stop l) (hs : s.step .handle = some s') :
    ∃ a x l', l = (a, x) :: l' ∧ s'.executed = s.executed ++ [x] ∧ s'.added = s.added
      ∧ s'.Sound stop l' := by
  obtain ⟨hpos, hs⟩ := Option.ite_none_right_eq_some.mp hs
  obtain ⟨r, hr, hs⟩ := Option.map_eq_some_iff.mp hs
  cases l with
  | nil =>
    have := h.size_eq
    rw [List.length_nil] at this
    omega
  | cons b l =>
    obtain ⟨q', hq, hl, hsize⟩ := h.holds.handle
    cases hq.symm.trans hr
    cases hs
    refine ⟨b.1, b.2, l, rfl, rfl, rfl, hl, ?_, ?_, (List.pairwise_cons.mp h.later).2⟩
    · show q'.size = _
      rw [hsize, h.size_eq, List.length_cons]
      omega
    · show ((s.executed ++ [b.2]) ++ l.map Prod.snd).Perm _
      rw [List.append_assoc]
      exact h.perm

/-- Every run is sound. -/
theorem exists_sound {tr : List QueueEvent}
    (h : (machine stop).exec (machine stop).init tr = some s) : ∃ l, s.Sound stop l := by
  refine Machine.exec_invariant (I := fun s => ∃ l, s.Sound stop l) ?_ h ?_
  · rintro s e s' ⟨l, hl⟩ hs
    cases e with
    | add task => exact ⟨_, hl.add hs⟩
    | handle =>
      obtain ⟨_, _, l', -, -, -, hl'⟩ := hl.handle hs
      exact ⟨l', hl'⟩
  · exact ⟨[], TaskQueue.holds_new, rfl, List.Perm.refl _, List.Pairwise.nil⟩

/-- The tasks executed so far are the first ones, in order. -/
theorem prefix_range {l : List ℕ} {n : ℕ} :
    l <+: List.range n ↔ l = List.range l.length ∧ l.length ≤ n := by
  constructor
  · intro h
    have hlen : l.length ≤ n := by simpa using h.length_le
    refine ⟨?_, hlen⟩
    have htake := List.prefix_iff_eq_take.mp h
    rwa [List.take_range, Nat.min_eq_left hlen] at htake
  · rintro ⟨h, hlen⟩
    rw [h, ← Nat.min_eq_left hlen, ← List.take_range]
    exact List.take_prefix _ _

/-- An executed task is not in the list. -/
theorem Sound.notMem (h : s.Sound stop l) (hx : x ∈ s.executed) : x ∉ l.map Prod.snd := by
  have hnodup := h.perm.nodup_iff.mpr List.nodup_range
  exact fun hl => List.disjoint_of_nodup_append hnodup hx hl

/-- **If the tasks were handled in order, there was only one.** The first of the
list comes next only if no earlier one is behind it. -/
theorem Sound.eq_nil (h : s.Sound stop ((x, y) :: l))
    (horder : s.executed ++ [y] <+: List.range s.added) : l = [] := by
  obtain ⟨heq, -⟩ := prefix_range.mp horder
  rw [List.length_append, List.length_singleton, List.range_succ] at heq
  obtain ⟨hexec, hy⟩ := List.append_inj' heq rfl
  cases l with
  | nil => rfl
  | cons b l =>
    have hearlier : b.2 < y := (List.pairwise_cons.mp h.later).1 _ List.mem_cons_self
    have hdone : b.2 ∈ s.executed := by
      rw [hexec, List.mem_range, ← List.singleton_inj.mp hy]
      exact hearlier
    exact absurd (List.mem_cons_of_mem _ List.mem_cons_self) (h.notMem hdone)

/-- **If there is only one task, it comes next.** -/
theorem Sound.prefix_handle (h : s.Sound stop [(x, y)])
    (horder : s.executed <+: List.range s.added) : s.executed ++ [y] <+: List.range s.added := by
  obtain ⟨heq, -⟩ := prefix_range.mp horder
  have hlen : s.executed.length + 1 = s.added := by
    simpa using h.perm.length_eq
  have hlt : y < s.added := h.lt_added (List.mem_append_right _ List.mem_cons_self)
  have hnext : ¬ y < s.executed.length := by
    intro hy
    rw [← List.mem_range, ← heq] at hy
    exact h.notMem hy List.mem_cons_self
  have hy : y = s.executed.length := by omega
  refine prefix_range.mpr ⟨?_, by rw [List.length_append, List.length_singleton, hlen]⟩
  rw [List.length_append, List.length_singleton, List.range_succ, ← heq, hy]

/-- **When tasks are served first come, first served.** After any operations on
any new queue, the tasks were executed in the order in which they were added if
and only if each of them was the only one in the queue when it was handled. -/
theorem fifo_iff {tr : List QueueEvent}
    (hrun : (machine stop).exec (machine stop).init tr = some s) :
    s.executed <+: List.range s.added
      ↔ (machine stop).Along HandlesOnly (machine stop).init tr := by
  refine Machine.exec_induction
    (motive := fun tr s => s.executed <+: List.range s.added
      ↔ (machine stop).Along HandlesOnly (machine stop).init tr) ?_ ?_ hrun
  · exact iff_of_true (List.nil_prefix) Machine.along_nil
  intro tr t e t' ht hs ih
  obtain ⟨l, hl⟩ := exists_sound ht
  have hlast : (∀ u, (machine stop).exec (machine stop).init tr = some u → u.HandlesOnly e)
      ↔ t.HandlesOnly e :=
    ⟨fun h => h t ht, fun h u hu => by cases ht.symm.trans hu; exact h⟩
  rw [Machine.along_concat, ← ih, hlast]
  cases e with
  | add task =>
    obtain ⟨-, hs⟩ := Option.ite_none_right_eq_some.mp hs
    cases hs
    have hlen : t.executed.length ≤ t.added := by
      have := hl.perm.length_eq
      rw [List.length_append, List.length_range] at this
      omega
    show t.executed <+: List.range (t.added + 1) ↔ _
    rw [prefix_range, prefix_range, and_iff_left hlen, and_iff_left (Nat.le_succ_of_le hlen)]
    exact (and_iff_left fun h => by cases h).symm
  | handle =>
    obtain ⟨a, x, l', rfl, hexec, hadded, -⟩ := hl.handle hs
    rw [hexec, hadded]
    constructor
    · intro h
      have hnil : l' = [] := hl.eq_nil h
      exact ⟨(List.prefix_append _ _).trans h, fun _ => by rw [hl.size_eq, hnil]; rfl⟩
    · rintro ⟨h, hone⟩
      have hnil : l' = [] := by
        have hsize := hone rfl
        rw [hl.size_eq, List.length_cons] at hsize
        exact List.length_eq_zero_iff.mp (by omega)
      subst hnil
      exact hl.prefix_handle h

/-- Two tasks that are handled before the next one comes. -/
theorem fifo_iff_one :
    ∃ s, (machine 0).exec (machine 0).init [.add 1, .handle, .add 1, .handle] = some s
      ∧ s.executed <+: List.range s.added := by
  have hrun : (machine 0).exec (machine 0).init [.add 1, .handle, .add 1, .handle] = some _ := rfl
  exact ⟨_, hrun, (fifo_iff hrun).mpr (by decide)⟩

/-- **The task that was added last is handled first.** -/
theorem second_first :
    ∃ s, (machine 0).exec (machine 0).init [.add 1, .add 2, .handle] = some s
      ∧ s.executed = [1] ∧ ¬ s.executed <+: List.range s.added :=
  ⟨_, rfl, rfl, by decide⟩

/-- A task that is added and handled at once leaves no trace in the queue. -/
theorem exec_add_handle {task : ℕ} (hnew : s.queue.nodes task = none) (hpos : 0 ≤ s.queue.size) :
    (machine stop).exec s [.add task, .handle]
      = some ⟨s.queue, s.added + 1, s.executed ++ [s.added]⟩ := by
  have hadd : s.step (.add task)
      = some { s with queue := s.queue.add task s.added, added := s.added + 1 } := if_pos hnew
  have hhandle : step { s with queue := s.queue.add task s.added, added := s.added + 1 } .handle
      = some ⟨s.queue, s.added + 1, s.executed ++ [s.added]⟩ := by
    have hpos' : 0 < (s.queue.add task s.added).size := by
      show 0 < s.queue.size + 1
      omega
    rw [step, if_pos hpos', TaskQueue.handle_add hnew]
    rfl
  show (s.step (.add task)).bind (fun t => (t.step .handle).bind some) = _
  rw [hadd, Option.bind_some, hhandle, Option.bind_some]

/-- **A task can be overtaken for ever.** The first task stays in the queue
while any number of later ones are added and handled. -/
theorem overtaken (stop n : ℕ) :
    ∃ tr s, (machine stop).exec (machine stop).init tr = some s
      ∧ s.queue.Holds stop [(1, 0)] ∧ s.executed = List.range' 1 n := by
  have hfirst : ((TaskQueue.new stop).add 1 0).Holds stop [(1, 0)] :=
    (TaskQueue.holds_new.add rfl 0).1
  suffices h : ∃ tr, (machine stop).exec (machine stop).init tr
      = some ⟨(TaskQueue.new stop).add 1 0, n + 1, List.range' 1 n⟩ by
    obtain ⟨tr, htr⟩ := h
    exact ⟨tr, _, htr, hfirst, rfl⟩
  induction n with
  | zero => exact ⟨[.add 1], rfl⟩
  | succ n ih =>
    obtain ⟨tr, htr⟩ := ih
    refine ⟨tr ++ [.add 2, .handle], ?_⟩
    rw [Machine.exec_append, htr, Option.bind_some, exec_add_handle rfl (Int.zero_le_ofNat 1),
      List.range'_concat, Nat.one_mul, Nat.add_comm 1 n]

end QueueRun

end Version1
