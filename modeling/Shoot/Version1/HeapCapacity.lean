import Mathlib.Data.Int.Init
import Shoot.Version1.Heap

/-!
# The capacity of the timer heap of version 1.0

`pq_insert` does not compare the size with that of the array. It writes its node
behind the last one, wherever that is, and sets no result; `time_n_add` has a
variable for the result and a note that it is to be checked. So a queue is
looked at here together with the memory its array is in: cells are integers, of
which those of the array are `0 .. 1023`, and the size goes below zero when an
empty queue is popped.

`HeapMemory.capacity_iff` says when the insertions of a sequence of operations
keep to the array and refuse a node that has no cell. It depends on how many
operations of each kind there were before: each insertion is to find at most
1022 nodes. Every accepted connection inserts one, so the 1024th connection
within a timeout is too many (`HeapMemory.writes_past_end`).

As long as every operation is in order, a queue with its memory is the
`PriorityQueue` of that array (`HeapMemory.queue_of_exec`).
-/

namespace Version1

variable {α κ : Type*} [LinearOrder κ] (key : α → κ)

/-! ## The cells written on the way up -/

/-- **The cells written by `up(pos)`**, two for each exchange. -/
def upWrites (heap : ℕ → α) (pos : ℕ) : List ℕ :=
  if 1 < pos then
    if key (heap pos) < key (heap (pos / 2)) then
      pos :: pos / 2 :: upWrites (BinaryHeap.swap heap pos (pos / 2)) (pos / 2)
    else
      []
  else
    []
termination_by pos

section UpWrites

variable {key} {heap : ℕ → α} {pos i : ℕ}

/-- They are between the top and `pos`. -/
theorem mem_upWrites (hi : i ∈ upWrites key heap pos) : 1 ≤ i ∧ i ≤ pos := by
  induction heap, pos using upWrites.induct key with
  | case1 heap pos hpos hlt ih =>
    rw [upWrites, if_pos hpos, if_pos hlt, List.mem_cons, List.mem_cons] at hi
    rcases hi with rfl | rfl | hi
    · omega
    · omega
    · have := ih hi
      omega
  | case2 heap pos hpos hlt =>
    rw [upWrites, if_pos hpos, if_neg hlt] at hi
    cases hi
  | case3 heap pos hpos =>
    rw [upWrites, if_neg hpos] at hi
    cases hi

/-- The other cells stay as they are. -/
theorem siftUp_of_notMem (hi : i ∉ upWrites key heap pos) :
    BinaryHeap.siftUp key heap pos i = heap i := by
  induction heap, pos using upWrites.induct key with
  | case1 heap pos hpos hlt ih =>
    rw [upWrites, if_pos hpos, if_pos hlt, List.mem_cons, List.mem_cons, not_or, not_or] at hi
    obtain ⟨hpos', hparent, hrest⟩ := hi
    rw [BinaryHeap.siftUp, if_pos hpos, if_pos hlt, ih hrest,
      BinaryHeap.swap_of_ne hpos' hparent]
  | case2 heap pos hpos hlt => rw [BinaryHeap.siftUp, if_pos hpos, if_neg hlt]
  | case3 heap pos hpos => rw [BinaryHeap.siftUp, if_neg hpos]

end UpWrites

/-! ## A queue and the memory its array is in -/

/-- **A `priority_queue_` in memory.** -/
structure HeapMemory (α : Type*) where
  /-- The memory, by the distance from the start of the array `heap`. -/
  memory : ℤ → α
  /-- `size`, an `int`. -/
  size : ℤ

namespace HeapMemory

/-- A new queue, over whatever the memory holds. -/
def new (memory : ℤ → α) : HeapMemory α := ⟨memory, 0⟩

/-- The memory from the start of the array on. -/
def cells (memory : ℤ → α) : ℕ → α := fun i => memory i

/-- Replace it. -/
def setCells (memory : ℤ → α) (heap : ℕ → α) : ℤ → α
  | .ofNat i => heap i
  | .negSucc i => memory (.negSucc i)

/-- `up(pos)`, which does nothing unless `pos` is above 1. -/
def up (q : HeapMemory α) (pos : ℤ) : HeapMemory α :=
  { q with memory := setCells q.memory (BinaryHeap.siftUp key (cells q.memory) pos.toNat) }

/-- `down(pos)`, from the top or below it. -/
def down (q : HeapMemory α) (pos : ℕ) : HeapMemory α :=
  { q with memory :=
      setCells q.memory (BinaryHeap.siftDown key (cells q.memory) q.size.toNat pos) }

/-- **`pq_insert(ptr)`**: its result, which is not set, and the queue. -/
def pqInsert (q : HeapMemory α) (ptr : α) : Option ℤ × HeapMemory α :=
  let size := q.size + 1
  (none, up key ⟨Function.update q.memory size ptr, size⟩ size)

/-- `pq_pop()`. -/
def pqPop (q : HeapMemory α) : HeapMemory α :=
  down key ⟨Function.update q.memory 1 (q.memory q.size), q.size - 1⟩ 1

/-- **The cells written by `pq_insert(ptr)`.** -/
def insertWrites (q : HeapMemory α) (ptr : α) : List ℤ :=
  (q.size + 1) ::
    (upWrites key (cells (Function.update q.memory (q.size + 1) ptr)) (q.size + 1).toNat).map
      fun i : ℕ => (i : ℤ)

/-- There is a cell for one more node. -/
def HasFree (q : HeapMemory α) : Prop := q.size + 1 < heapSize

/-- **An insertion is in order**: it writes only to the array; and where no cell
is free, it reports failure, and leaves the queue as it is. -/
def InOrder (q : HeapMemory α) (ptr : α) : Prop :=
  (∀ i ∈ q.insertWrites key ptr, 0 ≤ i ∧ i < heapSize)
    ∧ (¬ q.HasFree →
        (∃ rc, (q.pqInsert key ptr).1 = some rc ∧ rc ≠ 0) ∧ (q.pqInsert key ptr).2 = q)

section Operations

variable {key} {q : HeapMemory α} {ptr : α} {i : ℤ}

theorem cells_update (memory : ℤ → α) (i : ℕ) (x : α) :
    cells (Function.update memory i x) = Function.update (cells memory) i x := by
  funext j
  show Function.update memory (i : ℤ) x (j : ℤ) = Function.update (cells memory) i x j
  by_cases hj : j = i
  · rw [hj, Function.update_self, Function.update_self]
  · rw [Function.update_of_ne (Int.ofNat_inj.not.mpr hj), Function.update_of_ne hj]
    rfl

/-- An insertion writes behind the last node, and between there and the top. -/
theorem mem_insertWrites (hi : i ∈ q.insertWrites key ptr) :
    i = q.size + 1 ∨ (1 ≤ i ∧ i ≤ q.size + 1) := by
  rcases List.mem_cons.mp hi with hi | hi
  · exact Or.inl hi
  · obtain ⟨j, hj, rfl⟩ := List.mem_map.mp hi
    have := mem_upWrites hj
    exact Or.inr (by omega)

/-- It changes nothing else. -/
theorem memory_pqInsert (hi : i ∉ q.insertWrites key ptr) :
    (q.pqInsert key ptr).2.memory i = q.memory i := by
  rw [insertWrites, List.mem_cons, not_or] at hi
  obtain ⟨hlast, hup⟩ := hi
  rw [← Function.update_of_ne hlast ptr q.memory]
  cases i with
  | ofNat i =>
    refine siftUp_of_notMem fun hmem => hup ?_
    exact List.mem_map_of_mem hmem
  | negSucc i => rfl

/-- **When an insertion is in order**: when its cell is one of the array. -/
theorem inOrder_iff : q.InOrder key ptr ↔ -1 ≤ q.size ∧ q.size < 1023 := by
  have hheap : (heapSize : ℤ) = 1024 := rfl
  constructor
  · rintro ⟨hwrites, -⟩
    have hlast := hwrites (q.size + 1) List.mem_cons_self
    omega
  · rintro ⟨hlow, hhigh⟩
    refine ⟨fun i hi => ?_, fun hfree => absurd ?_ hfree⟩
    · have := mem_insertWrites hi
      omega
    · unfold HasFree
      omega

end Operations

/-! ## Sequences of operations -/

/-- One operation. -/
def apply (q : HeapMemory α) : HeapEvent α → HeapMemory α
  | .pqInsert ptr => (q.pqInsert key ptr).2
  | .pqPop => q.pqPop key

/-- **The queue after some operations** on a new one. -/
def after (memory : ℤ → α) (tr : List (HeapEvent α)) : HeapMemory α :=
  tr.foldl (apply key) (new memory)

/-- What an operation adds to the size. -/
def weight : HeapEvent α → ℤ
  | .pqInsert _ => 1
  | .pqPop => -1

/-- **How many more insertions than pops** there are. -/
def balance : List (HeapEvent α) → ℤ
  | [] => 0
  | e :: tr => weight e + balance tr

variable {key} {q : HeapMemory α} {memory : ℤ → α} {tr : List (HeapEvent α)}

theorem size_apply (q : HeapMemory α) (e : HeapEvent α) :
    (q.apply key e).size = q.size + weight e := by
  cases e with
  | pqInsert ptr => rfl
  | pqPop => exact Int.sub_eq_add_neg

theorem after_concat (e : HeapEvent α) :
    after key memory (tr ++ [e]) = (after key memory tr).apply key e :=
  List.foldl_concat ..

theorem balance_concat (e : HeapEvent α) : balance (tr ++ [e]) = balance tr + weight e := by
  induction tr with
  | nil => exact Int.add_comm _ _
  | cons a tr ih => rw [List.cons_append, balance, balance, ih, Int.add_assoc]

/-- The size counts the operations. -/
theorem size_after (memory : ℤ → α) (tr : List (HeapEvent α)) :
    (after key memory tr).size = balance tr := by
  induction tr using List.reverseRecOn with
  | nil => rfl
  | append_singleton tr e ih => rw [after_concat, balance_concat, size_apply, ih]

theorem balance_replicate (n : ℕ) (ptr : α) : balance (List.replicate n (.pqInsert ptr)) = n := by
  induction n with
  | zero => rfl
  | succ n ih =>
    rw [List.replicate_succ', balance_concat, ih]
    rfl

/-- **When the capacity is kept to.** In every sequence of operations on a new
queue, each insertion writes only to the array, and refuses a node that has no
cell, if and only if before each of them there were at most 1022 more insertions
than pops, and at most one more pop than insertions. -/
theorem capacity_iff (key : α → κ) (memory : ℤ → α) (tr : List (HeapEvent α)) :
    (∀ tr' ptr, tr' ++ [.pqInsert ptr] <+: tr → (after key memory tr').InOrder key ptr)
      ↔ ∀ tr' ptr, tr' ++ [.pqInsert ptr] <+: tr → -1 ≤ balance tr' ∧ balance tr' < 1023 := by
  refine forall_congr' fun tr' => forall_congr' fun ptr => imp_congr_right fun _ => ?_
  rw [inOrder_iff, size_after]

/-- **The 1024th insertion writes behind the array.** -/
theorem writes_past_end :
    (1024 : ℤ) ∈ (after id (fun _ => 0)
        (List.replicate 1023 (.pqInsert 0))).insertWrites (id : ℕ → ℕ) 0
      ∧ ¬ ∀ tr' ptr, tr' ++ [.pqInsert ptr] <+: List.replicate 1024 (.pqInsert 0)
        → (after id (fun _ => 0) tr').InOrder (id : ℕ → ℕ) ptr := by
  have hsize : (after (id : ℕ → ℕ) (fun _ => 0)
      (List.replicate 1023 (.pqInsert 0))).size = 1023 := by
    rw [size_after, balance_replicate]
    rfl
  refine ⟨?_, fun h => ?_⟩
  · rw [insertWrites, hsize]
    exact List.mem_cons_self
  · have hlast := h (List.replicate 1023 (.pqInsert 0)) 0
      (by rw [← List.replicate_succ'])
    rw [inOrder_iff, hsize] at hlast
    omega

/-! ## The queue in the array -/

/-- The queue without the memory before its array. -/
def queue (q : HeapMemory α) : PriorityQueue α := ⟨cells q.memory, q.size.toNat⟩

/-- An insertion behind the top. -/
theorem queue_pqInsert (hs : 0 ≤ q.size) (ptr : α) :
    (q.pqInsert key ptr).2.queue = q.queue.pqInsert key ptr := by
  obtain ⟨memory, size⟩ := q
  obtain ⟨n, rfl⟩ := Int.eq_ofNat_of_zero_le hs
  show PriorityQueue.mk (BinaryHeap.siftUp key
    (cells (Function.update memory ((n + 1 : ℕ) : ℤ) ptr)) (n + 1)) (n + 1) = _
  rw [cells_update]
  rfl

/-- A removal from a queue that is not empty. -/
theorem queue_pqPop (hs : 1 ≤ q.size) : (q.pqPop key).queue = q.queue.pqPop key := by
  obtain ⟨memory, size⟩ := q
  obtain ⟨n, rfl⟩ := Int.eq_ofNat_of_zero_le (Int.le_trans Int.one_nonneg hs)
  have hsize : ((n : ℤ) - 1).toNat = n - 1 := by omega
  show PriorityQueue.mk (BinaryHeap.siftDown key
    (cells (Function.update memory ((1 : ℕ) : ℤ) (memory n))) ((n : ℤ) - 1).toNat 1)
    ((n : ℤ) - 1).toNat = _
  rw [cells_update, hsize]
  rfl

/-- **The queue in memory is the queue in its array**, as long as no insertion
needs a cell behind the array, and no pop finds an empty queue. -/
theorem queue_of_exec {p : PriorityQueue α}
    (h : (PriorityQueue.machine key (cells memory)).exec
      (PriorityQueue.machine key (cells memory)).init tr = some p) :
    0 ≤ (after key memory tr).size ∧ (after key memory tr).queue = p := by
  refine Machine.exec_induction
    (motive := fun tr p => 0 ≤ (after key memory tr).size ∧ (after key memory tr).queue = p)
    ⟨Int.le_refl 0, rfl⟩ ?_ h
  rintro tr t e t' - hs ⟨hsize, rfl⟩
  rw [after_concat]
  cases e with
  | pqInsert ptr =>
    obtain ⟨-, hs⟩ := Option.ite_none_right_eq_some.mp hs
    cases hs
    exact ⟨Int.le_add_one hsize, queue_pqInsert hsize ptr⟩
  | pqPop =>
    obtain ⟨hne, hs⟩ := Option.ite_none_left_eq_some.mp hs
    cases hs
    have hpos : 1 ≤ (after key memory tr).size.toNat :=
      PriorityQueue.pqIsEmpty_eq_false.mp (Bool.eq_false_iff.mpr hne)
    have hpop : ((after key memory tr).pqPop key).size = (after key memory tr).size - 1 := rfl
    refine ⟨?_, queue_pqPop (by omega)⟩
    show 0 ≤ ((after key memory tr).pqPop key).size
    omega

end HeapMemory

end Version1
