import Shoot.BinaryHeap
import Shoot.Machine

/-!
# The timer heap of version 1.0

A `priority_queue_` is an array of 1024 pointers to timer nodes, used as a
binary heap from cell 1 on, with the node of the least key at the top. The
array is not initialised, and its bounds are not checked: cell 0 is never used,
so 1023 nodes fit.

After any insertions and removals the cells `1 .. size` hold the nodes that
were inserted and not removed, each as often as it is due, and they are in heap
order; so the front is a node of the least key, and a removal takes just that
one (`PriorityQueue.heap_correct`). The two loops are total functions, so they
terminate on every array.

The nodes and their keys are arbitrary. No key changes while its node is in the
heap.
-/

namespace Version1

/-- `HEAPSIZE`. -/
def heapSize : ℕ := 1024

/-- **A `priority_queue_`** of nodes in `α`. -/
structure PriorityQueue (α : Type*) where
  /-- `heap`, the array. -/
  heap : ℕ → α
  /-- `size`. -/
  size : ℕ

/-- The operations that change a queue. -/
inductive HeapEvent (α : Type*) where
  | pqInsert (ptr : α)
  | pqPop
deriving DecidableEq, Repr

namespace PriorityQueue

variable {α κ : Type*} [LinearOrder κ] (key : α → κ)

/-- A new queue, over whatever the array holds. -/
def new (heap : ℕ → α) : PriorityQueue α := ⟨heap, 0⟩

/-- `up(pos)`. -/
def up (q : PriorityQueue α) (pos : ℕ) : PriorityQueue α :=
  { q with heap := BinaryHeap.siftUp key q.heap pos }

/-- `down(pos)`. -/
def down (q : PriorityQueue α) (pos : ℕ) : PriorityQueue α :=
  { q with heap := BinaryHeap.siftDown key q.heap q.size pos }

/-- `pq_insert(ptr)`. Its result is not set, and nothing uses it. -/
def pqInsert (q : PriorityQueue α) (ptr : α) : PriorityQueue α :=
  let size := q.size + 1
  up key ⟨Function.update q.heap size ptr, size⟩ size

/-- `pq_is_empty()`. -/
def pqIsEmpty (q : PriorityQueue α) : Bool := q.size == 0

/-- `pq_pop()`. -/
def pqPop (q : PriorityQueue α) : PriorityQueue α :=
  down key ⟨Function.update q.heap 1 (q.heap q.size), q.size - 1⟩ 1

/-- `pq_front()`. -/
def pqFront (q : PriorityQueue α) : α := q.heap 1

/-- The nodes in the queue. -/
def nodes (q : PriorityQueue α) : Multiset α := BinaryHeap.contents q.heap q.size

/-- The cells are in heap order. -/
def Ordered (q : PriorityQueue α) : Prop := BinaryHeap.Ordered key q.heap q.size

section Operations

variable {key} {q : PriorityQueue α}

theorem pqIsEmpty_eq_false : q.pqIsEmpty = false ↔ 1 ≤ q.size := by
  unfold pqIsEmpty
  rw [beq_eq_false_iff_ne]
  omega

theorem ordered_new (heap : ℕ → α) : (new heap).Ordered key := fun i hi his => by
  have : i ≤ 0 := his
  omega

/-- **Insertion** keeps the order and adds the node. -/
theorem pqInsert_spec (ho : q.Ordered key) (ptr : α) :
    (q.pqInsert key ptr).Ordered key ∧ (q.pqInsert key ptr).nodes = ptr ::ₘ q.nodes :=
  BinaryHeap.insert_spec ho ptr

/-- **Removal** keeps the order and takes the front. -/
theorem pqPop_spec (ho : q.Ordered key) (hs : 1 ≤ q.size) :
    (q.pqPop key).Ordered key ∧ q.nodes = q.pqFront ::ₘ (q.pqPop key).nodes :=
  BinaryHeap.pop_spec ho hs

/-- **The front** is a node of the least key. -/
theorem pqFront_le (ho : q.Ordered key) {x : α} (hx : x ∈ q.nodes) :
    key q.pqFront ≤ key x := by
  obtain ⟨i, hi, rfl⟩ := BinaryHeap.mem_contents.mp hx
  exact ho.top_le hi

/-- What is in a cell of the heap is a node in the queue. -/
theorem heap_mem_nodes {i : ℕ} (hi : 1 ≤ i) (his : i ≤ q.size) : q.heap i ∈ q.nodes :=
  BinaryHeap.mem_contents.mpr ⟨i, ⟨hi, his⟩, rfl⟩

theorem pqFront_mem (hs : 1 ≤ q.size) : q.pqFront ∈ q.nodes := heap_mem_nodes (le_refl 1) hs

end Operations

/-! ## Runs -/

/-- One operation: an insertion where a cell is free, a removal where a node is
in the queue. -/
def step (q : PriorityQueue α) : HeapEvent α → Option (PriorityQueue α)
  | .pqInsert ptr => if q.size + 1 < heapSize then some (q.pqInsert key ptr) else none
  | .pqPop => if q.pqIsEmpty then none else some (q.pqPop key)

/-- **A queue and the operations on it**, as a machine. -/
def machine (heap : ℕ → α) : Machine (PriorityQueue α) (HeapEvent α) := ⟨new heap, step key⟩

/-- The nodes that were inserted, and those that `pq_front` gave when they were
removed. -/
def record (q : PriorityQueue α) (e : HeapEvent α) (l : Multiset α × Multiset α) :
    Multiset α × Multiset α :=
  match e with
  | .pqInsert ptr => (ptr ::ₘ l.1, l.2)
  | .pqPop => (l.1, q.pqFront ::ₘ l.2)

/-- The nodes inserted and removed in a run. -/
def ledger (heap : ℕ → α) (tr : List (HeapEvent α)) : Multiset α × Multiset α :=
  (machine key heap).history record (machine key heap).init (0, 0) tr

variable {key}

/-- **The order and the books of a run**: the cells are in heap order, and the nodes
in the queue are those inserted and not removed. -/
theorem sound_of_exec {heap : ℕ → α} {tr : List (HeapEvent α)} {q : PriorityQueue α}
    (h : (machine key heap).exec (machine key heap).init tr = some q) :
    q.Ordered key ∧ q.nodes + (ledger key heap tr).2 = (ledger key heap tr).1 := by
  refine Machine.history_invariant (M := machine key heap)
    (I := fun q (l : Multiset α × Multiset α) => q.Ordered key ∧ q.nodes + l.2 = l.1) ?_ ?_ h
  · exact ⟨ordered_new heap, rfl⟩
  · rintro - t e t' l - hs ⟨ho, hl⟩
    cases e with
    | pqInsert ptr =>
      obtain ⟨-, hs⟩ := Option.ite_none_right_eq_some.mp hs
      cases hs
      obtain ⟨ho', hn⟩ := pqInsert_spec ho ptr
      refine ⟨ho', ?_⟩
      show _ + l.2 = ptr ::ₘ l.1
      rw [hn, Multiset.cons_add, hl]
    | pqPop =>
      obtain ⟨hne, hs⟩ := Option.ite_none_left_eq_some.mp hs
      cases hs
      obtain ⟨ho', hn⟩ := pqPop_spec ho (pqIsEmpty_eq_false.mp (Bool.eq_false_iff.mpr hne))
      refine ⟨ho', ?_⟩
      show _ + t.pqFront ::ₘ l.2 = l.1
      rw [Multiset.add_cons, ← Multiset.cons_add, ← hn, hl]

/-- **The heap is correct after any operations.** The cells hold the nodes
inserted and not yet removed; no node has a smaller key than its parent; and if
there is one, the front is a node of the least key, and the one a removal
takes. -/
theorem heap_correct {heap : ℕ → α} {tr : List (HeapEvent α)} {q : PriorityQueue α}
    (h : (machine key heap).exec (machine key heap).init tr = some q) :
    q.nodes + (ledger key heap tr).2 = (ledger key heap tr).1
      ∧ (∀ i, 2 ≤ i → i ≤ q.size → key (q.heap (i / 2)) ≤ key (q.heap i))
      ∧ (q.pqIsEmpty = false →
          (q.pqFront ∈ q.nodes ∧ ∀ x ∈ q.nodes, key q.pqFront ≤ key x)
            ∧ q.nodes = q.pqFront ::ₘ (q.pqPop key).nodes) := by
  obtain ⟨ho, hl⟩ := sound_of_exec h
  refine ⟨hl, ho, fun hne => ?_⟩
  have hs := pqIsEmpty_eq_false.mp hne
  exact ⟨⟨pqFront_mem hs, fun x hx => pqFront_le ho hx⟩, (pqPop_spec ho hs).2⟩

/-- Four nodes with two equal keys, over an array of other values: the first of
the two is removed, and the second one is the front. -/
theorem heap_correct_four :
    ∃ q : PriorityQueue ℕ, (machine id fun _ => 99).exec (machine id fun _ => 99).init
        [.pqInsert 5, .pqInsert 3, .pqInsert 3, .pqInsert 8, .pqPop] = some q
      ∧ q.nodes + {3} = {5, 3, 3, 8} ∧ q.nodes = 3 ::ₘ (q.pqPop id).nodes := by
  have hrun : ((machine id fun _ => 99).exec (machine id fun _ => 99).init
      [.pqInsert 5, .pqInsert 3, .pqInsert 3, .pqInsert 8, .pqPop]).map
        (fun q : PriorityQueue ℕ => (q.size, q.pqFront)) = some (3, 3) := by
    decide +kernel
  obtain ⟨q, hq, hfront⟩ := Option.map_eq_some_iff.mp hrun
  obtain ⟨hl, -, hne⟩ := heap_correct hq
  have hledger : ledger id (fun _ => 99)
      [.pqInsert 5, .pqInsert 3, .pqInsert 3, .pqInsert 8, .pqPop] = ({5, 3, 3, 8}, {3}) := by
    decide +kernel
  rw [hledger] at hl
  rw [Prod.mk.injEq] at hfront
  have hs : q.pqIsEmpty = false := pqIsEmpty_eq_false.mpr (by omega)
  exact ⟨q, hq, hl, hfront.2 ▸ (hne hs).2⟩

end PriorityQueue

end Version1
