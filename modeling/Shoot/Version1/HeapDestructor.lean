import Mathlib.Data.Multiset.Count
import Shoot.Version1.HeapCapacity

/-!
# The destructor of the timer heap of version 1.0

The destructor of a `priority_queue_` deletes every pointer of its array that is not
null, whether or not it is one of the nodes in the heap. The constructor does not clear
the array, so the cells that were never used are deleted as whatever they hold. Nor does
a pop clear the cell it frees: the pointer that was moved out of it is there a second
time, and the last node to be popped is there as well.

A cell beyond the nodes holds what it held at first if the heap never got to it, and
some node that was inserted if it did (`PriorityQueue.UsedTo`). So the nodes in the heap
are freed once, and nothing else is freed, if and only if the heap is as large as it
ever was and the cells it never got to were null from the start
(`PriorityQueue.freesOnce_iff`).
-/

namespace Version1

namespace PriorityQueue

variable {α κ : Type*}

/-- **The pointers that `~priority_queue_` passes to `delete`**, in order. -/
def deleted [DecidableEq α] (null : α) (q : PriorityQueue α) : List α :=
  ((List.range heapSize).map q.heap).filter fun ptr => ptr ≠ null

/-- **Each node in the heap is freed once, and nothing else is freed.** -/
def FreesOnce [DecidableEq α] (null : α) (q : PriorityQueue α) : Prop :=
  (∀ x ∈ q.deleted null, x ∈ q.nodes) ∧ ∀ x ∈ q.nodes, (q.deleted null).count x = 1

instance [DecidableEq α] (null : α) (q : PriorityQueue α) : Decidable (q.FreesOnce null) :=
  inferInstanceAs (Decidable (_ ∧ _))

/-! ## The pointers behind the nodes -/

section Deleted

variable [DecidableEq α] {null : α} {q : PriorityQueue α}

/-- The pointers that are deleted and do not stand in a cell of the heap. -/
def stray (null : α) (q : PriorityQueue α) : Multiset α :=
  (((Multiset.range heapSize).filter fun i => ¬(1 ≤ i ∧ i ≤ q.size)).map q.heap).filter
    fun ptr => ptr ≠ null

/-- Nothing is stray exactly if the other cells are null. -/
theorem stray_eq_zero_iff :
    q.stray null = 0 ↔ ∀ i < heapSize, i = 0 ∨ q.size < i → q.heap i = null := by
  unfold stray
  rw [Multiset.filter_eq_nil, Multiset.forall_mem_map_iff]
  refine forall_congr' fun i => ?_
  rw [Multiset.mem_filter, Multiset.mem_range, and_imp, not_not]
  refine imp_congr_right fun _ => imp_congr_left ?_
  omega

/-- The cells of an array, without the nulls: those of a heap in it, and the others. -/
theorem coe_filter_map_range {h : ℕ → α} {n size : ℕ} (hs : size < n)
    (hnull : null ∉ BinaryHeap.contents h size) :
    (((List.range n).map h).filter (fun ptr => ptr ≠ null) : Multiset α)
      = BinaryHeap.contents h size
        + (((Multiset.range n).filter fun i => ¬(1 ≤ i ∧ i ≤ size)).map h).filter
          fun ptr => ptr ≠ null := by
  have hcells : (Multiset.range n).filter (fun i => 1 ≤ i ∧ i ≤ size)
      = (Finset.Icc 1 size).val := by
    have hIcc : (Finset.range n).filter (fun i => 1 ≤ i ∧ i ≤ size) = Finset.Icc 1 size := by
      ext i
      rw [Finset.mem_filter, Finset.mem_range, Finset.mem_Icc]
      omega
    rw [← hIcc, Finset.filter_val, Finset.range_val]
  have hnodes : (BinaryHeap.contents h size).filter (fun ptr => ptr ≠ null)
      = BinaryHeap.contents h size :=
    Multiset.filter_eq_self.mpr fun x hx hxn => hnull (hxn ▸ hx)
  have hsplit : ((List.range n).map h : Multiset α) = BinaryHeap.contents h size
      + ((Multiset.range n).filter fun i => ¬(1 ≤ i ∧ i ≤ size)).map h := by
    rw [← Multiset.map_coe, Multiset.coe_range, BinaryHeap.contents, ← hcells,
      ← Multiset.map_add, Multiset.filter_add_not]
  rw [← Multiset.filter_coe, hsplit, Multiset.filter_add, hnodes]

/-- **What the destructor deletes**: the nodes in the heap, and the stray pointers. -/
theorem coe_deleted (hs : q.size < heapSize) (hnull : null ∉ q.nodes) :
    (q.deleted null : Multiset α) = q.nodes + q.stray null :=
  coe_filter_map_range hs hnull

/-- Distinct elements are each there once, and nothing else is, if nothing is added to
them. -/
theorem mem_and_count_iff {s t : Multiset α} (hs : s.Nodup) :
    ((∀ x ∈ s + t, x ∈ s) ∧ ∀ x ∈ s, (s + t).count x = 1) ↔ t = 0 := by
  constructor
  · rintro ⟨hmem, hcount⟩
    refine Multiset.eq_zero_of_forall_notMem fun x hx => ?_
    have hxs := hmem x (Multiset.mem_add.mpr (Or.inr hx))
    have hone := hcount x hxs
    have hpos := Multiset.count_pos.mpr hx
    rw [Multiset.count_add, Multiset.count_eq_one_of_mem hs hxs] at hone
    omega
  · rintro rfl
    rw [Multiset.add_zero]
    exact ⟨fun _ hx => hx, fun x hx => Multiset.count_eq_one_of_mem hs hx⟩

/-- **A heap of distinct nodes** is freed once if the cells outside of it are null. -/
theorem freesOnce_iff_null (hs : q.size < heapSize) (hnull : null ∉ q.nodes)
    (hnodup : q.nodes.Nodup) :
    q.FreesOnce null ↔ ∀ i < heapSize, i = 0 ∨ q.size < i → q.heap i = null := by
  rw [← stray_eq_zero_iff, ← mem_and_count_iff hnodup, ← coe_deleted hs hnull]
  simp only [FreesOnce, Multiset.mem_coe, Multiset.coe_count]

end Deleted

/-! ## The cells that were used -/

variable [LinearOrder κ] {key : α → κ}

section Cells

variable {q : PriorityQueue α} {ptr : α} {i : ℕ}

/-- An insertion leaves the cell 0 and those behind the new node as they are. -/
theorem heap_pqInsert (hi : i = 0 ∨ q.size + 1 < i) :
    (q.pqInsert key ptr).heap i = q.heap i := by
  have hout : i ∉ upWrites key (Function.update q.heap (q.size + 1) ptr) (q.size + 1) := by
    intro hmem
    have := mem_upWrites hmem
    omega
  exact (siftUp_of_notMem hout).trans (Function.update_of_ne (by omega) _ _)

/-- A removal leaves the cell 0, that of the last node and those behind it as they
are. -/
theorem heap_pqPop (hs : 1 ≤ q.size) (hi : i = 0 ∨ q.size ≤ i) :
    (q.pqPop key).heap i = q.heap i := by
  have hout : i < 1 ∨ q.size - 1 < i := by omega
  have hframe : (q.pqPop key).heap i = Function.update q.heap 1 (q.heap q.size) i :=
    BinaryHeap.siftDown_of_outside hout
  rw [hframe]
  by_cases h1 : i = 1
  · have hsize : q.size = 1 := by omega
    rw [h1, Function.update_self, hsize]
  · exact Function.update_of_ne h1 _ _

/-- **The cells up to `m` were used**, and hold nodes that were inserted; the others were
not, and hold what they held at first. -/
structure UsedTo (heap : ℕ → α) (inserted : Multiset α) (m : ℤ) (q : PriorityQueue α) :
    Prop where
  size_le : q.size ≤ m
  lt_heapSize : m < heapSize
  used : ∀ i : ℕ, 1 ≤ i → i ≤ m → q.heap i ∈ inserted
  unused : ∀ i : ℕ, i = 0 ∨ m < i → q.heap i = heap i

variable {heap : ℕ → α} {inserted : Multiset α} {m : ℤ}

/-- The nodes in the heap were inserted. -/
theorem UsedTo.mem_inserted (h : UsedTo heap inserted m q) {x : α} (hx : x ∈ q.nodes) :
    x ∈ inserted := by
  obtain ⟨i, ⟨hi, his⟩, rfl⟩ := BinaryHeap.mem_contents.mp hx
  have := h.size_le
  exact h.used i hi (by omega)

/-- A new queue has used no cell. -/
theorem usedTo_new (heap : ℕ → α) : UsedTo heap 0 0 (new heap) where
  size_le := le_refl 0
  lt_heapSize := by decide
  used i hi him := by omega
  unused i _ := rfl

/-- An insertion uses the cell behind the heap. -/
theorem UsedTo.pqInsert (h : UsedTo heap inserted m q) (ho : q.Ordered key)
    (hs : q.size + 1 < heapSize) (ptr : α) :
    UsedTo heap (ptr ::ₘ inserted) (max m (q.size + 1)) (q.pqInsert key ptr) where
  size_le := Int.le_max_right ..
  lt_heapSize := by
    have := h.lt_heapSize
    omega
  used i hi him := by
    by_cases his : i ≤ q.size + 1
    · have hmem : (q.pqInsert key ptr).heap i ∈ (q.pqInsert key ptr).nodes :=
        heap_mem_nodes hi his
      rw [(pqInsert_spec ho ptr).2, Multiset.mem_cons] at hmem
      exact Multiset.mem_cons.mpr (hmem.imp_right h.mem_inserted)
    · rw [heap_pqInsert (by omega)]
      exact Multiset.mem_cons_of_mem (h.used i hi (by omega))
  unused i hi := by
    rw [heap_pqInsert (by omega)]
    exact h.unused i (by omega)

/-- A removal uses no new cell. -/
theorem UsedTo.pqPop (h : UsedTo heap inserted m q) (ho : q.Ordered key) (hs : 1 ≤ q.size) :
    UsedTo heap inserted m (q.pqPop key) where
  size_le := by
    have := h.size_le
    show ((q.size - 1 : ℕ) : ℤ) ≤ m
    omega
  lt_heapSize := h.lt_heapSize
  used i hi him := by
    by_cases his : i ≤ q.size - 1
    · have hmem : (q.pqPop key).heap i ∈ (q.pqPop key).nodes := heap_mem_nodes hi his
      refine h.mem_inserted ?_
      rw [(pqPop_spec ho hs).2]
      exact Multiset.mem_cons_of_mem hmem
    · rw [heap_pqPop hs (by omega)]
      exact h.used i hi him
  unused i hi := by
    have := h.size_le
    rw [heap_pqPop hs (by omega)]
    exact h.unused i hi

end Cells

/-! ## Runs -/

/-- **The largest number of nodes** there ever were: the largest balance of a prefix. -/
def peak : List (HeapEvent α) → ℤ
  | [] => 0
  | e :: tr => max 0 (HeapMemory.weight e + peak tr)

theorem peak_concat (tr : List (HeapEvent α)) (e : HeapEvent α) :
    peak (tr ++ [e]) = max (peak tr) (HeapMemory.balance (tr ++ [e])) := by
  induction tr with
  | nil => rfl
  | cons a tr ih =>
    rw [List.cons_append, peak, peak, ih, HeapMemory.balance]
    omega

/-- The peak is the least bound of the sizes there were. -/
theorem peak_le_iff {tr : List (HeapEvent α)} {m : ℤ} :
    peak tr ≤ m ↔ ∀ tr', tr' <+: tr → HeapMemory.balance tr' ≤ m := by
  induction tr using List.reverseRecOn with
  | nil => simp [peak, HeapMemory.balance]
  | append_singleton tr e ih =>
    rw [peak_concat, max_le_iff, ih]
    simp only [List.prefix_concat_iff, or_imp, forall_and, forall_eq]
    exact and_comm

section Runs

variable {heap : ℕ → α} {tr : List (HeapEvent α)} {q : PriorityQueue α}

/-- The size counts the operations, as it does for a queue in memory. -/
theorem size_of_exec (h : (machine key heap).exec (machine key heap).init tr = some q) :
    (q.size : ℤ) = HeapMemory.balance tr := by
  have hcells : HeapMemory.cells (HeapMemory.setCells (fun _ => heap 0) heap) = heap := rfl
  rw [← hcells] at h
  obtain ⟨hsize, rfl⟩ := HeapMemory.queue_of_exec h
  rw [HeapMemory.size_after] at hsize
  show ((HeapMemory.after key _ tr).size.toNat : ℤ) = HeapMemory.balance tr
  rw [HeapMemory.size_after, Int.toNat_of_nonneg hsize]

/-- **The cells used in a run** are those up to its peak. -/
theorem usedTo_peak (h : (machine key heap).exec (machine key heap).init tr = some q) :
    UsedTo heap (ledger key heap tr).1 (peak tr) q := by
  refine Machine.exec_induction (M := machine key heap)
    (motive := fun tr q => UsedTo heap (ledger key heap tr).1 (peak tr) q) ?_ ?_ h
  · exact usedTo_new heap
  · intro tr t e t' ht hs ih
    have hstep := Machine.history_concat record ht hs (0, 0)
    have hbalance := size_of_exec (Machine.exec_concat.mpr ⟨t, ht, hs⟩)
    have ho := (sound_of_exec ht).1
    rw [ledger, hstep, peak_concat, ← hbalance]
    cases e with
    | pqInsert ptr =>
      obtain ⟨hfree, hs⟩ := Option.ite_none_right_eq_some.mp hs
      cases hs
      exact ih.pqInsert ho hfree ptr
    | pqPop =>
      obtain ⟨hne, hs⟩ := Option.ite_none_left_eq_some.mp hs
      cases hs
      have hused := ih.pqPop ho (pqIsEmpty_eq_false.mp (Bool.eq_false_iff.mpr hne))
      rwa [max_eq_left hused.size_le]

/-- **When each node is freed once.** After any operations on a new queue, the nodes
inserted being different ones and none of them null, the nodes in the heap are those
inserted and not removed; and each of them is freed once, and nothing else is freed, if
and only if the heap is as large as it ever was, and the cell 0 and those behind the
nodes were null at first. -/
theorem freesOnce_iff [DecidableEq α] {null : α}
    (h : (machine key heap).exec (machine key heap).init tr = some q)
    (hdistinct : (ledger key heap tr).1.Nodup) (hnull : null ∉ (ledger key heap tr).1) :
    q.nodes + (ledger key heap tr).2 = (ledger key heap tr).1
      ∧ (q.FreesOnce null
        ↔ HeapMemory.balance tr = peak tr
          ∧ ∀ i < heapSize, i = 0 ∨ HeapMemory.balance tr < i → heap i = null) := by
  have hl := (sound_of_exec h).2
  have hsize := size_of_exec h
  have hused := usedTo_peak h
  have hnodup : q.nodes.Nodup := by
    rw [← hl] at hdistinct
    exact (Multiset.nodup_add.mp hdistinct).1
  have hle := hused.size_le
  have hlt := hused.lt_heapSize
  refine ⟨hl, ?_⟩
  rw [freesOnce_iff_null (by omega) (fun hx => hnull (hused.mem_inserted hx)) hnodup, ← hsize]
  constructor
  · intro hcells
    -- the last cell that was used holds a node
    have hpeak : (q.size : ℤ) = peak tr := by
      by_contra hne
      obtain ⟨m, hm⟩ := Int.eq_ofNat_of_zero_le (show 0 ≤ peak tr by omega)
      refine hnull ?_
      rw [← hcells m (by omega) (Or.inr (by omega))]
      exact hused.used m (by omega) (by omega)
    refine ⟨hpeak, fun i hi hout => ?_⟩
    rw [← hused.unused i (by omega)]
    exact hcells i hi (by omega)
  · rintro ⟨hpeak, hcells⟩ i hi hout
    rw [hused.unused i (by omega)]
    exact hcells i hi (by omega)

end Runs

/-- Three nodes on an array of nulls, the first of them popped and replaced. -/
theorem freesOnce_iff_replaced :
    ∃ q : PriorityQueue ℕ, (machine id fun _ => 0).exec (machine id fun _ => 0).init
        [.pqInsert 5, .pqInsert 3, .pqPop, .pqInsert 8] = some q
      ∧ q.nodes + {3} = {5, 3, 8} ∧ q.FreesOnce 0 := by
  have hrun : ((machine id fun _ => 0).exec (machine id fun _ => 0).init
      [.pqInsert 5, .pqInsert 3, .pqPop, .pqInsert 8]).isSome := by
    decide +kernel
  obtain ⟨q, hq⟩ := Option.isSome_iff_exists.mp hrun
  have hledger : ledger id (fun _ => 0) [.pqInsert 5, .pqInsert 3, .pqPop, .pqInsert 8]
      = ({8, 3, 5}, {3}) := by
    decide +kernel
  have hnull : 0 ∉ (ledger id (fun _ => 0)
      [.pqInsert 5, .pqInsert 3, .pqPop, .pqInsert 8]).1 := by
    rw [hledger]
    decide
  obtain ⟨hl, hfrees⟩ := freesOnce_iff hq (by rw [hledger]; decide) hnull
  rw [hledger] at hl
  exact ⟨q, hq, hl.trans (by decide), hfrees.mpr ⟨by decide, fun _ _ _ => rfl⟩⟩

/-- **A node may be freed twice, or after it was popped, and so may anything that the
array held.** On an array of nulls, two nodes are inserted and one is popped: the other
one is deleted twice. One node is inserted and popped: it is deleted. And on an array of
other values, these are deleted though nothing was inserted. -/
theorem not_freesOnce :
    (((machine id fun _ => 0).exec (machine id fun _ => 0).init
        [.pqInsert 1, .pqInsert 2, .pqPop]).map fun q : PriorityQueue ℕ =>
          (q.nodes, q.deleted 0, decide (q.FreesOnce 0))) = some ({2}, [2, 2], false)
      ∧ (((machine id fun _ => 0).exec (machine id fun _ => 0).init
        [.pqInsert 1, .pqPop]).map fun q : PriorityQueue ℕ =>
          (q.nodes, q.deleted 0, decide (q.FreesOnce 0))) = some (0, [1], false)
      ∧ ¬(new fun _ => 7 : PriorityQueue ℕ).FreesOnce 0 := by
  decide +kernel

end PriorityQueue

end Version1
