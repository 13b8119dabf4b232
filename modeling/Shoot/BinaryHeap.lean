import Mathlib.Data.Finset.Image
import Mathlib.Logic.Equiv.Basic
import Mathlib.Order.Interval.Finset.Nat

/-!
# Binary heaps in an array

A binary heap keeps its elements in the cells `1 .. size` of an array, so that
the parent of cell `i` is cell `i / 2`. Here an array is a function of the
position, and the elements are ordered by a key in a linear order.

Both loops that repair a heap exchange an element with a neighbour and go on
from there. Each has an invariant that says where the order may be broken:
`siftUp` at the edge above the position it stands at (`UpReady`), `siftDown` at
the edges below it (`DownReady`). The two together give the operations:
putting an element into the next cell and sifting it up, and moving the last
element to the top and sifting it down. They keep the order and change the
contents, a multiset, by the one element they are about.
-/

namespace BinaryHeap

variable {α κ : Type*}

/-! ## The array -/

/-- Exchange two cells. -/
def swap (h : ℕ → α) (i j : ℕ) : ℕ → α := h ∘ Equiv.swap i j

/-- **The contents of the heap**, with their multiplicities. -/
def contents (h : ℕ → α) (size : ℕ) : Multiset α := (Finset.Icc 1 size).val.map h

section Array

variable {h h' : ℕ → α} {i j k size : ℕ}

@[simp] theorem swap_left : swap h i j i = h j := congrArg h (Equiv.swap_apply_left i j)

@[simp] theorem swap_right : swap h i j j = h i := congrArg h (Equiv.swap_apply_right i j)

theorem swap_of_ne (hi : k ≠ i) (hj : k ≠ j) : swap h i j k = h k :=
  congrArg h (Equiv.swap_apply_of_ne_of_ne hi hj)

theorem contents_succ : contents h (size + 1) = h (size + 1) ::ₘ contents h size := by
  have hIcc : Finset.Icc 1 (size + 1) = insert (size + 1) (Finset.Icc 1 size) := by
    ext i
    simp only [Finset.mem_Icc, Finset.mem_insert]
    omega
  unfold contents
  rw [hIcc, Finset.insert_val_of_notMem (by simp), Multiset.map_cons]

/-- Only the cells of the heap matter. -/
theorem contents_congr (hh : ∀ i, 1 ≤ i → i ≤ size → h i = h' i) :
    contents h size = contents h' size := by
  refine Multiset.map_congr rfl fun i hi => ?_
  obtain ⟨h1, hs⟩ := Finset.mem_Icc.mp (Finset.mem_val.mp hi)
  exact hh i h1 hs

theorem mem_contents {x : α} : x ∈ contents h size ↔ ∃ i, (1 ≤ i ∧ i ≤ size) ∧ h i = x := by
  unfold contents
  rw [Multiset.mem_map]
  simp only [Finset.mem_val, Finset.mem_Icc]

/-- **Exchanging two cells of the heap keeps the contents.** -/
theorem contents_swap (hi : 1 ≤ i ∧ i ≤ size) (hj : 1 ≤ j ∧ j ≤ size) :
    contents (swap h i j) size = contents h size := by
  have hperm : (Finset.Icc 1 size).map (Equiv.swap i j : Equiv.Perm ℕ) = Finset.Icc 1 size := by
    refine Finset.map_perm fun k hk => ?_
    rw [Finset.coe_Icc, Set.mem_Icc]
    by_contra hout
    refine hk (Equiv.swap_apply_of_ne_of_ne ?_ ?_)
    · rintro rfl
      exact hout hi
    · rintro rfl
      exact hout hj
  unfold contents swap
  rw [← Multiset.map_map]
  exact congrArg (fun s : Finset ℕ => s.val.map h) hperm

end Array

/-! ## Sifting -/

variable [LinearOrder κ] (key : α → κ)

/-- **Sift up**: while the element at `pos` goes before its parent, exchange
the two. -/
def siftUp (h : ℕ → α) (pos : ℕ) : ℕ → α :=
  if 1 < pos then
    if key (h pos) < key (h (pos / 2)) then siftUp (swap h pos (pos / 2)) (pos / 2) else h
  else
    h
termination_by pos

/-- The child of a position that goes first, given the left one. -/
def firstChild (h : ℕ → α) (size left : ℕ) : ℕ :=
  if left < size ∧ key (h (left + 1)) < key (h left) then left + 1 else left

/-- The first child is the left or the right one, and in the heap. -/
theorem firstChild_cases (h : ℕ → α) {size left : ℕ} (hl : left ≤ size) :
    (firstChild key h size left = left ∨ firstChild key h size left = left + 1)
      ∧ firstChild key h size left ≤ size := by
  unfold firstChild
  split <;> omega

/-- **Sift down**: while the first child of `pos` goes before it, exchange the
two. -/
def siftDown (h : ℕ → α) (size pos : ℕ) : ℕ → α :=
  if 2 * pos ≤ size then
    if key (h (firstChild key h size (2 * pos))) < key (h pos) then
      siftDown (swap h (firstChild key h size (2 * pos)) pos) size
        (firstChild key h size (2 * pos))
    else
      h
  else
    h
termination_by size - pos
decreasing_by
  obtain ⟨hc, hs⟩ := firstChild_cases key h (show 2 * pos ≤ size by assumption)
  -- a position without elements below it has no first child that goes before it
  have hne : firstChild key h size (2 * pos) ≠ pos := by
    intro hp
    rename_i hlt
    rw [hp] at hlt
    exact lt_irrefl _ hlt
  omega

/-- **The heap order**: no element goes before its parent. -/
def Ordered (h : ℕ → α) (size : ℕ) : Prop :=
  ∀ i, 2 ≤ i → i ≤ size → key (h (i / 2)) ≤ key (h i)

/-- The order may be broken above `pos`, and only there; the elements below
`pos` are in order with the one above it. -/
structure UpReady (h : ℕ → α) (size pos : ℕ) : Prop where
  pos_le : 1 ≤ pos ∧ pos ≤ size
  except : ∀ i, 2 ≤ i → i ≤ size → i ≠ pos → key (h (i / 2)) ≤ key (h i)
  grand : 2 ≤ pos → ∀ i, i ≤ size → i / 2 = pos → key (h (pos / 2)) ≤ key (h i)

/-- The order may be broken below `pos`, and only there; the elements below
`pos` are in order with the one above it. -/
structure DownReady (h : ℕ → α) (size pos : ℕ) : Prop where
  pos_le : 1 ≤ pos
  except : ∀ i, 2 ≤ i → i ≤ size → i / 2 ≠ pos → key (h (i / 2)) ≤ key (h i)
  grand : 2 ≤ pos → ∀ i, i ≤ size → i / 2 = pos → key (h (pos / 2)) ≤ key (h i)

section Sift

variable {key} {h : ℕ → α} {size pos : ℕ}

/-- One exchange on the way up moves the broken edge up. -/
theorem UpReady.step (hr : UpReady key h size pos) (hpos : 1 < pos)
    (hlt : key (h pos) < key (h (pos / 2))) :
    UpReady key (swap h pos (pos / 2)) size (pos / 2) := by
  have hq : pos / 2 ≠ pos := by omega
  have hsize := hr.pos_le.2
  refine ⟨by omega, fun i hi his hiq => ?_, fun hq2 i his hi => ?_⟩
  · by_cases hip : i = pos
    · subst hip
      rw [swap_left, swap_right]
      exact hlt.le
    · rw [swap_of_ne hip hiq]
      by_cases hp : i / 2 = pos
      · rw [hp, swap_left]
        exact hr.grand hpos i his hp
      · by_cases hp' : i / 2 = pos / 2
        · rw [hp', swap_right]
          exact hlt.le.trans (hp' ▸ hr.except i hi his hip)
        · rw [swap_of_ne hp hp']
          exact hr.except i hi his hip
  · have hup := hr.except (pos / 2) hq2 (by omega) hq
    rw [swap_of_ne (show pos / 2 / 2 ≠ pos by omega) (by omega)]
    by_cases hip : i = pos
    · subst hip
      rw [swap_left]
      exact hup
    · rw [swap_of_ne hip (by omega)]
      exact hup.trans (hi ▸ hr.except i (by omega) his hip)

/-- Where nothing goes before its parent any more, the heap is in order. -/
theorem UpReady.ordered (hr : UpReady key h size pos)
    (hstop : 1 < pos → key (h (pos / 2)) ≤ key (h pos)) : Ordered key h size := by
  intro i hi his
  by_cases hip : i = pos
  · subst hip
    exact hstop (by omega)
  · exact hr.except i hi his hip

/-- **Sifting up repairs the order** and keeps the contents. -/
theorem siftUp_spec (hr : UpReady key h size pos) :
    Ordered key (siftUp key h pos) size
      ∧ contents (siftUp key h pos) size = contents h size := by
  induction h, pos using siftUp.induct key with
  | case1 h pos hpos hlt ih =>
    rw [siftUp, if_pos hpos, if_pos hlt]
    obtain ⟨ho, hc⟩ := ih (hr.step hpos hlt)
    refine ⟨ho, hc.trans (contents_swap hr.pos_le ?_)⟩
    have := hr.pos_le
    omega
  | case2 h pos hpos hlt =>
    rw [siftUp, if_pos hpos, if_neg hlt]
    exact ⟨hr.ordered fun _ => not_lt.mp hlt, rfl⟩
  | case3 h pos hpos =>
    rw [siftUp, if_neg hpos]
    exact ⟨hr.ordered fun hp => absurd hp hpos, rfl⟩

/-- No child in the heap goes before the first one. -/
theorem firstChild_le {i : ℕ} (his : i ≤ size) (hi : i / 2 = pos) :
    key (h (firstChild key h size (2 * pos))) ≤ key (h i) := by
  have hcase : i = 2 * pos ∨ i = 2 * pos + 1 := by omega
  unfold firstChild
  rcases hcase with rfl | rfl
  · split
    · rename_i hr
      exact hr.2.le
    · exact le_refl _
  · split
    · exact le_refl _
    · rename_i hn
      exact not_lt.mp fun hlt => hn ⟨by omega, hlt⟩

/-- One exchange on the way down moves the broken edges down. -/
theorem DownReady.step (hr : DownReady key h size pos) (hl : 2 * pos ≤ size)
    (hlt : key (h (firstChild key h size (2 * pos))) < key (h pos)) :
    DownReady key (swap h (firstChild key h size (2 * pos)) pos) size
      (firstChild key h size (2 * pos)) := by
  have hpos := hr.pos_le
  obtain ⟨hcase, hcs⟩ := firstChild_cases key h hl
  have hmin : ∀ i, i ≤ size → i / 2 = pos →
      key (h (firstChild key h size (2 * pos))) ≤ key (h i) :=
    fun i his hi => firstChild_le his hi
  generalize firstChild key h size (2 * pos) = c at hlt hcase hcs hmin ⊢
  have hcp : c / 2 = pos := by omega
  refine ⟨by omega, fun i hi his hic => ?_, fun _ i his hi => ?_⟩
  · by_cases hc : i = c
    · subst hc
      rw [hcp, swap_left, swap_right]
      exact hlt.le
    by_cases hp : i = pos
    · subst hp
      rw [swap_right, swap_of_ne hic (by omega)]
      exact hr.grand hi c hcs hcp
    rw [swap_of_ne hc hp]
    by_cases hip : i / 2 = pos
    · rw [hip, swap_right]
      exact hmin i his hip
    · rw [swap_of_ne hic hip]
      exact hr.except i hi his hip
  · rw [hcp, swap_right, swap_of_ne (by omega) (by omega), ← hi]
    exact hr.except i (by omega) his (by omega)

/-- Where no child goes before its parent any more, the heap is in order. -/
theorem DownReady.ordered (hr : DownReady key h size pos)
    (hstop : ∀ i, i ≤ size → i / 2 = pos → key (h pos) ≤ key (h i)) : Ordered key h size := by
  intro i hi his
  by_cases hip : i / 2 = pos
  · rw [hip]
    exact hstop i his hip
  · exact hr.except i hi his hip

/-- **Sifting down repairs the order** and keeps the contents. -/
theorem siftDown_spec (hr : DownReady key h size pos) :
    Ordered key (siftDown key h size pos) size
      ∧ contents (siftDown key h size pos) size = contents h size := by
  induction h, pos using siftDown.induct key size with
  | case1 h pos hl hlt ih =>
    rw [siftDown, if_pos hl, if_pos hlt]
    obtain ⟨ho, hc⟩ := ih (hr.step hl hlt)
    have hpos := hr.pos_le
    obtain ⟨hcase, hcs⟩ := firstChild_cases key h hl
    exact ⟨ho, hc.trans (contents_swap ⟨by omega, hcs⟩ ⟨hpos, by omega⟩)⟩
  | case2 h pos hl hlt =>
    rw [siftDown, if_pos hl, if_neg hlt]
    exact ⟨hr.ordered fun i his hi => (not_lt.mp hlt).trans (firstChild_le his hi), rfl⟩
  | case3 h pos hl =>
    rw [siftDown, if_neg hl]
    exact ⟨hr.ordered fun i his hi => by omega, rfl⟩

/-- Sifting down leaves the cells above `pos` and behind the heap as they are. -/
theorem siftDown_of_outside {i : ℕ} (hi : i < pos ∨ size < i) :
    siftDown key h size pos i = h i := by
  induction h, pos using siftDown.induct key size with
  | case1 h pos hl hlt ih =>
    obtain ⟨hcase, hcs⟩ := firstChild_cases key h hl
    rw [siftDown, if_pos hl, if_pos hlt, ih (by omega), swap_of_ne (by omega) (by omega)]
  | case2 h pos hl hlt => rw [siftDown, if_pos hl, if_neg hlt]
  | case3 h pos hl => rw [siftDown, if_neg hl]

/-- **The element at the top goes first.** -/
theorem Ordered.top_le (ho : Ordered key h size) {i : ℕ} (hi : 1 ≤ i ∧ i ≤ size) :
    key (h 1) ≤ key (h i) := by
  induction i using Nat.strongRecOn with
  | ind i ih =>
    by_cases h1 : i = 1
    · rw [h1]
    · exact (ih (i / 2) (by omega) (by omega)).trans (ho i (by omega) hi.2)

end Sift

/-! ## The operations -/

/-- Put an element into the cell behind the heap, and sift it up. -/
def insert (h : ℕ → α) (size : ℕ) (x : α) : ℕ → α :=
  siftUp key (Function.update h (size + 1) x) (size + 1)

/-- Move the last element to the top, and sift it down in what is left. -/
def pop (h : ℕ → α) (size : ℕ) : ℕ → α :=
  siftDown key (Function.update h 1 (h size)) (size - 1) 1

section Operations

variable {key} {h : ℕ → α} {size : ℕ}

/-- **Insertion** keeps the order, and adds the element to the contents. -/
theorem insert_spec (ho : Ordered key h size) (x : α) :
    Ordered key (insert key h size x) (size + 1)
      ∧ contents (insert key h size x) (size + 1) = x ::ₘ contents h size := by
  have hready : UpReady key (Function.update h (size + 1) x) (size + 1) (size + 1) := by
    refine ⟨by omega, fun i hi his hip => ?_, fun _ i his hi => by omega⟩
    rw [Function.update_of_ne hip, Function.update_of_ne (by omega)]
    exact ho i hi (by omega)
  obtain ⟨ho', hc⟩ := siftUp_spec hready
  refine ⟨ho', hc.trans ?_⟩
  rw [contents_succ, Function.update_self]
  exact congrArg _ (contents_congr fun i _ his => Function.update_of_ne (by omega) _ _)

/-- **Popping** keeps the order, and takes the element at the top from the
contents. -/
theorem pop_spec (ho : Ordered key h size) (hs : 1 ≤ size) :
    Ordered key (pop key h size) (size - 1)
      ∧ contents h size = h 1 ::ₘ contents (pop key h size) (size - 1) := by
  have hready : DownReady key (Function.update h 1 (h size)) (size - 1) 1 := by
    refine ⟨le_refl 1, fun i hi his hip => ?_, fun h2 => by omega⟩
    rw [Function.update_of_ne hip, Function.update_of_ne (by omega)]
    exact ho i hi (by omega)
  obtain ⟨ho', hc⟩ := siftDown_spec hready
  refine ⟨ho', ?_⟩
  obtain ⟨n, rfl⟩ : ∃ n, size = n + 1 := ⟨size - 1, by omega⟩
  -- the same elements are left if the top is exchanged with the last one instead
  calc contents h (n + 1) = contents (swap h 1 (n + 1)) (n + 1) :=
        (contents_swap ⟨le_refl 1, hs⟩ ⟨hs, le_refl _⟩).symm
    _ = h 1 ::ₘ contents (swap h 1 (n + 1)) n := by rw [contents_succ, swap_right]
    _ = h 1 ::ₘ contents (Function.update h 1 (h (n + 1))) n := by
        refine congrArg _ (contents_congr fun i hi his => ?_)
        by_cases h1 : i = 1
        · rw [h1, swap_left, Function.update_self]
        · rw [swap_of_ne h1 (by omega), Function.update_of_ne h1]
    _ = h 1 ::ₘ contents (pop key h (n + 1)) n := congrArg _ hc.symm

end Operations

end BinaryHeap
