import Mathlib.Data.List.Count
import Mathlib.Data.List.Nodup
import Mathlib.Data.Nat.Basic

/-!
# Pointers held once

A program that moves objects between several holders – variables, vectors,
maps – owns each of them once when the list of all the addresses its holders
contain has no duplicate. Addresses are natural numbers handed out in
increasing order by the allocator, so an address is new when it is not below
the allocator's counter.

`Held l n` says that the addresses of `l` are held once each and were all
allocated before the counter reached `n`. Moving pointers between holders
permutes `l`, dropping some takes a part of it, and allocating adds the
counter: the first two are `Held.of_count_le`, which compares how often each
address occurs, and the third is `Held.cons`.
-/

/-- **The addresses of `l` are distinct, and below the allocator's counter.** -/
structure Held (l : List ℕ) (n : ℕ) : Prop where
  /-- No address is held twice. -/
  nodup : l.Nodup
  /-- Every address was allocated. -/
  lt : ∀ x ∈ l, x < n

namespace Held

variable {l l' : List ℕ} {n : ℕ}

/-- Holders among which no address occurs more often than before hold each
once. -/
theorem of_count_le (h : Held l n) (hc : ∀ x, l'.count x ≤ l.count x) : Held l' n := by
  refine ⟨List.nodup_iff_count_le_one.mpr fun x => ?_, fun x hx => h.lt x ?_⟩
  · exact Nat.le_trans (hc x) (List.nodup_iff_count_le_one.mp h.nodup x)
  · exact List.count_pos_iff.mp (lt_of_lt_of_le (List.count_pos_iff.mpr hx) (hc x))

/-- The allocator's counter is held by nobody. -/
theorem notMem (h : Held l n) : n ∉ l := fun hn => lt_irrefl n (h.lt n hn)

/-- An object just allocated is held once, by the holder that asked for it. -/
theorem cons (h : Held l n) : Held (n :: l) (n + 1) := by
  refine ⟨List.nodup_cons.mpr ⟨h.notMem, h.nodup⟩, fun x hx => ?_⟩
  rcases List.mem_cons.mp hx with rfl | hx
  · exact Nat.lt_succ_self x
  · exact Nat.lt_succ_of_lt (h.lt x hx)

/-- Two holders hold different addresses. -/
theorem ne_of_mem {l₁ l₂ : List ℕ} (h : Held (l₁ ++ l₂) n) {x y : ℕ}
    (hx : x ∈ l₁) (hy : y ∈ l₂) : x ≠ y :=
  fun hxy => List.disjoint_of_nodup_append h.nodup hx (hxy ▸ hy)

end Held
