import Mathlib.Data.Int.CardIntervalMod
import Mathlib.Data.List.Basic

/-!
# Taking turns

Things are dealt to `n` takers in turn: the `k`-th goes to the taker `k % n`. However many
are dealt, two takers get the same number of them up to one (`count_turns`).
-/

/-- The takers of the first `m` things. -/
def turns (n m : ℕ) : List ℕ := (List.range m).map (· % n)

theorem turns_succ (n m : ℕ) : turns n (m + 1) = turns n m ++ [m % n] := by
  unfold turns
  rw [List.range_succ, List.map_append, List.map_singleton]

/-- A taker's share, as a count of the numbers in its class. -/
theorem count_turns_eq_count {n j : ℕ} (hj : j < n) (m : ℕ) :
    (turns n m).count j = m.count (· ≡ j [MOD n]) := by
  induction m with
  | zero => rfl
  | succ m ih =>
    have hmod : m ≡ j [MOD n] ↔ m % n = j := by
      unfold Nat.ModEq
      rw [Nat.mod_eq_of_lt hj]
    rw [turns_succ, List.count_append, ih, Nat.count_succ, List.count_singleton]
    simp only [hmod, beq_iff_eq]

/-- **The shares are equal up to one.** -/
theorem count_turns {n j : ℕ} (hj : j < n) (m : ℕ) :
    (turns n m).count j = m / n + if j < m % n then 1 else 0 := by
  rw [count_turns_eq_count hj, Nat.count_modEq_card m (Nat.zero_lt_of_lt hj), Nat.mod_eq_of_lt hj]
