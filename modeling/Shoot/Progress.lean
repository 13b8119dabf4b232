import Mathlib.Algebra.BigOperators.Group.Finset.Piecewise
import Mathlib.Algebra.Order.Ring.Nat
import Mathlib.Data.Fintype.Basic
import Shoot.Machine

/-!
# Progress

A machine says what can happen, not what has to. That something has to happen
is said here without a notion of fairness, by counting steps. Some of the
events are told apart – the steps of the program, say, from what its
environment does without being asked – and a **measure** of the state bounds
how many of them a run can have: each of them brings it down, some of the others
raise it by no more than a given cost, and the rest do not raise it
(`Machine.Measured.count_le`).

Two conclusions are drawn from it. A run with more of these events than the
measure of the state it starts in and the costs of the others pay for has met the
goal on its way, whatever else happened in it
(`Machine.exists_prefix_of_lt_count`). And where one of them is always possible
as long as the goal is not met, a run of them alone meets it
(`Machine.exists_exec_of_enabled`): the goal is not out of reach in any state, and
it takes no other event to get there.
-/

/-- **One of several threads moves.** The part of a measure that is a sum over the
threads changes by what that thread had and has. -/
theorem sum_update_add {T P : Type*} [Fintype T] [DecidableEq T] (f : P → ℕ) (g : T → P) (i : T)
    (b : P) : ∑ j, f (Function.update g i b j) + f (g i) = ∑ j, f (g j) + f b := by
  have hold := Finset.add_sum_erase Finset.univ (fun j => f (g j)) (Finset.mem_univ i)
  have hnew := Finset.add_sum_erase Finset.univ (fun j => f (Function.update g i b j))
    (Finset.mem_univ i)
  have hrest : ∑ j ∈ Finset.univ.erase i, f (Function.update g i b j)
      = ∑ j ∈ Finset.univ.erase i, f (g j) :=
    Finset.sum_congr rfl fun j hj => by rw [Function.update_of_ne (Finset.ne_of_mem_erase hj)]
  rw [hrest, Function.update_self] at hnew
  omega

namespace Machine

variable {S E : Type*} (M : Machine S E)

/-- What the events of a run cost together. -/
def totalCost (cost : E → ℕ) : List E → ℕ
  | [] => 0
  | e :: tr => cost e + totalCost cost tr

theorem totalCost_append (cost : E → ℕ) (tr₁ tr₂ : List E) :
    totalCost cost (tr₁ ++ tr₂) = totalCost cost tr₁ + totalCost cost tr₂ := by
  induction tr₁ with
  | nil => exact (Nat.zero_add _).symm
  | cons e tr ih =>
    show cost e + totalCost cost (tr ++ tr₂) = cost e + totalCost cost tr + _
    rw [ih, Nat.add_assoc]

/-- Where only the events of one kind have a cost, and all the same. -/
theorem totalCost_ite (q : E → Bool) (c : ℕ) (tr : List E) :
    totalCost (fun e => if q e then c else 0) tr = c * tr.countP q := by
  induction tr with
  | nil => rfl
  | cons e tr ih =>
    show (if q e then c else 0) + totalCost _ tr = _
    rw [ih, List.countP_cons, Nat.mul_add, Nat.add_comm]
    cases q e <;> simp

/-- Costs for different reasons add up. -/
theorem totalCost_add (f g : E → ℕ) (tr : List E) :
    totalCost (fun e => f e + g e) tr = totalCost f tr + totalCost g tr := by
  induction tr with
  | nil => rfl
  | cons e tr ih =>
    show f e + g e + totalCost _ tr = f e + totalCost f tr + (g e + totalCost g tr)
    rw [ih]
    omega

/-- **A measure of a machine**: in the states with `I`, an event with `p`
brings it down, and every other one raises it by its cost at most. -/
structure Measured (I : S → Prop) (p : E → Bool) (cost : E → ℕ) (μ : S → ℕ) : Prop where
  keeps : ∀ s e s', I s → M.step s e = some s' → I s'
  falls : ∀ s e s', I s → M.step s e = some s' → p e = true → μ s' < μ s
  rises : ∀ s e s', I s → M.step s e = some s' → p e = false → μ s' ≤ μ s + cost e

variable {M} {I Q : S → Prop} {p q : E → Bool} {c : ℕ} {cost : E → ℕ} {μ : S → ℕ}

/-- **How many steps a run can have.** Those with `p` are paid for by the
measure of the state it starts in, and by the steps that have a cost. -/
theorem Measured.count_le (h : M.Measured I p cost μ) {s s' : S} {tr : List E}
    (ht : M.exec s tr = some s') (hs : I s) :
    μ s' + tr.countP p ≤ μ s + totalCost cost tr := by
  refine exec_induction (motive := fun tr t =>
    μ t + tr.countP p ≤ μ s + totalCost cost tr) (le_refl _) ?_ ht
  intro tr t e t' hst hse ih
  have hI : I t := exec_invariant h.keeps hst hs
  have hlast : totalCost cost [e] = cost e := rfl
  rw [totalCost_append, hlast, List.countP_append, List.countP_singleton]
  cases he : p e with
  | true =>
    have hlt := h.falls t e t' hI hse he
    rw [if_pos rfl]
    omega
  | false =>
    have hle := h.rises t e t' hI hse he
    rw [if_neg Bool.false_ne_true]
    omega

/-- **A goal that cannot be put off.** As long as it is not met, the events
with `p` bring a measure down, and of the others only those with `q` raise it, by a
cost, in the steps that meet a condition; so a run of such steps with more of the
first events than the measure of its first state and the costs allow has a part,
from its beginning, that ends in the goal. What happens after that does not matter. -/
theorem exists_prefix_of_lt_count {P : S → E → Prop}
    (keeps : ∀ s e s', I s → ¬ Q s → P s e → M.step s e = some s' → I s')
    (falls : ∀ s e s', I s → ¬ Q s → ¬ Q s' → P s e → M.step s e = some s' → p e = true →
      μ s' < μ s)
    (rises : ∀ s e s', I s → ¬ Q s → ¬ Q s' → P s e → M.step s e = some s' → p e = false →
      μ s' ≤ μ s + if q e then c else 0)
    {s s' : S} {tr : List E} (ht : M.exec s tr = some s') (ha : M.Along P s tr) (hs : I s)
    (hlt : μ s + c * tr.countP q < tr.countP p) :
    ∃ tr₁ tr₂ t, tr = tr₁ ++ tr₂ ∧ M.exec s tr₁ = some t ∧ M.exec t tr₂ = some s'
      ∧ I t ∧ Q t := by
  induction tr generalizing s with
  | nil => exact absurd hlt (Nat.not_lt_zero _)
  | cons e tr ih =>
    by_cases hQ : Q s
    · exact ⟨[], e :: tr, s, rfl, rfl, ht, hs, hQ⟩
    · obtain ⟨t, hse, hts⟩ := Option.bind_eq_some_iff.mp ht
      obtain ⟨he, ha⟩ := along_cons.mp ha
      have hI : I t := keeps s e t hs hQ he hse
      by_cases hQt : Q t
      · refine ⟨[e], tr, t, rfl, ?_, hts, hI, hQt⟩
        rw [exec_cons, hse, Option.bind_some, exec_nil]
      have hcount : μ t + c * tr.countP q < tr.countP p := by
        rw [List.countP_cons, List.countP_cons, Nat.mul_add, mul_ite, Nat.mul_one,
          Nat.mul_zero] at hlt
        cases hp : p e with
        | true =>
          have hfall := falls s e t hs hQ hQt he hse hp
          rw [hp, if_pos rfl] at hlt
          omega
        | false =>
          have hrise := rises s e t hs hQ hQt he hse hp
          rw [hp, if_neg Bool.false_ne_true] at hlt
          omega
      obtain ⟨tr₁, tr₂, u, rfl, h₁, h₂, hu⟩ := ih hts (ha t hse) hI hcount
      refine ⟨e :: tr₁, tr₂, u, rfl, ?_, h₂, hu⟩
      rw [exec_cons, hse, Option.bind_some, h₁]

/-- **A goal that stays within reach.** If, as long as it is not met, some
event that meets a condition is possible and brings a measure down, then a run of
such events meets it. -/
theorem exists_exec_of_enabled {P : S → E → Prop}
    (enabled : ∀ s, I s → ¬ Q s →
      ∃ e s', P s e ∧ M.step s e = some s' ∧ I s' ∧ μ s' < μ s)
    {s : S} (hs : I s) :
    ∃ tr s', M.exec s tr = some s' ∧ M.Along P s tr ∧ I s' ∧ Q s' := by
  induction hμ : μ s using Nat.strong_induction_on generalizing s with
  | _ n ih =>
    by_cases hQ : Q s
    · exact ⟨[], s, rfl, along_nil, hs, hQ⟩
    · obtain ⟨e, t, he, hst, hI, hlt⟩ := enabled s hs hQ
      obtain ⟨tr, s', ht, hall, hgoal⟩ := ih (μ t) (hμ ▸ hlt) hI rfl
      refine ⟨e :: tr, s', ?_, along_cons.mpr ⟨he, fun u hu => ?_⟩, hgoal⟩
      · rw [exec_cons, hst, Option.bind_some, ht]
      · cases hst.symm.trans hu
        exact hall

end Machine
