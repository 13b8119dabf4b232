import Mathlib.Data.List.Nodup
import Mathlib.Logic.Function.Basic

/-!
# Singly linked lists in memory

A linked list is nodes at addresses, each with the address of the next one.
`Chain nodes p l stop` says that following the addresses from `p` one passes the
nodes of `l`, in order, and comes to `stop`. Where a list ends is up to its user:
`stop` may be a null pointer, or whatever the last node was given.

What happens at the front of a chain is all that is needed for a stack: a node
is put in front of it (`Chain.cons`), and the first one is taken off
(`chain_cons`). Nodes that are not in the chain may be allocated, changed and
freed (`Chain.update`).
-/

/-- A node of a linked list. -/
structure LinkedNode (α : Type*) where
  value : α
  /-- The address of the next node. -/
  next : ℕ
deriving DecidableEq, Repr

section Chain

variable {α : Type*}

/-- **The nodes passed on the way** from one address to another, with their own
addresses. -/
def Chain (nodes : ℕ → Option (LinkedNode α)) : ℕ → List (ℕ × α) → ℕ → Prop
  | p, [], stop => p = stop
  | p, (a, x) :: l, stop => p = a ∧ ∃ n, nodes a = some ⟨x, n⟩ ∧ Chain nodes n l stop

variable {nodes : ℕ → Option (LinkedNode α)} {p a stop : ℕ} {x : α} {l : List (ℕ × α)}

theorem chain_nil : Chain nodes p [] stop ↔ p = stop := Iff.rfl

/-- The first node of a chain, and the chain behind it. -/
theorem chain_cons : Chain nodes p ((a, x) :: l) stop
    ↔ p = a ∧ ∃ n, nodes a = some ⟨x, n⟩ ∧ Chain nodes n l stop :=
  Iff.rfl

/-- The nodes of a chain are allocated. -/
theorem Chain.isSome (h : Chain nodes p l stop) (ha : a ∈ l.map Prod.fst) :
    (nodes a).isSome = true := by
  induction l generalizing p with
  | nil => cases ha
  | cons b l ih =>
    obtain ⟨-, n, hb, hl⟩ := h
    rcases List.mem_cons.mp ha with rfl | ha
    · rw [hb]
      rfl
    · exact ih hl ha

/-- An address that is not allocated is not in the chain. -/
theorem Chain.notMem (h : Chain nodes p l stop) (ha : nodes a = none) : a ∉ l.map Prod.fst := by
  intro hmem
  have := h.isSome hmem
  rw [ha] at this
  cases this

/-- **What is done to other nodes** leaves the chain as it is. -/
theorem Chain.update (h : Chain nodes p l stop) (ha : a ∉ l.map Prod.fst)
    (n : Option (LinkedNode α)) : Chain (Function.update nodes a n) p l stop := by
  induction l generalizing p with
  | nil => exact h
  | cons b l ih =>
    obtain ⟨hp, m, hb, hl⟩ := h
    rw [List.map_cons, List.mem_cons, not_or] at ha
    refine ⟨hp, m, ?_, ih hl ha.2⟩
    rw [Function.update_of_ne (Ne.symm ha.1), hb]

/-- **A new node in front of a chain.** -/
theorem Chain.cons (h : Chain nodes p l stop) (ha : nodes a = none) (x : α) :
    Chain (Function.update nodes a (some ⟨x, p⟩)) a ((a, x) :: l) stop :=
  ⟨rfl, p, Function.update_self .., h.update (h.notMem ha) _⟩

end Chain
