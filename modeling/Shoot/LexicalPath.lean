import Shoot.Text

/-!
# Paths as they are written

A path is resolved component by component, without a look at the files: an empty
component and `.` stay where they are, `..` goes back to the directory before, and
any other component is a name below. A path that is not absolute stays inside the
directory it starts from if it never goes back from there, that is, if no part of
it from the start has more `..` than names (`inside_iff_backs`).
-/

namespace LexicalPath

/-- The components of a path. -/
def components (path : List UInt8) : List (List UInt8) := path.splitOn 47

/-- A component that stays where it is. -/
def Stays (c : List UInt8) : Prop := c = [] ∨ c = chars "."

instance (c : List UInt8) : Decidable (Stays c) := inferInstanceAs (Decidable (_ ∨ _))

/-- **One component.** The names below the directory a path starts from, the last one
first; there is no result where it is left. -/
def enter (names : List (List UInt8)) (c : List UInt8) : Option (List (List UInt8)) :=
  if Stays c then some names else if c = chars ".." then names.tail? else some (c :: names)

/-- **Where a path leads**, from the directory it starts from. -/
def resolve (path : List UInt8) : Option (List (List UInt8)) :=
  (components path).foldlM enter []

/-- **The path is relative and stays inside** the directory it starts from. -/
def Inside (path : List UInt8) : Prop := path.head? ≠ some 47 ∧ (resolve path).isSome

instance (path : List UInt8) : Decidable (Inside path) := inferInstanceAs (Decidable (_ ∧ _))

/-- How often a path goes back. -/
def backs (cs : List (List UInt8)) : ℕ := cs.countP fun c => c = chars ".."

/-- How many names it has. -/
def downs (cs : List (List UInt8)) : ℕ := cs.countP fun c => ¬Stays c ∧ c ≠ chars ".."

theorem backs_cons (c : List UInt8) (cs : List (List UInt8)) :
    backs (c :: cs) = backs cs + if c = chars ".." then 1 else 0 := by
  rw [backs, List.countP_cons]
  simp only [decide_eq_true_eq, backs]

theorem downs_cons (c : List UInt8) (cs : List (List UInt8)) :
    downs (c :: cs) = downs cs + if ¬Stays c ∧ c ≠ chars ".." then 1 else 0 := by
  rw [downs, List.countP_cons]
  simp only [decide_eq_true_eq, downs]

/-- The first part is empty; every other one has the first component. -/
theorem forall_prefix_cons {α : Type*} {P : List α → Prop} {c : α} {cs : List α} (hnil : P []) :
    (∀ pre, pre <+: c :: cs → P pre) ↔ ∀ pre, pre <+: cs → P (c :: pre) := by
  constructor
  · intro h pre hpre
    exact h (c :: pre) (List.cons_prefix_cons.mpr ⟨rfl, hpre⟩)
  · intro h pre hpre
    cases pre with
    | nil => exact hnil
    | cons d pre =>
      obtain ⟨hd, hpre⟩ := List.cons_prefix_cons.mp hpre
      rw [hd]
      exact h pre hpre

/-- **No part of the path from the start has more `..` than names** and the names it
started with. -/
theorem foldlM_enter_isSome {cs names : List (List UInt8)} :
    (cs.foldlM enter names).isSome
      ↔ ∀ pre, pre <+: cs → backs pre ≤ names.length + downs pre := by
  induction cs generalizing names with
  | nil =>
    refine ⟨fun _ pre hpre => ?_, fun _ => rfl⟩
    rw [List.prefix_nil.mp hpre]
    exact Nat.zero_le _
  | cons c cs ih =>
    rw [List.foldlM_cons, forall_prefix_cons (Nat.zero_le _)]
    simp only [enter, backs_cons, downs_cons]
    by_cases hs : Stays c
    · have hb : c ≠ chars ".." := by
        rintro rfl
        exact absurd hs (by decide)
      rw [if_pos hs, if_neg hb, if_neg fun h => h.1 hs]
      exact ih
    · by_cases hb : c = chars ".."
      · rw [if_neg hs, if_pos hb, if_pos hb, if_neg fun h => h.2 hb]
        cases names with
        | nil =>
          -- the directory is left
          refine ⟨fun h => absurd h Bool.false_ne_true, fun h => ?_⟩
          exact absurd (h [] List.nil_prefix) (by decide)
        | cons n names =>
          refine ih.trans (forall₂_congr fun pre _ => ?_)
          rw [List.length_cons]
          omega
      · rw [if_neg hs, if_neg hb, if_neg hb, if_pos ⟨hs, hb⟩]
        refine ih.trans (forall₂_congr fun pre _ => ?_)
        rw [List.length_cons]
        omega

/-- **Where a path stays inside**: it does not begin with a slash, and no part of it
from the start has more `..` than names. -/
theorem inside_iff_backs {path : List UInt8} :
    Inside path
      ↔ path.head? ≠ some 47 ∧ ∀ pre, pre <+: components path → backs pre ≤ downs pre := by
  unfold Inside resolve
  rw [foldlM_enter_isSome]
  simp only [List.length_nil, Nat.zero_add]

end LexicalPath
