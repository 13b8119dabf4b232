import Mathlib.Data.List.Induction
import Mathlib.Data.Option.Basic

/-!
# Machines and their runs

A concurrent program is modelled here by a **machine**: an initial state and
a partial step function. An event says which thread moves and how the
environment answers – which message is appended, what a system call returned,
which readiness events the kernel reports – and `step s e` is `none` when the
event cannot happen in the state `s`. All the nondeterminism of scheduling
and of the environment is in the choice of the events, so an interleaving is
a list of events, and running it (`Machine.exec`) is a computation.

Two things are proved once, for every machine. The first is induction over a
run from its last step (`Machine.exec_induction`), from which an invariant
preserved by each step holds in every reachable state
(`Machine.Reachable.invariant`), and an invariant preserved only by the steps
meeting a condition holds along the runs all of whose steps meet it
(`Machine.Along.invariant`); where every other step breaks a property, the
condition is exact (`Machine.forall_prefix_iff_along`).

The second is bookkeeping about the past of a run. `Machine.history` folds a
function over the steps of a run, so that a theorem can speak about what
happened – which messages were appended, which were discarded – without the
state of the program having to remember it; `Machine.history_invariant` relates
the two.
-/

/-- **A machine**: where it starts, and what each event does to a state that
allows it. -/
structure Machine (S E : Type*) where
  /-- The state before any event. -/
  init : S
  /-- The state after an event, `none` where the event is not possible. -/
  step : S → E → Option S

namespace Machine

variable {S E G : Type*} (M : Machine S E)

/-- Run a list of events from a state. -/
def exec (s : S) : List E → Option S
  | [] => some s
  | e :: tr => (M.step s e).bind fun s' => exec s' tr

@[simp] theorem exec_nil (s : S) : M.exec s [] = some s := rfl

@[simp] theorem exec_cons (s : S) (e : E) (tr : List E) :
    M.exec s (e :: tr) = (M.step s e).bind fun s' => M.exec s' tr := rfl

/-- Running two lists of events one after the other. -/
theorem exec_append (s : S) (tr₁ tr₂ : List E) :
    M.exec s (tr₁ ++ tr₂) = (M.exec s tr₁).bind fun t => M.exec t tr₂ := by
  induction tr₁ generalizing s with
  | nil => rfl
  | cons e tr ih =>
    rw [List.cons_append, exec_cons, exec_cons, Option.bind_assoc]
    exact congrArg _ (funext fun s' => ih s')

variable {M}

/-- The last step of a run: a run that ends with `e` is a run followed by one
step. -/
theorem exec_concat {s s' : S} {tr : List E} {e : E} :
    M.exec s (tr ++ [e]) = some s'
      ↔ ∃ t, M.exec s tr = some t ∧ M.step t e = some s' := by
  rw [exec_append, Option.bind_eq_some_iff]
  refine exists_congr fun t => and_congr_right fun _ => ?_
  rw [exec_cons, Option.bind_eq_some_iff]
  constructor
  · rintro ⟨t', ht, hs⟩
    rw [exec_nil, Option.some.injEq] at hs
    rw [ht, hs]
  · exact fun h => ⟨s', h, rfl⟩

/-- **Induction over a run, from its last step.** -/
theorem exec_induction {s : S} {motive : List E → S → Prop}
    (nil : motive [] s)
    (concat : ∀ tr t e t', M.exec s tr = some t → M.step t e = some t' →
      motive tr t → motive (tr ++ [e]) t')
    {tr : List E} {s' : S} (h : M.exec s tr = some s') : motive tr s' := by
  induction tr using List.reverseRecOn generalizing s' with
  | nil =>
    rw [exec_nil, Option.some.injEq] at h
    exact h ▸ nil
  | append_singleton tr e ih =>
    obtain ⟨t, ht, hs⟩ := exec_concat.mp h
    exact concat tr t e s' ht hs (ih ht)

variable (M) in
/-- A state some run from the initial state ends in. -/
def Reachable (s : S) : Prop := ∃ tr, M.exec M.init tr = some s

/-- A step from a reachable state reaches a reachable state. -/
theorem Reachable.step {s s' : S} {e : E} (h : M.Reachable s)
    (hs : M.step s e = some s') : M.Reachable s' := by
  obtain ⟨tr, ht⟩ := h
  exact ⟨tr ++ [e], exec_concat.mpr ⟨s, ht, hs⟩⟩

/-- What holds of the state a run starts in, and is preserved by each step,
holds of the state it ends in. -/
theorem exec_invariant {I : S → Prop}
    (step : ∀ s e s', I s → M.step s e = some s' → I s')
    {s s' : S} {tr : List E} (h : M.exec s tr = some s') (hs : I s) : I s' :=
  exec_induction (motive := fun _ t => I t) hs
    (fun _ t e t' _ hst ih => step t e t' ih hst) h

/-- **An invariant of the initial state and of every step holds in every
reachable state.** -/
theorem Reachable.invariant {I : S → Prop} (init : I M.init)
    (step : ∀ s e s', I s → M.step s e = some s' → I s')
    {s : S} (h : M.Reachable s) : I s := by
  obtain ⟨tr, ht⟩ := h
  exact exec_invariant step ht init

/-! ## Conditions on the steps of a run -/

variable (M) in
/-- **Every step of the run meets the condition**, a condition on the state
before the step and on its event. -/
def Along (P : S → E → Prop) : S → List E → Prop
  | _, [] => True
  | s, e :: tr =>
    P s e ∧
      match M.step s e with
      | some s' => Along P s' tr
      | none => True

instance decidableAlong (P : S → E → Prop) [∀ s e, Decidable (P s e)] :
    ∀ (s : S) (tr : List E), Decidable (M.Along P s tr)
  | _, [] => isTrue trivial
  | s, e :: tr =>
    have : Decidable (match M.step s e with
        | some s' => M.Along P s' tr
        | none => True) :=
      match M.step s e with
      | some s' => decidableAlong P s' tr
      | none => isTrue trivial
    inferInstanceAs (Decidable (_ ∧ _))

@[simp] theorem along_nil {P : S → E → Prop} {s : S} : M.Along P s [] := trivial

/-- A condition along a run, read at the run's first step. -/
theorem along_cons {P : S → E → Prop} {s : S} {e : E} {tr : List E} :
    M.Along P s (e :: tr) ↔ P s e ∧ ∀ s', M.step s e = some s' → M.Along P s' tr := by
  rw [Along]
  cases M.step s e with
  | none => simp
  | some s' => simp

/-- A condition along a run, read at the run's last step. -/
theorem along_concat {P : S → E → Prop} {s : S} {tr : List E} {e : E} :
    M.Along P s (tr ++ [e])
      ↔ M.Along P s tr ∧ ∀ t, M.exec s tr = some t → P t e := by
  induction tr generalizing s with
  | nil => simp [along_cons]
  | cons a tr ih =>
    simp only [List.cons_append, along_cons, exec_cons, Option.bind_eq_some_iff, ih]
    constructor
    · rintro ⟨ha, h⟩
      exact ⟨⟨ha, fun s' hs => (h s' hs).1⟩,
        fun t ⟨s', hs, ht⟩ => (h s' hs).2 t ht⟩
    · rintro ⟨⟨ha, h⟩, ht⟩
      exact ⟨ha, fun s' hs => ⟨h s' hs, fun t hst => ht t ⟨s', hs, hst⟩⟩⟩

/-- A condition along a run is a condition along the two halves of it. -/
theorem along_append {P : S → E → Prop} {s t : S} {tr₁ tr₂ : List E}
    (ht : M.exec s tr₁ = some t) :
    M.Along P s (tr₁ ++ tr₂) ↔ M.Along P s tr₁ ∧ M.Along P t tr₂ := by
  induction tr₁ generalizing s with
  | nil =>
    rw [exec_nil, Option.some.injEq] at ht
    simp [ht]
  | cons a tr ih =>
    obtain ⟨s', hs, hst⟩ := Option.bind_eq_some_iff.mp ht
    simp only [List.cons_append, along_cons, hs, Option.some.injEq, forall_eq', ih hst,
      and_assoc]

/-- A condition that every step meets holds along every run. -/
theorem along_of_forall {P : S → E → Prop} (h : ∀ s e, P s e) {s : S} {tr : List E} :
    M.Along P s tr := by
  induction tr generalizing s with
  | nil => exact along_nil
  | cons e tr ih => exact along_cons.mpr ⟨h s e, fun s' _ => ih⟩

/-- A condition on the events alone is met along a run by all of its events. -/
theorem forall_of_along {P : E → Prop} {s s' : S} {tr : List E} (ht : M.exec s tr = some s')
    (h : M.Along (fun _ e => P e) s tr) : ∀ e ∈ tr, P e := by
  induction tr generalizing s with
  | nil => exact fun e he => absurd he List.not_mem_nil
  | cons a tr ih =>
    obtain ⟨t, hs, hts⟩ := Option.bind_eq_some_iff.mp ht
    obtain ⟨ha, hrest⟩ := along_cons.mp h
    intro e he
    rcases List.mem_cons.mp he with rfl | he
    · exact ha
    · exact ih hts (hrest t hs) e he

/-- Conditions that agree on the steps of a run hold along it together. -/
theorem along_congr {P Q : S → E → Prop} {s s' : S} {tr : List E}
    (agree : ∀ tr t e t', M.exec s tr = some t → M.step t e = some t' → (P t e ↔ Q t e))
    (h : M.exec s tr = some s') : M.Along P s tr ↔ M.Along Q s tr := by
  refine exec_induction (motive := fun tr _ => M.Along P s tr ↔ M.Along Q s tr) ?_ ?_ h
  · rw [iff_true_intro along_nil, iff_true_intro along_nil]
  · intro tr t e t' ht hs ih
    rw [along_concat, along_concat, ih]
    refine and_congr_right fun _ => forall_congr' fun u => forall_congr' fun hu => ?_
    cases ht.symm.trans hu
    exact agree tr t e t' ht hs

/-- **An invariant of the steps that meet a condition holds along the runs
all of whose steps meet it.** -/
theorem Along.invariant {P : S → E → Prop} {I : S → Prop}
    (step : ∀ s e s', I s → P s e → M.step s e = some s' → I s')
    {s s' : S} {tr : List E} (ht : M.exec s tr = some s')
    (h : M.Along P s tr) (hs : I s) : I s' := by
  refine exec_induction (motive := fun tr t => M.Along P s tr → I t)
    (fun _ => hs) (fun tr t e t' hst hse ih ha => ?_) ht h
  obtain ⟨ha', he⟩ := along_concat.mp ha
  exact step t e t' (ih ha') (he t hst) hse

/-- **A condition on the steps that is exact.** If the runs along which the
condition holds end in states with a property, and no step that misses the
condition keeps it, then the property holds in every state of a run if and only
if the condition holds along it. -/
theorem forall_prefix_iff_along {P : S → E → Prop} {I : S → Prop} {s s' : S} {tr : List E}
    (keeps : ∀ tr t, M.exec s tr = some t → M.Along P s tr → I t)
    (breaks : ∀ tr t e t', M.exec s tr = some t → M.step t e = some t' → I t → I t' → P t e)
    (h : M.exec s tr = some s') :
    (∀ tr' t, tr' <+: tr → M.exec s tr' = some t → I t) ↔ M.Along P s tr := by
  constructor
  · refine exec_induction (motive := fun tr _ =>
      (∀ tr' t, tr' <+: tr → M.exec s tr' = some t → I t) → M.Along P s tr)
      (fun _ => along_nil) (fun tr t e t' ht hs ih hall => ?_) h
    refine along_concat.mpr ⟨ih fun tr' u hp => ?_, fun u hu => ?_⟩
    · exact hall tr' u (hp.trans (List.prefix_append tr [e]))
    · cases ht.symm.trans hu
      exact breaks tr t e t' ht hs (hall _ t (List.prefix_append tr [e]) ht)
        (hall _ t' (List.prefix_refl _) (exec_concat.mpr ⟨t, ht, hs⟩))
  · rintro hk tr' t ⟨tr'', rfl⟩ ht
    exact keeps tr' t ht ((along_append ht).mp hk).1

/-! ## The past of a run -/

variable (M) in
/-- **A history of a run**: a value updated at each step, which may look at
the state before the step and at the event, and which the step does not
read. -/
def history (upd : S → E → G → G) : S → G → List E → G
  | _, g, [] => g
  | s, g, e :: tr =>
    match M.step s e with
    | some s' => history upd s' (upd s e g) tr
    | none => g

/-- The history of a run is updated by its last step. -/
theorem history_concat (upd : S → E → G → G) {s t t' : S} {tr : List E} {e : E}
    (ht : M.exec s tr = some t) (hs : M.step t e = some t') (g : G) :
    M.history upd s g (tr ++ [e]) = upd t e (M.history upd s g tr) := by
  induction tr generalizing s g with
  | nil =>
    rw [exec_nil, Option.some.injEq] at ht
    subst ht
    simp only [List.nil_append, history, hs]
  | cons a tr ih =>
    obtain ⟨s', hsa, hst⟩ := Option.bind_eq_some_iff.mp ht
    simp only [List.cons_append, history, hsa]
    exact ih hst _

/-- **An invariant of the state and a history of the run.** -/
theorem history_invariant {upd : S → E → G → G} {I : S → G → Prop} {s : S} {g : G}
    (start : I s g)
    (step : ∀ tr t e t' g', M.exec s tr = some t → M.step t e = some t' → I t g' →
      I t' (upd t e g'))
    {tr : List E} {s' : S} (h : M.exec s tr = some s') : I s' (M.history upd s g tr) := by
  refine exec_induction (motive := fun tr t => I t (M.history upd s g tr)) start ?_ h
  intro tr t e t' ht hs ih
  rw [history_concat upd ht hs]
  exact step tr t e t' _ ht hs ih

end Machine

/-! ## Logs, the histories that grow at their end -/

namespace Log

variable {α : Type*} {R : α → α → Prop} {l l₁ l₂ : List α} {a x : α}

/-- The entries of a log that was extended. -/
theorem mem_concat : a ∈ l ++ [x] ↔ a ∈ l ∨ a = x := by
  rw [List.mem_append, List.mem_singleton]

/-- The last entry of a log. -/
theorem mem_concat_self : x ∈ l ++ [x] := mem_concat.mpr (Or.inr rfl)

/-- A relation between earlier and later entries of a log that was extended. -/
theorem pairwise_concat :
    (l ++ [x]).Pairwise R ↔ l.Pairwise R ∧ ∀ a ∈ l, R a x := by
  rw [List.pairwise_append]
  simp

/-- An entry of a log that was extended, with those before and after it: it is
the new one, or it was there, and the new one comes last. -/
theorem concat_eq_append_cons (h : l ++ [x] = l₁ ++ a :: l₂) :
    (l₂ = [] ∧ a = x ∧ l₁ = l) ∨ ∃ l₂', l₂ = l₂' ++ [x] ∧ l = l₁ ++ a :: l₂' := by
  rcases List.eq_nil_or_concat l₂ with rfl | ⟨l₂', y, rfl⟩
  · obtain ⟨hl, ha⟩ := List.append_inj' h rfl
    exact Or.inl ⟨rfl, (List.singleton_inj.mp ha).symm, hl.symm⟩
  · rw [List.concat_eq_append, ← List.cons_append, ← List.append_assoc] at h
    obtain ⟨hl, hx⟩ := List.append_inj' h rfl
    rw [List.singleton_inj.mp hx]
    exact Or.inr ⟨l₂', List.concat_eq_append, hl⟩

end Log
