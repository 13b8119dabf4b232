import Mathlib.Data.Stream.Init

/-!
# Loops around a call

A loop that makes one call in each round, and goes by what the call gives: it goes
on with another state, or it returns. What the calls give is not under its control,
so a run takes a list of outcomes, or an infinite stream of them.

Three rules are enough to reason about such a loop. What each round keeps holds
when it returns (`CallLoop.run_invariant`). It returns if its rounds never increase
a measure, and decrease it whenever the outcome is not one of those that stall it,
and if these do not come for ever (`CallLoop.returns_of_measure`). Two loops whose rounds do
the same to related states have the same results (`CallLoop.run_eq_run`).
-/

/-- **A loop** over states in `σ` whose rounds each make a call with an outcome in
`ι`, and which returns a value in `ρ`. -/
structure CallLoop (σ ι ρ : Type*) where
  /-- The test before a round: what is returned where there is none. -/
  test : σ → Option ρ
  /-- A round: it goes on with a state, or returns. -/
  round : σ → ι → σ ⊕ ρ

namespace CallLoop

variable {σ τ ι ρ : Type*}

/-- **A run**: what the loop returns, and the outcomes that are left, or nothing if
it is still going when the outcomes end. -/
def run (L : CallLoop σ ι ρ) : σ → List ι → Option (ρ × List ι)
  | s, [] => (L.test s).map fun r => (r, [])
  | s, o :: os =>
    match L.test s with
    | some r => some (r, o :: os)
    | none =>
      match L.round s o with
      | .inl s' => run L s' os
      | .inr r => some (r, os)

variable {L : CallLoop σ ι ρ} {s s' : σ} {o : ι} {os rest : List ι} {r : ρ}

theorem run_of_test (h : L.test s = some r) : L.run s os = some (r, os) := by
  cases os with
  | nil => rw [run, h, Option.map_some]
  | cons o os => rw [run, h]

theorem run_nil (h : L.test s = none) : L.run s [] = none := by
  rw [run, h, Option.map_none]

theorem run_cons_inl (h : L.test s = none) (hround : L.round s o = .inl s') :
    L.run s (o :: os) = L.run s' os := by
  rw [run, h]
  simp only [hround]

theorem run_cons_inr (h : L.test s = none) (hround : L.round s o = .inr r) :
    L.run s (o :: os) = some (r, os) := by
  rw [run, h]
  simp only [hround]

/-- **What each round keeps** holds when the loop returns. The invariant and the
postcondition may refer to the outcomes so far. -/
theorem run_invariant {I : List ι → σ → Prop} {Q : List ι → ρ → Prop}
    (htest : ∀ past s r, I past s → L.test s = some r → Q past r)
    (hinl : ∀ past s o s', I past s → L.test s = none → L.round s o = .inl s' →
      I (past ++ [o]) s')
    (hinr : ∀ past s o r, I past s → L.test s = none → L.round s o = .inr r →
      Q (past ++ [o]) r)
    {past : List ι} (hI : I past s) (h : L.run s os = some (r, rest)) :
    ∃ used, os = used ++ rest ∧ Q (past ++ used) r := by
  induction os generalizing past s with
  | nil =>
    cases ht : L.test s with
    | none =>
      rw [run_nil ht] at h
      cases h
    | some r' =>
      rw [run_of_test ht] at h
      cases h
      exact ⟨[], rfl, (List.append_nil past).symm ▸ htest past s r hI ht⟩
  | cons o os ih =>
    cases ht : L.test s with
    | some r' =>
      rw [run_of_test ht] at h
      cases h
      exact ⟨[], rfl, (List.append_nil past).symm ▸ htest past s r hI ht⟩
    | none =>
      cases hround : L.round s o with
      | inl s' =>
        rw [run_cons_inl ht hround] at h
        obtain ⟨used, hos, hQ⟩ := ih (hinl past s o s' hI ht hround) h
        refine ⟨o :: used, by rw [hos, List.cons_append], ?_⟩
        rwa [List.append_assoc] at hQ
      | inr r' =>
        rw [run_cons_inr ht hround] at h
        cases h
        exact ⟨[o], rfl, hinr past s o r hI ht hround⟩

/-- The loop returns after finitely many calls of a stream. -/
def Returns (L : CallLoop σ ι ρ) (s : σ) (os : Stream' ι) : Prop :=
  ∃ n r, L.run s (os.take n) = some (r, [])

/-- A loop returns if it returns from where its first round goes on. -/
theorem returns_of_round {os : Stream' ι}
    (h : ∀ s', L.test s = none → L.round s os.head = .inl s' → L.Returns s' os.tail) :
    L.Returns s os := by
  cases ht : L.test s with
  | some r => exact ⟨0, r, run_of_test ht⟩
  | none =>
    cases hround : L.round s os.head with
    | inl s' =>
      obtain ⟨n, r, hr⟩ := h s' ht hround
      exact ⟨n + 1, r, (run_cons_inl ht hround).trans hr⟩
    | inr r => exact ⟨1, r, run_cons_inr ht hround⟩

/-- **The loop returns** if some measure of its state never grows and shrinks in each
round whose outcome does not stall it, and the outcomes do not stall it for ever. -/
theorem returns_of_measure (μ : σ → ℕ) (Stalls : ι → Prop)
    (hle : ∀ s o s', L.test s = none → L.round s o = .inl s' → μ s' ≤ μ s)
    (hlt : ∀ s o s', L.test s = none → ¬Stalls o → L.round s o = .inl s' → μ s' < μ s)
    {os : Stream' ι} (hfair : ∀ n, ∃ m, n ≤ m ∧ ¬Stalls (os.get m)) (s : σ) :
    L.Returns s os := by
  -- by induction on the measure, and within on how far the next progress is
  suffices ∀ k m (os : Stream' ι) s, μ s < k → ¬Stalls (os.get m) →
      (∀ n, ∃ m, n ≤ m ∧ ¬Stalls (os.get m)) → L.Returns s os by
    obtain ⟨m, -, hm⟩ := hfair 0
    exact this (μ s + 1) m os s (Nat.lt_succ_self _) hm hfair
  have hfairTail : ∀ os : Stream' ι, (∀ n, ∃ m, n ≤ m ∧ ¬Stalls (os.get m)) →
      ∀ n, ∃ m, n ≤ m ∧ ¬Stalls (os.tail.get m) := by
    intro os hfair n
    obtain ⟨m, hnm, hm⟩ := hfair (n + 1)
    obtain ⟨m, rfl⟩ : ∃ m', m = m' + 1 := ⟨m - 1, by omega⟩
    exact ⟨m, by omega, hm⟩
  intro k
  induction k with
  | zero => exact fun _ _ s hk => absurd hk (Nat.not_lt_zero _)
  | succ k ihk =>
    intro m
    induction m with
    | zero =>
      intro os s hk hm hfair
      refine returns_of_round fun s' ht hround => ?_
      have hs' : μ s' < μ s := hlt s os.head s' ht hm hround
      obtain ⟨m', -, hm'⟩ := hfairTail os hfair 0
      exact ihk m' os.tail s' (by omega) hm' (hfairTail os hfair)
    | succ m ihm =>
      intro os s hk hm hfair
      refine returns_of_round fun s' ht hround => ?_
      have hs' : μ s' ≤ μ s := hle s os.head s' ht hround
      exact ihm os.tail s' (by omega) hm (hfairTail os hfair)

/-- **The loop never returns** while every outcome makes its rounds go on. -/
theorem run_eq_none {I : σ → Prop} {K : ι → Prop} (htest : ∀ s, I s → L.test s = none)
    (hround : ∀ s o, I s → K o → ∃ s', L.round s o = .inl s' ∧ I s')
    (hos : ∀ o ∈ os, K o) (hI : I s) : L.run s os = none := by
  induction os generalizing s with
  | nil => exact run_nil (htest s hI)
  | cons o os ih =>
    obtain ⟨s', hs', hI'⟩ := hround s o hI (hos o List.mem_cons_self)
    rw [run_cons_inl (htest s hI) hs']
    exact ih (fun o ho => hos o (List.mem_cons_of_mem _ ho)) hI'

/-- It never returns on a stream of such outcomes. -/
theorem not_returns {I : σ → Prop} {K : ι → Prop} (htest : ∀ s, I s → L.test s = none)
    (hround : ∀ s o, I s → K o → ∃ s', L.round s o = .inl s' ∧ I s')
    {os : Stream' ι} (hos : ∀ k, K (os.get k)) (hI : I s) : ¬L.Returns s os := by
  rintro ⟨n, r, hr⟩
  rw [run_eq_none htest hround (fun o ho => ?_) hI] at hr
  · cases hr
  · obtain ⟨k, hk, rfl⟩ := List.getElem_of_mem ho
    rw [Stream'.take_get]
    exact hos k

/-- **Two loops that do the same** from related states have the same runs. -/
theorem run_eq_run {L' : CallLoop τ ι ρ} {R : σ → τ → Prop}
    (htest : ∀ s t, R s t → L.test s = L'.test t)
    (hround : ∀ s t o, R s t → L.test s = none →
      (∃ s' t', L.round s o = .inl s' ∧ L'.round t o = .inl t' ∧ R s' t')
        ∨ ∃ r, L.round s o = .inr r ∧ L'.round t o = .inr r)
    {t : τ} (h : R s t) : L.run s os = L'.run t os := by
  induction os generalizing s t with
  | nil => rw [run, run, htest s t h]
  | cons o os ih =>
    cases ht : L.test s with
    | some r => rw [run_of_test ht, run_of_test ((htest s t h).symm.trans ht)]
    | none =>
      have ht' : L'.test t = none := (htest s t h).symm.trans ht
      rcases hround s t o h ht with ⟨s', t', hs, ht'', hR⟩ | ⟨r, hs, ht''⟩
      · rw [run_cons_inl ht hs, run_cons_inl ht' ht'', ih hR]
      · rw [run_cons_inr ht hs, run_cons_inr ht' ht'']

end CallLoop
