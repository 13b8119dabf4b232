import Shoot.Machine

/-!
# Simulations

A machine may be looked at through another one, which knows less of it: each event of
the first is matched by some events of the second, or by none, and the two states stay
in a relation. Then a whole run of the first is matched by a run of the second
(`Machine.Simulation.exec_matching`), whose events are known (`Machine.matching`), so
that a theorem about the runs of the second speaks about the first.
-/

namespace Machine

variable {S E S' E' : Type*}

/-- The events that match those of a run, if `f` gives those that match one of them. -/
def matching (M : Machine S E) (f : S → E → List E') (tr : List E) : List E' :=
  M.history (fun s e past => past ++ f s e) M.init [] tr

/-- **A simulation.** The second machine gets to where the first one starts by the
events `start`, and from there on each event is matched by those that `f` gives. -/
structure Simulation (M : Machine S E) (N : Machine S' E') (start : List E')
    (f : S → E → List E') (R : S → S' → Prop) : Prop where
  init : ∃ t, N.exec N.init start = some t ∧ R M.init t
  step : ∀ s e s' t, M.Reachable s → M.step s e = some s' → R s t →
    ∃ t', N.exec t (f s e) = some t' ∧ R s' t'

variable {M : Machine S E} {N : Machine S' E'} {start : List E'} {f : S → E → List E'}
  {R : S → S' → Prop}

/-- The last event of a run is matched last. -/
theorem matching_concat {s s' : S} {tr : List E} {e : E} (h : M.exec M.init tr = some s)
    (hs : M.step s e = some s') : M.matching f (tr ++ [e]) = M.matching f tr ++ f s e :=
  history_concat _ h hs _

/-- **A run is matched by a run.** -/
theorem Simulation.exec_matching (h : Simulation M N start f R) {tr : List E} {s : S}
    (hs : M.exec M.init tr = some s) :
    ∃ t, N.exec N.init (start ++ M.matching f tr) = some t ∧ R s t := by
  refine exec_induction (motive := fun tr s =>
    ∃ t, N.exec N.init (start ++ M.matching f tr) = some t ∧ R s t) ?_ ?_ hs
  · obtain ⟨t, ht, hr⟩ := h.init
    refine ⟨t, ?_, hr⟩
    show N.exec N.init (start ++ []) = some t
    rw [List.append_nil, ht]
  · rintro tr s e s' htr hse ⟨t, ht, hr⟩
    obtain ⟨t', ht', hr'⟩ := h.step s e s' t ⟨tr, htr⟩ hse hr
    refine ⟨t', ?_, hr'⟩
    rw [matching_concat htr hse, ← List.append_assoc, exec_append, ht]
    exact ht'

end Machine
