import Mathlib.Data.List.Basic

/-!
# Records in a stream

A stream of records is read back by the byte that ends each of them. What is read
are the records up to the last end, with their ends, and what stands behind it, which
is not a whole record (`readRecords`). Records that have the end in no other place are
read as they were written (`readRecords_flatten_append`). A stream of them that breaks off
somewhere is read up to the last whole record (`readRecords_prefix`).
-/

variable {α : Type*} [DecidableEq α] {d : α}

/-- **The records of a stream**, each with its end, and what stands behind them. -/
def readRecords (d : α) : List α → List (List α) × List α
  | [] => ([], [])
  | c :: s =>
    if c = d then
      ([c] :: (readRecords d s).1, (readRecords d s).2)
    else
      match (readRecords d s).1 with
      | [] => ([], c :: (readRecords d s).2)
      | r :: rs => ((c :: r) :: rs, (readRecords d s).2)

/-- A record: it ends with the end, and has it in no other place. -/
def IsRecord (d : α) (r : List α) : Prop := ∃ s, d ∉ s ∧ r = s ++ [d]

/-- What is read up to the end of the first record. -/
theorem readRecords_append {s : List α} (h : d ∉ s) (t : List α) :
    readRecords d (s ++ d :: t) = ((s ++ [d]) :: (readRecords d t).1, (readRecords d t).2) := by
  induction s with
  | nil => rw [List.nil_append, readRecords, if_pos rfl, List.nil_append]
  | cons c s ih =>
    obtain ⟨hc, hs⟩ := not_or.mp (mt List.mem_cons.mpr h)
    rw [List.cons_append, readRecords, if_neg (Ne.symm hc), ih hs]
    rfl

/-- **Records are read as they were written**, whatever stands behind them. -/
theorem readRecords_flatten_append {rs : List (List α)} (h : ∀ r ∈ rs, IsRecord d r)
    (t : List α) :
    readRecords d (rs.flatten ++ t) = (rs ++ (readRecords d t).1, (readRecords d t).2) := by
  induction rs with
  | nil => rfl
  | cons r rs ih =>
    obtain ⟨⟨s, hs, rfl⟩, hrs⟩ := List.forall_mem_cons.mp h
    rw [List.flatten_cons, List.append_assoc, List.append_assoc, List.singleton_append,
      readRecords_append hs, ih hrs, List.cons_append]

theorem readRecords_flatten {rs : List (List α)} (h : ∀ r ∈ rs, IsRecord d r) :
    readRecords d rs.flatten = (rs, []) := by
  have hread := readRecords_flatten_append h []
  rwa [List.append_nil, readRecords, List.append_nil] at hread

/-- Without an end there is no record. -/
theorem readRecords_of_not_mem {s : List α} (h : d ∉ s) : readRecords d s = ([], s) := by
  induction s with
  | nil => rfl
  | cons c s ih =>
    obtain ⟨hc, hs⟩ := not_or.mp (mt List.mem_cons.mpr h)
    rw [readRecords, if_neg (Ne.symm hc), ih hs]

/-- **A stream that breaks off** is read up to its last whole record. -/
theorem readRecords_prefix {rs : List (List α)} (h : ∀ r ∈ rs, IsRecord d r) {t : List α}
    (ht : t <+: rs.flatten) : (readRecords d t).1 <+: rs := by
  induction rs generalizing t with
  | nil =>
    rw [List.eq_nil_of_prefix_nil ht]
    exact List.prefix_refl _
  | cons r rs ih =>
    obtain ⟨⟨s, hs, rfl⟩, hrs⟩ := List.forall_mem_cons.mp h
    rw [List.flatten_cons, List.append_assoc, List.singleton_append] at ht
    rcases List.prefix_or_prefix_of_prefix ht (List.prefix_append s _) with hbefore | ⟨t', rfl⟩
    · -- it breaks off within the first record
      rw [readRecords_of_not_mem fun hd => hs (hbefore.subset hd)]
      exact List.nil_prefix
    · have hbehind := (List.prefix_append_right_inj s).mp ht
      cases t' with
      | nil =>
        rw [List.append_nil, readRecords_of_not_mem hs]
        exact List.nil_prefix
      | cons c t' =>
        obtain ⟨rfl, hrest⟩ := List.cons_prefix_cons.mp hbehind
        rw [readRecords_append hs]
        exact List.cons_prefix_cons.mpr ⟨rfl, ih hrs hrest⟩
