import Mathlib.Data.Nat.Digits.Lemmas

/-!
# Texts

The program handles text as bytes. This module has the bytes of a literal
(`chars`) and the decimal notation of an integer (`decimal`), with what the
users of the notation need of it: how long it can get for the integer types,
which byte it ends with, and which bytes it has not.

The notation is the canonical one (`canonical_decimal`): a sign for the negative
numbers only, no leading zeros, and reading it back from left to right gives the
number.
-/

/-- The bytes of a literal. -/
def chars (s : String) : List UInt8 := s.toList.map fun c => UInt8.ofNat c.toNat

/-- The character of a digit. -/
def digitChar (d : ℕ) : UInt8 := UInt8.ofNat (48 + d)

/-- The character of the minus sign. -/
def minusChar : UInt8 := 45

/-- **The decimal notation of an integer**: a sign if it is negative, then the
digits of its absolute value without leading zeros, and `0` for zero. -/
def decimal (v : ℤ) : List UInt8 :=
  if v = 0 then
    [digitChar 0]
  else
    (if v < 0 then [minusChar] else []) ++ (Nat.digits 10 v.natAbs).reverse.map digitChar

/-- The values of the integer types, of 64 bits at most. -/
def Fits64 (v : ℤ) : Prop := -2 ^ 63 ≤ v ∧ v < 2 ^ 64

/-- **Twenty characters are enough**: twenty digits for the unsigned values,
nineteen and a sign for the negative ones. -/
theorem length_decimal_le {v : ℤ} (h : Fits64 v) : (decimal v).length ≤ 20 := by
  obtain ⟨hlo, hhi⟩ := h
  unfold decimal
  by_cases hv : v = 0
  · rw [if_pos hv]
    decide
  rw [if_neg hv, List.length_append, List.length_map, List.length_reverse]
  by_cases hneg : v < 0
  · have hd : (Nat.digits 10 v.natAbs).length ≤ 19 :=
      (Nat.digits_length_le_iff (by decide) _).mpr (by omega)
    rw [if_pos hneg]
    simp only [List.length_singleton]
    omega
  · have hd : (Nat.digits 10 v.natAbs).length ≤ 20 :=
      (Nat.digits_length_le_iff (by decide) _).mpr (by omega)
    rw [if_neg hneg]
    simpa using hd

/-- A decimal number ends with a digit. -/
theorem decimal_eq_concat (v : ℤ) : ∃ pre d, d < 10 ∧ decimal v = pre ++ [digitChar d] := by
  unfold decimal
  by_cases hv : v = 0
  · rw [if_pos hv]
    exact ⟨[], 0, by decide, rfl⟩
  · rw [if_neg hv, Nat.digits_def' (by decide) (Int.natAbs_pos.mpr hv), List.reverse_cons,
      List.map_append, ← List.append_assoc]
    exact ⟨_, _, Nat.mod_lt _ (by decide), rfl⟩

/-- There is no space in a decimal number. -/
theorem space_notMem_decimal (v : ℤ) : (32 : UInt8) ∉ decimal v := by
  have hdigit : ∀ d, d < 10 → digitChar d ≠ 32 := by decide
  unfold decimal
  by_cases hv : v = 0
  · rw [if_pos hv]
    decide
  rw [if_neg hv]
  intro h
  rcases List.mem_append.mp h with h | h
  · split at h
    · revert h
      decide
    · cases h
  · obtain ⟨d, hd, h⟩ := List.mem_map.mp h
    exact hdigit d (Nat.digits_lt_base (by decide) (List.mem_reverse.mp hd)) h

/-! ## Reading a number -/

/-- The digit a character stands for. -/
def digitValue (c : UInt8) : Option ℕ :=
  if 48 ≤ c ∧ c ≤ 57 then some (c.toNat - 48) else none

/-- The number some digits stand for, behind what was read so far. -/
def parseDigits (acc : ℕ) : List UInt8 → Option ℕ
  | [] => some acc
  | c :: cs => (digitValue c).bind fun d => parseDigits (acc * 10 + d) cs

/-- **The integer a text stands for**: digits, at least one, behind a minus sign
or not. -/
def parseDecimal : List UInt8 → Option ℤ
  | [] => none
  | c :: cs =>
    if c = minusChar then
      if cs = [] then none else (parseDigits 0 cs).map fun n : ℕ => -(n : ℤ)
    else
      (parseDigits 0 (c :: cs)).map fun n : ℕ => (n : ℤ)

/-- **The canonical text of an integer**: a sign exactly if it is negative, then
digits without a leading zero unless zero is all there is, and the text stands
for the integer. -/
structure Canonical (text : List UInt8) (v : ℤ) : Prop where
  sign : text.head? = some minusChar ↔ v < 0
  digits : ∃ ds, text = (if v < 0 then [minusChar] else []) ++ ds ∧ ds ≠ []
    ∧ (∀ c ∈ ds, 48 ≤ c ∧ c ≤ 57) ∧ (ds.head? = some (digitChar 0) → ds = [digitChar 0])
  parse : parseDecimal text = some v

theorem digitValue_digitChar : ∀ d, d < 10 → digitValue (digitChar d) = some d := by decide

/-- Reading one text after another. -/
theorem parseDigits_append (acc : ℕ) (cs cs' : List UInt8) :
    parseDigits acc (cs ++ cs') = (parseDigits acc cs).bind fun n => parseDigits n cs' := by
  induction cs generalizing acc with
  | nil => rfl
  | cons c cs ih =>
    rw [List.cons_append, parseDigits, parseDigits, Option.bind_assoc]
    exact congrArg _ (funext fun d => ih _)

/-- **Digits are read as the number they are the digits of.** -/
theorem parseDigits_reverse {ds : List ℕ} (hds : ∀ d ∈ ds, d < 10) (acc : ℕ) :
    parseDigits acc (ds.reverse.map digitChar)
      = some (acc * 10 ^ ds.length + Nat.ofDigits 10 ds) := by
  induction ds with
  | nil => simp [parseDigits]
  | cons d ds ih =>
    obtain ⟨hd, hds⟩ := List.forall_mem_cons.mp hds
    rw [List.reverse_cons, List.map_append, parseDigits_append, ih hds, Option.bind_some]
    show (digitValue (digitChar d)).bind (fun d => some _) = _
    rw [digitValue_digitChar d hd, Option.bind_some, Nat.ofDigits_cons, List.length_cons,
      Nat.pow_succ]
    congr 1
    ring

theorem digitChar_bounds : ∀ d, d < 10 → 48 ≤ digitChar d ∧ digitChar d ≤ 57 := by decide

theorem digitChar_ne_minusChar : ∀ d, d < 10 → digitChar d ≠ minusChar := by decide

/-- A positive number does not start with a zero. -/
theorem head_digits {n : ℕ} (hn : n ≠ 0) :
    ∃ d ds, 0 < d ∧ d < 10 ∧ (Nat.digits 10 n).reverse = d :: ds := by
  have hne : Nat.digits 10 n ≠ [] := Nat.digits_ne_nil_iff_ne_zero.mpr hn
  have hhead : (Nat.digits 10 n).reverse
      = (Nat.digits 10 n).getLast hne :: (Nat.digits 10 n).dropLast.reverse := by
    rw [← List.reverse_concat, List.dropLast_append_getLast hne]
  exact ⟨_, _, Nat.pos_of_ne_zero (Nat.getLast_digit_ne_zero 10 hn),
    Nat.digits_lt_base (by decide) (List.getLast_mem hne), hhead⟩

/-- **The decimal notation is canonical.** -/
theorem canonical_decimal (v : ℤ) : Canonical (decimal v) v := by
  by_cases hv : v = 0
  · subst hv
    exact ⟨by decide, ⟨[digitChar 0], rfl, by decide,
      List.forall_mem_singleton.mpr (by decide), fun _ => rfl⟩, by decide⟩
  have hlt : ∀ d ∈ Nat.digits 10 v.natAbs, d < 10 :=
    fun d hd => Nat.digits_lt_base (by decide) hd
  have hread : parseDigits 0 ((Nat.digits 10 v.natAbs).reverse.map digitChar) = some v.natAbs := by
    rw [parseDigits_reverse hlt, Nat.zero_mul, Nat.zero_add, Nat.ofDigits_digits]
  obtain ⟨d, ds, hpos, hd, hhead⟩ := head_digits (Int.natAbs_ne_zero.mpr hv)
  have htext : decimal v
      = (if v < 0 then [minusChar] else []) ++ (Nat.digits 10 v.natAbs).reverse.map digitChar := by
    unfold decimal
    rw [if_neg hv]
  have hchars : ∀ c ∈ (Nat.digits 10 v.natAbs).reverse.map digitChar, 48 ≤ c ∧ c ≤ 57 := by
    intro c hc
    obtain ⟨d, hd, rfl⟩ := List.mem_map.mp hc
    exact digitChar_bounds d (hlt d (List.mem_reverse.mp hd))
  rw [hhead, List.map_cons] at hread htext hchars
  refine ⟨?_, ⟨_, htext, List.cons_ne_nil _ _, hchars, fun h => ?_⟩, ?_⟩
  · rw [htext]
    by_cases hneg : v < 0
    · simp [hneg]
    · simp [hneg, digitChar_ne_minusChar d hd]
  · have hzero : digitChar d = digitChar 0 := Option.some.inj h
    have := digitValue_digitChar d hd
    rw [hzero, digitValue_digitChar 0 (by decide)] at this
    cases this
    exact absurd hpos (by decide)
  · rw [htext]
    by_cases hneg : v < 0
    · rw [if_pos hneg, List.singleton_append, parseDecimal, if_pos rfl,
        if_neg (List.cons_ne_nil _ _), hread, Option.map_some]
      congr 1
      omega
    · rw [if_neg hneg, List.nil_append, parseDecimal, if_neg (digitChar_ne_minusChar d hd), hread,
        Option.map_some]
      congr 1
      omega
