import Mathlib.Data.List.TakeWhile
import Shoot.Text

/-!
# Strings of the library

`std::string` as the programs use it: searching from a position, cutting out a
part, and positions that are numbers of 64 bits without a sign. A search that
fails answers with the greatest of them (`npos`), and what is computed with it
wraps around.

For a single character, a search finds where the characters up to it end
(`find_char`).
-/

namespace CxxString

/-- `std::string::npos`. -/
def npos : ℕ := 2 ^ 64 - 1

/-- The sum of two positions. -/
def addSize (a b : ℕ) : ℕ := (a + b) % 2 ^ 64

/-- The difference of two positions. -/
def subSize (a b : ℕ) : ℕ := (a + 2 ^ 64 - b) % 2 ^ 64

/-- Where a text occurs first. -/
def firstOf (pat : List UInt8) : List UInt8 → Option ℕ
  | [] => if pat = [] then some 0 else none
  | c :: s => if pat <+: c :: s then some 0 else (firstOf pat s).map (· + 1)

/-- `s.find(pat, pos)`. -/
def find (s pat : List UInt8) (pos : ℕ) : ℕ :=
  match firstOf pat (s.drop pos) with
  | some i => pos + i
  | none => npos

/-- `s.substr(pos, n)`, for a position in the string. -/
def substr (s : List UInt8) (pos n : ℕ) : List UInt8 := (s.drop pos).take n

/-- `s.c_str()`, as its users see it: up to the first NUL. -/
def cStr (s : List UInt8) : List UInt8 := s.takeWhile fun c => c ≠ 0

/-- A text occurs where it begins. -/
theorem firstOf_append (pat s : List UInt8) : firstOf pat (pat ++ s) = some 0 := by
  cases h : pat ++ s with
  | nil => rw [firstOf, if_pos (List.append_eq_nil_iff.mp h).1]
  | cons c t => rw [firstOf, if_pos (h ▸ List.prefix_append pat s)]

/-- Differences of positions that do not wrap. -/
theorem subSize_of_le {a b : ℕ} (hba : b ≤ a) (ha : a < 2 ^ 64) : subSize a b = a - b := by
  unfold subSize
  omega

/-- Sums of positions that do not wrap. -/
theorem addSize_of_lt {a b : ℕ} (h : a + b < 2 ^ 64) : addSize a b = a + b :=
  Nat.mod_eq_of_lt h

/-! ## Searching for a character -/

variable {c : UInt8} {s : List UInt8}

/-- The characters of a string without `c` are other ones. -/
theorem ne_of_notMem (h : c ∉ s) : ∀ d ∈ s, decide (d ≠ c) = true :=
  fun _ hd => decide_eq_true fun hdc => h (hdc ▸ hd)

/-- A character occurs first behind the characters that are not it. -/
theorem firstOf_char (c : UInt8) (s : List UInt8) :
    firstOf [c] s = if c ∈ s then some (s.takeWhile fun d => d ≠ c).length else none := by
  induction s with
  | nil => rfl
  | cons d s ih =>
    by_cases hd : d = c
    · subst hd
      have hpre : [d] <+: d :: s := ⟨s, rfl⟩
      rw [firstOf, if_pos hpre, if_pos List.mem_cons_self, List.takeWhile_cons_of_neg (by simp)]
      rfl
    · have hpre : ¬[c] <+: d :: s := fun h => hd (List.cons_prefix_cons.mp h).1.symm
      have hmem : c ∈ d :: s ↔ c ∈ s := by
        rw [List.mem_cons]
        exact or_iff_right (Ne.symm hd)
      rw [firstOf, if_neg hpre, ih, List.takeWhile_cons_of_pos (by simpa using hd)]
      by_cases hc : c ∈ s
      · rw [if_pos hc, if_pos (hmem.mpr hc)]
        rfl
      · rw [if_neg hc, if_neg (mt hmem.mp hc)]
        rfl

/-- A character that is there is found behind those that are not it. -/
theorem find_char {pos : ℕ} (h : c ∈ s.drop pos) :
    find s [c] pos = pos + ((s.drop pos).takeWhile fun d => d ≠ c).length := by
  unfold find
  rw [firstOf_char, if_pos h]

/-- A character that is not there is not found. -/
theorem find_char_eq_npos {pos : ℕ} (h : c ∉ s.drop pos) : find s [c] pos = npos := by
  unfold find
  rw [firstOf_char, if_neg h]

/-- What begins at a character that was found. -/
theorem drop_find_char {pos : ℕ} (h : c ∈ s.drop pos) :
    ∃ rest, ((s.drop pos).dropWhile fun d => d ≠ c) = c :: rest
      ∧ s.drop (find s [c] pos) = c :: rest := by
  rw [find_char h, ← List.drop_drop]
  generalize s.drop pos = t at h ⊢
  induction t with
  | nil => exact absurd h List.not_mem_nil
  | cons d t ih =>
    by_cases hd : d = c
    · refine ⟨t, ?_, ?_⟩
      · rw [List.dropWhile_cons_of_neg (by simpa using hd), hd]
      · rw [List.takeWhile_cons_of_neg (by simpa using hd), List.length_nil, List.drop_zero, hd]
    · have hmem : c ∈ t := (List.mem_cons.mp h).resolve_left (Ne.symm hd)
      obtain ⟨rest, hdrop, hfind⟩ := ih hmem
      refine ⟨rest, ?_, ?_⟩
      · rw [List.dropWhile_cons_of_pos (by simpa using hd), hdrop]
      · rw [List.takeWhile_cons_of_pos (by simpa using hd), List.length_cons,
          List.drop_succ_cons, hfind]

/-- **Cutting a string at a character**, which need not be there. -/
theorem substr_find_char (hs : c ∈ s ∨ s.length ≤ npos) :
    substr s 0 (find s [c] 0) = s.takeWhile fun d => d ≠ c := by
  unfold substr
  rw [List.drop_zero]
  by_cases h : c ∈ s
  · rw [find_char (by rwa [List.drop_zero]), List.drop_zero, Nat.zero_add]
    exact (List.prefix_iff_eq_take.mp (List.takeWhile_prefix _)).symm
  · rw [find_char_eq_npos (by rwa [List.drop_zero]),
      List.take_of_length_le (hs.resolve_left h)]
    exact (List.takeWhile_eq_self_iff.mpr (ne_of_notMem h)).symm

/-- **What begins where a character was looked for**: nothing if it is not
there. -/
theorem drop_find (hs : s.length ≤ npos) (c : UInt8) (pos : ℕ) :
    s.drop (find s [c] pos) = (s.drop pos).dropWhile fun d => d ≠ c := by
  by_cases h : c ∈ s.drop pos
  · obtain ⟨rest, hdrop, hfind⟩ := drop_find_char h
    rw [hfind, hdrop]
  · rw [find_char_eq_npos h, List.drop_eq_nil_of_le hs]
    exact (List.dropWhile_eq_nil_iff.mpr (ne_of_notMem h)).symm

/-- The part of a string in front of a character. -/
theorem takeWhile_char (h : c ∉ s) (t : List UInt8) :
    ((s ++ c :: t).takeWhile fun d => d ≠ c) = s := by
  rw [List.takeWhile_append_of_pos (ne_of_notMem h), List.takeWhile_cons_of_neg (by simp),
    List.append_nil]

/-- The part of a string from a character on. -/
theorem dropWhile_char (h : c ∉ s) (t : List UInt8) :
    ((s ++ c :: t).dropWhile fun d => d ≠ c) = c :: t := by
  rw [List.dropWhile_append_of_pos (ne_of_notMem h), List.dropWhile_cons_of_neg (by simp)]

/-- What stands behind a character is not looked at. -/
theorem takeWhile_append_of_mem (h : c ∈ s) (t : List UInt8) :
    ((s ++ t).takeWhile fun d => d ≠ c) = s.takeWhile fun d => d ≠ c := by
  rw [List.takeWhile_append, if_neg fun hlen => ?_]
  have hall := List.takeWhile_eq_self_iff.mp
    ((List.takeWhile_prefix fun d => decide (d ≠ c)).eq_of_length hlen)
  exact absurd rfl (of_decide_eq_true (hall c h))

end CxxString
