import Shoot.LexicalPath
import Shoot.Version1.HttpPieces

/-!
# The files a request reaches

What `parse_analysis` passes to `stat` and `open` is the target of the request
line, which `parse_uri` cuts out of it from the slash to the next space and up to a
question mark. The slash itself is left out, so that the path is relative to the
directory of the server; what follows is not looked at. A second slash makes the
path absolute, and `..` leads out of the directory.

For strings of the library, whose size is a number of 64 bits, the searches find
exactly the bytes of the target (`cStr_lineUri`), and the paths stay inside exactly
if the target of the accepted line does (`HttpExchange.inside_iff`).
-/

namespace Version1

open CxxString LexicalPath RequestText

/-! ## The target in the bytes of the line -/

/-- **The target**: what stands behind the first slash of the line that follows the
method, up to a space, a question mark or a NUL. -/
def target (str : List UInt8) : List UInt8 :=
  let rest := ((str.takeWhile fun c => c ≠ 13).drop (linePos str)).dropWhile fun c => c ≠ 47
  (rest.drop 1).takeWhile fun c => c ≠ 0 ∧ c ≠ 63 ∧ c ≠ 32

/-- A search from a slash for the space behind it, and what is cut out between
them. -/
theorem substr_to_space {line rest : List UInt8} {pos : ℕ} (hl : line.length < 2 ^ 64)
    (hd : line.drop pos = 47 :: rest) :
    if subSize (find line [32] pos) pos > 1 then
      substr line (addSize pos 1) (subSize (subSize (find line [32] pos) pos) 1)
        = rest.takeWhile fun c => c ≠ 32
    else
      (rest.takeWhile fun c => c ≠ 32) = [] := by
  have hlen : line.length = pos + 1 + rest.length := by
    have h := congrArg List.length hd
    rw [List.length_drop, List.length_cons] at h
    omega
  have hrest : line.drop (pos + 1) = rest := by
    rw [← List.drop_drop, hd, List.drop_succ_cons, List.drop_zero]
  have hadd : addSize pos 1 = pos + 1 := addSize_of_lt (by omega)
  unfold substr
  rw [hadd, hrest]
  by_cases hsp : (32 : UInt8) ∈ rest
  · have hle : (rest.takeWhile fun c => c ≠ 32).length ≤ rest.length :=
      (List.takeWhile_prefix _).length_le
    have hfind : find line [32] pos = pos + ((rest.takeWhile fun c => c ≠ 32).length + 1) := by
      have hmem : (32 : UInt8) ∈ line.drop pos := by
        rw [hd]
        exact List.mem_cons_of_mem _ hsp
      rw [find_char hmem, hd, List.takeWhile_cons_of_pos (by decide), List.length_cons]
    rw [hfind]
    generalize hm : (rest.takeWhile fun c => c ≠ 32).length = m at hle
    rw [subSize_of_le (by omega) (by omega), Nat.add_sub_cancel_left,
      subSize_of_le (by omega) (by omega), Nat.add_sub_cancel]
    split
    · rw [← hm]
      exact (List.prefix_iff_eq_take.mp (List.takeWhile_prefix _)).symm
    · exact List.eq_nil_of_length_eq_zero (by omega)
  · have hfind : find line [32] pos = npos := by
      refine find_char_eq_npos fun h => ?_
      rw [hd, List.mem_cons] at h
      exact h.elim (by decide) hsp
    have hall : (rest.takeWhile fun c => c ≠ 32) = rest :=
      List.takeWhile_eq_self_iff.mpr fun c hc => decide_eq_true fun he => hsp (he ▸ hc)
    rw [hfind, hall, npos, subSize_of_le (by omega) (by omega), subSize_of_le (by omega) (by omega)]
    split
    · exact List.take_of_length_le (by omega)
    · exact List.eq_nil_of_length_eq_zero (by omega)

/-- **The path is the target**; only an empty one is replaced. -/
theorem cStr_lineUri {str : List UInt8} (hs : str.length < 2 ^ 64) :
    cStr (lineUri str) = target str
      ∨ lineUri str = chars "index.html" ∧ target str = [] := by
  have hchars : chars "/" = [47] ∧ chars " " = [32] ∧ chars "?" = [63] := by decide
  have hline : requestLine str = str.takeWhile fun c => c ≠ 13 :=
    requestLine_eq (Or.inr (by unfold npos; omega))
  have hl : (requestLine str).length < 2 ^ 64 := by
    rw [hline]
    exact (List.takeWhile_prefix _).length_le.trans_lt hs
  unfold lineUri target spacePos slashPos
  rw [← hline, hchars.1, hchars.2.1, hchars.2.2]
  generalize linePos str = pos
  generalize requestLine str = line at hl
  by_cases h : (47 : UInt8) ∈ line.drop pos
  · obtain ⟨rest, hrest, hdrop⟩ := drop_find_char h
    have hcut := substr_to_space hl hdrop
    have hlen : rest.length < 2 ^ 64 := by
      have h := congrArg List.length hdrop
      rw [List.length_drop, List.length_cons] at h
      omega
    simp only [hrest, List.drop_succ_cons, List.drop_zero]
    split at hcut
    · next hgt =>
      left
      have hle : (rest.takeWhile fun c => c ≠ 32).length ≤ npos := by
        have hpre : (rest.takeWhile fun c => c ≠ 32).length ≤ rest.length :=
          (List.takeWhile_prefix _).length_le
        unfold npos
        omega
      rw [if_pos hgt, hcut, substr_find_char (Or.inr hle), cStr, List.takeWhile_takeWhile,
        List.takeWhile_takeWhile]
      simp only [decide_eq_true_eq, and_assoc]
    · next hgt =>
      refine Or.inr ⟨if_neg hgt, List.takeWhile_eq_nil_iff.mpr fun hpos hc => ?_⟩
      refine List.takeWhile_eq_nil_iff.mp hcut hpos ?_
      exact decide_eq_true (of_decide_eq_true hc).2.2
  · have hspace : find line [32] npos = npos := by
      refine find_char_eq_npos fun hmem => ?_
      rw [List.drop_eq_nil_of_le (by unfold npos; omega)] at hmem
      exact absurd hmem List.not_mem_nil
    have hrest : ((line.drop pos).dropWhile fun c => c ≠ 47) = [] :=
      List.dropWhile_eq_nil_iff.mpr fun c hc => decide_eq_true fun he => h (he ▸ hc)
    rw [find_char_eq_npos h, hspace, subSize_of_le le_rfl (by decide), Nat.sub_self, hrest]
    exact Or.inr ⟨if_neg (by decide), rfl⟩

/-- The path stays inside exactly if the target does. -/
theorem inside_cStr_lineUri {str : List UInt8} (hs : str.length < 2 ^ 64) :
    Inside (cStr (lineUri str)) ↔ Inside (target str) := by
  rcases cStr_lineUri hs with h | ⟨huri, htarget⟩
  · rw [h]
  · rw [huri, htarget]
    decide +kernel

namespace HttpExchange

/-- The paths that were looked for, by the text that decides. -/
theorem mem_paths_iff (fs : FileSystem) {is : List HttpInput} {str : List UInt8}
    (hd : decidingText (texts is) = some str) (p : List UInt8) :
    p ∈ (feed fs is).paths
      ↔ (lineVersion str ≠ none ∧ namedMethod .get (texts is) ≠ .post
          ∧ lineUri str ≠ chars "hello" ∧ lineUri str ≠ chars "favicon.ico")
        ∧ p = cStr (lineUri str) := by
  have hpaths := (tracks_feed fs is).mem_paths p
  rw [reading_eq, hd, Option.elim_some, Option.bind_some] at hpaths
  -- the line is not looked into
  generalize lineUri str = uri, lineVersion str = version at hpaths ⊢
  exact hpaths

/-- **The files a request reaches are those of the server's directory** exactly if
the target of the accepted request line stays in it: if that line does not name
POST, the target does not begin with another slash, and no part of it from the start
has more `..` than names. -/
theorem inside_iff (fs : FileSystem) {is : List HttpInput}
    (hsize : (is.flatMap HttpInput.bytes).length < 2 ^ 64) :
    (∀ p ∈ (feed fs is).paths, Inside p)
      ↔ ∀ str, decidingText (texts is) = some str → lineVersion str ≠ none →
          namedMethod .get (texts is) ≠ .post →
          (target str).head? ≠ some 47
            ∧ ∀ pre, pre <+: components (target str) → backs pre ≤ downs pre := by
  cases hd : decidingText (texts is) with
  | none =>
    have hpaths := (tracks_feed fs is).mem_paths
    rw [reading_eq, hd] at hpaths
    refine ⟨fun _ str h => absurd h (Option.some_ne_none str).symm, fun _ p hp => ?_⟩
    exact absurd rfl ((hpaths p).mp hp).1.1
  | some str =>
    have hs : str.length < 2 ^ 64 := by
      refine lt_of_le_of_lt ?_ hsize
      rw [← flatten_texts, List.length_append]
      exact (List.sublist_flatten_of_mem (mem_of_decidingText hd)).length_le.trans
        (Nat.le_add_right _ _)
    constructor
    · rintro h t ⟨⟩ hv hpost
      rw [← inside_iff_backs, ← inside_cStr_lineUri hs]
      by_cases huri : lineUri str = chars "hello" ∨ lineUri str = chars "favicon.ico"
      · rcases huri with huri | huri
        · rw [huri]
          decide +kernel
        · rw [huri]
          decide +kernel
      · exact h _ ((mem_paths_iff fs hd _).mpr ⟨⟨hv, hpost, not_or.mp huri⟩, rfl⟩)
    · intro h p hp
      obtain ⟨⟨hv, hpost, -⟩, hp⟩ := (mem_paths_iff fs hd p).mp hp
      rw [hp]
      exact (inside_cStr_lineUri hs).mpr (inside_iff_backs.mpr (h str rfl hv hpost))

/-- A request for a file of the directory. -/
theorem inside_iff_plain :
    (chars "GET /a.txt?b HTTP/1.0\r\n\r\n").length < 2 ^ 64
      ∧ ((∀ p ∈ (feed ⟨fun _ => some 3, fun _ => true, fun _ _ => some (chars "abc")⟩
            [⟨chars "GET /a.txt?b HTTP/1.0\r\n\r\n", .again, 100⟩]).paths, Inside p)
        ↔ ∀ str, decidingText (texts [⟨chars "GET /a.txt?b HTTP/1.0\r\n\r\n", .again, 100⟩])
              = some str → lineVersion str ≠ none →
            namedMethod .get (texts [⟨chars "GET /a.txt?b HTTP/1.0\r\n\r\n", .again, 100⟩])
              ≠ .post →
            (target str).head? ≠ some 47
              ∧ ∀ pre, pre <+: components (target str) → backs pre ≤ downs pre) :=
  ⟨by decide, inside_iff _ (by decide)⟩

/-- A target that goes back from the directory at once. -/
theorem leaves_directory :
    ¬∀ (fs : FileSystem) (is : List HttpInput), ∀ p ∈ (feed fs is).paths, Inside p := by
  intro h
  have hin := h ⟨fun _ => none, fun _ => false, fun _ _ => none⟩
    [⟨chars "GET /../etc/passwd HTTP/1.0\r\n\r\n", .again, 0⟩] (chars "../etc/passwd")
    (by decide +kernel)
  exact absurd hin (by decide +kernel)

end HttpExchange

end Version1
