import Shoot.Version1.HttpPieces

/-!
# The request line of version 1.0

`parse_uri` looks for the parts of the request line by single characters: the
slash in front of the target, the space behind it, and the slash in front of the
version. A part that is not there is not noticed, since positions have no sign:
the searches that follow fail as well, and the version is read from the first
bytes of the line (`versionField`).

A `GET` line is read as it was written, whatever the target contains
(`HttpRequest.parseUri_getLine`). A `POST` line is taken for a `GET` line where
its target contains `GET`, and many texts that are no request line at all are
accepted. `HttpRequest.accepts_iff` says exactly when a line is accepted if it is
well formed, and only then, with the method it begins with.
-/

namespace Version1

open CxxString

namespace RequestText

/-! ## What the searches find -/

/-- Where a line names a word: at its first occurrence there, if that is a
position for an `int`. -/
def namedAt (line word : List UInt8) : Option ℕ :=
  (firstOf word line).bind fun i => if 0 ≤ castInt i then some (castInt i).toNat else none

/-- The line from the method it names on. -/
def fromMethod (line : List UInt8) : List UInt8 :=
  match namedAt line (chars "GET"), namedAt line (chars "POST") with
  | some i, _ => line.drop i
  | none, some i => line.drop i
  | none, none => []

/-- **The bytes that are taken for the version**: the three behind the first slash
that follows the first space that follows the first slash from the method on; or
the first three of the line, if one of these is not there. -/
def versionField (line : List UInt8) : List UInt8 :=
  match (((fromMethod line).dropWhile fun c => c ≠ 47).dropWhile fun c => c ≠ 32).dropWhile
      fun c => c ≠ 47 with
  | _ :: field => field.take 3
  | [] => line.take 3

/-- The version some bytes stand for. -/
def versionOf (field : List UInt8) : Option HttpV :=
  if field = chars "1.0" then some .http10 else if field = chars "1.1" then some .http11 else none

/-- The text before the first carriage return. -/
def lineOf (str : List UInt8) : List UInt8 := str.takeWhile fun c => c ≠ 13

/-! ## What a request line is to be -/

/-- The line `word SP /target SP HTTP/1.d`. -/
def lineText (word target : List UInt8) (d : UInt8) : List UInt8 :=
  word ++ chars " /" ++ target ++ chars " HTTP/1." ++ [d]

/-- **A line of this form**, with a target free of spaces, and 0 or 1 for `d`. -/
def IsLine (word line : List UInt8) : Prop :=
  ∃ target d, 32 ∉ target ∧ (d = 48 ∨ d = 49) ∧ line = lineText word target d

/-- **A well-formed line**, with its method. -/
def HasForm (line : List UInt8) : HttpMethod → Prop
  | .get => IsLine (chars "GET") line
  | .post => IsLine (chars "POST") line
  | _ => False

/-- **A line whose positions can be counted**: it is cut out as it is, and no
position in it is mistaken for `npos`. -/
structure Counted (str : List UInt8) : Prop where
  requestLine_eq : requestLine str = lineOf str
  length_lt : (lineOf str).length < npos

variable {str line word target field : List UInt8} {d : UInt8}

/-- The lines of all strings can. -/
theorem counted_of_length (hs : str.length < npos) : Counted str :=
  ⟨requestLine_eq (Or.inr (Nat.le_of_lt hs)),
    Nat.lt_of_le_of_lt (List.takeWhile_prefix _).length_le hs⟩

/-- A word is named where `parse_uri` finds it. -/
theorem namedAt_requestLine (str word : List UInt8) :
    namedAt (requestLine str) word
      = if 0 ≤ wordPos str word then some (wordPos str word).toNat else none := by
  have hnpos : ¬0 ≤ castInt npos := by decide
  unfold namedAt wordPos find
  rw [List.drop_zero]
  cases firstOf word (requestLine str) with
  | none => exact (if_neg hnpos).symm
  | some i =>
    rw [Option.bind_some]
    simp only [Nat.zero_add]

/-- The method of a line, by the words that are named. -/
theorem lineMethod_eq (hc : Counted str) :
    lineMethod str
      = if namedAt (lineOf str) (chars "GET") ≠ none then some .get
        else if namedAt (lineOf str) (chars "POST") ≠ none then some .post else none := by
  unfold lineMethod
  rw [← hc.requestLine_eq, namedAt_requestLine, namedAt_requestLine]
  by_cases hg : 0 ≤ wordPos str (chars "GET")
  · rw [if_pos hg, if_pos hg, if_pos (Option.some_ne_none _)]
  · by_cases hp : 0 ≤ wordPos str (chars "POST")
    · rw [if_neg hg, if_neg hg, if_pos hp, if_pos hp, if_neg (by simp),
        if_pos (Option.some_ne_none _)]
    · rw [if_neg hg, if_neg hg, if_neg hp, if_neg hp, if_neg (by simp), if_neg (by simp)]

/-- The target is looked for from the method on; where none is named, behind the
line. -/
theorem drop_linePos (hc : Counted str) :
    (lineOf str).drop (linePos str) = fromMethod (lineOf str) := by
  unfold linePos fromMethod
  rw [← hc.requestLine_eq, namedAt_requestLine, namedAt_requestLine]
  by_cases hg : 0 ≤ wordPos str (chars "GET")
  · simp only [ge_iff_le, if_pos hg]
  · by_cases hp : 0 ≤ wordPos str (chars "POST")
    · simp only [ge_iff_le, if_neg hg, if_pos hp]
    · simp only [ge_iff_le, if_neg hg, if_neg hp]
      have hcr : chars "\r" = [13] := by decide
      rw [hc.requestLine_eq, hcr]
      refine List.drop_eq_nil_of_le ?_
      by_cases h : 13 ∈ str
      · rw [find_char (by rwa [List.drop_zero]), List.drop_zero, Nat.zero_add]
        exact Nat.le_refl _
      · rw [find_char_eq_npos (by rwa [List.drop_zero])]
        exact Nat.le_of_lt hc.length_lt

theorem versionOf_eq_none :
    versionOf field = none ↔ field ≠ chars "1.0" ∧ field ≠ chars "1.1" := by
  unfold versionOf
  by_cases h10 : field = chars "1.0"
  · simp [h10]
  · by_cases h11 : field = chars "1.1"
    · rw [if_neg h10, if_pos h11]
      exact iff_of_false (Option.some_ne_none _) fun h => h.2 h11
    · rw [if_neg h10, if_neg h11]
      exact iff_of_true rfl ⟨h10, h11⟩

/-- Fewer than three bytes stand for no version. -/
theorem versionOf_of_length (h : field.length < 3) : versionOf field = none := by
  rw [versionOf_eq_none]
  constructor
  · rintro rfl
    exact absurd h (by decide)
  · rintro rfl
    exact absurd h (by decide)

/-- **The bytes behind a slash that was looked for**, or those at the beginning of
the line, and how many there are. -/
theorem substr_behind (hs : line.length < npos) (pos : ℕ) :
    substr line (addSize (find line [47] pos) 1) 3
        = (match line.drop (find line [47] pos) with
          | _ :: field => field.take 3
          | [] => line.take 3)
      ∧ (substr line (addSize (find line [47] pos) 1) 3).length
        = min 3 (subSize line.length (find line [47] pos) - 1) := by
  unfold npos at hs
  by_cases h : 47 ∈ line.drop pos
  · obtain ⟨field, -, hdrop⟩ := drop_find_char h
    have hlen : line.length = find line [47] pos + 1 + field.length := by
      have h := congrArg List.length hdrop
      rw [List.length_drop, List.length_cons] at h
      omega
    have hfield : line.drop (find line [47] pos + 1) = field := by
      rw [← List.drop_drop, hdrop, List.drop_succ_cons, List.drop_zero]
    rw [hdrop, addSize_of_lt (by omega), subSize_of_le (by omega) (by omega)]
    unfold substr
    rw [hfield, List.length_take]
    exact ⟨rfl, by omega⟩
  · have hzero : addSize npos 1 = 0 := by decide
    have hsub : subSize line.length npos = line.length + 1 := by
      unfold subSize npos
      omega
    rw [find_char_eq_npos h, hzero, hsub, List.drop_eq_nil_of_le (by unfold npos; omega)]
    unfold substr
    rw [List.drop_zero, List.length_take]
    exact ⟨rfl, by omega⟩

/-- **The version that is found.** -/
theorem lineVersion_eq (hc : Counted str) :
    lineVersion str = versionOf (versionField (lineOf str)) := by
  have hchars : chars "/" = [47] ∧ chars " " = [32] := by decide
  have hlen := hc.length_lt
  unfold lineVersion versionField spacePos slashPos
  rw [hc.requestLine_eq, hchars.1, hchars.2, ← drop_linePos hc]
  generalize linePos str = pos
  generalize lineOf str = line at hlen
  have hle := Nat.le_of_lt hlen
  rw [← drop_find hle, ← drop_find hle, ← drop_find hle]
  generalize find line [32] (find line [47] pos) = pos_
  obtain ⟨hfield, hcount⟩ := substr_behind hlen pos_
  simp only
  rw [← hfield]
  by_cases hshort : subSize line.length (find line [47] pos_) ≤ 3
  · rw [if_pos hshort, versionOf_of_length (by omega)]
  · rw [if_neg hshort, versionOf]

/-! ## Reading a well-formed line -/

/-- The parts of a line, as the searches find them. -/
theorem lineText_eq (word target : List UInt8) (d : UInt8) :
    lineText word target d
      = (word ++ [32]) ++ 47 :: (target ++ 32 :: (chars "HTTP" ++ 47 :: [49, 46, d])) := by
  have hslash : chars " /" = [32, 47] := by decide
  have hHTTP : chars " HTTP/1." = 32 :: (chars "HTTP" ++ [47, 49, 46]) := by decide
  unfold lineText
  rw [hslash, hHTTP]
  simp only [List.append_assoc, List.cons_append, List.nil_append]

/-- The word a line begins with is named at its beginning. -/
theorem namedAt_lineText (word target : List UInt8) (d : UInt8) :
    namedAt (lineText word target d) word = some 0 := by
  unfold namedAt lineText
  rw [List.append_assoc, List.append_assoc, List.append_assoc, firstOf_append, Option.bind_some]
  rfl

/-- From its beginning, the version of a line is found. -/
theorem versionField_lineText (hword : 47 ∉ word) (hsp : 32 ∉ target)
    (hfrom : fromMethod (lineText word target d) = lineText word target d) :
    versionField (lineText word target d) = [49, 46, d] := by
  have hslash : 47 ∉ word ++ [32] := by
    rw [List.mem_append, not_or]
    exact ⟨hword, by decide⟩
  have hspace : 32 ∉ 47 :: target := by
    rw [List.mem_cons, not_or]
    exact ⟨by decide, hsp⟩
  have hHTTP : 47 ∉ 32 :: chars "HTTP" := by decide
  unfold versionField
  rw [hfrom, lineText_eq, dropWhile_char hslash, ← List.cons_append, dropWhile_char hspace,
    ← List.cons_append, dropWhile_char hHTTP]
  rfl

/-- One of the two versions is found. -/
theorem versionOf_ne_none (hd : d = 48 ∨ d = 49) : versionOf [49, 46, d] ≠ none := by
  rcases hd with rfl | rfl
  · decide
  · decide

/-- **A line that begins with `GET`** is read from there. -/
theorem fromMethod_get (target : List UInt8) (d : UInt8) :
    fromMethod (lineText (chars "GET") target d) = lineText (chars "GET") target d := by
  unfold fromMethod
  rw [namedAt_lineText]
  exact List.drop_zero

/-- **A line that begins with `POST`** is read from there, if it does not name
`GET`. -/
theorem fromMethod_post (h : namedAt (lineText (chars "POST") target d) (chars "GET") = none) :
    fromMethod (lineText (chars "POST") target d) = lineText (chars "POST") target d := by
  unfold fromMethod
  rw [namedAt_lineText, h]
  exact List.drop_zero

/-- A well-formed line that is read from its beginning has a version. -/
theorem version_of_form {m : HttpMethod} (h : HasForm line m)
    (hpost : m = .post → namedAt line (chars "GET") = none) :
    versionOf (versionField line) ≠ none := by
  cases m with
  | get =>
    obtain ⟨target, d, hsp, hd, rfl⟩ := h
    rw [versionField_lineText (by decide) hsp (fromMethod_get target d)]
    exact versionOf_ne_none hd
  | post =>
    obtain ⟨target, d, hsp, hd, rfl⟩ := h
    rw [versionField_lineText (by decide) hsp (fromMethod_post (hpost rfl))]
    exact versionOf_ne_none hd
  | delete => exact h.elim
  | put => exact h.elim

/-- The method of a well-formed line, if a `POST` line does not name `GET`. -/
theorem lineMethod_of_form {m : HttpMethod} (hc : Counted str) (h : HasForm (lineOf str) m)
    (hpost : m = .post → namedAt (lineOf str) (chars "GET") = none) : lineMethod str = some m := by
  rw [lineMethod_eq hc]
  cases m with
  | get =>
    obtain ⟨target, d, -, -, hline⟩ := h
    rw [hline, namedAt_lineText, if_pos (Option.some_ne_none 0)]
  | post =>
    obtain ⟨target, d, -, -, hline⟩ := h
    have hno := hpost rfl
    rw [hline] at hno ⊢
    rw [if_neg (not_not.mpr hno), namedAt_lineText, if_pos (Option.some_ne_none 0)]
  | delete => exact h.elim
  | put => exact h.elim

end RequestText

open RequestText

namespace HttpRequest

/-- Whether a request is accepted, by the bytes that are taken for the version. -/
theorem parseUri_success_iff {r : HttpRequest} (hc : Counted r.inbuf) :
    r.parseUri.1 = .success ↔ versionOf (versionField (lineOf r.inbuf)) ≠ none := by
  rw [parseUri_eq, ← lineVersion_eq hc]
  by_cases h : lineVersion r.inbuf = none
  · rw [if_pos h]
    exact iff_of_false nofun (not_not.mpr h)
  · rw [if_neg h]
    exact iff_of_true rfl h

/-- **When exactly the well-formed request lines are accepted**, with the methods
they begin with. A `POST` line is to name no `GET`, as far as an `int` can tell;
and in a line that is not well formed, the bytes taken for the version are to be
other ones. -/
theorem accepts_iff (r : HttpRequest) (hs : r.inbuf.length < npos) :
    ((r.parseUri.1 = .success ↔ ∃ m, HasForm (lineOf r.inbuf) m)
        ∧ ∀ m, HasForm (lineOf r.inbuf) m → r.parseUri.2.method = m)
      ↔ (HasForm (lineOf r.inbuf) .post → namedAt (lineOf r.inbuf) (chars "GET") = none)
        ∧ ((¬∃ m, HasForm (lineOf r.inbuf) m) →
            versionField (lineOf r.inbuf) ≠ chars "1.0"
              ∧ versionField (lineOf r.inbuf) ≠ chars "1.1") := by
  have hc := counted_of_length hs
  have hmethod : r.parseUri.2.method = (lineMethod r.inbuf).getD r.method := by
    rw [parseUri_eq]
  have hget : namedAt (lineOf r.inbuf) (chars "GET") ≠ none → lineMethod r.inbuf = some .get := by
    intro h
    rw [lineMethod_eq hc, if_pos h]
  rw [parseUri_success_iff hc, hmethod]
  constructor
  · rintro ⟨hacc, hform⟩
    refine ⟨fun hpost => ?_, fun hnot => ?_⟩
    · by_contra h
      have hread := hform .post hpost
      rw [hget h] at hread
      cases hread
    · rw [← versionOf_eq_none]
      exact not_not.mp fun h => hnot (hacc.mp h)
  · rintro ⟨hpost, hother⟩
    have hform : ∀ m, HasForm (lineOf r.inbuf) m →
        m = .post → namedAt (lineOf r.inbuf) (chars "GET") = none := by
      rintro m h rfl
      exact hpost h
    refine ⟨⟨fun h => ?_, fun ⟨m, h⟩ => version_of_form h (hform m h)⟩, fun m h => ?_⟩
    · by_contra hnot
      exact h (versionOf_eq_none.mpr (hother hnot))
    · rw [lineMethod_of_form hc h (hform m h)]
      rfl

/-- A `POST` line without the other method. -/
theorem accepts_iff_post :
    { new with inbuf := chars "POST /a HTTP/1.1\r\n" }.parseUri.1 = .success
      ∧ { new with inbuf := chars "POST /a HTTP/1.1\r\n" }.parseUri.2.method = .post := by
  have hpost : HasForm (lineOf (chars "POST /a HTTP/1.1\r\n")) .post :=
    ⟨chars "a", 49, by decide, Or.inr rfl, by decide⟩
  obtain ⟨hacc, hform⟩ := (accepts_iff { new with inbuf := chars "POST /a HTTP/1.1\r\n" }
    (by decide)).mpr ⟨fun _ => by decide, fun hnot => absurd ⟨_, hpost⟩ hnot⟩
  exact ⟨hacc.mpr ⟨_, hpost⟩, hform _ hpost⟩

/-- **Lines that are misread**: a `POST` line is taken for a `GET` line, another
one is turned down, and two that are not well formed are accepted. -/
theorem misread :
    { new with inbuf := chars "POST /GET/a HTTP/1.0\r\n" }.parseUri.2.method = .get
      ∧ { new with inbuf := chars "POST /GET HTTP/1.0\r\n" }.parseUri.1 = .error
      ∧ { new with inbuf := chars "GET / FOO/1.0\r\n" }.parseUri.1 = .success
      ∧ { new with inbuf := chars "1.0\r\n" }.parseUri.1 = .success
      ∧ ¬∀ r : HttpRequest, r.inbuf.length < npos →
        ((r.parseUri.1 = .success ↔ ∃ m, HasForm (lineOf r.inbuf) m)
          ∧ ∀ m, HasForm (lineOf r.inbuf) m → r.parseUri.2.method = m) := by
  refine ⟨by decide +kernel, by decide +kernel, by decide +kernel, by decide +kernel, fun h => ?_⟩
  have hread := (h { new with inbuf := chars "POST /GET/a HTTP/1.0\r\n" } (by decide)).2 .post
    ⟨chars "GET/a", 48, by decide, Or.inl rfl, by decide⟩
  have hget : { new with inbuf := chars "POST /GET/a HTTP/1.0\r\n" }.parseUri.2.method = .get := by
    decide +kernel
  rw [hget] at hread
  cases hread

/-! ## Reading a `GET` line back -/

/-- The text of a version. -/
def versionText : HttpV → List UInt8
  | .http10 => chars "1.0"
  | .http11 => chars "1.1"

/-- **A `GET` line**, for a target and a version. -/
def getLine (p : List UInt8) (v : HttpV) : List UInt8 :=
  chars "GET /" ++ p ++ chars " HTTP/" ++ versionText v

variable {p : List UInt8}

/-- It is a line with `GET` for the word. -/
theorem getLine_eq (p : List UInt8) (v : HttpV) :
    ∃ d, (d = 48 ∨ d = 49) ∧ versionText v = [49, 46, d]
      ∧ getLine p v = lineText (chars "GET") p d := by
  have hget : chars "GET /" = chars "GET" ++ chars " /" := by decide
  have hHTTP : chars " HTTP/1." = chars " HTTP/" ++ [49, 46] := by decide
  have htext : ∀ d, versionText v = [49, 46, d] → getLine p v = lineText (chars "GET") p d := by
    intro d hd
    unfold getLine lineText
    rw [hget, hHTTP, hd]
    simp only [List.append_assoc, List.cons_append, List.nil_append]
  cases v with
  | http10 => exact ⟨48, Or.inl rfl, by decide, htext 48 (by decide)⟩
  | http11 => exact ⟨49, Or.inr rfl, by decide, htext 49 (by decide)⟩

/-- A `GET` line is read from its beginning. -/
theorem linePos_lineText {str : List UInt8} {d : UInt8}
    (hline : requestLine str = lineText (chars "GET") p d) : linePos str = 0 := by
  have hfind : find (requestLine str) (chars "GET") 0 = 0 := by
    unfold find
    rw [hline, lineText, List.drop_zero, List.append_assoc, List.append_assoc,
      List.append_assoc, firstOf_append]
  have hzero : wordPos str (chars "GET") = 0 := by
    unfold wordPos
    rw [hfind]
    rfl
  unfold linePos
  rw [hzero]
  rfl

/-- Its target stands between the slash and the space that are found. -/
theorem positions_lineText {str : List UInt8} {d : UInt8} (hsp : 32 ∉ p)
    (hline : requestLine str = lineText (chars "GET") p d) :
    slashPos str = 4 ∧ spacePos str = 4 + (p.length + 1)
      ∧ (requestLine str).drop 4 = 47 :: p ++ 32 :: (chars "HTTP" ++ 47 :: [49, 46, d]) := by
  have hchars : chars "/" = [47] ∧ chars " " = [32] := by decide
  have hword : (chars "GET" ++ [32]).length = 4 ∧ 47 ∉ chars "GET" ++ [32] := by decide
  have hspace : 32 ∉ 47 :: p := by
    rw [List.mem_cons, not_or]
    exact ⟨by decide, hsp⟩
  have hdrop : (requestLine str).drop 4
      = 47 :: p ++ 32 :: (chars "HTTP" ++ 47 :: [49, 46, d]) := by
    rw [hline, lineText_eq]
    exact List.drop_left' hword.1
  have hslash : slashPos str = 4 := by
    unfold slashPos
    rw [linePos_lineText hline, hchars.1, find_char, List.drop_zero, hline, lineText_eq,
      takeWhile_char hword.2, hword.1]
    rw [List.drop_zero, hline, lineText_eq]
    exact List.mem_append_right _ List.mem_cons_self
  refine ⟨hslash, ?_, hdrop⟩
  unfold spacePos
  rw [hslash, hchars.2, find_char, hdrop, takeWhile_char hspace, List.length_cons]
  rw [hdrop]
  exact List.mem_append_right _ List.mem_cons_self

/-- **The target of a `GET` line** is stored up to a question mark, and a page
for an empty one. -/
theorem lineUri_lineText {str : List UInt8} {d : UInt8} (hsp : 32 ∉ p) (hlen : p.length < 2 ^ 31)
    (hline : requestLine str = lineText (chars "GET") p d) :
    lineUri str = if p = [] then chars "index.html" else p.takeWhile fun c => c ≠ 63 := by
  have hmark : chars "?" = [63] := by decide
  obtain ⟨hslash, hspace, hdrop⟩ := positions_lineText hsp hline
  unfold lineUri
  rw [hslash, hspace, subSize_of_le (by omega) (by omega), Nat.add_sub_cancel_left,
    subSize_of_le (by omega) (by omega), Nat.add_sub_cancel, hmark]
  by_cases hp : p = []
  · rw [if_pos hp, hp]
    rfl
  · have hpos := List.length_pos_iff.mpr hp
    have htarget : (requestLine str).drop 5
        = p ++ 32 :: (chars "HTTP" ++ 47 :: [49, 46, d]) := by
      rw [← List.drop_drop (i := 1), hdrop]
      rfl
    have hcut : substr (requestLine str) (addSize 4 1) p.length = p := by
      unfold substr
      rw [addSize_of_lt (by decide), htarget, List.take_left]
    rw [if_neg hp, if_pos (by omega), hcut]
    exact substr_find_char (Or.inr (by unfold npos; omega))

/-- **A `GET` line is read as it was written**: for every target without spaces,
and whatever follows, the request line is accepted, and the target and the
version are stored. -/
theorem parseUri_getLine (r : HttpRequest) (rest : List UInt8) (v : HttpV)
    (hsp : 32 ∉ p) (hcr : 13 ∉ p) (hlen : p.length < 2 ^ 31) :
    { r with inbuf := getLine p v ++ 13 :: rest }.parseUri
      = (.success, { r with
          inbuf := getLine p v ++ 13 :: rest
          method := .get
          httpV := v
          uri := if p = [] then chars "index.html" else p.takeWhile fun c => c ≠ 63 }) := by
  obtain ⟨d, hd, hv, hget⟩ := getLine_eq p v
  have hmem : 13 ∉ getLine p v := by
    have hGET : 13 ∉ chars "GET /" := by decide
    have hHTTP : 13 ∉ chars " HTTP/" := by decide
    have htext : 13 ∉ versionText v := by
      cases v with
      | http10 => decide
      | http11 => decide
    unfold getLine
    simp only [List.mem_append, hGET, hcr, hHTTP, htext, or_self, not_false_eq_true]
  have hline : lineOf (getLine p v ++ 13 :: rest) = getLine p v := takeWhile_char hmem rest
  have hform : HasForm (lineOf (getLine p v ++ 13 :: rest)) .get :=
    ⟨p, d, hsp, hd, hline.trans hget⟩
  have hc : Counted (getLine p v ++ 13 :: rest) := by
    refine ⟨requestLine_eq (Or.inl ?_), ?_⟩
    · exact List.mem_append_right _ List.mem_cons_self
    · have hparts : (chars "GET").length = 3 ∧ (chars " /").length = 2
          ∧ (chars " HTTP/1.").length = 8 := by decide
      rw [hline, hget, lineText, List.length_append, List.length_append, List.length_append,
        List.length_append, hparts.1, hparts.2.1, hparts.2.2, List.length_singleton]
      unfold npos
      omega
  have hversion : lineVersion (getLine p v ++ 13 :: rest) = some v := by
    rw [lineVersion_eq hc, hline, hget, versionField_lineText (by decide) hsp (fromMethod_get p d),
      ← hv]
    cases v with
    | http10 => decide
    | http11 => decide
  have hmethod : lineMethod (getLine p v ++ 13 :: rest) = some .get :=
    lineMethod_of_form hc hform nofun
  have huri := lineUri_lineText hsp hlen (hc.requestLine_eq.trans (hline.trans hget))
  rw [parseUri_eq]
  simp only [hversion, hmethod, huri, Option.getD_some]
  rfl

/-- A target with a slash, a question mark and the name of a method. -/
theorem parseUri_getLine_query :
    { new with inbuf := getLine (chars "a/b?POST=1") .http11 ++ 13 :: chars "\n" }.parseUri
      = (.success, ⟨chars "a/b", .http11,
          getLine (chars "a/b?POST=1") .http11 ++ 13 :: chars "\n", [], .parseUri, .get⟩) :=
  parseUri_getLine new (chars "\n") .http11 (by decide) (by decide) (by decide)

end HttpRequest

end Version1
