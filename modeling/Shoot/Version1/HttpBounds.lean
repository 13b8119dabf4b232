import Shoot.Version1.HttpPieces

/-!
# Where `parse_uri` cuts

`substr` throws `std::out_of_range` when it is to begin behind the end of its
string, and nothing in the server would catch that. So this module has the parts
of `parse_uri` once more, with the exception: a call that throws has no result.

It never happens (`HttpRequest.parseUri_total`). The target and the version begin
one behind a slash that was looked for. A slash that was found is in the line, so
one behind it is at most the end; and where none was found, the sum wraps around
to the beginning.
-/

namespace Version1

open CxxString

/-- `s.substr(pos, n)`, `none` where it throws. -/
def substrThrows (s : List UInt8) (pos n : ℕ) : Option (List UInt8) :=
  if pos ≤ s.length then some (substr s pos n) else none

namespace HttpRequest

/-- `HttpRequest.parseTarget`, with the exception. -/
def parseTargetThrows (r : HttpRequest) (requestLine : List UInt8) (pos pos_ : ℕ) :
    Option HttpRequest :=
  if subSize pos_ pos > 1 then do
    let uri ← substrThrows requestLine (addSize pos 1) (subSize (subSize pos_ pos) 1)
    let pos__ := find uri (chars "?") 0
    if pos__ ≥ 0 then
      let uri ← substrThrows uri 0 pos__
      return { r with uri := uri }
    else
      return { r with uri := uri }
  else
    some { r with uri := chars "index.html" }

/-- `HttpRequest.parseVersion`, with the exception. -/
def parseVersionThrows (r : HttpRequest) (requestLine : List UInt8) (pos : ℕ) :
    Option (ParseFlag × HttpRequest) :=
  if subSize requestLine.length pos ≤ 3 then
    some (.error, r)
  else do
    let tmp ← substrThrows requestLine (addSize pos 1) 3
    if tmp = chars "1.0" then
      return (.success, { r with httpV := .http10 })
    else if tmp = chars "1.1" then
      return (.success, { r with httpV := .http11 })
    else
      return (.error, r)

/-- **`HttpRequest.parseUri`, with the exception.** -/
def parseUriThrows (r : HttpRequest) : Option (ParseFlag × HttpRequest) := do
  let str := r.inbuf
  let pos := find str (chars "\r") 0
  let requestLine ← substrThrows str 0 pos
  let found := r.parseMethod requestLine pos
  let r := found.2
  let pos := find requestLine (chars "/") found.1
  if pos < 0 then
    return (.success, { r with uri := chars "index.html", httpV := .http11 })
  else
    let pos_ := find requestLine (chars " ") pos
    if pos_ < 0 then
      return (.error, r)
    else
      let r ← r.parseTargetThrows requestLine pos pos_
      let pos := find requestLine (chars "/") pos_
      if pos < 0 then
        return (.error, r)
      else
        r.parseVersionThrows requestLine pos

section Cuts

variable {s line : List UInt8} {pos n : ℕ} {c : UInt8} {r : HttpRequest}

/-- A cut that begins in the string, or at its end. -/
theorem substrThrows_of_le (h : pos ≤ s.length) : substrThrows s pos n = some (substr s pos n) :=
  if_pos h

/-- **One more than a position that was looked for** is in the string, or at its
end; it is zero if nothing was found. -/
theorem addSize_find_le (hs : s.length < npos) (c : UInt8) (pos : ℕ) :
    addSize (find s [c] pos) 1 ≤ s.length := by
  by_cases h : c ∈ s.drop pos
  · obtain ⟨rest, -, hdrop⟩ := drop_find_char h
    have hlen := congrArg List.length hdrop
    rw [List.length_drop, List.length_cons] at hlen
    rw [addSize_of_lt (by unfold npos at hs; omega)]
    omega
  · have hwrap : addSize npos 1 = 0 := by decide
    rw [find_char_eq_npos h, hwrap]
    exact Nat.zero_le _

/-- The target is cut out of the line. -/
theorem parseTargetThrows_eq (hs : line.length < npos) (r : HttpRequest) (pos pos_ : ℕ) :
    r.parseTargetThrows line (find line [47] pos) pos_
      = some (r.parseTarget line (find line [47] pos) pos_) := by
  unfold parseTargetThrows parseTarget
  split
  · rw [substrThrows_of_le (addSize_find_le hs 47 pos), Option.bind_eq_bind, Option.bind_some]
    simp only [ge_iff_le, Nat.zero_le, if_true]
    rw [substrThrows_of_le (Nat.zero_le _), Option.bind_some]
    rfl
  · rfl

/-- The version is cut out of the line. -/
theorem parseVersionThrows_eq (hs : line.length < npos) (r : HttpRequest) (pos : ℕ) :
    r.parseVersionThrows line (find line [47] pos)
      = some (r.parseVersion line (find line [47] pos)) := by
  unfold parseVersionThrows parseVersion
  split
  · rfl
  · rw [substrThrows_of_le (addSize_find_le hs 47 pos), Option.bind_eq_bind, Option.bind_some]
    simp only
    split
    · rfl
    · split
      · rfl
      · rfl

/-- **`parse_uri` never throws**, and answers with success or an error, whatever it
is given. -/
theorem parseUri_total (r : HttpRequest) (hs : r.inbuf.length < npos) :
    r.parseUriThrows = some r.parseUri ∧ (r.parseUri.1 = .success ∨ r.parseUri.1 = .error) := by
  have hslash : chars "/" = [47] := by decide
  constructor
  · unfold parseUriThrows parseUri
    have hline : (substr r.inbuf 0 (find r.inbuf (chars "\r") 0)).length < npos := by
      unfold substr
      exact Nat.lt_of_le_of_lt ((List.take_sublist _ _).trans (List.drop_sublist _ _)).length_le hs
    simp only [Nat.not_lt_zero, if_false]
    rw [substrThrows_of_le (Nat.zero_le _), Option.bind_eq_bind, Option.bind_some, hslash,
      parseTargetThrows_eq hline, Option.bind_eq_bind, Option.bind_some,
      parseVersionThrows_eq hline]
  · rw [parseUri_eq]
    simp only
    by_cases h : RequestText.lineVersion r.inbuf = none
    · rw [if_pos h]
      exact Or.inr rfl
    · rw [if_neg h]
      exact Or.inl rfl

/-- A line without any slash, of a request that was a `POST` before. -/
theorem parseUri_total_bare :
    { new with inbuf := chars "1.0", method := .post }.parseUriThrows
      = some (.success, ⟨chars "index.html", .http10, chars "1.0", [], .parseUri, .post⟩) := by
  rw [(parseUri_total { new with inbuf := chars "1.0", method := .post } (by decide)).1]
  decide +kernel

end Cuts

end HttpRequest

end Version1
