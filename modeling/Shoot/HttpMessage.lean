import Shoot.CxxString

/-!
# Responses, as a client reads them

A response is a status line, fields, an empty line, and a body. A client that
reads from a connection does not know where a response ends until it has seen
the field `Content-Length`; and what it has got so far may be any part of the
response.

This module is such a client (`decode`). It is as lenient as the protocol
allows: a line ends with a line feed, with a carriage return in front of it or
without, the names of the fields are in either case, and spaces in front of a
value do not count. It is exact about the body, which has as many bytes as the
field says.

What it has read does not depend on what comes behind (`decode_append`). So no
part of a response is taken for all of it (`decode_eq_none_of_append`), and
responses that follow each other on one connection are read one by one, up to the
first that was cut off (`decodeMany_flatMap_take`). `decode_encode` reads a response
back that was written line by line.
-/

namespace HttpMessage

open CxxString

/-- A line without the carriage return it ends with, if it does. -/
def chomp (line : List UInt8) : List UInt8 :=
  if line.getLast? = some 13 then line.dropLast else line

/-- **The lines up to the empty one**, and what stands behind it. The first
argument is what was read of the line so far. -/
def readHead (line : List UInt8) : List UInt8 → Option (List (List UInt8) × List UInt8)
  | [] => none
  | c :: s =>
    if c = 10 then
      if chomp line = [] then
        some ([], s)
      else
        (readHead [] s).map fun head => (chomp line :: head.1, head.2)
    else
      readHead (line ++ [c]) s

/-- A text up to a character, and behind it. -/
def cut (c : UInt8) (s : List UInt8) : List UInt8 × List UInt8 :=
  (s.takeWhile fun d => d ≠ c, (s.dropWhile fun d => d ≠ c).tail)

/-- A capital letter is made small. -/
def lower (c : UInt8) : UInt8 := if 65 ≤ c ∧ c ≤ 90 then c + 32 else c

/-- A field: its name, in small letters, and its value without the spaces in
front. -/
def fieldOf (line : List UInt8) : List UInt8 × List UInt8 :=
  ((cut 58 line).1.map lower, (cut 58 line).2.dropWhile fun c => c = 32)

/-- The number of a status line: three digits behind the version. -/
def statusOf (line : List UInt8) : Option ℕ :=
  let code := (cut 32 (cut 32 line).2).1
  if chars "HTTP/1." <+: (cut 32 line).1 ∧ code.length = 3 then parseDigits 0 code else none

/-- The length of the body, by the first field that tells it. -/
def contentLength (fields : List (List UInt8 × List UInt8)) : Option ℕ := do
  let field ← fields.find? fun field => field.1 = chars "content-length"
  if field.2 = [] then none else parseDigits 0 field.2

/-- **A response**, as it was read. -/
structure Response where
  status : ℕ
  fields : List (List UInt8 × List UInt8)
  body : List UInt8
deriving DecidableEq, Repr

/-- What the lines say: the number of the status, the fields, and the length of
the body. -/
def meaning (lines : List (List UInt8)) :
    Option (ℕ × List (List UInt8 × List UInt8) × ℕ) := do
  let status ← lines.head?.bind statusOf
  let fields := lines.tail.map fieldOf
  let length ← contentLength fields
  return (status, fields, length)

/-- The body of a response, if all of it is there. -/
def readBody (rest : List UInt8) (status : ℕ) (fields : List (List UInt8 × List UInt8))
    (length : ℕ) : Option (Response × List UInt8) :=
  if length ≤ rest.length then
    some (⟨status, fields, rest.take length⟩, rest.drop length)
  else
    none

/-- **The first response of a stream**, and what stands behind it, if all of it
is there. -/
def decode (s : List UInt8) : Option (Response × List UInt8) := do
  let head ← readHead [] s
  let m ← meaning head.1
  readBody head.2 m.1 m.2.1 m.2.2

/-- The first responses of a stream. -/
def decodeMany : ℕ → List UInt8 → Option (List Response × List UInt8)
  | 0, s => some ([], s)
  | n + 1, s => do
    let first ← decode s
    let others ← decodeMany n first.2
    return (first.1 :: others.1, others.2)

variable {s t : List UInt8}

/-! ## What comes behind -/

/-- The lines do not depend on what comes behind them. -/
theorem readHead_append {line : List UInt8} {head : List (List UInt8) × List UInt8}
    (h : readHead line s = some head) (t : List UInt8) :
    readHead line (s ++ t) = some (head.1, head.2 ++ t) := by
  induction s generalizing line head with
  | nil => exact absurd h (Option.some_ne_none head).symm
  | cons c s ih =>
    rw [List.cons_append]
    unfold readHead at h ⊢
    split at h
    · next hc =>
      rw [if_pos hc]
      split at h
      · next hempty =>
        rw [if_pos hempty, ← Option.some.inj h]
      · next hempty =>
        obtain ⟨rest, hrest, rfl⟩ := Option.map_eq_some_iff.mp h
        rw [if_neg hempty, ih hrest]
        rfl
    · next hc =>
      rw [if_neg hc]
      exact ih h

/-- **What was read of a stream does not depend on what comes behind it.** -/
theorem decode_append {r : Response × List UInt8} (h : decode s = some r) (t : List UInt8) :
    decode (s ++ t) = some (r.1, r.2 ++ t) := by
  obtain ⟨head, hhead, h⟩ := Option.bind_eq_some_iff.mp h
  obtain ⟨⟨status, fields, length⟩, hm, h⟩ := Option.bind_eq_some_iff.mp h
  obtain ⟨hle, h⟩ := Option.ite_none_right_eq_some.mp h
  unfold decode
  rw [readHead_append hhead t, Option.bind_eq_bind, Option.bind_some, hm, Option.bind_eq_bind,
    Option.bind_some, ← Option.some.inj h]
  have hle' : length ≤ (head.2 ++ t).length := by
    rw [List.length_append]
    exact Nat.le_add_right_of_le hle
  show (if length ≤ (head.2 ++ t).length then _ else none) = _
  rw [if_pos hle', List.take_append_of_le_length hle, List.drop_append_of_le_length hle]

/-- **No part of a response is taken for all of it.** -/
theorem decode_eq_none_of_append {r : Response} (h : decode (s ++ t) = some (r, []))
    (ht : t ≠ []) : decode s = none := by
  by_contra hne
  obtain ⟨r', hr'⟩ := Option.ne_none_iff_exists'.mp hne
  have hboth := h.symm.trans (decode_append hr' t)
  have hnil : [] = r'.2 ++ t := congrArg Prod.snd (Option.some.inj hboth)
  exact ht (List.append_eq_nil_iff.mp hnil.symm).2

/-- **A response that is written several times**, as far as each write takes it: it
is read as often as it was written in full before it was not for the first time, and
what was written from there on is left. -/
theorem decodeMany_flatMap_take {r : Response} (h : decode s = some (r, [])) (ns : List ℕ) :
    decodeMany (ns.takeWhile fun n => s.length ≤ n).length (ns.flatMap s.take)
      = some (List.replicate (ns.takeWhile fun n => s.length ≤ n).length r,
        (ns.dropWhile fun n => s.length ≤ n).flatMap s.take) := by
  induction ns with
  | nil => rfl
  | cons n ns ih =>
    by_cases hn : s.length ≤ n
    · rw [List.takeWhile_cons_of_pos (by simpa using hn),
        List.dropWhile_cons_of_pos (by simpa using hn), List.flatMap_cons,
        List.take_of_length_le hn, List.length_cons, decodeMany, decode_append h,
        Option.bind_eq_bind, Option.bind_some, List.nil_append, ih]
      rfl
    · rw [List.takeWhile_cons_of_neg (by simpa using hn),
        List.dropWhile_cons_of_neg (by simpa using hn)]
      rfl

/-! ## Reading back what was written -/

/-- **A response that is written line by line**, with an end for the lines. -/
def encode (eol : List UInt8) (lines : List (List UInt8)) (body : List UInt8) : List UInt8 :=
  lines.flatMap (· ++ eol) ++ eol ++ body

/-- A line that can be read back: it is not empty, has no line feed in it, and
does not end with a carriage return. -/
def IsLine (line : List UInt8) : Prop :=
  line ≠ [] ∧ 10 ∉ line ∧ line.getLast? ≠ some 13

instance (line : List UInt8) : Decidable (IsLine line) :=
  inferInstanceAs (Decidable (_ ∧ _ ∧ _))

/-- The ends of a line. -/
def IsEol (eol : List UInt8) : Prop := eol = [10] ∨ eol = [13, 10]

/-- What comes in front of a line feed belongs to the line. -/
theorem readHead_prefix {line : List UInt8} (h : 10 ∉ s) :
    readHead line (s ++ t) = readHead (line ++ s) t := by
  induction s generalizing line with
  | nil => rw [List.append_nil, List.nil_append]
  | cons c s ih =>
    obtain ⟨hc, hs⟩ := not_or.mp (mt List.mem_cons.mpr h)
    rw [List.cons_append, readHead, if_neg (Ne.symm hc), ih hs, List.append_assoc]
    rfl

/-- The end of a line does not belong to it. -/
theorem readHead_eol {line eol : List UInt8} (he : IsEol eol) (h : line.getLast? ≠ some 13) :
    readHead line (eol ++ t)
      = if line = [] then some ([], t)
        else (readHead [] t).map fun head => (line :: head.1, head.2) := by
  have hchomp : chomp line = line := if_neg h
  have hcr : chomp (line ++ [13]) = line := by
    unfold chomp
    rw [List.getLast?_concat, if_pos rfl, List.dropLast_concat]
  obtain rfl | rfl := he
  · show readHead line (10 :: t) = _
    rw [readHead, if_pos rfl, hchomp]
  · show readHead line (13 :: 10 :: t) = _
    rw [readHead, if_neg (by decide), readHead, if_pos rfl, hcr]

/-- **The lines of a response are read back.** -/
theorem readHead_encode {eol : List UInt8} (he : IsEol eol) {lines : List (List UInt8)}
    (h : ∀ line ∈ lines, IsLine line) (body : List UInt8) :
    readHead [] (encode eol lines body) = some (lines, body) := by
  induction lines with
  | nil =>
    show readHead [] (eol ++ body) = _
    rw [readHead_eol he (by simp), if_pos rfl]
  | cons line lines ih =>
    obtain ⟨⟨hne, hlf, hcr⟩, hlines⟩ := List.forall_mem_cons.mp h
    have hencode : encode eol (line :: lines) body = line ++ (eol ++ encode eol lines body) := by
      unfold encode
      rw [List.flatMap_cons]
      simp only [List.append_assoc]
    rw [hencode, readHead_prefix hlf, List.nil_append, readHead_eol he hcr, if_neg hne, ih hlines]
    rfl

/-- **A response is read back**, and what follows it is left, if its lines tell
the length of its body. -/
theorem decode_encode {eol : List UInt8} (he : IsEol eol) {lines : List (List UInt8)}
    (h : ∀ line ∈ lines, IsLine line) {body : List UInt8} {status : ℕ}
    {fields : List (List UInt8 × List UInt8)}
    (hm : meaning lines = some (status, fields, body.length)) (t : List UInt8) :
    decode (encode eol lines body ++ t) = some (⟨status, fields, body⟩, t) := by
  have hbody : encode eol lines body ++ t = encode eol lines (body ++ t) := List.append_assoc ..
  unfold decode
  rw [hbody, readHead_encode he h, Option.bind_eq_bind, Option.bind_some, hm, Option.bind_eq_bind,
    Option.bind_some]
  show (if body.length ≤ (body ++ t).length then _ else none) = _
  rw [if_pos (by simp), List.take_left, List.drop_left]

/-! ## The parts of a line -/

/-- A text is cut where the character stands first. -/
theorem cut_append {c : UInt8} (h : c ∉ s) (t : List UInt8) : cut c (s ++ c :: t) = (s, t) := by
  unfold cut
  rw [takeWhile_char h, dropWhile_char h, List.tail_cons]

/-- A field with a space in front of its value. -/
theorem fieldOf_append {name value : List UInt8} (hname : 58 ∉ name) (hvalue : 32 ∉ value) :
    fieldOf (name ++ 58 :: 32 :: value) = (name.map lower, value) := by
  unfold fieldOf
  rw [cut_append hname]
  refine congrArg (Prod.mk _) ?_
  show List.dropWhile (fun c => decide (c = 32)) (32 :: value) = value
  rw [List.dropWhile_cons_of_pos (by decide), List.dropWhile_eq_self_iff]
  intro hl h
  exact hvalue (of_decide_eq_true h ▸ List.getElem_mem hl)

/-- A number is written in digits. -/
theorem decimal_natCast (n : ℕ) :
    parseDigits 0 (decimal n) = some n ∧ decimal n ≠ [] ∧ ∀ c ∈ decimal n, 48 ≤ c ∧ c ≤ 57 := by
  have hc := canonical_decimal n
  obtain ⟨ds, htext, hne, hds, -⟩ := hc.digits
  have hnonneg : ¬(n : ℤ) < 0 := by omega
  rw [if_neg hnonneg, List.nil_append] at htext
  rw [htext]
  refine ⟨?_, hne, hds⟩
  have hparse := hc.parse
  rw [htext] at hparse
  cases ds with
  | nil => exact absurd rfl hne
  | cons c cs =>
    have hminus : c ≠ minusChar := by
      rintro rfl
      exact absurd (hds _ List.mem_cons_self).1 (by decide)
    rw [parseDecimal, if_neg hminus] at hparse
    obtain ⟨m, hm, hmn⟩ := Option.map_eq_some_iff.mp hparse
    rw [hm, Int.ofNat_inj.mp hmn]

end HttpMessage
