import Shoot.HTTPParse
import Shoot.Machine

/-!
# Where the parser reads

`parse_header` takes its bytes from the network. This module follows its index
as the `int` it is, and each byte it looks at: growing past the range of an
`int` has no meaning in the language, just as reading outside the buffer or in
front of the path, and such a call has no result
(`HTTPParse.parseHeaderInt`). As long as the index stays in its range, this is
the parser of `HTTPParse.parseHeader` (`HTTPParse.parseHeaderInt_eq`).

The first bytes are read before any test of the length, and the loop for the
file name stops at a slash only. So the parser stays inside exactly those
buffers that have two bytes, or three where `GE` comes first, and where the path
behind the method is empty or has a slash (`HTTPParse.in_bounds_iff`).

On the lines it is made for it does what they say: the path and the version of
a `GET` line are found, whatever the path (`HTTPParse.decodes_get`). But the
file name is never the one in the line. The loop starts at the NUL behind the
path, collects the bytes from the back, and adds them to what earlier calls have
left in `filename_` (`HTTPParse.filename_never`).
-/

namespace HTTPParse

/-- `idx += k`, for an index that is an `int`. -/
def intAdd (idx k : ℕ) : Option ℕ := if idx + k < 2 ^ 31 then some (idx + k) else none

/-- `buf[idx] != 'H' || … || buf[idx + 3] != 'P'`, which stops reading at the
first character that differs. -/
def readProtocol (buf : List UInt8) (idx : ℕ) : Option Bool := do
  let c ← buf[idx]?
  if c ≠ 72 then
    return true
  let c ← buf[idx + 1]?
  if c ≠ 84 then
    return true
  let c ← buf[idx + 2]?
  if c ≠ 84 then
    return true
  let c ← buf[idx + 3]?
  return c ≠ 80

/-- The test of the protocol, made only if `idx + 3` is below `len`. -/
def readOther (buf : List UInt8) (len idx : ℕ) : Option Bool := do
  let last ← intAdd idx 3
  if last < len then readProtocol buf idx else some false

/-- The version, read only if `idx` is below `len`. -/
def readVersion (buf : List UInt8) (len idx : ℕ) (version : HTTPVersion) :
    Option HTTPVersion := do
  if idx < len then
    let c ← buf[idx]?
    return if c = 48 then .HTTP_10 else .HTTP_11
  else
    return version

/-- What `parse_header` does when the method is known, with each byte it reads.
The path loop counts up to `len`, which is an `int`. -/
def parseLineInt (p : HTTPParse) (method : HTTPMethod) (buf : List UInt8) (len idx : ℕ) :
    Option (Bool × HTTPParse) := do
  let (path, idx) ← scanPath buf len idx []
  let filename ← setFilename path p.filename
  let idx ← intAdd idx 1
  if ← readOther buf len idx then
    return (false, { p with method := method, path := path, filename := filename })
  let idx ← intAdd idx 7
  let version ← readVersion buf len idx p.version
  return (true, { method := method, version := version, path := path, filename := filename })

/-- **`parse_header(buf, len)`**, with each byte it reads: what it returns, and
the parser after it. -/
def parseHeaderInt (p : HTTPParse) (buf : List UInt8) (len : ℕ) :
    Option (Bool × HTTPParse) := do
  let idx := 1
  if ← isGet buf then
    p.parseLineInt .GET buf len (idx + 3)
  else
    let c ← buf[idx]?
    if c = 80 then
      p.parseLineInt .POST buf len (idx + 4)
    else
      return (false, p)

/-- The index stays in its range behind the path: the line is turned down for
its protocol before the version is looked for, or there is room to look. -/
def IndexFits (buf : List UInt8) (len idx : ℕ) : Prop :=
  otherProtocol buf len (idx + (pathAt buf len idx).length + 1) = true
    ∨ idx + (pathAt buf len idx).length + 8 < 2 ^ 31

instance (buf : List UInt8) (len idx : ℕ) : Decidable (IndexFits buf len idx) :=
  inferInstanceAs (Decidable (_ ∨ _))

section Reads

variable {buf path filename : List UInt8} {len idx : ℕ} {p : HTTPParse} {method : HTTPMethod}

/-- Four bytes that are in the buffer are read one after the other. -/
theorem readProtocol_eq (h : idx + 3 < buf.length) :
    readProtocol buf idx = some (decide ((buf.drop idx).take 4 ≠ chars "HTTP")) := by
  have hbytes : (buf.drop idx).take 4
      = [buf[idx], buf[idx + 1], buf[idx + 2], buf[idx + 3]] := by
    rw [List.drop_eq_getElem_cons (by omega), List.drop_eq_getElem_cons (by omega),
      List.drop_eq_getElem_cons (by omega), List.drop_eq_getElem_cons h]
    rfl
  have hHTTP : chars "HTTP" = [72, 84, 84, 80] := rfl
  unfold readProtocol
  rw [hbytes, hHTTP, List.getElem?_eq_getElem (by omega), List.getElem?_eq_getElem (by omega),
    List.getElem?_eq_getElem (by omega), List.getElem?_eq_getElem h]
  by_cases h₀ : buf[idx] = 72 <;> by_cases h₁ : buf[idx + 1] = 84 <;>
    by_cases h₂ : buf[idx + 2] = 84 <;> simp [h₀, h₁, h₂]

/-- The test of the protocol reads inside the buffer. -/
theorem readOther_eq (hlen : len ≤ buf.length) (h : idx + 3 < 2 ^ 31) :
    readOther buf len idx = some (otherProtocol buf len idx) := by
  unfold readOther intAdd otherProtocol
  rw [if_pos h, Option.bind_eq_bind, Option.bind_some]
  by_cases hroom : idx + 3 < len
  · rw [if_pos hroom, readProtocol_eq (Nat.lt_of_lt_of_le hroom hlen)]
    simp [hroom]
  · rw [if_neg hroom]
    simp [hroom]

/-- The version is read inside the buffer. -/
theorem readVersion_eq (hlen : len ≤ buf.length) (version : HTTPVersion) :
    readVersion buf len idx version = some (setVersion buf len idx version) := by
  unfold readVersion setVersion
  by_cases h : idx < len
  · rw [if_pos h, if_pos h, List.getElem?_eq_getElem (Nat.lt_of_lt_of_le h hlen)]
    simp
  · rw [if_neg h, if_neg h]
    rfl

theorem intAdd_of_lt {k : ℕ} (h : idx + k < 2 ^ 31) : intAdd idx k = some (idx + k) := if_pos h

theorem intAdd_of_le {k : ℕ} (h : 2 ^ 31 ≤ idx + k) : intAdd idx k = none :=
  if_neg (Nat.not_lt.mpr h)

theorem readOther_of_le (h : 2 ^ 31 ≤ idx + 3) : readOther buf len idx = none := by
  unfold readOther
  rw [intAdd_of_le h]
  rfl

/-- **While the index stays in its range**, the line behind the method is parsed
as if it had none. -/
theorem parseLineInt_eq (hlen : len ≤ buf.length) (hint : len < 2 ^ 31) :
    p.parseLineInt method buf len idx
      = if IndexFits buf len idx then p.parseLine method buf len idx else none := by
  unfold parseLineInt parseLine IndexFits
  rw [scanPath_eq hlen]
  simp only [Option.bind_eq_bind, Option.bind_some, List.nil_append]
  generalize idx + (pathAt buf len idx).length = e
  cases setFilename (pathAt buf len idx) p.filename with
  | none => simp
  | some filename =>
    simp only [Option.bind_some]
    by_cases hother : otherProtocol buf len (e + 1) = true
    · -- four bytes are there, so the index is below the length
      have hroom : e + 1 + 3 < len := (of_decide_eq_true hother).1
      rw [intAdd_of_lt (by omega), Option.bind_some, readOther_eq hlen (by omega),
        Option.bind_some, if_pos hother, if_pos (Or.inl hother), if_pos hother]
    · rw [if_neg hother]
      by_cases hfits : e + 8 < 2 ^ 31
      · rw [if_pos (Or.inr hfits), intAdd_of_lt (by omega), Option.bind_some,
          readOther_eq hlen (by omega), Option.bind_some, if_neg hother,
          intAdd_of_lt (by omega), Option.bind_some, readVersion_eq hlen, Option.bind_some]
      · -- one of the three additions leaves the range
        rw [if_neg (not_or.mpr ⟨hother, hfits⟩)]
        by_cases h₁ : e + 1 < 2 ^ 31
        · rw [intAdd_of_lt h₁, Option.bind_some]
          by_cases h₃ : e + 1 + 3 < 2 ^ 31
          · rw [readOther_eq hlen h₃, Option.bind_some, if_neg hother,
              intAdd_of_le (by omega), Option.bind_none]
          · rw [readOther_of_le (Nat.not_lt.mp h₃), Option.bind_none]
        · rw [intAdd_of_le (Nat.not_lt.mp h₁), Option.bind_none]

/-- **A line is read without leaving its buffers** if the path is empty or has
a slash, and the index stays in its range. -/
theorem exists_parseLineInt (hlen : len ≤ buf.length) (hint : len < 2 ^ 31) :
    (∃ res, p.parseLineInt method buf len idx = some res)
      ↔ HasSlash (pathAt buf len idx) ∧ IndexFits buf len idx := by
  rw [parseLineInt_eq hlen hint]
  by_cases hfits : IndexFits buf len idx
  · rw [if_pos hfits, and_iff_left hfits]
    constructor
    · rintro ⟨⟨r, p'⟩, hr⟩
      exact ((parseLine_eq_some_iff p method hlen).mp ⟨p', hr⟩).1
    · intro hslash
      have hres : ∃ p', p.parseLine method buf len idx
          = some (!otherProtocol buf len (idx + (pathAt buf len idx).length + 1), p') :=
        (parseLine_eq_some_iff p method hlen).mpr ⟨hslash, Iff.of_eq (Bool.not_eq_false' _)⟩
      obtain ⟨p', hr⟩ := hres
      exact ⟨_, hr⟩
  · rw [if_neg hfits]
    simp [hfits]

theorem parseHeaderInt_get (h : buf.take 3 = chars "GET") :
    p.parseHeaderInt buf len = p.parseLineInt .GET buf len 4 := by
  unfold parseHeaderInt
  rw [isGet_get h]
  rfl

theorem parseHeaderInt_other (hread : 2 ≤ buf.length ∧ buf ≠ chars "GE")
    (h : buf.take 3 ≠ chars "GET") :
    p.parseHeaderInt buf len
      = if buf[1]? = some 80 then p.parseLineInt .POST buf len 5 else some (false, p) := by
  unfold parseHeaderInt
  rw [isGet_other hread h, Option.bind_eq_bind, Option.bind_some, if_neg Bool.false_ne_true]
  show (buf[1]? >>= fun c => _) = _
  rw [List.getElem?_eq_getElem hread.1, Option.bind_eq_bind, Option.bind_some]
  simp only [Option.some.injEq]
  rfl

end Reads

/-! ## Staying inside the buffers -/

/-- The line behind the method is read without leaving the buffers. -/
def LineReadable (buf : List UInt8) (idx : ℕ) : Prop :=
  HasSlash (pathAt buf buf.length idx) ∧ IndexFits buf buf.length idx

/-- **The buffers `parse_header` stays inside.** If one starts with `GET`, the
line behind it is read to its end. In any other, the second byte is there, and
the third one behind `GE`; and if the second is a `P`, the line behind it is
read to its end. -/
def Readable (buf : List UInt8) : Prop :=
  if buf.take 3 = chars "GET" then
    LineReadable buf 4
  else
    (2 ≤ buf.length ∧ buf ≠ chars "GE") ∧ (buf[1]? = some 80 → LineReadable buf 5)

section Bounds

variable {buf : List UInt8}

/-- **`parse_header` returns without leaving its buffers on exactly the readable
ones**, whatever earlier calls have left in the parser. -/
theorem in_bounds_iff (p : HTTPParse) (hint : buf.length < 2 ^ 31) :
    (∃ res, p.parseHeaderInt buf buf.length = some res) ↔ Readable buf := by
  unfold Readable
  by_cases hget : buf.take 3 = chars "GET"
  · rw [if_pos hget, parseHeaderInt_get hget]
    exact exists_parseLineInt (Nat.le_refl _) hint
  rw [if_neg hget]
  by_cases hread : 2 ≤ buf.length ∧ buf ≠ chars "GE"
  · rw [parseHeaderInt_other hread hget, and_iff_right hread]
    by_cases hP : buf[1]? = some 80
    · rw [if_pos hP, forall_prop_of_true hP]
      exact exists_parseLineInt (Nat.le_refl _) hint
    · rw [if_neg hP]
      exact iff_of_true ⟨_, rfl⟩ fun h => absurd h hP
  · -- the tests read behind the end of the buffer
    refine iff_of_false ?_ fun h => hread h.1
    rintro ⟨res, hr⟩
    obtain ⟨b, hb, hr⟩ := Option.bind_eq_some_iff.mp hr
    obtain ⟨⟨-, -, hGE⟩, hbget⟩ := isGet_eq_some_iff.mp hb
    rw [if_neg fun h => hget (hbget.mp h)] at hr
    obtain ⟨c, hc, -⟩ := Option.bind_eq_some_iff.mp hr
    exact hread ⟨(List.getElem?_eq_some_iff.mp hc).1, hGE⟩

/-- The loop for the file name stops at the last slash of the path. -/
theorem in_bounds_iff_slash :
    ∃ res, parseHeaderInt ⟨.POST, .HTTP_10, [], []⟩ (chars "GET /a/b.html HTTP/1.1")
      (chars "GET /a/b.html HTTP/1.1").length = some res :=
  (in_bounds_iff _ (by decide)).mpr
    (by unfold Readable; rw [if_pos (by decide)]; exact ⟨Or.inr (by decide), Or.inr (by decide)⟩)

/-- **A path without a slash**: the loop for the file name reads in front of
it. -/
theorem slash_free_unreadable :
    parseHeaderInt ⟨.POST, .HTTP_10, [], []⟩ (chars "GET index HTTP/1.1")
      (chars "GET index HTTP/1.1").length = none := by
  decide +kernel

end Bounds

/-! ## The lines it is made for -/

/-- A `GET` line: the path, the digit of the version, and what follows. -/
def getLine (path : List UInt8) (d : UInt8) (trailing : List UInt8) : List UInt8 :=
  chars "GET " ++ path ++ chars " HTTP/1." ++ [d] ++ trailing

/-- The part of a path after its last slash. -/
def nameOf (path : List UInt8) : List UInt8 := (path.reverse.takeWhile fun c => c ≠ 47).reverse

section Lines

variable {path trailing : List UInt8} {d : UInt8} {p : HTTPParse}

/-- **What the file name loop collects**: the bytes from its index back to the
slash, added to what was there. -/
theorem scanFilename_eq {i : ℕ} (hi : i ≤ path.length) (hslash : 47 ∈ (path ++ [0]).take (i + 1))
    (filename : List UInt8) :
    scanFilename path filename i
      = some (filename ++ ((path ++ [0]).take (i + 1)).reverse.takeWhile fun c => c ≠ 47) := by
  induction i generalizing filename with
  | zero =>
    obtain ⟨c, hc⟩ := exists_getElem?_terminated hi
    rw [List.take_add_one, hc] at hslash ⊢
    have hc47 : 47 = c := by simpa using hslash
    rw [scanFilename, hc]
    simp [← hc47]
  | succ i ih =>
    obtain ⟨c, hc⟩ := exists_getElem?_terminated hi
    rw [List.take_add_one, hc] at hslash ⊢
    rw [scanFilename, hc]
    by_cases hc47 : c = 47
    · simp [hc47]
    · have hbefore : 47 ∈ (path ++ [0]).take (i + 1) := by
        simpa [Ne.symm hc47] using hslash
      simp [hc47, ih (Nat.le_of_succ_le hi) hbefore]

/-- The file name after a path with a slash: what was there, the NUL behind the
path, and the name backwards. -/
theorem setFilename_eq (hslash : 47 ∈ path) (filename : List UInt8) :
    setFilename path filename = some (filename ++ 0 :: (nameOf path).reverse) := by
  unfold setFilename nameOf
  have hne : path.isEmpty = false := by
    cases path with
    | nil => cases hslash
    | cons c path => rfl
  have hall : (path ++ [0]).take (path.length + 1) = path ++ [0] :=
    List.take_of_length_le (by simp)
  rw [hne, if_neg Bool.false_ne_true, scanFilename_eq (Nat.le_refl _) (by rw [hall]; simp [hslash]),
    hall, List.reverse_append, List.reverse_reverse]
  rfl

/-- **What `parse_header` makes of a `GET` line** whose path has a slash and no
space. -/
theorem parseHeaderInt_getLine (hslash : 47 ∈ path) (hsp : (32 : UInt8) ∉ path)
    (hsize : (getLine path d trailing).length < 2 ^ 31) :
    p.parseHeaderInt (getLine path d trailing) (getLine path d trailing).length
      = some (true, { method := .GET, version := if d = 48 then .HTTP_10 else .HTTP_11,
                      path := path, filename := p.filename ++ 0 :: (nameOf path).reverse }) := by
  have hline : getLine path d trailing
      = (methodName .GET ++ [32] ++ path ++ [32]) ++ (chars "HTTP/1." ++ [d] ++ trailing) := by
    simp [getLine, methodName, chars]
  have hpath : pathAt (getLine path d trailing) (getLine path d trailing).length 4 = path :=
    pathAt_get hsp (List.take_length.trans hline)
  have hdrop : (getLine path d trailing).drop (4 + path.length + 1)
      = chars "HTTP/1." ++ [d] ++ trailing := by
    rw [hline]
    exact List.drop_left' (by simp [methodName, chars]; omega)
  have hother : otherProtocol (getLine path d trailing) (getLine path d trailing).length
      (4 + path.length + 1) = false :=
    decide_eq_false fun h => h.2 (by rw [hdrop]; rfl)
  have hroom : 4 + path.length + 8 < (getLine path d trailing).length := by
    simp [getLine, chars]
    omega
  have hversion : (getLine path d trailing)[4 + path.length + 8]? = some d := by
    calc (getLine path d trailing)[4 + path.length + 8]?
        = ((getLine path d trailing).drop (4 + path.length + 1))[7]? := by rw [List.getElem?_drop]
      _ = some d := by rw [hdrop]; rfl
  have hfits : IndexFits (getLine path d trailing) (getLine path d trailing).length 4 := by
    refine Or.inr ?_
    rw [hpath]
    omega
  rw [parseHeaderInt_get (by simp [getLine, chars]), parseLineInt_eq (Nat.le_refl _) hsize,
    if_pos hfits]
  unfold parseLine
  rw [scanPath_eq (Nat.le_refl _), hpath, Option.bind_eq_bind, Option.bind_some,
    List.nil_append]
  simp only [setFilename_eq hslash, Option.bind_eq_bind, Option.bind_some, hother]
  unfold setVersion
  rw [if_neg Bool.false_ne_true, if_pos hroom, hversion]
  simp

/-- **`parse_header` decodes a `GET` line.** Whatever the path that starts with
a slash and has no space, the digit of the version and the bytes that follow,
and whatever is in the parser before: the line is accepted, the method and the
path are found, and the version is 1.0 exactly for the digit `0`. -/
theorem decodes_get (p : HTTPParse) {path trailing : List UInt8} {d : UInt8}
    (hhead : path.head? = some 47) (hsp : (32 : UInt8) ∉ path)
    (hsize : (getLine path d trailing).length < 2 ^ 31) :
    ∃ p', p.parseHeaderInt (getLine path d trailing) (getLine path d trailing).length
        = some (true, p')
      ∧ p'.method = .GET ∧ p'.path = path ∧ (p'.version = .HTTP_10 ↔ d = 48) := by
  refine ⟨_, parseHeaderInt_getLine (List.mem_of_head? hhead) hsp hsize, rfl, rfl, ?_⟩
  by_cases hd : d = 48
  · simp [hd]
  · simp [hd]

/-- The line a browser sends for its icon. -/
theorem decodes_get_favicon :
    ∃ p', parseHeaderInt ⟨.POST, .HTTP_11, [], []⟩
        (getLine (chars "/favicon.ico") 48 (chars "\r\nHost: a\r\n\r\n"))
        (getLine (chars "/favicon.ico") 48 (chars "\r\nHost: a\r\n\r\n")).length = some (true, p')
      ∧ p'.method = .GET ∧ p'.path = chars "/favicon.ico"
      ∧ (p'.version = .HTTP_10 ↔ (48 : UInt8) = 48) :=
  decodes_get _ rfl (by decide) (by decide)

end Lines

/-! ## The file name -/

/-- **A `GET` line** whose path has a slash, as the bytes of one call of
`parse_header`. -/
structure GetLine where
  path : List UInt8
  d : UInt8
  trailing : List UInt8
  slash_mem : 47 ∈ path
  space_notMem : (32 : UInt8) ∉ path
  digit : d = 48 ∨ d = 49
  size_lt : (getLine path d trailing).length < 2 ^ 31

namespace GetLine

/-- The bytes of the line. -/
def bytes (l : GetLine) : List UInt8 := getLine l.path l.d l.trailing

/-- The name the line asks for. -/
def name (l : GetLine) : List UInt8 := nameOf l.path

end GetLine

/-- **The calls of `parse_header` on one object**, as a machine. A new object has
empty strings. -/
def calls : Machine HTTPParse GetLine where
  init := ⟨.POST, .HTTP_10, [], []⟩
  step p l := (p.parseHeaderInt l.bytes l.bytes.length).map Prod.snd

/-- **One call** finds the path and adds to the file name. -/
theorem calls_step (p : HTTPParse) (l : GetLine) :
    ∃ p', calls.step p l = some p'
      ∧ p'.path = l.path ∧ p'.filename = p.filename ++ 0 :: l.name.reverse := by
  have hr := parseHeaderInt_getLine (p := p) l.slash_mem l.space_notMem l.size_lt
  exact ⟨_, Option.map_eq_some_iff.mpr ⟨_, hr, rfl⟩, rfl, rfl⟩

/-- **A run of calls** leaves all the names in the file name, each backwards and
behind a NUL. -/
theorem calls_exec (p : HTTPParse) (tr : List GetLine) :
    ∃ p', calls.exec p tr = some p'
      ∧ p'.filename = p.filename ++ tr.flatMap fun l => 0 :: l.name.reverse := by
  induction tr generalizing p with
  | nil => exact ⟨p, rfl, (List.append_nil _).symm⟩
  | cons l tr ih =>
    obtain ⟨p₁, hs, -, hf⟩ := calls_step p l
    obtain ⟨p', ht, hf'⟩ := ih p₁
    refine ⟨p', by rw [Machine.exec_cons, hs, Option.bind_some, ht], ?_⟩
    rw [hf', hf, List.flatMap_cons, List.append_assoc]

/-- **The file name is never right.** After every call of every sequence of calls
on one object, each on a `GET` line whose path has a slash, the path is the one
of the last call, and the file name is not the name in it: it has all the names
so far, backwards. -/
theorem filename_never (p : HTTPParse) (tr : List GetLine) (l : GetLine) :
    ∃ p', calls.exec p (tr ++ [l]) = some p' ∧ p'.path = l.path
      ∧ p'.filename = p.filename ++ ((tr ++ [l]).flatMap fun l => 0 :: l.name.reverse)
      ∧ p'.filename ≠ l.name := by
  obtain ⟨p₁, ht, hf⟩ := calls_exec p tr
  obtain ⟨p', hs, hpath, hf'⟩ := calls_step p₁ l
  refine ⟨p', Machine.exec_concat.mpr ⟨p₁, ht, hs⟩, hpath, ?_, fun hname => ?_⟩
  · rw [hf', hf, List.flatMap_append, List.flatMap_singleton, List.append_assoc]
  · -- it is longer than the name, by the NUL at least
    have hlen := congrArg List.length (hf'.symm.trans hname)
    rw [List.length_append, List.length_cons, List.length_reverse] at hlen
    omega

/-- The name `handle_write` compares with is not found on a new object. -/
theorem favicon_not_found :
    ∃ p, calls.exec calls.init
        [⟨chars "/favicon.ico", 49, chars "\r\n", by decide, by decide, by decide, by decide⟩]
          = some p
      ∧ p.filename = 0 :: (chars "favicon.ico").reverse ∧ p.filename ≠ chars "favicon.ico" := by
  refine ⟨⟨.GET, .HTTP_11, chars "/favicon.ico", 0 :: (chars "favicon.ico").reverse⟩, ?_, rfl, ?_⟩
  · decide +kernel
  · decide

end HTTPParse
