import Shoot.Text

/-!
# Parsing a request line

`HTTPParse::parse_header` looks at the first line of a request: the method, the
path, and the version. It keeps one index into the buffer, which each part
moves on by the number of characters it expects to have seen.

It does not accept exactly the request lines. The test for the second method
looks at `buf[1]`, where the `P` of `POST` does not stand, so no `POST` line is
accepted and any other line with a `P` in that place is taken for one; and a
line that is cut short before the version is accepted, since the test of the
protocol is left out when too few bytes remain. `HTTPParse.right_iff` says on
which buffers the answer is right nonetheless.

Reading outside the buffer, or in front of the path, has no meaning in the
language; such a call has no result in the model.
-/

/-- `HTTP_METHOD`. -/
inductive HTTPMethod where
  | POST | GET | HEAD
deriving DecidableEq, Repr

/-- `HTTP_VERSION`. -/
inductive HTTPVersion where
  | HTTP_10 | HTTP_11
deriving DecidableEq, Repr

/-- **An `HTTPParse`.** -/
structure HTTPParse where
  /-- `method_`. -/
  method : HTTPMethod
  /-- `version`. -/
  version : HTTPVersion
  /-- `path_`. -/
  path : List UInt8
  /-- `filename_`. -/
  filename : List UInt8
deriving DecidableEq, Repr

namespace HTTPParse

/-- `buf[0] == 'G' && buf[1] == 'E' && buf[2] == 'T'`, which stops reading at
the first character that differs. -/
def isGet (buf : List UInt8) : Option Bool := do
  let c ← buf[0]?
  if c = 71 then
    let c ← buf[1]?
    if c = 69 then
      let c ← buf[2]?
      return c = 84
    else
      return false
  else
    return false

/-- The path loop: the bytes from `idx` up to a space or to `len`, and the index
it ends with. -/
def scanPath (buf : List UInt8) (len idx : ℕ) (path : List UInt8) :
    Option (List UInt8 × ℕ) :=
  if idx < len then do
    let c ← buf[idx]?
    if c ≠ 32 then
      scanPath buf len (idx + 1) (path ++ [c])
    else
      return (path, idx)
  else
    some (path, idx)
termination_by len - idx

/-- The file name loop, from the end of the path – where `path_` has a NUL –
back to a slash, over the bytes at `path_idx` and before. In front of the first
byte there is nothing to read. -/
def scanFilename (path : List UInt8) (filename : List UInt8) : ℕ → Option (List UInt8)
  | 0 => do
    let c ← (path ++ [0])[0]?
    if c ≠ 47 then none else return filename
  | path_idx + 1 => do
    let c ← (path ++ [0])[path_idx + 1]?
    if c ≠ 47 then scanFilename path (filename ++ [c]) path_idx else return filename

/-- `filename_` after the path was found. -/
def setFilename (path filename : List UInt8) : Option (List UInt8) :=
  if path.isEmpty then some [] else scanFilename path filename path.length

/-- `buf[idx] != 'H' || … || buf[idx + 3] != 'P'`, tested only if `idx + 3` is
in the buffer. -/
def otherProtocol (buf : List UInt8) (len idx : ℕ) : Bool :=
  idx + 3 < len ∧ (buf.drop idx).take 4 ≠ chars "HTTP"

/-- The version, if `idx` is in the buffer. -/
def setVersion (buf : List UInt8) (len idx : ℕ) (version : HTTPVersion) : HTTPVersion :=
  if idx < len then
    if buf[idx]? = some 48 then .HTTP_10 else .HTTP_11
  else
    version

/-- What `parse_header` does when the method is known, from the index behind
it. The index is an `int`, and can only grow out of its range when it is within
seven of the length, with no room for a version behind the path. -/
def parseLine (p : HTTPParse) (method : HTTPMethod) (buf : List UInt8) (len idx : ℕ) :
    Option (Bool × HTTPParse) := do
  let (path, idx) ← scanPath buf len idx []
  let filename ← setFilename path p.filename
  let idx := idx + 1
  if otherProtocol buf len idx then
    return (false, { p with method := method, path := path, filename := filename })
  let idx := idx + 7
  return (true, { method := method, version := setVersion buf len idx p.version,
                  path := path, filename := filename })

/-- **`parse_header(buf, len)`**: what it returns, and the parser after it. -/
def parseHeader (p : HTTPParse) (buf : List UInt8) (len : ℕ) : Option (Bool × HTTPParse) := do
  let idx := 1
  if ← isGet buf then
    p.parseLine .GET buf len (idx + 3)
  else
    let c ← buf[idx]?
    if c = 80 then
      p.parseLine .POST buf len (idx + 4)
    else
      return (false, p)

/-! ## Request lines -/

/-- The name of a method in a request. -/
def methodName : HTTPMethod → List UInt8
  | .POST => chars "POST"
  | .GET => chars "GET"
  | .HEAD => chars "HEAD"

/-- **The bytes begin with a request line** of a method: the method, a space, a
path, a space, and `HTTP/1.0` or `HTTP/1.1`. -/
def RequestLine (method : HTTPMethod) (bytes : List UInt8) : Prop :=
  ∃ path d rest, (path.head? = some 47 ∧ (32 : UInt8) ∉ path) ∧ (d = 48 ∨ d = 49)
    ∧ bytes = methodName method ++ [32] ++ path ++ [32] ++ chars "HTTP/1." ++ [d] ++ rest

/-- **`parse_header` is right about a buffer**: it has a result, accepts exactly
if the buffer begins with a request line of `GET` or `POST`, and then knows
which of them it is. -/
def Right (p : HTTPParse) (buf : List UInt8) (len : ℕ) : Prop :=
  ∃ r p', p.parseHeader buf len = some (r, p')
    ∧ (r = true ↔ ∃ method, (method = .GET ∨ method = .POST)
        ∧ RequestLine method (buf.take len))
    ∧ ∀ method, r = true → RequestLine method (buf.take len) → p'.method = method

/-- The path that `parse_header` finds behind the index. -/
def pathAt (buf : List UInt8) (len idx : ℕ) : List UInt8 :=
  ((buf.take len).drop idx).takeWhile fun c => c ≠ 32

/-- The loop for the file name ends: there is a slash to stop at, or no path. -/
def HasSlash (path : List UInt8) : Prop := path = [] ∨ 47 ∈ path

/-- The line behind the method is turned down for its protocol. -/
def Rejects (buf : List UInt8) (len idx : ℕ) : Prop :=
  HasSlash (pathAt buf len idx)
    ∧ otherProtocol buf len (idx + (pathAt buf len idx).length + 1) = true

/-- **The buffers `parse_header` is right about.** One that starts with `GET` is
a request line or is turned down for its protocol; in any other, the second
byte is there to be read, and the third one behind `GE`; one whose second byte
is a `P` is turned down for its protocol; and the rest are not `POST` lines. -/
def Suits (buf : List UInt8) (len : ℕ) : Prop :=
  if buf.take 3 = chars "GET" then
    RequestLine .GET (buf.take len) ∨ Rejects buf len 4
  else
    (2 ≤ buf.length ∧ buf ≠ chars "GE")
      ∧ if buf[1]? = some 80 then Rejects buf len 5 else ¬ RequestLine .POST (buf.take len)

/-! ## What the loops find -/

section Loops

variable {buf path filename : List UInt8} {len idx : ℕ} {p p' : HTTPParse} {r : Bool}
  {method : HTTPMethod}

/-- The path begins with the byte at the index, if that is not a space. -/
theorem pathAt_of_getElem? {c : UInt8} (hi : idx < len) (hc : buf[idx]? = some c) :
    pathAt buf len idx = if c ≠ 32 then c :: pathAt buf len (idx + 1) else [] := by
  have hdrop : (buf.take len).drop idx = c :: (buf.take len).drop (idx + 1) := by
    refine List.drop_eq_getElem?_toList_append.trans ?_
    rw [List.getElem?_take_of_lt hi, hc]
    rfl
  unfold pathAt
  rw [hdrop, List.takeWhile_cons]
  split <;> simp_all

/-- There is no path at or behind the length. -/
theorem pathAt_of_le (hi : len ≤ idx) : pathAt buf len idx = [] := by
  unfold pathAt
  rw [List.drop_eq_nil_of_le (Nat.le_trans (List.length_take_le _ _) hi)]
  rfl

/-- **The path loop finds the bytes up to the next space.** -/
theorem scanPath_eq (hlen : len ≤ buf.length) (idx : ℕ) (path : List UInt8) :
    scanPath buf len idx path
      = some (path ++ pathAt buf len idx, idx + (pathAt buf len idx).length) := by
  induction idx, path using scanPath.induct len with
  | case1 idx path hi ih =>
    have hc : buf[idx]? = some buf[idx] := List.getElem?_eq_getElem (by omega)
    rw [scanPath, if_pos hi, hc, pathAt_of_getElem? hi hc]
    by_cases hsp : buf[idx] ≠ 32
    · simp only [Option.bind_eq_bind, Option.bind_some, if_pos hsp, ih, List.length_cons,
        List.append_assoc, List.singleton_append]
      rw [Nat.add_assoc, Nat.add_comm 1]
    · simp only [Option.bind_eq_bind, Option.bind_some, if_neg hsp, List.append_nil]
      rfl
  | case2 idx path hi =>
    rw [scanPath, if_neg hi, pathAt_of_le (Nat.not_lt.mp hi), List.append_nil]
    rfl

/-- Each position the file name loop gets to can be read, the NUL behind the path
included. -/
theorem exists_getElem?_terminated {i : ℕ} (hi : i ≤ path.length) :
    ∃ c, (path ++ [0])[i]? = some c := by
  refine ⟨_, List.getElem?_eq_getElem ?_⟩
  rw [List.length_append, List.length_singleton]
  omega

/-- **The file name loop ends at a slash**, if there is one at or before its
index. -/
theorem isSome_scanFilename {i : ℕ} (hi : i ≤ path.length) (filename : List UInt8) :
    (scanFilename path filename i).isSome = true ↔ 47 ∈ (path ++ [0]).take (i + 1) := by
  induction i generalizing filename with
  | zero =>
    obtain ⟨c, hc⟩ := exists_getElem?_terminated hi
    rw [scanFilename, List.take_add_one, hc]
    by_cases hslash : c = 47
    · simp [hslash]
    · simp [hslash, Ne.symm hslash]
  | succ i ih =>
    obtain ⟨c, hc⟩ := exists_getElem?_terminated hi
    rw [scanFilename, List.take_add_one, hc, List.mem_append]
    by_cases hslash : c = 47
    · simp [hslash]
    · simp [hslash, Ne.symm hslash, ih (Nat.le_of_succ_le hi)]

/-- The file name is found exactly if the path is empty or has a slash. -/
theorem isSome_setFilename (path filename : List UInt8) :
    (setFilename path filename).isSome = true ↔ HasSlash path := by
  unfold setFilename HasSlash
  cases path with
  | nil => simp
  | cons c path =>
    rw [List.isEmpty_cons, if_neg Bool.false_ne_true, isSome_scanFilename (Nat.le_refl _),
      List.take_of_length_le (by simp)]
    simp

/-- **What `parse_header` does behind the method**: it has a result if the path
is empty or has a slash, keeps the method, and turns the line down exactly for
its protocol. -/
theorem parseLine_eq_some_iff (p : HTTPParse) (method : HTTPMethod) (hlen : len ≤ buf.length) :
    (∃ p', p.parseLine method buf len idx = some (r, p'))
      ↔ HasSlash (pathAt buf len idx)
        ∧ (r = false ↔ otherProtocol buf len (idx + (pathAt buf len idx).length + 1) = true) := by
  rw [← isSome_setFilename _ p.filename, Option.isSome_iff_exists]
  unfold parseLine
  rw [scanPath_eq hlen]
  simp only [Option.bind_eq_bind, Option.bind_some, List.nil_append]
  cases setFilename (pathAt buf len idx) p.filename with
  | none => simp
  | some filename =>
    cases r <;> split <;> simp_all

/-- The method is the one that was found before. -/
theorem method_of_parseLine (h : p.parseLine method buf len idx = some (r, p')) :
    p'.method = method := by
  obtain ⟨⟨path, idx⟩, -, h⟩ := Option.bind_eq_some_iff.mp h
  obtain ⟨filename, -, h⟩ := Option.bind_eq_some_iff.mp h
  simp only at h
  split at h
  · cases h
    rfl
  · cases h
    rfl

end Loops

/-! ## Buffers that begin with a request line -/

section RequestLine

variable {buf : List UInt8} {len : ℕ} {p p' : HTTPParse} {method : HTTPMethod}

/-- The buffer begins with the method and a space. -/
theorem RequestLine.eq_append (h : RequestLine method (buf.take len)) :
    ∃ rest, buf = methodName method ++ 32 :: rest := by
  obtain ⟨path, d, rest, -, -, hb⟩ := h
  refine ⟨path ++ [32] ++ chars "HTTP/1." ++ [d] ++ rest ++ buf.drop len, ?_⟩
  calc buf = buf.take len ++ buf.drop len := (List.take_append_drop len buf).symm
    _ = _ := by
      rw [hb]
      simp only [List.append_assoc, List.cons_append, List.nil_append]

theorem RequestLine.take_three (h : RequestLine method (buf.take len)) :
    buf.take 3 = (methodName method).take 3 := by
  obtain ⟨rest, hb⟩ := h.eq_append
  rw [hb]
  cases method <;> rfl

theorem RequestLine.second (h : RequestLine method (buf.take len)) :
    buf[1]? = (methodName method)[1]? := by
  obtain ⟨rest, hb⟩ := h.eq_append
  rw [hb]
  cases method <;> rfl

/-- The path of a `GET` line is found. -/
theorem pathAt_get {path rest : List UInt8} (hsp : (32 : UInt8) ∉ path)
    (hb : buf.take len = methodName .GET ++ [32] ++ path ++ [32] ++ rest) :
    pathAt buf len 4 = path := by
  have hdrop : (buf.take len).drop 4 = path ++ 32 :: rest := by
    rw [hb]
    simp [methodName, chars]
  unfold pathAt
  rw [hdrop, List.takeWhile_append_of_pos fun c hc => ?_]
  · simp
  · exact decide_eq_true fun h => hsp (h ▸ hc)

/-- A `GET` line is accepted. -/
theorem RequestLine.not_rejected (h : RequestLine .GET (buf.take len)) :
    HasSlash (pathAt buf len 4)
      ∧ otherProtocol buf len (4 + (pathAt buf len 4).length + 1) = false := by
  obtain ⟨path, d, rest, ⟨hhead, hsp⟩, -, hb⟩ := h
  have hline : buf.take len
      = (methodName .GET ++ [32] ++ path ++ [32]) ++ (chars "HTTP/1." ++ [d] ++ rest) := by
    rw [hb]
    simp only [List.append_assoc]
  rw [pathAt_get hsp hline]
  refine ⟨Or.inr (List.mem_of_head? hhead), decide_eq_false fun hother => hother.2 ?_⟩
  have hbuf : buf = (methodName .GET ++ [32] ++ path ++ [32])
      ++ (chars "HTTP/1." ++ [d] ++ rest ++ buf.drop len) := by
    calc buf = buf.take len ++ buf.drop len := (List.take_append_drop len buf).symm
      _ = _ := by rw [hline, List.append_assoc (methodName .GET ++ [32] ++ path ++ [32])]
  rw [hbuf, List.drop_left' (by simp [methodName, chars]; omega)]
  rfl

end RequestLine

/-! ## Where the answer is right -/

section Right

variable {buf : List UInt8} {len : ℕ} {p p' : HTTPParse}

/-- The test for `GET` reads what it needs exactly if the buffer is not a
beginning of `GET`, and then says whether the buffer starts with it. -/
theorem isGet_eq_some_iff {r : Bool} :
    isGet buf = some r ↔ (buf ≠ [] ∧ buf ≠ chars "G" ∧ buf ≠ chars "GE")
      ∧ (r = true ↔ buf.take 3 = chars "GET") := by
  have hG : chars "G" = [71] := rfl
  have hGE : chars "GE" = [71, 69] := rfl
  have hGET : chars "GET" = [71, 69, 84] := rfl
  rw [hG, hGE, hGET]
  -- by how many of the three bytes the buffer has
  rcases buf with _ | ⟨c₀, _ | ⟨c₁, _ | ⟨c₂, rest⟩⟩⟩
  · simp [isGet]
  · by_cases h₀ : c₀ = 71 <;> cases r <;> simp [isGet, h₀]
  · by_cases h₀ : c₀ = 71 <;> by_cases h₁ : c₁ = 69 <;> cases r <;> simp [isGet, h₀, h₁]
  · by_cases h₀ : c₀ = 71 <;> by_cases h₁ : c₁ = 69 <;> by_cases h₂ : c₂ = 84 <;>
      cases r <;> simp [isGet, h₀, h₁, h₂]

/-- The test finds a `GET`. -/
theorem isGet_get (h : buf.take 3 = chars "GET") : isGet buf = some true := by
  have hlong : ∀ bytes : List UInt8, bytes.length < 3 → buf ≠ bytes := by
    rintro bytes hb rfl
    have := congrArg List.length h
    rw [List.length_take] at this
    simp [chars] at this
    omega
  exact isGet_eq_some_iff.mpr
    ⟨⟨hlong _ (by decide), hlong _ (by decide), hlong _ (by decide)⟩, iff_of_true rfl h⟩

/-- The test finds no `GET` in a buffer that is long enough to see it. -/
theorem isGet_other (hread : 2 ≤ buf.length ∧ buf ≠ chars "GE")
    (h : buf.take 3 ≠ chars "GET") : isGet buf = some false := by
  have hlong : ∀ bytes : List UInt8, bytes.length < 2 → buf ≠ bytes := by
    rintro bytes hb rfl
    omega
  exact isGet_eq_some_iff.mpr
    ⟨⟨hlong _ (by decide), hlong _ (by decide), hread.2⟩, iff_of_false Bool.false_ne_true h⟩

/-- A line behind its method is answered rightly where it is a request line of
that method, or is turned down. -/
theorem right_parseLine (method : HTTPMethod) (hlen : len ≤ buf.length) {idx : ℕ}
    (hp : p.parseHeader buf len = p.parseLine method buf len idx)
    (hacc : RequestLine method (buf.take len) → HasSlash (pathAt buf len idx)
      ∧ otherProtocol buf len (idx + (pathAt buf len idx).length + 1) = false)
    (hm : method = .GET ∨ method = .POST)
    (hother : ∀ m, RequestLine m (buf.take len) → m = method) :
    Right p buf len ↔ RequestLine method (buf.take len) ∨ Rejects buf len idx := by
  constructor
  · rintro ⟨r, p', hr, hiff, -⟩
    obtain ⟨hslash, hrej⟩ := (parseLine_eq_some_iff p method hlen).mp ⟨p', hp ▸ hr⟩
    cases r with
    | true =>
      obtain ⟨m, -, hline⟩ := hiff.mp rfl
      exact Or.inl (hother m hline ▸ hline)
    | false => exact Or.inr ⟨hslash, hrej.mp rfl⟩
  · rintro (hline | ⟨hslash, hrej⟩)
    · obtain ⟨hslash, hacc⟩ := hacc hline
      obtain ⟨p', hr⟩ := (parseLine_eq_some_iff (r := true) p method hlen).mpr
        ⟨hslash, iff_of_false (fun h => by cases h) (by rw [hacc]; exact Bool.false_ne_true)⟩
      refine ⟨true, p', hp.trans hr, iff_of_true rfl ⟨method, hm, hline⟩, fun m _ hm' => ?_⟩
      rw [method_of_parseLine hr, hother m hm']
    · obtain ⟨p', hr⟩ := (parseLine_eq_some_iff (r := false) p method hlen).mpr
        ⟨hslash, iff_of_true rfl hrej⟩
      refine ⟨false, p', hp.trans hr, iff_of_false (fun h => by cases h) ?_, fun m h => by cases h⟩
      rintro ⟨m, -, hline⟩
      rw [(hacc (hother m hline ▸ hline)).2] at hrej
      cases hrej

/-- **`parse_header` is right about exactly the buffers that suit it.** For
every parser, buffer and length: it accepts exactly the buffers that begin with
a `GET` or `POST` line, with the right method, if and only if the buffer starts
with `GET` and is such a line or is turned down for its protocol, or it does
not, can be read as far as the tests go, and with a `P` in the second place is
turned down too and otherwise is no `POST` line. -/
theorem right_iff (p : HTTPParse) {buf : List UInt8} {len : ℕ} (hlen : len ≤ buf.length) :
    Right p buf len ↔ Suits buf len := by
  unfold Suits
  by_cases hget : buf.take 3 = chars "GET"
  · -- the line is taken for a `GET` line
    rw [if_pos hget]
    refine right_parseLine .GET hlen ?_ RequestLine.not_rejected (Or.inl rfl) fun m hm => ?_
    · unfold parseHeader
      rw [isGet_get hget]
      rfl
    · have hname := hm.take_three.symm.trans hget
      revert hname
      cases m <;> decide
  rw [if_neg hget]
  by_cases hread : 2 ≤ buf.length ∧ buf ≠ chars "GE"
  · -- the test for `GET` fails, and the second byte decides
    have hisGet : isGet buf = some false := isGet_other hread hget
    obtain ⟨c, hsecond⟩ : ∃ c, buf[1]? = some c := ⟨_, List.getElem?_eq_getElem hread.1⟩
    rw [and_iff_right hread]
    by_cases hP : buf[1]? = some 80
    · have hnone : ∀ m, ¬ RequestLine m (buf.take len) := by
        intro m hm
        have hc := hP.symm.trans hm.second
        revert hc
        cases m <;> decide
      rw [if_pos hP]
      refine (right_parseLine .POST hlen ?_ (fun h => absurd h (hnone _))
        (Or.inr rfl) fun m hm => absurd hm (hnone m)).trans (or_iff_right (hnone _))
      unfold parseHeader
      rw [hisGet]
      show (buf[1]? >>= fun c => _) = _
      rw [hP]
      rfl
    · have hp : p.parseHeader buf len = some (false, p) := by
        unfold parseHeader
        rw [hisGet]
        show (buf[1]? >>= fun c => _) = _
        rw [hsecond]
        exact if_neg fun hc : c = 80 => hP (hc ▸ hsecond)
      rw [if_neg hP]
      constructor
      · rintro ⟨r, p', hr, hiff, -⟩ hline
        cases hp.symm.trans hr
        exact Bool.false_ne_true (hiff.mpr ⟨.POST, Or.inr rfl, hline⟩)
      · intro hline
        refine ⟨false, p, hp, iff_of_false Bool.false_ne_true ?_, fun m h => by cases h⟩
        rintro ⟨m, hm | hm, h⟩
        · exact hget (hm ▸ h).take_three
        · exact hline (hm ▸ h)
  · -- the tests read behind the end of the buffer
    refine iff_of_false ?_ fun h => hread h.1
    rintro ⟨r, p', hr, -, -⟩
    obtain ⟨b, hb, hr⟩ := Option.bind_eq_some_iff.mp hr
    obtain ⟨⟨-, -, hGE⟩, hbget⟩ := isGet_eq_some_iff.mp hb
    rw [if_neg fun h => hget (hbget.mp h)] at hr
    obtain ⟨c, hc, -⟩ := Option.bind_eq_some_iff.mp hr
    exact hread ⟨(List.getElem?_eq_some_iff.mp hc).1, hGE⟩

/-- The answer about a `GET` line is right. -/
theorem right_iff_get :
    Right ⟨.POST, .HTTP_10, [], []⟩ (chars "GET / HTTP/1.1\r\n") 16 := by
  refine (right_iff _ (by decide)).mpr ?_
  unfold Suits
  rw [if_pos (by decide)]
  exact Or.inl ⟨[47], 49, [13, 10], ⟨rfl, by decide⟩, Or.inr rfl, rfl⟩

/-- **A `POST` line is turned down**: the second byte is an `O`. -/
theorem post_refused :
    RequestLine .POST ((chars "POST / HTTP/1.1\r\n").take 17)
      ∧ parseHeader ⟨.GET, .HTTP_10, [], []⟩ (chars "POST / HTTP/1.1\r\n") 17
          = some (false, ⟨.GET, .HTTP_10, [], []⟩)
      ∧ ¬ Right ⟨.GET, .HTTP_10, [], []⟩ (chars "POST / HTTP/1.1\r\n") 17 := by
  have hline : RequestLine .POST ((chars "POST / HTTP/1.1\r\n").take 17) :=
    ⟨[47], 49, [13, 10], ⟨rfl, by decide⟩, Or.inr rfl, rfl⟩
  have hrun : parseHeader ⟨.GET, .HTTP_10, [], []⟩ (chars "POST / HTTP/1.1\r\n") 17
      = some (false, ⟨.GET, .HTTP_10, [], []⟩) := rfl
  refine ⟨hline, hrun, ?_⟩
  rintro ⟨r, p', hr, hiff, -⟩
  cases hrun.symm.trans hr
  exact Bool.false_ne_true (hiff.mpr ⟨.POST, Or.inr rfl, hline⟩)

end Right

end HTTPParse
