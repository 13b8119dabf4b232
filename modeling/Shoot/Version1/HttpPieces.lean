import Mathlib.Data.List.Induction
import Shoot.Version1.Http

/-!
# Requests in pieces

A request may arrive in several pieces, and `http_parse` is written to go on
where it stopped: it keeps what it read, and its stages can answer that they
need more. None of them ever does. `parse_uri` takes whatever it is given for a
whole request line, and where it finds no version, what was read is thrown away
and the next piece is parsed by itself.

So a request is what one piece says: the first one that `parse_uri` accepts, or
the last one if it accepts none. What earlier pieces leave is the method they
named. `HttpExchange.pieces_iff` compares this with the request in one piece, and
where the request line comes whole in the first piece they agree
(`agree_of_line`).
-/

namespace Version1

open CxxString

/-! ## What a request line says -/

namespace RequestText

/-- The text up to a carriage return. -/
def requestLine (str : List UInt8) : List UInt8 := substr str 0 (find str (chars "\r") 0)

/-- Where the line names a method, as an `int`. -/
def wordPos (str word : List UInt8) : ℤ := castInt (find (requestLine str) word 0)

/-- The method the line names. -/
def lineMethod (str : List UInt8) : Option HttpMethod :=
  if wordPos str (chars "GET") ≥ 0 then
    some .get
  else if wordPos str (chars "POST") ≥ 0 then
    some .post
  else
    none

/-- Where the target is looked for. -/
def linePos (str : List UInt8) : ℕ :=
  if wordPos str (chars "GET") ≥ 0 then
    (wordPos str (chars "GET")).toNat
  else if wordPos str (chars "POST") ≥ 0 then
    (wordPos str (chars "POST")).toNat
  else
    find str (chars "\r") 0

/-- The slash before the target. -/
def slashPos (str : List UInt8) : ℕ := find (requestLine str) (chars "/") (linePos str)

/-- The space behind the target. -/
def spacePos (str : List UInt8) : ℕ := find (requestLine str) (chars " ") (slashPos str)

/-- The target, or the one that is used instead of an empty one. -/
def lineUri (str : List UInt8) : List UInt8 :=
  if subSize (spacePos str) (slashPos str) > 1 then
    let uri := substr (requestLine str) (addSize (slashPos str) 1)
      (subSize (subSize (spacePos str) (slashPos str)) 1)
    substr uri 0 (find uri (chars "?") 0)
  else
    chars "index.html"

/-- The version; a line without one is turned down. -/
def lineVersion (str : List UInt8) : Option HttpV :=
  let pos := find (requestLine str) (chars "/") (spacePos str)
  if subSize (requestLine str).length pos ≤ 3 then
    none
  else
    let tmp := substr (requestLine str) (addSize pos 1) 3
    if tmp = chars "1.0" then some .http10 else if tmp = chars "1.1" then some .http11 else none

end RequestText

open RequestText

/-- The method is found as it is named. -/
theorem HttpRequest.parseMethod_eq (r : HttpRequest) (str : List UInt8) :
    r.parseMethod (requestLine str) (find str (chars "\r") 0)
      = (linePos str, { r with method := (lineMethod str).getD r.method }) := by
  unfold HttpRequest.parseMethod linePos lineMethod wordPos
  by_cases hg : castInt (find (requestLine str) (chars "GET") 0) ≥ 0
  · simp only [if_pos hg, Option.getD_some]
  · by_cases hp : castInt (find (requestLine str) (chars "POST") 0) ≥ 0
    · simp only [if_neg hg, if_pos hp, Option.getD_some]
    · simp only [if_neg hg, if_neg hp, Option.getD_none]

/-- The target is stored. -/
theorem HttpRequest.parseTarget_eq (r : HttpRequest) (str : List UInt8) :
    r.parseTarget (requestLine str) (slashPos str) (spacePos str)
      = { r with uri := lineUri str } := by
  unfold HttpRequest.parseTarget lineUri
  simp only [ge_iff_le, Nat.zero_le, if_true]
  split
  · rfl
  · rfl

/-- The version is stored, and decides the answer. -/
theorem HttpRequest.parseVersion_eq (r : HttpRequest) (str : List UInt8) :
    r.parseVersion (requestLine str) (find (requestLine str) (chars "/") (spacePos str))
      = (if lineVersion str = none then .error else .success,
        { r with httpV := (lineVersion str).getD r.httpV }) := by
  unfold HttpRequest.parseVersion lineVersion
  simp only
  split
  · rfl
  · split
    · rfl
    · split
      · rfl
      · rfl

/-- **What `parse_uri` does with a request**: the target is stored in any case,
the method if one is named, and the version if it is there, which decides the
answer. -/
theorem HttpRequest.parseUri_eq (r : HttpRequest) :
    r.parseUri = (if lineVersion r.inbuf = none then .error else .success,
      { r with
        method := (lineMethod r.inbuf).getD r.method
        uri := lineUri r.inbuf
        httpV := (lineVersion r.inbuf).getD r.httpV }) := by
  unfold HttpRequest.parseUri
  simp only [Nat.not_lt_zero, if_false]
  rw [← requestLine, parseMethod_eq]
  simp only
  rw [← slashPos, ← spacePos, parseTarget_eq, parseVersion_eq]

/-! ## What several texts say -/

/-- **A request as it was read so far**: its target, its version once a line had
one, and its method. -/
structure Reading where
  uri : List UInt8
  version : Option HttpV
  method : HttpMethod
deriving DecidableEq, Repr

namespace Reading

/-- Nothing was read. -/
def start : Reading := ⟨[], none, .get⟩

/-- **One more text.** Until there was a version, each text gives the target and
the version anew, and the method if it names one. -/
def next (ρ : Reading) (str : List UInt8) : Reading :=
  if ρ.version = none then
    ⟨lineUri str, lineVersion str, (lineMethod str).getD ρ.method⟩
  else
    ρ

/-- The answer to a request for a target, if there is one. -/
def answer (fs : FileSystem) (uri : List UInt8) : Option (List UInt8) :=
  let r := { HttpRequest.new with uri := uri }.parseAnalysis fs
  if r.1 = .success then some r.2.1.outbuf else none

/-- The paths it is looked for at. -/
def asked (fs : FileSystem) (uri : List UInt8) : List (List UInt8) :=
  ({ HttpRequest.new with uri := uri }.parseAnalysis fs).2.2

/-- The state of a request that was read like this. -/
def state (fs : FileSystem) (ρ : Reading) : HttpState :=
  if ρ.version = none then
    .parseUri
  else if ρ.method = .post then
    .parseBody
  else if (answer fs ρ.uri).isSome then
    .parseFin
  else
    .parseAnalysis

/-- The response to it. -/
def response (fs : FileSystem) (ρ : Reading) : List UInt8 :=
  if ρ.version = none ∨ ρ.method = .post then [] else (answer fs ρ.uri).getD []

/-- A file is looked for. -/
def Serves (ρ : Reading) : Prop :=
  ρ.version ≠ none ∧ ρ.method ≠ .post ∧ ρ.uri ≠ chars "hello" ∧ ρ.uri ≠ chars "favicon.ico"

end Reading

/-- The input is parsed: reading ended with `EAGAIN`, and the count that `read_`
returns as an `int` is not negative. -/
def HttpInput.Parsed (i : HttpInput) : Prop := i.ending = .again ∧ 0 ≤ castInt i.bytes.length

instance (i : HttpInput) : Decidable i.Parsed := inferInstanceAs (Decidable (_ ∧ _))

/-- One more input: the texts that were parsed, and what was read since. -/
def nextText (ts : List (List UInt8) × List UInt8) (i : HttpInput) :
    List (List UInt8) × List UInt8 :=
  if i.Parsed then (ts.1 ++ [ts.2 ++ i.bytes], []) else (ts.1, ts.2 ++ i.bytes)

/-- **The texts `parse_uri` is given**, as long as it accepts none: each input by
itself, or with what came before it and was not parsed. -/
def texts (is : List HttpInput) : List (List UInt8) := (is.foldl nextText ([], [])).1

/-- No byte is lost: the texts and what is not parsed yet are what was read. -/
theorem flatten_texts (is : List HttpInput) :
    (texts is).flatten ++ (is.foldl nextText ([], [])).2 = is.flatMap HttpInput.bytes := by
  unfold texts
  induction is using List.reverseRecOn with
  | nil => rfl
  | append_singleton is i ih =>
    rw [List.foldl_concat, List.flatMap_append, List.flatMap_singleton, ← ih]
    generalize is.foldl nextText ([], []) = ts
    unfold nextText
    split
    · rw [List.flatten_append, List.flatten_singleton, List.append_nil, List.append_assoc]
    · rw [List.append_assoc]

/-- **The request some texts are read as.** -/
def reading (ts : List (List UInt8)) : Reading := ts.foldl Reading.next .start

/-- **The text that decides**: the first one with a version, or the last one. -/
def decidingText : List (List UInt8) → Option (List UInt8)
  | [] => none
  | str :: ts => some (if lineVersion str = none then (decidingText ts).getD str else str)

/-- It is one of them. -/
theorem mem_of_decidingText {ts : List (List UInt8)} {str : List UInt8}
    (h : decidingText ts = some str) : str ∈ ts := by
  induction ts generalizing str with
  | nil => exact absurd h (Option.some_ne_none str).symm
  | cons t ts ih =>
    rw [decidingText, Option.some.injEq] at h
    rw [← h]
    split
    · cases hd : decidingText ts with
      | none => exact List.mem_cons_self
      | some u => exact List.mem_cons_of_mem t (ih hd)
    · exact List.mem_cons_self

/-- The method that was named last when the request is decided. -/
def namedMethod (m : HttpMethod) : List (List UInt8) → HttpMethod
  | [] => m
  | str :: ts =>
    let m := (lineMethod str).getD m
    if lineVersion str = none then namedMethod m ts else m

/-- **The texts say the same**: those that decide name the same target and the
same version, or none, and the methods named up to them agree. -/
structure Agree (ts us : List (List UInt8)) : Prop where
  target : (decidingText ts).elim [] lineUri = (decidingText us).elim [] lineUri
  version : (decidingText ts).bind lineVersion = (decidingText us).bind lineVersion
  method : namedMethod .get ts = namedMethod .get us

/-- Behind a text with a version nothing is read. -/
theorem Reading.foldl_next_of_version {ρ : Reading} (h : ρ.version ≠ none)
    (ts : List (List UInt8)) : ts.foldl next ρ = ρ := by
  induction ts with
  | nil => rfl
  | cons str ts ih => rw [List.foldl_cons, next, if_neg h, ih]

/-- A text that is read, with names for what it says. -/
theorem Reading.next_cases {ρ : Reading} (h : ρ.version = none) (str : List UInt8) :
    ∃ uri version method, lineUri str = uri ∧ lineVersion str = version
      ∧ (lineMethod str).getD ρ.method = method ∧ ρ.next str = ⟨uri, version, method⟩ :=
  ⟨_, _, _, rfl, rfl, rfl, if_pos h⟩

/-- Up to it, each text is read anew. -/
theorem Reading.foldl_next (ts : List (List UInt8)) {ρ : Reading} (h : ρ.version = none) :
    ts.foldl next ρ
      = ⟨(decidingText ts).elim ρ.uri lineUri, (decidingText ts).bind lineVersion,
        namedMethod ρ.method ts⟩ := by
  induction ts generalizing ρ with
  | nil =>
    obtain ⟨uri, version, method⟩ := ρ
    subst h
    rfl
  | cons str ts ih =>
    obtain ⟨uri, version, method, huri, hversion, hmethod, hnext⟩ := next_cases h str
    rw [List.foldl_cons, hnext, decidingText, namedMethod, Option.elim_some, Option.bind_some,
      hversion, hmethod]
    cases version with
    | none =>
      rw [ih rfl, if_pos rfl, if_pos rfl]
      cases decidingText ts with
      | none =>
        rw [Option.elim_none, Option.bind_none, Option.getD_none, huri, hversion]
      | some t =>
        rw [Option.elim_some, Option.bind_some, Option.getD_some]
    | some v =>
      rw [foldl_next_of_version (Option.some_ne_none v), if_neg (Option.some_ne_none v),
        if_neg (Option.some_ne_none v), huri, hversion]

/-- **What texts are read as**, by the one that decides. -/
theorem reading_eq (ts : List (List UInt8)) :
    reading ts
      = ⟨(decidingText ts).elim [] lineUri, (decidingText ts).bind lineVersion,
        namedMethod .get ts⟩ := Reading.foldl_next ts rfl

/-- Texts that say the same are read as the same request. -/
theorem agree_iff {ts us : List (List UInt8)} : Agree ts us ↔ reading ts = reading us := by
  rw [reading_eq, reading_eq, Reading.mk.injEq]
  exact ⟨fun h => ⟨h.target, h.version, h.method⟩, fun h => ⟨h.1, h.2.1, h.2.2⟩⟩

/-- **The request line** is what comes before the carriage return, and everything
if there is none. -/
theorem requestLine_eq {str : List UInt8} (hs : 13 ∈ str ∨ str.length ≤ npos) :
    requestLine str = str.takeWhile fun c => c ≠ 13 := by
  have hcr : chars "\r" = [13] := by decide
  unfold requestLine
  rw [hcr]
  exact substr_find_char hs

/-- What stands behind the line is not looked at. -/
theorem requestLine_append {p : List UInt8} (h : 13 ∈ p) (q : List UInt8) :
    find (p ++ q) (chars "\r") 0 = find p (chars "\r") 0
      ∧ requestLine (p ++ q) = requestLine p := by
  have hcr : chars "\r" = [13] := by decide
  have hq : (13 : UInt8) ∈ p ++ q := List.mem_append_left q h
  constructor
  · rw [hcr, find_char (by rwa [List.drop_zero]), find_char (by rwa [List.drop_zero]),
      List.drop_zero, List.drop_zero, takeWhile_append_of_mem h]
  · rw [requestLine_eq (Or.inl hq), requestLine_eq (Or.inl h), takeWhile_append_of_mem h]

/-- **A whole request line in the first piece decides**, as it does in one piece. -/
theorem agree_of_line {p : List UInt8} (hline : 13 ∈ p) (hv : lineVersion p ≠ none)
    (ps : List (List UInt8)) : Agree (p :: ps) [p ++ ps.flatten] := by
  obtain ⟨hfind, hreq⟩ := requestLine_append hline ps.flatten
  have hword : ∀ word, wordPos (p ++ ps.flatten) word = wordPos p word := fun word => by
    unfold wordPos
    rw [hreq]
  have hpos : linePos (p ++ ps.flatten) = linePos p := by
    unfold linePos
    rw [hword, hword, hfind]
  have hslash : slashPos (p ++ ps.flatten) = slashPos p := by
    unfold slashPos
    rw [hreq, hpos]
  have hspace : spacePos (p ++ ps.flatten) = spacePos p := by
    unfold spacePos
    rw [hreq, hslash]
  have huri : lineUri (p ++ ps.flatten) = lineUri p := by
    unfold lineUri
    rw [hreq, hslash, hspace]
  have hversion : lineVersion (p ++ ps.flatten) = lineVersion p := by
    unfold lineVersion
    rw [hreq, hspace]
  have hmethod : lineMethod (p ++ ps.flatten) = lineMethod p := by
    unfold lineMethod
    rw [hword, hword]
  constructor
  · rw [decidingText, decidingText, decidingText, Option.getD_none, ite_self, if_neg hv,
      Option.elim_some, Option.elim_some, huri]
  · rw [decidingText, decidingText, decidingText, Option.getD_none, ite_self, if_neg hv,
      Option.bind_some, Option.bind_some, hversion]
  · rw [namedMethod, namedMethod, namedMethod, ite_self, if_neg hv, hmethod]

namespace HttpExchange

/-- What a call reads is kept. -/
def push (c : HttpExchange) (bytes : List UInt8) : HttpExchange :=
  { c with request := { c.request with inbuf := c.request.inbuf ++ bytes } }

/-- **What follows `read_`**, whatever writing is: the stages, if the count is not negative,
and the writing, unless the input has ended. -/
theorem write_of_read {α : Type*} (write leave : HttpExchange → α) (stages : Bool × HttpExchange)
    (c : HttpExchange) (readCount : ℤ) (flag : Bool) :
    (let (error, c) :=
        if readCount < 0 then (true, c) else if flag then (true, c) else stages
      if !error then write c else if !flag then write c else leave c)
      = if flag = true then leave c else if 0 ≤ readCount then write stages.2 else write c := by
  cases flag with
  | true =>
    simp only [if_true, ite_self, Bool.not_true, Bool.false_eq_true, if_false]
  | false =>
    by_cases hcount : 0 ≤ readCount
    · simp only [if_neg (not_lt.mpr hcount), if_pos hcount, Bool.false_eq_true, if_false,
        Bool.not_false, if_true, ite_self]
    · simp only [if_pos (not_le.mp hcount), if_neg hcount, Bool.false_eq_true, if_false,
        Bool.not_true, Bool.not_false, if_true]

/-- A call, by the count and the flag of `read_`. -/
theorem httpParse_of_read {fs : FileSystem} {c c' : HttpExchange} {i : HttpInput} {readCount : ℤ}
    {flag : Bool} (h : c.read i = (readCount, flag, c')) :
    httpParse fs c i
      = if flag = true then
          c'
        else if 0 ≤ readCount then
          (process fs c').2.write i.room
        else
          c'.write i.room := by
  unfold httpParse
  rw [h]
  exact write_of_read (fun c => c.write i.room) id (process fs c') c' readCount flag

/-- **A call**, by whether its input is parsed. -/
theorem httpParse_eq (fs : FileSystem) (c : HttpExchange) (i : HttpInput) :
    httpParse fs c i
      = if i.Parsed then
          (process fs (c.push i.bytes)).2.write i.room
        else if i.ending = .closed then
          c.push i.bytes
        else
          (c.push i.bytes).write i.room := by
  cases he : i.ending with
  | again =>
    have hread : c.read i = (castInt i.bytes.length, false, c.push i.bytes) := by
      unfold read
      rw [he, push]
    rw [httpParse_of_read hread]
    by_cases hcount : 0 ≤ castInt i.bytes.length
    · rw [if_neg Bool.false_ne_true, if_pos hcount, if_pos ⟨he, hcount⟩]
    · rw [if_neg Bool.false_ne_true, if_neg hcount, if_neg fun hp => hcount hp.2,
        if_neg (by decide)]
  | closed =>
    have hread : c.read i = (castInt i.bytes.length, true, c.push i.bytes) := by
      unfold read
      rw [he, push]
    have hp : ¬i.Parsed := fun hp => absurd (he.symm.trans hp.1) (by decide)
    rw [httpParse_of_read hread, if_pos rfl, if_neg hp, if_pos rfl]
  | error =>
    have hread : c.read i = (-1, false, c.push i.bytes) := by
      unfold read
      rw [he, push]
    have hp : ¬i.Parsed := fun hp => absurd (he.symm.trans hp.1) (by decide)
    rw [httpParse_of_read hread, if_neg Bool.false_ne_true, if_neg (by decide), if_neg hp,
      if_neg (by decide)]

/-- **The request is what was read.** -/
structure Tracks (fs : FileSystem) (c : HttpExchange) (ρ : Reading) (carry : List UInt8) :
    Prop where
  method_eq : c.request.method = ρ.method
  uri_eq : c.request.uri = ρ.uri
  httpV_eq : c.request.httpV = ρ.version.getD .http10
  inbuf_eq : ρ.version = none → c.request.inbuf = carry
  state_eq : c.request.state = ρ.state fs
  response_eq : c.response = ρ.response fs
  mem_paths : ∀ p, p ∈ c.paths ↔ ρ.Serves ∧ p = cStr ρ.uri

variable {fs : FileSystem} {c : HttpExchange} {ρ : Reading} {carry : List UInt8}

/-- Reading changes `inbuf_` only. -/
theorem Tracks.push (h : Tracks fs c ρ carry) (bytes : List UInt8) :
    Tracks fs (c.push bytes) ρ (carry ++ bytes) :=
  { h with inbuf_eq := fun hv => congrArg (· ++ bytes) (h.inbuf_eq hv) }

/-- Writing moves bytes of the response to the connection. -/
theorem response_write (c : HttpExchange) (room : ℕ) : (c.write room).response = c.response := by
  unfold HttpExchange.write
  split
  · unfold response
    rw [List.append_assoc, List.take_append_drop]
  · rfl

/-- It changes nothing else. -/
theorem Tracks.write (h : Tracks fs c ρ carry) (room : ℕ) : Tracks fs (c.write room) ρ carry := by
  have hresponse := (response_write c room).trans h.response_eq
  unfold HttpExchange.write at hresponse ⊢
  split
  · next hpos =>
    rw [if_pos hpos] at hresponse
    exact { h with response_eq := hresponse }
  · exact h

/-- **`parse_analysis` with nothing to write yet** either answers, or fails and
leaves nothing to write. -/
theorem parseAnalysis_eq (fs : FileSystem) {r : HttpRequest} (h : r.outbuf = []) :
    r.parseAnalysis fs
      = (if (Reading.answer fs r.uri).isSome then .success else .error,
        { r with outbuf := (Reading.answer fs r.uri).getD [] }, Reading.asked fs r.uri) := by
  obtain ⟨uri, httpV, inbuf, outbuf, state, method⟩ := r
  subst h
  unfold Reading.answer Reading.asked HttpRequest.parseAnalysis HttpRequest.new
  simp only
  split
  · rfl
  · split
    · rfl
    · split
      · rfl
      · split
        · split
          · rfl
          · rfl
        · rfl

/-- The one path that is looked for, unless the target is answered without. -/
theorem mem_asked {fs : FileSystem} {uri p : List UInt8} :
    p ∈ Reading.asked fs uri
      ↔ (uri ≠ chars "hello" ∧ uri ≠ chars "favicon.ico") ∧ p = cStr uri := by
  unfold Reading.asked HttpRequest.parseAnalysis HttpRequest.new
  simp only
  split
  · next h => simp [h]
  · next h =>
    split
    · next h' => simp [h']
    · next h' =>
      split
      · simp [h, h']
      · split
        · split
          · simp [h, h']
          · simp [h, h']
        · simp [h, h']

/-- Nothing is due before and after the answer. -/
theorem analyse_of_ne (fs : FileSystem) {c : HttpExchange}
    (h : c.request.state ≠ .parseAnalysis) : (analyse fs c).2 = c := by
  unfold analyse
  rw [if_neg h]

/-- The answer, where it is due. -/
theorem analyse_eq (fs : FileSystem) {c : HttpExchange} (hs : c.request.state = .parseAnalysis)
    (ho : c.request.outbuf = []) :
    (analyse fs c).2
      = { c with
          request := { c.request with
            outbuf := (Reading.answer fs c.request.uri).getD []
            state := if (Reading.answer fs c.request.uri).isSome then
              .parseFin else .parseAnalysis }
          paths := c.paths ++ Reading.asked fs c.request.uri } := by
  unfold analyse
  rw [if_pos hs, parseAnalysis_eq fs ho]
  cases h : (Reading.answer fs c.request.uri).isSome with
  | true =>
    rfl
  | false =>
    simp [← hs]

/-- Nothing was sent and nothing is to be sent. -/
theorem response_eq_nil {c : HttpExchange} :
    c.response = [] ↔ c.sent = [] ∧ c.request.outbuf = [] := List.append_eq_nil_iff

variable {fs : FileSystem} {c : HttpExchange} {ρ : Reading} {carry : List UInt8}

/-- **The answer of an accepted request**, the first time or again. -/
theorem Tracks.analyse (hv : ρ.version ≠ none) (hm : c.request.method = ρ.method)
    (hu : c.request.uri = ρ.uri) (hh : c.request.httpV = ρ.version.getD .http10)
    (hs : c.request.state = if ρ.method = .post then .parseBody else .parseAnalysis)
    (hr : c.response = []) (hp : ∀ p ∈ c.paths, ρ.Serves ∧ p = cStr ρ.uri) :
    Tracks fs (analyse fs c).2 ρ carry := by
  obtain ⟨hsent, hout⟩ := response_eq_nil.mp hr
  by_cases hpost : ρ.method = .post
  · rw [if_pos hpost] at hs
    rw [analyse_of_ne fs (by rw [hs]; decide)]
    have hnone : ∀ p, ¬p ∈ c.paths := fun p h => (hp p h).1.2.1 hpost
    refine ⟨hm, hu, hh, fun h => absurd h hv, ?_, ?_, fun p => ?_⟩
    · rw [hs, Reading.state, if_neg hv, if_pos hpost]
    · rw [hr, Reading.response, if_pos (Or.inr hpost)]
    · exact ⟨fun h => absurd h (hnone p), fun h => absurd hpost h.1.2.1⟩
  · rw [if_neg hpost] at hs
    rw [analyse_eq fs hs hout]
    refine ⟨hm, hu, hh, fun h => absurd h hv, ?_, ?_, fun p => ?_⟩
    · rw [Reading.state, if_neg hv, if_neg hpost, ← hu]
    · show c.sent ++ _ = _
      rw [hsent, List.nil_append, Reading.response, if_neg (not_or.mpr ⟨hv, hpost⟩), ← hu]
    · show p ∈ c.paths ++ _ ↔ _
      rw [List.mem_append, mem_asked, hu]
      constructor
      · rintro (h | h)
        · exact hp p h
        · exact ⟨⟨hv, hpost, h.1⟩, h.2⟩
      · intro h
        exact Or.inr ⟨h.1.2.2, h.2⟩

/-- After the request line, the answer is due at once. -/
theorem header_eq (fs : FileSystem) (c : HttpExchange) :
    header fs c
      = if c.request.state = .parseHeader then
          analyse fs { c with
            request := { c.request with
              state := if c.request.method = .post then .parseBody else .parseAnalysis } }
        else
          analyse fs c := rfl

/-- **A request line** decides the request, if it has a version. -/
theorem Tracks.line (h : Tracks fs c ρ carry) (hv : ρ.version = none) {uri : List UInt8}
    {version : Option HttpV} {method : HttpMethod}
    (hline : c.request.parseUri = (if version = none then .error else .success,
      { c.request with method := method, uri := uri, httpV := version.getD c.request.httpV })) :
    Tracks fs (process fs c).2 ⟨uri, version, method⟩ [] := by
  have hstate : c.request.state = .parseUri := by
    rw [h.state_eq, Reading.state, if_pos hv]
  have hresponse : c.response = [] := by
    rw [h.response_eq, Reading.response, if_pos (Or.inl hv)]
  have hpaths : ∀ p, p ∉ c.paths := fun p hp => ((h.mem_paths p).mp hp).1.1 hv
  unfold HttpExchange.process
  rw [if_pos hstate, hline]
  cases version with
  | none =>
    refine ⟨rfl, rfl, ?_, fun _ => rfl, hstate, hresponse, fun p => ?_⟩
    · show c.request.httpV = _
      rw [h.httpV_eq, hv]
    · exact ⟨fun hp => absurd hp (hpaths p), fun hp => absurd rfl hp.1.1⟩
  | some v =>
    exact Tracks.analyse (Option.some_ne_none v) rfl rfl rfl rfl hresponse
      fun p hp => absurd hp (hpaths p)

/-- **Behind the request line**, only an answer that failed is tried again. -/
theorem Tracks.again (h : Tracks fs c ρ carry) (hv : ρ.version ≠ none) :
    Tracks fs (process fs c).2 ρ [] := by
  have hstate := h.state_eq
  rw [Reading.state, if_neg hv] at hstate
  unfold HttpExchange.process
  by_cases hdue : ρ.method ≠ .post ∧ Reading.answer fs ρ.uri = none
  · rw [if_neg hdue.1, hdue.2, Option.isSome_none, if_neg Bool.false_ne_true] at hstate
    have hresponse : c.response = [] := by
      rw [h.response_eq, Reading.response, if_neg (not_or.mpr ⟨hv, hdue.1⟩), hdue.2,
        Option.getD_none]
    rw [if_neg (by rw [hstate]; decide), header_eq, if_neg (by rw [hstate]; decide)]
    refine Tracks.analyse hv h.method_eq h.uri_eq h.httpV_eq ?_ hresponse
      fun p => (h.mem_paths p).mp
    rw [hstate, if_neg hdue.1]
  · have hover : c.request.state = .parseBody ∨ c.request.state = .parseFin := by
      rw [hstate]
      by_cases hpost : ρ.method = .post
      · exact Or.inl (if_pos hpost)
      · have hsome : (Reading.answer fs ρ.uri).isSome = true := by
          rw [Option.isSome_iff_ne_none]
          exact fun hnone => hdue ⟨hpost, hnone⟩
        exact Or.inr (by rw [if_neg hpost, if_pos hsome])
    have hne : c.request.state ≠ .parseUri ∧ c.request.state ≠ .parseHeader
        ∧ c.request.state ≠ .parseAnalysis := by
      rcases hover with h | h
      · rw [h]; decide
      · rw [h]; decide
    rw [if_neg hne.1, header_eq, if_neg hne.2.1, analyse_of_ne fs hne.2.2]
    exact { h with inbuf_eq := fun hnone => absurd hnone hv }

/-- **The stages of a call** read one more text, the one that was kept. -/
theorem Tracks.process (h : Tracks fs c ρ carry) :
    Tracks fs (process fs c).2 (ρ.next carry) [] := by
  unfold Reading.next
  by_cases hv : ρ.version = none
  · have hline := h.line hv (HttpRequest.parseUri_eq c.request)
    rw [h.inbuf_eq hv, h.method_eq] at hline
    rw [if_pos hv]
    exact hline
  · rw [if_neg hv]
    exact h.again hv

/-- A new request. -/
theorem Tracks.new (fs : FileSystem) : Tracks fs new .start [] where
  method_eq := rfl
  uri_eq := rfl
  httpV_eq := rfl
  inbuf_eq _ := rfl
  state_eq := rfl
  response_eq := rfl
  mem_paths _ := ⟨fun h => absurd h List.not_mem_nil, fun h => absurd rfl h.1.1⟩

/-- **A call** reads one more text if its input is parsed. -/
theorem Tracks.httpParse {ts : List (List UInt8)} (h : Tracks fs c (reading ts) carry)
    (i : HttpInput) :
    Tracks fs (httpParse fs c i) (reading (nextText (ts, carry) i).1)
      (nextText (ts, carry) i).2 := by
  rw [httpParse_eq]
  unfold nextText
  by_cases hp : i.Parsed
  · rw [if_pos hp, if_pos hp]
    show Tracks fs _ (reading (ts ++ [carry ++ i.bytes])) []
    rw [reading, List.foldl_concat]
    exact ((h.push i.bytes).process).write i.room
  · rw [if_neg hp, if_neg hp]
    split
    · exact h.push i.bytes
    · exact (h.push i.bytes).write i.room

/-- **A request is what its texts are read as.** -/
theorem tracks_feed (fs : FileSystem) (is : List HttpInput) :
    Tracks fs (feed fs is) (reading (texts is)) (is.foldl nextText ([], [])).2 := by
  induction is using List.reverseRecOn with
  | nil => exact Tracks.new fs
  | append_singleton is i ih =>
    unfold feed texts
    rw [List.foldl_concat, List.foldl_concat]
    exact ih.httpParse i

end HttpExchange

/-! ## What comes of a request -/

/-- **What a request has come to**: its state, method, target and version, and all
bytes of the response. -/
structure HttpOutcome where
  state : HttpState
  method : HttpMethod
  uri : List UInt8
  httpV : HttpV
  response : List UInt8
deriving DecidableEq, Repr

/-- What a request has come to. -/
def HttpExchange.outcome (c : HttpExchange) : HttpOutcome :=
  ⟨c.request.state, c.request.method, c.request.uri, c.request.httpV, c.response⟩

/-- What a request comes to that is read like this. -/
def Reading.outcome (fs : FileSystem) (ρ : Reading) : HttpOutcome :=
  ⟨ρ.state fs, ρ.method, ρ.uri, ρ.version.getD .http10, ρ.response fs⟩

/-- The request line is looked for as long as there is no version. -/
theorem Reading.state_eq_parseUri (fs : FileSystem) {ρ : Reading} :
    ρ.state fs = .parseUri ↔ ρ.version = none := by
  unfold Reading.state
  split
  · next h => exact ⟨fun _ => h, fun _ => rfl⟩
  · next h =>
    refine ⟨fun hs => ?_, fun hv => absurd hv h⟩
    split at hs
    · cases hs
    · split at hs
      · cases hs
      · cases hs

/-- Requests that are read differently come to something different. -/
theorem Reading.outcome_inj {fs : FileSystem} {ρ τ : Reading} :
    ρ.outcome fs = τ.outcome fs ↔ ρ = τ := by
  refine ⟨fun h => ?_, fun h => congrArg _ h⟩
  unfold Reading.outcome at h
  rw [HttpOutcome.mk.injEq] at h
  obtain ⟨hstate, hmethod, huri, hv, -⟩ := h
  have hnone : ρ.version = none ↔ τ.version = none := by
    rw [← state_eq_parseUri fs, ← state_eq_parseUri fs, hstate]
  have hversion : ρ.version = τ.version := by
    cases hρ : ρ.version with
    | none => rw [hnone.mp hρ]
    | some v =>
      cases hτ : τ.version with
      | none => exact absurd (hnone.mpr hτ) (by rw [hρ]; exact Option.some_ne_none v)
      | some w =>
        rw [hρ, hτ] at hv
        exact congrArg some hv
  obtain ⟨uri, version, method⟩ := ρ
  exact congr (congr (congrArg Reading.mk huri) hversion) hmethod

namespace HttpExchange

/-- What calls come to is what their texts are read as. -/
theorem outcome_feed (fs : FileSystem) (is : List HttpInput) :
    (feed fs is).outcome = (reading (texts is)).outcome fs := by
  have h := tracks_feed fs is
  unfold outcome Reading.outcome
  rw [h.state_eq, h.method_eq, h.uri_eq, h.httpV_eq, h.response_eq]

/-- **What becomes of pieces.** A request that is fed in pieces, each of which ends
with `EAGAIN`, comes to what it comes to in one piece exactly if the texts say the
same. -/
theorem pieces_iff (fs : FileSystem) (pieces : List (List UInt8 × ℕ)) (room : ℕ) :
    (feed fs (pieces.map fun p => ⟨p.1, .again, p.2⟩)).outcome
        = (feed fs [⟨(pieces.map Prod.fst).flatten, .again, room⟩]).outcome
      ↔ Agree (texts (pieces.map fun p => ⟨p.1, .again, p.2⟩))
          (texts [⟨(pieces.map Prod.fst).flatten, .again, room⟩]) := by
  rw [outcome_feed, outcome_feed, Reading.outcome_inj, agree_iff]

/-- A request in two pieces, cut within the version: the first one has no version,
and is thrown away, and the second one has none either. In one piece the file is
looked for. -/
theorem pieces_differ :
    ¬∀ (fs : FileSystem) (pieces : List (List UInt8 × ℕ)) (room : ℕ),
      (∀ p ∈ pieces, p.1 ≠ []) →
        (feed fs (pieces.map fun p => ⟨p.1, .again, p.2⟩)).outcome
          = (feed fs [⟨(pieces.map Prod.fst).flatten, .again, room⟩]).outcome := by
  intro h
  have hstate := congrArg HttpOutcome.state
    (h ⟨fun _ => none, fun _ => false, fun _ _ => none⟩
      [(chars "GET / HT", 0), (chars "TP/1.0\r\n\r\n", 0)] 0 (by decide +kernel))
  exact absurd hstate (by decide +kernel)

end HttpExchange

end Version1
