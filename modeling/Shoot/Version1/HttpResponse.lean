import Shoot.HttpMessage
import Shoot.Version1.HttpCalls
import Shoot.Version1.HttpLine

/-!
# What a client reads

`parse_analysis` writes the response to a request into `outbuf_`: a fixed one for
`hello`, whose lines end with a line feed, nothing for `favicon.ico`, and the
bytes of a file behind a status line and three fields for any other target.
`http_write` writes what the connection takes, and the rest stays in `outbuf_`.

`HttpExchange.serves_resource` is about both ends of a connection. A client that
asks for a target with a `GET` line, and reads what is sent as a response, gets
the resource of the target and nothing else, if there is one; as long as the
response is not written in full, it does not have one, and it can tell. It is about the
calls of `read` and `write`: they may come to anything, except that no `write` may fail
other than with `EINTR` or `EAGAIN`. After such an error `outbuf_` is still whole, and
what the next call writes is not the rest of the response, but all of it.

`mmap` is to map as many bytes as it is asked for; the length in the response is
the one that `stat` gave. The request line is to be there whole when the request is first
read, and an `int` is to hold the lengths of what is read with it and of the response.
-/

namespace Version1

open CxxString HttpMessage
open RequestText (lineOf lineUri lineMethod lineVersion Counted HasForm)

/-- `mmap` maps as many bytes as it is asked for. -/
def FileSystem.MapsAll (fs : FileSystem) : Prop :=
  ∀ path size content, fs.mmap path size = some content → content.length = size

/-- **What is served for a target.** -/
def FileSystem.resource (fs : FileSystem) (uri : List UInt8) : Option (List UInt8) :=
  if uri = chars "hello" then
    some (chars " helo")
  else if uri = chars "favicon.ico" then
    none
  else
    (fs.stat (cStr uri)).bind fun size =>
      if fs.openFile (cStr uri) then fs.mmap (cStr uri) size else none

/-- The target that is stored for one in a `GET` line. -/
def storedUri (p : List UInt8) : List UInt8 :=
  if p = [] then chars "index.html" else p.takeWhile fun c => c ≠ 63

/-! ## The responses -/

/-- The lines of the response to `hello`. -/
def helloLines : List (List UInt8) :=
  [chars "HTTP/1.0 200 ", chars "Content-Type: text/html", chars "Content-Length: 5"]

/-- The lines in front of a file. -/
def fileLines (size : ℕ) : List (List UInt8) :=
  [chars "HTTP/1.0 200 OK", chars "Content-Type: text/html",
    chars "Content-Length: " ++ decimal size, chars "Server: Shoot Http Server"]

/-- The line with the length can be read back. -/
theorem isLine_length (size : ℕ) : IsLine (chars "Content-Length: " ++ decimal size) := by
  obtain ⟨-, hne, hdigits⟩ := decimal_natCast size
  have hmem : ∀ c ∈ decimal size, c ≠ 10 ∧ c ≠ 13 := by
    rintro c hc
    refine ⟨?_, ?_⟩
    · rintro rfl
      exact absurd (hdigits _ hc).1 (by decide)
    · rintro rfl
      exact absurd (hdigits _ hc).1 (by decide)
  refine ⟨List.append_ne_nil_of_left_ne_nil (by decide) _, fun h => ?_, fun h => ?_⟩
  · rcases List.mem_append.mp h with h | h
    · exact absurd h (by decide)
    · exact (hmem _ h).1 rfl
  · rw [List.getLast?_append_of_ne_nil _ hne] at h
    exact (hmem _ (List.mem_of_getLast? h)).2 rfl

/-- The lines in front of a file can be read back. -/
theorem isLine_fileLines (size : ℕ) : ∀ line ∈ fileLines size, IsLine line := by
  unfold fileLines
  simp only [List.forall_mem_cons]
  exact ⟨by decide, by decide, isLine_length size, by decide, fun _ h => absurd h List.not_mem_nil⟩

/-- The field with the length. -/
theorem fieldOf_length (size : ℕ) :
    fieldOf (chars "Content-Length: " ++ decimal size)
      = (chars "content-length", decimal size) := by
  have hparts : chars "Content-Length: " = chars "Content-Length" ++ [58, 32] := by decide
  rw [hparts, List.append_assoc, List.cons_append, List.cons_append, List.nil_append,
    fieldOf_append (by decide) (space_notMem_decimal size)]
  exact congrArg (Prod.mk · _) (by decide)

/-- **The lines in front of a file** tell its size. -/
theorem meaning_fileLines (size : ℕ) :
    meaning (fileLines size) = some (200, (fileLines size).tail.map fieldOf, size) := by
  obtain ⟨hparse, hne, -⟩ := decimal_natCast size
  have hstatus : statusOf (chars "HTTP/1.0 200 OK") = some 200 := by decide
  have htype : ¬(fieldOf (chars "Content-Type: text/html")).1 = chars "content-length" := by decide
  have hlength : contentLength ((fileLines size).tail.map fieldOf) = some size := by
    unfold contentLength fileLines
    rw [List.tail_cons, List.map_cons, List.find?_cons_of_neg (by simpa using htype), List.map_cons,
      fieldOf_length, List.find?_cons_of_pos (by simp)]
    show (if decimal size = [] then none else parseDigits 0 (decimal size)) = _
    rw [if_neg hne, hparse]
  unfold meaning
  show (statusOf (chars "HTTP/1.0 200 OK")).bind _ = _
  rw [hstatus, Option.bind_some]
  show (contentLength ((fileLines size).tail.map fieldOf)).bind _ = _
  rw [hlength]
  rfl

namespace Reading

variable {fs : FileSystem} {uri : List UInt8}

/-- The response to `hello`, line by line. -/
theorem answer_hello :
    answer fs (chars "hello") = some (encode [10] helloLines (chars " helo")) := by
  have htext : chars "HTTP/1.0 200 \nContent-Type: text/html\nContent-Length: 5\n\n helo"
      = encode [10] helloLines (chars " helo") := by decide
  unfold answer HttpRequest.parseAnalysis
  simp only [if_true]
  rw [htext]

/-- There is no response to `favicon.ico`. -/
theorem answer_favicon : answer fs (chars "favicon.ico") = some [] := by
  have hne : ¬chars "favicon.ico" = chars "hello" := by decide
  unfold answer HttpRequest.parseAnalysis HttpRequest.new
  simp only [if_true, if_neg hne]

/-- **The response with a file**, line by line, if there is one. -/
theorem answer_file (hmap : fs.MapsAll) (hhello : uri ≠ chars "hello")
    (hicon : uri ≠ chars "favicon.ico") :
    answer fs uri
      = (fs.resource uri).map fun body => encode [13, 10] (fileLines body.length) body := by
  unfold answer FileSystem.resource HttpRequest.parseAnalysis HttpRequest.new
  simp only [if_neg hhello, if_neg hicon]
  cases hstat : fs.stat (cStr uri) with
  | none => rfl
  | some size =>
    simp only [Option.bind_some]
    by_cases hopen : fs.openFile (cStr uri) = true
    · simp only [if_pos hopen]
      cases hm : fs.mmap (cStr uri) size with
      | none => rfl
      | some content =>
        have hcrlf : chars "\r\n" = [13, 10] := by decide
        have hstatus : chars "HTTP/1.0 200 OK\r\n" = chars "HTTP/1.0 200 OK" ++ [13, 10] := by
          decide
        have htype : chars "Content-Type: text/html"
            = chars "Content-Type: " ++ chars "text/html" := by decide
        have hserver : chars "Server: Shoot Http Server\r\n"
            = chars "Server: Shoot Http Server" ++ [13, 10] := by decide
        simp only [if_true, Option.map_some, encode, fileLines, hmap _ _ _ hm, hcrlf, hstatus,
          hserver, htype, List.flatMap_cons, List.flatMap_nil, List.append_assoc, List.nil_append,
          ite_self]
    · simp only [if_neg hopen]
      rfl

/-- **What a client reads of the answer to a target** is its resource. -/
theorem decode_answer (hmap : fs.MapsAll) (uri : List UInt8) :
    (fs.resource uri = none → (answer fs uri).getD [] = [])
      ∧ ∀ body, fs.resource uri = some body → ∃ fields,
        decode ((answer fs uri).getD []) = some (⟨200, fields, body⟩, []) := by
  have hlf : IsEol [10] := Or.inl rfl
  have hcrlf : IsEol [13, 10] := Or.inr rfl
  by_cases hhello : uri = chars "hello"
  · subst hhello
    have hmeaning : meaning helloLines
        = some (200, helloLines.tail.map fieldOf, (chars " helo").length) := by decide
    have hlines : ∀ line ∈ helloLines, IsLine line := by decide
    have hread := decode_encode hlf hlines hmeaning []
    rw [List.append_nil] at hread
    rw [FileSystem.resource, if_pos rfl, answer_hello, Option.getD_some]
    refine ⟨fun h => absurd h (Option.some_ne_none _), fun body h => ?_⟩
    rw [← Option.some.inj h]
    exact ⟨_, hread⟩
  by_cases hicon : uri = chars "favicon.ico"
  · subst hicon
    rw [FileSystem.resource, if_neg hhello, if_pos rfl, answer_favicon]
    exact ⟨fun _ => rfl, fun body h => absurd h.symm (Option.some_ne_none body)⟩
  rw [answer_file hmap hhello hicon]
  refine ⟨fun h => ?_, fun body h => ?_⟩
  · rw [h]
    rfl
  · have hread := decode_encode hcrlf (isLine_fileLines body.length)
      (meaning_fileLines body.length) []
    rw [List.append_nil] at hread
    rw [h, Option.map_some, Option.getD_some]
    exact ⟨_, hread⟩

end Reading

/-! ## Both ends of a connection -/

/-- What the first text is read as. -/
theorem start_next (str : List UInt8) :
    Reading.start.next str = ⟨lineUri str, lineVersion str, (lineMethod str).getD .get⟩ :=
  if_pos rfl

/-- The version in it. -/
theorem version_start_next (str : List UInt8) :
    (Reading.start.next str).version = lineVersion str := by rw [start_next]

/-- The first text is kept. -/
theorem prefix_foldl_nextText (ts : List (List UInt8) × List UInt8) (is : List HttpInput) :
    ts.1 <+: (is.foldl nextText ts).1 := by
  induction is generalizing ts with
  | nil => exact List.prefix_refl ts.1
  | cons i is ih =>
    refine List.IsPrefix.trans ?_ (ih (nextText ts i))
    unfold nextText
    split
    · exact List.prefix_append _ _
    · exact List.prefix_refl _

/-- **A request is read from its first input**, if that has a version in it. -/
theorem reading_texts_cons {i : HttpInput} (hi : i.Parsed) (hv : lineVersion i.bytes ≠ none)
    (is : List HttpInput) : reading (texts (i :: is)) = Reading.start.next i.bytes := by
  have hfirst : nextText ([], []) i = ([i.bytes], []) := by
    rw [nextText, if_pos hi, List.nil_append, List.nil_append]
  obtain ⟨us, hus⟩ := prefix_foldl_nextText (nextText ([], []) i) is
  have htexts : texts (i :: is) = i.bytes :: us := by
    unfold texts
    rw [List.foldl_cons, ← hus, hfirst]
    rfl
  rw [htexts, reading, List.foldl_cons]
  refine Reading.foldl_next_of_version ?_ us
  rwa [version_start_next]

/-- There is no carriage return in a `GET` line. -/
theorem cr_notMem_getLine {p : List UInt8} (hcr : 13 ∉ p) (v : HttpV) :
    13 ∉ HttpRequest.getLine p v := by
  have hGET : 13 ∉ chars "GET /" := by decide
  have hHTTP : 13 ∉ chars " HTTP/" := by decide
  have hversion : 13 ∉ HttpRequest.versionText v := by
    cases v with
    | http10 => decide
    | http11 => decide
  unfold HttpRequest.getLine
  simp only [List.mem_append, hGET, hcr, hHTTP, hversion, or_self, not_false_eq_true]

/-- **What a `GET` line is read as.** -/
theorem next_getLine {p : List UInt8} {v : HttpV} {rest : List UInt8} (hsp : 32 ∉ p)
    (hcr : 13 ∉ p) (hlen : (HttpRequest.getLine p v ++ 13 :: rest).length < 2 ^ 31) :
    Reading.start.next (HttpRequest.getLine p v ++ 13 :: rest) = ⟨storedUri p, some v, .get⟩ := by
  obtain ⟨d, hd, hv, hget⟩ := HttpRequest.getLine_eq p v
  have hline : lineOf (HttpRequest.getLine p v ++ 13 :: rest)
      = HttpRequest.getLine p v := takeWhile_char (cr_notMem_getLine hcr v) rest
  have hc : Counted (HttpRequest.getLine p v ++ 13 :: rest) :=
    RequestText.counted_of_length (Nat.lt_trans hlen (by decide))
  have hform : HasForm (lineOf (HttpRequest.getLine p v ++ 13 :: rest))
      .get := ⟨p, d, hsp, hd, hline.trans hget⟩
  have hplen : p.length < 2 ^ 31 := by
    refine Nat.lt_of_le_of_lt ?_ hlen
    rw [HttpRequest.getLine]
    simp only [List.length_append]
    omega
  have hversion : lineVersion (HttpRequest.getLine p v ++ 13 :: rest) = some v := by
    rw [RequestText.lineVersion_eq hc, hline, hget, RequestText.versionField_lineText (by decide)
      hsp (RequestText.fromMethod_get p d), ← hv]
    cases v with
    | http10 => decide
    | http11 => decide
  have hmethod : lineMethod (HttpRequest.getLine p v ++ 13 :: rest) = some .get :=
    RequestText.lineMethod_of_form hc hform (fun h => by cases h)
  have huri : lineUri (HttpRequest.getLine p v ++ 13 :: rest) = storedUri p :=
    HttpRequest.lineUri_lineText hsp hplen (hc.requestLine_eq.trans (hline.trans hget))
  rw [start_next, hversion, hmethod, huri]
  rfl

namespace HttpExchange

/-- **The response is the answer to the first line**, whatever comes after it. -/
theorem response_feed_getLine (fs : FileSystem) {p rest : List UInt8} {v : HttpV} {i : HttpInput}
    (hsp : 32 ∉ p) (hcr : 13 ∉ p) (hline : i.bytes = HttpRequest.getLine p v ++ 13 :: rest)
    (hagain : i.ending = .again) (hlen : i.bytes.length < 2 ^ 31) (is : List HttpInput) :
    (feed fs (i :: is)).response = (Reading.answer fs (storedUri p)).getD [] := by
  have hparsed : i.Parsed := by
    refine ⟨hagain, ?_⟩
    rw [castInt_of_lt hlen]
    exact Int.natCast_nonneg _
  have hnext : Reading.start.next i.bytes = ⟨storedUri p, some v, .get⟩ := by
    rw [hline] at hlen ⊢
    exact next_getLine hsp hcr hlen
  have hversion : lineVersion i.bytes ≠ none := by
    rw [← version_start_next, hnext]
    exact Option.some_ne_none v
  rw [(tracks_feed fs _).response_eq, reading_texts_cons hparsed hversion, hnext,
    Reading.response, if_neg (by simp)]

/-- **A client gets what it asks for.** It asks for a target with a `GET` line and
whatever follows it, and the line is there when the request is first read. After that
the calls may come to anything, but for a `write` that fails. The response is read as the
resource of the target, with nothing behind it. As long as it is not written in full,
what was written is not read as a response; and nothing is written if there is no
resource. -/
theorem serves_resource {fs : FileSystem} (hmap : fs.MapsAll) {p rest : List UInt8} {v : HttpV}
    {x : HttpCalls} {xs : List HttpCalls} {c : HttpExchange} (hsp : 32 ∉ p) (hcr : 13 ∉ p)
    (hline : x.bytes = HttpRequest.getLine p v ++ 13 :: rest) (hagain : x.ending = some .again)
    (hlen : x.bytes.length < 2 ^ 31)
    (hsize : ((Reading.answer fs (storedUri p)).getD []).length < 2 ^ 31)
    (hno : ∀ y ∈ x :: xs, Tools.NoError y.writes) (hc : feedCalls fs (x :: xs) = some c) :
    ((decode c.response).map fun r => (r.1.status, r.1.body, r.2))
        = (fs.resource (storedUri p)).map (fun body => (200, body, []))
      ∧ (decode c.sent = if c.request.outbuf = [] then decode c.response else none)
      ∧ (fs.resource (storedUri p) = none → c.response = []) := by
  have hfirst : ∀ i, x.Finds i → ∀ is, (feed fs (i :: is)).response
      = (Reading.answer fs (storedUri p)).getD [] := by
    intro i hi is
    refine response_feed_getLine fs hsp hcr (hi.bytes_eq.trans hline) ?_ ?_ is
    · exact Option.some.inj (hi.ending_eq.symm.trans hagain)
    · rwa [hi.bytes_eq]
  have hresponse : c.response = (Reading.answer fs (storedUri p)).getD [] := by
    have hshort : ∀ ys is, ys <+: x :: xs → List.Forall₂ HttpCalls.Finds ys is →
        (feed fs is).response.length < 2 ^ 31 := by
      intro ys is hys hfinds
      cases hfinds with
      | nil => exact Nat.two_pow_pos 31
      | cons hi _ =>
        obtain ⟨rfl, -⟩ := List.cons_prefix_cons.mp hys
        rwa [hfirst _ hi]
    obtain ⟨is, hfinds, rfl⟩ := exists_feed hno hshort hc
    cases hfinds with
    | cons hi _ => exact hfirst _ hi _
  obtain ⟨hnone, hsome⟩ := Reading.decode_answer hmap (storedUri p)
  rw [← hresponse] at hnone hsome
  have hsplit : c.response = c.sent ++ c.request.outbuf := rfl
  cases hr : fs.resource (storedUri p) with
  | none =>
    have hnil := hnone hr
    obtain ⟨hsent, hout⟩ := List.append_eq_nil_iff.mp (hsplit.symm.trans hnil)
    rw [hnil, hout, hsent, if_pos rfl]
    exact ⟨rfl, rfl, fun _ => rfl⟩
  | some body =>
    obtain ⟨fields, hread⟩ := hsome body hr
    refine ⟨by rw [hread]; rfl, ?_, fun h => absurd h (Option.some_ne_none body)⟩
    by_cases hout : c.request.outbuf = []
    · rw [if_pos hout, hsplit, hout, List.append_nil]
    · rw [if_neg hout]
      rw [hsplit] at hread
      exact decode_eq_none_of_append hread hout

/-- A file system in which every file has three bytes. -/
def pageFiles : FileSystem :=
  ⟨fun _ => some 3, fun _ => true, fun _ size => some (List.replicate size 97)⟩

/-- A request that is cut behind its line, on a connection that takes forty bytes at a
time. -/
def pageCalls : List HttpCalls :=
  let line := HttpRequest.getLine (chars "a.html?x=1") .http11 ++ 13 :: chars "\n"
  [⟨[.data 71 line.tail, .fail .eagain], [.room 40, .fail .eagain]⟩,
    ⟨[.data 72 (chars "ost: a\r\n\r\n"), .fail .eagain], [.fail .eintr, .room 40, .fail .eagain]⟩]

/-- Eighty bytes of the response were written, which is not enough. -/
theorem serves_resource_page :
    ∃ c, feedCalls pageFiles pageCalls = some c ∧ c.sent.length = 80 ∧ decode c.sent = none
      ∧ ((decode c.response).map fun r => (r.1.status, r.1.body, r.2))
        = some (200, chars "aaa", []) := by
  have hrun : (feedCalls pageFiles pageCalls).map
      (fun c => (c.sent.length, decide (c.request.outbuf = []))) = some (80, false) := by
    decide +kernel
  obtain ⟨c, hc, hleft⟩ := Option.map_eq_some_iff.mp hrun
  obtain ⟨hlength, hleft⟩ := Prod.mk.inj hleft
  have hbody : pageFiles.resource (storedUri (chars "a.html?x=1")) = some (chars "aaa") := by
    decide +kernel
  have hmap : pageFiles.MapsAll := by
    intro _ size content h
    rw [← Option.some.inj h, List.length_replicate]
  have hno : ∀ y ∈ pageCalls, Tools.NoError y.writes := by
    simp [pageCalls, Tools.NoError]
  obtain ⟨hwhole, hpart, -⟩ := serves_resource hmap (p := chars "a.html?x=1") (v := .http11)
    (by decide) (by decide) rfl rfl (by decide +kernel) (by decide +kernel) hno hc
  rw [if_neg (of_decide_eq_false hleft)] at hpart
  rw [hbody] at hwhole
  exact ⟨c, hc, hlength, hpart, hwhole⟩

/-- After an error the response is written from its start again: 91 bytes of 93 and two
more are read as another page. -/
example :
    ((feedCalls pageFiles
        [⟨[.data 71 (HttpRequest.getLine (chars "a") .http11 ++ [13]).tail, .fail .eagain],
            [.room 91, .fail (.other 32)]⟩,
          ⟨[.fail .eagain], [.room 2, .fail .eagain]⟩]).bind fun c => decode c.sent).map
        (fun r => (r.1.status, r.1.body))
      = some (200, chars "aHT") := by
  decide +kernel

end HttpExchange

end Version1
