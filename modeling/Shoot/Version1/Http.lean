import Shoot.CxxString
import Shoot.FixedBuffer

/-!
# Requests of version 1.0

`Http::http_parse` is called for a request each time its connection has input.
It reads what there is (`read_`), appends it to `inbuf_`, and goes on from the
state the request is in: the request line (`parse_uri`), the headers, which it
skips, and the answer (`parse_analysis`), which is written to the connection as
far as that takes it.

This module is the model of a call. The functions return the request they have
changed. The file system is a parameter, and so is what each call finds on its
connection: what it reads, and how many bytes can be written. A `write` that fails
other than with `EINTR` or `EAGAIN` is left out here; `Shoot.Version1.HttpCalls` has it.
Positions in a string are numbers of 64 bits without a sign, so no test for a negative
one is ever true.
-/

namespace Version1

open CxxString

/-- `state_`. -/
inductive HttpState where
  | parseUri | parseHeader | parseBody | parseAnalysis | parseFin
deriving DecidableEq, Repr

/-- `parse_uri_flag`, `parse_header_flag` and `parse_analysis_flag`. -/
inductive ParseFlag where
  | again | error | success
deriving DecidableEq, Repr

/-- `method_`. -/
inductive HttpMethod where
  | get | post | delete | put
deriving DecidableEq, Repr

/-- `HTTP_V`. -/
inductive HttpV where
  | http10 | http11
deriving DecidableEq, Repr

/-- **An `http_request_t`.** -/
structure HttpRequest where
  uri : List UInt8
  /-- `http_v`. -/
  httpV : HttpV
  /-- `inbuf_`. -/
  inbuf : List UInt8
  /-- `outbuf_`. -/
  outbuf : List UInt8
  state : HttpState
  method : HttpMethod
deriving DecidableEq, Repr

/-- **The file system**, by path: the size `stat` gives, whether `open` succeeds,
and the bytes `mmap` maps. -/
structure FileSystem where
  stat : List UInt8 → Option ℕ
  openFile : List UInt8 → Bool
  mmap : List UInt8 → ℕ → Option (List UInt8)

namespace HttpRequest

/-- `new http_request_t()`: what is not a string is zero. -/
def new : HttpRequest := ⟨[], .http10, [], [], .parseUri, .get⟩

/-- The part of `parse_uri` that finds the method: where it stands in the request
line, or the position from before, and the request. -/
def parseMethod (r : HttpRequest) (requestLine : List UInt8) (pos : ℕ) : ℕ × HttpRequest :=
  let posG := castInt (find requestLine (chars "GET") 0)
  let posP := castInt (find requestLine (chars "POST") 0)
  if posG ≥ 0 then
    (posG.toNat, { r with method := .get })
  else if posP ≥ 0 then
    (posP.toNat, { r with method := .post })
  else
    (pos, r)

/-- The part that stores the target, from the slash before it to the space behind
it. -/
def parseTarget (r : HttpRequest) (requestLine : List UInt8) (pos pos_ : ℕ) : HttpRequest :=
  if subSize pos_ pos > 1 then
    let uri := substr requestLine (addSize pos 1) (subSize (subSize pos_ pos) 1)
    let pos__ := find uri (chars "?") 0
    { r with uri := if pos__ ≥ 0 then substr uri 0 pos__ else uri }
  else
    { r with uri := chars "index.html" }

/-- The part that reads the version, behind a slash. -/
def parseVersion (r : HttpRequest) (requestLine : List UInt8) (pos : ℕ) :
    ParseFlag × HttpRequest :=
  if subSize requestLine.length pos ≤ 3 then
    (.error, r)
  else
    let tmp := substr requestLine (addSize pos 1) 3
    if tmp = chars "1.0" then
      (.success, { r with httpV := .http10 })
    else if tmp = chars "1.1" then
      (.success, { r with httpV := .http11 })
    else
      (.error, r)

/-- **`parse_uri(request)`.** -/
def parseUri (r : HttpRequest) : ParseFlag × HttpRequest :=
  let str := r.inbuf
  let pos := find str (chars "\r") 0
  let requestLine := substr str 0 pos
  let found := r.parseMethod requestLine pos
  let r := found.2
  let pos := find requestLine (chars "/") found.1
  if pos < 0 then
    (.success, { r with uri := chars "index.html", httpV := .http11 })
  else
    let pos_ := find requestLine (chars " ") pos
    if pos_ < 0 then
      (.error, r)
    else
      let r := r.parseTarget requestLine pos pos_
      let pos := find requestLine (chars "/") pos_
      if pos < 0 then
        (.error, r)
      else
        r.parseVersion requestLine pos

/-- `parse_headers(request)`. -/
def parseHeaders (_ : HttpRequest) : ParseFlag := .success

/-- **`parse_analysis(request)`**, and the paths it passes to `stat` and
`open`. -/
def parseAnalysis (fs : FileSystem) (r : HttpRequest) :
    ParseFlag × HttpRequest × List (List UInt8) :=
  let header := chars "HTTP/1.0 200 OK\r\n"
  let dotPos := find r.uri (chars ".") 0
  let fileType := if dotPos < 0 then chars "text/html" else chars "text/html"
  if r.uri = chars "hello" then
    (.success, { r with
      outbuf := chars "HTTP/1.0 200 \nContent-Type: text/html\nContent-Length: 5\n\n helo" }, [])
  else if r.uri = chars "favicon.ico" then
    (.success, r, [])
  else
    match fs.stat (cStr r.uri) with
    | none => (.error, r, [cStr r.uri])
    | some size =>
      let header := header ++ (chars "Content-Type: " ++ fileType ++ chars "\r\n")
        ++ (chars "Content-Length: " ++ decimal size ++ chars "\r\n")
        ++ chars "Server: Shoot Http Server\r\n" ++ chars "\r\n"
      let outbuf := r.outbuf ++ header
      if fs.openFile (cStr r.uri) then
        match fs.mmap (cStr r.uri) size with
        | none => (.error, { r with outbuf := [] }, [cStr r.uri, cStr r.uri])
        | some content =>
          (.success, { r with outbuf := outbuf ++ content }, [cStr r.uri, cStr r.uri])
      else
        (.error, { r with outbuf := [] }, [cStr r.uri, cStr r.uri])

end HttpRequest

/-- How the reading of a call ends: with `EAGAIN`, the end of the input, or an
error. -/
inductive ReadEnd where
  | again | closed | error
deriving DecidableEq, Repr

/-- **What a call finds on its connection**: the bytes it reads, how the reading
ends, and how many bytes can be written. -/
structure HttpInput where
  bytes : List UInt8
  ending : ReadEnd
  room : ℕ
deriving DecidableEq, Repr

/-- **A request and what was done for it**: the bytes written to the connection,
and the paths passed to `stat` and `open`. -/
structure HttpExchange where
  request : HttpRequest
  sent : List UInt8
  paths : List (List UInt8)
deriving DecidableEq, Repr

namespace HttpExchange

/-- A new request. -/
def new : HttpExchange := ⟨.new, [], []⟩

/-- The bytes of the response, written or not. -/
def response (c : HttpExchange) : List UInt8 := c.sent ++ c.request.outbuf

/-- `read_(fd, inbuf, flag)`: the result, the flag, and the request. -/
def read (c : HttpExchange) (i : HttpInput) : ℤ × Bool × HttpExchange :=
  let c := { c with request := { c.request with inbuf := c.request.inbuf ++ i.bytes } }
  match i.ending with
  | .again => (castInt i.bytes.length, false, c)
  | .closed => (castInt i.bytes.length, true, c)
  | .error => (-1, false, c)

/-- `http_write(fd, outbuf)`, if there is something to write, where no `write` fails: its
`return -1`, which leaves `outbuf_` whole, is not in this. -/
def write (c : HttpExchange) (room : ℕ) : HttpExchange :=
  if c.request.outbuf.length > 0 then
    { c with
      sent := c.sent ++ c.request.outbuf.take room
      request := { c.request with outbuf := c.request.outbuf.drop room } }
  else
    c

/-- The answer, if it is due: `error_`, and the request after it. -/
def analyse (fs : FileSystem) (c : HttpExchange) : Bool × HttpExchange :=
  if c.request.state = .parseAnalysis then
    let (flag, r, paths) := c.request.parseAnalysis fs
    let c := { c with request := r, paths := c.paths ++ paths }
    if flag = .again ∨ flag = .error then
      (true, c)
    else
      (false, { c with request := { c.request with state := .parseFin } })
  else
    (false, c)

/-- The headers and what follows. -/
def header (fs : FileSystem) (c : HttpExchange) : Bool × HttpExchange :=
  if c.request.state = .parseHeader then
    match c.request.parseHeaders with
    | .again => (false, c)
    | .error => (true, c)
    | .success =>
      analyse fs { c with
        request := { c.request with
          state := if c.request.method = .post then .parseBody else .parseAnalysis } }
  else
    analyse fs c

/-- The request line and what follows. -/
def process (fs : FileSystem) (c : HttpExchange) : Bool × HttpExchange :=
  if c.request.state = .parseUri then
    match c.request.parseUri with
    | (.again, r) => (false, { c with request := r })
    | (.error, r) => (true, { c with request := { r with inbuf := [] } })
    | (.success, r) => header fs { c with request := { r with state := .parseHeader } }
  else
    header fs c

/-- **`http_parse(request)`.** -/
def httpParse (fs : FileSystem) (c : HttpExchange) (i : HttpInput) : HttpExchange :=
  let (readCount, flag, c) := c.read i
  let (error, c) :=
    if readCount < 0 then
      (true, c)
    else if flag then
      (true, c)
    else
      process fs c
  if !error then
    c.write i.room
  else if !flag then
    c.write i.room
  else
    c

/-- **The calls for one request**, one after the other. -/
def feed (fs : FileSystem) (is : List HttpInput) : HttpExchange := is.foldl (httpParse fs) new

end HttpExchange

end Version1
