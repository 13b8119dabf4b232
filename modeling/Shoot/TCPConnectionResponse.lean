import Shoot.HttpMessage
import Shoot.TCPConnectionRead

/-!
# The responses of a connection

`TCPConnection::handle_err` answers whatever was read, with a page of its own.
`TCPConnection::handle_write` is to answer with the page of the server; it is not
registered with the channel, and for one file name it writes nothing, since the
response is put into `out_buf_` and `content_buf` is written.

Each builds a text, prints it into a buffer of 4096 bytes, and passes it to `write`
once, whose result it does not look at. So a response may be cut off, and the next one
follows what was written of it.

A connection is answered for each `read` that brings something, whatever that is, until
its peer has closed (`serve`). The pages say how long they are; so a peer that reads
them one after the other gets a page for each `read` that was answered in full, up to
the first that was not (`TCPConnection.responses_read`).
-/

namespace TCPConnection

open CxxString HttpMessage

/-- The size of `send_buf` and `send_buffer`. -/
def sendBuffer : ℕ := 4096

/-- **What `handle_err` passes to `write`**, as it is printed. -/
def handleErrText : List UInt8 :=
  let bodyBuf := chars "<html><title> error </title>" ++ chars "<body bgcolor=\"ffffff\">"
    ++ decimal 200 ++ chars "<hr><em>Web Server</em>\n</body></html>"
  let headerBuf := chars "HTTP/1.0 200 ok\r\n" ++ chars "Content-type:text/plain\r\n"
    ++ chars "Connection:Close\r\n"
    ++ (chars "Content-Length: " ++ decimal bodyBuf.length ++ chars "\r\n")
    ++ chars "Server: Shoot Web Server\r\n" ++ chars "\r\n"
  cStr (headerBuf ++ bodyBuf)

/-- The page of the server. -/
def pageText : List UInt8 :=
  chars "         <html>            <title>Shoot Web Server</title>"
    ++ chars "            <body>                <h1 align=\"center\">Shoot Web Server</h1>"
    ++ chars "                <div align=\"center\">"
    ++ chars "                    Shoot web server is a web server in linux. "
    ++ chars "This projet is in the <a href=\"https//www.github.com/Hanwn/Shoot.com\">repo</a>."
    ++ chars "                </div>            </body>        </html>"

/-- **`handle_write`**, for the file name that was parsed: `out_buf_` after it, and what
it passes to `write`. The array of the icon has no elements. -/
def handleWriteText (filename outBuf : List UInt8) : List UInt8 × List UInt8 :=
  let headerBuf := chars "HTTP/1.0 200 ok\r\n" ++ chars "Connection:Close\r\n"
  if filename = chars "favicon.ico" then
    let favicon : List UInt8 := []
    let headerBuf := headerBuf ++ chars "Content-Type: image/png\r\n"
      ++ (chars "Contetn-Length:" ++ decimal favicon.length ++ chars "\r\n")
      ++ chars "Shoot Server\r\n" ++ chars "\r\n"
    (outBuf ++ headerBuf ++ favicon, cStr [])
  else
    let headerBuf := headerBuf ++ chars "Content-Type: text/html\r\n"
      ++ (chars "Content-Length:" ++ decimal pageText.length ++ chars "\r\n")
      ++ chars "Server: Shoot Web server\r\n" ++ chars "\r\n"
    (outBuf, cStr (headerBuf ++ pageText))

/-- How many bytes a `write` has room for. -/
def roomOf : WriteOutcome → ℕ
  | .room n => n
  | .fail _ => 0

/-- **What is written to a connection** by the calls of `handle_read`, one after the
other, from what its `read`s find and what the `write` of each response finds. -/
def serve : List ReadOutcome → List WriteOutcome → List UInt8
  | [], _ => []
  | o :: os, ws =>
    match handleReadLoop.round () o with
    | .inl _ => serve os ws
    | .inr .answered =>
      (ws.take 1).flatMap (fun w => handleErrText.take (roomOf w)) ++ serve os ws.tail
    | .inr .closed => []

/-- How many `read`s bring something before the peer has closed. -/
def answered (os : List ReadOutcome) : ℕ :=
  (os.takeWhile fun o => o ≠ .eof).countP fun o => 0 < o.ret 4096

/-- A `write` takes all of a response: it returns as many bytes as it is given. -/
def takesAll (w : WriteOutcome) : Bool := w.ret handleErrText.length = handleErrText.length

/-! ## The pages, as they are read -/

/-- The page of `handle_err`. -/
def errorPage : Response where
  status := 200
  fields := [(chars "content-type", chars "text/plain"), (chars "connection", chars "Close"),
    (chars "content-length", decimal 92), (chars "server", chars "Shoot Web Server")]
  body := chars "<html><title> error </title><body bgcolor=\"ffffff\">200"
    ++ chars "<hr><em>Web Server</em>\n</body></html>"

/-- **The page of `handle_err` is read as it is meant**, and fits its buffer. -/
theorem decode_handleErrText :
    decode handleErrText = some (errorPage, []) ∧ handleErrText.length < sendBuffer := by
  decide +kernel

/-- **The page of the server** is read as it is meant, and fits its buffer, for every
file name but one. For that, nothing is written. -/
theorem decode_handleWriteText (filename outBuf : List UInt8) :
    (handleWriteText filename outBuf).2.length < sendBuffer
      ∧ (decode (handleWriteText filename outBuf).2).map (fun r => (r.1.status, r.1.body, r.2))
        = if filename = chars "favicon.ico" then none else some (200, pageText, []) := by
  unfold handleWriteText
  split
  · simp only
    decide +kernel
  · simp only
    decide +kernel

/-! ## What the peer reads -/

/-- A `write` takes all of a response if there is room for it. -/
theorem takesAll_eq (w : WriteOutcome) : takesAll w = decide (handleErrText.length ≤ roomOf w) := by
  have hpos : 0 < handleErrText.length := by decide +kernel
  refine decide_eq_decide.mpr ?_
  cases w with
  | room n =>
    rw [WriteOutcome.ret_room, roomOf]
    omega
  | fail e =>
    rw [WriteOutcome.ret_fail, roomOf]
    omega

/-- **What is written to a connection**: the response as often as a `read` brings
something, as far as each `write` takes it. -/
theorem serve_eq (os : List ReadOutcome) (ws : List WriteOutcome) :
    serve os ws
      = ((ws.take (answered os)).map roomOf).flatMap handleErrText.take := by
  induction os generalizing ws with
  | nil => rfl
  | cons o os ih =>
    unfold serve
    cases o with
    | data b bs =>
      have hpos := ReadOutcome.ret_data_pos (show 0 < 4096 by decide) b bs
      have hround : handleReadLoop.round () (.data b bs) = .inr .answered := if_pos hpos
      have hcount : answered (.data b bs :: os) = answered os + 1 := by
        unfold answered
        rw [List.takeWhile_cons_of_pos (by simp), List.countP_cons_of_pos (by simpa using hpos)]
      rw [hround, hcount]
      simp only
      rw [ih]
      cases ws with
      | nil => simp
      | cons w ws => simp
    | eof => rfl
    | fail e =>
      have hcount : answered (.fail e :: os) = answered os := by
        unfold answered
        rw [List.takeWhile_cons_of_pos (by simp), List.countP_cons_of_neg]
        simp [ReadOutcome.ret]
      rw [handleReadLoop_fail, hcount]
      exact ih ws

/-- **The peer reads a page for each `read` that was answered in full**, up to the first
that was not, whatever the `read`s have brought; and what was written from there on is
left. If no `write` was cut off, it reads one page for each `read` that brought
something. -/
theorem responses_read (os : List ReadOutcome) (ws : List WriteOutcome)
    (hws : answered os ≤ ws.length) :
    decodeMany (((ws.take (answered os)).takeWhile takesAll).length) (serve os ws)
        = some (List.replicate ((ws.take (answered os)).takeWhile takesAll).length errorPage,
          ((ws.take (answered os)).dropWhile takesAll).flatMap
            fun w => handleErrText.take (roomOf w))
      ∧ (ws.all takesAll = true →
        decodeMany (answered os) (serve os ws)
          = some (List.replicate (answered os) errorPage, [])) := by
  have hread : decodeMany (((ws.take (answered os)).takeWhile takesAll).length) (serve os ws)
      = some (List.replicate ((ws.take (answered os)).takeWhile takesAll).length errorPage,
        ((ws.take (answered os)).dropWhile takesAll).flatMap
          fun w => handleErrText.take (roomOf w)) := by
    have hmany := decodeMany_flatMap_take decode_handleErrText.1
      ((ws.take (answered os)).map roomOf)
    have hall : takesAll = (fun n => decide (handleErrText.length ≤ n)) ∘ roomOf := by
      funext w
      rw [takesAll_eq, Function.comp_apply]
    rw [List.takeWhile_map, List.dropWhile_map, List.length_map, ← hall, List.flatMap_map,
      List.flatMap_map] at hmany
    rw [serve_eq, List.flatMap_map]
    exact hmany
  refine ⟨hread, fun hall => ?_⟩
  have hfull : ∀ w ∈ ws.take (answered os), takesAll w = true :=
    fun w hw => List.all_eq_true.mp hall w (List.mem_of_mem_take hw)
  rw [List.takeWhile_eq_self_iff.mpr hfull, List.dropWhile_eq_nil_iff.mpr hfull,
    List.length_take_of_le hws] at hread
  exact hread

/-- Two requests are answered, the second one in part, and a third after the peer has
closed is not. -/
theorem responses_read_cut :
    decodeMany 1 (serve [.fail .eagain, .data 71 [], .data 71 [], .eof, .data 71 []]
        [.room 4096, .room 150, .room 4096])
      = some ([errorPage], handleErrText.take 150) := by
  have hanswered : answered [.fail .eagain, .data 71 [], .data 71 [], .eof, .data 71 []] = 2 := by
    decide +kernel
  have htaken : ([.room 4096, .room 150] : List WriteOutcome).takeWhile takesAll
      = [.room 4096] := by
    decide +kernel
  have hleft : ([.room 4096, .room 150] : List WriteOutcome).dropWhile takesAll = [.room 150] := by
    decide +kernel
  have hread := (responses_read [.fail .eagain, .data 71 [], .data 71 [], .eof, .data 71 []]
    [.room 4096, .room 150, .room 4096] (by rw [hanswered]; decide)).1
  rw [hanswered] at hread
  simp only [List.take_succ_cons, List.take_zero, htaken, hleft] at hread
  simpa [roomOf] using hread

end TCPConnection
