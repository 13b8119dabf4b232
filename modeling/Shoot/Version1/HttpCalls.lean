import Shoot.Version1.HttpIo
import Shoot.Version1.HttpPieces

/-!
# A call of `http_parse`, outcome by outcome

`HttpExchange.httpParse` says by a number how much a call can write, and leaves out that
a `write` fails. Here the loops of `read_` and `write_` stand in the same places, and what
a call finds on its connection are the outcomes of the `read`s and `write`s that it makes.
After an error other than `EINTR` and `EAGAIN`, `write_` returns from within its loop, and
`outbuf_` is what it was: the bytes that were taken before the error are written again by
the next call that writes.

Where no `write` meets such an error the two are the same, as long as an `int` holds the
length of the response (`HttpExchange.exists_feed`). So what is known of requests by the
number of bytes is known of them by their calls.
-/

namespace Version1

open CxxString Tools

/-- **The outcomes of the calls that `http_parse` makes** on its connection: of `read`,
and of `write`. What comes behind the calls that it makes does not matter. -/
structure HttpCalls where
  reads : List ReadOutcome
  writes : List WriteOutcome
deriving DecidableEq, Repr

namespace HttpCalls

/-- The bytes that `read_` reads. -/
def bytes (x : HttpCalls) : List UInt8 := delivered (x.reads.takeWhile fun o => ¬o.Ends)

/-- How the reading ends, if it does. -/
def ending (x : HttpCalls) : Option ReadEnd := (x.reads.find? fun o => o.Ends).map .of

/-- The input that is read. -/
structure Finds (x : HttpCalls) (i : HttpInput) : Prop where
  bytes_eq : i.bytes = x.bytes
  ending_eq : x.ending = some i.ending

end HttpCalls

namespace HttpExchange

/-- `read_(fd, inbuf, flag)`: the result, the flag, and the request. -/
def readCalls (c : HttpExchange) (os : List ReadOutcome) : Option (ℤ × Bool × HttpExchange) :=
  (Http.read c.request.inbuf false os).map fun (r, _) =>
    (r.ret, r.zero, { c with request := { c.request with inbuf := r.inBuf } })

/-- `http_write(fd, outbuf)`, if there is something to write. -/
def writeCalls (c : HttpExchange) (os : List WriteOutcome) : Option HttpExchange :=
  if c.request.outbuf.length > 0 then
    (Http.write c.request.outbuf os).map fun (r, _) =>
      { c with
        sent := c.sent ++ r.sent
        request := { c.request with outbuf := r.outBuf } }
  else
    some c

/-- **`http_parse(request)`**, if its loops return with these outcomes. -/
def httpParseCalls (fs : FileSystem) (c : HttpExchange) (x : HttpCalls) : Option HttpExchange := do
  let (readCount, flag, c) ← c.readCalls x.reads
  let (error, c) :=
    if readCount < 0 then
      (true, c)
    else if flag then
      (true, c)
    else
      process fs c
  if !error then
    c.writeCalls x.writes
  else if !flag then
    c.writeCalls x.writes
  else
    some c

/-- **The calls for one request**, one after the other. -/
def feedCalls (fs : FileSystem) (xs : List HttpCalls) : Option HttpExchange :=
  xs.foldlM (httpParseCalls fs) new

variable {fs : FileSystem} {c c' : HttpExchange} {x : HttpCalls}

/-- **What is read** is what the outcomes deliver up to the first that ends the loop. -/
theorem read_of_readCalls {readCount : ℤ} {flag : Bool}
    (h : c.readCalls x.reads = some (readCount, flag, c')) :
    ∃ ending, x.ending = some ending
      ∧ ∀ room, c.read ⟨x.bytes, ending, room⟩ = (readCount, flag, c') := by
  obtain ⟨⟨r, rest⟩, hread, hr⟩ := Option.map_eq_some_iff.mp h
  cases hfind : x.reads.find? fun o => o.Ends with
  | none =>
    -- none of them ends the loop, which has not returned
    have hpre : ∀ o ∈ x.reads, ¬o.Ends := by simpa using hfind
    have hrun := drainLoop_run castInt ⟨0, c.request.inbuf, false⟩ hpre []
    rw [List.append_nil, CallLoop.run_nil rfl] at hrun
    exact absurd (hread.symm.trans hrun) (Option.some_ne_none _)
  | some last =>
    obtain ⟨hlast, pre, post, hreads, hpre⟩ := List.find?_eq_some_iff_append.mp hfind
    have hlast : last.Ends := by simpa using hlast
    have hpre : ∀ o ∈ pre, ¬o.Ends := by simpa using hpre
    have hbytes : x.bytes = delivered pre := by
      unfold HttpCalls.bytes
      rw [hreads, List.takeWhile_append_of_pos (by simpa using hpre),
        List.takeWhile_cons_of_neg (by simpa using hlast), List.append_nil]
    refine ⟨.of last, by rw [HttpCalls.ending, hfind, Option.map_some], fun room => ?_⟩
    obtain ⟨r', hr', hc⟩ := read_eq_loop c hpre hlast post room
    rw [hreads, hr'] at hread
    rw [hbytes, hc, ← hr, Prod.mk.inj (Option.some.inj hread) |>.1]

/-- **What is written** without an error is what there is room for. -/
theorem write_of_writeCalls {os : List WriteOutcome} (hlen : c.request.outbuf.length < 2 ^ 31)
    (hno : NoError os) (h : c.writeCalls os = some c') : ∃ room, c.write room = c' := by
  unfold writeCalls at h
  split at h
  · obtain ⟨⟨r, rest⟩, hwrite, hr⟩ := Option.map_eq_some_iff.mp h
    have hret : r.ret ≠ -1 := by
      rw [Http.write_eq_writen] at hwrite
      obtain ⟨used, s, hos, hs, -, hends⟩ := exists_ends hwrite
      cases hends with
      | ended =>
        rw [hs.end_eq hlen]
        intro hneg
        have hcount : (s.sent.length : ℤ) = -1 := hneg
        omega
      | broken e hlast =>
        refine absurd (List.mem_of_getLast? hlast) fun hmem => hno e ?_
        rw [hos]
        exact List.mem_append_left rest hmem
    exact ⟨r.sent.length, (write_eq_loop c hlen hwrite hret).trans hr⟩
  · next hpos =>
    refine ⟨0, ?_⟩
    rw [write, if_neg hpos]
    exact Option.some.inj h

/-- A call, by the count and the flag of `read_`. -/
theorem httpParseCalls_of_read {readCount : ℤ} {flag : Bool} {d : HttpExchange}
    (h : c.readCalls x.reads = some (readCount, flag, d)) :
    httpParseCalls fs c x
      = if flag = true then
          some d
        else if 0 ≤ readCount then
          (process fs d).2.writeCalls x.writes
        else
          d.writeCalls x.writes := by
  unfold httpParseCalls
  rw [h, Option.bind_eq_bind, Option.bind_some]
  exact write_of_read (fun c => c.writeCalls x.writes) some (process fs d) d readCount flag

/-- **A call is the one by the number of bytes**, if none of its `write`s fails. -/
theorem exists_httpParse (hno : NoError x.writes)
    (hlen : ∀ i, x.Finds i → (httpParse fs c i).response.length < 2 ^ 31)
    (h : httpParseCalls fs c x = some c') : ∃ i, x.Finds i ∧ httpParse fs c i = c' := by
  obtain ⟨⟨readCount, flag, d⟩, hread, -⟩ := Option.bind_eq_some_iff.mp h
  obtain ⟨ending, hending, hd⟩ := read_of_readCalls hread
  have hfinds : ∀ room, x.Finds ⟨x.bytes, ending, room⟩ := fun room => ⟨rfl, hending⟩
  -- whatever is written, it is written from a buffer that an `int` can count
  have hwrite : ∀ e : HttpExchange,
      (∀ room, httpParse fs c ⟨x.bytes, ending, room⟩ = e.write room) →
        e.writeCalls x.writes = some c' → ∃ i, x.Finds i ∧ httpParse fs c i = c' := by
    intro e he hc'
    have hresponse := hlen _ (hfinds 0)
    rw [he, response_write, response, List.length_append] at hresponse
    obtain ⟨room, hroom⟩ := write_of_writeCalls (by omega) hno hc'
    exact ⟨_, hfinds room, (he room).trans hroom⟩
  rw [httpParseCalls_of_read hread] at h
  split at h
  · next hflag =>
    refine ⟨_, hfinds 0, ?_⟩
    rw [httpParse_of_read (hd 0), if_pos hflag]
    exact Option.some.inj h
  · next hflag =>
    split at h
    · next hcount =>
      refine hwrite _ (fun room => ?_) h
      rw [httpParse_of_read (hd room), if_neg hflag, if_pos hcount]
    · next hcount =>
      refine hwrite _ (fun room => ?_) h
      rw [httpParse_of_read (hd room), if_neg hflag, if_neg hcount]

/-- Reading returns, if one of the outcomes ends its loop. -/
theorem readCalls_returns (c : HttpExchange) {os : List ReadOutcome} (hends : ∃ o ∈ os, o.Ends) :
    ∃ r, c.readCalls os = some r := by
  obtain ⟨last, hfind⟩ : ∃ last, (os.find? fun o => o.Ends) = some last := by
    rw [← Option.isSome_iff_exists, List.find?_isSome]
    simpa using hends
  obtain ⟨hlast, pre, post, hos, hpre⟩ := List.find?_eq_some_iff_append.mp hfind
  obtain ⟨r, hr, -⟩ := read_eq_loop c (by simpa using hpre) (by simpa using hlast) post 0
  unfold readCalls
  rw [hos, hr]
  exact ⟨_, rfl⟩

/-- Writing returns, if its calls do not come to nothing for ever. -/
theorem writeCalls_returns (c : HttpExchange) {os : Stream' WriteOutcome}
    (hfair : ∀ n, ∃ m, n ≤ m ∧ ¬(os.get m).Stalls) :
    ∃ n c', c.writeCalls (os.take n) = some c' := by
  obtain ⟨n, r, hr⟩ := writen_returns c.request.outbuf hfair
  refine ⟨n, ?_⟩
  unfold writeCalls
  split
  · rw [Http.write_eq_writen, hr]
    exact ⟨_, rfl⟩
  · exact ⟨c, rfl⟩

/-- **A call returns**, if its reading ends and its writing does not come to nothing for
ever. -/
theorem httpParseCalls_returns (fs : FileSystem) (c : HttpExchange) {reads : List ReadOutcome}
    (hends : ∃ o ∈ reads, o.Ends) {os : Stream' WriteOutcome}
    (hfair : ∀ n, ∃ m, n ≤ m ∧ ¬(os.get m).Stalls) :
    ∃ n c', httpParseCalls fs c ⟨reads, os.take n⟩ = some c' := by
  obtain ⟨⟨readCount, flag, d⟩, hread⟩ := readCalls_returns c hends
  have hcall : ∀ n, httpParseCalls fs c ⟨reads, os.take n⟩ = _ := fun n =>
    httpParseCalls_of_read (x := ⟨reads, os.take n⟩) hread
  simp only [hcall]
  split
  · exact ⟨0, d, rfl⟩
  · split
    · exact writeCalls_returns _ hfair
    · exact writeCalls_returns _ hfair

/-- **The calls for a request are those by the number of bytes**, if no `write` fails and
an `int` holds the length of the response at all times. -/
theorem exists_feed {xs : List HttpCalls} (hno : ∀ x ∈ xs, NoError x.writes)
    (hlen : ∀ ys is, ys <+: xs → List.Forall₂ HttpCalls.Finds ys is →
      (feed fs is).response.length < 2 ^ 31)
    (h : feedCalls fs xs = some c) : ∃ is, List.Forall₂ HttpCalls.Finds xs is ∧ feed fs is = c := by
  induction xs using List.reverseRecOn generalizing c with
  | nil => exact ⟨[], .nil, Option.some.inj h⟩
  | append_singleton xs x ih =>
    unfold feedCalls at h
    rw [List.foldlM_append] at h
    obtain ⟨d, hd, hc⟩ := Option.bind_eq_some_iff.mp h
    obtain ⟨is, hfinds, rfl⟩ := ih (fun y hy => hno y (List.mem_append_left _ hy))
      (fun ys is hys => hlen ys is (hys.trans (List.prefix_append _ _))) hd
    have hcall : httpParseCalls fs (feed fs is) x = some c := by
      simpa using hc
    have hconcat : ∀ i, feed fs (is ++ [i]) = httpParse fs (feed fs is) i := fun i =>
      List.foldl_concat _ _ _ _
    have hall : ∀ i, x.Finds i → List.Forall₂ HttpCalls.Finds (xs ++ [x]) (is ++ [i]) :=
      fun i hi => List.rel_append hfinds (.cons hi .nil)
    obtain ⟨i, hi, hfeed⟩ := exists_httpParse (hno x (by simp)) (fun i hi => by
      rw [← hconcat]
      exact hlen _ _ (List.prefix_refl _) (hall i hi)) hcall
    exact ⟨is ++ [i], hall i hi, (hconcat i).trans hfeed⟩

end HttpExchange

end Version1
