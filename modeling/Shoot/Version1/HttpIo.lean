import Shoot.ToolsRead
import Shoot.ToolsWrite
import Shoot.Version1.Http

/-!
# Reading and writing in version 1.0

`Http::write_` and `Http::read_` are loops of their own over `write` and `read`. The
first is the loop of `writen`, kept apart from it: its count of what is left has a
sign. The two go through the same states and return the same (`Http.write_eq_writen`).
The second differs from `readn` where the input ends: it leaves the loop there, and
returns the count.

`Shoot.Version1.Http` has one step for each of them, and says what it found by the
bytes that were read and the number that could be written. These are what the loops
have come to when they return (`HttpExchange.read_eq_loop`,
`HttpExchange.write_eq_loop`).
-/

namespace Version1

open CxxString Tools

namespace Http

/-! ## Writing -/

/-- The local variables of `write_`, and what the kernel has taken. -/
structure Writing where
  left : ℤ
  writeCount : ℕ
  /-- The offset of `ptr` in the buffer. -/
  ptr : ℕ
  sent : List UInt8
deriving DecidableEq, Repr

/-- The kernel has taken `written` bytes from `ptr` on. -/
def Writing.advance (s : Writing) (outbuf : List UInt8) (written : ℤ) : Writing where
  left := s.left - written
  writeCount := s.writeCount + written.toNat
  ptr := s.ptr + written.toNat
  sent := s.sent ++ (outbuf.drop s.ptr).take written.toNat

/-- `write_`, behind its loop. -/
def writeEnd (outbuf : List UInt8) (s : Writing) : WriteResult where
  ret := castInt s.writeCount
  outBuf :=
    if (s.writeCount : ℤ) = castInt outbuf.length then [] else substr outbuf s.writeCount npos
  sent := s.sent

/-- **The loop of `write_(fd, outbuf)`.** -/
def writeLoop (outbuf : List UInt8) : CallLoop Writing WriteOutcome WriteResult where
  test s := if s.left > 0 then none else some (writeEnd outbuf s)
  round s o :=
    let written := o.ret s.left.toNat
    if written < 0 then
      if o.errno = some .eintr then
        .inl s
      else if o.errno = some .eagain then
        .inr (writeEnd outbuf s)
      else
        .inr ⟨-1, outbuf, s.sent⟩
    else
      .inl (s.advance outbuf written)

/-- **`write_(fd, outbuf)`**, and the outcomes that are left. -/
def write (outbuf : List UInt8) (os : List WriteOutcome) :
    Option (WriteResult × List WriteOutcome) :=
  (writeLoop outbuf).run ⟨outbuf.length, 0, 0, []⟩ os

/-- The variables of `writen` are those of `write_`. -/
structure Same (s : Tools.Writing) (t : Writing) : Prop where
  left : t.left = s.nleft
  count : t.writeCount = s.writeCnt
  ptr : t.ptr = s.ptr
  sent : t.sent = s.sent

/-- They go to the same. -/
theorem Same.end_eq {s : Tools.Writing} {t : Writing} (h : Same s t) (outBuf : List UInt8) :
    writenEnd outBuf s = writeEnd outBuf t := by
  unfold writenEnd writeEnd
  rw [h.count, h.sent]

/-- They advance to the same. -/
theorem Same.advance {s : Tools.Writing} {t : Writing} (h : Same s t) (outBuf : List UInt8)
    {n : ℕ} (hn : n ≤ s.nleft) : Same (s.advance outBuf n) (t.advance outBuf n) := by
  refine ⟨?_, congrArg (· + n) h.count, congrArg (· + n) h.ptr, ?_⟩
  · show t.left - n = (s.nleft - n : ℕ)
    rw [h.left]
    omega
  · show t.sent ++ (outBuf.drop t.ptr).take n = s.sent ++ (outBuf.drop s.ptr).take n
    rw [h.sent, h.ptr]

/-- **`write_` does what `writen` does**, with the same outcomes. -/
theorem write_eq_writen (outBuf : List UInt8) (os : List WriteOutcome) :
    write outBuf os = writen outBuf os := by
  refine (CallLoop.run_eq_run (R := Same) ?_ ?_ ⟨rfl, rfl, rfl, rfl⟩).symm
  · intro s t h
    show (if s.nleft > 0 then none else some (writenEnd outBuf s))
      = if t.left > 0 then none else some (writeEnd outBuf t)
    rw [h.left, h.end_eq]
    exact if_congr Int.natCast_pos.symm rfl rfl
  · intro s t o h _
    have hend := h.end_eq outBuf
    rw [writenLoop_round]
    cases o with
    | room n =>
      have hround : (writeLoop outBuf).round t (.room n)
          = .inl (t.advance outBuf (min n s.nleft : ℕ)) := by
        have hnonneg : ¬(WriteOutcome.room n).ret s.nleft < 0 := by
          rw [WriteOutcome.ret_room]
          omega
        unfold writeLoop
        dsimp only
        rw [h.left, Int.toNat_natCast, if_neg hnonneg, WriteOutcome.ret_room]
      exact Or.inl ⟨_, _, rfl, hround, h.advance outBuf (min_le_right _ _)⟩
    | fail e =>
      cases e with
      | eintr => exact Or.inl ⟨s, t, rfl, rfl, h⟩
      | eagain => exact Or.inr ⟨_, rfl, congrArg Sum.inr hend.symm⟩
      | other e =>
        refine Or.inr ⟨_, rfl, ?_⟩
        rw [← h.sent]
        rfl

/-- **A partial write loses and repeats nothing.** If the calls do not come to nothing
for ever, `writen` and `write_` return after the same finitely many calls, with the
same result; unless one of these meets an error other than `EINTR` and `EAGAIN`, the
result is the number of bytes taken, these and the ones left in the buffer are those
that were given, and none is left except after `EAGAIN`. -/
theorem partial_write {outBuf : List UInt8} (hlen : outBuf.length < 2 ^ 31)
    {os : Stream' WriteOutcome} (hfair : ∀ n, ∃ m, n ≤ m ∧ ¬(os.get m).Stalls) :
    ∃ n r, writen outBuf (os.take n) = some (r, []) ∧ write outBuf (os.take n) = some (r, [])
      ∧ ((∀ e, WriteOutcome.fail (.other e) ∉ os.take n) →
        r.ret = r.sent.length ∧ r.sent ++ r.outBuf = outBuf
          ∧ (r.outBuf = [] ∨ (os.take n).getLast? = some (.fail .eagain))) := by
  obtain ⟨n, r, hr⟩ := writen_returns outBuf hfair
  refine ⟨n, r, hr, (write_eq_writen outBuf _).trans hr, fun hno => ?_⟩
  obtain ⟨used, s, hos, hs, -, hends⟩ := exists_ends hr
  rw [List.append_nil] at hos
  rw [hos] at hno ⊢
  cases hends with
  | ended _ h =>
    rw [hs.end_eq hlen]
    refine ⟨rfl, hs.sent_append, h.imp_left fun hleft => ?_⟩
    have hcnt := hs.nleft_eq
    exact List.drop_eq_nil_of_le (by omega)
  | broken e hlast => exact absurd (List.mem_of_getLast? hlast) (hno e)

/-- There is room for two bytes of four, and then for no more. -/
theorem partial_write_again :
    ∃ n r, writen (chars "abcd")
        ((Stream'.cons (WriteOutcome.room 2) (Stream'.const (.fail .eagain))).take n) = some (r, [])
      ∧ r.ret = r.sent.length ∧ r.sent ++ r.outBuf = chars "abcd" := by
  have hstall : ¬(WriteOutcome.fail .eagain).Stalls := by decide
  have hfair : ∀ n, ∃ m, n ≤ m
      ∧ ¬((Stream'.cons (WriteOutcome.room 2) (Stream'.const (.fail .eagain))).get m).Stalls :=
    fun n => ⟨n + 1, Nat.le_succ n, hstall⟩
  obtain ⟨n, r, hr, -, hspec⟩ := partial_write (show (chars "abcd").length < 2 ^ 31 by decide) hfair
  have hno : ∀ e, WriteOutcome.fail (.other e)
      ∉ (Stream'.cons (WriteOutcome.room 2) (Stream'.const (.fail .eagain))).take n := by
    intro e hmem
    obtain ⟨k, hk, hget⟩ := List.getElem_of_mem hmem
    rw [Stream'.take_get] at hget
    cases k with
    | zero => cases hget
    | succ k => cases hget
  exact ⟨n, r, hr, (hspec hno).1, (hspec hno).2.1⟩

/-! ## Reading -/

/-- The loop of `read_(fd, inbuf, flag)`, which returns the count at the end of the
input too. -/
def readLoop : CallLoop Draining ReadOutcome DrainResult := drainLoop 4096 castInt

/-- **`read_(fd, inbuf, flag)`**, and the outcomes that are left. -/
def read (inbuf : List UInt8) (flag : Bool) (os : List ReadOutcome) :
    Option (DrainResult × List ReadOutcome) :=
  readLoop.run ⟨0, inbuf, flag⟩ os

end Http

/-! ## The calls of a request -/

/-- How a call ends its reading. -/
def ReadEnd.of : ReadOutcome → ReadEnd
  | .eof => .closed
  | .fail .eagain => .again
  | _ => .error

namespace HttpExchange

/-- **What a call reads** is what the loop has come to. -/
theorem read_eq_loop (c : HttpExchange) {pre : List ReadOutcome} {last : ReadOutcome}
    (hpre : ∀ o ∈ pre, ¬o.Ends) (hlast : last.Ends) (rest : List ReadOutcome) (room : ℕ) :
    ∃ r, Http.read c.request.inbuf false (pre ++ last :: rest) = some (r, rest)
      ∧ c.read ⟨delivered pre, .of last, room⟩
        = (r.ret, r.zero, { c with request := { c.request with inbuf := r.inBuf } }) := by
  unfold Http.read Http.readLoop
  rw [drainLoop_run _ _ hpre, Nat.zero_add]
  rcases hlast with rfl | rfl | ⟨e, rfl⟩
  · refine ⟨⟨castInt (delivered pre).length, c.request.inbuf ++ delivered pre, true⟩,
      CallLoop.run_cons_inr rfl rfl, ?_⟩
    rw [read, ReadEnd.of]
  · refine ⟨⟨castInt (delivered pre).length, c.request.inbuf ++ delivered pre, false⟩,
      CallLoop.run_cons_inr rfl rfl, ?_⟩
    rw [read, ReadEnd.of]
  · refine ⟨⟨-1, c.request.inbuf ++ delivered pre, false⟩, CallLoop.run_cons_inr rfl rfl, ?_⟩
    rw [read, ReadEnd.of]
    · nofun
    · nofun

/-- **What a call writes** is what the loop has come to, unless it has met an error. -/
theorem write_eq_loop (c : HttpExchange) (hlen : c.request.outbuf.length < 2 ^ 31)
    {os rest : List WriteOutcome} {r : WriteResult}
    (h : Http.write c.request.outbuf os = some (r, rest)) (hret : r.ret ≠ -1) :
    c.write r.sent.length
      = { c with
          sent := c.sent ++ r.sent
          request := { c.request with outbuf := r.outBuf } } := by
  rw [Http.write_eq_writen] at h
  obtain ⟨used, s, -, hs, -, hends⟩ := exists_ends h
  cases hends with
  | broken e => exact absurd rfl hret
  | ended hno hleft =>
    have htake : c.request.outbuf.take s.sent.length = s.sent := by
      rw [hs.length_sent, hs.sent_eq]
    rw [hs.end_eq hlen]
    unfold HttpExchange.write
    split
    · rw [htake, hs.length_sent]
    · next hpos =>
      have hnil : c.request.outbuf = [] :=
        List.eq_nil_of_length_eq_zero (Nat.eq_zero_of_not_pos hpos)
      rw [hs.sent_eq, hnil, List.take_nil, List.drop_nil, List.append_nil, ← hnil]

end HttpExchange

end Version1
