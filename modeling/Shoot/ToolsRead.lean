import Shoot.CallLoop
import Shoot.FixedBuffer
import Shoot.Syscall

/-!
# Reading into a string, and into a buffer

`readn(fd, _in_buf, zero)` reads until there is nothing more to read, and appends what
it gets to a string. It keeps all bytes, and `zero` tells whether the input has ended;
but there it returns 0, whatever it has appended in the same call
(`Tools.readn_string_iff`). The count behind the loop is never reached.

`readn(fd, buf, n)` is meant to read until `n` bytes are there. Its `return` stands in
the loop, so it makes one call, and where that finds the end of the input, or `n` is
zero, it ends without any value (`Tools.readn_buffer_iff`).
-/

namespace ReadOutcome

/-- A loop over `read` ends with it: the end of the input, `EAGAIN`, or an error other
than `EINTR`. -/
def Ends (o : ReadOutcome) : Prop := o = eof ∨ o = fail .eagain ∨ ∃ e, o = fail (.other e)

theorem not_ends_data (b : UInt8) (bs : List UInt8) : ¬(data b bs).Ends := by
  rintro (⟨⟨⟩⟩ | ⟨⟨⟩⟩ | ⟨_, ⟨⟩⟩)

theorem not_ends_eintr : ¬(fail .eintr).Ends := by
  rintro (⟨⟨⟩⟩ | ⟨⟨⟩⟩ | ⟨_, ⟨⟩⟩)

instance : DecidablePred Ends
  | data b bs => isFalse (not_ends_data b bs)
  | eof => isTrue (Or.inl rfl)
  | fail .eagain => isTrue (Or.inr (Or.inl rfl))
  | fail (.other e) => isTrue (Or.inr (Or.inr ⟨e, rfl⟩))
  | fail .eintr => isFalse not_ends_eintr

end ReadOutcome

namespace Tools

/-! ## Into a string -/

/-- The variables of `readn(fd, _in_buf, zero)`. -/
structure Draining where
  readCnt : ℕ
  inBuf : List UInt8
  zero : Bool
deriving DecidableEq, Repr

/-- What it returns, and leaves in its arguments. -/
structure DrainResult where
  ret : ℤ
  inBuf : List UInt8
  zero : Bool
deriving DecidableEq, Repr

/-- **A loop that reads until there is nothing more to read**, with a buffer of
`bufSize` bytes. At the end of the input it returns `atEof` of the count. -/
def drainLoop (bufSize : ℕ) (atEof : ℕ → ℤ) : CallLoop Draining ReadOutcome DrainResult where
  test _ := none
  round s o :=
    let nread := o.ret bufSize
    if nread < 0 then
      if o.errno = some .eintr then
        .inl s
      else if o.errno = some .eagain then
        .inr ⟨castInt s.readCnt, s.inBuf, s.zero⟩
      else
        .inr ⟨-1, s.inBuf, s.zero⟩
    else if nread = 0 then
      .inr ⟨atEof s.readCnt, s.inBuf, true⟩
    else
      .inl { s with readCnt := s.readCnt + nread.toNat, inBuf := s.inBuf ++ o.delivered bufSize }

/-- The loop of `readn(fd, _in_buf, zero)`, which returns 0 at the end of the input. -/
def readnStringLoop : CallLoop Draining ReadOutcome DrainResult := drainLoop 4096 fun _ => 0

/-- **`readn(fd, _in_buf, zero)`**, and the outcomes that are left. -/
def readnString (inBuf : List UInt8) (zero : Bool) (os : List ReadOutcome) :
    Option (DrainResult × List ReadOutcome) :=
  readnStringLoop.run ⟨0, inBuf, zero⟩ os

/-- The bytes that some calls deliver which ask for 4096. -/
def delivered (os : List ReadOutcome) : List UInt8 := os.flatMap (ReadOutcome.delivered 4096)

/-- Calls that do not end the loop append what they deliver. -/
theorem drainLoop_run (atEof : ℕ → ℤ) (s : Draining) {pre : List ReadOutcome}
    (hpre : ∀ o ∈ pre, ¬o.Ends) (os : List ReadOutcome) :
    (drainLoop 4096 atEof).run s (pre ++ os)
      = (drainLoop 4096 atEof).run
          ⟨s.readCnt + (delivered pre).length, s.inBuf ++ delivered pre, s.zero⟩ os := by
  induction pre generalizing s with
  | nil => rw [delivered, List.flatMap_nil, List.append_nil]; rfl
  | cons o pre ih =>
    have hpre' : ∀ o ∈ pre, ¬o.Ends := fun o ho => hpre o (List.mem_cons_of_mem _ ho)
    have ho := hpre o List.mem_cons_self
    rw [List.cons_append]
    cases o with
    | data b bs =>
      have hpos := ReadOutcome.ret_data_pos (show 0 < 4096 by decide) b bs
      have hround : (drainLoop 4096 atEof).round s (.data b bs)
          = .inl { s with
              readCnt := s.readCnt + ((ReadOutcome.data b bs).delivered 4096).length
              inBuf := s.inBuf ++ (ReadOutcome.data b bs).delivered 4096 } := by
        unfold drainLoop
        dsimp only
        rw [if_neg (Int.not_lt.mpr (Int.le_of_lt hpos)), if_neg (Int.ne_of_gt hpos)]
        rfl
      rw [CallLoop.run_cons_inl rfl hround, ih _ hpre', delivered, delivered, List.flatMap_cons,
        List.length_append, Nat.add_assoc, List.append_assoc]
    | eof => exact absurd (Or.inl rfl) ho
    | fail e =>
      cases e with
      | eintr =>
        have hround : (drainLoop 4096 atEof).round s (.fail .eintr) = .inl s := rfl
        rw [CallLoop.run_cons_inl rfl hround]
        exact ih s hpre'
      | eagain => exact absurd (Or.inr (Or.inl rfl)) ho
      | other e => exact absurd (Or.inr (Or.inr ⟨e, rfl⟩)) ho

/-- **It reports what it has appended**: the bytes are appended in order, `zero` is set
at the end of the input, and only there, and unless there was an error the result is
the number of bytes. -/
structure Reports (inBuf : List UInt8) (pre : List ReadOutcome) (last : ReadOutcome)
    (r : DrainResult) : Prop where
  in_buf : r.inBuf = inBuf ++ delivered pre
  zero : r.zero = true ↔ last = .eof
  ret : (∀ e, last ≠ .fail (.other e)) → r.ret = (delivered pre).length

/-- **When `readn` reports what it has appended**: exactly if it does not find the end
of the input behind bytes, and an `int` holds the number of bytes where it finds
`EAGAIN`. -/
theorem readn_string_iff (inBuf : List UInt8) {pre : List ReadOutcome} {last : ReadOutcome}
    (hpre : ∀ o ∈ pre, ¬o.Ends) (hlast : last.Ends) :
    ∃ r, readnString inBuf false (pre ++ [last]) = some (r, [])
      ∧ (Reports inBuf pre last r
        ↔ (last = .eof → delivered pre = [])
          ∧ (last = .fail .eagain → (delivered pre).length < 2 ^ 31)) := by
  unfold readnString readnStringLoop
  rw [drainLoop_run _ _ hpre, Nat.zero_add]
  rcases hlast with rfl | rfl | ⟨e, rfl⟩
  · refine ⟨⟨0, inBuf ++ delivered pre, true⟩, CallLoop.run_cons_inr rfl rfl, ?_⟩
    constructor
    · rintro ⟨-, -, hret⟩
      have hlen : (0 : ℤ) = (delivered pre).length := hret nofun
      exact ⟨fun _ => List.eq_nil_of_length_eq_zero (by omega), nofun⟩
    · rintro ⟨hnil, -⟩
      refine ⟨rfl, iff_of_true rfl rfl, fun _ => ?_⟩
      rw [hnil rfl]
      rfl
  · have hrun : (drainLoop 4096 fun _ => 0).run
        ⟨(delivered pre).length, inBuf ++ delivered pre, false⟩ [.fail .eagain]
          = some (⟨castInt (delivered pre).length, inBuf ++ delivered pre, false⟩, []) :=
      CallLoop.run_cons_inr rfl rfl
    have hcast := castInt_eq_self (n := (delivered pre).length)
    generalize castInt (delivered pre).length = c at hrun hcast
    refine ⟨_, hrun, ?_⟩
    constructor
    · rintro ⟨-, -, hret⟩
      exact ⟨nofun, fun _ => hcast.mp (hret nofun)⟩
    · rintro ⟨-, hlen⟩
      exact ⟨rfl, iff_of_false Bool.false_ne_true nofun, fun _ => hcast.mpr (hlen rfl)⟩
  · refine ⟨⟨-1, inBuf ++ delivered pre, false⟩, CallLoop.run_cons_inr rfl rfl, ?_⟩
    refine iff_of_true ⟨rfl, iff_of_false Bool.false_ne_true nofun, fun h => ?_⟩ ⟨nofun, nofun⟩
    exact absurd rfl (h e)

/-- Bytes, an interruption, and nothing more for now. -/
theorem readn_string_iff_again :
    ∃ r, readnString [120] false ([.data 97 [98], .fail .eintr] ++ [.fail .eagain]) = some (r, [])
      ∧ (Reports [120] [.data 97 [98], .fail .eintr] (.fail .eagain) r
        ↔ (ReadOutcome.fail .eagain = .eof → delivered [.data 97 [98], .fail .eintr] = [])
          ∧ (ReadOutcome.fail .eagain = .fail .eagain →
            (delivered [.data 97 [98], .fail .eintr]).length < 2 ^ 31)) :=
  readn_string_iff [120] (by simp [ReadOutcome.Ends]) (Or.inr (Or.inl rfl))

/-- Two bytes and the end of the input: the bytes are appended, and the result is 0. -/
theorem count_lost :
    ¬∀ (inBuf : List UInt8) (pre : List ReadOutcome) (last : ReadOutcome) (r : DrainResult),
      readnString inBuf false (pre ++ [last]) = some (r, []) → Reports inBuf pre last r := by
  intro h
  have hreports := h [] [.data 97 [98]] .eof ⟨0, [97, 98], true⟩ (by decide +kernel)
  exact absurd (hreports.ret nofun) (by decide +kernel)

/-! ## Into a buffer -/

/-- The variables of `readn(fd, buf, n)`, and the memory at `buf`. -/
structure Filling where
  nleft : ℕ
  readCnt : ℕ
  /-- The offset of `ptr` from `buf`. -/
  ptr : ℕ
  buf : List UInt8
deriving DecidableEq, Repr

/-- What it returns, if it returns a value, and the memory at `buf`. -/
structure FillResult where
  ret : Option ℤ
  buf : List UInt8
deriving DecidableEq, Repr

/-- The end of a round of `readn(fd, buf, n)`, which returns. -/
def Filling.count (s : Filling) (nread : ℕ) : FillResult :=
  let s := { s with
    readCnt := s.readCnt + nread
    nleft := s.nleft - nread
    ptr := s.ptr + nread }
  ⟨some (castInt s.readCnt), s.buf⟩

/-- **The loop of `readn(fd, buf, n)`.** It reads to `buf`, not to `ptr`. Behind it there
is no `return`. -/
def readnBufferLoop : CallLoop Filling ReadOutcome FillResult where
  test s := if s.nleft > 0 then none else some ⟨none, s.buf⟩
  round s o :=
    let nread := o.ret s.nleft
    let bytes := o.delivered s.nleft
    let s := { s with buf := bytes ++ s.buf.drop bytes.length }
    if nread < 0 then
      if o.errno = some .eintr then
        .inr (s.count 0)
      else if o.errno = some .eagain then
        .inr ⟨some (castInt s.readCnt), s.buf⟩
      else
        .inr ⟨some (-1), s.buf⟩
    else if nread = 0 then
      .inr ⟨none, s.buf⟩
    else
      .inr (s.count nread.toNat)

/-- **`readn(fd, buf, n)`**, and the outcomes that are left. -/
def readnBuffer (n : ℕ) (buf : List UInt8) (os : List ReadOutcome) :
    Option (FillResult × List ReadOutcome) :=
  readnBufferLoop.run ⟨n, 0, 0, buf⟩ os

/-- The bytes that some calls deliver, each of which asks for what is left of `n`. -/
def deliveredUpTo (n : ℕ) : List ReadOutcome → List UInt8
  | [] => []
  | o :: os => o.delivered n ++ deliveredUpTo (n - (o.delivered n).length) os

/-- **It fills its buffer**: the bytes stand one behind the other from the start, the
result is their number unless there was an error, and fewer than `n` come only of the
end of the input, `EAGAIN` or an error. -/
structure Fills (n : ℕ) (buf : List UInt8) (used : List ReadOutcome) (r : FillResult) :
    Prop where
  buf : r.buf = deliveredUpTo n used ++ buf.drop (deliveredUpTo n used).length
  ret : (∀ e, used.getLast? ≠ some (.fail (.other e))) →
    r.ret = some ((deliveredUpTo n used).length : ℤ)
  full : (deliveredUpTo n used).length < n → ∃ o, used.getLast? = some o ∧ o.Ends

/-- One call is enough, since a round always returns. -/
theorem readnBuffer_cons {n : ℕ} (hn : 0 < n) (buf : List UInt8) {o : ReadOutcome}
    {r : FillResult} (h : readnBufferLoop.round ⟨n, 0, 0, buf⟩ o = .inr r) :
    readnBuffer n buf [o] = some (r, []) :=
  CallLoop.run_cons_inr (if_pos hn) h

/-- To fill the buffer with one call. -/
theorem fills_singleton {n : ℕ} {buf : List UInt8} {o : ReadOutcome} {ret : Option ℤ} :
    Fills n buf [o] ⟨ret, o.delivered n ++ buf.drop (o.delivered n).length⟩
      ↔ ((∀ e, o ≠ .fail (.other e)) → ret = some ((o.delivered n).length : ℤ))
        ∧ ((o.delivered n).length < n → o.Ends) := by
  have hD : deliveredUpTo n [o] = o.delivered n := List.append_nil _
  have hlast : ∀ o', [o].getLast? = some o' ↔ o = o' := fun o' => by
    rw [List.getLast?_singleton, Option.some.injEq]
  constructor
  · rintro ⟨-, hret, hfull⟩
    rw [hD] at hret hfull
    refine ⟨fun h => hret fun e he => h e ((hlast _).mp he), fun h => ?_⟩
    obtain ⟨o', ho', hends⟩ := hfull h
    rwa [(hlast o').mp ho']
  · rintro ⟨hret, hfull⟩
    refine ⟨by rw [hD], fun h => ?_, fun h => ⟨o, (hlast o).mpr rfl, hfull (hD ▸ h)⟩⟩
    rw [hD]
    exact hret fun e he => h e ((hlast _).mpr he)

/-- **Some bytes fill the buffer** if they are all that was asked for. -/
theorem readnBuffer_data {n : ℕ} (hn : 0 < n) (buf : List UInt8) (b : UInt8) (bs : List UInt8) :
    ∃ r, readnBuffer n buf [.data b bs] = some (r, [])
      ∧ (Fills n buf [.data b bs] r
        ↔ ((ReadOutcome.data b bs).delivered n).length = n ∧ n < 2 ^ 31) := by
  have hpos := ReadOutcome.ret_data_pos hn b bs
  have hround : readnBufferLoop.round ⟨n, 0, 0, buf⟩ (.data b bs)
      = .inr ⟨some (castInt ((ReadOutcome.data b bs).delivered n).length),
        (ReadOutcome.data b bs).delivered n
          ++ buf.drop ((ReadOutcome.data b bs).delivered n).length⟩ := by
    unfold readnBufferLoop
    dsimp only
    rw [if_neg (Int.not_lt.mpr (Int.le_of_lt hpos)), if_neg (Int.ne_of_gt hpos)]
    unfold Filling.count
    rw [ReadOutcome.ret_data, Int.toNat_natCast, Nat.zero_add]
  refine ⟨_, readnBuffer_cons hn buf hround, ?_⟩
  have hle : ((ReadOutcome.data b bs).delivered n).length ≤ n := by
    rw [ReadOutcome.delivered, List.length_take]
    omega
  have hcast := castInt_eq_self (n := ((ReadOutcome.data b bs).delivered n).length)
  rw [fills_singleton, Option.some.injEq, hcast]
  generalize ((ReadOutcome.data b bs).delivered n).length = m at hle
  constructor
  · rintro ⟨hret, hfull⟩
    have hm : m = n := by
      by_contra hne
      exact ReadOutcome.not_ends_data b bs (hfull (Nat.lt_of_le_of_ne hle hne))
    exact ⟨hm, hm ▸ hret fun e h => by cases h⟩
  · rintro ⟨rfl, hm⟩
    exact ⟨fun _ => hm, fun h => absurd h (Nat.lt_irrefl m)⟩

/-- **The end of the input** gives no result. -/
theorem readnBuffer_eof {n : ℕ} (hn : 0 < n) (buf : List UInt8) :
    ∃ r, readnBuffer n buf [.eof] = some (r, []) ∧ ¬Fills n buf [.eof] r := by
  refine ⟨⟨none, buf⟩, readnBuffer_cons hn buf rfl, fun h => ?_⟩
  have hret := h.ret fun e he => by cases he
  cases hret

/-- **An interrupted call** is not made again. -/
theorem readnBuffer_eintr {n : ℕ} (hn : 0 < n) (buf : List UInt8) :
    ∃ r, readnBuffer n buf [.fail .eintr] = some (r, []) ∧ ¬Fills n buf [.fail .eintr] r := by
  refine ⟨_, readnBuffer_cons hn buf rfl, fun h => ?_⟩
  obtain ⟨o, ho, hends⟩ := h.full hn
  cases ho
  rcases hends with h | h | ⟨e, h⟩
  · cases h
  · cases h
  · cases h

/-- **`EAGAIN`** is reported as no bytes, which is right. -/
theorem readnBuffer_eagain {n : ℕ} (hn : 0 < n) (buf : List UInt8) :
    ∃ r, readnBuffer n buf [.fail .eagain] = some (r, []) ∧ Fills n buf [.fail .eagain] r := by
  have hzero : castInt 0 = 0 := by decide
  refine ⟨_, readnBuffer_cons hn buf rfl, fills_singleton.mpr ⟨fun _ => ?_, fun _ => ?_⟩⟩
  · exact congrArg some hzero
  · exact Or.inr (Or.inl rfl)

/-- **Another error** is reported as such. -/
theorem readnBuffer_other {n : ℕ} (hn : 0 < n) (buf : List UInt8) (e : ℕ) :
    ∃ r, readnBuffer n buf [.fail (.other e)] = some (r, [])
      ∧ Fills n buf [.fail (.other e)] r := by
  refine ⟨⟨some (-1), buf⟩, readnBuffer_cons hn buf rfl, ?_⟩
  exact fills_singleton.mpr ⟨fun h => absurd rfl (h e), fun _ => Or.inr (Or.inr ⟨e, rfl⟩)⟩

/-- **When `readn` fills its buffer**: exactly if it is asked for something, and the first
call fails with `EAGAIN` or an error other than `EINTR`, or delivers all at once, in a
number that an `int` holds. -/
theorem readn_buffer_iff (n : ℕ) (buf : List UInt8) (os : Stream' ReadOutcome) :
    ∃ k r, readnBuffer n buf (os.take k) = some (r, [])
      ∧ (Fills n buf (os.take k) r
        ↔ 0 < n ∧ (os.head = .fail .eagain ∨ (∃ e, os.head = .fail (.other e))
          ∨ (os.head.delivered n).length = n ∧ n < 2 ^ 31)) := by
  obtain rfl | hn := Nat.eq_zero_or_pos n
  · refine ⟨0, ⟨none, buf⟩, CallLoop.run_of_test rfl, iff_of_false (fun h => ?_) fun h => ?_⟩
    · have hret := h.ret fun e he => by cases he
      cases hret
    · exact absurd h.1 (Nat.lt_irrefl 0)
  rw [and_iff_right hn]
  have htake : os.take 1 = [os.head] := rfl
  generalize os.head = o at htake
  refine ⟨1, ?_⟩
  rw [htake]
  cases o with
  | data b bs =>
    obtain ⟨r, hr, hfills⟩ := readnBuffer_data hn buf b bs
    refine ⟨r, hr, hfills.trans ⟨fun h => Or.inr (Or.inr h), ?_⟩⟩
    rintro (h | ⟨e, h⟩ | h)
    · cases h
    · cases h
    · exact h
  | eof =>
    obtain ⟨r, hr, hfills⟩ := readnBuffer_eof hn buf
    refine ⟨r, hr, iff_of_false hfills ?_⟩
    rintro (h | ⟨e, h⟩ | ⟨h, -⟩)
    · cases h
    · cases h
    · exact absurd h (Nat.ne_of_lt hn)
  | fail e =>
    cases e with
    | eintr =>
      obtain ⟨r, hr, hfills⟩ := readnBuffer_eintr hn buf
      refine ⟨r, hr, iff_of_false hfills ?_⟩
      rintro (h | ⟨e, h⟩ | ⟨h, -⟩)
      · cases h
      · cases h
      · exact absurd h (Nat.ne_of_lt hn)
    | eagain =>
      obtain ⟨r, hr, hfills⟩ := readnBuffer_eagain hn buf
      exact ⟨r, hr, iff_of_true hfills (Or.inl rfl)⟩
    | other e =>
      obtain ⟨r, hr, hfills⟩ := readnBuffer_other hn buf e
      exact ⟨r, hr, iff_of_true hfills (Or.inr (Or.inl ⟨e, rfl⟩))⟩

/-- Two bytes of four are there: it does not go on, although the other two follow. -/
theorem not_filled :
    ¬∀ (n : ℕ) (buf : List UInt8) (os : List ReadOutcome) (r : FillResult),
      readnBuffer n buf os = some (r, []) → Fills n buf os r := by
  intro h
  obtain ⟨o, ho, hends⟩ := (h 4 [0, 0, 0, 0] [.data 97 [98]] ⟨some 2, [97, 98, 0, 0]⟩
    (by decide +kernel)).full (by decide)
  cases ho
  exact ReadOutcome.not_ends_data 97 [98] hends

end Tools
