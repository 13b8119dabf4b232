import Shoot.CallLoop
import Shoot.CxxString
import Shoot.FixedBuffer
import Shoot.Syscall

/-!
# Writing a buffer

`writen(fd, _out_buf)` writes until the buffer is empty or `write` cannot take more,
and leaves in the buffer what was not written. It does its bookkeeping behind the
loop, by the count.

After each round the bytes taken by the kernel are the first `write_cnt` of the buffer
and `nleft` are left (`Writing.Sound`). So where the loop ends by itself or with
`EAGAIN`, the buffer is cut where the kernel stopped. On any other error it returns
from within the loop, with the buffer as it was: what was taken before the error is
still in it (`Tools.truthful_iff`).
-/

open CxxString

namespace Tools

/-- The local variables of `writen`, and what the kernel has taken. -/
structure Writing where
  nleft : ℕ
  writeCnt : ℕ
  /-- The offset of `ptr` in the buffer. -/
  ptr : ℕ
  sent : List UInt8
deriving DecidableEq, Repr

/-- What `writen` returns and leaves in its buffer, and what the kernel has taken. -/
structure WriteResult where
  ret : ℤ
  outBuf : List UInt8
  sent : List UInt8
deriving DecidableEq, Repr

/-- The kernel has taken `n` bytes from `ptr` on. -/
def Writing.advance (s : Writing) (outBuf : List UInt8) (n : ℕ) : Writing where
  nleft := s.nleft - n
  writeCnt := s.writeCnt + n
  ptr := s.ptr + n
  sent := s.sent ++ (outBuf.drop s.ptr).take n

/-- `writen`, behind its loop. -/
def writenEnd (outBuf : List UInt8) (s : Writing) : WriteResult where
  ret := castInt s.writeCnt
  outBuf := if (s.writeCnt : ℤ) = castInt outBuf.length then [] else substr outBuf s.writeCnt npos
  sent := s.sent

/-- **The loop of `writen(fd, _out_buf)`.** -/
def writenLoop (outBuf : List UInt8) : CallLoop Writing WriteOutcome WriteResult where
  test s := if s.nleft > 0 then none else some (writenEnd outBuf s)
  round s o :=
    let nwritten := o.ret s.nleft
    if nwritten < 0 then
      if o.errno = some .eintr then
        .inl s
      else if o.errno = some .eagain then
        .inr (writenEnd outBuf s)
      else
        .inr ⟨-1, outBuf, s.sent⟩
    else
      .inl (s.advance outBuf nwritten.toNat)

/-- **`writen(fd, _out_buf)`**, and the outcomes that are left. -/
def writen (outBuf : List UInt8) (os : List WriteOutcome) :
    Option (WriteResult × List WriteOutcome) :=
  (writenLoop outBuf).run ⟨outBuf.length, 0, 0, []⟩ os

section Rounds

variable {outBuf : List UInt8} {s s' : Writing} {o : WriteOutcome} {r : WriteResult}
  {past os rest : List WriteOutcome}

/-- **What a round does**, by the outcome of its call. -/
theorem writenLoop_round (outBuf : List UInt8) (s : Writing) (o : WriteOutcome) :
    (writenLoop outBuf).round s o
      = match o with
        | .room n => .inl (s.advance outBuf (min n s.nleft))
        | .fail .eintr => .inl s
        | .fail .eagain => .inr (writenEnd outBuf s)
        | .fail (.other _) => .inr ⟨-1, outBuf, s.sent⟩ := by
  cases o with
  | room n =>
    have hnonneg : ¬(WriteOutcome.room n).ret s.nleft < 0 := by
      rw [WriteOutcome.ret_room]
      omega
    unfold writenLoop
    dsimp only
    rw [if_neg hnonneg]
    rfl
  | fail e => cases e <;> rfl

/-- A round that goes on leaves the variables as they are, after `EINTR`, or advances
them. -/
theorem writenLoop_round_inl (hs : (writenLoop outBuf).round s o = .inl s') :
    (o = .fail .eintr ∧ s' = s) ∨ ∃ n, o = .room n ∧ s' = s.advance outBuf (min n s.nleft) := by
  rw [writenLoop_round] at hs
  cases o with
  | room n => exact Or.inr ⟨n, rfl, (Sum.inl.inj hs).symm⟩
  | fail e =>
    cases e with
    | eintr => exact Or.inl ⟨rfl, (Sum.inl.inj hs).symm⟩
    | eagain => cases hs
    | other e => cases hs

theorem writenLoop_test_eq_none : (writenLoop outBuf).test s = none ↔ 0 < s.nleft := by
  show (if s.nleft > 0 then none else some (writenEnd outBuf s)) = none ↔ _
  split
  · next h => exact ⟨fun _ => h, fun _ => rfl⟩
  · next h => exact ⟨fun ht => (nomatch ht), fun hn => absurd hn h⟩

theorem writenLoop_test_eq_some :
    (writenLoop outBuf).test s = some r ↔ s.nleft = 0 ∧ writenEnd outBuf s = r := by
  show (if s.nleft > 0 then none else some (writenEnd outBuf s)) = some r ↔ _
  split
  · next h => exact ⟨fun ht => (nomatch ht), fun hn => absurd hn.1 h.ne'⟩
  · next h => rw [Option.some.injEq, and_iff_right (Nat.eq_zero_of_not_pos h)]

/-- **The variables are in step**: the kernel has taken the first `write_cnt` bytes,
and `nleft` are left, from `ptr` on. -/
structure Writing.Sound (outBuf : List UInt8) (s : Writing) : Prop where
  nleft_eq : s.writeCnt + s.nleft = outBuf.length
  ptr_eq : s.ptr = s.writeCnt
  sent_eq : s.sent = outBuf.take s.writeCnt

theorem Writing.sound_start (outBuf : List UInt8) : Sound outBuf ⟨outBuf.length, 0, 0, []⟩ :=
  ⟨Nat.zero_add _, rfl, rfl⟩

/-- The variables stay in step. -/
theorem Writing.Sound.advance (h : s.Sound outBuf) {n : ℕ} (hn : n ≤ s.nleft) :
    (s.advance outBuf n).Sound outBuf := by
  have hlen := h.nleft_eq
  refine ⟨?_, ?_, ?_⟩
  · show s.writeCnt + n + (s.nleft - n) = outBuf.length
    omega
  · exact congrArg (· + n) h.ptr_eq
  · show s.sent ++ (outBuf.drop s.ptr).take n = outBuf.take (s.writeCnt + n)
    rw [h.sent_eq, h.ptr_eq, List.take_add]

theorem Writing.Sound.length_sent (h : s.Sound outBuf) : s.sent.length = s.writeCnt := by
  rw [h.sent_eq, List.length_take, min_eq_left (by have := h.nleft_eq; omega)]

/-- None of the outcomes is an error other than `EINTR` and `EAGAIN`. -/
def NoError (os : List WriteOutcome) : Prop := ∀ e, WriteOutcome.fail (.other e) ∉ os

/-- There was never room for a byte. -/
def NoRoom (os : List WriteOutcome) : Prop := ∀ n, WriteOutcome.room n ∈ os → n = 0

/-- **How `writen` returns**, from the state it has come to. -/
inductive Ends (outBuf : List UInt8) (s : Writing) (used : List WriteOutcome) :
    WriteResult → Prop where
  /-- Nothing is left, or `EAGAIN`. -/
  | ended (hno : NoError used) (h : s.nleft = 0 ∨ used.getLast? = some (.fail .eagain)) :
      Ends outBuf s used (writenEnd outBuf s)
  /-- Another error. -/
  | broken (e : ℕ) (hlast : used.getLast? = some (.fail (.other e))) :
      Ends outBuf s used ⟨-1, outBuf, s.sent⟩

/-- What holds after each round. -/
structure Writing.Reached (outBuf : List UInt8) (past : List WriteOutcome) (s : Writing) :
    Prop where
  sound : s.Sound outBuf
  no_error : NoError past
  no_room : s.writeCnt = 0 ↔ NoRoom past

theorem noError_concat : NoError (past ++ [o]) ↔ NoError past ∧ ∀ e, o ≠ .fail (.other e) := by
  unfold NoError
  simp only [List.mem_append, List.mem_singleton, not_or, forall_and, eq_comm, ne_eq]

theorem noRoom_concat : NoRoom (past ++ [o]) ↔ NoRoom past ∧ ∀ n, o = .room n → n = 0 := by
  unfold NoRoom
  simp only [List.mem_append, List.mem_singleton, or_imp, forall_and, eq_comm]

/-- A call that fails takes no byte. -/
theorem noRoom_concat_fail (e : Errno) : NoRoom (past ++ [.fail e]) ↔ NoRoom past :=
  noRoom_concat.trans (and_iff_left nofun)

/-- **A round that goes on.** -/
theorem Writing.Reached.round (h : s.Reached outBuf past)
    (ht : (writenLoop outBuf).test s = none) (hs : (writenLoop outBuf).round s o = .inl s') :
    s'.Reached outBuf (past ++ [o]) := by
  have hleft := writenLoop_test_eq_none.mp ht
  rcases writenLoop_round_inl hs with ⟨rfl, rfl⟩ | ⟨n, rfl, rfl⟩
  · exact ⟨h.sound, noError_concat.mpr ⟨h.no_error, nofun⟩,
      h.no_room.trans (noRoom_concat_fail _).symm⟩
  · refine ⟨h.sound.advance (min_le_right _ _), noError_concat.mpr ⟨h.no_error, nofun⟩, ?_⟩
    have hzero : s.writeCnt + min n s.nleft = 0 ↔ s.writeCnt = 0 ∧ n = 0 := by omega
    rw [noRoom_concat, ← h.no_room]
    refine hzero.trans (and_congr_right fun _ => ⟨fun hn m hm => ?_, fun hall => hall n rfl⟩)
    exact (WriteOutcome.room.inj hm).symm.trans hn

/-- **A round that returns.** -/
theorem Writing.Reached.ends (h : s.Reached outBuf past)
    (hs : (writenLoop outBuf).round s o = .inr r) :
    (s.writeCnt = 0 ↔ NoRoom (past ++ [o])) ∧ Ends outBuf s (past ++ [o]) r := by
  rw [writenLoop_round] at hs
  cases o with
  | room n => cases hs
  | fail e =>
    refine ⟨h.no_room.trans (noRoom_concat_fail e).symm, ?_⟩
    cases e with
    | eintr => cases hs
    | eagain =>
      obtain rfl := Sum.inr.inj hs
      exact .ended (noError_concat.mpr ⟨h.no_error, nofun⟩)
        (Or.inr List.getLast?_concat)
    | other e =>
      obtain rfl := Sum.inr.inj hs
      exact .broken e List.getLast?_concat

/-- **What `writen` has done when it returns.** -/
theorem exists_ends (h : writen outBuf os = some (r, rest)) :
    ∃ used s, os = used ++ rest ∧ s.Sound outBuf ∧ (s.writeCnt = 0 ↔ NoRoom used)
      ∧ Ends outBuf s used r := by
  have hstart : Writing.Reached outBuf [] ⟨outBuf.length, 0, 0, []⟩ :=
    ⟨Writing.sound_start outBuf, fun _ => List.not_mem_nil,
      fun _ _ hm => absurd hm List.not_mem_nil, fun _ => rfl⟩
  obtain ⟨used, hos, s, hs, hroom, hends⟩ :=
    CallLoop.run_invariant (I := fun past s => s.Reached outBuf past)
      (Q := fun past r => ∃ s : Writing, s.Sound outBuf ∧ (s.writeCnt = 0 ↔ NoRoom past)
        ∧ Ends outBuf s past r)
      (fun past s r hs ht => by
        obtain ⟨hleft, rfl⟩ := writenLoop_test_eq_some.mp ht
        exact ⟨s, hs.sound, hs.no_room, .ended hs.no_error (Or.inl hleft)⟩)
      (fun past s o s' hs ht hround => hs.round ht hround)
      (fun past s o r hs _ hround => ⟨s, hs.sound, hs.ends hround⟩)
      hstart h
  exact ⟨used, s, hos, hs, hroom, hends⟩

/-- **Behind the loop**, the buffer is cut where the kernel stopped, and the result is
the count, as long as an `int` holds the size of the buffer. -/
theorem Writing.Sound.end_eq (h : s.Sound outBuf) (hlen : outBuf.length < 2 ^ 31) :
    writenEnd outBuf s = ⟨s.sent.length, outBuf.drop s.writeCnt, s.sent⟩ := by
  have hcnt := h.nleft_eq
  unfold writenEnd
  rw [castInt_of_lt (show s.writeCnt < 2 ^ 31 by omega), castInt_of_lt hlen, h.length_sent]
  congr 1
  split
  · next heq =>
    exact (List.drop_eq_nil_of_le (by omega)).symm
  · unfold substr
    refine List.take_of_length_le ?_
    rw [List.length_drop]
    unfold npos
    omega

/-- Nothing is lost or repeated. -/
theorem Writing.Sound.sent_append (h : s.Sound outBuf) :
    s.sent ++ outBuf.drop s.writeCnt = outBuf := by
  rw [h.sent_eq, List.take_append_drop]

/-- **`writen` returns**, if its calls do not come to nothing for ever. -/
theorem writen_returns (outBuf : List UInt8) {os : Stream' WriteOutcome}
    (hfair : ∀ n, ∃ m, n ≤ m ∧ ¬(os.get m).Stalls) :
    ∃ n r, writen outBuf (os.take n) = some (r, []) := by
  refine CallLoop.returns_of_measure Writing.nleft WriteOutcome.Stalls ?_ ?_ hfair _
  · intro s o s' _ hs
    rcases writenLoop_round_inl hs with ⟨-, rfl⟩ | ⟨n, -, rfl⟩
    · exact le_rfl
    · exact Nat.sub_le _ _
  · intro s o s' ht hstall hs
    rcases writenLoop_round_inl hs with ⟨rfl, -⟩ | ⟨n, rfl, rfl⟩
    · exact absurd (Or.inr rfl) hstall
    · have hn : n ≠ 0 := by
        rintro rfl
        exact hstall (Or.inl rfl)
      have hleft := writenLoop_test_eq_none.mp ht
      exact Nat.sub_lt hleft (by omega)

end Rounds

/-! ## An error after some bytes -/

/-- **What an error leaves in the buffer.** When `writen` meets an error other than
`EINTR` and `EAGAIN`, the bytes that the kernel has taken and those that are left in
the buffer are the ones it was given exactly if the kernel has not taken any. -/
theorem truthful_iff {outBuf : List UInt8} {os : List WriteOutcome} {e : ℕ} {r : WriteResult}
    (h : writen outBuf (os ++ [.fail (.other e)]) = some (r, [])) :
    r.ret = -1
      ∧ (r.sent ++ r.outBuf = outBuf ↔ ∀ n, WriteOutcome.room n ∈ os → n = 0) := by
  obtain ⟨used, s, hos, hs, hroom, hends⟩ := exists_ends h
  rw [List.append_nil] at hos
  subst hos
  cases hends with
  | ended hno =>
    exact absurd rfl ((noError_concat.mp hno).2 e)
  | broken e' =>
    refine ⟨rfl, ?_⟩
    show s.sent ++ outBuf = outBuf ↔ NoRoom os
    rw [← noRoom_concat_fail (.other e), ← hroom, List.append_left_eq_self,
      ← List.length_eq_zero_iff, hs.length_sent]

/-- The kernel takes two bytes of four before the connection breaks. -/
theorem truthful_iff_room :
    ∃ r, writen (chars "abcd") ([.room 2, .fail .eintr] ++ [.fail (.other 32)]) = some (r, [])
      ∧ r.ret = -1
      ∧ (r.sent ++ r.outBuf = chars "abcd"
        ↔ ∀ n, WriteOutcome.room n ∈ [.room 2, .fail .eintr] → n = 0) :=
  have h : writen (chars "abcd") ([.room 2, .fail .eintr] ++ [.fail (.other 32)])
      = some (⟨-1, chars "abcd", chars "ab"⟩, []) := by decide +kernel
  ⟨_, h, truthful_iff h⟩

/-- Two bytes of four are taken before the connection breaks: they are still in the
buffer. -/
theorem sent_twice :
    ¬∀ (outBuf : List UInt8) (os : List WriteOutcome) (e : ℕ) (r : WriteResult),
      writen outBuf (os ++ [.fail (.other e)]) = some (r, []) → r.sent ++ r.outBuf = outBuf := by
  intro h
  exact absurd (h (chars "abcd") [.room 2] 32 ⟨-1, chars "abcd", chars "ab"⟩ (by decide +kernel))
    (by decide)

end Tools
