import Shoot.CallLoop
import Shoot.FixedBuffer

/-!
# Writing to the log file

`WriteFile::append` hands a line to `fwrite_unlocked`, which may take fewer bytes
than it was given. It writes once without looking at the result, and then the rest
for as long as there is a rest and the stream takes any of it.

Whatever the stream takes in each call, the bytes it has taken are the first `n` of
the line, and `remain` are left (`WriteFile.Appending.Sound`). So `append` returns,
the stream has taken a prefix of the line once, and the whole line unless a call in
the loop took nothing (`WriteFile.append_takes_prefix`). A first call that takes
nothing is not such a call: the loop tries again.

What that makes of the log file is the subject of `Shoot.LogFile`.
-/

namespace WriteFile

/-- The local variables of `append`, and what the stream has taken. -/
structure Appending where
  n : ℕ
  remain : ℕ
  accepted : List UInt8
deriving DecidableEq, Repr

/-- `write_unlocked_(log_line, len)`, on a stream with room for some bytes. -/
def writeUnlocked (len room : ℕ) : ℕ := min room len

/-- The stream has taken `x` bytes from `log_line + n` on. -/
def Appending.advance (s : Appending) (logLine : List UInt8) (x : ℕ) : Appending where
  n := s.n + x
  remain := logLine.length - (s.n + x)
  accepted := s.accepted ++ (logLine.drop s.n).take x

/-- **The loop of `append(log_line, len)`**, by the room the stream has in each call.
Where a call takes nothing, `ferror` decides only whether a message is printed. -/
def appendLoop (logLine : List UInt8) : CallLoop Appending ℕ Appending where
  test s := if s.remain > 0 then none else some s
  round s room :=
    let x := writeUnlocked s.remain room
    if x = 0 then .inr s else .inl (s.advance logLine x)

/-- **`append(log_line, len)`**, and the outcomes that are left. -/
def append (logLine : List UInt8) : List ℕ → Option (Appending × List ℕ)
  | [] => none
  | room :: rooms =>
    (appendLoop logLine).run
      (Appending.advance ⟨0, logLine.length, []⟩ logLine (writeUnlocked logLine.length room))
      rooms

/-- **The variables are right**: the stream has taken the first `n` bytes of the line,
and `remain` are behind them. -/
structure Appending.Sound (s : Appending) (logLine : List UInt8) : Prop where
  le : s.n ≤ logLine.length
  remain_eq : s.remain = logLine.length - s.n
  accepted_eq : s.accepted = logLine.take s.n

section Rounds

variable {logLine : List UInt8} {s s' r : Appending} {room x : ℕ} {past rooms rest : List ℕ}

theorem appendLoop_test_eq_none : (appendLoop logLine).test s = none ↔ 0 < s.remain := by
  show (if s.remain > 0 then none else some s) = none ↔ _
  split <;> simp_all

theorem appendLoop_test_eq_some :
    (appendLoop logLine).test s = some r ↔ s.remain = 0 ∧ s = r := by
  show (if s.remain > 0 then none else some s) = some r ↔ _
  split
  · next hpos => simp [Nat.ne_of_gt hpos]
  · next hpos => simp [Nat.eq_zero_of_not_pos hpos]

/-- A round that goes on advances by what its call took, which is not nothing. -/
theorem appendLoop_round_inl (hs : (appendLoop logLine).round s room = .inl s') :
    ∃ x, 0 < x ∧ x ≤ s.remain ∧ s' = s.advance logLine x := by
  unfold appendLoop at hs
  dsimp only at hs
  split at hs
  · cases hs
  · next hx => exact ⟨_, Nat.pos_of_ne_zero hx, Nat.min_le_right .., (Sum.inl.inj hs).symm⟩

/-- A round that returns had a call that took nothing, with bytes left to take. -/
theorem appendLoop_round_inr (hpos : 0 < s.remain)
    (hs : (appendLoop logLine).round s room = .inr r) : room = 0 ∧ r = s := by
  unfold appendLoop at hs
  dsimp only at hs
  split at hs
  · next hx =>
    refine ⟨?_, (Sum.inr.inj hs).symm⟩
    unfold writeUnlocked at hx
    omega
  · cases hs

/-- **A call that takes what is there keeps the variables right.** -/
theorem Appending.Sound.advance (h : s.Sound logLine) (hx : x ≤ s.remain) :
    (s.advance logLine x).Sound logLine where
  le := by
    have hle := h.le
    have hremain := h.remain_eq
    show s.n + x ≤ logLine.length
    omega
  remain_eq := rfl
  accepted_eq := by
    show s.accepted ++ (logLine.drop s.n).take x = logLine.take (s.n + x)
    rw [h.accepted_eq, List.take_add]

/-- The first call, made before the loop, leaves them right. -/
theorem sound_first (logLine : List UInt8) (room : ℕ) :
    (Appending.advance ⟨0, logLine.length, []⟩ logLine
      (writeUnlocked logLine.length room)).Sound logLine :=
  Appending.Sound.advance ⟨Nat.zero_le _, rfl, rfl⟩ (Nat.min_le_right ..)

/-- **What the loop has done when it returns**: it has written all, or a call took
nothing. -/
theorem appendLoop_result (h : s.Sound logLine)
    (hr : (appendLoop logLine).run s rooms = some (r, rest)) :
    r.Sound logLine ∧ ∃ used, rooms = used ++ rest
      ∧ (r.n = logLine.length ∨ 0 ∈ used) := by
  have hrun : ∃ used, rooms = used ++ rest
      ∧ r.Sound logLine ∧ (r.n = logLine.length ∨ 0 ∈ [] ++ used) := by
    refine CallLoop.run_invariant (I := fun _ s => s.Sound logLine)
      (Q := fun used r => r.Sound logLine ∧ (r.n = logLine.length ∨ 0 ∈ used)) ?_ ?_ ?_ h hr
    · intro past s r hsound ht
      obtain ⟨hzero, rfl⟩ := appendLoop_test_eq_some.mp ht
      have hle := hsound.le
      have hremain := hsound.remain_eq
      exact ⟨hsound, Or.inl (by omega)⟩
    · intro past s room s' hsound _ hround
      obtain ⟨x, -, hx, rfl⟩ := appendLoop_round_inl hround
      exact hsound.advance hx
    · intro past s room r hsound ht hround
      obtain ⟨rfl, rfl⟩ := appendLoop_round_inr (appendLoop_test_eq_none.mp ht) hround
      exact ⟨hsound, Or.inr (List.mem_append_right past List.mem_cons_self)⟩
  obtain ⟨used, hused, hsound, hall⟩ := hrun
  exact ⟨hsound, used, hused, hall⟩

/-- **The loop returns**: a round that goes on leaves less to write. -/
theorem appendLoop_returns (h : s.Sound logLine) (rooms : Stream' ℕ) :
    (appendLoop logLine).Returns s rooms := by
  induction hk : s.remain using Nat.strong_induction_on generalizing s rooms with
  | _ k ih =>
    refine CallLoop.returns_of_round fun s' ht hround => ?_
    obtain ⟨x, hpos, hx, rfl⟩ := appendLoop_round_inl hround
    have hless : (s.advance logLine x).remain < k := by
      have hremain := h.remain_eq
      show logLine.length - (s.n + x) < k
      omega
    exact ih _ hless (h.advance hx) rooms.tail rfl

/-- **What `append` has done when it returns.** -/
theorem append_result (h : append logLine rooms = some (r, rest)) :
    r.Sound logLine ∧ ∃ first used, rooms = first :: (used ++ rest)
      ∧ (r.n = logLine.length ∨ 0 ∈ used) := by
  cases rooms with
  | nil => cases h
  | cons room rooms =>
    obtain ⟨hsound, used, hused, hall⟩ := appendLoop_result (sound_first logLine room) h
    exact ⟨hsound, room, used, congrArg _ hused, hall⟩

end Rounds

/-- A line of which no repeated call took nothing is taken whole. -/
theorem accepted_eq_of_tail {logLine : List UInt8} {rooms : List ℕ} {r : Appending}
    (hrooms : 0 ∉ rooms.tail) (h : append logLine rooms = some (r, [])) :
    r.accepted = logLine := by
  obtain ⟨hsound, first, used, rfl, hall⟩ := append_result h
  have hused : 0 ∉ used := by simpa using hrooms
  rw [hsound.accepted_eq, hall.resolve_right hused, List.take_length]

/-- **The stream takes a prefix of the line, once.** For every line, and whatever room
the stream has in each call, `append` returns, after `k` calls; what the stream has
taken is the first bytes of the line, in order; and these are the whole line, or a call
behind the first one took nothing. -/
theorem append_takes_prefix (logLine : List UInt8) (rooms : Stream' ℕ) :
    ∃ k r, append logLine (rooms.take k) = some (r, [])
      ∧ r.accepted = logLine.take r.n ∧ r.n ≤ logLine.length
      ∧ (r.n = logLine.length ∨ ∃ j, 1 ≤ j ∧ j < k ∧ rooms.get j = 0) := by
  obtain ⟨k, r, hr⟩ := appendLoop_returns (sound_first logLine rooms.head) rooms.tail
  have happend : append logLine (rooms.take (k + 1)) = some (r, []) := hr
  obtain ⟨hsound, first, used, hused, hall⟩ := append_result happend
  refine ⟨k + 1, r, happend, hsound.accepted_eq, hsound.le, hall.imp_right fun hzero => ?_⟩
  rw [List.append_nil, Stream'.take_succ, List.cons.injEq] at hused
  rw [← hused.2] at hzero
  obtain ⟨j, hj, hget⟩ := List.getElem_of_mem hzero
  rw [Stream'.length_take] at hj
  rw [Stream'.take_get] at hget
  exact ⟨j + 1, Nat.succ_pos j, Nat.succ_lt_succ hj, hget⟩

/-- The first call may take nothing, but no later one. -/
example : (append [97, 98, 99] [0, 2, 5]).map (fun r => r.1.accepted) = some [97, 98, 99]
    ∧ (append [97, 98, 99] [2, 0, 5]).map (fun r => r.1.accepted) = some [97, 98] := by
  decide

end WriteFile
