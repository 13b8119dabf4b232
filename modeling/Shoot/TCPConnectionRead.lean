import Shoot.CallLoop
import Shoot.Syscall
import Shoot.TCPServer

/-!
# The loop of `handle_read`

`TCPConnection::handle_read` reads until there is something to answer, or the peer
has closed. Any failure of `read` sends it round again, whatever the error: there is
a branch for `EAGAIN`, which continues, and none for the others. So it waits in a
loop for bytes that may never come, and on an error that stays it never returns
(`TCPConnection.returns_iff`), where `readn` returns in both cases.

`Shoot.TCPServer` has the same loop one statement at a time (`handleReadLoop_round`).
-/

namespace TCPConnection

/-- How `handle_read` returns. -/
inductive ReadExit where
  /-- It has answered what it read, and enabled the channel. -/
  | answered
  /-- The peer has closed, and it has executed `handle_close`. -/
  | closed
deriving DecidableEq, Repr

/-- **The loop of `handle_read`.** It has no state: every round reads into the same
buffer. -/
def handleReadLoop : CallLoop Unit ReadOutcome ReadExit where
  test _ := none
  round _ o :=
    let readLen := o.ret 4096
    if readLen > 0 then
      .inr .answered
    else if readLen = 0 then
      .inr .closed
    else if o.errno = some .eagain then
      .inl ()
    else
      .inl ()

/-- A round is a step of the server's `handle_read`. -/
theorem handleReadLoop_round (o : ReadOutcome) :
    handleReadLoop.round () o
      = match TCPServer.afterRead (o.ret 4096) with
        | .rearm => .inr .answered
        | .close => .inr .closed
        | _ => .inl () := by
  unfold TCPServer.afterRead handleReadLoop
  simp only [ite_self, gt_iff_lt]
  split
  · rfl
  · split
    · rfl
    · rfl

/-- A call that fails sends the loop round again. -/
theorem handleReadLoop_fail (e : Errno) : handleReadLoop.round () (.fail e) = .inl () := by
  rw [handleReadLoop_round]
  rfl

/-- A call that does not fail ends it. -/
theorem handleReadLoop_inr {o : ReadOutcome} (h : ∀ e, o ≠ .fail e) :
    ∃ r, handleReadLoop.round () o = .inr r := by
  cases o with
  | data b bs =>
    have hpos := ReadOutcome.ret_data_pos (show 0 < 4096 by decide) b bs
    exact ⟨.answered, if_pos hpos⟩
  | eof => exact ⟨.closed, rfl⟩
  | fail e => exact absurd rfl (h e)

/-- It never returns while every call fails. -/
theorem not_returns_of_fail {os : Stream' ReadOutcome} (h : ∀ k, ∃ e, os.get k = .fail e) :
    ¬handleReadLoop.Returns () os := by
  refine CallLoop.not_returns (I := fun _ => True) (K := fun o => ∃ e, o = .fail e)
    (fun _ _ => rfl) ?_ h trivial
  rintro s o - ⟨e, rfl⟩
  exact ⟨(), handleReadLoop_fail e, trivial⟩

/-- **`handle_read` returns exactly if some `read` does not fail.** -/
theorem returns_iff (os : Stream' ReadOutcome) :
    handleReadLoop.Returns () os ↔ ∃ k, ∀ e, os.get k ≠ .fail e := by
  constructor
  · intro h
    by_contra hall
    simp only [not_exists, not_forall, not_not] at hall
    exact not_returns_of_fail hall h
  · rintro ⟨k, hk⟩
    induction k generalizing os with
    | zero =>
      refine CallLoop.returns_of_round fun s' _ hround => ?_
      obtain ⟨r, hr⟩ := handleReadLoop_inr hk
      cases hr.symm.trans hround
    | succ k ih => exact CallLoop.returns_of_round fun s' _ _ => ih os.tail hk

/-- There is nothing to read, and nothing comes: `EINTR` never occurs, and the loop
never ends. An error that stays does the same to it. -/
theorem spins :
    ¬∀ os : Stream' ReadOutcome, (∀ n, ∃ m, n ≤ m ∧ os.get m ≠ .fail .eintr) →
      handleReadLoop.Returns () os := by
  intro h
  have hne : ReadOutcome.fail .eagain ≠ .fail .eintr := by decide
  exact not_returns_of_fail (fun _ => ⟨.eagain, rfl⟩)
    (h (Stream'.const (.fail .eagain)) fun n => ⟨n, le_rfl, hne⟩)

end TCPConnection
