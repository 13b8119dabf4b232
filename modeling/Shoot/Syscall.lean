import Mathlib.Data.Int.Init
import Mathlib.Data.List.Basic

/-!
# What `read` and `write` give

A call of `read` or `write` on a descriptor that does not block moves some bytes, or
fails with an `errno`. It never moves more than it is asked for: a `read` delivers the
first part of what is there, and a `write` takes as much of what it is given as there
is room for. An outcome says what is there and how much room there is, so that any
sequence of outcomes can occur, whatever the calls ask for.
-/

/-- `errno`, after a call that failed. -/
inductive Errno where
  | eintr | eagain
  /-- Any other error. -/
  | other (e : ℕ)
deriving DecidableEq, Repr

/-- **What a `read` finds**: bytes, the end of the input, or an error. -/
inductive ReadOutcome where
  | data (b : UInt8) (bs : List UInt8)
  | eof
  | fail (e : Errno)
deriving DecidableEq, Repr

namespace ReadOutcome

/-- The bytes delivered by a call that asks for `n`. -/
def delivered (n : ℕ) : ReadOutcome → List UInt8
  | data b bs => (b :: bs).take n
  | _ => []

/-- What the call returns. -/
def ret (n : ℕ) : ReadOutcome → ℤ
  | fail _ => -1
  | o => (o.delivered n).length

/-- `errno`, where the call has failed. -/
def errno : ReadOutcome → Option Errno
  | fail e => some e
  | _ => none

@[simp] theorem delivered_eof (n : ℕ) : eof.delivered n = [] := rfl

@[simp] theorem delivered_fail (n : ℕ) (e : Errno) : (fail e).delivered n = [] := rfl

@[simp] theorem ret_eof (n : ℕ) : eof.ret n = 0 := rfl

@[simp] theorem ret_fail (n : ℕ) (e : Errno) : (fail e).ret n = -1 := rfl

theorem ret_data (n : ℕ) (b : UInt8) (bs : List UInt8) :
    (data b bs).ret n = ((data b bs).delivered n).length := rfl

/-- Where there are bytes, at least one is delivered. -/
theorem ret_data_pos {n : ℕ} (hn : 0 < n) (b : UInt8) (bs : List UInt8) :
    0 < (data b bs).ret n := by
  rw [ret_data, delivered, List.length_take, List.length_cons]
  omega

end ReadOutcome

/-- **What a `write` finds**: room for some bytes, or an error. -/
inductive WriteOutcome where
  | room (n : ℕ)
  | fail (e : Errno)
deriving DecidableEq, Repr

namespace WriteOutcome

/-- What a call returns that is given `n` bytes. -/
def ret (n : ℕ) : WriteOutcome → ℤ
  | room m => (min m n : ℕ)
  | fail _ => -1

/-- `errno`, where the call has failed. -/
def errno : WriteOutcome → Option Errno
  | fail e => some e
  | _ => none

/-- Nothing comes of the call, and it is made again. -/
def Stalls (o : WriteOutcome) : Prop := o = room 0 ∨ o = fail .eintr

instance : DecidablePred Stalls := fun _ => inferInstanceAs (Decidable (_ ∨ _))

@[simp] theorem ret_room (n m : ℕ) : (room m).ret n = (min m n : ℕ) := rfl

@[simp] theorem ret_fail (n : ℕ) (e : Errno) : (fail e).ret n = -1 := rfl

end WriteOutcome
