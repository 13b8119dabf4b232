import Mathlib.Data.Nat.Init

/-!
# Readings of the clock

`gettimeofday` gives seconds and microseconds. The timers of the server reduce
the seconds modulo ten thousand before they go on to milliseconds
(`Timeval.clock`), those of version 1.0 do not (`Timeval.millis`). The reduced
clock starts again at zero every ten thousand seconds, but a timeout that has
passed on it has passed.
-/

/-- **A reading of `gettimeofday`.** -/
structure Timeval where
  /-- `tv_sec`. -/
  sec : ℕ
  /-- `tv_usec`. -/
  usec : ℕ
  usec_lt : usec < 1000000
deriving DecidableEq, Repr

namespace Timeval

/-- Real time, in milliseconds since the epoch. -/
def millis (tv : Timeval) : ℕ := tv.sec * 1000 + tv.usec / 1000

/-- The clock the timers use, `(tv_sec % 10000) * 1000 + tv_usec / 1000`. -/
def clock (tv : Timeval) : ℕ := (tv.sec % 10000) * 1000 + tv.usec / 1000

/-- A reading is not before another. -/
def NotAfter (tv tv' : Timeval) : Prop :=
  tv.sec * 1000000 + tv.usec ≤ tv'.sec * 1000000 + tv'.usec

instance (tv tv' : Timeval) : Decidable (tv.NotAfter tv') :=
  inferInstanceAs (Decidable (_ ≤ _))

/-- Milliseconds pass as the time does. -/
theorem NotAfter.millis_le {tv tv' : Timeval} (h : tv.NotAfter tv') :
    tv.millis ≤ tv'.millis := by
  have hmicro : ∀ r : Timeval, r.millis = (r.sec * 1000000 + r.usec) / 1000 := by
    intro r
    unfold millis
    omega
  rw [hmicro, hmicro]
  exact Nat.div_le_div_right h

/-- The clock is real time modulo ten million milliseconds. -/
theorem clock_eq (tv : Timeval) : tv.clock = tv.millis % 10000000 := by
  have hu := tv.usec_lt
  unfold clock millis
  omega

/-- **The reduced clock is never ahead of the time that passed.** A timeout
that has passed on the clock since a reading, wrapped or not, has passed. -/
theorem elapsed_of_clock {tv tv' : Timeval} (h : tv.NotAfter tv') {timeout : ℕ}
    (hc : tv.clock + timeout ≤ tv'.clock) : tv.millis + timeout ≤ tv'.millis := by
  have hm := h.millis_le
  rw [clock_eq, clock_eq] at hc
  -- the clocks differ by what passed less some whole wraps, and not by a negative number
  have hd : tv.millis / 10000000 ≤ tv'.millis / 10000000 := Nat.div_le_div_right hm
  omega

end Timeval
