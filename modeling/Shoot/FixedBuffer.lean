import Mathlib.Algebra.Group.Nat.Defs
import Mathlib.Data.Int.Init
import Mathlib.Data.List.Basic

/-!
# Log buffers and the log file

The two containers the logger moves bytes through. A `FixedBuffer<SIZE>` is a
character array with a cursor; only the bytes below the cursor are ever read
back, so the model keeps those, as a list, and its length is the cursor.
Appending is all or nothing: `FixedBuffer::append` copies the whole text when
it leaves at least one free byte and copies nothing otherwise.

A `Log2File` counts the calls of `append` and flushes every `flush_freq_` of
them. Here it is what its callers see: the bytes it was handed and, of those,
the ones that had been handed over at the last flush. What the stream below it
takes, and what stdio writes to the file, is the subject of `Shoot.LogFile`.
-/

/-- `static_cast<int>` of a `size_t`: the value modulo `2 ^ 32`, read as a
signed number. -/
def castInt (n : ℕ) : ℤ := Int.bmod n (2 ^ 32)

/-- The cast changes nothing below `2 ^ 31`. -/
theorem castInt_of_lt {n : ℕ} (h : n < 2 ^ 31) : castInt n = n := by
  unfold castInt
  rw [Int.bmod_eq_of_le] <;> omega

/-- The cast, by the remainder it reads. -/
theorem castInt_eq (n : ℕ) :
    castInt n = if n % 2 ^ 32 < 2 ^ 31 then ((n % 2 ^ 32 : ℕ) : ℤ)
      else ((n % 2 ^ 32 : ℕ) : ℤ) - (2 ^ 32 : ℕ) := by
  unfold castInt Int.bmod
  split
  · rw [if_pos (by omega)]
    omega
  · rw [if_neg (by omega)]
    omega

/-- It never makes a number greater. -/
theorem castInt_le (n : ℕ) : castInt n ≤ n := by
  have hmod := Nat.mod_le n (2 ^ 32)
  rw [castInt_eq]
  split
  · exact Int.ofNat_le.mpr hmod
  · omega

/-- It changes the numbers from `2 ^ 31` on. -/
theorem castInt_eq_self {n : ℕ} : castInt n = n ↔ n < 2 ^ 31 := by
  refine ⟨fun h => ?_, castInt_of_lt⟩
  have hlt : castInt n < (2 ^ 32 + 1 : ℤ) / 2 := Int.bmod_lt (by decide)
  omega

/-- `small_buffer`, the size of the buffer of one log line. -/
def smallBuffer : ℕ := 4000

/-- `large_buffer`, the size of the buffers of the asynchronous logger. -/
def largeBuffer : ℕ := 4000 * 1000

/-- **A `FixedBuffer<SIZE>`**: the bytes `data_[0 .. cur_)`. -/
structure FixedBuffer (SIZE : ℕ) where
  /-- The bytes below the cursor, in order. -/
  data : List UInt8
deriving DecidableEq, Repr

namespace FixedBuffer

variable {SIZE : ℕ}

/-- A buffer just constructed, its cursor at the start of the array. -/
def new : FixedBuffer SIZE := ⟨[]⟩

/-- `size()`, the distance of the cursor from the start. -/
def size (b : FixedBuffer SIZE) : ℤ := b.data.length

/-- `avail()`, the distance of the cursor from the end. -/
def avail (b : FixedBuffer SIZE) : ℤ := SIZE - b.data.length

/-- `append(buf, len)`, with `buf` the `len` bytes to copy. -/
def append (b : FixedBuffer SIZE) (buf : List UInt8) : FixedBuffer SIZE :=
  if b.avail > castInt buf.length then ⟨b.data ++ buf⟩ else b

/-- `reset()`, the cursor back at the start. -/
def reset (_ : FixedBuffer SIZE) : FixedBuffer SIZE := ⟨[]⟩

@[simp] theorem data_new : (new : FixedBuffer SIZE).data = [] := rfl

@[simp] theorem data_reset (b : FixedBuffer SIZE) : b.reset.data = [] := rfl

/-- A text that fits is appended whole. -/
theorem data_append_of_lt {b : FixedBuffer SIZE} {buf : List UInt8}
    (h : (buf.length : ℤ) < b.avail) : (b.append buf).data = b.data ++ buf := by
  unfold append
  rw [if_pos (Int.lt_of_le_of_lt (castInt_le _) h)]

/-- A text shorter than the array fits a buffer that holds nothing. -/
theorem lt_avail_of_data_eq_nil {b : FixedBuffer SIZE} (hb : b.data = [])
    {buf : List UInt8} (h : buf.length < SIZE) : (buf.length : ℤ) < b.avail := by
  unfold avail
  rw [hb, List.length_nil]
  omega

end FixedBuffer

/-- **A `Log2File`**, seen from its callers. -/
structure Log2File where
  /-- The bytes of all the calls of `append`, in order. -/
  handed : List UInt8
  /-- The bytes that had been handed over at the last flush. -/
  flushed : List UInt8
  /-- `count_`, the calls of `append` since the last flush they caused. -/
  count : ℕ
deriving DecidableEq, Repr

namespace Log2File

/-- `flush_freq_`, at its default. -/
def flushFreq : ℕ := 1024

/-- A file just opened. -/
def new : Log2File := ⟨[], [], 0⟩

/-- `flush()`, the call; what it does to the file is `LogFile.fflush`. -/
def flush (f : Log2File) : Log2File := { f with flushed := f.handed }

/-- `append(log_line, len)`, through `append_unlocked`; how many of the bytes the
stream takes is `LogFile.append`. -/
def append (f : Log2File) (logLine : List UInt8) : Log2File :=
  if flushFreq ≤ f.count + 1 then
    flush { f with handed := f.handed ++ logLine, count := 0 }
  else
    { f with handed := f.handed ++ logLine, count := f.count + 1 }

/-- Whether or not the count triggers a flush, the bytes are handed over. -/
@[simp] theorem handed_append (f : Log2File) (logLine : List UInt8) :
    (f.append logLine).handed = f.handed ++ logLine := by
  unfold append
  split <;> rfl

end Log2File
