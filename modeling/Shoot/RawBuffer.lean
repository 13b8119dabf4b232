import Shoot.FixedBuffer
import Shoot.Text

/-!
# The array of a log buffer

`FixedBuffer` keeps the bytes below the cursor. This module has the array
itself, as the writers of the logger see it: they store bytes behind the
cursor and move the cursor when they are done, so what matters is also where
they store. A `RawBuffer` therefore keeps the whole memory, by distance from
`data_`, and the places that were ever written, whether or not the array
reaches that far.

There are three writers. `append` copies a text. `convert` prints an integer:
its digits from the last one on, a sign, a terminating NUL, and then the text
is reversed in place. `snprintf` prints into a given number of bytes. The
texts of the integers are compared with the decimal notation `decimal`, and
never take more than twenty bytes.
-/

/-! ## Memory -/

/-- Store bytes one after the other, from the place `p` on. -/
def storeBytes (m : ℕ → UInt8) (p : ℕ) : List UInt8 → ℕ → UInt8
  | [] => m
  | b :: bytes => storeBytes (Function.update m p b) (p + 1) bytes

/-- The `n` bytes from the place `p` on. -/
def loadBytes (m : ℕ → UInt8) (p n : ℕ) : List UInt8 := (List.range' p n).map m

/-- `std::reverse(data_ + a, data_ + b)`. -/
def reverseBytes (m : ℕ → UInt8) (a b : ℕ) : ℕ → UInt8 := fun k =>
  if a ≤ k ∧ k < b then m (a + b - 1 - k) else m k

section Memory

variable {m : ℕ → UInt8} {p k n : ℕ}

@[simp] theorem length_loadBytes : (loadBytes m p n).length = n := by
  simp [loadBytes]

@[simp] theorem getElem_loadBytes {i : ℕ} (h : i < (loadBytes m p n).length) :
    (loadBytes m p n)[i] = m (p + i) := by
  simp [loadBytes]

/-- Two memories that agree on a range read the same there. -/
theorem loadBytes_congr {m' : ℕ → UInt8} (h : ∀ k, p ≤ k → k < p + n → m k = m' k) :
    loadBytes m p n = loadBytes m' p n := by
  refine List.map_congr_left fun k hk => ?_
  rw [List.mem_range'_1] at hk
  exact h k hk.1 hk.2

/-- Two ranges side by side. -/
theorem loadBytes_add (m : ℕ → UInt8) (p n n' : ℕ) :
    loadBytes m p (n + n') = loadBytes m p n ++ loadBytes m (p + n) n' := by
  unfold loadBytes
  rw [← List.map_append, ← List.range'_append_1]

/-- What was not stored over is unchanged. -/
theorem storeBytes_of_lt {bytes : List UInt8} (h : k < p) :
    storeBytes m p bytes k = m k := by
  induction bytes generalizing m p with
  | nil => rfl
  | cons b bytes ih =>
    rw [storeBytes, ih (Nat.lt_succ_of_lt h)]
    exact Function.update_of_ne (Nat.ne_of_lt h) _ _

/-- What lies behind what was stored is unchanged. -/
theorem storeBytes_of_le {bytes : List UInt8} (h : p + bytes.length ≤ k) :
    storeBytes m p bytes k = m k := by
  induction bytes generalizing m p with
  | nil => rfl
  | cons b bytes ih =>
    rw [List.length_cons] at h
    rw [storeBytes, ih (by omega)]
    exact Function.update_of_ne (by omega) _ _

/-- Bytes stored are read back. -/
theorem loadBytes_storeBytes (m : ℕ → UInt8) (p : ℕ) (bytes rest : List UInt8) :
    loadBytes (storeBytes m p (bytes ++ rest)) p bytes.length = bytes := by
  induction bytes generalizing m p with
  | nil => rfl
  | cons b bytes ih =>
    rw [List.length_cons, loadBytes, List.range'_succ, List.map_cons]
    refine congrArg₂ _ ?_ (ih _ _)
    rw [List.cons_append, storeBytes, storeBytes_of_lt (Nat.lt_succ_self p),
      Function.update_self]

/-- Below a reversed range nothing changes. -/
theorem reverseBytes_of_lt {a b : ℕ} (h : k < a) : reverseBytes m a b k = m k := by
  unfold reverseBytes
  rw [if_neg (by omega)]

/-- Behind a reversed range nothing changes. -/
theorem reverseBytes_of_le {a b : ℕ} (h : b ≤ k) : reverseBytes m a b k = m k := by
  unfold reverseBytes
  rw [if_neg (by omega)]

/-- Reversing a range reverses what is read there. -/
theorem loadBytes_reverseBytes (m : ℕ → UInt8) (p n : ℕ) :
    loadBytes (reverseBytes m p (p + n)) p n = (loadBytes m p n).reverse := by
  refine List.ext_getElem (by simp) fun i hi hi' => ?_
  rw [length_loadBytes] at hi
  simp only [getElem_loadBytes, List.getElem_reverse, length_loadBytes, reverseBytes]
  rw [if_pos (by omega)]
  congr 1
  omega

end Memory

/-! ## The text `convert` makes -/

/-- `zero[lsd]`, for a remainder from -9 to 9: `zero` points to the middle of
`"9876543210123456789"`. -/
def zeroAt (lsd : ℤ) : UInt8 := digitChar lsd.natAbs

/-- The loop of `convert`: the characters it stores, last digit first. Division
and remainder are those of the language, which round towards zero. -/
def convertLoop (i : ℤ) : List UInt8 :=
  if i.tdiv 10 = 0 then [zeroAt (i.tmod 10)] else zeroAt (i.tmod 10) :: convertLoop (i.tdiv 10)
termination_by i.natAbs
decreasing_by
  rw [Int.natAbs_tdiv]
  exact Nat.div_lt_self (by grind) (by decide)

/-- The text `convert` stores before it is reversed. -/
def convertText (value : ℤ) : List UInt8 :=
  convertLoop value ++ if value < 0 then [minusChar] else []

/-- The loop stores the digits of the absolute value. -/
theorem convertLoop_eq {i : ℤ} (hi : i ≠ 0) :
    convertLoop i = (Nat.digits 10 i.natAbs).map digitChar := by
  induction i using convertLoop.induct with
  | case1 i h =>
    have hlt : i.natAbs < 10 := by
      have := congrArg Int.natAbs h
      rw [Int.natAbs_tdiv] at this
      exact (Nat.div_eq_zero_iff.mp this).resolve_left (by decide)
    rw [convertLoop, if_pos h, Nat.digits_of_lt _ _ (Int.natAbs_ne_zero.mpr hi) hlt,
      zeroAt, Int.natAbs_tmod]
    exact congrArg (fun d => [digitChar d]) (Nat.mod_eq_of_lt hlt)
  | case2 i h ih =>
    rw [convertLoop, if_neg h, ih h, Nat.digits_def' (by decide) (Int.natAbs_pos.mpr hi),
      zeroAt, Int.natAbs_tmod, Int.natAbs_tdiv]
    rfl

/-- **`convert` prints decimal notation**, from right to left. -/
theorem reverse_convertText (value : ℤ) : (convertText value).reverse = decimal value := by
  unfold convertText decimal
  by_cases hv : value = 0
  · subst hv
    rw [convertLoop]
    rfl
  · rw [if_neg hv, List.reverse_append, convertLoop_eq hv, List.map_reverse]
    split <;> rfl

/-! ## The buffer and its writers -/

/-- **A `FixedBuffer<SIZE>` with its array.** -/
structure RawBuffer (SIZE : ℕ) where
  /-- The memory from `data_` on; the array is its first `SIZE` bytes. -/
  data : ℕ → UInt8
  /-- `cur_`, as a distance from `data_`. -/
  cur : ℕ
  /-- The places that were ever stored to. -/
  written : List ℕ

namespace RawBuffer

variable {SIZE : ℕ}

/-- A buffer just constructed, over whatever the memory holds. -/
def new (data : ℕ → UInt8) : RawBuffer SIZE := ⟨data, 0, []⟩

/-- `size()`, the distance of the cursor from the start. -/
def size (b : RawBuffer SIZE) : ℤ := b.cur

/-- `avail()`, the distance of the cursor from the end. -/
def avail (b : RawBuffer SIZE) : ℤ := SIZE - b.cur

/-- The bytes below the cursor, `data_[0 .. size())`. -/
def contents (b : RawBuffer SIZE) : List UInt8 := loadBytes b.data 0 b.cur

/-- Store bytes from a place on. -/
def store (b : RawBuffer SIZE) (p : ℕ) (bytes : List UInt8) : RawBuffer SIZE :=
  { b with
    data := storeBytes b.data p bytes
    written := b.written ++ List.range' p bytes.length }

/-- `std::reverse` between two places. -/
def reverse (b : RawBuffer SIZE) (first last : ℕ) : RawBuffer SIZE :=
  { b with
    data := reverseBytes b.data first last
    written := b.written ++ List.range' first (last - first) }

/-- `add(len)`. -/
def add (b : RawBuffer SIZE) (len : ℕ) : RawBuffer SIZE := { b with cur := b.cur + len }

/-- `append(buf, len)`, with `buf` the `len` bytes to copy. -/
def append (b : RawBuffer SIZE) (buf : List UInt8) : RawBuffer SIZE :=
  if b.avail > castInt buf.length then (b.store b.cur buf).add buf.length else b

/-- `convert(current(), value)`, and the length it returns: the text from right
to left, a NUL behind it, and the text reversed. The operations on the value
do not overflow in its type, so an unbounded integer stands for it. -/
def convert (b : RawBuffer SIZE) (value : ℤ) : RawBuffer SIZE × ℕ :=
  let p := b.cur + (convertText value).length
  ((b.store b.cur (convertText value ++ [0])).reverse b.cur p, p - b.cur)

/-- `snprintf(current(), n, …)` of a value with the given text, and what it
returns: at most `n` bytes are stored, the last one a NUL, and the length is
that of the whole text. -/
def snprintf (b : RawBuffer SIZE) (n : ℕ) (text : List UInt8) : RawBuffer SIZE × ℕ :=
  (b.store b.cur (text.take (n - 1) ++ [0]), text.length)

/-- **A sound buffer**: the cursor is inside the array, and so is everything
that was ever stored. -/
structure Sound (b : RawBuffer SIZE) : Prop where
  cur_lt : b.cur < SIZE
  written_lt : ∀ i ∈ b.written, i < SIZE

/-- What a writer does that had room for its text: the text is below the
cursor, behind what was there, and the buffer is still sound. -/
structure Wrote (b : RawBuffer SIZE) (text : List UInt8) (b' : RawBuffer SIZE) : Prop where
  contents_eq : b'.contents = b.contents ++ text
  sound : b.Sound → b'.Sound

variable {b : RawBuffer SIZE}

@[simp] theorem length_contents : b.contents.length = b.cur := length_loadBytes

/-- The free space is what the contents leave. -/
theorem avail_eq : b.avail = SIZE - b.contents.length := by
  rw [length_contents]
  rfl

/-- A text takes its length from the free space. -/
theorem Wrote.avail_eq {text : List UInt8} {b' : RawBuffer SIZE} (h : b.Wrote text b') :
    b'.avail = b.avail - text.length := by
  rw [RawBuffer.avail_eq, RawBuffer.avail_eq, h.contents_eq, List.length_append]
  omega

/-- There is at least one free byte in a sound buffer. -/
theorem Sound.one_le_avail (h : b.Sound) : 1 ≤ b.avail := by
  have := h.cur_lt
  unfold avail
  omega

/-- Storing behind the cursor leaves the contents, and moving the cursor over
what was stored appends it. -/
theorem contents_store_add (b : RawBuffer SIZE) (text rest : List UInt8) :
    ((b.store b.cur (text ++ rest)).add text.length).contents = b.contents ++ text := by
  show loadBytes (storeBytes b.data b.cur (text ++ rest)) 0 (b.cur + text.length) = _
  rw [loadBytes_add, Nat.zero_add, loadBytes_storeBytes]
  refine congrArg (· ++ text) (loadBytes_congr fun k _ hk => storeBytes_of_lt ?_)
  rwa [Nat.zero_add] at hk

/-- What is stored behind the cursor stays in the array if there is room. -/
theorem Sound.store (h : b.Sound) {bytes : List UInt8} (hn : b.cur + bytes.length ≤ SIZE) :
    (b.store b.cur bytes).Sound where
  cur_lt := h.cur_lt
  written_lt := by
    intro i hi
    rcases List.mem_append.mp hi with hi | hi
    · exact h.written_lt i hi
    · rw [List.mem_range'_1] at hi
      omega

/-- The cursor may move up to the last byte of the array. -/
theorem Sound.add (h : b.Sound) {len : ℕ} (hn : b.cur + len < SIZE) : (b.add len).Sound :=
  ⟨hn, h.written_lt⟩

/-- Reversing what was stored stores nowhere else. -/
theorem Sound.reverse (h : b.Sound) {first last : ℕ} (hl : last ≤ SIZE) :
    (b.reverse first last).Sound where
  cur_lt := h.cur_lt
  written_lt := by
    intro i hi
    rcases List.mem_append.mp hi with hi | hi
    · exact h.written_lt i hi
    · rw [List.mem_range'_1] at hi
      omega

/-- A text that the guard of `append` lets through is below the cursor then, behind
what was there. -/
theorem contents_append {buf : List UInt8} (h : castInt buf.length < b.avail) :
    (b.append buf).contents = b.contents ++ buf := by
  have hstore := contents_store_add b buf []
  rw [List.append_nil] at hstore
  unfold append
  rw [if_pos h]
  exact hstore

/-- **A text that fits is appended whole.** -/
theorem wrote_append {buf : List UInt8} (h : (buf.length : ℤ) < b.avail) :
    b.Wrote buf (b.append buf) where
  contents_eq := contents_append (Int.lt_of_le_of_lt (castInt_le _) h)
  sound hb := by
    unfold append
    rw [if_pos (Int.lt_of_le_of_lt (castInt_le _) h)]
    unfold avail at h
    exact (hb.store (by omega)).add (show b.cur + _ < SIZE by omega)

/-- A text that does not fit is left out whole. -/
theorem append_of_le {buf : List UInt8} (hlen : buf.length < 2 ^ 31)
    (h : b.avail ≤ (buf.length : ℤ)) : b.append buf = b := by
  unfold append
  rw [if_neg (by rw [castInt_of_lt hlen]; omega)]

/-- The text of an integer is no longer than its decimal notation. -/
theorem length_convertText_le {v : ℤ} (hv : Fits64 v) : (convertText v).length ≤ 20 := by
  rw [← List.length_reverse, reverse_convertText]
  exact length_decimal_le hv

/-- **An integer is printed in decimal**, if 32 bytes are free. -/
theorem wrote_convert {v : ℤ} (hv : Fits64 v) (h : 32 ≤ b.avail) :
    b.Wrote (decimal v) ((b.convert v).1.add (b.convert v).2) := by
  have hlen := length_convertText_le hv
  unfold avail at h
  constructor
  · rw [← reverse_convertText]
    show loadBytes (reverseBytes (storeBytes b.data b.cur (convertText v ++ [0])) b.cur
      (b.cur + (convertText v).length)) 0 (b.cur + (b.cur + (convertText v).length - b.cur)) = _
    rw [Nat.add_sub_cancel_left, loadBytes_add, Nat.zero_add, loadBytes_reverseBytes,
      loadBytes_storeBytes]
    refine congrArg (· ++ _) (loadBytes_congr fun k _ hk => ?_)
    rw [Nat.zero_add] at hk
    rw [reverseBytes_of_lt hk]
    exact storeBytes_of_lt hk
  · intro hb
    refine ((hb.store ?_).reverse (by omega)).add (show b.cur + (_ - b.cur) < SIZE by omega)
    rw [List.length_append, List.length_singleton]
    omega

/-- **A text of at most 31 characters is printed whole**, if 32 bytes are
free. -/
theorem wrote_snprintf {text : List UInt8} (ht : text.length ≤ 31) (h : 32 ≤ b.avail) :
    b.Wrote text ((b.snprintf 32 text).1.add (b.snprintf 32 text).2) := by
  unfold avail at h
  constructor
  · show ((b.store b.cur (text.take 31 ++ [0])).add text.length).contents = _
    rw [List.take_of_length_le ht]
    exact contents_store_add b text [0]
  · intro hb
    refine (hb.store ?_).add (show b.cur + text.length < SIZE by omega)
    rw [List.length_append, List.length_take, List.length_singleton]
    omega

end RawBuffer
