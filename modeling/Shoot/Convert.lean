import Shoot.LogStream

/-!
# Converting integers

`convert` is a template: its loop divides in the type of the value, with
remainders from -9 to 9, and looks each one up in a table with a mirrored half
for the negative ones. This module follows it in the machine types it is used
with and finds the text in memory.

Nothing goes wrong in any of the types. The value is never negated, so the most
negative one needs no special case, and division and remainder are exact; the
conversion is the one of the integer the value stands for
(`Convert.convertIn_eq`). What is left in the buffer is the canonical decimal
text with a terminator behind it, in at most 21 of the 32 bytes that
`format_integer` asks for (`Convert.convert_exact`).
-/

namespace Convert

/-! ## The integer types -/

/-- **An integer type of the language**, with the integers its values stand for:
its division and remainder by ten round towards zero, and its tests for zero and
for negative values are those of the integers. -/
class IntegerType (α : Type) [Div α] [Mod α] [LT α] [OfNat α 0] [OfNat α 10] where
  /-- The integer a value stands for. -/
  toInt : α → ℤ
  toInt_div : ∀ i : α, toInt (i / 10) = (toInt i).tdiv 10
  toInt_mod : ∀ i : α, toInt (i % 10) = (toInt i).tmod 10
  eq_zero : ∀ i : α, i = 0 ↔ toInt i = 0
  lt_zero : ∀ i : α, i < 0 ↔ toInt i < 0
  fits : ∀ i : α, Fits64 (toInt i)

/-- Dividing by ten makes an integer no larger, so it stays in any range around
zero. -/
theorem bmod_tdiv_ten {i : ℤ} {w : ℕ} (hlo : -2 ^ w ≤ i) (hhi : i < 2 ^ w) :
    (i.tdiv 10).bmod (2 ^ (w + 1)) = i.tdiv 10 := by
  have habs : (i.tdiv 10).natAbs = i.natAbs / 10 := Int.natAbs_tdiv i 10
  have hpos : (0 : ℤ) < 2 ^ w := pow_pos (by decide) w
  have hrange : ((2 ^ (w + 1) : ℕ) : ℤ) = 2 ^ w * 2 := by
    push_cast
    exact pow_succ 2 w
  refine Int.bmod_eq_of_le_mul_two ?_ ?_
  · rw [hrange]
    omega
  · rw [hrange]
    omega

instance : IntegerType Int32 where
  toInt := Int32.toInt
  toInt_div i := by
    rw [Int32.toInt_div]
    exact bmod_tdiv_ten (w := 31) i.le_toInt i.toInt_lt
  toInt_mod i := Int32.toInt_mod i 10
  eq_zero i := Int32.toInt_inj.symm
  lt_zero i := Int32.lt_iff_toInt_lt
  fits i := by
    have hlo := i.le_toInt
    have hhi := i.toInt_lt
    constructor <;> omega

instance : IntegerType Int64 where
  toInt := Int64.toInt
  toInt_div i := by
    rw [Int64.toInt_div]
    exact bmod_tdiv_ten (w := 63) i.le_toInt i.toInt_lt
  toInt_mod i := Int64.toInt_mod i 10
  eq_zero i := Int64.toInt_inj.symm
  lt_zero i := Int64.lt_iff_toInt_lt
  fits i := by
    have hlo := i.le_toInt
    have hhi := i.toInt_lt
    constructor <;> omega

instance : IntegerType UInt32 where
  toInt i := i.toNat
  toInt_div i := by
    rw [UInt32.toNat_div]
    exact Int.natCast_div ..
  toInt_mod i := by
    rw [UInt32.toNat_mod]
    rfl
  eq_zero i := by
    rw [← UInt32.toNat_inj]
    exact Int.natCast_eq_zero.symm
  lt_zero i := by
    rw [UInt32.lt_iff_toNat_lt]
    exact iff_of_false (Nat.not_lt_zero _) (by omega)
  fits i := by
    have hhi := i.toNat_lt
    constructor <;> omega

instance : IntegerType UInt64 where
  toInt i := i.toNat
  toInt_div i := by
    rw [UInt64.toNat_div]
    rfl
  toInt_mod i := by
    rw [UInt64.toNat_mod]
    rfl
  eq_zero i := by
    rw [← UInt64.toNat_inj]
    exact Int.natCast_eq_zero.symm
  lt_zero i := by
    rw [UInt64.lt_iff_toNat_lt]
    exact iff_of_false (Nat.not_lt_zero _) (by omega)
  fits i := by
    have hhi := i.toNat_lt
    constructor <;> omega

/-! ## The template -/

section Template

variable {α : Type} [Div α] [Mod α] [LT α] [OfNat α 0] [OfNat α 10] [DecidableEq α]
  [DecidableLT α] [IntegerType α]

open IntegerType

/-- `digits`. -/
def digits : List UInt8 := chars "9876543210123456789"

/-- `zero[lsd]`, with `zero` the tenth character of `digits`. -/
def zero (lsd : ℤ) : Option UInt8 :=
  if 0 ≤ 9 + lsd then digits[(9 + lsd).toNat]? else none

/-- The table is long enough for every remainder. -/
theorem zero_eq {lsd : ℤ} (hlo : -9 ≤ lsd) (hhi : lsd ≤ 9) : zero lsd = some (zeroAt lsd) := by
  have hall : ∀ n : Fin 19, zero ((n : ℤ) - 9) = some (zeroAt ((n : ℤ) - 9)) := by decide
  obtain ⟨n, rfl⟩ : ∃ n : Fin 19, lsd = (n : ℤ) - 9 :=
    ⟨⟨(lsd + 9).toNat, by omega⟩, by simp; omega⟩
  exact hall n

/-- The loop of `convert`, in the type of the value: the characters it stores. -/
def convertDigits (i : α) : Option (List UInt8) := do
  let c ← zero (toInt (i % 10))
  if i / 10 = 0 then
    return [c]
  else
    return c :: (← convertDigits (i / 10))
termination_by (toInt i).natAbs
decreasing_by
  rename_i h
  rw [eq_zero, toInt_div] at h
  rw [toInt_div, Int.natAbs_tdiv]
  exact Nat.div_lt_self (by grind) (by decide)

omit [DecidableLT α] in
/-- The loop stores what it stores for the integer. -/
theorem convertDigits_eq (i : α) : convertDigits i = some (convertLoop (toInt i)) := by
  induction i using convertDigits.induct with
  | case1 i ih =>
    have hrem : zero (toInt (i % 10)) = some (zeroAt ((toInt i).tmod 10)) := by
      have habs : ((toInt i).tmod 10).natAbs = (toInt i).natAbs % 10 := Int.natAbs_tmod ..
      rw [toInt_mod]
      exact zero_eq (by omega) (by omega)
    have hquot : i / 10 = 0 ↔ (toInt i).tdiv 10 = 0 := by rw [eq_zero, toInt_div]
    rw [convertDigits, convertLoop, hrem, Option.bind_eq_bind, Option.bind_some]
    by_cases h : i / 10 = 0
    · rw [if_pos h, if_pos (hquot.mp h)]
      rfl
    · rw [if_neg h, if_neg (mt hquot.mpr h), ih h, toInt_div]
      rfl

variable {SIZE : ℕ}

/-- **`convert(buf, value)`** in the type of the value, with `buf` the place of
the cursor. -/
def convertIn (b : RawBuffer SIZE) (value : α) : Option (RawBuffer SIZE × ℕ) := do
  let text := (← convertDigits value) ++ if value < 0 then [minusChar] else []
  let p := b.cur + text.length
  return ((b.store b.cur (text ++ [0])).reverse b.cur p, p - b.cur)

/-- **The conversion in a machine type is the one of the integer.** -/
theorem convertIn_eq (b : RawBuffer SIZE) (value : α) :
    convertIn b value = some (b.convert (toInt value)) := by
  have hsign : (if value < 0 then [minusChar] else [])
      = if toInt value < 0 then [minusChar] else [] := by
    simp only [lt_zero]
  unfold convertIn
  rw [convertDigits_eq, Option.bind_eq_bind, Option.bind_some, hsign]
  rfl

end Template

/-! ## The overloads of the stream -/

/-- **The integers a stream accepts**: the overloads of `<<`, without those for
characters and truth values. -/
inductive IntegerValue where
  | short (v : Int16)
  | unsignedShort (v : UInt16)
  | int (v : Int32)
  | unsignedInt (v : UInt32)
  | long (v : Int64)
  | unsignedLong (v : UInt64)
  | longLong (v : Int64)
  | unsignedLongLong (v : UInt64)
deriving DecidableEq

namespace IntegerValue

variable {SIZE : ℕ} {F D L : Type*}

/-- The integer that is printed. -/
def toInt : IntegerValue → ℤ
  | short v => v.toInt
  | unsignedShort v => v.toNat
  | int v => v.toInt
  | unsignedInt v => v.toNat
  | long v => v.toInt
  | unsignedLong v => v.toNat
  | longLong v => v.toInt
  | unsignedLongLong v => v.toNat

/-- The overload as an insertion. -/
def insertion : IntegerValue → Insertion F D L
  | short v => .short v
  | unsignedShort v => .unsignedShort v
  | int v => .int v
  | unsignedInt v => .unsignedInt v
  | long v => .long v
  | unsignedLong v => .unsignedLong v
  | longLong v => .longLong v
  | unsignedLongLong v => .unsignedLongLong v

/-- The `convert` an overload ends in. The two short types are converted to
`int` and `unsigned int` before. -/
def convert (b : RawBuffer SIZE) : IntegerValue → Option (RawBuffer SIZE × ℕ)
  | short v => convertIn b v.toInt32
  | unsignedShort v => convertIn b v.toUInt32
  | int v => convertIn b v
  | unsignedInt v => convertIn b v
  | long v => convertIn b v
  | unsignedLong v => convertIn b v
  | longLong v => convertIn b v
  | unsignedLongLong v => convertIn b v

/-- The values are those of 64-bit types at most. -/
theorem fits (x : IntegerValue) : Fits64 x.toInt := by
  cases x with
  | short v =>
    have hlo := v.le_toInt
    have hhi := v.toInt_lt
    exact ⟨show -2 ^ 63 ≤ v.toInt by omega, show v.toInt < 2 ^ 64 by omega⟩
  | unsignedShort v =>
    have hhi := v.toNat_lt
    exact ⟨show -2 ^ 63 ≤ (v.toNat : ℤ) by omega, show (v.toNat : ℤ) < 2 ^ 64 by omega⟩
  | int v => exact IntegerType.fits v
  | unsignedInt v => exact IntegerType.fits v
  | long v => exact IntegerType.fits v
  | unsignedLong v => exact IntegerType.fits v
  | longLong v => exact IntegerType.fits v
  | unsignedLongLong v => exact IntegerType.fits v

/-- **Each overload prints its integer.** -/
theorem convert_eq (b : RawBuffer SIZE) (x : IntegerValue) :
    x.convert b = some (b.convert x.toInt) := by
  cases x with
  | short v =>
    rw [show (short v).toInt = v.toInt32.toInt from v.toInt_toInt32.symm]
    exact convertIn_eq b v.toInt32
  | unsignedShort v =>
    rw [show (unsignedShort v).toInt = (v.toUInt32.toNat : ℤ) by
      rw [UInt16.toNat_toUInt32]
      rfl]
    exact convertIn_eq b v.toUInt32
  | int v => exact convertIn_eq b v
  | unsignedInt v => exact convertIn_eq b v
  | long v => exact convertIn_eq b v
  | unsignedLong v => exact convertIn_eq b v
  | longLong v => exact convertIn_eq b v
  | unsignedLongLong v => exact convertIn_eq b v

/-- **An overload of the stream converts its value** where 32 bytes are free, and
moves the cursor behind the text. -/
theorem insert_insertion (fl : FloatText F D L) {b : LogStream.Buffer}
    (h : b.avail ≥ LogStream.numberSizeLimit) (x : IntegerValue) :
    (x.convert b).map (fun r => r.1.add r.2) = some (LogStream.insert fl b x.insertion) := by
  have hinsert : LogStream.insert fl b x.insertion = LogStream.formatInteger b x.toInt := by
    cases x with
    | short v => exact congrArg (LogStream.formatInteger b) v.toInt_toInt32
    | unsignedShort v =>
      refine congrArg (LogStream.formatInteger b) ?_
      rw [UInt16.toNat_toUInt32]
      rfl
    | _ => rfl
  rw [hinsert, convert_eq, LogStream.formatInteger, if_pos h]
  rfl

end IntegerValue

/-! ## The text in memory -/

section Memory

variable {SIZE : ℕ}

/-- The length that is returned is that of the text. -/
theorem length_convert (b : RawBuffer SIZE) (v : ℤ) :
    (b.convert v).2 = (decimal v).length := by
  rw [← reverse_convertText, List.length_reverse]
  exact Nat.add_sub_cancel_left _ _

/-- **The text and its terminator** are where the cursor is. -/
theorem loadBytes_convert (b : RawBuffer SIZE) (v : ℤ) :
    loadBytes (b.convert v).1.data b.cur ((decimal v).length + 1) = decimal v ++ [0] := by
  have hstore : loadBytes (storeBytes b.data b.cur (convertText v ++ [0])) b.cur
      ((convertText v).length + 1) = convertText v ++ [0] := by
    have := loadBytes_storeBytes b.data b.cur (convertText v ++ [0]) []
    rwa [List.append_nil, List.length_append, List.length_singleton] at this
  rw [loadBytes_add] at hstore
  obtain ⟨htext, hnul⟩ := List.append_inj' hstore (by simp)
  rw [← reverse_convertText, List.length_reverse, loadBytes_add]
  show loadBytes (reverseBytes (storeBytes b.data b.cur (convertText v ++ [0])) b.cur
      (b.cur + (convertText v).length)) b.cur _
    ++ loadBytes (reverseBytes _ b.cur (b.cur + (convertText v).length)) _ 1 = _
  rw [loadBytes_reverseBytes, htext]
  refine congrArg _ (Eq.trans (loadBytes_congr fun k hk _ => ?_) hnul)
  exact reverseBytes_of_le hk

/-- No other byte is changed. -/
theorem data_convert (b : RawBuffer SIZE) (v : ℤ) {k : ℕ}
    (hk : k < b.cur ∨ b.cur + (decimal v).length < k) : (b.convert v).1.data k = b.data k := by
  rw [← reverse_convertText, List.length_reverse] at hk
  show reverseBytes (storeBytes b.data b.cur (convertText v ++ [0])) b.cur
    (b.cur + (convertText v).length) k = _
  rcases hk with hk | hk
  · rw [reverseBytes_of_lt hk, storeBytes_of_lt hk]
  · rw [reverseBytes_of_le (by omega), storeBytes_of_le]
    rw [List.length_append, List.length_singleton]
    omega

/-- The places that are stored to. -/
theorem written_convert (b : RawBuffer SIZE) (v : ℤ) :
    ∃ ws, (b.convert v).1.written = b.written ++ ws
      ∧ ∀ i ∈ ws, b.cur ≤ i ∧ i ≤ b.cur + (decimal v).length := by
  have hlen : (decimal v).length = (convertText v).length := by
    rw [← reverse_convertText, List.length_reverse]
  refine ⟨_, List.append_assoc .., fun i hi => ?_⟩
  rcases List.mem_append.mp hi with hi | hi
  · rw [List.mem_range'_1, List.length_append, List.length_singleton] at hi
    omega
  · rw [List.mem_range'_1] at hi
    omega

/-- **Integers are printed exactly.** For every value of every integer type the
stream accepts, in any buffer: the conversion returns, and there is the
canonical decimal text of the value with a terminator behind it where the cursor
is, from which the value can be read back; its length is returned and is at most
20; and nothing else is stored to, so 21 bytes are enough, below the 32 that
`format_integer` asks for. -/
theorem convert_exact (b : RawBuffer SIZE) (x : IntegerValue) :
    ∃ (b' : RawBuffer SIZE) (text : List UInt8) (ws : List ℕ),
      x.convert b = some (b', text.length)
        ∧ Canonical text x.toInt
        ∧ (text.length ≤ 20 ∧ text.length + 1 < LogStream.numberSizeLimit)
        ∧ loadBytes b'.data b.cur (text.length + 1) = text ++ [0]
        ∧ (∀ k, k < b.cur ∨ b.cur + text.length < k → b'.data k = b.data k)
        ∧ b'.written = b.written ++ ws
        ∧ ∀ i ∈ ws, b.cur ≤ i ∧ i ≤ b.cur + text.length := by
  have hlen := length_decimal_le x.fits
  obtain ⟨ws, hws, hin⟩ := written_convert b x.toInt
  refine ⟨(b.convert x.toInt).1, decimal x.toInt, ws, ?_, canonical_decimal _,
    ⟨hlen, Nat.lt_of_le_of_lt (Nat.succ_le_succ hlen) (by decide)⟩, loadBytes_convert b _,
    fun k hk => data_convert b _ hk, hws, hin⟩
  rw [x.convert_eq, ← length_convert b]

end Memory

/-- The most negative value of 64 bits is printed. -/
example : (convertDigits (-9223372036854775808 : Int64)).map List.reverse
    = some (chars "9223372036854775808") := by
  decide +kernel

end Convert
