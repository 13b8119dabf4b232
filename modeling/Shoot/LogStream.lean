import Shoot.RawBuffer

/-!
# Log streams

A `LogStream` prints values into a buffer of 4000 bytes, the line that is being
built. Its overloads of `<<` end in one of three writers, each behind its own
guard: a text is appended when it is shorter than the free space, an integer is
printed when 32 bytes are free, and so is a floating point number. A value
whose guard fails leaves no trace.

The buffer stays sound whatever is inserted (`LogStream.buffer_integrity`). No
byte is ever stored outside the array, not even the terminators that `convert`
and `snprintf` store behind their text before the cursor is moved; a byte is
always free; and the line is the texts of the insertions that fitted, whole and
in order.
-/

/-- **The floating point numbers**, as far as the stream uses them: the types
`float`, `double` and `long double`, and the texts `snprintf` makes of them. -/
structure FloatText (F D L : Type*) where
  /-- `static_cast<double>`. -/
  toDouble : F → D
  /-- The text of `"%.12g"`. -/
  g : D → List UInt8
  /-- The text of `"%.12Lg"`. -/
  lg : L → List UInt8

/-- The texts of the floating point numbers have 31 characters at most. -/
structure FloatText.Short {F D L : Type*} (fl : FloatText F D L) : Prop where
  g_le : ∀ v, (fl.g v).length ≤ 31
  lg_le : ∀ v, (fl.lg v).length ≤ 31

/-- **The insertions into a stream**: the overloads of `<<`, and `append`. A C
string is the bytes before its terminator, `none` if the pointer is null. -/
inductive Insertion (F D L : Type*) where
  | bool (v : Bool)
  | short (v : Int16)
  | unsignedShort (v : UInt16)
  | int (v : Int32)
  | unsignedInt (v : UInt32)
  | long (v : Int64)
  | unsignedLong (v : UInt64)
  | longLong (v : Int64)
  | unsignedLongLong (v : UInt64)
  | float (v : F)
  | double (v : D)
  | longDouble (v : L)
  | char (v : UInt8)
  | charPtr (v : Option (List UInt8))
  | unsignedCharPtr (v : Option (List UInt8))
  | string (v : List UInt8)
  | append (data : List UInt8)

namespace LogStream

variable {F D L : Type*}

/-- `number_size_limit`. -/
def numberSizeLimit : ℕ := 32

/-- `LogStream::Buffer`. -/
abbrev Buffer := RawBuffer smallBuffer

/-- `format_integer(v)`. -/
def formatInteger (b : Buffer) (v : ℤ) : Buffer :=
  if b.avail ≥ numberSizeLimit then
    let r := b.convert v
    r.1.add r.2
  else
    b

/-- What the overloads for floating point numbers do with the text. -/
def formatFloat (b : Buffer) (text : List UInt8) : Buffer :=
  if b.avail ≥ numberSizeLimit then
    let r := b.snprintf numberSizeLimit text
    r.1.add r.2
  else
    b

/-- `operator<<(const char* v)`. -/
def insertCharPtr (b : Buffer) : Option (List UInt8) → Buffer
  | some v => b.append v
  | none => b.append (chars "(null)")

/-- **`operator<<`**, and `append`. -/
def insert (fl : FloatText F D L) (b : Buffer) : Insertion F D L → Buffer
  | .bool v => b.append (chars (if v then "1" else "0"))
  | .short v => formatInteger b v.toInt32.toInt
  | .unsignedShort v => formatInteger b v.toUInt32.toNat
  | .int v => formatInteger b v.toInt
  | .unsignedInt v => formatInteger b v.toNat
  | .long v => formatInteger b v.toInt
  | .unsignedLong v => formatInteger b v.toNat
  | .longLong v => formatInteger b v.toInt
  | .unsignedLongLong v => formatInteger b v.toNat
  | .float v => formatFloat b (fl.g (fl.toDouble v))
  | .double v => formatFloat b (fl.g v)
  | .longDouble v => formatFloat b (fl.lg v)
  | .char v => b.append [v]
  | .charPtr v => insertCharPtr b v
  | .unsignedCharPtr v => insertCharPtr b v
  | .string v => b.append v
  | .append data => b.append data

/-- The stream after some insertions. -/
def insertAll (fl : FloatText F D L) (b : Buffer) (xs : List (Insertion F D L)) : Buffer :=
  xs.foldl (insert fl) b

/-! ## What an insertion stands for -/

/-- **The complete rendering of a value.** -/
def text (fl : FloatText F D L) : Insertion F D L → List UInt8
  | .bool v => chars (if v then "1" else "0")
  | .short v => decimal v.toInt
  | .unsignedShort v => decimal v.toNat
  | .int v => decimal v.toInt
  | .unsignedInt v => decimal v.toNat
  | .long v => decimal v.toInt
  | .unsignedLong v => decimal v.toNat
  | .longLong v => decimal v.toInt
  | .unsignedLongLong v => decimal v.toNat
  | .float v => fl.g (fl.toDouble v)
  | .double v => fl.g v
  | .longDouble v => fl.lg v
  | .char v => [v]
  | .charPtr v => v.getD (chars "(null)")
  | .unsignedCharPtr v => v.getD (chars "(null)")
  | .string v => v
  | .append data => data

/-- A number needs 32 free bytes, whatever its text. -/
def isNumber : Insertion F D L → Bool
  | .short _ | .unsignedShort _ | .int _ | .unsignedInt _ | .long _ | .unsignedLong _
  | .longLong _ | .unsignedLongLong _ | .float _ | .double _ | .longDouble _ => true
  | .bool _ | .char _ | .charPtr _ | .unsignedCharPtr _ | .string _ | .append _ => false

/-- **An insertion fits** in the given free space. -/
def Fits (fl : FloatText F D L) (avail : ℤ) (x : Insertion F D L) : Prop :=
  if isNumber x then 32 ≤ avail else ((text fl x).length : ℤ) < avail

instance (fl : FloatText F D L) (avail : ℤ) (x : Insertion F D L) :
    Decidable (Fits fl avail x) :=
  inferInstanceAs (Decidable (if isNumber x then 32 ≤ avail else _ < avail))

/-- The insertions that fit when they are made. -/
def fitting (fl : FloatText F D L) : Buffer → List (Insertion F D L) → List (Insertion F D L)
  | _, [] => []
  | b, x :: xs =>
    if Fits fl b.avail x then
      x :: fitting fl (insert fl b x) xs
    else
      fitting fl (insert fl b x) xs

/-- The texts of a stream are shorter than `2 ^ 31` bytes. -/
def Short (fl : FloatText F D L) (x : Insertion F D L) : Prop := (text fl x).length < 2 ^ 31

variable {fl : FloatText F D L} {b : Buffer}

/-- What one insertion does: the whole text, or nothing. -/
structure Inserted (fl : FloatText F D L) (b : Buffer) (x : Insertion F D L) (b' : Buffer) :
    Prop where
  wrote : Fits fl b.avail x → b.Wrote (text fl x) b'
  skipped : ¬ Fits fl b.avail x → b' = b

theorem fits_text {x : Insertion F D L} (hx : isNumber x = false) {avail : ℤ} :
    Fits fl avail x ↔ ((text fl x).length : ℤ) < avail := by
  unfold Fits
  rw [hx, if_neg Bool.false_ne_true]

theorem fits_number {x : Insertion F D L} (hx : isNumber x = true) {avail : ℤ} :
    Fits fl avail x ↔ 32 ≤ avail := by
  unfold Fits
  rw [hx, if_pos rfl]

/-- A text is appended if it fits. -/
theorem inserted_append {x : Insertion F D L} (hx : isNumber x = false)
    (hlen : Short fl x) : Inserted fl b x (b.append (text fl x)) where
  wrote h := RawBuffer.wrote_append ((fits_text hx).mp h)
  skipped h := RawBuffer.append_of_le hlen (Int.not_lt.mp fun hlt => h ((fits_text hx).mpr hlt))

/-- An integer is printed if 32 bytes are free. -/
theorem inserted_integer {x : Insertion F D L} (hx : isNumber x = true) {v : ℤ}
    (hv : Fits64 v) (ht : text fl x = decimal v) : Inserted fl b x (formatInteger b v) where
  wrote h := by
    have havail : b.avail ≥ numberSizeLimit := (fits_number hx).mp h
    rw [ht, formatInteger, if_pos havail]
    exact RawBuffer.wrote_convert hv havail
  skipped h := if_neg fun havail => h ((fits_number hx).mpr havail)

/-- A floating point number is printed if 32 bytes are free. -/
theorem inserted_float {x : Insertion F D L} (hx : isNumber x = true)
    (ht : (text fl x).length ≤ 31) : Inserted fl b x (formatFloat b (text fl x)) where
  wrote h := by
    have havail : b.avail ≥ numberSizeLimit := (fits_number hx).mp h
    rw [formatFloat, if_pos havail]
    exact RawBuffer.wrote_snprintf ht havail
  skipped h := if_neg fun havail => h ((fits_number hx).mpr havail)

/-- The two overloads for C strings append the same text. -/
theorem insertCharPtr_eq (b : Buffer) (v : Option (List UInt8)) :
    insertCharPtr b v = b.append (v.getD (chars "(null)")) := by
  cases v <;> rfl

/-- **Each overload ends in one of the three writers**, with the rendering of
its value. -/
theorem insert_cases (hfl : fl.Short) (x : Insertion F D L) :
    (isNumber x = false ∧ ∀ b, insert fl b x = b.append (text fl x))
      ∨ (isNumber x = true ∧ ∃ v, Fits64 v ∧ text fl x = decimal v
          ∧ ∀ b, insert fl b x = formatInteger b v)
      ∨ (isNumber x = true ∧ (text fl x).length ≤ 31
          ∧ ∀ b, insert fl b x = formatFloat b (text fl x)) := by
  cases x with
  | bool v => exact Or.inl ⟨rfl, fun b => rfl⟩
  | char v => exact Or.inl ⟨rfl, fun b => rfl⟩
  | string v => exact Or.inl ⟨rfl, fun b => rfl⟩
  | append data => exact Or.inl ⟨rfl, fun b => rfl⟩
  | charPtr v => exact Or.inl ⟨rfl, fun b => insertCharPtr_eq b v⟩
  | unsignedCharPtr v => exact Or.inl ⟨rfl, fun b => insertCharPtr_eq b v⟩
  | short v =>
    have hv := v.toInt_lt
    have hv' := v.le_toInt
    exact Or.inr (Or.inl ⟨rfl, v.toInt, ⟨by omega, by omega⟩, rfl,
      fun b => by rw [insert, Int16.toInt_toInt32]⟩)
  | unsignedShort v =>
    have hv := v.toNat_lt
    exact Or.inr (Or.inl ⟨rfl, v.toNat, ⟨by omega, by omega⟩, rfl,
      fun b => by rw [insert, UInt16.toNat_toUInt32]⟩)
  | int v =>
    have hv := v.toInt_lt
    have hv' := v.le_toInt
    exact Or.inr (Or.inl ⟨rfl, v.toInt, ⟨by omega, by omega⟩, rfl, fun b => rfl⟩)
  | unsignedInt v =>
    have hv := v.toNat_lt
    exact Or.inr (Or.inl ⟨rfl, v.toNat, ⟨by omega, by omega⟩, rfl, fun b => rfl⟩)
  | long v | longLong v =>
    have hv := v.toInt_lt
    have hv' := v.le_toInt
    exact Or.inr (Or.inl ⟨rfl, v.toInt, ⟨by omega, by omega⟩, rfl, fun b => rfl⟩)
  | unsignedLong v | unsignedLongLong v =>
    have hv := v.toNat_lt
    exact Or.inr (Or.inl ⟨rfl, v.toNat, ⟨by omega, by omega⟩, rfl, fun b => rfl⟩)
  | float v => exact Or.inr (Or.inr ⟨rfl, hfl.g_le _, fun b => rfl⟩)
  | double v => exact Or.inr (Or.inr ⟨rfl, hfl.g_le _, fun b => rfl⟩)
  | longDouble v => exact Or.inr (Or.inr ⟨rfl, hfl.lg_le _, fun b => rfl⟩)

/-- **Each overload renders its value whole or not at all.** -/
theorem inserted_insert (hfl : fl.Short) {x : Insertion F D L} (hx : Short fl x) :
    Inserted fl b x (insert fl b x) := by
  rcases insert_cases hfl x with ⟨hn, h⟩ | ⟨hn, v, hv, ht, h⟩ | ⟨hn, ht, h⟩
  · rw [h]
    exact inserted_append hn hx
  · rw [h]
    exact inserted_integer hn hv ht
  · rw [h]
    exact inserted_float hn ht

/-- The insertions that fit, from the free space alone: each takes the length
of its text. -/
def fittingIn (fl : FloatText F D L) : ℤ → List (Insertion F D L) → List (Insertion F D L)
  | _, [] => []
  | avail, x :: xs =>
    if Fits fl avail x then
      x :: fittingIn fl (avail - (text fl x).length) xs
    else
      fittingIn fl avail xs

/-- Which insertions fit depends on the free space only. -/
theorem fitting_eq (hfl : fl.Short) {xs : List (Insertion F D L)} (hxs : ∀ x ∈ xs, Short fl x) :
    fitting fl b xs = fittingIn fl b.avail xs := by
  induction xs generalizing b with
  | nil => rfl
  | cons x xs ih =>
    obtain ⟨hx, hxs⟩ := List.forall_mem_cons.mp hxs
    have hone := inserted_insert (b := b) hfl hx
    rw [fitting, fittingIn, ih hxs]
    by_cases hfit : Fits fl b.avail x
    · rw [if_pos hfit, if_pos hfit, (hone.wrote hfit).avail_eq]
    · rw [if_neg hfit, if_neg hfit, hone.skipped hfit]

/-- What the first of some insertions adds, and what it leaves the rest. -/
theorem flatMap_fittingIn_cons (avail : ℤ) (x : Insertion F D L) (xs : List (Insertion F D L)) :
    (fittingIn fl avail (x :: xs)).flatMap (text fl)
      = if Fits fl avail x then
          text fl x ++ (fittingIn fl (avail - (text fl x).length) xs).flatMap (text fl)
        else
          (fittingIn fl avail xs).flatMap (text fl) := by
  rw [fittingIn]
  split
  · exact List.flatMap_cons
  · rfl

/-- Any insertions leave a sound buffer sound, and add the texts of those that
fitted. -/
theorem wrote_insertAll (hfl : fl.Short) {xs : List (Insertion F D L)}
    (hxs : ∀ x ∈ xs, Short fl x) :
    b.Wrote ((fitting fl b xs).flatMap (text fl)) (insertAll fl b xs) := by
  induction xs generalizing b with
  | nil => exact ⟨(List.append_nil _).symm, id⟩
  | cons x xs ih =>
    obtain ⟨hx, hxs⟩ := List.forall_mem_cons.mp hxs
    have hone := inserted_insert (b := b) hfl hx
    have hrest := ih (b := insert fl b x) hxs
    show b.Wrote _ (insertAll fl (insert fl b x) xs)
    by_cases hfit : Fits fl b.avail x
    · have hw := hone.wrote hfit
      rw [fitting, if_pos hfit, List.flatMap_cons]
      refine ⟨?_, fun hb => hrest.sound (hw.sound hb)⟩
      rw [hrest.contents_eq, hw.contents_eq, List.append_assoc]
    · rw [fitting, if_neg hfit]
      rw [hone.skipped hfit] at hrest ⊢
      exact hrest

/-- **The line buffer keeps its integrity.** Whatever is inserted into a new
stream: the used and the free bytes make up the array and one is free; nothing
was ever stored outside the array; and the line is the complete renderings of
the insertions that fitted when they were made, in order. -/
theorem buffer_integrity (hfl : fl.Short) (data : ℕ → UInt8) {xs : List (Insertion F D L)}
    (hxs : ∀ x ∈ xs, Short fl x) :
    let b := insertAll fl (.new data) xs
    (b.size + b.avail = 4000 ∧ 1 ≤ b.avail) ∧ (∀ i ∈ b.written, i < 4000)
      ∧ b.contents = (fitting fl (.new data) xs).flatMap (text fl) := by
  intro b
  have hw := wrote_insertAll (b := .new data) hfl hxs
  have hb : b.Sound := hw.sound ⟨Nat.zero_lt_succ _, fun i hi => by cases hi⟩
  refine ⟨⟨?_, hb.one_le_avail⟩, hb.written_lt, hw.contents_eq⟩
  show (b.cur : ℤ) + (smallBuffer - b.cur) = 4000
  unfold smallBuffer
  omega

/-- A text that is too long for the conversion in the guard of `append`, and is
copied all the same, is stored past the end of the array. So where nothing
was, the buffer is sound, whatever was inserted. -/
theorem sound_insert (hfl : fl.Short) {x : Insertion F D L} (hb : b.Sound)
    (h : ∀ i ∈ (insert fl b x).written, i < smallBuffer) : (insert fl b x).Sound := by
  by_cases hx : Short fl x
  · by_cases hfit : Fits fl b.avail x
    · exact ((inserted_insert hfl hx).wrote hfit).sound hb
    · rw [(inserted_insert hfl hx).skipped hfit]
      exact hb
  · unfold Short at hx
    rcases insert_cases hfl x with ⟨-, hins⟩ | ⟨-, v, hv, ht, -⟩ | ⟨-, ht, -⟩
    · rw [hins] at h ⊢
      unfold RawBuffer.append at h ⊢
      split at h
      · -- the last byte of the text is far outside
        have hlast := h (b.cur + ((text fl x).length - 1)) (List.mem_append_right _
          (List.mem_range'_1.mpr ⟨by omega, by omega⟩))
        unfold smallBuffer at hlast
        omega
      · rwa [if_neg ‹_›]
    · rw [ht] at hx
      have := length_decimal_le hv
      omega
    · omega

/-- What was stored stays on record. -/
theorem written_insert (hfl : fl.Short) (x : Insertion F D L) :
    b.written ⊆ (insert fl b x).written := by
  have hadd : ∀ (b : Buffer) (p : ℕ) (bytes : List UInt8) (len : ℕ),
      b.written ⊆ ((b.store p bytes).add len).written := fun b p bytes len =>
    List.subset_append_left _ _
  rcases insert_cases hfl x with ⟨-, h⟩ | ⟨-, v, -, -, h⟩ | ⟨-, -, h⟩
  · rw [h, RawBuffer.append]
    split
    · exact hadd _ _ _ _
    · exact List.Subset.refl _
  · rw [h, formatInteger]
    split
    · exact List.Subset.trans (hadd b b.cur (convertText v ++ [0]) 0)
        (List.subset_append_left _ _)
    · exact List.Subset.refl _
  · rw [h, formatFloat]
    split
    · exact hadd _ _ _ _
    · exact List.Subset.refl _

/-- Nor do any insertions take anything off it. -/
theorem written_insertAll (hfl : fl.Short) (b : Buffer) (xs : List (Insertion F D L)) :
    b.written ⊆ (insertAll fl b xs).written := by
  induction xs generalizing b with
  | nil => exact List.Subset.refl _
  | cons x xs ih => exact List.Subset.trans (written_insert hfl x) (ih (insert fl b x))

/-- A stream that was never stored outside its array is sound, whatever was
inserted into it. -/
theorem sound_insertAll (hfl : fl.Short) (hb : b.Sound) {xs : List (Insertion F D L)}
    (h : ∀ i ∈ (insertAll fl b xs).written, i < smallBuffer) : (insertAll fl b xs).Sound := by
  induction xs using List.reverseRecOn with
  | nil => exact hb
  | append_singleton xs x ih =>
    unfold insertAll at h ih ⊢
    rw [List.foldl_concat] at h ⊢
    exact sound_insert hfl (ih fun i hi => h i (written_insert hfl x hi)) h

/-- A line of values of several types, over memory that holds other bytes. -/
theorem buffer_integrity_mixed :
    let fl : FloatText Unit Unit Unit := ⟨id, fun _ => chars "1.5", fun _ => chars "1.5"⟩
    let xs : List (Insertion Unit Unit Unit) :=
      [.int (-120), .bool true, .charPtr none, .string (chars " x"), .double ()]
    let b := insertAll fl (.new fun _ => 170) xs
    (∀ i ∈ b.written, i < 4000) ∧ b.contents = chars "-1201(null) x1.5" := by
  intro fl xs b
  have hfl : fl.Short := ⟨fun _ => show (chars "1.5").length ≤ 31 by decide,
    fun _ => show (chars "1.5").length ≤ 31 by decide⟩
  have hxs : ∀ x ∈ xs, Short fl x := by
    unfold xs Short
    decide +kernel
  obtain ⟨-, hw, hc⟩ := buffer_integrity hfl (fun _ => 170) hxs
  refine ⟨hw, hc.trans ?_⟩
  unfold xs
  decide +kernel

end LogStream
