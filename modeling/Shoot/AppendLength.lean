import Shoot.LogStream

/-!
# The length of an appended text

`FixedBuffer::append` takes the length of its text as a `size_t`, and compares it
with the free space as an `int`. The cast takes the length modulo `2 ^ 32` and reads
the upper half of the remainders as negative numbers. For a text that fits this makes
no difference, since the cast never makes a length greater. A text that does not fit is
left out only if its remainder does not fit either and is in the lower half; otherwise
it is copied over the end of the array (`RawBuffer.append_iff`).

`LogStream` appends strings of any size, so `<<` lets such texts through as well
(`LogStream.all_or_nothing_iff`).
-/

namespace RawBuffer

variable {SIZE : ℕ} {b b' : RawBuffer SIZE} {buf : List UInt8}

/-- **All or nothing**: either the whole text is copied and the size stays below that
of the array, or the buffer is unchanged; and it is unchanged if the text is not
shorter than the free space. -/
structure AllOrNothing (b : RawBuffer SIZE) (buf : List UInt8) (b' : RawBuffer SIZE) :
    Prop where
  all_or_nothing : b.Wrote buf b' ∧ b.size + buf.length < SIZE ∨ b' = b
  nothing : b.avail ≤ buf.length → b' = b

/-- **A length the guard is right about**: the text is shorter than the free space, or
the remainder of its length is a nonnegative `int` and not below the free space. -/
def Guarded (b : RawBuffer SIZE) (len : ℕ) : Prop :=
  (len : ℤ) < b.avail ∨ b.avail ≤ (len % 2 ^ 32 : ℕ) ∧ len % 2 ^ 32 < 2 ^ 31

instance (b : RawBuffer SIZE) (len : ℕ) : Decidable (b.Guarded len) :=
  inferInstanceAs (Decidable (_ ∨ _ ∧ _))

/-- The guard lets a text through unless the remainder of its length is a nonnegative
`int` that is not below the free space. -/
theorem castInt_lt_avail_iff (hcur : b.cur < SIZE) {len : ℕ} :
    castInt len < b.avail ↔ ¬(b.avail ≤ (len % 2 ^ 32 : ℕ) ∧ len % 2 ^ 32 < 2 ^ 31) := by
  have havail : 1 ≤ b.avail := by
    unfold avail
    omega
  rw [castInt_eq]
  split
  · next hsmall => exact ⟨fun hlt h => absurd hlt (Int.not_lt.mpr h.1),
      fun hnot => Int.not_le.mp fun hle => hnot ⟨hle, hsmall⟩⟩
  · next hlarge => exact ⟨fun _ h => hlarge h.2, fun _ => by omega⟩

/-- **`append` is all or nothing** exactly at the lengths its guard is right about. -/
theorem append_iff (hcur : b.cur < SIZE) :
    b.AllOrNothing buf (b.append buf) ↔ b.Guarded buf.length := by
  constructor
  · intro h
    by_cases hlt : (buf.length : ℤ) < b.avail
    · exact Or.inl hlt
    · -- a text that was let through has moved the cursor
      refine Or.inr (Classical.byContradiction fun hnot => ?_)
      have hcopied := contents_append ((castInt_lt_avail_iff hcur).mpr hnot)
      rw [h.nothing (Int.not_lt.mp hlt)] at hcopied
      have hnil : buf = [] := List.self_eq_append_right.mp hcopied
      refine hlt ?_
      rw [hnil]
      unfold avail
      show (0 : ℤ) < _
      omega
  · rintro (hlt | hguard)
    · refine ⟨Or.inl ⟨wrote_append hlt, ?_⟩, fun hle => absurd hlt (Int.not_lt.mpr hle)⟩
      unfold avail at hlt
      unfold size
      omega
    · have hskipped : b.append buf = b :=
        if_neg fun hlt => (castInt_lt_avail_iff hcur).mp hlt hguard
      exact ⟨Or.inr hskipped, fun _ => hskipped⟩

/-- A text that is let through although it is longer than the free space is stored over
the end of the array. -/
theorem mem_written_append (hcur : b.cur < SIZE) (h : castInt buf.length < b.avail)
    (hlong : b.avail < buf.length) : SIZE ∈ (b.append buf).written := by
  unfold avail at hlong
  unfold append
  rw [if_pos h]
  refine List.mem_append_right _ (List.mem_range'_1.mpr ⟨Nat.le_of_lt hcur, ?_⟩)
  omega

/-- **The list of the bytes below the cursor** is appended to in the same way, whatever
the length. -/
theorem append_contents (b : RawBuffer SIZE) (buf : List UInt8) :
    (FixedBuffer.mk b.contents : FixedBuffer SIZE).append buf = ⟨(b.append buf).contents⟩ := by
  have havail : (FixedBuffer.mk b.contents : FixedBuffer SIZE).avail = b.avail :=
    RawBuffer.avail_eq.symm
  unfold FixedBuffer.append
  rw [havail]
  split
  · next h => rw [contents_append h]
  · next h =>
    unfold append
    rw [if_neg h]

end RawBuffer

namespace LogStream

variable {F D L : Type*}

/-- A string is appended as it is, whatever its length. -/
theorem insert_string (fl : FloatText F D L) (line : Buffer) (v : List UInt8) :
    insert fl line (.string v) = line.append v := rfl

/-- **Which lengths the guard of `append` is right about.** On a buffer that is not
full, `append` copies its text whole or leaves the buffer alone exactly if the text is
shorter than the free space, or the remainder of its length modulo `2 ^ 32` is not
below it and below `2 ^ 31`; and the same goes for a string that is put into a
stream. -/
theorem all_or_nothing_iff (fl : FloatText F D L) {SIZE : ℕ} {b : RawBuffer SIZE}
    (hb : b.cur < SIZE) {line : Buffer} (hline : line.cur < smallBuffer) (buf : List UInt8) :
    (b.AllOrNothing buf (b.append buf) ↔ b.Guarded buf.length)
      ∧ (line.AllOrNothing buf (insert fl line (.string buf)) ↔ line.Guarded buf.length) :=
  ⟨RawBuffer.append_iff hb, insert_string fl line buf ▸ RawBuffer.append_iff hline⟩

/-- Three bytes are appended to a buffer with five bytes free, and a string of three to
an empty line. -/
theorem all_or_nothing_three :
    let fl : FloatText Unit Unit Unit := ⟨id, fun _ => chars "1.5", fun _ => chars "1.5"⟩
    let b : RawBuffer 8 := ⟨fun _ => 0, 3, []⟩
    let line : Buffer := .new fun _ => 0
    b.AllOrNothing (chars "abc") (b.append (chars "abc"))
      ∧ line.AllOrNothing (chars "abc") (insert fl line (.string (chars "abc"))) := by
  intro fl b line
  obtain ⟨hb, hline⟩ := all_or_nothing_iff fl (show b.cur < 8 by decide)
    (show line.cur < smallBuffer by decide) (chars "abc")
  exact ⟨hb.mpr (by decide +kernel), hline.mpr (by decide +kernel)⟩

/-- **A string of `2 ^ 32` bytes is let through**: the cast makes zero of its length. It
is put into an empty line of 4000 bytes, and stored over the end of the array. -/
theorem not_all_or_nothing_four_gibibytes :
    let fl : FloatText Unit Unit Unit := ⟨id, fun _ => chars "1.5", fun _ => chars "1.5"⟩
    let line : Buffer := .new fun _ => 0
    let buf : List UInt8 := List.replicate (2 ^ 32) 97
    ¬line.AllOrNothing buf (insert fl line (.string buf))
      ∧ 4000 ∈ (insert fl line (.string buf)).written := by
  intro fl line buf
  have hlen : buf.length = 2 ^ 32 := List.length_replicate
  have hcur : line.cur < smallBuffer := by decide
  rw [insert_string]
  constructor
  · rw [RawBuffer.append_iff hcur, hlen]
    decide
  · refine RawBuffer.mem_written_append hcur ?_ ?_
    · rw [hlen]
      decide
    · rw [hlen]
      decide

end LogStream
