import Shoot.LogStream

/-!
# Loggers

`LOG` makes a temporary `Logger` and hands out its stream. The constructor has
printed the time, the program inserts its message, and the destructor inserts
where the statement stands – ` -- `, the file name, a colon, the line – and the
newline that ends the record, and passes the line to `output`.

The destructor makes these five insertions like any others, and they fit or not
one by one. A message that leaves less than 37 bytes and the length of the file
name loses the line number at least, and may lose the newline, so that the
record runs into the next one (`Logger.unterminated`). With that much space
left the record is whole, and otherwise it ends as it should only where the
message happened to contain what the destructor left out
(`Logger.terminated_iff`).
-/

open LogStream

/-- **A `Logger`.** -/
structure Logger where
  /-- `file_name_`. -/
  fileName : List UInt8
  /-- `line_`. -/
  line : Int32
  /-- `stream_`. -/
  stream : LogStream.Buffer

namespace Logger

variable {F D L : Type*} {fl : FloatText F D L}

/-- The constructor, with the text `strftime` makes in `format_time`, over
whatever the memory holds. -/
def new (fl : FloatText F D L) (data : ℕ → UInt8) (time fileName : List UInt8) (line : Int32) :
    Logger :=
  ⟨fileName, line, LogStream.insert fl (.new data) (.charPtr (some time))⟩

/-- A logger after insertions into its stream. -/
def insertAll (fl : FloatText F D L) (lg : Logger) (xs : List (Insertion F D L)) : Logger :=
  { lg with stream := LogStream.insertAll fl lg.stream xs }

@[simp] theorem stream_new (fl : FloatText F D L) (data : ℕ → UInt8)
    (time fileName : List UInt8) (line : Int32) :
    (new fl data time fileName line).stream
      = LogStream.insert fl (.new data) (.charPtr (some time)) := by
  rw [new]

@[simp] theorem stream_insertAll (lg : Logger) (xs : List (Insertion F D L)) :
    (lg.insertAll fl xs).stream = LogStream.insertAll fl lg.stream xs := rfl

/-- What the destructor inserts. -/
def place (lg : Logger) : List (Insertion F D L) :=
  [.charPtr (some (chars " -- ")), .string lg.fileName, .charPtr (some (chars ":")),
    .int lg.line, .char 10]

/-- **`~Logger()`**: the bytes it passes to `output`, `none` if something was
stored outside the array of the buffer and nothing can be said. -/
def output (fl : FloatText F D L) (lg : Logger) : Option (List UInt8) :=
  let b := LogStream.insertAll fl lg.stream lg.place
  if ∀ i ∈ b.written, i < smallBuffer then some b.contents else none

/-- ` -- `, the file name, a colon, the line and a newline. -/
def placeText (fileName : List UInt8) (line : Int32) : List UInt8 :=
  chars " -- " ++ fileName ++ (chars ":" ++ decimal line.toInt ++ [10])

/-- **The record is terminated**: its bytes end with the place. -/
def Terminated (fl : FloatText F D L) (lg : Logger) : Prop :=
  ∃ bytes, lg.output fl = some bytes ∧ placeText lg.fileName lg.line <:+ bytes

/-- What the destructor leaves out was there already: nothing but one byte is
free and the message ends with the place; or the file name alone fits, or
everything but the file name, and the message makes up for the rest. -/
def EndsAlready (lg : Logger) : Prop :=
  let m := lg.stream.contents
  let k := lg.fileName.length
  let S := placeText lg.fileName lg.line
  (m.length + 1 = 4000 ∧ S <:+ m)
    ∨ (1 ≤ k ∧ k ≤ 3 ∧ m.length + k + 1 = 4000 ∧ S <:+ m ++ lg.fileName)
    ∨ (m.length + 37 ≤ 4000 ∧ 4000 ≤ m.length + k + 4
      ∧ S <:+ m ++ chars " -- " ++ (chars ":" ++ decimal lg.line.toInt ++ [10]))

/-- **There is room for the place**: nothing was stored outside the array, and
the message leaves 37 bytes besides the file name – the separators and the 32
bytes a number needs. -/
def HasRoom (lg : Logger) : Prop :=
  (∀ i ∈ lg.stream.written, i < smallBuffer)
    ∧ (lg.stream.contents.length + lg.fileName.length + 37 ≤ 4000 ∨ lg.EndsAlready)

/-! ## Which records end with the place -/

section Texts

variable {X : List UInt8}

/-- What ends with the place ends with a newline, behind a digit. -/
theorem end_of_placeText_suffix {fileName : List UInt8} {line : Int32}
    (h : placeText fileName line <:+ X) :
    ∃ pre d, d < 10 ∧ X = pre ++ [digitChar d] ++ [10] := by
  obtain ⟨pre, rfl⟩ := h
  obtain ⟨pre', d, hd, hdec⟩ := decimal_eq_concat line.toInt
  refine ⟨pre ++ (chars " -- " ++ fileName ++ (chars ":" ++ pre')), d, hd, ?_⟩
  unfold placeText
  rw [hdec]
  simp only [List.append_assoc]

/-- A record that stops before the newline is not terminated. -/
theorem not_suffix_of_concat {fileName : List UInt8} {line : Int32} {c : UInt8} (hc : c ≠ 10) :
    ¬ placeText fileName line <:+ X ++ [c] := by
  intro h
  obtain ⟨pre, d, -, hX⟩ := end_of_placeText_suffix h
  exact hc (List.singleton_inj.mp (List.append_inj' hX rfl).2)

/-- Neither is one with a newline right behind the colon. -/
theorem not_suffix_of_colon {fileName : List UInt8} {line : Int32} :
    ¬ placeText fileName line <:+ X ++ [58, 10] := by
  intro h
  obtain ⟨pre, d, hd, hX⟩ := end_of_placeText_suffix h
  rw [List.append_assoc] at hX
  have hdigit : ∀ d, d < 10 → 58 ≠ digitChar d := by decide
  exact hdigit d hd (List.cons.inj (List.append_inj' hX rfl).2).1

/-- **The place is not a line that stops behind the file name**: the colon, the
line and the newline have no space, and shifting the place by their length
would put the space of the separator among them. -/
theorem not_suffix_of_fileName {fileName : List UInt8} {line : Int32} :
    ¬ placeText fileName line <:+ X ++ (chars " -- " ++ fileName) := by
  rintro ⟨r, h⟩
  have ht : (32 : UInt8) ∉ chars ":" ++ decimal line.toInt ++ [10] := by
    intro hm
    rcases List.mem_append.mp hm with hm | hm
    · rcases List.mem_append.mp hm with hm | hm
      · revert hm
        decide
      · exact space_notMem_decimal _ hm
    · revert hm
      decide
  have hpos : 0 < (chars ":" ++ decimal line.toInt ++ [10]).length := by
    rw [List.length_append]
    exact Nat.succ_pos _
  unfold placeText at h
  generalize chars ":" ++ decimal line.toInt ++ [10] = t at h ht hpos
  rcases List.append_eq_append_iff.mp h with ⟨u, -, hu⟩ | ⟨u, -, hu⟩
  · -- `u` is as long as `t`, and starts with the space of the separator
    have hlen := congrArg List.length hu
    have hcount := congrArg (List.count 32) hu
    simp only [List.count_append, List.count_eq_zero.mpr ht] at hcount
    simp only [List.length_append] at hlen
    cases u with
    | nil =>
      rw [List.length_nil] at hlen
      omega
    | cons c u =>
      have hc : c = 32 := (List.cons.inj hu).1.symm
      rw [hc, List.count_cons_self] at hcount
      omega
  · have hlen := congrArg List.length hu
    simp only [List.length_append] at hlen
    omega

end Texts

/-- What the destructor inserts behind the file name, by the free space it
finds: everything, or nothing, or a colon that no line follows. -/
theorem tail_cases (fl : FloatText F D L) (line : Int32) {avail : ℤ} (h : 1 ≤ avail)
    {r : List UInt8}
    (hr : (fittingIn fl avail [.charPtr (some (chars ":")), .int line, .char 10]).flatMap
      (text fl) = r) :
    (33 ≤ avail ∧ r = chars ":" ++ decimal line.toInt ++ [10])
      ∨ (avail = 1 ∧ r = [])
      ∨ (1 < avail ∧ avail < 33 ∧ (r = [58] ∨ r = [58, 10])) := by
  have hcolon : Fits fl avail (.charPtr (some (chars ":"))) ↔ 1 < avail := fits_text rfl
  have hline : ∀ a, Fits fl a (.int line) ↔ 32 ≤ a := fun a => fits_number rfl
  have hnl : ∀ a, Fits fl a (.char 10) ↔ 1 < a := fun a => fits_text rfl
  have hone : ((text fl (.charPtr (some (chars ":")))).length : ℤ) = 1 := rfl
  have hlen : (text fl (.int line)).length ≤ 20 :=
    length_decimal_le ⟨by have := line.le_toInt; omega, by have := line.toInt_lt; omega⟩
  rw [flatMap_fittingIn_cons, flatMap_fittingIn_cons, flatMap_fittingIn_cons,
    flatMap_fittingIn_cons, flatMap_fittingIn_cons, hone] at hr
  simp only [fittingIn, hcolon, hline, hnl] at hr
  subst hr
  rcases lt_or_ge 1 avail with ha | ha
  · rw [if_pos ha]
    by_cases hroom : 33 ≤ avail
    · rw [if_pos (show 32 ≤ avail - 1 by omega),
        if_pos (show 1 < avail - 1 - ((text fl (.int line)).length : ℤ) by omega)]
      exact Or.inl ⟨hroom, (List.append_assoc _ _ _).symm⟩
    · rw [if_neg (show ¬ 32 ≤ avail - 1 by omega)]
      refine Or.inr (Or.inr ⟨ha, Int.not_le.mp hroom, ?_⟩)
      split
      · exact Or.inr rfl
      · exact Or.inl rfl
  · rw [if_neg (by omega), if_neg (by omega), if_neg (by omega)]
    exact Or.inr (Or.inl ⟨by omega, rfl⟩)

/-- **The end of the record**, by what the destructor inserts behind `X`: the
place is there if the colon, the line and the newline fit, or if nothing does
and the place was there. -/
theorem suffix_tail_iff (fl : FloatText F D L) {fileName : List UInt8} {line : Int32} {avail : ℤ}
    (h : 1 ≤ avail) (X : List UInt8) :
    placeText fileName line <:+ X ++ (fittingIn fl avail
        [.charPtr (some (chars ":")), .int line, .char 10]).flatMap (text fl)
      ↔ (33 ≤ avail ∧ placeText fileName line <:+ X ++ (chars ":" ++ decimal line.toInt ++ [10]))
        ∨ (avail = 1 ∧ placeText fileName line <:+ X) := by
  rcases tail_cases fl line h rfl with ⟨ha, hr⟩ | ⟨ha, hr⟩ | ⟨ha, ha', hr | hr⟩
  · rw [hr]
    exact ⟨fun hs => Or.inl ⟨ha, hs⟩, fun hs => hs.elim And.right fun hs => by omega⟩
  · rw [hr, List.append_nil]
    exact ⟨fun hs => Or.inr ⟨ha, hs⟩, fun hs => hs.elim (fun hs => by omega) And.right⟩
  · rw [hr]
    exact iff_of_false (not_suffix_of_concat (by decide)) (by omega)
  · rw [hr]
    exact iff_of_false not_suffix_of_colon (by omega)

/-- **The record ends with the place exactly if there was room for it**, or if
what was left out was there already: behind a message `m` that leaves `avail`
bytes. -/
theorem suffix_place_iff (fl : FloatText F D L) (f : List UInt8) (line : Int32)
    {m : List UInt8} {avail : ℤ} (ha : avail = 4000 - m.length) (h : 1 ≤ avail) :
    placeText f line <:+ m ++ (fittingIn fl avail [.charPtr (some (chars " -- ")), .string f,
        .charPtr (some (chars ":")), .int line, .char 10]).flatMap (text fl)
      ↔ m.length + f.length + 37 ≤ 4000
        ∨ (m.length + 1 = 4000 ∧ placeText f line <:+ m)
        ∨ (1 ≤ f.length ∧ f.length ≤ 3 ∧ m.length + f.length + 1 = 4000
            ∧ placeText f line <:+ m ++ f)
        ∨ (m.length + 37 ≤ 4000 ∧ 4000 ≤ m.length + f.length + 4
            ∧ placeText f line <:+
              m ++ chars " -- " ++ (chars ":" ++ decimal line.toInt ++ [10])) := by
  have hsep : ∀ a, Fits fl a (.charPtr (some (chars " -- "))) ↔ 4 < a := fun _ => fits_text rfl
  have hfile : ∀ a, Fits fl a (.string f) ↔ (f.length : ℤ) < a := fun _ => fits_text rfl
  have hseplen : ((text fl (.charPtr (some (chars " -- ")))).length : ℤ) = 4 := rfl
  rw [flatMap_fittingIn_cons, flatMap_fittingIn_cons, flatMap_fittingIn_cons avail, hseplen]
  have hseptext : text fl (.charPtr (some (chars " -- "))) = chars " -- " := rfl
  have hfiletext : text fl (.string f) = f := rfl
  simp only [hsep, hfile, hseptext, hfiletext]
  by_cases h4 : 4 < avail
  · rw [if_pos h4]
    by_cases hf : (f.length : ℤ) < avail - 4
    · -- the separator and the file name are there
      rw [if_pos hf, ← List.append_assoc, ← List.append_assoc, suffix_tail_iff fl (by omega)]
      constructor
      · rintro (⟨hroom, -⟩ | ⟨-, hs⟩)
        · exact Or.inl (by omega)
        · rw [List.append_assoc] at hs
          exact absurd hs not_suffix_of_fileName
      · rintro (hroom | ⟨hm, -⟩ | ⟨-, -, hm, -⟩ | ⟨-, hm, -⟩)
        · refine Or.inl ⟨by omega, m, ?_⟩
          unfold placeText
          simp only [List.append_assoc]
        all_goals omega
    · -- the separator is there, the file name is not
      rw [if_neg hf, ← List.append_assoc, suffix_tail_iff fl (by omega)]
      constructor
      · rintro (⟨hroom, hs⟩ | ⟨-, hs⟩)
        · exact Or.inr (Or.inr (Or.inr ⟨by omega, by omega, hs⟩))
        · rw [show m ++ chars " -- " = m ++ [32, 45, 45] ++ [32] by
            rw [List.append_assoc]
            rfl] at hs
          exact absurd hs (not_suffix_of_concat (by decide))
      · rintro (hroom | ⟨hm, -⟩ | ⟨-, hk, hm, -⟩ | ⟨hm, -, hs⟩)
        · omega
        · omega
        · omega
        · exact Or.inl ⟨by omega, hs⟩
  · rw [if_neg h4]
    by_cases hf : (f.length : ℤ) < avail
    · -- the file name alone is there
      rw [if_pos hf, ← List.append_assoc, suffix_tail_iff fl (by omega)]
      constructor
      · rintro (⟨hroom, -⟩ | ⟨hone, hs⟩)
        · omega
        · cases f with
          | nil => exact Or.inr (Or.inl ⟨by rw [List.length_nil] at hone; omega, by simpa using hs⟩)
          | cons c f =>
            rw [List.length_cons] at hone hf
            exact Or.inr (Or.inr (Or.inl
              ⟨Nat.succ_pos _, by rw [List.length_cons]; omega,
                by rw [List.length_cons]; omega, hs⟩))
      · rintro (hroom | ⟨hm, hs⟩ | ⟨-, -, hm, hs⟩ | ⟨hm, -⟩)
        · omega
        · obtain rfl : f = [] := List.length_eq_zero_iff.mp (by omega)
          exact Or.inr ⟨by rw [List.length_nil]; omega, by simpa using hs⟩
        · exact Or.inr ⟨by omega, hs⟩
        · omega
    · -- nothing is there
      rw [if_neg hf, suffix_tail_iff fl h]
      constructor
      · rintro (⟨hroom, -⟩ | ⟨hone, hs⟩)
        · omega
        · exact Or.inr (Or.inl ⟨by omega, hs⟩)
      · rintro (hroom | ⟨hm, hs⟩ | ⟨-, -, hm, -⟩ | ⟨hm, -⟩)
        · omega
        · exact Or.inr ⟨by omega, hs⟩
        all_goals omega

/-- The texts of the place are short. -/
theorem short_place (fl : FloatText F D L) {lg : Logger} (hk : lg.fileName.length < 4000) :
    ∀ x ∈ lg.place, Short fl x := by
  have hlen : (decimal lg.line.toInt).length ≤ 20 :=
    length_decimal_le ⟨by have := lg.line.le_toInt; omega, by have := lg.line.toInt_lt; omega⟩
  unfold place
  simp only [List.forall_mem_cons, List.not_mem_nil, IsEmpty.forall_iff, implies_true, and_true]
  refine ⟨?_, ?_, ?_, ?_, ?_⟩
  · show (chars " -- ").length < _
    decide
  · show lg.fileName.length < _
    omega
  · show (chars ":").length < _
    decide
  · show (decimal lg.line.toInt).length < _
    omega
  · show [(10 : UInt8)].length < _
    decide

/-- **`~Logger` passes on the message and what fits of the place**, if nothing
was stored outside the array before. -/
theorem output_of_sound (hfl : fl.Short) {lg : Logger} (hb : lg.stream.Sound)
    (hk : lg.fileName.length < 4000) :
    lg.output fl = some (lg.stream.contents
      ++ (fittingIn fl lg.stream.avail lg.place).flatMap (text fl)) := by
  have hw := wrote_insertAll (b := lg.stream) hfl (short_place fl hk)
  rw [output, if_pos (hw.sound hb).written_lt, hw.contents_eq,
    fitting_eq hfl (short_place fl hk)]

/-- A stream into which a logger's time and anything else was inserted is
sound, if nothing was stored outside its array. -/
theorem sound_stream (hfl : fl.Short) (data : ℕ → UInt8) {time fileName : List UInt8}
    {line : Int32} {xs : List (Insertion F D L)}
    (h : ∀ i ∈ ((new fl data time fileName line).insertAll fl xs).stream.written,
      i < smallBuffer) :
    ((new fl data time fileName line).insertAll fl xs).stream.Sound := by
  have hnew : (RawBuffer.new data : LogStream.Buffer).Sound :=
    ⟨Nat.zero_lt_succ _, fun i hi => by cases hi⟩
  rw [stream_insertAll, stream_new] at h ⊢
  exact sound_insertAll hfl
    (sound_insert hfl hnew fun i hi => h i (written_insertAll hfl _ xs hi)) h

/-- **A record is terminated exactly if there was room for its place.** For
every file name and line that fit an empty buffer together with the time, and
whatever is inserted: what `~Logger` passes to `output` ends with ` -- `, the
file name, a colon, the line and a newline if and only if the message leaves
room for them. -/
theorem terminated_iff (hfl : fl.Short) (data : ℕ → UInt8) {time fileName : List UInt8}
    {line : Int32} (hfit : time.length + (placeText fileName line).length < 4000)
    (xs : List (Insertion F D L)) :
    ((new fl data time fileName line).insertAll fl xs).Terminated fl
      ↔ ((new fl data time fileName line).insertAll fl xs).HasRoom := by
  have hk : fileName.length < 4000 := by
    unfold placeText at hfit
    simp only [List.length_append] at hfit
    omega
  by_cases hin : ∀ i ∈ ((new fl data time fileName line).insertAll fl xs).stream.written,
      i < smallBuffer
  · have hb := sound_stream hfl data hin
    have hroom := suffix_place_iff fl fileName line RawBuffer.avail_eq hb.one_le_avail
    rw [Terminated, output_of_sound hfl hb hk, HasRoom, and_iff_right hin]
    refine Iff.trans ⟨?_, fun hs => ⟨_, rfl, hs⟩⟩ hroom
    rintro ⟨bytes, hbytes, hs⟩
    exact Option.some.inj hbytes ▸ hs
  · -- what was stored outside the array stays so
    refine iff_of_false ?_ fun h => hin h.1
    rintro ⟨bytes, hbytes, -⟩
    rw [output, Option.ite_none_right_eq_some] at hbytes
    exact hin fun i hi => hbytes.1 i (written_insertAll hfl _ _ hi)

/-- A short message leaves room. -/
theorem terminated_short :
    let fl : FloatText Unit Unit Unit := ⟨id, fun _ => chars "1.5", fun _ => chars "1.5"⟩
    ((new fl (fun _ => 170) (chars "2024-01-01 00:00:00\t") (chars "main.cc") 7).insertAll fl
      [.charPtr (some (chars "hello "))]).Terminated fl := by
  intro fl
  have hfl : fl.Short := ⟨fun _ => show (chars "1.5").length ≤ 31 by decide,
    fun _ => show (chars "1.5").length ≤ 31 by decide⟩
  refine (terminated_iff hfl (fun _ => 170) (by decide +kernel) _).mpr ⟨?_, Or.inl ?_⟩
  · decide +kernel
  · decide +kernel

/-- **A message of 3975 bytes loses its place**: the separator still fits, and
the record stops there, without a newline. -/
theorem unterminated :
    let fl : FloatText Unit Unit Unit := ⟨id, fun _ => chars "1.5", fun _ => chars "1.5"⟩
    let time := chars "2024-01-01 00:00:00\t"
    let lg := (new fl (fun _ => 170) time (chars "main.cc") 7).insertAll fl
      [.string (.replicate 3975 65)]
    time.length + (placeText (chars "main.cc") 7).length < 4000 ∧ ¬ lg.Terminated fl
      ∧ lg.output fl = some (time ++ .replicate 3975 65 ++ chars " -- ") := by
  intro fl time lg
  have hfl : fl.Short := ⟨fun _ => show (chars "1.5").length ≤ 31 by decide,
    fun _ => show (chars "1.5").length ≤ 31 by decide⟩
  have hxs : ∀ x ∈ ([.charPtr (some time), .string (.replicate 3975 65)] :
      List (Insertion Unit Unit Unit)), Short fl x := by
    simp only [List.forall_mem_cons, Short, text, List.length_replicate, Option.getD_some]
    exact ⟨by decide, by decide, fun _ h => by cases h⟩
  have hfit : fittingIn fl 4000 [.charPtr (some time), .string (.replicate 3975 65)]
      = [.charPtr (some time), .string (.replicate 3975 65)] := by
    rw [fittingIn, if_pos ((fits_text rfl).mpr (by decide)), fittingIn,
      if_pos ((fits_text rfl).mpr ?_)]
    · rfl
    · show ((List.replicate 3975 (65 : UInt8)).length : ℤ) < 3980
      rw [List.length_replicate]
      decide
  -- twenty bytes of time and the message are in the stream, and five bytes are free
  have hw := wrote_insertAll (b := .new fun _ => 170) hfl hxs
  rw [fitting_eq hfl hxs,
    show (RawBuffer.new fun _ => 170 : LogStream.Buffer).avail = 4000 from rfl,
    hfit] at hw
  have hstream : lg.stream = LogStream.insertAll fl (.new fun _ => 170)
      [.charPtr (some time), .string (.replicate 3975 65)] := by
    rw [stream_insertAll, stream_new]
    exact List.foldl_cons.symm
  rw [← hstream] at hw
  have hb : lg.stream.Sound := hw.sound ⟨Nat.zero_lt_succ _, fun i hi => by cases hi⟩
  have hm : lg.stream.contents = time ++ .replicate 3975 65 := by
    rw [hw.contents_eq]
    exact congrArg (time ++ ·) (List.append_nil _)
  have havail : lg.stream.avail = 5 := by
    have ht : time.length = 20 := by decide
    rw [RawBuffer.avail_eq, hm, List.length_append, List.length_replicate, ht]
    decide
  have hout : lg.output fl = some (time ++ .replicate 3975 65 ++ chars " -- ") := by
    rw [output_of_sound hfl hb (by decide), hm, havail]
    rfl
  refine ⟨by decide +kernel, ?_, hout⟩
  rintro ⟨bytes, hbytes, hs⟩
  rw [hout, Option.some.injEq] at hbytes
  rw [← hbytes, show chars " -- " = [32, 45, 45] ++ [32] from rfl, ← List.append_assoc] at hs
  exact not_suffix_of_concat (by decide) hs

end Logger
