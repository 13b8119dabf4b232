import Shoot.Machine
import Shoot.WriteFile

/-!
# The log file on disk

A `Log2File`, as its callers see it, takes every byte and flushes now and then. Below it
are a `WriteFile` and stdio. The stream has a buffer of 64 KiB. It may take fewer bytes
than it is given, and then `WriteFile::append` drops the rest of the line; `fflush` may
fail; and whenever the buffer is full stdio writes some of it to the file by itself, up to
any byte of any line. So the file is more than what the last flush covered, and it need
not end with a line (`LogFile.Sound`).

The machine of this module puts a program and its log file together. A step of the program
that appends or flushes comes with the results of the stdio calls it makes, and in between
stdio may write to the file. What the program sees is the run of the program alone
(`LogFile.exec_program`). As long as no call failed, the stream has taken what the
`Log2File` was handed, and the last flush covered what the `Log2File` had flushed
(`LogFile.matches_of_exec`): results about the one are results about the other.

That stdio brings the bytes it has taken to the file in their order, without a gap, is
taken from its documentation, and only as long as no call has failed. What a failed call
leaves in the file is not modelled.
-/

/-- What a program does with its `Log2File`. -/
inductive FileOp where
  /-- `append(log_line, len)`. -/
  | append (logLine : List UInt8)
  /-- `flush()`. -/
  | flush
deriving DecidableEq, Repr

/-- The operation, as the callers see it. -/
def FileOp.apply : FileOp → Log2File → Log2File
  | .append logLine, f => f.append logLine
  | .flush, f => f.flush

/-- **The results of the stdio calls** that a step of the program makes. -/
inductive FileCalls where
  /-- It makes none. -/
  | nothing
  /-- The room in each `fwrite_unlocked` of an `append`, and whether its `fflush` went
  through, if there was one. -/
  | append (rooms : List ℕ) (flushed : Bool)
  /-- Whether the `fflush` of a `flush` went through. -/
  | flush (flushed : Bool)
deriving DecidableEq, Repr

/-- **No call failed**: none of the repeated `fwrite_unlocked` took nothing, and the
`fflush` went through. -/
def FileCalls.Work : FileCalls → Prop
  | .nothing => True
  | .append rooms flushed => 0 ∉ rooms.tail ∧ flushed = true
  | .flush flushed => flushed = true

instance : DecidablePred FileCalls.Work
  | .nothing => isTrue trivial
  | .append rooms flushed => inferInstanceAs (Decidable (0 ∉ rooms.tail ∧ flushed = true))
  | .flush flushed => inferInstanceAs (Decidable (flushed = true))

/-- **A `Log2File` with its stream and its file.** -/
structure LogFile where
  /-- The bytes the stream has taken. -/
  taken : List UInt8
  /-- Those that stdio has written to the file. -/
  file : List UInt8
  /-- Those that had been taken at the last `fflush` that went through. -/
  covered : List UInt8
  /-- `count_`. -/
  count : ℕ
deriving DecidableEq, Repr

namespace LogFile

/-- A file just opened. -/
def new : LogFile := ⟨[], [], [], 0⟩

/-- `fflush(fp_)`. -/
def fflush (f : LogFile) (flushed : Bool) : LogFile :=
  if flushed then { f with file := f.taken, covered := f.taken } else f

/-- stdio writes `n` more bytes of its buffer, if it has as many. -/
def spill (f : LogFile) (n : ℕ) : LogFile :=
  { f with file := f.taken.take (f.file.length + n) }

/-- `append_unlocked(log_line, len)`, if the loop of `WriteFile::append` makes as many
calls as there are results. -/
def append (f : LogFile) (logLine : List UInt8) (rooms : List ℕ) (flushed : Bool) :
    Option LogFile :=
  match WriteFile.append logLine rooms with
  | some (r, []) =>
    if Log2File.flushFreq ≤ f.count + 1 then
      some (fflush { f with taken := f.taken ++ r.accepted, count := 0 } flushed)
    else some { f with taken := f.taken ++ r.accepted, count := f.count + 1 }
  | _ => none

/-- An operation, or none, with the results of its calls. -/
def perform (f : LogFile) : Option FileOp → FileCalls → Option LogFile
  | none, .nothing => some f
  | some (.append logLine), .append rooms flushed => f.append logLine rooms flushed
  | some .flush, .flush flushed => some (f.fflush flushed)
  | _, _ => none

/-- **What is on the disk**: the file has the first bytes of those that were taken, and at
least those that the last flush covered. -/
structure Sound (f : LogFile) : Prop where
  covered : f.covered <+: f.file
  file : f.file <+: f.taken

/-- **The file is as its callers see it.** -/
structure Matches (f : LogFile) (g : Log2File) : Prop where
  taken : f.taken = g.handed
  covered : f.covered = g.flushed
  count : f.count = g.count

section Operations

variable {f f' : LogFile} {g : Log2File} {logLine : List UInt8} {rooms : List ℕ} {flushed : Bool}

theorem Sound.fflush (h : f.Sound) (flushed : Bool) : (f.fflush flushed).Sound := by
  unfold LogFile.fflush
  split
  · exact ⟨List.prefix_refl _, List.prefix_refl _⟩
  · exact h

/-- More bytes are taken. -/
theorem Sound.take (h : f.Sound) (bytes : List UInt8) (count : ℕ) :
    Sound { f with taken := f.taken ++ bytes, count := count } :=
  ⟨h.covered, h.file.trans (List.prefix_append _ _)⟩

theorem Sound.spill (h : f.Sound) (n : ℕ) : (f.spill n).Sound where
  covered := by
    refine h.covered.trans ?_
    have hfile : f.file = f.taken.take f.file.length := List.prefix_iff_eq_take.mp h.file
    show f.file <+: f.taken.take (f.file.length + n)
    rw [hfile, List.length_take]
    exact List.take_prefix_take_left (by have := h.file.length_le; omega)
  file := List.take_prefix _ _

/-- **An operation keeps the file sound.** -/
theorem Sound.perform (h : f.Sound) {o : Option FileOp} {calls : FileCalls}
    (hp : f.perform o calls = some f') : f'.Sound := by
  unfold LogFile.perform at hp
  split at hp
  · cases hp
    exact h
  · unfold LogFile.append at hp
    split at hp
    · split at hp
      · cases hp
        exact (h.take _ 0).fflush _
      · cases hp
        exact h.take _ _
    · cases hp
  · cases hp
    exact h.fflush _
  · cases hp

theorem Matches.fflush (h : f.Matches g) : (f.fflush true).Matches g.flush :=
  ⟨h.taken, h.taken, h.count⟩

/-- **An operation none of whose calls fails** does to the stream what the `Log2File` shows. -/
theorem Matches.perform (h : f.Matches g) {o : Option FileOp} {calls : FileCalls}
    (hw : calls.Work) (hp : f.perform o calls = some f') :
    f'.Matches (o.elim g fun op => op.apply g) := by
  unfold LogFile.perform at hp
  split at hp
  · cases hp
    exact h
  · next logLine rooms flushed =>
    obtain ⟨hrooms, rfl⟩ := hw
    unfold LogFile.append at hp
    split at hp
    · next r hr =>
      have htaken : f.taken ++ r.accepted = g.handed ++ logLine := by
        rw [h.taken, WriteFile.accepted_eq_of_tail hrooms hr]
      show f'.Matches (g.append logLine)
      unfold Log2File.append
      rw [← h.count]
      split at hp
      · next hfull =>
        cases hp
        rw [if_pos hfull]
        exact ⟨htaken, htaken, rfl⟩
      · next hfull =>
        cases hp
        rw [if_neg hfull]
        exact ⟨htaken, h.covered, rfl⟩
    · cases hp
  · obtain rfl : _ = true := hw
    cases hp
    exact h.fflush
  · cases hp

end Operations

end LogFile

/-! ## A program and its log file -/

/-- The events of a program with its log file. -/
inductive FileEvent (E : Type*) where
  /-- A step of the program, and the results of the stdio calls it makes. -/
  | program (e : E) (calls : FileCalls)
  /-- stdio writes to the file. -/
  | spill (n : ℕ)

/-- A step of the program that makes no call of stdio. -/
def FileEvent.quiet {E : Type*} (e : E) : FileEvent E := .program e .nothing

/-- The step of the program, if it is one. -/
def FileEvent.programStep {E : Type*} : FileEvent E → Option E
  | .program e _ => some e
  | .spill _ => none

/-- No call failed. -/
def FileEvent.Works {E : Type*} : FileEvent E → Prop
  | .program _ calls => calls.Work
  | .spill _ => True

instance {E : Type*} : DecidablePred (FileEvent.Works (E := E))
  | .program _ calls => inferInstanceAs (Decidable calls.Work)
  | .spill _ => isTrue trivial

/-- The steps of the program in a run. -/
def programSteps {E : Type*} (tr : List (FileEvent E)) : List E :=
  tr.filterMap FileEvent.programStep

namespace LogFile

variable {S E : Type*} {M : Machine S E} {op : S → E → Option FileOp}

/-- **A program with its log file**: `op` says what a step does with the file. -/
def onFile (M : Machine S E) (op : S → E → Option FileOp) :
    Machine (S × LogFile) (FileEvent E) where
  init := (M.init, .new)
  step p
    | .program e calls =>
      (M.step p.1 e).bind fun s' => (p.2.perform (op p.1 e) calls).map fun f => (s', f)
    | .spill n => some (p.1, p.2.spill n)

variable {p p' : S × LogFile} {tr : List (FileEvent E)}

/-- **What a step is**: one of the program with its file operation, or a write of stdio. -/
theorem onFile_step {e : FileEvent E} (h : (onFile M op).step p e = some p') :
    (∃ e₀ calls, e = .program e₀ calls ∧ M.step p.1 e₀ = some p'.1
        ∧ p.2.perform (op p.1 e₀) calls = some p'.2)
      ∨ ∃ n, e = .spill n ∧ p' = (p.1, p.2.spill n) := by
  cases e with
  | program e calls =>
    obtain ⟨t, ht, hmap⟩ := Option.bind_eq_some_iff.mp h
    obtain ⟨f, hf, rfl⟩ := Option.map_eq_some_iff.mp hmap
    exact Or.inl ⟨e, calls, rfl, ht, hf⟩
  | spill n => exact Or.inr ⟨n, rfl, (Option.some.inj h).symm⟩

/-- **The program runs as it does alone.** -/
theorem exec_program (h : (onFile M op).exec p tr = some p') :
    M.exec p.1 (programSteps tr) = some p'.1 := by
  refine Machine.exec_induction
    (motive := fun tr q => M.exec p.1 (programSteps tr) = some q.1) rfl ?_ h
  intro tr q e q' _ hs ih
  unfold programSteps
  rw [List.filterMap_append]
  rcases onFile_step hs with ⟨e₀, calls, rfl, hstep, -⟩ | ⟨n, rfl, rfl⟩
  · exact Machine.exec_concat.mpr ⟨q.1, ih, hstep⟩
  · show M.exec p.1 (tr.filterMap FileEvent.programStep ++ []) = some q.1
    rw [List.append_nil]
    exact ih

/-- **In every run the file is sound**; after a call that failed, this is a convention of
the model. -/
theorem sound_of_exec (h : (onFile M op).exec (onFile M op).init tr = some p) : p.2.Sound := by
  refine Machine.exec_invariant (I := fun p => p.2.Sound) (fun p e p' hsound hs => ?_) h
    ⟨List.prefix_refl _, List.prefix_refl _⟩
  rcases onFile_step hs with ⟨e₀, calls, -, -, hp⟩ | ⟨n, -, rfl⟩
  · exact hsound.perform hp
  · exact hsound.spill n

/-- **In a run in which no call fails the file is as the program sees it**, if what a step
does with the file is what it does with its `Log2File`. -/
theorem matches_of_exec (out : S → Log2File) (hinit : out M.init = .new)
    (hop : ∀ tr s e s', M.exec M.init tr = some s → M.step s e = some s' →
      out s' = (op s e).elim (out s) fun o => o.apply (out s))
    (h : (onFile M op).exec (onFile M op).init tr = some p) (hw : ∀ e ∈ tr, e.Works) :
    p.2.Matches (out p.1) := by
  refine Machine.exec_induction (motive := fun tr p => (∀ e ∈ tr, e.Works) →
    p.2.Matches (out p.1)) (fun _ => ?_) (fun tr p e p' ht hs ih hw => ?_) h hw
  · show Matches .new (out M.init)
    rw [hinit]
    exact ⟨rfl, rfl, rfl⟩
  · have hmatch := ih fun e he => hw e (List.mem_append_left _ he)
    have hwork := hw e (List.mem_append_right _ (List.mem_singleton_self e))
    rcases onFile_step hs with ⟨e₀, calls, rfl, hstep, hp⟩ | ⟨n, rfl, rfl⟩
    · rw [hop _ p.1 e₀ p'.1 (exec_program ht) hstep]
      exact hmatch.perform hwork hp
    · exact ⟨hmatch.taken, hmatch.covered, hmatch.count⟩

end LogFile
