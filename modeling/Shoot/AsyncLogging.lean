import Mathlib.Logic.Function.Basic
import Shoot.FixedBuffer
import Shoot.Machine

/-!
# The asynchronous logger

`AsyncLogging` is a double-buffered producer-consumer queue. Producers append
to `curr_buffer_` under `mutex_`, moving it to `buffers_` when a message does
not fit and taking `next_buffer_`, or a newly allocated buffer, in its place.
One consumer thread runs `thread_func`: it swaps the queued buffers out under
the mutex, hands their contents to a `Log2File` outside it, and recycles two
of them as the buffers it will lend the producers at its next swap.

The buffers are objects on a heap, and the five kinds of holders –
`curr_buffer_`, `next_buffer_`, `buffers_`, the consumer's `new_buffer1` and
`new_buffer2`, and its `buffers_to_write` – hold pointers. That no two of them
hold the same buffer is a theorem and not an assumption of the model.

A producer's critical section is one event, and so is the consumer's: it
takes the mutex, tests `buffers_`, and either swaps at once or blocks in the
timed wait, whose end – a signal, the timeout or a spurious wake-up – lets
the same critical section swap. Everything the consumer does outside the
mutex is one event per statement, so producers come in between any two of
them. The notifications have no effect of their own here, since a wait may
end at any time.
-/

/-- The bytes of one call of `AsyncLogging::append`. -/
abbrev Msg : Type := List UInt8

/-- The address of a `FixedBuffer<large_buffer>`. -/
abbrev BufId : Type := ℕ

/-- **Where the consumer thread stands** in `thread_func`. -/
inductive LogPc where
  /-- `start` has not created the thread yet. -/
  | notStarted
  /-- Before `latch_.count_down()` and the local variables. -/
  | entry
  /-- About to test `while (running)`. -/
  | loopTest
  /-- About to take `mutex_` and to test `buffers_.empty()`. -/
  | lock
  /-- Blocked in `cond_.wait_seconds(flush_freq)`. -/
  | waiting
  /-- Past the critical section, about to test `size() > 25`. -/
  | truncate
  /-- In the write loop, at this value of `i`. -/
  | write (i : ℕ)
  /-- About to test `size() > 2`. -/
  | shrink
  /-- About to test `!new_buffer1`. -/
  | refill1
  /-- About to test `!new_buffer2`. -/
  | refill2
  /-- About to clear `buffers_to_write` and to flush. -/
  | recycle
  /-- About to flush after the loop. -/
  | lastFlush
  /-- `thread_func` has returned. -/
  | done
deriving DecidableEq, Repr

/-- How `pthread_cond_timedwait` comes back. -/
inductive WaitEnd where
  /-- A `notify()`. -/
  | signal
  /-- The deadline. -/
  | timeout
  /-- Neither. -/
  | spurious
deriving DecidableEq, Repr

/-- The events of the logger. -/
inductive LogEvent where
  /-- `start()`, up to the point where it waits on `latch_`. -/
  | start
  /-- The critical section of one `append(msg, len)`, of any thread. -/
  | append (msg : Msg)
  /-- `stop()` sets `running` to false and notifies. -/
  | stop
  /-- The consumer's wait ends and the mutex is its own again. -/
  | wake (how : WaitEnd)
  /-- The consumer executes its next statement. -/
  | consumer
deriving DecidableEq, Repr

/-- **The state of an `AsyncLogging`**, with the local variables of its
consumer thread. -/
structure AsyncLogging where
  /-- `running`. -/
  running : Bool
  /-- The buffer objects, by address. -/
  heap : BufId → FixedBuffer largeBuffer
  /-- The address the next `new buffer` returns. -/
  fresh : BufId
  /-- `curr_buffer_`, `none` when null. -/
  currBuffer : Option BufId
  /-- `next_buffer_`. -/
  nextBuffer : Option BufId
  /-- `buffers_`. -/
  buffers : List BufId
  /-- `new_buffer1`. -/
  newBuffer1 : Option BufId
  /-- `new_buffer2`. -/
  newBuffer2 : Option BufId
  /-- `buffers_to_write`. -/
  buffersToWrite : List BufId
  /-- `output`. -/
  output : Log2File
  /-- Where the consumer stands. -/
  pc : LogPc
  /-- An undefined operation was executed: a null pointer was dereferenced,
  or `back()` was called on an empty vector. -/
  undefined : Bool

namespace AsyncLogging

/-- The constructor: two empty buffers, the thread not started. -/
def new : AsyncLogging where
  running := false
  heap := fun _ => .new
  fresh := 2
  currBuffer := some 0
  nextBuffer := some 1
  buffers := []
  newBuffer1 := none
  newBuffer2 := none
  buffersToWrite := []
  output := .new
  pc := .notStarted
  undefined := false

/-- The bytes held by the buffer at an address. -/
def contents (s : AsyncLogging) (b : BufId) : List UInt8 := (s.heap b).data

/-- The bytes held by the buffers of a vector, in order. -/
def contentsOf (s : AsyncLogging) (bs : List BufId) : List UInt8 :=
  bs.flatMap s.contents

/-- An undefined operation. -/
def crash (s : AsyncLogging) : AsyncLogging := { s with undefined := true }

/-! ## The producers -/

/-- `curr_buffer_->append(msg, len)`. -/
def appendCurr (s : AsyncLogging) (msg : Msg) : AsyncLogging :=
  match s.currBuffer with
  | none => s.crash
  | some b => { s with heap := Function.update s.heap b ((s.heap b).append msg) }

/-- `buffers_` takes the current buffer, and `next_buffer_` or a new buffer
becomes the current one. -/
def rotate (s : AsyncLogging) (b : BufId) : AsyncLogging :=
  match s.nextBuffer with
  | some n => { s with buffers := s.buffers ++ [b], currBuffer := some n, nextBuffer := none }
  | none =>
    { s with
      buffers := s.buffers ++ [b]
      currBuffer := some s.fresh
      heap := Function.update s.heap s.fresh .new
      fresh := s.fresh + 1 }

/-- `append(msg, len)`, from the lock to the unlock. -/
def append (s : AsyncLogging) (msg : Msg) : AsyncLogging :=
  match s.currBuffer with
  | none => s.crash
  | some b =>
    if (s.heap b).avail > (msg.length : ℤ) then s.appendCurr msg
    else (s.rotate b).appendCurr msg

/-! ## The consumer -/

/-- The rest of the critical section of `thread_func`, once past the wait:
the current buffer joins `buffers_`, `new_buffer1` takes its place, the two
vectors are swapped, and `new_buffer2` becomes `next_buffer_` if the
producers have used that. -/
def swapBuffers (s : AsyncLogging) : AsyncLogging :=
  match s.currBuffer with
  | none => s.crash
  | some b =>
    { s with
      currBuffer := s.newBuffer1
      newBuffer1 := none
      buffersToWrite := s.buffers ++ [b]
      buffers := s.buffersToWrite
      nextBuffer := if s.nextBuffer.isNone then s.newBuffer2 else s.nextBuffer
      newBuffer2 := if s.nextBuffer.isNone then none else s.newBuffer2
      pc := .truncate }

/-- `if (!new_buffer1)`: take `buffers_to_write.back()`, `pop_back()`, and
`reset()` it. -/
def refill1 (s : AsyncLogging) : AsyncLogging :=
  match s.newBuffer1, s.buffersToWrite.getLast? with
  | some _, _ => { s with pc := .refill2 }
  | none, none => s.crash
  | none, some b =>
    { s with
      newBuffer1 := some b
      buffersToWrite := s.buffersToWrite.dropLast
      heap := Function.update s.heap b (s.heap b).reset
      pc := .refill2 }

/-- `if (!new_buffer2)`: the same for `new_buffer2`. -/
def refill2 (s : AsyncLogging) : AsyncLogging :=
  match s.newBuffer2, s.buffersToWrite.getLast? with
  | some _, _ => { s with pc := .recycle }
  | none, none => s.crash
  | none, some b =>
    { s with
      newBuffer2 := some b
      buffersToWrite := s.buffersToWrite.dropLast
      heap := Function.update s.heap b (s.heap b).reset
      pc := .recycle }

/-- A vector of more than `n` buffers, cut down to its first two. -/
def keepTwo (n : ℕ) (l : List BufId) : List BufId := if n < l.length then l.take 2 else l

/-- The test `buffers_to_write.size() > 25`, and the erasure of all but the
first two buffers. -/
def truncate (s : AsyncLogging) : AsyncLogging :=
  { s with buffersToWrite := keepTwo 25 s.buffersToWrite, pc := .write 0 }

/-- One turn of the write loop, or its end. -/
def write (s : AsyncLogging) (i : ℕ) : AsyncLogging :=
  match s.buffersToWrite[i]? with
  | some b => { s with output := s.output.append (s.contents b), pc := .write (i + 1) }
  | none => { s with pc := .shrink }

/-- The test `buffers_to_write.size() > 2`, and the resize. -/
def shrink (s : AsyncLogging) : AsyncLogging :=
  { s with buffersToWrite := keepTwo 2 s.buffersToWrite, pc := .refill1 }

/-- The local variables of `thread_func`: two new buffers, an empty vector
and the file. -/
def enter (s : AsyncLogging) : AsyncLogging :=
  { s with
    newBuffer1 := some s.fresh
    newBuffer2 := some (s.fresh + 1)
    heap := Function.update (Function.update s.heap s.fresh .new) (s.fresh + 1) .new
    fresh := s.fresh + 2
    buffersToWrite := []
    output := .new
    pc := .loopTest }

/-- The next statement of `thread_func`, `none` where the consumer cannot
move by itself. -/
def consumer (s : AsyncLogging) : Option AsyncLogging :=
  match s.pc with
  | .notStarted => none
  | .entry => some s.enter
  | .loopTest => some { s with pc := if s.running then .lock else .lastFlush }
  | .lock => some (if s.buffers.isEmpty then { s with pc := .waiting } else s.swapBuffers)
  | .waiting => none
  | .truncate => some s.truncate
  | .write i => some (s.write i)
  | .shrink => some s.shrink
  | .refill1 => some s.refill1
  | .refill2 => some s.refill2
  | .recycle => some { s with buffersToWrite := [], output := s.output.flush, pc := .loopTest }
  | .lastFlush => some { s with output := s.output.flush, pc := .done }
  | .done => none

/-- One event of the logger. Nothing follows an undefined operation. -/
def step (s : AsyncLogging) (e : LogEvent) : Option AsyncLogging :=
  if s.undefined then none
  else
    match e with
    | .start => if s.pc = .notStarted then some { s with running := true, pc := .entry } else none
    | .append msg => some (s.append msg)
    | .stop => some { s with running := false }
    | .wake _ => if s.pc = .waiting then some s.swapBuffers else none
    | .consumer => s.consumer

/-- **The logger**, as a machine. -/
def machine : Machine AsyncLogging LogEvent := ⟨new, step⟩

/-! ## What the operations do, case by case -/

section Equations

variable {s : AsyncLogging} {b : BufId}

/-- The current buffer is written to, where there is one. -/
theorem appendCurr_eq (hb : s.currBuffer = some b) (msg : Msg) :
    s.appendCurr msg = { s with heap := Function.update s.heap b ((s.heap b).append msg) } := by
  rw [appendCurr, hb]

/-- A message that fits goes to the current buffer. -/
theorem append_of_lt (hb : s.currBuffer = some b) {msg : Msg}
    (h : (msg.length : ℤ) < (s.heap b).avail) : s.append msg = s.appendCurr msg := by
  rw [append, hb]
  exact if_pos h

/-- A message that does not fit goes to the buffer that replaces the current
one. -/
theorem append_of_not_lt (hb : s.currBuffer = some b) {msg : Msg}
    (h : ¬ (msg.length : ℤ) < (s.heap b).avail) :
    s.append msg = (s.rotate b).appendCurr msg := by
  rw [append, hb]
  exact if_neg h

/-- The swap, with the spare buffer still in place. -/
theorem swapBuffers_of_next (hb : s.currBuffer = some b) {n : BufId}
    (hn : s.nextBuffer = some n) :
    s.swapBuffers = { s with
      currBuffer := s.newBuffer1, newBuffer1 := none, buffersToWrite := s.buffers ++ [b],
      buffers := s.buffersToWrite, pc := .truncate } := by
  rw [swapBuffers, hb, hn]
  rfl

/-- The swap, after the producers took the spare buffer. -/
theorem swapBuffers_of_no_next (hb : s.currBuffer = some b) (hn : s.nextBuffer = none) :
    s.swapBuffers = { s with
      currBuffer := s.newBuffer1, newBuffer1 := none, buffersToWrite := s.buffers ++ [b],
      buffers := s.buffersToWrite, nextBuffer := s.newBuffer2, newBuffer2 := none,
      pc := .truncate } := by
  rw [swapBuffers, hb, hn]
  rfl

/-- The first refill, which takes the last buffer of the batch. -/
theorem refill1_of_none (h : s.newBuffer1 = none) {l : List BufId}
    (hw : s.buffersToWrite = l ++ [b]) :
    s.refill1 = { s with
      newBuffer1 := some b, buffersToWrite := l,
      heap := Function.update s.heap b (s.heap b).reset, pc := .refill2 } := by
  simp [refill1, h, hw]

/-- The second refill, where `new_buffer2` was given away. -/
theorem refill2_of_none (h : s.newBuffer2 = none) {l : List BufId}
    (hw : s.buffersToWrite = l ++ [b]) :
    s.refill2 = { s with
      newBuffer2 := some b, buffersToWrite := l,
      heap := Function.update s.heap b (s.heap b).reset, pc := .recycle } := by
  simp [refill2, h, hw]

/-- The second refill, where `new_buffer2` was not needed. -/
theorem refill2_of_some (h : s.newBuffer2 = some b) :
    s.refill2 = { s with pc := .recycle } := by
  rw [refill2, h]

end Equations

/-- **What an event can do**, one constructor per transition. -/
inductive Moves (s : AsyncLogging) : LogEvent → AsyncLogging → Prop where
  | start (hpc : s.pc = .notStarted) : Moves s .start { s with running := true, pc := .entry }
  | append (msg : Msg) : Moves s (.append msg) (s.append msg)
  | stop : Moves s .stop { s with running := false }
  | wake (how : WaitEnd) (hpc : s.pc = .waiting) : Moves s (.wake how) s.swapBuffers
  | enter (hpc : s.pc = .entry) : Moves s .consumer s.enter
  | loopTest (hpc : s.pc = .loopTest) :
      Moves s .consumer { s with pc := if s.running then .lock else .lastFlush }
  | block (hpc : s.pc = .lock) (hq : s.buffers = []) : Moves s .consumer { s with pc := .waiting }
  | swap (hpc : s.pc = .lock) (hq : s.buffers ≠ []) : Moves s .consumer s.swapBuffers
  | truncate (hpc : s.pc = .truncate) : Moves s .consumer s.truncate
  | write (i : ℕ) (hpc : s.pc = .write i) : Moves s .consumer (s.write i)
  | shrink (hpc : s.pc = .shrink) : Moves s .consumer s.shrink
  | refill1 (hpc : s.pc = .refill1) : Moves s .consumer s.refill1
  | refill2 (hpc : s.pc = .refill2) : Moves s .consumer s.refill2
  | recycle (hpc : s.pc = .recycle) :
      Moves s .consumer { s with
        buffersToWrite := [], output := s.output.flush, pc := .loopTest }
  | lastFlush (hpc : s.pc = .lastFlush) :
      Moves s .consumer { s with output := s.output.flush, pc := .done }

/-- A step of the consumer is one of its transitions. -/
theorem Moves.of_consumer {s s' : AsyncLogging} (h : s.consumer = some s') :
    s.Moves .consumer s' := by
  unfold consumer at h
  split at h <;> cases h
  case h_2 hpc => exact .enter hpc
  case h_3 hpc => exact .loopTest hpc
  case h_4 hpc =>
    split
    · exact .block hpc (List.isEmpty_iff.mp ‹_›)
    · exact .swap hpc fun hq => ‹¬ _› (List.isEmpty_iff.mpr hq)
  case h_6 hpc => exact .truncate hpc
  case h_7 i hpc => exact .write i hpc
  case h_8 hpc => exact .shrink hpc
  case h_9 hpc => exact .refill1 hpc
  case h_10 hpc => exact .refill2 hpc
  case h_11 hpc => exact .recycle hpc
  case h_12 hpc => exact .lastFlush hpc

/-- **A step is one of the transitions.** -/
theorem Moves.of_step {s s' : AsyncLogging} {e : LogEvent} (h : s.step e = some s') :
    s.Moves e s' := by
  unfold step at h
  split at h
  · cases h
  cases e with
  | start =>
    obtain ⟨hpc, h⟩ := Option.ite_none_right_eq_some.mp h
    cases h
    exact .start hpc
  | append msg => cases h; exact .append msg
  | stop => cases h; exact .stop
  | wake how =>
    obtain ⟨hpc, h⟩ := Option.ite_none_right_eq_some.mp h
    cases h
    exact .wake how hpc
  | consumer => exact .of_consumer h

/-! ## What is observed of a run -/

/-- The messages appended in a run, in the order of the critical sections. -/
def appended : List LogEvent → List Msg
  | [] => []
  | .append msg :: tr => msg :: appended tr
  | _ :: tr => appended tr

/-- The buffers of `buffers_to_write` that are not handed over yet. -/
def unhanded (s : AsyncLogging) : List BufId :=
  match s.pc with
  | .truncate => s.buffersToWrite
  | .write i => s.buffersToWrite.drop i
  | _ => []

/-- **The log in flight**: the bytes handed to `output.append`, those of the
buffers to write not handed over yet, those of `buffers_` and those of
`curr_buffer_`. -/
def stream (s : AsyncLogging) : List UInt8 :=
  s.output.handed ++ s.contentsOf s.unhanded ++ s.contentsOf s.buffers
    ++ s.contentsOf s.currBuffer.toList

/-- Every holder of a buffer, in one list. -/
def holders (s : AsyncLogging) : List BufId :=
  s.currBuffer.toList ++ s.nextBuffer.toList ++ s.newBuffer1.toList ++ s.newBuffer2.toList
    ++ s.buffers ++ s.buffersToWrite

/-- The next step of the consumer erases buffers from the batch. -/
def Overflows (s : AsyncLogging) : Prop :=
  s.pc = .truncate ∧ 25 < s.buffersToWrite.length

instance : DecidablePred Overflows := fun _ => inferInstanceAs (Decidable (_ ∧ _))

end AsyncLogging
