import Mathlib.Algebra.Group.Nat.Defs
import Mathlib.Data.Finset.Erase
import Mathlib.Data.Finset.Insert
import Shoot.Channel
import Shoot.Machine

/-!
# The event loop

An `EventLoop` belongs to the thread that constructs it and runs its `loop`:
it waits in `Epoll::poll`, lets the channels that became active handle their
events, and runs the functions other threads have left in
`pending_functions_`. A thread that leaves one there wakes the loop with a
write to an eventfd, on which the loop has a channel of its own, the wake-up
channel.

The functions are of an arbitrary type `F`, and so are the names `ι` of the
other channels. What an event handler or a pending function does is left to
the events: while the loop's thread is inside one of them it may call
`queue_in_loop` and `run_in_loop` any number of times. The registrations of
the other channels are on other descriptors than the wake-up channel's, so
they are left out, and the kernel may report any of them at any time.

`queue_in_loop` has two halves, the push under `mutex_` and the write to the
eventfd, and threads come in between the two. The loop's thread executes one
statement at a time.
-/

/-- What `gettid` returns. -/
abbrev ThreadId : Type := ℕ

/-- The callback the wake-up channel has, `EventLoop::wake_up_response`. -/
inductive WakeUpCallback where
  | wakeUpResponse
deriving DecidableEq, Repr

/-- A channel in `active_vector`. -/
inductive ActiveChannel (ι : Type*) where
  /-- The loop's `wake_up_channel_`. -/
  | wakeUp
  /-- Another channel. -/
  | other (i : ι)
deriving DecidableEq, Repr

/-- **Where the loop's thread stands.** -/
inductive LoopPc (ι F : Type*) where
  /-- `loop` has not been called yet. -/
  | entry
  /-- About to test `while (!quit_)`. -/
  | test
  /-- In `Epoll::poll`, which has filled this much of `active_vector`. -/
  | poll (active : List (ActiveChannel ι))
  /-- About to take the next channel of `active_vector`. -/
  | next (active : List (ActiveChannel ι))
  /-- In `handle_events` of the wake-up channel. -/
  | wakeUp (stage : Channel.HandlePc) (active : List (ActiveChannel ι))
  /-- In `wake_up_response`, about to read the eventfd. -/
  | read (stage : Channel.HandlePc) (active : List (ActiveChannel ι))
  /-- In `wake_up_response`, about to enable the channel. -/
  | rearm (stage : Channel.HandlePc) (active : List (ActiveChannel ι))
  /-- In `handle_events` of another channel. -/
  | handler (i : ι) (active : List (ActiveChannel ι))
  /-- About to set `handle_pending_functions`. -/
  | setFlag
  /-- About to take `mutex_` and to swap. -/
  | swap
  /-- About to test `i < functors.size()`. -/
  | functors (fs : List F) (i : ℕ)
  /-- In `functors[i]()`. -/
  | callback (fs : List F) (i : ℕ)
  /-- About to reset `handle_pending_functions`. -/
  | clearFlag
  /-- `loop` has returned. -/
  | returned
deriving DecidableEq, Repr

/-- A call of a callback. -/
structure Execution (F : Type*) where
  /-- The callback. -/
  callback : F
  /-- The thread it ran on. -/
  thread : ThreadId
  /-- Whether it came from `pending_functions_`. -/
  queued : Bool
deriving DecidableEq, Repr

/-- The events of a loop. -/
inductive LoopEvent (ι F : Type*) where
  /-- The loop's thread calls `loop`. -/
  | loop
  /-- A thread calls `queue_in_loop`: the critical section and the test after
  it. -/
  | queueInLoop (t : ThreadId) (cb : F)
  /-- A thread calls `run_in_loop`, up to the same point if it queues. -/
  | runInLoop (t : ThreadId) (cb : F)
  /-- A thread executes `wake_up_cur_thread`. -/
  | wakeUp (t : ThreadId)
  /-- `epoll_wait` reports the wake-up channel. -/
  | deliverWakeUp
  /-- `epoll_wait` reports another channel. -/
  | deliver (i : ι)
  /-- The loop's thread executes its next statement. -/
  | step
deriving DecidableEq, Repr

/-- **The state of an `EventLoop`.** -/
structure EventLoop (ι F : Type*) where
  /-- `poll_`, with the wake-up channel's registration. -/
  epoll : Epoll Unit
  /-- `pending_functions_`. -/
  pendingFunctions : List F
  /-- `cur_thread_id_`. -/
  curThreadId : ThreadId
  /-- `handle_pending_functions`. -/
  handlePendingFunctions : Bool
  /-- The counter of the eventfd `wake_up_fd_`. -/
  counter : ℕ
  /-- `*wake_up_channel_`. -/
  wakeUpChannel : Channel WakeUpCallback
  /-- `quit_`. -/
  quit : Bool
  /-- The threads that have pushed a callback and are about to write to the
  eventfd. -/
  writing : Finset ThreadId
  /-- The callbacks executed so far; nothing reads them. -/
  executed : List (Execution F)
  /-- Where the loop's thread stands. -/
  pc : LoopPc ι F

namespace EventLoop

variable {ι F : Type*}

/-- The constructor, on the thread `t` and with the eventfd `fd`: the wake-up
channel gets its read callback and is enabled. -/
def new (t : ThreadId) (fd : Fd) : EventLoop ι F :=
  let r := Channel.enableRead .new () { Channel.new fd with
    readHandler := some WakeUpCallback.wakeUpResponse }
  { epoll := r.1
    pendingFunctions := []
    curThreadId := t
    handlePendingFunctions := false
    counter := 0
    wakeUpChannel := r.2
    quit := true
    writing := ∅
    executed := []
    pc := .entry }

/-! ## The operations -/

/-- `is_in_cur_loop()`, on the thread `t`. -/
def isInCurLoop (s : EventLoop ι F) (t : ThreadId) : Bool := s.curThreadId == t

/-- `queue_in_loop(cb)` on the thread `t`, up to the call of
`wake_up_cur_thread`. -/
def queueInLoop (s : EventLoop ι F) (t : ThreadId) (cb : F) : EventLoop ι F :=
  { s with
    pendingFunctions := s.pendingFunctions ++ [cb]
    writing := if !s.isInCurLoop t || s.handlePendingFunctions then insert t s.writing
      else s.writing }

/-- `run_in_loop(cb)` on the thread `t`, up to the same call if it queues. -/
def runInLoop (s : EventLoop ι F) (t : ThreadId) (cb : F) : EventLoop ι F :=
  if s.isInCurLoop t then { s with executed := s.executed ++ [⟨cb, t, false⟩] }
  else s.queueInLoop t cb

/-- The largest value of an eventfd counter. -/
def maxCounter : ℕ := 2 ^ 64 - 2

/-- `wake_up_cur_thread()` on the thread `t`: add one to the counter, unless
that would overflow it. -/
def wakeUpCurThread (s : EventLoop ι F) (t : ThreadId) : EventLoop ι F :=
  { s with
    counter := if s.counter < maxCounter then s.counter + 1 else s.counter
    writing := s.writing.erase t }

/-- The call of `enable_read` in `wake_up_response`. -/
def rearmWakeUp (s : EventLoop ι F) : EventLoop ι F :=
  { s with
    epoll := (s.wakeUpChannel.enableRead s.epoll ()).1
    wakeUpChannel := (s.wakeUpChannel.enableRead s.epoll ()).2 }

/-- A test of the wake-up channel's `handle_events`, and the call of the
callback it selects. -/
def handleWakeUp (s : EventLoop ι F) (stage : Channel.HandlePc) (active : List (ActiveChannel ι)) :
    LoopPc ι F :=
  match s.wakeUpChannel.handleEvents stage with
  | (some .wakeUpResponse, stage') => .read stage' active
  | (none, stage') => .wakeUp stage' active

/-- The next statement of `loop` and of what it calls. The poll returns when
it has reported something, or is interrupted. -/
def advance (s : EventLoop ι F) : Option (EventLoop ι F) :=
  match s.pc with
  | .entry => none
  | .test => some { s with pc := if s.quit then .returned else .poll [] }
  | .poll active => some { s with pc := .next active }
  | .next [] => some { s with pc := .setFlag }
  | .next (.wakeUp :: active) => some { s with pc := .wakeUp .hup active }
  | .next (.other i :: active) => some { s with pc := .handler i active }
  | .wakeUp .ret active => some { s with pc := .next active }
  | .wakeUp stage active => some { s with pc := s.handleWakeUp stage active }
  | .read stage active => some { s with counter := 0, pc := .rearm stage active }
  | .rearm stage active => some { s.rearmWakeUp with pc := .wakeUp stage active }
  | .handler _ active => some { s with pc := .next active }
  | .setFlag => some { s with handlePendingFunctions := true, pc := .swap }
  | .swap => some { s with pendingFunctions := [], pc := .functors s.pendingFunctions 0 }
  | .functors fs i =>
    match fs[i]? with
    | some cb =>
      some { s with
        executed := s.executed ++ [⟨cb, s.curThreadId, true⟩], pc := .callback fs i }
    | none => some { s with pc := .clearFlag }
  | .callback fs i => some { s with pc := .functors fs (i + 1) }
  | .clearFlag => some { s with handlePendingFunctions := false, pc := .test }
  | .returned => none

/-- The loop's thread is in code that may call `queue_in_loop` and
`run_in_loop`: before the loop, in an event handler, or in a pending
function. -/
def calling : LoopPc ι F → Bool
  | .entry | .handler .. | .callback .. => true
  | _ => false

/-- The thread `t` may call the loop's functions. -/
def MayCall (s : EventLoop ι F) (t : ThreadId) : Prop :=
  t ∉ s.writing ∧ (s.isInCurLoop t = true → calling s.pc = true)

instance (s : EventLoop ι F) (t : ThreadId) : Decidable (s.MayCall t) :=
  inferInstanceAs (Decidable (_ ∧ _))

/-- One event of a loop. The eventfd is readable while its counter is
positive, and that is all the kernel reports of it; `epoll_wait` reports
nothing once the poll has returned. -/
def step (s : EventLoop ι F) : LoopEvent ι F → Option (EventLoop ι F)
  | .loop =>
    match s.pc with
    | .entry =>
      if s.curThreadId ∈ s.writing then none else some { s with quit := false, pc := .test }
    | _ => none
  | .queueInLoop t cb => if s.MayCall t then some (s.queueInLoop t cb) else none
  | .runInLoop t cb => if s.MayCall t then some (s.runInLoop t cb) else none
  | .wakeUp t => if t ∈ s.writing then some (s.wakeUpCurThread t) else none
  | .deliverWakeUp =>
    match s.pc with
    | .poll active =>
      if 0 < s.counter then
        (s.epoll.interest.deliver s.wakeUpChannel.fd epollIn).map fun r =>
          { s with
            epoll := { s.epoll with interest := r.1 }
            wakeUpChannel := { s.wakeUpChannel with revent := epollIn }
            pc := .poll (active ++ [.wakeUp]) }
      else none
    | _ => none
  | .deliver i =>
    match s.pc with
    | .poll active => some { s with pc := .poll (active ++ [.other i]) }
    | _ => none
  | .step => if s.curThreadId ∈ s.writing then none else s.advance

/-- **A loop**, as a machine. -/
def machine (ι F : Type*) (t : ThreadId) (fd : Fd) :
    Machine (EventLoop ι F) (LoopEvent ι F) := ⟨new t fd, step⟩

/-! ## What a step can do -/

/-- **What a statement of the loop's thread can do.** -/
inductive Advances (s : EventLoop ι F) : EventLoop ι F → Prop where
  | test (hpc : s.pc = .test) :
      Advances s { s with pc := if s.quit then .returned else .poll [] }
  | poll {active} (hpc : s.pc = .poll active) : Advances s { s with pc := .next active }
  | nextNil (hpc : s.pc = .next []) : Advances s { s with pc := .setFlag }
  | nextWakeUp {active} (hpc : s.pc = .next (.wakeUp :: active)) :
      Advances s { s with pc := .wakeUp .hup active }
  | nextOther {i active} (hpc : s.pc = .next (.other i :: active)) :
      Advances s { s with pc := .handler i active }
  | wakeUpRet {active} (hpc : s.pc = .wakeUp .ret active) : Advances s { s with pc := .next active }
  | wakeUp {stage active} (hpc : s.pc = .wakeUp stage active) (hs : stage ≠ .ret) :
      Advances s { s with pc := s.handleWakeUp stage active }
  | read {stage active} (hpc : s.pc = .read stage active) :
      Advances s { s with counter := 0, pc := .rearm stage active }
  | rearm {stage active} (hpc : s.pc = .rearm stage active) :
      Advances s { s.rearmWakeUp with pc := .wakeUp stage active }
  | handler {i active} (hpc : s.pc = .handler i active) : Advances s { s with pc := .next active }
  | setFlag (hpc : s.pc = .setFlag) :
      Advances s { s with handlePendingFunctions := true, pc := .swap }
  | swap (hpc : s.pc = .swap) :
      Advances s { s with pendingFunctions := [], pc := .functors s.pendingFunctions 0 }
  | execute {fs i cb} (hpc : s.pc = .functors fs i) (hcb : fs[i]? = some cb) :
      Advances s { s with
        executed := s.executed ++ [⟨cb, s.curThreadId, true⟩], pc := .callback fs i }
  | functorsEnd {fs i} (hpc : s.pc = .functors fs i) (hcb : fs[i]? = none) :
      Advances s { s with pc := .clearFlag }
  | callback {fs i} (hpc : s.pc = .callback fs i) : Advances s { s with pc := .functors fs (i + 1) }
  | clearFlag (hpc : s.pc = .clearFlag) :
      Advances s { s with handlePendingFunctions := false, pc := .test }

/-- **What an event can do**, one constructor per transition. -/
inductive Moves (s : EventLoop ι F) : LoopEvent ι F → EventLoop ι F → Prop where
  | loop (hpc : s.pc = .entry) (ht : s.curThreadId ∉ s.writing) :
      Moves s .loop { s with quit := false, pc := .test }
  | queueInLoop {t} (cb : F) (ht : s.MayCall t) : Moves s (.queueInLoop t cb) (s.queueInLoop t cb)
  | runInLoop {t} (cb : F) (ht : s.MayCall t) : Moves s (.runInLoop t cb) (s.runInLoop t cb)
  | wakeUp {t} (ht : t ∈ s.writing) : Moves s (.wakeUp t) (s.wakeUpCurThread t)
  | deliverWakeUp {active} {r : EpollSet Unit × Unit} (hpc : s.pc = .poll active)
      (hc : 0 < s.counter)
      (hr : s.epoll.interest.deliver s.wakeUpChannel.fd epollIn = some r) :
      Moves s .deliverWakeUp { s with
        epoll := { s.epoll with interest := r.1 }
        wakeUpChannel := { s.wakeUpChannel with revent := epollIn }
        pc := .poll (active ++ [.wakeUp]) }
  | deliver {active} (i : ι) (hpc : s.pc = .poll active) :
      Moves s (.deliver i) { s with pc := .poll (active ++ [.other i]) }
  | advance {s' : EventLoop ι F} (ht : s.curThreadId ∉ s.writing) (h : s.Advances s') :
      Moves s .step s'

theorem Advances.of_advance {s s' : EventLoop ι F} (h : s.advance = some s') : s.Advances s' := by
  unfold advance at h
  split at h
  case h_14 fs i hpc =>
    split at h <;> cases h
    · exact .execute hpc ‹_›
    · exact .functorsEnd hpc ‹_›
  all_goals cases h
  case h_2 hpc => exact .test hpc
  case h_3 hpc => exact .poll hpc
  case h_4 hpc => exact .nextNil hpc
  case h_5 hpc => exact .nextWakeUp hpc
  case h_6 hpc => exact .nextOther hpc
  case h_7 hpc => exact .wakeUpRet hpc
  case h_8 hs hpc => exact .wakeUp hpc hs
  case h_9 hpc => exact .read hpc
  case h_10 hpc => exact .rearm hpc
  case h_11 hpc => exact .handler hpc
  case h_12 hpc => exact .setFlag hpc
  case h_13 hpc => exact .swap hpc
  case h_15 hpc => exact .callback hpc
  case h_16 hpc => exact .clearFlag hpc

/-- **A step is one of the transitions.** -/
theorem Moves.of_step {s s' : EventLoop ι F} {e : LoopEvent ι F} (h : s.step e = some s') :
    s.Moves e s' := by
  unfold step at h
  cases e with
  | loop =>
    dsimp only at h
    split at h
    · obtain ⟨ht, h⟩ := Option.ite_none_left_eq_some.mp h
      cases h
      exact .loop ‹_› ht
    · cases h
  | queueInLoop t cb =>
    obtain ⟨ht, h⟩ := Option.ite_none_right_eq_some.mp h
    cases h
    exact .queueInLoop cb ht
  | runInLoop t cb =>
    obtain ⟨ht, h⟩ := Option.ite_none_right_eq_some.mp h
    cases h
    exact .runInLoop cb ht
  | wakeUp t =>
    obtain ⟨ht, h⟩ := Option.ite_none_right_eq_some.mp h
    cases h
    exact .wakeUp ht
  | deliverWakeUp =>
    dsimp only at h
    split at h
    · obtain ⟨hc, h⟩ := Option.ite_none_right_eq_some.mp h
      obtain ⟨r, hr, h⟩ := Option.map_eq_some_iff.mp h
      cases h
      exact .deliverWakeUp ‹_› hc hr
    · cases h
  | deliver i =>
    dsimp only at h
    split at h
    · cases h
      exact .deliver i ‹_›
    · cases h
  | step =>
    obtain ⟨ht, h⟩ := Option.ite_none_left_eq_some.mp h
    exact .advance ht (.of_advance h)

end EventLoop
