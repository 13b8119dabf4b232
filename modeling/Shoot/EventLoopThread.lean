import Shoot.ThreadStart

/-!
# Starting the thread of an event loop

`EventLoopThread::start_loop` starts a thread and returns the address of the
`EventLoop` that thread has built on its own stack. Two handshakes separate the
call from the address. `Thread::start` waits on a latch of one that the new
thread counts down first of all; and `start_loop` then waits, under `mutex_` and
with `cond_`, for the new thread to store the address in `loop_`, which it does
when the loop is built and the callback has run on it.

Both are instances of `Handshake`, the first with the code of the latch
(`latchCode`), the second with that of `start_loop` and `thread_func`
(`publishCode`). `EventLoopThread.Sound` puts them together, and
`EventLoopThread.rank` counts what is left to do until `start_loop` returns.

The loop does not end: `EventLoop::quit` is empty, and `loop` sets `quit_` to
false and nothing ever sets it to true. The thread is therefore never joined, and
the destructor, which joins it, does not return.
-/

/-- `loop_`: what `start_loop` and `thread_func` run, of which `own` is the
address of the thread's own loop. -/
def publishCode {α : Type*} (own : α) : Handshake.Code (Option α) where
  ready loop := loop.isSome
  set _ := some own
  notifies _ := true

/-- `loop_` is null until the thread stores the address of its loop. -/
theorem publishCode_works {α : Type*} (own : α) : (publishCode own).Works none :=
  ⟨rfl, rfl, rfl⟩

/-- Where the thread is that calls `start_loop`, and later the destructor. -/
inductive StarterPc where
  /-- In `Thread::start`, at `pthread_create`. -/
  | create
  /-- In `latch_.wait()`. -/
  | latch
  /-- Behind `thread_.start()`, in the block that waits for `loop_`. -/
  | loop
  /-- In the destructor, at `thread_.join()`. -/
  | join
  | destroyed
deriving DecidableEq, Repr

/-- Where the thread is that `pthread_create` creates. -/
inductive ThreadPc where
  | unborn
  /-- In `start_thread`, at `data->latch_->count_down()`. -/
  | countDown
  /-- In `thread_func`, at `EventLoop loop;`. -/
  | construct
  /-- At `if (callback_) callback_(&loop);`. -/
  | callback
  /-- In the block that stores `loop_`. -/
  | publish
  /-- At `loop.loop()`, which sets `quit_` to false. -/
  | enter
  /-- In `loop.loop()`, at `while(!quit_)`. -/
  | turn
  /-- Behind `loop.loop()`, before `loop_ = nullptr`. -/
  | ending
  | ended
deriving DecidableEq, Repr

/-- **An `EventLoopThread` and its two threads.** -/
structure EventLoopThread (α : Type*) where
  /-- `thread_.started_`. -/
  started : Bool
  /-- `thread_.latch_`. -/
  latch : Handshake ℤ
  /-- `loop_`, `mutex_` and `cond_`. -/
  publish : Handshake (Option α)
  starter : StarterPc
  thread : ThreadPc
  /-- `quit_` of the thread's loop. -/
  quit : Bool
deriving Repr

/-- What the two threads do. -/
inductive EventLoopThreadEvent where
  /-- `pthread_create` returns zero, or an error. -/
  | create (ok : Bool)
  /-- A step at the latch. -/
  | latch (e : Handshake.Event)
  /-- A step at `loop_`. -/
  | publish (e : Handshake.Event)
  /-- `start_loop` goes on to its next block. -/
  | starter
  /-- The thread goes on, up to its loop. -/
  | thread
  /-- The thread tests `quit_`, and makes one round of its loop. -/
  | turn
  /-- The destructor is called. -/
  | destroy
  /-- `pthread_join` returns. -/
  | join
deriving DecidableEq, Repr

namespace EventLoopThread

open Handshake

variable {α : Type*}

/-- The constructor. -/
def fresh : EventLoopThread α :=
  { started := false
    latch := .start 1
    publish := .start none
    starter := .create
    thread := .unborn
    quit := true }

/-- **`pthread_create`**: the new thread is at its first statement, and its creator
at `latch_.wait()`. If there is no new thread, `Thread::start` returns all the
same, and `start_loop` waits for `loop_`. -/
def create (s : EventLoopThread α) (ok : Bool) : EventLoopThread α :=
  if ok then
    { s with
      started := true
      latch := s.latch.enterWaiter.enterSetter
      starter := .latch
      thread := .countDown }
  else
    { s with starter := .loop, publish := s.publish.enterWaiter }

/-- `thread_.start()` returns, when `latch_.wait()` has. -/
def starterStep (s : EventLoopThread α) : Option (EventLoopThread α) :=
  match s.starter, s.latch.waiter with
  | .latch, .returned _ =>
    some { s with starter := .loop, publish := s.publish.enterWaiter }
  | _, _ => none

/-- The next step of the thread, up to its loop. -/
def threadStep (s : EventLoopThread α) : Option (EventLoopThread α) :=
  match s.thread with
  | .countDown =>
    if s.latch.setter = .returned then some { s with thread := .construct } else none
  | .construct => some { s with thread := .callback, quit := true }
  | .callback =>
    some { s with thread := .publish, publish := s.publish.enterSetter }
  | .publish =>
    if s.publish.setter = .returned then some { s with thread := .enter } else none
  | .enter => some { s with thread := .turn, quit := false }
  | .unborn | .turn | .ending | .ended => none

/-- One round of the loop, and what comes behind it. -/
def turnStep (s : EventLoopThread α) : Option (EventLoopThread α) :=
  match s.thread with
  | .turn => some { s with thread := if s.quit then .ending else .turn }
  | .ending =>
    if s.publish.held then none
    else some { s with thread := .ended, publish := { s.publish with value := none } }
  | _ => none

/-- `EventLoop::quit`, which is empty. -/
def quitLoop (s : EventLoopThread α) : EventLoopThread α := s

/-- **The destructor**, up to its join. -/
def destroyStep (s : EventLoopThread α) : Option (EventLoopThread α) :=
  match s.starter, s.publish.waiter with
  | .create, _ | .loop, .returned _ =>
    if s.publish.value.isSome then some { s.quitLoop with starter := .join }
    else some { s with starter := .destroyed }
  | _, _ => none

/-- **One step of the two threads.** -/
def step (own : α) (s : EventLoopThread α) :
    EventLoopThreadEvent → Option (EventLoopThread α)
  | .create ok => if s.starter = .create then some (s.create ok) else none
  | .latch e => (s.latch.step latchCode e).map fun l => { s with latch := l }
  | .publish e => (s.publish.step (publishCode own) e).map fun l => { s with publish := l }
  | .starter => s.starterStep
  | .thread => s.threadStep
  | .turn => s.turnStep
  | .destroy => s.destroyStep
  | .join =>
    if s.starter = .join ∧ s.thread = .ended then some { s with starter := .destroyed }
    else none

/-- A new `EventLoopThread`, and everything that happens to it. -/
def machine (own : α) : Machine (EventLoopThread α) EventLoopThreadEvent :=
  ⟨fresh, step own⟩

/-- **What a step can do**, one case for each statement. -/
inductive Moves (own : α) (s : EventLoopThread α) :
    EventLoopThreadEvent → EventLoopThread α → Prop where
  | create (ok : Bool) : s.starter = .create → Moves own s (.create ok) (s.create ok)
  | latch {e : Event} {l : Handshake ℤ} : s.latch.step latchCode e = some l →
      Moves own s (.latch e) { s with latch := l }
  | publish {e : Event} {l : Handshake (Option α)} :
      s.publish.step (publishCode own) e = some l →
      Moves own s (.publish e) { s with publish := l }
  | starter {v : ℤ} : s.starter = .latch → s.latch.waiter = .returned v →
      Moves own s .starter { s with starter := .loop, publish := s.publish.enterWaiter }
  | countDown : s.thread = .countDown → s.latch.setter = .returned →
      Moves own s .thread { s with thread := .construct }
  | construct : s.thread = .construct →
      Moves own s .thread { s with thread := .callback, quit := true }
  | callback : s.thread = .callback →
      Moves own s .thread { s with thread := .publish, publish := s.publish.enterSetter }
  | published : s.thread = .publish → s.publish.setter = .returned →
      Moves own s .thread { s with thread := .enter }
  | enter : s.thread = .enter → Moves own s .thread { s with thread := .turn, quit := false }
  | turn : s.thread = .turn →
      Moves own s .turn { s with thread := if s.quit then .ending else .turn }
  | ending : s.thread = .ending → ¬ s.publish.held →
      Moves own s .turn
        { s with thread := .ended, publish := { s.publish with value := none } }
  | destroy {pc : StarterPc} :
      s.starter = .create ∨ s.starter = .loop ∧ (∃ l, s.publish.waiter = .returned l) →
      pc = (if s.publish.value.isSome then .join else .destroyed) →
      Moves own s .destroy { s with starter := pc }
  | join : s.starter = .join → s.thread = .ended →
      Moves own s .join { s with starter := .destroyed }

/-- Every step is one of them. -/
theorem Moves.of_step {own : α} {s s' : EventLoopThread α} {e : EventLoopThreadEvent}
    (hs : s.step own e = some s') : Moves own s e s' := by
  cases e with
  | create ok =>
    obtain ⟨hpc, hs⟩ := Option.ite_none_right_eq_some.mp hs
    cases hs
    exact .create ok hpc
  | latch e =>
    obtain ⟨l, hl, rfl⟩ := Option.map_eq_some_iff.mp hs
    exact .latch hl
  | publish e =>
    obtain ⟨l, hl, rfl⟩ := Option.map_eq_some_iff.mp hs
    exact .publish hl
  | starter =>
    unfold EventLoopThread.step starterStep at hs
    dsimp only at hs
    split at hs
    · next v hpc hv =>
      cases hs
      exact .starter hpc hv
    · cases hs
  | thread =>
    unfold EventLoopThread.step threadStep at hs
    dsimp only at hs
    cases hpc : s.thread with
    | countDown =>
      rw [hpc] at hs
      obtain ⟨hset, hs⟩ := Option.ite_none_right_eq_some.mp hs
      cases hs
      exact .countDown hpc hset
    | construct =>
      rw [hpc] at hs
      cases hs
      exact .construct hpc
    | callback =>
      rw [hpc] at hs
      cases hs
      exact .callback hpc
    | publish =>
      rw [hpc] at hs
      obtain ⟨hset, hs⟩ := Option.ite_none_right_eq_some.mp hs
      cases hs
      exact .published hpc hset
    | enter =>
      rw [hpc] at hs
      cases hs
      exact .enter hpc
    | unborn | turn | ending | ended =>
      rw [hpc] at hs
      cases hs
  | turn =>
    unfold EventLoopThread.step turnStep at hs
    dsimp only at hs
    cases hpc : s.thread with
    | turn =>
      rw [hpc] at hs
      cases hs
      exact .turn hpc
    | ending =>
      rw [hpc] at hs
      obtain ⟨hfree, hs⟩ := Option.ite_none_left_eq_some.mp hs
      cases hs
      exact .ending hpc hfree
    | _ =>
      rw [hpc] at hs
      cases hs
  | destroy =>
    unfold EventLoopThread.step destroyStep quitLoop at hs
    dsimp only at hs
    split at hs
    · next hpc =>
      split at hs
      all_goals
        cases hs
        exact .destroy (Or.inl hpc) (by simp [*])
    · next l hpc hl =>
      split at hs
      all_goals
        cases hs
        exact .destroy (Or.inr ⟨hpc, l, hl⟩) (by simp [*])
    · cases hs
  | join =>
    obtain ⟨⟨hpc, hended⟩, hs⟩ := Option.ite_none_right_eq_some.mp hs
    cases hs
    exact .join hpc hended

/-! ## The two handshakes together -/

/-- What the place of the starter says of the handshakes. -/
def StarterPlace (s : EventLoopThread α) : StarterPc → Prop
  | .create => s.latch.waiter = .outside ∧ s.publish.waiter = .outside ∧ s.thread = .unborn
  | .latch =>
    s.latch.waiter ≠ .outside ∧ s.publish.waiter = .outside ∧ s.thread ≠ .unborn
  | .loop =>
    s.publish.waiter ≠ .outside
      ∧ (s.thread ≠ .unborn → ∃ v, s.latch.waiter = .returned v)
  | .join => ∃ v, s.publish.waiter = .returned v
  | .destroyed => s.publish.waiter = .outside ∧ s.thread = .unborn

/-- What the place of the thread says of the handshakes. -/
def ThreadPlace (s : EventLoopThread α) : ThreadPc → Prop
  | .unborn => s.latch.setter = .outside ∧ s.publish.setter = .outside
  | .countDown => s.latch.setter ≠ .outside ∧ s.publish.setter = .outside
  | .construct | .callback => s.latch.setter = .returned ∧ s.publish.setter = .outside
  | .publish => s.latch.setter = .returned ∧ s.publish.setter ≠ .outside
  | .enter => s.latch.setter = .returned ∧ s.publish.setter = .returned
  | .turn =>
    s.latch.setter = .returned ∧ s.publish.setter = .returned ∧ s.quit = false
  | .ending | .ended => False

/-- **The start of a thread is sound**: each handshake is, both threads are in
them where their own places say, and the thread's loop does not end. -/
structure Sound (own : α) (s : EventLoopThread α) : Prop where
  latch : s.latch.Sound latchCode 1
  publish : s.publish.Sound (publishCode own) none
  starter : StarterPlace s s.starter
  thread : ThreadPlace s s.thread
  started_eq : s.started = true ↔ s.thread ≠ .unborn

variable {own : α} {s s' : EventLoopThread α}

/-- The constructor's state is sound. -/
theorem sound_fresh : Sound own (fresh : EventLoopThread α) where
  latch := sound_start
  publish := sound_start
  starter := ⟨rfl, rfl, rfl⟩
  thread := ⟨rfl, rfl⟩
  started_eq := by simp [fresh]

/-- A step at the latch leaves both threads where they are. -/
theorem Sound.latchStep (h : s.Sound own) {e : Handshake.Event} {l : Handshake ℤ}
    (hs : s.latch.step latchCode e = some l) : Sound own { s with latch := l } := by
  obtain ⟨hlatch, hpublish, hstarter, hthread, hstarted⟩ := h
  have hkeeps := keeps_step hs
  refine ⟨hlatch.step latchCode_works hs, hpublish, ?_, ?_, hstarted⟩
  · show StarterPlace _ s.starter
    cases hpc : s.starter with
    | create =>
      rw [hpc] at hstarter
      exact ⟨hkeeps.waiter_outside.mpr hstarter.1, hstarter.2⟩
    | latch =>
      rw [hpc] at hstarter
      exact ⟨fun ho => hstarter.1 (hkeeps.waiter_outside.mp ho), hstarter.2⟩
    | loop =>
      rw [hpc] at hstarter
      refine ⟨hstarter.1, fun hborn => ?_⟩
      obtain ⟨v, hv⟩ := hstarter.2 hborn
      exact ⟨v, hkeeps.waiter_returned v hv⟩
    | join | destroyed =>
      rw [hpc] at hstarter
      exact hstarter
  · show ThreadPlace _ s.thread
    cases hpc : s.thread with
    | unborn =>
      rw [hpc] at hthread
      exact ⟨hkeeps.setter_outside.mpr hthread.1, hthread.2⟩
    | countDown =>
      rw [hpc] at hthread
      exact ⟨fun ho => hthread.1 (hkeeps.setter_outside.mp ho), hthread.2⟩
    | construct | callback | publish | enter | turn =>
      rw [hpc] at hthread
      exact ⟨hkeeps.setter_returned hthread.1, hthread.2⟩
    | ending | ended =>
      rw [hpc] at hthread
      exact hthread

/-- A step at `loop_` leaves both threads where they are. -/
theorem Sound.publishStep (h : s.Sound own) {e : Handshake.Event}
    {l : Handshake (Option α)} (hs : s.publish.step (publishCode own) e = some l) :
    Sound own { s with publish := l } := by
  obtain ⟨hlatch, hpublish, hstarter, hthread, hstarted⟩ := h
  have hkeeps := keeps_step hs
  refine ⟨hlatch, hpublish.step (publishCode_works own) hs, ?_, ?_, hstarted⟩
  · show StarterPlace _ s.starter
    cases hpc : s.starter with
    | create | latch =>
      rw [hpc] at hstarter
      exact ⟨hstarter.1, hkeeps.waiter_outside.mpr hstarter.2.1, hstarter.2.2⟩
    | loop =>
      rw [hpc] at hstarter
      exact ⟨fun ho => hstarter.1 (hkeeps.waiter_outside.mp ho), hstarter.2⟩
    | join =>
      rw [hpc] at hstarter
      obtain ⟨v, hv⟩ := hstarter
      exact ⟨v, hkeeps.waiter_returned v hv⟩
    | destroyed =>
      rw [hpc] at hstarter
      exact ⟨hkeeps.waiter_outside.mpr hstarter.1, hstarter.2⟩
  · show ThreadPlace _ s.thread
    cases hpc : s.thread with
    | unborn | countDown | construct | callback =>
      rw [hpc] at hthread
      exact ⟨hthread.1, hkeeps.setter_outside.mpr hthread.2⟩
    | publish =>
      rw [hpc] at hthread
      exact ⟨hthread.1, fun ho => hthread.2 (hkeeps.setter_outside.mp ho)⟩
    | enter =>
      rw [hpc] at hthread
      exact ⟨hthread.1, hkeeps.setter_returned hthread.2⟩
    | turn =>
      rw [hpc] at hthread
      exact ⟨hthread.1, hkeeps.setter_returned hthread.2.1, hthread.2.2⟩
    | ending | ended =>
      rw [hpc] at hthread
      exact hthread

/-- `pthread_create`, with and without a new thread. -/
theorem Sound.create (h : s.Sound own) (hpc : s.starter = .create) (ok : Bool) :
    Sound own (s.create ok) := by
  obtain ⟨hlatch, hpublish, hstarter, hthread, hstarted⟩ := h
  rw [hpc] at hstarter
  obtain ⟨hlw, hpw, hunborn⟩ := hstarter
  rw [hunborn] at hthread
  obtain ⟨hls, hps⟩ := hthread
  cases ok with
  | true =>
    refine ⟨(hlatch.enterWaiter hlw).enterSetter hls, hpublish, ⟨?_, hpw, ?_⟩, ⟨?_, hps⟩, ?_⟩ <;>
      simp [EventLoopThread.create]
  | false =>
    refine ⟨hlatch, hpublish.enterWaiter hpw, ?_, ?_, hstarted⟩
    · exact ⟨by simp [EventLoopThread.create], fun hborn => absurd hunborn hborn⟩
    · show ThreadPlace _ s.thread
      rw [hunborn]
      exact ⟨hls, hps⟩

/-- `thread_.start()` returns. -/
theorem Sound.starter_loop (h : s.Sound own) (hpc : s.starter = .latch) {v : ℤ}
    (hv : s.latch.waiter = .returned v) :
    Sound own { s with starter := .loop, publish := s.publish.enterWaiter } := by
  obtain ⟨hlatch, hpublish, hstarter, hthread, hstarted⟩ := h
  rw [hpc] at hstarter
  obtain ⟨-, hpw, -⟩ := hstarter
  refine ⟨hlatch, hpublish.enterWaiter hpw, ⟨by simp, fun _ => ⟨v, hv⟩⟩, ?_, hstarted⟩
  show ThreadPlace _ s.thread
  cases hth : s.thread with
  | _ =>
    rw [hth] at hthread
    exact hthread

/-- What the place of the starter says does not depend on where the thread is, once
it is born. -/
theorem StarterPlace.move {pc : StarterPc} (h : StarterPlace s pc) (hborn : s.thread ≠ .unborn)
    {t : ThreadPc} (ht : t ≠ .unborn) {q : Bool} :
    StarterPlace { s with thread := t, quit := q } pc := by
  cases pc with
  | create => exact absurd h.2.2 hborn
  | latch => exact ⟨h.1, h.2.1, ht⟩
  | loop => exact ⟨h.1, fun _ => h.2 hborn⟩
  | join => exact h
  | destroyed => exact absurd h.2 hborn

/-- A step of the thread that changes neither handshake. -/
theorem Sound.move (h : s.Sound own) (hborn : s.thread ≠ .unborn) {t : ThreadPc}
    (ht : t ≠ .unborn) {q : Bool} (hplace : ThreadPlace { s with thread := t, quit := q } t) :
    Sound own { s with thread := t, quit := q } where
  latch := h.latch
  publish := h.publish
  starter := h.starter.move hborn ht
  thread := hplace
  started_eq := by simpa [ht, hborn] using h.started_eq

/-- The thread calls the callback and goes on to publish its loop. -/
theorem Sound.callback (h : s.Sound own) (hpc : s.thread = .callback) :
    Sound own { s with thread := .publish, publish := s.publish.enterSetter } := by
  have hthread := h.thread
  rw [hpc] at hthread
  refine ⟨h.latch, h.publish.enterSetter hthread.2, ?_, ⟨hthread.1, by simp⟩, ?_⟩
  · show StarterPlace _ s.starter
    have hplace := h.starter.move (by simp [hpc]) (t := .publish) (by simp) (q := s.quit)
    cases hst : s.starter with
    | _ =>
      rw [hst] at hplace
      exact hplace
  · simpa [hpc] using h.started_eq

/-- The thread's loop goes on. -/
theorem Sound.quit_eq (h : s.Sound own) (hpc : s.thread = .turn) : s.quit = false := by
  have hthread := h.thread
  rw [hpc] at hthread
  exact hthread.2.2

/-- The thread does not come out of its loop. -/
theorem Sound.not_ended (h : s.Sound own) : s.thread ≠ .ending ∧ s.thread ≠ .ended := by
  have hthread := h.thread
  constructor
  · intro hpc
    rw [hpc] at hthread
    exact hthread
  · intro hpc
    rw [hpc] at hthread
    exact hthread

/-- The destructor joins a thread that has published its loop. -/
theorem Sound.destroy (h : s.Sound own)
    (hpc : s.starter = .create ∨ s.starter = .loop ∧ ∃ l, s.publish.waiter = .returned l) :
    Sound own { s with starter := if s.publish.value.isSome then .join else .destroyed } := by
  obtain ⟨hlatch, hpublish, hstarter, hthread, hstarted⟩ := h
  refine ⟨hlatch, hpublish, ?_, ?_, hstarted⟩
  · rcases hpc with hpc | ⟨-, l, hl⟩
    · rw [hpc] at hstarter
      obtain ⟨-, hpw, hunborn⟩ := hstarter
      have hnull : s.publish.value = none := by
        have hvalue := hpublish.value_eq
        rw [hunborn] at hthread
        rwa [hthread.2] at hvalue
      rw [hnull]
      exact ⟨hpw, hunborn⟩
    · rw [(hpublish.returned hl).2.1]
      exact ⟨l, hl⟩
  · show ThreadPlace _ s.thread
    cases hth : s.thread with
    | _ =>
      rw [hth] at hthread
      exact hthread

/-- **Every step of the two threads is sound.** -/
theorem Sound.step (h : s.Sound own) {e : EventLoopThreadEvent}
    (hs : s.step own e = some s') : s'.Sound own := by
  have hthread := h.thread
  cases Moves.of_step hs with
  | create ok hpc => exact h.create hpc ok
  | latch hl => exact h.latchStep hl
  | publish hl => exact h.publishStep hl
  | starter hpc hv => exact h.starter_loop hpc hv
  | countDown hpc hset =>
    rw [hpc] at hthread
    exact h.move (by simp [hpc]) (by simp) ⟨hset, hthread.2⟩
  | construct hpc =>
    rw [hpc] at hthread
    exact h.move (by simp [hpc]) (by simp) hthread
  | callback hpc => exact h.callback hpc
  | published hpc hset =>
    rw [hpc] at hthread
    exact h.move (by simp [hpc]) (by simp) ⟨hthread.1, hset⟩
  | enter hpc =>
    rw [hpc] at hthread
    exact h.move (by simp [hpc]) (by simp) ⟨hthread.1, hthread.2, rfl⟩
  | turn hpc =>
    rw [if_neg (Bool.eq_false_iff.mp (h.quit_eq hpc)), ← hpc]
    exact h
  | ending hpc => exact absurd hpc h.not_ended.1
  | destroy hpc hpc' => exact hpc' ▸ h.destroy hpc
  | join _ hended => exact absurd hended h.not_ended.2

/-- Every reachable state is sound. -/
theorem sound_of_reachable (h : (machine own).Reachable s) : s.Sound own :=
  h.invariant sound_fresh fun _ _ _ hi hs => hi.step hs

/-- **When `start_loop` has returned** it has returned the address of the new
thread's loop, which `loop_` still holds; the thread is on its way into that loop
or in it; and neither thread has anything to do with the latch or the mutex any
more. -/
theorem Sound.returned (h : s.Sound own) {l : Option α} (hl : s.publish.waiter = .returned l) :
    l = some own ∧ s.publish.value = some own ∧ s.publish.held = false
      ∧ s.latch.setter = .returned
      ∧ (s.thread = .publish ∨ s.thread = .enter ∨ s.thread = .turn) := by
  obtain ⟨hval, hvalue, hset, hheld⟩ := h.publish.returned hl
  have hthread := h.thread
  refine ⟨hval, hvalue, hheld, ?_⟩
  cases hpc : s.thread with
  | publish | enter | turn =>
    rw [hpc] at hthread
    exact ⟨hthread.1, by simp⟩
  | unborn | countDown | construct | callback =>
    rw [hpc] at hthread
    cases hset.symm.trans hthread.2
  | ending | ended =>
    rw [hpc] at hthread
    cases hthread

/-! ## What is left to do -/

/-- What the starter has still to do between the handshakes. -/
def starterRank : StarterPc → ℕ
  | .create => 2
  | .latch => 1
  | .loop | .join | .destroyed => 0

/-- What the thread has still to do between the handshakes. -/
def threadRank : ThreadPc → ℕ
  | .unborn => 6
  | .countDown => 5
  | .construct => 4
  | .callback => 3
  | .publish => 2
  | .enter => 1
  | .turn | .ending | .ended => 0

/-- **What is left to do** until `start_loop` has returned and the thread is in its
loop. -/
def rank (s : EventLoopThread α) : ℕ :=
  starterRank s.starter + s.latch.rank + s.publish.rank + threadRank s.thread

/-- The steps that bring `start_loop` forward, in one thread or the other. -/
def program : EventLoopThreadEvent → Bool
  | .create _ | .starter | .thread => true
  | .latch e | .publish e => e != .wakeUp
  | .turn | .destroy | .join => false

/-- A step of a handshake of which the rest of the state does not know. -/
theorem rank_step_lt {V : Type*} {c : Handshake.Code V} {v₀ : V} {l l' : Handshake V}
    (hc : c.Works v₀) (h : l.Sound c v₀) {e : Handshake.Event} (he : (e != .wakeUp) = true)
    (hs : l.step c e = some l') : l'.rank < l.rank :=
  Handshake.rank_lt hc h (by simpa using he) hs

/-- `pthread_create` leaves less to do. -/
theorem rank_create (h : s.Sound own) (hpc : s.starter = .create) (ok : Bool) :
    (s.create ok).rank < s.rank := by
  have hstarter := h.starter
  have hthread := h.thread
  rw [hpc] at hstarter
  obtain ⟨hlw, hpw, hunborn⟩ := hstarter
  rw [hunborn] at hthread
  obtain ⟨hls, hps⟩ := hthread
  cases ok with
  | true =>
    have hwaiter := rank_enterWaiter hlw
    have hsetter := rank_enterSetter (s := s.latch.enterWaiter) hls
    show starterRank .latch + s.latch.enterWaiter.enterSetter.rank + s.publish.rank
      + threadRank .countDown < _
    simp only [EventLoopThread.rank, hpc, hunborn, starterRank, threadRank]
    omega
  | false =>
    have hwaiter := rank_enterWaiter hpw
    show starterRank .loop + s.latch.rank + s.publish.enterWaiter.rank + threadRank s.thread < _
    simp only [EventLoopThread.rank, hpc, starterRank]
    omega

/-- **Each step of the program leaves less to do.** -/
theorem rank_lt (h : s.Sound own) {e : EventLoopThreadEvent} (he : program e = true)
    (hs : s.step own e = some s') : s'.rank < s.rank := by
  have hstarter := h.starter
  have hthread := h.thread
  cases Moves.of_step hs with
  | create ok hpc => exact rank_create h hpc ok
  | latch hl =>
    have hlt := rank_step_lt latchCode_works h.latch he hl
    simp only [rank]
    omega
  | publish hl =>
    have hlt := rank_step_lt (publishCode_works own) h.publish he hl
    simp only [rank]
    omega
  | starter hpc hv =>
    rw [hpc] at hstarter
    have hwaiter := rank_enterWaiter hstarter.2.1
    simp only [EventLoopThread.rank, hpc, starterRank]
    omega
  | callback hpc =>
    rw [hpc] at hthread
    have hsetter := rank_enterSetter hthread.2
    simp only [EventLoopThread.rank, hpc, threadRank]
    omega
  | countDown hpc | construct hpc | published hpc | enter hpc =>
    simp only [EventLoopThread.rank, hpc, threadRank]
    omega
  | turn | ending | destroy | join => cases he

/-- What may raise the measure: a thread wakes up without a notification. -/
def spurious : EventLoopThreadEvent → Bool
  | .latch e | .publish e => e == .wakeUp
  | .create _ | .starter | .thread | .turn | .destroy | .join => false

/-- **An unprompted wake-up costs three steps**, and what the loop and the destructor
do costs none. -/
theorem rank_le (h : s.Sound own) {e : EventLoopThreadEvent} (he : program e = false)
    (hs : s.step own e = some s') : s'.rank ≤ s.rank + if spurious e then 3 else 0 := by
  cases Moves.of_step hs with
  | create | starter | countDown | construct | callback | published | enter => cases he
  | @latch e l hl =>
    obtain rfl : e = .wakeUp := by simpa [program] using he
    have hle := rank_wakeUp_le hl
    show starterRank s.starter + l.rank + s.publish.rank + threadRank s.thread ≤ s.rank + 3
    simp only [rank]
    omega
  | @publish e l hl =>
    obtain rfl : e = .wakeUp := by simpa [program] using he
    have hle := rank_wakeUp_le hl
    show starterRank s.starter + s.latch.rank + l.rank + threadRank s.thread ≤ s.rank + 3
    simp only [rank]
    omega
  | turn hpc =>
    rw [if_neg (Bool.eq_false_iff.mp (h.quit_eq hpc)), ← hpc]
    exact Nat.le_refl _
  | ending hpc => exact absurd hpc h.not_ended.1
  | destroy _ hpc =>
    have hzero : starterRank (if s.publish.value.isSome then .join else .destroyed) = 0 := by
      split <;> rfl
    show starterRank _ + s.latch.rank + s.publish.rank + threadRank s.thread ≤ s.rank
    rw [hpc, hzero]
    simp only [rank]
    omega
  | join _ hended => exact absurd hended h.not_ended.2

/-- The thread, once born, can go on until it has published its loop, unless it is
the starter's turn. -/
theorem exists_thread (h : s.Sound own) (hborn : s.thread ≠ .unborn)
    (hlatch : s.latch.setter = .returned) (hset : s.publish.setter = .outside) :
    ∃ s', s.step own .thread = some s' := by
  have hthread := h.thread
  show ∃ s', s.threadStep = some s'
  unfold threadStep
  cases hpc : s.thread with
  | unborn => exact absurd hpc hborn
  | countDown => exact ⟨_, if_pos hlatch⟩
  | construct | callback => exact ⟨_, rfl⟩
  | publish =>
    rw [hpc] at hthread
    exact absurd hset hthread.2
  | enter =>
    rw [hpc] at hthread
    cases hset.symm.trans hthread.2
  | turn =>
    rw [hpc] at hthread
    cases hset.symm.trans hthread.2.1
  | ending | ended =>
    rw [hpc] at hthread
    cases hthread

/-- **`start_loop` is never stuck**, once `pthread_create` has made the thread. As
long as it has not returned, one of the two threads can take a step of the
program. -/
theorem exists_program (h : s.Sound own)
    (hplace : s.starter = .create ∨ s.starter = .latch ∨ s.starter = .loop)
    (hborn : s.starter = .loop → s.started = true)
    (hback : ∀ l, s.publish.waiter ≠ .returned l) :
    ∃ e s', e ≠ .create false ∧ program e = true ∧ s.step own e = some s' := by
  have hstarter := h.starter
  have hthread := h.thread
  rcases hplace with hpc | hpc | hpc
  · exact ⟨.create true, s.create true, by simp, rfl, if_pos hpc⟩
  · rw [hpc] at hstarter
    obtain ⟨hlw, -, hborn⟩ := hstarter
    by_cases hreturned : ∃ v, s.latch.waiter = .returned v
    · obtain ⟨v, hv⟩ := hreturned
      refine ⟨.starter, { s with starter := .loop, publish := s.publish.enterWaiter },
        by simp, rfl, ?_⟩
      show s.starterStep = _
      rw [starterStep, hpc, hv]
    · have hls : s.latch.setter ≠ .outside := by
        intro ho
        cases hth : s.thread with
        | unborn => exact hborn hth
        | _ =>
          rw [hth] at hthread
          first | exact hthread.1 ho | cases ho.symm.trans hthread.1 | cases hthread
      obtain ⟨e, l, he, hl⟩ := Handshake.enabled h.latch hlw hls
        fun v hv => hreturned ⟨v, hv⟩
      exact ⟨.latch e, { s with latch := l }, by simp, by simpa [program] using he,
        Option.map_eq_some_iff.mpr ⟨l, hl, rfl⟩⟩
  · rw [hpc] at hstarter
    have hborn' := h.started_eq.mp (hborn hpc)
    obtain ⟨v, hv⟩ := hstarter.2 hborn'
    by_cases hset : s.publish.setter = .outside
    · obtain ⟨s', hs⟩ := exists_thread h hborn' (h.latch.returned hv).2.2.1 hset
      exact ⟨.thread, s', by simp, rfl, hs⟩
    · obtain ⟨e, l, he, hl⟩ := Handshake.enabled h.publish hstarter.1 hset hback
      exact ⟨.publish e, { s with publish := l }, by simp, by simpa [program] using he,
        Option.map_eq_some_iff.mpr ⟨l, hl, rfl⟩⟩

/-! ## The latch is a `CountDownLatch` -/

/-- The latch of a state is in the place of a state the two threads get the latch
of one into. -/
def LatchRuns (s : EventLoopThread α) : Prop :=
  ∃ l, CountDownLatch.startMachine.Reachable l ∧ l.Simulates s.latch

/-- A run of the latch leads from where it can be to where it can be. -/
theorem LatchRuns.extend {l : Handshake ℤ} {c : CountDownLatch LatchUser}
    (hc : CountDownLatch.startMachine.Reachable c)
    (h : ∃ tr c', CountDownLatch.startMachine.exec c tr = some c' ∧ c'.Simulates l) :
    ∃ c, CountDownLatch.startMachine.Reachable c ∧ c.Simulates l := by
  obtain ⟨tr, hc⟩ := hc
  obtain ⟨tr', c', hc', hsim⟩ := h
  refine ⟨c', ⟨tr ++ tr', ?_⟩, hsim⟩
  rw [Machine.exec_append, hc, Option.bind_some, hc']

/-- The steps between the handshakes touch neither the latch nor `started_`. -/
theorem frame_step {e : EventLoopThreadEvent} (hcreate : ∀ ok, e ≠ .create ok)
    (hlatch : ∀ e', e ≠ .latch e') (hs : s.step own e = some s') :
    s'.latch = s.latch ∧ s'.started = s.started := by
  cases Moves.of_step hs with
  | create ok => exact absurd rfl (hcreate ok)
  | latch => exact absurd rfl (hlatch _)
  | _ => exact ⟨rfl, rfl⟩

/-- A step of the two threads is a run of the latch. -/
theorem LatchRuns.step (hsound : s.Sound own) (h : s.LatchRuns) {e : EventLoopThreadEvent}
    (hs : s.step own e = some s') : s'.LatchRuns := by
  obtain ⟨c, hc, hsim⟩ := h
  cases e with
  | create ok =>
    obtain ⟨hpc, hs⟩ := Option.ite_none_right_eq_some.mp hs
    cases hs
    cases ok with
    | false => exact ⟨c, hc, hsim⟩
    | true =>
      have hstarter := hsound.starter
      have hthread := hsound.thread
      rw [hpc] at hstarter
      rw [hstarter.2.2] at hthread
      obtain ⟨c₁, hc₁, hsim₁⟩ := LatchRuns.extend hc (hsim.enterWaiter hstarter.1)
      exact LatchRuns.extend hc₁ (hsim₁.enterSetter hthread.1)
  | latch e =>
    obtain ⟨l, hl, rfl⟩ := Option.map_eq_some_iff.mp hs
    exact LatchRuns.extend hc (hsim.step hsound.latch hl)
  | _ =>
    have hsame := (frame_step (by simp) (by simp) hs).1
    exact ⟨c, hc, hsame ▸ hsim⟩

/-- **The latch in a run of the two threads is one of the runs of the latch.** -/
theorem latchRuns_of_reachable (h : (machine own).Reachable s) : s.LatchRuns := by
  refine (h.invariant (I := fun s => s.Sound own ∧ s.LatchRuns) ?_ ?_).2
  · exact ⟨sound_fresh, _, ⟨[], rfl⟩, CountDownLatch.simulates_start⟩
  · exact fun s e s' hi hs => ⟨hi.1.step hs, hi.2.step hi.1 hs⟩

/-- A thread is started and goes into its loop. -/
def startRun : List EventLoopThreadEvent :=
  [.create true] ++ List.replicate 5 (.latch .setter) ++ List.replicate 4 (.latch .waiter)
    ++ [.starter, .thread, .thread, .thread] ++ List.replicate 5 (.publish .setter)
    ++ List.replicate 4 (.publish .waiter) ++ [.thread, .thread]

/-- The starter has not got to the latch when the thread counts it down. -/
theorem latchRuns_of_reachable_started :
    ∃ s, (machine 0).exec (machine 0).init (startRun.take 6) = some s
      ∧ s.latch.setter = .returned ∧ s.LatchRuns := by
  have hrun : ((machine 0).exec (machine 0).init (startRun.take 6)).map
      (fun s => s.latch.setter) = some .returned := by
    decide +kernel
  obtain ⟨s, hs, hsetter⟩ := Option.map_eq_some_iff.mp hrun
  exact ⟨s, hs, hsetter, latchRuns_of_reachable ⟨_, hs⟩⟩

/-! ## The loop does not end -/

/-- `started_` is set when `pthread_create` has made a thread, and stays set. -/
theorem started_of_step {e : EventLoopThreadEvent} (h : s.Sound own)
    (hs : s.step own e = some s') (hstarted : s.started = true ∨ e = .create true) :
    s'.started = true := by
  cases e with
  | create ok =>
    obtain ⟨hpc, hs⟩ := Option.ite_none_right_eq_some.mp hs
    cases hs
    have hstarter := h.starter
    rw [hpc] at hstarter
    have hnot : ¬ s.started = true := fun hst => h.started_eq.mp hst hstarter.2.2
    obtain rfl : ok = true := by simpa using hstarted.resolve_left hnot
    rfl
  | latch e =>
    obtain ⟨l, -, rfl⟩ := Option.map_eq_some_iff.mp hs
    exact hstarted.resolve_right (by simp)
  | _ =>
    rw [(frame_step (by simp) (by simp) hs).2]
    exact hstarted.resolve_right (by simp)

/-- `started_` records whether `pthread_create` has made a thread. -/
theorem started_of_mem {tr : List EventLoopThreadEvent}
    (h : (machine own).exec (machine own).init tr = some s)
    (hmem : EventLoopThreadEvent.create true ∈ tr) : s.started = true := by
  revert hmem
  refine Machine.exec_induction (motive := fun tr s =>
    EventLoopThreadEvent.create true ∈ tr → s.started = true) (by simp) ?_ h
  intro tr t e t' ht hs ih hmem
  have hsound : t.Sound own := sound_of_reachable ⟨tr, ht⟩
  refine started_of_step hsound hs ?_
  rcases Log.mem_concat.mp hmem with hmem | hlast
  · exact Or.inl (ih hmem)
  · exact Or.inr hlast.symm

/-- **A started `EventLoopThread` is never destroyed.** The thread does not leave
its loop, in any run: `quit` does nothing. So the destructor, which waits for the
thread to end, does not return once `pthread_create` has made one; before that it
has nothing to wait for. -/
theorem never_destroyed {tr : List EventLoopThreadEvent}
    (h : (machine own).exec (machine own).init tr = some s) :
    s.thread ≠ .ending ∧ s.thread ≠ .ended ∧ s.step own .join = none
      ∧ (s.starter = .destroyed → EventLoopThreadEvent.create true ∉ tr) := by
  have hsound : s.Sound own := sound_of_reachable ⟨tr, h⟩
  obtain ⟨hending, hended⟩ := hsound.not_ended
  refine ⟨hending, hended, if_neg fun hj => hended hj.2, fun hpc hmem => ?_⟩
  have hstarter := hsound.starter
  rw [hpc] at hstarter
  exact hsound.started_eq.mp (started_of_mem h hmem) hstarter.2

/-- A thread is started and reaches its loop, and the destructor is called. -/
theorem never_destroyed_started :
    ∃ s : EventLoopThread ℕ, s.starter = .join ∧ s.thread = .turn
      ∧ s.step 0 .join = none ∧ s.publish.value = some 0 := by
  have hrun : ((machine 0).exec (machine 0).init (startRun ++ [.turn, .destroy])).map
        (fun s => (s.starter, s.thread, s.publish.value))
      = some (.join, .turn, some 0) := by
    decide +kernel
  obtain ⟨s, hs, hend⟩ := Option.map_eq_some_iff.mp hrun
  obtain ⟨hpc, hthread, hvalue⟩ : s.starter = .join ∧ s.thread = .turn
      ∧ s.publish.value = some 0 := by simpa using hend
  exact ⟨s, hpc, hthread, (never_destroyed hs).2.2.1, hvalue⟩

end EventLoopThread
