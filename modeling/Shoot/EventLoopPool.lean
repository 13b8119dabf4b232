import Mathlib.Data.Int.Order.Basic
import Shoot.EventLoopThread

/-!
# Starting the loops of a pool

`EventLoopPool::start` makes `thread_num_` threads, one after the other, and
collects what `start_loop` returns in `loops_`; without threads it runs the
callback on the base loop instead. All the threads made so far run on while the
next one is started, so a state of the pool has the states of all its
`EventLoopThread`s, of which the one with the current index is being started and
the later ones do not exist yet.

Whatever the order of the steps, `start` returns with the loops of its threads in
the order of their indices, none of them null, each with its callback called
once, before the next thread was made (`EventLoopPool.start_returned`). It does
return: the steps it and the threads have to make are bounded, and until it has
returned one of them can be made, unless `pthread_create` fails, after which it
waits for good (`EventLoopPool.start_returns`).
-/

/-- Where `EventLoopPool::start` is. -/
inductive PoolPc where
  /-- At `i < thread_num_`. -/
  | test
  /-- In `t->start_loop()`. -/
  | starting
  /-- At `thread_num_ == 0 && cb`. -/
  | callback
  | returned
deriving DecidableEq, Repr

/-- **A pool that is started.** -/
structure EventLoopPool where
  /-- `threads_`, and those that do not exist yet. -/
  threads : ℕ → EventLoopThread ℕ
  i : ℕ
  /-- `loops_`. -/
  loops : List (Option ℕ)
  pc : PoolPc

/-- Who moves. -/
inductive EventLoopPoolEvent where
  /-- `start` takes its next step. -/
  | start
  /-- Something happens to the thread with this index. -/
  | thread (j : ℕ) (e : EventLoopThreadEvent)
deriving DecidableEq, Repr

namespace EventLoopPool

/-- The pool when `start` is called. -/
def init : EventLoopPool := ⟨fun _ => .fresh, 0, [], .test⟩

/-- The next step of `start`, for `num` threads. -/
def startStep (num : ℤ) (s : EventLoopPool) : Option EventLoopPool :=
  match s.pc with
  | .test => some { s with pc := if (s.i : ℤ) < num then .starting else .callback }
  | .starting =>
    match (s.threads s.i).publish.waiter with
    | .returned l => some { s with loops := s.loops ++ [l], i := s.i + 1, pc := .test }
    | _ => none
  | .callback => some { s with pc := .returned }
  | .returned => none

/-- A thread is made by its own `start_loop`, and the pool does not destroy it. -/
def allows (s : EventLoopPool) (j : ℕ) : EventLoopThreadEvent → Bool
  | .create _ => s.pc == .starting && j == s.i
  | .destroy | .join => false
  | .latch _ | .publish _ | .starter | .thread | .turn => true

/-- **One step of the pool.** -/
def step (num : ℤ) (s : EventLoopPool) : EventLoopPoolEvent → Option EventLoopPool
  | .start => s.startStep num
  | .thread j e =>
    if s.allows j e then
      ((s.threads j).step j e).map fun t =>
        { s with threads := Function.update s.threads j t }
    else
      none

/-- `start`, with `thread_num_` threads. -/
def machine (num : ℤ) : Machine EventLoopPool EventLoopPoolEvent := ⟨init, step num⟩

/-- The loop the callback is called on in a step, the base loop being `none`. -/
def callbackOf (num : ℤ) (cb : Bool) (s : EventLoopPool) :
    EventLoopPoolEvent → List (Option ℕ)
  | .start => if s.pc = .callback ∧ num = 0 ∧ cb then [none] else []
  | .thread j e =>
    if e = .thread ∧ (s.threads j).thread = .callback ∧ cb then [some j] else []

/-- **The loops the callback has been called on**, in the order of the calls. -/
def called (num : ℤ) (cb : Bool) (tr : List EventLoopPoolEvent) : List (Option ℕ) :=
  (machine num).history (fun s e log => log ++ callbackOf num cb s e) init [] tr

/-! ## The threads made so far -/

/-- The thread has called the callback, if there is one. -/
def HasCalled : ThreadPc → Bool
  | .publish | .enter | .turn | .ending | .ended => true
  | .unborn | .countDown | .construct | .callback => false

/-- What the place of `start` says of its index. -/
def Place (num : ℤ) (i : ℕ) : PoolPc → Prop
  | .test => i ≤ num.toNat
  | .starting => i < num.toNat
  | .callback | .returned => i = num.toNat

/-- The calls of the callback that a state has behind it. -/
def calls (num : ℤ) (cb : Bool) (s : EventLoopPool) : List (Option ℕ) :=
  if cb then
    (List.range s.i).map some ++ (if HasCalled (s.threads s.i).thread then [some s.i] else [])
      ++ (if s.pc = .returned ∧ num = 0 then [none] else [])
  else
    []

/-- **The threads are made one by one.** Those with a smaller index than the
current one have published their loops, those with a greater one do not exist. -/
structure Sound (num : ℤ) (s : EventLoopPool) : Prop where
  threads : ∀ j, (s.threads j).Sound j
  past : ∀ j < s.i, (s.threads j).publish.waiter = .returned (some j)
  place : Place num s.i s.pc
  current : s.pc = .starting →
    (s.threads s.i).starter = .create ∨ (s.threads s.i).starter = .latch
      ∨ (s.threads s.i).starter = .loop
  future : ∀ j, s.i < j ∨ (j = s.i ∧ s.pc ≠ .starting) → s.threads j = .fresh
  loops_eq : s.loops = (List.range s.i).map some

variable {num : ℤ} {cb : Bool} {s s' : EventLoopPool}

/-- The pool is sound when `start` is called. -/
theorem sound_init : Sound num init where
  threads _ := EventLoopThread.sound_fresh
  past j hj := absurd hj (Nat.not_lt_zero j)
  place := Nat.zero_le _
  current h := by cases h
  future _ _ := rfl
  loops_eq := rfl

/-- A step of `start`. -/
theorem Sound.startStep (h : s.Sound num) (hs : s.startStep num = some s') : s'.Sound num := by
  obtain ⟨hthreads, hpast, hplace, hcurrent, hfuture, hloops⟩ := h
  unfold EventLoopPool.startStep at hs
  cases hpc : s.pc with
  | test =>
    rw [hpc] at hs hplace
    cases hs
    have hle : s.i ≤ num.toNat := hplace
    by_cases hlt : (s.i : ℤ) < num
    · rw [if_pos hlt]
      refine ⟨hthreads, hpast, by show s.i < num.toNat; omega, fun _ => ?_, ?_, hloops⟩
      · rw [hfuture s.i (Or.inr ⟨rfl, by simp [hpc]⟩)]
        exact Or.inl rfl
      · rintro j (hj | ⟨-, hne⟩)
        · exact hfuture j (Or.inl hj)
        · exact absurd rfl hne
    · rw [if_neg hlt]
      refine ⟨hthreads, hpast, by show s.i = num.toNat; omega, by simp, ?_, hloops⟩
      rintro j (hj | ⟨hj, -⟩)
      · exact hfuture j (Or.inl hj)
      · exact hfuture j (Or.inr ⟨hj, by simp [hpc]⟩)
  | starting =>
    rw [hpc] at hs hplace
    dsimp only at hs
    split at hs
    · next l hl =>
      cases hs
      obtain ⟨rfl, -⟩ := (hthreads s.i).returned hl
      refine ⟨hthreads, fun j hj => ?_, hplace, by simp, ?_, ?_⟩
      · rcases Nat.lt_succ_iff_lt_or_eq.mp hj with hj | rfl
        · exact hpast j hj
        · exact hl
      · rintro j (hj | ⟨rfl, -⟩)
        · exact hfuture j (Or.inl (Nat.lt_of_succ_lt hj))
        · exact hfuture _ (Or.inl (Nat.lt_succ_self _))
      · rw [hloops, List.range_succ, List.map_append, List.map_singleton]
    · cases hs
  | callback =>
    rw [hpc] at hs hplace
    cases hs
    refine ⟨hthreads, hpast, hplace, by simp, ?_, hloops⟩
    rintro j (hj | ⟨hj, -⟩)
    · exact hfuture j (Or.inl hj)
    · exact hfuture j (Or.inr ⟨hj, by simp [hpc]⟩)
  | returned =>
    rw [hpc] at hs
    cases hs

/-- A thread that does not exist yet does nothing. -/
theorem eq_create_of_fresh {j : ℕ} {e : EventLoopThreadEvent} {t : EventLoopThread ℕ}
    (hdestroy : e ≠ .destroy) (hs : EventLoopThread.fresh.step j e = some t) :
    ∃ ok, e = .create ok := by
  cases e with
  | create ok => exact ⟨ok, rfl⟩
  | latch e | publish e => cases e <;> cases hs
  | starter | thread | turn | join => cases hs
  | destroy => exact absurd rfl hdestroy

/-- A step of a thread is one of a thread that was made, or is being made. -/
theorem Sound.active (h : s.Sound num) {j : ℕ} {e : EventLoopThreadEvent}
    (hs : s.step num (.thread j e) = some s') : j < s.i ∨ (j = s.i ∧ s.pc = .starting) := by
  obtain ⟨hallows, hs⟩ := Option.ite_none_right_eq_some.mp hs
  obtain ⟨t, ht, -⟩ := Option.map_eq_some_iff.mp hs
  by_contra hnot
  obtain ⟨hle, hi⟩ := not_or.mp hnot
  have hfresh : s.threads j = .fresh := by
    rcases Nat.lt_or_eq_of_le (not_lt.mp hle) with hlt | heq
    · exact h.future j (Or.inl hlt)
    · exact h.future j (Or.inr ⟨heq.symm, fun hpc => hi ⟨heq.symm, hpc⟩⟩)
  rw [hfresh] at ht
  have hdestroy : e ≠ .destroy := by
    rintro rfl
    cases hallows
  obtain ⟨ok, rfl⟩ := eq_create_of_fresh hdestroy ht
  have hpc : s.pc = .starting ∧ j = s.i := by simpa [allows] using hallows
  exact hi ⟨hpc.2, hpc.1⟩

/-- The thread that is being started stays in `start_loop`. -/
theorem starting_of_step {j : ℕ} {t t' : EventLoopThread ℕ} {e : EventLoopThreadEvent}
    (hdestroy : e ≠ .destroy) (hjoin : e ≠ .join)
    (h : t.starter = .create ∨ t.starter = .latch ∨ t.starter = .loop)
    (hs : t.step j e = some t') :
    t'.starter = .create ∨ t'.starter = .latch ∨ t'.starter = .loop := by
  cases EventLoopThread.Moves.of_step hs with
  | create ok => cases ok <;> simp [EventLoopThread.create]
  | starter => exact Or.inr (Or.inr rfl)
  | destroy => exact absurd rfl hdestroy
  | join => exact absurd rfl hjoin
  | _ => exact h

/-- What `start_loop` has returned, it has returned for good. -/
theorem returned_of_step {j : ℕ} {t t' : EventLoopThread ℕ} {e : EventLoopThreadEvent}
    (ht : t.Sound j) {l : Option ℕ} (h : t.publish.waiter = .returned l)
    (hs : t.step j e = some t') : t'.publish.waiter = .returned l := by
  have hstarter := ht.starter
  cases EventLoopThread.Moves.of_step hs with
  | create ok hpc =>
    rw [hpc] at hstarter
    cases h.symm.trans hstarter.2.1
  | publish hl => exact (Handshake.keeps_step hl).waiter_returned l h
  | starter hpc =>
    rw [hpc] at hstarter
    cases h.symm.trans hstarter.2.1
  | _ => exact h

/-- The callback is called in one step of the thread, and in no other. -/
theorem hasCalled_of_step {j : ℕ} {t t' : EventLoopThread ℕ} {e : EventLoopThreadEvent}
    (ht : t.Sound j) (hs : t.step j e = some t') :
    HasCalled t'.thread
      = (HasCalled t.thread || decide (e = .thread ∧ t.thread = .callback)) := by
  have hstarter := ht.starter
  cases EventLoopThread.Moves.of_step hs with
  | create ok hpc =>
    rw [hpc] at hstarter
    rw [hstarter.2.2]
    cases ok
    · simp [EventLoopThread.create, hstarter.2.2, HasCalled]
    · simp [EventLoopThread.create, HasCalled]
  | turn hpc =>
    rw [if_neg (Bool.eq_false_iff.mp (ht.quit_eq hpc)), hpc]
    rfl
  | ending hpc => exact absurd hpc ht.not_ended.1
  | countDown hpc | construct hpc | callback hpc | published hpc | enter hpc =>
    rw [hpc]
    rfl
  | _ => simp

/-- A step of a thread. -/
theorem Sound.threadStep (h : s.Sound num) {j : ℕ} {e : EventLoopThreadEvent}
    (hs : s.step num (.thread j e) = some s') : s'.Sound num := by
  have hactive := h.active hs
  obtain ⟨hthreads, hpast, hplace, hcurrent, hfuture, hloops⟩ := h
  obtain ⟨hallows, hs⟩ := Option.ite_none_right_eq_some.mp hs
  obtain ⟨t, ht, rfl⟩ := Option.map_eq_some_iff.mp hs
  refine ⟨fun k => ?_, fun k hk => ?_, hplace, fun hpc => ?_, fun k hk => ?_, hloops⟩
  · by_cases hkj : k = j
    · subst hkj
      dsimp only
      rw [Function.update_self]
      exact (hthreads k).step ht
    · dsimp only
      rw [Function.update_of_ne hkj]
      exact hthreads k
  · by_cases hkj : k = j
    · subst hkj
      dsimp only
      rw [Function.update_self]
      exact returned_of_step (hthreads k) (hpast k hk) ht
    · dsimp only
      rw [Function.update_of_ne hkj]
      exact hpast k hk
  · by_cases hkj : s.i = j
    · subst hkj
      dsimp only
      rw [Function.update_self]
      exact starting_of_step (by rintro rfl; cases hallows) (by rintro rfl; cases hallows)
        (hcurrent hpc) ht
    · dsimp only
      rw [Function.update_of_ne hkj]
      exact hcurrent hpc
  · have hkj : k ≠ j := by
      rintro rfl
      rcases hactive with hlt | ⟨heq, hpc⟩
      · rcases hk with hk | ⟨hk, -⟩
        · exact absurd hlt (Nat.lt_asymm hk)
        · exact absurd hlt (hk ▸ Nat.lt_irrefl _)
      · rcases hk with hk | ⟨-, hne⟩
        · exact absurd hk (heq ▸ Nat.lt_irrefl _)
        · exact hne hpc
    dsimp only
    rw [Function.update_of_ne hkj]
    exact hfuture k hk

/-- **A step of the pool.** -/
theorem Sound.step (h : s.Sound num) {e : EventLoopPoolEvent} (hs : s.step num e = some s') :
    s'.Sound num := by
  cases e with
  | start => exact h.startStep hs
  | thread j e => exact h.threadStep hs

/-- Every reachable state is sound. -/
theorem sound_of_reachable (h : (machine num).Reachable s) : s.Sound num :=
  h.invariant sound_init fun _ _ _ hi hs => hi.step hs

/-- A thread whose `start_loop` has returned has called the callback. -/
theorem hasCalled_of_returned {j : ℕ} {t : EventLoopThread ℕ} (ht : t.Sound j)
    {l : Option ℕ} (hl : t.publish.waiter = .returned l) : HasCalled t.thread = true := by
  rcases (ht.returned hl).2.2.2.2 with h | h | h <;> rw [h] <;> rfl

/-- A step of `start` adds the calls it makes. -/
theorem calls_startStep (h : s.Sound num) (hs : s.startStep num = some s') :
    calls num cb s' = calls num cb s ++ callbackOf num cb s .start := by
  cases cb with
  | false => simp [calls, callbackOf]
  | true =>
    unfold EventLoopPool.startStep at hs
    cases hpc : s.pc with
    | test =>
      rw [hpc] at hs
      cases hs
      by_cases hlt : (s.i : ℤ) < num
      · simp [calls, callbackOf, hpc, hlt]
      · simp [calls, callbackOf, hpc, hlt]
    | starting =>
      rw [hpc] at hs
      dsimp only at hs
      split at hs
      · next l hl =>
        cases hs
        have hcalled := hasCalled_of_returned (h.threads s.i) hl
        have hnext : HasCalled (s.threads (s.i + 1)).thread = false := by
          rw [h.future (s.i + 1) (Or.inl (Nat.lt_succ_self _))]
          rfl
        simp [calls, callbackOf, hpc, hcalled, hnext, List.range_succ]
      · cases hs
    | callback =>
      rw [hpc] at hs
      cases hs
      by_cases hzero : num = 0
      · simp [calls, callbackOf, hpc, hzero]
      · simp [calls, callbackOf, hpc, hzero]
    | returned =>
      rw [hpc] at hs
      cases hs

/-- A step of a thread adds the call it makes. -/
theorem calls_threadStep (h : s.Sound num) {j : ℕ} {e : EventLoopThreadEvent}
    (hs : s.step num (.thread j e) = some s') :
    calls num cb s' = calls num cb s ++ callbackOf num cb s (.thread j e) := by
  have hactive := h.active hs
  obtain ⟨-, hs⟩ := Option.ite_none_right_eq_some.mp hs
  obtain ⟨t, ht, rfl⟩ := Option.map_eq_some_iff.mp hs
  cases cb with
  | false => simp [calls, callbackOf]
  | true =>
    rcases hactive with hlt | ⟨rfl, hpc⟩
    · -- an earlier thread has made its call
      have hcalled := hasCalled_of_returned (h.threads j) (h.past j hlt)
      have hne : (s.threads j).thread ≠ .callback := by
        intro hpc
        rw [hpc] at hcalled
        cases hcalled
      have hother : s.i ≠ j := Nat.ne_of_gt hlt
      simp [calls, callbackOf, hne, Function.update_of_ne hother]
    · -- the thread that is being started makes it at most now
      have hstep := hasCalled_of_step (h.threads s.i) ht
      by_cases hcall : e = .thread ∧ (s.threads s.i).thread = .callback
      · have hbefore : HasCalled .callback = false := rfl
        have hnow : HasCalled t.thread = true := by
          rw [hstep, decide_eq_true hcall, Bool.or_true]
        simp [calls, callbackOf, hcall.1, hcall.2, hbefore, hnow, hpc]
      · rw [decide_eq_false hcall, Bool.or_false] at hstep
        simp [calls, callbackOf, hcall, hstep, hpc]

/-- **The calls of the callback are those the state has behind it.** -/
theorem called_eq {tr : List EventLoopPoolEvent}
    (h : (machine num).exec (machine num).init tr = some s) :
    called num cb tr = calls num cb s := by
  have hinv : s.Sound num ∧ called num cb tr = calls num cb s := by
    refine Machine.history_invariant (I := fun s log => s.Sound num ∧ log = calls num cb s)
      ?_ ?_ h
    · refine ⟨sound_init, ?_⟩
      cases cb <;> simp [calls, machine, init, EventLoopThread.fresh, HasCalled]
    · rintro tr t e t' log - hs ⟨hsound, rfl⟩
      refine ⟨hsound.step hs, ?_⟩
      cases e with
      | start => exact (calls_startStep hsound hs).symm
      | thread j e => exact (calls_threadStep hsound hs).symm
  exact hinv.2

/-- A run of `start` with two threads, one after the other. -/
def startTwo : List EventLoopPoolEvent :=
  ([0, 1].flatMap fun j =>
    .start :: (EventLoopThread.startRun.map (.thread j) ++ [.start])) ++ [.start, .start]

/-- **What `start` leaves behind.** In every run, for every number of threads and
whatever the order of the steps, when `start` has returned `loops_` holds the loops of
the threads in the order of their indices, none of them null; each thread has its loop
published, is on its way into it or in it, and no thread is left at a latch or at the
mutex of a `loop_`; and the callback, if there is one, was called once on each of these
loops, in this order – or once, on the base loop, if the number of threads is zero, and
not at all if it is negative. -/
theorem start_returned {tr : List EventLoopPoolEvent}
    (h : (machine num).exec (machine num).init tr = some s) (hpc : s.pc = .returned) :
    s.loops = (List.range num.toNat).map some
      ∧ (∀ j < num.toNat, (s.threads j).publish.value = some j
        ∧ (s.threads j).publish.held = false ∧ (s.threads j).latch.setter = .returned
        ∧ ((s.threads j).thread = .publish ∨ (s.threads j).thread = .enter
          ∨ (s.threads j).thread = .turn))
      ∧ called num true tr = (if num = 0 then [none] else (List.range num.toNat).map some)
      ∧ called num false tr = [] := by
  have hsound : s.Sound num := sound_of_reachable ⟨tr, h⟩
  have hplace := hsound.place
  rw [hpc] at hplace
  have hi : s.i = num.toNat := hplace
  refine ⟨hi ▸ hsound.loops_eq, fun j hj => ?_, ?_, ?_⟩
  · exact ((hsound.threads j).returned (hsound.past j (hi ▸ hj))).2
  · have hfresh : HasCalled (s.threads s.i).thread = false := by
      rw [hsound.future s.i (Or.inr ⟨rfl, by simp [hpc]⟩)]
      rfl
    rw [called_eq h]
    by_cases hzero : num = 0
    · have hi' : s.i = 0 := by
        rw [hi, hzero]
        rfl
      rw [hi'] at hfresh
      simp [calls, hpc, hfresh, hzero, hi']
    · rw [hi] at hfresh
      simp [calls, hpc, hfresh, hzero, hi]
  · rw [called_eq h]
    rfl

/-- Two threads are started, the second one while the first is in its loop. -/
theorem start_returned_two :
    ∃ s, (machine 2).exec (machine 2).init startTwo = some s ∧ s.loops = [some 0, some 1]
      ∧ (s.threads 0).publish.value = some 0
      ∧ called 2 true startTwo = [some 0, some 1] := by
  have hrun : ((machine 2).exec (machine 2).init startTwo).map (fun s => s.pc)
      = some .returned := by
    decide +kernel
  obtain ⟨s, hs, hpc⟩ := Option.map_eq_some_iff.mp hrun
  obtain ⟨hloops, hthreads, hcalled, -⟩ := start_returned hs hpc
  exact ⟨s, hs, hloops, (hthreads 0 (by decide)).1, hcalled⟩

/-- **At any time**, a loop that `start` has collected has had its callback called before
the next thread was made: the calls are those of the loops collected, in their order, and
at most one more. -/
theorem loops_called {tr : List EventLoopPoolEvent}
    (h : (machine num).exec (machine num).init tr = some s) :
    s.loops <+: called num true tr ∧ (called num true tr).length ≤ s.loops.length + 1 := by
  have hsound : s.Sound num := sound_of_reachable ⟨tr, h⟩
  rw [called_eq h, calls, if_pos rfl, hsound.loops_eq, List.append_assoc]
  refine ⟨List.prefix_append .., ?_⟩
  have hplace := hsound.place
  by_cases hpc : s.pc = .returned
  · have hfresh : HasCalled (s.threads s.i).thread = false := by
      rw [hsound.future s.i (Or.inr ⟨rfl, by simp [hpc]⟩)]
      rfl
    rw [hfresh]
    by_cases hzero : num = 0
    · simp [hpc, hzero]
    · simp [hpc, hzero]
  · cases HasCalled (s.threads s.i).thread <;> simp [hpc]

/-- When the second thread is about to call its callback, one loop is collected. -/
theorem loops_called_first :
    ∃ s, (machine 2).exec (machine 2).init (startTwo.take 30) = some s
      ∧ s.loops <+: called 2 true (startTwo.take 30)
      ∧ (called 2 true (startTwo.take 30)).length ≤ s.loops.length + 1 := by
  have hrun : ((machine 2).exec (machine 2).init (startTwo.take 30)).map (fun s => s.pc)
      = some .starting := by
    decide +kernel
  obtain ⟨s, hs, -⟩ := Option.map_eq_some_iff.mp hrun
  exact ⟨s, hs, loops_called hs⟩

/-! ## What is left to do -/

/-- What is left to do in the first `n` threads. -/
def rankBelow (threads : ℕ → EventLoopThread ℕ) : ℕ → ℕ
  | 0 => 0
  | n + 1 => rankBelow threads n + (threads n).rank

/-- A thread that is none of the first `n` does not count. -/
theorem rankBelow_update_of_le {threads : ℕ → EventLoopThread ℕ} {j n : ℕ}
    {t : EventLoopThread ℕ} (hj : n ≤ j) :
    rankBelow (Function.update threads j t) n = rankBelow threads n := by
  induction n with
  | zero => rfl
  | succ n ih =>
    rw [rankBelow, rankBelow, ih (Nat.le_of_succ_le hj),
      Function.update_of_ne (Nat.ne_of_lt hj)]

/-- One of the first `n` threads counts once. -/
theorem rankBelow_update {threads : ℕ → EventLoopThread ℕ} {j n : ℕ}
    {t : EventLoopThread ℕ} (hj : j < n) :
    rankBelow (Function.update threads j t) n + (threads j).rank
      = rankBelow threads n + t.rank := by
  induction n with
  | zero => exact absurd hj (Nat.not_lt_zero j)
  | succ n ih =>
    rw [rankBelow, rankBelow]
    rcases Nat.lt_succ_iff_lt_or_eq.mp hj with hlt | rfl
    · have hn : n ≠ j := Nat.ne_of_gt hlt
      have hstep := ih hlt
      rw [Function.update_of_ne hn]
      omega
    · rw [rankBelow_update_of_le (le_refl _), Function.update_self]
      omega

/-- What `start` has still to do itself. -/
def placeRank : PoolPc → ℕ
  | .test => 2
  | .starting | .callback => 1
  | .returned => 0

/-- **What is left to do** until `start` has returned and every thread is in its
loop. -/
def rank (num : ℤ) (s : EventLoopPool) : ℕ :=
  2 * (num.toNat - s.i) + placeRank s.pc + rankBelow s.threads num.toNat

/-- The steps of `start`, and those of the threads on the way to their loops. -/
def program : EventLoopPoolEvent → Bool
  | .start => true
  | .thread _ e => EventLoopThread.program e

/-- A thread wakes up without a notification. -/
def spurious : EventLoopPoolEvent → Bool
  | .start => false
  | .thread _ e => EventLoopThread.spurious e

/-- A step of `start` leaves less to do. -/
theorem rank_startStep (h : s.Sound num) (hs : s.startStep num = some s') :
    s'.rank num < s.rank num := by
  have hplace := h.place
  unfold EventLoopPool.startStep at hs
  unfold rank
  cases hpc : s.pc with
  | test =>
    rw [hpc] at hs
    cases hs
    split <;> simp only [placeRank] <;> omega
  | starting =>
    rw [hpc] at hs hplace
    have hlt : s.i < num.toNat := hplace
    dsimp only at hs
    split at hs
    · cases hs
      simp only [placeRank]
      omega
    · cases hs
  | callback =>
    rw [hpc] at hs
    cases hs
    simp only [placeRank]
    omega
  | returned =>
    rw [hpc] at hs
    cases hs

/-- What a step of a thread leaves to do, the pool has left to do. -/
theorem rank_threadStep (h : s.Sound num) {j : ℕ} {e : EventLoopThreadEvent}
    (hs : s.step num (.thread j e) = some s') :
    ∃ t, (s.threads j).step j e = some t
      ∧ s'.rank num + (s.threads j).rank = s.rank num + t.rank := by
  have hplace := h.place
  have hj : j < num.toNat := by
    rcases h.active hs with hlt | ⟨rfl, hpc⟩
    · cases hpc : s.pc with
      | test | starting | callback | returned =>
        rw [hpc] at hplace
        simp only [Place] at hplace
        omega
    · rw [hpc] at hplace
      exact hplace
  obtain ⟨-, hs⟩ := Option.ite_none_right_eq_some.mp hs
  obtain ⟨t, ht, rfl⟩ := Option.map_eq_some_iff.mp hs
  have hupdate : rankBelow (Function.update s.threads j t) num.toNat + (s.threads j).rank
      = rankBelow s.threads num.toNat + t.rank := rankBelow_update hj
  refine ⟨t, ht, ?_⟩
  simp only [rank]
  omega

/-- **The pool has a measure**: the steps of the program bring it down, unprompted
wake-ups raise it by three, and what the loops do does not change it. -/
theorem measured (num : ℤ) :
    (machine num).Measured (Sound num) program (fun e => if spurious e then 3 else 0)
      (rank num) where
  keeps s e s' hi hs := hi.step hs
  falls s e s' hi hs he := by
    cases e with
    | start => exact rank_startStep hi hs
    | thread j e =>
      obtain ⟨t, ht, heq⟩ := rank_threadStep hi hs
      have hlt := EventLoopThread.rank_lt (hi.threads j) he ht
      omega
  rises s e s' hi hs he := by
    cases e with
    | start => cases he
    | thread j e =>
      obtain ⟨t, ht, heq⟩ := rank_threadStep hi hs
      have hle := EventLoopThread.rank_le (hi.threads j) he ht
      show s'.rank num ≤ s.rank num + if EventLoopThread.spurious e then 3 else 0
      omega

/-- What there is to do when `start` is called. -/
theorem rank_init (num : ℤ) : init.rank num = 40 * num.toNat + 2 := by
  have hbelow (n : ℕ) : rankBelow (fun _ => EventLoopThread.fresh) n = 38 * n := by
    induction n with
    | zero => rfl
    | succ n ih =>
      have hone : (EventLoopThread.fresh : EventLoopThread ℕ).rank = 38 := by decide
      rw [rankBelow, ih, hone]
      omega
  show 2 * (num.toNat - 0) + 2 + rankBelow (fun _ => EventLoopThread.fresh) num.toNat = _
  rw [hbelow]
  omega

/-! ## `pthread_create` may fail -/

/-- `pthread_create` has returned an error for this thread. -/
def Failed (j : ℕ) (s : EventLoopPool) : Prop :=
  (s.threads j).starter = .loop ∧ (s.threads j).started = false

/-- What a step does to a thread that could not be made, or could. -/
theorem failed_thread_iff {j : ℕ} {t t' : EventLoopThread ℕ} {e : EventLoopThreadEvent}
    (ht : t.Sound j) (hdestroy : e ≠ .destroy) (hjoin : e ≠ .join)
    (hs : t.step j e = some t') :
    t'.starter = .loop ∧ t'.started = false
      ↔ (t.starter = .loop ∧ t.started = false) ∨ e = .create false := by
  have hstarter := ht.starter
  have hstarted := ht.started_eq
  cases EventLoopThread.Moves.of_step hs with
  | create ok hpc =>
    rw [hpc] at hstarter
    have hnot : t.started = false :=
      Bool.eq_false_iff.mpr fun hst => hstarted.mp hst hstarter.2.2
    cases ok with
    | true => simp [EventLoopThread.create, hpc]
    | false => simp [EventLoopThread.create, hnot]
  | starter hpc =>
    rw [hpc] at hstarter
    have hst : t.started = true := hstarted.mpr hstarter.2.2
    simp [hpc, hst]
  | destroy => exact absurd rfl hdestroy
  | join => exact absurd rfl hjoin
  | _ => simp

/-- `start` itself touches no thread. -/
theorem threads_startStep (hs : s.startStep num = some s') : s'.threads = s.threads := by
  unfold EventLoopPool.startStep at hs
  cases hpc : s.pc with
  | test | callback =>
    rw [hpc] at hs
    cases hs
    rfl
  | starting =>
    rw [hpc] at hs
    dsimp only at hs
    split at hs <;> cases hs
    rfl
  | returned =>
    rw [hpc] at hs
    cases hs

/-- A thread that could not be made is one whose `pthread_create` failed. -/
theorem failed_of_step (h : s.Sound num) {j : ℕ} {e : EventLoopPoolEvent}
    (hs : s.step num e = some s') :
    s'.Failed j ↔ s.Failed j ∨ e = .thread j (.create false) := by
  cases e with
  | start =>
    rw [Failed, threads_startStep hs]
    simp [Failed]
  | thread k e =>
    obtain ⟨hallows, hs⟩ := Option.ite_none_right_eq_some.mp hs
    obtain ⟨t, ht, rfl⟩ := Option.map_eq_some_iff.mp hs
    by_cases hjk : j = k
    · subst hjk
      have hiff := failed_thread_iff (h.threads j) (by rintro rfl; cases hallows)
        (by rintro rfl; cases hallows) ht
      simp [Failed, Function.update_self, hiff]
    · have hkj : k ≠ j := fun heq => hjk heq.symm
      simp [Failed, Function.update_of_ne hjk, hkj]

/-- **The threads that could not be made**, over a run. -/
theorem failed_iff {tr : List EventLoopPoolEvent}
    (h : (machine num).exec (machine num).init tr = some s) (j : ℕ) :
    s.Failed j ↔ EventLoopPoolEvent.thread j (.create false) ∈ tr := by
  refine Machine.exec_induction (M := machine num) (s := (machine num).init)
    (motive := fun tr s => s.Failed j ↔ EventLoopPoolEvent.thread j (.create false) ∈ tr)
    ?_ ?_ h
  · simp [Failed, machine, init, EventLoopThread.fresh]
  · intro tr t e t' ht hs ih
    have hsound : t.Sound num := sound_of_reachable ⟨tr, ht⟩
    rw [failed_of_step hsound hs, ih, Log.mem_concat, eq_comm]

/-- Where a thread could not be made, `start` has not returned. -/
theorem Sound.not_returned (h : s.Sound num) {j : ℕ} (hfailed : s.Failed j) :
    s.pc ≠ .returned := by
  intro hpc
  have hplace := h.place
  rw [hpc] at hplace
  by_cases hj : j < s.i
  · -- its loop would have been published, so it would have been born
    have hthread := ((h.threads j).returned (h.past j hj)).2.2.2.2
    have hborn : (s.threads j).thread ≠ .unborn := by
      rcases hthread with hth | hth | hth <;> rw [hth] <;> simp
    cases hfailed.2.symm.trans ((h.threads j).started_eq.mpr hborn)
  · have hle : s.i ≤ j := not_lt.mp hj
    have hfresh : s.threads j = .fresh := by
      rcases Nat.lt_or_eq_of_le hle with hlt | heq
      · exact h.future j (Or.inl hlt)
      · exact h.future j (Or.inr ⟨heq.symm, by simp [hpc]⟩)
    rw [Failed, hfresh] at hfailed
    cases hfailed.1

/-- **`start` is never stuck** as long as the threads are made. -/
theorem exists_program (h : s.Sound num) (hmade : ∀ j, ¬ s.Failed j) (hpc : s.pc ≠ .returned) :
    ∃ e s', (∀ j, e ≠ .thread j (.create false)) ∧ program e = true
      ∧ s.step num e = some s' := by
  cases hpc' : s.pc with
  | returned => exact absurd hpc' hpc
  | test | callback =>
    refine ⟨.start, ?_⟩
    show ∃ s', _ ∧ _ ∧ s.startStep num = some s'
    unfold EventLoopPool.startStep
    rw [hpc']
    exact ⟨_, by simp, rfl, rfl⟩
  | starting =>
    by_cases hback : ∃ l, (s.threads s.i).publish.waiter = .returned l
    · obtain ⟨l, hl⟩ := hback
      refine ⟨.start, { s with loops := s.loops ++ [l], i := s.i + 1, pc := .test }, by simp,
        rfl, ?_⟩
      show s.startStep num = _
      rw [EventLoopPool.startStep, hpc']
      dsimp only
      rw [hl]
    · obtain ⟨e, t, hne, he, ht⟩ := EventLoopThread.exists_program (h.threads s.i)
        (h.current hpc') (fun hst => Bool.not_eq_false _ ▸ fun hf => hmade s.i ⟨hst, hf⟩)
        fun l hl => hback ⟨l, hl⟩
      refine ⟨.thread s.i e, { s with threads := Function.update s.threads s.i t },
        fun j hj => ?_, he, ?_⟩
      · cases hj
        exact hne rfl
      · have hallows : s.allows s.i e = true := by
          cases e with
          | create ok => simp [allows, hpc']
          | destroy | join => cases he
          | _ => rfl
        show (if _ then _ else _) = _
        rw [if_pos hallows, ht]
        rfl

/-- A step of the program is possible, leaves less to do, and keeps what is made. -/
theorem enabled_of_made (s : EventLoopPool) (h : s.Sound num ∧ ∀ j, ¬ s.Failed j)
    (hpc : ¬ s.pc = .returned) :
    ∃ e s', program e = true ∧ (machine num).step s e = some s'
      ∧ (s'.Sound num ∧ ∀ j, ¬ s'.Failed j) ∧ s'.rank num < s.rank num := by
  obtain ⟨e, s', hne, he, hs⟩ := exists_program h.1 h.2 hpc
  refine ⟨e, s', he, hs, ⟨h.1.step hs, fun j hj => ?_⟩, (measured num).falls s e s' h.1 hs he⟩
  exact ((failed_of_step h.1 hs).mp hj).elim (h.2 j) (hne j)

/-- **`start` returns**, whatever the order of the steps. The steps that it and the
threads have to make are bounded, an unprompted wake-up costing three more; while
`pthread_create` has not failed, `start` can return from wherever it is, by steps of the
program alone; and once it has failed, for any thread, `start` does not return. -/
theorem start_returns {tr : List EventLoopPoolEvent}
    (h : (machine num).exec (machine num).init tr = some s) :
    tr.countP program ≤ 40 * num.toNat + 2 + 3 * tr.countP spurious
      ∧ ((∀ j, EventLoopPoolEvent.thread j (.create false) ∉ tr) →
        ∃ tr' s', (machine num).exec s tr' = some s' ∧ (∀ e ∈ tr', program e = true)
          ∧ s'.pc = .returned)
      ∧ ((∃ j, EventLoopPoolEvent.thread j (.create false) ∈ tr) → s.pc ≠ .returned) := by
  have hsound : s.Sound num := sound_of_reachable ⟨tr, h⟩
  refine ⟨?_, fun hnone => ?_, ?_⟩
  · have hcount := (measured num).count_le h sound_init
    have hinit : rank num (machine num).init = _ := rank_init num
    rw [hinit, Machine.totalCost_ite] at hcount
    exact le_trans (Nat.le_add_left _ _) hcount
  · have hmade : ∀ j, ¬ s.Failed j := fun j hj => hnone j ((failed_iff h j).mp hj)
    obtain ⟨tr', s', hs', hall, -, hgoal⟩ := Machine.exists_exec_of_enabled
      (Q := fun s => s.pc = .returned) (μ := rank num) enabled_of_made ⟨hsound, hmade⟩
    exact ⟨tr', s', hs', Machine.forall_of_along hs' hall, hgoal⟩
  · rintro ⟨j, hj⟩
    exact hsound.not_returned ((failed_iff h j).mpr hj)

/-- The second `pthread_create` fails: the steps are bounded, and `start` hangs. -/
theorem start_returns_failed :
    ∃ s, (machine 2).exec (machine 2).init (startTwo.take 28 ++ [.thread 1 (.create false)])
        = some s
      ∧ s.pc ≠ .returned
      ∧ (startTwo.take 28 ++ [EventLoopPoolEvent.thread 1 (.create false)]).countP program
          ≤ 82 := by
  have hrun : ((machine 2).exec (machine 2).init
      (startTwo.take 28 ++ [.thread 1 (.create false)])).map (fun s => s.pc)
      = some .starting := by
    decide +kernel
  obtain ⟨s, hs, -⟩ := Option.map_eq_some_iff.mp hrun
  obtain ⟨hcount, -, hfailed⟩ := start_returns hs
  have hnone : (startTwo.take 28
      ++ [EventLoopPoolEvent.thread 1 (.create false)]).countP spurious = 0 := by
    decide +kernel
  rw [hnone] at hcount
  exact ⟨s, hs, hfailed ⟨1, by simp⟩, hcount⟩

end EventLoopPool
