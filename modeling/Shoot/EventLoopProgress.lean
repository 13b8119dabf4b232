import Mathlib.Data.Finset.Card
import Shoot.EventLoopPending
import Shoot.Progress

/-!
# How long a function waits

A queued function is called after those queued before it, and not before the
round it has got into. How long that takes is counted here in statements of the
loop's thread: two for each function in front, eight at most for each channel the
poll has reported or reports in the meantime, and twelve for the rest of the way
from one round to the next (`EventLoop.called_within`). What the other threads
queue after it does not add to the bound, because a round takes what was there
when it began, in order; so a function cannot be held up by functions that queue
new ones.

The bound is on the statements, not on the time between them: the thread may be in
a callback, which returns when it likes, or in the poll, which has no timeout. But
nothing more is needed for a queued function than what is under way already
(`EventLoop.called_unaided`): the statements of the loop's thread, the writes to the
eventfd of the threads that have pushed, and the report of the wake-up channel, with
a poll that returns only when it has reported something. For this `loop` must not
return, which it does not, because nothing sets `quit_`; and the wake-up channel must
be armed whenever the poll has nothing else to wait for.
-/

namespace EventLoop

variable {ι F : Type*} {t : ThreadId} {fd : Fd} {s s' : EventLoop ι F} {e : LoopEvent ι F}

/-- The event is a statement of the loop's thread. -/
def isStep : LoopEvent ι F → Bool
  | .step => true
  | _ => false

/-- The event is a report of `epoll_wait`. -/
def isReport : LoopEvent ι F → Bool
  | .deliverWakeUp | .deliver _ => true
  | _ => false

/-- The channels of `active_vector` that the loop has not come to. -/
def reported : LoopPc ι F → List (ActiveChannel ι)
  | .poll active | .next active | .handler _ active => active
  | .wakeUp _ active | .read _ active | .rearm _ active => active
  | _ => []

/-- The functions that were queued and not called. -/
def waiting (s : EventLoop ι F) : List F := round s.pc ++ s.pendingFunctions

/-! ## The wake-up channel -/

/-- The wake-up channel has a read callback only. -/
structure ReadsOnly (s : EventLoop ι F) : Prop where
  write : s.wakeUpChannel.writeHandler = none
  error : s.wakeUpChannel.errorHandler = none
  close : s.wakeUpChannel.closeHandler = none

/-- The callbacks of the wake-up channel are not replaced. -/
theorem ReadsOnly.moves (h : s.ReadsOnly) (hs : s.Moves e s') : s'.ReadsOnly := by
  cases hs with
  | runInLoop cb ht =>
    unfold EventLoop.runInLoop
    split <;> exact ⟨h.write, h.error, h.close⟩
  | advance ht hs =>
    cases hs with
    | rearm hpc =>
      have hch : (s.rearmWakeUp).wakeUpChannel = (s.wakeUpChannel.enableRead s.epoll ()).2 := rfl
      rw [Channel.enableRead_snd] at hch
      exact ⟨(congrArg Channel.writeHandler hch).trans h.write,
        (congrArg Channel.errorHandler hch).trans h.error,
        (congrArg Channel.closeHandler hch).trans h.close⟩
    | _ => exact ⟨h.write, h.error, h.close⟩
  | _ => exact ⟨h.write, h.error, h.close⟩

/-- The constructor gives it that one. -/
theorem readsOnly_new (t : ThreadId) (fd : Fd) : (EventLoop.new t fd : EventLoop ι F).ReadsOnly :=
  ⟨rfl, rfl, rfl⟩

/-! ## The way to the next round -/

/-- The statements left in `handle_events` of the wake-up channel. -/
def toRet : Channel.HandlePc → ℕ
  | .hup => 7
  | .err => 6
  | .read => 5
  | .write => 2
  | .ret => 1

/-- The statements up to the next swap, but for the calls of the round: eight for
each channel reported. -/
def toRound : LoopPc ι F → ℕ
  | .entry | .test => 5
  | .poll active => 4 + 8 * active.length
  | .next active => 3 + 8 * active.length
  | .wakeUp stage active => 3 + 8 * active.length + toRet stage
  | .read stage active => 5 + 8 * active.length + toRet stage
  | .rearm stage active => 4 + 8 * active.length + toRet stage
  | .handler _ active => 4 + 8 * active.length
  | .setFlag => 2
  | .swap => 1
  | .functors .. | .callback .. => 7
  | .clearFlag => 6
  | .returned => 0

/-- A call of a function has begun and not returned. -/
def inCallback : LoopPc ι F → ℕ
  | .callback .. => 1
  | _ => 0

/-- **The statements until `left` more functions were called**: two for each of
them, and the way to the next round, if the current one has too few. -/
def toCall (left : ℕ) (pc : LoopPc ι F) : ℕ :=
  2 * left + inCallback pc + if left ≤ (round pc).length then 0 else toRound pc

/-- The tests of the wake-up channel's `handle_events` go forward, and at most one
of them calls something. -/
theorem toRound_handleWakeUp (h : s.ReadsOnly) {stage : Channel.HandlePc} (hs : stage ≠ .ret)
    (active : List (ActiveChannel ι)) :
    toRound (s.handleWakeUp stage active) < toRound (.wakeUp stage active : LoopPc ι F)
      ∧ round (s.handleWakeUp stage active) = []
      ∧ inCallback (s.handleWakeUp stage active) = 0 := by
  unfold handleWakeUp
  cases stage with
  | hup =>
    unfold Channel.handleEvents
    rw [h.close]
    by_cases hr : s.wakeUpChannel.revent.has epollHup ∧ ¬ s.wakeUpChannel.revent.has epollIn
    · rw [if_pos hr]
      exact ⟨by simp only [toRound, toRet]; omega, rfl, rfl⟩
    · rw [if_neg hr]
      exact ⟨by simp only [toRound, toRet]; omega, rfl, rfl⟩
  | err =>
    unfold Channel.handleEvents
    rw [h.error, ite_self]
    exact ⟨by simp only [toRound, toRet]; omega, rfl, rfl⟩
  | read =>
    unfold Channel.handleEvents
    cases hr : (if s.wakeUpChannel.revent.has epollIn then s.wakeUpChannel.readHandler else none)
    · exact ⟨by simp only [toRound, toRet]; omega, rfl, rfl⟩
    · exact ⟨by simp only [toRound, toRet]; omega, rfl, rfl⟩
  | write =>
    unfold Channel.handleEvents
    rw [h.write, ite_self]
    exact ⟨by simp only [toRound, toRet]; omega, rfl, rfl⟩
  | ret => exact absurd rfl hs

/-- Outside the rounds, the next one is waited for. -/
theorem toCall_of_round {left : ℕ} {pc : LoopPc ι F} (h : round pc = []) (hleft : 0 < left) :
    toCall left pc = 2 * left + inCallback pc + toRound pc := by
  have hnil : ¬ left ≤ (round pc).length := by
    rw [h]
    exact Nat.not_le.mpr hleft
  unfold toCall
  rw [if_neg hnil]

/-- Outside the rounds nothing is called. -/
theorem toCall_lt_of_round {left : ℕ} {pc pc' : LoopPc ι F} (h : round pc = [])
    (h' : round pc' = []) (hc : inCallback pc' = 0) (hleft : 0 < left)
    (hlt : toRound pc' < toRound pc) : toCall left pc' < toCall left pc := by
  rw [toCall_of_round h hleft, toCall_of_round h' hleft, hc]
  omega

/-- A queued function is called by the statement that appends it to the calls. -/
theorem ran_concat (s : EventLoop ι F) (x : Execution F) :
    ((s.executed ++ [x]).filter (·.queued)).map (·.callback)
      = s.ran ++ if x.queued then [x.callback] else [] := by
  cases hx : x.queued <;> simp [ran, hx]

/-- **Each statement of the loop's thread is one less**, as long as fewer than
`n` functions were called, and that many were queued. -/
theorem toCall_lt {n : ℕ} (h : s.ReadsOnly) (hq : n ≤ s.ran.length + s.waiting.length)
    (hn : s.ran.length < n) (hs : s.Advances s') :
    toCall (n - s'.ran.length) s'.pc < toCall (n - s.ran.length) s.pc := by
  have hleft : 0 < n - s.ran.length := Nat.sub_pos_of_lt hn
  cases hs with
  | test hpc =>
    rw [hpc]
    cases s.quit with
    | true => exact toCall_lt_of_round rfl rfl rfl hleft (by simp [toRound])
    | false => exact toCall_lt_of_round rfl rfl rfl hleft (by simp [toRound])
  | poll hpc =>
    rw [hpc]
    exact toCall_lt_of_round rfl rfl rfl hleft (by simp only [toRound]; omega)
  | nextNil hpc =>
    rw [hpc]
    exact toCall_lt_of_round rfl rfl rfl hleft (by simp [toRound])
  | nextWakeUp hpc =>
    rw [hpc]
    exact toCall_lt_of_round rfl rfl rfl hleft
      (by simp only [toRound, toRet, List.length_cons]; omega)
  | nextOther hpc =>
    rw [hpc]
    exact toCall_lt_of_round rfl rfl rfl hleft (by simp only [toRound, List.length_cons]; omega)
  | wakeUpRet hpc =>
    rw [hpc]
    exact toCall_lt_of_round rfl rfl rfl hleft (by simp only [toRound, toRet]; omega)
  | wakeUp hpc hne =>
    obtain ⟨hlt, hround, hcall⟩ := toRound_handleWakeUp h hne _
    rw [hpc]
    exact toCall_lt_of_round rfl hround hcall hleft hlt
  | read hpc =>
    rw [hpc]
    exact toCall_lt_of_round rfl rfl rfl hleft (by simp only [toRound]; omega)
  | rearm hpc =>
    rw [hpc]
    exact toCall_lt_of_round rfl rfl rfl hleft (by simp only [toRound]; omega)
  | handler hpc =>
    rw [hpc]
    exact toCall_lt_of_round rfl rfl rfl hleft (by simp only [toRound]; omega)
  | setFlag hpc =>
    rw [hpc]
    exact toCall_lt_of_round rfl rfl rfl hleft (by simp [toRound])
  | swap hpc =>
    -- the round has everything that is waiting, so no other is needed
    have hround : n - s.ran.length ≤ s.pendingFunctions.length := by
      have hwaiting : s.waiting = s.pendingFunctions := by rw [waiting, hpc]; rfl
      rw [hwaiting] at hq
      omega
    rw [hpc, toCall_of_round rfl hleft]
    show 2 * (n - s.ran.length) + 0
        + (if n - s.ran.length ≤ s.pendingFunctions.length then 0 else 7) < _
    rw [if_pos hround]
    exact Nat.lt_succ_self _
  | @execute fs i cb hpc hcb =>
    obtain ⟨hlt, -⟩ := List.getElem?_eq_some_iff.mp hcb
    have hran := congrArg List.length (s.ran_concat ⟨cb, s.curThreadId, true⟩)
    rw [if_pos rfl, List.length_append, List.length_singleton] at hran
    show toCall (n - (((s.executed ++ [_]).filter _).map _).length) _ < _
    rw [hran, hpc]
    simp only [toCall, inCallback, round, toRound, List.length_drop]
    split <;> split <;> omega
  | @functorsEnd fs i hpc hcb =>
    have hdrop : fs.drop i = [] := List.drop_eq_nil_of_le (List.getElem?_eq_none_iff.mp hcb)
    rw [hpc]
    exact toCall_lt_of_round hdrop rfl rfl hleft (by simp [toRound])
  | callback hpc =>
    rw [hpc]
    exact Nat.add_lt_add_right (Nat.lt_succ_self (2 * (n - s.ran.length))) _
  | clearFlag hpc =>
    rw [hpc]
    exact toCall_lt_of_round rfl rfl rfl hleft (by simp [toRound])

/-- A channel that is reported costs eight statements. -/
theorem toCall_report {left : ℕ} (hleft : 0 < left) (active : List (ActiveChannel ι))
    (c : ActiveChannel ι) : toCall left (.poll (active ++ [c]) : LoopPc ι F)
      ≤ toCall left (.poll active : LoopPc ι F) + 8 := by
  rw [toCall_of_round rfl hleft, toCall_of_round rfl hleft]
  simp only [inCallback, toRound, List.length_append, List.length_singleton]
  omega

/-- What the poll reports costs eight statements at most; nothing that another
thread does costs any. -/
theorem toCall_le {n : ℕ} (hn : s.ran.length < n) (he : isStep e = false)
    (hs : s.Moves e s') :
    toCall (n - s'.ran.length) s'.pc
      ≤ toCall (n - s.ran.length) s.pc + if isReport e then 8 else 0 := by
  have hleft : 0 < n - s.ran.length := Nat.sub_pos_of_lt hn
  cases hs with
  | loop hpc ht =>
    rw [hpc]
    exact le_refl _
  | queueInLoop cb ht => exact le_refl _
  | runInLoop cb ht =>
    refine le_of_eq ?_
    unfold EventLoop.runInLoop
    split
    · show toCall (n - (((s.executed ++ [_]).filter _).map _).length) _ = _
      rw [ran_concat, if_neg Bool.false_ne_true, List.append_nil]
      rfl
    · rfl
  | wakeUp ht => exact le_refl _
  | deliverWakeUp hpc hc hr =>
    rw [hpc]
    exact toCall_report hleft _ _
  | deliver i hpc =>
    rw [hpc]
    exact toCall_report hleft _ _
  | advance ht hs => cases he

/-- The bound does not depend on where the loop's thread stands. -/
theorem toCall_bound (left : ℕ) (pc : LoopPc ι F) :
    toCall left pc ≤ 2 * left + 8 * (reported pc).length + 12 := by
  unfold toCall
  cases pc with
  | wakeUp stage active =>
    have hstage : toRet stage ≤ 7 := by cases stage <;> decide
    simp only [inCallback, toRound, reported]
    split <;> omega
  | read stage active =>
    have hstage : toRet stage ≤ 7 := by cases stage <;> decide
    simp only [inCallback, toRound, reported]
    split <;> omega
  | rearm stage active =>
    have hstage : toRet stage ≤ 7 := by cases stage <;> decide
    simp only [inCallback, toRound, reported]
    split <;> omega
  | _ =>
    simp only [inCallback, toRound, reported, List.length_nil]
    split <;> omega

/-! ## What was queued gets called -/

/-- What was called stays called. -/
theorem Moves.ran_prefix (hs : s.Moves e s') : s.ran <+: s'.ran := by
  cases hs with
  | runInLoop cb ht =>
    unfold EventLoop.runInLoop
    split
    · show _ <+: ((s.executed ++ [_]).filter _).map _
      rw [ran_concat]
      exact List.prefix_append _ _
    · exact List.prefix_refl _
  | advance ht hs =>
    cases hs with
    | execute hpc hcb =>
      show _ <+: ((s.executed ++ [_]).filter _).map _
      rw [ran_concat]
      exact List.prefix_append _ _
    | _ => exact List.prefix_refl _
  | _ => exact List.prefix_refl _

/-- **What a run keeps while `n` functions are to be called**: that many were
queued. -/
structure Owing (n : ℕ) (s : EventLoop ι F) : Prop where
  reads : s.ReadsOnly
  queued : n ≤ s.ran.length + s.waiting.length

/-- No event takes a function back. -/
theorem Owing.moves {n : ℕ} (h : Owing n s) (hs : s.Moves e s') : Owing n s' := by
  refine ⟨h.reads.moves hs, h.queued.trans ?_⟩
  have hstream := congrArg List.length hs.stream
  simp only [List.length_append] at hstream
  simp only [waiting, List.length_append]
  omega

/-- **What was queued, and what of it was called.** -/
theorem ran_waiting {tr : List (LoopEvent ι F)}
    (h : (machine ι F t fd).exec (machine ι F t fd).init tr = some s) :
    s.curThreadId = t ∧ s.ReadsOnly ∧ s.ran ++ s.waiting = queued t tr := by
  refine Machine.exec_induction (motive := fun tr s => s.curThreadId = t ∧ s.ReadsOnly
    ∧ s.ran ++ s.waiting = queued t tr) ⟨rfl, readsOnly_new t fd, rfl⟩ ?_ h
  rintro tr s e s' - hs ⟨ht, hr, hq⟩
  have hm : s.Moves e s' := .of_step hs
  subst ht
  refine ⟨hm.curThreadId, hr.moves hm, ?_⟩
  rw [queued_append, ← hq, waiting, waiting, ← List.append_assoc, ← List.append_assoc]
  exact hm.stream

/-- The calls of a state are the first of those of every later one. -/
theorem ran_prefix_of_exec {tr : List (LoopEvent ι F)}
    (h : (machine ι F t fd).exec s tr = some s') : s.ran <+: s'.ran :=
  Machine.exec_invariant (I := fun u => s.ran <+: u.ran)
    (fun _ _ _ hi hs => hi.trans (Moves.ran_prefix (.of_step hs))) h (List.prefix_refl _)

/-- Once as many functions were called as had been queued by then, they are the
ones that had been queued. -/
theorem queued_prefix_ran {tr₁ tr₂ : List (LoopEvent ι F)}
    (h : (machine ι F t fd).exec (machine ι F t fd).init (tr₁ ++ tr₂) = some s)
    (hn : (queued t tr₁).length ≤ s.ran.length) : queued t tr₁ <+: s.ran := by
  obtain ⟨-, -, hq⟩ := ran_waiting h
  rw [queued_append] at hq
  refine List.prefix_of_prefix_length_le (List.prefix_append _ (queued t tr₂)) ?_ hn
  rw [← hq]
  exact List.prefix_append _ _

/-- **A queued function is called in time.** If, after the first part of a run,
the loop's thread takes more statements than two for each function that waits,
eight for each channel that was reported or is reported in the second part, and
twelve besides, then all that was queued in the first part was called, in its
order, whatever was queued in the second. -/
theorem called_within {tr₁ tr₂ : List (LoopEvent ι F)}
    (h₁ : (machine ι F t fd).exec (machine ι F t fd).init tr₁ = some s)
    (h₂ : (machine ι F t fd).exec s tr₂ = some s')
    (hcount : 2 * s.waiting.length + 8 * ((reported s.pc).length + tr₂.countP isReport) + 12
      < tr₂.countP isStep) :
    queued t tr₁ <+: (s'.executed.filter (·.queued)).map (·.callback) := by
  obtain ⟨-, hreads, hq⟩ := ran_waiting h₁
  have hlength := congrArg List.length hq
  rw [List.length_append] at hlength
  have hbound := toCall_bound ((queued t tr₁).length - s.ran.length) s.pc
  have hlt : toCall ((queued t tr₁).length - s.ran.length) s.pc + 8 * tr₂.countP isReport
      < tr₂.countP isStep := by omega
  obtain ⟨tr₃, tr₄, u, rfl, hu, hu', -, hgoal⟩ := Machine.exists_prefix_of_lt_count
    (I := Owing (queued t tr₁).length) (P := fun _ _ => True)
    (Q := fun s => (queued t tr₁).length ≤ s.ran.length) (p := isStep) (q := isReport) (c := 8)
    (μ := fun s => toCall ((queued t tr₁).length - s.ran.length) s.pc)
    (fun s e s' hi _ _ hs => hi.moves (.of_step hs))
    (fun s e s' hi hQ _ _ hs he => by
      cases Moves.of_step hs with
      | advance ht hs => exact toCall_lt hi.reads hi.queued (Nat.not_le.mp hQ) hs
      | _ => cases he)
    (fun s e s' hi hQ _ _ hs he => toCall_le (Nat.not_le.mp hQ) he (.of_step hs))
    h₂ (Machine.along_of_forall fun _ _ => trivial) ⟨hreads, hlength.ge⟩ hlt
  have hexec : (machine ι F t fd).exec (machine ι F t fd).init (tr₁ ++ (tr₃ ++ tr₄))
      = some s' := by
    rw [Machine.exec_append, h₁, Option.bind_some, h₂]
  exact queued_prefix_ran hexec (hgoal.trans (ran_prefix_of_exec hu').length_le)

/-- A callback is queued while the loop sleeps, and another one while it wakes up. -/
theorem called_within_sleeping :
    ∃ s : EventLoop Unit ℕ, (machine Unit ℕ 0 3).exec (machine Unit ℕ 0 3).init
        ([.loop, .step, .queueInLoop 1 10] ++ (.wakeUp 1 :: .deliverWakeUp :: .queueInLoop 2 20
          :: List.replicate 23 .step)) = some s
      ∧ [10] <+: (s.executed.filter (·.queued)).map (·.callback) := by
  have hrun : ((machine Unit ℕ 0 3).exec (machine Unit ℕ 0 3).init
      ([.loop, .step, .queueInLoop 1 10] ++ (.wakeUp 1 :: .deliverWakeUp :: .queueInLoop 2 20
        :: List.replicate 23 .step))).isSome = true := by decide +kernel
  obtain ⟨s, hs⟩ := Option.isSome_iff_exists.mp hrun
  obtain ⟨s₁, h₁, h₂⟩ := Option.bind_eq_some_iff.mp ((Machine.exec_append ..).symm.trans hs)
  have hcount : ∀ u : EventLoop Unit ℕ, (machine Unit ℕ 0 3).exec (machine Unit ℕ 0 3).init
      [.loop, .step, .queueInLoop 1 10] = some u →
      2 * u.waiting.length + 8 * ((reported u.pc).length + 1) + 12 < 23 := by
    rintro u ⟨⟩
    decide
  exact ⟨s, hs, called_within h₁ h₂ (hcount s₁ h₁)⟩

/-! ## What is under way is enough -/

/-- The event is a statement of the loop's thread, a write to the eventfd, or the
report of it; and the poll does not return before it has reported something. -/
def Unaided (s : EventLoop ι F) : LoopEvent ι F → Prop
  | .step => s.pc ≠ .poll []
  | .wakeUp _ | .deliverWakeUp => True
  | _ => False

/-- **A loop that runs.** `quit_` is false, and `loop` has not returned. -/
structure Running (s : EventLoop ι F) : Prop where
  entered : s.pc ≠ .entry
  inside : s.pc ≠ .returned
  quit : s.quit = false

/-- **A loop that runs goes on.** -/
theorem Running.moves (h : s.Running) (hs : s.Moves e s') : s'.Running := by
  cases hs with
  | loop hpc ht => exact absurd hpc h.entered
  | runInLoop cb ht =>
    unfold EventLoop.runInLoop
    split
    · exact ⟨h.entered, h.inside, h.quit⟩
    · exact ⟨h.entered, h.inside, h.quit⟩
  | deliverWakeUp hpc hc hr => exact ⟨by simp, by simp, h.quit⟩
  | deliver i hpc => exact ⟨by simp, by simp, h.quit⟩
  | advance ht hs =>
    cases hs with
    | test hpc =>
      have hpc' : (if s.quit then .returned else .poll [] : LoopPc ι F) = .poll [] :=
        if_neg (by simp [h.quit])
      exact ⟨by simp [hpc'], by simp [hpc'], h.quit⟩
    | wakeUp hpc hne =>
      refine ⟨?_, ?_, h.quit⟩
      · show s.handleWakeUp _ _ ≠ _
        unfold handleWakeUp
        split <;> simp
      · show s.handleWakeUp _ _ ≠ _
        unfold handleWakeUp
        split <;> simp
    | _ => exact ⟨by simp, by simp, h.quit⟩
  | _ => exact ⟨h.entered, h.inside, h.quit⟩

/-- After the call of `loop` the loop runs: `quit_` is never set. -/
theorem running_of_loop {tr : List (LoopEvent ι F)}
    (h : (machine ι F t fd).exec (machine ι F t fd).init tr = some s)
    (hloop : LoopEvent.loop ∈ tr) : s.Running := by
  refine Machine.exec_induction (motive := fun tr s => LoopEvent.loop ∈ tr → s.Running)
    (fun hl => absurd hl List.not_mem_nil) ?_ h hloop
  rintro tr s e s' - hs ih hl
  rcases List.mem_append.mp hl with hl | hl
  · exact (ih hl).moves (.of_step hs)
  · cases List.mem_singleton.mp hl
    have hm : s.Moves .loop s' := .of_step hs
    cases hm with
    | loop hpc ht => exact ⟨by simp, by simp, rfl⟩

/-- Its thread has a next statement. -/
theorem Running.exists_advance (h : s.Running) : ∃ s', s.advance = some s' := by
  unfold advance
  split
  case h_1 hpc => exact absurd hpc h.entered
  case h_17 hpc => exact absurd hpc h.inside
  case h_14 => split <;> exact ⟨_, rfl⟩
  all_goals exact ⟨_, rfl⟩

/-- The places of the loop's thread from which it goes to sleep. -/
def toSleep : LoopPc ι F → ℕ
  | .functors .. | .callback .. | .clearFlag | .test | .poll [] => 9
  | _ => 0

/-- What it costs to be woken up, if the current round has not all of the next `left`
functions. -/
def sleepCost (left : ℕ) (pc : LoopPc ι F) : ℕ :=
  if left ≤ (round pc).length then 0 else toSleep pc

/-- A thread that does not go to sleep need not be woken up. -/
theorem sleepCost_of_awake {left : ℕ} {pc : LoopPc ι F} (h : toSleep pc = 0) :
    sleepCost left pc = 0 := by
  unfold sleepCost
  rw [h, ite_self]

/-- Outside the rounds it goes to sleep from where it is. -/
theorem sleepCost_of_round {left : ℕ} {pc : LoopPc ι F} (h : round pc = []) (hleft : 0 < left) :
    sleepCost left pc = toSleep pc := by
  have hnil : ¬ left ≤ (round pc).length := by
    rw [h]
    exact Nat.not_le.mpr hleft
  unfold sleepCost
  rw [if_neg hnil]

/-- The loop sleeps once a round. -/
theorem sleepCost_le {n : ℕ} (hr : s.Running) (hq : n ≤ s.ran.length + s.waiting.length)
    (hn : s.ran.length < n) (hs : s.Advances s') :
    sleepCost (n - s'.ran.length) s'.pc ≤ sleepCost (n - s.ran.length) s.pc := by
  have hleft : 0 < n - s.ran.length := Nat.sub_pos_of_lt hn
  cases hs with
  | test hpc =>
    have hpc' : (if s.quit then .returned else .poll [] : LoopPc ι F) = .poll [] :=
      if_neg (by simp [hr.quit])
    rw [hpc', hpc]
    exact le_refl _
  | wakeUp hpc hne =>
    refine (Nat.le_of_eq (sleepCost_of_awake ?_)).trans (Nat.zero_le _)
    show toSleep (s.handleWakeUp _ _) = 0
    unfold handleWakeUp
    split <;> rfl
  | swap hpc =>
    have hround : n - s.ran.length ≤ s.pendingFunctions.length := by
      have hwaiting : s.waiting = s.pendingFunctions := by rw [waiting, hpc]; rfl
      rw [hwaiting] at hq
      omega
    exact (Nat.le_of_eq (if_pos hround)).trans (Nat.zero_le _)
  | @execute fs i cb hpc hcb =>
    obtain ⟨hlt, -⟩ := List.getElem?_eq_some_iff.mp hcb
    have hran := congrArg List.length (s.ran_concat ⟨cb, s.curThreadId, true⟩)
    rw [if_pos rfl, List.length_append, List.length_singleton] at hran
    show sleepCost (n - (((s.executed ++ [_]).filter _).map _).length) _ ≤ _
    rw [hran, hpc]
    simp only [sleepCost, round, toSleep, List.length_drop]
    split <;> split <;> omega
  | @functorsEnd fs i hpc hcb =>
    have hdrop : fs.drop i = [] := List.drop_eq_nil_of_le (List.getElem?_eq_none_iff.mp hcb)
    have hround : round (.functors fs i : LoopPc ι F) = [] := hdrop
    rw [hpc, sleepCost_of_round hround hleft]
    exact Nat.le_of_eq (sleepCost_of_round rfl hleft)
  | callback hpc =>
    rw [hpc]
    exact le_refl _
  | clearFlag hpc =>
    rw [hpc]
    exact le_refl _
  | _ => exact (Nat.le_of_eq (sleepCost_of_awake rfl)).trans (Nat.zero_le _)

/-- **What is left to do**, without the help of an event that is not under way. -/
def toCallUnaided (n : ℕ) (s : EventLoop ι F) : ℕ :=
  toCall (n - s.ran.length) s.pc + sleepCost (n - s.ran.length) s.pc + s.writing.card

/-- **What a run keeps in which only what is under way happens**: `fs` are the
functions that were queued. -/
structure Draining (fd : Fd) (fs : List F) (s : EventLoop ι F) : Prop where
  running : s.Running
  reads : s.ReadsOnly
  wakeUp : WakeUpInv fd s
  calls : s.ran ++ s.waiting = fs

/-- Nothing that is under way queues a function. -/
theorem Draining.moves {fs : List F} (h : Draining fd fs s) (he : s.Unaided e)
    (hs : s.Moves e s') : Draining fd fs s' := by
  have hin : s.CallsInside e := by
    cases e with
    | queueInLoop => exact absurd he id
    | _ => exact trivial
  have hnone : queued s.curThreadId [e] = [] := by
    cases e with
    | queueInLoop => exact absurd he id
    | runInLoop => exact absurd he id
    | _ => rfl
  refine ⟨h.running.moves hs, h.reads.moves hs, h.wakeUp.moves hin hs, ?_⟩
  have hstream := hs.stream
  rw [hnone, List.append_nil, List.append_assoc, List.append_assoc] at hstream
  exact hstream.trans h.calls

/-- The poll can report the wake-up channel while the eventfd is readable. -/
theorem WakeUpInv.exists_deliver (h : WakeUpInv fd s) (hpc : s.pc = .poll [])
    (hc : 0 < s.counter) : ∃ s', s.step .deliverWakeUp = some s' := by
  obtain ⟨a, ha, hor⟩ := h.armed
  rw [hpc] at hor
  have htrue : a = true := hor.resolve_right List.not_mem_nil
  subst htrue
  have hfd : s.wakeUpChannel.fd = fd := congrArg Channel.fd h.channel
  have hr : EpollSet.Reportable Channel.readEvent epollIn := by decide
  rw [← hfd] at ha
  have hdel := EpollSet.deliver_of_armed ha rfl hr
  unfold step
  rw [hpc]
  dsimp only
  rw [if_pos hc, hdel]
  exact ⟨_, rfl⟩

/-- **Something that is under way can happen, and leaves less to do.** -/
theorem Draining.exists_step {fs : List F} {n : ℕ} (h : Draining fd fs s)
    (hfs : fs.length = n) (hn : s.ran.length < n) :
    ∃ e s', s.Unaided e ∧ s.step e = some s' ∧ s'.toCallUnaided n < s.toCallUnaided n := by
  have hq : n ≤ s.ran.length + s.waiting.length := by
    rw [← List.length_append, h.calls, hfs]
  rcases s.writing.eq_empty_or_nonempty with hw | ⟨u, hu⟩
  · by_cases hpc : s.pc = .poll []
    · -- asleep: the function that waits was announced
      have hpending : s.pendingFunctions ≠ [] := by
        rintro hnil
        rw [waiting, hpc, hnil] at hq
        exact absurd (hq.trans (Nat.le_of_eq (Nat.add_zero _))) (Nat.not_le.mpr hn)
      have hcounter : 0 < s.counter := by
        rcases h.wakeUp.pending with hb | hb | hc | hb
        · rw [hpc] at hb
          exact absurd hb Bool.false_ne_true
        · exact absurd hb hpending
        · exact hc
        · exact absurd hw hb.ne_empty
      obtain ⟨s', hs⟩ := h.wakeUp.exists_deliver hpc hcounter
      refine ⟨.deliverWakeUp, s', trivial, hs, ?_⟩
      have hleft : 0 < n - s.ran.length := Nat.sub_pos_of_lt hn
      have hm : s.Moves .deliverWakeUp s' := .of_step hs
      obtain ⟨hran, hpc', hwriting⟩ : s'.ran = s.ran ∧ s'.pc = .poll ([] ++ [.wakeUp])
          ∧ s'.writing = s.writing := by
        cases hm with
        | deliverWakeUp hpc' hc hr =>
          cases hpc.symm.trans hpc'
          exact ⟨rfl, rfl, rfl⟩
      have hreport := toCall_report (F := F) hleft [] (.wakeUp : ActiveChannel ι)
      have hsleep : sleepCost (n - s.ran.length) (.poll [] : LoopPc ι F) = 9 :=
        sleepCost_of_round rfl hleft
      have hawake : sleepCost (n - s.ran.length)
          (.poll ([] ++ [.wakeUp]) : LoopPc ι F) = 0 := sleepCost_of_awake rfl
      unfold toCallUnaided
      rw [hran, hpc', hwriting, hawake, hpc, hsleep]
      omega
    · obtain ⟨s', hs⟩ := h.running.exists_advance
      have ht : s.curThreadId ∉ s.writing := by
        rw [hw]
        exact Finset.notMem_empty _
      have hm : s.Advances s' := .of_advance hs
      refine ⟨.step, s', hpc, (if_neg ht).trans hs, ?_⟩
      have hwriting : s'.writing = s.writing := by cases hm <;> rfl
      have hcall := toCall_lt h.reads hq hn hm
      have hsleep := sleepCost_le h.running hq hn hm
      unfold toCallUnaided
      rw [hwriting]
      omega
  · refine ⟨.wakeUp u, s.wakeUpCurThread u, trivial, if_pos hu, ?_⟩
    exact Nat.add_lt_add_left (Finset.card_erase_lt_of_mem hu) _

/-- **A queued function needs no help.** After every run in which `loop` was called,
and in which its thread called `queue_in_loop` only from its event handlers and its
pending functions, the loop's thread can get to where everything that was queued has
been called, in its order, without an event that is not under way: it takes its own
statements, the writes to the eventfd that are due, and the report of the wake-up
channel, and it never leaves the poll before that has reported something. -/
theorem called_unaided {tr : List (LoopEvent ι F)}
    (h : (machine ι F t fd).exec (machine ι F t fd).init tr = some s)
    (hin : (machine ι F t fd).Along CallsInside (machine ι F t fd).init tr)
    (hloop : LoopEvent.loop ∈ tr) :
    ∃ tr' s', (machine ι F t fd).exec s tr' = some s'
      ∧ (machine ι F t fd).Along Unaided s tr' ∧ s'.pc ≠ .returned
      ∧ (s'.executed.filter (·.queued)).map (·.callback) = queued t tr := by
  obtain ⟨-, hreads, hq⟩ := ran_waiting h
  have hwake : WakeUpInv fd s := hin.invariant
    (fun _ _ _ hi hc hs => hi.moves hc (.of_step hs)) h (WakeUpInv.new t fd)
  obtain ⟨tr', s', hs', halong, hd, hgoal⟩ := Machine.exists_exec_of_enabled
    (M := machine ι F t fd) (I := Draining fd (queued t tr)) (P := Unaided)
    (Q := fun s => (queued t tr).length ≤ s.ran.length)
    (μ := toCallUnaided (queued t tr).length)
    (fun s hi hQ => by
      obtain ⟨e, s', he, hs, hlt⟩ := hi.exists_step rfl (Nat.not_le.mp hQ)
      exact ⟨e, s', he, hs, hi.moves he (.of_step hs), hlt⟩)
    ⟨running_of_loop h hloop, hreads, hwake, hq⟩
  have hprefix : s'.ran <+: queued t tr := by
    rw [← hd.calls]
    exact List.prefix_append _ _
  exact ⟨tr', s', hs', halong, hd.running.inside, hprefix.eq_of_length_le hgoal⟩

/-- A callback that queues another one while it runs, and a thread that has pushed a
third; neither has written to the eventfd. -/
theorem called_unaided_nested :
    ∃ s s' : EventLoop Unit ℕ, ∃ tr', (machine Unit ℕ 0 3).exec (machine Unit ℕ 0 3).init
        [.loop, .step, .queueInLoop 1 10, .wakeUp 1, .deliverWakeUp, .step, .step, .step, .step,
          .step, .step, .step, .step, .step, .step, .step, .step, .step, .queueInLoop 0 20,
          .queueInLoop 1 30] = some s
      ∧ s.pc = .callback [10] 0 ∧ s.writing = {0, 1}
      ∧ (machine Unit ℕ 0 3).exec s tr' = some s'
      ∧ (s'.executed.filter (·.queued)).map (·.callback) = [10, 20, 30] := by
  have hrun : (machine Unit ℕ 0 3).exec (machine Unit ℕ 0 3).init
      [.loop, .step, .queueInLoop 1 10, .wakeUp 1, .deliverWakeUp, .step, .step, .step, .step,
        .step, .step, .step, .step, .step, .step, .step, .step, .step, .queueInLoop 0 20,
        .queueInLoop 1 30] = some _ := rfl
  obtain ⟨tr', s', hs', -, -, hcalled⟩ := called_unaided hrun (by decide) (by decide)
  exact ⟨_, s', tr', hrun, rfl, by decide, hs', hcalled⟩

end EventLoop
