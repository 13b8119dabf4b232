import Shoot.EventLoop

/-!
# Functions handed to a loop

A function given to `queue_in_loop` waits in `pending_functions_` until the
loop swaps that vector with the local `functors` of a round and calls what it
got, one after the other, outside the mutex. Meanwhile other threads, and the
functions that are being called, may queue more.

Two things are proved. Every queued function is called once, in the order in
which the pushes took the mutex, and on the loop's thread
(`EventLoop.pending_once`): the functions called so far, the rest of the
current round and `pending_functions_` are together what was queued. And no
function is left behind while the loop sleeps (`EventLoop.wakeUp_not_lost`):
when the poll has nothing to report although a function is pending, either the
wake-up channel is armed and its eventfd is readable, or a thread that has
pushed is about to make it so.

The second one has an exception, which the first does not need. The loop's own
thread does not wake itself up unless it is in a round, because a round
follows every batch of events; but none follows what it does before `loop`.
-/

namespace EventLoop

variable {ι F : Type*} {t : ThreadId} {fd : Fd} {s s' : EventLoop ι F} {e : LoopEvent ι F}

/-! ## Once, in order, on the loop's thread -/

/-- The callbacks queued in a run of the loop of thread `t`, in the order in
which they took `mutex_`: those given to `queue_in_loop`, and those given to
`run_in_loop` on another thread. -/
def queued (t : ThreadId) : List (LoopEvent ι F) → List F
  | [] => []
  | .queueInLoop _ cb :: tr => cb :: queued t tr
  | .runInLoop u cb :: tr => if t = u then queued t tr else cb :: queued t tr
  | _ :: tr => queued t tr

theorem queued_append (tr₁ tr₂ : List (LoopEvent ι F)) :
    queued t (tr₁ ++ tr₂) = queued t tr₁ ++ queued t tr₂ := by
  induction tr₁ with
  | nil => rfl
  | cons e tr ih =>
    cases e with
    | runInLoop u cb =>
      show (if t = u then _ else _) = (if t = u then _ else _) ++ _
      split
      · exact ih
      · exact congrArg (cb :: ·) ih
    | queueInLoop u cb => exact congrArg (cb :: ·) ih
    | _ => exact ih

/-- The callbacks of the current round that have not been called. -/
def round : LoopPc ι F → List F
  | .functors fs i => fs.drop i
  | .callback fs i => fs.drop (i + 1)
  | _ => []

/-- The queued callbacks that were called. -/
def ran (s : EventLoop ι F) : List F := (s.executed.filter (·.queued)).map (·.callback)

/-- No event changes the thread of the loop. -/
theorem Moves.curThreadId (h : s.Moves e s') : s'.curThreadId = s.curThreadId := by
  cases h with
  | runInLoop cb ht =>
    unfold EventLoop.runInLoop
    split <;> rfl
  | advance ht h => cases h <;> rfl
  | _ => rfl

/-- A callback is pushed after all that were queued before. -/
theorem stream_queueInLoop (s : EventLoop ι F) (u : ThreadId) (cb : F) :
    (s.queueInLoop u cb).ran ++ round (s.queueInLoop u cb).pc
        ++ (s.queueInLoop u cb).pendingFunctions
      = s.ran ++ round s.pc ++ s.pendingFunctions ++ [cb] :=
  (List.append_assoc _ _ _).symm

/-- **What each event does to the queued callbacks**: it pushes one, or moves
some closer to being called. -/
theorem Moves.stream (h : s.Moves e s') :
    s'.ran ++ round s'.pc ++ s'.pendingFunctions
      = s.ran ++ round s.pc ++ s.pendingFunctions ++ queued s.curThreadId [e] := by
  cases h with
  | queueInLoop cb ht => exact stream_queueInLoop s _ cb
  | @runInLoop u cb ht =>
    unfold EventLoop.runInLoop
    show _ = _ ++ (if s.curThreadId = u then [] else [cb])
    by_cases hu : s.curThreadId = u
    · rw [if_pos hu, if_pos (by simp [isInCurLoop, hu]), List.append_nil]
      simp [ran]
    · rw [if_neg hu, if_neg (by simp [isInCurLoop, hu])]
      exact stream_queueInLoop s u cb
  | loop hpc => simp [ran, round, hpc, queued]
  | wakeUp ht => exact (List.append_nil _).symm
  | deliverWakeUp hpc hc hr => simp [ran, round, hpc, queued]
  | deliver i hpc => simp [ran, round, hpc, queued]
  | advance ht h =>
    refine Eq.trans ?_ (List.append_nil _).symm
    cases h with
    | test hpc =>
      rw [hpc]
      show _ ++ round (if _ then _ else _) ++ _ = _
      split <;> rfl
    | wakeUp hpc hs =>
      rw [hpc]
      show _ ++ round (s.handleWakeUp _ _) ++ _ = _
      unfold handleWakeUp
      split <;> rfl
    | swap hpc => simp [ran, round, hpc]
    | @execute fs i cb hpc hcb =>
      obtain ⟨hlt, hget⟩ := List.getElem?_eq_some_iff.mp hcb
      simp only [ran, round, hpc, List.filter_append, List.map_append]
      rw [List.drop_eq_getElem_cons hlt, hget]
      simp
    | @functorsEnd fs i hpc hcb =>
      have hdrop : fs.drop i = [] := List.drop_eq_nil_of_le (List.getElem?_eq_none_iff.mp hcb)
      rw [hpc]
      show _ = _ ++ fs.drop i ++ _
      rw [hdrop]
      rfl
    | _ hpc => rw [hpc]; rfl

/-- A callback runs on the thread of the loop: in a round, or in a call of
`run_in_loop` that found itself there. -/
theorem Moves.executed (h : s.Moves e s')
    (hs : ∀ x ∈ s.executed, x.thread = s.curThreadId) :
    ∀ x ∈ s'.executed, x.thread = s.curThreadId := by
  have hlast : ∀ x : Execution F, x.thread = s.curThreadId →
      ∀ y ∈ s.executed ++ [x], y.thread = s.curThreadId := by
    intro x hx y hy
    rcases List.mem_append.mp hy with hy | hy
    · exact hs y hy
    · exact List.mem_singleton.mp hy ▸ hx
  cases h with
  | runInLoop cb ht =>
    unfold EventLoop.runInLoop
    split
    · rename_i hu
      exact hlast _ (beq_iff_eq.mp hu).symm
    · exact hs
  | advance ht h =>
    cases h with
    | execute hpc hcb => exact hlast _ rfl
    | _ => exact hs
  | _ => exact hs

/-- What is called in place is called for a thread that finds itself on the loop. -/
theorem Moves.executed_queued (h : s.Moves e s') (hown : ∀ cb, e ≠ .runInLoop s.curThreadId cb)
    (hs : ∀ x ∈ s.executed, x.queued = true) : ∀ x ∈ s'.executed, x.queued = true := by
  cases h with
  | @runInLoop u cb ht =>
    have hu : s.isInCurLoop u = false := beq_eq_false_iff_ne.mpr fun hu => hown cb (hu ▸ rfl)
    unfold EventLoop.runInLoop
    rw [if_neg (by rw [hu]; exact Bool.false_ne_true)]
    exact hs
  | advance ht h =>
    cases h with
    | execute hpc hcb =>
      intro x hx
      rcases List.mem_append.mp hx with hx | hx
      · exact hs x hx
      · rw [List.mem_singleton.mp hx]
    | _ => exact hs
  | _ => exact hs

/-- The loop's own thread does not call `run_in_loop`, so each function was queued. -/
theorem executed_eq_ran {tr : List (LoopEvent ι F)}
    (h : (machine ι F t fd).exec (machine ι F t fd).init tr = some s)
    (hown : ∀ cb, .runInLoop t cb ∉ tr) : s.executed.map (·.callback) = s.ran := by
  have key : (∀ cb, .runInLoop t cb ∉ tr) →
      s.curThreadId = t ∧ ∀ x ∈ s.executed, x.queued = true := by
    refine Machine.exec_induction (motive := fun tr s => (∀ cb, .runInLoop t cb ∉ tr) →
      s.curThreadId = t ∧ ∀ x ∈ s.executed, x.queued = true) ?_ ?_ h
    · exact fun _ => ⟨rfl, fun x hx => by cases hx⟩
    · intro tr s e s' _ hs ih hown
      obtain ⟨ht, hx⟩ := ih fun cb hcb => hown cb (List.mem_append_left _ hcb)
      have hm : s.Moves e s' := .of_step hs
      refine ⟨hm.curThreadId.trans ht, hm.executed_queued (fun cb he => hown cb ?_) hx⟩
      rw [← ht, ← he]
      exact List.mem_append_right _ List.mem_cons_self
  unfold ran
  rw [List.filter_eq_self.mpr (key hown).2]

/-- No queued function is lost or called again, and the loop's thread calls them. -/
theorem ran_of_exec {tr : List (LoopEvent ι F)}
    (h : (machine ι F t fd).exec (machine ι F t fd).init tr = some s) :
    s.ran ++ round s.pc ++ s.pendingFunctions = queued t tr ∧ ∀ x ∈ s.executed, x.thread = t := by
  have key : s.curThreadId = t ∧ s.ran ++ round s.pc ++ s.pendingFunctions = queued t tr
      ∧ ∀ x ∈ s.executed, x.thread = t := by
    refine Machine.exec_induction (motive := fun tr s => s.curThreadId = t
      ∧ s.ran ++ round s.pc ++ s.pendingFunctions = queued t tr
      ∧ ∀ x ∈ s.executed, x.thread = t) ?_ ?_ h
    · exact ⟨rfl, rfl, fun x hx => by cases hx⟩
    · rintro tr s e s' - hs ⟨ht, hq, hx⟩
      have hm : s.Moves e s' := .of_step hs
      subst ht
      refine ⟨hm.curThreadId, ?_, hm.executed hx⟩
      rw [hm.stream, hq, queued_append]
  exact key.2

/-- **Queued callbacks run exactly once, in order, on the loop's thread.** In
every run, the queued callbacks that were called, then what is left of the
current round, then `pending_functions_`, are all the callbacks that were
queued, in the order in which they took the mutex; and no callback ran on
another thread than the loop's. -/
theorem pending_once {tr : List (LoopEvent ι F)}
    (h : (machine ι F t fd).exec (machine ι F t fd).init tr = some s) :
    (s.executed.filter (·.queued)).map (·.callback) ++ round s.pc ++ s.pendingFunctions
        = queued t tr
      ∧ ∀ x ∈ s.executed, x.thread = t := ran_of_exec h

/-- A callback that queues another one while it runs, on the loop of thread 0;
the second round has not started. -/
theorem pending_once_nested :
    ∃ s : EventLoop Unit ℕ, (machine Unit ℕ 0 3).exec (machine Unit ℕ 0 3).init
        [.loop, .step, .queueInLoop 1 10, .step, .step, .step, .step, .step, .runInLoop 2 30,
          .queueInLoop 0 20, .wakeUp 0, .step, .step] = some s
      ∧ s.executed = [⟨10, 0, true⟩] ∧ s.pendingFunctions = [30, 20]
      ∧ ∀ x ∈ s.executed, x.thread = 0 := by
  have hrun : (machine Unit ℕ 0 3).exec (machine Unit ℕ 0 3).init
      [.loop, .step, .queueInLoop 1 10, .step, .step, .step, .step, .step, .runInLoop 2 30,
        .queueInLoop 0 20, .wakeUp 0, .step, .step] = some _ := rfl
  exact ⟨_, hrun, rfl, rfl, (pending_once hrun).2⟩

/-! ## No lost wake-up -/

/-- The wake-up channel was reported, and `wake_up_response` has not enabled
it again. -/
def WakeUpDue : LoopPc ι F → Prop
  | .poll active | .next active | .handler _ active => .wakeUp ∈ active
  | .wakeUp stage active => stage = .hup ∨ stage = .err ∨ stage = .read ∨ .wakeUp ∈ active
  | .read .. | .rearm .. => True
  | _ => False

/-- The loop takes `pending_functions_` before it polls again. -/
def beforeSwap : LoopPc ι F → Bool
  | .poll (_ :: _) | .next _ | .wakeUp .. | .read .. | .rearm .. | .handler ..
  | .setFlag | .swap => true
  | _ => false

/-- The loop is in a round, with `handle_pending_functions` set. -/
def inRound : LoopPc ι F → Bool
  | .swap | .functors .. | .callback .. | .clearFlag => true
  | _ => false

/-- The wake-up channel of a loop, as the constructor and `wake_up_response`
leave it. -/
def wakeUpChannelOn (fd : Fd) (revent : EventMask) : Channel WakeUpCallback where
  event := Channel.readEvent
  revent := revent
  fd := fd
  status := .add
  readHandler := some .wakeUpResponse
  writeHandler := none
  errorHandler := none
  closeHandler := none

/-- **What keeps a loop from sleeping on a pending function.** -/
structure WakeUpInv (fd : Fd) (s : EventLoop ι F) : Prop where
  /-- The wake-up channel wants to read, and has no callback but one. -/
  channel : s.wakeUpChannel = wakeUpChannelOn fd s.wakeUpChannel.revent
  /-- Its registration is armed, or it is about to be. -/
  armed : ∃ a, s.epoll.interest fd = some ⟨Channel.readEvent, (), a⟩
    ∧ (a = true ∨ WakeUpDue s.pc)
  /-- It is only ever reported as readable. -/
  revent : WakeUpDue s.pc → s.wakeUpChannel.revent = epollIn
  /-- The flag is set in a round. -/
  flag : s.handlePendingFunctions = inRound s.pc
  /-- A pending function is about to be taken, or a wake-up is on its way. -/
  pending : beforeSwap s.pc = true ∨ s.pendingFunctions = [] ∨ 0 < s.counter
    ∨ s.writing.Nonempty
  /-- The loop's thread writes to its eventfd from inside a call. -/
  own : s.curThreadId ∈ s.writing → calling s.pc = true

/-- The loop has not been entered. -/
def beforeLoop : LoopPc ι F → Bool
  | .entry => true
  | _ => false

/-- The event is not a call of `queue_in_loop` that the loop's own thread
makes before `loop`. -/
def CallsInside (s : EventLoop ι F) : LoopEvent ι F → Prop
  | .queueInLoop u _ => s.curThreadId = u → beforeLoop s.pc = false
  | _ => True

instance (s : EventLoop ι F) : DecidablePred s.CallsInside
  | .queueInLoop .. => inferInstanceAs (Decidable (_ → _))
  | .loop | .runInLoop .. | .wakeUp _ | .deliverWakeUp | .deliver _ | .step => isTrue trivial

theorem beforeSwap_poll_concat (active : List (ActiveChannel ι)) (c : ActiveChannel ι) :
    beforeSwap (.poll (active ++ [c]) : LoopPc ι F) = true := by
  cases active <;> rfl

/-- The wake-up channel's `handle_events`, for the event that is reported of
it: the tests lead to `wake_up_response`. -/
theorem handleWakeUp_of_due (hc : s.wakeUpChannel = wakeUpChannelOn fd epollIn)
    (active : List (ActiveChannel ι)) :
    s.handleWakeUp .hup active = .wakeUp .err active
      ∧ s.handleWakeUp .err active = .wakeUp .read active
      ∧ s.handleWakeUp .read active = .read .write active := by
  have hin : epollIn.has epollIn = true := by decide
  have hhup : epollIn.has epollHup = false := by decide
  have herr : epollIn.has epollErr = false := by decide
  simp [handleWakeUp, hc, Channel.handleEvents, wakeUpChannelOn, hin, hhup, herr]

/-- After `wake_up_response` nothing else is called. -/
theorem handleWakeUp_write {revent : EventMask}
    (hc : s.wakeUpChannel = wakeUpChannelOn fd revent) (active : List (ActiveChannel ι)) :
    s.handleWakeUp .write active = .wakeUp .ret active := by
  have hw : (wakeUpChannelOn fd revent).handleEvents .write = (none, .ret) := by
    show (if _ then none else none, _) = _
    rw [ite_self]
  unfold handleWakeUp
  rw [hc, hw]

namespace WakeUpInv

/-- A new loop has an armed wake-up channel. -/
theorem new (t : ThreadId) (fd : Fd) :
    WakeUpInv fd (EventLoop.new t fd : EventLoop ι F) where
  channel := by
    show (Channel.enableRead _ _ _).2 = wakeUpChannelOn fd (Channel.enableRead _ _ _).2.revent
    rw [Channel.enableRead_snd]
    unfold wakeUpChannelOn
    congr 1
    exact BitVec.zero_or
  armed := by
    refine ⟨true, ?_, Or.inl rfl⟩
    show (Channel.enableRead _ _ _).1.interest fd = _
    rw [Channel.enableRead_interest (iff_of_false (fun h => by cases h) fun h => by cases h)]
    refine (Function.update_self ..).trans (congrArg some ?_)
    congr 1
    exact BitVec.zero_or
  revent hd := hd.elim
  flag := rfl
  pending := Or.inr (Or.inl rfl)
  own hw := absurd hw (Finset.notMem_empty _)

/-- A statement that leaves the eventfd, the registration, the channel and the
pending functions alone. -/
theorem of_pc (h : WakeUpInv fd s) {pc : LoopPc ι F} {flag quit : Bool}
    {executed : List (Execution F)} (ht : s.curThreadId ∉ s.writing)
    (hdue : WakeUpDue pc ↔ WakeUpDue s.pc) (hflag : flag = inRound pc)
    (hswap : beforeSwap s.pc = true → beforeSwap pc = true) :
    WakeUpInv fd { s with
      handlePendingFunctions := flag, quit := quit, executed := executed, pc := pc } where
  channel := h.channel
  armed := by
    obtain ⟨a, ha, hor⟩ := h.armed
    exact ⟨a, ha, hor.imp_right hdue.mpr⟩
  revent hd := h.revent (hdue.mp hd)
  flag := hflag
  pending := h.pending.imp_left hswap
  own hw := absurd hw ht

/-- A push by another thread, or from inside the loop, is followed by a wake-up
or by a swap. -/
theorem queueInLoop (h : WakeUpInv fd s) {u : ThreadId} (cb : F) (hu : s.MayCall u)
    (hin : s.curThreadId = u → beforeLoop s.pc = false) : WakeUpInv fd (s.queueInLoop u cb) where
  channel := h.channel
  armed := h.armed
  revent := h.revent
  flag := h.flag
  pending := by
    by_cases hw : (!s.isInCurLoop u || s.handlePendingFunctions) = true
    · refine Or.inr (Or.inr (Or.inr ?_))
      show (if _ then _ else _ : Finset ThreadId).Nonempty
      rw [if_pos hw]
      exact ⟨u, Finset.mem_insert_self _ _⟩
    · -- the loop's own thread, and not in a round: it is in an event handler
      refine Or.inl ?_
      simp only [Bool.or_eq_true, Bool.not_eq_true', not_or, Bool.not_eq_false,
        Bool.not_eq_true] at hw
      have hcall := hu.2 hw.1
      have hentry := hin (beq_iff_eq.mp hw.1)
      have hround := h.flag.symm.trans hw.2
      show beforeSwap s.pc = true
      cases hpc : s.pc <;> rw [hpc] at hcall hentry hround
      case handler => rfl
      case entry => exact (Bool.false_ne_true hentry.symm).elim
      case callback => exact (Bool.false_ne_true hround.symm).elim
      all_goals exact (Bool.false_ne_true hcall).elim
  own := by
    intro hw
    by_cases hc : s.curThreadId = u
    · exact hu.2 (beq_iff_eq.mpr hc)
    · refine h.own ?_
      change s.curThreadId ∈ (if _ then _ else _ : Finset ThreadId) at hw
      split at hw
      · exact (Finset.mem_insert.mp hw).resolve_left hc
      · exact hw

/-- **Each statement of the loop's thread.** -/
theorem advances (h : WakeUpInv fd s) (ht : s.curThreadId ∉ s.writing) (hs : s.Advances s') :
    WakeUpInv fd s' := by
  have hflag := h.flag
  cases hs with
  | test hpc =>
    rw [hpc] at hflag
    cases s.quit with
    | true => exact h.of_pc ht (by rw [hpc]; rfl) hflag (by rw [hpc]; exact id)
    | false => exact h.of_pc ht (by rw [hpc]; simp [WakeUpDue]) hflag (by rw [hpc]; nofun)
  | poll hpc =>
    exact h.of_pc ht (by rw [hpc]; rfl) (hflag.trans (by rw [hpc]; rfl)) fun _ => rfl
  | nextNil hpc =>
    exact h.of_pc ht (by rw [hpc]; simp [WakeUpDue]) (hflag.trans (by rw [hpc]; rfl)) fun _ => rfl
  | nextWakeUp hpc =>
    exact h.of_pc ht (by rw [hpc]; simp [WakeUpDue]) (hflag.trans (by rw [hpc]; rfl)) fun _ => rfl
  | nextOther hpc =>
    exact h.of_pc ht (by rw [hpc]; simp [WakeUpDue]) (hflag.trans (by rw [hpc]; rfl)) fun _ => rfl
  | wakeUpRet hpc =>
    exact h.of_pc ht (by rw [hpc]; simp [WakeUpDue]) (hflag.trans (by rw [hpc]; rfl)) fun _ => rfl
  | @wakeUp stage active hpc hne =>
    rw [hpc] at hflag
    -- before the read handler was called the reported event is the one the channel waits for
    have hdue : stage = .hup ∨ stage = .err ∨ stage = .read →
        s.wakeUpChannel = wakeUpChannelOn fd epollIn := by
      intro hst
      rw [← h.revent (by rw [hpc]; unfold WakeUpDue; tauto)]
      exact h.channel
    cases stage with
    | hup =>
      rw [(handleWakeUp_of_due (hdue (Or.inl rfl)) active).1]
      exact h.of_pc ht (by rw [hpc]; simp [WakeUpDue]) hflag fun _ => rfl
    | err =>
      rw [(handleWakeUp_of_due (hdue (Or.inr (Or.inl rfl))) active).2.1]
      exact h.of_pc ht (by rw [hpc]; simp [WakeUpDue]) hflag fun _ => rfl
    | read =>
      rw [(handleWakeUp_of_due (hdue (Or.inr (Or.inr rfl))) active).2.2]
      exact h.of_pc ht (by rw [hpc]; simp [WakeUpDue]) hflag fun _ => rfl
    | write =>
      rw [handleWakeUp_write h.channel active]
      exact h.of_pc ht (by rw [hpc]; simp [WakeUpDue]) hflag fun _ => rfl
    | ret => exact absurd rfl hne
  | read hpc =>
    rw [hpc] at hflag
    have hd : WakeUpDue s.pc := by
      rw [hpc]
      exact trivial
    obtain ⟨a, ha, -⟩ := h.armed
    exact ⟨h.channel, ⟨a, ha, Or.inr trivial⟩, fun _ => h.revent hd, hflag, Or.inl rfl,
      fun hw => absurd hw ht⟩
  | @rearm stage active hpc =>
    rw [hpc] at hflag
    have hd : WakeUpDue s.pc := by
      rw [hpc]
      exact trivial
    obtain ⟨a, ha, -⟩ := h.armed
    have hch := h.channel
    have hfd : s.wakeUpChannel.fd = fd := congrArg Channel.fd hch
    have hk : Channel.Known s.epoll s.wakeUpChannel := by
      rw [hch]
      exact iff_of_true rfl (congrArg Option.isSome ha)
    have hev : s.wakeUpChannel.event ||| Channel.readEvent = Channel.readEvent := by
      rw [hch]
      exact BitVec.or_self
    have hint := Channel.enableRead_interest (p := ()) hk
    have hsnd := Channel.enableRead_snd s.epoll () s.wakeUpChannel
    rw [hev] at hint hsnd
    refine ⟨?_, ⟨true, ?_, Or.inl rfl⟩, fun _ => ?_, hflag, Or.inl rfl, fun hw => absurd hw ht⟩
    · show (Channel.enableRead _ _ _).2 = wakeUpChannelOn fd (Channel.enableRead _ _ _).2.revent
      rw [hsnd, hch]
      rfl
    · show (Channel.enableRead _ _ _).1.interest fd = _
      rw [hint, hfd]
      exact Function.update_self ..
    · show (Channel.enableRead _ _ _).2.revent = _
      rw [hsnd]
      exact h.revent hd
  | handler hpc =>
    exact h.of_pc ht (by rw [hpc]; rfl) (hflag.trans (by rw [hpc]; rfl)) fun _ => rfl
  | setFlag hpc => exact h.of_pc ht (by rw [hpc]; rfl) rfl fun _ => rfl
  | swap hpc =>
    rw [hpc] at hflag
    obtain ⟨a, ha, hor⟩ := h.armed
    rw [hpc] at hor
    exact ⟨h.channel, ⟨a, ha, hor⟩, fun hd => hd.elim, hflag, Or.inr (Or.inl rfl),
      fun hw => absurd hw ht⟩
  | execute hpc hcb =>
    exact h.of_pc ht (by rw [hpc]; rfl) (hflag.trans (by rw [hpc]; rfl)) (by rw [hpc]; exact id)
  | functorsEnd hpc hcb =>
    exact h.of_pc ht (by rw [hpc]; rfl) (hflag.trans (by rw [hpc]; rfl)) (by rw [hpc]; exact id)
  | callback hpc =>
    exact h.of_pc ht (by rw [hpc]; rfl) (hflag.trans (by rw [hpc]; rfl)) (by rw [hpc]; exact id)
  | clearFlag hpc => exact h.of_pc ht (by rw [hpc]; rfl) rfl (by rw [hpc]; exact id)

/-- **Each event**, but for a call of `queue_in_loop` before the loop. -/
theorem moves (h : WakeUpInv fd s) (hin : s.CallsInside e) (hs : s.Moves e s') :
    WakeUpInv fd s' := by
  cases hs with
  | loop hpc ht =>
    exact h.of_pc ht (by rw [hpc]; rfl) (h.flag.trans (by rw [hpc]; rfl)) (by rw [hpc]; exact id)
  | queueInLoop cb ht => exact h.queueInLoop cb ht hin
  | @runInLoop u cb ht =>
    unfold EventLoop.runInLoop
    split
    · exact ⟨h.channel, h.armed, h.revent, h.flag, h.pending, h.own⟩
    · rename_i hu
      exact h.queueInLoop cb ht fun hc => absurd (beq_iff_eq.mpr hc) hu
  | @wakeUp u ht =>
    refine ⟨h.channel, h.armed, h.revent, h.flag, Or.inr (Or.inr (Or.inl ?_)), fun hw => ?_⟩
    · show 0 < if _ then _ else _
      split
      · exact Nat.succ_pos _
      · have : maxCounter = 2 ^ 64 - 2 := rfl
        omega
    · exact h.own (Finset.mem_of_mem_erase hw)
  | @deliverWakeUp active r hpc hc hr =>
    have hflag := h.flag
    rw [hpc] at hflag
    obtain ⟨x, hx, -, -, -, hK⟩ := EpollSet.deliver_eq_some hr
    have hfd : s.wakeUpChannel.fd = fd := by rw [h.channel]; rfl
    obtain ⟨a, ha, -⟩ := h.armed
    rw [hfd, ha] at hx
    cases hx
    have hd : WakeUpDue (.poll (active ++ [.wakeUp]) : LoopPc ι F) :=
      List.mem_append_right _ (List.mem_singleton_self _)
    refine ⟨?_, ⟨!Channel.readEvent.has epollOneshot, ?_, Or.inr hd⟩, fun _ => rfl, hflag,
      Or.inl (beforeSwap_poll_concat _ _), fun hw => ?_⟩
    · show Channel.mk _ _ _ _ _ _ _ _ = _
      rw [h.channel]
      rfl
    · show r.1 fd = _
      rw [hK, hfd]
      exact Function.update_self ..
    · have := h.own hw
      rw [hpc] at this
      exact absurd this Bool.false_ne_true
  | @deliver active i hpc =>
    have hflag := h.flag
    rw [hpc] at hflag
    have ht : s.curThreadId ∉ s.writing := fun hw => by
      have := h.own hw
      rw [hpc] at this
      exact Bool.false_ne_true this
    exact h.of_pc ht (by rw [hpc]; simp [WakeUpDue]) hflag fun _ => beforeSwap_poll_concat _ _
  | advance ht hs => exact h.advances ht hs

end WakeUpInv

/-- **No wake-up is lost.** In every run in which the loop's thread calls
`queue_in_loop` only from its event handlers and its pending functions, and
the other threads whenever they like: when the loop sleeps in the poll
although a function is pending, either the eventfd is readable and the wake-up
channel armed for reading, so that the poll can report it, or another thread
has pushed its function and is about to write to the eventfd. -/
theorem wakeUp_not_lost {tr : List (LoopEvent ι F)}
    (h : (machine ι F t fd).exec (machine ι F t fd).init tr = some s)
    (hin : (machine ι F t fd).Along CallsInside (machine ι F t fd).init tr)
    (hpc : s.pc = .poll []) (hp : s.pendingFunctions ≠ []) :
    (0 < s.counter
        ∧ (∃ i, s.epoll.interest fd = some i ∧ i.armed = true ∧ i.events.has epollIn = true)
        ∧ ∃ s', s.step .deliverWakeUp = some s' ∧ s'.pc = .poll [.wakeUp])
      ∨ ∃ u ∈ s.writing, u ≠ s.curThreadId := by
  have hi : WakeUpInv fd s := hin.invariant
    (fun _ _ _ hi hc hs => hi.moves hc (.of_step hs)) h (WakeUpInv.new t fd)
  rcases hi.pending with hb | hb | hc | ⟨u, hu⟩
  · rw [hpc] at hb
    exact absurd hb Bool.false_ne_true
  · exact absurd hb hp
  · obtain ⟨a, ha, hor⟩ := hi.armed
    rw [hpc] at hor
    have htrue : a = true := hor.resolve_right (List.not_mem_nil)
    subst htrue
    refine Or.inl ⟨hc, ⟨_, ha, rfl, by decide⟩, ?_⟩
    have hfd : s.wakeUpChannel.fd = fd := congrArg Channel.fd hi.channel
    have hr : EpollSet.Reportable Channel.readEvent epollIn := by decide
    have hint : s.epoll.interest s.wakeUpChannel.fd = some ⟨Channel.readEvent, (), true⟩ := by
      rw [hfd]
      exact ha
    have hdel := EpollSet.deliver_of_armed hint rfl hr
    unfold step
    rw [hpc]
    dsimp only
    rw [if_pos hc, hdel]
    exact ⟨_, rfl, rfl⟩
  · refine Or.inr ⟨u, hu, fun he => ?_⟩
    have hcall := hi.own (he ▸ hu)
    rw [hpc] at hcall
    exact absurd hcall Bool.false_ne_true

/-- A thread has pushed while the loop sleeps, and has not written yet. -/
theorem wakeUp_not_lost_writing :
    ∃ s : EventLoop Unit ℕ, (machine Unit ℕ 0 3).exec (machine Unit ℕ 0 3).init
        [.loop, .step, .queueInLoop 1 10] = some s
      ∧ s.counter = 0 ∧ ∃ u ∈ s.writing, u ≠ s.curThreadId := by
  have hrun : (machine Unit ℕ 0 3).exec (machine Unit ℕ 0 3).init
      [.loop, .step, .queueInLoop 1 10] = some _ := rfl
  refine ⟨_, hrun, rfl, ?_⟩
  exact (wakeUp_not_lost hrun (by decide) rfl (by decide)).resolve_left fun hc =>
    absurd hc.1 (by decide)

end EventLoop
