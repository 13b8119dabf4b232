import Shoot.EventLoopPending
import Shoot.Simulation
import Shoot.TCPServerProgress
import Shoot.TCPServerRoundRobin

/-!
# The loops of a server are event loops

The threads of a server and the event loop are modelled apart: in `Shoot.TCPServer` with
what the callbacks do, and without the wake-up channel; in `Shoot.EventLoop` for one loop,
whose callbacks may be anything. Here the two meet. What happens to one loop in a run of
the server is a run of an `EventLoop` (`TCPServer.loop_simulated`): the callbacks of its
channels are its event handlers, `run_in_loop` is the acceptor's hand-over, by the thread
of the base loop, and `new_event` is a pending function. The wake-up channel is not
reported in this run, and the polls of the server that find nothing are polls that are
interrupted.

So what holds in the runs of an event loop holds of a server. In particular no connection
is lost on its way to its loop, or entered twice, or overtaken by a later one
(`TCPServer.handed_over`).
-/

/-- Where the thread of a loop stands, for an `EventLoop`: in the handler of a channel,
wherever that is; or in a pending function. The functions of a round are destroyed when
`handle_pending_functions` was reset. -/
def ServerPc.loopPc : ServerPc → LoopPc ChannelPtr ConnId
  | .poll active => .poll (active.map .other)
  | .next active => .next (active.map .other)
  | .handle d | .read _ _ d | .accept _ _ d => .handler d.channel (d.active.map .other)
  | .swap => .swap
  | .functors fs i => .functors fs i
  | .put _ fs i | .arm _ fs i => .callback fs i
  | .drop _ => .test

/-- How many statements of `loop` and `do_pending_functions` a statement of the thread
is. -/
def ServerPc.loopSteps : ServerPc → ℕ
  | .poll _ | .next (_ :: _) | .swap | .arm _ _ _ | .drop [] => 1
  | .next [] => 2
  | .handle d => if d.stage = .ret then 1 else 0
  | .functors fs i => if i < fs.length then 1 else 2
  | .read _ _ _ | .accept _ _ _ | .put _ _ _ | .drop (_ :: _) => 0

/-- The connection that the acceptor is about to hand over. -/
def ServerPc.handing : ServerPc → List ConnId
  | .accept (.runInLoop c) _ _ => [c]
  | _ => []

namespace TCPServer

/-- What the acceptor's call of `run_in_loop` is to the loop `l`, if it is made on the
thread of `l'`. -/
def handOverEvents (s : TCPServer) (l l' : LoopId) : List (LoopEvent ChannelPtr ConnId) :=
  match (s.loops l').pc with
  | .accept (.runInLoop c) _ _ =>
    if (s.heap c).loop = l then
      .runInLoop l' c :: if l' = l then [] else [.wakeUp l']
    else []
  | _ => []

/-- **What an event of the server is to the loop `l`.** -/
def loopEvents (l : LoopId) (s : TCPServer) : ServerEvent → List (LoopEvent ChannelPtr ConnId)
  | .deliver l' fd mask =>
    if l' = l then
      (((s.loops l).epoll.interest.deliver fd mask).map fun r => .deliver r.2).toList
    else []
  | .read _ _ | .accept _ _ | .flags _ _ => []
  | .step l' =>
    s.handOverEvents l l' ++ if l' = l then List.replicate (s.loops l).pc.loopSteps .step else []

/-- **The loop `l` of a server is in the state of an event loop.** -/
structure RunsAs (l : LoopId) (s : TCPServer) (t : EventLoop ChannelPtr ConnId) : Prop where
  pc : t.pc = (s.loops l).pc.loopPc
  pending : t.pendingFunctions = (s.loops l).pending
  thread : t.curThreadId = l
  flag : t.handlePendingFunctions = EventLoop.inRound t.pc
  quit : t.quit = false
  writing : t.writing = ∅

/-- The connections of a loop, in the order in which they were constructed. -/
def members (s : TCPServer) (l : LoopId) : List ConnId :=
  (List.range s.fresh).filter fun c => (s.heap c).loop = l

/-- The connection of the loop that the acceptor is about to hand over. -/
def offered (s : TCPServer) (l : LoopId) : List ConnId :=
  (s.loops 0).pc.handing.filter fun c => (s.heap c).loop = l

variable {s s' : TCPServer} {t t' : EventLoop ChannelPtr ConnId} {l l' : LoopId} {wakeUpFd : Fd}

/-- The machine of an event loop, with the channels and the functions of a server. -/
abbrev loopMachine (l : LoopId) (wakeUpFd : Fd) :
    Machine (EventLoop ChannelPtr ConnId) (LoopEvent ChannelPtr ConnId) :=
  EventLoop.machine ChannelPtr ConnId l wakeUpFd

/-! ## The steps -/

/-- A statement of the event loop, which is not about to write to its own eventfd. -/
theorem exec_one (hw : t.writing = ∅) (ha : t.advance = some t') :
    (loopMachine l wakeUpFd).exec t (List.replicate 1 .step) = some t' := by
  have hs : t.step .step = some t' :=
    (if_neg (by rw [hw]; exact Finset.notMem_empty _)).trans ha
  show (t.step .step).bind some = _
  rw [hs]
  rfl

/-- Two of them. -/
theorem exec_two (t₁ : EventLoop ChannelPtr ConnId) (hw : t.writing = ∅)
    (ha : t.advance = some t₁) (hw₁ : t₁.writing = ∅) (ha₁ : t₁.advance = some t') :
    (loopMachine l wakeUpFd).exec t (List.replicate 2 .step) = some t' := by
  rw [List.replicate_succ', Machine.exec_append, exec_one hw ha]
  exact exec_one hw₁ ha₁

/-- The loop is left as it was. -/
theorem RunsAs.stay (h : RunsAs l s t) (hpc : (s'.loops l).pc.loopPc = (s.loops l).pc.loopPc)
    (hp : (s'.loops l).pending = (s.loops l).pending) : RunsAs l s' t :=
  ⟨h.pc.trans hpc.symm, h.pending.trans hp.symm, h.thread, h.flag, h.quit, h.writing⟩

/-- A statement that is none of the event loop. -/
theorem RunsAs.silent (h : RunsAs l s t) {pc pc' : ServerPc} (hpc : (s.loops l).pc = pc)
    (hpc' : (s'.loops l).pc = pc') (hp : (s'.loops l).pending = (s.loops l).pending)
    (hsame : pc'.loopPc = pc.loopPc) (hsteps : pc.loopSteps = 0) :
    ∃ t', (loopMachine l wakeUpFd).exec t (List.replicate (s.loops l).pc.loopSteps .step)
      = some t' ∧ RunsAs l s' t' := by
  refine ⟨t, ?_, h.stay (by rw [hpc, hpc', hsame]) hp⟩
  rw [hpc, hsteps]
  rfl

/-- A statement that only takes the thread on, in the event loop as well. -/
theorem RunsAs.go (h : RunsAs l s t) {pc pc' : ServerPc} (hpc : (s.loops l).pc = pc)
    (hpc' : (s'.loops l).pc = pc') (hp : (s'.loops l).pending = (s.loops l).pending)
    (hround : EventLoop.inRound pc'.loopPc = EventLoop.inRound pc.loopPc)
    (hsteps : pc.loopSteps = 1)
    (hadv : t.pc = pc.loopPc → t.advance = some { t with pc := pc'.loopPc }) :
    ∃ t', (loopMachine l wakeUpFd).exec t (List.replicate (s.loops l).pc.loopSteps .step)
      = some t' ∧ RunsAs l s' t' := by
  have ht : t.pc = pc.loopPc := h.pc.trans (congrArg _ hpc)
  rw [hpc, hsteps]
  refine ⟨_, exec_one h.writing (hadv ht), (congrArg ServerPc.loopPc hpc').symm,
    h.pending.trans hp.symm, h.thread, ?_, h.quit, h.writing⟩
  rw [h.flag, ht]
  exact hround.symm

/-- A test of `handle_events` leaves the thread in the handler. -/
theorem Tested.loopPc {d : Dispatch} {pc : ServerPc} (h : s.Tested d pc) :
    pc.loopPc = (ServerPc.handle d).loopPc := by
  cases h <;> rfl

/-- **A statement of the loop's thread**, other than the hand-over. -/
theorem Advances.loop_own (hm : s.Advances l s') (hp : Placed s) (h : RunsAs l s t) :
    ∃ t', (loopMachine l wakeUpFd).exec t (List.replicate (s.loops l).pc.loopSteps .step)
      = some t' ∧ RunsAs l s' t' := by
  have hpc₀ := h.pc
  cases hm with
  | poll hpc =>
    exact h.go hpc (pc_goto ..) (pending_goto ..) rfl rfl fun ht => by
      rw [EventLoop.advance, ht]
      rfl
  | next hpc =>
    exact h.go hpc (pc_goto ..) (pending_goto ..) rfl rfl fun ht => by
      rw [EventLoop.advance, ht]
      rfl
  | dropNil hpc =>
    exact h.go hpc (pc_goto ..) (pending_goto ..) rfl rfl fun ht => by
      rw [EventLoop.advance, ht, h.quit]
      rfl
  | handleRet hpc hd =>
    exact h.go hpc (pc_goto ..) (pending_goto ..) rfl (if_pos hd) fun ht => by
      rw [EventLoop.advance, ht]
      rfl
  | arm hpc =>
    exact h.go hpc (pc_goto ..) (by simp) rfl rfl fun ht => by
      rw [EventLoop.advance, ht]
      rfl
  | nextNil hpc =>
    -- the flag is set first
    rw [hpc] at hpc₀ ⊢
    refine ⟨{ t with handlePendingFunctions := true, pc := .swap },
      exec_two { t with pc := .setFlag } h.writing ?_ h.writing rfl, ?_⟩
    · rw [EventLoop.advance, hpc₀]
      rfl
    · exact ⟨(congrArg ServerPc.loopPc (pc_goto s l .swap)).symm,
        h.pending.trans (pending_goto ..).symm, h.thread, rfl, h.quit, h.writing⟩
  | swap hpc =>
    have hflag := h.flag
    rw [hpc] at hpc₀ ⊢
    rw [hpc₀] at hflag
    refine ⟨{ t with pendingFunctions := [], pc := .functors t.pendingFunctions 0 },
      exec_one h.writing ?_, ?_, ?_, h.thread, hflag, h.quit, h.writing⟩
    · rw [EventLoop.advance, hpc₀]
      rfl
    · rw [pc_goto, h.pending]
      rfl
    · rw [pending_goto, pending_takePending, if_pos rfl]
  | @functor fs i c hpc hc =>
    have hflag := h.flag
    rw [hpc] at hpc₀ ⊢
    rw [hpc₀] at hflag
    have hlt : i < fs.length := (List.getElem?_eq_some_iff.mp hc).1
    rw [ServerPc.loopSteps, if_pos hlt]
    refine ⟨{ t with
      executed := t.executed ++ [⟨c, t.curThreadId, true⟩], pc := .callback fs i },
      exec_one h.writing ?_, ?_, ?_, h.thread, hflag, h.quit, h.writing⟩
    · rw [EventLoop.advance, hpc₀]
      simp only [ServerPc.loopPc, hc]
    · rw [pc_goto]
      rfl
    · rw [pending_goto, h.pending]
  | @functorsEnd fs i hpc hc =>
    rw [hpc] at hpc₀ ⊢
    have hge : ¬ i < fs.length := not_lt.mpr (List.getElem?_eq_none_iff.mp hc)
    rw [ServerPc.loopSteps, if_neg hge]
    refine ⟨{ t with handlePendingFunctions := false, pc := .test },
      exec_two { t with pc := .clearFlag } h.writing ?_ h.writing rfl, ?_⟩
    · rw [EventLoop.advance, hpc₀]
      simp only [ServerPc.loopPc, hc]
    · exact ⟨(congrArg ServerPc.loopPc (pc_goto s l (.drop fs))).symm,
        h.pending.trans (pending_goto ..).symm, h.thread, rfl, h.quit, h.writing⟩
  | handle hpc hd =>
    exact h.silent hpc (pc_goto ..) (pending_goto ..) (hp.tested hpc hd).loopPc (if_neg hd)
  | runThere hpc hl' hl =>
    refine h.silent hpc ((pc_queueNewEvent ..).trans (pc_goto ..)) ?_ rfl rfl
    rw [pending_queueNewEvent, if_neg (Ne.symm hl), List.append_nil, pending_goto, loops_retain]
  | acceptPut hpc | put hpc =>
    exact h.silent hpc ((pc_put ..).trans (pc_goto ..)) (by simp) rfl rfl
  | readRelease hpc | dropCallback hpc | dropLocal hpc | drop hpc =>
    exact h.silent hpc (pc_goto ..) (pending_goto ..) rfl rfl
  | readRearm hpc | readClose hpc | readDestroy hpc | unlink hpc _ | unlinkNone hpc _
  | nextLoop hpc | limitClose hpc _ | limit hpc _ | construct hpc | runHere hpc _
  | acceptArm hpc | rearm hpc | acceptRet hpc =>
    exact h.silent hpc (pc_goto ..) (by simp) rfl rfl

/-! ## The hand-over -/

/-- No hand-over where the acceptor is not about to make one. -/
theorem handOverEvents_eq_nil {pc : ServerPc} (hpc : (s.loops l').pc = pc)
    (hne : ∀ c k d, pc ≠ .accept (.runInLoop c) k d) : s.handOverEvents l l' = [] := by
  unfold handOverEvents
  split
  · next c k d h => exact absurd (hpc.symm.trans h) (hne c k d)
  · rfl

/-- A hand-over to the loop, or to another one. -/
theorem handOverEvents_runInLoop {c : ConnId} {k : AcceptCall} {d : Dispatch}
    (hpc : (s.loops l').pc = .accept (.runInLoop c) k d) :
    s.handOverEvents l l' = if (s.heap c).loop = l then
      .runInLoop l' c :: (if l' = l then [] else [.wakeUp l']) else [] := by
  unfold handOverEvents
  rw [hpc]

/-- On the loop's own thread, `run_in_loop` calls the function in place. -/
theorem RunsAs.runHere (h : RunsAs l s t) (wakeUpFd : Fd) :
    ∃ t', (loopMachine l wakeUpFd).exec t (s.handOverEvents l l) = some t' ∧ RunsAs l s t' := by
  by_cases hacc : ∃ c k d, (s.loops l).pc = .accept (.runInLoop c) k d
  · obtain ⟨c, k, d, hpc⟩ := hacc
    rw [handOverEvents_runInLoop hpc]
    split
    · have hown : t.isInCurLoop l = true := beq_iff_eq.mpr h.thread
      have hmay : t.MayCall l := by
        refine ⟨by rw [h.writing]; exact Finset.notMem_empty _, fun _ => ?_⟩
        rw [h.pc, hpc]
        rfl
      refine ⟨{ t with executed := t.executed ++ [⟨c, l, false⟩] }, ?_,
        h.pc, h.pending, h.thread, h.flag, h.quit, h.writing⟩
      rw [if_pos rfl]
      show (if t.MayCall l then some (t.runInLoop l c) else none).bind some = _
      rw [if_pos hmay, EventLoop.runInLoop, if_pos hown]
      rfl
    · exact ⟨t, rfl, h⟩
  · rw [handOverEvents_eq_nil rfl fun c k d hpc => hacc ⟨c, k, d, hpc⟩]
    exact ⟨t, rfl, h⟩

/-- On another thread, it queues the function and wakes the loop up. -/
theorem exec_handOver (hw : t.writing = ∅) (hother : t.isInCurLoop l' = false) (c : ConnId) :
    (loopMachine l wakeUpFd).exec t [.runInLoop l' c, .wakeUp l']
        = some ((t.queueInLoop l' c).wakeUpCurThread l')
      ∧ (t.queueInLoop l' c).writing = {l'} := by
  have hwriting : (t.queueInLoop l' c).writing = {l'} := by
    rw [EventLoop.queueInLoop, hother, hw]
    rfl
  have hmay : t.MayCall l' := by
    refine ⟨by rw [hw]; exact Finset.notMem_empty _, fun hin => ?_⟩
    rw [hother] at hin
    cases hin
  have hqueued : t.step (.runInLoop l' c) = some (t.queueInLoop l' c) := by
    refine (if_pos hmay).trans (congrArg some ?_)
    exact if_neg (by rw [hother]; exact Bool.false_ne_true)
  have hwoken : (t.queueInLoop l' c).step (.wakeUp l')
      = some ((t.queueInLoop l' c).wakeUpCurThread l') :=
    if_pos (by rw [hwriting]; exact Finset.mem_singleton_self l')
  refine ⟨?_, hwriting⟩
  show (t.step (.runInLoop l' c)).bind (fun u => (u.step (.wakeUp l')).bind some) = _
  rw [hqueued, Option.bind_some, hwoken]
  rfl

theorem RunsAs.queue (h : RunsAs l s t) (hl : l' ≠ l) {c : ConnId}
    (hpc : (s'.loops l).pc = (s.loops l).pc)
    (hp : (s'.loops l).pending = (s.loops l).pending ++ [c]) :
    ∃ t', (loopMachine l wakeUpFd).exec t [.runInLoop l' c, .wakeUp l'] = some t'
      ∧ RunsAs l s' t' := by
  have hother : t.isInCurLoop l' = false := by
    refine beq_eq_false_iff_ne.mpr ?_
    rw [h.thread]
    exact hl.symm
  obtain ⟨hexec, hwriting⟩ := exec_handOver h.writing hother c
  refine ⟨_, hexec, h.pc.trans (congrArg _ hpc.symm), ?_, h.thread, h.flag, h.quit, ?_⟩
  · rw [hp, ← h.pending]
    rfl
  · show (t.queueInLoop l' c).writing.erase l' = ∅
    rw [hwriting, Finset.erase_singleton]

/-- **A statement of another thread.** -/
theorem Advances.loop_other (hm : s.Advances l' s') (hl : l' ≠ l) (hp : Placed s)
    (h : RunsAs l s t) :
    ∃ t', (loopMachine l wakeUpFd).exec t (s.handOverEvents l l') = some t' ∧ RunsAs l s' t' := by
  have hpc' : (s'.loops l).pc = (s.loops l).pc := (hm.apart hp hl).2
  have hstay : s.handOverEvents l l' = [] → (s'.loops l).pending = (s.loops l).pending →
      ∃ t', (loopMachine l wakeUpFd).exec t (s.handOverEvents l l') = some t'
        ∧ RunsAs l s' t' := by
    intro hnil hsame
    rw [hnil]
    exact ⟨t, rfl, h.stay (congrArg _ hpc') hsame⟩
  cases hm with
  | @runThere c l'' k d hpc hl'' hne =>
    have hpending : (((s.retain c).goto l' (.accept (.dropLocal c) (k.act (.register c l''))
        d)).queueNewEvent l'' c |>.loops l).pending
        = (s.loops l).pending ++ if l = l'' then [c] else [] := by
      rw [pending_queueNewEvent, pending_goto, loops_retain]
    by_cases hto : l = l''
    · rw [if_pos hto] at hpending
      rw [handOverEvents_runInLoop hpc, if_pos (hl''.trans hto.symm), if_neg hl]
      exact h.queue hl hpc' hpending
    · rw [if_neg hto, List.append_nil] at hpending
      refine hstay ?_ hpending
      rw [handOverEvents_runInLoop hpc, if_neg fun he => hto (he.symm.trans hl'')]
  | @runHere c k d hpc hown =>
    refine hstay ?_ (by simp)
    rw [handOverEvents_runInLoop hpc, if_neg fun he => hl (hown.symm.trans he)]
  | swap hpc =>
    refine hstay (handOverEvents_eq_nil hpc (by simp)) ?_
    rw [pending_goto, pending_takePending, if_neg hl.symm]
  | poll hpc | nextNil hpc | next hpc | handleRet hpc _ | handle hpc _ | readRearm hpc
  | readClose hpc | readDestroy hpc | unlink hpc _ | unlinkNone hpc _ | readRelease hpc
  | nextLoop hpc | limitClose hpc _ | limit hpc _ | construct hpc | acceptPut hpc | acceptArm hpc
  | dropCallback hpc | dropLocal hpc | rearm hpc | acceptRet hpc | functor hpc _
  | functorsEnd hpc _ | put hpc | arm hpc | dropNil hpc | drop hpc =>
    exact hstay (handOverEvents_eq_nil hpc (by simp)) (by simp)

/-! ## The simulation -/

/-- A thread that stays in the handler it is in. -/
theorem loopPc_goto {pc pc' : ServerPc} (hpc : (s.loops l').pc = pc)
    (hsame : pc'.loopPc = pc.loopPc) :
    ((s.goto l' pc').loops l).pc.loopPc = (s.loops l).pc.loopPc := by
  by_cases hl : l = l'
  · rw [hl, pc_goto, hpc, hsame]
  · rw [loops_goto_of_ne s pc' hl]

/-- **An event of the server, as the loop sees it.** -/
theorem Moves.loop_matched {e : ServerEvent} (hm : s.Moves e s') (hp : Placed s)
    (h : RunsAs l s t) :
    ∃ t', (loopMachine l wakeUpFd).exec t (loopEvents l s e) = some t' ∧ RunsAs l s' t' := by
  cases hm with
  | advance ha =>
    rename_i l'
    rw [loopEvents]
    by_cases hl : l' = l
    · subst hl
      obtain ⟨t₁, ht₁, h₁⟩ := h.runHere wakeUpFd
      obtain ⟨t', ht', h'⟩ := ha.loop_own hp h₁
      refine ⟨t', ?_, h'⟩
      rw [if_pos rfl, Machine.exec_append, ht₁]
      exact ht'
    · rw [if_neg hl, List.append_nil]
      exact ha.loop_other hl hp h
  | @deliver l' fd mask active r hpc hr =>
    rw [loopEvents]
    by_cases hl : l' = l
    · subst hl
      have hpc₀ : t.pc = .poll (active.map .other) := by
        rw [h.pc, hpc]
        rfl
      have hflag := h.flag
      rw [hpc₀] at hflag
      rw [if_pos rfl, hr]
      refine ⟨{ t with pc := .poll (active.map .other ++ [.other r.2]) }, ?_, ?_, ?_, h.thread,
        hflag, h.quit, h.writing⟩
      · show (t.step (.deliver r.2)).bind some = _
        rw [EventLoop.step, hpc₀]
        rfl
      · rw [pc_goto, ServerPc.loopPc, List.map_append]
        rfl
      · rw [pending_goto, loops_setRevents, pending_setInterest]
        exact h.pending
    · rw [if_neg hl]
      refine ⟨t, rfl, h.stay ?_ (by simp)⟩
      rw [loops_goto_of_ne _ _ (Ne.symm hl), loops_setRevents, pc_setInterest]
  | @read l' c d n hpc =>
    exact ⟨t, rfl, h.stay (loopPc_goto hpc rfl) (pending_goto ..)⟩
  | @accept l' k d r hpc hr =>
    exact ⟨t, rfl, h.stay (loopPc_goto (s := s.accepted r) hpc rfl) (by simp)⟩
  | @flags l' fd l'' k d hpc hfd =>
    exact ⟨t, rfl, h.stay (loopPc_goto hpc rfl) (pending_goto ..)⟩
  | @noFlags l' fd l'' k d hpc =>
    exact ⟨t, rfl, h.stay (loopPc_goto hpc rfl) (pending_goto ..)⟩

/-- **Each loop of a server is an event loop.** -/
theorem loop_simulation (n : ℕ) (fd : Fd) (others : Finset Fd) (l : LoopId) (wakeUpFd : Fd) :
    (machine n fd others).Simulation (loopMachine l wakeUpFd) [.loop, .step] (loopEvents l)
      (RunsAs l) where
  init := ⟨_, rfl, ⟨rfl, rfl, rfl, rfl, rfl, rfl⟩⟩
  step _ _ _ _ hr hs h := (Moves.of_step hs).loop_matched (reachable_placed hr) h

/-- **What happens to a loop in a run of the server is a run of an event loop.** In every
run, for every loop, the events as they are to this loop are a run of an `EventLoop` after
its call of `loop`; and in the state it ends in, the two threads stand at the same place,
with the same functions pending. -/
theorem loop_simulated {n : ℕ} {fd : Fd} {others : Finset Fd} {tr : List ServerEvent}
    (h : (machine n fd others).exec (machine n fd others).init tr = some s) (l : LoopId)
    (wakeUpFd : Fd) :
    ∃ t, (loopMachine l wakeUpFd).exec (loopMachine l wakeUpFd).init
        ([.loop, .step] ++ (machine n fd others).matching (loopEvents l) tr) = some t
      ∧ RunsAs l s t :=
  (loop_simulation n fd others l wakeUpFd).exec_matching h

/-- The loop of the pool, to which a connection is handed and which puts it. -/
theorem loop_simulated_put :
    ∃ s t, (machine 1 3 ∅).exec (machine 1 3 ∅).init
        (acceptOne 10 ++ List.replicate 4 (.step 1)) = some s
      ∧ (loopMachine 1 4).exec (loopMachine 1 4).init
        [.loop, .step, .runInLoop 0 0, .wakeUp 0, .step, .step, .step, .step, .step] = some t
      ∧ RunsAs 1 s t := by
  have hrun : ((machine 1 3 ∅).exec (machine 1 3 ∅).init
      (acceptOne 10 ++ List.replicate 4 (.step 1))).map (fun s => (s.loops 1).pc)
      = some (.put 0 [0] 0) := by
    decide +kernel
  obtain ⟨s, hs, -⟩ := Option.map_eq_some_iff.mp hrun
  have hevents : (machine 1 3 ∅).matching (loopEvents 1)
      (acceptOne 10 ++ List.replicate 4 (.step 1))
      = [.runInLoop 0 0, .wakeUp 0, .step, .step, .step, .step, .step] := by
    decide +kernel
  obtain ⟨t, ht, hruns⟩ := loop_simulated hs 1 4
  rw [hevents] at ht
  exact ⟨s, t, hs, ht, hruns⟩

/-! ## The way of a connection to its loop -/

open EventLoop (queued queued_append ran_of_exec executed_eq_ran)

/-- Statements of a loop's thread queue nothing. -/
theorem queued_replicate (k : ℕ) :
    queued l (List.replicate k (.step : LoopEvent ChannelPtr ConnId)) = [] := by
  induction k with
  | zero => rfl
  | succ k ih => exact ih

/-- What an event of the server queues to a loop of the pool is what the acceptor hands
over. -/
theorem queued_loopEvents (hp : Placed s) (hl : l ≠ 0) (e : ServerEvent) :
    queued l (loopEvents l s e) = if e = .step 0 then s.offered l else [] := by
  cases e with
  | deliver l' f mask =>
    rw [loopEvents]
    split
    · cases (s.loops l).epoll.interest.deliver f mask <;> rfl
    · rfl
  | step l' =>
    rw [loopEvents, queued_append]
    have hnone : queued l (if l' = l then
        List.replicate (s.loops l).pc.loopSteps (.step : LoopEvent ChannelPtr ConnId)
        else []) = [] := by
      split
      · exact queued_replicate _
      · rfl
    rw [hnone, List.append_nil]
    by_cases hl' : l' = 0
    · subst hl'
      rw [if_pos rfl]
      unfold offered
      by_cases hacc : ∃ c k d, (s.loops 0).pc = .accept (.runInLoop c) k d
      · obtain ⟨c, k, d, hpc⟩ := hacc
        rw [handOverEvents_runInLoop hpc, hpc]
        by_cases hc : (s.heap c).loop = l
        · rw [if_pos hc, if_neg hl.symm]
          show (if l = 0 then _ else _) = _
          rw [if_neg hl]
          simp [ServerPc.handing, hc, queued]
        · rw [if_neg hc]
          simp [ServerPc.handing, hc, queued]
      · rw [handOverEvents_eq_nil rfl fun c k d hpc => hacc ⟨c, k, d, hpc⟩]
        have hnil : (s.loops 0).pc.handing = [] := by
          unfold ServerPc.handing
          split
          · next c k d hpc => exact absurd ⟨c, k, d, hpc⟩ hacc
          · rfl
        rw [hnil]
        rfl
    · rw [if_neg (fun he => hl' (by cases he; rfl)),
        handOverEvents_eq_nil rfl fun c k d hpc => hl' (hp.accept_loop hpc)]
      rfl
  | read _ _ | accept _ _ | flags _ _ => rfl

/-- A statement of the acceptor's thread leaves it with a connection to hand over only where
it has constructed one. -/
theorem Advances.handing (hm : s.Advances l s') :
    (s'.loops l).pc.handing = [] ∨ s'.fresh = s.fresh + 1 := by
  cases hm with
  | construct hpc => exact Or.inr rfl
  | handle hpc hd =>
    refine Or.inl ?_
    rw [pc_goto]
    unfold TCPServer.handle
    split <;> rfl
  | _ => exact Or.inl (by simp [ServerPc.handing])

/-- The acceptor is left with the connection it was about to hand over, until its thread
takes a statement. -/
theorem Moves.handing {e : ServerEvent} (hm : s.Moves e s') (hp : Placed s) (he : e ≠ .step 0) :
    (s'.loops 0).pc.handing = (s.loops 0).pc.handing := by
  have hgoto : ∀ (u : TCPServer) {l' : LoopId} {pc pc' : ServerPc}, u.loops = s.loops →
      (s.loops l').pc = pc → pc.handing = [] → pc'.handing = [] →
      ((u.goto l' pc').loops 0).pc.handing = (s.loops 0).pc.handing := by
    intro u l' pc pc' hu hpc hnil hnil'
    by_cases hl : l' = 0
    · subst hl
      rw [pc_goto, hpc, hnil, hnil']
    · rw [loops_goto_of_ne u pc' (Ne.symm hl), hu]
  cases hm with
  | advance ha =>
    rename_i l'
    have hl' : l' ≠ 0 := fun hl => he (by rw [hl])
    rw [(ha.apart hp hl').2]
  | read n hpc => exact hgoto s rfl hpc rfl rfl
  | accept hpc hr =>
    refine hgoto (s.accepted _) rfl hpc rfl ?_
    unfold afterAccept
    split <;> rfl
  | flags hpc hfd => exact hgoto s rfl hpc rfl rfl
  | noFlags hpc => exact hgoto s rfl hpc rfl rfl
  | @deliver l' fd mask active r hpc hr =>
    by_cases hl : l' = 0
    · subst hl
      rw [pc_goto, hpc]
      rfl
    · rw [loops_goto_of_ne _ _ (Ne.symm hl), loops_setRevents, pc_setInterest]

/-- The members of a loop stay, where the connections do and no one is added. -/
theorem members_congr (hfresh : s'.fresh = s.fresh)
    (hloop : ∀ c, (s'.heap c).loop = (s.heap c).loop) (l : LoopId) :
    s'.members l = s.members l := by
  unfold members
  rw [hfresh]
  exact List.filter_congr fun c _ => by rw [hloop c]

/-- The connection just constructed is the last member of its loop. -/
theorem members_construct (hloop : ∀ c < s.fresh, (s'.heap c).loop = (s.heap c).loop)
    (hfresh : s'.fresh = s.fresh + 1) (l : LoopId) :
    s'.members l = s.members l ++ [s.fresh].filter fun c => (s'.heap c).loop = l := by
  unfold members
  rw [hfresh, List.range_succ, List.filter_append]
  congr 1
  exact List.filter_congr fun c hc => by rw [hloop c (List.mem_range.mp hc)]

/-- **What each event does on the way of a connection to its loop**: what was offered and is
not any more was queued, and what is offered newly is a new member. -/
theorem Moves.handed {e : ServerEvent} (hm : s.Moves e s') (hp : Placed s) (hl : l ≠ 0) :
    ∃ new, queued l (loopEvents l s e) ++ s'.offered l = s.offered l ++ new
      ∧ s'.members l = s.members l ++ new := by
  rw [queued_loopEvents hp hl]
  have hsame : s'.fresh = s.fresh → (∀ c, (s'.heap c).loop = (s.heap c).loop) →
      ∃ new, (if e = .step 0 then s.offered l else []) ++ s'.offered l = s.offered l ++ new
        ∧ s'.members l = s.members l ++ new := by
    intro hfresh hloop
    refine ⟨[], ?_, (members_congr hfresh hloop l).trans (List.append_nil _).symm⟩
    rw [List.append_nil]
    by_cases he : e = .step 0
    · subst he
      cases hm with
      | advance ha =>
        have hnil := ha.handing.resolve_right (by rw [hfresh]; exact (Nat.succ_ne_self _).symm)
        have hnone : s'.offered l = [] := by rw [offered, hnil]; rfl
        rw [if_pos rfl, hnone, List.append_nil]
    · rw [if_neg he, List.nil_append, offered, hm.handing hp he]
      exact List.filter_congr fun c _ => by rw [hloop c]
  cases hm.deals hp with
  | same h => exact hsame h.fresh h.loop
  | nextLoop hpc =>
    have hrefs : SameRefs s s.getNextLoop.1 := .getNextLoop s
    exact hsame hrefs.fresh hrefs.loop
  | refuse hpc => exact hsame rfl fun _ => rfl
  | @construct fd l' k k' d hpc =>
    -- the new connection is offered to its loop
    have hnil : s.offered l = [] := by rw [offered, hpc]; rfl
    refine ⟨_, ?_, members_construct (fun c hc => ?_) rfl l⟩
    · rw [hnil, ite_self, offered, pc_goto]
      rfl
    · exact congrArg TCPConnection.loop (Function.update_of_ne hc.ne ..)

/-- **What was queued to a loop, and what is about to be, are its connections.** -/
theorem queued_matching {n : ℕ} {fd : Fd} {others : Finset Fd} {tr : List ServerEvent}
    (h : (machine n fd others).exec (machine n fd others).init tr = some s) (hl : l ≠ 0) :
    queued l ((machine n fd others).matching (loopEvents l) tr) ++ s.offered l = s.members l := by
  refine Machine.exec_induction (motive := fun tr s =>
    queued l ((machine n fd others).matching (loopEvents l) tr) ++ s.offered l = s.members l)
    rfl ?_ h
  intro tr t e t' ht hs ih
  obtain ⟨new, hnew, hmem⟩ := (Moves.of_step hs).handed (reachable_placed ⟨tr, ht⟩) hl
  rw [Machine.matching_concat ht hs, queued_append, List.append_assoc, hnew, hmem, ← ih,
    List.append_assoc]

/-- The acceptor hands nothing over on the thread of a loop of the pool. -/
theorem runInLoop_notMem {n : ℕ} {fd : Fd} {others : Finset Fd} {tr : List ServerEvent}
    (h : (machine n fd others).exec (machine n fd others).init tr = some s) (hl : l ≠ 0)
    (c : ConnId) : .runInLoop l c ∉ (machine n fd others).matching (loopEvents l) tr := by
  refine Machine.exec_induction (motive := fun tr _ =>
    .runInLoop l c ∉ (machine n fd others).matching (loopEvents l) tr) List.not_mem_nil ?_ h
  intro tr t e t' ht hs ih
  have hp : Placed t := reachable_placed ⟨tr, ht⟩
  rw [Machine.matching_concat ht hs, List.mem_append, not_or]
  refine ⟨ih, ?_⟩
  cases e with
  | deliver l' f mask =>
    rw [loopEvents]
    split
    · cases (t.loops l).epoll.interest.deliver f mask <;> simp
    · exact List.not_mem_nil
  | step l' =>
    rw [loopEvents]
    by_cases hl' : l' = l
    · have hnil : t.handOverEvents l l' = [] :=
        handOverEvents_eq_nil rfl fun c k d hpc => hl (hl'.symm.trans (hp.accept_loop hpc))
      rw [hnil, if_pos hl']
      exact fun hmem => by cases (List.mem_replicate.mp hmem).2
    · rw [if_neg hl', List.append_nil]
      unfold handOverEvents
      split
      · split
        · simp [Ne.symm hl']
        · exact List.not_mem_nil
      · exact List.not_mem_nil
  | read _ _ | accept _ _ | flags _ _ => exact List.not_mem_nil

/-- **No connection is lost on its way to its loop**, or handed over twice, or overtaken by a
later one. In every run, for every loop of the pool, the calls of `new_event` that its thread
has made, those that are left of the current round, those that are pending and the one that
the acceptor is about to hand over are one call for each connection of this loop, in the
order in which they were constructed; and they were made on the thread of the loop. -/
theorem handed_over {n : ℕ} {fd : Fd} {others : Finset Fd} {tr : List ServerEvent}
    (h : (machine n fd others).exec (machine n fd others).init tr = some s) (hl : l ≠ 0)
    (wakeUpFd : Fd) :
    ∃ t, (loopMachine l wakeUpFd).exec (loopMachine l wakeUpFd).init
        ([.loop, .step] ++ (machine n fd others).matching (loopEvents l) tr) = some t
      ∧ RunsAs l s t
      ∧ t.executed.map (·.callback) ++ EventLoop.round (s.loops l).pc.loopPc
          ++ (s.loops l).pending ++ s.offered l = s.members l
      ∧ ∀ x ∈ t.executed, x.thread = l := by
  obtain ⟨t, ht, hruns⟩ := (loop_simulation n fd others l wakeUpFd).exec_matching h
  obtain ⟨honce, hthread⟩ := ran_of_exec ht
  refine ⟨t, ht, hruns, ?_, hthread⟩
  have hran : t.executed.map (·.callback) = t.ran :=
    executed_eq_ran ht fun c hc => by
      rcases List.mem_append.mp hc with hc | hc
      · rcases List.mem_cons.mp hc with hc | hc
        · cases hc
        · cases List.mem_singleton.mp hc
      · exact runInLoop_notMem h hl c hc
  have hqueued : queued l ([.loop, .step] ++ (machine n fd others).matching (loopEvents l) tr)
      = queued l ((machine n fd others).matching (loopEvents l) tr) := rfl
  rw [hqueued] at honce
  rw [hran, ← hruns.pc, ← hruns.pending, ← queued_matching h hl, ← honce]

/-- The first connection is put by its loop, the second is about to be handed over. -/
theorem handed_over_two :
    ∃ s t, (machine 1 3 ∅).exec (machine 1 3 ∅).init
        (acceptOne 10 ++ List.replicate 4 (.step 1) ++ (acceptOne 11).take 11) = some s
      ∧ RunsAs 1 s t ∧ s.offered 1 = [1] ∧ t.executed.map (·.callback) = [0] := by
  have hrun : ((machine 1 3 ∅).exec (machine 1 3 ∅).init
      (acceptOne 10 ++ List.replicate 4 (.step 1) ++ (acceptOne 11).take 11)).map
        (fun s => (s.members 1, s.offered 1, (s.loops 1).pending, (s.loops 1).pc))
      = some ([0, 1], [1], [], .put 0 [0] 0) := by
    decide +kernel
  obtain ⟨s, hs, hat⟩ := Option.map_eq_some_iff.mp hrun
  simp only [Prod.mk.injEq] at hat
  obtain ⟨hmem, hoff, hpend, hpc⟩ := hat
  obtain ⟨t, -, hruns, hconn, -⟩ := handed_over hs one_ne_zero 4
  have hround : EventLoop.round (ServerPc.put 0 [0] 0).loopPc = [] := rfl
  rw [hmem, hoff, hpend, hpc, hround, List.append_nil, List.append_nil] at hconn
  exact ⟨s, t, hs, hruns, hoff, List.append_cancel_right (hconn.trans (List.singleton_append).symm)⟩

end TCPServer
