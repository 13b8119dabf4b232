import Shoot.Progress
import Shoot.TCPServerLifetime

/-!
# A connection that was handed over is listened to in time

The acceptor gives a connection to another loop by a function in `pending_functions_`, which
the loop's thread calls after it has handled the channels that its poll has reported. What
it has still to do until it calls it is counted here, statement by statement: the channels
that were reported and not handled yet, at most sixteen statements for each; the functions
of the current round, and their destruction; and the functions in front of it, three
statements for each. A statement of the thread brings the count down, whatever the other
threads do meanwhile; a delivery makes one channel more (`ServerLoop.toArm`).

So a connection is in `connections_`, with its channel enabled, after a bounded number of
statements of the loop it was given to (`TCPServer.listened_within`). The bound does not count
how often `read` is called, which is for the peer to say.
-/

/-- The thread of the loop executes a statement. -/
def ServerEvent.steps (l : LoopId) : ServerEvent → Bool
  | .step l' => l' = l
  | _ => false

/-- A channel is reported to the loop. -/
def ServerEvent.reports (l : LoopId) : ServerEvent → Bool
  | .deliver l' _ _ => l' = l
  | _ => false

/-! ## What a thread has still to do -/

/-- The statements until `handle_events` has returned and the next channel is taken, at
most. -/
def Channel.HandlePc.left : Channel.HandlePc → ℕ
  | .hup => 15
  | .err => 14
  | .read => 13
  | .write => 2
  | .ret => 1

/-- The statements until `handle_read` has returned, at most. -/
def ReadPc.left : ReadPc → ℕ
  | .read | .close => 4
  | .destroy => 3
  | .erase => 2
  | .rearm | .release => 1

/-- The statements until `handle_new_conn` has returned, at most. -/
def AcceptPc.left : AcceptPc → ℕ
  | .accept | .nextLoop _ => 10
  | .limit _ _ => 9
  | .nonBlocking _ _ | .construct _ _ => 8
  | .runInLoop _ => 7
  | .put _ => 6
  | .arm _ => 5
  | .dropCallback _ => 4
  | .dropLocal _ => 3
  | .rearm => 2
  | .ret => 1

/-- The statements until the thread swaps `functors`, from within `handle_events`. -/
def Dispatch.left (d : Dispatch) : ℕ := d.stage.left + 16 * d.active.length + 2

namespace ServerPc

/-- **The statements until the thread has swapped** `functors` with `pending_functions_`. -/
def toSwap : ServerPc → ℕ
  | .poll active => 16 * active.length + 3
  | .next active => 16 * active.length + 2
  | .handle d => d.left
  | .read _ pos d => pos.left + d.left
  | .accept pos _ d => pos.left + d.left
  | .swap => 1
  | .functors fs i => 3 * (fs.length - i) + fs.length + 5
  | .put _ fs i => 3 * (fs.length - (i + 1)) + fs.length + 7
  | .arm _ fs i => 3 * (fs.length - (i + 1)) + fs.length + 6
  | .drop fs => fs.length + 4

/-- The connections whose `new_event` is to be called in this round, from the one that is
being called. -/
def calls : ServerPc → List ConnId
  | .functors fs i => fs.drop i
  | .put c fs i | .arm c fs i => c :: fs.drop (i + 1)
  | _ => []

/-- The statements of the call. -/
def ofCall : ServerPc → ℕ
  | .functors _ _ => 3
  | .put _ _ _ => 2
  | .arm _ _ _ => 1
  | _ => 0

end ServerPc

/-- The connection waits for its `new_event` to be called. -/
def ServerLoop.Waits (L : ServerLoop) (c : ConnId) : Prop := c ∈ L.pc.calls ∨ c ∈ L.pending

/-- **The statements until the channel of a connection is enabled**, if it waits for that. -/
def ServerLoop.toArm (L : ServerLoop) (c : ConnId) : ℕ :=
  if c ∈ L.pc.calls then 3 * L.pc.calls.idxOf c + L.pc.ofCall
  else L.pc.toSwap + 3 * L.pending.idxOf c + 3

theorem ServerLoop.toArm_of_mem {L : ServerLoop} {c : ConnId} (h : c ∈ L.pc.calls) :
    L.toArm c = 3 * L.pc.calls.idxOf c + L.pc.ofCall :=
  if_pos h

theorem ServerLoop.toArm_of_not_mem {L : ServerLoop} {c : ConnId} (h : c ∉ L.pc.calls) :
    L.toArm c = L.pc.toSwap + 3 * L.pending.idxOf c + 3 :=
  if_neg h

/-- The thread goes on, and the same connections wait. -/
theorem ServerLoop.toArm_lt {L L' : ServerLoop} {c : ConnId} (h : L.Waits c)
    (hcalls : L'.pc.calls = L.pc.calls) (hp : L'.pending = L.pending)
    (hcall : c ∈ L.pc.calls → L'.pc.ofCall < L.pc.ofCall)
    (hswap : c ∉ L.pc.calls → L'.pc.toSwap < L.pc.toSwap) :
    L'.Waits c ∧ L'.toArm c < L.toArm c := by
  unfold Waits
  rw [hcalls, hp]
  refine ⟨h, ?_⟩
  by_cases hc : c ∈ L.pc.calls
  · have hlt := hcall hc
    rw [toArm_of_mem hc, toArm_of_mem (hcalls ▸ hc), hcalls]
    omega
  · have hlt := hswap hc
    rw [toArm_of_not_mem hc, toArm_of_not_mem (hcalls ▸ hc), hp]
    omega

/-- What there is to do for a connection that has just been handed over. -/
theorem ServerLoop.toArm_le {L : ServerLoop} {c : ConnId} (h : c ∈ L.pending) :
    L.toArm c ≤ L.pc.toSwap + 3 * L.pending.length := by
  have hidx : L.pending.idxOf c < L.pending.length := List.idxOf_lt_length_of_mem h
  unfold toArm
  split
  · next hcalls =>
    have hcall : L.pc.calls.idxOf c < L.pc.calls.length := List.idxOf_lt_length_of_mem hcalls
    cases hpc : L.pc with
    | functors fs i | put _ fs i | arm _ fs i =>
      rw [hpc] at hcall
      simp only [ServerPc.calls, List.length_drop, List.length_cons] at hcall
      simp only [ServerPc.calls, ServerPc.ofCall, ServerPc.toSwap]
      omega
    | _ =>
      rw [hpc] at hcalls
      cases hcalls
  · omega

/-- What another thread queues comes behind. -/
theorem ServerLoop.toArm_append {L L' : ServerLoop} {c : ConnId} {cs : List ConnId}
    (h : L.Waits c) (hpc : L'.pc = L.pc) (hp : L'.pending = L.pending ++ cs) :
    L'.Waits c ∧ L'.toArm c = L.toArm c := by
  unfold Waits toArm
  rw [hpc, hp]
  refine ⟨h.imp id fun hc => List.mem_append_left cs hc, ?_⟩
  split
  · rfl
  · rw [List.idxOf_append_of_mem (h.resolve_left ‹_›)]

namespace TCPServer

variable {s s' : TCPServer} {l : LoopId} {c : ConnId}

/-! ## The queues -/

section Frame

variable (s : TCPServer) (l l' : LoopId) (c : ConnId)

@[simp] theorem loops_retain : (s.retain c).loops = s.loops := rfl

@[simp] theorem loops_release : (s.release c).loops = s.loops := rfl

@[simp] theorem loops_close (fd : Fd) : (s.close fd).loops = s.loops := rfl

@[simp] theorem loops_accepted (r : ℤ) : (s.accepted r).loops = s.loops := rfl

@[simp] theorem loops_construct (fd : Fd) : (s.construct fd l).loops = s.loops := rfl

@[simp] theorem pending_enableRead : ((s.enableRead c).loops l).pending = (s.loops l).pending :=
  (SameRefs.enableRead s c).pending l

@[simp] theorem pending_handleClose : ((s.handleClose c).loops l).pending = (s.loops l).pending :=
  (SameRefs.handleClose s c).pending l

@[simp] theorem pending_destroyConn : ((s.destroyConn c).loops l).pending = (s.loops l).pending :=
  (SameRefs.destroyConn s c).pending l

@[simp] theorem pending_rearmAcceptor :
    (s.rearmAcceptor.loops l).pending = (s.loops l).pending :=
  (SameRefs.rearmAcceptor s).pending l

@[simp] theorem pending_setInterest (K) :
    ((s.setInterest l' K).loops l).pending = (s.loops l).pending :=
  (SameRefs.setInterest s l' K).pending l

theorem pending_queueNewEvent :
    ((s.queueNewEvent l' c).loops l).pending
      = (s.loops l).pending ++ if l = l' then [c] else [] := by
  show (Function.update s.loops l' _ l).pending = _
  rw [Function.update_apply]
  split
  · next h => rw [h]
  · rw [List.append_nil]

theorem pending_takePending :
    ((s.takePending l').loops l).pending = if l = l' then [] else (s.loops l).pending := by
  show (Function.update s.loops l' _ l).pending = _
  rw [Function.update_apply]
  split <;> rfl

end Frame

/-! ## What a statement does -/

/-- **What a statement of a loop's thread is to the connections that wait** in its loop. -/
inductive Works (s s' : TCPServer) (l : LoopId) : Prop where
  | swap (hpc : (s.loops l).pc = .swap)
      (hpc' : (s'.loops l).pc = .functors (s.loops l).pending 0)
  | functor {fs : List ConnId} {i : ℕ} {c : ConnId} (hc : fs[i]? = some c)
      (hpc : (s.loops l).pc = .functors fs i) (hpc' : (s'.loops l).pc = .put c fs i)
      (hp : (s'.loops l).pending = (s.loops l).pending)
  | put {fs : List ConnId} {i : ℕ} {c : ConnId} (hpc : (s.loops l).pc = .put c fs i)
      (hpc' : (s'.loops l).pc = .arm c fs i) (hp : (s'.loops l).pending = (s.loops l).pending)
  | arm {fs : List ConnId} {i : ℕ} {c : ConnId} (hpc : (s.loops l).pc = .arm c fs i)
      (hpc' : (s'.loops l).pc = .functors fs (i + 1))
      (hp : (s'.loops l).pending = (s.loops l).pending) (harmed : s'.Armed l c)
  | other (hcalls : (s.loops l).pc.calls = []) (hcalls' : (s'.loops l).pc.calls = [])
      (hlt : (s'.loops l).pc.toSwap < (s.loops l).pc.toSwap)
      (hp : (s'.loops l).pending = (s.loops l).pending)

/-- A statement outside `do_pending_functions`. -/
theorem works_other {pc₀ pc : ServerPc} (hpc : (s.loops l).pc = pc₀)
    (hpc' : (s'.loops l).pc = pc) (hp : (s'.loops l).pending = (s.loops l).pending)
    (hcalls : pc₀.calls = []) (hcalls' : pc.calls = []) (hlt : pc.toSwap < pc₀.toSwap) :
    Works s s' l :=
  .other (hpc.symm ▸ hcalls) (hpc'.symm ▸ hcalls') (by rw [hpc, hpc']; exact hlt) hp

/-- A test of `handle_events`. -/
theorem toSwap_tested {d : Dispatch} {pc : ServerPc} (h : s.Tested d pc) :
    pc.calls = [] ∧ pc.toSwap < (ServerPc.handle d).toSwap := by
  cases h with
  | hangUp hs _ | err hs | read hs | noRead hs _ | readConn hs _ _ | readAcceptor hs _ _
  | ret hs =>
    refine ⟨rfl, ?_⟩
    simp only [ServerPc.toSwap, Dispatch.left, Channel.HandlePc.left, ReadPc.left, AcceptPc.left,
      hs]
    omega

/-- `new_event` enables the connection it has put. -/
theorem armed_enableRead (hp : Placed s) (hs : s.Serves l) {fs : List ConnId} {i : ℕ}
    (hpc : (s.loops l).pc = .arm c fs i) (pc : ServerPc) :
    ((s.enableRead c).goto l pc).Armed l c := by
  obtain ⟨hb, hbare⟩ := hs.standing hpc
  have hc := hp.conn_at (c := c) hpc List.mem_cons_self
  have hr := Rewired.enableRead hc.2 (hp.formed c hc.1).fd (hb.linked _ c hbare.1)
  have harmed : (s.enableRead c).Armed l c := by
    obtain ⟨-, hfd, -, -⟩ := hr.kept c
    refine ⟨?_, ⟨(s.heap c).channel.event ||| Channel.readEvent, .conn c, true⟩, ?_, rfl, rfl,
      EventMask.has_or_right (by decide)⟩
    · rw [hfd, hr.connections]
      exact hbare.1
    · rw [hfd, hr.interest]
      exact Function.update_self ..
  exact harmed.congr (.goto _ l pc l) (hr.fresh.symm ▸ hc.1)

/-- **A statement of the thread brings it on.** -/
theorem Advances.works (hm : s.Advances l s') (hp : Placed s) (hs : s.Serves l) :
    Works s s' l := by
  cases hm with
  | poll hpc | nextNil hpc | next hpc | unlinkNone hpc _ | limit hpc _ | acceptRet hpc
  | dropNil hpc | readRelease hpc | dropCallback hpc | dropLocal hpc | drop hpc =>
    refine works_other hpc (pc_goto ..) (pending_goto ..) rfl rfl ?_
    simp only [ServerPc.toSwap, Dispatch.left, Channel.HandlePc.left, ReadPc.left, AcceptPc.left,
      List.length_cons, List.length_nil]
    omega
  | handleRet hpc hd =>
    refine works_other hpc (pc_goto ..) (pending_goto ..) rfl rfl ?_
    simp only [ServerPc.toSwap, Dispatch.left, hd, Channel.HandlePc.left]
    omega
  | handle hpc hd =>
    obtain ⟨hcalls, hlt⟩ := toSwap_tested (hp.tested hpc hd)
    exact works_other hpc (pc_goto ..) (pending_goto ..) rfl hcalls hlt
  | readRearm hpc | readClose hpc | readDestroy hpc | unlink hpc _ | nextLoop hpc
  | limitClose hpc _ | construct hpc | runHere hpc _ | acceptArm hpc | rearm hpc =>
    refine works_other hpc (pc_goto ..) (by simp) rfl rfl ?_
    · simp only [ServerPc.toSwap, ReadPc.left, AcceptPc.left]
      omega
  | runThere hpc hl' hl =>
    refine works_other hpc ((pc_queueNewEvent ..).trans (pc_goto ..)) ?_ rfl rfl ?_
    · rw [pending_queueNewEvent, if_neg (Ne.symm hl), List.append_nil, pending_goto,
        loops_retain]
    · simp only [ServerPc.toSwap, AcceptPc.left]
      omega
  | acceptPut hpc =>
    refine works_other hpc ((pc_put ..).trans (pc_goto ..)) (by simp) rfl rfl ?_
    simp only [ServerPc.toSwap, AcceptPc.left]
    omega
  | swap hpc => exact .swap hpc (pc_goto ..)
  | functor hpc hc => exact .functor hc hpc (pc_goto ..) (pending_goto ..)
  | functorsEnd hpc hc =>
    refine works_other hpc (pc_goto ..) (pending_goto ..) ?_ rfl ?_
    · exact List.drop_eq_nil_of_le (List.getElem?_eq_none_iff.mp hc)
    · simp only [ServerPc.toSwap]
      omega
  | put hpc => exact .put hpc ((pc_put ..).trans (pc_goto ..)) (by simp)
  | arm hpc => exact .arm hpc (pc_goto ..) (by simp) (armed_enableRead hp hs hpc _)

/-- A statement of another thread may queue a connection. -/
theorem Advances.queue {l' : LoopId} (hm : s.Advances l' s') (hl : l' ≠ l) :
    ∃ cs, (s'.loops l).pending = (s.loops l).pending ++ cs := by
  cases hm with
  | @runThere c l'' k d _ _ _ =>
    refine ⟨if l = l'' then [c] else [], ?_⟩
    rw [pending_queueNewEvent, pending_goto, loops_retain]
  | swap hpc =>
    refine ⟨[], ?_⟩
    rw [pending_goto, pending_takePending, if_neg hl.symm, List.append_nil]
  | _ =>
    refine ⟨[], ?_⟩
    simp

/-- **An event that is no statement of the thread**: the thread stays, and connections may be
queued; or what it waited for has happened, which costs nothing, but for a delivery. -/
inductive Waited (s s' : TCPServer) (l : LoopId) (e : ServerEvent) : Prop where
  | others {cs : List ConnId} (hpc : (s'.loops l).pc = (s.loops l).pc)
      (hp : (s'.loops l).pending = (s.loops l).pending ++ cs)
  | own (hcalls : (s.loops l).pc.calls = []) (hcalls' : (s'.loops l).pc.calls = [])
      (hle : (s'.loops l).pc.toSwap ≤ (s.loops l).pc.toSwap + if e.reports l then 16 else 0)
      (hp : (s'.loops l).pending = (s.loops l).pending)

/-- What the thread waited for. -/
theorem waited_own {e : ServerEvent} {pc₀ pc : ServerPc} (hpc : (s.loops l).pc = pc₀)
    (hpc' : (s'.loops l).pc = pc) (hp : (s'.loops l).pending = (s.loops l).pending)
    (hcalls : pc₀.calls = []) (hcalls' : pc.calls = [])
    (hle : pc.toSwap ≤ pc₀.toSwap + if e.reports l then 16 else 0) : Waited s s' l e :=
  .own (hpc.symm ▸ hcalls) (hpc'.symm ▸ hcalls') (by rw [hpc, hpc']; exact hle) hp

theorem Moves.waited {e : ServerEvent} (hm : s.Moves e s') (hp : Placed s)
    (he : e.steps l = false) : Waited s s' l e := by
  by_cases hl : e.loop = l
  · cases hm with
    | deliver hpc hr =>
      obtain rfl := hl
      refine waited_own hpc (pc_goto ..) ?_ rfl rfl ?_
      · rw [pending_goto, loops_setRevents, pending_setInterest]
      · simp only [ServerPc.toSwap, List.length_append, List.length_singleton,
          ServerEvent.reports, ServerEvent.loop, decide_true, if_true]
        omega
    | read n hpc =>
      obtain rfl := hl
      refine waited_own hpc (pc_goto ..) (pending_goto ..) rfl rfl (Nat.le_add_right_of_le ?_)
      unfold ServerPc.toSwap afterRead
      dsimp only
      split
      · exact Nat.add_le_add_right (by decide) _
      · split <;> exact Nat.add_le_add_right (by decide) _
    | accept hpc hr =>
      obtain rfl := hl
      refine waited_own hpc (pc_goto ..) (by simp) rfl rfl (Nat.le_add_right_of_le ?_)
      unfold ServerPc.toSwap afterAccept
      dsimp only
      split <;> exact Nat.add_le_add_right (by simp [AcceptPc.left]) _
    | flags hpc hfd | noFlags hpc =>
      obtain rfl := hl
      refine waited_own hpc (pc_goto ..) (pending_goto ..) rfl rfl (Nat.le_add_right_of_le ?_)
      exact Nat.add_le_add_right (by simp [AcceptPc.left]) _
    | advance h =>
      have hstep : (ServerEvent.step l).steps l = true := decide_eq_true rfl
      obtain rfl := hl
      cases he.symm.trans hstep
  · have hqueue : ∃ cs, (s'.loops l).pending = (s.loops l).pending ++ cs := by
      cases hm with
      | advance h => exact h.queue hl
      | _ => exact ⟨[], by simp⟩
    obtain ⟨cs, hcs⟩ := hqueue
    exact .others (hm.apart hp hl).2 hcs

/-! ## How long a connection waits -/

/-- **A connection that waits goes on waiting until it is enabled**, for one statement less
with each statement of the thread. -/
theorem Works.toArm_lt (h : Works s s' l) (hw : (s.loops l).Waits c) (hnot : ¬ s'.Armed l c) :
    (s'.loops l).Waits c ∧ (s'.loops l).toArm c < (s.loops l).toArm c := by
  cases h with
  | swap hpc hpc' =>
    have hold : (s.loops l).pc.calls = [] := congrArg ServerPc.calls hpc
    have hnew : (s'.loops l).pc.calls = (s.loops l).pending := congrArg ServerPc.calls hpc'
    have hmem : c ∈ (s.loops l).pending := hw.resolve_left (hold ▸ List.not_mem_nil)
    refine ⟨Or.inl (hnew ▸ hmem), ?_⟩
    rw [ServerLoop.toArm_of_mem (hnew ▸ hmem), ServerLoop.toArm_of_not_mem
      (hold ▸ List.not_mem_nil), hnew, hpc, hpc']
    simp only [ServerPc.ofCall, ServerPc.toSwap]
    omega
  | @functor fs i c' hc hpc hpc' hp =>
    -- the next function is the first of those that are left
    have hlt : i < fs.length := (List.getElem?_eq_some_iff.mp hc).1
    have hdrop : fs.drop i = c' :: fs.drop (i + 1) := by
      rw [List.drop_eq_getElem_cons hlt, (List.getElem?_eq_some_iff.mp hc).2]
    refine ServerLoop.toArm_lt hw ?_ hp (fun _ => ?_) fun _ => ?_
    · rw [hpc, hpc']
      exact hdrop.symm
    · rw [hpc, hpc']
      simp only [ServerPc.ofCall]
      omega
    · rw [hpc, hpc']
      simp only [ServerPc.toSwap]
      omega
  | put hpc hpc' hp =>
    refine ServerLoop.toArm_lt hw (by rw [hpc, hpc']; rfl) hp (fun _ => ?_) fun _ => ?_
    · rw [hpc, hpc']
      simp only [ServerPc.ofCall]
      omega
    · rw [hpc, hpc']
      simp only [ServerPc.toSwap]
      omega
  | @arm fs i c' hpc hpc' hp harmed =>
    have hne : c' ≠ c := fun he => hnot (he ▸ harmed)
    have hold : (s.loops l).pc.calls = c' :: fs.drop (i + 1) := congrArg ServerPc.calls hpc
    have hnew : (s'.loops l).pc.calls = fs.drop (i + 1) := congrArg ServerPc.calls hpc'
    have hmem : c ∈ (s.loops l).pc.calls ↔ c ∈ (s'.loops l).pc.calls := by
      rw [hold, hnew, List.mem_cons]
      exact or_iff_right (Ne.symm hne)
    refine ⟨hw.imp hmem.mp fun hc => hp ▸ hc, ?_⟩
    by_cases hc : c ∈ (s.loops l).pc.calls
    · rw [ServerLoop.toArm_of_mem hc, ServerLoop.toArm_of_mem (hmem.mp hc), hold, hnew, hpc, hpc',
        List.idxOf_cons_ne _ hne]
      simp only [ServerPc.ofCall]
      omega
    · rw [ServerLoop.toArm_of_not_mem hc, ServerLoop.toArm_of_not_mem (mt hmem.mpr hc), hp, hpc,
        hpc']
      simp only [ServerPc.toSwap]
      omega
  | other hcalls hcalls' hlt hp =>
    exact ServerLoop.toArm_lt hw (hcalls'.trans hcalls.symm) hp
      (fun hc => absurd (hcalls ▸ hc) List.not_mem_nil) fun _ => hlt

/-- And for no more with any other event, but for a delivery to the loop. -/
theorem Waited.toArm_le {e : ServerEvent} (h : Waited s s' l e) (hw : (s.loops l).Waits c) :
    (s'.loops l).Waits c
      ∧ (s'.loops l).toArm c ≤ (s.loops l).toArm c + if e.reports l then 16 else 0 := by
  cases h with
  | others hpc hp =>
    obtain ⟨hw', heq⟩ := ServerLoop.toArm_append hw hpc hp
    exact ⟨hw', heq ▸ Nat.le_add_right _ _⟩
  | own hcalls hcalls' hle hp =>
    have hnot : c ∉ (s.loops l).pc.calls := hcalls ▸ List.not_mem_nil
    have hnot' : c ∉ (s'.loops l).pc.calls := hcalls' ▸ List.not_mem_nil
    refine ⟨Or.inr (hp ▸ hw.resolve_left hnot), ?_⟩
    rw [ServerLoop.toArm_of_not_mem hnot, ServerLoop.toArm_of_not_mem hnot', hp]
    omega

/-- **An event**, while a connection waits and is not enabled by it. -/
theorem Moves.toArm {e : ServerEvent} (hm : s.Moves e s') (hp : Placed s) (hs : s.Serves l)
    (hw : (s.loops l).Waits c) (hnot : ¬ s'.Armed l c) :
    (s'.loops l).Waits c
      ∧ (e.steps l = true → (s'.loops l).toArm c < (s.loops l).toArm c)
      ∧ (e.steps l = false →
        (s'.loops l).toArm c ≤ (s.loops l).toArm c + if e.reports l then 16 else 0) := by
  cases he : e.steps l with
  | false =>
    obtain ⟨hw', hle⟩ := (hm.waited hp he).toArm_le hw
    exact ⟨hw', (fun h => by cases h), fun _ => hle⟩
  | true =>
    cases hm with
    | @advance l' _ h =>
      obtain rfl : l' = l := of_decide_eq_true he
      obtain ⟨hw', hlt⟩ := (h.works hp hs).toArm_lt hw hnot
      exact ⟨hw', fun _ => hlt, fun h => by cases h⟩
    | _ => cases he

/-- **A connection that was handed over is listened to in time.** If, from where a connection
waits in `pending_functions_` of its loop, the loop's thread takes more statements than three
for each connection that waits there, sixteen for each channel that is reported from then on,
and those that it has to take until it looks into its queue, then on the way, whatever the
other threads and the kernel do, there is a state in which the connection is in
`connections_` and its channel is armed for reading. -/
theorem listened_within {n : ℕ} {fd : Fd} {others : Finset Fd} {t : TCPServer}
    {tr₁ tr₂ : List ServerEvent}
    (h₁ : (machine n fd others).exec (machine n fd others).init tr₁ = some s)
    (hc : c ∈ (s.loops l).pending) (h₂ : (machine n fd others).exec s tr₂ = some t)
    (hcount : (s.loops l).pc.toSwap + 3 * (s.loops l).pending.length
      + 16 * tr₂.countP (ServerEvent.reports l) < tr₂.countP (ServerEvent.steps l)) :
    ∃ tr₃ tr₄ u, tr₂ = tr₃ ++ tr₄ ∧ (machine n fd others).exec s tr₃ = some u ∧ u.Armed l c := by
  have hbound : (s.loops l).toArm c + 16 * tr₂.countP (ServerEvent.reports l)
      < tr₂.countP (ServerEvent.steps l) :=
    (Nat.add_le_add_right (ServerLoop.toArm_le hc) _).trans_lt hcount
  have hevent : ∀ {s e s'}, (machine n fd others).Reachable s →
      (machine n fd others).step s e = some s' → (s.loops l).Waits c → ¬ s'.Armed l c →
      (s'.loops l).Waits c
        ∧ (e.steps l = true → (s'.loops l).toArm c < (s.loops l).toArm c)
        ∧ (e.steps l = false →
          (s'.loops l).toArm c ≤ (s.loops l).toArm c + if e.reports l then 16 else 0) :=
    fun hreach hstep => (Moves.of_step hstep).toArm (reachable_placed hreach)
      (reachable_serves hreach l)
  obtain ⟨tr₃, tr₄, u, htr, hu, -, -, harmed⟩ := Machine.exists_prefix_of_lt_count
    (I := fun s => (machine n fd others).Reachable s ∧ (s.Armed l c ∨ (s.loops l).Waits c))
    (Q := fun s => s.Armed l c) (P := fun _ _ => True) (p := ServerEvent.steps l)
    (q := ServerEvent.reports l) (c := 16) (μ := fun s => (s.loops l).toArm c)
    (fun s e s' hs hnot _ hstep => by
      refine ⟨hs.1.step hstep, or_iff_not_imp_left.mpr fun hnot' => ?_⟩
      exact (hevent hs.1 hstep (hs.2.resolve_left hnot) hnot').1)
    (fun s e s' hs hnot hnot' _ hstep he =>
      (hevent hs.1 hstep (hs.2.resolve_left hnot) hnot').2.1 he)
    (fun s e s' hs hnot hnot' _ hstep he =>
      (hevent hs.1 hstep (hs.2.resolve_left hnot) hnot').2.2 he)
    h₂ (Machine.along_of_forall fun _ _ => trivial) ⟨⟨tr₁, h₁⟩, Or.inr (Or.inr hc)⟩ hbound
  exact ⟨tr₃, tr₄, u, htr, hu, harmed⟩

/-- A connection is handed over to a loop that sleeps in its poll. -/
theorem listened_within_handOff :
    ∃ s t, (machine 1 3 ∅).exec (machine 1 3 ∅).init
        [.deliver 0 3 epollIn, .step 0, .step 0, .step 0, .step 0, .step 0, .accept 0 10, .step 0,
          .step 0, .flags 0 true, .step 0, .step 0] = some s
      ∧ (machine 1 3 ∅).exec s (List.replicate 7 (.step 1)) = some t
      ∧ ∃ tr₃ tr₄ u, List.replicate 7 (.step 1) = tr₃ ++ tr₄
        ∧ (machine 1 3 ∅).exec s tr₃ = some u ∧ u.Armed 1 0 := by
  have hrun : ((machine 1 3 ∅).exec (machine 1 3 ∅).init
      [.deliver 0 3 epollIn, .step 0, .step 0, .step 0, .step 0, .step 0, .accept 0 10, .step 0,
        .step 0, .flags 0 true, .step 0, .step 0]).map (fun s => ((s.loops 1).pending,
          (s.loops 1).pc, ((machine 1 3 ∅).exec s (List.replicate 7 (.step 1))).isSome))
      = some ([0], .poll [], true) := by decide +kernel
  obtain ⟨s, hs, hend⟩ := Option.map_eq_some_iff.mp hrun
  obtain ⟨hpending, hend⟩ := Prod.mk.inj hend
  obtain ⟨hpc, hsome⟩ := Prod.mk.inj hend
  obtain ⟨t, ht⟩ := Option.isSome_iff_exists.mp hsome
  refine ⟨s, t, hs, ht, listened_within hs ?_ ht ?_⟩
  · rw [hpending]
    exact List.mem_cons_self
  · rw [hpc, hpending]
    decide

end TCPServer
