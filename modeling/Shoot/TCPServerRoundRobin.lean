import Shoot.RoundRobin
import Shoot.TCPServerDeaf

/-!
# How the connections are spread over the pool

`get_next_loop` takes the loops of the pool in turn, and `handle_new_conn` asks it once for
every descriptor that is accepted. A descriptor whose flags cannot be changed has used up
its turn and gives no connection; but then the server is deaf, and no further connection is
constructed. So the connections of a run are on the loops whose turn it was (`Dealt`), in
every interleaving of the threads, and the loops of the pool are given equally many of
them.
-/

/-- The loop that `handle_new_conn` was given for the descriptor it has accepted. -/
def AcceptPc.dealt : AcceptPc → List LoopId
  | .limit _ l | .nonBlocking _ l | .construct _ l => [l]
  | _ => []

namespace TCPServer

variable {s s' t : TCPServer} {l : LoopId} {n : ℕ}

/-- The loops of the connections, in the order in which they were constructed. -/
def assigned (s : TCPServer) : List LoopId := (List.range s.fresh).map fun c => (s.heap c).loop

/-- The loop that was taken for the descriptor the acceptor has at hand. -/
def inHand (s : TCPServer) : List LoopId := (s.loops 0).pc.acceptPc.dealt

/-- The loop whose turn it is after `k` others. -/
def turn (n k : ℕ) : LoopId := if n = 0 then 0 else k % n + 1

/-- The connections that a loop was given. -/
def load (s : TCPServer) (l : LoopId) : ℕ := s.assigned.count l

/-- Two servers that have dealt alike. -/
structure SameDeal (s s' : TCPServer) : Prop where
  threadNum : s'.threadNum = s.threadNum
  next : s'.next = s.next
  fresh : s'.fresh = s.fresh
  loop : ∀ c, (s'.heap c).loop = (s.heap c).loop
  inHand : s'.inHand = s.inHand

namespace SameDeal

theorem trans {s'' : TCPServer} (h : SameDeal s s') (h' : SameDeal s' s'') : SameDeal s s'' where
  threadNum := h'.threadNum.trans h.threadNum
  next := h'.next.trans h.next
  fresh := h'.fresh.trans h.fresh
  loop c := (h'.loop c).trans (h.loop c)
  inHand := h'.inHand.trans h.inHand

/-- What keeps the references in their places deals nothing. -/
theorem of_sameRefs (h : SameRefs s s') (hn : s'.threadNum = s.threadNum)
    (hx : s'.next = s.next) : SameDeal s s' where
  threadNum := hn
  next := hx
  fresh := h.fresh
  loop := h.loop
  inHand := congrArg (fun pc => pc.acceptPc.dealt) (h.pc 0)

/-- A thread goes on, with the loop it had at hand. -/
theorem goto (s : TCPServer) {pc : ServerPc}
    (hd : pc.acceptPc.dealt = (s.loops l).pc.acceptPc.dealt) : SameDeal s (s.goto l pc) where
  threadNum := rfl
  next := rfl
  fresh := rfl
  loop _ := rfl
  inHand := by
    unfold TCPServer.inHand
    rw [loops_goto]
    split
    · next hl => rw [hd, hl]
    · rfl

/-- The same, from where it stands. -/
theorem goto_at {pc₀ pc : ServerPc} (hpc : (s.loops l).pc = pc₀)
    (hd : pc.acceptPc.dealt = pc₀.acceptPc.dealt) : SameDeal s (s.goto l pc) :=
  goto s (hpc ▸ hd)

/-- A thread goes on after something that deals nothing and leaves it where it stands. -/
theorem then_goto (h : SameDeal s t) (ht : (t.loops l).pc = (s.loops l).pc) {pc₀ pc : ServerPc}
    (hpc : (s.loops l).pc = pc₀) (hd : pc.acceptPc.dealt = pc₀.acceptPc.dealt) :
    SameDeal s (t.goto l pc) :=
  h.trans (goto_at (ht.trans hpc) hd)

/-- A change of a loop that leaves its thread where it is. -/
theorem setLoop (s : TCPServer) {L : ServerLoop} (h : L.pc = (s.loops l).pc) :
    SameDeal s { s with loops := Function.update s.loops l L } :=
  ⟨rfl, rfl, rfl, fun _ => rfl, congrArg (fun pc => pc.acceptPc.dealt) (s.pc_update l 0 h)⟩

theorem unlink (s : TCPServer) (c : ConnId) : SameDeal s (s.unlink c) := setLoop s rfl

theorem takePending (s : TCPServer) (l : LoopId) : SameDeal s (s.takePending l) := setLoop s rfl

theorem queueNewEvent (s : TCPServer) (l : LoopId) (c : ConnId) :
    SameDeal s (s.queueNewEvent l c) :=
  setLoop s rfl

theorem setInterest (s : TCPServer) (l : LoopId) (K : EpollSet ChannelPtr) :
    SameDeal s (s.setInterest l K) :=
  setLoop s rfl

theorem setRevents (s : TCPServer) (p : ChannelPtr) (mask : EventMask) :
    SameDeal s (s.setRevents p mask) := by
  refine of_sameRefs (.setRevents s p mask) ?_ ?_ <;> cases p <;> rfl

theorem retain (s : TCPServer) (c : ConnId) : SameDeal s (s.retain c) :=
  ⟨rfl, rfl, rfl, s.loop_retain c, rfl⟩

theorem release (s : TCPServer) (c : ConnId) : SameDeal s (s.release c) :=
  ⟨rfl, rfl, rfl, s.loop_release c, rfl⟩

theorem enableRead (s : TCPServer) (c : ConnId) : SameDeal s (s.enableRead c) :=
  of_sameRefs (.enableRead s c) rfl rfl

theorem handleClose (s : TCPServer) (c : ConnId) : SameDeal s (s.handleClose c) :=
  of_sameRefs (.handleClose s c) rfl rfl

theorem destroyConn (s : TCPServer) (c : ConnId) : SameDeal s (s.destroyConn c) := by
  refine of_sameRefs (.destroyConn s c) ?_ ?_ <;> unfold TCPServer.destroyConn <;> split <;> rfl

theorem put (s : TCPServer) (c : ConnId) : SameDeal s (s.put c) := by
  unfold TCPServer.put
  dsimp only
  split
  · exact ⟨rfl, rfl, rfl, fun _ => rfl, rfl⟩
  · exact (retain s c).trans (setLoop _ rfl)

end SameDeal

/-- **What an event deals**: a loop, a connection, or nothing; or the loop at hand is given
up, with a descriptor that was refused. -/
inductive Deals (s : TCPServer) : TCPServer → Prop where
  | same {t : TCPServer} (h : SameDeal s t) : Deals s t
  | nextLoop {fd k d} (hpc : (s.loops 0).pc = .accept (.nextLoop fd) k d) :
      Deals s (s.getNextLoop.1.goto 0 (.accept (.limit fd s.getNextLoop.2) k d))
  | construct {fd l' k k' d} (hpc : (s.loops 0).pc = .accept (.construct fd l') k d) :
      Deals s ((s.construct fd l').goto 0 (.accept (.runInLoop s.fresh) k' d))
  | refuse {fd l' k k' d} (hpc : (s.loops 0).pc = .accept (.nonBlocking fd l') k d) :
      Deals s (s.goto 0 (.accept .ret k' d))

/-- A statement of a thread. -/
theorem Advances.deals (hs : s.Advances l s') (hp : Placed s) : Deals s s' := by
  cases hs with
  | poll hpc | nextNil hpc | next hpc | handleRet hpc _ | unlinkNone hpc _ | limit hpc _
  | acceptRet hpc | functor hpc _ | functorsEnd hpc _ | dropNil hpc =>
    exact .same (.goto_at hpc rfl)
  | handle hpc _ =>
    refine .same (.goto_at hpc ?_)
    unfold TCPServer.handle
    split <;> rfl
  | readRearm hpc | acceptArm hpc | arm hpc =>
    exact .same ((SameDeal.enableRead s _).then_goto (s.pc_enableRead ..) hpc rfl)
  | readClose hpc =>
    exact .same ((SameDeal.handleClose s _).then_goto (s.pc_handleClose ..) hpc rfl)
  | readDestroy hpc =>
    exact .same ((SameDeal.destroyConn s _).then_goto (s.pc_destroyConn ..) hpc rfl)
  | unlink hpc _ =>
    exact .same ((SameDeal.unlink s _).then_goto (s.pc_unlink ..) hpc rfl)
  | readRelease hpc | dropCallback hpc | dropLocal hpc | drop hpc =>
    refine .same (.trans ?_ (.release _ _))
    exact .goto_at hpc rfl
  | nextLoop hpc =>
    obtain rfl := hp.accept_loop hpc
    exact .nextLoop hpc
  | limitClose hpc _ =>
    have hclose : ∀ fd, SameDeal s (s.close fd) := fun _ => ⟨rfl, rfl, rfl, fun _ => rfl, rfl⟩
    exact .same ((hclose _).then_goto rfl hpc rfl)
  | construct hpc =>
    obtain rfl := hp.accept_loop hpc
    exact .construct hpc
  | runHere hpc _ => exact .same ((SameDeal.retain s _).then_goto rfl hpc rfl)
  | runThere hpc _ _ =>
    refine .same (.trans ?_ (.queueNewEvent _ _ _))
    exact (SameDeal.retain s _).then_goto rfl hpc rfl
  | acceptPut hpc | put hpc =>
    refine .same (.trans ?_ (.put _ _))
    exact .goto_at hpc rfl
  | rearm hpc =>
    exact .same ((SameDeal.of_sameRefs (.rearmAcceptor s) rfl rfl).then_goto
      (s.pc_rearmAcceptor ..) hpc rfl)
  | swap hpc =>
    exact .same ((SameDeal.takePending s _).then_goto (s.pc_takePending ..) hpc rfl)

/-- **Every event.** -/
theorem Moves.deals {e : ServerEvent} (hs : s.Moves e s') (hp : Placed s) : Deals s s' := by
  cases hs with
  | deliver hpc hr =>
    refine .same (((SameDeal.setInterest s _ _).trans (.setRevents _ _ _)).then_goto ?_ hpc rfl)
    rw [loops_setRevents, pc_setInterest]
  | read m hpc => exact .same (.goto_at hpc rfl)
  | accept hpc _ =>
    have haccepted : ∀ r, SameDeal s (s.accepted r) := fun _ => ⟨rfl, rfl, rfl, fun _ => rfl, rfl⟩
    refine .same ((haccepted _).then_goto rfl hpc ?_)
    show (afterAccept _).dealt = []
    unfold afterAccept
    split <;> rfl
  | flags hpc _ => exact .same (.goto_at hpc rfl)
  | noFlags hpc =>
    obtain rfl := hp.accept_loop hpc
    exact .refuse hpc
  | advance hs => exact hs.deals hp

/-- **What was dealt so far**: the connections have the loops whose turn it was; and the
acceptor, unless it is muted, has at hand the loop that is next, or is about to ask for
it. -/
structure Dealt (n : ℕ) (s : TCPServer) : Prop where
  threadNum : s.threadNum = n
  assigned : s.assigned = (List.range s.fresh).map (turn n)
  turns : s.Muted ∨ (0 < n → s.next = (s.fresh + s.inHand.length) % n)
    ∧ ∀ l ∈ s.inHand, l = turn n s.fresh

namespace Dealt

/-- What the acceptor has at hand, from where it stands. -/
theorem inHand_at {pc : ServerPc} (hpc : (s.loops 0).pc = pc) : s.inHand = pc.acceptPc.dealt :=
  congrArg (fun pc => pc.acceptPc.dealt) hpc

/-- A server in `handle_new_conn` is not muted. -/
theorem turns_at (h : Dealt n s) {pos : AcceptPc} {k : AcceptCall} {d : Dispatch}
    (hpc : (s.loops 0).pc = .accept pos k d) (hpos : pos ≠ .ret) :
    (0 < n → s.next = (s.fresh + pos.dealt.length) % n)
      ∧ ∀ l ∈ pos.dealt, l = turn n s.fresh := by
  have hhand : s.inHand = pos.dealt := inHand_at hpc
  rw [← hhand]
  refine h.turns.resolve_left fun hmuted => ?_
  have hahead := hmuted.2
  rw [hpc] at hahead
  cases pos with
  | ret => exact hpos rfl
  | _ => exact hahead List.mem_cons_self

/-- An event that deals nothing. -/
theorem same (h : Dealt n s) (hs : SameDeal s s') (hmuted : s.Muted → s'.Muted) :
    Dealt n s' where
  threadNum := hs.threadNum.trans h.threadNum
  assigned := by
    have hsame : s'.assigned = s.assigned := by
      unfold TCPServer.assigned
      rw [hs.fresh]
      exact List.map_congr_left fun c _ => hs.loop c
    rw [hs.fresh, hsame]
    exact h.assigned
  turns := by
    rw [hs.next, hs.fresh, hs.inHand]
    exact h.turns.imp hmuted id

/-- `get_next_loop` gives the loop whose turn it is. -/
theorem nextLoop (h : Dealt n s) {fd : Fd} {k : AcceptCall} {d : Dispatch}
    (hpc : (s.loops 0).pc = .accept (.nextLoop fd) k d) :
    Dealt n (s.getNextLoop.1.goto 0 (.accept (.limit fd s.getNextLoop.2) k d)) := by
  have hnext : 0 < n → s.next = s.fresh % n := (h.turns_at hpc fun h => by cases h).1
  have hsame : SameRefs s s.getNextLoop.1 := .getNextLoop s
  have hhand : (s.getNextLoop.1.goto 0 (.accept (.limit fd s.getNextLoop.2) k d)).inHand
      = [s.getNextLoop.2] := inHand_at (pc_goto _ 0 _)
  have hfresh : (s.getNextLoop.1.goto 0 (.accept (.limit fd s.getNextLoop.2) k d)).fresh
      = s.fresh := hsame.fresh
  refine ⟨?_, ?_, Or.inr ⟨fun hn => ?_, fun l hl => ?_⟩⟩
  · show s.getNextLoop.1.threadNum = n
    unfold getNextLoop
    split <;> exact h.threadNum
  · rw [hfresh, ← h.assigned]
    unfold TCPServer.assigned
    rw [hfresh]
    exact List.map_congr_left fun c _ => hsame.loop c
  · rw [hhand, hfresh]
    show s.getNextLoop.1.next = (s.fresh + 1) % n
    unfold getNextLoop
    rw [if_neg (h.threadNum ▸ hn.ne'), h.threadNum, hnext hn, Nat.mod_add_mod]
  · rw [hhand, List.mem_singleton] at hl
    rw [hl, hfresh]
    unfold getNextLoop turn
    rw [h.threadNum]
    split
    · rfl
    · next hn => exact congrArg (· + 1) (hnext (Nat.pos_of_ne_zero hn))

/-- A connection is constructed on the loop at hand. -/
theorem construct (h : Dealt n s) {fd : Fd} {l' : LoopId} {k k' : AcceptCall} {d : Dispatch}
    (hpc : (s.loops 0).pc = .accept (.construct fd l') k d) :
    Dealt n ((s.construct fd l').goto 0 (.accept (.runInLoop s.fresh) k' d)) := by
  obtain ⟨hnext, hturn⟩ := h.turns_at hpc fun h => by cases h
  have hl' : l' = turn n s.fresh := hturn l' List.mem_cons_self
  have hempty : ((s.construct fd l').goto 0 (.accept (.runInLoop s.fresh) k' d)).inHand = [] :=
    inHand_at (pc_goto _ 0 _)
  refine ⟨h.threadNum, ?_, Or.inr ⟨fun hn => ?_, fun l hl => ?_⟩⟩
  · show (List.range (s.fresh + 1)).map _ = (List.range (s.fresh + 1)).map (turn n)
    rw [List.range_succ, List.map_append, List.map_append, List.map_singleton,
      List.map_singleton, ← h.assigned, ← hl']
    congr 1
    · refine List.map_congr_left fun c hc => ?_
      exact congrArg TCPConnection.loop (Function.update_of_ne (List.mem_range.mp hc).ne ..)
    · have hnew : Function.update s.heap s.fresh (.new s.fresh l' fd) s.fresh
          = .new s.fresh l' fd := Function.update_self ..
      exact congrArg (fun x : TCPConnection => [x.loop]) hnew
  · rw [hempty]
    exact hnext hn
  · rw [hempty] at hl
    cases hl

/-- The descriptor is refused, and with it the loop at hand; the server is deaf. -/
theorem refuse (h : Dealt n s) (hs : s.Serves 0) (hheard : s.HeardAt (s.loops 0).pc) {fd : Fd}
    {l' : LoopId} {k k' : AcceptCall} {d : Dispatch}
    (hpc : (s.loops 0).pc = .accept (.nonBlocking fd l') k d) :
    Dealt n (s.goto 0 (.accept .ret k' d)) := by
  obtain ⟨-, hhandling, hd, -⟩ := hs.standing hpc
  rw [hpc] at hheard
  obtain ⟨hstage, hdeaf⟩ := hheard
  refine ⟨h.threadNum, h.assigned, Or.inl ⟨?_, ?_⟩⟩
  · obtain ⟨i, hi, harmed⟩ := hdeaf fun h => by cases h
    exact ⟨i, (listening_goto s _).trans hi, harmed⟩
  · rw [pc_goto]
    unfold ServerPc.ahead
    dsimp only
    rw [if_pos (Or.inl hstage)]
    exact hd ▸ hhandling.once

theorem new (n : ℕ) (fd : Fd) (others : Finset Fd) : Dealt n (.new n fd others) where
  threadNum := rfl
  assigned := rfl
  turns := Or.inr ⟨fun _ => (Nat.zero_mod n).symm, fun l hl => by cases hl⟩

end Dealt

/-- **In every reachable state the connections were dealt in turn.** -/
theorem reachable_dealt {fd : Fd} {others : Finset Fd}
    (h : (machine n fd others).Reachable s) : Dealt n s := by
  obtain ⟨tr, ht⟩ := h
  refine Machine.exec_induction (motive := fun _ s => Dealt n s) (.new n fd others) ?_ ht
  intro tr t e t' ht hstep ih
  have hp : Placed t := reachable_placed ⟨tr, ht⟩
  have hs : t.Serves 0 := reachable_serves ⟨tr, ht⟩ 0
  have hm : t.Moves e t' := .of_step hstep
  cases hm.deals hp with
  | same h => exact ih.same h fun hmuted => hmuted.moves hm hp (reachable_owns ⟨tr, ht⟩) hs
  | nextLoop hpc => exact ih.nextLoop hpc
  | construct hpc => exact ih.construct hpc
  | refuse hpc => exact ih.refuse hs (reachable_heardAt ⟨tr, ht⟩).1 hpc

/-- **The connections are spread evenly over the pool**, in every run and in every
interleaving of the threads. Without threads in the pool every connection is on the base
loop. Otherwise the `c`-th connection is on the `c`-th loop of the pool in turn, even where
descriptors were refused; and of all connections that were constructed each loop has been
given its share, which for two loops differs by one at most, and the base loop none. -/
theorem spread_evenly {fd : Fd} {others : Finset Fd} (h : (machine n fd others).Reachable s) :
    (n = 0 → ∀ c < s.fresh, (s.heap c).loop = 0)
      ∧ (0 < n → (∀ c < s.fresh, (s.heap c).loop = c % n + 1) ∧ s.load 0 = 0
        ∧ ∀ k < n, s.load (k + 1) = s.fresh / n + if k < s.fresh % n then 1 else 0) := by
  have hdealt : Dealt n s := reachable_dealt h
  have hloop : ∀ c < s.fresh, (s.heap c).loop = turn n c := by
    intro c hc
    have hget := congrArg (fun xs : List LoopId => xs[c]?) hdealt.assigned
    unfold assigned at hget
    simpa only [List.getElem?_map, List.getElem?_range hc, Option.map_some, Option.some.injEq]
      using hget
  refine ⟨fun hn c hc => ?_, fun hn => ?_⟩
  · rw [hloop c hc, turn, if_pos hn]
  · have hmap : s.assigned = (turns n s.fresh).map (· + 1) := by
      rw [hdealt.assigned]
      unfold turns
      rw [List.map_map]
      exact List.map_congr_left fun c _ => if_neg hn.ne'
    refine ⟨fun c hc => ?_, ?_, fun k hk => ?_⟩
    · rw [hloop c hc, turn, if_neg hn.ne']
    · unfold load
      rw [hmap, List.count_eq_zero]
      intro hmem
      obtain ⟨m, -, hm⟩ := List.mem_map.mp hmem
      exact Nat.succ_ne_zero m hm
    · unfold load
      rw [hmap]
      exact (List.count_map_of_injective _ _ (fun _ _ h => Nat.succ_inj.mp h) k).trans
        (count_turns hk s.fresh)

/-- A turn of the base loop that accepts a descriptor and hands the connection over. -/
def acceptOne (fd : Fd) : List ServerEvent :=
  [.deliver 0 3 epollIn, .step 0, .step 0, .step 0, .step 0, .step 0, .accept 0 fd, .step 0,
    .step 0, .flags 0 true] ++ List.replicate 11 (.step 0)

/-- The third connection is on the loop of the first one. -/
theorem spread_evenly_three :
    ∃ s, (machine 2 3 ∅).exec (machine 2 3 ∅).init
        (acceptOne 10 ++ acceptOne 11 ++ acceptOne 12) = some s
      ∧ (s.heap 2).loop = 1 ∧ s.load 1 = 2 ∧ s.load 2 = 1 := by
  have hrun : ((machine 2 3 ∅).exec (machine 2 3 ∅).init
      (acceptOne 10 ++ acceptOne 11 ++ acceptOne 12)).map (fun s => s.fresh) = some 3 := by
    decide +kernel
  obtain ⟨s, hs, hfresh⟩ := Option.map_eq_some_iff.mp hrun
  obtain ⟨hloop, -, hload⟩ := (spread_evenly ⟨_, hs⟩).2 (by decide)
  rw [hfresh] at hloop hload
  exact ⟨s, hs, hloop 2 (by decide), hload 0 (by decide), hload 1 (by decide)⟩

end TCPServer
