import Shoot.TCPServerPositions

/-!
# The acceptor

`handle_new_conn` accepts one connection and enables the listening channel
again. What it does with the descriptor is recorded call by call, and the
invariant `Accepts` says at each of its statements what the record is: the
descriptor is used, a connection is constructed for it, and the connection is
given to its loop, once each and in this order.

A record says what was called, not what came of it. That is the other invariant,
`Recorded`: a descriptor whose close is recorded is not open; one for which a
connection is recorded is open as long as the connection lives, and closed with it;
and one for which there is neither is open, and nobody has it. Where the connection
is, `Shoot.TCPServerPositions` knows.

Two branches are different. A descriptor beyond `MAXFDS` is closed, and then
used all the same; and where `set_non_blocking` fails the function returns at
once, before the listening channel is enabled. On the second one the
descriptor stays open and nobody has it. A descriptor `0`, which `accept`
returns when the standard input is closed, is taken for an error. So the
acceptor survives exactly the other outcomes
(`TCPServer.acceptor_survives_iff`).
-/

/-- What the current round has still to put, it holds. -/
theorem ServerPc.refs_of_unput {pc : ServerPc} {c : ConnId} (hcall : pc.Calling)
    (h : c ∈ pc.unput) : c ∈ pc.refs := by
  cases pc with
  | functors fs i => exact List.mem_of_mem_drop h
  | put c' fs i =>
    rcases List.mem_cons.mp h with rfl | h
    · exact hcall
    · exact List.mem_of_mem_drop h
  | arm c' fs i => exact List.mem_of_mem_drop h
  | _ => cases h

/-- **Closed once**, and not used after that. -/
def AcceptCall.Closed (k : AcceptCall) : Prop :=
  ∃ uses, (∀ a ∈ uses, a = FdAction.use) ∧ k.actions = uses ++ [.close]

/-- **Handed over once**: to one connection, which was registered with one
loop; and not closed. -/
def AcceptCall.HandedOver (k : AcceptCall) (c : ConnId) (l : LoopId) : Prop :=
  ∃ uses, (∀ a ∈ uses, a = FdAction.use) ∧ k.actions = uses ++ [.construct c, .register c l]

namespace TCPServer

variable {s s' : TCPServer} {l : LoopId} {c : ConnId} {k : AcceptCall}

/-- **The listening channel is armed for reading.** -/
def Listens (s : TCPServer) : Prop :=
  ∃ i, (s.loops 0).epoll.interest s.listenFd = some i ∧ i.data = .acceptor ∧ i.armed = true
    ∧ i.events.has epollIn = true

/-- The descriptor has become the connection `c`, which was given to its
loop. -/
def Handed (s : TCPServer) (k : AcceptCall) (c : ConnId) : Prop :=
  c < s.fresh ∧ 0 < (s.heap c).fd ∧ (s.heap c).fd < maxFds
    ∧ k = ⟨(s.heap c).fd, some true, [.use, .construct c, .register c (s.heap c).loop]⟩

/-- The call has come to its end with an accepted descriptor handed over, or
without one. -/
def Served (s : TCPServer) (k : AcceptCall) : Prop :=
  (k.result ≤ 0 ∧ k.actions = []) ∨ ∃ c, s.Handed k c

/-- **The record of a call** at each statement of `handle_new_conn`. -/
def Accepts (s : TCPServer) (k : AcceptCall) : AcceptPc → Prop
  | .accept => True
  | .nextLoop fd | .limit fd _ => 0 < fd ∧ k = ⟨fd, none, []⟩
  | .nonBlocking fd _ => 0 < fd ∧ k = ⟨fd, none, if maxFds ≤ fd then [.close] else []⟩
  | .construct fd _ => 0 < fd ∧ fd < maxFds ∧ k = ⟨fd, some true, [.use]⟩
  | .runInLoop c => c < s.fresh ∧ 0 < (s.heap c).fd ∧ (s.heap c).fd < maxFds
      ∧ k = ⟨(s.heap c).fd, some true, [.use, .construct c]⟩
  | .put c | .arm c | .dropCallback c | .dropLocal c => s.Handed k c
  | .rearm => s.Served k
  | .ret => s.Listens ∧ s.Served k
      ∨ 0 < k.result ∧ k.flags = some false
        ∧ k.actions = (if maxFds ≤ k.result then [.close] else []) ++ [.use]

/-- The record, wherever the thread of the base loop stands. -/
def AcceptsAt (s : TCPServer) : ServerPc → Prop
  | .accept pos k _ => s.Accepts k pos
  | _ => True

/-- **The invariant of the acceptor.** -/
def Accepting (s : TCPServer) : Prop := s.AcceptsAt (s.loops 0).pc

section Congr

theorem Handed.congr (h : s.Handed k c) (hk : ∀ c < s.fresh,
      (s'.heap c).loop = (s.heap c).loop ∧ (s'.heap c).fd = (s.heap c).fd)
    (hf : s.fresh ≤ s'.fresh) : s'.Handed k c := by
  obtain ⟨hlt, hpos, hmax, hres⟩ := h
  obtain ⟨hl, hfd⟩ := hk c hlt
  unfold Handed
  rw [hl, hfd]
  exact ⟨hlt.trans_le hf, hpos, hmax, hres⟩

theorem Served.congr (h : s.Served k) (hk : ∀ c < s.fresh,
      (s'.heap c).loop = (s.heap c).loop ∧ (s'.heap c).fd = (s.heap c).fd)
    (hf : s.fresh ≤ s'.fresh) : s'.Served k :=
  h.imp id fun ⟨c, hc⟩ => ⟨c, hc.congr hk hf⟩

/-- The record stays true whatever the other loops do. -/
theorem AcceptsAt.congr {pc : ServerPc} (h : s.AcceptsAt pc) (ha : Apart s s' 0) :
    s'.AcceptsAt pc := by
  cases pc with
  | accept pos k d =>
    cases pos with
    | runInLoop c =>
      obtain ⟨hlt, hk⟩ := h
      show c < s'.fresh ∧ 0 < (s'.heap c).fd ∧ (s'.heap c).fd < maxFds ∧ _
      rw [(ha.kept c hlt).2]
      exact ⟨hlt.trans_le ha.fresh, hk⟩
    | put c => exact Handed.congr h ha.kept ha.fresh
    | arm c => exact Handed.congr h ha.kept ha.fresh
    | dropCallback c => exact Handed.congr h ha.kept ha.fresh
    | dropLocal c => exact Handed.congr h ha.kept ha.fresh
    | rearm => exact Served.congr h ha.kept ha.fresh
    | ret =>
      refine Or.imp (fun ⟨hl, hs⟩ => ⟨?_, hs.congr ha.kept ha.fresh⟩) id h
      unfold Listens
      rw [ha.interest, ha.listenFd]
      exact hl
    | _ => exact h
  | _ => trivial

end Congr

namespace Accepting

/-- The base loop's thread goes on. -/
theorem goto {pc : ServerPc} (h : s.AcceptsAt pc) : (s.goto 0 pc).Accepting := by
  unfold Accepting
  rw [pc_goto]
  exact h.congr (Apart.goto s 0 pc 0)

/-- What the base loop does not see keeps the record. -/
theorem congr (h : s.Accepting) (ha : Apart s s' 0) (hpc : (s'.loops 0).pc = (s.loops 0).pc) :
    s'.Accepting := by
  unfold Accepting
  rw [hpc]
  exact AcceptsAt.congr h ha

/-- `set_non_blocking` has the flags: the descriptor was not closed. -/
theorem flags (h : s.Accepting) (ho : Owns s) {fd : Fd} {l' : LoopId} {d : Dispatch}
    (hpc : (s.loops 0).pc = .accept (.nonBlocking fd l') k d) (hfd : fd ∈ s.openFds) :
    (s.goto 0
      (.accept (.construct fd l') ({ k with flags := some true }.act .use) d)).Accepting := by
  unfold Accepting at h
  rw [hpc] at h
  obtain ⟨hpos, hk⟩ := h
  have hlt : ¬ maxFds ≤ fd := by
    intro hle
    refine Owned.gone ho fd ?_ hfd
    unfold gone
    rw [hpc]
    show fd ∈ if maxFds ≤ fd then [fd] else []
    rw [if_pos hle]
    exact List.mem_singleton_self fd
  rw [if_neg hlt] at hk
  refine .goto ⟨hpos, not_le.mp hlt, ?_⟩
  rw [hk]
  rfl

/-- It has not: the call returns at once. -/
theorem noFlags (h : s.Accepting) {fd : Fd} {l' : LoopId} {d : Dispatch}
    (hpc : (s.loops 0).pc = .accept (.nonBlocking fd l') k d) :
    (s.goto 0 (.accept .ret ({ k with flags := some false }.act .use) d)).Accepting := by
  unfold Accepting at h
  rw [hpc] at h
  obtain ⟨hpos, rfl⟩ := h
  exact .goto (Or.inr ⟨hpos, rfl, rfl⟩)

/-- **Each statement of the base loop's thread.** -/
theorem advances (h : s.Accepting) (hp : Placed s) (hs : s.Serves 0) (hm : s.Advances 0 s') :
    s'.Accepting := by
  have hat := h
  unfold Accepting at hat
  cases hm with
  | poll hpc => exact goto trivial
  | nextNil hpc => exact goto trivial
  | next hpc => exact goto trivial
  | handleRet hpc hd => exact goto trivial
  | @handle d hpc hd =>
    have ht := hp.tested hpc hd
    generalize s.handle d = pc at ht ⊢
    cases ht <;> exact goto trivial
  | readRearm hpc => exact goto trivial
  | readClose hpc => exact goto trivial
  | readDestroy hpc => exact goto trivial
  | unlink hpc he => exact goto trivial
  | unlinkNone hpc he => exact goto trivial
  | @readRelease c d hpc =>
    have hg : (s.goto 0 (.handle d)).Accepting := goto trivial
    exact hg.congr (Apart.release _ c 0) rfl
  | nextLoop hpc =>
    rw [hpc] at hat
    exact goto hat
  | @limitClose fd l' k d hpc hfd =>
    rw [hpc] at hat
    obtain ⟨hpos, hk⟩ := hat
    refine goto ⟨hpos, ?_⟩
    rw [hk, if_pos hfd]
    rfl
  | @limit fd l' k d hpc hfd =>
    rw [hpc] at hat
    obtain ⟨hpos, hk⟩ := hat
    refine goto ⟨hpos, ?_⟩
    rw [hk, if_neg hfd]
  | @construct fd l' k d hpc =>
    rw [hpc] at hat
    obtain ⟨hpos, hlt, hk⟩ := hat
    have hnew : ((s.construct fd l').heap s.fresh).fd = fd := by
      show (Function.update s.heap s.fresh _ s.fresh).fd = fd
      rw [Function.update_self]
      rfl
    refine goto ⟨Nat.lt_succ_self _, ?_⟩
    rw [hnew]
    refine ⟨hpos, hlt, ?_⟩
    rw [hk]
    rfl
  | @runHere c k d hpc hl =>
    rw [hpc] at hat
    obtain ⟨hlt, hpos, hmax, hk⟩ := hat
    have ha := Apart.retain s c 0
    refine goto (Handed.congr ⟨hlt, hpos, hmax, ?_⟩ ha.kept ha.fresh)
    rw [hk, hl]
    rfl
  | @runThere c l' k d hpc hl' hl =>
    rw [hpc] at hat
    obtain ⟨hlt, hpos, hmax, hk⟩ := hat
    have hg : ((s.retain c).goto 0
        (.accept (.dropLocal c) (k.act (.register c l')) d)).Accepting := by
      have ha := Apart.retain s c 0
      refine goto (Handed.congr ⟨hlt, hpos, hmax, ?_⟩ ha.kept ha.fresh)
      rw [hk, hl']
      rfl
    exact hg.congr (Apart.queueNewEvent _ l' c 0) (pc_queueNewEvent ..)
  | @acceptPut c k d hpc =>
    rw [hpc] at hat
    have hkept := kept_put (s.goto 0 (.accept (.arm c) k d)) c
    unfold Accepting
    rw [pc_put, pc_goto]
    exact Handed.congr hat (fun c' _ => hkept.1 c') hkept.2.ge
  | @acceptArm c k d hpc =>
    rw [hpc] at hat
    have hsame := SameRefs.enableRead s c
    exact goto (Handed.congr hat (fun c' _ => ⟨hsame.loop c', hsame.fd c'⟩) hsame.fresh.ge)
  | @dropCallback c k d hpc =>
    rw [hpc] at hat
    have hg : (s.goto 0 (.accept (.dropLocal c) k d)).Accepting := goto hat
    exact hg.congr (Apart.release _ c 0) rfl
  | @dropLocal c k d hpc =>
    rw [hpc] at hat
    have hg : (s.goto 0 (.accept .rearm k d)).Accepting := goto (Or.inr ⟨c, hat⟩)
    exact hg.congr (Apart.release _ c 0) rfl
  | @rearm k d hpc =>
    rw [hpc] at hat
    have hserved : s.Served k := hat
    have hsame := SameRefs.rearmAcceptor s
    refine goto (Or.inl ⟨?_, hserved.congr (fun c' _ => ⟨hsame.loop c', hsame.fd c'⟩)
      hsame.fresh.ge⟩)
    refine ⟨⟨s.acceptChannel.event ||| Channel.readEvent, .acceptor, true⟩, ?_, rfl, rfl,
      EventMask.has_or_right (by decide)⟩
    rw [interest_rearmAcceptor hs.books hp.acceptor.1]
    exact Function.update_self ..
  | acceptRet hpc => exact goto trivial
  | swap hpc => exact goto trivial
  | functor hpc hc => exact goto trivial
  | functorsEnd hpc hc => exact goto trivial
  | put hpc =>
    unfold Accepting
    rw [pc_put, pc_goto]
    trivial
  | arm hpc => exact goto trivial
  | dropNil hpc => exact goto trivial
  | @drop c cs hpc =>
    have hg : (s.goto 0 (.drop cs)).Accepting := goto trivial
    exact hg.congr (Apart.release _ c 0) rfl

/-- **Each event.** -/
theorem moves {e : ServerEvent} (h : s.Accepting) (hp : Placed s) (ho : Owns s) (hs : s.Serves 0)
    (hm : s.Moves e s') : s'.Accepting := by
  by_cases hl : e.loop = 0
  · cases hm with
    | @deliver l fd mask active r hpc hr =>
      obtain rfl : l = 0 := hl
      exact goto trivial
    | @read l c d n hpc =>
      obtain rfl : l = 0 := hl
      exact goto trivial
    | @accept l k d r hpc hr =>
      obtain rfl : l = 0 := hl
      refine goto ?_
      unfold afterAccept
      split
      · exact ⟨‹0 < r›, rfl⟩
      · exact Or.inl ⟨not_lt.mp ‹_›, rfl⟩
    | @flags l fd l' k d hpc hfd =>
      obtain rfl : l = 0 := hl
      exact h.flags ho hpc hfd
    | @noFlags l fd l' k d hpc =>
      obtain rfl : l = 0 := hl
      exact h.noFlags hpc
    | @advance l _ ha =>
      obtain rfl : l = 0 := hl
      exact h.advances hp hs ha
  · obtain ⟨ha, hpc⟩ := hm.apart hp hl
    exact h.congr ha hpc

end Accepting

/-- **In every reachable state the record of the call is true.** -/
theorem reachable_accepting {n : ℕ} {fd : Fd} {others : Finset Fd} {s : TCPServer}
    (h : (machine n fd others).Reachable s) : s.Accepting := by
  obtain ⟨tr, ht⟩ := h
  have hall : (machine n fd others).Reachable s ∧ s.Accepting := by
    refine Machine.exec_invariant (I := fun s => (machine n fd others).Reachable s ∧ s.Accepting)
      (fun s e s' ⟨hr, ha⟩ hstep => ⟨hr.step hstep, ?_⟩) ht ⟨⟨[], rfl⟩, trivial⟩
    exact ha.moves (reachable_placed hr) (reachable_owns hr) (reachable_serves hr 0)
      (.of_step hstep)
  exact hall.2

/-! ## What came of the calls -/

/-- **The record is true of the state.** -/
structure Recorded (s : TCPServer) (k : AcceptCall) : Prop where
  /-- What was closed is not open. -/
  closed : .close ∈ k.actions → k.result ∉ s.openFds
  /-- A connection that was constructed has the descriptor, and closes it. -/
  constructed : ∀ c, .construct c ∈ k.actions → c < s.fresh ∧ s.Settled c
  /-- What was neither closed nor given to a connection is open, and nobody has it. -/
  unclaimed : 0 ≤ k.result → .close ∉ k.actions → (∀ c, .construct c ∉ k.actions) →
    s.Unclaimed k.result

namespace Recorded

theorem keeps (h : s.Recorded k) (hk : Keeps s s') (hf : s.fresh ≤ s'.fresh) :
    s'.Recorded k where
  closed hc hopen := h.closed hc (hk.openFds hopen)
  constructed c hc := (h.constructed c hc).imp (fun hlt => hlt.trans_le hf) (hk.settled c)
  unclaimed hres hc hcon := hk.unclaimed _ (h.unclaimed hres hc hcon)

/-- The use and the registration of a descriptor change nothing of this. -/
theorem act {a : FdAction} (h : s.Recorded k) (hc : a ≠ .close) (hcon : ∀ c, a ≠ .construct c) :
    s.Recorded (k.act a) := by
  have hmem : ∀ {b}, b ≠ a → b ∈ (k.act a).actions → b ∈ k.actions := fun hb hm =>
    (List.mem_append.mp hm).resolve_right fun hm => hb (List.mem_singleton.mp hm)
  refine ⟨fun hm => h.closed (hmem hc.symm hm), fun c hm => h.constructed c (hmem (hcon c).symm hm),
    fun hres hm hno => h.unclaimed hres (fun hm' => hm ?_) fun c hm' => hno c ?_⟩
  · exact List.mem_append_left _ hm'
  · exact List.mem_append_left _ hm'

end Recorded

/-- The record of the call that the base loop's thread is in, once `accept` has returned. -/
def Recording (s : TCPServer) : Prop :=
  ∀ pos k d, (s.loops 0).pc = .accept pos k d → pos ≠ .accept → s.Recorded k

namespace Recording

/-- `accept` returns a number that nobody has. -/
theorem accepted (ho : Owns s) {r : ℤ} (hr : r ∉ s.openFds) (pc : ServerPc) :
    ((s.accepted r).goto l pc).Recorded ⟨r, none, []⟩ where
  closed hc := by cases hc
  constructed c hc := by cases hc
  unclaimed hres _ _ := by
    refine ⟨?_, fun c hc hfd => ?_⟩
    · show r ∈ if 0 ≤ r then insert r s.openFds else s.openFds
      rw [if_pos hres]
      exact Finset.mem_insert_self _ _
    · have hopen : (s.heap c).fd ∈ s.openFds := (Owned.isOpen ho c hc).1
      have hr' : (s.heap c).fd = r := hfd
      exact hr (hr' ▸ hopen)

/-- **Each statement of the base loop's thread.** -/
theorem advances (h : s.Recording) (ha : s.Accepting) (hp : Placed s) (ho : Owns s)
    (hm : s.Advances 0 s') : s'.Recording := by
  intro pos k' d' hpc' hpos
  have hk := hm.keeps hp ho
  have hf : s.fresh ≤ s'.fresh := (hm.apart hp Nat.zero_ne_one).1.fresh
  unfold Accepting at ha
  cases hm with
  | @limitClose fd l' k d hpc hfd =>
    rw [pc_goto] at hpc'
    obtain ⟨-, rfl, -⟩ := ServerPc.accept.inj hpc'
    rw [hpc] at ha
    obtain ⟨hpos, rfl⟩ := ha
    refine ⟨fun _ => Finset.notMem_erase _ _, fun c hc => ?_, fun _ hc => ?_⟩
    · cases List.mem_singleton.mp hc
    · exact absurd (List.mem_singleton_self _) hc
  | @construct fd l' k d hpc =>
    rw [pc_goto] at hpc'
    obtain ⟨-, rfl, -⟩ := ServerPc.accept.inj hpc'
    rw [hpc] at ha
    obtain ⟨hpos, -, rfl⟩ := ha
    refine ⟨fun hc => ?_, fun c hc => ?_, fun _ _ hno => ?_⟩
    · simp [AcceptCall.act] at hc
    · obtain rfl : c = s.fresh := by simpa [AcceptCall.act] using hc
      refine ⟨Nat.lt_succ_self _, fun hzero => ?_⟩
      -- the new connection is alive
      have hz : (Function.update s.heap s.fresh _ s.fresh).useCount = 0 := hzero
      rw [Function.update_self] at hz
      cases hz
    · exact absurd (List.mem_append_right _ (List.mem_singleton_self _)) (hno s.fresh)
  | @limit fd l' k d hpc hfd =>
    rw [pc_goto] at hpc'
    obtain ⟨-, rfl, -⟩ := ServerPc.accept.inj hpc'
    exact (h _ _ _ hpc (by simp)).keeps (.goto s 0 _) le_rfl
  | @runHere c k d hpc hl =>
    rw [pc_goto] at hpc'
    obtain ⟨-, rfl, -⟩ := ServerPc.accept.inj hpc'
    exact ((h _ _ _ hpc (by simp)).keeps (hk (by simp [hpc]) (by simp [hpc])) hf).act (by simp)
      (by simp)
  | @runThere c l' k d hpc hl' hl =>
    rw [pc_queueNewEvent, pc_goto] at hpc'
    obtain ⟨-, rfl, -⟩ := ServerPc.accept.inj hpc'
    exact ((h _ _ _ hpc (by simp)).keeps (hk (by simp [hpc]) (by simp [hpc])) hf).act (by simp)
      (by simp)
  | nextLoop hpc | acceptPut hpc | acceptArm hpc | dropCallback hpc | dropLocal hpc | rearm hpc =>
    simp only [pc_put, pc_release, pc_goto] at hpc'
    obtain ⟨-, rfl, -⟩ := ServerPc.accept.inj hpc'
    exact (h _ _ _ hpc (by simp)).keeps (hk (by simp [hpc]) (by simp [hpc])) hf
  | @handle d hpc hd =>
    rw [pc_goto] at hpc'
    have htest := hp.tested hpc hd
    rw [hpc'] at htest
    cases htest
    exact absurd rfl hpos
  | put hpc =>
    rw [pc_put, pc_goto] at hpc'
    cases hpc'
  | readRelease hpc | drop hpc =>
    rw [pc_release, pc_goto] at hpc'
    cases hpc'
  | _ =>
    rw [pc_goto] at hpc'
    cases hpc'

/-- **Each event.** -/
theorem moves {e : ServerEvent} (h : s.Recording) (ha : s.Accepting) (hp : Placed s)
    (ho : Owns s) (hm : s.Moves e s') : s'.Recording := by
  by_cases hl : e.loop = 0
  · intro pos k' d' hpc' hpos
    cases hm with
    | advance hadv =>
      obtain rfl := hl
      exact h.advances ha hp ho hadv pos k' d' hpc' hpos
    | @accept l k d r hpc hr =>
      obtain rfl : l = 0 := hl
      rw [pc_goto] at hpc'
      obtain ⟨-, rfl, -⟩ := ServerPc.accept.inj hpc'
      exact accepted ho hr _
    | @flags l fd l' k d hpc _ | @noFlags l fd l' k d hpc =>
      obtain rfl : l = 0 := hl
      rw [pc_goto] at hpc'
      obtain ⟨-, rfl, -⟩ := ServerPc.accept.inj hpc'
      have hk : s.Recorded k := h _ _ _ hpc (by simp)
      have hflags : ∀ o, s.Recorded { k with flags := o } :=
        fun o => ⟨hk.closed, hk.constructed, hk.unclaimed⟩
      exact ((hflags _).act (by simp) (by simp)).keeps (.goto s 0 _) le_rfl
    | deliver hpc _ | read n hpc =>
      obtain rfl := hl
      exact absurd ((pc_goto ..).symm.trans hpc') (by simp)
  · intro pos k d hpc hpos
    obtain ⟨hapart, hsame⟩ := hm.apart hp hl
    rw [hsame] at hpc
    exact (h pos k d hpc hpos).keeps (hm.keeps hp ho hl) hapart.fresh

end Recording

/-- **In every reachable state what was recorded is so.** -/
theorem reachable_recording {n : ℕ} {fd : Fd} {others : Finset Fd} {s : TCPServer}
    (h : (machine n fd others).Reachable s) : s.Recording := by
  obtain ⟨tr, ht⟩ := h
  have hall : (machine n fd others).Reachable s ∧ s.Recording := by
    refine Machine.exec_invariant (I := fun s => (machine n fd others).Reachable s ∧ s.Recording)
      (fun s e s' ⟨hr, ha⟩ hstep => ⟨hr.step hstep, ?_⟩) ht ⟨⟨[], rfl⟩, fun _ _ _ hpc => ?_⟩
    · exact ha.moves (reachable_accepting hr) (reachable_placed hr) (reachable_owns hr)
        (.of_step hstep)
    · cases hpc
  exact hall.2

/-! ## When `handle_new_conn` returns -/

/-- How often a loop has a connection: to be put, waiting for that, or entered. -/
def placesIn (s : TCPServer) (l : LoopId) (c : ConnId) : ℕ :=
  (s.loops l).pc.unput.count c + (s.loops l).holds (s.heap c).fd c

/-- **Registered with one loop**, once, and with no other. -/
def RegisteredWith (s : TCPServer) (c : ConnId) (l : LoopId) : Prop :=
  s.placesIn l c = 1 ∧ ∀ l' ≠ l, s.placesIn l' c = 0

/-- **The descriptor of the connection is open, and its own**: it is alive, and no other
living connection has the descriptor. -/
def Owner (s : TCPServer) (c : ConnId) : Prop :=
  0 < (s.heap c).useCount ∧ (s.heap c).fd ∈ s.openFds
    ∧ ∀ c', 0 < (s.heap c').useCount → (s.heap c').fd = (s.heap c).fd → c' = c

/-- **The connection has been served**: its peer has closed, and no loop has it any more.
Its descriptor is closed, or the thread of its loop is about to destroy the last reference. -/
def Finished (s : TCPServer) (c : ConnId) (l : LoopId) : Prop :=
  s.Disconnected c ∧ (∀ l', s.placesIn l' c = 0)
    ∧ ((s.heap c).useCount = 0 ∧ (s.heap c).fd ∉ s.openFds
      ∨ s.Owner c ∧ c ∈ (s.loops l).pc.refs)

/-- **The descriptor was handed over** to one connection of one loop, and the connection is
registered there with it; or the loop is through with the connection. -/
structure HandedTo (s : TCPServer) (k : AcceptCall) (c : ConnId) (l : LoopId) : Prop where
  recorded : k.HandedOver c l
  fresh : c < s.fresh
  fd : (s.heap c).fd = k.result
  loop : (s.heap c).loop = l
  placed : s.RegisteredWith c l ∧ s.Owner c ∨ s.Finished c l

/-- **What the acceptor owes**: it listens again, and the descriptor it
accepted, if any, was closed once and is closed, or was handed over once. -/
def Survives (s : TCPServer) (k : AcceptCall) : Prop :=
  s.Listens ∧ (0 ≤ k.result → k.Closed ∧ k.result ∉ s.openFds ∨ ∃ c l, s.HandedTo k c l)

section Places

/-- A connection is at places of its own loop only. -/
theorem placesIn_eq_zero (hp : Placed s) (hl : l ≠ (s.heap c).loop) : s.placesIn l c = 0 := by
  have hunput : c ∉ (s.loops l).pc.unput := fun hc => hl (hp.stack (Or.inr hc)).2.symm
  have hpending : c ∉ (s.loops l).pending := fun hc => hl (hp.home l _ (.pending hc)).2.symm
  have hent : (s.loops l).connections (s.heap c).fd ≠ some c :=
    fun hc => hl (hp.home l _ (.connections hc)).2.symm
  unfold placesIn ServerLoop.holds
  rw [List.count_eq_zero.mpr hunput, List.count_eq_zero.mpr hpending, if_neg hent]

/-- What is with its loop has a place there. -/
theorem placesIn_pos (h : (s.loops l).Has (s.heap c).fd c) : 0 < s.placesIn l c := by
  unfold placesIn ServerLoop.holds
  rcases h with h | h | h
  · have := List.count_pos_iff.mpr h
    omega
  · have := List.count_pos_iff.mpr h
    omega
  · rw [if_pos h]
    omega

/-- A connection that lives owns its descriptor. -/
theorem Owns.owner (ho : Owns s) (hc : 0 < (s.heap c).useCount) : s.Owner c :=
  ⟨hc, (Owned.isOpen ho c hc).1, fun c' hc' hfd => Owned.distinct ho c' c hc' hc hfd⟩

/-- **Where a connection is when the acceptor has let go of it**: with its loop, once, or the
loop is through with it. -/
theorem registered_or_finished (hp : Placed s) (ho : Owns s) (ht : s.Traced)
    (hrefs : (s.loops 0).pc.acceptPc.refs = []) (hunput : (s.loops 0).pc.acceptPc.unput = [])
    (hc : c < s.fresh) (hset : s.Settled c) :
    s.RegisteredWith c (s.heap c).loop ∧ s.Owner c ∨ s.Finished c (s.heap c).loop := by
  have honce : s.placesIn (s.heap c).loop c ≤ 1 := by
    have h := Owned.once ho c
    unfold positions at h
    rw [hunput] at h
    unfold placesIn
    simp only [List.count_nil] at h
    omega
  have hcount : (s.heap c).useCount
      = (s.loops (s.heap c).loop).pc.refs.count c
        + (s.loops (s.heap c).loop).holds (s.heap c).fd c := by
    have h := Owned.count ho c
    unfold uses at h
    rw [hrefs] at h
    simp only [List.count_nil] at h
    omega
  by_cases hplace : 0 < s.placesIn (s.heap c).loop c
  · refine Or.inl ⟨⟨Nat.le_antisymm honce hplace, fun l' hl' => placesIn_eq_zero hp hl'⟩,
      ho.owner ?_⟩
    unfold placesIn at hplace
    rcases Nat.add_pos_iff_pos_or_pos.mp hplace with h | h
    · exact Owned.alive_of_stack ho hp
        (ServerPc.refs_of_unput (Owned.calling ho _) (List.count_pos_iff.mp h))
    · omega
  · have hzero : s.placesIn (s.heap c).loop c = 0 := Nat.eq_zero_of_not_pos hplace
    have hleft : ¬ s.Located c := by
      rintro (h | h)
      · rw [hunput] at h
        cases h
      · exact hplace (placesIn_pos h)
    refine Or.inr ⟨(ht.located c hc).resolve_left hleft, fun l' => ?_, ?_⟩
    · by_cases hl' : l' = (s.heap c).loop
      · rw [hl', hzero]
      · exact placesIn_eq_zero hp hl'
    · by_cases huse : (s.heap c).useCount = 0
      · exact Or.inl ⟨huse, hset huse⟩
      · refine Or.inr ⟨ho.owner (Nat.pos_of_ne_zero huse), List.count_pos_iff.mp ?_⟩
        unfold placesIn at hzero
        omega

end Places

/-- **The outcomes the acceptor survives.** In every run of a server, when
`handle_new_conn` returns, the listening channel is armed again and the
accepted descriptor, if any, was closed exactly once or handed to exactly one
connection, which is registered with exactly one loop or served and gone, if and
only if `accept` failed, or returned a descriptor between 1 and `MAXFDS - 1` whose
flags `set_non_blocking` could read. -/
theorem acceptor_survives_iff {n : ℕ} {fd : Fd} {others : Finset Fd} {s : TCPServer}
    {k : AcceptCall} {d : Dispatch} (h : (machine n fd others).Reachable s)
    (hpc : (s.loops 0).pc = .accept .ret k d) :
    s.Survives k ↔ k.result < 0 ∨ 0 < k.result ∧ k.result < maxFds ∧ k.flags = some true := by
  have hat : s.AcceptsAt (s.loops 0).pc := reachable_accepting h
  rw [hpc] at hat
  -- a record without a disposal does not do for an accepted descriptor
  have hno : ∀ {as : List FdAction}, k.actions = as → as.getLast? ≠ some .close →
      (∀ c l, as.getLast? ≠ some (.register c l)) →
      ¬ (k.Closed ∧ k.result ∉ s.openFds ∨ ∃ c l, s.HandedTo k c l) := by
    rintro as hk hclose hreg (⟨⟨uses, -, hu⟩, -⟩ | ⟨c, l, ⟨uses, -, hu⟩, -⟩)
    · rw [← hk, hu, List.getLast?_append] at hclose
      exact hclose rfl
    · refine hreg c l ?_
      rw [← hk, hu, List.getLast?_append]
      rfl
  rcases hat with ⟨hlisten, ⟨hres, hact⟩ | ⟨c, hlt, hpos, hmax, hk⟩⟩ | ⟨hres, hflags, hact⟩
  · rcases hres.lt_or_eq with hneg | hzero
    · exact iff_of_true ⟨hlisten, fun hge => absurd hneg (not_lt.mpr hge)⟩ (Or.inl hneg)
    · refine iff_of_false (fun hs => hno hact nofun nofun (hs.2 hzero.ge)) fun hor => ?_
      rcases hor with hlt | ⟨hlt, -⟩
      · exact absurd hzero hlt.ne
      · exact absurd hzero hlt.ne'
  · have hrec : s.Recorded k := reachable_recording h .ret k d hpc nofun
    have hset : s.Settled c := (hrec.constructed c (by rw [hk]; simp)).2
    refine iff_of_true ⟨hlisten, fun _ => Or.inr ⟨c, (s.heap c).loop, ⟨[.use], ?_, ?_⟩, hlt, ?_,
      rfl, ?_⟩⟩ (Or.inr ?_)
    · exact fun a ha => List.mem_singleton.mp ha
    · rw [hk]
      rfl
    · rw [hk]
    · exact registered_or_finished (reachable_placed h) (reachable_owns h) (reachable_traced h)
        (by rw [hpc]; rfl) (by rw [hpc]; rfl) hlt hset
    · rw [hk]
      exact ⟨hpos, hmax, rfl⟩
  · have hlast : k.actions.getLast? = some .use := by rw [hact, List.getLast?_append]; rfl
    refine iff_of_false (fun hs => hno rfl ?_ ?_ (hs.2 hres.le)) fun hor => ?_
    · rw [hlast]
      nofun
    · rw [hlast]
      nofun
    · rcases hor with hlt | ⟨-, -, hok⟩
      · exact absurd hlt (not_lt.mpr hres.le)
      · rw [hflags] at hok
        cases hok

/-- A connection is accepted for the base loop itself. -/
theorem acceptor_survives_accept :
    ∃ s : TCPServer, (machine 0 3 ∅).exec (machine 0 3 ∅).init
        ([.deliver 0 3 epollIn, .step 0, .step 0, .step 0, .step 0, .step 0, .accept 0 10, .step 0,
          .step 0, .flags 0 true] ++ List.replicate 7 (.step 0)) = some s
      ∧ s.Survives ⟨10, some true, [.use, .construct 0, .register 0 0]⟩ := by
  have hend : ((machine 0 3 ∅).exec (machine 0 3 ∅).init
      ([.deliver 0 3 epollIn, .step 0, .step 0, .step 0, .step 0, .step 0, .accept 0 10, .step 0,
        .step 0, .flags 0 true] ++ List.replicate 7 (.step 0))).map (fun s => (s.loops 0).pc)
      = some (.accept .ret ⟨10, some true, [.use, .construct 0, .register 0 0]⟩
        ⟨.acceptor, .write, []⟩) := by decide +kernel
  obtain ⟨s, hrun, hpc⟩ := Option.map_eq_some_iff.mp hend
  exact ⟨s, hrun, (acceptor_survives_iff ⟨_, hrun⟩ hpc).mpr (Or.inr (by decide))⟩

/-- **What is left of a descriptor that is not handed over**: beyond `MAXFDS` it was closed,
and then used; below, it is open when the function returns, and nobody has it. -/
theorem acceptor_leaves {n : ℕ} {fd : Fd} {others : Finset Fd} {s : TCPServer}
    {k : AcceptCall} {d : Dispatch} (h : (machine n fd others).Reachable s)
    (hpc : (s.loops 0).pc = .accept .ret k d) (hres : 0 ≤ k.result)
    (hnot : ¬ (0 < k.result ∧ k.flags = some true)) :
    if maxFds ≤ k.result then k.actions = [.close, .use] ∧ k.result ∉ s.openFds
    else s.Unclaimed k.result := by
  have hat : s.AcceptsAt (s.loops 0).pc := reachable_accepting h
  rw [hpc] at hat
  have hrec : s.Recorded k := reachable_recording h .ret k d hpc nofun
  rcases hat with ⟨-, ⟨hle, hact⟩ | ⟨c, -, hpos, -, hk⟩⟩ | ⟨-, -, hact⟩
  · rw [if_neg (not_le.mpr (hle.trans_lt (by decide)))]
    exact hrec.unclaimed hres (by rw [hact]; simp) fun c => by rw [hact]; simp
  · refine absurd ?_ hnot
    rw [hk]
    exact ⟨hpos, rfl⟩
  · split at hact
    · next hmax =>
      rw [if_pos hmax]
      exact ⟨hact, hrec.closed (by rw [hact]; simp)⟩
    · next hmax =>
      rw [if_neg hmax]
      exact hrec.unclaimed hres (by rw [hact]; simp) fun c => by rw [hact]; simp

/-- **At `MAXFDS` the acceptor stops.** The descriptor is closed and then used,
and the function returns without enabling the listening channel. -/
theorem acceptor_stops :
    ∃ s : TCPServer, (machine 0 3 ∅).exec (machine 0 3 ∅).init
        [.deliver 0 3 epollIn, .step 0, .step 0, .step 0, .step 0, .step 0, .accept 0 100000,
          .step 0, .step 0, .flags 0 false] = some s
      ∧ (s.loops 0).pc = .accept .ret ⟨100000, some false, [.close, .use]⟩ ⟨.acceptor, .write, []⟩
      ∧ ¬ s.Listens ∧ ¬ s.Survives ⟨100000, some false, [.close, .use]⟩ := by
  have hend : ((machine 0 3 ∅).exec (machine 0 3 ∅).init
      [.deliver 0 3 epollIn, .step 0, .step 0, .step 0, .step 0, .step 0, .accept 0 100000,
        .step 0, .step 0, .flags 0 false]).map
        (fun s => ((s.loops 0).pc, s.listenFd, ((s.loops 0).epoll.interest 3).map Interest.armed))
      = some (.accept .ret ⟨100000, some false, [.close, .use]⟩ ⟨.acceptor, .write, []⟩, 3,
        some false) := by decide +kernel
  obtain ⟨s, hrun, hs⟩ := Option.map_eq_some_iff.mp hend
  obtain ⟨hpc, hs⟩ := Prod.mk.inj hs
  obtain ⟨hfd, harmed⟩ := Prod.mk.inj hs
  have hdeaf : ¬ s.Listens := by
    rintro ⟨i, hi, -, ha, -⟩
    rw [hfd] at hi
    rw [hi, Option.map_some, Option.some.injEq, ha] at harmed
    cases harmed
  exact ⟨s, hrun, hpc, hdeaf, fun hsv => hdeaf hsv.1⟩

end TCPServer
