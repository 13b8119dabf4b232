import Shoot.TCPServerReferences

/-!
# Who owns a descriptor

Between two steps nothing is in the hand of `Shoot.TCPServerReferences`: every
reference is held somewhere, and the acceptor's descriptor is on its stack
(`Owns`). Each transition of the server keeps this.

What follows is `TCPServer.ownership`: every entry of a loop's `connections_`
is for an open descriptor, owned by that one connection alone and entered
nowhere else, and `put` never finds its key taken.
-/

namespace TCPServer

variable {s s' : TCPServer} {l : LoopId} {c : ConnId} {pc : ServerPc}

/-! ## Between two steps -/

theorem spare_goto (hz : pc.acceptPc.spare ⊆ (s.loops l).pc.acceptPc.spare) :
    (s.goto l pc).spare ⊆ s.spare := by
  unfold spare
  rw [loops_goto]
  split
  · rename_i hl
    rw [hl]
    exact hz
  · exact List.Subset.refl _

theorem gone_goto (hg : pc.acceptPc.gone ⊆ (s.loops l).pc.acceptPc.gone) :
    (s.goto l pc).gone ⊆ s.gone := by
  unfold gone
  rw [loops_goto]
  split
  · rename_i hl
    rw [hl]
    exact hg
  · exact List.Subset.refl _

/-- **What holds between two steps**: nothing is in hand, and the acceptor's
descriptor is on its stack. -/
def Owns (s : TCPServer) : Prop := Owned s [] [] s.spare s.gone

/-- The first of some connections is taken into the hand. -/
theorem count_cons_comm (c : ConnId) (cs : List ConnId) (c' : ConnId) :
    (c :: cs).count c' + ([] : List ConnId).count c' = cs.count c' + [c].count c' := by
  rw [List.count_nil, Nat.add_zero, ← List.count_append]
  exact List.Perm.count_eq (List.perm_append_singleton c cs).symm c'

namespace Owns

theorem congr (h : Owns s) (hs : SameRefs s s') : Owns s' := by
  have hsp : s'.spare = s.spare ∧ s'.gone = s.gone := by
    unfold spare gone
    rw [hs.pc]
    exact ⟨rfl, rfl⟩
  unfold Owns
  rw [hsp.1, hsp.2]
  exact Owned.congr h hs

/-- A thread goes on with what it had. -/
theorem goto_same (h : Owns s) {pc₀ : ServerPc} (hpc : (s.loops l).pc = pc₀)
    (hr : pc.refs = pc₀.refs) (hu : pc.unput = pc₀.unput)
    (har : pc.acceptPc.refs = pc₀.acceptPc.refs) (hau : pc.acceptPc.unput = pc₀.acceptPc.unput)
    (hz : pc.acceptPc.spare ⊆ pc₀.acceptPc.spare) (hg : pc.acceptPc.gone ⊆ pc₀.acceptPc.gone)
    (hcall : pc.Calling) : Owns (s.goto l pc) :=
  (Owned.goto_same h hpc hr hu har hau hcall).mono (spare_goto (hpc ▸ hz)) (gone_goto (hpc ▸ hg))

/-- In particular with all of it. -/
theorem goto_stack (h : Owns s) {pc₀ : ServerPc} (hpc : (s.loops l).pc = pc₀)
    (hst : pc.stack = pc₀.stack) (hcall : pc.Calling) : Owns (s.goto l pc) := by
  obtain ⟨h₁, h₂⟩ := Prod.mk.inj hst
  obtain ⟨hr, hu⟩ := Prod.mk.inj h₁
  obtain ⟨h₃, h₄⟩ := Prod.mk.inj h₂
  obtain ⟨har, hau⟩ := Prod.mk.inj h₃
  obtain ⟨hz, hg⟩ := Prod.mk.inj h₄
  exact h.goto_same hpc hr hu har hau (hz ▸ List.Subset.refl _) (hg ▸ List.Subset.refl _) hcall

/-- And after an operation on a channel. -/
theorem congr_goto (h : Owns s) (hs : SameRefs s s') {pc₀ : ServerPc} (hpc : (s.loops l).pc = pc₀)
    (hst : pc.stack = pc₀.stack) (hcall : pc.Calling) : Owns (s'.goto l pc) :=
  (h.congr hs).goto_stack ((hs.pc l).trans hpc) hst hcall

/-- A thread that is not in `handle_new_conn` exchanges its stack with the
hand, and leaves the acceptor's descriptors alone. -/
theorem goto_loop {x x' y y' : List ConnId} (h : Owned s x y s.spare s.gone) (hp : Placed s)
    {pc₀ : ServerPc} (hpc : (s.loops l).pc = pc₀) (ha₀ : pc₀.acceptPc = .ret)
    (ha : pc.acceptPc = .ret) (hl : ∀ c, c ∈ pc.refs ∨ c ∈ pc.unput → (s.heap c).loop = l)
    (hx : ∀ c, pc₀.refs.count c + x.count c = pc.refs.count c + x'.count c)
    (hy : ∀ c, pc₀.unput.count c + y.count c = pc.unput.count c + y'.count c)
    (hcall : pc.Calling) :
    Owned (s.goto l pc) x' y' (s.goto l pc).spare (s.goto l pc).gone :=
  (h.goto_loop hp hpc ha₀ ha hl hx hy hcall).mono
    (spare_goto (by rw [ha]; exact List.nil_subset _))
    (gone_goto (by rw [ha]; exact List.nil_subset _))

/-- A test of `handle_events`. -/
theorem handle (h : Owns s) (hp : Placed s) {d : Dispatch} (hpc : (s.loops l).pc = .handle d)
    (hd : d.stage ≠ .ret) : Owns (s.goto l (s.handle d)) := by
  have ht := hp.tested hpc hd
  generalize s.handle d = pc at ht ⊢
  cases ht <;> exact h.goto_stack hpc rfl trivial

/-- In `erase`, the entry's reference goes from the table to the stack. -/
theorem unlink (h : Owns s) (hp : Placed s) {c' : ConnId} {d : Dispatch}
    (hpc : (s.loops l).pc = .read c .erase d) (he : s.entry c = some c') :
    Owns ((s.unlink c).goto l (.read c' .release d)) := by
  have hl : (s.heap c).loop = l := (hp.conn_at hpc List.mem_cons_self).2
  have hent : (s.loops (s.heap c).loop).connections (s.heap c).fd = some c' := he
  have hl' : (s.heap c').loop = l := (hp.home _ _ (.connections hent)).2.trans hl
  have hu : Owned (s.unlink c) [c'] [] (s.unlink c).spare (s.unlink c).gone := by
    unfold spare gone
    rw [pc_unlink]
    exact Owned.unlink h hp he
  refine goto_loop hu (hp.unlink c) ((s.pc_unlink l c).trans hpc) rfl rfl (fun c'' hc => ?_)
    (fun c'' => ?_) (fun _ => rfl) trivial
  · rcases hc with hc | hc
    · rw [List.mem_singleton.mp hc]
      exact hl'
    · cases hc
  · show ([] : List ConnId).count c'' + _ = _ + ([] : List ConnId).count c''
    exact Nat.add_comm _ _

/-- Then it is destroyed. -/
theorem releaseEntry (h : Owns s) (hp : Placed s) {d : Dispatch}
    (hpc : (s.loops l).pc = .read c .release d) : Owns ((s.goto l (.handle d)).release c) := by
  have hg : Owned (s.goto l (.handle d)) [c] [] (s.goto l (.handle d)).spare
      (s.goto l (.handle d)).gone :=
    goto_loop h hp hpc rfl rfl (fun _ hc => by rcases hc with hc | hc <;> cases hc)
      (fun _ => Nat.add_comm _ _) (fun _ => rfl) trivial
  exact hg.release

/-- The swap moves the references from the queue to the stack. -/
theorem swap (h : Owns s) (hp : Placed s) (hpc : (s.loops l).pc = .swap) :
    Owns ((s.takePending l).goto l (.functors (s.loops l).pending 0)) := by
  have ht : Owned (s.takePending l) (s.loops l).pending (s.loops l).pending
      (s.takePending l).spare (s.takePending l).gone := by
    unfold spare gone
    rw [pc_takePending]
    exact Owned.takePending h hp
  exact goto_loop ht (hp.takePending l) ((s.pc_takePending l l).trans hpc) rfl rfl
    (fun c hc => (hp.home l _ (.pending (hc.elim id id))).2) (fun _ => Nat.add_comm _ _)
    (fun _ => Nat.add_comm _ _) trivial

/-- `new_event` puts the connection it was made for. -/
theorem put (h : Owns s) (hp : Placed s) {fs : List ConnId} {i : ℕ}
    (hpc : (s.loops l).pc = .put c fs i) : Owns ((s.goto l (.arm c fs i)).put c) := by
  have hc : c < s.fresh := (hp.conn_at hpc List.mem_cons_self).1
  have hmem : c ∈ (s.loops l).pc.refs := by
    have hcall := h.calling l
    rw [hpc] at hcall ⊢
    exact hcall
  have hg : Owned (s.goto l (.arm c fs i)) [] [c] (s.goto l (.arm c fs i)).spare
      (s.goto l (.arm c fs i)).gone := by
    refine goto_loop h hp hpc rfl rfl (fun c' hc' => (hp.stack (l := l) ?_).2) (fun _ => rfl)
      (fun c' => ?_) trivial
    · rw [hpc]
      exact hc'.imp id (List.mem_cons_of_mem c)
    · exact count_cons_comm c (fs.drop (i + 1)) c'
  have hput := hg.put (hp.goto_congr hpc (List.Subset.refl _) (List.Subset.refl _)) hc
    (h.alive_of_stack hp hmem)
  unfold Owns spare gone
  rw [pc_put]
  exact hput

/-- A function that has run is destroyed. -/
theorem dropFunctor (h : Owns s) (hp : Placed s) {fs : List ConnId}
    (hpc : (s.loops l).pc = .drop (c :: fs)) : Owns ((s.goto l (.drop fs)).release c) := by
  have hg : Owned (s.goto l (.drop fs)) [c] [] (s.goto l (.drop fs)).spare
      (s.goto l (.drop fs)).gone := by
    refine goto_loop h hp hpc rfl rfl (fun c' hc' => (hp.stack (l := l) ?_).2) (fun c' => ?_)
      (fun _ => rfl) trivial
    · rw [hpc]
      exact hc'.imp (List.mem_cons_of_mem c) id
    · exact count_cons_comm c fs c'
  exact hg.release

/-! ### The acceptor's statements -/

section Accept

variable {k k' : AcceptCall} {d d' : Dispatch}

/-- The acceptor goes on, and exchanges its locals with the hand. -/
theorem goto_accept {x x' y y' : List ConnId} {z g : List Fd} {pos pos' : AcceptPc}
    (h : Owned s x y z g) (hpc : (s.loops 0).pc = .accept pos k d)
    (hx : ∀ c, pos.refs.count c + x.count c = pos'.refs.count c + x'.count c)
    (hy : ∀ c, pos.unput.count c + y.count c = pos'.unput.count c + y'.count c)
    (hz : pos'.spare ⊆ z) (hg : pos'.gone ⊆ g) :
    Owned (s.goto 0 (.accept pos' k' d')) x' y' (s.goto 0 (.accept pos' k' d')).spare
      (s.goto 0 (.accept pos' k' d')).gone := by
  refine (h.goto_accept hpc hx hy).mono ?_ ?_
  · unfold spare
    rw [pc_goto]
    exact hz
  · unfold gone
    rw [pc_goto]
    exact hg

theorem spare_of_accept {pos : AcceptPc} (hpc : (s.loops 0).pc = .accept pos k d) :
    s.spare = pos.spare ∧ s.gone = pos.gone := by
  unfold spare gone
  rw [hpc]
  exact ⟨rfl, rfl⟩

/-- `accept` returns. -/
theorem accepted (h : Owns s) (hpc : (s.loops 0).pc = .accept .accept k d) {r : ℤ}
    (hr : r ∉ s.openFds) :
    Owns ((s.accepted r).goto 0 (.accept (afterAccept r) k' d)) := by
  have h0 : Owned s [] [] [] [] := h.mono (List.nil_subset _) (List.nil_subset _)
  have ha := h0.accepted hr
  unfold afterAccept
  split
  · rename_i hpos
    rw [if_pos hpos.le] at ha
    exact goto_accept ha hpc (fun _ => rfl) (fun _ => rfl) (List.Subset.refl _) (List.Subset.refl _)
  · exact goto_accept ha hpc (fun _ => rfl) (fun _ => rfl) (List.nil_subset _) (List.Subset.refl _)

/-- A descriptor beyond the limit is closed, and used nevertheless. -/
theorem close (h : Owns s) {fd : Fd} {l' : LoopId} (hfd : maxFds ≤ fd)
    (hpc : (s.loops 0).pc = .accept (.limit fd l') k d) :
    Owns ((s.close fd).goto 0 (.accept (.nonBlocking fd l') k' d)) := by
  have hs := spare_of_accept hpc
  unfold Owns at h
  rw [hs.1, hs.2] at h
  refine goto_accept (Owned.close h) hpc (fun _ => rfl) (fun _ => rfl) ?_ ?_
  · show (if maxFds ≤ fd then [] else [fd]) ⊆ _
    rw [if_pos hfd]
    exact List.Subset.refl _
  · show (if maxFds ≤ fd then [fd] else []) ⊆ _
    rw [if_pos hfd]
    exact List.Subset.refl _

/-- A descriptor that `fcntl` knows was not closed. -/
theorem nonBlocking (h : Owns s) {fd : Fd} {l' : LoopId} (hfd : fd ∈ s.openFds)
    (hpc : (s.loops 0).pc = .accept (.nonBlocking fd l') k d) :
    Owns (s.goto 0 (.accept (.construct fd l') k' d)) := by
  have hs := spare_of_accept hpc
  have hlt : ¬ maxFds ≤ fd := by
    intro hle
    refine h.gone fd ?_ hfd
    rw [hs.2]
    show fd ∈ if maxFds ≤ fd then [fd] else []
    rw [if_pos hle]
    exact List.mem_singleton_self fd
  refine goto_accept h hpc (fun _ => rfl) (fun _ => rfl) ?_ (List.nil_subset _)
  rw [hs.1]
  show [fd] ⊆ if maxFds ≤ fd then [] else [fd]
  rw [if_neg hlt]
  exact List.Subset.refl _

/-- The connection is constructed. -/
theorem construct (h : Owns s) (hp : Placed s) {fd : Fd} {l' : LoopId}
    (hpc : (s.loops 0).pc = .accept (.construct fd l') k d) :
    Owns ((s.construct fd l').goto 0 (.accept (.runInLoop s.fresh) k' d)) := by
  have hs := spare_of_accept hpc
  unfold Owns at h
  rw [hs.1, hs.2] at h
  exact goto_accept (Owned.construct h hp l') hpc (fun _ => Nat.add_comm _ _)
    (fun _ => Nat.add_comm _ _) (List.Subset.refl _) (List.Subset.refl _)

/-- `new_event` is called in place: the function holds a copy. -/
theorem runHere (h : Owns s) (hpc : (s.loops 0).pc = .accept (.runInLoop c) k d) :
    Owns ((s.retain c).goto 0 (.accept (.put c) k' d)) := by
  have hc : 0 < (s.heap c).useCount :=
    h.alive_of_accept (by rw [hpc]; exact List.mem_singleton_self c)
  refine goto_accept (Owned.retain h hc) hpc (fun c' => ?_) (fun _ => rfl) (List.nil_subset _)
    (List.nil_subset _)
  exact (List.count_append ..).symm

/-- Or it is queued with the copy. -/
theorem runThere (h : Owns s) {l' : LoopId} (hl' : (s.heap c).loop = l')
    (hpc : (s.loops 0).pc = .accept (.runInLoop c) k d) :
    Owns (((s.retain c).goto 0 (.accept (.dropLocal c) k' d)).queueNewEvent l' c) := by
  have hc : 0 < (s.heap c).useCount :=
    h.alive_of_accept (by rw [hpc]; exact List.mem_singleton_self c)
  have hg : Owned ((s.retain c).goto 0 (.accept (.dropLocal c) k' d)) [c] [c]
      ((s.retain c).goto 0 (.accept (.dropLocal c) k' d)).spare
      ((s.retain c).goto 0 (.accept (.dropLocal c) k' d)).gone :=
    goto_accept (Owned.retain h hc) hpc (fun _ => rfl) (fun _ => Nat.add_comm _ _)
      (List.nil_subset _) (List.nil_subset _)
  have hq := hg.queueNewEvent ((s.loop_retain c c).trans hl')
  unfold Owns spare gone
  rw [pc_queueNewEvent]
  exact hq

/-- `new_event`, called in place, puts. -/
theorem acceptPut (h : Owns s) (hp : Placed s) (hpc : (s.loops 0).pc = .accept (.put c) k d) :
    Owns ((s.goto 0 (.accept (.arm c) k d)).put c) := by
  have hc : 0 < (s.heap c).useCount :=
    h.alive_of_accept (by rw [hpc]; exact List.mem_cons_self)
  have hlt : c < s.fresh := hp.locals 0 c (by rw [hpc]; exact List.mem_singleton_self c)
  have hg : Owned (s.goto 0 (.accept (.arm c) k d)) [] [c]
      (s.goto 0 (.accept (.arm c) k d)).spare (s.goto 0 (.accept (.arm c) k d)).gone :=
    goto_accept h hpc (fun _ => rfl) (fun _ => Nat.add_comm _ _) (List.nil_subset _)
      (List.nil_subset _)
  have hput := hg.put (hp.goto_congr hpc (List.Subset.refl _) (List.Subset.refl _)) hlt hc
  unfold Owns spare gone
  rw [pc_put]
  exact hput

/-- A local of the acceptor that holds a reference is destroyed. -/
theorem dropAccept (h : Owns s) {pos pos' : AcceptPc} (hpc : (s.loops 0).pc = .accept pos k d)
    (hr : pos.refs = c :: pos'.refs) (hu : pos.unput = pos'.unput) (hsp : pos'.spare = [])
    (hgo : pos'.gone = []) : Owns ((s.goto 0 (.accept pos' k d)).release c) := by
  have hg : Owned (s.goto 0 (.accept pos' k d)) [c] []
      (s.goto 0 (.accept pos' k d)).spare (s.goto 0 (.accept pos' k d)).gone := by
    refine goto_accept h hpc (fun c' => ?_) (fun c' => by rw [hu])
      (by rw [hsp]; exact List.nil_subset _) (by rw [hgo]; exact List.nil_subset _)
    rw [hr]
    exact count_cons_comm c pos'.refs c'
  exact hg.release

end Accept

/-! ### Every transition -/

/-- **Each statement of a loop's thread.** -/
theorem advances (h : Owns s) (hp : Placed s) (hs : s.Advances l s') : Owns s' := by
  cases hs with
  | poll hpc => exact h.goto_stack hpc rfl trivial
  | nextNil hpc => exact h.goto_stack hpc rfl trivial
  | next hpc => exact h.goto_stack hpc rfl trivial
  | handleRet hpc hd => exact h.goto_stack hpc rfl trivial
  | handle hpc hd => exact h.handle hp hpc hd
  | @readRearm c d hpc => exact h.congr_goto (.enableRead s c) hpc rfl trivial
  | @readClose c d hpc => exact h.congr_goto (.handleClose s c) hpc rfl trivial
  | @readDestroy c d hpc => exact h.congr_goto (.destroyConn s c) hpc rfl trivial
  | unlink hpc he => exact h.unlink hp hpc he
  | unlinkNone hpc he => exact h.goto_stack hpc rfl trivial
  | readRelease hpc => exact h.releaseEntry hp hpc
  | nextLoop hpc => exact h.congr_goto (.getNextLoop s) hpc rfl trivial
  | limitClose hpc hfd =>
    obtain rfl := hp.accept_loop hpc
    exact h.close hfd hpc
  | @limit fd l' k d hpc hfd =>
    refine h.goto_stack hpc ?_ trivial
    show (_, _, if maxFds ≤ fd then [] else [fd], if maxFds ≤ fd then [fd] else []) = _
    rw [if_neg hfd, if_neg hfd]
    rfl
  | construct hpc =>
    obtain rfl := hp.accept_loop hpc
    exact h.construct hp hpc
  | runHere hpc hl =>
    obtain rfl := hp.accept_loop hpc
    exact h.runHere hpc
  | runThere hpc hl' hl =>
    obtain rfl := hp.accept_loop hpc
    exact h.runThere hl' hpc
  | acceptPut hpc =>
    obtain rfl := hp.accept_loop hpc
    exact h.acceptPut hp hpc
  | @acceptArm c k d hpc => exact h.congr_goto (.enableRead s c) hpc rfl trivial
  | dropCallback hpc =>
    obtain rfl := hp.accept_loop hpc
    exact h.dropAccept hpc rfl rfl rfl rfl
  | dropLocal hpc =>
    obtain rfl := hp.accept_loop hpc
    exact h.dropAccept hpc rfl rfl rfl rfl
  | rearm hpc => exact h.congr_goto (.rearmAcceptor s) hpc rfl trivial
  | acceptRet hpc => exact h.goto_stack hpc rfl trivial
  | swap hpc => exact h.swap hp hpc
  | @functor fs i c hpc hc =>
    have hdrop : fs.drop i = c :: fs.drop (i + 1) := by
      obtain ⟨hi, hc⟩ := List.getElem?_eq_some_iff.mp hc
      rw [List.drop_eq_getElem_cons hi, hc]
    refine h.goto_stack hpc ?_ (List.mem_of_getElem? hc)
    show ((fs, c :: fs.drop (i + 1)), _) = ((fs, fs.drop i), _)
    rw [hdrop]
    rfl
  | @functorsEnd fs i hpc hc =>
    have hdrop : fs.drop i = [] := List.drop_eq_nil_of_le (List.getElem?_eq_none_iff.mp hc)
    refine h.goto_stack hpc ?_ trivial
    show ((fs, []), _) = ((fs, fs.drop i), _)
    rw [hdrop]
    rfl
  | put hpc => exact h.put hp hpc
  | @arm c fs i hpc => exact h.congr_goto (.enableRead s c) hpc rfl trivial
  | dropNil hpc => exact h.goto_stack hpc rfl trivial
  | drop hpc => exact h.dropFunctor hp hpc

/-- **Each event.** -/
theorem moves {e : ServerEvent} (h : Owns s) (hp : Placed s) (hs : s.Moves e s') : Owns s' := by
  cases hs with
  | @deliver l fd mask active r hpc hr =>
    have hsame : SameRefs s ((s.setInterest l r.1).setRevents r.2 mask) :=
      (SameRefs.setInterest s l r.1).trans (SameRefs.setRevents _ r.2 mask)
    exact h.congr_goto hsame hpc rfl trivial
  | @read l c d n hpc =>
    refine h.goto_stack hpc ?_ trivial
    unfold afterRead
    split
    · rfl
    · split <;> rfl
  | accept hpc hr =>
    obtain rfl := hp.accept_loop hpc
    exact h.accepted hpc hr
  | flags hpc hfd =>
    obtain rfl := hp.accept_loop hpc
    exact h.nonBlocking hfd hpc
  | noFlags hpc =>
    exact h.goto_same hpc rfl rfl rfl rfl (List.nil_subset _) (List.nil_subset _) trivial
  | advance hs => exact h.advances hp hs

/-- A new server has no connections. -/
theorem new (n : ℕ) (fd : Fd) (others : Finset Fd) : Owns (.new n fd others) where
  count c := rfl
  once c := Nat.zero_le 1
  isOpen c hc := absurd hc (lt_irrefl 0)
  distinct c c' hc := absurd hc (lt_irrefl 0)
  spare fd hfd := by cases hfd
  gone fd hfd := by cases hfd
  listen := Finset.mem_insert_self _ _
  fresh c _ := rfl
  calling l := trivial

end Owns

/-- **In every reachable state the references are counted.** -/
theorem reachable_owns {n : ℕ} {fd : Fd} {others : Finset Fd} {s : TCPServer}
    (h : (machine n fd others).Reachable s) : Owns s := by
  have hboth : Placed s ∧ Owns s :=
    h.invariant (I := fun s => Placed s ∧ Owns s) ⟨Placed.new n fd others, Owns.new n fd others⟩
      fun _ _ _ hi hs => ⟨hi.1.moves (.of_step hs), hi.2.moves hi.1 (.of_step hs)⟩
  exact hboth.2

/-- A connection that is about to be put is alive, and has a position that is
not its entry. -/
theorem Owned.of_putting {x y : List ConnId} {z g : List Fd} (h : Owned s x y z g) (hp : Placed s)
    (hc : (s.loops l).pc.putting = some c) :
    c < s.fresh ∧ 0 < (s.heap c).useCount
      ∧ (s.loops (s.heap c).loop).holds (s.heap c).fd c < s.positions c + y.count c := by
  unfold ServerPc.putting at hc
  unfold positions
  split at hc
  · rename_i c' fs i hpc
    cases hc
    have hcall := h.calling l
    rw [hpc] at hcall
    have hmem : c ∈ (s.loops l).pc.refs := by rw [hpc]; exact hcall
    have hl := hp.stack (.inl hmem)
    refine ⟨hl.1, h.alive_of_stack hp hmem, ?_⟩
    rw [hl.2, hpc]
    show _ < _ + (c :: _).count c + _ + _
    rw [List.count_cons_self]
    omega
  · rename_i c' k d hpc
    cases hc
    obtain rfl := hp.accept_loop hpc
    refine ⟨hp.locals 0 c ?_, h.alive_of_accept ?_, ?_⟩
    · rw [hpc]
      exact List.mem_singleton_self c
    · rw [hpc]
      exact List.mem_cons_self
    · rw [hpc]
      show _ < [c].count c + _ + _ + _
      rw [List.count_singleton_self]
      omega
  · cases hc

/-- After a `put` that found its key absent, the entry is there. -/
theorem entry_put (hfd : (s.heap c).channel.fd = (s.heap c).fd) (hnone : s.entry c = none) :
    (s.put c).entry c = some c := by
  have hent : (s.loops (s.heap c).loop).connections (s.heap c).fd = none := hnone
  unfold put
  dsimp only
  rw [hfd, hent]
  show (Function.update s.loops (s.heap c).loop _ (Function.update s.heap c _ c).loop).connections
    (Function.update s.heap c _ c).fd = some c
  rw [Function.update_self]
  show (Function.update s.loops (s.heap c).loop _ (s.heap c).loop).connections (s.heap c).fd
    = some c
  rw [Function.update_self]
  exact Function.update_self ..

/-- **Every entry owns its descriptor.** In every reachable state of a server
with any number of loops, an entry of `connections_` is under the descriptor
of its connection; that descriptor is open, and the connection is alive and
the only living one that has it; no other loop has an entry for it. So
whenever a thread is about to execute `put`, the key is absent, and the
insertion takes effect. -/
theorem ownership {n : ℕ} {fd : Fd} {others : Finset Fd} {s : TCPServer}
    (h : (machine n fd others).Reachable s) :
    (∀ l f c, (s.loops l).connections f = some c →
      (s.heap c).fd = f ∧ f ∈ s.openFds ∧ 0 < (s.heap c).useCount
        ∧ (∀ c', 0 < (s.heap c').useCount → (s.heap c').fd = f → c' = c)
        ∧ ∀ l' c', (s.loops l').connections f = some c' → l' = l)
      ∧ ∀ l c, (s.loops l).pc.putting = some c →
        (s.loops (s.heap c).loop).connections (s.heap c).channel.fd = none
          ∧ (s.put c).entry c = some c := by
  have hp : Placed s := reachable_placed h
  have ho : Owned s [] [] s.spare s.gone := reachable_owns h
  refine ⟨fun l f c hc => ?_, fun l c hc => ?_⟩
  · have hf : (s.heap c).fd = f := hp.entries l f c hc
    have hlive : 0 < (s.heap c).useCount := ho.alive_of_entry hp hc
    refine ⟨hf, hf ▸ (ho.isOpen c hlive).1, hlive, fun c' hc' hf' => ?_, fun l' c' hc' => ?_⟩
    · exact ho.distinct c' c hc' hlive (hf'.trans hf.symm)
    · -- the two entries are of the same connection, which has one loop
      have hsame : c' = c := ho.distinct c' c (ho.alive_of_entry hp hc') hlive
        ((hp.entries l' f c' hc').trans hf.symm)
      rw [← (hp.home l' _ (.connections hc')).2, ← (hp.home l _ (.connections hc)).2, hsame]
  · obtain ⟨hlt, hlive, hput⟩ := ho.of_putting hp hc
    have hnone : s.entry c = none := ho.absent hp hlive hput
    have hfd : (s.heap c).channel.fd = (s.heap c).fd := (hp.formed c hlt).fd
    exact ⟨(congrArg _ hfd).trans hnone, entry_put hfd hnone⟩

/-- A connection is handed to the loop of the pool, which is about to put it. -/
theorem ownership_handOff :
    ∃ s : TCPServer, (machine 1 3 ∅).exec (machine 1 3 ∅).init
        [.deliver 0 3 epollIn, .step 0, .step 0, .step 0, .step 0, .step 0, .accept 0 10,
          .step 0, .step 0, .flags 0 true, .step 0, .step 0, .step 0,
          .step 1, .step 1, .step 1, .step 1] = some s
      ∧ (s.loops 1).pc.putting = some 0 ∧ (s.put 0).entry 0 = some 0 := by
  have hrun : (machine 1 3 ∅).exec (machine 1 3 ∅).init
      [.deliver 0 3 epollIn, .step 0, .step 0, .step 0, .step 0, .step 0, .accept 0 10,
        .step 0, .step 0, .flags 0 true, .step 0, .step 0, .step 0,
        .step 1, .step 1, .step 1, .step 1] = some _ := rfl
  exact ⟨_, hrun, rfl, ((ownership ⟨_, hrun⟩).2 1 0 rfl).2⟩

end TCPServer
