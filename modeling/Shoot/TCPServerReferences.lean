import Mathlib.Data.List.Count
import Shoot.TCPServerPlaces

/-!
# The references to a connection

A connection lives as long as someone holds a strong reference to it, and its
descriptor is open as long as it lives. The references are held in few places:
by the acceptor while it hands the connection over, by the functions queued
for its loop and being run by it, by the entry of `connections_`, and by
`erase` while it destroys the entry it has unlinked. The count is the number
of them (`Owned.count`), so a connection that is entered is alive.

Beside the references, two things are counted. A connection that was handed
over is in at most one of three positions: waiting to be put, or entered, or
neither any more (`Owned.once`). And a descriptor the acceptor has accepted
and not used yet belongs to nobody (`Owned.spare`).

A step takes references from one place and leaves them in another, so the
invariant is stated with a **hand**: references and connections to be put that
are on their way. Each operation takes something into the hand or lays it
down, and a thread that goes on exchanges the hand with its stack. The
descriptors the acceptor works on are given apart; between two steps they are
the ones on its stack.
-/

/-! ## What a stack holds -/

/-- The references `handle_new_conn` holds. -/
def AcceptPc.refs : AcceptPc → List ConnId
  | .runInLoop c | .dropLocal c => [c]
  | .put c | .arm c | .dropCallback c => [c, c]
  | _ => []

/-- The connection `handle_new_conn` has still to hand over, or to put. -/
def AcceptPc.unput : AcceptPc → List ConnId
  | .runInLoop c | .put c => [c]
  | _ => []

/-- The descriptor `handle_new_conn` has accepted and not used. -/
def AcceptPc.spare : AcceptPc → List Fd
  | .nextLoop fd | .limit fd _ | .construct fd _ => [fd]
  | .nonBlocking fd _ => if TCPServer.maxFds ≤ fd then [] else [fd]
  | _ => []

/-- The descriptor `handle_new_conn` has closed, and is about to use. -/
def AcceptPc.gone : AcceptPc → List Fd
  | .nonBlocking fd _ => if TCPServer.maxFds ≤ fd then [fd] else []
  | _ => []

namespace ServerPc

/-- Where the thread stands in `handle_new_conn`, if it does. -/
def acceptPc : ServerPc → AcceptPc
  | .accept pos _ _ => pos
  | _ => .ret

/-- The references the thread holds outside `handle_new_conn`. -/
def refs : ServerPc → List ConnId
  | .read c .release _ => [c]
  | .functors fs _ | .put _ fs _ | .arm _ fs _ | .drop fs => fs
  | _ => []

/-- The connections the current round has still to put. -/
def unput : ServerPc → List ConnId
  | .functors fs i => fs.drop i
  | .put c fs i => c :: fs.drop (i + 1)
  | .arm _ fs i => fs.drop (i + 1)
  | _ => []

/-- The connection the thread is about to put. -/
def putting : ServerPc → Option ConnId
  | .put c _ _ | .accept (.put c) _ _ => some c
  | _ => none

/-- **What is on the thread's stack**: its references and the connections it
has to put, and those of `handle_new_conn` with its descriptors. -/
def stack (pc : ServerPc) : (List ConnId × List ConnId) × (List ConnId × List ConnId)
    × List Fd × List Fd :=
  ((pc.refs, pc.unput), (pc.acceptPc.refs, pc.acceptPc.unput), pc.acceptPc.spare, pc.acceptPc.gone)

/-- What the stack holds is at hand. -/
theorem mem_pointers {pc : ServerPc} {c : ConnId} (h : c ∈ pc.refs ∨ c ∈ pc.unput) :
    .conn c ∈ pc.pointers := by
  have hdrop : ∀ {fs : List ConnId} {i}, c ∈ fs.drop i → ChannelPtr.conn c ∈ fs.map .conn :=
    fun hc => List.mem_map_of_mem (List.mem_of_mem_drop hc)
  cases pc with
  | read c' pos d =>
    cases pos with
    | release =>
      rcases h with h | h
      · rw [List.mem_singleton.mp h]
        exact List.mem_cons_self
      · cases h
    | _ => rcases h with h | h <;> cases h
  | functors fs i =>
    rcases h with h | h
    · exact List.mem_map_of_mem h
    · exact hdrop h
  | put c' fs i =>
    rcases h with h | h
    · exact List.mem_cons_of_mem _ (List.mem_map_of_mem h)
    · rcases List.mem_cons.mp h with h | h
      · rw [h]
        exact List.mem_cons_self
      · exact List.mem_cons_of_mem _ (hdrop h)
  | arm c' fs i =>
    rcases h with h | h
    · exact List.mem_cons_of_mem _ (List.mem_map_of_mem h)
    · exact List.mem_cons_of_mem _ (hdrop h)
  | drop fs =>
    rcases h with h | h
    · exact List.mem_map_of_mem h
    · cases h
  | _ => rcases h with h | h <;> cases h

/-- And what `handle_new_conn` holds is what it works on. -/
theorem mem_locals {pc : ServerPc} {c : ConnId}
    (h : c ∈ pc.acceptPc.refs ∨ c ∈ pc.acceptPc.unput) : c ∈ pc.locals := by
  cases pc with
  | accept pos k d =>
    cases pos <;> simp_all [acceptPc, locals, AcceptPc.refs, AcceptPc.unput, AcceptPc.locals]
  | _ => rcases h with h | h <;> cases h

/-- The function that is called is one of `functors`. -/
def Calling : ServerPc → Prop
  | .put c fs _ => c ∈ fs
  | _ => True

end ServerPc

/-- How often a loop holds a connection outside its thread's stack: in
`pending_functions_`, and under its descriptor in `connections_`. -/
def ServerLoop.holds (L : ServerLoop) (fd : Fd) (c : ConnId) : ℕ :=
  L.pending.count c + if L.connections fd = some c then 1 else 0

theorem ServerLoop.holds_mk (ep : Epoll ChannelPtr) (ps : List ConnId) (m : Fd → Option ConnId)
    (pc : ServerPc) (fd : Fd) (c : ConnId) :
    (ServerLoop.mk ep ps m pc).holds fd c = ps.count c + if m fd = some c then 1 else 0 :=
  rfl

namespace TCPServer

variable {s s' : TCPServer} {l : LoopId} {c : ConnId} {pc : ServerPc}

/-! ## Counting -/

/-- **The strong references to a connection** that are held somewhere. -/
def uses (s : TCPServer) (c : ConnId) : ℕ :=
  (s.loops 0).pc.acceptPc.refs.count c + (s.loops (s.heap c).loop).pc.refs.count c
    + (s.loops (s.heap c).loop).holds (s.heap c).fd c

/-- **The positions of a connection**: how often it is waiting to be put, and
whether it is entered. -/
def positions (s : TCPServer) (c : ConnId) : ℕ :=
  (s.loops 0).pc.acceptPc.unput.count c + (s.loops (s.heap c).loop).pc.unput.count c
    + (s.loops (s.heap c).loop).holds (s.heap c).fd c

/-- **The references are counted, and the descriptors owned**, with the
references `x` and the connections to be put `y` in hand, the accepted
descriptors `z` not used yet, and the closed ones `g` about to be used. -/
structure Owned (s : TCPServer) (x y : List ConnId) (z g : List Fd) : Prop where
  /-- The count of a connection is the number of its references. -/
  count : ∀ c, (s.heap c).useCount = s.uses c + x.count c
  /-- A connection is in one position at most. -/
  once : ∀ c, s.positions c + y.count c ≤ 1
  /-- A living connection has an open descriptor, and not the listening one. -/
  isOpen : ∀ c, 0 < (s.heap c).useCount → (s.heap c).fd ∈ s.openFds ∧ (s.heap c).fd ≠ s.listenFd
  /-- No two living connections have the same. -/
  distinct : ∀ c c', 0 < (s.heap c).useCount → 0 < (s.heap c').useCount →
    (s.heap c).fd = (s.heap c').fd → c = c'
  /-- An accepted descriptor that is not used yet belongs to none of them. -/
  spare : ∀ fd ∈ z, fd ∈ s.openFds ∧ fd ≠ s.listenFd
    ∧ ∀ c, 0 < (s.heap c).useCount → (s.heap c).fd ≠ fd
  /-- One that was closed stays closed. -/
  gone : ∀ fd ∈ g, fd ∉ s.openFds
  /-- The listening descriptor is open. -/
  listen : s.listenFd ∈ s.openFds
  /-- Nothing lives at an address that is not in use. -/
  fresh : ∀ c, s.fresh ≤ c → (s.heap c).useCount = 0
  /-- The functions that run are held by their loops. -/
  calling : ∀ l, (s.loops l).pc.Calling

/-- The descriptor the acceptor has accepted and not used. -/
def spare (s : TCPServer) : List Fd := (s.loops 0).pc.acceptPc.spare

/-- The descriptor the acceptor has closed, and is about to use. -/
def gone (s : TCPServer) : List Fd := (s.loops 0).pc.acceptPc.gone

/-- Two servers with the same references in the same places. -/
structure SameRefs (s s' : TCPServer) : Prop where
  useCount : ∀ c, (s'.heap c).useCount = (s.heap c).useCount
  loop : ∀ c, (s'.heap c).loop = (s.heap c).loop
  fd : ∀ c, (s'.heap c).fd = (s.heap c).fd
  pc : ∀ l, (s'.loops l).pc = (s.loops l).pc
  pending : ∀ l, (s'.loops l).pending = (s.loops l).pending
  connections : ∀ l, (s'.loops l).connections = (s.loops l).connections
  openFds : s'.openFds = s.openFds
  listenFd : s'.listenFd = s.listenFd
  fresh : s'.fresh = s.fresh

namespace SameRefs

theorem refl (s : TCPServer) : SameRefs s s :=
  ⟨fun _ => rfl, fun _ => rfl, fun _ => rfl, fun _ => rfl, fun _ => rfl, fun _ => rfl, rfl, rfl,
    rfl⟩

theorem trans {s'' : TCPServer} (h : SameRefs s s') (h' : SameRefs s' s'') : SameRefs s s'' where
  useCount c := (h'.useCount c).trans (h.useCount c)
  loop c := (h'.loop c).trans (h.loop c)
  fd c := (h'.fd c).trans (h.fd c)
  pc l := (h'.pc l).trans (h.pc l)
  pending l := (h'.pending l).trans (h.pending l)
  connections l := (h'.connections l).trans (h.connections l)
  openFds := h'.openFds.trans h.openFds
  listenFd := h'.listenFd.trans h.listenFd
  fresh := h'.fresh.trans h.fresh

/-- A change of a loop's `Epoll`. -/
theorem setLoop (s : TCPServer) {L : ServerLoop} (hpc : L.pc = (s.loops l).pc)
    (hp : L.pending = (s.loops l).pending) (hc : L.connections = (s.loops l).connections) :
    SameRefs s { s with loops := Function.update s.loops l L } := by
  have key : ∀ l', (Function.update s.loops l L l').pc = (s.loops l').pc
      ∧ (Function.update s.loops l L l').pending = (s.loops l').pending
      ∧ (Function.update s.loops l L l').connections = (s.loops l').connections :=
    (Function.forall_update_iff s.loops fun l' L' => L'.pc = (s.loops l').pc
      ∧ L'.pending = (s.loops l').pending ∧ L'.connections = (s.loops l').connections).mpr
        ⟨⟨hpc, hp, hc⟩, fun _ _ => ⟨rfl, rfl, rfl⟩⟩
  exact ⟨fun _ => rfl, fun _ => rfl, fun _ => rfl, fun l' => (key l').1, fun l' => (key l').2.1,
    fun l' => (key l').2.2, rfl, rfl, rfl⟩

/-- A change of a connection's channel or state. -/
theorem setConn (s : TCPServer) {x : TCPConnection} (hu : x.useCount = (s.heap c).useCount)
    (hl : x.loop = (s.heap c).loop) (hf : x.fd = (s.heap c).fd) :
    SameRefs s { s with heap := Function.update s.heap c x } := by
  have key : ∀ c', (Function.update s.heap c x c').useCount = (s.heap c').useCount
      ∧ (Function.update s.heap c x c').loop = (s.heap c').loop
      ∧ (Function.update s.heap c x c').fd = (s.heap c').fd :=
    (Function.forall_update_iff s.heap fun c' y => y.useCount = (s.heap c').useCount
      ∧ y.loop = (s.heap c').loop ∧ y.fd = (s.heap c').fd).mpr
        ⟨⟨hu, hl, hf⟩, fun _ _ => ⟨rfl, rfl, rfl⟩⟩
  exact ⟨fun c' => (key c').1, fun c' => (key c').2.1, fun c' => (key c').2.2, fun _ => rfl,
    fun _ => rfl, fun _ => rfl, rfl, rfl, rfl⟩

theorem connChannel (s : TCPServer) (c : ConnId) (f) : SameRefs s (s.connChannel c f) := by
  have h : SameRefs s { s with
      loops := Function.update s.loops (s.heap c).loop { s.loops (s.heap c).loop with
        epoll := (f (s.loops (s.heap c).loop).epoll (.conn c) (s.heap c).channel).1 } } :=
    setLoop s rfl rfl rfl
  refine h.trans ?_
  exact setConn _ rfl rfl rfl

theorem enableRead (s : TCPServer) (c : ConnId) : SameRefs s (s.enableRead c) :=
  connChannel s c _

theorem handleClose (s : TCPServer) (c : ConnId) : SameRefs s (s.handleClose c) := by
  have h : SameRefs s { s with
      heap := Function.update s.heap c { s.heap c with connectionState := .disconnected } } :=
    setConn s rfl rfl rfl
  exact h.trans (connChannel _ c _)

theorem destroyConn (s : TCPServer) (c : ConnId) : SameRefs s (s.destroyConn c) := by
  unfold TCPServer.destroyConn
  split
  · exact (handleClose s c).trans (connChannel _ c _)
  · exact connChannel s c _

theorem setInterest (s : TCPServer) (l : LoopId) (K) : SameRefs s (s.setInterest l K) :=
  setLoop s rfl rfl rfl

theorem setRevents (s : TCPServer) (p : ChannelPtr) (mask) : SameRefs s (s.setRevents p mask) := by
  cases p with
  | acceptor => exact ⟨fun _ => rfl, fun _ => rfl, fun _ => rfl, fun _ => rfl, fun _ => rfl,
      fun _ => rfl, rfl, rfl, rfl⟩
  | conn c => exact setConn s rfl rfl rfl

theorem rearmAcceptor (s : TCPServer) : SameRefs s s.rearmAcceptor := by
  have h : SameRefs s { s with
      loops := Function.update s.loops 0 { s.loops 0 with
        epoll := (s.acceptChannel.enableRead (s.loops 0).epoll .acceptor).1 } } :=
    setLoop s rfl rfl rfl
  exact ⟨h.useCount, h.loop, h.fd, h.pc, h.pending, h.connections, rfl, rfl, rfl⟩

theorem getNextLoop (s : TCPServer) : SameRefs s s.getNextLoop.1 := by
  unfold TCPServer.getNextLoop
  split
  · exact refl s
  · exact ⟨fun _ => rfl, fun _ => rfl, fun _ => rfl, fun _ => rfl, fun _ => rfl, fun _ => rfl,
      rfl, rfl, rfl⟩

theorem uses (h : SameRefs s s') (c : ConnId) : s'.uses c = s.uses c := by
  unfold TCPServer.uses ServerLoop.holds
  rw [h.loop, h.fd, h.pc, h.pc, h.pending, h.connections]

theorem positions (h : SameRefs s s') (c : ConnId) : s'.positions c = s.positions c := by
  unfold TCPServer.positions ServerLoop.holds
  rw [h.loop, h.fd, h.pc, h.pc, h.pending, h.connections]

end SameRefs

/-! ## Goings on -/

/-- The references to a connection on the stack of a thread, as far as they
count. -/
def stackRefs (s : TCPServer) (l : LoopId) (pc : ServerPc) (c : ConnId) : ℕ :=
  (if l = 0 then pc.acceptPc.refs.count c else 0)
    + if (s.heap c).loop = l then pc.refs.count c else 0

/-- Whether a thread has a connection to put, as far as it counts. -/
def stackUnput (s : TCPServer) (l : LoopId) (pc : ServerPc) (c : ConnId) : ℕ :=
  (if l = 0 then pc.acceptPc.unput.count c else 0)
    + if (s.heap c).loop = l then pc.unput.count c else 0

/-- A loop after one of the threads went on. -/
theorem loops_goto (s : TCPServer) (l l' : LoopId) (pc : ServerPc) :
    (s.goto l pc).loops l' = if l' = l then { s.loops l with pc := pc } else s.loops l' :=
  Function.update_apply ..

/-- **What is counted at the base loop and at one loop more**, when a thread goes on: it
exchanges what its own stack adds to the count. -/
theorem count_goto (s : TCPServer) (l l₁ : LoopId) (pc : ServerPc) (accept work : ServerPc → ℕ)
    (rest : ServerLoop → ℕ) (hrest : ∀ L, rest { L with pc := pc } = rest L) :
    accept ((s.goto l pc).loops 0).pc + work ((s.goto l pc).loops l₁).pc
          + rest ((s.goto l pc).loops l₁)
        + ((if l = 0 then accept (s.loops l).pc else 0)
          + if l₁ = l then work (s.loops l).pc else 0)
      = accept (s.loops 0).pc + work (s.loops l₁).pc + rest (s.loops l₁)
        + ((if l = 0 then accept pc else 0) + if l₁ = l then work pc else 0) := by
  rw [loops_goto, loops_goto]
  by_cases h₀ : l = 0 <;> by_cases h₁ : l₁ = l
  · subst h₀
    simp only [h₁, if_true, hrest]
    omega
  · subst h₀
    simp only [h₁, if_true, if_false]
    omega
  · subst h₁
    simp only [h₀, Ne.symm h₀, if_true, if_false, hrest]
    omega
  · simp only [h₀, Ne.symm h₀, h₁, if_false]

/-- A thread that goes on exchanges the references on its stack. -/
theorem uses_goto (s : TCPServer) (l : LoopId) (pc : ServerPc) (c : ConnId) :
    (s.goto l pc).uses c + s.stackRefs l (s.loops l).pc c = s.uses c + s.stackRefs l pc c :=
  s.count_goto l (s.heap c).loop pc (fun pc => pc.acceptPc.refs.count c)
    (fun pc => pc.refs.count c) (fun L => L.holds (s.heap c).fd c) fun _ => rfl

/-- And the connections it has to put. -/
theorem positions_goto (s : TCPServer) (l : LoopId) (pc : ServerPc) (c : ConnId) :
    (s.goto l pc).positions c + s.stackUnput l (s.loops l).pc c
      = s.positions c + s.stackUnput l pc c :=
  s.count_goto l (s.heap c).loop pc (fun pc => pc.acceptPc.unput.count c)
    (fun pc => pc.unput.count c) (fun L => L.holds (s.heap c).fd c) fun _ => rfl

/-- The references are in the same places when the loops are the same, and the
connection is of the same loop and descriptor. -/
theorem uses_congr (hl : (s'.heap c).loop = (s.heap c).loop) (hf : (s'.heap c).fd = (s.heap c).fd)
    (h : s'.loops = s.loops) : s'.uses c = s.uses c ∧ s'.positions c = s.positions c := by
  unfold uses positions
  rw [h, hl, hf]
  exact ⟨rfl, rfl⟩

/-- The references to a connection after a change of a loop that leaves its
thread where it is. -/
theorem uses_setLoop (s : TCPServer) {L : ServerLoop} (hpc : L.pc = (s.loops l).pc) (c : ConnId) :
    ({ s with loops := Function.update s.loops l L }).uses c
        + (if (s.heap c).loop = l then (s.loops l).holds (s.heap c).fd c else 0)
      = s.uses c + (if (s.heap c).loop = l then L.holds (s.heap c).fd c else 0)
    ∧ ({ s with loops := Function.update s.loops l L }).positions c
        + (if (s.heap c).loop = l then (s.loops l).holds (s.heap c).fd c else 0)
      = s.positions c + (if (s.heap c).loop = l then L.holds (s.heap c).fd c else 0) := by
  unfold uses positions
  dsimp only
  rw [s.pc_update l 0 hpc, s.pc_update l (s.heap c).loop hpc]
  by_cases hl : (s.heap c).loop = l
  · rw [if_pos hl, if_pos hl, hl, Function.update_self]
    omega
  · rw [if_neg hl, if_neg hl, Function.update_of_ne hl]
    exact ⟨rfl, rfl⟩

/-- What a loop's stack holds is the loop's. -/
theorem Placed.stack (h : Placed s) (hc : c ∈ (s.loops l).pc.refs ∨ c ∈ (s.loops l).pc.unput) :
    c < s.fresh ∧ (s.heap c).loop = l :=
  h.conn (ServerPc.mem_pointers hc)

namespace Owned

variable {x x' y y' : List ConnId} {z z' g g' : List Fd} {fd : Fd}

/-- A change that leaves the references where they are. -/
theorem congr (h : Owned s x y z g) (hs : SameRefs s s') : Owned s' x y z g where
  count c := by rw [hs.useCount, hs.uses, h.count]
  once c := by rw [hs.positions]; exact h.once c
  isOpen c hc := by
    rw [hs.fd, hs.openFds, hs.listenFd]
    exact h.isOpen c (hs.useCount c ▸ hc)
  distinct c c' hc hc' hfd := by
    rw [hs.fd, hs.fd] at hfd
    exact h.distinct c c' (hs.useCount c ▸ hc) (hs.useCount c' ▸ hc') hfd
  spare fd hfd := by
    rw [hs.openFds, hs.listenFd]
    obtain ⟨ho, hl, hn⟩ := h.spare fd hfd
    refine ⟨ho, hl, fun c hc => ?_⟩
    rw [hs.fd]
    exact hn c (hs.useCount c ▸ hc)
  gone fd hfd := by
    rw [hs.openFds]
    exact h.gone fd hfd
  listen := by
    rw [hs.openFds, hs.listenFd]
    exact h.listen
  fresh c hc := by
    rw [hs.useCount]
    exact h.fresh c (hs.fresh ▸ hc)
  calling l := by
    rw [hs.pc]
    exact h.calling l

/-- Descriptors may be forgotten. -/
theorem mono (h : Owned s x y z g) (hz : z' ⊆ z) (hg : g' ⊆ g) : Owned s x y z' g' :=
  { h with
    spare := fun fd hfd => h.spare fd (hz hfd)
    gone := fun fd hfd => h.gone fd (hg hfd) }

/-- **A thread goes on**, and exchanges the hand with its stack. -/
theorem goto (h : Owned s x y z g)
    (hx : ∀ c, s.stackRefs l (s.loops l).pc c + x.count c = s.stackRefs l pc c + x'.count c)
    (hy : ∀ c, s.stackUnput l (s.loops l).pc c + y.count c = s.stackUnput l pc c + y'.count c)
    (hcall : pc.Calling) : Owned (s.goto l pc) x' y' z g where
  count c := by
    have hu := s.uses_goto l pc c
    have hc := h.count c
    have hxc := hx c
    show (s.heap c).useCount = _
    omega
  once c := by
    have hu := s.positions_goto l pc c
    have hc := h.once c
    have hyc := hy c
    omega
  isOpen := h.isOpen
  distinct := h.distinct
  spare := h.spare
  gone := h.gone
  listen := h.listen
  fresh := h.fresh
  calling l' := by
    rw [loops_goto]
    split
    · exact hcall
    · exact h.calling l'

/-! ### The references -/

/-- A reference is copied, by someone who has one. -/
theorem retain (h : Owned s x y z g) (hc : 0 < (s.heap c).useCount) :
    Owned (s.retain c) (c :: x) y z g := by
  -- who is alive, and with which descriptor, does not change
  have hlive : ∀ c', 0 < ((s.retain c).heap c').useCount → 0 < (s.heap c').useCount :=
    (Function.forall_update_iff s.heap fun c' X => 0 < X.useCount → 0 < (s.heap c').useCount).mpr
      ⟨fun _ => hc, fun _ _ h => h⟩
  refine ⟨fun c' => ?_, fun c' => ?_, fun c' hc' => ?_, fun c₁ c₂ h₁ h₂ he => ?_,
    fun fd hfd' => ?_, h.gone, h.listen, fun c' hc' => ?_, h.calling⟩
  · have hu : (s.retain c).uses c' = s.uses c' :=
      (uses_congr (s.loop_retain c c') (s.fd_retain c c') rfl).1
    have hcount := h.count c'
    rw [hu]
    show (Function.update s.heap c _ c').useCount = _
    by_cases he : c' = c
    · subst he
      rw [Function.update_self, List.count_cons_self]
      show (s.heap c').useCount + 1 = _
      omega
    · rw [Function.update_of_ne he, List.count_cons_of_ne (Ne.symm he)]
      exact hcount
  · have hu : (s.retain c).positions c' = s.positions c' :=
      (uses_congr (s.loop_retain c c') (s.fd_retain c c') rfl).2
    rw [hu]
    exact h.once c'
  · rw [fd_retain]
    exact h.isOpen c' (hlive c' hc')
  · rw [fd_retain, fd_retain] at he
    exact h.distinct c₁ c₂ (hlive c₁ h₁) (hlive c₂ h₂) he
  · obtain ⟨ho, hl, hn⟩ := h.spare fd hfd'
    refine ⟨ho, hl, fun c' hc' => ?_⟩
    rw [fd_retain]
    exact hn c' (hlive c' hc')
  · refine Nat.eq_zero_of_not_pos fun hpos => ?_
    have h0 := h.fresh c' hc'
    have := hlive c' hpos
    omega

/-- **A reference is destroyed.** The last one closes the descriptor, which
no other connection has. -/
theorem release (h : Owned s (c :: x) y z g) : Owned (s.release c) x y z g := by
  have hcount : ∀ c', ((s.release c).heap c').useCount = s.uses c' + x.count c' := by
    intro c'
    have hc := h.count c'
    show (Function.update s.heap c _ c').useCount = _
    by_cases he : c' = c
    · subst he
      rw [List.count_cons_self] at hc
      rw [Function.update_self]
      show (s.heap c').useCount - 1 = _
      omega
    · rw [List.count_cons_of_ne (Ne.symm he)] at hc
      rw [Function.update_of_ne he]
      exact hc
  have hc : 0 < (s.heap c).useCount := by
    have := h.count c
    rw [List.count_cons_self] at this
    omega
  -- who is alive afterwards was alive before, and is not the one that dies
  have hlive : ∀ c', 0 < ((s.release c).heap c').useCount → 0 < (s.heap c').useCount :=
    (Function.forall_update_iff s.heap fun c' X => 0 < X.useCount → 0 < (s.heap c').useCount).mpr
      ⟨fun _ => hc, fun _ _ h => h⟩
  have hdead : (s.heap c).useCount = 1 → ((s.release c).heap c).useCount = 0 := by
    intro h1
    show (Function.update s.heap c _ c).useCount = 0
    rw [Function.update_self]
    exact congrArg (· - 1) h1
  have hopen : ∀ fd ∈ s.openFds, ((s.heap c).useCount = 1 → fd ≠ (s.heap c).fd) →
      fd ∈ (s.release c).openFds := by
    intro fd ho hne
    show fd ∈ if (s.heap c).useCount = 1 then _ else _
    split
    · exact Finset.mem_erase.mpr ⟨hne ‹_›, ho⟩
    · exact ho
  refine ⟨fun c' => ?_, fun c' => ?_, fun c' hc' => ?_, fun c₁ c₂ h₁ h₂ he => ?_,
    fun fd hfd' => ?_, fun fd hg ho => ?_, ?_, fun c' hc' => ?_, h.calling⟩
  · have hu : (s.release c).uses c' = s.uses c' :=
      (uses_congr (s.loop_release c c') (s.fd_release c c') rfl).1
    rw [hu]
    exact hcount c'
  · have hu : (s.release c).positions c' = s.positions c' :=
      (uses_congr (s.loop_release c c') (s.fd_release c c') rfl).2
    rw [hu]
    exact h.once c'
  · obtain ⟨ho, hl⟩ := h.isOpen c' (hlive c' hc')
    rw [fd_release]
    refine ⟨hopen _ ho fun h1 he => ?_, hl⟩
    rw [h.distinct c' c (hlive c' hc') hc he, hdead h1] at hc'
    exact absurd hc' (lt_irrefl 0)
  · rw [fd_release, fd_release] at he
    exact h.distinct c₁ c₂ (hlive c₁ h₁) (hlive c₂ h₂) he
  · obtain ⟨ho, hl, hn⟩ := h.spare fd hfd'
    refine ⟨hopen fd ho fun _ he => hn c hc he.symm, hl, fun c' hc' => ?_⟩
    rw [fd_release]
    exact hn c' (hlive c' hc')
  · refine h.gone fd hg ?_
    change fd ∈ if (s.heap c).useCount = 1 then _ else _ at ho
    split at ho
    · exact Finset.mem_of_mem_erase ho
    · exact ho
  · exact hopen _ h.listen fun _ he => (h.isOpen c hc).2 he.symm
  · refine Nat.eq_zero_of_not_pos fun hpos => ?_
    have h0 := h.fresh c' hc'
    have := hlive c' hpos
    omega

/-! ### What a loop holds -/

/-- **A change of what a loop holds** exchanges it with the hand. -/
theorem setLoop (h : Owned s x y z g) {L : ServerLoop} (hpc : L.pc = (s.loops l).pc)
    (hx : ∀ c, (s.heap c).loop = l → L.holds (s.heap c).fd c + x'.count c
      = (s.loops l).holds (s.heap c).fd c + x.count c)
    (hx' : ∀ c, (s.heap c).loop ≠ l → x'.count c = x.count c)
    (hy : ∀ c, (s.heap c).loop = l → L.holds (s.heap c).fd c + y'.count c
      ≤ (s.loops l).holds (s.heap c).fd c + y.count c)
    (hy' : ∀ c, (s.heap c).loop ≠ l → y'.count c ≤ y.count c) :
    Owned { s with loops := Function.update s.loops l L } x' y' z g where
  count c := by
    have hc := h.count c
    have hu := (s.uses_setLoop hpc c).1
    show (s.heap c).useCount = _
    by_cases hl : (s.heap c).loop = l
    · rw [if_pos hl, if_pos hl] at hu
      have := hx c hl
      omega
    · rw [if_neg hl, if_neg hl] at hu
      have := hx' c hl
      omega
  once c := by
    have hc := h.once c
    have hu := (s.uses_setLoop hpc c).2
    by_cases hl : (s.heap c).loop = l
    · rw [if_pos hl, if_pos hl] at hu
      have := hy c hl
      omega
    · rw [if_neg hl, if_neg hl] at hu
      have := hy' c hl
      omega
  isOpen := h.isOpen
  distinct := h.distinct
  spare := h.spare
  gone := h.gone
  listen := h.listen
  fresh := h.fresh
  calling l' := by
    show (Function.update s.loops l L l').pc.Calling
    rw [s.pc_update l l' hpc]
    exact h.calling l'

/-- A function that holds a connection is queued for the connection's loop. -/
theorem queueNewEvent (h : Owned s (c :: x) (c :: y) z g) (hl : (s.heap c).loop = l) :
    Owned (s.queueNewEvent l c) x y z g := by
  have hheld : ∀ c' (w : List ConnId),
      (ServerLoop.mk (s.loops l).epoll ((s.loops l).pending ++ [c]) (s.loops l).connections
        (s.loops l).pc).holds (s.heap c').fd c' + w.count c'
      = (s.loops l).holds (s.heap c').fd c' + (c :: w).count c' := by
    intro c' w
    rw [ServerLoop.holds_mk, List.count_append, List.count_cons, List.count_nil, List.count_cons]
    unfold ServerLoop.holds
    omega
  have hne : ∀ c', (s.heap c').loop ≠ l → c ≠ c' := fun c' hl' he => hl' (he ▸ hl)
  refine h.setLoop rfl (fun c' _ => hheld c' x) (fun c' hl' => ?_)
    (fun c' _ => (hheld c' y).le) fun c' hl' => ?_
  · rw [List.count_cons_of_ne (hne c' hl')]
  · rw [List.count_cons_of_ne (hne c' hl')]

/-- The swap takes the queued functions into the hand. -/
theorem takePending (h : Owned s [] [] z g) (hp : Placed s) :
    Owned (s.takePending l) (s.loops l).pending (s.loops l).pending z g := by
  have hheld : ∀ c, (ServerLoop.mk (s.loops l).epoll [] (s.loops l).connections
        (s.loops l).pc).holds (s.heap c).fd c + (s.loops l).pending.count c
      = (s.loops l).holds (s.heap c).fd c + ([] : List ConnId).count c := by
    intro c
    rw [ServerLoop.holds_mk, List.count_nil]
    unfold ServerLoop.holds
    omega
  have hne : ∀ c, (s.heap c).loop ≠ l → (s.loops l).pending.count c = 0 := fun c hl =>
    List.count_eq_zero.mpr fun hc => hl (hp.home l _ (.pending hc)).2
  exact h.setLoop rfl (fun c _ => hheld c) hne (fun c _ => (hheld c).le) fun c hl => (hne c hl).le

/-- **The key of a living connection that is still to be put is absent.** An
entry under its descriptor would be another owner of the descriptor, or
another position of the connection. -/
theorem absent (h : Owned s x y z g) (hp : Placed s) (hc : 0 < (s.heap c).useCount)
    (hy : (s.loops (s.heap c).loop).holds (s.heap c).fd c < s.positions c + y.count c) :
    s.entry c = none := by
  cases he : s.entry c with
  | none => rfl
  | some c' =>
    exfalso
    have hent : (s.loops (s.heap c).loop).connections (s.heap c).fd = some c' := he
    have hfd : (s.heap c').fd = (s.heap c).fd := hp.entries _ _ _ hent
    have hl : (s.heap c').loop = (s.heap c).loop := (hp.home _ _ (.connections hent)).2
    have hlive : 0 < (s.heap c').useCount := by
      rw [h.count c']
      unfold uses ServerLoop.holds
      rw [hl, hfd, if_pos hent]
      omega
    have hsame : c' = c := h.distinct c' c hlive hc hfd
    rw [hsame] at hent
    have honce := h.once c
    unfold ServerLoop.holds at hy
    rw [if_pos hent] at hy
    omega

/-- **`put` finds its key absent**, and the entry it makes is a position and
a reference. -/
theorem put (h : Owned s x (c :: y) z g) (hp : Placed s) (hlt : c < s.fresh)
    (hc : 0 < (s.heap c).useCount) : Owned (s.put c) x y z g := by
  have hpos : (s.loops (s.heap c).loop).holds (s.heap c).fd c
      < s.positions c + (c :: y).count c := by
    unfold positions
    rw [List.count_cons_self]
    omega
  have hnone : (s.loops (s.heap c).loop).connections (s.heap c).fd = none := h.absent hp hc hpos
  have hfd : (s.heap c).channel.fd = (s.heap c).fd := (hp.formed c hlt).fd
  unfold TCPServer.put
  dsimp only
  rw [hfd, hnone]
  dsimp only
  -- the new entry counts for `c` alone, and there was none before
  have hheld : ∀ c', ((s.retain c).heap c').loop = (s.heap c).loop → ∀ w : List ConnId,
      (ServerLoop.mk (s.loops (s.heap c).loop).epoll (s.loops (s.heap c).loop).pending
        (Function.update (s.loops (s.heap c).loop).connections (s.heap c).fd (some c))
        (s.loops (s.heap c).loop).pc).holds ((s.retain c).heap c').fd c' + w.count c'
      = ((s.retain c).loops (s.heap c).loop).holds ((s.retain c).heap c').fd c'
        + (c :: w).count c' := by
    intro c' hl w
    show _ = (s.loops (s.heap c).loop).holds _ _ + _
    rw [ServerLoop.holds_mk]
    unfold ServerLoop.holds
    by_cases he : c = c'
    · subst he
      rw [fd_retain, Function.update_self, if_pos rfl, hnone, if_neg (by nofun),
        List.count_cons_self]
      omega
    · rw [List.count_cons_of_ne he]
      by_cases hf : ((s.retain c).heap c').fd = (s.heap c).fd
      · rw [hf, Function.update_self, hnone, if_neg (fun hs => he (Option.some.inj hs)),
          if_neg (by nofun)]
      · rw [Function.update_of_ne hf]
  have hne : ∀ c', ((s.retain c).heap c').loop ≠ (s.heap c).loop → c ≠ c' :=
    fun c' hl he => hl (he ▸ s.loop_retain c c)
  refine (h.retain hc).setLoop rfl (fun c' hl => hheld c' hl x) (fun c' hl => ?_)
    (fun c' hl => (hheld c' hl y).le) fun c' hl => ?_
  · rw [List.count_cons_of_ne (hne c' hl)]
  · rw [List.count_cons_of_ne (hne c' hl)]

/-- `erase` takes the reference of the entry into the hand. -/
theorem unlink (h : Owned s x y z g) (hp : Placed s) {c' : ConnId} (he : s.entry c = some c') :
    Owned (s.unlink c) (c' :: x) y z g := by
  have hent : (s.loops (s.heap c).loop).connections (s.heap c).fd = some c' := he
  have hfd : (s.heap c').fd = (s.heap c).fd := hp.entries _ _ _ hent
  have hl : (s.heap c').loop = (s.heap c).loop := (hp.home _ _ (.connections hent)).2
  have hheld : ∀ c'' (w : List ConnId), (ServerLoop.mk (s.loops (s.heap c).loop).epoll
        (s.loops (s.heap c).loop).pending
        (Function.update (s.loops (s.heap c).loop).connections (s.heap c).fd none)
        (s.loops (s.heap c).loop).pc).holds (s.heap c'').fd c'' + (c' :: w).count c''
      = (s.loops (s.heap c).loop).holds (s.heap c'').fd c'' + w.count c'' := by
    intro c'' w
    rw [ServerLoop.holds_mk]
    unfold ServerLoop.holds
    by_cases heq : c' = c''
    · subst heq
      rw [hfd, Function.update_self, if_neg (by nofun), hent, if_pos rfl, List.count_cons_self]
      omega
    · rw [List.count_cons_of_ne heq]
      by_cases hf : (s.heap c'').fd = (s.heap c).fd
      · rw [hf, Function.update_self, hent, if_neg (by nofun),
          if_neg (fun hs => heq (Option.some.inj hs))]
      · rw [Function.update_of_ne hf]
  refine h.setLoop rfl (fun c'' _ => hheld c'' x) (fun c'' hl' => ?_) (fun c'' _ => ?_)
    fun _ _ => le_rfl
  · refine List.count_cons_of_ne fun heq => hl' ?_
    rw [← heq]
    exact hl
  · exact (Nat.add_le_add_left (List.count_le_count_cons ..) _).trans (hheld c'' y).le

/-! ### Descriptors -/

/-- `accept` opens a descriptor that belongs to nobody. -/
theorem accepted (h : Owned s x y z []) {r : ℤ} (hr : r ∉ s.openFds) :
    Owned (s.accepted r) x y (if 0 ≤ r then r :: z else z) [] := by
  unfold TCPServer.accepted
  by_cases h0 : 0 ≤ r
  · rw [if_pos h0, if_pos h0]
    exact { h with
      isOpen := fun c hc => ⟨Finset.mem_insert_of_mem (h.isOpen c hc).1, (h.isOpen c hc).2⟩
      spare := by
        intro fd hfd
        rcases List.mem_cons.mp hfd with rfl | hfd
        · exact ⟨Finset.mem_insert_self _ _, fun he => hr (he ▸ h.listen),
            fun c hc he => hr (he ▸ (h.isOpen c hc).1)⟩
        · obtain ⟨ho, hn⟩ := h.spare fd hfd
          exact ⟨Finset.mem_insert_of_mem ho, hn⟩
      gone := by
        intro fd hfd
        cases hfd
      listen := Finset.mem_insert_of_mem h.listen }
  · rw [if_neg h0, if_neg h0]
    exact h

/-- A descriptor that belongs to nobody is closed. -/
theorem close (h : Owned s x y [fd] g) : Owned (s.close fd) x y [] (fd :: g) := by
  obtain ⟨-, hl, hn⟩ := h.spare fd (List.mem_singleton_self fd)
  exact { h with
    isOpen := fun c hc =>
      ⟨Finset.mem_erase.mpr ⟨hn c hc, (h.isOpen c hc).1⟩, (h.isOpen c hc).2⟩
    spare := by
      intro fd hfd
      cases hfd
    gone := by
      intro fd' hfd' ho
      rcases List.mem_cons.mp hfd' with rfl | hfd'
      · exact Finset.notMem_erase _ _ ho
      · exact h.gone fd' hfd' (Finset.mem_of_mem_erase ho)
    listen := Finset.mem_erase.mpr ⟨hl.symm, h.listen⟩ }

/-- **A connection is constructed** for a descriptor that belongs to nobody;
its reference is in hand, and it has still to be put. -/
theorem construct (h : Owned s [] [] [fd] g) (hp : Placed s) (l' : LoopId) :
    Owned (s.construct fd l') [s.fresh] [s.fresh] [] g := by
  obtain ⟨ho, hl, hn⟩ := h.spare fd (List.mem_singleton_self fd)
  have hnew : (s.construct fd l').heap s.fresh = .new s.fresh l' fd := Function.update_self ..
  have hold : ∀ {c}, c ≠ s.fresh → (s.construct fd l').heap c = s.heap c := fun hc =>
    Function.update_of_ne hc _ _
  -- nobody has heard of the new address yet
  have hacc : (s.loops 0).pc.acceptPc.refs.count s.fresh = 0
      ∧ (s.loops 0).pc.acceptPc.unput.count s.fresh = 0 :=
    ⟨List.count_eq_zero.mpr fun hc => (hp.locals 0 _ (ServerPc.mem_locals (.inl hc))).ne rfl,
      List.count_eq_zero.mpr fun hc => (hp.locals 0 _ (ServerPc.mem_locals (.inr hc))).ne rfl⟩
  have hstack : (s.loops l').pc.refs.count s.fresh = 0
      ∧ (s.loops l').pc.unput.count s.fresh = 0 :=
    ⟨List.count_eq_zero.mpr fun hc => (hp.stack (.inl hc)).1.ne rfl,
      List.count_eq_zero.mpr fun hc => (hp.stack (.inr hc)).1.ne rfl⟩
  have hholds : (s.loops l').holds fd s.fresh = 0 := by
    unfold ServerLoop.holds
    rw [List.count_eq_zero.mpr fun hc => (hp.home l' _ (.pending hc)).1.ne rfl,
      if_neg fun hc => (hp.home l' _ (.connections hc)).1.ne rfl]
  have huses : (s.construct fd l').uses s.fresh = 0
      ∧ (s.construct fd l').positions s.fresh = 0 := by
    unfold uses positions
    rw [hnew]
    show (s.loops 0).pc.acceptPc.refs.count s.fresh + (s.loops l').pc.refs.count s.fresh
        + (s.loops l').holds fd s.fresh = 0
      ∧ (s.loops 0).pc.acceptPc.unput.count s.fresh + (s.loops l').pc.unput.count s.fresh
        + (s.loops l').holds fd s.fresh = 0
    omega
  have hsame : ∀ {c}, c ≠ s.fresh → (s.construct fd l').uses c = s.uses c
      ∧ (s.construct fd l').positions c = s.positions c := fun hc =>
    uses_congr (by rw [hold hc]) (by rw [hold hc]) rfl
  refine ⟨fun c => ?_, fun c => ?_, fun c hc => ?_, fun c c' hc hc' he => ?_,
    (fun _ hfd => by cases hfd), h.gone, h.listen, fun c hc => ?_, h.calling⟩
  · by_cases hcf : c = s.fresh
    · rw [hcf, hnew, huses.1, List.count_singleton_self]
      rfl
    · rw [hold hcf, (hsame hcf).1, List.count_cons_of_ne (Ne.symm hcf)]
      exact h.count c
  · by_cases hcf : c = s.fresh
    · rw [hcf, huses.2, List.count_singleton_self]
    · rw [(hsame hcf).2, List.count_cons_of_ne (Ne.symm hcf)]
      exact h.once c
  · by_cases hcf : c = s.fresh
    · rw [hcf, hnew]
      exact ⟨ho, hl⟩
    · rw [hold hcf] at hc ⊢
      exact h.isOpen c hc
  · by_cases hcf : c = s.fresh <;> by_cases hcf' : c' = s.fresh
    · rw [hcf, hcf']
    · rw [hold hcf'] at hc' he
      rw [hcf, hnew] at he
      exact absurd he.symm (hn c' hc')
    · rw [hold hcf] at hc he
      rw [hcf', hnew] at he
      exact absurd he (hn c hc)
    · rw [hold hcf] at hc he
      rw [hold hcf'] at hc' he
      exact h.distinct c c' hc hc' he
  · have hlt : s.fresh < c := hc
    rw [hold hlt.ne']
    exact h.fresh c hlt.le

/-! ### Who is alive -/

/-- Whom the acceptor holds is alive. -/
theorem alive_of_accept (h : Owned s x y z g) (hc : c ∈ (s.loops 0).pc.acceptPc.refs) :
    0 < (s.heap c).useCount := by
  have hpos := List.count_pos_iff.mpr hc
  rw [h.count c]
  unfold uses
  omega

/-- So is whom a function of its loop holds. -/
theorem alive_of_stack (h : Owned s x y z g) (hp : Placed s) (hc : c ∈ (s.loops l).pc.refs) :
    0 < (s.heap c).useCount := by
  have hpos := List.count_pos_iff.mpr hc
  rw [h.count c]
  unfold uses
  rw [(hp.stack (.inl hc)).2]
  omega

/-- And who is entered. -/
theorem alive_of_entry (h : Owned s x y z g) (hp : Placed s)
    (hc : (s.loops l).connections fd = some c) : 0 < (s.heap c).useCount := by
  rw [h.count c]
  unfold uses ServerLoop.holds
  rw [(hp.home l _ (.connections hc)).2, hp.entries l fd c hc, if_pos hc]
  omega

/-! ### Threads that go on -/

/-- Outside `handle_new_conn`, all that is on a stack counts. -/
theorem goto_loop (h : Owned s x y z g) (hp : Placed s) {pc₀ : ServerPc}
    (hpc : (s.loops l).pc = pc₀) (ha₀ : pc₀.acceptPc = .ret) (ha : pc.acceptPc = .ret)
    (hl : ∀ c, c ∈ pc.refs ∨ c ∈ pc.unput → (s.heap c).loop = l)
    (hx : ∀ c, pc₀.refs.count c + x.count c = pc.refs.count c + x'.count c)
    (hy : ∀ c, pc₀.unput.count c + y.count c = pc.unput.count c + y'.count c)
    (hcall : pc.Calling) : Owned (s.goto l pc) x' y' z g := by
  subst hpc
  have hloop : ∀ {cs : List ConnId}, (∀ c ∈ cs, (s.heap c).loop = l) → ∀ c,
      (if (s.heap c).loop = l then cs.count c else 0) = cs.count c := by
    intro cs hcs c
    split
    · rfl
    · exact (List.count_eq_zero.mpr fun hc => ‹¬ _› (hcs c hc)).symm
  have hnil : ∀ {cs : List ConnId} c, cs = [] → (if l = 0 then cs.count c else 0) = 0 := by
    intro cs c hcs
    rw [hcs, List.count_nil, ite_self]
  refine h.goto (fun c => ?_) (fun c => ?_) hcall
  · unfold stackRefs
    rw [hloop fun c hc => (hp.stack (.inl hc)).2, hloop fun c hc => hl c (.inl hc),
      hnil c (by rw [ha₀]; rfl), hnil c (by rw [ha]; rfl), Nat.zero_add, Nat.zero_add]
    exact hx c
  · unfold stackUnput
    rw [hloop fun c hc => (hp.stack (.inr hc)).2, hloop fun c hc => hl c (.inr hc),
      hnil c (by rw [ha₀]; rfl), hnil c (by rw [ha]; rfl), Nat.zero_add, Nat.zero_add]
    exact hy c

/-- In `handle_new_conn`, what its locals hold. -/
theorem goto_accept (h : Owned s x y z g) {pos pos' : AcceptPc} {k k' : AcceptCall}
    {d d' : Dispatch} (hpc : (s.loops 0).pc = .accept pos k d)
    (hx : ∀ c, pos.refs.count c + x.count c = pos'.refs.count c + x'.count c)
    (hy : ∀ c, pos.unput.count c + y.count c = pos'.unput.count c + y'.count c) :
    Owned (s.goto 0 (.accept pos' k' d')) x' y' z g := by
  have hnil : ∀ {p : Prop} [Decidable p] c,
      (if p then ([] : List ConnId).count c else 0) = 0 := by
    intro p _ c
    rw [List.count_nil, ite_self]
  refine h.goto (fun c => ?_) (fun c => ?_) trivial
  · rw [hpc]
    show _ + (if _ then ([] : List ConnId).count c else 0) + _
      = _ + (if _ then ([] : List ConnId).count c else 0) + _
    rw [hnil, if_pos rfl, if_pos rfl]
    exact hx c
  · rw [hpc]
    show _ + (if _ then ([] : List ConnId).count c else 0) + _
      = _ + (if _ then ([] : List ConnId).count c else 0) + _
    rw [hnil, if_pos rfl, if_pos rfl]
    exact hy c

/-- A thread goes on with the references it had. -/
theorem goto_same (h : Owned s x y z g) {pc₀ : ServerPc} (hpc : (s.loops l).pc = pc₀)
    (hr : pc.refs = pc₀.refs) (hu : pc.unput = pc₀.unput)
    (har : pc.acceptPc.refs = pc₀.acceptPc.refs) (hau : pc.acceptPc.unput = pc₀.acceptPc.unput)
    (hcall : pc.Calling) : Owned (s.goto l pc) x y z g := by
  refine h.goto (fun c => ?_) (fun c => ?_) hcall
  · rw [hpc, stackRefs, stackRefs, hr, har]
  · rw [hpc, stackUnput, stackUnput, hu, hau]

end Owned

end TCPServer
