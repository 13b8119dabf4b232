import Shoot.TCPServerAcceptor

/-!
# When the server stops accepting

The registration of the listening descriptor is one-shot, and `handle_new_conn` is the only
function that arms it again. When a call of `handle_events` for the acceptor returns without
that, since `handle_new_conn` left early or was not called at all, nothing is ever delivered
for the descriptor again. The invariant of a deaf server (`Muted`) says that the
registration is disarmed and that the base loop's thread is not on its way to
`handle_new_conn`; every event keeps it, in every interleaving of the loops.
-/

/-- `accept` returns. -/
def ServerEvent.isAccept : ServerEvent → Bool
  | .accept _ _ => true
  | _ => false

namespace ServerPc

/-- **The channels whose read callback may be called** before the thread polls again. -/
def ahead : ServerPc → List ChannelPtr
  | .poll active | .next active => active
  | .handle d | .read _ _ d | .accept .ret _ d =>
    if d.stage = .write ∨ d.stage = .ret then d.active else d.channel :: d.active
  | .accept _ _ d => .acceptor :: d.active
  | .swap | .functors _ _ | .put _ _ _ | .arm _ _ _ | .drop _ => []

/-- The thread is not on its way through `active_vector`. -/
def Off : ServerPc → Prop
  | .poll [] | .swap | .functors _ _ | .put _ _ _ | .arm _ _ _ | .drop _ => True
  | _ => False

end ServerPc

namespace TCPServer

variable {s s' t : TCPServer} {l : LoopId} {c : ConnId}

/-- What is registered under the listening descriptor. -/
def listening (s : TCPServer) : Option (Interest ChannelPtr) :=
  (s.loops 0).epoll.interest s.listenFd

/-- Nothing is delivered for the listening descriptor. -/
def Deaf (s : TCPServer) : Prop := ∃ i, s.listening = some i ∧ i.armed = false

/-- **What an event does to the registration** of the listening descriptor. -/
inductive Hears (s s' : TCPServer) : Prop where
  | same (h : s'.listening = s.listening)
  | delivered {i : Interest ChannelPtr} (hi : s.listening = some i) (ha : i.armed = true)
      (h : s'.listening = some i.delivered)
  | rearmed {k : AcceptCall} {d : Dispatch} (hpc : (s.loops 0).pc = .accept .rearm k d)
      (hpc' : (s'.loops 0).pc = .accept .ret k d)
      (h : s'.listening = some ⟨s.acceptChannel.event ||| Channel.readEvent, .acceptor, true⟩)

/-- **Where an event takes the base loop's thread**, as far as the acceptor is concerned. -/
inductive Goes (s : TCPServer) : ServerPc → ServerPc → Prop where
  | stay {pc} : Goes s pc pc
  | deliver {active p} (h : p = .acceptor → ∃ i, s.listening = some i ∧ i.armed = true) :
      Goes s (.poll active) (.poll (active ++ [p]))
  | poll {active} : Goes s (.poll active) (.next active)
  | next {p active} : Goes s (.next (p :: active)) (.handle ⟨p, .hup, active⟩)
  | test {d pc} (h : s.Tested d pc) : Goes s (.handle d) pc
  | ret {d} (h : d.stage = .ret) : Goes s (.handle d) (.next d.active)
  | read {c c' pos pos' d} : Goes s (.read c pos d) (.read c' pos' d)
  | readRet {c pos d} : Goes s (.read c pos d) (.handle d)
  | accept {pos pos' k k' d} (h : pos ≠ .ret) : Goes s (.accept pos k d) (.accept pos' k' d)
  | acceptRet {k d} : Goes s (.accept .ret k d) (.handle d)
  | off {pc pc'} (h : pc'.Off) : Goes s pc pc'

/-! ## Every transition -/

/-- What the base loop does not see changes nothing for the acceptor. -/
theorem listening_of_apart (h : Apart s t 0) : t.listening = s.listening := by
  unfold listening
  rw [h.interest, h.listenFd]

/-- Nor does a change of another registration. -/
theorem listening_of_rewired {o : Option (Interest ChannelPtr)} (h : Rewired s t 0 c o)
    (hf : (s.heap c).fd ≠ s.listenFd) : t.listening = s.listening := by
  unfold listening
  rw [h.interest, h.listenFd, Function.update_of_ne hf.symm]

/-- Or of an entry. -/
theorem listening_of_relinked {f : Fd} {o : Option ConnId} (h : Relinked s t 0 f o) :
    t.listening = s.listening := by
  unfold listening
  rw [h.interest, h.listenFd]

/-- A thread goes on. -/
theorem listening_goto (s : TCPServer) (pc : ServerPc) : (s.goto l pc).listening = s.listening :=
  listening_of_apart (.goto s l pc 0)

/-- The base loop enables a connection it has entered. -/
theorem listening_enableRead (hp : Placed s) (ho : Owns s) {cs : List ConnId}
    (hb : s.Books 0 cs) (hc : c < s.fresh ∧ (s.heap c).loop = 0)
    (hent : (s.loops 0).connections (s.heap c).fd = some c) :
    (s.enableRead c).listening = s.listening :=
  listening_of_rewired
    (Rewired.enableRead hc.2 (hp.formed c hc.1).fd (hb.linked _ c hent)) (ho.fd_ne_listen hp hent)

/-- The base loop puts a connection. -/
theorem listening_put (hp : Placed s) (ho : Owns s) (hput : (s.loops 0).pc.putting = some c)
    (hl : (s.heap c).loop = 0) (pc : ServerPc) :
    ((s.goto 0 pc).put c).listening = s.listening := by
  obtain ⟨hlt, hlive, hput'⟩ := Owned.of_putting ho hp hput
  have hnone : s.entry c = none := Owned.absent ho hp hlive hput'
  unfold entry at hnone
  rw [hl] at hnone
  have hnone' : ((s.goto 0 pc).loops 0).connections (s.heap c).fd = none := by
    rw [(Apart.goto s 0 pc 0).connections]
    exact hnone
  have hrelinked : Relinked (s.goto 0 pc) ((s.goto 0 pc).put c) 0 (s.heap c).fd (some c) :=
    Relinked.put hl (hp.formed c hlt).fd hnone'
  exact (listening_of_relinked hrelinked).trans (listening_goto s pc)

/-- Where the thread stands after it went on. -/
theorem goes_goto {pc₀ pc : ServerPc} (hpc : (s.loops 0).pc = pc₀) (h : s.Goes pc₀ pc) :
    s.Goes (s.loops 0).pc ((t.goto 0 pc).loops 0).pc := by
  rw [hpc, pc_goto]
  exact h

/-- A statement that leaves the acceptor alone. -/
theorem hears_goto {pc₀ pc : ServerPc} (ht : t.listening = s.listening)
    (hpc : (s.loops 0).pc = pc₀) (h : s.Goes pc₀ pc) :
    Hears s (t.goto 0 pc) ∧ s.Goes (s.loops 0).pc ((t.goto 0 pc).loops 0).pc :=
  ⟨.same ((listening_goto t pc).trans ht), goes_goto hpc h⟩

/-- One that ends with the destruction of a reference. -/
theorem hears_release {pc₀ pc : ServerPc} (hpc : (s.loops 0).pc = pc₀) (h : s.Goes pc₀ pc) :
    Hears s ((s.goto 0 pc).release c)
      ∧ s.Goes (s.loops 0).pc (((s.goto 0 pc).release c).loops 0).pc :=
  ⟨.same ((listening_of_apart (.release _ c 0)).trans (listening_goto s pc)), goes_goto hpc h⟩

/-- One that puts a connection. -/
theorem hears_put (hp : Placed s) (ho : Owns s) {pc₀ pc : ServerPc}
    (hpc : (s.loops 0).pc = pc₀) (hput : pc₀.putting = some c) (hl : (s.heap c).loop = 0)
    (h : s.Goes pc₀ pc) :
    Hears s ((s.goto 0 pc).put c) ∧ s.Goes (s.loops 0).pc (((s.goto 0 pc).put c).loops 0).pc := by
  refine ⟨.same (listening_put hp ho (hpc.symm ▸ hput) hl pc), ?_⟩
  rw [pc_put]
  exact goes_goto hpc h

/-- **What a statement of the base loop's thread is to the acceptor.** -/
theorem Advances.hears (hm : s.Advances 0 s') (hp : Placed s) (ho : Owns s) (hs : s.Serves 0) :
    Hears s s' ∧ s.Goes (s.loops 0).pc (s'.loops 0).pc := by
  cases hm with
  | poll hpc => exact hears_goto rfl hpc .poll
  | nextNil hpc => exact hears_goto rfl hpc (.off trivial)
  | next hpc => exact hears_goto rfl hpc .next
  | handleRet hpc hd => exact hears_goto rfl hpc (.ret hd)
  | handle hpc hd => exact hears_goto rfl hpc (.test (hp.tested hpc hd))
  | @readRearm c d hpc =>
    obtain ⟨hb, -, -, -, -, hdis⟩ := hs.standing hpc
    have hent := Registered.entry (Disarmed.registered hdis) hb hp
    have hc := hp.conn_at (c := c) hpc List.mem_cons_self
    exact hears_goto (listening_enableRead hp ho hb hc hent) hpc .readRet
  | @readClose c d hpc =>
    obtain ⟨hb, -, -, -, -, hdis⟩ := hs.standing hpc
    have hent := Registered.entry (Disarmed.registered hdis) hb hp
    have hc := hp.conn_at (c := c) hpc List.mem_cons_self
    have hr := Rewired.handleClose hc.2 (hp.formed c hc.1).fd (hb.linked _ c hent)
    exact hears_goto (listening_of_rewired hr (ho.fd_ne_listen hp hent)) hpc .read
  | @readDestroy c d hpc =>
    obtain ⟨hb, -, -, -, -, hreg⟩ := hs.standing hpc
    have hent := Registered.entry hreg hb hp
    have hc := hp.conn_at (c := c) hpc List.mem_cons_self
    have hr := Rewired.destroyConn hc.2 (hp.formed c hc.1).fd (hb.linked _ c hent)
    exact hears_goto (listening_of_rewired hr (ho.fd_ne_listen hp hent)) hpc .read
  | @unlink c c' d hpc he =>
    have hc := hp.conn_at (c := c) hpc List.mem_cons_self
    exact hears_goto (listening_of_relinked (Relinked.unlink hc.2)) hpc .read
  | unlinkNone hpc he => exact hears_goto rfl hpc .readRet
  | readRelease hpc => exact hears_release hpc .readRet
  | nextLoop hpc =>
    exact hears_goto (listening_of_apart (.getNextLoop s 0)) hpc (.accept fun h => by cases h)
  | limitClose hpc hfd =>
    exact hears_goto (listening_of_apart (.close s _ 0)) hpc (.accept fun h => by cases h)
  | limit hpc hfd => exact hears_goto rfl hpc (.accept fun h => by cases h)
  | construct hpc =>
    exact hears_goto (listening_of_apart (.construct s _ _ 0)) hpc (.accept fun h => by cases h)
  | runHere hpc hl => exact hears_goto rfl hpc (.accept fun h => by cases h)
  | @runThere c l' k d hpc hl' hl =>
    refine ⟨.same ?_, ?_⟩
    · exact (listening_of_apart (.queueNewEvent _ l' c 0)).trans
        ((listening_goto (s.retain c) _).trans (listening_of_apart (.retain s c 0)))
    · rw [pc_queueNewEvent]
      exact goes_goto hpc (.accept fun h => by cases h)
  | acceptPut hpc =>
    exact hears_put hp ho hpc rfl (hp.conn_at hpc List.mem_cons_self).2
      (.accept fun h => by cases h)
  | @acceptArm c k d hpc =>
    obtain ⟨hb, -, -, hbare⟩ := hs.standing hpc
    have hc := hp.conn_at (c := c) hpc List.mem_cons_self
    exact hears_goto (listening_enableRead hp ho hb hc hbare.1) hpc (.accept fun h => by cases h)
  | dropCallback hpc => exact hears_release hpc (.accept fun h => by cases h)
  | dropLocal hpc => exact hears_release hpc (.accept fun h => by cases h)
  | @rearm k d hpc =>
    refine ⟨.rearmed hpc (pc_goto _ 0 _) ?_, goes_goto hpc (.accept fun h => by cases h)⟩
    rw [listening_goto]
    unfold listening
    rw [interest_rearmAcceptor (hs.standing hpc).1 hp.acceptor.1]
    exact Function.update_self ..
  | acceptRet hpc => exact hears_goto rfl hpc .acceptRet
  | swap hpc =>
    exact hears_goto (listening_of_apart (.takePending s 0 0)) hpc (.off trivial)
  | functor hpc hc => exact hears_goto rfl hpc (.off trivial)
  | functorsEnd hpc hc => exact hears_goto rfl hpc (.off trivial)
  | put hpc =>
    exact hears_put hp ho hpc rfl (hp.conn_at hpc List.mem_cons_self).2 (.off trivial)
  | @arm c fs i hpc =>
    obtain ⟨hb, hbare⟩ := hs.standing hpc
    have hc := hp.conn_at (c := c) hpc List.mem_cons_self
    exact hears_goto (listening_enableRead hp ho hb hc hbare.1) hpc (.off trivial)
  | dropNil hpc => exact hears_goto rfl hpc (.off trivial)
  | drop hpc => exact hears_release hpc (.off trivial)

/-- A delivery to the base loop: it reports the listening descriptor, if that is armed, or
another one. -/
theorem hears_deliver (hp : Placed s) (hs : s.Serves 0) {fd : Fd} {mask : EventMask}
    {active : List ChannelPtr} {r : EpollSet ChannelPtr × ChannelPtr}
    (hpc : (s.loops 0).pc = .poll active)
    (hr : (s.loops 0).epoll.interest.deliver fd mask = some r) :
    Hears s (((s.setInterest 0 r.1).setRevents r.2 mask).goto 0 (.poll (active ++ [r.2])))
      ∧ s.Goes (s.loops 0).pc
        ((((s.setInterest 0 r.1).setRevents r.2 mask).goto 0 (.poll (active ++ [r.2]))).loops 0).pc
      := by
  obtain ⟨i, hi, harmed, -, hd, hK⟩ := EpollSet.deliver_eq_some hr
  have hlisten : (((s.setInterest 0 r.1).setRevents r.2 mask).goto 0
      (.poll (active ++ [r.2]))).listening
      = Function.update (s.loops 0).epoll.interest fd (some i.delivered) s.listenFd := by
    have hset : (s.setInterest 0 r.1).listenFd = s.listenFd := rfl
    have hfd : ((s.setInterest 0 r.1).setRevents r.2 mask).listenFd = s.listenFd := by
      cases r.2 <;> exact hset
    have hloop : (s.setInterest 0 r.1).loops 0 = { s.loops 0 with
        epoll := { (s.loops 0).epoll with interest := r.1 } } := rfl
    rw [listening_goto]
    unfold listening
    rw [loops_setRevents, hfd, hloop, hK]
  refine ⟨?_, goes_goto hpc (.deliver fun hacceptor => ?_)⟩
  · by_cases hfd : fd = s.listenFd
    · subst hfd
      exact .delivered hi harmed (hlisten.trans (Function.update_self ..))
    · exact .same (hlisten.trans (Function.update_of_ne (Ne.symm hfd) ..))
  · -- what is reported is what is registered under the listening descriptor
    obtain ⟨-, i', hi', hd'⟩ := hs.books.listen rfl
    have hfd : fd = s.listenFd :=
      hs.books.data_inj hp hi hi' (hd.trans (hacceptor.trans hd'.symm))
    subst hfd
    exact ⟨i, hi, harmed⟩

/-- **What an event is to the acceptor**, whichever loop's thread it moves. -/
theorem Moves.hears {e : ServerEvent} (hm : s.Moves e s') (hp : Placed s) (ho : Owns s)
    (hs : s.Serves 0) : Hears s s' ∧ s.Goes (s.loops 0).pc (s'.loops 0).pc := by
  by_cases hl : e.loop = 0
  · cases hm with
    | deliver hpc hr =>
      obtain rfl := hl
      exact hears_deliver hp hs hpc hr
    | read n hpc =>
      obtain rfl := hl
      exact hears_goto rfl hpc .read
    | accept hpc hr =>
      obtain rfl := hl
      exact hears_goto (listening_of_apart (.accepted s _ 0)) hpc (.accept fun h => by cases h)
    | flags hpc hfd =>
      obtain rfl := hl
      exact hears_goto rfl hpc (.accept fun h => by cases h)
    | noFlags hpc =>
      obtain rfl := hl
      exact hears_goto rfl hpc (.accept fun h => by cases h)
    | advance h =>
      obtain rfl := hl
      exact h.hears hp ho hs
  · obtain ⟨ha, hpc⟩ := hm.apart hp hl
    rw [hpc]
    exact ⟨.same (listening_of_apart ha), .stay⟩

/-! ## A server that is deaf -/

/-- Nothing but `handle_new_conn` enables the listening descriptor again. -/
theorem Deaf.hears (h : s.Deaf) (hh : Hears s s') :
    s'.Deaf ∨ ∃ k d, (s'.loops 0).pc = .accept .ret k d := by
  obtain ⟨i, hi, harmed⟩ := h
  cases hh with
  | same hs => exact Or.inl ⟨i, hs.trans hi, harmed⟩
  | delivered hi' harmed' _ =>
    obtain rfl := Option.some.inj (hi.symm.trans hi')
    cases harmed.symm.trans harmed'
  | rearmed _ hpc' _ => exact Or.inr ⟨_, _, hpc'⟩

/-- **What the acceptor's registration is where the base loop's thread stands**: from the
delivery to the end of `handle_new_conn` it is disarmed. -/
def HeardAt (s : TCPServer) : ServerPc → Prop
  | .handle d => d.channel = .acceptor → d.stage ≠ .write → d.stage ≠ .ret → s.Deaf
  | .accept pos _ d => d.stage = .write ∧ (pos ≠ .ret → s.Deaf)
  | _ => True

/-- **A delivery disarms the acceptor, until it is enabled again.** -/
theorem heardAt_moves {e : ServerEvent} (h : s.HeardAt (s.loops 0).pc) (hm : s.Moves e s')
    (hp : Placed s) (ho : Owns s) (hs : s.Serves 0) : s'.HeardAt (s'.loops 0).pc := by
  obtain ⟨hhears, hgoes⟩ := hm.hears hp ho hs
  have hst := hs.stands
  -- a deaf server stays so, unless its thread is about to return from `handle_new_conn`
  have hdeaf : s.Deaf → s'.Deaf ∨ ∃ k d, (s'.loops 0).pc = .accept .ret k d :=
    fun h => h.hears hhears
  generalize (s.loops 0).pc = pc at h hst hgoes
  generalize (s'.loops 0).pc = pc' at hdeaf hgoes
  have hstays : s.Deaf → (∀ k d, pc' ≠ .accept .ret k d) → s'.Deaf := fun h hne =>
    (hdeaf h).resolve_right fun ⟨k, d, hpc⟩ => hne k d hpc
  cases hgoes with
  | stay =>
    cases pc with
    | handle d =>
      intro hc hw hr
      exact hstays (h hc hw hr) fun k d' hpc => by cases hpc
    | accept pos k d =>
      refine ⟨h.1, fun hpos => hstays (h.2 hpos) fun k' d' hpc => ?_⟩
      cases hpc
      exact hpos rfl
    | _ => trivial
  | deliver _ => trivial
  | poll => trivial
  | @next p active =>
    intro hc _ _
    -- a channel that waits is disarmed, and the acceptor is registered in one place
    obtain ⟨f, i, hi, hd, harmed⟩ := hst.disarmed p List.mem_cons_self
    obtain ⟨-, i', hi', hd'⟩ := hs.books.listen rfl
    have hf : f = s.listenFd := hs.books.data_inj hp hi hi' (hd.trans (Eq.trans hc hd'.symm))
    subst hf
    exact hstays ⟨i, hi, harmed⟩ fun k d' hpc => by cases hpc
  | test ht =>
    cases ht with
    | hangUp hstage _ => exact fun _ _ hr => absurd rfl hr
    | err hstage =>
      intro hc _ _
      refine hstays (h hc ?_ ?_) fun k d' hpc => by cases hpc
      · rw [hstage]
        decide
      · rw [hstage]
        decide
    | read hstage =>
      intro hc _ _
      refine hstays (h hc ?_ ?_) fun k d' hpc => by cases hpc
      · rw [hstage]
        decide
      · rw [hstage]
        decide
    | noRead hstage _ => exact fun _ hw _ => absurd rfl hw
    | readConn hstage _ _ => trivial
    | readAcceptor hstage hc _ =>
      refine ⟨rfl, fun _ => hstays (h hc ?_ ?_) fun k d' hpc => by cases hpc⟩
      · rw [hstage]
        decide
      · rw [hstage]
        decide
    | ret hstage => exact fun _ _ hr => absurd rfl hr
  | ret _ => trivial
  | read => trivial
  | readRet => exact fun _ hw _ => absurd hst.2.2.1 hw
  | accept hpos =>
    refine ⟨h.1, fun hpos' => hstays (h.2 hpos) fun k' d' hpc => ?_⟩
    cases hpc
    exact hpos' rfl
  | acceptRet => exact fun _ hw _ => absurd h.1 hw
  | off hoff =>
    cases pc' with
    | handle d => exact absurd hoff id
    | accept pos k d => exact absurd hoff id
    | _ => trivial

/-- **The server does not listen, and never will**: nothing is delivered for the listening
descriptor, and the base loop's thread is not on its way to `handle_new_conn`. -/
def Muted (s : TCPServer) : Prop := s.Deaf ∧ .acceptor ∉ (s.loops 0).pc.ahead

/-- The channels ahead after a test of `handle_events` were ahead of it. -/
theorem ahead_tested {d : Dispatch} {pc : ServerPc} (h : s.Tested d pc)
    (hd : .acceptor ∉ (ServerPc.handle d).ahead) : .acceptor ∉ pc.ahead := by
  have hactive : .acceptor ∉ d.active := by
    unfold ServerPc.ahead at hd
    dsimp only at hd
    split at hd
    · exact hd
    · exact fun hmem => hd (List.mem_cons_of_mem _ hmem)
  cases h with
  | err hstage | read hstage =>
    have hchannel : .acceptor ≠ d.channel := by
      unfold ServerPc.ahead at hd
      dsimp only at hd
      rw [hstage, if_neg (by decide)] at hd
      exact fun he => hd (he ▸ List.mem_cons_self)
    exact List.not_mem_cons_of_ne_of_not_mem hchannel hactive
  | readAcceptor hstage hc _ =>
    unfold ServerPc.ahead at hd
    dsimp only at hd
    rw [hstage, if_neg (by decide), hc] at hd
    exact absurd List.mem_cons_self hd
  | _ => exact hactive

/-- **Nothing makes a muted server listen again.** -/
theorem Muted.moves {e : ServerEvent} (h : s.Muted) (hm : s.Moves e s') (hp : Placed s)
    (ho : Owns s) (hs : s.Serves 0) : s'.Muted := by
  obtain ⟨hhears, hgoes⟩ := hm.hears hp ho hs
  obtain ⟨hdeaf, hahead⟩ := h
  have hkeep : .acceptor ∉ (s'.loops 0).pc.ahead := by
    generalize (s.loops 0).pc = pc at hahead hgoes
    generalize (s'.loops 0).pc = pc' at hgoes ⊢
    cases hgoes with
    | stay => exact hahead
    | deliver hacceptor =>
      rintro hmem
      rcases List.mem_append.mp hmem with hmem | hmem
      · exact hahead hmem
      · obtain ⟨i, hi, harmed⟩ := hacceptor (List.mem_singleton.mp hmem).symm
        obtain ⟨i', hi', harmed'⟩ := hdeaf
        obtain rfl := Option.some.inj (hi.symm.trans hi')
        cases harmed.symm.trans harmed'
    | poll => exact hahead
    | next => exact hahead
    | test ht => exact ahead_tested ht hahead
    | ret hstage =>
      unfold ServerPc.ahead at hahead
      dsimp only at hahead
      rwa [if_pos (Or.inr hstage)] at hahead
    | read => exact hahead
    | readRet => exact hahead
    | @accept pos pos' k k' d hpos =>
      cases pos with
      | ret => exact absurd rfl hpos
      | _ => exact absurd List.mem_cons_self hahead
    | acceptRet => exact hahead
    | off hoff =>
      cases pc' with
      | poll active =>
        cases active with
        | nil => exact List.not_mem_nil
        | cons p active => exact absurd hoff id
      | next active => exact absurd hoff id
      | handle d => exact absurd hoff id
      | read c pos d => exact absurd hoff id
      | accept pos k d => exact absurd hoff id
      | _ => exact List.not_mem_nil
  refine ⟨?_, hkeep⟩
  obtain ⟨i, hi, harmed⟩ := hdeaf
  cases hhears with
  | same hsame => exact ⟨i, hsame.trans hi, harmed⟩
  | delivered hi' harmed' _ =>
    obtain rfl := Option.some.inj (hi.symm.trans hi')
    cases harmed.symm.trans harmed'
  | rearmed hpc _ _ =>
    rw [hpc] at hahead
    exact absurd List.mem_cons_self hahead

/-- A muted server does not call `accept`. -/
theorem Muted.isAccept {e : ServerEvent} (h : s.Muted) (hm : s.Moves e s') (hp : Placed s) :
    e.isAccept = false := by
  cases hm with
  | accept hpc _ =>
    obtain rfl := hp.accept_loop hpc
    have hahead := h.2
    rw [hpc] at hahead
    exact absurd List.mem_cons_self hahead
  | _ => rfl

/-! ## The interest of the acceptor -/

/-- The listening descriptor is registered for reading, armed or not. -/
def Keen (s : TCPServer) : Prop := ∀ i, s.listening = some i → i.events.has epollIn = true

theorem Keen.moves {e : ServerEvent} (h : s.Keen) (hm : s.Moves e s') (hp : Placed s)
    (ho : Owns s) (hs : s.Serves 0) : s'.Keen := by
  intro i hi
  cases (hm.hears hp ho hs).1 with
  | same hsame => exact h i (hsame ▸ hi)
  | @delivered i' hi' _ hdelivered =>
    obtain rfl := Option.some.inj (hi.symm.trans hdelivered)
    exact h i' hi'
  | rearmed _ _ hrearmed =>
    obtain rfl := Option.some.inj (hi.symm.trans hrearmed)
    exact EventMask.has_or_right (by decide)

/-- **The acceptor in a reachable state.** -/
theorem reachable_heardAt {n : ℕ} {fd : Fd} {others : Finset Fd}
    (h : (machine n fd others).Reachable s) : s.HeardAt (s.loops 0).pc ∧ s.Keen := by
  obtain ⟨tr, ht⟩ := h
  refine Machine.exec_induction (motive := fun _ s => s.HeardAt (s.loops 0).pc ∧ s.Keen)
    ⟨trivial, fun i hi => ?_⟩ (fun tr t e t' ht hstep ih => ?_) ht
  · have hnew := Serves.interest_new n fd others 0
    rw [if_pos rfl] at hnew
    unfold listening at hi
    change ((TCPServer.new n fd others).loops 0).epoll.interest fd = some i at hi
    rw [hnew, Function.update_self] at hi
    obtain rfl := Option.some.inj hi
    decide
  · have hp : Placed t := reachable_placed ⟨tr, ht⟩
    have ho : Owns t := reachable_owns ⟨tr, ht⟩
    have hs : t.Serves 0 := reachable_serves ⟨tr, ht⟩ 0
    have hm : t.Moves e t' := .of_step hstep
    exact ⟨heardAt_moves ih.1 hm hp ho hs, ih.2.moves hm hp ho hs⟩

/-- **A muted server stays muted, and accepts nothing.** -/
theorem Muted.exec {n : ℕ} {fd : Fd} {others : Finset Fd} {tr : List ServerEvent}
    (h : (machine n fd others).Reachable s) (hmuted : s.Muted)
    (ht : (machine n fd others).exec s tr = some t) :
    t.Muted ∧ ∀ e ∈ tr, e.isAccept = false := by
  have hall : (machine n fd others).Reachable t ∧ t.Muted ∧ ∀ e ∈ tr, e.isAccept = false := by
    refine Machine.exec_induction (motive := fun tr t => (machine n fd others).Reachable t
      ∧ t.Muted ∧ ∀ e ∈ tr, e.isAccept = false) ⟨h, hmuted, fun e he => by cases he⟩ ?_ ht
    rintro tr t e t' - hstep ⟨hreach, hmuted, hnone⟩
    have hp : Placed t := reachable_placed hreach
    have hm : t.Moves e t' := .of_step hstep
    refine ⟨hreach.step hstep,
      hmuted.moves hm hp (reachable_owns hreach) (reachable_serves hreach 0), fun e' he' => ?_⟩
    rcases List.mem_append.mp he' with he' | he'
    · exact hnone e' he'
    · rw [List.mem_singleton.mp he']
      exact hmuted.isAccept hm hp
  exact hall.2

/-- A server that is deaf does not listen. -/
theorem Deaf.not_listens (h : s.Deaf) : ¬ s.Listens := by
  obtain ⟨i, hi, harmed⟩ := h
  rintro ⟨i', hi', -, harmed', -⟩
  obtain rfl := Option.some.inj (hi.symm.trans hi')
  cases harmed.symm.trans harmed'

/-- And one that does not listen is deaf. -/
theorem Serves.deaf (hs : s.Serves 0) (hk : s.Keen) (h : ¬ s.Listens) : s.Deaf := by
  obtain ⟨-, i, hi, hd⟩ := hs.books.listen rfl
  refine ⟨i, hi, ?_⟩
  cases harmed : i.armed with
  | false => rfl
  | true => exact absurd ⟨i, hi, hd, harmed, hk i hi⟩ h

/-- **A server that misses its acceptor once is deaf for good.** Whenever `handle_events`
returns for the listening channel, the channel is armed again, or it is never armed again:
if `handle_new_conn` left early, or was not called since the events did not contain
`EPOLLIN`, then in no continuation of the run, whatever the loops and the kernel do, is a
connection ever accepted. -/
theorem deaf_for_good {n : ℕ} {fd : Fd} {others : Finset Fd} {d : Dispatch}
    (h : (machine n fd others).Reachable s) (hpc : (s.loops 0).pc = .handle d)
    (hd : d.channel = .acceptor) (hret : d.stage = .ret) :
    s.Listens ∨ ∀ tr t, (machine n fd others).exec s tr = some t →
      ¬ t.Listens ∧ ∀ e ∈ tr, e.isAccept = false := by
  by_cases hlisten : s.Listens
  · exact Or.inl hlisten
  refine Or.inr fun tr t ht => ?_
  have hs : s.Serves 0 := reachable_serves h 0
  have hdeaf : s.Deaf := hs.deaf (reachable_heardAt h).2 hlisten
  have hactive : .acceptor ∉ d.active := by
    obtain ⟨-, hhandling, -⟩ := hs.standing hpc
    exact hd ▸ hhandling.once
  have hmuted : s.Muted := by
    refine ⟨hdeaf, ?_⟩
    rw [hpc]
    unfold ServerPc.ahead
    dsimp only
    rwa [if_pos (Or.inr hret)]
  obtain ⟨hdeaf', hnone⟩ := hmuted.exec h ht
  exact ⟨hdeaf'.1.not_listens, hnone⟩

/-- The flags of the descriptor `10` cannot be read, and no connection is accepted after
that. -/
theorem deaf_for_good_refused :
    ∃ s : TCPServer, (machine 2 3 ∅).exec (machine 2 3 ∅).init
        ([.deliver 0 3 epollIn, .step 0, .step 0, .step 0, .step 0, .step 0, .accept 0 10, .step 0,
          .step 0, .flags 0 false] ++ List.replicate 2 (.step 0)) = some s
      ∧ ∀ tr t, (machine 2 3 ∅).exec s tr = some t →
        ¬ t.Listens ∧ ∀ e ∈ tr, e.isAccept = false := by
  have hend : ((machine 2 3 ∅).exec (machine 2 3 ∅).init
      ([.deliver 0 3 epollIn, .step 0, .step 0, .step 0, .step 0, .step 0, .accept 0 10, .step 0,
        .step 0, .flags 0 false] ++ List.replicate 2 (.step 0))).map
        (fun s => ((s.loops 0).pc, s.listening.map Interest.armed))
      = some (.handle ⟨.acceptor, .ret, []⟩, some false) := by decide +kernel
  obtain ⟨s, hrun, hs⟩ := Option.map_eq_some_iff.mp hend
  obtain ⟨hpc, harmed⟩ := Prod.mk.inj hs
  obtain ⟨i, hi, harmed⟩ := Option.map_eq_some_iff.mp harmed
  have hdeaf : s.Deaf := ⟨i, hi, harmed⟩
  exact ⟨s, hrun, (deaf_for_good ⟨_, hrun⟩ hpc rfl rfl).resolve_left hdeaf.not_listens⟩

end TCPServer
