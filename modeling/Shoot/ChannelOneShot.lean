import Shoot.ChannelInterest

/-!
# The one-shot discipline of the channels

Interest in reading and interest in writing both ask for `EPOLLONESHOT`, and
they share the bit: `read_event` and `write_event` overlap in it. Enabling sets
the bit together with the interest. Disabling one of them clears the bit, and
leaves the other interest without it (`ChannelLoop.repeats`): the registration
stays armed after a delivery, and the kernel reports the same event again and
again.

So the discipline is kept by exactly the runs that disable an interest only
where the other one is not there. It makes every delivery the last one until
the registration is updated, except for a registration with no interest left:
the kernel reports errors and hang-ups for it all the same, and nothing disarms
it (`ChannelLoop.oneShot`).
-/

namespace EventMask

variable {m c events : EventMask}

/-- Bits that are kept are there as before. -/
theorem has_and_of_eq (h : c &&& events = events) : (m &&& c).has events = m.has events := by
  unfold has
  rw [BitVec.and_assoc, h]

/-- Bits that are cleared are not there. -/
theorem has_and_of_zero (h : c &&& events = 0) : (m &&& c).has events = false := by
  unfold has
  rw [BitVec.and_assoc, h]
  simp

/-- A mask with interest in reading or writing carries `EPOLLONESHOT`. -/
def OneShot (m : EventMask) : Prop :=
  m.has epollIn = true ∨ m.has epollOut = true → m.has epollOneshot = true

theorem oneShot_or_readEvent (m : EventMask) : OneShot (m ||| Channel.readEvent) := fun _ =>
  has_or_right (by decide)

theorem oneShot_or_writeEvent (m : EventMask) : OneShot (m ||| Channel.writeEvent) := fun _ =>
  has_or_right (by decide)

theorem oneShot_noneEvent : OneShot Channel.noneEvent := by
  unfold OneShot
  decide

/-- Interest in reading is taken away with the bit, so it must be the only
interest there was. -/
theorem oneShot_disableRead :
    OneShot (m &&& ~~~Channel.readEvent) ↔ m.has epollOut = false := by
  have hin : (m &&& ~~~Channel.readEvent).has epollIn = false := has_and_of_zero (by decide)
  have hone : (m &&& ~~~Channel.readEvent).has epollOneshot = false := has_and_of_zero (by decide)
  have hout : (m &&& ~~~Channel.readEvent).has epollOut = m.has epollOut :=
    has_and_of_eq (by decide)
  unfold OneShot
  rw [hin, hone, hout]
  simp

/-- So must interest in writing. -/
theorem oneShot_disableWrite :
    OneShot (m &&& ~~~Channel.writeEvent) ↔ m.has epollIn = false := by
  have hout : (m &&& ~~~Channel.writeEvent).has epollOut = false := has_and_of_zero (by decide)
  have hone : (m &&& ~~~Channel.writeEvent).has epollOneshot = false :=
    has_and_of_zero (by decide)
  have hin : (m &&& ~~~Channel.writeEvent).has epollIn = m.has epollIn :=
    has_and_of_eq (by decide)
  unfold OneShot
  rw [hin, hone, hout]
  simp

end EventMask

namespace ChannelLoop

variable {ι C : Type*} [DecidableEq ι]

/-- **An operation that keeps the shared bit where it is needed**: an interest
is disabled only where the other one is not there. -/
def KeepsBit (s : ChannelLoop ι C) : ChannelEvent ι → Prop
  | .op .disableRead i => (s.channel i).event.has epollOut = false
  | .op .disableWrite i => (s.channel i).event.has epollIn = false
  | _ => True

/-- An event of a descriptor that is registered with an interest. -/
def Interested (s : ChannelLoop ι C) : ChannelEvent ι → Prop
  | .op _ _ => True
  | .deliver fd _ => ∀ x, s.epoll.interest fd = some x →
      x.events.has epollIn = true ∨ x.events.has epollOut = true

/-- **Every registered channel is one-shot**, if it is registered with an
interest. -/
def OneShot (fd : ι → Fd) (s : ChannelLoop ι C) : Prop :=
  ∀ i x, s.epoll.interest (fd i) = some x → x.events.OneShot

/-- **No two events of a channel** are delivered in a run without an operation
on the channel between them. -/
def Updated (fd : ι → Fd) (tr : List (ChannelEvent ι)) : Prop :=
  ∀ i m m' tr₁ tr₂ tr₃,
    tr = tr₁ ++ .deliver (fd i) m :: (tr₂ ++ .deliver (fd i) m' :: tr₃) →
      ∃ o, ChannelEvent.op o i ∈ tr₂

section

variable {fd : ι → Fd} {s s' : ChannelLoop ι C} {e : ChannelEvent ι} {tr : List (ChannelEvent ι)}

/-- The channels of a run keep books that agree with the kernel's. -/
theorem agrees_of_exec (hfd : Function.Injective fd)
    (h : (machine (C := C) fd).exec (machine fd).init tr = some s) : Agrees fd s :=
  Machine.exec_invariant (fun _ _ _ ha hs => ha.step hfd hs) h (agrees_new fd)

/-- What the channel of an operation wants after it. -/
theorem event_op (o : ChannelOp) (i : ι) (s : ChannelLoop ι C) :
    ((s.put i (o.run s.epoll i (s.channel i))).channel i).event = match o with
      | .enableRead => (s.channel i).event ||| Channel.readEvent
      | .enableWrite => (s.channel i).event ||| Channel.writeEvent
      | .disableRead => (s.channel i).event &&& ~~~Channel.readEvent
      | .disableWrite => (s.channel i).event &&& ~~~Channel.writeEvent
      | .disalbelAll => Channel.noneEvent
      | .remove => (s.channel i).event := by
  have hput : (s.put i (o.run s.epoll i (s.channel i))).channel i
      = (o.run s.epoll i (s.channel i)).2 := Function.update_self ..
  rw [hput]
  cases o with
  | remove => rfl
  | _ => exact congrArg Channel.event (Channel.update_snd _ _ _)

/-- The other channels want what they wanted. -/
theorem event_op_of_ne (o : ChannelOp) {i j : ι} (hj : j ≠ i) (s : ChannelLoop ι C) :
    ((s.put i (o.run s.epoll i (s.channel i))).channel j).event = (s.channel j).event :=
  congrArg Channel.event (Function.update_of_ne hj _ _)

/-- **A step that keeps the bit keeps the channels one-shot**, whether they are
registered or not. -/
theorem oneShot_step (h : ∀ i, (s.channel i).event.OneShot) (hk : s.KeepsBit e)
    (hs : s.step e = some s') : ∀ i, (s'.channel i).event.OneShot := by
  cases e with
  | op o i =>
    cases hs
    intro j
    by_cases hj : j = i
    · subst hj
      rw [event_op]
      cases o with
      | enableRead => exact EventMask.oneShot_or_readEvent _
      | enableWrite => exact EventMask.oneShot_or_writeEvent _
      | disableRead => exact EventMask.oneShot_disableRead.mpr hk
      | disableWrite => exact EventMask.oneShot_disableWrite.mpr hk
      | disalbelAll => exact EventMask.oneShot_noneEvent
      | remove => exact h j
    · rw [event_op_of_ne o hj]
      exact h j
  | deliver f m =>
    obtain ⟨r, -, hs⟩ := Option.map_eq_some_iff.mp hs
    cases hs
    exact (Function.forall_update_iff s.channel fun _ ch => ch.event.OneShot).mpr
      ⟨h r.2, fun j _ => h j⟩

/-- An update registers the channel for what it wants now. -/
theorem interest_update (ha : Agrees fd s) (i : ι) (m : EventMask) :
    (s.put i (Channel.update s.epoll i { s.channel i with event := m })).epoll.interest (fd i)
      = some ⟨m, i, true⟩ := by
  have hk : Channel.Known s.epoll { s.channel i with event := m } := (ha.tracked i).known
  show (Channel.update _ _ _).1.interest (fd i) = _
  rw [Channel.update_fst hk, ← ha.fds i]
  exact Function.update_self ..

/-- A step that does not keep the bit leaves a registration without it. -/
theorem not_oneShot_step (ha : Agrees fd s) (hk : ¬ s.KeepsBit e) (hs : s.step e = some s') :
    ¬ OneShot fd s' := by
  intro hone
  cases e with
  | deliver f m => exact hk trivial
  | op o i =>
    cases hs
    cases o with
    | disableRead =>
      exact hk (EventMask.oneShot_disableRead.mp (hone i _ (interest_update ha i _)))
    | disableWrite =>
      exact hk (EventMask.oneShot_disableWrite.mp (hone i _ (interest_update ha i _)))
    | enableRead | enableWrite | disalbelAll | remove => exact hk trivial

/-- Along a run whose steps keep the bit, every registered channel is
one-shot. -/
theorem oneShot_of_along (hfd : Function.Injective fd)
    (h : (machine (C := C) fd).exec (machine fd).init tr = some s)
    {P : ChannelLoop ι C → ChannelEvent ι → Prop} (hP : ∀ s e, P s e → s.KeepsBit e)
    (hk : (machine fd).Along P (machine fd).init tr) : OneShot fd s := by
  have ha := agrees_of_exec hfd h
  have hone : ∀ i, (s.channel i).event.OneShot :=
    hk.invariant (I := fun s => ∀ i, (s.channel i).event.OneShot)
      (fun _ _ _ h hp hs => oneShot_step h (hP _ _ hp) hs) h fun _ => EventMask.oneShot_noneEvent
  intro i x hx
  rw [((ha.tracked i).asked x ((ha.fds i).symm ▸ hx)).1]
  exact hone i

/-- **The channels are one-shot in every state of a run exactly if the run
keeps the bit.** -/
theorem oneShot_iff (hfd : Function.Injective fd)
    (h : (machine (C := C) fd).exec (machine fd).init tr = some s) :
    (∀ tr' t, tr' <+: tr → (machine (C := C) fd).exec (machine fd).init tr' = some t →
        OneShot fd t)
      ↔ (machine (C := C) fd).Along KeepsBit (machine fd).init tr := by
  refine Machine.forall_prefix_iff_along ?_ ?_ h
  · exact fun tr t ht hk => oneShot_of_along hfd ht (fun _ _ hp => hp) hk
  · intro tr t e t' ht hs _ hone
    by_contra hk
    exact not_oneShot_step (agrees_of_exec hfd ht) hk hs hone

/-- The registration of a channel is there and delivers nothing, or is not
there. -/
def Disarmed (fd : ι → Fd) (s : ChannelLoop ι C) (i : ι) : Prop :=
  ∀ x, s.epoll.interest (fd i) = some x → x.armed = false

/-- **A disarmed registration stays so until an operation on its channel.** -/
theorem Disarmed.step (hfd : Function.Injective fd) (ha : Agrees fd s) {i : ι}
    (h : Disarmed fd s i) (hne : ∀ o, e ≠ .op o i) (hs : s.step e = some s') :
    Disarmed fd s' i := by
  cases e with
  | op o j =>
    cases hs
    have hji : fd i ≠ (s.channel j).fd := by
      rw [ha.fds j]
      exact fun hf => hne o (congrArg _ (hfd hf).symm)
    intro x hx
    refine h x (Eq.trans (Eq.symm ?_) hx)
    rcases o.run_eq s.epoll j (s.channel j) with ⟨m, ho⟩ | ho
    · have hk : Channel.Known s.epoll { s.channel j with event := m } := (ha.tracked j).known
      rw [ho]
      show (Channel.update _ _ _).1.interest (fd i) = _
      rw [Channel.update_fst hk]
      exact Function.update_of_ne hji _ _
    · rw [ho]
      show ((s.channel j).remove _ _).1.interest (fd i) = _
      rw [Channel.remove_interest]
      exact Function.update_of_ne hji _ _
  | deliver f m =>
    obtain ⟨r, hr, hs⟩ := Option.map_eq_some_iff.mp hs
    cases hs
    obtain ⟨x, hx, harm, -, -, hK⟩ := EpollSet.deliver_eq_some hr
    intro y hy
    have hf : fd i ≠ f := by
      rintro rfl
      exact Bool.false_ne_true ((h x hx).symm.trans harm)
    refine h y (Eq.trans (Eq.symm ?_) hy)
    show r.1 (fd i) = _
    rw [hK]
    exact Function.update_of_ne hf _ _

/-- A delivery for a one-shot channel with an interest disarms it. -/
theorem disarmed_deliver {i : ι} {m : EventMask} (hone : OneShot fd s)
    (hint : s.Interested (.deliver (fd i) m)) (hs : s.step (.deliver (fd i) m) = some s') :
    Disarmed fd s' i := by
  obtain ⟨r, hr, hs⟩ := Option.map_eq_some_iff.mp hs
  cases hs
  obtain ⟨x, hx, -, -, -, hK⟩ := EpollSet.deliver_eq_some hr
  intro y hy
  have hy' : r.1 (fd i) = some x.delivered := by
    rw [hK]
    exact Function.update_self ..
  cases hy'.symm.trans hy
  show (!x.events.has epollOneshot) = false
  rw [hone i x hx (hint x hx)]
  rfl

/-- No event is delivered for a disarmed registration. -/
theorem Disarmed.not_deliver {i : ι} {m : EventMask} (h : Disarmed fd s i) :
    s.step (.deliver (fd i) m) ≠ some s' := by
  intro hs
  obtain ⟨r, hr, -⟩ := Option.map_eq_some_iff.mp hs
  obtain ⟨x, hx, harm, -⟩ := EpollSet.deliver_eq_some hr
  exact Bool.false_ne_true ((h x hx).symm.trans harm)

/-- Nor does a run without an operation on the channel arm it. -/
theorem Disarmed.exec (hfd : Function.Injective fd) (ha : Agrees fd s) {i : ι}
    (h : Disarmed fd s i) (hne : ∀ o, ChannelEvent.op o i ∉ tr)
    (ht : (machine (C := C) fd).exec s tr = some s') : Disarmed fd s' i := by
  induction tr generalizing s with
  | nil =>
    cases ht
    exact h
  | cons e tr ih =>
    obtain ⟨t, hs, ht⟩ := Option.bind_eq_some_iff.mp ht
    exact ih (ha.step hfd hs)
      (h.step hfd ha (fun o ho => hne o (ho ▸ List.mem_cons_self)) hs)
      (fun o ho => hne o (List.mem_cons_of_mem _ ho)) ht

/-- Two events of a channel are not delivered without an operation between
them, along a run that keeps the bit and where the kernel has no event for a
registration without an interest. -/
theorem updated_of_along (hfd : Function.Injective fd)
    (h : (machine (C := C) fd).exec (machine fd).init tr = some s)
    (hk : (machine (C := C) fd).Along (fun s e => s.KeepsBit e ∧ s.Interested e)
      (machine fd).init tr) : Updated fd tr := by
  rintro i m m' tr₁ tr₂ tr₃ rfl
  by_contra hop
  rw [not_exists] at hop
  rw [Machine.exec_append] at h
  obtain ⟨t, ht, h⟩ := Option.bind_eq_some_iff.mp h
  obtain ⟨u, hu, h⟩ := Option.bind_eq_some_iff.mp h
  rw [Machine.exec_append] at h
  obtain ⟨v, hv, h⟩ := Option.bind_eq_some_iff.mp h
  obtain ⟨w, hw, -⟩ := Option.bind_eq_some_iff.mp h
  -- the first delivery disarms the registration, and nothing arms it before the second
  obtain ⟨hk₁, hk₂⟩ := (Machine.along_append ht).mp hk
  have hint := (Machine.along_cons.mp hk₂).1.2
  have hone : OneShot fd t := oneShot_of_along hfd ht (fun _ _ hp => hp.1) hk₁
  have hdis : Disarmed fd u i := disarmed_deliver hone hint hu
  have ha : Agrees fd u := (agrees_of_exec hfd ht).step hfd (e := .deliver (fd i) m) hu
  exact (hdis.exec hfd ha hop hv).not_deliver hw

/-- **The channels are one-shot exactly along the runs that keep the bit**, and
the kernel delivers no two events of a channel without an update of it. For any
channels of a loop on distinct descriptors, and any operations and deliveries:
every registration with an interest in reading or writing carries
`EPOLLONESHOT` in every state of the run if and only if no interest is disabled
while the other one is there. If, besides, no event comes for a channel with
neither interest, there is an operation on a channel between any two
deliveries for it. -/
theorem oneShot (hfd : Function.Injective fd)
    (h : (machine (C := C) fd).exec (machine fd).init tr = some s) :
    ((∀ tr' t, tr' <+: tr → (machine (C := C) fd).exec (machine fd).init tr' = some t →
        OneShot fd t)
      ↔ (machine (C := C) fd).Along KeepsBit (machine fd).init tr)
    ∧ ((machine (C := C) fd).Along (fun s e => s.KeepsBit e ∧ s.Interested e)
        (machine fd).init tr → Updated fd tr) :=
  ⟨oneShot_iff hfd h, updated_of_along hfd h⟩

/-- A channel is enabled for both, delivered an event, enabled again – which
arms it – and delivered the next one. -/
theorem oneShot_rearmed :
    ∃ s, (machine (C := Unit) fun _ : Unit => 5).exec (machine fun _ => 5).init
        [.op .enableRead (), .op .enableWrite (), .deliver 5 epollIn, .op .enableRead (),
          .deliver 5 epollOut] = some s
      ∧ OneShot (fun _ => 5) s
      ∧ Updated (fun _ => 5) [.op .enableRead (), .op .enableWrite (), .deliver 5 epollIn,
          .op .enableRead (), .deliver 5 epollOut] := by
  have hfd : Function.Injective fun _ : Unit => (5 : Fd) := fun _ _ _ => rfl
  have hrun : (machine (C := Unit) fun _ : Unit => 5).exec (machine fun _ => 5).init
      [.op .enableRead (), .op .enableWrite (), .deliver 5 epollIn, .op .enableRead (),
        .deliver 5 epollOut] = some _ := rfl
  have hone := oneShot hfd hrun
  refine ⟨_, hrun, hone.1.mpr ?_ _ _ (List.prefix_refl _) hrun, hone.2 ?_⟩
  · exact ⟨trivial, trivial, trivial, trivial, trivial, trivial⟩
  · refine ⟨⟨trivial, trivial⟩, ⟨trivial, trivial⟩, ⟨trivial, fun x hx => ?_⟩,
      ⟨trivial, trivial⟩, ⟨trivial, fun x hx => ?_⟩, trivial⟩
    · cases hx
      decide
    · cases hx
      decide

/-- **Disabling one interest takes the bit from the other**: a channel enabled
for reading and writing, and disabled for writing, is delivered the same event
twice. -/
theorem repeats :
    ∃ s, (machine (C := Unit) fun _ : Unit => 5).exec (machine fun _ => 5).init
        [.op .enableRead (), .op .enableWrite (), .op .disableWrite (), .deliver 5 epollIn,
          .deliver 5 epollIn] = some s
      ∧ ¬ OneShot (fun _ => 5) s
      ∧ ¬ Updated (fun _ => 5) [.op .enableRead (), .op .enableWrite (), .op .disableWrite (),
          .deliver 5 epollIn, .deliver 5 epollIn] := by
  refine ⟨_, rfl, fun hone => ?_, fun hup => ?_⟩
  · have h : EventMask.OneShot (epollIn ||| epollPri) := hone () _ rfl
    revert h
    unfold EventMask.OneShot
    decide
  · obtain ⟨o, ho⟩ := hup () epollIn epollIn
      [.op .enableRead (), .op .enableWrite (), .op .disableWrite ()] [] [] rfl
    cases ho

end

end ChannelLoop
