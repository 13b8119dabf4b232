import Shoot.AsyncLoggingLedger

/-!
# What `stop()` leaves behind

`stop()` sets `running` to false, notifies the consumer and joins it. The
notification makes a consumer that is waiting swap one last time, write what
it took and flush; then it tests `running` and leaves. But a consumer that is
elsewhere when the flag falls – about to test `running`, or writing an earlier
batch and so about to test it – leaves without a last swap, and what the
producers appended since its previous swap stays in `buffers_` and
`curr_buffer_`.

`Shutdown` describes the runs of the intended use: `start()`, appends and the
consumer's work in any interleaving, `stop()` once the appends have returned,
and the consumer's work up to its end. `drained_iff` says in which of them
the log is complete and flushed: exactly those where the flag falls between
the consumer's test of `running` and its swap, or where nothing was waiting.
-/

namespace AsyncLogging

/-- The bytes the consumer has not taken: those of `buffers_` and of
`curr_buffer_`. -/
def backlog (s : AsyncLogging) : List UInt8 :=
  s.contentsOf s.buffers ++ s.contentsOf s.currBuffer.toList

/-- The consumer has passed the test of `running` and has not swapped yet. -/
def willSwap : LogPc → Bool
  | .lock | .waiting => true
  | _ => false

/-- **The state in which `stop()` loses nothing**: the consumer is on its way
to a swap, or there is nothing left to swap. -/
def DrainsOnStop (s : AsyncLogging) : Prop := willSwap s.pc = true ∨ s.backlog = []

/-- The events of producers and consumer. -/
def isWork : LogEvent → Bool
  | .append _ | .wake _ | .consumer => true
  | .start | .stop => false

/-- The events of the consumer thread. -/
def isConsumer : LogEvent → Bool
  | .wake _ | .consumer => true
  | .start | .append _ | .stop => false

/-- **A run from `start()` to the return of `stop()`**: `s` is the state in
which `stop()` is called, all the appends having returned, and `s'` the one
in which the thread is joined. -/
structure Shutdown (work rest : List LogEvent) (s s' : AsyncLogging) : Prop where
  /-- `stop()` is called in the state `s`. -/
  called : machine.exec machine.init (.start :: work) = some s
  /-- Between `start()` and `stop()` the threads work. -/
  working : ∀ e ∈ work, isWork e = true
  /-- The thread ends in the state `s'`. -/
  joined : machine.exec s (.stop :: rest) = some s'
  /-- After `stop()` only the consumer moves. -/
  leaving : ∀ e ∈ rest, isConsumer e = true
  /-- The thread has ended. -/
  done : s'.pc = .done
  /-- The messages are shorter than a buffer. -/
  short : ∀ msg ∈ appended work, msg.length < largeBuffer
  /-- No batch has more than 25 buffers. -/
  noOverflow : machine.Along (fun t _ => ¬ t.Overflows) machine.init
    ((.start :: work) ++ (.stop :: rest))

/-- The log is complete: every appended message was handed over, in order, and
flushed. -/
def Drained (work : List LogEvent) (s' : AsyncLogging) : Prop :=
  s'.output.handed = (appended work).flatten ∧ s'.output.flushed = (appended work).flatten

/-- The consumer appends nothing. -/
theorem appended_of_isConsumer {tr : List LogEvent} (h : ∀ e ∈ tr, isConsumer e = true) :
    appended tr = [] := by
  induction tr with
  | nil => rfl
  | cons e tr ih =>
    have ih := ih fun e' he' => h e' (List.mem_cons_of_mem e he')
    have he := h e List.mem_cons_self
    cases e with
    | wake how => exact ih
    | consumer => exact ih
    | _ => cases he

/-- The swap moves the consumer past it, and leaves the flag alone. -/
theorem RotationInv.swapBuffers_pc {s : AsyncLogging} (h : RotationInv s) :
    s.swapBuffers.pc = .truncate ∧ s.swapBuffers.running = s.running := by
  obtain ⟨b, hb⟩ := Option.isSome_iff_exists.mp h.curr
  rw [AsyncLogging.swapBuffers, hb]
  exact ⟨rfl, rfl⟩

/-- A refill moves the consumer to its next statement. -/
theorem RotationInv.refill1_pc {s : AsyncLogging} (h : RotationInv s) (hpc : s.pc = .refill1) :
    s.refill1.pc = .refill2 ∧ s.refill1.running = s.running := by
  have hp := h.phase
  unfold Phase at hp
  rw [hpc] at hp
  obtain ⟨l, b, hw⟩ := (List.eq_nil_or_concat' s.buffersToWrite).resolve_left hp.2.1
  rw [refill1_of_none hp.1 hw]
  exact ⟨rfl, rfl⟩

/-- So does the other. -/
theorem RotationInv.refill2_pc {s : AsyncLogging} (h : RotationInv s) (hpc : s.pc = .refill2) :
    s.refill2.pc = .recycle ∧ s.refill2.running = s.running := by
  have hp := h.phase
  unfold Phase at hp
  rw [hpc] at hp
  cases h₂ : s.newBuffer2 with
  | some n => rw [refill2_of_some h₂]; exact ⟨rfl, rfl⟩
  | none =>
    obtain ⟨l, b, hw⟩ := (List.eq_nil_or_concat' s.buffersToWrite).resolve_left (hp.2 h₂)
    rw [refill2_of_none h₂ hw]
    exact ⟨rfl, rfl⟩

/-! ## After the flag has fallen -/

/-- **What the fallen flag leaves the consumer to do**: it swaps at most once,
and only if `swaps`; otherwise the messages it has not taken are those of
`before`. -/
structure Leaving (swaps : Bool) (before : List Msg) (s : AsyncLogging) (L : Ledger Msg) :
    Prop where
  /-- The flag stays down. -/
  running : s.running = false
  /-- A swap still to come was to come when the flag fell. -/
  willSwap : AsyncLogging.willSwap s.pc = true → swaps = true
  /-- After the swap nothing is left. -/
  taken : swaps = true → AsyncLogging.willSwap s.pc = false → L.pending = []
  /-- Without one everything is. -/
  left : swaps = false → L.pending = before

namespace Leaving

variable {swaps : Bool} {before : List Msg} {s s' : AsyncLogging} {L L' : Ledger Msg}

/-- A statement after which no swap is to come, and which takes no message,
leaves the rest as it was. -/
theorem of_pending_eq (h : Leaving swaps before s L)
    (hpc : AsyncLogging.willSwap s.pc = false) (hr : s'.running = s.running)
    (hpc' : AsyncLogging.willSwap s'.pc = false) (hL : L'.pending = L.pending) :
    Leaving swaps before s' L' :=
  ⟨hr.trans h.running, fun hw => absurd (hpc'.symm.trans hw) Bool.false_ne_true,
    fun hs _ => hL.trans (h.taken hs hpc), fun hs => hL.trans (h.left hs)⟩

/-- The swap takes everything. -/
theorem of_swap (h : Leaving swaps before s L) (hi : RotationInv s)
    (hpc : AsyncLogging.willSwap s.pc = true) : Leaving swaps before s.swapBuffers L.swap := by
  have hs := h.willSwap hpc
  exact ⟨hi.swapBuffers_pc.2.trans h.running, fun _ => hs, fun _ _ => L.pending_swap,
    fun hs' => absurd (hs'.symm.trans hs) Bool.false_ne_true⟩

/-- **Each step of the consumer, with the flag down.** -/
theorem moves {e : LogEvent} (h : Leaving swaps before s L) (hi : RotationInv s)
    (he : isConsumer e = true) (hs : s.Moves e s') : Leaving swaps before s' (record s e L) := by
  have hrun := h.running
  cases hs with
  | start hpc => cases he
  | append msg => cases he
  | stop => cases he
  | wake how hpc => exact h.of_swap hi (by rw [hpc]; rfl)
  | loopTest hpc =>
    rw [record, hpc, hrun]
    exact h.of_pending_eq (by rw [hpc]; rfl) hrun.symm rfl rfl
  | block hpc hq =>
    rw [record, hpc]
    dsimp only
    rw [if_pos hq]
    exact ⟨hrun, fun _ => h.willSwap (by rw [hpc]; rfl), fun _ hw => (by cases hw), h.left⟩
  | swap hpc hq =>
    rw [record, hpc]
    dsimp only
    rw [if_neg hq]
    exact h.of_swap hi (by rw [hpc]; rfl)
  | truncate hpc =>
    rw [record, hpc]
    refine h.of_pending_eq (by rw [hpc]; rfl) rfl rfl ?_
    dsimp only
    split <;> rfl
  | write i hpc =>
    rw [record, hpc, AsyncLogging.write]
    cases s.buffersToWrite[i]? with
    | some b => exact h.of_pending_eq (by rw [hpc]; rfl) rfl rfl L.pending_handOver
    | none => exact h.of_pending_eq (by rw [hpc]; rfl) rfl rfl L.pending_handOver
  | refill1 hpc =>
    rw [record, hpc]
    obtain ⟨hp, hr⟩ := hi.refill1_pc hpc
    exact h.of_pending_eq (by rw [hpc]; rfl) hr (by rw [hp]; rfl) rfl
  | refill2 hpc =>
    rw [record, hpc]
    obtain ⟨hp, hr⟩ := hi.refill2_pc hpc
    exact h.of_pending_eq (by rw [hpc]; rfl) hr (by rw [hp]; rfl) rfl
  | _ hpc =>
    rw [record, hpc]
    exact h.of_pending_eq (by rw [hpc]; rfl) rfl rfl rfl

end Leaving

/-- The consumer leaves from the state `stop()` was called in. -/
theorem Shutdown.leaves {work rest : List LogEvent} {s s' : AsyncLogging}
    (h : Shutdown work rest s s') :
    Leaving (willSwap s.pc) (ledger (.start :: work)).pending s'
      (ledger ((.start :: work) ++ .stop :: rest)) := by
  have hdef := (reachable_rotationInv ⟨_, h.called⟩).defined
  have hstop : machine.step s .stop = some { s with running := false } := by
    show s.step .stop = _
    rw [step, hdef]
    rfl
  have hpre : machine.exec machine.init ((.start :: work) ++ [.stop])
      = some { s with running := false } := Machine.exec_concat.mpr ⟨s, h.called, hstop⟩
  have hrest : machine.exec { s with running := false } rest = some s' := by
    have hj := h.joined
    rwa [Machine.exec_cons, hstop] at hj
  have key : (∀ e ∈ rest, isConsumer e = true) →
      Leaving (willSwap s.pc) (ledger (.start :: work)).pending s'
        (ledger (((.start :: work) ++ [.stop]) ++ rest)) := by
    refine Machine.exec_induction (motive := fun r t => (∀ e ∈ r, isConsumer e = true) →
      Leaving (willSwap s.pc) (ledger (.start :: work)).pending t
        (ledger (((.start :: work) ++ [.stop]) ++ r)))
      (fun _ => ?_) (fun r t e t' ht hs ih he => ?_) hrest
    · rw [List.append_nil, ledger_concat h.called hstop]
      exact ⟨rfl, id, fun hw hw' => absurd (hw'.symm.trans hw) Bool.false_ne_true,
        fun _ => rfl⟩
    · have hrun : machine.exec machine.init (((.start :: work) ++ [.stop]) ++ r) = some t := by
        rw [Machine.exec_append, hpre]
        exact ht
      rw [← List.append_assoc, ledger_concat hrun hs]
      exact (ih fun e' he' => he e' (List.mem_append_left _ he')).moves
        (reachable_rotationInv ⟨_, hrun⟩)
        (he e (List.mem_append_right _ (List.mem_singleton_self e))) (.of_step hs)
  have := key h.leaving
  rwa [List.append_assoc] at this

/-- **`stop()` drains the log exactly when the flag falls on a consumer that is
on its way to a swap, or with nothing left to swap.** Where the consumer stands
anywhere else – it has not tested `running` yet, or it has swapped since – the
next test it makes ends the loop, and the contents of `buffers_` and
`curr_buffer_` are never handed over. -/
theorem drained_iff {work rest : List LogEvent} {s s' : AsyncLogging}
    (h : Shutdown work rest s s') : Drained work s' ↔ s.DrainsOnStop := by
  have hrun : machine.exec machine.init ((.start :: work) ++ (.stop :: rest)) = some s' := by
    rw [Machine.exec_append, h.called]
    exact h.joined
  have happ : appended ((.start :: work) ++ (.stop :: rest)) = appended work := by
    have hrest := appended_of_isConsumer h.leaving
    rw [appended_append, appended, appended, hrest, List.append_nil]
    · exact fun _ he => by cases he
    · exact fun _ he => by cases he
  have hm : ∀ msg ∈ appended ((.start :: work) ++ (.stop :: rest)), msg.length < largeBuffer :=
    happ.symm ▸ h.short
  have hr := represents_ledger hrun hm
  have hall := survivors_eq_appended hrun hm h.noOverflow
  have hl := h.leaves
  have hflush : s'.output.flushed = s'.output.handed := by
    have hp := (reachable_rotationInv ⟨_, hrun⟩).phase
    unfold Phase at hp
    rwa [h.done] at hp
  -- at the end every group taken was handed over
  have hbatch : (ledger ((.start :: work) ++ (.stop :: rest))).batch = [] := by
    have hb := hr.batch
    rw [unhanded, h.done] at hb
    exact List.map_eq_nil_iff.mp hb.symm
  have hbytes : (appended work).flatten = s'.output.handed
      ++ (ledger ((.start :: work) ++ (.stop :: rest))).pending.flatten := by
    rw [← happ, ← hall, hr.handed, ← List.flatten_append]
    congr 1
    rw [Ledger.survivors, Ledger.pending, hbatch]
    simp only [List.flatten_nil, List.append_nil, List.append_assoc]
  have hback : s.backlog = (ledger (.start :: work)).pending.flatten :=
    (represents_ledger h.called (by simpa [appended] using h.short)).pending
  have hdrain : Drained work s'
      ↔ (ledger ((.start :: work) ++ (.stop :: rest))).pending.flatten = [] := by
    rw [Drained, hflush, and_self, hbytes]
    exact List.self_eq_append_right
  rw [hdrain, DrainsOnStop, hback]
  cases hw : willSwap s.pc with
  | true =>
    rw [hl.taken hw (by rw [h.done]; rfl)]
    exact iff_of_true rfl (Or.inl rfl)
  | false =>
    rw [hl.left hw]
    exact ⟨Or.inr, fun hd => hd.resolve_left Bool.false_ne_true⟩

/-- `stop()` finds the consumer waiting, with a message in the current
buffer. -/
theorem drained_waiting :
    ∃ s s', Shutdown [.consumer, .consumer, .consumer, .append [65]]
        (.wake .signal :: List.replicate 9 .consumer) s s'
      ∧ s.pc = .waiting ∧ Drained [.consumer, .consumer, .consumer, .append [65]] s' := by
  have hs : Shutdown [.consumer, .consumer, .consumer, .append [65]]
      (.wake .signal :: List.replicate 9 .consumer) _ _ :=
    ⟨rfl, by decide, rfl, by decide, rfl, by decide, by decide⟩
  exact ⟨_, _, hs, rfl, (drained_iff hs).mpr (Or.inl rfl)⟩

/-- **A log that is not drained.** The consumer swaps out the first message;
the second is appended and `stop()` is called while it writes; it then ends
with the second message still in the current buffer. -/
theorem not_drained :
    ∃ work rest s s', Shutdown work rest s s' ∧ ¬ Drained work s'
      ∧ appended work = [[65], [66]] ∧ s'.output.handed = [65] := by
  have hs : Shutdown [.consumer, .append [65], .consumer, .consumer, .wake .timeout,
      .append [66]] (List.replicate 9 .consumer) _ _ :=
    ⟨rfl, by decide, rfl, by decide, rfl, by decide, by decide⟩
  exact ⟨_, _, _, _, hs, fun hd => absurd hd.1 (by decide), rfl, rfl⟩

end AsyncLogging
