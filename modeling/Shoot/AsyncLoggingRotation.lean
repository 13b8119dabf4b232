import Shoot.AsyncLogging
import Shoot.Pointers

/-!
# Buffer rotation is safe

Every buffer of the logger is held by at most one of its holders, at every
point of every interleaving: the rotation of the producers, the consumer's
swap and its two refills only move pointers, and the truncations only drop
some. The buffers lent to the producers are empty when they are lent.

The delicate point is the second refill, which calls `back()` on what is left
of `buffers_to_write` after the first one and after the truncations. It runs
only when the swap gave `new_buffer2` away, so when `next_buffer_` was null,
so when a producer had pushed a full buffer since the last swap – and then the
batch had two buffers, the pushed one and the current one, and both
truncations leave two. `RotationInv.nextNull` carries the first half of this
through the producers, `Phase` the second half through the consumer.
-/

namespace AsyncLogging

/-- What the consumer's locals and its file hold at each of its statements. -/
def Phase (s : AsyncLogging) : Prop :=
  match s.pc with
  | .notStarted | .entry =>
    s.newBuffer1 = none ∧ s.newBuffer2 = none ∧ s.buffersToWrite = [] ∧ s.output = .new
  | .loopTest | .lock | .waiting | .lastFlush =>
    s.newBuffer1.isSome ∧ s.newBuffer2.isSome ∧ s.buffersToWrite = []
  | .truncate | .write _ | .shrink | .refill1 =>
    s.newBuffer1 = none ∧ s.buffersToWrite ≠ []
      ∧ (s.newBuffer2 = none → 2 ≤ s.buffersToWrite.length)
  | .refill2 => s.newBuffer1.isSome ∧ (s.newBuffer2 = none → s.buffersToWrite ≠ [])
  | .recycle => s.newBuffer1.isSome ∧ s.newBuffer2.isSome
  | .done => s.output.flushed = s.output.handed

/-- The spare buffers: those the producers will be lent. -/
def spares (s : AsyncLogging) : List BufId :=
  s.nextBuffer.toList ++ s.newBuffer1.toList ++ s.newBuffer2.toList

/-- **The rotation invariant.** -/
structure RotationInv (s : AsyncLogging) : Prop where
  /-- No undefined operation was executed. -/
  defined : s.undefined = false
  /-- The producers have a buffer to append to. -/
  curr : s.currBuffer.isSome
  /-- No buffer is held twice. -/
  held : Held s.holders s.fresh
  /-- The spare buffers are empty. -/
  empty : ∀ b ∈ s.spares, s.contents b = []
  /-- `next_buffer_` is null only if a full buffer is queued. -/
  nextNull : s.nextBuffer = none → s.buffers ≠ []
  /-- The consumer's locals are what its position says. -/
  phase : s.Phase

/-- The constructor establishes the invariant. -/
theorem rotationInv_new : RotationInv new where
  defined := rfl
  curr := rfl
  held := ⟨by decide, by decide⟩
  empty := fun _ _ => rfl
  nextNull := by decide
  phase := ⟨rfl, rfl, rfl, rfl⟩

/-- Cutting a vector down drops some of its buffers. -/
theorem keepTwo_sublist (n : ℕ) (l : List BufId) : (keepTwo n l).Sublist l := by
  unfold keepTwo
  split
  · exact List.take_sublist 2 l
  · exact List.Sublist.refl l

/-- Cutting a vector down leaves two of its buffers, if it had two. -/
theorem two_le_keepTwo {n : ℕ} {l : List BufId} (h : 2 ≤ l.length) :
    2 ≤ (keepTwo n l).length := by
  unfold keepTwo
  split
  · rw [List.length_take]
    omega
  · exact h

/-- Cutting a vector down leaves a buffer, if it had one. -/
theorem keepTwo_ne_nil {n : ℕ} {l : List BufId} (h : l ≠ []) : keepTwo n l ≠ [] := by
  unfold keepTwo
  split
  · have := List.length_pos_iff.mpr h
    exact List.ne_nil_of_length_pos (by rw [List.length_take]; omega)
  · exact h

namespace RotationInv

variable {s : AsyncLogging}

/-- The current buffer is held by nobody else. -/
theorem ne_curr (h : RotationInv s) {b x : BufId} (hb : s.currBuffer = some b)
    (hx : x ∈ s.spares ++ s.buffers ++ s.buffersToWrite) : x ≠ b := by
  have hd : Held ([b] ++ (s.spares ++ s.buffers ++ s.buffersToWrite)) s.fresh := by
    have hh := h.held
    simpa only [holders, spares, hb, Option.toList_some, List.append_assoc] using hh
  exact (hd.ne_of_mem (List.mem_singleton_self b) hx).symm

/-! ### The producers -/

/-- Writing to the current buffer moves no pointer, and the spare buffers,
being other buffers, stay empty. -/
theorem appendCurr (h : RotationInv s) (msg : Msg) : RotationInv (s.appendCurr msg) := by
  obtain ⟨b, hb⟩ := Option.isSome_iff_exists.mp h.curr
  rw [appendCurr_eq hb]
  refine ⟨h.defined, h.curr, h.held, fun x hx => ?_, h.nextNull, h.phase⟩
  have hxb : x ≠ b := h.ne_curr hb (by
    rw [List.append_assoc]
    exact List.mem_append_left _ hx)
  show (Function.update s.heap b ((s.heap b).append msg) x).data = []
  rw [Function.update_of_ne hxb]
  exact h.empty x hx

/-- The full buffer is queued, and a spare one, or a new one, takes its
place. -/
theorem rotate (h : RotationInv s) {b : BufId} (hb : s.currBuffer = some b) :
    RotationInv (s.rotate b) := by
  unfold AsyncLogging.rotate
  cases hn : s.nextBuffer with
  | some n =>
    refine ⟨h.defined, rfl, h.held.of_count_le fun x => ?_, fun x hx => h.empty x ?_,
      fun _ => by simp, h.phase⟩
    · simp only [holders, hb, hn, Option.toList_some, Option.toList_none, List.count_append,
        List.count_nil]
      omega
    · have hx' : x ∈ s.newBuffer1.toList ++ s.newBuffer2.toList := hx
      unfold spares
      rw [List.append_assoc]
      exact List.mem_append_right _ hx'
  | none =>
    refine ⟨h.defined, rfl, h.held.cons.of_count_le fun x => ?_, fun x hx => ?_,
      fun _ => by simp, h.phase⟩
    · simp only [holders, hb, hn, Option.toList_some, Option.toList_none, List.count_append,
        List.count_nil, List.count_cons]
      omega
    · have hx' : x ∈ s.spares := by
        unfold spares at hx ⊢
        rw [hn]
        exact hx
      show (Function.update s.heap s.fresh .new x).data = []
      rcases eq_or_ne x s.fresh with rfl | hxf
      · rw [Function.update_self, FixedBuffer.data_new]
      · rw [Function.update_of_ne hxf]
        exact h.empty x hx'

/-- A producer's critical section keeps the invariant. -/
theorem append (h : RotationInv s) (msg : Msg) : RotationInv (s.append msg) := by
  obtain ⟨b, hb⟩ := Option.isSome_iff_exists.mp h.curr
  by_cases hlt : (msg.length : ℤ) < (s.heap b).avail
  · rw [append_of_lt hb hlt]
    exact h.appendCurr msg
  · rw [append_of_not_lt hb hlt]
    exact (h.rotate hb).appendCurr msg

/-! ### The consumer -/

/-- The swap: the spare buffers replace the ones it takes. It finds
`new_buffer2` in its hand, so `next_buffer_` is not null after it; and if it
had to give that buffer away, `buffers_` was not empty, so the batch has two
buffers at least. -/
theorem swapBuffers (h : RotationInv s)
    (hp : s.newBuffer1.isSome ∧ s.newBuffer2.isSome ∧ s.buffersToWrite = []) :
    RotationInv s.swapBuffers := by
  obtain ⟨b, hb⟩ := Option.isSome_iff_exists.mp h.curr
  obtain ⟨n₂, h₂⟩ := Option.isSome_iff_exists.mp hp.2.1
  have hw := hp.2.2
  cases hn : s.nextBuffer with
  | some n =>
    rw [swapBuffers_of_next hb hn]
    refine ⟨h.defined, hp.1, h.held.of_count_le fun x => ?_, fun x hx => h.empty x ?_,
      fun h0 => absurd (hn.symm.trans h0) (by simp),
      ⟨rfl, by simp, fun h0 => absurd (h₂.symm.trans h0) (by simp)⟩⟩
    · simp only [holders, hb, hw, Option.toList_some, Option.toList_none, List.count_append,
        List.count_nil]
      omega
    · simp only [spares, Option.toList_none, List.append_nil] at hx ⊢
      exact List.mem_append.mpr ((List.mem_append.mp hx).imp_left (List.mem_append_left _))
  | none =>
    have hpos : 0 < s.buffers.length := List.length_pos_iff.mpr (h.nextNull hn)
    rw [swapBuffers_of_no_next hb hn]
    refine ⟨h.defined, hp.1, h.held.of_count_le fun x => ?_, fun x hx => h.empty x ?_,
      fun h0 => absurd (h₂.symm.trans h0) (by simp), ⟨rfl, by simp, fun _ => ?_⟩⟩
    · simp only [holders, hb, hn, hw, Option.toList_some, Option.toList_none,
        List.count_append, List.count_nil]
      omega
    · have hx' : x ∈ s.newBuffer2.toList := by simpa [spares] using hx
      exact List.mem_append_right _ hx'
    · rw [List.length_append, List.length_singleton]
      omega

/-- The two tests on the size of the batch drop buffers, and leave two of them
if there were two. -/
theorem keepTwo (h : RotationInv s) (n : ℕ) {pc : LogPc}
    (hphase :
      Phase { s with buffersToWrite := AsyncLogging.keepTwo n s.buffersToWrite, pc := pc }) :
    RotationInv { s with buffersToWrite := AsyncLogging.keepTwo n s.buffersToWrite, pc := pc } := by
  refine ⟨h.defined, h.curr, h.held.of_count_le fun x => ?_, h.empty, h.nextNull, hphase⟩
  have hx := (keepTwo_sublist n s.buffersToWrite).count_le x
  simp only [holders, List.count_append]
  omega

/-- A buffer of the batch, emptied, becomes a spare one. -/
theorem reset_empty (h : RotationInv s) {b x : BufId} (hx : x ∈ s.spares ∨ x = b) :
    (Function.update s.heap b (s.heap b).reset x).data = [] := by
  rcases eq_or_ne x b with rfl | hxb
  · rw [Function.update_self, FixedBuffer.data_reset]
  · rw [Function.update_of_ne hxb]
    exact h.empty x (hx.resolve_right hxb)

/-- The first refill finds a buffer, and leaves one if the second will need
it. -/
theorem refill1 (h : RotationInv s)
    (hp : s.newBuffer1 = none ∧ s.buffersToWrite ≠ []
      ∧ (s.newBuffer2 = none → 2 ≤ s.buffersToWrite.length)) :
    RotationInv s.refill1 := by
  obtain ⟨h₁, hne, htwo⟩ := hp
  obtain ⟨l, b, hw⟩ := (List.eq_nil_or_concat' s.buffersToWrite).resolve_left hne
  rw [refill1_of_none h₁ hw]
  refine ⟨h.defined, h.curr, h.held.of_count_le fun x => ?_, fun x hx => h.reset_empty ?_,
    h.nextNull, ⟨rfl, fun h₂ => ?_⟩⟩
  · simp only [holders, h₁, hw, Option.toList_some, Option.toList_none, List.count_append,
      List.count_nil]
    omega
  · simp only [spares, h₁, Option.toList_some, Option.toList_none, List.mem_append,
      List.mem_singleton, List.not_mem_nil] at hx ⊢
    tauto
  · have := htwo h₂
    rw [hw, List.length_append, List.length_singleton] at this
    exact List.ne_nil_of_length_pos (by show 0 < l.length; omega)

/-- The second refill finds a buffer, if it needs one. -/
theorem refill2 (h : RotationInv s)
    (hp : s.newBuffer1.isSome ∧ (s.newBuffer2 = none → s.buffersToWrite ≠ [])) :
    RotationInv s.refill2 := by
  cases h₂ : s.newBuffer2 with
  | some n =>
    rw [refill2_of_some h₂]
    exact ⟨h.defined, h.curr, h.held, h.empty, h.nextNull, ⟨hp.1, by rw [h₂]; rfl⟩⟩
  | none =>
    obtain ⟨l, b, hw⟩ := (List.eq_nil_or_concat' s.buffersToWrite).resolve_left (hp.2 h₂)
    rw [refill2_of_none h₂ hw]
    refine ⟨h.defined, h.curr, h.held.of_count_le fun x => ?_, fun x hx => h.reset_empty ?_,
      h.nextNull, ⟨hp.1, rfl⟩⟩
    · simp only [holders, h₂, hw, Option.toList_some, Option.toList_none, List.count_append,
        List.count_nil]
      omega
    · simp only [spares, h₂, Option.toList_some, Option.toList_none, List.mem_append,
        List.mem_singleton, List.not_mem_nil] at hx ⊢
      tauto

/-- The consumer's local variables are two newly allocated buffers. -/
theorem enter (h : RotationInv s)
    (hp : s.newBuffer1 = none ∧ s.newBuffer2 = none ∧ s.buffersToWrite = [] ∧ s.output = .new) :
    RotationInv s.enter := by
  obtain ⟨h₁, h₂, hw, -⟩ := hp
  refine ⟨h.defined, h.curr, h.held.cons.cons.of_count_le fun x => ?_, fun x hx => ?_,
    h.nextNull, ⟨rfl, rfl, rfl⟩⟩
  · simp only [AsyncLogging.enter, holders, h₁, h₂, hw, Option.toList_some, Option.toList_none,
      List.count_append, List.count_cons, List.count_nil]
    omega
  · show (Function.update (Function.update s.heap s.fresh .new) (s.fresh + 1) .new x).data = []
    rcases eq_or_ne x (s.fresh + 1) with rfl | hx₂
    · rw [Function.update_self, FixedBuffer.data_new]
    rw [Function.update_of_ne hx₂]
    rcases eq_or_ne x s.fresh with rfl | hx₁
    · rw [Function.update_self, FixedBuffer.data_new]
    rw [Function.update_of_ne hx₁]
    refine h.empty x ?_
    simp only [AsyncLogging.enter, spares, h₁, h₂, Option.toList_some, Option.toList_none,
      List.mem_append, List.mem_singleton, List.not_mem_nil] at hx ⊢
    tauto

/-- **Every transition keeps the rotation invariant.** -/
theorem moves (h : RotationInv s) {e : LogEvent} {s' : AsyncLogging} (hm : s.Moves e s') :
    RotationInv s' := by
  have hp := h.phase
  unfold Phase at hp
  cases hm with
  | start hpc =>
    rw [hpc] at hp
    exact ⟨h.defined, h.curr, h.held, h.empty, h.nextNull, hp⟩
  | append msg => exact h.append msg
  | stop => exact ⟨h.defined, h.curr, h.held, h.empty, h.nextNull, h.phase⟩
  | wake how hpc =>
    rw [hpc] at hp
    exact h.swapBuffers hp
  | enter hpc =>
    rw [hpc] at hp
    exact h.enter hp
  | loopTest hpc =>
    rw [hpc] at hp
    refine ⟨h.defined, h.curr, h.held, h.empty, h.nextNull, ?_⟩
    unfold Phase
    cases s.running <;> exact hp
  | block hpc hq =>
    rw [hpc] at hp
    exact ⟨h.defined, h.curr, h.held, h.empty, h.nextNull, hp⟩
  | swap hpc hq =>
    rw [hpc] at hp
    exact h.swapBuffers hp
  | truncate hpc =>
    rw [hpc] at hp
    exact h.keepTwo 25 ⟨hp.1, keepTwo_ne_nil hp.2.1, fun h₂ => two_le_keepTwo (hp.2.2 h₂)⟩
  | write i hpc =>
    rw [hpc] at hp
    unfold AsyncLogging.write
    cases s.buffersToWrite[i]? with
    | some b => exact ⟨h.defined, h.curr, h.held, h.empty, h.nextNull, hp⟩
    | none => exact ⟨h.defined, h.curr, h.held, h.empty, h.nextNull, hp⟩
  | shrink hpc =>
    rw [hpc] at hp
    exact h.keepTwo 2 ⟨hp.1, keepTwo_ne_nil hp.2.1, fun h₂ => two_le_keepTwo (hp.2.2 h₂)⟩
  | refill1 hpc =>
    rw [hpc] at hp
    exact h.refill1 hp
  | refill2 hpc =>
    rw [hpc] at hp
    exact h.refill2 hp
  | recycle hpc =>
    rw [hpc] at hp
    refine ⟨h.defined, h.curr, h.held.of_count_le fun x => ?_, h.empty, h.nextNull,
      ⟨hp.1, hp.2, rfl⟩⟩
    simp only [holders, List.count_append, List.count_nil]
    omega
  | lastFlush hpc => exact ⟨h.defined, h.curr, h.held, h.empty, h.nextNull, rfl⟩

end RotationInv

/-- The rotation invariant holds at every point of every interleaving. -/
theorem reachable_rotationInv {s : AsyncLogging} (h : machine.Reachable s) : RotationInv s :=
  h.invariant rotationInv_new fun _ _ _ hi hs => hi.moves (.of_step hs)

/-- **Buffer rotation is safe.** Whenever the mutex is free – between any two
events – no undefined operation was executed, `curr_buffer_` is not null, the
buffers held are pairwise distinct and the spare ones are empty: `next_buffer_`
always, and at the top of the loop `new_buffer1` and `new_buffer2`, which are
then there. Each refill that calls `back()` finds a buffer. -/
theorem rotation_safe {s : AsyncLogging} (h : machine.Reachable s) :
    s.undefined = false
      ∧ s.currBuffer.isSome
      ∧ s.holders.Nodup
      ∧ (∀ b, s.nextBuffer = some b → s.contents b = [])
      ∧ (s.pc = .loopTest → ∃ b₁ b₂, s.newBuffer1 = some b₁ ∧ s.newBuffer2 = some b₂
          ∧ s.contents b₁ = [] ∧ s.contents b₂ = [])
      ∧ (s.pc = .refill1 → s.buffersToWrite ≠ [])
      ∧ (s.pc = .refill2 → s.newBuffer2 = none → s.buffersToWrite ≠ []) := by
  have hi := reachable_rotationInv h
  have hp := hi.phase
  unfold Phase at hp
  refine ⟨hi.defined, hi.curr, hi.held.nodup, fun b hb => hi.empty b ?_, fun hpc => ?_,
    fun hpc => ?_, fun hpc => ?_⟩
  · simp [spares, hb]
  · rw [hpc] at hp
    obtain ⟨b₁, h₁⟩ := Option.isSome_iff_exists.mp hp.1
    obtain ⟨b₂, h₂⟩ := Option.isSome_iff_exists.mp hp.2.1
    exact ⟨b₁, b₂, h₁, h₂, hi.empty b₁ (by simp [spares, h₁]),
      hi.empty b₂ (by simp [spares, h₂])⟩
  · rw [hpc] at hp
    exact hp.2.1
  · rw [hpc] at hp
    exact hp.2

/-- At the top of the loop, after the thread entered it and a message was
appended. -/
theorem rotation_safe_loopTest :
    ∃ s, machine.exec machine.init [.start, .consumer, .append [65]] = some s
      ∧ s.pc = .loopTest ∧ s.holders.Nodup :=
  ⟨_, rfl, rfl, (rotation_safe ⟨[.start, .consumer, .append [65]], rfl⟩).2.2.1⟩

end AsyncLogging
