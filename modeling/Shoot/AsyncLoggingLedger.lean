import Mathlib.Data.List.Flatten
import Shoot.AsyncLoggingRotation

/-!
# The log is conserved

What the logger is for, stated without buffers: a **ledger** of messages that
are current, queued, being written or handed over, always in the order they
were appended. A message is posted at the end; a swap makes everything posted
one batch; groups of the batch are handed over in turn; and a truncation drops
the groups of the batch after the first two.

The logger refines it. The ledger of a run (`AsyncLogging.ledger`) is a
history of the run: it is updated at each step according to what the logger
does there, and it decides nothing. `Represents` says that the bytes in the
logger are the bytes of the ledger's messages, holder by holder and buffer by
buffer, and every transition preserves it. So a message is never cut: the
buffers hold whole messages, `AsyncLogging::append` and `FixedBuffer::append`
testing the same capacity – and a message always fits an empty buffer, since
it is shorter than the array.
-/

/-! ## Ledgers -/

/-- **A ledger**: what is still known of a sequence of items that pass in
groups from a producer to a consumer. -/
structure Ledger (α : Type) where
  /-- The items the consumer has handed over. -/
  handed : List α
  /-- The groups the consumer has taken and not handed over. -/
  batch : List (List α)
  /-- The full groups waiting for the consumer. -/
  queued : List (List α)
  /-- The group being filled. -/
  current : List α

namespace Ledger

variable {α : Type}

/-- Nothing posted. -/
def empty : Ledger α := ⟨[], [], [], []⟩

/-- The items still in the ledger, in order. -/
def survivors (L : Ledger α) : List α :=
  L.handed ++ L.batch.flatten ++ L.queued.flatten ++ L.current

/-- The items the consumer has not taken. -/
def pending (L : Ledger α) : List α := L.queued.flatten ++ L.current

/-- Post an item to the current group, or to a new one. -/
def post (L : Ledger α) (fits : Bool) (a : α) : Ledger α :=
  if fits then { L with current := L.current ++ [a] }
  else { L with queued := L.queued ++ [L.current], current := [a] }

/-- The consumer takes all the groups. -/
def swap (L : Ledger α) : Ledger α :=
  { L with batch := L.queued ++ [L.current], queued := [], current := [] }

/-- The consumer hands over the first group it has. -/
def handOver (L : Ledger α) : Ledger α :=
  match L.batch with
  | [] => L
  | g :: gs => { L with handed := L.handed ++ g, batch := gs }

/-- The consumer drops all its groups but the first two. -/
def truncate (L : Ledger α) : Ledger α := { L with batch := L.batch.take 2 }

@[simp] theorem survivors_post (L : Ledger α) (fits : Bool) (a : α) :
    (L.post fits a).survivors = L.survivors ++ [a] := by
  cases fits <;> simp [post, survivors]

/-- Taking the groups loses nothing, when the consumer has none left. -/
theorem survivors_swap {L : Ledger α} (h : L.batch = []) :
    L.swap.survivors = L.survivors := by
  simp [swap, survivors, h]

theorem handOver_of_nil {L : Ledger α} (h : L.batch = []) : L.handOver = L := by
  rw [handOver, h]

theorem handOver_of_cons {L : Ledger α} {g : List α} {gs : List (List α)}
    (h : L.batch = g :: gs) :
    L.handOver = { L with handed := L.handed ++ g, batch := gs } := by
  rw [handOver, h]

@[simp] theorem survivors_handOver (L : Ledger α) : L.handOver.survivors = L.survivors := by
  cases h : L.batch with
  | nil => rw [handOver_of_nil h]
  | cons g gs => simp [handOver_of_cons h, survivors, h]

@[simp] theorem pending_swap (L : Ledger α) : L.swap.pending = [] := rfl

@[simp] theorem pending_handOver (L : Ledger α) : L.handOver.pending = L.pending := by
  unfold handOver
  cases L.batch <;> rfl

/-- **A truncation drops a block of items**, those of the groups from the
third on. -/
theorem survivors_eq_of_truncate (L : Ledger α) :
    L.survivors = (L.handed ++ (L.batch.take 2).flatten) ++ (L.batch.drop 2).flatten ++ L.pending
      ∧ L.truncate.survivors = (L.handed ++ (L.batch.take 2).flatten) ++ L.pending := by
  constructor
  · have hb := congrArg List.flatten (List.take_append_drop 2 L.batch)
    rw [List.flatten_append] at hb
    rw [survivors, pending, ← hb]
    simp only [List.append_assoc]
  · rw [survivors, pending, truncate]
    simp only [List.append_assoc]

end Ledger

namespace AsyncLogging

/-! ## The ledger of a run -/

/-- The test of `AsyncLogging::append`, `curr_buffer_->avail() > len`. -/
def fits (s : AsyncLogging) (msg : Msg) : Bool :=
  match s.currBuffer with
  | none => false
  | some b => decide ((msg.length : ℤ) < (s.heap b).avail)

/-- How an event, in a state of the logger, moves the messages. -/
def record (s : AsyncLogging) (e : LogEvent) (L : Ledger Msg) : Ledger Msg :=
  match e with
  | .append msg => L.post (s.fits msg) msg
  | .wake _ => L.swap
  | .consumer =>
    match s.pc with
    | .lock => if s.buffers = [] then L else L.swap
    | .truncate => if 25 < s.buffersToWrite.length then L.truncate else L
    | .write _ => L.handOver
    | _ => L
  | _ => L

/-- **The ledger of a run.** -/
def ledger (tr : List LogEvent) : Ledger Msg :=
  machine.history record machine.init .empty tr

/-- The ledger after one more event of a run. -/
theorem ledger_concat {tr : List LogEvent} {s s' : AsyncLogging} {e : LogEvent}
    (h : machine.exec machine.init tr = some s) (hs : machine.step s e = some s') :
    ledger (tr ++ [e]) = record s e (ledger tr) :=
  Machine.history_concat record h hs .empty

/-- **The logger holds the messages of the ledger**, buffer by buffer. -/
structure Represents (s : AsyncLogging) (L : Ledger Msg) : Prop where
  handed : s.output.handed = L.handed.flatten
  batch : s.unhanded.map s.contents = L.batch.map List.flatten
  queued : s.buffers.map s.contents = L.queued.map List.flatten
  current : s.currBuffer.toList.map s.contents = [L.current.flatten]

/-- The bytes in the logger are the bytes of the surviving messages. -/
theorem Represents.stream {s : AsyncLogging} {L : Ledger Msg} (h : Represents s L) :
    s.stream = L.survivors.flatten := by
  have hc : s.contentsOf s.currBuffer.toList = L.current.flatten := by
    rw [contentsOf, List.flatMap_def, h.current, List.flatten_singleton]
  rw [AsyncLogging.stream, Ledger.survivors, hc, contentsOf, contentsOf, List.flatMap_def,
    List.flatMap_def, h.batch, h.queued, h.handed]
  simp only [List.flatten_append, List.flatten_flatten]

/-- The bytes of `buffers_` and `curr_buffer_` are those of the messages the
consumer has not taken. -/
theorem Represents.pending {s : AsyncLogging} {L : Ledger Msg} (h : Represents s L) :
    s.contentsOf s.buffers ++ s.contentsOf s.currBuffer.toList = L.pending.flatten := by
  rw [contentsOf, contentsOf, List.flatMap_def, List.flatMap_def, h.queued, h.current,
    Ledger.pending, List.flatten_append, List.flatten_flatten, List.flatten_singleton]

/-- Writing a buffer that a vector does not hold changes none of its
contents. -/
theorem map_contents_update {s : AsyncLogging} {b : BufId} {c : FixedBuffer largeBuffer}
    {l : List BufId} (hb : b ∉ l) :
    l.map (contents { s with heap := Function.update s.heap b c }) = l.map s.contents := by
  refine List.map_congr_left fun x hx => ?_
  have hxb : x ≠ b := fun h => hb (h ▸ hx)
  show (Function.update s.heap b c x).data = (s.heap x).data
  rw [Function.update_of_ne hxb]

/-- The buffers still to be handed over are buffers to write. -/
theorem unhanded_subset (s : AsyncLogging) : s.unhanded ⊆ s.buffersToWrite := by
  unfold unhanded
  split
  · exact fun _ hx => hx
  · exact List.drop_subset _ _
  · exact List.nil_subset _

/-- A spare buffer is none of the buffers that hold messages. -/
theorem RotationInv.notMem_of_held {s : AsyncLogging} (h : RotationInv s) {b : BufId}
    (hb : b ∈ s.spares ∨ s.fresh ≤ b) :
    b ∉ s.unhanded ∧ b ∉ s.buffers ∧ b ∉ s.currBuffer.toList := by
  have hlist : ∀ x ∈ s.currBuffer.toList ++ s.buffers ++ s.buffersToWrite, b ≠ x := by
    rintro x hx rfl
    rcases hb with hb | hb
    · have hh : Held (s.spares ++ (s.currBuffer.toList ++ s.buffers ++ s.buffersToWrite))
          s.fresh := by
        refine h.held.of_count_le fun x => ?_
        simp only [spares, holders, List.count_append]
        omega
      exact hh.ne_of_mem hb hx rfl
    · have hx' : b ∈ s.holders := by
        unfold holders
        simp only [List.mem_append] at hx ⊢
        tauto
      exact absurd (h.held.lt b hx') (Nat.not_lt.mpr hb)
  simp only [List.mem_append] at hlist
  exact ⟨fun hx => hlist b (Or.inr (unhanded_subset s hx)) rfl,
    fun hx => hlist b (Or.inl (Or.inr hx)) rfl, fun hx => hlist b (Or.inl (Or.inl hx)) rfl⟩

namespace Represents

variable {s : AsyncLogging} {L : Ledger Msg}

/-- A message that fits joins the current group. -/
theorem appendCurr (r : Represents s L) (h : RotationInv s) {b : BufId}
    (hb : s.currBuffer = some b) {msg : Msg} (hlt : (msg.length : ℤ) < (s.heap b).avail) :
    Represents (s.appendCurr msg) { L with current := L.current ++ [msg] } := by
  have hu : b ∉ s.unhanded := fun hx =>
    h.ne_curr hb (List.mem_append_right _ (unhanded_subset s hx)) rfl
  have hq : b ∉ s.buffers := fun hx =>
    h.ne_curr hb (List.mem_append_left _ (List.mem_append_right _ hx)) rfl
  have hcur := r.current
  rw [hb, Option.toList_some, List.map_singleton, List.singleton_inj] at hcur
  rw [appendCurr_eq hb]
  refine ⟨r.handed, ?_, ?_, ?_⟩
  · exact (map_contents_update hu).trans r.batch
  · exact (map_contents_update hq).trans r.queued
  · show s.currBuffer.toList.map _ = _
    rw [hb, Option.toList_some, List.map_singleton, List.singleton_inj]
    show (Function.update s.heap b ((s.heap b).append msg) b).data = _
    rw [Function.update_self, FixedBuffer.data_append_of_lt hlt, List.flatten_append,
      List.flatten_singleton]
    exact congrArg (· ++ msg) hcur

/-- The current group is queued, and an empty one takes its place. -/
theorem rotate (r : Represents s L) (h : RotationInv s) {b : BufId}
    (hb : s.currBuffer = some b) :
    Represents (s.rotate b) { L with queued := L.queued ++ [L.current], current := [] } := by
  have hcur := r.current
  rw [hb, Option.toList_some, List.map_singleton] at hcur
  have hq : (s.buffers ++ [b]).map s.contents
      = (L.queued ++ [L.current]).map List.flatten := by
    rw [List.map_append, List.map_append, r.queued, List.map_singleton, hcur]
    rfl
  unfold AsyncLogging.rotate
  cases hn : s.nextBuffer with
  | some n =>
    refine ⟨r.handed, r.batch, hq, ?_⟩
    exact congrArg (fun c => [c]) (h.empty n (by simp [spares, hn]))
  | none =>
    obtain ⟨hu, hbs, hc⟩ := h.notMem_of_held (Or.inr (le_refl s.fresh))
    refine ⟨r.handed, (map_contents_update hu).trans r.batch, ?_, ?_⟩
    · refine (map_contents_update fun hx => ?_).trans hq
      rcases List.mem_append.mp hx with hx | hx
      · exact hbs hx
      · exact hc (by rw [hb]; exact hx)
    · show [(Function.update s.heap s.fresh .new s.fresh).data] = _
      rw [Function.update_self]
      rfl

/-- A producer's critical section posts its message. -/
theorem append (r : Represents s L) (h : RotationInv s) {msg : Msg}
    (hm : msg.length < largeBuffer) :
    Represents (s.append msg) (L.post (s.fits msg) msg) := by
  obtain ⟨b, hb⟩ := Option.isSome_iff_exists.mp h.curr
  by_cases hlt : (msg.length : ℤ) < (s.heap b).avail
  · have hf : s.fits msg = true := by
      rw [fits, hb]
      exact decide_eq_true hlt
    rw [append_of_lt hb hlt, hf]
    exact r.appendCurr h hb hlt
  · have hf : s.fits msg = false := by
      rw [fits, hb]
      exact decide_eq_false hlt
    rw [append_of_not_lt hb hlt, hf]
    -- the buffer that takes the place of the full one is empty
    have hrot := h.rotate hb
    have rrot := r.rotate h hb
    obtain ⟨n, hn⟩ := Option.isSome_iff_exists.mp hrot.curr
    have hempty := rrot.current
    rw [hn, Option.toList_some, List.map_singleton, List.singleton_inj] at hempty
    exact rrot.appendCurr hrot hn (FixedBuffer.lt_avail_of_data_eq_nil hempty hm)

/-- The consumer's swap takes all the groups. -/
theorem swapBuffers (r : Represents s L) (h : RotationInv s)
    (hp : s.newBuffer1.isSome ∧ s.newBuffer2.isSome ∧ s.buffersToWrite = []) :
    Represents s.swapBuffers L.swap := by
  obtain ⟨b, hb⟩ := Option.isSome_iff_exists.mp h.curr
  obtain ⟨n, hn⟩ := Option.isSome_iff_exists.mp hp.1
  have hcur := r.current
  rw [hb, Option.toList_some, List.map_singleton] at hcur
  have hbatch : (s.buffers ++ [b]).map s.contents
      = (L.queued ++ [L.current]).map List.flatten := by
    rw [List.map_append, List.map_append, r.queued, List.map_singleton, hcur]
    rfl
  have hnew : s.newBuffer1.toList.map s.contents = [[]] := by
    rw [hn]
    exact congrArg (fun c => [c]) (h.empty n (by simp [spares, hn]))
  have hqueue : s.buffersToWrite.map s.contents = [] := by rw [hp.2.2]; rfl
  cases hx : s.nextBuffer with
  | some m =>
    rw [swapBuffers_of_next hb hx]
    exact ⟨r.handed, hbatch, hqueue, hnew⟩
  | none =>
    rw [swapBuffers_of_no_next hb hx]
    exact ⟨r.handed, hbatch, hqueue, hnew⟩

/-- The consumer hands over the first group of its batch. -/
theorem write (r : Represents s L) {i : ℕ} (hpc : s.pc = .write i) :
    Represents (s.write i) L.handOver := by
  have hbatch := r.batch
  have hu : s.unhanded = s.buffersToWrite.drop i := by rw [unhanded, hpc]
  rw [hu] at hbatch
  unfold AsyncLogging.write
  cases hi : s.buffersToWrite[i]? with
  | none =>
    have hdrop : s.buffersToWrite.drop i = [] :=
      List.drop_eq_nil_of_le (List.getElem?_eq_none_iff.mp hi)
    rw [hdrop, List.map_nil, eq_comm, List.map_eq_nil_iff] at hbatch
    rw [Ledger.handOver_of_nil hbatch]
    exact ⟨r.handed, by rw [hbatch]; rfl, r.queued, r.current⟩
  | some b =>
    obtain ⟨hlt, hget⟩ := List.getElem?_eq_some_iff.mp hi
    rw [List.drop_eq_getElem_cons hlt, hget, List.map_cons] at hbatch
    obtain ⟨g, gs, hL, hg, hgs⟩ := List.map_eq_cons_iff.mp hbatch.symm
    rw [Ledger.handOver_of_cons hL]
    refine ⟨?_, hgs.symm, r.queued, r.current⟩
    show (s.output.append (s.contents b)).handed = _
    rw [Log2File.handed_append, r.handed, List.flatten_append, hg]

/-- The truncation drops the groups of the buffers it erases. -/
theorem truncate (r : Represents s L) (hpc : s.pc = .truncate) :
    Represents s.truncate (if 25 < s.buffersToWrite.length then L.truncate else L) := by
  have hbatch := r.batch
  have hu : s.unhanded = s.buffersToWrite := by rw [unhanded, hpc]
  rw [hu] at hbatch
  have hu' : s.truncate.unhanded = keepTwo 25 s.buffersToWrite := rfl
  by_cases hlen : 25 < s.buffersToWrite.length
  · rw [if_pos hlen]
    refine ⟨r.handed, ?_, r.queued, r.current⟩
    rw [hu', keepTwo, if_pos hlen]
    show (s.buffersToWrite.take 2).map s.contents = (L.batch.take 2).map List.flatten
    rw [List.map_take, List.map_take, hbatch]
  · rw [if_neg hlen]
    refine ⟨r.handed, ?_, r.queued, r.current⟩
    rw [hu', keepTwo, if_neg hlen]
    exact hbatch

/-- A refill empties a buffer that was handed over. -/
theorem reset (r : Represents s L) (h : RotationInv s) {b : BufId} {n₁ n₂ : Option BufId}
    {l : List BufId} {pc : LogPc} (hb : b ∈ s.buffersToWrite) (hu : s.unhanded = [])
    (hu' : unhanded { s with buffersToWrite := l, pc := pc } = []) :
    Represents { s with
      newBuffer1 := n₁, newBuffer2 := n₂, buffersToWrite := l,
      heap := Function.update s.heap b (s.heap b).reset, pc := pc } L := by
  have hne : ∀ x ∈ s.currBuffer.toList ++ s.buffers, x ≠ b := by
    have hh : Held ((s.currBuffer.toList ++ s.buffers) ++ s.buffersToWrite) s.fresh := by
      refine h.held.of_count_le fun x => ?_
      simp only [holders, List.count_append]
      omega
    exact fun x hx => hh.ne_of_mem hx hb
  have hq : b ∉ s.buffers := fun hx => hne b (List.mem_append_right _ hx) rfl
  have hc : b ∉ s.currBuffer.toList := fun hx => hne b (List.mem_append_left _ hx) rfl
  have hbatch := r.batch
  rw [hu] at hbatch
  exact ⟨r.handed, (congrArg _ hu').trans hbatch, (map_contents_update hq).trans r.queued,
    (map_contents_update hc).trans r.current⟩

/-- The consumer's local variables are new buffers, and a new file. -/
theorem enter (r : Represents s L) (h : RotationInv s) (hpc : s.pc = .entry)
    (hout : s.output = .new) : Represents s.enter L := by
  obtain ⟨-, hq₁, hc₁⟩ := h.notMem_of_held (Or.inr (le_refl s.fresh))
  obtain ⟨-, hq₂, hc₂⟩ := h.notMem_of_held (Or.inr (Nat.le_succ s.fresh))
  have hbatch := r.batch
  rw [unhanded, hpc] at hbatch
  have hhanded := r.handed
  rw [hout] at hhanded
  refine ⟨hhanded, hbatch, ?_, ?_⟩
  · exact ((map_contents_update (s := { s with heap := Function.update s.heap s.fresh .new })
      hq₂).trans (map_contents_update hq₁)).trans r.queued
  · exact ((map_contents_update (s := { s with heap := Function.update s.heap s.fresh .new })
      hc₂).trans (map_contents_update hc₁)).trans r.current

/-- **Every transition of the logger is one of its ledger.** -/
theorem moves (r : Represents s L) (h : RotationInv s) {e : LogEvent} {s' : AsyncLogging}
    (hm : ∀ msg ∈ appended [e], msg.length < largeBuffer) (hs : s.Moves e s') :
    Represents s' (record s e L) := by
  have hp := h.phase
  unfold Phase at hp
  have hbatch := r.batch
  unfold unhanded at hbatch
  cases hs with
  | start hpc =>
    rw [hpc] at hbatch
    exact ⟨r.handed, hbatch, r.queued, r.current⟩
  | append msg => exact r.append h (hm msg (List.mem_singleton_self msg))
  | stop => exact ⟨r.handed, r.batch, r.queued, r.current⟩
  | wake how hpc =>
    rw [hpc] at hp
    exact r.swapBuffers h hp
  | enter hpc =>
    rw [hpc] at hp
    rw [record, hpc]
    exact r.enter h hpc hp.2.2.2
  | loopTest hpc =>
    rw [hpc] at hbatch
    rw [record, hpc]
    refine ⟨r.handed, ?_, r.queued, r.current⟩
    unfold unhanded
    cases s.running <;> exact hbatch
  | block hpc hq =>
    rw [hpc] at hbatch
    rw [record, hpc]
    dsimp only
    rw [if_pos hq]
    exact ⟨r.handed, hbatch, r.queued, r.current⟩
  | swap hpc hq =>
    rw [hpc] at hp
    rw [record, hpc]
    dsimp only
    rw [if_neg hq]
    exact r.swapBuffers h hp
  | truncate hpc =>
    rw [record, hpc]
    exact r.truncate hpc
  | write i hpc =>
    rw [record, hpc]
    exact r.write hpc
  | shrink hpc =>
    rw [hpc] at hbatch
    rw [record, hpc]
    exact ⟨r.handed, hbatch, r.queued, r.current⟩
  | refill1 hpc =>
    rw [hpc] at hp
    obtain ⟨l, b, hw⟩ := (List.eq_nil_or_concat' s.buffersToWrite).resolve_left hp.2.1
    rw [record, hpc, refill1_of_none hp.1 hw]
    exact r.reset h (hw ▸ List.mem_append_right l (List.mem_singleton_self b))
      (by rw [unhanded, hpc]) rfl
  | refill2 hpc =>
    rw [hpc] at hp hbatch
    rw [record, hpc]
    cases h₂ : s.newBuffer2 with
    | some n =>
      rw [refill2_of_some h₂]
      exact ⟨r.handed, hbatch, r.queued, r.current⟩
    | none =>
      obtain ⟨l, b, hw⟩ := (List.eq_nil_or_concat' s.buffersToWrite).resolve_left (hp.2 h₂)
      rw [refill2_of_none h₂ hw]
      exact r.reset h (hw ▸ List.mem_append_right l (List.mem_singleton_self b))
        (by rw [unhanded, hpc]) rfl
  | recycle hpc =>
    rw [hpc] at hbatch
    rw [record, hpc]
    exact ⟨r.handed, hbatch, r.queued, r.current⟩
  | lastFlush hpc =>
    rw [hpc] at hbatch
    rw [record, hpc]
    exact ⟨r.handed, hbatch, r.queued, r.current⟩

end Represents

/-! ## Runs -/

/-- The messages of a run are those of its parts. -/
theorem appended_append (tr₁ tr₂ : List LogEvent) :
    appended (tr₁ ++ tr₂) = appended tr₁ ++ appended tr₂ := by
  induction tr₁ with
  | nil => rfl
  | cons e tr ih => cases e <;> simp [appended, ih]

/-- **The logger refines its ledger**: after every run with messages shorter
than a buffer, the logger holds the bytes of the ledger of the run. -/
theorem represents_ledger {tr : List LogEvent} {s : AsyncLogging}
    (h : machine.exec machine.init tr = some s)
    (hm : ∀ msg ∈ appended tr, msg.length < largeBuffer) : Represents s (ledger tr) := by
  refine Machine.exec_induction (motive := fun tr s =>
    (∀ msg ∈ appended tr, msg.length < largeBuffer) → Represents s (ledger tr))
    (fun _ => ⟨rfl, rfl, rfl, rfl⟩) (fun tr t e t' ht hs ih hm => ?_) h hm
  rw [appended_append] at hm
  rw [ledger_concat ht hs]
  exact (ih fun msg hmsg => hm msg (List.mem_append_left _ hmsg)).moves
    (reachable_rotationInv ⟨tr, ht⟩) (fun msg hmsg => hm msg (List.mem_append_right _ hmsg))
    (.of_step hs)

/-- What an event does to the surviving messages: it drops some if it erases
buffers, and otherwise adds the message it appends, if any. -/
theorem survivors_record {s s' : AsyncLogging} {L : Ledger Msg} {e : LogEvent}
    (h : RotationInv s) (r : Represents s L) (hs : s.Moves e s') :
    (record s e L).survivors
      = if s.Overflows ∧ e = .consumer then L.truncate.survivors
        else L.survivors ++ appended [e] := by
  have hp := h.phase
  unfold Phase at hp
  have hbatch := r.batch
  unfold unhanded at hbatch
  have hover : s.pc ≠ .truncate → ¬ (s.Overflows ∧ e = .consumer) := fun hne ho => hne ho.1.1
  cases hs with
  | start hpc => rw [if_neg (hover (by simp [hpc]))]; simp [record, appended]
  | append msg => rw [if_neg (by simp)]; simp [record, appended]
  | stop => rw [if_neg (by simp)]; simp [record, appended]
  | wake how hpc =>
    rw [hpc] at hp hbatch
    rw [if_neg (by simp), record, Ledger.survivors_swap (List.map_eq_nil_iff.mp hbatch.symm)]
    simp [appended]
  | swap hpc hq =>
    rw [hpc] at hp hbatch
    rw [if_neg (hover (by simp [hpc])), record, hpc]
    dsimp only
    rw [if_neg hq, Ledger.survivors_swap (List.map_eq_nil_iff.mp hbatch.symm)]
    simp [appended]
  | truncate hpc =>
    rw [record, hpc]
    dsimp only
    by_cases hlen : 25 < s.buffersToWrite.length
    · rw [if_pos hlen, if_pos ⟨⟨hpc, hlen⟩, rfl⟩]
    · rw [if_neg hlen, if_neg fun ho => hlen ho.1.2]
      simp [appended]
  | write i hpc => rw [if_neg (hover (by simp [hpc]))]; simp [record, hpc, appended]
  | block hpc hq => rw [if_neg (hover (by simp [hpc]))]; simp [record, hpc, hq, appended]
  | _ hpc => rw [if_neg (hover (by simp [hpc]))]; simp [record, hpc, appended]

/-- The surviving messages after one more event of a run. -/
theorem survivors_ledger_concat {tr : List LogEvent} {s s' : AsyncLogging} {e : LogEvent}
    (h : machine.exec machine.init tr = some s)
    (hm : ∀ msg ∈ appended tr, msg.length < largeBuffer) (hs : machine.step s e = some s') :
    (ledger (tr ++ [e])).survivors
      = if s.Overflows ∧ e = .consumer then (ledger tr).truncate.survivors
        else (ledger tr).survivors ++ appended [e] := by
  rw [ledger_concat h hs]
  exact survivors_record (reachable_rotationInv ⟨tr, h⟩) (represents_ledger h hm) (.of_step hs)

/-- The surviving messages were appended, in this order. -/
theorem survivors_sublist_appended {tr : List LogEvent} {s : AsyncLogging}
    (h : machine.exec machine.init tr = some s)
    (hm : ∀ msg ∈ appended tr, msg.length < largeBuffer) :
    (ledger tr).survivors.Sublist (appended tr) := by
  refine Machine.exec_induction (motive := fun tr _ =>
    (∀ msg ∈ appended tr, msg.length < largeBuffer) →
      (ledger tr).survivors.Sublist (appended tr))
    (fun _ => List.Sublist.refl _) (fun tr t e t' ht hs ih hm => ?_) h hm
  rw [appended_append] at hm ⊢
  have hm' : ∀ msg ∈ appended tr, msg.length < largeBuffer :=
    fun msg hmsg => hm msg (List.mem_append_left _ hmsg)
  rw [survivors_ledger_concat ht hm' hs]
  split
  · refine List.Sublist.trans ?_ ((ih hm').trans (List.sublist_append_left _ _))
    obtain ⟨hall, hcut⟩ := (ledger tr).survivors_eq_of_truncate
    rw [hall, hcut]
    exact (List.sublist_append_left _ _).append_right _
  · exact (ih hm').append_right _

/-- While no batch is cut down, the surviving messages are the appended
ones. -/
theorem survivors_eq_appended {tr : List LogEvent} {s : AsyncLogging}
    (h : machine.exec machine.init tr = some s)
    (hm : ∀ msg ∈ appended tr, msg.length < largeBuffer)
    (hover : machine.Along (fun t _ => ¬ t.Overflows) machine.init tr) :
    (ledger tr).survivors = appended tr := by
  refine Machine.exec_induction (motive := fun tr _ =>
    (∀ msg ∈ appended tr, msg.length < largeBuffer) →
      machine.Along (fun t _ => ¬ t.Overflows) machine.init tr →
        (ledger tr).survivors = appended tr)
    (fun _ _ => rfl) (fun tr t e t' ht hs ih hm hover => ?_) h hm hover
  obtain ⟨hbefore, hlast⟩ := Machine.along_concat.mp hover
  rw [appended_append] at hm ⊢
  have hm' : ∀ msg ∈ appended tr, msg.length < largeBuffer :=
    fun msg hmsg => hm msg (List.mem_append_left _ hmsg)
  rw [survivors_ledger_concat ht hm' hs, if_neg fun ho => hlast t ht ho.1, ih hm' hbefore]

/-- A part of a batch and the part of the ledger it stands for have the same
bytes. -/
theorem contentsOf_eq_flatten {s : AsyncLogging} {bs : List BufId} {g : List (List Msg)}
    (h : bs.map s.contents = g.map List.flatten) : s.contentsOf bs = g.flatten.flatten := by
  rw [contentsOf, List.flatMap_def, h, List.flatten_flatten]

/-- **Nothing is lost, duplicated or reordered.** After every run of the
logger with messages shorter than a buffer, the log in flight is the
concatenation of the surviving messages, which are appended messages in the
order of their critical sections; while no swap takes more than 25 buffers
they are all of them. An event adds the message it appends, if any, and
nothing else – except that when the batch has more than 25 buffers the
consumer's test drops a block of whole messages, the contents of the buffers
of the batch from the third on. -/
theorem log_conserved {tr : List LogEvent} {s : AsyncLogging}
    (h : machine.exec machine.init tr = some s)
    (hm : ∀ msg ∈ appended tr, msg.length < largeBuffer) :
    s.stream = (ledger tr).survivors.flatten
      ∧ (ledger tr).survivors.Sublist (appended tr)
      ∧ (machine.Along (fun t _ => ¬ t.Overflows) machine.init tr →
          s.stream = (appended tr).flatten)
      ∧ ∀ e s', machine.step s e = some s' →
          (¬ (s.Overflows ∧ e = .consumer) →
            (ledger (tr ++ [e])).survivors = (ledger tr).survivors ++ appended [e])
          ∧ (s.Overflows → e = .consumer → ∃ before lost after : List Msg,
              (ledger tr).survivors = before ++ lost ++ after
              ∧ (ledger (tr ++ [e])).survivors = before ++ after
              ∧ before.flatten = s.output.handed ++ s.contentsOf (s.buffersToWrite.take 2)
              ∧ lost.flatten = s.contentsOf (s.buffersToWrite.drop 2)
              ∧ after.flatten = s.contentsOf s.buffers ++ s.contentsOf s.currBuffer.toList) := by
  have hr := represents_ledger h hm
  refine ⟨hr.stream, survivors_sublist_appended h hm, fun hover => ?_, fun e s' hs => ⟨?_, ?_⟩⟩
  · rw [hr.stream, survivors_eq_appended h hm hover]
  · intro hno
    rw [survivors_ledger_concat h hm hs, if_neg hno]
  · intro ho he
    obtain ⟨hall, hcut⟩ := (ledger tr).survivors_eq_of_truncate
    have hbatch : s.buffersToWrite.map s.contents = (ledger tr).batch.map List.flatten := by
      have hb := hr.batch
      rwa [unhanded, ho.1] at hb
    refine ⟨_, _, _, hall, ?_, ?_, ?_, ?_⟩
    · rw [survivors_ledger_concat h hm hs, if_pos ⟨ho, he⟩]
      exact hcut
    · rw [List.flatten_append, hr.handed, contentsOf_eq_flatten (g := (ledger tr).batch.take 2)]
      rw [List.map_take, List.map_take, hbatch]
    · rw [contentsOf_eq_flatten (g := (ledger tr).batch.drop 2)]
      rw [List.map_drop, List.map_drop, hbatch]
    · exact hr.pending.symm

/-- Two messages, the first of them handed over and the second still in the
current buffer. -/
theorem log_conserved_two :
    ∃ s, machine.exec machine.init
        [.start, .consumer, .append [72, 105], .consumer, .consumer, .wake .timeout,
          .append [33], .consumer, .consumer] = some s
      ∧ s.output.handed = [72, 105] ∧ s.stream = [72, 105, 33] := by
  refine ⟨_, rfl, rfl, ?_⟩
  have hrun : machine.exec machine.init
      [.start, .consumer, .append [72, 105], .consumer, .consumer, .wake .timeout,
        .append [33], .consumer, .consumer] = some _ := rfl
  exact (log_conserved hrun (by decide)).2.2.1 (by decide)

end AsyncLogging
