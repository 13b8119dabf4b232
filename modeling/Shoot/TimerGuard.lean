import Mathlib.Algebra.Group.Nat.Defs
import Mathlib.Data.List.MinMax
import Shoot.Machine
import Shoot.Timeval

/-!
# The timer guard

A `TimerGuard` holds shared pointers to objects until their time is over. An
object is kept alive by its nodes: refreshing a connection adds a further
node and leaves the old one where it is, so a node that expires says nothing
about the object it holds.

A node stores the clock of its insertion, which is reduced modulo ten thousand
seconds, plus its timeout, while real time goes on. An expired node is found in
two calls: `is_valid` marks it and returns `false` in either case, so the loop
of `handle_overtime` stops there, and the marked node is popped by a later call.

Nothing is released early (`TimerGuard.never_early`). A node is marked only
when the reduced clock has reached what it stores, and as the reduced clock is
never ahead of the real time that has passed, its deadline has been reached
then; a node is popped only when it is marked.

Releasing late is another matter. The branch of `handle_overtime` that pops a
node for which `is_valid` returned `true` is never taken, so a call drains the
heap of what has expired only where all of it was marked by earlier calls
(`TimerGuard.drains_iff`). And the stored time is not reduced again after the
timeout is added: a node is marked only in the ten thousand seconds it was made
in, or after it has waited for the clock to come round
(`TimerNode.marked_iff`).
-/

/-- **A `TimerNode`.** -/
structure TimerNode (T : Type*) where
  /-- `data_`, the object the node keeps alive. -/
  data : T
  /-- `is_deleted_`. -/
  isDeleted : Bool
  /-- `over_time_`. -/
  overTime : ℕ
deriving DecidableEq, Repr

namespace TimerNode

variable {T : Type*}

/-- The constructor, with the time it reads. -/
def new (data : T) (timeout : ℕ) (tv : Timeval) : TimerNode T :=
  { data := data, isDeleted := false, overTime := tv.clock + timeout }

/-- `set_deleted()`. -/
def setDeleted (n : TimerNode T) : TimerNode T := { n with isDeleted := true }

/-- `is_valid()`: what it returns, and the node after it. -/
def isValid (n : TimerNode T) (tv : Timeval) : Bool × TimerNode T :=
  if tv.clock < n.overTime then (false, n) else (false, n.setDeleted)

@[simp] theorem isValid_fst (n : TimerNode T) (tv : Timeval) : (n.isValid tv).1 = false := by
  unfold isValid
  split <;> rfl

/-- A node that is over is marked. -/
theorem isValid_snd_of_le {n : TimerNode T} {tv : Timeval} (h : n.overTime ≤ tv.clock) :
    (n.isValid tv).2 = n.setDeleted := by
  unfold isValid
  rw [if_neg (Nat.not_lt.mpr h)]

/-- A node that is not over is left as it is. -/
theorem isValid_snd_of_lt {n : TimerNode T} {tv : Timeval} (h : tv.clock < n.overTime) :
    (n.isValid tv).2 = n := by
  unfold isValid
  rw [if_pos h]

/-- Asking a node whether it is valid does not move its time. -/
@[simp] theorem overTime_isValid (n : TimerNode T) (tv : Timeval) :
    (n.isValid tv).2.overTime = n.overTime := by
  unfold isValid
  split <;> rfl

@[simp] theorem data_isValid (n : TimerNode T) (tv : Timeval) :
    (n.isValid tv).2.data = n.data := by
  unfold isValid
  split <;> rfl

/-- A node that was not marked is marked when the clock has reached its time. -/
theorem isDeleted_isValid {n : TimerNode T} (hn : n.isDeleted = false) (tv : Timeval) :
    (n.isValid tv).2.isDeleted = true ↔ n.overTime ≤ tv.clock := by
  constructor
  · intro h
    by_contra hlt
    rw [isValid_snd_of_lt (Nat.not_le.mp hlt), hn] at h
    cases h
  · intro h
    rw [isValid_snd_of_le h]
    rfl

/-- **When a node is marked.** A node made at one instant and asked at another
is marked if and only if its timeout has passed on the clock that starts again
at zero every ten thousand seconds, counted from what that clock showed at the
first of them. How much time has really passed does not matter. -/
theorem marked_iff (data : T) (timeout : ℕ) (tv tv' : Timeval) :
    ((new data timeout tv).isValid tv').2.isDeleted = true
      ↔ tv.millis % 10000000 + timeout ≤ tv'.millis % 10000000 := by
  rw [isDeleted_isValid rfl, ← Timeval.clock_eq, ← Timeval.clock_eq]
  rfl

/-- A node made 10 ms before the clock wraps, for 50 ms, and asked 110 ms later
is not marked. -/
theorem wrapped_not_marked :
    (Timeval.mk 9999 990000 (by decide)).millis + 50
        ≤ (Timeval.mk 10000 100000 (by decide)).millis
      ∧ ¬ ((new "conn" 50 ⟨9999, 990000, by decide⟩).isValid
          ⟨10000, 100000, by decide⟩).2.isDeleted = true := by
  decide

/-- **A node that stores a time past the wrap is never marked**, whenever it is
asked. -/
theorem not_marked_of_wrap (data : T) {timeout : ℕ} {tv : Timeval}
    (h : 10000000 ≤ tv.millis % 10000000 + timeout) (tv' : Timeval) :
    ((new data timeout tv).isValid tv').2 = new data timeout tv := by
  refine isValid_snd_of_lt ?_
  calc tv'.clock = tv'.millis % 10000000 := tv'.clock_eq
    _ < 10000000 := Nat.mod_lt _ (by decide)
    _ ≤ tv.millis % 10000000 + timeout := h
    _ = tv.clock + timeout := by rw [Timeval.clock_eq]

end TimerNode

/-- **A `TimerGuard`** and the time of the last call on it. -/
structure TimerGuard (T : Type*) where
  /-- `timer_node_heap`, in no particular order. -/
  heap : List (TimerNode T)
  /-- When the guard was last called. -/
  now : Timeval
deriving DecidableEq, Repr

/-- The calls on a guard, with the time they are made at. -/
inductive TimerEvent (T : Type*) where
  /-- `add_time_node(data, timeout)`. -/
  | addTimeNode (data : T) (timeout : ℕ) (tv : Timeval)
  /-- `handle_overtime()`, and where in the heap the nodes are that `top()`
  returns in it. -/
  | handleOvertime (tops : List ℕ) (tv : Timeval)
deriving DecidableEq, Repr

namespace TimerGuard

variable {T : Type*}

/-- The node at a position, if `top()` can return it: no node is before it in
the order of `timer_cmp`, which leaves several candidates when times are
equal. -/
def top (heap : List (TimerNode T)) (i : ℕ) : Option (TimerNode T) :=
  heap[i]?.filter fun now => heap.all fun n => now.overTime ≤ n.overTime

/-- **`handle_overtime()`**, given the positions of the nodes `top()` returns.
What `pop()` removes is the node `top()` returned. -/
def handleOvertime (tv : Timeval) :
    List ℕ → List (TimerNode T) → Option (List (TimerNode T))
  | [], heap => if heap.isEmpty then some heap else none
  | i :: tops, heap =>
    (top heap i).bind fun now =>
      if now.isDeleted then
        handleOvertime tv tops (heap.eraseIdx i)
      else if (now.isValid tv).1 then
        handleOvertime tv tops ((heap.set i (now.isValid tv).2).eraseIdx i)
      else if tops.isEmpty then
        some (heap.set i (now.isValid tv).2)
      else
        none

/-- One call on the guard. Time does not go back between the calls, and a
timeout is an `int` and not negative. -/
def step (s : TimerGuard T) : TimerEvent T → Option (TimerGuard T)
  | .addTimeNode data timeout tv =>
    if s.now.NotAfter tv ∧ timeout < 2 ^ 31 then
      some ⟨TimerNode.new data timeout tv :: s.heap, tv⟩
    else
      none
  | .handleOvertime tops tv =>
    if s.now.NotAfter tv then
      (handleOvertime tv tops s.heap).map fun heap => ⟨heap, tv⟩
    else
      none

/-- **A guard and the calls on it**, as a machine. -/
def machine (T : Type*) : Machine (TimerGuard T) (TimerEvent T) :=
  ⟨⟨[], ⟨0, 0, by decide⟩⟩, step⟩

/-- The deadlines in real time: the object, and when its node is over. -/
def record (_ : TimerGuard T) (e : TimerEvent T) (ds : List (T × ℕ)) : List (T × ℕ) :=
  match e with
  | .addTimeNode data timeout tv => (data, tv.millis + timeout) :: ds
  | .handleOvertime _ _ => ds

/-- The deadlines of a run of a new guard. -/
def deadlines (tr : List (TimerEvent T)) : List (T × ℕ) :=
  (machine T).history record (machine T).init [] tr

/-- **A node holds an object until a deadline**: it is not marked, and what
it stores is the clock of some past reading, that many milliseconds before the
deadline. -/
def Holds (now : Timeval) (n : TimerNode T) (x : T) (D : ℕ) : Prop :=
  n.data = x ∧ n.isDeleted = false
    ∧ ∃ (tv : Timeval) (timeout : ℕ),
        tv.NotAfter now ∧ n.overTime = tv.clock + timeout ∧ D = tv.millis + timeout

/-- **Every deadline is held or over.** -/
def Kept (now : Timeval) (heap : List (TimerNode T)) (x : T) (D : ℕ) : Prop :=
  D ≤ now.millis ∨ ∃ n ∈ heap, Holds now n x D

/-- A node that is neither over nor marked. -/
def Live (t : ℕ) (n : TimerNode T) : Prop := t < n.overTime ∧ n.isDeleted = false

instance (t : ℕ) : DecidablePred (Live (T := T) t) :=
  fun n => inferInstanceAs (Decidable (t < n.overTime ∧ n.isDeleted = false))

/-- **A call drains the heap** at a clock reading: nothing that is over is left,
and what is neither over nor marked is all there. -/
def Drained (t : ℕ) (heap heap' : List (TimerNode T)) : Prop :=
  (∀ n ∈ heap', t < n.overTime) ∧ heap'.filter (Live t ·) = heap.filter (Live t ·)

/-- **What is over has been marked before.** -/
def OverMarked (t : ℕ) (heap : List (TimerNode T)) : Prop :=
  ∀ n ∈ heap, n.overTime ≤ t → n.isDeleted = true

/-- A call drains the heap, however it returns. -/
def Drains (s : TimerGuard T) : TimerEvent T → Prop
  | .addTimeNode _ _ _ => True
  | .handleOvertime tops tv =>
    ∀ s', s.step (.handleOvertime tops tv) = some s' → Drained tv.clock s.heap s'.heap

/-- A call finds nothing that is over and not marked. -/
def FindsOverMarked (s : TimerGuard T) : TimerEvent T → Prop
  | .addTimeNode _ _ _ => True
  | .handleOvertime _ tv => OverMarked tv.clock s.heap

variable {now tv : Timeval} {heap heap' : List (TimerNode T)} {x : T} {D : ℕ}

theorem Holds.later {n : TimerNode T} (h : Holds now n x D) (ht : now.NotAfter tv) :
    Holds tv n x D := by
  obtain ⟨hx, hd, r, timeout, hr, ho, hD⟩ := h
  exact ⟨hx, hd, r, timeout, Nat.le_trans hr ht, ho, hD⟩

/-- Time passes. -/
theorem Kept.later (h : Kept now heap x D) (ht : now.NotAfter tv) : Kept tv heap x D := by
  rcases h with hD | ⟨n, hn, hh⟩
  · exact Or.inl (Nat.le_trans hD ht.millis_le)
  · exact Or.inr ⟨n, hn, hh.later ht⟩

/-- A node that the reduced clock has reached holds nothing any more. -/
theorem Holds.over {n : TimerNode T} (h : Holds now n x D) (ho : n.overTime ≤ now.clock) :
    D ≤ now.millis := by
  obtain ⟨-, -, r, timeout, hr, hover, rfl⟩ := h
  exact Timeval.elapsed_of_clock hr (hover ▸ ho)

/-- What `top()` returns is in the heap. -/
theorem getElem_of_top {n : TimerNode T} {i : ℕ} (h : top heap i = some n) :
    heap[i]? = some n := by
  unfold top at h
  exact (Option.filter_eq_some_iff.mp h).1

/-- **Popping a marked node** loses no deadline. -/
theorem Kept.pop {n : TimerNode T} {i : ℕ} (h : Kept now heap x D)
    (hi : heap[i]? = some n) (hn : n.isDeleted = true) : Kept now (heap.eraseIdx i) x D := by
  rcases h with hD | ⟨m, hm, hh⟩
  · exact Or.inl hD
  · obtain ⟨j, hj⟩ := List.mem_iff_getElem?.mp hm
    have hji : j ≠ i := by
      rintro rfl
      cases hi.symm.trans hj
      exact Bool.false_ne_true (hh.2.1.symm.trans hn)
    exact Or.inr ⟨m, List.mem_eraseIdx_iff_getElem?.mpr ⟨j, hji, hj⟩, hh⟩

/-- **Asking a node whether it is valid** loses no deadline: it is marked only
when it is over. -/
theorem Kept.isValid {n : TimerNode T} {i : ℕ} (h : Kept now heap x D)
    (hi : heap[i]? = some n) : Kept now (heap.set i (n.isValid now).2) x D := by
  rcases h with hD | ⟨m, hm, hh⟩
  · exact Or.inl hD
  · obtain ⟨j, hj⟩ := List.mem_iff_getElem?.mp hm
    by_cases hji : i = j
    · subst hji
      cases hi.symm.trans hj
      by_cases ho : now.clock < n.overTime
      · rw [TimerNode.isValid_snd_of_lt ho]
        exact Or.inr ⟨n, List.mem_set (List.getElem?_eq_some_iff.mp hi).1 n, hh⟩
      · exact Or.inl (hh.over (Nat.le_of_not_lt ho))
    · exact Or.inr ⟨m, List.mem_iff_getElem?.mpr ⟨j, by rw [List.getElem?_set_ne hji, hj]⟩, hh⟩

/-- A whole call of `handle_overtime` loses no deadline. -/
theorem Kept.handleOvertime {tops : List ℕ} (h : Kept now heap x D)
    (hr : TimerGuard.handleOvertime now tops heap = some heap') : Kept now heap' x D := by
  induction tops generalizing heap with
  | nil =>
    rw [TimerGuard.handleOvertime, Option.ite_none_right_eq_some] at hr
    exact Option.some.inj hr.2 ▸ h
  | cons i tops ih =>
    obtain ⟨n, htop, hr⟩ := Option.bind_eq_some_iff.mp hr
    have hi := getElem_of_top htop
    split at hr
    · exact ih (h.pop hi ‹_›) hr
    · -- `is_valid` never returns `true`, so the loop ends here
      rw [TimerNode.isValid_fst, if_neg Bool.false_ne_true, Option.ite_none_right_eq_some] at hr
      exact Option.some.inj hr.2 ▸ h.isValid hi

/-- Each call keeps what the deadlines so far ask for, and adds its own. -/
theorem Kept.step {s s' : TimerGuard T} {e : TimerEvent T} {ds : List (T × ℕ)}
    (h : ∀ d ∈ ds, Kept s.now s.heap d.1 d.2) (hs : s.step e = some s') :
    ∀ d ∈ record s e ds, Kept s'.now s'.heap d.1 d.2 := by
  cases e with
  | addTimeNode data timeout tv =>
    obtain ⟨⟨ht, -⟩, hs⟩ := Option.ite_none_right_eq_some.mp hs
    cases hs
    refine List.forall_mem_cons.mpr ⟨?_, fun d hd => ?_⟩
    · exact Or.inr ⟨_, List.mem_cons_self, rfl, rfl, tv, timeout, Nat.le_refl _, rfl, rfl⟩
    · rcases (h d hd).later ht with hD | ⟨n, hn, hh⟩
      · exact Or.inl hD
      · exact Or.inr ⟨n, List.mem_cons_of_mem _ hn, hh⟩
  | handleOvertime tops tv =>
    obtain ⟨ht, hs⟩ := Option.ite_none_right_eq_some.mp hs
    obtain ⟨heap, hr, hs⟩ := Option.map_eq_some_iff.mp hs
    cases hs
    exact fun d hd => ((h d hd).later ht).handleOvertime hr

/-- **The guard never releases an object early.** After any calls, at any
times that do not go back, and until the next call: while some deadline of an
object – the real time of an insertion plus its timeout – has not been
reached, a node of the heap holds the object. -/
theorem never_early {tr : List (TimerEvent T)} {s : TimerGuard T}
    (hrun : (machine T).exec (machine T).init tr = some s) {tv : Timeval}
    (htv : s.now.NotAfter tv) {x : T} {D : ℕ} (hD : (x, D) ∈ deadlines tr)
    (hearly : tv.millis < D) : ∃ n ∈ s.heap, n.data = x := by
  have hkept : ∀ d ∈ deadlines tr, Kept s.now s.heap d.1 d.2 := by
    refine Machine.history_invariant
      (I := fun (s : TimerGuard T) (ds : List (T × ℕ)) => ∀ d ∈ ds, Kept s.now s.heap d.1 d.2)
      ?_ ?_ hrun
    · intro d hd
      cases hd
    · exact fun _ t e t' ds _ hs ih => Kept.step ih hs
  rcases (hkept _ hD).later htv with hover | ⟨n, hn, hh⟩
  · exact absurd hearly (Nat.not_lt.mpr hover)
  · exact ⟨n, hn, hh.1⟩

/-- An object is added for 50 ms just before the clock wraps and, after the
wrap, for a second more. Its first node is over by then, and its second one
holds it half a second later. -/
theorem never_early_wrapped :
    ∃ (tr : List (TimerEvent String)) (s : TimerGuard String),
      (machine String).exec (machine String).init tr = some s
      ∧ s.now.NotAfter ⟨10001, 0, by decide⟩ ∧ ("conn", 10001010) ∈ deadlines tr
      ∧ (Timeval.mk 10001 0 (by decide)).millis < 10001010
      ∧ ∃ n ∈ s.heap, n.data = "conn" := by
  have hrun : (machine String).exec (machine String).init
      [.addTimeNode "conn" 50 ⟨9999, 990000, by decide⟩,
        .handleOvertime [0] ⟨10000, 0, by decide⟩,
        .addTimeNode "conn" 1000 ⟨10000, 10000, by decide⟩,
        .handleOvertime [0] ⟨10000, 500000, by decide⟩] = some _ := rfl
  have hD : ("conn", 10001010) ∈ deadlines
      [.addTimeNode "conn" 50 ⟨9999, 990000, by decide⟩,
        .handleOvertime [0] ⟨10000, 0, by decide⟩,
        .addTimeNode "conn" 1000 ⟨10000, 10000, by decide⟩,
        .handleOvertime [0] ⟨10000, 500000, by decide⟩] := List.mem_cons_self
  have htv : Timeval.NotAfter ⟨10000, 500000, by decide⟩ ⟨10001, 0, by decide⟩ := by decide
  exact ⟨_, _, hrun, htv, hD, by decide, never_early hrun htv hD (by decide)⟩

/-! ## Draining the heap -/

/-- **What `top()` returns**, and the heap around it: no time is before its
own, and popping and changing it leave the rest as it is. -/
theorem top_spec {n : TimerNode T} {i : ℕ} (h : top heap i = some n) :
    ∃ l₁ l₂, heap = l₁ ++ n :: l₂ ∧ (∀ m ∈ heap, n.overTime ≤ m.overTime)
      ∧ heap.eraseIdx i = l₁ ++ l₂ ∧ ∀ m, heap.set i m = l₁ ++ m :: l₂ := by
  obtain ⟨hi, hmin⟩ := Option.filter_eq_some_iff.mp h
  obtain ⟨hlt, rfl⟩ := List.getElem?_eq_some_iff.mp hi
  refine ⟨heap.take i, heap.drop (i + 1), ?_, ?_, List.eraseIdx_eq_take_drop_succ heap i,
    fun m => List.set_eq_take_cons_drop m hlt⟩
  · rw [List.getElem_cons_drop, List.take_append_drop]
  · simpa using hmin

/-- Some node can be the top of a heap that is not empty. -/
theorem exists_top (h : heap ≠ []) : ∃ i n, top heap i = some n := by
  obtain ⟨n, hn⟩ : ∃ n, heap.argmin TimerNode.overTime = some n :=
    Option.ne_none_iff_exists'.mp (mt List.argmin_eq_none.mp h)
  obtain ⟨i, hi⟩ := List.mem_iff_getElem?.mp (List.argmin_mem hn)
  refine ⟨i, n, Option.filter_eq_some_iff.mpr ⟨hi, ?_⟩⟩
  simpa using fun m hm => List.le_of_mem_argmin hm hn

/-- **One turn of the loop.** A marked node is popped; an unmarked one is asked
whether it is valid, and ends the loop. -/
theorem handleOvertime_cons {i : ℕ} {tops : List ℕ}
    (hr : handleOvertime tv (i :: tops) heap = some heap') :
    ∃ l₁ n l₂, heap = l₁ ++ n :: l₂ ∧ (∀ m ∈ heap, n.overTime ≤ m.overTime)
      ∧ (n.isDeleted = true ∧ handleOvertime tv tops (l₁ ++ l₂) = some heap'
        ∨ n.isDeleted = false ∧ heap' = l₁ ++ (n.isValid tv).2 :: l₂) := by
  obtain ⟨n, htop, hr⟩ := Option.bind_eq_some_iff.mp hr
  obtain ⟨l₁, l₂, hheap, hmin, herase, hset⟩ := top_spec htop
  refine ⟨l₁, n, l₂, hheap, hmin, ?_⟩
  split at hr
  · exact Or.inl ⟨‹_›, herase ▸ hr⟩
  · rw [TimerNode.isValid_fst, if_neg Bool.false_ne_true, Option.ite_none_right_eq_some] at hr
    rw [hset] at hr
    exact Or.inr ⟨Bool.eq_false_iff.mpr ‹_›, (Option.some.inj hr.2).symm⟩

/-- **A call of `handle_overtime` returns**, whatever is in the heap: each turn
but the last pops a node. -/
theorem handleOvertime_returns (tv : Timeval) (heap : List (TimerNode T)) :
    ∃ tops heap', handleOvertime tv tops heap = some heap' := by
  by_cases hempty : heap = []
  · exact ⟨[], [], by rw [hempty]; rfl⟩
  · obtain ⟨i, n, htop⟩ := exists_top hempty
    by_cases hn : n.isDeleted = true
    · have hi := (List.getElem?_eq_some_iff.mp (getElem_of_top htop)).1
      have hshorter : (heap.eraseIdx i).length < heap.length := by
        rw [List.length_eraseIdx_of_lt hi]
        omega
      obtain ⟨tops, heap', hr⟩ := handleOvertime_returns tv (heap.eraseIdx i)
      exact ⟨i :: tops, heap', by rw [handleOvertime, htop, Option.bind_some, if_pos hn, hr]⟩
    · refine ⟨[i], heap.set i (n.isValid tv).2, ?_⟩
      rw [handleOvertime, htop, Option.bind_some, if_neg hn, TimerNode.isValid_fst]
      rfl
termination_by heap.length

/-- **A call keeps every live node.** What it pops is marked, and what it marks
is over. -/
theorem filter_live_handleOvertime {tops : List ℕ}
    (hr : handleOvertime tv tops heap = some heap') :
    heap'.filter (Live tv.clock ·) = heap.filter (Live tv.clock ·) := by
  induction tops generalizing heap with
  | nil =>
    rw [handleOvertime, Option.ite_none_right_eq_some] at hr
    rw [Option.some.inj hr.2]
  | cons i tops ih =>
    obtain ⟨l₁, n, l₂, rfl, -, ⟨hn, hr⟩ | ⟨-, rfl⟩⟩ := handleOvertime_cons hr
    · have hdead : ¬ Live tv.clock n := fun h => Bool.false_ne_true (h.2.symm.trans hn)
      rw [ih hr, List.filter_append, List.filter_append,
        List.filter_cons_of_neg (by simpa using hdead)]
    · by_cases hover : n.overTime ≤ tv.clock
      · have hdead : ¬ Live tv.clock n := fun h => Nat.not_lt.mpr hover h.1
        have hmarked : ¬ Live tv.clock (n.isValid tv).2 := by
          rw [TimerNode.isValid_snd_of_le hover]
          exact fun h => Bool.false_ne_true h.2.symm
        rw [List.filter_append, List.filter_append,
          List.filter_cons_of_neg (by simpa using hmarked),
          List.filter_cons_of_neg (by simpa using hdead)]
      · rw [TimerNode.isValid_snd_of_lt (Nat.not_le.mp hover)]

/-- **A node that is not marked before a call is in the heap after it**, over or
not: the call that marks it does not pop it. -/
theorem unmarked_left {tops : List ℕ} (hr : handleOvertime tv tops heap = some heap')
    {m : TimerNode T} (hm : m ∈ heap) (hd : m.isDeleted = false) :
    ∃ m' ∈ heap', m'.data = m.data ∧ m'.overTime = m.overTime := by
  induction tops generalizing heap with
  | nil =>
    rw [handleOvertime, Option.ite_none_right_eq_some] at hr
    exact ⟨m, Option.some.inj hr.2 ▸ hm, rfl, rfl⟩
  | cons i tops ih =>
    obtain ⟨l₁, n, l₂, rfl, -, ⟨hn, hr⟩ | ⟨-, rfl⟩⟩ := handleOvertime_cons hr
    · have hne : m ≠ n := by
        rintro rfl
        exact Bool.false_ne_true (hd.symm.trans hn)
      refine ih hr ?_
      simpa [hne] using hm
    · rcases List.mem_append.mp hm with h | h
      · exact ⟨m, List.mem_append_left _ h, rfl, rfl⟩
      · rcases List.mem_cons.mp h with rfl | h
        · exact ⟨_, List.mem_append_right _ List.mem_cons_self, m.data_isValid tv,
            m.overTime_isValid tv⟩
        · exact ⟨m, List.mem_append_right _ (List.mem_cons_of_mem _ h), rfl, rfl⟩

/-- **Where everything over is marked, a call drains the heap.** It goes on
while the top is over, and the nodes that are left are not before the top. -/
theorem over_gone {tops : List ℕ} (hr : handleOvertime tv tops heap = some heap')
    (h : OverMarked tv.clock heap) : ∀ m ∈ heap', tv.clock < m.overTime := by
  induction tops generalizing heap with
  | nil =>
    rw [handleOvertime, Option.ite_none_right_eq_some] at hr
    rw [← Option.some.inj hr.2, List.isEmpty_iff.mp hr.1]
    exact fun m hm => (List.not_mem_nil hm).elim
  | cons i tops ih =>
    obtain ⟨l₁, n, l₂, rfl, hmin, ⟨-, hr⟩ | ⟨hn, rfl⟩⟩ := handleOvertime_cons hr
    · have hsub : l₁ ++ l₂ ⊆ l₁ ++ n :: l₂ :=
        ((List.sublist_cons_self n l₂).append_left l₁).subset
      exact ih hr fun m hm => h m (hsub hm)
    · have hlater : tv.clock < n.overTime := by
        by_contra hover
        have hmarked := h n (List.mem_append_right _ List.mem_cons_self) (Nat.not_lt.mp hover)
        exact Bool.false_ne_true (hn.symm.trans hmarked)
      rw [TimerNode.isValid_snd_of_lt hlater]
      exact fun m hm => Nat.lt_of_lt_of_le hlater (hmin m hm)

/-- **Exactly when a call drains the heap**: when what is over was marked
before it. -/
theorem drained_iff_overMarked {tops : List ℕ}
    (hr : handleOvertime tv tops heap = some heap') :
    Drained tv.clock heap heap' ↔ OverMarked tv.clock heap := by
  constructor
  · rintro ⟨hgone, -⟩ n hn hover
    by_contra hd
    obtain ⟨m, hm, -, ho⟩ := unmarked_left hr hn (Bool.eq_false_iff.mpr hd)
    exact Nat.not_lt.mpr hover (ho ▸ hgone m hm)
  · exact fun h => ⟨over_gone hr h, filter_live_handleOvertime hr⟩

/-- The heap after a call of `handle_overtime`. -/
theorem heap_of_step {s s' : TimerGuard T} {tops : List ℕ}
    (hs : s.step (.handleOvertime tops tv) = some s') :
    handleOvertime tv tops s.heap = some s'.heap := by
  obtain ⟨-, hs⟩ := Option.ite_none_right_eq_some.mp hs
  obtain ⟨heap, hr, hs⟩ := Option.map_eq_some_iff.mp hs
  exact hs ▸ hr

/-- One step of a run drains the heap exactly when it finds nothing that is
over and not marked. -/
theorem drains_iff_finds {s s' : TimerGuard T} {e : TimerEvent T} (hs : s.step e = some s') :
    Drains s e ↔ FindsOverMarked s e := by
  cases e with
  | addTimeNode data timeout tv => exact Iff.rfl
  | handleOvertime tops tv =>
    have hexact := drained_iff_overMarked (heap_of_step hs)
    refine Iff.trans ⟨fun h => h _ hs, fun h t ht => ?_⟩ hexact
    cases hs.symm.trans ht
    exact h

/-- **A call of `handle_overtime` returns, and drains the heap exactly when it
finds nothing that is over and not marked.** This is so of the next call in
whatever state a run has reached, from a new guard or from any other, and so
all calls of a run drain the heap exactly when each of them finds it like
that. -/
theorem drains_iff {tr : List (TimerEvent T)} {s₀ s : TimerGuard T}
    (hrun : (machine T).exec s₀ tr = some s) :
    (∀ tv, s.now.NotAfter tv →
        (∃ tops s', s.step (.handleOvertime tops tv) = some s')
          ∧ ∀ tops s', s.step (.handleOvertime tops tv) = some s' →
            (Drained tv.clock s.heap s'.heap ↔ OverMarked tv.clock s.heap))
      ∧ ((machine T).Along Drains s₀ tr ↔ (machine T).Along FindsOverMarked s₀ tr) := by
  refine ⟨fun tv htv => ⟨?_, fun tops s' hs => ?_⟩, ?_⟩
  · obtain ⟨tops, heap, hr⟩ := handleOvertime_returns tv s.heap
    exact ⟨tops, ⟨heap, tv⟩, by rw [step, if_pos htv, hr]; rfl⟩
  · exact drained_iff_overMarked (heap_of_step hs)
  · exact Machine.along_congr (fun _ t e t' _ hs => drains_iff_finds hs) hrun

/-- A node that is over is marked by a call, which leaves it there, and popped
by the next one. -/
theorem drains_iff_second :
    ∃ (tr : List (TimerEvent String)) (s : TimerGuard String),
      (machine String).exec (machine String).init tr = some s
      ∧ (∃ tops s', s.step (.handleOvertime tops ⟨2, 0, by decide⟩) = some s')
      ∧ ((machine String).Along Drains (machine String).init tr
        ↔ (machine String).Along FindsOverMarked (machine String).init tr) := by
  have hrun : (machine String).exec (machine String).init
      [.addTimeNode "conn" 0 ⟨1, 0, by decide⟩, .handleOvertime [0] ⟨1, 0, by decide⟩,
        .handleOvertime [0] ⟨1, 0, by decide⟩] = some _ := rfl
  obtain ⟨hnext, hall⟩ := drains_iff hrun
  exact ⟨_, _, hrun, (hnext ⟨2, 0, by decide⟩ (by decide)).1, hall⟩

/-- The run of the guard's own test: an object is added for 0 ms, and the call
that follows in the same millisecond leaves its node in the heap. -/
theorem over_not_drained :
    ∃ s s' : TimerGuard String,
      (machine String).exec (machine String).init
          [.addTimeNode "conn" 0 ⟨1, 0, by decide⟩] = some s
        ∧ s.step (.handleOvertime [0] ⟨1, 0, by decide⟩) = some s'
        ∧ ∃ n ∈ s'.heap, n.overTime ≤ (Timeval.mk 1 0 (by decide)).clock :=
  ⟨_, _, rfl, rfl, _, List.mem_cons_self, by decide⟩

end TimerGuard
