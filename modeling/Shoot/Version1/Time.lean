import Shoot.Timeval
import Shoot.Version1.Heap

/-!
# The timers of version 1.0

`time` keeps the timers of the requests in a heap. A timer is never taken out
of the heap before its turn: `time_n_del` marks the node the request points to,
and `handle_expire_time_ns` passes over marked nodes when they come to the top.
That loop reads the clock in every turn, calls the handler of a node whose key
has been reached, and pops the node after the call; a node whose key has not
been reached ends it.

The timers fire right (`TimerRun.fires_right`). A node leaves the heap with the
call of its handler, so it is called once; a marked node is popped without a
call; and the top has the least key, so a call of the function runs the
handlers in the order of the keys, and leaves nothing due.

A node is kept here with its address and the fields that never change, as the
queue holds it, and the marks are kept by address; nodes are never freed, so no
address is used twice.
-/

namespace Version1

/-- **A `time_n_t`**, for requests in `ρ` and handlers in `H`. -/
structure TimeNode (ρ H : Type*) where
  /-- The address of the node. -/
  ptr : ℕ
  /-- `key`, when the node is due. -/
  key : ℕ
  /-- `handler`, which may be null. -/
  handler : Option H
  /-- `request`. -/
  request : ρ
deriving DecidableEq, Repr

/-- **A `time`**, and what it allocated. -/
structure Time (ρ H : Type*) where
  /-- `pq`. -/
  pq : PriorityQueue (TimeNode ρ H)
  /-- `current_time`. -/
  currentTime : ℕ
  /-- The `deleted` field of the node at an address. -/
  deleted : ℕ → Bool
  /-- The `timer` field of a request. -/
  timer : ρ → Option ℕ
  /-- The addresses below this one are those of nodes. -/
  next : ℕ

/-- What a turn of the loop of `handle_expire_time_ns` does. -/
inductive Turn (ρ H : Type*) where
  /-- The loop ends. -/
  | done
  /-- The node at the top is marked, and popped. -/
  | passed (n : TimeNode ρ H)
  /-- The node at the top is due: its handler is called, if it has one, and the
  node is popped. -/
  | due (n : TimeNode ρ H)
deriving DecidableEq, Repr

namespace Time

variable {ρ H : Type*}

/-- A `time` just constructed, over whatever its memory holds. -/
def new (heap : ℕ → TimeNode ρ H) (currentTime : ℕ) : Time ρ H where
  pq := .new heap
  currentTime := currentTime
  deleted := fun _ => false
  timer := fun _ => none
  next := 0

/-- `time_update()`, with what `gettimeofday` gave, `none` if it failed. -/
def timeUpdate (t : Time ρ H) (tv : Option Timeval) : Time ρ H :=
  match tv with
  | none => t
  | some tv => { t with currentTime := tv.millis % 2 ^ 64 }

/-- `time_n_add(request, timeout, handler)`. -/
def timeNAdd [DecidableEq ρ] (t : Time ρ H) (request : ρ) (timeout : ℕ) (handler : Option H)
    (tv : Option Timeval) : Time ρ H :=
  let t := t.timeUpdate tv
  let t_n : TimeNode ρ H := {
    ptr := t.next
    key := (t.currentTime + timeout) % 2 ^ 64
    handler := handler
    request := request }
  { t with
    timer := Function.update t.timer request (some t.next)
    deleted := Function.update t.deleted t.next false
    pq := t.pq.pqInsert TimeNode.key t_n
    next := t.next + 1 }

/-- `time_n_del(request)`, where the request has a timer. -/
def timeNDel (t : Time ρ H) (request : ρ) (tv : Option Timeval) : Option (Time ρ H) :=
  (t.timer request).map fun t_n =>
    let t := t.timeUpdate tv
    { t with deleted := Function.update t.deleted t_n true }

/-- **One turn of the loop of `handle_expire_time_ns`.** -/
def expireTurn (t : Time ρ H) (tv : Option Timeval) : Turn ρ H × Time ρ H :=
  if t.pq.pqIsEmpty then
    (.done, t)
  else
    let t := t.timeUpdate tv
    let t_n := t.pq.pqFront
    if t.deleted t_n.ptr then
      (.passed t_n, { t with pq := t.pq.pqPop TimeNode.key })
    else if t_n.key > t.currentTime then
      (.done, t)
    else
      (.due t_n, { t with pq := t.pq.pqPop TimeNode.key })

/-- **The node at the top is due**: it is not marked, and its key is reached. -/
def Due (t : Time ρ H) (tv : Option Timeval) : Prop :=
  1 ≤ t.pq.size ∧ t.deleted t.pq.pqFront.ptr = false
    ∧ t.pq.pqFront.key ≤ (t.timeUpdate tv).currentTime

instance (t : Time ρ H) (tv : Option Timeval) : Decidable (t.Due tv) :=
  inferInstanceAs (Decidable (_ ∧ _))

/-- **A sound heap of timers**: in heap order, each node once, and only nodes
that were allocated. -/
structure Sound (t : Time ρ H) : Prop where
  ordered : t.pq.Ordered TimeNode.key
  nodup : (t.pq.nodes.map TimeNode.ptr).Nodup
  lt_next : ∀ n ∈ t.pq.nodes, n.ptr < t.next
  timer_lt : ∀ r p, t.timer r = some p → p < t.next

section Operations

variable {t : Time ρ H} {tv : Option Timeval}

@[simp] theorem pq_timeUpdate (t : Time ρ H) (tv : Option Timeval) :
    (t.timeUpdate tv).pq = t.pq := by
  cases tv <;> rfl

@[simp] theorem deleted_timeUpdate (t : Time ρ H) (tv : Option Timeval) :
    (t.timeUpdate tv).deleted = t.deleted := by
  cases tv <;> rfl

@[simp] theorem next_timeUpdate (t : Time ρ H) (tv : Option Timeval) :
    (t.timeUpdate tv).next = t.next := by
  cases tv <;> rfl

/-- What a turn does, said once: it ends the loop on an empty heap, or before a
node that is not due; or it pops the node at the top, which is marked, or not
marked and due. -/
theorem expireTurn_cases (t : Time ρ H) (tv : Option Timeval) :
    (t.pq.size = 0 ∧ t.expireTurn tv = (.done, t))
      ∨ (1 ≤ t.pq.size ∧ t.deleted t.pq.pqFront.ptr = false
          ∧ (t.timeUpdate tv).currentTime < t.pq.pqFront.key
          ∧ t.expireTurn tv = (.done, t.timeUpdate tv))
      ∨ (1 ≤ t.pq.size ∧ t.deleted t.pq.pqFront.ptr = true
          ∧ t.expireTurn tv = (.passed t.pq.pqFront,
              { t.timeUpdate tv with pq := t.pq.pqPop TimeNode.key }))
      ∨ (t.Due tv
          ∧ t.expireTurn tv = (.due t.pq.pqFront,
              { t.timeUpdate tv with pq := t.pq.pqPop TimeNode.key })) := by
  unfold expireTurn
  cases hemp : t.pq.pqIsEmpty with
  | true =>
    exact Or.inl ⟨beq_iff_eq.mp hemp, rfl⟩
  | false =>
    have hs := PriorityQueue.pqIsEmpty_eq_false.mp hemp
    rw [if_neg Bool.false_ne_true]
    simp only [pq_timeUpdate, deleted_timeUpdate]
    cases hdel : t.deleted t.pq.pqFront.ptr with
    | true => exact Or.inr (Or.inr (Or.inl ⟨hs, rfl, rfl⟩))
    | false =>
      rw [if_neg Bool.false_ne_true]
      by_cases hkey : t.pq.pqFront.key > (t.timeUpdate tv).currentTime
      · rw [if_pos hkey]
        exact Or.inr (Or.inl ⟨hs, rfl, hkey, rfl⟩)
      · rw [if_neg hkey]
        exact Or.inr (Or.inr (Or.inr ⟨⟨hs, hdel, Nat.not_lt.mp hkey⟩, rfl⟩))

theorem sound_new (heap : ℕ → TimeNode ρ H) (c : ℕ) : (new heap c).Sound where
  ordered := PriorityQueue.ordered_new heap
  nodup := Multiset.nodup_zero
  lt_next _ h := by cases h
  timer_lt _ _ h := by cases h

/-- Reading the clock touches no timer. -/
theorem Sound.timeUpdate (h : t.Sound) (tv : Option Timeval) : (t.timeUpdate tv).Sound := by
  cases tv with
  | none => exact h
  | some tv => exact ⟨h.ordered, h.nodup, h.lt_next, h.timer_lt⟩

/-- The nodes after an addition are those before and a new one. -/
theorem nodes_timeNAdd [DecidableEq ρ] (h : t.Sound) (request : ρ) (timeout : ℕ)
    (handler : Option H) (tv : Option Timeval) :
    (t.timeNAdd request timeout handler tv).pq.nodes
      = ⟨t.next, ((t.timeUpdate tv).currentTime + timeout) % 2 ^ 64, handler, request⟩
        ::ₘ t.pq.nodes := by
  have hspec := (PriorityQueue.pqInsert_spec h.ordered
    ⟨t.next, ((t.timeUpdate tv).currentTime + timeout) % 2 ^ 64, handler, request⟩).2
  cases tv <;> exact hspec

/-- **A timer that is added** has an address of its own. -/
theorem Sound.timeNAdd [DecidableEq ρ] (h : t.Sound) (request : ρ) (timeout : ℕ)
    (handler : Option H) (tv : Option Timeval) :
    (t.timeNAdd request timeout handler tv).Sound := by
  have hnext : (t.timeNAdd request timeout handler tv).next = t.next + 1 :=
    congrArg (· + 1) (next_timeUpdate t tv)
  refine ⟨?_, ?_, ?_, ?_⟩
  · exact (PriorityQueue.pqInsert_spec (h.timeUpdate tv).ordered _).1
  · rw [nodes_timeNAdd h, Multiset.map_cons, Multiset.nodup_cons]
    refine ⟨fun hm => ?_, h.nodup⟩
    obtain ⟨n, hn, hptr⟩ := Multiset.mem_map.mp hm
    exact absurd (h.lt_next n hn) (by rw [hptr]; exact Nat.lt_irrefl _)
  · rw [nodes_timeNAdd h, hnext]
    intro n hn
    rcases Multiset.mem_cons.mp hn with rfl | hn
    · exact Nat.lt_succ_self _
    · exact Nat.lt_succ_of_lt (h.lt_next n hn)
  · rw [hnext]
    have htimer : (t.timeNAdd request timeout handler tv).timer
        = Function.update t.timer request (some t.next) := by
      cases tv <;> rfl
    intro r p hp
    rw [htimer] at hp
    by_cases hr : r = request
    · rw [hr, Function.update_self, Option.some.injEq] at hp
      omega
    · rw [Function.update_of_ne hr] at hp
      exact Nat.lt_succ_of_lt (h.timer_lt r p hp)

/-- Popping the top leaves the other nodes, and not the top. -/
theorem Sound.pop (h : t.Sound) (hs : 1 ≤ t.pq.size) (tv : Option Timeval) :
    ({ t.timeUpdate tv with pq := t.pq.pqPop TimeNode.key } : Time ρ H).Sound
      ∧ t.pq.nodes = t.pq.pqFront ::ₘ (t.pq.pqPop TimeNode.key).nodes
      ∧ t.pq.pqFront.ptr ∉ (t.pq.pqPop TimeNode.key).nodes.map TimeNode.ptr := by
  obtain ⟨ho, hn⟩ := PriorityQueue.pqPop_spec h.ordered hs
  have hnodup := h.nodup
  rw [hn, Multiset.map_cons, Multiset.nodup_cons] at hnodup
  refine ⟨⟨ho, hnodup.2, fun n hn' => ?_, (h.timeUpdate tv).timer_lt⟩, hn, hnodup.1⟩
  rw [next_timeUpdate]
  exact h.lt_next n (hn ▸ Multiset.mem_cons_of_mem hn')

end Operations

end Time

/-! ## Runs -/

/-- **The timers of a server**, and whether `handle_expire_time_ns` is running. -/
structure TimerRun (ρ H : Type*) where
  /-- The timers. -/
  time : Time ρ H
  /-- The loop of `handle_expire_time_ns` is at its test. -/
  expiring : Bool

/-- The calls on the timers, with what the clock gives in each. -/
inductive TimersEvent (ρ H : Type*) where
  /-- `time_n_add`. -/
  | timeNAdd (request : ρ) (timeout : ℕ) (handler : Option H) (tv : Option Timeval)
  /-- `time_n_del`. -/
  | timeNDel (request : ρ) (tv : Option Timeval)
  /-- `handle_expire_time_ns` is called. -/
  | handleExpire
  /-- One turn of its loop. -/
  | turn (tv : Option Timeval)
deriving DecidableEq, Repr

/-- What is done about the timers. -/
inductive TimerAction (ρ H : Type*) where
  /-- A node is marked as deleted. -/
  | marked (ptr : ℕ)
  /-- In a call of `handle_expire_time_ns`, numbered, the handler of a node is
  called; `now` is `current_time`. -/
  | called (call : ℕ) (n : TimeNode ρ H) (now : ℕ)

/-- The past of a run. -/
structure TimerLog (ρ H : Type*) where
  /-- How often `handle_expire_time_ns` was called. -/
  calls : ℕ
  /-- What was done, in order. -/
  actions : List (TimerAction ρ H)

/-- **An action may come before another**: a mark is not of a node that is
called later; no node is called twice; and in one call of
`handle_expire_time_ns` the handlers come in the order of their keys. -/
def TimerAction.MayPrecede {ρ H : Type*} : TimerAction ρ H → TimerAction ρ H → Prop
  | .marked ptr, .called _ n _ => ptr ≠ n.ptr
  | .called call n _, .called call' n' _ => n.ptr ≠ n'.ptr ∧ (call = call' → n.key ≤ n'.key)
  | _, .marked _ => True

namespace TimerRun

variable {ρ H : Type*} [DecidableEq ρ]

/-- One step of the timers. Additions and marks come between the calls of
`handle_expire_time_ns`, and 1023 nodes fit the heap. -/
def step (s : TimerRun ρ H) : TimersEvent ρ H → Option (TimerRun ρ H)
  | .timeNAdd request timeout handler tv =>
    if s.expiring = false ∧ s.time.pq.size + 1 < heapSize then
      some { s with time := s.time.timeNAdd request timeout handler tv }
    else
      none
  | .timeNDel request tv =>
    if s.expiring = false then
      (s.time.timeNDel request tv).map fun time => { s with time := time }
    else
      none
  | .handleExpire => if s.expiring = false then some { s with expiring := true } else none
  | .turn tv =>
    if s.expiring = true then
      match s.time.expireTurn tv with
      | (.done, time) => some ⟨time, false⟩
      | (.passed _, time) => some ⟨time, true⟩
      | (.due _, time) => some ⟨time, true⟩
    else
      none

/-- **Timers and the calls on them**, as a machine, over whatever the memory
holds at first. -/
def machine (heap : ℕ → TimeNode ρ H) (currentTime : ℕ) :
    Machine (TimerRun ρ H) (TimersEvent ρ H) := ⟨⟨.new heap currentTime, false⟩, step⟩

/-- What a step adds to the log. -/
def record (s : TimerRun ρ H) (e : TimersEvent ρ H) (l : TimerLog ρ H) : TimerLog ρ H :=
  match e with
  | .timeNAdd _ _ _ _ => l
  | .timeNDel request _ =>
    { l with actions := l.actions ++ ((s.time.timer request).map .marked).toList }
  | .handleExpire => { l with calls := l.calls + 1 }
  | .turn tv =>
    match s.time.expireTurn tv with
    | (.due n, time) =>
      if n.handler.isSome then
        { l with actions := l.actions ++ [.called l.calls n time.currentTime] }
      else
        l
    | _ => l

/-- The log of a run. -/
def log (heap : ℕ → TimeNode ρ H) (currentTime : ℕ) (tr : List (TimersEvent ρ H)) :
    TimerLog ρ H :=
  (machine heap currentTime).history record (machine heap currentTime).init ⟨0, []⟩ tr

/-- **What the log says about the timers.** -/
structure Fires (s : TimerRun ρ H) (l : TimerLog ρ H) : Prop where
  sound : s.time.Sound
  pairwise : l.actions.Pairwise TimerAction.MayPrecede
  due : ∀ call n now, .called call n now ∈ l.actions → n.key ≤ now
  marks : ∀ ptr, .marked ptr ∈ l.actions → s.time.deleted ptr = true ∧ ptr < s.time.next
  gone : ∀ call n now, .called call n now ∈ l.actions →
    n.ptr < s.time.next ∧ n.ptr ∉ s.time.pq.nodes.map TimeNode.ptr
  past : ∀ call n now, .called call n now ∈ l.actions → call ≤ l.calls
    ∧ (s.expiring = true → call = l.calls → ∀ x ∈ s.time.pq.nodes, n.key ≤ x.key)

section Fires

variable {s s' : TimerRun ρ H} {l : TimerLog ρ H}

omit [DecidableEq ρ] in
theorem fires_new (heap : ℕ → TimeNode ρ H) (c : ℕ) :
    Fires ⟨.new heap c, false⟩ ⟨0, []⟩ where
  sound := Time.sound_new heap c
  pairwise := List.Pairwise.nil
  due _ _ _ h := by cases h
  marks _ h := by cases h
  gone _ _ _ h := by cases h
  past _ _ _ h := by cases h

/-- An addition allocates an address that the log does not name. -/
theorem Fires.timeNAdd (h : Fires s l) (hexp : s.expiring = false) (request : ρ) (timeout : ℕ)
    (handler : Option H) (tv : Option Timeval) :
    Fires { s with time := s.time.timeNAdd request timeout handler tv } l := by
  have hnext : (s.time.timeNAdd request timeout handler tv).next = s.time.next + 1 :=
    congrArg (· + 1) (Time.next_timeUpdate s.time tv)
  have hdel : (s.time.timeNAdd request timeout handler tv).deleted
      = Function.update s.time.deleted s.time.next false := by
    cases tv <;> rfl
  refine ⟨h.sound.timeNAdd request timeout handler tv, h.pairwise, h.due, ?_, ?_, ?_⟩
  · intro ptr hp
    obtain ⟨hmark, hlt⟩ := h.marks ptr hp
    rw [hdel, hnext, Function.update_of_ne (Nat.ne_of_lt hlt)]
    exact ⟨hmark, Nat.lt_succ_of_lt hlt⟩
  · intro call n now hn
    obtain ⟨hlt, hgone⟩ := h.gone call n now hn
    rw [hnext, Time.nodes_timeNAdd h.sound, Multiset.map_cons, Multiset.mem_cons, not_or]
    exact ⟨Nat.lt_succ_of_lt hlt, Nat.ne_of_lt hlt, hgone⟩
  · intro call n now hn
    refine ⟨(h.past call n now hn).1, fun hexp' => ?_⟩
    exact absurd (hexp.symm.trans hexp') Bool.false_ne_true

omit [DecidableEq ρ] in
/-- A mark is entered in the log and comes after everything. -/
theorem Fires.timeNDel (h : Fires s l) {request : ρ} {ptr : ℕ}
    (hp : s.time.timer request = some ptr) (tv : Option Timeval) :
    Fires { s with time := { s.time.timeUpdate tv with
        deleted := Function.update (s.time.timeUpdate tv).deleted ptr true } }
      { l with actions := l.actions ++ [.marked ptr] } := by
  have hcalled : ∀ call (n : TimeNode ρ H) now,
      TimerAction.called call n now ∈ l.actions ++ [.marked ptr] →
        TimerAction.called call n now ∈ l.actions := by
    intro call n now hn
    rcases Log.mem_concat.mp hn with hn | hn
    · exact hn
    · cases hn
  have hsound := h.sound.timeUpdate tv
  refine ⟨⟨hsound.ordered, hsound.nodup, hsound.lt_next, hsound.timer_lt⟩, ?_, ?_, ?_, ?_, ?_⟩
  · refine Log.pairwise_concat.mpr ⟨h.pairwise, fun a _ => ?_⟩
    cases a <;> trivial
  · exact fun call n now hn => h.due call n now (hcalled call n now hn)
  · intro p hm
    rw [Time.deleted_timeUpdate]
    show Function.update s.time.deleted ptr true p = true ∧ p < (s.time.timeUpdate tv).next
    rw [Time.next_timeUpdate]
    by_cases hpp : p = ptr
    · rw [hpp, Function.update_self]
      exact ⟨rfl, h.sound.timer_lt request ptr hp⟩
    · rw [Function.update_of_ne hpp]
      rcases Log.mem_concat.mp hm with hm | hm
      · exact h.marks p hm
      · cases hm
        exact absurd rfl hpp
  · intro call n now hn
    show n.ptr < (s.time.timeUpdate tv).next ∧ n.ptr ∉ (s.time.timeUpdate tv).pq.nodes.map _
    rw [Time.next_timeUpdate, Time.pq_timeUpdate]
    exact h.gone call n now (hcalled call n now hn)
  · intro call n now hn
    show call ≤ l.calls ∧ (s.expiring = true → call = l.calls →
      ∀ x ∈ (s.time.timeUpdate tv).pq.nodes, n.key ≤ x.key)
    rw [Time.pq_timeUpdate]
    exact h.past call n now (hcalled call n now hn)

omit [DecidableEq ρ] in
/-- Reading the clock changes nothing the log is about. -/
theorem Fires.timeUpdate (h : Fires s l) (tv : Option Timeval) (expiring : Bool)
    (hexp : expiring = true → s.expiring = true) :
    Fires ⟨s.time.timeUpdate tv, expiring⟩ l where
  sound := h.sound.timeUpdate tv
  pairwise := h.pairwise
  due := h.due
  marks := by
    rw [Time.deleted_timeUpdate, Time.next_timeUpdate]
    exact h.marks
  gone := by
    rw [Time.next_timeUpdate, Time.pq_timeUpdate]
    exact h.gone
  past call n now hn := by
    obtain ⟨hc, hkey⟩ := h.past call n now hn
    rw [Time.pq_timeUpdate]
    exact ⟨hc, fun he => hkey (hexp he)⟩

omit [DecidableEq ρ] in
/-- Popping the top leaves fewer nodes to be in order with. -/
theorem Fires.pop (h : Fires s l) (hs : 1 ≤ s.time.pq.size) (tv : Option Timeval)
    (hexp : s.expiring = true) :
    Fires ⟨{ s.time.timeUpdate tv with pq := s.time.pq.pqPop TimeNode.key }, true⟩ l := by
  obtain ⟨hsound, hnodes, -⟩ := h.sound.pop hs tv
  have hupd := h.timeUpdate tv true fun _ => hexp
  refine ⟨hsound, h.pairwise, h.due, hupd.marks, fun call n now hn => ?_, fun call n now hn => ?_⟩
  · obtain ⟨hlt, hgone⟩ := hupd.gone call n now hn
    rw [Time.pq_timeUpdate, hnodes, Multiset.map_cons, Multiset.mem_cons, not_or] at hgone
    exact ⟨hlt, hgone.2⟩
  · obtain ⟨hc, hkey⟩ := h.past call n now hn
    exact ⟨hc, fun _ hcall x hx => hkey hexp hcall x (hnodes ▸ Multiset.mem_cons_of_mem hx)⟩

omit [DecidableEq ρ] in
/-- **A call of a handler** is entered in the log. Its node was not marked, is
due, and leaves the heap; and it was at the top, so the calls stay in order. -/
theorem Fires.called (h : Fires s l) {tv : Option Timeval} (hexp : s.expiring = true)
    (hdue : s.time.Due tv) :
    Fires ⟨{ s.time.timeUpdate tv with pq := s.time.pq.pqPop TimeNode.key }, true⟩
      { l with actions := l.actions
        ++ [.called l.calls s.time.pq.pqFront (s.time.timeUpdate tv).currentTime] } := by
  obtain ⟨hs, hmark, hkey⟩ := hdue
  have hpop := h.pop hs tv hexp
  obtain ⟨-, hnodes, hout⟩ := h.sound.pop hs tv
  have hfront : s.time.pq.pqFront ∈ s.time.pq.nodes := PriorityQueue.pqFront_mem hs
  refine ⟨hpop.sound, ?_, ?_, ?_, ?_, ?_⟩
  · refine Log.pairwise_concat.mpr ⟨h.pairwise, fun a ha => ?_⟩
    cases a with
    | marked ptr =>
      show ptr ≠ s.time.pq.pqFront.ptr
      rintro rfl
      exact Bool.false_ne_true (hmark.symm.trans (h.marks _ ha).1)
    | called call n now =>
      refine ⟨fun hptr => ?_, fun hcall => (h.past call n now ha).2 hexp hcall _ hfront⟩
      exact (h.gone call n now ha).2 (Multiset.mem_map.mpr ⟨_, hfront, hptr.symm⟩)
  · intro call n now hn
    rcases Log.mem_concat.mp hn with hn | hn
    · exact h.due call n now hn
    · cases hn
      exact hkey
  · intro ptr hm
    rcases Log.mem_concat.mp hm with hm | hm
    · exact hpop.marks ptr hm
    · cases hm
  · intro call n now hn
    rcases Log.mem_concat.mp hn with hn | hn
    · exact hpop.gone call n now hn
    · cases hn
      refine ⟨?_, hout⟩
      show _ < (s.time.timeUpdate tv).next
      rw [Time.next_timeUpdate]
      exact h.sound.lt_next _ hfront
  · intro call n now hn
    rcases Log.mem_concat.mp hn with hn | hn
    · exact hpop.past call n now hn
    · cases hn
      refine ⟨Nat.le_refl _, fun _ _ x hx => ?_⟩
      exact PriorityQueue.pqFront_le h.sound.ordered (hnodes ▸ Multiset.mem_cons_of_mem hx)

/-- **Every step keeps the log true.** -/
theorem Fires.step (h : Fires s l) {e : TimersEvent ρ H} (hs : s.step e = some s') :
    Fires s' (record s e l) := by
  cases e with
  | timeNAdd request timeout handler tv =>
    obtain ⟨⟨hexp, -⟩, hs⟩ := Option.ite_none_right_eq_some.mp hs
    cases hs
    exact h.timeNAdd hexp request timeout handler tv
  | timeNDel request tv =>
    obtain ⟨-, hs⟩ := Option.ite_none_right_eq_some.mp hs
    obtain ⟨time, htime, hs⟩ := Option.map_eq_some_iff.mp hs
    cases hs
    obtain ⟨ptr, hptr, ht⟩ := Option.map_eq_some_iff.mp htime
    rw [record, hptr, ← ht]
    exact h.timeNDel hptr tv
  | handleExpire =>
    obtain ⟨-, hs⟩ := Option.ite_none_right_eq_some.mp hs
    cases hs
    refine ⟨h.sound, h.pairwise, h.due, h.marks, h.gone, fun call n now hn => ?_⟩
    have hle := (h.past call n now hn).1
    refine ⟨Nat.le_succ_of_le hle, fun _ hcall => ?_⟩
    exact absurd hle (by rw [hcall]; exact Nat.not_succ_le_self _)
  | turn tv =>
    obtain ⟨hexp, hs⟩ := Option.ite_none_right_eq_some.mp hs
    rcases s.time.expireTurn_cases tv with ⟨-, ht⟩ | ⟨-, -, -, ht⟩ | ⟨hsize, -, ht⟩ | ⟨hdue, ht⟩
    · rw [ht] at hs
      cases hs
      rw [record, ht]
      exact h.timeUpdate none false fun hf => absurd hf Bool.false_ne_true
    · rw [ht] at hs
      cases hs
      rw [record, ht]
      exact h.timeUpdate tv false fun hf => absurd hf Bool.false_ne_true
    · rw [ht] at hs
      cases hs
      rw [record, ht]
      exact h.pop hsize tv hexp
    · rw [ht] at hs
      cases hs
      rw [record, ht]
      show Fires _ (if _ then _ else _)
      split
      · exact h.called hexp hdue
      · exact h.pop hdue.1 tv hexp

end Fires

/-- **The timers fire right.** In every run of additions, deletions and calls
of `handle_expire_time_ns`: no handler is called after its node was marked or a
second time, and those of one call come in the order of their keys; none is
called before `current_time` has reached the key; and when a call returns,
every node left in the heap is marked, or has a key above `current_time`, which
is the last reading of the clock. -/
theorem fires_right {heap : ℕ → TimeNode ρ H} {c : ℕ} {tr : List (TimersEvent ρ H)}
    {s : TimerRun ρ H}
    (h : (machine heap c).exec (machine heap c).init tr = some s) :
    ((log heap c tr).actions.Pairwise TimerAction.MayPrecede
        ∧ ∀ call n now, .called call n now ∈ (log heap c tr).actions → n.key ≤ now)
      ∧ ∀ tv s', s.step (.turn tv) = some s' → s'.expiring = false →
          ∀ n ∈ s'.time.pq.nodes, s'.time.deleted n.ptr = false →
            s'.time.currentTime < n.key
              ∧ ∀ r, tv = some r → s'.time.currentTime = r.millis % 2 ^ 64 := by
  have hfires : Fires s (log heap c tr) := by
    refine Machine.history_invariant (M := machine heap c) (fires_new heap c) ?_ h
    exact fun _ t e t' l _ hs ih => ih.step hs
  refine ⟨⟨hfires.pairwise, hfires.due⟩, fun tv s' hs hret n hn hmark => ?_⟩
  obtain ⟨-, hs⟩ := Option.ite_none_right_eq_some.mp hs
  rcases s.time.expireTurn_cases tv with ⟨hsize, ht⟩ | ⟨hsize, -, hkey, ht⟩ | ⟨-, -, ht⟩
    | ⟨-, ht⟩
  · -- there is no node in an empty heap
    rw [ht] at hs
    cases hs
    obtain ⟨i, hi, -⟩ := BinaryHeap.mem_contents.mp hn
    have hi' : i ≤ s.time.pq.size := hi.2
    omega
  · rw [ht] at hs
    cases hs
    have hn' : n ∈ s.time.pq.nodes := by
      rwa [← Time.pq_timeUpdate s.time tv]
    refine ⟨lt_of_lt_of_le hkey (PriorityQueue.pqFront_le hfires.sound.ordered hn'), ?_⟩
    rintro r rfl
    rfl
  · rw [ht] at hs
    cases hs
    cases hret
  · rw [ht] at hs
    cases hs
    cases hret

/-- Three timers, of which the second is marked. At 600 ms it is passed over and
the first one fires; the call returns at 650 ms, before the third one. -/
theorem fires_right_three :
    ∃ s s' : TimerRun ℕ Unit,
      (machine (fun _ => ⟨0, 0, none, 0⟩) 0).exec (machine (fun _ => ⟨0, 0, none, 0⟩) 0).init
          [.timeNAdd 1 500 (some ()) (some ⟨0, 0, by decide⟩),
            .timeNAdd 2 100 (some ()) (some ⟨0, 0, by decide⟩),
            .timeNAdd 3 900 (some ()) (some ⟨0, 0, by decide⟩),
            .timeNDel 2 (some ⟨0, 50000, by decide⟩), .handleExpire,
            .turn (some ⟨0, 600000, by decide⟩), .turn (some ⟨0, 600000, by decide⟩)] = some s
        ∧ s.step (.turn (some ⟨0, 650000, by decide⟩)) = some s' ∧ s'.expiring = false
        ∧ s'.time.currentTime = 650 ∧ s'.time.pq.size = 1
        ∧ ∀ n ∈ s'.time.pq.nodes, s'.time.deleted n.ptr = false → 650 < n.key := by
  have hrun : (((machine (fun _ => ⟨0, 0, none, 0⟩) 0).exec
      (machine (fun _ => ⟨0, 0, none, 0⟩) 0).init
        [.timeNAdd 1 500 (some ()) (some ⟨0, 0, by decide⟩),
          .timeNAdd 2 100 (some ()) (some ⟨0, 0, by decide⟩),
          .timeNAdd 3 900 (some ()) (some ⟨0, 0, by decide⟩),
          .timeNDel 2 (some ⟨0, 50000, by decide⟩), .handleExpire,
          .turn (some ⟨0, 600000, by decide⟩),
          .turn (some ⟨0, 600000, by decide⟩)]).map fun s : TimerRun ℕ Unit =>
      (s.step (.turn (some ⟨0, 650000, by decide⟩))).map fun s' =>
        (s'.expiring, s'.time.currentTime, s'.time.pq.size)) = some (some (false, 650, 1)) := by
    decide +kernel
  obtain ⟨s, hs, hrest⟩ := Option.map_eq_some_iff.mp hrun
  obtain ⟨s', hs', hend⟩ := Option.map_eq_some_iff.mp hrest
  simp only [Prod.mk.injEq] at hend
  obtain ⟨hexp, hnow, hsize⟩ := hend
  refine ⟨s, s', hs, hs', hexp, hnow, hsize, fun n hn hmark => ?_⟩
  have hlt := ((fires_right hs).2 _ s' hs' hexp n hn hmark).1
  omega

end TimerRun

end Version1
