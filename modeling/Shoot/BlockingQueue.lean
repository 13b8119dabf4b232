import Shoot.Machine

/-!
# The blocking queue

A `BlockingQueue` is a deque behind a mutex. `put` appends at the back, and
`get` waits until there is an element, moves the one at the front out, and
drops the one at the back. What is moved from stays at the front, in whatever
state the move left it.

Front and back are the same element only when there is just one.
`QueueTraffic.in_order_iff` says when the queue cannot be told from one that drops
the element it returns: when, at each `get`, all the elements behind the front
are equal to what the move leaves there. Where a move leaves the value as it
is, the element put first is returned twice, and the last one is lost
(`QueueTraffic.returned_twice`).
-/

/-- **A `BlockingQueue`** of elements in `T`, without its mutex and condition
variable. -/
structure BlockingQueue (T : Type*) where
  /-- `queue_`, a `std::deque`. -/
  queue : List T
deriving DecidableEq, Repr

namespace BlockingQueue

variable {T : Type*}

/-- The constructor. -/
def new : BlockingQueue T := ⟨[]⟩

/-- `put(v)`, either of the two: the element at the back is equal to `v`. -/
def put (q : BlockingQueue T) (v : T) : BlockingQueue T := ⟨q.queue ++ [v]⟩

/-- `size()`. -/
def size (q : BlockingQueue T) : ℕ := q.queue.length

/-- **`get()`**: the element that is returned, and the queue after it; `none`
while it waits. The parameter `moved` is what a move leaves of an element. -/
def get (moved : T → T) (q : BlockingQueue T) : Option (T × BlockingQueue T) :=
  match q.queue with
  | [] => none
  | front :: rest => some (front, ⟨(moved front :: rest).dropLast⟩)

variable {moved : T → T} {q : BlockingQueue T} {x : T} {l : List T}

/-- A `get` that returns, returns the front. -/
theorem get_eq_some {r : T × BlockingQueue T} :
    q.get moved = some r
      ↔ ∃ rest, q.queue = r.1 :: rest ∧ r.2.queue = (moved r.1 :: rest).dropLast := by
  obtain ⟨queue⟩ := q
  obtain ⟨x, ⟨queue'⟩⟩ := r
  cases queue with
  | nil => simp [get]
  | cons front rest =>
    rw [get, Option.some.injEq, Prod.mk.injEq, mk.injEq]
    constructor
    · rintro ⟨rfl, rfl⟩
      exact ⟨rest, rfl, rfl⟩
    · rintro ⟨_, hq, hq'⟩
      obtain ⟨rfl, rfl⟩ := List.cons.inj hq
      exact ⟨rfl, hq'.symm⟩

/-- A `get` takes one element away. -/
theorem size_of_get {r : T × BlockingQueue T} (h : q.get moved = some r) :
    r.2.size + 1 = q.size := by
  obtain ⟨rest, hq, hq'⟩ := get_eq_some.mp h
  unfold size
  rw [hq, hq', List.length_dropLast, List.length_cons, List.length_cons, Nat.add_sub_cancel]

/-- Dropping the last of some elements is dropping the first one when all the
others are equal to it. -/
theorem dropLast_cons_eq : (x :: l).dropLast = l ↔ ∀ y ∈ l, y = x := by
  induction l with
  | nil => exact iff_of_true rfl fun y hy => absurd hy List.not_mem_nil
  | cons a l ih =>
    rw [List.dropLast_cons_cons, List.cons.injEq, List.forall_mem_cons]
    constructor
    · rintro ⟨rfl, h⟩
      exact ⟨rfl, ih.mp h⟩
    · rintro ⟨rfl, h⟩
      exact ⟨rfl, ih.mpr h⟩

end BlockingQueue

/-! ## What is put and what is returned -/

/-- **A queue and what went through it.** -/
structure QueueTraffic (T : Type*) where
  queue : BlockingQueue T
  /-- The elements that were put, in order. -/
  put : List T
  /-- The elements that were returned, in order. -/
  returned : List T
deriving DecidableEq, Repr

/-- The operations that change a queue. -/
inductive BlockingEvent (T : Type*) where
  | put (v : T)
  | get
deriving DecidableEq, Repr

namespace QueueTraffic

variable {T : Type*} (moved : T → T)

/-- One operation. -/
def step (s : QueueTraffic T) : BlockingEvent T → Option (QueueTraffic T)
  | .put v => some { s with queue := s.queue.put v, put := s.put ++ [v] }
  | .get => (s.queue.get moved).map fun r =>
      { s with queue := r.2, returned := s.returned ++ [r.1] }

/-- **A new queue, and the operations on it**, in the order in which they hold
the mutex. -/
def machine : Machine (QueueTraffic T) (BlockingEvent T) := ⟨⟨.new, [], []⟩, step moved⟩

/-- **First in, first out**: the elements put are those returned and, behind
them, those in the queue. -/
def Fifo (s : QueueTraffic T) : Prop := s.returned ++ s.queue.queue = s.put

/-- The elements behind the front are equal to what a `get` leaves at the
front. -/
def LeavesRest (s : QueueTraffic T) (e : BlockingEvent T) : Prop :=
  e = .get → ∀ x ∈ s.queue.queue.head?, ∀ y ∈ s.queue.queue.tail, y = moved x

instance [DecidableEq T] (s : QueueTraffic T) (e : BlockingEvent T) :
    Decidable (s.LeavesRest moved e) :=
  inferInstanceAs (Decidable (e = .get → ∀ x ∈ s.queue.queue.head?,
    ∀ y ∈ s.queue.queue.tail, y = moved x))

variable {moved} {s s' : QueueTraffic T} {tr : List (BlockingEvent T)}

/-- What a `get` does, with an element at the front. -/
theorem step_get (h : step moved s .get = some s') :
    ∃ x rest, s.queue.queue = x :: rest ∧ s'.queue.queue = (moved x :: rest).dropLast
      ∧ s'.put = s.put ∧ s'.returned = s.returned ++ [x] := by
  obtain ⟨r, hr, hs⟩ := Option.map_eq_some_iff.mp h
  obtain ⟨rest, hq, hq'⟩ := BlockingQueue.get_eq_some.mp hr
  subst hs
  exact ⟨r.1, rest, hq, hq', rfl, rfl⟩

/-- **No element is returned without one being dropped**: as many as were put
are returned or in the queue. -/
theorem length_put (h : (machine moved).exec (machine moved).init tr = some s) :
    s.returned.length + s.queue.size = s.put.length := by
  refine Machine.exec_invariant
    (I := fun s : QueueTraffic T => s.returned.length + s.queue.size = s.put.length) ?_ h rfl
  intro s e s' hlen hs
  cases e with
  | put v =>
    cases hs
    show s.returned.length + (s.queue.queue ++ [v]).length = (s.put ++ [v]).length
    rw [List.length_append, List.length_append, ← Nat.add_assoc]
    exact congrArg (· + 1) hlen
  | get =>
    obtain ⟨r, hr, hs⟩ := Option.map_eq_some_iff.mp hs
    cases hs
    have hsize := BlockingQueue.size_of_get hr
    show (s.returned ++ [r.1]).length + r.2.size = s.put.length
    rw [List.length_append, List.length_singleton]
    omega

/-- A `put` keeps the order. -/
theorem Fifo.put (h : s.Fifo) (v : T) :
    Fifo { s with queue := s.queue.put v, put := s.put ++ [v] } := by
  show s.returned ++ (s.queue.queue ++ [v]) = s.put ++ [v]
  rw [← List.append_assoc, h]

/-- **A `get` keeps the order if and only if the elements behind the front are
equal to what it leaves there.** -/
theorem Fifo.get_iff (h : s.Fifo) (hs : step moved s .get = some s') :
    s'.Fifo ↔ s.LeavesRest moved .get := by
  obtain ⟨x, rest, hq, hq', hput, hret⟩ := step_get hs
  have hbefore : s.put = s.returned ++ ([x] ++ rest) := by
    rw [← h, hq, List.singleton_append]
  have hrest : s.LeavesRest moved .get ↔ ∀ y ∈ rest, y = moved x := by
    unfold LeavesRest
    rw [hq]
    exact ⟨fun h => h rfl x rfl, fun h _ z hz => by cases hz; exact h⟩
  unfold Fifo
  rw [hret, hq', hput, hbefore, ← List.append_assoc s.returned, List.append_cancel_left_eq,
    BlockingQueue.dropLast_cons_eq, hrest]

/-- **When the queue is first in, first out.** In every run, the elements put
are those returned and those in the queue at every moment if and only if, at
each `get`, the elements behind the front are equal to what it leaves there. -/
theorem in_order_iff (hrun : (machine moved).exec (machine moved).init tr = some s) :
    (∀ tr' t, tr' <+: tr → (machine moved).exec (machine moved).init tr' = some t → t.Fifo)
      ↔ (machine moved).Along (LeavesRest moved) (machine moved).init tr := by
  refine Machine.forall_prefix_iff_along ?_ ?_ hrun
  · intro tr t ht hk
    refine hk.invariant (fun s e s' hfifo he hs => ?_) ht rfl
    cases e with
    | put v =>
      cases hs
      exact hfifo.put v
    | get => exact (hfifo.get_iff hs).mpr he
  · intro tr t e t' _ hs hfifo hfifo'
    cases e with
    | put v => exact nofun
    | get => exact (hfifo.get_iff hs).mp hfifo'

/-- Two elements that are returned before the next one is put. -/
theorem in_order_iff_one :
    ∃ s : QueueTraffic ℕ, (machine id).exec (machine id).init
        [.put 5, .get, .put 7, .get] = some s
      ∧ s.Fifo ∧ s.returned = [5, 7] := by
  have hrun : (machine (id : ℕ → ℕ)).exec (machine id).init [.put 5, .get, .put 7, .get]
      = some _ := rfl
  have hall := (in_order_iff hrun).mpr (by decide)
  exact ⟨_, hrun, hall _ _ (List.prefix_refl _) hrun, rfl⟩

/-- **The element put first is returned twice**, and the second one never, where
a move is a copy. -/
theorem returned_twice :
    ∃ s : QueueTraffic ℕ, (machine id).exec (machine id).init
        [.put 1, .put 2, .get, .get] = some s
      ∧ s.put = [1, 2] ∧ s.returned = [1, 1] ∧ ¬ s.Fifo :=
  ⟨_, rfl, rfl, rfl, by unfold Fifo; decide⟩

end QueueTraffic
