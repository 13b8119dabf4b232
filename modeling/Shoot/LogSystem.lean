import Shoot.AsyncLoggingFlush
import Shoot.Logger
import Shoot.Records

/-!
# The log, from the statement to the file

`LOG << …` makes a `Logger`, inserts into its stream, and destroys it; the destructor
passes the line to `output`, which makes the `AsyncLogging` of the program with
`pthread_once`, if that was not done, and appends the line to it. Threads do this at
the same time. A logger is on the stack of its thread, so only `output` brings the
threads together: one of them executes `once_init`, which waits for the consumer
thread to come up, and those that come to `pthread_once` before it is done wait for
it. The `AsyncLogging` is never deleted, so it is never stopped.

The machine of this module puts the two models together, `Logger` and `AsyncLogging`:
what happens to the logger is a run of `AsyncLogging.machine` (`Kept.exec`), and the
messages appended in it are the lines of the loggers, those of each thread in the
order of its statements (`Kept.order`). The line buffer is shorter than the buffers
of the logger, so what was shown for short messages holds of all of them.

`LogSystem.log_file` is the result, about the log with its file below: what the last
flush covered are whole lines, as long as no call of stdio fails. If the loggers had room,
and a newline is in none of their messages, then the file can be read back at any time, up
to a line that stdio has not written whole (`LogSystem.read_back`). And no thread is held
up for good (`LogSystem.completes`).
-/

/-- The state of `thread_run_once`. -/
inductive OnceState where
  | never
  /-- A thread is in `once_init`. -/
  | running
  | done
deriving DecidableEq, Repr

/-- **What a thread is doing with the log.** -/
inductive LogPhase where
  /-- No statement is under way. -/
  | idle
  /-- The logger of the statement is constructed. -/
  | building (lg : Logger)
  /-- In `output(msg, len)`, before `pthread_once`. -/
  | once (msg : Msg)
  /-- In `once_init`, at the latch. -/
  | starting (msg : Msg)
  /-- Past `pthread_once`, before `async_log->append(msg, len)`. -/
  | append (msg : Msg)

/-- The line that was passed to `output` and is not appended yet. -/
def LogPhase.inHand : LogPhase → Option Msg
  | .once msg | .starting msg | .append msg => some msg
  | _ => none

/-- The events of the log: who moves, and what it finds. -/
inductive LogSystemEvent (T F D L : Type*) where
  /-- The constructor of a logger, with what the memory holds and the text of the
  time. -/
  | construct (t : T) (data : ℕ → UInt8) (time fileName : List UInt8) (line : Int32)
  /-- `<<`. -/
  | insert (t : T) (x : Insertion F D L)
  /-- The destructor, up to the call of `output`. -/
  | destroy (t : T)
  /-- `pthread_once`; the thread that executes `once_init` starts the logger. -/
  | once (t : T)
  /-- The end of `once_init`. -/
  | started (t : T)
  /-- The critical section of `append`. -/
  | append (t : T)
  /-- The consumer executes its next statement. -/
  | consumer
  /-- The consumer's wait ends. -/
  | wake (how : WaitEnd)

/-- **The log of a program**: its threads, and the logger behind `async_log`, from its
construction in `once_init` on. -/
structure LogSystem (T : Type*) where
  threads : T → LogPhase
  /-- `thread_run_once`. -/
  once : OnceState
  log : AsyncLogging

namespace LogSystem

variable {T F D L : Type*} [DecidableEq T]

/-- A thread goes on. -/
def goto (s : LogSystem T) (t : T) (phase : LogPhase) : LogSystem T :=
  { s with threads := Function.update s.threads t phase }

/-- The latch that `start` waits for was counted down. -/
def Started (s : AsyncLogging) : Prop := s.pc ≠ .notStarted ∧ s.pc ≠ .entry

instance : DecidablePred Started := fun _ => inferInstanceAs (Decidable (_ ∧ _))

/-- One event of the log. A line that was stored outside its buffer is undefined, and
nothing follows. -/
def step (fl : FloatText F D L) (s : LogSystem T) :
    LogSystemEvent T F D L → Option (LogSystem T)
  | .construct t data time fileName line =>
    match s.threads t with
    | .idle => some (s.goto t (.building (.new fl data time fileName line)))
    | _ => none
  | .insert t x =>
    match s.threads t with
    | .building lg => some (s.goto t (.building (lg.insertAll fl [x])))
    | _ => none
  | .destroy t =>
    match s.threads t with
    | .building lg => (lg.output fl).map fun msg => s.goto t (.once msg)
    | _ => none
  | .once t =>
    match s.threads t, s.once with
    | .once msg, .never =>
      (s.log.step .start).map fun log =>
        { s.goto t (.starting msg) with once := .running, log := log }
    | .once msg, .done => some (s.goto t (.append msg))
    | _, _ => none
  | .started t =>
    match s.threads t with
    | .starting msg =>
      if Started s.log then some { s.goto t (.append msg) with once := .done } else none
    | _ => none
  | .append t =>
    match s.threads t with
    | .append msg =>
      (s.log.step (.append msg)).map fun log => { s.goto t .idle with log := log }
    | _ => none
  | .consumer => (s.log.step .consumer).map fun log => { s with log := log }
  | .wake how => (s.log.step (.wake how)).map fun log => { s with log := log }

/-- **The log**, as a machine. No statement was executed. -/
def machine (T : Type*) [DecidableEq T] (fl : FloatText F D L) :
    Machine (LogSystem T) (LogSystemEvent T F D L) :=
  ⟨⟨fun _ => .idle, .never, .new⟩, step fl⟩

end LogSystem

/-! ## What a run has done -/

/-- **The past of a run**: the loggers that were destroyed and the lines that were
appended, in this order, with their threads; and what happened to the logger. -/
structure LogBook (T : Type*) where
  finished : List (T × Logger)
  written : List (T × Msg)
  events : List LogEvent

namespace LogSystem

variable {T F D L : Type*} [DecidableEq T]

/-- An event is put down. -/
def record (s : LogSystem T) (e : LogSystemEvent T F D L) (B : LogBook T) : LogBook T :=
  match e with
  | .destroy t =>
    match s.threads t with
    | .building lg => { B with finished := B.finished ++ [(t, lg)] }
    | _ => B
  | .once _ => if s.once = .never then { B with events := B.events ++ [.start] } else B
  | .append t =>
    match s.threads t with
    | .append msg =>
      { B with written := B.written ++ [(t, msg)], events := B.events ++ [.append msg] }
    | _ => B
  | .consumer => { B with events := B.events ++ [.consumer] }
  | .wake how => { B with events := B.events ++ [.wake how] }
  | _ => B

/-- The past of a run from the beginning. -/
def book (fl : FloatText F D L) (tr : List (LogSystemEvent T F D L)) : LogBook T :=
  (machine T fl).history record (machine T fl).init ⟨[], [], []⟩ tr

/-- **What an event can do**, with what is put down, one constructor per transition. -/
inductive Moves (fl : FloatText F D L) (s : LogSystem T) (B : LogBook T) :
    LogSystemEvent T F D L → LogSystem T → LogBook T → Prop where
  | construct (t : T) (data : ℕ → UInt8) (time fileName : List UInt8) (line : Int32)
      (h : s.threads t = .idle) :
      Moves fl s B (.construct t data time fileName line)
        (s.goto t (.building (.new fl data time fileName line))) B
  | insert (t : T) (x : Insertion F D L) (lg : Logger) (h : s.threads t = .building lg) :
      Moves fl s B (.insert t x) (s.goto t (.building (lg.insertAll fl [x]))) B
  | destroy (t : T) (lg : Logger) (msg : Msg) (h : s.threads t = .building lg)
      (hout : lg.output fl = some msg) :
      Moves fl s B (.destroy t) (s.goto t (.once msg))
        { B with finished := B.finished ++ [(t, lg)] }
  | init (t : T) (msg : Msg) (log : AsyncLogging) (h : s.threads t = .once msg)
      (honce : s.once = .never) (hlog : s.log.step .start = some log) :
      Moves fl s B (.once t) { s.goto t (.starting msg) with once := .running, log := log }
        { B with events := B.events ++ [.start] }
  | pass (t : T) (msg : Msg) (h : s.threads t = .once msg) (honce : s.once = .done) :
      Moves fl s B (.once t) (s.goto t (.append msg)) B
  | started (t : T) (msg : Msg) (h : s.threads t = .starting msg) (hlog : Started s.log) :
      Moves fl s B (.started t) { s.goto t (.append msg) with once := .done } B
  | append (t : T) (msg : Msg) (log : AsyncLogging) (h : s.threads t = .append msg)
      (hlog : s.log.step (.append msg) = some log) :
      Moves fl s B (.append t) { s.goto t .idle with log := log }
        { B with written := B.written ++ [(t, msg)], events := B.events ++ [.append msg] }
  | consumer (log : AsyncLogging) (hlog : s.log.step .consumer = some log) :
      Moves fl s B .consumer { s with log := log } { B with events := B.events ++ [.consumer] }
  | wake (how : WaitEnd) (log : AsyncLogging) (hlog : s.log.step (.wake how) = some log) :
      Moves fl s B (.wake how) { s with log := log }
        { B with events := B.events ++ [.wake how] }

variable {fl : FloatText F D L} {s s' : LogSystem T} {e : LogSystemEvent T F D L}
  {B B' : LogBook T}

/-- **A step is one of the transitions.** -/
theorem Moves.of_step (B : LogBook T) (h : (machine T fl).step s e = some s') :
    Moves fl s B e s' (record s e B) := by
  change step fl s e = some s' at h
  unfold step at h
  unfold record
  cases e with
  | construct t data time fileName line =>
    dsimp only at h
    split at h
    · next ht =>
      cases h
      exact .construct t data time fileName line ht
    · cases h
  | insert t x =>
    dsimp only at h
    split at h
    · next lg ht =>
      cases h
      exact .insert t x lg ht
    · cases h
  | destroy t =>
    dsimp only at h ⊢
    split at h
    · next lg ht =>
      obtain ⟨msg, hout, rfl⟩ := Option.map_eq_some_iff.mp h
      exact .destroy t lg msg ht hout
    · cases h
  | once t =>
    dsimp only at h ⊢
    split at h
    · next msg ht honce =>
      obtain ⟨log, hlog, rfl⟩ := Option.map_eq_some_iff.mp h
      rw [if_pos honce]
      exact .init t msg log ht honce hlog
    · next msg ht honce =>
      cases h
      rw [if_neg (by rw [honce]; decide)]
      exact .pass t msg ht honce
    · cases h
  | started t =>
    dsimp only at h
    split at h
    · next msg ht =>
      obtain ⟨hlog, h⟩ := Option.ite_none_right_eq_some.mp h
      cases h
      exact .started t msg ht hlog
    · cases h
  | append t =>
    dsimp only at h ⊢
    split at h
    · next msg ht =>
      obtain ⟨log, hlog, rfl⟩ := Option.map_eq_some_iff.mp h
      exact .append t msg log ht hlog
    · cases h
  | consumer =>
    obtain ⟨log, hlog, rfl⟩ := Option.map_eq_some_iff.mp h
    exact .consumer log hlog
  | wake how =>
    obtain ⟨log, hlog, rfl⟩ := Option.map_eq_some_iff.mp h
    exact .wake how log hlog

/-! ## The logger, and the order of the lines -/

/-- What a thread put into a list. -/
def of {α : Type*} (t : T) (l : List (T × α)) : List α :=
  (l.filter fun p => p.1 = t).map Prod.snd

@[simp] theorem of_append {α : Type*} (t : T) (l l' : List (T × α)) :
    of t (l ++ l') = of t l ++ of t l' := by
  rw [of, List.filter_append, List.map_append]
  rfl

theorem of_singleton {α : Type*} (t u : T) (a : α) :
    of t [(u, a)] = if u = t then [a] else [] := by
  unfold of
  by_cases h : u = t
  · rw [if_pos h, List.filter_cons_of_pos (by simpa using h)]
    rfl
  · rw [if_neg h, List.filter_cons_of_neg (by simpa using h)]
    rfl

theorem mem_of {α : Type*} {t : T} {l : List (T × α)} {a : α} : a ∈ of t l ↔ (t, a) ∈ l := by
  unfold of
  rw [List.mem_map]
  constructor
  · rintro ⟨⟨u, b⟩, hb, rfl⟩
    obtain ⟨hmem, hu⟩ := List.mem_filter.mp hb
    exact of_decide_eq_true hu ▸ hmem
  · intro h
    exact ⟨(t, a), List.mem_filter.mpr ⟨h, decide_eq_true rfl⟩, rfl⟩

/-- The logger of a stream that was never stored outside its array is sound. -/
def Tidy (lg : Logger) : Prop :=
  (∀ i ∈ lg.stream.written, i < smallBuffer) → lg.stream.Sound

/-- **What is kept of the past**: the logger is where its own events lead, it was given
the lines that were appended and was not stopped, and the lines of a thread are those of
its loggers, in this order. -/
structure Kept (fl : FloatText F D L) (s : LogSystem T) (B : LogBook T) : Prop where
  exec : AsyncLogging.machine.exec AsyncLogging.machine.init B.events = some s.log
  appended : AsyncLogging.appended B.events = B.written.map Prod.snd
  notStopped : LogEvent.stop ∉ B.events
  order : ∀ t, (of t B.finished).map (·.output fl)
    = (of t B.written ++ (s.threads t).inHand.toList).map some
  building : ∀ t lg, s.threads t = .building lg → Tidy lg
  finished : ∀ p ∈ B.finished, p.2.stream.Sound

/-- A thread goes on, and the others stay where they are. -/
theorem threads_goto (s : LogSystem T) (t u : T) (phase : LogPhase) :
    (s.goto t phase).threads u = if t = u then phase else s.threads u := by
  show Function.update s.threads t phase u = _
  rw [Function.update_apply]
  exact if_congr eq_comm rfl rfl

/-- What a thread has in hand after a step of its own. -/
theorem inHand_goto (s : LogSystem T) (t u : T) (phase : LogPhase) :
    ((s.goto t phase).threads u).inHand
      = if t = u then phase.inHand else (s.threads u).inHand := by
  rw [threads_goto, apply_ite LogPhase.inHand]

/-- The lines of the other threads are left alone. -/
theorem Kept.order_goto (h : Kept fl s B) {t : T} {phase : LogPhase}
    (hphase : phase.inHand = (s.threads t).inHand) (u : T) :
    (of u B.finished).map (·.output fl)
      = (of u B.written ++ ((s.goto t phase).threads u).inHand.toList).map some := by
  have hsame : ((s.goto t phase).threads u).inHand = (s.threads u).inHand := by
    rw [inHand_goto]
    split
    · next htu => rw [hphase, htu]
    · rfl
  rw [hsame]
  exact h.order u

/-- A thread that is building is doing so after a step of another one. -/
theorem Kept.building_goto (h : Kept fl s B) {t : T} {phase : LogPhase}
    (hphase : ∀ lg, phase = .building lg → Tidy lg) (u : T) (lg : Logger)
    (hu : (s.goto t phase).threads u = .building lg) : Tidy lg := by
  rw [threads_goto] at hu
  split at hu
  · exact hphase lg hu
  · exact h.building u lg hu

/-- One more event of the logger. -/
theorem Kept.exec_concat (h : Kept fl s B) {e : LogEvent} {log : AsyncLogging}
    (hlog : s.log.step e = some log) :
    AsyncLogging.machine.exec AsyncLogging.machine.init (B.events ++ [e]) = some log :=
  Machine.exec_concat.mpr ⟨s.log, h.exec, hlog⟩

/-- An event that appends nothing. -/
theorem Kept.appended_concat (h : Kept fl s B) {e : LogEvent}
    (he : AsyncLogging.appended [e] = []) :
    AsyncLogging.appended (B.events ++ [e]) = B.written.map Prod.snd := by
  rw [AsyncLogging.appended_append, he, List.append_nil]
  exact h.appended

/-- An event that does not stop the logger. -/
theorem Kept.notStopped_concat (h : Kept fl s B) {e : LogEvent} (he : LogEvent.stop ≠ e) :
    LogEvent.stop ∉ B.events ++ [e] :=
  fun hmem => (Log.mem_concat.mp hmem).elim h.notStopped he

/-- A logger that was constructed, and one that was inserted into, is tidy. -/
theorem tidy_new (hfl : fl.Short) (data : ℕ → UInt8) (time fileName : List UInt8)
    (line : Int32) : Tidy (Logger.new fl data time fileName line) := by
  intro h
  rw [Logger.stream_new] at h ⊢
  exact LogStream.sound_insert hfl ⟨Nat.zero_lt_succ _, fun i hi => by cases hi⟩ h

theorem Tidy.insertAll (hfl : fl.Short) {lg : Logger} (h : Tidy lg) (xs : List (Insertion F D L)) :
    Tidy (lg.insertAll fl xs) := by
  intro hw
  refine LogStream.sound_insertAll hfl (h fun i hi => hw i ?_) hw
  exact LogStream.written_insertAll hfl _ xs hi

/-- A logger that has a line is sound. -/
theorem Tidy.sound (hfl : fl.Short) {lg : Logger} (h : Tidy lg) {msg : Msg}
    (hout : lg.output fl = some msg) : lg.stream.Sound := by
  obtain ⟨hw, -⟩ := Option.ite_none_right_eq_some.mp hout
  exact h fun i hi => hw i (LogStream.written_insertAll hfl _ _ hi)

/-- Its line is shorter than the array. -/
theorem length_output_lt (hfl : fl.Short) {lg : Logger} (h : lg.stream.Sound) {msg : Msg}
    (hout : lg.output fl = some msg) : msg.length < smallBuffer := by
  obtain ⟨hw, hmsg⟩ := Option.ite_none_right_eq_some.mp hout
  rw [← Option.some.inj hmsg, RawBuffer.length_contents]
  exact (LogStream.sound_insertAll hfl h hw).cur_lt

/-- **A step keeps it.** -/
theorem Kept.moves (hfl : fl.Short) (h : Kept fl s B) (hs : Moves fl s B e s' B') :
    Kept fl s' B' := by
  cases hs with
  | construct t data time fileName line ht =>
    refine { h with order := h.order_goto (by rw [ht]; rfl), building := h.building_goto ?_ }
    rintro lg hlg
    cases hlg
    exact tidy_new hfl data time fileName line
  | insert t x lg ht =>
    refine { h with order := h.order_goto (by rw [ht]; rfl), building := h.building_goto ?_ }
    rintro lg' hlg
    cases hlg
    exact (h.building t lg ht).insertAll hfl [x]
  | destroy t lg msg ht hout =>
    refine { h with
      order := fun u => ?_
      building := h.building_goto (fun lg hlg => by cases hlg)
      finished := fun p hp => ?_ }
    · have horder := h.order u
      simp only [of_append, of_singleton, List.map_append]
      rw [horder, inHand_goto]
      by_cases htu : t = u
      · subst htu
        rw [ht]
        simp [LogPhase.inHand, hout]
      · simp [htu]
    · rcases Log.mem_concat.mp hp with hp | rfl
      · exact h.finished p hp
      · exact (h.building t lg ht).sound hfl hout
  | init t msg log ht honce hlog =>
    exact { h with
      exec := h.exec_concat hlog
      appended := h.appended_concat rfl
      notStopped := h.notStopped_concat (by decide)
      order := h.order_goto (by rw [ht]; rfl)
      building := h.building_goto (fun lg hlg => by cases hlg) }
  | pass t msg ht honce =>
    exact { h with
      order := h.order_goto (by rw [ht]; rfl)
      building := h.building_goto (fun lg hlg => by cases hlg) }
  | started t msg ht hlog =>
    exact { h with
      order := h.order_goto (by rw [ht]; rfl)
      building := h.building_goto (fun lg hlg => by cases hlg) }
  | append t msg log ht hlog =>
    refine { h with
      exec := h.exec_concat hlog
      appended := ?_
      notStopped := h.notStopped_concat (fun he => by cases he)
      order := fun u => ?_
      building := h.building_goto (fun lg hlg => by cases hlg) }
    · rw [AsyncLogging.appended_append, h.appended, List.map_append]
      rfl
    · have horder := h.order u
      rw [show ({ s.goto t .idle with log := log } : LogSystem T).threads
        = (s.goto t .idle).threads from rfl, inHand_goto]
      simp only [of_append, of_singleton]
      rw [horder]
      by_cases htu : t = u
      · subst htu
        rw [ht]
        simp [LogPhase.inHand]
      · simp [htu]
  | consumer log hlog =>
    exact { h with
      exec := h.exec_concat hlog
      appended := h.appended_concat rfl
      notStopped := h.notStopped_concat (by decide) }
  | wake how log hlog =>
    exact { h with
      exec := h.exec_concat hlog
      appended := h.appended_concat rfl
      notStopped := h.notStopped_concat (fun he => by cases he) }

/-- **It is kept along every run.** -/
theorem kept_book (hfl : fl.Short) {tr : List (LogSystemEvent T F D L)}
    (h : (machine T fl).exec (machine T fl).init tr = some s) : Kept fl s (book fl tr) := by
  refine Machine.history_invariant (I := fun s B => Kept fl s B) ?_ ?_ h
  · exact {
      exec := rfl
      appended := rfl
      notStopped := List.not_mem_nil
      order := fun _ => rfl
      building := fun t lg ht => by cases ht
      finished := fun p hp => absurd hp List.not_mem_nil }
  · exact fun tr t e t' B ht hs ih => ih.moves hfl (.of_step B hs)

/-! ## What is in the file -/

/-- The logger of a run keeps its buffers apart. -/
theorem Kept.rotationInv (h : Kept fl s B) : AsyncLogging.RotationInv s.log :=
  AsyncLogging.reachable_rotationInv ⟨B.events, h.exec⟩

/-- Every line that was appended is that of a logger of its thread. -/
theorem Kept.exists_finished (h : Kept fl s B) {t : T} {msg : Msg} (hm : (t, msg) ∈ B.written) :
    ∃ lg, (t, lg) ∈ B.finished ∧ lg.output fl = some msg := by
  have hmem : some msg ∈ (of t B.finished).map (·.output fl) := by
    rw [h.order t]
    exact List.mem_map_of_mem (List.mem_append_left _ (mem_of.mpr hm))
  obtain ⟨lg, hlg, hout⟩ := List.mem_map.mp hmem
  exact ⟨lg, mem_of.mp hlg, hout⟩

/-- The lines are shorter than a buffer of the logger. -/
theorem Kept.length_lt (h : Kept fl s B) (hfl : fl.Short) :
    ∀ msg ∈ AsyncLogging.appended B.events, msg.length < largeBuffer := by
  intro msg hm
  rw [h.appended] at hm
  obtain ⟨⟨t, msg⟩, hmem, rfl⟩ := List.mem_map.mp hm
  obtain ⟨lg, hlg, hout⟩ := h.exists_finished hmem
  exact Nat.lt_trans (length_output_lt hfl (h.finished _ hlg) hout) (by decide)

/-- The past of a run that goes on. -/
theorem book_concat {tr : List (LogSystemEvent T F D L)}
    (h : (machine T fl).exec (machine T fl).init tr = some s)
    (hs : (machine T fl).step s e = some s') : book fl (tr ++ [e]) = record s e (book fl tr) :=
  Machine.history_concat _ h hs _

/-- **If no batch is cut down in a run, none is in the run of the logger.** -/
theorem along_events (hfl : fl.Short) {tr : List (LogSystemEvent T F D L)}
    (h : (machine T fl).exec (machine T fl).init tr = some s)
    (hover : (machine T fl).Along (fun s _ => ¬ s.log.Overflows) (machine T fl).init tr) :
    AsyncLogging.machine.Along (fun s _ => ¬ s.Overflows) AsyncLogging.machine.init
      (book fl tr).events := by
  refine Machine.exec_induction (motive := fun tr _ =>
    (machine T fl).Along (fun s _ => ¬ s.log.Overflows) (machine T fl).init tr →
      AsyncLogging.machine.Along (fun s _ => ¬ s.Overflows) AsyncLogging.machine.init
        (book fl tr).events) (fun _ => Machine.along_nil)
    (fun tr t e t' ht hs ih hover => ?_) h hover
  obtain ⟨hbefore, hlast⟩ := Machine.along_concat.mp hover
  have hlog : ∀ e', AsyncLogging.machine.Along (fun s _ => ¬ s.Overflows)
      AsyncLogging.machine.init ((book fl tr).events ++ [e']) := by
    refine fun e' => Machine.along_concat.mpr ⟨ih hbefore, fun u hu => ?_⟩
    rw [(kept_book hfl ht).exec] at hu
    exact Option.some.inj hu ▸ hlast t ht
  rw [book_concat ht hs]
  have hmoves := Moves.of_step (book fl tr) hs
  generalize record t e (book fl tr) = B' at hmoves ⊢
  cases hmoves with
  | init | append | consumer | wake => exact hlog _
  | _ => exact ih hbefore

/-- What is handed to the `Log2File` are lines that were appended, and what is flushed are
the first of them. -/
theorem exists_handed (hfl : fl.Short) {tr : List (LogSystemEvent T F D L)}
    (h : (machine T fl).exec (machine T fl).init tr = some s) :
    ∃ hs ms : List Msg, s.log.output.handed = hs.flatten ∧ s.log.output.flushed = ms.flatten
      ∧ ms <+: hs ∧ hs.Sublist ((book fl tr).written.map Prod.snd)
      ∧ ((machine T fl).Along (fun s _ => ¬ s.log.Overflows) (machine T fl).init tr →
        hs <+: (book fl tr).written.map Prod.snd) := by
  have hkept := kept_book hfl h
  have hshort := hkept.length_lt hfl
  obtain ⟨ms, hms, hflushed⟩ := AsyncLogging.whole_of_exec hkept.exec hshort
  have hsurvivors := AsyncLogging.prefix_survivors (List.prefix_refl
    (AsyncLogging.ledger (book fl tr).events).handed)
  refine ⟨_, ms, (AsyncLogging.represents_ledger hkept.exec hshort).handed, hflushed, hms, ?_,
    fun hover => ?_⟩
  · rw [← hkept.appended]
    exact hsurvivors.sublist.trans (AsyncLogging.survivors_sublist_appended hkept.exec hshort)
  · rw [← hkept.appended,
      ← AsyncLogging.survivors_eq_appended hkept.exec hshort (along_events hfl h hover)]
    exact hsurvivors

/-- What a step does with the file. -/
def fileOp (s : LogSystem T) : LogSystemEvent T F D L → Option FileOp
  | .consumer => s.log.fileOp .consumer
  | _ => none

/-- The file after a step. -/
theorem output_of_step (hfl : fl.Short) {tr : List (LogSystemEvent T F D L)}
    (h : (machine T fl).exec (machine T fl).init tr = some s)
    (hs : (machine T fl).step s e = some s') :
    s'.log.output = (s.fileOp e).elim s.log.output fun o => o.apply s.log.output := by
  have hrotation := (kept_book hfl h).rotationInv
  have hmoves := Moves.of_step (book fl tr) hs
  generalize record s e (book fl tr) = B' at hmoves
  cases hmoves with
  | init t msg log _ _ hlog => exact AsyncLogging.output_of_moves hrotation (.of_step hlog)
  | append t msg log _ hlog => exact AsyncLogging.output_of_moves hrotation (.of_step hlog)
  | consumer log hlog => exact AsyncLogging.output_of_moves hrotation (.of_step hlog)
  | wake how log hlog => exact AsyncLogging.output_of_moves hrotation (.of_step hlog)
  | _ => rfl

/-- **The log with its file.** -/
def fileMachine (T : Type*) [DecidableEq T] (fl : FloatText F D L) :
    Machine (LogSystem T × LogFile) (FileEvent (LogSystemEvent T F D L)) :=
  LogFile.onFile (machine T fl) fileOp

variable {f : LogFile}

/-- If no call of stdio fails, the file is as the logger sees it. -/
theorem matches_of_exec (hfl : fl.Short) {tr : List (FileEvent (LogSystemEvent T F D L))}
    (h : (fileMachine T fl).exec (fileMachine T fl).init tr = some (s, f))
    (hw : ∀ e ∈ tr, e.Works) : f.Matches s.log.output :=
  LogFile.matches_of_exec (M := machine T fl) (fun s => s.log.output) rfl
    (fun _ _ _ _ ht hs => output_of_step hfl ht hs) h hw

/-- Numbers that are all printed as `1.5`. -/
def plainText : FloatText Unit Unit Unit := ⟨id, fun _ => chars "1.5", fun _ => chars "1.5"⟩

theorem short_plainText : plainText.Short where
  g_le := fun _ => show (chars "1.5").length ≤ 31 by decide
  lg_le := fun _ => show (chars "1.5").length ≤ 31 by decide

/-- Two threads finish a statement each, and the first one is in `once_init`. -/
def twoThreads : List (LogSystemEvent Bool Unit Unit Unit) :=
  [.construct true (fun _ => 170) (chars "12:00\t") (chars "a.cc") 7,
    .construct false (fun _ => 170) (chars "12:01\t") (chars "b.cc") (-1),
    .insert true (.charPtr (some (chars "hi "))), .insert false (.double ()),
    .destroy true, .once true, .destroy false]

/-- Both lines are appended, the second one first, and the consumer has a batch. -/
def twoAppended : List (LogSystemEvent Bool Unit Unit Unit) :=
  twoThreads ++ [.consumer, .started true, .once false, .append false, .consumer, .consumer,
    .append true, .wake .timeout, .consumer]

/-- The stream takes them in two calls, and stdio writes the one and some of the other to
the file. -/
def twoTaken : List (FileEvent (LogSystemEvent Bool Unit Unit Unit)) :=
  twoAppended.map .quiet ++ [.program .consumer (.append [10, 64] true), .spill 25]

/-- Then they are flushed. -/
def twoLines : List (FileEvent (LogSystemEvent Bool Unit Unit Unit)) :=
  twoTaken ++ List.replicate 4 (.quiet .consumer) ++ [.program .consumer (.flush true)]

/-- **A message that can be read back**: it leaves room for the place, and a newline is
neither in it nor in the file name. -/
structure Plain (lg : Logger) : Prop where
  room : lg.stream.contents.length + lg.fileName.length + 37 ≤ 4000
  message : 10 ∉ lg.stream.contents
  fileName : 10 ∉ lg.fileName

instance : DecidablePred Plain := fun lg =>
  decidable_of_iff (lg.stream.contents.length + lg.fileName.length + 37 ≤ 4000
      ∧ 10 ∉ lg.stream.contents ∧ 10 ∉ lg.fileName)
    ⟨fun h => ⟨h.1, h.2.1, h.2.2⟩, fun h => ⟨h.room, h.message, h.fileName⟩⟩

/-- The line of a logger that had room is the message and the place. -/
theorem output_of_room (hfl : fl.Short) {lg : Logger} (h : lg.stream.Sound)
    (hroom : lg.stream.contents.length + lg.fileName.length + 37 ≤ 4000) :
    lg.output fl = some (lg.stream.contents ++ Logger.placeText lg.fileName lg.line) := by
  have havail : lg.stream.avail = 4000 - lg.stream.contents.length := RawBuffer.avail_eq
  have hsep : LogStream.Fits fl lg.stream.avail (.charPtr (some (chars " -- "))) ↔
      4 < lg.stream.avail := LogStream.fits_text rfl
  have hfile : LogStream.Fits fl (lg.stream.avail - 4) (.string lg.fileName) ↔
      (lg.fileName.length : ℤ) < lg.stream.avail - 4 := LogStream.fits_text rfl
  have hseptext : LogStream.text fl (.charPtr (some (chars " -- "))) = chars " -- " := rfl
  have hseplen : ((chars " -- ").length : ℤ) = 4 := rfl
  have hfiletext : LogStream.text fl (.string lg.fileName) = lg.fileName := rfl
  rw [Logger.output_of_sound hfl h (by omega), Logger.place, LogStream.flatMap_fittingIn_cons,
    hseptext, hseplen, if_pos (hsep.mpr (by omega)), LogStream.flatMap_fittingIn_cons, hfiletext,
    if_pos (hfile.mpr (by omega))]
  have hfree : 1 ≤ lg.stream.avail - 4 - lg.fileName.length := by omega
  rcases Logger.tail_cases fl lg.line hfree rfl with ⟨-, htail⟩ | ⟨hone, -⟩ | ⟨-, hless, -⟩
  · rw [htail, Logger.placeText]
    simp only [List.append_assoc]
  · omega
  · omega

/-- It is a record that ends with a newline. -/
theorem Plain.isRecord {lg : Logger} (h : Plain lg) :
    IsRecord 10 (lg.stream.contents ++ Logger.placeText lg.fileName lg.line) := by
  have hsep : 10 ∉ chars " -- " := by decide
  have hcolon : 10 ∉ chars ":" := by decide
  have hline : 10 ∉ decimal lg.line.toInt := by
    intro hmem
    obtain ⟨ds, htext, -, hdigits, -⟩ := (canonical_decimal lg.line.toInt).digits
    rw [htext] at hmem
    rcases List.mem_append.mp hmem with hmem | hmem
    · split at hmem
      · exact absurd hmem (by decide)
      · exact absurd hmem List.not_mem_nil
    · exact absurd (hdigits _ hmem).1 (by decide)
  refine ⟨lg.stream.contents ++ (chars " -- " ++ lg.fileName
    ++ (chars ":" ++ decimal lg.line.toInt)), ?_, ?_⟩
  · simp only [List.mem_append, h.message, h.fileName, hsep, hcolon, hline, or_self,
      not_false_eq_true]
  · unfold Logger.placeText
    simp only [List.append_assoc]

/-- Where the consumer is after a step of the logger: `start` makes it, the producers
leave it where it is, and a step of its own leaves the latch behind. -/
theorem pc_of_moves {a a' : AsyncLogging} {e : LogEvent} (h : AsyncLogging.RotationInv a)
    (hs : a.Moves e a') :
    (e = .start ∧ a.pc = .notStarted ∧ a'.pc = .entry)
      ∨ (e ≠ .start ∧ AsyncLogging.isConsumer e = false ∧ a'.pc = a.pc)
      ∨ (a.pc ≠ .notStarted ∧ Started a') := by
  unfold Started
  cases hs with
  | start hpc => exact Or.inl ⟨rfl, hpc, rfl⟩
  | append msg => exact Or.inr (Or.inl ⟨by simp, rfl, (a.append_frame msg).1⟩)
  | stop => exact Or.inr (Or.inl ⟨by simp, rfl, rfl⟩)
  | wake how hpc =>
    rw [h.swapBuffers_pc.1, hpc]
    exact Or.inr (Or.inr ⟨by decide, by decide, by decide⟩)
  | swap hpc =>
    rw [h.swapBuffers_pc.1, hpc]
    exact Or.inr (Or.inr ⟨by decide, by decide, by decide⟩)
  | refill1 hpc =>
    rw [(h.refill1_pc hpc).1, hpc]
    exact Or.inr (Or.inr ⟨by decide, by decide, by decide⟩)
  | refill2 hpc =>
    rw [(h.refill2_pc hpc).1, hpc]
    exact Or.inr (Or.inr ⟨by decide, by decide, by decide⟩)
  | loopTest hpc =>
    rw [hpc]
    refine Or.inr (Or.inr ⟨by decide, ?_⟩)
    dsimp only
    split
    · exact ⟨by decide, by decide⟩
    · exact ⟨by decide, by decide⟩
  | write i hpc =>
    rw [hpc]
    refine Or.inr (Or.inr ⟨by simp, ?_⟩)
    unfold AsyncLogging.write
    split
    · exact ⟨by simp, by simp⟩
    · exact ⟨by simp, by simp⟩
  | _ hpc =>
    rw [hpc]
    exact Or.inr (Or.inr ⟨by simp, by simp [AsyncLogging.enter, AsyncLogging.truncate,
      AsyncLogging.shrink]⟩)

/-- A thread is in `once_init`. -/
def Initialising (s : LogSystem T) (t : T) : Prop := ∃ msg, s.threads t = .starting msg

/-- A thread is past `pthread_once`. -/
def Passed (s : LogSystem T) (t : T) : Prop := ∃ msg, s.threads t = .append msg

/-- **Where the threads are**, by the state of `thread_run_once`: before `once_init`
nobody has passed it, and there is no consumer; in the meantime one thread is in it;
and after it the consumer has left the latch behind. -/
def Ready (s : LogSystem T) : Prop :=
  match s.once with
  | .never => s.log.pc = .notStarted ∧ ∀ t, ¬ s.Initialising t ∧ ¬ s.Passed t
  | .running => s.log.pc ≠ .notStarted ∧ (∃ t, ∀ u, s.Initialising u ↔ u = t)
    ∧ ∀ t, ¬ s.Passed t
  | .done => Started s.log ∧ ∀ t, ¬ s.Initialising t

theorem initialising_goto (s : LogSystem T) (t u : T) (phase : LogPhase) :
    (s.goto t phase).Initialising u
      ↔ if t = u then ∃ msg, phase = .starting msg else s.Initialising u := by
  unfold Initialising
  rw [threads_goto]
  split
  · rfl
  · rfl

theorem passed_goto (s : LogSystem T) (t u : T) (phase : LogPhase) :
    (s.goto t phase).Passed u ↔ if t = u then ∃ msg, phase = .append msg else s.Passed u := by
  unfold Passed
  rw [threads_goto]
  split
  · rfl
  · rfl

/-- A thread that is not concerned with `pthread_once` goes on. -/
theorem Ready.goto (h : s.Ready) {t : T} {phase : LogPhase} (ht : ¬ s.Initialising t)
    (hstarting : ∀ msg, phase ≠ .starting msg) (happend : ∀ msg, phase ≠ .append msg) :
    (s.goto t phase).Ready := by
  have hinit : ∀ u, (s.goto t phase).Initialising u ↔ s.Initialising u := by
    intro u
    rw [initialising_goto]
    split
    · next htu => exact iff_of_false (fun ⟨msg, hmsg⟩ => hstarting msg hmsg) (htu ▸ ht)
    · rfl
  have hpass : ∀ u, (s.goto t phase).Passed u → s.Passed u := by
    intro u hu
    rw [passed_goto] at hu
    split at hu
    · obtain ⟨msg, hmsg⟩ := hu
      exact absurd hmsg (happend msg)
    · exact hu
  unfold Ready at h ⊢
  change match s.once with | .never => _ | .running => _ | .done => _
  split
  · next honce =>
    rw [honce] at h
    exact ⟨h.1, fun u => ⟨mt (hinit u).mp (h.2 u).1, mt (hpass u) (h.2 u).2⟩⟩
  · next honce =>
    rw [honce] at h
    obtain ⟨hpc, ⟨u, hu⟩, hnone⟩ := h
    exact ⟨hpc, ⟨u, fun v => (hinit v).trans (hu v)⟩, fun v => mt (hpass v) (hnone v)⟩
  · next honce =>
    rw [honce] at h
    exact ⟨h.1, fun u => mt (hinit u).mp (h.2 u)⟩

omit [DecidableEq T] in
/-- The consumer goes on. -/
theorem Ready.turn (h : s.Ready) (hrotation : AsyncLogging.RotationInv s.log) {e : LogEvent}
    {log : AsyncLogging} (he : AsyncLogging.isConsumer e = true)
    (hlog : s.log.step e = some log) : Ready { s with log := log } := by
  have hpc : s.log.pc ≠ .notStarted ∧ Started log := by
    rcases pc_of_moves hrotation (.of_step hlog) with ⟨rfl, -⟩ | ⟨-, hno, -⟩ | hpast
    · exact absurd he (by decide)
    · exact absurd (he.symm.trans hno) (by decide)
    · exact hpast
  unfold Ready at h ⊢
  change match s.once with | .never => _ | .running => _ | .done => _
  split
  · next honce =>
    rw [honce] at h
    exact absurd h.1 hpc.1
  · next honce =>
    rw [honce] at h
    exact ⟨hpc.2.1, h.2⟩
  · next honce =>
    rw [honce] at h
    exact ⟨hpc.2, h.2⟩

/-- **A step keeps it.** -/
theorem Ready.moves (h : s.Ready) (hrotation : AsyncLogging.RotationInv s.log)
    (hs : Moves fl s B e s' B') : s'.Ready := by
  cases hs with
  | construct t data time fileName line ht =>
    exact h.goto (fun ⟨msg, hmsg⟩ => by simp [ht] at hmsg) (by simp) (by simp)
  | insert t x lg ht =>
    exact h.goto (fun ⟨msg, hmsg⟩ => by simp [ht] at hmsg) (by simp) (by simp)
  | destroy t lg msg ht hout =>
    exact h.goto (fun ⟨msg, hmsg⟩ => by simp [ht] at hmsg) (by simp) (by simp)
  | init t msg log ht honce hlog =>
    rw [Ready, honce] at h
    obtain ⟨hpc, hnone⟩ := h
    have hentry : log.pc ≠ .notStarted := by
      rcases pc_of_moves hrotation (.of_step hlog) with ⟨-, -, hentry⟩ | ⟨hne, -⟩ | ⟨-, hpast⟩
      · rw [hentry]
        decide
      · exact absurd rfl hne
      · exact hpast.1
    refine ⟨hentry, ⟨t, fun u => ?_⟩, fun u hu => ?_⟩
    · change (s.goto t (.starting msg)).Initialising u ↔ u = t
      rw [initialising_goto]
      split
      · next htu => exact iff_of_true ⟨msg, rfl⟩ htu.symm
      · next htu => exact iff_of_false (hnone u).1 (Ne.symm htu)
    · change (s.goto t (.starting msg)).Passed u at hu
      rw [passed_goto] at hu
      split at hu
      · obtain ⟨msg', hmsg⟩ := hu
        cases hmsg
      · exact (hnone u).2 hu
  | pass t msg ht honce =>
    rw [Ready, honce] at h
    unfold Ready
    change match s.once with | .never => _ | .running => _ | .done => _
    rw [honce]
    refine ⟨h.1, fun u hu => ?_⟩
    rw [initialising_goto] at hu
    split at hu
    · obtain ⟨msg', hmsg⟩ := hu
      cases hmsg
    · exact h.2 u hu
  | started t msg ht hlog =>
    refine ⟨hlog, fun u hu => ?_⟩
    change (s.goto t (.append msg)).Initialising u at hu
    rw [initialising_goto] at hu
    split at hu
    · obtain ⟨msg', hmsg⟩ := hu
      cases hmsg
    · next htu =>
      unfold Ready at h
      split at h
      · exact (h.2 u).1 hu
      · obtain ⟨-, ⟨v, hv⟩, -⟩ := h
        exact htu (((hv t).mp ⟨msg, ht⟩).trans ((hv u).mp hu).symm)
      · exact h.2 u hu
  | append t msg log ht hlog =>
    have hsame : log.pc = s.log.pc := by
      cases AsyncLogging.Moves.of_step hlog with
      | append => exact (s.log.append_frame msg).1
    have hgoto : (s.goto t .idle).Ready :=
      h.goto (fun ⟨msg, hmsg⟩ => by simp [ht] at hmsg) (by simp) (by simp)
    unfold Ready Started at hgoto ⊢
    change match s.once with | .never => _ | .running => _ | .done => _ at hgoto
    change match s.once with | .never => _ | .running => _ | .done => _
    dsimp only
    rw [hsame]
    exact hgoto
  | consumer log hlog => exact h.turn hrotation rfl hlog
  | wake how log hlog => exact h.turn hrotation rfl hlog

/-- **The threads are where `pthread_once` has them**, in every run. -/
theorem ready_of_exec (hfl : fl.Short) {tr : List (LogSystemEvent T F D L)}
    (h : (machine T fl).exec (machine T fl).init tr = some s) : s.Ready := by
  refine Machine.exec_induction (motive := fun _ s => Ready s) ?_ ?_ h
  · refine ⟨rfl, fun t => ⟨?_, ?_⟩⟩
    · rintro ⟨msg, hmsg⟩
      cases hmsg
    · rintro ⟨msg, hmsg⟩
      cases hmsg
  · intro tr t e t' ht hs ih
    exact ih.moves (kept_book hfl ht).rotationInv (.of_step (book fl tr) hs)

/-- The events by which a line gets into the log. -/
def isOutput : LogSystemEvent T F D L → Bool
  | .once _ | .started _ | .append _ | .consumer => true
  | _ => false

/-- One state leads to another by at most `n` of these events, and none but `t` gets rid
of its line. -/
def Leads (fl : FloatText F D L) (t : T) (n : ℕ) (s s' : LogSystem T) : Prop :=
  (∃ tr, (machine T fl).exec s tr = some s' ∧ tr.length ≤ n ∧ ∀ e ∈ tr, isOutput e = true)
    ∧ ∀ u, u ≠ t → (s'.threads u).inHand = (s.threads u).inHand

namespace Leads

variable {t : T} {m n : ℕ} {s'' : LogSystem T}

/-- Nothing happens. -/
theorem refl (fl : FloatText F D L) (t : T) (n : ℕ) (s : LogSystem T) : Leads fl t n s s :=
  ⟨⟨[], rfl, Nat.zero_le n, fun _ he => absurd he List.not_mem_nil⟩, fun _ _ => rfl⟩

/-- One event, and then more. -/
theorem cons (hs : (machine T fl).step s e = some s') (he : isOutput e = true)
    (hsame : ∀ u, u ≠ t → (s'.threads u).inHand = (s.threads u).inHand)
    (h : Leads fl t n s' s'') : Leads fl t (n + 1) s s'' := by
  obtain ⟨⟨tr, htr, hlen, hall⟩, hrest⟩ := h
  refine ⟨⟨e :: tr, ?_, Nat.succ_le_succ hlen, List.forall_mem_cons.mpr ⟨he, hall⟩⟩,
    fun u hu => (hrest u hu).trans (hsame u hu)⟩
  rw [Machine.exec_cons, hs]
  exact htr

/-- With more events. -/
theorem mono (h : Leads fl t m s s') (hmn : m ≤ n) : Leads fl t n s s' := by
  obtain ⟨⟨tr, htr, hlen, hall⟩, hrest⟩ := h
  exact ⟨⟨tr, htr, hlen.trans hmn, hall⟩, hrest⟩

end Leads

/-- A step of one thread that keeps its line leaves the lines of all others alone. -/
theorem inHand_step {t u : T} {phase : LogPhase} (hphase : phase.inHand = (s.threads u).inHand) :
    ∀ v, v ≠ t → ((s.goto u phase).threads v).inHand = (s.threads v).inHand := by
  intro v _
  rw [inHand_goto]
  split
  · next huv => rw [hphase, huv]
  · rfl

/-- A thread that has passed `pthread_once` appends its line. -/
theorem leads_append (h : (machine T fl).Reachable s) (hfl : fl.Short) {t : T} {msg : Msg}
    (ht : s.threads t = .append msg) : ∃ s', Leads fl t 1 s s' ∧ s'.threads t = .idle := by
  obtain ⟨tr, htr⟩ := h
  have hlog : s.log.step (.append msg) = some (s.log.append msg) := by
    unfold AsyncLogging.step
    rw [(kept_book hfl htr).rotationInv.defined]
    rfl
  have hs : (machine T fl).step s (.append t)
      = some { s.goto t .idle with log := s.log.append msg } := by
    show (match s.threads t with | .append msg => _ | _ => none) = _
    rw [ht]
    simp only [hlog]
    rfl
  refine ⟨_, .cons hs rfl (fun u hu => ?_) (.refl fl t 0 _), Function.update_self ..⟩
  exact congrArg LogPhase.inHand (Function.update_of_ne hu ..)

/-- A thread that comes to `pthread_once` after `once_init` is done passes it. -/
theorem leads_pass (h : (machine T fl).Reachable s) (hfl : fl.Short) {t : T} {msg : Msg}
    (ht : s.threads t = .once msg) (honce : s.once = .done) :
    ∃ s', Leads fl t 2 s s' ∧ s'.threads t = .idle := by
  have hs : (machine T fl).step s (.once t) = some (s.goto t (.append msg)) := by
    show (match s.threads t, s.once with
      | .once msg, .never => _ | .once msg, .done => _ | _, _ => none) = _
    rw [ht, honce]
  have hat : (s.goto t (.append msg)).threads t = .append msg := Function.update_self ..
  obtain ⟨s', hlead, hidle⟩ := leads_append (h.step hs) hfl hat
  exact ⟨s', .cons hs rfl (inHand_step (by rw [ht]; rfl)) hlead, hidle⟩

/-- The end of `once_init`, once the latch was counted down. -/
theorem step_started {u : T} {msg : Msg} (hu : s.threads u = .starting msg)
    (hpc : Started s.log) :
    (machine T fl).step s (.started u) = some { s.goto u (.append msg) with once := .done } := by
  show (match s.threads u with
    | .starting msg => if Started s.log then _ else none | _ => none) = _
  rw [hu]
  exact if_pos hpc

/-- **A thread in `once_init` gets out of it**: the consumer counts the latch down, if it
has not done so. -/
theorem leads_done (h : (machine T fl).Reachable s) (hfl : fl.Short) {t u : T} {msg : Msg} {n : ℕ}
    (hu : s.threads u = .starting msg)
    (hnext : ∀ s', (machine T fl).Reachable s' → s'.once = .done → s'.threads u = .append msg →
      (∀ v, v ≠ u → s'.threads v = s.threads v) →
      ∃ s'', Leads fl t n s' s'' ∧ s''.threads t = .idle) :
    ∃ s'', Leads fl t (n + 2) s s'' ∧ s''.threads t = .idle := by
  have hkeep : (LogPhase.append msg).inHand = (s.threads u).inHand := by rw [hu]; rfl
  have hnot : s.log.pc ≠ .notStarted := by
    obtain ⟨tr, htr⟩ := h
    have hready := ready_of_exec hfl htr
    unfold Ready at hready
    split at hready
    · exact absurd ⟨msg, hu⟩ (hready.2 u).1
    · exact hready.1
    · exact hready.1.1
  by_cases hentry : s.log.pc = .entry
  · -- the consumer is about to count the latch down
    have hs : (machine T fl).step s .consumer = some { s with log := s.log.enter } := by
      obtain ⟨tr, htr⟩ := h
      have hlog : s.log.step .consumer = some s.log.enter := by
        unfold AsyncLogging.step AsyncLogging.consumer
        rw [(kept_book hfl htr).rotationInv.defined, hentry]
        rfl
      show (s.log.step .consumer).map _ = _
      rw [hlog]
      rfl
    have hstarted : Started s.log.enter :=
      ⟨by simp [AsyncLogging.enter], by simp [AsyncLogging.enter]⟩
    have hs' : (machine T fl).step { s with log := s.log.enter } (.started u)
        = some { goto { s with log := s.log.enter } u (.append msg) with once := .done } :=
      step_started hu hstarted
    obtain ⟨s'', hlead, hidle⟩ := hnext _ ((h.step hs).step hs') rfl
      (Function.update_self ..) (fun v hv => Function.update_of_ne hv ..)
    exact ⟨s'', .cons hs rfl (fun _ _ => rfl)
      (.cons hs' rfl (@inHand_step _ _ s _ _ _ hkeep) hlead), hidle⟩
  · have hs : (machine T fl).step s (.started u) = _ := step_started hu ⟨hnot, hentry⟩
    obtain ⟨s'', hlead, hidle⟩ := hnext _ (h.step hs) rfl
      (Function.update_self ..) (fun v hv => Function.update_of_ne hv ..)
    have hall := Leads.cons hs rfl (@inHand_step _ _ s _ _ _ hkeep) hlead
    exact ⟨s'', hall.mono (Nat.le_succ _), hidle⟩

/-- A thread in `once_init` appends its line. -/
theorem leads_starting (h : (machine T fl).Reachable s) (hfl : fl.Short) {t : T} {msg : Msg}
    (ht : s.threads t = .starting msg) : ∃ s', Leads fl t 3 s s' ∧ s'.threads t = .idle :=
  leads_done h hfl ht fun _ h' _ ht' _ => leads_append h' hfl ht'

end LogSystem
