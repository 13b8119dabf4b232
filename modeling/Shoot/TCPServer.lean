import Mathlib.Data.Finset.Erase
import Mathlib.Data.Finset.Insert
import Shoot.Channel
import Shoot.Machine

/-!
# The server and its connections

A `TCPServer` accepts connections on the loop it was given, the base loop, and
spreads them over the loops of an `EventLoopPool`; without threads in the pool
the base loop serves them too. An accepted descriptor becomes a
`TCPConnection`, an object with a channel of its own, that belongs to one loop
for good. The acceptor hands it over by a function it gives to
`run_in_loop`; that function, `TCPConnection::new_event`, puts the connection
into the loop's `connections_` and enables its channel. A connection whose
peer has closed takes itself out of both again.

Connections are shared: the acceptor's local pointer, the function handed
over, and the entry of `connections_` hold strong references to it, and it is
destroyed with the last of them. Its destructor closes the descriptor. The
count of references is explicit here, and so is the set of open descriptors;
the kernel's `accept` returns numbers that are not open, and `fcntl` fails on
those that are not.

Every loop is a thread, and the threads are interleaved statement by
statement. What a loop does about its wake-up channel is the subject of
`Shoot.EventLoop`; here a poll may return at any time with nothing to handle,
and `pending_functions_` holds the connections whose `new_event` was queued.
The object of a destroyed connection keeps its last value, so that a run goes
on past the point where it is read once more.
-/

/-- A loop, and the thread that runs it: `0` is the base loop, `k + 1` the
loop `loops_[k]` of the pool. -/
abbrev LoopId : Type := ℕ

/-- The address of a `TCPConnection`. -/
abbrev ConnId : Type := ℕ

/-- The callbacks of the channels. -/
inductive Handler where
  /-- `TCPConnection::handle_read`. -/
  | handleRead (c : ConnId)
  /-- `TCPConnection::handle_err`. -/
  | handleErr (c : ConnId)
  /-- `TCPServer::handle_new_conn`. -/
  | handleNewConn
deriving DecidableEq, Repr

/-- The address of a channel. -/
inductive ChannelPtr where
  /-- The server's `accpet_channel_`. -/
  | acceptor
  /-- The channel of a connection. -/
  | conn (c : ConnId)
deriving DecidableEq, Repr

/-- `CONNECTION_STATE`. -/
inductive ConnectionState where
  | connected | connecting | disconnecting | disconnected
deriving DecidableEq, Repr

/-- **A connection**, with the count of the strong references to it. -/
structure TCPConnection where
  /-- `loop_`. -/
  loop : LoopId
  /-- `*channel_`. -/
  channel : Channel Handler
  /-- `fd_`. -/
  fd : Fd
  /-- `connection_state`. -/
  connectionState : ConnectionState
  /-- The strong references. -/
  useCount : ℕ

/-- The constructor, for the connection `c`; its reference is the one the
constructing `shared_ptr` holds. -/
def TCPConnection.new (c : ConnId) (l : LoopId) (fd : Fd) : TCPConnection where
  loop := l
  channel := { Channel.new fd with
    readHandler := some (.handleRead c), errorHandler := some (.handleErr c) }
  fd := fd
  connectionState := .connected
  useCount := 1

/-- What `handle_new_conn` does with the descriptor it accepted. -/
inductive FdAction where
  /-- `::close`. -/
  | close
  /-- `fcntl`, in `set_non_blocking`. -/
  | use
  /-- The construction of a connection. -/
  | construct (c : ConnId)
  /-- The connection is given to a loop. -/
  | register (c : ConnId) (l : LoopId)
deriving DecidableEq, Repr

/-- A call of `handle_new_conn`: what the system calls it made returned, and
what it did. No statement reads it; what it says of the state is
`TCPServer.Recorded`. -/
structure AcceptCall where
  /-- What `accept` returned. -/
  result : ℤ
  /-- Whether `fcntl` with `F_GETFL` succeeded, if it was called. -/
  flags : Option Bool
  /-- What was done with the descriptor. -/
  actions : List FdAction
deriving DecidableEq, Repr

/-- The call, after one more action. -/
def AcceptCall.act (k : AcceptCall) (a : FdAction) : AcceptCall :=
  { k with actions := k.actions ++ [a] }

/-- Where `handle_new_conn` stands, with its local variables. -/
inductive AcceptPc where
  /-- About to call `accept`. -/
  | accept
  /-- About to call `get_next_loop`. -/
  | nextLoop (fd : Fd)
  /-- About to test `_accept_fd >= MAXFDS`. -/
  | limit (fd : Fd) (l : LoopId)
  /-- About to call `set_non_blocking`. -/
  | nonBlocking (fd : Fd) (l : LoopId)
  /-- About to construct the connection. -/
  | construct (fd : Fd) (l : LoopId)
  /-- About to call `run_in_loop` with `new_event`. -/
  | runInLoop (c : ConnId)
  /-- In `new_event`, called in place, about to put. -/
  | put (c : ConnId)
  /-- In `new_event`, called in place, about to enable. -/
  | arm (c : ConnId)
  /-- About to destroy the function that was called in place. -/
  | dropCallback (c : ConnId)
  /-- About to destroy `conn_ptr`. -/
  | dropLocal (c : ConnId)
  /-- About to enable the listening channel. -/
  | rearm
  /-- About to return. -/
  | ret
deriving DecidableEq, Repr

/-- Where `handle_read` stands. -/
inductive ReadPc where
  /-- About to call `read`. -/
  | read
  /-- About to enable the channel, after the response. -/
  | rearm
  /-- About to execute `handle_close`. -/
  | close
  /-- About to execute `destroy_conn`, up to `erase`. -/
  | destroy
  /-- About to call `erase`. -/
  | erase
  /-- In `erase`, about to destroy the entry it has unlinked. -/
  | release
deriving DecidableEq, Repr

/-- A call of `handle_events`, and what is left of `active_vector`. -/
structure Dispatch where
  /-- The channel. -/
  channel : ChannelPtr
  /-- Where the call stands. -/
  stage : Channel.HandlePc
  /-- The channels still to be handled. -/
  active : List ChannelPtr
deriving DecidableEq, Repr

/-- **Where a loop's thread stands.** -/
inductive ServerPc where
  /-- In `Epoll::poll`, which has filled this much of `active_vector`. -/
  | poll (active : List ChannelPtr)
  /-- About to take the next channel of `active_vector`. -/
  | next (active : List ChannelPtr)
  /-- In `handle_events`. -/
  | handle (d : Dispatch)
  /-- In `handle_read`. -/
  | read (c : ConnId) (pos : ReadPc) (d : Dispatch)
  /-- In `handle_new_conn`. -/
  | accept (pos : AcceptPc) (k : AcceptCall) (d : Dispatch)
  /-- About to swap `functors` with `pending_functions_`. -/
  | swap
  /-- About to test `i < functors.size()`. -/
  | functors (fs : List ConnId) (i : ℕ)
  /-- In `new_event` for `functors[i]`, about to put. -/
  | put (c : ConnId) (fs : List ConnId) (i : ℕ)
  /-- In `new_event` for `functors[i]`, about to enable. -/
  | arm (c : ConnId) (fs : List ConnId) (i : ℕ)
  /-- About to destroy `functors`. -/
  | drop (fs : List ConnId)
deriving DecidableEq, Repr

/-- A loop, and its thread. -/
structure ServerLoop where
  /-- `poll_`. -/
  epoll : Epoll ChannelPtr
  /-- `pending_functions_`, each a `new_event` of this connection. -/
  pending : List ConnId
  /-- `connections_`. -/
  connections : Fd → Option ConnId
  /-- Where the thread stands. -/
  pc : ServerPc

/-- The events of a server. -/
inductive ServerEvent where
  /-- `epoll_wait` reports events for a descriptor to a loop. -/
  | deliver (l : LoopId) (fd : Fd) (mask : EventMask)
  /-- `read` returns, to the loop that called it. -/
  | read (l : LoopId) (n : ℤ)
  /-- `accept` returns. -/
  | accept (l : LoopId) (r : ℤ)
  /-- `fcntl` with `F_GETFL` returns, with or without flags. -/
  | flags (l : LoopId) (ok : Bool)
  /-- A loop's thread executes its next statement. -/
  | step (l : LoopId)
deriving DecidableEq, Repr

/-- **The state of a server**, and of the kernel below it. -/
structure TCPServer where
  /-- `thread_num_`. -/
  threadNum : ℕ
  /-- `next_`. -/
  next : ℕ
  /-- `listen_fd_`. -/
  listenFd : Fd
  /-- `*accpet_channel_`. -/
  acceptChannel : Channel Handler
  /-- The loops. -/
  loops : LoopId → ServerLoop
  /-- The connection objects, by address. -/
  heap : ConnId → TCPConnection
  /-- The address the next `new TCPConnection` returns. -/
  fresh : ConnId
  /-- The open descriptors. -/
  openFds : Finset Fd

namespace TCPServer

/-- `MAXFDS`. -/
def maxFds : ℤ := 100000

/-- The server after `start(n)`, with the listening descriptor `fd` and other
descriptors already open: the accept channel has its callback and is
enabled. -/
def new (n : ℕ) (fd : Fd) (others : Finset Fd) : TCPServer :=
  let r := Channel.enableRead .new ChannelPtr.acceptor { Channel.new fd with
    readHandler := some Handler.handleNewConn }
  { threadNum := n
    next := 0
    listenFd := fd
    acceptChannel := r.2
    loops := fun l => ⟨if l = 0 then r.1 else .new, [], fun _ => none, .poll []⟩
    heap := fun c => { TCPConnection.new c 0 0 with useCount := 0 }
    fresh := 0
    openFds := insert fd others }

/-! ## Objects, references and channels -/

/-- A loop's thread goes on. -/
def goto (s : TCPServer) (l : LoopId) (pc : ServerPc) : TCPServer :=
  { s with loops := Function.update s.loops l { s.loops l with pc := pc } }

/-- A copy of a strong reference. -/
def retain (s : TCPServer) (c : ConnId) : TCPServer :=
  { s with
    heap := Function.update s.heap c { s.heap c with useCount := (s.heap c).useCount + 1 } }

/-- The destruction of a strong reference, and with the last one that of the
connection: `~TCPConnection` closes the descriptor. -/
def release (s : TCPServer) (c : ConnId) : TCPServer :=
  { s with
    heap := Function.update s.heap c { s.heap c with useCount := (s.heap c).useCount - 1 }
    openFds := if (s.heap c).useCount = 1 then s.openFds.erase (s.heap c).fd else s.openFds }

/-- The channel at an address. -/
def channel (s : TCPServer) : ChannelPtr → Channel Handler
  | .acceptor => s.acceptChannel
  | .conn c => (s.heap c).channel

/-- `set_revents`. -/
def setRevents (s : TCPServer) (p : ChannelPtr) (mask : EventMask) : TCPServer :=
  match p with
  | .acceptor => { s with acceptChannel := { s.acceptChannel with revent := mask } }
  | .conn c => { s with heap := Function.update s.heap c { s.heap c with
      channel := { (s.heap c).channel with revent := mask } } }

/-- What a delivery leaves in the kernel. -/
def setInterest (s : TCPServer) (l : LoopId) (K : EpollSet ChannelPtr) : TCPServer :=
  { s with
    loops := Function.update s.loops l
      { s.loops l with epoll := { (s.loops l).epoll with interest := K } } }

/-- An operation on the channel of a connection, and on the `Epoll` of the
connection's loop. -/
def connChannel (s : TCPServer) (c : ConnId)
    (f : Epoll ChannelPtr → ChannelPtr → Channel Handler → Epoll ChannelPtr × Channel Handler) :
    TCPServer :=
  let l := (s.heap c).loop
  let r := f (s.loops l).epoll (.conn c) (s.heap c).channel
  { s with
    loops := Function.update s.loops l { s.loops l with epoll := r.1 }
    heap := Function.update s.heap c { s.heap c with channel := r.2 } }

/-- `channel_->enable_read()`. -/
def enableRead (s : TCPServer) (c : ConnId) : TCPServer :=
  s.connChannel c fun ep p ch => ch.enableRead ep p

/-- `EventLoop::put`, on the loop of a connection and with a new reference to
it; an `insert` does nothing if the key is present. -/
def put (s : TCPServer) (c : ConnId) : TCPServer :=
  let l := (s.heap c).loop
  match (s.loops l).connections (s.heap c).channel.fd with
  | some _ => s
  | none =>
    { s.retain c with loops := Function.update s.loops l { s.loops l with
        connections := Function.update (s.loops l).connections (s.heap c).channel.fd (some c) } }

/-- The push of `queue_in_loop`, with the function that calls `new_event` on a
connection. -/
def queueNewEvent (s : TCPServer) (l : LoopId) (c : ConnId) : TCPServer :=
  { s with
    loops := Function.update s.loops l
      { s.loops l with pending := (s.loops l).pending ++ [c] } }

/-- The swap of `do_pending_functions`, which leaves `pending_functions_`
empty. -/
def takePending (s : TCPServer) (l : LoopId) : TCPServer :=
  { s with loops := Function.update s.loops l { s.loops l with pending := [] } }

/-! ## Connections -/

/-- `handle_close()`, up to the call of `destroy_conn`. -/
def handleClose (s : TCPServer) (c : ConnId) : TCPServer :=
  { s with
    heap := Function.update s.heap c { s.heap c with connectionState := .disconnected }
  }.connChannel c fun ep p ch => ch.disalbelAll ep p

/-- `destroy_conn()`, up to the call of `erase`. -/
def destroyConn (s : TCPServer) (c : ConnId) : TCPServer :=
  (if (s.heap c).connectionState = .connected then s.handleClose c else s).connChannel c
    fun ep p ch => ch.remove ep p

/-- The entry of `connections_` that `erase(fd_)` finds. -/
def entry (s : TCPServer) (c : ConnId) : Option ConnId :=
  (s.loops (s.heap c).loop).connections (s.heap c).fd

/-- `loop_->erase(fd_)`, up to the destruction of the entry it unlinks. -/
def unlink (s : TCPServer) (c : ConnId) : TCPServer :=
  let l := (s.heap c).loop
  { s with
    loops := Function.update s.loops l { s.loops l with
      connections := Function.update (s.loops l).connections (s.heap c).fd none } }

/-- `handle_read`, once `read` has returned: a positive count is answered with
a response, whose fate does not matter, and nothing else than the end of the
stream ends the loop. -/
def afterRead (n : ℤ) : ReadPc := if 0 < n then .rearm else if n = 0 then .close else .read

/-- A statement of `handle_read`. -/
def handleRead (s : TCPServer) (l : LoopId) (c : ConnId) (d : Dispatch) :
    ReadPc → Option TCPServer
  | .read => none
  | .rearm => some ((s.enableRead c).goto l (.handle d))
  | .close => some ((s.handleClose c).goto l (.read c .destroy d))
  | .destroy => some ((s.destroyConn c).goto l (.read c .erase d))
  | .erase =>
    match s.entry c with
    | some c' => some ((s.unlink c).goto l (.read c' .release d))
    | none => some (s.goto l (.handle d))
  | .release => some ((s.goto l (.handle d)).release c)

/-! ## The acceptor -/

/-- `EventLoopPool::get_next_loop()`. -/
def getNextLoop (s : TCPServer) : TCPServer × LoopId :=
  if s.threadNum = 0 then (s, 0)
  else ({ s with next := (s.next + 1) % s.threadNum }, s.next + 1)

/-- `accept(listen_fd_, ..)` returns `r`, an error or a number that was not
open. -/
def accepted (s : TCPServer) (r : ℤ) : TCPServer :=
  { s with openFds := if 0 ≤ r then insert r s.openFds else s.openFds }

/-- `handle_new_conn`, once `accept` has returned. -/
def afterAccept (r : ℤ) : AcceptPc := if 0 < r then .nextLoop r else .rearm

/-- `::close(fd)`. -/
def close (s : TCPServer) (fd : Fd) : TCPServer := { s with openFds := s.openFds.erase fd }

/-- `accpet_channel_->enable_read()`. -/
def rearmAcceptor (s : TCPServer) : TCPServer :=
  let r := s.acceptChannel.enableRead (s.loops 0).epoll .acceptor
  { s with
    acceptChannel := r.2
    loops := Function.update s.loops 0 { s.loops 0 with epoll := r.1 } }

/-- The construction of a connection for `fd` on the loop `l'`. -/
def construct (s : TCPServer) (fd : Fd) (l' : LoopId) : TCPServer :=
  { s with
    heap := Function.update s.heap s.fresh (.new s.fresh l' fd)
    fresh := s.fresh + 1 }

/-- A statement of `handle_new_conn`. -/
def handleNewConn (s : TCPServer) (l : LoopId) (k : AcceptCall) (d : Dispatch) :
    AcceptPc → Option TCPServer
  | .accept => none
  | .nextLoop fd => some (s.getNextLoop.1.goto l (.accept (.limit fd s.getNextLoop.2) k d))
  | .limit fd l' =>
    if maxFds ≤ fd then
      some ((s.close fd).goto l (.accept (.nonBlocking fd l') (k.act .close) d))
    else some (s.goto l (.accept (.nonBlocking fd l') k d))
  | .nonBlocking _ _ => none
  | .construct fd l' =>
    some ((s.construct fd l').goto l (.accept (.runInLoop s.fresh) (k.act (.construct s.fresh)) d))
  | .runInLoop c =>
    let l' := (s.heap c).loop
    let k' := k.act (.register c l')
    if l' = l then some ((s.retain c).goto l (.accept (.put c) k' d))
    else some (((s.retain c).goto l (.accept (.dropLocal c) k' d)).queueNewEvent l' c)
  | .put c => some ((s.goto l (.accept (.arm c) k d)).put c)
  | .arm c => some ((s.enableRead c).goto l (.accept (.dropCallback c) k d))
  | .dropCallback c => some ((s.goto l (.accept (.dropLocal c) k d)).release c)
  | .dropLocal c => some ((s.goto l (.accept .rearm k d)).release c)
  | .rearm => some (s.rearmAcceptor.goto l (.accept .ret k d))
  | .ret => some (s.goto l (.handle d))

/-! ## The loops -/

/-- A test of `handle_events`, and the call of the callback it selects. The
response that `handle_err` writes does not matter. -/
def handle (s : TCPServer) (d : Dispatch) : ServerPc :=
  match (s.channel d.channel).handleEvents d.stage with
  | (some (.handleRead c), stage) => .read c .read { d with stage := stage }
  | (some .handleNewConn, stage) => .accept .accept ⟨0, none, []⟩ { d with stage := stage }
  | (some (.handleErr _), stage) => .handle { d with stage := stage }
  | (none, stage) => .handle { d with stage := stage }

/-- The next statement of a loop's thread. -/
def advance (s : TCPServer) (l : LoopId) : Option TCPServer :=
  match (s.loops l).pc with
  | .poll active => some (s.goto l (.next active))
  | .next [] => some (s.goto l .swap)
  | .next (p :: active) => some (s.goto l (.handle ⟨p, .hup, active⟩))
  | .handle d =>
    if d.stage = .ret then some (s.goto l (.next d.active)) else some (s.goto l (s.handle d))
  | .read c pos d => s.handleRead l c d pos
  | .accept pos k d => s.handleNewConn l k d pos
  | .swap => some ((s.takePending l).goto l (.functors (s.loops l).pending 0))
  | .functors fs i =>
    match fs[i]? with
    | some c => some (s.goto l (.put c fs i))
    | none => some (s.goto l (.drop fs))
  | .put c fs i => some ((s.goto l (.arm c fs i)).put c)
  | .arm c fs i => some ((s.enableRead c).goto l (.functors fs (i + 1)))
  | .drop [] => some (s.goto l (.poll []))
  | .drop (c :: fs) => some ((s.goto l (.drop fs)).release c)

/-- One event of a server. -/
def step (s : TCPServer) : ServerEvent → Option TCPServer
  | .deliver l fd mask =>
    match (s.loops l).pc with
    | .poll active =>
      ((s.loops l).epoll.interest.deliver fd mask).map fun r =>
        ((s.setInterest l r.1).setRevents r.2 mask).goto l (.poll (active ++ [r.2]))
    | _ => none
  | .read l n =>
    match (s.loops l).pc with
    | .read c .read d => some (s.goto l (.read c (afterRead n) d))
    | _ => none
  | .accept l r =>
    match (s.loops l).pc with
    | .accept .accept _ d =>
      if r ∈ s.openFds then none
      else some ((s.accepted r).goto l (.accept (afterAccept r) ⟨r, none, []⟩ d))
    | _ => none
  | .flags l ok =>
    match (s.loops l).pc with
    | .accept (.nonBlocking fd l') k d =>
      if ok = true then
        if fd ∈ s.openFds then
          some (s.goto l (.accept (.construct fd l') ({ k with flags := some true }.act .use) d))
        else none
      else some (s.goto l (.accept .ret ({ k with flags := some false }.act .use) d))
    | _ => none
  | .step l => s.advance l

/-- **The server**, as a machine: `n` threads in the pool, the listening
descriptor `fd`, and `others` open from the start. -/
def machine (n : ℕ) (fd : Fd) (others : Finset Fd) : Machine TCPServer ServerEvent :=
  ⟨new n fd others, step⟩

end TCPServer
