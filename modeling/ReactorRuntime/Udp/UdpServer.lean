import Mathlib.Data.Int.Notation
import Mathlib.Data.Nat.Notation
import ReactorRuntime.Library.Machine

/-!
# The datagram server

`UdpServer` (`reactor_udp.h:86-245`) is one reactor with one thread, one bound socket and one
coroutine, `receive_loop`, that hands each datagram to the host.  `start()` sets the socket up,
spawns the coroutine and makes the thread; the teardown phases are those of `TcpServer`, but where
that has a flag for `stop()` having run, here the thread being joinable decides.

The machine has the owner, who makes one call at a time and may make them in any order; the
thread, which calls `run()` again after a handler threw; the coroutine; and the tasks that the host
has on the same scheduler.  The owner's calls are executed statement by statement.  What can fail
may fail: each step of the setup, the spawn, the thread, the post in `abort_all()`, and in the
coroutine the buffer and the start of a receive.

Of the scheduler this is assumed: a task spawned on it once it is closed is destroyed unrun, and
`destroy_roots()` destroys the tasks that are live.  Of the `io_context`: `run()` returns when it is
stopped or has nothing left to do, and the latter stops it; a receive loop that is queued or waits
for a datagram is something to do.  The socket is the server's: nothing closes it, so `open`
succeeds at most once.  The host has set a handler for datagrams.
-/

namespace ReactorRuntime

/-- `UdpOptions` -/
structure UdpOptions where
  /-- The bind address; empty for all interfaces. -/
  address : String := ""
  reuseAddress : Bool := true
  reusePort : Bool := false
  /-- Empty for plain UDP. -/
  multicastGroup : String := ""
  multicastInterface : String := ""
  multicastLoop : Bool := false
  /-- 0 for the default of the system. -/
  multicastTtl : ℤ := 0
  /-- 0 for the default of the system. -/
  sendBuffer : ℕ := 0
  recvBuffer : ℕ := 0
  maxDatagram : ℕ := 1500
  deriving DecidableEq, Repr

/-- The steps of `start()` between the opening of the socket and the spawn. -/
inductive UdpSetup
  | reuseAddress
  | reusePort
  /-- `size_buffers()` tries sizes from the targets down until one is taken, and ignores what is
  not. -/
  | sizeBuffers (send recv : ℕ)
  | enableLoopback (on : Bool)
  | hops (ttl : ℤ)
  /-- `make_address_v4` of the interface, and the option. -/
  | outboundInterface
  | bind_
  /-- `make_address_v4` of the group and the interface, and the option. -/
  | joinGroup
  deriving DecidableEq, Repr

/-- The step cannot throw. -/
def UdpSetup.safe : UdpSetup → Bool
  | .sizeBuffers _ _ => true
  | _ => false

namespace UdpOptions

/-- The options of the socket that concern multicast, set before the bind. -/
def multicastSetup (o : UdpOptions) : List UdpSetup :=
  if o.multicastGroup.isEmpty then []
  else List.flatten
    [[.enableLoopback o.multicastLoop],
      if 0 < o.multicastTtl then [.hops o.multicastTtl] else [],
      if o.multicastInterface.isEmpty then [] else [.outboundInterface]]

/-- The setup of an open socket, in order. -/
def setup (o : UdpOptions) : List UdpSetup :=
  List.flatten
    [if o.reuseAddress then [.reuseAddress] else [],
      if o.reusePort then [.reusePort] else [],
      [.sizeBuffers o.sendBuffer o.recvBuffer],
      o.multicastSetup,
      [.bind_],
      if o.multicastGroup.isEmpty then [] else [.joinGroup]]

/-- The size of the receive buffer. -/
def bufferSize (o : UdpOptions) : ℕ := if o.maxDatagram ≠ 0 then o.maxDatagram else 1500

lemma bufferSize_pos (o : UdpOptions) : 0 < o.bufferSize := by
  unfold bufferSize
  split <;> omega

end UdpOptions

/-- The server's thread. -/
inductive UdpThread
  | none
  /-- Before `while (!reactor_.io().stopped())`. -/
  | test
  /-- In `run()`. -/
  | running
  /-- It has released its loop. -/
  | left
  | joined
  deriving DecidableEq, Repr

/-- `thread_.joinable()` -/
def UdpThread.joinable : UdpThread → Bool
  | .test => true
  | .running => true
  | .left => true
  | _ => false

/-- The coroutine. -/
inductive Receive
  /-- Not spawned. -/
  | none
  /-- Its start is queued. -/
  | spawned
  /-- A receive is pending. -/
  | waiting
  /-- A datagram was handed over; before the next receive. -/
  | again
  | ended
  /-- Destroyed: unrun, by a spawn on a closed scheduler, or by `destroy_roots()`. -/
  | destroyed
  deriving DecidableEq, Repr

/-- The coroutine is live on the scheduler. -/
def Receive.live : Receive → Bool
  | .spawned => true
  | .waiting => true
  | .again => true
  | _ => false

/-- The phases of the teardown. -/
inductive UdpCall
  | stop
  | close
  /-- Also the destructor. -/
  | destroyRoots
  deriving DecidableEq, Repr

/-- Where `stop()` stands. -/
inductive UdpStop
  /-- Before `if (!thread_.joinable())`. -/
  | test
  | abortAll
  /-- Before `reactor_.io().stop()`. -/
  | halt
  | join
  deriving DecidableEq, Repr

/-- How the owner's last call ended. -/
inductive UdpEnding
  | fresh
  /-- `start()` returned. -/
  | started
  /-- `start()` threw. -/
  | threw
  /-- A phase returned. -/
  | returned
  /-- A phase threw. -/
  | phaseThrew
  deriving DecidableEq, Repr

/-- Where the owner stands. -/
inductive UdpPc
  | done (how : UdpEnding)
  /-- Before the bind address is made. -/
  | address
  | open_
  | setup (rest : List UdpSetup)
  | spawn
  | claim
  | makeThread
  /-- In the `catch` block: before `release_loop()`. -/
  | release
  /-- In the `catch` block: before `io().stop()`. -/
  | halt
  /-- In `stop()`, for the phase that was called. -/
  | stop (p : UdpStop) (call : UdpCall)
  /-- Before `scheduler().close()`. -/
  | close (call : UdpCall)
  /-- Before `scheduler().destroy_roots()`. -/
  | destroy
  deriving DecidableEq, Repr

/-- A datagram server. -/
structure Udp where
  /-- The socket is open. -/
  isOpen : Bool
  aborting_ : Bool
  loops_ : ℕ
  /-- `io().stopped()` -/
  stopped : Bool
  /-- `scheduler().closed()` -/
  closed : Bool
  thread : UdpThread
  receive : Receive
  /-- The number of the host's tasks that are live on the scheduler. -/
  tasks : ℕ
  pc : UdpPc
  /-- A record: the datagrams handed to the host. -/
  delivered : ℕ
  /-- A record: `start()` has come to the construction of its thread. -/
  attempted : Bool
  /-- A record: a `start()` has returned. -/
  started : Bool
  /-- A record: a phase was called since. -/
  phased : Bool
  /-- A record: a receive has failed. -/
  failed : Bool
  deriving DecidableEq, Repr

namespace Udp

/-- What can happen next. -/
inductive Act
  | callStart
  | call (c : UdpCall)
  /-- The owner executes its next statement; where it can fail, `ok` says whether it does not. -/
  | own (ok : Bool)
  /-- The thread tests `stopped()`. -/
  | test
  /-- `run()` returns. -/
  | leave
  /-- A handler throws out of `run()`. -/
  | throws
  /-- The coroutine starts: its buffer is allocated and a receive is started, or one of them
  throws. -/
  | begin_ (ok : Bool)
  /-- A datagram of `size` bytes is received; `threw` says whether the host's handler throws. -/
  | datagram (size : ℕ) (threw : Bool)
  /-- The next receive is started, or throws. -/
  | rearm (ok : Bool)
  /-- The receive fails. -/
  | error
  /-- The host spawns a task on the scheduler. -/
  | spawnTask
  /-- A task of the host ends. -/
  | finishTask
  /-- The host stops the `io_context`. -/
  | stopIo
  deriving DecidableEq

def initial : Udp where
  isOpen := false
  aborting_ := false
  loops_ := 0
  stopped := false
  closed := false
  thread := .none
  receive := .none
  tasks := 0
  pc := .done .fresh
  delivered := 0
  attempted := false
  started := false
  phased := false
  failed := false

/-- The owner is between calls. -/
def isDone : UdpPc → Bool
  | .done _ => true
  | _ => false

/-- The next statement of `start()`. -/
def startStep (o : UdpOptions) (s : Udp) (ok : Bool) : UdpPc → Option Udp
  | .address =>
      some { s with pc := if ok || o.address.isEmpty then .open_ else .done .threw }
  | .open_ =>
      -- a socket that is open cannot be opened
      if ok && !s.isOpen then some { s with isOpen := true, pc := .setup o.setup }
      else some { s with pc := .done .threw }
  | .setup [] => some { s with pc := .spawn }
  | .setup (st :: rest) =>
      some { s with pc := if ok || st.safe then .setup rest else .done .threw }
  | .spawn =>
      if ok then
        some { s with receive := if s.closed then .destroyed else .spawned, pc := .claim }
      else some { s with pc := .done .threw }
  | .claim => some { s with loops_ := s.loops_ + 1, pc := .makeThread }
  | .makeThread =>
      if ok then
        some { s with
          thread := .test
          attempted := true
          started := true
          phased := false
          pc := .done .started }
      else some { s with attempted := true, pc := .release }
  | .release => some { s with loops_ := s.loops_ - 1, pc := .halt }
  | .halt => some { s with stopped := true, pc := .done .threw }
  | _ => none

/-- Where a phase goes when `stop()` has returned. -/
def afterStop : UdpCall → UdpPc
  | .stop => .done .returned
  | call => .close call

/-- The next statement of `stop()`. -/
def stopStep (s : Udp) (ok : Bool) (call : UdpCall) : UdpStop → Option Udp
  | .test =>
      some { s with pc := if s.thread.joinable then .stop .abortAll call else afterStop call }
  | .abortAll =>
      -- the walk is posted if it is the first and the loop is claimed; the post may throw
      if ok || s.aborting_ || decide (s.loops_ = 0) then
        some { s with aborting_ := true, pc := .stop .halt call }
      else some { s with aborting_ := true, pc := .done .phaseThrew }
  | .halt => some { s with stopped := true, pc := .stop .join call }
  | .join =>
      if s.thread = .left then some { s with thread := .joined, pc := afterStop call } else none

/-- The owner's next statement. -/
def ownStep (o : UdpOptions) (s : Udp) (ok : Bool) : Option Udp :=
  match s.pc with
  | .done _ => none
  | .stop p call => s.stopStep ok call p
  | .close call =>
      some { s with
        closed := true
        pc := if call = .destroyRoots then .destroy else .done .returned }
  | .destroy =>
      some { s with
        receive := if s.receive.live then .destroyed else s.receive
        tasks := 0
        pc := .done .returned }
  | pc => s.startStep o ok pc

/-- One action. -/
def step (o : UdpOptions) (s : Udp) : Act → Option Udp
  | .callStart => if isDone s.pc then some { s with pc := .address } else none
  | .call c =>
      if isDone s.pc then some { s with pc := .stop .test c, phased := s.started } else none
  | .own ok => s.ownStep o ok
  | .test =>
      if s.thread = .test then
        if s.stopped then some { s with thread := .left, loops_ := s.loops_ - 1 }
        else some { s with thread := .running }
      else none
  | .leave =>
      -- a receive loop that is queued or waits is work
      if s.thread = .running ∧ (s.stopped = true ∨ s.receive.live = false) then
        some { s with thread := .left, loops_ := s.loops_ - 1, stopped := true }
      else none
  | .throws => if s.thread = .running then some { s with thread := .test } else none
  | .begin_ ok =>
      if s.thread = .running ∧ s.receive = .spawned then
        some { s with receive := if ok then .waiting else .ended }
      else none
  | .datagram size _ =>
      -- what the handler throws is reported and dropped
      if s.thread = .running ∧ s.receive = .waiting ∧ size ≤ o.bufferSize then
        some { s with
          receive := .again
          delivered := if size ≠ 0 then s.delivered + 1 else s.delivered }
      else none
  | .rearm ok =>
      if s.thread = .running ∧ s.receive = .again then
        some { s with receive := if ok then .waiting else .ended }
      else none
  | .error =>
      if s.thread = .running ∧ s.receive = .waiting then
        some { s with receive := .ended, failed := true }
      else none
  | .spawnTask => some { s with tasks := if s.closed then s.tasks else s.tasks + 1 }
  | .finishTask =>
      if s.thread = .running ∧ 0 < s.tasks then some { s with tasks := s.tasks - 1 } else none
  | .stopIo => some { s with stopped := true }

/-- The datagram server as a machine. -/
def machine (o : UdpOptions) : Machine Udp Act where
  init := initial
  step := step o

/-! ## What a step can be -/

/-- The steps of the server, by what they do. -/
inductive Move (o : UdpOptions) (s : Udp) : Act → Udp → Prop
  | callStart (hdone : isDone s.pc = true) : Move o s .callStart { s with pc := .address }
  | call (c : UdpCall) (hdone : isDone s.pc = true) :
      Move o s (.call c) { s with pc := .stop .test c, phased := s.started }
  /-- `start()` has an address, or throws for want of one or of a socket. -/
  | ask {ok : Bool} {pc : UdpPc} (hpc : s.pc = .address ∨ s.pc = .open_)
      (hnext : pc = .open_ ∨ pc = .done .threw) : Move o s (.own ok) { s with pc := pc }
  | opens {ok : Bool} (hpc : s.pc = .open_) (hopen : s.isOpen = false) :
      Move o s (.own ok) { s with isOpen := true, pc := .setup o.setup }
  /-- `start()` goes on with the setup, or throws before it has spawned. -/
  | setUp {ok : Bool} {pc : UdpPc} (hpc : (∃ rest, s.pc = .setup rest) ∨ s.pc = .spawn)
      (hnext : (∃ rest, pc = .setup rest) ∨ pc = .spawn ∨ pc = .done .threw) :
      Move o s (.own ok) { s with pc := pc }
  | spawns {ok : Bool} (hpc : s.pc = .spawn) :
      Move o s (.own ok)
        { s with receive := if s.closed then .destroyed else .spawned, pc := .claim }
  | claims {ok : Bool} (hpc : s.pc = .claim) :
      Move o s (.own ok) { s with loops_ := s.loops_ + 1, pc := .makeThread }
  | makes (hpc : s.pc = .makeThread) :
      Move o s (.own true) { s with
        thread := .test
        attempted := true
        started := true
        phased := false
        pc := .done .started }
  | makesNone {ok : Bool} (hpc : s.pc = .makeThread) :
      Move o s (.own ok) { s with attempted := true, pc := .release }
  | releases {ok : Bool} (hpc : s.pc = .release) :
      Move o s (.own ok) { s with loops_ := s.loops_ - 1, pc := .halt }
  | halts {ok : Bool} (hpc : s.pc = .halt) :
      Move o s (.own ok) { s with stopped := true, pc := .done .threw }
  /-- `stop()` finds no thread to join. -/
  | skips {ok : Bool} {call : UdpCall} (hpc : s.pc = .stop .test call)
      (hjoinable : s.thread.joinable = false) : Move o s (.own ok) { s with pc := afterStop call }
  | enters {ok : Bool} {call : UdpCall} (hpc : s.pc = .stop .test call) :
      Move o s (.own ok) { s with pc := .stop .abortAll call }
  | aborts {ok : Bool} {call : UdpCall} {pc : UdpPc} (hpc : s.pc = .stop .abortAll call)
      (hnext : pc = .stop .halt call ∨ pc = .done .phaseThrew) :
      Move o s (.own ok) { s with aborting_ := true, pc := pc }
  | stops {ok : Bool} {call : UdpCall} (hpc : s.pc = .stop .halt call) :
      Move o s (.own ok) { s with stopped := true, pc := .stop .join call }
  | joins {ok : Bool} {call : UdpCall} (hpc : s.pc = .stop .join call) (hleft : s.thread = .left) :
      Move o s (.own ok) { s with thread := .joined, pc := afterStop call }
  | closes {ok : Bool} {call : UdpCall} {pc : UdpPc} (hpc : s.pc = .close call)
      (hnext : pc = .destroy ∨ pc = .done .returned) :
      Move o s (.own ok) { s with closed := true, pc := pc }
  | destroys {ok : Bool} (hpc : s.pc = .destroy) :
      Move o s (.own ok) { s with
        receive := if s.receive.live then .destroyed else s.receive
        tasks := 0
        pc := .done .returned }
  /-- The thread finds the `io_context` stopped. -/
  | ends (hthread : s.thread = .test) (hstopped : s.stopped = true) :
      Move o s .test { s with thread := .left, loops_ := s.loops_ - 1 }
  | runs (hthread : s.thread = .test) : Move o s .test { s with thread := .running }
  | leave (hthread : s.thread = .running) :
      Move o s .leave { s with thread := .left, loops_ := s.loops_ - 1, stopped := true }
  | throws (hthread : s.thread = .running) : Move o s .throws { s with thread := .test }
  /-- The coroutine starts a receive, or throws. -/
  | receive {act : Act} {ok : Bool} (hact : act = .begin_ ok ∨ act = .rearm ok)
      (hthread : s.thread = .running) (hlive : s.receive.live = true) :
      Move o s act { s with receive := if ok then .waiting else .ended }
  | datagram {size : ℕ} {threw : Bool} (hthread : s.thread = .running)
      (hlive : s.receive.live = true) :
      Move o s (.datagram size threw) { s with
        receive := .again
        delivered := if size ≠ 0 then s.delivered + 1 else s.delivered }
  | error (hthread : s.thread = .running) (hlive : s.receive.live = true) :
      Move o s .error { s with receive := .ended, failed := true }
  /-- A task of the host is spawned or ends. -/
  | tasks {act : Act} {tasks : ℕ} (hact : act = .spawnTask ∨ act = .finishTask) :
      Move o s act { s with tasks := tasks }
  | stopIo : Move o s .stopIo { s with stopped := true }

variable {o : UdpOptions} {s t : Udp}

lemma move_of_startStep {ok : Bool} {pc : UdpPc} (hpc : s.pc = pc)
    (hstep : s.startStep o ok pc = some t) : Move o s (.own ok) t := by
  cases pc with
  | address =>
      cases hstep
      refine .ask (.inl hpc) ?_
      split
      · exact .inl rfl
      · exact .inr rfl
  | open_ =>
      simp only [startStep] at hstep
      split at hstep <;> cases hstep
      · next hopen => exact .opens hpc (by simp_all)
      · exact .ask (.inr hpc) (.inr rfl)
  | setup rest =>
      cases rest with
      | nil =>
          cases hstep
          exact .setUp (.inl ⟨_, hpc⟩) (.inr (.inl rfl))
      | cons st rest =>
          cases hstep
          refine .setUp (.inl ⟨_, hpc⟩) ?_
          split
          · exact .inl ⟨rest, rfl⟩
          · exact .inr (.inr rfl)
  | spawn =>
      simp only [startStep] at hstep
      split at hstep <;> cases hstep
      · exact .spawns hpc
      · exact .setUp (.inr hpc) (.inr (.inr rfl))
  | claim =>
      cases hstep
      exact .claims hpc
  | makeThread =>
      simp only [startStep] at hstep
      split at hstep
      · next hok =>
          cases hstep
          rw [hok]
          exact .makes hpc
      · cases hstep
        exact .makesNone hpc
  | release =>
      cases hstep
      exact .releases hpc
  | halt =>
      cases hstep
      exact .halts hpc
  | _ => cases hstep

lemma move_of_stopStep {ok : Bool} {call : UdpCall} {p : UdpStop} (hpc : s.pc = .stop p call)
    (hstep : s.stopStep ok call p = some t) : Move o s (.own ok) t := by
  cases p with
  | test =>
      cases hstep
      cases hj : s.thread.joinable with
      | true => exact .enters hpc
      | false => exact .skips hpc hj
  | abortAll =>
      simp only [stopStep] at hstep
      split at hstep <;> cases hstep
      · exact .aborts hpc (.inl rfl)
      · exact .aborts hpc (.inr rfl)
  | halt =>
      cases hstep
      exact .stops hpc
  | join =>
      obtain ⟨hleft, hstep⟩ := Option.ite_none_right_eq_some.mp hstep
      cases hstep
      exact .joins hpc hleft

lemma move_of_own {ok : Bool} (hstep : s.ownStep o ok = some t) : Move o s (.own ok) t := by
  unfold ownStep at hstep
  split at hstep
  · cases hstep
  · next p call hpc => exact move_of_stopStep hpc hstep
  · next call hpc =>
      cases hstep
      refine .closes hpc ?_
      split
      · exact .inl rfl
      · exact .inr rfl
  · next hpc =>
      cases hstep
      exact .destroys hpc
  · exact move_of_startStep rfl hstep

lemma move_of_step {act : Act} (hstep : (machine o).step s act = some t) : Move o s act t := by
  cases act with
  | callStart =>
      obtain ⟨hdone, hstep⟩ := Option.ite_none_right_eq_some.mp hstep
      cases hstep
      exact .callStart hdone
  | call c =>
      obtain ⟨hdone, hstep⟩ := Option.ite_none_right_eq_some.mp hstep
      cases hstep
      exact .call c hdone
  | own ok => exact move_of_own hstep
  | test =>
      obtain ⟨hthread, hstep⟩ := Option.ite_none_right_eq_some.mp hstep
      split at hstep <;> cases hstep
      · next hstopped => exact .ends hthread hstopped
      · exact .runs hthread
  | leave =>
      obtain ⟨⟨hthread, -⟩, hstep⟩ := Option.ite_none_right_eq_some.mp hstep
      cases hstep
      exact .leave hthread
  | throws =>
      obtain ⟨hthread, hstep⟩ := Option.ite_none_right_eq_some.mp hstep
      cases hstep
      exact .throws hthread
  | begin_ ok =>
      obtain ⟨⟨hthread, hr⟩, hstep⟩ := Option.ite_none_right_eq_some.mp hstep
      cases hstep
      exact .receive (.inl rfl) hthread (by rw [hr]; rfl)
  | datagram size threw =>
      obtain ⟨⟨hthread, hr, -⟩, hstep⟩ := Option.ite_none_right_eq_some.mp hstep
      cases hstep
      exact .datagram hthread (by rw [hr]; rfl)
  | rearm ok =>
      obtain ⟨⟨hthread, hr⟩, hstep⟩ := Option.ite_none_right_eq_some.mp hstep
      cases hstep
      exact .receive (.inr rfl) hthread (by rw [hr]; rfl)
  | error =>
      obtain ⟨⟨hthread, hr⟩, hstep⟩ := Option.ite_none_right_eq_some.mp hstep
      cases hstep
      exact .error hthread (by rw [hr]; rfl)
  | spawnTask =>
      cases hstep
      exact .tasks (.inl rfl)
  | finishTask =>
      obtain ⟨-, hstep⟩ := Option.ite_none_right_eq_some.mp hstep
      cases hstep
      exact .tasks (.inr rfl)
  | stopIo =>
      cases hstep
      exact .stopIo

end Udp

end ReactorRuntime
