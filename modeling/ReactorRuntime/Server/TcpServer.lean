import ReactorRuntime.Abort.Calls
import ReactorRuntime.Accept.Control
import ReactorRuntime.Server.Sessions

/-!
# The server

`TcpServer` (`reactor.h:612-762`) has `n_` reactors, each with a loop thread, an accept loop on
each of them or one shared accept loop on the first, and the sessions.  The machine of this file
puts the parts together: the abort machinery of each reactor (`Abort/Walk.lean`), the accept loops
(`Accept/Control.lean`), the sessions and their tickets (`Server/Sessions.lean`), and the owner,
the thread that calls `start()` and `stop()`, one statement at a time.

## What holds the parts together

* A loop runs one thing at a time.  `Job` says what a loop is in the middle of: the first part of a
  `run_session`, up to the call of the body, or the last part of one, from the end of the body to
  the end of the frame.  Neither is interrupted by a walk: a walk begins when the loop is idle,
  and goes on when the job that a callback ran is over.  The body itself is free.
* `SessionControl::abort()` is called where the abort machinery says so, by the walk or by `track`.
* The owner waits for the walk inside `abort_all()`.  That the call returns after the walk, when it
  is the only one, is a result about `on_loop_sync` (`Sync/Barrier.lean`).
* An accept loop's statements, and the handlers and frames that are queued, run while the loop's
  thread is in `run()`.

Teardown after the loops have stopped (`close()`, `destroy_roots()`, the destruction of the
`io_context`) is what destroys handlers and frames unrun; the model lets that happen at any time.
Sessions stay on their own loop here; those that move elsewhere are the subject of
`Server/Confinement.lean`.
-/

namespace ReactorRuntime

/-- The options of a server. -/
structure Config where
  platform : Platform
  /-- `bind_.address` is not empty. -/
  named : Bool
  /-- `bind_.reuse_port` -/
  reusePort : Bool
  /-- The bound on live connections, 0 for none. -/
  maximum : ℕ

namespace Config

/-- `!bind_.reuse_port && reactors_.size() > 1` -/
def shared (cfg : Config) (n : ℕ) : Bool := !cfg.reusePort && decide (1 < n + 1)

/-- The number of accept loops. -/
def listeners (cfg : Config) (n : ℕ) : ℕ := if cfg.shared n then 1 else n + 1

/-- The listener of an accept loop that was asked for `port`. -/
def listener (cfg : Config) (port : ℕ) : Listener where
  platform := cfg.platform
  port := port
  named := cfg.named
  reusePort := cfg.reusePort
  bounded := decide (cfg.maximum ≠ 0)

end Config

/-- A loop thread. -/
inductive Thread
  | none
  /-- `claim_loop()` was called for it, and it does not exist yet. -/
  | claimed
  /-- In `run()`. -/
  | running
  /-- It has left `run()` and released its loop. -/
  | left
  | joined
  deriving DecidableEq, Repr

/-- What a loop is in the middle of. -/
inductive Job
  | idle
  /-- `run_session` of connection `c`, before its body is called. -/
  | starting (c : ℕ)
  /-- The end of the frame of connection `c`. -/
  | ending (c : ℕ)
  deriving DecidableEq, Repr

/-- Where `stop()` stands. -/
inductive StopPc
  /-- Before `if (stopped_) { return; }`. -/
  | test
  /-- Before `abort_all()` of reactor `i`. -/
  | abort (i : ℕ)
  /-- Inside `abort_all()` of reactor `i`. -/
  | awaitAbort (i : ℕ)
  /-- Before `stopping.store(true)` for control `i`. -/
  | store (i : ℕ)
  /-- Before the post of `stop_on_owner` for control `i`. -/
  | post (i : ℕ)
  /-- In `wait()` of control `i`. -/
  | reap (i : ℕ)
  /-- In the first grace wait, on reactor `i`; `drained` is its result so far. -/
  | drain (i : ℕ) (drained : Bool)
  | force (i : ℕ)
  | awaitForce (i : ℕ)
  /-- In the second grace wait, on reactor `i`. -/
  | drainForced (i : ℕ)
  | clearGuards
  | halt (i : ℕ)
  | join (i : ℕ)
  | clear
  deriving DecidableEq, Repr

/-- How the owner's last call ended. -/
inductive Ending
  | fresh
  /-- `start()` returned. -/
  | started
  /-- `start()` threw after its `try` block. -/
  | threw
  /-- `start()` threw `std::logic_error`. -/
  | refused
  /-- `stop()` returned. -/
  | stopped
  /-- `stop()` threw. -/
  | stopThrew
  deriving DecidableEq, Repr

/-- Where the owner stands. -/
inductive OwnerPc
  /-- Between calls. -/
  | done (how : Ending)
  /-- Before the work guard of reactor `i`. -/
  | guard (i : ℕ)
  /-- Before `claim_loop()` of reactor `i`. -/
  | claim (i : ℕ)
  /-- Before the thread of reactor `i` is made. -/
  | thread (i : ℕ)
  /-- Before control `i` is made, with the value of `port`. -/
  | control (i port : ℕ)
  /-- Before accept loop `i` is spawned. -/
  | spawn (i port : ℕ)
  /-- At `if (port == 0)` after the spawn. -/
  | firstPort (i port : ℕ)
  /-- In `wait_listening()` of control `i`. -/
  | listening (i : ℕ)
  | setPort
  /-- In the `catch` block, before `stopping.store(true)` for control `i`. -/
  | flag (i : ℕ)
  /-- In the `catch` block, before `poll()` of reactor `i`. -/
  | poll (i : ℕ)
  /-- In `stop()`, called from the `catch` block of `start()` or not. -/
  | stop (pc : StopPc) (inStart : Bool)
  deriving DecidableEq, Repr

/-- The fields of `TcpServer` that `start()` and `stop()` write, and the owner. -/
structure Host (n : ℕ) where
  started_ : Bool
  stopped_ : Bool
  port_ : ℕ
  /-- `guards_.size()` -/
  guards_ : ℕ
  /-- `threads_.size()` -/
  threads_ : ℕ
  /-- `accepts_.size()` -/
  accepts_ : ℕ
  thread : Fin (n + 1) → Thread
  /-- `Reactor::loops_` -/
  loops_ : Fin (n + 1) → ℕ
  /-- The port each accept loop was given. -/
  portOf : Fin (n + 1) → ℕ
  /-- The argument of `start()`. -/
  requested : ℕ
  pc : OwnerPc

/-- A server with `n + 1` reactors. -/
structure Server (n : ℕ) where
  host : Host n
  /-- The controls whose accept loops were spawned, or failed to be. -/
  control : Fin (n + 1) → Option Accept
  /-- The reactor that each accept loop's present connection is for. -/
  target : Fin (n + 1) → Fin (n + 1)
  /-- `next` of the shared accept loop. -/
  next : Fin (n + 1)
  loop : Fin (n + 1) → Loop ℕ
  job : Fin (n + 1) → Job
  sessions : Sessions n

namespace Server

variable {n : ℕ}

/-- What can happen next. -/
inductive Act (n : ℕ)
  /-- The owner calls `start(port)`. -/
  | callStart (port : ℕ)
  /-- The owner calls `stop()`. -/
  | callStop
  /-- The owner executes its next statement; where it can fail, or time out, `ok` says whether it
  does not. -/
  | own (ok : Bool)
  /-- The post of `stop_on_owner` in `stop()` throws. -/
  | postFails
  /-- The thread of reactor `r` leaves `run()` and releases its loop. -/
  | leave (r : Fin (n + 1))
  | accept (i : Fin (n + 1)) (act : Accept.Act)
  /-- Accept loop `i` admits its connection. -/
  | enter (i : Fin (n + 1))
  | refuse (i : Fin (n + 1))
  /-- Accept loop `i` makes the ticket of its connection. -/
  | mint (i : Fin (n + 1))
  /-- Accept loop `i` has launched its connection. -/
  | launched (i : Fin (n + 1))
  /-- Accept loop `i` catches what the launch threw. -/
  | failed (i : Fin (n + 1)) (badAlloc : Bool)
  | conn (c : ℕ) (act : Conn.Act)
  /-- Loop `r` goes on with, or begins, a walk. -/
  | loop (r : Fin (n + 1)) (act : ReactorRuntime.Act ℕ)
  deriving DecidableEq

/-- A server that has been constructed. -/
def initial : Server n where
  host :=
    { started_ := false
      stopped_ := false
      port_ := 0
      guards_ := 0
      threads_ := 0
      accepts_ := 0
      thread _ := .none
      loops_ _ := 0
      portOf _ := 0
      requested := 0
      pc := .done .fresh }
  control _ := none
  target i := i
  next := 0
  loop _ := .initial
  job _ := .idle
  sessions := .initial

/-- The owner goes to `pc`. -/
def goto (pc : OwnerPc) (s : Server n) : Server n := { s with host := { s.host with pc := pc } }

/-- One round of a loop of the owner over the first `bound` reactors or controls: the body for
`i`, or on to `after` when there is no such. -/
def each (s : Server n) (i bound : ℕ) (body : Fin (n + 1) → Option (Server n)) (after : OwnerPc) :
    Option (Server n) :=
  if h : i < n + 1 ∧ i < bound then body ⟨i, h.1⟩ else some (s.goto after)

/-- An action of accept loop `i` or on its control. -/
def acceptAct (cfg : Config) (s : Server n) (i : Fin (n + 1)) (act : Accept.Act) :
    Option (Server n) :=
  (s.control i).bind fun a =>
    (a.step (cfg.listener (s.host.portOf i)) act).map fun a' =>
      { s with control := Function.update s.control i (some a') }

/-- An action of the abort machinery of reactor `r`. -/
def loopAct (s : Server n) (r : Fin (n + 1)) (act : ReactorRuntime.Act ℕ) : Option (Server n) :=
  ((s.loop r).step act).map fun l => { s with loop := Function.update s.loop r l }

/-- An action of the sessions. -/
def sessionAct (cfg : Config) (s : Server n) (act : Sessions.Act n) : Option (Server n) :=
  (s.sessions.step cfg.maximum act).map fun t => { s with sessions := t }

/-- `wait_listening()` of control `i`: on to `next` with the control, or into the `catch` block. -/
def waitListening (s : Server n) (i : Fin (n + 1)) (next : Accept → OwnerPc) :
    Option (Server n) :=
  (s.control i).bind fun a =>
    if a.ready then some (s.goto (next a))
    else if a.finished then some (s.goto (.flag 0))
    else none

/-- The next statement of `start()`. -/
def startStep (cfg : Config) (s : Server n) (ok : Bool) : OwnerPc → Option (Server n)
  | .guard i =>
      s.each i (n + 1) (fun _ =>
        if ok then
          some (goto (.guard (i + 1))
            { s with host := { s.host with guards_ := s.host.guards_ + 1 } })
        else some (s.goto (.flag 0))) (.claim 0)
  | .claim i =>
      s.each i (n + 1) (fun r =>
        some (goto (.thread i)
          { s with host :=
            { s.host with
              loops_ := Function.update s.host.loops_ r (s.host.loops_ r + 1)
              thread := Function.update s.host.thread r .claimed } })) (.control 0 s.host.requested)
  | .thread i =>
      s.each i (n + 1) (fun r =>
        if ok then
          some (goto (.claim (i + 1))
            { s with host :=
              { s.host with
                threads_ := s.host.threads_ + 1
                thread := Function.update s.host.thread r .running } })
        else
          some (goto (.flag 0)
            { s with host :=
              { s.host with
                loops_ := Function.update s.host.loops_ r (s.host.loops_ r - 1)
                thread := Function.update s.host.thread r .none } })) (.control 0 s.host.requested)
  | .control i port =>
      s.each i (cfg.listeners n) (fun _ =>
        if ok then
          some (goto (.spawn i port)
            { s with host := { s.host with accepts_ := s.host.accepts_ + 1 } })
        else some (s.goto (.flag 0))) (.listening 0)
  | .spawn i port =>
      s.each i (cfg.listeners n) (fun r =>
        let t := { s with
          control := Function.update s.control r
            -- a spawn that throws reports to the control itself
            (some (if ok then Accept.initial else Accept.initial.finish none))
          host := { s.host with portOf := Function.update s.host.portOf r port } }
        some (t.goto (if ok then .firstPort i port else .flag 0))) (.listening 0)
  | .firstPort i port =>
      if port = 0 ∧ cfg.shared n = false then
        s.waitListening 0 fun front => .control (i + 1) front.bound
      else some (s.goto (.control (i + 1) port))
  | .listening i =>
      s.each i s.host.accepts_ (fun r => s.waitListening r fun _ => .listening (i + 1)) .setPort
  | .setPort =>
      (s.control 0).map fun front =>
        goto (.done .started) { s with host := { s.host with port_ := front.bound } }
  | .flag i =>
      s.each i s.host.accepts_
        (fun r => (s.acceptAct cfg r .store).map (goto (.flag (i + 1)))) (.poll s.host.threads_)
  | .poll i =>
      -- nothing was spawned on a reactor without a thread
      s.each i (n + 1) (fun _ => some (s.goto (.poll (i + 1)))) (.stop .test true)
  | _ => none

/-- The walk of kind `k` that was posted to reactor `r` has run. -/
def walkOver (s : Server n) (r : Fin (n + 1)) : Kind → Bool
  | .abort => !(s.loop r).abortPosted && decide (Loop.walks .abort (s.loop r).stack = 0)
  | .force => decide ((s.loop r).forcePosted = 0) && decide (Loop.walks .force (s.loop r).stack = 0)

/-- `wait_sessions_until` of reactor `r`: `ok` when it returns because no session is left, and not
because the time is over. -/
def drainOne (s : Server n) (r : Fin (n + 1)) (ok : Bool) (next : Bool → OwnerPc) :
    Option (Server n) :=
  if ok = decide (s.sessions.sessions_ r = 0) then some (s.goto (next ok)) else none

/-- How a call of `stop()` ends. -/
def stopEnd (inStart : Bool) : OwnerPc := .done (if inStart then .threw else .stopped)

/-- The next statement of `stop()`. -/
def stopStep (cfg : Config) (s : Server n) (ok inStart : Bool) : StopPc → Option (Server n)
  | .test =>
      if s.host.stopped_ then some (s.goto (stopEnd inStart))
      else
        some (goto (.stop (.abort 0) inStart) { s with host := { s.host with stopped_ := true } })
  | .abort i =>
      s.each i (n + 1)
        (fun r => (s.loopAct r .requestAbort).map (goto (.stop (.awaitAbort i) inStart)))
        (.stop (.store 0) inStart)
  | .awaitAbort i =>
      s.each i (n + 1)
        (fun r =>
          if s.walkOver r .abort then some (s.goto (.stop (.abort (i + 1)) inStart)) else none)
        (.stop (.store 0) inStart)
  | .store i =>
      s.each i s.host.accepts_
        (fun r => (s.acceptAct cfg r .store).map (goto (.stop (.post i) inStart)))
        (.stop (.reap 0) inStart)
  | .post i =>
      s.each i s.host.accepts_
        (fun r => (s.acceptAct cfg r .post).map (goto (.stop (.store (i + 1)) inStart)))
        (.stop (.reap 0) inStart)
  | .reap i =>
      s.each i s.host.accepts_
        (fun r =>
          if (s.control r).any Accept.finished then some (s.goto (.stop (.reap (i + 1)) inStart))
          else none)
        (.stop (.drain 0 true) inStart)
  | .drain i drained =>
      s.each i (n + 1)
        (fun r => s.drainOne r ok fun ended => .stop (.drain (i + 1) (ended && drained)) inStart)
        (.stop (if drained then .clearGuards else .force 0) inStart)
  | .force i =>
      s.each i (n + 1)
        (fun r => (s.loopAct r .requestForce).map (goto (.stop (.awaitForce i) inStart)))
        (.stop (.drainForced 0) inStart)
  | .awaitForce i =>
      s.each i (n + 1)
        (fun r =>
          if s.walkOver r .force then some (s.goto (.stop (.force (i + 1)) inStart)) else none)
        (.stop (.drainForced 0) inStart)
  | .drainForced i =>
      s.each i (n + 1) (fun r => s.drainOne r ok fun _ => .stop (.drainForced (i + 1)) inStart)
        (.stop .clearGuards inStart)
  | .clearGuards =>
      some (goto (.stop (.halt 0) inStart) { s with host := { s.host with guards_ := 0 } })
  | .halt i =>
      s.each i (n + 1) (fun _ => some (s.goto (.stop (.halt (i + 1)) inStart)))
        (.stop (.join 0) inStart)
  | .join i =>
      s.each i s.host.threads_
        (fun r =>
          if s.host.thread r = .left then
            some (goto (.stop (.join (i + 1)) inStart)
              { s with host :=
                { s.host with thread := Function.update s.host.thread r .joined } })
          else none)
        (.stop .clear inStart)
  | .clear =>
      some (goto (stopEnd inStart)
        { s with host := { s.host with threads_ := 0, accepts_ := 0 } })

/-- The thread of reactor `r` is in `run()`. -/
def driven (s : Server n) (r : Fin (n + 1)) : Prop := s.host.thread r = .running

instance (s : Server n) (r : Fin (n + 1)) : Decidable (s.driven r) :=
  inferInstanceAs (Decidable (_ = _))

/-- Where accept loop `i` stands. -/
def acceptPc (s : Server n) (i : Fin (n + 1)) : Option AcceptPc := (s.control i).map Accept.pc

/-- Accept loop `i` chooses the reactor its next connection is for: its own, or the next in
turn. -/
def chooseTarget (cfg : Config) (i : Fin (n + 1)) (s : Server n) : Server n :=
  if cfg.shared n then
    { s with
      target := Function.update s.target i s.next
      next := if h : s.next.val + 1 < n + 1 then ⟨s.next.val + 1, h⟩ else 0 }
  else { s with target := Function.update s.target i i }

/-- An accept loop, apart from the statements that admit and launch. -/
def acceptStep (cfg : Config) (s : Server n) (i : Fin (n + 1)) : Accept.Act → Option (Server n)
  | .store => none
  | .post => none
  | .complete error => s.acceptAct cfg i (.complete error)
  | .expire => s.acceptAct cfg i .expire
  | .stopOnOwner => if s.driven i then s.acceptAct cfg i .stopOnOwner else none
  | .dispatch => if s.driven i then s.acceptAct cfg i .dispatch else none
  | .run o =>
      if s.driven i ∧ s.acceptPc i ≠ some .admission ∧ s.acceptPc i ≠ some .launch then
        (s.acceptAct cfg i (.run o)).map fun t =>
          if t.acceptPc i = some .initiate then t.chooseTarget cfg i else t
      else none

/-- Accept loop `i` is at `pc` and goes on from there with outcome `o`, while the sessions take
`act`. -/
def admitStep (cfg : Config) (s : Server n) (i : Fin (n + 1)) (pc : AcceptPc) (o : Accept.Outcome)
    (act : Sessions.Act n) : Option (Server n) :=
  if s.acceptPc i = some pc then
    (s.acceptAct cfg i (.run o)).bind fun t => t.sessionAct cfg act
  else none

/-- Loop `r` takes up a job. -/
def setJob (r : Fin (n + 1)) (j : Job) (s : Server n) : Server n :=
  { s with job := Function.update s.job r j }

/-- An action of connection `c`, with what it asks of its loop. -/
def connStep (cfg : Config) (s : Server n) (c : ℕ) (act : Conn.Act) : Option (Server n) :=
  let r := (s.sessions.conn c).home
  match act with
  | .start =>
      -- `SessionControl control(...); reactor.track(control);`
      if s.driven r ∧ s.job r = .idle ∧ (s.loop r).stack = [] then
        ((s.loopAct r (.track c)).bind fun t => t.sessionAct cfg (.conn c .start)).map
          (setJob r (.starting c))
      else none
  | .check =>
      if s.job r = .starting c ∧ (s.loop r).stack = [] then
        (s.sessionAct cfg (.conn c .check)).map
          (setJob r (if (s.sessions.conn c).aborted then .ending c else .idle))
      else none
  | .finish =>
      if s.job r = .idle ∧ (s.loop r).hostTurn = true then
        (s.sessionAct cfg (.conn c .finish)).map (setJob r (.ending c))
      else none
  | .unwind passed =>
      if s.job r = .ending c ∧ passed = ((s.loop r).walked_ && !(s.loop r).awaited c .abort) then
        (s.loopAct r (.destroy c)).bind fun t => t.sessionAct cfg (.conn c (.unwind passed))
      else none
  | .leave =>
      (s.sessionAct cfg (.conn c .leave)).map fun t =>
        if s.job r = .ending c then t.setJob r .idle else t
  | .take => if s.driven r then s.sessionAct cfg (.conn c .take) else none
  -- only the loop calls it
  | .abort => none
  | act => s.sessionAct cfg (.conn c act)

/-- Loop `r` goes on with the library code it is in; `SessionControl::abort()` asks the session to
stop. -/
def resumeStep (cfg : Config) (s : Server n) (r : Fin (n + 1)) : Option (Server n) :=
  match (s.loop r).nextCall with
  | some (.abort, c) => (s.loopAct r .resume).bind fun t => t.sessionAct cfg (.conn c .abort)
  | _ => s.loopAct r .resume

/-- Loop `r` is in the last part of a `run_session`. -/
def isEnding : Job → Bool
  | .ending _ => true
  | _ => false

/-- What loop `r` does by itself. -/
def loopStep (cfg : Config) (s : Server n) (r : Fin (n + 1)) :
    ReactorRuntime.Act ℕ → Option (Server n)
  | .resume => if isEnding (s.job r) then none else s.resumeStep cfg r
  | .ret => if isEnding (s.job r) then none else s.loopAct r .ret
  | .runAbort => if s.job r = .idle then s.loopAct r .runAbort else none
  | .runForce => if s.job r = .idle then s.loopAct r .runForce else none
  | _ => none

/-- The owner's next statement. -/
def ownStep (cfg : Config) (s : Server n) (ok : Bool) : Option (Server n) :=
  match s.host.pc with
  | .done _ => none
  | .stop pc inStart => s.stopStep cfg ok inStart pc
  | pc => s.startStep cfg ok pc

/-- The owner calls `start(port)`. -/
def callStart (port : ℕ) (s : Server n) : Server n :=
  if s.host.started_ ∨ s.host.stopped_ then s.goto (.done .refused)
  else
    goto (.guard 0) { s with host := { s.host with started_ := true, requested := port } }

/-- The owner is between calls. -/
def isDone : OwnerPc → Bool
  | .done _ => true
  | _ => false

/-- One action. -/
def step (cfg : Config) (s : Server n) : Act n → Option (Server n)
  | .callStart port => if isDone s.host.pc then some (s.callStart port) else none
  | .callStop => if isDone s.host.pc then some (s.goto (.stop .test false)) else none
  | .own ok => s.ownStep cfg ok
  | .postFails =>
      match s.host.pc with
      | .stop (.post i) inStart =>
          if i < s.host.accepts_ then
            some (s.goto (.done (if inStart then .threw else .stopThrew)))
          else none
      | _ => none
  | .leave r =>
      if s.host.thread r = .running then
        some { s with host :=
          { s.host with
            thread := Function.update s.host.thread r .left
            loops_ := Function.update s.host.loops_ r (s.host.loops_ r - 1) } }
      else none
  | .accept i act => s.acceptStep cfg i act
  | .enter i => s.admitStep cfg i .admission .ok (.enter i)
  | .refuse i => s.admitStep cfg i .admission .refused (.refuse i)
  | .mint i =>
      if s.acceptPc i = some .launch then s.sessionAct cfg (.mint i (s.target i)) else none
  | .launched i => s.admitStep cfg i .launch .ok (.launched i)
  | .failed i badAlloc => s.admitStep cfg i .launch (.throws badAlloc) (.failed i)
  | .conn c act => s.connStep cfg c act
  | .loop r act => s.loopStep cfg r act

/-- The server as a machine. -/
def machine (cfg : Config) : Machine (Server n) (Act n) where
  init := initial
  step := step cfg

/-! ## Some runs

What the witnesses of the files that follow are put together from.  Several reactors have one shared
accept loop here, on the first of them.
-/

/-- A server with one connection at a time. -/
def oneAtATime : Config where
  platform := ⟨true, false⟩
  named := false
  reusePort := false
  maximum := 1

/-- A server with two connections at a time. -/
def twoAtATime : Config := { oneAtATime with maximum := 2 }

/-- The owner starts the server, up to the spawn of its accept loop. -/
def startRun : List (Act n) := .callStart 80 :: List.replicate (3 * n + 7) (.own true)

/-- The accept loop sets its listener up and starts to accept. -/
def listenRun : List (Act n) :=
  [.accept 0 .dispatch, .accept 0 (.run .ok), .accept 0 (.run .ok), .accept 0 (.run .ok),
    .accept 0 (.run .ok), .accept 0 (.run .ok), .accept 0 (.run .ok), .accept 0 (.run (.at_ 80)),
    .accept 0 (.run .ok), .accept 0 (.run .ok), .accept 0 (.run .ok)]

/-- `start()` returns once the listener is there. -/
def startedRun : List (Act n) :=
  [.own true, .own true, .own true, .own true, .own true]

/-- A connection arrives and is admitted. -/
def admitRun : List (Act n) :=
  [.accept 0 (.complete none), .accept 0 .dispatch, .accept 0 (.run .ok), .accept 0 (.run .ok),
    .enter 0]

/-- The first connection is launched and its body is called; the accept loop accepts again. -/
def launchRun : List (Act n) :=
  [.mint 0, .conn 0 .launch, .conn 0 (.frame true), .conn 0 (.spawn true), .launched 0,
    .conn 0 .start, .loop 0 .resume, .loop 0 .resume, .conn 0 .check,
    .accept 0 (.run .ok), .accept 0 (.run .ok)]

/-- The second connection is handed to the second reactor, which has not looked at it yet. -/
def handOffRun : List (Act 1) :=
  admitRun ++ [.mint 0, .conn 1 .launch, .conn 1 (.post true), .launched 0,
    .accept 0 (.run .ok), .accept 0 (.run .ok)]

/-- One session runs on the first reactor, and one is on its way to the second. -/
def servingRun : List (Act 1) :=
  List.flatten [startRun, listenRun, startedRun, admitRun, launchRun, handOffRun]

/-- `stop()` is called, and the first reactor asks its session to stop. -/
def walkRun : List (Act n) :=
  [.callStop, .own true, .own true, .loop 0 .runAbort, .loop 0 .resume, .loop 0 .ret,
    .loop 0 .resume, .own true]

/-- The accept loop is told to stop, and reaped. -/
def reapRun : List (Act n) :=
  [.own true, .own true, .own true, .own true, .accept 0 .stopOnOwner, .accept 0 .dispatch,
    .accept 0 (.run .ok), .accept 0 (.run .ok), .accept 0 (.run .ok), .own true, .own true]

end Server

end ReactorRuntime
