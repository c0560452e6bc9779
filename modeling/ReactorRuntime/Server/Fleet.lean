import ReactorRuntime.Server.TcpServer

/-!
# Several servers, and sessions that move between them

A session may `co_await task::schedule_on` the scheduler of another reactor, of its own server or
of another one, and go on there.  Its control stays in the abort list of the reactor it was made
for, its *home*, and leaves that list where its `run_session` frame ends.

A `Fleet` is a family of servers, each the machine of `Server/TcpServer.lean`, with the scheduler
that each session last moved to.  What runs on a reactor is run by its loop thread, when that is
in `run()`; otherwise by the owner of its server, and only where the owner's code does so: in
`poll()` of a context that has no thread (the `catch` block of `start()`), in `abort_all()` and
`force_all()` when no loop is claimed, and in `destroy_roots()`, which runs after `stop()`.
`runner` says which of the two it is.  Of `task` it is assumed that a coroutine continues, and its
frame ends, on the scheduler it last moved to.

## What is recorded

`log` lists every access to an abort list, newest first: whose list it is, what is done with it,
by whom, and whether the loop was claimed at that moment.  A session's body may also track and
untrack abortables of its own; these are not in the lists of this model, so only the access is
recorded.

A frame that ends away from home takes the control off the list between two statements of whatever
the home loop is doing.  The source has no lock there, so the real thing may happen in the middle
of one.
-/

namespace ReactorRuntime

variable {ι : Type*}

/-- A reactor of one of the servers. -/
abbrev Site (n : ι → ℕ) := (i : ι) × Fin (n i + 1)

/-- A thread. -/
inductive Executor (n : ι → ℕ)
  /-- The thread of the loop of reactor `p`. -/
  | loop (p : Site n)
  /-- The thread that starts and stops server `i`. -/
  | owner (i : ι)
  deriving DecidableEq

/-- What is done with an abort list. -/
inductive Touch
  | track
  | untrack
  /-- `~Abortable` -/
  | remove
  /-- A statement of the walk of kind `k`. -/
  | walk (k : Kind)
  deriving DecidableEq, Repr

/-- One access to an abort list. -/
structure Access (n : ι → ℕ) where
  /-- The reactor whose list it is. -/
  list : Site n
  touch : Touch
  by_ : Executor n
  /-- `loops_ != 0` at that moment. -/
  claimed : Bool
  deriving DecidableEq

/-- The servers, and where their sessions are. -/
structure Fleet (n : ι → ℕ) where
  server : (i : ι) → Server (n i)
  /-- Where session `c` of server `i` last moved to. -/
  moved : ι → ℕ → Option (Site n)
  log : List (Access n)

namespace Fleet

variable {n : ι → ℕ}

/-- What can happen next. -/
inductive Act (n : ι → ℕ)
  /-- Something of server `i`. -/
  | server (i : ι) (act : Server.Act (n i))
  /-- Session `c` of server `i` moves itself to reactor `p`. -/
  | move (i : ι) (c : ℕ) (p : Site n)
  /-- The body of session `c` of server `i` tracks, or untracks, an abortable of its own. -/
  | touch (i : ι) (c : ℕ) (tracks : Bool)
  deriving DecidableEq

/-- Servers that have been constructed. -/
def initial : Fleet n where
  server _ := .initial
  moved _ _ := none
  log := []

/-- The owner runs what there is to run on a reactor without a loop thread. -/
def tends {m : ℕ} (h : Host m) (r : Fin (m + 1)) : Bool :=
  match h.pc with
  | .poll i => decide (i = r.val)
  | .stop (.awaitAbort i) _ => decide (i = r.val)
  | .stop (.awaitForce i) _ => decide (i = r.val)
  -- `destroy_roots()`
  | .done _ => h.stopped_
  | _ => false

/-- The thread that runs what runs on reactor `p`. -/
def runner (s : Fleet n) (p : Site n) : Option (Executor n) :=
  if (s.server p.1).driven p.2 then some (.loop p)
  else if tends (s.server p.1).host p.2 then some (.owner p.1)
  else none

/-- The reactor session `c` of server `i` was made for. -/
def home (s : Fleet n) (i : ι) (c : ℕ) : Site n := ⟨i, ((s.server i).sessions.conn c).home⟩

/-- The reactor session `c` of server `i` runs on. -/
def at_ (s : Fleet n) (i : ι) (c : ℕ) : Site n := (s.moved i c).getD (s.home i c)

/-- `loops_ != 0` of reactor `p`. -/
def claimed (s : Fleet n) (p : Site n) : Bool := decide (0 < (s.server p.1).host.loops_ p.2)

/-- Thread `e` accesses the list of reactor `p`. -/
def access (s : Fleet n) (p : Site n) (e : Executor n) (touch : Touch) : Access n :=
  ⟨p, touch, e, s.claimed p⟩

/-- The access to a list that is a step of a walk. -/
def walkTouch (l : Loop ℕ) : ReactorRuntime.Act ℕ → Option Touch
  | .runAbort => some (.walk .abort)
  | .runForce => some (.walk .force)
  | .resume =>
      match l.stack with
      | .walk k _ _ :: _ => some (.walk k)
      | _ => none
  | _ => none

section

variable [DecidableEq ι]

/-- Server `i` is `t` now, and `a` is recorded. -/
def put (s : Fleet n) (i : ι) (a : Option (Access n)) (t : Server (n i)) : Fleet n :=
  { s with server := Function.update s.server i t, log := a.toList ++ s.log }

/-- An action of server `i` that runs on reactor `r`. -/
def onReactor (cfg : ι → Config) (s : Fleet n) (i : ι) (r : Fin (n i + 1))
    (act : Server.Act (n i)) (touch : Option Touch) : Option (Fleet n) :=
  (s.runner ⟨i, r⟩).bind fun e =>
    ((s.server i).step (cfg i) act).map (s.put i (touch.map (s.access ⟨i, r⟩ e)))

/-- The body of session `c` of server `i` returns, or is destroyed, away from home. -/
def finishAway (cfg : ι → Config) (s : Fleet n) (i : ι) (c : ℕ) : Option (Fleet n) :=
  (s.runner (s.at_ i c)).bind fun _ =>
    ((s.server i).sessionAct (cfg i) (.conn c .finish)).map (s.put i none)

/-- The control of session `c` is destroyed away from home. -/
def unwindAway (cfg : ι → Config) (s : Fleet n) (i : ι) (c : ℕ) (passed : Bool) :
    Option (Fleet n) :=
  let t := s.server i
  let r := (t.sessions.conn c).home
  (s.runner (s.at_ i c)).bind fun e =>
    if passed = ((t.loop r).walked_ && !(t.loop r).awaited c .abort) then
      (Server.sessionAct (cfg i) { t with loop := Function.update t.loop r ((t.loop r).destroy c) }
        (.conn c (.unwind passed))).map (s.put i (some (s.access (s.home i c) e .remove)))
    else none

/-- An action of server `i`, by the thread whose it is. -/
def serverStep (cfg : ι → Config) (s : Fleet n) (i : ι) : Server.Act (n i) → Option (Fleet n)
  | .loop r act => s.onReactor cfg i r (.loop r act) (walkTouch ((s.server i).loop r) act)
  | .conn c .start => s.onReactor cfg i (s.home i c).2 (.conn c .start) (some .track)
  | .conn c .check => s.onReactor cfg i (s.home i c).2 (.conn c .check) none
  | .conn c .finish =>
      if s.at_ i c = s.home i c then s.onReactor cfg i (s.home i c).2 (.conn c .finish) none
      else s.finishAway cfg i c
  | .conn c (.unwind passed) =>
      if s.at_ i c = s.home i c then
        s.onReactor cfg i (s.home i c).2 (.conn c (.unwind passed)) (some .remove)
      else s.unwindAway cfg i c passed
  | .leave r =>
      -- `run()` returns between two handlers
      if (s.server i).job r = .idle ∧ ((s.server i).loop r).stack = [] then
        ((s.server i).step (cfg i) (.leave r)).map (s.put i none)
      else none
  | act => ((s.server i).step (cfg i) act).map (s.put i none)

/-- One action. -/
def step (cfg : ι → Config) (s : Fleet n) : Act n → Option (Fleet n)
  | .server i act => s.serverStep cfg i act
  | .move i c p =>
      if ((s.server i).sessions.conn c).stage = .running then
        (s.runner (s.at_ i c)).map fun _ =>
          { s with moved := Function.update s.moved i (Function.update (s.moved i) c (some p)) }
      else none
  | .touch i c tracks =>
      if ((s.server i).sessions.conn c).stage = .running then
        (s.runner (s.at_ i c)).map fun e =>
          { s with log := s.access (s.home i c) e (if tracks then .track else .untrack) :: s.log }
      else none

/-- The servers as a machine. -/
def machine (cfg : ι → Config) : Machine (Fleet n) (Act n) where
  init := initial
  step := step cfg

end

end Fleet

end ReactorRuntime
