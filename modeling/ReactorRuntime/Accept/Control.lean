import ReactorRuntime.Accept.Errors
import ReactorRuntime.Library.Machine

/-!
# One accept loop and its control

`accept_loop` and `shared_accept_loop` (`reactor.h:521-595`) are one coroutine up to the reactor a
connection goes to: it sets up a listener, then accepts, admits and launches until it is told to
stop.  `AcceptControl` is what the server holds of it.  `stop()` stores `stopping`, posts
`stop_on_owner` to the loop and waits for `finished`.

The machine has the control, the coroutine and the loop it runs on.  The coroutine advances one
statement at a time; `stopping` is stored by another thread, so that may come between any two of
them.  `stop_on_owner` runs on the coroutine's own loop, so it finds the coroutine suspended (or
ended), never in the middle of a statement.  A suspended coroutine is resumed by the loop, from a
completion that is queued; a pending accept or timer gets its completion from the kernel, or from
`stop_on_owner`, which closes the acceptor and cancels the timer.  A completion that is already
queued is not taken back.

Every statement that can throw may throw: the steps of the setup, the start of an
asynchronous operation, the allocation of a frame for `retry`, and a launch.
-/

namespace ReactorRuntime

/-- The steps of the setup, in order. -/
inductive Setup
  /-- `asio::ip::make_address(bind.address)` -/
  | makeAddress
  | open_
  | reuseAddress
  | reusePort
  | bind_
  | listen
  /-- `control->bound = acceptor.local_endpoint()` -/
  | localEndpoint
  deriving DecidableEq, Repr

/-- Why a coroutine ended with an exception. -/
inductive Cause
  | setup (step : Setup)
  /-- Starting `async_accept` or `async_wait` threw, or the frame of `retry` could not be made. -/
  | start
  /-- `launch_session` threw something other than `std::bad_alloc`. -/
  | launch
  /-- `retry` judged the error fatal. -/
  | judged (e : ErrorCode)
  deriving DecidableEq, Repr

/-- Where the coroutine stands. -/
inductive AcceptPc
  /-- Spawned: its start is queued on the loop. -/
  | spawned
  /-- Before the first `if (control->stopping.load())`. -/
  | started
  | setup (step : Setup)
  /-- Before `control->listening()`. -/
  | announce
  /-- Before `while (!control->stopping.load())`. -/
  | loopTest
  /-- Before `async_accept`. -/
  | initiate
  /-- Suspended; the accept is pending. -/
  | accepting
  /-- Suspended; the completion of the accept is queued. -/
  | accepted (error : Option ErrorCode)
  /-- Resumed with the result of the accept. -/
  | arrived (error : Option ErrorCode)
  /-- Before the stopping check after a successful accept. -/
  | check
  /-- Before `admission->try_enter()`. -/
  | admission
  | launch
  /-- `launch_session` threw `std::bad_alloc`. -/
  | pressed
  /-- In `retry`, before its stopping check. -/
  | retryTest (error : ErrorCode)
  /-- In `retry`, before it sorts the error. -/
  | judging (error : ErrorCode)
  /-- In `retry`, before the timer is armed. -/
  | arming (delay : ℕ)
  /-- Suspended; the retry timer is pending. -/
  | timing
  /-- Suspended; the completion of the timer is queued: it expired, or it was cancelled. -/
  | timed (expired : Bool)
  /-- Resumed from the timer. -/
  | woken (expired : Bool)
  /-- The coroutine has ended; before `control->finish(error)`. -/
  | ending (error : Option Cause)
  | ended
  deriving DecidableEq, Repr

namespace AcceptPc

/-- The coroutine is being executed. -/
def executing : AcceptPc → Bool
  | .spawned => false
  | .accepting => false
  | .accepted _ => false
  | .timing => false
  | .timed _ => false
  | .ended => false
  | _ => true

/-- The coroutine waits for something that is queued on its loop. -/
def queued : AcceptPc → Bool
  | .spawned => true
  | .accepted _ => true
  | .timed _ => true
  | _ => false

end AcceptPc

/-- What a listener is asked to do, and where. -/
structure Listener where
  platform : Platform
  port : ℕ
  /-- `bind.address` is not empty. -/
  named : Bool
  /-- `bind.reuse_port`, and each reactor has its own listener. -/
  reusePort : Bool
  /-- There is a bound on live connections. -/
  bounded : Bool

/-- The control, its coroutine and its loop. -/
structure Accept where
  stopping : Bool
  /-- `stop_on_owner` is queued on the loop. -/
  posted : Bool
  /-- The acceptor's socket is open. -/
  isOpen : Bool
  /-- The control still has its acceptor. -/
  acceptor : Bool
  pc : AcceptPc
  pacing : Pacing
  ready : Bool
  finished : Bool
  startup_error : Option Cause
  /-- The port of `bound`. -/
  bound : ℕ
  /-- A record: `stop_on_owner` has run. -/
  stopRan : Bool
  /-- A record: `stopping` was already set at the last stopping check. -/
  late : Bool
  /-- A record of the launches, each with `late` at that time. -/
  launches : List Bool
  deriving DecidableEq, Repr

namespace Accept

/-- What the surroundings answer to a statement. -/
inductive Outcome
  | ok
  | throws (badAlloc : Bool)
  /-- `try_enter` finds no place. -/
  | refused
  /-- The acceptor's local endpoint is not the one bound. -/
  | moved (b : Bool)
  /-- `local_endpoint` reports this port. -/
  | at_ (port : ℕ)
  deriving DecidableEq, Repr

/-- What can happen next. -/
inductive Act
  /-- `control->stopping.store(true)` -/
  | store
  /-- `stop_on_owner` is posted. -/
  | post
  /-- The loop runs `stop_on_owner`. -/
  | stopOnOwner
  /-- The loop takes the coroutine's queued start or completion. -/
  | dispatch
  /-- The pending accept completes. -/
  | complete (error : Option ErrorCode)
  /-- The retry timer expires. -/
  | expire
  /-- The coroutine executes its next statement. -/
  | run (o : Outcome)
  deriving DecidableEq, Repr

/-- A control whose coroutine has been spawned. -/
def initial : Accept where
  stopping := false
  posted := false
  isOpen := false
  acceptor := true
  pc := .spawned
  pacing := .reset
  ready := false
  finished := false
  startup_error := none
  bound := 0
  stopRan := false
  late := false
  launches := []

/-- The step of the setup after `st`. -/
def nextSetup (l : Listener) : Setup → AcceptPc
  | .makeAddress => .setup .open_
  | .open_ => .setup .reuseAddress
  | .reuseAddress => if l.reusePort then .setup .reusePort else .setup .bind_
  | .reusePort => .setup .bind_
  | .bind_ => .setup .listen
  | .listen => .setup .localEndpoint
  | .localEndpoint => .announce

lemma nextSetup_cases (l : Listener) (st : Setup) :
    nextSetup l st = .announce ∨ ∃ st', nextSetup l st = .setup st' := by
  cases st <;> simp only [nextSetup] <;> try split
  all_goals simp

/-- One step of the setup. -/
def runSetup (l : Listener) (s : Accept) (st : Setup) : Outcome → Option Accept
  | .ok =>
      if st = .localEndpoint then none
      else some { s with isOpen := s.isOpen || decide (st = .open_), pc := nextSetup l st }
  | .at_ port =>
      -- a bind to a port other than 0 yields that port
      if st = .localEndpoint ∧ port ≠ 0 ∧ (l.port ≠ 0 → port = l.port) then
        some { s with bound := port, pc := .announce }
      else none
  | .throws _ =>
      if st = .makeAddress ∧ l.named = false then none
      else some { s with pc := .ending (some (.setup st)) }
  | _ => none

/-- The coroutine looks at `stopping`, and goes to `yes` or `no`. -/
def testStopping (yes no : AcceptPc) (s : Accept) : Accept :=
  { s with late := s.stopping, pc := if s.stopping then yes else no }

/-- `finish(error)` -/
def finish (error : Option Cause) (s : Accept) : Accept :=
  { s with
    acceptor := false
    isOpen := false
    startup_error := error
    finished := true
    pc := .ended }

/-- The verdict on an accept error, once the control has not been told to stop. -/
def judgeStep (l : Listener) (s : Accept) (e : ErrorCode) (moved : Bool) : Accept :=
  let (verdict, pacing) := judge l.platform e moved s.pacing
  { s with
    pacing := pacing
    pc := match verdict with
      | .skip => .loopTest
      | .fail => .ending (some (.judged e))
      | .pause d => .arming d }

/-- The coroutine executes its next statement. -/
def runStep (l : Listener) (s : Accept) (o : Outcome) : Option Accept :=
  match s.pc, o with
  | .started, .ok => some (s.testStopping (.ending none) (.setup .makeAddress))
  | .setup st, o => s.runSetup l st o
  | .announce, .ok => some { s with ready := true, pc := .loopTest }
  | .loopTest, .ok => some (s.testStopping (.ending none) .initiate)
  | .initiate, .ok =>
      -- an accept on a closed acceptor completes at once
      some { s with pc := if s.isOpen then .accepting else .accepted (some (.sys .EBADF)) }
  | .initiate, .throws _ => some { s with pc := .ending (some .start) }
  | .arrived (some e), .ok => some { s with pc := .retryTest e }
  | .arrived (some _), .throws _ => some { s with pc := .ending (some .start) }
  | .arrived none, .ok => some { s with pacing := .reset, pc := .check }
  | .check, .ok => some (s.testStopping (.ending none) .admission)
  | .admission, .ok => some { s with pc := .launch }
  | .admission, .refused => if l.bounded then some { s with pc := .loopTest } else none
  | .launch, .ok => some { s with launches := s.late :: s.launches, pc := .loopTest }
  | .launch, .throws badAlloc =>
      some { s with pc := if badAlloc then .pressed else .ending (some .launch) }
  | .pressed, .ok => some { s with pc := .retryTest (.sys .ENOMEM) }
  | .pressed, .throws _ => some { s with pc := .ending (some .start) }
  | .retryTest e, .ok => some (s.testStopping (.ending none) (.judging e))
  | .judging e, .moved b => some (s.judgeStep l e b)
  | .arming _, .ok => some { s with pc := .timing }
  | .arming _, .throws _ => some { s with pc := .ending (some .start) }
  | .woken expired, .ok =>
      -- `co_return !timer_error && !stopping.load()`
      some { s with pc := if expired && !s.stopping then .loopTest else .ending none }
  | .ending error, .ok => some (s.finish error)
  | _, _ => none

/-- `stop_on_owner`: what is pending completes. -/
def stopOnOwner (s : Accept) : Accept :=
  { s with
    posted := false
    stopRan := true
    isOpen := false
    pc := match s.pc with
      | .accepting => .accepted (some (.sys .ECANCELED))
      | .timing => .timed false
      | pc => pc }

/-- The loop resumes the coroutine. -/
def dispatch (s : Accept) : Option Accept :=
  match s.pc with
  | .spawned => some { s with pc := .started }
  | .accepted error => some { s with pc := .arrived error }
  | .timed expired => some { s with pc := .woken expired }
  | _ => none

/-- One action. -/
def step (l : Listener) (s : Accept) : Act → Option Accept
  | .store => some { s with stopping := true }
  | .post => if s.stopping then some { s with posted := true } else none
  | .stopOnOwner => if s.posted ∧ s.pc.executing = false then some s.stopOnOwner else none
  | .dispatch => s.dispatch
  | .complete error => if s.pc = .accepting then some { s with pc := .accepted error } else none
  | .expire => if s.pc = .timing then some { s with pc := .timed true } else none
  | .run o => s.runStep l o

/-- One accept loop as a machine. -/
def machine (l : Listener) : Machine Accept Act where
  init := initial
  step := step l

/-! ## The moves -/

/-- The steps of the machine, one constructor for each thing that can happen. -/
inductive Move (l : Listener) : Accept → Act → Accept → Prop
  | store {s} : Move l s .store { s with stopping := true }
  | post {s} (told : s.stopping = true) : Move l s .post { s with posted := true }
  | stopOnOwner {s} (posted : s.posted = true) (idle : s.pc.executing = false) :
      Move l s .stopOnOwner s.stopOnOwner
  | begin_ {s} (pc : s.pc = .spawned) : Move l s .dispatch { s with pc := .started }
  | arrive {s error} (pc : s.pc = .accepted error) :
      Move l s .dispatch { s with pc := .arrived error }
  | wake {s expired} (pc : s.pc = .timed expired) :
      Move l s .dispatch { s with pc := .woken expired }
  | complete {s error} (pc : s.pc = .accepting) :
      Move l s (.complete error) { s with pc := .accepted error }
  | expire {s} (pc : s.pc = .timing) : Move l s .expire { s with pc := .timed true }
  | start {s} (pc : s.pc = .started) :
      Move l s (.run .ok) (s.testStopping (.ending none) (.setup .makeAddress))
  | setUp {s st} (pc : s.pc = .setup st) (more : st ≠ .localEndpoint) :
      Move l s (.run .ok)
        { s with isOpen := s.isOpen || decide (st = .open_), pc := nextSetup l st }
  | bindAt {s port} (pc : s.pc = .setup .localEndpoint) (real : port ≠ 0)
      (asked : l.port ≠ 0 → port = l.port) :
      Move l s (.run (.at_ port)) { s with bound := port, pc := .announce }
  | setUpFails {s st b} (pc : s.pc = .setup st) (can : st = .makeAddress → l.named = true) :
      Move l s (.run (.throws b)) { s with pc := .ending (some (.setup st)) }
  | announce {s} (pc : s.pc = .announce) :
      Move l s (.run .ok) { s with ready := true, pc := .loopTest }
  | again {s} (pc : s.pc = .loopTest) :
      Move l s (.run .ok) (s.testStopping (.ending none) .initiate)
  | await {s} (pc : s.pc = .initiate) (isOpen : s.isOpen = true) :
      Move l s (.run .ok) { s with pc := .accepting }
  | awaitClosed {s} (pc : s.pc = .initiate) (closed : s.isOpen = false) :
      Move l s (.run .ok) { s with pc := .accepted (some (.sys .EBADF)) }
  | startFails {s b} (pc : s.pc = .initiate ∨ (∃ e, s.pc = .arrived (some e)) ∨ s.pc = .pressed ∨
      ∃ d, s.pc = .arming d) :
      Move l s (.run (.throws b)) { s with pc := .ending (some .start) }
  | failed {s e} (pc : s.pc = .arrived (some e)) : Move l s (.run .ok) { s with pc := .retryTest e }
  | connected {s} (pc : s.pc = .arrived none) :
      Move l s (.run .ok) { s with pacing := .reset, pc := .check }
  | check {s} (pc : s.pc = .check) : Move l s (.run .ok) (s.testStopping (.ending none) .admission)
  | admission {s} (pc : s.pc = .admission) : Move l s (.run .ok) { s with pc := .launch }
  | refuse {s} (pc : s.pc = .admission) (bounded : l.bounded = true) :
      Move l s (.run .refused) { s with pc := .loopTest }
  | launch {s} (pc : s.pc = .launch) :
      Move l s (.run .ok) { s with launches := s.late :: s.launches, pc := .loopTest }
  | press {s} (pc : s.pc = .launch) : Move l s (.run (.throws true)) { s with pc := .pressed }
  | launchFails {s} (pc : s.pc = .launch) :
      Move l s (.run (.throws false)) { s with pc := .ending (some .launch) }
  | retryPressed {s} (pc : s.pc = .pressed) :
      Move l s (.run .ok) { s with pc := .retryTest (.sys .ENOMEM) }
  | retryTest {s e} (pc : s.pc = .retryTest e) :
      Move l s (.run .ok) (s.testStopping (.ending none) (.judging e))
  | skip {s e b c} (pc : s.pc = .judging e) (verdict : judge l.platform e b s.pacing = (.skip, c)) :
      Move l s (.run (.moved b)) { s with pacing := c, pc := .loopTest }
  | fail {s e b c} (pc : s.pc = .judging e) (verdict : judge l.platform e b s.pacing = (.fail, c)) :
      Move l s (.run (.moved b)) { s with pacing := c, pc := .ending (some (.judged e)) }
  | pause {s e b c d} (pc : s.pc = .judging e)
      (verdict : judge l.platform e b s.pacing = (.pause d, c)) :
      Move l s (.run (.moved b)) { s with pacing := c, pc := .arming d }
  | arm {s d} (pc : s.pc = .arming d) : Move l s (.run .ok) { s with pc := .timing }
  | goOn {s} (pc : s.pc = .woken true) (untold : s.stopping = false) :
      Move l s (.run .ok) { s with pc := .loopTest }
  | giveUp {s expired} (pc : s.pc = .woken expired) (told : expired = false ∨ s.stopping = true) :
      Move l s (.run .ok) { s with pc := .ending none }
  | finish {s error} (pc : s.pc = .ending error) : Move l s (.run .ok) (s.finish error)

lemma move_of_setup {l : Listener} {s s' : Accept} {st : Setup} {o : Outcome}
    (pc : s.pc = .setup st) (h : s.runSetup l st o = some s') : Move l s (.run o) s' := by
  cases o with
  | ok =>
      obtain ⟨more, hs'⟩ := Option.ite_none_left_eq_some.mp h
      cases hs'
      exact .setUp pc more
  | at_ port =>
      obtain ⟨⟨hst, real, asked⟩, hs'⟩ := Option.ite_none_right_eq_some.mp h
      cases hs'
      exact .bindAt (hst ▸ pc) real asked
  | throws b =>
      obtain ⟨can, hs'⟩ := Option.ite_none_left_eq_some.mp h
      cases hs'
      exact .setUpFails pc fun hst => by simpa using fun hnamed => can ⟨hst, hnamed⟩
  | refused => cases h
  | moved b => cases h

lemma move_of_judging {l : Listener} {s : Accept} {e : ErrorCode} {b : Bool}
    (pc : s.pc = .judging e) : Move l s (.run (.moved b)) (s.judgeStep l e b) := by
  unfold judgeStep
  rcases hv : judge l.platform e b s.pacing with ⟨verdict, c⟩
  cases verdict with
  | skip => exact .skip pc hv
  | fail => exact .fail pc hv
  | pause d => exact .pause pc hv

lemma move_of_run {l : Listener} {s s' : Accept} {o : Outcome} (h : s.runStep l o = some s') :
    Move l s (.run o) s' := by
  unfold runStep at h
  split at h
  case h_1 pc => cases h; exact .start pc
  case h_2 pc => exact move_of_setup pc h
  case h_3 pc => cases h; exact .announce pc
  case h_4 pc => cases h; exact .again pc
  case h_5 pc =>
    cases h
    by_cases isOpen : s.isOpen = true
    · rw [if_pos isOpen]
      exact .await pc isOpen
    · rw [if_neg isOpen]
      exact .awaitClosed pc (by simpa using isOpen)
  case h_6 pc => cases h; exact .startFails (.inl pc)
  case h_7 pc => cases h; exact .failed pc
  case h_8 pc => cases h; exact .startFails (.inr (.inl ⟨_, pc⟩))
  case h_9 pc => cases h; exact .connected pc
  case h_10 pc => cases h; exact .check pc
  case h_11 pc => cases h; exact .admission pc
  case h_12 pc =>
    obtain ⟨bounded, hs'⟩ := Option.ite_none_right_eq_some.mp h
    cases hs'
    exact .refuse pc bounded
  case h_13 pc => cases h; exact .launch pc
  case h_14 b pc =>
    cases h
    cases b with
    | true => exact .press pc
    | false => exact .launchFails pc
  case h_15 pc => cases h; exact .retryPressed pc
  case h_16 pc => cases h; exact .startFails (.inr (.inr (.inl pc)))
  case h_17 pc => cases h; exact .retryTest pc
  case h_18 pc => cases h; exact move_of_judging pc
  case h_19 pc => cases h; exact .arm pc
  case h_20 pc => cases h; exact .startFails (.inr (.inr (.inr ⟨_, pc⟩)))
  case h_21 expired pc =>
    cases h
    by_cases hgo : (expired && !s.stopping) = true
    · obtain ⟨hexpired, untold⟩ : expired = true ∧ s.stopping = false := by simpa using hgo
      rw [if_pos hgo]
      exact .goOn (hexpired ▸ pc) untold
    · rw [if_neg hgo]
      exact .giveUp pc (by cases expired <;> simp_all)
  case h_22 pc => cases h; exact .finish pc
  case h_23 => cases h

/-- Every step is one of the moves. -/
theorem move_of_step {l : Listener} {s s' : Accept} {act : Act}
    (h : (machine l).step s act = some s') : Move l s act s' := by
  cases act with
  | store => cases h; exact .store
  | post =>
      obtain ⟨told, hs'⟩ := Option.ite_none_right_eq_some.mp h
      cases hs'
      exact .post told
  | stopOnOwner =>
      obtain ⟨⟨posted, idle⟩, hs'⟩ := Option.ite_none_right_eq_some.mp h
      cases hs'
      exact .stopOnOwner posted idle
  | dispatch =>
      replace h : s.dispatch = some s' := h
      unfold dispatch at h
      split at h
      case h_1 pc => cases h; exact .begin_ pc
      case h_2 error pc => cases h; exact .arrive pc
      case h_3 expired pc => cases h; exact .wake pc
      case h_4 => cases h
  | complete error =>
      obtain ⟨pc, hs'⟩ := Option.ite_none_right_eq_some.mp h
      cases hs'
      exact .complete pc
  | expire =>
      obtain ⟨pc, hs'⟩ := Option.ite_none_right_eq_some.mp h
      cases hs'
      exact .expire pc
  | run o => exact move_of_run h

end Accept

end ReactorRuntime
