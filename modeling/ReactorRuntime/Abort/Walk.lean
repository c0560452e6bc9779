import ReactorRuntime.Library.Machine
import ReactorRuntime.Library.Journal
import ReactorRuntime.Abort.AbortList

/-!
# The abort and force walks of one reactor

This is the loop side of `Reactor::track`, `untrack`, `abort_all` and `force_all`
(`reactor.h:227-248`).  The walks call `abort()` and `force()`, which are arbitrary code: they may
track, untrack and destroy any abortables and call `abort_all()` and `force_all()` again.  The
machine therefore keeps an explicit call stack.  Library code runs on `Act.resume`, one
statement at a time; whenever a callback is on top of the stack (or the stack is empty, so that
other loop code runs) the actions are the host's, and nothing about them is assumed.

`abort_all()` from another thread is two actions: `requestAbort` is the exchange of `aborting_`
on the caller, `runAbort` the posted walk on the loop, which may come at any later time the
loop is free.  Called on the loop, or with no loop claimed, the walk runs at once (`abortAll`).

## What is recorded beside the code's own fields

The last fields of `Loop` are read by no step of the code.  `contents` is the sequence the list is
meant to hold.  An *episode* is the interval from `track(a)` to the untracking or destruction of
`a`; `now a` is the running episode of `a` and `past` those that ended.  An episode records, for
each kind of call, whether it began once the walk had begun (`late`), whether it was running when
the walk began (`due`), whether it ended before its turn came (`missed`), and how many calls it
received from a walk and from `track`.  A call on an abortable with no running episode is a
`stray`, and `log` lists all calls, newest first.  Each walk carries a `Journal`, and `done`
collects those that ended.

A walk that would read a destroyed node, or `track` calling `force()` on one, is undefined
behaviour; `fault` marks it and the machine stops there.
-/

namespace ReactorRuntime

/-- The two callbacks of an abortable: `abort()` asks, `force()` releases. -/
inductive Kind
  | abort
  | force
  deriving DecidableEq, Repr

/-- What an episode is owed and has received of one kind of call. -/
structure Received where
  /-- It began once the walk of this kind had begun. -/
  late : Bool
  /-- It was running when the walk of this kind began. -/
  due : Bool
  /-- It ended while the walk had yet to reach it. -/
  missed : Bool
  /-- Calls made by a walk. -/
  walk : ℕ
  /-- Calls made by `track`. -/
  track : ℕ
  deriving DecidableEq, Repr

/-- One tracking episode. -/
abbrev Episode := Kind → Received

namespace Episode

/-- An episode begins; `begun k` says whether the walk of kind `k` has begun. -/
def fresh (begun : Kind → Bool) : Episode := fun k => ⟨begun k, false, false, 0, 0⟩

/-- A walk of kind `k` begins while the episode runs. -/
def summon (k : Kind) (e : Episode) : Episode := Function.update e k { e k with due := true }

/-- A walk calls the episode's abortable. -/
def fromWalk (k : Kind) (e : Episode) : Episode :=
  Function.update e k { e k with walk := (e k).walk + 1 }

/-- `track` calls the episode's abortable. -/
def fromTrack (k : Kind) (e : Episode) : Episode :=
  Function.update e k { e k with track := (e k).track + 1 }

/-- The episode ends; `awaited k` says whether a walk of kind `k` had yet to reach it. -/
def close (awaited : Kind → Bool) (e : Episode) : Episode :=
  fun k => { e k with missed := awaited k }

end Episode

/-- What the loop is in the middle of. -/
inductive Frame (ν : Type*)
  /-- `AbortList::each` at its loop test; `outer` is its local of that name. -/
  | walk (k : Kind) (outer : Option ν) (j : Journal ν)
  /-- `a.abort()` or `a.force()`: the host's code runs. -/
  | call (k : Kind) (a : ν)
  /-- `Reactor::track(a)` before `if (walked_) { a.abort(); }`. -/
  | trackAbort (a : ν)
  /-- `Reactor::track(a)` before `if (forced_) { a.force(); }`. -/
  | trackForce (a : ν)
  deriving DecidableEq

namespace Frame

variable {ν : Type*} [DecidableEq ν]

/-- `a` leaves the list: every walk under way takes note. -/
def drop (a : ν) : Frame ν → Frame ν
  | .walk k outer j => .walk k outer (j.drop a)
  | f => f

/-- The frame is a walk of kind `k` that has yet to reach `a`. -/
def awaits (k : Kind) (a : ν) : Frame ν → Bool
  | .walk k' _ j => decide (k' = k ∧ a ∈ j.todo)
  | _ => false

end Frame

/-- The loop side of a `Reactor`'s abort machinery. -/
structure Loop (ν : Type*) where
  /-- The links of the abortables and of `aborts_`, the reactor's one list. -/
  heap : Heap Unit ν
  /-- The abortables that have been destroyed. -/
  dead : ν → Bool
  aborting_ : Bool
  walked_ : Bool
  forced_ : Bool
  /-- The abort walk is posted and has not run. -/
  abortPosted : Bool
  /-- The number of force walks posted and not run. -/
  forcePosted : ℕ
  /-- What the loop is in the middle of, innermost first. -/
  stack : List (Frame ν)
  /-- A destroyed abortable has been used. -/
  fault : Bool
  contents : List ν
  now : ν → Option Episode
  past : List Episode
  stray : List (Kind × ν)
  log : List (Kind × ν)
  done : List (Kind × Journal ν)

/-- What can happen next. -/
inductive Act (ν : Type*)
  /-- Host code calls `track(a)`. -/
  | track (a : ν)
  /-- Host code calls `untrack(a)`. -/
  | untrack (a : ν)
  /-- Host code destroys `a`. -/
  | destroy (a : ν)
  /-- Host code on the loop calls `abort_all()`. -/
  | abortAll
  /-- Host code on the loop calls `force_all()`. -/
  | forceAll
  /-- The callback on top of the stack returns. -/
  | ret
  /-- The library code on top of the stack runs its next statement. -/
  | resume
  /-- Another thread calls `abort_all()`. -/
  | requestAbort
  /-- Another thread calls `force_all()`. -/
  | requestForce
  /-- The posted abort walk starts. -/
  | runAbort
  /-- A posted force walk starts. -/
  | runForce
  deriving DecidableEq

namespace Loop

variable {ν : Type*} [DecidableEq ν]

/-- A reactor that tracks nothing. -/
def initial : Loop ν where
  heap := Heap.empty
  dead _ := false
  aborting_ := false
  walked_ := false
  forced_ := false
  abortPosted := false
  forcePosted := 0
  stack := []
  fault := false
  contents := []
  now _ := none
  past := []
  stray := []
  log := []
  done := []

/-- The walk of kind `k` has begun. -/
def begun (s : Loop ν) : Kind → Bool
  | .abort => s.walked_
  | .force => s.forced_

/-- Host code runs: a callback is on top, or nothing is under way. -/
def hostTurn (s : Loop ν) : Bool :=
  match s.stack with
  | [] => true
  | .call _ _ :: _ => true
  | _ => false

/-- `aborts_.add(a)`, the first statement of `track`. -/
def link (a : ν) (s : Loop ν) : Loop ν :=
  { s with
    heap := s.heap.add () a
    contents := a :: s.contents
    now := Function.update s.now a (some (Episode.fresh s.begun))
    stack := .trackAbort a :: s.stack }

/-- Some walk of kind `k` under way has yet to reach `a`. -/
def awaited (s : Loop ν) (a : ν) (k : Kind) : Bool := s.stack.any (Frame.awaits k a)

/-- `aborts_.remove(a)`: the body of `untrack`. -/
def unlink (a : ν) (s : Loop ν) : Loop ν :=
  let s₁ := { s with heap := s.heap.remove () a }
  match s.now a with
  | none => s₁
  | some e =>
      { s₁ with
        contents := s.contents.erase a
        now := Function.update s.now a none
        past := e.close (s.awaited a) :: s.past
        stack := s.stack.map (Frame.drop a) }

/-- `~Abortable`. -/
def destroy (a : ν) (s : Loop ν) : Loop ν :=
  { s.unlink a with
    heap := s.heap.unlinkOnDestroy a
    dead := Function.update s.dead a true }

/-- The body the two walks share: the flag is set and `each` begins. -/
def beginWalk (k : Kind) (s : Loop ν) : Loop ν :=
  { s with
    walked_ := s.walked_ || decide (k = .abort)
    forced_ := s.forced_ || decide (k = .force)
    heap := s.heap.beginEach ()
    now := fun a => (s.now a).map (Episode.summon k)
    stack := .walk k (s.heap.cursor_ ()) (Journal.begin s.contents) :: s.stack }

/-- A callback of kind `k` is entered on `a`, and `note` records it in the running episode. -/
def enter (k : Kind) (a : ν) (note : Episode → Episode) (s : Loop ν) : Loop ν :=
  { s with
    now := Function.update s.now a ((s.now a).map note)
    stray := if (s.now a).isSome then s.stray else (k, a) :: s.stray
    log := (k, a) :: s.log
    stack := .call k a :: s.stack }

/-- The next statement of the library code on top of the stack. -/
def resume (s : Loop ν) : Option (Loop ν) :=
  match s.stack with
  | .walk k outer j :: rest =>
      match s.heap.cursor_ () with
      | none =>
          some { s with
            heap := s.heap.endEach () outer
            stack := rest
            done := (k, j) :: s.done }
      | some node =>
          if s.dead node then some { s with fault := true }
          else
            some (enter k node (Episode.fromWalk k)
              { s with
                heap := s.heap.advanceEach () node
                stack := .walk k outer (j.visit node) :: rest })
  | .trackAbort a :: rest =>
      if s.walked_ then
        some (enter .abort a (Episode.fromTrack .abort) { s with stack := .trackForce a :: rest })
      else some { s with stack := .trackForce a :: rest }
  | .trackForce a :: rest =>
      if s.forced_ then
        if s.dead a then some { s with fault := true }
        else some (enter .force a (Episode.fromTrack .force) { s with stack := rest })
      else some { s with stack := rest }
  | _ => none

/-- One action. -/
def step (s : Loop ν) (act : Act ν) : Option (Loop ν) :=
  if s.fault then none
  else
    match act with
    | .track a =>
        if s.hostTurn ∧ s.dead a = false ∧ s.heap.list_ a = none then some (s.link a) else none
    | .untrack a => if s.hostTurn ∧ s.dead a = false then some (s.unlink a) else none
    | .destroy a => if s.hostTurn ∧ s.dead a = false then some (s.destroy a) else none
    | .abortAll =>
        if s.hostTurn then
          -- `if (aborting_.exchange(true)) { return; }`, then the walk inline
          if s.aborting_ then some s else some (beginWalk .abort { s with aborting_ := true })
        else none
    | .forceAll => if s.hostTurn then some (s.beginWalk .force) else none
    | .ret =>
        match s.stack with
        | .call _ _ :: rest => some { s with stack := rest }
        | _ => none
    | .resume => s.resume
    | .requestAbort =>
        if s.aborting_ then some s else some { s with aborting_ := true, abortPosted := true }
    | .requestForce => some { s with forcePosted := s.forcePosted + 1 }
    | .runAbort =>
        if s.stack = [] ∧ s.abortPosted then
          some (beginWalk .abort { s with abortPosted := false })
        else none
    | .runForce =>
        if s.stack = [] ∧ 0 < s.forcePosted then
          some (beginWalk .force { s with forcePosted := s.forcePosted - 1 })
        else none

/-- The abort machinery of one reactor as a machine. -/
def machine : Machine (Loop ν) (Act ν) where
  init := initial
  step := step

end Loop

end ReactorRuntime
