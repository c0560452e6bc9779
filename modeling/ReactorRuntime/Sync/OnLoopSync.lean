import Mathlib.Data.List.Nodup
import Mathlib.Logic.Function.Basic
import ReactorRuntime.Library.Machine
import ReactorRuntime.Library.Word

/-!
# `Reactor::on_loop_sync`

A caller outside the loop runs a function on the loop and returns after it ran
(`reactor.h:269-297`).  Either a loop thread runs it, from a posted handler, or the caller does,
once the loop's last thread has left.  `sync_open_` holds the number of the call that nobody has
taken yet and `sync_done_` that of the last call a handler completed.

The machine has any number of calls, of type `κ`, and of loop threads, of type `θ`.  Every block
under `sync_mutex_` is one action, and so is every statement between two of them.  A handler
once posted may be picked at any later time by any thread that has claimed the loop, and the
threads claim and release it at any moment between two handlers.  Functions may throw: a
caller's own run then leaves `on_loop_sync` by that exception, and a posted run unwinds the handler
into `run()`, whose owner catches it and goes on (`reactor_udp.h:143-168`).

`sync_calls_` is 64 bits wide.  After `2 ^ 64 - 1` calls the next one gets the number 0, which
`sync_open_` has when no call is open.

The last fields of `Sync` are records that no step of the code reads: how often the function of
a call was begun and ended and where, whether the call was made on the loop, whether it found or
waited for `loops_ == 0`, and whether its posted run threw.
-/

namespace ReactorRuntime

/-- Where one call of `on_loop_sync` stands. -/
inductive CallPc
  /-- Not called yet. -/
  | idle
  /-- Found the loop claimed; before it locks `sync_call_`. -/
  | wanting
  /-- Holds `sync_call_`; before `++sync_calls_`. -/
  | holding
  /-- Has its number; before `sync_open_ = id`. -/
  | numbered (id : ℕ)
  /-- Its call is open; before `asio::post`. -/
  | opened (id : ℕ)
  /-- At `sync_changed_.wait`. -/
  | waiting (id : ℕ)
  /-- About to run the function itself. -/
  | ready
  /-- Running the function itself. -/
  | running
  | returned
  /-- Left by an exception. -/
  | threw
  deriving DecidableEq, Repr

/-- Where one loop thread stands; `c` is the call whose handler it runs and `id` its number. -/
inductive ThreadPc (κ : Type*)
  /-- Has not claimed the loop. -/
  | away
  /-- Has claimed the loop and is between two handlers. -/
  | idle
  /-- Before `if (sync_open_ != id)`. -/
  | starting (c : κ) (id : ℕ)
  /-- Has taken the call; before `f()`. -/
  | taken (c : κ) (id : ℕ)
  | running (c : κ) (id : ℕ)
  /-- The function has returned; before `sync_done_ = id`. -/
  | finishing (c : κ) (id : ℕ)
  deriving DecidableEq, Repr

/-- Who ran a function. -/
inductive Place (θ : Type*)
  | caller
  | loop (t : θ)
  deriving DecidableEq, Repr

/-- The members behind `on_loop_sync`, and the threads that use them. -/
structure Sync (κ θ : Type*) where
  loops_ : ℕ
  /-- The call that holds the mutex `sync_call_`. -/
  sync_call_ : Option κ
  sync_calls_ : ℕ
  sync_open_ : ℕ
  sync_done_ : ℕ
  /-- The posted handlers nobody has picked, with the call each one refers to. -/
  queue : List (κ × ℕ)
  call : κ → CallPc
  thread : θ → ThreadPc κ
  begun : κ → ℕ
  ended : κ → ℕ
  place : κ → Option (Place θ)
  onLoop : κ → Bool
  sawZero : κ → Bool
  lost : κ → Bool

namespace Sync

/-- What can happen next. -/
inductive Act (κ θ : Type*)
  /-- `on_loop_sync` is called; `inside` says whether on a thread inside the loop. -/
  | enter (c : κ) (inside : Bool)
  | lock (c : κ)
  | number (c : κ)
  /-- `sync_open_ = id`. -/
  | openCall (c : κ)
  | post (c : κ)
  /-- `asio::post` throws. -/
  | postFails (c : κ)
  /-- The wait of the call ends. -/
  | wake (c : κ)
  /-- The caller runs its function itself. -/
  | runSelf (c : κ)
  | finishSelf (c : κ)
  /-- The function the caller runs itself throws. -/
  | failSelf (c : κ)
  | claim (t : θ)
  | release (t : θ)
  /-- A loop thread picks the handler with number `id` that refers to `c`. -/
  | pick (t : θ) (c : κ) (id : ℕ)
  /-- The handler's first block. -/
  | take (t : θ)
  /-- The handler runs the function. -/
  | run (t : θ)
  | finish (t : θ)
  /-- The function a handler runs throws. -/
  | crash (t : θ)
  /-- The handler's last block. -/
  | report (t : θ)
  deriving DecidableEq

variable {κ θ : Type*} [DecidableEq κ] [DecidableEq θ]

/-- No call yet, and no thread has claimed the loop. -/
def initial : Sync κ θ where
  loops_ := 0
  sync_call_ := none
  sync_calls_ := 0
  sync_open_ := 0
  sync_done_ := 0
  queue := []
  call _ := .idle
  thread _ := .away
  begun _ := 0
  ended _ := 0
  place _ := none
  onLoop _ := false
  sawZero _ := false
  lost _ := false

/-- The call moves on. -/
def goto (c : κ) (pc : CallPc) (s : Sync κ θ) : Sync κ θ :=
  { s with call := Function.update s.call c pc }

/-- The loop thread moves on. -/
def turn (t : θ) (pc : ThreadPc κ) (s : Sync κ θ) : Sync κ θ :=
  { s with thread := Function.update s.thread t pc }

/-- The guard `call` of `on_loop_sync` goes out of scope, if the call had made it. -/
def unlock (c : κ) (s : Sync κ θ) : Sync κ θ :=
  { s with sync_call_ := if s.sync_call_ = some c then none else s.sync_call_ }

/-- The function of a call begins. -/
def noteBegin (c : κ) (p : Place θ) (s : Sync κ θ) : Sync κ θ :=
  { s with
    begun := Function.update s.begun c (s.begun c + 1)
    place := Function.update s.place c (some p) }

/-- The function of a call ends. -/
def noteEnd (c : κ) (s : Sync κ θ) : Sync κ θ :=
  { s with ended := Function.update s.ended c (s.ended c + 1) }

/-- `if (loops_.load() == 0 || on_loop()) { f(); return; }` -/
def enter (c : κ) (inside : Bool) (s : Sync κ θ) : Sync κ θ :=
  let s₁ := { s with
    onLoop := Function.update s.onLoop c inside
    sawZero := Function.update s.sawZero c (decide (s.loops_ = 0)) }
  if s.loops_ = 0 ∨ inside then s₁.goto c .ready else s₁.goto c .wanting

/-- The end of the wait of call `id`: its predicate, and what follows under the lock. -/
def wake (c : κ) (id : ℕ) (s : Sync κ θ) : Option (Sync κ θ) :=
  if s.sync_done_ = id then some ((s.goto c .returned).unlock c)
  else if s.sync_open_ = id ∧ s.loops_ = 0 then
    some (goto c .ready
      { s with sync_open_ := 0, sawZero := Function.update s.sawZero c true })
  else none

/-- A step of a call. -/
def callStep (s : Sync κ θ) : Act κ θ → Option (Sync κ θ)
  | .enter c inside => if s.call c = .idle then some (s.enter c inside) else none
  | .lock c =>
      if s.call c = .wanting ∧ s.sync_call_ = none then
        some (goto c .holding { s with sync_call_ := some c })
      else none
  | .number c =>
      if s.call c = .holding then
        some (goto c (.numbered (fetchAdd s.sync_calls_))
          { s with sync_calls_ := fetchAdd s.sync_calls_ })
      else none
  | .openCall c =>
      match s.call c with
      | .numbered id => some (goto c (.opened id) { s with sync_open_ := id })
      | _ => none
  | .post c =>
      match s.call c with
      | .opened id => some (goto c (.waiting id) { s with queue := s.queue ++ [(c, id)] })
      | _ => none
  | .postFails c =>
      match s.call c with
      | .opened _ => some ((s.goto c .threw).unlock c)
      | _ => none
  | .wake c =>
      match s.call c with
      | .waiting id => s.wake c id
      | _ => none
  | .runSelf c =>
      if s.call c = .ready then some ((s.goto c .running).noteBegin c .caller) else none
  | .finishSelf c =>
      if s.call c = .running then some (((s.goto c .returned).noteEnd c).unlock c) else none
  | .failSelf c => if s.call c = .running then some ((s.goto c .threw).unlock c) else none
  | _ => none

/-- A step of a loop thread. -/
def threadStep (s : Sync κ θ) : Act κ θ → Option (Sync κ θ)
  | .claim t =>
      if s.thread t = .away then some (turn t .idle { s with loops_ := s.loops_ + 1 }) else none
  | .release t =>
      if s.thread t = .idle then some (turn t .away { s with loops_ := s.loops_ - 1 }) else none
  | .pick t c id =>
      if s.thread t = .idle ∧ (c, id) ∈ s.queue then
        some (turn t (.starting c id) { s with queue := s.queue.erase (c, id) })
      else none
  | .take t =>
      match s.thread t with
      | .starting c id =>
          if s.sync_open_ ≠ id then some (s.turn t .idle)
          else some (turn t (.taken c id) { s with sync_open_ := 0 })
      | _ => none
  | .run t =>
      match s.thread t with
      | .taken c id => some ((s.turn t (.running c id)).noteBegin c (.loop t))
      | _ => none
  | .finish t =>
      match s.thread t with
      | .running c id => some ((s.turn t (.finishing c id)).noteEnd c)
      | _ => none
  | .crash t =>
      match s.thread t with
      | .running c _ => some (turn t .idle { s with lost := Function.update s.lost c true })
      | _ => none
  | .report t =>
      match s.thread t with
      | .finishing _ id => some (turn t .idle { s with sync_done_ := id })
      | _ => none
  | _ => none

/-- One action. -/
def step (s : Sync κ θ) (act : Act κ θ) : Option (Sync κ θ) :=
  match act with
  | .claim _ | .release _ | .pick .. | .take _ | .run _ | .finish _ | .crash _ | .report _ =>
      s.threadStep act
  | _ => s.callStep act

/-- `on_loop_sync` as a machine. -/
def machine : Machine (Sync κ θ) (Act κ θ) where
  init := initial
  step := step

/-- The counter is not at its end when a call gets its number.  A run all of whose steps are so
gives fewer than `2 ^ 64` numbers, and none of them is 0. -/
def Few (s : Sync κ θ) (act : Act κ θ) : Prop := ∀ c, act = .number c → s.sync_calls_ ≠ wordMax

/-- `Few`, tested. -/
def few (s : Sync κ θ) : Act κ θ → Bool
  | .number _ => decide (s.sync_calls_ ≠ wordMax)
  | _ => true

omit [DecidableEq κ] [DecidableEq θ] in
lemma few_sound (s : Sync κ θ) (act : Act κ θ) (h : few s act = true) : Few s act := by
  rintro c rfl
  exact of_decide_eq_true h

/-! ## What one action can do -/

/-- Everything a step can do, with its guard. -/
inductive Move : Sync κ θ → Act κ θ → Sync κ θ → Prop
  | enterSelf {s c inside} (pc : s.call c = .idle) (free : s.loops_ = 0 ∨ inside = true) :
      Move s (.enter c inside) (goto c .ready
        { s with
          onLoop := Function.update s.onLoop c inside
          sawZero := Function.update s.sawZero c (decide (s.loops_ = 0)) })
  | enterLoop {s c} (pc : s.call c = .idle) (claimed : s.loops_ ≠ 0) :
      Move s (.enter c false) (goto c .wanting
        { s with
          onLoop := Function.update s.onLoop c false
          sawZero := Function.update s.sawZero c (decide (s.loops_ = 0)) })
  | lock {s c} (pc : s.call c = .wanting) (free : s.sync_call_ = none) :
      Move s (.lock c) (goto c .holding { s with sync_call_ := some c })
  | number {s c} (pc : s.call c = .holding) :
      Move s (.number c)
        (goto c (.numbered (fetchAdd s.sync_calls_))
          { s with sync_calls_ := fetchAdd s.sync_calls_ })
  | openCall {s c id} (pc : s.call c = .numbered id) :
      Move s (.openCall c) (goto c (.opened id) { s with sync_open_ := id })
  | post {s c id} (pc : s.call c = .opened id) :
      Move s (.post c) (goto c (.waiting id) { s with queue := s.queue ++ [(c, id)] })
  | postFails {s c id} (pc : s.call c = .opened id) :
      Move s (.postFails c) ((s.goto c .threw).unlock c)
  | wakeDone {s c id} (pc : s.call c = .waiting id) (done : s.sync_done_ = id) :
      Move s (.wake c) ((s.goto c .returned).unlock c)
  | wakeSelf {s c id} (pc : s.call c = .waiting id) (undone : s.sync_done_ ≠ id)
      (isOpen : s.sync_open_ = id) (free : s.loops_ = 0) :
      Move s (.wake c) (goto c .ready
        { s with sync_open_ := 0, sawZero := Function.update s.sawZero c true })
  | runSelf {s c} (pc : s.call c = .ready) :
      Move s (.runSelf c) ((s.goto c .running).noteBegin c .caller)
  | finishSelf {s c} (pc : s.call c = .running) :
      Move s (.finishSelf c) (((s.goto c .returned).noteEnd c).unlock c)
  | failSelf {s c} (pc : s.call c = .running) :
      Move s (.failSelf c) ((s.goto c .threw).unlock c)
  | claim {s t} (pc : s.thread t = .away) :
      Move s (.claim t) (turn t .idle { s with loops_ := s.loops_ + 1 })
  | release {s t} (pc : s.thread t = .idle) :
      Move s (.release t) (turn t .away { s with loops_ := s.loops_ - 1 })
  | pick {s t c id} (pc : s.thread t = .idle) (queued : (c, id) ∈ s.queue) :
      Move s (.pick t c id) (turn t (.starting c id) { s with queue := s.queue.erase (c, id) })
  | takeNone {s t c id} (pc : s.thread t = .starting c id) (shut : s.sync_open_ ≠ id) :
      Move s (.take t) (s.turn t .idle)
  | take {s t c id} (pc : s.thread t = .starting c id) (isOpen : s.sync_open_ = id) :
      Move s (.take t) (turn t (.taken c id) { s with sync_open_ := 0 })
  | run {s t c id} (pc : s.thread t = .taken c id) :
      Move s (.run t) ((s.turn t (.running c id)).noteBegin c (.loop t))
  | finish {s t c id} (pc : s.thread t = .running c id) :
      Move s (.finish t) ((s.turn t (.finishing c id)).noteEnd c)
  | crash {s t c id} (pc : s.thread t = .running c id) :
      Move s (.crash t) (turn t .idle { s with lost := Function.update s.lost c true })
  | report {s t c id} (pc : s.thread t = .finishing c id) :
      Move s (.report t) (turn t .idle { s with sync_done_ := id })

lemma move_of_enter {s s' : Sync κ θ} {c : κ} {inside : Bool}
    (h : s.step (.enter c inside) = some s') : Move s (.enter c inside) s' := by
  obtain ⟨pc, hs'⟩ := Option.ite_none_right_eq_some.mp h
  cases hs'
  unfold enter
  split
  · rename_i free
    exact .enterSelf pc (by simpa using free)
  · rename_i claimed
    push Not at claimed
    obtain rfl : inside = false := by simpa using claimed.2
    exact .enterLoop pc claimed.1

lemma move_of_wake {s s' : Sync κ θ} {c : κ} (h : s.step (.wake c) = some s') :
    Move s (.wake c) s' := by
  simp only [step, callStep] at h
  split at h
  · rename_i id pc
    unfold wake at h
    split at h
    · rename_i done
      cases h
      exact .wakeDone pc done
    · rename_i undone
      obtain ⟨hg, hs'⟩ := Option.ite_none_right_eq_some.mp h
      cases hs'
      exact .wakeSelf pc undone hg.1 hg.2
  · exact absurd h (by simp)

/-- The inversion of `step`. -/
lemma move_of_step {s s' : Sync κ θ} {act : Act κ θ} (h : s.step act = some s') :
    Move s act s' := by
  cases act with
  | enter c inside => exact move_of_enter h
  | lock c =>
      obtain ⟨hg, hs'⟩ := Option.ite_none_right_eq_some.mp h
      cases hs'
      exact .lock hg.1 hg.2
  | number c =>
      obtain ⟨hg, hs'⟩ := Option.ite_none_right_eq_some.mp h
      cases hs'
      exact .number hg
  | openCall c =>
      simp only [step, callStep] at h
      split at h <;> cases h
      rename_i pc
      exact .openCall pc
  | post c =>
      simp only [step, callStep] at h
      split at h <;> cases h
      rename_i pc
      exact .post pc
  | postFails c =>
      simp only [step, callStep] at h
      split at h <;> cases h
      rename_i pc
      exact .postFails pc
  | wake c => exact move_of_wake h
  | runSelf c =>
      obtain ⟨hg, hs'⟩ := Option.ite_none_right_eq_some.mp h
      cases hs'
      exact .runSelf hg
  | finishSelf c =>
      obtain ⟨hg, hs'⟩ := Option.ite_none_right_eq_some.mp h
      cases hs'
      exact .finishSelf hg
  | failSelf c =>
      obtain ⟨hg, hs'⟩ := Option.ite_none_right_eq_some.mp h
      cases hs'
      exact .failSelf hg
  | claim t =>
      obtain ⟨hg, hs'⟩ := Option.ite_none_right_eq_some.mp h
      cases hs'
      exact .claim hg
  | release t =>
      obtain ⟨hg, hs'⟩ := Option.ite_none_right_eq_some.mp h
      cases hs'
      exact .release hg
  | pick t c id =>
      obtain ⟨hg, hs'⟩ := Option.ite_none_right_eq_some.mp h
      cases hs'
      exact .pick hg.1 hg.2
  | take t =>
      simp only [step, threadStep] at h
      split at h
      · rename_i c id pc
        split at h
        · rename_i shut
          cases h
          exact .takeNone pc shut
        · rename_i isOpen
          cases h
          exact .take pc (by simpa using isOpen)
      · exact absurd h (by simp)
  | run t =>
      simp only [step, threadStep] at h
      split at h <;> cases h
      rename_i pc
      exact .run pc
  | finish t =>
      simp only [step, threadStep] at h
      split at h <;> cases h
      rename_i pc
      exact .finish pc
  | crash t =>
      simp only [step, threadStep] at h
      split at h <;> cases h
      rename_i pc
      exact .crash pc
  | report t =>
      simp only [step, threadStep] at h
      split at h <;> cases h
      rename_i pc
      exact .report pc

end Sync

end ReactorRuntime
