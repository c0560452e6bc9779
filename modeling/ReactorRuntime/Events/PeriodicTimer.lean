import Mathlib.Logic.Function.Basic
import ReactorRuntime.Library.Machine
import ReactorRuntime.Library.Word

/-!
# The periodic timer

`PeriodicTimer` (`reactor_events.h:50-118`) puts `ev::timer` on a loop.  Its calls may come from any
thread: `start()` stores the repeat and posts an arm, `again()` and `stop()` post what they do, and
`set_repeat()` only stores.  What was posted is executed on the loop, one handler at a time, and so
are the completions of the waits.

An arm and a cancel each add one to `generation`, and each aborts the wait that is pending.  They
come too late for a wait that has expired: its completion is queued as a success, and will be
executed as one, however many operations the loop executes first.  The completion therefore carries
the generation of its arm, and goes on only if that is still the present one.

Nothing here is timed: a pending wait may expire whenever it likes.  The numbers of seconds are of
any type, of which the program uses zero and the comparison with it.  `async_wait` and `post` are
taken to succeed.
-/

namespace ReactorRuntime

/-- What a timer is run with. -/
structure TimerSetup (ρ : Type*) where
  /-- `0.0`. -/
  zero : ρ
  /-- `r > 0.0`. -/
  positive : ρ → Bool
  /-- Whether `set_callback()` has set a callback. -/
  callback : Bool

/-- How far a wait has come. -/
inductive WaitStatus
  | pending
  /-- It has expired: its completion is queued, without an error. -/
  | expired
  /-- It was cancelled: its completion is queued, with an error. -/
  | aborted
  /-- Its completion was executed. -/
  | handled
  deriving DecidableEq, Repr

/-- A wait, by `timer.async_wait`. -/
structure Wait (ρ : Type*) where
  /-- The generation its completion carries. -/
  admitted : ℕ
  seconds : ρ
  status : WaitStatus
  /-- Record: how many arms and cancels had been executed, with the one that began it. -/
  tick : ℕ
  /-- Record: how often its completion has invoked the callback. -/
  calls : ℕ

/-- What is posted to the loop. -/
inductive TimerOp (ρ : Type*)
  | arm (after : ρ)
  | again
  | cancel
  deriving DecidableEq, Repr

namespace PeriodicTimer

/-- The part of `PeriodicTimer::State` that only the loop touches. -/
structure State (ρ : Type*) where
  generation : ℕ
  /-- The waits, in the order of their arms. -/
  wait : ℕ → Wait ρ
  arms : ℕ
  /-- The wait whose completion is being executed, from the check of the generation on. -/
  running : Option ℕ
  /-- Record: how many arms and cancels were executed. -/
  ticks : ℕ
  /-- Record: no arm was executed, or a cancel was executed after the last one. -/
  stopped : Bool

end PeriodicTimer

/-- A `PeriodicTimer` and what its callers and its loop are about to do. -/
structure PeriodicTimer (ρ : Type*) where
  state : PeriodicTimer.State ρ
  repeatSeconds : ρ
  /-- The calls of `start()` that have stored their repeat and not yet posted, each with its
  `after`. -/
  calling : List ρ
  posted : List (TimerOp ρ)

variable {ρ : Type*}

/-- What becomes of a wait when the timer is cancelled, or set anew. -/
def Wait.abort (w : Wait ρ) : Wait ρ :=
  { w with status := if w.status = .pending then .aborted else w.status }

namespace PeriodicTimer

namespace State

/-- `State::cancel()`. -/
def cancel (x : State ρ) : State ρ :=
  { x with
    generation := fetchAdd x.generation
    wait := fun k => (x.wait k).abort
    ticks := x.ticks + 1
    stopped := true }

/-- `State::arm()`. -/
def arm (x : State ρ) (seconds : ρ) : State ρ :=
  { x with
    generation := fetchAdd x.generation
    wait := Function.update (fun k => (x.wait k).abort) x.arms
      ⟨fetchAdd x.generation, seconds, .pending, x.ticks + 1, 0⟩
    arms := x.arms + 1
    ticks := x.ticks + 1
    stopped := false }

/-- A posted operation, executed when the stored repeat is `r`. -/
def perform (setup : TimerSetup ρ) (r : ρ) (x : State ρ) : TimerOp ρ → State ρ
  | .arm after => x.arm after
  | .again => if setup.positive r then x.arm r else x.cancel
  | .cancel => x.cancel

/-- Wait `k` expires. -/
def expire (x : State ρ) (k : ℕ) : Option (State ρ) :=
  if k < x.arms ∧ (x.wait k).status = .pending then
    some { x with wait := Function.update x.wait k { x.wait k with status := .expired } }
  else none

/-- The completion of wait `k` gets to the callback. -/
def Admits (x : State ρ) (k : ℕ) : Prop :=
  (x.wait k).status = .expired ∧ (x.wait k).admitted = x.generation

instance (x : State ρ) (k : ℕ) : Decidable (x.Admits k) :=
  inferInstanceAs (Decidable (_ ∧ _))

/-- The completion of wait `k` is executed, to its end or into the callback. -/
def complete (callback : Bool) (x : State ρ) (k : ℕ) : Option (State ρ) :=
  if x.running = none ∧ k < x.arms ∧
      ((x.wait k).status = .expired ∨ (x.wait k).status = .aborted) then
    some (if x.Admits k then
      { x with
        wait := Function.update x.wait k
          { x.wait k with status := .handled, calls := (x.wait k).calls + callback.toNat }
        running := some k }
    else { x with wait := Function.update x.wait k { x.wait k with status := .handled } })
  else none

/-- The completion of wait `k` is executed from the end of the callback on, when the stored repeat
is `r`. -/
def finish (setup : TimerSetup ρ) (r : ρ) (x : State ρ) (k : ℕ) : State ρ :=
  if setup.positive r ∧ (x.wait k).admitted = x.generation then { x with running := none }.arm r
  else { x with running := none }

end State

/-- What can happen next.  The calls are those of any thread, and of the callback. -/
inductive Act (ρ : Type*)
  | setRepeat (r : ρ)
  /-- `start()` stores its repeat. -/
  | start (after r : ρ)
  /-- Call `i` of `start()` posts. -/
  | post (i : ℕ)
  | again
  | stop
  /-- The loop executes the posted operation `i`. -/
  | execute (i : ℕ)
  /-- Wait `k` expires. -/
  | expire (k : ℕ)
  /-- The loop executes the completion of wait `k`, to its end or into the callback. -/
  | complete (k : ℕ)
  /-- The callback ends, by an exception if `threw`, and the completion is executed to its end.
  The load of the repeat is the only operation of it that another thread could see. -/
  | finish (threw : Bool)
  deriving DecidableEq, Repr

def initial (setup : TimerSetup ρ) : PeriodicTimer ρ where
  state :=
    { generation := 0, wait := fun _ => ⟨0, setup.zero, .handled, 0, 0⟩, arms := 0,
      running := none, ticks := 0, stopped := true }
  repeatSeconds := setup.zero
  calling := []
  posted := []

/-- One action. -/
def step (setup : TimerSetup ρ) (s : PeriodicTimer ρ) : Act ρ → Option (PeriodicTimer ρ)
  | .setRepeat r => some { s with repeatSeconds := r }
  | .start after r => some { s with repeatSeconds := r, calling := s.calling ++ [after] }
  | .post i =>
      (s.calling[i]?).map fun after =>
        { s with calling := s.calling.eraseIdx i, posted := s.posted ++ [.arm after] }
  | .again => some { s with posted := s.posted ++ [.again] }
  | .stop => some { s with posted := s.posted ++ [.cancel] }
  | .execute i =>
      if s.state.running = none then
        (s.posted[i]?).map fun op =>
          { s with
            posted := s.posted.eraseIdx i
            state := s.state.perform setup s.repeatSeconds op }
      else none
  | .expire k => (s.state.expire k).map fun x => { s with state := x }
  | .complete k => (s.state.complete setup.callback k).map fun x => { s with state := x }
  | .finish _ =>
      -- an exception is kept until the timer is armed again, and thrown on
      s.state.running.map fun k => { s with state := s.state.finish setup s.repeatSeconds k }

/-- The timer as a machine. -/
def machine (setup : TimerSetup ρ) : Machine (PeriodicTimer ρ) (Act ρ) where
  init := initial setup
  step := step setup

/-! ## Runs in which no completion is late by `2 ^ 64` operations -/

/-- One more operation keeps the generations of the expired waits apart. -/
def State.Recent (x : State ρ) : Prop :=
  ∀ k < x.arms, (x.wait k).status = .expired → x.ticks + 1 < (x.wait k).tick + word

instance (x : State ρ) : Decidable x.Recent :=
  inferInstanceAs (Decidable (∀ k < x.arms, _ → _))

/-- The action arms or cancels. -/
def operates (setup : TimerSetup ρ) (s : PeriodicTimer ρ) : Act ρ → Bool
  | .execute _ => true
  | .finish _ => setup.positive s.repeatSeconds
  | _ => false

/-- From the arm of a wait that has expired, fewer than `2 ^ 64` operations are executed before its
completion. -/
def Prompt (setup : TimerSetup ρ) (s : PeriodicTimer ρ) (act : Act ρ) : Prop :=
  s.operates setup act = true → s.state.Recent

instance (setup : TimerSetup ρ) (s : PeriodicTimer ρ) (act : Act ρ) :
    Decidable (s.Prompt setup act) :=
  inferInstanceAs (Decidable (_ → _))

/-! ## The waits and the generations -/

end PeriodicTimer

/-- What holds of a wait when `ticks` arms and cancels were executed. -/
structure Wait.Kept (ticks : ℕ) (stopped : Bool) (w : Wait ρ) : Prop where
  admitted : w.admitted = w.tick % word
  tick_le : w.tick ≤ ticks
  current : w.tick = ticks → stopped = false
  pending : w.status = .pending → w.tick = ticks
  recent : w.status = .expired → ticks < w.tick + word
  calls : w.calls ≤ 1
  uncalled : w.status ≠ .handled → w.calls = 0

namespace Wait

variable {w : Wait ρ} {ticks : ℕ} {stopped : Bool}

lemma abort_of_pending (h : w.status = .pending) : w.abort = { w with status := .aborted } := by
  rw [abort, if_pos h]

/-- A cancel comes too late for what is not pending. -/
lemma abort_of_not_pending (h : w.status ≠ .pending) : w.abort = w := by
  rw [abort, if_neg h]

lemma Kept.abort (h : w.Kept ticks stopped)
    (hrecent : w.status = .expired → ticks + 1 < w.tick + word) (stopped' : Bool) :
    w.abort.Kept (ticks + 1) stopped' := by
  have htick : w.tick ≠ ticks + 1 := Nat.ne_of_lt (Nat.lt_succ_of_le h.tick_le)
  by_cases hp : w.status = .pending
  · rw [abort_of_pending hp]
    exact ⟨h.admitted, Nat.le_succ_of_le h.tick_le, fun ht => absurd ht htick,
      WaitStatus.noConfusion, WaitStatus.noConfusion, h.calls,
      fun _ => h.uncalled fun hh => WaitStatus.noConfusion (hp.symm.trans hh)⟩
  · rw [abort_of_not_pending hp]
    exact ⟨h.admitted, Nat.le_succ_of_le h.tick_le, fun ht => absurd ht htick,
      fun hp' => absurd hp' hp, hrecent, h.calls, h.uncalled⟩

lemma Kept.expire (h : w.Kept ticks stopped) (hp : w.status = .pending) :
    { w with status := .expired }.Kept ticks stopped where
  admitted := h.admitted
  tick_le := h.tick_le
  current := h.current
  pending := WaitStatus.noConfusion
  recent _ := by
    show ticks < w.tick + word
    rw [h.pending hp]
    exact Nat.lt_add_of_pos_right (by decide)
  calls := h.calls
  uncalled _ := h.uncalled fun hh => WaitStatus.noConfusion (hp.symm.trans hh)

lemma Kept.handle (h : w.Kept ticks stopped) (hne : w.status ≠ .handled) {n : ℕ} (hn : n ≤ 1) :
    { w with status := .handled, calls := w.calls + n }.Kept ticks stopped where
  admitted := h.admitted
  tick_le := h.tick_le
  current := h.current
  pending := WaitStatus.noConfusion
  recent := WaitStatus.noConfusion
  calls := by
    show w.calls + n ≤ 1
    rw [h.uncalled hne, Nat.zero_add]
    exact hn
  uncalled hh := absurd rfl hh

end Wait

namespace PeriodicTimer

/-- What holds of the loop's part in every such run. -/
structure State.Sound (x : State ρ) : Prop where
  generation : x.generation = x.ticks % word
  waits : ∀ k < x.arms, (x.wait k).Kept x.ticks x.stopped
  order : ∀ j k, j < k → k < x.arms → (x.wait j).tick < (x.wait k).tick
  running : ∀ k, x.running = some k →
    k < x.arms ∧ (x.wait k).tick = x.ticks ∧ (x.wait k).status = .handled

namespace State

variable {x y : State ρ} {k : ℕ}

/-- The wait of the present tick is that of the last arm, and no cancel came after it. -/
lemma Sound.latest (h : x.Sound) (hk : k < x.arms) (htick : (x.wait k).tick = x.ticks) :
    k + 1 = x.arms ∧ x.stopped = false := by
  refine ⟨?_, (h.waits k hk).current htick⟩
  by_contra hne
  have hlater := h.order k (x.arms - 1) (by omega) (by omega)
  have hle := (h.waits (x.arms - 1) (by omega)).tick_le
  omega

/-- A completion gets to the callback only at the tick of its arm. -/
lemma Sound.tick_of_admits (h : x.Sound) (hk : k < x.arms) (hadm : x.Admits k) :
    (x.wait k).tick = x.ticks := by
  apply eq_of_mod_word
  · rw [← (h.waits k hk).admitted, hadm.2, h.generation]
  · exact (h.waits k hk).tick_le
  · exact (h.waits k hk).recent hadm.1

/-- A wait of the present tick carries the present generation. -/
lemma Sound.admitted_of_tick (h : x.Sound) (hk : k < x.arms)
    (htick : (x.wait k).tick = x.ticks) : (x.wait k).admitted = x.generation := by
  rw [(h.waits k hk).admitted, h.generation, htick]

/-- No wait is pending while the callback runs. -/
lemma Sound.running_of_pending (h : x.Sound) (hk : k < x.arms)
    (hp : (x.wait k).status = .pending) : x.running = none := by
  by_contra hrun
  obtain ⟨j, hj⟩ := Option.ne_none_iff_exists'.mp hrun
  obtain ⟨hlt, htick, hhandled⟩ := h.running j hj
  have hlast := (h.latest hlt htick).1
  have hlast' := (h.latest hk ((h.waits k hk).pending hp)).1
  have hjk : j = k := by omega
  rw [hjk, hp] at hhandled
  exact WaitStatus.noConfusion hhandled

lemma Sound.generation_succ (h : x.Sound) :
    fetchAdd x.generation = (x.ticks + 1) % word := by
  rw [h.generation, fetchAdd_mod]

lemma Sound.cancel (h : x.Sound) (hrecent : x.Recent) (hidle : x.running = none) :
    x.cancel.Sound where
  generation := h.generation_succ
  waits k hk := (h.waits k hk).abort (hrecent k hk) true
  order := h.order
  running k hk := absurd (hidle.symm.trans hk) (Option.some_ne_none k).symm

lemma arm_wait_last (x : State ρ) (seconds : ρ) :
    (x.arm seconds).wait x.arms =
      ⟨fetchAdd x.generation, seconds, .pending, x.ticks + 1, 0⟩ := by
  simp [State.arm]

lemma arm_wait_of_lt (seconds : ρ) (hk : k < x.arms) :
    (x.arm seconds).wait k = (x.wait k).abort := by
  simp [State.arm, Nat.ne_of_lt hk]

lemma Sound.arm (h : x.Sound) (hrecent : x.Recent) (hidle : x.running = none) (seconds : ρ) :
    (x.arm seconds).Sound where
  generation := h.generation_succ
  waits k hk := by
    rcases Nat.lt_succ_iff_lt_or_eq.mp hk with hlt | rfl
    · rw [arm_wait_of_lt seconds hlt]
      exact (h.waits k hlt).abort (hrecent k hlt) false
    · rw [arm_wait_last]
      exact ⟨h.generation_succ, Nat.le_refl _, fun _ => rfl, fun _ => rfl,
        WaitStatus.noConfusion, Nat.zero_le 1, fun _ => rfl⟩
  order j k hjk hk := by
    rcases Nat.lt_succ_iff_lt_or_eq.mp hk with hlt | rfl
    · rw [arm_wait_of_lt seconds hlt, arm_wait_of_lt seconds (Nat.lt_trans hjk hlt)]
      exact h.order j k hjk hlt
    · rw [arm_wait_of_lt seconds hjk, arm_wait_last]
      exact Nat.lt_succ_of_le (h.waits j hjk).tick_le
  running k hk := absurd (hidle.symm.trans hk) (Option.some_ne_none k).symm

lemma Sound.perform (h : x.Sound) (hrecent : x.Recent) (hidle : x.running = none)
    (setup : TimerSetup ρ) (r : ρ) (op : TimerOp ρ) : (x.perform setup r op).Sound := by
  cases op with
  | arm after => exact h.arm hrecent hidle after
  | again =>
      rw [State.perform]
      split
      · exact h.arm hrecent hidle r
      · exact h.cancel hrecent hidle
  | cancel => exact h.cancel hrecent hidle

/-- One wait goes on, and its completion may begin to run. -/
lemma Sound.update (h : x.Sound) {w : Wait ρ} (hw : w.Kept x.ticks x.stopped)
    (htick : w.tick = (x.wait k).tick) {next : Option ℕ}
    (hnext : ∀ j, next = some j → j = k ∧ k < x.arms ∧ w.tick = x.ticks ∧ w.status = .handled) :
    { x with wait := Function.update x.wait k w, running := next }.Sound := by
  have hticks (j : ℕ) : (Function.update x.wait k w j).tick = (x.wait j).tick := by
    rcases eq_or_ne j k with rfl | hne
    · simp [htick]
    · simp [hne]
  refine ⟨h.generation, ?_, ?_, ?_⟩
  · intro j hj
    rcases eq_or_ne j k with rfl | hne
    · simpa using hw
    · simpa [hne] using h.waits j hj
  · intro i j hij hj
    have hlt := h.order i j hij hj
    rw [← hticks i, ← hticks j] at hlt
    exact hlt
  · intro j hj
    obtain ⟨rfl, hlt, hcurrent, hhandled⟩ := hnext j hj
    refine ⟨hlt, ?_, ?_⟩
    · simpa using hcurrent
    · simpa using hhandled

lemma Sound.expire (h : x.Sound) (hstep : x.expire k = some y) : y.Sound := by
  obtain ⟨⟨hk, hp⟩, heq⟩ := Option.ite_none_right_eq_some.mp hstep
  cases heq
  refine h.update ((h.waits k hk).expire hp) rfl fun j hj => ?_
  rw [h.running_of_pending hk hp] at hj
  exact absurd hj.symm (Option.some_ne_none j)

/-- What the execution of a completion does. -/
lemma complete_cases {callback : Bool} (hstep : x.complete callback k = some y) :
    x.running = none ∧ k < x.arms ∧
      ((x.wait k).status = .expired ∨ (x.wait k).status = .aborted) ∧
      (x.Admits k ∧
          y = { x with
            wait := Function.update x.wait k
              { x.wait k with status := .handled, calls := (x.wait k).calls + callback.toNat }
            running := some k } ∨
        ¬ x.Admits k ∧
          y = { x with
            wait := Function.update x.wait k { x.wait k with status := .handled } }) := by
  obtain ⟨⟨hidle, hk, hqueued⟩, heq⟩ := Option.ite_none_right_eq_some.mp hstep
  refine ⟨hidle, hk, hqueued, ?_⟩
  by_cases hadm : x.Admits k
  · rw [if_pos hadm] at heq
    exact .inl ⟨hadm, (Option.some.inj heq).symm⟩
  · rw [if_neg hadm] at heq
    exact .inr ⟨hadm, (Option.some.inj heq).symm⟩

lemma Sound.complete (h : x.Sound) {callback : Bool} (hstep : x.complete callback k = some y) :
    y.Sound := by
  obtain ⟨hidle, hk, hqueued, hcase⟩ := complete_cases hstep
  have hne : (x.wait k).status ≠ .handled := by
    intro hh
    rw [hh] at hqueued
    rcases hqueued with hq | hq
    · exact WaitStatus.noConfusion hq
    · exact WaitStatus.noConfusion hq
  rcases hcase with ⟨hadm, rfl⟩ | ⟨-, rfl⟩
  · refine h.update ((h.waits k hk).handle hne (Bool.toNat_le callback)) rfl fun j hj => ?_
    exact ⟨(Option.some.inj hj).symm, hk, h.tick_of_admits hk hadm, rfl⟩
  · refine h.update ((h.waits k hk).handle hne (Nat.zero_le 1)) rfl fun j hj => ?_
    exact absurd (hidle.symm.trans hj) (Option.some_ne_none j).symm

lemma Sound.idle (h : x.Sound) : { x with running := none }.Sound :=
  ⟨h.generation, h.waits, h.order, fun k hk => absurd hk (Option.some_ne_none k).symm⟩

lemma Sound.finish (h : x.Sound) {setup : TimerSetup ρ} {r : ρ}
    (hrecent : setup.positive r = true → x.Recent) (k : ℕ) : (x.finish setup r k).Sound := by
  unfold State.finish
  split
  · next hagain => exact h.idle.arm (hrecent hagain.1) rfl r
  · exact h.idle

end State

/-! ## Runs -/

variable {setup : TimerSetup ρ} {s t : PeriodicTimer ρ}

/-- The action is a call, of any thread, and not something of the loop. -/
def Act.isCall : Act ρ → Bool
  | .setRepeat _ => true
  | .start _ _ => true
  | .post _ => true
  | .again => true
  | .stop => true
  | _ => false

/-- What an action does to the loop's part. -/
inductive Turn (setup : TimerSetup ρ) (s : PeriodicTimer ρ) : Act ρ → State ρ → Prop
  | call {act : Act ρ} (hcall : act.isCall = true) : Turn setup s act s.state
  | execute {i : ℕ} {op : TimerOp ρ} (hidle : s.state.running = none)
      (hop : s.posted[i]? = some op) :
      Turn setup s (.execute i) (s.state.perform setup s.repeatSeconds op)
  | expire {k : ℕ} {x : State ρ} (hx : s.state.expire k = some x) : Turn setup s (.expire k) x
  | complete {k : ℕ} {x : State ρ} (hx : s.state.complete setup.callback k = some x) :
      Turn setup s (.complete k) x
  | finish {threw : Bool} {k : ℕ} (hrun : s.state.running = some k) :
      Turn setup s (.finish threw) (s.state.finish setup s.repeatSeconds k)

lemma turn_of_step {act : Act ρ} (hstep : step setup s act = some t) :
    Turn setup s act t.state := by
  cases act with
  | setRepeat r => cases hstep; exact .call rfl
  | start after r => cases hstep; exact .call rfl
  | post i =>
      obtain ⟨after, -, rfl⟩ := Option.map_eq_some_iff.mp hstep
      exact .call rfl
  | again => cases hstep; exact .call rfl
  | stop => cases hstep; exact .call rfl
  | execute i =>
      obtain ⟨hidle, hstep⟩ := Option.ite_none_right_eq_some.mp hstep
      obtain ⟨op, hop, rfl⟩ := Option.map_eq_some_iff.mp hstep
      exact .execute hidle hop
  | expire k =>
      obtain ⟨x, hx, rfl⟩ := Option.map_eq_some_iff.mp hstep
      exact .expire hx
  | complete k =>
      obtain ⟨x, hx, rfl⟩ := Option.map_eq_some_iff.mp hstep
      exact .complete hx
  | finish threw =>
      obtain ⟨k, hrun, rfl⟩ := Option.map_eq_some_iff.mp hstep
      exact .finish hrun

lemma sound_of_turn {act : Act ρ} {x : State ρ} (h : s.state.Sound) (hok : s.Prompt setup act)
    (hturn : Turn setup s act x) : x.Sound := by
  cases hturn with
  | call hcall => exact h
  | execute hidle hop => exact h.perform (hok rfl) hidle setup _ _
  | expire hx => exact h.expire hx
  | complete hx => exact h.complete hx
  | finish hrun => exact h.finish hok _

lemma sound_of_reachable (hs : (machine setup).ReachableUnder (Prompt setup) s) :
    s.state.Sound := by
  refine hs.invariant (I := fun s => s.state.Sound) ?_ fun s act t h hok hstep =>
    sound_of_turn h hok (turn_of_step hstep)
  exact ⟨rfl, fun k hk => absurd hk (Nat.not_lt_zero k),
    fun j k _ hk => absurd hk (Nat.not_lt_zero k),
    fun k hk => absurd hk (Option.some_ne_none k).symm⟩

end PeriodicTimer

end ReactorRuntime
