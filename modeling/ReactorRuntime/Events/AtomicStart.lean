import Mathlib.Data.List.InsertIdx
import ReactorRuntime.Events.TimerRefinement

/-!
# Whether a start is one thing

A caller of `start(after, repeat)` has in mind that the timer gets both from it, at one moment.  The
code stores the repeat at once and posts the arm (`reactor_events.h:61-65`), and what the loop does
in between, it does with the new repeat and the old deadline.

The reference here has the repeat as well.  Each call of `start()` takes effect at one moment, which
may be any from the call to the execution of its arm, and then replaces both.  A run of the timer is
explained if there is a choice of these moments with which the reference makes the same callbacks,
after the same numbers of seconds.

A timer that was started once, without a repeat, may call back twice before a second start is even
posted, and no choice explains it (`mixes_two_starts`).  What the second callback waited for is the
repeat of the second start, and its deadline has not been seen.  If however no callback begins after
a wait that was set for such a repeat, the run is explained, each start taking effect when its arm
is executed; and with these moments it is explained only then (`start_takes_effect_at_once`).
-/

namespace ReactorRuntime

universe u

variable {ρ : Type u}

/-- A call of `start()`. -/
structure StartCall (ρ : Type u) where
  /-- How many calls had stored their repeat before. -/
  number : ℕ
  after : ρ
  repeatSeconds : ρ
  deriving DecidableEq, Repr

/-! ## The reference -/

/-- A timer with a repeat, that is started at one moment. -/
structure AtomicTimer (ρ : Type u) where
  timer : ReferenceTimer ρ
  repeatSeconds : ρ
  /-- The callback runs, and the timer was not started since it began. -/
  calling : Bool
  /-- The calls of `start()` that are not in effect. -/
  called : List (StartCall ρ)
  /-- Those that are in effect, and their arms not executed. -/
  early : List (StartCall ρ)
  deriving DecidableEq, Repr

namespace AtomicTimer

/-- What happens to it. -/
inductive Event (ρ : Type u)
  | called (c : StartCall ρ)
  /-- The call takes effect before its arm is executed. -/
  | effect (c : StartCall ρ)
  /-- The arm of the call is executed: it takes effect now, if it has not before. -/
  | executed (c : StartCall ρ)
  | again
  | stop
  /-- The callback begins, after so many seconds. -/
  | fire (seconds : ρ)
  /-- The callback ends. -/
  | finish
  deriving DecidableEq, Repr

/-- The event can be seen. -/
def Event.visible : Event ρ → Bool
  | .effect _ => false
  | _ => true

/-- The event is a callback. -/
def Event.isFire : Event ρ → Bool
  | .fire _ => true
  | _ => false

/-- The deadline and the repeat are replaced. -/
def start (x : AtomicTimer ρ) (c : StartCall ρ) : AtomicTimer ρ :=
  { x with timer := .armed c.after, repeatSeconds := c.repeatSeconds, calling := false }

/-- The timer is set for its repeat. -/
def rearm (setup : TimerSetup ρ) (x : AtomicTimer ρ) : AtomicTimer ρ :=
  { x with
    timer := if setup.positive x.repeatSeconds then .armed x.repeatSeconds else .idle
    calling := false }

variable [DecidableEq ρ]

/-- A call takes effect before its arm is executed. -/
def takeEffect (x : AtomicTimer ρ) (c : StartCall ρ) : AtomicTimer ρ :=
  { x.start c with called := x.called.erase c, early := c :: x.early }

def step (setup : TimerSetup ρ) (x : AtomicTimer ρ) : Event ρ → Option (AtomicTimer ρ)
  | .called c => some { x with called := x.called ++ [c] }
  | .effect c => if c ∈ x.called then some (x.takeEffect c) else none
  | .executed c =>
      if c ∈ x.early then some { x with early := x.early.erase c }
      else some { x.start c with called := x.called.erase c }
  | .again => some (x.rearm setup)
  | .stop => some { x with timer := .idle, calling := false }
  | .fire seconds =>
      if x.timer = .armed seconds then some { x with timer := .idle, calling := true } else none
  | .finish => some (if x.calling then x.rearm setup else x)

def initial (setup : TimerSetup ρ) : AtomicTimer ρ where
  timer := .idle
  repeatSeconds := setup.zero
  calling := false
  called := []
  early := []

def machine (setup : TimerSetup ρ) : Machine (AtomicTimer ρ) (Event ρ) where
  init := initial setup
  step := step setup

/-- From `x`, what is seen is explained by some choice of the moments at which the calls take
effect. -/
def Explains (setup : TimerSetup ρ) (x : AtomicTimer ρ) (seen : List (Event ρ)) : Prop :=
  ∃ events y, events.filter Event.visible = seen ∧ (machine setup).run x events = some y

/-! ## What the reference can do -/

variable {setup : TimerSetup ρ} {x y : AtomicTimer ρ} {events : List (Event ρ)}

/-- Without the events that are not seen, no call takes effect early. -/
lemma early_of_step {e : Event ρ} (hstep : x.step setup e = some y) (he : e.visible = true)
    (hearly : x.early = []) : y.early = [] := by
  cases e with
  | effect c => cases he
  | executed c =>
      rw [step, hearly, if_neg List.not_mem_nil] at hstep
      cases hstep
      exact hearly
  | fire seconds =>
      obtain ⟨-, heq⟩ := Option.ite_none_right_eq_some.mp hstep
      cases heq
      exact hearly
  | finish =>
      cases hstep
      split
      · exact hearly
      · exact hearly
  | called c | again | stop =>
      cases hstep
      exact hearly

lemma early_of_run (hrun : (machine setup).run x events = some y)
    (hvisible : ∀ e ∈ events, e.visible = true) (hearly : x.early = []) : y.early = [] := by
  induction events generalizing x with
  | nil =>
      cases hrun
      exact hearly
  | cons e events ih =>
      rw [Machine.run_cons] at hrun
      obtain ⟨z, hz, hrun⟩ := Option.bind_eq_some_iff.mp hrun
      have hz' := early_of_step hz (hvisible e List.mem_cons_self) hearly
      exact ih hrun (fun e' he' => hvisible e' (List.mem_cons_of_mem _ he')) hz'

/-- How often the timer can fire before it is set anew. -/
def shots : ReferenceTimer ρ → ℕ
  | .idle => 0
  | .armed _ => 1

/-- Without a repeat, and until the next start takes effect. -/
lemma fires_le (hrun : (machine setup).run x events = some y)
    (hvisible : ∀ e ∈ events, e.visible = true) (hnone : ∀ c, .executed c ∉ events)
    (hrepeat : setup.positive x.repeatSeconds = false) :
    events.countP Event.isFire ≤ shots x.timer := by
  induction events generalizing x with
  | nil => exact Nat.zero_le _
  | cons e events ih =>
      rw [Machine.run_cons] at hrun
      obtain ⟨z, hz, hrun⟩ := Option.bind_eq_some_iff.mp hrun
      have hrest := ih hrun (fun e' he' => hvisible e' (List.mem_cons_of_mem _ he'))
        (fun c hc => hnone c (List.mem_cons_of_mem _ hc))
      -- once the timer is idle it stays so
      have hidle : z.timer = .idle → setup.positive z.repeatSeconds = false →
          events.countP Event.isFire ≤ 0 := by
        intro hz' hrepeat'
        have hzero := hrest hrepeat'
        rwa [hz'] at hzero
      have hrearm : (x.rearm setup).timer = .idle := by
        rw [rearm, hrepeat]
        rfl
      cases e with
      | effect c => cases hvisible _ List.mem_cons_self
      | executed c => exact absurd List.mem_cons_self (hnone c)
      | called c =>
          cases hz
          exact hrest hrepeat
      | again =>
          cases hz
          exact Nat.le_trans (hidle hrearm hrepeat) (Nat.zero_le _)
      | stop =>
          cases hz
          exact Nat.le_trans (hidle rfl hrepeat) (Nat.zero_le _)
      | fire seconds =>
          obtain ⟨harmed, heq⟩ := Option.ite_none_right_eq_some.mp hz
          cases heq
          rw [harmed, List.countP_cons_of_pos rfl]
          exact Nat.succ_le_succ (hidle rfl hrepeat)
      | finish =>
          cases hz
          by_cases hcalling : x.calling = true
          · rw [if_pos hcalling] at hidle
            exact Nat.le_trans (hidle hrearm hrepeat) (Nat.zero_le _)
          · rw [if_neg hcalling] at hrest
            exact hrest hrepeat

/-- The next thing that is seen happens next, or a call takes effect first. -/
lemma Explains.cases_head {e : Event ρ} {seen : List (Event ρ)}
    (h : Explains setup x (e :: seen)) :
    (∃ y, x.step setup e = some y ∧ Explains setup y seen) ∨
      ∃ c ∈ x.called, Explains setup (x.takeEffect c) (e :: seen) := by
  obtain ⟨events, z, hseen, hrun⟩ := h
  cases events with
  | nil => cases hseen
  | cons e' events =>
      rw [Machine.run_cons] at hrun
      obtain ⟨y, hy, hrest⟩ := Option.bind_eq_some_iff.mp hrun
      cases hvisible : e'.visible with
      | true =>
          rw [List.filter_cons_of_pos hvisible] at hseen
          cases hseen
          exact .inl ⟨y, hy, events, z, rfl, hrest⟩
      | false =>
          rw [List.filter_cons_of_neg (ne_true_of_eq_false hvisible)] at hseen
          cases e' with
          | effect c =>
              obtain ⟨hc, heq⟩ := Option.ite_none_right_eq_some.mp hy
              cases heq
              exact .inr ⟨c, hc, events, z, hseen, hrest⟩
          | _ => cases hvisible

/-- Whether `n` steps of a search leave it open that what is seen is explained. -/
def search (setup : TimerSetup ρ) : ℕ → AtomicTimer ρ → List (Event ρ) → Bool
  | 0, _, _ => true
  | _ + 1, _, [] => true
  | n + 1, x, e :: seen =>
      (x.step setup e).any (fun y => search setup n y seen) ||
        x.called.any fun c => search setup n (x.takeEffect c) (e :: seen)

lemma Explains.search {seen : List (Event ρ)} (n : ℕ) (h : Explains setup x seen) :
    AtomicTimer.search setup n x seen = true := by
  induction n generalizing x seen with
  | zero => rfl
  | succ n ih =>
      cases seen with
      | nil => rfl
      | cons e seen =>
          rw [AtomicTimer.search, Bool.or_eq_true]
          rcases h.cases_head with ⟨y, hy, hrest⟩ | ⟨c, hc, hrest⟩
          · rw [hy]
            exact .inl (ih hrest)
          · exact .inr (List.any_eq_true.mpr ⟨c, hc, ih hrest⟩)

end AtomicTimer

/-! ## The timer with its calls told apart -/

/-- The operation with its seconds mapped. -/
def TimerOp.map {τ : Type*} (f : ρ → τ) : TimerOp ρ → TimerOp τ
  | .arm after => .arm (f after)
  | .again => .again
  | .cancel => .cancel

/-- A `PeriodicTimer`, with records of which call of `start()` is where. -/
structure WatchedTimer (ρ : Type u) where
  timer : PeriodicTimer ρ
  /-- How many calls of `start()` have stored their repeat. -/
  starts : ℕ
  /-- The calls of `timer.calling`. -/
  calling : List (StartCall ρ)
  /-- The operations of `timer.posted`. -/
  posted : List (TimerOp (StartCall ρ))
  /-- The call whose arm was executed last. -/
  executed : Option (StartCall ρ)
  /-- The timer was set last by a re-arm, and the repeat then was not that of this call. -/
  mixed : Bool

namespace WatchedTimer

/-- The call whose arm was executed last, after one more operation. -/
def lastExecuted (before : Option (StartCall ρ)) : TimerOp (StartCall ρ) → Option (StartCall ρ)
  | .arm c => some c
  | _ => before

/-- The repeat of the call whose arm was executed last. -/
def executedRepeat (setup : TimerSetup ρ) (w : WatchedTimer ρ) : ρ :=
  w.executed.elim setup.zero StartCall.repeatSeconds

lemma executedRepeat_congr {setup : TimerSetup ρ} {w w' : WatchedTimer ρ}
    (hexecuted : w'.executed = w.executed) : w'.executedRepeat setup = w.executedRepeat setup := by
  rw [executedRepeat, hexecuted]
  rfl

section Steps

variable [DecidableEq ρ]

/-- The stored repeat is another one. -/
def divided (setup : TimerSetup ρ) (w : WatchedTimer ρ) : Bool :=
  decide (w.timer.repeatSeconds ≠ w.executedRepeat setup)

/-- Whether the operation re-arms with another repeat. -/
def mixes (setup : TimerSetup ρ) (w : WatchedTimer ρ) : TimerOp (StartCall ρ) → Bool
  | .again => w.divided setup
  | _ => false

/-- The records after an action. -/
def watch (setup : TimerSetup ρ) (w : WatchedTimer ρ) (t : PeriodicTimer ρ) :
    PeriodicTimer.Act ρ → WatchedTimer ρ
  | .start after r =>
      { w with
        timer := t
        starts := w.starts + 1
        calling := w.calling ++ [⟨w.starts, after, r⟩] }
  | .post i =>
      { w with
        timer := t
        calling := w.calling.eraseIdx i
        posted := w.posted ++ ((w.calling[i]?).map TimerOp.arm).toList }
  | .again => { w with timer := t, posted := w.posted ++ [.again] }
  | .stop => { w with timer := t, posted := w.posted ++ [.cancel] }
  | .execute i =>
      { w with
        timer := t
        posted := w.posted.eraseIdx i
        executed := (w.posted[i]?).elim w.executed (lastExecuted w.executed)
        mixed := (w.posted[i]?).elim w.mixed (w.mixes setup) }
  | .finish _ => { w with timer := t, mixed := w.divided setup }
  | _ => { w with timer := t }

def initial (setup : TimerSetup ρ) : WatchedTimer ρ where
  timer := .initial setup
  starts := 0
  calling := []
  posted := []
  executed := none
  mixed := false

/-- One action, of the timer. -/
def step (setup : TimerSetup ρ) (w : WatchedTimer ρ) (act : PeriodicTimer.Act ρ) :
    Option (WatchedTimer ρ) :=
  (w.timer.step setup act).map fun t => w.watch setup t act

def machine (setup : TimerSetup ρ) : Machine (WatchedTimer ρ) (PeriodicTimer.Act ρ) where
  init := initial setup
  step := step setup

end Steps

/-- What an operation is for the reference. -/
def shownOp : TimerOp (StartCall ρ) → AtomicTimer.Event ρ
  | .arm c => .executed c
  | .again => .again
  | .cancel => .stop

/-- What an action shows. -/
def shown (w : WatchedTimer ρ) : PeriodicTimer.Act ρ → Option (AtomicTimer.Event ρ)
  | .start after r => some (.called ⟨w.starts, after, r⟩)
  | .execute i => (w.posted[i]?).map shownOp
  | .complete k =>
      if w.timer.state.Admits k then some (.fire (w.timer.state.wait k).seconds) else none
  | .finish _ => some .finish
  | _ => none

/-- The action is a `set_repeat()`. -/
def setsRepeat : PeriodicTimer.Act ρ → Bool
  | .setRepeat _ => true
  | _ => false

/-- The action begins a callback. -/
def begins (w : WatchedTimer ρ) : PeriodicTimer.Act ρ → Bool
  | .complete k => decide (w.timer.state.Admits k)
  | _ => false

/-- `set_repeat()` is not called, and no completion is late by `2 ^ 64` operations. -/
def Started (setup : TimerSetup ρ) (w : WatchedTimer ρ) (act : PeriodicTimer.Act ρ) : Prop :=
  w.timer.Prompt setup act ∧ setsRepeat act = false

instance (setup : TimerSetup ρ) (w : WatchedTimer ρ) (act : PeriodicTimer.Act ρ) :
    Decidable (w.Started setup act) :=
  inferInstanceAs (Decidable (_ ∧ _))

/-- Also, no callback begins after a re-arm with a repeat that was not that of the start whose arm
was executed last. -/
def Undivided (setup : TimerSetup ρ) (w : WatchedTimer ρ) (act : PeriodicTimer.Act ρ) : Prop :=
  w.Started setup act ∧ (w.begins act = true → w.mixed = false)

instance (setup : TimerSetup ρ) (w : WatchedTimer ρ) (act : PeriodicTimer.Act ρ) :
    Decidable (w.Undivided setup act) :=
  inferInstanceAs (Decidable (_ ∧ (_ → _)))

/-! ## What a step can be -/

variable {setup : TimerSetup ρ} {w w' : WatchedTimer ρ} {act : PeriodicTimer.Act ρ}

/-- The records are about the timer. -/
structure Recorded (w : WatchedTimer ρ) : Prop where
  calling : w.timer.calling = w.calling.map StartCall.after
  posted : w.timer.posted = w.posted.map (TimerOp.map StartCall.after)

lemma Recorded.push (h : w.Recorded) (op : TimerOp (StartCall ρ)) :
    Recorded { w with
      timer := { w.timer with posted := w.timer.posted ++ [op.map StartCall.after] }
      posted := w.posted ++ [op] } := by
  refine ⟨h.calling, ?_⟩
  show w.timer.posted ++ [op.map StartCall.after] = _
  rw [h.posted, List.map_append]
  rfl

lemma visible_of_shown {e : AtomicTimer.Event ρ} (he : w.shown act = some e) :
    e.visible = true := by
  cases act with
  | execute i =>
      obtain ⟨op, -, rfl⟩ := Option.map_eq_some_iff.mp he
      cases op <;> rfl
  | complete k =>
      obtain ⟨-, heq⟩ := Option.ite_none_right_eq_some.mp he
      cases heq
      rfl
  | start after r | finish threw =>
      cases he
      rfl
  | setRepeat r | post i | again | stop | expire k => cases he

variable [DecidableEq ρ]

/-- The steps without a `set_repeat()`, by what they do. -/
inductive Move (setup : TimerSetup ρ) (w : WatchedTimer ρ) :
    PeriodicTimer.Act ρ → WatchedTimer ρ → Prop
  | start (after r : ρ) :
      Move setup w (.start after r)
        { w with
          timer := { w.timer with repeatSeconds := r, calling := w.timer.calling ++ [after] }
          starts := w.starts + 1
          calling := w.calling ++ [⟨w.starts, after, r⟩] }
  | post {i : ℕ} {c : StartCall ρ} (hc : w.calling[i]? = some c) :
      Move setup w (.post i)
        { w with
          timer := { w.timer with
            calling := w.timer.calling.eraseIdx i
            posted := w.timer.posted ++ [.arm c.after] }
          calling := w.calling.eraseIdx i
          posted := w.posted ++ [.arm c] }
  | again :
      Move setup w .again
        { w with
          timer := { w.timer with posted := w.timer.posted ++ [.again] }
          posted := w.posted ++ [.again] }
  | stop :
      Move setup w .stop
        { w with
          timer := { w.timer with posted := w.timer.posted ++ [.cancel] }
          posted := w.posted ++ [.cancel] }
  | execute {i : ℕ} {op : TimerOp (StartCall ρ)} (hidle : w.timer.state.running = none)
      (hop : w.posted[i]? = some op) :
      Move setup w (.execute i)
        { w with
          timer := { w.timer with
            posted := w.timer.posted.eraseIdx i
            state := w.timer.state.perform setup w.timer.repeatSeconds (op.map StartCall.after) }
          posted := w.posted.eraseIdx i
          executed := lastExecuted w.executed op
          mixed := w.mixes setup op }
  | expire {k : ℕ} {x : PeriodicTimer.State ρ} (hx : w.timer.state.expire k = some x) :
      Move setup w (.expire k) { w with timer := { w.timer with state := x } }
  | complete {k : ℕ} {x : PeriodicTimer.State ρ}
      (hx : w.timer.state.complete setup.callback k = some x) :
      Move setup w (.complete k) { w with timer := { w.timer with state := x } }
  | finish {threw : Bool} {k : ℕ} (hrun : w.timer.state.running = some k) :
      Move setup w (.finish threw)
        { w with
          timer := { w.timer with state := w.timer.state.finish setup w.timer.repeatSeconds k }
          mixed := w.divided setup }

lemma move_of_step (h : w.Recorded) (hset : setsRepeat act = false)
    (hstep : w.step setup act = some w') : Move setup w act w' := by
  obtain ⟨t, ht, rfl⟩ := Option.map_eq_some_iff.mp hstep
  cases act with
  | setRepeat r => cases hset
  | start after r =>
      cases ht
      exact .start after r
  | post i =>
      obtain ⟨after, hafter, rfl⟩ := Option.map_eq_some_iff.mp ht
      rw [h.calling, List.getElem?_map] at hafter
      obtain ⟨c, hc, rfl⟩ := Option.map_eq_some_iff.mp hafter
      simp only [watch, hc]
      exact .post hc
  | again =>
      cases ht
      exact .again
  | stop =>
      cases ht
      exact .stop
  | execute i =>
      obtain ⟨hidle, ht⟩ := Option.ite_none_right_eq_some.mp ht
      obtain ⟨op', hop', rfl⟩ := Option.map_eq_some_iff.mp ht
      rw [h.posted, List.getElem?_map] at hop'
      obtain ⟨op, hop, rfl⟩ := Option.map_eq_some_iff.mp hop'
      simp only [watch, hop]
      exact .execute hidle hop
  | expire k =>
      obtain ⟨x, hx, rfl⟩ := Option.map_eq_some_iff.mp ht
      exact .expire hx
  | complete k =>
      obtain ⟨x, hx, rfl⟩ := Option.map_eq_some_iff.mp ht
      exact .complete hx
  | finish threw =>
      obtain ⟨k, hrun, rfl⟩ := Option.map_eq_some_iff.mp ht
      exact .finish hrun

lemma Recorded.move (h : w.Recorded) (hmove : Move setup w act w') : w'.Recorded := by
  cases hmove with
  | start after r =>
      refine ⟨?_, h.posted⟩
      show w.timer.calling ++ [after] = _
      rw [h.calling, List.map_append]
      rfl
  | @post i c hc =>
      refine ⟨?_, (h.push (.arm c)).posted⟩
      show w.timer.calling.eraseIdx i = _
      rw [h.calling, List.eraseIdx_map]
  | again => exact h.push .again
  | stop => exact h.push .cancel
  | @execute i op hidle hop =>
      refine ⟨h.calling, ?_⟩
      show w.timer.posted.eraseIdx i = _
      rw [h.posted, List.eraseIdx_map]
  | expire | complete | finish => exact ⟨h.calling, h.posted⟩

/-! ## Starts that take effect when their arms are executed -/

lemma reachable_timer (hs : (machine setup).ReachableUnder (Started setup) w) :
    w.Recorded ∧
      (PeriodicTimer.machine setup).ReachableUnder (PeriodicTimer.Prompt setup) w.timer := by
  apply hs.invariant (I := fun w => w.Recorded ∧
    (PeriodicTimer.machine setup).ReachableUnder (PeriodicTimer.Prompt setup) w.timer)
  · exact ⟨⟨rfl, rfl⟩, .init⟩
  · intro w act w' h hok hstep
    refine ⟨h.1.move (move_of_step h.1 hok.2 hstep), ?_⟩
    obtain ⟨t, ht, rfl⟩ := Option.map_eq_some_iff.mp hstep
    have htimer : (w.watch setup t act).timer = t := by cases act <;> rfl
    rw [htimer]
    exact h.2.step hok.1 ht

/-- The reference after a run in which no start took effect before its arm was executed.  It is in
the timer's state, unless the timer was set by a mixed re-arm: then it is not set for the same
seconds. -/
structure Agrees (setup : TimerSetup ρ) (w : WatchedTimer ρ) (x : AtomicTimer ρ) : Prop where
  early : x.early = []
  calling : x.calling = w.timer.state.running.isSome
  calling_idle : x.calling = true → w.timer.state.look = .idle
  repeatSeconds : x.repeatSeconds = w.executedRepeat setup
  same : w.mixed = false → x.timer = w.timer.state.look
  apart : w.mixed = true → ∀ r, w.timer.state.look = .armed r → x.timer ≠ .armed r

namespace Agrees

variable {x : AtomicTimer ρ}

omit [DecidableEq ρ] in
lemma keep (h : Agrees setup w x) (hexecuted : w'.executed = w.executed)
    (hmixed : w'.mixed = w.mixed) (hlook : w'.timer.state.look = w.timer.state.look)
    (hrunning : w'.timer.state.running = w.timer.state.running) : Agrees setup w' x := by
  have hrepeat : w'.executedRepeat setup = w.executedRepeat setup :=
    executedRepeat_congr hexecuted
  refine ⟨h.early, ?_, ?_, h.repeatSeconds.trans hrepeat.symm, ?_, ?_⟩
  · rw [hrunning]
    exact h.calling
  · rw [hlook]
    exact h.calling_idle
  · rw [hmixed, hlook]
    exact h.same
  · rw [hmixed, hlook]
    exact h.apart

omit [DecidableEq ρ] in
/-- The wait of a completion that begins a callback is what the timer is set for. -/
lemma look_of_admits (hsound : w.timer.state.Sound) {k : ℕ} (hk : k < w.timer.state.arms)
    (hadm : w.timer.state.Admits k) :
    w.timer.state.look = .armed (w.timer.state.wait k).seconds := by
  have hlast := (hsound.latest hk (hsound.tick_of_admits hk hadm)).1
  rw [PeriodicTimer.State.look_of_arms hlast, Wait.look_of_live ⟨.inr hadm.1, hadm.2⟩]

/-- The timer is set for the stored repeat, and the reference for that of the last start it has
seen. -/
lemma rearm (h : Agrees setup w x) (hexecuted : w'.executed = w.executed)
    (hmixed : w'.mixed = w.divided setup) (hrunning : w'.timer.state.running = none)
    (hlook : w'.timer.state.look =
      if setup.positive w.timer.repeatSeconds then .armed w.timer.repeatSeconds else .idle) :
    Agrees setup w' (x.rearm setup) := by
  have hrepeat : w'.executedRepeat setup = w.executedRepeat setup :=
    executedRepeat_congr hexecuted
  have htimer : (x.rearm setup).timer = if setup.positive (w.executedRepeat setup) then
      .armed (w.executedRepeat setup) else .idle := by
    rw [AtomicTimer.rearm, h.repeatSeconds]
  refine ⟨h.early, ?_, fun hc => absurd hc Bool.false_ne_true,
    h.repeatSeconds.trans hrepeat.symm, fun hwhole => ?_, fun hdivided r hr hr' => ?_⟩
  · rw [hrunning]
    rfl
  · rw [hmixed, divided, decide_eq_false_iff_not, not_not] at hwhole
    rw [htimer, hlook, hwhole]
  · rw [hmixed, divided, decide_eq_true_iff] at hdivided
    rw [hlook] at hr
    rw [htimer] at hr'
    -- each is set for its own repeat
    split at hr
    · split at hr'
      · exact hdivided (ReferenceTimer.armed.inj (hr.trans hr'.symm))
      · cases hr'
    · cases hr

lemma execute (h : Agrees setup w x) (hsound : w.timer.state.Sound)
    (hrecent : w.timer.state.Recent) (hidle : w.timer.state.running = none)
    (op : TimerOp (StartCall ρ)) (posted : List (TimerOp ρ))
    (ops : List (TimerOp (StartCall ρ))) :
    ∃ y, x.step setup (shownOp op) = some y ∧
      Agrees setup { w with
        timer := { w.timer with
          posted := posted
          state := w.timer.state.perform setup w.timer.repeatSeconds (op.map StartCall.after) }
        posted := ops
        executed := lastExecuted w.executed op
        mixed := w.mixes setup op } y := by
  have hlook := hsound.look_perform hrecent setup w.timer.repeatSeconds (op.map StartCall.after)
  have hrunning : (w.timer.state.perform setup w.timer.repeatSeconds
      (op.map StartCall.after)).running = none := by
    rw [PeriodicTimer.State.running_perform, hidle]
  have hcalling := congrArg Option.isSome hrunning.symm
  cases op with
  | arm c =>
      have hstep : x.step setup (shownOp (.arm c)) =
          some { x.start c with called := x.called.erase c } := by
        rw [shownOp, AtomicTimer.step, h.early, if_neg List.not_mem_nil]
      exact ⟨_, hstep, h.early, hcalling, fun hc => absurd hc Bool.false_ne_true, rfl,
        fun _ => Option.some.inj hlook, fun hc => absurd hc Bool.false_ne_true⟩
  | again =>
      refine ⟨_, rfl, h.rearm rfl rfl hrunning ?_⟩
      rw [TimerOp.map, PeriodicTimer.shownOp] at hlook
      split at hlook
      · rename_i hpos
        rw [if_pos hpos]
        exact (Option.some.inj hlook).symm
      · rename_i hpos
        rw [if_neg hpos]
        exact (Option.some.inj hlook).symm
  | cancel =>
      exact ⟨_, rfl, h.early, hcalling, fun hc => absurd hc Bool.false_ne_true, h.repeatSeconds,
        fun _ => Option.some.inj hlook, fun hc => absurd hc Bool.false_ne_true⟩

lemma complete (h : Agrees setup w x) (hsound : w.timer.state.Sound) {k : ℕ}
    {st : PeriodicTimer.State ρ} (hx : w.timer.state.complete setup.callback k = some st)
    (hwhole : w.timer.state.Admits k → w.mixed = false) :
    ∃ y, (AtomicTimer.machine setup).stepOption x (w.shown (.complete k)) = some y ∧
      Agrees setup { w with timer := { w.timer with state := st } } y := by
  have hlook := hsound.look_complete hx
  obtain ⟨hidle, hk, -, ⟨hadm, hst⟩ | ⟨hadm, hst⟩⟩ := PeriodicTimer.State.complete_cases hx
  · have harmed := look_of_admits hsound hk hadm
    rw [if_pos hadm, harmed] at hlook
    have hafter : .idle = st.look := Option.some.inj hlook
    refine ⟨{ x with timer := .idle, calling := true }, ?_, h.early, ?_, fun _ => hafter.symm,
      h.repeatSeconds, fun _ => hafter, fun hmixed => ?_⟩
    · rw [shown, if_pos hadm]
      exact if_pos ((h.same (hwhole hadm)).trans harmed)
    · show true = st.running.isSome
      rw [hst]
      rfl
    · exact absurd ((hwhole hadm).symm.trans hmixed) Bool.false_ne_true
  · rw [if_neg hadm] at hlook
    refine ⟨x, ?_, h.keep rfl rfl (Option.some.inj hlook).symm ?_⟩
    · rw [shown, if_neg hadm]
      rfl
    · show st.running = _
      rw [hst]

/-- After a mixed re-arm the reference does not make the callback. -/
lemma refuses (h : Agrees setup w x) (hsound : w.timer.state.Sound) {k : ℕ}
    (hk : k < w.timer.state.arms) (hadm : w.timer.state.Admits k) (hmixed : w.mixed = true) :
    (AtomicTimer.machine setup).stepOption x (w.shown (.complete k)) = none := by
  rw [shown, if_pos hadm]
  exact if_neg (h.apart hmixed _ (look_of_admits hsound hk hadm))

lemma finish (h : Agrees setup w x) (hsound : w.timer.state.Sound) {k : ℕ}
    (hrun : w.timer.state.running = some k) :
    ∃ y, x.step setup .finish = some y ∧
      Agrees setup { w with
        timer := { w.timer with state := w.timer.state.finish setup w.timer.repeatSeconds k }
        mixed := w.divided setup } y := by
  have hlook := hsound.look_finish hrun setup w.timer.repeatSeconds
  have hcalling : x.calling = true := by
    rw [h.calling, hrun]
    rfl
  refine ⟨x.rearm setup, congrArg some (if_pos hcalling),
    h.rearm rfl rfl (PeriodicTimer.State.running_finish ..) ?_⟩
  rw [h.calling_idle hcalling] at hlook
  split at hlook
  · rename_i hpos
    rw [if_pos hpos]
    exact (Option.some.inj hlook).symm
  · rename_i hpos
    rw [if_neg hpos]
    exact (Option.some.inj hlook).symm

lemma move (h : Agrees setup w x) (hsound : w.timer.state.Sound) (hok : w.Undivided setup act)
    (hmove : Move setup w act w') :
    ∃ y, (AtomicTimer.machine setup).stepOption x (w.shown act) = some y ∧ Agrees setup w' y := by
  cases hmove with
  | start after r =>
      exact ⟨_, rfl, h.early, h.calling, h.calling_idle, h.repeatSeconds, h.same, h.apart⟩
  | post hc => exact ⟨x, rfl, h.keep rfl rfl rfl rfl⟩
  | again => exact ⟨x, rfl, h.keep rfl rfl rfl rfl⟩
  | stop => exact ⟨x, rfl, h.keep rfl rfl rfl rfl⟩
  | @execute i op hidle hop =>
      obtain ⟨y, hy, hagrees⟩ := h.execute hsound (hok.1.1 rfl) hidle op _ _
      refine ⟨y, ?_, hagrees⟩
      rw [shown, hop]
      exact hy
  | expire hx =>
      have hlook := PeriodicTimer.State.look_expire hx
      exact ⟨x, rfl, h.keep rfl rfl hlook (PeriodicTimer.State.running_expire hx)⟩
  | complete hx => exact h.complete hsound hx fun hadm => hok.2 (decide_eq_true hadm)
  | finish hrun => exact h.finish hsound hrun

/-- A step that breaks the condition shows a callback that the reference does not make. -/
lemma none_of_break (h : Agrees setup w x) (hsound : w.timer.state.Sound)
    (hok : w.Started setup act) (hbreak : ¬ w.Undivided setup act) (hmove : Move setup w act w') :
    (AtomicTimer.machine setup).stepOption x (w.shown act) = none := by
  have hbegins : w.begins act = true ∧ w.mixed = true := by
    refine ⟨?_, ?_⟩
    · exact Classical.byContradiction fun hnot => hbreak ⟨hok, fun hb => absurd hb hnot⟩
    · exact (Bool.eq_false_or_eq_true _).resolve_right fun hm => hbreak ⟨hok, fun _ => hm⟩
  cases hmove with
  | complete hx =>
      obtain ⟨-, hk, -⟩ := PeriodicTimer.State.complete_cases hx
      exact h.refuses hsound hk (of_decide_eq_true hbegins.1) hbegins.2
  | _ => cases hbegins.1

end Agrees

/-! ## The result -/

variable {seen : List (AtomicTimer.Event ρ)}

lemma visible_of_mem {ok : WatchedTimer ρ → PeriodicTimer.Act ρ → Prop}
    (hs : (machine setup).ShownUnder ok shown seen w) : ∀ e ∈ seen, e.visible = true := by
  induction hs with
  | init => exact fun _ he => absurd he List.not_mem_nil
  | step _ _ _ ih =>
      intro e he
      rcases List.mem_append.mp he with hold | hnew
      · exact ih e hold
      · exact visible_of_shown (Option.mem_toList.mp hnew)

lemma agrees_of_shown (hs : (machine setup).ShownUnder (Undivided setup) shown seen w) :
    ∃ x, (AtomicTimer.machine setup).run (AtomicTimer.initial setup) seen = some x ∧
      Agrees setup w x := by
  have hinit : Agrees setup (initial setup) (AtomicTimer.initial setup) :=
    ⟨rfl, rfl, fun _ => rfl, rfl, fun _ => rfl, fun h => absurd h Bool.false_ne_true⟩
  refine hs.run_of_relation (N := AtomicTimer.machine setup) (R := Agrees setup) hinit ?_
  intro w act w' x hreach hok hstep h
  obtain ⟨hrec, htimer⟩ := reachable_timer (hreach.mono fun _ _ hok => hok.1)
  exact h.move (PeriodicTimer.sound_of_reachable htimer) hok (move_of_step hrec hok.1.2 hstep)

/-- **A start takes effect at one moment.**  In every run without a `set_repeat()`, in which no
callback begins after a re-arm with a repeat that was not that of the start whose arm was executed
last: the callbacks are those of a reference in which each start replaces the deadline and the
repeat at one moment; and a timer started without a repeat calls back at most once before the arm of
the next start is executed.  The condition is exact: a callback that breaks it is none of the
reference if each start takes effect when its arm is executed. -/
theorem start_takes_effect_at_once (seen : List (AtomicTimer.Event ρ)) (w : WatchedTimer ρ)
    (hs : (machine setup).ShownUnder (Undivided setup) shown seen w) :
    AtomicTimer.Explains setup (AtomicTimer.initial setup) seen ∧
      (∀ before c later, seen = before ++ .executed c :: later →
        setup.positive c.repeatSeconds = false → (∀ d, .executed d ∉ later) →
        later.countP AtomicTimer.Event.isFire ≤ 1) ∧
      ∀ act w', w.Started setup act → ¬ w.Undivided setup act → w.step setup act = some w' →
        (AtomicTimer.machine setup).run (AtomicTimer.initial setup)
          (seen ++ (w.shown act).toList) = none := by
  obtain ⟨x, hx, hagrees⟩ := agrees_of_shown hs
  have hvisible := visible_of_mem hs
  refine ⟨⟨seen, x, List.filter_eq_self.mpr hvisible, hx⟩, ?_, ?_⟩
  · rintro before c later rfl hrepeat hnone
    rw [Machine.run_append] at hx
    obtain ⟨y, hy, hx⟩ := Option.bind_eq_some_iff.mp hx
    rw [Machine.run_cons] at hx
    obtain ⟨z, hz, hx⟩ := Option.bind_eq_some_iff.mp hx
    have hearly : y.early = [] :=
      AtomicTimer.early_of_run hy (fun e he => hvisible e (List.mem_append_left _ he)) rfl
    have hstep : (AtomicTimer.machine setup).step y (.executed c) =
        some { y.start c with called := y.called.erase c } :=
      if_neg (by rw [hearly]; exact List.not_mem_nil)
    rw [hstep] at hz
    cases hz
    have hlater : ∀ e ∈ later, e.visible = true := fun e he =>
      hvisible e (List.mem_append_right _ (List.mem_cons_of_mem _ he))
    exact AtomicTimer.fires_le hx hlater hnone hrepeat
  · intro act w' hok hbreak hstep
    have hreach := hs.reachableUnder.mono fun _ _ hok => hok.1
    obtain ⟨hrec, htimer⟩ := reachable_timer hreach
    rw [Machine.run_append, hx, Option.bind_some, Machine.run_toList]
    exact hagrees.none_of_break (PeriodicTimer.sound_of_reachable htimer) hok hbreak
      (move_of_step hrec hok.2 hstep)

/-- The timer is started for one second, and it expires.  Before the callback another thread calls
`start(5, 2)` and stores the 2; it has not posted when the timer expires again. -/
def mixedRun : List (PeriodicTimer.Act ℕ) :=
  [.start 1 0, .post 0, .execute 0, .start 5 2, .expire 0, .complete 0, .finish false, .expire 1,
    .complete 1]

/-- What it shows. -/
def mixedSeen : List (AtomicTimer.Event ℕ) :=
  [.called ⟨0, 1, 0⟩, .executed ⟨0, 1, 0⟩, .called ⟨1, 5, 2⟩, .fire 1, .finish, .fire 2]

/-- The timer was started without a repeat and calls back twice, the second time two seconds after
the first.  No choice of the moment at which the second start takes effect explains it. -/
theorem mixes_two_starts :
    ∃ w, (machine PeriodicTimer.wholeSeconds).ShownUnder
        (Started PeriodicTimer.wholeSeconds) shown mixedSeen w ∧
      w.calling = [⟨1, 5, 2⟩] ∧
      ¬ AtomicTimer.Explains PeriodicTimer.wholeSeconds
        (AtomicTimer.initial PeriodicTimer.wholeSeconds) mixedSeen := by
  obtain ⟨seen, w, hs, htest⟩ := (machine PeriodicTimer.wholeSeconds).exists_shownUnder_of_run
    (fun w act => decide (w.Started PeriodicTimer.wholeSeconds act))
    (fun _ _ => of_decide_eq_true) shown mixedRun
    (fun seen w => decide (seen = mixedSeen ∧ w.calling = [⟨1, 5, 2⟩])) (by decide +kernel)
  obtain ⟨rfl, hcalling⟩ := of_decide_eq_true htest
  refine ⟨w, hs, hcalling, fun h => ?_⟩
  exact absurd (h.search 12) (by decide +kernel)

/-- The timer is started for one second, without a repeat, and fires; then it is started again, with
a repeat, and fires twice. -/
def apartRun : List (PeriodicTimer.Act ℕ) :=
  [.start 1 0, .post 0, .execute 0, .expire 0, .complete 0, .start 5 2, .finish false, .post 0,
    .execute 0, .expire 2, .complete 2, .finish true, .expire 3, .complete 3]

/-- What it shows. -/
def apartSeen : List (AtomicTimer.Event ℕ) :=
  [.called ⟨0, 1, 0⟩, .executed ⟨0, 1, 0⟩, .fire 1, .called ⟨1, 5, 2⟩, .finish,
    .executed ⟨1, 5, 2⟩, .fire 5, .finish, .fire 2]

/-- The second start stores its repeat while the first callback runs, and its arm is executed before
the second. -/
theorem start_takes_effect_at_once_at_apartRun :
    ∃ w, (machine PeriodicTimer.wholeSeconds).ShownUnder
        (Undivided PeriodicTimer.wholeSeconds) shown apartSeen w ∧
      AtomicTimer.Explains PeriodicTimer.wholeSeconds
        (AtomicTimer.initial PeriodicTimer.wholeSeconds) apartSeen := by
  obtain ⟨seen, w, hs, htest⟩ := (machine PeriodicTimer.wholeSeconds).exists_shownUnder_of_run
    (fun w act => decide (w.Undivided PeriodicTimer.wholeSeconds act))
    (fun _ _ => of_decide_eq_true) shown apartRun (fun seen _ => decide (seen = apartSeen))
    (by decide +kernel)
  cases of_decide_eq_true htest
  exact ⟨w, hs, (start_takes_effect_at_once apartSeen w hs).1⟩

end WatchedTimer

end ReactorRuntime
