import ReactorRuntime.Events.TimerRefinement
import ReactorRuntime.Library.Spacing

/-!
# The periodic timer and the clock

`Events/TimerRefinement.lean` has no clock: a pending wait may expire whenever it likes.  Here a
wait expires when its time has come and not before, which is what `asio::steady_timer` promises, and
its completion is executed at that moment or at any later one.

The reference is a timer with a deadline: an arm sets it, a stop takes it away, and the timer fires
when it has passed.  `timed_refines_reference` says that `PeriodicTimer` is such a timer.  So once
the loop has executed an arm for `d` nanoseconds there is no callback before `d` nanoseconds are
over, whatever completions of earlier arms are still queued at that moment.  And
where no arm is for less than `gap`, callbacks are at least `gap` apart (`callbacks_apart`).
-/

namespace ReactorRuntime

/-! ## The reference with a clock -/

/-- A timer that is idle, or fires at a deadline. -/
structure TimedReference where
  now : ℕ
  due : Option ℕ
  /-- Record: when it fired, the last time first. -/
  fired : List ℕ
  deriving DecidableEq, Repr

namespace TimedReference

/-- What it is told, and what it does. -/
inductive Event
  /-- Time passes. -/
  | pass (ns : ℕ)
  | arm (ns : ℕ)
  | stop
  | fire
  deriving DecidableEq, Repr

def step (x : TimedReference) : Event → Option TimedReference
  | .pass ns => some { x with now := x.now + ns }
  | .arm ns => some { x with due := some (x.now + ns) }
  | .stop => some { x with due := none }
  | .fire =>
      if x.due.any fun due => decide (due ≤ x.now) then
        some { x with due := none, fired := x.now :: x.fired }
      else none

def machine : Machine TimedReference Event where
  init := ⟨0, none, []⟩
  step := step

/-- No arm is for less than `gap`. -/
def Apart (gap : ℕ) (_ : TimedReference) (e : Event) : Prop := ∀ ns, e = .arm ns → gap ≤ ns

/-- What it has fired lies apart, and so does what it will fire next. -/
structure Steady (gap : ℕ) (x : TimedReference) : Prop where
  spaced : Spaced gap x.fired
  past : ∀ t ∈ x.fired.head?, t ≤ x.now
  next : ∀ due ∈ x.due, ∀ t ∈ x.fired.head?, t + gap ≤ due

lemma Steady.step {gap : ℕ} {x y : TimedReference} {e : Event} (h : x.Steady gap)
    (hok : Apart gap x e) (hstep : x.step e = some y) : y.Steady gap := by
  cases e with
  | pass ns =>
      cases hstep
      exact ⟨h.spaced, fun t ht => Nat.le_add_right_of_le (h.past t ht), h.next⟩
  | arm ns =>
      cases hstep
      refine ⟨h.spaced, h.past, ?_⟩
      intro due hdue t ht
      obtain rfl : x.now + ns = due := Option.some.inj hdue
      have hgap := hok ns rfl
      have hpast := h.past t ht
      omega
  | stop =>
      cases hstep
      exact ⟨h.spaced, h.past, by simp⟩
  | fire =>
      obtain ⟨hdue, heq⟩ := Option.ite_none_right_eq_some.mp hstep
      cases heq
      rw [Option.any_eq_true] at hdue
      obtain ⟨due, hsome, hle⟩ := hdue
      have hle : due ≤ x.now := of_decide_eq_true hle
      refine ⟨h.spaced.cons ?_, ?_, by simp⟩
      · intro t ht
        exact Nat.le_trans (h.next due hsome t ht) hle
      · intro t ht
        obtain rfl : x.now = t := Option.some.inj ht
        exact Nat.le_refl _

lemma steady_of_reachable {gap : ℕ} {x : TimedReference}
    (hx : machine.ReachableUnder (Apart gap) x) : x.Steady gap :=
  hx.invariant (I := Steady gap) ⟨.nil, by simp [machine], by simp [machine]⟩
    fun _ _ _ h hok hstep => h.step hok hstep

end TimedReference

/-! ## The timer with a clock -/

/-- A `PeriodicTimer`, and when its waits expire. -/
structure TimedTimer (ρ : Type*) where
  timer : PeriodicTimer ρ
  now : ℕ
  /-- `timer.expires_after(...)` of each wait. -/
  due : ℕ → ℕ
  /-- Record: when a completion got to the callback, the last time first. -/
  fired : List ℕ

namespace TimedTimer

variable {ρ : Type*}

inductive Act (ρ : Type*)
  | act (a : PeriodicTimer.Act ρ)
  /-- Time passes. -/
  | pass (ns : ℕ)
  deriving DecidableEq, Repr

/-- What the clock says about an action: a wait expires when its time has come. -/
def Timely (s : TimedTimer ρ) : PeriodicTimer.Act ρ → Prop
  | .expire k => s.due k ≤ s.now
  | _ => True

instance (s : TimedTimer ρ) : (a : PeriodicTimer.Act ρ) → Decidable (s.Timely a)
  | .expire k => inferInstanceAs (Decidable (s.due k ≤ s.now))
  | .setRepeat _ | .start _ _ | .post _ | .again | .stop | .execute _ | .complete _ | .finish _ =>
      inferInstanceAs (Decidable True)

/-- An action turns the timer into `t`: an arm sets the time of its wait, by `to_ns`. -/
def follow (setup : TimerSetup ρ) (to_ns : ρ → ℕ) (s : TimedTimer ρ) (a : PeriodicTimer.Act ρ)
    (t : PeriodicTimer ρ) : TimedTimer ρ :=
  match PeriodicTimer.shown setup s.timer a with
  | some (.arm seconds) =>
      { s with
        timer := t
        due := Function.update s.due s.timer.state.arms (s.now + to_ns seconds) }
  | some .fire => { s with timer := t, fired := s.now :: s.fired }
  | _ => { s with timer := t }

def step (setup : TimerSetup ρ) (to_ns : ρ → ℕ) (s : TimedTimer ρ) :
    Act ρ → Option (TimedTimer ρ)
  | .act a =>
      if s.Timely a then (PeriodicTimer.step setup s.timer a).map (s.follow setup to_ns a) else none
  | .pass ns => some { s with now := s.now + ns }

/-- The timer with a clock as a machine. -/
def machine (setup : TimerSetup ρ) (to_ns : ρ → ℕ) : Machine (TimedTimer ρ) (Act ρ) where
  init := { timer := PeriodicTimer.initial setup, now := 0, due := fun _ => 0, fired := [] }
  step := step setup to_ns

/-- What an action is for the reference with a clock. -/
def shown (setup : TimerSetup ρ) (to_ns : ρ → ℕ) (s : TimedTimer ρ) :
    Act ρ → Option TimedReference.Event
  | .pass ns => some (.pass ns)
  | .act a =>
      (PeriodicTimer.shown setup s.timer a).map fun
        | .arm seconds => .arm (to_ns seconds)
        | .stop => .stop
        | .fire => .fire

/-- The reference that a timer stands for: its deadline is that of the last wait. -/
def look (s : TimedTimer ρ) : TimedReference where
  now := s.now
  due := match s.timer.state.look with
    | .idle => none
    | .armed _ => some (s.due (s.timer.state.arms - 1))
  fired := s.fired

/-- No completion is late by `2 ^ 64` operations. -/
def Prompt (setup : TimerSetup ρ) (s : TimedTimer ρ) : Act ρ → Prop
  | .act a => s.timer.Prompt setup a
  | .pass _ => True

end TimedTimer

/-! ## What a step does to the waits -/

namespace PeriodicTimer

variable {ρ : Type*} {setup : TimerSetup ρ} {s : PeriodicTimer ρ} {act : Act ρ} {x : State ρ}

/-- There is one wait more after an arm, and otherwise there is not. -/
lemma arms_of_turn (h : s.state.Sound) (hturn : Turn setup s act x) :
    (∃ seconds, shown setup s act = some (.arm seconds) ∧ x.arms = s.state.arms + 1) ∨
      (∀ seconds, shown setup s act ≠ some (.arm seconds)) ∧ x.arms = s.state.arms := by
  cases hturn with
  | call hcall => exact .inr ⟨by simp [shown_of_call hcall], rfl⟩
  | @execute i op hidle hop =>
      simp only [shown, hop, Option.map_some]
      cases op with
      | arm after => exact .inl ⟨after, rfl, rfl⟩
      | again =>
          simp only [shownOp, State.perform]
          split
          · exact .inl ⟨_, rfl, rfl⟩
          · exact .inr ⟨by simp, rfl⟩
      | cancel => exact .inr ⟨by simp [shownOp], rfl⟩
  | expire hx =>
      obtain ⟨-, heq⟩ := Option.ite_none_right_eq_some.mp hx
      cases heq
      exact .inr ⟨by simp [shown], rfl⟩
  | complete hx =>
      refine .inr ⟨?_, (State.frame_of_complete hx).1⟩
      simp only [shown]
      split <;> simp
  | finish hrun =>
      rw [h.finish_eq hrun]
      simp only [shown]
      split
      · exact .inl ⟨_, rfl, rfl⟩
      · exact .inr ⟨by simp, rfl⟩

/-- The timer fires by a completion that gets to the callback. -/
lemma admits_of_fire (h : shown setup s act = some .fire) :
    ∃ k, act = .complete k ∧ s.state.Admits k := by
  cases act with
  | complete k =>
      refine ⟨k, rfl, ?_⟩
      simp only [shown, Option.ite_none_right_eq_some] at h
      exact h.1
  | execute i =>
      obtain ⟨op, -, hop⟩ := Option.map_eq_some_iff.mp h
      cases op with
      | again =>
          simp only [shownOp] at hop
          split at hop <;> cases hop
      | arm | cancel => cases hop
  | finish threw =>
      obtain ⟨-, h⟩ := Option.ite_none_right_eq_some.mp h
      cases h
  | _ => cases h

lemma expired_of_abort {w : Wait ρ} (h : w.abort.status = .expired) : w.status = .expired := by
  by_cases hp : w.status = .pending
  · rw [Wait.abort_of_pending hp] at h
    cases h
  · rwa [Wait.abort_of_not_pending hp] at h

lemma expired_of_arm {x : State ρ} {seconds : ρ} {k : ℕ} (hk : k < (x.arm seconds).arms)
    (h : ((x.arm seconds).wait k).status = .expired) :
    k < x.arms ∧ (x.wait k).status = .expired := by
  rcases Nat.lt_succ_iff_lt_or_eq.mp hk with hlt | rfl
  · rw [State.arm_wait_of_lt seconds hlt] at h
    exact ⟨hlt, expired_of_abort h⟩
  · rw [State.arm_wait_last] at h
    cases h

/-- A wait that has expired had done so before, or does so now. -/
lemma expired_of_turn (hturn : Turn setup s act x) {k : ℕ} (hk : k < x.arms)
    (hexp : (x.wait k).status = .expired) :
    k < s.state.arms ∧ (s.state.wait k).status = .expired ∨ act = .expire k := by
  cases hturn with
  | call => exact .inl ⟨hk, hexp⟩
  | @execute i op hidle hop =>
      cases op with
      | arm after => exact .inl (expired_of_arm hk hexp)
      | again =>
          simp only [State.perform] at hk hexp
          split at hexp
          · rename_i hpos
            rw [if_pos hpos] at hk
            exact .inl (expired_of_arm hk hexp)
          · rename_i hpos
            rw [if_neg hpos] at hk
            exact .inl ⟨hk, expired_of_abort hexp⟩
      | cancel => exact .inl ⟨hk, expired_of_abort hexp⟩
  | @expire j _ hx =>
      obtain ⟨-, heq⟩ := Option.ite_none_right_eq_some.mp hx
      cases heq
      by_cases hkj : k = j
      · exact .inr (by rw [hkj])
      · simp only [Function.update_of_ne hkj] at hexp
        exact .inl ⟨hk, hexp⟩
  | @complete j _ hx =>
      obtain ⟨harms, -, hhandled, hother⟩ := State.frame_of_complete hx
      by_cases hkj : k = j
      · rw [hkj, hhandled] at hexp
        cases hexp
      · rw [hother k hkj] at hexp
        exact .inl ⟨harms ▸ hk, hexp⟩
  | finish hrun =>
      unfold State.finish at hk hexp
      split at hexp
      · rename_i hagain
        rw [if_pos hagain] at hk
        exact .inl (expired_of_arm hk hexp)
      · rename_i hagain
        rw [if_neg hagain] at hk
        exact .inl ⟨hk, hexp⟩

end PeriodicTimer

namespace TimedTimer

variable {ρ : Type*} {setup : TimerSetup ρ} {to_ns : ρ → ℕ} {s t : TimedTimer ρ} {act : Act ρ}

/-! ## The refinement -/

/-- The generations are sound, and what has expired is due. -/
structure OnTime (s : TimedTimer ρ) : Prop where
  sound : s.timer.state.Sound
  due : ∀ k < s.timer.state.arms, (s.timer.state.wait k).status = .expired → s.due k ≤ s.now

lemma follow_timer (a : PeriodicTimer.Act ρ) (u : PeriodicTimer ρ) :
    (s.follow setup to_ns a u).timer = u := by
  unfold follow
  split <;> rfl

lemma follow_now (a : PeriodicTimer.Act ρ) (u : PeriodicTimer ρ) :
    (s.follow setup to_ns a u).now = s.now := by
  unfold follow
  split <;> rfl

/-- An arm sets the time of a new wait. -/
lemma follow_due {k : ℕ} (hk : k < s.timer.state.arms) (a : PeriodicTimer.Act ρ)
    (u : PeriodicTimer ρ) : (s.follow setup to_ns a u).due k = s.due k := by
  unfold follow
  split
  · exact Function.update_of_ne (Nat.ne_of_lt hk) _ _
  · rfl
  · rfl

lemma OnTime.step (h : s.OnTime) (hok : s.Prompt setup act)
    (hstep : s.step setup to_ns act = some t) : t.OnTime := by
  cases act with
  | pass ns =>
      cases hstep
      exact ⟨h.sound, fun k hk hexp => Nat.le_add_right_of_le (h.due k hk hexp)⟩
  | act a =>
      obtain ⟨htimely, hstep⟩ := Option.ite_none_right_eq_some.mp hstep
      obtain ⟨u, hu, rfl⟩ := Option.map_eq_some_iff.mp hstep
      have hturn := PeriodicTimer.turn_of_step hu
      refine ⟨?_, ?_⟩
      · rw [follow_timer]
        exact PeriodicTimer.sound_of_turn h.sound hok hturn
      · rw [follow_timer, follow_now]
        intro k hk hexp
        rcases PeriodicTimer.expired_of_turn hturn hk hexp with ⟨hlt, hwas⟩ | rfl
        · rw [follow_due hlt]
          exact h.due k hlt hwas
        · exact htimely

lemma onTime_of_reachable (hs : (machine setup to_ns).ReachableUnder (Prompt setup) s) :
    s.OnTime := by
  refine hs.invariant (I := OnTime) ⟨?_, ?_⟩ fun _ _ _ h hok hstep => h.step hok hstep
  · exact PeriodicTimer.sound_of_reachable (.init (M := PeriodicTimer.machine setup))
  · intro k hk
    exact absurd hk (Nat.not_lt_zero k)

/-- One action of the timer is the step of the reference that it shows. -/
lemma look_of_act (h : s.OnTime) {a : PeriodicTimer.Act ρ} (hok : s.timer.Prompt setup a)
    {u : PeriodicTimer ρ} (hu : PeriodicTimer.step setup s.timer a = some u) :
    TimedReference.machine.stepOption s.look (shown setup to_ns s (.act a)) =
      some (s.follow setup to_ns a u).look := by
  have hturn := PeriodicTimer.turn_of_step hu
  have hlook := PeriodicTimer.look_of_turn h.sound hok hturn
  have harms := PeriodicTimer.arms_of_turn h.sound hturn
  cases hshown : PeriodicTimer.shown setup s.timer a with
  | none =>
      have harms' : u.state.arms = s.timer.state.arms :=
        (harms.resolve_left (by simp [hshown])).2
      rw [hshown] at hlook
      have hsame : s.timer.state.look = u.state.look := Option.some.inj hlook
      simp only [shown, hshown, Option.map_none, Machine.stepOption, look, follow, harms', hsame]
  | some e =>
      rw [hshown] at hlook
      cases e with
      | arm seconds =>
          have harms' : u.state.arms = s.timer.state.arms + 1 := by
            rcases harms with ⟨_, -, hone⟩ | ⟨hnot, -⟩
            · exact hone
            · exact absurd hshown (hnot seconds)
          have harmed : ReferenceTimer.armed seconds = u.state.look := Option.some.inj hlook
          simp only [shown, hshown, Option.map_some, Machine.stepOption, TimedReference.machine,
            TimedReference.step, look, follow, ← harmed, harms', Nat.add_sub_cancel,
            Function.update_self]
      | stop =>
          have hidle : ReferenceTimer.idle = u.state.look := Option.some.inj hlook
          simp only [shown, hshown, Option.map_some, Machine.stepOption, TimedReference.machine,
            TimedReference.step, look, follow, ← hidle]
      | fire =>
          -- the completion is that of the last wait, which has expired
          obtain ⟨k, rfl, hadm⟩ := PeriodicTimer.admits_of_fire hshown
          obtain ⟨x, hx, rfl⟩ := Option.map_eq_some_iff.mp hu
          obtain ⟨-, hk, -, -⟩ := PeriodicTimer.State.complete_cases hx
          have hlast := (h.sound.latest hk (h.sound.tick_of_admits hk hadm)).1
          have harmed : s.timer.state.look = .armed (s.timer.state.wait k).seconds := by
            rw [PeriodicTimer.State.look_of_arms hlast]
            exact Wait.look_of_live ⟨.inr hadm.1, hadm.2⟩
          have hdue : s.due (s.timer.state.arms - 1) ≤ s.now := by
            rw [← hlast, Nat.add_sub_cancel]
            exact h.due k hk hadm.1
          rw [harmed] at hlook
          have hidle : ReferenceTimer.idle = x.look := Option.some.inj hlook
          simp only [shown, hshown, Option.map_some, Machine.stepOption, TimedReference.machine,
            TimedReference.step, look, follow, harmed, Option.any_some, hdue, decide_true, if_true,
            ← hidle]

/-- Under `look`, every step is the step of the reference with a clock that it shows. -/
lemma simulates (setup : TimerSetup ρ) (to_ns : ρ → ℕ) :
    (machine setup to_ns).Simulates TimedReference.machine (Prompt setup) look
      (shown setup to_ns) where
  init := rfl
  step s act t hs hok hstep := by
    cases act with
    | pass ns =>
        cases hstep
        rfl
    | act a =>
        obtain ⟨-, hstep⟩ := Option.ite_none_right_eq_some.mp hstep
        obtain ⟨u, hu, rfl⟩ := Option.map_eq_some_iff.mp hstep
        exact look_of_act (onTime_of_reachable hs) hok hu

/-- **A timer never fires early.**  For every sequence of calls from any threads, every order in
which the loop executes what is posted and what has expired, and however late it does, as long as
fewer than `2 ^ 64` operations come between an arm and its completion: the arms, the stops and the
callbacks of a `PeriodicTimer`, with the times at which the loop executes them, are those of a timer
that fires once for each arm, when the time of the last arm has passed, and not after a stop. -/
theorem timed_refines_reference (setup : TimerSetup ρ) (to_ns : ρ → ℕ)
    {seen : List TimedReference.Event}
    (hs : (machine setup to_ns).ShownUnder (Prompt setup) (shown setup to_ns) seen s) :
    TimedReference.machine.run TimedReference.machine.init seen = some s.look :=
  (simulates setup to_ns).run hs

instance (setup : TimerSetup ρ) (s : TimedTimer ρ) : (act : Act ρ) → Decidable (s.Prompt setup act)
  | .act a => inferInstanceAs (Decidable (s.timer.Prompt setup a))
  | .pass _ => inferInstanceAs (Decidable True)

/-- The first wait expires after one nanosecond; before its completion is executed the timer is
armed again, for two, and calls back when they are over. -/
def rearmedRun : List (Act ℕ) :=
  [.act (.start 1 2), .act (.post 0), .act (.execute 0), .pass 5, .act (.expire 0), .act .again,
    .act (.execute 0), .act (.complete 0), .pass 2, .act (.expire 1), .act (.complete 1)]

theorem timed_refines_reference_at_rearmedRun :
    ∃ seen s, (machine PeriodicTimer.wholeSeconds id).ShownUnder
        (Prompt PeriodicTimer.wholeSeconds) (shown PeriodicTimer.wholeSeconds id) seen s ∧
      s.fired = [7] ∧
      TimedReference.machine.run TimedReference.machine.init seen = some s.look := by
  obtain ⟨seen, s, hs, htest⟩ :=
    (machine PeriodicTimer.wholeSeconds id).exists_shownUnder_of_run
      (fun s act => decide (s.Prompt PeriodicTimer.wholeSeconds act))
      (fun _ _ h => of_decide_eq_true h) (shown PeriodicTimer.wholeSeconds id) rearmedRun
      (fun _ s => decide (s.fired = [7])) (by decide +kernel)
  exact ⟨seen, s, hs, of_decide_eq_true htest,
    timed_refines_reference PeriodicTimer.wholeSeconds id hs⟩

/-! ## How often it fires -/

/-- No completion is late by `2 ^ 64` operations, and no arm that the loop executes is for less than
`gap`. -/
def Slow (setup : TimerSetup ρ) (to_ns : ρ → ℕ) (gap : ℕ) (s : TimedTimer ρ) (act : Act ρ) :
    Prop :=
  s.Prompt setup act ∧ ∀ ns, shown setup to_ns s act = some (.arm ns) → gap ≤ ns

/-- **Callbacks lie apart.**  In every run in which no arm, be it of `start()`, of `again()` or for
the repeat, is for less than `gap`: any two callbacks are at least `gap` apart, and no window of
length `T` has more than `T / gap + 1` of them, whatever calls are made meanwhile. -/
theorem callbacks_apart (setup : TimerSetup ρ) (to_ns : ρ → ℕ) {gap : ℕ} (hgap : 0 < gap)
    (hs : (machine setup to_ns).ReachableUnder (Slow setup to_ns gap) s) :
    Spaced gap s.fired ∧
      ∀ a T, (s.fired.filter fun t => decide (a ≤ t ∧ t < a + T)).length ≤ T / gap + 1 := by
  have hsim := (simulates setup to_ns).mono (fun _ _ (h : Slow setup to_ns gap _ _) => h.1)
  have hlook : TimedReference.machine.ReachableUnder (TimedReference.Apart gap) s.look := by
    refine hsim.reachable ?_ hs
    rintro s act e - hok hshown ns rfl
    exact hok.2 ns hshown
  have hspaced := (TimedReference.steady_of_reachable hlook).spaced
  exact ⟨hspaced, hspaced.length_window_le hgap⟩

/-- The timer calls back after three nanoseconds, and again after the two of its repeat. -/
def repeatedRun : List (Act ℕ) :=
  [.act (.start 3 2), .act (.post 0), .act (.execute 0), .pass 3, .act (.expire 0),
    .act (.complete 0), .act (.finish false), .pass 2, .act (.expire 1), .act (.complete 1)]

theorem callbacks_apart_at_repeatedRun :
    ∃ s, (machine PeriodicTimer.wholeSeconds id).ReachableUnder
        (Slow PeriodicTimer.wholeSeconds id 2) s ∧ s.fired = [5, 3] ∧ Spaced 2 s.fired ∧
      (s.fired.filter fun t => decide (3 ≤ t ∧ t < 3 + 2)).length ≤ 2 / 2 + 1 := by
  obtain ⟨s, hs, htest⟩ := (machine PeriodicTimer.wholeSeconds id).exists_reachableUnder_of_run
    (fun s act => decide (s.Prompt PeriodicTimer.wholeSeconds act ∧
      shown PeriodicTimer.wholeSeconds id s act ≠ some (.arm 0) ∧
      shown PeriodicTimer.wholeSeconds id s act ≠ some (.arm 1)))
    (fun s act h => show Slow PeriodicTimer.wholeSeconds id 2 s act by
      obtain ⟨hprompt, hzero, hone⟩ := of_decide_eq_true h
      refine ⟨hprompt, fun ns hns => ?_⟩
      by_contra hshort
      obtain rfl | rfl : ns = 0 ∨ ns = 1 := by omega
      · exact hzero hns
      · exact hone hns)
    repeatedRun (fun s => decide (s.fired = [5, 3])) (by decide +kernel)
  obtain ⟨hspaced, hwindow⟩ := callbacks_apart _ id Nat.two_pos hs
  exact ⟨s, hs, of_decide_eq_true htest, hspaced, hwindow 3 2⟩

end TimedTimer

end ReactorRuntime
