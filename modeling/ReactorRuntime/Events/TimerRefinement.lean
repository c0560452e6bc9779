import ReactorRuntime.Events.PeriodicTimer
import ReactorRuntime.Library.Simulation

/-!
# The periodic timer against a reference

The reference is what a caller has in mind: a timer that is idle or armed, that a stop makes idle,
and that fires only when it is armed and is idle from then on.  `PeriodicTimer` shows it the arms
and the stops in the order in which the loop executes them, the re-arms after a callback among them,
and the callbacks.  Every run is then a run of the reference (`refines_reference`), and a callback
runs for the last arm only, and once.

It rests on the generations being told apart, and they are 64 bits wide.  A completion that stays
queued while `2 ^ 64` operations are executed finds its own generation again, and invokes the
callback of a timer that was stopped (`invoked_after_stop`).
-/

namespace ReactorRuntime

variable {ρ : Type*}

/-! ## The reference -/

/-- A timer that is idle, or armed for a number of seconds. -/
inductive ReferenceTimer (ρ : Type*)
  | idle
  | armed (seconds : ρ)
  deriving DecidableEq, Repr

namespace ReferenceTimer

/-- What it is told, and what it does. -/
inductive Event (ρ : Type*)
  | arm (seconds : ρ)
  | stop
  | fire
  deriving DecidableEq, Repr

def step : ReferenceTimer ρ → Event ρ → Option (ReferenceTimer ρ)
  | _, .arm seconds => some (.armed seconds)
  | _, .stop => some .idle
  | .armed _, .fire => some .idle
  | .idle, .fire => none

def machine : Machine (ReferenceTimer ρ) (Event ρ) where
  init := .idle
  step := step

end ReferenceTimer

/-! ## What the timer shows -/

/-- The completion of the wait is going to invoke the callback, if the generation is the present one
and nothing is executed before it. -/
def Wait.Live (generation : ℕ) (w : Wait ρ) : Prop :=
  (w.status = .pending ∨ w.status = .expired) ∧ w.admitted = generation

instance (generation : ℕ) (w : Wait ρ) : Decidable (w.Live generation) :=
  inferInstanceAs (Decidable (_ ∧ _))

/-- The reference timer that has this wait as its last one. -/
def Wait.look (generation : ℕ) (w : Wait ρ) : ReferenceTimer ρ :=
  if w.Live generation then .armed w.seconds else .idle

namespace PeriodicTimer

/-- The reference timer that the loop's part stands for. -/
def State.look (x : State ρ) : ReferenceTimer ρ :=
  match x.arms with
  | 0 => .idle
  | k + 1 => (x.wait k).look x.generation

/-- What an operation is for the reference, when the stored repeat is `r`. -/
def shownOp (setup : TimerSetup ρ) (r : ρ) : TimerOp ρ → ReferenceTimer.Event ρ
  | .arm after => .arm after
  | .again => if setup.positive r then .arm r else .stop
  | .cancel => .stop

/-- What an action shows. -/
def shown (setup : TimerSetup ρ) (s : PeriodicTimer ρ) : Act ρ → Option (ReferenceTimer.Event ρ)
  | .execute i => (s.posted[i]?).map (shownOp setup s.repeatSeconds)
  | .complete k => if s.state.Admits k then some .fire else none
  | .finish _ => if setup.positive s.repeatSeconds then some (.arm s.repeatSeconds) else none
  | _ => none

end PeriodicTimer

/-! ## One step -/

namespace Wait

variable {generation : ℕ} {w : Wait ρ}

lemma look_of_live (h : w.Live generation) : w.look generation = .armed w.seconds := if_pos h

lemma look_of_not_live (h : ¬ w.Live generation) : w.look generation = .idle := if_neg h

lemma not_live_of_aborted (h : w.status = .aborted) : ¬ w.Live generation := by
  rintro ⟨hp | he, -⟩
  · exact WaitStatus.noConfusion (h.symm.trans hp)
  · exact WaitStatus.noConfusion (h.symm.trans he)

lemma not_live_of_handled (h : w.status = .handled) : ¬ w.Live generation := by
  rintro ⟨hp | he, -⟩
  · exact WaitStatus.noConfusion (h.symm.trans hp)
  · exact WaitStatus.noConfusion (h.symm.trans he)

end Wait

namespace PeriodicTimer

namespace State

variable {x y : State ρ} {k : ℕ}

lemma look_of_arms (harms : k + 1 = x.arms) : x.look = (x.wait k).look x.generation := by
  unfold look
  rw [← harms]

/-- Only the last wait is seen. -/
lemma look_congr (harms : y.arms = x.arms)
    (h : ∀ k, k + 1 = x.arms → (y.wait k).look y.generation = (x.wait k).look x.generation) :
    y.look = x.look := by
  cases hx : x.arms with
  | zero =>
      unfold look
      rw [harms, hx]
  | succ k =>
      rw [look_of_arms hx.symm, look_of_arms (harms.trans hx).symm]
      exact h k hx.symm

lemma look_arm (x : State ρ) (seconds : ρ) : (x.arm seconds).look = .armed seconds := by
  rw [look_of_arms (show x.arms + 1 = (x.arm seconds).arms from rfl), arm_wait_last]
  exact Wait.look_of_live ⟨.inl rfl, rfl⟩

/-- After a cancel no completion gets to the callback, not even one that is queued already. -/
lemma Sound.not_live_cancel (h : x.Sound) (hrecent : x.Recent) (hk : k < x.arms) :
    ¬ (x.wait k).abort.Live (fetchAdd x.generation) := by
  by_cases hp : (x.wait k).status = .pending
  · rw [Wait.abort_of_pending hp]
    exact Wait.not_live_of_aborted rfl
  · rw [Wait.abort_of_not_pending hp]
    rintro ⟨hstatus, hadmitted⟩
    have hexp := hstatus.resolve_left hp
    have hle := (h.waits k hk).tick_le
    -- its generation is among the last `2 ^ 64 - 1` ones before the new one
    have hmod : (x.wait k).tick % word = (x.ticks + 1) % word := by
      rw [← (h.waits k hk).admitted, hadmitted, h.generation_succ]
    have htick := eq_of_mod_word hmod (Nat.le_succ_of_le hle) (hrecent k hk hexp)
    omega

lemma Sound.look_cancel (h : x.Sound) (hrecent : x.Recent) : x.cancel.look = .idle := by
  cases hx : x.arms with
  | zero =>
      unfold look
      rw [show x.cancel.arms = 0 from hx]
  | succ k =>
      rw [look_of_arms (show k + 1 = x.cancel.arms from hx.symm)]
      exact Wait.look_of_not_live (h.not_live_cancel hrecent (hx ▸ Nat.lt_succ_self k))

lemma Sound.look_perform (h : x.Sound) (hrecent : x.Recent) (setup : TimerSetup ρ) (r : ρ)
    (op : TimerOp ρ) :
    ReferenceTimer.step x.look (shownOp setup r op) = some (x.perform setup r op).look := by
  cases op with
  | arm after => exact congrArg some (look_arm x after).symm
  | again =>
      rw [shownOp, State.perform]
      split
      · exact congrArg some (look_arm x r).symm
      · exact congrArg some (h.look_cancel hrecent).symm
  | cancel => exact congrArg some (h.look_cancel hrecent).symm

lemma look_expire (hstep : x.expire k = some y) : y.look = x.look := by
  obtain ⟨⟨hk, hp⟩, heq⟩ := Option.ite_none_right_eq_some.mp hstep
  cases heq
  refine look_congr rfl fun j hj => ?_
  rcases eq_or_ne j k with rfl | hne
  · simp [Wait.look, Wait.Live, hp]
  · simp [hne]

/-- What the execution of a completion leaves as it was. -/
lemma frame_of_complete {callback : Bool} (hstep : x.complete callback k = some y) :
    y.arms = x.arms ∧ y.generation = x.generation ∧ (y.wait k).status = .handled ∧
      ∀ j ≠ k, y.wait j = x.wait j := by
  obtain ⟨-, -, -, ⟨-, rfl⟩ | ⟨-, rfl⟩⟩ := complete_cases hstep
  · exact ⟨rfl, rfl, by simp, fun j hj => by simp [hj]⟩
  · exact ⟨rfl, rfl, by simp, fun j hj => by simp [hj]⟩

/-- A completion that gets to the callback is the firing of the reference, and another is nothing
to it. -/
lemma Sound.look_complete (h : x.Sound) {callback : Bool}
    (hstep : x.complete callback k = some y) :
    ReferenceTimer.machine.stepOption x.look (if x.Admits k then some .fire else none) =
      some y.look := by
  obtain ⟨-, hk, hqueued, -⟩ := complete_cases hstep
  obtain ⟨harms, hgen, hhandled, hother⟩ := frame_of_complete hstep
  have hafter : (y.wait k).look y.generation = .idle :=
    Wait.look_of_not_live (Wait.not_live_of_handled hhandled)
  by_cases hadm : x.Admits k
  · have hlast := (h.latest hk (h.tick_of_admits hk hadm)).1
    rw [if_pos hadm, look_of_arms hlast, Wait.look_of_live ⟨.inr hadm.1, hadm.2⟩,
      look_of_arms (hlast.trans harms.symm), hafter]
    rfl
  · rw [if_neg hadm]
    refine congrArg some (look_congr harms fun j _ => ?_).symm
    rcases eq_or_ne j k with rfl | hne
    · rw [hafter]
      refine (Wait.look_of_not_live ?_).symm
      rcases hqueued with hexp | habort
      · exact fun hlive => hadm ⟨hexp, hlive.2⟩
      · exact Wait.not_live_of_aborted habort
    · rw [hother j hne, hgen]

/-- Nothing is executed while the callback runs: what `finish` does depends on the repeat alone. -/
lemma Sound.finish_eq (h : x.Sound) (hrun : x.running = some k) (setup : TimerSetup ρ) (r : ρ) :
    x.finish setup r k =
      if setup.positive r then { x with running := none }.arm r
      else { x with running := none } := by
  obtain ⟨hk, htick, -⟩ := h.running k hrun
  have hgen := h.admitted_of_tick hk htick
  unfold State.finish
  simp only [hgen, and_true]

lemma Sound.look_finish (h : x.Sound) (hrun : x.running = some k) (setup : TimerSetup ρ) (r : ρ) :
    ReferenceTimer.machine.stepOption x.look
      (if setup.positive r then some (.arm r) else none) = some (x.finish setup r k).look := by
  rw [h.finish_eq hrun]
  split
  · exact congrArg some (look_arm _ r).symm
  · rfl

end State

variable {setup : TimerSetup ρ} {s t : PeriodicTimer ρ}

lemma shown_of_call {act : Act ρ} (hcall : act.isCall = true) : shown setup s act = none := by
  cases act <;> first | rfl | cases hcall

lemma look_of_turn {act : Act ρ} {x : State ρ} (h : s.state.Sound) (hok : s.Prompt setup act)
    (hturn : Turn setup s act x) :
    ReferenceTimer.machine.stepOption s.state.look (shown setup s act) = some x.look := by
  cases hturn with
  | call hcall =>
      rw [shown_of_call hcall]
      rfl
  | execute hidle hop =>
      rw [shown, hop]
      exact h.look_perform (hok rfl) setup _ _
  | expire hx => exact congrArg some (State.look_expire hx).symm
  | complete hx => exact h.look_complete hx
  | finish hrun => exact h.look_finish hrun setup _

/-- Under `look`, every step is the step of the reference that it shows. -/
lemma simulates (setup : TimerSetup ρ) :
    (machine setup).Simulates ReferenceTimer.machine (Prompt setup) (fun s => s.state.look)
      (shown setup) where
  init := rfl
  step _ _ _ hs hok hstep := look_of_turn (sound_of_reachable hs) hok (turn_of_step hstep)

/-! ## Callbacks -/

namespace State

variable {x y : State ρ} {k : ℕ}

/-- Wait `k` is pending. -/
def Pending (x : State ρ) (k : ℕ) : Prop := k < x.arms ∧ (x.wait k).status = .pending

lemma running_expire (hstep : x.expire k = some y) : y.running = x.running := by
  obtain ⟨-, heq⟩ := Option.ite_none_right_eq_some.mp hstep
  cases heq
  rfl

lemma running_perform (setup : TimerSetup ρ) (r : ρ) (x : State ρ) (op : TimerOp ρ) :
    (x.perform setup r op).running = x.running := by
  cases op with
  | arm after => rfl
  | again =>
      rw [State.perform]
      split
      · rfl
      · rfl
  | cancel => rfl

lemma running_finish (setup : TimerSetup ρ) (r : ρ) (x : State ρ) (k : ℕ) :
    (x.finish setup r k).running = none := by
  unfold State.finish
  split
  · rfl
  · rfl

lemma Sound.pending_arm (h : x.Sound) (hrecent : x.Recent) (hidle : x.running = none)
    (seconds : ρ) (hy : y = x.arm seconds) :
    ∃ k, y.Pending k ∧ (y.wait k).admitted = y.generation ∧ (y.wait k).seconds = seconds ∧
      ∀ j, y.Pending j → j = k := by
  have hsound := h.arm hrecent hidle seconds
  have hwait := arm_wait_last x seconds
  rw [hy]
  refine ⟨x.arms, ⟨Nat.lt_succ_self _, ?_⟩, ?_, ?_, ?_⟩
  · rw [hwait]
  · rw [hwait]
    rfl
  · rw [hwait]
  · intro j hj
    have hlast := (hsound.latest hj.1 ((hsound.waits j hj.1).pending hj.2)).1
    exact Nat.succ.inj hlast

/-- What the end of a callback leaves pending. -/
lemma Sound.pending_finish (h : x.Sound) (hrun : x.running = some k) {setup : TimerSetup ρ} {r : ρ}
    (hrecent : setup.positive r = true → x.Recent) (hy : y = x.finish setup r k) :
    (setup.positive r = true → ∃ k, y.Pending k ∧ (y.wait k).admitted = y.generation ∧
        (y.wait k).seconds = r ∧ ∀ j, y.Pending j → j = k) ∧
      (setup.positive r = false → ∀ k, ¬ y.Pending k) := by
  rw [h.finish_eq hrun] at hy
  constructor
  · intro hpos
    rw [if_pos hpos] at hy
    exact h.idle.pending_arm (hrecent hpos) rfl r hy
  · intro hpos j hj
    rw [hpos, if_neg Bool.false_ne_true] at hy
    rw [hy] at hj
    have hnone := h.running_of_pending hj.1 hj.2
    exact absurd (hnone.symm.trans hrun) (Option.some_ne_none k).symm

end State

/-- Only the execution of a completion begins a callback. -/
lemma admits_of_turn {act : Act ρ} {x : State ρ} {k : ℕ} (hidle : s.state.running = none)
    (hturn : Turn setup s act x) (hrun : x.running = some k) :
    k < s.state.arms ∧ s.state.Admits k := by
  have hnot (h : x.running = none) : False :=
    absurd (hrun.symm.trans h) (Option.some_ne_none k)
  cases hturn with
  | call hcall => exact (hnot hidle).elim
  | execute _ hop => exact (hnot ((State.running_perform ..).trans hidle)).elim
  | expire hx => exact (hnot ((State.running_expire hx).trans hidle)).elim
  | complete hx =>
      obtain ⟨-, hj, -, ⟨hadm, rfl⟩ | ⟨-, rfl⟩⟩ := State.complete_cases hx
      · cases hrun
        exact ⟨hj, hadm⟩
      · exact (hnot hidle).elim
  | finish hrun' => exact (hnot (State.running_finish ..)).elim

/-- **The timer refines the reference.**  In every run in which fewer than `2 ^ 64` operations are
executed from an arm to the execution of its completion: what the timer shows is a run of the
reference; no wait invokes the callback twice; a callback begins only for the last arm, that no
cancel came after, and as the first of it; and the end of a callback leaves exactly one wait
pending, of the present generation and for the stored repeat, if that is positive, and none if it
is not. -/
theorem refines_reference {seen : List (ReferenceTimer.Event ρ)}
    (hs : (machine setup).ShownUnder (Prompt setup) (shown setup) seen s) :
    ReferenceTimer.machine.run .idle seen = some s.state.look ∧
      (∀ k < s.state.arms, (s.state.wait k).calls ≤ 1) ∧
      (∀ act t k, step setup s act = some t → s.state.running = none →
        t.state.running = some k →
        k + 1 = s.state.arms ∧ s.state.stopped = false ∧ (s.state.wait k).calls = 0) ∧
      ∀ threw t, s.Prompt setup (.finish threw) → step setup s (.finish threw) = some t →
        (setup.positive s.repeatSeconds = true →
          ∃ k, t.state.Pending k ∧ (t.state.wait k).admitted = t.state.generation ∧
            (t.state.wait k).seconds = s.repeatSeconds ∧ ∀ j, t.state.Pending j → j = k) ∧
        (setup.positive s.repeatSeconds = false → ∀ k, ¬ t.state.Pending k) := by
  have h := sound_of_reachable hs.reachableUnder
  refine ⟨(simulates setup).run hs, fun k hk => (h.waits k hk).calls, ?_, ?_⟩
  · intro act t k hstep hidle hrun
    obtain ⟨hk, hadm⟩ := admits_of_turn hidle (turn_of_step hstep) hrun
    obtain ⟨hlast, hnot⟩ := h.latest hk (h.tick_of_admits hk hadm)
    refine ⟨hlast, hnot, (h.waits k hk).uncalled ?_⟩
    rw [hadm.1]
    exact WaitStatus.noConfusion
  · intro threw t hok hstep
    obtain ⟨k, hk, rfl⟩ := Option.map_eq_some_iff.mp hstep
    exact h.pending_finish hk hok rfl

/-! ## A run, and one that is too long -/

/-- Seconds are whole here, and a callback is set. -/
def wholeSeconds : TimerSetup ℕ where
  zero := 0
  positive r := decide (0 < r)
  callback := true

/-- The timer is started with a repeat, expires, and calls back. -/
def callingRun : List (Act ℕ) := [.start 1 2, .post 0, .execute 0, .expire 0, .complete 0]

/-- The callback throws, the timer expires again, and a stop is executed before the completion. -/
def lateStopRun : List (Act ℕ) := callingRun ++ [.finish true, .expire 1, .stop, .execute 0]

/-- After the first run the end of the callback leaves one wait, for the repeat; after the second a
completion is queued still, and the timer is idle for the reference. -/
theorem refines_reference_at_runs :
    (∃ seen s t,
      (machine wholeSeconds).ShownUnder (Prompt wholeSeconds) (shown wholeSeconds) seen s ∧
      s.state.running = some 0 ∧ step wholeSeconds s (.finish true) = some t ∧
      ∃ k, t.state.Pending k ∧ (t.state.wait k).seconds = s.repeatSeconds ∧
        ∀ j, t.state.Pending j → j = k) ∧
    ∃ seen s, (machine wholeSeconds).ShownUnder (Prompt wholeSeconds) (shown wholeSeconds) seen s ∧
      (s.state.arms = 2 ∧ (s.state.wait 0).calls = 1 ∧ (s.state.wait 1).status = .expired ∧
        s.state.look = .idle) ∧
      ReferenceTimer.machine.run .idle seen = some s.state.look := by
  have shows {s : PeriodicTimer ℕ}
      (hs : (machine wholeSeconds).ReachableUnder (Prompt wholeSeconds) s) :
      ∃ seen, (machine wholeSeconds).ShownUnder (Prompt wholeSeconds) (shown wholeSeconds) seen s :=
    hs.exists_shown
  constructor
  · obtain ⟨s, hs, htest⟩ := (machine wholeSeconds).exists_reachableUnder_of_run
      (fun s act => decide (s.Prompt wholeSeconds act)) (fun _ _ h => of_decide_eq_true h)
      callingRun (fun s => decide (s.state.running = some 0 ∧ s.Prompt wholeSeconds (.finish true) ∧
        wholeSeconds.positive s.repeatSeconds = true)) (by decide +kernel)
    obtain ⟨hrun, hok, hpos⟩ := of_decide_eq_true htest
    obtain ⟨seen, hseen⟩ := shows hs
    have hstep : step wholeSeconds s (.finish true) = some _ := congrArg (Option.map _) hrun
    obtain ⟨k, hk, -, hseconds, honly⟩ :=
      ((refines_reference hseen).2.2.2 true _ hok hstep).1 hpos
    exact ⟨seen, s, _, hseen, hrun, hstep, k, hk, hseconds, honly⟩
  · obtain ⟨s, hs, htest⟩ := (machine wholeSeconds).exists_reachableUnder_of_run
      (fun s act => decide (s.Prompt wholeSeconds act)) (fun _ _ h => of_decide_eq_true h)
      lateStopRun (fun s => decide (s.state.arms = 2 ∧ (s.state.wait 0).calls = 1 ∧
        (s.state.wait 1).status = .expired ∧ s.state.look = .idle)) (by decide +kernel)
    obtain ⟨seen, hseen⟩ := shows hs
    exact ⟨seen, s, hseen, of_decide_eq_true htest, (refines_reference hseen).1⟩

/-- A timer with one wait, that has expired, after `n` cancels. -/
structure Overdue (n : ℕ) (s : PeriodicTimer ℕ) : Prop where
  idle : s.state.running = none
  posted : s.posted = []
  arms : s.state.arms = 1
  expired : (s.state.wait 0).status = .expired
  admitted : (s.state.wait 0).admitted = 1
  generation : s.state.generation = (n + 1) % word
  stopped : 0 < n → s.state.stopped = true

/-- One more stop is called and executed. -/
lemma Overdue.stop {n : ℕ} {s : PeriodicTimer ℕ} (h : s.Overdue n)
    (hs : (machine wholeSeconds).Reachable s) :
    ∃ t, (machine wholeSeconds).Reachable t ∧ t.Overdue (n + 1) := by
  have hcalled : (machine wholeSeconds).Reachable { s with posted := s.posted ++ [.cancel] } :=
    hs.step (a := .stop) trivial rfl
  have hexecuted : step wholeSeconds { s with posted := s.posted ++ [.cancel] } (.execute 0) =
      some { s with posted := [], state := s.state.cancel } := by
    simp [step, h.idle, h.posted, State.perform]
  refine ⟨_, hcalled.step (a := .execute 0) trivial hexecuted, ?_⟩
  have hwait : s.state.cancel.wait 0 = s.state.wait 0 :=
    Wait.abort_of_not_pending (by rw [h.expired]; exact WaitStatus.noConfusion)
  refine ⟨h.idle, rfl, h.arms, ?_, ?_, ?_, fun _ => rfl⟩
  · rw [hwait, h.expired]
  · rw [hwait, h.admitted]
  · show fetchAdd s.state.generation = _
    rw [h.generation, fetchAdd_mod]

lemma exists_overdue (n : ℕ) :
    ∃ s, (machine wholeSeconds).Reachable s ∧ s.Overdue n := by
  induction n with
  | zero =>
      obtain ⟨s, hs, htest⟩ := (machine wholeSeconds).exists_reachable_of_run
        [.start 1 2, .post 0, .execute 0, .expire 0]
        (fun s => decide (s.state.running = none ∧ s.posted = [] ∧ s.state.arms = 1 ∧
          (s.state.wait 0).status = .expired ∧ (s.state.wait 0).admitted = 1 ∧
          s.state.generation = 1)) (by decide +kernel)
      obtain ⟨hidle, hposted, harms, hexp, hadm, hgen⟩ := of_decide_eq_true htest
      exact ⟨s, hs, hidle, hposted, harms, hexp, hadm, hgen.trans (by decide),
        fun h => absurd h (Nat.lt_irrefl 0)⟩
  | succ n ih =>
      obtain ⟨s, hs, h⟩ := ih
      exact h.stop hs

/-- After `2 ^ 64` stops the generation is again that of the wait, and its completion invokes the
callback of a timer that is stopped. -/
theorem invoked_after_stop :
    ∃ s t : PeriodicTimer ℕ, (machine wholeSeconds).Reachable s ∧ s.state.stopped = true ∧
      s.state.running = none ∧ step wholeSeconds s (.complete 0) = some t ∧
      t.state.running = some 0 ∧ (t.state.wait 0).calls = (s.state.wait 0).calls + 1 := by
  obtain ⟨s, hs, h⟩ := exists_overdue word
  have hgen : s.state.generation = 1 := h.generation
  have hadm : s.state.Admits 0 := ⟨h.expired, h.admitted.trans hgen.symm⟩
  have hstep : s.state.complete true 0 = some
      { s.state with
        wait := Function.update s.state.wait 0
          { s.state.wait 0 with status := .handled, calls := (s.state.wait 0).calls + 1 }
        running := some 0 } := by
    rw [State.complete, if_pos ⟨h.idle, h.arms ▸ Nat.zero_lt_one, .inl h.expired⟩, if_pos hadm]
    rfl
  refine ⟨s, _, hs, h.stopped (by decide), h.idle, congrArg (Option.map _) hstep, rfl, ?_⟩
  simp

end PeriodicTimer

end ReactorRuntime
