import ReactorRuntime.Abort.Precedence
import ReactorRuntime.Sync.ExactlyOnce

/-!
# `abort_all()` and `force_all()` from outside the loop

Threads outside the loop call `abort_all()` and, after it returned, `force_all()`
(`reactor.h:239-248`).  The machine is the product of the two machines before: the walks and
callbacks of `ReactorRuntime.Abort.Walk` and the calls of `on_loop_sync` of
`ReactorRuntime.Sync.OnLoopSync`.  A call of thread `p` is named `(p, k)`, where `k` says for which
walk; when its function runs, on a loop thread or in the caller, the walk begins, and it
returns when the walk has ended.  Code that uses the list takes turns, which is the
rule of `reactor.h:95-96`; functions do not throw here.

`abort_all()` starts with `if (aborting_.exchange(true)) { return; }`.  The thread that wins the
exchange waits for its walk.  A thread that loses returns at once, whatever the winner has
done by then, so its `force_all()` may overtake the abort walk
(`losing_abort_all_returns_early`).  If no thread makes the exchange between the winner's
and the end of the walk, and `sync_calls_` does not wrap, `abort_all()` is a barrier for everyone
(`abort_all_is_barrier`).

`since p` records the abortables that were tracked when `p` called `abort_all()` and have not been
untracked since; one whose `track()` was at that moment before its own call of `abort()` is not
counted as tracked yet.  `winner` records the thread that won the exchange.
-/

namespace ReactorRuntime

/-- How far a thread outside the loop has come. -/
inductive Stage
  /-- Before `abort_all()`. -/
  | outside
  /-- Won the exchange; in `on_loop_sync`. -/
  | asked
  /-- `abort_all()` has returned. -/
  | aborted
  /-- In `force_all()`. -/
  | forcing
  | finished
  deriving DecidableEq, Repr

/-- `abort_all()` has returned. -/
def Stage.returned : Stage → Bool
  | .aborted => true
  | .forcing => true
  | .finished => true
  | _ => false

/-- A reactor, the calls to its loop, and the threads that make them. -/
structure Barrier (π θ ν : Type*) where
  loop : Loop ν
  sync : Sync (π × Kind) θ
  stage : π → Stage
  since : π → List ν
  winner : Option π

namespace Barrier

/-- What can happen next. -/
inductive Act (π θ ν : Type*)
  /-- Code on the loop, or in a callback. -/
  | host (act : ReactorRuntime.Act ν)
  /-- A step of `on_loop_sync` or of a loop thread. -/
  | sync (act : Sync.Act (π × Kind) θ)
  /-- `p` calls `abort_all()` and makes the exchange. -/
  | abortAll (p : π)
  | abortReturns (p : π)
  | forceAll (p : π)
  | forceReturns (p : π)
  deriving DecidableEq

variable {π θ ν : Type*} [DecidableEq π] [DecidableEq θ] [DecidableEq ν]

def initial : Barrier π θ ν where
  loop := Loop.initial
  sync := Sync.initial
  stage _ := .outside
  since _ := []
  winner := none

/-- What loop code does by itself: everything but `force_all()`, which is left to the threads
outside. -/
def hosted : ReactorRuntime.Act ν → Bool
  | .track _ => true
  | .untrack _ => true
  | .destroy _ => true
  | .abortAll => true
  | .ret => true
  | .resume => true
  | _ => false

/-- The function of a call begins its walk. -/
def walkOf : Kind → ReactorRuntime.Act ν
  | .abort => .runAbort
  | .force => .forceAll

/-- The stage of a thread that may enter `on_loop_sync` for a walk. -/
def stageOf : Kind → Stage
  | .abort => .asked
  | .force => .forcing

/-- What has been tracked, its `track()` past its own call of `abort()`. -/
def tracked (l : Loop ν) : List ν := l.contents.filter fun a => a ∉ Loop.owing .abort l.stack

/-- An abortable that leaves the list is tracked no longer. -/
def forget (act : ReactorRuntime.Act ν) (l : List ν) : List ν :=
  match act with
  | .untrack a => l.filter (· ≠ a)
  | .destroy a => l.filter (· ≠ a)
  | _ => l

/-- What a step of `on_loop_sync` does to the reactor. -/
def loopSide (s : Barrier π θ ν) : Sync.Act (π × Kind) θ → Option (Loop ν)
  | .enter (p, k) inside => if inside = false ∧ s.stage p = stageOf k then some s.loop else none
  | .run t =>
      match s.sync.thread t with
      | .taken (_, k) _ => if s.loop.stack = [] then s.loop.step (walkOf k) else none
      | _ => none
  | .runSelf (_, k) => if s.loop.stack = [] then s.loop.step (walkOf k) else none
  | .finish _ => if s.loop.stack = [] then some s.loop else none
  | .finishSelf _ => if s.loop.stack = [] then some s.loop else none
  | .crash _ => none
  | .failSelf _ => none
  | _ => some s.loop

/-- One action. -/
def step (s : Barrier π θ ν) : Act π θ ν → Option (Barrier π θ ν)
  | .host act =>
      if hosted act then
        (s.loop.step act).map fun l =>
          { s with loop := l, since := fun p => forget act (s.since p) }
      else none
  | .sync act =>
      (s.loopSide act).bind fun l => (s.sync.step act).map fun y => { s with loop := l, sync := y }
  | .abortAll p =>
      if s.stage p = .outside then
        (s.loop.step .requestAbort).map fun l =>
          { s with
            loop := l
            stage := Function.update s.stage p (if s.loop.aborting_ then .aborted else .asked)
            since := Function.update s.since p (tracked s.loop)
            winner := if s.loop.aborting_ then s.winner else some p }
      else none
  | .abortReturns p =>
      if s.stage p = .asked ∧ s.sync.call (p, .abort) = .returned then
        some { s with stage := Function.update s.stage p .aborted }
      else none
  | .forceAll p =>
      if s.stage p = .aborted then
        some { s with stage := Function.update s.stage p .forcing }
      else none
  | .forceReturns p =>
      if s.stage p = .forcing ∧ s.sync.call (p, .force) = .returned then
        some { s with stage := Function.update s.stage p .finished }
      else none

/-- A reactor with its callers as a machine. -/
def machine : Machine (Barrier π θ ν) (Act π θ ν) where
  init := initial
  step := step

/-- The counter of `on_loop_sync` does not wrap. -/
def Few (s : Barrier π θ ν) (act : Act π θ ν) : Prop := ∀ a, act = .sync a → s.sync.Few a

/-- No thread makes the exchange of `abort_all()` while an abort walk that was asked for has
not completed, and the counter of `on_loop_sync` does not wrap. -/
structure Patient (s : Barrier π θ ν) (act : Act π θ ν) : Prop where
  completed : ∀ p, act = .abortAll p → s.loop.aborting_ = true → s.loop.Walked
  few : Few s act

end Barrier

/-! ## What a move of either part can change -/

namespace Loop

variable {ν : Type*} [DecidableEq ν] {s s' : Loop ν} {act : Act ν}

/-- A tracked abortable that does not leave stays tracked, and its `track()` does not go back. -/
lemma tracked_of_move (hmove : Move s act s') (hsound : s.Sound) {a : ν}
    (ha : a ∈ s.contents ∧ a ∉ owing .abort s.stack) (hu : act ≠ .untrack a)
    (hd : act ≠ .destroy a) : a ∈ s'.contents ∧ a ∉ owing .abort s'.stack := by
  obtain ⟨hmem, hown⟩ := ha
  have hunlink : ∀ b, b ≠ a → a ∈ (s.unlink b).contents ∧ a ∉ owing .abort (s.unlink b).stack := by
    intro b hb
    unfold unlink
    cases s.now b with
    | none => exact ⟨hmem, hown⟩
    | some e =>
        refine ⟨(List.mem_erase_of_ne hb.symm).mpr hmem, ?_⟩
        change a ∉ owing .abort (s.stack.map (Frame.drop b))
        rwa [Ledger.owing_map_drop]
  cases hmove with
  | @track b host alive free =>
      have hab : a ≠ b := by
        rintro rfl
        exact hsound.not_mem_of_free free hmem
      refine ⟨List.mem_cons_of_mem _ hmem, ?_⟩
      simpa [link, owing, Frame.owes, hab] using hown
  | untrack => exact hunlink _ (by rintro rfl; exact hu rfl)
  | destroy => exact hunlink _ (by rintro rfl; exact hd rfl)
  | ret top => exact ⟨hmem, by simpa [top, owing, Frame.owes] using hown⟩
  | walkEnd top => exact ⟨hmem, by simpa [top, owing, Frame.owes] using hown⟩
  | walkCall top => exact ⟨hmem, by simpa [top, owing, enter, Frame.owes] using hown⟩
  | lateAbort top =>
      refine ⟨hmem, fun hc => hown ?_⟩
      rw [top]
      exact List.mem_cons_of_mem _ (by simpa [owing, enter, Frame.owes] using hc)
  | skipAbort top =>
      refine ⟨hmem, fun hc => hown ?_⟩
      rw [top]
      exact List.mem_cons_of_mem _ (by simpa [owing, Frame.owes] using hc)
  | lateForce top => exact ⟨hmem, by simpa [top, owing, enter, Frame.owes] using hown⟩
  | skipForce top => exact ⟨hmem, by simpa [top, owing, Frame.owes] using hown⟩
  | _ => exact ⟨hmem, hown⟩

/-- The abort walk has begun and nothing is under way: it has completed. -/
lemma AbortSide.walked_of_idle (h : s.AbortSide) (hidle : s.stack = [])
    (hw : s.walked_ = true) : s.Walked := by
  have hsolo := h.solo
  simp only [Solo, hidle, walks, List.countP_nil, begun, hw, Bool.toNat_true, Nat.zero_add]
    at hsolo
  obtain ⟨⟨k, j⟩, hmem, hk⟩ := List.countP_pos_iff.mp (hsolo ▸ Nat.one_pos)
  obtain rfl : k = .abort := by simpa using hk
  exact ⟨j, hmem⟩

lemma walked_of_runAbort (h : s.step .runAbort = some s') : s'.walked_ = true := by
  cases move_of_step h
  simp [beginWalk]

end Loop

namespace Sync

variable {κ θ : Type*} [DecidableEq κ] [DecidableEq θ] {s s' : Sync κ θ} {act : Act κ θ}

lemma begun_of_move (hmove : Move s act s') (c : κ) :
    s'.begun c = s.begun c ∨ act = .runSelf c ∧ s.call c = .ready ∨
      ∃ t id, act = .run t ∧ s.thread t = .taken c id := by
  cases hmove <;>
    simp only [goto, unlock, turn, noteBegin, noteEnd, Function.update_apply] at * <;> grind

lemma ended_of_move (hmove : Move s act s') (c : κ) :
    s'.ended c = s.ended c ∨ act = .finishSelf c ∧ s.call c = .running ∨
      ∃ t id, act = .finish t ∧ s.thread t = .running c id := by
  cases hmove <;>
    simp only [goto, unlock, turn, noteBegin, noteEnd, Function.update_apply] at * <;> grind

lemma called_of_move (hmove : Move s act s') {c : κ} (h : s'.call c ≠ .idle) :
    s.call c ≠ .idle ∨ ∃ inside, act = .enter c inside := by
  by_cases hc : s.call c = .idle
  · refine .inr ?_
    cases hmove with
    | @enterSelf c₀ inside =>
        have : c = c₀ := by
          by_contra hne
          exact h (by simpa [goto, hne] using hc)
        exact ⟨inside, by rw [this]⟩
    | @enterLoop c₀ =>
        have : c = c₀ := by
          by_contra hne
          exact h (by simpa [goto, hne] using hc)
        exact ⟨false, by rw [this]⟩
    | _ => simp only [goto, unlock, turn, noteBegin, noteEnd, Function.update_apply] at h; grind
  · exact .inl hc

omit [DecidableEq κ] [DecidableEq θ] in
lemma Orderly.begun_pos (h : s.Orderly) {c : κ}
    (hrun : s.call c = .running ∨ ∃ t id, s.thread t = .running c id) : 0 < s.begun c := by
  rcases hrun with hc | ⟨t, id, ht⟩
  · have hphase := h.phase c
    rw [hc] at hphase
    have hbegun : s.begun c = 1 := hphase.1
    omega
  · have hbegun : s.begun c = 1 := (h.counted_of_running ht).1
    omega

end Sync

namespace Barrier

variable {π θ ν : Type*} [DecidableEq π] [DecidableEq θ] [DecidableEq ν]

/-! ## The invariant -/

/-- What is kept in the runs of `Patient`. -/
structure Sane (s : Barrier π θ ν) : Prop where
  loop : (Loop.machine (ν := ν)).ReachableUnder Loop.ForceLast s.loop
  sync : Sync.machine.ReachableUnder Sync.Few s.sync
  /-- The function of an `abort_all()` has begun: so has the walk. -/
  begun : ∀ p, 0 < s.sync.begun (p, .abort) → s.loop.walked_ = true
  ended : ∀ p, 0 < s.sync.ended (p, .abort) → s.loop.Walked
  returned : ∀ p, (s.stage p).returned = true → s.loop.Walked
  entered : ∀ p, s.sync.call (p, .force) ≠ .idle → (s.stage p).returned = true
  since : ∀ p, ∀ a ∈ s.since p, a ∈ s.loop.contents ∧ a ∉ Loop.owing .abort s.loop.stack

variable {s s' : Barrier π θ ν}

lemma Sane.loop_step (h : s.Sane) {act : ReactorRuntime.Act ν} {l : Loop ν}
    (hok : Loop.ForceLast s.loop act) (hl : s.loop.step act = some l) :
    (Loop.machine (ν := ν)).ReachableUnder Loop.ForceLast l ∧
      (s.loop.walked_ = true → l.walked_ = true) ∧ (s.loop.Walked → l.Walked) := by
  have hmove := Loop.move_of_step hl
  exact ⟨h.loop.step hok hl, Loop.walked_of_move hmove, fun hw => hw.move hmove⟩

omit [DecidableEq ν] in
lemma forceLast_of_hosted {act : ReactorRuntime.Act ν} (hact : hosted act = true) (l : Loop ν) :
    Loop.ForceLast l act := by
  refine ⟨?_, fun hb => ?_⟩
  · rintro rfl
    simp [hosted] at hact
  · cases act <;> simp_all [Loop.begins, hosted]

lemma forget_mem {act : ReactorRuntime.Act ν} {l : List ν} {a : ν} (ha : a ∈ forget act l) :
    a ∈ l ∧ act ≠ .untrack a ∧ act ≠ .destroy a := by
  cases act with
  | untrack b =>
      obtain ⟨hmem, hne⟩ : a ∈ l ∧ a ≠ b := by simpa [forget] using ha
      exact ⟨hmem, fun hc => hne (by injection hc with hc; exact hc.symm), by simp⟩
  | destroy b =>
      obtain ⟨hmem, hne⟩ : a ∈ l ∧ a ≠ b := by simpa [forget] using ha
      exact ⟨hmem, by simp, fun hc => hne (by injection hc with hc; exact hc.symm)⟩
  | _ => exact ⟨ha, by simp, by simp⟩

lemma Sane.host (h : s.Sane) {act : ReactorRuntime.Act ν} {l : Loop ν} (hact : hosted act = true)
    (hl : s.loop.step act = some l) :
    Sane { s with loop := l, since := fun p => forget act (s.since p) } := by
  obtain ⟨hreach, hwalked, hdone⟩ := h.loop_step (forceLast_of_hosted hact _) hl
  refine ⟨hreach, h.sync, fun p hp => hwalked (h.begun p hp), fun p hp => hdone (h.ended p hp),
    fun p hp => hdone (h.returned p hp), h.entered, fun p a ha => ?_⟩
  obtain ⟨hmem, hu, hd⟩ := forget_mem ha
  exact Loop.tracked_of_move (Loop.move_of_step hl) (Loop.sound_of_reachable h.loop.reachable)
    (h.since p a hmem) hu hd

omit [DecidableEq π] [DecidableEq θ] in
/-- A step of `on_loop_sync` leaves the reactor as it is, or lets a call begin its walk on a free
loop. -/
lemma loopSide_eq {act : Sync.Act (π × Kind) θ} {l : Loop ν} (h : s.loopSide act = some l) :
    (l = s.loop ∧ (∀ t, act ≠ .run t) ∧ ∀ c, act ≠ .runSelf c) ∨
      ∃ p k, s.loop.stack = [] ∧ s.loop.step (walkOf k) = some l ∧
        (act = .runSelf (p, k) ∨ ∃ t id, act = .run t ∧ s.sync.thread t = .taken (p, k) id) := by
  cases act with
  | enter c inside =>
      obtain ⟨-, hl⟩ := Option.ite_none_right_eq_some.mp h
      exact .inl ⟨by cases hl; rfl, by simp, by simp⟩
  | run t =>
      simp only [loopSide] at h
      split at h
      · rename_i p k id hpc
        obtain ⟨hidle, hl⟩ := Option.ite_none_right_eq_some.mp h
        exact .inr ⟨p, k, hidle, hl, .inr ⟨t, id, rfl, hpc⟩⟩
      · exact absurd h (by simp)
  | runSelf c =>
      obtain ⟨hidle, hl⟩ := Option.ite_none_right_eq_some.mp h
      exact .inr ⟨c.1, c.2, hidle, hl, .inl rfl⟩
  | finish t =>
      obtain ⟨-, hl⟩ := Option.ite_none_right_eq_some.mp h
      exact .inl ⟨by cases hl; rfl, by simp, by simp⟩
  | finishSelf c =>
      obtain ⟨-, hl⟩ := Option.ite_none_right_eq_some.mp h
      exact .inl ⟨by cases hl; rfl, by simp, by simp⟩
  | crash t => simp [loopSide] at h
  | failSelf c => simp [loopSide] at h
  | _ => exact .inl ⟨by cases h; rfl, by simp, by simp⟩

omit [DecidableEq π] [DecidableEq θ] in
/-- The function of a call returns when its walk has ended. -/
lemma idle_of_finish {act : Sync.Act (π × Kind) θ} {l : Loop ν} (h : s.loopSide act = some l)
    (hact : (∃ t, act = .finish t) ∨ ∃ c, act = .finishSelf c) :
    s.loop.stack = [] ∧ l = s.loop := by
  rcases hact with ⟨t, rfl⟩ | ⟨c, rfl⟩ <;>
  · obtain ⟨hidle, hl⟩ := Option.ite_none_right_eq_some.mp h
    exact ⟨hidle, by cases hl; rfl⟩

/-- The call in somebody's hands is one that its thread has made. -/
lemma Sane.made (h : s.Sane) {act : Sync.Act (π × Kind) θ} {y : Sync (π × Kind) θ}
    (hy : s.sync.step act = some y) {c : π × Kind}
    (hact : act = .runSelf c ∨ ∃ t id, act = .run t ∧ s.sync.thread t = .taken c id) :
    s.sync.call c ≠ .idle := by
  rcases hact with rfl | ⟨t, id, rfl, ht⟩
  · cases Sync.move_of_step hy with
    | runSelf pc => simp [pc]
  · simp [((Sync.orderly_of_reachable h.sync).waiting_of_thread t c id).2.1 ht]

/-- The walk a call begins keeps the order: a force walk comes from a thread whose `abort_all()` has
returned. -/
lemma Sane.forceLast_walkOf (h : s.Sane) {p : π} {k : Kind} (hidle : s.loop.stack = [])
    (hmade : s.sync.call (p, k) ≠ .idle) : Loop.ForceLast s.loop (walkOf k) := by
  cases k with
  | abort => exact ⟨by simp [Loop.NoNestedForce, walkOf], by simp [Loop.begins, walkOf]⟩
  | force => exact ⟨fun _ => hidle, fun _ => h.returned p (h.entered p hmade)⟩

lemma Sane.loop_sync (h : s.Sane) {act : Sync.Act (π × Kind) θ} {l : Loop ν}
    {y : Sync (π × Kind) θ} (hl : s.loopSide act = some l) (hy : s.sync.step act = some y) :
    (Loop.machine (ν := ν)).ReachableUnder Loop.ForceLast l ∧
      (s.loop.walked_ = true → l.walked_ = true) ∧ (s.loop.Walked → l.Walked) ∧
      ∀ a, a ∈ s.loop.contents ∧ a ∉ Loop.owing .abort s.loop.stack →
        a ∈ l.contents ∧ a ∉ Loop.owing .abort l.stack := by
  rcases loopSide_eq hl with ⟨rfl, -⟩ | ⟨p, k, hidle, hstep, hact⟩
  · exact ⟨h.loop, id, id, fun _ => id⟩
  · have hok := h.forceLast_walkOf hidle (h.made hy hact)
    obtain ⟨hreach, hwalked, hdone⟩ := h.loop_step hok hstep
    refine ⟨hreach, hwalked, hdone, fun a ha => ?_⟩
    exact Loop.tracked_of_move (Loop.move_of_step hstep)
      (Loop.sound_of_reachable h.loop.reachable) ha (by cases k <;> simp [walkOf])
      (by cases k <;> simp [walkOf])

lemma Sane.syncStep (h : s.Sane) {act : Sync.Act (π × Kind) θ} {l : Loop ν}
    {y : Sync (π × Kind) θ} (hfew : s.sync.Few act) (hl : s.loopSide act = some l)
    (hy : s.sync.step act = some y) : Sane { s with loop := l, sync := y } := by
  obtain ⟨hreach, hwalked, hdone, hkept⟩ := h.loop_sync hl hy
  have hmove := Sync.move_of_step hy
  have ho := Sync.orderly_of_reachable h.sync
  refine ⟨hreach, h.sync.step hfew hy, fun p hp => ?_, fun p hp => ?_,
    fun p hp => hdone (h.returned p hp), fun p hp => ?_, fun p a ha => hkept a (h.since p a ha)⟩
  · -- an abort call begins its function exactly when the reactor begins the walk
    rcases Sync.begun_of_move hmove (p, .abort) with hsame | hbegins
    · exact hwalked (h.begun p (by rwa [← hsame]))
    · rcases loopSide_eq hl with ⟨-, hrun, hself⟩ | ⟨p', k, -, hstep, hact⟩
      · rcases hbegins with ⟨hact, -⟩ | ⟨t, id, hact, -⟩
        · exact absurd hact (hself _)
        · exact absurd hact (hrun _)
      · obtain rfl : k = .abort := by
          rcases hbegins with ⟨rfl, -⟩ | ⟨t, id, rfl, ht⟩ <;>
            rcases hact with hact | ⟨t', id', hact, ht'⟩ <;> simp_all
        exact Loop.walked_of_runAbort hstep
  · rcases Sync.ended_of_move hmove (p, .abort) with hsame | hends
    · exact hdone (h.ended p (by rwa [← hsame]))
    · have hact : (∃ t, act = .finish t) ∨ ∃ c, act = .finishSelf c := by
        rcases hends with ⟨hact, -⟩ | ⟨t, id, hact, -⟩
        · exact .inr ⟨_, hact⟩
        · exact .inl ⟨t, hact⟩
      obtain ⟨hidle, rfl⟩ := idle_of_finish hl hact
      have hbegun : 0 < s.sync.begun (p, .abort) := ho.begun_pos (by
        rcases hends with ⟨-, hpc⟩ | ⟨t, id, -, ht⟩
        · exact .inl hpc
        · exact .inr ⟨t, id, ht⟩)
      exact (Loop.traced_of_reachable h.loop).side.walked_of_idle hidle (h.begun p hbegun)
  · rcases Sync.called_of_move hmove hp with hcalled | ⟨inside, rfl⟩
    · exact h.entered p hcalled
    · obtain ⟨⟨-, hstage⟩, -⟩ := Option.ite_none_right_eq_some.mp hl
      simp [hstage, stageOf, Stage.returned]

/-- `p` makes the exchange: it wins, or the abort walk has completed. -/
lemma Sane.exchange (h : s.Sane) {p : π} {l : Loop ν} (hpatient : Patient s (.abortAll p))
    (hl : s.loop.step .requestAbort = some l) :
    Sane { s with
      loop := l
      stage := Function.update s.stage p (if s.loop.aborting_ then .aborted else .asked)
      since := Function.update s.since p (tracked s.loop)
      winner := if s.loop.aborting_ then s.winner else some p } := by
  have hok : Loop.ForceLast s.loop .requestAbort :=
    ⟨by simp [Loop.NoNestedForce], by simp [Loop.begins]⟩
  obtain ⟨hreach, hwalked, hdone⟩ := h.loop_step hok hl
  have hsame : l.contents = s.loop.contents ∧ l.stack = s.loop.stack := by
    cases Loop.move_of_step hl <;> exact ⟨rfl, rfl⟩
  refine ⟨hreach, h.sync, fun q hq => hwalked (h.begun q hq), fun q hq => hdone (h.ended q hq),
    fun q hq => ?_, fun q hq => ?_, fun q a ha => ?_⟩
  · by_cases hqp : q = p
    · subst hqp
      cases hab : s.loop.aborting_ with
      | true => exact hdone (hpatient.completed q rfl hab)
      | false => simp [hab, Stage.returned] at hq
    · exact hdone (h.returned q (by simpa [hqp] using hq))
  · have hret := h.entered q hq
    by_cases hqp : q = p
    · subst hqp
      cases hab : s.loop.aborting_ with
      | true => simp [Stage.returned]
      | false =>
          have := h.returned q hret
          obtain ⟨-, hw⟩ := this.walks_eq_zero (Loop.traced_of_reachable h.loop).side.solo
          have := (Loop.traced_of_reachable h.loop).side.ordered.walked hw
          simp [hab] at this
    · simpa [hqp] using hret
  · rw [hsame.1, hsame.2]
    by_cases hqp : q = p
    · subst hqp
      simpa [tracked] using ha
    · exact h.since q a (by simpa [hqp] using ha)

/-- A thread moves on to a stage that `abort_all()` has returned before. -/
lemma Sane.advance (h : s.Sane) {p : π} {g : Stage} (hg : g.returned = true)
    (hw : s.loop.Walked) : Sane { s with stage := Function.update s.stage p g } := by
  refine ⟨h.loop, h.sync, h.begun, h.ended, fun _ _ => hw, fun q hq => ?_, h.since⟩
  by_cases hqp : q = p
  · simp [hqp, hg]
  · simpa [hqp] using h.entered q hq

lemma Sane.step (h : s.Sane) {act : Act π θ ν} (hpatient : Patient s act)
    (hstep : s.step act = some s') : s'.Sane := by
  cases act with
  | host act =>
      obtain ⟨hact, hs'⟩ := Option.ite_none_right_eq_some.mp hstep
      obtain ⟨l, hl, rfl⟩ := Option.map_eq_some_iff.mp hs'
      exact h.host hact hl
  | sync act =>
      obtain ⟨l, hl, hs'⟩ := Option.bind_eq_some_iff.mp hstep
      obtain ⟨y, hy, rfl⟩ := Option.map_eq_some_iff.mp hs'
      exact h.syncStep (hpatient.few act rfl) hl hy
  | abortAll p =>
      obtain ⟨-, hs'⟩ := Option.ite_none_right_eq_some.mp hstep
      obtain ⟨l, hl, rfl⟩ := Option.map_eq_some_iff.mp hs'
      exact h.exchange hpatient hl
  | abortReturns p =>
      obtain ⟨⟨-, hret⟩, hs'⟩ := Option.ite_none_right_eq_some.mp hstep
      cases hs'
      -- the call has run its function to the end, and so the walk has completed
      have hphase := (Sync.orderly_of_reachable h.sync).phase (p, .abort)
      rw [hret] at hphase
      have hended : s.sync.ended (p, .abort) = 1 := hphase.2.1
      exact h.advance rfl (h.ended p (by omega))
  | forceAll p =>
      obtain ⟨hstage, hs'⟩ := Option.ite_none_right_eq_some.mp hstep
      cases hs'
      exact h.advance rfl (h.returned p (by simp [hstage, Stage.returned]))
  | forceReturns p =>
      obtain ⟨⟨hstage, -⟩, hs'⟩ := Option.ite_none_right_eq_some.mp hstep
      cases hs'
      exact h.advance rfl (h.returned p (by simp [hstage, Stage.returned]))

lemma sane_of_reachable (h : (machine (π := π) (θ := θ) (ν := ν)).ReachableUnder Patient s) :
    s.Sane := by
  refine h.invariant ⟨.init, .init, ?_, ?_, ?_, ?_, ?_⟩ fun _ _ _ hs hok hstep => hs.step hok hstep
  all_goals simp [machine, initial, Sync.initial, Stage.returned]

/-! ## The product withholds nothing -/

/-- The thread that won the exchange, and the walk it has asked for. -/
structure Won (s : Barrier π θ ν) : Prop where
  sync : Sync.machine.ReachableUnder Sync.Few s.sync
  sole : ∀ p, s.stage p = .asked ∨ s.sync.call (p, .abort) ≠ .idle → s.winner = some p
  aborting : ∀ p, s.winner = some p → s.loop.aborting_ = true
  posted : ∀ p, s.winner = some p → s.sync.begun (p, .abort) = 0 → s.loop.abortPosted = true

lemma posted_of_step {act : ReactorRuntime.Act ν} {l l' : Loop ν} (h : l.step act = some l')
    (hact : act ≠ .runAbort) (hp : l.abortPosted = true) : l'.abortPosted = true := by
  cases Loop.move_of_step h with
  | untrack => simpa using hp
  | destroy => simpa [Loop.destroy] using hp
  | runAbort => exact absurd rfl hact
  | requestFirst => rfl
  | _ => exact hp

lemma Won.syncStep (h : s.Won) {act : Sync.Act (π × Kind) θ} {l : Loop ν}
    {y : Sync (π × Kind) θ} (hfew : s.sync.Few act) (hl : s.loopSide act = some l)
    (hy : s.sync.step act = some y) : Won { s with loop := l, sync := y } := by
  have hmove := Sync.move_of_step hy
  have hloop : (s.loop.aborting_ = true → l.aborting_ = true) ∧
      (s.loop.abortPosted = true → l.abortPosted = true ∨ ∃ p,
        act = .runSelf (p, .abort) ∨
          ∃ t id, act = .run t ∧ s.sync.thread t = .taken (p, .abort) id) := by
    rcases loopSide_eq hl with ⟨rfl, -⟩ | ⟨p, k, -, hstep, hact⟩
    · exact ⟨id, .inl⟩
    · refine ⟨Loop.aborting_of_move (Loop.move_of_step hstep), fun hp => ?_⟩
      cases k with
      | abort => exact .inr ⟨p, hact⟩
      | force => exact .inl (posted_of_step hstep (by simp [walkOf]) hp)
  refine ⟨h.sync.step hfew hy, ?_, fun p hp => hloop.1 (h.aborting p hp), fun p hp hb => ?_⟩
  · rintro p (hstage | hcall)
    · exact h.sole p (.inl hstage)
    · rcases Sync.called_of_move hmove hcall with hcalled | ⟨inside, rfl⟩
      · exact h.sole p (.inr hcalled)
      · obtain ⟨⟨-, hstage⟩, -⟩ := Option.ite_none_right_eq_some.mp hl
        exact h.sole p (.inl hstage)
  · have hb₀ : s.sync.begun (p, .abort) = 0 := by
      cases hmove <;> simp only [Sync.goto, Sync.unlock, Sync.turn, Sync.noteBegin, Sync.noteEnd,
        Function.update_apply] at hb <;> grind
    rcases hloop.2 (h.posted p hp hb₀) with hp' | ⟨q, hact⟩
    · exact hp'
    · -- the walk begins: it is the winner's, whose function has begun with it
      exfalso
      have hmade : s.sync.call (q, .abort) ≠ .idle := by
        rcases hact with rfl | ⟨t, id, rfl, ht⟩
        · cases hmove with
          | runSelf pc => simp [pc]
        · simp [((Sync.orderly_of_reachable h.sync).waiting_of_thread t _ id).2.1 ht]
      obtain rfl : p = q := Option.some_inj.mp (hp.symm.trans (h.sole q (.inr hmade)))
      rcases hact with rfl | ⟨t, id, rfl, ht⟩
      · cases hmove with
        | runSelf pc => simp [Sync.noteBegin] at hb
      · cases hmove with
        | run pc =>
            obtain ⟨rfl, -⟩ : _ ∧ _ := by simpa [ht] using pc
            simp [Sync.noteBegin] at hb

lemma Won.exchange (h : s.Won) {p : π} {l : Loop ν} (hl : s.loop.step .requestAbort = some l) :
    Won { s with
      loop := l
      stage := Function.update s.stage p (if s.loop.aborting_ then .aborted else .asked)
      since := Function.update s.since p (tracked s.loop)
      winner := if s.loop.aborting_ then s.winner else some p } := by
  cases hab : s.loop.aborting_ with
  | true =>
      have hsame : l = s.loop := by
        cases Loop.move_of_step hl with
        | requestAgain => rfl
        | requestFirst first => simp [hab] at first
      subst hsame
      refine ⟨h.sync, ?_, fun q _ => hab, h.posted⟩
      rintro q (hstage | hcall)
      · by_cases hqp : q = p
        · simp [hqp] at hstage
        · exact h.sole q (.inl (by simpa [hqp] using hstage))
      · exact h.sole q (.inr hcall)
  | false =>
      have hfirst : l.aborting_ = true ∧ l.abortPosted = true := by
        cases Loop.move_of_step hl with
        | requestAgain again => simp [hab] at again
        | requestFirst => exact ⟨rfl, rfl⟩
      have hnone : ∀ q, s.winner ≠ some q := fun q hq => by simp [h.aborting q hq] at hab
      refine ⟨h.sync, ?_, fun _ _ => hfirst.1, fun _ _ _ => hfirst.2⟩
      rintro q (hstage | hcall)
      · by_cases hqp : q = p
        · simp [hqp]
        · exact absurd (h.sole q (.inl (by simpa [hqp] using hstage))) (hnone q)
      · exact absurd (h.sole q (.inr hcall)) (hnone q)

lemma Won.step (h : s.Won) {act : Act π θ ν} (hfew : Few s act) (hstep : s.step act = some s') :
    s'.Won := by
  -- a thread that leaves `asked` or was never there changes nothing
  have hadvance : ∀ (p : π) (g : Stage), g ≠ .asked →
      Won { s with stage := Function.update s.stage p g } := by
    intro p g hg
    refine ⟨h.sync, ?_, h.aborting, h.posted⟩
    rintro q (hstage | hcall)
    · by_cases hqp : q = p
      · simp [hqp, hg] at hstage
      · exact h.sole q (.inl (by simpa [hqp] using hstage))
    · exact h.sole q (.inr hcall)
  cases act with
  | host act =>
      obtain ⟨hact, hs'⟩ := Option.ite_none_right_eq_some.mp hstep
      obtain ⟨l, hl, rfl⟩ := Option.map_eq_some_iff.mp hs'
      have hne : act ≠ .runAbort := by rintro rfl; simp [hosted] at hact
      exact ⟨h.sync, h.sole,
        fun p hp => Loop.aborting_of_move (Loop.move_of_step hl) (h.aborting p hp),
        fun p hp hb => posted_of_step hl hne (h.posted p hp hb)⟩
  | sync act =>
      obtain ⟨l, hl, hs'⟩ := Option.bind_eq_some_iff.mp hstep
      obtain ⟨y, hy, rfl⟩ := Option.map_eq_some_iff.mp hs'
      exact h.syncStep (hfew act rfl) hl hy
  | abortAll p =>
      obtain ⟨-, hs'⟩ := Option.ite_none_right_eq_some.mp hstep
      obtain ⟨l, hl, rfl⟩ := Option.map_eq_some_iff.mp hs'
      exact h.exchange hl
  | abortReturns p =>
      obtain ⟨-, hs'⟩ := Option.ite_none_right_eq_some.mp hstep
      cases hs'
      exact hadvance p _ (by simp)
  | forceAll p =>
      obtain ⟨-, hs'⟩ := Option.ite_none_right_eq_some.mp hstep
      cases hs'
      exact hadvance p _ (by simp)
  | forceReturns p =>
      obtain ⟨-, hs'⟩ := Option.ite_none_right_eq_some.mp hstep
      cases hs'
      exact hadvance p _ (by simp)

/-- Whenever a loop thread has taken a call and the loop is free, the walk of that call can
begin: as long as the counter has not wrapped, composing the two machines blocks nothing. -/
theorem taken_walk_can_begin (h : (machine (π := π) (θ := θ) (ν := ν)).ReachableUnder Few s) {t : θ}
    {p : π} {k : Kind} {id : ℕ} (ht : s.sync.thread t = .taken (p, k) id)
    (hfree : s.loop.stack = []) (hok : s.loop.fault = false) :
    ∃ s', s.step (.sync (.run t)) = some s' := by
  have hwon : s.Won := by
    refine h.invariant ⟨.init, ?_, ?_, ?_⟩ fun _ _ _ hs hfew hstep => hs.step hfew hstep
    all_goals simp [machine, initial, Sync.initial]
  have ho := Sync.orderly_of_reachable hwon.sync
  have hloop : ∃ l, s.loop.step (walkOf k) = some l := by
    cases k with
    | force => simp [Loop.step, walkOf, hok, Loop.hostTurn, hfree]
    | abort =>
        have hwait := (ho.waiting_of_thread t _ id).2.1 ht
        have hbegun : s.sync.begun (p, .abort) = 0 := (ho.counted_of_taken ht).1
        have hposted := hwon.posted p (hwon.sole p (.inr (by simp [hwait]))) hbegun
        simp [Loop.step, walkOf, hok, hfree, hposted]
  obtain ⟨l, hl⟩ := hloop
  have hside : s.loopSide (.run t) = some l := by simp [loopSide, ht, hfree, hl]
  simp [Barrier.step, hside, Sync.step, Sync.threadStep, ht]

/-! ## The results -/

/-- **`abort_all()` is a barrier**, in every run in which no thread makes its exchange while an
abort walk that was asked for has not completed, and fewer than `2 ^ 64` calls get a number: when
`abort_all()` has returned to a thread, the abort walk has completed, and every abortable tracked
when the thread called it and not untracked since has been aborted, once; and no abortable is forced
before it is aborted. -/
theorem abort_all_is_barrier
    (h : (machine (π := π) (θ := θ) (ν := ν)).ReachableUnder Patient s) :
    (∀ p, (s.stage p).returned = true → s.loop.Walked ∧
      ∀ a ∈ s.since p, ∃ e, s.loop.now a = some e ∧
        (e .abort).walk + (e .abort).track = 1) ∧
    Loop.AbortFirst s.loop.log := by
  have hs := sane_of_reachable h
  have htraced := Loop.traced_of_reachable hs.loop
  refine ⟨fun p hp => ⟨hs.returned p hp, fun a ha => ?_⟩, htraced.first⟩
  obtain ⟨hmem, hown⟩ := hs.since p a ha
  obtain ⟨e, he⟩ := Option.isSome_iff_exists.mp ((htraced.side.sound.running a).mpr hmem)
  exact ⟨e, he, htraced.side.aborted_once (hs.returned p hp) he hown⟩

/-- `Patient`, evaluated. -/
def patientb (s : Barrier ℕ ℕ ℕ) : Act ℕ ℕ ℕ → Bool
  | .abortAll _ => !s.loop.aborting_ || s.loop.done.any (·.1 = .abort)
  | .sync act => s.sync.few act
  | _ => true

lemma patient_of_patientb {s : Barrier ℕ ℕ ℕ} {act : Act ℕ ℕ ℕ} (h : patientb s act = true) :
    Patient s act := by
  constructor
  · rintro p rfl hab
    obtain ⟨⟨k, j⟩, hmem, hk⟩ : ∃ kj ∈ s.loop.done, kj.1 = .abort := by
      simpa [patientb, hab] using h
    exact ⟨j, hk ▸ hmem⟩
  · rintro act rfl
    exact Sync.few_sound _ _ h

/-- Abortable `0` is tracked on a loop that thread `0` has claimed. -/
def claimedLoop : List (Act ℕ ℕ ℕ) :=
  [.host (.track 0), .host .resume, .host .resume, .sync (.claim 0)]

/-- Thread `p` makes its call for a walk of kind `k`, the `id`-th call, up to where the loop begins
the walk and makes its first callback. -/
def callUpToCallback (p : ℕ) (k : Kind) (id : ℕ) : List (Act ℕ ℕ ℕ) :=
  [.sync (.enter (p, k) false), .sync (.lock (p, k)), .sync (.number (p, k)),
    .sync (.openCall (p, k)), .sync (.post (p, k)), .sync (.pick 0 (p, k) id), .sync (.take 0),
    .sync (.run 0), .host .resume]

/-- The callback returns, the walk ends and the call returns. -/
def callToEnd (p : ℕ) (k : Kind) : List (Act ℕ ℕ ℕ) :=
  [.host .ret, .host .resume, .sync (.finish 0), .sync (.report 0), .sync (.wake (p, k))]

/-- Thread `0` calls `abort_all()` and waits; then thread `1` does, and `force_all()` after it. -/
theorem abort_all_is_barrier_for_second_caller :
    ∃ s : Barrier ℕ ℕ ℕ, (machine (π := ℕ) (θ := ℕ) (ν := ℕ)).ReachableUnder Patient s ∧
      s.loop.log = [(.force, 0), (.abort, 0)] ∧ (s.stage 1).returned = true ∧ s.loop.Walked ∧
      Loop.AbortFirst s.loop.log := by
  obtain ⟨s, hs, htest⟩ := machine.exists_reachableUnder_of_run patientb
    (fun _ _ h => patient_of_patientb h)
    (claimedLoop ++ [.abortAll 0] ++ callUpToCallback 0 .abort 1 ++ callToEnd 0 .abort ++
      [.abortReturns 0, .abortAll 1, .forceAll 1] ++ callUpToCallback 1 .force 2)
    (fun s : Barrier ℕ ℕ ℕ =>
      decide (s.loop.log = [(.force, 0), (.abort, 0)] ∧ (s.stage 1).returned = true)) (by decide)
  obtain ⟨hlog, hret⟩ := of_decide_eq_true htest
  obtain ⟨hbarrier, hfirst⟩ := abort_all_is_barrier hs
  exact ⟨s, hs, hlog, hret, (hbarrier 1 hret).1, hfirst⟩

/-- Thread `0` has won the exchange and done nothing more.  Thread `1` calls `abort_all()`, which
returns at once. -/
def overtaking : List (Act ℕ ℕ ℕ) :=
  claimedLoop ++ [.abortAll 0, .abortAll 1]

/-- `abort_all()` has returned to thread `1` of `overtaking`, and abortable `0`, tracked all along,
has not been aborted; and its `force_all()` then forces `0` before anything aborts it. -/
theorem losing_abort_all_returns_early :
    (∃ s : Barrier ℕ ℕ ℕ, (machine (π := ℕ) (θ := ℕ) (ν := ℕ)).Reachable s ∧
      (s.stage 1).returned = true ∧ 0 ∈ s.since 1 ∧ s.loop.done = [] ∧ s.loop.log = []) ∧
    (∃ s : Barrier ℕ ℕ ℕ, (machine (π := ℕ) (θ := ℕ) (ν := ℕ)).Reachable s ∧
      s.loop.log = [(.force, 0)] ∧ ¬ Loop.AbortFirst s.loop.log) := by
  constructor
  · obtain ⟨s, hs, htest⟩ := machine.exists_reachable_of_run overtaking
      (fun s : Barrier ℕ ℕ ℕ => decide ((s.stage 1).returned = true ∧ 0 ∈ s.since 1 ∧
        s.loop.done = [] ∧ s.loop.log = [])) (by decide)
    exact ⟨s, hs, of_decide_eq_true htest⟩
  · obtain ⟨s, hs, htest⟩ := machine.exists_reachable_of_run
      (overtaking ++ [.forceAll 1] ++ callUpToCallback 1 .force 1)
      (fun s : Barrier ℕ ℕ ℕ => decide (s.loop.log = [(.force, 0)])) (by decide)
    have hlog := of_decide_eq_true htest
    exact ⟨s, hs, hlog, by simp [hlog, Loop.AbortFirst]⟩

end Barrier

end ReactorRuntime
