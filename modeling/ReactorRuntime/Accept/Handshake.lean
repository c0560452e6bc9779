import ReactorRuntime.Accept.Control

/-!
# The accept-stop handshake

`stop()` waits for `finished` without a timeout, so an accept loop that suspends on something
nobody completes hangs the shutdown.  The danger is in the gap between a check of `stopping` and the
suspension that follows: `stop_on_owner` may close the acceptor before the accept is started, or
cancel the timer before it is armed.

The gap is closed by where `stop_on_owner` runs.  It is posted to the coroutine's own loop, so it
finds the coroutine suspended, and `stopping` was stored before it was posted.  At that moment the
coroutine is at one of the places of `AcceptPc.closing`, with its completion queued, and every
path from there comes to a check of `stopping` before the next suspension.  This is the invariant
`Kept.closing`; the rest of the file reads the consequences off it.
-/

namespace ReactorRuntime

namespace AcceptPc

/-- Where the coroutine can be once `stop_on_owner` has run. -/
def closing : AcceptPc → Bool
  | .spawned => true
  | .started => true
  | .accepted _ => true
  | .arrived _ => true
  | .check => true
  | .retryTest _ => true
  | .timed _ => true
  | .woken _ => true
  | .ending _ => true
  | .ended => true
  | _ => false

/-- The number of steps that are left to a coroutine that has been told to stop and is at one of the
places of `closing`. -/
def rest : AcceptPc → ℕ
  | .ended => 0
  | .ending _ => 1
  | .started => 2
  | .check => 2
  | .retryTest _ => 2
  | .woken _ => 2
  | .spawned => 3
  | .arrived _ => 3
  | .timed _ => 3
  | .accepted _ => 4
  | _ => 5

end AcceptPc

namespace Accept

/-- The action is a step of the coroutine, and not of its surroundings. -/
def Act.own : Act → Bool
  | .dispatch => true
  | .run _ => true
  | _ => false

/-! ## The invariant -/

/-- What holds between the statements of the coroutine. -/
structure Kept (l : Listener) (s : Accept) : Prop where
  told : s.posted = true → s.stopping = true
  closing : s.stopRan = true → s.stopping = true ∧ s.pc.closing = true
  finished_iff : s.finished = true ↔ s.pc = .ended
  /-- Past a check, the check found the flag unset. -/
  untold : s.pc = .admission ∨ s.pc = .launch ∨ (∃ e, s.pc = .judging e) → s.late = false
  launches : ∀ late ∈ s.launches, late = false

lemma closing_stopOnOwner {s : Accept} (idle : s.pc.executing = false) :
    s.stopOnOwner.pc.closing = true := by
  unfold stopOnOwner
  cases hpc : s.pc <;> simp_all [AcceptPc.executing, AcceptPc.closing]

/-- A step that is not the coroutine's moves it only where it is suspended on the kernel. -/
lemma pc_of_move {l : Listener} {s s' : Accept} {act : Act} (hmove : Move l s act s')
    (hact : act.own = false) : s'.pc = s.pc ∨ s.pc = .accepting ∨ s.pc = .timing := by
  cases hmove with
  | stopOnOwner posted idle =>
      unfold stopOnOwner
      cases hpc : s.pc <;> simp
  | complete pc => exact .inr (.inl pc)
  | expire pc => exact .inr (.inr pc)
  | store => exact .inl rfl
  | post told => exact .inl rfl
  | _ => cases hact

/-- A coroutine that has been told to stop stays where it is closing, and each step brings its end
nearer. -/
lemma closing_of_move {l : Listener} {s s' : Accept} {act : Act} (hmove : Move l s act s')
    (hact : act.own = true) (told : s.stopping = true) (hpc : s.pc.closing = true) :
    s'.pc.closing = true ∧ s'.pc.rest < s.pc.rest := by
  cases hmove with
  | store => cases hact
  | post told => cases hact
  | stopOnOwner posted idle => cases hact
  | complete pc => cases hact
  | expire pc => cases hact
  | startFails pc =>
      rcases pc with pc | ⟨e, pc⟩ | pc | ⟨d, pc⟩ <;> simp_all [AcceptPc.closing, AcceptPc.rest]
  | _ => simp_all [AcceptPc.closing, AcceptPc.rest, testStopping, finish]

lemma stopping_of_move {l : Listener} {s s' : Accept} {act : Act} (hmove : Move l s act s')
    (told : s.stopping = true) : s'.stopping = true := by
  cases hmove <;> first | exact told | rfl

lemma stopRan_of_move {l : Listener} {s s' : Accept} {act : Act} (hmove : Move l s act s')
    (ran : s'.stopRan = true) : s.stopRan = true ∨ act = .stopOnOwner := by
  cases hmove <;> first | exact .inl ran | exact .inr rfl

lemma posted_of_move {l : Listener} {s s' : Accept} {act : Act} (hmove : Move l s act s')
    (posted : s'.posted = true) : s.posted = true ∨ s.stopping = true := by
  cases hmove with
  | post told => exact .inr told
  | stopOnOwner posted' idle => cases posted
  | _ => exact .inl posted

lemma finished_iff_of_move {l : Listener} {s s' : Accept} {act : Act} (hmove : Move l s act s')
    (h : s.finished = true ↔ s.pc = .ended) : s'.finished = true ↔ s'.pc = .ended := by
  cases hmove with
  | stopOnOwner posted idle =>
      unfold stopOnOwner
      cases hpc : s.pc <;> simp_all
  | finish pc => simp [finish]
  | store => exact h
  | post told => exact h
  | start pc | again pc | check pc | retryTest pc =>
      simp only [testStopping]
      split <;> simp_all
  | @setUp st pc more => rcases nextSetup_cases l st with hnext | ⟨st', hnext⟩ <;> simp_all
  | startFails pc => rcases pc with pc | ⟨e, pc⟩ | pc | ⟨d, pc⟩ <;> simp_all
  | _ => simp_all

/-- The flag found unset at the check before is the one recorded. -/
lemma untold_of_move {l : Listener} {s s' : Accept} {act : Act} (hmove : Move l s act s')
    (h : s.pc = .admission ∨ s.pc = .launch ∨ (∃ e, s.pc = .judging e) → s.late = false)
    (hpc : s'.pc = .admission ∨ s'.pc = .launch ∨ ∃ e, s'.pc = .judging e) : s'.late = false := by
  cases hmove with
  | stopOnOwner posted idle =>
      refine h ?_
      revert hpc
      unfold stopOnOwner
      cases s.pc <;> simp
  | store => exact h hpc
  | post told => exact h hpc
  | admission pc => exact h (.inl pc)
  | start pc | again pc | check pc | retryTest pc =>
      simp only [testStopping] at hpc ⊢
      cases hstop : s.stopping with
      | false => rfl
      | true => simp [hstop] at hpc
  | @setUp st pc more =>
      rcases nextSetup_cases l st with hnext | ⟨st', hnext⟩ <;> simp [hnext] at hpc
  | _ => simp [finish] at hpc

lemma launches_of_move {l : Listener} {s s' : Accept} {act : Act} (hmove : Move l s act s') :
    s'.launches = s.launches ∨ s.pc = .launch ∧ s'.launches = s.late :: s.launches := by
  cases hmove with
  | launch pc => exact .inr ⟨pc, rfl⟩
  | _ => exact .inl rfl

lemma Kept.step {l : Listener} {s s' : Accept} {act : Act} (h : Kept l s)
    (hmove : Move l s act s') : Kept l s' where
  told posted :=
    stopping_of_move hmove ((posted_of_move hmove posted).elim h.told fun told => told)
  closing ran := by
    rcases stopRan_of_move hmove ran with ran' | rfl
    · obtain ⟨told, hpc⟩ := h.closing ran'
      refine ⟨stopping_of_move hmove told, ?_⟩
      cases hact : act.own with
      | true => exact (closing_of_move hmove hact told hpc).1
      | false =>
          rcases pc_of_move hmove hact with hpc' | hpc' | hpc'
          · exact hpc' ▸ hpc
          · simp [hpc', AcceptPc.closing] at hpc
          · simp [hpc', AcceptPc.closing] at hpc
    · cases hmove with
      | stopOnOwner posted idle => exact ⟨h.told posted, closing_stopOnOwner idle⟩
  finished_iff := finished_iff_of_move hmove h.finished_iff
  untold := untold_of_move hmove h.untold
  launches := by
    rcases launches_of_move hmove with heq | ⟨hpc, heq⟩
    · exact heq ▸ h.launches
    · rw [heq]
      exact List.forall_mem_cons.mpr ⟨h.untold (.inr (.inl hpc)), h.launches⟩

lemma kept_of_reachable {l : Listener} {s : Accept} (hs : (machine l).Reachable s) : Kept l s := by
  refine hs.invariant ?_ fun s act s' h _ hstep => h.step (move_of_step hstep)
  exact {
    told := by simp [machine, initial]
    closing := by simp [machine, initial]
    finished_iff := by simp [machine, initial]
    untold := by simp [machine, initial]
    launches := by simp [machine, initial] }

/-! ## After `stop_on_owner` -/

/-- The coroutine is on its way out: it is suspended on nothing that is pending, its next step is
there to be taken, each of its steps brings its end nearer, and nothing else moves it. -/
structure Draining (l : Listener) (s : Accept) : Prop where
  awaited : s.pc ≠ .accepting ∧ s.pc ≠ .timing
  /-- The control is finished, or what resumes the coroutine is queued, or it is executing. -/
  next : s.finished = true ∨
    (s.pc.queued = true ∧ ∃ t, (machine l).step s .dispatch = some t) ∨
    (s.pc.executing = true ∧ ∃ t, (machine l).step s (.run .ok) = some t)
  /-- An executing coroutine does not suspend again. -/
  onward : ∀ o t, (machine l).step s (.run o) = some t → t.pc.executing = true ∨ t.finished = true
  nearer : ∀ act t, (machine l).step s act = some t → act.own = true → t.pc.rest < s.pc.rest
  still : ∀ act t, (machine l).step s act = some t → act.own = false → t.pc = s.pc

/-- A coroutine that is closing has its next step: the loop resumes it, or it goes on. -/
lemma next_of_closing {l : Listener} {s : Accept} (hpc : s.pc.closing = true) :
    s.pc = .ended ∨
    (s.pc.queued = true ∧ ∃ t, (machine l).step s .dispatch = some t) ∨
    (s.pc.executing = true ∧ ∃ t, (machine l).step s (.run .ok) = some t) := by
  cases pc : s.pc with
  | arrived error =>
      cases error <;> simp [machine, step, runStep, pc, AcceptPc.executing]
  | _ =>
      simp_all [machine, step, runStep, dispatch, AcceptPc.queued, AcceptPc.executing,
        AcceptPc.closing]

lemma onward_of_closing {l : Listener} {s t : Accept} {o : Outcome} (told : s.stopping = true)
    (hpc : s.pc.closing = true) (hmove : Move l s (.run o) t) :
    t.pc.executing = true ∨ t.finished = true := by
  cases hmove with
  | finish pc => exact .inr rfl
  | startFails pc => exact .inl rfl
  | start pc | again pc | check pc | retryTest pc =>
      simp [testStopping, told, AcceptPc.executing]
  | _ => simp_all [AcceptPc.closing, AcceptPc.executing]

lemma Kept.draining {l : Listener} {s : Accept} (h : Kept l s) (ran : s.stopRan = true) :
    Draining l s := by
  obtain ⟨told, hpc⟩ := h.closing ran
  have hawait : s.pc ≠ .accepting ∧ s.pc ≠ .timing := by
    constructor <;> intro heq <;> simp [heq, AcceptPc.closing] at hpc
  exact {
    awaited := hawait
    next := (next_of_closing hpc).imp_left h.finished_iff.mpr
    onward := fun o t hstep => onward_of_closing told hpc (move_of_step hstep)
    nearer := fun act t hstep hact => (closing_of_move (move_of_step hstep) hact told hpc).2
    still := fun act t hstep hact =>
      (pc_of_move (move_of_step hstep) hact).resolve_right (by simpa using hawait) }

/-! ## How the coroutine fails -/

/-- What makes the coroutine end with an exception. -/
inductive Excuse (l : Listener) : Accept → Act → Cause → Prop
  /-- A step of the setup failed; the address is only parsed when there is one. -/
  | setup {s st b} (pc : s.pc = .setup st) (named : st = .makeAddress → l.named = true) :
      Excuse l s (.run (.throws b)) (.setup st)
  /-- An accept, a timer or a call of `retry` could not be started. -/
  | start {s b} (pc : s.pc = .initiate ∨ (∃ e, s.pc = .arrived (some e)) ∨ s.pc = .pressed ∨
      ∃ d, s.pc = .arming d) :
      Excuse l s (.run (.throws b)) .start
  /-- A launch threw something other than `std::bad_alloc`. -/
  | launch {s} (pc : s.pc = .launch) : Excuse l s (.run (.throws false)) .launch
  /-- `retry`, which had found `stopping` unset, judged the error fatal. -/
  | judged {s e b} (pc : s.pc = .judging e) (untold : s.late = false)
      (listeners : e.perConnection l.platform b = false)
      (fatal : e.retryableAcceptError = false) :
      Excuse l s (.run (.moved b)) (.judged e)

lemma Kept.excuse {l : Listener} {s t : Accept} {act : Act} {c : Cause} (h : Kept l s)
    (hmove : Move l s act t) (hpc : s.pc ≠ .ending (some c)) (hpc' : t.pc = .ending (some c)) :
    Excuse l s act c := by
  cases hmove with
  | setUpFails pc can => cases hpc'; exact .setup pc can
  | startFails pc => cases hpc'; exact .start pc
  | launchFails pc => cases hpc'; exact .launch pc
  | @fail e b _ pc verdict =>
      cases hpc'
      have hfail : (judge l.platform e b s.pacing).1 = .fail := by rw [verdict]
      obtain ⟨listeners, fatal⟩ := (judge_fail_iff ..).mp hfail
      exact .judged pc (h.untold (.inr (.inr ⟨e, pc⟩))) listeners fatal
  | store => exact absurd hpc' hpc
  | post told => exact absurd hpc' hpc
  | stopOnOwner posted idle =>
      refine absurd ?_ hpc
      revert hpc'
      unfold stopOnOwner
      cases s.pc <;> simp
  | start pc | again pc | check pc | retryTest pc =>
      simp only [testStopping] at hpc'
      split at hpc' <;> cases hpc'
  | @setUp st pc more =>
      rcases nextSetup_cases l st with hnext | ⟨st', hnext⟩ <;> simp [hnext] at hpc'
  | _ => cases hpc'

lemma startup_error_of_move {l : Listener} {s t : Accept} {act : Act} (hmove : Move l s act t) :
    t.startup_error = s.startup_error ∨ s.pc = .ending t.startup_error := by
  cases hmove with
  | finish pc => exact .inr pc
  | _ => exact .inl rfl

/-- **The handshake has no stuck state.**  In every reachable state: once `stop_on_owner` has run,
the coroutine is draining; no launch followed a stopping check made once `stopping` was set; and
the coroutine comes to end with an exception only for one of the reasons of `Excuse`, which is
then what `finish` is given. -/
theorem accept_stop_handshake (l : Listener) {s : Accept} (hs : (machine l).Reachable s) :
    (s.stopRan = true → Draining l s) ∧
    (∀ late ∈ s.launches, late = false) ∧
    (∀ act t c, (machine l).step s act = some t → s.pc ≠ .ending (some c) →
      t.pc = .ending (some c) → Excuse l s act c) ∧
    (∀ act t, (machine l).step s act = some t →
      t.startup_error = s.startup_error ∨ s.pc = .ending t.startup_error) := by
  have h := kept_of_reachable hs
  exact ⟨h.draining, h.launches,
    fun act t c hstep hpc hpc' => h.excuse (move_of_step hstep) hpc hpc',
    fun act t hstep => startup_error_of_move (move_of_step hstep)⟩

/-- A listener on a named address of a Linux host, with a bound on live connections. -/
def namedListener : Listener where
  platform := ⟨true, false⟩
  port := 80
  named := true
  reusePort := true
  bounded := true

/-- The coroutine sets its listener up on port 80 and starts an accept. -/
def setUpRun : List Act :=
  [.dispatch, .run .ok, .run .ok, .run .ok, .run .ok, .run .ok, .run .ok, .run .ok, .run (.at_ 80),
    .run .ok, .run .ok, .run .ok]

/-- The accept completes while `stop()` stores the flag and posts; `stop_on_owner` runs when the
completion is queued. -/
def lateStopRun : List Act := setUpRun ++ [.store, .complete none, .post, .stopOnOwner]

/-- A connection whose completion was queued before `stop_on_owner` ran is not launched. -/
theorem accept_stop_handshake_at_lateStopRun :
    ∃ s : Accept, (machine namedListener).Reachable s ∧
      (s.pc = .accepted none ∧ s.stopRan = true) ∧ Draining namedListener s := by
  obtain ⟨s, hs, htest⟩ := (machine namedListener).exists_reachable_of_run lateStopRun
    (fun s => decide (s.pc = .accepted none ∧ s.stopRan = true)) (by decide)
  have hstate := of_decide_eq_true htest
  exact ⟨s, hs, hstate, (accept_stop_handshake namedListener hs).1 hstate.2⟩

/-- **More than a failed `open`, `bind` or `listen` ends the coroutine with an exception.**  An
address that does not parse does, and so does a shortage of memory that outlasts the launch:
`retry` is a coroutine, and its own frame has to be allocated. -/
theorem setup_and_shortage_end_accept :
    (∃ s : Accept, (machine namedListener).Reachable s ∧
      s.finished = true ∧ s.stopping = false ∧ s.startup_error = some (.setup .makeAddress)) ∧
    ∃ s : Accept, (machine namedListener).Reachable s ∧
      s.finished = true ∧ s.stopping = false ∧ s.startup_error = some .start := by
  constructor
  · obtain ⟨s, hs, htest⟩ := (machine namedListener).exists_reachable_of_run
      [.dispatch, .run .ok, .run (.throws false), .run .ok]
      (fun s => decide (s.finished = true ∧ s.stopping = false ∧
        s.startup_error = some (.setup .makeAddress))) (by decide)
    exact ⟨s, hs, of_decide_eq_true htest⟩
  · obtain ⟨s, hs, htest⟩ := (machine namedListener).exists_reachable_of_run
      (setUpRun ++ [.complete none, .dispatch, .run .ok, .run .ok, .run .ok, .run (.throws true),
        .run (.throws true), .run .ok])
      (fun s => decide (s.finished = true ∧ s.stopping = false ∧ s.startup_error = some .start))
      (by decide)
    exact ⟨s, hs, of_decide_eq_true htest⟩

end Accept

end ReactorRuntime
