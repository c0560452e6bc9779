import ReactorRuntime.Accept.Backoff
import ReactorRuntime.Library.Spacing

/-!
# How often an accept loop fails

A listener that only ever fails must not keep its loop busy.  `Accept/Backoff` says which pause
follows which error; here the accept loop has a clock, in nanoseconds, and the retry timer is due
when it was armed for (`reactor.h:473-476`).  Nothing else takes time of its own: the loop may be
late with everything, but a pause is never cut short except by `stop_on_owner`, and then the loop
is over.

The errors that `retry` has gone on from since the last successful accept are kept with their times.
In any stretch of time there is at most one of them for each millisecond, and the 64 that are
skipped for free; and at most one shortage for each second, and the seven whose pauses are still
shorter than that (`accept_does_not_spin`).  `skipped` has 32 bits, so after `2 ^ 32` errors of
single connections without a success, which take more than 49 days, another 65 are free.
-/

namespace ReactorRuntime

/-- The pause that comes with a verdict, in milliseconds. -/
def Verdict.delay : Verdict → ℕ
  | .pause d => d
  | _ => 0

/-- An error that `retry` has gone on from. -/
structure Attempt where
  judged : Judged
  /-- When it was judged. -/
  time : ℕ
  /-- The pause after it, in milliseconds. -/
  pause : ℕ
  deriving DecidableEq, Repr

/-! ## The schedule of a row of errors -/

section Schedule

variable {p : Platform} {xs : List Attempt}

/-- What `retry` answers to the error `j` after the errors of `xs`. -/
def verdictAfter (p : Platform) (xs : List Attempt) (j : Judged) : Verdict × Pacing :=
  judge p j.error j.moved (.after p (xs.map Attempt.judged))

/-- Each error, of which the last one comes first, has the pause that `retry` makes. -/
def Scheduled (p : Platform) : List Attempt → Prop
  | [] => True
  | x :: xs =>
      (verdictAfter p xs x.judged).1 ≠ .fail ∧
        x.pause = (verdictAfter p xs x.judged).1.delay ∧ Scheduled p xs

/-- How many of the errors belong to single connections. -/
def skipsOf (p : Platform) (xs : List Attempt) : ℕ := xs.countP fun x => x.judged.perConnection p

/-- How many of the errors are shortages. -/
def shortagesOf (p : Platform) (xs : List Attempt) : ℕ := xs.countP fun x => x.judged.resource p

lemma countP_judged (q : Judged → Bool) (xs : List Attempt) :
    (xs.map Attempt.judged).countP q = xs.countP fun x => q x.judged := by
  rw [List.countP_map]
  rfl

lemma verdictAfter_perConnection {j : Judged} (h : j.perConnection p = true) :
    (verdictAfter p xs j).1.delay = if (skipsOf p xs + 1) % 4294967296 ≤ 64 then 0 else 1 := by
  unfold verdictAfter
  rw [judge_perConnection h, Pacing.skipped_after, countP_judged, Nat.mod_add_mod]
  show Verdict.delay (if (skipsOf p xs + 1) % 4294967296 ≤ 64 then _ else _) = _
  split <;> rfl

lemma verdictAfter_resource {j : Judged} (h : j.resource p = true) :
    (verdictAfter p xs j).1.delay = min (10 * 2 ^ shortagesOf p xs) 1000 := by
  obtain ⟨hper, hshort⟩ := Judged.resource_iff.mp h
  unfold verdictAfter
  rw [judge_resource hper hshort, Pacing.retry_delay_after, countP_judged]
  rfl

/-- `retry` goes on from errors of single connections and from shortages. -/
lemma kind_of_verdictAfter {j : Judged} (h : (verdictAfter p xs j).1 ≠ .fail) :
    j.perConnection p = true ∧ j.resource p = false ∨
      j.perConnection p = false ∧ j.resource p = true := by
  rcases j.cases p with hper | hres | ⟨hper, hres⟩
  · exact .inl ⟨hper, Judged.resource_of_perConnection hper⟩
  · exact .inr ⟨(Judged.resource_iff.mp hres).1, hres⟩
  · refine absurd ?_ h
    unfold verdictAfter
    rw [judge_other hper (Judged.retryable_of_other hper hres)]

/-- The errors without a pause: 64 of single connections, and 65 more each time the counter has
come round. -/
lemma Scheduled.countP_free (h : Scheduled p xs) :
    xs.countP (fun x => decide (x.pause < 1)) =
      65 * (skipsOf p xs / 4294967296) + min (skipsOf p xs % 4294967296) 64 := by
  induction xs with
  | nil => simp [skipsOf]
  | cons x xs ih =>
      obtain ⟨hgoes, hpause, hrest⟩ := h
      have ih := ih hrest
      rcases kind_of_verdictAfter hgoes with ⟨hper, -⟩ | ⟨hper, hres⟩
      · have hskips : skipsOf p (x :: xs) = skipsOf p xs + 1 := List.countP_cons_of_pos hper
        rw [verdictAfter_perConnection hper] at hpause
        rw [hskips, List.countP_cons, ih, hpause]
        by_cases hfree : (skipsOf p xs + 1) % 4294967296 ≤ 64
        · simp only [if_pos hfree]
          simp only [Nat.zero_lt_one, decide_true, if_true]
          omega
        · simp only [if_neg hfree]
          simp only [Nat.lt_irrefl, decide_false, Bool.false_eq_true, if_false]
          omega
      · have hskips : skipsOf p (x :: xs) = skipsOf p xs :=
          List.countP_cons_of_neg (ne_true_of_eq_false hper)
        rw [verdictAfter_resource hres] at hpause
        have hlong : ¬ x.pause < 1 := by
          have := Nat.two_pow_pos (shortagesOf p xs)
          omega
        rw [hskips, List.countP_cons_of_neg (by simpa using hlong), ih]

/-- The shortages with a pause of less than a second are the first seven. -/
lemma Scheduled.countP_short (h : Scheduled p xs) :
    (xs.filter fun x => x.judged.resource p).countP (fun x => decide (x.pause < 1000)) =
      min (shortagesOf p xs) 7 := by
  induction xs with
  | nil => rfl
  | cons x xs ih =>
      obtain ⟨hgoes, hpause, hrest⟩ := h
      have ih := ih hrest
      rcases kind_of_verdictAfter hgoes with ⟨-, hres⟩ | ⟨-, hres⟩
      · have hshortages : shortagesOf p (x :: xs) = shortagesOf p xs :=
          List.countP_cons_of_neg (ne_true_of_eq_false hres)
        rw [List.filter_cons, hres, hshortages]
        exact ih
      · have hshortages : shortagesOf p (x :: xs) = shortagesOf p xs + 1 :=
          List.countP_cons_of_pos hres
        rw [verdictAfter_resource hres] at hpause
        rw [List.filter_cons, hres, if_pos rfl, hshortages, List.countP_cons, ih, hpause]
        by_cases hfew : shortagesOf p xs < 7
        · have hpow : 2 ^ shortagesOf p xs ≤ 2 ^ 6 := Nat.pow_le_pow_right (by omega) (by omega)
          have hshort : min (10 * 2 ^ shortagesOf p xs) 1000 < 1000 := by omega
          rw [if_pos (decide_eq_true hshort)]
          omega
        · have hpow : 2 ^ 7 ≤ 2 ^ shortagesOf p xs := Nat.pow_le_pow_right (by omega) (by omega)
          have hlong : ¬ min (10 * 2 ^ shortagesOf p xs) 1000 < 1000 := by omega
          rw [if_neg (by simpa using hlong)]
          omega

end Schedule

/-! ## The accept loop with a clock -/

/-- A millisecond, in nanoseconds. -/
def msec : ℕ := 1000000

/-- An accept loop with a clock. -/
structure TimedLoop where
  accept : Accept
  now : ℕ
  /-- When the retry timer expires. -/
  due : ℕ
  /-- Record: the errors that `retry` has gone on from since the last successful accept, the latest
  one first. -/
  attempts : List Attempt

namespace TimedLoop

inductive Act
  | accept (a : Accept.Act)
  /-- Time passes. -/
  | pass (ns : ℕ)
  deriving DecidableEq, Repr

def initial : TimedLoop where
  accept := .initial
  now := 0
  due := 0
  attempts := []

/-- What the record becomes with a verdict on the error `j`. -/
def noteVerdict (s : TimedLoop) (j : Judged) : Verdict → List Attempt
  | .fail => s.attempts
  | verdict => ⟨j, s.now, verdict.delay⟩ :: s.attempts

/-- What the record becomes when the coroutine takes `act`. -/
def note (l : Listener) (s : TimedLoop) (act : Accept.Act) : List Attempt :=
  match s.accept.pc, act with
  | .judging e, .run (.moved b) =>
      s.noteVerdict ⟨e, b⟩ (judge l.platform e b s.accept.pacing).1
  | .arrived none, .run .ok => []
  | _, _ => s.attempts

/-- When the timer is due after `act`: `retry_timer.expires_after(delay)`. -/
def dueAfter (s : TimedLoop) (act : Accept.Act) : ℕ :=
  match s.accept.pc, act with
  | .arming d, .run .ok => s.now + d * msec
  | _, _ => s.due

/-- One action; the timer does not expire before it is due. -/
def step (l : Listener) (s : TimedLoop) : Act → Option TimedLoop
  | .accept act =>
      if act = .expire ∧ s.now < s.due then none
      else (s.accept.step l act).map fun a =>
        { s with accept := a, due := s.dueAfter act, attempts := s.note l act }
  | .pass ns => some { s with now := s.now + ns }

/-- The accept loop with its clock as a machine. -/
def machine (l : Listener) : Machine TimedLoop Act where
  init := initial
  step := step l

/-- How many errors `retry` went on from in the time from `a` on, for `T`. -/
def attemptsIn (s : TimedLoop) (a T : ℕ) : ℕ :=
  (s.attempts.filter fun x => decide (a ≤ x.time ∧ x.time < a + T)).length

/-- How many of them were shortages. -/
def shortagesIn (l : Listener) (s : TimedLoop) (a T : ℕ) : ℕ :=
  ((s.attempts.filter fun x => x.judged.resource l.platform).filter fun x =>
    decide (a ≤ x.time ∧ x.time < a + T)).length

/-! ## The pauses are kept -/

/-- What the coroutine at `pc` has left of the pause after `x`. -/
def Waits (pc : AcceptPc) (now due : ℕ) (x : Attempt) : Prop :=
  match pc with
  | .arming d => x.time ≤ now ∧ x.pause = d
  | .timing => x.time + x.pause * msec ≤ due
  -- the loop is over, or will be
  | .timed false => True
  | .woken false => True
  | .ending _ => True
  | .ended => True
  | _ => x.time + x.pause * msec ≤ now

/-- The record has the pauses of `retry`, they were kept, and the last one is being kept. -/
structure Kept (l : Listener) (s : TimedLoop) : Prop where
  pacing : s.accept.pacing = .after l.platform (s.attempts.map Attempt.judged)
  scheduled : Scheduled l.platform s.attempts
  rested : Rested Attempt.time (fun x => x.pause * msec) s.attempts
  waits : ∀ x ∈ s.attempts.head?, Waits s.accept.pc s.now s.due x

variable {l : Listener} {s t : TimedLoop} {a : Accept}

lemma Waits.pass {pc : AcceptPc} {now due : ℕ} {x : Attempt} (h : Waits pc now due x) (ns : ℕ) :
    Waits pc (now + ns) due x := by
  unfold Waits at h ⊢
  split <;> simp_all <;> omega

/-- A test of `stopping` between two points where the pause is over. -/
lemma Waits.testStopping {yes no : AcceptPc} {now due : ℕ} {x : Attempt}
    (hyes : Waits yes now due x) (hno : Waits no now due x) :
    Waits (a.testStopping yes no).pc now due x := by
  show Waits (if a.stopping then yes else no) now due x
  by_cases hstopping : a.stopping = true
  · rw [if_pos hstopping]
    exact hyes
  · rw [if_neg hstopping]
    exact hno

lemma Waits.wake {expired : Bool} {now due : ℕ} {x : Attempt}
    (h : Waits (.timed expired) now due x) : Waits (.woken expired) now due x := by
  cases expired with
  | true => exact h
  | false => trivial

/-- `stop_on_owner` cuts a pause short, and the loop will end. -/
lemma Waits.stopOnOwner {now due : ℕ} {x : Attempt} (h : Waits a.pc now due x) :
    Waits a.stopOnOwner.pc now due x := by
  unfold Accept.stopOnOwner
  cases hpc : a.pc with
  | timing => trivial
  | accepting =>
      rw [hpc] at h
      exact h
  | _ =>
      rw [hpc] at h
      exact h

/-- Only a verdict and a successful accept touch the record. -/
lemma note_of_other {act : Accept.Act} (hjudge : ∀ b, act ≠ .run (.moved b))
    (haccept : act = .run .ok → s.accept.pc ≠ .arrived none) : s.note l act = s.attempts := by
  unfold note
  split
  · exact absurd rfl (hjudge _)
  · next hpc => exact absurd hpc (haccept rfl)
  · rfl

/-- Only arming the timer changes when it is due. -/
lemma dueAfter_of_other {act : Accept.Act} (harm : act = .run .ok → ∀ d, s.accept.pc ≠ .arming d) :
    s.dueAfter act = s.due := by
  unfold dueAfter
  split
  · next d hpc => exact absurd hpc (harm rfl d)
  · rfl

lemma dueAfter_of_arming {d : ℕ} (hpc : s.accept.pc = .arming d) :
    s.dueAfter (.run .ok) = s.now + d * msec := by
  unfold dueAfter
  rw [hpc]

lemma note_of_judging {e : ErrorCode} {b : Bool} {verdict : Verdict} {c : Pacing}
    (hpc : s.accept.pc = .judging e)
    (hverdict : judge l.platform e b s.accept.pacing = (verdict, c)) :
    s.note l (.run (.moved b)) = s.noteVerdict ⟨e, b⟩ verdict := by
  unfold note
  rw [hpc]
  show s.noteVerdict ⟨e, b⟩ (judge l.platform e b s.accept.pacing).1 = _
  rw [hverdict]

/-- An error that ends the loop leaves the counters. -/
lemma pacing_of_fail {p : Platform} {e : ErrorCode} {b : Bool} {c c' : Pacing}
    (hverdict : judge p e b c = (.fail, c')) : c' = c := by
  obtain ⟨hper, hres⟩ := (judge_fail_iff p e b c).mp (by rw [hverdict])
  rw [judge_other hper hres] at hverdict
  exact (Prod.mk.inj hverdict).2.symm

namespace Kept

lemma initial : Kept l TimedLoop.initial where
  pacing := rfl
  scheduled := trivial
  rested := .nil
  waits x hx := by cases hx

lemma pass (h : s.Kept l) (ns : ℕ) : Kept l { s with now := s.now + ns } where
  pacing := h.pacing
  scheduled := h.scheduled
  rested := h.rested
  waits x hx := (h.waits x hx).pass ns

/-- The coroutine goes on, with the record as it is. -/
lemma moveOn {due : ℕ} (h : s.Kept l) (hpacing : a.pacing = s.accept.pacing)
    (hwaits : ∀ x, Waits s.accept.pc s.now s.due x → Waits a.pc s.now due x) :
    Kept l ⟨a, s.now, due, s.attempts⟩ where
  pacing := hpacing.trans h.pacing
  scheduled := h.scheduled
  rested := h.rested
  waits x hx := hwaits x (h.waits x hx)

/-- A successful accept begins the record anew. -/
lemma connected {due : ℕ} (hpacing : a.pacing = .reset) : Kept l ⟨a, s.now, due, []⟩ where
  pacing := hpacing
  scheduled := trivial
  rested := .nil
  waits x hx := by cases hx

/-- `retry` goes on from one more error. -/
lemma goOn {e : ErrorCode} {b : Bool} {verdict : Verdict} {due : ℕ} (h : s.Kept l)
    (hpc : s.accept.pc = .judging e) (hgoes : verdict ≠ .fail)
    (hverdict : judge l.platform e b s.accept.pacing = (verdict, a.pacing))
    (hwaits : Waits a.pc s.now due ⟨⟨e, b⟩, s.now, verdict.delay⟩) :
    Kept l ⟨a, s.now, due, ⟨⟨e, b⟩, s.now, verdict.delay⟩ :: s.attempts⟩ := by
  have hafter : verdictAfter l.platform s.attempts ⟨e, b⟩ = (verdict, a.pacing) := by
    unfold verdictAfter
    rw [← h.pacing]
    exact hverdict
  constructor
  case pacing => exact (congrArg Prod.snd hafter).symm
  case scheduled =>
    refine ⟨?_, ?_, h.scheduled⟩
    · rw [hafter]
      exact hgoes
    · rw [hafter]
  case rested =>
    refine h.rested.cons fun y hy => ?_
    have hy := h.waits y hy
    rw [hpc] at hy
    exact hy
  case waits =>
    intro x hx
    cases hx
    exact hwaits

/-- **One action keeps the pauses.** -/
theorem accept (h : s.Kept l) {act : Accept.Act} (hdue : act = .expire → s.due ≤ s.now)
    (hstep : s.accept.step l act = some a) :
    Kept l ⟨a, s.now, s.dueAfter act, s.note l act⟩ := by
  cases Accept.move_of_step hstep with
  | skip pc verdict =>
      rw [note_of_judging pc verdict]
      exact h.goOn pc (by simp) verdict (by simp [Waits, Verdict.delay])
  | pause pc verdict =>
      rw [note_of_judging pc verdict]
      exact h.goOn pc (by simp) verdict ⟨le_rfl, rfl⟩
  | fail pc verdict =>
      rw [note_of_judging pc verdict]
      exact h.moveOn (pacing_of_fail verdict) fun x _ => trivial
  | connected pc =>
      have hnote : s.note l (.run .ok) = [] := by
        unfold note
        rw [pc]
      rw [hnote]
      exact connected rfl
  | arm pc =>
      rw [note_of_other (by simp) (by simp [pc])]
      rw [dueAfter_of_arming pc]
      refine h.moveOn rfl fun x hx => ?_
      rw [pc] at hx
      obtain ⟨htime, hpause⟩ := hx
      show x.time + x.pause * msec ≤ _
      rw [hpause]
      omega
  | expire pc =>
      rw [note_of_other (by simp) (by simp), dueAfter_of_other (by simp)]
      refine h.moveOn rfl fun x hx => ?_
      rw [pc] at hx
      exact hx.trans (hdue rfl)
  | stopOnOwner posted idle =>
      rw [note_of_other (by simp) (by simp), dueAfter_of_other (by simp)]
      exact h.moveOn rfl fun x hx => hx.stopOnOwner
  | start pc | again pc | check pc | retryTest pc =>
      rw [note_of_other (by simp) (by simp [pc]), dueAfter_of_other (by simp [pc])]
      refine h.moveOn rfl fun x hx => ?_
      rw [pc] at hx
      exact .testStopping trivial hx
  | setUp pc more =>
      rw [note_of_other (by simp) (by simp [pc]), dueAfter_of_other (by simp [pc])]
      refine h.moveOn rfl fun x hx => ?_
      rw [pc] at hx
      rcases Accept.nextSetup_cases l _ with hnext | ⟨st, hnext⟩
      · show Waits (Accept.nextSetup l _) _ _ x
        rw [hnext]
        exact hx
      · show Waits (Accept.nextSetup l _) _ _ x
        rw [hnext]
        exact hx
  | wake pc =>
      rw [note_of_other (by simp) (by simp), dueAfter_of_other (by simp)]
      refine h.moveOn rfl fun x hx => ?_
      rw [pc] at hx
      exact hx.wake
  | setUpFails | startFails | launchFails =>
      rw [note_of_other (by simp) (by simp), dueAfter_of_other (by simp)]
      exact h.moveOn rfl fun x _ => trivial
  | giveUp pc | finish pc =>
      rw [note_of_other (by simp) (by simp [pc]), dueAfter_of_other (by simp [pc])]
      exact h.moveOn rfl fun x _ => trivial
  | store | post =>
      rw [note_of_other (by simp) (by simp), dueAfter_of_other (by simp)]
      exact h.moveOn rfl fun x hx => hx
  | begin_ pc | arrive pc | complete pc | bindAt pc | announce pc | await pc | awaitClosed pc
  | failed pc | admission pc | refuse pc | launch pc | press pc | retryPressed pc | goOn pc =>
      rw [note_of_other (by simp) (by simp [pc]), dueAfter_of_other (by simp [pc])]
      refine h.moveOn rfl fun x hx => ?_
      rw [pc] at hx
      exact hx

end Kept

lemma kept_of_reachable (hs : (machine l).Reachable s) : s.Kept l := by
  refine hs.invariant .initial fun s act t h _ hstep => ?_
  cases act with
  | accept act =>
      obtain ⟨hdue, hstep⟩ := Option.ite_none_left_eq_some.mp hstep
      obtain ⟨a, ha, rfl⟩ := Option.map_eq_some_iff.mp hstep
      exact h.accept (fun hact => not_lt.mp fun hlt => hdue ⟨hact, hlt⟩) ha
  | pass ns =>
      cases hstep
      exact h.pass ns

lemma countP_pause_lt (n : ℕ) (xs : List Attempt) :
    (xs.countP fun x => decide (x.pause * msec < n * msec)) =
      xs.countP fun x => decide (x.pause < n) := by
  refine List.countP_congr fun x _ => ?_
  rw [decide_eq_true_iff, decide_eq_true_iff]
  exact Nat.mul_lt_mul_right (by decide)

/-- **A listener that only fails does not keep its loop busy.**  In every state of every run, of
the errors that `retry` went on from since the last successful accept, any stretch of time holds at
most one for each millisecond and the 64 free ones, and at most one shortage for each second and
the first seven. -/
theorem accept_does_not_spin (l : Listener) {s : TimedLoop} (hs : (machine l).Reachable s)
    (a T : ℕ) :
    s.attemptsIn a T ≤
      64 + 65 * (skipsOf l.platform s.attempts / 2 ^ 32) + (T / msec + 1) ∧
    s.shortagesIn l a T ≤ 7 + (T / (1000 * msec) + 1) := by
  have h := kept_of_reachable hs
  constructor
  · have hwindow := h.rested.length_window_le (show 0 < 1 * msec by decide) a T
    rw [countP_pause_lt, h.scheduled.countP_free, Nat.one_mul] at hwindow
    unfold attemptsIn
    omega
  · have hrested : Rested Attempt.time (fun x => x.pause * msec)
        (s.attempts.filter fun x => x.judged.resource l.platform) := h.rested.filter _
    have hwindow := hrested.length_window_le (show 0 < 1000 * msec by decide) a T
    rw [countP_pause_lt, h.scheduled.countP_short] at hwindow
    unfold shortagesIn
    omega

/-- An accept fails for want of descriptors, and the pause after it is over. -/
def shortageRun (ns : ℕ) : List Act :=
  List.map .accept (PacedLoop.failure .EMFILE ++ [.run (.moved false), .run .ok]) ++
    .pass ns :: List.map .accept [.expire, .dispatch, .run .ok, .run .ok, .run .ok]

/-- A process that stays out of descriptors. -/
def starvedRun : List Act :=
  List.map .accept Accept.setUpRun ++ shortageRun 10000000 ++ shortageRun 20000000 ++
    shortageRun 40000000

/-- Three attempts in 30 ms and a bit. -/
theorem accept_does_not_spin_at_starvedRun :
    ∃ s, (machine Accept.namedListener).Reachable s ∧
      s.attempts.map Attempt.time = [30000000, 10000000, 0] ∧
      s.attemptsIn 0 40000000 ≤ 64 + 65 * 0 + (40 + 1) ∧
      s.shortagesIn Accept.namedListener 0 40000000 ≤ 7 + (0 + 1) := by
  obtain ⟨s, hs, htest⟩ := (machine Accept.namedListener).exists_reachable_of_run starvedRun
    (fun s => decide (s.attempts.map Attempt.time = [30000000, 10000000, 0] ∧
      skipsOf Accept.namedListener.platform s.attempts = 0)) (by decide +kernel)
  obtain ⟨htimes, hskips⟩ := of_decide_eq_true htest
  have hrate := accept_does_not_spin Accept.namedListener hs 0 40000000
  rw [hskips] at hrate
  exact ⟨s, hs, htimes, hrate⟩

end TimedLoop

end ReactorRuntime
