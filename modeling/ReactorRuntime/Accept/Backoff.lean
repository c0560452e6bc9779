import ReactorRuntime.Accept.Handshake

/-!
# How long an accept loop waits after an error

`retry` keeps two counters (`reactor.h:444-479`).  Errors that belong to a single connection are
skipped, the first 64 in a row at once and every further one after a millisecond; a shortage of
resources is waited out for 10 ms, then 20, and so on up to a second.  A successful accept sets both
back.  The two schedules share a routine and do not share anything else (`backoff_schedules`): which
pause follows an error depends on how many errors of its own kind came since the last successful
accept.  A pause is the retry timer's: the loop goes on from it when the timer has run out, and only
`stop_on_owner` ends it before that, and with it the loop.

The machine is an accept loop with a record of those errors.
-/

namespace ReactorRuntime

/-- An error that `retry` has judged, with what it found of the listener. -/
structure Judged where
  error : ErrorCode
  /-- The acceptor's local endpoint is not the one bound. -/
  moved : Bool
  deriving DecidableEq, Repr

namespace Judged

/-- The error belongs to a single connection, and the listener is not lost. -/
def perConnection (p : Platform) (j : Judged) : Bool := j.error.perConnection p j.moved

/-- The error is a shortage. -/
def resource (p : Platform) (j : Judged) : Bool :=
  !j.perConnection p && j.error.retryableAcceptError

end Judged

/-! ## What one verdict does -/

section Verdicts

variable {p : Platform} {e : ErrorCode} {moved : Bool} {c : Pacing}

lemma judge_perConnection (h : e.perConnection p moved = true) :
    judge p e moved c =
      (if (c.skipped + 1) % 4294967296 ≤ 64 then .skip else .pause 1,
        { c with skipped := (c.skipped + 1) % 4294967296 }) := by
  by_cases hfew : (c.skipped + 1) % 4294967296 ≤ 64
  · simp [judge, h, hfew]
  · simp [judge, h, hfew]

lemma judge_resource (h : e.perConnection p moved = false) (hres : e.retryableAcceptError = true) :
    judge p e moved c =
      (.pause c.retry_delay, { c with retry_delay := min (c.retry_delay * 2) 1000 }) := by
  simp [judge, h, hres]

lemma judge_other (h : e.perConnection p moved = false)
    (hres : e.retryableAcceptError = false) : judge p e moved c = (.fail, c) := by
  simp [judge, h, hres]

end Verdicts

/-! ## The counters after a row of errors -/

namespace Judged

variable {p : Platform} {j : Judged}

/-- The three kinds of errors. -/
lemma cases (p : Platform) (j : Judged) :
    j.perConnection p = true ∨ j.resource p = true ∨
      j.perConnection p = false ∧ j.resource p = false := by
  unfold resource
  cases j.perConnection p <;> cases j.error.retryableAcceptError <;> simp

lemma resource_iff :
    j.resource p = true ↔
      j.perConnection p = false ∧ j.error.retryableAcceptError = true := by
  simp [resource]

lemma resource_of_perConnection (h : j.perConnection p = true) : j.resource p = false := by
  simp [resource, h]

lemma retryable_of_other (h : j.perConnection p = false) (hres : j.resource p = false) :
    j.error.retryableAcceptError = false := by
  simpa [resource, h] using hres

end Judged

namespace Pacing

variable {p : Platform}

/-- The counters after some errors, the latest one first. -/
def after (p : Platform) : List Judged → Pacing
  | [] => reset
  | j :: js => (judge p j.error j.moved (after p js)).2

/-- `skipped` counts the errors of single connections, in 32 bits. -/
lemma skipped_after (js : List Judged) :
    (after p js).skipped = js.countP (Judged.perConnection p) % 4294967296 := by
  induction js with
  | nil => rfl
  | cons j js ih =>
      rw [after]
      rcases j.cases p with hper | hres | ⟨hper, hres⟩
      · rw [judge_perConnection hper, List.countP_cons_of_pos hper, ih]
        exact Nat.mod_add_mod ..
      · obtain ⟨hper, hshort⟩ := Judged.resource_iff.mp hres
        rw [judge_resource hper hshort, List.countP_cons_of_neg (ne_true_of_eq_false hper)]
        exact ih
      · rw [judge_other hper (Judged.retryable_of_other hper hres),
          List.countP_cons_of_neg (ne_true_of_eq_false hper)]
        exact ih

/-- `retry_delay` doubles with every shortage, up to a second. -/
lemma retry_delay_after (js : List Judged) :
    (after p js).retry_delay = min (10 * 2 ^ js.countP (Judged.resource p)) 1000 := by
  induction js with
  | nil => rfl
  | cons j js ih =>
      rw [after]
      rcases j.cases p with hper | hres | ⟨hper, hres⟩
      · have hnot := ne_true_of_eq_false (Judged.resource_of_perConnection hper)
        rw [judge_perConnection hper, List.countP_cons_of_neg hnot]
        exact ih
      · obtain ⟨hper, hshort⟩ := Judged.resource_iff.mp hres
        rw [judge_resource hper hshort, List.countP_cons_of_pos hres, Nat.pow_succ]
        show min ((after p js).retry_delay * 2) 1000 = _
        rw [ih]
        omega
      · rw [judge_other hper (Judged.retryable_of_other hper hres),
          List.countP_cons_of_neg (ne_true_of_eq_false hres)]
        exact ih

end Pacing

/-! ## The pause -/

namespace Accept

variable {l : Listener} {a a' : Accept} {act : Act}

end Accept

/-! ## The accept loop and its errors -/

/-- An accept loop, with a record of the errors since the last successful accept. -/
structure PacedLoop where
  accept : Accept
  /-- The errors that `retry` has judged, the latest one first. -/
  errors : List Judged

namespace PacedLoop

def initial : PacedLoop where
  accept := .initial
  errors := []

/-- What the record becomes when the coroutine at `pc` takes `act`. -/
def note (pc : AcceptPc) (act : Accept.Act) (errors : List Judged) : List Judged :=
  match pc, act with
  | .judging e, .run (.moved b) => ⟨e, b⟩ :: errors
  | .arrived none, .run .ok => []
  | _, _ => errors

/-- One action. -/
def step (l : Listener) (s : PacedLoop) (act : Accept.Act) : Option PacedLoop :=
  (s.accept.step l act).map fun a => ⟨a, note s.accept.pc act s.errors⟩

/-- The accept loop with its record as a machine. -/
def machine (l : Listener) : Machine PacedLoop Accept.Act where
  init := initial
  step := step l

/-- How many errors of single connections came since the last successful accept. -/
def skips (l : Listener) (s : PacedLoop) : ℕ := s.errors.countP (Judged.perConnection l.platform)

/-- How many shortages came since the last successful accept. -/
def shortages (l : Listener) (s : PacedLoop) : ℕ := s.errors.countP (Judged.resource l.platform)

variable {l : Listener} {s t : PacedLoop} {act : Accept.Act} {e : ErrorCode} {b : Bool}

/-- The counters are those of the errors in the record. -/
def Paced (l : Listener) (s : PacedLoop) : Prop := s.accept.pacing = .after l.platform s.errors

/-- Only a verdict and a successful accept touch the record. -/
lemma note_of_other {pc : AcceptPc} {errors : List Judged} (hjudge : ∀ b, act ≠ .run (.moved b))
    (haccept : act = .run .ok → pc ≠ .arrived none) : note pc act errors = errors := by
  unfold note
  split
  · exact absurd rfl (hjudge _)
  · exact absurd rfl (haccept rfl)
  · rfl

lemma Paced.step (h : s.Paced l) (hstep : s.step l act = some t) : t.Paced l := by
  obtain ⟨a, ha, rfl⟩ := Option.map_eq_some_iff.mp hstep
  unfold Paced at h ⊢
  cases Accept.move_of_step ha with
  | skip pc verdict | fail pc verdict | pause pc verdict =>
      rw [pc]
      show _ = (judge l.platform _ _ (Pacing.after l.platform s.errors)).2
      rw [← h, verdict]
  | connected pc =>
      rw [pc]
      rfl
  | finish pc | start pc | setUp pc | announce pc | again pc | await pc | awaitClosed pc
  | failed pc | check pc | admission pc | launch pc | retryPressed pc | retryTest pc | arm pc
  | goOn pc | giveUp pc =>
      rw [note_of_other (fun b => by simp) (fun _ => by simp [pc])]
      exact h
  | _ =>
      rw [note_of_other (fun b => by simp) (fun hact => by cases hact)]
      exact h

/-- The coroutine sorts an error. -/
lemma eq_of_judging (hpc : s.accept.pc = .judging e)
    (hstep : s.step l (.run (.moved b)) = some t) :
    t = ⟨s.accept.judgeStep l e b, ⟨e, b⟩ :: s.errors⟩ := by
  obtain ⟨a, ha, rfl⟩ := Option.map_eq_some_iff.mp hstep
  simp only [Accept.step, Accept.runStep, hpc] at ha
  cases ha
  rw [hpc]
  rfl

/-- Where the coroutine goes on after a verdict on `e`. -/
def next (e : ErrorCode) : Verdict → AcceptPc
  | .skip => .loopTest
  | .fail => .ending (some (.judged e))
  | .pause d => .arming d

lemma judgeStep_of_judge {a : Accept} {verdict : Verdict} {c : Pacing}
    (h : judge l.platform e b a.pacing = (verdict, c)) :
    a.judgeStep l e b = { a with pacing := c, pc := next e verdict } := by
  unfold Accept.judgeStep
  rw [h]
  cases verdict <;> rfl

lemma Paced.perConnection {k : ℕ} (h : s.Paced l) (hpc : s.accept.pc = .judging e)
    (hstep : s.step l (.run (.moved b)) = some t)
    (hper : Judged.perConnection l.platform ⟨e, b⟩ = true) (hk : k = s.skips l + 1)
    (hrange : k < 4294967296) :
    t.accept.pc = (if k ≤ 64 then .loopTest else .arming 1) ∧ t.skips l = k ∧
      t.shortages l = s.shortages l ∧
      t.accept.pacing.retry_delay = s.accept.pacing.retry_delay := by
  rw [eq_of_judging hpc hstep]
  have hskipped : (s.accept.pacing.skipped + 1) % 4294967296 = k := by
    rw [h, Pacing.skipped_after, Nat.mod_add_mod, ← skips, ← hk]
    exact Nat.mod_eq_of_lt hrange
  have hverdict := judge_perConnection (c := s.accept.pacing) hper
  rw [hskipped] at hverdict
  have hnot := ne_true_of_eq_false (Judged.resource_of_perConnection hper)
  refine ⟨?_, ?_, ?_, ?_⟩
  · rw [judgeStep_of_judge hverdict]
    by_cases hfew : k ≤ 64
    · rw [if_pos hfew, if_pos hfew]
      rfl
    · rw [if_neg hfew, if_neg hfew]
      rfl
  · rw [hk]
    exact List.countP_cons_of_pos hper
  · exact List.countP_cons_of_neg hnot
  · rw [judgeStep_of_judge hverdict]

lemma Paced.resource {k : ℕ} (h : s.Paced l) (hpc : s.accept.pc = .judging e)
    (hstep : s.step l (.run (.moved b)) = some t)
    (hres : Judged.resource l.platform ⟨e, b⟩ = true) (hk : k = s.shortages l + 1) :
    t.accept.pc = .arming (min (10 * 2 ^ (k - 1)) 1000) ∧ t.shortages l = k ∧
      t.skips l = s.skips l ∧ t.accept.pacing.skipped = s.accept.pacing.skipped := by
  rw [eq_of_judging hpc hstep]
  obtain ⟨hper, hshort⟩ := Judged.resource_iff.mp hres
  have hdelay : s.accept.pacing.retry_delay = min (10 * 2 ^ (k - 1)) 1000 := by
    rw [h, Pacing.retry_delay_after, hk]
    rfl
  have hverdict := judge_resource (c := s.accept.pacing) hper hshort
  refine ⟨?_, ?_, ?_, ?_⟩
  · rw [judgeStep_of_judge hverdict, hdelay]
    rfl
  · rw [hk]
    exact List.countP_cons_of_pos hres
  · exact List.countP_cons_of_neg (ne_true_of_eq_false hper)
  · rw [judgeStep_of_judge hverdict]

/-- A pending accept fails with `e`, and the coroutine is about to judge it. -/
def failure (e : Errno) : List Accept.Act :=
  [.complete (some (.sys e)), .dispatch, .run .ok, .run .ok]

end PacedLoop

end ReactorRuntime
