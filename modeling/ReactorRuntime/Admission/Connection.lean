import ReactorRuntime.Library.Credit
import ReactorRuntime.Library.Machine
import ReactorRuntime.Library.Word

/-!
# Connection admission

`ConnectionAdmission` (`connection_admission.h:19-92`) bounds the number of connections that are
served at a time.  `try_enter()` takes a credit, as long as fewer than `maximum` are out, and
returns a lease on it; the lease gives it back when it is reset, assigned over or destroyed.
Beside the number of credits out, `active`, there are the largest value that had, and the numbers
of entries and of refusals, which stay at the largest 64-bit number once they have come to it.

There is no lock.  Each of the four is one atomic variable, updated by a loop of
`compare_exchange_weak`, which may fail without a reason.  The machine has any number of calls of
`try_enter()`, numbered in the order in which they begin; each executes one atomic operation at a
time, together with what it does with the result up to its next one, and the calls and the
operations on leases come in any order.  A credit is named by the call that got it.
-/

namespace ReactorRuntime

/-- A bound: a `std::size_t`; the constructor throws when it is 0. -/
structure Maximum where
  val : ℕ
  pos : 0 < val
  lt : val < word

/-- Where a call of `try_enter()` stands: at an atomic operation, with the values it has read. -/
inductive EnterPc
  /-- Before `active.load()`. -/
  | load
  /-- Before `active.compare_exchange_weak(value, value + 1)`. -/
  | cas (value : ℕ)
  /-- In `increment(accepted)`, before the load. -/
  | acceptLoad (value : ℕ)
  /-- In `increment(accepted)`, before the exchange. -/
  | acceptCas (value count : ℕ)
  | highLoad (value : ℕ)
  | highCas (value high : ℕ)
  /-- Before `return Lease(state_)`. -/
  | ret
  /-- In `increment(rejected)`, before the load. -/
  | rejectLoad
  | rejectCas (count : ℕ)
  /-- It has returned a lease. -/
  | entered
  /-- It has returned `std::nullopt`. -/
  | refused
  deriving DecidableEq, Repr

namespace EnterPc

/-- It has a credit that no lease holds yet. -/
def holding : EnterPc → ℕ
  | .acceptLoad _ => 1
  | .acceptCas _ _ => 1
  | .highLoad _ => 1
  | .highCas _ _ => 1
  | .ret => 1
  | _ => 0

/-- It has got a credit. -/
def granted : EnterPc → ℕ
  | .entered => 1
  | pc => pc.holding

/-- It has been counted in `accepted`. -/
def counted : EnterPc → ℕ
  | .highLoad _ => 1
  | .highCas _ _ => 1
  | .ret => 1
  | .entered => 1
  | _ => 0

/-- It has returned a lease. -/
def isEntered : EnterPc → ℕ
  | .entered => 1
  | _ => 0

/-- It has been counted in `rejected`. -/
def declined : EnterPc → ℕ
  | .refused => 1
  | _ => 0

/-- It has found no credit left. -/
def refusing : EnterPc → Bool
  | .rejectLoad => true
  | .rejectCas _ => true
  | .refused => true
  | _ => false

/-- It has begun and has not got as far as a decision. -/
def deciding : EnterPc → Bool
  | .load => true
  | .cas _ => true
  | _ => false

/-- The value of `active` that it has brought about and not made known in `high_water`. -/
def pending : EnterPc → Option ℕ
  | .acceptLoad v => some (v + 1)
  | .acceptCas v _ => some (v + 1)
  | .highLoad v => some (v + 1)
  | .highCas v _ => some (v + 1)
  | _ => none

/-- It has returned. -/
def returned : EnterPc → Bool
  | .entered => true
  | .refused => true
  | _ => false

end EnterPc

/-- A `ConnectionAdmission`, the calls of its `try_enter()` and its leases. -/
structure Admission extends Credits EnterPc where
  active : ℕ
  highWater : ℕ
  accepted : ℕ
  rejected : ℕ

namespace Admission

/-- What can happen next. -/
inductive Act
  /-- A thread calls `try_enter()`. -/
  | enter
  /-- Call `c` executes its next operation; `ok` says whether an exchange does not fail without a
  reason. -/
  | run (c : ℕ) (ok : Bool)
  | lease (act : Leases.Act)
  deriving DecidableEq

def initial : Admission where
  toCredits := .initial .load
  active := 0
  highWater := 0
  accepted := 0
  rejected := 0

/-- Call `c` goes to `pc`. -/
def goto (s : Admission) (c : ℕ) (pc : EnterPc) : Admission :=
  { s with toCredits := s.toCredits.setPc c pc }

@[simp] lemma goto_self (s : Admission) (c : ℕ) (pc : EnterPc) :
    ((s.goto c pc).call c).pc = pc := by
  unfold goto
  rw [Credits.setPc_self]

lemma goto_of_ne (s : Admission) {c d : ℕ} (h : d ≠ c) (pc : EnterPc) :
    (s.goto c pc).call d = s.call d := Credits.setPc_of_ne h

/-- Where `try_enter()` goes with a value of `active`. -/
def decideOn (m : Maximum) (value : ℕ) : EnterPc :=
  if m.val ≤ value then .rejectLoad else .cas value

/-- Where `increment` goes with a value of its counter. -/
def countOn (count : ℕ) (cas : ℕ → EnterPc) (after : EnterPc) : EnterPc :=
  if count = wordMax then after else cas count

/-- Where the high-water loop goes with a value of `high_water`. -/
def raiseOn (value high : ℕ) : EnterPc :=
  if high < value + 1 then .highCas value high else .ret

/-- The next operation of call `c`. -/
def runCall (m : Maximum) (s : Admission) (c : ℕ) (ok : Bool) : EnterPc → Option Admission
  | .load => some (s.goto c (decideOn m s.active))
  | .cas value =>
      if ok = true ∧ s.active = value then
        some ({ s with active := value + 1 }.goto c (.acceptLoad value))
      else some (s.goto c (decideOn m s.active))
  | .acceptLoad value => some (s.goto c (countOn s.accepted (.acceptCas value) (.highLoad value)))
  | .acceptCas value count =>
      if ok = true ∧ s.accepted = count then
        some ({ s with accepted := count + 1 }.goto c (.highLoad value))
      else some (s.goto c (countOn s.accepted (.acceptCas value) (.highLoad value)))
  | .highLoad value => some (s.goto c (raiseOn value s.highWater))
  | .highCas value high =>
      if ok = true ∧ s.highWater = high then
        some ({ s with highWater := value + 1 }.goto c .ret)
      else some (s.goto c (raiseOn value s.highWater))
  | .ret => some ({ s with toCredits := s.toCredits.issue c }.goto c .entered)
  | .rejectLoad => some (s.goto c (countOn s.rejected .rejectCas .refused))
  | .rejectCas count =>
      if ok = true ∧ s.rejected = count then
        some ({ s with rejected := count + 1 }.goto c .refused)
      else some (s.goto c (countOn s.rejected .rejectCas .refused))
  | .entered => none
  | .refused => none

/-- One action. -/
def step (m : Maximum) (s : Admission) : Act → Option Admission
  | .enter => some { s with toCredits := s.toCredits.begin_ .load }
  | .run c ok => if c < s.calls then s.runCall m c ok (s.call c).pc else none
  | .lease act =>
      -- the assignment is guarded by `this != &other`
      (s.toCredits.stepLeases true act).map fun r =>
        { s with
          toCredits := r.1
          active := if r.2.isSome then fetchSub s.active else s.active }

/-- Connection admission as a machine. -/
def machine (m : Maximum) : Machine Admission Act where
  init := initial
  step := step m

/-! ## What a call can do -/

/-- The next operation of call `c`, by what comes of it. -/
inductive Runs (m : Maximum) (s : Admission) (c : ℕ) : Admission → Prop
  /-- It has read `active`, by the load or by an exchange that failed. -/
  | look (h : (s.call c).pc.deciding = true) : Runs m s c (s.goto c (decideOn m s.active))
  | grant (h : (s.call c).pc = .cas s.active) :
      Runs m s c ({ s with active := s.active + 1 }.goto c (.acceptLoad s.active))
  | count (value : ℕ)
      (h : (s.call c).pc = .acceptLoad value ∨ ∃ n, (s.call c).pc = .acceptCas value n) :
      Runs m s c (s.goto c (countOn s.accepted (.acceptCas value) (.highLoad value)))
  | counted (value : ℕ) (h : (s.call c).pc = .acceptCas value s.accepted) :
      Runs m s c ({ s with accepted := s.accepted + 1 }.goto c (.highLoad value))
  | raise (value : ℕ)
      (h : (s.call c).pc = .highLoad value ∨ ∃ n, (s.call c).pc = .highCas value n) :
      Runs m s c (s.goto c (raiseOn value s.highWater))
  | raised (value : ℕ) (h : (s.call c).pc = .highCas value s.highWater) :
      Runs m s c ({ s with highWater := value + 1 }.goto c .ret)
  | issue (h : (s.call c).pc = .ret) :
      Runs m s c ({ s with toCredits := s.toCredits.issue c }.goto c .entered)
  | decline (h : (s.call c).pc = .rejectLoad ∨ ∃ n, (s.call c).pc = .rejectCas n) :
      Runs m s c (s.goto c (countOn s.rejected .rejectCas .refused))
  | declined (h : (s.call c).pc = .rejectCas s.rejected) :
      Runs m s c ({ s with rejected := s.rejected + 1 }.goto c .refused)

lemma runs_of_runCall {m : Maximum} {s t : Admission} {c : ℕ} {ok : Bool}
    (h : s.runCall m c ok (s.call c).pc = some t) : Runs m s c t := by
  cases hpc : (s.call c).pc with
  | load =>
      rw [hpc] at h
      cases h
      exact .look (by rw [hpc]; rfl)
  | cas value =>
      rw [hpc, runCall] at h
      split at h <;> cases h
      · next hcas => exact hcas.2 ▸ .grant (hcas.2 ▸ hpc)
      · exact .look (by rw [hpc]; rfl)
  | acceptLoad value =>
      rw [hpc] at h
      cases h
      exact .count value (.inl hpc)
  | acceptCas value n =>
      rw [hpc, runCall] at h
      split at h <;> cases h
      · next hcas => exact hcas.2 ▸ .counted value (hcas.2 ▸ hpc)
      · exact .count value (.inr ⟨n, hpc⟩)
  | highLoad value =>
      rw [hpc] at h
      cases h
      exact .raise value (.inl hpc)
  | highCas value n =>
      rw [hpc, runCall] at h
      split at h <;> cases h
      · next hcas => exact .raised value (hcas.2 ▸ hpc)
      · exact .raise value (.inr ⟨n, hpc⟩)
  | ret =>
      rw [hpc] at h
      cases h
      exact .issue hpc
  | rejectLoad =>
      rw [hpc] at h
      cases h
      exact .decline (.inl hpc)
  | rejectCas n =>
      rw [hpc, runCall] at h
      split at h <;> cases h
      · next hcas => exact hcas.2 ▸ .declined (hcas.2 ▸ hpc)
      · exact .decline (.inr ⟨n, hpc⟩)
  | entered | refused =>
      rw [hpc] at h
      cases h

end Admission

end ReactorRuntime
