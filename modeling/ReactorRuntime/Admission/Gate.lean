import Mathlib.Data.Int.Notation
import Mathlib.Tactic.NormNum
import ReactorRuntime.Library.Credit
import ReactorRuntime.Library.Progress
import ReactorRuntime.Library.Word

/-!
# The admission gate

`AdmissionGate` (`reactor.h:152-186`) bounds the requests in flight of one reactor.  `try_enter()`
adds one to `inflight` and looks at what was there before; if that was the limit already, it takes
the one back and counts a refusal.  `leave()` takes one back, and `enter()` is `try_enter()` with a
lease that calls `leave()`.

So the counter says too much for a while, and at any time it is the number of admissions held plus
the number of calls that are about to take back what they added (`gate_admits_and_gives_back`).  The
admissions stay within the limit all the same, as a call is admitted on what it saw before it added.

`inflight` is an `int`.  It does not wrap as long as the limit and the calls that are under way at
a time are fewer than `2 ^ 31` together, which is what the runs below are asked to keep to.  The
counter of refusals is 64 bits wide and does wrap (`rejected_wraps`).
-/

namespace ReactorRuntime

/-- `fetch_add(1)` of an `int`, which wraps. -/
def fetchAddInt (value : ℤ) : ℤ := if value = 2147483647 then -2147483648 else value + 1

/-- `fetch_sub(1)` of an `int`, which wraps. -/
def fetchSubInt (value : ℤ) : ℤ := if value = -2147483648 then 2147483647 else value - 1

/-- Where a call of `try_enter()`, or of `enter()`, stands. -/
inductive GatePc
  /-- Before `inflight.fetch_add(1)`; `leased` says whether it is a call of `enter()`. -/
  | add (leased : Bool)
  /-- Refused: before `inflight.fetch_sub(1)`. -/
  | sub (leased : Bool)
  /-- Refused: before `rejected.fetch_add(1)`. -/
  | count (leased : Bool)
  /-- In `enter()`: before `Lease(this)`. -/
  | lease
  /-- In `enter()`: before `Lease()`. -/
  | noLease
  /-- `try_enter()` has returned true, and the `leave()` for it was not called yet. -/
  | held
  /-- The `leave()` for it was called. -/
  | left
  /-- `enter()` has returned a lease that holds an admission. -/
  | entered
  /-- It has returned without an admission. -/
  | refused
  deriving DecidableEq, Repr

namespace GatePc

/-- It holds an admission, that no lease does. -/
@[simp] def holding : GatePc → ℕ
  | .lease => 1
  | .held => 1
  | _ => 0

/-- It was admitted. -/
@[simp] def granted : GatePc → ℕ
  | .lease => 1
  | .held => 1
  | .left => 1
  | .entered => 1
  | _ => 0

/-- It has added one that it is going to take back. -/
@[simp] def refusing : GatePc → ℕ
  | .sub _ => 1
  | _ => 0

/-- It has not added yet. -/
@[simp] def adding : GatePc → ℕ
  | .add _ => 1
  | _ => 0

/-- It has been counted in `rejected`. -/
@[simp] def counted : GatePc → ℕ
  | .noLease => 1
  | .refused => 1
  | _ => 0

/-- It was refused and has returned. -/
@[simp] def isRefused : GatePc → ℕ
  | .refused => 1
  | _ => 0

/-- It has not returned. -/
@[simp] def underWay : GatePc → ℕ
  | .add _ => 1
  | .sub _ => 1
  | .count _ => 1
  | .lease => 1
  | .noLease => 1
  | _ => 0

/-- `try_enter()` has returned true, and the `leave()` for it was not called yet. -/
@[simp] def unmatched : GatePc → ℕ
  | .held => 1
  | _ => 0

end GatePc

/-- An `AdmissionGate`, its calls and its leases. -/
structure Gate extends Credits GatePc where
  inflight : ℤ
  rejected : ℕ

namespace Gate

/-- What can happen next. -/
inductive Act
  /-- A thread calls `enter()`, if `leased`, or `try_enter()`. -/
  | call (leased : Bool)
  /-- Call `c` executes its next operation. -/
  | run (c : ℕ)
  /-- `leave()` is called for the admission of call `c`. -/
  | leave (c : ℕ)
  | lease (act : Leases.Act)
  deriving DecidableEq

def initial : Gate where
  toCredits := .initial .refused
  inflight := 0
  rejected := 0

/-- Where a call goes with the value of `inflight` it has added to. -/
def decideOn (limit : ℤ) (value : ℤ) (leased : Bool) : GatePc :=
  if limit ≤ value ∧ 0 < limit then .sub leased else if leased then .lease else .held

/-- The next operation of call `c`. -/
def runCall (limit : ℤ) (s : Gate) (c : ℕ) : GatePc → Option Gate
  | .add leased =>
      some { s with
        toCredits := s.toCredits.setPc c (decideOn limit s.inflight leased)
        inflight := fetchAddInt s.inflight }
  | .sub leased =>
      some { s with
        toCredits := s.toCredits.setPc c (.count leased)
        inflight := fetchSubInt s.inflight }
  | .count leased =>
      some { s with
        toCredits := s.toCredits.setPc c (if leased then .noLease else .refused)
        rejected := fetchAdd s.rejected }
  | .lease => some { s with toCredits := (s.toCredits.issue c).setPc c .entered }
  | .noLease =>
      some { s with
        toCredits := { s.toCredits with leases := s.leases.push .empty }.setPc c .refused }
  | _ => none

/-- One action. -/
def step (limit : ℤ) (s : Gate) : Act → Option Gate
  | .call leased => some { s with toCredits := s.toCredits.begin_ (.add leased) }
  | .run c => if c < s.calls then s.runCall limit c (s.call c).pc else none
  | .leave c =>
      if c < s.calls ∧ (s.call c).pc = .held then
        some { s with
          toCredits := (s.toCredits.refund (some c)).setPc c .left
          inflight := fetchSubInt s.inflight }
      else none
  | .lease act =>
      -- the assignment is not guarded against the object itself
      (s.toCredits.stepLeases false act).map fun r =>
        { s with
          toCredits := r.1
          inflight := if r.2.isSome then fetchSubInt s.inflight else s.inflight }

/-- The gate as a machine. -/
def machine (limit : ℤ) : Machine Gate Act where
  init := initial
  step := step limit

/-- The number of admissions held, by calls and by leases. -/
def held (s : Gate) : ℕ := s.out GatePc.holding

/-- The limit and the calls that are under way at a time are fewer than `2 ^ 31` together. -/
def Roomy (limit : ℤ) (s : Gate) (act : Act) : Prop :=
  ∀ leased, act = .call leased → limit + (s.tally GatePc.underWay + 1) < 2147483648

/-- The test of that, whatever the action is. -/
def roomy (limit : ℤ) (s : Gate) (_ : Act) : Bool :=
  decide (limit + (s.tally GatePc.underWay + 1) < 2147483648)

variable {limit : ℤ} {s t : Gate} {c : ℕ}

lemma Roomy.of_roomy (s : Gate) (act : Act) (h : roomy limit s act = true) : Roomy limit s act :=
  fun _ _ => of_decide_eq_true h

/-! ## What holds in every run -/

structure Balanced (limit : ℤ) (s : Gate) : Prop where
  conserved : s.Conserved GatePc.holding GatePc.granted
  inflight : s.inflight = s.held + s.tally GatePc.refusing
  bound : (s.held : ℤ) ≤ limit
  rejected : s.rejected = s.tally GatePc.counted % word
  room : limit + s.tally GatePc.underWay < 2147483648

namespace Balanced

lemma initial (hlimit : 0 < limit) (hlt : limit < 2147483648) : Balanced limit Gate.initial where
  conserved := .initial _
  inflight := rfl
  bound := hlimit.le
  rejected := rfl
  room := by
    show limit + 0 < _
    omega

/-- A call goes on from `p`, with what it does to the counters. -/
lemma advance (h : Balanced limit s) (hc : c < s.calls) {p pc : GatePc} (hp : (s.call c).pc = p)
    {i : ℤ} {rj : ℕ} (hgranted : pc.granted + p.holding = p.granted + pc.holding)
    (hinflight : i + (p.holding + p.refusing) = s.inflight + (pc.holding + pc.refusing))
    (hbound : (s.held + pc.holding : ℤ) ≤ limit + p.holding)
    (hrejected : ∀ n, s.rejected = (n + p.counted) % word → rj = (n + pc.counted) % word)
    (hunder : pc.underWay ≤ p.underWay) :
    Balanced limit { s with
      toCredits := s.toCredits.setPc c pc
      inflight := i
      rejected := rj } := by
  have tallied : ∀ w : GatePc → ℕ, (s.toCredits.setPc c pc).tally w + w p = s.tally w + w pc :=
    fun w => hp ▸ Credits.tally_setPc hc pc
  have hholding := tallied GatePc.holding
  have hrefusing := tallied GatePc.refusing
  have hunder' := tallied GatePc.underWay
  have hcounted := tallied GatePc.counted
  have hin := h.inflight
  have hroom := h.room
  have hheld : s.held = s.tally GatePc.holding + s.leases.weigh Hold.isFull := rfl
  have hheld' : (s.toCredits.setPc c pc).out GatePc.holding =
    (s.toCredits.setPc c pc).tally GatePc.holding + s.leases.weigh Hold.isFull := rfl
  refine ⟨h.conserved.setPc (hp ▸ hgranted), ?_, ?_, ?_, ?_⟩
  · show i = ((s.toCredits.setPc c pc).out GatePc.holding : ℕ) +
      ((s.toCredits.setPc c pc).tally GatePc.refusing : ℕ)
    omega
  · show (((s.toCredits.setPc c pc).out GatePc.holding : ℕ) : ℤ) ≤ limit
    omega
  · have hle : p.counted ≤ s.tally GatePc.counted := hp ▸ Credits.le_tally hc
    show rj = (s.toCredits.setPc c pc).tally GatePc.counted % word
    rw [hrejected (s.tally GatePc.counted - p.counted)
      (by rw [Nat.sub_add_cancel hle]; exact h.rejected)]
    congr 1
    omega
  · show limit + ((s.toCredits.setPc c pc).tally GatePc.underWay : ℕ) < _
    omega

lemma call (h : Balanced limit s) {leased : Bool}
    (hroom : limit + (s.tally GatePc.underWay + 1) < 2147483648) :
    Balanced limit { s with toCredits := s.toCredits.begin_ (.add leased) } := by
  have begun (w : GatePc → ℕ) : (s.toCredits.begin_ (.add leased)).tally w =
      s.toCredits.tally w + w (.add leased) := Credits.tally_begin
  have hheld : (s.toCredits.begin_ (.add leased)).out GatePc.holding = s.held := by
    unfold held Credits.out
    rw [begun]
    rfl
  refine ⟨h.conserved.begin_ rfl, ?_, ?_, ?_, ?_⟩
  · show s.inflight = ((s.toCredits.begin_ (.add leased)).out GatePc.holding : ℕ) +
      ((s.toCredits.begin_ (.add leased)).tally GatePc.refusing : ℕ)
    rw [hheld, begun]
    exact h.inflight
  · show (((s.toCredits.begin_ (.add leased)).out GatePc.holding : ℕ) : ℤ) ≤ limit
    rw [hheld]
    exact h.bound
  · show s.rejected = (s.toCredits.begin_ (.add leased)).tally GatePc.counted % word
    rw [begun]
    exact h.rejected
  · show limit + ((s.toCredits.begin_ (.add leased)).tally GatePc.underWay : ℕ) < _
    rw [begun]
    show limit + ((s.tally GatePc.underWay + 1 : ℕ) : ℤ) < _
    push_cast
    exact hroom

lemma inflight_lt (h : Balanced limit s) (hc : c < s.calls) {leased : Bool}
    (hpc : (s.call c).pc = .add leased) : 0 ≤ s.inflight ∧ s.inflight < 2147483647 := by
  have hunder : s.tally GatePc.refusing + s.tally GatePc.adding ≤ s.tally GatePc.underWay := by
    refine Credits.tally_add_le fun pc => ?_
    cases pc <;> simp
  have hone : GatePc.adding (s.call c).pc ≤ s.tally GatePc.adding := Credits.le_tally hc
  have hone' : GatePc.adding (s.call c).pc = 1 := by rw [hpc]; rfl
  have hin := h.inflight
  have hbound := h.bound
  have hroom := h.room
  omega

lemma inflight_nonneg (h : Balanced limit s) : 0 ≤ s.inflight := by
  have hin := h.inflight
  omega

lemma fetchSubInt_inflight (h : Balanced limit s) : fetchSubInt s.inflight = s.inflight - 1 := by
  have hnonneg := h.inflight_nonneg
  exact if_neg (by omega)

/-- A call adds one, and is admitted or not. -/
lemma add (h : Balanced limit s) (hlimit : 0 < limit) (hc : c < s.calls) {leased : Bool}
    (hpc : (s.call c).pc = .add leased) :
    Balanced limit { s with
      toCredits := s.toCredits.setPc c (decideOn limit s.inflight leased)
      inflight := fetchAddInt s.inflight } := by
  obtain ⟨hnonneg, hlt⟩ := h.inflight_lt hc hpc
  have hadd : fetchAddInt s.inflight = s.inflight + 1 := if_neg (by omega)
  have hin := h.inflight
  rw [hadd]
  unfold decideOn
  split
  · exact h.advance hc hpc rfl (by simp) (by simpa using h.bound) (fun _ hn => hn) le_rfl
  · next hnot =>
      -- what it saw was below the limit, and the admissions are no more than that
      have hfew : (s.held : ℤ) + 1 ≤ limit := by omega
      split
      · exact h.advance hc hpc rfl (by simp) (by simpa using hfew) (fun _ hn => hn) le_rfl
      · exact h.advance hc hpc rfl (by simp) (by simpa using hfew) (fun _ hn => hn) (Nat.zero_le _)

/-- The calls and leases change, and no refusal is under way or counted by that. -/
lemma rearrange (h : Balanced limit s) {k : Credits GatePc} {i : ℤ}
    (hconserved : k.Conserved GatePc.holding GatePc.granted)
    (hinflight : i + s.held = s.inflight + k.out GatePc.holding)
    (hout : k.out GatePc.holding ≤ s.held)
    (hrefusing : k.tally GatePc.refusing = s.tally GatePc.refusing)
    (hcounted : k.tally GatePc.counted = s.tally GatePc.counted)
    (hunder : k.tally GatePc.underWay ≤ s.tally GatePc.underWay) :
    Balanced limit { s with toCredits := k, inflight := i } := by
  have hin := h.inflight
  have hbound := h.bound
  have hroom := h.room
  refine ⟨hconserved, ?_, ?_, ?_, ?_⟩
  · show i = (k.out GatePc.holding : ℕ) + (k.tally GatePc.refusing : ℕ)
    omega
  · show ((k.out GatePc.holding : ℕ) : ℤ) ≤ limit
    omega
  · show s.rejected = k.tally GatePc.counted % word
    rw [hcounted]
    exact h.rejected
  · show limit + (k.tally GatePc.underWay : ℕ) < _
    omega

lemma lease (h : Balanced limit s) {guarded : Bool} {act : Leases.Act}
    {r : Credits GatePc × Option ℕ} (hstep : s.toCredits.stepLeases guarded act = some r) :
    Balanced limit { s with
      toCredits := r.1
      inflight := if r.2.isSome then fetchSubInt s.inflight else s.inflight } := by
  have hout : r.1.out GatePc.holding + r.2.isSome.toNat = s.held :=
    Credits.out_of_stepLeases h.conserved.sound hstep
  obtain ⟨-, -, htally⟩ := Credits.calls_of_stepLeases hstep
  refine h.rearrange (h.conserved.lease hstep) ?_ (by omega) (htally _) (htally _) (htally _).le
  rw [h.fetchSubInt_inflight]
  cases hr : r.2.isSome <;> simp only [hr, Bool.toNat_true, Bool.toNat_false] at hout <;> simp <;>
    omega

/-- `leave()` is called for an admission that no lease holds. -/
lemma leave (h : Balanced limit s) (hc : c < s.calls) (hpc : (s.call c).pc = .held) :
    Balanced limit { s with
      toCredits := (s.toCredits.refund (some c)).setPc c .left
      inflight := fetchSubInt s.inflight } := by
  have tallied : ∀ w : GatePc → ℕ,
      ((s.toCredits.refund (some c)).setPc c .left).tally w + w .held = s.tally w + w .left := by
    intro w
    have hset := Credits.tally_setPc (s := s.toCredits.refund (some c)) (w := w) hc .left
    rwa [Credits.refund_pc, hpc, Credits.tally_refund] at hset
  have hholding :
      ((s.toCredits.refund (some c)).setPc c .left).out GatePc.holding + 1 = s.held := by
    have hset := tallied GatePc.holding
    simp only [GatePc.holding] at hset
    show _ + s.leases.weigh Hold.isFull + 1 = s.tally GatePc.holding + s.leases.weigh Hold.isFull
    omega
  refine h.rearrange (h.conserved.giveBack (by simp [hpc]) (by simp [hpc])) ?_ (by omega)
    (tallied GatePc.refusing) (tallied GatePc.counted) (tallied GatePc.underWay).le
  rw [h.fetchSubInt_inflight]
  omega

lemma issue (h : Balanced limit s) (hc : c < s.calls) (hpc : (s.call c).pc = .lease) :
    Balanced limit { s with toCredits := (s.toCredits.issue c).setPc c .entered } := by
  have tallied : ∀ w : GatePc → ℕ,
      ((s.toCredits.issue c).setPc c .entered).tally w + w .lease = s.tally w + w .entered := by
    intro w
    have hset := Credits.tally_setPc (s := s.toCredits.issue c) (w := w) hc .entered
    rwa [show ((s.toCredits.issue c).call c).pc = .lease from hpc] at hset
  have hholding : ((s.toCredits.issue c).setPc c .entered).out GatePc.holding = s.held := by
    have hset := tallied GatePc.holding
    simp only [GatePc.holding] at hset
    have hpush : (s.leases.push (.full c)).weigh Hold.isFull = s.leases.weigh Hold.isFull + 1 :=
      Leases.weigh_push _
    show _ + (s.leases.push (.full c)).weigh Hold.isFull =
      s.tally GatePc.holding + s.leases.weigh Hold.isFull
    omega
  have hunder := tallied GatePc.underWay
  simp only [GatePc.underWay] at hunder
  exact h.rearrange (h.conserved.issue hc (by simp [hpc]) (by simp [hpc])) (by omega) (by omega)
    (tallied GatePc.refusing) (tallied GatePc.counted) (by omega)

lemma run (h : Balanced limit s) (hlimit : 0 < limit) (hc : c < s.calls)
    (hstep : s.runCall limit c (s.call c).pc = some t) : Balanced limit t := by
  cases hpc : (s.call c).pc with
  | add leased =>
      rw [hpc] at hstep
      cases hstep
      exact h.add hlimit hc hpc
  | sub leased =>
      rw [hpc] at hstep
      cases hstep
      exact h.advance hc hpc rfl (by simp [h.fetchSubInt_inflight]) (by simpa using h.bound)
        (fun _ hn => hn) le_rfl
  | count leased =>
      rw [hpc] at hstep
      cases hstep
      have hcount : ∀ n, s.rejected = (n + 0) % word → fetchAdd s.rejected = (n + 1) % word := by
        intro n hn
        rw [hn]
        exact fetchAdd_mod n
      split
      · exact h.advance hc hpc rfl (by simp) (by simpa using h.bound) hcount le_rfl
      · exact h.advance hc hpc rfl (by simp) (by simpa using h.bound) hcount (Nat.zero_le _)
  | lease =>
      rw [hpc] at hstep
      cases hstep
      exact h.issue hc hpc
  | noLease =>
      rw [hpc] at hstep
      cases hstep
      have hmake : s.toCredits.stepLeases false .make = some (_, none) := rfl
      have hmade := h.lease hmake
      exact hmade.advance hc hpc rfl (by simp) (by simpa using hmade.bound) (fun _ hn => hn)
        (Nat.zero_le _)
  | _ =>
      rw [hpc] at hstep
      cases hstep

/-- **Every step keeps the gate balanced.** -/
theorem step (h : Balanced limit s) (hlimit : 0 < limit) {act : Act} (hroom : Roomy limit s act)
    (hstep : (machine limit).step s act = some t) : Balanced limit t := by
  cases act with
  | call leased =>
      cases hstep
      exact h.call (hroom leased rfl)
  | run c =>
      obtain ⟨hc, hstep⟩ := Option.ite_none_right_eq_some.mp hstep
      exact h.run hlimit hc hstep
  | leave c =>
      obtain ⟨⟨hc, hpc⟩, hstep⟩ := Option.ite_none_right_eq_some.mp hstep
      cases hstep
      exact h.leave hc hpc
  | lease act =>
      obtain ⟨r, hr, rfl⟩ := Option.map_eq_some_iff.mp hstep
      exact h.lease hr

end Balanced

lemma balanced_of_reachable (hlimit : 0 < limit) (hlt : limit < 2147483648)
    (hs : (machine limit).ReachableUnder (Roomy limit) s) : Balanced limit s :=
  hs.invariant (I := Balanced limit) (.initial hlimit hlt)
    fun _ _ _ h hroom hstep => h.step hlimit hroom hstep

/-! ## The result -/

/-- No call is under way. -/
def Quiescent (s : Gate) : Prop := s.tally GatePc.underWay = 0

instance (s : Gate) : Decidable s.Quiescent := inferInstanceAs (Decidable (_ = _))

/-- When no call is under way, none is about to take back what it added, and who holds an admission
or was counted has returned. -/
lemma tally_of_quiescent (h : s.Quiescent) {w₁ w₂ : GatePc → ℕ}
    (hw : ∀ pc, GatePc.underWay pc = 0 → w₁ pc = w₂ pc) : s.tally w₁ = s.tally w₂ := by
  unfold Credits.tally census
  refine Finset.sum_congr rfl fun c hc => hw _ ?_
  have hle : GatePc.underWay (s.call c).pc ≤ s.tally GatePc.underWay :=
    Credits.le_tally (Finset.mem_range.mp hc)
  have hzero : s.tally GatePc.underWay = 0 := h
  omega

lemma Balanced.rejected_of_quiescent (h : Balanced limit s) (hq : s.Quiescent) :
    s.rejected = s.tally GatePc.isRefused % word := by
  have hcounted : s.tally GatePc.counted = s.tally GatePc.isRefused :=
    tally_of_quiescent hq fun pc hpc => by cases pc <;> simp_all
  rw [h.rejected, hcounted]

/-- **The gate never admits too many and gives every admission back once.**  For every limit, in
every state of every run in which the limit and the calls under way are fewer than `2 ^ 31`: the
admissions held are at most the limit; `inflight` is their number plus that of the refused calls
that have not taken back what they added; every admission is with its call, with one lease, or was
given back once; a lease that is reset or destroyed gives back its admission and is left without
one; and when no call is under way `inflight` is the number of leases that hold an admission plus
that of successful calls of `try_enter()` without their `leave()`, and `rejected` is the number of
refusals modulo `2 ^ 64`. -/
theorem gate_admits_and_gives_back (limit : ℤ) (hlimit : 0 < limit) (hlt : limit < 2147483648)
    {s : Gate} (hs : (machine limit).ReachableUnder (Roomy limit) s) :
    (s.held : ℤ) ≤ limit ∧
    s.inflight = s.held + s.tally GatePc.refusing ∧
    (∀ c < s.calls, (s.call c).refunds + (s.call c).pc.holding + s.leases.weigh (Hold.holds c) =
      (s.call c).pc.granted) ∧
    s.toCredits.Released (fun act => ((machine limit).step s (.lease act)).map Gate.toCredits) ∧
    (s.Quiescent →
      s.inflight = s.leases.weigh Hold.isFull + s.tally GatePc.unmatched ∧
      s.rejected = s.tally GatePc.isRefused % word) := by
  have h := balanced_of_reachable hlimit hlt hs
  refine ⟨h.bound, h.inflight, h.conserved.credit,
    Credits.released h.conserved.sound false fun act => ?_, fun hq => ⟨?_, ?_⟩⟩
  · simp only [machine, step, Option.map_map]
    rfl
  · have hrefusing : s.tally GatePc.refusing = s.tally fun _ => 0 :=
      tally_of_quiescent hq fun pc hpc => by cases pc <;> simp_all
    have hholding : s.tally GatePc.holding = s.tally GatePc.unmatched :=
      tally_of_quiescent hq fun pc hpc => by cases pc <;> simp_all
    have hzero : (s.tally fun _ => 0) = 0 := census_eq_zero fun _ _ => rfl
    have hheld : s.held = s.tally GatePc.holding + s.leases.weigh Hold.isFull := rfl
    have hin := h.inflight
    omega
  · exact h.rejected_of_quiescent hq

/-- Two calls of `enter()` with room for one; the lease is moved, and assigned to itself. -/
def movedRun : List Act :=
  [.call true, .call true, .run 0, .run 1, .run 0, .run 1, .run 1, .run 1,
    .lease (.moveMake 0), .lease (.moveAssign 2 2), .lease (.finish 2)]

theorem gate_admits_and_gives_back_at_movedRun :
    ∃ s : Gate, (machine 1).ReachableUnder (Roomy 1) s ∧
      (s.calls = 2 ∧ s.Quiescent ∧ s.tally GatePc.isRefused = 1) ∧
      s.inflight = s.leases.weigh Hold.isFull + s.tally GatePc.unmatched ∧
      s.rejected = 1 % word := by
  obtain ⟨s, hs, htest⟩ := (machine 1).exists_reachableUnder_of_run (roomy 1) Roomy.of_roomy
    movedRun (fun s => decide (s.calls = 2 ∧ s.Quiescent ∧ s.tally GatePc.isRefused = 1))
    (by decide +kernel)
  have hstate := of_decide_eq_true htest
  obtain ⟨hin, hrejected⟩ :=
    (gate_admits_and_gives_back 1 (by decide) (by decide) hs).2.2.2.2 hstate.2.1
  exact ⟨s, hs, hstate, hin, hstate.2.2 ▸ hrejected⟩

/-! ## The counter of refusals wraps -/

lemma step_run (hc : c < s.calls) {p : GatePc} (hpc : (s.call c).pc = p) :
    (machine limit).step s (.run c) = s.runCall limit c p := by
  simp [machine, step, hc, hpc]

/-- A call that finds the counter at the limit is refused, here with nobody in between: the
admissions held are the same all the way. -/
lemma leads_refused (hlimit : 0 < limit) (hfull : limit ≤ s.inflight)
    (hroom : Roomy limit s (.call false)) :
    ∃ t, (machine limit).LeadsUnder (fun u act => Roomy limit u act ∧ u.held = s.held) s t ∧
      s.calls < t.calls ∧ (t.call s.calls).pc = .refused ∧ t.held = s.held ∧
      t.inflight = fetchSubInt (fetchAddInt s.inflight) ∧
      ∀ w, t.tally w = s.tally w + w .refused := by
  let k₁ := s.toCredits.begin_ (.add false)
  let k₂ := k₁.setPc s.calls (.sub false)
  let k₃ := k₂.setPc s.calls (.count false)
  let k₄ := k₃.setPc s.calls .refused
  have hlt : s.calls < s.calls + 1 := Nat.lt_succ_self _
  have hpc₁ : (k₁.call s.calls).pc = .add false := congrArg Entry.pc Credits.begin_self
  have hpc₂ : (k₂.call s.calls).pc = .sub false := congrArg Entry.pc Credits.setPc_self
  have hpc₃ : (k₃.call s.calls).pc = .count false := congrArg Entry.pc Credits.setPc_self
  have hpc₄ : (k₄.call s.calls).pc = .refused := congrArg Entry.pc Credits.setPc_self
  have h₁ (w : GatePc → ℕ) : k₁.tally w = s.tally w + w (.add false) := Credits.tally_begin
  have h₂ (w : GatePc → ℕ) : k₂.tally w = s.tally w + w (.sub false) := by
    have h : k₂.tally w + _ = _ := Credits.tally_setPc (s := k₁) hlt (.sub false)
    rw [hpc₁, h₁] at h
    omega
  have h₃ (w : GatePc → ℕ) : k₃.tally w = s.tally w + w (.count false) := by
    have h : k₃.tally w + _ = _ := Credits.tally_setPc (s := k₂) hlt (.count false)
    rw [hpc₂, h₂] at h
    omega
  have h₄ (w : GatePc → ℕ) : k₄.tally w = s.tally w + w .refused := by
    have h : k₄.tally w + _ = _ := Credits.tally_setPc (s := k₃) hlt .refused
    rw [hpc₃, h₃] at h
    omega
  have held {u : Gate} (hheld : u.tally GatePc.holding = s.tally GatePc.holding)
      (hleases : u.leases = s.leases) : u.held = s.held := by
    show u.tally GatePc.holding + _ = s.tally GatePc.holding + _
    rw [hheld, hleases]
  have free {u : Gate} {c : ℕ} : Roomy limit u (.run c) := fun _ h => by cases h
  have hdecide : decideOn limit s.inflight false = .sub false := if_pos ⟨hfull, hlimit⟩
  refine ⟨{ s with
      toCredits := k₄
      inflight := fetchSubInt (fetchAddInt s.inflight)
      rejected := fetchAdd s.rejected }, ?_, hlt, hpc₄, held (h₄ _) rfl, rfl, h₄⟩
  have hbegin : (machine limit).step s (.call false) = some { s with toCredits := k₁ } := rfl
  have hadd : (machine limit).step { s with toCredits := k₁ } (.run s.calls) =
      some { s with toCredits := k₂, inflight := fetchAddInt s.inflight } := by
    refine (step_run hlt hpc₁).trans ?_
    simp only [runCall, hdecide]
    rfl
  have hsub : (machine limit).step { s with toCredits := k₂, inflight := fetchAddInt s.inflight }
      (.run s.calls) = some { s with
        toCredits := k₃, inflight := fetchSubInt (fetchAddInt s.inflight) } :=
    (step_run hlt hpc₂).trans rfl
  have hcount : (machine limit).step
      { s with toCredits := k₃, inflight := fetchSubInt (fetchAddInt s.inflight) }
      (.run s.calls) = some { s with
        toCredits := k₄
        inflight := fetchSubInt (fetchAddInt s.inflight)
        rejected := fetchAdd s.rejected } :=
    (step_run hlt hpc₃).trans rfl
  refine .andThen (.of_step ⟨hroom, rfl⟩ hbegin) ?_
  refine .andThen (.of_step ⟨free, held (h₁ _) rfl⟩ hadd) ?_
  refine .andThen (.of_step ⟨free, held (h₂ _) rfl⟩ hsub) ?_
  exact .of_step ⟨free, held (h₃ _) rfl⟩ hcount

/-- At a gate with one admission, which is taken, one more call is refused. -/
lemma refuse_once (hs : (machine 1).ReachableUnder (Roomy 1) s) (hq : s.Quiescent)
    (hin : s.inflight = 1) :
    ∃ t, (machine 1).ReachableUnder (Roomy 1) t ∧ t.Quiescent ∧ t.inflight = 1 ∧
      t.tally GatePc.isRefused = s.tally GatePc.isRefused + 1 := by
  have hroom : Roomy 1 s (.call false) := by
    intro leased _
    rw [show s.tally GatePc.underWay = 0 from hq]
    decide
  obtain ⟨t, hlead, -, -, -, hin', htally⟩ := leads_refused (by decide) hin.ge hroom
  refine ⟨t, hs.leads hlead fun _ _ hok => hok.1, (htally _).trans hq, ?_, htally _⟩
  rw [hin', hin]
  rfl

lemma exists_refusals (n : ℕ) :
    ∃ s : Gate, (machine 1).ReachableUnder (Roomy 1) s ∧ s.Quiescent ∧ s.inflight = 1 ∧
      s.tally GatePc.isRefused = n := by
  induction n with
  | zero =>
      obtain ⟨s, hs, htest⟩ := (machine 1).exists_reachableUnder_of_run (roomy 1) Roomy.of_roomy
        [.call false, .run 0]
        (fun s => decide (s.Quiescent ∧ s.inflight = 1 ∧ s.tally GatePc.isRefused = 0))
        (by decide +kernel)
      exact ⟨s, hs, of_decide_eq_true htest⟩
  | succ n ih =>
      obtain ⟨s, hs, hq, hin, hn⟩ := ih
      obtain ⟨t, ht, hq', hin', hn'⟩ := refuse_once hs hq hin
      exact ⟨t, ht, hq', hin', hn'.trans (congrArg (· + 1) hn)⟩

/-- After `2 ^ 64` refusals the counter says that there was none. -/
theorem rejected_wraps :
    ∃ s : Gate, (machine 1).ReachableUnder (Roomy 1) s ∧ s.Quiescent ∧
      s.tally GatePc.isRefused = word ∧ s.rejected = 0 := by
  obtain ⟨s, hs, hq, -, hn⟩ := exists_refusals word
  refine ⟨s, hs, hq, hn, ?_⟩
  have h := balanced_of_reachable (by decide) (by decide) hs
  rw [h.rejected_of_quiescent hq, hn, Nat.mod_self]

end Gate

end ReactorRuntime
