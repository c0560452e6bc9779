import ReactorRuntime.Admission.Gate

/-!
# What a refusal has seen

A call that is refused at the gate has found `inflight` at the limit or above.  That is the limit in
admissions if nobody else was being refused just then.  If somebody was, part of what it found may
be what that call had added and not taken back yet; and the admissions that were the reason for the
first refusal may be gone.  So a call may be refused although not a single admission is held from
its beginning to its end (`refused_at_empty_gate`).

Every refusal has seen the limit in the runs in which no call adds at such a moment; and at such a
moment there can always be one that has not (`refusal_saw_limit`).
-/

namespace ReactorRuntime

namespace GatePc

/-- It was refused. -/
def turnedAway : GatePc → Bool
  | .sub _ => true
  | .count _ => true
  | .noLease => true
  | .refused => true
  | _ => false

end GatePc

namespace Gate

variable {limit : ℤ} {s t : Gate} {c : ℕ} {past : List Gate}

/-- The counter is at the limit, and the admissions are not: what is missing are calls that were
refused and are about to take back what they added. -/
def Misleading (limit : ℤ) (s : Gate) : Prop := (s.held : ℤ) < limit ∧ limit ≤ s.inflight

instance (limit : ℤ) (s : Gate) : Decidable (s.Misleading limit) :=
  inferInstanceAs (Decidable (_ ∧ _))

/-- No call adds to a counter that misleads; and the counter does not wrap. -/
def Clear (limit : ℤ) (s : Gate) (act : Act) : Prop :=
  Roomy limit s act ∧
    ∀ c leased, act = .run c → (s.call c).pc = .add leased → ¬ s.Misleading limit

/-- The test of that, whatever the action is. -/
def clear (limit : ℤ) (s : Gate) (act : Act) : Bool :=
  roomy limit s act && !decide (s.Misleading limit)

lemma Clear.of_clear (s : Gate) (act : Act) (h : clear limit s act = true) :
    Clear limit s act := by
  obtain ⟨hroom, hclear⟩ := (Bool.and_eq_true _ _).mp h
  refine ⟨.of_roomy s act hroom, fun c leased _ _ => ?_⟩
  simpa using hclear

/-- A call that adds and is refused sees the limit, unless the counter misleads. -/
lemma held_of_refused (h : Balanced limit s) (hclear : ¬ s.Misleading limit) {leased : Bool}
    (haway : (decideOn limit s.inflight leased).turnedAway = true) : (s.held : ℤ) = limit := by
  have hbound := h.bound
  unfold decideOn at haway
  split at haway
  · next hle =>
      have hnot : ¬ (s.held : ℤ) < limit := fun hlt => hclear ⟨hlt, hle.1⟩
      omega
  · split at haway <;> cases haway

lemma turnedAway_of_runCall (hstep : s.runCall limit c (s.call c).pc = some t) {d : ℕ}
    (haway : (t.call d).pc.turnedAway = true) :
    (s.call d).pc.turnedAway = true ∨
      d = c ∧ ∃ leased, (s.call c).pc = .add leased ∧
        (decideOn limit s.inflight leased).turnedAway = true := by
  by_cases heq : d = c
  · subst heq
    cases hpc : (s.call d).pc with
    | add leased =>
        rw [hpc] at hstep
        cases hstep
        rw [Credits.setPc_self] at haway
        exact .inr ⟨rfl, leased, rfl, haway⟩
    | lease =>
        rw [hpc] at hstep
        cases hstep
        rw [Credits.setPc_self] at haway
        cases haway
    | sub leased | count leased | noLease => exact .inl rfl
    | _ =>
        rw [hpc] at hstep
        cases hstep
  · cases hpc : (s.call c).pc with
    | add leased | sub leased | count leased | lease | noLease =>
        rw [hpc] at hstep
        cases hstep
        rw [Credits.setPc_of_ne heq] at haway
        exact .inl haway
    | _ =>
        rw [hpc] at hstep
        cases hstep

lemma turnedAway_of_step {act : Act} (hstep : (machine limit).step s act = some t) {d : ℕ}
    (hd : d < t.calls) (haway : (t.call d).pc.turnedAway = true) :
    d < s.calls ∧ ((s.call d).pc.turnedAway = true ∨
      act = .run d ∧ ∃ leased, (s.call d).pc = .add leased ∧
        (decideOn limit s.inflight leased).turnedAway = true) := by
  cases act with
  | call leased =>
      cases hstep
      by_cases heq : d = s.calls
      · subst heq
        rw [Credits.begin_self] at haway
        cases haway
      · have hd : d < s.calls + 1 := hd
        rw [Credits.begin_of_ne heq] at haway
        exact ⟨by omega, .inl haway⟩
  | run c =>
      obtain ⟨hc, hstep⟩ := Option.ite_none_right_eq_some.mp hstep
      have hcalls : t.calls = s.calls := by
        cases hpc : (s.call c).pc with
        | add leased | sub leased | count leased | lease | noLease =>
            rw [hpc] at hstep
            cases hstep
            rfl
        | _ =>
            rw [hpc] at hstep
            cases hstep
      refine ⟨hcalls ▸ hd, (turnedAway_of_runCall hstep haway).imp id ?_⟩
      rintro ⟨rfl, hadd⟩
      exact ⟨rfl, hadd⟩
  | leave c =>
      obtain ⟨-, hstep⟩ := Option.ite_none_right_eq_some.mp hstep
      cases hstep
      refine ⟨hd, .inl ?_⟩
      by_cases heq : d = c
      · subst heq
        rw [Credits.setPc_self] at haway
        cases haway
      · rwa [Credits.setPc_of_ne heq, Credits.refund_of_ne heq] at haway
  | lease act =>
      obtain ⟨r, hr, rfl⟩ := Option.map_eq_some_iff.mp hstep
      obtain ⟨hcalls, hpcs, -⟩ := Credits.calls_of_stepLeases hr
      exact ⟨hcalls ▸ hd, .inl (hpcs d ▸ haway)⟩

lemma saw_limit_of_turnedAway (hlimit : 0 < limit) (hlt : limit < 2147483648)
    (hs : (machine limit).TrailUnder (Clear limit) past s) (hc : c < s.calls)
    (haway : (s.call c).pc.turnedAway = true) :
    ∃ u ∈ s :: past, c < u.calls ∧ GatePc.underWay (u.call c).pc = 1 ∧ (u.held : ℤ) = limit := by
  induction hs with
  | init => exact absurd hc (Nat.not_lt_zero _)
  | @step past s t act htrail hclear hstep ih =>
      obtain ⟨hlt', haway | ⟨rfl, leased, hpc, hrefused⟩⟩ := turnedAway_of_step hstep hc haway
      · exact Machine.Once.later (ih hlt' haway)
      · -- the moment is the one at which it adds
        have h := balanced_of_reachable hlimit hlt
          (htrail.reachableUnder.mono fun _ _ hok => hok.1)
        have hheld := held_of_refused h (hclear.2 c leased rfl hpc) hrefused
        exact Machine.Once.later (.now ⟨hlt', by rw [hpc]; rfl, hheld⟩)

/-- **Every refusal has seen the gate full.**  In every run in which no call adds while the counter
is at the limit and the admissions are below it, every call that is refused was under way at a
moment of the run at which the admissions held were the limit.  The condition is exact: at every
such moment, if there is room for one more call, one can begin and be refused with the admissions
below the limit from its beginning to its end. -/
theorem refusal_saw_limit (limit : ℤ) (hlimit : 0 < limit) (hlt : limit < 2147483648)
    {past : List Gate} {s : Gate} (hs : (machine limit).TrailUnder (Clear limit) past s) :
    (∀ c < s.calls, (s.call c).pc.turnedAway = true →
      ∃ u ∈ s :: past, c < u.calls ∧ GatePc.underWay (u.call c).pc = 1 ∧ (u.held : ℤ) = limit) ∧
    (s.Misleading limit → Roomy limit s (.call false) →
      ∃ t, (machine limit).LeadsUnder
          (fun u act => Roomy limit u act ∧ (u.held : ℤ) < limit) s t ∧
        s.calls < t.calls ∧ (t.call s.calls).pc = .refused ∧ (t.held : ℤ) < limit) := by
  refine ⟨fun c hc haway => saw_limit_of_turnedAway hlimit hlt hs hc haway, ?_⟩
  rintro ⟨hheld, hfull⟩ hroom
  obtain ⟨t, hlead, hcalls, hrefused, hsame, -⟩ := leads_refused hlimit hfull hroom
  refine ⟨t, hlead.mono fun u act hok => ⟨hok.1, ?_⟩, hcalls, hrefused, ?_⟩
  · rw [hok.2]
    exact hheld
  · rw [hsame]
    exact hheld

theorem refusal_saw_limit_at_run :
    ∃ past s, (machine 1).TrailUnder (Clear 1) past s ∧
      (s.calls = 2 ∧ (s.call 1).pc = .refused) ∧
      ∃ u ∈ s :: past, 1 < u.calls ∧ GatePc.underWay (u.call 1).pc = 1 ∧ (u.held : ℤ) = 1 := by
  obtain ⟨past, s, hs, htest⟩ := (machine 1).exists_trailUnder_of_run (clear 1) Clear.of_clear
    [.call false, .run 0, .call false, .run 1, .run 1, .run 1]
    (fun _ s => decide (s.calls = 2 ∧ (s.call 1).pc = .refused)) (by decide +kernel)
  have hstate := of_decide_eq_true htest
  refine ⟨past, s, hs, hstate, (refusal_saw_limit 1 (by decide) (by decide) hs).1 1 ?_ ?_⟩
  · rw [hstate.1]
    exact Nat.one_lt_two
  · rw [hstate.2]
    rfl

/-- The first call is admitted; the second adds, is refused, and is held up; the first leaves; the
third adds, sees what the second has added, and is refused. -/
def overlappingRun : List Act :=
  [.call false, .run 0, .call false, .run 1, .leave 0, .call false, .run 2, .run 1, .run 2, .run 2]

/-- A call is refused although no admission is held from its beginning to its end, at a gate for
one. -/
theorem refused_at_empty_gate :
    ∃ past s, (machine 1).Trail past s ∧ (s.call 2).pc = .refused ∧
      ∀ u ∈ s :: past, 2 < u.calls → u.held = 0 := by
  obtain ⟨past, s, hs, htest⟩ := (machine 1).exists_trailUnder_of_run (fun _ _ => true)
    (fun _ _ _ => trivial) overlappingRun
    (fun past s => decide ((s.call 2).pc = .refused ∧ ∀ u ∈ s :: past, 2 < u.calls → u.held = 0))
    (by decide +kernel)
  exact ⟨past, s, hs, of_decide_eq_true htest⟩

end Gate

end ReactorRuntime
