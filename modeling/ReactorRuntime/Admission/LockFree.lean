import ReactorRuntime.Admission.Exact
import ReactorRuntime.Library.Progress

/-!
# No call of `try_enter()` holds the others up

`try_enter()` goes through up to three loops of `compare_exchange_weak`, each on an atomic variable
that other calls, and in the case of `active` the leases, change at the same time.  An exchange
that fails has to be made again.  But it fails only if its variable has changed since the call has
read it, or without a reason; and a call changes a variable once and is then done with its loop.  So
the failures are paid for by what others have got done.

The potential `work` makes that a bound for whole runs.  Where at most `N` calls are under way at a
time, a call brings at most `3 * N + 8` atomic operations with it, a step of a lease `N`, and a
failure without a reason one (`try_enter_lock_free`).  In particular the calls that are under way
return whatever the order in which they are scheduled is, if no new ones come.
-/

namespace ReactorRuntime

namespace EnterPc

/-- The call is under way. -/
def busy : EnterPc → ℕ
  | .entered => 0
  | .refused => 0
  | _ => 1

end EnterPc

namespace Admission

/-- The value that was read is not the present one, so an exchange will fail. -/
def stale (now seen : ℕ) : ℕ := if now = seen then 0 else 1

/-- How many operations a call at its place may have to make yet: for each variable it is going to
change, as many as others may have to repeat for that, and its own. -/
def rank (N : ℕ) (s : Admission) : EnterPc → ℕ
  | .load => 3 * (N + 2) + 2
  | .cas value => 3 * (N + 2) + 1 + stale s.active value
  | .acceptLoad _ => 2 * (N + 2) + 2
  | .acceptCas _ count => 2 * (N + 2) + 1 + stale s.accepted count
  | .highLoad _ => (N + 2) + 2
  | .highCas _ high => (N + 2) + 1 + stale s.highWater high
  | .ret => 1
  | .rejectLoad => (N + 2) + 2
  | .rejectCas count => (N + 2) + 1 + stale s.rejected count
  | .entered => 0
  | .refused => 0

/-- How many calls are under way. -/
def contention (s : Admission) : ℕ := s.tally EnterPc.busy

/-- The potential. -/
def work (N : ℕ) (s : Admission) : ℕ := s.tally (rank N s)

/-- A new call begins only where there are fewer than `N`. -/
def calm (N : ℕ) (s : Admission) : Act → Bool
  | .enter => decide (s.contention < N)
  | _ => true

/-- An operation of a call. -/
def Act.cost : Act → ℕ
  | .run _ _ => 1
  | _ => 0

/-- How many operations an action may bring about. -/
def Act.allowance (N : ℕ) : Act → ℕ
  | .enter => 3 * N + 8
  | .run _ ok => if ok then 0 else 1
  | .lease _ => N

variable {m : Maximum} {N : ℕ} {s t : Admission} {c : ℕ} {ok : Bool}

/-! ## What one operation costs -/

lemma stale_self (v : ℕ) : stale v v = 0 := if_pos rfl

lemma stale_le (now seen : ℕ) : stale now seen ≤ 1 := by
  unfold stale
  split <;> omega

/-- An exchange that has failed was stale, or has failed without a reason. -/
lemma one_le_stale {now seen : ℕ} (h : ¬(ok = true ∧ now = seen)) :
    1 ≤ stale now seen + (Act.run c ok).allowance N := by
  cases ok with
  | true =>
      have hne : now ≠ seen := fun heq => h ⟨rfl, heq⟩
      simp [stale, hne]
  | false => simp [Act.allowance]

/-- Whatever others do, a call has one operation more to make at most. -/
lemma rank_le (s t : Admission) (pc : EnterPc) : rank N t pc ≤ rank N s pc + pc.busy := by
  cases pc with
  | cas value =>
      have := stale_le t.active value
      simp only [rank, EnterPc.busy]
      omega
  | acceptCas value count =>
      have := stale_le t.accepted count
      simp only [rank, EnterPc.busy]
      omega
  | highCas value high =>
      have := stale_le t.highWater high
      simp only [rank, EnterPc.busy]
      omega
  | rejectCas count =>
      have := stale_le t.rejected count
      simp only [rank, EnterPc.busy]
      omega
  | _ => simp [rank]

lemma rank_decideOn : rank N s (decideOn m s.active) ≤ 3 * (N + 2) + 1 := by
  unfold decideOn
  split
  · simp only [rank]
    omega
  · simp only [rank, stale_self]
    omega

lemma rank_countOn_accepted (value : ℕ) :
    rank N s (countOn s.accepted (.acceptCas value) (.highLoad value)) ≤ 2 * (N + 2) + 1 := by
  unfold countOn
  split
  · simp only [rank]
    omega
  · simp only [rank, stale_self]
    omega

lemma rank_raiseOn (value : ℕ) : rank N s (raiseOn value s.highWater) ≤ (N + 2) + 1 := by
  unfold raiseOn
  split
  · simp only [rank, stale_self]
    omega
  · simp only [rank]
    omega

lemma rank_countOn_rejected :
    rank N s (countOn s.rejected .rejectCas .refused) ≤ (N + 2) + 1 := by
  unfold countOn
  split
  · simp only [rank]
    omega
  · simp only [rank, stale_self]
    omega

lemma work_goto {pc : EnterPc} {n : ℕ} (hc : c < s.calls)
    (hrank : rank N s pc + 1 ≤ rank N s (s.call c).pc + n) :
    work N (s.goto c pc) + 1 ≤ work N s + n := by
  have hset := Credits.tally_setPc (w := rank N s) hc pc
  have hwork : work N (s.goto c pc) = (s.toCredits.setPc c pc).tally (rank N s) := rfl
  unfold work at hwork ⊢
  omega

/-- A call goes on and changes a variable, so that the others may have to repeat an operation. -/
lemma work_goto_of_change {pc : EnterPc} (hc : c < s.calls) (hN : s.contention ≤ N)
    (ht : t.toCredits = s.toCredits)
    (hrank : rank N t pc + N + 1 ≤ rank N t (s.call c).pc) :
    work N (t.goto c pc) + 1 ≤ work N s := by
  have hset := Credits.tally_setPc (w := rank N t) hc pc
  have hrise : s.tally (rank N t) ≤ s.tally (rank N s) + s.tally EnterPc.busy :=
    Credits.tally_le_add fun pc => rank_le s t pc
  have hwork : work N (t.goto c pc) = (s.toCredits.setPc c pc).tally (rank N t) := by
    rw [← ht]
    rfl
  unfold contention at hN
  unfold work at hwork ⊢
  omega

/-- **An operation is paid for by the fall of the potential**, unless it has failed without a
reason. -/
theorem work_of_runCall (hc : c < s.calls) (hN : s.contention ≤ N)
    (h : s.runCall m c ok (s.call c).pc = some t) :
    work N t + 1 ≤ work N s + (Act.run c ok).allowance N := by
  cases hpc : (s.call c).pc with
  | load =>
      rw [hpc] at h
      cases h
      refine work_goto hc ?_
      have := rank_decideOn (m := m) (N := N) (s := s)
      rw [hpc, rank]
      omega
  | cas value =>
      rw [hpc, runCall] at h
      split at h
      · cases h
        refine Nat.le_add_right_of_le (work_goto_of_change hc hN rfl ?_)
        rw [hpc]
        simp only [rank]
        omega
      · next hfails =>
          cases h
          refine work_goto hc ?_
          have := rank_decideOn (m := m) (N := N) (s := s)
          have := one_le_stale (c := c) (N := N) hfails
          rw [hpc, rank]
          omega
  | acceptLoad value =>
      rw [hpc] at h
      cases h
      refine work_goto hc ?_
      have := rank_countOn_accepted (N := N) (s := s) value
      rw [hpc, rank]
      omega
  | acceptCas value count =>
      rw [hpc, runCall] at h
      split at h
      · cases h
        refine Nat.le_add_right_of_le (work_goto_of_change hc hN rfl ?_)
        rw [hpc]
        simp only [rank]
        omega
      · next hfails =>
          cases h
          refine work_goto hc ?_
          have := rank_countOn_accepted (N := N) (s := s) value
          have := one_le_stale (c := c) (N := N) hfails
          rw [hpc, rank]
          omega
  | highLoad value =>
      rw [hpc] at h
      cases h
      refine work_goto hc ?_
      have := rank_raiseOn (N := N) (s := s) value
      rw [hpc, rank]
      omega
  | highCas value high =>
      rw [hpc, runCall] at h
      split at h
      · cases h
        refine Nat.le_add_right_of_le (work_goto_of_change hc hN rfl ?_)
        rw [hpc]
        simp only [rank]
        omega
      · next hfails =>
          cases h
          refine work_goto hc ?_
          have := rank_raiseOn (N := N) (s := s) value
          have := one_le_stale (c := c) (N := N) hfails
          rw [hpc, rank]
          omega
  | ret =>
      rw [hpc] at h
      cases h
      have hfall : work N (s.goto c .entered) + 1 ≤ work N s + 0 :=
        work_goto hc (by rw [hpc]; simp [rank])
      exact Nat.le_add_right_of_le hfall
  | rejectLoad =>
      rw [hpc] at h
      cases h
      refine work_goto hc ?_
      have := rank_countOn_rejected (N := N) (s := s)
      rw [hpc, rank]
      omega
  | rejectCas count =>
      rw [hpc, runCall] at h
      split at h
      · cases h
        refine Nat.le_add_right_of_le (work_goto_of_change hc hN rfl ?_)
        rw [hpc]
        simp only [rank]
        omega
      · next hfails =>
          cases h
          refine work_goto hc ?_
          have := rank_countOn_rejected (N := N) (s := s)
          have := one_le_stale (c := c) (N := N) hfails
          rw [hpc, rank]
          omega
  | entered | refused =>
      rw [hpc] at h
      cases h

/-! ## What a run costs -/

lemma busy_le (pc : EnterPc) : pc.busy ≤ 1 := by
  cases pc <;> simp [EnterPc.busy]

lemma contention_goto {u : Admission} {pc : EnterPc} (hc : c < s.calls)
    (hbusy : (s.call c).pc.busy = 1) (hcalls : u.calls = s.calls) (hcall : u.call = s.call) :
    (u.goto c pc).contention ≤ s.contention := by
  have hsame : u.tally EnterPc.busy = s.tally EnterPc.busy := by
    unfold Credits.tally
    rw [hcalls, hcall]
  have hset := Credits.tally_setPc (s := u.toCredits) (w := EnterPc.busy) (hcalls ▸ hc) pc
  have hle := busy_le pc
  rw [hcall, hbusy, hsame] at hset
  show (u.toCredits.setPc c pc).tally EnterPc.busy ≤ s.tally EnterPc.busy
  omega

lemma contention_of_runCall (hc : c < s.calls) (h : s.runCall m c ok (s.call c).pc = some t) :
    t.contention ≤ s.contention := by
  cases runs_of_runCall h with
  | look hpc =>
      refine contention_goto hc ?_ rfl rfl
      cases hcall : (s.call c).pc <;> simp_all [EnterPc.deciding, EnterPc.busy]
  | grant hpc => exact contention_goto hc (by rw [hpc]; rfl) rfl rfl
  | count value hpc | raise value hpc =>
      refine contention_goto hc ?_ rfl rfl
      rcases hpc with hpc | ⟨n, hpc⟩ <;> rw [hpc] <;> rfl
  | counted value hpc | raised value hpc =>
      exact contention_goto hc (by rw [hpc]; rfl) rfl rfl
  | issue hpc | declined hpc => exact contention_goto hc (by rw [hpc]; rfl) rfl rfl
  | decline hpc =>
      refine contention_goto hc ?_ rfl rfl
      rcases hpc with hpc | ⟨n, hpc⟩ <;> rw [hpc] <;> rfl

lemma tally_of_stepLeases {act : Leases.Act} {r : Credits EnterPc × Option ℕ} (w : EnterPc → ℕ)
    (h : s.stepLeases true act = some r) : r.1.tally w = s.tally w := by
  obtain ⟨r', -, rfl⟩ := Option.map_eq_some_iff.mp h
  exact Credits.tally_refund _

/-- **One action is paid for.** -/
theorem work_of_step {act : Act} (hN : s.contention ≤ N) (hcalm : s.calm N act = true)
    (hstep : s.step m act = some t) :
    t.contention ≤ N ∧ work N t + act.cost ≤ work N s + act.allowance N := by
  cases act with
  | enter =>
      cases hstep
      have hfew : s.contention < N := of_decide_eq_true hcalm
      have hbusy : (s.toCredits.begin_ .load).tally EnterPc.busy = s.contention + 1 :=
        Credits.tally_begin
      have hrank : (s.toCredits.begin_ .load).tally (rank N s) = work N s + (3 * (N + 2) + 2) :=
        Credits.tally_begin
      exact ⟨hbusy.trans_le hfew, hrank.trans_le (by simp only [Act.allowance]; omega)⟩
  | run c ok =>
      obtain ⟨hc, hstep⟩ := Option.ite_none_right_eq_some.mp hstep
      exact ⟨(contention_of_runCall hc hstep).trans hN, work_of_runCall hc hN hstep⟩
  | lease act =>
      obtain ⟨r, hr, ht⟩ := Option.map_eq_some_iff.mp hstep
      have htally : ∀ w, t.tally w = s.tally w := fun w => by
        rw [← ht]
        exact tally_of_stepLeases w hr
      have hrise : s.tally (rank N t) ≤ s.tally (rank N s) + s.tally EnterPc.busy :=
        Credits.tally_le_add fun pc => rank_le s t pc
      unfold contention work at *
      rw [htally, htally]
      exact ⟨hN, hrise.trans (Nat.add_le_add_left hN _)⟩

lemma exists_runCall (hpc : (s.call c).pc.returned = false) :
    ∃ u, s.runCall m c true (s.call c).pc = some u := by
  cases hcall : (s.call c).pc with
  | entered | refused =>
      rw [hcall] at hpc
      cases hpc
  | cas | acceptCas | highCas | rejectCas =>
      rw [runCall]
      split
      · exact ⟨_, rfl⟩
      · exact ⟨_, rfl⟩
  | _ => exact ⟨_, rfl⟩

/-- **`try_enter()` is lock-free.**  In every run in which at most `N` calls are under way at a
time, and in every order of their steps: the atomic operations that are executed are not more than
`3 * N + 8` for each call, `N` for each step of a lease, and one for each exchange that fails
without a reason; and no call ever has to wait for another one to take its next operation. -/
theorem try_enter_lock_free (m : Maximum) (N : ℕ) {acts : List Act} {t : Admission}
    (h : (machine m).runUnder (calm N) initial acts = some t) :
    (acts.map Act.cost).sum ≤ (acts.map (Act.allowance N)).sum ∧
      ∀ c < t.calls, (t.call c).pc.returned = false →
        ∃ u, (machine m).step t (.run c true) = some u := by
  constructor
  · have hcontention : initial.contention = 0 := rfl
    have hwork : work N initial = 0 := rfl
    have hpaid := Machine.sum_cost_le_of_potential (M := machine m)
      (I := fun s => s.contention ≤ N) (work N) Act.cost (Act.allowance N)
      (fun s act t hN hcalm hstep => work_of_step hN hcalm hstep)
      (hcontention.trans_le (Nat.zero_le N)) h
    omega
  · intro c hc hpc
    obtain ⟨u, hu⟩ := exists_runCall (m := m) (c := c) hpc
    exact ⟨u, (if_pos hc).trans hu⟩

/-- Two calls under way are allowed 28 operations. -/
theorem try_enter_lock_free_at_contendedRun :
    ∃ t, (machine single).runUnder (calm 2) initial contendedRun = some t ∧
      (t.call 0).pc = .entered ∧ (t.call 1).pc = .refused ∧
      (contendedRun.map Act.cost).sum ≤ 28 := by
  have hrun : ((machine single).runUnder (calm 2) initial contendedRun).any (fun t =>
      decide ((t.call 0).pc = .entered ∧ (t.call 1).pc = .refused)) = true := by
    decide +kernel
  rw [Option.any_eq_true] at hrun
  obtain ⟨t, ht, htest⟩ := hrun
  obtain ⟨hentered, hrefused⟩ := of_decide_eq_true htest
  refine ⟨t, ht, hentered, hrefused, ?_⟩
  exact (try_enter_lock_free single 2 ht).1.trans (by decide)

end Admission

end ReactorRuntime
