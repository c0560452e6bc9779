import ReactorRuntime.Admission.Connection

/-!
# Connection admission is exact

Whatever the order of the operations, `active` is the number of credits that are out, which is at
most the maximum; a refusal has seen all of them out; each credit is in one place from the moment it
is got until it is given back, once; and when no call is under way the other three counters are what
their names say.

The first three are about the counters as they stand.  The fourth, for `high_water`, is about the
past: a call makes the value it has brought `active` to known some time later, when `active` may be
something else.  At any time the largest value that `active` has had is the larger one of
`high_water` and of what calls have not made known yet.
-/

namespace ReactorRuntime

namespace EnterPc

/-- What a call knows at an exchange: the value it expects is one that it goes on with. -/
def Ok (m : Maximum) : EnterPc → Prop
  | .cas value => value < m.val
  | .acceptCas _ count => count ≠ wordMax
  | .highCas value high => high < value + 1
  | .rejectCas count => count ≠ wordMax
  | _ => True

end EnterPc

namespace Admission

/-- The number of credits that are out. -/
def credits (s : Admission) : ℕ := s.out EnterPc.holding

variable {m : Maximum} {s t : Admission} {c : ℕ}

/-! ## The counters as they stand -/

/-- What holds in every run. -/
structure Exact (m : Maximum) (s : Admission) : Prop where
  conserved : s.Conserved EnterPc.holding EnterPc.granted
  ok : ∀ c < s.calls, (s.call c).pc.Ok m
  active : s.active = s.credits
  bound : s.active ≤ m.val
  accepted : s.accepted = min wordMax (s.tally EnterPc.counted)
  rejected : s.rejected = min wordMax (s.tally EnterPc.declined)

namespace Exact

lemma initial : Exact m Admission.initial where
  conserved := .initial _
  ok _ h := absurd h (Nat.not_lt_zero _)
  active := rfl
  bound := Nat.zero_le _
  accepted := rfl
  rejected := rfl

lemma enter (h : Exact m s) : Exact m { s with toCredits := s.toCredits.begin_ .load } := by
  refine ⟨h.conserved.begin_ rfl, fun c hc => ?_, ?_, h.bound, ?_, ?_⟩
  · by_cases heq : c = s.calls
    · subst heq
      rw [Credits.begin_self]
      trivial
    · have hc : c < s.calls + 1 := hc
      rw [Credits.begin_of_ne heq]
      exact h.ok c (by omega)
  · show s.active = (s.toCredits.begin_ .load).tally _ + s.leases.weigh _
    rw [Credits.tally_begin]
    exact h.active
  · show s.accepted = min wordMax ((s.toCredits.begin_ .load).tally _)
    rw [Credits.tally_begin]
    exact h.accepted
  · show s.rejected = min wordMax ((s.toCredits.begin_ .load).tally _)
    rw [Credits.tally_begin]
    exact h.rejected

lemma ok_goto (h : Exact m s) {pc : EnterPc} (hok : pc.Ok m) :
    ∀ d < s.calls, ((s.toCredits.setPc c pc).call d).pc.Ok m := by
  intro d hd
  by_cases heq : d = c
  · subst heq
    rwa [Credits.setPc_self]
  · rw [Credits.setPc_of_ne heq]
    exact h.ok d hd

/-- A call goes on, with what it does to the counters. -/
lemma advance (h : Exact m s) (hc : c < s.calls) {pc : EnterPc} {a hw ac rj : ℕ} (hok : pc.Ok m)
    (hactive : a + (s.call c).pc.holding = s.active + pc.holding) (hbound : a ≤ m.val)
    (hgranted : pc.granted + (s.call c).pc.holding = (s.call c).pc.granted + pc.holding)
    (haccepted : ∀ n, s.accepted = min wordMax (n + (s.call c).pc.counted) →
      ac = min wordMax (n + pc.counted))
    (hrejected : ∀ n, s.rejected = min wordMax (n + (s.call c).pc.declined) →
      rj = min wordMax (n + pc.declined)) :
    Exact m
      ({ s with active := a, highWater := hw, accepted := ac, rejected := rj }.goto c pc) := by
  have counter : ∀ (w : EnterPc → ℕ) {x y : ℕ}, x = min wordMax (s.tally w) →
      (∀ n, x = min wordMax (n + w (s.call c).pc) → y = min wordMax (n + w pc)) →
      y = min wordMax ((s.toCredits.setPc c pc).tally w) := by
    intro w x y hx hstep
    have hle : w (s.call c).pc ≤ s.tally w := Credits.le_tally hc
    have hset := Credits.tally_setPc (w := w) hc pc
    rw [hstep (s.tally w - w (s.call c).pc) (by rw [hx, Nat.sub_add_cancel hle])]
    congr 1
    omega
  refine ⟨h.conserved.setPc hgranted, h.ok_goto hok, ?_, hbound, counter _ h.accepted haccepted,
    counter _ h.rejected hrejected⟩
  have hset := Credits.tally_setPc (w := EnterPc.holding) hc pc
  have hact : s.active = s.tally _ + s.leases.weigh _ := h.active
  show a = (s.toCredits.setPc c pc).tally EnterPc.holding + s.leases.weigh Hold.isFull
  omega

lemma issue (h : Exact m s) (hc : c < s.calls) (hpc : (s.call c).pc = .ret) :
    Exact m ({ s with toCredits := s.toCredits.issue c }.goto c .entered) := by
  have moved : ∀ w : EnterPc → ℕ,
      ((s.toCredits.issue c).setPc c .entered).tally w + w .ret = s.tally w + w .entered := by
    intro w
    have hset := Credits.tally_setPc (s := s.toCredits.issue c) (w := w) hc .entered
    rwa [show ((s.toCredits.issue c).call c).pc = .ret from hpc] at hset
  refine ⟨h.conserved.issue hc (by rw [hpc]; rfl) (by rw [hpc]; rfl), h.ok_goto trivial, ?_,
    h.bound, ?_, ?_⟩
  · have hact : s.active = s.tally _ + s.leases.weigh _ := h.active
    have hmoved : _ + 1 = _ + 0 := moved EnterPc.holding
    show s.active = ((s.toCredits.issue c).setPc c .entered).tally EnterPc.holding +
      (s.leases.push (.full c)).weigh Hold.isFull
    have hpush : (s.leases.push (.full c)).weigh Hold.isFull = s.leases.weigh Hold.isFull + 1 :=
      Leases.weigh_push _
    omega
  · exact h.accepted.trans (congrArg (min wordMax) (Nat.add_right_cancel (moved _)).symm)
  · exact h.rejected.trans (congrArg (min wordMax) (Nat.add_right_cancel (moved _)).symm)

lemma lease (h : Exact m s) {act : Leases.Act} {r : Credits EnterPc × Option ℕ}
    (hstep : s.toCredits.stepLeases true act = some r) :
    Exact m { s with
      toCredits := r.1
      active := if r.2.isSome then fetchSub s.active else s.active } := by
  have hout : r.1.out EnterPc.holding + r.2.isSome.toNat = s.out EnterPc.holding :=
    Credits.out_of_stepLeases h.conserved.sound hstep
  have hconserved := h.conserved.lease hstep
  have hact : s.active = s.out _ := h.active
  have hactive : (if r.2.isSome then fetchSub s.active else s.active) =
      s.active - r.2.isSome.toNat := by
    cases hr : r.2.isSome with
    | false => rfl
    | true =>
        rw [hr] at hout
        exact fetchSub_of_pos (by rw [hact, ← hout]; exact Nat.succ_pos _)
  obtain ⟨hcalls, hpcs, htally⟩ := Credits.calls_of_stepLeases hstep
  refine ⟨hconserved, fun c hc => ?_, ?_, ?_, ?_, ?_⟩
  · rw [hpcs c]
    exact h.ok c (hcalls ▸ hc)
  · show _ = r.1.out EnterPc.holding
    rw [hactive, hact, ← hout]
    exact Nat.add_sub_cancel ..
  · show _ ≤ m.val
    rw [hactive]
    exact (Nat.sub_le _ _).trans h.bound
  · show s.accepted = min wordMax (r.1.tally _)
    rw [htally]
    exact h.accepted
  · show s.rejected = min wordMax (r.1.tally _)
    rw [htally]
    exact h.rejected

/-- A call goes on, and weighs what it did. -/
lemma stay (h : Exact m s) (hc : c < s.calls) {pc : EnterPc} {hw : ℕ} (hok : pc.Ok m)
    (hholding : (s.call c).pc.holding = pc.holding) (hgranted : (s.call c).pc.granted = pc.granted)
    (hcounted : (s.call c).pc.counted = pc.counted)
    (hdeclined : (s.call c).pc.declined = pc.declined) :
    Exact m ({ s with highWater := hw }.goto c pc) :=
  h.advance hc hok (by rw [hholding]) h.bound (by rw [hholding, hgranted])
    (fun _ hn => by rwa [hcounted] at hn) (fun _ hn => by rwa [hdeclined] at hn)

lemma run (h : Exact m s) (hc : c < s.calls) (hrun : Runs m s c t) : Exact m t := by
  have hok := h.ok c hc
  cases hrun with
  | look hpc =>
      have hzero : (s.call c).pc.holding = 0 ∧ (s.call c).pc.granted = 0 ∧
          (s.call c).pc.counted = 0 ∧ (s.call c).pc.declined = 0 := by
        cases hp : (s.call c).pc with
        | load | cas value => exact ⟨rfl, rfl, rfl, rfl⟩
        | _ =>
            rw [hp] at hpc
            cases hpc
      unfold decideOn
      split
      · exact h.stay hc trivial hzero.1 hzero.2.1 hzero.2.2.1 hzero.2.2.2
      · next hlt => exact h.stay hc (Nat.lt_of_not_le hlt) hzero.1 hzero.2.1 hzero.2.2.1 hzero.2.2.2
  | grant hpc =>
      rw [hpc] at hok
      exact h.advance hc trivial (by rw [hpc]; rfl) hok (by rw [hpc]; rfl)
        (fun _ hn => by rwa [hpc] at hn) (fun _ hn => by rwa [hpc] at hn)
  | count value hpc =>
      have hweights : (s.call c).pc.holding = 1 ∧ (s.call c).pc.granted = 1 ∧
          (s.call c).pc.counted = 0 ∧ (s.call c).pc.declined = 0 := by
        rcases hpc with hpc | ⟨n, hpc⟩ <;> rw [hpc] <;> exact ⟨rfl, rfl, rfl, rfl⟩
      obtain ⟨hholding, hgranted, hcounted, hdeclined⟩ := hweights
      unfold countOn
      split
      · next hmax =>
          -- the counter is at its end, and stays there
          refine h.advance hc trivial (by rw [hholding]; rfl) h.bound
            (by rw [hholding, hgranted]; rfl) (fun n hn => ?_)
            (fun n hn => by rwa [hdeclined] at hn)
          rw [hcounted] at hn
          show s.accepted = min wordMax (n + 1)
          omega
      · next hless => exact h.stay hc hless hholding hgranted hcounted hdeclined
  | counted value hpc =>
      rw [hpc] at hok
      refine h.advance hc trivial (by rw [hpc]; rfl) h.bound (by rw [hpc]; rfl) (fun n hn => ?_)
        (fun _ hn => by rwa [hpc] at hn)
      rw [hpc] at hn
      have hless : s.accepted ≠ wordMax := hok
      have hn : s.accepted = min wordMax (n + 0) := hn
      show s.accepted + 1 = min wordMax (n + 1)
      omega
  | raise value hpc =>
      have hweights : (s.call c).pc.holding = 1 ∧ (s.call c).pc.granted = 1 ∧
          (s.call c).pc.counted = 1 ∧ (s.call c).pc.declined = 0 := by
        rcases hpc with hpc | ⟨n, hpc⟩ <;> rw [hpc] <;> exact ⟨rfl, rfl, rfl, rfl⟩
      unfold raiseOn
      split
      · next hlt => exact h.stay hc hlt hweights.1 hweights.2.1 hweights.2.2.1 hweights.2.2.2
      · exact h.stay hc trivial hweights.1 hweights.2.1 hweights.2.2.1 hweights.2.2.2
  | raised value hpc =>
      exact h.stay hc trivial (by rw [hpc]; rfl) (by rw [hpc]; rfl) (by rw [hpc]; rfl)
        (by rw [hpc]; rfl)
  | issue hpc => exact h.issue hc hpc
  | decline hpc =>
      have hzero : (s.call c).pc.holding = 0 ∧ (s.call c).pc.granted = 0 ∧
          (s.call c).pc.counted = 0 ∧ (s.call c).pc.declined = 0 := by
        rcases hpc with hpc | ⟨n, hpc⟩ <;> rw [hpc] <;> exact ⟨rfl, rfl, rfl, rfl⟩
      obtain ⟨hholding, hgranted, hcounted, hdeclined⟩ := hzero
      unfold countOn
      split
      · next hmax =>
          refine h.advance hc trivial (by rw [hholding]; rfl) h.bound
            (by rw [hholding, hgranted]; rfl) (fun n hn => by rwa [hcounted] at hn) (fun n hn => ?_)
          rw [hdeclined] at hn
          show s.rejected = min wordMax (n + 1)
          omega
      · next hless => exact h.stay hc hless hholding hgranted hcounted hdeclined
  | declined hpc =>
      rw [hpc] at hok
      refine h.advance hc trivial (by rw [hpc]; rfl) h.bound (by rw [hpc]; rfl)
        (fun _ hn => by rwa [hpc] at hn) (fun n hn => ?_)
      rw [hpc] at hn
      have hless : s.rejected ≠ wordMax := hok
      have hn : s.rejected = min wordMax (n + 0) := hn
      show s.rejected + 1 = min wordMax (n + 1)
      omega

/-- **Every step keeps the counters exact.** -/
theorem step (h : Exact m s) {act : Act} (hstep : (machine m).step s act = some t) : Exact m t := by
  cases act with
  | enter =>
      cases hstep
      exact h.enter
  | run c ok =>
      obtain ⟨hc, hstep⟩ := Option.ite_none_right_eq_some.mp hstep
      exact h.run hc (runs_of_runCall hstep)
  | lease act =>
      obtain ⟨r, hr, rfl⟩ := Option.map_eq_some_iff.mp hstep
      exact h.lease hr

end Exact

lemma exact_of_reachable (hs : (machine m).Reachable s) : Exact m s :=
  hs.invariant (I := Exact m) .initial fun _ _ _ h _ hstep => h.step hstep

/-! ## What was seen and what has been -/

/-- `w` is at most `high_water`, or at most what some call has not made known yet. -/
def Covers (s : Admission) (w : ℕ) : Prop :=
  w ≤ s.highWater ∨ ∃ c < s.calls, ∃ v, (s.call c).pc.pending = some v ∧ w ≤ v

/-- A call goes on; what it has not made known stays so, or is known now. -/
lemma Covers.move {w : ℕ} (h : Covers s w) {pc : EnterPc} (ht : t.calls = s.calls)
    (hself : (t.call c).pc = pc) (hother : ∀ d, d ≠ c → t.call d = s.call d)
    (hhigh : s.highWater ≤ t.highWater)
    (hpending : ∀ v, (s.call c).pc.pending = some v → pc.pending = some v ∨ v ≤ t.highWater) :
    Covers t w := by
  rcases h with hle | ⟨d, hd, v, hv, hle⟩
  · exact .inl (hle.trans hhigh)
  · by_cases heq : d = c
    · subst heq
      rcases hpending v hv with hp | hp
      · exact .inr ⟨d, ht ▸ hd, v, hself ▸ hp, hle⟩
      · exact .inl (hle.trans hp)
    · exact .inr ⟨d, ht ▸ hd, v, by rw [hother d heq]; exact hv, hle⟩

lemma Covers.run {w : ℕ} (h : Covers s w) (hok : (s.call c).pc.Ok m) (hrun : Runs m s c t) :
    Covers t w := by
  have other : ∀ (x : Admission) (pc : EnterPc), x.call = s.call →
      ∀ d, d ≠ c → (x.goto c pc).call d = s.call d := by
    intro x pc hx d hd
    rw [goto_of_ne x hd, hx]
  cases hrun with
  | look hpc =>
      refine h.move rfl (goto_self ..) (other s _ rfl) le_rfl fun v hv => ?_
      cases hp : (s.call c).pc <;> simp_all [EnterPc.deciding, EnterPc.pending]
  | grant hpc =>
      refine h.move rfl (goto_self ..) (other _ _ rfl) le_rfl fun v hv => ?_
      rw [hpc] at hv
      cases hv
  | count value hpc =>
      have hold : (s.call c).pc.pending = some (value + 1) := by
        rcases hpc with hpc | ⟨n, hpc⟩ <;> rw [hpc] <;> rfl
      refine h.move rfl (goto_self ..) (other s _ rfl) le_rfl fun v hv => .inl ?_
      rw [← hv, hold]
      unfold countOn
      split <;> rfl
  | counted value hpc =>
      refine h.move rfl (goto_self ..) (other _ _ rfl) le_rfl fun v hv => .inl ?_
      rw [← hv, hpc]
      rfl
  | raise value hpc =>
      have hold : (s.call c).pc.pending = some (value + 1) := by
        rcases hpc with hpc | ⟨n, hpc⟩ <;> rw [hpc] <;> rfl
      refine h.move rfl (goto_self ..) (other s _ rfl) le_rfl fun v hv => ?_
      rw [hold] at hv
      cases hv
      unfold raiseOn
      split
      · exact .inl rfl
      · next hge => exact .inr (Nat.le_of_not_lt hge)
  | raised value hpc =>
      rw [hpc] at hok
      refine h.move rfl (goto_self ..) (other _ _ rfl) (Nat.le_of_lt hok) fun v hv => .inr ?_
      rw [hpc] at hv
      cases hv
      exact le_rfl
  | issue hpc =>
      refine h.move rfl (goto_self ..) (other _ _ rfl) le_rfl fun v hv => ?_
      rw [hpc] at hv
      cases hv
  | decline hpc =>
      refine h.move rfl (goto_self ..) (other s _ rfl) le_rfl fun v hv => ?_
      rcases hpc with hpc | ⟨n, hpc⟩ <;> rw [hpc] at hv <;> cases hv
  | declined hpc =>
      refine h.move rfl (goto_self ..) (other _ _ rfl) le_rfl fun v hv => ?_
      rw [hpc] at hv
      cases hv

/-- The largest value that `active` has had is not forgotten. -/
lemma Covers.step {w : ℕ} (h : Covers s w) (hex : Exact m s) {act : Act}
    (hstep : (machine m).step s act = some t) : Covers t w := by
  cases act with
  | enter =>
      cases hstep
      refine h.imp id ?_
      rintro ⟨c, hc, v, hv, hle⟩
      refine ⟨c, Nat.lt_succ_of_lt hc, v, ?_, hle⟩
      rw [Credits.begin_of_ne hc.ne]
      exact hv
  | run c ok =>
      obtain ⟨hc, hstep⟩ := Option.ite_none_right_eq_some.mp hstep
      exact h.run (hex.ok c hc) (runs_of_runCall hstep)
  | lease act =>
      obtain ⟨r, hr, rfl⟩ := Option.map_eq_some_iff.mp hstep
      obtain ⟨hcalls, hpcs, -⟩ := Credits.calls_of_stepLeases hr
      refine h.imp id ?_
      rintro ⟨c, hc, v, hv, hle⟩
      exact ⟨c, hcalls.symm ▸ hc, v, (hpcs c).symm ▸ hv, hle⟩

/-- What has been, as far as the present state tells. -/
structure Past (m : Maximum) (past : List Admission) (s : Admission) : Prop where
  /-- A call that is refused has seen every credit out. -/
  refused : ∀ c < s.calls, (s.call c).pc.refusing = true → Machine.Once past s fun u =>
    c < u.calls ∧ (u.call c).pc.deciding = true ∧ u.active = m.val
  covers : ∀ u ∈ s :: past, Covers s u.active
  top : Machine.Once past s fun u => u.active = s.highWater
  pending : ∀ c < s.calls, ∀ v, (s.call c).pc.pending = some v →
    Machine.Once past s fun u => u.active = v

namespace Past

variable {past : List Admission}

lemma initial : Past m [] Admission.initial where
  refused _ h := absurd h (Nat.not_lt_zero _)
  covers u hu := by
    rw [List.mem_singleton.mp hu]
    exact .inl le_rfl
  top := .now rfl
  pending _ h := absurd h (Nat.not_lt_zero _)

/-- What was covered still is; the new value of `active` has to be. -/
lemma covers_step (h : Past m past s) (hex : Exact m s) {act : Act}
    (hstep : (machine m).step s act = some t) (hnow : Covers t t.active) :
    ∀ u ∈ t :: s :: past, Covers t u.active := by
  intro u hu
  rcases List.mem_cons.mp hu with rfl | hu
  · exact hnow
  · exact (h.covers u hu).step hex hstep

lemma covers_of_le (h : Past m past s) (hex : Exact m s) {act : Act}
    (hstep : (machine m).step s act = some t) (hle : t.active ≤ s.active) : Covers t t.active := by
  rcases (h.covers s List.mem_cons_self).step hex hstep with hw | ⟨c, hc, v, hv, hw⟩
  · exact .inl (hle.trans hw)
  · exact .inr ⟨c, hc, v, hv, hle.trans hw⟩

lemma aside (h : Past m past s) {act : Act} (hstep : (machine m).step s act = some t)
    (hex : Exact m s) (hactive : t.active ≤ s.active) (hhigh : t.highWater = s.highWater)
    (hcalls : ∀ c < t.calls, (t.call c).pc = .load ∨
      c < s.calls ∧ (t.call c).pc = (s.call c).pc) : Past m (s :: past) t where
  refused c hc hr := by
    rcases hcalls c hc with hload | ⟨hlt, hpc⟩
    · rw [hload] at hr
      cases hr
    · exact (h.refused c hlt (hpc ▸ hr)).later
  covers := h.covers_step hex hstep (h.covers_of_le hex hstep hactive)
  top := by
    rw [hhigh]
    exact h.top.later
  pending c hc v hv := by
    rcases hcalls c hc with hload | ⟨hlt, hpc⟩
    · rw [hload] at hv
      cases hv
    · exact (h.pending c hlt v (hpc ▸ hv)).later

lemma move (h : Past m past s) {ok : Bool} (hex : Exact m s)
    (hstep : (machine m).step s (.run c ok) = some t)
    (hcalls : t.calls = s.calls) (hother : ∀ d, d ≠ c → t.call d = s.call d)
    (hrefused : (t.call c).pc.refusing = true → Machine.Once (s :: past) t fun u =>
      c < u.calls ∧ (u.call c).pc.deciding = true ∧ u.active = m.val)
    (hcovers : Covers t t.active)
    (htop : Machine.Once (s :: past) t fun u => u.active = t.highWater)
    (hpending : ∀ v, (t.call c).pc.pending = some v →
      Machine.Once (s :: past) t fun u => u.active = v) : Past m (s :: past) t where
  refused d hd hr := by
    by_cases heq : d = c
    · subst heq
      exact hrefused hr
    · rw [hother d heq] at hr
      exact (h.refused d (hcalls ▸ hd) hr).later
  covers := h.covers_step hex hstep hcovers
  top := htop
  pending d hd v hv := by
    by_cases heq : d = c
    · subst heq
      exact hpending v hv
    · rw [hother d heq] at hv
      exact (h.pending d (hcalls ▸ hd) v hv).later

lemma quiet (h : Past m past s) (hex : Exact m s) {ok : Bool} (hc : c < s.calls)
    (hstep : (machine m).step s (.run c ok) = some t) (hcalls : t.calls = s.calls)
    (hother : ∀ d, d ≠ c → t.call d = s.call d) (hactive : t.active = s.active)
    (hhigh : t.highWater = s.highWater)
    (hrefused : (t.call c).pc.refusing = true → (s.call c).pc.refusing = true ∨
      (s.call c).pc.deciding = true ∧ s.active = m.val)
    (hpending : ∀ v, (t.call c).pc.pending = some v → (s.call c).pc.pending = some v) :
    Past m (s :: past) t := by
  refine h.move hex hstep hcalls hother (fun hr => ?_) (h.covers_of_le hex hstep hactive.le) ?_
    fun v hv => ?_
  · rcases hrefused hr with hr | ⟨hd, hm⟩
    · exact (h.refused c hc hr).later
    · exact (Machine.Once.now ⟨hc, hd, hm⟩).later
  · rw [hhigh]
    exact h.top.later
  · exact (h.pending c hc v (hpending v hv)).later

lemma run (h : Past m past s) (hex : Exact m s) {ok : Bool} (hc : c < s.calls)
    (hstep : (machine m).step s (.run c ok) = some t) (hrun : Runs m s c t) :
    Past m (s :: past) t := by
  have other : ∀ (x : Admission) (pc : EnterPc), x.call = s.call →
      ∀ d, d ≠ c → (x.goto c pc).call d = s.call d := by
    intro x pc hx d hd
    rw [goto_of_ne x hd, hx]
  cases hrun with
  | look hpc =>
      refine h.quiet hex hc hstep rfl (other s _ rfl) rfl rfl (fun hr => .inr ⟨hpc, ?_⟩)
        fun v hv => ?_
      · -- a value that is not below the maximum is the maximum
        have hbound := hex.bound
        rw [goto_self] at hr
        unfold decideOn at hr
        split at hr
        · next hle => omega
        · cases hr
      · rw [goto_self] at hv
        unfold decideOn at hv
        split at hv <;> cases hv
  | grant hpc =>
      refine h.move hex hstep rfl (other _ _ rfl) (fun hr => ?_)
        (.inr ⟨c, hc, s.active + 1, ?_, le_rfl⟩) h.top.later fun v hv => ?_
      · rw [goto_self] at hr
        cases hr
      · rw [goto_self]
        rfl
      · rw [goto_self] at hv
        cases hv
        exact .now rfl
  | count value hpc =>
      have hold : (s.call c).pc.pending = some (value + 1) := by
        rcases hpc with hpc | ⟨n, hpc⟩ <;> rw [hpc] <;> rfl
      refine h.quiet hex hc hstep rfl (other s _ rfl) rfl rfl (fun hr => ?_) fun v hv => ?_
      · rw [goto_self] at hr
        unfold countOn at hr
        split at hr <;> cases hr
      · rw [goto_self] at hv
        rw [hold, ← hv]
        unfold countOn
        split <;> rfl
  | counted value hpc =>
      refine h.quiet hex hc hstep rfl (other _ _ rfl) rfl rfl (fun hr => ?_) fun v hv => ?_
      · rw [goto_self] at hr
        cases hr
      · rw [goto_self] at hv
        rw [hpc, ← hv]
        rfl
  | raise value hpc =>
      have hold : (s.call c).pc.pending = some (value + 1) := by
        rcases hpc with hpc | ⟨n, hpc⟩ <;> rw [hpc] <;> rfl
      refine h.quiet hex hc hstep rfl (other s _ rfl) rfl rfl (fun hr => ?_) fun v hv => ?_
      · rw [goto_self] at hr
        unfold raiseOn at hr
        split at hr <;> cases hr
      · rw [goto_self] at hv
        unfold raiseOn at hv
        split at hv
        · rw [hold, ← hv]
          rfl
        · cases hv
  | raised value hpc =>
      refine h.move hex hstep rfl (other _ _ rfl) (fun hr => ?_)
        (h.covers_of_le hex hstep le_rfl) (h.pending c hc (value + 1) (by rw [hpc]; rfl)).later
        fun v hv => ?_
      · rw [goto_self] at hr
        cases hr
      · rw [goto_self] at hv
        cases hv
  | issue hpc =>
      refine h.quiet hex hc hstep rfl (other _ _ rfl) rfl rfl (fun hr => ?_) fun v hv => ?_
      · rw [goto_self] at hr
        cases hr
      · rw [goto_self] at hv
        cases hv
  | decline hpc =>
      refine h.quiet hex hc hstep rfl (other s _ rfl) rfl rfl (fun _ => .inl ?_) fun v hv => ?_
      · rcases hpc with hpc | ⟨n, hpc⟩ <;> rw [hpc] <;> rfl
      · rw [goto_self] at hv
        unfold countOn at hv
        split at hv <;> cases hv
  | declined hpc =>
      refine h.quiet hex hc hstep rfl (other _ _ rfl) rfl rfl (fun _ => .inl (by rw [hpc]; rfl))
        fun v hv => ?_
      rw [goto_self] at hv
      cases hv

lemma step (h : Past m past s) (hex : Exact m s) {act : Act}
    (hstep : (machine m).step s act = some t) : Past m (s :: past) t := by
  cases act with
  | enter =>
      have hstep' := hstep
      cases hstep'
      refine h.aside hstep hex le_rfl rfl fun c hc => ?_
      have hc : c < s.calls + 1 := hc
      by_cases heq : c = s.calls
      · subst heq
        exact .inl (congrArg Entry.pc Credits.begin_self)
      · exact .inr ⟨by omega, congrArg Entry.pc (Credits.begin_of_ne heq)⟩
  | run c ok =>
      obtain ⟨hc, hrun⟩ := Option.ite_none_right_eq_some.mp hstep
      exact h.run hex hc hstep (runs_of_runCall hrun)
  | lease act =>
      have ht := hex.step hstep
      obtain ⟨r, hr, rfl⟩ := Option.map_eq_some_iff.mp hstep
      obtain ⟨hcalls, hpcs, -⟩ := Credits.calls_of_stepLeases hr
      refine h.aside hstep hex ?_ rfl fun c hc => .inr ⟨hcalls ▸ hc, hpcs c⟩
      -- no more credits are out than before
      calc _ = _ := ht.active
        _ ≤ s.credits := (Nat.le_add_right _ _).trans_eq
          (Credits.out_of_stepLeases hex.conserved.sound hr)
        _ = s.active := hex.active.symm

end Past

lemma past_of_trail {past : List Admission} (h : (machine m).Trail past s) : Past m past s := by
  induction h with
  | init => exact .initial
  | step htrail _ hstep ih => exact ih.step (exact_of_reachable htrail.reachableUnder) hstep

/-! ## The result -/

/-- No call of `try_enter()` is under way. -/
def Quiescent (s : Admission) : Prop := ∀ c < s.calls, (s.call c).pc.returned = true

instance (s : Admission) : Decidable s.Quiescent := inferInstanceAs (Decidable (∀ c < _, _))

/-- When no call is under way, those that were counted have returned a lease. -/
lemma tally_counted_of_quiescent (h : s.Quiescent) :
    s.tally EnterPc.counted = s.tally EnterPc.isEntered := by
  unfold Credits.tally census
  refine Finset.sum_congr rfl fun c hc => ?_
  have hreturned := h c (Finset.mem_range.mp hc)
  show (s.call c).pc.counted = (s.call c).pc.isEntered
  cases hp : (s.call c).pc with
  | entered | refused => rfl
  | _ =>
      rw [hp] at hreturned
      cases hreturned

lemma le_highWater_of_quiescent (h : s.Quiescent) {w : ℕ} (hw : Covers s w) : w ≤ s.highWater := by
  rcases hw with hle | ⟨c, hc, v, hv, -⟩
  · exact hle
  · have hreturned := h c hc
    cases hp : (s.call c).pc <;> simp_all [EnterPc.returned, EnterPc.pending]

/-- **Connection admission is exact.**  For every maximum, in every state of every run: `active` is
the number of credits out and at most the maximum; every call that is refused was under way at a
moment of the run at which `active` was the maximum; every credit that was got is with its call, or
with one lease, or was given back once; a lease that is reset or destroyed gives back its credit and
is left without one; and when no call is under way, `high_water` is the largest value that `active`
has had in the run, `accepted` is the number of leases returned and `rejected` that of refusals,
both up to the largest 64-bit number. -/
theorem admission_exact (m : Maximum) {past : List Admission} {s : Admission}
    (hs : (machine m).Trail past s) :
    (s.active = s.credits ∧ s.active ≤ m.val) ∧
    (∀ c < s.calls, (s.call c).pc.refusing = true →
      ∃ u ∈ s :: past, c < u.calls ∧ (u.call c).pc.deciding = true ∧ u.active = m.val) ∧
    (∀ c < s.calls, (s.call c).refunds + (s.call c).pc.holding + s.leases.weigh (Hold.holds c) =
      (s.call c).pc.granted) ∧
    s.toCredits.Released (fun act => ((machine m).step s (.lease act)).map Admission.toCredits) ∧
    (s.Quiescent →
      ((∀ u ∈ s :: past, u.active ≤ s.highWater) ∧ ∃ u ∈ s :: past, u.active = s.highWater) ∧
      s.accepted = min wordMax (s.tally EnterPc.isEntered) ∧
      s.rejected = min wordMax (s.tally EnterPc.declined)) := by
  have hex := exact_of_reachable hs.reachableUnder
  have hpast := past_of_trail hs
  refine ⟨⟨hex.active, hex.bound⟩, hpast.refused, hex.conserved.credit,
    Credits.released hex.conserved.sound true fun act => ?_,
    fun hq => ⟨⟨fun u hu => ?_, hpast.top⟩, ?_, hex.rejected⟩⟩
  · simp only [machine, step, Option.map_map]
    rfl
  · exact le_highWater_of_quiescent hq (hpast.covers u hu)
  · rw [← tally_counted_of_quiescent hq]
    exact hex.accepted

/-- One connection at a time. -/
def single : Maximum := ⟨1, by decide, by decide⟩

/-- Two calls read `active` before either exchange; one enters, and the other is refused. -/
def contendedRun : List Act :=
  List.flatten
    [[.enter, .enter, .run 0 true, .run 1 true, .run 0 true, .run 1 true],
      List.replicate 5 (.run 0 true), List.replicate 2 (.run 1 true)]

theorem admission_exact_at_contendedRun :
    ∃ past s, (machine single).Trail past s ∧
      (s.Quiescent ∧ (s.call 1).pc = .refused ∧ s.calls = 2) ∧
      s.active = s.credits ∧ s.active ≤ 1 ∧
      (∃ u ∈ s :: past, 1 < u.calls ∧ (u.call 1).pc.deciding = true ∧ u.active = 1) ∧
      s.accepted = min wordMax (s.tally EnterPc.isEntered) := by
  obtain ⟨past, s, hs, htest⟩ := (machine single).exists_trailUnder_of_run (fun _ _ => true)
    (fun _ _ _ => trivial) contendedRun
    (fun _ s => decide (s.Quiescent ∧ (s.call 1).pc = .refused ∧ s.calls = 2)) (by decide +kernel)
  have hstate := of_decide_eq_true htest
  obtain ⟨⟨hactive, hbound⟩, hrefused, -, -, hquiet⟩ := admission_exact single hs
  refine ⟨past, s, hs, hstate, hactive, hbound, hrefused 1 ?_ ?_, (hquiet hstate.1).2.1⟩
  · rw [hstate.2.2]
    exact Nat.one_lt_two
  · rw [hstate.2.1]
    rfl

end Admission

end ReactorRuntime
