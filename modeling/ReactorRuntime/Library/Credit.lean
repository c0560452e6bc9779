import ReactorRuntime.Library.Lease

/-!
# Credits that calls get and leases hold

An admission control hands out credits.  A call that gets one keeps it for a while, then hands it to
a lease or, in some of them, keeps it until somebody says that it is done; a lease gives it back.
`Credits π` is the bookkeeping: the calls, in the order in which they begin, each with its place
`π` in the code, and the leases.  A credit is named by the call that got it.

`Conserved` says where each credit is: with its call, with one lease, or given back, once.  It is
stated for two functions of a call's place: `holding` is 1 where the call has its credit, `granted`
is 1 from where it got it on.  The rules below are the ways in which a credit can change hands.
-/

namespace ReactorRuntime

/-- A call. -/
structure Entry (π : Type*) where
  pc : π
  /-- A record: how often its credit was given back. -/
  refunds : ℕ
  deriving DecidableEq, Repr

/-- The calls and the leases of an admission control. -/
structure Credits (π : Type*) where
  calls : ℕ
  call : ℕ → Entry π
  leases : Leases ℕ

namespace Credits

variable {π : Type*}

def initial (pc : π) : Credits π where
  calls := 0
  call _ := ⟨pc, 0⟩
  leases := .initial

/-- A call begins. -/
def begin_ (s : Credits π) (pc : π) : Credits π :=
  { s with call := Function.update s.call s.calls ⟨pc, 0⟩, calls := s.calls + 1 }

/-- Call `c` goes to `pc`. -/
def setPc (s : Credits π) (c : ℕ) (pc : π) : Credits π :=
  { s with call := Function.update s.call c ⟨pc, (s.call c).refunds⟩ }

/-- A new lease holds the credit of call `c`. -/
def issue (s : Credits π) (c : ℕ) : Credits π := { s with leases := s.leases.push (.full c) }

/-- The credit of a call is given back. -/
def refund (s : Credits π) : Option ℕ → Credits π
  | none => s
  | some c =>
      { s with call := Function.update s.call c ⟨(s.call c).pc, (s.call c).refunds + 1⟩ }

/-- A step of the leases, and the credit it gives back. -/
def stepLeases (guarded : Bool) (s : Credits π) (act : Leases.Act) :
    Option (Credits π × Option ℕ) :=
  (s.leases.step guarded act).map fun r => ({ s with leases := r.1 }.refund r.2, r.2)

variable {s : Credits π} {c d : ℕ} {pc : π}

@[simp] lemma setPc_self : (s.setPc c pc).call c = ⟨pc, (s.call c).refunds⟩ :=
  Function.update_self ..

lemma setPc_of_ne (h : d ≠ c) : (s.setPc c pc).call d = s.call d := Function.update_of_ne h ..

lemma begin_self : (s.begin_ pc).call s.calls = ⟨pc, 0⟩ := Function.update_self ..

lemma begin_of_ne (h : d ≠ s.calls) : (s.begin_ pc).call d = s.call d := Function.update_of_ne h ..

lemma refund_self : (s.refund (some c)).call c = ⟨(s.call c).pc, (s.call c).refunds + 1⟩ :=
  Function.update_self ..

lemma refund_of_ne (h : d ≠ c) : (s.refund (some c)).call d = s.call d :=
  Function.update_of_ne h ..

@[simp] lemma refund_pc (o : Option ℕ) : ((s.refund o).call d).pc = (s.call d).pc := by
  cases o with
  | none => rfl
  | some c =>
      by_cases heq : d = c
      · rw [heq, refund_self]
      · rw [refund_of_ne heq]

@[simp] lemma refund_calls (o : Option ℕ) : (s.refund o).calls = s.calls := by
  cases o <;> rfl

@[simp] lemma refund_leases (o : Option ℕ) : (s.refund o).leases = s.leases := by
  cases o <;> rfl

/-! ## Counting calls -/

/-- The total of a weight over the calls. -/
def tally (w : π → ℕ) (s : Credits π) : ℕ :=
  census (Finset.range s.calls) (fun e => w e.pc) s.call

variable {w : π → ℕ}

lemma tally_begin : (s.begin_ pc).tally w = s.tally w + w pc :=
  census_range_succ (w := fun e : Entry π => w e.pc) _

lemma tally_setPc (hc : c < s.calls) (pc : π) :
    (s.setPc c pc).tally w + w (s.call c).pc = s.tally w + w pc :=
  census_update (w := fun e : Entry π => w e.pc) (Finset.mem_range.mpr hc) _

lemma tally_refund (o : Option ℕ) : (s.refund o).tally w = s.tally w := by
  simp [tally, census]

lemma le_tally (hc : c < s.calls) : w (s.call c).pc ≤ s.tally w :=
  le_census (w := fun e : Entry π => w e.pc) (Finset.mem_range.mpr hc)

/-- Two weights that are not more than a third at any place are not more than it in total. -/
lemma tally_add_le {w₁ w₂ : π → ℕ} (h : ∀ pc, w₁ pc + w₂ pc ≤ w pc) :
    s.tally w₁ + s.tally w₂ ≤ s.tally w := by
  unfold tally census
  rw [← Finset.sum_add_distrib]
  exact Finset.sum_le_sum fun c _ => h (s.call c).pc

/-- A weight that exceeds another by a third at most. -/
lemma tally_le_add {w₁ w₂ : π → ℕ} (h : ∀ pc, w pc ≤ w₁ pc + w₂ pc) :
    s.tally w ≤ s.tally w₁ + s.tally w₂ := by
  unfold tally census
  rw [← Finset.sum_add_distrib]
  exact Finset.sum_le_sum fun c _ => h (s.call c).pc

/-- The number of credits that are out. -/
def out (holding : π → ℕ) (s : Credits π) : ℕ := s.tally holding + s.leases.weigh Hold.isFull

/-! ## Where the credits are -/

variable {holding granted : π → ℕ}

/-- Every credit that was got is in one place. -/
structure Conserved (holding granted : π → ℕ) (s : Credits π) : Prop where
  sound : s.leases.Sound
  /-- It is with its call, with a lease, or was given back. -/
  credit : ∀ c < s.calls,
    (s.call c).refunds + holding (s.call c).pc + s.leases.weigh (Hold.holds c) =
      granted (s.call c).pc
  /-- Only credits of calls are held. -/
  named : ∀ c, s.calls ≤ c → s.leases.weigh (Hold.holds c) = 0

namespace Conserved

lemma initial (pc : π) : Conserved holding granted (Credits.initial pc) where
  sound := .initial
  credit _ h := absurd h (Nat.not_lt_zero _)
  named _ _ := rfl

lemma begin_ (h : Conserved holding granted s) (hpc : holding pc = granted pc) :
    Conserved holding granted (s.begin_ pc) := by
  refine ⟨h.sound, fun c hc => ?_, fun c hc => h.named c (Nat.le_of_succ_le hc)⟩
  show _ + _ + s.leases.weigh (Hold.holds c) = _
  by_cases heq : c = s.calls
  · subst heq
    rw [begin_self, h.named s.calls le_rfl, hpc]
    exact Nat.zero_add _
  · have hc : c < s.calls + 1 := hc
    rw [begin_of_ne heq]
    exact h.credit c (by omega)

/-- A call goes on: it gets a credit and has it, or neither. -/
lemma setPc (h : Conserved holding granted s)
    (hpc : granted pc + holding (s.call c).pc = granted (s.call c).pc + holding pc) :
    Conserved holding granted (s.setPc c pc) := by
  refine ⟨h.sound, fun d hd => ?_, h.named⟩
  show _ + _ + s.leases.weigh (Hold.holds d) = _
  have hold := h.credit d hd
  by_cases heq : d = c
  · subst heq
    rw [setPc_self]
    show (s.call d).refunds + holding pc + _ = granted pc
    omega
  · rw [setPc_of_ne heq]
    exact hold

/-- A call hands its credit to a new lease. -/
lemma issue (h : Conserved holding granted s) (hc : c < s.calls)
    (hpc : holding (s.call c).pc = holding pc + 1) (hgranted : granted pc = granted (s.call c).pc) :
    Conserved holding granted ((s.issue c).setPc c pc) := by
  refine ⟨h.sound.push rfl, fun d hd => ?_, fun d hd => ?_⟩
  · have hold := h.credit d hd
    show _ + _ + (s.leases.push (.full c)).weigh (Hold.holds d) = _
    rw [Leases.weigh_push]
    by_cases heq : d = c
    · subst heq
      rw [setPc_self]
      show (s.call d).refunds + holding pc + (_ + if d = d then 1 else 0) = granted pc
      rw [if_pos rfl]
      omega
    · rw [setPc_of_ne heq]
      simpa [Credits.issue, Hold.holds, Ne.symm heq] using hold
  · have hne : c ≠ d := by
      have hd : s.calls ≤ d := hd
      omega
    show (s.leases.push (.full c)).weigh (Hold.holds d) = 0
    rw [Leases.weigh_push, h.named d hd]
    simp [Hold.holds, hne]

/-- A call gives its credit back itself. -/
lemma giveBack (h : Conserved holding granted s)
    (hpc : holding (s.call c).pc = holding pc + 1) (hgranted : granted pc = granted (s.call c).pc) :
    Conserved holding granted ((s.refund (some c)).setPc c pc) := by
  refine ⟨h.sound, fun d hd => ?_, h.named⟩
  have hold := h.credit d hd
  show _ + _ + s.leases.weigh (Hold.holds d) = _
  by_cases heq : d = c
  · subst heq
    rw [setPc_self, refund_self]
    show (s.call d).refunds + 1 + holding pc + _ = granted pc
    omega
  · rw [setPc_of_ne heq, refund_of_ne heq]
    exact hold

/-- **The leases lose no credit and give none back twice.** -/
theorem lease (h : Conserved holding granted s) {guarded : Bool} {act : Leases.Act}
    {r : Credits π × Option ℕ} (hstep : s.stepLeases guarded act = some r) :
    Conserved holding granted r.1 := by
  obtain ⟨⟨leases, o⟩, hr, rfl⟩ := Option.map_eq_some_iff.mp hstep
  have hweigh := fun d => Leases.weigh_of_step (Leases.counts_holds d) h.sound hr
  refine ⟨?_, fun d hd => ?_, fun d hd => ?_⟩
  · rw [refund_leases]
    exact h.sound.step hr
  · rw [refund_calls] at hd
    have hold := h.credit d hd
    have hd' := hweigh d
    simp only [refund_leases, refund_pc]
    cases o with
    | none =>
        simp only [Leases.given] at hd'
        simp only [Credits.refund]
        omega
    | some k =>
        simp only [Leases.given, Hold.holds] at hd'
        by_cases heq : d = k
        · subst heq
          rw [if_pos rfl] at hd'
          rw [refund_self]
          show (s.call d).refunds + 1 + _ + _ = _
          omega
        · rw [if_neg (Ne.symm heq)] at hd'
          rw [refund_of_ne heq]
          show (s.call d).refunds + _ + _ = _
          omega
  · rw [refund_calls] at hd
    have hd' : leases.weigh (Hold.holds d) + _ = _ := hweigh d
    have hzero := h.named d hd
    rw [refund_leases]
    show leases.weigh (Hold.holds d) = 0
    omega

/-- Every full lease holds the credit of a call. -/
lemma sum_weigh_holds (h : Conserved holding granted s) :
    ∑ c ∈ Finset.range s.calls, s.leases.weigh (Hold.holds c) = s.leases.weigh Hold.isFull := by
  unfold Leases.weigh census
  rw [Finset.sum_comm]
  refine Finset.sum_congr rfl fun l hl => ?_
  cases hhold : (s.leases.lease l).hold with
  | empty => simp [hhold, Hold.holds, Hold.isFull]
  | returned after => simp [hhold, Hold.holds, Hold.isFull]
  | full k =>
      have hk : k < s.calls := by
        by_contra hge
        have hle : Hold.holds k (s.leases.lease l).hold ≤ s.leases.weigh (Hold.holds k) :=
          le_census (w := fun x : Lease ℕ => Hold.holds k x.hold) hl
        rw [h.named k (Nat.not_lt.mp hge), hhold] at hle
        simp [Hold.holds] at hle
      simp [hhold, Hold.holds, Hold.isFull, hk]

/-- The credits that are out are those that were got and not given back. -/
lemma out_eq_sum (h : Conserved holding granted s) :
    s.out holding = ∑ c ∈ Finset.range s.calls, (granted (s.call c).pc - (s.call c).refunds) := by
  rw [out, ← h.sum_weigh_holds]
  show ∑ c ∈ Finset.range s.calls, holding (s.call c).pc + _ = _
  rw [← Finset.sum_add_distrib]
  refine Finset.sum_congr rfl fun c hc => ?_
  have hcredit := h.credit c (Finset.mem_range.mp hc)
  omega

end Conserved

/-- The credit that a step of the leases gives back was with a lease, and was not given back. -/
lemma given_of_stepLeases (h : Conserved holding granted s) (hgranted : ∀ pc, granted pc ≤ 1)
    {guarded : Bool} {act : Leases.Act} {r : Credits π × Option ℕ}
    (hstep : s.stepLeases guarded act = some r) (hr : r.2 = some c) :
    c < s.calls ∧ (s.call c).refunds = 0 ∧ holding (s.call c).pc = 0 ∧
      granted (s.call c).pc = 1 := by
  obtain ⟨⟨leases, o⟩, hleases, rfl⟩ := Option.map_eq_some_iff.mp hstep
  obtain rfl : o = some c := hr
  have hweigh := Leases.weigh_of_step (Leases.counts_holds c) h.sound hleases
  simp only [Leases.given, Hold.holds, if_true] at hweigh
  have hc : c < s.calls := by
    by_contra hge
    have hzero := h.named c (Nat.not_lt.mp hge)
    omega
  have hcredit := h.credit c hc
  have hle := hgranted (s.call c).pc
  exact ⟨hc, by omega, by omega, by omega⟩

/-- A step of the leases changes the record of the call whose credit it gives back, and no other. -/
lemma call_of_stepLeases {guarded : Bool} {act : Leases.Act} {r : Credits π × Option ℕ}
    (hstep : s.stepLeases guarded act = some r) (d : ℕ) :
    (r.1.call d).refunds = (s.call d).refunds + if r.2 = some d then 1 else 0 := by
  obtain ⟨⟨leases, o⟩, -, rfl⟩ := Option.map_eq_some_iff.mp hstep
  cases o with
  | none => rfl
  | some k =>
      by_cases heq : d = k
      · subst heq
        rw [refund_self]
        simp
      · rw [refund_of_ne heq]
        simp [Ne.symm heq]

/-- A step of the leases leaves the calls where they are. -/
lemma calls_of_stepLeases {guarded : Bool} {act : Leases.Act} {r : Credits π × Option ℕ}
    (hstep : s.stepLeases guarded act = some r) :
    r.1.calls = s.calls ∧ (∀ d, (r.1.call d).pc = (s.call d).pc) ∧
      ∀ w, r.1.tally w = s.tally w := by
  obtain ⟨⟨leases, o⟩, -, rfl⟩ := Option.map_eq_some_iff.mp hstep
  exact ⟨refund_calls o, fun _ => refund_pc o, fun _ => tally_refund o⟩

/-- A step of the leases takes from the credits that are out the one that it gives back. -/
lemma out_of_stepLeases (h : s.leases.Sound) {guarded : Bool} {act : Leases.Act}
    {r : Credits π × Option ℕ} (hstep : s.stepLeases guarded act = some r) :
    r.1.out holding + r.2.isSome.toNat = s.out holding := by
  obtain ⟨⟨leases, o⟩, hr, rfl⟩ := Option.map_eq_some_iff.mp hstep
  have hweigh := Leases.weigh_of_step Leases.counts_isFull h hr
  have hgiven : Leases.given Hold.isFull o = o.isSome.toNat := by
    cases o <;> rfl
  simp only [out, tally_refund, refund_leases]
  show s.tally holding + _ + _ = _
  simp only at hweigh
  omega

/-! ## The leases let go of what they give back -/

/-- The leases keep nothing that they have to give back; `step` is where an operation on them leads
to. -/
structure Released (s : Credits π) (step : Leases.Act → Option (Credits π)) : Prop where
  dead : ∀ l, (s.leases.lease l).alive = false → (s.leases.lease l).hold = .empty
  /-- A reset, or the destructor, gives back the credit the lease has, -/
  back : ∀ l t c, step (.reset l) = some t ∨ step (.destroy l) = some t →
    (s.leases.lease l).hold = .full c → (t.call c).refunds = (s.call c).refunds + 1
  /-- and leaves the lease empty, at once or with its second step. -/
  reset : ∀ l t, step (.reset l) = some t →
    (t.leases.lease l).hold = .empty ∨ (t.leases.lease l).hold = .returned .reset
  destroy : ∀ l t, step (.destroy l) = some t →
    (t.leases.lease l).alive = false ∨ (t.leases.lease l).hold = .returned .destroy
  finishReset : ∀ l, (s.leases.lease l).hold = .returned .reset →
    ∃ t, step (.finish l) = some t ∧ (t.leases.lease l).hold = .empty
  finishDestroy : ∀ l, (s.leases.lease l).hold = .returned .destroy →
    ∃ t, step (.finish l) = some t ∧ (t.leases.lease l).alive = false

lemma refunds_of_giveBack {l : ℕ} {after : After} (hfull : (s.leases.lease l).hold = .full c) :
    ((({ s with leases := (s.leases.giveBack l after).1 } : Credits π).refund
      (s.leases.giveBack l after).2).call c).refunds = (s.call c).refunds + 1 := by
  rcases s.leases.giveBack_cases l after with ⟨k, hk, hgiven, -⟩ | ⟨hnone, -⟩
  · rw [hfull] at hk
    cases hk
    rw [hgiven, refund_self]
  · simp [hfull, Hold.isFull] at hnone

lemma stepLeases_finish {guarded : Bool} {l : ℕ} {after : After}
    (h : (s.leases.lease l).hold = .returned after) :
    s.stepLeases guarded (.finish l) =
      some ({ s with leases := s.leases.conclude l after }, none) := by
  rw [stepLeases, Leases.step_finish h]
  rfl

lemma released (h : s.leases.Sound) (guarded : Bool) {step : Leases.Act → Option (Credits π)}
    (hleases : ∀ act, step act = (s.stepLeases guarded act).map Prod.fst) : s.Released step := by
  -- a step is one of the leases, with the refund of what it gives back
  have taken : ∀ {act t}, step act = some t → ∃ r, s.leases.step guarded act = some r ∧
      ({ s with leases := r.1 } : Credits π).refund r.2 = t := by
    intro act t hstep
    rw [hleases, stepLeases, Option.map_map] at hstep
    exact Option.map_eq_some_iff.mp hstep
  refine ⟨h.dead, ?_, fun l t hstep => ?_, fun l t hstep => ?_, fun l hhold => ?_,
    fun l hhold => ?_⟩
  · rintro l t c (hstep | hstep) hfull
    · obtain ⟨r, hr, rfl⟩ := taken hstep
      rw [← Leases.giveBack_of_reset hr]
      exact refunds_of_giveBack hfull
    · obtain ⟨r, hr, rfl⟩ := taken hstep
      rw [← Leases.giveBack_of_destroy hr]
      exact refunds_of_giveBack hfull
  · obtain ⟨r, hr, rfl⟩ := taken hstep
    rw [← Leases.giveBack_of_reset hr, refund_leases]
    rcases s.leases.giveBack_cases l .reset with ⟨k, -, -, hheld⟩ | ⟨-, heq⟩
    · exact .inr hheld
    · rw [heq]
      exact .inl Leases.conclude_reset
  · obtain ⟨r, hr, rfl⟩ := taken hstep
    rw [← Leases.giveBack_of_destroy hr, refund_leases]
    rcases s.leases.giveBack_cases l .destroy with ⟨k, -, -, hheld⟩ | ⟨-, heq⟩
    · exact .inr hheld
    · rw [heq]
      exact .inl Leases.conclude_destroy
  · refine ⟨{ s with leases := s.leases.conclude l .reset }, ?_, Leases.conclude_reset⟩
    rw [hleases, stepLeases_finish hhold, Option.map_some]
  · refine ⟨{ s with leases := s.leases.conclude l .destroy }, ?_, Leases.conclude_destroy⟩
    rw [hleases, stepLeases_finish hhold, Option.map_some]

end Credits

end ReactorRuntime
