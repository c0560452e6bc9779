import ReactorRuntime.Admission.Exact
import ReactorRuntime.Library.Simulation

/-!
# Connection admission is linearizable

`ConnectionAdmission::try_enter()` is a dozen atomic operations, and others come between them.  To
its callers it is one: a `Turnstile` answers each call at one moment, which lies between the call
and its return, lets it in exactly if there is room at that moment, and has one place free again
from the moment on at which a lease is given up.

For a call that is let in that moment is its successful exchange of `active`.  For one that is
refused it is the last time it has read `active`, by the load or by an exchange that failed.
Whatever the threads do, the calls, the returns and these moments together are a run of the
turnstile (`admission_is_a_turnstile`).  The server's accept loops are modelled with the turnstile's
answers (`Sessions.step`), and this is why.
-/

namespace ReactorRuntime

/-! ## The turnstile -/

/-- A call. -/
inductive Visit
  | absent
  | waiting
  | answered (ok : Bool)
  | returned (ok : Bool)
  deriving DecidableEq, Repr

/-- A turnstile: the calls, and those of them whose place is taken. -/
@[ext]
structure Turnstile where
  taken : Finset ℕ
  visit : ℕ → Visit

namespace Turnstile

inductive Event
  | call (c : ℕ)
  | answer (c : ℕ) (ok : Bool)
  | ret (c : ℕ) (ok : Bool)
  /-- The lease on the place of call `c` is given up. -/
  | giveUp (c : ℕ)
  deriving DecidableEq

def initial : Turnstile where
  taken := ∅
  visit _ := .absent

/-- There is room for another, or there is none. -/
def Fits (m : ℕ) (s : Turnstile) : Bool → Prop
  | true => s.taken.card < m
  | false => s.taken.card = m

instance (m : ℕ) (s : Turnstile) : (ok : Bool) → Decidable (s.Fits m ok)
  | true => inferInstanceAs (Decidable (_ < _))
  | false => inferInstanceAs (Decidable (_ = _))

/-- What a turnstile with `m` places allows. -/
def step (m : ℕ) (s : Turnstile) : Event → Option Turnstile
  | .call c =>
      if s.visit c = .absent then some { s with visit := Function.update s.visit c .waiting }
      else none
  | .answer c ok =>
      if s.visit c = .waiting ∧ s.Fits m ok then
        some {
          taken := if ok then insert c s.taken else s.taken
          visit := Function.update s.visit c (.answered ok) }
      else none
  | .ret c ok =>
      if s.visit c = .answered ok then
        some { s with visit := Function.update s.visit c (.returned ok) }
      else none
  | .giveUp c =>
      if c ∈ s.taken ∧ s.visit c = .returned true then some { s with taken := s.taken.erase c }
      else none

def machine (m : ℕ) : Machine Turnstile Event where
  init := initial
  step := step m

/-- The event that takes a call from one place to another. -/
def change (c : ℕ) : Visit → Visit → Option Event
  | .waiting, .answered ok => some (.answer c ok)
  | .answered _, .returned ok => some (.ret c ok)
  | _, _ => none

end Turnstile

/-! ## Connection admission seen from outside -/

namespace EnterPc

/-- What is seen of a call. -/
def visit : EnterPc → Visit
  | .load => .waiting
  | .cas _ => .waiting
  | .rejectLoad => .answered false
  | .rejectCas _ => .answered false
  | .refused => .returned false
  | .entered => .returned true
  | _ => .answered true

lemma granted_le (pc : EnterPc) : pc.granted ≤ 1 := by
  cases pc <;> simp [granted, holding]

end EnterPc

namespace Admission

variable {m : Maximum} {s t : Admission} {c : ℕ}

/-- What is seen. -/
def look (s : Admission) : Turnstile where
  taken := (Finset.range s.calls).filter fun c => (s.call c).refunds < (s.call c).pc.granted
  visit c := if c < s.calls then (s.call c).pc.visit else .absent

/-- What a step shows. -/
def shown (m : Maximum) (s : Admission) : Act → Option Turnstile.Event
  | .enter => some (.call s.calls)
  | .run c ok =>
      (s.step m (.run c ok)).bind fun t => Turnstile.change c (s.look.visit c) (t.look.visit c)
  | .lease act => (s.toCredits.stepLeases true act).bind fun r => r.2.map .giveUp

lemma visit_look (hc : c < s.calls) : s.look.visit c = (s.call c).pc.visit := if_pos hc

lemma mem_taken : c ∈ s.look.taken ↔ c < s.calls ∧ (s.call c).refunds < (s.call c).pc.granted := by
  simp [look]

/-- `active` is the number of places that are taken. -/
lemma card_taken (h : Exact m s) : s.look.taken.card = s.active := by
  have hout : s.active = s.out EnterPc.holding := h.active
  rw [hout, h.conserved.out_eq_sum]
  simp only [look, Finset.card_filter]
  refine Finset.sum_congr rfl fun c _ => ?_
  have hle := EnterPc.granted_le (s.call c).pc
  split <;> omega

lemma visit_of_goto (hc : c < s.calls) {pc : EnterPc} (hcalls : t.calls = s.calls)
    (hself : t.call c = ⟨pc, (s.call c).refunds⟩) (hother : ∀ d, d ≠ c → t.call d = s.call d) :
    t.look.visit = Function.update s.look.visit c pc.visit := by
  funext d
  by_cases hd : d = c
  · subst hd
    simp [look, hcalls, hc, hself]
  · simp [look, hcalls, hd, hother d hd]

/-- A call goes on that is not let in by this: it stays where it is seen, or it finds that there is
no room, or it returns what it was answered. -/
lemma simulates_goto (hexact : Exact m s) (hc : c < s.calls) {pc : EnterPc}
    (hcalls : t.calls = s.calls) (hself : t.call c = ⟨pc, (s.call c).refunds⟩)
    (hother : ∀ d, d ≠ c → t.call d = s.call d) (hgranted : pc.granted = (s.call c).pc.granted)
    (hnext : pc.visit = (s.call c).pc.visit ∨
      ((s.call c).pc.visit = .waiting ∧ pc.visit = .answered false ∧ m.val ≤ s.active) ∨
      ∃ ok, (s.call c).pc.visit = .answered ok ∧ pc.visit = .returned ok) :
    (Turnstile.machine m.val).stepOption s.look
      (Turnstile.change c (s.look.visit c) (t.look.visit c)) = some t.look := by
  have hvisit := visit_of_goto hc hcalls hself hother
  have hafter : t.look.visit c = pc.visit := by rw [hvisit, Function.update_self]
  have hlook : t.look = ⟨s.look.taken, Function.update s.look.visit c pc.visit⟩ := by
    refine Turnstile.ext (Finset.ext fun d => ?_) hvisit
    by_cases hd : d = c
    · subst hd
      simp only [mem_taken, hcalls, hself, hgranted]
    · simp only [mem_taken, hcalls, hother d hd]
  rw [hafter, hlook, visit_look hc]
  rcases hnext with hsame | ⟨hwaiting, hanswered, hfull⟩ | ⟨ok, hanswered, hreturned⟩
  · rw [hsame, ← visit_look hc, Function.update_eq_self]
    cases s.look.visit c <;> rfl
  · have hguard : s.look.visit c = .waiting ∧ s.look.Fits m.val false := by
      refine ⟨(visit_look hc).trans hwaiting, ?_⟩
      show s.look.taken.card = m.val
      rw [card_taken hexact]
      exact Nat.le_antisymm hexact.bound hfull
    rw [hwaiting, hanswered]
    exact if_pos hguard
  · have hguard : s.look.visit c = .answered ok := (visit_look hc).trans hanswered
    rw [hanswered, hreturned]
    exact if_pos hguard

lemma simulates_grant (hexact : Exact m s) (hc : c < s.calls) (hpc : (s.call c).pc = .cas s.active)
    (ht : t = { s with active := s.active + 1 }.goto c (.acceptLoad s.active)) :
    (Turnstile.machine m.val).stepOption s.look
      (Turnstile.change c (s.look.visit c) (t.look.visit c)) = some t.look := by
  have hself : t.call c = ⟨.acceptLoad s.active, (s.call c).refunds⟩ := by
    rw [ht]
    exact Credits.setPc_self
  have hother : ∀ d, d ≠ c → t.call d = s.call d := fun d hd => by
    rw [ht]
    exact Credits.setPc_of_ne hd
  have hcalls : t.calls = s.calls := by rw [ht]; rfl
  -- a call that has got nothing has given nothing back
  have hrefunds : (s.call c).refunds = 0 := by
    have hcredit := hexact.conserved.credit c hc
    rw [hpc] at hcredit
    simp only [EnterPc.granted, EnterPc.holding] at hcredit
    omega
  have hvisit := visit_of_goto hc hcalls hself hother
  have hafter : t.look.visit c = .answered true := by
    rw [hvisit, Function.update_self]
    rfl
  have hlook : t.look =
      ⟨insert c s.look.taken, Function.update s.look.visit c (.answered true)⟩ := by
    refine Turnstile.ext (Finset.ext fun d => ?_) hvisit
    rw [Finset.mem_insert]
    by_cases hd : d = c
    · subst hd
      simp [mem_taken, hcalls, hself, hc, hrefunds, EnterPc.granted, EnterPc.holding]
    · simp only [mem_taken, hcalls, hother d hd, hd, false_or]
  have hguard : s.look.visit c = .waiting ∧ s.look.Fits m.val true := by
    refine ⟨by rw [visit_look hc, hpc]; rfl, ?_⟩
    show s.look.taken.card < m.val
    rw [card_taken hexact]
    have hok := hexact.ok c hc
    rw [hpc] at hok
    exact hok
  rw [hafter, hlook, hguard.1]
  exact if_pos hguard

lemma simulates_run (hexact : Exact m s) (hc : c < s.calls) (hrun : Runs m s c t) :
    (Turnstile.machine m.val).stepOption s.look
      (Turnstile.change c (s.look.visit c) (t.look.visit c)) = some t.look := by
  have goto_ : ∀ {u : Admission} {pc : EnterPc}, u.toCredits = s.toCredits →
      pc.granted = (s.call c).pc.granted →
      (pc.visit = (s.call c).pc.visit ∨
        ((s.call c).pc.visit = .waiting ∧ pc.visit = .answered false ∧ m.val ≤ s.active) ∨
        ∃ ok, (s.call c).pc.visit = .answered ok ∧ pc.visit = .returned ok) →
      (Turnstile.machine m.val).stepOption s.look
        (Turnstile.change c (s.look.visit c) ((u.goto c pc).look.visit c)) =
          some (u.goto c pc).look := by
    intro u pc hu hgranted hnext
    have hcall : u.call = s.call := congrArg Credits.call hu
    have hcalls : u.calls = s.calls := congrArg Credits.calls hu
    refine simulates_goto hexact hc hcalls ?_ (fun d hd => ?_) hgranted hnext
    · rw [← hcall]
      exact Credits.setPc_self
    · rw [← hcall]
      exact Credits.setPc_of_ne hd
  cases hrun with
  | look hpc =>
      have hwaiting : (s.call c).pc.visit = .waiting ∧ (s.call c).pc.granted = 0 := by
        cases hp : (s.call c).pc with
        | load => exact ⟨rfl, rfl⟩
        | cas value => exact ⟨rfl, rfl⟩
        | _ =>
            rw [hp] at hpc
            cases hpc
      unfold decideOn
      split
      · next hfull => exact goto_ rfl hwaiting.2.symm (.inr (.inl ⟨hwaiting.1, rfl, hfull⟩))
      · exact goto_ rfl hwaiting.2.symm (.inl hwaiting.1.symm)
  | grant hpc => exact simulates_grant hexact hc hpc rfl
  | count value hpc =>
      have hanswered : (s.call c).pc.visit = .answered true ∧ (s.call c).pc.granted = 1 := by
        rcases hpc with hpc | ⟨k, hpc⟩ <;> rw [hpc] <;> exact ⟨rfl, rfl⟩
      unfold countOn
      split <;> exact goto_ rfl hanswered.2.symm (.inl hanswered.1.symm)
  | counted value hpc => exact goto_ rfl (by rw [hpc]; rfl) (.inl (by rw [hpc]; rfl))
  | raise value hpc =>
      have hanswered : (s.call c).pc.visit = .answered true ∧ (s.call c).pc.granted = 1 := by
        rcases hpc with hpc | ⟨k, hpc⟩ <;> rw [hpc] <;> exact ⟨rfl, rfl⟩
      unfold raiseOn
      split <;> exact goto_ rfl hanswered.2.symm (.inl hanswered.1.symm)
  | raised value hpc => exact goto_ rfl (by rw [hpc]; rfl) (.inl (by rw [hpc]; rfl))
  | issue hpc =>
      refine simulates_goto hexact hc rfl Credits.setPc_self (fun d hd => Credits.setPc_of_ne hd)
        (by rw [hpc]; rfl) (.inr (.inr ⟨true, by rw [hpc]; rfl, rfl⟩))
  | decline hpc =>
      have hanswered : (s.call c).pc.visit = .answered false ∧ (s.call c).pc.granted = 0 := by
        rcases hpc with hpc | ⟨k, hpc⟩ <;> rw [hpc] <;> exact ⟨rfl, rfl⟩
      unfold countOn
      split
      · exact goto_ rfl hanswered.2.symm (.inr (.inr ⟨false, hanswered.1, rfl⟩))
      · exact goto_ rfl hanswered.2.symm (.inl hanswered.1.symm)
  | declined hpc =>
      exact goto_ rfl (by rw [hpc]; rfl) (.inr (.inr ⟨false, by rw [hpc]; rfl, rfl⟩))

lemma simulates_enter :
    (Turnstile.machine m.val).stepOption s.look (some (.call s.calls)) =
      some (look { s with toCredits := s.toCredits.begin_ .load }) := by
  have hguard : s.look.visit s.calls = .absent := if_neg (Nat.lt_irrefl _)
  refine (if_pos hguard).trans (congrArg some (Turnstile.ext (Finset.ext fun d => ?_) ?_))
  · show d ∈ s.look.taken ↔ d ∈ (look { s with toCredits := s.toCredits.begin_ .load }).taken
    simp only [mem_taken]
    by_cases hd : d = s.calls
    · subst hd
      simp [Credits.begin_, EnterPc.granted, EnterPc.holding]
    · simp [Credits.begin_, hd]
      omega
  · funext d
    by_cases hd : d = s.calls
    · subst hd
      simp [look, Credits.begin_, EnterPc.visit]
    · have hlt : d ≤ s.calls ↔ d < s.calls := by omega
      simp [look, Credits.begin_, hd, hlt]

/-- A step of the leases gives a place up, or is not seen. -/
lemma simulates_lease (hexact : Exact m s) {act : Leases.Act} {r : Credits EnterPc × Option ℕ}
    (hstep : s.toCredits.stepLeases true act = some r)
    (ht : t.toCredits = r.1) :
    (Turnstile.machine m.val).stepOption s.look (r.2.map .giveUp) = some t.look := by
  obtain ⟨hcalls, hpcs, -⟩ := Credits.calls_of_stepLeases hstep
  have hrefunds := Credits.call_of_stepLeases hstep
  rw [← ht] at hcalls hpcs hrefunds
  have hvisit : t.look.visit = s.look.visit := by
    funext d
    simp only [look, hcalls, hpcs]
  cases hr : r.2 with
  | none =>
      refine congrArg some (Turnstile.ext (Finset.ext fun d => ?_) hvisit.symm)
      simp [mem_taken, hcalls, hpcs, hrefunds, hr]
  | some c =>
      obtain ⟨hc, hzero, hholding, hgranted⟩ :=
        Credits.given_of_stepLeases hexact.conserved EnterPc.granted_le hstep hr
      have hentered : (s.call c).pc = .entered := by
        cases hpc : (s.call c).pc with
        | entered => rfl
        | _ => simp [hpc, EnterPc.granted, EnterPc.holding] at hholding hgranted
      have hguard : c ∈ s.look.taken ∧ s.look.visit c = .returned true :=
        ⟨mem_taken.mpr ⟨hc, by omega⟩, by rw [visit_look hc, hentered]; rfl⟩
      refine (if_pos hguard).trans
        (congrArg some (Turnstile.ext (Finset.ext fun d => ?_) hvisit.symm))
      rw [Finset.mem_erase, mem_taken, mem_taken, hcalls, hpcs, hrefunds, hr]
      by_cases hd : d = c
      · subst hd
        simp [hzero, hgranted]
      · simp [hd, Ne.symm hd]

lemma simulates (m : Maximum) :
    (machine m).Simulates (Turnstile.machine m.val) (fun _ _ => True) look (shown m) where
  init := by
    refine Turnstile.ext (Finset.ext fun c => ?_) (funext fun c => ?_)
    · rw [mem_taken]
      simp [machine, Turnstile.machine, Admission.initial, Credits.initial, Turnstile.initial]
    · simp [look, machine, Turnstile.machine, Admission.initial, Credits.initial,
        Turnstile.initial]
  step s act t hs _ hstep := by
    have hexact := exact_of_reachable hs
    replace hstep : s.step m act = some t := hstep
    cases act with
    | enter =>
        cases hstep
        exact simulates_enter
    | run c ok =>
        have hshown : shown m s (.run c ok) =
            Turnstile.change c (s.look.visit c) (t.look.visit c) := by simp [shown, hstep]
        obtain ⟨hc, hrun⟩ := Option.ite_none_right_eq_some.mp hstep
        rw [hshown]
        exact simulates_run hexact hc (runs_of_runCall hrun)
    | lease act =>
        obtain ⟨r, hr, rfl⟩ := Option.map_eq_some_iff.mp hstep
        have hshown : shown m s (.lease act) = r.2.map .giveUp := by simp [shown, hr]
        rw [hshown]
        exact simulates_lease hexact hr rfl

/-- **Connection admission is linearizable.**  For any number of threads and any interleaving of the
atomic operations of their calls of `try_enter()` with the operations on leases, exchanges that fail
without a reason included: the calls, the moments at which they are decided, their returns and the
givings up of leases are a run of the turnstile, in which a call is let in exactly if there is room
at its moment. -/
theorem admission_is_a_turnstile (m : Maximum) {seen : List Turnstile.Event} {s : Admission}
    (hs : (machine m).ShownUnder (fun _ _ => True) (shown m) seen s) :
    (Turnstile.machine m.val).run Turnstile.initial seen = some s.look :=
  (simulates m).run hs

/-- Of two calls for one place one is let in and the other one refused, each between its call and
its return. -/
theorem admission_is_a_turnstile_at_contendedRun :
    ∃ s : Admission, s.active = 1 ∧ (Turnstile.machine single.val).run Turnstile.initial
      [.call 0, .call 1, .answer 0 true, .answer 1 false, .ret 0 true, .ret 1 false] =
        some s.look := by
  obtain ⟨seen, s, hs, htest⟩ := (machine single).exists_shownUnder_of_run (fun _ _ => true)
    (fun _ _ _ => trivial) (shown single) contendedRun
    (fun seen s => decide (seen = [.call 0, .call 1, .answer 0 true, .answer 1 false, .ret 0 true,
      .ret 1 false] ∧ s.active = 1)) (by decide +kernel)
  obtain ⟨rfl, hactive⟩ := of_decide_eq_true htest
  exact ⟨s, hactive, admission_is_a_turnstile single hs⟩

end Admission

end ReactorRuntime
