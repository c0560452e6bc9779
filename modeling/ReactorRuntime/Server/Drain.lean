import ReactorRuntime.Accept.Handshake
import ReactorRuntime.Server.Shutdown
import ReactorRuntime.Server.Startup

/-!
# The drain

`sessions_end_within` (`reactor.h:742-749`) waits for one reactor after another, each under its own
lock and with the other loops running, and answers whether every session has ended.  The answer is
about one moment all the same.  Once the accept loops are over nobody makes a ticket, so a count
that was seen at 0 stays there until the last one has been looked at.

What else is said of that moment comes from the order in which a frame ends.  Its control
leaves the list before its ticket is destroyed, and the ticket gives its lease back before it
leaves the count; so with the counts at 0 there is no control on any list, and the only leases left
could be with an accept loop.
-/

namespace ReactorRuntime

namespace Sessions

variable {n : ℕ} {t t' : Sessions n}

/-- With nothing in any accept loop's hand, no session is added to a count. -/
lemma Balanced.sessions_le {maximum : ℕ} {act : Act n} (hbal : t.Balanced)
    (h : t.step maximum act = some t') (hempty : ∀ j, t.hand j = .empty) (r : Fin (n + 1)) :
    t'.sessions_ r ≤ t.sessions_ r := by
  cases act with
  | enter j =>
      obtain ⟨-, h⟩ := Option.ite_none_right_eq_some.mp h
      split at h
      · cases h
        exact le_rfl
      · obtain ⟨-, h⟩ := Option.ite_none_right_eq_some.mp h
        cases h
        exact le_rfl
  | refuse j =>
      obtain ⟨-, h⟩ := Option.ite_none_right_eq_some.mp h
      cases h
      exact le_rfl
  | mint j home => simp [Sessions.step, hempty j] at h
  | launched j => simp [Sessions.step, hempty j] at h
  | failed j => simp [Sessions.step, hempty j] at h
  | conn c a =>
      obtain ⟨-, h⟩ := Option.ite_none_right_eq_some.mp h
      obtain ⟨k', -, rfl⟩ := Option.map_eq_some_iff.mp h
      rw [hbal.sessions_settle r]
      exact Nat.sub_le ..

/-- An accept loop's hand changes by what it does itself, or by the end of a launch that it is
in. -/
lemma Balanced.hand_of_conn {maximum : ℕ} {c : ℕ} {a : Conn.Act} (h : t.Balanced)
    (hstep : t.step maximum (.conn c a) = some t') (i : Fin (n + 1)) (hi : t'.hand i ≠ .empty) :
    t.hand i ≠ .empty := by
  obtain ⟨-, hstep⟩ := Option.ite_none_right_eq_some.mp hstep
  obtain ⟨k', -, rfl⟩ := Option.map_eq_some_iff.mp hstep
  by_cases hvia : (t.conn c).via = some i
  · simp [h.calling c i hvia]
  · intro hempty
    apply hi
    show handAfter c (t.conn c) k' t.hand i = .empty
    rw [handAfter_of_ne (.inl hvia), hempty]

/-- Admitting and launching are about the accept loop's own hand, which is empty after all of them
but an admission. -/
lemma hand_of_desk {maximum : ℕ} {act : Act n} {j : Fin (n + 1)} (h : t.step maximum act = some t')
    (hact : act = .enter j ∨ act = .refuse j ∨ act = .launched j ∨ act = .failed j) :
    (∀ i, i ≠ j → t'.hand i = t.hand i) ∧ (act ≠ .enter j → t'.hand j = .empty) := by
  rcases hact with rfl | rfl | rfl | rfl
  · refine ⟨fun i hi => ?_, fun hne => absurd rfl hne⟩
    obtain ⟨-, h⟩ := Option.ite_none_right_eq_some.mp h
    split at h
    · cases h
      simp [hi]
    · obtain ⟨-, h⟩ := Option.ite_none_right_eq_some.mp h
      cases h
      simp [hi]
  · obtain ⟨⟨hempty, -⟩, h⟩ := Option.ite_none_right_eq_some.mp h
    cases h
    exact ⟨fun i hi => rfl, fun _ => hempty⟩
  · obtain ⟨-, h⟩ := Option.ite_none_right_eq_some.mp h
    cases h
    exact ⟨fun i hi => by simp [hi], fun _ => by simp⟩
  · simp only [step] at h
    split at h
    · obtain ⟨-, h⟩ := Option.ite_none_right_eq_some.mp h
      cases h
      exact ⟨fun i hi => by simp [hi], fun _ => by simp⟩
    · cases h

end Sessions

namespace Server

variable {n : ℕ} {cfg : Config} {s s' : Server n}

/-! ## What an accept loop holds -/

/-- An accept loop that holds something of a connection is at its launch. -/
def AtLaunch (s : Server n) : Prop :=
  ∀ i, s.sessions.hand i ≠ .empty → s.acceptPc i = some .launch

/-- A control that is finished has a coroutine that has ended. -/
def Finishing (s : Server n) : Prop :=
  ∀ i a, s.control i = some a → (a.finished = true ↔ a.pc = .ended)

lemma finishing_of_step (h : s.Finishing) {act : Act n}
    (hstep : (machine cfg).step s act = some s') : s'.Finishing := by
  intro i a' ha'
  cases hhost : isHost act with
  | false =>
      rcases (beside_of_step hhost hstep).control i with heq | ⟨a, b, a₁, ha, hab, ha₁⟩
      · exact h i a' (heq ▸ ha')
      · obtain rfl : a₁ = a' := Option.some.inj (ha₁.symm.trans ha')
        exact Accept.finished_iff_of_move (Accept.move_of_step hab) (h i a ha)
  | true =>
      by_cases hown : ∃ ok, act = .own ok
      · obtain ⟨ok, rfl⟩ := hown
        have hhandled := (Upkeep.of_own hstep).control i
        generalize hc : s.control i = c at hhandled
        rw [ha'] at hhandled
        cases hhandled with
        | same => exact h i a' hc
        | told isTold hab =>
            exact Accept.finished_iff_of_move (Accept.move_of_step hab) (h i _ hc)
        | made ok port pc => cases ok <;> simp [spawned, Accept.initial, Accept.finish]
      · rw [(control_of_host hhost (not_exists.mp hown) hstep).2.1] at ha'
        exact h i a' ha'

/-- What the accept loop does apart from admitting and launching, it does elsewhere. -/
lemma acceptPc_of_acceptStep {i j : Fin (n + 1)} {act : Accept.Act}
    (h : s.acceptStep cfg i act = some s') (hj : s.acceptPc j = some .launch) :
    s'.acceptPc j = some .launch := by
  have hact : ∀ {t : Server n} {act : Accept.Act}, s.acceptAct cfg i act = some t →
      act ≠ .store → act ≠ .post → (∀ o, act ≠ .run o) → t.acceptPc j = some .launch := by
    intro t act ht hstore hpost hrun
    obtain ⟨a, ha, ht⟩ := Option.bind_eq_some_iff.mp ht
    obtain ⟨a', hstep, rfl⟩ := Option.map_eq_some_iff.mp ht
    by_cases hij : j = i
    · subst hij
      have hpc : a.pc = .launch := by simpa [acceptPc, ha] using hj
      have hmove : Accept.Move _ a act a' := Accept.move_of_step hstep
      cases hmove <;> simp_all [AcceptPc.executing]
    · simpa [acceptPc, hij] using hj
  cases act with
  | store => cases h
  | post => cases h
  | complete error => exact hact h (by simp) (by simp) (by simp)
  | expire => exact hact h (by simp) (by simp) (by simp)
  | stopOnOwner => exact hact (Option.ite_none_right_eq_some.mp h).2 (by simp) (by simp) (by simp)
  | dispatch => exact hact (Option.ite_none_right_eq_some.mp h).2 (by simp) (by simp) (by simp)
  | run o =>
      obtain ⟨⟨-, -, hnot⟩, h⟩ := Option.ite_none_right_eq_some.mp h
      obtain ⟨t, ht, rfl⟩ := Option.map_eq_some_iff.mp h
      obtain ⟨a, ha, ht⟩ := Option.bind_eq_some_iff.mp ht
      obtain ⟨a', -, rfl⟩ := Option.map_eq_some_iff.mp ht
      have hij : j ≠ i := fun heq => hnot (heq ▸ hj)
      have hkept : ∀ u : Server n, u.control = Function.update s.control i (some a') →
          u.acceptPc j = some .launch := by
        intro u hu
        simpa [acceptPc, hu, hij] using hj
      split
      · apply hkept
        unfold chooseTarget
        split <;> rfl
      · exact hkept _ rfl

lemma admitStep_cases {i : Fin (n + 1)} {pc : AcceptPc} {o : Accept.Outcome} {act : Sessions.Act n}
    (h : s.admitStep cfg i pc o act = some s') :
    ∃ a a', s.control i = some a ∧ a.pc = pc ∧
      Accept.Move (cfg.listener (s.host.portOf i)) a (.run o) a' ∧
      s'.control = Function.update s.control i (some a') ∧
      s.sessions.step cfg.maximum act = some s'.sessions := by
  obtain ⟨hpc, h⟩ := Option.ite_none_right_eq_some.mp h
  obtain ⟨t, ht, h⟩ := Option.bind_eq_some_iff.mp h
  obtain ⟨a, ha, ht⟩ := Option.bind_eq_some_iff.mp ht
  obtain ⟨a', hstep, rfl⟩ := Option.map_eq_some_iff.mp ht
  obtain ⟨u, hu, rfl⟩ := Option.map_eq_some_iff.mp h
  exact ⟨a, a', ha, by simpa [acceptPc, ha] using hpc, Accept.move_of_step hstep, rfl, hu⟩

namespace AtLaunch

lemma congr (h : s.AtLaunch) (hsessions : s'.sessions = s.sessions)
    (hcontrol : ∀ i, s.acceptPc i = some .launch → s'.acceptPc i = some .launch) :
    s'.AtLaunch := by
  intro i hi
  rw [hsessions] at hi
  exact hcontrol i (h i hi)

lemma of_admit (h : s.AtLaunch) {i : Fin (n + 1)} {pc : AcceptPc} {o : Accept.Outcome}
    {act : Sessions.Act n} (hstep : s.admitStep cfg i pc o act = some s')
    (hact : act = .enter i ∨ act = .refuse i ∨ act = .launched i ∨ act = .failed i)
    (henter : act = .enter i → pc = .admission ∧ o = .ok) : s'.AtLaunch := by
  obtain ⟨a, a', ha, hpc, hmove, hcontrol, hsessions⟩ := admitStep_cases hstep
  obtain ⟨hothers, hown⟩ := Sessions.hand_of_desk hsessions hact
  intro j hj
  by_cases hij : j = i
  · subst hij
    by_cases hact' : act = .enter j
    · obtain ⟨rfl, rfl⟩ := henter hact'
      -- past `try_enter()`, the launch is next
      have hnext : a'.pc = .launch := by cases hmove <;> simp_all
      simp [acceptPc, hcontrol, hnext]
    · exact absurd (hown hact') hj
  · rw [hothers j hij] at hj
    simpa [acceptPc, hcontrol, hij] using h j hj

lemma of_inward (h : s.AtLaunch) (hbal : s.sessions.Balanced) (hin : Inward cfg s s') :
    s'.AtLaunch := by
  intro i hi
  have hpc : s'.acceptPc i = s.acceptPc i := by simp [acceptPc, hin.control]
  rw [hpc]
  apply h
  rcases hin.sessions with heq | ⟨c, a, hstep⟩
  · rw [heq] at hi
    exact hi
  · exact hbal.hand_of_conn hstep i hi

/-- The owner makes a control only where there is none. -/
lemma of_own (h : s.AtLaunch) {intact : Prop} (hh : Hosted cfg intact s.host s.control) {ok : Bool}
    (hstep : (machine cfg).step s (.own ok) = some s') : s'.AtLaunch := by
  have hup := Upkeep.of_own hstep
  refine h.congr hup.sessions fun i hi => ?_
  obtain ⟨a, ha, hpc⟩ := Option.map_eq_some_iff.mp hi
  have hhandled := hup.control i
  rw [ha] at hhandled
  show (s'.control i).map Accept.pc = some .launch
  generalize hc' : s'.control i = c' at hhandled
  cases hhandled with
  | same => exact congrArg some hpc
  | told isTold hab =>
      have hmove : Accept.Move _ a _ _ := Accept.move_of_step hab
      rcases isTold with rfl | rfl <;> cases hmove <;> exact congrArg some hpc
  | made ok port pc =>
      have hat := hh.here
      rw [pc] at hat
      exact absurd (hat.2.2.2 i (by simp [ha])) (Nat.lt_irrefl _)

lemma step (h : s.AtLaunch) (hbal : s.sessions.Balanced) {intact : Prop}
    (hh : Hosted cfg intact s.host s.control) {act : Act n}
    (hstep : (machine cfg).step s act = some s') : s'.AtLaunch := by
  have host : isHost act = true → (∀ ok, act ≠ .own ok) → s'.AtLaunch := by
    intro hhost hown
    obtain ⟨hsessions, hcontrol, -⟩ := control_of_host hhost hown hstep
    exact h.congr hsessions fun i hi => by simpa [acceptPc, hcontrol] using hi
  cases act with
  | own ok => exact h.of_own hh hstep
  | callStart port => exact host rfl (by simp)
  | callStop => exact host rfl (by simp)
  | postFails => exact host rfl (by simp)
  | leave r => exact host rfl (by simp)
  | accept i act =>
      exact h.congr (same_of_acceptStep hstep).sessions fun j => acceptPc_of_acceptStep hstep
  | enter i => exact h.of_admit hstep (.inl rfl) fun _ => ⟨rfl, rfl⟩
  | refuse i => exact h.of_admit hstep (.inr (.inl rfl)) (by simp)
  | launched i => exact h.of_admit hstep (.inr (.inr (.inl rfl))) (by simp)
  | failed i badAlloc => exact h.of_admit hstep (.inr (.inr (.inr rfl))) (by simp)
  | mint i =>
      obtain ⟨hpc, hstep⟩ := Option.ite_none_right_eq_some.mp hstep
      obtain ⟨u, hu, rfl⟩ := Option.map_eq_some_iff.mp hstep
      intro j hj
      by_cases hij : j = i
      · rw [hij]
        exact hpc
      · apply h
        simp only [Sessions.step] at hu
        split at hu
        · cases hu
          simpa [hij] using hj
        · cases hu
  | conn c a => exact h.of_inward hbal (inward_of_connStep hstep)
  | loop r a => exact h.of_inward hbal (inward_of_loopStep hstep)

end AtLaunch

/-! ## The accept loops are over -/

/-- What the drain rests on, in every reachable state. -/
structure Desk (cfg : Config) (s : Server n) : Prop where
  balanced : s.sessions.Balanced
  hosted : Hosted cfg False s.host s.control
  finishing : s.Finishing
  atLaunch : s.AtLaunch

lemma Desk.step (h : Desk cfg s) {act : Act n} (hstep : (machine cfg).step s act = some s') :
    Desk cfg s' where
  balanced := by
    rcases (deed_of_step hstep).sessions_step with heq | ⟨a, ha⟩
    · exact heq ▸ h.balanced
    · exact h.balanced.step ha
  hosted := h.hosted.step (fun hf => hf.elim) hstep
  finishing := finishing_of_step h.finishing hstep
  atLaunch := h.atLaunch.step h.balanced h.hosted hstep

lemma desk_of_reachable (hs : (machine cfg).Reachable s) : Desk cfg s := by
  refine hs.invariant (I := Desk cfg) ?_ fun s act s' h _ hstep => h.step hstep
  refine ⟨.initial, .initial, fun i a ha => ?_, fun i hi => absurd rfl hi⟩
  simp [machine, Server.initial] at ha

lemma Desk.hand_empty (h : Desk cfg s) (hover : ∀ r, Over s.control r) (i : Fin (n + 1)) :
    s.sessions.hand i = .empty := by
  by_contra hi
  obtain ⟨a, ha, hpc⟩ := Option.map_eq_some_iff.mp (h.atLaunch i hi)
  have hended := (h.finishing i a ha).mp (hover i a ha)
  rw [hpc] at hended
  cases hended

/-- **With the accept loops over, no count grows.** -/
theorem Desk.sessions_le (h : Desk cfg s) (hover : ∀ r, Over s.control r) {act : Act n}
    (hstep : (machine cfg).step s act = some s') (r : Fin (n + 1)) :
    s'.sessions.sessions_ r ≤ s.sessions.sessions_ r := by
  rcases (deed_of_step hstep).sessions_step with heq | ⟨a, ha⟩
  · rw [heq]
  · exact h.balanced.sessions_le ha (h.hand_empty hover) r

/-- A step takes no control away, leaves one that is over so, and makes none once `stop()` has been
called. -/
lemma Desk.control_step (h : Desk cfg s) {act : Act n}
    (hstep : (machine cfg).step s act = some s') (r : Fin (n + 1)) :
    ((s.control r).isSome = true → (s'.control r).isSome = true) ∧
    ((s.control r).isSome = true → Over s.control r → Over s'.control r) ∧
    (s.host.stopped_ = true → (s'.control r).isSome = true → (s.control r).isSome = true) := by
  -- a control that takes a step of its own
  have own : ∀ a b a', s.control r = some a → s'.control r = some a' →
      a.step (cfg.listener (s.host.portOf r)) b = some a' →
      Over s.control r → Over s'.control r := by
    intro a b a' ha ha' hab hover a₁ ha₁
    obtain rfl : a' = a₁ := Option.some.inj (ha'.symm.trans ha₁)
    exact ((h.hosted.truthful r a ha).stays hab).2 (hover a ha)
  have same : s'.control r = s.control r → ((s.control r).isSome = true →
        (s'.control r).isSome = true) ∧
      ((s.control r).isSome = true → Over s.control r → Over s'.control r) ∧
      (s.host.stopped_ = true → (s'.control r).isSome = true → (s.control r).isSome = true) := by
    intro heq
    unfold Over
    rw [heq]
    exact ⟨id, fun _ => id, fun _ => id⟩
  cases hhost : isHost act with
  | false =>
      rcases (beside_of_step hhost hstep).control r with heq | ⟨a, b, a', ha, hab, ha'⟩
      · exact same heq
      · exact ⟨fun _ => by simp [ha'], fun _ => own a b a' ha ha' hab, fun _ _ => by simp [ha]⟩
  | true =>
      by_cases hown : ∃ ok, act = .own ok
      · obtain ⟨ok, rfl⟩ := hown
        have hhandled := (Upkeep.of_own hstep).control r
        generalize hc : s.control r = c at hhandled
        generalize hc' : s'.control r = c' at hhandled
        cases hhandled with
        | same =>
            rw [← hc]
            rw [← hc] at hc'
            exact hc' ▸ same hc'
        | told isTold hab => exact ⟨fun _ => rfl, fun _ => own _ _ _ hc hc' hab, fun _ _ => rfl⟩
        | made ok port pc =>
            -- `start()` is under way, and has made no control here
            have hat := h.hosted.here
            rw [pc] at hat
            refine ⟨fun _ => rfl, fun hsome => ?_, fun hstopped => ?_⟩
            · rw [← hc] at hsome
              exact absurd (hat.2.2.2 r hsome) (Nat.lt_irrefl _)
            · have hrunning := h.hosted.starting (by rw [pc]; rfl)
              simp [hrunning.2] at hstopped
      · exact same (by rw [(control_of_host hhost (not_exists.mp hown) hstep).2.1])

/-- The controls of `t` are controls that were over in `s`. -/
def Closed (s t : Server n) : Prop :=
  ∀ r, (t.control r).isSome = true → (s.control r).any Accept.finished = true

lemma sessions_le_of_closed {t : Server n} (hs : (machine cfg).Reachable s)
    (hlead : (machine cfg).Leads s t) (hclosed : Closed s t) :
    (∀ r, (s.control r).isSome = true → (t.control r).isSome = true) ∧
    (∀ r, Over t.control r) ∧ ∀ r, t.sessions.sessions_ r ≤ s.sessions.sessions_ r := by
  induction hlead with
  | refl =>
      refine ⟨fun _ => id, fun r a ha => ?_, fun _ => le_rfl⟩
      simpa [ha] using hclosed r (by simp [ha])
  | @tail u v hlead hlast ih =>
      obtain ⟨act, -, hstep⟩ := hlast
      have hdesk := desk_of_reachable (Relation.ReflTransGen.trans hs hlead)
      have hkept := hdesk.control_step hstep
      obtain ⟨hsome, hover, hle⟩ := ih fun r hr => hclosed r ((hkept r).1 hr)
      refine ⟨fun r hr => (hkept r).1 (hsome r hr), fun r a ha => ?_, fun r => ?_⟩
      · have hthere : (s.control r).isSome = true := by
          obtain ⟨b, hb, -⟩ := (Option.any_eq_true ..).mp (hclosed r (by simp [ha]))
          simp [hb]
        exact (hkept r).2.1 (hsome r hthere) (hover r) a ha
      · exact (hdesk.sessions_le hover hstep r).trans (hle r)

/-! ## The grace waits -/

lemma Desk.over_of_graced (h : Desk cfg s) {p : StopPc} {b : Bool} (hpc : s.host.pc = .stop p b)
    (hgraced : p.graced = true) (r : Fin (n + 1)) : Over s.control r := by
  have hat := h.hosted.here
  rw [hpc] at hat
  cases p with
  | drain i d => exact hat r
  | force i => exact hat r
  | awaitForce i => exact hat r
  | drainForced i => exact hat r
  | clearGuards => exact hat r
  | halt i => exact hat.1 r
  | join i => exact hat.1 r
  | clear => exact hat.1 r
  | _ => cases hgraced

lemma closed_of_graced {t : Server n} {p : StopPc} {b : Bool} (hs : (machine cfg).Reachable s)
    (hpc : s.host.pc = .stop p b) (hgraced : p.graced = true) (hlead : (machine cfg).Leads s t) :
    Closed s t := by
  have hstopped : s.host.stopped_ = true := (desk_of_reachable hs).hosted.stopping (by
    rw [hpc]
    cases p <;> first | rfl | cases hgraced)
  have hkept := hlead.preserves (I := fun u => (machine cfg).Reachable u ∧
      u.host.stopped_ = true ∧ ∀ r, (u.control r).isSome = true → (s.control r).isSome = true)
    (fun u act u' hu _ hstep => ?_) ⟨hs, hstopped, fun _ => id⟩
  · intro r hr
    obtain ⟨a, ha⟩ := Option.isSome_iff_exists.mp (hkept.2.2 r hr)
    simpa [ha] using (desk_of_reachable hs).over_of_graced hpc hgraced r a ha
  · obtain ⟨hreach, hstop, hsome⟩ := hu
    refine ⟨hreach.step trivial hstep, (flags_stay hstep).2 hstop, fun r hr => ?_⟩
    exact hsome r (((desk_of_reachable hreach).control_step hstep r).2.2 hstop hr)

lemma drain_of_stopStep {ok b b' d : Bool} {p : StopPc} {i : ℕ}
    (h : s.stopStep cfg ok b p = some s') (hpc : s'.host.pc = .stop (.drain i d) b') :
    i = 0 ∨ ∃ j e, p = .drain j e ∧ i = j + 1 ∧ d = (ok && e) ∧
      ∃ hj : j < n + 1, ok = decide (s.sessions.sessions_ ⟨j, hj⟩ = 0) := by
  rcases next_of_stopStep h with ⟨p', hp', hnext⟩ | ⟨hend, -⟩
  · obtain ⟨rfl, rfl⟩ : p' = .drain i d ∧ b = b' := by simpa [hp'] using hpc
    cases hnext with
    | reaped => exact .inl rfl
    | @drain j e =>
        simp only [stopStep] at h
        rcases each_cases h with ⟨hj, -, h⟩ | ⟨-, rfl⟩
        · obtain ⟨hok, h⟩ := Option.ite_none_right_eq_some.mp h
          cases h
          cases hpc
          exact .inr ⟨j, e, rfl, rfl, rfl, hj, hok⟩
        · cases e <;> cases hpc
  · rw [hend] at hpc
    cases hpc

/-- In the first grace wait, the reactors that were seen without sessions are without sessions. -/
def Seen (s : Server n) : Prop :=
  ∀ i b, s.host.pc = .stop (.drain i true) b → ∀ r : Fin (n + 1), r.val < i →
    s.sessions.sessions_ r = 0

lemma Seen.step (h : s.Seen) (hdesk : Desk cfg s) {act : Act n}
    (hstep : (machine cfg).step s act = some s') : s'.Seen := by
  intro i b hpc' r hr
  -- a reactor that was seen empty is empty still
  have stays : ∀ j b, s.host.pc = .stop (.drain j true) b → r.val < j →
      s'.sessions.sessions_ r = 0 := by
    intro j b hpc hj
    have hle := hdesk.sessions_le (hdesk.over_of_graced hpc rfl) hstep r
    rw [h j b hpc r hj] at hle
    omega
  cases hhost : isHost act with
  | false => exact stays i b ((beside_of_step hhost hstep).host ▸ hpc') hr
  | true =>
      cases act with
      | callStart port =>
          obtain ⟨-, hstep⟩ := Option.ite_none_right_eq_some.mp hstep
          cases hstep
          unfold callStart at hpc'
          split at hpc' <;> cases hpc'
      | callStop =>
          obtain ⟨-, hstep⟩ := Option.ite_none_right_eq_some.mp hstep
          cases hstep
          cases hpc'
      | own ok =>
          have hsessions := (Upkeep.of_own hstep).sessions
          simp only [machine, Server.step, ownStep] at hstep
          split at hstep
          · cases hstep
          · next p b₁ hpc =>
              rcases drain_of_stopStep hstep hpc' with rfl | ⟨j, e, rfl, rfl, hd, hj, hok⟩
              · omega
              · obtain ⟨rfl, rfl⟩ : ok = true ∧ e = true := by simpa using hd.symm
                rcases Nat.lt_succ_iff_lt_or_eq.mp hr with hlt | heq
                · exact stays j b₁ hpc hlt
                · obtain rfl : r = ⟨j, hj⟩ := Fin.ext heq
                  rw [hsessions]
                  exact of_decide_eq_true hok.symm
          · cases test_of_startStep hstep _ _ hpc'
      | postFails =>
          simp only [machine, Server.step] at hstep
          split at hstep
          · obtain ⟨-, hstep⟩ := Option.ite_none_right_eq_some.mp hstep
            cases hstep
            cases hpc'
          · cases hstep
      | leave q =>
          obtain ⟨-, hs'⟩ := Option.ite_none_right_eq_some.mp hstep
          cases hs'
          exact stays i b hpc' hr
      | _ => cases hhost

lemma seen_of_reachable (hs : (machine cfg).Reachable s) : s.Seen := by
  refine (hs.invariant (I := fun s => (machine cfg).Reachable s ∧ s.Seen)
    ⟨.init, fun i b hpc => by cases hpc⟩ fun s act s' h _ hstep => ?_).2
  exact ⟨h.1.step trivial hstep, h.2.step (desk_of_reachable h.1) hstep⟩

/-! ## The result -/

/-- No session is left: every count is 0, nothing is linked in any abort list, and no live
connection is counted. -/
structure Idle (s : Server n) : Prop where
  sessions : ∀ r, s.sessions.sessions_ r = 0
  lists : ∀ r, (s.loop r).heap.head_ () = none ∧ ∀ c, (s.loop r).heap.list_ c = none
  active : s.sessions.active = 0

lemma Desk.ended (h : Desk cfg s) (hzero : ∀ r, s.sessions.sessions_ r = 0) {c : ℕ}
    (hc : c < s.sessions.born) : (s.sessions.conn c).stage.owner = none := by
  have hheld := (h.balanced.tidy c).held_eq (s.sessions.conn c).home
  have hle : (s.sessions.conn c).held (s.sessions.conn c).home ≤
      s.sessions.tickets (s.sessions.conn c).home := le_census (Finset.mem_range.mpr hc)
  rw [← h.balanced.sessions, hzero] at hle
  by_contra hsome
  simp [hheld, Option.isSome_iff_ne_none.mpr hsome] at hle

lemma Desk.unlinked (h : Desk cfg s) (hjoined : Joined s.loop s.job s.sessions)
    (hzero : ∀ r, s.sessions.sessions_ r = 0) (r : Fin (n + 1)) : (s.loop r).contents = [] := by
  refine List.eq_nil_iff_forall_not_mem.mpr fun c hc => ?_
  have hsound := (hjoined.side r).sound
  have htracked : (s.loop r).tracked c = true := by
    unfold Loop.tracked
    rw [Option.isSome_iff_ne_none]
    exact fun hnone => hsound.now_none.mp hnone hc
  have hhome := hjoined.homes r c htracked
  have hcontrolled : (s.sessions.conn c).stage.controlled = true := by
    by_contra hnot
    have := (hjoined.linked c).untracked (by simpa using hnot)
    rw [hhome, htracked] at this
    cases this
  have hborn : c < s.sessions.born := by
    by_contra hle
    rw [hjoined.unborn c (by omega)] at hcontrolled
    cases hcontrolled
  have hended := h.ended hzero hborn
  cases hst : (s.sessions.conn c).stage <;> simp_all [ConnStage.owner, ConnStage.controlled]

/-- With the accept loops over, there is nothing left when the counts are 0. -/
lemma idle_of_zero (hs : (machine cfg).Reachable s) (hover : ∀ r, Over s.control r)
    (hzero : ∀ r, s.sessions.sessions_ r = 0) : Idle s := by
  have hdesk := desk_of_reachable hs
  have hjoined := joined_of_reachable hs
  refine ⟨hzero, fun r => ?_, ?_⟩
  · have hsound := (hjoined.side r).sound
    have hnil := hdesk.unlinked hjoined hzero r
    have hrepr := hsound.repr
    rw [hnil] at hrepr
    constructor
    · exact hrepr.threads.head_eq
    · intro c
      rw [Option.eq_none_iff_forall_ne_some]
      intro this hlist
      simpa using (hrepr.member c).mp hlist
  · rw [hdesk.balanced.active]
    have hleases : s.sessions.leases = 0 := by
      refine census_eq_zero fun c hc => ?_
      rw [(hdesk.balanced.tidy c).leased_eq, Conn.lease,
        hdesk.ended hzero (Finset.mem_range.mp hc)]
      rfl
    have hhands : s.sessions.inHand = 0 := by
      refine census_eq_zero fun i _ => ?_
      rw [hdesk.hand_empty hover i]
      rfl
    omega

/-- **The drain is sound.**  Take any reachable state.  As long as no other controls are made than
those that are over in it, no session count is ever higher than it is now.  When the first grace
wait of `stop()` is at its end and has seen every session end, there is no session, no linked
control and no live connection.  The same holds of any wait from the first grace wait on, in
particular of the second one: if each count was 0 at some time since, all are 0 together now.  And
from the first grace wait on no control is made, whatever is called. -/
theorem drain_sound (cfg : Config) {s : Server n} (hs : (machine cfg).Reachable s) :
    (∀ t, (machine cfg).Leads s t → Closed s t →
      ∀ r, t.sessions.sessions_ r ≤ s.sessions.sessions_ r) ∧
    (∀ i b, s.host.pc = .stop (.drain i true) b → n + 1 ≤ i → Idle s) ∧
    ∀ p b, s.host.pc = .stop p b → p.graced = true →
      ∀ t, (machine cfg).Leads s t → Closed s t ∧
        ((∀ r, ∃ u, (machine cfg).Leads s u ∧ (machine cfg).Leads u t ∧
          u.sessions.sessions_ r = 0) → Idle t) := by
  refine ⟨fun t hlead hclosed => (sessions_le_of_closed hs hlead hclosed).2.2,
    fun i b hpc hi => ?_, fun p b hpc hgraced t hlead => ⟨?_, fun hseen => ?_⟩⟩
  · have hover := (desk_of_reachable hs).over_of_graced hpc rfl
    exact idle_of_zero hs hover fun r => seen_of_reachable hs i b hpc r (by omega)
  · exact closed_of_graced hs hpc hgraced hlead
  · have hclosed := closed_of_graced hs hpc hgraced hlead
    have hover := (sessions_le_of_closed hs hlead hclosed).2.1
    refine idle_of_zero (Relation.ReflTransGen.trans hs hlead) hover fun r => ?_
    -- from the moment its count was 0 it has not grown
    obtain ⟨u, hsu, hut, hzero⟩ := hseen r
    obtain ⟨hthere, hover', -⟩ := sessions_le_of_closed hs hsu (closed_of_graced hs hpc hgraced hsu)
    have hclosed' : Closed u t := by
      intro r' hr'
      obtain ⟨a, ha, -⟩ := (Option.any_eq_true ..).mp (hclosed r' hr')
      obtain ⟨a', ha'⟩ := Option.isSome_iff_exists.mp (hthere r' (by simp [ha]))
      simpa [ha'] using hover' r' a' ha'
    have hle := (sessions_le_of_closed (Relation.ReflTransGen.trans hs hsu) hut hclosed').2.2 r
    omega

/-- The walks of both reactors run, and then the second one starts the session that was handed to
it, which is aborted at once and ends. -/
def lateRun : List (Act 1) :=
  [.own true, .loop 1 .runAbort, .loop 1 .resume, .own true, .conn 1 .take, .conn 1 .launch,
    .conn 1 (.frame true), .conn 1 (.spawn true), .conn 1 .start, .loop 1 .resume, .loop 1 .ret,
    .loop 1 .resume, .conn 1 .check, .conn 1 (.unwind true), .conn 1 .reset, .conn 1 .leave]

/-- The session that `stop()` finds running ends, up to the end of its ticket, and `stop()` looks at
the counts. -/
def drainRun : List (Act n) :=
  [.conn 0 .finish, .conn 0 (.unwind true), .conn 0 .reset, .conn 0 .leave] ++
    List.replicate (n + 1) (.own true)

/-- `stop()` has waited for the sessions of two reactors. -/
theorem drain_sound_at_handOff :
    ∃ s : Server 1, (machine twoAtATime).Reachable s ∧
      (s.host.pc = .stop (.drain 2 true) false ∧ s.sessions.born = 2 ∧
        (s.sessions.conn 0).home = 0 ∧ (s.sessions.conn 1).home = 1) ∧ Idle s := by
  obtain ⟨s, hs, htest⟩ := (machine twoAtATime).exists_reachable_of_run
    (List.flatten [servingRun, walkRun, lateRun, reapRun, drainRun])
    (fun s => decide (s.host.pc = .stop (.drain 2 true) false ∧ s.sessions.born = 2 ∧
      (s.sessions.conn 0).home = 0 ∧ (s.sessions.conn 1).home = 1)) (by decide +kernel)
  have hstate := of_decide_eq_true htest
  exact ⟨s, hs, hstate, (drain_sound twoAtATime hs).2.1 2 false hstate.1 le_rfl⟩

end Server

end ReactorRuntime
