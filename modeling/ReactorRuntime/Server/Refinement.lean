import ReactorRuntime.Server.Drain
import ReactorRuntime.Server.Forcing
import ReactorRuntime.Server.Service

/-!
# What a host sees of a server

The server is a `Service`: each of its steps, seen from outside, is the event of the service that it
shows, or nothing (`server_refines_service`).  What is true of the events of every service, such as
that nothing is begun after `stop()` has returned, is then true of what every run of a server shows
(`shown_in_order`).
-/

namespace ReactorRuntime

/-! ## The server seen from outside -/

namespace OwnerPc

/-- The call that the owner is in. -/
def call : OwnerPc → Call
  | .done _ => .none
  | .stop .test _ => .stopping
  | .stop _ _ => .halting
  | _ => .starting

end OwnerPc

/-- What is seen of a connection. -/
def Conn.life {n : ℕ} (k : Conn n) : Life n :=
  if k.invoked then if k.stage = .running then .served k.home else .ended else .unbegun

namespace Server

variable {n : ℕ} {cfg : Config} {s s' : Server n}

/-- What is seen of a server. -/
def look (s : Server n) : Service n where
  call := s.host.pc.call
  started := s.host.started_
  stopped := s.host.stopped_
  shut r := (s.loop r).walked_
  life c := (s.sessions.conn c).life
  asked c := decide (0 < (s.sessions.conn c).requests)

/-- What a statement of the owner shows. -/
def shownByOwner (n : ℕ) (stopped : Bool) : OwnerPc → Option (Service.Event n)
  | .setPort => some .up
  | .poll i => if i < n + 1 then none else some .fail
  | .stop .test _ => some (if stopped then .again else .halt)
  | .stop .clear _ => some .down
  | _ => none

/-- What a step shows. -/
def shown (s : Server n) : Act n → Option (Service.Event n)
  | .callStart _ => some (if s.host.started_ ∨ s.host.stopped_ then .refuse else .start)
  | .callStop => some .stop
  | .own _ => shownByOwner n s.host.stopped_ s.host.pc
  | .conn c .check =>
      if (s.sessions.conn c).aborted then none
      else some (.begun c (s.sessions.conn c).home)
  | .conn c .finish => some (.ended c)
  | .loop r .runAbort => some (.shut r)
  | .loop r .resume =>
      match (s.loop r).nextCall with
      | some (.abort, c) => some (.asked c r)
      | _ => none
  | _ => none

/-! ## What the events rest on -/

/-- A walk is posted where the owner waits for it, a session that runs was begun, and there is none
before `start()`. -/
structure Regular (s : Server n) : Prop where
  posted : ∀ r, (s.loop r).abortPosted = true → ∃ b, s.host.pc = .stop (.awaitAbort r.val) b
  running : ∀ c, (s.sessions.conn c).stage = .running → (s.sessions.conn c).invoked = true
  unborn : s.host.started_ = false → s.sessions.born = 0

lemma abortPosted_of_move {l l' : Loop ℕ} {a : ReactorRuntime.Act ℕ} (hmove : Loop.Move l a l')
    (ha : a ≠ .requestAbort) (h : l'.abortPosted = true) : l.abortPosted = true := by
  cases hmove with
  | untrack => simpa using h
  | destroy => simpa [Loop.destroy] using h
  | requestFirst => exact absurd rfl ha
  | runAbort => cases h
  | _ => exact h

lemma Regular.posted_step (h : s.Regular) {act : Act n}
    (hstep : (machine cfg).step s act = some s') (r : Fin (n + 1))
    (hposted : (s'.loop r).abortPosted = true) :
    ∃ b, s'.host.pc = .stop (.awaitAbort r.val) b := by
  by_cases hown : ∃ ok, act = .own ok
  · obtain ⟨ok, rfl⟩ := hown
    replace hstep : s.ownStep cfg ok = some s' := hstep
    unfold ownStep at hstep
    split at hstep
    · cases hstep
    · next p b hpc =>
        -- a posted walk keeps the owner waiting
        have waits : (s.loop r).abortPosted = true → False := by
          intro hbefore
          obtain ⟨b', hpc'⟩ := h.posted r hbefore
          obtain ⟨rfl, rfl⟩ : p = .awaitAbort r.val ∧ b = b' := by
            rw [hpc] at hpc'
            cases hpc'
            exact ⟨rfl, rfl⟩
          simp only [stopStep] at hstep
          rcases each_cases hstep with ⟨hi, -, hstep⟩ | ⟨hi, -⟩
          · obtain ⟨hover, -⟩ := Option.ite_none_right_eq_some.mp hstep
            simp [walkOver, hbefore] at hover
          · exact hi ⟨r.isLt, r.isLt⟩
        rcases loop_of_stopStep hstep r with heq | ⟨k, hmove, -, hpc'⟩
        · exact (waits (heq ▸ hposted)).elim
        · cases k with
          | abort => exact ⟨b, hpc'⟩
          | force => exact (waits (abortPosted_of_move hmove (by simp [request]) hposted)).elim
    · next hdone hstop =>
        rw [(same_of_startStep hstep).loop] at hposted
        obtain ⟨b, hpc⟩ := h.posted r hposted
        exact absurd hpc (hstop _ b)
  · have hbefore : (s.loop r).abortPosted = true := by
      rcases (deed_of_step hstep).loop_act r with heq | ⟨a, hmove, -, -, -, hask⟩
      · exact heq ▸ hposted
      · exact abortPosted_of_move hmove (fun ha => hown (hask (by rw [ha]; rfl))) hposted
    obtain ⟨b, hpc⟩ := h.posted r hbefore
    refine ⟨b, ?_⟩
    cases hact : isHost act with
    | false => rw [(beside_of_step hact hstep).host, hpc]
    | true =>
        cases act with
        | own ok => exact absurd ⟨ok, rfl⟩ hown
        | leave q =>
            obtain ⟨-, hs'⟩ := Option.ite_none_right_eq_some.mp hstep
            cases hs'
            exact hpc
        | callStart port =>
            obtain ⟨hdone, -⟩ := Option.ite_none_right_eq_some.mp hstep
            simp [hpc, isDone] at hdone
        | callStop =>
            obtain ⟨hdone, -⟩ := Option.ite_none_right_eq_some.mp hstep
            simp [hpc, isDone] at hdone
        | postFails => simp [machine, Server.step, hpc] at hstep
        | _ => cases hact

lemma Regular.running_step (h : s.Regular) {act : Act n}
    (hstep : (machine cfg).step s act = some s') (c : ℕ)
    (hst : (s'.sessions.conn c).stage = .running) : (s'.sessions.conn c).invoked = true := by
  rcases (deed_of_step hstep).sessions_step with heq | ⟨a, ha⟩
  · rw [heq] at hst ⊢
    exact h.running c hst
  · by_cases hconn : ∃ c' a', a = .conn c' a'
    · obtain ⟨c', a', rfl⟩ := hconn
      obtain ⟨-, -, k', hk', hupdate⟩ := Sessions.step_conn ha
      rw [hupdate] at hst ⊢
      by_cases hc : c = c'
      · subst hc
        rw [Function.update_self] at hst ⊢
        cases Conn.move_of_step hk' with
        | checkRuns => rfl
        | abort => exact h.running c hst
        | _ => cases hst
      · rw [Function.update_of_ne hc] at hst ⊢
        exact h.running c hst
    · rcases Sessions.step_desk (fun c' a' hc => hconn ⟨c', a', hc⟩) ha with
        ⟨heq, -⟩ | ⟨j, home, held, -, hupdate⟩
      · rw [heq] at hst ⊢
        exact h.running c hst
      · rw [hupdate] at hst ⊢
        by_cases hc : c = s.sessions.born
        · subst hc
          rw [Function.update_self] at hst
          cases hst
        · rw [Function.update_of_ne hc] at hst ⊢
          exact h.running c hst

/-- A ticket is made by an accept loop that holds a lease. -/
lemma hand_of_born {t t' : Sessions n} {maximum : ℕ} {a : Sessions.Act n}
    (h : t.step maximum a = some t') : t'.born = t.born ∨ ∃ j, t.hand j ≠ .empty := by
  cases a with
  | enter j =>
      obtain ⟨-, h⟩ := Option.ite_none_right_eq_some.mp h
      split at h
      · cases h
        exact .inl rfl
      · obtain ⟨-, h⟩ := Option.ite_none_right_eq_some.mp h
        cases h
        exact .inl rfl
  | mint j home =>
      simp only [Sessions.step] at h
      split at h
      · next hhand => exact .inr ⟨j, by simp [hhand]⟩
      · cases h
  | conn c a => exact .inl (Sessions.step_conn h).2.1
  | refuse j | launched j =>
      obtain ⟨-, h⟩ := Option.ite_none_right_eq_some.mp h
      cases h
      exact .inl rfl
  | failed j =>
      simp only [Sessions.step] at h
      split at h
      · obtain ⟨-, h⟩ := Option.ite_none_right_eq_some.mp h
        cases h
        exact .inl rfl
      · cases h

lemma Regular.unborn_step (h : s.Regular) (hdesk : Desk cfg s) {act : Act n}
    (hstep : (machine cfg).step s act = some s') (hs' : s'.host.started_ = false) :
    s'.sessions.born = 0 := by
  have hs : s.host.started_ = false := by
    cases hs : s.host.started_ with
    | false => rfl
    | true => simp [(flags_stay hstep).1 hs] at hs'
  rcases (deed_of_step hstep).sessions_step with heq | ⟨a, ha⟩
  · rw [heq]
    exact h.unborn hs
  · rcases hand_of_born ha with heq | ⟨j, hj⟩
    · rw [heq]
      exact h.unborn hs
    · -- without `start()` there is no accept loop
      obtain ⟨a, hcontrol, -⟩ := Option.map_eq_some_iff.mp (hdesk.atLaunch j hj)
      simp [(hdesk.hosted.fresh hs).1 j] at hcontrol

lemma regular_of_reachable (hs : (machine cfg).Reachable s) : s.Regular := by
  refine (hs.invariant (I := fun s => (machine cfg).Reachable s ∧ s.Regular) ⟨.init, ?_⟩
    fun s act s' h _ hstep => ⟨h.1.step trivial hstep, h.2.posted_step hstep,
      h.2.running_step hstep, h.2.unborn_step (desk_of_reachable h.1) hstep⟩).2
  exact ⟨fun r hr => (by cases hr), fun c hc => (by cases hc), fun _ => rfl⟩

/-! ## What a step changes of what is seen -/

lemma look_eq (hcall : s'.host.pc.call = s.host.pc.call)
    (hstarted : s'.host.started_ = s.host.started_) (hstopped : s'.host.stopped_ = s.host.stopped_)
    (hwalked : ∀ r, (s'.loop r).walked_ = (s.loop r).walked_)
    (hconn : ∀ c, (s'.sessions.conn c).life = (s.sessions.conn c).life ∧
      (s'.sessions.conn c).requests = (s.sessions.conn c).requests) : s'.look = s.look := by
  refine Service.ext hcall hstarted hstopped (funext hwalked) (funext fun c => (hconn c).1)
    (funext fun c => ?_)
  simp only [look, (hconn c).2]

lemma walked_of_move {l l' : Loop ℕ} {a : ReactorRuntime.Act ℕ} (hmove : Loop.Move l a l')
    (ha : Loop.begins .abort a = false) : l'.walked_ = l.walked_ := by
  cases hmove with
  | untrack => simp
  | destroy => simp [Loop.destroy]
  | abortInline => cases ha
  | runAbort => cases ha
  | forceInline => simp [Loop.beginWalk]
  | runForce => simp [Loop.beginWalk]
  | _ => rfl

/-- A reactor is shut where its abort walk begins. -/
lemma Deed.walked_eq {act : Act n} (h : Deed cfg s act s') (hact : ∀ r, act ≠ .loop r .runAbort)
    (r : Fin (n + 1)) : (s'.loop r).walked_ = (s.loop r).walked_ := by
  have local_ : ∀ {r' : Fin (n + 1)} {a : ReactorRuntime.Act ℕ} {l : Loop ℕ},
      (s.loop r').step a = some l → s'.loop = Function.update s.loop r' l →
      Loop.begins .abort a = false → (s'.loop r).walked_ = (s.loop r).walked_ := by
    intro r' a l hl hloop ha
    rw [hloop]
    by_cases hr : r = r'
    · subst hr
      simpa using walked_of_move (Loop.move_of_step hl) ha
    · simp [hr]
  cases h with
  | aside same => rw [same.loop]
  | ask _ k _ asked loop => exact local_ asked loop (by cases k <;> rfl)
  | desk _ _ _ loop => rw [loop]
  | carry _ _ loop => rw [loop]
  | start _ _ _ track _ loop => exact local_ track loop rfl
  | check _ _ _ _ loop => rw [loop]
  | finish _ _ _ _ loop => rw [loop]
  | unwind _ _ _ destroy _ loop => exact local_ destroy loop rfl
  | leave _ _ loop => rw [loop]
  | turn isTurn _ _ go loop => exact local_ go loop (by rcases isTurn with rfl | rfl <;> rfl)
  | call _ _ go _ loop => exact local_ go loop rfl
  | @walk r' _ k _ _ go loop =>
      cases k with
      | abort => exact absurd rfl (hact r')
      | force => exact local_ go loop rfl

/-- The action of a connection begins or ends its body, or asks it to stop. -/
def isSeen : Sessions.Act n → Bool
  | .conn _ .check => true
  | .conn _ .finish => true
  | .conn _ .abort => true
  | _ => false

/-- Everything else that happens to the connections is not seen. -/
lemma conn_unseen {t t' : Sessions n} {maximum : ℕ} {a : Sessions.Act n}
    (hborn : t.conn t.born = .unborn) (h : t.step maximum a = some t') (ha : isSeen a = false)
    (c : ℕ) : (t'.conn c).life = (t.conn c).life ∧ (t'.conn c).requests = (t.conn c).requests := by
  by_cases hconn : ∃ c' a', a = .conn c' a'
  · obtain ⟨c', a', rfl⟩ := hconn
    obtain ⟨-, -, k', hk', hupdate⟩ := Sessions.step_conn h
    rw [hupdate]
    by_cases hc : c = c'
    · subst hc
      rw [Function.update_self]
      cases Conn.move_of_step hk' with
      | abort => cases ha
      | checkAborted => cases ha
      | checkRuns => cases ha
      | finish => cases ha
      | _ hst => exact ⟨by simp [Conn.life, hst, Conn.abandon, Conn.keepOnly, Conn.moveTicket], rfl⟩
    · rw [Function.update_of_ne hc]
      exact ⟨rfl, rfl⟩
  · rcases Sessions.step_desk (fun c' a' hc => hconn ⟨c', a', hc⟩) h with
      ⟨heq, -⟩ | ⟨j, home, held, -, hupdate⟩
    · rw [heq]
      exact ⟨rfl, rfl⟩
    · rw [hupdate]
      by_cases hc : c = t.born
      · subst hc
        rw [Function.update_self, hborn]
        exact ⟨rfl, rfl⟩
      · rw [Function.update_of_ne hc]
        exact ⟨rfl, rfl⟩

/-! ## The owner -/

lemma call_of_startStep {ok : Bool} {pc : OwnerPc} (h : s.startStep cfg ok pc = some s') :
    (pc = .setPort ∧ s'.host.pc.call = .none) ∨
    (∃ i, pc = .poll i ∧ ¬i < n + 1 ∧ s'.host.pc.call = .stopping) ∨
    (shownByOwner n s.host.stopped_ pc = none ∧ s'.host.pc.call = .starting) := by
  have waited : ∀ {i : Fin (n + 1)} {next : Accept → OwnerPc}, (∀ a, (next a).call = .starting) →
      s.waitListening i next = some s' → s'.host.pc.call = .starting := by
    intro i next hnext h
    obtain ⟨a, -, h⟩ := Option.bind_eq_some_iff.mp h
    split at h
    · cases h
      exact hnext a
    · split at h <;> cases h
      rfl
  cases pc with
  | done how => cases h
  | stop pc inStart => cases h
  | setPort =>
      obtain ⟨front, -, rfl⟩ := Option.map_eq_some_iff.mp h
      exact .inl ⟨rfl, rfl⟩
  | poll i =>
      simp only [startStep] at h
      rcases each_cases h with ⟨hi, -, h⟩ | ⟨hi, rfl⟩
      · cases h
        exact .inr (.inr ⟨by simp [shownByOwner, hi], rfl⟩)
      · exact .inr (.inl ⟨i, rfl, by simpa using hi, rfl⟩)
  | firstPort i port =>
      simp only [startStep] at h
      refine .inr (.inr ⟨rfl, ?_⟩)
      split at h
      · exact waited (fun _ => rfl) h
      · cases h
        rfl
  | listening i =>
      simp only [startStep] at h
      refine .inr (.inr ⟨rfl, ?_⟩)
      rcases each_cases h with ⟨hi, -, h⟩ | ⟨-, rfl⟩
      · exact waited (fun _ => rfl) h
      · rfl
  | flag i =>
      simp only [startStep] at h
      refine .inr (.inr ⟨rfl, ?_⟩)
      rcases each_cases h with ⟨hi, -, h⟩ | ⟨-, rfl⟩
      · obtain ⟨t, -, rfl⟩ := Option.map_eq_some_iff.mp h
        rfl
      · rfl
  | spawn i port =>
      simp only [startStep] at h
      refine .inr (.inr ⟨rfl, ?_⟩)
      rcases each_cases h with ⟨hi, -, h⟩ | ⟨-, rfl⟩
      · cases h
        cases ok <;> rfl
      · rfl
  | claim i =>
      simp only [startStep] at h
      refine .inr (.inr ⟨rfl, ?_⟩)
      rcases each_cases h with ⟨hi, -, h⟩ | ⟨-, rfl⟩
      · cases h
        rfl
      · rfl
  | guard i | thread i | control i port =>
      simp only [startStep] at h
      refine .inr (.inr ⟨rfl, ?_⟩)
      rcases each_cases h with ⟨hi, -, h⟩ | ⟨-, rfl⟩
      · split at h <;> cases h <;> rfl
      · rfl

lemma simulates_startStep {ok : Bool} (hdone : ∀ how, s.host.pc ≠ .done how)
    (hnot : ∀ p b, s.host.pc ≠ .stop p b)
    (hstep : s.startStep cfg ok s.host.pc = some s') :
    Service.machine.stepOption s.look (shownByOwner n s.host.stopped_ s.host.pc) =
      some s'.look := by
  have hsame := same_of_startStep hstep
  have hstep' : (machine cfg).step s (.own ok) = some s' := by
    show s.ownStep cfg ok = some s'
    unfold ownStep
    split
    · next how hp => exact absurd hp (hdone how)
    · next p b hp => exact absurd hp (hnot p b)
    · exact hstep
  have hup := Upkeep.of_own hstep'
  have hstopped : s'.host.stopped_ = s.host.stopped_ := by
    rcases hup.stopped with heq | ⟨-, b, hp⟩
    · exact heq
    · exact absurd hp (hnot _ b)
  have hlook : ∀ call, s'.host.pc.call = call → s'.look = { s.look with call := call } := by
    rintro call rfl
    refine Service.ext rfl hup.started hstopped ?_ ?_ ?_
    · funext r
      simp only [look, hsame.loop]
    · funext c
      simp only [look, hsame.sessions]
    · funext c
      simp only [look, hsame.sessions]
  have hcall : s.look.call = .starting := by
    simp only [look]
    cases hp : s.host.pc with
    | done how => exact absurd hp (hdone how)
    | stop p b => exact absurd hp (hnot p b)
    | _ => rfl
  rcases call_of_startStep hstep with ⟨hp, hafter⟩ | ⟨i, hp, hi, hafter⟩ | ⟨hnone, hafter⟩
  · simp [hp, shownByOwner, Machine.stepOption, Service.machine, Service.step, hcall,
      hlook _ hafter]
  · simp [hp, shownByOwner, hi, Machine.stepOption, Service.machine, Service.step, hcall,
      hlook _ hafter]
  · rw [hnone, hlook _ hafter, ← hcall]
    rfl

/-- `stop()` returns when every reactor is shut and every session that is served was asked. -/
lemma down_of_clear (hs : (machine cfg).ReachableUnder (fun _ act => act ≠ .postFails) s) {b : Bool}
    (hpc : s.host.pc = .stop .clear b) :
    (∀ r, (s.loop r).walked_ = true) ∧ ∀ c r, (s.sessions.conn c).life = .served r →
      0 < (s.sessions.conn c).requests := by
  have hjoined := joined_of_reachable hs.reachable
  have hstopped := (desk_of_reachable hs.reachable).hosted.stopping (by rw [hpc]; rfl)
  have hwalked := (over_of_retired hs ⟨hstopped, by rw [hpc]; rfl⟩).2
  refine ⟨fun r => ((hwalked r).walks_eq_zero (hjoined.side r).solo).2, fun c r hlife => ?_⟩
  have hst : (s.sessions.conn c).stage = .running := by
    unfold Conn.life at hlife
    split at hlife
    · split at hlife
      · assumption
      · cases hlife
    · cases hlife
  rw [hjoined.requests_eq_one (.inl hst) (hwalked _)]
  exact Nat.one_pos

lemma simulates_stopStep (hs : (machine cfg).ReachableUnder (fun _ act => act ≠ .postFails) s)
    {ok b : Bool} {p : StopPc} (hpc : s.host.pc = .stop p b)
    (hstep : s.stopStep cfg ok b p = some s') :
    Service.machine.stepOption s.look (shownByOwner n s.host.stopped_ s.host.pc) =
      some s'.look := by
  have hstep' : (machine cfg).step s (.own ok) = some s' := by
    show s.ownStep cfg ok = some s'
    simp only [ownStep, hpc, hstep]
  by_cases htest : p = .test
  · subst htest
    simp only [stopStep] at hstep
    have hcall : s.look.call = .stopping := by simp [look, hpc, OwnerPc.call]
    split at hstep
    · next hstopped =>
        cases hstep
        have hguard : s.look.call = .stopping ∧ s.look.stopped = true := ⟨hcall, hstopped⟩
        simp only [hpc, shownByOwner, hstopped, if_true, Machine.stepOption, Service.machine,
          Service.step]
        rw [if_pos hguard]
        rfl
    · next hstopped =>
        cases hstep
        replace hstopped : s.host.stopped_ = false := by simpa using hstopped
        have hguard : s.look.call = .stopping ∧ s.look.stopped = false := ⟨hcall, hstopped⟩
        simp only [hpc, shownByOwner, hstopped, Bool.false_eq_true, if_false, Machine.stepOption,
          Service.machine, Service.step]
        rw [if_pos hguard]
        rfl
  by_cases hclear : p = .clear
  · subst hclear
    cases hstep
    obtain ⟨hshut, hasked⟩ := down_of_clear hs hpc
    have hcall : s.look.call = .halting := by simp [look, hpc, OwnerPc.call]
    have hguard : s.look.call = .halting ∧ (∀ r, s.look.shut r = true) ∧
        ∀ c r, s.look.life c = .served r → s.look.asked c = true :=
      ⟨hcall, hshut, fun c r hc => decide_eq_true (hasked c r hc)⟩
    simp only [hpc, shownByOwner, Machine.stepOption, Service.machine, Service.step]
    rw [if_pos hguard]
    rfl
  · have hup := Upkeep.of_own hstep'
    have hshown : shownByOwner n s.host.stopped_ s.host.pc = none := by
      rw [hpc]
      cases p <;> first | rfl | contradiction
    have hlook : s'.look = s.look := by
      refine look_eq ?_ hup.started ?_ ((deed_of_step hstep').walked_eq (by simp)) ?_
      · rcases next_of_stopStep hstep with ⟨p', hp', hnext⟩ | ⟨-, rfl | ⟨rfl, -⟩⟩
        · rw [hpc, hp']
          have : (OwnerPc.stop p b).call = .halting := by
            cases p <;> first | rfl | contradiction
          rw [this]
          cases hnext <;> rfl
        · exact absurd rfl hclear
        · exact absurd rfl htest
      · rcases hup.stopped with heq | ⟨-, b', hp⟩
        · exact heq
        · rw [hpc] at hp
          cases hp
          exact absurd rfl htest
      · intro c
        rw [hup.sessions]
        exact ⟨rfl, rfl⟩
    rw [hshown, hlook]
    rfl

/-! ## The sessions and the loops -/

/-- A step that shows nothing of a session and shuts nothing is not seen, when it is not the
owner's. -/
lemma look_of_beside (hs : (machine cfg).Reachable s) {act : Act n} (hact : isHost act = false)
    (hstep : (machine cfg).step s act = some s') (hshut : ∀ r, act ≠ .loop r .runAbort)
    (hsessions : s'.sessions = s.sessions ∨
      ∃ a, s.sessions.step cfg.maximum a = some s'.sessions ∧ isSeen a = false) :
    s'.look = s.look := by
  have hhost := (beside_of_step hact hstep).host
  refine look_eq (by rw [hhost]) (by rw [hhost]) (by rw [hhost])
    ((deed_of_step hstep).walked_eq hshut) fun c => ?_
  rcases hsessions with heq | ⟨a, ha, hunseen⟩
  · rw [heq]
    exact ⟨rfl, rfl⟩
  · exact conn_unseen ((joined_of_reachable hs).unborn _ le_rfl) ha hunseen c

lemma look_of_conn (hhost : s'.host = s.host)
    (hwalked : ∀ r, (s'.loop r).walked_ = (s.loop r).walked_) {c : ℕ} {k' : Conn n}
    (hconn : s'.sessions.conn = Function.update s.sessions.conn c k') {life : Life n}
    {asked : Bool}
    (hlife : k'.life = life) (hasked : decide (0 < k'.requests) = asked) :
    s'.look = { s.look with
      life := Function.update s.look.life c life
      asked := Function.update s.look.asked c asked } := by
  subst hlife hasked
  refine Service.ext ?_ ?_ ?_ (funext hwalked) (funext fun c' => ?_) (funext fun c' => ?_)
  · exact congrArg (fun h : Host n => h.pc.call) hhost
  · exact congrArg Host.started_ hhost
  · exact congrArg Host.stopped_ hhost
  · by_cases hc : c' = c
    · subst hc
      simp [look, hconn]
    · simp [look, hconn, hc]
  · by_cases hc : c' = c
    · subst hc
      simp [look, hconn]
    · simp [look, hconn, hc]

lemma simulates_check (hs : (machine cfg).Reachable s) {c : ℕ}
    (hstep : (machine cfg).step s (.conn c .check) = some s') :
    Service.machine.stepOption s.look (shown s (.conn c .check)) = some s'.look := by
  have hjoined := joined_of_reachable hs
  have hdeed := deed_of_step hstep
  have hhost := (beside_of_step rfl hstep).host
  obtain ⟨-, hconn⟩ := Option.ite_none_right_eq_some.mp
    (show s.connStep cfg c .check = some s' from hstep)
  obtain ⟨t, ht, rfl⟩ := Option.map_eq_some_iff.mp hconn
  obtain ⟨u, hu, rfl⟩ := Option.map_eq_some_iff.mp ht
  obtain ⟨hc, -, k', hk', hupdate⟩ := Sessions.step_conn hu
  obtain ⟨hst, hk'⟩ := Conn.step_check hk'
  have huninvoked := ((hjoined.linked c).starting hst).2.1
  have hunbegun : s.look.life c = .unbegun := by simp [look, Conn.life, huninvoked]
  have hasked : decide (0 < k'.requests) = s.look.asked c := by
    rw [hk']
    split <;> rfl
  have hlook := @look_of_conn n s _ hhost (hdeed.walked_eq (by simp)) c k' hupdate
  by_cases haborted : (s.sessions.conn c).aborted = true
  · have hshown : shown s (.conn c .check) = none := by simp [shown, haborted]
    have hlife : k'.life = s.look.life c := by
      rw [hunbegun, hk', if_pos haborted]
      simp [Conn.life, huninvoked]
    rw [hshown, hlook hlife hasked, Function.update_eq_self, Function.update_eq_self]
    rfl
  · have hshown : shown s (.conn c .check) = some (.begun c (s.sessions.conn c).home) := by
      simp [shown, haborted]
    have hlife : k'.life = .served (s.sessions.conn c).home := by
      rw [hk', if_neg haborted]
      simp [Conn.life]
    have hstarted : s.host.started_ = true := by
      cases hstarted : s.host.started_ with
      | true => rfl
      | false =>
          have := (regular_of_reachable hs).unborn hstarted
          omega
    have hopen : (s.loop (s.sessions.conn c).home).walked_ = false := by
      refine hjoined.invoke hdeed huninvoked ?_
      simp [setJob, hupdate, hk', haborted]
    have hunasked : s.look.asked c = false := by
      rw [← Bool.not_eq_true]
      exact fun h => haborted ((hjoined.linked c).aborted.trans h)
    have hguard : s.look.started = true ∧ s.look.shut (s.sessions.conn c).home = false ∧
        s.look.life c = .unbegun ∧ s.look.asked c = false :=
      ⟨hstarted, hopen, hunbegun, hunasked⟩
    rw [hshown, hlook hlife hasked, Function.update_eq_self c s.look.asked]
    exact if_pos hguard

lemma simulates_finish (hs : (machine cfg).Reachable s) {c : ℕ}
    (hstep : (machine cfg).step s (.conn c .finish) = some s') :
    Service.machine.stepOption s.look (shown s (.conn c .finish)) = some s'.look := by
  have hhost := (beside_of_step rfl hstep).host
  have hdeed := deed_of_step hstep
  obtain ⟨-, hconn⟩ := Option.ite_none_right_eq_some.mp
    (show s.connStep cfg c .finish = some s' from hstep)
  obtain ⟨t, ht, rfl⟩ := Option.map_eq_some_iff.mp hconn
  obtain ⟨u, hu, rfl⟩ := Option.map_eq_some_iff.mp ht
  obtain ⟨-, -, k', hk', hupdate⟩ := Sessions.step_conn hu
  obtain ⟨hst, rfl⟩ := Conn.step_finish hk'
  have hinvoked := (regular_of_reachable hs).running c hst
  have hguard : ∃ r, s.look.life c = .served r :=
    ⟨(s.sessions.conn c).home, by simp [look, Conn.life, hinvoked, hst]⟩
  have hlife : Conn.life { s.sessions.conn c with stage := .ending } = .ended := by
    simp [Conn.life, hinvoked]
  have hasked : decide (0 < (s.sessions.conn c).requests) = s.look.asked c := rfl
  rw [look_of_conn hhost (hdeed.walked_eq (by simp)) hupdate hlife hasked,
    Function.update_eq_self c s.look.asked]
  exact if_pos hguard

/-- A reactor whose loop is about to call `abort()` is shut. -/
lemma walked_of_nextCall {l : Loop ℕ} (hside : l.AbortSide) {c : ℕ}
    (h : l.nextCall = some (.abort, c)) : l.walked_ = true := by
  unfold Loop.nextCall at h
  split at h
  · next k outer j rest top =>
      obtain ⟨node, -, h⟩ := Option.bind_eq_some_iff.mp h
      split at h
      · cases h
      · cases h
        have hle := hside.solo.walks_le
        have hpos : 0 < Loop.walks .abort l.stack := by simp [Loop.walks, top, Frame.isWalk]
        cases hw : l.walked_ with
        | true => rfl
        | false =>
            simp only [Loop.begun, hw, Bool.toNat_false] at hle
            omega
  · obtain ⟨hw, -⟩ := Option.ite_none_right_eq_some.mp h
    exact hw
  · obtain ⟨-, h⟩ := Option.ite_none_right_eq_some.mp h
    cases h
  · cases h

/-- The session whose `abort()` a loop calls is one of its own, and its body is not over. -/
lemma life_of_nextCall (hjoined : Joined s.loop s.job s.sessions) {r : Fin (n + 1)} {c : ℕ}
    (hfree : isEnding (s.job r) = false) (hcall : (s.loop r).nextCall = some (.abort, c)) :
    s.look.life c = .unbegun ∨ s.look.life c = .served r := by
  have htracked := (hjoined.side r).tracked_of_nextCall hcall
  have hhome := hjoined.homes r c htracked
  have hlinked := hjoined.at_home hhome
  cases hst : (s.sessions.conn c).stage with
  | starting => exact .inl (by simp [look, Conn.life, (hlinked.starting hst).2.1])
  | running =>
      cases hinvoked : (s.sessions.conn c).invoked with
      | true => exact .inr (by simp [look, Conn.life, hinvoked, hst, hhome])
      | false => exact .inl (by simp [look, Conn.life, hinvoked])
  | ending => simp [hlinked.ending (.inl hst), isEnding] at hfree
  | _ =>
      have := hlinked.untracked (by rw [hst]; rfl)
      rw [htracked] at this
      cases this

/-- A call of `abort()` asks a session to stop. -/
lemma simulates_resume (hs : (machine cfg).Reachable s) {r : Fin (n + 1)}
    (hstep : (machine cfg).step s (.loop r .resume) = some s') :
    Service.machine.stepOption s.look (shown s (.loop r .resume)) = some s'.look := by
  have hjoined := joined_of_reachable hs
  have hhost := (beside_of_step rfl hstep).host
  have hdeed := deed_of_step hstep
  have hloop : s.loopStep cfg r .resume = some s' := hstep
  obtain ⟨hfree, hresume⟩ := Option.ite_none_left_eq_some.mp hloop
  simp only [resumeStep] at hresume
  split at hresume
  · next c hcall =>
      obtain ⟨t, ht, habort⟩ := Option.bind_eq_some_iff.mp hresume
      obtain ⟨l, -, rfl⟩ := Option.map_eq_some_iff.mp ht
      obtain ⟨u, hu, rfl⟩ := Option.map_eq_some_iff.mp habort
      obtain ⟨-, -, k', hk', hupdate⟩ := Sessions.step_conn hu
      obtain rfl := Conn.step_abort hk'
      -- it was not asked before, as no session is asked twice
      have hfirst : (s.sessions.conn c).requests = 0 := by
        have hle := (joined_of_reachable (hs.step trivial hstep)).requests_le_one c
        simp only [hupdate, Function.update_self] at hle
        omega
      have hguard : s.look.shut r = true ∧ s.look.asked c = false ∧
          (s.look.life c = .unbegun ∨ s.look.life c = .served r) :=
        ⟨walked_of_nextCall (hjoined.side r) hcall, by simp [look, hfirst],
          life_of_nextCall hjoined (Bool.eq_false_iff.mpr hfree) hcall⟩
      have hshown : shown s (.loop r .resume) = some (.asked c r) := by simp [shown, hcall]
      have hlife : Conn.life { s.sessions.conn c with
          aborted := true, requests := (s.sessions.conn c).requests + 1 } = s.look.life c := rfl
      rw [hshown, look_of_conn hhost (hdeed.walked_eq (by simp)) hupdate hlife
        (decide_eq_true (Nat.succ_pos _)), Function.update_eq_self c s.look.life]
      exact if_pos hguard
  · next hcall =>
      have hshown : shown s (.loop r .resume) = none := by
        simp only [shown]
      obtain ⟨l, -, rfl⟩ := Option.map_eq_some_iff.mp hresume
      exact hshown ▸ congrArg some (look_of_beside hs rfl hstep (by simp) (.inl rfl)).symm

/-- A reactor is shut by the `stop()` that waits for its walk. -/
lemma simulates_runAbort (hs : (machine cfg).Reachable s) {r : Fin (n + 1)}
    (hstep : (machine cfg).step s (.loop r .runAbort) = some s') :
    Service.machine.stepOption s.look (shown s (.loop r .runAbort)) = some s'.look := by
  have hloop : s.loopStep cfg r .runAbort = some s' := hstep
  obtain ⟨-, hact⟩ := Option.ite_none_right_eq_some.mp hloop
  obtain ⟨l, hl, rfl⟩ := Option.map_eq_some_iff.mp hact
  have hmove := Loop.move_of_step hl
  cases hmove with
  | runAbort free posted =>
      obtain ⟨b, hpc⟩ := (regular_of_reachable hs).posted r posted
      have hunwalked := (((joined_of_reachable hs).side r).ordered.posted posted).2
      have hguard : s.look.call = .halting ∧ s.look.shut r = false :=
        ⟨by simp [look, hpc, OwnerPc.call], hunwalked⟩
      refine (if_pos hguard).trans (congrArg some (Service.ext rfl rfl rfl ?_ rfl rfl))
      funext q
      by_cases hq : q = r
      · subst hq
        simp [look, Loop.beginWalk]
      · simp [look, hq]

lemma simulates_callStart {port : ℕ} (hstep : (machine cfg).step s (.callStart port) = some s') :
    Service.machine.stepOption s.look (shown s (.callStart port)) = some s'.look := by
  obtain ⟨hdone, hs'⟩ := Option.ite_none_right_eq_some.mp hstep
  obtain ⟨how, hpc⟩ : ∃ how, s.host.pc = .done how := by
    unfold isDone at hdone
    split at hdone
    · next how hpc => exact ⟨how, hpc⟩
    · cases hdone
  have hcall : s.look.call = .none := by simp [look, hpc, OwnerPc.call]
  cases hs'
  unfold callStart
  split
  · next hflags =>
      have hguard : s.look.call = .none ∧ (s.look.started = true ∨ s.look.stopped = true) :=
        ⟨hcall, hflags⟩
      simp only [shown, if_pos hflags, Machine.stepOption, Service.machine, Service.step]
      rw [if_pos hguard]
      exact congrArg some (Service.ext hcall rfl rfl rfl rfl rfl)
  · next hflags =>
      obtain ⟨hstarted, hstopped⟩ := not_or.mp hflags
      have hguard : s.look.call = .none ∧ s.look.started = false ∧ s.look.stopped = false :=
        ⟨hcall, Bool.eq_false_iff.mpr hstarted, Bool.eq_false_iff.mpr hstopped⟩
      simp only [shown, if_neg hflags, Machine.stepOption, Service.machine, Service.step]
      rw [if_pos hguard]
      rfl

lemma simulates_callStop (hstep : (machine cfg).step s .callStop = some s') :
    Service.machine.stepOption s.look (shown s .callStop) = some s'.look := by
  obtain ⟨hdone, hs'⟩ := Option.ite_none_right_eq_some.mp hstep
  have hcall : s.look.call = .none := by
    unfold isDone at hdone
    split at hdone
    · next hpc => simp [look, hpc, OwnerPc.call]
    · cases hdone
  cases hs'
  exact if_pos hcall

/-- The step may be seen. -/
def isShown : Act n → Bool
  | .callStart _ => true
  | .callStop => true
  | .own _ => true
  | .conn _ .check => true
  | .conn _ .finish => true
  | .loop _ .runAbort => true
  | .loop _ .resume => true
  | _ => false

lemma Deed.unseen {act : Act n} (h : Deed cfg s act s') (hact : isShown act = false) :
    s'.sessions = s.sessions ∨
      ∃ a, s.sessions.step cfg.maximum a = some s'.sessions ∧ isSeen a = false := by
  cases h with
  | aside same => exact .inl same.sessions
  | ask _ _ _ _ _ _ sessions => exact .inl sessions
  | turn _ _ _ _ _ _ sessions => exact .inl sessions
  | walk _ _ _ _ _ _ sessions => exact .inl sessions
  | desk a isDesk sessions =>
      refine .inr ⟨a, sessions, ?_⟩
      cases a with
      | conn c a => cases isDesk
      | _ => rfl
  | @carry c a _ isCarry sessions =>
      refine .inr ⟨_, sessions, ?_⟩
      cases a with
      | check => cases hact
      | finish => cases hact
      | abort => cases isCarry
      | _ => rfl
  | start _ _ _ _ sessions => exact .inr ⟨_, sessions, rfl⟩
  | check => cases hact
  | finish => cases hact
  | unwind _ _ _ _ sessions => exact .inr ⟨_, sessions, rfl⟩
  | leave _ sessions => exact .inr ⟨_, sessions, rfl⟩
  | call => cases hact

lemma simulates_unseen (hs : (machine cfg).Reachable s) {act : Act n} (hact : isShown act = false)
    (hok : act ≠ .postFails) (hstep : (machine cfg).step s act = some s') :
    Service.machine.stepOption s.look (shown s act) = some s'.look := by
  have hshown : shown s act = none := by
    unfold shown
    split <;> first | rfl | cases hact
  have hlook : s'.look = s.look := by
    cases hhost : isHost act with
    | false =>
        refine look_of_beside hs hhost hstep ?_ ((deed_of_step hstep).unseen hact)
        rintro r rfl
        cases hact
    | true =>
        cases act with
        | leave r =>
            obtain ⟨-, hs'⟩ := Option.ite_none_right_eq_some.mp hstep
            cases hs'
            rfl
        | postFails => exact absurd rfl hok
        | callStart | callStop | own => cases hact
        | _ => cases hhost
  rw [hshown, hlook]
  rfl

lemma simulates (cfg : Config) :
    (machine cfg : Machine (Server n) (Act n)).Simulates Service.machine
      (fun _ act => act ≠ .postFails) look shown where
  init := rfl
  step s act s' hs hok hstep := by
    cases hact : isShown act with
    | false => exact simulates_unseen hs.reachable hact hok hstep
    | true =>
        cases act with
        | callStart port => exact simulates_callStart hstep
        | callStop => exact simulates_callStop hstep
        | own ok =>
            replace hstep : s.ownStep cfg ok = some s' := hstep
            unfold ownStep at hstep
            split at hstep
            · cases hstep
            · next p b hpc => exact simulates_stopStep hs hpc hstep
            · next hdone hstop => exact simulates_startStep hdone hstop hstep
        | conn c a =>
            cases a with
            | check => exact simulates_check hs.reachable hstep
            | finish => exact simulates_finish hs.reachable hstep
            | _ => cases hact
        | loop r a =>
            cases a with
            | runAbort => exact simulates_runAbort hs.reachable hstep
            | resume => exact simulates_resume hs.reachable hstep
            | _ => cases hact
        | _ => cases hact

/-- **The server is the service.**  What a run of the server shows, when no post of `stop()` throws,
is a run of the service, and what is seen of the server at its end is where the service has come
to. -/
theorem server_refines_service (cfg : Config) {seen : List (Service.Event n)} {s : Server n}
    (hs : (machine cfg).ShownUnder (fun _ act => act ≠ .postFails) shown seen s) :
    Service.machine.run Service.initial seen = some s.look :=
  (simulates cfg).run hs

/-- `stop()` lets the loops go, joins their threads and returns. -/
def returnRun : List (Act 0) :=
  [.own true, .own true, .own true, .leave 0, .own true, .own true, .own true, .own true]

/-- A session is served, asked to stop, and ends, and `stop()` returns. -/
def lifeRun : List (Act 0) :=
  List.flatten [startRun, listenRun, startedRun, admitRun, launchRun, walkRun, reapRun, drainRun,
    returnRun]

/-- What is seen of it. -/
def lifeSeen : List (Service.Event 0) :=
  [.start, .up, .begun 0 0, .stop, .halt, .shut 0, .asked 0 0, .ended 0, .down]

lemma exists_shown_lifeRun :
    ∃ s : Server 0, (machine oneAtATime).ShownUnder (fun _ act => act ≠ .postFails) shown
      lifeSeen s ∧ s.host.pc = .done .stopped := by
  obtain ⟨seen, s, hs, htest⟩ := (machine oneAtATime).exists_shownUnder_of_run
    (fun _ act => decide (act ≠ .postFails)) (fun _ _ => of_decide_eq_true) shown lifeRun
    (fun seen s => decide (seen = lifeSeen ∧ s.host.pc = .done .stopped)) (by decide +kernel)
  obtain ⟨rfl, hpc⟩ := of_decide_eq_true htest
  exact ⟨s, hs, hpc⟩

/-- The nine events are a run of the service. -/
theorem server_refines_service_at_lifeRun :
    ∃ s : Server 0, s.host.pc = .done .stopped ∧
      Service.machine.run Service.initial lifeSeen = some s.look := by
  obtain ⟨s, hs, hpc⟩ := exists_shown_lifeRun
  exact ⟨s, hpc, server_refines_service oneAtATime hs⟩

/-- **What a server shows comes in order.**  In what a run of the server shows, when no post of
`stop()` throws, every event follows from those before it: `start()` and the first `stop()` do their
work once; a session is begun once, while its reactor is not shut and it was not asked to stop; it
is asked once, by its own reactor, after that was shut and before it ended; and the first `stop()`
returns when every reactor was shut and every session that was begun has ended or was asked, after
which none is begun. -/
theorem shown_in_order (cfg : Config) {seen before after : List (Service.Event n)}
    {e : Service.Event n} {s : Server n}
    (hs : (machine cfg).ShownUnder (fun _ act => act ≠ .postFails) shown seen s)
    (hseen : seen = before ++ e :: after) : e.Follows before := by
  subst hseen
  exact Service.follows_of_run ((simulates cfg).run hs)

/-- Before `stop()` has returned the session was asked to stop or has ended. -/
theorem shown_in_order_at_lifeRun :
    ∃ s : Server 0, s.host.pc = .done .stopped ∧
      (Service.Event.down).Follows (n := 0)
        [.start, .up, .begun 0 0, .stop, .halt, .shut 0, .asked 0 0, .ended 0] := by
  obtain ⟨s, hs, hpc⟩ := exists_shown_lifeRun
  exact ⟨s, hpc, shown_in_order oneAtATime hs rfl⟩

end Server

end ReactorRuntime
