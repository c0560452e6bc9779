import ReactorRuntime.Library.Monitor
import ReactorRuntime.Server.Completion

/-!
# The condition variables of the server

In the machine of the server the owner goes on from `wait_listening()`, `wait()` and
`wait_sessions_until()` when their predicates hold.  The source has a mutex and a condition variable
behind each of them: `changed` of an `AcceptControl`, notified by `listening()` and `finish()`
(`reactor.h:489-517`), and `session_changed_` of a `Reactor`, notified by `session_finished()`
(`reactor.h:251-263`).  All three notify when they have given up the mutex, so an owner that looks
between the change and the notification goes on without it, and one that sleeps then has to
be woken by it.

`monitor` spells these waits out.  What has to be shown is that whatever makes the predicate of a
wait true is one of the three (`notified_of_met`); then the owner never sleeps through its
wake-up, and what the server can do with guarded waits, ending a call among others, it can do
with an owner that sleeps (`sleeping_owner_is_woken`).  The wait inside `abort_all()` and
`force_all()` is that of `on_loop_sync`, which is spelt out in `Sync/Waits.lean`.
-/

namespace ReactorRuntime

namespace Server

variable {n : ℕ}

/-- The condition variables that the owner waits on. -/
inductive Cond (n : ℕ)
  /-- `changed` of control `i`. -/
  | changed (i : Fin (n + 1))
  /-- `session_changed_` of reactor `r`. -/
  | session_changed_ (r : Fin (n + 1))
  deriving DecidableEq

/-- The waits of the owner. -/
inductive Wait (n : ℕ)
  /-- `wait_listening()` of control `i`. -/
  | listening (i : Fin (n + 1))
  /-- `wait()` of control `i`. -/
  | finished (i : Fin (n + 1))
  /-- `wait_sessions_until()` of reactor `r`. -/
  | sessions (r : Fin (n + 1))

/-- The condition variable of a wait. -/
def Wait.cond : Wait n → Cond n
  | .listening i => .changed i
  | .finished i => .changed i
  | .sessions r => .session_changed_ r

/-- The predicate of a wait. -/
def met (s : Server n) : Wait n → Bool
  | .listening i => (s.control i).any fun a => a.ready || a.finished
  | .finished i => (s.control i).any Accept.finished
  | .sessions r => decide (s.sessions.sessions_ r = 0)

/-- The wait that the owner is at. -/
def waitOf (cfg : Config) (h : Host n) : Option (Wait n) :=
  match h.pc with
  | .firstPort _ port => if port = 0 ∧ cfg.shared n = false then some (.listening 0) else none
  | .listening i => if hi : i < n + 1 ∧ i < h.accepts_ then some (.listening ⟨i, hi.1⟩) else none
  | .stop (.reap i) _ =>
      if hi : i < n + 1 ∧ i < h.accepts_ then some (.finished ⟨i, hi.1⟩) else none
  | .stop (.drain i _) _ => if hi : i < n + 1 then some (.sessions ⟨i, hi⟩) else none
  | .stop (.drainForced i) _ => if hi : i < n + 1 then some (.sessions ⟨i, hi⟩) else none
  | _ => none

/-- The action is the owner's. -/
def owner : Act n → Option Unit
  | .callStart _ => some ()
  | .callStop => some ()
  | .own _ => some ()
  | .postFails => some ()
  | _ => none

/-- The condition variable that an action notifies: `listening()`, `finish()` and
`session_finished()` do. -/
def notified (s : Server n) : Act n → Option (Cond n)
  | .accept i (.run _) =>
      match s.acceptPc i with
      | some .announce => some (.changed i)
      | some (.ending _) => some (.changed i)
      | _ => none
  | .conn c .leave =>
      ((s.sessions.conn c).stage.owner.bind (s.sessions.conn c).ticket).bind fun ticket =>
        ticket.reactor.map .session_changed_
  | _ => none

/-- The waits of the owner of a server. -/
def monitor (cfg : Config) : Monitor (machine (n := n) cfg) Unit (Cond n) where
  waits s _ := (waitOf cfg s.host).map Wait.cond
  holds s _ := (waitOf cfg s.host).any s.met
  timed s _ := s.host.pc.inGrace
  party := owner
  within _ _ := none
  after := notified

/-! ## What makes a predicate true is notified -/

section

variable {cfg : Config} {s s' : Server n}

/-- Only `listening()` and `finish()` change what a control's waits look at. -/
lemma flags_of_move {l : Listener} {a a' : Accept} {act : Accept.Act} (h : Accept.Move l a act a') :
    (a'.ready = a.ready ∧ a'.finished = a.finished) ∨
      ∃ o, act = .run o ∧ (a.pc = .announce ∨ ∃ error, a.pc = .ending error) := by
  cases h with
  | announce pc => exact .inr ⟨_, rfl, .inl pc⟩
  | finish pc => exact .inr ⟨_, rfl, .inr ⟨_, pc⟩⟩
  | _ => exact .inl ⟨rfl, rfl⟩

/-- What control `i` is waited for does not change. -/
def SameFlags (s s' : Server n) (i : Fin (n + 1)) : Prop :=
  (s'.control i).map (fun a => (a.ready, a.finished)) =
    (s.control i).map fun a => (a.ready, a.finished)

lemma SameFlags.of_eq {i : Fin (n + 1)} (h : s'.control i = s.control i) : SameFlags s s' i := by
  rw [SameFlags, h]

lemma SameFlags.met (w : Wait n) {i : Fin (n + 1)} (h : SameFlags s s' i)
    (hw : w = .listening i ∨ w = .finished i) : s'.met w = s.met w := by
  rw [SameFlags] at h
  rcases hw with rfl | rfl <;>
    cases hs : s.control i <;> cases hs' : s'.control i <;> simp_all [Server.met]

/-- An action on control `j` leaves what control `i` is waited for alone, or is one of the two that
notify. -/
lemma flags_of_acceptAct {i j : Fin (n + 1)} {act : Accept.Act}
    (h : s.acceptAct cfg j act = some s') :
    SameFlags s s' i ∨ j = i ∧ ∃ o, act = .run o ∧
      (s.acceptPc i = some .announce ∨ ∃ error, s.acceptPc i = some (.ending error)) := by
  obtain ⟨a, ha, h⟩ := Option.bind_eq_some_iff.mp h
  obtain ⟨a', ha', rfl⟩ := Option.map_eq_some_iff.mp h
  by_cases hij : i = j
  · subst hij
    rcases flags_of_move (Accept.move_of_step ha') with ⟨hready, hfin⟩ | ⟨o, rfl, hpc⟩
    · exact .inl (by simp [SameFlags, ha, hready, hfin])
    · refine .inr ⟨rfl, o, rfl, ?_⟩
      simpa [acceptPc, ha] using hpc
  · exact .inl (.of_eq (by simp [hij]))

lemma flags_of_admitStep {i j : Fin (n + 1)} {pc : AcceptPc} {o : Accept.Outcome}
    {a : Sessions.Act n} (hpc : pc = .admission ∨ pc = .launch)
    (h : s.admitStep cfg j pc o a = some s') : SameFlags s s' i := by
  obtain ⟨hat, h⟩ := Option.ite_none_right_eq_some.mp h
  obtain ⟨t, ht, h⟩ := Option.bind_eq_some_iff.mp h
  obtain ⟨u, -, rfl⟩ := Option.map_eq_some_iff.mp h
  rcases flags_of_acceptAct (i := i) ht with hsame | ⟨rfl, -, -, hnot⟩
  · exact hsame
  · rw [hat] at hnot
    rcases hpc with rfl | rfl <;> simp at hnot

lemma flags_of_acceptStep {i j : Fin (n + 1)} {act : Accept.Act}
    (h : s.acceptStep cfg j act = some s') :
    SameFlags s s' i ∨ s.notified (.accept j act) = some (.changed i) := by
  have hact : ∀ {t : Server n}, s.acceptAct cfg j act = some t →
      SameFlags s t i ∨ s.notified (.accept j act) = some (.changed i) := by
    intro t ht
    rcases flags_of_acceptAct (i := i) ht with hsame | ⟨rfl, o, rfl, hpc | ⟨error, hpc⟩⟩
    · exact .inl hsame
    · exact .inr (by simp [notified, hpc])
    · exact .inr (by simp [notified, hpc])
  cases act with
  | store => cases h
  | post => cases h
  | complete error => exact hact h
  | expire => exact hact h
  | stopOnOwner => exact hact (Option.ite_none_right_eq_some.mp h).2
  | dispatch => exact hact (Option.ite_none_right_eq_some.mp h).2
  | run o =>
      obtain ⟨-, h⟩ := Option.ite_none_right_eq_some.mp h
      obtain ⟨t, ht, rfl⟩ := Option.map_eq_some_iff.mp h
      rcases hact ht with hsame | htold
      · refine .inl ?_
        split
        · unfold chooseTarget
          split <;> exact hsame
        · exact hsame
      · exact .inr htold

lemma flags_of_step {act : Act n} (hact : owner act = none)
    (h : (machine cfg).step s act = some s') (i : Fin (n + 1)) :
    SameFlags s s' i ∨ s.notified act = some (.changed i) := by
  cases act with
  | leave r =>
      obtain ⟨-, h⟩ := Option.ite_none_right_eq_some.mp h
      cases h
      exact .inl (.of_eq rfl)
  | accept j a => exact flags_of_acceptStep h
  | enter j => exact .inl (flags_of_admitStep (.inl rfl) h)
  | refuse j => exact .inl (flags_of_admitStep (.inl rfl) h)
  | mint j =>
      obtain ⟨-, h⟩ := Option.ite_none_right_eq_some.mp h
      obtain ⟨u, -, rfl⟩ := Option.map_eq_some_iff.mp h
      exact .inl (.of_eq rfl)
  | launched j => exact .inl (flags_of_admitStep (.inr rfl) h)
  | failed j badAlloc => exact .inl (flags_of_admitStep (.inr rfl) h)
  | conn c a => exact .inl (.of_eq (by rw [(inward_of_connStep h).control]))
  | loop r a => exact .inl (.of_eq (by rw [(inward_of_loopStep h).control]))
  | callStart | callStop | own | postFails => cases hact

lemma sessions_of_settle (t : Sessions n) (c : ℕ) (act : Conn.Act) (k' : Conn n) :
    (t.settle c act k').sessions_ = t.sessions_ ∨ ∃ r, act = .leave ∧
      ((t.conn c).stage.owner.bind (t.conn c).ticket).bind Ticket.reactor = some r ∧
      (t.settle c act k').sessions_ = Function.update t.sessions_ r (t.sessions_ r - 1) := by
  simp only [Sessions.settle]
  split
  · rename_i r admission hticket
    exact .inr ⟨r, rfl, by rw [hticket]; rfl, rfl⟩
  · exact .inl rfl

lemma sessions_of_sessionsStep {maximum : ℕ} {t t' : Sessions n} {a : Sessions.Act n}
    (h : t.step maximum a = some t') (r : Fin (n + 1)) :
    t.sessions_ r ≤ t'.sessions_ r ∨ ∃ c, a = .conn c .leave ∧
      ((t.conn c).stage.owner.bind (t.conn c).ticket).bind Ticket.reactor = some r := by
  cases a with
  | enter j =>
      obtain ⟨-, h⟩ := Option.ite_none_right_eq_some.mp h
      split at h
      · cases h
        exact .inl (Nat.le_refl _)
      · obtain ⟨-, h⟩ := Option.ite_none_right_eq_some.mp h
        cases h
        exact .inl (Nat.le_refl _)
  | refuse j | launched j =>
      obtain ⟨-, h⟩ := Option.ite_none_right_eq_some.mp h
      cases h
      exact .inl (Nat.le_refl _)
  | mint j home =>
      simp only [Sessions.step] at h
      split at h
      · cases h
        refine .inl ?_
        by_cases hr : r = home
        · subst hr
          simp
        · simp [hr]
      · cases h
  | failed j =>
      simp only [Sessions.step] at h
      split at h
      · obtain ⟨-, h⟩ := Option.ite_none_right_eq_some.mp h
        cases h
        exact .inl (Nat.le_refl _)
      · cases h
  | conn c act =>
      obtain ⟨-, h⟩ := Option.ite_none_right_eq_some.mp h
      obtain ⟨k', -, rfl⟩ := Option.map_eq_some_iff.mp h
      rcases sessions_of_settle t c act k' with heq | ⟨r', rfl, hticket, heq⟩
      · exact .inl (by rw [heq])
      · by_cases hr : r = r'
        · subst hr
          exact .inr ⟨c, rfl, hticket⟩
        · exact .inl (by rw [heq, Function.update_of_ne hr])

/-- Where a session count goes down, its condition variable is notified. -/
lemma sessions_of_step {act : Act n} (h : (machine cfg).step s act = some s') (r : Fin (n + 1)) :
    s.sessions.sessions_ r ≤ s'.sessions.sessions_ r ∨
      s.notified act = some (.session_changed_ r) := by
  have hpart : ∀ {a : Sessions.Act n}, (∀ c, a ≠ .conn c .leave) →
      s.sessions.step cfg.maximum a = some s'.sessions →
      s.sessions.sessions_ r ≤ s'.sessions.sessions_ r ∨
        s.notified act = some (.session_changed_ r) := by
    intro a ha hstep
    rcases sessions_of_sessionsStep hstep r with hle | ⟨c, hleave, -⟩
    · exact .inl hle
    · exact absurd hleave (ha c)
  have hsame : s'.sessions = s.sessions →
      s.sessions.sessions_ r ≤ s'.sessions.sessions_ r ∨
        s.notified act = some (.session_changed_ r) := by
    intro heq
    exact .inl (by rw [heq])
  cases deed_of_step h with
  | aside same => exact hsame same.sessions
  | ask _ _ _ _ _ _ sessions => exact hsame sessions
  | turn _ _ _ _ _ _ sessions => exact hsame sessions
  | walk _ _ _ _ _ _ sessions => exact hsame sessions
  | desk a hdesk sessions =>
      refine hpart ?_ sessions
      rintro c rfl
      cases hdesk
  | @carry _ a _ hcarry sessions =>
      refine hpart ?_ sessions
      rintro c heq
      cases heq
      cases hcarry
  | start _ _ _ _ sessions => exact hpart (by simp) sessions
  | check _ _ _ sessions => exact hpart (by simp) sessions
  | finish _ _ _ sessions => exact hpart (by simp) sessions
  | unwind _ _ _ _ sessions => exact hpart (by simp) sessions
  | call _ _ _ sessions => exact hpart (by simp) sessions
  | @leave c _ _ _ sessions =>
      rcases sessions_of_sessionsStep sessions r with hle | ⟨c', heq, hticket⟩
      · exact .inl hle
      · cases heq
        refine .inr ?_
        obtain ⟨ticket, hsome, hreactor⟩ := Option.bind_eq_some_iff.mp hticket
        simp [notified, hsome, hreactor]

/-- **What makes the predicate of a wait true notifies its condition variable.** -/
lemma notified_of_met {act : Act n} (hact : owner act = none)
    (h : (machine cfg).step s act = some s') {w : Wait n} (hbefore : s.met w = false)
    (hafter : s'.met w = true) : s.notified act = some w.cond := by
  cases w with
  | listening i =>
      rcases flags_of_step hact h i with hsame | htold
      · rw [hsame.met _ (.inl rfl), hbefore] at hafter
        cases hafter
      · exact htold
  | finished i =>
      rcases flags_of_step hact h i with hsame | htold
      · rw [hsame.met _ (.inr rfl), hbefore] at hafter
        cases hafter
      · exact htold
  | sessions r =>
      rcases sessions_of_step h r with hle | htold
      · have hzero : s'.sessions.sessions_ r = 0 := of_decide_eq_true hafter
        have hpos : s.sessions.sessions_ r ≠ 0 := of_decide_eq_false hbefore
        omega
      · exact htold

lemma waitOf_of_step {act : Act n} (hact : owner act = none)
    (h : (machine cfg).step s act = some s') : waitOf cfg s'.host = waitOf cfg s.host := by
  by_cases hhost : isHost act = true
  · cases act with
    | leave r =>
        obtain ⟨-, h⟩ := Option.ite_none_right_eq_some.mp h
        cases h
        rfl
    | callStart | callStop | own | postFails => cases hact
    | _ => cases hhost
  · rw [(beside_of_step (by simpa using hhost) h).host]

/-! ## The owner goes on when its predicate holds -/

lemma met_of_waitListening {i : Fin (n + 1)} {next : Accept → OwnerPc}
    (h : s.waitListening i next = some s') : s.met (.listening i) = true := by
  obtain ⟨a, ha, h⟩ := Option.bind_eq_some_iff.mp h
  simp only [met, ha, Option.any_some, Bool.or_eq_true]
  split at h
  · exact .inl ‹_›
  · exact .inr (Option.ite_none_right_eq_some.mp h).1

lemma met_of_own {ok : Bool} (h : (machine cfg).step s (.own ok) = some s') {w : Wait n}
    (hw : waitOf cfg s.host = some w) : s.met w = true ∨ s.host.pc.inGrace = true := by
  change s.ownStep cfg ok = some s' at h
  unfold waitOf at hw
  split at hw
  · rename_i i port hpc
    obtain ⟨hport, hw⟩ := Option.ite_none_right_eq_some.mp hw
    cases hw
    rw [ownStep, hpc] at h
    simp only [startStep, if_pos hport] at h
    exact .inl (met_of_waitListening h)
  · rename_i i hpc
    obtain ⟨hi, hw⟩ := Option.dite_none_right_eq_some.mp hw
    cases hw
    rw [ownStep, hpc] at h
    simp only [startStep, each_of_lt hi.1 hi.2] at h
    exact .inl (met_of_waitListening h)
  · rename_i i b hpc
    obtain ⟨hi, hw⟩ := Option.dite_none_right_eq_some.mp hw
    cases hw
    rw [ownStep, hpc] at h
    simp only [stopStep, each_of_lt hi.1 hi.2] at h
    exact .inl (Option.ite_none_right_eq_some.mp h).1
  · rename_i i drained b hpc
    exact .inr (by rw [hpc]; rfl)
  · rename_i i b hpc
    exact .inr (by rw [hpc]; rfl)
  · cases hw

/-- Between its calls, and where a post fails, the owner is at no wait. -/
lemma own_of_wait {act : Act n} (hact : owner act = some ())
    (h : (machine cfg).step s act = some s') {w : Wait n} (hw : waitOf cfg s.host = some w) :
    ∃ ok, act = .own ok := by
  have hbetween : isDone s.host.pc = true → False := by
    intro hdone
    unfold waitOf at hw
    split at hw <;> simp_all [isDone]
  cases act with
  | own ok => exact ⟨ok, rfl⟩
  | callStart port => exact (hbetween (Option.ite_none_right_eq_some.mp h).1).elim
  | callStop => exact (hbetween (Option.ite_none_right_eq_some.mp h).1).elim
  | postFails =>
      simp only [machine, step] at h
      split at h
      · rename_i i b hpc
        simp [waitOf, hpc] at hw
      · cases h
  | _ => cases hact

/-- The waits of the owner are safe. -/
theorem monitor_sound (cfg : Config) (ok : Server n → Act n → Prop) :
    (monitor (n := n) cfg).Sound ok where
  stays {s s' act _ cond} _ _ hstep hnot hwait := by
    have hact : owner act = none := by
      cases hparty : owner act with
      | none => rfl
      | some _ => exact absurd hparty hnot
    change (waitOf cfg s'.host).map Wait.cond = some cond
    rw [waitOf_of_step hact hstep]
    exact hwait
  tells {s s' act _ cond} _ _ hstep hnot hwait hbefore hafter := by
    have hact : owner act = none := by
      cases hparty : owner act with
      | none => rfl
      | some _ => exact absurd hparty hnot
    obtain ⟨w, hw, rfl⟩ := Option.map_eq_some_iff.mp hwait
    have hb : s.met w = false := by
      simpa [monitor, hw] using hbefore
    have ha : s'.met w = true := by
      simpa [monitor, waitOf_of_step hact hstep, hw] using hafter
    exact .inr (notified_of_met hact hstep hb ha)
  goes {s s' act _ cond} _ _ hstep hparty hwait := by
    obtain ⟨w, hw, -⟩ := Option.map_eq_some_iff.mp hwait
    obtain ⟨ok, rfl⟩ := own_of_wait hparty hstep hw
    rcases met_of_own hstep hw with hmet | hgrace
    · exact .inl (by simpa [monitor, hw] using hmet)
    · exact .inr hgrace

/-- **The owner never sleeps through its wake-up.**  In every run of the server with its condition
variables, however looks, sleeps, notifications and spurious wake-ups fall: the server below takes
a run of its own; an owner that sleeps while the predicate of its wait holds has a notification
coming; and whatever the server could do next if the owner's waits were guarded steps it can do with
the owner as it is, woken by notifications and deadlines alone. -/
theorem sleeping_owner_is_woken (cfg : Config) {ok : Server n → Act n → Prop}
    {x : Monitor.State (Server n) Unit (Cond n)}
    (hx : (monitor cfg).machine.ReachableUnder (Monitor.Lifted ok) x) :
    (machine cfg).ReachableUnder ok x.base ∧
    (x.asleep () = true → ∃ w, waitOf cfg x.base.host = some w ∧
      (x.base.met w = true → 0 < x.owed w.cond)) ∧
    ∀ t, (machine cfg).LeadsUnder ok x.base t →
      ∃ y, (monitor cfg).machine.LeadsUnder ((monitor cfg).Undisturbed ok) x y ∧ y.base = t := by
  have hsound := monitor_sound cfg ok
  refine ⟨Monitor.reachable_base hx, ?_, fun t ht => hsound.lift (fun _ _ h => h) hx ht⟩
  intro hasleep
  obtain ⟨cond, hwait, howed⟩ := Monitor.asleep_of_reachable hsound hx hasleep
  obtain ⟨w, hw, rfl⟩ := Option.map_eq_some_iff.mp hwait
  refine ⟨w, hw, ?_⟩
  intro hmet
  exact howed (by simpa [monitor, hw] using hmet)

/-- The owner falls asleep in `wait_listening()`, and the listener comes up. -/
def sleepRun : List (Monitor.Act (Act 0) Unit (Cond 0)) :=
  (startRun ++ [Act.own true, Act.own true]).map .act ++ [.check (), .sleep (.changed 0)] ++
    listenRun.map .act

/-- The owner sleeps, its predicate holds, and the notification is still to be sent. -/
theorem sleeping_owner_is_woken_at_sleepRun :
    ∃ x : Monitor.State (Server 0) Unit (Cond 0),
      (monitor oneAtATime).machine.ReachableUnder (Monitor.Lifted fun _ _ => True) x ∧
      (x.asleep () = true ∧ x.base.met (.listening 0) = true ∧ x.owed (.changed 0) = 1) ∧
      ∃ w, waitOf oneAtATime x.base.host = some w ∧
        (x.base.met w = true → 0 < x.owed w.cond) := by
  obtain ⟨x, hx, htest⟩ := (monitor oneAtATime).machine.exists_reachableUnder_of_run
    (fun _ _ => true) (fun x act _ => show Monitor.Lifted (fun _ _ => True) x act by
      cases act <;> trivial) sleepRun
    (fun x => decide (x.asleep () = true ∧ x.base.met (.listening 0) = true ∧
      x.owed (.changed 0) = 1)) (by decide +kernel)
  obtain ⟨hasleep, hmet, howed⟩ := of_decide_eq_true htest
  exact ⟨x, hx, ⟨hasleep, hmet, howed⟩, (sleeping_owner_is_woken oneAtATime hx).2.1 hasleep⟩

end

end Server

end ReactorRuntime
