import ReactorRuntime.Server.Completion

/-!
# Shutdown misses no session

`stop()` asks every tracked session to stop, then ends the accept loops, then gives the sessions
the grace.  Accept loops admit until they are ended, and a connection may be on its way to another
loop while the walk of that loop runs.  Nothing is missed all the same: a session that starts once
the walk of its reactor has begun finds itself aborted, closes its socket and ends.

So when the first grace wait begins there are two kinds of sessions in the count: those whose token
was requested, once, and those that end without their body being called (`EndsUncalled`).  That
they do end is a matter of the whole server: the handler or the frame is queued on a loop that may
be busy, with a walk, or with the first or the last part of another session.  While the thread of
that loop is in `run()` it gets to it; and what is queued on a loop that nobody drives is
destroyed unrun (`Onward`).
-/

namespace ReactorRuntime

lemma Conn.nearer_or_same {n : ℕ} {k k' : Conn n} {act : Conn.Act} (h : k.step act = some k') :
    k'.rest < k.rest ∨ k'.rest = k.rest ∧ k'.stage = k.stage := by
  by_cases hact : act = .abort
  · subst hact
    rw [step_abort h]
    exact .inr ⟨rfl, rfl⟩
  · exact .inl (rest_step h hact)

lemma Loop.dead_of_move {ν : Type*} [DecidableEq ν] {s s' : Loop ν} {act : ReactorRuntime.Act ν}
    (hmove : Move s act s') {a : ν} (h : s'.dead a = true) (hact : ∀ b, act ≠ .destroy b) :
    s.dead a = true := by
  cases hmove with
  | destroy => exact absurd rfl (hact _)
  | untrack =>
      unfold unlink at h
      split at h <;> exact h
  | _ => exact h

namespace Server

variable {n : ℕ} {cfg : Config} {s s' t : Server n} {r : Fin (n + 1)} {c : ℕ}

/-! ## What is so of every connection -/

/-- A control that was destroyed belonged to a session that has come to its end, and the body of a
session that runs was called. -/
structure Intact (s : Server n) : Prop where
  dead : ∀ r c, (s.loop r).dead c = true → (s.sessions.conn c).passed.isSome = true
  called : ∀ c, (s.sessions.conn c).stage = .running → (s.sessions.conn c).invoked = true

lemma Intact.initial : (Server.initial : Server n).Intact where
  dead _ _ h := by cases h
  called _ h := by cases h

/-- A control is destroyed where its session records that it was passed or not. -/
lemma dead_of_deed {act : Act n} (h : Deed cfg s act s') (hdead : (s'.loop r).dead c = true) :
    (s.loop r).dead c = true ∨ (s'.sessions.conn c).passed.isSome = true := by
  have moved : ∀ {r' : Fin (n + 1)} {a : ReactorRuntime.Act ℕ} {l : Loop ℕ},
      (s.loop r').step a = some l → s'.loop = Function.update s.loop r' l →
      (∀ b, a ≠ .destroy b) → (s.loop r).dead c = true := by
    intro r' a l hl hloop ha
    by_cases hr : r = r'
    · subst hr
      exact Loop.dead_of_move (Loop.move_of_step hl) (by simpa [hloop] using hdead) ha
    · simpa [hloop, hr] using hdead
  cases h with
  | aside same => exact .inl (same.loop ▸ hdead)
  | ask r' k l asked loop => exact .inl (moved asked loop (by cases k <;> simp [request]))
  | desk _ _ _ loop => exact .inl (loop ▸ hdead)
  | carry _ _ loop => exact .inl (loop ▸ hdead)
  | start _ _ _ track _ loop => exact .inl (moved track loop (by simp))
  | check _ _ _ _ loop => exact .inl (loop ▸ hdead)
  | finish _ _ _ _ loop => exact .inl (loop ▸ hdead)
  | leave _ _ loop => exact .inl (loop ▸ hdead)
  | turn isTurn _ _ go loop =>
      exact .inl (moved go loop (by rcases isTurn with rfl | rfl <;> simp))
  | call _ _ go _ loop => exact .inl (moved go loop (by simp))
  | walk k l _ go loop => exact .inl (moved go loop (by cases k <;> simp [begin_]))
  | @unwind c' r' l _ passed home ending when_ destroy sessions loop =>
      obtain ⟨-, -, k', hk', hconn⟩ := Sessions.step_conn sessions
      by_cases hc : c = c'
      · subst hc
        refine .inr ?_
        rw [hconn, Function.update_self, (Conn.step_unwind hk').2]
        rfl
      · refine .inl ?_
        by_cases hr : r = r'
        · subst hr
          cases Loop.move_of_step destroy with
          | destroy => simpa [loop, Loop.destroy, hc] using hdead
        · simpa [loop, hr] using hdead

lemma born_of_passed (hjoined : Joined s.loop s.job s.sessions)
    (hpassed : (s.sessions.conn c).passed.isSome = true) : c < s.sessions.born := by
  by_contra hc
  rw [hjoined.unborn c (by omega)] at hpassed
  cases hpassed

lemma Conn.passed_of_step {k k' : Conn n} {act : Conn.Act} (h : k.step act = some k')
    (hpassed : k.passed.isSome = true) : k'.passed.isSome = true := by
  cases Conn.move_of_step h <;> first | exact hpassed | rfl

lemma Conn.called_of_step {k k' : Conn n} {act : Conn.Act} (h : k.step act = some k')
    (hcalled : k.stage = .running → k.invoked = true) (hrun : k'.stage = .running) :
    k'.invoked = true := by
  cases Conn.move_of_step h with
  | checkRuns => rfl
  | abort => exact hcalled hrun
  | _ => cases hrun

lemma Intact.step {act : Act n} (h : s.Intact) (hs : (machine cfg).Reachable s)
    (hstep : (machine cfg).step s act = some s') : s'.Intact := by
  have hdeed := deed_of_step hstep
  constructor
  · intro r c hdead
    rcases dead_of_deed hdeed hdead with hbefore | hpassed
    · have hpassed := h.dead r c hbefore
      rcases hdeed.conn_step (born_of_passed (joined_of_reachable hs) hpassed) with heq | ⟨a, ha⟩
      · rwa [heq]
      · exact Conn.passed_of_step ha hpassed
    · exact hpassed
  · intro c hrun
    rcases hdeed.conn_cases c with (heq | ⟨a, ha⟩) | ⟨-, j, home, held, hnew⟩
    · rw [heq] at hrun ⊢
      exact h.called c hrun
    · exact Conn.called_of_step ha (h.called c) hrun
    · rw [hnew] at hrun
      cases hrun

lemma intact_of_reachable (hs : (machine cfg).Reachable s) : s.Intact :=
  (hs.invariant (I := fun s => (machine cfg).Reachable s ∧ s.Intact) ⟨.init, .initial⟩
    fun _ _ _ h _ hstep => ⟨h.1.step trivial hstep, h.2.step h.1 hstep⟩).2

/-! ## One step nearer to the end -/

/-- What the library does by itself, with what is queued: a loop whose thread is in `run()` runs the
handlers and frames it has, and those of a loop that nobody drives are destroyed unrun. -/
def Onward (s : Server n) : Act n → Prop
  | .conn _ .take => True
  | .conn _ .start => True
  | .conn c .drop => ¬s.driven (s.sessions.conn c).home
  | act => Unaided s act

lemma Unaided.onward {act : Act n} (h : Unaided s act) : Onward s act := by
  unfold Onward
  split
  · trivial
  · trivial
  · cases h
  · exact h

lemma Deed.nearer_or_same {act : Act n} (h : Deed cfg s act s') (hc : c < s.sessions.born) :
    (s'.sessions.conn c).rest < (s.sessions.conn c).rest ∨
      (s'.sessions.conn c).rest = (s.sessions.conn c).rest ∧
        (s'.sessions.conn c).stage = (s.sessions.conn c).stage := by
  rcases h.conn_step hc with heq | ⟨a, ha⟩
  · exact .inr ⟨by rw [heq], by rw [heq]⟩
  · exact Conn.nearer_or_same ha

/-- The owner has not moved, and connection `c` is where it was or nearer to its end. -/
structure Nearing (c : ℕ) (s t : Server n) : Prop where
  host : t.host = s.host
  born : c < t.sessions.born
  home : (t.sessions.conn c).home = (s.sessions.conn c).home
  near : (t.sessions.conn c).rest < (s.sessions.conn c).rest ∨
    (t.sessions.conn c).rest = (s.sessions.conn c).rest ∧
      (t.sessions.conn c).stage = (s.sessions.conn c).stage

/-- A loop can become idle, unless connection `c` gets nearer to its end on the way. -/
lemma exists_nearer_or_idle (hs : (machine cfg).Reachable s) (hc : c < s.sessions.born)
    (r : Fin (n + 1)) :
    ∃ t, (machine cfg).LeadsUnder Onward s t ∧ (machine cfg).Reachable t ∧ Nearing c s t ∧
      ((t.sessions.conn c).rest < (s.sessions.conn c).rest ∨
        t.job r = .idle ∧ (t.loop r).stack = []) := by
  have hprogress : ∀ t, (machine cfg).Reachable t ∧ Nearing c s t →
      ¬((t.sessions.conn c).rest < (s.sessions.conn c).rest ∨
        t.job r = .idle ∧ (t.loop r).stack = []) →
      ∃ u, (machine cfg).LeadsUnder Onward t u ∧ ((machine cfg).Reachable u ∧ Nearing c s u) ∧
        u.effort r < t.effort r := by
    rintro t ⟨ht, hnear⟩ hnot
    rw [not_or] at hnot
    obtain ⟨act, u, hact, hstep, hwithin, hlt⟩ := exists_effort ht hnot.2
    have hdeed := deed_of_step hstep
    obtain ⟨hrest, hstage⟩ := hnear.near.resolve_left hnot.1
    refine ⟨u, .of_step hact.onward hstep, ⟨ht.step trivial hstep, hwithin.host.trans hnear.host,
      hnear.born.trans_le hdeed.born_le, (hdeed.home hnear.born).trans hnear.home, ?_⟩, hlt⟩
    rw [← hrest, ← hstage]
    exact hdeed.nearer_or_same hnear.born
  obtain ⟨t, hlead, ⟨ht, hnear⟩, hgoal⟩ :=
    Machine.exists_leadsUnder_of_measure (fun t : Server n => t.effort r) hprogress
      ⟨hs, rfl, hc, rfl, .inr ⟨rfl, rfl⟩⟩
  exact ⟨t, hlead, ht, hnear, hgoal⟩

lemma exists_conn_step {a : Conn.Act} {k' : Conn n} (hc : c < s.sessions.born)
    (ha : s.connStep cfg c a = s.sessionAct cfg (.conn c a))
    (hk' : (s.sessions.conn c).step a = some k') :
    ∃ t, (machine cfg).step s (.conn c a) = some t ∧ t.sessions.conn c = k' := by
  obtain ⟨u, hu, hconn⟩ := sessions_step_of_conn cfg.maximum hc hk'
  refine ⟨{ s with sessions := u }, ?_, by simp [hconn]⟩
  simp [machine, Server.step, ha, sessionAct, hu]

lemma exists_start (hs : (machine cfg).Reachable s) (home : (s.sessions.conn c).home = r)
    (hst : (s.sessions.conn c).stage = .spawned) (hdriven : s.driven r) (hidle : s.job r = .idle)
    (hstack : (s.loop r).stack = []) :
    ∃ t, (machine cfg).step s (.conn c .start) = some t ∧
      (s.sessions.conn c).step .start = some (t.sessions.conn c) := by
  have hjoined := joined_of_reachable hs
  have hlinked := hjoined.at_home home
  have hsound := (hjoined.side r).sound
  -- its control has neither been destroyed nor tracked
  have halive : (s.loop r).dead c = false := by
    by_contra hdead
    have hpassed := (intact_of_reachable hs).dead r c (by simpa using hdead)
    simp [hlinked.before (by rw [hst]; rfl)] at hpassed
  have hfree : (s.loop r).heap.list_ c = none := by
    rw [Option.eq_none_iff_forall_ne_some]
    intro u hu
    have htracked := (hsound.running c).mpr (hsound.mem_of_list.mp hu)
    have huntracked := hlinked.untracked (by rw [hst]; rfl)
    simp [Loop.tracked, htracked] at huntracked
  have htrack : (s.loop r).step (.track c) = some ((s.loop r).link c) := by
    simp [Loop.step, ((framed_of_reachable hs).steady r).faultless, Loop.hostTurn, hstack, halive,
      hfree]
  obtain ⟨k', hk'⟩ : ∃ k', (s.sessions.conn c).step .start = some k' := by
    simp [Conn.step, hst]
  obtain ⟨u, hu, hconn⟩ := sessions_step_of_conn cfg.maximum
    (born_of_stage hjoined (by simp [hst])) hk'
  refine ⟨setJob r (.starting c) { s with
    loop := Function.update s.loop r ((s.loop r).link c), sessions := u }, ?_, ?_⟩
  · simp only [machine, Server.step, connStep, home, hdriven, hidle, hstack, and_self, if_true,
      loopAct, htrack, Option.map_some, Option.bind_some, sessionAct, hu]
  · simpa [setJob, hconn] using hk'

/-- A frame that is queued on its loop is started, or destroyed unrun. -/
lemma exists_nearer_of_spawned (hs : (machine cfg).Reachable s)
    (hst : (s.sessions.conn c).stage = .spawned) :
    ∃ t, (machine cfg).LeadsUnder Onward s t ∧
      (t.sessions.conn c).rest < (s.sessions.conn c).rest := by
  have hborn : c < s.sessions.born := born_of_stage (joined_of_reachable hs) (by simp [hst])
  by_cases hdriven : s.driven (s.sessions.conn c).home
  · obtain ⟨t, hlead, ht, hnear, hlt | ⟨hidle, hstack⟩⟩ :=
      exists_nearer_or_idle hs hborn (s.sessions.conn c).home
    · exact ⟨t, hlead, hlt⟩
    · rcases hnear.near with hlt | ⟨hrest, hstage⟩
      · exact ⟨t, hlead, hlt⟩
      · have hdriven' : t.driven (s.sessions.conn c).home := by
          unfold driven
          rw [hnear.host]
          exact hdriven
        obtain ⟨u, hstep, hconn⟩ := exists_start ht hnear.home (hstage.trans hst) hdriven' hidle
          hstack
        exact ⟨u, hlead.andThen (.of_step (a := .conn c .start) trivial hstep),
          hrest ▸ Conn.rest_step hconn (by simp)⟩
  · have hdrop : (s.sessions.conn c).step .drop = some ((s.sessions.conn c).abandon .frame) := by
      simp [Conn.step, hst]
    obtain ⟨t, hstep, hconn⟩ := exists_conn_step hborn rfl hdrop
    exact ⟨t, .of_step (a := .conn c .drop) hdriven hstep,
      hconn ▸ Conn.rest_step hdrop (by simp)⟩

/-- A handler that is queued on its loop is run, or destroyed unrun. -/
lemma exists_nearer_of_posted (hs : (machine cfg).Reachable s)
    (hst : (s.sessions.conn c).stage = .posted) :
    ∃ t, (machine cfg).LeadsUnder Onward s t ∧
      (t.sessions.conn c).rest < (s.sessions.conn c).rest := by
  have hborn : c < s.sessions.born := born_of_stage (joined_of_reachable hs) (by simp [hst])
  by_cases hdriven : s.driven (s.sessions.conn c).home
  · have htake : (s.sessions.conn c).step .take =
        some { (s.sessions.conn c).moveTicket .handler .relaunch with
          stage := .launching .relaunch } := by
      simp [Conn.step, hst]
    obtain ⟨t, hstep, hconn⟩ := exists_conn_step hborn
      (show s.connStep cfg c .take = _ from if_pos hdriven) htake
    exact ⟨t, .of_step (a := .conn c .take) trivial hstep,
      hconn ▸ Conn.rest_step htake (by simp)⟩
  · have hdrop : (s.sessions.conn c).step .drop = some ((s.sessions.conn c).abandon .handler) := by
      simp [Conn.step, hst]
    obtain ⟨t, hstep, hconn⟩ := exists_conn_step hborn rfl hdrop
    exact ⟨t, .of_step (a := .conn c .drop) hdriven hstep,
      hconn ▸ Conn.rest_step hdrop (by simp)⟩

lemma exists_nearer_of_job (hs : (machine cfg).Reachable s)
    (hst : (s.sessions.conn c).stage = .starting ∨ (s.sessions.conn c).stage = .ending) :
    ∃ t, (machine cfg).LeadsUnder Onward s t ∧
      (t.sessions.conn c).rest < (s.sessions.conn c).rest := by
  have hborn : c < s.sessions.born := born_of_stage (joined_of_reachable hs)
    (by rcases hst with hst | hst <;> simp [hst])
  obtain ⟨t, hlead, ht, hnear, hlt | ⟨hidle, -⟩⟩ :=
    exists_nearer_or_idle hs hborn (s.sessions.conn c).home
  · exact ⟨t, hlead, hlt⟩
  · rcases hnear.near with hlt | ⟨-, hstage⟩
    · exact ⟨t, hlead, hlt⟩
    · -- the loop cannot be idle, as it has this session in hand
      have hlinked := (joined_of_reachable ht).at_home hnear.home
      rcases hst with hst | hst
      · have hjob := (hlinked.starting (hstage.trans hst)).1
        rw [hidle] at hjob
        cases hjob
      · have hjob := hlinked.ending (.inl (hstage.trans hst))
        rw [hidle] at hjob
        cases hjob

/-- **A session whose body was not called can get nearer to its end.** -/
lemma exists_nearer (hs : (machine cfg).Reachable s) (hno : (s.sessions.conn c).invoked = false)
    (hst : (s.sessions.conn c).stage ≠ .ended) :
    ∃ t, (machine cfg).LeadsUnder Onward s t ∧
      (t.sessions.conn c).rest < (s.sessions.conn c).rest := by
  have hborn := born_of_stage (joined_of_reachable hs) hst
  -- what asks nothing of the loop is done at once
  have atOnce : ∀ {a : Conn.Act} {k' : Conn n},
      s.connStep cfg c a = s.sessionAct cfg (.conn c a) → Onward s (.conn c a) → a ≠ .abort →
      (s.sessions.conn c).step a = some k' → ∃ t, (machine cfg).LeadsUnder Onward s t ∧
        (t.sessions.conn c).rest < (s.sessions.conn c).rest := by
    intro a k' hplain ha hnot hk'
    obtain ⟨t, hstep, rfl⟩ := exists_conn_step hborn hplain hk'
    exact ⟨t, .of_step ha hstep, Conn.rest_step hk' hnot⟩
  cases hstage : (s.sessions.conn c).stage with
  | launching hop =>
      obtain ⟨k', hk'⟩ : ∃ k', (s.sessions.conn c).step .launch = some k' := by
        by_cases hsite : (s.sessions.conn c).site = (s.sessions.conn c).home <;>
          simp [Conn.step, hstage, hsite]
      exact atOnce (a := .launch) rfl rfl (by simp) hk'
  | captured => exact atOnce (a := .post true) rfl rfl (by simp) (by simp [Conn.step, hstage]; rfl)
  | posted => exact exists_nearer_of_posted hs hstage
  | called hop =>
      exact atOnce (a := .frame true) rfl rfl (by simp) (by simp [Conn.step, hstage]; rfl)
  | framed hop =>
      exact atOnce (a := .spawn true) rfl rfl (by simp) (by simp [Conn.step, hstage]; rfl)
  | spawned => exact exists_nearer_of_spawned hs hstage
  | starting => exact exists_nearer_of_job hs (.inl hstage)
  | running => simp [(intact_of_reachable hs).called c hstage] at hno
  | ending => exact exists_nearer_of_job hs (.inr hstage)
  | dying hop => exact atOnce (a := .reset) rfl rfl (by simp) (by simp [Conn.step, hstage]; rfl)
  | leaving hop =>
      obtain ⟨k', hk'⟩ : ∃ k', (s.sessions.conn c).step .leave = some k' := by
        simp [Conn.step, hstage]
      obtain ⟨u, hu, hconn⟩ := sessions_step_of_conn cfg.maximum hborn hk'
      have hstep : (machine cfg).step s (.conn c .leave) = some
          (if s.job (s.sessions.conn c).home = .ending c then
            setJob (s.sessions.conn c).home .idle { s with sessions := u }
          else { s with sessions := u }) := by
        simp [machine, Server.step, connStep, sessionAct, hu]
      refine ⟨_, .of_step (a := .conn c .leave) rfl hstep, ?_⟩
      have hself : u.conn c = k' := by simp [hconn]
      split <;> exact (congrArg Conn.rest hself).trans_lt (Conn.rest_step hk' (by simp))
  | ended => exact absurd hstage hst

/-! ## The sessions that come too late -/

/-- A session that comes to its check once the walk of its reactor has begun is aborted, and closes
its socket in place of the call of its body. -/
lemma closed_of_check (hs : (machine cfg).Reachable s)
    (hstep : (machine cfg).step s (.conn c .check) = some t)
    (hw : (s.loop (s.sessions.conn c).home).walked_ = true) :
    (s.sessions.conn c).aborted = true ∧ (t.sessions.conn c).stage = .ending ∧
      (t.sessions.conn c).closed = true := by
  obtain ⟨⟨hjob, hstack⟩, h⟩ := Option.ite_none_right_eq_some.mp hstep
  obtain ⟨v, hv, rfl⟩ := Option.map_eq_some_iff.mp h
  obtain ⟨u, hu, rfl⟩ := Option.map_eq_some_iff.mp hv
  obtain ⟨-, -, k', hk', hconn⟩ := Sessions.step_conn hu
  have haborted := (joined_of_reachable hs).aborted_at_check hjob hstack hw
  have hself : u.conn c = { s.sessions.conn c with stage := .ending, closed := true } := by
    rw [hconn, Function.update_self, (Conn.step_check hk').2, if_pos haborted]
  exact ⟨haborted, congrArg Conn.stage hself, congrArg Conn.closed hself⟩

/-- Once the walk of its reactor has begun, a session whose body was not called can end. -/
lemma exists_ended (hs : (machine cfg).Reachable s) (hc : c < s.sessions.born)
    (hno : (s.sessions.conn c).invoked = false)
    (hw : (s.loop (s.sessions.conn c).home).walked_ = true) :
    ∃ t, (machine cfg).LeadsUnder Onward s t ∧ (t.sessions.conn c).stage = .ended := by
  have hprogress : ∀ t, (machine cfg).Leads s t → ¬(t.sessions.conn c).stage = .ended →
      ∃ u, (machine cfg).LeadsUnder Onward t u ∧ (machine cfg).Leads s u ∧
        (u.sessions.conn c).rest < (t.sessions.conn c).rest := by
    intro t ht hnot
    obtain ⟨u, hlead, hlt⟩ := exists_nearer (Relation.ReflTransGen.trans hs ht)
      (never_invoked hs ht hc hno hw) hnot
    exact ⟨u, hlead, ht.andThen (hlead.mono fun _ _ _ => trivial), hlt⟩
  obtain ⟨t, hlead, -, hended⟩ := Machine.exists_leadsUnder_of_measure
    (fun t : Server n => (t.sessions.conn c).rest) hprogress (.here s)
  exact ⟨t, hlead, hended⟩

/-- **The session ends without its body being called**: it is not called in any state that follows;
a check that the session comes to finds it aborted and closes its socket; and from every state
that follows, what the library does by itself can bring the session to its end. -/
structure EndsUncalled (cfg : Config) (s : Server n) (c : ℕ) : Prop where
  never : ∀ t, (machine cfg).Leads s t → (t.sessions.conn c).invoked = false
  closes : ∀ t u, (machine cfg).Leads s t → (machine cfg).step t (.conn c .check) = some u →
    (t.sessions.conn c).aborted = true ∧ (u.sessions.conn c).stage = .ending ∧
      (u.sessions.conn c).closed = true
  ends : ∀ t, (machine cfg).Leads s t →
    ∃ u, (machine cfg).LeadsUnder Onward t u ∧ (u.sessions.conn c).stage = .ended

lemma endsUncalled (hs : (machine cfg).Reachable s) (hc : c < s.sessions.born)
    (hno : (s.sessions.conn c).invoked = false)
    (hw : (s.loop (s.sessions.conn c).home).walked_ = true) : EndsUncalled cfg s c := by
  -- what was so of the session and its reactor stays so
  have later : ∀ t, (machine cfg).Leads s t → c < t.sessions.born ∧
      (t.loop (t.sessions.conn c).home).walked_ = true := by
    intro t ht
    refine ht.preserves (I := fun t => c < t.sessions.born ∧
      (t.loop (t.sessions.conn c).home).walked_ = true) (fun u act u' hu _ hstep => ?_) ⟨hc, hw⟩
    have hdeed := deed_of_step hstep
    refine ⟨hu.1.trans_le hdeed.born_le, ?_⟩
    rw [hdeed.home hu.1]
    exact hdeed.walked_flag hu.2
  have reach : ∀ t, (machine cfg).Leads s t → (machine cfg).Reachable t := fun t ht =>
    Relation.ReflTransGen.trans hs ht
  exact {
    never := fun t ht => never_invoked hs ht hc hno hw
    closes := fun t u ht hstep => closed_of_check (reach t ht) hstep (later t ht).2
    ends := fun t ht => exists_ended (reach t ht) (later t ht).1
      (never_invoked hs ht hc hno hw) (later t ht).2 }

/-- The walk is over: a session in the count was asked to stop, or ends without its body being
called. -/
lemma requested_or_uncalled (hs : (machine cfg).Reachable s)
    (hw : (s.loop (s.sessions.conn c).home).Walked)
    (hcounted : (s.sessions.conn c).stage.owner.isSome = true) :
    (s.sessions.conn c).requests = 1 ∨ EndsUncalled cfg s c := by
  have h := joined_of_reachable hs
  have hlinked := h.linked c
  have hended : (s.sessions.conn c).stage ≠ .ended := fun heq => by
    simp [heq, ConnStage.owner] at hcounted
  have hwalked := (hw.walks_eq_zero (h.side _).solo).2
  have uncalled : (s.sessions.conn c).invoked = false → EndsUncalled cfg s c := fun hno =>
    endsUncalled hs (born_of_stage h hended) hno hwalked
  cases hc : (s.sessions.conn c).stage.controlled with
  | true =>
      by_cases hst : (s.sessions.conn c).stage = .starting
      · exact .inr (uncalled (hlinked.starting hst).2.1)
      · refine .inl (h.requests_eq_one ?_ hw)
        cases hstage : (s.sessions.conn c).stage <;> simp_all [ConnStage.controlled]
  | false =>
      cases hp : (s.sessions.conn c).passed with
      | none => exact .inr (uncalled (hlinked.unstarted hc hp).2)
      | some b =>
          cases b with
          | true => exact .inl (hlinked.gone true hp)
          | false => exact absurd hw (hlinked.unpassed hp hended)

/-- **Shutdown misses no session.**  In every reachable state: a step that calls the body of a
session does so on a reactor whose abort walk has not begun, and a session that comes to that point
later is aborted and closes its socket instead; no token is requested twice; once the walk of its
reactor is over a session with a live body has been requested once, and one whose control is gone
was requested once if the walk had passed it and not at all otherwise; and from the first grace wait
of `stop()` on, every counted session has been requested or ends without its body being called. -/
theorem shutdown_misses_no_session (cfg : Config) {s : Server n} (hs : (machine cfg).Reachable s) :
    (∀ act t c, (machine cfg).step s act = some t → (s.sessions.conn c).invoked = false →
      (t.sessions.conn c).invoked = true → (s.loop (s.sessions.conn c).home).walked_ = false) ∧
    (∀ t c, (machine cfg).step s (.conn c .check) = some t →
      (s.loop (s.sessions.conn c).home).walked_ = true →
      (s.sessions.conn c).aborted = true ∧ (t.sessions.conn c).stage = .ending ∧
        (t.sessions.conn c).closed = true) ∧
    (∀ c, (s.sessions.conn c).requests ≤ 1) ∧
    (∀ c, (s.sessions.conn c).stage = .running ∨ (s.sessions.conn c).stage = .ending →
      (s.loop (s.sessions.conn c).home).Walked → (s.sessions.conn c).requests = 1) ∧
    (∀ c passed, (s.sessions.conn c).passed = some passed →
      (s.sessions.conn c).requests = passed.toNat) ∧
    ∀ p inStart, s.host.pc = .stop p inStart → p.graced = true →
      ∀ c, (s.sessions.conn c).stage.owner.isSome = true →
        (s.sessions.conn c).requests = 1 ∨ EndsUncalled cfg s c := by
  have h := joined_of_reachable hs
  refine ⟨fun act t c hstep hno hyes => h.invoke (deed_of_step hstep) hno hyes,
    fun t c hstep hw => closed_of_check hs hstep hw, h.requests_le_one,
    fun c hst hw => h.requests_eq_one hst hw, fun c passed hp => (h.linked c).gone passed hp,
    fun p inStart hpc hgraced c hcounted => ?_⟩
  have hw := (waited_of_reachable hs).walked p inStart (s.sessions.conn c).home hpc
    (StopPc.past_of_graced hgraced _)
  exact requested_or_uncalled hs hw hcounted

/-- The second reactor's walk runs while a connection is on its way to it. -/
def walkOtherRun : List (Act 1) :=
  [.own true, .loop 1 .runAbort, .loop 1 .resume, .own true]

/-- At its first grace wait `stop()` finds the session that was running on the first reactor, asked
to stop, and the one that was handed to the second reactor, which can still end, uncalled. -/
theorem shutdown_misses_no_session_at_handOff :
    ∃ s : Server 1, (machine twoAtATime).Reachable s ∧
      (s.host.pc = .stop (.drain 0 true) false ∧ (s.sessions.conn 0).stage = .running ∧
        (s.sessions.conn 1).stage = .posted ∧ (s.sessions.conn 1).home = 1 ∧
        (s.sessions.conn 1).requests = 0) ∧
      (s.sessions.conn 0).requests = 1 ∧
      ∃ t, (machine twoAtATime).LeadsUnder Onward s t ∧ (t.sessions.conn 1).stage = .ended ∧
        (t.sessions.conn 1).invoked = false := by
  obtain ⟨s, hs, htest⟩ := (machine twoAtATime).exists_reachable_of_run
    (servingRun ++ walkRun ++ walkOtherRun ++ reapRun)
    (fun s => decide ((s.host.pc = .stop (.drain 0 true) false ∧
      (s.sessions.conn 0).stage = .running ∧ (s.sessions.conn 1).stage = .posted ∧
      (s.sessions.conn 1).home = 1 ∧ (s.sessions.conn 1).requests = 0) ∧
      (s.sessions.conn 0).invoked = true)) (by decide +kernel)
  obtain ⟨hstate, hinvoked⟩ := of_decide_eq_true htest
  have ⟨hpc, hrun, hposted, _, hnone⟩ := hstate
  have hmisses := (shutdown_misses_no_session twoAtATime hs).2.2.2.2.2 _ _ hpc rfl
  have hasked : (s.sessions.conn 0).requests = 1 := by
    refine (hmisses 0 (by rw [hrun]; rfl)).resolve_right fun hends => ?_
    simp [hends.never s (.here s)] at hinvoked
  have hends : EndsUncalled twoAtATime s 1 := by
    refine (hmisses 1 (by rw [hposted]; rfl)).resolve_left fun hrequests => ?_
    omega
  obtain ⟨t, hlead, hended⟩ := hends.ends s (.here s)
  exact ⟨s, hs, hstate, hasked, t, hlead, hended,
    hends.never t (hlead.mono fun _ _ _ => trivial)⟩

end Server

end ReactorRuntime
