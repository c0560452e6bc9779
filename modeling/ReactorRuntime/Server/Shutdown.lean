import ReactorRuntime.Server.Accounting
import ReactorRuntime.Server.Linkage

/-!
# The abort walks of `stop()` and the sessions

`stop()` asks every tracked session to stop, and waits for each walk before it goes on.  A session
that starts once the walk of its reactor has begun finds itself aborted before its body is
called, so no body is called on a reactor whose walk has begun; and a session whose body was called
before is asked to stop once.  What becomes of the sessions that come too late is the subject of
`Server/Latecomers.lean`.
-/

namespace ReactorRuntime

/-- `stop()` has waited for the abort walk of reactor `i`. -/
def StopPc.past (i : ℕ) : StopPc → Bool
  | .test => false
  | .abort k => decide (i < k)
  | .awaitAbort k => decide (i < k)
  | _ => true

/-- `stop()` has come to its first grace wait. -/
def StopPc.graced : StopPc → Bool
  | .drain _ _ => true
  | .force _ => true
  | .awaitForce _ => true
  | .drainForced _ => true
  | .clearGuards => true
  | .halt _ => true
  | .join _ => true
  | .clear => true
  | _ => false

lemma StopPc.past_of_graced {p : StopPc} (h : p.graced = true) (i : ℕ) : p.past i = true := by
  cases p <;> first | rfl | cases h

namespace Server

variable {n : ℕ} {cfg : Config} {s s' : Server n}

/-! ## The owner waits for the walks -/

lemma Deed.walked {act : Act n} (h : Deed cfg s act s') {r : Fin (n + 1)} (hw : (s.loop r).Walked) :
    (s'.loop r).Walked := by
  rcases h.loop_move r with heq | ⟨a, hmove⟩
  · exact heq ▸ hw
  · exact hw.move hmove

/-- What the owner has waited for is over. -/
structure Waited (s : Server n) : Prop where
  walked : ∀ p b (r : Fin (n + 1)), s.host.pc = .stop p b → p.past r.val = true →
    (s.loop r).Walked
  asked : ∀ i b (h : i < n + 1), s.host.pc = .stop (.awaitAbort i) b →
    (s.loop ⟨i, h⟩).aborting_ = true

/-- The owner is at a place where it has waited for nothing yet. -/
lemma Waited.of_test (h : ∀ p b, s.host.pc = .stop p b → p = .test) : s.Waited where
  walked p b r hpc hpast := by
    obtain rfl := h p b hpc
    cases hpast
  asked i b _ hpc := by cases h _ b hpc

lemma Waited.congr (h : s.Waited) (hpc : s'.host.pc = s.host.pc)
    (hwalked : ∀ r, (s.loop r).Walked → (s'.loop r).Walked)
    (hasked : ∀ r, (s.loop r).aborting_ = true → (s'.loop r).aborting_ = true) : s'.Waited where
  walked p b r hp hpast := hwalked r (h.walked p b r (hpc ▸ hp) hpast)
  asked i b hi hp := hasked _ (h.asked i b hi (hpc ▸ hp))

lemma test_of_startStep {ok : Bool} {pc : OwnerPc} (h : s.startStep cfg ok pc = some s')
    (p : StopPc) (b : Bool) (hpc : s'.host.pc = .stop p b) : p = .test := by
  cases pc with
  | done how => cases h
  | stop pc inStart => cases h
  | setPort =>
      obtain ⟨front, -, rfl⟩ := Option.map_eq_some_iff.mp h
      cases hpc
  | firstPort i port =>
      simp only [startStep] at h
      split at h
      · obtain ⟨a, -, h⟩ := Option.bind_eq_some_iff.mp h
        split at h
        · cases h; cases hpc
        · split at h <;> cases h
          cases hpc
      · cases h; cases hpc
  | listening i =>
      simp only [startStep] at h
      rcases each_cases h with ⟨hi, -, h⟩ | ⟨-, rfl⟩
      · obtain ⟨a, -, h⟩ := Option.bind_eq_some_iff.mp h
        split at h
        · cases h; cases hpc
        · split at h <;> cases h
          cases hpc
      · cases hpc
  | flag i =>
      simp only [startStep] at h
      rcases each_cases h with ⟨hi, -, h⟩ | ⟨-, rfl⟩
      · obtain ⟨t, -, rfl⟩ := Option.map_eq_some_iff.mp h
        cases hpc
      · cases hpc
  | poll i =>
      simp only [startStep] at h
      rcases each_cases h with ⟨hi, -, h⟩ | ⟨-, rfl⟩
      · cases h; cases hpc
      · cases hpc; rfl
  | spawn i port =>
      simp only [startStep] at h
      rcases each_cases h with ⟨hi, -, h⟩ | ⟨-, rfl⟩
      · cases h
        cases ok <;> cases hpc
      · cases hpc
  | claim i =>
      simp only [startStep] at h
      rcases each_cases h with ⟨hi, -, h⟩ | ⟨-, rfl⟩
      · cases h; cases hpc
      · cases hpc
  | guard i | thread i | control i port =>
      simp only [startStep] at h
      rcases each_cases h with ⟨hi, -, h⟩ | ⟨-, rfl⟩
      · split at h <;> cases h <;> cases hpc
      · cases hpc

lemma Waited.of_all {ok : Bool} (hjoined : Joined s.loop s.job s.sessions)
    (hdeed : Deed cfg s (.own ok) s') (hall : ∀ r, (s.loop r).Walked) : s'.Waited where
  walked _ _ r _ _ := hdeed.walked (hall r)
  asked i _ hi _ :=
    have hside := (hjoined.deed hdeed).side ⟨i, hi⟩
    hside.ordered.walked ((hdeed.walked (hall _)).walks_eq_zero hside.solo).2

/-- `stop()` goes on to the accept loops, and later on, only when all walks are over. -/
lemma Waited.stopStep {ok inStart : Bool} {p : StopPc} (h : s.Waited)
    (hjoined : Joined s.loop s.job s.sessions) (hpc : s.host.pc = .stop p inStart)
    (hstep : s.stopStep cfg ok inStart p = some s') : s'.Waited := by
  have hdeed := deed_of_stopStep hstep
  cases p with
  | test =>
      simp only [Server.stopStep] at hstep
      split at hstep <;> cases hstep
      · exact .of_test fun _ _ hp => by cases hp
      · exact ⟨fun p b r hp hpast => by cases hp; simp [StopPc.past] at hpast,
          fun _ _ _ hp => by cases hp⟩
  | abort i =>
      simp only [Server.stopStep] at hstep
      rcases each_cases hstep with ⟨hi, -, hstep⟩ | ⟨hi, rfl⟩
      · obtain ⟨t, ht, rfl⟩ := Option.map_eq_some_iff.mp hstep
        obtain ⟨l, hl, rfl⟩ := Option.map_eq_some_iff.mp ht
        refine ⟨fun p b r hp hpast => hdeed.walked (h.walked _ _ r hpc ?_), fun i' b hi' hp => ?_⟩
        · cases hp
          exact hpast
        · cases hp
          have hmove := Loop.move_of_step hl
          simp only [goto, Function.update_self]
          cases hmove with
          | requestAgain again => exact again
          | requestFirst first => rfl
      · exact .of_all hjoined hdeed fun r => h.walked _ _ r hpc (by simp [StopPc.past]; omega)
  | awaitAbort i =>
      simp only [Server.stopStep] at hstep
      rcases each_cases hstep with ⟨hi, -, hstep⟩ | ⟨hi, rfl⟩
      · obtain ⟨hover, hs'⟩ := Option.ite_none_right_eq_some.mp hstep
        cases hs'
        refine ⟨fun p b r hp hpast => ?_, fun _ _ _ hp => by cases hp⟩
        cases hp
        by_cases hr : r.val = i
        · obtain ⟨hposted, hwalks⟩ : (s.loop ⟨i, hi⟩).abortPosted = false ∧
              Loop.walks .abort (s.loop ⟨i, hi⟩).stack = 0 := by simpa [walkOver] using hover
          obtain rfl : r = ⟨i, hi⟩ := Fin.ext hr
          exact (hjoined.asked _).walked (hjoined.side _).solo (h.asked i _ hi hpc) hposted hwalks
        · refine h.walked _ _ r hpc ?_
          simp only [StopPc.past, decide_eq_true_eq] at hpast ⊢
          omega
      · exact .of_all hjoined hdeed fun r => h.walked _ _ r hpc (by simp [StopPc.past]; omega)
  | _ => exact .of_all hjoined hdeed fun r => h.walked _ _ r hpc rfl

lemma Waited.step {act : Act n} (h : s.Waited) (hjoined : Joined s.loop s.job s.sessions)
    (hstep : (machine cfg).step s act = some s') : s'.Waited := by
  have hdeed := deed_of_step hstep
  have hasked : ∀ r, (s.loop r).aborting_ = true → (s'.loop r).aborting_ = true := fun r ha => by
    rcases hdeed.loop_move r with heq | ⟨a, hmove⟩
    · exact heq ▸ ha
    · exact Loop.aborting_of_move hmove ha
  have beside : s'.host.pc = s.host.pc → s'.Waited := fun hpc =>
    h.congr hpc (fun r => hdeed.walked) hasked
  cases hact : isHost act with
  | false => exact beside (by rw [(beside_of_step hact hstep).host])
  | true =>
      cases act with
      | callStart port =>
          obtain ⟨-, hs'⟩ := Option.ite_none_right_eq_some.mp hstep
          cases hs'
          refine .of_test fun p b hp => ?_
          unfold callStart at hp
          split at hp <;> cases hp
      | callStop =>
          obtain ⟨-, hs'⟩ := Option.ite_none_right_eq_some.mp hstep
          cases hs'
          exact .of_test fun p b hp => by cases hp; rfl
      | own ok =>
          replace hstep : s.ownStep cfg ok = some s' := hstep
          unfold ownStep at hstep
          split at hstep
          · cases hstep
          · next hpc => exact h.stopStep hjoined hpc hstep
          · exact .of_test fun p b => test_of_startStep hstep p b
      | postFails =>
          simp only [machine, Server.step] at hstep
          split at hstep
          · obtain ⟨-, hs'⟩ := Option.ite_none_right_eq_some.mp hstep
            cases hs'
            exact .of_test fun _ _ hp => by cases hp
          · cases hstep
      | leave r =>
          obtain ⟨-, hs'⟩ := Option.ite_none_right_eq_some.mp hstep
          cases hs'
          exact beside rfl
      | _ => cases hact

lemma waited_of_reachable (hs : (machine cfg).Reachable s) : s.Waited := by
  refine (hs.invariant (I := fun s => Joined s.loop s.job s.sessions ∧ s.Waited)
    ⟨.initial, .of_test nofun⟩ fun s act s' h _ hstep => ?_).2
  exact ⟨h.1.deed (deed_of_step hstep), h.2.step h.1 hstep⟩

/-! ## The call of the body -/

lemma invoked_of_conn {t : Sessions n} {c c' : ℕ} {a : Conn.Act}
    (hstep : s.sessions.step cfg.maximum (.conn c' a) = some t)
    (hno : (s.sessions.conn c).invoked = false) (hyes : (t.conn c).invoked = true) :
    c' = c ∧ a = .check ∧ (s.sessions.conn c).aborted = false := by
  obtain ⟨-, -, k', hk', hconn⟩ := Sessions.step_conn hstep
  by_cases hc : c' = c
  · subst hc
    exact ⟨rfl, Conn.step_invoked hk' hno (by simpa [hconn] using hyes)⟩
  · rw [hconn, Function.update_of_ne (Ne.symm hc), hno] at hyes
    cases hyes

/-- A session that comes to its check once the walk of its reactor has begun is aborted: `track`
has returned, past its look at `walked_`. -/
lemma Joined.aborted_at_check {r : Fin (n + 1)} {c : ℕ} (h : Joined s.loop s.job s.sessions)
    (starting : s.job r = .starting c) (free : (s.loop r).stack = [])
    (hw : (s.loop r).walked_ = true) : (s.sessions.conn c).aborted = true := by
  obtain ⟨home, hst⟩ := h.starting r c starting
  rcases ((h.at_home home).starting hst).2.2 with hs | ⟨-, haborted⟩
  · simp [free] at hs
  · exact haborted hw

/-- **The body of a session is called on a reactor whose walk has not begun.** -/
theorem Joined.invoke {act : Act n} {c : ℕ} (h : Joined s.loop s.job s.sessions)
    (hdeed : Deed cfg s act s') (hno : (s.sessions.conn c).invoked = false)
    (hyes : (s'.sessions.conn c).invoked = true) :
    (s.loop (s.sessions.conn c).home).walked_ = false := by
  -- no other deed calls a body
  have other : ∀ {c' : ℕ} {a : Conn.Act},
      s.sessions.step cfg.maximum (.conn c' a) = some s'.sessions → a ≠ .check → False :=
    fun hstep ha => ha (invoked_of_conn hstep hno hyes).2.1
  have same : s'.sessions = s.sessions → False := fun heq => by
    rw [heq, hno] at hyes
    cases hyes
  cases hdeed with
  | aside hsame => exact (same hsame.sessions).elim
  | ask _ _ _ _ _ _ sessions => exact (same sessions).elim
  | turn _ _ _ _ _ _ sessions => exact (same sessions).elim
  | walk _ _ _ _ _ _ sessions => exact (same sessions).elim
  | desk a isDesk sessions =>
      rcases Sessions.step_desk (by rintro c a rfl; cases isDesk) sessions with
        ⟨hconn, -⟩ | ⟨i, home, held, -, hconn⟩
      · rw [hconn, hno] at hyes
        cases hyes
      · by_cases hc : c = s.sessions.born
        · simp [hconn, hc, Conn.fresh, Conn.unborn] at hyes
        · rw [hconn, Function.update_of_ne hc, hno] at hyes
          cases hyes
  | carry isCarry sessions => exact (other sessions (by rintro rfl; cases isCarry)).elim
  | start _ _ _ _ sessions => exact (other sessions (by simp)).elim
  | finish _ _ _ sessions => exact (other sessions (by simp)).elim
  | unwind _ _ _ _ sessions => exact (other sessions (by simp)).elim
  | leave _ sessions => exact (other sessions (by simp)).elim
  | call _ _ _ sessions => exact (other sessions (by simp)).elim
  | @check c' r _ home starting free sessions =>
      obtain ⟨rfl, -, haborted⟩ := invoked_of_conn sessions hno hyes
      rw [home]
      by_contra hwalked
      rw [h.aborted_at_check starting free (by simpa using hwalked)] at haborted
      cases haborted

lemma Deed.walked_flag {act : Act n} (h : Deed cfg s act s') {r : Fin (n + 1)}
    (hw : (s.loop r).walked_ = true) : (s'.loop r).walked_ = true := by
  rcases h.loop_move r with heq | ⟨a, hmove⟩
  · exact heq ▸ hw
  · exact Loop.walked_of_move hmove hw

/-- A connection takes at most one step of its own, or gets its ticket. -/
lemma Deed.conn_cases {act : Act n} (h : Deed cfg s act s') (c : ℕ) :
    (s'.sessions.conn c = s.sessions.conn c ∨
      ∃ a, (s.sessions.conn c).step a = some (s'.sessions.conn c)) ∨
    c = s.sessions.born ∧ ∃ j home held, s'.sessions.conn c = .fresh j home held := by
  rcases h.sessions_step with heq | ⟨a, ha⟩
  · exact .inl (.inl (by rw [heq]))
  · cases a with
    | conn c' a =>
        obtain ⟨-, -, k', hk', hconn⟩ := Sessions.step_conn ha
        by_cases hne : c = c'
        · subst hne
          exact .inl (.inr ⟨a, by simpa [hconn] using hk'⟩)
        · exact .inl (.inl (by simp [hconn, hne]))
    | _ =>
        rcases Sessions.step_desk (by simp) ha with ⟨hconn, -⟩ | ⟨i, home, held, -, hconn⟩
        · exact .inl (.inl (by rw [hconn]))
        · by_cases hc : c = s.sessions.born
          · exact .inr ⟨hc, i, home, held, by simp [hconn, hc]⟩
          · exact .inl (.inl (by simp [hconn, hc]))

lemma Deed.born_le {act : Act n} (h : Deed cfg s act s') : s.sessions.born ≤ s'.sessions.born := by
  rcases h.sessions_step with heq | ⟨a, ha⟩
  · rw [heq]
  · cases a with
    | conn c' a => exact (Sessions.step_conn ha).2.1.ge
    | _ =>
        rcases Sessions.step_desk (by simp) ha with ⟨-, hborn⟩ | ⟨-, -, -, hborn, -⟩ <;> omega

lemma Deed.conn_step {act : Act n} (h : Deed cfg s act s') {c : ℕ} (hc : c < s.sessions.born) :
    s'.sessions.conn c = s.sessions.conn c ∨
      ∃ a, (s.sessions.conn c).step a = some (s'.sessions.conn c) :=
  (h.conn_cases c).resolve_right fun hnew => absurd hnew.1 (by omega)

lemma Deed.home {act : Act n} (h : Deed cfg s act s') {c : ℕ} (hc : c < s.sessions.born) :
    (s'.sessions.conn c).home = (s.sessions.conn c).home := by
  rcases h.conn_step hc with heq | ⟨a, ha⟩
  · rw [heq]
  · exact Conn.home_step ha

/-- Once the walk of its reactor has begun, a session whose body was not called never has it
called. -/
lemma never_invoked {t : Server n} {c : ℕ} (hs : (machine cfg).Reachable s)
    (hlead : (machine cfg).Leads s t) (hc : c < s.sessions.born)
    (hno : (s.sessions.conn c).invoked = false)
    (hw : (s.loop (s.sessions.conn c).home).walked_ = true) :
    (t.sessions.conn c).invoked = false := by
  have hkept := hlead.preserves (I := fun u => (machine cfg).Reachable u ∧ c < u.sessions.born ∧
    (u.sessions.conn c).invoked = false ∧ (u.loop (u.sessions.conn c).home).walked_ = true)
    (fun u act u' hu _ hstep => ?_) ⟨hs, hc, hno, hw⟩
  · exact hkept.2.2.1
  · obtain ⟨hreach, hborn, hinvoked, hwalked⟩ := hu
    have hdeed := deed_of_step hstep
    refine ⟨hreach.step trivial hstep, hborn.trans_le hdeed.born_le, ?_, ?_⟩
    · by_contra hyes
      have := (joined_of_reachable hreach).invoke hdeed hinvoked (by simpa using hyes)
      simp [hwalked] at this
    · rw [hdeed.home hborn]
      exact hdeed.walked_flag hwalked

/-! ## The requests -/

/-- A session whose start is over is owed nothing by `track`. -/
lemma Joined.not_owing {c : ℕ} (h : Joined s.loop s.job s.sessions)
    (hst : (s.sessions.conn c).stage ≠ .starting) (r : Fin (n + 1)) :
    c ∉ Loop.owing .abort (s.loop r).stack := by
  intro hmem
  obtain ⟨frame, hframe, howes⟩ := List.mem_filterMap.mp hmem
  cases frame with
  | trackAbort b =>
      obtain rfl : b = c := by simpa [Frame.owes] using howes
      exact hst (h.starting r b (h.tracks r b hframe)).2
  | trackForce b => simp [Frame.owes] at howes
  | walk k outer j => simp [Frame.owes] at howes
  | call k b => simp [Frame.owes] at howes

lemma Joined.requests_le_one (h : Joined s.loop s.job s.sessions) (c : ℕ) :
    (s.sessions.conn c).requests ≤ 1 := by
  have hlinked := h.linked c
  cases hc : (s.sessions.conn c).stage.controlled with
  | true => exact (hlinked.counted hc).2.2 ▸ (h.side _).calls_le_one c
  | false =>
      cases hp : (s.sessions.conn c).passed with
      | none => simp [(hlinked.unstarted hc hp).1]
      | some b => simpa [hlinked.gone b hp] using Bool.toNat_le b

/-- The walk is over, and the control is still there. -/
lemma Joined.requests_eq_one {c : ℕ} (h : Joined s.loop s.job s.sessions)
    (hst : (s.sessions.conn c).stage = .running ∨ (s.sessions.conn c).stage = .ending)
    (hw : (s.loop (s.sessions.conn c).home).Walked) : (s.sessions.conn c).requests = 1 := by
  have hc : (s.sessions.conn c).stage.controlled = true := by
    rcases hst with hst | hst <;> rw [hst] <;> rfl
  obtain ⟨-, htracked, hrequests⟩ := (h.linked c).counted hc
  rw [hrequests]
  exact (h.side _).calls_eq_one hw htracked
    (h.not_owing (by rcases hst with hst | hst <;> simp [hst]) _)

end Server

end ReactorRuntime
