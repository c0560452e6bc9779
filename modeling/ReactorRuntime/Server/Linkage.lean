import ReactorRuntime.Server.Deeds

/-!
# A session and the abort machinery of its reactor

`run_session` puts its control on its reactor's list, looks whether that aborted it, and calls the
body if not; the control leaves the list when the frame ends.  This file keeps the account between
the two sides: a connection's stage says whether its control is tracked, and the number of
shutdown requests on its token is the number of calls the abort machinery counts.

The point of the exercise is in two places.  While a loop starts a session (`Start`) no walk can
begin, so the answer to `if (control.aborted.load())` is still right when the body is called.
While a loop ends one, a walk in whose callback that happens cannot go on, so a session that the
walk did not reach is gone from the count by the time the walk is over.
-/

namespace ReactorRuntime

namespace ConnStage

/-- The frame has not been started. -/
def before : ConnStage → Bool
  | .launching _ => true
  | .captured => true
  | .posted => true
  | .called _ => true
  | .framed _ => true
  | .spawned => true
  | _ => false

/-- The frame has a control. -/
def controlled : ConnStage → Bool
  | .starting => true
  | .running => true
  | .ending => true
  | _ => false

end ConnStage

namespace Server

variable {n : ℕ}

/-! ## The start of a session -/

/-- The loop is inside `track(control)` of connection `c`, or has just left it; once past
`if (walked_)`, the control is aborted if the walk has begun. -/
def Start (c : ℕ) (aborted : Bool) (l : Loop ℕ) : Prop :=
  l.stack = [.trackAbort c] ∨
    ((l.stack = [.call .abort c, .trackForce c] ∨ l.stack = [.trackForce c] ∨
      l.stack = [.call .force c] ∨ l.stack = []) ∧ (l.walked_ = true → aborted = true))

namespace Start

variable {c : ℕ} {aborted : Bool} {l l' : Loop ℕ}

lemma congr (h : Start c aborted l) (hstack : l'.stack = l.stack)
    (hwalked : l'.walked_ = l.walked_) :
    Start c aborted l' := by
  unfold Start
  rw [hstack, hwalked]
  exact h

lemma of_track (free : l.stack = []) (hmove : Loop.Move l (.track c) l') : Start c aborted l' := by
  cases hmove with
  | track host alive list => exact .inl (by simp [Loop.link, free])

/-- The loop goes on inside `track`, and calls no `abort()`. -/
lemma turn {a : ReactorRuntime.Act ℕ} (h : Start c aborted l) (isTurn : a = .resume ∨ a = .ret)
    (quiet : a = .resume → ∀ b, l.nextCall ≠ some (.abort, b)) (hmove : Loop.Move l a l') :
    Start c aborted l' := by
  rcases h with hs | ⟨hs | hs | hs | hs, hw⟩
  · cases hmove with
    | @lateAbort b rest top walked =>
        exact absurd (by simp [Loop.nextCall, top, walked]) (quiet rfl b)
    | skipAbort top walked =>
        obtain ⟨rfl, rfl⟩ := by simpa [hs] using top
        exact .inr ⟨.inr (.inl rfl), fun hwalked => by simp [walked] at hwalked⟩
    | _ => simp_all
  · cases hmove with
    | ret top =>
        obtain ⟨-, rfl⟩ := by simpa [hs] using top
        exact .inr ⟨.inr (.inl rfl), hw⟩
    | _ => simp_all
  · cases hmove with
    | lateForceFault top forced dead => exact .inr ⟨.inr (.inl hs), hw⟩
    | lateForce top forced alive =>
        obtain ⟨rfl, rfl⟩ := by simpa [hs] using top
        exact .inr ⟨.inr (.inr (.inl rfl)), hw⟩
    | skipForce top forced =>
        obtain ⟨rfl, rfl⟩ := by simpa [hs] using top
        exact .inr ⟨.inr (.inr (.inr rfl)), hw⟩
    | _ => simp_all
  · cases hmove with
    | ret top =>
        obtain ⟨-, rfl⟩ := by simpa [hs] using top
        exact .inr ⟨.inr (.inr (.inr rfl)), hw⟩
    | _ => simp_all
  · cases hmove <;> simp_all

/-- The only `abort()` that is called inside `track` is the one of the control. -/
lemma call {b : ℕ} (h : Start c aborted l) (calls : l.nextCall = some (.abort, b))
    (hmove : Loop.Move l .resume l') : b = c ∧ Start c true l' := by
  rcases h with hs | ⟨hs | hs | hs | hs, hw⟩
  · cases hmove with
    | lateAbort top walked =>
        obtain ⟨rfl, rfl⟩ := by simpa [hs] using top
        obtain rfl : c = b := by simpa [Loop.nextCall, hs, walked] using calls
        exact ⟨rfl, .inr ⟨.inl (by simp [Loop.enter]), fun _ => rfl⟩⟩
    | skipAbort top walked => simp [Loop.nextCall, top, walked] at calls
    | _ => simp_all
  · simp [Loop.nextCall, hs] at calls
  · simp [Loop.nextCall, hs] at calls
  · simp [Loop.nextCall, hs] at calls
  · simp [Loop.nextCall, hs] at calls

end Start

/-! ## One connection -/

/-- Connection `c`, in state `k`, and its reactor, with loop `l` and job `j`. -/
structure Linked (l : Loop ℕ) (j : Job) (c : ℕ) (k : Conn n) : Prop where
  before : k.stage.before = true → k.passed = none
  /-- A frame that was not started was asked nothing, and its body was not called. -/
  unstarted : k.stage.controlled = false → k.passed = none → k.requests = 0 ∧ k.invoked = false
  /-- The control is tracked, and the requests on the token are the calls that were made. -/
  counted : k.stage.controlled = true →
    k.passed = none ∧ l.tracked c = true ∧ k.requests = l.calls c
  untracked : k.stage.controlled = false → l.tracked c = false
  aborted : k.aborted = decide (0 < k.requests)
  starting : k.stage = .starting → j = .starting c ∧ k.invoked = false ∧ Start c k.aborted l
  ending : k.stage = .ending ∨ (k.passed.isSome = true ∧ k.stage ≠ .ended) → j = .ending c
  /-- A control that is gone had been called once if the walk had passed it, and not otherwise. -/
  gone : ∀ b, k.passed = some b → k.requests = b.toNat
  /-- As long as the frame of a session that the walk did not pass is ending, the walk is not
  over. -/
  unpassed : k.passed = some false → k.stage ≠ .ended → ¬l.Walked

namespace Linked

variable {l l' : Loop ℕ} {j j' : Job} {c : ℕ} {k k' : Conn n}

/-- Something happens at the reactor that is not about the connection. -/
lemma frame (h : Linked l j c k) (htracked : l'.tracked c = l.tracked c)
    (hcalls : l'.calls c = l.calls c)
    (hstart : k.stage = .starting → j' = .starting c ∧ Start c k.aborted l')
    (hend : j = .ending c → j' = .ending c) (hwalk : j = .ending c → l'.Walked → l.Walked) :
    Linked l' j' c k where
  before := h.before
  unstarted := h.unstarted
  counted hc := by
    rw [htracked, hcalls]
    exact h.counted hc
  untracked hc := by
    rw [htracked]
    exact h.untracked hc
  aborted := h.aborted
  starting hst := ⟨(hstart hst).1, (h.starting hst).2.1, (hstart hst).2⟩
  ending he := hend (h.ending he)
  gone := h.gone
  unpassed hp hst hw :=
    h.unpassed hp hst (hwalk (h.ending (.inr ⟨by simp [hp], hst⟩)) hw)

lemma of_fresh (hrequests : k.requests = 0) (hinvoked : k.invoked = false)
    (haborted : k.aborted = false) (hpassed : k.passed = none)
    (hcontrolled : k.stage.controlled = false) (htracked : l.tracked c = false) :
    Linked l j c k where
  before _ := hpassed
  unstarted _ _ := ⟨hrequests, hinvoked⟩
  counted hc := by simp [hcontrolled] at hc
  untracked _ := htracked
  aborted := by simp [haborted, hrequests]
  starting hst := by simp [hst, ConnStage.controlled] at hcontrolled
  ending he := by
    rcases he with hst | ⟨hp, -⟩
    · simp [hst, ConnStage.controlled] at hcontrolled
    · simp [hpassed] at hp
  gone b hb := by simp [hpassed] at hb
  unpassed hp := by simp [hpassed] at hp

/-- The record of a connection that is not about its ticket. -/
structure SameRecord (k k' : Conn n) : Prop where
  requests : k'.requests = k.requests
  invoked : k'.invoked = k.invoked
  aborted : k'.aborted = k.aborted
  passed : k'.passed = k.passed

lemma carry_step {a : Conn.Act} (ha : isCarry a = true) (hstep : k.step a = some k') :
    SameRecord k k' ∧ k.stage.controlled = false ∧ k'.stage.controlled = false ∧
      (k'.stage.before = true → k.stage.before = true) ∧ k.stage ≠ .ended := by
  cases Conn.move_of_step hstep with
  | start | abort | checkAborted | checkRuns | finish | unwind | leave => simp [isCarry] at ha
  | launchHere hst | launchAway hst | post hst | postFails hst | take hst | frame hst
  | frameFails hst | spawn hst | spawnFails hst | dropHandler hst | dropFrame hst | reset hst =>
      rw [hst]
      exact ⟨⟨rfl, rfl, rfl, rfl⟩, rfl, rfl, by simp [ConnStage.before, Conn.abandon], by simp⟩

/-- The ticket is carried on, or given up, outside the life of the control. -/
lemma carry {a : Conn.Act} (h : Linked l j c k) (ha : isCarry a = true)
    (hstep : k.step a = some k') : Linked l j c k' := by
  obtain ⟨same, hcontrolled, hcontrolled', hbefore, hended⟩ := carry_step ha hstep
  exact {
    before := fun hb => same.passed ▸ h.before (hbefore hb)
    unstarted := fun _ hp => by
      rw [same.requests, same.invoked]
      exact h.unstarted hcontrolled (same.passed ▸ hp)
    counted := fun hc => by simp [hcontrolled'] at hc
    untracked := fun _ => h.untracked hcontrolled
    aborted := by
      rw [same.aborted, same.requests]
      exact h.aborted
    starting := fun hst => by simp [hst, ConnStage.controlled] at hcontrolled'
    ending := fun he => by
      rcases he with hst | ⟨hp, -⟩
      · simp [hst, ConnStage.controlled] at hcontrolled'
      · exact h.ending (.inr ⟨same.passed ▸ hp, hended⟩)
    gone := fun b hb => by
      rw [same.requests]
      exact h.gone b (same.passed ▸ hb)
    unpassed := fun hp _ => h.unpassed (same.passed ▸ hp) hended }

lemma start (h : Linked l j c k) (free : l.stack = []) (hmove : Loop.Move l (.track c) l')
    (hstep : k.step .start = some k') : Linked l' (.starting c) c k' := by
  obtain ⟨hst, rfl⟩ := Conn.step_start hstep
  obtain ⟨htracked, hcalls⟩ := Loop.calls_of_track hmove c
  have hpassed : k.passed = none := h.before (by rw [hst]; rfl)
  obtain ⟨hrequests, hinvoked⟩ := h.unstarted (by rw [hst]; rfl) hpassed
  exact {
    before := fun _ => hpassed
    unstarted := fun hc => by simp [ConnStage.controlled] at hc
    counted := fun _ => ⟨hpassed, by simp [htracked], by simp [hcalls, hrequests]⟩
    untracked := fun hc => by simp [ConnStage.controlled] at hc
    aborted := h.aborted
    starting := fun _ => ⟨rfl, hinvoked, Start.of_track free hmove⟩
    ending := fun he => by simp [hpassed] at he
    gone := fun b hb => by simp [hpassed] at hb
    unpassed := fun hp => by simp [hpassed] at hp }

/-- A frame with a control comes to run its body, or to its end, which takes the loop. -/
lemma onward (h : Linked l j c k) (hc : k.stage.controlled = true) {st : ConnStage}
    {invoked closed : Bool} (hst : st = .running ∨ st = .ending ∧ j' = .ending c) :
    Linked l j' c { k with stage := st, invoked := invoked, closed := closed } := by
  have hcounted := h.counted hc
  have hst' : st.controlled = true ∧ st.before = false ∧ st ≠ .starting := by
    rcases hst with rfl | ⟨rfl, -⟩ <;> decide
  exact {
    before := fun hb => by simp [hst'.2.1] at hb
    unstarted := fun hc' => by simp [hst'.1] at hc'
    counted := fun _ => hcounted
    untracked := fun hc' => by simp [hst'.1] at hc'
    aborted := h.aborted
    starting := fun heq => absurd heq hst'.2.2
    ending := fun he => by
      rcases hst with rfl | ⟨rfl, hj⟩
      · simp [hcounted.1] at he
      · exact hj
    gone := h.gone
    unpassed := fun hp => by simp [hcounted.1] at hp }

/-- `if (control.aborted.load())`: the frame ends, or the body is called. -/
lemma check (h : Linked l j c k) (hstep : k.step .check = some k') :
    Linked l (if k.aborted then .ending c else .idle) c k' := by
  obtain ⟨hst, hk'⟩ := Conn.step_check hstep
  have hc : k.stage.controlled = true := by rw [hst]; rfl
  by_cases haborted : k.aborted = true
  · rw [if_pos haborted] at hk' ⊢
    exact hk' ▸ h.onward hc (.inr ⟨rfl, rfl⟩)
  · rw [if_neg haborted] at hk' ⊢
    exact hk' ▸ h.onward hc (.inl rfl)

lemma finish (h : Linked l j c k) (hstep : k.step .finish = some k') :
    Linked l (.ending c) c k' := by
  obtain ⟨hst, rfl⟩ := Conn.step_finish hstep
  exact h.onward (by rw [hst]; rfl) (.inr ⟨rfl, rfl⟩)

/-- A walk that has passed a tracked abortable by, or has yet to begin, is told by the two flags. -/
lemma not_walked_of_unpassed (hside : l.AbortSide)
    (hpassed : (l.walked_ && !l.awaited c .abort) = false) : ¬l.Walked := by
  intro hw
  obtain ⟨hnone, hwalked⟩ := hw.walks_eq_zero hside.solo
  have haw : l.awaited c .abort = true := by simpa [hwalked] using hpassed
  obtain ⟨outer, journal, hmem, -⟩ := Loop.Guide.awaited_iff.mp haw
  exact absurd (List.countP_eq_zero.mp hnone _ hmem) (by simp [Frame.isWalk])

/-- `~SessionControl`: the control leaves the list. -/
lemma unwind {passed : Bool} (h : Linked l (.ending c) c k) (hside : l.AbortSide)
    (when_ : passed = (l.walked_ && !l.awaited c .abort)) (hmove : Loop.Move l (.destroy c) l')
    (hstep : k.step (.unwind passed) = some k') : Linked l' (.ending c) c k' := by
  obtain ⟨hst, rfl⟩ := Conn.step_unwind hstep
  obtain ⟨htracked, -⟩ := Loop.calls_of_destroy hmove c
  obtain ⟨-, htr, hrequests⟩ := h.counted (by rw [hst]; rfl)
  have host : l.hostTurn = true := by
    cases hmove with
    | destroy host alive => exact host
  have hcalls := hside.calls_at_host host htr
  exact {
    before := fun hb => by simp [ConnStage.before] at hb
    unstarted := fun _ hp => by simp at hp
    counted := fun hc => by simp [ConnStage.controlled] at hc
    untracked := fun _ => by simp [htracked]
    aborted := h.aborted
    starting := fun heq => by simp at heq
    ending := fun _ => rfl
    gone := fun b hb => by
      obtain rfl : passed = b := by simpa using hb
      rw [when_, ← hcalls]
      exact hrequests
    unpassed := fun hp _ hw => by
      obtain rfl : passed = false := by simpa using hp
      exact not_walked_of_unpassed hside when_.symm (Loop.Walked.of_move (by simp) hmove hw) }

lemma leave (h : Linked l j c k) (hstep : k.step .leave = some k') : Linked l j' c k' := by
  obtain ⟨hop, hst, rfl⟩ := Conn.step_leave hstep
  have hc : k.stage.controlled = false := by rw [hst]; rfl
  exact {
    before := fun hb => by simp [ConnStage.before] at hb
    unstarted := fun _ hp => h.unstarted hc hp
    counted := fun hc' => by simp [ConnStage.controlled] at hc'
    untracked := fun _ => h.untracked hc
    aborted := h.aborted
    starting := fun heq => by simp at heq
    ending := fun he => by simp at he
    gone := h.gone
    unpassed := fun _ hst' => by simp at hst' }

/-- `control.abort()` -/
lemma abort (h : Linked l j c k) (htr : l.tracked c = true)
    (hcalls : l.nextCall = some (.abort, c)) (hmove : Loop.Move l .resume l')
    (hstep : k.step .abort = some k') : Linked l' j c k' := by
  have hk' := Conn.step_abort hstep
  have hc : k.stage.controlled = true := by
    by_contra hc
    simp [h.untracked (by simpa using hc)] at htr
  obtain ⟨hpassed, -, hrequests⟩ := h.counted hc
  obtain ⟨htracked, hcount⟩ := Loop.calls_of_resume hmove c
  subst hk'
  exact {
    before := fun _ => hpassed
    unstarted := fun hc' => by simp [hc] at hc'
    counted := fun _ => ⟨hpassed, htracked.trans htr, by simp [hcount, hcalls, htr, hrequests]⟩
    untracked := fun hc' => by simp [hc] at hc'
    aborted := by simp
    starting := fun hst =>
      have hs := h.starting hst
      ⟨hs.1, hs.2.1, (hs.2.2.call hcalls hmove).2⟩
    ending := h.ending
    gone := fun b hb => by simp [hpassed] at hb
    unpassed := fun hp => by simp [hpassed] at hp }

end Linked

/-! ## The whole server -/

/-- Every connection is linked to its reactor. -/
structure Joined (loop : Fin (n + 1) → Loop ℕ) (job : Fin (n + 1) → Job) (t : Sessions n) :
    Prop where
  side : ∀ r, (loop r).AbortSide
  asked : ∀ r, (loop r).Asked
  linked : ∀ c, Linked (loop (t.conn c).home) (job (t.conn c).home) c (t.conn c)
  /-- A control is on the list of its own reactor and no other. -/
  homes : ∀ r c, (loop r).tracked c = true → (t.conn c).home = r
  starting : ∀ r c, job r = .starting c → (t.conn c).home = r ∧ (t.conn c).stage = .starting
  tracks : ∀ r c, .trackAbort c ∈ (loop r).stack → job r = .starting c
  unborn : ∀ c, t.born ≤ c → t.conn c = .unborn

namespace Joined

variable {loop : Fin (n + 1) → Loop ℕ} {job : Fin (n + 1) → Job} {t t' : Sessions n}
  {r : Fin (n + 1)} {l : Loop ℕ} {j : Job} {c : ℕ} {k' : Conn n}

lemma initial : Joined (fun _ => .initial) (fun _ => .idle) (.initial : Sessions n) where
  side _ := Loop.abortSide_of_reachable .init
  asked _ h := by simp [Loop.initial] at h
  linked _ := .of_fresh rfl rfl rfl rfl rfl rfl
  homes _ _ h := by simp [Loop.initial, Loop.tracked] at h
  starting _ _ h := by simp at h
  tracks _ _ h := by simp [Loop.initial] at h
  unborn _ _ := rfl

/-- What the connections of one reactor are linked to. -/
lemma at_home (h : Joined loop job t) (home : (t.conn c).home = r) :
    Linked (loop r) (job r) c (t.conn c) := home ▸ h.linked c

/-- One connection changes, and with it the loop and the job of its reactor. -/
lemma act (h : Joined loop job t) (home : (t.conn c).home = r) (hc : c < t.born)
    (hborn : t'.born = t.born) (hconn : t'.conn = Function.update t.conn c k')
    (hhome : k'.home = (t.conn c).home) (hside : l.AbortSide) (hasked : l.Asked)
    (hself : Linked l j c k')
    (hothers : ∀ c', c' ≠ c → (t.conn c').home = r → Linked l j c' (t.conn c'))
    (htracked : ∀ c', c' ≠ c → l.tracked c' = true → (loop r).tracked c' = true)
    (hstarting : ∀ c', j = .starting c' → c' = c ∧ k'.stage = .starting ∨
      c' ≠ c ∧ job r = .starting c')
    (htracks : ∀ c', .trackAbort c' ∈ l.stack → j = .starting c') :
    Joined (Function.update loop r l) (Function.update job r j) t' := by
  have hself' : t'.conn c = k' := by simp [hconn]
  have hother' : ∀ c', c' ≠ c → t'.conn c' = t.conn c' := fun c' hne => by simp [hconn, hne]
  have hhome' : ∀ c', (t'.conn c').home = (t.conn c').home := fun c' => by
    by_cases hne : c' = c
    · rw [hne, hself', hhome]
    · rw [hother' c' hne]
  exact {
    side := fun r' => by
      by_cases hr : r' = r
      · simpa [hr] using hside
      · simpa [hr] using h.side r'
    asked := fun r' => by
      by_cases hr : r' = r
      · simpa [hr] using hasked
      · simpa [hr] using h.asked r'
    linked := fun c' => by
      rw [hhome']
      by_cases hne : c' = c
      · subst hne
        simpa [hself', home] using hself
      · rw [hother' c' hne]
        by_cases hr : (t.conn c').home = r
        · simpa [hr] using hothers c' hne hr
        · simpa [hr] using h.linked c'
    homes := fun r' c' htr => by
      rw [hhome']
      by_cases hr : r' = r
      · subst hr
        by_cases hne : c' = c
        · rw [hne, home]
        · exact h.homes r' c' (htracked c' hne (by simpa using htr))
      · exact h.homes r' c' (by simpa [hr] using htr)
    starting := fun r' c' hjob => by
      rw [hhome']
      by_cases hr : r' = r
      · subst hr
        rcases hstarting c' (by simpa using hjob) with ⟨rfl, hst⟩ | ⟨hne, hjob'⟩
        · exact ⟨home, by rw [hself', hst]⟩
        · rw [hother' c' hne]
          exact h.starting r' c' hjob'
      · have hst := h.starting r' c' (by simpa [hr] using hjob)
        have hne : c' ≠ c := fun heq => hr (by rw [← hst.1, heq, home])
        rw [hother' c' hne]
        exact hst
    tracks := fun r' c' hmem => by
      by_cases hr : r' = r
      · subst hr
        simpa using htracks c' (by simpa using hmem)
      · simpa [hr] using h.tracks r' c' (by simpa [hr] using hmem)
    unborn := fun c' hle => by
      rw [hborn] at hle
      rw [hother' c' (by omega)]
      exact h.unborn c' hle }

/-- The loop and the job of one reactor change, and no connection. -/
lemma turn (h : Joined loop job t) (hside : l.AbortSide) (hasked : l.Asked)
    (hothers : ∀ c, (t.conn c).home = r → Linked l (job r) c (t.conn c))
    (htracked : ∀ c, l.tracked c = true → (loop r).tracked c = true)
    (htracks : ∀ c, .trackAbort c ∈ l.stack → job r = .starting c) :
    Joined (Function.update loop r l) job t where
  side r' := by
    by_cases hr : r' = r
    · simpa [hr] using hside
    · simpa [hr] using h.side r'
  asked r' := by
    by_cases hr : r' = r
    · simpa [hr] using hasked
    · simpa [hr] using h.asked r'
  linked c := by
    by_cases hr : (t.conn c).home = r
    · simpa [hr] using hothers c hr
    · simpa [hr] using h.linked c
  homes r' c htr := by
    by_cases hr : r' = r
    · subst hr
      exact h.homes r' c (htracked c (by simpa using htr))
    · exact h.homes r' c (by simpa [hr] using htr)
  starting := h.starting
  tracks r' c hmem := by
    by_cases hr : r' = r
    · subst hr
      exact htracks c (by simpa using hmem)
    · exact h.tracks r' c (by simpa [hr] using hmem)
  unborn := h.unborn

lemma mint (h : Joined loop job t) {i home : Fin (n + 1)} {held : Bool}
    (hborn : t'.born = t.born + 1)
    (hconn : t'.conn = Function.update t.conn t.born (.fresh i home held)) :
    Joined loop job t' := by
  have hnew : t.conn t.born = .unborn := h.unborn t.born (Nat.le_refl _)
  -- the number is new: no list has it
  have hfree : ∀ r, (loop r).tracked t.born = false := fun r => by
    rw [Bool.eq_false_iff]
    intro htr
    have hr := h.homes r t.born htr
    have hlinked := (h.at_home hr).untracked (by rw [hnew]; rfl)
    simp [hlinked] at htr
  have hother : ∀ c, c ≠ t.born → t'.conn c = t.conn c := fun c hne => by simp [hconn, hne]
  exact {
    side := h.side
    asked := h.asked
    linked := fun c => by
      by_cases hc : c = t.born
      · have hself : t'.conn c = .fresh i home held := by simp [hc, hconn]
        rw [hself, hc]
        exact .of_fresh rfl rfl rfl rfl rfl (hfree home)
      · rw [hother c hc]
        exact h.linked c
    homes := fun r c htr => by
      have hc : c ≠ t.born := fun heq => by simp [heq, hfree r] at htr
      rw [hother c hc]
      exact h.homes r c htr
    starting := fun r c hjob => by
      have hst := h.starting r c hjob
      have hc : c ≠ t.born := fun heq => by simp [heq, hnew, Conn.unborn] at hst
      rw [hother c hc]
      exact hst
    tracks := h.tracks
    unborn := fun c hle => by
      rw [hborn] at hle
      rw [hother c (by omega)]
      exact h.unborn c (by omega) }

lemma congr (h : Joined loop job t) (hconn : t'.conn = t.conn) (hborn : t'.born = t.born) :
    Joined loop job t' := by
  refine ⟨h.side, h.asked, ?_, ?_, ?_, h.tracks, ?_⟩
  · rw [hconn]; exact h.linked
  · rw [hconn]; exact h.homes
  · rw [hconn]; exact h.starting
  · rw [hconn, hborn]; exact h.unborn

end Joined

/-- An idle loop has no session that it is starting or ending, so whatever it takes up leaves the
others as they are. -/
lemma Linked.of_idle {l l' : Loop ℕ} {j : Job} {c : ℕ} {k : Conn n} (h : Linked l .idle c k)
    (htracked : l'.tracked c = l.tracked c) (hcalls : l'.calls c = l.calls c) : Linked l' j c k :=
  h.frame htracked hcalls (fun hst => nomatch (h.starting hst).1) (fun he => nomatch he)
    fun he => nomatch he

lemma noNestedForce {l : Loop ℕ} {a : ReactorRuntime.Act ℕ} (ha : a ≠ .forceAll) :
    Loop.NoNestedForce l a := fun heq => absurd heq ha

/-- `abort_all()` and `force_all()` post a walk and change nothing else. -/
lemma request_move {k : Kind} {l l' : Loop ℕ} (hmove : Loop.Move l (request k) l') :
    l'.stack = l.stack ∧ l'.walked_ = l.walked_ := by
  cases k <;> cases hmove <;> exact ⟨rfl, rfl⟩

section

variable {cfg : Config} {s s' : Server n} {r : Fin (n + 1)} {c : ℕ} {l : Loop ℕ}

lemma Joined.carry {a : Conn.Act} (h : Joined s.loop s.job s.sessions) (ha : isCarry a = true)
    {t : Sessions n} (hstep : s.sessions.step cfg.maximum (.conn c a) = some t) :
    Joined s.loop s.job t := by
  obtain ⟨hc, hborn, k', hk', hconn⟩ := Sessions.step_conn hstep
  have hact := h.act (l := s.loop (s.sessions.conn c).home) (j := s.job (s.sessions.conn c).home)
    rfl hc hborn hconn (Conn.home_step hk') (h.side _) (h.asked _) ((h.linked c).carry ha hk')
    (fun c' _ hhome => h.at_home hhome) (fun _ _ htr => htr)
    (fun c' hjob => .inr ⟨fun heq => ?_, hjob⟩) (h.tracks _)
  · simpa only [Function.update_eq_self] using hact
  · have hst := (h.starting _ c' hjob).2
    have hno := (Linked.carry_step ha hk').2.1
    rw [← heq, hst] at hno
    cases hno

lemma Joined.start (h : Joined s.loop s.job s.sessions) (home : (s.sessions.conn c).home = r)
    (idle : s.job r = .idle) (free : (s.loop r).stack = [])
    (hmove : Loop.Move (s.loop r) (.track c) l) {t : Sessions n}
    (hstep : s.sessions.step cfg.maximum (.conn c .start) = some t) :
    Joined (Function.update s.loop r l) (Function.update s.job r (.starting c)) t := by
  obtain ⟨hc, hborn, k', hk', hconn⟩ := Sessions.step_conn hstep
  have hcalls := Loop.calls_of_track hmove
  refine h.act home hc hborn hconn (Conn.home_step hk')
    ((h.side r).move (noNestedForce (by simp)) hmove)
    ((h.asked r).move hmove) ((h.at_home home).start free hmove hk') ?_ ?_ ?_ ?_
  · intro c' hne hhome
    have hlinked := h.at_home hhome
    rw [idle] at hlinked
    exact hlinked.of_idle (by simp [(hcalls c').1, hne]) (by simp [(hcalls c').2, hne])
  · intro c' hne htr
    simpa [(hcalls c').1, hne] using htr
  · intro c' heq
    cases heq
    exact .inl ⟨rfl, by rw [(Conn.step_start hk').2]⟩
  · intro c' hmem
    rcases Loop.trackAbort_of_move hmove hmem with hmem' | hact
    · simp [free] at hmem'
    · cases hact
      rfl

lemma Joined.check (h : Joined s.loop s.job s.sessions) (home : (s.sessions.conn c).home = r)
    (starting : s.job r = .starting c) (free : (s.loop r).stack = []) {t : Sessions n}
    (hstep : s.sessions.step cfg.maximum (.conn c .check) = some t) :
    Joined s.loop (Function.update s.job r
      (if (s.sessions.conn c).aborted then .ending c else .idle)) t := by
  obtain ⟨hc, hborn, k', hk', hconn⟩ := Sessions.step_conn hstep
  have hact := h.act (l := s.loop r) home hc hborn hconn (Conn.home_step hk') (h.side r) (h.asked r)
    ((h.at_home home).check hk') ?_ (fun _ _ htr => htr) ?_ ?_
  · simpa only [Function.update_eq_self] using hact
  · intro c' hne hhome
    have hlinked := h.at_home hhome
    rw [starting] at hlinked
    refine hlinked.frame rfl rfl (fun hst => ?_) nofun nofun
    exact absurd (Job.starting.inj (hlinked.starting hst).1).symm hne
  · intro c' heq
    split at heq <;> cases heq
  · simp [free]

lemma Joined.finish (h : Joined s.loop s.job s.sessions) (home : (s.sessions.conn c).home = r)
    (idle : s.job r = .idle) {t : Sessions n}
    (hstep : s.sessions.step cfg.maximum (.conn c .finish) = some t) :
    Joined s.loop (Function.update s.job r (.ending c)) t := by
  obtain ⟨hc, hborn, k', hk', hconn⟩ := Sessions.step_conn hstep
  have hact := h.act (l := s.loop r) (j := .ending c) home hc hborn hconn (Conn.home_step hk')
    (h.side r) (h.asked r) ((h.at_home home).finish hk') ?_ (fun _ _ htr => htr) nofun ?_
  · simpa only [Function.update_eq_self] using hact
  · intro c' hne hhome
    have hlinked := h.at_home hhome
    rw [idle] at hlinked
    exact hlinked.of_idle rfl rfl
  · intro c' hmem
    have := h.tracks r c' hmem
    simp [idle] at this

lemma Joined.unwind {passed : Bool} (h : Joined s.loop s.job s.sessions)
    (home : (s.sessions.conn c).home = r) (ending : s.job r = .ending c)
    (when_ : passed = ((s.loop r).walked_ && !(s.loop r).awaited c .abort))
    (hmove : Loop.Move (s.loop r) (.destroy c) l) {t : Sessions n}
    (hstep : s.sessions.step cfg.maximum (.conn c (.unwind passed)) = some t) :
    Joined (Function.update s.loop r l) s.job t := by
  obtain ⟨hc, hborn, k', hk', hconn⟩ := Sessions.step_conn hstep
  have hcalls := Loop.calls_of_destroy hmove
  have hself := h.at_home home
  rw [ending] at hself
  have hact := h.act (j := .ending c) home hc hborn hconn (Conn.home_step hk')
    ((h.side r).move (noNestedForce (by simp)) hmove) ((h.asked r).move hmove)
    (hself.unwind (h.side r) when_ hmove hk') ?_ ?_ nofun ?_
  · rwa [← ending, Function.update_eq_self] at hact
  · intro c' hne hhome
    have hlinked := h.at_home hhome
    rw [ending] at hlinked
    exact hlinked.frame (by simp [(hcalls c').1, hne]) (by simp [(hcalls c').2, hne])
      (fun hst => nomatch (hlinked.starting hst).1) (fun he => he)
      fun _ => Loop.Walked.of_move (by simp) hmove
  · intro c' hne htr
    simpa [(hcalls c').1, hne] using htr
  · intro c' hmem
    rcases Loop.trackAbort_of_move hmove hmem with hmem' | hact
    · have := h.tracks r c' hmem'
      simp [ending] at this
    · cases hact

lemma Joined.leave (h : Joined s.loop s.job s.sessions) (home : (s.sessions.conn c).home = r)
    {t : Sessions n} (hstep : s.sessions.step cfg.maximum (.conn c .leave) = some t) :
    Joined s.loop
      (if s.job r = .ending c then Function.update s.job r .idle else s.job) t := by
  obtain ⟨hc, hborn, k', hk', hconn⟩ := Sessions.step_conn hstep
  have hleaving := Conn.step_leave hk'
  have hnot : ∀ c', s.job r = .starting c' → c' ≠ c := fun c' hjob heq => by
    obtain ⟨hop, hst, -⟩ := hleaving
    have hst' := (h.starting r c' hjob).2
    rw [heq, hst] at hst'
    cases hst'
  split
  · next ending =>
      have hact := h.act (l := s.loop r) (j := .idle) home hc hborn hconn (Conn.home_step hk')
        (h.side r) (h.asked r) ((h.at_home home).leave hk') ?_ (fun _ _ htr => htr) nofun ?_
      · simpa only [Function.update_eq_self] using hact
      · intro c' hne hhome
        have hlinked := h.at_home hhome
        rw [ending] at hlinked
        exact hlinked.frame rfl rfl (fun hst => nomatch (hlinked.starting hst).1)
          (fun he => absurd (Job.ending.inj he).symm hne) fun _ hw => hw
      · intro c' hmem
        have := h.tracks r c' hmem
        simp [ending] at this
  · have hact := h.act (l := s.loop r) (j := s.job r) home hc hborn hconn (Conn.home_step hk')
      (h.side r) (h.asked r) ((h.at_home home).leave hk') (fun c' _ hhome => h.at_home hhome)
      (fun _ _ htr => htr) (fun c' hjob => .inr ⟨hnot c' hjob, hjob⟩) (h.tracks r)
    simpa only [Function.update_eq_self] using hact

lemma Joined.ask (h : Joined s.loop s.job s.sessions) (k : Kind)
    (hmove : Loop.Move (s.loop r) (request k) l) :
    Joined (Function.update s.loop r l) s.job s.sessions := by
  have hact : request k ≠ .forceAll ∧ request k ≠ .resume ∧ Loop.isGeneral (request k) = true := by
    cases k <;> decide
  have hcalls := Loop.calls_of_general hact.2.2 hmove
  obtain ⟨hstack, hwalked⟩ := request_move hmove
  refine h.turn ((h.side r).move (noNestedForce hact.1) hmove) ((h.asked r).move hmove) ?_ ?_ ?_
  · intro c hhome
    have hlinked := h.at_home hhome
    exact hlinked.frame (hcalls c).1 (hcalls c).2
      (fun hst => ⟨(hlinked.starting hst).1, (hlinked.starting hst).2.2.congr hstack hwalked⟩)
      (fun he => he) fun _ => Loop.Walked.of_move hact.2.1 hmove
  · exact fun c htr => (hcalls c).1 ▸ htr
  · rw [hstack]
    exact h.tracks r

lemma Joined.walk (h : Joined s.loop s.job s.sessions) (k : Kind) (idle : s.job r = .idle)
    (hmove : Loop.Move (s.loop r) (begin_ k) l) :
    Joined (Function.update s.loop r l) s.job s.sessions := by
  have hact : begin_ k ≠ .forceAll ∧ Loop.isGeneral (begin_ k) = true := by cases k <;> decide
  have hcalls := Loop.calls_of_general hact.2 hmove
  refine h.turn ((h.side r).move (noNestedForce hact.1) hmove) ((h.asked r).move hmove) ?_ ?_ ?_
  · intro c hhome
    have hlinked := h.at_home hhome
    rw [idle] at hlinked ⊢
    exact hlinked.of_idle (hcalls c).1 (hcalls c).2
  · exact fun c htr => (hcalls c).1 ▸ htr
  · intro c hmem
    rcases Loop.trackAbort_of_move hmove hmem with hmem' | heq
    · exact h.tracks r c hmem'
    · cases k <;> cases heq

lemma not_ending {j : Job} (h : isEnding j = false) (c : ℕ) : j ≠ .ending c := by
  rintro rfl
  cases h

lemma Joined.goOn (h : Joined s.loop s.job s.sessions) {a : ReactorRuntime.Act ℕ}
    (isTurn : a = .resume ∨ a = .ret) (free : isEnding (s.job r) = false)
    (quiet : a = .resume → ∀ c, (s.loop r).nextCall ≠ some (.abort, c))
    (hmove : Loop.Move (s.loop r) a l) : Joined (Function.update s.loop r l) s.job s.sessions := by
  have hcalls : ∀ c, l.tracked c = (s.loop r).tracked c ∧ l.calls c = (s.loop r).calls c := by
    intro c
    rcases isTurn with rfl | rfl
    · obtain ⟨htracked, hcount⟩ := Loop.calls_of_resume hmove c
      exact ⟨htracked, by simp [hcount, quiet rfl c]⟩
    · exact Loop.calls_of_general rfl hmove c
  refine h.turn ((h.side r).move (noNestedForce ?_) hmove) ((h.asked r).move hmove) ?_ ?_ ?_
  · rcases isTurn with rfl | rfl <;> simp
  · intro c hhome
    have hlinked := h.at_home hhome
    exact hlinked.frame (hcalls c).1 (hcalls c).2
      (fun hst => ⟨(hlinked.starting hst).1, (hlinked.starting hst).2.2.turn isTurn quiet hmove⟩)
      (fun he => he) fun he => absurd he (not_ending free c)
  · exact fun c htr => (hcalls c).1 ▸ htr
  · intro c hmem
    rcases Loop.trackAbort_of_move hmove hmem with hmem' | heq
    · exact h.tracks r c hmem'
    · rcases isTurn with rfl | rfl <;> cases heq

lemma Joined.call (h : Joined s.loop s.job s.sessions) (free : isEnding (s.job r) = false)
    (calls : (s.loop r).nextCall = some (.abort, c)) (hmove : Loop.Move (s.loop r) .resume l)
    {t : Sessions n} (hstep : s.sessions.step cfg.maximum (.conn c .abort) = some t) :
    Joined (Function.update s.loop r l) s.job t := by
  obtain ⟨hc, hborn, k', hk', hconn⟩ := Sessions.step_conn hstep
  have htr := (h.side r).tracked_of_nextCall calls
  have home := h.homes r c htr
  have hcalls := Loop.calls_of_resume hmove
  have hself := h.at_home home
  have hact := h.act (j := s.job r) home hc hborn hconn (Conn.home_step hk')
    ((h.side r).move (noNestedForce (by simp)) hmove) ((h.asked r).move hmove)
    (hself.abort htr calls hmove hk') ?_ ?_ ?_ ?_
  · simpa only [Function.update_eq_self] using hact
  · intro c' hne hhome
    have hlinked := h.at_home hhome
    refine hlinked.frame (hcalls c').1 ?_ (fun hst => ?_) (fun he => he)
      fun he => absurd he (not_ending free c')
    · simp [(hcalls c').2, calls, Ne.symm hne]
    · -- while a session starts, the only control that is called is its own
      exact absurd ((hlinked.starting hst).2.2.call calls hmove).1.symm hne
  · exact fun c' _ htr' => (hcalls c').1 ▸ htr'
  · intro c' hjob
    by_cases hne : c' = c
    · subst hne
      exact .inl ⟨rfl, by rw [Conn.step_abort hk']; exact (h.starting r c' hjob).2⟩
    · exact .inr ⟨hne, hjob⟩
  · intro c' hmem
    rcases Loop.trackAbort_of_move hmove hmem with hmem' | heq
    · exact h.tracks r c' hmem'
    · cases heq

end

/-- **Every deed keeps the sessions linked to their reactors.** -/
theorem Joined.deed {cfg : Config} {s s' : Server n} {act : Act n}
    (h : Joined s.loop s.job s.sessions) (hdeed : Deed cfg s act s') :
    Joined s'.loop s'.job s'.sessions := by
  cases hdeed with
  | aside same => rw [same.loop, same.job, same.sessions]; exact h
  | ask r k l asked loop job sessions =>
      rw [loop, job, sessions]
      exact h.ask k (Loop.move_of_step asked)
  | desk a isDesk sessions loop job =>
      rw [loop, job]
      rcases Sessions.step_desk (by rintro c a rfl; cases isDesk) sessions with
        ⟨hconn, hborn⟩ | ⟨i, home, held, hborn, hconn⟩
      · exact h.congr hconn hborn
      · exact h.mint hborn hconn
  | carry isCarry sessions loop job => rw [loop, job]; exact h.carry isCarry sessions
  | start home idle free track sessions loop job =>
      rw [loop, job]
      exact h.start home idle free (Loop.move_of_step track) sessions
  | check home starting free sessions loop job =>
      rw [loop, job]
      exact h.check home starting free sessions
  | finish home idle host sessions loop job =>
      rw [loop, job]
      exact h.finish home idle sessions
  | unwind home ending when_ destroy sessions loop job =>
      rw [loop, job]
      exact h.unwind home ending when_ (Loop.move_of_step destroy) sessions
  | leave home sessions loop job => rw [loop, job]; exact h.leave home sessions
  | turn isTurn free quiet go loop job sessions =>
      rw [loop, job, sessions]
      exact h.goOn isTurn free quiet (Loop.move_of_step go)
  | call free calls go sessions loop job =>
      rw [loop, job]
      exact h.call free calls (Loop.move_of_step go) sessions
  | walk k l idle go loop job sessions =>
      rw [loop, job, sessions]
      exact h.walk k idle (Loop.move_of_step go)

lemma joined_of_reachable {cfg : Config} {s : Server n} (hs : (machine cfg).Reachable s) :
    Joined s.loop s.job s.sessions :=
  hs.invariant (I := fun s => Joined s.loop s.job s.sessions) .initial
    fun _ _ _ h _ hstep => h.deed (deed_of_step hstep)

end Server

end ReactorRuntime
