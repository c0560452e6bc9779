import ReactorRuntime.Library.Progress
import ReactorRuntime.Server.Drain

/-!
# What each wait waits for is there

`start()` and `stop()` wait for other threads: for a control that comes to listen or to its end, for
a walk that a loop has been asked for, for a thread to join.  Each of those can end only if the
other side is there and has a next statement of its own.  This file has the invariants that say so,
and they run the other way round from those of the files before.  There, a connection in
a call of `launch_session` has an accept loop whose hand holds it; here, what a hand holds is a
connection in such a call.

The threads stay in `run()` until they are told to leave it (`Halting`): a work guard holds each of
them there, and `stop()` clears the guards and stops the loops before it joins.
-/

namespace ReactorRuntime

/-! ## The hands and the connections -/

namespace ConnStage

/-- A call of `launch_session` is under way. -/
def inCall : ConnStage → Bool
  | .launching _ => true
  | .captured => true
  | .called _ => true
  | .framed _ => true
  | _ => false

/-- The ticket's destructor is under way, or has run. -/
def closing : ConnStage → Bool
  | .dying _ => true
  | .leaving _ => true
  | .ended => true
  | _ => false

end ConnStage

namespace Conn

variable {n : ℕ} {k k' : Conn n} {act : Act}

/-- An accept loop is in its call for a connection whose stage says so. -/
lemma inCall_of_step (h : k.via.isSome = true → k.stage.inCall = true)
    (hstep : k.step act = some k') : k'.via.isSome = true → k'.stage.inCall = true := by
  intro hvia
  cases move_of_step hstep with
  | launchHere hst | launchAway hst | frame hst => rfl
  | take hst => rfl
  | abort => exact h hvia
  | post hst | postFails hst | frameFails hst | spawn hst | spawnFails hst | dropHandler hst
  | dropFrame hst =>
      cases hvia
  | start hst | checkAborted hst | checkRuns hst | finish hst | unwind hst | reset hst
  | leave hst =>
      simp [hst, ConnStage.inCall] at h
      simp [h] at hvia

lemma closing_of_step (h : k.stage.closing = true) (hstep : k.step act = some k') :
    k'.stage.closing = true := by
  cases move_of_step hstep with
  | abort => exact h
  | reset hst => rfl
  | leave hst => rfl
  | _ => simp_all [ConnStage.closing]

end Conn

namespace Sessions

variable {n : ℕ} {t t' : Sessions n}

/-- What an accept loop holds of a connection is so. -/
structure Handed (t : Sessions n) : Prop where
  inCall : ∀ c, (t.conn c).via.isSome = true → (t.conn c).stage.inCall = true
  launching : ∀ j c, t.hand j = .launching c → c < t.born ∧ (t.conn c).via = some j
  threw : ∀ j c, t.hand j = .threw c → c < t.born ∧ (t.conn c).stage.closing = true

namespace Handed

lemma initial : (Sessions.initial : Sessions n).Handed where
  inCall _ h := by cases h
  launching _ _ h := by cases h
  threw _ _ h := by cases h

/-- An accept loop changes what it holds, and no connection changes. -/
lemma rehand (h : t.Handed) {j : Fin (n + 1)} {hand' : Hand} {active : ℕ}
    (hlaunching : ∀ c, hand' ≠ .launching c) (hthrew : ∀ c, hand' ≠ .threw c) :
    Handed { t with active := active, hand := Function.update t.hand j hand' } where
  inCall := h.inCall
  launching i c hi := by
    by_cases hij : i = j
    · subst hij
      exact absurd (by simpa using hi) (hlaunching c)
    · exact h.launching i c (by simpa [hij] using hi)
  threw i c hi := by
    by_cases hij : i = j
    · subst hij
      exact absurd (by simpa using hi) (hthrew c)
    · exact h.threw i c (by simpa [hij] using hi)

lemma mint (h : t.Handed) {j home : Fin (n + 1)} {held : Bool}
    {sessions : Fin (n + 1) → ℕ} :
    Handed { t with
      sessions_ := sessions
      hand := Function.update t.hand j (.launching t.born)
      born := t.born + 1
      conn := Function.update t.conn t.born (.fresh j home held) } where
  inCall c hvia := by
    by_cases hc : c = t.born
    · subst hc
      simp [Conn.fresh, ConnStage.inCall]
    · simpa [hc] using h.inCall c (by simpa [hc] using hvia)
  launching i c hi := by
    by_cases hij : i = j
    · subst hij
      obtain rfl : t.born = c := by simpa using hi
      exact ⟨Nat.lt_succ_self _, by simp [Conn.fresh]⟩
    · obtain ⟨hc, hvia⟩ := h.launching i c (by simpa [hij] using hi)
      exact ⟨Nat.lt_succ_of_lt hc, by simpa [hc.ne] using hvia⟩
  threw i c hi := by
    have hij : i ≠ j := by
      rintro rfl
      simp at hi
    obtain ⟨hc, hclosing⟩ := h.threw i c (by simpa [hij] using hi)
    exact ⟨Nat.lt_succ_of_lt hc, by simpa [hc.ne] using hclosing⟩

lemma handAfter_ends (c : ℕ) (k k' : Conn n) (hand : Fin (n + 1) → Hand) :
    (handAfter c k k' hand = hand ∧ (k.via.isSome = true → k'.via ≠ none)) ∨
      ∃ j hand', k.via = some j ∧ handAfter c k k' hand = Function.update hand j hand' ∧
        (hand' = .returned ∨ hand' = .threw c ∧ k'.stage.closing = true) := by
  unfold handAfter
  split
  · next j h hvia hvia' hst =>
      exact .inr ⟨j, _, hvia, rfl, .inr ⟨rfl, by simp [hst, ConnStage.closing]⟩⟩
  · next j hvia hvia' hst => exact .inr ⟨j, _, hvia, rfl, .inl rfl⟩
  · next h₁ _ =>
      refine .inl ⟨rfl, fun hvia hvia' => ?_⟩
      obtain ⟨j, hj⟩ := Option.isSome_iff_exists.mp hvia
      exact h₁ j hj hvia'

lemma hand_settle (c : ℕ) (k k' : Conn n) (hand : Fin (n + 1) → Hand) (i : Fin (n + 1)) :
    (handAfter c k k' hand i = hand i ∧ (k.via = some i → k'.via ≠ none)) ∨
      handAfter c k k' hand i = .returned ∨
      (handAfter c k k' hand i = .threw c ∧ k'.stage.closing = true) := by
  rcases handAfter_ends c k k' hand with ⟨heq, hvia⟩ | ⟨j, hand', hvia, heq, hhand⟩
  · exact .inl ⟨by rw [heq], fun hi => hvia (by simp [hi])⟩
  · by_cases hij : i = j
    · subst hij
      rw [heq, Function.update_self]
      exact .inr hhand
    · exact .inl ⟨by simp [heq, hij], fun hi => absurd (Option.some.inj (hi.symm.trans hvia)) hij⟩

lemma settle (h : t.Handed) {c : ℕ} {act : Conn.Act} {k' : Conn n} (hc : c < t.born)
    (hstep : (t.conn c).step act = some k') : (t.settle c act k').Handed where
  inCall c' := by
    by_cases heq : c' = c
    · subst heq
      simpa [Sessions.settle] using Conn.inCall_of_step (h.inCall c') hstep
    · simpa [Sessions.settle, heq] using h.inCall c'
  launching i c' hi := by
    rcases hand_settle c (t.conn c) k' t.hand i with ⟨hsame, hvia⟩ | hret | ⟨hthrew, -⟩
    · obtain ⟨hc', hvia'⟩ := h.launching i c' (hsame.symm.trans hi)
      refine ⟨hc', ?_⟩
      by_cases heq : c' = c
      · subst heq
        have hkept : k'.via = some i := by
          rcases Conn.via_step hstep with hsame | hnone
          · rw [hsame, hvia']
          · exact absurd hnone (hvia hvia')
        simpa [Sessions.settle] using hkept
      · simpa [Sessions.settle, heq] using hvia'
    · cases hret.symm.trans hi
    · cases hthrew.symm.trans hi
  threw i c' hi := by
    rcases hand_settle c (t.conn c) k' t.hand i with ⟨hsame, -⟩ | hret | ⟨hthrew, hclosing⟩
    · obtain ⟨hc', hclosing⟩ := h.threw i c' (hsame.symm.trans hi)
      refine ⟨hc', ?_⟩
      by_cases heq : c' = c
      · subst heq
        simpa [Sessions.settle] using Conn.closing_of_step hclosing hstep
      · simpa [Sessions.settle, heq] using hclosing
    · cases hret.symm.trans hi
    · obtain rfl : c = c' := Hand.threw.inj (hthrew.symm.trans hi)
      exact ⟨hc, by simpa [Sessions.settle] using hclosing⟩

lemma step (h : t.Handed) {maximum : ℕ} {act : Act n} (hstep : t.step maximum act = some t') :
    t'.Handed := by
  cases act with
  | enter j =>
      obtain ⟨-, hstep⟩ := Option.ite_none_right_eq_some.mp hstep
      split at hstep
      · cases hstep
        exact h.rehand (by simp) (by simp)
      · obtain ⟨-, hstep⟩ := Option.ite_none_right_eq_some.mp hstep
        cases hstep
        exact h.rehand (by simp) (by simp)
  | refuse j =>
      obtain ⟨-, hstep⟩ := Option.ite_none_right_eq_some.mp hstep
      cases hstep
      exact h
  | mint j home =>
      simp only [Sessions.step] at hstep
      split at hstep
      · cases hstep
        exact h.mint
      · cases hstep
  | conn c act =>
      obtain ⟨hc, hstep⟩ := Option.ite_none_right_eq_some.mp hstep
      obtain ⟨k', hk', rfl⟩ := Option.map_eq_some_iff.mp hstep
      exact h.settle hc hk'
  | launched j =>
      obtain ⟨-, hstep⟩ := Option.ite_none_right_eq_some.mp hstep
      cases hstep
      exact h.rehand (by simp) (by simp)
  | failed j =>
      simp only [Sessions.step] at hstep
      split at hstep
      · obtain ⟨-, hstep⟩ := Option.ite_none_right_eq_some.mp hstep
        cases hstep
        exact h.rehand (by simp) (by simp)
      · cases hstep

end Handed

end Sessions

/-! ## The loops -/

namespace Loop

section

variable {ν : Type*} [DecidableEq ν] {s s' : Loop ν} {act : ReactorRuntime.Act ν}

/-- The second statement of a `track` call follows its first. -/
lemma trackForce_of_move {a : ν} (hmove : Move s act s') (h : .trackForce a ∈ s'.stack) :
    .trackForce a ∈ s.stack ∨ .trackAbort a ∈ s.stack := by
  have hunlink : ∀ b, .trackForce a ∈ (s.unlink b).stack → .trackForce a ∈ s.stack := by
    intro b hb
    unfold unlink at hb
    cases hnow : s.now b with
    | none => simpa [hnow] using hb
    | some e =>
        obtain ⟨frame, hmem, heq⟩ := List.mem_map.mp (by simpa [hnow] using hb)
        cases frame with
        | trackForce a' =>
            cases heq
            exact hmem
        | _ => cases heq
  cases hmove with
  | untrack => exact .inl (hunlink _ h)
  | destroy => exact .inl (hunlink _ h)
  | _ => simp_all [link, beginWalk, enter] <;> tauto

lemma hostTurn_destroy (s : Loop ν) (a : ν) : (s.destroy a).hostTurn = s.hostTurn := by
  show (s.unlink a).hostTurn = s.hostTurn
  unfold unlink
  cases s.now a with
  | none => rfl
  | some e =>
      unfold hostTurn
      cases s.stack with
      | nil => rfl
      | cons frame rest => cases frame <;> rfl

/-- Nothing that has been destroyed is used, as long as both walks stand at the head of what they
have to do and a `track` call is about something on the list. -/
lemma fault_of_move (h : s.fault = false) (hsound : s.Sound) (habort : AtFront .abort s)
    (hforce : AtFront .force s) (hlisted : ∀ a, .trackForce a ∈ s.stack → a ∈ s.contents)
    (hmove : Move s act s') : s'.fault = false := by
  cases hmove with
  | @walkFault k outer j rest node top cur dead =>
      have hlead : s.heap.cursor_ () = j.todo.head? ∧ j.todo <:+ s.contents := by
        cases k with
        | abort => exact (habort.top top).1 rfl
        | force => exact (hforce.top top).1 rfl
      have hmem : node ∈ s.contents :=
        hlead.2.subset (List.mem_of_mem_head? (cur ▸ hlead.1).symm)
      simp [hsound.alive node hmem] at dead
  | @lateForceFault a rest top forced dead =>
      have hmem : a ∈ s.contents := hlisted a (by simp [top])
      simp [hsound.alive a hmem] at dead
  | untrack host alive =>
      unfold unlink
      split <;> exact h
  | destroy host alive =>
      unfold destroy unlink
      split <;> exact h
  | _ => exact h

end

end Loop

namespace ConnStage

/-- The frame is at its end, and its ticket with it. -/
def finishing : ConnStage → Bool
  | .ending => true
  | .dying _ => true
  | .leaving _ => true
  | _ => false

end ConnStage

namespace Server

variable {n : ℕ} {cfg : Config} {s s' : Server n}

/-- A loop and its job: nothing destroyed has been used, walks begin only where nothing else is
under way, and what the job says about the stack is so. -/
structure Steady (l : Loop ℕ) (j : Job) : Prop where
  faultless : l.fault = false
  front : Loop.AtFront .force l
  forces : ∀ c, .trackForce c ∈ l.stack → j = .starting c
  host : isEnding j = true → l.hostTurn = true

namespace Steady

variable {l l' : Loop ℕ} {j j' : Job} {a : ReactorRuntime.Act ℕ}

lemma move (h : Steady l j) (hside : l.AbortSide)
    (hlisted : ∀ c, .trackForce c ∈ l.stack → c ∈ l.contents)
    (hbegins : Loop.begins .abort a = true ∨ Loop.begins .force a = true → l.stack = [])
    (hmove : Loop.Move l a l') (hforces : ∀ c, .trackForce c ∈ l'.stack → j' = .starting c)
    (hhost : isEnding j' = true → l'.hostTurn = true) : Steady l' j' where
  faultless := Loop.fault_of_move h.faultless hside.sound hside.front h.front hlisted hmove
  front := h.front.move hside.sound hmove fun hb => .inr (by simp [hbegins hb, Loop.walks])
  forces := hforces
  host := hhost

lemma rejob (h : Steady l j) (hnone : ∀ c, .trackForce c ∉ l.stack)
    (hhost : isEnding j' = true → l.hostTurn = true) : Steady l j' where
  faultless := h.faultless
  front := h.front
  forces c hc := absurd hc (hnone c)
  host := hhost

/-- Only the start of a session has a `track` call. -/
lemma not_mem (h : Steady l j) (hj : ∀ c, j ≠ .starting c) (c : ℕ) : .trackForce c ∉ l.stack :=
  fun hc => hj c (h.forces c hc)

end Steady

/-- Reactor `r` is that of connection `c`, which has come to the end of its frame. -/
def HasFrame (t : Sessions n) (r : Fin (n + 1)) (c : ℕ) : Prop :=
  (t.conn c).home = r ∧ c < t.born ∧ (t.conn c).stage.finishing = true

/-- The loops are steady, and a loop at the end of a frame has one. -/
structure Framed (s : Server n) : Prop where
  steady : ∀ r, Steady (s.loop r) (s.job r)
  ending : ∀ r c, s.job r = .ending c → HasFrame s.sessions r c

namespace Framed

lemma initial : (Server.initial : Server n).Framed where
  steady _ := ⟨rfl, trivial, fun _ h => by simp [Server.initial, Loop.initial] at h, fun _ => rfl⟩
  ending _ _ h := by cases h

lemma congr (h : s.Framed) (hsame : Same s s') : s'.Framed := by
  obtain ⟨hloop, hjob, hsessions⟩ := hsame
  refine ⟨?_, ?_⟩
  · rw [hloop, hjob]
    exact h.steady
  · rw [hjob, hsessions]
    exact h.ending

/-- What the second statement of a `track` call is about is on the list. -/
lemma listed (h : s.Framed) (hjoined : Joined s.loop s.job s.sessions) (r : Fin (n + 1)) {c : ℕ}
    (hc : .trackForce c ∈ (s.loop r).stack) : c ∈ (s.loop r).contents := by
  obtain ⟨hhome, hst⟩ := hjoined.starting r c ((h.steady r).forces c hc)
  have hcounted := (hjoined.at_home hhome).counted (by simp [hst, ConnStage.controlled])
  exact ((hjoined.side r).sound.running c).mp hcounted.2.1

/-! ### The loops and their jobs -/

lemma steady_update {r : Fin (n + 1)} {l : Loop ℕ} {j : Job} (h : s.Framed) (hself : Steady l j)
    (r' : Fin (n + 1)) :
    Steady (Function.update s.loop r l r') (Function.update s.job r j r') := by
  by_cases hr : r' = r
  · subst hr
    simpa using hself
  · simpa [hr] using h.steady r'

lemma steady_loop {r : Fin (n + 1)} {l : Loop ℕ} (h : s.Framed) (hself : Steady l (s.job r))
    (loop : s'.loop = Function.update s.loop r l) (job : s'.job = s.job) (r' : Fin (n + 1)) :
    Steady (s'.loop r') (s'.job r') := by
  rw [loop, job]
  simpa using h.steady_update (r := r) hself r'

lemma steady_job {r : Fin (n + 1)} {j : Job} (h : s.Framed) (hself : Steady (s.loop r) j)
    (loop : s'.loop = s.loop) (job : s'.job = Function.update s.job r j) (r' : Fin (n + 1)) :
    Steady (s'.loop r') (s'.job r') := by
  rw [loop, job]
  simpa using h.steady_update (r := r) hself r'

section Turns

variable {r : Fin (n + 1)} {l : Loop ℕ} (h : s.Framed) (hjoined : Joined s.loop s.job s.sessions)
include h hjoined

lemma steady_ask {k : Kind} (hmove : Loop.Move (s.loop r) (request k) l) : Steady l (s.job r) := by
  obtain ⟨hstack, -⟩ := request_move hmove
  refine (h.steady r).move (hjoined.side r) (fun c => h.listed hjoined r) ?_ hmove ?_ ?_
  · cases k <;> simp [request, Loop.begins]
  · rw [hstack]
    exact (h.steady r).forces
  · rw [Loop.hostTurn, hstack]
    exact (h.steady r).host

lemma steady_begin {a : ReactorRuntime.Act ℕ} {j : Job} (free : (s.loop r).stack = [])
    (hmove : Loop.Move (s.loop r) a l) (hj : isEnding j = false) : Steady l j := by
  refine (h.steady r).move (hjoined.side r) (fun c => h.listed hjoined r) (fun _ => free) hmove ?_
    (by simp [hj])
  intro c hc
  rcases Loop.trackForce_of_move hmove hc with hmem | hmem <;> simp [free] at hmem

lemma steady_destroy {c : ℕ} (hmove : Loop.Move (s.loop r) (.destroy c) l) :
    Steady l (s.job r) := by
  refine (h.steady r).move (hjoined.side r) (fun c => h.listed hjoined r) (by simp [Loop.begins])
    hmove ?_ ?_
  · intro c' hc'
    rcases Loop.trackForce_of_move hmove hc' with hmem | hmem
    · exact (h.steady r).forces c' hmem
    · exact hjoined.tracks r c' hmem
  · cases hmove with
    | destroy host alive => exact fun _ => by rw [Loop.hostTurn_destroy, host]

lemma steady_turn {a : ReactorRuntime.Act ℕ} (isTurn : a = .resume ∨ a = .ret)
    (free : isEnding (s.job r) = false) (hmove : Loop.Move (s.loop r) a l) :
    Steady l (s.job r) := by
  refine (h.steady r).move (hjoined.side r) (fun c => h.listed hjoined r) ?_ hmove ?_
    (by simp [free])
  · rcases isTurn with rfl | rfl <;> simp [Loop.begins]
  · intro c hc
    rcases Loop.trackForce_of_move hmove hc with hmem | hmem
    · exact (h.steady r).forces c hmem
    · exact hjoined.tracks r c hmem

/-- **Every step leaves the loops steady.** -/
theorem steady_deed {act : Act n} (hdeed : Deed cfg s act s') (r' : Fin (n + 1)) :
    Steady (s'.loop r') (s'.job r') := by
  cases hdeed with
  | aside same => exact (h.congr same).steady r'
  | ask r k l asked loop job =>
      exact h.steady_loop (h.steady_ask hjoined (Loop.move_of_step asked)) loop job r'
  | desk _ _ _ loop job | carry _ _ loop job =>
      rw [loop, job]
      exact h.steady r'
  | @start c r l _ home idle free track sessions loop job =>
      rw [loop, job]
      exact h.steady_update (h.steady_begin hjoined free (Loop.move_of_step track) rfl) r'
  | @check c r _ home starting free sessions loop job =>
      exact h.steady_job ((h.steady r).rejob (by simp [free]) (by simp [Loop.hostTurn, free]))
        loop job r'
  | @finish c r _ home idle host sessions loop job =>
      have hnone := (h.steady r).not_mem (by simp [idle])
      exact h.steady_job ((h.steady r).rejob hnone fun _ => host) loop job r'
  | @unwind c r l _ passed home ending when_ destroy sessions loop job =>
      exact h.steady_loop (h.steady_destroy hjoined (Loop.move_of_step destroy)) loop job r'
  | @leave c r _ home sessions loop job =>
      split at job
      · next ending =>
          have hnone := (h.steady r).not_mem (by simp [ending])
          exact h.steady_job ((h.steady r).rejob hnone (by simp [isEnding])) loop job r'
      · rw [loop, job]
        exact h.steady r'
  | @turn r a l _ isTurn free quiet go loop job =>
      exact h.steady_loop (h.steady_turn hjoined isTurn free (Loop.move_of_step go)) loop job r'
  | @call r c l _ free calls go sessions loop job =>
      exact h.steady_loop (h.steady_turn hjoined (.inl rfl) free (Loop.move_of_step go)) loop job r'
  | @walk r _ k l idle go loop job =>
      have hmove := Loop.move_of_step go
      have free : (s.loop r).stack = [] := by cases k <;> cases hmove <;> assumption
      exact h.steady_loop (h.steady_begin hjoined free hmove (by simp [idle, isEnding])) loop job r'

end Turns

/-! ### The ends of the frames -/

/-- A connection takes a step that is not the last of its frame. -/
lemma ending_conn {c : ℕ} {a : Conn.Act} (h : s.Framed) {t : Sessions n}
    (hstep : s.sessions.step cfg.maximum (.conn c a) = some t) (ha : a ≠ .leave)
    {r : Fin (n + 1)} {c' : ℕ} (hjob : s.job r = .ending c') : HasFrame t r c' := by
  obtain ⟨hc, hborn, k', hk', hconn⟩ := Sessions.step_conn hstep
  obtain ⟨hhome, hc', hst⟩ := h.ending r c' hjob
  rw [HasFrame, hborn, hconn]
  by_cases heq : c' = c
  · subst heq
    rw [Function.update_self, Conn.home_step hk']
    refine ⟨hhome, hc', ?_⟩
    cases Conn.move_of_step hk' with
    | abort => exact hst
    | unwind hst' => rfl
    | reset hst' => rfl
    | leave hst' => exact absurd rfl ha
    | _ => simp_all [ConnStage.finishing]
  · rw [Function.update_of_ne heq]
    exact ⟨hhome, hc', hst⟩

/-- It gives its loop a new job. -/
lemma ending_update {r : Fin (n + 1)} {j : Job} {c : ℕ} {a : Conn.Act} (h : s.Framed)
    (hstep : s.sessions.step cfg.maximum (.conn c a) = some s'.sessions) (ha : a ≠ .leave)
    (job : s'.job = Function.update s.job r j)
    (hself : ∀ c', j = .ending c' → HasFrame s'.sessions r c') {r' : Fin (n + 1)} {c' : ℕ}
    (hjob : s'.job r' = .ending c') : HasFrame s'.sessions r' c' := by
  by_cases hr : r' = r
  · subst hr
    exact hself c' (by simpa [job] using hjob)
  · exact h.ending_conn hstep ha (by simpa [job, hr] using hjob)

/-- An accept loop admits or launches, and the frames are as they were. -/
lemma ending_desk {a : Sessions.Act n} (h : s.Framed) (hdesk : isDesk a = true) {t : Sessions n}
    (hstep : s.sessions.step cfg.maximum a = some t) {r : Fin (n + 1)} {c : ℕ}
    (hjob : s.job r = .ending c) : HasFrame t r c := by
  obtain ⟨hhome, hc, hst⟩ := h.ending r c hjob
  rcases Sessions.step_desk (by rintro c a rfl; cases hdesk) hstep with
    ⟨hconn, hborn⟩ | ⟨i, home, held, hborn, hconn⟩
  · rw [HasFrame, hconn, hborn]
    exact ⟨hhome, hc, hst⟩
  · rw [HasFrame, hconn, hborn, Function.update_of_ne hc.ne]
    exact ⟨hhome, Nat.lt_succ_of_lt hc, hst⟩

/-- A frame is over, and its loop has put the job down. -/
lemma ending_leave {r : Fin (n + 1)} {c : ℕ} (h : s.Framed)
    (home : (s.sessions.conn c).home = r)
    (hstep : s.sessions.step cfg.maximum (.conn c .leave) = some s'.sessions)
    (job : s'.job = if s.job r = .ending c then Function.update s.job r .idle else s.job)
    {r' : Fin (n + 1)} {c' : ℕ} (hjob : s'.job r' = .ending c') : HasFrame s'.sessions r' c' := by
  have hbefore : s.job r' = .ending c' := by
    rw [job] at hjob
    split at hjob
    · by_cases hr : r' = r
      · simp [hr] at hjob
      · simpa [hr] using hjob
    · exact hjob
  obtain ⟨hhome, hc', hst⟩ := h.ending r' c' hbefore
  have hne : c' ≠ c := by
    rintro rfl
    obtain rfl : r = r' := home.symm.trans hhome
    simp [job, hbefore] at hjob
  obtain ⟨-, hborn, k', -, hconn⟩ := Sessions.step_conn hstep
  rw [HasFrame, hconn, hborn, Function.update_of_ne hne]
  exact ⟨hhome, hc', hst⟩

lemma hasFrame_of_check {r : Fin (n + 1)} {c : ℕ} {t : Sessions n}
    (home : (s.sessions.conn c).home = r)
    (hstep : s.sessions.step cfg.maximum (.conn c .check) = some t)
    (haborted : (s.sessions.conn c).aborted = true) : HasFrame t r c := by
  obtain ⟨hc, hborn, k', hk', hconn⟩ := Sessions.step_conn hstep
  obtain ⟨-, rfl⟩ := Conn.step_check hk'
  rw [HasFrame, hconn, hborn, Function.update_self, if_pos haborted]
  exact ⟨home, hc, rfl⟩

lemma hasFrame_of_finish {r : Fin (n + 1)} {c : ℕ} {t : Sessions n}
    (home : (s.sessions.conn c).home = r)
    (hstep : s.sessions.step cfg.maximum (.conn c .finish) = some t) : HasFrame t r c := by
  obtain ⟨hc, hborn, k', hk', hconn⟩ := Sessions.step_conn hstep
  obtain ⟨-, rfl⟩ := Conn.step_finish hk'
  rw [HasFrame, hconn, hborn, Function.update_self]
  exact ⟨home, hc, rfl⟩

/-- **After every step, a loop at the end of a frame has one.** -/
theorem ending_deed {act : Act n} (h : s.Framed) (hdeed : Deed cfg s act s') {r' : Fin (n + 1)}
    {c' : ℕ} (hjob : s'.job r' = .ending c') : HasFrame s'.sessions r' c' := by
  cases hdeed with
  | aside same => exact (h.congr same).ending r' c' hjob
  | ask _ _ _ _ _ job sessions | turn _ _ _ _ _ job sessions | walk _ _ _ _ _ job sessions =>
      rw [sessions]
      exact h.ending r' c' (job ▸ hjob)
  | desk a isDesk sessions loop job => exact h.ending_desk isDesk sessions (job ▸ hjob)
  | carry isCarry sessions loop job =>
      exact h.ending_conn sessions (by rintro rfl; cases isCarry) (job ▸ hjob)
  | start home idle free track sessions loop job =>
      exact h.ending_update sessions (by simp) job (by simp) hjob
  | @check c r _ home starting free sessions loop job =>
      refine h.ending_update sessions (by simp) job (fun c' hj => ?_) hjob
      split at hj
      · next haborted =>
          obtain rfl := Job.ending.inj hj
          exact hasFrame_of_check home sessions haborted
      · cases hj
  | @finish c r _ home idle host sessions loop job =>
      refine h.ending_update sessions (by simp) job (fun c' hj => ?_) hjob
      obtain rfl := Job.ending.inj hj
      exact hasFrame_of_finish home sessions
  | unwind _ _ _ _ sessions loop job => exact h.ending_conn sessions (by simp) (job ▸ hjob)
  | leave home sessions loop job => exact h.ending_leave home sessions job hjob
  | call _ _ _ sessions _ job => exact h.ending_conn sessions (by simp) (job ▸ hjob)

lemma deed {act : Act n} (h : s.Framed) (hjoined : Joined s.loop s.job s.sessions)
    (hdeed : Deed cfg s act s') : s'.Framed :=
  ⟨h.steady_deed hjoined hdeed, fun _ _ => h.ending_deed hdeed⟩

end Framed

lemma framed_of_reachable (hs : (machine cfg).Reachable s) : s.Framed := by
  have hboth : s.Framed ∧ Joined s.loop s.job s.sessions := by
    refine hs.invariant (I := fun s => s.Framed ∧ Joined s.loop s.job s.sessions)
      ⟨.initial, .initial⟩ fun s act s' h _ hstep => ?_
    have hdeed := deed_of_step hstep
    exact ⟨h.1.deed h.2 hdeed, h.2.deed hdeed⟩
  exact hboth.1

lemma handed_of_reachable (hs : (machine cfg).Reachable s) : s.sessions.Handed := by
  refine hs.invariant (I := fun s => s.sessions.Handed) .initial fun s act s' h _ hstep => ?_
  rcases (deed_of_step hstep).sessions_step with heq | ⟨a, ha⟩
  · exact heq ▸ h
  · exact h.step ha

/-! ## The controls, one by one -/

/-- What holds of a control that was just spawned, and is kept by each of its steps, holds of every
control of the server. -/
lemma control_invariant {P : Accept → Prop} (hspawned : ∀ ok, P (spawned ok))
    (hmove : ∀ l a act a', P a → Accept.Move l a act a' → P a')
    (hs : (machine cfg).Reachable s) (i : Fin (n + 1)) (a : Accept) (ha : s.control i = some a) :
    P a := by
  refine hs.invariant (I := fun s => ∀ i a, s.control i = some a → P a)
    (fun i a ha => by cases ha) (fun s act s' h _ hstep i a' ha' => ?_) i a ha
  cases hhost : isHost act with
  | false =>
      rcases (beside_of_step hhost hstep).control i with heq | ⟨a, b, a₁, ha, hab, ha₁⟩
      · exact h i a' (heq ▸ ha')
      · obtain rfl : a₁ = a' := Option.some.inj (ha₁.symm.trans ha')
        exact hmove _ a b a₁ (h i a ha) (Accept.move_of_step hab)
  | true =>
      by_cases hown : ∃ ok, act = .own ok
      · obtain ⟨ok, rfl⟩ := hown
        have hhandled := (Upkeep.of_own hstep).control i
        generalize hc : s.control i = c at hhandled
        rw [ha'] at hhandled
        cases hhandled with
        | same => exact h i a' hc
        | told isTold hab => exact hmove _ _ _ _ (h i _ hc) (Accept.move_of_step hab)
        | made ok port pc => exact hspawned ok
      · rw [(control_of_host hhost (not_exists.mp hown) hstep).2.1] at ha'
        exact h i a' ha'

lemma kept_of_spawned (l : Listener) (ok : Bool) : Accept.Kept l (spawned ok) := by
  cases ok <;> constructor <;> simp [spawned, Accept.initial, Accept.finish]

lemma kept_control (hs : (machine cfg).Reachable s) (l : Listener) {i : Fin (n + 1)} {a : Accept}
    (ha : s.control i = some a) : Accept.Kept l a := by
  refine control_invariant (P := fun a => ∀ l, Accept.Kept l a) (fun ok l => kept_of_spawned l ok)
    (fun l₀ a act a' h hmove l => ?_) hs i a ha l
  have hkept := (h l₀).step hmove
  exact ⟨hkept.told, hkept.closing, hkept.finished_iff, hkept.untold, hkept.launches⟩

/-- The accept loop has not come to listen yet, has come to listen, or is at its end. -/
def Announced (a : Accept) : Prop :=
  a.pc.early = true ∨ a.ready = true ∨ (∃ e, a.pc = .ending e) ∨ a.pc = .ended

lemma announced_of_move {l : Listener} {a a' : Accept} {act : Accept.Act} (h : Announced a)
    (hmove : Accept.Move l a act a') : Announced a' := by
  rcases h with hearly | hready | ⟨e, he⟩ | he
  · cases hmove with
    | store | post told => exact .inl hearly
    | stopOnOwner posted idle =>
        refine .inl ?_
        revert hearly
        unfold Accept.stopOnOwner
        cases a.pc <;> simp [AcceptPc.early]
    | begin_ pc => exact .inl rfl
    | start pc =>
        unfold Announced Accept.testStopping
        cases a.stopping <;> simp [AcceptPc.early]
    | @setUp st pc more =>
        refine .inl ?_
        rcases Accept.nextSetup_cases l st with hnext | ⟨st', hnext⟩ <;>
          simp [hnext, AcceptPc.early]
    | bindAt pc => exact .inl rfl
    | announce pc => exact .inr (.inl rfl)
    | setUpFails pc => exact .inr (.inr (.inl ⟨_, rfl⟩))
    | startFails pc =>
        rcases pc with pc | ⟨e, pc⟩ | pc | ⟨d, pc⟩ <;> simp [pc, AcceptPc.early] at hearly
    | _ => simp_all [AcceptPc.early]
  · have hready' : a'.ready = true := by cases hmove <;> first | exact hready | rfl
    exact .inr (.inl hready')
  · cases hmove with
    | store | post told => exact .inr (.inr (.inl ⟨e, he⟩))
    | stopOnOwner posted idle => simp [he, AcceptPc.executing] at idle
    | finish pc => exact .inr (.inr (.inr rfl))
    | startFails pc => rcases pc with pc | ⟨e, pc⟩ | pc | ⟨d, pc⟩ <;> simp [pc] at he
    | _ => simp_all
  · cases hmove with
    | store | post told => exact .inr (.inr (.inr he))
    | stopOnOwner posted idle =>
        refine .inr (.inr (.inr ?_))
        unfold Accept.stopOnOwner
        simp [he]
    | startFails pc => rcases pc with pc | ⟨e, pc⟩ | pc | ⟨d, pc⟩ <;> simp [pc] at he
    | _ => simp_all

lemma announced_control (hs : (machine cfg).Reachable s) {i : Fin (n + 1)} {a : Accept}
    (ha : s.control i = some a) : Announced a := by
  refine control_invariant (P := Announced) (fun ok => ?_)
    (fun l a act a' h hmove => announced_of_move h hmove) hs i a ha
  cases ok with
  | true => exact .inl rfl
  | false => exact .inr (.inr (.inr rfl))

/-! ## The threads and the controls -/

end Server

namespace OwnerPc

/-- `stop()` has stopped loop `r`, and has not joined all the threads. -/
def halted (r : ℕ) : OwnerPc → Bool
  | .stop (.halt i) _ => decide (r < i)
  | .stop (.join _) _ => true
  | _ => false

/-- `stop()` has joined the thread of loop `r`. -/
def hasJoined (r : ℕ) : OwnerPc → Bool
  | .stop (.join i) _ => decide (r < i)
  | .stop .clear _ => true
  | _ => false

/-- The statement does not spawn an accept loop, and no loop has been stopped at it. -/
def plain : OwnerPc → Bool
  | .stop (.halt _) _ => false
  | .stop (.join _) _ => false
  | .stop .clear _ => false
  | .spawn _ _ => false
  | _ => true

lemma not_halted_of_plain {pc : OwnerPc} (h : pc.plain = true) (r : ℕ) :
    pc.hasJoined r = false ∧ pc.halted r = false := by
  cases pc with
  | stop p b =>
      cases p with
      | halt | join | clear => cases h
      | _ => exact ⟨rfl, rfl⟩
  | _ => exact ⟨rfl, rfl⟩

lemma ne_spawn_of_plain {pc : OwnerPc} (h : pc.plain = true) (i port : ℕ) :
    pc ≠ .spawn i port := by
  rintro rfl
  cases h

end OwnerPc

namespace Server

variable {n : ℕ} {cfg : Config} {s s' : Server n}

/-- A loop's thread leaves `run()` when `stop()` has stopped the loop, and not before. -/
def Halting (s : Server n) (act : Act n) : Prop :=
  ∀ r, act = .leave r → s.host.pc.halted r.val = true

/-- Control `r` has been told to stop, if there is one. -/
def Flagged (c : Fin (n + 1) → Option Accept) (r : Fin (n + 1)) : Prop :=
  ∀ a, c r = some a → a.stopping = true

/-- Control `r` has been told to stop and `stop_on_owner` has been posted for it. -/
def Told (c : Fin (n + 1) → Option Accept) (r : Fin (n + 1)) : Prop :=
  ∀ a, c r = some a → a.stopping = true ∧ (a.posted = true ∨ a.stopRan = true)

/-- Which controls `stop()` has told to stop. -/
def Briefed (c : Fin (n + 1) → Option Accept) (accepts : ℕ) : OwnerPc → Prop
  | .stop (.store i) _ => ∀ r, r.val < i → Told c r
  | .stop (.post i) _ => (∀ r, r.val < i → Told c r) ∧ ∀ r, r.val = i → Flagged c r
  | .stop (.reap _) _ => ∀ r, r.val < accepts → Told c r
  | _ => True

/-- The threads and the controls that `start()` and `stop()` count on are there. -/
structure Manned (h : Host n) (c : Fin (n + 1) → Option Accept) : Prop where
  controls : ∀ r, r.val < h.accepts_ → (c r).isSome = true ∨ ∃ port, h.pc = .spawn r.val port
  threads : ∀ r, r.val < h.threads_ →
    h.thread r = .running ∨ h.thread r = .left ∨ h.pc.hasJoined r.val = true
  /-- The accept loops are spawned once every loop has its thread. -/
  all : 0 < h.accepts_ ∨ (∃ i port, h.pc = .control i port) → n + 1 ≤ h.threads_
  stays : ∀ r, h.thread r = .left → h.pc.halted r.val = true
  briefed : Briefed c h.accepts_ h.pc

namespace Manned

variable {h h' : Host n} {c c' : Fin (n + 1) → Option Accept}

lemma initial :
    Manned (Server.initial : Server n).host (Server.initial : Server n).control where
  controls _ hr := by simp [Server.initial] at hr
  threads _ hr := by simp [Server.initial] at hr
  all h := by simp [Server.initial] at h
  stays _ hr := by simp [Server.initial] at hr
  briefed := trivial

/-- The owner goes on, and leaves the threads and the number of controls alone. -/
lemma jump (hm : Manned h c) (haccepts : h'.accepts_ = h.accepts_)
    (hthreads : h'.threads_ = h.threads_) (hthread : h'.thread = h.thread)
    (hspawn : ∀ i port, h.pc ≠ .spawn i port)
    (hjoined : ∀ r, h.pc.hasJoined r = true → h'.pc.hasJoined r = true)
    (hhalted : ∀ r, h.pc.halted r = true → h'.pc.halted r = true)
    (hcontrol : (∃ i port, h'.pc = .control i port) → n + 1 ≤ h.threads_)
    (hsome : ∀ r, (c r).isSome = true → (c' r).isSome = true)
    (hbriefed : Briefed c' h.accepts_ h'.pc) : Manned h' c' where
  controls r hr := by
    rcases hm.controls r (haccepts ▸ hr) with hc | ⟨port, hpc⟩
    · exact .inl (hsome r hc)
    · exact absurd hpc (hspawn _ _)
  threads r hr := by
    rw [hthread]
    exact (hm.threads r (hthreads ▸ hr)).imp_right (Or.imp_right (hjoined r.val))
  all hall := by
    rw [haccepts] at hall
    rw [hthreads]
    exact hall.elim (fun hpos => hm.all (.inl hpos)) hcontrol
  stays r hr := by
    rw [hthread] at hr
    exact hhalted r.val (hm.stays r hr)
  briefed := haccepts ▸ hbriefed

lemma onward (hm : Manned h c) (hplain : h.pc.plain = true) (haccepts : h'.accepts_ = h.accepts_)
    (hthreads : h'.threads_ = h.threads_) (hthread : h'.thread = h.thread)
    (hcontrol : (∃ i port, h'.pc = .control i port) → n + 1 ≤ h.threads_)
    (hbriefed : Briefed c h.accepts_ h'.pc) : Manned h' c := by
  have hearly := OwnerPc.not_halted_of_plain hplain
  exact hm.jump haccepts hthreads hthread (OwnerPc.ne_spawn_of_plain hplain)
    (fun r hr => by simp [hearly] at hr) (fun r hr => by simp [hearly] at hr) hcontrol
    (fun _ hr => hr) hbriefed

/-- The owner goes on, and comes to no statement that makes a control. -/
lemma pass (hm : Manned h c) (hplain : h.pc.plain = true) (haccepts : h'.accepts_ = h.accepts_)
    (hthreads : h'.threads_ = h.threads_) (hthread : h'.thread = h.thread)
    (hcontrol : ∀ i port, h'.pc ≠ .control i port) (hbriefed : Briefed c h.accepts_ h'.pc) :
    Manned h' c := by
  refine hm.onward hplain haccepts hthreads hthread ?_ hbriefed
  rintro ⟨i, port, heq⟩
  exact absurd heq (hcontrol i port)

end Manned

/-! ### What is told stays told -/

lemma Flagged.step {l : Listener} {a a' : Accept} {act : Accept.Act}
    (h : a.step l act = some a') (hold : a.stopping = true) : a'.stopping = true :=
  Accept.stopping_of_move (Accept.move_of_step h) hold

lemma posted_step {l : Listener} {a a' : Accept} {act : Accept.Act}
    (h : a.step l act = some a') (hold : a.posted = true ∨ a.stopRan = true) :
    a'.posted = true ∨ a'.stopRan = true := by
  have hmove : Accept.Move l a act a' := Accept.move_of_step h
  cases hmove with
  | post told => exact .inl rfl
  | stopOnOwner posted idle => exact .inr rfl
  | _ => exact hold

/-- The controls take steps of their own, and none is added. -/
lemma Briefed.steps {c c' : Fin (n + 1) → Option Accept} {listener : Fin (n + 1) → Listener}
    {accepts : ℕ} {pc : OwnerPc}
    (hstep : ∀ i, c' i = c i ∨ ∃ a act a', c i = some a ∧ a.step (listener i) act = some a' ∧
      c' i = some a') (h : Briefed c accepts pc) : Briefed c' accepts pc := by
  have hflagged : ∀ r, Flagged c r → Flagged c' r := by
    intro r hr a' ha'
    rcases hstep r with heq | ⟨a, act, a₁, ha, hab, ha₁⟩
    · exact hr a' (heq ▸ ha')
    · obtain rfl : a₁ = a' := Option.some.inj (ha₁.symm.trans ha')
      exact Flagged.step hab (hr a ha)
  have htold : ∀ r, Told c r → Told c' r := by
    intro r hr a' ha'
    rcases hstep r with heq | ⟨a, act, a₁, ha, hab, ha₁⟩
    · exact hr a' (heq ▸ ha')
    · obtain rfl : a₁ = a' := Option.some.inj (ha₁.symm.trans ha')
      exact ⟨Flagged.step hab (hr a ha).1, posted_step hab (hr a ha).2⟩
  cases pc with
  | stop p b =>
      cases p with
      | store i => exact fun r hr => htold r (h r hr)
      | post i => exact ⟨fun r hr => htold r (h.1 r hr), fun r hr => hflagged r (h.2 r hr)⟩
      | reap i => exact fun r hr => htold r (h r hr)
      | _ => trivial
  | _ => trivial

lemma Manned.beside (hm : Manned s.host s.control) (hbeside : Beside cfg s s') :
    Manned s'.host s'.control := by
  have hsome : ∀ r, (s'.control r).isSome = (s.control r).isSome := by
    intro r
    rcases hbeside.control r with heq | ⟨a, act, a', ha, -, ha'⟩
    · rw [heq]
    · rw [ha, ha']
      rfl
  rw [hbeside.host]
  exact {
    controls := fun r hr => by
      rw [hsome]
      exact hm.controls r hr
    threads := hm.threads
    all := hm.all
    stays := hm.stays
    briefed := hm.briefed.steps hbeside.control }

lemma Manned.tell (hm : Manned s.host s.control) {r : Fin (n + 1)} {act : Accept.Act}
    {t : Server n} (ht : s.acceptAct cfg r act = some t) {pc : OwnerPc}
    (hplain : s.host.pc.plain = true) (hcontrol : ∀ i port, pc ≠ .control i port)
    (hbriefed : Briefed t.control s.host.accepts_ pc) :
    Manned (t.goto pc).host (t.goto pc).control := by
  have hbeside := beside_of_acceptAct ht
  have hm' := hm.beside hbeside
  have hhost : t.host = s.host := hbeside.host
  exact hm'.pass (hhost ▸ hplain) rfl rfl rfl hcontrol (hhost ▸ hbriefed)

/-! ### The owner's statements -/

namespace Manned

variable {intact : Prop}

/-- Before there is a control, the thread of loop `r` is claimed, made, or given up. -/
lemma rethread {h h' : Host n} {c : Fin (n + 1) → Option Accept} (hm : Manned h c)
    (hplain : h.pc.plain = true) {r : Fin (n + 1)} {v : Thread} (hv : v ≠ .left)
    (hnone : h'.accepts_ = 0) (hcontrol : ∀ i port, h'.pc ≠ .control i port)
    (hthread : h'.thread = Function.update h.thread r v)
    (hcount : ∀ q : Fin (n + 1), q.val < h'.threads_ →
      q = r ∧ v = .running ∨ q ≠ r ∧ q.val < h.threads_)
    (hbriefed : Briefed c 0 h'.pc) : Manned h' c where
  controls q hq := by simp [hnone] at hq
  threads q hq := by
    rw [hthread]
    rcases hcount q hq with ⟨rfl, rfl⟩ | ⟨hne, hlt⟩
    · exact .inl (Function.update_self ..)
    · rw [Function.update_of_ne hne]
      have hold := hm.threads q hlt
      simp only [OwnerPc.not_halted_of_plain hplain, Bool.false_eq_true, or_false] at hold
      exact hold.imp_right .inl
  all hall := by
    rcases hall with hpos | ⟨i, port, heq⟩
    · simp [hnone] at hpos
    · exact absurd heq (hcontrol i port)
  stays q hq := by
    rw [hthread] at hq
    by_cases hne : q = r
    · subst hne
      exact absurd (by simpa using hq) hv
    · rw [Function.update_of_ne hne] at hq
      simpa [OwnerPc.not_halted_of_plain hplain] using hm.stays q hq
  briefed := hnone ▸ hbriefed

/-- `wait_listening()`, or the way into the `catch` block. -/
lemma of_waitListening (hm : Manned s.host s.control) {i : Fin (n + 1)} {next : Accept → OwnerPc}
    (h : s.waitListening i next = some s') (hplain : s.host.pc.plain = true)
    (hcontrol : ∀ a, (∃ i port, next a = .control i port) → n + 1 ≤ s.host.threads_)
    (hbriefed : ∀ a, Briefed s.control s.host.accepts_ (next a)) : Manned s'.host s'.control := by
  obtain ⟨a, ha, h⟩ := Option.bind_eq_some_iff.mp h
  split at h
  · cases h
    exact hm.onward hplain rfl rfl rfl (hcontrol a) (hbriefed a)
  · split at h
    · cases h
      exact hm.pass hplain rfl rfl rfl (by simp [goto]) trivial
    · cases h

/-- `loops_` of reactor `i` is raised, and after that its thread made; or the loop is over. -/
lemma of_claim (hm : Manned s.host s.control) (hh : Hosted cfg intact s.host s.control)
    {ok : Bool} {i : ℕ} (hpc : s.host.pc = .claim i) (h : s.startStep cfg ok (.claim i) = some s') :
    Manned s'.host s'.control := by
  have hplain : s.host.pc.plain = true := by rw [hpc]; rfl
  have hat := hh.here
  rw [hpc] at hat
  obtain ⟨hthreads, haccepts⟩ := hat
  simp only [startStep] at h
  rcases each_cases h with ⟨hi, -, h⟩ | ⟨hover, rfl⟩
  · cases h
    refine hm.rethread hplain (r := ⟨i, hi⟩) (v := .claimed) (by simp) haccepts (by simp [goto]) rfl
      (fun q hq => .inr ⟨fun heq => ?_, hq⟩) trivial
    -- the threads of the loops before have been made, and not this one
    have hlt : q.val < i := hthreads ▸ hq
    simp [heq] at hlt
  · exact hm.onward hplain rfl rfl rfl (fun _ => by omega) trivial

lemma of_thread (hm : Manned s.host s.control) (hh : Hosted cfg intact s.host s.control)
    {ok : Bool} {i : ℕ} (hpc : s.host.pc = .thread i)
    (h : s.startStep cfg ok (.thread i) = some s') : Manned s'.host s'.control := by
  have hplain : s.host.pc.plain = true := by rw [hpc]; rfl
  have hat := hh.here
  rw [hpc] at hat
  obtain ⟨hthreads, haccepts, hi, -⟩ := hat
  simp only [startStep] at h
  rcases each_cases h with ⟨_, -, h⟩ | ⟨hover, -⟩
  · split at h <;> cases h
    · refine hm.rethread hplain (r := ⟨i, hi⟩) (v := .running) (by simp) haccepts (by simp [goto])
        rfl (fun q hq => ?_) trivial
      have hlt : q.val < i + 1 := hthreads ▸ hq
      rcases Nat.lt_succ_iff_lt_or_eq.mp hlt with hlt | heq
      · exact .inr ⟨fun heq => by simp [heq] at hlt, hthreads ▸ hlt⟩
      · exact .inl ⟨Fin.ext heq, rfl⟩
    · refine hm.rethread hplain (r := ⟨i, hi⟩) (v := .none) (by simp) haccepts (by simp [goto]) rfl
        (fun q hq => .inr ⟨fun heq => ?_, hq⟩) trivial
      have hlt : q.val < i := hthreads ▸ hq
      simp [heq] at hlt
  · exact absurd ⟨hi, hi⟩ hover

/-- Control `i` is made, or its construction throws; or there are controls enough. -/
lemma of_control (hm : Manned s.host s.control) (hh : Hosted cfg intact s.host s.control)
    {ok : Bool} {i port : ℕ} (hpc : s.host.pc = .control i port)
    (h : s.startStep cfg ok (.control i port) = some s') : Manned s'.host s'.control := by
  have hplain : s.host.pc.plain = true := by rw [hpc]; rfl
  have hall := hm.all (.inr ⟨i, port, hpc⟩)
  have hat := hh.here
  rw [hpc] at hat
  obtain ⟨haccepts, -, -⟩ := hat
  simp only [startStep] at h
  rcases each_cases h with ⟨hi, hlt, h⟩ | ⟨hover, rfl⟩
  · split at h <;> cases h
    · refine ⟨fun r hr => ?_, fun r hr => ?_, fun _ => hall, fun r hr => ?_, trivial⟩
      · have hr : r.val < i + 1 := haccepts ▸ hr
        rcases Nat.lt_succ_iff_lt_or_eq.mp hr with hlt | heq
        · rcases hm.controls r (haccepts ▸ hlt) with hc | ⟨port', hpc'⟩
          · exact .inl hc
          · exact absurd hpc' (OwnerPc.ne_spawn_of_plain hplain _ _)
        · exact .inr ⟨port, by simp [goto, heq]⟩
      · simpa [goto, hpc, OwnerPc.hasJoined] using hm.threads r hr
      · simpa [OwnerPc.not_halted_of_plain hplain] using hm.stays r hr
    · exact hm.pass hplain rfl rfl rfl (by simp [goto]) trivial
  · exact hm.pass hplain rfl rfl rfl (by simp [goto]) trivial

/-- The accept loop of control `i` is spawned, or reports that it was not. -/
lemma of_spawn (hm : Manned s.host s.control) (hh : Hosted cfg intact s.host s.control)
    {ok : Bool} {i port : ℕ} (hpc : s.host.pc = .spawn i port)
    (h : s.startStep cfg ok (.spawn i port) = some s') : Manned s'.host s'.control := by
  have hat := hh.here
  rw [hpc] at hat
  obtain ⟨haccepts, hlt, -⟩ := hat
  have hbound := cfg.listeners_le n
  simp only [startStep] at h
  rcases each_cases h with ⟨hi, -, h⟩ | ⟨hover, -⟩
  · cases h
    refine ⟨fun r hr => .inl ?_, fun r hr => ?_, fun _ => ?_, fun r hr => ?_, ?_⟩
    · by_cases hne : r = ⟨i, hi⟩
      · simp [goto, hne]
      · rcases hm.controls r hr with hc | ⟨port', hpc'⟩
        · simpa [goto, hne] using hc
        · obtain ⟨heq, -⟩ : i = r.val ∧ _ := by simpa [hpc] using hpc'
          exact absurd (Fin.ext heq.symm) hne
    · have hold := hm.threads r hr
      simp only [hpc, OwnerPc.hasJoined, Bool.false_eq_true, or_false] at hold
      exact hold.imp_right .inl
    · exact hm.all (.inl (by omega))
    · have hold := hm.stays r hr
      simp [hpc, OwnerPc.halted] at hold
    · cases ok <;> trivial
  · omega

/-- Where no port was asked for, the first control is waited for before the next one is made. -/
lemma of_firstPort (hm : Manned s.host s.control) (hh : Hosted cfg intact s.host s.control)
    {ok : Bool} {i port : ℕ} (hpc : s.host.pc = .firstPort i port)
    (h : s.startStep cfg ok (.firstPort i port) = some s') : Manned s'.host s'.control := by
  have hplain : s.host.pc.plain = true := by rw [hpc]; rfl
  have hat := hh.here
  rw [hpc] at hat
  obtain ⟨haccepts, hlt, -⟩ := hat
  have hall := hm.all (.inl (by omega))
  simp only [startStep] at h
  split at h
  · exact hm.of_waitListening h hplain (fun _ _ => hall) fun _ => trivial
  · cases h
    exact hm.onward hplain rfl rfl rfl (fun _ => hall) trivial

lemma of_startStep (hm : Manned s.host s.control) (hh : Hosted cfg intact s.host s.control)
    {ok : Bool} {pc : OwnerPc} (hpc : s.host.pc = pc) (h : s.startStep cfg ok pc = some s') :
    Manned s'.host s'.control := by
  cases pc with
  | done how => cases h
  | stop p b => cases h
  | claim i => exact hm.of_claim hh hpc h
  | thread i => exact hm.of_thread hh hpc h
  | control i port => exact hm.of_control hh hpc h
  | spawn i port => exact hm.of_spawn hh hpc h
  | firstPort i port => exact hm.of_firstPort hh hpc h
  | guard i =>
      have hplain : s.host.pc.plain = true := by rw [hpc]; rfl
      simp only [startStep] at h
      rcases each_cases h with ⟨hi, -, h⟩ | ⟨-, rfl⟩
      · split at h <;> cases h <;> exact hm.pass hplain rfl rfl rfl (by simp [goto]) trivial
      · exact hm.pass hplain rfl rfl rfl (by simp [goto]) trivial
  | listening i =>
      have hplain : s.host.pc.plain = true := by rw [hpc]; rfl
      simp only [startStep] at h
      rcases each_cases h with ⟨hi, -, h⟩ | ⟨-, rfl⟩
      · exact hm.of_waitListening h hplain (fun _ => by simp) fun _ => trivial
      · exact hm.pass hplain rfl rfl rfl (by simp [goto]) trivial
  | setPort =>
      have hplain : s.host.pc.plain = true := by rw [hpc]; rfl
      obtain ⟨front, -, rfl⟩ := Option.map_eq_some_iff.mp h
      exact hm.pass hplain rfl rfl rfl (by simp [goto]) trivial
  | flag i =>
      have hplain : s.host.pc.plain = true := by rw [hpc]; rfl
      simp only [startStep] at h
      rcases each_cases h with ⟨hi, -, h⟩ | ⟨-, rfl⟩
      · obtain ⟨t, ht, rfl⟩ := Option.map_eq_some_iff.mp h
        exact hm.tell ht hplain (by simp) trivial
      · exact hm.pass hplain rfl rfl rfl (by simp [goto]) trivial
  | poll i =>
      have hplain : s.host.pc.plain = true := by rw [hpc]; rfl
      simp only [startStep] at h
      rcases each_cases h with ⟨hi, -, h⟩ | ⟨-, rfl⟩
      · cases h
        exact hm.pass hplain rfl rfl rfl (by simp [goto]) trivial
      · exact hm.pass hplain rfl rfl rfl (by simp [goto]) trivial

/-- `stopping.store(true)` in `stop()`. -/
lemma store_ (hm : Manned s.host s.control) {i : ℕ} {b : Bool} (hi : i < n + 1)
    (hpc : s.host.pc = .stop (.store i) b) {t : Server n}
    (ht : s.acceptAct cfg ⟨i, hi⟩ .store = some t) :
    Manned (t.goto (.stop (.post i) b)).host (t.goto (.stop (.post i) b)).control := by
  have hold : Briefed s.control s.host.accepts_ (.stop (.store i) b) := hpc ▸ hm.briefed
  refine hm.tell ht (by rw [hpc]; rfl) (by simp)
    ⟨hold.steps (beside_of_acceptAct ht).control, fun r hr a ha => ?_⟩
  obtain rfl : r = ⟨i, hi⟩ := Fin.ext hr
  obtain ⟨a₀, -, ht⟩ := Option.bind_eq_some_iff.mp ht
  obtain ⟨a₁, hstep, rfl⟩ := Option.map_eq_some_iff.mp ht
  obtain rfl : a₁ = a := by simpa using ha
  cases hstep
  rfl

/-- The post of `stop_on_owner` in `stop()`. -/
lemma post_ (hm : Manned s.host s.control) {i : ℕ} {b : Bool} (hi : i < n + 1)
    (hpc : s.host.pc = .stop (.post i) b) {t : Server n}
    (ht : s.acceptAct cfg ⟨i, hi⟩ .post = some t) :
    Manned (t.goto (.stop (.store (i + 1)) b)).host
      (t.goto (.stop (.store (i + 1)) b)).control := by
  have hold : Briefed s.control s.host.accepts_ (.stop (.post i) b) := hpc ▸ hm.briefed
  have hsteps := hold.steps (beside_of_acceptAct ht).control
  refine hm.tell ht (by rw [hpc]; rfl) (by simp) fun r hr => ?_
  rcases Nat.lt_succ_iff_lt_or_eq.mp hr with hlt | heq
  · exact hsteps.1 r hlt
  · intro a ha
    refine ⟨hsteps.2 r heq a ha, .inl ?_⟩
    obtain rfl : r = ⟨i, hi⟩ := Fin.ext heq
    obtain ⟨a₀, -, ht⟩ := Option.bind_eq_some_iff.mp ht
    obtain ⟨a₁, hstep, rfl⟩ := Option.map_eq_some_iff.mp ht
    obtain rfl : a₁ = a := by simpa using ha
    obtain ⟨-, hstep⟩ := Option.ite_none_right_eq_some.mp hstep
    cases hstep
    rfl

/-- `stop()` has told the controls before `i`, and there are no more. -/
lemma briefed_all {i : ℕ} (hover : ¬(i < n + 1 ∧ i < s.host.accepts_))
    (h : ∀ r : Fin (n + 1), r.val < i → Told s.control r) (b : Bool) :
    Briefed s.control s.host.accepts_ (.stop (.reap 0) b) := fun r hr =>
  h r (by have := r.isLt; omega)

lemma join_ (hm : Manned s.host s.control) {i : ℕ} {b : Bool} (hi : i < n + 1)
    (hpc : s.host.pc = .stop (.join i) b) :
    Manned { s.host with
      thread := Function.update s.host.thread ⟨i, hi⟩ .joined
      pc := .stop (.join (i + 1)) b } s.control where
  controls r hr := by simpa [hpc] using hm.controls r hr
  threads r hr := by
    by_cases hne : r = ⟨i, hi⟩
    · exact .inr (.inr (by simp [OwnerPc.hasJoined, hne]))
    · have hold := hm.threads r hr
      simp only [hpc, OwnerPc.hasJoined, decide_eq_true_eq] at hold
      simp only [Function.update_of_ne hne, OwnerPc.hasJoined, decide_eq_true_eq]
      exact hold.imp_right (Or.imp_right Nat.lt_succ_of_lt)
  all hall := hm.all (.inl (by simpa using hall))
  stays r hr := rfl
  briefed := trivial

/-- Loop `i` is stopped, or all of them are. -/
lemma halt_ (hm : Manned s.host s.control) {ok b : Bool} {i : ℕ}
    (hpc : s.host.pc = .stop (.halt i) b) (h : s.stopStep cfg ok b (.halt i) = some s') :
    Manned s'.host s'.control := by
  simp only [stopStep] at h
  rcases each_cases h with ⟨hi, -, h⟩ | ⟨-, rfl⟩
  · cases h
    refine hm.jump rfl rfl rfl (by simp [hpc]) (by simp [hpc, OwnerPc.hasJoined]) (fun r hr => ?_)
      (by rintro ⟨_, _, heq⟩; cases heq) (fun _ hr => hr) trivial
    simp only [hpc, OwnerPc.halted, goto, decide_eq_true_eq] at hr ⊢
    omega
  · exact hm.jump rfl rfl rfl (by simp [hpc]) (by simp [hpc, OwnerPc.hasJoined])
      (fun _ _ => rfl) (by rintro ⟨_, _, heq⟩; cases heq) (fun _ hr => hr) trivial

/-- Thread `i` is joined, or every thread that was made has been. -/
lemma of_join (hm : Manned s.host s.control) (hh : Hosted cfg intact s.host s.control)
    {ok b : Bool} {i : ℕ} (hpc : s.host.pc = .stop (.join i) b)
    (h : s.stopStep cfg ok b (.join i) = some s') : Manned s'.host s'.control := by
  have hat := hh.here
  rw [hpc] at hat
  obtain ⟨-, -, hgone⟩ := hat
  simp only [stopStep] at h
  rcases each_cases h with ⟨hi, -, h⟩ | ⟨hover, rfl⟩
  · obtain ⟨-, h⟩ := Option.ite_none_right_eq_some.mp h
    cases h
    exact hm.join_ hi hpc
  · refine ⟨fun r hr => ?_, fun r hr => .inr (.inr rfl), fun hall => ?_, fun r hr => ?_, trivial⟩
    · simpa [goto, hpc] using hm.controls r hr
    · exact hm.all (.inl (by simpa [goto] using hall))
    · have hlt := hh.launched r (.inr hr)
      exact absurd hr (hgone r (by have := r.isLt; omega)).2

lemma of_stopStep (hm : Manned s.host s.control) (hh : Hosted cfg intact s.host s.control)
    {ok b : Bool} {p : StopPc} (hpc : s.host.pc = .stop p b)
    (h : s.stopStep cfg ok b p = some s') : Manned s'.host s'.control := by
  have hold := hm.briefed
  rw [hpc] at hold
  cases p with
  | test =>
      have hplain : s.host.pc.plain = true := by rw [hpc]; rfl
      simp only [stopStep] at h
      split at h <;> cases h
      · exact hm.pass hplain rfl rfl rfl (by simp [goto, stopEnd]) trivial
      · exact hm.pass hplain rfl rfl rfl (by simp [goto]) trivial
  | abort i | force i =>
      have hplain : s.host.pc.plain = true := by rw [hpc]; rfl
      simp only [stopStep] at h
      rcases each_cases h with ⟨hi, -, h⟩ | ⟨-, rfl⟩
      · obtain ⟨t, ht, rfl⟩ := Option.map_eq_some_iff.mp h
        obtain ⟨l, -, rfl⟩ := Option.map_eq_some_iff.mp ht
        exact hm.pass hplain rfl rfl rfl (by simp [goto]) trivial
      · exact hm.pass hplain rfl rfl rfl (by simp [goto]) (by simp [Briefed, goto])
  | awaitAbort i | awaitForce i | drainForced i =>
      have hplain : s.host.pc.plain = true := by rw [hpc]; rfl
      simp only [stopStep] at h
      rcases each_cases h with ⟨hi, -, h⟩ | ⟨-, rfl⟩
      · obtain ⟨-, h⟩ := Option.ite_none_right_eq_some.mp h
        cases h
        exact hm.pass hplain rfl rfl rfl (by simp [goto]) trivial
      · exact hm.pass hplain rfl rfl rfl (by simp [goto]) (by simp [Briefed, goto])
  | store i =>
      have hplain : s.host.pc.plain = true := by rw [hpc]; rfl
      simp only [stopStep] at h
      rcases each_cases h with ⟨hi, -, h⟩ | ⟨hover, rfl⟩
      · obtain ⟨t, ht, rfl⟩ := Option.map_eq_some_iff.mp h
        exact hm.store_ hi hpc ht
      · exact hm.pass hplain rfl rfl rfl (by simp [goto]) (briefed_all hover hold b)
  | post i =>
      have hplain : s.host.pc.plain = true := by rw [hpc]; rfl
      simp only [stopStep] at h
      rcases each_cases h with ⟨hi, -, h⟩ | ⟨hover, rfl⟩
      · obtain ⟨t, ht, rfl⟩ := Option.map_eq_some_iff.mp h
        exact hm.post_ hi hpc ht
      · exact hm.pass hplain rfl rfl rfl (by simp [goto]) (briefed_all hover hold.1 b)
  | reap i =>
      have hplain : s.host.pc.plain = true := by rw [hpc]; rfl
      simp only [stopStep] at h
      rcases each_cases h with ⟨hi, -, h⟩ | ⟨-, rfl⟩
      · obtain ⟨-, h⟩ := Option.ite_none_right_eq_some.mp h
        cases h
        exact hm.pass hplain rfl rfl rfl (by simp [goto]) hold
      · exact hm.pass hplain rfl rfl rfl (by simp [goto]) trivial
  | drain i d =>
      have hplain : s.host.pc.plain = true := by rw [hpc]; rfl
      simp only [stopStep] at h
      rcases each_cases h with ⟨hi, -, h⟩ | ⟨-, rfl⟩
      · obtain ⟨-, h⟩ := Option.ite_none_right_eq_some.mp h
        cases h
        exact hm.pass hplain rfl rfl rfl (by simp [goto]) trivial
      · cases d <;> exact hm.pass hplain rfl rfl rfl (by simp [goto]) trivial
  | clearGuards =>
      cases h
      exact hm.pass (by rw [hpc]; rfl) rfl rfl rfl (by simp [goto]) trivial
  | halt i => exact hm.halt_ hpc h
  | join i => exact hm.of_join hh hpc h
  | clear =>
      have hat := hh.here
      rw [hpc] at hat
      obtain ⟨-, -, hgone⟩ := hat
      cases h
      refine ⟨fun r hr => ?_, fun r hr => ?_, fun hall => ?_, fun r hr => ?_, trivial⟩
      · simp [goto] at hr
      · simp [goto] at hr
      · simp [goto, stopEnd] at hall
      · exact absurd hr (hgone r).2

end Manned

/-- **A step leaves the threads and the controls there.** -/
theorem Manned.step (hm : Manned s.host s.control) {intact : Prop}
    (hh : Hosted cfg intact s.host s.control) {act : Act n} (hok : Halting s act)
    (h : (machine cfg).step s act = some s') : Manned s'.host s'.control := by
  have between : isDone s.host.pc = true → s.host.pc.plain = true := by
    cases s.host.pc <;> simp [isDone, OwnerPc.plain]
  cases hhost : isHost act with
  | false => exact hm.beside (beside_of_step hhost h)
  | true =>
      cases act with
      | callStart port =>
          obtain ⟨hdone, h⟩ := Option.ite_none_right_eq_some.mp h
          cases h
          unfold callStart
          split <;> exact hm.pass (between hdone) rfl rfl rfl (by simp [goto]) trivial
      | callStop =>
          obtain ⟨hdone, h⟩ := Option.ite_none_right_eq_some.mp h
          cases h
          exact hm.pass (between hdone) rfl rfl rfl (by simp [goto]) trivial
      | own ok =>
          simp only [machine, Server.step, ownStep] at h
          split at h
          · cases h
          · next p b hpc => exact hm.of_stopStep hh hpc h
          · exact hm.of_startStep hh rfl h
      | postFails =>
          simp only [machine, Server.step] at h
          split at h
          · next i b hpc =>
              obtain ⟨-, h⟩ := Option.ite_none_right_eq_some.mp h
              cases h
              exact hm.pass (by rw [hpc]; rfl) rfl rfl rfl (by simp [goto]) trivial
          · cases h
      | leave r =>
          obtain ⟨hrunning, h⟩ := Option.ite_none_right_eq_some.mp h
          cases h
          refine ⟨hm.controls, fun r' hr' => ?_, hm.all, fun r' hr' => ?_, hm.briefed⟩
          · by_cases hne : r' = r
            · exact .inr (.inl (by simp [hne]))
            · simpa [hne] using hm.threads r' hr'
          · by_cases hne : r' = r
            · exact hne ▸ hok r rfl
            · exact hm.stays r' (by simpa [hne] using hr')
      | _ => cases hhost

lemma manned_of_reachable (hs : (machine cfg).ReachableUnder Halting s) :
    Manned s.host s.control := by
  have hboth : Manned s.host s.control ∧ Hosted cfg False s.host s.control := by
    refine hs.invariant (I := fun s => Manned s.host s.control ∧ Hosted cfg False s.host s.control)
      ⟨.initial, .initial⟩ fun s act s' h hok hstep => ?_
    exact ⟨h.1.step h.2 hok hstep, h.2.step (fun hf => hf.elim) hstep⟩
  exact hboth.1

/-! ## An accept loop at its launch -/

/-- An accept loop at its launch holds something of a connection. -/
def Holding (s : Server n) : Prop :=
  ∀ i, s.acceptPc i = some .launch → s.sessions.hand i ≠ .empty

/-- The hand of an accept loop is emptied by the end of its launch, and by nothing else. -/
lemma hand_of_step {t t' : Sessions n} {maximum : ℕ} {act : Sessions.Act n}
    (h : t.step maximum act = some t') {i : Fin (n + 1)} (hi : t.hand i ≠ .empty)
    (hempty : t'.hand i = .empty) : act = .launched i ∨ act = .failed i := by
  cases act with
  | enter j =>
      obtain ⟨hj, h⟩ := Option.ite_none_right_eq_some.mp h
      have hne : i ≠ j := fun heq => hi (heq ▸ hj)
      split at h
      · cases h
        exact absurd (by simpa [hne] using hempty) hi
      · obtain ⟨-, h⟩ := Option.ite_none_right_eq_some.mp h
        cases h
        exact absurd (by simpa [hne] using hempty) hi
  | refuse j =>
      obtain ⟨-, h⟩ := Option.ite_none_right_eq_some.mp h
      cases h
      exact absurd hempty hi
  | mint j home =>
      simp only [Sessions.step] at h
      split at h
      · cases h
        by_cases hij : i = j
        · simp [hij] at hempty
        · exact absurd (by simpa [hij] using hempty) hi
      · cases h
  | conn c a =>
      obtain ⟨-, h⟩ := Option.ite_none_right_eq_some.mp h
      obtain ⟨k', -, rfl⟩ := Option.map_eq_some_iff.mp h
      rcases Sessions.Handed.hand_settle c (t.conn c) k' t.hand i with
        ⟨hsame, -⟩ | hret | ⟨hthrew, -⟩
      · exact absurd (hsame.symm.trans hempty) hi
      · cases hret.symm.trans hempty
      · cases hthrew.symm.trans hempty
  | launched j =>
      obtain ⟨-, h⟩ := Option.ite_none_right_eq_some.mp h
      cases h
      by_cases hij : i = j
      · exact .inl (by rw [hij])
      · exact absurd (by simpa [hij] using hempty) hi
  | failed j =>
      simp only [Sessions.step] at h
      split at h
      · obtain ⟨-, h⟩ := Option.ite_none_right_eq_some.mp h
        cases h
        by_cases hij : i = j
        · exact .inr (by rw [hij])
        · exact absurd (by simpa [hij] using hempty) hi
      · cases h

lemma Holding.congr (h : s.Holding)
    (hcontrol : ∀ i, s'.acceptPc i = some .launch → s.acceptPc i = some .launch)
    (hhand : ∀ i, s.sessions.hand i ≠ .empty → s'.sessions.hand i ≠ .empty) : s'.Holding :=
  fun i hi => hhand i (h i (hcontrol i hi))

/-- An accept loop comes to its launch by an admission, which is not among its own statements. -/
lemma launch_of_acceptAct {i j : Fin (n + 1)} {act : Accept.Act}
    (h : s.acceptAct cfg i act = some s')
    (hact : ∀ o, act = .run o → s.acceptPc i ≠ some .admission)
    (hj : s'.acceptPc j = some .launch) : s.acceptPc j = some .launch := by
  obtain ⟨a, ha, h⟩ := Option.bind_eq_some_iff.mp h
  obtain ⟨a', hstep, rfl⟩ := Option.map_eq_some_iff.mp h
  by_cases hij : j = i
  · subst hij
    have hpc' : a'.pc = .launch := by simpa [acceptPc] using hj
    have hmove : Accept.Move _ a act a' := Accept.move_of_step hstep
    have hpc : a.pc = .launch := by
      cases hmove with
      | store | post told => exact hpc'
      | stopOnOwner posted idle =>
          revert hpc'
          unfold Accept.stopOnOwner
          cases a.pc <;> simp
      | start pc | again pc | check pc | retryTest pc =>
          simp only [Accept.testStopping] at hpc'
          split at hpc' <;> cases hpc'
      | @setUp st pc more =>
          rcases Accept.nextSetup_cases (cfg.listener (s.host.portOf j)) st with
            hnext | ⟨st', hnext⟩
            <;> simp [hnext] at hpc'
      | admission pc => exact absurd (by simp [acceptPc, ha, pc]) (hact _ rfl)
      | _ => simp [Accept.finish] at hpc'
    simp [acceptPc, ha, hpc]
  · simpa [acceptPc, hij] using hj

lemma Holding.of_admit (h : s.Holding) {i : Fin (n + 1)} {pc : AcceptPc} {o : Accept.Outcome}
    {act : Sessions.Act n} (hstep : s.admitStep cfg i pc o act = some s')
    (hact : act = .enter i ∨ act = .refuse i ∨ act = .launched i ∨ act = .failed i)
    (hpc : pc = .admission ∧ (act = .enter i ∨ o ≠ .ok) ∨ pc = .launch) : s'.Holding := by
  obtain ⟨a, a', ha, hapc, hmove, hcontrol, hsessions⟩ := admitStep_cases hstep
  obtain ⟨hothers, -⟩ := Sessions.hand_of_desk hsessions hact
  intro j hj
  by_cases hij : j = i
  · subst hij
    have hpc' : a'.pc = .launch := by simpa [acceptPc, hcontrol] using hj
    -- from either place the launch is next only after an admission
    have henter : act = .enter j := by
      rcases hpc with ⟨rfl, henter | hok⟩ | rfl
      · exact henter
      · cases hmove <;> simp_all
      · cases hmove <;> simp_all
    subst henter
    obtain ⟨-, hsessions⟩ := Option.ite_none_right_eq_some.mp hsessions
    split at hsessions
    · rw [← Option.some.inj hsessions]
      simp
    · obtain ⟨-, hsessions⟩ := Option.ite_none_right_eq_some.mp hsessions
      rw [← Option.some.inj hsessions]
      simp
  · rw [hothers j hij]
    exact h j (by simpa [acceptPc, hcontrol, hij] using hj)

lemma Holding.step (h : s.Holding) {act : Act n} (hstep : (machine cfg).step s act = some s') :
    s'.Holding := by
  have host : isHost act = true → (∀ ok, act ≠ .own ok) → s'.Holding := by
    intro hhost hown
    obtain ⟨hsessions, hcontrol, -⟩ := control_of_host hhost hown hstep
    exact h.congr (fun i hi => by simpa [acceptPc, hcontrol] using hi) fun i hi => by
      rwa [hsessions]
  have inward : Inward cfg s s' → s'.Holding := by
    intro hin
    refine h.congr (fun i hi => by simpa [acceptPc, hin.control] using hi) fun i hi hempty => ?_
    rcases hin.sessions with heq | ⟨c, a, ha⟩
    · exact hi (heq ▸ hempty)
    · rcases hand_of_step ha hi hempty with hact | hact <;> cases hact
  cases act with
  | own ok =>
      have hup := Upkeep.of_own hstep
      refine h.congr (fun i hi => ?_) fun i hi => by rwa [hup.sessions]
      obtain ⟨a', ha', hpc⟩ := Option.map_eq_some_iff.mp hi
      have hhandled := hup.control i
      rw [ha'] at hhandled
      show (s.control i).map Accept.pc = some .launch
      generalize hc : s.control i = c at hhandled
      cases hhandled with
      | same => exact congrArg some hpc
      | told isTold hab =>
          have hmove : Accept.Move _ _ _ a' := Accept.move_of_step hab
          rcases isTold with rfl | rfl <;> cases hmove <;> exact congrArg some hpc
      | made ok port pc => cases ok <;> cases hpc
  | callStart port => exact host rfl (by simp)
  | callStop => exact host rfl (by simp)
  | postFails => exact host rfl (by simp)
  | leave r => exact host rfl (by simp)
  | accept i act =>
      refine h.congr (fun j hj => ?_) fun j hj => by rwa [(same_of_acceptStep hstep).sessions]
      cases act with
      | store => cases hstep
      | post => cases hstep
      | complete error => exact launch_of_acceptAct hstep (by simp) hj
      | expire => exact launch_of_acceptAct hstep (by simp) hj
      | stopOnOwner =>
          exact launch_of_acceptAct (Option.ite_none_right_eq_some.mp hstep).2 (by simp) hj
      | dispatch =>
          exact launch_of_acceptAct (Option.ite_none_right_eq_some.mp hstep).2 (by simp) hj
      | run o =>
          obtain ⟨⟨-, hnot, -⟩, hstep⟩ := Option.ite_none_right_eq_some.mp hstep
          obtain ⟨t, ht, rfl⟩ := Option.map_eq_some_iff.mp hstep
          refine launch_of_acceptAct ht (fun _ _ => hnot) ?_
          revert hj
          split
          · unfold chooseTarget
            split <;> exact id
          · exact id
  | enter i => exact h.of_admit hstep (.inl rfl) (.inl ⟨rfl, .inl rfl⟩)
  | refuse i => exact h.of_admit hstep (.inr (.inl rfl)) (.inl ⟨rfl, .inr (by simp)⟩)
  | launched i => exact h.of_admit hstep (.inr (.inr (.inl rfl))) (.inr rfl)
  | failed i badAlloc => exact h.of_admit hstep (.inr (.inr (.inr rfl))) (.inr rfl)
  | mint i =>
      obtain ⟨-, hstep⟩ := Option.ite_none_right_eq_some.mp hstep
      obtain ⟨u, hu, rfl⟩ := Option.map_eq_some_iff.mp hstep
      refine h.congr (fun j hj => hj) fun j hj hempty => ?_
      rcases hand_of_step hu hj hempty with hact | hact <;> cases hact
  | conn c a => exact inward (inward_of_connStep hstep)
  | loop r a => exact inward (inward_of_loopStep hstep)

lemma holding_of_reachable (hs : (machine cfg).Reachable s) : s.Holding := by
  refine hs.invariant (I := Holding) (fun i hi => ?_) fun s act s' h _ hstep => h.step hstep
  simp [machine, Server.initial, acceptPc] at hi

end Server

end ReactorRuntime
