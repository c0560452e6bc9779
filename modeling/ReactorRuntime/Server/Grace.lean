import ReactorRuntime.Server.Forcing
import ReactorRuntime.Server.Latecomers

/-!
# The grace that `stop()` gives its sessions

`stop()` calls `sessions_end_within(grace_)` at most twice (`reactor.h:719-722`).  Each call reads
the clock once, and waits for one reactor after the other until the deadline it has computed.
When the first call has seen every session end `stop()` goes on to stop the loops; when it has
not, `stop()` forces what is left and calls a second time, and then goes on whatever the result is.

This file puts a clock beside the server of `Server/TcpServer.lean`.  Time passes between any two
actions, and a wait gives up only once its deadline is over; how long after is left open, and so is
how long everything else takes.  What comes out is what a session can rely on: its connection is not
shut down before the grace is over, and nothing is stopped under it before it was asked to
stop, its connection was shut down, and the grace has passed twice.
-/

namespace ReactorRuntime

/-- A server and a clock, in milliseconds. -/
structure TimedServer (n : ℕ) where
  server : Server n
  now : ℕ
  /-- `deadline` of the last call of `sessions_end_within`. -/
  deadline : ℕ
  /-- Record: when the first call was made. -/
  first : ℕ

namespace TimedServer

variable {n : ℕ}

inductive Act (n : ℕ)
  | act (a : Server.Act n)
  /-- Time passes. -/
  | pass (ms : ℕ)
  deriving DecidableEq

def initial : TimedServer n where
  server := Server.initial
  now := 0
  deadline := 0
  first := 0

/-- In `wait_sessions_until` of some reactor. -/
def inWait (n : ℕ) : OwnerPc → Bool
  | .stop (.drain i _) _ => decide (i < n + 1)
  | .stop (.drainForced i) _ => decide (i < n + 1)
  | _ => false

/-- The owner makes its first call of `sessions_end_within`. -/
def callsFirst : OwnerPc → OwnerPc → Bool
  | .stop (.reap _) _, .stop (.drain _ _) _ => true
  | _, _ => false

/-- The owner makes its second call. -/
def callsAgain : OwnerPc → OwnerPc → Bool
  | .stop (.force _) _, .stop (.drainForced _) _ => true
  | .stop (.awaitForce _) _, .stop (.drainForced _) _ => true
  | _, _ => false

/-- The server goes on to `t`; a call of `sessions_end_within` reads the clock. -/
def follow (grace : ℕ) (s : TimedServer n) (t : Server n) : TimedServer n :=
  let first := callsFirst s.server.host.pc t.host.pc
  { s with
    server := t
    deadline :=
      if first || callsAgain s.server.host.pc t.host.pc then s.now + grace else s.deadline
    first := if first then s.now else s.first }

/-- One action; a wait that gives up is past its deadline. -/
def step (cfg : Config) (grace : ℕ) (s : TimedServer n) : Act n → Option (TimedServer n)
  | .act a =>
      if a = .own false ∧ inWait n s.server.host.pc = true → s.deadline ≤ s.now then
        (s.server.step cfg a).map (s.follow grace)
      else none
  | .pass ms => some { s with now := s.now + ms }

/-- The server with a clock as a machine. -/
def machine (cfg : Config) (grace : ℕ) : Machine (TimedServer n) (Act n) where
  init := initial
  step := step cfg grace

/-- No post of `stop_on_owner` throws. -/
def Posts (_ : TimedServer n) (act : Act n) : Prop := act ≠ .act .postFails

section

variable {cfg : Config} {grace : ℕ} {s s' : TimedServer n}

/-! ## The clock and the waits -/

/-- What the clock says at each statement of `stop()`. -/
structure Punctual (grace : ℕ) (s : TimedServer n) : Prop where
  waiting : ∀ i d b, s.server.host.pc = .stop (.drain i d) b →
    s.deadline = s.first + grace ∧ (d = false → s.deadline ≤ s.now)
  /-- What is left of the sessions is forced when the first wait has given up. -/
  forcing : ∀ i b,
    s.server.host.pc = .stop (.force i) b ∨ s.server.host.pc = .stop (.awaitForce i) b →
      s.first + grace ≤ s.now
  unforced : ∀ r, (s.server.loop r).Unforced ∨ s.first + grace ≤ s.now
  again : ∀ i b, s.server.host.pc = .stop (.drainForced i) b →
    s.first + 2 * grace ≤ s.deadline ∧ ∀ r : Fin (n + 1), r.val < i →
      s.server.sessions.sessions_ r = 0 ∨ s.deadline ≤ s.now
  retired : s.server.Retired → (∀ r, s.server.sessions.sessions_ r = 0) ∨
    (s.first + 2 * grace ≤ s.now ∧ ∀ r, (s.server.loop r).ForceOver)

lemma Punctual.initial : Punctual grace (initial : TimedServer n) where
  waiting _ _ _ h := by cases h
  forcing _ _ h := by rcases h with h | h <;> cases h
  unforced _ := .inl ⟨rfl, rfl⟩
  again _ _ h := by cases h
  retired h := by cases h.1

lemma Punctual.pass (h : s.Punctual grace) (ms : ℕ) :
    Punctual grace { s with now := s.now + ms } where
  waiting i d b hpc := (h.waiting i d b hpc).imp id fun hd hfalse =>
    Nat.le_add_right_of_le (hd hfalse)
  forcing i b hpc := Nat.le_add_right_of_le (h.forcing i b hpc)
  unforced r := (h.unforced r).imp id Nat.le_add_right_of_le
  again i b hpc := (h.again i b hpc).imp id fun hseen r hr =>
    (hseen r hr).imp id Nat.le_add_right_of_le
  retired hret := (h.retired hret).imp id fun hover => ⟨Nat.le_add_right_of_le hover.1, hover.2⟩

/-- The first call is made when the accept loops have been reaped. -/
lemma exists_of_callsFirst {pc pc' : OwnerPc} (h : callsFirst pc pc' = true) :
    (∃ i b, pc = .stop (.reap i) b) ∧ ∃ i d b, pc' = .stop (.drain i d) b := by
  unfold callsFirst at h
  split at h
  · exact ⟨⟨_, _, rfl⟩, _, _, _, rfl⟩
  · cases h

/-- The second call is made when the force walks are over. -/
lemma exists_of_callsAgain {pc pc' : OwnerPc} (h : callsAgain pc pc' = true) :
    (∃ i b, pc = .stop (.force i) b ∨ pc = .stop (.awaitForce i) b) ∧
      ∃ i b, pc' = .stop (.drainForced i) b := by
  unfold callsAgain at h
  split at h
  · exact ⟨⟨_, _, .inl rfl⟩, _, _, rfl⟩
  · exact ⟨⟨_, _, .inr rfl⟩, _, _, rfl⟩
  · cases h

/-- The second wait goes on to the next reactor, with what it saw of this one. -/
lemma drainForced_of_stopStep {s s' : Server n} {ok b : Bool} {j : ℕ}
    (h : s.stopStep cfg ok b (.drainForced j) = some s')
    (hpc : s'.host.pc = .stop (.drainForced (j + 1)) b) :
    ∃ hj : j < n + 1, ok = decide (s.sessions.sessions_ ⟨j, hj⟩ = 0) := by
  simp only [Server.stopStep] at h
  rcases Server.each_cases h with ⟨hj, -, h⟩ | ⟨-, rfl⟩
  · obtain ⟨hok, -⟩ := Option.ite_none_right_eq_some.mp h
    exact ⟨hj, hok⟩
  · cases hpc

/-! ## One action of the server -/

section

variable {t : Server n} {a : Server.Act n}

lemma Punctual.waiting_act (h : s.Punctual grace)
    (hgive : a = .own false ∧ inWait n s.server.host.pc = true → s.deadline ≤ s.now)
    (hstep : (Server.machine cfg).step s.server a = some t) (i : ℕ) (d b : Bool)
    (hpc : t.host.pc = .stop (.drain i d) b) :
    (s.follow grace t).deadline = (s.follow grace t).first + grace ∧
      (d = false → (s.follow grace t).deadline ≤ s.now) := by
  have kept : callsFirst s.server.host.pc t.host.pc = false →
      (s.follow grace t).first = s.first ∧ (s.follow grace t).deadline = s.deadline := by
    intro hfirst
    have hagain : callsAgain s.server.host.pc t.host.pc = false := by
      rw [hpc]
      unfold callsAgain
      split <;> simp_all
    simp [follow, hfirst, hagain]
  rcases Server.pc_of_step hstep with
    ⟨hsame, -⟩ | htest | ⟨ok, p, b', p', rfl, hp, hp', hnext, hstop⟩
  · obtain ⟨hfirst, hdeadline⟩ := kept (by rw [← hsame, hpc]; rfl)
    rw [hfirst, hdeadline]
    exact h.waiting i d b (hsame ▸ hpc)
  · cases htest _ b hpc
  · obtain ⟨rfl, rfl⟩ : p' = .drain i d ∧ b' = b := by
      rw [hp'] at hpc
      cases hpc
      exact ⟨rfl, rfl⟩
    rcases Server.drain_of_stopStep hstop hpc with rfl | ⟨j, e, rfl, rfl, hd, hj, hok⟩
    · cases hnext with
      | reaped => simp [follow, hp, hp', callsFirst]
    · obtain ⟨hfirst, hdeadline⟩ := kept (by rw [hp]; rfl)
      obtain ⟨heq, hgave⟩ := h.waiting j e b' hp
      rw [hfirst, hdeadline]
      refine ⟨heq, fun hfalse => ?_⟩
      subst hfalse
      cases e with
      | false => exact hgave rfl
      | true =>
          obtain rfl : ok = false := by simpa using hd.symm
          exact hgive ⟨rfl, by simp [inWait, hp, hj]⟩

lemma Punctual.forcing_act (h : s.Punctual grace)
    (hstep : (Server.machine cfg).step s.server a = some t) (i : ℕ) (b : Bool)
    (hpc : t.host.pc = .stop (.force i) b ∨ t.host.pc = .stop (.awaitForce i) b) :
    (s.follow grace t).first + grace ≤ s.now := by
  have hfirst : (s.follow grace t).first = s.first := by
    have : callsFirst s.server.host.pc t.host.pc = false := by
      unfold callsFirst
      split <;> simp_all
    simp [follow, this]
  rw [hfirst]
  rcases Server.pc_of_step hstep with
    ⟨hsame, -⟩ | htest | ⟨ok, p, b', p', rfl, hp, hp', hnext, hstop⟩
  · exact h.forcing i b (hsame ▸ hpc)
  · rcases hpc with hpc | hpc <;> cases htest _ b hpc
  · rcases hpc with hpc | hpc
    · obtain ⟨rfl, rfl⟩ : p' = .force i ∧ b' = b := by
        rw [hp'] at hpc
        cases hpc
        exact ⟨rfl, rfl⟩
      cases hnext with
      | undrained =>
          obtain ⟨heq, hgave⟩ := h.waiting _ _ _ hp
          rw [← heq]
          exact hgave rfl
      | awaitForce => exact h.forcing _ _ (.inr hp)
    · obtain ⟨rfl, rfl⟩ : p' = .awaitForce i ∧ b' = b := by
        rw [hp'] at hpc
        cases hpc
        exact ⟨rfl, rfl⟩
      cases hnext
      exact h.forcing _ _ (.inl hp)

lemma Punctual.unforced_act (h : s.Punctual grace) (hpressed : s.server.Pressed)
    (hstep : (Server.machine cfg).step s.server a = some t) (r : Fin (n + 1)) :
    (t.loop r).Unforced ∨ (s.follow grace t).first + grace ≤ s.now := by
  cases hfirst : callsFirst s.server.host.pc t.host.pc with
  | true =>
      -- `stop()` has just reaped the accept loops, and asked for nothing
      obtain ⟨⟨i, b, hpc⟩, -⟩ := exists_of_callsFirst hfirst
      refine .inl (Server.unforced_of_step hstep ?_ (hpressed.before _ b r hpc rfl))
      rintro - b' - hc
      rw [hpc] at hc
      cases hc
  | false =>
      have hkept : (s.follow grace t).first = s.first := by simp [follow, hfirst]
      rw [hkept]
      rcases h.unforced r with hun | hpassed
      · by_cases hpc : ∃ b, s.server.host.pc = .stop (.force r.val) b
        · obtain ⟨b, hpc⟩ := hpc
          exact .inr (h.forcing _ b (.inl hpc))
        · exact .inl (Server.unforced_of_step hstep (fun _ b _ hc => hpc ⟨b, hc⟩) hun)
      · exact .inr hpassed

lemma sessions_le (hdesk : Server.Desk cfg s.server) {p : StopPc} {b : Bool}
    (hpc : s.server.host.pc = .stop p b) (hgraced : p.graced = true)
    (hstep : (Server.machine cfg).step s.server a = some t) (r : Fin (n + 1))
    (hzero : s.server.sessions.sessions_ r = 0) : t.sessions.sessions_ r = 0 := by
  have hle := hdesk.sessions_le (hdesk.over_of_graced hpc hgraced) hstep r
  omega

lemma Punctual.again_act (h : s.Punctual grace) (hdesk : Server.Desk cfg s.server)
    (hgive : a = .own false ∧ inWait n s.server.host.pc = true → s.deadline ≤ s.now)
    (hstep : (Server.machine cfg).step s.server a = some t) (i : ℕ) (b : Bool)
    (hpc : t.host.pc = .stop (.drainForced i) b) :
    (s.follow grace t).first + 2 * grace ≤ (s.follow grace t).deadline ∧
      ∀ r : Fin (n + 1), r.val < i →
        t.sessions.sessions_ r = 0 ∨ (s.follow grace t).deadline ≤ s.now := by
  have hfirst : callsFirst s.server.host.pc t.host.pc = false := by
    unfold callsFirst
    split <;> simp_all
  have kept : callsAgain s.server.host.pc t.host.pc = false →
      (s.follow grace t).first = s.first ∧ (s.follow grace t).deadline = s.deadline := by
    intro hagain
    simp [follow, hfirst, hagain]
  rcases Server.pc_of_step hstep with
    ⟨hsame, -⟩ | htest | ⟨ok, p, b', p', rfl, hp, hp', hnext, hstop⟩
  · obtain ⟨hf, hd⟩ := kept (by rw [← hsame, hpc]; rfl)
    obtain ⟨hlater, hseen⟩ := h.again i b (hsame ▸ hpc)
    rw [hf, hd]
    exact ⟨hlater, fun r hr => (hseen r hr).imp (sessions_le hdesk (hsame ▸ hpc) rfl hstep r) id⟩
  · cases htest _ b hpc
  · obtain ⟨rfl, rfl⟩ : p' = .drainForced i ∧ b' = b := by
      rw [hp'] at hpc
      cases hpc
      exact ⟨rfl, rfl⟩
    -- the second call is made
    have opened : callsAgain s.server.host.pc t.host.pc = true → i = 0 →
        (s.follow grace t).first + 2 * grace ≤ (s.follow grace t).deadline ∧
        ∀ r : Fin (n + 1), r.val < i →
          t.sessions.sessions_ r = 0 ∨ (s.follow grace t).deadline ≤ s.now := by
      intro hagain hi
      obtain ⟨⟨k, b, hk⟩, -⟩ := exists_of_callsAgain hagain
      have hpassed := h.forcing k b hk
      have hf : (s.follow grace t).first = s.first := by simp [follow, hfirst]
      have hd : (s.follow grace t).deadline = s.now + grace := by simp [follow, hagain]
      rw [hf, hd]
      exact ⟨by omega, fun r hr => by omega⟩
    cases hnext with
    | forced => exact opened (by rw [hp, hp']; rfl) rfl
    | forceAwaited => exact opened (by rw [hp, hp']; rfl) rfl
    | @drainForced j =>
        obtain ⟨hf, hd⟩ := kept (by rw [hp]; rfl)
        obtain ⟨hlater, hseen⟩ := h.again j b' hp
        obtain ⟨hj, hok⟩ := drainForced_of_stopStep hstop hpc
        rw [hf, hd]
        refine ⟨hlater, fun r hr => ?_⟩
        rcases Nat.lt_succ_iff_lt_or_eq.mp hr with hlt | heq
        · exact (hseen r hlt).imp (sessions_le hdesk hp rfl hstep r) id
        · obtain rfl : r = ⟨j, hj⟩ := Fin.ext heq
          cases ok with
          | true => exact .inl (sessions_le hdesk hp rfl hstep _ (of_decide_eq_true hok.symm))
          | false => exact .inr (hgive ⟨rfl, by simp [inWait, hp, hj]⟩)

lemma Punctual.retired_act (h : s.Punctual grace)
    (hs : (Server.machine cfg).ReachableUnder (fun _ act => act ≠ .postFails) s.server)
    (ha : a ≠ .postFails) (hstep : (Server.machine cfg).step s.server a = some t)
    (hret : t.Retired) : (∀ r, t.sessions.sessions_ r = 0) ∨
      ((s.follow grace t).first + 2 * grace ≤ s.now ∧ ∀ r, (t.loop r).ForceOver) := by
  have hdesk := Server.desk_of_reachable hs.reachable
  have hfirst : (s.follow grace t).first = s.first := by
    cases hcalls : callsFirst s.server.host.pc t.host.pc with
    | false => simp [follow, hcalls]
    | true =>
        obtain ⟨-, i, d, b, hpc⟩ := exists_of_callsFirst hcalls
        have hclosing := hret.2
        rw [hpc] at hclosing
        cases hclosing
  have stays : ∀ r, (s.server.loop r).ForceOver → (t.loop r).ForceOver := by
    intro r hover
    rcases (Server.deed_of_step hstep).loop_move r with heq | ⟨act, hmove⟩
    · exact heq ▸ hover
    · exact hover.move hmove
  rw [hfirst]
  rcases Server.retired_of_step hdesk ha hstep hret with hbefore | ⟨i, b, hi, hpc | hpc, rfl⟩
  · rcases h.retired hbefore with hzero | ⟨hpassed, hover⟩
    · refine .inl fun r => ?_
      have hle := hdesk.sessions_le (Server.over_of_retired hs hbefore).1 hstep r
      have := hzero r
      omega
    · exact .inr ⟨hpassed, fun r => stays r (hover r)⟩
  · exact .inl fun r => Server.seen_of_reachable hs.reachable i b hpc r (by omega)
  · obtain ⟨hlater, hseen⟩ := h.again i b hpc
    by_cases hzero : ∀ r, s.server.sessions.sessions_ r = 0
    · exact .inl hzero
    · -- the second wait has given up on some reactor
      obtain ⟨r, hr⟩ := not_forall.mp hzero
      have hgave := (hseen r (by omega)).resolve_left hr
      exact .inr ⟨by omega, fun r =>
        stays r ((Server.pressed_of_reachable hs.reachable).after _ b r hpc rfl)⟩

end

/-! ## Whole runs -/

lemma server_of_reachable (hs : (machine cfg grace).ReachableUnder Posts s) :
    (Server.machine cfg).ReachableUnder (fun _ act => act ≠ .postFails) s.server := by
  refine hs.invariant (I := fun s : TimedServer n =>
    (Server.machine cfg).ReachableUnder (fun _ act => act ≠ .postFails) s.server) .init
    fun s act s' h hok hstep => ?_
  cases act with
  | pass ms =>
      cases hstep
      exact h
  | act a =>
      obtain ⟨-, hstep⟩ := Option.ite_none_right_eq_some.mp hstep
      obtain ⟨t, ht, rfl⟩ := Option.map_eq_some_iff.mp hstep
      exact h.step (fun ha => hok (ha ▸ rfl)) ht

lemma punctual_of_reachable (hs : (machine cfg grace).ReachableUnder Posts s) :
    s.Punctual grace := by
  refine (hs.invariant (I := fun s => (machine cfg grace).ReachableUnder Posts s ∧
    s.Punctual grace) ⟨.init, .initial⟩ fun s act s' h hok hstep =>
      ⟨h.1.step hok hstep, ?_⟩).2
  have hs := server_of_reachable h.1
  cases act with
  | pass ms =>
      cases hstep
      exact h.2.pass ms
  | act a =>
      obtain ⟨hgive, hstep⟩ := Option.ite_none_right_eq_some.mp hstep
      obtain ⟨t, ht, rfl⟩ := Option.map_eq_some_iff.mp hstep
      exact
        { waiting := h.2.waiting_act hgive ht
          forcing := h.2.forcing_act ht
          unforced := h.2.unforced_act (Server.pressed_of_reachable hs.reachable) ht
          again := h.2.again_act (Server.desk_of_reachable hs.reachable) hgive ht
          retired := h.2.retired_act hs (fun ha => hok (ha ▸ rfl)) ht }

/-- **Sessions get their grace, and a session that is left behind has had everything.**  In every
run with a clock in which no post of `stop()` throws: no `force()` is called before the grace has
passed since `stop()` had reaped the accept loops.  And when `stop()` is past its waits, or has
returned, no session is left, or the grace has passed twice, and each session that is left was asked
to stop, once, and was forced, once, if its control is still there, or it ends without its body
being called. -/
theorem stop_grants_grace (cfg : Config) (grace : ℕ)
    (hs : (machine cfg grace).ReachableUnder Posts s) :
    (∀ r c, (.force, c) ∈ (s.server.loop r).log → s.first + grace ≤ s.now) ∧
    (s.server.Retired → Server.Idle s.server ∨
      (s.first + 2 * grace ≤ s.now ∧
        ∀ c, (s.server.sessions.conn c).stage.owner.isSome = true →
          Server.EndsUncalled cfg s.server c ∨
          (s.server.sessions.conn c).requests = 1 ∧
            ((s.server.sessions.conn c).stage = .running ∨
              (s.server.sessions.conn c).stage = .ending →
              (s.server.loop (s.server.sessions.conn c).home).forces c = 1))) := by
  have hserver := server_of_reachable hs
  have hpunctual := punctual_of_reachable hs
  constructor
  · intro r c hlog
    have hforced := ((Server.pressed_of_reachable hserver.reachable).forcing r).logged c hlog
    refine (hpunctual.unforced r).resolve_left fun hun => ?_
    simp [hun.2] at hforced
  · intro hret
    obtain ⟨hover, hwalked⟩ := Server.over_of_retired hserver hret
    rcases hpunctual.retired hret with hzero | ⟨hpassed, hforced⟩
    · exact .inl (Server.idle_of_zero hserver.reachable hover hzero)
    · refine .inr ⟨hpassed, fun c hcounted => ?_⟩
      rcases Server.requested_or_uncalled hserver.reachable (hwalked _) hcounted with
        hasked | huncalled
      · exact .inr ⟨hasked, fun hst => Server.forces_eq_one hserver.reachable hst (hforced _)⟩
      · exact .inl huncalled

end

instance (s : TimedServer n) (act : Act n) : Decidable (s.Posts act) :=
  inferInstanceAs (Decidable (_ ≠ _))

/-- A session does not end, in any of the two waits. -/
def stubbornRun : List (Act 0) :=
  (List.flatten [Server.startRun, Server.listenRun, Server.startedRun, Server.admitRun,
    Server.launchRun, Server.walkRun, Server.reapRun]).map .act ++
  [.pass 5000, .act (.own false), .act (.own true), .act (.own true), .act (.loop 0 .runForce),
    .act (.loop 0 .resume), .act (.loop 0 .ret), .act (.loop 0 .resume), .act (.own true),
    .act (.own true), .pass 5000, .act (.own false), .act (.own true)]

/-- `stop()` goes on without it ten seconds later, when it was asked and forced. -/
theorem stop_grants_grace_at_stubbornRun :
    ∃ s : TimedServer 0, (machine Server.oneAtATime 5000).ReachableUnder Posts s ∧
      (s.server.Retired ∧ (s.server.sessions.conn 0).stage = .running ∧
        (s.server.sessions.conn 0).invoked = true ∧ s.server.sessions.sessions_ 0 = 1 ∧
        (s.server.loop 0).log = [(.force, 0), (.abort, 0)]) ∧
      s.first + 5000 ≤ s.now ∧ s.first + 2 * 5000 ≤ s.now ∧
      (s.server.sessions.conn 0).requests = 1 ∧
      (s.server.loop (s.server.sessions.conn 0).home).forces 0 = 1 := by
  obtain ⟨s, hs, htest⟩ := (machine Server.oneAtATime 5000).exists_reachableUnder_of_run
    (fun s act => decide (s.Posts act)) (fun _ _ => of_decide_eq_true) stubbornRun
    (fun s => decide (s.server.Retired ∧ (s.server.sessions.conn 0).stage = .running ∧
      (s.server.sessions.conn 0).invoked = true ∧ s.server.sessions.sessions_ 0 = 1 ∧
      (s.server.loop 0).log = [(.force, 0), (.abort, 0)])) (by decide +kernel)
  have hstate := of_decide_eq_true htest
  have ⟨hret, hrun, hinvoked, hone, hlog⟩ := hstate
  obtain ⟨hforced, hleft⟩ := stop_grants_grace _ _ hs
  rcases hleft hret with hidle | ⟨hpassed, hleft⟩
  · simp [hidle.sessions 0] at hone
  · rcases hleft 0 (by rw [hrun]; rfl) with huncalled | ⟨hasked, hforces⟩
    · simp [huncalled.never s.server (.here s.server)] at hinvoked
    · exact ⟨s, hs, hstate, hforced 0 0 (by simp [hlog]), hpassed, hasked, hforces (.inl hrun)⟩

end TimedServer

end ReactorRuntime
