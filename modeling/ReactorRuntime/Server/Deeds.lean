import ReactorRuntime.Server.TcpServer

/-!
# What a step of the server does to its sessions

Most actions of the server leave its loops, jobs and sessions alone.  `Deed` lists those that
do not, each with what it does to the three and nothing about the rest, and `deed_of_step` says that
there are no others.  The accounting and the shutdown results go through it.
-/

namespace ReactorRuntime

namespace Server

variable {n : ℕ}

/-- The loops, jobs and sessions are the same. -/
structure Same (s s' : Server n) : Prop where
  loop : s'.loop = s.loop
  job : s'.job = s.job
  sessions : s'.sessions = s.sessions

/-- The action of a connection that changes nothing but its ticket objects. -/
def isCarry : Conn.Act → Bool
  | .launch => true
  | .post _ => true
  | .take => true
  | .frame _ => true
  | .spawn _ => true
  | .drop => true
  | .reset => true
  | _ => false

/-- The action of the sessions is not one of a connection. -/
def isDesk : Sessions.Act n → Bool
  | .conn _ _ => false
  | _ => true

/-- The request that the owner makes for a walk. -/
def request : Kind → ReactorRuntime.Act ℕ
  | .abort => .requestAbort
  | .force => .requestForce

/-- The start of a requested walk. -/
def begin_ : Kind → ReactorRuntime.Act ℕ
  | .abort => .runAbort
  | .force => .runForce

/-- What a step does to the loops, jobs and sessions. -/
inductive Deed (cfg : Config) (s : Server n) : Act n → Server n → Prop
  | aside {act s'} (same : Same s s') : Deed cfg s act s'
  /-- The owner asks for a walk. -/
  | ask {ok s'} (r : Fin (n + 1)) (k : Kind) (l : Loop ℕ)
      (asked : (s.loop r).step (request k) = some l)
      (loop : s'.loop = Function.update s.loop r l) (job : s'.job = s.job)
      (sessions : s'.sessions = s.sessions) : Deed cfg s (.own ok) s'
  /-- An accept loop admits or launches. -/
  | desk {act s'} (a : Sessions.Act n) (isDesk : isDesk a = true)
      (sessions : s.sessions.step cfg.maximum a = some s'.sessions)
      (loop : s'.loop = s.loop) (job : s'.job = s.job) : Deed cfg s act s'
  | carry {c a s'} (isCarry : isCarry a = true)
      (sessions : s.sessions.step cfg.maximum (.conn c a) = some s'.sessions)
      (loop : s'.loop = s.loop) (job : s'.job = s.job) : Deed cfg s (.conn c a) s'
  | start {c r l s'} (home : (s.sessions.conn c).home = r) (idle : s.job r = .idle)
      (free : (s.loop r).stack = []) (track : (s.loop r).step (.track c) = some l)
      (sessions : s.sessions.step cfg.maximum (.conn c .start) = some s'.sessions)
      (loop : s'.loop = Function.update s.loop r l)
      (job : s'.job = Function.update s.job r (.starting c)) : Deed cfg s (.conn c .start) s'
  | check {c r s'} (home : (s.sessions.conn c).home = r) (starting : s.job r = .starting c)
      (free : (s.loop r).stack = [])
      (sessions : s.sessions.step cfg.maximum (.conn c .check) = some s'.sessions)
      (loop : s'.loop = s.loop)
      (job : s'.job = Function.update s.job r
        (if (s.sessions.conn c).aborted then .ending c else .idle)) :
      Deed cfg s (.conn c .check) s'
  | finish {c r s'} (home : (s.sessions.conn c).home = r) (idle : s.job r = .idle)
      (host : (s.loop r).hostTurn = true)
      (sessions : s.sessions.step cfg.maximum (.conn c .finish) = some s'.sessions)
      (loop : s'.loop = s.loop)
      (job : s'.job = Function.update s.job r (.ending c)) : Deed cfg s (.conn c .finish) s'
  | unwind {c r l s' passed} (home : (s.sessions.conn c).home = r) (ending : s.job r = .ending c)
      (when_ : passed = ((s.loop r).walked_ && !(s.loop r).awaited c .abort))
      (destroy : (s.loop r).step (.destroy c) = some l)
      (sessions : s.sessions.step cfg.maximum (.conn c (.unwind passed)) = some s'.sessions)
      (loop : s'.loop = Function.update s.loop r l) (job : s'.job = s.job) :
      Deed cfg s (.conn c (.unwind passed)) s'
  | leave {c r s'} (home : (s.sessions.conn c).home = r)
      (sessions : s.sessions.step cfg.maximum (.conn c .leave) = some s'.sessions)
      (loop : s'.loop = s.loop)
      (job : s'.job = if s.job r = .ending c then Function.update s.job r .idle else s.job) :
      Deed cfg s (.conn c .leave) s'
  /-- Loop `r` goes on, and calls no `abort()`. -/
  | turn {r a l s'} (isTurn : a = .resume ∨ a = .ret) (free : isEnding (s.job r) = false)
      (quiet : a = .resume → ∀ c, (s.loop r).nextCall ≠ some (.abort, c))
      (go : (s.loop r).step a = some l) (loop : s'.loop = Function.update s.loop r l)
      (job : s'.job = s.job) (sessions : s'.sessions = s.sessions) : Deed cfg s (.loop r a) s'
  /-- Loop `r` calls `abort()` of the control of connection `c`. -/
  | call {r c l s'} (free : isEnding (s.job r) = false)
      (calls : (s.loop r).nextCall = some (.abort, c)) (go : (s.loop r).step .resume = some l)
      (sessions : s.sessions.step cfg.maximum (.conn c .abort) = some s'.sessions)
      (loop : s'.loop = Function.update s.loop r l)
      (job : s'.job = s.job) : Deed cfg s (.loop r .resume) s'
  /-- A requested walk begins. -/
  | walk {r s'} (k : Kind) (l : Loop ℕ) (idle : s.job r = .idle)
      (go : (s.loop r).step (begin_ k) = some l)
      (loop : s'.loop = Function.update s.loop r l) (job : s'.job = s.job)
      (sessions : s'.sessions = s.sessions) : Deed cfg s (.loop r (begin_ k)) s'

/-! ## Every step is one of them -/

lemma same_goto (s : Server n) (pc : OwnerPc) : Same s (s.goto pc) := ⟨rfl, rfl, rfl⟩

/-- A round of a loop of the owner is its body, or the end of the loop. -/
lemma each_cases {s s' : Server n} {i bound : ℕ} {body : Fin (n + 1) → Option (Server n)}
    {after : OwnerPc} (h : s.each i bound body after = some s') :
    (∃ hi : i < n + 1, i < bound ∧ body ⟨i, hi⟩ = some s') ∨
      (¬(i < n + 1 ∧ i < bound) ∧ s' = s.goto after) := by
  unfold each at h
  split at h
  · next hi => exact .inl ⟨hi.1, hi.2, h⟩
  · next hi =>
      cases h
      exact .inr ⟨hi, rfl⟩

lemma same_of_acceptAct {cfg : Config} {s s' : Server n} {i : Fin (n + 1)} {act : Accept.Act}
    (h : s.acceptAct cfg i act = some s') : Same s s' := by
  obtain ⟨a, -, h⟩ := Option.bind_eq_some_iff.mp h
  obtain ⟨a', -, rfl⟩ := Option.map_eq_some_iff.mp h
  exact ⟨rfl, rfl, rfl⟩

lemma same_of_waitListening {s s' : Server n} {i : Fin (n + 1)} {next : Accept → OwnerPc}
    (h : s.waitListening i next = some s') : Same s s' := by
  obtain ⟨a, -, h⟩ := Option.bind_eq_some_iff.mp h
  split at h
  · cases h; exact same_goto ..
  · split at h
    · cases h; exact same_goto ..
    · cases h

lemma same_of_drainOne {s s' : Server n} {r : Fin (n + 1)} {ok : Bool} {next : Bool → OwnerPc}
    (h : s.drainOne r ok next = some s') : Same s s' := by
  obtain ⟨-, h⟩ := Option.ite_none_right_eq_some.mp h
  cases h
  exact same_goto ..

/-- `start()` leaves the loops, jobs and sessions alone. -/
lemma same_of_startStep {cfg : Config} {s s' : Server n} {ok : Bool} {pc : OwnerPc}
    (h : s.startStep cfg ok pc = some s') : Same s s' := by
  cases pc with
  | guard i =>
      simp only [startStep] at h
      rcases each_cases h with ⟨hi, -, h⟩ | ⟨-, rfl⟩
      · split at h <;> cases h <;> exact ⟨rfl, rfl, rfl⟩
      · exact same_goto ..
  | claim i =>
      simp only [startStep] at h
      rcases each_cases h with ⟨hi, -, h⟩ | ⟨-, rfl⟩
      · cases h; exact ⟨rfl, rfl, rfl⟩
      · exact same_goto ..
  | thread i =>
      simp only [startStep] at h
      rcases each_cases h with ⟨hi, -, h⟩ | ⟨-, rfl⟩
      · split at h <;> cases h <;> exact ⟨rfl, rfl, rfl⟩
      · exact same_goto ..
  | control i port =>
      simp only [startStep] at h
      rcases each_cases h with ⟨hi, -, h⟩ | ⟨-, rfl⟩
      · split at h <;> cases h <;> exact ⟨rfl, rfl, rfl⟩
      · exact same_goto ..
  | spawn i port =>
      simp only [startStep] at h
      rcases each_cases h with ⟨hi, -, h⟩ | ⟨-, rfl⟩
      · cases h; exact ⟨rfl, rfl, rfl⟩
      · exact same_goto ..
  | firstPort i port =>
      simp only [startStep] at h
      split at h
      · exact same_of_waitListening h
      · cases h; exact same_goto ..
  | listening i =>
      simp only [startStep] at h
      rcases each_cases h with ⟨hi, -, h⟩ | ⟨-, rfl⟩
      · exact same_of_waitListening h
      · exact same_goto ..
  | setPort =>
      obtain ⟨front, -, rfl⟩ := Option.map_eq_some_iff.mp h
      exact ⟨rfl, rfl, rfl⟩
  | flag i =>
      simp only [startStep] at h
      rcases each_cases h with ⟨hi, -, h⟩ | ⟨-, rfl⟩
      · obtain ⟨t, ht, rfl⟩ := Option.map_eq_some_iff.mp h
        exact ⟨(same_of_acceptAct ht).loop, (same_of_acceptAct ht).job,
          (same_of_acceptAct ht).sessions⟩
      · exact same_goto ..
  | poll i =>
      simp only [startStep] at h
      rcases each_cases h with ⟨hi, -, h⟩ | ⟨-, rfl⟩
      · cases h; exact same_goto ..
      · exact same_goto ..
  | done how => cases h
  | stop pc inStart => cases h

lemma Same.goto {s s' : Server n} (h : Same s s') (pc : OwnerPc) : Same s (s'.goto pc) :=
  ⟨h.loop, h.job, h.sessions⟩

lemma deed_of_request {cfg : Config} {s s' : Server n} {ok : Bool} {r : Fin (n + 1)} (k : Kind)
    {pc : OwnerPc} (h : (s.loopAct r (request k)).map (goto pc) = some s') :
    Deed cfg s (.own ok) s' := by
  obtain ⟨t, ht, rfl⟩ := Option.map_eq_some_iff.mp h
  obtain ⟨l, hl, rfl⟩ := Option.map_eq_some_iff.mp ht
  exact .ask r k l hl rfl rfl rfl

/-- `stop()` asks for walks, and otherwise leaves the loops, jobs and sessions alone. -/
lemma deed_of_stopStep {cfg : Config} {s s' : Server n} {ok inStart : Bool} {pc : StopPc}
    (h : s.stopStep cfg ok inStart pc = some s') : Deed cfg s (.own ok) s' := by
  cases pc with
  | test =>
      simp only [stopStep] at h
      split at h <;> cases h <;> exact .aside ⟨rfl, rfl, rfl⟩
  | abort i =>
      simp only [stopStep] at h
      rcases each_cases h with ⟨hi, -, h⟩ | ⟨-, rfl⟩
      · exact deed_of_request .abort h
      · exact .aside (same_goto ..)
  | force i =>
      simp only [stopStep] at h
      rcases each_cases h with ⟨hi, -, h⟩ | ⟨-, rfl⟩
      · exact deed_of_request .force h
      · exact .aside (same_goto ..)
  | awaitAbort i | awaitForce i | reap i | join i =>
      simp only [stopStep] at h
      rcases each_cases h with ⟨hi, -, h⟩ | ⟨-, rfl⟩
      · obtain ⟨-, h⟩ := Option.ite_none_right_eq_some.mp h
        cases h
        exact .aside ⟨rfl, rfl, rfl⟩
      · exact .aside (same_goto ..)
  | store i | post i =>
      simp only [stopStep] at h
      rcases each_cases h with ⟨hi, -, h⟩ | ⟨-, rfl⟩
      · obtain ⟨t, ht, rfl⟩ := Option.map_eq_some_iff.mp h
        exact .aside ((same_of_acceptAct ht).goto _)
      · exact .aside (same_goto ..)
  | drain i drained =>
      simp only [stopStep] at h
      rcases each_cases h with ⟨hi, -, h⟩ | ⟨-, rfl⟩
      · exact .aside (same_of_drainOne h)
      · exact .aside (same_goto ..)
  | drainForced i =>
      simp only [stopStep] at h
      rcases each_cases h with ⟨hi, -, h⟩ | ⟨-, rfl⟩
      · exact .aside (same_of_drainOne h)
      · exact .aside (same_goto ..)
  | clearGuards => cases h; exact .aside ⟨rfl, rfl, rfl⟩
  | halt i =>
      simp only [stopStep] at h
      rcases each_cases h with ⟨hi, -, h⟩ | ⟨-, rfl⟩
      · cases h; exact .aside (same_goto ..)
      · exact .aside (same_goto ..)
  | clear => cases h; exact .aside ⟨rfl, rfl, rfl⟩

lemma same_of_acceptStep {cfg : Config} {s s' : Server n} {i : Fin (n + 1)} {act : Accept.Act}
    (h : s.acceptStep cfg i act = some s') : Same s s' := by
  cases act with
  | store => cases h
  | post => cases h
  | complete error => exact same_of_acceptAct h
  | expire => exact same_of_acceptAct h
  | stopOnOwner => exact same_of_acceptAct (Option.ite_none_right_eq_some.mp h).2
  | dispatch => exact same_of_acceptAct (Option.ite_none_right_eq_some.mp h).2
  | run o =>
      obtain ⟨-, h⟩ := Option.ite_none_right_eq_some.mp h
      obtain ⟨t, ht, rfl⟩ := Option.map_eq_some_iff.mp h
      have hsame := same_of_acceptAct ht
      split
      · unfold chooseTarget
        split <;> exact ⟨hsame.loop, hsame.job, hsame.sessions⟩
      · exact hsame

lemma deed_of_admitStep {cfg : Config} {s s' : Server n} {i : Fin (n + 1)} {pc : AcceptPc}
    {o : Accept.Outcome} {a : Sessions.Act n} {act : Act n} (ha : isDesk a = true)
    (h : s.admitStep cfg i pc o a = some s') : Deed cfg s act s' := by
  obtain ⟨-, h⟩ := Option.ite_none_right_eq_some.mp h
  obtain ⟨t, ht, h⟩ := Option.bind_eq_some_iff.mp h
  have hsame := same_of_acceptAct ht
  obtain ⟨u, hu, rfl⟩ := Option.map_eq_some_iff.mp h
  exact .desk a ha (hsame.sessions ▸ hu) hsame.loop hsame.job

/-- A session's action that asks nothing of its loop. -/
lemma deed_of_carry {cfg : Config} {s s' : Server n} {c : ℕ} {a : Conn.Act}
    (ha : isCarry a = true) (h : s.sessionAct cfg (.conn c a) = some s') :
    Deed cfg s (.conn c a) s' := by
  obtain ⟨t, ht, rfl⟩ := Option.map_eq_some_iff.mp h
  exact .carry ha ht rfl rfl

lemma deed_of_connStep {cfg : Config} {s s' : Server n} {c : ℕ} {a : Conn.Act}
    (h : s.connStep cfg c a = some s') : Deed cfg s (.conn c a) s' := by
  cases a with
  | launch => exact deed_of_carry rfl h
  | post ok => exact deed_of_carry rfl h
  | frame ok => exact deed_of_carry rfl h
  | spawn ok => exact deed_of_carry rfl h
  | drop => exact deed_of_carry rfl h
  | reset => exact deed_of_carry rfl h
  | abort => cases h
  | take => exact deed_of_carry rfl (Option.ite_none_right_eq_some.mp h).2
  | start =>
      obtain ⟨⟨-, idle, free⟩, h⟩ := Option.ite_none_right_eq_some.mp h
      obtain ⟨t, ht, rfl⟩ := Option.map_eq_some_iff.mp h
      obtain ⟨u, hu, ht⟩ := Option.bind_eq_some_iff.mp ht
      obtain ⟨l, hl, rfl⟩ := Option.map_eq_some_iff.mp hu
      obtain ⟨v, hv, rfl⟩ := Option.map_eq_some_iff.mp ht
      exact .start rfl idle free hl hv rfl rfl
  | check =>
      obtain ⟨⟨starting, free⟩, h⟩ := Option.ite_none_right_eq_some.mp h
      obtain ⟨t, ht, rfl⟩ := Option.map_eq_some_iff.mp h
      obtain ⟨v, hv, rfl⟩ := Option.map_eq_some_iff.mp ht
      exact .check rfl starting free hv rfl rfl
  | finish =>
      obtain ⟨⟨idle, host⟩, h⟩ := Option.ite_none_right_eq_some.mp h
      obtain ⟨t, ht, rfl⟩ := Option.map_eq_some_iff.mp h
      obtain ⟨v, hv, rfl⟩ := Option.map_eq_some_iff.mp ht
      exact .finish rfl idle host hv rfl rfl
  | unwind passed =>
      obtain ⟨⟨ending, when_⟩, h⟩ := Option.ite_none_right_eq_some.mp h
      obtain ⟨u, hu, ht⟩ := Option.bind_eq_some_iff.mp h
      obtain ⟨l, hl, rfl⟩ := Option.map_eq_some_iff.mp hu
      obtain ⟨v, hv, rfl⟩ := Option.map_eq_some_iff.mp ht
      exact .unwind rfl ending when_ hl hv rfl rfl
  | leave =>
      obtain ⟨t, ht, rfl⟩ := Option.map_eq_some_iff.mp h
      obtain ⟨v, hv, rfl⟩ := Option.map_eq_some_iff.mp ht
      refine .leave (r := (s.sessions.conn c).home) rfl ?_ ?_ ?_ <;> split <;>
        first | exact hv | rfl

lemma deed_of_loopStep {cfg : Config} {s s' : Server n} {r : Fin (n + 1)}
    {a : ReactorRuntime.Act ℕ} (h : s.loopStep cfg r a = some s') : Deed cfg s (.loop r a) s' := by
  cases a with
  | resume =>
      obtain ⟨free, h⟩ := Option.ite_none_left_eq_some.mp h
      unfold resumeStep at h
      split at h
      · next c calls =>
          obtain ⟨u, hu, ht⟩ := Option.bind_eq_some_iff.mp h
          obtain ⟨l, hl, rfl⟩ := Option.map_eq_some_iff.mp hu
          obtain ⟨v, hv, rfl⟩ := Option.map_eq_some_iff.mp ht
          exact .call (by simpa using free) calls hl hv rfl rfl
      · next quiet =>
          obtain ⟨l, hl, rfl⟩ := Option.map_eq_some_iff.mp h
          exact .turn (.inl rfl) (by simpa using free) (fun _ c hc => quiet c hc) hl rfl rfl rfl
  | ret =>
      obtain ⟨free, h⟩ := Option.ite_none_left_eq_some.mp h
      obtain ⟨l, hl, rfl⟩ := Option.map_eq_some_iff.mp h
      exact .turn (.inr rfl) (by simpa using free) (by simp) hl rfl rfl rfl
  | runAbort =>
      obtain ⟨idle, h⟩ := Option.ite_none_right_eq_some.mp h
      obtain ⟨l, hl, rfl⟩ := Option.map_eq_some_iff.mp h
      exact .walk .abort l idle hl rfl rfl rfl
  | runForce =>
      obtain ⟨idle, h⟩ := Option.ite_none_right_eq_some.mp h
      obtain ⟨l, hl, rfl⟩ := Option.map_eq_some_iff.mp h
      exact .walk .force l idle hl rfl rfl rfl
  | _ => cases h

/-- **Every step of the server is a deed.** -/
theorem deed_of_step {cfg : Config} {s s' : Server n} {act : Act n}
    (h : (machine cfg).step s act = some s') : Deed cfg s act s' := by
  cases act with
  | callStart port =>
      obtain ⟨-, h⟩ := Option.ite_none_right_eq_some.mp h
      cases h
      unfold callStart
      split <;> exact .aside ⟨rfl, rfl, rfl⟩
  | callStop =>
      obtain ⟨-, h⟩ := Option.ite_none_right_eq_some.mp h
      cases h
      exact .aside (same_goto ..)
  | own ok =>
      replace h : s.ownStep cfg ok = some s' := h
      unfold ownStep at h
      split at h
      · cases h
      · exact deed_of_stopStep h
      · exact .aside (same_of_startStep h)
  | postFails =>
      simp only [machine, Server.step] at h
      split at h
      · obtain ⟨-, h⟩ := Option.ite_none_right_eq_some.mp h
        cases h
        exact .aside (same_goto ..)
      · cases h
  | leave r =>
      obtain ⟨-, h⟩ := Option.ite_none_right_eq_some.mp h
      cases h
      exact .aside ⟨rfl, rfl, rfl⟩
  | accept i act => exact .aside (same_of_acceptStep h)
  | enter i => exact deed_of_admitStep rfl h
  | refuse i => exact deed_of_admitStep rfl h
  | mint i =>
      obtain ⟨-, h⟩ := Option.ite_none_right_eq_some.mp h
      obtain ⟨t, ht, rfl⟩ := Option.map_eq_some_iff.mp h
      exact .desk _ rfl ht rfl rfl
  | launched i => exact deed_of_admitStep rfl h
  | failed i badAlloc => exact deed_of_admitStep rfl h
  | conn c a => exact deed_of_connStep h
  | loop r a => exact deed_of_loopStep h

/-- The sessions take at most one step of their own. -/
lemma Deed.sessions_step {cfg : Config} {s s' : Server n} {act : Act n} (h : Deed cfg s act s') :
    s'.sessions = s.sessions ∨ ∃ a, s.sessions.step cfg.maximum a = some s'.sessions := by
  cases h with
  | aside same => exact .inl same.sessions
  | ask _ _ _ _ _ _ sessions => exact .inl sessions
  | turn _ _ _ _ _ _ sessions => exact .inl sessions
  | walk _ _ _ _ _ _ sessions => exact .inl sessions
  | desk a _ sessions => exact .inr ⟨a, sessions⟩
  | carry _ sessions => exact .inr ⟨_, sessions⟩
  | start _ _ _ _ sessions => exact .inr ⟨_, sessions⟩
  | check _ _ _ sessions => exact .inr ⟨_, sessions⟩
  | finish _ _ _ sessions => exact .inr ⟨_, sessions⟩
  | unwind _ _ _ _ sessions => exact .inr ⟨_, sessions⟩
  | leave _ sessions => exact .inr ⟨_, sessions⟩
  | call _ _ _ sessions => exact .inr ⟨_, sessions⟩

/-- Each loop takes at most one step of its own. -/
lemma Deed.loop_move {cfg : Config} {s s' : Server n} {act : Act n} (h : Deed cfg s act s')
    (r : Fin (n + 1)) : s'.loop r = s.loop r ∨ ∃ a, Loop.Move (s.loop r) a (s'.loop r) := by
  have local_ : ∀ {r' : Fin (n + 1)} {a : ReactorRuntime.Act ℕ} {l : Loop ℕ},
      (s.loop r').step a = some l → s'.loop = Function.update s.loop r' l →
      s'.loop r = s.loop r ∨ ∃ a, Loop.Move (s.loop r) a (s'.loop r) := by
    intro r' a l hl hloop
    by_cases hr : r = r'
    · subst hr
      exact .inr ⟨a, by simpa [hloop] using Loop.move_of_step hl⟩
    · exact .inl (by simp [hloop, hr])
  cases h with
  | aside same => exact .inl (by rw [same.loop])
  | ask _ _ _ asked loop => exact local_ asked loop
  | desk _ _ _ loop => exact .inl (by rw [loop])
  | carry _ _ loop => exact .inl (by rw [loop])
  | start _ _ _ track _ loop => exact local_ track loop
  | check _ _ _ _ loop => exact .inl (by rw [loop])
  | finish _ _ _ _ loop => exact .inl (by rw [loop])
  | unwind _ _ _ destroy _ loop => exact local_ destroy loop
  | leave _ _ loop => exact .inl (by rw [loop])
  | turn _ _ _ go loop => exact local_ go loop
  | call _ _ go _ loop => exact local_ go loop
  | walk _ _ _ go loop => exact local_ go loop

/-! ## What is not the owner's -/

/-- The action is the owner's, or a loop thread's. -/
def isHost : Act n → Bool
  | .callStart _ => true
  | .callStop => true
  | .own _ => true
  | .postFails => true
  | .leave _ => true
  | _ => false

/-- The owner and its fields are left alone, and each control takes at most one step of its own. -/
structure Beside (cfg : Config) (s s' : Server n) : Prop where
  host : s'.host = s.host
  control : ∀ i, s'.control i = s.control i ∨ ∃ a act a', s.control i = some a ∧
    a.step (cfg.listener (s.host.portOf i)) act = some a' ∧ s'.control i = some a'

section

variable {cfg : Config} {s s' t : Server n}

lemma Beside.of_eq (hhost : s'.host = s.host) (hcontrol : s'.control = s.control) :
    Beside cfg s s' := ⟨hhost, fun i => .inl (by rw [hcontrol])⟩

lemma Beside.congr (h : Beside cfg s t) (hhost : s'.host = t.host)
    (hcontrol : s'.control = t.control) : Beside cfg s s' := by
  refine ⟨hhost.trans h.host, ?_⟩
  rw [hcontrol]
  exact h.control

lemma beside_of_acceptAct {i : Fin (n + 1)} {act : Accept.Act}
    (h : s.acceptAct cfg i act = some s') : Beside cfg s s' := by
  obtain ⟨a, ha, h⟩ := Option.bind_eq_some_iff.mp h
  obtain ⟨a', ha', rfl⟩ := Option.map_eq_some_iff.mp h
  refine ⟨rfl, fun i' => ?_⟩
  by_cases hi : i' = i
  · subst hi
    exact .inr ⟨a, act, a', ha, ha', by simp⟩
  · exact .inl (by simp [hi])

lemma beside_of_admitStep {i : Fin (n + 1)} {pc : AcceptPc} {o : Accept.Outcome}
    {a : Sessions.Act n} (h : s.admitStep cfg i pc o a = some s') : Beside cfg s s' := by
  obtain ⟨-, h⟩ := Option.ite_none_right_eq_some.mp h
  obtain ⟨t, ht, h⟩ := Option.bind_eq_some_iff.mp h
  obtain ⟨u, -, rfl⟩ := Option.map_eq_some_iff.mp h
  exact (beside_of_acceptAct ht).congr rfl rfl

lemma beside_of_acceptStep {i : Fin (n + 1)} {act : Accept.Act}
    (h : s.acceptStep cfg i act = some s') : Beside cfg s s' := by
  cases act with
  | store => cases h
  | post => cases h
  | complete error => exact beside_of_acceptAct h
  | expire => exact beside_of_acceptAct h
  | stopOnOwner => exact beside_of_acceptAct (Option.ite_none_right_eq_some.mp h).2
  | dispatch => exact beside_of_acceptAct (Option.ite_none_right_eq_some.mp h).2
  | run o =>
      obtain ⟨-, h⟩ := Option.ite_none_right_eq_some.mp h
      obtain ⟨t, ht, rfl⟩ := Option.map_eq_some_iff.mp h
      refine (beside_of_acceptAct ht).congr ?_ ?_ <;> split <;> try rfl
      all_goals
        unfold chooseTarget
        split <;> rfl

/-- A connection or a loop takes a step: the owner and the controls are left alone, and so are the
sessions but for one connection. -/
structure Inward (cfg : Config) (s s' : Server n) : Prop where
  host : s'.host = s.host
  control : s'.control = s.control
  sessions : s'.sessions = s.sessions ∨
    ∃ c a, s.sessions.step cfg.maximum (.conn c a) = some s'.sessions

lemma inward_of_loopAct {r : Fin (n + 1)} {act : ReactorRuntime.Act ℕ}
    (h : s.loopAct r act = some s') : Inward cfg s s' := by
  obtain ⟨l, -, rfl⟩ := Option.map_eq_some_iff.mp h
  exact ⟨rfl, rfl, .inl rfl⟩

lemma inward_of_sessionAct {c : ℕ} {a : Conn.Act} (h : s.sessionAct cfg (.conn c a) = some s') :
    Inward cfg s s' := by
  obtain ⟨u, hu, rfl⟩ := Option.map_eq_some_iff.mp h
  exact ⟨rfl, rfl, .inr ⟨c, a, hu⟩⟩

/-- A connection takes a step after its loop did. -/
lemma inward_of_both {r : Fin (n + 1)} {act : ReactorRuntime.Act ℕ} {c : ℕ} {a : Conn.Act}
    (ht : s.loopAct r act = some t) (h : t.sessionAct cfg (.conn c a) = some s') :
    Inward cfg s s' := by
  obtain ⟨l, -, rfl⟩ := Option.map_eq_some_iff.mp ht
  obtain ⟨u, hu, rfl⟩ := Option.map_eq_some_iff.mp h
  exact ⟨rfl, rfl, .inr ⟨c, a, hu⟩⟩

lemma Inward.setJob (h : Inward cfg s t) (r : Fin (n + 1)) (j : Job) :
    Inward cfg s (t.setJob r j) := ⟨h.host, h.control, h.sessions⟩

lemma inward_of_connStep {c : ℕ} {a : Conn.Act} (h : s.connStep cfg c a = some s') :
    Inward cfg s s' := by
  cases a with
  | start =>
      obtain ⟨-, h⟩ := Option.ite_none_right_eq_some.mp h
      obtain ⟨t, ht, rfl⟩ := Option.map_eq_some_iff.mp h
      obtain ⟨u, hu, ht⟩ := Option.bind_eq_some_iff.mp ht
      exact (inward_of_both hu ht).setJob ..
  | check | finish =>
      obtain ⟨-, h⟩ := Option.ite_none_right_eq_some.mp h
      obtain ⟨t, ht, rfl⟩ := Option.map_eq_some_iff.mp h
      exact (inward_of_sessionAct ht).setJob ..
  | unwind passed =>
      obtain ⟨-, h⟩ := Option.ite_none_right_eq_some.mp h
      obtain ⟨u, hu, ht⟩ := Option.bind_eq_some_iff.mp h
      exact inward_of_both hu ht
  | leave =>
      obtain ⟨t, ht, rfl⟩ := Option.map_eq_some_iff.mp h
      split
      · exact (inward_of_sessionAct ht).setJob ..
      · exact inward_of_sessionAct ht
  | take => exact inward_of_sessionAct (Option.ite_none_right_eq_some.mp h).2
  | abort => cases h
  | _ => exact inward_of_sessionAct h

lemma inward_of_loopStep {r : Fin (n + 1)} {a : ReactorRuntime.Act ℕ}
    (h : s.loopStep cfg r a = some s') : Inward cfg s s' := by
  cases a with
  | resume =>
      obtain ⟨-, h⟩ := Option.ite_none_left_eq_some.mp h
      unfold resumeStep at h
      split at h
      · obtain ⟨u, hu, ht⟩ := Option.bind_eq_some_iff.mp h
        exact inward_of_both hu ht
      · exact inward_of_loopAct h
  | ret => exact inward_of_loopAct (Option.ite_none_left_eq_some.mp h).2
  | runAbort => exact inward_of_loopAct (Option.ite_none_right_eq_some.mp h).2
  | runForce => exact inward_of_loopAct (Option.ite_none_right_eq_some.mp h).2
  | _ => cases h

lemma Inward.beside (h : Inward cfg s s') : Beside cfg s s' := .of_eq h.host h.control

/-- What is not the owner's leaves the owner alone. -/
theorem beside_of_step {act : Act n} (hact : isHost act = false)
    (h : (machine cfg).step s act = some s') : Beside cfg s s' := by
  cases act with
  | accept i act => exact beside_of_acceptStep h
  | enter i => exact beside_of_admitStep h
  | refuse i => exact beside_of_admitStep h
  | mint i =>
      obtain ⟨-, h⟩ := Option.ite_none_right_eq_some.mp h
      obtain ⟨u, -, rfl⟩ := Option.map_eq_some_iff.mp h
      exact .of_eq rfl rfl
  | launched i => exact beside_of_admitStep h
  | failed i badAlloc => exact beside_of_admitStep h
  | conn c a => exact (inward_of_connStep h).beside
  | loop r a => exact (inward_of_loopStep h).beside
  | _ => cases hact

end

/-! ## Where `stop()` goes -/

/-- The statement of `stop()` that can follow another, with `n + 1` reactors. -/
inductive Next (n : ℕ) : StopPc → StopPc → Prop
  | begin_ : Next n .test (.abort 0)
  | abort {i} : Next n (.abort i) (.awaitAbort i)
  | awaitAbort {i} : Next n (.awaitAbort i) (.abort (i + 1))
  | aborted {i} : Next n (.abort i) (.store 0)
  | awaited {i} : Next n (.awaitAbort i) (.store 0)
  | store {i} : Next n (.store i) (.post i)
  | post {i} : Next n (.post i) (.store (i + 1))
  | stored {i} : Next n (.store i) (.reap 0)
  | posted {i} : Next n (.post i) (.reap 0)
  | reap {i} : Next n (.reap i) (.reap (i + 1))
  | reaped {i} : Next n (.reap i) (.drain 0 true)
  | drain {i d d'} : Next n (.drain i d) (.drain (i + 1) d')
  | drained {i} : Next n (.drain i true) .clearGuards
  | undrained {i} : Next n (.drain i false) (.force 0)
  | force {i} : Next n (.force i) (.awaitForce i)
  | awaitForce {i} : Next n (.awaitForce i) (.force (i + 1))
  | forced {i} : Next n (.force i) (.drainForced 0)
  | forceAwaited {i} : Next n (.awaitForce i) (.drainForced 0)
  | drainForced {i} : Next n (.drainForced i) (.drainForced (i + 1))
  | forceDrained {i} : Next n (.drainForced i) .clearGuards
  | clearGuards : Next n .clearGuards (.halt 0)
  | halt {i} (more : i < n + 1) : Next n (.halt i) (.halt (i + 1))
  | halted {i} (all : n + 1 ≤ i) : Next n (.halt i) (.join 0)
  | join {i} : Next n (.join i) (.join (i + 1))
  | joined {i} : Next n (.join i) .clear

/-- `stop()` goes on to the next statement, or returns: from the last one, or from the first when it
was called before. -/
lemma next_of_stopStep {cfg : Config} {s s' : Server n} {ok b : Bool} {p : StopPc}
    (h : s.stopStep cfg ok b p = some s') :
    (∃ p', s'.host.pc = .stop p' b ∧ Next n p p') ∨
      (s'.host.pc = stopEnd b ∧
        (p = .clear ∨ p = .test ∧ s.host.stopped_ = true ∧ s' = s.goto (stopEnd b))) := by
  cases p with
  | test =>
      simp only [stopStep] at h
      split at h <;> cases h
      · next hstopped => exact .inr ⟨rfl, .inr ⟨rfl, hstopped, rfl⟩⟩
      · exact .inl ⟨_, rfl, .begin_⟩
  | abort i =>
      simp only [stopStep] at h
      rcases each_cases h with ⟨hi, -, h⟩ | ⟨-, rfl⟩
      · obtain ⟨t, -, rfl⟩ := Option.map_eq_some_iff.mp h
        exact .inl ⟨_, rfl, .abort⟩
      · exact .inl ⟨_, rfl, .aborted⟩
  | awaitAbort i =>
      simp only [stopStep] at h
      rcases each_cases h with ⟨hi, -, h⟩ | ⟨-, rfl⟩
      · obtain ⟨-, h⟩ := Option.ite_none_right_eq_some.mp h
        cases h
        exact .inl ⟨_, rfl, .awaitAbort⟩
      · exact .inl ⟨_, rfl, .awaited⟩
  | store i =>
      simp only [stopStep] at h
      rcases each_cases h with ⟨hi, -, h⟩ | ⟨-, rfl⟩
      · obtain ⟨t, -, rfl⟩ := Option.map_eq_some_iff.mp h
        exact .inl ⟨_, rfl, .store⟩
      · exact .inl ⟨_, rfl, .stored⟩
  | post i =>
      simp only [stopStep] at h
      rcases each_cases h with ⟨hi, -, h⟩ | ⟨-, rfl⟩
      · obtain ⟨t, -, rfl⟩ := Option.map_eq_some_iff.mp h
        exact .inl ⟨_, rfl, .post⟩
      · exact .inl ⟨_, rfl, .posted⟩
  | reap i =>
      simp only [stopStep] at h
      rcases each_cases h with ⟨hi, -, h⟩ | ⟨-, rfl⟩
      · obtain ⟨-, h⟩ := Option.ite_none_right_eq_some.mp h
        cases h
        exact .inl ⟨_, rfl, .reap⟩
      · exact .inl ⟨_, rfl, .reaped⟩
  | drain i d =>
      simp only [stopStep] at h
      rcases each_cases h with ⟨hi, -, h⟩ | ⟨-, rfl⟩
      · obtain ⟨-, h⟩ := Option.ite_none_right_eq_some.mp h
        cases h
        exact .inl ⟨_, rfl, .drain⟩
      · cases d with
        | true => exact .inl ⟨_, rfl, .drained⟩
        | false => exact .inl ⟨_, rfl, .undrained⟩
  | force i =>
      simp only [stopStep] at h
      rcases each_cases h with ⟨hi, -, h⟩ | ⟨-, rfl⟩
      · obtain ⟨t, -, rfl⟩ := Option.map_eq_some_iff.mp h
        exact .inl ⟨_, rfl, .force⟩
      · exact .inl ⟨_, rfl, .forced⟩
  | awaitForce i =>
      simp only [stopStep] at h
      rcases each_cases h with ⟨hi, -, h⟩ | ⟨-, rfl⟩
      · obtain ⟨-, h⟩ := Option.ite_none_right_eq_some.mp h
        cases h
        exact .inl ⟨_, rfl, .awaitForce⟩
      · exact .inl ⟨_, rfl, .forceAwaited⟩
  | drainForced i =>
      simp only [stopStep] at h
      rcases each_cases h with ⟨hi, -, h⟩ | ⟨-, rfl⟩
      · obtain ⟨-, h⟩ := Option.ite_none_right_eq_some.mp h
        cases h
        exact .inl ⟨_, rfl, .drainForced⟩
      · exact .inl ⟨_, rfl, .forceDrained⟩
  | clearGuards =>
      cases h
      exact .inl ⟨_, rfl, .clearGuards⟩
  | halt i =>
      simp only [stopStep] at h
      rcases each_cases h with ⟨hi, -, h⟩ | ⟨hend, rfl⟩
      · cases h
        exact .inl ⟨_, rfl, .halt hi⟩
      · exact .inl ⟨_, rfl, .halted (by omega)⟩
  | join i =>
      simp only [stopStep] at h
      rcases each_cases h with ⟨hi, -, h⟩ | ⟨-, rfl⟩
      · obtain ⟨-, h⟩ := Option.ite_none_right_eq_some.mp h
        cases h
        exact .inl ⟨_, rfl, .join⟩
      · exact .inl ⟨_, rfl, .joined⟩
  | clear =>
      cases h
      exact .inr ⟨rfl, .inl rfl⟩

/-! ## What the owner does to the controls -/

/-- The control of an accept loop that `start()` has just spawned, or failed to spawn. -/
def spawned (ok : Bool) : Accept := if ok then Accept.initial else Accept.initial.finish none

/-- What a statement of the owner does to a control: nothing, or it stores or posts, or it is the
spawn that makes it. -/
inductive Handled (cfg : Config) (h : Host n) (i : Fin (n + 1)) :
    Option Accept → Option Accept → Prop
  | same {c} : Handled cfg h i c c
  | told {a a' act} (isTold : act = .store ∨ act = .post)
      (step : a.step (cfg.listener (h.portOf i)) act = some a') :
      Handled cfg h i (some a) (some a')
  | made {c} (ok : Bool) (port : ℕ) (pc : h.pc = .spawn i.val port) :
      Handled cfg h i c (some (spawned ok))

/-- What a statement of the owner does to the flags and the controls; the sessions it leaves
alone. -/
structure Upkeep (cfg : Config) (s s' : Server n) : Prop where
  sessions : s'.sessions = s.sessions
  started : s'.host.started_ = s.host.started_
  /-- The first statement of `stop()` sets the flag, and no other changes it. -/
  stopped : s'.host.stopped_ = s.host.stopped_ ∨
    s'.host.stopped_ = true ∧ ∃ b, s.host.pc = .stop .test b
  control : ∀ i, Handled cfg s.host i (s.control i) (s'.control i)

namespace Upkeep

variable {cfg : Config} {s s' t : Server n}

lemma of_eq (hsessions : s'.sessions = s.sessions)
    (hstarted : s'.host.started_ = s.host.started_)
    (hstopped : s'.host.stopped_ = s.host.stopped_)
    (hcontrol : s'.control = s.control) : Upkeep cfg s s' :=
  ⟨hsessions, hstarted, .inl hstopped, fun _ => hcontrol ▸ .same⟩

lemma goto (h : Upkeep cfg s t) (pc : OwnerPc) : Upkeep cfg s (t.goto pc) :=
  ⟨h.sessions, h.started, h.stopped, h.control⟩

lemma of_goto (pc : OwnerPc) : Upkeep cfg s (s.goto pc) := of_eq rfl rfl rfl rfl

/-- A round of a loop of the owner. -/
lemma of_each {i bound : ℕ} {body : Fin (n + 1) → Option (Server n)} {after : OwnerPc}
    (h : s.each i bound body after = some s')
    (hbody : ∀ (hi : i < n + 1) t, body ⟨i, hi⟩ = some t → Upkeep cfg s t) : Upkeep cfg s s' := by
  rcases each_cases h with ⟨hi, -, h⟩ | ⟨-, rfl⟩
  · exact hbody hi _ h
  · exact of_goto after

lemma of_map {x : Option (Server n)} {pc : OwnerPc} (hx : ∀ t, x = some t → Upkeep cfg s t) :
    ∀ t, x.map (Server.goto pc) = some t → Upkeep cfg s t := by
  intro t ht
  obtain ⟨u, hu, rfl⟩ := Option.map_eq_some_iff.mp ht
  exact (hx u hu).goto pc

lemma of_acceptAct {i : Fin (n + 1)} {act : Accept.Act} (hact : act = .store ∨ act = .post) :
    ∀ t, s.acceptAct cfg i act = some t → Upkeep cfg s t := by
  intro t ht
  obtain ⟨a, ha, ht⟩ := Option.bind_eq_some_iff.mp ht
  obtain ⟨a', hstep, rfl⟩ := Option.map_eq_some_iff.mp ht
  refine ⟨rfl, rfl, .inl rfl, fun j => ?_⟩
  by_cases hj : j = i
  · subst hj
    rw [ha]
    simpa using .told hact hstep
  · simpa [hj] using .same

lemma of_loopAct {r : Fin (n + 1)} {act : ReactorRuntime.Act ℕ} :
    ∀ t, s.loopAct r act = some t → Upkeep cfg s t := by
  intro t ht
  obtain ⟨l, -, rfl⟩ := Option.map_eq_some_iff.mp ht
  exact of_eq rfl rfl rfl rfl

lemma of_waitListening {i : Fin (n + 1)} {next : Accept → OwnerPc} :
    ∀ t, s.waitListening i next = some t → Upkeep cfg s t := by
  intro t ht
  obtain ⟨a, -, ht⟩ := Option.bind_eq_some_iff.mp ht
  split at ht
  · cases ht
    exact of_goto _
  · obtain ⟨-, ht⟩ := Option.ite_none_right_eq_some.mp ht
    cases ht
    exact of_goto _

lemma of_startStep {ok : Bool} (h : s.startStep cfg ok s.host.pc = some s') :
    Upkeep cfg s s' := by
  cases hpc : s.host.pc with
  | done how => simp [hpc, startStep] at h
  | stop p b => simp [hpc, startStep] at h
  | guard i | thread i | control i port =>
      simp only [hpc, startStep] at h
      refine of_each h fun hi t ht => ?_
      split at ht <;> cases ht <;> exact of_eq rfl rfl rfl rfl
  | claim i | poll i =>
      simp only [hpc, startStep] at h
      refine of_each h fun hi t ht => ?_
      cases ht
      exact of_eq rfl rfl rfl rfl
  | spawn i port =>
      simp only [hpc, startStep] at h
      refine of_each h fun hi t ht => ?_
      cases ht
      refine ⟨rfl, rfl, .inl rfl, fun j => ?_⟩
      by_cases hj : j = ⟨i, hi⟩
      · subst hj
        simpa [Server.goto, spawned] using Handled.made ok port hpc
      · simpa [Server.goto, hj] using .same
  | firstPort i port =>
      simp only [hpc, startStep] at h
      split at h
      · exact of_waitListening s' h
      · cases h
        exact of_goto _
  | listening i =>
      simp only [hpc, startStep] at h
      exact of_each h fun hi => of_waitListening
  | setPort =>
      simp only [hpc, startStep] at h
      obtain ⟨front, -, rfl⟩ := Option.map_eq_some_iff.mp h
      exact of_eq rfl rfl rfl rfl
  | flag i =>
      simp only [hpc, startStep] at h
      exact of_each h fun hi => of_map (of_acceptAct (.inl rfl))

lemma of_stopStep {ok b : Bool} {p : StopPc} (hpc : s.host.pc = .stop p b)
    (h : s.stopStep cfg ok b p = some s') : Upkeep cfg s s' := by
  cases p with
  | test =>
      simp only [stopStep] at h
      split at h <;> cases h
      · exact of_goto _
      · exact ⟨rfl, rfl, .inr ⟨rfl, b, hpc⟩, fun _ => .same⟩
  | clearGuards | clear => cases h; exact of_eq rfl rfl rfl rfl
  | abort i | force i =>
      simp only [stopStep] at h
      exact of_each h fun hi => of_map of_loopAct
  | store i =>
      simp only [stopStep] at h
      exact of_each h fun hi => of_map (of_acceptAct (.inl rfl))
  | post i =>
      simp only [stopStep] at h
      exact of_each h fun hi => of_map (of_acceptAct (.inr rfl))
  | halt i =>
      simp only [stopStep] at h
      refine of_each h fun hi t ht => ?_
      cases ht
      exact of_goto _
  | _ =>
      simp only [stopStep] at h
      refine of_each h fun hi t ht => ?_
      obtain ⟨-, ht⟩ := Option.ite_none_right_eq_some.mp ht
      cases ht
      exact of_eq rfl rfl rfl rfl

lemma of_own {ok : Bool} (h : (machine cfg).step s (.own ok) = some s') : Upkeep cfg s s' := by
  simp only [machine, Server.step, ownStep] at h
  split at h
  · cases h
  · next hpc => exact of_stopStep hpc h
  · exact of_startStep h

end Upkeep

/-- What the owner does between its statements, and what a thread does that leaves `run()`. -/
lemma control_of_host {cfg : Config} {s s' : Server n} {act : Act n} (hact : isHost act = true)
    (hown : ∀ ok, act ≠ .own ok) (h : (machine cfg).step s act = some s') :
    s'.sessions = s.sessions ∧ s'.control = s.control ∧
      (s.host.started_ = true → s'.host.started_ = true) ∧
      (s.host.stopped_ = true → s'.host.stopped_ = true) := by
  cases act with
  | callStart port =>
      obtain ⟨-, h⟩ := Option.ite_none_right_eq_some.mp h
      cases h
      unfold callStart
      split
      · exact ⟨rfl, rfl, id, id⟩
      · exact ⟨rfl, rfl, fun _ => rfl, id⟩
  | callStop | leave r =>
      obtain ⟨-, h⟩ := Option.ite_none_right_eq_some.mp h
      cases h
      exact ⟨rfl, rfl, id, id⟩
  | own ok => exact absurd rfl (hown ok)
  | postFails =>
      simp only [machine, Server.step] at h
      split at h
      · obtain ⟨-, h⟩ := Option.ite_none_right_eq_some.mp h
        cases h
        exact ⟨rfl, rfl, id, id⟩
      · cases h
  | _ => cases hact

/-- `start()` and `stop()` were called once and for all. -/
lemma flags_stay {cfg : Config} {s s' : Server n} {act : Act n}
    (h : (machine cfg).step s act = some s') :
    (s.host.started_ = true → s'.host.started_ = true) ∧
      (s.host.stopped_ = true → s'.host.stopped_ = true) := by
  cases hhost : isHost act with
  | false =>
      rw [(beside_of_step hhost h).host]
      exact ⟨id, id⟩
  | true =>
      by_cases hown : ∃ ok, act = .own ok
      · obtain ⟨ok, rfl⟩ := hown
        have hup := Upkeep.of_own h
        refine ⟨fun hs => hup.started.trans hs, fun hs => ?_⟩
        rcases hup.stopped with heq | ⟨hset, -⟩
        · exact heq.trans hs
        · exact hset
      · exact (control_of_host hhost (not_exists.mp hown) h).2.2

end Server

end ReactorRuntime
