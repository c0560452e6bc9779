import ReactorRuntime.Server.Readiness

/-!
# No call of the owner gets stuck

`start()` waits for the listeners, and `stop()` for walks, for the accept loops and for the
threads, and none of those waits has a timeout.  From every state that can come up, in whatever
order the threads have run, each call can still return (`calls_can_return`), and what it takes
is only what the library does by itself.  No session has to end: where `stop()` waits
for sessions there is a deadline.  No connection has to arrive, no timer to expire, no accept to
complete by itself, and nothing has to fail.

The argument goes wait by wait.  A loop that is in the middle of something has a next
statement, and the number of statements before it is idle is bounded (`Server.effort`); then the
walk that was asked for begins, and the same bound ends it.  An accept loop that was told to stop
comes to its end from wherever it is, through the launch of a connection if it is in one
(`Server.toReap`).  A thread whose loop was stopped leaves `run()`.  Over the waits, each statement
of the owner brings the end of its call nearer (`OwnerPc.rank`).

Runs here are those in which a thread stays in `run()` until its loop is stopped (`Halting`).
-/

namespace ReactorRuntime

/-! ## A loop with something under way -/

namespace Loop

variable {ν : Type*} [DecidableEq ν] {s s' : Loop ν} {act : ReactorRuntime.Act ν}

@[simp] lemma unlink_forcePosted (s : Loop ν) (a : ν) :
    (s.unlink a).forcePosted = s.forcePosted := by
  unfold unlink
  cases s.now a <;> rfl

lemma weight_destroy (s : Loop ν) (a : ν) : (s.destroy a).weight ≤ s.weight := by
  show ((s.unlink a).stack.map Frame.weight).sum ≤ s.weight
  unfold unlink
  cases s.now a with
  | none => exact le_rfl
  | some e => exact weight_map_drop a s.stack

omit [DecidableEq ν] in
/-- The walk at the top of the stack stands at the head of what it has to do. -/
lemma leading_of_front (habort : AtFront .abort s) (hforce : AtFront .force s) : s.Leading := by
  intro k outer j rest node top cur
  have hlead : s.heap.cursor_ () = j.todo.head? := by
    cases k with
    | abort => exact ((habort.top top).1 rfl).1
    | force => exact ((hforce.top top).1 rfl).1
  exact List.head?_eq_some_iff.mp (cur ▸ hlead).symm

lemma posted_of_turn (hmove : Move s act s') (hact : act = .resume ∨ act = .ret) :
    s'.abortPosted = s.abortPosted ∧ s'.forcePosted = s.forcePosted := by
  cases hmove with
  | ret | walkEnd | walkFault | walkCall | lateAbort | skipAbort | lateForceFault | lateForce
  | skipForce => exact ⟨rfl, rfl⟩
  | _ => rcases hact with hact | hact <;> cases hact

end Loop

/-! ## What the library does by itself -/

/-- In a grace wait, which ends with its deadline if not before. -/
def OwnerPc.inGrace : OwnerPc → Bool
  | .stop (.drain _ _) _ => true
  | .stop (.drainForced _) _ => true
  | _ => false

/-- What a connection does by itself: nothing fails, and the body is not asked to end. -/
def Conn.Act.unaided : Conn.Act → Bool
  | .launch => true
  | .post ok => ok
  | .frame ok => ok
  | .spawn ok => ok
  | .check => true
  | .unwind _ => true
  | .reset => true
  | .leave => true
  | _ => false

/-- What an accept loop does by itself: nothing fails, and nothing arrives. -/
def Accept.Act.unaided : Accept.Act → Bool
  | .stopOnOwner => true
  | .dispatch => true
  | .run .ok => true
  | .run (.moved _) => true
  | .run (.at_ _) => true
  | _ => false

namespace Server

variable {n : ℕ} {cfg : Config} {s s' t : Server n} {r i : Fin (n + 1)}

/-- What the library does by itself, on the owner's thread and on the loops.  A deadline may
pass. -/
def Unaided (s : Server n) : Act n → Prop
  | .own ok => ok = true ∨ s.host.pc.inGrace = true
  | .leave r => s.host.pc.halted r.val = true
  | .accept _ act => act.unaided = true
  | .enter _ => True
  | .refuse _ => True
  | .mint _ => True
  | .launched _ => True
  | .failed _ _ => True
  | .conn _ act => act.unaided = true
  | .loop _ _ => True
  | _ => False

lemma Unaided.halting {act : Act n} (h : Unaided s act) : Halting s act := by
  rintro r rfl
  exact h

lemma reachable_of_unaided (hs : (machine cfg).ReachableUnder Halting s)
    (hlead : (machine cfg).LeadsUnder Unaided s t) : (machine cfg).ReachableUnder Halting t :=
  hs.leads hlead fun _ _ => Unaided.halting

/-! ## A loop becomes idle -/

/-- The number of statements that are left before loop `r` is idle. -/
def effort (s : Server n) (r : Fin (n + 1)) : ℕ :=
  (s.loop r).weight + match s.job r with
    | .idle => 0
    | .starting c => (s.sessions.conn c).rest + 1
    | .ending c => (s.sessions.conn c).rest + 1

/-- Loop `r` goes on, and nobody asks it for anything. -/
structure Within (r : Fin (n + 1)) (s t : Server n) : Prop where
  host : t.host = s.host
  control : t.control = s.control
  abortPosted : (t.loop r).abortPosted = (s.loop r).abortPosted
  forcePosted : (t.loop r).forcePosted = (s.loop r).forcePosted

lemma Within.refl (r : Fin (n + 1)) (s : Server n) : Within r s s := ⟨rfl, rfl, rfl, rfl⟩

lemma Within.trans {u : Server n} (h : Within r s t) (h' : Within r t u) : Within r s u :=
  ⟨h'.host.trans h.host, h'.control.trans h.control, h'.abortPosted.trans h.abortPosted,
    h'.forcePosted.trans h.forcePosted⟩

lemma sessions_step_of_conn (maximum : ℕ) {u : Sessions n} {c : ℕ} {a : Conn.Act} {k' : Conn n}
    (hc : c < u.born) (hstep : (u.conn c).step a = some k') :
    ∃ u', u.step maximum (.conn c a) = some u' ∧ u'.conn = Function.update u.conn c k' :=
  ⟨u.settle c a k', by simp [Sessions.step, hc, hstep], rfl⟩

lemma born_of_stage (hjoined : Joined s.loop s.job s.sessions) {c : ℕ}
    (hst : (s.sessions.conn c).stage ≠ .ended) : c < s.sessions.born := by
  by_contra hc
  exact hst (by rw [hjoined.unborn c (by omega)]; rfl)

lemma exists_turn (hs : (machine cfg).Reachable s) (hnot : isEnding (s.job r) = false)
    (hstack : (s.loop r).stack ≠ []) :
    ∃ act t, Unaided s act ∧ (machine cfg).step s act = some t ∧ Within r s t ∧
      t.effort r < s.effort r := by
  have hjoined := joined_of_reachable hs
  have hframed := framed_of_reachable hs
  obtain ⟨act, l, hact, hl⟩ := Loop.exists_turn (hframed.steady r).faultless hstack
  have hmove := Loop.move_of_step hl
  have hsteady := hframed.steady_turn hjoined hact hnot hmove
  have hlt := Loop.weight_of_turn
    (Loop.leading_of_front (hjoined.side r).front (hframed.steady r).front) hmove hact
    hsteady.faultless
  obtain ⟨habort, hforce⟩ := Loop.posted_of_turn hmove hact
  have hturn : s.loopAct r act = some { s with loop := Function.update s.loop r l } := by
    simp [loopAct, hl]
  -- whatever sessions there are afterwards, as long as they have as much left to do
  have hafter : ∀ u : Sessions n, (∀ c, (u.conn c).rest = (s.sessions.conn c).rest) →
      Within r s { s with loop := Function.update s.loop r l, sessions := u } ∧
        effort { s with loop := Function.update s.loop r l, sessions := u } r < s.effort r := by
    intro u hrest
    refine ⟨⟨rfl, rfl, by simp [habort], by simp [hforce]⟩, ?_⟩
    simp only [effort, Function.update_self, hrest]
    exact Nat.add_lt_add_right hlt _
  rcases hact with rfl | rfl
  · by_cases hcall : ∃ c, (s.loop r).nextCall = some (.abort, c)
    · obtain ⟨c, hc⟩ := hcall
      -- what is called is tracked, and so there is a connection of that number
      have htracked := (hjoined.side r).tracked_of_nextCall hc
      have hborn : c < s.sessions.born := by
        refine born_of_stage hjoined fun hst => ?_
        have hlinked := (hjoined.at_home (hjoined.homes r c htracked)).untracked
          (by simp [hst, ConnStage.controlled])
        simp [hlinked] at htracked
      obtain ⟨u, hu, hconn⟩ := sessions_step_of_conn cfg.maximum hborn
        (show (s.sessions.conn c).step .abort = some _ by simp [Conn.step]; rfl)
      refine ⟨.loop r .resume, _, trivial, ?_, hafter u fun c' => ?_⟩
      · simp [machine, Server.step, loopStep, hnot, resumeStep, hc, hturn, sessionAct, hu]
      · rw [hconn]
        by_cases heq : c' = c
        · subst heq
          rw [Function.update_self]
          rfl
        · rw [Function.update_of_ne heq]
    · have hnone : s.resumeStep cfg r = s.loopAct r .resume := by
        unfold resumeStep
        split
        · next c hc => exact absurd ⟨c, hc⟩ hcall
        · rfl
      refine ⟨.loop r .resume, _, trivial, ?_, hafter s.sessions fun _ => rfl⟩
      simp [machine, Server.step, loopStep, hnot, hnone, hturn]
  · refine ⟨.loop r .ret, _, trivial, ?_, hafter s.sessions fun _ => rfl⟩
    simp [machine, Server.step, loopStep, hnot, hturn]

lemma exists_check (hs : (machine cfg).Reachable s) {c : ℕ} (hjob : s.job r = .starting c)
    (hstack : (s.loop r).stack = []) :
    ∃ act t, Unaided s act ∧ (machine cfg).step s act = some t ∧ Within r s t ∧
      t.effort r < s.effort r := by
  have hjoined := joined_of_reachable hs
  obtain ⟨hhome, hst⟩ := hjoined.starting r c hjob
  have hborn : c < s.sessions.born := born_of_stage hjoined (by simp [hst])
  obtain ⟨k', hk'⟩ : ∃ k', (s.sessions.conn c).step .check = some k' := by
    cases haborted : (s.sessions.conn c).aborted <;> simp [Conn.step, hst, haborted]
  obtain ⟨u, hu, hconn⟩ := sessions_step_of_conn cfg.maximum hborn hk'
  have hlt := Conn.rest_step hk' (by simp)
  refine ⟨.conn c .check, setJob r (if (s.sessions.conn c).aborted then .ending c else .idle)
    { s with sessions := u }, rfl, ?_, ⟨rfl, rfl, rfl, rfl⟩, ?_⟩
  · simp [machine, Server.step, connStep, hhome, hjob, hstack, sessionAct, hu]
  · cases haborted : (s.sessions.conn c).aborted <;>
      simp [effort, setJob, hjob, hconn, hlt]

/-- A loop at the end of a frame comes nearer to the end of its ticket. -/
lemma exists_ending (hs : (machine cfg).Reachable s) {c : ℕ} (hjob : s.job r = .ending c) :
    ∃ act t, Unaided s act ∧ (machine cfg).step s act = some t ∧ Within r s t ∧
      t.effort r < s.effort r := by
  have hjoined := joined_of_reachable hs
  have hframed := framed_of_reachable hs
  obtain ⟨hhome, hborn, hfin⟩ := hframed.ending r c hjob
  cases hst : (s.sessions.conn c).stage with
  | ending =>
      -- `~SessionControl` takes the control off the list
      have htracked := ((hjoined.at_home hhome).counted (by simp [hst, ConnStage.controlled])).2.1
      have halive := (hjoined.side r).sound.alive c
        (((hjoined.side r).sound.running c).mp htracked)
      have hdestroy : (s.loop r).step (.destroy c) = some ((s.loop r).destroy c) := by
        simp [Loop.step, (hframed.steady r).faultless, halive,
          (hframed.steady r).host (by rw [hjob]; rfl)]
      let passed := (s.loop r).walked_ && !(s.loop r).awaited c .abort
      obtain ⟨k', hk'⟩ : ∃ k', (s.sessions.conn c).step (.unwind passed) = some k' := by
        simp [Conn.step, hst]
      obtain ⟨u, hu, hconn⟩ := sessions_step_of_conn cfg.maximum hborn hk'
      have hlt := Conn.rest_step hk' (by simp)
      refine ⟨.conn c (.unwind passed), { s with
        loop := Function.update s.loop r ((s.loop r).destroy c), sessions := u }, rfl, ?_, ?_, ?_⟩
      · simp [machine, Server.step, connStep, hhome, hjob, loopAct, hdestroy, sessionAct, hu,
          passed]
      · exact ⟨rfl, rfl, by simp [Loop.destroy], by simp [Loop.destroy]⟩
      · have hle := (s.loop r).weight_destroy c
        simp only [effort, Function.update_self, hjob, hconn]
        exact Nat.add_lt_add_of_le_of_lt hle (Nat.succ_lt_succ hlt)
  | dying hop =>
      obtain ⟨k', hk'⟩ : ∃ k', (s.sessions.conn c).step .reset = some k' := by
        simp [Conn.step, hst]
      obtain ⟨u, hu, hconn⟩ := sessions_step_of_conn cfg.maximum hborn hk'
      have hlt := Conn.rest_step hk' (by simp)
      refine ⟨.conn c .reset, { s with sessions := u }, rfl, ?_, ⟨rfl, rfl, rfl, rfl⟩, ?_⟩
      · simp [machine, Server.step, connStep, sessionAct, hu]
      · simp [effort, hjob, hconn, hlt]
  | leaving hop =>
      obtain ⟨k', hk'⟩ : ∃ k', (s.sessions.conn c).step .leave = some k' := by
        simp [Conn.step, hst]
      obtain ⟨u, hu, hconn⟩ := sessions_step_of_conn cfg.maximum hborn hk'
      refine ⟨.conn c .leave, setJob r .idle { s with sessions := u }, rfl, ?_,
        ⟨rfl, rfl, rfl, rfl⟩, ?_⟩
      · simp [machine, Server.step, connStep, sessionAct, hu, hhome, hjob]
      · simp [effort, setJob, hjob]
  | _ => simp [hst, ConnStage.finishing] at hfin

lemma exists_effort (hs : (machine cfg).Reachable s)
    (hbusy : ¬(s.job r = .idle ∧ (s.loop r).stack = [])) :
    ∃ act t, Unaided s act ∧ (machine cfg).step s act = some t ∧ Within r s t ∧
      t.effort r < s.effort r := by
  cases hjob : s.job r with
  | idle => exact exists_turn hs (by rw [hjob]; rfl) fun hstack => hbusy ⟨hjob, hstack⟩
  | starting c =>
      by_cases hstack : (s.loop r).stack = []
      · exact exists_check hs hjob hstack
      · exact exists_turn hs (by rw [hjob]; rfl) hstack
  | ending c => exact exists_ending hs hjob

/-- **A loop can become idle.** -/
lemma exists_idle (hs : (machine cfg).ReachableUnder Halting s) (r : Fin (n + 1)) :
    ∃ t, (machine cfg).LeadsUnder Unaided s t ∧ Within r s t ∧ t.job r = .idle ∧
      (t.loop r).stack = [] := by
  have hprogress : ∀ t : Server n, (machine cfg).ReachableUnder Halting t ∧ Within r s t →
      ¬(t.job r = .idle ∧ (t.loop r).stack = []) → ∃ u, (machine cfg).LeadsUnder Unaided t u ∧
        ((machine cfg).ReachableUnder Halting u ∧ Within r s u) ∧ u.effort r < t.effort r := by
    intro t ht hbusy
    obtain ⟨act, u, hact, hstep, hwithin, hlt⟩ := exists_effort ht.1.reachable hbusy
    exact ⟨u, .of_step hact hstep, ⟨ht.1.step hact.halting hstep, ht.2.trans hwithin⟩, hlt⟩
  obtain ⟨t, hlead, ⟨-, hwithin⟩, hidle⟩ :=
    Machine.exists_leadsUnder_of_measure (fun t : Server n => t.effort r) hprogress ⟨hs, .refl r s⟩
  exact ⟨t, hlead, hwithin, hidle⟩

/-! ## A walk that was asked for -/

/-- The number of walks of kind `k` that were asked for and have not begun. -/
def posted (s : Server n) (r : Fin (n + 1)) : Kind → ℕ
  | .abort => (s.loop r).abortPosted.toNat
  | .force => (s.loop r).forcePosted

lemma Within.posted_eq (h : Within r s t) (k : Kind) : t.posted r k = s.posted r k := by
  cases k with
  | abort => simp only [posted, h.abortPosted]
  | force => exact h.forcePosted

lemma exists_begin (hs : (machine cfg).Reachable s) (hjob : s.job r = .idle)
    (hstack : (s.loop r).stack = []) {k : Kind} (hposted : s.posted r k ≠ 0) :
    ∃ act t, Unaided s act ∧ (machine cfg).step s act = some t ∧ t.host = s.host ∧
      t.control = s.control ∧ t.posted r k < s.posted r k := by
  have hfault := ((framed_of_reachable hs).steady r).faultless
  -- a walk that begins is one that is no longer asked for
  have hbegin : ∃ l, (s.loop r).step (begin_ k) = some l ∧
      posted { s with loop := Function.update s.loop r l } r k < s.posted r k := by
    cases k with
    | abort =>
        have hp : (s.loop r).abortPosted = true := by simpa [posted] using hposted
        exact ⟨Loop.beginWalk .abort { s.loop r with abortPosted := false },
          by simp [begin_, Loop.step, hfault, hstack, hp], by simp [posted, hp, Loop.beginWalk]⟩
    | force =>
        have hp : 0 < (s.loop r).forcePosted := Nat.pos_of_ne_zero hposted
        exact ⟨Loop.beginWalk .force { s.loop r with forcePosted := (s.loop r).forcePosted - 1 },
          by simp [begin_, Loop.step, hfault, hstack, hp], by simp [posted, hp, Loop.beginWalk]⟩
  obtain ⟨l, hl, hlt⟩ := hbegin
  refine ⟨.loop r (begin_ k), { s with loop := Function.update s.loop r l }, trivial, ?_, rfl, rfl,
    hlt⟩
  cases k <;> simp [machine, Server.step, loopStep, begin_, hjob, loopAct] <;> exact ⟨l, hl, rfl⟩

/-- **The walks that a loop was asked for can run.** -/
lemma exists_walkOver (hs : (machine cfg).ReachableUnder Halting s) (r : Fin (n + 1)) (k : Kind) :
    ∃ t, (machine cfg).LeadsUnder Unaided s t ∧ t.host = s.host ∧ t.control = s.control ∧
      t.walkOver r k = true := by
  -- between walks the loop is idle
  let I : Server n → Prop := fun t => (machine cfg).ReachableUnder Halting t ∧
    t.host = s.host ∧ t.control = s.control ∧ t.job r = .idle ∧ (t.loop r).stack = []
  have hprogress : ∀ t, I t → ¬t.posted r k = 0 → ∃ u, (machine cfg).LeadsUnder Unaided t u ∧
      I u ∧ u.posted r k < t.posted r k := by
    rintro t ⟨ht, hhost, hcontrol, hjob, hstack⟩ hposted
    obtain ⟨act, u, hact, hstep, hhost', hcontrol', hlt⟩ :=
      exists_begin ht.reachable hjob hstack hposted
    have hu := ht.step hact.halting hstep
    obtain ⟨v, hlead, hwithin, hidle⟩ := exists_idle hu r
    refine ⟨v, (Machine.LeadsUnder.of_step hact hstep).andThen hlead,
      ⟨reachable_of_unaided hu hlead, ?_, ?_, hidle⟩, by rwa [hwithin.posted_eq]⟩
    · exact hwithin.host.trans (hhost'.trans hhost)
    · exact hwithin.control.trans (hcontrol'.trans hcontrol)
  obtain ⟨s₁, hlead₁, hwithin, hidle⟩ := exists_idle hs r
  obtain ⟨t, hlead, ⟨-, hhost, hcontrol, -, hstack⟩, hzero⟩ :=
    Machine.exists_leadsUnder_of_measure (fun t : Server n => t.posted r k) hprogress
      ⟨reachable_of_unaided hs hlead₁, hwithin.host, hwithin.control, hidle⟩
  refine ⟨t, hlead₁.andThen hlead, hhost, hcontrol, ?_⟩
  cases k with
  | abort =>
      have hno : (t.loop r).abortPosted = false := by simpa [posted] using hzero
      simp [walkOver, hno, hstack, Loop.walks]
  | force =>
      have hno : (t.loop r).forcePosted = 0 := hzero
      simp [walkOver, hno, hstack, Loop.walks]

end Server

/-! ## An accept loop that was told to stop -/

namespace AcceptPc

/-- The number of steps of the setup that are left at most, counted with the announcement. -/
def setupLeft : Setup → ℕ
  | .makeAddress => 9
  | .open_ => 8
  | .reuseAddress => 7
  | .reusePort => 6
  | .bind_ => 5
  | .listen => 4
  | .localEndpoint => 3

/-- The number of steps before an accept loop that was told to stop has ended, apart from what it
does for a connection that it launches. -/
def toEnd : AcceptPc → ℕ
  | .ended => 0
  | .ending _ => 1
  | .started => 2
  | .loopTest => 2
  | .check => 2
  | .retryTest _ => 2
  | .woken _ => 2
  | .spawned => 3
  | .announce => 3
  | .arrived _ => 3
  | .timed _ => 3
  | .pressed => 3
  | .launch => 3
  | .accepted _ => 4
  | .timing => 4
  | .admission => 4
  | .accepting => 5
  | .arming _ => 5
  | .initiate => 6
  | .judging _ => 6
  | .setup st => setupLeft st + 1

/-- The number of steps before an accept loop listens, or ends before it does. -/
def toListen : AcceptPc → ℕ
  | .spawned => 11
  | .started => 10
  | .setup st => setupLeft st
  | .announce => 2
  | .ending _ => 1
  | _ => 0

end AcceptPc

namespace Accept

variable {l : Listener} {a : Accept}

lemma exists_setUp (l : Listener) {st : Setup} (hpc : a.pc = .setup st) :
    ∃ act a', act.unaided = true ∧ a.step l act = some a' ∧
      (a'.pc = .announce ∨ ∃ st', a'.pc = .setup st' ∧
        AcceptPc.setupLeft st' < AcceptPc.setupLeft st) ∧ 2 < AcceptPc.setupLeft st := by
  cases st with
  | localEndpoint =>
      -- the kernel gives a port, and the one that was asked for if there was one
      refine ⟨.run (.at_ (if l.port = 0 then 1 else l.port)), { a with
        bound := if l.port = 0 then 1 else l.port, pc := .announce }, rfl, ?_, .inl rfl, by decide⟩
      have hport : (if l.port = 0 then 1 else l.port) ≠ 0 := by split <;> omega
      simp only [step, runStep, hpc, runSetup]
      rw [if_pos ⟨trivial, hport, fun h => by simp [h]⟩]
  | reuseAddress =>
      refine ⟨.run .ok, _, rfl, by simp [step, runStep, hpc, runSetup]; rfl, .inr ?_, by decide⟩
      cases hreuse : l.reusePort with
      | true => exact ⟨.reusePort, by simp [nextSetup, hreuse], by decide⟩
      | false => exact ⟨.bind_, by simp [nextSetup, hreuse], by decide⟩
  | makeAddress | open_ | reusePort | bind_ | listen =>
      exact ⟨.run .ok, _, rfl, by simp [step, runStep, hpc, runSetup]; rfl,
        .inr ⟨_, rfl, by decide⟩, by decide⟩

/-- An accept loop that was told to stop, and that is neither admitting nor launching, comes nearer
to its end. -/
lemma exists_toEnd (hkept : Kept l a) (htold : a.stopping = true)
    (hposted : a.posted = true ∨ a.stopRan = true) (hend : a.pc ≠ .ended)
    (hadmission : a.pc ≠ .admission) (hlaunch : a.pc ≠ .launch) :
    ∃ act a', act.unaided = true ∧ a.step l act = some a' ∧ a'.pc.toEnd < a.pc.toEnd := by
  -- what is pending is pending because `stop_on_owner` has not run
  have hpending : a.pc = .accepting ∨ a.pc = .timing → a.posted = true := by
    intro hpc
    refine hposted.resolve_right fun hran => ?_
    have hclosing := (hkept.closing hran).2
    rcases hpc with hpc | hpc <;> simp [hpc, AcceptPc.closing] at hclosing
  cases hpc : a.pc with
  | ended => exact absurd hpc hend
  | admission => exact absurd hpc hadmission
  | launch => exact absurd hpc hlaunch
  | accepting =>
      exact ⟨.stopOnOwner, a.stopOnOwner, rfl,
        by simp [step, hpending (.inl hpc), hpc, AcceptPc.executing],
        by simp [stopOnOwner, hpc, AcceptPc.toEnd]⟩
  | timing =>
      exact ⟨.stopOnOwner, a.stopOnOwner, rfl,
        by simp [step, hpending (.inr hpc), hpc, AcceptPc.executing],
        by simp [stopOnOwner, hpc, AcceptPc.toEnd]⟩
  | spawned | accepted e | timed b =>
      exact ⟨.dispatch, _, rfl, by simp [step, dispatch, hpc]; rfl, by simp [AcceptPc.toEnd]⟩
  | setup st =>
      obtain ⟨act, a', hact, hstep, hnext, hpos⟩ := exists_setUp l hpc
      refine ⟨act, a', hact, hstep, ?_⟩
      rcases hnext with hnext | ⟨st', hnext, hlt⟩
      · simp only [hnext, AcceptPc.toEnd]
        omega
      · simpa [hnext, AcceptPc.toEnd] using hlt
  | judging e =>
      refine ⟨.run (.moved false), _, rfl, by simp [step, runStep, hpc]; rfl, ?_⟩
      simp only [judgeStep]
      cases (judge l.platform e false a.pacing).1 <;> simp [AcceptPc.toEnd]
  | arrived e =>
      cases e <;>
        exact ⟨.run .ok, _, rfl, by simp [step, runStep, hpc]; rfl, by simp [AcceptPc.toEnd]⟩
  | initiate =>
      refine ⟨.run .ok, _, rfl, by simp [step, runStep, hpc]; rfl, ?_⟩
      cases hopen : a.isOpen <;> simp [AcceptPc.toEnd]
  | woken b =>
      refine ⟨.run .ok, _, rfl, by simp [step, runStep, hpc]; rfl, ?_⟩
      simp [htold, AcceptPc.toEnd]
  | started | loopTest | check | retryTest e =>
      refine ⟨.run .ok, _, rfl, by simp [step, runStep, hpc]; rfl, ?_⟩
      simp [testStopping, htold, AcceptPc.toEnd]
  | announce | pressed | arming d | ending e =>
      exact ⟨.run .ok, _, rfl, by simp [step, runStep, hpc]; rfl, by simp [finish, AcceptPc.toEnd]⟩

/-- An accept loop that does not listen yet comes nearer to it, or to its end. -/
lemma exists_toListen (l : Listener) (hpc : a.pc.early = true ∨ ∃ e, a.pc = .ending e) :
    ∃ act a', act.unaided = true ∧ a.step l act = some a' ∧
      a'.pc.toListen < a.pc.toListen := by
  rcases hpc with hearly | ⟨e, hpc⟩
  · cases hpc : a.pc with
    | spawned =>
        exact ⟨.dispatch, _, rfl, by simp [step, dispatch, hpc]; rfl, by simp [AcceptPc.toListen]⟩
    | started =>
        refine ⟨.run .ok, _, rfl, by simp [step, runStep, hpc]; rfl, ?_⟩
        cases hstop : a.stopping <;>
          simp [testStopping, hstop, AcceptPc.toListen, AcceptPc.setupLeft]
    | setup st =>
        obtain ⟨act, a', hact, hstep, hnext, hpos⟩ := exists_setUp l hpc
        refine ⟨act, a', hact, hstep, ?_⟩
        rcases hnext with hnext | ⟨st', hnext, hlt⟩
        · simpa only [hnext, AcceptPc.toListen] using hpos
        · simpa only [hnext, AcceptPc.toListen] using hlt
    | announce =>
        exact ⟨.run .ok, _, rfl, by simp [step, runStep, hpc]; rfl, by simp [AcceptPc.toListen]⟩
    | _ => simp [hpc, AcceptPc.early] at hearly
  · exact ⟨.run .ok, _, rfl, by simp [step, runStep, hpc]; rfl,
      by simp [finish, hpc, AcceptPc.toListen]⟩

end Accept

namespace Server

variable {n : ℕ} {cfg : Config} {s s' t : Server n} {r i : Fin (n + 1)}

lemma exists_accept {a a' : Accept} {act : Accept.Act} (ha : s.control i = some a)
    (hdriven : s.driven i) (hact : act.unaided = true) (hadmission : a.pc ≠ .admission)
    (hlaunch : a.pc ≠ .launch)
    (hstep : a.step (cfg.listener (s.host.portOf i)) act = some a') :
    ∃ t, (machine cfg).step s (.accept i act) = some t ∧ t.control i = some a' ∧
      t.sessions = s.sessions := by
  have hstep' : s.acceptAct cfg i act =
      some { s with control := Function.update s.control i (some a') } := by
    simp [acceptAct, ha, hstep]
  cases act with
  | store => cases hact
  | post => cases hact
  | complete e => cases hact
  | expire => cases hact
  | stopOnOwner | dispatch =>
      exact ⟨{ s with control := Function.update s.control i (some a') },
        by simp [machine, Server.step, acceptStep, hdriven, hstep'], by simp, rfl⟩
  | run o =>
      have hpc : s.acceptPc i ≠ some .admission ∧ s.acceptPc i ≠ some .launch := by
        simp [acceptPc, ha, hadmission, hlaunch]
      refine ⟨_, by simp [machine, Server.step, acceptStep, hdriven, hpc, hstep']; rfl, ?_, ?_⟩
      · split
        · unfold chooseTarget
          split <;> simp
        · simp
      · split
        · unfold chooseTarget
          split <;> rfl
        · rfl

/-- The number of steps that are left to what an accept loop holds. -/
def handLeft (u : Sessions n) : Hand → ℕ
  | .empty => 0
  | .lease _ => 14
  | .launching c => (u.conn c).rest + 1
  | .returned => 1
  | .threw c => (u.conn c).rest + 1

/-- The number of steps before accept loop `i`, which was told to stop, has ended. -/
def toReap (s : Server n) (i : Fin (n + 1)) : ℕ :=
  16 * ((s.control i).map fun a => a.pc.toEnd).getD 0 + handLeft s.sessions (s.sessions.hand i)

lemma exists_carry (cfg : Config) {c : ℕ} {a : Conn.Act} {k' : Conn n}
    (hc : c < s.sessions.born)
    (hstep : (s.sessions.conn c).step a = some k')
    (ha : a = .launch ∨ a = .post true ∨ a = .frame true ∨ a = .spawn true ∨ a = .reset ∨
      a = .leave) :
    ∃ t, (machine cfg).step s (.conn c a) = some t ∧ t.control = s.control ∧
      t.sessions = s.sessions.settle c a k' := by
  have hact : s.sessionAct cfg (.conn c a) =
      some { s with sessions := s.sessions.settle c a k' } := by
    simp [sessionAct, Sessions.step, hc, hstep]
  rcases ha with rfl | rfl | rfl | rfl | rfl | rfl
  · exact ⟨_, hact, rfl, rfl⟩
  · exact ⟨_, hact, rfl, rfl⟩
  · exact ⟨_, hact, rfl, rfl⟩
  · exact ⟨_, hact, rfl, rfl⟩
  · exact ⟨_, hact, rfl, rfl⟩
  · refine ⟨_, by simp [machine, Server.step, connStep, hact]; rfl, ?_, ?_⟩ <;> split <;> rfl

/-- What an accept loop holds of connection `c` gets less as the connection goes on. -/
lemma handLeft_settle {u : Sessions n} {c : ℕ} {a : Conn.Act} {k' : Conn n}
    (hstep : (u.conn c).step a = some k') (ha : a ≠ .abort)
    (hhand : u.hand i = .launching c ∨ u.hand i = .threw c) :
    handLeft (u.settle c a k') ((u.settle c a k').hand i) < handLeft u (u.hand i) := by
  have hlt := Conn.rest_step hstep ha
  have hold : handLeft u (u.hand i) = (u.conn c).rest + 1 := by
    rcases hhand with hhand | hhand <;> rw [hhand] <;> rfl
  have hself : (u.settle c a k').conn c = k' := Function.update_self ..
  have hcases := Sessions.Handed.hand_settle c (u.conn c) k' u.hand i
  rw [hold]
  change handLeft (u.settle c a k') (Sessions.handAfter c (u.conn c) k' u.hand i) < _
  rcases hcases with ⟨hsame, -⟩ | hret | ⟨hthrew, -⟩
  · rw [hsame]
    rcases hhand with hhand | hhand <;> rw [hhand] <;> simp only [handLeft, hself] <;> omega
  · rw [hret]
    simp only [handLeft]
    omega
  · rw [hthrew]
    simp only [handLeft, hself]
    omega

lemma exists_launch (hs : (machine cfg).Reachable s) {a : Accept} (ha : s.control i = some a)
    (hpc : a.pc = .launch) :
    ∃ act t, Unaided s act ∧ isHost act = false ∧ (machine cfg).step s act = some t ∧
      t.toReap i < s.toReap i := by
  have hat : s.acceptPc i = some .launch := by simp [acceptPc, ha, hpc]
  have hhanded := handed_of_reachable hs
  -- a step of the connection that the accept loop holds
  have carry : ∀ {c : ℕ} {act : Conn.Act} {k' : Conn n}, c < s.sessions.born →
      (s.sessions.conn c).step act = some k' →
      (act = .launch ∨ act = .post true ∨ act = .frame true ∨ act = .spawn true ∨ act = .reset ∨
        act = .leave) →
      (s.sessions.hand i = .launching c ∨ s.sessions.hand i = .threw c) →
      ∃ act t, Unaided s act ∧ isHost act = false ∧ (machine cfg).step s act = some t ∧
        t.toReap i < s.toReap i := by
    intro c act k' hc hk' hact hhand
    obtain ⟨t, ht, hcontrol, hsessions⟩ := exists_carry cfg hc hk' hact
    refine ⟨.conn c act, t, ?_, rfl, ht, ?_⟩
    · rcases hact with rfl | rfl | rfl | rfl | rfl | rfl <;> rfl
    · have hlt := handLeft_settle hk' (by rintro rfl; simp at hact) hhand
      simp only [toReap, hcontrol, hsessions]
      omega
  cases hhand : s.sessions.hand i with
  | empty => exact absurd hhand (holding_of_reachable hs i hat)
  | lease held =>
      refine ⟨.mint i, { s with sessions := { s.sessions with
        sessions_ := Function.update s.sessions.sessions_ (s.target i)
          (s.sessions.sessions_ (s.target i) + 1)
        hand := Function.update s.sessions.hand i (.launching s.sessions.born)
        born := s.sessions.born + 1
        conn := Function.update s.sessions.conn s.sessions.born
          (.fresh i (s.target i) held) } }, trivial, rfl, ?_, ?_⟩
      · simp [machine, Server.step, hat, sessionAct, Sessions.step, hhand]
      · simp [toReap, hhand, handLeft, Conn.rest, Conn.fresh]
  | launching c =>
      obtain ⟨hc, hvia⟩ := hhanded.launching i c hhand
      have hcall := hhanded.inCall c (by simp [hvia])
      cases hst : (s.sessions.conn c).stage with
      | launching hop =>
          obtain ⟨k', hk'⟩ : ∃ k', (s.sessions.conn c).step .launch = some k' := by
            by_cases hsite : (s.sessions.conn c).site = (s.sessions.conn c).home <;>
              simp [Conn.step, hst, hsite]
          exact carry hc hk' (.inl rfl) (.inl hhand)
      | captured =>
          exact carry hc (show (s.sessions.conn c).step (.post true) = some _ by
            simp [Conn.step, hst]; rfl) (by simp) (.inl hhand)
      | called hop =>
          exact carry hc (show (s.sessions.conn c).step (.frame true) = some _ by
            simp [Conn.step, hst]; rfl) (by simp) (.inl hhand)
      | framed hop =>
          exact carry hc (show (s.sessions.conn c).step (.spawn true) = some _ by
            simp [Conn.step, hst]; rfl) (by simp) (.inl hhand)
      | _ => simp [hst, ConnStage.inCall] at hcall
  | returned =>
      refine ⟨.launched i, { s with
        control := Function.update s.control i
          (some { a with launches := a.late :: a.launches, pc := .loopTest })
        sessions := { s.sessions with hand := Function.update s.sessions.hand i .empty } }, trivial,
        rfl, ?_, ?_⟩
      · simp [machine, Server.step, admitStep, hat, acceptAct, ha, Accept.step, Accept.runStep, hpc,
          sessionAct, Sessions.step, hhand]
      · simp [toReap, ha, hpc, AcceptPc.toEnd, hhand, handLeft]
  | threw c =>
      obtain ⟨hc, hclosing⟩ := hhanded.threw i c hhand
      cases hst : (s.sessions.conn c).stage with
      | dying hop =>
          exact carry hc (show (s.sessions.conn c).step .reset = some _ by
            simp [Conn.step, hst]; rfl) (by simp) (.inr hhand)
      | leaving hop =>
          exact carry hc (show (s.sessions.conn c).step .leave = some _ by
            simp [Conn.step, hst]; rfl) (by simp) (.inr hhand)
      | ended =>
          refine ⟨.failed i false, { s with
            control := Function.update s.control i (some { a with pc := .ending (some .launch) })
            sessions := { s.sessions with hand := Function.update s.sessions.hand i .empty } },
            trivial, rfl, ?_, ?_⟩
          · simp [machine, Server.step, admitStep, hat, acceptAct, ha, Accept.step, Accept.runStep,
              hpc, sessionAct, Sessions.step, hhand, hst]
          · simp [toReap, ha, hpc, AcceptPc.toEnd, hhand, handLeft, Conn.rest, hst]
      | _ => simp [hst, ConnStage.closing] at hclosing

lemma exists_admission (hs : (machine cfg).Reachable s) {a : Accept} (ha : s.control i = some a)
    (hpc : a.pc = .admission) :
    ∃ act t, Unaided s act ∧ isHost act = false ∧ (machine cfg).step s act = some t ∧
      t.toReap i < s.toReap i := by
  have hat : s.acceptPc i = some .admission := by simp [acceptPc, ha, hpc]
  have hempty : s.sessions.hand i = .empty := by
    by_contra hne
    have := (desk_of_reachable hs).atLaunch i hne
    simp [hat] at this
  have henter : s.acceptAct cfg i (.run .ok) =
      some { s with control := Function.update s.control i (some { a with pc := .launch }) } := by
    simp [acceptAct, ha, Accept.step, Accept.runStep, hpc]
  by_cases hzero : cfg.maximum = 0
  · refine ⟨.enter i, { s with
      control := Function.update s.control i (some { a with pc := .launch })
      sessions := { s.sessions with hand := Function.update s.sessions.hand i (.lease false) } },
      trivial, rfl, ?_, ?_⟩
    · simp [machine, Server.step, admitStep, hat, henter, sessionAct, Sessions.step, hempty, hzero]
    · simp [toReap, ha, hpc, AcceptPc.toEnd, hempty, handLeft]
  · by_cases hroom : s.sessions.active < cfg.maximum
    · refine ⟨.enter i, { s with
        control := Function.update s.control i (some { a with pc := .launch })
        sessions := { s.sessions with
          active := s.sessions.active + 1
          hand := Function.update s.sessions.hand i (.lease true) } }, trivial, rfl, ?_, ?_⟩
      · simp [machine, Server.step, admitStep, hat, henter, sessionAct, Sessions.step, hempty,
          hzero, hroom]
      · simp [toReap, ha, hpc, AcceptPc.toEnd, hempty, handLeft]
    · refine ⟨.refuse i, { s with
        control := Function.update s.control i (some { a with pc := .loopTest }) },
        trivial, rfl, ?_, ?_⟩
      · simp [machine, Server.step, admitStep, hat, acceptAct, ha, Accept.step, Accept.runStep, hpc,
          Config.listener, hzero, sessionAct, Sessions.step, hempty, Nat.not_lt.mp hroom]
      · simp [toReap, ha, hpc, AcceptPc.toEnd, hempty, handLeft]

lemma exists_toReap (hs : (machine cfg).Reachable s) (hdriven : s.driven i) {a : Accept}
    (ha : s.control i = some a) (htold : Told s.control i) (hnot : a.finished = false) :
    ∃ act t, Unaided s act ∧ isHost act = false ∧ (machine cfg).step s act = some t ∧
      t.toReap i < s.toReap i := by
  by_cases hadmission : a.pc = .admission
  · exact exists_admission hs ha hadmission
  · by_cases hlaunch : a.pc = .launch
    · exact exists_launch hs ha hlaunch
    · have hkept := kept_control hs (cfg.listener (s.host.portOf i)) ha
      have hend : a.pc ≠ .ended := fun heq => by simp [hkept.finished_iff.mpr heq] at hnot
      obtain ⟨act, a', hact, hstep, hlt⟩ :=
        Accept.exists_toEnd hkept (htold a ha).1 (htold a ha).2 hend hadmission hlaunch
      obtain ⟨t, ht, ha', hsessions⟩ := exists_accept ha hdriven hact hadmission hlaunch hstep
      refine ⟨.accept i act, t, hact, rfl, ht, ?_⟩
      simp only [toReap, ha, ha', hsessions, Option.map_some, Option.getD_some]
      omega

lemma Told.beside (h : Told s.control i) (hbeside : Beside cfg s s') : Told s'.control i := by
  intro a' ha'
  rcases hbeside.control i with heq | ⟨a, act, a₁, ha, hab, ha₁⟩
  · exact h a' (heq ▸ ha')
  · obtain rfl : a₁ = a' := Option.some.inj (ha₁.symm.trans ha')
    exact ⟨Flagged.step hab (h a ha).1, posted_step hab (h a ha).2⟩

lemma isSome_beside (h : (s.control i).isSome = true) (hbeside : Beside cfg s s') :
    (s'.control i).isSome = true := by
  rcases hbeside.control i with heq | ⟨a, act, a', ha, hab, ha'⟩
  · rwa [heq]
  · rw [ha']
    rfl

/-- **An accept loop that was told to stop can come to its end.** -/
lemma exists_reaped (hs : (machine cfg).ReachableUnder Halting s) (hdriven : s.driven i)
    (hsome : (s.control i).isSome = true) (htold : Told s.control i) :
    ∃ t, (machine cfg).LeadsUnder Unaided s t ∧ t.host = s.host ∧
      (t.control i).any Accept.finished = true := by
  let I : Server n → Prop := fun t => (machine cfg).ReachableUnder Halting t ∧ t.host = s.host ∧
    (t.control i).isSome = true ∧ Told t.control i
  have hprogress : ∀ t, I t → ¬(t.control i).any Accept.finished = true →
      ∃ u, (machine cfg).LeadsUnder Unaided t u ∧ I u ∧ u.toReap i < t.toReap i := by
    rintro t ⟨ht, hhost, hsome, htold⟩ hnot
    obtain ⟨a, ha⟩ := Option.isSome_iff_exists.mp hsome
    have hdriven' : t.driven i := by rwa [driven, hhost]
    obtain ⟨act, u, hact, hother, hstep, hlt⟩ :=
      exists_toReap ht.reachable hdriven' ha htold (by simpa [ha] using hnot)
    have hbeside := beside_of_step hother hstep
    exact ⟨u, .of_step hact hstep, ⟨ht.step hact.halting hstep, hbeside.host.trans hhost,
      isSome_beside hsome hbeside, htold.beside hbeside⟩, hlt⟩
  obtain ⟨t, hlead, ⟨-, hhost, -⟩, hfinished⟩ := Machine.exists_leadsUnder_of_measure
    (fun t : Server n => t.toReap i) hprogress ⟨hs, rfl, hsome, htold⟩
  exact ⟨t, hlead, hhost, hfinished⟩

/-- **An accept loop can come to listen, or to its end.** -/
lemma exists_listening (hs : (machine cfg).ReachableUnder Halting s) (hdriven : s.driven i)
    (hsome : (s.control i).isSome = true) :
    ∃ t, (machine cfg).LeadsUnder Unaided s t ∧ t.host = s.host ∧
      (t.control i).any (fun a => a.ready || a.finished) = true := by
  let I : Server n → Prop := fun t => (machine cfg).ReachableUnder Halting t ∧ t.host = s.host ∧
    (t.control i).isSome = true
  let μ : Server n → ℕ := fun t => ((t.control i).map fun a => a.pc.toListen).getD 0
  have hprogress : ∀ t, I t → ¬(t.control i).any (fun a => a.ready || a.finished) = true →
      ∃ u, (machine cfg).LeadsUnder Unaided t u ∧ I u ∧ μ u < μ t := by
    rintro t ⟨ht, hhost, hsome⟩ hnot
    obtain ⟨a, ha⟩ := Option.isSome_iff_exists.mp hsome
    obtain ⟨hready, hfinished⟩ : a.ready = false ∧ a.finished = false := by
      simpa [ha] using hnot
    have hkept := kept_control ht.reachable (cfg.listener (t.host.portOf i)) ha
    have hpc : a.pc.early = true ∨ ∃ e, a.pc = .ending e := by
      rcases announced_control ht.reachable ha with hearly | hr | hending | hended
      · exact .inl hearly
      · simp [hready] at hr
      · exact .inr hending
      · simp [hkept.finished_iff.mpr hended] at hfinished
    obtain ⟨act, a', hact, hstep, hlt⟩ :=
      Accept.exists_toListen (cfg.listener (t.host.portOf i)) hpc
    have hplace : a.pc ≠ .admission ∧ a.pc ≠ .launch := by
      rcases hpc with hearly | ⟨e, he⟩
      · constructor <;> intro heq <;> simp [heq, AcceptPc.early] at hearly
      · simp [he]
    have hdriven' : t.driven i := by rwa [driven, hhost]
    obtain ⟨u, hu, ha', -⟩ := exists_accept ha hdriven' hact hplace.1 hplace.2 hstep
    have hok : Unaided t (.accept i act) := hact
    have hbeside : Beside cfg t u := beside_of_acceptStep hu
    refine ⟨u, .of_step hok hu, ⟨ht.step hok.halting hu, hbeside.host.trans hhost,
      isSome_beside hsome hbeside⟩, ?_⟩
    simpa [μ, ha, ha'] using hlt
  obtain ⟨t, hlead, ⟨-, hhost, -⟩, hgoal⟩ := Machine.exists_leadsUnder_of_measure μ hprogress
    ⟨hs, rfl, hsome⟩
  exact ⟨t, hlead, hhost, hgoal⟩

end Server

/-! ## The owner -/

/-- The number of statements of `stop()` that are left at most, with `n + 1` reactors; each of its
loops has its own range. -/
def StopPc.rank (n : ℕ) : StopPc → ℕ
  | .clear => 1
  | .join i => 2 + (n + 2 - i)
  | .halt i => 3 * (n + 3) + (n + 2 - i)
  | .clearGuards => 6 * (n + 3)
  | .drainForced i => 9 * (n + 3) + (n + 2 - i)
  | .force i => 12 * (n + 3) + 2 * (n + 2 - i)
  | .awaitForce i => 12 * (n + 3) + 2 * (n + 2 - i) - 1
  | .drain i _ => 15 * (n + 3) + (n + 2 - i)
  | .reap i => 18 * (n + 3) + (n + 2 - i)
  | .store i => 21 * (n + 3) + 2 * (n + 2 - i)
  | .post i => 21 * (n + 3) + 2 * (n + 2 - i) - 1
  | .abort i => 24 * (n + 3) + 2 * (n + 2 - i)
  | .awaitAbort i => 24 * (n + 3) + 2 * (n + 2 - i) - 1
  | .test => 27 * (n + 3)

/-- The number of statements of the owner's call that are left at most. -/
def OwnerPc.rank (n : ℕ) : OwnerPc → ℕ
  | .done _ => 0
  | .stop p _ => p.rank n
  | .poll i => 30 * (n + 3) + (n + 2 - i)
  | .flag i => 33 * (n + 3) + (n + 2 - i)
  | .setPort => 36 * (n + 3)
  | .listening i => 39 * (n + 3) + (n + 2 - i)
  | .control i _ => 42 * (n + 3) + 3 * (n + 2 - i)
  | .spawn i _ => 42 * (n + 3) + 3 * (n + 2 - i) - 1
  | .firstPort i _ => 42 * (n + 3) + 3 * (n + 2 - i) - 2
  | .claim i => 45 * (n + 3) + 2 * (n + 2 - i)
  | .thread i => 45 * (n + 3) + 2 * (n + 2 - i) - 1
  | .guard i => 48 * (n + 3) + (n + 2 - i)

namespace Server

variable {n : ℕ} {cfg : Config} {s s' t : Server n} {r i : Fin (n + 1)}

lemma each_of_lt {j bound : ℕ} {body : Fin (n + 1) → Option (Server n)} {after : OwnerPc}
    (hj : j < n + 1) (hbound : j < bound) : s.each j bound body after = body ⟨j, hj⟩ := by
  rw [each, dif_pos ⟨hj, hbound⟩]

lemma each_of_not {j bound : ℕ} {body : Fin (n + 1) → Option (Server n)} {after : OwnerPc}
    (hj : ¬(j < n + 1 ∧ j < bound)) : s.each j bound body after = some (s.goto after) := by
  rw [each, dif_neg hj]

/-- The owner comes nearer to the end of its call. -/
def Nears (cfg : Config) (s : Server n) : Prop :=
  ∃ t, (machine cfg).LeadsUnder Unaided s t ∧ t.host.pc.rank n < s.host.pc.rank n

lemma Nears.of_own {ok : Bool} (hok : ok = true ∨ s.host.pc.inGrace = true)
    (hstep : s.ownStep cfg ok = some t) (hlt : t.host.pc.rank n < s.host.pc.rank n) :
    s.Nears cfg := by
  have hact : Unaided s (.own ok) := hok
  exact ⟨t, .of_step hact hstep, hlt⟩

/-- After a while, in which the owner waits, its next statement does it. -/
lemma Nears.of_wait {u : Server n} (hlead : (machine cfg).LeadsUnder Unaided s u)
    (hhost : u.host = s.host) (h : u.Nears cfg) : s.Nears cfg := by
  obtain ⟨t, hlead', hlt⟩ := h
  exact ⟨t, hlead.andThen hlead', hhost ▸ hlt⟩

lemma exists_tell (cfg : Config) {a a' : Accept} (act : Accept.Act) (ha : s.control i = some a)
    (hstep : a.step (cfg.listener (s.host.portOf i)) act = some a') :
    ∃ t, s.acceptAct cfg i act = some t := ⟨_, by simp [acceptAct, ha, hstep]; rfl⟩

lemma exists_request (hs : (machine cfg).Reachable s) (r : Fin (n + 1)) (k : Kind) :
    ∃ t, s.loopAct r (request k) = some t := by
  have hfault := ((framed_of_reachable hs).steady r).faultless
  cases k with
  | abort =>
      cases haborting : (s.loop r).aborting_ <;>
        exact ⟨_, by simp [loopAct, request, Loop.step, hfault, haborting]; rfl⟩
  | force => exact ⟨_, by simp [loopAct, request, Loop.step, hfault]; rfl⟩

/-- As long as no loop was stopped, the threads that were made are in `run()`. -/
lemma driven_of_threads (hm : Manned s.host s.control) (hr : r.val < s.host.threads_)
    (hjoined : s.host.pc.hasJoined r.val = false) (hhalted : s.host.pc.halted r.val = false) :
    s.driven r := by
  rcases hm.threads r hr with hrun | hleft | hj
  · exact hrun
  · simp [hm.stays r hleft] at hhalted
  · simp [hjoined] at hj

lemma driven_of_accepts (hm : Manned s.host s.control) (hpos : 0 < s.host.accepts_)
    (r : Fin (n + 1)) (hjoined : s.host.pc.hasJoined r.val = false)
    (hhalted : s.host.pc.halted r.val = false) : s.driven r := by
  have hall := hm.all (.inl hpos)
  exact driven_of_threads hm (by have := r.isLt; omega) hjoined hhalted

lemma nears_stop {p : StopPc} {b : Bool} (ok : Bool) (hpc : s.host.pc = .stop p b)
    (hok : ok = true ∨ s.host.pc.inGrace = true) (hstep : s.stopStep cfg ok b p = some t)
    (hlt : t.host.pc.rank n < p.rank n) : s.Nears cfg := by
  refine .of_own (t := t) hok ?_ (by rw [hpc]; exact hlt)
  rw [ownStep, hpc]
  exact hstep

/-- A loop of `stop()`: one round of it, or its end. -/
lemma nears_each {p : StopPc} {b : Bool} {j bound : ℕ} {body : Fin (n + 1) → Option (Server n)}
    (after : OwnerPc) (hpc : s.host.pc = .stop p b)
    (hloop : s.stopStep cfg true b p = s.each j bound body after)
    (hafter : after.rank n < p.rank n) (hbody : j < n + 1 → j < bound → s.Nears cfg) :
    s.Nears cfg := by
  by_cases hj : j < n + 1 ∧ j < bound
  · exact hbody hj.1 hj.2
  · exact nears_stop (t := s.goto after) true hpc (.inl rfl) (hloop.trans (each_of_not hj)) hafter

lemma nears_request (hs : (machine cfg).Reachable s) {p p' : StopPc} {b : Bool} {j : ℕ} (k : Kind)
    (hj : j < n + 1) (hpc : s.host.pc = .stop p b)
    (hstep : s.stopStep cfg true b p =
      (s.loopAct ⟨j, hj⟩ (request k)).map (goto (.stop p' b)))
    (hlt : p'.rank n < p.rank n) : s.Nears cfg := by
  obtain ⟨t, ht⟩ := exists_request hs ⟨j, hj⟩ k
  exact nears_stop (t := t.goto (.stop p' b)) true hpc (.inl rfl) (by rw [hstep, ht]; rfl) hlt

lemma nears_walk (hs : (machine cfg).ReachableUnder Halting s) {p p' : StopPc} {b : Bool} {j : ℕ}
    (k : Kind) (hj : j < n + 1) (hpc : s.host.pc = .stop p b)
    (hstep : ∀ u : Server n, u.walkOver ⟨j, hj⟩ k = true →
      u.stopStep cfg true b p = some (u.goto (.stop p' b)))
    (hlt : p'.rank n < p.rank n) : s.Nears cfg := by
  obtain ⟨u, hlead, hhost, -, hover⟩ := exists_walkOver hs ⟨j, hj⟩ k
  exact .of_wait hlead hhost
    (nears_stop (t := u.goto (.stop p' b)) true (by rw [hhost, hpc]) (.inl rfl) (hstep u hover) hlt)

lemma nears_tell {p p' : StopPc} {b : Bool} {j : ℕ} {a a' : Accept} (act : Accept.Act)
    (hj : j < n + 1) (hpc : s.host.pc = .stop p b) (ha : s.control ⟨j, hj⟩ = some a)
    (hact : a.step (cfg.listener (s.host.portOf ⟨j, hj⟩)) act = some a')
    (hstep : s.stopStep cfg true b p = (s.acceptAct cfg ⟨j, hj⟩ act).map (goto (.stop p' b)))
    (hlt : p'.rank n < p.rank n) : s.Nears cfg := by
  obtain ⟨t, ht⟩ := exists_tell cfg act ha hact
  exact nears_stop (t := t.goto (.stop p' b)) true hpc (.inl rfl) (by rw [hstep, ht]; rfl) hlt

lemma nears_join (hm : Manned s.host s.control) {b : Bool} {j : ℕ} (hj : j < n + 1)
    (hlt : j < s.host.threads_) (hpc : s.host.pc = .stop (.join j) b) : s.Nears cfg := by
  obtain ⟨u, hlead, hpc', hthreads, hleft⟩ : ∃ u, (machine cfg).LeadsUnder Unaided s u ∧
      u.host.pc = s.host.pc ∧ u.host.threads_ = s.host.threads_ ∧
      u.host.thread ⟨j, hj⟩ = .left := by
    rcases hm.threads ⟨j, hj⟩ hlt with hrun | hleft | hjoined
    · have hact : Unaided s (.leave ⟨j, hj⟩) := by
        rw [Unaided, hpc]
        rfl
      have hstep : (machine cfg).step s (.leave ⟨j, hj⟩) = some { s with host :=
          { s.host with
            thread := Function.update s.host.thread ⟨j, hj⟩ .left
            loops_ := Function.update s.host.loops_ ⟨j, hj⟩ (s.host.loops_ ⟨j, hj⟩ - 1) } } :=
        if_pos hrun
      exact ⟨_, .of_step hact hstep, rfl, rfl, by simp⟩
    · exact ⟨s, .here s, rfl, rfl, hleft⟩
    · simp [hpc, OwnerPc.hasJoined] at hjoined
  have hnext : u.Nears cfg := by
    refine nears_stop (t := goto (.stop (.join (j + 1)) b) { u with host :=
      { u.host with thread := Function.update u.host.thread ⟨j, hj⟩ .joined } }) true
      (hpc'.trans hpc) (.inl rfl) ?_ ?_
    · rw [stopStep, each_of_lt hj (by rw [hthreads]; exact hlt), if_pos hleft]
    · simp only [goto, OwnerPc.rank, StopPc.rank]
      omega
  obtain ⟨t, hlead', hlt⟩ := hnext
  exact ⟨t, hlead.andThen hlead', hpc' ▸ hlt⟩

/-- **`stop()` is not stuck.** -/
lemma stop_nears (hs : (machine cfg).ReachableUnder Halting s) {p : StopPc} {b : Bool}
    (hpc : s.host.pc = .stop p b) : s.Nears cfg := by
  have hm := manned_of_reachable hs
  have hbriefed := hm.briefed
  rw [hpc] at hbriefed
  -- the controls that `stop()` goes through are there
  have control : ∀ {j : ℕ} (hj : j < n + 1), j < s.host.accepts_ →
      (s.control ⟨j, hj⟩).isSome = true := fun hj hlt =>
    (hm.controls ⟨_, hj⟩ hlt).resolve_right (by simp [hpc])
  cases p with
  | test =>
      cases hstopped : s.host.stopped_ with
      | true =>
          refine nears_stop (t := s.goto (stopEnd b)) true hpc (.inl rfl)
            (by simp [stopStep, hstopped]) ?_
          simp [goto, stopEnd, OwnerPc.rank, StopPc.rank]
      | false =>
          refine nears_stop true hpc (.inl rfl) (by simp [stopStep, hstopped]; rfl) ?_
          simp only [goto, OwnerPc.rank, StopPc.rank]
          omega
  | abort i =>
      refine nears_each (.stop (.store 0) b) hpc (by rw [stopStep])
        (by simp only [OwnerPc.rank, StopPc.rank]; omega) fun hi hlt => ?_
      exact nears_request hs.reachable .abort hi hpc (by rw [stopStep, each_of_lt hi hlt]; rfl)
        (by simp only [StopPc.rank]; omega)
  | awaitAbort i =>
      refine nears_each (.stop (.store 0) b) hpc (by rw [stopStep])
        (by simp only [OwnerPc.rank, StopPc.rank]; omega) fun hi hlt => ?_
      exact nears_walk hs .abort hi hpc
        (fun u hover => by rw [stopStep, each_of_lt hi hlt, if_pos hover])
        (by simp only [StopPc.rank]; omega)
  | store i =>
      refine nears_each (.stop (.reap 0) b) hpc (by rw [stopStep])
        (by simp only [OwnerPc.rank, StopPc.rank]; omega) fun hi hlt => ?_
      obtain ⟨a, ha⟩ := Option.isSome_iff_exists.mp (control hi hlt)
      exact nears_tell .store hi hpc ha rfl (by rw [stopStep, each_of_lt hi hlt])
        (by simp only [StopPc.rank]; omega)
  | post i =>
      refine nears_each (.stop (.reap 0) b) hpc (by rw [stopStep])
        (by simp only [OwnerPc.rank, StopPc.rank]; omega) fun hi hlt => ?_
      obtain ⟨a, ha⟩ := Option.isSome_iff_exists.mp (control hi hlt)
      have hstopping : a.stopping = true := hbriefed.2 ⟨i, hi⟩ rfl a ha
      exact nears_tell .post hi hpc ha (if_pos hstopping)
        (by rw [stopStep, each_of_lt hi hlt]) (by simp only [StopPc.rank]; omega)
  | reap i =>
      refine nears_each (.stop (.drain 0 true) b) hpc (by rw [stopStep])
        (by simp only [OwnerPc.rank, StopPc.rank]; omega) fun hi hlt => ?_
      have hdriven : s.driven ⟨i, hi⟩ := driven_of_accepts hm (Nat.zero_lt_of_lt hlt) _
        (by rw [hpc]; rfl) (by rw [hpc]; rfl)
      obtain ⟨u, hlead, hhost, hfinished⟩ :=
        exists_reaped hs hdriven (control hi hlt) (hbriefed ⟨i, hi⟩ hlt)
      refine .of_wait hlead hhost (nears_stop (t := u.goto (.stop (.reap (i + 1)) b)) true
        (by rw [hhost, hpc]) (.inl rfl) ?_ (by simp only [goto, OwnerPc.rank, StopPc.rank]; omega))
      rw [stopStep, each_of_lt hi (by rw [hhost]; exact hlt), if_pos hfinished]
  | drain i d =>
      refine nears_each (.stop (if d then .clearGuards else .force 0) b) hpc (by rw [stopStep]) ?_
        fun hi hlt => ?_
      · cases d <;> simp only [Bool.false_eq_true, if_false, if_true, OwnerPc.rank, StopPc.rank] <;>
          omega
      · -- no session is left, or the deadline passes
        refine nears_stop (decide (s.sessions.sessions_ ⟨i, hi⟩ = 0)) hpc (.inr (by rw [hpc]; rfl))
          (t := s.goto (.stop (.drain (i + 1)
            (decide (s.sessions.sessions_ ⟨i, hi⟩ = 0) && d)) b)) ?_ ?_
        · rw [stopStep, each_of_lt hi hlt, drainOne, if_pos rfl]
        · simp only [goto, OwnerPc.rank, StopPc.rank]
          omega
  | force i =>
      refine nears_each (.stop (.drainForced 0) b) hpc (by rw [stopStep])
        (by simp only [OwnerPc.rank, StopPc.rank]; omega) fun hi hlt => ?_
      exact nears_request hs.reachable .force hi hpc (by rw [stopStep, each_of_lt hi hlt]; rfl)
        (by simp only [StopPc.rank]; omega)
  | awaitForce i =>
      refine nears_each (.stop (.drainForced 0) b) hpc (by rw [stopStep])
        (by simp only [OwnerPc.rank, StopPc.rank]; omega) fun hi hlt => ?_
      exact nears_walk hs .force hi hpc
        (fun u hover => by rw [stopStep, each_of_lt hi hlt, if_pos hover])
        (by simp only [StopPc.rank]; omega)
  | drainForced i =>
      refine nears_each (.stop .clearGuards b) hpc (by rw [stopStep])
        (by simp only [OwnerPc.rank, StopPc.rank]; omega) fun hi hlt => ?_
      refine nears_stop (decide (s.sessions.sessions_ ⟨i, hi⟩ = 0)) hpc (.inr (by rw [hpc]; rfl))
        (t := s.goto (.stop (.drainForced (i + 1)) b)) ?_ ?_
      · rw [stopStep, each_of_lt hi hlt, drainOne, if_pos rfl]
      · simp only [goto, OwnerPc.rank, StopPc.rank]
        omega
  | clearGuards =>
      refine nears_stop true hpc (.inl rfl) rfl ?_
      simp only [goto, OwnerPc.rank, StopPc.rank]
      omega
  | halt i =>
      refine nears_each (.stop (.join 0) b) hpc (by rw [stopStep])
        (by simp only [OwnerPc.rank, StopPc.rank]; omega) fun hi hlt => ?_
      refine nears_stop true hpc (.inl rfl) (by rw [stopStep, each_of_lt hi hlt]) ?_
      simp only [goto, OwnerPc.rank, StopPc.rank]
      omega
  | join i =>
      refine nears_each (.stop .clear b) hpc (by rw [stopStep])
        (by simp only [OwnerPc.rank, StopPc.rank]; omega) fun hi hlt => ?_
      exact nears_join hm hi hlt hpc
  | clear =>
      refine nears_stop true hpc (.inl rfl) rfl ?_
      simp [goto, stopEnd, OwnerPc.rank, StopPc.rank]

lemma nears_start {pc : OwnerPc} (hpc : s.host.pc = pc) (hcall : isDone pc = false)
    (hnot : ∀ p b, pc ≠ .stop p b) (hstep : s.startStep cfg true pc = some t)
    (hlt : t.host.pc.rank n < pc.rank n) : s.Nears cfg := by
  refine .of_own (t := t) (.inl rfl) ?_ (by rw [hpc]; exact hlt)
  rw [ownStep, hpc]
  cases pc with
  | done how => cases hcall
  | stop p b => exact absurd rfl (hnot p b)
  | _ => exact hstep

/-- `start()` waits for a control: it comes to listen, or the way leads into the `catch` block. -/
lemma nears_listening (hs : (machine cfg).ReachableUnder Halting s) {pc : OwnerPc}
    {next : Accept → OwnerPc} (hpc : s.host.pc = pc) (hcall : isDone pc = false)
    (hnot : ∀ p b, pc ≠ .stop p b) (hdriven : s.driven i) (hsome : (s.control i).isSome = true)
    (hstep : ∀ u : Server n, u.host = s.host → u.startStep cfg true pc = u.waitListening i next)
    (hnext : ∀ a, (next a).rank n < pc.rank n) (hflag : (OwnerPc.flag 0).rank n < pc.rank n) :
    s.Nears cfg := by
  obtain ⟨u, hlead, hhost, hgoal⟩ := exists_listening hs hdriven hsome
  obtain ⟨a, ha, hwait⟩ := (Option.any_eq_true ..).mp hgoal
  refine .of_wait hlead hhost ?_
  cases hready : a.ready with
  | true =>
      refine nears_start (t := u.goto (next a)) (by rw [hhost, hpc]) hcall hnot ?_ (hnext a)
      rw [hstep u hhost]
      simp [waitListening, ha, hready]
  | false =>
      have hfinished : a.finished = true := by simpa [hready] using hwait
      refine nears_start (t := u.goto (.flag 0)) (by rw [hhost, hpc]) hcall hnot ?_ hflag
      rw [hstep u hhost]
      simp [waitListening, ha, hready, hfinished]

/-- A loop of `start()`: one round of it, or its end. -/
lemma nears_round {pc : OwnerPc} {j bound : ℕ} {body : Fin (n + 1) → Option (Server n)}
    (after : OwnerPc) (hpc : s.host.pc = pc) (hcall : isDone pc = false)
    (hnot : ∀ p b, pc ≠ .stop p b)
    (hloop : s.startStep cfg true pc = s.each j bound body after)
    (hafter : after.rank n < pc.rank n) (hbody : j < n + 1 → j < bound → s.Nears cfg) :
    s.Nears cfg := by
  by_cases hj : j < n + 1 ∧ j < bound
  · exact hbody hj.1 hj.2
  · exact nears_start (t := s.goto after) hpc hcall hnot (hloop.trans (each_of_not hj)) hafter

/-- **`start()` is not stuck.** -/
lemma start_nears (hs : (machine cfg).ReachableUnder Halting s) (hcall : isDone s.host.pc = false)
    (hnot : ∀ p b, s.host.pc ≠ .stop p b) : s.Nears cfg := by
  have hm := manned_of_reachable hs
  have hat := (desk_of_reachable hs.reachable).hosted.here
  have hearly : ∀ r, s.host.pc.hasJoined r = false ∧ s.host.pc.halted r = false := by
    intro r
    cases hpc : s.host.pc with
    | stop p b => exact absurd hpc (hnot p b)
    | _ => exact ⟨rfl, rfl⟩
  cases hpc : s.host.pc with
  | done how => simp [hpc, isDone] at hcall
  | stop p b => exact absurd hpc (hnot p b)
  | guard i =>
      refine nears_round (.claim 0) hpc rfl (by simp) (by rw [startStep])
        (by simp only [OwnerPc.rank]; omega) fun hi hlt => ?_
      refine nears_start hpc rfl (by simp) (by rw [startStep, each_of_lt hi hlt, if_pos rfl]) ?_
      simp only [goto, OwnerPc.rank]
      omega
  | claim i =>
      refine nears_round (.control 0 s.host.requested) hpc rfl (by simp) (by rw [startStep])
        (by simp only [OwnerPc.rank]; omega) fun hi hlt => ?_
      refine nears_start hpc rfl (by simp) (by rw [startStep, each_of_lt hi hlt]) ?_
      simp only [goto, OwnerPc.rank]
      omega
  | thread i =>
      refine nears_round (.control 0 s.host.requested) hpc rfl (by simp) (by rw [startStep])
        (by simp only [OwnerPc.rank]; omega) fun hi hlt => ?_
      refine nears_start hpc rfl (by simp) (by rw [startStep, each_of_lt hi hlt, if_pos rfl]) ?_
      simp only [goto, OwnerPc.rank]
      omega
  | control i port =>
      refine nears_round (.listening 0) hpc rfl (by simp) (by rw [startStep])
        (by simp only [OwnerPc.rank]; omega) fun hi hlt => ?_
      refine nears_start hpc rfl (by simp) (by rw [startStep, each_of_lt hi hlt, if_pos rfl]) ?_
      simp only [goto, OwnerPc.rank]
      omega
  | spawn i port =>
      refine nears_round (.listening 0) hpc rfl (by simp) (by rw [startStep])
        (by simp only [OwnerPc.rank]; omega) fun hi hlt => ?_
      refine nears_start hpc rfl (by simp) (by rw [startStep, each_of_lt hi hlt]) ?_
      simp only [goto, if_true, OwnerPc.rank]
      omega
  | firstPort i port =>
      rw [hpc] at hat
      obtain ⟨haccepts, hlt, -⟩ := hat
      have hbound := cfg.listeners_le n
      have hpos : 0 < s.host.accepts_ := by omega
      by_cases hfirst : port = 0 ∧ cfg.shared n = false
      · have hsome := (hm.controls 0 hpos).resolve_right (by simp [hpc])
        refine nears_listening hs hpc rfl (by simp)
          (driven_of_accepts hm hpos 0 (hearly _).1 (hearly _).2) hsome
          (fun u _ => by rw [startStep, if_pos hfirst]) (fun a => ?_) ?_
        · simp only [OwnerPc.rank]
          omega
        · simp only [OwnerPc.rank]
          omega
      · refine nears_start hpc rfl (by simp) (by rw [startStep, if_neg hfirst]) ?_
        simp only [goto, OwnerPc.rank]
        omega
  | listening i =>
      refine nears_round .setPort hpc rfl (by simp) (by rw [startStep])
        (by simp only [OwnerPc.rank]; omega) fun hi hlt => ?_
      have hsome := (hm.controls ⟨i, hi⟩ hlt).resolve_right (by simp [hpc])
      refine nears_listening hs hpc rfl (by simp)
        (driven_of_accepts hm (Nat.zero_lt_of_lt hlt) ⟨i, hi⟩ (hearly _).1 (hearly _).2) hsome
        (fun u hhost => by rw [startStep, each_of_lt hi (by rw [hhost]; exact hlt)])
        (fun a => ?_) ?_
      · simp only [OwnerPc.rank]
        omega
      · simp only [OwnerPc.rank]
        omega
  | setPort =>
      rw [hpc] at hat
      obtain ⟨a, ha, -⟩ := hat 0 (by simp [Config.listeners]; split <;> omega)
      refine nears_start hpc rfl (by simp) (by rw [startStep, ha]; rfl) ?_
      simp [goto, OwnerPc.rank]
  | flag i =>
      refine nears_round (.poll s.host.threads_) hpc rfl (by simp) (by rw [startStep])
        (by simp only [OwnerPc.rank]; omega) fun hi hlt => ?_
      obtain ⟨a, ha⟩ := Option.isSome_iff_exists.mp
        ((hm.controls ⟨i, hi⟩ hlt).resolve_right (by simp [hpc]))
      obtain ⟨t, ht⟩ := exists_tell cfg .store ha rfl
      refine nears_start (t := t.goto (.flag (i + 1))) hpc rfl (by simp) ?_ ?_
      · rw [startStep, each_of_lt hi hlt, ht]
        rfl
      · simp only [goto, OwnerPc.rank]
        omega
  | poll i =>
      refine nears_round (.stop .test true) hpc rfl (by simp) (by rw [startStep])
        (by simp only [OwnerPc.rank, StopPc.rank]; omega) fun hi hlt => ?_
      refine nears_start hpc rfl (by simp) (by rw [startStep, each_of_lt hi hlt]) ?_
      simp only [goto, OwnerPc.rank]
      omega

/-- **No call of the owner gets stuck.**  From every state of every run in which a thread stays in
`run()` until its loop is stopped, what the library does by itself can bring the owner's call,
`start()` or `stop()`, to its end. -/
theorem calls_can_return (cfg : Config) {s : Server n}
    (hs : (machine cfg).ReachableUnder Halting s) :
    ∃ t, (machine cfg).LeadsUnder Unaided s t ∧ isDone t.host.pc = true := by
  have hprogress : ∀ s : Server n, (machine cfg).ReachableUnder Halting s →
      ¬isDone s.host.pc = true → ∃ t, (machine cfg).LeadsUnder Unaided s t ∧
        (machine cfg).ReachableUnder Halting t ∧ t.host.pc.rank n < s.host.pc.rank n := by
    intro s hs hnot
    have hnears : s.Nears cfg := by
      by_cases hstop : ∃ p b, s.host.pc = .stop p b
      · obtain ⟨p, b, hpc⟩ := hstop
        exact stop_nears hs hpc
      · exact start_nears hs (by simpa using hnot) fun p b hpc => hstop ⟨p, b, hpc⟩
    obtain ⟨t, hlead, hlt⟩ := hnears
    exact ⟨t, hlead, reachable_of_unaided hs hlead, hlt⟩
  obtain ⟨t, hlead, -, hdone⟩ := Machine.exists_leadsUnder_of_measure
    (fun s : Server n => s.host.pc.rank n) hprogress hs
  exact ⟨t, hlead, hdone⟩

/-- `stop()` is called while the accept loop is in the middle of a launch, and waits for the walk of
a loop that has not begun it. -/
def launchAndStopRun : List (Act 0) :=
  [.mint 0, .conn 0 .launch, .callStop, .own true, .own true]

/-- From there `stop()` can return. -/
theorem calls_can_return_at_launchAndStopRun :
    ∃ s : Server 0, (machine oneAtATime).ReachableUnder Halting s ∧
      (s.host.pc = .stop (.awaitAbort 0) false ∧ s.sessions.hand 0 = .launching 0 ∧
        s.walkOver 0 .abort = false) ∧
      ∃ t, (machine oneAtATime).LeadsUnder Unaided s t ∧ isDone t.host.pc = true := by
  obtain ⟨s, hs, htest⟩ := (machine oneAtATime).exists_reachableUnder_of_run
    (fun s act => match act with
      | .leave r => s.host.pc.halted r.val
      | _ => true)
    (fun s act h => show Halting s act by rintro r rfl; exact h)
    (startRun ++ listenRun ++ startedRun ++ admitRun ++ launchAndStopRun)
    (fun s => decide (s.host.pc = .stop (.awaitAbort 0) false ∧ s.sessions.hand 0 = .launching 0 ∧
      s.walkOver 0 .abort = false)) (by decide +kernel)
  exact ⟨s, hs, of_decide_eq_true htest, calls_can_return oneAtATime hs⟩

end Server

end ReactorRuntime
