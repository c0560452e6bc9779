import ReactorRuntime.Server.Shutdown
import ReactorRuntime.Server.Startup

/-!
# The teardown phases of the server

`close()` and `destroy_roots()` (`reactor.h:729-740`) are the phases after `stop()`.  Each runs the
earlier ones first, so `destroy_roots()` is `stop()`, then `close()` of every scheduler, then
`destroy_roots()` of every scheduler, and the destructor is a call of `destroy_roots()`.

A scheduler may be asked to destroy the tasks that are still suspended on it, its roots, only
when its `io_context` is stopped and no thread is in `run()`.  The machine of this file adds to the
server what that is about: which `io_context`s are stopped, which schedulers are closed, how many
tasks the host has live on each, and the two later phases statement by statement.  A task spawned
on a closed scheduler is destroyed unrun.

`run()` returns when its `io_context` is stopped or has nothing left to do, and the latter stops it
too; so a thread that has left `run()` leaves a stopped `io_context` behind.
-/

namespace ReactorRuntime

/-- Where the owner stands in `close()` and `destroy_roots()`. -/
inductive Phase
  /-- In neither. -/
  | idle
  /-- In the call of `stop()`; `roots` says whether `destroy_roots()` has called `close()`. -/
  | stopping (roots : Bool)
  /-- Before `scheduler().close()` of reactor `i`. -/
  | closing (i : ℕ) (roots : Bool)
  /-- Before `scheduler().destroy_roots()` of reactor `i`. -/
  | destroying (i : ℕ)
  deriving DecidableEq, Repr

/-- The owner has been through `stop()`. -/
def Phase.afterStop : Phase → Bool
  | .closing _ _ => true
  | .destroying _ => true
  | _ => false

/-- A server with `n + 1` reactors, and the teardown of their schedulers. -/
structure Phased (n : ℕ) where
  server : Server n
  /-- `io().stopped()` -/
  halted : Fin (n + 1) → Bool
  /-- `scheduler().closed()` -/
  closed : Fin (n + 1) → Bool
  /-- The number of the host's tasks that are live on each scheduler. -/
  tasks : Fin (n + 1) → ℕ
  phase : Phase

namespace Phased

variable {n : ℕ}

/-- What can happen next. -/
inductive Act (n : ℕ)
  /-- What the server does. -/
  | server (act : Server.Act n)
  /-- The owner calls `close()`. -/
  | callClose
  /-- The owner calls `destroy_roots()`, or destroys the server. -/
  | callDestroyRoots
  /-- The owner executes its next statement of `close()` or `destroy_roots()`. -/
  | phase
  /-- The host spawns a task on the scheduler of reactor `r`. -/
  | spawn (r : Fin (n + 1))
  /-- A task of the host on reactor `r` ends. -/
  | finish (r : Fin (n + 1))
  deriving DecidableEq

def initial : Phased n where
  server := .initial
  halted _ := false
  closed _ := false
  tasks _ := 0
  phase := .idle

/-- The `io_context`s that are stopped after an action of the server: `io().stop()` in `stop()`
stops one, and a thread that leaves `run()` has found its own stopped. -/
def haltedBy (s : Server n) (halted : Fin (n + 1) → Bool) : Server.Act n → Fin (n + 1) → Bool
  | .own _ =>
      match s.host.pc with
      | .stop (.halt i) _ => if h : i < n + 1 then Function.update halted ⟨i, h⟩ true else halted
      | _ => halted
  | .leave r => Function.update halted r true
  | _ => halted

/-- The action begins a call of the owner. -/
def isCall : Server.Act n → Bool
  | .callStart _ => true
  | .callStop => true
  | _ => false

/-- The owner calls `close()`, from `destroy_roots()` or not, and that calls `stop()`. -/
def callClose (roots : Bool) (s : Phased n) : Option (Phased n) :=
  if s.phase = .idle ∧ Server.isDone s.server.host.pc = true then
    some { s with server := s.server.goto (.stop .test false), phase := .stopping roots }
  else none

/-- The next statement of `close()` or `destroy_roots()`. -/
def phaseStep (s : Phased n) : Option (Phased n) :=
  match s.phase with
  | .idle => none
  | .stopping roots =>
      match s.server.host.pc with
      | .done .stopped => some { s with phase := .closing 0 roots }
      -- what `stop()` throws, `close()` throws
      | .done .stopThrew => some { s with phase := .idle }
      | _ => none
  | .closing i roots =>
      if h : i < n + 1 then
        some { s with
          closed := Function.update s.closed ⟨i, h⟩ true
          phase := .closing (i + 1) roots }
      else some { s with phase := if roots then .destroying 0 else .idle }
  | .destroying i =>
      if h : i < n + 1 then
        some { s with
          tasks := Function.update s.tasks ⟨i, h⟩ 0
          phase := .destroying (i + 1) }
      else some { s with phase := .idle }

/-- One action. -/
def step (cfg : Config) (s : Phased n) : Act n → Option (Phased n)
  | .server act =>
      if isCall act = false ∨ s.phase = .idle then
        (s.server.step cfg act).map fun t =>
          { s with server := t, halted := haltedBy s.server s.halted act }
      else none
  | .callClose => s.callClose false
  | .callDestroyRoots => s.callClose true
  | .phase => s.phaseStep
  | .spawn r =>
      some { s with
        tasks := if s.closed r then s.tasks else Function.update s.tasks r (s.tasks r + 1) }
  | .finish r =>
      if s.server.driven r ∧ 0 < s.tasks r then
        some { s with tasks := Function.update s.tasks r (s.tasks r - 1) }
      else none

/-- The server and its teardown as a machine. -/
def machine (cfg : Config) : Machine (Phased n) (Act n) where
  init := initial
  step := step cfg

/-! ## A stop that has returned -/

/-- What `stop()` has stopped. -/
def HaltedAt (halted : Fin (n + 1) → Bool) : StopPc → Prop
  | .halt i => ∀ r, r.val < i → halted r = true
  | .join _ => ∀ r, halted r = true
  | .clear => ∀ r, halted r = true
  | _ => True

/-- No thread is in `run()` of reactor `r`, and its `io_context` is stopped. -/
def Still (s : Phased n) (r : Fin (n + 1)) : Prop :=
  s.server.host.loops_ r = 0 ∧ s.halted r = true

/-- What holds in every run in which no post of `stop()` throws. -/
structure Settled (cfg : Config) (s : Phased n) : Prop where
  hosted : Server.Hosted cfg True s.server.host s.server.control
  halting : ∀ p b, s.server.host.pc = .stop p b → HaltedAt s.halted p
  /-- Once `stop()` was called and is not under way, every loop is still. -/
  still : s.server.host.stopped_ = true → s.server.host.pc.inStop = true ∨ ∀ r, s.Still r
  stopping : ∀ roots, s.phase = .stopping roots → (∃ p, s.server.host.pc = .stop p false) ∨
    Server.isDone s.server.host.pc = true ∧ s.server.host.stopped_ = true
  stopped : s.phase.afterStop = true →
    Server.isDone s.server.host.pc = true ∧ s.server.host.stopped_ = true
  closed : ∀ r, s.closed r = true → s.server.host.stopped_ = true

lemma haltedBy_of_not_host {s : Server n} {halted : Fin (n + 1) → Bool} {act : Server.Act n}
    (hact : Server.isHost act = false) : haltedBy s halted act = halted := by
  cases act with
  | own ok => cases hact
  | leave r => cases hact
  | _ => rfl

/-- `stop()` goes on: it has stopped what it must have stopped at the next statement. -/
lemma HaltedAt.next {s : Server n} {halted : Fin (n + 1) → Bool} {p p' : StopPc} {b : Bool}
    (h : HaltedAt halted p) (hpc : s.host.pc = .stop p b) (hnext : Server.Next n p p')
    (ok : Bool) : HaltedAt (haltedBy s halted (.own ok)) p' := by
  cases hnext with
  | clearGuards => exact fun r hr => absurd hr (Nat.not_lt_zero _)
  | @halt i more =>
      intro r hr
      simp only [haltedBy, hpc, more, dif_pos]
      by_cases heq : r = ⟨i, more⟩
      · simp [heq]
      · have hne : r.val ≠ i := fun hv => heq (Fin.ext hv)
        rw [Function.update_of_ne heq]
        exact h r (by omega)
  | @halted i all =>
      intro r
      have hnot : ¬i < n + 1 := by omega
      simp only [haltedBy, hpc, hnot, dif_neg, not_false_eq_true]
      exact h r (by omega)
  | join =>
      intro r
      simp only [haltedBy, hpc]
      exact h r
  | joined =>
      intro r
      simp only [haltedBy, hpc]
      exact h r
  | _ => trivial

lemma inStop_of_next {p p' : StopPc} (hnext : Server.Next n p p') (b : Bool) :
    (OwnerPc.stop p' b).inStop = true := by
  cases hnext <;> rfl

namespace Settled

variable {cfg : Config} {s s' : Phased n}

lemma initial : Settled cfg (Phased.initial : Phased n) where
  hosted := .initial
  halting p b hpc := by cases hpc
  still h := by cases h
  stopping roots h := by cases h
  stopped h := by cases h
  closed r h := by cases h

lemma beside (h : Settled cfg s) {t : Server n} (hhost : t.host = s.server.host)
    (hosted : Server.Hosted cfg True t.host t.control) : Settled cfg { s with server := t } where
  hosted := hosted
  halting p b hpc := h.halting p b (hhost ▸ hpc)
  still hstopped := by
    unfold Still
    rw [hhost] at hstopped ⊢
    exact h.still hstopped
  stopping roots hphase := by
    rw [hhost]
    exact h.stopping roots hphase
  stopped hphase := by
    rw [hhost]
    exact h.stopped hphase
  closed r hr := by
    rw [hhost]
    exact h.closed r hr

/-- A statement of `start()`: nothing was stopped, closed or destroyed. -/
lemma starting (h : Settled cfg s) {t : Server n} {halted : Fin (n + 1) → Bool}
    (hpc : s.server.host.pc.isStarting = true) (hnot : ∀ p b, s.server.host.pc ≠ .stop p b)
    (hstopped : t.host.stopped_ = false) (hosted : Server.Hosted cfg True t.host t.control)
    (hhalting : ∀ p b, t.host.pc = .stop p b → p = .test) :
    Settled cfg { s with server := t, halted := halted } := by
  have hfalse := (h.hosted.starting hpc).2
  have hbusy : Server.isDone s.server.host.pc = false := by
    cases hp : s.server.host.pc <;> first | rfl | simp [hp, OwnerPc.isStarting] at hpc
  refine ⟨hosted, fun p b hp => ?_, fun hs => ?_, fun roots hphase => ?_, fun hphase => ?_,
    fun r hr => ?_⟩
  · rw [hhalting p b hp]
    trivial
  · rw [hstopped] at hs
    cases hs
  · rcases h.stopping roots hphase with ⟨p, hp⟩ | ⟨hdone, -⟩
    · exact absurd hp (hnot p false)
    · rw [hbusy] at hdone
      cases hdone
  · have hdone := (h.stopped hphase).1
    rw [hbusy] at hdone
    cases hdone
  · have hs := h.closed r hr
    rw [hfalse] at hs
    cases hs

/-- `stop()` goes on to its next statement, or returns. -/
lemma of_stopStep (h : Settled cfg s) {p : StopPc} {b ok : Bool} {t : Server n}
    (hpc : s.server.host.pc = .stop p b) (hstep : s.server.stopStep cfg ok b p = some t)
    (hosted : Server.Hosted cfg True t.host t.control) :
    Settled cfg { s with server := t, halted := haltedBy s.server s.halted (.own ok) } := by
  have hup := Server.Upkeep.of_stopStep hpc hstep
  have hkept : s.server.host.stopped_ = true → t.host.stopped_ = true := by
    intro hs
    rcases hup.stopped with heq | ⟨hset, -⟩
    · exact heq.trans hs
    · exact hset
  have hnotAfter : s.phase.afterStop = false := by
    by_contra hafter
    have hdone := (h.stopped (by simpa using hafter)).1
    rw [hpc] at hdone
    cases hdone
  have hwhose : ∀ roots, s.phase = .stopping roots → b = false := by
    intro roots hphase
    rcases h.stopping roots hphase with ⟨q, hq⟩ | ⟨hdone, -⟩
    · rw [hpc] at hq
      cases hq
      rfl
    · rw [hpc] at hdone
      cases hdone
  rcases Server.next_of_stopStep hstep with ⟨p', hpc', hnext⟩ | ⟨hpc', hend⟩
  · refine ⟨hosted, fun q c hq => ?_, fun _ => .inl ?_, fun roots hphase => .inl ⟨p', ?_⟩,
      fun hphase => absurd hphase (by simp [hnotAfter]), fun r hr => hkept (h.closed r hr)⟩
    · obtain ⟨rfl, rfl⟩ : p' = q ∧ b = c := by simpa [hpc'] using hq
      exact (h.halting p b hpc).next hpc hnext ok
    · rw [hpc']
      exact inStop_of_next hnext b
    · rw [hpc', hwhose roots hphase]
  · -- it returns, and every loop is still
    have hstill : t.host.stopped_ = true ∧ ∀ r, t.host.loops_ r = 0 ∧
        haltedBy s.server s.halted (.own ok) r = true := by
      rcases hend with rfl | ⟨rfl, hstopped, rfl⟩
      · have hs := h.hosted.stopping (by rw [hpc]; rfl)
        refine ⟨hkept hs, fun r => ⟨?_, ?_⟩⟩
        · have hat := h.hosted.here
          rw [hpc] at hat
          cases hstep
          have hgone := hat.2.2 r
          have hclaimed : s.server.host.thread r ≠ .claimed := fun hc => by
            simpa [hpc] using h.hosted.claimed r hc
          show s.server.host.loops_ r = 0
          rw [h.hosted.loops r, if_neg]
          exact fun hor => hor.elim hclaimed hgone.1
        · simp only [haltedBy, hpc]
          exact h.halting _ b hpc r
      · refine ⟨hstopped, fun r => ?_⟩
        simp only [haltedBy, hpc]
        rcases h.still hstopped with hin | hstill
        · rw [hpc] at hin
          cases hin
        · exact hstill r
    refine ⟨hosted, fun q c hq => ?_, fun _ => .inr hstill.2,
      fun roots hphase => .inr ⟨?_, hstill.1⟩, fun hphase => absurd hphase (by simp [hnotAfter]),
      fun r _ => hstill.1⟩
    · rw [hpc'] at hq
      cases hq
    · rw [hpc']
      rfl

lemma of_own (h : Settled cfg s) {ok : Bool} {t : Server n}
    (hstep : s.server.step cfg (.own ok) = some t)
    (hosted : Server.Hosted cfg True t.host t.control) :
    Settled cfg { s with server := t, halted := haltedBy s.server s.halted (.own ok) } := by
  have hup : Server.Upkeep cfg s.server t := .of_own hstep
  simp only [Server.step, Server.ownStep] at hstep
  split at hstep
  · cases hstep
  · next p b hpc => exact h.of_stopStep hpc hstep hosted
  · next hdone hstop =>
      have hpc : s.server.host.pc.isStarting = true := by
        cases hp : s.server.host.pc with
        | done how => exact absurd hp (hdone how)
        | stop p b => exact absurd hp (hstop p b)
        | _ => rfl
      have hfalse := (h.hosted.starting hpc).2
      refine h.starting hpc (fun p b => hstop p b) ?_ hosted ?_
      · rcases hup.stopped with heq | ⟨-, b, hb⟩
        · exact heq.trans hfalse
        · exact absurd hb (hstop _ _)
      · exact fun p b => Server.test_of_startStep hstep p b

lemma of_leave (h : Settled cfg s) {r : Fin (n + 1)} {t : Server n}
    (hstep : s.server.step cfg (.leave r) = some t)
    (hosted : Server.Hosted cfg True t.host t.control) :
    Settled cfg { s with server := t, halted := Function.update s.halted r true } := by
  obtain ⟨hrunning, hstep⟩ := Option.ite_none_right_eq_some.mp hstep
  cases hstep
  have hgrows : ∀ q, s.halted q = true → Function.update s.halted r true q = true := by
    intro q hq
    by_cases heq : q = r
    · simp [heq]
    · simpa [heq] using hq
  refine ⟨hosted, fun p b hpc => ?_, fun hs => ?_, h.stopping, h.stopped, h.closed⟩
  · have hat := h.halting p b hpc
    cases p with
    | halt i => exact fun q hq => hgrows q (hat q hq)
    | join i => exact fun q => hgrows q (hat q)
    | clear => exact fun q => hgrows q (hat q)
    | _ => trivial
  · refine (h.still hs).imp id fun hstill => ?_
    -- a loop that is still has no thread to leave it
    have hzero := (hstill r).1
    rw [h.hosted.loops r, hrunning] at hzero
    simp at hzero

/-- Between calls of a server that was stopped, every loop is still. -/
lemma still_of_done (h : Settled cfg s) (hdone : Server.isDone s.server.host.pc = true)
    (hstopped : s.server.host.stopped_ = true) (r : Fin (n + 1)) : s.Still r := by
  refine (h.still hstopped).resolve_left (fun hin => ?_) r
  cases hp : s.server.host.pc with
  | done outcome => simp [hp, OwnerPc.inStop] at hin
  | _ => simp [hp, Server.isDone] at hdone

/-- Between calls the owner goes to the first statement of `stop()`, or comes back from a call that
was refused. -/
lemma call (h : Settled cfg s) {pc : OwnerPc} {phase : Phase}
    (hdone : Server.isDone s.server.host.pc = true)
    (hpc : pc = .stop .test false ∨ pc = .done .refused)
    (hphase : phase = .idle ∨ ∃ roots, phase = .stopping roots ∧ pc = .stop .test false)
    (hosted : Server.Hosted cfg True (s.server.goto pc).host s.server.control) :
    Settled cfg { s with server := s.server.goto pc, phase := phase } where
  hosted := hosted
  halting p b hp := by
    rcases hpc with rfl | rfl
    · cases hp
      trivial
    · cases hp
  still hs := .inr (h.still_of_done hdone hs)
  stopping roots hr := by
    rcases hphase with rfl | ⟨_, -, rfl⟩
    · cases hr
    · exact .inl ⟨.test, rfl⟩
  stopped hr := by
    rcases hphase with rfl | ⟨_, rfl, -⟩ <;> cases hr
  closed r hr := h.closed r hr

lemma begin_ (h : Settled cfg s) {t : Server n} (hstopped : s.server.host.stopped_ = false)
    (hpc : t.host.pc = .guard 0) (hkept : t.host.stopped_ = s.server.host.stopped_)
    (hidle : s.phase = .idle) (hosted : Server.Hosted cfg True t.host t.control) :
    Settled cfg { s with server := t } := by
  refine ⟨hosted, fun p b hp => ?_, fun hs => ?_, fun roots hr => ?_, fun hr => ?_, fun r hr => ?_⟩
  · rw [hpc] at hp
    cases hp
  · rw [hkept, hstopped] at hs
    cases hs
  · rw [hidle] at hr
    cases hr
  · rw [hidle] at hr
    cases hr
  · have hs := h.closed r hr
    rw [hstopped] at hs
    cases hs

lemma of_server (h : Settled cfg s) {act : Server.Act n} {t : Server n} (hact : act ≠ .postFails)
    (hcall : isCall act = false ∨ s.phase = .idle) (hstep : s.server.step cfg act = some t) :
    Settled cfg { s with server := t, halted := haltedBy s.server s.halted act } := by
  have hosted := h.hosted.step (fun _ => hact) hstep
  cases hhost : Server.isHost act with
  | false =>
      rw [haltedBy_of_not_host hhost]
      exact h.beside (Server.beside_of_step hhost hstep).host hosted
  | true =>
      cases act with
      | callStart port =>
          obtain ⟨hdone, hstep⟩ := Option.ite_none_right_eq_some.mp hstep
          have hidle : s.phase = .idle := hcall.resolve_left (by simp [isCall])
          cases hstep
          unfold Server.callStart at hosted ⊢
          split
          · next hflags =>
              rw [if_pos hflags] at hosted
              exact h.call hdone (.inr rfl) (.inl hidle) hosted
          · next hflags =>
              rw [if_neg hflags] at hosted
              have hstopped : s.server.host.stopped_ = false := by simp_all
              exact h.begin_ hstopped rfl rfl hidle hosted
      | callStop =>
          obtain ⟨hdone, hstep⟩ := Option.ite_none_right_eq_some.mp hstep
          have hidle : s.phase = .idle := hcall.resolve_left (by simp [isCall])
          cases hstep
          exact h.call hdone (.inl rfl) (.inl hidle) hosted
      | own ok => exact h.of_own hstep hosted
      | postFails => exact absurd rfl hact
      | leave r => exact h.of_leave hstep hosted
      | _ => cases hhost

lemma rephase (h : Settled cfg s) {phase : Phase} {closed : Fin (n + 1) → Bool}
    {tasks : Fin (n + 1) → ℕ} (hstopping : ∀ roots, phase ≠ .stopping roots)
    (hafter : phase.afterStop = true →
      Server.isDone s.server.host.pc = true ∧ s.server.host.stopped_ = true)
    (hclosed : ∀ r, closed r = true → s.server.host.stopped_ = true) :
    Settled cfg { s with phase := phase, closed := closed, tasks := tasks } :=
  ⟨h.hosted, h.halting, h.still, fun roots hr => absurd hr (hstopping roots), hafter, hclosed⟩

/-- The owner goes on with `close()` or `destroy_roots()`. -/
lemma of_phase (h : Settled cfg s) (hstep : s.phaseStep = some s') : Settled cfg s' := by
  unfold phaseStep at hstep
  split at hstep
  · cases hstep
  · next roots hphase =>
      split at hstep
      · next hpc =>
          cases hstep
          refine h.rephase (by simp) (fun _ => ?_) h.closed
          rcases h.stopping roots hphase with ⟨p, hp⟩ | hdone
          · rw [hpc] at hp
            cases hp
          · exact hdone
      · cases hstep
        exact h.rephase (by simp) (fun hr => by cases hr) h.closed
      · cases hstep
  · next i roots hphase =>
      have hafter := h.stopped (by rw [hphase]; rfl)
      split at hstep <;> cases hstep
      · exact h.rephase (by simp) (fun _ => hafter) fun _ _ => hafter.2
      · exact h.rephase (by cases roots <;> simp) (fun _ => hafter) h.closed
  · next i hphase =>
      have hafter := h.stopped (by rw [hphase]; rfl)
      split at hstep <;> cases hstep
      · exact h.rephase (by simp) (fun _ => hafter) h.closed
      · exact h.rephase (by simp) (fun _ => hafter) h.closed

lemma step (h : Settled cfg s) {act : Act n} (hact : act ≠ .server .postFails)
    (hstep : (machine cfg).step s act = some s') : Settled cfg s' := by
  have close : ∀ roots, s.callClose roots = some s' → Settled cfg s' := by
    intro roots hclose
    obtain ⟨⟨-, hdone⟩, hclose⟩ := Option.ite_none_right_eq_some.mp hclose
    cases hclose
    exact h.call hdone (.inl rfl) (.inr ⟨roots, rfl, rfl⟩) (h.hosted.callStop hdone)
  cases act with
  | server act =>
      obtain ⟨hcall, hstep⟩ := Option.ite_none_right_eq_some.mp hstep
      obtain ⟨t, ht, rfl⟩ := Option.map_eq_some_iff.mp hstep
      exact h.of_server (fun heq => hact (by rw [heq])) hcall ht
  | callClose => exact close false hstep
  | callDestroyRoots => exact close true hstep
  | phase => exact h.of_phase hstep
  | spawn r =>
      cases hstep
      exact ⟨h.hosted, h.halting, h.still, h.stopping, h.stopped, h.closed⟩
  | finish r =>
      obtain ⟨-, hstep⟩ := Option.ite_none_right_eq_some.mp hstep
      cases hstep
      exact ⟨h.hosted, h.halting, h.still, h.stopping, h.stopped, h.closed⟩

end Settled

lemma settled_of_reachable {cfg : Config} {s : Phased n}
    (hs : (machine cfg).ReachableUnder (fun _ act => act ≠ .server .postFails) s) :
    Settled cfg s :=
  hs.invariant (I := Settled cfg) .initial fun _ _ _ h hok hstep => h.step hok hstep

/-- **Past `stop()`, every loop is still.** -/
theorem still_of_afterStop {cfg : Config} {s : Phased n}
    (hs : (machine cfg).ReachableUnder (fun _ act => act ≠ .server .postFails) s)
    (hphase : s.phase.afterStop = true) (r : Fin (n + 1)) : s.Still r := by
  have h := settled_of_reachable hs
  obtain ⟨hdone, hstopped⟩ := h.stopped hphase
  exact h.still_of_done hdone hstopped r

end Phased

end ReactorRuntime
