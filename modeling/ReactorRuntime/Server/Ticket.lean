import Mathlib.Data.Fintype.Basic
import ReactorRuntime.Library.Census

/-!
# One connection and its ticket

A `SessionTicket` (`reactor.h:359-371`) is a place in its reactor's session count and,
where live connections are bounded, a lease of `ConnectionAdmission`.  It is made by the accept loop
and moved along: into the parameter of `launch_session`, from there either straight into the
parameter of `run_session` and its frame, or first into a handler that is posted to the
connection's own loop, which calls `launch_session` again.  Each of those is an object of its own,
and a move leaves the object moved from behind, to be destroyed when its scope ends.

This file follows the objects of one connection from the accept to the end, through every statement
that can throw and every place where teardown can destroy a handler or a frame unrun.  What
the connection does to the counters is in `Server/Sessions.lean`.
-/

namespace ReactorRuntime

/-- A reactor by its number.  There is always a first one, so a numeral carries no proof that there
is. -/
instance reactorNumber (n k : ℕ) : OfNat (Fin (n + 1)) k := ⟨Fin.ofNat (n + 1) k⟩

/-- The objects a connection's ticket is moved through. -/
inductive Hop
  /-- The parameter of `launch_session`, called by the accept loop. -/
  | arg
  /-- The capture of the posted handler. -/
  | handler
  /-- The parameter of `launch_session`, called by the handler. -/
  | relaunch
  /-- The parameter of `run_session` on the caller's side. -/
  | call
  /-- The parameter of `run_session` in its frame. -/
  | frame
  deriving DecidableEq, Repr

instance : Fintype Hop :=
  ⟨{.arg, .handler, .relaunch, .call, .frame}, fun h => by cases h <;> decide⟩

/-- `SessionTicket`, of a server with `n + 1` reactors. -/
structure Ticket (n : ℕ) where
  /-- `Reactor* reactor`, null once moved from. -/
  reactor : Option (Fin (n + 1))
  /-- `admission` holds a lease. -/
  admission : Bool
  deriving DecidableEq, Repr

/-- What a move leaves behind. -/
def Ticket.movedFrom {n : ℕ} : Ticket n := ⟨none, false⟩

/-- How far a connection has come. -/
inductive ConnStage
  /-- `launch_session`, before its test; the hop is its parameter. -/
  | launching (h : Hop)
  /-- The handler is made; before `asio::post`. -/
  | captured
  /-- The handler is queued on the connection's own loop. -/
  | posted
  /-- `run_session` is called; before its frame is allocated. -/
  | called (h : Hop)
  /-- The frame is made; before `task::spawn` has taken it. -/
  | framed (h : Hop)
  /-- The frame is queued on the loop's scheduler. -/
  | spawned
  /-- The loop runs `run_session` up to `if (control.aborted.load())`. -/
  | starting
  /-- The session's body has been called. -/
  | running
  /-- `run_session` is at its end; its control is destroyed next. -/
  | ending
  /-- `~SessionTicket` of the object at the hop, before `admission.reset()`. -/
  | dying (h : Hop)
  /-- `~SessionTicket`, before `reactor->session_finished()`. -/
  | leaving (h : Hop)
  | ended
  deriving DecidableEq, Repr

namespace ConnStage

/-- The object that holds the connection's place. -/
def owner : ConnStage → Option Hop
  | .launching h => some h
  | .captured => some .handler
  | .posted => some .handler
  | .called _ => some .call
  | .framed _ => some .frame
  | .spawned => some .frame
  | .starting => some .frame
  | .running => some .frame
  | .ending => some .frame
  | .dying h => some h
  | .leaving h => some h
  | .ended => none

/-- No call of `launch_session` is under way: the other objects have been destroyed. -/
def alone : ConnStage → Bool
  | .launching _ => false
  | .captured => false
  | .called _ => false
  | .framed _ => false
  | _ => true

/-- The parameter of the call of `launch_session` that is under way. -/
def param : ConnStage → Option Hop
  | .launching h => some h
  | .called h => some h
  | .framed h => some h
  | _ => none

end ConnStage

/-- One connection. -/
structure Conn (n : ℕ) where
  /-- The reactor it is for. -/
  home : Fin (n + 1)
  /-- The accept loop that is in its call of `launch_session` for it. -/
  via : Option (Fin (n + 1))
  stage : ConnStage
  /-- The ticket objects that exist. -/
  ticket : Hop → Option (Ticket n)
  /-- `SessionControl::aborted` -/
  aborted : Bool
  /-- The calls of `stop.request(task::cancel_reason::shutdown)`. -/
  requests : ℕ
  /-- A record: the body was called. -/
  invoked : Bool
  /-- A record: `socket.close(error)` was called in place of the body. -/
  closed : Bool
  /-- A record, made when the control is destroyed: the abort walk had passed it. -/
  passed : Option Bool

namespace Conn

variable {n : ℕ}

/-- No connection yet. -/
def unborn : Conn n where
  home := 0
  via := none
  stage := .ended
  ticket _ := none
  aborted := false
  requests := 0
  invoked := false
  closed := false
  passed := none

/-- Accept loop `j` makes the ticket of a connection for reactor `home`, in the parameter of
`launch_session`. -/
def fresh (j home : Fin (n + 1)) (admission : Bool) : Conn n :=
  { (unborn : Conn n) with
    home := home
    via := some j
    stage := .launching .arg
    ticket := Function.update (fun _ => none) .arg (some ⟨some home, admission⟩) }

/-- `SessionTicket(SessionTicket&&)` from the object at `a` to one at `b`. -/
def moveTicket (a b : Hop) (k : Conn n) : Conn n :=
  { k with
    ticket := Function.update
      (Function.update k.ticket a ((k.ticket a).map fun _ => .movedFrom)) b (k.ticket a) }

/-- Every object but the one at `h` is destroyed. -/
def keepOnly (h : Hop) (k : Conn n) : Conn n :=
  { k with ticket := fun h' => if h' = h then k.ticket h else none }

/-- What can happen to a connection. -/
inductive Act
  /-- `launch_session` tests where it is and moves the ticket on. -/
  | launch
  /-- `asio::post`, which may throw. -/
  | post (ok : Bool)
  /-- The connection's own loop runs the handler. -/
  | take
  /-- The frame of `run_session` is allocated, or `std::bad_alloc`. -/
  | frame (ok : Bool)
  /-- `task::spawn`, which may throw. -/
  | spawn (ok : Bool)
  /-- The loop starts the frame. -/
  | start
  /-- `control.abort()` -/
  | abort
  /-- `if (control.aborted.load())`: the socket is closed if it is set, and the body called if it is
  not. -/
  | check
  /-- The body returns, throws or is cancelled, or the suspended frame is destroyed. -/
  | finish
  /-- `~SessionControl` -/
  | unwind (passed : Bool)
  /-- The posted handler or the spawned frame is destroyed unrun. -/
  | drop
  /-- `admission.reset()` in `~SessionTicket`. -/
  | reset
  /-- `reactor->session_finished()` in `~SessionTicket`, and the end of the object. -/
  | leave
  deriving DecidableEq, Repr

/-- The loop that runs `launch_session`: the accept loop's, or the connection's own when the handler
calls. -/
def site (k : Conn n) : Fin (n + 1) := k.via.getD k.home

/-- The connection dies where it is: only the object at `h`, whose destructor is next, is left. -/
def abandon (h : Hop) (k : Conn n) : Conn n :=
  { k.keepOnly h with via := none, stage := .dying h }

/-- One action. -/
def step (k : Conn n) (act : Act) : Option (Conn n) :=
  match act, k.stage with
  | .launch, .launching h =>
      -- `inside_run() && !reactor.on_loop()`: both callers are inside a loop's `run()`
      if k.site = k.home then some { k.moveTicket h .call with stage := .called h }
      else some { k.moveTicket h .handler with stage := .captured }
  | .post ok, .captured =>
      if ok then some { k.keepOnly .handler with via := none, stage := .posted }
      else some (k.abandon .handler)
  | .take, .posted =>
      some { k.moveTicket .handler .relaunch with stage := .launching .relaunch }
  | .frame ok, .called h =>
      if ok then some { k.moveTicket .call .frame with stage := .framed h }
      else some (k.abandon .call)
  | .spawn ok, .framed _ =>
      if ok then some { k.keepOnly .frame with via := none, stage := .spawned }
      else some (k.abandon .frame)
  | .start, .spawned => some { k with stage := .starting }
  | .abort, _ => some { k with aborted := true, requests := k.requests + 1 }
  | .check, .starting =>
      if k.aborted then some { k with stage := .ending, closed := true }
      else some { k with stage := .running, invoked := true }
  | .finish, .running => some { k with stage := .ending }
  | .unwind passed, .ending => some { k with passed := some passed, stage := .dying .frame }
  | .drop, .posted => some (k.abandon .handler)
  | .drop, .spawned => some (k.abandon .frame)
  | .reset, .dying h =>
      some { k with
        ticket := Function.update k.ticket h
          ((k.ticket h).map fun t => { t with admission := false })
        stage := .leaving h }
  | .leave, .leaving h =>
      some { k with ticket := Function.update k.ticket h none, stage := .ended }
  | _, _ => none

/-! ## What an action can do -/

section

variable {k k' : Conn n}

/-- The actions one by one, with the stage each belongs to. -/
inductive Move (k : Conn n) : Act → Conn n → Prop
  | launchHere {h : Hop} (hst : k.stage = .launching h) (hsite : k.site = k.home) :
      Move k .launch { k.moveTicket h .call with stage := .called h }
  | launchAway {h : Hop} (hst : k.stage = .launching h) (hsite : k.site ≠ k.home) :
      Move k .launch { k.moveTicket h .handler with stage := .captured }
  | post (hst : k.stage = .captured) :
      Move k (.post true) { k.keepOnly .handler with via := none, stage := .posted }
  | postFails (hst : k.stage = .captured) : Move k (.post false) (k.abandon .handler)
  | take (hst : k.stage = .posted) :
      Move k .take { k.moveTicket .handler .relaunch with stage := .launching .relaunch }
  | frame {h : Hop} (hst : k.stage = .called h) :
      Move k (.frame true) { k.moveTicket .call .frame with stage := .framed h }
  | frameFails {h : Hop} (hst : k.stage = .called h) : Move k (.frame false) (k.abandon .call)
  | spawn {h : Hop} (hst : k.stage = .framed h) :
      Move k (.spawn true) { k.keepOnly .frame with via := none, stage := .spawned }
  | spawnFails {h : Hop} (hst : k.stage = .framed h) : Move k (.spawn false) (k.abandon .frame)
  | start (hst : k.stage = .spawned) : Move k .start { k with stage := .starting }
  | abort : Move k .abort { k with aborted := true, requests := k.requests + 1 }
  | checkAborted (hst : k.stage = .starting) (haborted : k.aborted = true) :
      Move k .check { k with stage := .ending, closed := true }
  | checkRuns (hst : k.stage = .starting) (haborted : k.aborted = false) :
      Move k .check { k with stage := .running, invoked := true }
  | finish (hst : k.stage = .running) : Move k .finish { k with stage := .ending }
  | unwind {passed : Bool} (hst : k.stage = .ending) :
      Move k (.unwind passed) { k with passed := some passed, stage := .dying .frame }
  | dropHandler (hst : k.stage = .posted) : Move k .drop (k.abandon .handler)
  | dropFrame (hst : k.stage = .spawned) : Move k .drop (k.abandon .frame)
  | reset {h : Hop} (hst : k.stage = .dying h) :
      Move k .reset
        { k with
          ticket := Function.update k.ticket h
            ((k.ticket h).map fun t => { t with admission := false })
          stage := .leaving h }
  | leave {h : Hop} (hst : k.stage = .leaving h) :
      Move k .leave { k with ticket := Function.update k.ticket h none, stage := .ended }

lemma move_of_step {act : Act} (hstep : k.step act = some k') : Move k act k' := by
  unfold step at hstep
  split at hstep
  case h_1 hop hst =>
    split at hstep <;> cases hstep
    · exact .launchHere hst ‹_›
    · exact .launchAway hst ‹_›
  case h_2 ok hst =>
    cases ok <;> cases hstep
    · exact .postFails hst
    · exact .post hst
  case h_3 hst => cases hstep; exact .take hst
  case h_4 ok hop hst =>
    cases ok <;> cases hstep
    · exact .frameFails hst
    · exact .frame hst
  case h_5 ok hop hst =>
    cases ok <;> cases hstep
    · exact .spawnFails hst
    · exact .spawn hst
  case h_6 hst => cases hstep; exact .start hst
  case h_7 => cases hstep; exact .abort
  case h_8 hst =>
    split at hstep <;> cases hstep
    · exact .checkAborted hst ‹_›
    · exact .checkRuns hst (Bool.eq_false_iff.mpr ‹_›)
  case h_9 hst => cases hstep; exact .finish hst
  case h_10 passed hst => cases hstep; exact .unwind hst
  case h_11 hst => cases hstep; exact .dropHandler hst
  case h_12 hst => cases hstep; exact .dropFrame hst
  case h_13 hop hst => cases hstep; exact .reset hst
  case h_14 hop hst => cases hstep; exact .leave hst
  case h_15 => cases hstep

lemma step_start (h : k.step .start = some k') :
    k.stage = .spawned ∧ k' = { k with stage := .starting } := by
  cases move_of_step h with
  | start hst => exact ⟨hst, rfl⟩

lemma step_abort (h : k.step .abort = some k') :
    k' = { k with aborted := true, requests := k.requests + 1 } := by
  cases move_of_step h with
  | abort => rfl

lemma step_check (h : k.step .check = some k') :
    k.stage = .starting ∧ k' = if k.aborted then { k with stage := .ending, closed := true }
      else { k with stage := .running, invoked := true } := by
  cases move_of_step h with
  | checkAborted hst haborted => exact ⟨hst, by rw [if_pos haborted]⟩
  | checkRuns hst haborted => exact ⟨hst, by rw [haborted]; rfl⟩

lemma step_finish (h : k.step .finish = some k') :
    k.stage = .running ∧ k' = { k with stage := .ending } := by
  cases move_of_step h with
  | finish hst => exact ⟨hst, rfl⟩

lemma step_unwind {passed : Bool} (h : k.step (.unwind passed) = some k') :
    k.stage = .ending ∧ k' = { k with passed := some passed, stage := .dying .frame } := by
  cases move_of_step h with
  | unwind hst => exact ⟨hst, rfl⟩

lemma step_leave (h : k.step .leave = some k') :
    ∃ hop, k.stage = .leaving hop ∧
      k' = { k with ticket := Function.update k.ticket hop none, stage := .ended } := by
  cases move_of_step h with
  | leave hst => exact ⟨_, hst, rfl⟩

/-- The number of actions that are left to the connection at most. -/
def rest (k : Conn n) : ℕ :=
  match k.stage with
  | .launching _ => if k.via.isSome then 12 else 9
  | .captured => 11
  | .posted => if k.via.isSome then 13 else 10
  | .called _ => 8
  | .framed _ => 7
  | .spawned => 6
  | .starting => 5
  | .running => 4
  | .ending => 3
  | .dying _ => 2
  | .leaving _ => 1
  | .ended => 0

/-- A connection does not go round in circles. -/
lemma rest_step {act : Act} (h : k.step act = some k') (hact : act ≠ .abort) :
    k'.rest < k.rest := by
  cases move_of_step h with
  | launchHere hst | dropHandler hst | take hst =>
      simp only [rest, hst, abandon, moveTicket]
      split <;> omega
  | launchAway hst hsite =>
      -- the connection's own loop has no accept loop's call to go on from
      have hvia : k.via.isSome = true := by
        cases hvia : k.via with
        | none => exact absurd (by rw [site, hvia, Option.getD_none]) hsite
        | some j => rfl
      simp [rest, hst, hvia]
  | abort => exact absurd rfl hact
  | post hst | postFails hst | frame hst | frameFails hst | spawn hst | spawnFails hst | start hst
  | checkAborted hst | checkRuns hst | finish hst | unwind hst | dropFrame hst | reset hst
  | leave hst =>
      simp [rest, hst, abandon]

/-- Only the check after `track` calls the body, if it finds the control not aborted. -/
lemma step_invoked {act : Act} (h : k.step act = some k') (hno : k.invoked = false)
    (hyes : k'.invoked = true) : act = .check ∧ k.aborted = false := by
  cases move_of_step h with
  | checkRuns hst haborted => exact ⟨rfl, haborted⟩
  | _ => exact Bool.noConfusion (hyes.symm.trans hno)

end

/-! ## What the objects of a connection weigh -/

/-- The object is a ticket of reactor `r` that is live and not moved from. -/
def countsFor (r : Fin (n + 1)) (t : Option (Ticket n)) : ℕ :=
  if t.bind Ticket.reactor = some r then 1 else 0

/-- The object is a ticket that holds a lease. -/
def holdsLease (t : Option (Ticket n)) : ℕ := if t.any Ticket.admission then 1 else 0

/-- The number of tickets of reactor `r` among the connection's objects. -/
def held (r : Fin (n + 1)) (k : Conn n) : ℕ := census Finset.univ (countsFor r) k.ticket

/-- The number of leases among the connection's objects. -/
def leased (k : Conn n) : ℕ := census Finset.univ holdsLease k.ticket

/-- The objects are as the stage says: one of them has the connection's place, the others
are moved from or do not exist. -/
structure Tidy (k : Conn n) : Prop where
  owned : ∀ h, k.stage.owner = some h → ∃ b, k.ticket h = some ⟨some k.home, b⟩
  others : ∀ h, k.stage.owner ≠ some h → k.ticket h = none ∨ k.ticket h = some .movedFrom
  alone : k.stage.alone = true → ∀ h, k.stage.owner ≠ some h → k.ticket h = none
  param : ∀ h, k.stage.param = some h → h = .arg ∨ h = .relaunch
  refunded : ∀ h, k.stage = .leaving h → k.ticket h = some ⟨some k.home, false⟩

lemma Tidy.unborn : Tidy (unborn : Conn n) where
  owned _ h := nomatch h
  others _ _ := .inl rfl
  alone _ _ _ := rfl
  param _ h := nomatch h
  refunded _ h := nomatch h

lemma Tidy.fresh (j home : Fin (n + 1)) (b : Bool) : Tidy (fresh j home b) where
  owned h hown := by
    obtain rfl : Hop.arg = h := by simpa [Conn.fresh, ConnStage.owner] using hown
    exact ⟨b, rfl⟩
  others h hown := by
    have hne : h ≠ .arg := fun heq => hown (heq ▸ rfl)
    simp [Conn.fresh, hne]
  alone h := nomatch h
  param h hp := by
    obtain rfl : Hop.arg = h := by simpa [Conn.fresh, ConnStage.param] using hp
    exact .inl rfl
  refunded _ h := nomatch h

/-- The object that has the place is moved on, and the call goes on. -/
lemma Tidy.moveTicket {k : Conn n} (h : Tidy k) {a b : Hop} {st : ConnStage}
    (ha : k.stage.owner = some a) (hne : a ≠ b) (hst : st.owner = some b)
    (halone : st.alone = false) (hparam : ∀ h', st.param = some h' → h' = .arg ∨ h' = .relaunch)
    (hleave : ∀ h', st ≠ .leaving h') : Tidy { k.moveTicket a b with stage := st } where
  owned h' hown := by
    obtain rfl : b = h' := by simpa [hst] using hown
    simpa [Conn.moveTicket] using h.owned a ha
  others h' hown := by
    have hb : h' ≠ b := fun heq => hown (heq ▸ hst)
    by_cases haeq : h' = a
    · subst haeq
      obtain ⟨c, hc⟩ := h.owned h' ha
      simp [Conn.moveTicket, hne, hc]
    · simpa [Conn.moveTicket, hb, haeq] using h.others h' (by simpa [ha] using Ne.symm haeq)
  alone h' := by simp [halone] at h'
  param := hparam
  refunded h' heq := absurd heq (hleave h')

/-- The call is over, by its end or by an exception: the object that has the place is left. -/
lemma Tidy.keepOnly {k : Conn n} (h : Tidy k) {a : Hop} {st : ConnStage}
    {via : Option (Fin (n + 1))} (ha : k.stage.owner = some a) (hst : st.owner = some a)
    (hparam : st.param = none)
    (hleave : ∀ h', st ≠ .leaving h') :
    Tidy { k.keepOnly a with via := via, stage := st } where
  owned h' hown := by
    obtain rfl : a = h' := by simpa [hst] using hown
    simpa [Conn.keepOnly] using h.owned a ha
  others h' hown := by
    have hne : h' ≠ a := fun heq => hown (heq ▸ hst)
    simp [Conn.keepOnly, hne]
  alone _ h' hown := by
    have hne : h' ≠ a := fun heq => hown (heq ▸ hst)
    simp [Conn.keepOnly, hne]
  param h' hp := by simp [hparam] at hp
  refunded h' heq := absurd heq (hleave h')

/-- The stage changes and the objects stay. -/
lemma Tidy.restage {k k' : Conn n} (h : Tidy k) (hticket : k'.ticket = k.ticket)
    (hhome : k'.home = k.home) (howner : k'.stage.owner = k.stage.owner)
    (halone : k.stage.alone = true) (hparam : k'.stage.param = none)
    (hleave : ∀ h', k'.stage ≠ .leaving h') : Tidy k' where
  owned h' := by rw [hticket, hhome, howner]; exact h.owned h'
  others h' := by rw [hticket, howner]; exact h.others h'
  alone _ h' := by rw [hticket, howner]; exact h.alone halone h'
  param h' hp := by simp [hparam] at hp
  refunded h' heq := absurd heq (hleave h')

lemma Tidy.reset {k : Conn n} (h : Tidy k) {a : Hop} (hst : k.stage = .dying a) :
    Tidy { k with
      ticket := Function.update k.ticket a ((k.ticket a).map fun t => { t with admission := false })
      stage := .leaving a } := by
  obtain ⟨b, hb⟩ := h.owned a (by rw [hst]; rfl)
  have hnone : ∀ h', h' ≠ a → k.ticket h' = none := fun h' hne =>
    h.alone (by rw [hst]; rfl) h' (by rw [hst]; simpa [ConnStage.owner] using Ne.symm hne)
  have hother : ∀ h', ConnStage.owner (.leaving a) ≠ some h' → h' ≠ a := fun h' hown heq =>
    hown (by rw [heq]; rfl)
  refine ⟨fun h' hown => ?_, fun h' hown => ?_, fun _ h' hown => ?_, by simp [ConnStage.param], ?_⟩
  · obtain rfl : a = h' := by simpa [ConnStage.owner] using hown
    exact ⟨false, by simp [hb]⟩
  · exact .inl (by simp [hother h' hown, hnone h' (hother h' hown)])
  · simp [hother h' hown, hnone h' (hother h' hown)]
  · rintro h' ⟨⟩
    simp [hb]

lemma Tidy.leave {k : Conn n} (h : Tidy k) {a : Hop} (hst : k.stage = .leaving a) :
    Tidy { k with ticket := Function.update k.ticket a none, stage := .ended } := by
  have hnone : ∀ h', Function.update k.ticket a none h' = none := by
    intro h'
    by_cases hne : h' = a
    · simp [hne]
    · simpa [hne] using h.alone (by rw [hst]; rfl) h'
        (by rw [hst]; simpa [ConnStage.owner] using Ne.symm hne)
  exact ⟨by simp [ConnStage.owner], fun h' _ => .inl (hnone h'), fun _ h' _ => hnone h',
    by simp [ConnStage.param], by simp⟩

/-- **Every action leaves the objects tidy.** -/
theorem Tidy.step {k k' : Conn n} {act : Act} (h : Tidy k) (hstep : k.step act = some k') :
    Tidy k' := by
  cases move_of_step hstep with
  | launchHere hst =>
      have hp := h.param _ (by rw [hst]; rfl)
      refine h.moveTicket (by rw [hst]; rfl) ?_ rfl rfl (by rintro _ ⟨⟩; exact hp) (by simp)
      rcases hp with rfl | rfl <;> decide
  | launchAway hst =>
      have hp := h.param _ (by rw [hst]; rfl)
      refine h.moveTicket (by rw [hst]; rfl) ?_ rfl rfl (by rintro _ ⟨⟩) (by simp)
      rcases hp with rfl | rfl <;> decide
  | take hst =>
      exact h.moveTicket (by rw [hst]; rfl) (by decide) rfl rfl (by rintro _ ⟨⟩; exact .inr rfl)
        (by simp)
  | frame hst =>
      exact h.moveTicket (by rw [hst]; rfl) (by decide) rfl rfl
        (by rintro _ ⟨⟩; exact h.param _ (by rw [hst]; rfl)) (by simp)
  | post hst | postFails hst | frameFails hst | spawn hst | spawnFails hst | dropHandler hst
  | dropFrame hst =>
      exact h.keepOnly (by rw [hst]; rfl) rfl rfl (by simp)
  | start hst | checkAborted hst | checkRuns hst | finish hst | unwind hst =>
      exact h.restage rfl rfl (by rw [hst]; rfl) (by rw [hst]; rfl) rfl (by simp)
  | abort => exact ⟨h.owned, h.others, h.alone, h.param, h.refunded⟩
  | reset hst => exact h.reset hst
  | leave hst => exact h.leave hst

/-! ## The weight of a tidy connection -/

/-- The object that has the connection's place holds a lease. -/
def lease (k : Conn n) : Bool := (k.stage.owner.bind k.ticket).any Ticket.admission

/-- A weight that objects moved from do not have is the weight of the one object with the
place. -/
lemma Tidy.census_eq {k : Conn n} (h : Tidy k) {w : Option (Ticket n) → ℕ} (hnone : w none = 0)
    (hmoved : w (some .movedFrom) = 0) :
    census Finset.univ w k.ticket = w (k.stage.owner.bind k.ticket) := by
  have hother : ∀ h', k.stage.owner ≠ some h' → w (k.ticket h') = 0 := fun h' hne => by
    rcases h.others h' hne with heq | heq <;> simp [heq, hnone, hmoved]
  unfold census
  cases hown : k.stage.owner with
  | none =>
      rw [Option.bind_none, hnone]
      exact Finset.sum_eq_zero fun h' _ => hother h' (by simp [hown])
  | some a =>
      rw [Option.bind_some]
      exact Finset.sum_eq_single a (fun h' _ hne => hother h' (by simpa [hown] using Ne.symm hne))
        (by simp)

/-- **A connection has one place or none.** -/
theorem Tidy.held_eq {k : Conn n} (h : Tidy k) (r : Fin (n + 1)) :
    k.held r = if k.stage.owner.isSome ∧ k.home = r then 1 else 0 := by
  rw [held, h.census_eq (by simp [countsFor]) (by simp [countsFor, Ticket.movedFrom])]
  cases hown : k.stage.owner with
  | none => simp [countsFor]
  | some a =>
      obtain ⟨b, hb⟩ := h.owned a hown
      simp [countsFor, hb]

lemma Tidy.leased_eq {k : Conn n} (h : Tidy k) : k.leased = k.lease.toNat := by
  rw [leased, h.census_eq (by simp [holdsLease]) (by simp [holdsLease, Ticket.movedFrom])]
  unfold holdsLease lease
  cases (k.stage.owner.bind k.ticket).any Ticket.admission <;> rfl

lemma home_step {k k' : Conn n} {act : Act} (hstep : k.step act = some k') : k'.home = k.home := by
  cases move_of_step hstep <;> rfl

lemma via_step {k k' : Conn n} {act : Act} (hstep : k.step act = some k') :
    k'.via = k.via ∨ k'.via = none := by
  cases move_of_step hstep <;> first | exact .inl rfl | exact .inr rfl

/-- Only the end of the destructor gives the place up. -/
lemma owner_step {k k' : Conn n} {act : Act} (hstep : k.step act = some k') :
    k'.stage.owner.isSome = (k.stage.owner.isSome && decide (act ≠ .leave)) := by
  cases move_of_step hstep with
  | abort => simp
  | launchHere hst | launchAway hst | post hst | postFails hst | take hst | frame hst
  | frameFails hst | spawn hst | spawnFails hst | start hst | checkAborted hst | checkRuns hst
  | finish hst | unwind hst | dropHandler hst | dropFrame hst | reset hst | leave hst =>
      rw [hst]
      rfl

/-- Only `admission.reset()` gives the lease up. -/
lemma Tidy.lease_step {k k' : Conn n} {act : Act} (h : Tidy k) (hstep : k.step act = some k') :
    k'.lease = (k.lease && decide (act ≠ .reset)) := by
  cases move_of_step hstep with
  | abort => simp [lease]
  | @reset hop hst =>
      -- the destructor refunds the lease
      cases k.ticket hop <;> simp [lease, ConnStage.owner]
  | leave hst =>
      -- and ends with the lease refunded
      simp [lease, hst, ConnStage.owner, h.refunded _ hst]
  | launchHere hst | launchAway hst | post hst | postFails hst | take hst | frame hst
  | frameFails hst | spawn hst | spawnFails hst | start hst | checkAborted hst | checkRuns hst
  | finish hst | unwind hst | dropHandler hst | dropFrame hst =>
      simp [lease, hst, ConnStage.owner, abandon, Conn.keepOnly, Conn.moveTicket]

end Conn

end ReactorRuntime
