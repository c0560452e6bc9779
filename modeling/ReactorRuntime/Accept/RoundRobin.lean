import ReactorRuntime.Accept.Control
import ReactorRuntime.Library.Rotation
import ReactorRuntime.Server.TcpServer

/-!
# Whose turn it is

The shared accept loop deals its connections to the reactors in turn (`reactor.h:555-595`).  It
chooses the reactor before it accepts, for the socket is made on that reactor's loop, and moves on
whatever becomes of the accept.  So it is the turns that are dealt evenly (`turns_differ_by_one`).
A turn that ends in an error, a refusal or a failed launch is lost to its reactor.  The sessions are
dealt evenly as far as the lost turns are (`sessions_differ_by_one`); when those fall in step with
the rotation one reactor gets all sessions (`resets_starve_a_reactor`).

The machine is one accept loop with the variables of the rotation.
-/

namespace ReactorRuntime

/-- The coroutine `shared_accept_loop` on its loop. -/
structure SharedLoop where
  accept : Accept
  next : ℕ
  /-- `r`, the place of the reactor that the accept under way is for. -/
  target : ℕ
  /-- Record: the turns of each reactor. -/
  turns : ℕ → ℕ
  /-- Record: the sessions launched on each reactor. -/
  sessions : ℕ → ℕ
  /-- Record: the last turn has not launched a session. -/
  idle : Bool
  /-- Record: the turns of each reactor that were over without one. -/
  lost : ℕ → ℕ

namespace SharedLoop

def initial : SharedLoop where
  accept := .initial
  next := 0
  target := 0
  turns _ := 0
  sessions _ := 0
  idle := false
  lost _ := 0

/-- `r = reactors[next]`, and `next` moves on. -/
def takeTurn (n : ℕ) (s : SharedLoop) : SharedLoop :=
  { s with
    target := s.next
    next := advance n s.next
    turns := Function.update s.turns s.next (s.turns s.next + 1)
    idle := true
    lost := if s.idle then Function.update s.lost s.target (s.lost s.target + 1) else s.lost }

/-- A session is launched on `r`. -/
def launched (s : SharedLoop) : SharedLoop :=
  { s with
    sessions := Function.update s.sessions s.target (s.sessions s.target + 1)
    idle := false }

/-- One action, with `n` reactors. -/
def step (l : Listener) (n : ℕ) (s : SharedLoop) (act : Accept.Act) : Option SharedLoop :=
  (s.accept.step l act).map fun a =>
    let t : SharedLoop := { s with accept := a }
    if act = .run .ok ∧ s.accept.pc = .loopTest ∧ a.pc = .initiate then t.takeTurn n
    else if act = .run .ok ∧ s.accept.pc = .launch then t.launched
    else t

/-- The shared accept loop as a machine. -/
def machine (l : Listener) (n : ℕ) : Machine SharedLoop Accept.Act where
  init := initial
  step := step l n

end SharedLoop

/-- The rotation is the one of the server. -/
lemma Server.chooseTarget_shared {n : ℕ} {cfg : Config} (hshared : cfg.shared n = true)
    (i : Fin (n + 1)) (s : Server n) :
    (s.chooseTarget cfg i).target i = s.next ∧
      ((s.chooseTarget cfg i).next : ℕ) = advance (n + 1) s.next := by
  unfold chooseTarget advance
  rw [if_pos hshared]
  refine ⟨Function.update_self .., ?_⟩
  have hlt := s.next.isLt
  by_cases hlast : (s.next : ℕ) + 1 = n + 1
  · rw [if_pos hlast, dif_neg (by omega)]
    rfl
  · rw [if_neg hlast, dif_pos (by omega)]

/-- A turn is under way: from the choice of the reactor to the launch. -/
def AcceptPc.inTurn : AcceptPc → Bool
  | .initiate => true
  | .accepting => true
  | .accepted _ => true
  | .arrived _ => true
  | .check => true
  | .admission => true
  | .launch => true
  | _ => false

namespace SharedLoop

open Accept

variable {l : Listener} {n : ℕ} {s t : SharedLoop} {act : Accept.Act} {a b : Accept}

/-! ## What one step does -/

/-- A turn begins at the loop test. -/
lemma inTurn_of_move (hmove : Move l a act b) (hb : b.pc.inTurn = true) :
    a.pc.inTurn = true ∨ (act = .run .ok ∧ a.pc = .loopTest ∧ b.pc = .initiate) := by
  cases hmove with
  | again pc =>
      refine .inr ⟨rfl, pc, ?_⟩
      unfold testStopping at hb ⊢
      split at hb
      · exact absurd hb Bool.false_ne_true
      · rename_i hstop
        exact if_neg hstop
  | store => exact .inl hb
  | post told => exact .inl hb
  | stopOnOwner posted idle =>
      left
      revert hb
      unfold stopOnOwner
      cases a.pc <;> exact fun hb => hb
  | start pc | retryTest pc =>
      simp only [testStopping] at hb
      split at hb <;> exact absurd hb Bool.false_ne_true
  | @setUp st pc more =>
      rcases nextSetup_cases l st with hnext | ⟨st', hnext⟩ <;>
        exact absurd hb (by rw [hnext]; exact Bool.false_ne_true)
  | arrive pc | complete pc | await pc isOpen | awaitClosed pc closed | connected pc | check pc
  | admission pc =>
      left
      rw [pc]
      rfl
  | _ => exact absurd hb Bool.false_ne_true

lemma inTurn_of_launch (hstep : a.step l (.run .ok) = some b) (hpc : a.pc = .launch) :
    b.pc.inTurn = false := by
  simp only [Accept.step, runStep, hpc] at hstep
  cases hstep
  rfl

/-- The steps of the machine, by what they do to the rotation. -/
inductive Deal (n : ℕ) (s : SharedLoop) (act : Accept.Act) (a : Accept) : SharedLoop → Prop
  | turn (hrun : act = .run .ok) (hpc : s.accept.pc = .loopTest) :
      Deal n s act a (takeTurn n { s with accept := a })
  | launch (hpc : s.accept.pc = .launch) (hend : a.pc.inTurn = false) :
      Deal n s act a (launched { s with accept := a })
  | other (hturn : a.pc.inTurn = true → s.accept.pc.inTurn = true) :
      Deal n s act a { s with accept := a }

lemma deal_of_step (hstep : s.step l n act = some t) : ∃ a, Deal n s act a t := by
  obtain ⟨a, ha, rfl⟩ := Option.map_eq_some_iff.mp hstep
  have hmove := move_of_step ha
  refine ⟨a, ?_⟩
  split
  · rename_i hturn
    exact .turn hturn.1 hturn.2.1
  · rename_i hnot
    split
    · rename_i hlaunch
      obtain ⟨rfl, hpc⟩ := hlaunch
      exact .launch hpc (inTurn_of_launch ha hpc)
    · refine .other fun ha => ?_
      exact (inTurn_of_move hmove ha).resolve_right hnot

/-! ## The turns -/

/-- What holds of the rotation in every run. -/
structure Dealt (n : ℕ) (s : SharedLoop) : Prop where
  next : s.next < n
  target : s.target < n
  turns : Level n s.turns s.next

lemma Dealt.deal (h : s.Dealt n) (hdeal : Deal n s act a t) : t.Dealt n := by
  cases hdeal with
  | turn => exact ⟨advance_lt h.next, h.next, h.turns.bump h.next⟩
  | launch => exact ⟨h.next, h.target, h.turns⟩
  | other => exact ⟨h.next, h.target, h.turns⟩

lemma dealt_of_reachable (hn : 0 < n) (hs : (machine l n).Reachable s) : s.Dealt n := by
  apply hs.invariant (I := Dealt n)
  · exact ⟨hn, hn, .zero n⟩
  · intro s act t h _ hstep
    obtain ⟨a, hdeal⟩ := deal_of_step hstep
    exact h.deal hdeal

/-- **The turns are dealt evenly**, whatever becomes of the accepts. -/
theorem turns_differ_by_one (hn : 0 < n) (hs : (machine l n).Reachable s) {r r' : ℕ} (hr : r < n)
    (hr' : r' < n) : s.turns r ≤ s.turns r' + 1 :=
  (dealt_of_reachable hn hs).turns.le_succ hr hr'

/-! ## The sessions -/

/-- The loop takes another turn only if the last one has launched a session. -/
def Fruitful (s : SharedLoop) (act : Accept.Act) : Prop :=
  act = .run .ok → s.accept.pc = .loopTest → s.idle = false

instance (s : SharedLoop) (act : Accept.Act) : Decidable (s.Fruitful act) :=
  inferInstanceAs (Decidable (_ → _))

/-- The turns of a reactor that are over. -/
def settled (s : SharedLoop) (r : ℕ) : ℕ := s.sessions r + s.lost r

lemma settled_takeTurn (s : SharedLoop) (a : Accept) :
    (takeTurn n { s with accept := a }).settled =
      if s.idle then Function.update s.settled s.target (s.settled s.target + 1)
      else s.settled := by
  cases hidle : s.idle with
  | false => simp [settled, takeTurn, funext_iff]
  | true =>
      funext r
      rcases eq_or_ne r s.target with rfl | hne
      · simp [settled, takeTurn, Nat.add_assoc]
      · simp [settled, takeTurn, hne]

lemma settled_launched (s : SharedLoop) (a : Accept) :
    (launched { s with accept := a }).settled =
      Function.update s.settled s.target (s.settled s.target + 1) := by
  funext r
  rcases eq_or_ne r s.target with rfl | hne
  · simp [settled, launched, Nat.add_right_comm]
  · simp [settled, launched, hne]

/-- What holds of the turns that are over. -/
structure Shared (n : ℕ) (s : SharedLoop) : Prop where
  dealt : s.Dealt n
  /-- They are behind the turns by the last one, until it is over. -/
  settled : Level n s.settled (if s.idle then s.target else s.next)
  moved : s.idle = true → s.next = advance n s.target
  turn : s.accept.pc.inTurn = true → s.idle = true

/-- Before the next turn is taken the last one is over. -/
lemma Shared.level_next (h : s.Shared n) :
    Level n (if s.idle then Function.update s.settled s.target (s.settled s.target + 1)
      else s.settled) s.next := by
  have hsettled := h.settled
  cases hidle : s.idle with
  | false =>
      rw [hidle] at hsettled
      exact hsettled
  | true =>
      rw [hidle, if_pos rfl] at hsettled
      rw [if_pos rfl, h.moved hidle]
      exact hsettled.bump h.dealt.target

lemma Shared.deal (h : s.Shared n) (hdeal : Deal n s act a t) : t.Shared n := by
  have hdealt := h.dealt.deal hdeal
  have hnext := h.level_next
  cases hdeal with
  | turn hrun hpc =>
      refine ⟨hdealt, ?_, fun _ => rfl, fun _ => rfl⟩
      rw [settled_takeTurn]
      exact hnext
  | launch hpc hend =>
      have hidle : s.idle = true := h.turn (by rw [hpc]; rfl)
      rw [hidle, if_pos rfl] at hnext
      refine ⟨hdealt, ?_, fun hf => absurd hf Bool.false_ne_true, fun ht => ?_⟩
      · rw [settled_launched]
        exact hnext
      · exact absurd (hend.symm.trans ht) Bool.false_ne_true
  | other hturn => exact ⟨hdealt, h.settled, h.moved, fun ht => h.turn (hturn ht)⟩

lemma shared_of_reachable (hn : 0 < n) (hs : (machine l n).Reachable s) : s.Shared n := by
  apply hs.invariant (I := Shared n)
  · exact ⟨⟨hn, hn, .zero n⟩, .zero n, fun h => absurd h Bool.false_ne_true,
      fun h => absurd h Bool.false_ne_true⟩
  · intro s act t h _ hstep
    obtain ⟨a, hdeal⟩ := deal_of_step hstep
    exact h.deal hdeal

/-- No turn is lost in a run whose turns all launch a session. -/
lemma lost_of_fruitful (hs : (machine l n).ReachableUnder Fruitful s) (r : ℕ) : s.lost r = 0 := by
  refine hs.invariant (I := fun s => s.lost r = 0) rfl fun s act t h hok hstep => ?_
  obtain ⟨a, hdeal⟩ := deal_of_step hstep
  cases hdeal with
  | turn hrun hpc =>
      have hidle := hok hrun hpc
      simpa [takeTurn, hidle] using h
  | launch => exact h
  | other => exact h

/-- **The sessions are dealt evenly as far as the lost turns are.**  With two or more reactors, in
every state of every run, the place of the reactor is in range; a reactor that has not lost fewer
turns than another has at most one session more than it, and one that has lost three turns more has
two sessions less, or fewer still; and in a run in which the loop takes another turn only when the
last one has launched a session no turn is lost, so that the sessions launched on any two reactors
differ by at most one. -/
theorem sessions_differ_by_one (l : Listener) (hn : 2 ≤ n) (hs : (machine l n).Reachable s) :
    (s.next < n ∧ s.target < n) ∧
      (∀ r < n, ∀ r' < n, s.lost r' ≤ s.lost r → s.sessions r ≤ s.sessions r' + 1) ∧
      (∀ r < n, ∀ r' < n, s.lost r' + 3 ≤ s.lost r → s.sessions r + 2 ≤ s.sessions r') ∧
      ((machine l n).ReachableUnder Fruitful s →
        (∀ r, s.lost r = 0) ∧ ∀ r < n, ∀ r' < n, s.sessions r ≤ s.sessions r' + 1) := by
  have h := shared_of_reachable (Nat.lt_of_lt_of_le Nat.two_pos hn) hs
  have hlevel : ∀ r < n, ∀ r' < n,
      s.sessions r + s.lost r ≤ s.sessions r' + s.lost r' + 1 :=
    fun r hr r' hr' => h.settled.le_succ hr hr'
  refine ⟨⟨h.dealt.next, h.dealt.target⟩, fun r hr r' hr' hlost => ?_, fun r hr r' hr' hlost => ?_,
    fun hfruitful => ⟨lost_of_fruitful hfruitful, fun r hr r' hr' => ?_⟩⟩
  · have := hlevel r hr r' hr'
    omega
  · have := hlevel r hr r' hr'
    omega
  · have hle := hlevel r hr r' hr'
    rw [lost_of_fruitful hfruitful, lost_of_fruitful hfruitful] at hle
    exact hle

/-- A shared listener on port 80 of a Linux host. -/
def sharedListener : Listener where
  platform := ⟨true, false⟩
  port := 80
  named := false
  reusePort := false
  bounded := true

/-- The coroutine sets its listener up, and stands at the loop test. -/
def listenRun : List Accept.Act :=
  [.dispatch, .run .ok, .run .ok, .run .ok, .run .ok, .run .ok, .run .ok, .run (.at_ 80), .run .ok]

/-- A turn that launches a session. -/
def launchTurn : List Accept.Act :=
  [.run .ok, .run .ok, .complete none, .dispatch, .run .ok, .run .ok, .run .ok, .run .ok]

/-- A turn that is lost to a connection that was reset. -/
def resetTurn : List Accept.Act :=
  [.run .ok, .run .ok, .complete (some (.sys .ECONNABORTED)), .dispatch, .run .ok, .run .ok,
    .run (.moved false)]

theorem sessions_differ_by_one_at_three :
    ∃ s, (machine sharedListener 2).ReachableUnder Fruitful s ∧
      (s.sessions 0 = 2 ∧ s.sessions 1 = 1) ∧
      (s.next < 2 ∧ s.target < 2) ∧ ∀ r < 2, ∀ r' < 2, s.sessions r ≤ s.sessions r' + 1 := by
  obtain ⟨s, hs, htest⟩ := (machine sharedListener 2).exists_reachableUnder_of_run
    (fun s act => decide (s.Fruitful act)) (fun _ _ h => of_decide_eq_true h)
    (List.flatten [listenRun, launchTurn, launchTurn, launchTurn])
    (fun s => decide (s.sessions 0 = 2 ∧ s.sessions 1 = 1)) (by decide +kernel)
  obtain ⟨hrange, -, -, hfruitful⟩ := sessions_differ_by_one sharedListener (by decide) hs.reachable
  exact ⟨s, hs, of_decide_eq_true htest, hrange, (hfruitful hs).2⟩

/-- With two reactors, and every second connection reset before it is accepted, all sessions go to
the first reactor. -/
theorem resets_starve_a_reactor :
    ∃ s, (machine sharedListener 2).Reachable s ∧ s.sessions 0 = 3 ∧ s.sessions 1 = 0 := by
  obtain ⟨s, hs, htest⟩ := (machine sharedListener 2).exists_reachable_of_run
    (List.flatten [listenRun, launchTurn, resetTurn, launchTurn, resetTurn, launchTurn])
    (fun s => decide (s.sessions 0 = 3 ∧ s.sessions 1 = 0)) (by decide +kernel)
  exact ⟨s, hs, of_decide_eq_true htest⟩

end SharedLoop

end ReactorRuntime
