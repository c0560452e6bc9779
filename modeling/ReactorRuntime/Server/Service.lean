import ReactorRuntime.Library.Simulation
import Mathlib.Data.Nat.Notation
import Mathlib.Logic.Function.Basic

/-!
# A service that is started, serves and is stopped

To the code that uses it, a `TcpServer` is a service that is started once, serves sessions, and is
stopped.  `Service` is that service, in the terms of its user and with none of the means: there are
no threads, loops, tickets, walks or accept loops in it.  What it says is

* which calls return, which are refused, and in which order;
* that a session is begun at most once, after `start()` was called, while its reactor is not shut,
  and not if it was asked to stop before;
* that a session is asked to stop at most once, by its own reactor, not before that is shut and not
  once its body is over;
* that a reactor is shut by `stop()` only, and that `stop()` returns when every reactor is shut and
  every session that is still served has been asked to stop.

The state of a service is what its events have made of it (`Ledger`), so all this is a rule about
the events alone: what may come after which (`Event.Follows`, `follows_of_run`).
-/

namespace ReactorRuntime

/-! ## The service -/

/-- The owner's call that is under way. -/
inductive Call
  | none
  /-- `start()` -/
  | starting
  /-- `stop()`, before it knows whether it is the first. -/
  | stopping
  /-- The first `stop()`. -/
  | halting
  deriving DecidableEq, Repr

/-- A session of a service with `n + 1` reactors. -/
inductive Life (n : ℕ)
  | unbegun
  /-- Its body was called on reactor `r`, and is not over. -/
  | served (r : Fin (n + 1))
  | ended
  deriving DecidableEq, Repr

/-- A service with `n + 1` reactors. -/
@[ext]
structure Service (n : ℕ) where
  call : Call
  started : Bool
  stopped : Bool
  /-- The sessions of the reactor are being asked to stop, and no other is begun. -/
  shut : Fin (n + 1) → Bool
  life : ℕ → Life n
  asked : ℕ → Bool

namespace Service

variable {n : ℕ}

/-- What is seen. -/
inductive Event (n : ℕ)
  /-- `start()` is called for the first time. -/
  | start
  /-- `start()` is called, and throws `std::logic_error`. -/
  | refuse
  /-- `start()` returns. -/
  | up
  /-- `start()` fails, and calls `stop()`. -/
  | fail
  /-- `stop()` is called. -/
  | stop
  /-- It was called before, and returns. -/
  | again
  /-- It was not called before, and goes to work. -/
  | halt
  | shut (r : Fin (n + 1))
  /-- The first `stop()` returns, or the `start()` that has called it throws. -/
  | down
  /-- The body of session `c` is called on reactor `r`. -/
  | begun (c : ℕ) (r : Fin (n + 1))
  /-- Session `c` of reactor `r` is asked to stop. -/
  | asked (c : ℕ) (r : Fin (n + 1))
  /-- The body of session `c` is over. -/
  | ended (c : ℕ)
  deriving DecidableEq

def initial : Service n where
  call := .none
  started := false
  stopped := false
  shut _ := false
  life _ := .unbegun
  asked _ := false

open Classical in
/-- What the service allows. -/
noncomputable def step (s : Service n) : Event n → Option (Service n)
  | .start =>
      if s.call = .none ∧ s.started = false ∧ s.stopped = false then
        some { s with call := .starting, started := true }
      else none
  | .refuse =>
      if s.call = .none ∧ (s.started = true ∨ s.stopped = true) then some s else none
  | .up => if s.call = .starting then some { s with call := .none } else none
  | .fail => if s.call = .starting then some { s with call := .stopping } else none
  | .stop => if s.call = .none then some { s with call := .stopping } else none
  | .again =>
      if s.call = .stopping ∧ s.stopped = true then some { s with call := .none } else none
  | .halt =>
      if s.call = .stopping ∧ s.stopped = false then
        some { s with call := .halting, stopped := true }
      else none
  | .shut r =>
      if s.call = .halting ∧ s.shut r = false then
        some { s with shut := Function.update s.shut r true }
      else none
  | .down =>
      if s.call = .halting ∧ (∀ r, s.shut r = true) ∧
          ∀ c r, s.life c = .served r → s.asked c = true then
        some { s with call := .none }
      else none
  | .begun c r =>
      if s.started = true ∧ s.shut r = false ∧ s.life c = .unbegun ∧ s.asked c = false then
        some { s with life := Function.update s.life c (.served r) }
      else none
  | .asked c r =>
      if s.shut r = true ∧ s.asked c = false ∧
          (s.life c = .unbegun ∨ s.life c = .served r) then
        some { s with asked := Function.update s.asked c true }
      else none
  | .ended c =>
      if ∃ r, s.life c = .served r then
        some { s with life := Function.update s.life c .ended }
      else none

/-- The service as a machine. -/
noncomputable def machine : Machine (Service n) (Event n) where
  init := initial
  step := step

/-- The events, each with what it rests on. -/
inductive Move (x : Service n) : Event n → Service n → Prop
  | start (call : x.call = .none) (started : x.started = false) (stopped : x.stopped = false) :
      Move x .start { x with call := .starting, started := true }
  | refuse (call : x.call = .none) (flags : x.started = true ∨ x.stopped = true) :
      Move x .refuse x
  | up (call : x.call = .starting) : Move x .up { x with call := .none }
  | fail (call : x.call = .starting) : Move x .fail { x with call := .stopping }
  | stop (call : x.call = .none) : Move x .stop { x with call := .stopping }
  | again (call : x.call = .stopping) (stopped : x.stopped = true) :
      Move x .again { x with call := .none }
  | halt (call : x.call = .stopping) (stopped : x.stopped = false) :
      Move x .halt { x with call := .halting, stopped := true }
  | shut (r : Fin (n + 1)) (call : x.call = .halting) (shut : x.shut r = false) :
      Move x (.shut r) { x with shut := Function.update x.shut r true }
  | down (call : x.call = .halting) (shut : ∀ r, x.shut r = true)
      (asked : ∀ c r, x.life c = .served r → x.asked c = true) :
      Move x .down { x with call := .none }
  | begun (c : ℕ) (r : Fin (n + 1)) (started : x.started = true) (shut : x.shut r = false)
      (life : x.life c = .unbegun) (asked : x.asked c = false) :
      Move x (.begun c r) { x with life := Function.update x.life c (.served r) }
  | asked (c : ℕ) (r : Fin (n + 1)) (shut : x.shut r = true) (asked : x.asked c = false)
      (life : x.life c = .unbegun ∨ x.life c = .served r) :
      Move x (.asked c r) { x with asked := Function.update x.asked c true }
  | ended (c : ℕ) (r : Fin (n + 1)) (life : x.life c = .served r) :
      Move x (.ended c) { x with life := Function.update x.life c .ended }

lemma move_of_step {x y : Service n} {e : Event n} (h : machine.step x e = some y) :
    Move x e y := by
  replace h : x.step e = some y := h
  cases e <;> obtain ⟨hguard, hy⟩ := Option.ite_none_right_eq_some.mp h <;> cases hy
  case start => exact .start hguard.1 hguard.2.1 hguard.2.2
  case refuse => exact .refuse hguard.1 hguard.2
  case up => exact .up hguard
  case fail => exact .fail hguard
  case stop => exact .stop hguard
  case again => exact .again hguard.1 hguard.2
  case halt => exact .halt hguard.1 hguard.2
  case shut r => exact .shut r hguard.1 hguard.2
  case down => exact .down hguard.1 hguard.2.1 hguard.2.2
  case begun c r => exact .begun c r hguard.1 hguard.2.1 hguard.2.2.1 hguard.2.2.2
  case asked c r => exact .asked c r hguard.1 hguard.2.1 hguard.2.2
  case ended c => exact .ended c hguard.choose hguard.choose_spec

/-! ## The order of the events -/

/-- What has come before an event. -/
def Event.Follows (before : List (Event n)) : Event n → Prop
  | .start => .start ∉ before ∧ .halt ∉ before
  | .refuse => .start ∈ before ∨ .halt ∈ before
  | .up => .start ∈ before ∧ .up ∉ before ∧ .fail ∉ before
  | .fail => .start ∈ before ∧ .up ∉ before ∧ .fail ∉ before
  | .stop => .halt ∈ before → .down ∈ before
  | .again => .down ∈ before
  | .halt => .halt ∉ before ∧ (.stop ∈ before ∨ .fail ∈ before)
  | .shut r => .halt ∈ before ∧ .shut r ∉ before ∧ .down ∉ before
  | .down => .halt ∈ before ∧ .down ∉ before ∧ (∀ r, .shut r ∈ before) ∧
      ∀ c r, .begun c r ∈ before → .ended c ∈ before ∨ .asked c r ∈ before
  | .begun c r => .start ∈ before ∧ .shut r ∉ before ∧ .down ∉ before ∧
      ∀ q, .begun c q ∉ before ∧ .asked c q ∉ before
  | .asked c r => .shut r ∈ before ∧ .ended c ∉ before ∧ (∀ q, .asked c q ∉ before) ∧
      ∀ q, .begun c q ∈ before → q = r
  | .ended c => .ended c ∉ before ∧ ∃ r, .begun c r ∈ before

/-- The flags of a service, and what has been seen. -/
structure Flags (seen : List (Event n)) (x : Service n) : Prop where
  started : x.started = true ↔ .start ∈ seen
  stopped : x.stopped = true ↔ .halt ∈ seen
  shut : ∀ r, x.shut r = true ↔ .shut r ∈ seen

/-- A `start()` that is under way, and what has been seen. -/
structure Opening (seen : List (Event n)) (call : Call) : Prop where
  starting : call = .starting → .start ∈ seen ∧ .up ∉ seen ∧ .fail ∉ seen
  unstarted : .start ∉ seen → .up ∉ seen ∧ .fail ∉ seen

/-- A `stop()` that is under way, and what has been seen. -/
structure Closing (seen : List (Event n)) (call : Call) : Prop where
  stopping : call = .stopping → .stop ∈ seen ∨ .fail ∈ seen
  halting : call = .halting ↔ .halt ∈ seen ∧ .down ∉ seen
  unhalted : .halt ∉ seen → .down ∉ seen
  down : .down ∈ seen → ∀ r, .shut r ∈ seen

/-- A session, and what has been seen. -/
structure Story (seen : List (Event n)) (c : ℕ) (life : Life n) (asked : Bool) : Prop where
  asked : asked = true ↔ ∃ r, .asked c r ∈ seen
  unbegun : life = .unbegun ↔ ∀ r, .begun c r ∉ seen
  served : ∀ r, .begun c r ∈ seen → life = .served r ∨ life = .ended
  ended : life = .ended ↔ .ended c ∈ seen
  own : ∀ r q, life = .served r → .asked c q ∈ seen → q = r

section Steps

variable {seen : List (Event n)} {x y : Service n} {e : Event n}

lemma Flags.initial : Flags [] (initial : Service n) := by
  constructor <;> simp [Service.initial]

lemma Flags.start_notMem (h : Flags seen x) (hstarted : x.started = false) : .start ∉ seen :=
  fun hmem => by simp [h.started.mpr hmem] at hstarted

lemma Flags.halt_notMem (h : Flags seen x) (hstopped : x.stopped = false) : .halt ∉ seen :=
  fun hmem => by simp [h.stopped.mpr hmem] at hstopped

lemma Flags.step (h : Flags seen x) (hmove : Move x e y) : Flags (seen ++ [e]) y := by
  cases hmove with
  | start => exact ⟨by simp, by simpa using h.stopped, by simpa using h.shut⟩
  | halt => exact ⟨by simpa using h.started, by simp, by simpa using h.shut⟩
  | shut r =>
      refine ⟨by simpa using h.started, by simpa using h.stopped, fun q => ?_⟩
      by_cases hq : q = r
      · simp [hq]
      · simpa [hq] using h.shut q
  | _ => exact ⟨by simpa using h.started, by simpa using h.stopped, by simpa using h.shut⟩

lemma Opening.initial : Opening ([] : List (Event n)) .none := by
  constructor <;> simp

lemma Opening.step (h : Opening seen x.call) (hflags : Flags seen x) (hmove : Move x e y) :
    Opening (seen ++ [e]) y.call := by
  cases hmove with
  | start call started =>
      obtain ⟨hup, hfail⟩ := h.unstarted (hflags.start_notMem started)
      exact ⟨fun _ => by simp [hup, hfail], by simp⟩
  | up call | fail call =>
      obtain ⟨hstart, -, -⟩ := h.starting call
      exact ⟨by simp, by simp [hstart]⟩
  | stop | again | halt | down => exact ⟨by simp, by simpa using h.unstarted⟩
  | refuse | shut | begun | asked | ended =>
      exact ⟨by simpa using h.starting, by simpa using h.unstarted⟩

lemma Closing.initial : Closing ([] : List (Event n)) .none := by
  constructor <;> simp

/-- Outside the first `stop()`, that has returned or was not called. -/
lemma Closing.down_of_halt {call : Call} (h : Closing seen call) (hcall : call ≠ .halting)
    (hhalt : .halt ∈ seen) : .down ∈ seen := by
  by_contra hdown
  exact hcall (h.halting.mpr ⟨hhalt, hdown⟩)

/-- An event that is not one of the first `stop()`. -/
lemma Closing.apart {call call' : Call} (h : Closing seen call)
    (hcall : call' = .halting ↔ call = .halting) (hhalt : .halt ≠ e) (hdown : .down ≠ e)
    (hstopping : call' = .stopping → .stop ∈ seen ++ [e] ∨ .fail ∈ seen ++ [e]) :
    Closing (seen ++ [e]) call' := by
  refine ⟨hstopping, ?_, by simpa [hhalt, hdown] using h.unhalted, fun hmem r => ?_⟩
  · simpa [hhalt, hdown] using hcall.trans h.halting
  · exact List.mem_append_left _ (h.down (by simpa [hdown] using hmem) r)

/-- An event that is none of a call. -/
lemma Closing.skip {call : Call} (h : Closing seen call) (hhalt : .halt ≠ e) (hdown : .down ≠ e) :
    Closing (seen ++ [e]) call :=
  h.apart Iff.rfl hhalt hdown fun hcall =>
    (h.stopping hcall).imp (List.mem_append_left _) (List.mem_append_left _)

lemma Closing.step (h : Closing seen x.call) (hflags : Flags seen x) (hmove : Move x e y) :
    Closing (seen ++ [e]) y.call := by
  cases hmove with
  | start call | up call | again call | fail call | stop call =>
      exact h.apart (by simp [call]) (by simp) (by simp) (by simp)
  | halt call stopped =>
      have hdown := h.unhalted (hflags.halt_notMem stopped)
      constructor <;> simp [hdown]
  | down call shut =>
      obtain ⟨hhalt, -⟩ := h.halting.mp call
      refine ⟨by simp, by simp, by simp [hhalt], fun _ r => ?_⟩
      exact List.mem_append_left _ ((hflags.shut r).mp (shut r))
  | refuse | shut | begun | asked | ended => exact h.skip (by simp) (by simp)

lemma Story.initial (c : ℕ) :
    Story [] c ((initial : Service n).life c) ((initial : Service n).asked c) := by
  constructor <;> simp [Service.initial]

/-- An event of another session, or of none. -/
lemma Story.skip {c : ℕ} {life : Life n} {asked : Bool}
    (h : Story seen c life asked) (hbegun : ∀ r, .begun c r ≠ e) (hasked : ∀ r, .asked c r ≠ e)
    (hended : .ended c ≠ e) : Story (seen ++ [e]) c life asked := by
  have old : ∀ e', e' ≠ e → (e' ∈ seen ++ [e] ↔ e' ∈ seen) := fun e' hne => by simp [hne]
  constructor
  · simpa only [old _ (hasked _)] using h.asked
  · simpa only [old _ (hbegun _)] using h.unbegun
  · simpa only [old _ (hbegun _)] using h.served
  · simpa only [old _ hended] using h.ended
  · simpa only [old _ (hasked _)] using h.own

lemma Story.step {c : ℕ} (h : Story seen c (x.life c) (x.asked c)) (hmove : Move x e y) :
    Story (seen ++ [e]) c (y.life c) (y.asked c) := by
  cases hmove with
  | begun c' r _ _ life asked =>
      by_cases hc : c = c'
      · subst hc
        have hunbegun := h.unbegun.mp life
        have hunasked : ∀ q, .asked c q ∉ seen := fun q hq => by simp [h.asked.mpr ⟨q, hq⟩] at asked
        have hunended : .ended c ∉ seen := fun hq => by simp [h.ended.mpr hq] at life
        constructor <;> simp [hunbegun, hunasked, hunended, asked]
      · simpa [hc] using h.skip (e := .begun c' r) (by simp [hc]) (by simp) (by simp)
  | asked c' r _ asked life =>
      by_cases hc : c = c'
      · subst hc
        have hunasked : ∀ q, .asked c q ∉ seen := fun q hq => by simp [h.asked.mpr ⟨q, hq⟩] at asked
        constructor <;> simp [hunasked, h.ended, h.unbegun]
        · simpa [h.ended] using h.served
        · rcases life with life | life <;> simp [life]
      · simpa [hc] using h.skip (e := .asked c' r) (by simp) (by simp [hc]) (by simp)
  | ended c' r life =>
      by_cases hc : c = c'
      · subst hc
        have hbegun : ∃ q, .begun c q ∈ seen := by
          by_contra hnone
          simp [h.unbegun.mpr (not_exists.mp hnone)] at life
        constructor <;> simp [h.asked, hbegun]
      · simpa [hc] using h.skip (e := .ended c') (by simp) (by simp) (by simp [hc])
  | _ => exact h.skip (by simp) (by simp) (by simp)

end Steps

/-- The state of a service is what its events have made of it. -/
structure Ledger (seen : List (Event n)) (x : Service n) : Prop where
  flags : Flags seen x
  opening : Opening seen x.call
  closing : Closing seen x.call
  story : ∀ c, Story seen c (x.life c) (x.asked c)

lemma ledger_of_run {seen : List (Event n)} {x : Service n}
    (h : machine.run initial seen = some x) : Ledger seen x :=
  Machine.run_induction (I := Ledger) ⟨.initial, .initial, .initial, .initial⟩
    (fun _ _ _ _ hledger hstep =>
      have hmove := move_of_step hstep
      ⟨hledger.flags.step hmove, hledger.opening.step hledger.flags hmove,
        hledger.closing.step hledger.flags hmove, fun c => (hledger.story c).step hmove⟩) h

namespace Ledger

variable {seen : List (Event n)} {x : Service n} (h : Ledger seen x)
include h

lemma unshut {r : Fin (n + 1)} (hshut : x.shut r = false) : .shut r ∉ seen ∧ .down ∉ seen := by
  have hmem : .shut r ∉ seen := fun hmem => by simp [(h.flags.shut r).mpr hmem] at hshut
  exact ⟨hmem, fun hdown => hmem (h.closing.down hdown r)⟩

lemma unasked {c : ℕ} (hasked : x.asked c = false) (q : Fin (n + 1)) : .asked c q ∉ seen :=
  fun hmem => by simp [(h.story c).asked.mpr ⟨q, hmem⟩] at hasked

/-- What an event rests on is what has come before it. -/
lemma follows {y : Service n} {e : Event n} (hmove : Move x e y) : e.Follows seen := by
  cases hmove with
  | start _ started stopped => exact ⟨h.flags.start_notMem started, h.flags.halt_notMem stopped⟩
  | refuse _ flags => exact flags.imp h.flags.started.mp h.flags.stopped.mp
  | up call => exact h.opening.starting call
  | fail call => exact h.opening.starting call
  | stop call => exact h.closing.down_of_halt (by simp [call])
  | again call stopped => exact h.closing.down_of_halt (by simp [call]) (h.flags.stopped.mp stopped)
  | halt call stopped => exact ⟨h.flags.halt_notMem stopped, h.closing.stopping call⟩
  | shut r call shut =>
      exact ⟨(h.closing.halting.mp call).1, (h.unshut shut).1, (h.closing.halting.mp call).2⟩
  | down call shut asked =>
      refine ⟨(h.closing.halting.mp call).1, (h.closing.halting.mp call).2,
        fun r => (h.flags.shut r).mp (shut r), fun c r hbegun => ?_⟩
      rcases (h.story c).served r hbegun with life | life
      · obtain ⟨q, hq⟩ := (h.story c).asked.mp (asked c r life)
        exact .inr ((h.story c).own r q life hq ▸ hq)
      · exact .inl ((h.story c).ended.mp life)
  | begun c r started shut life asked =>
      exact ⟨h.flags.started.mp started, (h.unshut shut).1, (h.unshut shut).2,
        fun q => ⟨(h.story c).unbegun.mp life q, h.unasked asked q⟩⟩
  | asked c r shut asked life =>
      refine ⟨(h.flags.shut r).mp shut, fun hended => ?_, h.unasked asked, fun q hbegun => ?_⟩
      · rcases life with life | life <;> simp [(h.story c).ended.mpr hended] at life
      · rcases life with life | life
        · exact absurd hbegun ((h.story c).unbegun.mp life q)
        · have hserved : r = q := by simpa [life] using (h.story c).served q hbegun
          exact hserved.symm
  | ended c r life =>
      refine ⟨fun hended => by simp [(h.story c).ended.mpr hended] at life, ?_⟩
      by_contra hnone
      simp [(h.story c).unbegun.mpr (not_exists.mp hnone)] at life

end Ledger

/-- **Every event of a run follows from those before it.** -/
theorem follows_of_run {before after : List (Event n)} {e : Event n} {x : Service n}
    (h : machine.run initial (before ++ e :: after) = some x) : e.Follows before := by
  obtain ⟨y, z, hy, hz⟩ := Machine.exists_step_of_run h
  exact (ledger_of_run hy).follows (move_of_step hz)

end Service

end ReactorRuntime
