import ReactorRuntime.Lag.Snapshot
import ReactorRuntime.Library.Machine

/-!
# The probe's timer

A `LagProbe` keeps a timer going on a loop and records how late each wake is
(`reactor_lag.h:115-124`, `141-193`).  `start()` arms the timer once; from then on every completion
arms it again, until `stop()` is noticed.  `stop()` sets a flag and posts a cancel, from any thread.
The completion of a wait that has expired is queued as a success, and a cancel that is executed
before it does not reach it: what ends the wakes then is the flag.

The operation of a wait lives in a slot of the probe.  A second one would find the slot taken and go
to the heap; there is never a second one.  The code reads the flag with relaxed order, and may find
an old value; not once the cancel has been executed, for its post came after the flag.  Both are in
`probe_keeps_one_wait_until_cancel`.

The steps of `tick()` are separate here, since the other threads may act between them.  Which
interval a wait is armed for is left open: a pending wait may expire whenever it likes.
-/

namespace ReactorRuntime

/-- How far a wait has come. -/
inductive LagWaitStatus
  | pending
  /-- It has expired: its completion is queued, without an error. -/
  | expired
  /-- It was cancelled: its completion is queued, with an error. -/
  | aborted
  deriving DecidableEq, Repr

/-- A wait whose completion has not been executed. -/
structure LagWait where
  status : LagWaitStatus
  /-- Its operation is in the slot, not on the heap. -/
  inSlot : Bool
  deriving DecidableEq, Repr

/-- What becomes of a wait when the timer is cancelled, or set anew. -/
def LagWait.abort (w : LagWait) : LagWait :=
  { w with status := if w.status = .pending then .aborted else w.status }

/-- What the loop does for the probe. -/
inductive LagLoop
  | idle
  /-- In `tick()`, before `stopped.load()`. -/
  | checking
  /-- In `tick()`, before the counters. -/
  | recording
  /-- In `tick()`, before `arm()`. -/
  | arming
  deriving DecidableEq, Repr

/-- A `LagProbe`, its callers and its loop. -/
structure LagProbe where
  started : Bool
  stopped : Bool
  /-- A `start()` has set `started`, and not yet armed. -/
  starting : Bool
  /-- How many calls of `stop()` have found `started` set, and not yet exchanged `stopped`. -/
  stopping : ℕ
  /-- How many calls of `stop()` have set `stopped`, and not yet posted. -/
  posting : ℕ
  /-- How many cancels were posted and not yet executed. -/
  posted : ℕ
  waits : List LagWait
  slotUsed : Bool
  loop : LagLoop
  counters : LagSnapshot
  /-- Record: how often `arm()` was executed. -/
  armed : ℕ
  /-- Record: how many operations went to the heap. -/
  heap : ℕ
  /-- Record: a cancel was executed. -/
  cancelled : Bool

namespace LagProbe

/-- What can happen next. -/
inductive Act
  /-- `start()` is called, and exchanges `started`. -/
  | start
  /-- The call that has set `started` arms the timer. -/
  | startArm
  /-- `stop()` is called, and loads `started`. -/
  | stop
  /-- A call of `stop()` exchanges `stopped`. -/
  | exchange
  /-- A call of `stop()` posts the cancel. -/
  | post
  /-- The loop executes a cancel. -/
  | cancel
  /-- Wait `k` expires. -/
  | expire (k : ℕ)
  /-- The loop takes the completion of wait `k`: its memory is released, then `tick()` is called. -/
  | complete (k : ℕ)
  /-- `tick()` loads `stopped`, and finds `found`. -/
  | check (found : Bool)
  /-- `tick()` records a wake that is `us` microseconds late. -/
  | record (us : ℕ)
  /-- `tick()` arms the timer again. -/
  | rearm
  deriving DecidableEq, Repr

def initial : LagProbe where
  started := false
  stopped := false
  starting := false
  stopping := 0
  posting := 0
  posted := 0
  waits := []
  slotUsed := false
  loop := .idle
  counters := .empty
  armed := 0
  heap := 0
  cancelled := false

/-- `State::arm()`: setting the timer anew cancels what is pending, and `async_wait` allocates its
operation. -/
def arm (s : LagProbe) : LagProbe :=
  { s with
    waits := ⟨.pending, !s.slotUsed⟩ :: s.waits.map LagWait.abort
    slotUsed := true
    heap := if s.slotUsed then s.heap + 1 else s.heap
    armed := s.armed + 1 }

/-- The loop takes the completion of wait `k`, which is `w`. -/
def take (s : LagProbe) (k : ℕ) (w : LagWait) : LagProbe :=
  { s with
    waits := s.waits.eraseIdx k
    slotUsed := if w.inSlot then false else s.slotUsed
    -- with an error `tick()` returns
    loop := if w.status = .expired then .checking else .idle }

/-- One action. -/
def step (s : LagProbe) : Act → Option LagProbe
  | .start => some (if s.started then s else { s with started := true, starting := true })
  | .startArm => if s.starting = true then some { s.arm with starting := false } else none
  | .stop => some (if s.started then { s with stopping := s.stopping + 1 } else s)
  | .exchange =>
      if 0 < s.stopping then
        some (if s.stopped then { s with stopping := s.stopping - 1 }
        else
          { s with stopping := s.stopping - 1, stopped := true, posting := s.posting + 1 })
      else none
  | .post =>
      if 0 < s.posting then some { s with posting := s.posting - 1, posted := s.posted + 1 }
      else none
  | .cancel =>
      if s.loop = .idle ∧ 0 < s.posted then
        some { s with
          posted := s.posted - 1
          waits := s.waits.map LagWait.abort
          cancelled := true }
      else none
  | .expire k =>
      match s.waits[k]? with
      | some w =>
          if w.status = .pending then
            some { s with waits := s.waits.set k { w with status := .expired } }
          else none
      | none => none
  | .complete k =>
      match s.waits[k]? with
      | some w => if s.loop = .idle ∧ w.status ≠ .pending then some (s.take k w) else none
      | none => none
  | .check found =>
      -- the load may find an old value until the cancel has been executed
      if s.loop = .checking ∧ (found = s.stopped ∨ found = false ∧ s.cancelled = false) then
        some { s with loop := if found then .idle else .recording }
      else none
  | .record us =>
      if s.loop = .recording then
        some { s with counters := s.counters.record us, loop := .arming }
      else none
  | .rearm => if s.loop = .arming then some { s.arm with loop := .idle } else none

/-- The probe as a machine. -/
def machine : Machine LagProbe Act where
  init := initial
  step := step

/-! ## What a step can be -/

/-- The steps of the probe, by what they do. -/
inductive Move (s : LagProbe) : Act → LagProbe → Prop
  | start (first : s.started = false) :
      Move s .start { s with started := true, starting := true }
  | startAgain : Move s .start s
  | startArm (starting : s.starting = true) : Move s .startArm { s.arm with starting := false }
  | stop (started : s.started = true) : Move s .stop { s with stopping := s.stopping + 1 }
  | stopEarly : Move s .stop s
  | exchange (called : 0 < s.stopping) (first : s.stopped = false) :
      Move s .exchange
        { s with stopping := s.stopping - 1, stopped := true, posting := s.posting + 1 }
  | exchangeAgain (called : 0 < s.stopping) :
      Move s .exchange { s with stopping := s.stopping - 1 }
  | post (posting : 0 < s.posting) :
      Move s .post { s with posting := s.posting - 1, posted := s.posted + 1 }
  | cancel (idle : s.loop = .idle) (posted : 0 < s.posted) :
      Move s .cancel
        { s with posted := s.posted - 1, waits := s.waits.map LagWait.abort, cancelled := true }
  | expire {k : ℕ} {w : LagWait} (hw : s.waits[k]? = some w) :
      Move s (.expire k) { s with waits := s.waits.set k { w with status := .expired } }
  | complete {k : ℕ} {w : LagWait} (hw : s.waits[k]? = some w) (idle : s.loop = .idle) :
      Move s (.complete k) (s.take k w)
  | check {found : Bool} (checking : s.loop = .checking)
      (load : found = s.stopped ∨ found = false ∧ s.cancelled = false) :
      Move s (.check found) { s with loop := if found then .idle else .recording }
  | record {us : ℕ} (recording : s.loop = .recording) :
      Move s (.record us) { s with counters := s.counters.record us, loop := .arming }
  | rearm (arming : s.loop = .arming) : Move s .rearm { s.arm with loop := .idle }

variable {s t : LagProbe} {act : Act}

lemma move_of_step (hstep : s.step act = some t) : Move s act t := by
  cases act with
  | start =>
      cases hstep
      split
      · exact .startAgain
      · rename_i first
        exact .start (Bool.eq_false_of_not_eq_true first)
  | startArm =>
      obtain ⟨starting, heq⟩ := Option.ite_none_right_eq_some.mp hstep
      cases heq
      exact .startArm starting
  | stop =>
      cases hstep
      split
      · rename_i started
        exact .stop started
      · exact .stopEarly
  | exchange =>
      obtain ⟨called, heq⟩ := Option.ite_none_right_eq_some.mp hstep
      cases heq
      split
      · exact .exchangeAgain called
      · rename_i first
        exact .exchange called (Bool.eq_false_of_not_eq_true first)
  | post =>
      obtain ⟨posting, heq⟩ := Option.ite_none_right_eq_some.mp hstep
      cases heq
      exact .post posting
  | cancel =>
      obtain ⟨⟨idle, posted⟩, heq⟩ := Option.ite_none_right_eq_some.mp hstep
      cases heq
      exact .cancel idle posted
  | expire k =>
      simp only [step] at hstep
      split at hstep
      · rename_i w hw
        obtain ⟨-, heq⟩ := Option.ite_none_right_eq_some.mp hstep
        cases heq
        exact .expire hw
      · cases hstep
  | complete k =>
      simp only [step] at hstep
      split at hstep
      · rename_i w hw
        obtain ⟨⟨idle, -⟩, heq⟩ := Option.ite_none_right_eq_some.mp hstep
        cases heq
        exact .complete hw idle
      · cases hstep
  | check found =>
      obtain ⟨⟨checking, load⟩, heq⟩ := Option.ite_none_right_eq_some.mp hstep
      cases heq
      exact .check checking load
  | record us =>
      obtain ⟨recording, heq⟩ := Option.ite_none_right_eq_some.mp hstep
      cases heq
      exact .record recording
  | rearm =>
      obtain ⟨arming, heq⟩ := Option.ite_none_right_eq_some.mp hstep
      cases heq
      exact .rearm arming

/-! ## One wait -/

/-- 1 while the loop is in `tick()`. -/
def ticking : LagLoop → ℕ
  | .idle => 0
  | _ => 1

/-- There is one thing at a time that keeps the timer going: a `start()` that is about to arm it, a
wait, or a `tick()`; and the slot is taken while there is a wait. -/
structure Single (s : LagProbe) : Prop where
  one : s.waits.length + ticking s.loop + s.starting.toNat ≤ s.started.toNat
  inSlot : ∀ w ∈ s.waits, w.inSlot = true
  slot : s.slotUsed = true ↔ s.waits ≠ []
  heap : s.heap = 0

namespace Single

/-- An `arm()` when there is no wait: its operation goes to the slot. -/
lemma arm {u : LagProbe} (h : s.Single) (hnone : s.waits = []) (hwaits : u.waits = s.arm.waits)
    (hslot : u.slotUsed = true) (hheap : u.heap = s.arm.heap)
    (hone : 1 + ticking u.loop + u.starting.toNat ≤ u.started.toNat) : u.Single := by
  have hfree : s.slotUsed = false := Bool.eq_false_of_not_eq_true fun hused => h.slot.mp hused hnone
  have hwait : u.waits = [⟨.pending, true⟩] := by
    rw [hwaits, LagProbe.arm, hnone, hfree]
    rfl
  refine ⟨?_, ?_, ?_, ?_⟩
  · rw [hwait]
    exact hone
  · rw [hwait]
    intro w hw
    rw [List.mem_singleton.mp hw]
  · rw [hwait, hslot]
    exact iff_of_true rfl (List.cons_ne_nil _ _)
  · rw [hheap, LagProbe.arm, hfree]
    exact h.heap

/-- The waits change their status only. -/
lemma restatus {u : LagProbe} (h : s.Single) (hlen : u.waits.length = s.waits.length)
    (hin : ∀ w ∈ u.waits, w.inSlot = true) (hloop : u.loop = s.loop)
    (hstarts : u.starting = s.starting ∧ u.started = s.started)
    (hmemory : u.slotUsed = s.slotUsed ∧ u.heap = s.heap) : u.Single := by
  refine ⟨?_, hin, ?_, hmemory.2.trans h.heap⟩
  · rw [hlen, hloop, hstarts.1, hstarts.2]
    exact h.one
  · rw [hmemory.1, h.slot, ← List.length_pos_iff, ← List.length_pos_iff, hlen]

/-- The one wait is completed. -/
lemma take (h : s.Single) {k : ℕ} {w : LagWait} (hw : s.waits[k]? = some w) :
    (s.take k w).Single := by
  have hone := h.one
  have hstarted := Bool.toNat_le s.started
  obtain ⟨hlt, heq⟩ := List.getElem?_eq_some_iff.mp hw
  have hslot : w.inSlot = true := h.inSlot w (heq ▸ List.getElem_mem hlt)
  have hnone : (s.take k w).waits = [] := by
    apply List.eq_nil_of_length_eq_zero
    show (s.waits.eraseIdx k).length = 0
    rw [List.length_eraseIdx_of_lt hlt]
    omega
  refine ⟨?_, ?_, ?_, h.heap⟩
  · have htick : ticking (s.take k w).loop ≤ 1 := by
      cases (s.take k w).loop <;> simp [ticking]
    have hwaits : 0 < s.waits.length := Nat.lt_of_le_of_lt (Nat.zero_le k) hlt
    rw [hnone]
    show 0 + ticking (s.take k w).loop + s.starting.toNat ≤ s.started.toNat
    omega
  · rw [hnone]
    exact fun _ hmem => absurd hmem List.not_mem_nil
  · rw [hnone]
    show (if w.inSlot then false else s.slotUsed) = true ↔ _
    rw [hslot]
    exact iff_of_false Bool.false_ne_true (fun hne => hne rfl)

lemma move (h : s.Single) (hmove : Move s act t) : t.Single := by
  have hone := h.one
  cases hmove with
  | start first =>
      rw [first, Bool.toNat_false] at hone
      refine ⟨?_, h.inSlot, h.slot, h.heap⟩
      show s.waits.length + ticking s.loop + 1 ≤ 1
      omega
  | startAgain => exact h
  | startArm starting =>
      rw [starting, Bool.toNat_true] at hone
      have hstarted := Bool.toNat_le s.started
      refine h.arm (List.eq_nil_of_length_eq_zero (by omega)) rfl rfl rfl ?_
      show 1 + ticking s.loop + 0 ≤ s.started.toNat
      omega
  | stop started => exact ⟨h.one, h.inSlot, h.slot, h.heap⟩
  | stopEarly => exact h
  | exchange called first => exact ⟨h.one, h.inSlot, h.slot, h.heap⟩
  | exchangeAgain called => exact ⟨h.one, h.inSlot, h.slot, h.heap⟩
  | post posting => exact ⟨h.one, h.inSlot, h.slot, h.heap⟩
  | cancel idle posted =>
      refine h.restatus (List.length_map ..) ?_ rfl ⟨rfl, rfl⟩ ⟨rfl, rfl⟩
      intro w hw
      obtain ⟨w₀, hw₀, rfl⟩ := List.mem_map.mp hw
      exact h.inSlot w₀ hw₀
  | @expire k w hw =>
      refine h.restatus List.length_set ?_ rfl ⟨rfl, rfl⟩ ⟨rfl, rfl⟩
      intro w' hw'
      rcases List.mem_or_eq_of_mem_set hw' with hmem | rfl
      · exact h.inSlot w' hmem
      · exact h.inSlot w (List.mem_of_getElem? hw)
  | complete hw _ => exact h.take hw
  | @check found checking load =>
      rw [checking] at hone
      refine ⟨?_, h.inSlot, h.slot, h.heap⟩
      show s.waits.length + ticking (if found then .idle else .recording) + s.starting.toNat ≤ _
      cases found with
      | true => exact Nat.le_trans (by simp [ticking]) hone
      | false => exact hone
  | record recording =>
      rw [recording] at hone
      exact ⟨hone, h.inSlot, h.slot, h.heap⟩
  | rearm arming =>
      rw [arming] at hone
      change s.waits.length + 1 + s.starting.toNat ≤ s.started.toNat at hone
      have hstarted := Bool.toNat_le s.started
      refine h.arm (List.eq_nil_of_length_eq_zero (by omega)) rfl rfl rfl ?_
      show 1 + 0 + s.starting.toNat ≤ s.started.toNat
      omega

end Single

lemma single_of_reachable (hs : machine.Reachable s) : s.Single := by
  apply hs.invariant (I := Single)
  · exact ⟨Nat.le_refl 0, fun _ hw => absurd hw List.not_mem_nil,
      iff_of_false Bool.false_ne_true (fun hne => hne rfl), rfl⟩
  · intro s act t h _ hstep
    exact h.move (move_of_step hstep)

/-- What the calls of `stop()` have seen and done. -/
structure Told (s : LagProbe) : Prop where
  started : 0 < s.stopping ∨ 0 < s.posting ∨ 0 < s.posted ∨ s.cancelled = true →
    s.started = true
  stopped : 0 < s.posting ∨ 0 < s.posted ∨ s.cancelled = true → s.stopped = true
  /-- Once the cancel was executed `tick()` does not get past its check. -/
  quiet : s.cancelled = true → s.loop = .idle ∨ s.loop = .checking

namespace Told

/-- Once the cancel was executed, the flag is found set. -/
lemma found_of_cancelled (h : s.Told) {found : Bool} (hcancelled : s.cancelled = true)
    (load : found = s.stopped ∨ found = false ∧ s.cancelled = false) : found = true := by
  rcases load with heq | ⟨-, hnot⟩
  · rw [heq]
    exact h.stopped (.inr (.inr hcancelled))
  · rw [hcancelled] at hnot
    cases hnot

lemma not_cancelled (h : s.Told) (hloop : s.loop = .recording ∨ s.loop = .arming) :
    s.cancelled ≠ true := by
  intro hcancelled
  rcases h.quiet hcancelled with hidle | hchecking
  · rw [hidle] at hloop
    rcases hloop with hloop | hloop <;> cases hloop
  · rw [hchecking] at hloop
    rcases hloop with hloop | hloop <;> cases hloop

lemma move (h : s.Told) (hmove : Move s act t) : t.Told := by
  cases hmove with
  | start first => exact ⟨fun _ => rfl, h.stopped, h.quiet⟩
  | startAgain => exact h
  | startArm starting => exact ⟨h.started, h.stopped, h.quiet⟩
  | stop started => exact ⟨fun _ => started, h.stopped, h.quiet⟩
  | stopEarly => exact h
  | exchange called first =>
      exact ⟨fun _ => h.started (.inl called), fun _ => rfl, h.quiet⟩
  | exchangeAgain called => exact ⟨fun _ => h.started (.inl called), h.stopped, h.quiet⟩
  | post posting =>
      exact ⟨fun _ => h.started (.inr (.inl posting)), fun _ => h.stopped (.inl posting), h.quiet⟩
  | cancel idle posted =>
      exact ⟨fun _ => h.started (.inr (.inr (.inl posted))),
        fun _ => h.stopped (.inr (.inl posted)), fun _ => .inl idle⟩
  | expire hw => exact ⟨h.started, h.stopped, h.quiet⟩
  | @complete k w hw idle =>
      refine ⟨h.started, h.stopped, fun _ => ?_⟩
      by_cases hexpired : w.status = .expired
      · exact .inr (if_pos hexpired)
      · exact .inl (if_neg hexpired)
  | check checking load =>
      refine ⟨h.started, h.stopped, fun hcancelled => .inl ?_⟩
      rw [h.found_of_cancelled hcancelled load]
      rfl
  | record recording =>
      exact ⟨h.started, h.stopped,
        fun hcancelled => absurd hcancelled (h.not_cancelled (.inl recording))⟩
  | rearm arming => exact ⟨h.started, h.stopped, fun _ => .inl rfl⟩

end Told

/-- `t` is later than `s`: a cancel was executed, and since `s` no wake was recorded and no wait
armed but the first one of a `start()`. -/
structure Over (s t : LagProbe) : Prop where
  told : t.Told
  cancelled : t.cancelled = true
  counters : t.counters = s.counters
  armed : t.armed + t.starting.toNat = s.armed + s.starting.toNat

lemma Over.move {u : LagProbe} (h : Over s t) (hmove : Move t act u) : Over s u := by
  have told := h.told.move hmove
  cases hmove with
  | start first =>
      -- no cancel is executed before the probe was started
      rw [h.told.started (.inr (.inr (.inr h.cancelled)))] at first
      cases first
  | startAgain => exact h
  | startArm starting =>
      refine ⟨told, h.cancelled, h.counters, ?_⟩
      rw [← h.armed, starting]
      rfl
  | stop started => exact ⟨told, h.cancelled, h.counters, h.armed⟩
  | stopEarly => exact h
  | exchange called first => exact ⟨told, h.cancelled, h.counters, h.armed⟩
  | exchangeAgain called => exact ⟨told, h.cancelled, h.counters, h.armed⟩
  | post posting => exact ⟨told, h.cancelled, h.counters, h.armed⟩
  | cancel idle posted => exact ⟨told, rfl, h.counters, h.armed⟩
  | expire hw => exact ⟨told, h.cancelled, h.counters, h.armed⟩
  | complete hw idle => exact ⟨told, h.cancelled, h.counters, h.armed⟩
  | check checking load => exact ⟨told, h.cancelled, h.counters, h.armed⟩
  | record recording => exact absurd h.cancelled (h.told.not_cancelled (.inl recording))
  | rearm arming => exact absurd h.cancelled (h.told.not_cancelled (.inr arming))

end LagProbe

end ReactorRuntime
