import Mathlib.Data.Finset.Card
import ReactorRuntime.Library.Monitor
import ReactorRuntime.Sync.ExactlyOnce

/-!
# The callers of `on_loop_sync` are woken

In the machine of `Sync/OnLoopSync.lean` the wait of a call ends by a guarded step.  The source has
`sync_changed_` behind it (`reactor.h:224`, `reactor.h:289-292`).  A handler that has run the
function notifies with `sync_mutex_` held, and `release_loop()` notifies when it has given the
mutex up; nothing else does, although `sync_open_` and `loops_` are written elsewhere too.
`monitor` spells the wait out, and `sleeping_caller_is_woken` says that no caller sleeps through
its wake-up.

Then the callers get on.  One of them at a time holds `sync_call_`; its handler is queued, looked
at, or taken, and whichever it is, the loop threads can bring it to its end, unless the function
throws on the loop or the numbers have run out (`answerable_of_waiting`).  So the holder returns,
the next one gets the mutex, and so every call can return (`on_loop_sync_can_return`).
-/

namespace ReactorRuntime

/-- How far a call that is past `sync_call_`, or needs no mutex, is from its end. -/
def CallPc.rank : CallPc → ℕ
  | .holding => 6
  | .numbered _ => 5
  | .opened _ => 4
  | .waiting _ => 3
  | .ready => 2
  | .running => 1
  | _ => 0

/-- The numbers a call that holds `sync_call_` is still to be given. -/
def CallPc.toGive : CallPc → ℕ
  | .holding => 1
  | _ => 0

lemma CallPc.toGive_le (pc : CallPc) : pc.toGive ≤ 1 := by
  cases pc <;> simp [toGive]

namespace Sync

variable {κ θ : Type*} [DecidableEq κ] [DecidableEq θ]

/-- The predicate that call `id` waits for. -/
def answered (s : Sync κ θ) (id : ℕ) : Bool :=
  decide (s.sync_done_ = id) || (decide (s.sync_open_ = id) && decide (s.loops_ = 0))

/-- The call whose statement an action is. -/
def caller : Act κ θ → Option κ
  | .enter c _ => some c
  | .lock c => some c
  | .number c => some c
  | .openCall c => some c
  | .post c => some c
  | .postFails c => some c
  | .wake c => some c
  | .runSelf c => some c
  | .finishSelf c => some c
  | .failSelf c => some c
  | _ => none

/-- The waits of the callers on `sync_changed_`. -/
def monitor : Monitor (machine (κ := κ) (θ := θ)) κ Unit where
  waits s c := match s.call c with
    | .waiting _ => some ()
    | _ => none
  holds s c := match s.call c with
    | .waiting id => s.answered id
    | _ => false
  timed _ _ := false
  party := caller
  -- the handler's last block
  within _ act := match act with
    | .report _ => some ()
    | _ => none
  -- `release_loop()`
  after _ act := match act with
    | .release _ => some ()
    | _ => none

variable {s s' : Sync κ θ} {act : Act κ θ} {c : κ} {id : ℕ}

omit [DecidableEq κ] [DecidableEq θ] in
lemma answered_iff : s.answered id = true ↔
    s.sync_done_ = id ∨ s.sync_open_ = id ∧ s.loops_ = 0 := by
  simp [answered]

lemma waits_eq_some {i : Unit} (h : (monitor (θ := θ)).waits s c = some i) :
    ∃ id, s.call c = .waiting id := by
  simp only [monitor] at h
  split at h
  · exact ⟨_, ‹_›⟩
  · cases h

/-- Nobody moves a call but its caller. -/
lemma call_of_move (hmove : Move s act s') (hnot : caller act ≠ some c) :
    s'.call c = s.call c := by
  cases hmove with
  | claim | release | pick | takeNone | take | run | finish | crash | report => rfl
  | _ => exact Function.update_of_ne (fun heq => hnot (congrArg some heq.symm)) _ _

/-- `loops_` counts the threads that have claimed the loop. -/
def Claimed (s : Sync κ θ) : Prop :=
  ∃ threads : Finset θ, (∀ t, t ∈ threads ↔ s.thread t ≠ .away) ∧ threads.card = s.loops_

omit [DecidableEq κ] in
/-- A thread that stays in the loop is counted as before. -/
lemma Claimed.turn (h : s.Claimed) {t : θ} {pc : ThreadPc κ} (hpc : pc ≠ .away)
    (hwas : s.thread t ≠ .away) (hthread : s'.thread = Function.update s.thread t pc)
    (hloops : s'.loops_ = s.loops_) : s'.Claimed := by
  obtain ⟨threads, hmem, hcard⟩ := h
  refine ⟨threads, ?_, hcard.trans hloops.symm⟩
  intro t'
  rw [hmem, hthread]
  by_cases ht : t' = t
  · subst ht
    simp [hpc, hwas]
  · simp [ht]

lemma Claimed.move (h : s.Claimed) (hmove : Move s act s') : s'.Claimed := by
  cases hmove with
  | @claim t pc =>
      obtain ⟨threads, hmem, hcard⟩ := h
      have hnot : t ∉ threads := by simp [hmem, pc]
      refine ⟨insert t threads, ?_, ?_⟩
      · intro t'
        by_cases ht : t' = t
        · subst ht
          simp [Sync.turn]
        · simp [Sync.turn, ht, hmem]
      · simp [Sync.turn, Finset.card_insert_of_notMem hnot, hcard]
  | @release t pc =>
      obtain ⟨threads, hmem, hcard⟩ := h
      have hin : t ∈ threads := by simp [hmem, pc]
      refine ⟨threads.erase t, ?_, ?_⟩
      · intro t'
        by_cases ht : t' = t
        · subst ht
          simp [Sync.turn]
        · simp [Sync.turn, ht, hmem]
      · simp [Sync.turn, Finset.card_erase_of_mem hin, hcard]
  | pick pc | takeNone pc | take pc | run pc | finish pc | crash pc | report pc =>
      exact h.turn (by simp) (by simp [pc]) rfl rfl
  | _ => exact h

lemma claimed_of_reachable (hs : (machine (κ := κ) (θ := θ)).Reachable s) : s.Claimed := by
  refine hs.invariant ⟨∅, ?_, rfl⟩ fun _ _ _ h _ hstep => h.move (move_of_step hstep)
  simp [machine, initial]

/-- What answers a call that waits is a handler that reports, or a thread that leaves. -/
lemma answered_of_move (h : s.Numbered) (hclaimed : s.Claimed) (hmove : Move s act s')
    (hnot : caller act ≠ some c) (hwait : s.call c = .waiting id) (hbefore : s.answered id = false)
    (hafter : s'.answered id = true) : (∃ t, act = .report t) ∨ ∃ t, act = .release t := by
  have hnum : (s.call c).number = some id := by rw [hwait]; rfl
  have hsame : s'.sync_done_ = s.sync_done_ → s'.sync_open_ = s.sync_open_ →
      s'.loops_ = s.loops_ → False := by
    intro hdone hopen hloops
    simp [answered, hdone, hopen, hloops] at hafter
    simp [answered] at hbefore
    grind
  cases hmove with
  | report => exact .inl ⟨_, rfl⟩
  | release => exact .inr ⟨_, rfl⟩
  | @openCall c₀ _ pc =>
      -- the mutex `sync_call_` belongs to the call that waits
      have hc₀ := h.eq_of_number (c := c₀) (by rw [pc]; rfl) hnum
      exact absurd (congrArg some hc₀) hnot
  | @wakeSelf c₀ _ pc =>
      have hc₀ := h.eq_of_number (c := c₀) (by rw [pc]; rfl) hnum
      exact absurd (congrArg some hc₀) hnot
  | claim pc =>
      rw [answered_iff] at hafter
      simp only [turn, Nat.add_eq_zero_iff, one_ne_zero, and_false, or_false] at hafter
      simp [answered, hafter] at hbefore
  | @take t _ _ pc isOpen =>
      rw [answered_iff] at hafter
      simp only [turn] at hafter
      rcases hafter with hdone | ⟨-, hzero⟩
      · simp [answered, hdone] at hbefore
      · -- the thread that takes a call is in the loop
        obtain ⟨threads, hmem, hcard⟩ := hclaimed
        rw [hzero, Finset.card_eq_zero] at hcard
        exact absurd ((hmem t).mpr (by simp [pc])) (by simp [hcard])
  | _ => exact (hsame rfl rfl rfl).elim

/-- The waits of the callers are safe. -/
theorem monitor_sound (ok : Sync κ θ → Act κ θ → Prop) : (monitor (κ := κ) (θ := θ)).Sound ok where
  stays {s s' act c i} _ _ hstep hnot hwait := by
    have hcall := call_of_move (move_of_step hstep) hnot
    simpa only [monitor, hcall] using hwait
  tells {s s' act c i} hs _ hstep hnot hwait hbefore hafter := by
    have hmove := move_of_step hstep
    obtain ⟨id, hid⟩ := waits_eq_some hwait
    have hid' : s'.call c = .waiting id := (call_of_move hmove hnot).trans hid
    simp only [monitor, hid] at hbefore
    simp only [monitor, hid'] at hafter
    rcases answered_of_move (numbered_of_reachable hs.reachable)
      (claimed_of_reachable hs.reachable) hmove hnot hid hbefore hafter with ⟨t, rfl⟩ | ⟨t, rfl⟩
    · exact .inl rfl
    · exact .inr rfl
  goes {s s' act c i} _ _ hstep hparty hwait := by
    obtain ⟨id, hid⟩ := waits_eq_some hwait
    refine .inl ?_
    simp only [monitor, hid, answered_iff]
    have hmove := move_of_step hstep
    cases hmove <;> cases hparty <;> simp_all

/-- **No caller sleeps through its wake-up.**  In every run, with any calls, loop threads and
functions, throwing ones included: a caller that sleeps is at its wait, and if what it waits for is
the case a notification is coming. -/
theorem sleeping_caller_is_woken {x : Monitor.State (Sync κ θ) κ Unit}
    (hx : (monitor (κ := κ) (θ := θ)).machine.Reachable x) (hasleep : x.asleep c = true) :
    ∃ id, x.base.call c = .waiting id ∧
      (x.base.sync_done_ = id ∨ x.base.sync_open_ = id ∧ x.base.loops_ = 0 → 0 < x.owed ()) := by
  have hx' : (monitor (κ := κ) (θ := θ)).machine.ReachableUnder
      (Monitor.Lifted fun _ _ => True) x := hx.mono fun _ b _ => by cases b <;> trivial
  obtain ⟨i, hwait, howed⟩ := Monitor.asleep_of_reachable (monitor_sound _) hx' hasleep
  obtain ⟨id, hid⟩ := waits_eq_some hwait
  refine ⟨id, hid, ?_⟩
  intro hanswer
  refine howed ?_
  simpa only [monitor, hid, answered_iff] using hanswer

/-- The caller falls asleep, and the loop's only thread leaves. -/
def abandonedCall : List (Monitor.Act (Act ℕ ℕ) ℕ Unit) :=
  [Act.claim 0, .enter 0 false, .lock 0, .number 0, .openCall 0, .post 0].map .act ++
    [.check 0, .sleep (), .act (.release 0)]

/-- The caller sleeps although it is to run its function itself: the notification is coming. -/
theorem sleeping_caller_is_woken_at_abandonedCall :
    ∃ x : Monitor.State (Sync ℕ ℕ) ℕ Unit, monitor.machine.Reachable x ∧
      (x.asleep 0 = true ∧ x.base.sync_open_ = 1 ∧ x.base.loops_ = 0) ∧
      ∃ id, x.base.call 0 = .waiting id ∧
        (x.base.sync_done_ = id ∨ x.base.sync_open_ = id ∧ x.base.loops_ = 0 →
          0 < x.owed ()) := by
  obtain ⟨x, hx, htest⟩ := (monitor (κ := ℕ) (θ := ℕ)).machine.exists_reachable_of_run abandonedCall
    (fun x => decide (x.asleep 0 = true ∧ x.base.sync_open_ = 1 ∧ x.base.loops_ = 0))
    (by decide +kernel)
  obtain ⟨hasleep, hrest⟩ := of_decide_eq_true htest
  exact ⟨x, hx, ⟨hasleep, hrest⟩, sleeping_caller_is_woken hx hasleep⟩

/-! ## Every call can return -/

/-- No function throws on the loop, and the counter does not wrap. -/
structure Calm (s : Sync κ θ) (act : Act κ θ) : Prop where
  whole : ∀ t, act ≠ .crash t
  few : s.Few act

/-- What the calls under way and the threads in the loop do: nothing throws, no call is made,
no thread comes or goes, and the counter does not wrap. -/
def Plain (s : Sync κ θ) : Act κ θ → Prop
  | .enter _ _ => False
  | .number _ => s.sync_calls_ ≠ wordMax
  | .postFails _ => False
  | .failSelf _ => False
  | .claim _ => False
  | .release _ => False
  | .crash _ => False
  | _ => True

omit [DecidableEq κ] [DecidableEq θ] in
lemma calm_of_plain (s : Sync κ θ) (act : Act κ θ) (h : Plain s act) : Calm s act := by
  constructor
  · rintro t rfl
    exact h
  · rintro c rfl
    exact h

/-- What is true of every run in which no function throws on the loop and the counter does not
wrap. -/
structure Tended (s : Sync κ θ) : Prop where
  orderly : s.Orderly
  claimed : s.Claimed
  /-- Who holds `sync_call_` is under way. -/
  holder : ∀ c, s.sync_call_ = some c → 0 < (s.call c).rank
  kept : ∀ c, s.lost c = false

lemma Tended.move (h : s.Tended) (hcalm : Calm s act) (hmove : Move s act s') : s'.Tended := by
  refine ⟨h.orderly.move hcalm.few hmove, h.claimed.move hmove, ?_, ?_⟩
  · have hholder := h.holder
    have hnumbered := h.orderly.numbered.holder
    cases hmove <;>
      simp only [goto, unlock, turn, noteBegin, noteEnd, Function.update_apply] <;>
      grind [CallPc.rank, CallPc.locked]
  · have hkept := h.kept
    cases hmove with
    | crash => exact absurd rfl (hcalm.whole _)
    | _ => exact hkept

lemma tended_of_reachable (hs : (machine (κ := κ) (θ := θ)).ReachableUnder Calm s) : s.Tended := by
  refine hs.invariant (I := Tended) ⟨orderly_of_reachable .init, ⟨∅, ?_, rfl⟩, ?_, ?_⟩
    fun _ _ _ h hcalm hstep => h.move hcalm (move_of_step hstep)
  all_goals simp [machine, initial]

variable (s) in
/-- The loop threads can answer call `id`, and leave the callers where they are. -/
def Answerable (id : ℕ) : Prop :=
  ∃ u, machine.LeadsUnder Plain s u ∧ u.call = s.call ∧ u.sync_call_ = s.sync_call_ ∧
    u.sync_calls_ = s.sync_calls_ ∧ u.answered id = true

/-- One step of a loop thread on the way. -/
lemma Answerable.head (act : Act κ θ) (hplain : Plain s act) (hstep : machine.step s act = some s')
    (hcall : s'.call = s.call) (hlock : s'.sync_call_ = s.sync_call_)
    (hcalls : s'.sync_calls_ = s.sync_calls_) (h : s'.Answerable id) : s.Answerable id := by
  obtain ⟨u, hlead, hucall, hulock, hucalls, hanswer⟩ := h
  exact ⟨u, (Machine.LeadsUnder.of_step hplain hstep).andThen hlead, hucall.trans hcall,
    hulock.trans hlock, hucalls.trans hcalls, hanswer⟩

lemma answerable_of_finishing {t : θ} (ht : s.thread t = .finishing c id) : s.Answerable id := by
  have hstep : machine.step s (.report t) =
      some (turn t .idle { s with sync_done_ := id }) := by
    simp only [machine, step, threadStep, ht]
  refine .head (.report t) trivial hstep rfl rfl rfl ⟨_, .here _, rfl, rfl, rfl, ?_⟩
  exact answered_iff.mpr (.inl rfl)

lemma answerable_of_running {t : θ} (ht : s.thread t = .running c id) : s.Answerable id := by
  have hstep : machine.step s (.finish t) = some ((s.turn t (.finishing c id)).noteEnd c) := by
    simp only [machine, step, threadStep, ht]
  refine .head (.finish t) trivial hstep rfl rfl rfl ?_
  exact answerable_of_finishing (t := t) (c := c) (Function.update_self ..)

lemma answerable_of_taken {t : θ} (ht : s.thread t = .taken c id) : s.Answerable id := by
  have hstep : machine.step s (.run t) =
      some ((s.turn t (.running c id)).noteBegin c (.loop t)) := by
    simp only [machine, step, threadStep, ht]
  refine .head (.run t) trivial hstep rfl rfl rfl ?_
  exact answerable_of_running (t := t) (c := c) (Function.update_self ..)

lemma answerable_of_starting {t : θ} (ht : s.thread t = .starting c id)
    (hopen : s.sync_open_ = id) : s.Answerable id := by
  have hstep : machine.step s (.take t) =
      some (turn t (.taken c id) { s with sync_open_ := 0 }) := by
    simp only [machine, step, threadStep, ht, hopen, ne_eq, not_true, if_false]
  refine .head (.take t) trivial hstep rfl rfl rfl ?_
  exact answerable_of_taken (t := t) (c := c) (Function.update_self ..)

lemma answerable_of_idle {t : θ} (ht : s.thread t = .idle) (hqueue : (c, id) ∈ s.queue)
    (hopen : s.sync_open_ = id) : s.Answerable id := by
  have hstep : machine.step s (.pick t c id) =
      some (turn t (.starting c id) { s with queue := s.queue.erase (c, id) }) := by
    simp only [machine, step, threadStep, ht, hqueue, and_self, if_true]
  refine .head (.pick t c id) trivial hstep rfl rfl rfl ?_
  exact answerable_of_starting (t := t) (c := c) (Function.update_self ..) hopen

/-- A thread in the loop takes a handler that is queued, after the one it has begun. -/
lemma answerable_of_queued (h : s.Tended) (hwait : s.call c = .waiting id)
    (hqueue : (c, id) ∈ s.queue) (hopen : s.sync_open_ = id) : s.Answerable id := by
  by_cases hzero : s.loops_ = 0
  · exact ⟨s, .here s, rfl, rfl, rfl, answered_iff.mpr (.inr ⟨hopen, hzero⟩)⟩
  obtain ⟨threads, hmem, hcard⟩ := h.claimed
  obtain ⟨t, ht⟩ := Finset.card_pos.mp (hcard ▸ Nat.pos_of_ne_zero hzero)
  have hpos := h.orderly.pos_of_waiting hwait
  cases hpc : s.thread t with
  | away => exact absurd hpc ((hmem t).mp ht)
  | idle => exact answerable_of_idle hpc hqueue hopen
  | starting c₀ id₀ =>
      by_cases hid : s.sync_open_ = id₀
      · obtain rfl := hopen.symm.trans hid
        exact answerable_of_starting hpc hopen
      · have hstep : machine.step s (.take t) = some (s.turn t .idle) := by
          simp only [machine, step, threadStep, hpc, ne_eq, hid, not_false_eq_true, if_true]
        refine .head (.take t) trivial hstep rfl rfl rfl ?_
        exact answerable_of_idle (t := t) (Function.update_self ..) hqueue hopen
  -- no call has been taken while this one is open
  | taken c₀ id₀ | running c₀ id₀ | finishing c₀ id₀ =>
      have := (h.orderly.handed.active t c₀ id₀ (by rw [hpc]; rfl)).2.1
      omega

/-- **A call that waits can be answered.** -/
lemma answerable_of_waiting (h : s.Tended) (hwait : s.call c = .waiting id) : s.Answerable id := by
  cases h.orderly.waited hwait with
  | untaken posted isOpen =>
      rcases posted with hqueue | ⟨t, ht⟩
      · exact answerable_of_queued h hwait hqueue isOpen
      · exact answerable_of_starting ht isOpen
  | taken t pc => exact answerable_of_taken pc
  | running t pc => exact answerable_of_running pc
  | finishing t pc => exact answerable_of_finishing pc
  | done _ done => exact ⟨s, .here s, rfl, rfl, rfl, answered_iff.mpr (.inl done)⟩
  | lost _ _ _ _ lost => simp [h.kept c] at lost

/-- Call `c` has moved on, and the other calls have not: it is under way and `sync_call_` is as it
was, or it has returned and holds `sync_call_` no more.  It may have been given its number. -/
structure MovedOn (c : κ) (s u : Sync κ θ) : Prop where
  others : ∀ c', c' ≠ c → u.call c' = s.call c'
  on : 0 < (u.call c).rank ∧ u.sync_call_ = s.sync_call_ ∨
    u.call c = .returned ∧ u.sync_call_ = if s.sync_call_ = some c then none else s.sync_call_
  calls : u.sync_calls_ + (u.call c).toGive = s.sync_calls_ + (s.call c).toGive

lemma exists_movedOn (h : s.Tended) (hrank : 0 < (s.call c).rank)
    (hroom : s.sync_calls_ + (s.call c).toGive ≤ wordMax) :
    ∃ u, machine.LeadsUnder Plain s u ∧ MovedOn c s u ∧ (u.call c).rank < (s.call c).rank := by
  have hothers : ∀ {u : Sync κ θ} {pc}, u.call = Function.update s.call c pc →
      ∀ c', c' ≠ c → u.call c' = s.call c' := by
    intro u pc hu c' hne
    rw [hu, Function.update_of_ne hne]
  cases hpc : s.call c with
  | idle | wanting | returned | threw => simp [hpc, CallPc.rank] at hrank
  | holding =>
      have hne : s.sync_calls_ ≠ wordMax := by
        simp only [hpc, CallPc.toGive] at hroom
        omega
      have hstep : machine.step s (.number c) = some (goto c (.numbered (s.sync_calls_ + 1))
          { s with sync_calls_ := s.sync_calls_ + 1 }) := by
        simp only [machine, step, callStep, hpc, if_true, fetchAdd_of_ne hne]
      refine ⟨_, .of_step (a := .number c) hne hstep, ⟨hothers rfl, .inl ⟨?_, rfl⟩, ?_⟩, ?_⟩ <;>
        simp [goto, CallPc.rank, CallPc.toGive, hpc]
  | numbered id =>
      have hstep : machine.step s (.openCall c) =
          some (goto c (.opened id) { s with sync_open_ := id }) := by
        simp only [machine, step, callStep, hpc]
      refine ⟨_, .of_step (a := .openCall c) trivial hstep,
        ⟨hothers rfl, .inl ⟨?_, rfl⟩, ?_⟩, ?_⟩ <;> simp [goto, CallPc.rank, CallPc.toGive, hpc]
  | opened id =>
      have hstep : machine.step s (.post c) =
          some (goto c (.waiting id) { s with queue := s.queue ++ [(c, id)] }) := by
        simp only [machine, step, callStep, hpc]
      refine ⟨_, .of_step (a := .post c) trivial hstep,
        ⟨hothers rfl, .inl ⟨?_, rfl⟩, ?_⟩, ?_⟩ <;> simp [goto, CallPc.rank, CallPc.toGive, hpc]
  | waiting id =>
      obtain ⟨u, hlead, hcall, hlock, hcalls, hanswer⟩ := answerable_of_waiting h hpc
      have hwait : u.call c = .waiting id := by rw [hcall, hpc]
      by_cases hdone : u.sync_done_ = id
      · have hstep : machine.step u (.wake c) = some ((u.goto c .returned).unlock c) := by
          simp only [machine, step, callStep, hwait, wake, if_pos hdone]
        refine ⟨_, hlead.andThen (.of_step (a := .wake c) trivial hstep),
          ⟨?_, .inr ⟨?_, ?_⟩, ?_⟩, ?_⟩
        · exact hothers (by rw [← hcall]; rfl)
        · simp [goto, unlock]
        · simp [goto, unlock, hlock]
        · simp [goto, unlock, hcalls, CallPc.toGive, hpc]
        · simp [goto, unlock, CallPc.rank]
      · have hself := (answered_iff.mp hanswer).resolve_left hdone
        have hstep : machine.step u (.wake c) = some (goto c .ready
            { u with sync_open_ := 0, sawZero := Function.update u.sawZero c true }) := by
          simp only [machine, step, callStep, hwait, wake, if_neg hdone, if_pos hself]
        refine ⟨_, hlead.andThen (.of_step (a := .wake c) trivial hstep),
          ⟨?_, .inl ⟨?_, hlock⟩, ?_⟩, ?_⟩
        · exact hothers (by rw [← hcall]; rfl)
        · simp [goto, CallPc.rank]
        · simp [goto, hcalls, CallPc.toGive, hpc]
        · simp [goto, CallPc.rank]
  | ready =>
      have hstep : machine.step s (.runSelf c) =
          some ((s.goto c .running).noteBegin c .caller) := by
        simp only [machine, step, callStep, hpc, if_true]
      refine ⟨_, .of_step (a := .runSelf c) trivial hstep,
        ⟨hothers rfl, .inl ⟨?_, rfl⟩, ?_⟩, ?_⟩ <;>
        simp [goto, noteBegin, CallPc.rank, CallPc.toGive, hpc]
  | running =>
      have hstep : machine.step s (.finishSelf c) =
          some (((s.goto c .returned).noteEnd c).unlock c) := by
        simp only [machine, step, callStep, hpc, if_true]
      refine ⟨_, .of_step (a := .finishSelf c) trivial hstep,
        ⟨hothers rfl, .inr ⟨?_, rfl⟩, ?_⟩, ?_⟩ <;>
        simp [goto, noteEnd, unlock, CallPc.rank, CallPc.toGive, hpc]

omit [DecidableEq θ] in
lemma MovedOn.trans {u v : Sync κ θ} (h : MovedOn c s u) (hrank : 0 < (u.call c).rank)
    (h' : MovedOn c u v) : MovedOn c s v := by
  have hlock : u.sync_call_ = s.sync_call_ := by
    rcases h.on with ⟨-, hlock⟩ | ⟨hret, -⟩
    · exact hlock
    · simp [hret, CallPc.rank] at hrank
  refine ⟨fun c' hne => (h'.others c' hne).trans (h.others c' hne), ?_, h'.calls.trans h.calls⟩
  rw [← hlock]
  exact h'.on

lemma exists_end (hs : machine.ReachableUnder Calm s) (hrank : 0 < (s.call c).rank)
    (hroom : s.sync_calls_ + (s.call c).toGive ≤ wordMax) :
    ∃ u, machine.LeadsUnder Plain s u ∧ machine.ReachableUnder Calm u ∧ MovedOn c s u ∧
      u.call c = .returned := by
  have hprogress : ∀ u : Sync κ θ, machine.ReachableUnder Calm u ∧ MovedOn c s u →
      ¬u.call c = .returned → ∃ v, machine.LeadsUnder Plain u v ∧
        (machine.ReachableUnder Calm v ∧ MovedOn c s v) ∧ (v.call c).rank < (u.call c).rank := by
    rintro u ⟨hu, hmoved⟩ hnot
    have hpos : 0 < (u.call c).rank := by
      rcases hmoved.on with ⟨hpos, -⟩ | ⟨hret, -⟩
      · exact hpos
      · exact absurd hret hnot
    obtain ⟨v, hlead, hmoved', hlt⟩ := exists_movedOn (tended_of_reachable hu) hpos
      (hmoved.calls.trans_le hroom)
    exact ⟨v, hlead, ⟨hu.leads hlead calm_of_plain, hmoved.trans hpos hmoved'⟩, hlt⟩
  obtain ⟨u, hlead, ⟨hu, hmoved⟩, hret⟩ := Machine.exists_leadsUnder_of_measure
    (fun u : Sync κ θ => (u.call c).rank) hprogress ⟨hs, fun _ _ => rfl, .inl ⟨hrank, rfl⟩, rfl⟩
  exact ⟨u, hlead, hu, hmoved, hret⟩

/-- A call that waits for `sync_call_` can come to hold it, after one more number at most. -/
lemma exists_lock (hs : machine.ReachableUnder Calm s) (hwant : s.call c = .wanting)
    (hroom : s.sync_calls_ + 1 ≤ wordMax) :
    ∃ u, machine.LeadsUnder Plain s u ∧ machine.ReachableUnder Calm u ∧ u.call c = .holding ∧
      u.sync_calls_ ≤ s.sync_calls_ + 1 := by
  have hfree : ∃ u, machine.LeadsUnder Plain s u ∧ machine.ReachableUnder Calm u ∧
      u.call c = .wanting ∧ u.sync_call_ = none ∧ u.sync_calls_ ≤ s.sync_calls_ + 1 := by
    cases hlock : s.sync_call_ with
    | none => exact ⟨s, .here s, hs, hwant, hlock, Nat.le_succ _⟩
    | some h =>
        have hrank := (tended_of_reachable hs).holder h hlock
        have hne : c ≠ h := by
          rintro rfl
          simp [hwant, CallPc.rank] at hrank
        have hgive := (s.call h).toGive_le
        obtain ⟨u, hlead, hu, hmoved, hret⟩ := exists_end hs hrank (by omega)
        refine ⟨u, hlead, hu, (hmoved.others c hne).trans hwant, ?_, ?_⟩
        · rcases hmoved.on with ⟨hpos, -⟩ | ⟨-, hnone⟩
          · simp [hret, CallPc.rank] at hpos
          · simpa [hlock] using hnone
        · have := hmoved.calls
          omega
  obtain ⟨u, hlead, hu, huwant, hnone, hcalls⟩ := hfree
  have hstep : machine.step u (.lock c) =
      some (goto c .holding { u with sync_call_ := some c }) := by
    simp only [machine, step, callStep, huwant, hnone, and_self, if_true]
  have hlead' := hlead.andThen (.of_step (a := .lock c) trivial hstep)
  exact ⟨_, hlead', hs.leads hlead' calm_of_plain, Function.update_self .., hcalls⟩

lemma exists_returned (hs : machine.ReachableUnder Calm s) (hmade : s.call c ≠ .idle)
    (hthrew : s.call c ≠ .threw) (hroom : s.sync_calls_ + 2 ≤ wordMax) :
    ∃ u, machine.LeadsUnder Plain s u ∧ u.call c = .returned := by
  by_cases hret : s.call c = .returned
  · exact ⟨s, .here s, hret⟩
  by_cases hwant : s.call c = .wanting
  · obtain ⟨u, hlead, hu, hhold, hcalls⟩ := exists_lock hs hwant (by omega)
    have hgive := (u.call c).toGive_le
    obtain ⟨v, hlead', -, -, hret⟩ := exists_end (c := c) hu (by rw [hhold]; decide) (by omega)
    exact ⟨v, hlead.andThen hlead', hret⟩
  · have hrank : 0 < (s.call c).rank := by
      cases hpc : s.call c <;> simp_all [CallPc.rank]
    have hgive := (s.call c).toGive_le
    obtain ⟨u, hlead, -, -, hret⟩ := exists_end hs hrank (by omega)
    exact ⟨u, hlead, hret⟩

/-- **Every call can return.**  In every run in which no function throws on the loop and the counter
does not wrap, with the waits spelt out and however many calls compete for `sync_call_`: a call that
has been made, and has not thrown, can be brought to its end by the callers and the threads that are
in the loop, with no wake-up but by a notification, if two numbers are left, one for it and one for
the call that holds `sync_call_`. -/
theorem on_loop_sync_can_return {x : Monitor.State (Sync κ θ) κ Unit}
    (hx : (monitor (κ := κ) (θ := θ)).machine.ReachableUnder (Monitor.Lifted Calm) x)
    (hmade : x.base.call c ≠ .idle) (hthrew : x.base.call c ≠ .threw)
    (hroom : x.base.sync_calls_ + 2 ≤ wordMax) :
    ∃ y, monitor.machine.LeadsUnder (monitor.Undisturbed Plain) x y ∧
      y.base.call c = .returned := by
  obtain ⟨u, hlead, hret⟩ := exists_returned (Monitor.reachable_base hx) hmade hthrew hroom
  obtain ⟨y, hy, rfl⟩ := (monitor_sound Calm).lift calm_of_plain hx hlead
  exact ⟨y, hy, hret⟩

/-- Two calls: the first one's caller is asleep and its handler has been taken, the second one's
caller waits for `sync_call_`. -/
def sleepingCall : List (Monitor.Act (Act ℕ ℕ) ℕ Unit) :=
  [Act.claim 0, .enter 0 false, .enter 1 false, .lock 0, .number 0, .openCall 0,
    .post 0].map .act ++ [.check 0, .sleep ()] ++ [Act.pick 0 0 1, .take 0, .run 0].map .act

/-- `Calm`, tested. -/
def isCalm (x : Monitor.State (Sync κ θ) κ Unit) : Monitor.Act (Act κ θ) κ Unit → Bool
  | .act (.crash _) => false
  | .act a => few x.base a
  | _ => true

omit [DecidableEq κ] [DecidableEq θ] in
lemma lifted_of_isCalm (x : Monitor.State (Sync κ θ) κ Unit) (act : Monitor.Act (Act κ θ) κ Unit)
    (h : isCalm x act = true) : Monitor.Lifted Calm x act := by
  cases act with
  | act a =>
      constructor
      · rintro t rfl
        cases h
      · rintro c rfl
        exact of_decide_eq_true h
  | _ => trivial

theorem on_loop_sync_can_return_at_sleepingCall :
    ∃ x : Monitor.State (Sync ℕ ℕ) ℕ Unit,
      monitor.machine.ReachableUnder (Monitor.Lifted Calm) x ∧
      (x.asleep 0 = true ∧ x.base.call 1 = .wanting ∧ x.base.sync_calls_ + 2 ≤ wordMax) ∧
      ∃ y, monitor.machine.LeadsUnder (monitor.Undisturbed Plain) x y ∧
        y.base.call 1 = .returned := by
  obtain ⟨x, hx, htest⟩ := (monitor (κ := ℕ) (θ := ℕ)).machine.exists_reachableUnder_of_run
    isCalm lifted_of_isCalm sleepingCall
    (fun x => decide (x.asleep 0 = true ∧ x.base.call 1 = .wanting ∧
      x.base.sync_calls_ + 2 ≤ wordMax)) (by decide +kernel)
  obtain ⟨hasleep, hwant, hroom⟩ := of_decide_eq_true htest
  exact ⟨x, hx, ⟨hasleep, hwant, hroom⟩,
    on_loop_sync_can_return hx (by simp [hwant]) (by simp [hwant]) hroom⟩

end Sync

end ReactorRuntime
