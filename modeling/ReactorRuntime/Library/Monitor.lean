import Mathlib.Data.Nat.Notation
import Mathlib.Logic.Function.Basic
import ReactorRuntime.Library.Progress

/-!
# Monitors

A machine whose parties wait for something to become the case is most simply written with guarded
steps: the step that ends the wait is enabled when the predicate holds.  The code underneath has no
such thing.  It has a mutex and a condition variable: the party looks at the predicate with the
mutex held, goes to sleep if it does not hold, giving up the mutex in the same moment, and does not
look again until it is woken; and whoever makes the predicate true must remember to notify.

`Monitor` says of a machine `M` which parties wait where, for what, and which actions notify.
`Monitor.machine` is `M` with the waits spelt out: a party that waits can look (`check`), fall
asleep (`sleep`), be woken by a notification, or be woken by nothing at all.  A notification that
is sent after the mutex was released is a step of its own, so anything can come between the change
and it.

Two things are to be shown of a monitor (`Monitor.Sound`): that nobody else ends a party's wait, and
that an action which makes the predicate of a waiting party true notifies the right condition
variable.  Then no wake-up is lost (`Monitor.asleep_of_reachable`), and every run of `M` is a run
of the machine with the waits, in which nobody is woken but by a notification or by a deadline
(`Monitor.Sound.lift`).
-/

namespace ReactorRuntime

/-- The waits of the parties `κ` of a machine on the condition variables `ι`. -/
structure Monitor {σ α : Type*} (M : Machine σ α) (κ ι : Type*) where
  /-- The condition variable that a party waits on. -/
  waits : σ → κ → Option ι
  /-- The predicate of its wait. -/
  holds : σ → κ → Bool
  /-- The wait has a deadline. -/
  timed : σ → κ → Bool
  /-- The party whose action it is. -/
  party : α → Option κ
  /-- The condition variable that an action notifies with the mutex held. -/
  within : σ → α → Option ι
  /-- The condition variable that is notified when the action has released the mutex. -/
  after : σ → α → Option ι

namespace Monitor

variable {σ α κ ι : Type*} [DecidableEq κ] [DecidableEq ι] {M : Machine σ α}

/-- A state of a machine and what its waits are doing. -/
structure State (σ κ ι : Type*) where
  base : σ
  /-- Who holds the mutex and has seen that the predicate does not hold. -/
  holder : ι → Option κ
  asleep : κ → Bool
  /-- The notifications that are still to be sent. -/
  owed : ι → ℕ

/-- What can happen next. -/
inductive Act (α κ ι : Type*)
  | act (a : α)
  /-- Party `k` takes the mutex and finds that its predicate does not hold. -/
  | check (k : κ)
  /-- The party that holds the mutex of `i` falls asleep. -/
  | sleep (i : ι)
  /-- `notify_all` -/
  | notify (i : ι)
  /-- Party `k` is woken by its deadline, or by nothing. -/
  | wake (k : κ)

variable (W : Monitor M κ ι)

/-- Those that sleep after everyone who waits on `i` has been woken. -/
def rouse (s : σ) (asleep : κ → Bool) (i : ι) : κ → Bool :=
  fun k => asleep k && decide (W.waits s k ≠ some i)

/-- The mutex that an action takes is free: that of the condition variable it notifies, and that of
the wait which it ends, whose party has to be awake. -/
def Ready (x : State σ κ ι) (a : α) : Prop :=
  (∀ i ∈ W.within x.base a, x.holder i = none) ∧ (∀ i ∈ W.after x.base a, x.holder i = none) ∧
    ∀ k ∈ W.party a, x.asleep k = false ∧ ∀ i ∈ W.waits x.base k, x.holder i = none

instance (x : State σ κ ι) (a : α) : Decidable (W.Ready x a) :=
  inferInstanceAs (Decidable (_ ∧ _ ∧ _))

/-- What an action of the machine does to the waits: those it notifies wake up. -/
def followed (x : State σ κ ι) (a : α) (s' : σ) : State σ κ ι where
  base := s'
  holder := x.holder
  asleep := match W.within x.base a with
    | some i => W.rouse s' x.asleep i
    | none => x.asleep
  owed := match W.after x.base a with
    | some i => Function.update x.owed i (x.owed i + 1)
    | none => x.owed

/-- One action. -/
def step (x : State σ κ ι) : Act α κ ι → Option (State σ κ ι)
  | .act a => if W.Ready x a then (M.step x.base a).map (W.followed x a) else none
  | .check k =>
      match W.waits x.base k with
      | some i =>
          if x.holder i = none ∧ x.asleep k = false ∧ W.holds x.base k = false then
            some { x with holder := Function.update x.holder i (some k) }
          else none
      | none => none
  | .sleep i =>
      match x.holder i with
      | some k =>
          some { x with
            holder := Function.update x.holder i none
            asleep := Function.update x.asleep k true }
      | none => none
  | .notify i =>
      if 0 < x.owed i then
        some { x with
          asleep := W.rouse x.base x.asleep i
          owed := Function.update x.owed i (x.owed i - 1) }
      else none
  | .wake k =>
      if x.asleep k then some { x with asleep := Function.update x.asleep k false } else none

/-- The machine with its waits spelt out. -/
def machine : Machine (State σ κ ι) (Act α κ ι) where
  init := { base := M.init, holder := fun _ => none, asleep := fun _ => false, owed := fun _ => 0 }
  step := W.step

/-- The actions of the machine below meet `ok`. -/
def Lifted (ok : σ → α → Prop) (x : State σ κ ι) : Act α κ ι → Prop
  | .act a => ok x.base a
  | _ => True

/-- Nobody wakes up but by a notification, or by the deadline of their wait. -/
def Undisturbed (ok : σ → α → Prop) (x : State σ κ ι) : Act α κ ι → Prop
  | .act a => ok x.base a
  | .wake k => W.timed x.base k = true
  | _ => True

/-- What makes the waits of a machine safe. -/
structure Sound (ok : σ → α → Prop) : Prop where
  /-- Only the party itself ends its wait. -/
  stays : ∀ {s s' : σ} {a : α} {k : κ} {i : ι}, M.ReachableUnder ok s → ok s a →
    M.step s a = some s' → W.party a ≠ some k → W.waits s k = some i → W.waits s' k = some i
  /-- An action that makes the predicate of a wait true notifies its condition variable. -/
  tells : ∀ {s s' : σ} {a : α} {k : κ} {i : ι}, M.ReachableUnder ok s → ok s a →
    M.step s a = some s' → W.party a ≠ some k → W.waits s k = some i → W.holds s k = false →
    W.holds s' k = true → W.within s a = some i ∨ W.after s a = some i
  /-- A party goes on when its predicate holds, or at its deadline. -/
  goes : ∀ {s s' : σ} {a : α} {k : κ} {i : ι}, M.ReachableUnder ok s → ok s a →
    M.step s a = some s' → W.party a = some k → W.waits s k = some i →
    W.holds s k = true ∨ W.timed s k = true

variable {W} {ok ok' : σ → α → Prop} {x x' : State σ κ ι}

/-- What one step can do. -/
inductive Move (W : Monitor M κ ι) (x : State σ κ ι) : Act α κ ι → State σ κ ι → Prop
  | act {a : α} {s' : σ} (hready : W.Ready x a) (hstep : M.step x.base a = some s') :
      Move W x (.act a) (W.followed x a s')
  | check {k : κ} {i : ι} (hw : W.waits x.base k = some i) (hfree : x.holder i = none)
      (hawake : x.asleep k = false) (hpred : W.holds x.base k = false) :
      Move W x (.check k) { x with holder := Function.update x.holder i (some k) }
  | sleep {k : κ} {i : ι} (hhold : x.holder i = some k) :
      Move W x (.sleep i)
        { x with
          holder := Function.update x.holder i none
          asleep := Function.update x.asleep k true }
  | notify {i : ι} (howed : 0 < x.owed i) :
      Move W x (.notify i)
        { x with
          asleep := W.rouse x.base x.asleep i
          owed := Function.update x.owed i (x.owed i - 1) }
  | wake {k : κ} (hasleep : x.asleep k = true) :
      Move W x (.wake k) { x with asleep := Function.update x.asleep k false }

lemma move_of_step {b : Act α κ ι} (h : W.machine.step x b = some x') : W.Move x b x' := by
  change W.step x b = some x' at h
  cases b with
  | act a =>
      obtain ⟨hready, h⟩ := Option.ite_none_right_eq_some.mp h
      obtain ⟨s', hstep, rfl⟩ := Option.map_eq_some_iff.mp h
      exact .act hready hstep
  | check k =>
      simp only [step] at h
      split at h
      · rename_i i hw
        obtain ⟨⟨hfree, hawake, hpred⟩, h⟩ := Option.ite_none_right_eq_some.mp h
        cases h
        exact .check hw hfree hawake hpred
      · cases h
  | sleep i =>
      simp only [step] at h
      split at h
      · rename_i k hhold
        cases h
        exact .sleep hhold
      · cases h
  | notify i =>
      obtain ⟨howed, h⟩ := Option.ite_none_right_eq_some.mp h
      cases h
      exact .notify howed
  | wake k =>
      obtain ⟨hasleep, h⟩ := Option.ite_none_right_eq_some.mp h
      cases h
      exact .wake hasleep

lemma reachable_of_move (hx : M.ReachableUnder ok x.base) {b : Act α κ ι} (hok : Lifted ok x b)
    (h : W.Move x b x') : M.ReachableUnder ok x'.base := by
  cases h with
  | act _ hstep => exact hx.step hok hstep
  | check | sleep | notify | wake => exact hx

/-- The machine below takes the run that the machine with the waits takes. -/
lemma reachable_base (hx : W.machine.ReachableUnder (Lifted ok) x) : M.ReachableUnder ok x.base :=
  hx.invariant (I := fun x => M.ReachableUnder ok x.base) .init
    fun _ _ _ hbase hok hstep => reachable_of_move hbase hok (move_of_step hstep)

/-! ## No wake-up is lost -/

/-- What is true of the waits at all times. -/
structure Watched (W : Monitor M κ ι) (x : State σ κ ι) : Prop where
  /-- Who holds a mutex is about to sleep, and is right to. -/
  holder : ∀ {i : ι} {k : κ}, x.holder i = some k →
    W.waits x.base k = some i ∧ W.holds x.base k = false
  /-- Who sleeps is at a wait whose predicate does not hold, or whose notification is on its way. -/
  asleep : ∀ {k : κ}, x.asleep k = true →
    ∃ i, W.waits x.base k = some i ∧ (W.holds x.base k = true → 0 < x.owed i)

omit [DecidableEq κ] in
lemma rouse_eq_true {s : σ} {asleep : κ → Bool} {i : ι} {k : κ} :
    W.rouse s asleep i k = true ↔ asleep k = true ∧ W.waits s k ≠ some i := by
  simp [rouse]

omit [DecidableEq κ] in
/-- A notification that is owed stays owed while the machine below goes on. -/
lemma owed_followed (W : Monitor M κ ι) (x : State σ κ ι) (a : α) (s' : σ) (j : ι) :
    x.owed j ≤ (W.followed x a s').owed j := by
  unfold followed
  cases W.after x.base a with
  | none => exact Nat.le_refl _
  | some i =>
      by_cases hji : j = i
      · subst hji
        simp
      · simp [hji]

omit [DecidableEq κ] in
lemma asleep_of_followed {a : α} {s' : σ} {k : κ} (h : (W.followed x a s').asleep k = true) :
    x.asleep k = true ∧ ∀ i ∈ W.within x.base a, W.waits s' k ≠ some i := by
  unfold followed at h
  cases hw : W.within x.base a with
  | none =>
      rw [hw] at h
      exact ⟨h, by simp⟩
  | some i =>
      rw [hw] at h
      obtain ⟨hasleep, hne⟩ := rouse_eq_true.mp h
      refine ⟨hasleep, ?_⟩
      rintro j hj
      cases hj
      exact hne

omit [DecidableEq κ] in
/-- An action of the machine below leaves the waits watched. -/
lemma Watched.act (hW : W.Sound ok) (h : W.Watched x) (hx : M.ReachableUnder ok x.base) {a : α}
    {s' : σ} (hok : ok x.base a) (hready : W.Ready x a) (hstep : M.step x.base a = some s') :
    W.Watched (W.followed x a s') := by
  obtain ⟨hwithin, hafter, hparty⟩ := hready
  constructor
  · intro i k hhold
    change x.holder i = some k at hhold
    obtain ⟨hwait, hpred⟩ := h.holder hhold
    have hnot : W.party a ≠ some k := by
      intro hk
      have hfree := (hparty k hk).2 i hwait
      simp [hfree] at hhold
    refine ⟨hW.stays hx hok hstep hnot hwait, ?_⟩
    -- to make the predicate true takes the mutex
    cases hnow : W.holds s' k with
    | false => exact hnow
    | true =>
        rcases hW.tells hx hok hstep hnot hwait hpred hnow with htell | htell
        · simp [hwithin i htell] at hhold
        · simp [hafter i htell] at hhold
  · intro k hasleep
    obtain ⟨hslept, hnotified⟩ := asleep_of_followed hasleep
    obtain ⟨i, hwait, howed⟩ := h.asleep hslept
    have hnot : W.party a ≠ some k := by
      intro hk
      simp [(hparty k hk).1] at hslept
    have hwait' := hW.stays hx hok hstep hnot hwait
    refine ⟨i, hwait', ?_⟩
    intro hnow
    by_cases hpred : W.holds x.base k = true
    · exact Nat.lt_of_lt_of_le (howed hpred) (owed_followed W x a s' i)
    · rcases hW.tells hx hok hstep hnot hwait (by simpa using hpred) hnow with htell | htell
      · exact absurd hwait' (hnotified i htell)
      · simp [followed, htell]

lemma Watched.move (hW : W.Sound ok) (h : W.Watched x) (hx : M.ReachableUnder ok x.base)
    {b : Act α κ ι} (hok : Lifted ok x b) (hm : W.Move x b x') : W.Watched x' := by
  cases hm with
  | act hready hstep => exact h.act hW hx hok hready hstep
  | @check k i hw hfree hawake hpred =>
      refine ⟨?_, h.asleep⟩
      intro j k' hhold
      by_cases hji : j = i
      · subst hji
        simp only [Function.update_self, Option.some.injEq] at hhold
        subst hhold
        exact ⟨hw, hpred⟩
      · simp only [Function.update_of_ne hji] at hhold
        exact h.holder hhold
  | @sleep k i hhold =>
      constructor
      · intro j k' hhold'
        by_cases hji : j = i
        · subst hji
          simp at hhold'
        · simp only [Function.update_of_ne hji] at hhold'
          exact h.holder hhold'
      · intro k' hasleep
        by_cases hk : k' = k
        · subst hk
          obtain ⟨hwait, hpred⟩ := h.holder hhold
          exact ⟨i, hwait, fun hnow => by simp [hpred] at hnow⟩
        · simp only [Function.update_of_ne hk] at hasleep
          exact h.asleep hasleep
  | @notify i howed =>
      refine ⟨h.holder, ?_⟩
      intro k hasleep
      obtain ⟨hslept, hne⟩ := rouse_eq_true.mp hasleep
      obtain ⟨j, hwait, hcoming⟩ := h.asleep hslept
      refine ⟨j, hwait, ?_⟩
      intro hnow
      have hji : j ≠ i := by
        rintro rfl
        exact hne hwait
      simpa [hji] using hcoming hnow
  | @wake k hasleep =>
      refine ⟨h.holder, ?_⟩
      intro k' hasleep'
      by_cases hk : k' = k
      · subst hk
        simp at hasleep'
      · simp only [Function.update_of_ne hk] at hasleep'
        exact h.asleep hasleep'

theorem watched_of_reachable (hW : W.Sound ok) (hx : W.machine.ReachableUnder (Lifted ok) x) :
    W.Watched x := by
  have hinit : M.ReachableUnder ok W.machine.init.base ∧ W.Watched W.machine.init :=
    ⟨.init, by simp [machine], by simp [machine]⟩
  refine (hx.invariant (I := fun x => M.ReachableUnder ok x.base ∧ W.Watched x) hinit ?_).2
  rintro x b x' ⟨hbase, h⟩ hok hstep
  have hm := move_of_step hstep
  exact ⟨reachable_of_move hbase hok hm, h.move hW hbase hok hm⟩

/-- **No wake-up is lost.**  A party that sleeps while its predicate holds has a notification
coming. -/
theorem asleep_of_reachable (hW : W.Sound ok) (hx : W.machine.ReachableUnder (Lifted ok) x) {k : κ}
    (hasleep : x.asleep k = true) :
    ∃ i, W.waits x.base k = some i ∧ (W.holds x.base k = true → 0 < x.owed i) :=
  (watched_of_reachable hW hx).asleep hasleep

/-! ## Every run can be taken -/

omit [DecidableEq κ] [DecidableEq ι] in
lemma lifted_of_undisturbed (hok : ∀ s a, ok' s a → ok s a) (x : State σ κ ι) (b : Act α κ ι)
    (h : W.Undisturbed ok' x b) : Lifted ok x b := by
  cases b with
  | act a => exact hok _ _ h
  | check | sleep | notify | wake => trivial

/-- A mutex becomes free: whoever holds it falls asleep. -/
lemma exists_free (W : Monitor M κ ι) (ok : σ → α → Prop) (x : State σ κ ι) (i : ι) :
    ∃ y, W.machine.LeadsUnder (W.Undisturbed ok) x y ∧ y.base = x.base ∧ y.holder i = none ∧
      ∀ j, x.holder j = none → y.holder j = none := by
  cases hhold : x.holder i with
  | none => exact ⟨x, .here x, rfl, hhold, fun _ h => h⟩
  | some k =>
      have hstep : W.machine.step x (.sleep i) = some { x with
          holder := Function.update x.holder i none
          asleep := Function.update x.asleep k true } := by
        simp only [machine, step, hhold]
      refine ⟨_, .of_step (a := .sleep i) trivial hstep, rfl, Function.update_self .., ?_⟩
      intro j hj
      by_cases hji : j = i
      · subst hji
        exact Function.update_self ..
      · simpa only [Function.update_of_ne hji] using hj

/-- A party whose predicate holds, or whose wait has a deadline, can be awake. -/
lemma exists_awake (h : W.Watched x) {k : κ} {i : ι} (hwait : W.waits x.base k = some i)
    (hgo : W.holds x.base k = true ∨ W.timed x.base k = true) (ok : σ → α → Prop) :
    ∃ y, W.machine.LeadsUnder (W.Undisturbed ok) x y ∧ y.base = x.base ∧ y.holder = x.holder ∧
      y.asleep k = false := by
  cases hasleep : x.asleep k with
  | false => exact ⟨x, .here x, rfl, rfl, hasleep⟩
  | true =>
      rcases hgo with hpred | htimed
      · obtain ⟨j, hwait', hcoming⟩ := h.asleep hasleep
        obtain rfl : i = j := Option.some.inj (hwait.symm.trans hwait')
        have hstep : W.machine.step x (.notify i) = some { x with
            asleep := W.rouse x.base x.asleep i
            owed := Function.update x.owed i (x.owed i - 1) } := by
          simp only [machine, step, if_pos (hcoming hpred)]
        exact ⟨_, .of_step (a := .notify i) trivial hstep, rfl, rfl, by simp [rouse, hwait]⟩
      · have hstep : W.machine.step x (.wake k) = some { x with
            asleep := Function.update x.asleep k false } := by
          simp only [machine, step, hasleep, if_true]
        exact ⟨_, .of_step (a := .wake k) htimed hstep, rfl, rfl, Function.update_self ..⟩

/-- Whatever the machine below can do, it can be made ready for. -/
lemma exists_ready (hW : W.Sound ok) (hok : ∀ s a, ok' s a → ok s a)
    (hx : W.machine.ReachableUnder (Lifted ok) x) {a : α} {s' : σ} (ha : ok' x.base a)
    (hstep : M.step x.base a = some s') :
    ∃ y, W.machine.LeadsUnder (W.Undisturbed ok') x y ∧ y.base = x.base ∧ W.Ready y a := by
  -- the mutexes of the two notifications
  obtain ⟨x₁, hlead₁, hbase₁, hwithin₁⟩ : ∃ y, W.machine.LeadsUnder (W.Undisturbed ok') x y ∧
      y.base = x.base ∧ ∀ i ∈ W.within x.base a, y.holder i = none := by
    cases hw : W.within x.base a with
    | none => exact ⟨x, .here x, rfl, by simp⟩
    | some i =>
        obtain ⟨y, hlead, hbase, hfree, -⟩ := exists_free W ok' x i
        exact ⟨y, hlead, hbase, fun j hj => Option.some.inj hj ▸ hfree⟩
  obtain ⟨x₂, hlead₂, hbase₂, hafter₂, hkeep₂⟩ :
      ∃ y, W.machine.LeadsUnder (W.Undisturbed ok') x₁ y ∧
      y.base = x₁.base ∧ (∀ i ∈ W.after x.base a, y.holder i = none) ∧
      ∀ j, x₁.holder j = none → y.holder j = none := by
    cases hw : W.after x.base a with
    | none => exact ⟨x₁, .here x₁, rfl, by simp, fun _ h => h⟩
    | some i =>
        obtain ⟨y, hlead, hbase, hfree, hkeep⟩ := exists_free W ok' x₁ i
        exact ⟨y, hlead, hbase, fun j hj => Option.some.inj hj ▸ hfree, hkeep⟩
  have hbase : x₂.base = x.base := hbase₂.trans hbase₁
  have hlead := hlead₁.andThen hlead₂
  cases hk : W.party a with
  | none =>
      refine ⟨x₂, hlead, hbase, ?_⟩
      rw [Ready, hbase, hk]
      exact ⟨fun i hi => hkeep₂ i (hwithin₁ i hi), hafter₂, by simp⟩
  | some k =>
      cases hwait : W.waits x.base k with
      | none =>
          have hw := watched_of_reachable hW (hx.leads hlead (lifted_of_undisturbed hok))
          have hawake : x₂.asleep k = false := by
            cases hasleep : x₂.asleep k with
            | false => rfl
            | true =>
                obtain ⟨i, hi, -⟩ := hw.asleep hasleep
                simp [hbase, hwait] at hi
          refine ⟨x₂, hlead, hbase, ?_⟩
          rw [Ready, hbase, hk]
          refine ⟨fun i hi => hkeep₂ i (hwithin₁ i hi), hafter₂, ?_⟩
          rintro k' hk'
          cases hk'
          rw [hwait]
          exact ⟨hawake, by simp⟩
      | some i =>
          -- the mutex of the wait, and then the wake-up
          have hgo := hW.goes (reachable_base hx) (hok _ _ ha) hstep hk hwait
          obtain ⟨x₃, hlead₃, hbase₃, hfree₃, hkeep₃⟩ := exists_free W ok' x₂ i
          have hlead := hlead.andThen hlead₃
          have hbase := hbase₃.trans hbase
          have hw := watched_of_reachable hW (hx.leads hlead (lifted_of_undisturbed hok))
          obtain ⟨y, hlead', hbase', hholder, hawake⟩ :=
            exists_awake hw (hbase ▸ hwait) (hbase ▸ hgo) ok'
          refine ⟨y, hlead.andThen hlead', hbase'.trans hbase, ?_⟩
          rw [Ready, hbase', hbase, hk, hholder]
          refine ⟨fun j hj => hkeep₃ j (hkeep₂ j (hwithin₁ j hj)),
            fun j hj => hkeep₃ j (hafter₂ j hj), ?_⟩
          rintro k' hk'
          cases hk'
          rw [hwait]
          refine ⟨hawake, ?_⟩
          rintro j hj
          cases hj
          exact hfree₃

/-- **Every run can be taken.**  What the machine with guarded waits can do, the machine with the
waits spelt out can do, with no wake-up but by a notification or a deadline. -/
theorem Sound.lift (hW : W.Sound ok) (hok : ∀ s a, ok' s a → ok s a)
    (hx : W.machine.ReachableUnder (Lifted ok) x) {t : σ} (hlead : M.LeadsUnder ok' x.base t) :
    ∃ y, W.machine.LeadsUnder (W.Undisturbed ok') x y ∧ y.base = t := by
  induction hlead with
  | refl => exact ⟨x, .here x, rfl⟩
  | @tail _ t _ hlast ih =>
      obtain ⟨y, hy, rfl⟩ := ih
      obtain ⟨a, ha, hstep⟩ := hlast
      have hy' := hx.leads hy (lifted_of_undisturbed hok)
      obtain ⟨z, hz, hbase, hready⟩ := exists_ready hW hok hy' ha hstep
      rw [← hbase] at ha hstep
      have hlast : W.machine.step z (.act a) = some (W.followed z a t) := by
        simp only [machine, step, if_pos hready, hstep, Option.map_some]
      exact ⟨_, hy.andThen (hz.andThen (.of_step (a := .act a) ha hlast)), rfl⟩

end Monitor

end ReactorRuntime
