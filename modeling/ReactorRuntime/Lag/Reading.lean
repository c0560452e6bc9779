import ReactorRuntime.Lag.Snapshot
import ReactorRuntime.Library.Machine
import ReactorRuntime.Library.Relaxed

/-!
# Snapshots taken while the loop records

`snapshot()` may be called from any thread at any time (`reactor_lag.h:129-136`).  It loads the 127
counters one after the other, while the loop stores to them one after the other, and all of this is
relaxed: nothing orders what a reader sees of one counter with what it sees of another.  A snapshot
may thus have a wake in `wakes` that is in none of its buckets, and the other way round.

What is left is that a reader does not go back in any counter.  So between two snapshots of one
reader every bucket has a window of its own, and the difference of the snapshots has counted in each
bucket exactly what was recorded there in that bucket's window.  The percentiles are computed from
the buckets alone (`quantile_upper_us` adds them up and does not look at `wakes`), so a percentile
is still that of latenesses that were recorded (`torn_percentile`): those that each fall into the
window of their bucket.
-/

namespace ReactorRuntime

/-! ## The counters -/

/-- The counters of a probe, each an atomic of its own. -/
inductive LagField
  | count (i : Fin LagSnapshot.buckets)
  | wakes
  | sumUs
  | maxUs
  deriving DecidableEq

namespace LagField

/-- The order in which `snapshot()` loads them. -/
def at_ (k : ℕ) : Option LagField :=
  if h : k < LagSnapshot.buckets then some (.count ⟨k, h⟩)
  else if k = LagSnapshot.buckets then some .wakes
  else if k = LagSnapshot.buckets + 1 then some .sumUs
  else if k = LagSnapshot.buckets + 2 then some .maxUs
  else none

/-- The counter that `tick()` turns to after this one. -/
def next : LagField → Option LagField
  | .count _ => some .wakes
  | .wakes => some .sumUs
  | .sumUs => some .maxUs
  | .maxUs => none

/-- What `tick()` stores where it has loaded `value`, for a wake that is `us` microseconds late. -/
def bumped (us value : ℕ) : LagField → ℕ
  | .count _ => addWord value 1
  | .wakes => addWord value 1
  | .sumUs => addWord value us
  | .maxUs => us

/-- A `tick()` that has come to the first counter has the second before it. -/
def pending : LagField → LagField → Bool
  | .count i, .count j => decide (i = j)
  | .count _, _ => true
  | .wakes, .count _ => false
  | .wakes, _ => true
  | .sumUs, .sumUs => true
  | .sumUs, .maxUs => true
  | .maxUs, .maxUs => true
  | _, _ => false

end LagField

namespace LagSnapshot

def field (s : LagSnapshot) : LagField → ℕ
  | .count i => s.count i
  | .wakes => s.wakes
  | .sumUs => s.sumUs
  | .maxUs => s.maxUs

def setField (s : LagSnapshot) (value : ℕ) : LagField → LagSnapshot
  | .count i => { s with count := Function.update s.count i value }
  | .wakes => { s with wakes := value }
  | .sumUs => { s with sumUs := value }
  | .maxUs => { s with maxUs := value }

end LagSnapshot

/-! ## The code -/

/-- Where the loop is in `tick()`, for a wake that is `us` microseconds late. -/
inductive TickPc
  | idle
  | load (f : LagField) (us : ℕ)
  | store (f : LagField) (us value : ℕ)

namespace TickPc

/-- The counter it has come to, and the lateness. -/
def at_ : TickPc → Option (LagField × ℕ)
  | .idle => none
  | .load f us => some (f, us)
  | .store f us _ => some (f, us)

/-- It has not come to the store to this counter. -/
def pending : TickPc → LagField → Bool
  | .idle, _ => false
  | .load g _, f => g.pending f
  | .store g _ _, f => g.pending f

end TickPc

/-- A call of `snapshot()`: the number of the next counter, what was loaded, and, for the record,
how far in each counter that was. -/
structure Reading where
  next : ℕ
  got : LagSnapshot
  position : LagField → ℕ

/-- The call loads `value` from counter `f`, with number `k` there. -/
def Reading.take (R : Reading) (f : LagField) (k value : ℕ) : Reading where
  next := R.next + 1
  got := R.got.setField value f
  position := Function.update R.position f k

/-- The counters of a probe, its loop, which is the thread `none`, and the readers. -/
structure LagCounters (ι : Type*) where
  memory : Relaxed (Option ι) LagField ℕ
  tick : TickPc
  reading : ι → Option Reading
  /-- The latenesses of the wakes, first to last (record). -/
  recorded : List ℕ
  /-- The calls of `snapshot()` that have returned, first to last (record). -/
  taken : ι → List Reading

namespace LagCounters

inductive Act (ι : Type*)
  /-- The timer wakes the loop, `us` microseconds late. -/
  | wake (us : ℕ)
  /-- The next statement of `tick()`; a load takes the value with number `k`. -/
  | tick (k : ℕ)
  | call (r : ι)
  /-- The next load of `snapshot()`. -/
  | load (r : ι) (k : ℕ)
  | ret (r : ι)

variable {ι : Type*} [DecidableEq ι]

def initial : LagCounters ι where
  memory := .initial fun _ => 0
  tick := .idle
  reading _ := none
  recorded := []
  taken _ := []

/-- What follows the store to a counter. -/
def after (f : LagField) (us : ℕ) : TickPc :=
  match f.next with
  | some g => .load g us
  | none => .idle

/-- What follows the load of a counter: `max_us` is stored only when it grows. -/
def loaded (f : LagField) (us value : ℕ) : TickPc :=
  if f = .maxUs ∧ us ≤ value then .idle else .store f us value

/-- A statement of `tick()`. -/
def tickStep (s : LagCounters ι) (k : ℕ) : Option (LagCounters ι) :=
  match s.tick with
  | .idle => none
  | .load f us =>
      (s.memory.load none f k).map fun (value, memory) =>
        { s with memory := memory, tick := loaded f us value }
  | .store f us value =>
      some { s with memory := s.memory.store none f (f.bumped us value), tick := after f us }

/-- A load of `snapshot()`. -/
def loadStep (s : LagCounters ι) (r : ι) (k : ℕ) (R : Reading) : Option (LagCounters ι) :=
  (LagField.at_ R.next).bind fun f =>
    (s.memory.load (some r) f k).map fun (value, memory) =>
      { s with
        memory := memory
        reading := Function.update s.reading r (some (R.take f k value)) }

def step (s : LagCounters ι) : Act ι → Option (LagCounters ι)
  | .wake us =>
      match s.tick with
      | .idle =>
          some { s with
            tick := .load (.count (LagSnapshot.bucketOf us)) us
            recorded := s.recorded ++ [us] }
      | _ => none
  | .tick k => s.tickStep k
  | .call r =>
      if (s.reading r).isNone then
        some { s with reading := Function.update s.reading r (some ⟨0, .empty, fun _ => 0⟩) }
      else none
  | .load r k => (s.reading r).bind (s.loadStep r k)
  | .ret r =>
      (s.reading r).bind fun R =>
        if LagField.at_ R.next = none then
          some { s with
            reading := Function.update s.reading r none
            taken := Function.update s.taken r (s.taken r ++ [R]) }
        else none

def machine : Machine (LagCounters ι) (Act ι) where
  init := initial
  step := step

/-- The actions, each with what it rests on. -/
inductive Move (s : LagCounters ι) : Act ι → LagCounters ι → Prop
  | wake (us : ℕ) (idle : s.tick = .idle) :
      Move s (.wake us) { s with
        tick := .load (.count (LagSnapshot.bucketOf us)) us
        recorded := s.recorded ++ [us] }
  | tickLoad (k us value : ℕ) (f : LagField) (memory : Relaxed (Option ι) LagField ℕ)
      (pc : s.tick = .load f us) (load : s.memory.load none f k = some (value, memory)) :
      Move s (.tick k) { s with memory := memory, tick := loaded f us value }
  | tickStore (k us value : ℕ) (f : LagField) (pc : s.tick = .store f us value) :
      Move s (.tick k)
        { s with memory := s.memory.store none f (f.bumped us value), tick := after f us }
  | call (r : ι) (free : s.reading r = none) :
      Move s (.call r)
        { s with reading := Function.update s.reading r (some ⟨0, .empty, fun _ => 0⟩) }
  | load (r : ι) (k value : ℕ) (R : Reading) (f : LagField)
      (memory : Relaxed (Option ι) LagField ℕ) (reading : s.reading r = some R)
      (at_ : LagField.at_ R.next = some f)
      (load : s.memory.load (some r) f k = some (value, memory)) :
      Move s (.load r k) { s with
        memory := memory
        reading := Function.update s.reading r (some (R.take f k value)) }
  | ret (r : ι) (R : Reading) (reading : s.reading r = some R) (done : LagField.at_ R.next = none) :
      Move s (.ret r) { s with
        reading := Function.update s.reading r none
        taken := Function.update s.taken r (s.taken r ++ [R]) }

lemma move_of_step {s s' : LagCounters ι} {act : Act ι} (h : machine.step s act = some s') :
    Move s act s' := by
  replace h : s.step act = some s' := h
  cases act with
  | wake us =>
      simp only [step] at h
      split at h
      · next hidle =>
          cases h
          exact .wake us hidle
      · cases h
  | tick k =>
      simp only [step, tickStep] at h
      split at h
      · cases h
      · next f us hpc =>
          obtain ⟨⟨value, memory⟩, hload, rfl⟩ := Option.map_eq_some_iff.mp h
          exact .tickLoad k us value f memory hpc hload
      · next f us value hpc =>
          cases h
          exact .tickStore k us value f hpc
  | call r =>
      obtain ⟨hnone, h⟩ := Option.ite_none_right_eq_some.mp h
      cases h
      exact .call r (Option.isNone_iff_eq_none.mp hnone)
  | load r k =>
      obtain ⟨R, hreading, h⟩ := Option.bind_eq_some_iff.mp h
      obtain ⟨f, hat, h⟩ := Option.bind_eq_some_iff.mp h
      obtain ⟨⟨value, memory⟩, hload, rfl⟩ := Option.map_eq_some_iff.mp h
      exact .load r k value R f memory hreading hat hload
  | ret r =>
      obtain ⟨R, hreading, h⟩ := Option.bind_eq_some_iff.mp h
      obtain ⟨hdone, h⟩ := Option.ite_none_right_eq_some.mp h
      cases h
      exact .ret r R hreading hdone

/-! ## What the loop stores -/

section

open LagSnapshot

lemma snapshotAt_append {l : List ℕ} {p : ℕ} (us : ℕ) (hp : p ≤ l.length) :
    snapshotAt (l ++ [us]) p = snapshotAt l p := by
  rw [snapshotAt, List.take_append_of_le_length hp]
  rfl

lemma snapshotAt_succ (l : List ℕ) (us : ℕ) :
    snapshotAt (l ++ [us]) (l.length + 1) = (snapshotAt l l.length).record us := by
  rw [snapshotAt, snapshotAt, List.take_of_length_le (by simp), List.take_length, recordAll,
    List.foldl_append]
  rfl

/-- A wake changes the counters that `tick()` stores to, and no other. -/
lemma field_record_of_pending (s : LagSnapshot) {us : ℕ} {f : LagField}
    (hf : (LagField.count (bucketOf us)).pending f = true) (hmax : f = .maxUs → s.maxUs < us) :
    (s.record us).field f = f.bumped us (s.field f) := by
  cases f with
  | count i =>
      obtain rfl : bucketOf us = i := of_decide_eq_true hf
      exact Function.update_self ..
  | wakes => rfl
  | sumUs => rfl
  | maxUs => exact if_pos (hmax rfl)

lemma field_record_of_not_pending (s : LagSnapshot) {us : ℕ} {f : LagField}
    (hf : (LagField.count (bucketOf us)).pending f = false) :
    (s.record us).field f = s.field f := by
  cases f with
  | count i =>
      have hne : bucketOf us ≠ i := of_decide_eq_false hf
      exact Function.update_of_ne hne.symm ..
  | wakes => cases hf
  | sumUs => cases hf
  | maxUs => cases hf

lemma maxUs_record_of_le (s : LagSnapshot) {us : ℕ} (hle : us ≤ s.maxUs) :
    (s.record us).field .maxUs = s.field .maxUs :=
  if_neg (Nat.not_lt.mpr hle)

/-- The counter with the number `n` of wakes. -/
def valueAt (recorded : List ℕ) (f : LagField) (n : ℕ) : ℕ := (snapshotAt recorded n).field f

lemma valueAt_append {l : List ℕ} {f : LagField} {p : ℕ} (us : ℕ) (hp : p ≤ l.length) :
    valueAt (l ++ [us]) f p = valueAt l f p := by
  rw [valueAt, snapshotAt_append us hp]
  rfl

/-- The number of wakes that are in a counter. -/
def upto (s : LagCounters ι) (f : LagField) : ℕ :=
  if s.tick.pending f then s.recorded.length - 1 else s.recorded.length

/-- The loop has seen what it has stored, and each counter has followed the wakes. -/
structure Kept (s : LagCounters ι) : Prop where
  ahead : s.memory.Ahead none
  begun : ∀ f us, s.tick.at_ = some (f, us) →
    (∃ before, s.recorded = before ++ [us]) ∧ (LagField.count (bucketOf us)).pending f = true
  loaded : ∀ f us value, s.tick = .store f us value →
    (s.memory.history f).getLast? = some value ∧ (f = .maxUs → value < us)
  chronicle : ∀ f, Chronicle (valueAt s.recorded f) (s.upto f) (s.memory.history f)

omit [DecidableEq ι] in
lemma Kept.initial : (initial : LagCounters ι).Kept where
  ahead := Relaxed.ahead_initial _ _
  begun _ _ h := by cases h
  loaded _ _ _ h := by cases h
  chronicle f := by
    have hzero : valueAt [] f 0 = 0 := by cases f <;> rfl
    have h : Chronicle (valueAt [] f) 0 [valueAt [] f 0] := .init
    rw [hzero] at h
    exact h

variable {s s' : LagCounters ι}

omit [DecidableEq ι] in
/-- A step that does not store, of a thread that is not the loop. -/
lemma Kept.of_same (h : s.Kept) (hahead : s'.memory.Ahead none)
    (hhistory : s'.memory.history = s.memory.history) (htick : s'.tick = s.tick)
    (hrecorded : s'.recorded = s.recorded) : s'.Kept where
  ahead := hahead
  begun f us hat := by
    rw [htick] at hat
    rw [hrecorded]
    exact h.begun f us hat
  loaded f us value hpc := by
    rw [htick] at hpc
    rw [hhistory]
    exact h.loaded f us value hpc
  chronicle f := by
    rw [hhistory, hrecorded, upto, htick, hrecorded]
    exact h.chronicle f

omit [DecidableEq ι] in
/-- A wake begins: it is in no counter that `tick()` will store to, and the others stay. -/
lemma Kept.wake (h : s.Kept) {us : ℕ} (hidle : s.tick = .idle) :
    Kept { s with
      tick := .load (.count (bucketOf us)) us
      recorded := s.recorded ++ [us] } where
  ahead := h.ahead
  begun f us' hat := by
    cases hat
    exact ⟨⟨s.recorded, rfl⟩, decide_eq_true rfl⟩
  loaded _ _ _ hpc := by cases hpc
  chronicle f := by
    have hold : Chronicle (valueAt (s.recorded ++ [us]) f) s.recorded.length
        (s.memory.history f) := by
      have hchronicle := h.chronicle f
      simp only [upto, hidle, TickPc.pending, Bool.false_eq_true, if_false] at hchronicle
      exact hchronicle.congr fun p hp => valueAt_append us hp
    cases hpending : (LagField.count (bucketOf us)).pending f with
    | true => simpa [upto, TickPc.pending, hpending] using hold
    | false =>
        have hnew : Chronicle (valueAt (s.recorded ++ [us]) f) (s.recorded.length + 1)
            (s.memory.history f) := by
          refine hold.skip ?_
          rw [valueAt, snapshotAt_succ, field_record_of_not_pending _ hpending,
            valueAt_append us (Nat.le_refl _), valueAt]
        simpa [upto, TickPc.pending, hpending] using hnew

lemma Kept.tickLoad (h : s.Kept) {k us value : ℕ} {f : LagField}
    {memory : Relaxed (Option ι) LagField ℕ} (hpc : s.tick = .load f us)
    (hload : s.memory.load none f k = some (value, memory)) :
    Kept { s with memory := memory, tick := LagCounters.loaded f us value } := by
  obtain ⟨hlast, hahead⟩ := h.ahead.load hload
  obtain ⟨-, -, hhistory, -⟩ := Relaxed.load_spec hload
  obtain ⟨⟨before, hrecorded⟩, hpending⟩ := h.begun f us (by rw [hpc]; rfl)
  by_cases hskip : f = .maxUs ∧ us ≤ value
  · have hidle : LagCounters.loaded f us value = .idle := if_pos hskip
    rw [hidle]
    refine ⟨hahead, by simp [TickPc.at_], by simp, fun g => ?_⟩
    have hchronicle := h.chronicle g
    obtain ⟨rfl, hle⟩ := hskip
    by_cases hg : g = .maxUs
    · subst hg
      have hself : LagField.maxUs.pending .maxUs = true := rfl
      simp only [upto, hpc, TickPc.pending, hself, if_true, hrecorded, List.length_append,
        List.length_singleton, Nat.add_sub_cancel] at hchronicle
      have hvalue : value = (snapshotAt before before.length).field .maxUs := by
        have hbefore := hlast.symm.trans hchronicle.getLast?
        rw [valueAt_append us (Nat.le_refl _)] at hbefore
        exact Option.some.inj hbefore
      have hsame : valueAt (before ++ [us]) .maxUs (before.length + 1) =
          valueAt (before ++ [us]) .maxUs before.length := by
        rw [hvalue] at hle
        rw [valueAt, snapshotAt_succ, maxUs_record_of_le _ hle, valueAt_append us (Nat.le_refl _),
          valueAt]
      simpa [upto, TickPc.pending, hhistory, hrecorded] using hchronicle.skip hsame
    · have hnot : LagField.maxUs.pending g = false := by cases g <;> first | rfl | contradiction
      simp only [upto, hpc, TickPc.pending, hnot] at hchronicle
      simpa [upto, TickPc.pending, hhistory] using hchronicle
  · have hstore : LagCounters.loaded f us value = .store f us value := if_neg hskip
    rw [hstore]
    refine ⟨hahead, ?_, ?_, fun g => ?_⟩
    · rintro f' us' hat
      cases hat
      exact ⟨⟨before, hrecorded⟩, hpending⟩
    · rintro f' us' value' hpc'
      cases hpc'
      exact ⟨hhistory ▸ hlast, fun hf => Nat.lt_of_not_le fun hle => hskip ⟨hf, hle⟩⟩
    · have hsame : TickPc.pending (.store f us value) g = s.tick.pending g := by rw [hpc]; rfl
      show Chronicle _ (if TickPc.pending (.store f us value) g then _ else _) (memory.history g)
      rw [hsame, hhistory]
      exact h.chronicle g

/-- With the store to a counter no other is taken off the list. -/
lemma pending_after {f g : LagField} (us : ℕ) (hg : g ≠ f) :
    (after f us).pending g = f.pending g := by
  cases f with
  | count i =>
      cases g with
      | count j => exact (decide_eq_false fun hij => hg (by rw [hij])).symm
      | _ => rfl
  | _ => cases g <;> first | rfl | contradiction

lemma Kept.tickStore (h : s.Kept) {us value : ℕ} {f : LagField}
    (hpc : s.tick = .store f us value) :
    Kept { s with memory := s.memory.store none f (f.bumped us value), tick := after f us } := by
  obtain ⟨hlast, hmax⟩ := h.loaded f us value hpc
  obtain ⟨⟨before, hrecorded⟩, hpending⟩ := h.begun f us (by rw [hpc]; rfl)
  refine ⟨h.ahead.store, ?_, ?_, fun g => ?_⟩
  · intro g us' hat
    have hus : us' = us ∧ (LagField.count (bucketOf us)).pending g = true := by
      cases f <;> cases hat <;> exact ⟨rfl, rfl⟩
    rw [hus.1]
    exact ⟨⟨before, hrecorded⟩, hus.2⟩
  · intro g us' value' hpc'
    cases f <;> cases hpc'
  · have hchronicle := h.chronicle g
    by_cases hg : g = f
    · subst hg
      have hself : g.pending g = true := by
        cases g with
        | count i => exact decide_eq_true rfl
        | _ => rfl
      have hdone : (after g us).pending g = false := by cases g <;> rfl
      simp only [upto, hpc, TickPc.pending, hself, if_true, hrecorded, List.length_append,
        List.length_singleton, Nat.add_sub_cancel] at hchronicle
      have hvalue : value = (snapshotAt before before.length).field g := by
        have hbefore := hlast.symm.trans hchronicle.getLast?
        rw [valueAt_append us (Nat.le_refl _)] at hbefore
        exact Option.some.inj hbefore
      have hnew : valueAt (before ++ [us]) g (before.length + 1) = g.bumped us value := by
        rw [valueAt, snapshotAt_succ, field_record_of_pending _ hpending, hvalue]
        rintro rfl
        have hlt := hmax rfl
        rw [hvalue] at hlt
        exact hlt
      have hstored := hchronicle.store
      rw [hnew] at hstored
      simpa [upto, hdone, Relaxed.store, hrecorded] using hstored
    · simp only [upto, hpc, TickPc.pending] at hchronicle
      simpa [upto, pending_after us hg, Relaxed.store, hg] using hchronicle

lemma Kept.step (h : s.Kept) {act : Act ι} (hmove : Move s act s') : s'.Kept := by
  cases hmove with
  | wake us idle => exact h.wake idle
  | tickLoad k us value f memory pc load => exact h.tickLoad pc load
  | tickStore k us value f pc => exact h.tickStore pc
  | call r free => exact h.of_same h.ahead rfl rfl rfl
  | load r k value R f memory reading at_ load =>
      exact h.of_same (h.ahead.of_load (by simp) load) (Relaxed.load_spec load).2.2.1 rfl rfl
  | ret r R reading done => exact h.of_same h.ahead rfl rfl rfl

lemma kept_of_reachable (hs : machine.Reachable s) : s.Kept :=
  hs.invariant (I := Kept) .initial fun _ _ _ h _ hstep => h.step (move_of_step hstep)

end

/-! ## What a reader loads -/

section

variable {s s' : LagCounters ι} {r : ι} {R : Reading} {f : LagField}

/-- What a call has got in a counter was stored there, and its thread has come that far. -/
def Loaded (s : LagCounters ι) (r : ι) (R : Reading) (f : LagField) : Prop :=
  (s.memory.history f)[R.position f]? = some (R.got.field f) ∧
    R.position f ≤ s.memory.view (some r) f

/-- A step takes back nothing of what was stored or seen. -/
lemma Loaded.step (h : s.Loaded r R f) {act : Act ι} (hmove : Move s act s') :
    s'.Loaded r R f := by
  have of_load : ∀ {i : Option ι} {g : LagField} {k value : ℕ}
      {memory : Relaxed (Option ι) LagField ℕ}, s.memory.load i g k = some (value, memory) →
      (memory.history f)[R.position f]? = some (R.got.field f) ∧
        R.position f ≤ memory.view (some r) f := by
    intro i g k value memory hload
    obtain ⟨-, -, hhistory, -⟩ := Relaxed.load_spec hload
    exact ⟨hhistory ▸ h.1, h.2.trans (Relaxed.view_le_of_load hload _ _)⟩
  cases hmove with
  | wake us idle => exact h
  | tickLoad k us value g memory pc load => exact of_load load
  | tickStore k us value g pc =>
      exact ⟨Relaxed.getElem?_store h.1 .., by simpa [Relaxed.store] using h.2⟩
  | call r' free => exact h
  | load r' k value R' g memory reading at_ load => exact of_load load
  | ret r' R' reading done => exact h

lemma field_setField_self (s : LagSnapshot) (value : ℕ) (f : LagField) :
    (s.setField value f).field f = value := by
  cases f with
  | count i => exact Function.update_self ..
  | _ => rfl

lemma field_setField_of_ne (s : LagSnapshot) (value : ℕ) {f g : LagField} (hg : g ≠ f) :
    (s.setField value f).field g = s.field g := by
  cases f with
  | count i =>
      cases g with
      | count j => exact Function.update_of_ne (fun hij => hg (by rw [hij])) ..
      | _ => rfl
  | _ => cases g <;> first | rfl | contradiction

/-- A call that has loaded the last counter has loaded every one. -/
lemma exists_at_lt {n : ℕ} (hn : LagField.at_ n = none) (f : LagField) :
    ∃ k < n, LagField.at_ k = some f := by
  have hle : LagSnapshot.buckets + 3 ≤ n := by
    unfold LagField.at_ at hn
    split at hn
    · cases hn
    · split at hn
      · cases hn
      · split at hn
        · cases hn
        · split at hn
          · cases hn
          · omega
  cases f with
  | count i => exact ⟨i.val, by omega, dif_pos i.isLt⟩
  | wakes => exact ⟨LagSnapshot.buckets, by omega, rfl⟩
  | sumUs => exact ⟨LagSnapshot.buckets + 1, by omega, rfl⟩
  | maxUs => exact ⟨LagSnapshot.buckets + 2, by omega, rfl⟩

/-- The calls of a reader go forward in every counter. -/
structure Forward (s : LagCounters ι) (r : ι) : Prop where
  taken : ∀ R ∈ s.taken r, ∀ f, s.Loaded r R f
  order : (s.taken r).Pairwise fun R R' => ∀ f, R.position f ≤ R'.position f
  reading : ∀ R, s.reading r = some R → ∀ k f, k < R.next → LagField.at_ k = some f →
    s.Loaded r R f ∧ ∀ R' ∈ s.taken r, R'.position f ≤ R.position f

/-- Something happens that is not about the reader's calls. -/
lemma Forward.of_same (h : s.Forward r) {act : Act ι} (hmove : Move s act s')
    (htaken : s'.taken r = s.taken r) (hreading : s'.reading r = s.reading r) : s'.Forward r where
  taken R hR f := (h.taken R (htaken ▸ hR) f).step hmove
  order := htaken ▸ h.order
  reading R hR k f hk hat := by
    rw [htaken]
    obtain ⟨hloaded, hle⟩ := h.reading R (hreading ▸ hR) k f hk hat
    exact ⟨hloaded.step hmove, hle⟩

lemma Forward.load (h : s.Forward r) {k value : ℕ} {memory : Relaxed (Option ι) LagField ℕ}
    (hreading : s.reading r = some R) (hat : LagField.at_ R.next = some f)
    (hload : s.memory.load (some r) f k = some (value, memory))
    (hs' : s' = { s with
      memory := memory
      reading := Function.update s.reading r (some (R.take f k value)) })
    (hmove : Move s (.load r k) s') : s'.Forward r := by
  obtain ⟨hview, hvalue, hhistory, hview'⟩ := Relaxed.load_spec hload
  have htaken : s'.taken r = s.taken r := by rw [hs']
  refine ⟨fun R' hR' g => (h.taken R' (htaken ▸ hR') g).step hmove, htaken ▸ h.order, ?_⟩
  intro R' hR' j g hj hatj
  rw [htaken]
  obtain rfl : R.take f k value = R' := by
    rw [hs'] at hR'
    simpa using hR'
  by_cases hg : g = f
  · subst hg
    refine ⟨?_, fun R' hR' => ?_⟩
    · rw [hs']
      constructor
      · simp [Reading.take, hhistory, hvalue, field_setField_self]
      · simp [Reading.take, hview']
    · simpa [Reading.take] using (h.taken R' hR' g).2.trans hview
  · have hlt : j < R.next := by
      have hne : j ≠ R.next := by
        rintro rfl
        exact hg (Option.some.inj (hatj.symm.trans hat))
      have : j < R.next + 1 := hj
      omega
    obtain ⟨hloaded, hle⟩ := h.reading R hreading j g hlt hatj
    have hloaded' := hloaded.step hmove
    refine ⟨?_, by simpa [Reading.take, hg] using hle⟩
    simpa [Loaded, Reading.take, hg, field_setField_of_ne _ _ hg] using hloaded'

lemma Forward.step (h : s.Forward r) {act : Act ι} (hmove : Move s act s') : s'.Forward r := by
  have hmove' := hmove
  cases hmove with
  | wake us idle => exact h.of_same hmove' rfl rfl
  | tickLoad k us value g memory pc load => exact h.of_same hmove' rfl rfl
  | tickStore k us value g pc => exact h.of_same hmove' rfl rfl
  | call r' free =>
      by_cases hr : r = r'
      · subst hr
        refine ⟨h.taken, h.order, fun R hR k f hk => ?_⟩
        obtain rfl : ⟨0, .empty, fun _ => 0⟩ = R := by simpa using hR
        exact absurd hk (Nat.not_lt_zero k)
      · exact h.of_same hmove' rfl (Function.update_of_ne hr ..)
  | load r' k value R' g memory reading at_ load =>
      by_cases hr : r = r'
      · subst hr
        exact h.load reading at_ load rfl hmove'
      · exact h.of_same hmove' rfl (Function.update_of_ne hr ..)
  | ret r' R' reading done =>
      by_cases hr : r = r'
      · subst hr
        -- it has loaded every counter
        have hall : ∀ f, s.Loaded r R' f ∧ ∀ R ∈ s.taken r, R.position f ≤ R'.position f := by
          intro f
          obtain ⟨k, hk, hat⟩ := exists_at_lt done f
          exact h.reading R' reading k f hk hat
        have htaken : Function.update s.taken r (s.taken r ++ [R']) r = s.taken r ++ [R'] :=
          Function.update_self ..
        refine ⟨fun R hR f => ?_, ?_, by simp⟩
        · have hmem : R ∈ s.taken r ++ [R'] := by
            rw [← htaken]
            exact hR
          rcases List.mem_append.mp hmem with hold | hnew
          · exact h.taken R hold f
          · rw [List.mem_singleton.mp hnew]
            exact (hall f).1
        · show (Function.update s.taken r (s.taken r ++ [R']) r).Pairwise _
          rw [htaken, List.pairwise_append]
          refine ⟨h.order, List.pairwise_singleton _ _, fun R hR R'' hR'' f => ?_⟩
          rw [List.mem_singleton.mp hR'']
          exact (hall f).2 R hR
      · exact h.of_same hmove' (Function.update_of_ne hr ..) (Function.update_of_ne hr ..)

lemma forward_of_reachable (hs : machine.Reachable s) (r : ι) : s.Forward r :=
  hs.invariant (I := fun s => s.Forward r)
    ⟨by simp [machine, initial], .nil, by simp [machine, initial]⟩
    fun _ _ _ h _ hstep => h.step (move_of_step hstep)

/-- Two calls of one reader: each counter as it was at some wake, and not at an earlier one in the
second call. -/
lemma exists_wakes (hs : machine.Reachable s) {R' : Reading}
    (htaken : [R, R'].Sublist (s.taken r)) :
    ∃ from_ to_ : LagField → ℕ, (∀ f, from_ f ≤ to_ f) ∧ (∀ f, to_ f ≤ s.recorded.length) ∧
      (∀ f, R.got.field f = valueAt s.recorded f (from_ f)) ∧
      ∀ f, R'.got.field f = valueAt s.recorded f (to_ f) := by
  have hforward := forward_of_reachable hs r
  choose moment hmono hle hvalue using fun f => ((kept_of_reachable hs).chronicle f).exists_moments
  have horder : ∀ f, R.position f ≤ R'.position f := by
    have hpair := hforward.order.sublist htaken
    simpa using hpair
  have hR : R ∈ s.taken r := htaken.subset (by simp)
  have hR' : R' ∈ s.taken r := htaken.subset (by simp)
  refine ⟨fun f => moment f (R.position f), fun f => moment f (R'.position f),
    fun f => hmono f (horder f), fun f => (hle f _).trans ?_,
    fun f => hvalue f _ _ (hforward.taken R hR f).1,
    fun f => hvalue f _ _ (hforward.taken R' hR' f).1⟩
  unfold upto
  split <;> omega

end

/-! ## The difference of two snapshots -/

section

open LagSnapshot

/-- The latenesses that were recorded in the window of their bucket. -/
def tornBetween (latenesses : List ℕ) (from_ to_ : Fin buckets → ℕ) : List ℕ :=
  (latenesses.zipIdx.filter fun (us, k) =>
    decide (from_ (bucketOf us) ≤ k ∧ k < to_ (bucketOf us))).map Prod.fst

variable {latenesses : List ℕ} {from_ to_ : Fin buckets → ℕ}

lemma tornBetween_sublist : (tornBetween latenesses from_ to_).Sublist latenesses := by
  have h := (List.filter_sublist (p := fun (us, k) =>
    decide (from_ (bucketOf us) ≤ k ∧ k < to_ (bucketOf us))) (l := latenesses.zipIdx)).map Prod.fst
  rw [List.zipIdx_map_fst] at h
  exact h

lemma tornBetween_append (us : ℕ) :
    tornBetween (latenesses ++ [us]) from_ to_ = tornBetween latenesses from_ to_ ++
      if from_ (bucketOf us) ≤ latenesses.length ∧ latenesses.length < to_ (bucketOf us) then [us]
      else [] := by
  unfold tornBetween
  rw [List.zipIdx_append, List.filter_append, List.map_append]
  congr 1
  simp only [List.zipIdx_singleton, List.filter_singleton, Nat.zero_add]
  split
  · next hin => simp [hin]
  · next hout => simp [hout]

lemma countP_take_append (l : List ℕ) (us n : ℕ) (p : ℕ → Bool) :
    ((l ++ [us]).take n).countP p =
      (l.take n).countP p + if l.length < n then [us].countP p else 0 := by
  rw [List.take_append, List.countP_append]
  congr 1
  split
  · next hlt => rw [List.take_of_length_le (by simp; omega)]
  · next hge => simp [Nat.sub_eq_zero_of_le (Nat.not_lt.mp hge)]

/-- In its bucket a window has what was recorded between its ends. -/
lemma countP_tornBetween (i : Fin buckets) (hle : from_ i ≤ to_ i) :
    (latenesses.take (to_ i)).countP (fun us => decide (bucketOf us = i)) =
      (latenesses.take (from_ i)).countP (fun us => decide (bucketOf us = i)) +
        (tornBetween latenesses from_ to_).countP (fun us => decide (bucketOf us = i)) := by
  induction latenesses using List.reverseRecOn with
  | nil => simp [tornBetween]
  | append_singleton l us ih =>
      rw [tornBetween_append, countP_take_append, countP_take_append, List.countP_append, ih]
      by_cases hi : bucketOf us = i
      · subst hi
        split <;> split <;> split <;> simp_all <;> omega
      · have hnone : [us].countP (fun us => decide (bucketOf us = i)) = 0 := by simp [hi]
        split <;> split <;> split <;> simp [hnone]

/-- The scan looks at the buckets only. -/
lemma scan_congr {d d' : LagSnapshot} (hcount : d.count = d'.count) (need i seen : ℕ) :
    d.scan need i seen = d'.scan need i seen := by
  induction hleft : buckets - i generalizing i seen with
  | zero => rw [scan, scan, dif_neg (by omega), dif_neg (by omega)]
  | succ left ih =>
      have hrest : ∀ seen, d.scan need (i + 1) seen = d'.scan need (i + 1) seen :=
        fun seen => ih _ seen (by omega)
      rw [scan, scan, dif_pos (by omega), dif_pos (by omega)]
      simp only [hcount, hrest]

lemma quantileUpperUs_congr {d d' : LagSnapshot} (hcount : d.count = d'.count) (q : ℚ) :
    d.quantileUpperUs q = d'.quantileUpperUs q := by
  have htotal : d.total = d'.total := by rw [total, total, hcount]
  rw [quantileUpperUs, quantileUpperUs, htotal, scan_congr hcount]

lemma le_foldl_max (l : List ℕ) (a : ℕ) : a ≤ l.foldl max a := by
  induction l generalizing a with
  | nil => exact Nat.le_refl a
  | cons b l ih => exact (Nat.le_max_left a b).trans (ih _)

lemma maxUs_recordAll (l : List ℕ) : (recordAll l).maxUs = l.foldl max 0 := by
  induction l using List.reverseRecOn with
  | nil => rfl
  | append_singleton l us ih =>
      rw [recordAll, List.foldl_append, List.foldl_append, ← ih]
      show (if (recordAll l).maxUs < us then us else (recordAll l).maxUs) =
        max (recordAll l).maxUs us
      split <;> omega

/-- Each counter of the two snapshots is what it was after a number of wakes, in the later one not a
smaller number. -/
structure TakenAt (recorded : List ℕ) (from_ to_ : LagField → ℕ) (earlier later : LagSnapshot) :
    Prop where
  le : ∀ f, from_ f ≤ to_ f
  bounded : ∀ f, to_ f ≤ recorded.length
  earlier : ∀ f, earlier.field f = valueAt recorded f (from_ f)
  later : ∀ f, later.field f = valueAt recorded f (to_ f)

namespace TakenAt

variable {recorded : List ℕ} {from_ to_ : LagField → ℕ} {earlier later : LagSnapshot}
  (h : TakenAt recorded from_ to_ earlier later) (hlen : recorded.length < word)
include h hlen

lemma count_since (i : Fin buckets) :
    (later.since earlier).count i =
      (tornBetween recorded (fun i => from_ (.count i)) (fun i => to_ (.count i))).countP
        (fun us => decide (bucketOf us = i)) := by
  have hlater := (h.later (.count i)).trans ((records_recordAll _).count i)
  have hearlier := (h.earlier (.count i)).trans ((records_recordAll _).count i)
  have hsplit := @countP_tornBetween recorded (fun i => from_ (.count i))
    (fun i => to_ (.count i)) i (h.le _)
  rw [hsplit] at hlater
  show subWord (later.field (.count i)) (earlier.field (.count i)) = _
  rw [hlater, hearlier, subWord_mod]
  refine Nat.mod_eq_of_lt (Nat.lt_of_le_of_lt ?_ hlen)
  exact List.countP_le_length.trans tornBetween_sublist.length_le

lemma wakes_since : (later.since earlier).wakes = to_ .wakes - from_ .wakes := by
  have hlater := (h.later .wakes).trans (records_recordAll _).wakes
  have hearlier := (h.earlier .wakes).trans (records_recordAll _).wakes
  have hle := h.le .wakes
  have hbounded := h.bounded .wakes
  rw [List.length_take, Nat.min_eq_left (by omega)] at hlater hearlier
  show subWord (later.field .wakes) (earlier.field .wakes) = _
  rw [hlater, hearlier, ← Nat.add_sub_of_le hle, subWord_mod, Nat.add_sub_cancel_left]
  exact Nat.mod_eq_of_lt (by omega)

omit hlen in
lemma sumUs_since : (later.since earlier).sumUs =
    (between recorded (from_ .sumUs) (to_ .sumUs)).sum % word := by
  have hlater := h.later .sumUs
  have hearlier := h.earlier .sumUs
  have hrecords := (records_between recorded (h.le .sumUs)).sumUs
  show subWord (later.field .sumUs) (earlier.field .sumUs) = _
  rw [hlater, hearlier]
  exact hrecords

omit hlen in
lemma maxUs_later : later.maxUs = (recorded.take (to_ .maxUs)).foldl max 0 :=
  (h.later .maxUs).trans (maxUs_recordAll _)

omit hlen in
lemma maxUs_le : earlier.maxUs ≤ later.maxUs := by
  have hearlier : earlier.maxUs = _ := (h.earlier .maxUs).trans (maxUs_recordAll _)
  have hsplit := List.take_append_drop (from_ .maxUs) (recorded.take (to_ .maxUs))
  rw [List.take_take, Nat.min_eq_left (h.le .maxUs)] at hsplit
  rw [h.maxUs_later, hearlier, ← hsplit, List.foldl_append]
  exact le_foldl_max _ _

/-- The percentile is that of the latenesses which the buckets have counted. -/
lemma quantile_since {window : List ℕ}
    (hwindow : window = tornBetween recorded (fun i => from_ (.count i)) (fun i => to_ (.count i)))
    {q : ℚ} (hq : 0 < q) (hq1 : q ≤ 1) (hn : window ≠ []) :
    ∃ v, kthSmallest window ⌈q * window.length⌉₊ = some v ∧
      (later.since earlier).quantileUpperUs q = upperUs (indexOf v) := by
  have hshort : window.length < word := by
    rw [hwindow]
    exact Nat.lt_of_le_of_lt tornBetween_sublist.length_le hlen
  -- a snapshot with these buckets and the two sums that go with them
  obtain ⟨d, hrecords, hsame⟩ :
      ∃ d : LagSnapshot, d.Records window ∧ (later.since earlier).count = d.count := by
    refine ⟨⟨(later.since earlier).count, window.length % word, window.sum % word, 0⟩,
      ⟨fun i => ?_, rfl, rfl⟩, rfl⟩
    have hcount := h.count_since hlen i
    rw [← hwindow] at hcount
    exact hcount.trans (Nat.mod_eq_of_lt (Nat.lt_of_le_of_lt List.countP_le_length hshort)).symm
  obtain ⟨v, hv, hedge⟩ := hrecords.quantile hshort hn hq hq1
  exact ⟨v, hv, (quantileUpperUs_congr hsame q).trans hedge⟩

end TakenAt

/-- **A percentile of torn snapshots is one of what was recorded.**  For two snapshots that one
reader has taken one after the other, at any time and with any values that relaxed loads may give it
(fewer than 2⁶⁴ wakes): each counter is, in the first and in the second, what it was after some
number of wakes, in the second not a smaller one; the difference has in each bucket exactly the
wakes of that bucket in between, and its percentile is the upper edge of the bucket of the
`⌈q * n⌉`-th smallest of the `n` latenesses so counted, which were all recorded; and `max_us` does
not fall. -/
theorem torn_percentile {s : LagCounters ι} (hs : machine.Reachable s)
    (hlen : s.recorded.length < word) {r : ι} {R R' : Reading}
    (htaken : [R, R'].Sublist (s.taken r)) {q : ℚ} (hq : 0 < q) (hq1 : q ≤ 1) {d : LagSnapshot}
    (hd : d = R'.got.since R.got) :
    ∃ from_ to_ : LagField → ℕ, TakenAt s.recorded from_ to_ R.got R'.got ∧
      ∃ window, window = tornBetween s.recorded (fun i => from_ (.count i))
          (fun i => to_ (.count i)) ∧
        window.Sublist s.recorded ∧
        (∀ i, d.count i = window.countP (fun us => decide (bucketOf us = i))) ∧
        (window ≠ [] → ∃ v, kthSmallest window ⌈q * window.length⌉₊ = some v ∧
          d.quantileUpperUs q = upperUs (indexOf v)) ∧
        d.wakes = to_ .wakes - from_ .wakes ∧
        d.sumUs = (between s.recorded (from_ .sumUs) (to_ .sumUs)).sum % word ∧
        d.maxUs = (s.recorded.take (to_ .maxUs)).foldl max 0 ∧ R.got.maxUs ≤ d.maxUs := by
  obtain ⟨from_, to_, hle, hbounded, hearlier, hlater⟩ := exists_wakes hs htaken
  have h : TakenAt s.recorded from_ to_ R.got R'.got := ⟨hle, hbounded, hearlier, hlater⟩
  subst hd
  exact ⟨from_, to_, h, _, rfl, tornBetween_sublist, h.count_since hlen,
    h.quantile_since hlen rfl hq hq1, h.wakes_since hlen, h.sumUs_since, h.maxUs_later, h.maxUs_le⟩

/-- The loop records a wake that is 5 µs late between the loads of the buckets and that of `wakes`
in a first snapshot; a second one has it all. -/
def tornRun : List (Act Unit) :=
  List.flatten [[.wake 5, .call ()], List.replicate buckets (.load () 0),
    List.replicate 8 (.tick 0), [.load () 1, .load () 1, .load () 1, .ret (), .call ()],
    (List.range buckets).map fun k => .load () (if k = 5 then 1 else 0),
    [.load () 1, .load () 1, .load () 1, .ret ()]]

/-- The first has one wake in no bucket, and their difference one in a bucket and no wake. -/
theorem torn_percentile_at_tornRun :
    ∃ s : LagCounters Unit, machine.Reachable s ∧ ∃ R R', s.taken () = [R, R'] ∧
      ((R.got.wakes = 1 ∧ R.got.count (bucketOf 5) = 0) ∧
        (R'.got.wakes = 1 ∧ R'.got.count (bucketOf 5) = 1)) ∧
      ∃ window : List ℕ, window.Sublist [5] ∧ (R'.got.since R.got).count (bucketOf 5) =
        window.countP (fun us => decide (bucketOf us = bucketOf 5)) := by
  obtain ⟨s, hs, htest⟩ := machine.exists_reachable_of_run tornRun
    (fun s => decide ((s.taken ()).map (fun R => (R.got.wakes, R.got.count (bucketOf 5))) =
      [(1, 0), (1, 1)] ∧ s.recorded = [5])) (by decide +kernel)
  obtain ⟨htaken, hrecorded⟩ := of_decide_eq_true htest
  obtain ⟨R, R', hR⟩ := List.length_eq_two.mp (by simpa using congrArg List.length htaken)
  rw [hR] at htaken
  have hgot : (R.got.wakes = 1 ∧ R.got.count (bucketOf 5) = 0) ∧
      (R'.got.wakes = 1 ∧ R'.got.count (bucketOf 5) = 1) := by simpa using htaken
  obtain ⟨-, -, -, window, -, hsublist, hcount, -⟩ := torn_percentile (q := 1) hs
    (by rw [hrecorded]; decide) (r := ()) (by rw [hR]) one_pos le_rfl rfl
  exact ⟨s, hs, R, R', hR, hgot, window, hrecorded ▸ hsublist, hcount _⟩

end

end LagCounters

end ReactorRuntime
