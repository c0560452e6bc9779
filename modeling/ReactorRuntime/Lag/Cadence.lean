import ReactorRuntime.Lag.Probe
import ReactorRuntime.Library.Spacing

/-!
# How often the probe wakes

`Lag/Probe.lean` leaves the intervals open.  Here the probe has a clock, in nanoseconds, and
`tick()` does the rest of what it does (`reactor_lag.h:168-193`): it measures how late it is, looks
whether anyone has called `note_activity()`, and arms the timer for 1 ms if someone has in the last
second and for 100 ms otherwise.

What the header of the source promises is read off the list of the wakes.  Each of them comes no
earlier than the interval of the one before has passed, and reports the time since its deadline;
its interval is the short one exactly if it, or a wake in the second before it, has noticed an
activity.  So the loop is never woken more than a thousand times a second, and ten times when
nothing is going on (`probe_cadence`).

The load of `activity` is relaxed and may find an old value, but not one older than it has found
before.  The counter has 64 bits: an activity goes unnoticed where `2 ^ 64` of them, or a multiple
of that, came between two loads.
-/

namespace ReactorRuntime

namespace LagProbe

/-- `busy_interval`, in nanoseconds. -/
def busyInterval : ℕ := 1000000

/-- `idle_interval` -/
def idleInterval : ℕ := 100000000

/-- `busy_window` -/
def busyWindow : ℕ := 1000000000

/-- A record of one wake. -/
structure Wake where
  /-- `now` of its `tick()`. -/
  time : ℕ
  due : ℕ
  us : ℕ
  /-- How many calls of `note_activity()` it is the first one to see. -/
  noted : ℕ
  /-- What it has armed the timer for. -/
  interval : ℕ
  deriving DecidableEq, Repr

/-- The wake has found `activity` changed. -/
def Wake.notices (w : Wake) : Bool := decide (w.noted % word ≠ 0)

/-- A probe with a clock. -/
structure Timed where
  probe : LagProbe
  now : ℕ
  due : ℕ
  /-- `now` of the `tick()` that is executed. -/
  tickNow : ℕ
  busyUntil : ℕ
  lastActivity : ℕ
  /-- Record: the number of calls of `note_activity()`. -/
  activity : ℕ
  /-- Record: how many of them the last load of `activity` has seen. -/
  seen : ℕ
  /-- Record: the wakes, the last one first. -/
  wakes : List Wake

namespace Timed

inductive Act
  /-- What the probe does but for its `tick()`. -/
  | probe (a : LagProbe.Act)
  /-- `tick()` reads the clock, and counts. -/
  | record
  /-- `tick()` loads `activity`, finds that `seen` calls were made, and arms the timer. -/
  | rearm (seen : ℕ)
  /-- `note_activity()` -/
  | note
  /-- Time passes. -/
  | pass (ns : ℕ)
  deriving DecidableEq, Repr

def initial : Timed where
  probe := LagProbe.initial
  now := 0
  due := 0
  tickNow := 0
  busyUntil := 0
  lastActivity := 0
  activity := 0
  seen := 0
  wakes := []

/-- How late it is at time `now`, in microseconds. -/
def lateUs (now due : ℕ) : ℕ := if due < now then (now - due) / 1000 else 0

/-- The end of `tick()`, which has found that `seen` calls of `note_activity()` were made, and
leaves the probe as `p`. -/
def rearm (s : Timed) (seen : ℕ) (p : LagProbe) : Timed :=
  let noticed := decide (seen % word ≠ s.lastActivity)
  let busyUntil := if noticed then s.tickNow + busyWindow else s.busyUntil
  let interval := if s.tickNow < busyUntil then busyInterval else idleInterval
  { s with
    probe := p
    due := s.now + interval
    busyUntil := busyUntil
    lastActivity := if noticed then seen % word else s.lastActivity
    seen := seen
    wakes := ⟨s.tickNow, s.due, lateUs s.tickNow s.due, seen - s.seen, interval⟩ :: s.wakes }

/-- What the probe does but for its `tick()`: `start()` arms the timer for the idle interval, and a
wait expires when its time has come. -/
def probeStep (s : Timed) : LagProbe.Act → Option Timed
  | .record _ => none
  | .rearm => none
  | .startArm =>
      (s.probe.step .startArm).map fun p => { s with probe := p, due := s.now + idleInterval }
  | .expire k =>
      if s.due ≤ s.now then (s.probe.step (.expire k)).map fun p => { s with probe := p } else none
  | a => (s.probe.step a).map fun p => { s with probe := p }

/-- One action. -/
def step (s : Timed) : Act → Option Timed
  | .probe a => s.probeStep a
  | .record =>
      (s.probe.step (.record (lateUs s.now s.due))).map fun p =>
        { s with probe := p, tickNow := s.now }
  | .rearm seen =>
      if s.seen ≤ seen ∧ seen ≤ s.activity then (s.probe.step .rearm).map (s.rearm seen) else none
  | .note => some { s with activity := s.activity + 1 }
  | .pass ns => some { s with now := s.now + ns }

/-- The probe with a clock as a machine. -/
def machine : Machine Timed Act where
  init := initial
  step := step

/-! ## The list of the wakes -/

/-- The end of the busy time that the wakes have set. -/
def busyUntilOf : List Wake → ℕ
  | [] => 0
  | w :: earlier => if w.notices then w.time + busyWindow else busyUntilOf earlier

/-- The wakes, the last one first, come when they should and choose their interval as they
should. -/
def Paced : List Wake → Prop
  | [] => True
  | w :: earlier =>
      w.interval =
        (if w.time < busyUntilOf (w :: earlier) then busyInterval else idleInterval) ∧
      w.due ≤ w.time ∧ w.us = (w.time - w.due) / 1000 ∧
      (∀ u ∈ earlier.head?, u.time + u.interval ≤ w.due) ∧ Paced earlier

lemma Paced.tail {w : Wake} {earlier : List Wake} (h : Paced (w :: earlier)) : Paced earlier :=
  h.2.2.2.2

/-- A wake comes when the intervals of all the earlier ones have passed. -/
lemma Paced.apart {w : Wake} {earlier : List Wake} (h : Paced (w :: earlier)) :
    ∀ u ∈ earlier, u.time + u.interval ≤ w.time := by
  induction earlier generalizing w with
  | nil => simp
  | cons v earlier ih =>
      obtain ⟨-, hdue, -, hnext, hrest⟩ := h
      have hv : v.time + v.interval ≤ w.time := Nat.le_trans (hnext v rfl) hdue
      intro u hu
      rcases List.mem_cons.mp hu with rfl | hu
      · exact hv
      · have := ih hrest u hu
        omega

lemma Paced.pairwise {wakes : List Wake} (h : Paced wakes) :
    wakes.Pairwise fun later earlier => earlier.time + earlier.interval ≤ later.time := by
  induction wakes with
  | nil => exact .nil
  | cons w earlier ih => exact List.pairwise_cons.mpr ⟨h.apart, ih h.tail⟩

/-- The earlier part of the list. -/
lemma Paced.suffix {wakes later rest : List Wake} (h : Paced wakes) (heq : wakes = later ++ rest) :
    Paced rest := by
  subst heq
  induction later with
  | nil => exact h
  | cons v later ih => exact ih h.tail

lemma Paced.busy_le_interval {wakes : List Wake} (h : Paced wakes) :
    ∀ w ∈ wakes, busyInterval ≤ w.interval := by
  induction wakes with
  | nil => simp
  | cons w earlier ih =>
      intro u hu
      rcases List.mem_cons.mp hu with rfl | hu
      · rw [h.1]
        split
        · exact Nat.le_refl _
        · decide
      · exact ih h.tail u hu

/-- The busy time is that of the last wake that has noticed something. -/
lemma Paced.lt_busyUntilOf {w : Wake} {earlier : List Wake} (h : Paced (w :: earlier)) (t : ℕ) :
    t < busyUntilOf (w :: earlier) ↔
      ∃ u ∈ w :: earlier, u.notices = true ∧ t < u.time + busyWindow := by
  induction earlier generalizing w with
  | nil =>
      by_cases hw : w.notices = true
      · simp [busyUntilOf, hw]
      · simp [busyUntilOf, hw]
  | cons v earlier ih =>
      rw [busyUntilOf]
      split
      · rename_i hw
        constructor
        · intro ht
          exact ⟨w, List.mem_cons_self, hw, ht⟩
        · rintro ⟨u, hu, -, ht⟩
          rcases List.mem_cons.mp hu with rfl | hu
          · exact ht
          · have := h.apart u hu
            omega
      · rename_i hw
        rw [ih h.tail]
        constructor
        · rintro ⟨u, hu, hrest⟩
          exact ⟨u, List.mem_cons_of_mem w hu, hrest⟩
        · rintro ⟨u, hu, hnotices, ht⟩
          rcases List.mem_cons.mp hu with rfl | hu
          · exact absurd hnotices hw
          · exact ⟨u, hu, hnotices, ht⟩

/-! ## What holds at all times -/

/-- The clock, the waits and the list of the wakes agree. -/
structure Kept (s : Timed) : Prop where
  single : s.probe.Single
  /-- A wait that has expired is due, and so is one whose `tick()` is executed. -/
  expired : ∀ w ∈ s.probe.waits, w.status = .expired → s.due ≤ s.now
  ticking : s.probe.loop ≠ .idle → s.due ≤ s.now
  tick : s.probe.loop = .arming → s.due ≤ s.tickNow ∧ s.tickNow ≤ s.now
  first : s.probe.started = false ∨ s.probe.starting = true → s.wakes = []
  next : ∀ u ∈ s.wakes.head?, u.time + u.interval ≤ s.due
  busy : s.busyUntil = busyUntilOf s.wakes
  last : s.lastActivity = s.seen % word
  paced : Paced s.wakes

variable {s t : Timed}

lemma status_of_abort {w : LagWait} (h : w.abort.status = .expired) : w.status = .expired := by
  simp only [LagWait.abort] at h
  split at h
  · cases h
  · exact h

/-- Before the first arm nothing else is going on. -/
lemma idle_of_starting {p : LagProbe} (h : p.Single) (hstarting : p.starting = true) :
    p.loop = .idle := by
  have hone := h.one
  have hstarted := Bool.toNat_le p.started
  rw [hstarting, Bool.toNat_true] at hone
  cases hloop : p.loop with
  | idle => rfl
  | checking | recording | arming =>
      simp only [hloop, LagProbe.ticking] at hone
      omega

/-- At the end of `tick()` the first arm is past. -/
lemma started_of_arming {p : LagProbe} (h : p.Single) (harming : p.loop = .arming) :
    p.started = true ∧ p.starting = false := by
  have hone := h.one
  simp only [harming, LagProbe.ticking] at hone
  cases hstarted : p.started <;> cases hstarting : p.starting <;>
    simp [hstarted, hstarting] at hone ⊢

lemma waits_of_arming {p : LagProbe} (h : p.Single) (harming : p.loop = .arming) :
    p.waits = [] := by
  have hone := h.one
  have hstarted := Bool.toNat_le p.started
  simp only [harming, LagProbe.ticking] at hone
  exact List.eq_nil_of_length_eq_zero (by omega)

/-- The probe moves, and the clock and the wakes stand. -/
lemma Kept.idle_move (h : s.Kept) {p : LagProbe} (hsingle : p.Single)
    (hexpired : ∀ w ∈ p.waits, w.status = .expired → s.due ≤ s.now)
    (hloop : p.loop ≠ .idle → s.due ≤ s.now) (harming : p.loop = .arming → s.probe.loop = .arming)
    (hfirst : p.started = false ∨ p.starting = true →
      s.probe.started = false ∨ s.probe.starting = true) :
    Kept { s with probe := p } where
  single := hsingle
  expired := hexpired
  ticking := hloop
  tick hp := h.tick (harming hp)
  first hp := h.first (hfirst hp)
  next := h.next
  busy := h.busy
  last := h.last
  paced := h.paced

lemma Kept.probe (h : s.Kept) {a : LagProbe.Act} (hstep : s.probeStep a = some t) : t.Kept := by
  have hplain : (s.probe.step a).map (fun p => { s with probe := p }) = some t →
      ∃ p, LagProbe.Move s.probe a p ∧ p.Single ∧ t = { s with probe := p } := by
    intro hmap
    obtain ⟨p, hp, rfl⟩ := Option.map_eq_some_iff.mp hmap
    have hmove := LagProbe.move_of_step hp
    exact ⟨p, hmove, h.single.move hmove, rfl⟩
  cases a with
  | record | rearm => cases hstep
  | startArm =>
      obtain ⟨p, hp, rfl⟩ := Option.map_eq_some_iff.mp hstep
      have hmove := LagProbe.move_of_step hp
      have hsingle := h.single.move hmove
      cases hmove with
      | startArm starting =>
          -- there has been no wake yet, and the new wait is pending
          have hidle := idle_of_starting h.single starting
          have hnone := h.first (.inr starting)
          refine ⟨hsingle, ?_, fun hloop => absurd hidle hloop, ?_, fun _ => hnone, ?_, h.busy,
            h.last, h.paced⟩
          · intro w hw hexp
            rcases List.mem_cons.mp hw with rfl | hw
            · cases hexp
            · obtain ⟨w₀, hw₀, rfl⟩ := List.mem_map.mp hw
              have hone := h.single.one
              have hstarted := Bool.toNat_le s.probe.started
              have hpos := List.length_pos_of_mem hw₀
              rw [starting, Bool.toNat_true] at hone
              omega
          · intro harming
            exact absurd (hidle.symm.trans harming) (by simp)
          · simp [hnone]
  | expire k =>
      obtain ⟨hdue, hstep⟩ := Option.ite_none_right_eq_some.mp hstep
      obtain ⟨p, hmove, hsingle, rfl⟩ := hplain hstep
      cases hmove with
      | expire hw => exact h.idle_move hsingle (fun _ _ _ => hdue) h.ticking id id
  | start =>
      obtain ⟨p, hmove, hsingle, rfl⟩ := hplain hstep
      cases hmove with
      | start first =>
          exact h.idle_move hsingle h.expired h.ticking id fun _ => .inl first
      | startAgain => exact h
  | cancel =>
      obtain ⟨p, hmove, hsingle, rfl⟩ := hplain hstep
      cases hmove with
      | cancel idle posted =>
          refine h.idle_move hsingle ?_ h.ticking id id
          intro w hw hexp
          obtain ⟨w₀, hw₀, rfl⟩ := List.mem_map.mp hw
          exact h.expired w₀ hw₀ (status_of_abort hexp)
  | complete k =>
      obtain ⟨p, hmove, hsingle, rfl⟩ := hplain hstep
      cases hmove with
      | @complete _ w hw idle =>
          refine h.idle_move hsingle ?_ ?_ ?_ id
          · intro w' hw' hexp
            exact h.expired w' (List.mem_of_mem_eraseIdx hw') hexp
          · intro hloop
            by_cases hexp : w.status = .expired
            · exact h.expired w (List.mem_of_getElem? hw) hexp
            · exact absurd (if_neg hexp) hloop
          · intro harming
            change (if w.status = .expired then LagLoop.checking else LagLoop.idle) = .arming
              at harming
            split at harming <;> cases harming
  | check found =>
      obtain ⟨p, hmove, hsingle, rfl⟩ := hplain hstep
      cases hmove with
      | check checking load =>
          refine h.idle_move hsingle h.expired ?_ ?_ id
          · intro _
            exact h.ticking (by simp [checking])
          · intro harming
            cases found <;> cases harming
  | stop | exchange | post =>
      obtain ⟨p, hmove, hsingle, rfl⟩ := hplain hstep
      cases hmove <;> exact h.idle_move hsingle h.expired h.ticking id id

/-- A wake notices something exactly if `activity` is not what it was. -/
lemma notices_iff {seen before : ℕ} (hle : before ≤ seen) :
    (seen - before) % word ≠ 0 ↔ seen % word ≠ before % word := by
  unfold word
  omega

/-- The end of `tick()` leaves one wait, and it is pending. -/
lemma wait_of_rearm {p q : LagProbe} (h : p.Single) (hstep : p.step .rearm = some q) :
    p.loop = .arming ∧ q.loop = .idle ∧ q.started = true ∧ q.starting = false ∧
      ∀ w ∈ q.waits, w.status = .pending := by
  cases LagProbe.move_of_step hstep with
  | rearm arming =>
      obtain ⟨hstarted, hstarting⟩ := started_of_arming h arming
      refine ⟨arming, rfl, hstarted, hstarting, ?_⟩
      intro w hw
      simp only [LagProbe.arm, waits_of_arming h arming, List.map_nil] at hw
      rw [List.mem_singleton.mp hw]

lemma Kept.rearm (h : s.Kept) {seen : ℕ} (hseen : s.seen ≤ seen) {p : LagProbe}
    (hp : s.probe.step .rearm = some p) : (s.rearm seen p).Kept := by
  obtain ⟨harming, hidle, hstarted, hstarting, hpending⟩ := wait_of_rearm h.single hp
  obtain ⟨hdue, hnow⟩ := h.tick harming
  have hbusy : busyUntilOf (s.rearm seen p).wakes = (s.rearm seen p).busyUntil := by
    simp only [Timed.rearm, busyUntilOf, Wake.notices, notices_iff hseen, ← h.last, ← h.busy]
  refine ⟨h.single.move (LagProbe.move_of_step hp), ?_, fun hloop => absurd hidle hloop, ?_, ?_, ?_,
    hbusy.symm, ?_, ?_⟩
  · intro w hw hexp
    rw [hpending w hw] at hexp
    cases hexp
  · intro hloop
    cases hidle.symm.trans hloop
  · intro hfirst
    simp [Timed.rearm, hstarted, hstarting] at hfirst
  · intro u hu
    obtain rfl : _ = u := Option.some.inj hu
    exact Nat.add_le_add_right hnow _
  · simp only [Timed.rearm]
    split
    · rfl
    · rename_i hsame
      have heq : seen % word = s.lastActivity := by simpa using hsame
      rw [← heq]
  · refine ⟨?_, hdue, ?_, h.next, h.paced⟩
    · rw [show (_ :: s.wakes) = (s.rearm seen p).wakes from rfl, hbusy]
      rfl
    · simp only [lateUs]
      split
      · rfl
      · omega

lemma Kept.step (h : s.Kept) {act : Act} (hstep : s.step act = some t) : t.Kept := by
  cases act with
  | probe a => exact h.probe hstep
  | record =>
      obtain ⟨p, hp, rfl⟩ := Option.map_eq_some_iff.mp hstep
      have hm := LagProbe.move_of_step hp
      have hsingle := h.single.move hm
      cases hm with
      | record recording =>
          have hdue := h.ticking (by simp [recording])
          exact ⟨hsingle, h.expired, fun _ => hdue, fun _ => ⟨hdue, Nat.le_refl _⟩, h.first, h.next,
            h.busy, h.last, h.paced⟩
  | rearm seen =>
      obtain ⟨⟨hseen, -⟩, hstep⟩ := Option.ite_none_right_eq_some.mp hstep
      obtain ⟨p, hp, rfl⟩ := Option.map_eq_some_iff.mp hstep
      exact h.rearm hseen hp
  | note =>
      cases hstep
      exact ⟨h.single, h.expired, h.ticking, h.tick, h.first, h.next, h.busy, h.last, h.paced⟩
  | pass ns =>
      cases hstep
      refine ⟨h.single, ?_, ?_, ?_, h.first, h.next, h.busy, h.last, h.paced⟩
      · intro w hw hexp
        exact Nat.le_add_right_of_le (h.expired w hw hexp)
      · intro hloop
        exact Nat.le_add_right_of_le (h.ticking hloop)
      · intro harming
        exact ⟨(h.tick harming).1, Nat.le_add_right_of_le (h.tick harming).2⟩

lemma kept_of_reachable (hs : machine.Reachable s) : s.Kept := by
  refine hs.invariant (I := Kept) ?_ fun _ _ _ h _ hstep => h.step hstep
  have hsingle : LagProbe.initial.Single := LagProbe.single_of_reachable .init
  exact ⟨hsingle, by simp [machine, initial, LagProbe.initial], fun hloop => absurd rfl hloop,
    (fun hloop => by cases hloop), fun _ => rfl, by simp [machine, initial], rfl, rfl, trivial⟩

/-! ## The promises -/

/-- Where no wake notices anything, from a second before the window on, the wakes in the window are
the long interval apart. -/
lemma Paced.spaced_of_quiet {wakes : List Wake} (h : Paced wakes) {a T : ℕ}
    (hquiet : ∀ u ∈ wakes, a < u.time + busyWindow → u.time < a + T → u.notices = false) :
    Spaced idleInterval
      ((wakes.filter fun w => decide (a ≤ w.time ∧ w.time < a + T)).map Wake.time) := by
  have hidle : ∀ w ∈ wakes, a ≤ w.time → w.time < a + T → w.interval = idleInterval := by
    intro w hw ha hT
    obtain ⟨later, earlier, rfl⟩ := List.append_of_mem hw
    have hw' : Paced (w :: earlier) := h.suffix rfl
    rw [hw'.1, if_neg]
    rw [hw'.lt_busyUntilOf]
    rintro ⟨u, hu, hnotices, hlt⟩
    have hle : u.time ≤ w.time := by
      rcases List.mem_cons.mp hu with rfl | hu
      · exact Nat.le_refl _
      · have := hw'.apart u hu
        omega
    have hnot := hquiet u (List.mem_append_right later hu) (by omega) (by omega)
    simp [hnot] at hnotices
  refine List.pairwise_map.mpr ((h.pairwise.filter _).imp_of_mem ?_)
  intro later earlier hlater hearlier hle
  obtain ⟨hmem, hin⟩ := List.mem_filter.mp hearlier
  obtain ⟨ha, hT⟩ := of_decide_eq_true hin
  rw [← hidle earlier hmem ha hT]
  exact hle

/-- Wakes of a window that are `gap` apart. -/
lemma length_le_of_spaced {wakes : List Wake} {a T gap : ℕ} (hgap : 0 < gap)
    (h : Spaced gap ((wakes.filter fun w => decide (a ≤ w.time ∧ w.time < a + T)).map Wake.time)) :
    (wakes.filter fun w => decide (a ≤ w.time ∧ w.time < a + T)).length ≤ T / gap + 1 := by
  rw [← List.length_map (f := Wake.time)]
  refine h.length_le_of_window (a := a) hgap ?_
  intro t ht
  obtain ⟨w, hw, rfl⟩ := List.mem_map.mp ht
  exact of_decide_eq_true (List.mem_filter.mp hw).2

/-- **The probe wakes when it says.**  In every run, however late the loop executes what has
expired: a wake comes when the interval of the one before has passed, or later, and reports how many
whole microseconds it is past its deadline; its interval is 1 ms if it, or a wake less than a second
before it, is the first to see a call of `note_activity()` (the number of such calls not being a
multiple of `2 ^ 64`), and 100 ms if not.  So a window of length `T` has at most `T / 1 ms + 1`
wakes, and at most `T / 100 ms + 1` if nothing is noticed in it or in the second before. -/
theorem probe_cadence (hs : machine.Reachable s) :
    (∀ later w earlier, s.wakes = later ++ w :: earlier →
      w.interval = (if ∃ u ∈ w :: earlier, u.noted % word ≠ 0 ∧ w.time < u.time + busyWindow then
        busyInterval else idleInterval) ∧
      w.due ≤ w.time ∧ w.us = (w.time - w.due) / 1000 ∧
      ∀ u ∈ earlier, u.time + u.interval ≤ w.due) ∧
    (∀ a T, (s.wakes.filter fun w => decide (a ≤ w.time ∧ w.time < a + T)).length ≤
      T / busyInterval + 1) ∧
    ∀ a T, (∀ u ∈ s.wakes, a < u.time + busyWindow → u.time < a + T → u.noted % word = 0) →
      (s.wakes.filter fun w => decide (a ≤ w.time ∧ w.time < a + T)).length ≤
        T / idleInterval + 1 := by
  have hpaced := (kept_of_reachable hs).paced
  refine ⟨?_, ?_, ?_⟩
  · intro later w earlier heq
    obtain ⟨hinterval, hdue, hus, hnext, hearlier⟩ := (hpaced.suffix heq)
    refine ⟨?_, hdue, hus, ?_⟩
    · rw [hinterval]
      simp only [(hpaced.suffix heq).lt_busyUntilOf, Wake.notices, decide_eq_true_eq]
    · intro u hu
      cases earlier with
      | nil => simp at hu
      | cons v earlier =>
          have hv := hnext v rfl
          rcases List.mem_cons.mp hu with rfl | hu
          · exact hv
          · have := hearlier.apart u hu
            omega
  · intro a T
    refine length_le_of_spaced (by decide)
      (List.pairwise_map.mpr ((hpaced.pairwise.filter _).imp_of_mem ?_))
    intro later earlier _ hearlier hle
    have := hpaced.busy_le_interval earlier (List.mem_filter.mp hearlier).1
    omega
  · intro a T hquiet
    refine length_le_of_spaced (by decide) (hpaced.spaced_of_quiet ?_)
    intro u hu ha hT
    simp [Wake.notices, hquiet u hu ha hT]

/-- An activity in the first idle interval, and two wakes: the first one is 3 microseconds late and
notices it. -/
def noticedRun : List Act :=
  [.probe .start, .probe .startArm, .note, .pass 100003500, .probe (.expire 0),
    .probe (.complete 0), .probe (.check false), .record, .rearm 1, .pass 1000000,
    .probe (.expire 0), .probe (.complete 0), .probe (.check false), .record, .rearm 1]

theorem probe_cadence_at_noticedRun :
    ∃ s, machine.Reachable s ∧
      (s.wakes.map fun w => (w.us, w.noted, w.interval)) =
        [(0, 0, busyInterval), (3, 1, busyInterval)] ∧
      ∀ a T, (s.wakes.filter fun w => decide (a ≤ w.time ∧ w.time < a + T)).length ≤
        T / busyInterval + 1 := by
  obtain ⟨s, hs, htest⟩ := machine.exists_reachable_of_run noticedRun
    (fun s => decide ((s.wakes.map fun w => (w.us, w.noted, w.interval)) =
      [(0, 0, busyInterval), (3, 1, busyInterval)])) (by decide +kernel)
  exact ⟨s, hs, of_decide_eq_true htest, (probe_cadence hs).2.1⟩

end Timed

end LagProbe

end ReactorRuntime
