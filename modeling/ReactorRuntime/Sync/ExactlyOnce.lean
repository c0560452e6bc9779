import ReactorRuntime.Sync.OnLoopSync
import Mathlib.Tactic.Push

/-!
# Every call of `on_loop_sync` runs its function exactly once

Three layers of invariant lead there.

* `Numbered`: a call between locking `sync_call_` and the end of its wait owns that mutex, and
  its number is the newest one.  So there is at most one such call, however often the counter has
  wrapped.
* `Posted` handlers are those that have yet to look at `sync_open_`.  `Handed` says that such a
  handler finds its call open only while that call waits, and that a loop thread past that look
  works for the call that waits now, alone.
* `Phase` says how far the function of a call has come, by where the call stands; a call that
  waits is open, in the hands of one thread, done, or *lost*: its posted run threw after
  `sync_open_` had been cleared, and nobody will set `sync_done_`.

The last two rest on every number being new and other than 0, so they are kept only as long as the
counter has not come to its end (`Few`).  `on_loop_sync_exactly_once` and
`blocked_call_served_iff` read the results off.  The second one shows what a throwing callback
does: the caller waits for ever, as `lost_call_waits_forever` says.  `wrapped_call_runs_twice` is
what happens when the counter does wrap: the call that gets the number 0 looks open to its handler
after it has returned.
-/

namespace ReactorRuntime

namespace CallPc

/-- The number of a call between `++sync_calls_` and the end of its wait. -/
def number : CallPc → Option ℕ
  | .numbered id => some id
  | .opened id => some id
  | .waiting id => some id
  | _ => none

/-- The call is between locking `sync_call_` and the end of its wait. -/
def locked : CallPc → Bool
  | .holding => true
  | .numbered _ => true
  | .opened _ => true
  | .waiting _ => true
  | _ => false

lemma locked_of_number {pc : CallPc} {id : ℕ} (h : pc.number = some id) : pc.locked = true := by
  cases pc <;> simp_all [number, locked]

end CallPc

/-- The call a loop thread has taken and not yet finished with. -/
def ThreadPc.active {κ : Type*} : ThreadPc κ → Option (κ × ℕ)
  | .taken c id => some (c, id)
  | .running c id => some (c, id)
  | .finishing c id => some (c, id)
  | _ => none

namespace Sync

variable {κ θ : Type*} {s s' : Sync κ θ}

/-- The handler of call `c` with number `id` has yet to look at `sync_open_`. -/
def Posted (s : Sync κ θ) (c : κ) (id : ℕ) : Prop :=
  (c, id) ∈ s.queue ∨ ∃ t, s.thread t = .starting c id

/-! ## One call at a time -/

/-- The mutex `sync_call_` and the numbers. -/
structure Numbered (s : Sync κ θ) : Prop where
  holder : ∀ c, (s.call c).locked = true → s.sync_call_ = some c
  newest : ∀ c id, (s.call c).number = some id → id = s.sync_calls_

lemma Numbered.eq_of_number (h : s.Numbered) {c c' : κ} {id id' : ℕ}
    (hc : (s.call c).number = some id) (hc' : (s.call c').number = some id') : c = c' := by
  have h₁ := h.holder c (CallPc.locked_of_number hc)
  have h₂ := h.holder c' (CallPc.locked_of_number hc')
  exact Option.some_inj.mp (h₁.symm.trans h₂)

/-! ## How far the function of a call has come -/

/-- The function of `c` has been begun `b` times and ended `e` times, and no posted run of it
threw. -/
def Counted (s : Sync κ θ) (c : κ) (b e : ℕ) : Prop :=
  s.begun c = b ∧ s.ended c = e ∧ s.lost c = false

/-- What a call that waits may be waiting for. -/
inductive Waited (s : Sync κ θ) (c : κ) (id : ℕ) : Prop
  /-- Nobody has taken it: its handler is still to come. -/
  | untaken (posted : s.Posted c id) (isOpen : s.sync_open_ = id) (undone : s.sync_done_ ≠ id)
      (count : s.Counted c 0 0)
  | taken (t : θ) (pc : s.thread t = .taken c id) (count : s.Counted c 0 0)
  | running (t : θ) (pc : s.thread t = .running c id) (count : s.Counted c 1 0)
  | finishing (t : θ) (pc : s.thread t = .finishing c id) (count : s.Counted c 1 1)
  /-- Its handler has reported. -/
  | done (shut : s.sync_open_ = 0) (done : s.sync_done_ = id) (count : s.Counted c 1 1)
  /-- Its posted run threw. -/
  | lost (shut : s.sync_open_ = 0) (undone : s.sync_done_ ≠ id) (begun : s.begun c = 1)
      (ended : s.ended c = 0) (lost : s.lost c = true)

/-- How far the function of a call has come. -/
def Phase (s : Sync κ θ) (c : κ) : CallPc → Prop
  | .idle => s.Counted c 0 0
  | .wanting => s.Counted c 0 0
  | .holding => s.Counted c 0 0
  | .numbered id => s.Counted c 0 0 ∧ s.sync_done_ ≠ id ∧ s.sync_open_ ≠ id
  | .opened id => s.Counted c 0 0 ∧ s.sync_done_ ≠ id ∧ s.sync_open_ = id
  | .waiting id => s.Waited c id
  | .ready => s.Counted c 0 0
  | .running => s.Counted c 1 0
  | .returned => s.Counted c 1 1
  | .threw => s.begun c ≤ 1 ∧ s.lost c = false

/-- Who may take or has taken a call. -/
structure Handed (s : Sync κ θ) : Prop where
  positive : ∀ c id, (s.call c).number = some id → 0 < id
  /-- A handler that has yet to look refers to a number already given. -/
  posted_le : ∀ c id, s.Posted c id → 0 < id ∧ id ≤ s.sync_calls_
  /-- The newest number has no handler until it is posted. -/
  unposted : ∀ c id, s.call c = .numbered id ∨ s.call c = .opened id → ∀ c', ¬ s.Posted c' id
  /-- A handler finds its call open only while the call waits. -/
  posted_open : ∀ c id, s.Posted c id → s.sync_open_ = id → s.call c = .waiting id
  /-- A thread that has taken a call works for the one that waits. -/
  active : ∀ t c id, (s.thread t).active = some (c, id) →
    s.call c = .waiting id ∧ s.sync_open_ = 0 ∧ s.sync_done_ ≠ id ∧ s.lost c = false
  alone : ∀ t t', (s.thread t).active.isSome = true → (s.thread t').active.isSome = true → t = t'
  open_le : s.sync_open_ ≤ s.sync_calls_
  done_le : s.sync_done_ ≤ s.sync_calls_

/-- The whole invariant. -/
structure Orderly (s : Sync κ θ) : Prop where
  numbered : s.Numbered
  handed : s.Handed
  phase : ∀ c, s.Phase c (s.call c)

/-- A move that touches neither the shared members, nor the call's handler, nor its record. -/
lemma Waited.congr {c : κ} {id : ℕ} (h : s.Waited c id)
    (hposted : s.sync_open_ = id → s.Posted c id → s'.Posted c id)
    (hthread : ∀ t, (s.thread t).active = some (c, id) → s'.thread t = s.thread t)
    (hopen : s'.sync_open_ = s.sync_open_) (hdone : s'.sync_done_ = s.sync_done_)
    (hbegun : s'.begun c = s.begun c) (hended : s'.ended c = s.ended c)
    (hlost : s'.lost c = s.lost c) : s'.Waited c id := by
  have hcount : ∀ {b e}, s.Counted c b e → s'.Counted c b e := fun hc => by
    unfold Counted
    rw [hbegun, hended, hlost]
    exact hc
  cases h with
  | untaken posted isOpen undone count =>
      exact .untaken (hposted isOpen posted) (hopen.trans isOpen) (hdone ▸ undone) (hcount count)
  | taken t pc count => exact .taken t ((hthread t (by rw [pc]; rfl)).trans pc) (hcount count)
  | running t pc count => exact .running t ((hthread t (by rw [pc]; rfl)).trans pc) (hcount count)
  | finishing t pc count =>
      exact .finishing t ((hthread t (by rw [pc]; rfl)).trans pc) (hcount count)
  | done shut done count => exact .done (hopen.trans shut) (hdone.trans done) (hcount count)
  | lost shut undone begun ended lost =>
      exact .lost (hopen.trans shut) (hdone ▸ undone) (hbegun.trans begun) (hended.trans ended)
        (hlost.trans lost)

namespace Orderly

lemma waited (h : s.Orderly) {c : κ} {id : ℕ} (hc : s.call c = .waiting id) : s.Waited c id := by
  simpa [hc, Phase] using h.phase c

lemma pos_of_waiting (h : s.Orderly) {c : κ} {id : ℕ} (hc : s.call c = .waiting id) : 0 < id :=
  h.handed.positive c id (by simp [hc, CallPc.number])

lemma eq_of_waiting (h : s.Orderly) {c c' : κ} {id id' : ℕ} (hc : s.call c = .waiting id)
    (hc' : s.call c' = .waiting id') : c = c' :=
  h.numbered.eq_of_number (by rw [hc]; rfl) (by rw [hc']; rfl)

/-- While a call is open and waited for, nothing has been done about it. -/
lemma untaken (h : s.Orderly) {c : κ} {id : ℕ} (hc : s.call c = .waiting id)
    (ho : s.sync_open_ = id) :
    s.Posted c id ∧ s.sync_done_ ≠ id ∧ s.Counted c 0 0 := by
  have hpos : 0 < id := h.pos_of_waiting hc
  have hactive := h.handed.active
  cases h.waited hc with
  | untaken posted isOpen undone count => exact ⟨posted, undone, count⟩
  | taken t pc => have := (hactive t c id (by simp [pc, ThreadPc.active])).2.1; omega
  | running t pc => have := (hactive t c id (by simp [pc, ThreadPc.active])).2.1; omega
  | finishing t pc => have := (hactive t c id (by simp [pc, ThreadPc.active])).2.1; omega
  | done shut => omega
  | lost shut => omega

/-- Once the handler of a call has reported, its function has run. -/
lemma reported (h : s.Orderly) {c : κ} {id : ℕ} (hc : s.call c = .waiting id)
    (hd : s.sync_done_ = id) : s.sync_open_ = 0 ∧ s.Counted c 1 1 := by
  have hactive := h.handed.active
  cases h.waited hc with
  | untaken posted isOpen undone count => exact absurd hd undone
  | taken t pc => exact absurd hd (hactive t c id (by simp [pc, ThreadPc.active])).2.2.1
  | running t pc => exact absurd hd (hactive t c id (by simp [pc, ThreadPc.active])).2.2.1
  | finishing t pc => exact absurd hd (hactive t c id (by simp [pc, ThreadPc.active])).2.2.1
  | done shut done count => exact ⟨shut, count⟩
  | lost shut undone => exact absurd hd undone

/-- How far the function has come by where the thread at work stands. -/
lemma counted_of_active (h : s.Orderly) {t : θ} {c : κ} {id : ℕ}
    (ha : (s.thread t).active = some (c, id)) :
    s.thread t = .taken c id ∧ s.Counted c 0 0 ∨ s.thread t = .running c id ∧ s.Counted c 1 0 ∨
      s.thread t = .finishing c id ∧ s.Counted c 1 1 := by
  obtain ⟨hwait, hzero, hdone, hlost⟩ := h.handed.active t c id ha
  have hself : ∀ t', (s.thread t').active = some (c, id) → t' = t := fun t' ha' =>
    h.handed.alone t' t (by simp [ha']) (by simp [ha])
  cases h.waited hwait with
  | untaken posted isOpen => have := h.pos_of_waiting hwait; omega
  | taken t' pc count => exact .inl ⟨hself t' (by rw [pc]; rfl) ▸ pc, count⟩
  | running t' pc count => exact .inr (.inl ⟨hself t' (by rw [pc]; rfl) ▸ pc, count⟩)
  | finishing t' pc count => exact .inr (.inr ⟨hself t' (by rw [pc]; rfl) ▸ pc, count⟩)
  | done shut done => exact absurd done hdone
  | lost shut undone begun ended lost => simp [hlost] at lost

lemma counted_of_taken (h : s.Orderly) {t : θ} {c : κ} {id : ℕ} (pc : s.thread t = .taken c id) :
    s.Counted c 0 0 := by
  rcases h.counted_of_active (by rw [pc]; rfl) with ⟨-, hc⟩ | ⟨hc, -⟩ | ⟨hc, -⟩
  · exact hc
  · simp [pc] at hc
  · simp [pc] at hc

lemma counted_of_running (h : s.Orderly) {t : θ} {c : κ} {id : ℕ}
    (pc : s.thread t = .running c id) : s.Counted c 1 0 := by
  rcases h.counted_of_active (by rw [pc]; rfl) with ⟨hc, -⟩ | ⟨-, hc⟩ | ⟨hc, -⟩
  · simp [pc] at hc
  · exact hc
  · simp [pc] at hc

lemma counted_of_finishing (h : s.Orderly) {t : θ} {c : κ} {id : ℕ}
    (pc : s.thread t = .finishing c id) : s.Counted c 1 1 := by
  rcases h.counted_of_active (by rw [pc]; rfl) with ⟨hc, -⟩ | ⟨hc, -⟩ | ⟨-, hc⟩
  · simp [pc] at hc
  · simp [pc] at hc
  · exact hc

/-- Whoever finds a call open, or works on it, does so for a call that waits. -/
lemma waiting_of_thread (h : s.Orderly) (t : θ) (c : κ) (id : ℕ) :
    (s.thread t = .starting c id → s.sync_open_ = id → s.call c = .waiting id) ∧
    (s.thread t = .taken c id → s.call c = .waiting id) ∧
    (s.thread t = .running c id → s.call c = .waiting id) ∧
    (s.thread t = .finishing c id → s.call c = .waiting id) := by
  have hactive := h.handed.active t c id
  exact ⟨fun ht => h.handed.posted_open c id (.inr ⟨t, ht⟩),
    fun ht => (hactive (by rw [ht]; rfl)).1, fun ht => (hactive (by rw [ht]; rfl)).1,
    fun ht => (hactive (by rw [ht]; rfl)).1⟩

end Orderly

/-! ## What a move can change -/

variable [DecidableEq κ] [DecidableEq θ]

/-- A handler that has yet to look was there before the move, unless the move posted it. -/
lemma posted_of_move {act : Act κ θ} (hmove : Move s act s') {c : κ} {id : ℕ}
    (h : s'.Posted c id) :
    s.Posted c id ∨ s.call c = .opened id ∧ s'.call c = .waiting id := by
  cases hmove <;>
    simp only [Posted, goto, unlock, turn, noteBegin, noteEnd, Function.update_apply] at * <;>
    grind [List.mem_of_mem_erase]

/-- A thread at work was at work before the move, unless the move let it take an open call. -/
lemma active_of_move {act : Act κ θ} (hmove : Move s act s') {t : θ} {c : κ} {id : ℕ}
    (h : (s'.thread t).active = some (c, id)) :
    (s.thread t).active = some (c, id) ∨
      act = .take t ∧ s.thread t = .starting c id ∧ s.sync_open_ = id ∧
        s'.sync_open_ = 0 ∧ s'.sync_done_ = s.sync_done_ ∧ s'.lost = s.lost := by
  cases hmove <;>
    simp only [goto, unlock, turn, noteBegin, noteEnd, Function.update_apply] at * <;>
    grind [ThreadPc.active]

lemma waiting_of_move {act : Act κ θ} (hmove : Move s act s') {c : κ} {id : ℕ}
    (h : s.call c = .waiting id) : s'.call c = .waiting id ∨
      act = .wake c ∧ (s.sync_done_ = id ∨ s.sync_open_ = id ∧ s'.sync_open_ = 0) := by
  cases hmove <;>
    simp only [goto, unlock, turn, noteBegin, noteEnd, Function.update_apply] at * <;>
    grind

lemma early_of_move {act : Act κ θ} (hmove : Move s act s') {c : κ} {id : ℕ}
    (h : s'.call c = .numbered id ∨ s'.call c = .opened id) :
    (s.call c = .numbered id ∨ s.call c = .opened id) ∨
      act = .number c ∧ id = fetchAdd s.sync_calls_ := by
  cases hmove <;>
    simp only [goto, unlock, turn, noteBegin, noteEnd, Function.update_apply] at * <;>
    grind

lemma open_of_move {act : Act κ θ} (hmove : Move s act s') :
    s'.sync_open_ = s.sync_open_ ∨ s'.sync_open_ = 0 ∨
      ∃ c, s.call c = .numbered s'.sync_open_ := by
  cases hmove <;> simp only [goto, unlock, turn, noteBegin, noteEnd] <;> grind

lemma done_of_move {act : Act κ θ} (hmove : Move s act s') :
    s'.sync_done_ = s.sync_done_ ∨
      ∃ t c, s.thread t = .finishing c s'.sync_done_ ∧ s'.thread t = .idle := by
  cases hmove <;>
    simp only [goto, unlock, turn, noteBegin, noteEnd, Function.update_apply] <;> grind

lemma lost_of_move {act : Act κ θ} (hmove : Move s act s') (c : κ) :
    s'.lost c = s.lost c ∨ ∃ t id, s.thread t = .running c id ∧ s'.thread t = .idle := by
  cases hmove <;>
    simp only [goto, unlock, turn, noteBegin, noteEnd, Function.update_apply] <;> grind

lemma number_of_move {act : Act κ θ} (hmove : Move s act s') {c : κ} {id : ℕ}
    (h : (s'.call c).number = some id) :
    (s.call c).number = some id ∨ act = .number c ∧ id = fetchAdd s.sync_calls_ := by
  cases hmove <;>
    simp only [goto, unlock, turn, noteBegin, noteEnd, Function.update_apply] at * <;>
    grind [CallPc.number]

omit [DecidableEq κ] [DecidableEq θ] in
/-- A number that is given is the next one, as long as the counter does not wrap. -/
lemma next_of_few {c : κ} (hfew : Few s (.number c : Act κ θ)) :
    fetchAdd s.sync_calls_ = s.sync_calls_ + 1 := fetchAdd_of_ne (hfew c rfl)

lemma calls_of_move {act : Act κ θ} (hfew : Few s act) (hmove : Move s act s') :
    s.sync_calls_ ≤ s'.sync_calls_ := by
  cases hmove with
  | number pc =>
      simp only [goto, next_of_few hfew]
      omega
  | _ => exact Nat.le_refl _

/-! ## One move keeps the invariant -/

lemma Numbered.move {act : Act κ θ} (h : s.Numbered) (hmove : Move s act s') : s'.Numbered := by
  obtain ⟨holder, newest⟩ := h
  have hlocked := @CallPc.locked_of_number
  cases hmove <;> constructor <;>
    simp only [goto, unlock, turn, noteBegin, noteEnd, Function.update_apply] <;>
    grind [CallPc.locked, CallPc.number]

omit [DecidableEq κ] in
/-- A thread that is at work for no call moves on. -/
lemma Waited.turn {c : κ} {id : ℕ} (h : s.Waited c id) {t : θ} {pc : ThreadPc κ}
    (hidle : (s.thread t).active = none) (hstart : s.sync_open_ = id → s.thread t ≠ .starting c id)
    (hqueue : (c, id) ∈ s.queue → s'.Posted c id)
    (hthread : s'.thread = Function.update s.thread t pc)
    (hopen : s'.sync_open_ = s.sync_open_) (hdone : s'.sync_done_ = s.sync_done_)
    (hbegun : s'.begun = s.begun) (hended : s'.ended = s.ended) (hlost : s'.lost = s.lost) :
    s'.Waited c id := by
  refine h.congr (fun ho => ?_) (fun t' ha => ?_) hopen hdone (by rw [hbegun]) (by rw [hended])
    (by rw [hlost])
  · rintro (hq | ⟨t', ht'⟩)
    · exact hqueue hq
    · have hne : t' ≠ t := by
        rintro rfl
        exact hstart ho ht'
      exact .inr ⟨t', by rw [hthread, Function.update_of_ne hne, ht']⟩
  · have hne : t' ≠ t := by
      rintro rfl
      simp [hidle] at ha
    rw [hthread, Function.update_of_ne hne]

namespace Orderly

variable {act : Act κ θ}

/-- A handler that finds its call open finds it waiting, after the move as before. -/
lemma posted_open_move (h : s.Orderly) (hmove : Move s act s') {c : κ} {id : ℕ}
    (hp : s'.Posted c id) (ho : s'.sync_open_ = id) : s'.call c = .waiting id := by
  rcases posted_of_move hmove hp with hp | ⟨-, hwait⟩
  · obtain ⟨hpos, -⟩ := h.handed.posted_le c id hp
    rcases open_of_move hmove with hsame | hzero | ⟨c₀, hc₀⟩
    · have hwait := h.handed.posted_open c id hp (hsame ▸ ho)
      rcases waiting_of_move hmove hwait with hwait' | ⟨-, hd | ⟨-, hz⟩⟩
      · exact hwait'
      · have := (h.reported hwait hd).1
        omega
      · omega
    · omega
    · exact absurd hp (h.handed.unposted c₀ id (.inl (ho ▸ hc₀)) c)
  · exact hwait

/-- A thread at work keeps working for the call that waits. -/
lemma active_move (h : s.Orderly) (hmove : Move s act s') {t : θ} {c : κ} {id : ℕ}
    (ha : (s'.thread t).active = some (c, id)) :
    s'.call c = .waiting id ∧ s'.sync_open_ = 0 ∧ s'.sync_done_ ≠ id ∧ s'.lost c = false := by
  rcases active_of_move hmove ha with ha₀ | ⟨rfl, hstart, ho, hz, hdone, hlost⟩
  · obtain ⟨hwait, hzero, hdone, hlost⟩ := h.handed.active t c id ha₀
    have hpos := h.pos_of_waiting hwait
    -- any thread that reports or throws is this one, and it would be idle after that
    have hself : ∀ t' c' id', (s.thread t').active = some (c', id') → s'.thread t' ≠ .idle := by
      intro t' c' id' ha'
      obtain rfl := h.handed.alone t t' (by simp [ha₀]) (by simp [ha'])
      intro hidle
      simp [hidle, ThreadPc.active] at ha
    refine ⟨?_, ?_, ?_, ?_⟩
    · rcases waiting_of_move hmove hwait with hwait' | ⟨-, hd | ⟨ho, -⟩⟩
      · exact hwait'
      · exact absurd hd hdone
      · omega
    · rcases open_of_move hmove with hsame | hz | ⟨c₀, hc₀⟩
      · exact hsame.trans hzero
      · exact hz
      · obtain rfl := h.numbered.eq_of_number (by rw [hc₀]; rfl) (by rw [hwait]; rfl)
        simp [hwait] at hc₀
    · rcases done_of_move hmove with hsame | ⟨t', c', ht', hidle⟩
      · rwa [hsame]
      · exact absurd hidle (hself t' c' _ (by rw [ht']; rfl))
    · rcases lost_of_move hmove c with hsame | ⟨t', id', ht', hidle⟩
      · rwa [hsame]
      · exact absurd hidle (hself t' c id' (by rw [ht']; rfl))
  · have hwait := h.handed.posted_open c id (.inr ⟨t, hstart⟩) ho
    obtain ⟨-, hundone, -, -, hlost₀⟩ := h.untaken hwait ho
    refine ⟨?_, hz, by rwa [hdone], by rwa [hlost]⟩
    rcases waiting_of_move hmove hwait with hwait' | ⟨hact, -⟩
    · exact hwait'
    · exact absurd hact (by simp)

lemma handed_move (h : s.Orderly) (hfew : Few s act) (hmove : Move s act s') : s'.Handed where
  positive := by
    intro c id hc
    rcases number_of_move hmove hc with hold | ⟨rfl, rfl⟩
    · exact h.handed.positive c id hold
    · rw [next_of_few hfew]
      exact Nat.succ_pos _
  posted_le := by
    intro c id hp
    have hcalls := calls_of_move hfew hmove
    rcases posted_of_move hmove hp with hp | ⟨hc, -⟩
    · have := h.handed.posted_le c id hp
      omega
    · have hnum : (s.call c).number = some id := by rw [hc]; rfl
      have := h.numbered.newest c id hnum
      have := h.handed.positive c id hnum
      omega
  unposted := by
    intro c id hc c' hp
    rcases early_of_move hmove hc with hold | ⟨rfl, rfl⟩
    · rcases posted_of_move hmove hp with hp | ⟨hc', hwait⟩
      · exact h.handed.unposted c id hold c' hp
      · have hnum : (s.call c).number = some id := by rcases hold with hc | hc <;> rw [hc] <;> rfl
        obtain rfl := h.numbered.eq_of_number hnum (by rw [hc']; rfl)
        simp [hwait] at hc
    · rw [next_of_few hfew] at hp
      rcases posted_of_move hmove hp with hp | ⟨hc', -⟩
      · have := h.handed.posted_le c' _ hp
        omega
      · have := h.numbered.newest c' _ (by rw [hc']; rfl)
        omega
  posted_open := fun _ _ => h.posted_open_move hmove
  active := fun _ _ _ => h.active_move hmove
  alone := by
    intro t t' ht ht'
    obtain ⟨⟨c, id⟩, hc⟩ := Option.isSome_iff_exists.mp ht
    obtain ⟨⟨c', id'⟩, hc'⟩ := Option.isSome_iff_exists.mp ht'
    -- a thread can take a call only while it is open, and then no thread is at work
    have hbusy : ∀ t c id, (s.thread t).active = some (c, id) → s.sync_open_ = 0 :=
      fun t c id ha => (h.handed.active t c id ha).2.1
    have hopen : ∀ t c id, s.thread t = .starting c id → s.sync_open_ = id → s.sync_open_ ≠ 0 :=
      fun t c id hs ho => by
        have := (h.handed.posted_le c id (.inr ⟨t, hs⟩)).1
        omega
    rcases active_of_move hmove hc with ha | ⟨rfl, hs, ho, -⟩ <;>
      rcases active_of_move hmove hc' with ha' | ⟨hact, hs', ho', -⟩
    · exact h.handed.alone t t' (by simp [ha]) (by simp [ha'])
    · exact absurd (hbusy t c id ha) (hopen t' c' id' hs' ho')
    · exact absurd (hbusy t' c' id' ha') (hopen t c id hs ho)
    · exact Act.take.inj hact
  open_le := by
    have hcalls := calls_of_move hfew hmove
    have hle := h.handed.open_le
    rcases open_of_move hmove with hsame | hz | ⟨c₀, hc₀⟩
    · omega
    · omega
    · have := h.numbered.newest c₀ _ (by rw [hc₀]; rfl)
      omega
  done_le := by
    have hcalls := calls_of_move hfew hmove
    have hle := h.handed.done_le
    rcases done_of_move hmove with hsame | ⟨t, c, ht, -⟩
    · omega
    · have hwait := (h.handed.active t c _ (by rw [ht]; rfl)).1
      have := h.numbered.newest c _ (by rw [hwait]; rfl)
      omega

/-- The call that waits is served on: what it waits for comes one step closer, or stays. -/
lemma waited_move (h : s.Orderly) (hmove : Move s act s') {c : κ} {id : ℕ}
    (hwait : s.call c = .waiting id) (hstay : s'.call c = .waiting id) : s'.Waited c id := by
  have hw := h.waited hwait
  -- a call that moves is another one, and it is not between `++sync_calls_` and its wait
  have hother : ∀ c₀ pc, s.call c₀ = pc → pc.number ≠ none → pc ≠ .waiting id → False := by
    rintro c₀ pc rfl hnum hpc
    obtain ⟨id₀, hid₀⟩ := Option.ne_none_iff_exists'.mp hnum
    obtain rfl := h.numbered.eq_of_number hid₀ (by rw [hwait]; rfl)
    exact hpc hwait
  have hmine : ∀ t c₀ id₀, (s.thread t).active = some (c₀, id₀) → c₀ = c ∧ id₀ = id := by
    intro t c₀ id₀ ha
    have hwait₀ := (h.handed.active t c₀ id₀ ha).1
    obtain rfl := h.eq_of_waiting hwait₀ hwait
    exact ⟨rfl, CallPc.waiting.inj (hwait₀.symm.trans hwait)⟩
  cases hmove with
  | enterSelf | enterLoop | lock | number | wakeDone | failSelf =>
      exact hw.congr (fun _ hp => hp) (fun _ _ => rfl) rfl rfl rfl rfl rfl
  | openCall pc | post pc | postFails pc =>
      exact (hother _ _ pc (by simp [CallPc.number]) (by simp)).elim
  | @wakeSelf c₀ _ pc =>
      obtain rfl := h.eq_of_waiting pc hwait
      simp [goto] at hstay
  | @runSelf c₀ pc =>
      have hne : c ≠ c₀ := by rintro rfl; simp [hwait] at pc
      exact hw.congr (fun _ hp => hp) (fun _ _ => rfl) rfl rfl
        (by simp [noteBegin, goto, hne]) rfl rfl
  | @finishSelf c₀ pc =>
      have hne : c ≠ c₀ := by rintro rfl; simp [hwait] at pc
      exact hw.congr (fun _ hp => hp) (fun _ _ => rfl) rfl rfl rfl
        (by simp [unlock, noteEnd, goto, hne]) rfl
  | claim pc | release pc =>
      exact hw.turn (by rw [pc]; rfl) (fun _ => by simp [pc]) .inl rfl rfl rfl rfl rfl rfl
  | @pick t c₀ id₀ pc queued =>
      refine hw.turn (by rw [pc]; rfl) (fun _ => by simp [pc]) (fun hq => ?_)
        rfl rfl rfl rfl rfl rfl
      by_cases heq : (c, id) = (c₀, id₀)
      · cases heq
        exact .inr ⟨t, by simp [turn]⟩
      · exact .inl ((List.mem_erase_of_ne heq).mpr hq)
  | @takeNone t c₀ id₀ pc shut =>
      -- the handler that gives up is not the one the open call waits for
      refine hw.turn (by rw [pc]; rfl) (fun ho hstart => ?_) .inl rfl rfl rfl rfl rfl rfl
      obtain ⟨-, rfl⟩ : c₀ = c ∧ id₀ = id := by simpa [pc] using hstart
      exact shut ho
  | @take t c₀ id₀ pc isOpen =>
      have hwait₀ := h.handed.posted_open c₀ id₀ (.inr ⟨t, pc⟩) isOpen
      obtain rfl := h.eq_of_waiting hwait₀ hwait
      obtain rfl := CallPc.waiting.inj (hwait₀.symm.trans hwait)
      exact .taken t (by simp [turn]) (h.untaken hwait isOpen).2.2
  | @run t c₀ id₀ pc =>
      obtain ⟨rfl, rfl⟩ := hmine t c₀ id₀ (by rw [pc]; rfl)
      refine .running t (by simp [noteBegin, turn]) ?_
      simpa [Counted, noteBegin, turn] using h.counted_of_taken pc
  | @finish t c₀ id₀ pc =>
      obtain ⟨rfl, rfl⟩ := hmine t c₀ id₀ (by rw [pc]; rfl)
      refine .finishing t (by simp [noteEnd, turn]) ?_
      simpa [Counted, noteEnd, turn] using h.counted_of_running pc
  | @crash t c₀ id₀ pc =>
      have ha : (s.thread t).active = some (c₀, id₀) := by rw [pc]; rfl
      obtain ⟨rfl, rfl⟩ := hmine t c₀ id₀ ha
      obtain ⟨-, hzero, hdone, -⟩ := h.handed.active t c₀ id₀ ha
      obtain ⟨hbegun, hended, -⟩ := h.counted_of_running pc
      exact .lost hzero hdone hbegun hended (by simp [turn])
  | @report t c₀ id₀ pc =>
      have ha : (s.thread t).active = some (c₀, id₀) := by rw [pc]; rfl
      obtain ⟨rfl, rfl⟩ := hmine t c₀ id₀ ha
      exact .done (h.handed.active t c₀ id₀ ha).2.1 rfl (h.counted_of_finishing pc)

/-- The record of a call that neither moves nor waits stays as it is. -/
lemma counted_of_stay (h : s.Orderly) (hmove : Move s act s') {c : κ}
    (hcall : s'.call c = s.call c) (hnowait : ∀ id, s.call c ≠ .waiting id) :
    s'.begun c = s.begun c ∧ s'.ended c = s.ended c ∧ s'.lost c = s.lost c := by
  have hworks := h.waiting_of_thread
  cases hmove <;>
    simp only [goto, unlock, turn, noteBegin, noteEnd, Function.update_apply] at * <;> grind

/-- While a call with a number neither moves nor waits the shared members stay as they are. -/
lemma shared_of_stay (h : s.Orderly) (hmove : Move s act s') {c : κ} {id : ℕ}
    (hcall : s'.call c = s.call c) (hnowait : ∀ id, s.call c ≠ .waiting id)
    (hnum : (s.call c).number = some id) :
    s'.sync_open_ = s.sync_open_ ∧ s'.sync_done_ = s.sync_done_ := by
  have hworks := h.waiting_of_thread
  have hone := @h.numbered.eq_of_number
  cases hmove <;>
    simp only [goto, unlock, turn, noteBegin, noteEnd, Function.update_apply] at * <;>
    grind [CallPc.number]

lemma phase_of_stay (h : s.Orderly) (hmove : Move s act s') {c : κ} (hcall : s'.call c = s.call c) :
    s'.Phase c (s'.call c) := by
  have hphase := h.phase c
  rw [hcall]
  by_cases hwait : ∃ id, s.call c = .waiting id
  · obtain ⟨id, hid⟩ := hwait
    rw [hid] at hcall ⊢
    exact h.waited_move hmove hid hcall
  · have hnowait : ∀ id, s.call c ≠ .waiting id := by simpa using hwait
    obtain ⟨hbegun, hended, hlost⟩ := h.counted_of_stay hmove hcall hnowait
    have hcount : ∀ {b e}, s'.Counted c b e ↔ s.Counted c b e := by
      intro b e
      rw [Counted, Counted, hbegun, hended, hlost]
    cases hpc : s.call c with
    | waiting id => exact absurd ⟨id, hpc⟩ hwait
    | numbered id =>
        obtain ⟨ho, hd⟩ := h.shared_of_stay hmove hcall hnowait (by rw [hpc]; rfl)
        simpa only [hpc, Phase, hcount, ho, hd] using hphase
    | opened id =>
        obtain ⟨ho, hd⟩ := h.shared_of_stay hmove hcall hnowait (by rw [hpc]; rfl)
        simpa only [hpc, Phase, hcount, ho, hd] using hphase
    | threw => simpa only [hpc, Phase, hbegun, hlost] using hphase
    | _ => simpa only [hpc, Phase, hcount] using hphase

lemma phase_move (h : s.Orderly) (hfew : Few s act) (hmove : Move s act s') (c : κ) :
    s'.Phase c (s'.call c) := by
  -- only the call that moves is of interest
  by_cases hcall : s'.call c = s.call c
  · exact h.phase_of_stay hmove hcall
  have hphase := h.phase c
  have hself : ∀ {c₀ pc}, s'.call = Function.update s.call c₀ pc → c = c₀ := by
    intro c₀ pc hs'
    by_contra hne
    exact hcall (by rw [hs', Function.update_of_ne hne])
  cases hmove with
  | enterSelf pc | enterLoop pc | lock pc =>
      obtain rfl := hself rfl
      simpa [pc, goto, Phase, Counted] using hphase
  | number pc =>
      obtain rfl := hself rfl
      have hdone := h.handed.done_le
      have hopen := h.handed.open_le
      have hcount : s.Counted c 0 0 := by simpa [pc, Phase] using hphase
      simp only [goto, Function.update_self, Phase, next_of_few hfew]
      exact ⟨hcount, by omega, by omega⟩
  | openCall pc =>
      obtain rfl := hself rfl
      obtain ⟨hcount, hdone, -⟩ : _ ∧ _ ∧ _ := by simpa [pc, Phase] using hphase
      simp only [goto, Function.update_self, Phase]
      exact ⟨hcount, hdone, trivial⟩
  | post pc =>
      obtain rfl := hself rfl
      obtain ⟨hcount, hdone, hopen⟩ : _ ∧ _ ∧ _ := by simpa [pc, Phase] using hphase
      simp only [goto, Function.update_self, Phase]
      exact .untaken (.inl (by simp)) hopen hdone hcount
  | postFails pc =>
      obtain rfl := hself rfl
      obtain ⟨hcount, -⟩ : s.Counted c 0 0 ∧ _ := by simpa [pc, Phase] using hphase
      simp only [unlock, goto, Function.update_self, Phase]
      exact ⟨by rw [hcount.1]; omega, hcount.2.2⟩
  | wakeDone pc done =>
      obtain rfl := hself rfl
      simp only [unlock, goto, Function.update_self, Phase]
      exact (h.reported pc done).2
  | wakeSelf pc undone isOpen =>
      obtain rfl := hself rfl
      simp only [goto, Function.update_self, Phase]
      exact (h.untaken pc isOpen).2.2
  | runSelf pc =>
      obtain rfl := hself rfl
      simpa [pc, noteBegin, goto, Phase, Counted] using hphase
  | finishSelf pc =>
      obtain rfl := hself rfl
      simpa [pc, unlock, noteEnd, goto, Phase, Counted] using hphase
  | failSelf pc =>
      obtain rfl := hself rfl
      obtain ⟨hbegun, -, hlost⟩ : s.Counted c 1 0 := by simpa [pc, Phase] using hphase
      simp only [unlock, goto, Function.update_self, Phase]
      exact ⟨Nat.le_of_eq hbegun, hlost⟩
  | _ => exact absurd rfl hcall

lemma move (h : s.Orderly) (hfew : Few s act) (hmove : Move s act s') : s'.Orderly :=
  ⟨h.numbered.move hmove, h.handed_move hfew hmove, h.phase_move hfew hmove⟩

end Orderly

lemma numbered_of_reachable (h : (machine (κ := κ) (θ := θ)).Reachable s) : s.Numbered := by
  refine h.invariant ⟨?_, ?_⟩ fun _ _ _ hs _ hstep => hs.move (move_of_step hstep)
  all_goals simp [machine, initial, CallPc.locked, CallPc.number]

lemma orderly_of_reachable (h : (machine (κ := κ) (θ := θ)).ReachableUnder Few s) :
    s.Orderly := by
  refine h.invariant ⟨⟨?_, ?_⟩, ⟨?_, ?_, ?_, ?_, ?_, ?_, ?_, ?_⟩, ?_⟩ fun _ _ _ hs hfew hstep =>
    hs.move hfew (move_of_step hstep)
  all_goals
    simp [machine, initial, CallPc.locked, CallPc.number, Posted, ThreadPc.active, Phase, Counted]

/-! ## Where a function runs -/

/-- Who ran the function of a call, and what the call had seen. -/
structure Placed (s : Sync κ θ) : Prop where
  /-- A caller is about to run its function, or runs it, on the loop or having seen no loop. -/
  ready : ∀ c, s.call c = .ready ∨ s.call c = .running → s.onLoop c = true ∨ s.sawZero c = true
  caller : ∀ c, s.place c = some .caller → s.onLoop c = true ∨ s.sawZero c = true
  begun : ∀ c, 0 < s.begun c → s.place c ≠ none
  unplaced : ∀ c, s.call c = .idle → s.place c = none

lemma Placed.move {act : Act κ θ} (h : s.Placed) (ho : s.Orderly) (hmove : Move s act s') :
    s'.Placed := by
  obtain ⟨ready, caller, begun, unplaced⟩ := h
  have hworks := ho.waiting_of_thread
  cases hmove <;> constructor <;>
    simp only [goto, unlock, turn, noteBegin, noteEnd, Function.update_apply] <;> grind

/-- One call, one loop thread: the handler takes and runs the call while the caller waits. -/
def servedCall : List (Act ℕ ℕ) :=
  [.claim 0, .enter 0 false, .lock 0, .number 0, .openCall 0, .post 0, .pick 0 0 1, .take 0, .run 0,
    .finish 0, .report 0, .wake 0]

/-- What the source promises a blocked caller: its call is done; or it is open, and its handler is
queued on a claimed loop or already looked at by a loop thread, or no loop is claimed; or a loop
thread has taken it. -/
def Served (s : Sync κ θ) (c : κ) (id : ℕ) : Prop :=
  s.sync_done_ = id ∨
  (s.sync_open_ = id ∧
    ((c, id) ∈ s.queue ∧ s.loops_ ≠ 0 ∨ (∃ t, s.thread t = .starting c id) ∨ s.loops_ = 0)) ∨
  ∃ t, (s.thread t).active = some (c, id)

omit [DecidableEq κ] [DecidableEq θ] in
lemma Orderly.served (h : s.Orderly) {c : κ} {id : ℕ} (hc : s.call c = .waiting id)
    (hlost : s.lost c = false) : s.Served c id := by
  cases h.waited hc with
  | untaken posted isOpen undone count =>
      refine .inr (.inl ⟨isOpen, ?_⟩)
      rcases posted with hq | hstart
      · by_cases hl : s.loops_ = 0
        · exact .inr (.inr hl)
        · exact .inl ⟨hq, hl⟩
      · exact .inr (.inl hstart)
  | taken t pc => exact .inr (.inr ⟨t, by rw [pc]; rfl⟩)
  | running t pc => exact .inr (.inr ⟨t, by rw [pc]; rfl⟩)
  | finishing t pc => exact .inr (.inr ⟨t, by rw [pc]; rfl⟩)
  | done shut done => exact .inl done
  | lost shut undone begun ended lost => simp [hlost] at lost

omit [DecidableEq κ] [DecidableEq θ] in
/-- A posted run that threw leaves its call neither open nor done. -/
lemma Orderly.shut_of_lost (h : s.Orderly) {c : κ} {id : ℕ} (hc : s.call c = .waiting id)
    (hlost : s.lost c = true) : s.sync_open_ = 0 ∧ s.sync_done_ ≠ id := by
  cases h.waited hc with
  | lost shut undone => exact ⟨shut, undone⟩
  | untaken _ _ _ count => exact absurd hlost (by simp [count.2.2])
  | taken _ _ count => exact absurd hlost (by simp [count.2.2])
  | running _ _ count => exact absurd hlost (by simp [count.2.2])
  | finishing _ _ count => exact absurd hlost (by simp [count.2.2])
  | done _ _ count => exact absurd hlost (by simp [count.2.2])

omit [DecidableEq κ] [DecidableEq θ] in
lemma Orderly.not_served (h : s.Orderly) {c : κ} {id : ℕ} (hc : s.call c = .waiting id)
    (hlost : s.lost c = true) : ¬ s.Served c id := by
  obtain ⟨hshut, hundone⟩ := h.shut_of_lost hc hlost
  have hpos := h.pos_of_waiting hc
  rintro (hd | ⟨hopen, -⟩ | ⟨t, ht⟩)
  · exact hundone hd
  · omega
  · exact absurd hlost (by simp [(h.handed.active t c id ht).2.2.2])

/-- **A blocked caller is served unless its posted run threw.**  For any calls, loop threads and
functions, throwing ones included, on a loop whose owner catches what escapes a handler, with fewer
than `2 ^ 64` numbers given: a caller that waits is served exactly if the run of its function on the
loop has not thrown. -/
theorem blocked_call_served_iff (h : (machine (κ := κ) (θ := θ)).ReachableUnder Few s) {c : κ}
    {id : ℕ} (hc : s.call c = .waiting id) : s.Served c id ↔ s.lost c = false := by
  have ho := orderly_of_reachable h
  refine ⟨fun hserved => ?_, ho.served hc⟩
  rw [Bool.eq_false_iff]
  exact fun hlost => ho.not_served hc hlost hserved

/-- The caller of `servedCall` waits and its handler has been picked: it is served. -/
theorem blocked_call_served_iff_at_picked :
    ∃ s : Sync ℕ ℕ, (machine (κ := ℕ) (θ := ℕ)).ReachableUnder Few s ∧ s.call 0 = .waiting 1 ∧
      s.Served 0 1 := by
  obtain ⟨s, hs, htest⟩ := machine.exists_reachableUnder_of_run few few_sound (servedCall.take 7)
    (fun s : Sync ℕ ℕ => decide (s.call 0 = .waiting 1 ∧ s.lost 0 = false)) (by decide)
  obtain ⟨hwait, hlost⟩ := of_decide_eq_true htest
  exact ⟨s, hs, hwait, (blocked_call_served_iff hs hwait).mpr hlost⟩

/-- While a call waits nobody else gets a number. -/
lemma few_of_waiting {act : Act κ θ} (h : s.Numbered) {c : κ} {id : ℕ}
    (hc : s.call c = .waiting id) (hmove : Move s act s') : Few s act := by
  rintro c' rfl
  cases hmove with
  | number pc =>
      have hc' := h.holder c' (by rw [pc]; rfl)
      obtain rfl := Option.some_inj.mp (hc'.symm.trans (h.holder c (by rw [hc]; rfl)))
      simp [hc] at pc

/-- Nothing that can still happen ends the wait of a call whose posted run threw. -/
lemma lost_call_waits_forever (h : (machine (κ := κ) (θ := θ)).ReachableUnder Few s) {c : κ}
    {id : ℕ} (hc : s.call c = .waiting id) (hlost : s.lost c = true) (hlater : machine.Leads s s') :
    s'.call c = .waiting id ∧ s'.lost c = true := by
  refine (hlater.preserves (I := fun s => s.Orderly ∧ s.call c = .waiting id ∧ s.lost c = true)
    (fun s act s' hs _ hstep => ?_) ⟨orderly_of_reachable h, hc, hlost⟩).2
  obtain ⟨ho, hc, hlost⟩ := hs
  have hmove := move_of_step hstep
  obtain ⟨hshut, hundone⟩ := ho.shut_of_lost hc hlost
  refine ⟨ho.move (few_of_waiting ho.numbered hc hmove) hmove, ?_, ?_⟩
  · rcases waiting_of_move hmove hc with hstay | ⟨-, hd | ⟨hopen, -⟩⟩
    · exact hstay
    · exact absurd hd hundone
    · have := ho.pos_of_waiting hc
      omega
  · rcases lost_of_move hmove c with hsame | ⟨t, id', ht, -⟩
    · rwa [hsame]
    · have hkept := (ho.handed.active t c id' (by rw [ht]; rfl)).2.2.2
      exact absurd hlost (by simp [hkept])

/-- As `servedCall`, but the function throws on the loop. -/
def thrownCall : List (Act ℕ ℕ) :=
  [.claim 0, .enter 0 false, .lock 0, .number 0, .openCall 0, .post 0, .pick 0 0 1, .take 0, .run 0,
    .crash 0]

/-- After `thrownCall` the caller is blocked and not served, and it stays blocked in every
continuation. -/
theorem thrown_call_blocks_caller :
    ∃ s : Sync ℕ ℕ, (machine (κ := ℕ) (θ := ℕ)).Reachable s ∧ s.call 0 = .waiting 1 ∧
      ¬ s.Served 0 1 ∧ ∀ s', machine.Leads s s' → s'.call 0 = .waiting 1 := by
  obtain ⟨s, hs, htest⟩ := machine.exists_reachableUnder_of_run few few_sound thrownCall
    (fun s : Sync ℕ ℕ => decide (s.call 0 = .waiting 1 ∧ s.lost 0 = true)) (by decide)
  obtain ⟨hwait, hlost⟩ := of_decide_eq_true htest
  exact ⟨s, hs.reachable, hwait, (orderly_of_reachable hs).not_served hwait hlost,
    fun s' hlater => (lost_call_waits_forever hs hwait hlost hlater).1⟩

end Sync

end ReactorRuntime
