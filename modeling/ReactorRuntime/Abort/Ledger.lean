import ReactorRuntime.Abort.Nesting

/-!
# What each tracking episode is owed

`Received.Settled` is the account of one episode for one kind of call: an episode that began once
the walk had begun is called once by `track`; one that was running when the walk began, and
did not end before its turn, is called once by the walk; every other one is never called.

`Ledger k s` says that the account of kind `k` is kept in `s`: every episode that ended is
settled, every running one is settled or still waits for a call that is certain to come, and no
call went to an abortable with no running episode.  What a single move must know about the walks
and about the `track` calls under way to keep it so is collected in `Guide k s`, and
`Ledger.move` is the step lemma.  The lemma is the same for both kinds; the two kinds differ in what
it takes to keep the guide, which is the subject of `ReactorRuntime.Abort.Episodes`.
-/

namespace ReactorRuntime

namespace Received

/-- The account of an episode with nothing left to come. -/
def Settled (r : Received) : Prop :=
  (r.walk, r.track) =
    if r.late then (0, 1) else if r.due && !r.missed then (1, 0) else (0, 0)

instance (r : Received) : Decidable r.Settled := inferInstanceAs (Decidable (_ = _))

/-- A settled episode has been called at most once. -/
lemma Settled.at_most_once {r : Received} (h : r.Settled) : r.walk + r.track ≤ 1 := by
  unfold Settled at h
  split at h
  · simp_all
  · split at h <;> simp_all

end Received

namespace Frame

variable {ν : Type*} [DecidableEq ν]

/-- The frame is a `track(a)` that has yet to reach its statement for kind `k`. -/
def owes (k : Kind) : Frame ν → Option ν
  | .trackAbort a => some a
  | .trackForce a => if k = .force then some a else none
  | _ => none

/-- The frame is a walk of kind `k`. -/
def isWalk (k : Kind) : Frame ν → Bool
  | .walk k' _ _ => decide (k' = k)
  | _ => false

end Frame

namespace Loop

variable {ν : Type*} [DecidableEq ν]

/-- The abortables whose own `track` call has yet to reach its statement for kind `k`. -/
def owing (k : Kind) (stack : List (Frame ν)) : List ν := stack.filterMap (Frame.owes k)

/-- The running episode of `a` began after the walk of kind `k`, and its own `track` has still to
call it. -/
def owed (s : Loop ν) (k : Kind) (a : ν) : Bool := s.begun k && decide (a ∈ owing k s.stack)

/-! ## The account of a running episode -/

/-- A running episode for one kind of call: what it has received so far, given whether the
walk has begun, whether a walk has yet to reach it and whether its own `track` has yet to. -/
structure Tally (begun awaited owed : Bool) (r : Received) : Prop where
  unmissed : r.missed = false
  early : begun = false → r.late = false ∧ r.due = false
  called : begun = true → r.late = true ∨ r.due = true
  waiting : awaited = true → r.late = false ∧ r.due = true ∧ r.walk = 0 ∧ r.track = 0
  pending : owed = true → awaited = false ∧ r.late = true ∧ r.walk = 0 ∧ r.track = 0
  settled : awaited = false → owed = false → r.Settled

namespace Tally

variable {begun awaited owed : Bool} {r : Received}

lemma at_most_once (h : Tally begun awaited owed r) : r.walk + r.track ≤ 1 := by
  cases ha : awaited with
  | true =>
      obtain ⟨-, -, hw, ht⟩ := h.waiting ha
      omega
  | false =>
      cases ho : owed with
      | true =>
          obtain ⟨-, -, hw, ht⟩ := h.pending ho
          omega
      | false => exact (h.settled ha ho).at_most_once

/-- Once the walk has begun, an episode with nothing left to come has been called once. -/
lemma called_once (h : Tally true false false r) : r.walk + r.track = 1 := by
  have hset := h.settled rfl rfl
  unfold Received.Settled at hset
  rcases h.called rfl with hlate | hdue
  · simp_all
  · cases hlate : r.late <;> simp_all [h.unmissed]

/-- A fresh episode is late exactly when its own `track` owes it a call. -/
lemma fresh (begun : Bool) : Tally begun false begun ⟨begun, false, false, 0, 0⟩ where
  unmissed := rfl
  early := by rintro rfl; exact ⟨rfl, rfl⟩
  called := by rintro rfl; exact .inl rfl
  waiting := by simp
  pending := by rintro rfl; exact ⟨rfl, rfl, rfl, rfl⟩
  settled := by rintro - rfl; decide

/-- The walk begins: every running episode is due and awaited. -/
lemma summon (h : Tally false false false r) : Tally true true false { r with due := true } := by
  obtain ⟨hlate, hdue⟩ := h.early rfl
  have hset := h.settled rfl rfl
  simp only [Received.Settled, hlate, hdue, Bool.false_and, Bool.false_eq_true, if_false,
    Prod.mk.injEq] at hset
  exact ⟨h.unmissed, by simp, fun _ => .inr rfl, fun _ => ⟨hlate, rfl, hset⟩, by simp, by simp⟩

/-- The walk reaches an episode it had yet to reach. -/
lemma fromWalk (h : Tally begun true owed r) (hbegun : begun = true) :
    Tally begun false false { r with walk := r.walk + 1 } := by
  obtain ⟨hlate, hdue, hw, ht⟩ := h.waiting rfl
  refine ⟨h.unmissed, by simp [hbegun], h.called, by simp, by simp, fun _ _ => ?_⟩
  simp [Received.Settled, hlate, hdue, h.unmissed, hw, ht]

/-- An episode's own `track` makes the call it owes. -/
lemma fromTrack (h : Tally begun awaited true r) (hbegun : begun = true) :
    Tally begun awaited false { r with track := r.track + 1 } := by
  obtain ⟨hna, hlate, hw, ht⟩ := h.pending rfl
  refine ⟨h.unmissed, by simp [hbegun], h.called, by simp [hna], by simp, fun _ _ => ?_⟩
  simp [Received.Settled, hlate, hw, ht]

/-- An episode that nothing is owed by its own `track` ends settled: it is called, or it was
missed. -/
lemma close (h : Tally begun awaited false r) : Received.Settled { r with missed := awaited } := by
  cases ha : awaited with
  | true =>
      obtain ⟨hlate, -, hw, ht⟩ := h.waiting ha
      simp [Received.Settled, hlate, hw, ht]
  | false =>
      have hset := h.settled ha rfl
      have hr : ({ r with missed := false } : Received) = r := by rw [← h.unmissed]
      rwa [hr]

end Tally

/-! ## What a move must know -/

/-- Where the walks of kind `k` stand, and which `track` calls are under way. -/
structure Guide (k : Kind) (s : Loop ν) : Prop where
  sound : s.Sound
  /-- A walk of kind `k` about to take its next turn stands at the head of its journal. -/
  lead : ∀ outer j rest, s.stack = .walk k outer j :: rest → s.heap.cursor_ () = j.todo.head?
  /-- What a walk has yet to reach is a final part of the list. -/
  listed : ∀ outer j, .walk k outer j ∈ s.stack → j.todo <:+ s.contents
  /-- At most one walk of the kind is under way, and none before it has begun. -/
  solo : s.stack.countP (Frame.isWalk k) ≤ (s.begun k).toNat
  /-- The `track` calls that owe a call are for distinct listed abortables. -/
  owing_nodup : s.begun k = true → (owing k s.stack).Nodup
  owing_listed : s.begun k = true → ∀ a ∈ owing k s.stack, a ∈ s.contents

/-- The actions that may start a walk of kind `k`. -/
def begins : Kind → Act ν → Bool
  | .abort, .abortAll => true
  | .abort, .runAbort => true
  | .force, .forceAll => true
  | .force, .runForce => true
  | _, _ => false

/-- The account of kind `k` is kept. -/
structure Ledger (k : Kind) (s : Loop ν) : Prop where
  past : ∀ e ∈ s.past, (e k).Settled
  running : ∀ a e, s.now a = some e → Tally (s.begun k) (s.awaited a k) (s.owed k a) (e k)
  aimed : ∀ a, (k, a) ∉ s.stray

namespace Guide

variable {k : Kind} {s : Loop ν}

/-- Some walk of kind `k` awaits `a` exactly if its journal has `a` still to visit. -/
lemma awaited_iff {a : ν} :
    s.awaited a k = true ↔ ∃ outer j, .walk k outer j ∈ s.stack ∧ a ∈ j.todo := by
  unfold awaited
  rw [List.any_eq_true]
  constructor
  · rintro ⟨frame, hmem, haw⟩
    cases frame with
    | walk k' outer j =>
        obtain ⟨rfl, ha⟩ : k' = k ∧ a ∈ j.todo := by simpa [Frame.awaits] using haw
        exact ⟨outer, j, hmem, ha⟩
    | call k' b => simp [Frame.awaits] at haw
    | trackAbort b => simp [Frame.awaits] at haw
    | trackForce b => simp [Frame.awaits] at haw
  · rintro ⟨outer, j, hmem, ha⟩
    exact ⟨_, hmem, by simp [Frame.awaits, ha]⟩

lemma mem_of_awaited (h : Guide k s) {a : ν} (ha : s.awaited a k = true) : a ∈ s.contents := by
  obtain ⟨outer, j, hmem, hj⟩ := awaited_iff.mp ha
  exact (h.listed outer j hmem).subset hj

/-- Before the walk has begun nothing is awaited. -/
lemma not_awaited_of_unbegun (h : Guide k s) (hb : s.begun k = false) (a : ν) :
    s.awaited a k = false := by
  rw [Bool.eq_false_iff]
  intro hc
  obtain ⟨outer, j, hmem, -⟩ := awaited_iff.mp hc
  have hpos := List.countP_pos_iff.mpr ⟨_, hmem, show Frame.isWalk k (.walk k outer j) = true by
    simp [Frame.isWalk]⟩
  have hle := h.solo
  rw [hb] at hle
  exact absurd hle (by simpa using hpos.ne')

/-- Under the topmost walk of kind `k` there is no other. -/
lemma rest_not_awaits (h : Guide k s) {outer : Option ν} {j : Journal ν} {rest : List (Frame ν)}
    (top : s.stack = .walk k outer j :: rest) (a : ν) : rest.any (Frame.awaits k a) = false := by
  have hle := h.solo
  rw [top, List.countP_cons_of_pos (by simp [Frame.isWalk])] at hle
  have hrest : rest.countP (Frame.isWalk k) = 0 := by
    have := Bool.toNat_le (s.begun k)
    omega
  rw [List.any_eq_false]
  intro frame hmem haw
  have := List.countP_eq_zero.mp hrest frame hmem
  cases frame <;> simp_all [Frame.awaits, Frame.isWalk]

omit [DecidableEq ν] in
lemma begun_of_walk (h : Guide k s) {outer : Option ν} {j : Journal ν} {rest : List (Frame ν)}
    (top : s.stack = .walk k outer j :: rest) : s.begun k = true := by
  have hle := h.solo
  rw [top, List.countP_cons_of_pos (by simp [Frame.isWalk])] at hle
  cases hb : s.begun k with
  | true => rfl
  | false => simp [hb] at hle

end Guide

/-! ## One move keeps the account -/

namespace Ledger

variable {k : Kind} {s s' : Loop ν}

/-- A move that shows nothing of itself to the account of kind `k`. -/
lemma congr (h : Ledger k s) (hpast : s'.past = s.past)
    (hnow : ∀ a e', s'.now a = some e' → ∃ e, s.now a = some e ∧ e' k = e k)
    (hbegun : s'.begun k = s.begun k) (hawaited : ∀ a, s'.awaited a k = s.awaited a k)
    (howed : ∀ a, s'.owed k a = s.owed k a) (hstray : ∀ a, (k, a) ∈ s'.stray → (k, a) ∈ s.stray) :
    Ledger k s' where
  past := hpast ▸ h.past
  running := by
    intro a e' ha
    obtain ⟨e, he, hek⟩ := hnow a e' ha
    rw [hbegun, hawaited, howed, hek]
    exact h.running a e he
  aimed a hc := h.aimed a (hstray a hc)

/-- As `congr`, for a move that changes the stack only. -/
lemma restack (h : Ledger k s) (stack : List (Frame ν))
    (haw : ∀ a, stack.any (Frame.awaits k a) = s.stack.any (Frame.awaits k a))
    (how : s.begun k = true → owing k stack = owing k s.stack) :
    Ledger k { s with stack := stack } := by
  refine h.congr rfl (fun a e he => ⟨e, he, rfl⟩) rfl haw (fun a => ?_) fun a => id
  change (s.begun k && decide (a ∈ owing k stack)) = (s.begun k && decide (a ∈ owing k s.stack))
  cases hb : s.begun k with
  | true => rw [how hb]
  | false => rfl

/-- A call of the other kind. -/
lemma enter_other (h : Ledger k s) {k' : Kind} (hk : k' ≠ k) (a : ν) (note : Episode → Episode)
    (hnote : ∀ e, note e k = e k) : Ledger k (s.enter k' a note) := by
  refine h.congr rfl (fun b e' hb => ?_) rfl (fun b => ?_) (fun b => ?_) (fun b hb => ?_)
  · by_cases hba : b = a
    · subst hba
      obtain ⟨e, he, rfl⟩ : ∃ e, s.now b = some e ∧ note e = e' := by simpa [enter] using hb
      exact ⟨e, he, hnote e⟩
    · exact ⟨e', by simpa [enter, hba] using hb, rfl⟩
  · simp [awaited, enter, Frame.awaits]
  · simp [owed, begun, enter, owing, Frame.owes]
  · simp only [enter] at hb
    split at hb
    · exact hb
    · rcases List.mem_cons.mp hb with heq | hb
      · exact absurd (congrArg Prod.fst heq).symm hk
      · exact hb

/-- A call of kind `k` on an abortable whose episode runs: the account of that episode moves on,
and no other one changes. -/
lemma enter_same (h : Ledger k s) {a : ν} {note : Episode → Episode} {e : Episode}
    (he : s.now a = some e) (stack : List (Frame ν))
    (hnote : Tally (s.begun k) (stack.any (Frame.awaits k a))
      (s.begun k && decide (a ∈ owing k stack)) (note e k))
    (haw : ∀ b, b ≠ a → stack.any (Frame.awaits k b) = s.stack.any (Frame.awaits k b))
    (how : ∀ b, b ≠ a → (b ∈ owing k stack ↔ b ∈ owing k s.stack)) :
    Ledger k (enter k a note { s with stack := stack }) where
  past := h.past
  running := by
    intro b e' hb
    change Tally (s.begun k) ((.call k a :: stack).any (Frame.awaits k b))
      (s.begun k && decide (b ∈ owing k (.call k a :: stack))) (e' k)
    rw [List.any_cons, show Frame.awaits k b (.call k a) = false from rfl, Bool.false_or,
      show owing k (.call k a :: stack) = owing k stack from rfl]
    by_cases hba : b = a
    · subst hba
      obtain rfl : note e = e' := by simpa [enter, he] using hb
      exact hnote
    · rw [haw b hba, decide_eq_decide.mpr (how b hba)]
      exact h.running b e' (by simpa [enter, hba] using hb)
  aimed := by
    intro b hb
    simp only [enter, he, Option.isSome_some, if_true] at hb
    exact h.aimed b hb

lemma link (h : Ledger k s) (g : Guide k s) {a : ν} (hfree : a ∉ s.contents) :
    Ledger k (s.link a) where
  past := h.past
  running := by
    intro b e' hb
    have hbegun : (s.link a).begun k = s.begun k := by cases k <;> rfl
    have haw : (s.link a).awaited b k = s.awaited b k := by
      simp [awaited, Loop.link, Frame.awaits]
    have how : owing k (s.link a).stack = a :: owing k s.stack := rfl
    rw [hbegun, haw, owed, hbegun, how]
    by_cases hba : b = a
    · subst hba
      obtain rfl : Episode.fresh s.begun = e' := by simpa [Loop.link] using hb
      have hna : s.awaited b k = false :=
        Bool.eq_false_iff.mpr fun hc => hfree (g.mem_of_awaited hc)
      rw [hna, decide_eq_true (List.mem_cons_self ..), Bool.and_true]
      exact Tally.fresh _
    · have hmem : b ∈ a :: owing k s.stack ↔ b ∈ owing k s.stack := by simp [hba]
      rw [decide_eq_decide.mpr hmem]
      exact h.running b e' (by simpa [Loop.link, hba] using hb)
  aimed := h.aimed

lemma owing_map_drop (stack : List (Frame ν)) (a : ν) :
    owing k (stack.map (Frame.drop a)) = owing k stack := by
  unfold owing
  rw [List.filterMap_map]
  refine List.filterMap_congr fun frame _ => ?_
  cases frame <;> rfl

/-- The departure of `a` makes no difference to whether `b` is awaited. -/
lemma awaits_map_drop (stack : List (Frame ν)) {a b : ν} (hba : b ≠ a) :
    (stack.map (Frame.drop a)).any (Frame.awaits k b) = stack.any (Frame.awaits k b) := by
  rw [List.any_map]
  congr 1
  funext frame
  cases frame with
  | walk k' outer j =>
      simp [Frame.drop, Frame.awaits, Journal.drop_todo, List.mem_erase_of_ne hba]
  | call k' c => rfl
  | trackAbort c => rfl
  | trackForce c => rfl

/-- An episode ends while its own `track` owes it nothing. -/
lemma unlink (h : Ledger k s) {a : ν} (hkept : s.owed k a = false) : Ledger k (s.unlink a) := by
  unfold Loop.unlink
  cases hnow : s.now a with
  | none =>
      exact h.congr rfl (fun _ e he => ⟨e, he, rfl⟩) rfl (fun _ => rfl) (fun _ => rfl) fun _ => id
  | some e =>
      refine ⟨?_, ?_, h.aimed⟩
      · intro e' he'
        rcases List.mem_cons.mp he' with rfl | he'
        · have htally := h.running a e hnow
          rw [hkept] at htally
          exact htally.close
        · exact h.past e' he'
      · intro b e' hb
        have hba : b ≠ a := by
          rintro rfl
          simp at hb
        change Tally (s.begun k) ((s.stack.map (Frame.drop a)).any (Frame.awaits k b))
          (s.begun k && decide (b ∈ owing k (s.stack.map (Frame.drop a)))) (e' k)
        rw [owing_map_drop, awaits_map_drop s.stack hba]
        exact h.running b e' (by simpa [hba] using hb)

lemma destroy (h : Ledger k s) {a : ν} (hkept : s.owed k a = false) : Ledger k (s.destroy a) :=
  (h.unlink hkept).congr rfl (fun _ e he => ⟨e, he, rfl⟩) rfl (fun _ => rfl) (fun _ => rfl)
    fun _ => id

/-- The walk of kind `k` begins. -/
lemma beginWalk_same (h : Ledger k s) (g : Guide k s) (hb : s.begun k = false)
    (hidle : owing k s.stack = []) : Ledger k (s.beginWalk k) where
  past := h.past
  running := by
    intro a e' ha
    obtain ⟨e, he, rfl⟩ : ∃ e, s.now a = some e ∧ e.summon k = e' := by
      simpa [Loop.beginWalk] using ha
    have hmem : a ∈ s.contents := (g.sound.running a).mp (by simp [he])
    have hbegun : (s.beginWalk k).begun k = true := by cases k <;> simp [begun, Loop.beginWalk]
    have haw : (s.beginWalk k).awaited a k = true := by
      simp [awaited, Loop.beginWalk, Frame.awaits, Journal.begin, hmem]
    have how : (s.beginWalk k).owed k a = false := by
      have : owing k (s.beginWalk k).stack = owing k s.stack := rfl
      simp [owed, this, hidle]
    have htally := h.running a e he
    rw [hb, g.not_awaited_of_unbegun hb, owed, hb, Bool.false_and] at htally
    rw [hbegun, haw, how]
    simpa [Episode.summon] using htally.summon
  aimed := h.aimed

/-- A walk of the other kind begins. -/
lemma beginWalk_other (h : Ledger k s) {k' : Kind} (hk : k' ≠ k) : Ledger k (s.beginWalk k') := by
  have hbegun : (s.beginWalk k').begun k = s.begun k := by
    cases k <;> cases k' <;> simp_all [begun, Loop.beginWalk]
  refine h.congr rfl (fun a e' ha => ?_) hbegun (fun a => ?_) (fun a => ?_) fun _ => id
  · obtain ⟨e, he, rfl⟩ : ∃ e, s.now a = some e ∧ e.summon k' = e' := by
      simpa [Loop.beginWalk] using ha
    exact ⟨e, he, by simp [Episode.summon, Function.update_of_ne hk.symm]⟩
  · simp [awaited, Loop.beginWalk, Frame.awaits, hk]
  · rw [owed, hbegun]
    rfl

/-! ### The turns of the library code -/

/-- A walk's turn: it calls the node at its position. -/
lemma walkCall (h : Ledger k s) (g : Guide k s) {k' : Kind} {outer : Option ν} {j : Journal ν}
    {rest : List (Frame ν)} {node : ν} (top : s.stack = .walk k' outer j :: rest)
    (cur : s.heap.cursor_ () = some node) :
    Ledger k (enter k' node (Episode.fromWalk k')
      { s with
        heap := s.heap.advanceEach () node
        stack := .walk k' outer (j.visit node) :: rest }) := by
  by_cases hk : k' = k
  · subst hk
    obtain ⟨t, ht⟩ : ∃ t, j.todo = node :: t := by
      have hlead := g.lead outer j rest top
      rw [cur] at hlead
      rcases hj : j.todo with _ | ⟨b, t⟩
      · simp [hj] at hlead
      · obtain rfl : node = b := by simpa [hj] using hlead
        exact ⟨t, rfl⟩
    have hsuf := g.listed outer j (by simp [top])
    have hnd : (node :: t).Nodup := (ht ▸ hsuf).sublist.nodup g.sound.repr.nodup
    obtain ⟨e, he⟩ := Option.isSome_iff_exists.mp
      ((g.sound.running node).mpr (hsuf.subset (by simp [ht])))
    have haw : s.awaited node k' = true := by simp [awaited, top, Frame.awaits, ht]
    have htally := h.running node e he
    rw [haw] at htally
    have hbegun := g.begun_of_walk top
    -- the entry is the one the walk was due to make, and it awaits the node no longer
    refine Ledger.enter_same (s := { s with heap := s.heap.advanceEach () node }) ?_ he _ ?_ ?_ ?_
    · exact h.congr rfl (fun _ e he => ⟨e, he, rfl⟩) rfl (fun _ => rfl) (fun _ => rfl) fun _ => id
    · have hnaw :
          (Frame.walk k' outer (j.visit node) :: rest).any (Frame.awaits k' node) = false := by
        rw [List.any_cons, g.rest_not_awaits top, Journal.visit_head ht]
        simpa [Frame.awaits] using (List.nodup_cons.mp hnd).1
      have hnow : (s.begun k' && decide (node ∈ owing k' s.stack)) = false := by
        rw [Bool.eq_false_iff]
        intro hc
        exact absurd (htally.pending hc).1 (by simp)
      have howing : owing k' (.walk k' outer (j.visit node) :: rest) = owing k' s.stack := by
        rw [top]
        rfl
      rw [hnaw, howing]
      change Tally (s.begun k') false (s.begun k' && decide (node ∈ owing k' s.stack)) _
      rw [hnow]
      simpa [Episode.fromWalk] using htally.fromWalk hbegun
    · intro b hb
      simp [top, Journal.visit_head ht, Frame.awaits, ht, hb]
    · intro b hb
      rw [top]
      exact Iff.rfl
  · refine Ledger.enter_other ?_ hk _ _ fun e => by
      simp [Episode.fromWalk, Function.update_of_ne (Ne.symm hk)]
    refine Ledger.congr (s := s) h rfl (fun _ e he => ⟨e, he, rfl⟩) rfl (fun b => ?_) (fun b => ?_)
      fun _ => id
    · simp [awaited, top, Frame.awaits, hk]
    · simp [owed, top, owing, Frame.owes, begun]

/-- A walk ends. -/
lemma walkEnd (h : Ledger k s) (g : Guide k s) {k' : Kind} {outer : Option ν} {j : Journal ν}
    {rest : List (Frame ν)} (top : s.stack = .walk k' outer j :: rest)
    (cur : s.heap.cursor_ () = none) :
    Ledger k
      { s with heap := s.heap.endEach () outer, stack := rest, done := (k', j) :: s.done } := by
  refine h.congr rfl (fun _ e he => ⟨e, he, rfl⟩) rfl (fun b => ?_) (fun b => ?_) fun _ => id
  · by_cases hk : k' = k
    · subst hk
      have hlead := g.lead outer j rest top
      rw [cur] at hlead
      have htodo : j.todo = [] := List.head?_eq_none_iff.mp hlead.symm
      simp [awaited, top, Frame.awaits, htodo]
    · simp [awaited, top, Frame.awaits, hk]
  · simp [owed, top, owing, Frame.owes, begun]

/-- `track(a)` makes the call of kind `k` it owes; `stack` is what is left under way. -/
lemma trackCall (h : Ledger k s) (g : Guide k s) {a : ν} {stack : List (Frame ν)}
    (hbegun : s.begun k = true) (howing : owing k s.stack = a :: owing k stack)
    (haw : ∀ b, stack.any (Frame.awaits k b) = s.stack.any (Frame.awaits k b)) :
    Ledger k (enter k a (Episode.fromTrack k) { s with stack := stack }) := by
  obtain ⟨e, he⟩ := Option.isSome_iff_exists.mp
    ((g.sound.running a).mpr (g.owing_listed hbegun a (by simp [howing])))
  have hnd := g.owing_nodup hbegun
  rw [howing, List.nodup_cons] at hnd
  refine h.enter_same he stack ?_ (fun b _ => haw b) fun b hb => by simp [howing, hb]
  have htally := h.running a e he
  rw [owed, howing, decide_eq_true (List.mem_cons_self ..), hbegun, Bool.and_true] at htally
  rw [haw, decide_eq_false hnd.1, Bool.and_false, hbegun]
  simpa [Episode.fromTrack, awaited] using htally.fromTrack rfl

/-- A statement of `track(a)` for kind `k` that is skipped, since the walk has not begun, or one of
the other kind: nothing of kind `k` changes. -/
lemma trackSkip (h : Ledger k s) {frame : Frame ν} {rest stack : List (Frame ν)}
    (top : s.stack = frame :: rest) (hframe : ∀ b, Frame.awaits k b frame = false)
    (hstack : ∀ b, stack.any (Frame.awaits k b) = rest.any (Frame.awaits k b))
    (how : s.begun k = true → owing k stack = owing k s.stack) :
    Ledger k { s with stack := stack } :=
  h.restack stack (fun b => by rw [hstack, top, List.any_cons, hframe, Bool.false_or]) how

/-- **The step lemma of the account.**  A move keeps the account of kind `k` if it ends no episode
that its own `track` has still to call, and starts no second walk of that kind nor a first one
while a `track` call is under way. -/
lemma move {act : Act ν} (h : Ledger k s) (g : Guide k s) (hmove : Move s act s')
    (hkept : ∀ a, act = .untrack a ∨ act = .destroy a → s.owed k a = false)
    (hfirst : begins k act = true → s' = s ∨ s.begun k = false ∧ owing k s.stack = []) :
    Ledger k s' := by
  -- a walk of kind `k'` begins after the change of a flag the account does not read
  have begin_ : ∀ (k' : Kind) (s₁ : Loop ν), Ledger k s₁ → Guide k s₁ → s₁.stack = s.stack →
      s₁.begun = s.begun → s' = s₁.beginWalk k' → (k' = k → begins k act = true) →
      Ledger k s' := by
    rintro k' s₁ h₁ g₁ hstack hbegun rfl hk
    by_cases hkk : k' = k
    · subst hkk
      rcases hfirst (hk rfl) with hsame | ⟨hb, hidle⟩
      · rwa [hsame]
      · exact h₁.beginWalk_same g₁ (by rwa [hbegun]) (by rwa [hstack])
    · exact h₁.beginWalk_other hkk
  cases hmove with
  | track _ alive free => exact h.link g (g.sound.not_mem_of_free free)
  | untrack => exact h.unlink (hkept _ (.inl rfl))
  | destroy => exact h.destroy (hkept _ (.inr rfl))
  | abortInline =>
      refine begin_ .abort { s with aborting_ := true } ?_ ?_ rfl rfl rfl (by rintro rfl; rfl)
      · exact ⟨h.past, h.running, h.aimed⟩
      · exact ⟨g.sound.congr_heap rfl rfl rfl rfl, g.lead, g.listed, g.solo, g.owing_nodup,
          g.owing_listed⟩
  | forceInline => exact begin_ .force s h g rfl rfl rfl (by rintro rfl; rfl)
  | ret top => exact h.trackSkip top (fun _ => rfl) (fun _ => rfl) fun _ => by rw [top]; rfl
  | walkEnd top cur => exact h.walkEnd g top cur
  | walkCall top cur alive => exact h.walkCall g top cur
  | lateAbort top walked =>
      cases k with
      | abort =>
          exact h.trackCall g walked (by rw [top]; rfl) fun b => by simp [top, Frame.awaits]
      | force =>
          refine Ledger.enter_other ?_ (by simp) _ _ fun e => by simp [Episode.fromTrack]
          exact h.trackSkip top (fun _ => rfl) (fun _ => rfl) fun _ => by rw [top]; rfl
  | skipAbort top walked =>
      refine h.trackSkip top (fun _ => rfl) (fun _ => rfl) fun hb => ?_
      cases k with
      | abort => exact absurd hb (by simp [begun, walked])
      | force => rw [top]; rfl
  | lateForce top forced alive =>
      cases k with
      | force =>
          exact h.trackCall g forced (by rw [top]; rfl) fun b => by simp [top, Frame.awaits]
      | abort =>
          refine Ledger.enter_other ?_ (by simp) _ _ fun e => by simp [Episode.fromTrack]
          exact h.trackSkip top (fun _ => rfl) (fun _ => rfl) fun _ => by rw [top]; rfl
  | skipForce top forced =>
      refine h.trackSkip top (fun _ => rfl) (fun _ => rfl) fun hb => ?_
      cases k with
      | force => exact absurd hb (by simp [begun, forced])
      | abort => rw [top]; rfl
  | runAbort =>
      refine begin_ .abort { s with abortPosted := false } ?_ ?_ rfl rfl rfl (by rintro rfl; rfl)
      · exact ⟨h.past, h.running, h.aimed⟩
      · exact ⟨g.sound.congr_heap rfl rfl rfl rfl, g.lead, g.listed, g.solo, g.owing_nodup,
          g.owing_listed⟩
  | runForce =>
      refine begin_ .force { s with forcePosted := s.forcePosted - 1 } ?_ ?_ rfl rfl rfl
        (by rintro rfl; rfl)
      · exact ⟨h.past, h.running, h.aimed⟩
      · exact ⟨g.sound.congr_heap rfl rfl rfl rfl, g.lead, g.listed, g.solo, g.owing_nodup,
          g.owing_listed⟩
  | _ => exact ⟨h.past, h.running, h.aimed⟩

end Ledger

end Loop

end ReactorRuntime
