import ReactorRuntime.Abort.Precedence

/-!
# Which abortables are tracked, and how often each was aborted

A user of the abort machinery sees three things of it: which of its abortables are tracked, when
`abort()` is called on one, and whether the abort walk is over.  This file says what each action
does to the three, so that a model of the user need not look at episodes and frames.
-/

namespace ReactorRuntime

namespace Loop

variable {ν : Type*} [DecidableEq ν] {s s' : Loop ν}

/-- The callback that the next statement of the library code on top of the stack enters. -/
def nextCall (s : Loop ν) : Option (Kind × ν) :=
  match s.stack with
  | .walk k _ _ :: _ =>
      (s.heap.cursor_ ()).bind fun node => if s.dead node then none else some (k, node)
  | .trackAbort a :: _ => if s.walked_ then some (.abort, a) else none
  | .trackForce a :: _ => if s.forced_ && !s.dead a then some (.force, a) else none
  | _ => none

/-- The abortable is tracked. -/
def tracked (s : Loop ν) (a : ν) : Bool := (s.now a).isSome

/-- The number of times `abort()` was called since the abortable was tracked. -/
def calls (s : Loop ν) (a : ν) : ℕ :=
  match s.now a with
  | some e => (e .abort).walk + (e .abort).track
  | none => 0

omit [DecidableEq ν] in
lemma tracked_congr (h : s'.now = s.now) (b : ν) :
    s'.tracked b = s.tracked b ∧ s'.calls b = s.calls b := by
  unfold tracked calls
  rw [h]
  exact ⟨rfl, rfl⟩

/-- The call that `nextCall` announces is counted. -/
lemma calls_enter {t : Loop ν} (hnow : t.now = s.now) {k : Kind} {a : ν}
    (hnext : s.nextCall = some (k, a)) {note : Episode → Episode}
    (hnote : ∀ e, (note e .abort).walk + (note e .abort).track =
      (e .abort).walk + (e .abort).track + if k = .abort then 1 else 0) (b : ν) :
    (t.enter k a note).tracked b = s.tracked b ∧
      (t.enter k a note).calls b =
        s.calls b + if s.nextCall = some (.abort, b) ∧ s.tracked b = true then 1 else 0 := by
  unfold tracked calls enter
  by_cases hb : b = a
  · subst hb
    cases he : s.now b with
    | none => simp [hnow, he]
    | some e => simp [hnow, he, hnote, hnext]
  · simp [hb, Ne.symm hb, hnow, hnext]

lemma fromWalk_abort (k : Kind) (e : Episode) :
    (e.fromWalk k .abort).walk + (e.fromWalk k .abort).track =
      (e .abort).walk + (e .abort).track + if k = .abort then 1 else 0 := by
  cases k with
  | abort => simp only [Episode.fromWalk, Function.update_self, if_true]; omega
  | force => simp [Episode.fromWalk]

lemma fromTrack_abort (k : Kind) (e : Episode) :
    (e.fromTrack k .abort).walk + (e.fromTrack k .abort).track =
      (e .abort).walk + (e .abort).track + if k = .abort then 1 else 0 := by
  cases k with
  | abort => simp only [Episode.fromTrack, Function.update_self, if_true]; omega
  | force => simp [Episode.fromTrack]

/-- Library code going on calls what `nextCall` says. -/
theorem calls_of_resume (hmove : Move s .resume s') (b : ν) :
    s'.tracked b = s.tracked b ∧
      s'.calls b = s.calls b +
        if s.nextCall = some (.abort, b) ∧ s.tracked b = true then 1 else 0 := by
  cases hmove with
  | walkEnd top cur => simp [nextCall, top, cur, tracked, calls]
  | walkFault top cur dead => simp [nextCall, top, cur, dead, tracked, calls]
  | walkCall top cur alive =>
      exact calls_enter (s := s) rfl (by simp [nextCall, top, cur, alive]) (fromWalk_abort _) b
  | lateAbort top walked =>
      exact calls_enter (s := s) rfl (by simp [nextCall, top, walked]) (fromTrack_abort _) b
  | skipAbort top walked => simp [nextCall, top, walked, tracked, calls]
  | lateForceFault top forced dead => simp [nextCall, top, dead, tracked, calls]
  | lateForce top forced alive =>
      exact calls_enter (s := s) rfl (by simp [nextCall, top, forced, alive]) (fromTrack_abort _) b
  | skipForce top forced => simp [nextCall, top, forced, tracked, calls]

lemma calls_of_track {a : ν} (hmove : Move s (.track a) s') (b : ν) :
    s'.tracked b = (decide (b = a) || s.tracked b) ∧
      s'.calls b = if b = a then 0 else s.calls b := by
  cases hmove with
  | track host alive free =>
      unfold tracked calls link
      by_cases hb : b = a
      · subst hb
        simp [Episode.fresh]
      · simp [hb]

lemma calls_of_destroy {a : ν} (hmove : Move s (.destroy a) s') (b : ν) :
    s'.tracked b = (decide (b ≠ a) && s.tracked b) ∧
      s'.calls b = if b = a then 0 else s.calls b := by
  cases hmove with
  | destroy host alive =>
      unfold tracked calls destroy unlink
      by_cases hb : b = a
      · subst hb
        cases hnow : s.now b <;> simp [hnow]
      · cases hnow : s.now a <;> simp [hb]

omit [DecidableEq ν] in
lemma calls_beginWalk (k : Kind) (b : ν) :
    (s.beginWalk k).tracked b = s.tracked b ∧ (s.beginWalk k).calls b = s.calls b := by
  unfold tracked calls beginWalk
  cases hnow : s.now b with
  | none => simp [hnow]
  | some e => cases k <;> simp [hnow, Episode.summon]

/-- The actions that are not about one abortable. -/
def isGeneral : Act ν → Bool
  | .ret => true
  | .requestAbort => true
  | .requestForce => true
  | .runAbort => true
  | .runForce => true
  | _ => false

lemma calls_of_general {act : Act ν} (hact : isGeneral act = true) (hmove : Move s act s') (b : ν) :
    s'.tracked b = s.tracked b ∧ s'.calls b = s.calls b := by
  cases hmove with
  | ret top => exact tracked_congr rfl b
  | requestAgain again => exact ⟨rfl, rfl⟩
  | requestFirst first => exact tracked_congr rfl b
  | requestForce => exact tracked_congr rfl b
  | runAbort free posted =>
      exact calls_beginWalk (s := { s with abortPosted := false }) .abort b
  | runForce free posted =>
      exact calls_beginWalk (s := { s with forcePosted := s.forcePosted - 1 }) .force b
  | _ => cases hact

/-! ## The walk and the calls -/

/-- An abortable that is about to be aborted is tracked. -/
lemma AbortSide.tracked_of_nextCall (h : s.AbortSide) {a : ν}
    (hnext : s.nextCall = some (.abort, a)) :
    s.tracked a = true := by
  refine (h.sound.running a).mpr ?_
  rcases hs : s.stack with _ | ⟨frame, rest⟩
  · simp [nextCall, hs] at hnext
  · cases frame with
    | walk k outer j =>
        cases hcur : s.heap.cursor_ () with
        | none => simp [nextCall, hs, hcur] at hnext
        | some node =>
            obtain ⟨-, rfl, rfl⟩ : s.dead node = false ∧ k = .abort ∧ node = a := by
              simpa [nextCall, hs, hcur] using hnext
            obtain ⟨hlead, hsuf⟩ := (h.front.top hs).1 rfl
            exact hsuf.subset (List.mem_of_mem_head? (hcur ▸ hlead).symm)
    | trackAbort b =>
        obtain ⟨-, rfl⟩ : s.walked_ = true ∧ b = a := by simpa [nextCall, hs] using hnext
        exact h.ordered.listed b rest hs
    | trackForce b => simp [nextCall, hs] at hnext
    | call k b => simp [nextCall, hs] at hnext

/-- An abortable that is tracked has been aborted at most once, since it was tracked. -/
lemma AbortSide.calls_le_one (h : s.AbortSide) (a : ν) : s.calls a ≤ 1 := by
  unfold calls
  cases hnow : s.now a with
  | none => simp
  | some e => exact (h.ledger.running a e hnow).at_most_once

/-- The walk is over: what is tracked has been aborted once, unless its own `track` is about
to. -/
lemma AbortSide.calls_eq_one (h : s.AbortSide) (hw : s.Walked) {a : ν} (ha : s.tracked a = true)
    (howed : a ∉ owing .abort s.stack) : s.calls a = 1 := by
  obtain ⟨e, he⟩ := Option.isSome_iff_exists.mp ha
  have honce := h.aborted_once hw he howed
  simpa [calls, he] using honce

/-- What an abortable has received when it is untracked from outside the library's code: a
call if the walk had passed it, none otherwise. -/
lemma AbortSide.calls_at_host (h : s.AbortSide) (host : s.hostTurn = true) {a : ν}
    (ha : s.tracked a = true) :
    s.calls a = (s.walked_ && !s.awaited a .abort).toNat := by
  obtain ⟨e, he⟩ := Option.isSome_iff_exists.mp ha
  have htally := h.ledger.running a e he
  have how : s.owed .abort a = false := by
    simp [owed, Ordered.owing_abort_of_not_mem (h.ordered.not_mem_of_host host)]
  rw [how] at htally
  have hcalls : s.calls a = (e .abort).walk + (e .abort).track := by simp [calls, he]
  rw [hcalls]
  cases haw : s.awaited a .abort with
  | true =>
      rw [haw] at htally
      obtain ⟨-, -, hwalk, htrack⟩ := htally.waiting rfl
      simp [hwalk, htrack]
  | false =>
      rw [haw] at htally
      cases hwalked : s.walked_ with
      | true =>
          have hbegun : s.begun .abort = true := hwalked
          rw [hbegun] at htally
          simpa using htally.called_once
      | false =>
          obtain ⟨hlate, hdue⟩ := htally.early hwalked
          have hset := htally.settled rfl rfl
          simp only [Received.Settled, hlate, hdue, Bool.false_and, Bool.false_eq_true, if_false,
            Prod.mk.injEq] at hset
          simp [hset]

/-- A requested walk is posted or has begun. -/
def Asked (s : Loop ν) : Prop :=
  s.aborting_ = true → s.abortPosted = true ∨ s.walked_ = true

lemma Asked.move {act : Act ν} (h : s.Asked) (hmove : Move s act s') : s'.Asked := by
  unfold Asked at *
  cases hmove with
  | untrack => simpa using h
  | destroy => simpa [destroy] using h
  | abortInline => exact fun _ => .inr (by simp [beginWalk])
  | runAbort => exact fun _ => .inr (by simp [beginWalk])
  | requestFirst => exact fun _ => .inl rfl
  | forceInline => simpa [beginWalk] using h
  | runForce => simpa [beginWalk] using h
  | _ => exact h

omit [DecidableEq ν] in
/-- A requested walk that is no longer posted or under way is over. -/
lemma Asked.walked (h : s.Asked) (hsolo : Solo .abort s) (hasked : s.aborting_ = true)
    (hposted : s.abortPosted = false) (hwalks : walks .abort s.stack = 0) : s.Walked := by
  have hwalked : s.walked_ = true := (h hasked).resolve_left (by simp [hposted])
  have hbegun : s.begun .abort = true := hwalked
  unfold Solo at hsolo
  rw [hwalks, hbegun] at hsolo
  have hpos : 0 < s.done.countP (fun kj => kj.1 = Kind.abort) := by
    simp only [Bool.toNat_true] at hsolo
    omega
  obtain ⟨⟨k, j⟩, hmem, hk⟩ := List.countP_pos_iff.mp hpos
  obtain rfl : k = .abort := by simpa using hk
  exact ⟨j, hmem⟩

/-- Only library code going on completes a walk. -/
lemma Walked.of_move {act : Act ν} (hact : act ≠ .resume) (hmove : Move s act s')
    (h : s'.Walked) : s.Walked := by
  obtain ⟨j, hj⟩ := h
  refine ⟨j, ?_⟩
  cases hmove with
  | untrack => simpa using hj
  | destroy => simpa [destroy] using hj
  | walkEnd => exact absurd rfl hact
  | _ => exact hj

lemma trackAbort_of_move {act : Act ν} {a : ν} (hmove : Move s act s')
    (h : .trackAbort a ∈ s'.stack) : .trackAbort a ∈ s.stack ∨ act = .track a := by
  have hunlink : ∀ b, .trackAbort a ∈ (s.unlink b).stack → .trackAbort a ∈ s.stack := by
    intro b hb
    by_contra hc
    unfold unlink at hb
    cases hnow : s.now b with
    | none => exact hc (by simpa [hnow] using hb)
    | some e => exact Ordered.not_mem_map_drop a hc (by simpa [hnow] using hb)
  cases hmove with
  | track => simpa [link, or_comm, eq_comm] using h
  | untrack => exact .inl (hunlink _ h)
  | destroy => exact .inl (hunlink _ h)
  | _ => simp_all [beginWalk, enter]

end Loop

end ReactorRuntime
