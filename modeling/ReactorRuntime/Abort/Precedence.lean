import ReactorRuntime.Abort.Episodes

/-!
# No `force()` before `abort()`

`force_all()` is the second stage of shutdown (`reactor.h:245`): it is meant for what is still
tracked after `abort_all()`.  Nothing in the two functions enforces that order; it is the caller's
to keep.  Here is what keeping it gives: in every run in which no force walk begins before the
abort walk has completed, and none begins inside a callback, every abortable that is forced has
been aborted before (`abort_first_of_reachable`).

The reason differs by who calls.  The force walk calls a listed abortable, whose running episode
the account of `ReactorRuntime.Abort.Episodes` shows to have been aborted.  A late `track` calls
`abort()` in the statement before.
-/

namespace ReactorRuntime

namespace Loop

variable {ν : Type*} [DecidableEq ν]

/-- The abort walk has completed. -/
def Walked (s : Loop ν) : Prop := ∃ j, (Kind.abort, j) ∈ s.done

/-- A force walk begins outside callbacks, and after the abort walk has completed. -/
def ForceLast (s : Loop ν) (act : Act ν) : Prop :=
  NoNestedForce s act ∧ (begins .force act = true → s.Walked)

/-- In a list of calls, newest first, every abortable is aborted before it is forced. -/
def AbortFirst : List (Kind × ν) → Prop
  | [] => True
  | (k, a) :: l => (k = .force → (.abort, a) ∈ l) ∧ AbortFirst l

/-- What is kept in the runs of `ForceLast`. -/
structure Traced (s : Loop ν) : Prop where
  side : s.AbortSide
  front : AtFront .force s
  forced : s.forced_ = true → s.Walked
  flagged : 0 < walks .force s.stack → s.forced_ = true
  aborted : ∀ a e, s.now a = some e → 0 < (e .abort).walk + (e .abort).track →
    (.abort, a) ∈ s.log
  /-- A `track` that some other code runs inside of is in its call of `abort()`. -/
  calling : ∀ a, .trackForce a ∈ s.stack.tail → (.abort, a) ∈ s.log
  /-- A `track` about to look at `forced_` has called `abort()`, or has just seen that the abort
  walk has not begun. -/
  looking : ∀ a rest, s.stack = .trackForce a :: rest → (.abort, a) ∈ s.log ∨ s.walked_ = false
  first : AbortFirst s.log

variable {s s' : Loop ν} {act : Act ν}

lemma Walked.move (h : s.Walked) (hmove : Move s act s') : s'.Walked := by
  obtain ⟨j, hj⟩ := h
  cases hmove with
  | untrack => exact ⟨j, by simpa using hj⟩
  | destroy => exact ⟨j, by simpa [destroy] using hj⟩
  | walkEnd => exact ⟨j, List.mem_cons_of_mem _ hj⟩
  | _ => exact ⟨j, hj⟩

omit [DecidableEq ν] in
/-- Once the abort walk has completed, it is not under way, and its flag is set. -/
lemma Walked.walks_eq_zero (h : s.Walked) (hsolo : Solo .abort s) :
    walks .abort s.stack = 0 ∧ s.walked_ = true := by
  obtain ⟨j, hj⟩ := h
  have hpos : 0 < s.done.countP (fun kj => kj.1 = Kind.abort) :=
    List.countP_pos_iff.mpr ⟨_, hj, by simp⟩
  unfold Solo at hsolo
  have hle := Bool.toNat_le (s.begun .abort)
  refine ⟨by omega, ?_⟩
  cases hw : s.walked_ with
  | true => rfl
  | false =>
      simp only [begun, hw, Bool.toNat_false] at hsolo
      omega

/-- Once the abort walk has completed, every running episode has been aborted once, except one
whose own `track` is about to. -/
lemma AbortSide.aborted_once (h : s.AbortSide) (hw : s.Walked) {a : ν} {e : Episode}
    (ha : s.now a = some e) (howed : a ∉ owing .abort s.stack) :
    (e .abort).walk + (e .abort).track = 1 := by
  obtain ⟨hnone, hwalked⟩ := hw.walks_eq_zero h.solo
  have htally := h.ledger.running a e ha
  have haw : s.awaited a .abort = false := by
    rw [Bool.eq_false_iff]
    intro hc
    obtain ⟨outer, j, hmem, -⟩ := Guide.awaited_iff.mp hc
    exact absurd (List.countP_eq_zero.mp hnone _ hmem) (by simp [Frame.isWalk])
  have how : s.owed .abort a = false := by simp [owed, howed]
  have hbegun : s.begun .abort = true := hwalked
  rw [haw, how, hbegun] at htally
  exact htally.called_once

namespace Traced

/-- The force walk is about to call a node that has been aborted. -/
lemma walk_aborted (h : s.Traced) {outer : Option ν} {j : Journal ν} {rest : List (Frame ν)}
    {node : ν} (top : s.stack = .walk .force outer j :: rest)
    (cur : s.heap.cursor_ () = some node) : (.abort, node) ∈ s.log := by
  have hforced : s.forced_ = true := h.flagged (by simp [walks, top, Frame.isWalk])
  obtain ⟨hlead, hsuf⟩ := (h.front.top top).1 rfl
  rw [cur] at hlead
  have hmem : node ∈ s.contents := hsuf.subset (List.mem_of_mem_head? hlead.symm)
  obtain ⟨e, he⟩ := Option.isSome_iff_exists.mp ((h.side.sound.running node).mpr hmem)
  have hnone : node ∉ owing .abort s.stack := by
    rw [top, Ordered.owing_abort_of_not_mem fun a => ?_]
    · exact List.not_mem_nil
    · simpa using h.side.ordered.not_mem_rest top a
  have hone := h.side.aborted_once (h.forced hforced) he hnone
  exact h.aborted node e he (by omega)

/-- A late `track` is about to force an abortable it has aborted. -/
lemma track_aborted (h : s.Traced) {a : ν} {rest : List (Frame ν)}
    (top : s.stack = .trackForce a :: rest) (forced : s.forced_ = true) :
    (.abort, a) ∈ s.log := by
  rcases h.looking a rest top with hlog | hunwalked
  · exact hlog
  · have := ((h.forced forced).walks_eq_zero h.side.solo).2
    simp [hunwalked] at this

lemma first_move (h : s.Traced) (hmove : Move s act s') : AbortFirst s'.log := by
  cases hmove with
  | untrack => simpa using h.first
  | destroy => simpa [destroy] using h.first
  | @walkCall k outer j rest node top cur alive =>
      refine ⟨?_, h.first⟩
      rintro rfl
      exact h.walk_aborted top cur
  | lateAbort => exact ⟨by simp, h.first⟩
  | lateForce top forced => exact ⟨fun _ => h.track_aborted top forced, h.first⟩
  | _ => exact h.first

/-- Calls are recorded in the running episode and in the log together. -/
lemma aborted_move (h : s.Traced) (hmove : Move s act s') :
    ∀ a e, s'.now a = some e → 0 < (e .abort).walk + (e .abort).track → (.abort, a) ∈ s'.log := by
  have hunlink : ∀ b a e, (s.unlink b).now a = some e → s.now a = some e := by
    intro b a e ha
    unfold unlink at ha
    cases hnow : s.now b with
    | none => simpa [hnow] using ha
    | some e' =>
        have hne : a ≠ b := by rintro rfl; simp [hnow] at ha
        simpa [hnow, hne] using ha
  -- a walk begins: episodes are summoned, and no count changes
  have hbegin : ∀ (k : Kind) (s₁ : Loop ν), s₁.now = s.now → s₁.log = s.log →
      ∀ a e, (s₁.beginWalk k).now a = some e → 0 < (e .abort).walk + (e .abort).track →
        (.abort, a) ∈ (s₁.beginWalk k).log := by
    intro k s₁ hnow hlog a e ha hpos
    obtain ⟨e₀, he₀, rfl⟩ : ∃ e₀, s.now a = some e₀ ∧ e₀.summon k = e := by
      simpa [beginWalk, hnow] using ha
    change (Kind.abort, a) ∈ s₁.log
    rw [hlog]
    refine h.aborted a e₀ he₀ ?_
    cases k <;> simpa [Episode.summon] using hpos
  -- a call is made: only the account of the abortable called changes
  have henter : ∀ (k : Kind) (b : ν) (note : Episode → Episode) (s₁ : Loop ν), s₁.now = s.now →
      s₁.log = s.log → (k = .force → ∀ e, note e .abort = e .abort) →
      ∀ a e, (s₁.enter k b note).now a = some e → 0 < (e .abort).walk + (e .abort).track →
        (.abort, a) ∈ (s₁.enter k b note).log := by
    intro k b note s₁ hnow hlog hnote a e ha hpos
    change (Kind.abort, a) ∈ (k, b) :: s₁.log
    rw [hlog]
    by_cases hab : a = b
    · subst hab
      obtain ⟨e₀, he₀, rfl⟩ : ∃ e₀, s.now a = some e₀ ∧ note e₀ = e := by
        simpa [enter, hnow] using ha
      cases k with
      | abort => exact List.mem_cons_self ..
      | force =>
          rw [hnote rfl] at hpos
          exact List.mem_cons_of_mem _ (h.aborted a e₀ he₀ hpos)
    · refine List.mem_cons_of_mem _ (h.aborted a e ?_ hpos)
      simpa [enter, hab, hnow] using ha
  cases hmove with
  | @track b host alive free =>
      intro a e ha hpos
      by_cases hab : a = b
      · subst hab
        obtain rfl : Episode.fresh s.begun = e := by simpa [link] using ha
        simp [Episode.fresh] at hpos
      · exact h.aborted a e (by simpa [link, hab] using ha) hpos
  | untrack =>
      intro a e ha hpos
      rw [unlink_log]
      exact h.aborted a e (hunlink _ a e ha) hpos
  | destroy =>
      intro a e ha hpos
      change (Kind.abort, a) ∈ (s.unlink _).log
      rw [unlink_log]
      exact h.aborted a e (hunlink _ a e ha) hpos
  | abortInline => exact hbegin .abort _ rfl rfl
  | forceInline => exact hbegin .force _ rfl rfl
  | @walkCall k =>
      exact henter k _ _ _ rfl rfl fun hk e => by subst hk; simp [Episode.fromWalk]
  | lateAbort => exact henter .abort _ _ _ rfl rfl (by simp)
  | lateForce => exact henter .force _ _ _ rfl rfl fun _ e => by simp [Episode.fromTrack]
  | runAbort => exact hbegin .abort _ rfl rfl
  | runForce => exact hbegin .force _ rfl rfl
  | _ => exact h.aborted

lemma flagged_move (h : s.Traced) (hmove : Move s act s') :
    0 < walks .force s'.stack → s'.forced_ = true := by
  have hstack : ∀ b, walks .force (s.unlink b).stack = walks .force s.stack := fun b => by
    unfold unlink
    cases s.now b with
    | none => rfl
    | some e => exact Solo.walks_map_drop s.stack b
  cases hmove with
  | track => simpa [walks, link, Frame.isWalk] using h.flagged
  | untrack => simpa [hstack] using h.flagged
  | destroy => simpa [destroy, hstack] using h.flagged
  | abortInline => simpa [walks, beginWalk, Frame.isWalk] using h.flagged
  | forceInline => simp [beginWalk]
  | ret top => simpa [walks, top, Frame.isWalk] using h.flagged
  | walkEnd top =>
      intro hpos
      refine h.flagged (hpos.trans_le ?_)
      simp [walks, top, List.countP_cons]
  | walkCall top => simpa [walks, top, enter, List.countP_cons, Frame.isWalk] using h.flagged
  | lateAbort top => simpa [walks, top, enter, Frame.isWalk] using h.flagged
  | skipAbort top => simpa [walks, top, Frame.isWalk] using h.flagged
  | lateForce top => simpa [walks, top, enter, Frame.isWalk] using h.flagged
  | skipForce top => simpa [walks, top, Frame.isWalk] using h.flagged
  | runAbort => simpa [walks, beginWalk, Frame.isWalk] using h.flagged
  | runForce => simp [beginWalk]
  | _ => exact h.flagged

lemma forced_move (h : s.Traced) (hok : ForceLast s act) (hmove : Move s act s')
    (hf : s'.forced_ = true) : s'.Walked := by
  have hsame : s.forced_ = true → s'.Walked := fun hf => (h.forced hf).move hmove
  have hbegins : begins .force act = true → s'.Walked := fun hb => (hok.2 hb).move hmove
  cases hmove with
  | untrack => exact hsame (by simpa using hf)
  | destroy => exact hsame (by simpa [destroy] using hf)
  | abortInline => exact hsame (by simpa [beginWalk] using hf)
  | forceInline => exact hbegins rfl
  | runAbort => exact hsame (by simpa [beginWalk] using hf)
  | runForce => exact hbegins rfl
  | _ => exact hsame hf

/-- While host code runs, every `track` under way has called `abort()`. -/
lemma calling_of_host (h : s.Traced) (host : s.hostTurn = true) (a : ν)
    (ha : .trackForce a ∈ s.stack) : (.abort, a) ∈ s.log := by
  rcases hs : s.stack with _ | ⟨frame, rest⟩
  · simp [hs] at ha
  · rw [hs] at ha
    rcases List.mem_cons.mp ha with rfl | ha
    · simp [hostTurn, hs] at host
    · exact h.calling a (by simpa [hs] using ha)

lemma calling_of_rest (h : s.Traced) {frame : Frame ν} {rest : List (Frame ν)}
    (top : s.stack = frame :: rest) (a : ν) (ha : .trackForce a ∈ rest) : (.abort, a) ∈ s.log :=
  h.calling a (by simpa [top] using ha)

omit [DecidableEq ν] in
/-- What the two facts about `track` calls need of the state after a move: each one on the stack
has called `abort()`, save one on top that need not. -/
lemma tracks_of_forall (hlog : ∀ a, .trackForce a ∈ s'.stack → (.abort, a) ∈ s'.log) :
    (∀ a, .trackForce a ∈ s'.stack.tail → (.abort, a) ∈ s'.log) ∧
      ∀ a rest, s'.stack = .trackForce a :: rest → (.abort, a) ∈ s'.log ∨ s'.walked_ = false :=
  ⟨fun a ha => hlog a (List.mem_of_mem_tail ha), fun a rest hs => .inl (hlog a (by simp [hs]))⟩

lemma tracks_move (h : s.Traced) (hmove : Move s act s') :
    (∀ a, .trackForce a ∈ s'.stack.tail → (.abort, a) ∈ s'.log) ∧
      ∀ a rest, s'.stack = .trackForce a :: rest → (.abort, a) ∈ s'.log ∨ s'.walked_ = false := by
  have hdrop : ∀ a b, .trackForce a ∈ (s.unlink b).stack → .trackForce a ∈ s.stack := by
    intro a b ha
    unfold unlink at ha
    cases hnow : s.now b with
    | none => simpa [hnow] using ha
    | some e =>
        obtain ⟨frame, hmem, heq⟩ := List.mem_map.mp (show _ ∈ s.stack.map (Frame.drop b) by
          simpa [hnow] using ha)
        cases frame <;> simp [Frame.drop] at heq
        exact heq ▸ hmem
  cases hmove with
  | track host =>
      exact tracks_of_forall fun a ha => h.calling_of_host host a (by simpa [link] using ha)
  | untrack host =>
      refine tracks_of_forall fun a ha => ?_
      rw [unlink_log]
      exact h.calling_of_host host a (hdrop a _ ha)
  | destroy host =>
      refine tracks_of_forall fun a ha => ?_
      change (Kind.abort, a) ∈ (s.unlink _).log
      rw [unlink_log]
      exact h.calling_of_host host a (hdrop a _ ha)
  | abortInline host =>
      exact tracks_of_forall fun a ha => h.calling_of_host host a (by simpa [beginWalk] using ha)
  | forceInline host =>
      exact tracks_of_forall fun a ha => h.calling_of_host host a (by simpa [beginWalk] using ha)
  | ret top => exact tracks_of_forall fun a ha => h.calling_of_rest top a ha
  | walkEnd top => exact tracks_of_forall fun a ha => h.calling_of_rest top a ha
  | walkCall top =>
      exact tracks_of_forall fun a ha =>
        List.mem_cons_of_mem _ (h.calling_of_rest top a (by simpa [enter] using ha))
  | @lateAbort b rest top walked =>
      refine tracks_of_forall fun a ha => ?_
      obtain rfl | ha : a = b ∨ .trackForce a ∈ rest := by simpa [enter] using ha
      · exact List.mem_cons_self ..
      · exact List.mem_cons_of_mem _ (h.calling_of_rest top a ha)
  | skipAbort top walked =>
      -- the one `track` that has not called: it is on top, and looks at `forced_` next
      exact ⟨fun a ha => h.calling_of_rest top a ha, fun _ _ _ => .inr walked⟩
  | lateForce top =>
      exact tracks_of_forall fun a ha =>
        List.mem_cons_of_mem _ (h.calling_of_rest top a (by simpa [enter] using ha))
  | skipForce top => exact tracks_of_forall fun a ha => h.calling_of_rest top a ha
  | runAbort free => exact tracks_of_forall fun a ha => by simp [beginWalk, free] at ha
  | runForce free => exact tracks_of_forall fun a ha => by simp [beginWalk, free] at ha
  | _ => exact ⟨h.calling, h.looking⟩

lemma move (h : s.Traced) (hok : ForceLast s act) (hmove : Move s act s') : s'.Traced where
  side := h.side.move hok.1 hmove
  front := by
    refine h.front.move h.side.sound hmove ?_
    rintro (hb | hb)
    · -- the abort walk has not completed, so no force walk has begun
      refine (h.side.ordered.abort_first hmove hb).imp id fun ⟨hunbegun, _⟩ => ?_
      by_contra hne
      have hw := (h.forced (h.flagged (Nat.pos_of_ne_zero hne))).walks_eq_zero h.side.solo
      simp [begun, hw.2] at hunbegun
    · exact .inr (by simp [hok.1.stack_nil hmove hb, walks])
  forced := h.forced_move hok hmove
  flagged := h.flagged_move hmove
  aborted := h.aborted_move hmove
  calling := (h.tracks_move hmove).1
  looking := (h.tracks_move hmove).2
  first := h.first_move hmove

end Traced

lemma traced_of_reachable (h : (machine (ν := ν)).ReachableUnder ForceLast s) : s.Traced := by
  refine h.invariant ?_ fun _ _ _ hs hok hstep => hs.move hok (move_of_step hstep)
  exact ⟨abortSide_of_reachable .init, trivial, by simp [machine, initial],
    by simp [machine, initial, walks], by simp [machine, initial], by simp [machine, initial],
    by simp [machine, initial], trivial⟩

/-- **No `force()` before `abort()`** in any run whose force walks begin outside callbacks and after
the abort walk has completed. -/
theorem abort_first_of_reachable (h : (machine (ν := ν)).ReachableUnder ForceLast s) :
    AbortFirst s.log := (traced_of_reachable h).first

end Loop

end ReactorRuntime
