import ReactorRuntime.Library.Progress
import ReactorRuntime.Abort.Episodes

/-!
# What `force()` is called on

Two places call `force()` (`reactor.h:227-248`): the walk of `force_all()`, on the nodes of the
list, and a late `track(a)`, on `a`.  The walk takes its next node from the list itself.  The late
`track` calls `abort()` on `a` first if the abort walk has begun, and then `force()`, without a look
at whether `a` is still tracked.  An `abort()` that ends what `a` stood for untracks it, or destroys
it; then `force()` is called on an abortable that is not in the list, or that is no more
(`abort_untracks_before_force`).

In runs without nested walks this is the only way, and it takes a `forced_` that is set by then.  An
abortable that has left its own `track()` behind that way is forced, or another one before it, if
all that is under way merely goes on (`forces_what_is_tracked`).
-/

namespace ReactorRuntime

namespace Loop

variable {ν : Type*} [DecidableEq ν] {s s' : Loop ν} {act : Act ν} {a : ν}

/-- The next statement of the library code is a call of `force()` on `a`: by the force walk, or by
`track(a)`. -/
def Forces (s : Loop ν) (a : ν) : Prop :=
  (∃ outer j rest, s.stack = .walk .force outer j :: rest ∧ s.heap.cursor_ () = some a) ∨
    ∃ rest, s.stack = .trackForce a :: rest ∧ s.forced_ = true

/-- No walk begins while another one is under way. -/
def NoNestedWalk (s : Loop ν) (act : Act ν) : Prop :=
  act = .forceAll ∨ act = .abortAll ∧ s.aborting_ = false →
    walks .abort s.stack = 0 ∧ walks .force s.stack = 0

/-- Once `forced_` is set, an abortable whose own `track()` has yet to look at it is tracked: it is
not untracked or destroyed then, and was not when `force_all()` sets the flag. -/
structure KeepsLate (s : Loop ν) (act : Act ν) : Prop where
  leaving : ∀ a, act = .untrack a ∨ act = .destroy a → s.forced_ = true → .trackForce a ∉ s.stack
  forcing : act = .forceAll → ∀ a, .trackForce a ∈ s.stack → s.heap.list_ a = some ()

/-! ## Without nested walks no position is parked -/

omit [DecidableEq ν] in
/-- When no walk is under way the cursor is null. -/
lemma Positioned.eq_none {contents : List ν} {p : Option ν} {stack : List (Frame ν)}
    (h : Positioned contents p stack) (habort : walks .abort stack = 0)
    (hforce : walks .force stack = 0) : p = none := by
  induction stack with
  | nil => exact h
  | cons frame rest ih =>
      cases frame with
      | walk k outer j => cases k <;> simp [walks, Frame.isWalk] at habort hforce
      | call k b => exact ih h habort hforce
      | trackAbort b => exact ih h habort hforce
      | trackForce b => exact ih h habort hforce

lemma parkedIn_map_drop (stack : List (Frame ν)) (a : ν) :
    parkedIn (stack.map (Frame.drop a)) = parkedIn stack := by
  induction stack with
  | nil => rfl
  | cons frame rest ih =>
      cases frame with
      | walk k outer j => cases outer <;> simpa [parkedIn, Frame.drop] using ih
      | call k b => exact ih
      | trackAbort b => exact ih
      | trackForce b => exact ih

omit [DecidableEq ν] in
lemma parkedIn_of_cons {frame : Frame ν} {rest : List (Frame ν)}
    (h : parkedIn (frame :: rest) = []) : parkedIn rest = [] := by
  cases frame with
  | walk k outer j =>
      cases outer with
      | none => exact h
      | some b => exact absurd h (List.cons_ne_nil b _)
  | call k b => exact h
  | trackAbort b => exact h
  | trackForce b => exact h

/-- What is kept in every run that has no nested walks and that keeps late abortables. -/
structure Held (s : Loop ν) : Prop where
  nested : s.Nested
  ordered : s.Ordered
  unparked : parkedIn s.stack = []
  /-- A `track()` that has yet to look at `forced_`, and finds it set, is about a tracked
  abortable. -/
  listed : s.forced_ = true → ∀ a ∈ owing .force s.stack, a ∈ s.contents

namespace Held

omit [DecidableEq ν] in
lemma keepsParked (h : s.Held) (act : Act ν) : KeepsParked s act := by
  cases act with
  | untrack a | destroy a =>
      show a ∉ parkedIn s.stack
      rw [h.unparked]
      exact List.not_mem_nil
  | _ => trivial

lemma parkedIn_unlink (s : Loop ν) (a : ν) : parkedIn (s.unlink a).stack = parkedIn s.stack := by
  unfold Loop.unlink
  cases s.now a with
  | none => rfl
  | some e => exact parkedIn_map_drop s.stack a

omit [DecidableEq ν] in
/-- A walk that begins while no other is under way parks nothing. -/
lemma unparked_beginWalk (h : s.Held) (k : Kind) (habort : walks .abort s.stack = 0)
    (hforce : walks .force s.stack = 0) : parkedIn (s.beginWalk k).stack = [] := by
  have hcursor := h.nested.positioned.eq_none habort hforce
  show parkedIn (.walk k (s.heap.cursor_ ()) _ :: s.stack) = []
  rw [hcursor]
  exact h.unparked

lemma unparked_move (h : s.Held) (hok : NoNestedWalk s act) (hmove : Move s act s') :
    parkedIn s'.stack = [] := by
  have hparked := h.unparked
  cases hmove with
  | untrack host alive => exact (parkedIn_unlink s _).trans hparked
  | destroy host alive => exact (parkedIn_unlink s _).trans hparked
  | abortInline host first =>
      obtain ⟨habort, hforce⟩ := hok (.inr ⟨rfl, first⟩)
      exact h.unparked_beginWalk .abort habort hforce
  | forceInline host =>
      obtain ⟨habort, hforce⟩ := hok (.inl rfl)
      exact h.unparked_beginWalk .force habort hforce
  | runAbort free posted =>
      have hnone (k : Kind) : walks k s.stack = 0 := by rw [free]; rfl
      exact h.unparked_beginWalk .abort (hnone _) (hnone _)
  | runForce free posted =>
      have hnone (k : Kind) : walks k s.stack = 0 := by rw [free]; rfl
      exact h.unparked_beginWalk .force (hnone _) (hnone _)
  | ret top | walkEnd top | skipForce top =>
      rw [top] at hparked
      exact parkedIn_of_cons hparked
  | @walkCall k outer j rest node top cur alive =>
      rw [top] at hparked
      cases outer with
      | none => exact hparked
      | some b => exact absurd hparked (List.cons_ne_nil b _)
  | lateAbort top | skipAbort top | lateForce top =>
      rw [top] at hparked
      exact hparked
  | _ => exact hparked

lemma listed_move (h : s.Held) (hok : KeepsLate s act) (hmove : Move s act s')
    (hforced : s'.forced_ = true) : ∀ a ∈ owing .force s'.stack, a ∈ s'.contents := by
  -- the moves that leave the flag, the list and the `track` calls as they are
  have same (hflag : s'.forced_ = s.forced_) (hcontents : s'.contents = s.contents)
      (hstack : (owing .force s'.stack).Sublist (owing .force s.stack)) :
      ∀ a ∈ owing .force s'.stack, a ∈ s'.contents := by
    intro a ha
    rw [hcontents]
    exact h.listed (hflag ▸ hforced) a (hstack.subset ha)
  cases hmove with
  | @track a host alive free =>
      intro b hb
      rcases List.mem_cons.mp hb with rfl | hb
      · exact List.mem_cons_self ..
      · exact List.mem_cons_of_mem _ (h.listed hforced b hb)
  | @untrack a host alive =>
      rw [unlink_forced] at hforced
      exact owing_listed_unlink (h.listed hforced)
        (h.ordered.not_owing host (hok.leaving a (.inl rfl) hforced))
  | @destroy a host alive =>
      have hforced : (s.unlink a).forced_ = true := hforced
      rw [unlink_forced] at hforced
      exact owing_listed_unlink (h.listed hforced)
        (h.ordered.not_owing host (hok.leaving a (.inr rfl) hforced))
  | forceInline host =>
      -- the `track` calls that the flag is set under are about tracked abortables
      intro a ha
      have hmem : .trackForce a ∈ s.stack :=
        Classical.byContradiction fun hnot => h.ordered.not_owing host hnot ha
      exact h.nested.sound.mem_of_list.mp (hok.forcing rfl a hmem)
  | runForce free posted =>
      intro a ha
      have hnone : owing .force s.stack = [] := by rw [free]; rfl
      exact absurd (hnone ▸ ha) List.not_mem_nil
  | ret top | walkEnd top | walkCall top | lateAbort top | skipAbort top =>
      exact same rfl rfl (by rw [top]; exact List.Sublist.refl _)
  | lateForce top | skipForce top =>
      exact same rfl rfl (by rw [top]; exact List.sublist_cons_self ..)
  | abortInline | runAbort => exact same (by simp [beginWalk]) rfl (List.Sublist.refl _)
  | _ => exact same rfl rfl (List.Sublist.refl _)

lemma move (h : s.Held) (hnest : NoNestedWalk s act) (hkeep : KeepsLate s act)
    (hmove : Move s act s') : s'.Held where
  nested := h.nested.move (h.keepsParked act) hmove
  ordered := h.ordered.move hmove
  unparked := h.unparked_move hnest hmove
  listed := h.listed_move hkeep hmove

end Held

lemma held_of_reachable
    (hs : (machine (ν := ν)).ReachableUnder (fun s act => NoNestedWalk s act ∧ KeepsLate s act) s) :
    s.Held := by
  apply hs.invariant (I := Held)
  · exact ⟨⟨Sound.initial, rfl, by simp [machine, initial]⟩, Ordered.initial, rfl,
      by simp [machine, initial, owing]⟩
  · intro s act s' h hok hstep
    exact h.move hok.1 hok.2 (move_of_step hstep)

/-! ## What has left is forced all the same -/

/-- `a` has left the list, and its own `track()` has yet to come to a `forced_` that is set. -/
structure Pending (s : Loop ν) (a : ν) : Prop where
  nested : s.Nested
  faultless : s.fault = false
  forced : s.forced_ = true
  owed : .trackForce a ∈ s.stack
  left : a ∉ s.contents

namespace Pending

/-- What is under way goes on, and forces only what is tracked. -/
lemma turn (h : s.Pending a) (htracked : ∀ b, s.Forces b → b ∈ s.contents)
    (hmove : Move s act s') (hact : act = .resume ∨ act = .ret) : s'.Pending a := by
  have hnested := h.nested.move (by rcases hact with rfl | rfl <;> trivial) hmove
  have howed := h.owed
  -- the frame that is popped or changed is not the `track()` of `a`
  have below {frame : Frame ν} {rest : List (Frame ν)} (top : s.stack = frame :: rest)
      (hne : .trackForce a ≠ frame) : .trackForce a ∈ rest := by
    rw [top] at howed
    exact (List.mem_cons.mp howed).resolve_left hne
  cases hmove with
  | ret top | walkEnd top =>
      exact ⟨hnested, h.faultless, h.forced, below top (by simp), h.left⟩
  | walkCall top | lateAbort top =>
      exact ⟨hnested, h.faultless, h.forced, .tail _ (.tail _ (below top (by simp))), h.left⟩
  | skipAbort top =>
      exact ⟨hnested, h.faultless, h.forced, .tail _ (below top (by simp)), h.left⟩
  | @walkFault k outer j rest node top cur dead =>
      have hpos := h.nested.positioned
      rw [top, cur] at hpos
      have hmem : node ∈ s.contents := hpos.2.1.subset (List.mem_of_mem_head? hpos.1.symm)
      simp [h.nested.sound.alive node hmem] at dead
  | @lateForceFault b rest top forced dead =>
      have hmem := htracked b (.inr ⟨rest, top, forced⟩)
      simp [h.nested.sound.alive b hmem] at dead
  | @lateForce b rest top forced alive =>
      have hmem := htracked b (.inr ⟨rest, top, forced⟩)
      have hne : .trackForce a ≠ Frame.trackForce b := fun heq =>
        h.left (Frame.trackForce.inj heq ▸ hmem)
      exact ⟨hnested, h.faultless, h.forced, .tail _ (below top hne), h.left⟩
  | skipForce top forced => simp [h.forced] at forced
  | _ => rcases hact with hact | hact <;> cases hact

/-- Whatever comes first, an abortable that is not tracked is forced. -/
lemma exists_forces (h : s.Pending a) :
    ∃ t, machine.LeadsUnder NoNestedWalk s t ∧ ∃ b, t.Forces b ∧ t.heap.list_ b ≠ some () := by
  have hprogress : ∀ s : Loop ν, s.Pending a →
      (¬ ∃ b, s.Forces b ∧ s.heap.list_ b ≠ some ()) →
      ∃ t, machine.LeadsUnder NoNestedWalk s t ∧ t.Pending a ∧ t.weight < s.weight := by
    intro s h hnot
    have htracked : ∀ b, s.Forces b → b ∈ s.contents := fun b hb =>
      h.nested.sound.mem_of_list.mp (Classical.byContradiction fun hfree => hnot ⟨b, hb, hfree⟩)
    obtain ⟨act, s', hact, hstep⟩ := exists_turn h.faultless (List.ne_nil_of_mem h.owed)
    have hmove := move_of_step hstep
    have hok : NoNestedWalk s act := by
      rcases hact with rfl | rfl <;> simp [NoNestedWalk]
    have h' := h.turn htracked hmove hact
    exact ⟨s', .of_step hok hstep, h', weight_of_turn h.nested.leading hmove hact h'.faultless⟩
  obtain ⟨t, hlead, -, hgoal⟩ := Machine.exists_leadsUnder_of_measure weight hprogress h
  exact ⟨t, hlead, hgoal⟩

end Pending

lemma trackForce_mem_unlink (b : ν) (h : .trackForce a ∈ s.stack) :
    .trackForce a ∈ (s.unlink b).stack := by
  unfold unlink
  cases s.now b with
  | none => exact h
  | some e => exact List.mem_map.mpr ⟨_, h, rfl⟩

lemma unlink_fault (s : Loop ν) (b : ν) : (s.unlink b).fault = s.fault := by
  unfold unlink
  cases s.now b <;> rfl

/-- A step that breaks the condition leaves such an abortable. -/
lemma Held.pending_of_break (h : s.Held) (hfault : s.fault = false) (hbreak : ¬ KeepsLate s act)
    (hmove : Move s act s') : ∃ a, s'.Pending a := by
  have hnested := h.nested.move (h.keepsParked act) hmove
  obtain ⟨a, hact, hforced, hmem⟩ | ⟨rfl, a, hmem, hfree⟩ :
      (∃ a, (act = .untrack a ∨ act = .destroy a) ∧ s.forced_ = true ∧ .trackForce a ∈ s.stack) ∨
        act = .forceAll ∧ ∃ a, .trackForce a ∈ s.stack ∧ s.heap.list_ a ≠ some () :=
    Classical.byContradiction fun hnone => hbreak
      ⟨fun a hact hforced hmem => hnone (.inl ⟨a, hact, hforced, hmem⟩), fun hact a hmem =>
        Classical.byContradiction fun hfree => hnone (.inr ⟨hact, a, hmem, hfree⟩)⟩
  · have hleft := h.nested.sound.not_mem_unlink a
    have howed := trackForce_mem_unlink a hmem
    rcases hact with rfl | rfl
    · cases hmove with
      | untrack host alive =>
          exact ⟨a, hnested, (s.unlink_fault a).trans hfault, by simp [hforced], howed, hleft⟩
    · cases hmove with
      | destroy host alive =>
          refine ⟨a, hnested, (s.unlink_fault a).trans hfault, ?_, howed, hleft⟩
          show (s.unlink a).forced_ = true
          rw [unlink_forced, hforced]
  · cases hmove with
    | forceInline host =>
        refine ⟨a, hnested, hfault, ?_, .tail _ hmem, ?_⟩
        · simp [beginWalk]
        · exact fun hc => hfree (h.nested.sound.mem_of_list.mpr hc)

/-! ## The result -/

omit [DecidableEq ν] in
lemma Held.tracked_of_forces (h : s.Held) (hforces : s.Forces a) : s.heap.list_ a = some () := by
  apply h.nested.sound.mem_of_list.mpr
  rcases hforces with ⟨outer, j, rest, htop, hcursor⟩ | ⟨rest, htop, hforced⟩
  · have hpos := h.nested.positioned
    rw [htop, hcursor] at hpos
    exact hpos.2.1.subset (List.mem_of_mem_head? hpos.1.symm)
  · apply h.listed hforced a
    rw [htop]
    exact List.mem_cons_self ..

/-- **`force()` is called on what is tracked.**  In every run without nested walks in which, once
`forced_` is set, no abortable is untracked while its own `track()` has yet to look at the flag, an
abortable that the force walk or a late `track()` is about to force is linked in the list.  The
condition is exact: after a step that breaks it, and with no nested walk either, `force()` can be
called on an abortable that is not. -/
theorem forces_what_is_tracked
    (hs : (machine (ν := ν)).ReachableUnder (fun s act => NoNestedWalk s act ∧ KeepsLate s act) s) :
    (∀ a, s.Forces a → s.heap.list_ a = some ()) ∧
      ∀ act t, ¬ KeepsLate s act → s.step act = some t →
        ∃ u, machine.LeadsUnder NoNestedWalk t u ∧
          ∃ a, u.Forces a ∧ u.heap.list_ a ≠ some () := by
  have h := held_of_reachable hs
  refine ⟨fun a hforces => h.tracked_of_forces hforces, fun act t hbreak hstep => ?_⟩
  have hfault : s.fault = false := by
    unfold step at hstep
    split at hstep
    · cases hstep
    · simpa using ‹¬ s.fault = true›
  obtain ⟨a, hpending⟩ := h.pending_of_break hfault hbreak (move_of_step hstep)
  exact hpending.exists_forces

instance (s : Loop ℕ) (act : Act ℕ) : Decidable (NoNestedWalk s act) :=
  inferInstanceAs (Decidable (_ → _))

/-- `KeepsLate`, evaluated. -/
def keepsLateb (s : Loop ℕ) : Act ℕ → Bool
  | .destroy a => !(s.forced_ && s.stack.contains (.trackForce a))
  | .untrack a => !(s.forced_ && s.stack.contains (.trackForce a))
  | .forceAll => s.stack.all fun
      | .trackForce a => decide (s.heap.list_ a = some ())
      | _ => true
  | _ => true

lemma keepsLate_of_keepsLateb {s : Loop ℕ} {act : Act ℕ} (h : keepsLateb s act = true) :
    KeepsLate s act := by
  constructor
  · rintro a (rfl | rfl) hforced <;> simpa [keepsLateb, hforced] using h
  · rintro rfl a hmem
    exact of_decide_eq_true (List.all_eq_true.mp h (.trackForce a) hmem)

/-- Both walks have run over an empty list; `track(0)` calls `abort()`, which does `inside`. -/
def lateTrack (inside : List (Act ℕ)) : List (Act ℕ) :=
  List.flatten
    [[.abortAll, .resume, .forceAll, .resume, .track 0, .resume], inside, [.ret]]

theorem forces_what_is_tracked_at_lateTrack :
    ∃ s : Loop ℕ,
      (machine (ν := ℕ)).ReachableUnder (fun s act => NoNestedWalk s act ∧ KeepsLate s act) s ∧
        s.Forces 0 ∧ s.heap.list_ 0 = some () := by
  obtain ⟨s, hs, htest⟩ := machine.exists_reachableUnder_of_run
    (fun s act => decide (NoNestedWalk s act) && keepsLateb s act)
    (fun s act h => show NoNestedWalk s act ∧ KeepsLate s act by
      rw [Bool.and_eq_true] at h
      exact ⟨of_decide_eq_true h.1, keepsLate_of_keepsLateb h.2⟩)
    (lateTrack []) (fun s => decide (s.stack = [.trackForce 0] ∧ s.forced_ = true)) (by decide)
  obtain ⟨hstack, hforced⟩ := of_decide_eq_true htest
  have hforces : s.Forces 0 := .inr ⟨[], hstack, hforced⟩
  exact ⟨s, hs, hforces, (forces_what_is_tracked hs).1 0 hforces⟩

/-- An `abort()` that untracks its own abortable, and one that destroys it: in both runs, which have
no nested walks, the late `track()` goes on to call `force()` on it. -/
theorem abort_untracks_before_force :
    (∃ s : Loop ℕ, (machine (ν := ℕ)).ReachableUnder NoNestedWalk s ∧ s.Forces 0 ∧
      s.heap.list_ 0 = none) ∧
    ∃ s : Loop ℕ, (machine (ν := ℕ)).ReachableUnder NoNestedWalk s ∧ s.Forces 0 ∧
      s.dead 0 = true := by
  constructor
  · obtain ⟨s, hs, htest⟩ := machine.exists_reachableUnder_of_run
      (fun s act => decide (NoNestedWalk s act)) (fun _ _ h => of_decide_eq_true h)
      (lateTrack [.untrack 0])
      (fun s => decide (s.stack = [.trackForce 0] ∧ s.forced_ = true ∧ s.heap.list_ 0 = none))
      (by decide)
    obtain ⟨hstack, hforced, hfree⟩ := of_decide_eq_true htest
    exact ⟨s, hs, .inr ⟨[], hstack, hforced⟩, hfree⟩
  · obtain ⟨s, hs, htest⟩ := machine.exists_reachableUnder_of_run
      (fun s act => decide (NoNestedWalk s act)) (fun _ _ h => of_decide_eq_true h)
      (lateTrack [.destroy 0])
      (fun s => decide (s.stack = [.trackForce 0] ∧ s.forced_ = true ∧ s.dead 0 = true))
      (by decide)
    obtain ⟨hstack, hforced, hdead⟩ := of_decide_eq_true htest
    exact ⟨s, hs, .inr ⟨[], hstack, hforced⟩, hdead⟩

end Loop

end ReactorRuntime
