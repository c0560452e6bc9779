import ReactorRuntime.Abort.Walk

/-!
# What one move of the abort machinery can do

`Move` restates `Loop.step` as an inductive relation, one constructor for each thing a step can
do, with its guard (`move_of_step`).  Every invariant below is proved by cases on it and none
unfolds `step` again.

The first invariant is `Sound`: the pointers represent `contents`, the running episodes are
those of the listed abortables, and no listed abortable is destroyed.  It holds in every
reachable state, whatever the callbacks do.
-/

namespace ReactorRuntime

namespace Loop

variable {ν : Type*} [DecidableEq ν]

/-- Everything a step can do. -/
inductive Move : Loop ν → Act ν → Loop ν → Prop
  | track {s a} (host : s.hostTurn = true) (alive : s.dead a = false)
      (free : s.heap.list_ a = none) : Move s (.track a) (s.link a)
  | untrack {s a} (host : s.hostTurn = true) (alive : s.dead a = false) :
      Move s (.untrack a) (s.unlink a)
  | destroy {s a} (host : s.hostTurn = true) (alive : s.dead a = false) :
      Move s (.destroy a) (s.destroy a)
  | abortAgain {s} (host : s.hostTurn = true) (again : s.aborting_ = true) :
      Move s .abortAll s
  | abortInline {s} (host : s.hostTurn = true) (first : s.aborting_ = false) :
      Move s .abortAll (beginWalk .abort { s with aborting_ := true })
  | forceInline {s} (host : s.hostTurn = true) : Move s .forceAll (s.beginWalk .force)
  | ret {s k a rest} (top : s.stack = .call k a :: rest) :
      Move s .ret { s with stack := rest }
  | walkEnd {s k outer j rest} (top : s.stack = .walk k outer j :: rest)
      (cur : s.heap.cursor_ () = none) :
      Move s .resume
        { s with heap := s.heap.endEach () outer, stack := rest, done := (k, j) :: s.done }
  | walkFault {s k outer j rest node} (top : s.stack = .walk k outer j :: rest)
      (cur : s.heap.cursor_ () = some node) (dead : s.dead node = true) :
      Move s .resume { s with fault := true }
  | walkCall {s k outer j rest node} (top : s.stack = .walk k outer j :: rest)
      (cur : s.heap.cursor_ () = some node) (alive : s.dead node = false) :
      Move s .resume
        (enter k node (Episode.fromWalk k)
          { s with
            heap := s.heap.advanceEach () node
            stack := .walk k outer (j.visit node) :: rest })
  | lateAbort {s a rest} (top : s.stack = .trackAbort a :: rest) (walked : s.walked_ = true) :
      Move s .resume
        (enter .abort a (Episode.fromTrack .abort) { s with stack := .trackForce a :: rest })
  | skipAbort {s a rest} (top : s.stack = .trackAbort a :: rest) (walked : s.walked_ = false) :
      Move s .resume { s with stack := .trackForce a :: rest }
  | lateForceFault {s a rest} (top : s.stack = .trackForce a :: rest)
      (forced : s.forced_ = true) (dead : s.dead a = true) :
      Move s .resume { s with fault := true }
  | lateForce {s a rest} (top : s.stack = .trackForce a :: rest) (forced : s.forced_ = true)
      (alive : s.dead a = false) :
      Move s .resume (enter .force a (Episode.fromTrack .force) { s with stack := rest })
  | skipForce {s a rest} (top : s.stack = .trackForce a :: rest) (forced : s.forced_ = false) :
      Move s .resume { s with stack := rest }
  | requestAgain {s} (again : s.aborting_ = true) : Move s .requestAbort s
  | requestFirst {s} (first : s.aborting_ = false) :
      Move s .requestAbort { s with aborting_ := true, abortPosted := true }
  | requestForce {s} : Move s .requestForce { s with forcePosted := s.forcePosted + 1 }
  | runAbort {s} (free : s.stack = []) (posted : s.abortPosted = true) :
      Move s .runAbort (beginWalk .abort { s with abortPosted := false })
  | runForce {s} (free : s.stack = []) (posted : 0 < s.forcePosted) :
      Move s .runForce (beginWalk .force { s with forcePosted := s.forcePosted - 1 })

lemma move_of_resume {s s' : Loop ν} (h : s.resume = some s') : Move s .resume s' := by
  unfold resume at h
  split at h
  · rename_i k outer j rest top
    split at h
    · rename_i cur
      cases h
      exact .walkEnd top cur
    · rename_i node cur
      split at h
      · rename_i dead
        cases h
        exact .walkFault top cur dead
      · rename_i alive
        cases h
        exact .walkCall top cur (by simpa using alive)
  · rename_i a rest top
    split at h
    · rename_i walked
      cases h
      exact .lateAbort top walked
    · rename_i walked
      cases h
      exact .skipAbort top (by simpa using walked)
  · rename_i a rest top
    split at h
    · rename_i forced
      split at h
      · rename_i dead
        cases h
        exact .lateForceFault top forced dead
      · rename_i alive
        cases h
        exact .lateForce top forced (by simpa using alive)
    · rename_i forced
      cases h
      exact .skipForce top (by simpa using forced)
  · exact absurd h (by simp)

/-- The inversion of `step`. -/
lemma move_of_step {s s' : Loop ν} {act : Act ν} (h : s.step act = some s') : Move s act s' := by
  unfold step at h
  split at h
  · exact absurd h (by simp)
  cases act with
  | track a =>
      obtain ⟨hg, hs'⟩ := Option.ite_none_right_eq_some.mp h
      cases hs'
      exact .track hg.1 hg.2.1 hg.2.2
  | untrack a =>
      obtain ⟨hg, hs'⟩ := Option.ite_none_right_eq_some.mp h
      cases hs'
      exact .untrack hg.1 hg.2
  | destroy a =>
      obtain ⟨hg, hs'⟩ := Option.ite_none_right_eq_some.mp h
      cases hs'
      exact .destroy hg.1 hg.2
  | abortAll =>
      obtain ⟨hg, hs'⟩ := Option.ite_none_right_eq_some.mp h
      split at hs'
      · rename_i again
        cases hs'
        exact .abortAgain hg again
      · rename_i first
        cases hs'
        exact .abortInline hg (by simpa using first)
  | forceAll =>
      obtain ⟨hg, hs'⟩ := Option.ite_none_right_eq_some.mp h
      cases hs'
      exact .forceInline hg
  | ret =>
      simp only at h
      split at h
      · rename_i top
        cases h
        exact .ret top
      · exact absurd h (by simp)
  | resume => exact move_of_resume h
  | requestAbort =>
      simp only at h
      split at h
      · rename_i again
        cases h
        exact .requestAgain again
      · rename_i first
        cases h
        exact .requestFirst (by simpa using first)
  | requestForce =>
      cases h
      exact .requestForce
  | runAbort =>
      obtain ⟨hg, hs'⟩ := Option.ite_none_right_eq_some.mp h
      cases hs'
      exact .runAbort hg.1 hg.2
  | runForce =>
      obtain ⟨hg, hs'⟩ := Option.ite_none_right_eq_some.mp h
      cases hs'
      exact .runForce hg.1 hg.2

/-! ## What a removal leaves alone -/

section UnlinkFields

variable (s : Loop ν) (a : ν)

@[simp] lemma unlink_heap : (s.unlink a).heap = s.heap.remove () a := by
  unfold unlink
  cases s.now a <;> rfl

@[simp] lemma unlink_dead : (s.unlink a).dead = s.dead := by
  unfold unlink
  cases s.now a <;> rfl

@[simp] lemma unlink_aborting : (s.unlink a).aborting_ = s.aborting_ := by
  unfold unlink
  cases s.now a <;> rfl

@[simp] lemma unlink_walked : (s.unlink a).walked_ = s.walked_ := by
  unfold unlink
  cases s.now a <;> rfl

@[simp] lemma unlink_forced : (s.unlink a).forced_ = s.forced_ := by
  unfold unlink
  cases s.now a <;> rfl

@[simp] lemma unlink_abortPosted : (s.unlink a).abortPosted = s.abortPosted := by
  unfold unlink
  cases s.now a <;> rfl

@[simp] lemma unlink_log : (s.unlink a).log = s.log := by
  unfold unlink
  cases s.now a <;> rfl

@[simp] lemma unlink_done : (s.unlink a).done = s.done := by
  unfold unlink
  cases s.now a <;> rfl

end UnlinkFields

/-! ## The pointers represent the contents -/

/-- The recorded contents, episodes and destructions agree with the code's fields. -/
structure Sound (s : Loop ν) : Prop where
  repr : s.heap.Represents () s.contents
  running : ∀ a, (s.now a).isSome = true ↔ a ∈ s.contents
  alive : ∀ a ∈ s.contents, s.dead a = false

namespace Sound

variable {s : Loop ν}

omit [DecidableEq ν] in
lemma initial : (Loop.initial : Loop ν).Sound where
  repr := Heap.Represents.empty ()
  running := by simp [Loop.initial]
  alive := by simp [Loop.initial]

omit [DecidableEq ν] in
/-- Cursor moves, stack changes and entries in running episodes keep the agreement. -/
lemma congr {s' : Loop ν} (h : s.Sound) (c : Unit → Option ν)
    (hheap : s'.heap = { s.heap with cursor_ := c }) (hcontents : s'.contents = s.contents)
    (hnow : ∀ a, (s'.now a).isSome = (s.now a).isSome) (hdead : s'.dead = s.dead) :
    s'.Sound where
  repr := by
    rw [hheap, hcontents]
    exact h.repr.of_cursor c
  running := by
    intro a
    rw [hnow, hcontents, h.running]
  alive := by
    rw [hcontents, hdead]
    exact h.alive

omit [DecidableEq ν] in
/-- As `congr`, for a move that leaves the heap and the episodes as they are. -/
lemma congr_heap {s' : Loop ν} (h : s.Sound) (hheap : s'.heap = s.heap)
    (hcontents : s'.contents = s.contents) (hnow : s'.now = s.now) (hdead : s'.dead = s.dead) :
    s'.Sound :=
  h.congr s.heap.cursor_ (by rw [hheap]) hcontents (fun a => by rw [hnow]) hdead

omit [DecidableEq ν] in
lemma mem_of_list (h : s.Sound) {a : ν} : s.heap.list_ a = some () ↔ a ∈ s.contents :=
  h.repr.member a

omit [DecidableEq ν] in
lemma not_mem_of_free (h : s.Sound) {a : ν} (free : s.heap.list_ a = none) :
    a ∉ s.contents := by
  intro hc
  rw [h.mem_of_list.mpr hc] at free
  simp at free

omit [DecidableEq ν] in
lemma now_none (h : s.Sound) {a : ν} : s.now a = none ↔ a ∉ s.contents := by
  rw [← h.running a]
  cases s.now a <;> simp

lemma link (h : s.Sound) {a : ν} (alive : s.dead a = false) (free : s.heap.list_ a = none) :
    (s.link a).Sound where
  repr := h.repr.add (h.not_mem_of_free free)
  running := by
    intro b
    by_cases hb : b = a
    · simp [Loop.link, hb]
    · simp [Loop.link, hb, h.running b]
  alive := by
    intro b hb
    rcases List.mem_cons.mp hb with rfl | hb
    · exact alive
    · exact h.alive b hb

lemma unlink (h : s.Sound) (a : ν) : (s.unlink a).Sound := by
  unfold Loop.unlink
  cases hnow : s.now a with
  | none =>
      have hrepr := h.repr.remove a
      rw [List.erase_of_not_mem (h.now_none.mp hnow)] at hrepr
      exact ⟨hrepr, h.running, h.alive⟩
  | some e =>
      refine ⟨h.repr.remove a, fun b => ?_, fun b hb => h.alive b (List.mem_of_mem_erase hb)⟩
      by_cases hb : b = a
      · simp [hb, h.repr.nodup.not_mem_erase]
      · simp [hb, List.mem_erase_of_ne hb, h.running b]

lemma not_mem_unlink (h : s.Sound) (a : ν) : a ∉ (s.unlink a).contents := by
  unfold Loop.unlink
  cases hnow : s.now a with
  | none => exact h.now_none.mp hnow
  | some e => exact h.repr.nodup.not_mem_erase

lemma unlinkOnDestroy_eq (h : Heap Unit ν) (a : ν) :
    h.unlinkOnDestroy a = h.remove () a := by
  unfold Heap.unlinkOnDestroy
  cases hl : h.list_ a with
  | none => exact (Heap.remove_of_ne (by simp [hl])).symm
  | some this => rfl

lemma destroy (h : s.Sound) (a : ν) : (s.destroy a).Sound := by
  have hun := h.unlink a
  refine ⟨?_, hun.running, fun b hb => ?_⟩
  · simpa [Loop.destroy, unlinkOnDestroy_eq] using hun.repr
  · have hba : b ≠ a := fun hc => h.not_mem_unlink a (hc ▸ hb)
    simpa [Loop.destroy, Function.update_of_ne hba] using hun.alive b hb

omit [DecidableEq ν] in
lemma beginWalk (h : s.Sound) (k : Kind) : (s.beginWalk k).Sound :=
  h.congr _ rfl rfl (fun a => by simp [Loop.beginWalk]) rfl

lemma enter (h : s.Sound) (k : Kind) (a : ν) (note : Episode → Episode) :
    (s.enter k a note).Sound :=
  h.congr s.heap.cursor_ rfl rfl
    (fun b => by by_cases hb : b = a <;> simp [Loop.enter, hb]) rfl

lemma move {s' : Loop ν} {act : Act ν} (h : s.Sound) (hmove : Move s act s') : s'.Sound := by
  cases hmove with
  | track _ alive free => exact h.link alive free
  | untrack _ _ => exact h.unlink _
  | destroy _ _ => exact h.destroy _
  | abortInline =>
      refine Sound.beginWalk ?_ _
      exact h.congr_heap rfl rfl rfl rfl
  | forceInline => exact h.beginWalk _
  | walkEnd => exact h.congr _ rfl rfl (fun _ => rfl) rfl
  | walkCall top cur alive =>
      refine Sound.enter ?_ _ _ _
      exact h.congr _ rfl rfl (fun _ => rfl) rfl
  | lateAbort =>
      refine Sound.enter ?_ _ _ _
      exact h.congr_heap rfl rfl rfl rfl
  | lateForce =>
      refine Sound.enter ?_ _ _ _
      exact h.congr_heap rfl rfl rfl rfl
  | runAbort =>
      refine Sound.beginWalk ?_ _
      exact h.congr_heap rfl rfl rfl rfl
  | runForce =>
      refine Sound.beginWalk ?_ _
      exact h.congr_heap rfl rfl rfl rfl
  | _ => exact h.congr_heap rfl rfl rfl rfl

end Sound

/-- The pointers and the record agree in every reachable state. -/
theorem sound_of_reachable {s : Loop ν} (h : (machine (ν := ν)).Reachable s) : s.Sound :=
  h.invariant Sound.initial fun _ _ _ hs _ hstep => hs.move (move_of_step hstep)

/-! ## The flags stay set -/

lemma walked_of_move {s s' : Loop ν} {act : Act ν} (hmove : Move s act s')
    (h : s.walked_ = true) : s'.walked_ = true := by
  cases hmove with
  | untrack => simpa using h
  | destroy => simpa [destroy] using h
  | abortInline => simp [beginWalk]
  | forceInline => simp [beginWalk, h]
  | runAbort => simp [beginWalk]
  | runForce => simp [beginWalk, h]
  | _ => exact h

lemma aborting_of_move {s s' : Loop ν} {act : Act ν} (hmove : Move s act s')
    (h : s.aborting_ = true) : s'.aborting_ = true := by
  cases hmove with
  | untrack => simpa using h
  | destroy => simpa [destroy] using h
  | _ => first | exact h | rfl

end Loop

end ReactorRuntime
