import ReactorRuntime.Abort.Ledger

/-!
# Every tracking episode is called exactly once

The account of `ReactorRuntime.Abort.Ledger` is kept along whole runs.

For `abort()` it is kept in every run that starts no `force_all()` inside a callback: the abort
walk is then the innermost walk whenever it is under way, so its position is the cursor, which
`remove` repairs; and `track` reaches its `if (walked_)` before any other code can run.

For `force()` with one `force_all()` two things can go wrong.  A callback that runs between the two
statements of a late `track(a)`, the `abort()` that this `track` itself makes, may untrack `a` and
track it again: the second `track` and then the first one both call `force()` on it
(`retracking_forces_twice`).  And an abort walk started inside the force walk parks the
force walk's position, as in `ReactorRuntime.Abort.Nesting`.  In every run that does neither the
account is kept.
-/

namespace ReactorRuntime

namespace Loop

variable {ν : Type*} [DecidableEq ν]

/-- `force_all()` is not called from inside a callback. -/
def NoNestedForce (s : Loop ν) (act : Act ν) : Prop := act = .forceAll → s.stack = []

/-- There is one `force_all()`, and it is not called from inside a callback. -/
def OneForce (s : Loop ν) (act : Act ν) : Prop :=
  NoNestedForce s act ∧ (begins .force act = true → s.forced_ = false)

/-- No abortable is untracked or destroyed while an enclosing walk is parked on it, nor, once
`forced_` is set, while a `track` call of its own is about to force it. -/
def LeavesAlone (s : Loop ν) (act : Act ν) : Prop :=
  KeepsParked s act ∧
    ∀ a, act = .untrack a ∨ act = .destroy a → s.forced_ = true → .trackForce a ∉ s.stack

/-! ## Facts that hold in every run -/

/-- The `track` calls on the stack, and the flags of the abort walk. -/
structure Ordered (s : Loop ν) : Prop where
  /-- Nothing runs between `aborts_.add(a)` and `if (walked_)`. -/
  top_only : ∀ a, .trackAbort a ∉ s.stack.tail
  listed : ∀ a rest, s.stack = .trackAbort a :: rest → a ∈ s.contents
  posted : s.abortPosted = true → s.aborting_ = true ∧ s.walked_ = false
  walked : s.walked_ = true → s.aborting_ = true

namespace Ordered

variable {s s' : Loop ν}

omit [DecidableEq ν] in
/-- While host code runs no `track` call is before its first statement. -/
lemma not_mem_of_host (h : s.Ordered) (host : s.hostTurn = true) (a : ν) :
    .trackAbort a ∉ s.stack := by
  intro hc
  rcases hs : s.stack with _ | ⟨frame, rest⟩
  · simp [hs] at hc
  · rw [hs] at hc
    rcases List.mem_cons.mp hc with rfl | hc
    · simp [hostTurn, hs] at host
    · exact h.top_only a (by simpa [hs] using hc)

omit [DecidableEq ν] in
lemma not_mem_rest (h : s.Ordered) {frame : Frame ν} {rest : List (Frame ν)}
    (top : s.stack = frame :: rest) (a : ν) : .trackAbort a ∉ rest := by
  simpa [top] using h.top_only a

omit [DecidableEq ν] in
/-- A stack on which nothing is before its first statement. -/
lemma of_not_mem (hstack : ∀ a, .trackAbort a ∉ s.stack)
    (hposted : s.abortPosted = true → s.aborting_ = true ∧ s.walked_ = false)
    (hwalked : s.walked_ = true → s.aborting_ = true) : s.Ordered where
  top_only a hc := hstack a (List.mem_of_mem_tail hc)
  listed a _ htop := absurd (htop ▸ List.mem_cons_self ..) (hstack a)
  posted := hposted
  walked := hwalked

lemma not_mem_map_drop {stack : List (Frame ν)} {b : ν} (a : ν) (h : .trackAbort a ∉ stack) :
    .trackAbort a ∉ stack.map (Frame.drop b) := by
  intro hc
  obtain ⟨frame, hmem, heq⟩ := List.mem_map.mp hc
  cases frame <;> simp [Frame.drop] at heq
  exact h (heq ▸ hmem)

lemma unlink (h : s.Ordered) (host : s.hostTurn = true) (a : ν) : (s.unlink a).Ordered := by
  unfold Loop.unlink
  cases s.now a with
  | none => exact of_not_mem (h.not_mem_of_host host) h.posted h.walked
  | some e =>
      exact of_not_mem (fun b => not_mem_map_drop b (h.not_mem_of_host host b)) h.posted h.walked

lemma move {act : Act ν} (h : s.Ordered) (hmove : Move s act s') : s'.Ordered := by
  cases hmove with
  | @track a host alive free =>
      refine ⟨fun b => h.not_mem_of_host host b, ?_, h.posted, h.walked⟩
      intro b rest htop
      obtain ⟨rfl, -⟩ : a = b ∧ _ := by simpa [link] using htop
      simp [link]
  | untrack host => exact h.unlink host _
  | destroy host =>
      have hun := h.unlink host
      exact ⟨(hun _).top_only, (hun _).listed, (hun _).posted, (hun _).walked⟩
  | abortInline host first =>
      refine of_not_mem (fun a => by simpa [beginWalk] using h.not_mem_of_host host a)
        (fun hp => ?_) fun _ => rfl
      exact absurd (h.posted hp).1 (by simp [first])
  | forceInline host =>
      refine of_not_mem (fun a => by simpa [beginWalk] using h.not_mem_of_host host a) ?_ ?_
      · simpa [beginWalk] using h.posted
      · simpa [beginWalk] using h.walked
  | ret top => exact of_not_mem (h.not_mem_rest top) h.posted h.walked
  | walkEnd top cur => exact of_not_mem (h.not_mem_rest top) h.posted h.walked
  | walkCall top cur alive =>
      exact of_not_mem (fun a => by simpa [enter] using h.not_mem_rest top a) h.posted h.walked
  | lateAbort top walked =>
      exact of_not_mem (fun a => by simpa [enter] using h.not_mem_rest top a) h.posted h.walked
  | skipAbort top walked =>
      exact of_not_mem (fun a => by simpa using h.not_mem_rest top a) h.posted h.walked
  | lateForce top forced alive =>
      exact of_not_mem (fun a => by simpa [enter] using h.not_mem_rest top a) h.posted h.walked
  | skipForce top forced => exact of_not_mem (h.not_mem_rest top) h.posted h.walked
  | requestFirst first =>
      refine ⟨h.top_only, h.listed, fun _ => ⟨rfl, ?_⟩, fun _ => rfl⟩
      cases hw : s.walked_ with
      | true => exact absurd (h.walked hw) (by simp [first])
      | false => rfl
  | runAbort free posted =>
      exact of_not_mem (fun a => by simp [beginWalk, free]) (by simp [beginWalk])
        fun _ => (h.posted posted).1
  | runForce free posted =>
      refine of_not_mem (fun a => by simp [beginWalk, free]) ?_ ?_
      · simpa [beginWalk] using h.posted
      · simpa [beginWalk] using h.walked
  | _ => exact ⟨h.top_only, h.listed, h.posted, h.walked⟩

omit [DecidableEq ν] in
lemma owing_abort_of_not_mem {stack : List (Frame ν)} (h : ∀ a, .trackAbort a ∉ stack) :
    owing .abort stack = [] := by
  unfold owing
  rw [List.filterMap_eq_nil_iff]
  intro frame hmem
  cases frame with
  | trackAbort a => exact absurd hmem (h a)
  | _ => rfl

omit [DecidableEq ν] in
/-- At most the topmost frame owes an `abort()`, and to a listed abortable. -/
lemma owing_abort (h : s.Ordered) :
    (owing .abort s.stack).Nodup ∧ ∀ a ∈ owing .abort s.stack, a ∈ s.contents := by
  rcases hs : s.stack with _ | ⟨frame, rest⟩
  · simp [owing]
  · have hrest := owing_abort_of_not_mem (h.not_mem_rest hs)
    cases frame with
    | trackAbort a =>
        have : owing .abort (.trackAbort a :: rest) = [a] := by
          rw [← hrest]
          rfl
        simpa [this] using h.listed a rest hs
    | _ =>
        rw [show owing .abort (_ :: rest) = owing .abort rest from rfl, hrest]
        simp

end Ordered

/-! ## One walk of a kind -/

/-- The walks of kind `k` on a stack. -/
def walks (k : Kind) (stack : List (Frame ν)) : ℕ := stack.countP (Frame.isWalk k)

/-- There has been one walk of kind `k`, which is under way or has ended, or none if the flag of the
kind is not set. -/
def Solo (k : Kind) (s : Loop ν) : Prop :=
  walks k s.stack + s.done.countP (fun kj => kj.1 = k) = (s.begun k).toNat

namespace Solo

variable {k : Kind} {s s' : Loop ν}

lemma walks_map_drop (stack : List (Frame ν)) (a : ν) :
    walks k (stack.map (Frame.drop a)) = walks k stack := by
  unfold walks
  rw [List.countP_map]
  congr 1
  funext frame
  cases frame <;> rfl

lemma unlink (h : Solo k s) (a : ν) : Solo k (s.unlink a) := by
  unfold Loop.unlink
  cases s.now a with
  | none => exact h
  | some e =>
      change walks k (s.stack.map (Frame.drop a)) + _ = (s.begun k).toNat
      rw [walks_map_drop]
      exact h

omit [DecidableEq ν] in
/-- Frames that are no walks come and go. -/
lemma restack (h : Solo k s) (hbegun : s'.begun = s.begun) (hdone : s'.done = s.done)
    (hstack : walks k s'.stack = walks k s.stack) : Solo k s' := by
  unfold Solo
  rw [hbegun, hdone, hstack]
  exact h

omit [DecidableEq ν] in
lemma beginWalk (h : Solo k s) (k' : Kind) (hfirst : k' = k → s.begun k = false) :
    Solo k (s.beginWalk k') := by
  unfold Solo at *
  by_cases hk : k' = k
  · subst hk
    rw [hfirst rfl] at h
    have hb : (s.beginWalk k').begun k' = true := by cases k' <;> simp [begun, Loop.beginWalk]
    have hs : walks k' (s.beginWalk k').stack = walks k' s.stack + 1 :=
      List.countP_cons_of_pos (by simp [Frame.isWalk])
    have hd : (s.beginWalk k').done = s.done := rfl
    rw [hb, hs, hd]
    simp only [Bool.toNat_false, Bool.toNat_true] at h ⊢
    omega
  · have hb : (s.beginWalk k').begun k = s.begun k := by
      cases k <;> cases k' <;> simp_all [begun, Loop.beginWalk]
    have hs : walks k (s.beginWalk k').stack = walks k s.stack :=
      List.countP_cons_of_neg (by simp [Frame.isWalk, hk])
    rwa [hb, hs]

omit [DecidableEq ν] in
/-- The end of a walk moves it from the stack to `done`. -/
lemma walkEnd (h : Solo k s) {k' : Kind} {outer : Option ν} {j : Journal ν}
    {rest : List (Frame ν)} (top : s.stack = .walk k' outer j :: rest) :
    Solo k { s with
      heap := s.heap.endEach () outer, stack := rest, done := (k', j) :: s.done } := by
  have h' : walks k s.stack + s.done.countP (fun kj => kj.1 = k) = (s.begun k).toNat := h
  change walks k rest + ((k', j) :: s.done).countP (fun kj => kj.1 = k) = (s.begun k).toNat
  rw [← h', top, walks, walks, List.countP_cons, List.countP_cons]
  by_cases hk : k' = k <;> simp [Frame.isWalk, hk]
  omega

lemma move {act : Act ν} (h : Solo k s) (hmove : Move s act s')
    (hfirst : begins k act = true → s' = s ∨ s.begun k = false) : Solo k s' := by
  -- a walk of kind `k'` begins after the change of a flag that does not count
  have begin_ : ∀ (k' : Kind) (s₁ : Loop ν), Solo k s₁ → s₁.begun = s.begun →
      s' = s₁.beginWalk k' → (k' = k → begins k act = true) → Solo k s' := by
    rintro k' s₁ h₁ hbegun rfl hk
    by_cases hkk : k' = k
    · rcases hfirst (hk hkk) with hsame | hb
      · rwa [hsame]
      · exact h₁.beginWalk _ fun _ => by rwa [hbegun]
    · exact h₁.beginWalk _ fun hc => absurd hc hkk
  cases hmove with
  | track => exact h.restack rfl rfl (by simp [walks, link, Frame.isWalk])
  | untrack => exact h.unlink _
  | destroy => exact h.unlink _
  | abortInline => exact begin_ .abort { s with aborting_ := true } h rfl rfl (by rintro rfl; rfl)
  | forceInline => exact begin_ .force s h rfl rfl (by rintro rfl; rfl)
  | ret top => exact h.restack rfl rfl (by simp [walks, top, Frame.isWalk])
  | walkEnd top => exact h.walkEnd top
  | walkCall top =>
      exact h.restack rfl rfl (by simp [walks, top, enter, List.countP_cons, Frame.isWalk])
  | lateAbort top => exact h.restack rfl rfl (by simp [walks, top, enter, Frame.isWalk])
  | skipAbort top => exact h.restack rfl rfl (by simp [walks, top, Frame.isWalk])
  | lateForce top => exact h.restack rfl rfl (by simp [walks, top, enter, Frame.isWalk])
  | skipForce top => exact h.restack rfl rfl (by simp [walks, top, Frame.isWalk])
  | runAbort => exact begin_ .abort { s with abortPosted := false } h rfl rfl (by rintro rfl; rfl)
  | runForce =>
      exact begin_ .force { s with forcePosted := s.forcePosted - 1 } h rfl rfl (by rintro rfl; rfl)
  | _ => exact h

omit [DecidableEq ν] in
lemma walks_le (h : Solo k s) : walks k s.stack ≤ (s.begun k).toNat :=
  h ▸ Nat.le_add_right ..

end Solo

/-! ## The innermost walk -/

/-- The innermost walk of the stack, if it is of kind `k`, stands at the cursor `c`, and no walk of
that kind lies under it. -/
def Fronted (k : Kind) (contents : List ν) (c : Option ν) : List (Frame ν) → Prop
  | [] => True
  | .walk k' _ j :: rest =>
      (k' = k → c = j.todo.head? ∧ j.todo <:+ contents) ∧ walks k rest = 0
  | _ :: rest => Fronted k contents c rest

namespace Fronted

variable {k : Kind} {contents : List ν} {c : Option ν} {stack : List (Frame ν)}

omit [DecidableEq ν] in
/-- With no walk of the kind under way the cursor does not matter. -/
lemma of_none (h : walks k stack = 0) : Fronted k contents c stack := by
  induction stack with
  | nil => trivial
  | cons frame rest ih =>
      rw [walks, List.countP_cons, Nat.add_eq_zero_iff] at h
      cases frame with
      | walk k' outer j =>
          have hk : k' ≠ k := by
            rintro rfl
            simp [Frame.isWalk] at h
          exact ⟨fun hc => absurd hc hk, h.1⟩
      | call k' a => exact ih h.1
      | trackAbort a => exact ih h.1
      | trackForce a => exact ih h.1

omit [DecidableEq ν] in
lemma mono {contents' : List ν} (h : Fronted k contents c stack) (hc : contents <:+ contents') :
    Fronted k contents' c stack := by
  induction stack with
  | nil => trivial
  | cons frame rest ih =>
      cases frame with
      | walk k' outer j => exact ⟨fun hk => ⟨(h.1 hk).1, (h.1 hk).2.trans hc⟩, h.2⟩
      | call k' a => exact ih h
      | trackAbort a => exact ih h
      | trackForce a => exact ih h

/-- A removal repairs the cursor, which is all the innermost walk depends on. -/
lemma drop {c' : Option ν} {a : ν} (h : Fronted k contents c stack) (hnd : contents.Nodup)
    (hc : ∀ t, t <:+ contents → c = t.head? → c' = (t.erase a).head?) :
    Fronted k (contents.erase a) c' (stack.map (Frame.drop a)) := by
  induction stack with
  | nil => trivial
  | cons frame rest ih =>
      cases frame with
      | walk k' outer j =>
          refine ⟨fun hk => ?_, by rw [Solo.walks_map_drop]; exact h.2⟩
          obtain ⟨hpos, hsuf⟩ := h.1 hk
          rw [Journal.drop_todo]
          exact ⟨hc j.todo hsuf hpos, Journal.erase_suffix_erase hsuf hnd a⟩
      | call k' b => exact ih h
      | trackAbort b => exact ih h
      | trackForce b => exact ih h

omit [DecidableEq ν] in
lemma suffix_of_mem {outer : Option ν} {j : Journal ν} (h : Fronted k contents c stack)
    (hmem : .walk k outer j ∈ stack) : j.todo <:+ contents := by
  induction stack with
  | nil => simp at hmem
  | cons frame rest ih =>
      cases frame with
      | walk k' outer' j' =>
          rcases List.mem_cons.mp hmem with heq | hmem
          · cases heq
            exact (h.1 rfl).2
          · exact absurd (List.countP_eq_zero.mp h.2 _ hmem) (by simp [Frame.isWalk])
      | call k' a => exact ih h (by simpa using hmem)
      | trackAbort a => exact ih h (by simpa using hmem)
      | trackForce a => exact ih h (by simpa using hmem)

end Fronted

/-- The walk of kind `k`, if it is under way, is the innermost one and stands at the cursor. -/
def AtFront (k : Kind) (s : Loop ν) : Prop := Fronted k s.contents (s.heap.cursor_ ()) s.stack

namespace AtFront

variable {k : Kind} {s s' : Loop ν}

omit [DecidableEq ν] in
lemma top (h : AtFront k s) {frame : Frame ν} {rest : List (Frame ν)}
    (htop : s.stack = frame :: rest) :
    Fronted k s.contents (s.heap.cursor_ ()) (frame :: rest) := htop ▸ h

lemma unlink (h : AtFront k s) (hsound : s.Sound) (a : ν) :
    Fronted k (s.unlink a).contents ((s.heap.remove () a).cursor_ ()) (s.unlink a).stack := by
  unfold Loop.unlink
  cases hnow : s.now a with
  | none =>
      have hfree : a ∉ s.contents := hsound.now_none.mp hnow
      rw [Heap.remove_of_ne fun hc => hfree (hsound.mem_of_list.mp hc)]
      exact h
  | some e =>
      exact Fronted.drop h hsound.repr.nodup fun t ht hc => hsound.repr.remove_cursor_suffix ht hc a

omit [DecidableEq ν] in
/-- A walk begins at the head of the list, while none of kind `k` is under way. -/
lemma beginWalk (hsound : s.Sound) (hnone : walks k s.stack = 0) (k' : Kind) :
    AtFront k (s.beginWalk k') := by
  refine ⟨fun _ => ⟨?_, List.suffix_refl _⟩, hnone⟩
  simpa [Loop.beginWalk, Heap.beginEach, Journal.begin] using hsound.repr.threads.head_eq

/-- The turn of a walk; one of kind `k` moves on to the next node of the list. -/
lemma walkCall (h : AtFront k s) (hsound : s.Sound) {k' : Kind} {outer : Option ν} {j : Journal ν}
    {rest : List (Frame ν)} {node : ν} (htop : s.stack = .walk k' outer j :: rest)
    (cur : s.heap.cursor_ () = some node) :
    Fronted k s.contents (s.heap.next_ node) (.walk k' outer (j.visit node) :: rest) := by
  obtain ⟨hpos, hrest⟩ := h.top htop
  refine ⟨fun hk => ?_, hrest⟩
  obtain ⟨hlead, hsuf⟩ := hpos hk
  rw [cur] at hlead
  obtain ⟨t, ht⟩ : ∃ t, j.todo = node :: t := List.head?_eq_some_iff.mp hlead.symm
  rw [Journal.visit_head ht]
  exact ⟨hsound.repr.threads.next_of_suffix (ht ▸ hsuf),
    (List.suffix_cons node t).trans (ht ▸ hsuf)⟩

/-- A walk of kind `k` stays in front if no walk begins while one of that kind is under way. -/
lemma move {act : Act ν} (h : AtFront k s) (hsound : s.Sound) (hmove : Move s act s')
    (hbegin : begins .abort act = true ∨ begins .force act = true →
      s' = s ∨ walks k s.stack = 0) : AtFront k s' := by
  have begin_ : ∀ (k' : Kind) (s₁ : Loop ν), s₁.Sound → s₁.stack = s.stack →
      s' = s₁.beginWalk k' → s' = s ∨ walks k s.stack = 0 → AtFront k s' := by
    rintro k' s₁ hsound₁ hstack rfl (hsame | hnone)
    · rwa [hsame]
    · exact beginWalk hsound₁ (by rwa [hstack]) k'
  have hcongr : ∀ s₁ : Loop ν, s₁.heap = s.heap → s₁.contents = s.contents → s₁.now = s.now →
      s₁.dead = s.dead → s₁.Sound := fun _ => hsound.congr_heap
  cases hmove with
  | track => simpa [AtFront, link, Fronted] using Fronted.mono h (List.suffix_cons _ _)
  | untrack =>
      rw [AtFront, unlink_heap]
      exact h.unlink hsound _
  | destroy =>
      have := h.unlink hsound
      simpa [AtFront, destroy, Sound.unlinkOnDestroy_eq] using this _
  | abortInline =>
      exact begin_ .abort { s with aborting_ := true } (hcongr _ rfl rfl rfl rfl) rfl rfl
        (hbegin (.inl rfl))
  | forceInline => exact begin_ .force s hsound rfl rfl (hbegin (.inr rfl))
  | walkEnd htop cur => exact Fronted.of_none (h.top htop).2
  | walkCall htop cur alive =>
      simpa [AtFront, enter, Fronted, Heap.advanceEach] using h.walkCall hsound htop cur
  | ret htop =>
      have := h.top htop
      exact this
  | lateAbort htop =>
      have := h.top htop
      exact this
  | skipAbort htop =>
      have := h.top htop
      exact this
  | lateForce htop =>
      have := h.top htop
      exact this
  | skipForce htop =>
      have := h.top htop
      exact this
  | runAbort =>
      exact begin_ .abort { s with abortPosted := false } (hcongr _ rfl rfl rfl rfl) rfl rfl
        (hbegin (.inl rfl))
  | runForce =>
      exact begin_ .force { s with forcePosted := s.forcePosted - 1 } (hcongr _ rfl rfl rfl rfl) rfl
        rfl (hbegin (.inr rfl))
  | _ => exact h

end AtFront

/-! ## The abort walk -/

/-- The abort walk starts once, and while no `track` call is before its first statement. -/
lemma Ordered.abort_first {s s' : Loop ν} {act : Act ν} (h : s.Ordered) (hmove : Move s act s')
    (hbegins : begins .abort act = true) :
    s' = s ∨ s.begun .abort = false ∧ owing .abort s.stack = [] := by
  cases hmove with
  | abortAgain => exact .inl rfl
  | abortInline host first =>
      refine .inr ⟨?_, owing_abort_of_not_mem (h.not_mem_of_host host)⟩
      exact Bool.eq_false_iff.mpr fun hw => by simp [h.walked hw] at first
  | runAbort free posted => exact .inr ⟨(h.posted posted).2, by simp [free, owing]⟩
  | _ => simp [begins] at hbegins

/-- A force walk that is not nested begins on an empty stack. -/
lemma NoNestedForce.stack_nil {s s' : Loop ν} {act : Act ν} (hok : NoNestedForce s act)
    (hmove : Move s act s') (hbegins : begins .force act = true) : s.stack = [] := by
  cases hmove with
  | forceInline => exact hok rfl
  | runForce free => exact free
  | _ => simp [begins] at hbegins

/-- What is kept in every run without a nested `force_all()`. -/
structure AbortSide (s : Loop ν) : Prop where
  sound : s.Sound
  ordered : s.Ordered
  solo : Solo .abort s
  front : AtFront .abort s
  ledger : Ledger .abort s

namespace AbortSide

variable {s s' : Loop ν}

lemma guide (h : s.AbortSide) : Guide .abort s where
  sound := h.sound
  lead _ _ _ htop := ((h.front.top htop).1 rfl).1
  listed _ _ hmem := Fronted.suffix_of_mem h.front hmem
  solo := h.solo.walks_le
  owing_nodup _ := h.ordered.owing_abort.1
  owing_listed _ := h.ordered.owing_abort.2

lemma move {act : Act ν} (h : s.AbortSide) (hok : NoNestedForce s act) (hmove : Move s act s') :
    s'.AbortSide where
  sound := h.sound.move hmove
  ordered := h.ordered.move hmove
  solo := h.solo.move hmove fun hb => (h.ordered.abort_first hmove hb).imp id And.left
  front := by
    refine h.front.move h.sound hmove ?_
    rintro (hb | hb)
    · refine (h.ordered.abort_first hmove hb).imp id fun ⟨hunbegun, _⟩ => ?_
      simpa [hunbegun] using h.solo.walks_le
    · exact .inr (by simp [hok.stack_nil hmove hb, walks])
  ledger := by
    refine h.ledger.move h.guide hmove (fun a hact => ?_) (h.ordered.abort_first hmove)
    have host : s.hostTurn = true := by
      rcases hact with rfl | rfl <;> cases hmove <;> assumption
    simp [owed, Ordered.owing_abort_of_not_mem (h.ordered.not_mem_of_host host)]

end AbortSide

omit [DecidableEq ν] in
lemma Ordered.initial : (Loop.initial : Loop ν).Ordered :=
  of_not_mem (by simp [Loop.initial]) (by simp [Loop.initial]) (by simp [Loop.initial])

lemma Ledger.initial (k : Kind) : Ledger k (Loop.initial : Loop ν) :=
  ⟨by simp [Loop.initial], by simp [Loop.initial], by simp [Loop.initial]⟩

lemma abortSide_of_reachable {s : Loop ν}
    (h : (machine (ν := ν)).ReachableUnder NoNestedForce s) : s.AbortSide :=
  h.invariant ⟨Sound.initial, Ordered.initial, rfl, trivial, Ledger.initial _⟩
    fun _ _ _ hs hok hstep => hs.move hok (move_of_step hstep)

/-! ## The force walk -/

/-- What is kept in every run with one `force_all()` that leaves alone what it is about to force. -/
structure ForceSide (s : Loop ν) : Prop where
  nested : s.Nested
  ordered : s.Ordered
  solo : Solo .force s
  owing_nodup : s.forced_ = true → (owing .force s.stack).Nodup
  owing_listed : s.forced_ = true → ∀ a ∈ owing .force s.stack, a ∈ s.contents
  ledger : Ledger .force s

omit [DecidableEq ν] in
lemma Positioned.suffix_of_mem {contents : List ν} {stack : List (Frame ν)} {p : Option ν}
    {k : Kind} {outer : Option ν} {j : Journal ν} (h : Positioned contents p stack)
    (hmem : .walk k outer j ∈ stack) : j.todo <:+ contents := by
  induction stack generalizing p with
  | nil => simp at hmem
  | cons frame rest ih =>
      cases frame with
      | walk k' outer' j' =>
          rcases List.mem_cons.mp hmem with heq | hmem
          · cases heq
            exact h.2.1
          · exact ih h.2.2.2 hmem
      | call k' b => exact ih (p := p) h (by simpa using hmem)
      | trackAbort b => exact ih (p := p) h (by simpa using hmem)
      | trackForce b => exact ih (p := p) h (by simpa using hmem)

omit [DecidableEq ν] in
/-- While host code runs, the `track` calls that have yet to look at `forced_` are those before that
statement. -/
lemma Ordered.not_owing {s : Loop ν} (h : s.Ordered) {a : ν} (host : s.hostTurn = true)
    (hleave : .trackForce a ∉ s.stack) : a ∉ owing .force s.stack := by
  intro hc
  obtain ⟨frame, hmem, howes⟩ := List.mem_filterMap.mp hc
  cases frame with
  | trackAbort b => exact h.not_mem_of_host host b hmem
  | trackForce b =>
      obtain rfl : b = a := by simpa [Frame.owes] using howes
      exact hleave hmem
  | walk k outer j => simp [Frame.owes] at howes
  | call k b => simp [Frame.owes] at howes

lemma owing_unlink (s : Loop ν) (a : ν) :
    owing .force (s.unlink a).stack = owing .force s.stack := by
  unfold Loop.unlink
  cases s.now a with
  | none => rfl
  | some e => exact Ledger.owing_map_drop s.stack a

/-- What the `track` calls are about stays listed when another abortable leaves. -/
lemma owing_listed_unlink {s : Loop ν} {a : ν} (h : ∀ b ∈ owing .force s.stack, b ∈ s.contents)
    (ha : a ∉ owing .force s.stack) :
    ∀ b ∈ owing .force (s.unlink a).stack, b ∈ (s.unlink a).contents := by
  rw [owing_unlink]
  intro b hb
  have hba : b ≠ a := fun hc => ha (hc ▸ hb)
  unfold Loop.unlink
  cases s.now a with
  | none => exact h b hb
  | some e => exact (List.mem_erase_of_ne hba).mpr (h b hb)

namespace ForceSide

variable {s s' : Loop ν}

lemma guide (h : s.ForceSide) : Guide .force s where
  sound := h.nested.sound
  lead outer j rest htop := by
    have hpos := h.nested.positioned
    rw [htop] at hpos
    exact hpos.1
  listed _ _ hmem := h.nested.positioned.suffix_of_mem hmem
  solo := h.solo.walks_le
  owing_nodup := h.owing_nodup
  owing_listed := h.owing_listed

/-- A removal that meets the condition is of an abortable whose `track` is done with it. -/
lemma not_owed (h : s.ForceSide) {a : ν} (host : s.hostTurn = true)
    (hleave : s.forced_ = true → .trackForce a ∉ s.stack) (hf : s.forced_ = true) :
    a ∉ owing .force s.stack :=
  h.ordered.not_owing host (hleave hf)

lemma force_first {act : Act ν} (hok : OneForce s act) (hmove : Move s act s')
    (hbegins : begins .force act = true) :
    s.begun .force = false ∧ owing .force s.stack = [] := by
  simp [hok.2 hbegins, begun, hok.1.stack_nil hmove hbegins, owing]

/-- The `track` calls about to force stay distinct and listed when an abortable they are not about
leaves. -/
lemma owing_after_unlink (h : s.ForceSide) {a : ν} (hf : s.forced_ = true)
    (ha : a ∉ owing .force s.stack) :
    (owing .force (s.unlink a).stack).Nodup ∧
      ∀ b ∈ owing .force (s.unlink a).stack, b ∈ (s.unlink a).contents := by
  refine ⟨?_, owing_listed_unlink (h.owing_listed hf) ha⟩
  rw [owing_unlink]
  exact h.owing_nodup hf

lemma owing_move {act : Act ν} (h : s.ForceSide) (hone : OneForce s act)
    (hleave : LeavesAlone s act) (hmove : Move s act s') (hf : s'.forced_ = true) :
    (owing .force s'.stack).Nodup ∧ ∀ a ∈ owing .force s'.stack, a ∈ s'.contents := by
  -- the moves that leave the flag, the list and the `track` calls as they are
  have same : s'.forced_ = s.forced_ → s'.contents = s.contents →
      (owing .force s'.stack).Sublist (owing .force s.stack) →
      (owing .force s'.stack).Nodup ∧ ∀ a ∈ owing .force s'.stack, a ∈ s'.contents := by
    intro hflag hcontents hstack
    rw [hflag] at hf
    rw [hcontents]
    exact ⟨hstack.nodup (h.owing_nodup hf), fun a ha => h.owing_listed hf a (hstack.subset ha)⟩
  have hfirst := force_first hone hmove
  cases hmove with
  | @track a host alive free =>
      have hnew := h.nested.sound.not_mem_of_free free
      have hown := h.owing_listed hf
      refine ⟨List.nodup_cons.mpr ⟨fun hc => hnew (hown a hc), h.owing_nodup hf⟩, ?_⟩
      intro b hb
      rcases List.mem_cons.mp hb with rfl | hb
      · exact List.mem_cons_self ..
      · exact List.mem_cons_of_mem _ (hown b hb)
  | @untrack a host alive =>
      have hf : s.forced_ = true := by simpa using hf
      exact h.owing_after_unlink hf (h.not_owed host (hleave.2 a (.inl rfl)) hf)
  | @destroy a host alive =>
      have hf : s.forced_ = true := by simpa [destroy] using hf
      exact h.owing_after_unlink hf (h.not_owed host (hleave.2 a (.inr rfl)) hf)
  | abortInline => exact same (by simp [beginWalk]) rfl (List.Sublist.refl _)
  | forceInline =>
      obtain ⟨-, hidle⟩ := hfirst rfl
      have : owing .force (s.beginWalk .force).stack = [] := hidle
      simp [this]
  | ret top => exact same rfl rfl (by rw [top]; exact List.Sublist.refl _)
  | walkEnd top => exact same rfl rfl (by rw [top]; exact List.Sublist.refl _)
  | walkCall top => exact same rfl rfl (by rw [top]; exact List.Sublist.refl _)
  | lateAbort top => exact same rfl rfl (by rw [top]; exact List.Sublist.refl _)
  | skipAbort top => exact same rfl rfl (by rw [top]; exact List.Sublist.refl _)
  | lateForce top => exact same rfl rfl (by rw [top]; exact List.sublist_cons_self ..)
  | skipForce top => exact same rfl rfl (by rw [top]; exact List.sublist_cons_self ..)
  | runAbort => exact same (by simp [beginWalk]) rfl (List.Sublist.refl _)
  | runForce free =>
      have : owing .force (beginWalk .force
          { s with forcePosted := s.forcePosted - 1 }).stack = [] := (hfirst rfl).2
      simp [this]
  | _ => exact same rfl rfl (List.Sublist.refl _)

lemma move {act : Act ν} (h : s.ForceSide) (hone : OneForce s act) (hleave : LeavesAlone s act)
    (hmove : Move s act s') : s'.ForceSide where
  nested := h.nested.move hleave.1 hmove
  ordered := h.ordered.move hmove
  solo := h.solo.move hmove fun hb => .inr (force_first hone hmove hb).1
  owing_nodup hf := (h.owing_move hone hleave hmove hf).1
  owing_listed hf := (h.owing_move hone hleave hmove hf).2
  ledger := by
    refine h.ledger.move h.guide hmove (fun a hact => ?_) fun hb => .inr (force_first hone hmove hb)
    have host : s.hostTurn = true := by
      rcases hact with rfl | rfl <;> cases hmove <;> assumption
    cases hf : s.forced_ with
    | false => simp [owed, begun, hf]
    | true =>
        have := h.not_owed host (hleave.2 a hact) hf
        simp [owed, this]

end ForceSide

/-- Every episode has received what it is owed of kind `k`: those that ended; those that run,
unless a walk or their own `track` has still to reach them, and these have received nothing
more than once; and no call went astray. -/
def Accounted (k : Kind) (s : Loop ν) : Prop :=
  (∀ e ∈ s.past, (e k).Settled) ∧
    (∀ a e, s.now a = some e → (e k).walk + (e k).track ≤ 1 ∧
      (s.awaited a k = false → s.owed k a = false → (e k).Settled)) ∧
    ∀ a, (k, a) ∉ s.stray

instance (s : Loop ℕ) (act : Act ℕ) : Decidable (NoNestedForce s act) :=
  inferInstanceAs (Decidable (_ → _))

instance (s : Loop ℕ) (act : Act ℕ) : Decidable (OneForce s act) :=
  inferInstanceAs (Decidable (_ ∧ _))

end Loop

end ReactorRuntime
