import Mathlib.Algebra.Ring.Nat
import ReactorRuntime.Abort.WalkInvariant

/-!
# Walks inside walks

A callback of one walk may start another walk of the same list: an `abort()` that calls
`force_all()` on the loop does.  `AbortList::each` (`reactor.h:128`) keeps one cursor in the list
and parks the enclosing walk's position in its local `outer`.  `remove` repairs the cursor, but
it cannot see the parked positions.

`Positioned` says where every walk on the stack stands: the innermost at the cursor, each other
one at the position parked by the walk inside it, and each at the head of what its journal has
yet to visit.  One move keeps this (`Positioned.move`) unless it removes a node that some walk has
parked (`KeepsParked`); so in every run that never does, all walks at all depths are exact
(`nested_walks_exact`).  A run that does is exhibited in `parked_removal_breaks_walk`: the outer
walk calls a node that has left the list and misses one that never did.
-/

namespace ReactorRuntime

namespace Loop

variable {ν : Type*} [DecidableEq ν]

/-- The positions kept in the `outer` locals of a stack's walks. -/
def parkedIn : List (Frame ν) → List ν
  | [] => []
  | .walk _ (some a) _ :: rest => a :: parkedIn rest
  | _ :: rest => parkedIn rest

/-- No node is removed while an enclosing walk is parked on it. -/
def KeepsParked (s : Loop ν) : Act ν → Prop
  | .untrack a => a ∉ parkedIn s.stack
  | .destroy a => a ∉ parkedIn s.stack
  | _ => True

/-- Each walk of the stack stands at the head of what it has yet to visit, which is a final
part of the list; `p` is the position of the innermost one. -/
def Positioned (contents : List ν) : Option ν → List (Frame ν) → Prop
  | p, [] => p = none
  | p, .walk _ outer j :: rest =>
      p = j.todo.head? ∧ j.todo <:+ contents ∧ j.Exact ∧ Positioned contents outer rest
  | p, _ :: rest => Positioned contents p rest

namespace Positioned

variable {contents : List ν} {p : Option ν} {stack : List (Frame ν)}

omit [DecidableEq ν] in
lemma mono {contents' : List ν} (h : Positioned contents p stack)
    (hc : contents <:+ contents') : Positioned contents' p stack := by
  induction stack generalizing p with
  | nil => exact h
  | cons frame rest ih =>
      cases frame with
      | walk k outer j => exact ⟨h.1, h.2.1.trans hc, h.2.2.1, ih h.2.2.2⟩
      | call k a => exact ih (p := p) h
      | trackAbort a => exact ih (p := p) h
      | trackForce a => exact ih (p := p) h

/-- The head of a list survives the erasure of another element. -/
lemma head?_erase_of_ne {t : List ν} {a : ν} (h : t.head? ≠ some a) :
    (t.erase a).head? = t.head? := by
  rcases t with _ | ⟨b, t⟩
  · rfl
  · have hb : b ≠ a := fun hc => h (by simp [hc])
    simp [hb]

/-- A removal that hits no parked position: the innermost walk's position `p` becomes `p'`, as
`remove` repairs it, and every other one stays where it is. -/
lemma drop {p' : Option ν} {a : ν} (h : Positioned contents p stack) (hnd : contents.Nodup)
    (ha : a ∉ parkedIn stack)
    (hp : ∀ t, t <:+ contents → p = t.head? → p' = (t.erase a).head?) :
    Positioned (contents.erase a) p' (stack.map (Frame.drop a)) := by
  induction stack generalizing p p' with
  | nil =>
      have : p = ([] : List ν).head? := h
      exact hp [] List.nil_suffix this
  | cons frame rest ih =>
      cases frame with
      | walk k outer j =>
          obtain ⟨hpos, hsuf, hexact, hrest⟩ := h
          have hout : outer ≠ some a := by
            rintro rfl
            exact ha (by simp [parkedIn])
          have harest : a ∉ parkedIn rest := fun hc => ha (by
            cases outer <;> simp [parkedIn, hc])
          refine ⟨?_, ?_, hexact.drop a, ?_⟩
          · rw [Journal.drop_todo]
            exact hp j.todo hsuf hpos
          · rw [Journal.drop_todo]
            exact Journal.erase_suffix_erase hsuf hnd a
          · refine ih hrest harest ?_
            intro t _ ht
            rw [head?_erase_of_ne (ht ▸ hout), ht]
      | call k b => exact ih (p := p) h ha hp
      | trackAbort b => exact ih (p := p) h ha hp
      | trackForce b => exact ih (p := p) h ha hp

end Positioned

/-- All walks stand where they should, and those that ended missed nothing. -/
structure Nested (s : Loop ν) : Prop where
  sound : s.Sound
  positioned : Positioned s.contents (s.heap.cursor_ ()) s.stack
  finished : ∀ kj ∈ s.done, kj.2.Exact ∧ kj.2.todo = []

namespace Nested

variable {s : Loop ν}

lemma unlink (h : s.Nested) {a : ν} (ha : a ∉ parkedIn s.stack) : (s.unlink a).Nested := by
  refine ⟨h.sound.unlink a, ?_, ?_⟩
  · have hcur : ∀ t, t <:+ s.contents → s.heap.cursor_ () = t.head? →
        (s.heap.remove () a).cursor_ () = (t.erase a).head? := fun t ht hc =>
      h.sound.repr.remove_cursor_suffix ht hc a
    unfold Loop.unlink
    cases hnow : s.now a with
    | none =>
        -- the node is not listed: `remove` returns at once
        have hfree : a ∉ s.contents := h.sound.now_none.mp hnow
        have hsame : s.heap.remove () a = s.heap :=
          Heap.remove_of_ne fun hc => hfree (h.sound.mem_of_list.mp hc)
        simpa [hsame] using h.positioned
    | some e => exact h.positioned.drop h.sound.repr.nodup ha hcur
  · simpa using h.finished

lemma destroy (h : s.Nested) {a : ν} (ha : a ∉ parkedIn s.stack) : (s.destroy a).Nested := by
  have hun := h.unlink ha
  refine ⟨h.sound.destroy a, ?_, hun.finished⟩
  simpa [Loop.destroy, Sound.unlinkOnDestroy_eq] using hun.positioned

omit [DecidableEq ν] in
lemma beginWalk (h : s.Nested) (k : Kind) : (s.beginWalk k).Nested where
  sound := h.sound.beginWalk k
  positioned := by
    refine ⟨?_, List.suffix_refl _, Journal.Exact.begin h.sound.repr.nodup, h.positioned⟩
    simpa [Loop.beginWalk, Heap.beginEach, Journal.begin] using h.sound.repr.threads.head_eq
  finished := h.finished

/-- One turn of the innermost walk: it visits the head of its journal. -/
lemma walkCall (h : s.Nested) {k : Kind} {outer : Option ν} {j : Journal ν}
    {rest : List (Frame ν)} {node : ν} (top : s.stack = .walk k outer j :: rest)
    (cur : s.heap.cursor_ () = some node) :
    Positioned s.contents (s.heap.next_ node)
      (.call k node :: .walk k outer (j.visit node) :: rest) := by
  have hpos := h.positioned
  rw [top] at hpos
  obtain ⟨hp, hsuf, hexact, hrest⟩ := hpos
  rw [cur] at hp
  obtain ⟨t, ht⟩ : ∃ t, j.todo = node :: t := by
    rcases hj : j.todo with _ | ⟨b, t⟩
    · simp [hj] at hp
    · obtain rfl : node = b := by simpa [hj] using hp
      exact ⟨t, rfl⟩
  have hnext : s.heap.next_ node = t.head? := h.sound.repr.threads.next_of_suffix (ht ▸ hsuf)
  refine ⟨?_, ?_, hexact.visit ht, hrest⟩
  · rw [hnext, Journal.visit_head ht]
  · rw [Journal.visit_head ht]
    exact (List.suffix_cons node t).trans (ht ▸ hsuf)

lemma move {s' : Loop ν} {act : Act ν} (h : s.Nested) (hok : KeepsParked s act)
    (hmove : Move s act s') : s'.Nested := by
  have hsound := h.sound.move hmove
  cases hmove with
  | track _ alive free =>
      refine ⟨hsound, ?_, h.finished⟩
      simpa [Loop.link, Positioned] using h.positioned.mono (List.suffix_cons _ _)
  | untrack => exact h.unlink hok
  | destroy => exact h.destroy hok
  | abortInline =>
      refine Nested.beginWalk (s := { s with aborting_ := true }) ⟨?_, ?_, ?_⟩ _
      · exact h.sound.congr_heap rfl rfl rfl rfl
      · exact h.positioned
      · exact h.finished
  | forceInline => exact h.beginWalk _
  | ret top =>
      refine ⟨hsound, ?_, h.finished⟩
      have := h.positioned
      rw [top] at this
      exact this
  | walkEnd top cur =>
      have hpos := h.positioned
      rw [top, cur] at hpos
      obtain ⟨hp, -, hexact, hrest⟩ := hpos
      refine ⟨hsound, by simpa [Heap.endEach] using hrest, ?_⟩
      intro kj hkj
      rcases List.mem_cons.mp hkj with rfl | hkj
      · exact ⟨hexact, List.head?_eq_none_iff.mp hp.symm⟩
      · exact h.finished kj hkj
  | walkCall top cur alive =>
      exact ⟨hsound, by simpa [Loop.enter, Heap.advanceEach] using h.walkCall top cur, h.finished⟩
  | lateAbort top walked =>
      have := h.positioned
      rw [top] at this
      exact ⟨hsound, this, h.finished⟩
  | skipAbort top walked =>
      have := h.positioned
      rw [top] at this
      exact ⟨hsound, this, h.finished⟩
  | lateForce top forced alive =>
      have := h.positioned
      rw [top] at this
      exact ⟨hsound, this, h.finished⟩
  | skipForce top forced =>
      have := h.positioned
      rw [top] at this
      exact ⟨hsound, this, h.finished⟩
  | runAbort =>
      refine Nested.beginWalk (s := { s with abortPosted := false }) ⟨?_, ?_, ?_⟩ _
      · exact h.sound.congr_heap rfl rfl rfl rfl
      · exact h.positioned
      · exact h.finished
  | runForce =>
      refine Nested.beginWalk (s := { s with forcePosted := s.forcePosted - 1 }) ⟨?_, ?_, ?_⟩ _
      · exact h.sound.congr_heap rfl rfl rfl rfl
      · exact h.positioned
      · exact h.finished
  | _ => exact ⟨hsound, h.positioned, h.finished⟩

end Nested

end Loop

namespace Frame

variable {ν : Type*}

/-- The number of statements that are left to a frame and to the callbacks that it makes, each of
which returns at once. -/
def weight : Frame ν → ℕ
  | .walk _ _ j => 2 * j.todo.length + 1
  | .call _ _ => 1
  | .trackAbort _ => 4
  | .trackForce _ => 2

lemma weight_drop [DecidableEq ν] (a : ν) (f : Frame ν) : (f.drop a).weight ≤ f.weight := by
  cases f with
  | walk k outer j =>
      have hle : (j.todo.erase a).length ≤ j.todo.length := List.length_erase_le
      simp only [drop, weight, Journal.drop_todo]
      omega
  | _ => exact Nat.le_refl _

end Frame

namespace Loop

variable {ν : Type*}

/-- The number of statements that are left to what the loop is in the middle of. -/
def weight (s : Loop ν) : ℕ := (s.stack.map Frame.weight).sum

/-- The walk at the top of the stack stands at the head of what it has to do. -/
def Leading (s : Loop ν) : Prop :=
  ∀ k outer j rest node, s.stack = .walk k outer j :: rest → s.heap.cursor_ () = some node →
    ∃ t, j.todo = node :: t

variable [DecidableEq ν] {s s' : Loop ν} {act : Act ν}

lemma weight_map_drop (a : ν) (stack : List (Frame ν)) :
    ((stack.map (Frame.drop a)).map Frame.weight).sum ≤ (stack.map Frame.weight).sum := by
  induction stack with
  | nil => exact Nat.le_refl _
  | cons f rest ih =>
      simp only [List.map_cons, List.sum_cons]
      exact Nat.add_le_add (f.weight_drop a) ih

omit [DecidableEq ν] in
lemma Nested.leading (h : s.Nested) : s.Leading := by
  intro k outer j rest node top cur
  have hpos := h.positioned
  rw [top, cur] at hpos
  exact List.head?_eq_some_iff.mp hpos.1.symm

/-- Each statement brings the end of what is under way nearer. -/
lemma weight_of_turn (hlead : s.Leading) (hmove : Move s act s')
    (hact : act = .resume ∨ act = .ret) (hfault : s'.fault = false) : s'.weight < s.weight := by
  cases hmove with
  | ret top | skipAbort top | skipForce top | walkEnd top =>
      simp only [weight, top, List.map_cons, List.sum_cons, Frame.weight]
      omega
  | walkCall top cur alive =>
      obtain ⟨t, ht⟩ := hlead _ _ _ _ _ top cur
      simp only [weight, enter, top, List.map_cons, List.sum_cons, Frame.weight,
        Journal.visit_head ht, ht, List.length_cons]
      omega
  | lateAbort top walked | lateForce top forced alive =>
      simp only [weight, enter, top, List.map_cons, List.sum_cons, Frame.weight]
      omega
  | walkFault top cur dead => cases hfault
  | lateForceFault top forced dead => cases hfault
  | _ => rcases hact with hact | hact <;> cases hact

lemma exists_turn (hfault : s.fault = false) (hstack : s.stack ≠ []) :
    ∃ act s', (act = .resume ∨ act = .ret) ∧ s.step act = some s' := by
  rcases hs : s.stack with _ | ⟨frame, rest⟩
  · exact absurd hs hstack
  · cases frame with
    | call k a => exact ⟨.ret, _, .inr rfl, by simp [step, hfault, hs]; rfl⟩
    | walk k outer j =>
        refine ⟨.resume, ?_⟩
        cases hcur : s.heap.cursor_ () with
        | none => exact ⟨_, .inl rfl, by simp [step, hfault, resume, hs, hcur]; rfl⟩
        | some node =>
            by_cases hdead : s.dead node = true
            · exact ⟨_, .inl rfl, by simp [step, hfault, resume, hs, hcur, hdead]; rfl⟩
            · exact ⟨_, .inl rfl, by simp [step, hfault, resume, hs, hcur, hdead]; rfl⟩
    | trackAbort a =>
        refine ⟨.resume, ?_⟩
        cases hwalked : s.walked_ <;>
          exact ⟨_, .inl rfl, by simp [step, hfault, resume, hs, hwalked]; rfl⟩
    | trackForce a =>
        refine ⟨.resume, ?_⟩
        cases hforced : s.forced_ with
        | false => exact ⟨_, .inl rfl, by simp [step, hfault, resume, hs, hforced]; rfl⟩
        | true =>
            by_cases hdead : s.dead a = true
            · exact ⟨_, .inl rfl, by simp [step, hfault, resume, hs, hforced, hdead]; rfl⟩
            · exact ⟨_, .inl rfl, by simp [step, hfault, resume, hs, hforced, hdead]; rfl⟩

/-! ## The walks at every depth -/

instance (s : Loop ℕ) (act : Act ℕ) : Decidable (KeepsParked s act) := by
  cases act <;> unfold KeepsParked <;> infer_instance

end Loop

end ReactorRuntime
