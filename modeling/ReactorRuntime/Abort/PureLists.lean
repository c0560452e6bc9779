import ReactorRuntime.Library.Simulation
import ReactorRuntime.Abort.AbortList

/-!
# Abort lists as pure lists

Any number of `AbortList`s share any number of `Abortable`s (`reactor.h:97-138`).  Host code links
nodes that are in no list, removes nodes from any list, also from one they are not in, and destroys
nodes, in any order; on each list a walk may be in progress, and its turns come between these calls
at any time.  A walk does not begin on a list that is being walked: walks inside walks are the
subject of `Abort.Nesting`.

The reference keeps a sequence for each list and no pointers.  `add` prepends, `remove` deletes the
node from that list, a node that is destroyed is deleted wherever it is, and the walk's steps do
nothing.  Every run is a run of the reference, and the pointers are at all times those of its
sequences (`pointers_represent_pure_lists`).

A destroyed node leaves null hooks behind, and these are what the constructor gives the next
`Abortable` at its address.  The machine does not tell the two apart.
-/

namespace ReactorRuntime

variable {ι ν : Type*}

/-! ## The reference -/

namespace ReferenceLists

/-- The operations that change a list. -/
inductive Op (ι ν : Type*)
  | add (this : ι) (a : ν)
  | remove (this : ι) (a : ν)
  | destroy (a : ν)
  deriving DecidableEq, Repr

variable [DecidableEq ι] [DecidableEq ν]

def apply (lists : ι → List ν) : Op ι ν → ι → List ν
  | .add this a => Function.update lists this (a :: lists this)
  | .remove this a => Function.update lists this ((lists this).erase a)
  | .destroy a => fun i => (lists i).erase a

variable (ι ν) in
/-- Every operation is possible at any time. -/
def machine : Machine (ι → List ν) (Op ι ν) where
  init _ := []
  step lists op := some (apply lists op)

variable {lists : ι → List ν} {this : ι} {a : ν} {l : List ν}

lemma filter_erase (hnd : l.Nodup) : (l.erase a).filter (· != a) = l.filter (· != a) := by
  rw [hnd.erase_eq_filter, List.filter_filter]
  simp only [Bool.and_self]

omit [DecidableEq ν] in
/-- A list is replaced by one with the same nodes, as far as `p` tells. -/
lemma filter_update {p : ν → Bool} (h : l.filter p = (lists this).filter p) :
    ∀ i, (Function.update lists this l i).filter p = (lists i).filter p := by
  apply (Function.forall_update_iff lists fun i l => l.filter p = (lists i).filter p).mpr
  exact ⟨h, fun _ _ => rfl⟩

end ReferenceLists

/-! ## The pointers -/

/-- The pointers of all lists and nodes, and the walks in progress. -/
structure AbortLists (ι ν : Type*) where
  heap : Heap ι ν
  /-- The local `outer` of the walk in progress on a list, if there is one. -/
  outer : ι → Option (Option ν)

namespace AbortLists

/-- What can happen next. -/
inductive Act (ι ν : Type*)
  /-- Host code calls `add` with a node that is in no list. -/
  | add (this : ι) (a : ν)
  /-- Host code calls `remove` with any node. -/
  | remove (this : ι) (a : ν)
  /-- Host code destroys a node. -/
  | destroy (a : ν)
  /-- `each` begins. -/
  | beginEach (this : ι)
  /-- `each` finds a node at its cursor and moves on, before it calls back. -/
  | advanceEach (this : ι)
  /-- `each` finds no node at its cursor and ends. -/
  | endEach (this : ι)
  deriving DecidableEq, Repr

variable [DecidableEq ι] [DecidableEq ν]

def step (s : AbortLists ι ν) : Act ι ν → Option (AbortLists ι ν)
  | .add this a =>
      if s.heap.list_ a = none then some { s with heap := s.heap.add this a } else none
  | .remove this a => some { s with heap := s.heap.remove this a }
  | .destroy a => some { s with heap := s.heap.unlinkOnDestroy a }
  | .beginEach this =>
      match s.outer this with
      | some _ => none
      | none => some
          { heap := s.heap.beginEach this
            outer := Function.update s.outer this (some (s.heap.cursor_ this)) }
  | .advanceEach this =>
      match s.outer this, s.heap.cursor_ this with
      | some _, some node => some { s with heap := s.heap.advanceEach this node }
      | _, _ => none
  | .endEach this =>
      match s.outer this, s.heap.cursor_ this with
      | some outer, none => some
          { heap := s.heap.endEach this outer
            outer := Function.update s.outer this none }
      | _, _ => none

variable (ι ν) in
/-- Every list is empty and not being walked. -/
def machine : Machine (AbortLists ι ν) (Act ι ν) where
  init := { heap := Heap.empty, outer := fun _ => none }
  step := step

/-- The operation an action is for the reference. -/
def shown (_ : AbortLists ι ν) : Act ι ν → Option (ReferenceLists.Op ι ν)
  | .add this a => some (.add this a)
  | .remove this a => some (.remove this a)
  | .destroy a => some (.destroy a)
  | _ => none

/-- The nodes an action is not about. -/
def Act.spares : Act ι ν → ν → Bool
  | .add _ a => (· != a)
  | .remove _ a => (· != a)
  | .destroy a => (· != a)
  | _ => fun _ => true

end AbortLists

/-! ## What the pointers hold -/

namespace Heap

/-- The links are those of the sequences, nodes in no list have null hooks, and a cursor is on a
node of its list or null. -/
structure Holds (h : Heap ι ν) (lists : ι → List ν) : Prop where
  represents : ∀ i, h.Represents i (lists i)
  loose : ∀ a, h.list_ a = none → h.next_ a = none ∧ h.prev_ a = none
  cursor : ∀ i a, h.cursor_ i = some a → a ∈ lists i

namespace Holds

variable {h : Heap ι ν} {lists : ι → List ν} {this : ι} {a b : ν}

lemma empty : (Heap.empty : Heap ι ν).Holds fun _ => [] where
  represents := Represents.empty
  loose := by
    intro a _
    exact ⟨rfl, rfl⟩
  cursor := by
    intro i a hc
    exact absurd hc.symm (Option.some_ne_none a)

lemma not_mem_of_loose (hh : h.Holds lists) (ha : h.list_ a = none) (i : ι) : a ∉ lists i := by
  intro hmem
  exact Option.some_ne_none i ((((hh.represents i).member a).mpr hmem).symm.trans ha)

/-- A node with a neighbour is in a list. -/
lemma exists_mem_of_next (hh : h.Holds lists) (hb : h.next_ a = some b) : ∃ i, a ∈ lists i := by
  cases hlist : h.list_ a with
  | none => exact absurd (hb.symm.trans (hh.loose a hlist).1) (Option.some_ne_none b)
  | some i => exact ⟨i, ((hh.represents i).member a).mp hlist⟩

lemma exists_mem_of_prev (hh : h.Holds lists) (ha : h.prev_ b = some a) : ∃ i, b ∈ lists i := by
  cases hlist : h.list_ b with
  | none => exact absurd (ha.symm.trans (hh.loose b hlist).2) (Option.some_ne_none a)
  | some i => exact ⟨i, ((hh.represents i).member b).mp hlist⟩

/-- The two links between neighbours name each other. -/
lemma next_iff_prev (hh : h.Holds lists) (a b : ν) : h.next_ a = some b ↔ h.prev_ b = some a := by
  constructor
  · intro hb
    obtain ⟨i, hmem⟩ := hh.exists_mem_of_next hb
    exact ((hh.represents i).threads.prev_of_next hmem hb).2
  · intro ha
    obtain ⟨i, hmem⟩ := hh.exists_mem_of_prev ha
    exact ((hh.represents i).threads.next_of_prev hmem ha).2

variable [DecidableEq ι]

/-- A walk may put the cursor on any node of its list. -/
lemma point (hh : h.Holds lists) {c : Option ν} (hc : ∀ a, c = some a → a ∈ lists this) :
    ({ h with cursor_ := Function.update h.cursor_ this c } : Heap ι ν).Holds lists where
  represents i := (hh.represents i).of_cursor _
  loose := hh.loose
  cursor := by
    apply (Function.forall_update_iff h.cursor_ fun i c => ∀ a, c = some a → a ∈ lists i).mpr
    exact ⟨hc, fun i _ => hh.cursor i⟩

variable [DecidableEq ν]

lemma add (hh : h.Holds lists) (ha : h.list_ a = none) :
    (h.add this a).Holds (ReferenceLists.apply lists (.add this a)) := by
  have hthis := hh.represents this
  constructor
  · apply (Function.forall_update_iff lists fun i l => (h.add this a).Represents i l).mpr
    constructor
    · exact hthis.add (hh.not_mem_of_loose ha this)
    · intro i hne
      exact hthis.add_other (hh.represents i) hne ha
  · intro b hb
    have hne : b ≠ a := by
      rintro rfl
      rw [add_list_, Function.update_self] at hb
      exact Option.some_ne_none this hb
    rw [add_list_, Function.update_of_ne hne] at hb
    obtain ⟨hnext, hprev⟩ := hthis.add_hooks (hh.not_mem_of_loose hb this) hne
    rw [hnext, hprev]
    exact hh.loose b hb
  · rw [add_cursor_]
    apply (Function.forall_update_iff lists fun i l => ∀ b, h.cursor_ i = some b → b ∈ l).mpr
    constructor
    · intro b hb
      exact List.mem_cons_of_mem a (hh.cursor this b hb)
    · intro i _
      exact hh.cursor i

/-- The cursor of a walk on the list of a removed node is on another node of that list. -/
lemma remove_cursor_mem (hh : h.Holds lists) (hb : (h.remove this a).cursor_ this = some b) :
    b ∈ (lists this).erase a := by
  have hthis := hh.represents this
  rw [hthis.remove_cursor_ a] at hb
  split at hb
  · -- it was on the node, and moves to the next one
    rename_i hon
    obtain ⟨hmem, hprev⟩ := hthis.threads.prev_of_next hon.1 hb
    have hne : b ≠ a := by
      rintro rfl
      exact hthis.prev_ne_self hmem hprev
    exact (List.mem_erase_of_ne hne).mpr hmem
  · rename_i hoff
    have hmem := hh.cursor this b hb
    have hne : b ≠ a := by
      rintro rfl
      exact hoff ⟨hmem, hb⟩
    exact (List.mem_erase_of_ne hne).mpr hmem

lemma remove (hh : h.Holds lists) (this : ι) (a : ν) :
    (h.remove this a).Holds (ReferenceLists.apply lists (.remove this a)) := by
  have hthis := hh.represents this
  constructor
  · apply (Function.forall_update_iff lists fun i l => (h.remove this a).Represents i l).mpr
    constructor
    · exact hthis.remove a
    · intro i hne
      exact hthis.remove_other (hh.represents i) hne a
  · intro b hb
    rcases hthis.list_of_remove hb with hloose | ⟨rfl, hl⟩
    · obtain ⟨hnext, hprev⟩ := hthis.remove_hooks a (hh.not_mem_of_loose hloose this)
      rw [hnext, hprev]
      exact hh.loose b hloose
    · exact remove_hooks_self hl
  · apply (Function.forall_update_iff lists fun i l =>
      ∀ b, (h.remove this a).cursor_ i = some b → b ∈ l).mpr
    constructor
    · intro b hb
      exact hh.remove_cursor_mem hb
    · intro i hne b hb
      rw [remove_cursor_same fun heq => absurd heq hne] at hb
      exact hh.cursor i b hb

/-- Destroying a node is removing it from its list; no other list has it. -/
lemma destroy (hh : h.Holds lists) (a : ν) :
    (h.unlinkOnDestroy a).Holds (ReferenceLists.apply lists (.destroy a)) := by
  unfold unlinkOnDestroy
  cases hlist : h.list_ a with
  | none =>
      have hsame : ReferenceLists.apply lists (.destroy a) = lists := by
        funext i
        exact List.erase_of_not_mem (hh.not_mem_of_loose hlist i)
      rw [hsame]
      exact hh
  | some this =>
      have hsame : ReferenceLists.apply lists (.destroy a) =
          ReferenceLists.apply lists (.remove this a) := by
        funext i
        show (lists i).erase a = Function.update lists this ((lists this).erase a) i
        rcases eq_or_ne i this with rfl | hne
        · rw [Function.update_self]
        · rw [Function.update_of_ne hne]
          apply List.erase_of_not_mem
          intro hmem
          have hthis := ((hh.represents this).member a).mp hlist
          exact (hh.represents this).not_mem_other (hh.represents i) hne hmem hthis
      rw [hsame]
      exact hh.remove this a

end Holds

/-- The pointers are those of pure lists. -/
structure IsPure (h : Heap ι ν) (lists : ι → List ν) : Prop where
  /-- The chain of `next_` from the head ends in null after the nodes of the list. -/
  chain : ∀ i, Follows h.next_ (h.head_ i) (lists i)
  nodup : ∀ i, (lists i).Nodup
  /-- `prev_` is the inverse of `next_`. -/
  inverse : ∀ a b, h.next_ a = some b ↔ h.prev_ b = some a
  /-- The first node has no predecessor. -/
  front : ∀ i a, h.head_ i = some a → h.prev_ a = none
  /-- A node is in the chain that its `list_` names, and in no other. -/
  member : ∀ a i, h.list_ a = some i ↔ a ∈ lists i
  loose : ∀ a, h.list_ a = none → h.next_ a = none ∧ h.prev_ a = none
  cursor : ∀ i a, h.cursor_ i = some a → a ∈ lists i

lemma Holds.isPure {h : Heap ι ν} {lists : ι → List ν} (hh : h.Holds lists) : h.IsPure lists where
  chain i := (hh.represents i).threads.follows
  nodup i := (hh.represents i).nodup
  inverse := hh.next_iff_prev
  front := by
    intro i a ha
    rw [(hh.represents i).threads.head_eq] at ha
    obtain ⟨l, hl⟩ := List.head?_eq_some_iff.mp ha
    exact ((hh.represents i).threads.links [] a l hl).2
  member a i := (hh.represents i).member a
  loose := hh.loose
  cursor := hh.cursor

end Heap

/-! ## Every run -/

namespace AbortLists

variable [DecidableEq ι] [DecidableEq ν]

/-- What a step can be. -/
inductive Move (s : AbortLists ι ν) : Act ι ν → AbortLists ι ν → Prop
  | add {this : ι} {a : ν} (ha : s.heap.list_ a = none) :
      Move s (.add this a) { s with heap := s.heap.add this a }
  | remove (this : ι) (a : ν) : Move s (.remove this a) { s with heap := s.heap.remove this a }
  | destroy (a : ν) : Move s (.destroy a) { s with heap := s.heap.unlinkOnDestroy a }
  | beginEach {this : ι} (hfree : s.outer this = none) :
      Move s (.beginEach this)
        { heap := s.heap.beginEach this
          outer := Function.update s.outer this (some (s.heap.cursor_ this)) }
  | advanceEach {this : ι} {node : ν} (hwalk : s.outer this ≠ none)
      (hnode : s.heap.cursor_ this = some node) :
      Move s (.advanceEach this) { s with heap := s.heap.advanceEach this node }
  | endEach {this : ι} {outer : Option ν} (hwalk : s.outer this = some outer)
      (hend : s.heap.cursor_ this = none) :
      Move s (.endEach this)
        { heap := s.heap.endEach this outer
          outer := Function.update s.outer this none }

lemma move_of_step {s s' : AbortLists ι ν} {act : Act ι ν} (h : step s act = some s') :
    Move s act s' := by
  cases act with
  | add this a =>
      obtain ⟨ha, h⟩ := Option.ite_none_right_eq_some.mp h
      cases h
      exact .add ha
  | remove this a =>
      cases h
      exact .remove this a
  | destroy a =>
      cases h
      exact .destroy a
  | beginEach this =>
      simp only [step] at h
      split at h
      · cases h
      · cases h
        exact .beginEach ‹_›
  | advanceEach this =>
      simp only [step] at h
      split at h
      · rename_i outer node hwalk hnode
        cases h
        refine .advanceEach ?_ hnode
        rw [hwalk]
        exact Option.some_ne_none outer
      · cases h
  | endEach this =>
      simp only [step] at h
      split at h
      · cases h
        exact .endEach ‹_› ‹_›
      · cases h

/-- The pointers hold the sequences, and the cursor is null outside of walks. -/
structure Held (s : AbortLists ι ν) (lists : ι → List ν) : Prop where
  holds : s.heap.Holds lists
  idle : ∀ i, s.outer i = none → s.heap.cursor_ i = none
  outermost : ∀ i outer, s.outer i = some outer → outer = none

namespace Held

variable {s s' : AbortLists ι ν} {lists : ι → List ν} {this : ι} {a : ν}

lemma init : Held (machine ι ν).init fun _ => [] where
  holds := Heap.Holds.empty
  idle _ _ := rfl
  outermost := by
    intro i outer ho
    exact absurd ho.symm (Option.some_ne_none outer)

omit [DecidableEq ι] [DecidableEq ν] in
/-- Host code changes the links and leaves a null cursor null. -/
lemma edit (hs : Held s lists) {heap : Heap ι ν} {lists' : ι → List ν} (hh : heap.Holds lists')
    (hc : ∀ i, s.heap.cursor_ i = none → heap.cursor_ i = none) :
    Held { s with heap := heap } lists' where
  holds := hh
  idle i hfree := hc i (hs.idle i hfree)
  outermost := hs.outermost

omit [DecidableEq ν] in
lemma beginEach (hs : Held s lists) (hfree : s.outer this = none) :
    Held
      { heap := s.heap.beginEach this
        outer := Function.update s.outer this (some (s.heap.cursor_ this)) } lists where
  holds := hs.holds.point fun _ => (hs.holds.represents this).threads.head_mem
  idle := by
    apply (Function.forall_update_iff s.outer fun i o =>
      o = none → (s.heap.beginEach this).cursor_ i = none).mpr
    constructor
    · intro hnone
      exact absurd hnone (Option.some_ne_none _)
    · intro i hne hi
      exact (Function.update_of_ne hne _ _).trans (hs.idle i hi)
  outermost := by
    apply (Function.forall_update_iff s.outer fun _ o => ∀ outer, o = some outer → outer = none).mpr
    constructor
    · -- the walk keeps a null cursor, since no walk was in progress
      intro outer ho
      rw [hs.idle this hfree] at ho
      exact (Option.some.inj ho).symm
    · intro i _
      exact hs.outermost i

omit [DecidableEq ν] in
lemma advanceEach {node : ν} (hs : Held s lists) (hwalk : s.outer this ≠ none)
    (hnode : s.heap.cursor_ this = some node) :
    Held { s with heap := s.heap.advanceEach this node } lists where
  holds := by
    have hmem := hs.holds.cursor this node hnode
    apply hs.holds.point
    intro b hb
    exact ((hs.holds.represents this).threads.prev_of_next hmem hb).1
  idle := by
    intro i hi
    have hne : i ≠ this := fun heq => hwalk (heq ▸ hi)
    exact (Function.update_of_ne hne _ _).trans (hs.idle i hi)
  outermost := hs.outermost

omit [DecidableEq ν] in
lemma endEach {outer : Option ν} (hs : Held s lists) (hwalk : s.outer this = some outer) :
    Held
      { heap := s.heap.endEach this outer
        outer := Function.update s.outer this none } lists := by
  obtain rfl := hs.outermost this outer hwalk
  constructor
  · apply hs.holds.point
    intro b hb
    exact absurd hb.symm (Option.some_ne_none b)
  · apply (Function.forall_update_iff s.outer fun i o =>
      o = none → (s.heap.endEach this none).cursor_ i = none).mpr
    constructor
    · intro _
      exact Function.update_self ..
    · intro i hne hi
      exact (Function.update_of_ne hne _ _).trans (hs.idle i hi)
  · apply (Function.forall_update_iff s.outer fun _ o => ∀ outer, o = some outer → outer = none).mpr
    constructor
    · intro outer ho
      exact absurd ho.symm (Option.some_ne_none outer)
    · intro i _
      exact hs.outermost i

/-- One step is the operation that it shows. -/
lemma step {act : Act ι ν} (hs : Held s lists) (hm : Move s act s') :
    ∃ lists', (ReferenceLists.machine ι ν).stepOption lists (shown s act) = some lists' ∧
      Held s' lists' := by
  cases hm with
  | add ha => exact ⟨_, rfl, hs.edit (hs.holds.add ha) fun i hc => by rwa [Heap.add_cursor_]⟩
  | remove this a =>
      exact ⟨_, rfl, hs.edit (hs.holds.remove this a) fun _ => Heap.remove_cursor_null⟩
  | destroy a => exact ⟨_, rfl, hs.edit (hs.holds.destroy a) fun _ => Heap.destroy_cursor_null⟩
  | beginEach hfree => exact ⟨_, rfl, hs.beginEach hfree⟩
  | advanceEach hwalk hnode => exact ⟨_, rfl, hs.advanceEach hwalk hnode⟩
  | endEach hwalk _ => exact ⟨_, rfl, hs.endEach hwalk⟩

/-- The nodes a step is not about keep their order, and stay where they are. -/
lemma order {act : Act ι ν} (hs : Held s lists) {lists' : ι → List ν}
    (hstep : (ReferenceLists.machine ι ν).stepOption lists (shown s act) = some lists') (i : ι) :
    (lists' i).filter act.spares = (lists i).filter act.spares := by
  have hnd : ∀ j, (lists j).Nodup := fun j => (hs.holds.represents j).nodup
  cases act with
  | add this a =>
      cases hstep
      exact ReferenceLists.filter_update (List.filter_cons_of_neg (by simp [Act.spares])) i
  | remove this a =>
      cases hstep
      exact ReferenceLists.filter_update (ReferenceLists.filter_erase (hnd this)) i
  | destroy a =>
      cases hstep
      exact ReferenceLists.filter_erase (hnd i)
  | beginEach this | advanceEach this | endEach this =>
      cases hstep
      rfl

end Held

variable {seen : List (ReferenceLists.Op ι ν)} {s : AbortLists ι ν}

lemma held_of_shown (hs : (machine ι ν).ShownUnder (fun _ _ => True) shown seen s) :
    ∃ lists, (ReferenceLists.machine ι ν).run (ReferenceLists.machine ι ν).init seen = some lists ∧
      Held s lists := by
  apply hs.run_of_relation (R := Held) Held.init
  intro s act s' lists _ _ hstep hheld
  exact hheld.step (move_of_step hstep)

/-- **The pointers represent pure lists.**  After any sequence of additions of unlinked nodes,
removals, destructions and steps of walks, the pointers are those of the lists that the reference
has after the same operations; and whatever is done next, they are those of lists that have the
other nodes in the same order. -/
theorem pointers_represent_pure_lists
    (hs : (machine ι ν).ShownUnder (fun _ _ => True) shown seen s) :
    ∃ lists, (ReferenceLists.machine ι ν).run (ReferenceLists.machine ι ν).init seen = some lists ∧
      s.heap.IsPure lists ∧
      ∀ act s', (machine ι ν).step s act = some s' →
        ∃ lists', (ReferenceLists.machine ι ν).stepOption lists (shown s act) = some lists' ∧
          s'.heap.IsPure lists' ∧
          ∀ i, (lists' i).filter act.spares = (lists i).filter act.spares := by
  obtain ⟨lists, hrun, hheld⟩ := held_of_shown hs
  refine ⟨lists, hrun, hheld.holds.isPure, ?_⟩
  intro act s' hstep
  obtain ⟨lists', hshown, hheld'⟩ := hheld.step (move_of_step hstep)
  exact ⟨lists', hshown, hheld'.holds.isPure, hheld.order hshown⟩

/-- Two lists.  A walk of the first has node 2 at its cursor when 2 is removed, node 4 of the second
list is removed from the first in vain, and 1 is destroyed with the cursor on it. -/
def twoLists : List (Act ℕ ℕ) :=
  [.add 0 1, .add 0 2, .add 0 3, .add 1 4, .beginEach 0, .advanceEach 0, .remove 0 2, .remove 0 4,
    .remove 1 9, .destroy 1, .endEach 0, .add 1 2]

theorem pointers_represent_two_lists :
    ∃ seen s lists, (machine ℕ ℕ).ShownUnder (fun _ _ => True) shown seen s ∧
      (ReferenceLists.machine ℕ ℕ).run (ReferenceLists.machine ℕ ℕ).init seen = some lists ∧
      s.heap.IsPure lists ∧ lists 0 = [3] ∧ lists 1 = [2, 4] := by
  obtain ⟨seen, s, hs, hp⟩ :=
    Machine.exists_shownUnder_of_run (machine ℕ ℕ) (fun _ _ => true)
      (fun _ _ _ => trivial) shown twoLists
      (fun seen _ => decide (seen = [.add 0 1, .add 0 2, .add 0 3, .add 1 4, .remove 0 2,
        .remove 0 4, .remove 1 9, .destroy 1, .add 1 2]))
      (by decide +kernel)
  obtain rfl := of_decide_eq_true hp
  obtain ⟨lists, hrun, hpure, -⟩ := pointers_represent_pure_lists hs
  refine ⟨_, s, lists, hs, hrun, hpure, ?_⟩
  obtain rfl := Option.some.inj hrun
  decide

end AbortLists

end ReactorRuntime
