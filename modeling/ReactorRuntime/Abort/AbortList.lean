import ReactorRuntime.Library.Threaded

/-!
# The intrusive abort list

`AbortList` (`reactor.h:114`) keeps the abortables a reactor must release at shutdown.  Its
links live in the nodes: each `Abortable` carries the list it is in and two neighbour
pointers, and the list object carries the head and the cursor of the walk in progress.  A
`Heap` is a snapshot of all these fields, for any number of lists `ι` and abortables `ν`; a null
pointer is `none`.

`add`, `remove` and `unlinkOnDestroy` are the three operations that write the links, statement
by statement as the header has them.  The walk `each` is not a function here, since its body
calls back into code that may do anything: `beginEach`, `advanceEach` and `endEach` are its
three fragments between those calls, and `Abort/Walk.lean` runs them on a stack.

`Represents h this l` is the abstraction: list `this` of heap `h` holds exactly the sequence
`l`.  Under it `add` is `List.cons` (`Represents.add`) and `remove` is `List.erase`
(`Represents.remove`), whatever the position of the node, and neither changes what another list
holds (`Represents.add_other`, `Represents.remove_other`).
-/

namespace ReactorRuntime

/-- The hooks of every abortable and the two fields of every list. -/
structure Heap (ι ν : Type*) where
  /-- `Abortable::list_`: the list the node is linked in. -/
  list_ : ν → Option ι
  /-- `Abortable::prev_`. -/
  prev_ : ν → Option ν
  /-- `Abortable::next_`. -/
  next_ : ν → Option ν
  /-- `AbortList::head_`. -/
  head_ : ι → Option ν
  /-- `AbortList::cursor_`: the node the innermost walk visits next. -/
  cursor_ : ι → Option ν

namespace Heap

variable {ι ν : Type*}

/-- Every abortable freshly constructed and every list empty. -/
def empty : Heap ι ν where
  list_ _ := none
  prev_ _ := none
  next_ _ := none
  head_ _ := none
  cursor_ _ := none

variable [DecidableEq ι] [DecidableEq ν]

/-- `AbortList::add`: links `a` before the head.  The header never tests that `a` is unlinked;
its callers only pass unlinked nodes. -/
def add (h : Heap ι ν) (this : ι) (a : ν) : Heap ι ν :=
  let h₁ : Heap ι ν :=
    { h with
      list_ := Function.update h.list_ a (some this)
      prev_ := Function.update h.prev_ a none
      next_ := Function.update h.next_ a (h.head_ this) }
  -- `if (head_) { head_->prev_ = &a; }`
  let h₂ : Heap ι ν :=
    match h₁.head_ this with
    | some b => { h₁ with prev_ := Function.update h₁.prev_ b (some a) }
    | none => h₁
  { h₂ with head_ := Function.update h₂.head_ this (some a) }

/-- `if (cursor_ == &a) { cursor_ = a.next_; }`: the walk in progress steps off `a`. -/
def stepOffCursor (h : Heap ι ν) (this : ι) (a : ν) : Heap ι ν :=
  if h.cursor_ this = some a then
    { h with cursor_ := Function.update h.cursor_ this (h.next_ a) }
  else h

/-- `if (a.prev_) { a.prev_->next_ = a.next_; } else { head_ = a.next_; }` -/
def bypassForward (h : Heap ι ν) (this : ι) (a : ν) : Heap ι ν :=
  match h.prev_ a with
  | some p => { h with next_ := Function.update h.next_ p (h.next_ a) }
  | none => { h with head_ := Function.update h.head_ this (h.next_ a) }

/-- `if (a.next_) { a.next_->prev_ = a.prev_; }` -/
def bypassBack (h : Heap ι ν) (a : ν) : Heap ι ν :=
  match h.next_ a with
  | some n => { h with prev_ := Function.update h.prev_ n (h.prev_ a) }
  | none => h

/-- `a.list_ = nullptr; a.prev_ = a.next_ = nullptr;` -/
def clearHooks (h : Heap ι ν) (a : ν) : Heap ι ν :=
  { h with
    list_ := Function.update h.list_ a none
    prev_ := Function.update h.prev_ a none
    next_ := Function.update h.next_ a none }

/-- `AbortList::remove`: takes `a` out of `this`, and does nothing to a node that is in another
list or in none.  Only the innermost walk's cursor is repaired. -/
def remove (h : Heap ι ν) (this : ι) (a : ν) : Heap ι ν :=
  if h.list_ a ≠ some this then h
  else (((h.stepOffCursor this a).bypassForward this a).bypassBack a).clearHooks a

/-- `Abortable::~Abortable`: a node destroyed while linked leaves its list. -/
def unlinkOnDestroy (h : Heap ι ν) (a : ν) : Heap ι ν :=
  match h.list_ a with
  | some this => h.remove this a
  | none => h

/-- The start of `AbortList::each`: the new walk begins at the head.  The caller keeps the old
cursor in the local `outer`. -/
def beginEach (h : Heap ι ν) (this : ι) : Heap ι ν :=
  { h with cursor_ := Function.update h.cursor_ this (h.head_ this) }

/-- One turn of `each` before its call: the cursor moves past `node`. -/
def advanceEach (h : Heap ι ν) (this : ι) (node : ν) : Heap ι ν :=
  { h with cursor_ := Function.update h.cursor_ this (h.next_ node) }

/-- The end of `each`: the enclosing walk's cursor is put back. -/
def endEach (h : Heap ι ν) (this : ι) (outer : Option ν) : Heap ι ν :=
  { h with cursor_ := Function.update h.cursor_ this outer }

/-! ## The fields after each operation -/

section Fields

variable (h : Heap ι ν) (this : ι) (a : ν)

@[simp] lemma add_list_ : (h.add this a).list_ = Function.update h.list_ a (some this) := by
  unfold add
  cases hhead : h.head_ this <;> simp [hhead]

@[simp] lemma add_next_ : (h.add this a).next_ = Function.update h.next_ a (h.head_ this) := by
  unfold add
  cases hhead : h.head_ this <;> simp [hhead]

@[simp] lemma add_prev_ :
    (h.add this a).prev_ =
      Threaded.redirect (Function.update h.prev_ a none) (h.head_ this) (some a) := by
  unfold add
  cases hhead : h.head_ this <;> simp [hhead, Threaded.redirect]

@[simp] lemma add_head_ : (h.add this a).head_ = Function.update h.head_ this (some a) := by
  unfold add
  cases hhead : h.head_ this <;> simp [hhead]

@[simp] lemma add_cursor_ : (h.add this a).cursor_ = h.cursor_ := by
  unfold add
  cases hhead : h.head_ this <;> simp [hhead]

variable {h this a}

lemma remove_of_ne (hl : h.list_ a ≠ some this) : h.remove this a = h := by
  simp [remove, hl]

lemma remove_of_eq (hl : h.list_ a = some this) :
    h.remove this a =
      (((h.stepOffCursor this a).bypassForward this a).bypassBack a).clearHooks a := by
  simp [remove, hl]

/-- A node that was removed is unlinked. -/
lemma remove_hooks_self (hl : h.list_ a = some this) :
    (h.remove this a).next_ a = none ∧ (h.remove this a).prev_ a = none := by
  rw [remove_of_eq hl]
  exact ⟨Function.update_self .., Function.update_self ..⟩

lemma stepOffCursor_eq :
    h.stepOffCursor this a =
      { h with cursor_ := if h.cursor_ this = some a then
          Function.update h.cursor_ this (h.next_ a) else h.cursor_ } := by
  unfold stepOffCursor
  split <;> rfl

lemma bypassForward_eq :
    h.bypassForward this a =
      { h with
        next_ := Threaded.redirect h.next_ (h.prev_ a) (h.next_ a)
        head_ := Function.update h.head_ this
          (Threaded.headWithout (h.head_ this) (h.prev_ a) (h.next_ a)) } := by
  unfold bypassForward
  cases h.prev_ a <;> simp [Threaded.redirect, Threaded.headWithout]

omit [DecidableEq ι] in
lemma bypassBack_eq :
    h.bypassBack a = { h with prev_ := Threaded.redirect h.prev_ (h.next_ a) (h.prev_ a) } := by
  unfold bypassBack
  cases h.next_ a <;> rfl

/-- The whole removal of a linked node.  No node is its own predecessor, so the second
redirection reads an unchanged `next_`. -/
lemma remove_eq (hl : h.list_ a = some this) (hself : h.prev_ a ≠ some a) :
    h.remove this a =
      { list_ := Function.update h.list_ a none
        prev_ := Function.update (Threaded.redirect h.prev_ (h.next_ a) (h.prev_ a)) a none
        next_ := Function.update (Threaded.redirect h.next_ (h.prev_ a) (h.next_ a)) a none
        head_ := Function.update h.head_ this
          (Threaded.headWithout (h.head_ this) (h.prev_ a) (h.next_ a))
        cursor_ := if h.cursor_ this = some a then
          Function.update h.cursor_ this (h.next_ a) else h.cursor_ } := by
  rw [remove_of_eq hl, stepOffCursor_eq, bypassForward_eq, bypassBack_eq, clearHooks]
  simp [Threaded.redirect_of_ne hself]

/-- `remove` moves no cursor but that of a walk of `this` that stands on the node. -/
lemma remove_cursor_same {i : ι} (hc : i = this → h.cursor_ i ≠ some a) :
    (h.remove this a).cursor_ i = h.cursor_ i := by
  by_cases hl : h.list_ a = some this
  · rw [remove_of_eq hl, stepOffCursor_eq, bypassForward_eq, bypassBack_eq, clearHooks]
    show (if h.cursor_ this = some a then _ else h.cursor_) i = _
    split
    · rename_i hon
      exact Function.update_of_ne (fun heq => hc heq (heq ▸ hon)) _ _
    · rfl
  · rw [remove_of_ne hl]

lemma remove_cursor_null {i : ι} (hc : h.cursor_ i = none) :
    (h.remove this a).cursor_ i = none := by
  rw [remove_cursor_same fun _ => hc ▸ (Option.some_ne_none a).symm]
  exact hc

lemma destroy_cursor_null {i : ι} (hc : h.cursor_ i = none) :
    (h.unlinkOnDestroy a).cursor_ i = none := by
  unfold unlinkOnDestroy
  cases h.list_ a with
  | none => exact hc
  | some this => exact remove_cursor_null hc

end Fields

/-! ## The sequence a list holds -/

/-- List `this` holds exactly the sequence `l`: the links thread it, and the nodes whose
`list_` names `this` are its elements. -/
structure Represents (h : Heap ι ν) (this : ι) (l : List ν) : Prop where
  threads : Threaded h.next_ h.prev_ (h.head_ this) l
  member : ∀ a, h.list_ a = some this ↔ a ∈ l

namespace Represents

variable {h : Heap ι ν} {this : ι} {l : List ν} {a : ν}

omit [DecidableEq ι] [DecidableEq ν] in
lemma empty (this : ι) : (Heap.empty : Heap ι ν).Represents this [] where
  threads := Threaded.nil _ _
  member := by simp [Heap.empty]

omit [DecidableEq ι] [DecidableEq ν] in
lemma nodup (h' : h.Represents this l) : l.Nodup := h'.threads.nodup

/-- **Adding is consing.** -/
lemma add (h' : h.Represents this l) (ha : a ∉ l) :
    (h.add this a).Represents this (a :: l) where
  threads := by
    simpa using h'.threads.push ha
  member := by
    intro b
    by_cases hb : b = a
    · simp [hb]
    · simp [hb, h'.member]

omit [DecidableEq ι] [DecidableEq ν] in
lemma prev_ne_self (h' : h.Represents this l) (ha : a ∈ l) : h.prev_ a ≠ some a := by
  obtain ⟨l₁, l₂, rfl⟩ := List.append_of_mem ha
  rw [(h'.threads.links l₁ a l₂ rfl).2]
  exact Threaded.getLast?_ne_of_nodup h'.nodup (by simp)

/-- **Removing is erasing**, wherever the node stands and also when it is not listed. -/
lemma remove (h' : h.Represents this l) (a : ν) :
    (h.remove this a).Represents this (l.erase a) := by
  by_cases hl : h.list_ a = some this
  · have ha : a ∈ l := (h'.member a).mp hl
    rw [remove_eq hl (h'.prev_ne_self ha)]
    refine ⟨by simpa using h'.threads.unlink ha, fun b => ?_⟩
    by_cases hb : b = a
    · simp [hb, h'.nodup.not_mem_erase]
    · simp [hb, List.mem_erase_of_ne hb, h'.member]
  · rw [remove_of_ne hl, List.erase_of_not_mem (fun hc => hl ((h'.member a).mpr hc))]
    exact h'

/-- Where `remove` leaves the cursor: on the successor when it stood on the node. -/
lemma remove_cursor_ (h' : h.Represents this l) (a : ν) :
    (h.remove this a).cursor_ this =
      if a ∈ l ∧ h.cursor_ this = some a then h.next_ a else h.cursor_ this := by
  by_cases ha : a ∈ l
  · rw [remove_eq ((h'.member a).mpr ha) (h'.prev_ne_self ha)]
    by_cases hc : h.cursor_ this = some a <;> simp [ha, hc]
  · rw [remove_of_ne (fun hc => ha ((h'.member a).mp hc))]
    simp [ha]

/-- A cursor at the front of a suffix `t` stands at the front of what `remove` leaves of it. -/
lemma remove_cursor_suffix (h' : h.Represents this l) {t : List ν} (ht : t <:+ l)
    (hc : h.cursor_ this = t.head?) (a : ν) :
    (h.remove this a).cursor_ this = (t.erase a).head? := by
  rw [h'.remove_cursor_ a, hc]
  rcases t with _ | ⟨b, t⟩
  · simp
  · by_cases hb : b = a
    · subst hb
      have hmem : b ∈ l := ht.subset (by simp)
      simp [hmem, h'.threads.next_of_suffix ht]
    · simp [hb, List.erase_cons_tail]

/-- The nodes that are in no list after a removal were in none before, or are the one removed. -/
lemma list_of_remove {b : ν} (h' : h.Represents this l) (hb : (h.remove this a).list_ b = none) :
    h.list_ b = none ∨ b = a ∧ h.list_ a = some this := by
  by_cases hl : h.list_ a = some this
  · rcases eq_or_ne b a with rfl | hne
    · exact .inr ⟨rfl, hl⟩
    · rw [remove_eq hl (h'.prev_ne_self ((h'.member a).mp hl))] at hb
      exact .inl ((Function.update_of_ne hne _ _).symm.trans hb)
  · rw [remove_of_ne hl] at hb
    exact .inl hb

section Other

variable {i : ι} {m : List ν} {b : ν}

/-- `add` writes the hooks of the node and of the old head. -/
lemma add_hooks (h' : h.Represents this l) (hb : b ∉ l) (hne : b ≠ a) :
    (h.add this a).next_ b = h.next_ b ∧ (h.add this a).prev_ b = h.prev_ b := by
  have hhead : h.head_ this ≠ some b := fun hc => hb (h'.threads.head_mem hc)
  rw [add_next_, add_prev_, Threaded.redirect_of_ne hhead, Function.update_of_ne hne,
    Function.update_of_ne hne]
  exact ⟨rfl, rfl⟩

/-- `remove` writes the hooks of the node and of its neighbours. -/
lemma remove_hooks (h' : h.Represents this l) (a : ν) (hb : b ∉ l) :
    (h.remove this a).next_ b = h.next_ b ∧ (h.remove this a).prev_ b = h.prev_ b := by
  by_cases hl : h.list_ a = some this
  · have ha : a ∈ l := (h'.member a).mp hl
    have hne : b ≠ a := fun hc => hb (hc ▸ ha)
    have hprev : h.prev_ a ≠ some b := fun hc => hb (h'.threads.next_of_prev ha hc).1
    have hnext : h.next_ a ≠ some b := fun hc => hb (h'.threads.prev_of_next ha hc).1
    rw [remove_eq hl (h'.prev_ne_self ha)]
    constructor
    · exact (Function.update_of_ne hne _ _).trans (Threaded.redirect_of_ne hprev)
    · exact (Function.update_of_ne hne _ _).trans (Threaded.redirect_of_ne hnext)
  · rw [remove_of_ne hl]
    exact ⟨rfl, rfl⟩

omit [DecidableEq ι] [DecidableEq ν] in
/-- A node is in one list only. -/
lemma not_mem_other (h' : h.Represents this l) (hi : h.Represents i m) (hne : i ≠ this)
    (hb : b ∈ m) : b ∉ l := by
  intro hc
  have hlist : some i = some this := ((hi.member b).mpr hb).symm.trans ((h'.member b).mpr hc)
  exact hne (Option.some.inj hlist)

/-- Adding to one list leaves the others alone. -/
lemma add_other (h' : h.Represents this l) (hi : h.Represents i m) (hne : i ≠ this)
    (ha : h.list_ a = none) : (h.add this a).Represents i m := by
  have hfresh : ∀ c ∈ m, c ≠ a := by
    rintro c hc rfl
    exact Option.some_ne_none i (((hi.member c).mpr hc).symm.trans ha)
  have hhooks : ∀ c ∈ m,
      (h.add this a).next_ c = h.next_ c ∧ (h.add this a).prev_ c = h.prev_ c := by
    intro c hc
    exact h'.add_hooks (h'.not_mem_other hi hne hc) (hfresh c hc)
  constructor
  · rw [add_head_, Function.update_of_ne hne]
    exact hi.threads.congr (fun c hc => (hhooks c hc).1) (fun c hc => (hhooks c hc).2)
  · intro c
    rw [add_list_]
    rcases eq_or_ne c a with rfl | hc
    · rw [Function.update_self]
      exact ⟨fun heq => absurd (Option.some.inj heq).symm hne, fun hm => absurd rfl (hfresh c hm)⟩
    · rw [Function.update_of_ne hc]
      exact hi.member c

/-- Removing from one list leaves the others alone. -/
lemma remove_other (h' : h.Represents this l) (hi : h.Represents i m) (hne : i ≠ this) (a : ν) :
    (h.remove this a).Represents i m := by
  have hhooks : ∀ c ∈ m,
      (h.remove this a).next_ c = h.next_ c ∧ (h.remove this a).prev_ c = h.prev_ c := by
    intro c hc
    exact h'.remove_hooks a (h'.not_mem_other hi hne hc)
  have hthreads := hi.threads.congr (fun c hc => (hhooks c hc).1) (fun c hc => (hhooks c hc).2)
  by_cases hl : h.list_ a = some this
  · have ha : a ∈ l := (h'.member a).mp hl
    rw [remove_eq hl (h'.prev_ne_self ha)] at hthreads ⊢
    constructor
    · show Threaded _ _ (Function.update h.head_ this _ i) m
      rw [Function.update_of_ne hne]
      exact hthreads
    · intro c
      show Function.update h.list_ a none c = some i ↔ c ∈ m
      rcases eq_or_ne c a with rfl | hc
      · rw [Function.update_self]
        exact ⟨fun heq => absurd heq.symm (Option.some_ne_none i),
          fun hm => absurd ha (h'.not_mem_other hi hne hm)⟩
      · rw [Function.update_of_ne hc]
        exact hi.member c
  · rw [remove_of_ne hl]
    exact hi

end Other

omit [DecidableEq ι] [DecidableEq ν] in
/-- Moving a cursor changes no link. -/
lemma of_cursor (h' : h.Represents this l) (c : ι → Option ν) :
    ({ h with cursor_ := c } : Heap ι ν).Represents this l :=
  ⟨h'.threads, h'.member⟩

end Represents

end Heap

end ReactorRuntime
