import Mathlib.Data.List.Nodup
import Mathlib.Logic.Function.Basic
import Mathlib.Tactic.Lemma
import Mathlib.Tactic.Cases

/-!
# Doubly linked lists threaded through node hooks

An intrusive list keeps its links inside the nodes: a partial map `next`, a partial map
`prev` and a head pointer.  `Threaded next prev head l` says that these three hold exactly the
duplicate-free sequence `l`.  The links are described by *splits*: whenever
`l = l₁ ++ a :: l₂`, the successor of `a` is the head of `l₂` and its predecessor the last
element of `l₁`.  Every position in the list is then read off by splitting, and no induction
over the heap is needed.

The two operations are `Threaded.push` (link a fresh node at the front) and `Threaded.unlink`
(take a node out by redirecting its neighbours).  A position in the list is a suffix of `l`,
and a cursor stands at it when it points to the suffix's first node;
`Threaded.next_of_suffix` advances such a cursor.

What a reader of the links sees is the chain from the head (`Threaded.follows`) and that the two
links of neighbours name each other (`Threaded.prev_of_next`, `Threaded.next_of_prev`).  Links of
nodes outside the sequence do not matter (`Threaded.congr`), so that any number of sequences can be
threaded through one heap.
-/

namespace ReactorRuntime

variable {ν : Type*}

/-- `next`, `prev` and `head` thread the duplicate-free sequence `l`. -/
structure Threaded (next prev : ν → Option ν) (head : Option ν) (l : List ν) : Prop where
  /-- No node occurs twice. -/
  nodup : l.Nodup
  /-- The head pointer is the first node. -/
  head_eq : head = l.head?
  /-- The links of a node name its neighbours. -/
  links : ∀ l₁ a l₂, l = l₁ ++ a :: l₂ → next a = l₂.head? ∧ prev a = l₁.getLast?

/-- Following `next` from a pointer passes the nodes of the list, in order, and ends in null. -/
inductive Follows (next : ν → Option ν) : Option ν → List ν → Prop
  | nil : Follows next none []
  | cons {a : ν} {l : List ν} (h : Follows next (next a) l) : Follows next (some a) (a :: l)

namespace Threaded

variable {next prev : ν → Option ν} {head : Option ν} {l : List ν} {a : ν}

lemma nil (next prev : ν → Option ν) : Threaded next prev none [] where
  nodup := List.nodup_nil
  head_eq := rfl
  links := by
    intro l₁ a l₂ h
    simp at h

/-- A cursor at the front of a suffix moves to the front of what is left of it. -/
lemma next_of_suffix (h : Threaded next prev head l) {t : List ν} (hs : (a :: t) <:+ l) :
    next a = t.head? := by
  obtain ⟨l₁, rfl⟩ := hs
  exact (h.links l₁ a t rfl).1

lemma follows_of_suffix (h : Threaded next prev head l) {t : List ν} (hs : t <:+ l) :
    Follows next t.head? t := by
  induction t with
  | nil => exact .nil
  | cons a t ih =>
      have hrest := ih ((List.suffix_cons a t).trans hs)
      rw [← h.next_of_suffix hs] at hrest
      exact .cons hrest

/-- The chain from the head is the sequence. -/
lemma follows (h : Threaded next prev head l) : Follows next head l := by
  rw [h.head_eq]
  exact h.follows_of_suffix (List.suffix_refl l)

lemma prev_of_next {b : ν} (h : Threaded next prev head l) (ha : a ∈ l) (hb : next a = some b) :
    b ∈ l ∧ prev b = some a := by
  obtain ⟨l₁, l₂, rfl⟩ := List.append_of_mem ha
  rw [(h.links l₁ a l₂ rfl).1] at hb
  obtain ⟨l₃, rfl⟩ := List.head?_eq_some_iff.mp hb
  refine ⟨by simp, ?_⟩
  rw [(h.links (l₁ ++ [a]) b l₃ (by simp)).2]
  exact List.getLast?_concat

lemma next_of_prev {b : ν} (h : Threaded next prev head l) (hb : b ∈ l) (ha : prev b = some a) :
    a ∈ l ∧ next a = some b := by
  obtain ⟨l₁, l₂, rfl⟩ := List.append_of_mem hb
  rw [(h.links l₁ b l₂ rfl).2] at ha
  obtain ⟨l₃, rfl⟩ := List.getLast?_eq_some_iff.mp ha
  refine ⟨by simp, ?_⟩
  rw [(h.links l₃ a (b :: l₂) (by simp)).1]
  rfl

/-- Only the links of the nodes in the sequence count. -/
lemma congr {next' prev' : ν → Option ν} (h : Threaded next prev head l)
    (hnext : ∀ b ∈ l, next' b = next b) (hprev : ∀ b ∈ l, prev' b = prev b) :
    Threaded next' prev' head l where
  nodup := h.nodup
  head_eq := h.head_eq
  links := by
    intro l₁ b l₂ hl
    have hb : b ∈ l := by simp [hl]
    rw [hnext b hb, hprev b hb]
    exact h.links l₁ b l₂ hl

lemma head_mem {b : ν} (h : Threaded next prev head l) (hb : head = some b) : b ∈ l := by
  rw [h.head_eq] at hb
  exact List.mem_of_mem_head? hb

/-- Where a split of an append falls: in its second part or in its first. -/
lemma split_append {m₁ m₂ l₁ l₂ : List ν} {b : ν} (h : m₁ ++ m₂ = l₁ ++ b :: l₂) :
    (∃ r, l₁ = m₁ ++ r ∧ m₂ = r ++ b :: l₂) ∨ (∃ r, m₁ = l₁ ++ b :: r ∧ l₂ = r ++ m₂) := by
  rcases List.append_eq_append_iff.mp h with ⟨r, h₁, h₂⟩ | ⟨r, h₁, h₂⟩
  · exact .inl ⟨r, h₁, h₂⟩
  · rcases r with _ | ⟨c, r⟩
    · exact .inl ⟨[], by simpa using h₁.symm, by simpa using h₂.symm⟩
    · obtain ⟨rfl, rfl⟩ : b = c ∧ l₂ = r ++ m₂ := by simpa using h₂
      exact .inr ⟨r, h₁, rfl⟩

/-- In a duplicate-free list a node is the last of what precedes it never. -/
lemma getLast?_ne_of_nodup {m₁ m₂ : List ν} {b : ν} (h : (m₁ ++ m₂).Nodup) (hb : b ∈ m₂) :
    m₁.getLast? ≠ some b := fun hc =>
  List.disjoint_of_nodup_append h (List.mem_of_getLast? hc) hb

lemma head?_ne_of_nodup {m₁ m₂ : List ν} {b : ν} (h : (m₁ ++ m₂).Nodup) (hb : b ∈ m₁) :
    m₂.head? ≠ some b := fun hc =>
  List.disjoint_of_nodup_append h hb (List.mem_of_mem_head? hc)

section Updates

variable [DecidableEq ν]

/-- Set the link of the node `p` points at, if there is one, to `x`. -/
def redirect (link : ν → Option ν) (p : Option ν) (x : Option ν) : ν → Option ν :=
  match p with
  | some b => Function.update link b x
  | none => link

@[simp] lemma redirect_some_self (link : ν → Option ν) (b : ν) (x : Option ν) :
    redirect link (some b) x b = x := by
  simp [redirect]

lemma redirect_of_ne {link : ν → Option ν} {p x : Option ν} {b : ν} (h : p ≠ some b) :
    redirect link p x b = link b := by
  cases p with
  | none => rfl
  | some c => exact Function.update_of_ne (fun hc => h (by rw [hc])) _ _

/-- **Linking at the front.**  A fresh node whose successor is the old head and whose
predecessor is null becomes the first element, once the old head points back at it. -/
lemma push (h : Threaded next prev head l) (ha : a ∉ l) :
    Threaded (Function.update next a head)
      (redirect (Function.update prev a none) head (some a)) (some a) (a :: l) where
  nodup := List.nodup_cons.mpr ⟨ha, h.nodup⟩
  head_eq := rfl
  links := by
    have hhead : head ≠ some a := fun hc => ha (h.head_mem hc)
    intro l₁ b l₂ hl
    rcases l₁ with _ | ⟨c, l₁⟩
    · -- the new node itself: its links are the two assignments
      obtain ⟨rfl, rfl⟩ : a = b ∧ l = l₂ := by simpa using hl
      exact ⟨by simp [h.head_eq], by simp [redirect_of_ne hhead]⟩
    · obtain ⟨rfl, rfl⟩ : a = c ∧ l = l₁ ++ b :: l₂ := by simpa using hl
      have hba : b ≠ a := fun hc => ha (by simp [hc])
      obtain ⟨hnext, hprev⟩ := h.links l₁ b l₂ rfl
      refine ⟨by rw [Function.update_of_ne hba, hnext], ?_⟩
      rcases l₁ with _ | ⟨d, l₁⟩
      · -- `b` was the head, and now points back at the new node
        simp [h.head_eq]
      · have hne : head ≠ some b := by
          rw [h.head_eq]
          rintro hc
          obtain rfl : d = b := by simpa using hc
          simpa using h.nodup
        rw [redirect_of_ne hne, Function.update_of_ne hba, hprev]
        simp

/-- The head pointer after a node with predecessor `p` and successor `x` left the list. -/
def headWithout (head p x : Option ν) : Option ν :=
  match p with
  | some _ => head
  | none => x

/-- **Unlinking.**  Redirecting both neighbours of a member past it, and the head when it has
no predecessor, leaves the list without it.  The hooks of the removed node itself are free. -/
lemma unlink (h : Threaded next prev head l) (ha : a ∈ l) :
    Threaded (Function.update (redirect next (prev a) (next a)) a none)
      (Function.update (redirect prev (next a) (prev a)) a none)
      (headWithout head (prev a) (next a)) (l.erase a) := by
  obtain ⟨m₁, m₂, rfl⟩ := List.append_of_mem ha
  obtain ⟨hnext, hprev⟩ := h.links m₁ a m₂ rfl
  obtain ⟨hfresh, hnd⟩ := List.nodup_cons.mp (List.nodup_middle.mp h.nodup)
  have herase : (m₁ ++ a :: m₂).erase a = m₁ ++ m₂ := by
    rw [List.erase_append_right _ (fun hc => hfresh (List.mem_append_left _ hc)),
      List.erase_cons_head]
  rw [herase]
  refine ⟨hnd, ?_, ?_⟩
  · rw [hprev, hnext, h.head_eq]
    rcases m₁ with _ | ⟨c, m₁⟩
    · simp [headWithout]
    · rcases hlast : (c :: m₁).getLast? with _ | d
      · simp at hlast
      · simp [headWithout]
  · intro l₁ b l₂ hl
    have hba : b ≠ a := by
      rintro rfl
      exact hfresh (by simp [hl])
    rw [Function.update_of_ne hba, Function.update_of_ne hba, hprev, hnext]
    rcases split_append hl with ⟨r, rfl, rfl⟩ | ⟨r, rfl, rfl⟩
    · -- `b` lies behind the removed node: only its predecessor can change
      obtain ⟨hnb, hpb⟩ := h.links (m₁ ++ a :: r) b l₂ (by simp)
      refine ⟨by rw [redirect_of_ne (getLast?_ne_of_nodup hnd (by simp)), hnb], ?_⟩
      rcases r with _ | ⟨c, r⟩
      · simp
      · have hne : (c :: r ++ b :: l₂).head? ≠ some b := by
          intro hc
          obtain rfl : c = b := by simpa using hc
          have := (List.nodup_append.mp hnd).2.1
          simp at this
        rw [redirect_of_ne hne, hpb]
        simp
    · -- `b` lies before the removed node: only its successor can change
      obtain ⟨hnb, hpb⟩ := h.links l₁ b (r ++ a :: m₂) (by simp)
      refine ⟨?_, by rw [redirect_of_ne (head?_ne_of_nodup hnd (by simp)), hpb]⟩
      rcases r with _ | ⟨c, r⟩
      · simp
      · have hlast : (l₁ ++ b :: c :: r).getLast? = (c :: r).getLast? := by
          rw [show l₁ ++ b :: c :: r = (l₁ ++ [b]) ++ c :: r by simp, List.getLast?_append]
          simp [List.getLast?_cons]
        have hne : (l₁ ++ b :: c :: r).getLast? ≠ some b := by
          intro hc
          have hmem : b ∈ c :: r := List.mem_of_getLast? (hlast ▸ hc)
          have hnd₁ := (List.nodup_append.mp (List.nodup_append.mp hnd).1).2.1
          exact (List.nodup_cons.mp hnd₁).1 hmem
        rw [redirect_of_ne hne, hnb]
        simp

end Updates

end Threaded

end ReactorRuntime
