import Mathlib.Data.List.Nodup
import Mathlib.Data.List.Sublists
import Mathlib.Tactic.Lemma

/-!
# The reference walk over a changing sequence

A walk visits the elements of a sequence one at a time while other parties take elements
out.  What such a walk owes is stated against the sequence it started from: in that order,
once each, every element that has not been taken out before its turn.  A `Journal` records
one walk in exactly those terms.  `start` is the sequence at the beginning, `seen` what has
been visited, `gone` what was taken out before its turn, and `todo` what is still to come.

The journal is driven from outside: `visit a` notes that the walk visited `a` (whatever that
was, so a walk that skips or repeats spoils its journal), `drop a` that `a` was taken out.
`Exact` is the specification; it holds at the beginning, `drop` keeps it, and `visit` keeps it
precisely when the walk visits the head of `todo` (`Exact.visit`).
-/

namespace ReactorRuntime

/-- One walk, recorded against the sequence it started from. -/
structure Journal (ν : Type*) where
  /-- The sequence when the walk began. -/
  start : List ν
  /-- What the walk has yet to reach, in order. -/
  todo : List ν
  /-- What the walk has visited, in order. -/
  seen : List ν
  /-- What was taken out before its turn. -/
  gone : List ν
  deriving DecidableEq

namespace Journal

variable {ν : Type*}

/-- A walk that has visited nothing yet. -/
def begin (l : List ν) : Journal ν := ⟨l, l, [], []⟩

variable [DecidableEq ν]

/-- `a` is taken out of the sequence. -/
def drop (a : ν) (j : Journal ν) : Journal ν :=
  if a ∈ j.todo then { j with todo := j.todo.erase a, gone := a :: j.gone } else j

/-- The walk visits `a`; everything before it in `todo` has been passed over. -/
def visit (a : ν) (j : Journal ν) : Journal ν :=
  { j with todo := (j.todo.dropWhile (· ≠ a)).tail, seen := j.seen ++ [a] }

/-- **What a walk owes.**  It visits in order and without repetition, and an element of the
starting sequence is missed only by being taken out before its turn. -/
structure Exact (j : Journal ν) : Prop where
  nodup : j.start.Nodup
  /-- Those seen, then those to come, in the order of the start. -/
  order : (j.seen ++ j.todo).Sublist j.start
  cover : ∀ x ∈ j.start, x ∈ j.seen ∨ x ∈ j.gone ∨ x ∈ j.todo
  gone_missed : ∀ x ∈ j.gone, x ∉ j.seen ∧ x ∉ j.todo

@[simp] lemma drop_todo (a : ν) (j : Journal ν) : (j.drop a).todo = j.todo.erase a := by
  unfold drop
  split
  · rfl
  · rename_i h
    exact (List.erase_of_not_mem h).symm

lemma visit_head {a : ν} {t : List ν} {j : Journal ν} (h : j.todo = a :: t) :
    j.visit a = { j with todo := t, seen := j.seen ++ [a] } := by
  simp [visit, h]

namespace Exact

variable {j : Journal ν} {a : ν}

omit [DecidableEq ν] in
lemma begin {l : List ν} (h : l.Nodup) : (Journal.begin l).Exact where
  nodup := h
  order := by simp [Journal.begin]
  cover := fun x hx => .inr (.inr hx)
  gone_missed := by simp [Journal.begin]

omit [DecidableEq ν] in
lemma seen_nodup (h : j.Exact) : (j.seen ++ j.todo).Nodup := h.order.nodup h.nodup

omit [DecidableEq ν] in
lemma todo_nodup (h : j.Exact) : j.todo.Nodup := (List.nodup_append.mp h.seen_nodup).2.1

/-- Taking an element out keeps the record exact: if its turn had not come, it is owed no
visit any more. -/
lemma drop (h : j.Exact) (a : ν) : (j.drop a).Exact := by
  by_cases ha : a ∈ j.todo
  · have hseen : a ∉ j.seen := fun hc =>
      List.disjoint_of_nodup_append h.seen_nodup hc ha
    have heq : j.drop a = { j with todo := j.todo.erase a, gone := a :: j.gone } := by
      simp [Journal.drop, ha]
    rw [heq]
    refine ⟨h.nodup, ?_, ?_, ?_⟩
    · exact (List.Sublist.append_left List.erase_sublist j.seen).trans h.order
    · intro x hx
      by_cases hxa : x = a
      · exact .inr (.inl (by simp [hxa]))
      · rcases h.cover x hx with hs | hg | ht
        · exact .inl hs
        · exact .inr (.inl (List.mem_cons_of_mem _ hg))
        · exact .inr (.inr ((List.mem_erase_of_ne hxa).mpr ht))
    · intro x hx
      rcases List.mem_cons.mp hx with rfl | hg
      · exact ⟨hseen, h.todo_nodup.not_mem_erase⟩
      · exact ⟨(h.gone_missed x hg).1, fun hc => (h.gone_missed x hg).2 (List.mem_of_mem_erase hc)⟩
  · have heq : j.drop a = j := by simp [Journal.drop, ha]
    rw [heq]
    exact h

/-- Visiting the next element in order keeps the record exact. -/
lemma visit (h : j.Exact) {t : List ν} (hj : j.todo = a :: t) : (j.visit a).Exact := by
  rw [visit_head hj]
  have hperm : (j.seen ++ [a]) ++ t = j.seen ++ j.todo := by simp [hj]
  refine ⟨h.nodup, by simpa [hperm] using h.order, ?_, ?_⟩
  · intro x hx
    rcases h.cover x hx with hs | hg | ht
    · exact .inl (List.mem_append_left _ hs)
    · exact .inr (.inl hg)
    · rw [hj] at ht
      rcases List.mem_cons.mp ht with rfl | ht
      · exact .inl (by simp)
      · exact .inr (.inr ht)
  · intro x hx
    obtain ⟨hs, ht⟩ := h.gone_missed x hx
    rw [hj] at ht
    exact ⟨by simp [hs, (List.ne_of_not_mem_cons ht)], fun hc => ht (List.mem_cons_of_mem _ hc)⟩

end Exact

/-! ## Suffixes of a changing sequence -/

/-- Erasing keeps a suffix a suffix, when nothing occurs twice. -/
lemma erase_suffix_erase {t l : List ν} (h : t <:+ l) (hl : l.Nodup) (a : ν) :
    t.erase a <:+ l.erase a := by
  obtain ⟨p, rfl⟩ := h
  by_cases hp : a ∈ p
  · have ht : a ∉ t := fun hc => List.disjoint_of_nodup_append hl hp hc
    rw [List.erase_append_left _ hp, List.erase_of_not_mem ht]
    exact List.suffix_append _ _
  · rw [List.erase_append_right _ hp]
    exact List.suffix_append _ _

end Journal

end ReactorRuntime
