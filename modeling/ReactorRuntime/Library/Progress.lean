import Mathlib.Algebra.Ring.Nat
import ReactorRuntime.Library.Machine

/-!
# Progress

That a machine can always come to a goal is shown one stretch at a time: from every state of an
invariant that is not at the goal, some run of permitted actions leads to a state of the invariant
with a smaller measure.  The rule composes the stretches.  A measure is a natural number, so where a
party waits for another the two have a rule application of their own, and the outer one sees
the whole wait as a single stretch.

How much work a run can hold is shown with a potential: each action pays for its cost out of what
the potential falls by and an allowance that comes with it, so all the costs of a run are covered by
its allowances (`sum_cost_le_of_potential`).
-/

namespace ReactorRuntime

namespace Machine

variable {σ α : Type*} {M : Machine σ α} {ok ok' : σ → α → Prop} {s t u : σ}

lemma LeadsUnder.here (s : σ) : M.LeadsUnder ok s s := Relation.ReflTransGen.refl

lemma LeadsUnder.andThen (h : M.LeadsUnder ok s t) (h' : M.LeadsUnder ok t u) :
    M.LeadsUnder ok s u := Relation.ReflTransGen.trans h h'

lemma LeadsUnder.of_step {a : α} (hok : ok s a) (hstep : M.step s a = some t) :
    M.LeadsUnder ok s t := Relation.ReflTransGen.single ⟨a, hok, hstep⟩

/-- A run goes on after a reachable state, under weaker conditions. -/
lemma ReachableUnder.leads (h : M.ReachableUnder ok s) (hlead : M.LeadsUnder ok' s t)
    (hok : ∀ s a, ok' s a → ok s a) : M.ReachableUnder ok t :=
  LeadsUnder.andThen h (hlead.mono hok)

/-- **The progress rule.**  Where every stretch that is not at the goal can be followed by
one with a smaller measure, the goal can be reached. -/
theorem exists_leadsUnder_of_measure {I G : σ → Prop} (μ : σ → ℕ)
    (hprogress : ∀ s, I s → ¬G s → ∃ t, M.LeadsUnder ok s t ∧ I t ∧ μ t < μ s) (hs : I s) :
    ∃ t, M.LeadsUnder ok s t ∧ I t ∧ G t := by
  induction hμ : μ s using Nat.strongRecOn generalizing s with
  | ind m ih =>
      by_cases hgoal : G s
      · exact ⟨s, .here s, hs, hgoal⟩
      · obtain ⟨t, hlead, ht, hlt⟩ := hprogress s hs hgoal
        obtain ⟨u, hlead', hu, hgoal'⟩ := ih (μ t) (hμ ▸ hlt) ht rfl
        exact ⟨u, hlead.andThen hlead', hu, hgoal'⟩

/-- **The accounting rule.**  Where the cost of every step is covered by the fall of a potential and
the step's allowance, the costs of a run are covered by its allowances and what the potential was at
first. -/
theorem sum_cost_le_of_potential {I : σ → Prop} {okb : σ → α → Bool} (Φ : σ → ℕ)
    (cost allowance : α → ℕ)
    (hstep : ∀ s a t, I s → okb s a = true → M.step s a = some t →
      I t ∧ Φ t + cost a ≤ Φ s + allowance a) {as : List α} (hs : I s)
    (h : M.runUnder okb s as = some t) :
    (as.map cost).sum + Φ t ≤ Φ s + (as.map allowance).sum := by
  induction as generalizing s with
  | nil =>
      cases h
      simp
  | cons a as ih =>
      obtain ⟨hok, h⟩ := Option.ite_none_right_eq_some.mp h
      obtain ⟨u, hu, hrest⟩ := Option.bind_eq_some_iff.mp h
      obtain ⟨hinv, hpaid⟩ := hstep s a u hs hok hu
      have hle := ih hinv hrest
      simp only [List.map_cons, List.sum_cons]
      omega

end Machine

end ReactorRuntime
