import Mathlib.Data.List.Induction
import ReactorRuntime.Library.Machine

/-!
# Simulation

A machine `M` implements a machine `N` when there is a way of looking at the states of `M`, and at
what its steps show, under which every step of `M` shows nothing and changes nothing, or is the step
of `N` that it shows.  Then whatever a run of `M` shows is a run of `N`, to the state that is seen
at its end (`Simulates.run`).
-/

namespace ReactorRuntime

namespace Machine

variable {σ α τ β : Type*} {M : Machine σ α} {N : Machine τ β} {ok : σ → α → Prop}
  {look : σ → τ} {shown : σ → α → Option β}

/-- One step of `N`, or none. -/
def stepOption (N : Machine τ β) (x : τ) : Option β → Option τ
  | none => some x
  | some e => N.step x e

lemma run_append (N : Machine τ β) (x : τ) (es fs : List β) :
    N.run x (es ++ fs) = (N.run x es).bind fun y => N.run y fs := by
  induction es generalizing x with
  | nil => rfl
  | cons e es ih =>
      rw [List.cons_append, run_cons, run_cons]
      cases N.step x e with
      | none => rfl
      | some y => exact ih y

lemma run_toList (N : Machine τ β) (x : τ) (o : Option β) :
    N.run x o.toList = N.stepOption x o := by
  cases o with
  | none => rfl
  | some e =>
      simp only [run, runUnder, Option.toList_some, if_true, stepOption]
      exact Option.bind_fun_some _

/-- What each step carries from the actions so far to the next holds of a whole run. -/
theorem run_induction {I : List β → τ → Prop} {x₀ x : τ} (hinit : I [] x₀)
    (hstep : ∀ es x e y, I es x → N.step x e = some y → I (es ++ [e]) y) {es : List β}
    (h : N.run x₀ es = some x) : I es x := by
  induction es using List.reverseRecOn generalizing x with
  | nil =>
      cases h
      exact hinit
  | append_singleton es e ih =>
      rw [run_append] at h
      obtain ⟨y, hy, hlast⟩ := Option.bind_eq_some_iff.mp h
      exact hstep es y e x (ih hy) ((N.run_toList y (some e)).symm.trans hlast)

/-- A run, at one of its actions. -/
lemma exists_step_of_run {x₀ x : τ} {es fs : List β} {e : β}
    (h : N.run x₀ (es ++ e :: fs) = some x) :
    ∃ y z, N.run x₀ es = some y ∧ N.step y e = some z := by
  rw [run_append] at h
  obtain ⟨y, hy, hrest⟩ := Option.bind_eq_some_iff.mp h
  rw [run_cons] at hrest
  obtain ⟨z, hz, -⟩ := Option.bind_eq_some_iff.mp hrest
  exact ⟨y, z, hy, hz⟩

variable (M ok shown) in
/-- A run all of whose steps meet `ok`: what it has shown, and the state it has come to. -/
inductive ShownUnder : List β → σ → Prop
  | init : ShownUnder [] M.init
  | step {seen : List β} {s s' : σ} {a : α} (h : ShownUnder seen s) (hok : ok s a)
      (hstep : M.step s a = some s') : ShownUnder (seen ++ (shown s a).toList) s'

lemma ShownUnder.reachableUnder {seen : List β} {s : σ} (h : M.ShownUnder ok shown seen s) :
    M.ReachableUnder ok s := by
  induction h with
  | init => exact .init
  | step _ hok hstep ih => exact ih.step hok hstep

lemma ReachableUnder.exists_shown {s : σ} (h : M.ReachableUnder ok s) :
    ∃ seen : List β, M.ShownUnder ok shown seen s := by
  induction h with
  | refl => exact ⟨[], .init⟩
  | tail _ hlast ih =>
      obtain ⟨seen, hseen⟩ := ih
      obtain ⟨a, hok, hstep⟩ := hlast
      exact ⟨_, hseen.step hok hstep⟩

/-- What a list of actions shows and the state it comes to, if each is enabled in its turn and meets
the Boolean condition `okb`. -/
def shownUnder (M : Machine σ α) (okb : σ → α → Bool) (shown : σ → α → Option β) :
    List β → σ → List α → Option (List β × σ)
  | seen, s, [] => some (seen, s)
  | seen, s, a :: as =>
      if okb s a then
        (M.step s a).bind fun s' => M.shownUnder okb shown (seen ++ (shown s a).toList) s' as
      else none

lemma ShownUnder.extend {okb : σ → α → Bool} (hok : ∀ s a, okb s a = true → ok s a) {as : List α}
    {seen : List β} {s : σ} {r : List β × σ} (h : M.ShownUnder ok shown seen s)
    (hr : M.shownUnder okb shown seen s as = some r) : M.ShownUnder ok shown r.1 r.2 := by
  induction as generalizing seen s with
  | nil =>
      cases hr
      exact h
  | cons a as ih =>
      rw [shownUnder] at hr
      obtain ⟨ha, hr⟩ := Option.ite_none_right_eq_some.mp hr
      obtain ⟨s₁, h₁, hrest⟩ := Option.bind_eq_some_iff.mp hr
      exact ih (h.step (hok s a ha) h₁) hrest

lemma exists_shownUnder_of_run (M : Machine σ α) (okb : σ → α → Bool)
    (hok : ∀ s a, okb s a = true → ok s a) (shown : σ → α → Option β) (as : List α)
    (p : List β → σ → Bool)
    (h : (M.shownUnder okb shown [] M.init as).any (fun r => p r.1 r.2) = true) :
    ∃ seen s, M.ShownUnder ok shown seen s ∧ p seen s = true := by
  rw [Option.any_eq_true] at h
  obtain ⟨r, hr, hp⟩ := h
  exact ⟨r.1, r.2, ShownUnder.init.extend hok hr, hp⟩

/-- A relation that every step of `M` carries along the step of `N` that it shows. -/
theorem ShownUnder.run_of_relation {R : σ → τ → Prop} (hinit : R M.init N.init)
    (hstep : ∀ s a s' x, M.ReachableUnder ok s → ok s a → M.step s a = some s' → R s x →
      ∃ y, N.stepOption x (shown s a) = some y ∧ R s' y)
    {seen : List β} {s : σ} (hs : M.ShownUnder ok shown seen s) :
    ∃ y, N.run N.init seen = some y ∧ R s y := by
  induction hs with
  | init => exact ⟨N.init, rfl, hinit⟩
  | step hseen hok hs' ih =>
      obtain ⟨x, hrun, hR⟩ := ih
      obtain ⟨y, hy, hR'⟩ := hstep _ _ _ x hseen.reachableUnder hok hs' hR
      refine ⟨y, ?_, hR'⟩
      rw [run_append, hrun, Option.bind_some, run_toList]
      exact hy

variable (M N ok look shown) in
/-- Every step of `M` is, under `look`, the step of `N` that it shows. -/
structure Simulates : Prop where
  init : look M.init = N.init
  step : ∀ s a s', M.ReachableUnder ok s → ok s a → M.step s a = some s' →
    N.stepOption (look s) (shown s a) = some (look s')

/-- **What a run shows is a run.** -/
theorem Simulates.run (h : M.Simulates N ok look shown) {seen : List β} {s : σ}
    (hs : M.ShownUnder ok shown seen s) : N.run N.init seen = some (look s) := by
  have hstep : ∀ s a s' x, M.ReachableUnder ok s → ok s a → M.step s a = some s' → look s = x →
      ∃ y, N.stepOption x (shown s a) = some y ∧ look s' = y := by
    rintro s a s' x hreach hok hs' rfl
    exact ⟨_, h.step s a s' hreach hok hs', rfl⟩
  obtain ⟨y, hrun, rfl⟩ := hs.run_of_relation (R := fun s x => look s = x) h.init hstep
  exact hrun

/-- What holds under a condition holds under a stronger one. -/
lemma Simulates.mono {ok' : σ → α → Prop} (h : M.Simulates N ok look shown)
    (hok : ∀ s a, ok' s a → ok s a) : M.Simulates N ok' look shown where
  init := h.init
  step s a s' hs ha hstep := h.step s a s' (hs.mono hok) (hok s a ha) hstep

/-- What is seen of a reachable state is reachable, under what the shown steps meet. -/
lemma Simulates.reachable {okN : τ → β → Prop} (h : M.Simulates N ok look shown)
    (hok : ∀ s a e, M.ReachableUnder ok s → ok s a → shown s a = some e → okN (look s) e)
    {s : σ} (hs : M.ReachableUnder ok s) : N.ReachableUnder okN (look s) := by
  induction hs with
  | refl =>
      rw [h.init]
      exact .init
  | @tail s s' hreach hlast ih =>
      obtain ⟨a, ha, hstep⟩ := hlast
      have hlook := h.step s a s' hreach ha hstep
      cases hshown : shown s a with
      | none =>
          rw [hshown] at hlook
          rw [← Option.some.inj hlook]
          exact ih
      | some e =>
          rw [hshown] at hlook
          exact ih.step (hok s a e hreach ha hshown) hlook

end Machine

end ReactorRuntime
