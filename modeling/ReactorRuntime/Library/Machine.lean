import Mathlib.Logic.Relation
import Mathlib.Tactic.Lemma

/-!
# Machines driven by actions

Every concurrent component of this development is a `Machine`: a state type, a first state,
and a *partial* step function that says what one action does.  The actions resolve all
nondeterminism (which thread moves, what the operating system answers, what a callback
does), so the step function stays computable and a concrete interleaving is a plain list of
actions that `Machine.run` evaluates.

A run may be restricted by a condition `ok` on each step, judged in the state *before* the
step.  `ReachableUnder ok` is reachability through runs all of whose steps meet `ok`;
`Reachable` is the unrestricted notion.  The two rules every safety result below goes through
are `ReachableUnder.invariant` (an inductive invariant holds of every reachable state) and
`exists_reachable_of_run` (an evaluated run exhibits a reachable state).

What is said about the past of a state, that something was the case at some moment of the run that
led to it, is said of a `Trail`, which is one run with the states it has passed.
-/

namespace ReactorRuntime

/-- A first state and a partial step function.  `step s a = none` means that action `a` is
not enabled in `s`. -/
structure Machine (σ : Type*) (α : Type*) where
  /-- The state every run begins in. -/
  init : σ
  /-- The state action `a` leads to, when it is enabled. -/
  step : σ → α → Option σ

namespace Machine

variable {σ α : Type*} (M : Machine σ α)

/-- One step whose action meets `ok` in the state it is taken from. -/
def StepUnder (ok : σ → α → Prop) (s s' : σ) : Prop :=
  ∃ a, ok s a ∧ M.step s a = some s'

/-- `s'` can follow `s` after any number of steps that all meet `ok`. -/
def LeadsUnder (ok : σ → α → Prop) : σ → σ → Prop :=
  Relation.ReflTransGen (M.StepUnder ok)

/-- The states of the runs all of whose steps meet `ok`. -/
def ReachableUnder (ok : σ → α → Prop) (s : σ) : Prop :=
  M.LeadsUnder ok M.init s

/-- `s'` can follow `s`. -/
def Leads : σ → σ → Prop := M.LeadsUnder fun _ _ => True

/-- The states of all runs. -/
def Reachable (s : σ) : Prop := M.ReachableUnder (fun _ _ => True) s

variable {M} {ok : σ → α → Prop} {s s' : σ}

lemma ReachableUnder.init : M.ReachableUnder ok M.init := Relation.ReflTransGen.refl

lemma ReachableUnder.step {a : α} (h : M.ReachableUnder ok s) (hok : ok s a)
    (hstep : M.step s a = some s') : M.ReachableUnder ok s' :=
  Relation.ReflTransGen.tail h ⟨a, hok, hstep⟩

/-- A predicate that one `ok` step preserves is preserved by every `ok` run. -/
lemma LeadsUnder.preserves {I : σ → Prop} (h : M.LeadsUnder ok s s')
    (hstep : ∀ s a s', I s → ok s a → M.step s a = some s' → I s') (hs : I s) : I s' := by
  induction h with
  | refl => exact hs
  | tail _ hlast ih =>
      obtain ⟨a, hok, ha⟩ := hlast
      exact hstep _ a _ ih hok ha

/-- **The invariant rule.**  A predicate that holds at first and that every `ok` step
preserves holds of every state of every `ok` run. -/
theorem ReachableUnder.invariant {I : σ → Prop} (h : M.ReachableUnder ok s)
    (hinit : I M.init)
    (hstep : ∀ s a s', I s → ok s a → M.step s a = some s' → I s') : I s :=
  LeadsUnder.preserves h hstep hinit

lemma LeadsUnder.mono {ok' : σ → α → Prop} (h : M.LeadsUnder ok s s')
    (hok : ∀ s a, ok s a → ok' s a) : M.LeadsUnder ok' s s' :=
  Relation.ReflTransGen.mono (fun _ _ ⟨a, ha, hstep⟩ => ⟨a, hok _ a ha, hstep⟩) _ _ h

/-- Fewer conditions on the steps give more reachable states. -/
lemma ReachableUnder.mono {ok' : σ → α → Prop} (h : M.ReachableUnder ok s)
    (hok : ∀ s a, ok s a → ok' s a) : M.ReachableUnder ok' s := LeadsUnder.mono h hok

lemma ReachableUnder.reachable (h : M.ReachableUnder ok s) : M.Reachable s :=
  h.mono fun _ _ _ => trivial

/-! ## Runs with their past -/

variable (M ok) in
/-- A run all of whose steps meet `ok`: the states it has passed, the last one first, and the state
it has come to. -/
inductive TrailUnder : List σ → σ → Prop
  | init : TrailUnder [] M.init
  | step {past : List σ} {s s' : σ} {a : α} (h : TrailUnder past s) (hok : ok s a)
      (hstep : M.step s a = some s') : TrailUnder (s :: past) s'

variable (M) in
/-- A run with the states it has passed. -/
abbrev Trail : List σ → σ → Prop := M.TrailUnder fun _ _ => True

lemma TrailUnder.reachableUnder {past : List σ} (h : M.TrailUnder ok past s) :
    M.ReachableUnder ok s := by
  induction h with
  | init => exact .init
  | step _ hok hstep ih => exact ih.step hok hstep

/-- `p` holds of the present state or of one that was passed. -/
def Once (past : List σ) (s : σ) (p : σ → Prop) : Prop := ∃ u ∈ s :: past, p u

lemma Once.now {past : List σ} {p : σ → Prop} (h : p s) : Once past s p :=
  ⟨s, List.mem_cons_self, h⟩

/-- What was once the case was once the case one step later. -/
lemma Once.later {past : List σ} {p : σ → Prop} (h : Once past s p) : Once (s :: past) s' p := by
  obtain ⟨u, hu, hp⟩ := h
  exact ⟨u, List.mem_cons_of_mem _ hu, hp⟩

/-! ## Evaluated runs -/

/-- The state after a list of actions, if each is enabled in its turn and meets the Boolean
condition `okb`. -/
def runUnder (M : Machine σ α) (okb : σ → α → Bool) : σ → List α → Option σ
  | s, [] => some s
  | s, a :: as =>
      if okb s a then (M.step s a).bind fun s' => M.runUnder okb s' as else none

/-- The state after a list of actions, if each is enabled in its turn. -/
def run (M : Machine σ α) : σ → List α → Option σ := M.runUnder fun _ _ => true

lemma run_cons (M : Machine σ α) (s : σ) (a : α) (as : List α) :
    M.run s (a :: as) = (M.step s a).bind fun s' => M.run s' as := by
  simp only [run, runUnder, if_true]

lemma leadsUnder_of_runUnder {okb : σ → α → Bool} (hok : ∀ s a, okb s a = true → ok s a) :
    ∀ {as : List α} {s : σ}, M.runUnder okb s as = some s' → M.LeadsUnder ok s s'
  | [], s, h => by
      cases h
      exact Relation.ReflTransGen.refl
  | a :: as, s, h => by
      rw [runUnder] at h
      split at h
      · rename_i ha
        obtain ⟨s₁, h₁, hrest⟩ := Option.bind_eq_some_iff.mp h
        exact Relation.ReflTransGen.head ⟨a, hok s a ha, h₁⟩ (leadsUnder_of_runUnder hok hrest)
      · exact absurd h (by simp)

/-- A run that evaluates to a state on which the test `p` answers `true` exhibits such a
state among the reachable ones. -/
lemma exists_reachableUnder_of_run (M : Machine σ α) (okb : σ → α → Bool)
    (hok : ∀ s a, okb s a = true → ok s a) (as : List α) (p : σ → Bool)
    (h : (M.runUnder okb M.init as).any p = true) :
    ∃ s, M.ReachableUnder ok s ∧ p s = true := by
  rw [Option.any_eq_true] at h
  obtain ⟨s, hs, hp⟩ := h
  exact ⟨s, leadsUnder_of_runUnder hok hs, hp⟩

lemma exists_reachable_of_run (M : Machine σ α) (as : List α) (p : σ → Bool)
    (h : (M.run M.init as).any p = true) : ∃ s, M.Reachable s ∧ p s = true :=
  exists_reachableUnder_of_run M _ (fun _ _ _ => trivial) as p h

/-- The states passed and the state reached by a list of actions, if each is enabled in its turn and
meets the Boolean condition `okb`. -/
def trailUnder (M : Machine σ α) (okb : σ → α → Bool) :
    List σ → σ → List α → Option (List σ × σ)
  | past, s, [] => some (past, s)
  | past, s, a :: as =>
      if okb s a then (M.step s a).bind fun s' => M.trailUnder okb (s :: past) s' as else none

lemma TrailUnder.extend {okb : σ → α → Bool} (hok : ∀ s a, okb s a = true → ok s a) :
    ∀ {as : List α} {past : List σ} {s : σ} {r : List σ × σ}, M.TrailUnder ok past s →
      M.trailUnder okb past s as = some r → M.TrailUnder ok r.1 r.2
  | [], past, s, r, h, hr => by
      cases hr
      exact h
  | a :: as, past, s, r, h, hr => by
      rw [trailUnder] at hr
      obtain ⟨ha, hr⟩ := Option.ite_none_right_eq_some.mp hr
      obtain ⟨s₁, h₁, hrest⟩ := Option.bind_eq_some_iff.mp hr
      exact (h.step (hok s a ha) h₁).extend hok hrest

lemma exists_trailUnder_of_run (M : Machine σ α) (okb : σ → α → Bool)
    (hok : ∀ s a, okb s a = true → ok s a) (as : List α) (p : List σ → σ → Bool)
    (h : (M.trailUnder okb [] M.init as).any (fun r => p r.1 r.2) = true) :
    ∃ past s, M.TrailUnder ok past s ∧ p past s = true := by
  rw [Option.any_eq_true] at h
  obtain ⟨r, hr, hp⟩ := h
  exact ⟨r.1, r.2, TrailUnder.init.extend hok hr, hp⟩

end Machine

end ReactorRuntime
