import ReactorRuntime.Server.Fleet
import ReactorRuntime.Server.Shutdown
import ReactorRuntime.Server.Startup

/-!
# Where the abort lists are accessed

An abort list has no lock.  It is to be accessed by the thread of its own loop only, or when that
loop is not claimed.

The library keeps to this in all it does on a reactor itself: a session is tracked where it is
spawned, the walks run on the loop or, with no loop claimed, on the caller of `abort_all()` and
`force_all()`, and what the teardown destroys it destroys after the threads are joined.  It does
not where a session moved away: neither `untrack` nor `~Abortable` looks at the thread it is
called on, so a `run_session` frame that ends on another loop takes its control off its home's
list from there.  So the lists are confined exactly as long as no session ends, or tracks or
untracks something of its own, away from its home while the home's loop is claimed.
-/

namespace ReactorRuntime

variable {ι : Type*} {n : ι → ℕ}

/-- The access is made on the list's own loop, or while that loop is not claimed. -/
def Access.Confined (a : Access n) : Prop := a.by_ = .loop a.list ∨ a.claimed = false

namespace Fleet

/-- A session that touches the list of its home does so at home, or when the loop there is not
claimed. -/
def AtHome (s : Fleet n) : Act n → Prop
  | .server i (.conn c (.unwind _)) => s.at_ i c = s.home i c ∨ s.claimed (s.home i c) = false
  | .touch i c _ => s.at_ i c = s.home i c ∨ s.claimed (s.home i c) = false
  | _ => True

/-- The session whose frame or body an action is of, if it accesses the list of that session's
home. -/
def Act.visitor : Act n → Option (ι × ℕ)
  | .server i (.conn c (.unwind _)) => some (i, c)
  | .touch i c _ => some (i, c)
  | _ => none

/-! ## Who runs what on a reactor -/

/-- The owner's fields of each server are in order. -/
def Manned (cfg : ι → Config) (s : Fleet n) : Prop :=
  ∀ i, Server.Hosted (cfg i) False (s.server i).host (s.server i).control

/-- What runs on a reactor is run by its loop thread, or its loop is not claimed. -/
lemma Manned.runner_confined {cfg : ι → Config} {s : Fleet n} (h : Manned cfg s) {p : Site n}
    {e : Executor n} (hrun : s.runner p = some e) : e = .loop p ∨ s.claimed p = false := by
  unfold runner at hrun
  split at hrun
  · cases hrun
    exact .inl rfl
  · next hdriven =>
      obtain ⟨htends, -⟩ := Option.ite_none_right_eq_some.mp hrun
      refine .inr ?_
      have hloops := (h p.1).loops p.2
      rw [if_neg] at hloops
      · simp [claimed, hloops]
      · rintro (hclaimed | hrunning)
        · -- the owner is between `claim_loop()` and the thread's creation, and runs nothing else
          simp [tends, (h p.1).claimed p.2 hclaimed] at htends
        · exact hdriven hrunning

lemma runner_ne {s : Fleet n} {p q : Site n} {e : Executor n} (hrun : s.runner p = some e)
    (hne : p ≠ q) : e ≠ .loop q := by
  rintro rfl
  unfold runner at hrun
  split at hrun
  · cases hrun
    exact hne rfl
  · obtain ⟨-, hrun⟩ := Option.ite_none_right_eq_some.mp hrun
    cases hrun

/-! ## What a step changes of the lists -/

lemma heap_of_request {l l' : Loop ℕ} (k : Kind) (h : l.step (Server.request k) = some l') :
    l'.heap = l.heap := by
  obtain ⟨-, h⟩ := Option.ite_none_left_eq_some.mp h
  cases k with
  | abort =>
      simp only [Server.request] at h
      split at h <;> cases h <;> rfl
  | force => cases h; rfl

lemma heap_of_turn {l l' : Loop ℕ} {a : ReactorRuntime.Act ℕ} (ha : a = .resume ∨ a = .ret)
    (h : l.step a = some l') : l'.heap = l.heap ∨ (walkTouch l a).isSome = true := by
  obtain ⟨-, h⟩ := Option.ite_none_left_eq_some.mp h
  rcases ha with rfl | rfl
  · simp only [Loop.resume] at h
    simp only [walkTouch]
    split at h
    · next hstack => exact .inr (by rw [hstack]; rfl)
    · left
      split at h <;> cases h <;> rfl
    · left
      split at h
      · split at h <;> cases h <;> rfl
      · cases h; rfl
    · cases h
  · left
    simp only at h
    split at h <;> cases h
    rfl

/-- The reactor whose list an action of a server accesses. -/
def touches {m : ℕ} (s : Server m) : Server.Act m → Option (Fin (m + 1))
  | .loop r a => if (walkTouch (s.loop r) a).isSome then some r else none
  | .conn c .start => some (s.sessions.conn c).home
  | .conn c (.unwind _) => some (s.sessions.conn c).home
  | _ => none

lemma heap_update {m : ℕ} {f : Fin (m + 1) → Loop ℕ} {r q : Fin (m + 1)} {l : Loop ℕ} {P : Prop}
    (h : q = r → l.heap = (f r).heap ∨ P) : (Function.update f r l q).heap = (f q).heap ∨ P := by
  by_cases hq : q = r
  · subst hq
    simpa using h rfl
  · exact .inl (by simp [hq])

/-- A step of a server changes no other list than the one it accesses. -/
lemma heap_of_serverStep {m : ℕ} {cfg : Config} {s s' : Server m} {act : Server.Act m}
    (h : (Server.machine cfg).step s act = some s') (q : Fin (m + 1)) :
    (s'.loop q).heap = (s.loop q).heap ∨ touches s act = some q := by
  cases Server.deed_of_step h with
  | aside same => exact .inl (by rw [same.loop])
  | ask r k l asked loop =>
      rw [loop]
      exact heap_update fun _ => .inl (heap_of_request k asked)
  | desk a isDesk sessions loop => exact .inl (by rw [loop])
  | carry isCarry sessions loop => exact .inl (by rw [loop])
  | check home starting free sessions loop => exact .inl (by rw [loop])
  | finish home idle host sessions loop => exact .inl (by rw [loop])
  | leave home sessions loop => exact .inl (by rw [loop])
  | start home idle free track sessions loop =>
      rw [loop]
      exact heap_update fun hq => .inr (by rw [hq, ← home]; rfl)
  | unwind home ending when_ destroy sessions loop =>
      rw [loop]
      exact heap_update fun hq => .inr (by rw [hq, ← home]; rfl)
  | turn isTurn free quiet go loop =>
      rw [loop]
      exact heap_update fun hq => (heap_of_turn isTurn go).imp_right fun hw => by
        simp [touches, hw, hq]
  | call free calls go sessions loop =>
      rw [loop]
      exact heap_update fun hq => (heap_of_turn (.inl rfl) go).imp_right fun hw => by
        simp [touches, hw, hq]
  | walk k l idle go loop =>
      rw [loop]
      refine heap_update fun hq => .inr ?_
      cases k <;> simp [touches, walkTouch, Server.begin_, hq]

/-! ## What a step records -/

variable {cfg : ι → Config} {s s' : Fleet n} {act : Act n}

/-- What a step adds to the record. -/
inductive Recorded (s : Fleet n) (act : Act n) : List (Access n) → Prop
  | nothing (visit : act.visitor = none) : Recorded s act []
  /-- An access by what runs on the list's reactor. -/
  | home (p : Site n) (e : Executor n) (w : Touch) (runner : s.runner p = some e)
      (visit : ∀ i c, act.visitor = some (i, c) → s.at_ i c = s.home i c) :
      Recorded s act [s.access p e w]
  /-- An access by a session, from where it is. -/
  | visit (i : ι) (c : ℕ) (e : Executor n) (w : Touch) (visit : act.visitor = some (i, c))
      (runner : s.runner (s.at_ i c) = some e) : Recorded s act [s.access (s.home i c) e w]

/-- What a step records is confined, if no session touches the list of its home from away. -/
lemma Recorded.confined (h : Manned cfg s) (hhome : s.AtHome act) {new : List (Access n)}
    (hnew : Recorded s act new) : ∀ a ∈ new, a.Confined := by
  cases hnew with
  | nothing => simp
  | home p e w runner =>
      intro a ha
      rw [List.mem_singleton.mp ha]
      exact h.runner_confined runner
  | visit i c e w visit runner =>
      intro a ha
      rw [List.mem_singleton.mp ha]
      have hvisit : s.at_ i c = s.home i c ∨ s.claimed (s.home i c) = false := by
        cases act with
        | touch j d tracks => cases visit; exact hhome
        | move j d p => cases visit
        | server j b =>
            cases b with
            | conn d b => cases b <;> cases visit; exact hhome
            | _ => cases visit
      rcases hvisit with hat | hclaimed
      · rw [hat] at runner
        exact h.runner_confined runner
      · exact .inr hclaimed

/-- A session that is away and touches the list of its home, while the loop there is claimed,
breaks the confinement. -/
lemma Recorded.not_confined (haway : ¬s.AtHome act) {new : List (Access n)}
    (hnew : Recorded s act new) : ∃ a ∈ new, ¬a.Confined := by
  have hvisit : ∃ i c, act.visitor = some (i, c) ∧
      ¬(s.at_ i c = s.home i c ∨ s.claimed (s.home i c) = false) := by
    cases act with
    | touch i c tracks => exact ⟨i, c, rfl, haway⟩
    | move i c p => exact absurd trivial haway
    | server i b =>
        cases b with
        | conn c b =>
            cases b with
            | unwind passed => exact ⟨i, c, rfl, haway⟩
            | _ => exact absurd trivial haway
        | _ => exact absurd trivial haway
  obtain ⟨i, c, hvisitor, hnot⟩ := hvisit
  obtain ⟨hat, hclaimed⟩ := not_or.mp hnot
  cases hnew with
  | nothing visit => simp [hvisitor] at visit
  | home p e w runner visit => exact absurd (visit i c hvisitor) hat
  | visit j d e w visit runner =>
      obtain ⟨rfl, rfl⟩ : i = j ∧ c = d := by simpa [hvisitor] using visit
      refine ⟨_, List.mem_singleton_self _, ?_⟩
      rintro (hby | hfree)
      · exact runner_ne runner hat hby
      · exact hclaimed hfree

variable [DecidableEq ι]

/-- What a step does to the servers, their lists and the record. -/
structure Effect (cfg : ι → Config) (s : Fleet n) (act : Act n) (s' : Fleet n) : Prop where
  server : ∀ i, ((s'.server i).host = (s.server i).host ∧
    (s'.server i).control = (s.server i).control) ∨
    ∃ a, (Server.machine (cfg i)).step (s.server i) a = some (s'.server i)
  recorded : ∃ new, s'.log = new ++ s.log ∧ Recorded s act new
  heap : ∀ i r, ((s'.server i).loop r).heap = ((s.server i).loop r).heap ∨
    ∃ a, s'.log = a :: s.log ∧ a.list = ⟨i, r⟩

lemma effect_put {i : ι} {a : Server.Act (n i)} {t : Server (n i)} {o : Option (Access n)}
    (go : (s.server i).step (cfg i) a = some t) (hrecorded : Recorded s act o.toList)
    (hlist : ∀ q, touches (s.server i) a = some q → ∃ x, o = some x ∧ x.list = ⟨i, q⟩) :
    Effect cfg s act (s.put i o t) where
  server j := by
    by_cases hj : j = i
    · subst hj
      exact .inr ⟨a, by simpa [put, Server.machine] using go⟩
    · exact .inl (by simp [put, hj])
  recorded := ⟨_, rfl, hrecorded⟩
  heap j q := by
    by_cases hj : j = i
    · subst hj
      have hgo : (Server.machine (cfg j)).step (s.server j) a = some t := go
      rcases heap_of_serverStep hgo q with heq | htouches
      · exact .inl (by simpa [put] using heq)
      · obtain ⟨x, rfl, hx⟩ := hlist q htouches
        exact .inr ⟨x, rfl, hx⟩
    · exact .inl (by simp [put, hj])

lemma effect_onReactor {i : ι} {r : Fin (n i + 1)} {a : Server.Act (n i)} {w : Option Touch}
    (hvisit : ∀ j c, act.visitor = some (j, c) → w.isSome = true ∧ s.at_ j c = s.home j c)
    (h : s.onReactor cfg i r a w = some s')
    (hlist : ∀ q, touches (s.server i) a = some q → w.isSome = true ∧ q = r) :
    Effect cfg s act s' := by
  obtain ⟨e, he, h⟩ := Option.bind_eq_some_iff.mp h
  obtain ⟨t, ht, rfl⟩ := Option.map_eq_some_iff.mp h
  refine effect_put ht ?_ fun q hq => ?_
  · cases w with
    | none =>
        refine .nothing ?_
        cases hv : act.visitor with
        | none => rfl
        | some v => exact absurd (hvisit v.1 v.2 hv).1 (by simp)
    | some w => exact .home _ e w he fun j c hv => (hvisit j c hv).2
  · obtain ⟨hw, rfl⟩ := hlist q hq
    obtain ⟨w, rfl⟩ := Option.isSome_iff_exists.mp hw
    exact ⟨_, rfl, rfl⟩

lemma effect_finishAway {i : ι} {c : ℕ} (hvisit : act.visitor = none)
    (h : s.finishAway cfg i c = some s') : Effect cfg s act s' := by
  obtain ⟨e, -, h⟩ := Option.bind_eq_some_iff.mp h
  obtain ⟨t, ht, rfl⟩ := Option.map_eq_some_iff.mp h
  obtain ⟨u, -, rfl⟩ := Option.map_eq_some_iff.mp ht
  refine ⟨fun j => .inl ?_, ⟨[], rfl, .nothing hvisit⟩, fun j q => .inl ?_⟩ <;>
  · by_cases hj : j = i
    · subst hj
      simp [put]
    · simp [put, hj]

lemma effect_unwindAway {i : ι} {c : ℕ} {passed : Bool} (hvisit : act.visitor = some (i, c))
    (h : s.unwindAway cfg i c passed = some s') : Effect cfg s act s' := by
  obtain ⟨e, he, h⟩ := Option.bind_eq_some_iff.mp h
  obtain ⟨-, h⟩ := Option.ite_none_right_eq_some.mp h
  obtain ⟨t, ht, rfl⟩ := Option.map_eq_some_iff.mp h
  obtain ⟨u, -, rfl⟩ := Option.map_eq_some_iff.mp ht
  refine ⟨fun j => .inl ?_, ⟨_, rfl, .visit i c e .remove hvisit he⟩, fun j q => ?_⟩
  · by_cases hj : j = i
    · subst hj
      simp [put]
    · simp [put, hj]
  · by_cases hj : j = i
    · subst hj
      by_cases hq : q = (s.home j c).2
      · exact .inr ⟨_, rfl, by rw [hq]; rfl⟩
      · exact .inl (by simpa [put] using congrArg Loop.heap (Function.update_of_ne hq _ _))
    · exact .inl (by simp [put, hj])

lemma effect_of_serverStep {i : ι} {a : Server.Act (n i)} (h : s.serverStep cfg i a = some s') :
    Effect cfg s (.server i a) s' := by
  have plain : ∀ b : Server.Act (n i), (Act.server i b).visitor = none →
      touches (s.server i) b = none →
      ((s.server i).step (cfg i) b).map (s.put i none) = some s' →
      Effect cfg s (.server i b) s' := fun b hv ht h => by
    obtain ⟨t, go, rfl⟩ := Option.map_eq_some_iff.mp h
    exact effect_put go (.nothing hv) fun q hq => by simp [ht] at hq
  cases a with
  | loop r b =>
      refine effect_onReactor nofun h fun q hq => ?_
      simp only [touches] at hq
      split at hq
      · next hw => exact ⟨hw, by simpa using hq.symm⟩
      · cases hq
  | leave r => exact plain _ rfl rfl (Option.ite_none_right_eq_some.mp h).2
  | conn c b =>
      cases b with
      | start => exact effect_onReactor nofun h fun q hq => ⟨rfl, (Option.some.inj hq).symm⟩
      | check => exact effect_onReactor nofun h fun q hq => by simp [touches] at hq
      | finish =>
          simp only [serverStep] at h
          split at h
          · exact effect_onReactor nofun h fun q hq => by simp [touches] at hq
          · exact effect_finishAway rfl h
      | unwind passed =>
          simp only [serverStep] at h
          split at h
          · next hat =>
              refine effect_onReactor (fun j d hv => ⟨rfl, ?_⟩) h
                fun q hq => ⟨rfl, (Option.some.inj hq).symm⟩
              cases hv
              exact hat
          · exact effect_unwindAway rfl h
      | _ => exact plain _ rfl rfl h
  | _ => exact plain _ rfl rfl h

lemma effect_of_step (h : (machine cfg).step s act = some s') : Effect cfg s act s' := by
  cases act with
  | server i a => exact effect_of_serverStep h
  | move i c p =>
      obtain ⟨-, h⟩ := Option.ite_none_right_eq_some.mp h
      obtain ⟨e, -, rfl⟩ := Option.map_eq_some_iff.mp h
      exact ⟨fun _ => .inl ⟨rfl, rfl⟩, ⟨[], rfl, .nothing rfl⟩, fun _ _ => .inl rfl⟩
  | touch i c tracks =>
      obtain ⟨-, h⟩ := Option.ite_none_right_eq_some.mp h
      obtain ⟨e, he, rfl⟩ := Option.map_eq_some_iff.mp h
      exact ⟨fun _ => .inl ⟨rfl, rfl⟩, ⟨_, rfl, .visit i c e _ rfl he⟩, fun _ _ => .inl rfl⟩

/-! ## The result -/

lemma Manned.step (h : Manned cfg s) (hstep : (machine cfg).step s act = some s') :
    Manned cfg s' := by
  intro i
  rcases (effect_of_step hstep).server i with ⟨hhost, hcontrol⟩ | ⟨a, ha⟩
  · rw [hhost, hcontrol]
    exact h i
  · exact (h i).step nofun ha

/-- **The abort lists are confined to their loops exactly as long as the sessions touch them from
home.**  For any family of servers: in every state of a run in which no session ends, or tracks or
untracks an abortable of its own, away from its home while the loop there is claimed, every access
to an abort list so far was made by the list's loop thread or while that loop was not claimed; a
step that breaks this condition makes an access that is neither; and no list changes without a
record. -/
theorem abort_list_confined (cfg : ι → Config) {s : Fleet n}
    (hs : (machine cfg).ReachableUnder AtHome s) :
    (∀ a ∈ s.log, a.Confined) ∧
    ∀ act s', (machine cfg).step s act = some s' →
      (¬s.AtHome act → ∃ a ∈ s'.log, ¬a.Confined) ∧
      ∀ i r, ((s'.server i).loop r).heap ≠ ((s.server i).loop r).heap →
        ∃ a, s'.log = a :: s.log ∧ a.list = ⟨i, r⟩ := by
  have hinv : Manned cfg s ∧ ∀ a ∈ s.log, a.Confined := by
    refine hs.invariant (I := fun s => Manned cfg s ∧ ∀ a ∈ s.log, a.Confined)
      ⟨fun _ => .initial, by simp [machine, initial]⟩
      fun s act s' h hok hstep => ⟨h.1.step hstep, ?_⟩
    obtain ⟨new, hlog, hnew⟩ := (effect_of_step hstep).recorded
    rw [hlog]
    intro a ha
    rcases List.mem_append.mp ha with ha | ha
    · exact hnew.confined h.1 hok a ha
    · exact h.2 a ha
  refine ⟨hinv.2, fun act s' hstep => ⟨fun haway => ?_, fun i r hheap => ?_⟩⟩
  · obtain ⟨new, hlog, hnew⟩ := (effect_of_step hstep).recorded
    obtain ⟨a, ha, hnot⟩ := hnew.not_confined haway
    exact ⟨a, hlog ▸ List.mem_append_left _ ha, hnot⟩
  · exact ((effect_of_step hstep).heap i r).resolve_left hheap

/-! ## A session that ends on another server -/

/-- Two servers with a reactor each. -/
abbrev pair : Bool → ℕ := fun _ => 0

/-- Both servers are started, and a session of the first one runs. -/
def pairRun : List (Act pair) :=
  (Server.startRun ++ Server.listenRun ++ Server.startedRun).map (Act.server (n := pair) true) ++
    (Server.startRun ++ Server.listenRun ++ Server.startedRun ++ Server.admitRun ++
      Server.launchRun).map (Act.server (n := pair) false)

/-- The session moves to the other server.  `stop()` of its own one begins the abort walk, and the
session ends where it is. -/
def endsAwayRun : List (Act pair) :=
  [.move false 0 ⟨true, 0⟩, .server false .callStop, .server false (.own true),
    .server false (.own true), .server false (.loop 0 .runAbort), .server false (.conn 0 .finish),
    .server false (.conn 0 (.unwind false))]

/-- **A list is changed by a foreign thread in the middle of a walk**: the loop of the session's
home is claimed and has begun its walk when the control is taken off the list on the loop of the
other server. -/
theorem control_removed_by_foreign_loop :
    ∃ s : Fleet pair, (machine fun _ => Server.oneAtATime).Reachable s ∧
      ((s.server false).loop 0).stack ≠ [] ∧
      ∃ a ∈ s.log, a.list = ⟨false, 0⟩ ∧ a.touch = .remove ∧ a.by_ = .loop ⟨true, 0⟩ ∧
        ¬a.Confined := by
  obtain ⟨s, hs, htest⟩ := (machine fun _ => Server.oneAtATime).exists_reachable_of_run
    (pairRun ++ endsAwayRun)
    (fun s : Fleet pair => decide (((s.server false).loop 0).stack ≠ [] ∧
      (⟨⟨false, 0⟩, .remove, .loop ⟨true, 0⟩, true⟩ : Access pair) ∈ s.log)) (by decide +kernel)
  obtain ⟨hstack, hmem⟩ := of_decide_eq_true htest
  exact ⟨s, hs, hstack, _, hmem, rfl, rfl, rfl, by simp [Access.Confined]⟩

instance (s : Fleet n) (act : Act n) : Decidable (s.AtHome act) := by
  unfold AtHome
  split <;> infer_instance

/-- The session moves to the other server and back, and ends at home. -/
def endsAtHomeRun : List (Act pair) :=
  [.move false 0 ⟨true, 0⟩, .move false 0 ⟨false, 0⟩, .server false (.conn 0 .finish),
    .server false (.conn 0 (.unwind false))]

/-- A session that comes back before it ends leaves its list on its own loop. -/
theorem abort_list_confined_at_endsAtHomeRun :
    ∃ s : Fleet pair, (machine fun _ => Server.oneAtATime).ReachableUnder AtHome s ∧
      s.log.length = 2 ∧ ∀ a ∈ s.log, a.Confined := by
  obtain ⟨s, hs, htest⟩ := (machine fun _ => Server.oneAtATime).exists_reachableUnder_of_run
    (fun (s : Fleet pair) act => decide (s.AtHome act)) (fun _ _ => of_decide_eq_true)
    (pairRun ++ endsAtHomeRun) (fun s => decide (s.log.length = 2)) (by decide +kernel)
  exact ⟨s, hs, of_decide_eq_true htest, (abort_list_confined _ hs).1⟩

end Fleet

end ReactorRuntime
