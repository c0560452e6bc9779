import ReactorRuntime.Server.Readiness

/-!
# What `stop()` has done to a session that it leaves behind

`stop()` can go on without the sessions that do not end: it stops the loops under them, and
`destroy_roots()` destroys their frames.  This file says what has been done to such a session by
then.  It was asked to stop, once, and its connection was shut down, once: `force_all()` is called
on every reactor before the second wait, and each call returns when the walk is over.

The abort side of this is `Server/Shutdown.lean`.  The force side is simpler here than for a host
with abortables of its own (`Abort/Episodes.lean`): `stop()` asks each reactor for one force walk, a
walk begins where nothing else is under way, and the callbacks of a `SessionControl` neither track
nor untrack.
-/

namespace ReactorRuntime

/-! ## The force walk of one loop -/

namespace Loop

section

variable {ν : Type*} [DecidableEq ν] {s s' : Loop ν} {act : ReactorRuntime.Act ν}

/-- The number of times `force()` was called since the abortable was tracked. -/
def forces (s : Loop ν) (a : ν) : ℕ :=
  match s.now a with
  | some e => (e .force).walk + (e .force).track
  | none => 0

/-- No force walk was asked for. -/
def Unforced (s : Loop ν) : Prop := s.forcePosted = 0 ∧ s.forced_ = false

/-- The force walk is over. -/
def ForceOver (s : Loop ν) : Prop := ∃ j, (Kind.force, j) ∈ s.done

/-- What is kept of the force walk in a run that asks for one. -/
structure Forcing (s : Loop ν) : Prop where
  solo : Solo .force s
  nodup : (owing .force s.stack).Nodup
  listed : ∀ a ∈ owing .force s.stack, a ∈ s.contents
  ledger : Ledger .force s
  once : s.forcePosted + s.forced_.toNat ≤ 1
  logged : ∀ a, (.force, a) ∈ s.log → s.forced_ = true

namespace Forcing

lemma initial : (Loop.initial : Loop ν).Forcing where
  solo := rfl
  nodup := by simp [Loop.initial, owing]
  listed := by simp [Loop.initial, owing]
  ledger := .initial _
  once := by simp [Loop.initial]
  logged := by simp [Loop.initial]

lemma guide (h : s.Forcing) (hsound : s.Sound) (hfront : AtFront .force s) : Guide .force s where
  sound := hsound
  lead _ _ _ htop := ((hfront.top htop).1 rfl).1
  listed _ _ hmem := Fronted.suffix_of_mem hfront hmem
  solo := h.solo.walks_le
  owing_nodup _ := h.nodup
  owing_listed _ := h.listed

lemma first (h : s.Forcing) (hact : act ≠ .forceAll) (hmove : Move s act s')
    (hbegins : begins .force act = true) : s.begun .force = false ∧ owing .force s.stack = [] := by
  cases hmove with
  | forceInline => exact absurd rfl hact
  | runForce free posted =>
      have := h.once
      cases hf : s.forced_ with
      | true => simp [hf] at this; omega
      | false => exact ⟨hf, by simp [free, owing]⟩
  | _ => simp [begins] at hbegins

/-- The `track` calls under way are about distinct listed abortables. -/
lemma owing_move (h : s.Forcing) (hsound : s.Sound)
    (hleave : ∀ a, act = .untrack a ∨ act = .destroy a → a ∉ owing .force s.stack)
    (hmove : Move s act s') :
    (owing .force s'.stack).Nodup ∧ ∀ a ∈ owing .force s'.stack, a ∈ s'.contents := by
  have same : s'.contents = s.contents →
      (owing .force s'.stack).Sublist (owing .force s.stack) →
      (owing .force s'.stack).Nodup ∧ ∀ a ∈ owing .force s'.stack, a ∈ s'.contents := by
    intro hcontents hstack
    rw [hcontents]
    exact ⟨hstack.nodup h.nodup, fun a ha => h.listed a (hstack.subset ha)⟩
  have unlinked : ∀ a, a ∉ owing .force s.stack → (owing .force (s.unlink a).stack).Nodup ∧
      ∀ b ∈ owing .force (s.unlink a).stack, b ∈ (s.unlink a).contents := by
    intro a ha
    refine ⟨?_, owing_listed_unlink h.listed ha⟩
    rw [owing_unlink]
    exact h.nodup
  cases hmove with
  | @track a host alive free =>
      have hnew := hsound.not_mem_of_free free
      refine ⟨List.nodup_cons.mpr ⟨fun hc => hnew (h.listed a hc), h.nodup⟩, fun b hb => ?_⟩
      rcases List.mem_cons.mp hb with rfl | hb
      · exact List.mem_cons_self ..
      · exact List.mem_cons_of_mem _ (h.listed b hb)
  | @untrack a => exact unlinked a (hleave a (.inl rfl))
  | @destroy a => exact unlinked a (hleave a (.inr rfl))
  | ret top => exact same rfl (by rw [top]; exact List.Sublist.refl _)
  | walkEnd top => exact same rfl (by rw [top]; exact List.Sublist.refl _)
  | walkCall top => exact same rfl (by rw [top]; exact List.Sublist.refl _)
  | lateAbort top => exact same rfl (by rw [top]; exact List.Sublist.refl _)
  | skipAbort top => exact same rfl (by rw [top]; exact List.Sublist.refl _)
  | lateForce top => exact same rfl (by rw [top]; exact List.sublist_cons_self ..)
  | skipForce top => exact same rfl (by rw [top]; exact List.sublist_cons_self ..)
  | _ => exact same rfl (List.Sublist.refl _)

lemma logged_enter {t : Loop ν} {k : Kind} {a : ν} {note : Episode → Episode}
    (h : ∀ b, (.force, b) ∈ t.log → t.forced_ = true) (hk : k = .force → t.forced_ = true) :
    ∀ b, (.force, b) ∈ (t.enter k a note).log → (t.enter k a note).forced_ = true := by
  intro b hb
  rcases List.mem_cons.mp hb with heq | hb
  · exact hk (Prod.mk.inj heq).1.symm
  · exact h b hb

lemma logged_move (h : s.Forcing) (hmove : Move s act s') :
    ∀ a, (.force, a) ∈ s'.log → s'.forced_ = true := by
  cases hmove with
  | untrack => simpa using h.logged
  | destroy => simpa [destroy] using h.logged
  | @walkCall k outer j rest node top =>
      refine logged_enter h.logged ?_
      rintro rfl
      have hpos : 0 < walks .force s.stack := by simp [walks, top, Frame.isWalk]
      have hle := h.solo.walks_le
      cases hf : s.forced_ with
      | true => rfl
      | false =>
          simp only [begun, hf, Bool.toNat_false] at hle
          omega
  | lateAbort => exact logged_enter h.logged (by simp)
  | lateForce top forced => exact logged_enter h.logged fun _ => forced
  | abortInline => exact fun a ha => by simpa [beginWalk] using h.logged a ha
  | runAbort => exact fun a ha => by simpa [beginWalk] using h.logged a ha
  | forceInline => exact fun _ _ => by simp [beginWalk]
  | runForce => exact fun _ _ => by simp [beginWalk]
  | _ => exact h.logged

lemma unlink_forcePosted (s : Loop ν) (a : ν) : (s.unlink a).forcePosted = s.forcePosted := by
  unfold unlink
  cases s.now a <;> rfl

lemma once_move (h : s.Forcing) (hact : act ≠ .forceAll)
    (hask : act = .requestForce → s.Unforced) (hmove : Move s act s') :
    s'.forcePosted + s'.forced_.toNat ≤ 1 := by
  have honce := h.once
  cases hmove with
  | untrack => simpa [unlink_forcePosted] using honce
  | destroy => simpa [destroy, unlink_forcePosted] using honce
  | forceInline => exact absurd rfl hact
  | requestForce =>
      obtain ⟨hposted, hforced⟩ := hask rfl
      simp [hposted, hforced]
  | runForce free posted =>
      simp only [beginWalk, decide_true, Bool.or_true, Bool.toNat_true]
      omega
  | abortInline => simpa [beginWalk] using honce
  | runAbort => simpa [beginWalk] using honce
  | _ => exact honce

/-- **One move keeps the account of the force walk.** -/
lemma move (h : s.Forcing) (hsound : s.Sound) (hfront : AtFront .force s)
    (hact : act ≠ .forceAll) (hask : act = .requestForce → s.Unforced)
    (hleave : ∀ a, act = .untrack a ∨ act = .destroy a → a ∉ owing .force s.stack)
    (hmove : Move s act s') : s'.Forcing where
  solo := h.solo.move hmove fun hb => .inr (h.first hact hmove hb).1
  nodup := (h.owing_move hsound hleave hmove).1
  listed := (h.owing_move hsound hleave hmove).2
  ledger := by
    refine h.ledger.move (h.guide hsound hfront) hmove (fun a ha => ?_)
      fun hb => .inr (h.first hact hmove hb)
    simp [owed, hleave a ha]
  once := h.once_move hact hask hmove
  logged := h.logged_move hmove

lemma forceOver (h : s.Forcing) (hforced : s.forced_ = true) (hwalks : walks .force s.stack = 0) :
    s.ForceOver := by
  have hbegun : s.begun .force = true := hforced
  have hsolo : walks .force s.stack + s.done.countP (fun kj => kj.1 = Kind.force) =
      (s.begun .force).toNat := h.solo
  rw [hwalks, hbegun, Bool.toNat_true] at hsolo
  obtain ⟨⟨k, j⟩, hmem, hk⟩ := List.countP_pos_iff.mp
    (show 0 < s.done.countP (fun kj => kj.1 = Kind.force) by omega)
  obtain rfl : k = .force := by simpa using hk
  exact ⟨j, hmem⟩

lemma walks_eq_zero (h : s.Forcing) (hover : s.ForceOver) :
    walks .force s.stack = 0 ∧ s.forced_ = true := by
  obtain ⟨j, hj⟩ := hover
  have hsolo : walks .force s.stack + s.done.countP (fun kj => kj.1 = Kind.force) =
      s.forced_.toNat := h.solo
  have hpos : 0 < s.done.countP (fun kj => kj.1 = Kind.force) :=
    List.countP_pos_iff.mpr ⟨_, hj, by simp⟩
  have hle := Bool.toNat_le s.forced_
  refine ⟨by omega, ?_⟩
  cases hf : s.forced_ with
  | true => rfl
  | false => simp only [hf, Bool.toNat_false] at hsolo; omega

/-- The walk is over: what is tracked has been forced once, unless its own `track` is about to. -/
lemma forces_eq_one (h : s.Forcing) (hover : s.ForceOver) {a : ν} (ha : s.tracked a = true)
    (howing : a ∉ owing .force s.stack) : s.forces a = 1 := by
  obtain ⟨e, he⟩ := Option.isSome_iff_exists.mp ha
  have htally := h.ledger.running a e he
  obtain ⟨hwalks, hforced⟩ := h.walks_eq_zero hover
  have hbegun : s.begun .force = true := hforced
  have hawaited : s.awaited a .force = false := by
    rw [Bool.eq_false_iff]
    intro hc
    obtain ⟨outer, j, hmem, -⟩ := Guide.awaited_iff.mp hc
    exact absurd rfl (List.countP_eq_zero.mp hwalks _ hmem)
  have howed : s.owed .force a = false := by simp [owed, howing]
  rw [hbegun, hawaited, howed] at htally
  simpa [forces, he] using htally.called_once

end Forcing

lemma Unforced.move (h : s.Unforced) (hact : act ≠ .forceAll) (hask : act ≠ .requestForce)
    (hmove : Move s act s') : s'.Unforced := by
  obtain ⟨hposted, hforced⟩ := h
  cases hmove with
  | untrack => exact ⟨by simpa [Forcing.unlink_forcePosted] using hposted, by simpa using hforced⟩
  | destroy =>
      exact ⟨by simpa [destroy, Forcing.unlink_forcePosted] using hposted,
        by simpa [destroy] using hforced⟩
  | forceInline => exact absurd rfl hact
  | requestForce => exact absurd rfl hask
  | runForce free posted => omega
  | abortInline => exact ⟨hposted, by simp [beginWalk, hforced]⟩
  | runAbort => exact ⟨hposted, by simp [beginWalk, hforced]⟩
  | _ => exact ⟨hposted, hforced⟩

lemma ForceOver.move (h : s.ForceOver) (hmove : Move s act s') : s'.ForceOver := by
  obtain ⟨j, hj⟩ := h
  refine ⟨j, ?_⟩
  cases hmove with
  | untrack => simpa using hj
  | destroy => simpa [destroy] using hj
  | walkEnd => exact List.mem_cons_of_mem _ hj
  | _ => exact hj

lemma Unforced.of_move (hmove : Move s act s') (h : s'.Unforced) : s.Unforced := by
  obtain ⟨hposted, hforced⟩ := h
  cases hmove with
  | untrack => exact ⟨by simpa [Forcing.unlink_forcePosted] using hposted, by simpa using hforced⟩
  | destroy =>
      exact ⟨by simpa [destroy, Forcing.unlink_forcePosted] using hposted,
        by simpa [destroy] using hforced⟩
  | abortInline => exact ⟨hposted, by simpa [beginWalk] using hforced⟩
  | runAbort => exact ⟨hposted, by simpa [beginWalk] using hforced⟩
  | forceInline => simp [beginWalk] at hforced
  | runForce => simp [beginWalk] at hforced
  | requestForce => simp at hposted
  | _ => exact ⟨hposted, hforced⟩

end

end Loop

/-! ## Where `stop()` stands -/

/-- Before the request to reactor `i` for a walk. -/
def StopPc.asks : Kind → ℕ → StopPc
  | .abort, i => .abort i
  | .force, i => .force i

/-- In the wait for the walk of reactor `i`. -/
def StopPc.awaits : Kind → ℕ → StopPc
  | .abort, i => .awaitAbort i
  | .force, i => .awaitForce i

/-- `stop()` has not asked reactor `i` for its force walk. -/
def StopPc.unforced (i : ℕ) : StopPc → Bool
  | .test => false
  | .force k => decide (k ≤ i)
  | .awaitForce k => decide (k < i)
  | .drainForced _ => false
  | .clearGuards => false
  | .halt _ => false
  | .join _ => false
  | .clear => false
  | _ => true

/-- `stop()` has waited for the force walk of reactor `i`. -/
def StopPc.pressed (i : ℕ) : StopPc → Bool
  | .force k => decide (i < k)
  | .awaitForce k => decide (i < k)
  | .drainForced _ => true
  | _ => false

/-- `stop()` is past its waits for the sessions, or no call is under way. -/
def OwnerPc.closing : OwnerPc → Bool
  | .done _ => true
  | .stop .test _ => true
  | .stop .clearGuards _ => true
  | .stop (.halt _) _ => true
  | .stop (.join _) _ => true
  | .stop .clear _ => true
  | _ => false

namespace Server

variable {n : ℕ} {cfg : Config} {s s' : Server n}

/-- The loops under the force walks that `stop()` asks for. -/
structure Pressed (s : Server n) : Prop where
  forcing : ∀ r, (s.loop r).Forcing
  unstopped : s.host.stopped_ = false → ∀ r, (s.loop r).Unforced
  before : ∀ p b (r : Fin (n + 1)), s.host.pc = .stop p b → p.unforced r.val = true →
    (s.loop r).Unforced
  asked : ∀ i b (h : i < n + 1), s.host.pc = .stop (.awaitForce i) b →
    ¬(s.loop ⟨i, h⟩).Unforced
  after : ∀ p b (r : Fin (n + 1)), s.host.pc = .stop p b → p.pressed r.val = true →
    (s.loop r).ForceOver

/-- The action is a request for a walk. -/
def isRequest : ReactorRuntime.Act ℕ → Bool
  | .requestAbort => true
  | .requestForce => true
  | _ => false

/-- A loop takes at most one step of its own, and is asked for a walk by the owner only. -/
lemma Deed.loop_act {act : Act n} (h : Deed cfg s act s') (r : Fin (n + 1)) :
    s'.loop r = s.loop r ∨ ∃ a, Loop.Move (s.loop r) a (s'.loop r) ∧ a ≠ .forceAll ∧
      (∀ c, a ≠ .untrack c) ∧ (∀ c, a = .destroy c → s.job r = .ending c) ∧
      (isRequest a = true → ∃ ok, act = .own ok) := by
  have local_ : ∀ {r' : Fin (n + 1)} {a : ReactorRuntime.Act ℕ} {l : Loop ℕ},
      (s.loop r').step a = some l → s'.loop = Function.update s.loop r' l →
      (a ≠ .forceAll ∧ (∀ c, a ≠ .untrack c) ∧ (∀ c, a = .destroy c → s.job r' = .ending c) ∧
        (isRequest a = true → ∃ ok, act = .own ok)) →
      s'.loop r = s.loop r ∨ ∃ a, Loop.Move (s.loop r) a (s'.loop r) ∧ a ≠ .forceAll ∧
        (∀ c, a ≠ .untrack c) ∧ (∀ c, a = .destroy c → s.job r = .ending c) ∧
        (isRequest a = true → ∃ ok, act = .own ok) := by
    intro r' a l hl hloop ha
    by_cases hr : r = r'
    · subst hr
      exact .inr ⟨a, by simpa [hloop] using Loop.move_of_step hl, ha⟩
    · exact .inl (by simp [hloop, hr])
  cases h with
  | aside same => exact .inl (by rw [same.loop])
  | ask r' k _ asked loop => exact local_ asked loop (by cases k <;> simp [request, isRequest])
  | desk _ _ _ loop => exact .inl (by rw [loop])
  | carry _ _ loop => exact .inl (by rw [loop])
  | start _ _ _ track _ loop => exact local_ track loop (by simp [isRequest])
  | check _ _ _ _ loop => exact .inl (by rw [loop])
  | finish _ _ _ _ loop => exact .inl (by rw [loop])
  | unwind _ ending _ destroy _ loop => exact local_ destroy loop (by simp [ending, isRequest])
  | leave _ _ loop => exact .inl (by rw [loop])
  | turn isTurn _ _ go loop =>
      exact local_ go loop (by rcases isTurn with rfl | rfl <;> simp [isRequest])
  | call _ _ go _ loop => exact local_ go loop (by simp [isRequest])
  | walk k _ _ go loop => exact local_ go loop (by cases k <;> simp [begin_, isRequest])

lemma loop_of_stopStep {ok b : Bool} {p : StopPc} (h : s.stopStep cfg ok b p = some s')
    (r : Fin (n + 1)) : s'.loop r = s.loop r ∨ ∃ k, Loop.Move (s.loop r) (request k) (s'.loop r) ∧
      p = .asks k r.val ∧ s'.host.pc = .stop (.awaits k r.val) b := by
  -- the request goes to the loop that the statement is about
  have local_ : ∀ {i : ℕ} (hi : i < n + 1) (k : Kind) {pc : OwnerPc},
      (s.loopAct ⟨i, hi⟩ (request k)).map (goto pc) = some s' →
      s'.loop r = s.loop r ∨ (r.val = i ∧ Loop.Move (s.loop r) (request k) (s'.loop r) ∧
        s'.host.pc = pc) := by
    intro i hi k pc h
    obtain ⟨t, ht, rfl⟩ := Option.map_eq_some_iff.mp h
    obtain ⟨l, hl, rfl⟩ := Option.map_eq_some_iff.mp ht
    by_cases hr : r = ⟨i, hi⟩
    · subst hr
      exact .inr ⟨rfl, by simpa [goto] using Loop.move_of_step hl, rfl⟩
    · exact .inl (by simp [goto, hr])
  have same : Same s s' → s'.loop r = s.loop r := fun hsame => by rw [hsame.loop]
  cases p with
  | abort i =>
      simp only [stopStep] at h
      rcases each_cases h with ⟨hi, -, h⟩ | ⟨-, rfl⟩
      · refine (local_ hi .abort h).imp id ?_
        rintro ⟨rfl, hmove, hpc⟩
        exact ⟨.abort, hmove, rfl, hpc⟩
      · exact .inl rfl
  | force i =>
      simp only [stopStep] at h
      rcases each_cases h with ⟨hi, -, h⟩ | ⟨-, rfl⟩
      · refine (local_ hi .force h).imp id ?_
        rintro ⟨rfl, hmove, hpc⟩
        exact ⟨.force, hmove, rfl, hpc⟩
      · exact .inl rfl
  | test =>
      simp only [stopStep] at h
      split at h <;> cases h <;> exact .inl rfl
  | awaitAbort i | awaitForce i | reap i | join i =>
      simp only [stopStep] at h
      rcases each_cases h with ⟨hi, -, h⟩ | ⟨-, rfl⟩
      · obtain ⟨-, h⟩ := Option.ite_none_right_eq_some.mp h
        cases h
        exact .inl rfl
      · exact .inl rfl
  | store i | post i =>
      simp only [stopStep] at h
      rcases each_cases h with ⟨hi, -, h⟩ | ⟨-, rfl⟩
      · obtain ⟨t, ht, rfl⟩ := Option.map_eq_some_iff.mp h
        exact .inl (same ((same_of_acceptAct ht).goto _))
      · exact .inl rfl
  | drain i drained | drainForced i =>
      simp only [stopStep] at h
      rcases each_cases h with ⟨hi, -, h⟩ | ⟨-, rfl⟩
      · exact .inl (same (same_of_drainOne h))
      · exact .inl rfl
  | halt i =>
      simp only [stopStep] at h
      rcases each_cases h with ⟨hi, -, h⟩ | ⟨-, rfl⟩
      · cases h
        exact .inl rfl
      · exact .inl rfl
  | clearGuards | clear =>
      cases h
      exact .inl rfl

/-- Where a step leaves the owner: where it was, outside `stop()` or at its first statement, or at
the next statement of `stop()`. -/
lemma pc_of_step {act : Act n} (hstep : (machine cfg).step s act = some s') :
    (s'.host.pc = s.host.pc ∧ ∀ ok, act ≠ .own ok) ∨
      (∀ p b, s'.host.pc = .stop p b → p = .test) ∨
      ∃ ok p b p', act = .own ok ∧ s.host.pc = .stop p b ∧ s'.host.pc = .stop p' b ∧
        Next n p p' ∧ s.stopStep cfg ok b p = some s' := by
  cases hact : isHost act with
  | false =>
      exact .inl ⟨by rw [(beside_of_step hact hstep).host], by rintro ok rfl; cases hact⟩
  | true =>
      cases act with
      | callStart port =>
          obtain ⟨-, hs'⟩ := Option.ite_none_right_eq_some.mp hstep
          cases hs'
          refine .inr (.inl fun p b hp => ?_)
          unfold callStart at hp
          split at hp <;> cases hp
      | callStop =>
          obtain ⟨-, hs'⟩ := Option.ite_none_right_eq_some.mp hstep
          cases hs'
          exact .inr (.inl fun p b hp => by cases hp; rfl)
      | own ok =>
          replace hstep : s.ownStep cfg ok = some s' := hstep
          unfold ownStep at hstep
          split at hstep
          · cases hstep
          · next p b hpc =>
              rcases next_of_stopStep hstep with ⟨p', hp', hnext⟩ | ⟨hend, -⟩
              · exact .inr (.inr ⟨ok, p, b, p', rfl, hpc, hp', hnext, hstep⟩)
              · exact .inr (.inl fun p b hp => by rw [hend] at hp; cases hp)
          · exact .inr (.inl fun p b => test_of_startStep hstep p b)
      | postFails =>
          simp only [machine, Server.step] at hstep
          split at hstep
          · obtain ⟨-, hs'⟩ := Option.ite_none_right_eq_some.mp hstep
            cases hs'
            exact .inr (.inl fun _ _ hp => by cases hp)
          · cases hstep
      | leave r =>
          obtain ⟨-, hs'⟩ := Option.ite_none_right_eq_some.mp hstep
          cases hs'
          exact .inl ⟨rfl, by simp⟩
      | _ => cases hact

/-- A force walk is asked for by the statement of `stop()` that does so, and nothing else. -/
lemma unforced_of_step {act : Act n} (hstep : (machine cfg).step s act = some s')
    {r : Fin (n + 1)} (hpc : ∀ ok b, act = .own ok → s.host.pc ≠ .stop (.force r.val) b)
    (h : (s.loop r).Unforced) : (s'.loop r).Unforced := by
  have hdeed := deed_of_step hstep
  by_cases hown : ∃ ok, act = .own ok
  · obtain ⟨ok, rfl⟩ := hown
    replace hstep : s.ownStep cfg ok = some s' := hstep
    unfold ownStep at hstep
    split at hstep
    · cases hstep
    · next p b hp =>
        rcases loop_of_stopStep hstep r with heq | ⟨k, hmove, rfl, -⟩
        · exact heq ▸ h
        · cases k with
          | abort => exact h.move (by simp [request]) (by simp [request]) hmove
          | force => exact absurd hp (hpc ok b rfl)
    · rw [(same_of_startStep hstep).loop]
      exact h
  · rcases hdeed.loop_act r with heq | ⟨a, hmove, hall, -, -, hask⟩
    · exact heq ▸ h
    · exact h.move hall (fun ha => hown (hask (by rw [ha]; rfl))) hmove

namespace Pressed

lemma initial : (Server.initial : Server n).Pressed where
  forcing _ := .initial
  unstopped _ _ := ⟨rfl, rfl⟩
  before _ _ _ h := by cases h
  asked _ _ _ h := by cases h
  after _ _ _ h := by cases h

/-- A loop that ends a session, or is asked for a walk, or goes on, keeps its account. -/
lemma forcing_step (h : s.Pressed) (hjoined : Joined s.loop s.job s.sessions) (hframed : s.Framed)
    {act : Act n} (hstep : (machine cfg).step s act = some s') (r : Fin (n + 1)) :
    (s'.loop r).Forcing := by
  have moves : ∀ {a : ReactorRuntime.Act ℕ}, Loop.Move (s.loop r) a (s'.loop r) → a ≠ .forceAll →
      (∀ c, a ≠ .untrack c) → (∀ c, a = .destroy c → s.job r = .ending c) →
      (a = .requestForce → (s.loop r).Unforced) → (s'.loop r).Forcing := by
    intro a hmove hall huntrack hdestroy hask
    refine (h.forcing r).move (hjoined.side r).sound (hframed.steady r).front hall hask ?_ hmove
    rintro c (ha | ha)
    · exact absurd ha (huntrack c)
    · -- a session at its end is past its `track`
      have hend := hdestroy c ha
      intro hmem
      obtain ⟨frame, hframe, howes⟩ := List.mem_filterMap.mp hmem
      cases frame with
      | trackAbort b => simp [hjoined.tracks r b hframe] at hend
      | trackForce b => simp [(hframed.steady r).forces b hframe] at hend
      | walk k outer j => simp [Frame.owes] at howes
      | call k b => simp [Frame.owes] at howes
  by_cases hown : ∃ ok, act = .own ok
  · obtain ⟨ok, rfl⟩ := hown
    replace hstep : s.ownStep cfg ok = some s' := hstep
    unfold ownStep at hstep
    split at hstep
    · cases hstep
    · next p b hpc =>
        rcases loop_of_stopStep hstep r with heq | ⟨k, hmove, rfl, -⟩
        · exact heq ▸ h.forcing r
        · cases k with
          | abort =>
              exact moves hmove (by simp [request]) (by simp [request]) (by simp [request])
                (by simp [request])
          | force =>
              refine moves hmove (by simp [request]) (by simp [request]) (by simp [request]) ?_
              exact fun _ => h.before _ b r hpc (by simp [StopPc.asks, StopPc.unforced])
    · rw [(same_of_startStep hstep).loop]
      exact h.forcing r
  · rcases (deed_of_step hstep).loop_act r with heq | ⟨a, hmove, hall, huntrack, hdestroy, hask⟩
    · exact heq ▸ h.forcing r
    · exact moves hmove hall huntrack hdestroy fun ha =>
        absurd (hask (by rw [ha]; rfl)) hown

lemma unforced_of_next {p p' : StopPc} {i : ℕ} (h : Next n p p') (hun : p'.unforced i = true) :
    p = .test ∨ p.unforced i = true ∧ p ≠ .force i := by
  cases h with
  | begin_ => exact .inl rfl
  | @force k =>
      simp only [StopPc.unforced, decide_eq_true_eq] at hun
      refine .inr ⟨by simp [StopPc.unforced, hun.le], ?_⟩
      rintro ⟨⟩
      omega
  | @awaitForce k =>
      simp only [StopPc.unforced, decide_eq_true_eq] at hun
      exact .inr ⟨by simp only [StopPc.unforced, decide_eq_true_eq]; omega, by simp⟩
  | forced | forceAwaited | drainForced | drained | forceDrained | clearGuards | halt | halted
  | join | joined => cases hun
  | _ => exact .inr ⟨rfl, by simp⟩

/-- `stop()` has waited for the walk that it asked reactor `r` for, or for all of them. -/
lemma over_of_stopStep (h : s.Pressed) {ok b : Bool} {p : StopPc} (hpc : s.host.pc = .stop p b)
    (hstep : s.stopStep cfg ok b p = some s') {p' : StopPc} {b' : Bool} {r : Fin (n + 1)}
    (hpc' : s'.host.pc = .stop p' b') (hpressed : p'.pressed r.val = true) :
    (s.loop r).ForceOver := by
  rcases next_of_stopStep hstep with ⟨q, hq, hnext⟩ | ⟨hend, -⟩
  · obtain rfl : q = p' := by
      rw [hq] at hpc'
      cases hpc'
      rfl
    cases hnext with
    | force => exact h.after _ b r hpc hpressed
    | drainForced => exact h.after _ b r hpc rfl
    | undrained => simp [StopPc.pressed] at hpressed
    | @awaitForce i =>
        simp only [StopPc.pressed, decide_eq_true_eq] at hpressed
        by_cases hr : r.val = i
        · simp only [Server.stopStep] at hstep
          rcases each_cases hstep with ⟨hi, -, hstep⟩ | ⟨-, rfl⟩
          · obtain ⟨hover, -⟩ := Option.ite_none_right_eq_some.mp hstep
            obtain ⟨hposted, hwalks⟩ : (s.loop ⟨i, hi⟩).forcePosted = 0 ∧
                Loop.walks .force (s.loop ⟨i, hi⟩).stack = 0 := by simpa [walkOver] using hover
            obtain rfl : r = ⟨i, hi⟩ := Fin.ext hr
            refine (h.forcing _).forceOver ?_ hwalks
            -- it was asked for, and is not posted any more
            have hasked := h.asked i b hi hpc
            cases hf : (s.loop ⟨i, hi⟩).forced_ with
            | true => rfl
            | false => exact absurd ⟨hposted, hf⟩ hasked
          · cases hq
        · refine h.after _ b r hpc ?_
          simp only [StopPc.pressed, decide_eq_true_eq]
          omega
    | @forced i =>
        refine h.after _ b r hpc ?_
        simp only [Server.stopStep] at hstep
        rcases each_cases hstep with ⟨hi, -, hstep⟩ | ⟨hi, -⟩
        · obtain ⟨t, -, rfl⟩ := Option.map_eq_some_iff.mp hstep
          cases hq
        · simp only [StopPc.pressed, decide_eq_true_eq]
          omega
    | @forceAwaited i =>
        refine h.after _ b r hpc ?_
        simp only [Server.stopStep] at hstep
        rcases each_cases hstep with ⟨hi, -, hstep⟩ | ⟨hi, -⟩
        · obtain ⟨-, hstep⟩ := Option.ite_none_right_eq_some.mp hstep
          cases hstep
          cases hq
        · simp only [StopPc.pressed, decide_eq_true_eq]
          omega
    | _ => cases hpressed
  · rw [hend] at hpc'
    cases hpc'

/-- **Every step keeps the account of the force walks.** -/
theorem step (h : s.Pressed) (hdesk : Desk cfg s) (hjoined : Joined s.loop s.job s.sessions)
    (hframed : s.Framed) {act : Act n} (hstep : (machine cfg).step s act = some s') :
    s'.Pressed := by
  have moved := (deed_of_step hstep).loop_move
  refine ⟨h.forcing_step hjoined hframed hstep, fun hs' r => ?_, fun p b r hp hun => ?_,
    fun i b hi hp hun => ?_, fun p b r hp hpressed => ?_⟩
  · have hs : s.host.stopped_ = false := by
      cases hs : s.host.stopped_ with
      | false => rfl
      | true => simp [(flags_stay hstep).2 hs] at hs'
    refine unforced_of_step hstep (fun ok b _ hpc => ?_) (h.unstopped hs r)
    simp [hdesk.hosted.stopping (by rw [hpc]; rfl)] at hs
  · rcases pc_of_step hstep with ⟨hsame, hnot⟩ | htest | ⟨ok, q, b', q', -, hq, hq', hnext, hstop⟩
    · exact unforced_of_step hstep (fun ok _ ha => absurd ha (hnot ok))
        (h.before p b r (hsame ▸ hp) hun)
    · obtain rfl := htest p b hp
      cases hun
    · obtain rfl : q' = p := by
        rw [hq'] at hp
        cases hp
        rfl
      rcases unforced_of_next hnext hun with rfl | ⟨hunq, hne⟩
      · -- the first statement goes on if this is the first call
        refine unforced_of_step hstep (fun _ _ _ hc => by rw [hq] at hc; cases hc)
          (h.unstopped ?_ r)
        simp only [stopStep] at hstop
        split at hstop
        · cases hstop
          cases hq'
        · next hfirst => simpa using hfirst
      · refine unforced_of_step hstep (fun _ _ _ hc => hne ?_) (h.before q b' r hq hunq)
        rw [hq] at hc
        cases hc
        rfl
  · rcases pc_of_step hstep with ⟨hsame, -⟩ | htest | ⟨ok, q, b', q', -, hq, hq', hnext, hstop⟩
    · refine h.asked i b hi (hsame ▸ hp) ?_
      rcases moved ⟨i, hi⟩ with heq | ⟨a, hmove⟩
      · exact heq ▸ hun
      · exact hun.of_move hmove
    · cases htest _ b hp
    · obtain rfl : q' = .awaitForce i := by
        rw [hq'] at hp
        cases hp
        rfl
      cases hnext
      simp only [stopStep] at hstop
      rcases each_cases hstop with ⟨hi, -, hstop⟩ | ⟨-, rfl⟩
      · obtain ⟨t, ht, rfl⟩ := Option.map_eq_some_iff.mp hstop
        obtain ⟨l, hl, rfl⟩ := Option.map_eq_some_iff.mp ht
        have hmove := Loop.move_of_step hl
        cases hmove
        simp [goto, Loop.Unforced] at hun
      · cases hq'
  · have hover : (s.loop r).ForceOver := by
      rcases pc_of_step hstep with ⟨hsame, -⟩ | htest | ⟨ok, q, b', q', -, hq, hq', hnext, hstop⟩
      · exact h.after p b r (hsame ▸ hp) hpressed
      · obtain rfl := htest p b hp
        cases hpressed
      · exact h.over_of_stopStep hq hstop hp hpressed
    rcases moved r with heq | ⟨a, hmove⟩
    · exact heq ▸ hover
    · exact hover.move hmove

end Pressed

lemma pressed_of_reachable (hs : (machine cfg).Reachable s) : s.Pressed := by
  refine (hs.invariant (I := fun s => (machine cfg).Reachable s ∧ s.Pressed)
    ⟨.init, .initial⟩ fun s act s' h _ hstep => ?_).2
  exact ⟨h.1.step trivial hstep, h.2.step (desk_of_reachable h.1) (joined_of_reachable h.1)
    (framed_of_reachable h.1) hstep⟩

/-! ## After the waits -/

/-- `stop()` is past its waits for the sessions: it is about to stop the loops, or it has
returned. -/
def Retired (s : Server n) : Prop := s.host.stopped_ = true ∧ s.host.pc.closing = true

instance (s : Server n) : Decidable s.Retired := inferInstanceAs (Decidable (_ ∧ _))

lemma retired_of_stopStep (hdesk : Desk cfg s) {ok b : Bool} {p : StopPc}
    (hpc : s.host.pc = .stop p b) (hstep : s.stopStep cfg ok b p = some s')
    (h : s'.host.pc.closing = true) :
    s.Retired ∨ ∃ i, n + 1 ≤ i ∧ (p = .drain i true ∨ p = .drainForced i) ∧
      s' = s.goto (.stop .clearGuards b) := by
  have hstopped : p ≠ .test → s.host.stopped_ = true := fun hp => hdesk.hosted.stopping (by
    rw [hpc]
    cases p <;> first | rfl | exact absurd rfl hp)
  have here : p ≠ .test → (OwnerPc.stop p b).closing = true → s.Retired := fun hp hclosing =>
    ⟨hstopped hp, hpc ▸ hclosing⟩
  rcases next_of_stopStep hstep with ⟨p', hp', hnext⟩ | ⟨-, rfl | ⟨rfl, hfirst, -⟩⟩
  · rw [hp'] at h
    cases hnext with
    | @drained i =>
        simp only [stopStep] at hstep
        rcases each_cases hstep with ⟨hi, -, hstep⟩ | ⟨hi, rfl⟩
        · obtain ⟨-, hstep⟩ := Option.ite_none_right_eq_some.mp hstep
          cases hstep
          cases hp'
        · exact .inr ⟨i, by omega, .inl rfl, rfl⟩
    | @forceDrained i =>
        simp only [stopStep] at hstep
        rcases each_cases hstep with ⟨hi, -, hstep⟩ | ⟨hi, rfl⟩
        · obtain ⟨-, hstep⟩ := Option.ite_none_right_eq_some.mp hstep
          cases hstep
          cases hp'
        · exact .inr ⟨i, by omega, .inr rfl, rfl⟩
    | clearGuards | halt | halted | join | joined => exact .inl (here (by simp) rfl)
    | _ => cases h
  · exact .inl (here (by simp) rfl)
  · exact .inl ⟨hfirst, by rw [hpc]; rfl⟩

lemma retired_of_step (hdesk : Desk cfg s) {act : Act n} (hact : act ≠ .postFails)
    (hstep : (machine cfg).step s act = some s') (h : s'.Retired) :
    s.Retired ∨ ∃ i b, n + 1 ≤ i ∧
      (s.host.pc = .stop (.drain i true) b ∨ s.host.pc = .stop (.drainForced i) b) ∧
      s' = s.goto (.stop .clearGuards b) := by
  cases hhost : isHost act with
  | false =>
      rw [Retired, (beside_of_step hhost hstep).host] at h
      exact .inl h
  | true =>
      cases act with
      | callStart port =>
          obtain ⟨hdone, hs'⟩ := Option.ite_none_right_eq_some.mp hstep
          cases hs'
          obtain ⟨how, hpc⟩ : ∃ how, s.host.pc = .done how := by
            cases hpc : s.host.pc <;> simp_all [isDone]
          refine .inl ⟨?_, by rw [hpc]; rfl⟩
          have := h.1
          unfold callStart at this
          split at this <;> exact this
      | callStop =>
          obtain ⟨hdone, hs'⟩ := Option.ite_none_right_eq_some.mp hstep
          cases hs'
          obtain ⟨how, hpc⟩ : ∃ how, s.host.pc = .done how := by
            cases hpc : s.host.pc <;> simp_all [isDone]
          exact .inl ⟨h.1, by rw [hpc]; rfl⟩
      | own ok =>
          have hup := Upkeep.of_own hstep
          replace hstep : s.ownStep cfg ok = some s' := hstep
          unfold ownStep at hstep
          split at hstep
          · cases hstep
          · next p b hpc =>
              refine (retired_of_stopStep hdesk hpc hstep h.2).imp id ?_
              rintro ⟨i, hi, hp, rfl⟩
              exact ⟨i, b, hi, by rcases hp with rfl | rfl <;> simp [hpc], rfl⟩
          · next hdone hstop =>
              -- `start()` is under way, so `stop()` has not been called
              have hstarting : s.host.pc.isStarting = true := by
                cases hpc : s.host.pc with
                | done how => exact absurd hpc (hdone how)
                | stop p b => exact absurd hpc (hstop p b)
                | _ => rfl
              have hstopped := (hdesk.hosted.starting hstarting).2
              rcases hup.stopped with heq | ⟨-, b, hpc⟩
              · simp [h.1, hstopped] at heq
              · exact absurd hpc (hstop _ b)
      | postFails => exact absurd rfl hact
      | leave r =>
          obtain ⟨-, hs'⟩ := Option.ite_none_right_eq_some.mp hstep
          cases hs'
          exact .inl h
      | _ => cases hhost

lemma over_of_retired (hs : (machine cfg).ReachableUnder (fun _ act => act ≠ .postFails) s)
    (h : s.Retired) : (∀ r, Over s.control r) ∧ ∀ r, (s.loop r).Walked := by
  refine (hs.invariant (I := fun s => (machine cfg).Reachable s ∧ (s.Retired →
    (∀ r, Over s.control r) ∧ ∀ r, (s.loop r).Walked)) ⟨.init, ?_⟩
    fun s act s' ih hact hstep => ⟨ih.1.step trivial hstep, fun h => ?_⟩).2 h
  · rintro ⟨hstopped, -⟩
    cases hstopped
  · have hdesk := desk_of_reachable ih.1
    rcases retired_of_step hdesk hact hstep h with hret | ⟨i, b, -, hpc, rfl⟩
    · obtain ⟨hover, hwalked⟩ := ih.2 hret
      refine ⟨fun r a ha => ?_, fun r => (deed_of_step hstep).walked (hwalked r)⟩
      obtain ⟨-, hstay, hthere⟩ := hdesk.control_step hstep r
      exact hstay (hthere hret.1 (by simp [ha])) (hover r) a ha
    · have hgraced : ∃ p, s.host.pc = .stop p b ∧ p.graced = true := by
        rcases hpc with hpc | hpc
        · exact ⟨_, hpc, rfl⟩
        · exact ⟨_, hpc, rfl⟩
      obtain ⟨p, hp, hgraced⟩ := hgraced
      exact ⟨hdesk.over_of_graced hp hgraced,
        fun r => (waited_of_reachable ih.1).walked p b r hp (StopPc.past_of_graced hgraced _)⟩

/-- A session whose control is still there once both walks are over has been asked once and forced
once. -/
lemma forces_eq_one (hs : (machine cfg).Reachable s) {c : ℕ}
    (hst : (s.sessions.conn c).stage = .running ∨ (s.sessions.conn c).stage = .ending)
    (hover : (s.loop (s.sessions.conn c).home).ForceOver) :
    (s.loop (s.sessions.conn c).home).forces c = 1 := by
  have hjoined := joined_of_reachable hs
  have hframed := framed_of_reachable hs
  have hcontrolled : (s.sessions.conn c).stage.controlled = true := by
    rcases hst with hst | hst <;> rw [hst] <;> rfl
  have htracked := ((hjoined.linked c).counted hcontrolled).2.1
  refine ((pressed_of_reachable hs).forcing _).forces_eq_one hover htracked fun hmem => ?_
  -- a `track` call is about a session that is starting
  have hstarting : ∃ r, s.job r = .starting c := by
    obtain ⟨frame, hframe, howes⟩ := List.mem_filterMap.mp hmem
    cases frame with
    | trackAbort b =>
        obtain rfl : b = c := by simpa [Frame.owes] using howes
        exact ⟨_, hjoined.tracks _ b hframe⟩
    | trackForce b =>
        obtain rfl : b = c := by simpa [Frame.owes] using howes
        exact ⟨_, (hframed.steady _).forces b hframe⟩
    | walk k outer j => simp [Frame.owes] at howes
    | call k b => simp [Frame.owes] at howes
  obtain ⟨r, hr⟩ := hstarting
  rcases hst with hst | hst <;> simp [(hjoined.starting r c hr).2] at hst

end Server

end ReactorRuntime
