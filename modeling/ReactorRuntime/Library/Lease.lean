import ReactorRuntime.Library.Census

/-!
# Move-only leases

A lease is an object that holds one unit of something or nothing, can be moved but not copied,
and gives back what it holds when it is reset, assigned over or destroyed.  `Leases κ` is a table of
such objects, in the order in which they were made; what a lease holds is named by a `κ`.

Giving back is two steps: the unit is given back, and then the object forgets it.  What happens to
other objects in between is up to the run; the two objects of an assignment are in use until it is
over, and nobody else touches an object that is in use.

What there is to prove is conservation.  The total weight of what the leases hold, for any way of
weighing that gives nothing to an object that holds nothing, changes by what is given back and by
what is issued, and by nothing else (`Leases.weigh_of_step`).  And what is held is held by an object
that is there: one that was destroyed holds nothing, and neither does one that was reset
(`Sound.dead`, `giveBack_cases`).
-/

namespace ReactorRuntime

/-- What an operation on a lease does once the lease has given back what it held. -/
inductive After
  | reset
  | destroy
  /-- The content of `src` is moved in. -/
  | take (src : ℕ)
  deriving DecidableEq, Repr

/-- What a lease holds. -/
inductive Hold (κ : Type*)
  | empty
  | full (k : κ)
  /-- What it held was given back; the object does not say so yet. -/
  | returned (after : After)
  deriving DecidableEq, Repr

/-- No operation is half way. -/
def Hold.settled {κ : Type*} : Hold κ → Bool
  | .returned _ => false
  | _ => true

/-- One, if something is held. -/
def Hold.isFull {κ : Type*} : Hold κ → ℕ
  | .full _ => 1
  | _ => 0

/-- One, if `k` is held. -/
def Hold.holds {κ : Type*} [DecidableEq κ] (k : κ) : Hold κ → ℕ
  | .full x => if x = k then 1 else 0
  | _ => 0

structure Lease (κ : Type*) where
  alive : Bool
  hold : Hold κ
  /-- The lease that is being assigned from this one. -/
  lentTo : Option ℕ
  deriving DecidableEq, Repr

/-- A table of leases. -/
structure Leases (κ : Type*) where
  lease : ℕ → Lease κ
  made : ℕ

namespace Leases

variable {κ : Type*}

inductive Act
  /-- An empty lease is made. -/
  | make
  | moveMake (src : ℕ)
  | moveAssign (dst src : ℕ)
  | reset (l : ℕ)
  | destroy (l : ℕ)
  /-- The operation that gave back what `l` held goes on to its end. -/
  | finish (l : ℕ)
  deriving DecidableEq

def initial : Leases κ where
  lease _ := ⟨false, .empty, none⟩
  made := 0

/-- The lease exists and is not in use. -/
def Free (s : Leases κ) (l : ℕ) : Prop :=
  l < s.made ∧ (s.lease l).alive = true ∧ (s.lease l).lentTo = none ∧
    (s.lease l).hold.settled = true

instance (s : Leases κ) (l : ℕ) : Decidable (s.Free l) := inferInstanceAs (Decidable (_ ∧ _))

def set (s : Leases κ) (l : ℕ) (x : Lease κ) : Leases κ :=
  { s with lease := Function.update s.lease l x }

/-- A new lease with the given content. -/
def push (s : Leases κ) (h : Hold κ) : Leases κ where
  lease := Function.update s.lease s.made ⟨true, h, none⟩
  made := s.made + 1

/-- The rest of an operation on `l`, when that holds nothing any more. -/
def conclude (s : Leases κ) (l : ℕ) : After → Leases κ
  | .reset => s.set l { s.lease l with hold := .empty }
  | .destroy => s.set l { s.lease l with hold := .empty, alive := false }
  | .take src =>
      (s.set l { s.lease l with hold := (s.lease src).hold }).set src
        { s.lease src with hold := .empty, lentTo := none }

/-- The first step of an operation that gives back what `l` holds, and what that is. -/
def giveBack (s : Leases κ) (l : ℕ) (after : After) : Leases κ × Option κ :=
  match (s.lease l).hold with
  | .full k => (s.set l { s.lease l with hold := .returned after }, some k)
  | _ => (s.conclude l after, none)

/-- One step, and what it gives back.  A lease type may be `guarded` against assignment from the
same object; one that is not is reset by that. -/
def step (guarded : Bool) (s : Leases κ) : Act → Option (Leases κ × Option κ)
  | .make => some (s.push .empty, none)
  | .moveMake src =>
      if s.Free src then
        some ((s.set src { s.lease src with hold := .empty }).push (s.lease src).hold, none)
      else none
  | .moveAssign dst src =>
      if s.Free dst ∧ s.Free src then
        if dst = src then
          -- after the reset the object moves its own null into itself
          if guarded then some (s, none) else some (s.giveBack dst .reset)
        else some ((s.set src { s.lease src with lentTo := some dst }).giveBack dst (.take src))
      else none
  | .reset l => if s.Free l then some (s.giveBack l .reset) else none
  | .destroy l => if s.Free l then some (s.giveBack l .destroy) else none
  | .finish l =>
      match (s.lease l).hold with
      | .returned after => some (s.conclude l after, none)
      | _ => none

variable {s : Leases κ} {l : ℕ}

@[simp] lemma set_self (x : Lease κ) : (s.set l x).lease l = x := Function.update_self ..

lemma set_of_ne {x : Lease κ} {d : ℕ} (h : d ≠ l) : (s.set l x).lease d = s.lease d :=
  Function.update_of_ne h ..

/-! ## Operations in order -/

/-- The objects of an assignment under way know of each other, and one that was destroyed holds
nothing. -/
structure Sound (s : Leases κ) : Prop where
  unmade : ∀ l, s.made ≤ l → s.lease l = ⟨false, .empty, none⟩
  lent : ∀ l src, (s.lease l).hold = .returned (.take src) → (s.lease src).lentTo = some l
  settled : ∀ l, (s.lease l).lentTo ≠ none → (s.lease l).hold.settled = true
  dead : ∀ l, (s.lease l).alive = false → (s.lease l).hold = .empty

namespace Sound

lemma initial : Sound (Leases.initial : Leases κ) where
  unmade _ _ := rfl
  lent _ _ h := by cases h
  settled _ h := absurd rfl h
  dead _ _ := rfl

lemma lt_made (h : Sound s) (hne : s.lease l ≠ ⟨false, .empty, none⟩) : l < s.made := by
  by_contra hl
  exact hne (h.unmade l (by omega))

/-- Nothing is assigned from a lease that is not lent. -/
lemma not_taken (h : Sound s) (hl : (s.lease l).lentTo = none) (d : ℕ) :
    (s.lease d).hold ≠ .returned (.take l) := by
  intro hd
  rw [h.lent d l hd] at hl
  cases hl

/-- One lease changes. -/
lemma set (h : Sound s) {x : Lease κ} (hl : l < s.made)
    (htake : ∀ src, x.hold = .returned (.take src) → src ≠ l ∧ (s.lease src).lentTo = some l)
    (hsettled : x.lentTo ≠ none → x.hold.settled = true)
    (hlent : ∀ d, d ≠ l → (s.lease d).hold = .returned (.take l) → x.lentTo = some d)
    (hdead : x.alive = false → x.hold = .empty) : Sound (s.set l x) := by
  refine ⟨fun d hd => ?_, fun d src hd => ?_, fun d hd => ?_, fun d hd => ?_⟩
  · have hne : d ≠ l := by
      rintro rfl
      have : s.made ≤ d := hd
      omega
    rw [set_of_ne hne]
    exact h.unmade d hd
  · by_cases heq : d = l
    · subst heq
      rw [set_self] at hd
      obtain ⟨hne, hsrc⟩ := htake src hd
      rw [set_of_ne hne, hsrc]
    · rw [set_of_ne heq] at hd
      by_cases hs : src = l
      · subst hs
        rw [set_self, hlent d heq hd]
      · rw [set_of_ne hs]
        exact h.lent d src hd
  · by_cases heq : d = l
    · subst heq
      rw [set_self] at hd ⊢
      exact hsettled hd
    · rw [set_of_ne heq] at hd ⊢
      exact h.settled d hd
  · by_cases heq : d = l
    · subst heq
      rw [set_self] at hd ⊢
      exact hdead hd
    · rw [set_of_ne heq] at hd ⊢
      exact h.dead d hd

lemma push (h : Sound s) {x : Hold κ} (hx : x.settled = true) : Sound (s.push x) := by
  have old : ∀ d, d ≠ s.made → (s.push x).lease d = s.lease d := fun d hd =>
    Function.update_of_ne hd ..
  have new : (s.push x).lease s.made = ⟨true, x, none⟩ := Function.update_self ..
  refine ⟨fun d hd => ?_, fun d src hd => ?_, fun d hd => ?_, fun d hd => ?_⟩
  · have hd : s.made + 1 ≤ d := hd
    rw [old d (by omega)]
    exact h.unmade d (by omega)
  · have hne : d ≠ s.made := by
      rintro rfl
      rw [new] at hd
      simp only at hd
      simp [hd, Hold.settled] at hx
    rw [old d hne] at hd
    have hsrc := h.lent d src hd
    have hne' : src ≠ s.made := by
      rintro rfl
      simp [h.unmade s.made le_rfl] at hsrc
    rw [old src hne', hsrc]
  · have hne : d ≠ s.made := by
      rintro rfl
      simp [new] at hd
    rw [old d hne] at hd ⊢
    exact h.settled d hd
  · have hne : d ≠ s.made := by
      rintro rfl
      simp [new] at hd
    rw [old d hne] at hd ⊢
    exact h.dead d hd

/-- The rest of an operation, on a lease that is in use by it. -/
lemma conclude (h : Sound s) (hl : l < s.made) (halive : (s.lease l).alive = true)
    (hlent : (s.lease l).lentTo = none) {after : After}
    (htake : ∀ src, after = .take src → (s.lease src).lentTo = some l) :
    Sound (s.conclude l after) := by
  cases after with
  | reset | destroy =>
      refine h.set hl (fun src hsrc => by cases hsrc) (fun hne => absurd hlent hne) ?_ fun _ => rfl
      exact fun d _ hd => absurd hd (h.not_taken hlent d)
  | take src =>
      have hsrc := htake src rfl
      have hne : src ≠ l := by
        rintro rfl
        rw [hlent] at hsrc
        cases hsrc
      have hset := h.settled src (by simp [hsrc])
      have hfirst : Sound (s.set l { s.lease l with hold := (s.lease src).hold }) := by
        refine h.set hl (fun x hx => ?_) (fun hne => absurd hlent hne)
          (fun d _ hd => absurd hd (h.not_taken hlent d)) fun hdead => ?_
        · simp only at hx
          simp [hx, Hold.settled] at hset
        · exact absurd (halive.symm.trans hdead) (by simp)
      have hmade : src < s.made := h.lt_made (by intro heq; simp [heq] at hsrc)
      refine hfirst.set hmade (fun x hx => by cases hx) (fun hx => absurd rfl hx) ?_ fun _ => rfl
      -- whoever was to take from `src` is `l`, and that holds what `src` held
      intro d hd hx
      by_cases heq : d = l
      · subst heq
        rw [set_self] at hx
        simp only at hx
        simp [hx, Hold.settled] at hset
      · rw [set_of_ne heq] at hx
        have hboth := (h.lent d src hx).symm.trans hsrc
        exact absurd (Option.some.inj hboth) heq

lemma giveBack (h : Sound s) (hl : l < s.made) (halive : (s.lease l).alive = true)
    (hlent : (s.lease l).lentTo = none) {after : After}
    (htake : ∀ src, after = .take src → src ≠ l ∧ (s.lease src).lentTo = some l) :
    Sound (s.giveBack l after).1 := by
  unfold Leases.giveBack
  split
  · refine h.set hl (fun src hsrc => htake src ?_) (fun hne => absurd hlent hne)
      (fun d _ hd => absurd hd (h.not_taken hlent d)) fun hdead => ?_
    · simpa using hsrc
    · exact absurd (halive.symm.trans hdead) (by simp)
  · exact h.conclude hl halive hlent fun src hsrc => (htake src hsrc).2

/-- A lease that is not in use is lent. -/
lemma lend (h : Sound s) {src dst : ℕ} (hsrc : s.Free src) :
    Sound (s.set src { s.lease src with lentTo := some dst }) := by
  obtain ⟨hlt, halive, hlent, hset⟩ := hsrc
  refine h.set hlt (fun x hx => ?_) (fun _ => hset) (fun d _ hd => absurd hd (h.not_taken hlent d))
    fun hdead => absurd (halive.symm.trans hdead) (by simp)
  simp only at hx
  simp [hx, Hold.settled] at hset

/-- **Every step keeps the operations in order.** -/
theorem step (h : Sound s) {guarded : Bool} {act : Act} {r : Leases κ × Option κ}
    (hstep : s.step guarded act = some r) : Sound r.1 := by
  have back : ∀ {l}, s.Free l → ∀ after, (∀ src, after ≠ .take src) →
      Sound (s.giveBack l after).1 := fun hf after hafter =>
    h.giveBack hf.1 hf.2.1 hf.2.2.1 fun src hsrc => absurd hsrc (hafter src)
  cases act with
  | make =>
      cases hstep
      exact h.push rfl
  | moveMake src =>
      obtain ⟨hfree, hstep⟩ := Option.ite_none_right_eq_some.mp hstep
      cases hstep
      obtain ⟨hlt, -, hlent, hset⟩ := hfree
      have hemptied : Sound (s.set src { s.lease src with hold := .empty }) :=
        h.set hlt (fun x hx => by cases hx) (fun hne => absurd hlent hne)
          (fun d _ hd => absurd hd (h.not_taken hlent d)) fun _ => rfl
      exact hemptied.push hset
  | moveAssign dst src =>
      obtain ⟨⟨hdst, hsrc⟩, hstep⟩ := Option.ite_none_right_eq_some.mp hstep
      split at hstep
      · split at hstep <;> cases hstep
        · exact h
        · exact back hdst _ (by simp)
      · next hne =>
          cases hstep
          refine (h.lend hsrc).giveBack hdst.1 ?_ ?_ fun x hx => ?_
          · rw [set_of_ne hne]
            exact hdst.2.1
          · rw [set_of_ne hne]
            exact hdst.2.2.1
          · cases hx
            exact ⟨Ne.symm hne, by simp⟩
  | reset l =>
      obtain ⟨hfree, hstep⟩ := Option.ite_none_right_eq_some.mp hstep
      cases hstep
      exact back hfree _ (by simp)
  | destroy l =>
      obtain ⟨hfree, hstep⟩ := Option.ite_none_right_eq_some.mp hstep
      cases hstep
      exact back hfree _ (by simp)
  | finish l =>
      simp only [Leases.step] at hstep
      split at hstep
      · next after hhold =>
          cases hstep
          have hlent : (s.lease l).lentTo = none := by
            by_contra hne
            simpa [hhold, Hold.settled] using h.settled l hne
          have halive : (s.lease l).alive = true := by
            by_contra hnot
            have hempty := h.dead l (by simpa using hnot)
            rw [hhold] at hempty
            cases hempty
          refine h.conclude (h.lt_made fun heq => ?_) halive hlent fun src hsrc => h.lent l src ?_
          · rw [heq] at hhold
            cases hhold
          · rw [hhold, hsrc]
      · cases hstep

end Sound

/-! ## What a reset and a destructor leave behind -/

lemma conclude_reset : ((s.conclude l .reset).lease l).hold = .empty := by
  rw [conclude, set_self]

lemma conclude_destroy : ((s.conclude l .destroy).lease l).alive = false := by
  rw [conclude, set_self]

/-- What a lease holds is given back by the first step of a reset or a destructor, and what is left
is the second step. -/
lemma giveBack_cases (s : Leases κ) (l : ℕ) (after : After) :
    (∃ k, (s.lease l).hold = .full k ∧ (s.giveBack l after).2 = some k ∧
      ((s.giveBack l after).1.lease l).hold = .returned after) ∨
    ((s.lease l).hold.isFull = 0 ∧ s.giveBack l after = (s.conclude l after, none)) := by
  unfold giveBack
  cases hhold : (s.lease l).hold with
  | full k => exact .inl ⟨k, rfl, rfl, by simp⟩
  | empty => exact .inr ⟨rfl, rfl⟩
  | returned a => exact .inr ⟨rfl, rfl⟩

lemma giveBack_of_reset {guarded : Bool} {r : Leases κ × Option κ}
    (hstep : s.step guarded (.reset l) = some r) : s.giveBack l .reset = r :=
  Option.some.inj (Option.ite_none_right_eq_some.mp hstep).2

lemma giveBack_of_destroy {guarded : Bool} {r : Leases κ × Option κ}
    (hstep : s.step guarded (.destroy l) = some r) : s.giveBack l .destroy = r :=
  Option.some.inj (Option.ite_none_right_eq_some.mp hstep).2

lemma step_finish {guarded : Bool} {after : After} (h : (s.lease l).hold = .returned after) :
    s.step guarded (.finish l) = some (s.conclude l after, none) := by
  simp only [step, h]

/-! ## Conservation -/

/-- A way of weighing what leases hold that gives nothing to one that holds nothing. -/
structure Counts (w : Hold κ → ℕ) : Prop where
  empty : w .empty = 0
  returned : ∀ after, w (.returned after) = 0

lemma counts_isFull : Counts (Hold.isFull (κ := κ)) := ⟨rfl, fun _ => rfl⟩

lemma counts_holds [DecidableEq κ] (k : κ) : Counts (Hold.holds k) := ⟨rfl, fun _ => rfl⟩

/-- The total weight of what the leases hold. -/
def weigh (w : Hold κ → ℕ) (s : Leases κ) : ℕ :=
  census (Finset.range s.made) (fun x => w x.hold) s.lease

/-- The weight of what a step gives back. -/
def given (w : Hold κ → ℕ) : Option κ → ℕ
  | none => 0
  | some k => w (.full k)

variable {w : Hold κ → ℕ}

lemma weigh_set (hl : l < s.made) (x : Lease κ) :
    weigh w (s.set l x) + w (s.lease l).hold = weigh w s + w x.hold :=
  census_update (w := fun x : Lease κ => w x.hold) (Finset.mem_range.mpr hl) x

lemma weigh_push (h : Hold κ) : weigh w (s.push h) = weigh w s + w h :=
  census_range_succ (w := fun x : Lease κ => w x.hold) _

lemma weigh_conclude (hw : Counts w) (hl : l < s.made) (hzero : w (s.lease l).hold = 0)
    {after : After} (htake : ∀ src, after = .take src → src ≠ l ∧ src < s.made) :
    weigh w (s.conclude l after) = weigh w s := by
  cases after with
  | reset =>
      have hset := weigh_set (w := w) hl { s.lease l with hold := .empty }
      rwa [hzero, hw.empty] at hset
  | destroy =>
      have hset := weigh_set (w := w) hl { s.lease l with hold := .empty, alive := false }
      rwa [hzero, hw.empty] at hset
  | take src =>
      obtain ⟨hne, hlt⟩ := htake src rfl
      let mid := s.set l { s.lease l with hold := (s.lease src).hold }
      have hinto : weigh w mid + w (s.lease l).hold = weigh w s + w (s.lease src).hold :=
        weigh_set hl _
      have hfrom : weigh w (s.conclude l (.take src)) + w (mid.lease src).hold =
          weigh w mid + w .empty := weigh_set (s := mid) hlt _
      have hsame : mid.lease src = s.lease src := set_of_ne hne
      rw [hsame, hw.empty] at hfrom
      omega

lemma weigh_giveBack (hw : Counts w) (hl : l < s.made) {after : After}
    (htake : ∀ src, after = .take src → src ≠ l ∧ src < s.made) :
    weigh w (s.giveBack l after).1 + given w (s.giveBack l after).2 = weigh w s := by
  unfold giveBack
  split
  · next k hk =>
      have hset := weigh_set (w := w) hl { s.lease l with hold := .returned after }
      rw [hk, hw.returned] at hset
      exact hset
  · next hno =>
      refine weigh_conclude hw hl ?_ htake
      cases hh : (s.lease l).hold with
      | empty => exact hw.empty
      | full k => exact absurd hh (hno k)
      | returned a => exact hw.returned a

/-- **Nothing is given back twice, and nothing is lost.** -/
theorem weigh_of_step (hw : Counts w) (h : Sound s) {guarded : Bool} {act : Act}
    {r : Leases κ × Option κ} (hstep : s.step guarded act = some r) :
    weigh w r.1 + given w r.2 = weigh w s := by
  have back : ∀ {l}, s.Free l → ∀ after, (∀ src, after ≠ .take src) →
      weigh w (s.giveBack l after).1 + given w (s.giveBack l after).2 = weigh w s :=
    fun hf after hafter => weigh_giveBack hw hf.1 fun src hsrc => absurd hsrc (hafter src)
  cases act with
  | make =>
      cases hstep
      rw [weigh_push, hw.empty]
      rfl
  | moveMake src =>
      obtain ⟨hfree, hstep⟩ := Option.ite_none_right_eq_some.mp hstep
      cases hstep
      have hset := weigh_set (w := w) hfree.1 { s.lease src with hold := .empty }
      rw [hw.empty] at hset
      rw [weigh_push]
      exact hset
  | moveAssign dst src =>
      obtain ⟨⟨hdst, hsrc⟩, hstep⟩ := Option.ite_none_right_eq_some.mp hstep
      split at hstep
      · split at hstep <;> cases hstep
        · rfl
        · exact back hdst _ (by simp)
      · next hne =>
          cases hstep
          let lent := s.set src { s.lease src with lentTo := some dst }
          have hlend : weigh w lent + w (s.lease src).hold = weigh w s + w (s.lease src).hold :=
            weigh_set hsrc.1 _
          have htake : ∀ x, After.take src = .take x → x ≠ dst ∧ x < lent.made := by
            intro x hx
            cases hx
            exact ⟨Ne.symm hne, hsrc.1⟩
          have hback := weigh_giveBack (s := lent) hw hdst.1 htake
          exact hback.trans (by omega)
  | reset l =>
      obtain ⟨hfree, hstep⟩ := Option.ite_none_right_eq_some.mp hstep
      cases hstep
      exact back hfree _ (by simp)
  | destroy l =>
      obtain ⟨hfree, hstep⟩ := Option.ite_none_right_eq_some.mp hstep
      cases hstep
      exact back hfree _ (by simp)
  | finish l =>
      simp only [Leases.step] at hstep
      split at hstep
      · next after hhold =>
          cases hstep
          have hlt : l < s.made := h.lt_made fun heq => by
            rw [heq] at hhold
            cases hhold
          refine weigh_conclude hw hlt (by rw [hhold]; exact hw.returned after) fun src hsrc => ?_
          have hlent := h.lent l src (by rw [hhold, hsrc])
          have hset := h.settled src (by simp [hlent])
          refine ⟨fun heq => ?_, h.lt_made fun heq => ?_⟩
          · rw [heq, hhold] at hset
            cases hset
          · rw [heq] at hlent
            cases hlent
      · cases hstep

end Leases

end ReactorRuntime
