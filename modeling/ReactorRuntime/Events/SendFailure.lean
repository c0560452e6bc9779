import ReactorRuntime.Events.Signal

/-!
# When the post of a send throws

`Signal::send()` sets `pending` before it posts (`reactor_events.h:131-140`).  `asio::post`
allocates and may throw, and then nothing takes the flag back.  This file adds that to the signal:
the call leaves by the exception, with `pending` set and no handler posted.

As long as no post has thrown, and no longer, a set `pending` stands for a handler or for a sender
that is going to post one (`sure_iff_none_threw`).  After the first post that throws it stands for
neither, and this is for good: every later send coalesces onto a run that never comes (`Dead.step`).
-/

namespace ReactorRuntime

/-- A `Signal` whose posts may throw. -/
structure FallibleSignal where
  signal : Signal
  /-- The post of call `c` has thrown. -/
  threw : ℕ → Bool

namespace FallibleSignal

/-- What can happen next. -/
inductive Act
  | signal (act : Signal.Act)
  /-- The `asio::post` of call `c` throws. -/
  | postThrows (c : ℕ)
  deriving DecidableEq, Repr

def initial : FallibleSignal where
  signal := Signal.initial
  threw _ := false

/-- The action belongs to a call that an exception has ended. -/
def ended (s : FallibleSignal) : Signal.Act → Bool
  | .post c => s.threw c
  | _ => false

/-- One action. -/
def step (s : FallibleSignal) : Act → Option FallibleSignal
  | .signal act =>
      if s.ended act = false then
        (s.signal.step false act).map fun t => { s with signal := t }
      else none
  | .postThrows c =>
      if c < s.signal.calls ∧ (s.signal.send c).pc = .post ∧ s.threw c = false then
        some { s with
          signal := { s.signal with within := Signal.leave s.signal.within c }
          threw := Function.update s.threw c true }
      else none

/-- The signal with its failures as a machine. -/
def machine : Machine FallibleSignal Act where
  init := initial
  step := step

/-- Call `c` is a sender that has set `pending` and is still going to post. -/
def WillPost (s : FallibleSignal) (c : ℕ) : Prop :=
  c < s.signal.calls ∧ (s.signal.send c).pc = .post ∧ s.threw c = false

/-- There is a handler that has not cleared `pending`, or a sender that will post one. -/
def Scheduled (s : FallibleSignal) : Prop := 0 < s.signal.queued ∨ ∃ c, s.WillPost c

/-- The post does not throw. -/
def PostSucceeds (_ : FallibleSignal) (act : Act) : Prop := ∀ c, act ≠ .postThrows c

instance (s : FallibleSignal) (act : Act) : Decidable (s.PostSucceeds act) :=
  match act with
  | .signal _ => isTrue fun _ => Act.noConfusion
  | .postThrows c => isFalse fun h => h c rfl

variable {s t : FallibleSignal} {act : Act}

/-! ## While every post succeeds -/

/-- Without a failure this is the signal that was modelled before. -/
lemma reachable_of_postSucceeds (hs : machine.ReachableUnder PostSucceeds s) :
    (Signal.machine false).Reachable s.signal ∧ s.threw = fun _ => false := by
  apply hs.invariant (I := fun s =>
    (Signal.machine false).Reachable s.signal ∧ s.threw = fun _ => false)
  · exact ⟨.init, rfl⟩
  · intro s act t ⟨hreach, hthrew⟩ hok hstep
    cases act with
    | signal act =>
        obtain ⟨-, hmap⟩ := Option.ite_none_right_eq_some.mp hstep
        obtain ⟨u, hu, rfl⟩ := Option.map_eq_some_iff.mp hmap
        exact ⟨hreach.step trivial hu, hthrew⟩
    | postThrows c => exact absurd rfl (hok c)

lemma scheduled_of_token (hs : machine.ReachableUnder PostSucceeds s)
    (h : 0 < s.signal.winners + s.signal.queued) : s.Scheduled := by
  obtain ⟨-, hthrew⟩ := reachable_of_postSucceeds hs
  rcases Nat.eq_zero_or_pos s.signal.queued with hzero | hpos
  · right
    rw [hzero, Nat.add_zero] at h
    by_contra hnone
    refine Nat.ne_of_gt h (Signal.winners_eq_zero fun c hc hpc => ?_)
    exact hnone ⟨c, hc, hpc, congrFun hthrew c⟩
  · exact .inl hpos

lemma scheduled_of_pending (hs : machine.ReachableUnder PostSucceeds s)
    (hpending : s.signal.pending = true) : s.Scheduled := by
  apply scheduled_of_token hs
  have hkept := Signal.kept_of_reachable (reachable_of_postSucceeds hs).1
  have htoken := hkept.token
  rw [hpending, hkept.visible, Bool.toNat_true, Bool.toNat_false, Nat.add_zero] at htoken
  omega

/-- Whoever looks at the signal can count on a run of the callback. -/
structure Sure (s : FallibleSignal) : Prop where
  /-- A set flag stands for a handler that has not cleared it, or a sender that will post one. -/
  flag : s.signal.pending = true → s.Scheduled
  /-- For every send that has executed its exchange a run of the callback has started since, or a
  handler is about to call it, or there is such a handler or sender. -/
  covered : ∀ c < s.signal.calls, (s.signal.send c).pc ≠ .exchange →
    (s.signal.send c).runs < s.signal.runs ∨ s.signal.loop = .cleared ∨ s.Scheduled

lemma sure_of_postSucceeds (hs : machine.ReachableUnder PostSucceeds s) : s.Sure := by
  refine ⟨scheduled_of_pending hs, fun c hc hpc => ?_⟩
  have hkept := Signal.kept_of_reachable (reachable_of_postSucceeds hs).1
  rcases (hkept.sends c hc).covered hpc with hrun | htoken | hcleared
  · exact .inl hrun
  · exact .inr (.inr (scheduled_of_token hs htoken))
  · exact .inr (.inl hcleared)

/-! ## After a post that throws -/

/-- The flag is set, and nobody is going to clear it. -/
structure Dead (s : FallibleSignal) : Prop where
  pending : s.signal.pending = true
  buffered : s.signal.buffered = false
  queued : s.signal.queued = 0
  senders : ∀ c < s.signal.calls, (s.signal.send c).pc = .post → s.threw c = true

lemma Dead.not_scheduled (h : s.Dead) : ¬ s.Scheduled := by
  rintro (hpos | ⟨c, hc, hpc, hthrew⟩)
  · exact Nat.ne_of_gt hpos h.queued
  · exact Bool.false_ne_true (hthrew.symm.trans (h.senders c hc hpc))

/-- The number of callback runs that have started or that a handler is about to start. -/
def started (s : FallibleSignal) : ℕ :=
  s.signal.runs + (decide (s.signal.loop = .cleared)).toNat

lemma Dead.of_send {u : Signal} {c : ℕ} {e : Send} (h : s.Dead)
    (hfields : u.pending = true ∧ u.buffered = false ∧ u.queued = 0)
    (hsend : u.send = Function.update s.signal.send c e)
    (hcalls : ∀ d < u.calls, d ≠ c → d < s.signal.calls) (hpc : e.pc ≠ .post) :
    Dead { s with signal := u } := by
  refine ⟨hfields.1, hfields.2.1, hfields.2.2, ?_⟩
  intro d hd hpost
  have hpost : (Function.update s.signal.send c e d).pc = .post := hsend ▸ hpost
  rcases eq_or_ne d c with rfl | hne
  · rw [Function.update_self] at hpost
    exact absurd hpost hpc
  · rw [Function.update_of_ne hne] at hpost
    exact h.senders d (hcalls d hd hne) hpost

lemma Dead.call {own : Bool} {u : Signal} (h : s.Dead)
    (hstep : s.signal.step false (.call own) = some u) :
    Dead { s with signal := u } ∧ started { s with signal := u } = s.started := by
  obtain ⟨-, heq⟩ := Option.ite_none_right_eq_some.mp hstep
  cases heq
  refine ⟨h.of_send ⟨h.pending, h.buffered, h.queued⟩ rfl ?_ SendPc.noConfusion, rfl⟩
  intro d hd hne
  exact Nat.lt_of_le_of_ne (Nat.le_of_lt_succ hd) hne

/-- The flag is set, so that the send coalesces. -/
lemma Dead.exchange {c : ℕ} {u : Signal} (h : s.Dead)
    (hstep : s.signal.step false (.exchange c) = some u) :
    Dead { s with signal := u } ∧ started { s with signal := u } = s.started := by
  obtain ⟨-, heq⟩ := Option.ite_none_right_eq_some.mp hstep
  rw [if_pos h.pending] at heq
  cases heq
  exact ⟨h.of_send ⟨h.pending, h.buffered, h.queued⟩ rfl (fun d hd _ => hd) SendPc.noConfusion,
    rfl⟩

lemma Dead.loop {u : Signal} (h : s.Dead)
    (hsame : u = { s.signal with loop := u.loop, runs := u.runs, read := u.read })
    (hstarted : u.runs + (decide (u.loop = .cleared)).toNat = s.started) :
    Dead { s with signal := u } ∧ started { s with signal := u } = s.started := by
  refine ⟨⟨?_, ?_, ?_, ?_⟩, hstarted⟩
  · rw [hsame]
    exact h.pending
  · rw [hsame]
    exact h.buffered
  · rw [hsame]
    exact h.queued
  · rw [hsame]
    exact h.senders

/-- **A dead signal stays dead**, and no further callback run comes up. -/
theorem Dead.step (h : s.Dead) (hstep : s.step act = some t) :
    t.Dead ∧ t.started = s.started := by
  cases act with
  | postThrows c =>
      -- the exception of a sender whose post has thrown already has left
      obtain ⟨⟨hc, hpc, hthrew⟩, -⟩ := Option.ite_none_right_eq_some.mp hstep
      exact absurd (h.senders c hc hpc) (by rw [hthrew]; exact Bool.false_ne_true)
  | signal act =>
      obtain ⟨hended, hmap⟩ := Option.ite_none_right_eq_some.mp hstep
      obtain ⟨u, hu, rfl⟩ := Option.map_eq_some_iff.mp hmap
      cases act with
      | publish =>
          cases hu
          exact ⟨⟨h.pending, h.buffered, h.queued, h.senders⟩, rfl⟩
      | call own => exact h.call hu
      | exchange c => exact h.exchange hu
      | post c =>
          obtain ⟨⟨hc, hpc⟩, -⟩ := Option.ite_none_right_eq_some.mp hu
          exact absurd (hended.symm.trans (h.senders c hc hpc)) Bool.false_ne_true
      | clear =>
          obtain ⟨⟨-, hpos⟩, -⟩ := Option.ite_none_right_eq_some.mp hu
          exact absurd h.queued (Nat.ne_of_gt hpos)
      | run =>
          obtain ⟨hcleared, heq⟩ := Option.ite_none_right_eq_some.mp hu
          cases heq
          apply h.loop rfl
          rw [started, hcleared]
          rfl
      | finish threw =>
          obtain ⟨⟨hcalling, -⟩, heq⟩ := Option.ite_none_right_eq_some.mp hu
          cases heq
          apply h.loop rfl
          rw [started, hcalling]
          rfl
      | flush =>
          obtain ⟨hb, -⟩ := Option.ite_none_right_eq_some.mp hu
          exact absurd (h.buffered.symm.trans hb) Bool.false_ne_true

lemma Dead.leads (h : s.Dead) (hleads : machine.Leads s t) : t.Dead ∧ t.started = s.started := by
  apply hleads.preserves (I := fun t => t.Dead ∧ t.started = s.started)
  · intro t act t' ⟨hdead, hsame⟩ _ hstep
    obtain ⟨hdead', hsame'⟩ := hdead.step hstep
    exact ⟨hdead', hsame'.trans hsame⟩
  · exact ⟨h, rfl⟩

/-- A signal whose posts have all succeeded dies with the first one that throws: the sender held the
one token there is. -/
lemma dead_of_postThrows {c : ℕ} (hreach : (Signal.machine false).Reachable s.signal)
    (hstep : s.step (.postThrows c) = some t) : t.Dead := by
  obtain ⟨⟨hc, hpc, -⟩, heq⟩ := Option.ite_none_right_eq_some.mp hstep
  cases heq
  have hkept := Signal.kept_of_reachable hreach
  have htoken := hkept.token
  have hone := Bool.toNat_le s.signal.pending
  rw [hkept.visible, Bool.toNat_false, Nat.add_zero] at htoken
  -- the winners without `c`
  set u : Signal := { s.signal with send := Function.update s.signal.send c ⟨.posted, 0, 0⟩ }
  have hrest : u.winners + 1 = s.signal.winners := by
    have hsum := Signal.tally_update (t := u) (w := SendPc.winning) hc rfl rfl
    rw [hpc] at hsum
    exact hsum
  refine ⟨?_, hkept.visible, ?_, ?_⟩
  · by_contra hpending
    rw [Bool.eq_false_of_not_eq_true hpending, Bool.toNat_false] at htoken
    omega
  · show s.signal.queued = 0
    omega
  · intro d hd hpost
    rcases eq_or_ne d c with rfl | hne
    · exact Function.update_self ..
    · have hud : u.send d = s.signal.send d := Function.update_of_ne hne ..
      have hother : 0 < u.winners := Signal.winners_pos hd (hud ▸ hpost)
      omega

/-- Every signal is as if no post could throw, or dead. -/
lemma sound_or_dead (hs : machine.Reachable s) :
    machine.ReachableUnder PostSucceeds s ∨ s.Dead ∧ ∃ c, s.threw c = true := by
  apply hs.invariant (I := fun s =>
    machine.ReachableUnder PostSucceeds s ∨ s.Dead ∧ ∃ c, s.threw c = true)
  · exact .inl .init
  · rintro s act t (hsound | ⟨hdead, c, hthrew⟩) - hstep
    · cases act with
      | signal act => exact .inl (hsound.step (a := .signal act) (fun _ => Act.noConfusion) hstep)
      | postThrows c =>
          refine .inr ⟨dead_of_postThrows (reachable_of_postSucceeds hsound).1 hstep, c, ?_⟩
          obtain ⟨-, heq⟩ := Option.ite_none_right_eq_some.mp hstep
          cases heq
          exact Function.update_self ..
    · refine .inr ⟨(hdead.step hstep).1, c, ?_⟩
      cases act with
      | signal act =>
          obtain ⟨-, hmap⟩ := Option.ite_none_right_eq_some.mp hstep
          obtain ⟨u, -, rfl⟩ := Option.map_eq_some_iff.mp hmap
          exact hthrew
      | postThrows d =>
          obtain ⟨-, heq⟩ := Option.ite_none_right_eq_some.mp hstep
          cases heq
          show Function.update s.threw d true c = true
          rcases eq_or_ne c d with rfl | hne
          · exact Function.update_self ..
          · rw [Function.update_of_ne hne]
            exact hthrew

/-! ## The result -/

/-- **A signal can be counted on exactly until a post throws.**  In every state of every run: if and
only if no `asio::post` inside a `send()` has thrown, a set flag stands for a run to come and every
send has its run, or will have it; and after one that has thrown, `pending` is set for good, with no
handler and no sender to come. -/
theorem sure_iff_none_threw (hs : machine.Reachable s) :
    (s.Sure ↔ ∀ c, s.threw c = false) ∧
      ∀ c, s.threw c = true → ∀ t, machine.Leads s t →
        t.signal.pending = true ∧ ¬ t.Scheduled := by
  rcases sound_or_dead hs with hsound | ⟨hdead, d, hthrew⟩
  · have hnone : ∀ c, s.threw c = false := congrFun (reachable_of_postSucceeds hsound).2
    refine ⟨iff_of_true (sure_of_postSucceeds hsound) hnone, fun c hc => ?_⟩
    exact absurd (hc.symm.trans (hnone c)) Bool.false_ne_true.symm
  · refine ⟨iff_of_false (fun hsure => ?_) fun hnone => ?_, fun _ _ t hleads => ?_⟩
    · exact hdead.not_scheduled (hsure.flag hdead.pending)
    · exact Bool.false_ne_true ((hnone d).symm.trans hthrew)
    · have ht := (hdead.leads hleads).1
      exact ⟨ht.pending, ht.not_scheduled⟩

/-- A send posts, its callback runs, and a second send has set `pending`. -/
def secondSend : List Act :=
  List.map .signal
    [.call false, .exchange 0, .post 0, .clear, .run, .finish false, .call false, .exchange 1]

theorem sure_iff_none_threw_at_secondSend :
    ∃ s, machine.Reachable s ∧ s.signal.pending = true ∧ s.signal.queued = 0 ∧ s.Scheduled := by
  obtain ⟨s, hs, htest⟩ := machine.exists_reachableUnder_of_run
    (fun s act => decide (s.PostSucceeds act)) (fun _ _ h => of_decide_eq_true h) secondSend
    (fun s => decide (s.signal.pending = true ∧ s.signal.queued = 0)) (by decide +kernel)
  obtain ⟨hpending, hqueued⟩ := of_decide_eq_true htest
  have hnone := congrFun (reachable_of_postSucceeds hs).2
  have hsure := (sure_iff_none_threw hs.reachable).1.mpr hnone
  exact ⟨s, hs.reachable, hpending, hqueued, hsure.flag hpending⟩

/-- A send whose post throws. -/
def lostPost : List Act := [.signal (.call false), .signal (.exchange 0), .postThrows 0]

/-- After one post that throws, `pending` is set with no handler and no sender to come; however many
sends follow, with posts that would succeed, no callback ever runs. -/
theorem lost_post_disables :
    ∃ s, machine.Reachable s ∧ s.signal.pending = true ∧ ¬ s.Scheduled ∧
      ∀ t, machine.Leads s t → ¬ t.Scheduled ∧ t.signal.runs = 0 := by
  obtain ⟨s, hs, htest⟩ := machine.exists_reachable_of_run lostPost
    (fun s => decide (s.started = 0 ∧ s.signal.calls = 1 ∧ s.threw 0 = true ∧
      s.signal.pending = true ∧ s.signal.buffered = false ∧ s.signal.queued = 0))
    (by decide +kernel)
  obtain ⟨hstarted, hcalls, hthrew, hpending, hbuffered, hqueued⟩ := of_decide_eq_true htest
  have hdead : s.Dead := by
    refine ⟨hpending, hbuffered, hqueued, fun c hc _ => ?_⟩
    obtain rfl : c = 0 := by omega
    exact hthrew
  refine ⟨s, hs, hpending, hdead.not_scheduled, fun t hleads => ?_⟩
  obtain ⟨ht, hsame⟩ := hdead.leads hleads
  refine ⟨ht.not_scheduled, Nat.eq_zero_of_le_zero ?_⟩
  calc
    t.signal.runs ≤ t.started := Nat.le_add_right ..
    _ = 0 := hsame.trans hstarted

end FallibleSignal

end ReactorRuntime
