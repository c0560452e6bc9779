import ReactorRuntime.Events.Signal
import ReactorRuntime.Library.Progress

/-!
# Work that is published before a send

A caller of `send()` counts on this: what was published before is read by some callback run.  It
holds if the handler's `pending.store(false)` is visible to the other threads when the callback
looks for work, and only then (`work_is_read`).  The code asks for release order only, with which
the look may come first.  Then an item can be published too late for the look, and its `send()` find
`pending` still set and leave; when the store becomes visible, nobody is left to look again
(`strands_work`).  An exchange in place of the store would order the two.
-/

namespace ReactorRuntime

namespace Signal

variable {s t : Signal} {c : ℕ}

/-- No send is in progress, no handler is queued or running, and the stores are visible. -/
def Quiescent (s : Signal) : Prop :=
  (∀ c < s.calls, (s.send c).pc = .posted ∨ (s.send c).pc = .coalesced) ∧ s.queued = 0 ∧
    s.loop = .idle ∧ s.buffered = false

instance (s : Signal) : Decidable s.Quiescent := inferInstanceAs (Decidable (_ ∧ _))

lemma Quiescent.not_due (hq : s.Quiescent) : ¬ s.Due := by
  obtain ⟨hreturned, hqueued, hidle, -⟩ := hq
  have hwinners : s.winners = 0 := by
    apply winners_eq_zero
    intro c hc hpost
    rcases hreturned c hc with hpc | hpc
    · exact SendPc.noConfusion (hpost.symm.trans hpc)
    · exact SendPc.noConfusion (hpost.symm.trans hpc)
  rintro (hpos | hcleared)
  · omega
  · exact SignalLoop.noConfusion (hidle.symm.trans hcleared)

/-- A callback run has read work item `i`. -/
def HasRead (s : Signal) (i : ℕ) : Prop := i < s.read

instance (s : Signal) (i : ℕ) : Decidable (s.HasRead i) := inferInstanceAs (Decidable (_ < _))

lemma kept_of_reachableUnder (hs : (machine true).ReachableUnder Ordered s) : s.Kept true :=
  hs.invariant (kept_initial true) fun _ _ _ h hok hstep => h.step (fun _ => hok) hstep

/-- In a run with the stores visible, a send that has returned was made up for. -/
lemma hasRead_of_quiescent (hs : (machine true).ReachableUnder Ordered s) (hq : s.Quiescent)
    {i : ℕ} (hc : c < s.calls) (hi : i < (s.send c).before) : s.HasRead i := by
  have h := (kept_of_reachableUnder hs).sends c hc
  have hpc : (s.send c).pc ≠ .exchange := by
    rcases hq.1 c hc with hpc | hpc
    · rw [hpc]
      exact SendPc.noConfusion
    · rw [hpc]
      exact SendPc.noConfusion
  -- nothing is to come, so that a run has started since the exchange
  have hrun := (h.covered hpc).resolve_right hq.not_due
  exact Nat.lt_of_lt_of_le hi (h.seen hpc hrun)

/-! ## A look that comes before the store -/

/-- The callback is being executed, the store that cleared `pending` is not visible, and no send is
about to post. -/
structure Stale (s : Signal) : Prop where
  pending : s.pending = true
  buffered : s.buffered = true
  calling : s.loop = .calling
  within : s.within = none
  queued : s.queued = 0
  senders : ∀ c < s.calls, (s.send c).pc ≠ .post

/-- The number of sends that have not executed their exchange. -/
def waiting (s : Signal) : ℕ := s.tally fun pc => if pc = .exchange then 1 else 0

/-- What stays as it is while the sends that are under way return. -/
structure Returning (s t : Signal) : Prop where
  stale : t.Stale
  calls : t.calls = s.calls
  read : t.read = s.read
  before : ∀ c, (t.send c).before = (s.send c).before

lemma Returning.exchange {u : Signal} (h : Returning s t) (hc : c < t.calls)
    (hpc : (t.send c).pc = .exchange) (hstep : (machine true).step t (.exchange c) = some u) :
    Returning s u ∧ u.waiting < t.waiting := by
  have hwithin := h.stale.within
  obtain ⟨-, heq⟩ := Option.ite_none_right_eq_some.mp hstep
  rw [if_pos h.stale.pending] at heq
  cases heq
  refine ⟨⟨⟨h.stale.pending, h.stale.buffered, h.stale.calling, ?_, h.stale.queued, ?_⟩, h.calls,
    h.read, fun d => ?_⟩, ?_⟩
  · rw [hwithin]
    rfl
  · intro d hd
    rcases eq_or_ne d c with rfl | hne
    · simp
    · simpa [hne] using h.stale.senders d hd
  · rw [← h.before d]
    rcases eq_or_ne d c with rfl | hne
    · simp
    · simp [hne]
  · have hsum := tally_update (s := t) (w := fun pc => if pc = .exchange then 1 else 0)
      (t := { t with
        send := Function.update t.send c ⟨.coalesced, (t.send c).before, t.runs⟩
        within := leave t.within c }) hc rfl rfl
    simp only [hpc, if_true] at hsum
    unfold waiting
    simp at hsum
    omega

lemma Stale.return_all (h : s.Stale) :
    ∃ t, (machine true).Leads s t ∧ Returning s t ∧ ∀ c < t.calls, (t.send c).pc ≠ .exchange := by
  refine Machine.exists_leadsUnder_of_measure waiting (fun t ht hnot => ?_)
    ⟨h, rfl, rfl, fun _ => rfl⟩
  obtain ⟨c, hc, hpc⟩ : ∃ c < t.calls, (t.send c).pc = .exchange := by simpa using hnot
  obtain ⟨u, hu⟩ : ∃ u, (machine true).step t (.exchange c) = some u := by
    simp [machine, step, hc, hpc, ht.stale.within]
  exact ⟨u, .of_step trivial hu, ht.exchange hc hpc hu⟩

/-- Once every send has returned, the callback ends and the store becomes visible. -/
lemma Stale.exists_quiescent (h : s.Stale)
    (hreturned : ∀ c < s.calls, (s.send c).pc ≠ .exchange) :
    ∃ t, (machine true).Leads s t ∧ t.Quiescent ∧ t.calls = s.calls ∧ t.send = s.send ∧
      t.read = s.read := by
  have hfinish : (machine true).step s (.finish false) = some { s with loop := .idle } :=
    if_pos ⟨h.calling, h.within⟩
  have hflush : (machine true).step { s with loop := .idle } .flush =
      some { s with loop := .idle, buffered := false, pending := false } := if_pos h.buffered
  refine ⟨_, .andThen (.of_step trivial hfinish) (.of_step trivial hflush),
    ⟨fun c hc => ?_, h.queued, rfl, rfl⟩, rfl, rfl, rfl⟩
  have hexchange := hreturned c hc
  have hpost := h.senders c hc
  show (s.send c).pc = .posted ∨ (s.send c).pc = .coalesced
  cases hpc : (s.send c).pc <;> simp_all

/-- The callback is in a call of `send()` only while it is being executed. -/
lemma within_of_reachable {buffering : Bool} (hs : (machine buffering).Reachable s)
    (hloop : s.loop ≠ .calling) : s.within = none := by
  refine hs.invariant (I := fun s => s.loop ≠ .calling → s.within = none) (fun _ => rfl)
    (fun s act t h _ hstep hloop => ?_) hloop
  cases act with
  | publish =>
      cases hstep
      exact h hloop
  | call own =>
      obtain ⟨hown, heq⟩ := Option.ite_none_right_eq_some.mp hstep
      cases heq
      cases own with
      | true => exact absurd (hown rfl).1 hloop
      | false => exact h hloop
  | exchange c =>
      obtain ⟨-, heq⟩ := Option.ite_none_right_eq_some.mp hstep
      cases heq
      split
      · next hp =>
          rw [if_pos hp] at hloop
          simp [leave, h hloop]
      · next hp =>
          rw [if_neg hp] at hloop
          exact h hloop
  | post c =>
      obtain ⟨-, heq⟩ := Option.ite_none_right_eq_some.mp hstep
      cases heq
      simp [leave, h hloop]
  | clear =>
      obtain ⟨⟨hidle, -⟩, heq⟩ := Option.ite_none_right_eq_some.mp hstep
      cases heq
      exact h (by simp [hidle])
  | run =>
      obtain ⟨-, heq⟩ := Option.ite_none_right_eq_some.mp hstep
      cases heq
      exact absurd rfl hloop
  | finish threw =>
      obtain ⟨⟨-, hwithin⟩, heq⟩ := Option.ite_none_right_eq_some.mp hstep
      cases heq
      exact hwithin
  | flush =>
      obtain ⟨-, heq⟩ := Option.ite_none_right_eq_some.mp hstep
      cases heq
      exact h hloop

lemma stale_of_early (hs : (machine true).ReachableUnder Ordered s) {act : Act}
    (hearly : ¬ s.Ordered act) (hstep : (machine true).step s act = some t) :
    t.Stale ∧ t.read = t.published := by
  obtain ⟨rfl, hbuffered⟩ := Classical.not_imp.mp hearly
  have hbuffered : s.buffered = true := by simpa using hbuffered
  have htoken := (kept_of_reachableUnder hs).token
  have hone := Bool.toNat_le s.pending
  rw [hbuffered, Bool.toNat_true] at htoken
  obtain ⟨hcleared, heq⟩ := Option.ite_none_right_eq_some.mp hstep
  have hwithin := within_of_reachable hs.reachable (by simp [hcleared])
  cases heq
  refine ⟨⟨?_, hbuffered, rfl, hwithin, ?_, fun c hc hpost => ?_⟩, rfl⟩
  · by_contra hp
    rw [Bool.eq_false_of_not_eq_true hp, Bool.toNat_false] at htoken
    omega
  · show s.queued = 0
    omega
  · have hwinner : 0 < s.winners := winners_pos hc hpost
    omega

/-- After such a start an item is published and sent for, and nobody will read it. -/
lemma Stale.exists_stranded (h : s.Stale) (hread : s.read = s.published) :
    ∃ t, (machine true).Leads s t ∧ t.Quiescent ∧
      ∃ c < t.calls, ∃ i < (t.send c).before, ¬ t.HasRead i := by
  set u : Signal := { s with
    published := s.published + 1
    send := Function.update s.send s.calls ⟨.exchange, s.published + 1, 0⟩
    calls := s.calls + 1 }
  have hsent : (machine true).Leads s u := by
    refine .andThen (.of_step (a := .publish) trivial rfl) (.of_step (a := .call false) trivial ?_)
    simp [machine, step, u]
  have hu : u.Stale := by
    refine ⟨h.pending, h.buffered, h.calling, h.within, h.queued, fun c hc => ?_⟩
    rcases Nat.lt_succ_iff_lt_or_eq.mp hc with hlt | rfl
    · have hsend : u.send c = s.send c := Function.update_of_ne (Nat.ne_of_lt hlt) ..
      rw [hsend]
      exact h.senders c hlt
    · have hsend : u.send s.calls = _ := Function.update_self ..
      rw [hsend]
      exact SendPc.noConfusion
  obtain ⟨v, hv, hreturning, hreturned⟩ := hu.return_all
  obtain ⟨t, ht, hq, hcalls, hsend, hread'⟩ := hreturning.stale.exists_quiescent hreturned
  have hbefore : (t.send s.calls).before = s.published + 1 := by
    rw [hsend, hreturning.before]
    show (Function.update s.send s.calls _ s.calls).before = s.published + 1
    rw [Function.update_self]
  have hbound : t.read = s.published := hread'.trans (hreturning.read.trans hread)
  refine ⟨t, hsent.andThen (hv.andThen ht), hq, s.calls, ?_, s.published, ?_, ?_⟩
  · rw [hcalls, hreturning.calls]
    exact Nat.lt_succ_self _
  · rw [hbefore]
    exact Nat.lt_succ_self _
  · rw [HasRead, hbound]
    exact Nat.lt_irrefl _

/-! ## The result -/

/-- **Published work is read.**  In every run in which the store that clears `pending` is visible
when the callback starts: when all has come to rest, every item that was published before a send
has been read by a callback run.  The condition is exact: after a callback that starts with the
store not visible, all can come to rest with an item that was published before a send and that no
callback run has read. -/
theorem work_is_read (hs : (machine true).ReachableUnder Ordered s) :
    (s.Quiescent → ∀ c < s.calls, ∀ i < (s.send c).before, s.HasRead i) ∧
      ∀ act t, ¬ s.Ordered act → (machine true).step s act = some t →
        ∃ u, (machine true).Leads t u ∧ u.Quiescent ∧
          ∃ c < u.calls, ∃ i < (u.send c).before, ¬ u.HasRead i := by
  refine ⟨fun hq c hc i hi => hasRead_of_quiescent hs hq hc hi, fun act t hearly hstep => ?_⟩
  obtain ⟨hstale, hread⟩ := stale_of_early hs hearly hstep
  exact hstale.exists_stranded hread

/-- Two items, each published and then sent; the store of the first handler becomes visible when
its callback has looked and the second send has returned, or, if `inTime`, before the look. -/
def twoItems (inTime : Bool) : List Act :=
  if inTime then
    [.publish, .call false, .exchange 0, .post 0, .clear, .flush, .run, .publish, .call false,
      .exchange 1, .post 1, .finish false, .clear, .flush, .run, .finish false]
  else
    [.publish, .call false, .exchange 0, .post 0, .clear, .run, .publish, .call false, .exchange 1,
      .finish false, .flush]

theorem work_is_read_at_twoItems :
    ∃ s, (machine true).ReachableUnder Ordered s ∧ s.Quiescent ∧ 1 < s.calls ∧
      1 < (s.send 1).before ∧ s.HasRead 1 := by
  obtain ⟨s, hs, htest⟩ := (machine true).exists_reachableUnder_of_run
    (fun s act => decide (s.Ordered act)) (fun _ _ h => of_decide_eq_true h) (twoItems true)
    (fun s => decide (s.Quiescent ∧ 1 < s.calls ∧ 1 < (s.send 1).before)) (by decide +kernel)
  obtain ⟨hq, hc, hi⟩ := of_decide_eq_true htest
  exact ⟨s, hs, hq, hc, hi, (work_is_read hs).1 hq 1 hc 1 hi⟩

/-- All has come to rest, the second send has returned, and no callback run has read the item that
was published before it. -/
theorem strands_work :
    ∃ s, (machine true).Reachable s ∧ s.Quiescent ∧ 1 < s.calls ∧ 1 < (s.send 1).before ∧
      ¬ s.HasRead 1 := by
  obtain ⟨s, hs, htest⟩ := (machine true).exists_reachable_of_run (twoItems false)
    (fun s => decide (s.Quiescent ∧ 1 < s.calls ∧ 1 < (s.send 1).before ∧ ¬ s.HasRead 1))
    (by decide +kernel)
  exact ⟨s, hs, of_decide_eq_true htest⟩

end Signal

end ReactorRuntime
