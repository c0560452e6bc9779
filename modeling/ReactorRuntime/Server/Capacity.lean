import ReactorRuntime.Server.Readiness
import ReactorRuntime.Server.Shutdown

/-!
# The bound on connections

With `maximum_connections` set, the accept loops of all reactors draw on one `ConnectionAdmission`
(`reactor.h:547`, `589`).  Here a call of `try_enter()` is one action of the server, which
`Admission/Turnstile` justifies.  A connection keeps its lease from its admission to the destructor
of its ticket, on whatever path it takes there: served, aborted before its body was called, dropped
unrun, or failed in the launch.  So the connections that are alive, with those that are just being
admitted, are never more than the maximum, and a peer is turned away only when they are as many
(`connections_bounded`).
-/

namespace ReactorRuntime

namespace ConnStage

/-- The connection has not come to the end of its ticket's lease. -/
def seated : ConnStage → Bool
  | .leaving _ => false
  | .ended => false
  | _ => true

end ConnStage

namespace Conn

variable {n : ℕ} {k k' : Conn n}

/-- Only the reset of its lease takes a connection off its seat. -/
lemma seated_step {act : Act} (hstep : k.step act = some k') :
    k'.stage.seated = (k.stage.seated && decide (act ≠ .reset)) := by
  cases move_of_step hstep with
  | abort => simp
  | reset hst => simp [ConnStage.seated]
  | leave hst => simp [hst, ConnStage.seated]
  | launchHere hst | launchAway hst | post hst | postFails hst | take hst | frame hst
  | frameFails hst | spawn hst | spawnFails hst | start hst | checkAborted hst | checkRuns hst
  | finish hst | unwind hst | dropHandler hst | dropFrame hst =>
      simp [hst, ConnStage.seated, abandon]

end Conn

namespace Sessions

variable {n : ℕ} {t t' : Sessions n} {maximum : ℕ}

/-- The number of connections that have not come to the end of their ticket's lease. -/
def seated (t : Sessions n) : ℕ :=
  ((Finset.range t.born).filter fun c => (t.conn c).stage.seated = true).card

/-- Every connection has a lease up to then, and there are not more than the maximum. -/
structure Bounded (maximum : ℕ) (t : Sessions n) : Prop where
  active : t.active ≤ maximum
  lease : ∀ c, (t.conn c).lease = (t.conn c).stage.seated
  hand : ∀ j held, t.hand j = .lease held → held = true

namespace Bounded

lemma initial : Bounded maximum (Sessions.initial : Sessions n) where
  active := Nat.zero_le _
  lease _ := rfl
  hand _ _ h := by cases h

/-- An accept loop puts something else than a lease down, or takes one. -/
lemma rehand (h : t.Bounded maximum) {j : Fin (n + 1)} {hand' : Hand} {active : ℕ}
    (hactive : active ≤ maximum) (hhand : ∀ held, hand' = .lease held → held = true) :
    Bounded maximum { t with active := active, hand := Function.update t.hand j hand' } where
  active := hactive
  lease := h.lease
  hand i held hi := by
    by_cases hij : i = j
    · subst hij
      exact hhand held (by simpa using hi)
    · exact h.hand i held (by simpa [hij] using hi)

lemma mint (h : t.Bounded maximum) {j home : Fin (n + 1)} {held : Bool}
    (hhand : t.hand j = .lease held) :
    Bounded maximum { t with
      sessions_ := Function.update t.sessions_ home (t.sessions_ home + 1)
      hand := Function.update t.hand j (.launching t.born)
      born := t.born + 1
      conn := Function.update t.conn t.born (.fresh j home held) } where
  active := h.active
  lease c := by
    by_cases hc : c = t.born
    · subst hc
      obtain rfl := h.hand j held hhand
      simp [Conn.lease, Conn.fresh, ConnStage.owner, ConnStage.seated]
    · simpa [hc] using h.lease c
  hand i held' hi := by
    by_cases hij : i = j
    · subst hij
      simp at hi
    · exact h.hand i held' (by simpa [hij] using hi)

lemma settle (h : t.Bounded maximum) (hbal : t.Balanced) {c : ℕ} {act : Conn.Act} {k' : Conn n}
    (hstep : (t.conn c).step act = some k') : (t.settle c act k').Bounded maximum where
  active := by
    have hle := h.active
    simp only [Sessions.settle]
    split <;> omega
  lease c' := by
    by_cases hc : c' = c
    · subst hc
      simp only [Sessions.settle, Function.update_self]
      rw [(hbal.tidy c').lease_step hstep, Conn.seated_step hstep, h.lease c']
    · simpa [Sessions.settle, hc] using h.lease c'
  hand j held hj := by
    rcases Handed.hand_settle c (t.conn c) k' t.hand j with ⟨hsame, -⟩ | hreturned | ⟨hthrew, -⟩
    · exact h.hand j held (hsame.symm.trans hj)
    · cases hreturned.symm.trans hj
    · cases hthrew.symm.trans hj

/-- **One step keeps the bound.** -/
theorem step (h : t.Bounded maximum) (hbal : t.Balanced) (hmax : maximum ≠ 0) {act : Act n}
    (hstep : t.step maximum act = some t') : t'.Bounded maximum := by
  cases act with
  | enter j =>
      obtain ⟨-, hstep⟩ := Option.ite_none_right_eq_some.mp hstep
      rw [if_neg hmax] at hstep
      obtain ⟨hroom, hstep⟩ := Option.ite_none_right_eq_some.mp hstep
      cases hstep
      exact h.rehand hroom (by simp)
  | refuse j =>
      obtain ⟨-, hstep⟩ := Option.ite_none_right_eq_some.mp hstep
      cases hstep
      exact h
  | mint j home =>
      simp only [Sessions.step] at hstep
      split at hstep
      · next held hhand =>
          cases hstep
          exact h.mint hhand
      · cases hstep
  | conn c act =>
      obtain ⟨-, hstep⟩ := Option.ite_none_right_eq_some.mp hstep
      obtain ⟨k', hk', rfl⟩ := Option.map_eq_some_iff.mp hstep
      exact h.settle hbal hk'
  | launched j =>
      obtain ⟨-, hstep⟩ := Option.ite_none_right_eq_some.mp hstep
      cases hstep
      exact h.rehand h.active (by simp)
  | failed j =>
      simp only [Sessions.step] at hstep
      split at hstep
      · obtain ⟨-, hstep⟩ := Option.ite_none_right_eq_some.mp hstep
        cases hstep
        exact h.rehand h.active (by simp)
      · cases hstep

lemma active_eq (h : t.Bounded maximum) (hbal : t.Balanced) : t.active = t.seated + t.inHand := by
  have hseated : t.leases = t.seated := by
    unfold leases census seated
    rw [Finset.card_filter]
    refine Finset.sum_congr rfl fun c _ => ?_
    rw [(hbal.tidy c).leased_eq, h.lease c]
    cases (t.conn c).stage.seated <;> rfl
  rw [hbal.active, hseated]

end Bounded

end Sessions

namespace Server

variable {n : ℕ} {cfg : Config} {s s' : Server n}

lemma bounded_of_reachable (hmax : cfg.maximum ≠ 0) (hs : (machine cfg).Reachable s) :
    s.sessions.Bounded cfg.maximum := by
  refine (hs.invariant (I := fun s => s.sessions.Balanced ∧ s.sessions.Bounded cfg.maximum)
    ⟨.initial, .initial⟩ fun s act s' h _ hstep => ?_).2
  rcases (deed_of_step hstep).sessions_step with heq | ⟨a, ha⟩
  · rw [heq]
    exact h
  · exact ⟨h.1.step ha, h.2.step h.1 hmax ha⟩

lemma active_of_refuse {i : Fin (n + 1)} (hstep : (machine cfg).step s (.refuse i) = some s') :
    cfg.maximum ≤ s.sessions.active := by
  obtain ⟨-, hstep⟩ := Option.ite_none_right_eq_some.mp
    (show s.admitStep cfg i .admission .refused (.refuse i) = some s' from hstep)
  obtain ⟨t, ht, hstep⟩ := Option.bind_eq_some_iff.mp hstep
  obtain ⟨u, hu, -⟩ := Option.map_eq_some_iff.mp hstep
  rw [(same_of_acceptAct ht).sessions] at hu
  obtain ⟨hfull, -⟩ := Option.ite_none_right_eq_some.mp hu
  exact hfull.2.2

/-- **The bound on connections holds for the server as a whole.**  With a maximum set, and for any
number of reactors, either way of accepting, and any interleaving: the connections that are alive
up to the end of their ticket's lease, with those that accept loops are admitting, are at most the
maximum; the sessions that are being served are among them; and a peer is turned away only in a
state in which they are exactly the maximum. -/
theorem connections_bounded (cfg : Config) (hmax : cfg.maximum ≠ 0) {s : Server n}
    (hs : (machine cfg).Reachable s) :
    s.sessions.seated + s.sessions.inHand ≤ cfg.maximum ∧
    ((Finset.range s.sessions.born).filter fun c => (s.sessions.conn c).stage = .running).card ≤
      s.sessions.seated ∧
    ∀ i s', (machine cfg).step s (.refuse i) = some s' →
      s.sessions.seated + s.sessions.inHand = cfg.maximum := by
  have hbounded := bounded_of_reachable hmax hs
  have heq := hbounded.active_eq (balanced_of_reachable hs)
  have hle := hbounded.active
  refine ⟨heq ▸ hle, Finset.card_le_card fun c hc => ?_, fun i s' hstep => ?_⟩
  · rw [Finset.mem_filter] at hc ⊢
    exact ⟨hc.1, by rw [hc.2]; rfl⟩
  · have hfull := active_of_refuse hstep
    omega

/-- A second peer arrives while the one session there may be is served. -/
def crowdRun : List (Act 0) :=
  List.flatten [startRun, listenRun, startedRun, admitRun, launchRun,
    [.accept 0 (.complete none), .accept 0 .dispatch, .accept 0 (.run .ok), .accept 0 (.run .ok)]]

/-- It is turned away, with one connection alive. -/
theorem connections_bounded_at_crowdRun :
    ∃ s : Server 0, (machine oneAtATime).Reachable s ∧
      ((machine oneAtATime).step s (.refuse 0)).isSome = true ∧
      s.sessions.seated + s.sessions.inHand = 1 := by
  obtain ⟨s, hs, htest⟩ := (machine oneAtATime).exists_reachable_of_run crowdRun
    (fun s => ((machine oneAtATime).step s (.refuse 0)).isSome) (by decide +kernel)
  obtain ⟨s', hs'⟩ := Option.isSome_iff_exists.mp htest
  exact ⟨s, hs, htest, (connections_bounded oneAtATime (by decide) hs).2.2 0 s' hs'⟩

end Server

end ReactorRuntime
