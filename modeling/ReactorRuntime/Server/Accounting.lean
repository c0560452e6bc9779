import ReactorRuntime.Server.Deeds

/-!
# Session accounting

`stop()` waits until a reactor's `sessions_` is 0, and `try_enter()` refuses when `active` has
reached the bound.  Both counters have to be exact on every path a connection can take,
those that end in an exception or in teardown included.

They are, with one qualification.  `sessions_` of a reactor is the number of its tickets.
`active` is the number of leases, but a lease exists before the ticket that is to hold it: between
`try_enter()` and the ticket's constructor it is a local of the accept loop, so `active` is at
times one more per accept loop than the number of tickets with a lease.
-/

namespace ReactorRuntime

namespace Server

variable {n : ℕ}

lemma balanced_of_reachable {cfg : Config} {s : Server n} (hs : (machine cfg).Reachable s) :
    s.sessions.Balanced := by
  refine hs.invariant (I := fun s => s.sessions.Balanced) .initial fun s act s' h _ hstep => ?_
  rcases (deed_of_step hstep).sessions_step with heq | ⟨a, ha⟩
  · rw [heq]
    exact h
  · exact h.step ha

/-- When all connections have ended, what is left in the counters is what the accept loops hold. -/
lemma drained {t : Sessions n} (h : t.Balanced)
    (hended : ∀ c < t.born, (t.conn c).stage = .ended) :
    (∀ r, t.sessions_ r = 0) ∧ t.active = t.inHand := by
  constructor
  · intro r
    rw [h.sessions r]
    refine census_eq_zero fun c hc => ?_
    rw [(h.tidy c).held_eq, hended c (Finset.mem_range.mp hc)]
    rfl
  · have hleases : t.leases = 0 := census_eq_zero fun c hc => by
      rw [(h.tidy c).leased_eq, Conn.lease, hended c (Finset.mem_range.mp hc)]
      rfl
    rw [h.active, hleases, Nat.zero_add]

/-- **The counters are exact.**  In every reachable state the session count of each reactor is the
number of its tickets that are live and not moved from, and `active` is the number of leases, each
held by a live ticket or by an accept loop that has yet to make the ticket.  Each connection has
one place until it has ended, at its own reactor and nowhere else; when it has ended no object of
it is left; and when all have ended the counts are 0 and no ticket has a lease. -/
theorem session_accounting_exact (cfg : Config) {s : Server n} (hs : (machine cfg).Reachable s) :
    (∀ r, s.sessions.sessions_ r = s.sessions.tickets r) ∧
    s.sessions.active = s.sessions.leases + s.sessions.inHand ∧
    (∀ c r, (s.sessions.conn c).held r =
      if (s.sessions.conn c).stage.owner.isSome ∧ (s.sessions.conn c).home = r then 1 else 0) ∧
    (∀ c, (s.sessions.conn c).stage = .ended →
      (∀ h, (s.sessions.conn c).ticket h = none) ∧ (s.sessions.conn c).leased = 0) ∧
    ((∀ c < s.sessions.born, (s.sessions.conn c).stage = .ended) →
      (∀ r, s.sessions.sessions_ r = 0) ∧ s.sessions.active = s.sessions.inHand) := by
  have h := balanced_of_reachable hs
  refine ⟨h.sessions, h.active, fun c r => (h.tidy c).held_eq r,
    fun c hended => ⟨fun hop => ?_, ?_⟩, drained h⟩
  · exact (h.tidy c).alone (by rw [hended]; rfl) hop (by rw [hended]; exact nofun)
  · rw [(h.tidy c).leased_eq, Conn.lease, hended]
    rfl

/-- **`active` can be more than the number of tickets with a lease**: the accept loop has entered
and not yet made the ticket. -/
theorem lease_before_ticket :
    ∃ s : Server 0, (machine oneAtATime).Reachable s ∧
      s.sessions.active = 1 ∧ s.sessions.leases = 0 ∧ s.sessions.tickets 0 = 0 := by
  obtain ⟨s, hs, htest⟩ := (machine oneAtATime).exists_reachable_of_run
    (startRun ++ listenRun ++ admitRun)
    (fun s : Server 0 => decide (s.sessions.active = 1 ∧ s.sessions.leases = 0 ∧
      s.sessions.tickets 0 = 0)) (by decide +kernel)
  exact ⟨s, hs, of_decide_eq_true htest⟩

/-- The body of the first session returns, and its frame ends up to the destructor of the ticket. -/
def endingRun : List (Act 1) := [.conn 0 .finish, .conn 0 (.unwind false)]

/-- In the middle of a ticket's destructor its place is still its own, and so is the place of a
connection that is in a handler on its way to another reactor. -/
theorem session_accounting_exact_at_servingRun :
    ∃ s : Server 1, (machine twoAtATime).Reachable s ∧
      ((s.sessions.conn 0).stage = .dying .frame ∧ (s.sessions.conn 1).stage = .posted ∧
        (s.sessions.conn 1).home = 1 ∧ s.sessions.tickets 0 = 1 ∧ s.sessions.tickets 1 = 1) ∧
      s.sessions.sessions_ 0 = s.sessions.tickets 0 ∧
      s.sessions.sessions_ 1 = s.sessions.tickets 1 := by
  obtain ⟨s, hs, htest⟩ := (machine twoAtATime).exists_reachable_of_run (servingRun ++ endingRun)
    (fun s => decide ((s.sessions.conn 0).stage = .dying .frame ∧
      (s.sessions.conn 1).stage = .posted ∧ (s.sessions.conn 1).home = 1 ∧
      s.sessions.tickets 0 = 1 ∧ s.sessions.tickets 1 = 1)) (by decide +kernel)
  have hcount := (session_accounting_exact twoAtATime hs).1
  exact ⟨s, hs, of_decide_eq_true htest, hcount 0, hcount 1⟩

end Server

end ReactorRuntime
