import ReactorRuntime.Server.Ticket
import ReactorRuntime.Library.Machine

/-!
# The sessions of a server and their counters

The machine of this file has all connections of a server, the session count of each reactor
(`Reactor::sessions_`), the number of live connections (`active` of `ConnectionAdmission`) and
what each accept loop holds between admitting a connection and the end of its launch.  Each step
is one access to a counter or one move of a ticket, so every interleaving of the loops is a run.

A lease and a place are not taken together: `try_enter()` raises `active`, and the ticket that
will hold the lease is made by a later statement.  In between the lease is a local of the accept
loop (`Hand.lease`).
-/

namespace ReactorRuntime

/-- What an accept loop holds of the connection it is admitting. -/
inductive Hand
  | empty
  /-- Admitted; `held` says whether there is a bound, and so a lease. -/
  | lease (held : Bool)
  /-- In `launch_session` for connection `c`. -/
  | launching (c : ℕ)
  /-- `launch_session` has returned. -/
  | returned
  /-- `launch_session` for connection `c` has thrown. -/
  | threw (c : ℕ)
  deriving DecidableEq, Repr

/-- The accept loop has a lease that no ticket has. -/
def Hand.leases : Hand → ℕ
  | .lease true => 1
  | _ => 0

/-- The sessions of a server with `n + 1` reactors. -/
structure Sessions (n : ℕ) where
  /-- `Reactor::sessions_` -/
  sessions_ : Fin (n + 1) → ℕ
  /-- `active` of the server's `ConnectionAdmission`. -/
  active : ℕ
  hand : Fin (n + 1) → Hand
  /-- The number of connections that were given a ticket. -/
  born : ℕ
  conn : ℕ → Conn n

namespace Sessions

variable {n : ℕ}

/-- What can happen next. -/
inductive Act (n : ℕ)
  /-- Accept loop `j` admits a connection. -/
  | enter (j : Fin (n + 1))
  /-- `try_enter()` refuses accept loop `j`. -/
  | refuse (j : Fin (n + 1))
  /-- Accept loop `j` makes the ticket of a connection for reactor `home`. -/
  | mint (j home : Fin (n + 1))
  | conn (c : ℕ) (act : Conn.Act)
  /-- Accept loop `j` goes on after a launch that returned. -/
  | launched (j : Fin (n + 1))
  /-- Accept loop `j` catches what a launch threw. -/
  | failed (j : Fin (n + 1))
  deriving DecidableEq

def initial : Sessions n where
  sessions_ _ := 0
  active := 0
  hand _ := .empty
  born := 0
  conn _ := .unborn

/-- What the end of its call of `launch_session` leaves in the accept loop's hand. -/
def handAfter (c : ℕ) (k k' : Conn n) (hand : Fin (n + 1) → Hand) : Fin (n + 1) → Hand :=
  match k.via, k'.via, k'.stage with
  | some j, none, .dying _ => Function.update hand j (.threw c)
  | some j, none, _ => Function.update hand j .returned
  | _, _, _ => hand

/-- The counters follow an action of connection `c` that turns it into `k'`. -/
def settle (c : ℕ) (act : Conn.Act) (k' : Conn n) (s : Sessions n) : Sessions n :=
  { s with
    conn := Function.update s.conn c k'
    -- `Lease::reset`
    active := if act = .reset ∧ (s.conn c).lease = true then s.active - 1 else s.active
    -- `session_finished` of the reactor the ticket names
    sessions_ := match act, (s.conn c).stage.owner.bind (s.conn c).ticket with
      | .leave, some ⟨some r, _⟩ => Function.update s.sessions_ r (s.sessions_ r - 1)
      | _, _ => s.sessions_
    hand := handAfter c (s.conn c) k' s.hand }

/-- One action; `maximum` is the bound on live connections, 0 for none. -/
def step (maximum : ℕ) (s : Sessions n) : Act n → Option (Sessions n)
  | .enter j =>
      if s.hand j = .empty then
        if maximum = 0 then some { s with hand := Function.update s.hand j (.lease false) }
        else if s.active < maximum then
          some { s with
            active := s.active + 1
            hand := Function.update s.hand j (.lease true) }
        else none
      else none
  | .refuse j =>
      if s.hand j = .empty ∧ maximum ≠ 0 ∧ maximum ≤ s.active then some s else none
  | .mint j home =>
      match s.hand j with
      | .lease held =>
          some { s with
            sessions_ := Function.update s.sessions_ home (s.sessions_ home + 1)
            hand := Function.update s.hand j (.launching s.born)
            born := s.born + 1
            conn := Function.update s.conn s.born (.fresh j home held) }
      | _ => none
  | .conn c act =>
      if c < s.born then ((s.conn c).step act).map fun k' => s.settle c act k' else none
  | .launched j =>
      if s.hand j = .returned then some { s with hand := Function.update s.hand j .empty } else none
  | .failed j =>
      match s.hand j with
      | .threw c =>
          if (s.conn c).stage = .ended then
            some { s with hand := Function.update s.hand j .empty }
          else none
      | _ => none

/-- The sessions of a server as a machine. -/
def machine (maximum : ℕ) : Machine (Sessions n) (Act n) where
  init := initial
  step := step maximum

/-! ## The balance -/

/-- The number of tickets of reactor `r` that are live and not moved from. -/
def tickets (s : Sessions n) (r : Fin (n + 1)) : ℕ :=
  census (Finset.range s.born) (Conn.held r) s.conn

/-- The number of live tickets that hold a lease. -/
def leases (s : Sessions n) : ℕ := census (Finset.range s.born) Conn.leased s.conn

/-- The number of leases that are still a local of an accept loop. -/
def inHand (s : Sessions n) : ℕ := census Finset.univ Hand.leases s.hand

/-- The counters are what the objects add up to. -/
structure Balanced (s : Sessions n) : Prop where
  tidy : ∀ c, (s.conn c).Tidy
  sessions : ∀ r, s.sessions_ r = s.tickets r
  active : s.active = s.leases + s.inHand
  calling : ∀ c j, (s.conn c).via = some j → s.hand j = .launching c

lemma Balanced.initial : (Sessions.initial : Sessions n).Balanced where
  tidy _ := .unborn
  sessions _ := rfl
  active := by
    simp [leases, inHand, census, Sessions.initial, Hand.leases]
  calling _ _ h := nomatch h

lemma inHand_update (s : Sessions n) (j : Fin (n + 1)) (hand' : Hand) :
    census Finset.univ Hand.leases (Function.update s.hand j hand') + (s.hand j).leases =
      s.inHand + hand'.leases := census_update (Finset.mem_univ j) hand'

/-- An accept loop puts down what it holds, or takes a lease, and launches nothing meanwhile. -/
lemma Balanced.rehand {s : Sessions n} (h : s.Balanced) {j : Fin (n + 1)} {hand' : Hand}
    {active : ℕ} (hfree : ∀ c, s.hand j ≠ .launching c)
    (hactive : active + (s.hand j).leases = s.active + hand'.leases) :
    Balanced { s with active := active, hand := Function.update s.hand j hand' } where
  tidy := h.tidy
  sessions := h.sessions
  active := by
    have hhand := s.inHand_update j hand'
    have hbal := h.active
    change active = s.leases + census Finset.univ Hand.leases (Function.update s.hand j hand')
    omega
  calling c i hvia := by
    have hi := h.calling c i hvia
    have hne : i ≠ j := fun heq => hfree c (heq ▸ hi)
    rw [← hi]
    exact Function.update_of_ne hne ..

lemma Balanced.mint {s : Sessions n} (h : s.Balanced) {j home : Fin (n + 1)} {held : Bool}
    (hhand : s.hand j = .lease held) :
    Balanced { s with
      sessions_ := Function.update s.sessions_ home (s.sessions_ home + 1)
      hand := Function.update s.hand j (.launching s.born)
      born := s.born + 1
      conn := Function.update s.conn s.born (.fresh j home held) } where
  tidy c := by
    by_cases hc : c = s.born
    · subst hc
      simpa using Conn.Tidy.fresh j home held
    · simpa [hc] using h.tidy c
  sessions r := by
    have hheld := (Conn.Tidy.fresh j home held).held_eq r
    simp only [tickets, census_range_succ, hheld]
    by_cases hr : home = r
    · subst hr
      simpa [Conn.fresh, ConnStage.owner, tickets] using h.sessions home
    · simpa [Conn.fresh, hr, Function.update_of_ne (Ne.symm hr), tickets] using h.sessions r
  active := by
    have hupdate := s.inHand_update j (.launching s.born)
    have hweight : (Conn.fresh j home held).leased = (s.hand j).leases := by
      rw [(Conn.Tidy.fresh j home held).leased_eq, hhand]
      cases held <;> rfl
    have hlaunching : (Hand.launching s.born).leases = 0 := rfl
    have hbal := h.active
    simp only [leases, inHand, census_range_succ, hweight] at hbal hupdate ⊢
    omega
  calling c i hvia := by
    by_cases hc : c = s.born
    · subst hc
      obtain rfl : j = i := by simpa [Conn.fresh] using hvia
      simp
    · have hi := h.calling c i (by simpa [hc] using hvia)
      have hne : i ≠ j := fun heq => by simp [heq ▸ hi] at hhand
      simpa [hne] using hi

/-- Only the end of its call of `launch_session` changes what an accept loop holds. -/
lemma handAfter_cases (c : ℕ) (k k' : Conn n) (hand : Fin (n + 1) → Hand) :
    handAfter c k k' hand = hand ∨
      ∃ j hand', k.via = some j ∧ k'.via = none ∧ hand'.leases = 0 ∧
        handAfter c k k' hand = Function.update hand j hand' := by
  unfold handAfter
  split
  · next j _ hvia hvia' _ => exact .inr ⟨j, _, hvia, hvia', rfl, rfl⟩
  · next j hvia hvia' _ => exact .inr ⟨j, _, hvia, hvia', rfl, rfl⟩
  · exact .inl rfl

/-- The end of a call changes no lease: the accept loop had put it into the ticket. -/
lemma Balanced.inHand_handAfter {s : Sessions n} (h : s.Balanced) (c : ℕ) (k' : Conn n) :
    census Finset.univ Hand.leases (handAfter c (s.conn c) k' s.hand) = s.inHand := by
  rcases handAfter_cases c (s.conn c) k' s.hand with heq | ⟨j, hand', hvia, -, hzero, heq⟩
  · rw [heq]
    rfl
  · rw [heq]
    exact census_update_of_eq (by rw [h.calling c j hvia, hzero]; rfl)

lemma handAfter_of_ne {k k' : Conn n} {c : ℕ} {hand : Fin (n + 1) → Hand} {i : Fin (n + 1)}
    (hi : k.via ≠ some i ∨ k'.via = some i) : handAfter c k k' hand i = hand i := by
  rcases handAfter_cases c k k' hand with heq | ⟨j, hand', hvia, hvia', -, heq⟩
  · rw [heq]
  · rw [heq, Function.update_of_ne]
    rintro rfl
    simp [hvia, hvia'] at hi

lemma Balanced.tickets_settle {s : Sessions n} (h : s.Balanced) {c : ℕ} {act : Conn.Act}
    {k' : Conn n} (hc : c < s.born) (hstep : (s.conn c).step act = some k') (r : Fin (n + 1)) :
    (s.settle c act k').tickets r +
        (if act = .leave ∧ (s.conn c).stage.owner.isSome ∧ (s.conn c).home = r then 1 else 0) =
      s.tickets r := by
  have hcensus : (s.settle c act k').tickets r + (s.conn c).held r = s.tickets r + k'.held r :=
    census_update (Finset.mem_range.mpr hc) k'
  rw [(h.tidy c).held_eq, ((h.tidy c).step hstep).held_eq, Conn.owner_step hstep,
    Conn.home_step hstep] at hcensus
  by_cases hact : act = .leave
  · simp only [hact, ne_eq, not_true, decide_false, Bool.and_false, Bool.false_eq_true,
      false_and, if_false, true_and] at hcensus ⊢
    omega
  · simp only [hact, ne_eq, not_false_eq_true, decide_true, Bool.and_true, false_and,
      if_false] at hcensus ⊢
    omega

lemma Balanced.leases_settle {s : Sessions n} (h : s.Balanced) {c : ℕ} {act : Conn.Act}
    {k' : Conn n} (hc : c < s.born) (hstep : (s.conn c).step act = some k') :
    (s.settle c act k').leases + (if act = .reset ∧ (s.conn c).lease = true then 1 else 0) =
      s.leases := by
  have hcensus : (s.settle c act k').leases + (s.conn c).leased = s.leases + k'.leased :=
    census_update (Finset.mem_range.mpr hc) k'
  rw [(h.tidy c).leased_eq, ((h.tidy c).step hstep).leased_eq, (h.tidy c).lease_step hstep]
    at hcensus
  by_cases hact : act = .reset <;> cases hlease : (s.conn c).lease <;>
    simp_all

/-- The count of the reactor the ticket names is the one that changes. -/
lemma Balanced.sessions_settle {s : Sessions n} (h : s.Balanced) {c : ℕ} {act : Conn.Act}
    {k' : Conn n} (r : Fin (n + 1)) :
    (s.settle c act k').sessions_ r = s.sessions_ r -
        (if act = .leave ∧ (s.conn c).stage.owner.isSome ∧ (s.conn c).home = r then 1 else 0) := by
  cases hown : (s.conn c).stage.owner with
  | none => cases act <;> simp [settle, hown]
  | some hop =>
      obtain ⟨b, hb⟩ := (h.tidy c).owned hop hown
      by_cases hr : (s.conn c).home = r
      · cases act <;> simp [settle, hown, hb, hr]
      · cases act <;> simp [settle, hown, hb, hr, Function.update_of_ne (Ne.symm hr)]

lemma Balanced.settle {s : Sessions n} (h : s.Balanced) {c : ℕ} {act : Conn.Act}
    {k' : Conn n} (hc : c < s.born) (hstep : (s.conn c).step act = some k') :
    (s.settle c act k').Balanced where
  tidy c' := by
    by_cases heq : c' = c
    · subst heq
      simpa [Sessions.settle] using (h.tidy c').step hstep
    · simpa [Sessions.settle, heq] using h.tidy c'
  sessions r := by
    have htickets := h.tickets_settle hc hstep r
    rw [h.sessions_settle r, h.sessions r]
    omega
  active := by
    have hleases := h.leases_settle hc hstep
    have hhand : (s.settle c act k').inHand = s.inHand := h.inHand_handAfter c k'
    have hbal := h.active
    have hactive : (s.settle c act k').active =
        s.active - (if act = .reset ∧ (s.conn c).lease = true then 1 else 0) := by
      simp only [Sessions.settle]
      split <;> rfl
    omega
  calling c' i hvia := by
    have hi : s.hand i = .launching c' := by
      by_cases heq : c' = c
      · subst heq
        have hvia' : k'.via = some i := by simpa [Sessions.settle] using hvia
        exact h.calling c' i ((Conn.via_step hstep).elim (fun hv => hv ▸ hvia')
          fun hv => by simp [hv] at hvia')
      · exact h.calling c' i (by simpa [Sessions.settle, heq] using hvia)
    rw [← hi]
    refine handAfter_of_ne ?_
    by_cases heq : c' = c
    · subst heq
      exact .inr (by simpa [Sessions.settle] using hvia)
    · refine .inl fun hc' => heq ?_
      simpa [hi] using h.calling c i hc'

/-- **One step keeps the balance.** -/
theorem Balanced.step {maximum : ℕ} {s s' : Sessions n} {act : Act n} (h : s.Balanced)
    (hstep : s.step maximum act = some s') : s'.Balanced := by
  cases act with
  | enter j =>
      obtain ⟨hempty, hstep⟩ := Option.ite_none_right_eq_some.mp hstep
      split at hstep
      · cases hstep
        exact h.rehand (by simp [hempty]) (by simp [hempty, Hand.leases])
      · obtain ⟨-, hs'⟩ := Option.ite_none_right_eq_some.mp hstep
        cases hs'
        exact h.rehand (by simp [hempty]) (by simp [hempty, Hand.leases])
  | refuse j =>
      obtain ⟨-, hs'⟩ := Option.ite_none_right_eq_some.mp hstep
      cases hs'
      exact h
  | mint j home =>
      simp only [Sessions.step] at hstep
      split at hstep
      · next held hhand => cases hstep; exact h.mint hhand
      · cases hstep
  | conn c act =>
      obtain ⟨hc, hstep⟩ := Option.ite_none_right_eq_some.mp hstep
      obtain ⟨k', hk', hs'⟩ := Option.map_eq_some_iff.mp hstep
      cases hs'
      exact h.settle hc hk'
  | launched j =>
      obtain ⟨hhand, hs'⟩ := Option.ite_none_right_eq_some.mp hstep
      cases hs'
      exact h.rehand (by simp [hhand]) (by simp [hhand, Hand.leases])
  | failed j =>
      simp only [Sessions.step] at hstep
      split at hstep
      · next c hhand =>
          obtain ⟨-, hs'⟩ := Option.ite_none_right_eq_some.mp hstep
          cases hs'
          exact h.rehand (by simp [hhand]) (by simp [hhand, Hand.leases])
      · cases hstep

/-! ## What a step does to the connections -/

lemma step_conn {maximum : ℕ} {s s' : Sessions n} {c : ℕ} {act : Conn.Act}
    (h : s.step maximum (.conn c act) = some s') :
    c < s.born ∧ s'.born = s.born ∧
      ∃ k', (s.conn c).step act = some k' ∧ s'.conn = Function.update s.conn c k' := by
  obtain ⟨hc, h⟩ := Option.ite_none_right_eq_some.mp h
  obtain ⟨k', hk', rfl⟩ := Option.map_eq_some_iff.mp h
  exact ⟨hc, rfl, k', hk', rfl⟩

/-- What an accept loop does changes no connection, but may make a new one. -/
lemma step_desk {maximum : ℕ} {s s' : Sessions n} {act : Act n} (hact : ∀ c a, act ≠ .conn c a)
    (h : s.step maximum act = some s') :
    (s'.conn = s.conn ∧ s'.born = s.born) ∨
      ∃ j home held, s'.born = s.born + 1 ∧
        s'.conn = Function.update s.conn s.born (.fresh j home held) := by
  cases act with
  | enter j =>
      obtain ⟨-, h⟩ := Option.ite_none_right_eq_some.mp h
      split at h
      · cases h; exact .inl ⟨rfl, rfl⟩
      · obtain ⟨-, h⟩ := Option.ite_none_right_eq_some.mp h
        cases h
        exact .inl ⟨rfl, rfl⟩
  | refuse j =>
      obtain ⟨-, h⟩ := Option.ite_none_right_eq_some.mp h
      cases h
      exact .inl ⟨rfl, rfl⟩
  | mint j home =>
      simp only [step] at h
      split at h
      · next held hhand =>
          cases h
          exact .inr ⟨j, home, held, rfl, rfl⟩
      · cases h
  | conn c a => exact absurd rfl (hact c a)
  | launched j =>
      obtain ⟨-, h⟩ := Option.ite_none_right_eq_some.mp h
      cases h
      exact .inl ⟨rfl, rfl⟩
  | failed j =>
      simp only [step] at h
      split at h
      · obtain ⟨-, h⟩ := Option.ite_none_right_eq_some.mp h
        cases h
        exact .inl ⟨rfl, rfl⟩
      · cases h

end Sessions

end ReactorRuntime
