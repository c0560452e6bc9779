import ReactorRuntime.Library.Census
import ReactorRuntime.Library.Machine

/-!
# The signal

`Signal` (`reactor_events.h:120-149`) puts `ev::async` on a loop.  `send()` sets `pending` by an
exchange, and posts a handler if it was not set; the handler clears `pending` and runs the callback.
Sends that find `pending` set leave it at that: a run is to come (`coalesces_without_loss`).

What a signal is for is that work is looked at.  The model therefore has the work items that its
callers publish, each before a `send()` or not, and lets the callback begin with a look at all that
are visible.

The handler clears `pending` by a store, with release order.  The processor may keep it from the
other threads for a while and go on with the callback.  The model comes in two kinds: in one every
operation is visible at once, and in the other this store goes to a buffer, from which it becomes
visible later.  All other operations on `pending` are exchanges, which act on the value that is
visible, and an exchange by the loop itself finds its buffer empty.

A callback is set, and `post` succeeds.
-/

namespace ReactorRuntime

/-- Where a call of `send()` stands. -/
inductive SendPc
  /-- Before `pending.exchange(true)`. -/
  | exchange
  /-- `pending` was not set: before `asio::post`. -/
  | post
  /-- It has posted, and returned. -/
  | posted
  /-- `pending` was set, and it has returned. -/
  | coalesced
  deriving DecidableEq, Repr

namespace SendPc

/-- It is between its winning exchange and its post. -/
@[simp] def winning : SendPc → ℕ
  | .post => 1
  | _ => 0

/-- It has posted a handler. -/
@[simp] def hasPosted : SendPc → ℕ
  | .posted => 1
  | _ => 0

end SendPc

/-- A call of `send()`. -/
structure Send where
  pc : SendPc
  /-- Record: how many work items had been published when it was called. -/
  before : ℕ
  /-- Record: how many callback runs had started when its exchange was executed. -/
  runs : ℕ
  deriving DecidableEq, Repr

/-- What the loop does with the handlers. -/
inductive SignalLoop
  | idle
  /-- The handler has executed `pending.store(false)`, and not yet called the callback. -/
  | cleared
  | calling
  deriving DecidableEq, Repr

/-- A `Signal`, its senders and its loop. -/
structure Signal where
  /-- The value that the other threads see. -/
  pending : Bool
  /-- A store of `false` by the loop is in its buffer. -/
  buffered : Bool
  calls : ℕ
  send : ℕ → Send
  /-- The number of handlers that were posted and not yet executed. -/
  queued : ℕ
  loop : SignalLoop
  /-- The call of `send()` that the callback is in. -/
  within : Option ℕ
  /-- The number of work items that were published. -/
  published : ℕ
  /-- How many of them, the first ones, some callback run has read. -/
  read : ℕ
  /-- Record: the number of callback runs that have started. -/
  runs : ℕ

namespace Signal

/-- What can happen next. -/
inductive Act
  /-- A work item becomes visible. -/
  | publish
  /-- `send()` is called, by the callback if `own`. -/
  | call (own : Bool)
  /-- Call `c` executes its exchange. -/
  | exchange (c : ℕ)
  /-- Call `c` posts. -/
  | post (c : ℕ)
  /-- The loop begins with a handler, and stores `false`. -/
  | clear
  /-- The callback starts, and reads what work is visible. -/
  | run
  /-- The callback ends, by an exception if `threw`. -/
  | finish (threw : Bool)
  /-- The store of `false` leaves the buffer. -/
  | flush
  deriving DecidableEq, Repr

def initial : Signal where
  pending := false
  buffered := false
  calls := 0
  send _ := ⟨.coalesced, 0, 0⟩
  queued := 0
  loop := .idle
  within := none
  published := 0
  read := 0
  runs := 0

/-- Call `c` returns. -/
def leave (within : Option ℕ) (c : ℕ) : Option ℕ := if within = some c then none else within

/-- One action; `buffering` says whether the store of `false` goes to a buffer. -/
def step (buffering : Bool) (s : Signal) : Act → Option Signal
  | .publish => some { s with published := s.published + 1 }
  | .call own =>
      -- one thread runs the callback, so that it is in one call at a time
      if own = true → s.loop = .calling ∧ s.within = none then
        some { s with
          send := Function.update s.send s.calls ⟨.exchange, s.published, 0⟩
          calls := s.calls + 1
          within := if own then some s.calls else s.within }
      else none
  | .exchange c =>
      if c < s.calls ∧ (s.send c).pc = .exchange ∧ (s.within = some c → s.buffered = false) then
        some (if s.pending then
          { s with
            send := Function.update s.send c ⟨.coalesced, (s.send c).before, s.runs⟩
            within := leave s.within c }
        else
          { s with
            send := Function.update s.send c ⟨.post, (s.send c).before, s.runs⟩
            pending := true })
      else none
  | .post c =>
      if c < s.calls ∧ (s.send c).pc = .post then
        some { s with
          send := Function.update s.send c ⟨.posted, (s.send c).before, (s.send c).runs⟩
          queued := s.queued + 1
          within := leave s.within c }
      else none
  | .clear =>
      if s.loop = .idle ∧ 0 < s.queued then
        some { s with
          queued := s.queued - 1
          loop := .cleared
          pending := if buffering then s.pending else false
          buffered := buffering }
      else none
  | .run =>
      if s.loop = .cleared then
        some { s with loop := .calling, runs := s.runs + 1, read := s.published }
      else none
  | .finish _ =>
      if s.loop = .calling ∧ s.within = none then some { s with loop := .idle } else none
  | .flush =>
      if s.buffered = true then some { s with buffered := false, pending := false } else none

/-- The signal as a machine. -/
def machine (buffering : Bool) : Machine Signal Act where
  init := initial
  step := step buffering

/-- The total of a weight over the calls of `send()`. -/
def tally (w : SendPc → ℕ) (s : Signal) : ℕ :=
  census (Finset.range s.calls) (fun e => w e.pc) s.send

/-- The number of senders between their winning exchange and their post. -/
def winners (s : Signal) : ℕ := s.tally SendPc.winning

/-- A callback run is going to start. -/
def Due (s : Signal) : Prop := 0 < s.winners + s.queued ∨ s.loop = .cleared

/-- The store that cleared `pending` is visible when the callback starts. -/
def Ordered (s : Signal) (act : Act) : Prop := act = .run → s.buffered = false

instance (s : Signal) (act : Act) : Decidable (s.Ordered act) :=
  inferInstanceAs (Decidable (_ → _))

end Signal

/-! ## One send -/

/-- What holds of a send, with the counters of the signal. -/
structure Send.Kept (runs published read : ℕ) (due : Prop) (e : Send) : Prop where
  runs_le : e.runs ≤ runs
  before_le : e.before ≤ published
  covered : e.pc ≠ .exchange → e.runs < runs ∨ due
  seen : e.pc ≠ .exchange → e.runs < runs → e.before ≤ read

namespace Send

variable {runs published read : ℕ} {due due' : Prop} {e : Send}

lemma Kept.mono (h : e.Kept runs published read due) (hdue : due → due') :
    e.Kept runs published read due' :=
  ⟨h.runs_le, h.before_le, fun hpc => (h.covered hpc).imp_right hdue, h.seen⟩

lemma Kept.publish (h : e.Kept runs published read due) :
    e.Kept runs (published + 1) read due :=
  ⟨h.runs_le, Nat.le_succ_of_le h.before_le, h.covered, h.seen⟩

/-- A callback run makes up for every send so far. -/
lemma Kept.run (h : e.Kept runs published read due) (due' : Prop) :
    e.Kept (runs + 1) published published due' :=
  ⟨Nat.le_succ_of_le h.runs_le, h.before_le, fun _ => .inl (Nat.lt_succ_of_le h.runs_le),
    fun _ _ => h.before_le⟩

/-- A send executes its exchange when a callback run is to come. -/
lemma Kept.exchange (h : e.Kept runs published read due) (pc : SendPc) (hdue : due') :
    Kept runs published read due' ⟨pc, e.before, runs⟩ :=
  ⟨Nat.le_refl _, h.before_le, fun _ => .inr hdue, fun _ hlt => absurd hlt (Nat.lt_irrefl _)⟩

end Send

namespace Signal

/-! ## Counting the sends -/

variable {s t : Signal} {c : ℕ} {e : Send} {w : SendPc → ℕ}

lemma tally_call (hcalls : t.calls = s.calls + 1)
    (hsend : t.send = Function.update s.send s.calls e) : t.tally w = s.tally w + w e.pc := by
  unfold tally
  rw [hcalls, hsend]
  exact census_range_succ (w := fun e : Send => w e.pc) e

lemma tally_update (hc : c < s.calls) (hcalls : t.calls = s.calls)
    (hsend : t.send = Function.update s.send c e) :
    t.tally w + w (s.send c).pc = s.tally w + w e.pc := by
  unfold tally
  rw [hcalls, hsend]
  exact census_update (w := fun e : Send => w e.pc) (Finset.mem_range.mpr hc) e

lemma winners_eq_zero (h : ∀ c < s.calls, (s.send c).pc ≠ .post) : s.winners = 0 := by
  unfold winners tally
  apply census_eq_zero
  intro c hc
  have hpc := h c (Finset.mem_range.mp hc)
  cases heq : (s.send c).pc with
  | post => exact absurd heq hpc
  | exchange => rfl
  | posted => rfl
  | coalesced => rfl

lemma winners_pos (hc : c < s.calls) (hpc : (s.send c).pc = .post) : 0 < s.winners := by
  have hle := le_census (w := fun e : Send => e.pc.winning) (f := s.send)
    (Finset.mem_range.mpr hc)
  rw [hpc] at hle
  exact hle

lemma tally_hasPosted_le (s : Signal) : s.tally SendPc.hasPosted ≤ s.calls := by
  rw [← Finset.card_range s.calls]
  apply census_le_card
  intro c _
  cases (s.send c).pc <;> simp

/-! ## What one step does -/

/-- What holds in every run in which each callback starts with the store visible. -/
structure Kept (buffering : Bool) (s : Signal) : Prop where
  /-- `pending` is set for one reason at a time. -/
  token : s.winners + s.queued + s.buffered.toNat = s.pending.toNat
  handlers : s.runs + s.queued + (decide (s.loop = .cleared)).toNat = s.tally SendPc.hasPosted
  kind : s.buffered = true → buffering = true
  ordered : s.buffered = true → s.loop = .cleared
  sends : ∀ c < s.calls, (s.send c).Kept s.runs s.published s.read s.Due

variable {buffering : Bool}

/-- When `pending` is set, a callback run is to come. -/
lemma Kept.due_of_pending (h : s.Kept buffering) (hp : s.pending = true) : s.Due := by
  have htoken := h.token
  rw [hp, Bool.toNat_true] at htoken
  cases hb : s.buffered with
  | false =>
      rw [hb, Bool.toNat_false] at htoken
      exact .inl (by omega)
  | true => exact .inr (h.ordered hb)

/-- Without a buffer every store is visible. -/
lemma Kept.visible (h : s.Kept false) : s.buffered = false :=
  Bool.eq_false_of_not_eq_true fun hb => Bool.false_ne_true (h.kind hb)

/-- One send goes on, and a callback run is to come. -/
lemma Kept.sends_update (h : s.Kept buffering) (hcalls : t.calls = s.calls)
    (hsend : t.send = Function.update s.send c e)
    (hrecords : t.runs = s.runs ∧ t.published = s.published ∧ t.read = s.read) (hdue : t.Due)
    (hnew : e.Kept s.runs s.published s.read t.Due) :
    ∀ d < t.calls, (t.send d).Kept t.runs t.published t.read t.Due := by
  intro d hd
  rw [hsend, hrecords.1, hrecords.2.1, hrecords.2.2]
  rcases eq_or_ne d c with rfl | hne
  · rw [Function.update_self]
    exact hnew
  · rw [Function.update_of_ne hne]
    exact (h.sends d (hcalls ▸ hd)).mono fun _ => hdue

lemma Kept.publish (h : s.Kept buffering) :
    Kept buffering { s with published := s.published + 1 } :=
  ⟨h.token, h.handlers, h.kind, h.ordered, fun c hc => (h.sends c hc).publish⟩

lemma Kept.call (h : s.Kept buffering) (within : Option ℕ) :
    Kept buffering { s with
      send := Function.update s.send s.calls ⟨.exchange, s.published, 0⟩
      calls := s.calls + 1
      within := within } := by
  set t : Signal := { s with
    send := Function.update s.send s.calls ⟨.exchange, s.published, 0⟩
    calls := s.calls + 1
    within := within }
  have htally (w : SendPc → ℕ) (hw : w .exchange = 0) : t.tally w = s.tally w := by
    rw [tally_call (s := s) rfl rfl, hw, Nat.add_zero]
  have hwinners : t.winners = s.winners := htally _ rfl
  refine ⟨?_, ?_, h.kind, h.ordered, ?_⟩
  · rw [hwinners]
    exact h.token
  · rw [htally _ rfl]
    exact h.handlers
  · intro c hc
    rcases Nat.lt_succ_iff_lt_or_eq.mp hc with hlt | rfl
    · have hsend : t.send c = s.send c := Function.update_of_ne (Nat.ne_of_lt hlt) ..
      rw [hsend]
      exact (h.sends c hlt).mono (Or.imp_left fun hpos => hwinners.symm ▸ hpos)
    · have hsend : t.send s.calls = _ := Function.update_self ..
      rw [hsend]
      exact ⟨Nat.zero_le _, Nat.le_refl _, fun hpc => absurd rfl hpc, fun hpc => absurd rfl hpc⟩

lemma Kept.coalesce (h : s.Kept buffering) (hc : c < s.calls) (hpc : (s.send c).pc = .exchange)
    (hp : s.pending = true) (within : Option ℕ) :
    Kept buffering { s with
      send := Function.update s.send c ⟨.coalesced, (s.send c).before, s.runs⟩
      within := within } := by
  set t : Signal := { s with
    send := Function.update s.send c ⟨.coalesced, (s.send c).before, s.runs⟩
    within := within }
  have htally (w : SendPc → ℕ) (hw : w .exchange = w .coalesced) : t.tally w = s.tally w := by
    have hsum := tally_update (t := t) (w := w) hc rfl rfl
    rw [hpc, hw] at hsum
    exact Nat.add_right_cancel hsum
  have hwinners : t.winners = s.winners := htally _ rfl
  have hdue : t.Due := (h.due_of_pending hp).imp_left fun hpos => hwinners.symm ▸ hpos
  refine ⟨?_, ?_, h.kind, h.ordered,
    h.sends_update rfl rfl ⟨rfl, rfl, rfl⟩ hdue ((h.sends c hc).exchange _ hdue)⟩
  · rw [hwinners]
    exact h.token
  · rw [htally _ rfl]
    exact h.handlers

lemma Kept.win (h : s.Kept buffering) (hc : c < s.calls) (hpc : (s.send c).pc = .exchange)
    (hp : s.pending = false) :
    Kept buffering { s with
      send := Function.update s.send c ⟨.post, (s.send c).before, s.runs⟩
      pending := true } := by
  set t : Signal := { s with
    send := Function.update s.send c ⟨.post, (s.send c).before, s.runs⟩
    pending := true }
  have hwinners : t.winners = s.winners + 1 := by
    have hsum := tally_update (t := t) (w := SendPc.winning) hc rfl rfl
    rw [hpc] at hsum
    exact hsum
  have hposted : t.tally SendPc.hasPosted = s.tally SendPc.hasPosted := by
    have hsum := tally_update (t := t) (w := SendPc.hasPosted) hc rfl rfl
    rw [hpc] at hsum
    exact hsum
  have hdue : t.Due := .inl (by omega)
  have htoken := h.token
  rw [hp, Bool.toNat_false] at htoken
  refine ⟨?_, ?_, h.kind, h.ordered,
    h.sends_update rfl rfl ⟨rfl, rfl, rfl⟩ hdue ((h.sends c hc).exchange _ hdue)⟩
  · show t.winners + s.queued + s.buffered.toNat = 1
    omega
  · rw [hposted]
    exact h.handlers

/-- The winner posts: its token passes to the handler. -/
lemma Kept.post (h : s.Kept buffering) (hc : c < s.calls) (hpc : (s.send c).pc = .post)
    (within : Option ℕ) :
    Kept buffering { s with
      send := Function.update s.send c ⟨.posted, (s.send c).before, (s.send c).runs⟩
      queued := s.queued + 1
      within := within } := by
  set t : Signal := { s with
    send := Function.update s.send c ⟨.posted, (s.send c).before, (s.send c).runs⟩
    queued := s.queued + 1
    within := within }
  have hwinners : t.winners + 1 = s.winners := by
    have hsum := tally_update (t := t) (w := SendPc.winning) hc rfl rfl
    rw [hpc] at hsum
    exact hsum
  have hposted : t.tally SendPc.hasPosted = s.tally SendPc.hasPosted + 1 := by
    have hsum := tally_update (t := t) (w := SendPc.hasPosted) hc rfl rfl
    rw [hpc] at hsum
    exact hsum
  have hdue : t.Due := .inl (Nat.lt_of_lt_of_le (Nat.succ_pos s.queued) (Nat.le_add_left ..))
  have hkept := h.sends c hc
  have hnew : Send.Kept s.runs s.published s.read t.Due
      ⟨.posted, (s.send c).before, (s.send c).runs⟩ := by
    refine ⟨hkept.runs_le, hkept.before_le, fun _ => .inr hdue, fun _ hlt => hkept.seen ?_ hlt⟩
    rw [hpc]
    exact SendPc.noConfusion
  refine ⟨?_, ?_, h.kind, h.ordered, h.sends_update rfl rfl ⟨rfl, rfl, rfl⟩ hdue hnew⟩
  · show t.winners + (s.queued + 1) + s.buffered.toNat = s.pending.toNat
    rw [← h.token]
    omega
  · have hhandlers := h.handlers
    show s.runs + (s.queued + 1) + (decide (s.loop = .cleared)).toNat = _
    rw [hposted]
    omega

/-- The handler clears `pending`, or is about to. -/
lemma Kept.clear (h : s.Kept buffering) (hidle : s.loop = .idle) (hq : 0 < s.queued) :
    Kept buffering { s with
      queued := s.queued - 1
      loop := .cleared
      pending := if buffering then s.pending else false
      buffered := buffering } := by
  have htoken := h.token
  have hone := Bool.toNat_le s.pending
  have hhandlers : s.runs + s.queued + 0 = s.tally SendPc.hasPosted := by
    rw [← h.handlers, hidle]
    rfl
  refine ⟨?_, ?_, id, fun _ => rfl, fun c hc => (h.sends c hc).mono fun _ => .inr rfl⟩
  · show s.winners + (s.queued - 1) + buffering.toNat = _
    cases buffering with
    | true =>
        show s.winners + (s.queued - 1) + 1 = s.pending.toNat
        omega
    | false =>
        show s.winners + (s.queued - 1) + 0 = 0
        omega
  · show s.runs + (s.queued - 1) + 1 = s.tally SendPc.hasPosted
    omega

lemma Kept.run (h : s.Kept buffering) (hcleared : s.loop = .cleared)
    (hvisible : s.buffered = false) :
    Kept buffering { s with loop := .calling, runs := s.runs + 1, read := s.published } := by
  have hhandlers : s.runs + s.queued + 1 = s.tally SendPc.hasPosted := by
    rw [← h.handlers, hcleared]
    rfl
  refine ⟨h.token, ?_, h.kind, fun hb => absurd (hvisible.symm.trans hb) Bool.false_ne_true,
    fun c hc => (h.sends c hc).run _⟩
  show s.runs + 1 + s.queued + 0 = s.tally SendPc.hasPosted
  omega

lemma Kept.finish (h : s.Kept buffering) (hcalling : s.loop = .calling) :
    Kept buffering { s with loop := .idle } := by
  have hnot : s.loop ≠ .cleared := by
    rw [hcalling]
    exact SignalLoop.noConfusion
  have hhandlers := h.handlers
  rw [hcalling] at hhandlers
  refine ⟨h.token, hhandlers, h.kind, fun hb => absurd (h.ordered hb) hnot, fun c hc => ?_⟩
  exact (h.sends c hc).mono fun hdue => .inl (hdue.resolve_right hnot)

/-- The store leaves the buffer, and takes its token with it. -/
lemma Kept.flush (h : s.Kept buffering) (hb : s.buffered = true) :
    Kept buffering { s with buffered := false, pending := false } := by
  have htoken := h.token
  have hone := Bool.toNat_le s.pending
  rw [hb, Bool.toNat_true] at htoken
  refine ⟨?_, h.handlers, fun hf => absurd hf Bool.false_ne_true,
    fun hf => absurd hf Bool.false_ne_true, h.sends⟩
  show s.winners + s.queued + 0 = 0
  omega

lemma Kept.step {act : Act} (h : s.Kept buffering) (hok : buffering = true → s.Ordered act)
    (hstep : step buffering s act = some t) : t.Kept buffering := by
  cases act with
  | publish =>
      cases hstep
      exact h.publish
  | call own =>
      obtain ⟨-, heq⟩ := Option.ite_none_right_eq_some.mp hstep
      cases heq
      exact h.call _
  | exchange c =>
      obtain ⟨⟨hc, hpc, -⟩, heq⟩ := Option.ite_none_right_eq_some.mp hstep
      cases heq
      split
      · rename_i hp
        exact h.coalesce hc hpc hp _
      · rename_i hp
        exact h.win hc hpc (Bool.eq_false_of_not_eq_true hp)
  | post c =>
      obtain ⟨⟨hc, hpc⟩, heq⟩ := Option.ite_none_right_eq_some.mp hstep
      cases heq
      exact h.post hc hpc _
  | clear =>
      obtain ⟨⟨hidle, hq⟩, heq⟩ := Option.ite_none_right_eq_some.mp hstep
      cases heq
      exact h.clear hidle hq
  | run =>
      obtain ⟨hcleared, heq⟩ := Option.ite_none_right_eq_some.mp hstep
      cases heq
      -- in a buffer there is a store only of a machine that has one
      refine h.run hcleared (Bool.eq_false_of_not_eq_true fun hb => ?_)
      exact absurd (hb.symm.trans (hok (h.kind hb) rfl)) Bool.false_ne_true.symm
  | finish threw =>
      obtain ⟨⟨hcalling, -⟩, heq⟩ := Option.ite_none_right_eq_some.mp hstep
      cases heq
      exact h.finish hcalling
  | flush =>
      obtain ⟨hb, heq⟩ := Option.ite_none_right_eq_some.mp hstep
      cases heq
      exact h.flush hb

lemma kept_initial (buffering : Bool) : initial.Kept buffering :=
  ⟨rfl, rfl, fun hb => absurd hb Bool.false_ne_true, fun hb => absurd hb Bool.false_ne_true,
    fun c hc => absurd hc (Nat.not_lt_zero c)⟩

/-! ## With every operation visible at once -/

lemma kept_of_reachable (hs : (machine false).Reachable s) : s.Kept false :=
  hs.invariant (kept_initial false) fun _ _ _ h _ hstep =>
    h.step (fun hf => absurd hf Bool.false_ne_true) hstep

/-- **Sends coalesce, and none is lost.**  At any time there is at most one sender between its
winning exchange and its post, or handler that has not cleared `pending`; there are no more callback
runs than sends; and for every send whose exchange was executed a callback run has started since, or
there is such a sender or handler, or a handler is about to call the callback. -/
theorem coalesces_without_loss (hs : (machine false).Reachable s) :
    s.winners + s.queued ≤ 1 ∧ s.runs ≤ s.calls ∧
      ∀ c < s.calls, (s.send c).pc ≠ .exchange →
        (s.send c).runs < s.runs ∨ 0 < s.winners + s.queued ∨ s.loop = .cleared := by
  have h := kept_of_reachable hs
  refine ⟨?_, ?_, fun c hc hpc => (h.sends c hc).covered hpc⟩
  · have htoken := h.token
    have hone := Bool.toNat_le s.pending
    omega
  · have hhandlers := h.handlers
    have hposted := s.tally_hasPosted_le
    omega

/-- Three sends, the last of them by the callback of the first, which throws. -/
def nestedRun : List Act :=
  [.call false, .call false, .exchange 0, .exchange 1, .post 0, .clear, .run, .call true,
    .exchange 2, .post 2, .finish true]

/-- After it there is one handler, for the third send, and the second was made up for by the run
that the first one asked for. -/
theorem coalesces_without_loss_at_nestedRun :
    ∃ s, (machine false).Reachable s ∧
      (s.calls = 3 ∧ s.runs = 1 ∧ s.queued = 1 ∧ (s.send 1).pc = .coalesced ∧
        (s.send 1).runs < s.runs ∧ (s.send 2).runs = s.runs) ∧
      s.winners + s.queued ≤ 1 ∧ s.runs ≤ s.calls := by
  obtain ⟨s, hs, htest⟩ := (machine false).exists_reachable_of_run nestedRun
    (fun s => decide (s.calls = 3 ∧ s.runs = 1 ∧ s.queued = 1 ∧ (s.send 1).pc = .coalesced ∧
      (s.send 1).runs < s.runs ∧ (s.send 2).runs = s.runs)) (by decide +kernel)
  obtain ⟨hone, hruns, -⟩ := coalesces_without_loss hs
  exact ⟨s, hs, of_decide_eq_true htest, hone, hruns⟩

end Signal

end ReactorRuntime
