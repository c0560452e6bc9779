import Mathlib.Data.Nat.Notation
import Mathlib.Logic.Function.Basic
import ReactorRuntime.Library.Machine

/-!
# What a forced shutdown touches

`SessionControl::force()` (`reactor.h:373-387`) ends a connection that outlasts the grace.  The
control does not hold the socket, which the session owns and may have closed; it remembers the
descriptor number and the peer's endpoint of the connection it was accepted with.
`shutdown_connection` (`reactor.h:349-357`) asks for the peer of whatever the number names now, and
if that is the peer it remembers it shuts down whatever the number names.

The machine of this file has the descriptor table of the process.  Connections are accepted,
connected and closed at any time, by anyone; a number that is free may be used again; no two open
connections have both endpoints in common.  Connections are told apart by the order in which they
were made.  The two system calls of a `force()` are two steps, and any number of sessions may be
forced.

Two connections may have the same peer: a client may use one port of its own for connections to two
listeners.  So the check does not tell the session's own connection from every other, and what it
has told need not hold any more at the next system call (`force_shuts_another`).  These are the only
two ways, and each of them ends with the shutdown of another connection if nothing comes in between
(`force_touches_own_connection`).
-/

namespace ReactorRuntime

/-- `asio::ip::address` -/
inductive Address
  | v4 (bits : BitVec 32)
  | v6 (bits : BitVec 128) (scope : BitVec 32)
  deriving DecidableEq, Repr

/-- `asio::ip::tcp::endpoint` -/
structure Endpoint where
  address : Address
  port : BitVec 16
  deriving DecidableEq, Repr

/-- A connection of the process. -/
structure Wire where
  localEnd : Endpoint
  peerEnd : Endpoint
  /-- A descriptor names it. -/
  isOpen : Bool
  /-- The peer has not reset it. -/
  connected : Bool
  /-- A record: a `force()` has shut it down. -/
  shut : Bool
  deriving DecidableEq, Repr

/-- `SessionControl` -/
structure SessionControl where
  descriptor : ℕ
  peer : Endpoint
  /-- A record: the connection that the session was accepted with. -/
  own : ℕ
  deriving DecidableEq, Repr

/-- Where a `force()` stands. -/
inductive ForcePc
  | idle
  /-- Before `::shutdown(descriptor, SHUT_RDWR)`. -/
  | matched
  deriving DecidableEq, Repr

/-- The connections of a process and its sessions. -/
structure Process where
  /-- The connections, in the order in which they were made. -/
  wire : ℕ → Wire
  made : ℕ
  /-- The connection that a descriptor names. -/
  names : ℕ → Option ℕ
  /-- The sessions, in the order in which they were accepted. -/
  control : ℕ → SessionControl
  accepted : ℕ
  force : ℕ → ForcePc

namespace Process

/-- What can happen next. -/
inductive Act
  /-- A session is accepted on descriptor `d`. -/
  | accept (d : ℕ) (localEnd peerEnd : Endpoint)
  /-- Another connection comes to be on descriptor `d`. -/
  | connect (d : ℕ) (localEnd peerEnd : Endpoint)
  | close (d : ℕ)
  /-- The peer resets connection `c`. -/
  | reset (c : ℕ)
  /-- `force()` of session `k` calls `getpeername` and compares. -/
  | peek (k : ℕ)
  /-- `force()` of session `k` calls `shutdown`. -/
  | shut (k : ℕ)
  deriving DecidableEq

/-- What the tables hold where nothing was made. -/
def nowhere : Endpoint := ⟨.v4 0, 0⟩

def initial : Process where
  wire _ := ⟨nowhere, nowhere, false, false, false⟩
  made := 0
  names _ := none
  control _ := ⟨0, nowhere, 0⟩
  accepted := 0
  force _ := .idle

variable {s t : Process}

/-- Descriptor `d` is free, and no open connection has these endpoints. -/
def Free (s : Process) (d : ℕ) (localEnd peerEnd : Endpoint) : Prop :=
  s.names d = none ∧
    ∀ c < s.made, (s.wire c).isOpen = true →
      ¬((s.wire c).localEnd = localEnd ∧ (s.wire c).peerEnd = peerEnd)

instance (s : Process) (d : ℕ) (l p : Endpoint) : Decidable (s.Free d l p) :=
  inferInstanceAs (Decidable (_ ∧ _))

/-- A connection is made on descriptor `d`. -/
def connect (s : Process) (d : ℕ) (localEnd peerEnd : Endpoint) : Process :=
  { s with
    wire := Function.update s.wire s.made ⟨localEnd, peerEnd, true, true, false⟩
    made := s.made + 1
    names := Function.update s.names d (some s.made) }

@[simp] lemma connect_control (d : ℕ) (l p : Endpoint) :
    (s.connect d l p).control = s.control := rfl

@[simp] lemma connect_force (d : ℕ) (l p : Endpoint) : (s.connect d l p).force = s.force := rfl

/-- `getpeername` -/
def getpeername (s : Process) (d : ℕ) : Option Endpoint :=
  (s.names d).bind fun c => if (s.wire c).connected then some (s.wire c).peerEnd else none

/-- `shutdown`; it fails on what is not connected. -/
def shutdown (s : Process) (d : ℕ) : Process :=
  match s.names d with
  | none => s
  | some c =>
      { s with
        wire := Function.update s.wire c
          { s.wire c with shut := (s.wire c).shut || (s.wire c).connected } }

@[simp] lemma shutdown_names (d : ℕ) : (s.shutdown d).names = s.names := by
  unfold shutdown
  split <;> rfl

@[simp] lemma shutdown_control (d : ℕ) : (s.shutdown d).control = s.control := by
  unfold shutdown
  split <;> rfl

@[simp] lemma shutdown_force (d : ℕ) : (s.shutdown d).force = s.force := by
  unfold shutdown
  split <;> rfl

lemma shutdown_wire_of_ne {d c : ℕ} (h : s.names d ≠ some c) :
    (s.shutdown d).wire c = s.wire c := by
  unfold shutdown
  split
  · rfl
  · next x hx =>
      have hne : c ≠ x := by
        intro heq
        exact h (heq ▸ hx)
      exact Function.update_of_ne hne _ _

lemma shutdown_wire {d c : ℕ} (h : s.names d = some c) (hconnected : (s.wire c).connected = true) :
    ((s.shutdown d).wire c).shut = true := by
  simp [shutdown, h, hconnected]

/-- One action. -/
def step (s : Process) : Act → Option Process
  | .accept d l p =>
      if s.Free d l p then
        some { s.connect d l p with
          control := Function.update s.control s.accepted ⟨d, p, s.made⟩
          accepted := s.accepted + 1 }
      else none
  | .connect d l p => if s.Free d l p then some (s.connect d l p) else none
  | .close d =>
      (s.names d).map fun c =>
        { s with
          wire := Function.update s.wire c { s.wire c with isOpen := false }
          names := Function.update s.names d none }
  | .reset c =>
      if c < s.made then
        some { s with wire := Function.update s.wire c { s.wire c with connected := false } }
      else none
  | .peek k =>
      if k < s.accepted ∧ s.force k = .idle then
        let matched := s.getpeername (s.control k).descriptor = some (s.control k).peer
        some { s with force := Function.update s.force k (if matched then .matched else .idle) }
      else none
  | .shut k =>
      if s.force k = .matched then
        some { s.shutdown (s.control k).descriptor with force := Function.update s.force k .idle }
      else none

/-- The process as a machine. -/
def machine : Machine Process Act where
  init := initial
  step := step

/-- `shutdown_connection`, when nothing comes between its two system calls. -/
def shutdownConnection (s : Process) (d : ℕ) (peer : Endpoint) : Process :=
  if s.getpeername d = some peer then s.shutdown d else s

/-! ## What carries the result -/

/-- What the descriptor names is what the session was accepted with, unless it is not connected or
has another peer; and a number whose peer was found to be the right one is not used again before the
shutdown. -/
def Tells (s : Process) : Act → Prop
  | .peek k =>
      ∀ c ∈ s.names (s.control k).descriptor, (s.wire c).connected = true →
        (s.wire c).peerEnd = (s.control k).peer → c = (s.control k).own
  | .accept d _ _ => ∀ k < s.accepted, s.force k = .matched → (s.control k).descriptor ≠ d
  | .connect d _ _ => ∀ k < s.accepted, s.force k = .matched → (s.control k).descriptor ≠ d
  | _ => True

instance (s : Process) : (act : Act) → Decidable (s.Tells act)
  | .peek _ => inferInstanceAs (Decidable (∀ c ∈ _, _))
  | .accept _ _ _ => inferInstanceAs (Decidable (∀ k < _, _))
  | .connect _ _ _ => inferInstanceAs (Decidable (∀ k < _, _))
  | .close _ => .isTrue trivial
  | .reset _ => .isTrue trivial
  | .shut _ => .isTrue trivial

/-- What holds in every run. -/
structure Kept (s : Process) : Prop where
  /-- A connection that is not made yet was not shut down. -/
  unmade : ∀ c, s.made ≤ c → (s.wire c).shut = false
  own : ∀ k < s.accepted, (s.control k).own < s.made ∧
    (s.wire (s.control k).own).peerEnd = (s.control k).peer
  named : ∀ d c, s.names d = some c → c < s.made
  forced : ∀ k, s.force k = .matched → k < s.accepted

/-- A number whose peer was found to be the right one names the session's own connection or
nothing. -/
def Aimed (s : Process) : Prop :=
  ∀ k, s.force k = .matched →
    ∀ c, s.names (s.control k).descriptor = some c → c = (s.control k).own

lemma Kept.initial : Kept Process.initial where
  unmade _ _ := rfl
  own _ hk := absurd hk (Nat.not_lt_zero _)
  named _ _ h := by cases h
  forced _ h := by cases h

/-- A change to a connection that leaves its peer alone, and is no shutdown of one that is not
made. -/
lemma Kept.rewire (h : Kept s) {c : ℕ} {w : Wire} (hpeer : w.peerEnd = (s.wire c).peerEnd)
    (hshut : s.made ≤ c → w.shut = false) :
    Kept { s with wire := Function.update s.wire c w } where
  unmade x hx := by
    by_cases heq : x = c
    · subst heq
      simpa using hshut hx
    · simpa [heq] using h.unmade x hx
  own k hk := by
    obtain ⟨hlt, hp⟩ := h.own k hk
    refine ⟨hlt, ?_⟩
    by_cases heq : (s.control k).own = c
    · rw [heq] at hp
      simpa [heq, hpeer] using hp
    · simpa [heq] using hp
  named := h.named
  forced := h.forced

lemma Kept.connect (h : Kept s) (d : ℕ) (l p : Endpoint) : Kept (s.connect d l p) where
  unmade c hc := by
    have hc : s.made + 1 ≤ c := hc
    have hne : c ≠ s.made := by omega
    simpa [Process.connect, hne] using h.unmade c (by omega)
  own k hk := by
    obtain ⟨hlt, hp⟩ := h.own k hk
    have hne : (s.control k).own ≠ s.made := by omega
    exact ⟨Nat.lt_succ_of_lt hlt, by simpa [Process.connect, hne] using hp⟩
  named x c hx := by
    by_cases heq : x = d
    · have hc : s.made = c := by simpa [Process.connect, heq] using hx
      exact hc ▸ Nat.lt_succ_self _
    · exact Nat.lt_succ_of_lt (h.named x c (by simpa [Process.connect, heq] using hx))
  forced := h.forced

lemma Kept.shutdown (h : Kept s) (d : ℕ) : Kept (s.shutdown d) := by
  unfold Process.shutdown
  split
  · exact h
  · next c hc => exact h.rewire rfl fun hle => absurd (h.named d c hc) (by omega)

lemma Kept.step (h : Kept s) {act : Act} (hstep : machine.step s act = some t) : Kept t := by
  cases act with
  | accept d l p =>
      obtain ⟨-, hstep⟩ := Option.ite_none_right_eq_some.mp hstep
      cases hstep
      have hc := h.connect d l p
      refine ⟨hc.unmade, fun k hk => ?_, hc.named, fun k hk => Nat.lt_succ_of_lt (h.forced k hk)⟩
      by_cases heq : k = s.accepted
      · subst heq
        simp [Process.connect]
      · have hk' : k < s.accepted := by
          have : k < s.accepted + 1 := hk
          omega
        simpa [heq] using hc.own k hk'
  | connect d l p =>
      obtain ⟨-, hstep⟩ := Option.ite_none_right_eq_some.mp hstep
      cases hstep
      exact h.connect d l p
  | close d =>
      obtain ⟨c, hc, rfl⟩ := Option.map_eq_some_iff.mp hstep
      have hw := h.rewire (c := c) (w := { s.wire c with isOpen := false }) rfl (h.unmade c)
      refine ⟨hw.unmade, hw.own, fun x y hx => ?_, h.forced⟩
      by_cases heq : x = d
      · simp [heq] at hx
      · exact h.named x y (by simpa [heq] using hx)
  | reset c =>
      obtain ⟨-, hstep⟩ := Option.ite_none_right_eq_some.mp hstep
      cases hstep
      exact h.rewire rfl (h.unmade c)
  | peek k =>
      obtain ⟨⟨hk, -⟩, hstep⟩ := Option.ite_none_right_eq_some.mp hstep
      cases hstep
      refine ⟨h.unmade, h.own, h.named, fun x hx => ?_⟩
      by_cases heq : x = k
      · exact heq ▸ hk
      · exact h.forced x (by simpa [heq] using hx)
  | shut k =>
      obtain ⟨-, hstep⟩ := Option.ite_none_right_eq_some.mp hstep
      cases hstep
      have hd := h.shutdown (s.control k).descriptor
      refine ⟨hd.unmade, hd.own, hd.named, fun x hx => hd.forced x ?_⟩
      by_cases heq : x = k
      · simp [heq] at hx
      · simpa [heq] using hx

/-- The table changes at one descriptor, where no checked `force()` is under way. -/
lemma Aimed.rename (h : Aimed s) (hk : Kept s) {d : ℕ} {o : Option ℕ}
    (hnames : t.names = Function.update s.names d o) (hforce : t.force = s.force)
    (hcontrol : ∀ k < s.accepted, t.control k = s.control k)
    (hfree : o = none ∨ ∀ k < s.accepted, s.force k = .matched → (s.control k).descriptor ≠ d) :
    Aimed t := by
  intro k hm c hc
  rw [hforce] at hm
  have hlt := hk.forced k hm
  rw [hcontrol k hlt] at hc ⊢
  rw [hnames] at hc
  by_cases heq : (s.control k).descriptor = d
  · rcases hfree with rfl | hfree
    · simp [heq] at hc
    · exact absurd heq (hfree k hlt hm)
  · exact h k hm c (by simpa [heq] using hc)

lemma Aimed.step (h : Aimed s) (hk : Kept s) {act : Act} (hok : s.Tells act)
    (hstep : machine.step s act = some t) : Aimed t := by
  cases act with
  | accept d l p =>
      obtain ⟨-, hstep⟩ := Option.ite_none_right_eq_some.mp hstep
      cases hstep
      exact h.rename hk rfl rfl (fun k hlt => by simp [Nat.ne_of_lt hlt]) (.inr hok)
  | connect d l p =>
      obtain ⟨-, hstep⟩ := Option.ite_none_right_eq_some.mp hstep
      cases hstep
      exact h.rename hk rfl rfl (fun _ _ => rfl) (.inr hok)
  | close d =>
      obtain ⟨c, hc, rfl⟩ := Option.map_eq_some_iff.mp hstep
      exact h.rename hk rfl rfl (fun _ _ => rfl) (.inl rfl)
  | reset c =>
      obtain ⟨-, hstep⟩ := Option.ite_none_right_eq_some.mp hstep
      cases hstep
      exact h
  | peek k =>
      obtain ⟨-, hstep⟩ := Option.ite_none_right_eq_some.mp hstep
      cases hstep
      intro x hx c hc
      by_cases heq : x = k
      · subst heq
        -- the number was found to name a connection with the right peer
        have hmatch : s.getpeername (s.control x).descriptor = some (s.control x).peer := by
          by_contra hno
          simp [hno] at hx
        have hc : s.names (s.control x).descriptor = some c := hc
        simp only [getpeername, hc, Option.bind_some] at hmatch
        obtain ⟨hconnected, hpeer⟩ := Option.ite_none_right_eq_some.mp hmatch
        exact hok c hc hconnected (Option.some.inj hpeer)
      · exact h x (by simpa [heq] using hx) c hc
  | shut k =>
      obtain ⟨-, hstep⟩ := Option.ite_none_right_eq_some.mp hstep
      cases hstep
      intro x hx c hc
      by_cases heq : x = k
      · simp [heq] at hx
      · simpa using h x (by simpa [heq] using hx) c (by simpa using hc)

lemma aimed_of_reachable (hs : machine.ReachableUnder Tells s) : Aimed s ∧ Kept s :=
  hs.invariant (I := fun s => Aimed s ∧ Kept s) ⟨(fun _ h => by cases h), .initial⟩
    fun _ _ _ h hok hstep => ⟨h.1.step h.2 hok hstep, h.2.step hstep⟩

/-! ## The result -/

/-- A `force()` with nothing between its two system calls is `shutdown_connection`. -/
lemma leads_shutdownConnection {k : ℕ} (hk : k < s.accepted) (hidle : s.force k = .idle) :
    machine.Leads s (s.shutdownConnection (s.control k).descriptor (s.control k).peer) := by
  have hback : ∀ pc, Function.update (Function.update s.force k pc) k .idle = s.force := by
    intro pc
    rw [Function.update_idem, ← hidle, Function.update_eq_self]
  unfold shutdownConnection
  split
  · next hmatch =>
      refine .tail (.single ⟨.peek k, trivial, if_pos ⟨hk, hidle⟩⟩) ⟨.shut k, trivial, ?_⟩
      simp only [hmatch, if_true]
      refine (if_pos (by simp)).trans (congrArg some ?_)
      cases hn : s.names (s.control k).descriptor <;> simp [shutdown, hn, hback]
  · next hmatch =>
      refine .single ⟨.peek k, trivial, (if_pos ⟨hk, hidle⟩).trans (congrArg some ?_)⟩
      simp only [hmatch, if_false]
      rw [← hidle, Function.update_eq_self]

lemma Aimed.shutdown_wire (h : Aimed s) {k c : ℕ} (hm : s.force k = .matched)
    (hc : c ≠ (s.control k).own) : (s.shutdown (s.control k).descriptor).wire c = s.wire c :=
  shutdown_wire_of_ne fun hn => hc (h k hm c hn)

lemma shut_of_step (h : Kept s) {act : Act} (hstep : machine.step s act = some t)
    (hact : ∀ k, act ≠ .shut k) (c : ℕ) : (t.wire c).shut = (s.wire c).shut := by
  have made : ∀ d l p, ((s.connect d l p).wire c).shut = (s.wire c).shut := by
    intro d l p
    by_cases heq : c = s.made
    · simp [Process.connect, heq, h.unmade s.made (Nat.le_refl _)]
    · simp [Process.connect, heq]
  have rewired : ∀ x w, w.shut = (s.wire x).shut →
      (Function.update s.wire x w c).shut = (s.wire c).shut := by
    intro x w hw
    by_cases heq : c = x
    · simp [heq, hw]
    · simp [heq]
  cases act with
  | accept d l p =>
      obtain ⟨-, hstep⟩ := Option.ite_none_right_eq_some.mp hstep
      cases hstep
      exact made d l p
  | connect d l p =>
      obtain ⟨-, hstep⟩ := Option.ite_none_right_eq_some.mp hstep
      cases hstep
      exact made d l p
  | close d =>
      obtain ⟨x, -, rfl⟩ := Option.map_eq_some_iff.mp hstep
      exact rewired x _ rfl
  | reset x =>
      obtain ⟨-, hstep⟩ := Option.ite_none_right_eq_some.mp hstep
      cases hstep
      exact rewired x _ rfl
  | peek k =>
      obtain ⟨-, hstep⟩ := Option.ite_none_right_eq_some.mp hstep
      cases hstep
      rfl
  | shut k => exact absurd rfl (hact k)

/-- The `force()` of a session is past its check, and its descriptor names a connection that is not
the session's own. -/
def Astray (s : Process) (k c : ℕ) : Prop :=
  s.force k = .matched ∧ s.names (s.control k).descriptor = some c ∧ c ≠ (s.control k).own ∧
    (s.wire c).connected = true

lemma Astray.shuts {k c : ℕ} (h : s.Astray k c) :
    ∃ t, machine.step s (.shut k) = some t ∧ (t.wire c).shut = true := by
  obtain ⟨hmatched, hnames, -, hconnected⟩ := h
  exact ⟨_, if_pos hmatched, shutdown_wire hnames hconnected⟩

/-- A connection comes to a number whose peer was found to be the right one. -/
lemma astray_of_connect (hk : Kept s) {d k : ℕ} {l p : Endpoint} (hlt : k < s.accepted)
    (hmatched : s.force k = .matched) (hd : (s.control k).descriptor = d) :
    (s.connect d l p).Astray k s.made := by
  refine ⟨hmatched, ?_, Nat.ne_of_gt (hk.own k hlt).1, ?_⟩
  · simp [Process.connect, hd]
  · simp [Process.connect]

/-- A step that breaks the condition leads a `force()` astray. -/
lemma astray_of_break (hk : Kept s) {act : Act} (hbreak : ¬ s.Tells act)
    (hstep : machine.step s act = some t) : ∃ k c, t.Astray k c := by
  cases act with
  | accept d l p =>
      simp only [Tells, not_forall, not_not] at hbreak
      obtain ⟨k, hlt, hmatched, hd⟩ := hbreak
      obtain ⟨-, hstep⟩ := Option.ite_none_right_eq_some.mp hstep
      cases hstep
      have hastray := astray_of_connect (l := l) (p := p) hk hlt hmatched hd
      refine ⟨k, s.made, ?_⟩
      simpa [Astray, Nat.ne_of_lt hlt] using hastray
  | connect d l p =>
      simp only [Tells, not_forall, not_not] at hbreak
      obtain ⟨k, hlt, hmatched, hd⟩ := hbreak
      obtain ⟨-, hstep⟩ := Option.ite_none_right_eq_some.mp hstep
      cases hstep
      exact ⟨k, s.made, astray_of_connect hk hlt hmatched hd⟩
  | peek k =>
      simp only [Tells, not_forall] at hbreak
      obtain ⟨c, hnames, hconnected, hpeer, hne⟩ := hbreak
      obtain ⟨-, hstep⟩ := Option.ite_none_right_eq_some.mp hstep
      cases hstep
      have hmatch : s.getpeername (s.control k).descriptor = some (s.control k).peer := by
        simp [getpeername, Option.mem_def.mp hnames, hconnected, hpeer]
      exact ⟨k, c, by simp [hmatch], hnames, hne, hconnected⟩
  | close d | reset c | shut k => exact absurd trivial hbreak

/-- **A forced shutdown touches the session's own connection only.**  In every run in which the
peer tells the session's connection from what its descriptor names, and no number is used again
between the check and the shutdown, a `force()` leaves the table and every connection but the
session's own as they are, nothing else shuts a connection down, and it does shut down the
session's own if the descriptor still names that and it is connected.  The condition is exact: a
step that breaks it leaves a `force()` whose next system call shuts down another connection. -/
theorem force_touches_own_connection (hs : machine.ReachableUnder Tells s) {act : Act}
    (hstep : machine.step s act = some t) :
    (s.Tells act →
      (∀ k, act = .peek k ∨ act = .shut k →
        t.names = s.names ∧ ∀ c, c ≠ (s.control k).own → t.wire c = s.wire c) ∧
      (∀ c, (t.wire c).shut ≠ (s.wire c).shut → ∃ k, act = .shut k ∧ c = (s.control k).own) ∧
      ∀ k, s.names (s.control k).descriptor = some (s.control k).own →
        (s.wire (s.control k).own).connected = true →
        (act = .peek k → t.force k = .matched) ∧
        (act = .shut k → (t.wire (s.control k).own).shut = true)) ∧
    (¬ s.Tells act → ∃ k c u, c ≠ (t.control k).own ∧ machine.step t (.shut k) = some u ∧
      (u.wire c).shut = true) := by
  obtain ⟨haimed, hkept⟩ := aimed_of_reachable hs
  refine ⟨fun _ => ?_, fun hbreak => ?_⟩
  case refine_2 =>
    obtain ⟨k, c, hastray⟩ := astray_of_break hkept hbreak hstep
    obtain ⟨u, hu, hshut⟩ := hastray.shuts
    exact ⟨k, c, u, hastray.2.2.1, hu, hshut⟩
  have peeks : ∀ k, act = .peek k → k < s.accepted ∧ t = { s with
      force := Function.update s.force k
        (if s.getpeername (s.control k).descriptor = some (s.control k).peer then .matched
          else .idle) } := by
    rintro k rfl
    obtain ⟨⟨hk, -⟩, hstep⟩ := Option.ite_none_right_eq_some.mp hstep
    exact ⟨hk, (Option.some.inj hstep).symm⟩
  have shuts : ∀ k, act = .shut k → s.force k = .matched ∧
      t = { s.shutdown (s.control k).descriptor with
        force := Function.update s.force k .idle } := by
    rintro k rfl
    obtain ⟨hm, hstep⟩ := Option.ite_none_right_eq_some.mp hstep
    exact ⟨hm, (Option.some.inj hstep).symm⟩
  refine ⟨fun k hact => ?_, fun c hne => ?_, fun k hnames hconnected => ⟨fun hact => ?_,
    fun hact => ?_⟩⟩
  · rcases hact with hact | hact
    · obtain ⟨-, rfl⟩ := peeks k hact
      exact ⟨rfl, fun _ _ => rfl⟩
    · obtain ⟨hm, rfl⟩ := shuts k hact
      exact ⟨shutdown_names _, fun c hc => haimed.shutdown_wire hm hc⟩
  · have hexists : ∃ k, act = .shut k := by
      by_contra hno
      exact hne (shut_of_step hkept hstep (fun k hk => hno ⟨k, hk⟩) c)
    obtain ⟨k, hact⟩ := hexists
    obtain ⟨hm, rfl⟩ := shuts k hact
    refine ⟨k, hact, ?_⟩
    by_contra hc
    exact hne (congrArg Wire.shut (haimed.shutdown_wire hm hc))
  · obtain ⟨hk, rfl⟩ := peeks k hact
    have hpeer : s.getpeername (s.control k).descriptor = some (s.control k).peer := by
      simp [getpeername, hnames, hconnected, (hkept.own k hk).2]
    simp [hpeer]
  · obtain ⟨-, rfl⟩ := shuts k hact
    exact shutdown_wire hnames hconnected

/-- A client's endpoint, two listeners of the process, and another client. -/
def client : Endpoint := ⟨.v4 0x0a000001, 5000⟩

def listener : Endpoint := ⟨.v4 0x0a000002, 80⟩

def otherListener : Endpoint := ⟨.v4 0x0a000002, 81⟩

def otherClient : Endpoint := ⟨.v4 0x0a000003, 5000⟩

/-- The session closes its socket; the same client connects to another listener from the same port,
and the number is used again; then the session is forced. -/
def samePeerRun : List Act :=
  [.accept 7 listener client, .close 7, .accept 7 otherListener client, .peek 0, .shut 0]

/-- The session closes its socket, and the number is used again, between the two system calls. -/
def betweenRun : List Act :=
  [.accept 7 listener client, .peek 0, .close 7, .connect 7 listener otherClient, .shut 0]

/-- A forced shutdown ends a connection that is not the session's: one with the same peer, or one
that came to its descriptor between the check and the shutdown. -/
theorem force_shuts_another :
    (∃ s : Process, machine.Reachable s ∧ (s.control 0).own = 0 ∧
      ((s.wire 1).shut = true ∧ (s.wire 1).localEnd ≠ (s.wire 0).localEnd ∧
        (s.wire 0).shut = false)) ∧
    ∃ s : Process, machine.Reachable s ∧ (s.control 0).own = 0 ∧
      ((s.wire 1).shut = true ∧ (s.wire 1).peerEnd ≠ (s.wire 0).peerEnd ∧
        (s.wire 0).shut = false) := by
  constructor
  · obtain ⟨s, hs, htest⟩ := machine.exists_reachable_of_run samePeerRun
      (fun s => decide ((s.control 0).own = 0 ∧ (s.wire 1).shut = true ∧
        (s.wire 1).localEnd ≠ (s.wire 0).localEnd ∧ (s.wire 0).shut = false)) (by decide +kernel)
    exact ⟨s, hs, of_decide_eq_true htest⟩
  · obtain ⟨s, hs, htest⟩ := machine.exists_reachable_of_run betweenRun
      (fun s => decide ((s.control 0).own = 0 ∧ (s.wire 1).shut = true ∧
        (s.wire 1).peerEnd ≠ (s.wire 0).peerEnd ∧ (s.wire 0).shut = false)) (by decide +kernel)
    exact ⟨s, hs, of_decide_eq_true htest⟩

/-- Two sessions are accepted, and the first is forced while its connection is open. -/
theorem force_touches_own_connection_at_run :
    ∃ s t : Process, machine.ReachableUnder Tells s ∧ machine.step s (.shut 0) = some t ∧
      (s.made = 2 ∧ (s.control 0).own = 0) ∧ t.wire 1 = s.wire 1 ∧ (t.wire 0).shut = true := by
  obtain ⟨s, hs, htest⟩ := machine.exists_reachableUnder_of_run (fun s act => decide (s.Tells act))
    (fun _ _ => of_decide_eq_true)
    [.accept 7 listener client, .accept 8 listener otherClient, .peek 0]
    (fun s => decide ((s.made = 2 ∧ (s.control 0).own = 0) ∧
      s.names (s.control 0).descriptor = some (s.control 0).own ∧
      (s.wire (s.control 0).own).connected = true ∧ (machine.step s (.shut 0)).isSome = true))
    (by decide +kernel)
  obtain ⟨hstate, hnames, hconnected, hsome⟩ := of_decide_eq_true htest
  obtain ⟨t, ht⟩ := Option.isSome_iff_exists.mp hsome
  obtain ⟨htouch, -, hown⟩ := (force_touches_own_connection hs ht).1 trivial
  refine ⟨s, t, hs, ht, hstate, (htouch 0 (.inr rfl)).2 1 ?_, ?_⟩
  · rw [hstate.2]
    exact Nat.one_ne_zero
  · have hshut := (hown 0 hnames hconnected).2 rfl
    rwa [hstate.2] at hshut

end Process

end ReactorRuntime
