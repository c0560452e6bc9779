import ReactorRuntime.Library.Simulation
import ReactorRuntime.Udp.UdpServer

/-!
# What a failed `start()` leaves behind

`UdpServer::start()` (`reactor_udp.h:97-157`) opens the socket, sets it up, binds it, joins the
multicast group and spawns the receive loop.  Each of these can throw, and only the construction of
the thread, the last of them, has a `catch`.  A caller that is told of a failed bind may want to try
another port.  It can if and only if no socket was opened (`restored_iff_failed_before_open`): a
`start()` that fails before that leaves the server as it was, and the next one goes through; from
then on the open socket is left behind, and every further `start()` fails at its `open`.  A failed
spawn leaves the group's endpoint too (`failed_start_leaves_residue`).

The machine has the owner's steps of `start()`, with the port that is asked for and
`group_endpoint_`.
-/

namespace ReactorRuntime

/-- A datagram server whose owner is in `start()`, or between calls. -/
structure UdpStarter where
  server : Udp
  /-- The argument of the last `start()`. -/
  port : ℕ
  /-- `group_endpoint_`, or `none` before it has been set. -/
  group : Option (String × ℕ)

namespace UdpStarter

/-- What can happen next. -/
inductive Act
  | start (port : ℕ)
  /-- The next statement of `start()`; where it can fail, `ok` says whether it does not. -/
  | own (ok : Bool)
  deriving DecidableEq, Repr

def initial : UdpStarter where
  server := .initial
  port := 0
  group := none

/-- `start()` is about to join the group. -/
def joining : UdpPc → Bool
  | .setup (.joinGroup :: _) => true
  | _ => false

/-- One action. -/
def step (o : UdpOptions) (s : UdpStarter) : Act → Option UdpStarter
  | .start port =>
      (s.server.step o .callStart).map fun t => { s with server := t, port := port }
  | .own ok =>
      (s.server.step o (.own ok)).map fun t =>
        { s with
          server := t
          -- the assignment follows the join
          group := if joining s.server.pc && ok then some (o.multicastGroup, s.port) else s.group }

/-- The owner of a datagram server as a machine. -/
def machine (o : UdpOptions) : Machine UdpStarter Act where
  init := initial
  step := step o

/-- The server has nothing of an earlier `start()` left. -/
structure Startable (s : UdpStarter) : Prop where
  idle : Udp.isDone s.server.pc = true
  closed : s.server.isOpen = false
  receive : s.server.receive.live = false
  thread : s.server.thread.joinable = false
  loops_ : s.server.loops_ = 0

instance (s : UdpStarter) : Decidable s.Startable :=
  decidable_of_iff
    (Udp.isDone s.server.pc = true ∧ s.server.isOpen = false ∧ s.server.receive.live = false ∧
      s.server.thread.joinable = false ∧ s.server.loops_ = 0)
    ⟨fun ⟨h₁, h₂, h₃, h₄, h₅⟩ => ⟨h₁, h₂, h₃, h₄, h₅⟩, fun h => ⟨h.1, h.2, h.3, h.4, h.5⟩⟩

/-- A call of `start()`, with what becomes of its statements. -/
def call (port : ℕ) (oks : List Bool) : List Act := .start port :: oks.map .own

/-- The first `k` statements succeed, and the next one fails. -/
def failAfter (k : ℕ) : List Bool := List.replicate k true ++ [false]

variable {o : UdpOptions} {s t : UdpStarter} {port k : ℕ} {oks : List Bool}

/-- The server `s` after a call for `port` that changed nothing and ended with `how`. -/
def after (s : UdpStarter) (port : ℕ) (how : UdpEnding) : UdpStarter :=
  { s with server := { s.server with pc := .done how }, port := port }

lemma Startable.after (hs : s.Startable) (port : ℕ) (how : UdpEnding) :
    (s.after port how).Startable :=
  ⟨rfl, hs.closed, hs.receive, hs.thread, hs.loops_⟩

/-! ## The server's part of a call -/

lemma run_call (hidle : Udp.isDone s.server.pc = true) :
    (machine o).run s (call port oks) =
      (machine o).run { s with server := { s.server with pc := .address }, port := port }
        (oks.map .own) := by
  have hstart : (machine o).step s (.start port) =
      some { s with server := { s.server with pc := .address }, port := port } := by
    simp [machine, step, Udp.step, hidle]
  rw [call, Machine.run_cons, hstart, Option.bind_some]

/-- The group's endpoint does not decide what the server does. -/
lemma run_of_server {u : Udp} (hrun : (Udp.machine o).run s.server (oks.map .own) = some u) :
    ∃ group, (machine o).run s (oks.map .own) = some { s with server := u, group := group } := by
  induction oks generalizing s with
  | nil =>
      cases hrun
      exact ⟨s.group, rfl⟩
  | cons ok oks ih =>
      rw [List.map_cons, Machine.run_cons] at hrun
      obtain ⟨v, hv, hrest⟩ := Option.bind_eq_some_iff.mp hrun
      have hstep : (machine o).step s (.own ok) = some { s with
          server := v
          group := if joining s.server.pc && ok then some (o.multicastGroup, s.port)
            else s.group } := Option.map_eq_some_iff.mpr ⟨v, hv, rfl⟩
      rw [List.map_cons, Machine.run_cons, hstep, Option.bind_some]
      exact ih hrest

lemma server_of_run (hrun : (machine o).run s (oks.map .own) = some t) :
    (Udp.machine o).run s.server (oks.map .own) = some t.server := by
  induction oks generalizing s with
  | nil =>
      cases hrun
      rfl
  | cons ok oks ih =>
      rw [List.map_cons, Machine.run_cons] at hrun
      obtain ⟨v, hv, hrest⟩ := Option.bind_eq_some_iff.mp hrun
      obtain ⟨u, hu, rfl⟩ := Option.map_eq_some_iff.mp hv
      rw [List.map_cons, Machine.run_cons]
      exact Option.bind_eq_some_iff.mpr ⟨u, hu, ih hrest⟩

lemma run_address (hs : s.Startable) (ok : Bool) :
    (machine o).run s (call port (ok :: oks)) =
      (machine o).run
        { s with
          server := { s.server with
            pc := if ok || o.address.isEmpty then .open_ else .done .threw }
          port := port }
        (oks.map .own) := by
  rw [run_call hs.idle, List.map_cons, Machine.run_cons]
  rfl

/-- The server `s` in a call for `port` that is about to open the socket. -/
def opening (s : UdpStarter) (port : ℕ) : UdpStarter :=
  { s with server := { s.server with pc := .open_ }, port := port }

lemma run_address_ok (hs : s.Startable) :
    (machine o).run s (call port (true :: oks)) =
      (machine o).run (s.opening port) (oks.map .own) :=
  run_address hs true

/-! ## A failure before the socket is open -/

/-- A call that fails for its address or its socket changes nothing. -/
lemma eq_after_of_early (hs : s.Startable) (hk : k ≤ 1)
    (hrun : (machine o).run s (call port (failAfter k)) = some t)
    (hthrew : t.server.pc = .done .threw) : t = s.after port .threw := by
  rcases Nat.le_one_iff_eq_zero_or_eq_one.mp hk with rfl | rfl
  · -- the address does not parse
    rw [failAfter, List.replicate_zero, List.nil_append, run_address hs] at hrun
    split at hrun
    · cases hrun
      exact UdpPc.noConfusion hthrew
    · cases hrun
      rfl
  · -- the socket cannot be opened
    rw [failAfter, List.replicate_one, List.singleton_append, run_address hs] at hrun
    cases hrun
    rfl

end UdpStarter

/-! ## A call that succeeds -/

namespace Udp

variable {o : UdpOptions} {s : Udp}

lemma run_setup {rest : List UdpSetup} (hpc : s.pc = .setup rest) :
    (machine o).run s (List.replicate rest.length (.own true)) =
      some { s with pc := .setup [] } := by
  induction rest generalizing s with
  | nil =>
      rw [← hpc]
      rfl
  | cons st rest ih =>
      rw [List.length_cons, List.replicate_succ, Machine.run_cons]
      have hstep : (machine o).step s (.own true) = some { s with pc := .setup rest } := by
        simp [machine, step, ownStep, startStep, hpc]
      rw [hstep, Option.bind_some]
      exact ih rfl

lemma step_open (hpc : s.pc = .open_) (hclosed : s.isOpen = false) :
    (machine o).step s (.own true) = some { s with isOpen := true, pc := .setup o.setup } := by
  simp [machine, step, ownStep, startStep, hpc, hclosed]

/-- A socket that is not open is opened, set up and bound, and the receive loop gets its thread. -/
lemma run_start (hpc : s.pc = .open_) (hclosed : s.isOpen = false) :
    ∃ n u, (machine o).run s (List.replicate n (.own true)) = some u ∧ u.pc = .done .started := by
  -- the spawn, the claim and the thread come after the setup
  refine ⟨o.setup.length + 4 + 1, ?_⟩
  rw [List.replicate_succ, Machine.run_cons, step_open hpc hclosed, Option.bind_some,
    ← List.replicate_append_replicate, Machine.run_append, run_setup rfl]
  exact ⟨_, rfl, rfl⟩

lemma isOpen_of_run {oks : List Bool} {t : Udp} (hopen : s.isOpen = true)
    (hrun : (machine o).run s (oks.map .own) = some t) : t.isOpen = true := by
  induction oks generalizing s with
  | nil =>
      cases hrun
      exact hopen
  | cons ok oks ih =>
      rw [List.map_cons, Machine.run_cons] at hrun
      obtain ⟨u, hu, hrest⟩ := Option.bind_eq_some_iff.mp hrun
      apply ih _ hrest
      cases move_of_step hu with
      | opens hpc hclosed => rfl
      | _ => exact hopen

/-- `start()` with an open socket: it is before its `open`, or has failed. -/
def Barred (s : Udp) : Prop :=
  s.isOpen = true ∧ (s.pc = .address ∨ s.pc = .open_ ∨ s.pc = .done .threw)

lemma Barred.step {ok : Bool} {t : Udp} (hs : s.Barred)
    (hstep : (machine o).step s (.own ok) = some t) : t.Barred := by
  obtain ⟨hopen, hpc | hpc | hpc⟩ := hs
  · simp only [machine, Udp.step, ownStep, startStep, hpc, Option.some.injEq] at hstep
    subst hstep
    refine ⟨hopen, ?_⟩
    by_cases hok : (ok || o.address.isEmpty) = true
    · exact .inr (.inl (if_pos hok))
    · exact .inr (.inr (if_neg hok))
  · simp only [machine, Udp.step, ownStep, startStep, hpc, hopen, Bool.not_true, Bool.and_false,
      Bool.false_eq_true, if_false, Option.some.injEq] at hstep
    subst hstep
    exact ⟨rfl, .inr (.inr rfl)⟩
  · simp [machine, Udp.step, ownStep, hpc] at hstep

/-- An open socket is not opened again. -/
lemma Barred.run {oks : List Bool} {t : Udp} (hs : s.Barred)
    (hrun : (machine o).run s (oks.map .own) = some t) : t.Barred := by
  induction oks generalizing s with
  | nil =>
      cases hrun
      exact hs
  | cons ok oks ih =>
      rw [List.map_cons, Machine.run_cons] at hrun
      obtain ⟨u, hu, hrest⟩ := Option.bind_eq_some_iff.mp hrun
      exact ih (hs.step hu) hrest

end Udp

namespace UdpStarter

variable {o : UdpOptions} {s t : UdpStarter} {port k : ℕ}

lemma Startable.starts (hs : s.Startable) (o : UdpOptions) (port : ℕ) :
    ∃ n u, (machine o).run s (call port (List.replicate n true)) = some u ∧
      u.server.pc = .done .started := by
  obtain ⟨n, u, hu, hstarted⟩ :=
    Udp.run_start (o := o) (s := (s.opening port).server) rfl hs.closed
  rw [← List.map_replicate] at hu
  obtain ⟨group, hrun⟩ := run_of_server hu
  refine ⟨n + 1, { s.opening port with server := u, group := group }, ?_, hstarted⟩
  rw [List.replicate_succ, run_address_ok hs]
  exact hrun

lemma isOpen_of_late (hs : s.Startable)
    (hrun : (machine o).run s (call port (failAfter (2 + k))) = some t) :
    t.server.isOpen = true := by
  have hoks : failAfter (2 + k) = true :: true :: failAfter k := by
    rw [failAfter, Nat.add_comm, List.replicate_succ, List.replicate_succ]
    rfl
  rw [hoks, run_address_ok hs] at hrun
  have hserver := server_of_run hrun
  have hopen := Udp.step_open (o := o) (s := (s.opening port).server) rfl hs.closed
  rw [List.map_cons, Machine.run_cons, hopen, Option.bind_some] at hserver
  exact Udp.isOpen_of_run rfl hserver

lemma not_started_of_open {u : UdpStarter} {oks : List Bool} (hthrew : s.server.pc = .done .threw)
    (hopen : s.server.isOpen = true) (hrun : (machine o).run s (call port oks) = some u) :
    u.server.pc ≠ .done .started := by
  rw [run_call (by rw [hthrew]; rfl)] at hrun
  have hbarred : ({ s.server with pc := .address } : Udp).Barred := ⟨hopen, .inl rfl⟩
  obtain ⟨-, hpc | hpc | hpc⟩ := hbarred.run (server_of_run hrun) <;> simp [hpc]

lemma startable_iff_early (hs : s.Startable)
    (hrun : (machine o).run s (call port (failAfter k)) = some t)
    (hthrew : t.server.pc = .done .threw) : t.Startable ↔ k ≤ 1 := by
  constructor
  · intro ht
    rcases Nat.lt_or_ge 1 k with hlate | hearly
    · obtain ⟨k, rfl⟩ := Nat.exists_eq_add_of_le hlate
      have hopen := isOpen_of_late hs hrun
      exact absurd (hopen.symm.trans ht.closed) Bool.false_ne_true.symm
    · exact hearly
  · intro hk
    obtain rfl := eq_after_of_early hs hk hrun hthrew
    exact hs.after port .threw

/-- The server `t` after a failed `start()` is as `s` was before it, and can be started. -/
structure Restored (o : UdpOptions) (s t : UdpStarter) : Prop where
  startable : t.Startable
  group : t.group = s.group
  server : t.server = { s.server with pc := .done .threw }
  /-- If the system accepts all its steps, a further `start()` succeeds. -/
  again : ∀ port', ∃ n u, (machine o).run t (call port' (List.replicate n true)) = some u ∧
    u.server.pc = .done .started

/-- **A failed `start()` can be tried again if and only if it failed before it had opened the
socket.**  For every configuration: when the address does not parse or the socket cannot be opened,
the server is as it was, with the socket closed, the group's endpoint the one before, no receive
loop, thread or claim; after a failure of any later step no further `start()` succeeds, whatever
the system accepts. -/
theorem restored_iff_failed_before_open (o : UdpOptions) (hs : s.Startable)
    (hrun : (machine o).run s (call port (failAfter k)) = some t)
    (hthrew : t.server.pc = .done .threw) :
    (Restored o s t ↔ k ≤ 1) ∧
      ((∃ port' oks u, (machine o).run t (call port' oks) = some u ∧
        u.server.pc = .done .started) ↔ k ≤ 1) := by
  have hrestored : k ≤ 1 → Restored o s t := by
    intro hk
    obtain rfl := eq_after_of_early hs hk hrun hthrew
    have hstartable := hs.after port .threw
    exact ⟨hstartable, rfl, rfl, hstartable.starts o⟩
  refine ⟨⟨fun h => (startable_iff_early hs hrun hthrew).mp h.startable, hrestored⟩, ?_, ?_⟩
  · rintro ⟨port', oks, u, hagain, hstarted⟩
    rcases Nat.lt_or_ge 1 k with hlate | hearly
    · obtain ⟨k, rfl⟩ := Nat.exists_eq_add_of_le hlate
      exact absurd hstarted (not_started_of_open hthrew (isOpen_of_late hs hrun) hagain)
    · exact hearly
  · intro hk
    obtain ⟨n, u, hagain⟩ := (hrestored hk).again 0
    exact ⟨0, _, u, hagain⟩

lemma startable_initial : initial.Startable := ⟨rfl, rfl, rfl, rfl, rfl⟩

/-- A server on an address that does not parse. -/
theorem restored_at_address :
    ∃ t, (machine { address := "localhost" }).run initial (call 80 (failAfter 0)) = some t ∧
      t.server.pc = .done .threw ∧ t.Startable ∧
      ∃ n u, (machine { address := "localhost" }).run t (call 81 (List.replicate n true)) = some u ∧
        u.server.pc = .done .started := by
  have hrun : (machine { address := "localhost" }).run initial (call 80 (failAfter 0)) =
      some (initial.after 80 .threw) := rfl
  have hrestored := (restored_iff_failed_before_open { address := "localhost" } startable_initial
    hrun rfl).1.mpr (Nat.zero_le 1)
  refine ⟨_, hrun, rfl, ?_⟩
  exact ⟨hrestored.startable, hrestored.again 81⟩

/-- The port is in use: the bind fails, the socket stays open, and a `start()` on another port, all
of whose steps the system accepts, fails at its `open`.  And a spawn that fails leaves the endpoint
of the group behind. -/
theorem failed_start_leaves_residue :
    (∃ t, (machine {}).run initial (call 80 (failAfter 4)) = some t ∧
      t.server.pc = .done .threw ∧ t.server.isOpen = true ∧
      ∃ u, (machine {}).run t (call 81 [true, true]) = some u ∧ u.server.pc = .done .threw) ∧
    ∃ t, (machine { multicastGroup := "239.0.0.1" }).run initial (call 80 (failAfter 8)) = some t ∧
      t.server.pc = .done .threw ∧ initial.group = none ∧
      t.group = some ("239.0.0.1", 80) := by
  exact ⟨⟨_, rfl, rfl, rfl, _, rfl, rfl⟩, _, rfl, rfl, rfl, rfl⟩

end UdpStarter

end ReactorRuntime
