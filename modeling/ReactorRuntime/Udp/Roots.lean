import ReactorRuntime.Server.Phases
import ReactorRuntime.Udp.UdpServer

/-!
# Roots are destroyed on a stopped loop

A scheduler may destroy the tasks that are live on it only when no thread runs its loop and its
`io_context` is stopped.  Both servers run `stop()` before they come to `destroy_roots()` of a
scheduler.  In `TcpServer` that is enough, whatever was called before, as long as `stop()` is not
ended half way by a post that throws (`Server/Phases.lean`).

In `UdpServer` it is not enough.  `stop()` does nothing when there is no thread to join, and a
server that was never started, or whose `start()` threw before it came to its thread, has an
`io_context` that nobody has stopped.  The server itself has no task there then, but the host may
have (`destroys_roots_on_open_loop`).
-/

namespace ReactorRuntime

namespace UdpPc

/-- The socket was opened by the call of `start()` that is under way, and nothing was spawned
yet. -/
def opening : UdpPc → Bool
  | .setup _ => true
  | .spawn => true
  | _ => false

/-- `start()` has claimed the loop, and there is no thread. -/
def holding : UdpPc → Bool
  | .makeThread => true
  | .release => true
  | _ => false

/-- `start()` is between the spawn and the end of the thread's construction. -/
def launching : UdpPc → Bool
  | .claim => true
  | .makeThread => true
  | _ => false

/-- `start()` is in its `catch` block. -/
def failing : UdpPc → Bool
  | .release => true
  | .halt => true
  | _ => false

/-- `start()` is past the opening of the socket. -/
def inside (pc : UdpPc) : Bool := pc.opening || pc.launching || pc.failing

/-- A phase is past `stop()`. -/
def pastStop : UdpPc → Bool
  | .close _ => true
  | .destroy => true
  | _ => false

/-- None of these. -/
structure Plain (pc : UdpPc) : Prop where
  opening : pc.opening = false
  holding : pc.holding = false
  launching : pc.launching = false
  failing : pc.failing = false
  pastStop : pc.pastStop = false

lemma Plain.done (how : UdpEnding) : (UdpPc.done how).Plain := ⟨rfl, rfl, rfl, rfl, rfl⟩

lemma Plain.stop (p : UdpStop) (call : UdpCall) : (UdpPc.stop p call).Plain :=
  ⟨rfl, rfl, rfl, rfl, rfl⟩

end UdpPc

/-- The thread is on its way to, or in, `run()`. -/
def UdpThread.looping : UdpThread → Bool
  | .test => true
  | .running => true
  | _ => false

namespace Udp

/-- `start()` has neither spawned the receive loop nor come to its thread. -/
structure Untouched (s : Udp) : Prop where
  thread : s.thread = .none
  receive : s.receive = .none
  attempted : s.attempted = false

/-- What holds of the server's parts, whatever is called and whatever fails. -/
structure Sane (s : Udp) : Prop where
  loops : s.loops_ = s.thread.looping.toNat + s.pc.holding.toNat
  unopened : s.isOpen = false → s.Untouched
  inside : s.pc.inside = true → s.isOpen = true ∧ s.thread = .none
  opening : s.pc.opening = true → s.Untouched
  /-- The receive loop is spawned right before the thread is made. -/
  spawned : s.receive ≠ .none → s.attempted = true ∨ s.pc.launching = true
  /-- A thread that was to be made is there, or its `io_context` is stopped. -/
  attempted : s.attempted = true → s.thread ≠ .none ∨ s.pc.failing = true ∨ s.stopped = true
  made : s.thread ≠ .none → s.attempted = true
  left : s.thread = .left ∨ s.thread = .joined → s.stopped = true
  pastStop : s.pc.pastStop = true → s.thread.joinable = false

namespace Sane

variable {o : UdpOptions} {s s' : Udp}

lemma initial : Sane Udp.initial where
  loops := rfl
  unopened _ := ⟨rfl, rfl, rfl⟩
  inside h := by cases h
  opening h := by cases h
  spawned h := absurd rfl h
  attempted h := by cases h
  made h := absurd rfl h
  left h := by rcases h with h | h <;> cases h
  pastStop h := by cases h

lemma congr (h : Sane s) (hloops : s'.loops_ = s.loops_) (hopen : s'.isOpen = s.isOpen)
    (hthread : s'.thread = s.thread) (hreceive : s'.receive = s.receive)
    (hattempted : s'.attempted = s.attempted) (hstopped : s'.stopped = s.stopped)
    (hpc : s'.pc = s.pc) : Sane s' := by
  have huntouched : s.Untouched → s'.Untouched := fun hu =>
    ⟨hthread.trans hu.1, hreceive.trans hu.2, hattempted.trans hu.3⟩
  constructor
  · rw [hloops, hthread, hpc]
    exact h.loops
  · rw [hopen]
    exact fun ho => huntouched (h.unopened ho)
  · rw [hpc, hopen, hthread]
    exact h.inside
  · rw [hpc]
    exact fun ho => huntouched (h.opening ho)
  · rw [hreceive, hattempted, hpc]
    exact h.spawned
  · rw [hattempted, hthread, hpc, hstopped]
    exact h.attempted
  · rw [hthread, hattempted]
    exact h.made
  · rw [hthread, hstopped]
    exact h.left
  · rw [hpc, hthread]
    exact h.pastStop

lemma goto (h : Sane s) {pc : UdpPc} (hold : s.pc.Plain) (hpc : pc.Plain) :
    Sane { s with pc := pc } where
  loops := by
    rw [hpc.holding, ← hold.holding]
    exact h.loops
  unopened hopen := ⟨(h.unopened hopen).1, (h.unopened hopen).2, (h.unopened hopen).3⟩
  inside hp := absurd hp (by simp [UdpPc.inside, hpc.opening, hpc.launching, hpc.failing])
  opening hp := absurd hp (by simp [hpc.opening])
  spawned hr := .inl ((h.spawned hr).resolve_right (by simp [hold.launching]))
  attempted ha := (h.attempted ha).imp id fun hor => hor.imp (by simp [hold.failing]) id
  made := h.made
  left := h.left
  pastStop hp := absurd hp (by simp [hpc.pastStop])

/-- Before there is a thread. -/
lemma of_unmade (hthread : s.thread = .none) (hloops : s.loops_ = s.pc.holding.toNat)
    (hunopened : s.isOpen = false → s.Untouched)
    (hinside : s.pc.inside = true → s.isOpen = true) (hopening : s.pc.opening = true → s.Untouched)
    (hspawned : s.receive ≠ .none → s.attempted = true ∨ s.pc.launching = true)
    (hattempted : s.attempted = true → s.pc.failing = true ∨ s.stopped = true) : Sane s where
  loops := by
    rw [hloops, hthread]
    exact (Nat.zero_add _).symm
  unopened := hunopened
  inside hp := ⟨hinside hp, hthread⟩
  opening := hopening
  spawned := hspawned
  attempted ha := .inr (hattempted ha)
  made hne := absurd hthread hne
  left hor := by
    rw [hthread] at hor
    rcases hor with hor | hor <;> cases hor
  pastStop _ := by
    rw [hthread]
    rfl

/-- Nothing is spawned or made yet, with the owner at `pc`. -/
lemma of_untouched (hu : s.Untouched) (hopen : s.isOpen = true)
    (hloops : s.loops_ = s.pc.holding.toNat) : Sane s :=
  of_unmade hu.1 hloops (fun _ => hu) (fun _ => hopen) (fun _ => hu) (fun hr => absurd hu.2 hr)
    fun ha => absurd ha (by simp [hu.3])

lemma of_open (hopen : s.isOpen = true) (hthread : s.thread = .none)
    (hloops : s.loops_ = s.pc.holding.toNat) (hopening : s.pc.opening = false)
    (hspawned : s.receive ≠ .none → s.attempted = true ∨ s.pc.launching = true)
    (hattempted : s.attempted = true → s.pc.failing = true ∨ s.stopped = true) : Sane s :=
  of_unmade hthread hloops (fun ho => absurd ho (by simp [hopen])) (fun _ => hopen)
    (fun ho => absurd ho (by simp [hopening])) hspawned hattempted

lemma loops_of_unmade (h : Sane s) (hthread : s.thread = .none) :
    s.loops_ = s.pc.holding.toNat := by
  rw [h.loops, hthread]
  exact Nat.zero_add _

lemma halt (h : Sane s) : Sane { s with stopped := true } where
  loops := h.loops
  unopened hopen := ⟨(h.unopened hopen).1, (h.unopened hopen).2, (h.unopened hopen).3⟩
  inside := h.inside
  opening hp := ⟨(h.opening hp).1, (h.opening hp).2, (h.opening hp).3⟩
  spawned := h.spawned
  attempted _ := .inr (.inr rfl)
  made := h.made
  left _ := rfl
  pastStop := h.pastStop

/-- A thread that is looping was made, and the owner is neither in `start()` past its spawn nor in
a phase past `stop()`. -/
lemma looping (h : Sane s) (hl : s.thread.looping = true) :
    s.thread ≠ .none ∧ s.isOpen = true ∧ s.pc.inside = false ∧ s.pc.pastStop = false := by
  have hne : s.thread ≠ .none := by
    intro heq
    rw [heq] at hl
    cases hl
  refine ⟨hne, ?_, ?_, ?_⟩
  · by_contra hopen
    exact hne (h.unopened (by simpa using hopen)).1
  · by_contra hp
    exact hne (h.inside (by simpa using hp)).2
  · by_contra hp
    have hj := h.pastStop (by simpa using hp)
    cases ht : s.thread <;> simp_all [UdpThread.looping, UdpThread.joinable]

/-- Outside `start()` past its spawn, the loop is claimed for the thread alone. -/
lemma holding_of_outside {pc : UdpPc} (h : pc.inside = false) :
    pc.opening = false ∧ pc.holding = false ∧ pc.launching = false := by
  cases pc <;> simp_all [UdpPc.inside, UdpPc.opening, UdpPc.holding, UdpPc.launching,
    UdpPc.failing]

lemma loops_of_looping (h : Sane s) (hl : s.thread.looping = true) : s.loops_ = 1 := by
  rw [h.loops, hl, (holding_of_outside (h.looping hl).2.2.1).2.1]
  rfl

/-- The thread goes on, or leaves the loop of a stopped `io_context`. -/
lemma rethread (h : Sane s) (hl : s.thread.looping = true) {t : UdpThread} {stopped : Bool}
    (ht : t.looping = true ∨ t = .left ∧ stopped = true) :
    Sane { s with thread := t, stopped := stopped, loops_ := t.looping.toNat } := by
  obtain ⟨hne, hopen, hinside, hpast⟩ := h.looping hl
  obtain ⟨hopening, hholding, -⟩ := holding_of_outside hinside
  have hmade := h.made hne
  have hne' : t ≠ .none := by
    rintro rfl
    rcases ht with ht | ⟨ht, -⟩ <;> cases ht
  refine ⟨by simp [hholding], ?_, ?_, ?_, fun _ => .inl hmade, fun _ => .inl hne',
    fun _ => hmade, fun hor => ?_, ?_⟩
  · exact fun ho => absurd ho (by simp [hopen])
  · exact fun ho => absurd ho (by simp [hinside])
  · exact fun ho => absurd ho (by simp [hopening])
  · rcases ht with ht | ⟨-, hs⟩
    · rcases hor with rfl | rfl <;> cases ht
    · exact hs
  · exact fun ho => absurd ho (by simp [hpast])

lemma rereceive (h : Sane s) (hl : s.thread.looping = true) (r : Receive) :
    Sane { s with receive := r } := by
  obtain ⟨hne, hopen, hinside, -⟩ := h.looping hl
  refine ⟨h.loops, ?_, h.inside, ?_, fun _ => .inl (h.made hne), h.attempted,
    h.made, h.left, h.pastStop⟩
  · exact fun ho => absurd ho (by simp [hopen])
  · exact fun ho => absurd ho (by simp [(holding_of_outside hinside).1])

lemma opens (h : Sane s) (hpc : s.pc = .open_) (hopen : s.isOpen = false) (rest : List UdpSetup) :
    Sane { s with isOpen := true, pc := .setup rest } := by
  have hu := h.unopened hopen
  have hloops := h.loops_of_unmade hu.1
  rw [hpc] at hloops
  exact of_untouched ⟨hu.1, hu.2, hu.3⟩ rfl hloops

/-- While nothing is spawned, `start()` only goes on, or throws. -/
lemma setUp (h : Sane s) (hopening : s.pc.opening = true) {pc : UdpPc}
    (hpc : pc.holding = false) : Sane { s with pc := pc } := by
  have hu := h.opening hopening
  have hopen := (h.inside (by simp [UdpPc.inside, hopening])).1
  have hloops := h.loops_of_unmade hu.1
  have hold : s.pc.holding = false := by
    cases hp : s.pc <;> simp_all [UdpPc.opening, UdpPc.holding]
  rw [hold, ← hpc] at hloops
  exact of_untouched ⟨hu.1, hu.2, hu.3⟩ hopen hloops

lemma spawns (h : Sane s) (hpc : s.pc = .spawn) (r : Receive) :
    Sane { s with receive := r, pc := .claim } := by
  have hu := h.opening (by rw [hpc]; rfl)
  have hopen := (h.inside (by rw [hpc]; rfl)).1
  have hloops := h.loops_of_unmade hu.1
  rw [hpc] at hloops
  exact of_open hopen hu.1 hloops rfl (fun _ => .inr rfl) fun ha => absurd ha (by simp [hu.3])

lemma claims (h : Sane s) (hpc : s.pc = .claim) :
    Sane { s with loops_ := s.loops_ + 1, pc := .makeThread } := by
  obtain ⟨hopen, hthread⟩ := h.inside (by rw [hpc]; rfl)
  have hloops : s.loops_ = 0 := by
    rw [h.loops_of_unmade hthread, hpc]
    rfl
  refine of_open hopen hthread ?_ rfl (fun _ => .inr rfl) fun ha => ?_
  · show s.loops_ + 1 = 1
    rw [hloops]
  · have hor := h.attempted ha
    simpa [hthread, hpc, UdpPc.failing] using hor

lemma makes (h : Sane s) (hpc : s.pc = .makeThread) :
    Sane { s with
      thread := .test
      attempted := true
      started := true
      phased := false
      pc := .done .started } := by
  obtain ⟨hopen, hthread⟩ := h.inside (by rw [hpc]; rfl)
  have hloops := h.loops_of_unmade hthread
  rw [hpc] at hloops
  refine ⟨hloops, fun ho => absurd ho (by simp [hopen]), (fun ho => by cases ho),
    (fun ho => by cases ho), fun _ => .inl rfl, fun _ => .inl (by simp), fun _ => rfl,
    fun ho => ?_, (fun ho => by cases ho)⟩
  rcases ho with ho | ho <;> cases ho

lemma makesNone (h : Sane s) (hpc : s.pc = .makeThread) :
    Sane { s with attempted := true, pc := .release } := by
  obtain ⟨hopen, hthread⟩ := h.inside (by rw [hpc]; rfl)
  have hloops := h.loops_of_unmade hthread
  rw [hpc] at hloops
  exact of_open hopen hthread hloops rfl (fun _ => .inl rfl) fun _ => .inl rfl

lemma releases (h : Sane s) (hpc : s.pc = .release) :
    Sane { s with loops_ := s.loops_ - 1, pc := .halt } := by
  obtain ⟨hopen, hthread⟩ := h.inside (by rw [hpc]; rfl)
  have hloops : s.loops_ = 1 := by
    rw [h.loops_of_unmade hthread, hpc]
    rfl
  refine of_open hopen hthread ?_ rfl (fun hr => ?_) fun _ => .inl rfl
  · show s.loops_ - 1 = 0
    rw [hloops]
  · exact (h.spawned hr).imp id (by simp [hpc, UdpPc.launching])

lemma halts (h : Sane s) (hpc : s.pc = .halt) :
    Sane { s with stopped := true, pc := .done .threw } := by
  obtain ⟨hopen, hthread⟩ := h.inside (by rw [hpc]; rfl)
  have hloops := h.loops_of_unmade hthread
  rw [hpc] at hloops
  refine of_open hopen hthread hloops rfl (fun hr => ?_) fun _ => .inr rfl
  exact (h.spawned hr).imp id (by simp [hpc, UdpPc.launching])

/-- `stop()` has returned: there is no thread to join. -/
lemma goto_afterStop (h : Sane s) (hold : s.pc.Plain) (call : UdpCall)
    (hjoinable : s.thread.joinable = false) : Sane { s with pc := afterStop call } := by
  have hgoto := h.goto hold (.done .returned)
  cases call with
  | stop => exact hgoto
  | _ =>
      exact ⟨hgoto.loops, fun ho => ⟨(h.unopened ho).1, (h.unopened ho).2, (h.unopened ho).3⟩,
        (fun ho => by cases ho), (fun ho => by cases ho), hgoto.spawned, hgoto.attempted, h.made,
        h.left, fun _ => hjoinable⟩

lemma joins (h : Sane s) (hleft : s.thread = .left) : Sane { s with thread := .joined } := by
  have hstopped := h.left (.inl hleft)
  have hmade := h.made (by rw [hleft]; simp)
  have hloops := h.loops
  rw [hleft] at hloops
  refine ⟨hloops, fun ho => ?_, fun ho => ?_, fun ho => ?_, h.spawned,
    fun _ => .inl (by simp), fun _ => hmade, fun _ => hstopped, fun _ => rfl⟩
  · exact absurd (h.unopened ho).1 (by simp [hleft])
  · exact absurd (h.inside ho).2 (by simp [hleft])
  · exact absurd (h.opening ho).1 (by simp [hleft])

/-- A phase past `stop()` goes on, or returns; what it destroys was there. -/
lemma pastOn (h : Sane s) (hpast : s.pc.pastStop = true) {pc : UdpPc} {r : Receive}
    (hpc : pc = .destroy ∨ pc = .done .returned) (hr : s.receive = .none → r = .none) :
    Sane { s with pc := pc, receive := r } := by
  have hold : s.pc.holding = false ∧ s.pc.launching = false ∧ s.pc.failing = false := by
    cases hp : s.pc <;> simp_all [UdpPc.pastStop, UdpPc.holding, UdpPc.launching, UdpPc.failing]
  have hnew : pc.holding = false ∧ pc.inside = false ∧ pc.opening = false := by
    rcases hpc with rfl | rfl <;> exact ⟨rfl, rfl, rfl⟩
  refine ⟨?_, fun ho => ?_, fun ho => ?_, fun ho => ?_, fun hne => .inl ?_, fun ha => ?_, h.made,
    h.left, fun _ => h.pastStop hpast⟩
  · rw [hnew.1, ← hold.1]
    exact h.loops
  · exact ⟨(h.unopened ho).1, hr (h.unopened ho).2, (h.unopened ho).3⟩
  · exact absurd ho (by simp [hnew.2.1])
  · exact absurd ho (by simp [hnew.2.2])
  · exact (h.spawned fun hn => hne (hr hn)).resolve_right (by simp [hold.2.1])
  · exact (h.attempted ha).imp id fun hor => hor.imp (by simp [hold.2.2]) id

lemma plain_of_done (hdone : isDone s.pc = true) : s.pc.Plain := by
  cases hp : s.pc with
  | done how => exact .done how
  | _ =>
      rw [hp] at hdone
      cases hdone

/-- **Every step keeps the parts in order.** -/
theorem move (h : Sane s) {act : Act} (hmove : Move o s act s') : Sane s' := by
  cases hmove with
  | callStart hdone => exact h.goto (plain_of_done hdone) ⟨rfl, rfl, rfl, rfl, rfl⟩
  | call c hdone =>
      exact (h.goto (plain_of_done hdone) (.stop .test c)).congr rfl rfl rfl rfl rfl rfl rfl
  | ask hpc hnext =>
      have hold : s.pc.Plain := by
        rcases hpc with hpc | hpc
        · exact hpc ▸ ⟨rfl, rfl, rfl, rfl, rfl⟩
        · exact hpc ▸ ⟨rfl, rfl, rfl, rfl, rfl⟩
      refine h.goto hold ?_
      rcases hnext with rfl | rfl
      · exact ⟨rfl, rfl, rfl, rfl, rfl⟩
      · exact .done _
  | opens hpc hopen => exact h.opens hpc hopen _
  | setUp hpc hnext =>
      refine h.setUp ?_ ?_
      · rcases hpc with ⟨rest, hpc⟩ | hpc
        · rw [hpc]
          rfl
        · rw [hpc]
          rfl
      · rcases hnext with ⟨rest, rfl⟩ | rfl | rfl
        · rfl
        · rfl
        · rfl
  | spawns hpc => exact h.spawns hpc _
  | claims hpc => exact h.claims hpc
  | makes hpc => exact h.makes hpc
  | makesNone hpc => exact h.makesNone hpc
  | releases hpc => exact h.releases hpc
  | halts hpc => exact h.halts hpc
  | skips hpc hjoinable => exact h.goto_afterStop (hpc ▸ .stop _ _) _ hjoinable
  | enters hpc => exact h.goto (hpc ▸ .stop _ _) (.stop _ _)
  | aborts hpc hnext =>
      refine (h.goto (hpc ▸ .stop _ _) ?_).congr rfl rfl rfl rfl rfl rfl rfl
      rcases hnext with rfl | rfl
      · exact .stop _ _
      · exact .done _
  | stops hpc => exact (h.goto (hpc ▸ .stop _ _) (.stop .join _)).halt
  | joins hpc hleft => exact (h.joins hleft).goto_afterStop (hpc ▸ .stop _ _) _ rfl
  | closes hpc hnext =>
      exact (h.pastOn (by rw [hpc]; rfl) hnext id).congr rfl rfl rfl rfl rfl rfl rfl
  | destroys hpc =>
      refine (h.pastOn (by rw [hpc]; rfl) (.inr rfl) fun hn => ?_).congr rfl rfl rfl rfl rfl rfl rfl
      simp [hn, Receive.live]
  | ends hthread hstopped =>
      have hl : s.thread.looping = true := by rw [hthread]; rfl
      have hone := h.loops_of_looping hl
      exact (h.rethread hl (.inr ⟨rfl, hstopped⟩)).congr (by simp [hone]; rfl) rfl rfl rfl rfl rfl
        rfl
  | runs hthread =>
      have hl : s.thread.looping = true := by rw [hthread]; rfl
      exact (h.rethread (t := .running) hl (.inl rfl)).congr (h.loops_of_looping hl) rfl rfl rfl rfl
        rfl rfl
  | leave hthread =>
      have hl : s.thread.looping = true := by rw [hthread]; rfl
      have hone := h.loops_of_looping hl
      exact (h.rethread hl (.inr ⟨rfl, rfl⟩)).congr (by simp [hone]; rfl) rfl rfl rfl rfl rfl rfl
  | throws hthread =>
      have hl : s.thread.looping = true := by rw [hthread]; rfl
      exact (h.rethread (t := .test) hl (.inl rfl)).congr (h.loops_of_looping hl) rfl rfl rfl rfl
        rfl rfl
  | receive _ hthread _ | datagram hthread _ | error hthread _ =>
      have hl : s.thread.looping = true := by rw [hthread]; rfl
      exact (h.rereceive hl _).congr rfl rfl rfl rfl rfl rfl rfl
  | tasks _ => exact h.congr rfl rfl rfl rfl rfl rfl rfl
  | stopIo => exact h.halt

end Sane

lemma sane_of_reachable {o : UdpOptions} {s : Udp} (hs : (machine o).Reachable s) : Sane s :=
  hs.invariant (I := Sane) .initial fun _ _ _ h _ hstep => h.move (move_of_step hstep)

/-! ## The result -/

/-- A task is live on the scheduler: the receive loop or one of the host's. -/
def Rooted (s : Udp) : Prop := s.receive.live = true ∨ 0 < s.tasks

instance (s : Udp) : Decidable s.Rooted := inferInstanceAs (Decidable (_ ∨ _))

/-- The action is the call of `scheduler().destroy_roots()`. -/
def Destroys (s : Udp) (act : Act) : Prop := s.pc = .destroy ∧ ∃ ok, act = .own ok

/-- Some `start()` has come to its thread, or the host has no task live on the scheduler or has
stopped the `io_context` itself. -/
def CameToThread (s : Udp) : Prop := s.attempted = true ∨ s.tasks = 0 ∨ s.stopped = true

/-- Past `stop()`, a loop whose thread was to be made is still. -/
lemma Sane.still (h : Sane s) (hpc : s.pc = .destroy) (ha : s.attempted = true) :
    s.loops_ = 0 ∧ s.stopped = true := by
  have hjoinable := h.pastStop (by rw [hpc]; rfl)
  have hloops := h.loops
  rw [hpc] at hloops
  constructor
  · cases ht : s.thread <;> simp_all [UdpThread.joinable, UdpThread.looping, UdpPc.holding]
  · rcases h.attempted ha with hne | hfailing | hstopped
    · refine h.left (.inr ?_)
      cases ht : s.thread <;> simp_all [UdpThread.joinable]
    · rw [hpc] at hfailing
      cases hfailing
    · exact hstopped

/-- Past `stop()`, the loop of a server that never came to its thread has none. -/
lemma Sane.loops_of_destroy (h : Sane s) (hpc : s.pc = .destroy) : s.loops_ = 0 := by
  by_cases ha : s.attempted = true
  · exact (h.still hpc ha).1
  · have hnone : s.thread = .none := Classical.byContradiction fun hne => ha (h.made hne)
    rw [h.loops_of_unmade hnone, hpc]
    rfl

/-- **Roots are destroyed on a stopped loop.**  In every run of a `TcpServer` in which no post of
`stop()` throws, each call of `destroy_roots()` of a scheduler finds its loop without a thread in
`run()` and its `io_context` stopped, whether or not tasks are live on it.  In every run of a
`UdpServer` the same holds of such a call that finds a task live if and only if some `start()` has
come to its thread, or the call finds no task of the host, or the host has stopped the
`io_context`. -/
theorem roots_destroyed_on_stopped_loop (n : ℕ) (cfg : Config) (o : UdpOptions) :
    (∀ (s : Phased n) (r : Fin (n + 1)),
      (Phased.machine cfg).ReachableUnder (fun _ act => act ≠ .server .postFails) s →
      s.phase = .destroying r.val → s.server.host.loops_ r = 0 ∧ s.halted r = true) ∧
    ∀ (s : Udp) (act : Act), (machine o).Reachable s → s.Destroys act →
      ((s.Rooted → s.loops_ = 0 ∧ s.stopped = true) ↔ s.CameToThread) := by
  refine ⟨fun s r hs hphase => Phased.still_of_afterStop hs (by rw [hphase]; rfl) r,
    fun s act hs hdestroys => ?_⟩
  have h := sane_of_reachable hs
  have hpc := hdestroys.1
  constructor
  · intro hstill
    by_cases htasks : s.tasks = 0
    · exact .inr (.inl htasks)
    · exact .inr (.inr (hstill (.inr (Nat.pos_of_ne_zero htasks))).2)
  · intro hcame hrooted
    refine ⟨h.loops_of_destroy hpc, ?_⟩
    rcases hcame with hattempted | hnone | hstopped
    · exact (h.still hpc hattempted).2
    · -- the receive loop is spawned right before the thread is made
      have hlive := hrooted.resolve_right (by omega)
      refine (h.still hpc ((h.spawned fun hnone => ?_).resolve_right ?_)).2
      · rw [hnone] at hlive
        cases hlive
      · simp [hpc, UdpPc.launching]
    · exact hstopped

/-- The host has a task on the scheduler of a server that was never started, and destroys the
server. -/
def unstartedRun : List Act := [.spawnTask, .call .destroyRoots, .own true, .own true]

/-- A server that was never started comes to destroy a live task of the host on a
loop that nobody has stopped. -/
theorem destroys_roots_on_open_loop :
    ∃ s : Udp, (machine {}).Reachable s ∧
      s.pc = .destroy ∧ s.Rooted ∧ s.stopped = false := by
  obtain ⟨s, hs, htest⟩ := (machine {}).exists_reachable_of_run unstartedRun
    (fun s => decide (s.pc = .destroy ∧ s.Rooted ∧ s.stopped = false)) (by decide +kernel)
  exact ⟨s, hs, of_decide_eq_true htest⟩

/-- `start()` with the default options, and then the server is destroyed. -/
def startedRun : List Act :=
  List.flatten
    [[.callStart], List.replicate 9 (.own true), [.test, .spawnTask],
      [.call .destroyRoots], List.replicate 3 (.own true), [.leave], List.replicate 2 (.own true)]

end Udp

/-- A task is spawned on a `TcpServer` that was never started, and the server is destroyed. -/
def Phased.unstartedRun : List (Phased.Act 0) :=
  List.flatten
    [[.spawn 0, .callDestroyRoots], List.replicate 2 (.server (.own true)),
      [.server (.loop 0 .runAbort), .server (.loop 0 .resume)],
      List.replicate 11 (.server (.own true)), List.replicate 3 .phase]

namespace Udp

theorem roots_destroyed_on_stopped_loop_at_runs :
    (∃ s : Phased 0, (Phased.machine Server.oneAtATime).ReachableUnder
        (fun _ act => act ≠ .server .postFails) s ∧
      (s.phase = .destroying 0 ∧ s.tasks 0 = 1) ∧
      s.server.host.loops_ 0 = 0 ∧ s.halted 0 = true) ∧
    ∃ s : Udp, (machine {}).Reachable s ∧
      (s.pc = .destroy ∧ s.attempted = true ∧ s.receive.live = true ∧ s.tasks = 1) ∧
      s.loops_ = 0 ∧ s.stopped = true := by
  obtain ⟨s, hs, htest⟩ := (Phased.machine Server.oneAtATime).exists_reachableUnder_of_run
    (fun _ act => decide (act ≠ .server .postFails)) (fun _ _ => of_decide_eq_true)
    Phased.unstartedRun (fun s => decide (s.phase = .destroying 0 ∧ s.tasks 0 = 1))
    (by decide +kernel)
  obtain ⟨t, ht, htest'⟩ := (machine {}).exists_reachable_of_run
    startedRun (fun s => decide (s.pc = .destroy ∧ s.attempted = true ∧ s.receive.live = true ∧
      s.tasks = 1)) (by decide +kernel)
  have hstate := of_decide_eq_true htest
  have hstate' := of_decide_eq_true htest'
  obtain ⟨tcp, udp⟩ := roots_destroyed_on_stopped_loop 0 Server.oneAtATime {}
  exact ⟨⟨s, hs, hstate, tcp s 0 hs hstate.1⟩, t, ht, hstate',
    (udp t (.own true) ht ⟨hstate'.1, true, rfl⟩).mpr (.inl hstate'.2.1) (.inl hstate'.2.2.1)⟩

end Udp

end ReactorRuntime
