import ReactorRuntime.Udp.Roots

/-!
# A server that has started is receiving

When `start()` has returned, the receive loop is live on the scheduler until a phase is called or a
receive fails, and as long as the `io_context` is not stopped the next datagram can be handed to
the host.

This rests on the spawn being made on an open scheduler, and on nothing else but the receive loop's
own allocations: a step that breaks either leaves a server that has started and hears nothing.
`close()` closes the scheduler for good, and a task spawned on it then is destroyed unrun; `start()`
does not look.  So `close()` followed by `start()` returns, on a server that hears nothing
(`deaf_after_close`).  `TcpServer` refuses to start in the same case.
-/

namespace ReactorRuntime

namespace UdpPc

/-- A phase is under way. -/
def inPhase : UdpPc → Bool
  | .stop _ _ => true
  | .close _ => true
  | .destroy => true
  | _ => false

end UdpPc

namespace Udp

/-- No `start()` returns on a closed scheduler, and before a phase is called the receive loop gets
its buffer and starts its receives without an exception. -/
structure StartsOpen (s : Udp) (act : Act) : Prop where
  returns : s.pc = .makeThread → act = .own true → s.closed = false
  receives : act = .begin_ false ∨ act = .rearm false → s.phased = true

instance (s : Udp) (act : Act) : Decidable (s.StartsOpen act) :=
  decidable_of_iff ((s.pc = .makeThread → act = .own true → s.closed = false) ∧
    (act = .begin_ false ∨ act = .rearm false → s.phased = true))
    ⟨fun h => ⟨h.1, h.2⟩, fun h => ⟨h.1, h.2⟩⟩

/-- What carries the receive loop from the spawn to the first phase. -/
structure Hearing (s : Udp) : Prop where
  /-- Nobody runs the loop before the thread is made. -/
  launching : s.pc.launching = true → s.receive = if s.closed then .destroyed else .spawned
  started : s.started = true ↔ s.thread ≠ .none
  phased : s.pc.inPhase = true → s.phased = s.started
  live : s.started = true → s.phased = false → s.receive.live = true ∨ s.failed = true
  failed : s.failed = true → s.thread ≠ .none ∧ s.receive.live = false

namespace Hearing

variable {o : UdpOptions} {s s' : Udp}

lemma initial : Hearing Udp.initial where
  launching h := by cases h
  started := by simp [Udp.initial]
  phased h := by cases h
  live h := by cases h
  failed h := by cases h

/-- A step that does not touch the receive loop and enters no part of a call where more is
asked. -/
lemma keep (h : Hearing s)
    (hlaunching : s'.pc.launching = true → s.pc.launching = true ∧ s'.closed = s.closed)
    (hphase : s'.pc.inPhase = true → s.pc.inPhase = true)
    (hthread : s'.thread = .none ↔ s.thread = .none) (hreceive : s'.receive = s.receive)
    (hstarted : s'.started = s.started) (hphased : s'.phased = s.phased)
    (hfailed : s'.failed = s.failed) : Hearing s' where
  launching hp := by
    rw [hreceive, (hlaunching hp).2]
    exact h.launching (hlaunching hp).1
  started := by
    rw [hstarted, h.started]
    exact not_congr hthread.symm
  phased hp := by
    rw [hphased, hstarted]
    exact h.phased (hphase hp)
  live := by
    rw [hstarted, hphased, hreceive, hfailed]
    exact h.live
  failed hf := by
    obtain ⟨hmade, hdead⟩ := h.failed (hfailed ▸ hf)
    exact ⟨mt hthread.mp hmade, hreceive ▸ hdead⟩

/-- The owner goes on, to a place where nothing more is asked. -/
lemma goOn (h : Hearing s) {pc : UdpPc} (hlaunching : pc.launching = false)
    (hphase : pc.inPhase = false) : Hearing { s with pc := pc } :=
  h.keep (fun hp => absurd hp (by simp [hlaunching])) (fun hp => absurd hp (by simp [hphase]))
    .rfl rfl rfl rfl rfl

lemma rereceive (h : Hearing s) (hs : Sane s) (hthread : s.thread = .running) {r : Receive}
    {failed : Bool} {delivered : ℕ}
    (hlive : s.phased = false → r.live = true ∨ failed = true)
    (hdead : failed = true → r.live = false) :
    Hearing { s with receive := r, failed := failed, delivered := delivered } where
  launching hp := by
    have hinside := (hs.looping (by rw [hthread]; rfl)).2.2.1
    simp [UdpPc.inside, hp] at hinside
  started := h.started
  phased := h.phased
  live _ := hlive
  failed hf := ⟨by simp [hthread], hdead hf⟩

lemma not_failed (h : Hearing s) (hlive : s.receive.live = true) : s.failed = false := by
  by_contra hf
  exact absurd (h.failed (by simpa using hf)).2 (by simp [hlive])

/-- Nothing was spawned yet when `start()` comes to the spawn, and no call of it has returned. -/
lemma not_started (h : Hearing s) (hthread : s.thread = .none) : s.started = false := by
  by_contra hs
  exact h.started.mp (by simpa using hs) hthread

lemma spawns (h : Hearing s) (hs : Sane s) (hpc : s.pc = .spawn) :
    Hearing { s with receive := if s.closed then .destroyed else .spawned, pc := .claim } := by
  have hnone := (hs.inside (by rw [hpc]; rfl)).2
  refine ⟨fun _ => rfl, h.started, (fun hp => by cases hp), fun hstarted => ?_, fun hf => ?_⟩
  · exact absurd hstarted (by simp [h.not_started hnone])
  · exact absurd hnone (h.failed hf).1

/-- `start()` returns, with the receive loop as it was spawned. -/
lemma makes (h : Hearing s) (hpc : s.pc = .makeThread) (hopen : s.closed = false) :
    Hearing { s with
      thread := .test
      attempted := true
      started := true
      phased := false
      pc := .done .started } := by
  have hspawned := h.launching (by rw [hpc]; rfl)
  have hlive : s.receive.live = true := by
    rw [hspawned, hopen]
    rfl
  refine ⟨(fun hp => by cases hp), iff_of_true rfl (by simp), (fun hp => by cases hp),
    fun _ _ => .inl hlive, fun hf => ?_⟩
  exact absurd hf (by simp [h.not_failed hlive])

lemma phaseOn (h : Hearing s) (hin : s.pc.inPhase = true) (hlaunching : s'.pc.launching = false)
    (hthread : s'.thread = .none ↔ s.thread = .none) (hreceive : s'.receive = s.receive)
    (hstarted : s'.started = s.started) (hphased : s'.phased = s.phased)
    (hfailed : s'.failed = s.failed) : Hearing s' :=
  h.keep (fun hp => absurd hp (by simp [hlaunching])) (fun _ => hin) hthread hreceive hstarted
    hphased hfailed

/-- The roots are destroyed: a phase was called since the last `start()` that returned. -/
lemma destroys (h : Hearing s) (hpc : s.pc = .destroy) (n : ℕ) :
    Hearing { s with
      receive := if s.receive.live then .destroyed else s.receive
      tasks := n
      pc := .done .returned } := by
  have hphased := h.phased (by rw [hpc]; rfl)
  refine ⟨(fun hp => by cases hp), h.started, (fun hp => by cases hp), fun hstarted hnot => ?_,
    fun hf => ?_⟩
  · rw [hphased] at hnot
    exact absurd (hstarted.symm.trans hnot) (by simp)
  · obtain ⟨hmade, hdead⟩ := h.failed hf
    refine ⟨hmade, ?_⟩
    simp [hdead]

lemma afterStop_launching (call : UdpCall) : (afterStop call).launching = false := by
  cases call <;> rfl

lemma move (h : Hearing s) (hs : Sane s) {act : Act} (hok : s.StartsOpen act)
    (hmove : Move o s act s') : Hearing s' := by
  cases hmove with
  | callStart hdone => exact h.goOn rfl rfl
  | call c hdone =>
      refine ⟨(fun hp => by cases hp), h.started, fun _ => rfl, fun hstarted hnot => ?_, h.failed⟩
      exact absurd (hstarted.symm.trans hnot) (by simp)
  | ask hpc hnext =>
      rcases hnext with rfl | rfl
      · exact h.goOn rfl rfl
      · exact h.goOn rfl rfl
  | opens hpc hopen =>
      have hset : Hearing { s with pc := .setup o.setup } := h.goOn rfl rfl
      exact hset.keep (fun hp => ⟨hp, rfl⟩) id .rfl rfl rfl rfl rfl
  | setUp hpc hnext =>
      rcases hnext with ⟨rest, rfl⟩ | rfl | rfl
      · exact h.goOn rfl rfl
      · exact h.goOn rfl rfl
      · exact h.goOn rfl rfl
  | spawns hpc => exact h.spawns hs hpc
  | claims hpc =>
      refine h.keep (fun _ => ⟨?_, rfl⟩) (fun hp => ?_) .rfl rfl rfl rfl rfl
      · rw [hpc]
        rfl
      · cases hp
  | makes hpc => exact h.makes hpc (hok.returns hpc rfl)
  | makesNone | releases | halts =>
      exact h.keep (fun hp => by cases hp) (fun hp => by cases hp) .rfl rfl rfl rfl rfl
  | skips hpc hjoinable =>
      exact h.phaseOn (by rw [hpc]; rfl) (afterStop_launching _) .rfl rfl rfl rfl rfl
  | enters hpc | stops hpc => exact h.phaseOn (by rw [hpc]; rfl) rfl .rfl rfl rfl rfl rfl
  | aborts hpc hnext =>
      rcases hnext with rfl | rfl
      · exact h.phaseOn (by rw [hpc]; rfl) rfl .rfl rfl rfl rfl rfl
      · exact h.phaseOn (by rw [hpc]; rfl) rfl .rfl rfl rfl rfl rfl
  | joins hpc hleft =>
      exact h.phaseOn (by rw [hpc]; rfl) (afterStop_launching _) (by simp [hleft]) rfl rfl rfl rfl
  | closes hpc hnext =>
      rcases hnext with rfl | rfl
      · exact h.phaseOn (by rw [hpc]; rfl) rfl .rfl rfl rfl rfl rfl
      · exact h.phaseOn (by rw [hpc]; rfl) rfl .rfl rfl rfl rfl rfl
  | destroys hpc => exact h.destroys hpc _
  | ends hthread | runs hthread | leave hthread | throws hthread =>
      exact h.keep (fun hp => ⟨hp, rfl⟩) id (by simp [hthread]) rfl rfl rfl rfl
  | @receive act ok hact hthread hlive =>
      have hgoing := h.not_failed hlive
      refine h.rereceive hs hthread (fun hphased => .inl ?_) fun hf =>
        absurd hf (by simp [hgoing])
      cases ok with
      | true => rfl
      | false => exact absurd (hok.receives hact) (by simp [hphased])
  | datagram hthread hlive =>
      exact h.rereceive hs hthread (fun _ => .inl rfl)
        (fun hf => absurd hf (by simp [h.not_failed hlive]))
  | error hthread hlive => exact h.rereceive hs hthread (fun _ => .inr rfl) fun _ => rfl
  | tasks | stopIo => exact h.keep (fun hp => ⟨hp, rfl⟩) id .rfl rfl rfl rfl rfl

end Hearing

lemma hearing_of_reachable {o : UdpOptions} {s : Udp}
    (hs : (machine o).ReachableUnder StartsOpen s) : Hearing s := by
  have hboth : Hearing s ∧ Sane s :=
    hs.invariant (I := fun s => Hearing s ∧ Sane s) ⟨.initial, .initial⟩
      fun _ _ _ h hok hstep =>
        ⟨h.1.move h.2 hok (move_of_step hstep), h.2.move (move_of_step hstep)⟩
  exact hboth.1

/-! ## The next datagram -/

section Delivery

variable {o : UdpOptions} {s t : Udp}

/-- A thread that was made and has not left is looping, unless the `io_context` is stopped. -/
lemma Sane.thread_of_open (h : Sane s) (hmade : s.thread ≠ .none) (hopen : s.stopped = false) :
    s.thread = .test ∨ s.thread = .running := by
  cases ht : s.thread with
  | none => exact absurd ht hmade
  | test => exact .inl rfl
  | running => exact .inr rfl
  | left | joined => exact absurd (h.left (by simp [ht])) (by simp [hopen])

lemma delivers_of_waiting (hthread : s.thread = .running) (hreceive : s.receive = .waiting) :
    ∃ t, (machine o).Leads s t ∧ s.delivered < t.delivered := by
  refine ⟨{ s with receive := .again, delivered := s.delivered + 1 }, .single ⟨.datagram 1 false,
    trivial, ?_⟩, Nat.lt_succ_self _⟩
  exact if_pos ⟨hthread, hreceive, o.bufferSize_pos⟩

/-- The delivery may take one more step to come about. -/
lemma delivers_of_step (act : Act) (hstep : (machine o).step s act = some t)
    (hsame : t.delivered = s.delivered)
    (h : ∃ u, (machine o).Leads t u ∧ t.delivered < u.delivered) :
    ∃ u, (machine o).Leads s u ∧ s.delivered < u.delivered := by
  obtain ⟨u, hu, hlt⟩ := h
  exact ⟨u, .head ⟨act, trivial, hstep⟩ hu, hsame ▸ hlt⟩

/-- A live receive loop under a thread in `run()` comes to await a datagram. -/
lemma delivers_of_running (hthread : s.thread = .running) (hlive : s.receive.live = true) :
    ∃ t, (machine o).Leads s t ∧ s.delivered < t.delivered := by
  cases hr : s.receive with
  | spawned =>
      exact delivers_of_step (.begin_ true) (if_pos ⟨hthread, hr⟩) rfl
        (delivers_of_waiting hthread rfl)
  | waiting => exact delivers_of_waiting hthread hr
  | again =>
      exact delivers_of_step (.rearm true) (if_pos ⟨hthread, hr⟩) rfl
        (delivers_of_waiting hthread rfl)
  | _ =>
      rw [hr] at hlive
      cases hlive

lemma delivers_of_live (h : Sane s) (hmade : s.thread ≠ .none) (hopen : s.stopped = false)
    (hlive : s.receive.live = true) : ∃ t, (machine o).Leads s t ∧ s.delivered < t.delivered := by
  rcases h.thread_of_open hmade hopen with ht | ht
  · have hstep : (machine o).step s .test = some { s with thread := .running } := by
      simp [machine, step, ht, hopen]
    exact delivers_of_step .test hstep rfl (delivers_of_running rfl hlive)
  · exact delivers_of_running ht hlive

end Delivery

/-! ## A receive loop that is gone -/

section Deaf

variable {o : UdpOptions} {s t : Udp}

/-- The receive loop was spawned, and is not live any more. -/
def Gone (s : Udp) : Prop := s.receive ≠ .none ∧ s.receive.live = false

/-- The socket is opened once, so a receive loop that is gone is not spawned again, and nothing is
handed to the host any more. -/
lemma Gone.move (hgone : s.Gone) (h : Sane s) {act : Act} (hmove : Move o s act t) :
    t.Gone ∧ t.delivered = s.delivered := by
  have hdead : s.receive.live ≠ true := by simp [hgone.2]
  cases hmove with
  | spawns hpc => exact absurd (h.opening (by rw [hpc]; rfl)).2 hgone.1
  | destroys hpc =>
      refine ⟨?_, rfl⟩
      simpa [Gone, hgone.2] using hgone.1
  | receive _ _ hlive | datagram _ hlive | error _ hlive => exact absurd hlive hdead
  | _ => exact ⟨hgone, rfl⟩

lemma Gone.leads (hgone : s.Gone) (h : Sane s) (hlead : (machine o).Leads s t) :
    t.delivered = s.delivered := by
  have hstays : Sane t ∧ t.Gone ∧ t.delivered = s.delivered :=
    hlead.preserves (I := fun u => Sane u ∧ u.Gone ∧ u.delivered = s.delivered)
      (fun u act u' hu _ hstep => by
        obtain ⟨hgone', hd⟩ := hu.2.1.move hu.1 (move_of_step hstep)
        exact ⟨hu.1.move (move_of_step hstep), hgone', hd.trans hu.2.2⟩)
      ⟨h, hgone, rfl⟩
  exact hstays.2.2

/-- The server has started and no phase was called since, no receive has failed, and the receive
loop is gone. -/
structure Deaf (s : Udp) : Prop where
  started : s.started = true
  phased : s.phased = false
  failed : s.failed = false
  gone : s.Gone

/-- A step that breaks the condition leaves a deaf server. -/
lemma Hearing.deaf_of_break (h : Hearing s) (hs : Sane s) {act : Act}
    (hbreak : ¬ s.StartsOpen act) (hstep : (machine o).step s act = some t) : t.Deaf := by
  by_cases hreturns : s.pc = .makeThread → act = .own true → s.closed = false
  · -- the receive loop ends by an exception
    have hreceives : ¬ (act = .begin_ false ∨ act = .rearm false → s.phased = true) :=
      fun hreceives => hbreak ⟨hreturns, hreceives⟩
    obtain ⟨hact, hphased⟩ := Classical.not_imp.mp hreceives
    have hthrown : (s.thread = .running ∧ s.receive.live = true) ∧
        t = { s with receive := .ended } := by
      rcases hact with rfl | rfl
      · obtain ⟨⟨hthread, hreceive⟩, heq⟩ := Option.ite_none_right_eq_some.mp hstep
        cases heq
        exact ⟨⟨hthread, by rw [hreceive]; rfl⟩, rfl⟩
      · obtain ⟨⟨hthread, hreceive⟩, heq⟩ := Option.ite_none_right_eq_some.mp hstep
        cases heq
        exact ⟨⟨hthread, by rw [hreceive]; rfl⟩, rfl⟩
    obtain ⟨⟨hthread, hlive⟩, rfl⟩ := hthrown
    exact ⟨h.started.mpr (by simp [hthread]), by simpa using hphased, h.not_failed hlive,
      by simp [Gone, Receive.live]⟩
  · -- `start()` returns on a closed scheduler
    obtain ⟨hpc, hreturns⟩ := Classical.not_imp.mp hreturns
    obtain ⟨rfl, hclosed⟩ := Classical.not_imp.mp hreturns
    have hdestroyed := h.launching (by rw [hpc]; rfl)
    rw [if_pos (by simpa using hclosed)] at hdestroyed
    simp only [machine, step, ownStep, startStep, hpc, if_true, Option.some.injEq] at hstep
    subst hstep
    refine ⟨rfl, rfl, ?_, ?_⟩
    · by_contra hf
      exact (h.failed (by simpa using hf)).1 (hs.inside (by rw [hpc]; rfl)).2
    · simp [Gone, hdestroyed, Receive.live]

end Deaf

/-! ## The result -/

/-- **A server that has started is receiving.**  In every run in which no `start()` returns on a
closed scheduler, and the receive loop's own allocations succeed until a phase is called, from the
return of a `start()` to the next call of a phase the receive loop is live or a receive has failed;
and as long as none has failed and the `io_context` is not stopped, a datagram can still be handed
to the host.  The condition is exact: with a step that breaks it the server has started, with no
phase called and no receive failed, and no datagram is ever handed to the host again.  A `TcpServer`
with a closed scheduler refuses to start. -/
theorem started_is_receiving (o : UdpOptions) (n : ℕ) (cfg : Config) :
    (∀ s : Udp, (machine o).ReachableUnder StartsOpen s →
      (s.started = true → s.phased = false →
        (s.receive.live = true ∨ s.failed = true) ∧
        (s.failed = false → s.stopped = false →
          ∃ t, (machine o).Leads s t ∧ s.delivered < t.delivered)) ∧
      ∀ act t, ¬ s.StartsOpen act → (machine o).step s act = some t →
        t.Deaf ∧ ∀ u, (machine o).Leads t u → u.delivered = t.delivered) ∧
    ∀ (s s' : Phased n) (r : Fin (n + 1)) (port : ℕ),
      (Phased.machine cfg).ReachableUnder (fun _ act => act ≠ .server .postFails) s →
      s.closed r = true →
      (Phased.machine cfg).step s (.server (.callStart port)) = some s' →
      s'.server = s.server.goto (.done .refused) := by
  constructor
  · intro s hs
    have h := hearing_of_reachable hs
    have hsane := sane_of_reachable hs.reachable
    refine ⟨fun hstarted hphased => ?_, fun act t hbreak hstep => ?_⟩
    · have hlive := h.live hstarted hphased
      refine ⟨hlive, fun hfailed hopen => ?_⟩
      exact delivers_of_live hsane (h.started.mp hstarted) hopen
        (hlive.resolve_right (by simp [hfailed]))
    · have hdeaf := h.deaf_of_break hsane hbreak hstep
      exact ⟨hdeaf, fun u hlead => hdeaf.gone.leads (hsane.move (move_of_step hstep)) hlead⟩
  · intro s s' r port hs hclosed hstep
    have hstopped := (Phased.settled_of_reachable hs).closed r hclosed
    obtain ⟨-, hstep⟩ := Option.ite_none_right_eq_some.mp hstep
    obtain ⟨t, ht, rfl⟩ := Option.map_eq_some_iff.mp hstep
    obtain ⟨-, ht⟩ := Option.ite_none_right_eq_some.mp ht
    cases ht
    exact if_pos (.inr hstopped)

/-- `close()`, then `start()` with the default options. -/
def closedRun : List Act :=
  List.flatten
    [[.call .close], List.replicate 2 (.own true), [.callStart], List.replicate 9 (.own true)]

/-- `start()` has returned on a server that was closed before; no phase was called since, no receive
has failed and the `io_context` is not stopped, and the receive loop is destroyed: whatever
happens, no datagram is ever handed to the host. -/
theorem deaf_after_close :
    ∃ s : Udp, (machine {}).Reachable s ∧
      (s.pc = .done .started ∧ s.started = true ∧ s.phased = false ∧ s.failed = false ∧
        s.stopped = false ∧ s.receive = .destroyed) ∧
      ∀ t, (machine {}).Leads s t → t.delivered = s.delivered := by
  obtain ⟨s, hs, htest⟩ := (machine {}).exists_reachable_of_run closedRun
    (fun s => decide (s.pc = .done .started ∧ s.started = true ∧ s.phased = false ∧
      s.failed = false ∧ s.stopped = false ∧ s.receive = .destroyed)) (by decide +kernel)
  have hstate := of_decide_eq_true htest
  have hgone : s.Gone := by simp [Gone, hstate.2.2.2.2.2, Receive.live]
  exact ⟨s, hs, hstate, fun t hlead =>
    hgone.leads (sane_of_reachable hs) hlead⟩

/-- A `TcpServer` that was never started is closed. -/
def tcpClosedRun : List (Phased.Act 0) :=
  List.flatten
    [[.callClose], List.replicate 2 (.server (.own true)),
      [.server (.loop 0 .runAbort), .server (.loop 0 .resume)],
      List.replicate 11 (.server (.own true)), List.replicate 3 .phase]

theorem started_is_receiving_at_runs :
    (∃ s : Udp, (machine {}).ReachableUnder StartsOpen s ∧
      (s.pc = .done .started ∧ s.started = true ∧ s.phased = false ∧ s.failed = false ∧
        s.stopped = false) ∧
      s.receive.live = true ∧ ∃ t, (machine {}).Leads s t ∧ s.delivered < t.delivered) ∧
    ∃ s s' : Phased 0, (Phased.machine Server.oneAtATime).ReachableUnder
        (fun _ act => act ≠ .server .postFails) s ∧
      (Phased.machine Server.oneAtATime).step s (.server (.callStart 80)) = some s' ∧
      s.closed 0 = true ∧ s'.server = s.server.goto (.done .refused) := by
  obtain ⟨s, hs, htest⟩ := (machine {}).exists_reachableUnder_of_run
    (fun s act => decide (s.StartsOpen act)) (fun _ _ => of_decide_eq_true)
    (.callStart :: List.replicate 9 (.own true))
    (fun s => decide (s.pc = .done .started ∧ s.started = true ∧ s.phased = false ∧
      s.failed = false ∧ s.stopped = false)) (by decide +kernel)
  obtain ⟨t, ht, htest'⟩ := (Phased.machine Server.oneAtATime).exists_reachableUnder_of_run
    (fun _ act => decide (act ≠ .server .postFails)) (fun _ _ => of_decide_eq_true) tcpClosedRun
    (fun s => decide (s.closed 0 = true) &&
      ((Phased.machine Server.oneAtATime).step s (.server (.callStart 80))).isSome)
    (by decide +kernel)
  have hstate := of_decide_eq_true htest
  have hfailed := hstate.2.2.2.1
  obtain ⟨udp, tcp⟩ := started_is_receiving {} 0 Server.oneAtATime
  obtain ⟨hlive, hdelivers⟩ := (udp s hs).1 hstate.2.1 hstate.2.2.1
  obtain ⟨hclosed, hsome⟩ := (Bool.and_eq_true _ _).mp htest'
  obtain ⟨t', ht'⟩ := Option.isSome_iff_exists.mp hsome
  have hclosed := of_decide_eq_true hclosed
  exact ⟨⟨s, hs, hstate, hlive.resolve_right (by simp [hfailed]), hdelivers hfailed hstate.2.2.2.2⟩,
    t, t', ht, ht', hclosed, tcp t t' 0 80 ht hclosed ht'⟩

end Udp

end ReactorRuntime
