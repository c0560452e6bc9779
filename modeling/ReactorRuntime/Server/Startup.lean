import ReactorRuntime.Accept.Listening
import ReactorRuntime.Server.Accounting

/-!
# `start()` is all or nothing

`start()` makes work guards, threads and accept loops in turn, and each of those can fail.  Some
listeners may be accepting, and running sessions, when another one turns out not to come up.  The
one `catch` block then tells every accept loop that is registered to stop and runs `stop()` on
what there is.

The invariant `Hosted` says at each statement of `start()` and `stop()` what has been made so far
and what has been taken down.  It needs no more of the accept loops than that what is read of them
stays (`Accept/Listening.lean`), so they may do anything else meanwhile.

One thing is left out of the main result because no cleanup could follow it: `stop()` posts to
each accept loop, and a post that throws ends it half way.  `failed_post_leaves_threads` shows that
run.
-/

namespace ReactorRuntime

/-- In `start()`, or about to call `stop()` from it. -/
def OwnerPc.isStarting : OwnerPc → Bool
  | .done _ => false
  | .stop .test inStart => inStart
  | .stop _ _ => false
  | _ => true

/-- In `stop()`, past its first statement. -/
def OwnerPc.inStop : OwnerPc → Bool
  | .stop .test _ => false
  | .stop _ _ => true
  | _ => false

lemma Config.listeners_le (cfg : Config) (n : ℕ) : cfg.listeners n ≤ n + 1 := by
  unfold Config.listeners
  split <;> omega

namespace Server

variable {n : ℕ} {cfg : Config} {intact : Prop}

/-! ## What is read of the controls -/

/-- Control `r` has come to listen. -/
def Ready (c : Fin (n + 1) → Option Accept) (r : Fin (n + 1)) : Prop :=
  ∃ a, c r = some a ∧ a.ready = true

/-- The first listener listens at port `p`. -/
def FrontAt (c : Fin (n + 1) → Option Accept) (p : ℕ) : Prop :=
  ∃ a, c 0 = some a ∧ a.ready = true ∧ a.bound = p

/-- Accept loop `r` is over, if there is one. -/
def Over (c : Fin (n + 1) → Option Accept) (r : Fin (n + 1)) : Prop :=
  ∀ a, c r = some a → a.finished = true

/-- There are the same controls, and what was read of them stays. -/
structure Grows (c c' : Fin (n + 1) → Option Accept) : Prop where
  isSome : ∀ r, (c' r).isSome = (c r).isSome
  ready : ∀ r, Ready c r → Ready c' r
  front : ∀ p, FrontAt c p → FrontAt c' p
  ended : ∀ r, Over c r → Over c' r

/-- The controls say the truth, and each takes at most one step. -/
lemma Grows.of_steps {c c' : Fin (n + 1) → Option Accept} {listener : Fin (n + 1) → Listener}
    (htrue : ∀ i a, c i = some a → Accept.Truthful (listener i) a)
    (hstep : ∀ i, c' i = c i ∨ ∃ a act a', c i = some a ∧ a.step (listener i) act = some a' ∧
      c' i = some a') :
    Grows c c' ∧ ∀ i a, c' i = some a → Accept.Truthful (listener i) a := by
  have hstay : ∀ i a, c i = some a → ∃ a', c' i = some a' ∧
      (a.ready = true → a'.ready = true ∧ a'.bound = a.bound) ∧
      (a.finished = true → a'.finished = true) := fun i a ha => by
    rcases hstep i with heq | ⟨b, act, b', hb, hstep, hb'⟩
    · exact ⟨a, heq ▸ ha, fun h => ⟨h, rfl⟩, fun h => h⟩
    · obtain rfl : a = b := Option.some.inj (ha.symm.trans hb)
      exact ⟨b', hb', (htrue i a ha).stays hstep⟩
  refine ⟨⟨fun r => ?_, fun r hr => ?_, fun p hp => ?_, fun r hr a' ha' => ?_⟩, fun i a' ha' => ?_⟩
  · rcases hstep r with heq | ⟨b, act, b', hb, -, hb'⟩
    · rw [heq]
    · rw [hb, hb']
      rfl
  · obtain ⟨a, ha, hready⟩ := hr
    obtain ⟨a', ha', hstay, -⟩ := hstay r a ha
    exact ⟨a', ha', (hstay hready).1⟩
  · obtain ⟨a, ha, hready, hbound⟩ := hp
    obtain ⟨a', ha', hstay, -⟩ := hstay 0 a ha
    exact ⟨a', ha', (hstay hready).1, (hstay hready).2.trans hbound⟩
  · rcases hstep r with heq | ⟨b, act, b', hb, hstep, hb'⟩
    · exact hr a' (heq ▸ ha')
    · obtain rfl : a' = b' := Option.some.inj (ha'.symm.trans hb')
      exact ((htrue r b hb).stays hstep).2 (hr b hb)
  · rcases hstep i with heq | ⟨b, act, b', hb, hstep, hb'⟩
    · exact htrue i a' (heq ▸ ha')
    · obtain rfl : a' = b' := Option.some.inj (ha'.symm.trans hb')
      exact (htrue i b hb).step hstep

/-! ## The invariant -/

/-- The value of `port` in `start()` when accept loop `i` is to be spawned. -/
def PortAt (cfg : Config) (h : Host n) (c : Fin (n + 1) → Option Accept) (i port : ℕ) : Prop :=
  (i = 0 → port = h.requested) ∧
    (0 < i → i < cfg.listeners n → (h.requested ≠ 0 ∧ port = h.requested) ∨ FrontAt c port)

/-- A thread that is not in, or just out of, `run()`. -/
def Gone (t : Thread) : Prop := t ≠ .running ∧ t ≠ .left

/-- What `stop()` has taken down. -/
def StopAt (h : Host n) (c : Fin (n + 1) → Option Accept) : StopPc → Prop
  | .reap i => ∀ r, r.val < i → Over c r
  | .drain _ _ => ∀ r, Over c r
  | .force _ => ∀ r, Over c r
  | .awaitForce _ => ∀ r, Over c r
  | .drainForced _ => ∀ r, Over c r
  | .clearGuards => ∀ r, Over c r
  | .halt _ => (∀ r, Over c r) ∧ h.guards_ = 0
  | .join i => (∀ r, Over c r) ∧ h.guards_ = 0 ∧ ∀ r, r.val < i → Gone (h.thread r)
  | .clear => (∀ r, Over c r) ∧ h.guards_ = 0 ∧ ∀ r, Gone (h.thread r)
  | _ => True

/-- What `start()` has made.  That it has taken everything down when it throws is said only of the
runs in which no post of `stop()` throws: those are the `intact` ones. -/
def HostAt (cfg : Config) (intact : Prop) (h : Host n) (c : Fin (n + 1) → Option Accept) :
    OwnerPc → Prop
  | .guard _ => h.threads_ = 0 ∧ h.accepts_ = 0
  | .claim i => h.threads_ = i ∧ h.accepts_ = 0
  | .thread i => h.threads_ = i ∧ h.accepts_ = 0 ∧ ∃ hi : i < n + 1, h.thread ⟨i, hi⟩ = .claimed
  | .control i port => h.accepts_ = i ∧ i ≤ cfg.listeners n ∧ PortAt cfg h c i port
  | .spawn i port =>
      h.accepts_ = i + 1 ∧ i < cfg.listeners n ∧ PortAt cfg h c i port ∧
        ∀ r, (c r).isSome = true → r.val < i
  | .firstPort i port => h.accepts_ = i + 1 ∧ i < cfg.listeners n ∧ PortAt cfg h c i port
  | .listening i => h.accepts_ = cfg.listeners n ∧ ∀ r, r.val < i → Ready c r
  | .setPort => ∀ r, r.val < cfg.listeners n → Ready c r
  | .done .started => (∀ r, r.val < cfg.listeners n → Ready c r) ∧ FrontAt c h.port_
  | .done .threw => intact →
      (∀ r, Over c r) ∧ h.threads_ = 0 ∧ h.guards_ = 0 ∧ h.accepts_ = 0 ∧ h.started_ = true
  | .stop p _ => StopAt h c p
  | _ => True

/-- The owner's fields and the controls, at each statement. -/
structure Hosted (cfg : Config) (intact : Prop) (h : Host n)
    (c : Fin (n + 1) → Option Accept) : Prop where
  truthful : ∀ i a, c i = some a → Accept.Truthful (cfg.listener (h.portOf i)) a
  loops : ∀ r, h.loops_ r = if h.thread r = .claimed ∨ h.thread r = .running then 1 else 0
  claimed : ∀ r, h.thread r = .claimed → h.pc = .thread r.val
  launched : ∀ r, h.thread r = .running ∨ h.thread r = .left → r.val < h.threads_
  fresh : h.started_ = false → (∀ r, c r = none) ∧ h.threads_ = 0 ∧ h.accepts_ = 0
  starting : h.pc.isStarting = true → h.started_ = true ∧ h.stopped_ = false
  stopping : h.pc.inStop = true → h.stopped_ = true
  /-- `stop()` in the `catch` block. -/
  inside : ∀ p, h.pc = .stop p true → h.started_ = true
  registered : h.stopped_ = false ∨ h.pc.inStop = true →
    ∀ r, (c r).isSome = true → r.val < h.accepts_
  /-- The first listener was asked for the port that was requested, and the others for that or, when
  it was 0, for the one that the first got. -/
  ports : ∀ r, (c r).isSome = true → (r.val = 0 → h.portOf r = h.requested) ∧
    (r.val ≠ 0 → (h.requested ≠ 0 ∧ h.portOf r = h.requested) ∨ FrontAt c (h.portOf r))
  here : HostAt cfg intact h c h.pc

namespace Hosted

variable {h h' : Host n} {c c' : Fin (n + 1) → Option Accept}

lemma initial :
    Hosted cfg intact (Server.initial : Server n).host (Server.initial : Server n).control where
  truthful _ _ ha := by simp [Server.initial] at ha
  loops _ := rfl
  claimed _ hc := by simp [Server.initial] at hc
  launched _ hl := by simp [Server.initial] at hl
  fresh _ := ⟨fun _ => rfl, rfl, rfl⟩
  starting hp := by simp [Server.initial, OwnerPc.isStarting] at hp
  stopping hp := by simp [Server.initial, OwnerPc.inStop] at hp
  inside _ hp := by simp [Server.initial] at hp
  registered _ r hr := by simp [Server.initial] at hr
  ports r hr := by simp [Server.initial] at hr
  here := trivial

lemma stopAt_grows {p : StopPc} (hgrows : Grows c c') (hat : StopAt h c p) : StopAt h c' p := by
  have hall : (∀ r, Over c r) → ∀ r, Over c' r := fun ha r => hgrows.ended r (ha r)
  cases p with
  | reap i => exact fun r hr => hgrows.ended r (hat r hr)
  | drain i d => exact hall hat
  | force i => exact hall hat
  | awaitForce i => exact hall hat
  | drainForced i => exact hall hat
  | clearGuards => exact hall hat
  | halt i => exact ⟨hall hat.1, hat.2⟩
  | join i => exact ⟨hall hat.1, hat.2⟩
  | clear => exact ⟨hall hat.1, hat.2⟩
  | _ => trivial

lemma portAt_grows {i port : ℕ} (hgrows : Grows c c') (hat : PortAt cfg h c i port) :
    PortAt cfg h c' i port :=
  ⟨hat.1, fun hi hl => (hat.2 hi hl).imp_right (hgrows.front port)⟩

lemma hostAt_grows {pc : OwnerPc} (hgrows : Grows c c') (hat : HostAt cfg intact h c pc) :
    HostAt cfg intact h c' pc := by
  have hall : (∀ r, Over c r) → ∀ r, Over c' r := fun ha r => hgrows.ended r (ha r)
  cases pc with
  | done how =>
      cases how with
      | started => exact ⟨fun r hr => hgrows.ready r (hat.1 r hr), hgrows.front _ hat.2⟩
      | threw => exact fun hi => ⟨hall (hat hi).1, (hat hi).2⟩
      | _ => trivial
  | guard i => exact hat
  | claim i => exact hat
  | thread i => exact hat
  | control i port => exact ⟨hat.1, hat.2.1, portAt_grows hgrows hat.2.2⟩
  | spawn i port =>
      exact ⟨hat.1, hat.2.1, portAt_grows hgrows hat.2.2.1, fun r hr =>
        hat.2.2.2 r (hgrows.isSome r ▸ hr)⟩
  | firstPort i port => exact ⟨hat.1, hat.2.1, portAt_grows hgrows hat.2.2⟩
  | listening i => exact ⟨hat.1, fun r hr => hgrows.ready r (hat.2 r hr)⟩
  | setPort => exact fun r hr => hgrows.ready r (hat r hr)
  | flag i => trivial
  | poll i => trivial
  | stop p b => exact stopAt_grows hgrows hat

/-- The accept loops go on, or are told something. -/
lemma grow (hh : Hosted cfg intact h c) (hgrows : Grows c c')
    (htrue : ∀ i a, c' i = some a → Accept.Truthful (cfg.listener (h.portOf i)) a) :
    Hosted cfg intact h c' where
  truthful := htrue
  loops := hh.loops
  claimed := hh.claimed
  launched := hh.launched
  fresh hs := by
    obtain ⟨hnone, hrest⟩ := hh.fresh hs
    refine ⟨fun r => ?_, hrest⟩
    have := hgrows.isSome r
    simpa [hnone r] using this
  starting := hh.starting
  stopping := hh.stopping
  inside := hh.inside
  registered hp r hr := hh.registered hp r (hgrows.isSome r ▸ hr)
  ports r hr := by
    obtain ⟨hzero, hother⟩ := hh.ports r (hgrows.isSome r ▸ hr)
    exact ⟨hzero, fun hne => (hother hne).imp_right (hgrows.front _)⟩
  here := hostAt_grows hgrows hh.here

/-! ## The owner's statements -/

/-- A statement of the owner that leaves the threads alone, and takes no control off the list. -/
structure Keeps (h h' : Host n) : Prop where
  started_ : h'.started_ = h.started_
  stopped_ : h'.stopped_ = h.stopped_
  thread : h'.thread = h.thread
  loops_ : h'.loops_ = h.loops_
  threads_ : h'.threads_ = h.threads_
  portOf : h'.portOf = h.portOf
  requested : h'.requested = h.requested
  accepts_ : h'.accepts_ = h.accepts_ ∨ h.pc.isStarting = true ∧ h.accepts_ ≤ h'.accepts_
  notThread : ∀ i, h.pc ≠ .thread i
  starting : h'.pc.isStarting = true → h.pc.isStarting = true
  inStop : h'.pc.inStop = true → h.pc.inStop = true
  inside : ∀ p, h'.pc = .stop p true → h.pc.isStarting = true ∨ ∃ p', h.pc = .stop p' true

lemma move (hh : Hosted cfg intact h c) (hk : Keeps h h') (here : HostAt cfg intact h' c h'.pc) :
    Hosted cfg intact h' c where
  truthful i a ha := by
    rw [hk.portOf]
    exact hh.truthful i a ha
  loops r := by
    rw [hk.loops_, hk.thread]
    exact hh.loops r
  claimed r hr := absurd (hh.claimed r (hk.thread ▸ hr)) (hk.notThread _)
  launched r hr := by
    rw [hk.threads_]
    exact hh.launched r (hk.thread ▸ hr)
  fresh hs := by
    rw [hk.started_] at hs
    obtain ⟨hnone, hthreads, haccepts⟩ := hh.fresh hs
    refine ⟨hnone, hk.threads_.trans hthreads, ?_⟩
    rcases hk.accepts_ with heq | ⟨hstarting, -⟩
    · exact heq.trans haccepts
    · rw [(hh.starting hstarting).1] at hs
      cases hs
  starting hp := by
    rw [hk.started_, hk.stopped_]
    exact hh.starting (hk.starting hp)
  stopping hp := hk.stopped_.trans (hh.stopping (hk.inStop hp))
  inside p hp := by
    rw [hk.started_]
    rcases hk.inside p hp with hstarting | ⟨p', hp'⟩
    · exact (hh.starting hstarting).1
    · exact hh.inside p' hp'
  registered hp r hr := by
    have hlt := hh.registered (hp.imp (fun h => hk.stopped_ ▸ h) hk.inStop) r hr
    rcases hk.accepts_ with heq | ⟨-, hle⟩ <;> omega
  ports r hr := by
    rw [hk.portOf, hk.requested]
    exact hh.ports r hr
  here := here

lemma jump (hh : Hosted cfg intact h c) {pc : OwnerPc} (hpc : h.pc.isStarting = true)
    (hnot : ∀ i, h.pc ≠ .thread i) (hstop : pc.inStop = false)
    (here : HostAt cfg intact { h with pc := pc } c pc) : Hosted cfg intact { h with pc := pc } c :=
  hh.move ⟨rfl, rfl, rfl, rfl, rfl, rfl, rfl, .inl rfl, hnot, fun _ => hpc,
    fun h => absurd (hstop.symm.trans h) (by simp), fun _ _ => .inl hpc⟩ here

/-- A jump to where neither `start()` nor `stop()` has anything to say. -/
lemma pause (hh : Hosted cfg intact h c) {pc : OwnerPc} (hnot : ∀ i, h.pc ≠ .thread i)
    (hstart : pc.isStarting = false) (hstop : pc.inStop = false) (hinside : ∀ p, pc ≠ .stop p true)
    (here : HostAt cfg intact { h with pc := pc } c pc) : Hosted cfg intact { h with pc := pc } c :=
  hh.move ⟨rfl, rfl, rfl, rfl, rfl, rfl, rfl, .inl rfl, hnot,
    fun h => absurd (hstart.symm.trans h) (by simp),
    fun h => absurd (hstop.symm.trans h) (by simp), fun p hp => absurd hp (hinside p)⟩ here

lemma jumpStop (hh : Hosted cfg intact h c) {p p' : StopPc} {b : Bool} (hpc : h.pc = .stop p b)
    (hp : (OwnerPc.stop p b).inStop = true) (hp' : (OwnerPc.stop p' b).inStop = true)
    (here : StopAt h c p') : Hosted cfg intact { h with pc := .stop p' b } c := by
  have hin : h.pc.inStop = true := hpc ▸ hp
  refine hh.move ⟨rfl, rfl, rfl, rfl, rfl, rfl, rfl, .inl rfl, ?_, ?_, fun _ => hin, ?_⟩ ?_
  · simp [hpc]
  · intro hstarting
    cases p' <;> simp [OwnerPc.isStarting, OwnerPc.inStop] at hstarting hp'
  · intro q hq
    cases hq
    exact .inr ⟨p, hpc⟩
  · cases p' <;> exact here

/-- Nothing was claimed or launched for the reactors that `start()` has not come to. -/
lemma loops_eq_zero (hh : Hosted cfg intact h c) {r : Fin (n + 1)} (hnot : ∀ i, h.pc ≠ .thread i)
    (hr : h.threads_ ≤ r.val) : h.loops_ r = 0 := by
  rw [hh.loops r, if_neg]
  rintro (hclaimed | hrunning)
  · exact hnot _ (hh.claimed r hclaimed)
  · exact absurd (hh.launched r (.inl hrunning)) (by omega)

lemma claim_ {i : ℕ} (hh : Hosted cfg intact h c) (hi : i < n + 1) (hpc : h.pc = .claim i) :
    Hosted cfg intact
      { h with
        loops_ := Function.update h.loops_ ⟨i, hi⟩ (h.loops_ ⟨i, hi⟩ + 1)
        thread := Function.update h.thread ⟨i, hi⟩ .claimed
        pc := .thread i } c := by
  have hat := hh.here
  rw [hpc] at hat
  obtain ⟨hthreads, haccepts⟩ := hat
  have hnone : h.loops_ ⟨i, hi⟩ = 0 := hh.loops_eq_zero (by simp [hpc]) (by simp [hthreads])
  have hstarting : h.pc.isStarting = true := by rw [hpc]; rfl
  refine ⟨hh.truthful, fun r => ?_, fun r hr => ?_, fun r hr => ?_, hh.fresh,
    fun _ => hh.starting hstarting, nofun, nofun, ?_, hh.ports, ?_⟩
  · by_cases hr : r = ⟨i, hi⟩
    · subst hr
      simp [hnone]
    · simpa [hr] using hh.loops r
  · by_cases heq : r = ⟨i, hi⟩
    · rw [heq]
    · have := hh.claimed r (by simpa [heq] using hr)
      simp [hpc] at this
  · by_cases heq : r = ⟨i, hi⟩
    · simp [heq] at hr
    · exact hh.launched r (by simpa [heq] using hr)
  · rintro (hs | hs)
    · exact hh.registered (.inl hs)
    · cases hs
  · exact ⟨hthreads, haccepts, hi, by simp⟩

/-- The thread of reactor `i` is launched, or its claim is given back. -/
lemma launch {i : ℕ} (hh : Hosted cfg intact h c) (hi : i < n + 1) (hpc : h.pc = .thread i)
    {t : Thread} {m : ℕ} {l : Fin (n + 1) → ℕ} {pc : OwnerPc}
    (hpc' : pc = .claim (i + 1) ∧ m = i + 1 ∨ pc = .flag 0 ∧ i ≤ m)
    (hl : ∀ r, r ≠ ⟨i, hi⟩ → l r = h.loops_ r)
    (ht : t = .running ∧ i < m ∧ l ⟨i, hi⟩ = 1 ∨ t = .none ∧ l ⟨i, hi⟩ = 0) :
    Hosted cfg intact
      { h with
        threads_ := m
        loops_ := l
        thread := Function.update h.thread ⟨i, hi⟩ t
        pc := pc } c := by
  have hat := hh.here
  rw [hpc] at hat
  obtain ⟨hthreads, haccepts, -, -⟩ := hat
  have hstarting : h.pc.isStarting = true := by rw [hpc]; rfl
  have hstop : pc.inStop = false := by rcases hpc' with ⟨rfl, -⟩ | ⟨rfl, -⟩ <;> rfl
  have hm : i ≤ m := by omega
  refine ⟨hh.truthful, fun r => ?_, fun r hr => ?_, fun r hr => ?_, fun hs => ?_,
    fun _ => hh.starting hstarting, fun hp => ?_, fun p hp => ?_, ?_, hh.ports, ?_⟩
  · by_cases hr : r = ⟨i, hi⟩
    · subst hr
      rcases ht with ⟨rfl, -, hl⟩ | ⟨rfl, hl⟩ <;> simp [hl]
    · simpa [hr, hl r hr] using hh.loops r
  · by_cases heq : r = ⟨i, hi⟩
    · rcases ht with ⟨rfl, -⟩ | ⟨rfl, -⟩ <;> simp [heq] at hr
    · have hri := hh.claimed r (by simpa [heq] using hr)
      rw [hpc] at hri
      exact absurd (Fin.ext (OwnerPc.thread.inj hri).symm) heq
  · by_cases heq : r = ⟨i, hi⟩
    · rcases ht with ⟨-, hlt, -⟩ | ⟨rfl, -⟩
      · rw [heq]
        exact hlt
      · simp [heq] at hr
    · have := hh.launched r (by simpa [heq] using hr)
      exact Nat.lt_of_lt_of_le this (hthreads.trans_le hm)
  · rw [(hh.starting hstarting).1] at hs
    cases hs
  · exact absurd (hstop.symm.trans hp) (by simp)
  · rcases hpc' with ⟨rfl, -⟩ | ⟨rfl, -⟩ <;> cases hp
  · rintro (hs | hs)
    · exact hh.registered (.inl hs)
    · exact absurd (hstop.symm.trans hs) (by simp)
  · rcases hpc' with ⟨rfl, rfl⟩ | ⟨rfl, -⟩
    · exact ⟨rfl, haccepts⟩
    · trivial

/-- Accept loop `i` is spawned, or fails to be. -/
lemma spawn_ {i port : ℕ} (hh : Hosted cfg intact h c) (hi : i < n + 1) (hpc : h.pc = .spawn i port)
    {a : Accept} (ha : Accept.Truthful (cfg.listener port) a) {pc : OwnerPc}
    (hpc' : pc = .firstPort i port ∨ pc = .flag 0) :
    Hosted cfg intact { h with portOf := Function.update h.portOf ⟨i, hi⟩ port, pc := pc }
      (Function.update c ⟨i, hi⟩ (some a)) := by
  have hat := hh.here
  rw [hpc] at hat
  obtain ⟨haccepts, hlt, hport, hbefore⟩ := hat
  have hstarting : h.pc.isStarting = true := by rw [hpc]; rfl
  have hstop : pc.inStop = false := by rcases hpc' with rfl | rfl <;> rfl
  have hfront : ∀ p, FrontAt c p → FrontAt (Function.update c ⟨i, hi⟩ (some a)) p := by
    rintro p ⟨b, hb, hrest⟩
    have hne : (0 : Fin (n + 1)) ≠ ⟨i, hi⟩ := fun heq => by
      have h0 := hbefore 0 (by simp [hb])
      have hv := congrArg Fin.val heq
      simp only [Fin.val_zero] at h0 hv
      omega
    exact ⟨b, by simpa [hne] using hb, hrest⟩
  refine ⟨fun r b hb => ?_, hh.loops, fun r hr => ?_, hh.launched, fun hs => ?_,
    fun _ => hh.starting hstarting, fun hp => ?_, fun p hp => ?_, ?_, fun r hr => ?_, ?_⟩
  · by_cases heq : r = ⟨i, hi⟩
    · subst heq
      obtain rfl : a = b := by simpa using hb
      simpa using ha
    · simpa [heq] using hh.truthful r b (by simpa [heq] using hb)
  · have := hh.claimed r hr
    simp [hpc] at this
  · rw [(hh.starting hstarting).1] at hs
    cases hs
  · exact absurd (hstop.symm.trans hp) (by simp)
  · rcases hpc' with rfl | rfl <;> cases hp
  · rintro (hs | hs) r hr
    · show r.val < h.accepts_
      by_cases heq : r = ⟨i, hi⟩
      · rw [heq, haccepts]
        exact Nat.lt_succ_self i
      · exact hh.registered (.inl hs) r (by simpa [heq] using hr)
    · exact absurd (hstop.symm.trans hs) (by simp)
  · by_cases heq : r = ⟨i, hi⟩
    · subst heq
      simp only [Function.update_self]
      exact ⟨hport.1, fun hne => (hport.2 (Nat.pos_of_ne_zero hne) hlt).imp_right (hfront _)⟩
    · obtain ⟨hzero, hother⟩ := hh.ports r (by simpa [heq] using hr)
      simp only [Function.update_of_ne heq]
      exact ⟨hzero, fun hne => (hother hne).imp_right (hfront _)⟩
  · rcases hpc' with rfl | rfl
    · exact ⟨haccepts, hlt, hport.1, fun h0 hl => (hport.2 h0 hl).imp_right (hfront _)⟩
    · trivial

end Hosted

section Steps

variable {s s' : Server n}

/-- `wait_listening()` of a listener that came to listen, or the way into the `catch` block. -/
lemma Hosted.of_waitListening (hh : Hosted cfg intact s.host s.control) {i : Fin (n + 1)}
    {next : Accept → OwnerPc} (hpc : s.host.pc.isStarting = true)
    (hnot : ∀ i, s.host.pc ≠ .thread i)
    (h : s.waitListening i next = some s')
    (hnext : ∀ a, s.control i = some a → a.ready = true → (next a).inStop = false ∧
      HostAt cfg intact { s.host with pc := next a } s.control (next a)) :
    Hosted cfg intact s'.host s'.control := by
  obtain ⟨a, ha, h⟩ := Option.bind_eq_some_iff.mp h
  split at h
  · next hready =>
      cases h
      exact hh.jump hpc hnot (hnext a ha hready).1 (hnext a ha hready).2
  · split at h
    · cases h
      exact hh.jump hpc hnot rfl trivial
    · cases h

lemma Hosted.of_acceptAct (hh : Hosted cfg intact s.host s.control) {i : Fin (n + 1)}
    {act : Accept.Act} (h : s.acceptAct cfg i act = some s') :
    Hosted cfg intact s'.host s'.control := by
  have hbeside := beside_of_acceptAct h
  obtain ⟨hgrows, htrue⟩ := Grows.of_steps hh.truthful hbeside.control
  rw [hbeside.host]
  exact hh.grow hgrows htrue

/-- `start()` makes the next accept control, or has them all. -/
lemma Hosted.control_ (hh : Hosted cfg intact s.host s.control) {ok : Bool} {i port : ℕ}
    (hpc : s.host.pc = .control i port) (h : s.startStep cfg ok (.control i port) = some s') :
    Hosted cfg intact s'.host s'.control := by
  have hat := hh.here
  rw [hpc] at hat
  have hnot : ∀ i, s.host.pc ≠ .thread i := by simp [hpc]
  have hstarting : s.host.pc.isStarting = true := by rw [hpc]; rfl
  obtain ⟨haccepts, hle, hport⟩ := hat
  simp only [startStep] at h
  rcases each_cases h with ⟨hi, hlt, h⟩ | ⟨hover, rfl⟩
  · split at h <;> cases h
    · refine hh.move ⟨rfl, rfl, rfl, rfl, rfl, rfl, rfl, .inr ⟨hstarting, Nat.le_succ _⟩, hnot,
        fun _ => hstarting, (fun h => by cases h), fun _ h => by cases h⟩
        ⟨congrArg (· + 1) haccepts, hlt, hport, fun r hr => ?_⟩
      exact haccepts ▸ hh.registered (.inl (hh.starting hstarting).2) r hr
    · exact hh.jump hstarting hnot rfl trivial
  · have hbound := cfg.listeners_le n
    exact hh.jump hstarting hnot rfl ⟨show s.host.accepts_ = _ by omega, fun _ hr => by omega⟩

/-- `start()` waits for the first listener if it is to tell the port. -/
lemma Hosted.firstPort_ (hh : Hosted cfg intact s.host s.control) {ok : Bool} {i port : ℕ}
    (hpc : s.host.pc = .firstPort i port) (h : s.startStep cfg ok (.firstPort i port) = some s') :
    Hosted cfg intact s'.host s'.control := by
  have hat := hh.here
  rw [hpc] at hat
  have hnot : ∀ i, s.host.pc ≠ .thread i := by simp [hpc]
  have hstarting : s.host.pc.isStarting = true := by rw [hpc]; rfl
  obtain ⟨haccepts, hlt, hport⟩ := hat
  simp only [startStep] at h
  split at h
  · refine hh.of_waitListening hstarting hnot h fun a ha hready => ⟨rfl, haccepts, hlt, ?_⟩
    exact ⟨fun h => absurd h (Nat.succ_ne_zero i), fun _ _ => .inr ⟨a, ha, hready, rfl⟩⟩
  · next hfirst =>
      cases h
      refine hh.jump hstarting hnot rfl
        ⟨haccepts, hlt, fun h => absurd h (Nat.succ_ne_zero i), fun _ hnext => ?_⟩
      rcases Nat.eq_zero_or_pos i with hzero | hpos
      · -- with one shared listener there is no second one
        have hshared : cfg.shared n = false := by
          cases hb : cfg.shared n with
          | false => rfl
          | true =>
              have : cfg.listeners n = 1 := by simp [Config.listeners, hb]
              omega
        have hne : port ≠ 0 := fun h0 => hfirst ⟨h0, hshared⟩
        exact .inl ⟨hport.1 hzero ▸ hne, hport.1 hzero⟩
      · exact hport.2 hpos hlt

lemma Hosted.listening_ (hh : Hosted cfg intact s.host s.control) {ok : Bool} {i : ℕ}
    (hpc : s.host.pc = .listening i) (h : s.startStep cfg ok (.listening i) = some s') :
    Hosted cfg intact s'.host s'.control := by
  have hat := hh.here
  rw [hpc] at hat
  have hnot : ∀ i, s.host.pc ≠ .thread i := by simp [hpc]
  have hstarting : s.host.pc.isStarting = true := by rw [hpc]; rfl
  obtain ⟨haccepts, hready⟩ := hat
  simp only [startStep] at h
  rcases each_cases h with ⟨hi, hlt, h⟩ | ⟨hover, rfl⟩
  · refine hh.of_waitListening hstarting hnot h fun a ha hr => ⟨rfl, haccepts, fun r hlt => ?_⟩
    rcases Nat.lt_succ_iff_lt_or_eq.mp hlt with hlt | heq
    · exact hready r hlt
    · obtain rfl : r = ⟨i, hi⟩ := Fin.ext heq
      exact ⟨a, ha, hr⟩
  · exact hh.jump hstarting hnot rfl fun r hr => hready r (by omega)

lemma Hosted.setPort_ (hh : Hosted cfg intact s.host s.control) {ok : Bool}
    (hpc : s.host.pc = .setPort) (h : s.startStep cfg ok .setPort = some s') :
    Hosted cfg intact s'.host s'.control := by
  have hat := hh.here
  rw [hpc] at hat
  have hnot : ∀ i, s.host.pc ≠ .thread i := by simp [hpc]
  obtain ⟨front, hfront, rfl⟩ := Option.map_eq_some_iff.mp h
  refine hh.move ⟨rfl, rfl, rfl, rfl, rfl, rfl, rfl, .inl rfl, hnot, (fun h => by cases h),
    (fun h => by cases h), fun _ h => by cases h⟩
    ⟨hat, front, hfront, ?_, rfl⟩
  obtain ⟨a, ha, hready⟩ := hat 0 (by simp [Config.listeners]; split <;> omega)
  obtain rfl : front = a := Option.some.inj (hfront.symm.trans ha)
  exact hready

lemma Hosted.of_startStep (hh : Hosted cfg intact s.host s.control) {ok : Bool} {pc : OwnerPc}
    (hpc : s.host.pc = pc) (h : s.startStep cfg ok pc = some s') :
    Hosted cfg intact s'.host s'.control := by
  have hat := hh.here
  rw [hpc] at hat
  cases pc with
  | done how => cases h
  | stop p b => cases h
  | guard i =>
      have hnot : ∀ i, s.host.pc ≠ .thread i := by simp [hpc]
      have hstarting : s.host.pc.isStarting = true := by rw [hpc]; rfl
      simp only [startStep] at h
      rcases each_cases h with ⟨hi, -, h⟩ | ⟨-, rfl⟩
      · split at h <;> cases h
        · exact hh.move ⟨rfl, rfl, rfl, rfl, rfl, rfl, rfl, .inl rfl, hnot, fun _ => hstarting,
            (fun h => by cases h), fun _ h => by cases h⟩ hat
        · exact hh.jump hstarting hnot rfl trivial
      · exact hh.jump hstarting hnot rfl hat
  | claim i =>
      simp only [startStep] at h
      rcases each_cases h with ⟨hi, -, h⟩ | ⟨-, rfl⟩
      · cases h
        exact hh.claim_ hi hpc
      · exact hh.jump (by rw [hpc]; rfl) (by simp [hpc]) rfl
          ⟨hat.2, Nat.zero_le _, fun _ => rfl, fun h0 => absurd h0 (by simp)⟩
  | thread i =>
      obtain ⟨hthreads, -, hi, hclaimed⟩ := hat
      have hone : s.host.loops_ ⟨i, hi⟩ = 1 := by simp [hh.loops, hclaimed]
      simp only [startStep] at h
      rcases each_cases h with ⟨_, -, h⟩ | ⟨hover, -⟩
      · split at h <;> cases h
        · exact hh.launch hi hpc (.inl ⟨rfl, by rw [hthreads]⟩) (fun _ _ => rfl)
            (.inl ⟨rfl, Nat.lt_succ_of_le hthreads.ge, hone⟩)
        · exact hh.launch hi hpc (.inr ⟨rfl, hthreads.ge⟩) (fun r hr => Function.update_of_ne hr ..)
            (.inr ⟨rfl, by simp [hone]⟩)
      · exact absurd ⟨hi, hi⟩ hover
  | control i port => exact hh.control_ hpc h
  | spawn i port =>
      have hlt := hat.2.1
      have hbound := cfg.listeners_le n
      simp only [startStep] at h
      rcases each_cases h with ⟨hi, -, h⟩ | ⟨hover, -⟩
      · cases h
        cases ok with
        | true => exact hh.spawn_ hi hpc (.initial _) (.inl rfl)
        | false => exact hh.spawn_ hi hpc (.unspawned _) (.inr rfl)
      · omega
  | firstPort i port => exact hh.firstPort_ hpc h
  | listening i => exact hh.listening_ hpc h
  | setPort => exact hh.setPort_ hpc h
  | flag i =>
      have hnot : ∀ i, s.host.pc ≠ .thread i := by simp [hpc]
      have hstarting : s.host.pc.isStarting = true := by rw [hpc]; rfl
      simp only [startStep] at h
      rcases each_cases h with ⟨hi, -, h⟩ | ⟨-, rfl⟩
      · obtain ⟨t, ht, rfl⟩ := Option.map_eq_some_iff.mp h
        have hhost := (beside_of_acceptAct ht).host
        exact (hh.of_acceptAct ht).jump (by rw [hhost]; exact hstarting) (by rw [hhost]; exact hnot)
          rfl trivial
      · exact hh.jump hstarting hnot rfl trivial
  | poll i =>
      have hnot : ∀ i, s.host.pc ≠ .thread i := by simp [hpc]
      have hstarting : s.host.pc.isStarting = true := by rw [hpc]; rfl
      simp only [startStep] at h
      rcases each_cases h with ⟨hi, -, h⟩ | ⟨-, rfl⟩
      · cases h
        exact hh.jump hstarting hnot rfl trivial
      · exact hh.jump hstarting hnot rfl trivial

lemma Hosted.of_test (hh : Hosted cfg intact s.host s.control) {ok b : Bool}
    (hpc : s.host.pc = .stop .test b) (h : s.stopStep cfg ok b .test = some s') :
    Hosted cfg intact s'.host s'.control := by
  have hnot : ∀ i, s.host.pc ≠ .thread i := by simp [hpc]
  simp only [stopStep] at h
  split at h
  · next hstopped =>
      cases h
      cases b with
      | true =>
          have := (hh.starting (by rw [hpc]; rfl)).2
          exact absurd (this.symm.trans hstopped) (by simp)
      | false =>
          exact hh.pause hnot rfl rfl (fun _ h => by cases h) trivial
  · next hstopped =>
      cases h
      refine ⟨hh.truthful, hh.loops, fun r hr => absurd (hh.claimed r hr) (hnot _), hh.launched,
        hh.fresh, (fun h => by cases h), fun _ => rfl, fun p hp => ?_, fun _ => ?_, hh.ports,
        trivial⟩
      · cases hp
        exact hh.inside _ hpc
      · exact hh.registered (.inl (by simpa using hstopped))

lemma Hosted.join_ {h : Host n} {c : Fin (n + 1) → Option Accept} (hh : Hosted cfg intact h c)
    {i : ℕ} {b : Bool} (hpc : h.pc = .stop (.join i) b) (hi : i < n + 1)
    (hleft : h.thread ⟨i, hi⟩ = .left) :
    Hosted cfg intact
      { h with thread := Function.update h.thread ⟨i, hi⟩ .joined, pc := .stop (.join (i + 1)) b }
      c := by
  have hat := hh.here
  rw [hpc] at hat
  obtain ⟨hover, hguards, hgone⟩ := hat
  refine ⟨hh.truthful, fun r => ?_, fun r hr => ?_, fun r hr => ?_, hh.fresh, nofun,
    fun _ => hh.stopping (by rw [hpc]; rfl), fun p hp => ?_, fun _ => ?_, hh.ports,
    hover, hguards, fun r hr => ?_⟩
  · by_cases heq : r = ⟨i, hi⟩
    · subst heq
      simpa [hleft] using hh.loops ⟨i, hi⟩
    · simpa [heq] using hh.loops r
  · by_cases heq : r = ⟨i, hi⟩
    · simp [heq] at hr
    · have := hh.claimed r (by simpa [heq] using hr)
      simp [hpc] at this
  · by_cases heq : r = ⟨i, hi⟩
    · simp [heq] at hr
    · exact hh.launched r (by simpa [heq] using hr)
  · cases hp
    exact hh.inside _ hpc
  · exact hh.registered (.inr (by rw [hpc]; rfl))
  · by_cases heq : r = ⟨i, hi⟩
    · simp [heq, Gone]
    · have hne : r.val ≠ i := fun hv => heq (Fin.ext hv)
      simpa [heq] using hgone r (by omega)

/-- The last statements of `stop()`. -/
lemma Hosted.clear_ {h : Host n} {c : Fin (n + 1) → Option Accept} (hh : Hosted cfg intact h c)
    {b : Bool} (hpc : h.pc = .stop .clear b) :
    Hosted cfg intact { h with threads_ := 0, accepts_ := 0, pc := stopEnd b } c := by
  have hat := hh.here
  rw [hpc] at hat
  obtain ⟨hover, hguards, hgone⟩ := hat
  have hstopped : h.stopped_ = true := hh.stopping (by rw [hpc]; rfl)
  refine ⟨hh.truthful, hh.loops, fun r hr => ?_, fun r hr => ?_,
    fun hs => ⟨(hh.fresh hs).1, rfl, rfl⟩, nofun, nofun, nofun, fun hp => ?_, hh.ports, ?_⟩
  · have := hh.claimed r hr
    simp [hpc] at this
  · exact (hr.elim (hgone r).1 (hgone r).2).elim
  · rcases hp with hp | hp
    · exact absurd (hstopped.symm.trans hp) (by simp)
    · cases hp
  · cases b with
    | true => exact fun _ => ⟨hover, rfl, hguards, rfl, hh.inside _ hpc⟩
    | false => trivial

/-- Every control is registered, so `stop()` has waited for all of them. -/
lemma Hosted.all_over (hh : Hosted cfg intact s.host s.control) {i : ℕ} {b : Bool}
    (hpc : s.host.pc = .stop (.reap i) b) (hend : ¬(i < n + 1 ∧ i < s.host.accepts_))
    (hover : ∀ r, r.val < i → Over s.control r) (r : Fin (n + 1)) : Over s.control r := by
  intro a ha
  have hlt := hh.registered (.inr (by rw [hpc]; rfl)) r (by simp [ha])
  exact hover r (by omega) a ha

lemma Hosted.of_stopStep (hh : Hosted cfg intact s.host s.control) {ok b : Bool} {p : StopPc}
    (hpc : s.host.pc = .stop p b) (h : s.stopStep cfg ok b p = some s') :
    Hosted cfg intact s'.host s'.control := by
  have hat := hh.here
  rw [hpc] at hat
  cases p with
  | test => exact hh.of_test hpc h
  | abort i =>
      simp only [stopStep] at h
      rcases each_cases h with ⟨hi, -, h⟩ | ⟨-, rfl⟩
      · obtain ⟨t, ht, rfl⟩ := Option.map_eq_some_iff.mp h
        obtain ⟨l, -, rfl⟩ := Option.map_eq_some_iff.mp ht
        exact hh.jumpStop hpc rfl rfl trivial
      · exact hh.jumpStop hpc rfl rfl trivial
  | awaitAbort i =>
      simp only [stopStep] at h
      rcases each_cases h with ⟨hi, -, h⟩ | ⟨-, rfl⟩
      · obtain ⟨-, h⟩ := Option.ite_none_right_eq_some.mp h
        cases h
        exact hh.jumpStop hpc rfl rfl trivial
      · exact hh.jumpStop hpc rfl rfl trivial
  | store i | post i =>
      simp only [stopStep] at h
      rcases each_cases h with ⟨hi, -, h⟩ | ⟨-, rfl⟩
      · obtain ⟨t, ht, rfl⟩ := Option.map_eq_some_iff.mp h
        rw [← (beside_of_acceptAct ht).host] at hpc
        exact (hh.of_acceptAct ht).jumpStop hpc rfl rfl trivial
      · exact hh.jumpStop hpc rfl rfl fun r hr => absurd hr (by simp)
  | reap i =>
      simp only [stopStep] at h
      rcases each_cases h with ⟨hi, -, h⟩ | ⟨hend, rfl⟩
      · obtain ⟨hfinished, h⟩ := Option.ite_none_right_eq_some.mp h
        cases h
        refine hh.jumpStop hpc rfl rfl fun r hr a ha => ?_
        rcases Nat.lt_succ_iff_lt_or_eq.mp hr with hlt | heq
        · exact hat r hlt a ha
        · obtain rfl : r = ⟨i, hi⟩ := Fin.ext heq
          simpa [ha] using hfinished
      · exact hh.jumpStop hpc rfl rfl (hh.all_over hpc hend hat)
  | drain i d =>
      simp only [stopStep] at h
      rcases each_cases h with ⟨hi, -, h⟩ | ⟨-, rfl⟩
      · obtain ⟨-, h⟩ := Option.ite_none_right_eq_some.mp h
        cases h
        exact hh.jumpStop hpc rfl rfl hat
      · cases d <;> exact hh.jumpStop hpc rfl rfl hat
  | force i =>
      simp only [stopStep] at h
      rcases each_cases h with ⟨hi, -, h⟩ | ⟨-, rfl⟩
      · obtain ⟨t, ht, rfl⟩ := Option.map_eq_some_iff.mp h
        obtain ⟨l, -, rfl⟩ := Option.map_eq_some_iff.mp ht
        exact hh.jumpStop hpc rfl rfl hat
      · exact hh.jumpStop hpc rfl rfl hat
  | awaitForce i | drainForced i =>
      simp only [stopStep] at h
      rcases each_cases h with ⟨hi, -, h⟩ | ⟨-, rfl⟩
      · obtain ⟨-, h⟩ := Option.ite_none_right_eq_some.mp h
        cases h
        exact hh.jumpStop hpc rfl rfl hat
      · exact hh.jumpStop hpc rfl rfl hat
  | clearGuards =>
      cases h
      refine hh.move ⟨rfl, rfl, rfl, rfl, rfl, rfl, rfl, .inl rfl, ?_, (fun h => by cases h),
        fun _ => ?_, ?_⟩ ⟨hat, rfl⟩
      · simp [hpc]
      · rw [hpc]; rfl
      · intro q hq
        cases hq
        exact .inr ⟨_, hpc⟩
  | halt i =>
      simp only [stopStep] at h
      rcases each_cases h with ⟨hi, -, h⟩ | ⟨-, rfl⟩
      · cases h
        exact hh.jumpStop hpc rfl rfl hat
      · exact hh.jumpStop hpc rfl rfl ⟨hat.1, hat.2, fun r hr => absurd hr (by simp)⟩
  | join i =>
      simp only [stopStep] at h
      rcases each_cases h with ⟨hi, -, h⟩ | ⟨hend, rfl⟩
      · obtain ⟨hleft, h⟩ := Option.ite_none_right_eq_some.mp h
        cases h
        exact hh.join_ hpc hi hleft
      · refine hh.jumpStop hpc rfl rfl ⟨hat.1, hat.2.1, fun r => ?_⟩
        -- a thread that is running or has left `run()` was launched, so it has been joined
        by_cases hr : s.host.thread r = .running ∨ s.host.thread r = .left
        · have hlt := hh.launched r hr
          exact hat.2.2 r (by omega)
        · exact not_or.mp hr
  | clear =>
      cases h
      exact hh.clear_ hpc

lemma Hosted.leave_ {h : Host n} {c : Fin (n + 1) → Option Accept} (hh : Hosted cfg intact h c)
    {r : Fin (n + 1)} (hrunning : h.thread r = .running) :
    Hosted cfg intact
      { h with
        thread := Function.update h.thread r .left
        loops_ := Function.update h.loops_ r (h.loops_ r - 1) } c := by
  refine ⟨hh.truthful, fun q => ?_, fun q hq => ?_, fun q hq => ?_, hh.fresh, hh.starting,
    hh.stopping, hh.inside, hh.registered, hh.ports, ?_⟩
  · by_cases heq : q = r
    · subst heq
      simp [hh.loops, hrunning]
    · simpa [heq] using hh.loops q
  · by_cases heq : q = r
    · simp [heq] at hq
    · exact hh.claimed q (by simpa [heq] using hq)
  · by_cases heq : q = r
    · exact hh.launched q (.inl (heq ▸ hrunning))
    · exact hh.launched q (by simpa [heq] using hq)
  · -- only `.thread`, `.join` and `.clear` say something of the threads
    have hat := hh.here
    have hgone : ∀ q, Gone (h.thread q) → q ≠ r := fun q hq heq => hq.1 (heq ▸ hrunning)
    cases hpc : h.pc with
    | thread i =>
        rw [hpc] at hat
        obtain ⟨hthreads, haccepts, hi, hclaimed⟩ := hat
        have hne : (⟨i, hi⟩ : Fin (n + 1)) ≠ r := fun heq => by simp [heq, hrunning] at hclaimed
        exact ⟨hthreads, haccepts, hi, by simpa [hne] using hclaimed⟩
    | stop p b =>
        rw [hpc] at hat
        cases p with
        | join i =>
            refine ⟨hat.1, hat.2.1, fun q hq => ?_⟩
            simpa [hgone q (hat.2.2 q hq)] using hat.2.2 q hq
        | clear => exact absurd rfl (hgone r (hat.2.2 r))
        | _ => exact hat
    | done how =>
        rw [hpc] at hat
        cases how <;> exact hat
    | _ =>
        rw [hpc] at hat
        exact hat

lemma Hosted.callStart (hh : Hosted cfg intact s.host s.control)
    (hdone : isDone s.host.pc = true) (port : ℕ) :
    Hosted cfg intact (s.callStart port).host (s.callStart port).control := by
  have hnot : ∀ i, s.host.pc ≠ .thread i := fun i hpc => by simp [hpc, isDone] at hdone
  unfold Server.callStart
  split
  · exact hh.pause hnot rfl rfl nofun trivial
  · next hflags =>
      obtain ⟨hstarted, hstopped⟩ : s.host.started_ = false ∧ s.host.stopped_ = false := by
        simpa using hflags
      obtain ⟨hnone, hthreads, haccepts⟩ := hh.fresh hstarted
      refine ⟨hh.truthful, hh.loops, fun r hr => absurd (hh.claimed r hr) (hnot _), hh.launched,
        nofun, fun _ => ⟨rfl, hstopped⟩, nofun, nofun, fun _ r hr => ?_, fun r hr => ?_,
        hthreads, haccepts⟩ <;> exact absurd hr (by simp [goto, hnone r])

lemma Hosted.callStop (hh : Hosted cfg intact s.host s.control) (hdone : isDone s.host.pc = true) :
    Hosted cfg intact { s.host with pc := .stop .test false } s.control := by
  refine hh.pause (fun i hpc => ?_) rfl rfl nofun trivial
  simp [hpc, isDone] at hdone

lemma Hosted.of_postFails (hh : Hosted cfg intact s.host s.control) (hintact : ¬intact)
    (h : (machine cfg).step s .postFails = some s') : Hosted cfg intact s'.host s'.control := by
  simp only [machine, Server.step] at h
  split at h
  · next i b hpc =>
      obtain ⟨-, h⟩ := Option.ite_none_right_eq_some.mp h
      cases h
      refine hh.pause ?_ rfl rfl (fun _ h => by cases h) ?_
      · simp [hpc]
      · cases b with
        | true => exact fun hi => absurd hi hintact
        | false => trivial
  · cases h

lemma Hosted.step (hh : Hosted cfg intact s.host s.control) {act : Act n}
    (hact : intact → act ≠ .postFails) (h : (machine cfg).step s act = some s') :
    Hosted cfg intact s'.host s'.control := by
  cases hhost : isHost act with
  | false =>
      have hbeside := beside_of_step hhost h
      obtain ⟨hgrows, htrue⟩ := Grows.of_steps hh.truthful hbeside.control
      rw [hbeside.host]
      exact hh.grow hgrows htrue
  | true =>
      cases act with
      | callStart port =>
          obtain ⟨hdone, h⟩ := Option.ite_none_right_eq_some.mp h
          cases h
          exact hh.callStart hdone port
      | callStop =>
          obtain ⟨hdone, h⟩ := Option.ite_none_right_eq_some.mp h
          cases h
          exact hh.callStop hdone
      | own ok =>
          simp only [machine, Server.step, ownStep] at h
          split at h
          · cases h
          · next p b hpc => exact hh.of_stopStep hpc h
          · exact hh.of_startStep rfl h
      | postFails => exact hh.of_postFails (fun hi => hact hi rfl) h
      | leave r =>
          obtain ⟨hrunning, h⟩ := Option.ite_none_right_eq_some.mp h
          cases h
          exact hh.leave_ hrunning
      | _ => cases hhost

end Steps

/-! ## The result -/

section Refusal

variable {s s' : Server n}

lemma refused_later (hs : s.host.started_ = true) (hlater : (machine cfg).Leads s s')
    (hdone : isDone s'.host.pc = true) (port : ℕ) :
    (machine cfg).step s' (.callStart port) = some (s'.goto (.done .refused)) := by
  have hs' : s'.host.started_ = true :=
    hlater.preserves (I := fun s => s.host.started_ = true)
      (fun _ _ _ h _ hstep => (flags_stay hstep).1 h) hs
  simp [machine, Server.step, Server.callStart, hdone, hs']

end Refusal

lemma hosted_of_reachable {s : Server n}
    (hs : (machine cfg).ReachableUnder (fun _ act => act ≠ .postFails) s) :
    Hosted cfg True s.host s.control :=
  hs.invariant (I := fun s => Hosted cfg True s.host s.control) .initial
    fun _ _ _ h hok hstep => h.step (fun _ => hok) hstep

/-- The first listener came to listen at the port that was requested, unless it was 0. -/
lemma Hosted.front_port {s : Server n} (hh : Hosted cfg intact s.host s.control) {p : ℕ}
    (hfront : FrontAt s.control p) : p ≠ 0 ∧ (s.host.requested ≠ 0 → p = s.host.requested) := by
  obtain ⟨a, ha, hready, rfl⟩ := hfront
  have hport := (hh.ports 0 (by simp [ha])).1 rfl
  obtain ⟨⟨hne, hasked⟩, -⟩ := (hh.truthful 0 a ha).ready hready
  rw [hport] at hasked
  exact ⟨hne, hasked⟩

/-- All listeners that came to listen did so at one port. -/
lemma Hosted.common_port {s : Server n} (hh : Hosted cfg intact s.host s.control) {p : ℕ}
    (hfront : FrontAt s.control p) {r : Fin (n + 1)} {a : Accept} (ha : s.control r = some a)
    (hready : a.ready = true) : a.bound = p := by
  obtain ⟨hne, hrequested⟩ := hh.front_port hfront
  obtain ⟨⟨-, hasked⟩, -⟩ := (hh.truthful r a ha).ready hready
  replace hasked : s.host.portOf r ≠ 0 → a.bound = s.host.portOf r := hasked
  obtain ⟨hzero, hother⟩ := hh.ports r (by simp [ha])
  obtain ⟨f, hf, hfready, hfbound⟩ := hfront
  by_cases hr : r.val = 0
  · obtain rfl : r = 0 := Fin.ext hr
    obtain rfl : a = f := Option.some.inj (ha.symm.trans hf)
    exact hfbound
  · rcases hother hr with ⟨hreq, hport⟩ | ⟨g, hg, -, hgbound⟩
    · rw [hrequested hreq, hasked (hport ▸ hreq), hport]
    · -- it was asked for the port that the first listener got
      obtain rfl : f = g := Option.some.inj (hf.symm.trans hg)
      have hport : s.host.portOf r = p := hgbound.symm.trans hfbound
      rw [hasked (hport ▸ hne), hport]

/-- **`start()` is all or nothing.**  In every state in which `start()` has returned, all
listeners have come to listen, at one port, which is `port_` and the one that was requested unless
that was 0.  In every state in which it has thrown, every accept loop it spawned is over, every
thread it launched is joined and no loop is claimed, the guards, the threads and the controls are
cleared, and from there on every call of `start()` is refused and changes nothing. -/
theorem start_all_or_nothing (cfg : Config) {s : Server n}
    (hs : (machine cfg).ReachableUnder (fun _ act => act ≠ .postFails) s) :
    (s.host.pc = .done .started →
      (∀ r, r.val < cfg.listeners n →
        ∃ a, s.control r = some a ∧ a.ready = true ∧ a.bound = s.host.port_) ∧
      s.host.port_ ≠ 0 ∧ (s.host.requested ≠ 0 → s.host.port_ = s.host.requested)) ∧
    (s.host.pc = .done .threw →
      (∀ r a, s.control r = some a → a.finished = true) ∧
      (∀ r, (s.host.thread r = .none ∨ s.host.thread r = .joined) ∧ s.host.loops_ r = 0) ∧
      s.host.guards_ = 0 ∧ s.host.threads_ = 0 ∧ s.host.accepts_ = 0 ∧
      ∀ s', (machine cfg).Leads s s' → isDone s'.host.pc = true → ∀ port,
        (machine cfg).step s' (.callStart port) = some (s'.goto (.done .refused))) := by
  have hh := hosted_of_reachable hs
  have hat := hh.here
  constructor
  · intro hpc
    rw [hpc] at hat
    obtain ⟨hready, hfront⟩ := hat
    refine ⟨fun r hr => ?_, hh.front_port hfront⟩
    obtain ⟨a, ha, har⟩ := hready r hr
    exact ⟨a, ha, har, hh.common_port hfront ha har⟩
  · intro hpc
    rw [hpc] at hat
    obtain ⟨hover, hthreads, hguards, haccepts, hstarted⟩ := hat trivial
    refine ⟨hover, fun r => ⟨?_, ?_⟩, hguards, hthreads, haccepts,
      fun s' hlater hdone => refused_later hstarted hlater hdone⟩
    · -- no thread is launched or claimed
      have hlaunched := hh.launched r
      have hclaimed := hh.claimed r
      cases ht : s.host.thread r <;> simp_all
    · exact hh.loops_eq_zero (by simp [hpc]) (by simp [hthreads])

/-- Two reactors with a listener each. -/
def twoListeners : Config where
  platform := ⟨true, false⟩
  named := false
  reusePort := true
  maximum := 0

/-- `start(0)`: the first listener comes to listen at port 4242, and the second one is spawned. -/
def spawnBothRun : List (Act 1) := List.flatten
  [[.callStart 0], List.replicate 10 (.own true), [.accept 0 .dispatch],
    List.replicate 7 (.accept 0 (.run .ok)), [.accept 0 (.run (.at_ 4242)), .accept 0 (.run .ok)],
    List.replicate 6 (.own true)]

/-- The second listener comes to listen as well, and `start()` returns. -/
def bothListenRun : List (Act 1) := List.flatten
  [[.accept 1 .dispatch], List.replicate 7 (.accept 1 (.run .ok)),
    [.accept 1 (.run (.at_ 4242)), .accept 1 (.run .ok)], List.replicate 3 (.own true)]

/-- The second listener fails to bind, and the `catch` block calls `stop()`. -/
def occupiedRun : List (Act 1) := List.flatten
  [[.accept 1 .dispatch], List.replicate 5 (.accept 1 (.run .ok)),
    [.accept 1 (.run (.throws false)), .accept 1 (.run .ok)], List.replicate 7 (.own true),
    [.loop 0 .runAbort, .loop 0 .resume], List.replicate 2 (.own true),
    [.loop 1 .runAbort, .loop 1 .resume], List.replicate 7 (.own true),
    [.accept 0 (.run .ok), .accept 0 (.run .ok), .accept 0 .stopOnOwner],
    List.replicate 10 (.own true), [.leave 0, .leave 1], List.replicate 4 (.own true)]

/-- Two listeners asked for any port come up at the same one; and when the second one cannot, the
first is taken down with it. -/
theorem start_all_or_nothing_at_occupiedRun :
    (∃ s : Server 1, (machine twoListeners).ReachableUnder (fun _ act => act ≠ .postFails) s ∧
      s.host.pc = .done .started ∧
      ∀ r : Fin 2, r.val < 2 →
        ∃ a, s.control r = some a ∧ a.ready = true ∧ a.bound = s.host.port_) ∧
    ∃ s : Server 1, (machine twoListeners).ReachableUnder (fun _ act => act ≠ .postFails) s ∧
      s.host.pc = .done .threw ∧ ∀ r a, s.control r = some a → a.finished = true := by
  obtain ⟨s, hs, htest⟩ := (machine twoListeners).exists_reachableUnder_of_run
    (fun _ act => decide (act ≠ .postFails)) (fun _ _ => of_decide_eq_true)
    (spawnBothRun ++ bothListenRun) (fun s => decide (s.host.pc = .done .started))
    (by decide +kernel)
  obtain ⟨t, ht, htest'⟩ := (machine twoListeners).exists_reachableUnder_of_run
    (fun _ act => decide (act ≠ .postFails)) (fun _ _ => of_decide_eq_true)
    (spawnBothRun ++ occupiedRun) (fun s => decide (s.host.pc = .done .threw)) (by decide +kernel)
  have hstarted := of_decide_eq_true htest
  have hthrew := of_decide_eq_true htest'
  exact ⟨⟨s, hs, hstarted, ((start_all_or_nothing twoListeners hs).1 hstarted).1⟩,
    t, ht, hthrew, ((start_all_or_nothing twoListeners ht).2 hthrew).1⟩

/-- The accept loop cannot be spawned, and in the `catch` block the post to it throws. -/
def failedPostRun : List (Act 0) := List.flatten
  [[.callStart 80], List.replicate 6 (.own true), [.own false], List.replicate 5 (.own true),
    [.loop 0 .runAbort, .loop 0 .resume], List.replicate 3 (.own true), [.postFails]]

/-- **A post that throws in the `catch` block ends the cleanup**: `start()` has thrown, its thread
is running and the loop is claimed. -/
theorem failed_post_leaves_threads :
    ∃ s : Server 0, (machine oneAtATime).Reachable s ∧
      s.host.pc = .done .threw ∧ s.host.thread 0 = .running ∧ s.host.loops_ 0 = 1 := by
  obtain ⟨s, hs, htest⟩ := (machine oneAtATime).exists_reachable_of_run failedPostRun
    (fun s => decide (s.host.pc = .done .threw ∧ s.host.thread 0 = .running ∧ s.host.loops_ 0 = 1))
    (by decide +kernel)
  exact ⟨s, hs, of_decide_eq_true htest⟩

end Server

end ReactorRuntime
