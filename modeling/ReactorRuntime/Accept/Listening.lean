import ReactorRuntime.Accept.Control

/-!
# What a caller sees of an accept loop

`start()` learns two things of an accept loop through its control: whether it came to listen
(`ready`), and then at which port (`bound`); `stop()` learns whether it is over (`finished`).  All
three are there to stay: a listener that came to listen has done so at the port it was asked for,
if it was asked for one, and what `start()` read of it does not change later, even when the
listener dies.
-/

namespace ReactorRuntime

/-- The coroutine has not come to `control->listening()`, or is about to. -/
def AcceptPc.early : AcceptPc → Bool
  | .spawned => true
  | .started => true
  | .setup _ => true
  | .announce => true
  | _ => false

namespace Accept

variable {l : Listener} {a a' : Accept} {act : Act}

/-- The control has a port: a real one, and the one that was asked for. -/
def HasPort (l : Listener) (a : Accept) : Prop :=
  a.bound ≠ 0 ∧ (l.port ≠ 0 → a.bound = l.port)

/-- What the control says of the listener is right. -/
structure Truthful (l : Listener) (a : Accept) : Prop where
  ready : a.ready = true → a.HasPort l ∧ a.pc.early = false
  announce : a.pc = .announce → a.HasPort l

lemma Truthful.initial (l : Listener) : Truthful l initial where
  ready h := by simp [Accept.initial] at h
  announce h := by simp [Accept.initial] at h

/-- The control of an accept loop that could not be spawned. -/
lemma Truthful.unspawned (l : Listener) : Truthful l (Accept.initial.finish none) where
  ready h := by simp [Accept.initial, finish] at h
  announce h := by simp [finish] at h

/-- The coroutine does not go back to the setup, and leaves the port alone after it. -/
lemma early_of_move (hmove : Move l a act a') (h : a.pc.early = false) :
    a'.pc.early = false ∧ a'.bound = a.bound ∧ (a.ready = true → a'.ready = true) := by
  cases hmove with
  | stopOnOwner posted idle =>
      refine ⟨?_, rfl, fun hr => hr⟩
      unfold stopOnOwner
      cases hpc : a.pc <;> simp_all [AcceptPc.early]
  | store => exact ⟨h, rfl, fun hr => hr⟩
  | post told => exact ⟨h, rfl, fun hr => hr⟩
  | again pc | check pc | retryTest pc =>
      refine ⟨?_, rfl, fun hr => hr⟩
      simp only [testStopping]
      split <;> rfl
  | begin_ pc | start pc | setUp pc | bindAt pc | announce pc => simp [pc, AcceptPc.early] at h
  | _ => exact ⟨rfl, rfl, fun hr => hr⟩

lemma announce_of_move (hmove : Move l a act a') (h : a.pc = .announce → a.HasPort l)
    (hpc : a'.pc = .announce) : a'.HasPort l := by
  cases hmove with
  | bindAt pc real asked => exact ⟨real, asked⟩
  | store => exact h hpc
  | post told => exact h hpc
  | stopOnOwner posted idle =>
      refine h ?_
      revert hpc
      unfold stopOnOwner
      cases a.pc <;> simp
  | start pc | again pc | check pc | retryTest pc =>
      simp only [testStopping] at hpc
      split at hpc <;> cases hpc
  | @setUp st pc more =>
      cases st <;> simp [nextSetup] at hpc more
      split at hpc <;> cases hpc
  | _ => simp [finish] at hpc

lemma Truthful.step (h : Truthful l a) (hstep : a.step l act = some a') : Truthful l a' := by
  have hmove : Move l a act a' := move_of_step hstep
  refine ⟨fun hr => ?_, announce_of_move hmove h.announce⟩
  cases hready : a.ready with
  | true =>
      obtain ⟨hport, hearly⟩ := h.ready hready
      obtain ⟨hearly', hbound, -⟩ := early_of_move hmove hearly
      exact ⟨by unfold HasPort; rw [hbound]; exact hport, hearly'⟩
  | false =>
      -- the flag is set by `listening()`
      cases hmove with
      | announce pc => exact ⟨h.announce pc, rfl⟩
      | _ => exact absurd hr (by simp [hready, stopOnOwner, testStopping, finish])

/-- What was read of a control stays: the port once it listens, and that it is over. -/
lemma Truthful.stays (h : Truthful l a) (hstep : a.step l act = some a') :
    (a.ready = true → a'.ready = true ∧ a'.bound = a.bound) ∧
      (a.finished = true → a'.finished = true) := by
  have hmove : Move l a act a' := move_of_step hstep
  constructor
  · intro hr
    obtain ⟨-, hbound, hready⟩ := early_of_move hmove (h.ready hr).2
    exact ⟨hready hr, hbound⟩
  · intro hf
    cases hmove with
    | finish pc => rfl
    | _ => exact hf

end Accept

end ReactorRuntime
