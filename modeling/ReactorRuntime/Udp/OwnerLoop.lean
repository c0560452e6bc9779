import Mathlib.Data.List.Perm.Basic
import ReactorRuntime.Udp.UdpServer

/-!
# The owner loop of the datagram server

The thread of a `UdpServer` runs the loop until it is stopped or has nothing left to do, and an
exception of a callback does not end it (`reactor_udp.h:142-157`, `214-236`).  There are two places
where one is caught.  The coroutine `receive_loop` catches what the datagram handler throws and goes
on to the next receive; the thread catches what escapes from `run()`, thrown by a posted handler or
a timer's, and calls `run()` again.  Both report it through `L_EXC`, and what `L_EXC` throws itself
is dropped.  So no datagram and no callback is lost or repeated, and each exception is reported once
(`survives_callback_failures`).

`Udp` has the thread and the coroutine among the calls of the owner; here are the contents: the
socket's datagrams, the buffer they are received into, the callbacks that are queued.  A callback is
posted, or waits for a timer first.  While one is being executed everybody else may act, and the
callback is somebody too: what it does, such as stopping the `io_context`, are steps between its
call and its return.

Of asio this is assumed: the loop executes what is queued in any order, but not once it is stopped;
an exception that escapes from `run()` leaves the rest queued and the `io_context` as it is; the
`io_context` is stopped when its last work is done, whether by a return or by an exception.  A
datagram longer than the buffer is cut.  The start of a receive succeeds.
-/

namespace ReactorRuntime

/-- A datagram on its way, from an endpoint. -/
structure Datagram (ε : Type) where
  bytes : List UInt8
  sender : ε
  deriving DecidableEq, Repr

/-- What a callback or an `L_EXC` throws. -/
inductive Thrown
  /-- A `std::exception`. -/
  | standard
  | other
  deriving DecidableEq, Repr

/-- The coroutine. -/
inductive ReceiveLoop
  /-- Its start is queued. -/
  | spawned
  /-- A receive is pending. -/
  | waiting
  /-- A receive is completed, and the resumption queued. -/
  | completed (error : Bool) (n : ℕ)
  /-- In `on_datagram_`, or in the `catch` block after it. -/
  | handling
  /-- It has returned. -/
  | ended
  deriving DecidableEq, Repr

/-- Where the thread stands. -/
inductive LoopPc
  /-- Before `while (!reactor_.io().stopped())`. -/
  | test
  /-- In `run()`, between handlers. -/
  | running
  /-- In `run()`, in a callback. -/
  | callback
  /-- In `run()`, in the datagram handler. -/
  | datagram
  /-- In `run()`, in the `catch` block of the coroutine. -/
  | caughtDatagram
  /-- In its own `catch` block. -/
  | caught
  /-- It has left the loop. -/
  | left
  deriving DecidableEq, Repr

/-- The thread of a server, its coroutine and its `io_context`. -/
structure OwnerLoop (ε : Type) where
  pc : LoopPc
  /-- `io().stopped()` -/
  stopped : Bool
  receive : ReceiveLoop
  buf : List UInt8
  sender : ε
  /-- The datagrams that the socket holds. -/
  inbox : List (Datagram ε)
  /-- The callbacks that are queued, by number. -/
  callbacks : List ℕ
  /-- Those that wait for a timer. -/
  timers : List ℕ
  /-- The work guards that the host holds. -/
  guards : ℕ
  /-- Record: how many callbacks there have been. -/
  made : ℕ
  /-- Record: the callbacks that were executed. -/
  ran : List ℕ
  /-- Record: the datagrams that have arrived. -/
  arrived : List (Datagram ε)
  /-- Record: how many receives the loop has seen completed without an error. -/
  taken : ℕ
  /-- Record: the loop has seen one completed with an error. -/
  failed : Bool
  /-- Record: the calls of the datagram handler. -/
  calls : List (List UInt8 × ε)
  /-- Record: how many callbacks and datagram handlers have thrown. -/
  threw : ℕ
  /-- Record: how often `L_EXC` was called. -/
  reports : ℕ
  /-- Record: the `io_context` was stopped by a call. -/
  halted : Bool
  /-- Record: the `io_context` has run out of work. -/
  drained : Bool
  deriving DecidableEq, Repr

namespace OwnerLoop

/-- What can happen next. -/
inductive Act (ε : Type)
  /-- Somebody posts a callback. -/
  | post
  /-- Somebody has a callback wait for a timer. -/
  | wait
  /-- The wait of callback `k` of `timers` is over. -/
  | expire (k : ℕ)
  /-- The host takes a work guard. -/
  | hold
  /-- The host drops one. -/
  | drop
  /-- A datagram arrives at the socket. -/
  | arrive (d : Datagram ε)
  /-- The pending receive gets the first datagram of the socket. -/
  | receive
  /-- The pending receive fails. -/
  | fail
  /-- Somebody stops the `io_context`. -/
  | stopIo
  /-- The thread tests `stopped()`. -/
  | test
  /-- The loop resumes the coroutine. -/
  | resume
  /-- The loop executes callback `k` of those queued. -/
  | execute (k : ℕ)
  /-- The callback, or the datagram handler, returns or throws. -/
  | finish (thrown : Option Thrown)
  /-- `report_callback_exception()`: `L_EXC` is called, and returns or throws. -/
  | report (thrown : Option Thrown)
  /-- `run()` returns. -/
  | leave
  deriving DecidableEq, Repr

variable {ε : Type}

/-- The server has been started: its coroutine is queued and its thread made. -/
def initial (o : UdpOptions) [Inhabited ε] : OwnerLoop ε where
  pc := .test
  stopped := false
  receive := .spawned
  buf := List.replicate o.bufferSize 0
  sender := default
  inbox := []
  callbacks := []
  timers := []
  guards := 0
  made := 0
  ran := []
  arrived := []
  taken := 0
  failed := false
  calls := []
  threw := 0
  reports := 0
  halted := false
  drained := false

/-- Nothing is queued, pending or being executed. -/
def OutOfWork (s : OwnerLoop ε) : Prop :=
  s.callbacks = [] ∧ s.timers = [] ∧ s.guards = 0 ∧ s.receive = .ended ∧ s.pc ≠ .callback

instance (s : OwnerLoop ε) : Decidable s.OutOfWork :=
  decidable_of_iff
    (s.callbacks.isEmpty = true ∧ s.timers.isEmpty = true ∧ s.guards = 0 ∧ s.receive = .ended ∧
      s.pc ≠ .callback)
    (by rw [List.isEmpty_iff, List.isEmpty_iff]; exact Iff.rfl)

/-- Some work is done: if it was the last, the `io_context` is stopped. -/
def settle (s : OwnerLoop ε) : OwnerLoop ε :=
  if s.OutOfWork then { s with stopped := true, drained := true } else s

/-- What the socket makes of a datagram for the buffer. -/
def cut (o : UdpOptions) (d : Datagram ε) : List UInt8 := d.bytes.take o.bufferSize

/-- `receive_loop` from the completion of a receive to the next one, or to the call of the datagram
handler; `handled` says whether the host has set one. -/
def resumed (handled : Bool) (s : OwnerLoop ε) : ReceiveLoop → Option (OwnerLoop ε)
  | .spawned => some { s with receive := .waiting }
  | .completed true _ => some (settle { s with receive := .ended, failed := true })
  | .completed false n =>
      if n ≠ 0 ∧ handled = true then
        some { s with
          pc := .datagram
          receive := .handling
          calls := s.calls ++ [(s.buf.take n, s.sender)]
          taken := s.taken + 1 }
      else some { s with receive := .waiting, taken := s.taken + 1 }
  | _ => none

/-- A callback or a datagram handler is over. -/
def finished (s : OwnerLoop ε) (thrown : Option Thrown) : LoopPc → Option (OwnerLoop ε)
  | .callback =>
      match thrown with
      | none => some (settle { s with pc := .running })
      -- it escapes from `run()`
      | some _ => some (settle { s with pc := .caught, threw := s.threw + 1 })
  | .datagram =>
      match thrown with
      | none => some { s with pc := .running, receive := .waiting }
      | some _ => some { s with pc := .caughtDatagram, threw := s.threw + 1 }
  | _ => none

/-- `report_callback_exception()`, which does not throw. -/
def reported (s : OwnerLoop ε) : LoopPc → Option (OwnerLoop ε)
  | .caughtDatagram =>
      some { s with pc := .running, receive := .waiting, reports := s.reports + 1 }
  | .caught => some { s with pc := .test, reports := s.reports + 1 }
  | _ => none

/-- One action. -/
def step (o : UdpOptions) (handled : Bool) (s : OwnerLoop ε) : Act ε → Option (OwnerLoop ε)
  | .post => some { s with callbacks := s.callbacks ++ [s.made], made := s.made + 1 }
  | .wait => some { s with timers := s.timers ++ [s.made], made := s.made + 1 }
  | .expire k =>
      match s.timers[k]? with
      | some c => some { s with timers := s.timers.eraseIdx k, callbacks := s.callbacks ++ [c] }
      | none => none
  | .hold => some { s with guards := s.guards + 1 }
  | .drop => if 0 < s.guards then some (settle { s with guards := s.guards - 1 }) else none
  | .arrive d => some { s with inbox := s.inbox ++ [d], arrived := s.arrived ++ [d] }
  | .receive =>
      match s.inbox with
      | d :: rest =>
          if s.receive = .waiting then
            some { s with
              inbox := rest
              buf := cut o d ++ s.buf.drop (cut o d).length
              sender := d.sender
              receive := .completed false (cut o d).length }
          else none
      | [] => none
  | .fail => if s.receive = .waiting then some { s with receive := .completed true 0 } else none
  | .stopIo => some { s with stopped := true, halted := true }
  | .test =>
      if s.pc = .test then some { s with pc := if s.stopped then .left else .running } else none
  | .resume =>
      if s.pc = .running ∧ s.stopped = false then s.resumed handled s.receive else none
  | .execute k =>
      match s.callbacks[k]? with
      | some c =>
          if s.pc = .running ∧ s.stopped = false then
            some { s with
              pc := .callback
              callbacks := s.callbacks.eraseIdx k
              ran := s.ran ++ [c] }
          else none
      | none => none
  | .finish thrown => s.finished thrown s.pc
  | .report _ => s.reported s.pc
  | .leave => if s.pc = .running ∧ s.stopped = true then some { s with pc := .left } else none

/-- The loop as a machine. -/
def machine (o : UdpOptions) (handled : Bool) [Inhabited ε] : Machine (OwnerLoop ε) (Act ε) where
  init := initial o
  step := step o handled

/-! ## What a step can be -/

/-- The steps of the loop, by what they do. -/
inductive Move (o : UdpOptions) (handled : Bool) (s : OwnerLoop ε) : Act ε → OwnerLoop ε → Prop
  | post :
      Move o handled s .post { s with callbacks := s.callbacks ++ [s.made], made := s.made + 1 }
  | wait : Move o handled s .wait { s with timers := s.timers ++ [s.made], made := s.made + 1 }
  | expire {k c : ℕ} (hc : s.timers[k]? = some c) :
      Move o handled s (.expire k)
        { s with timers := s.timers.eraseIdx k, callbacks := s.callbacks ++ [c] }
  | hold : Move o handled s .hold { s with guards := s.guards + 1 }
  | drop : Move o handled s .drop (settle { s with guards := s.guards - 1 })
  | arrive (d : Datagram ε) :
      Move o handled s (.arrive d) { s with inbox := s.inbox ++ [d], arrived := s.arrived ++ [d] }
  | receive {d : Datagram ε} {rest : List (Datagram ε)} (hinbox : s.inbox = d :: rest)
      (waiting : s.receive = .waiting) :
      Move o handled s .receive
        { s with
          inbox := rest
          buf := cut o d ++ s.buf.drop (cut o d).length
          sender := d.sender
          receive := .completed false (cut o d).length }
  | fail (waiting : s.receive = .waiting) :
      Move o handled s .fail { s with receive := .completed true 0 }
  | stopIo : Move o handled s .stopIo { s with stopped := true, halted := true }
  | enters (hpc : s.pc = .test) : Move o handled s .test { s with pc := .running }
  | leaves {act : Act ε} (hpc : s.pc = .test ∨ s.pc = .running) (stopped : s.stopped = true) :
      Move o handled s act { s with pc := .left }
  | begins (hpc : s.pc = .running) (going : s.stopped = false) (spawned : s.receive = .spawned) :
      Move o handled s .resume { s with receive := .waiting }
  | ends {n : ℕ} (hpc : s.pc = .running) (going : s.stopped = false)
      (completed : s.receive = .completed true n) :
      Move o handled s .resume (settle { s with receive := .ended, failed := true })
  | calls {n : ℕ} (hpc : s.pc = .running) (going : s.stopped = false)
      (completed : s.receive = .completed false n) (some : n ≠ 0) (set : handled = true) :
      Move o handled s .resume
        { s with
          pc := .datagram
          receive := .handling
          calls := s.calls ++ [(s.buf.take n, s.sender)]
          taken := s.taken + 1 }
  | skips {n : ℕ} (hpc : s.pc = .running) (going : s.stopped = false)
      (completed : s.receive = .completed false n) (none : ¬(n ≠ 0 ∧ handled = true)) :
      Move o handled s .resume { s with receive := .waiting, taken := s.taken + 1 }
  | execute {k c : ℕ} (hpc : s.pc = .running) (going : s.stopped = false)
      (hc : s.callbacks[k]? = some c) :
      Move o handled s (.execute k)
        { s with pc := .callback, callbacks := s.callbacks.eraseIdx k, ran := s.ran ++ [c] }
  | returns (hpc : s.pc = .callback) :
      Move o handled s (.finish none) (settle { s with pc := .running })
  | throws {e : Thrown} (hpc : s.pc = .callback) :
      Move o handled s (.finish (some e)) (settle { s with pc := .caught, threw := s.threw + 1 })
  | datagramReturns (hpc : s.pc = .datagram) :
      Move o handled s (.finish none) { s with pc := .running, receive := .waiting }
  | datagramThrows {e : Thrown} (hpc : s.pc = .datagram) :
      Move o handled s (.finish (some e)) { s with pc := .caughtDatagram, threw := s.threw + 1 }
  | datagramReported {e : Option Thrown} (hpc : s.pc = .caughtDatagram) :
      Move o handled s (.report e)
        { s with pc := .running, receive := .waiting, reports := s.reports + 1 }
  | reported {e : Option Thrown} (hpc : s.pc = .caught) :
      Move o handled s (.report e) { s with pc := .test, reports := s.reports + 1 }

variable {o : UdpOptions} {handled : Bool} {s t : OwnerLoop ε} {act : Act ε}

lemma move_of_resumed (hpc : s.pc = .running) (going : s.stopped = false)
    (hstep : s.resumed handled s.receive = some t) : Move o handled s .resume t := by
  cases hreceive : s.receive with
  | spawned =>
      rw [hreceive] at hstep
      cases hstep
      exact .begins hpc going hreceive
  | completed error n =>
      rw [hreceive] at hstep
      cases error with
      | true =>
          cases hstep
          exact .ends hpc going hreceive
      | false =>
          simp only [resumed] at hstep
          split at hstep
          · rename_i hcall
            cases hstep
            exact .calls hpc going hreceive hcall.1 hcall.2
          · rename_i hskip
            cases hstep
            exact .skips hpc going hreceive hskip
  | waiting | handling | ended =>
      rw [hreceive] at hstep
      cases hstep

lemma move_of_finished {thrown : Option Thrown} (hstep : s.finished thrown s.pc = some t) :
    Move o handled s (.finish thrown) t := by
  cases hpc : s.pc with
  | callback =>
      rw [hpc] at hstep
      cases thrown with
      | none =>
          cases hstep
          exact .returns hpc
      | some e =>
          cases hstep
          exact .throws hpc
  | datagram =>
      rw [hpc] at hstep
      cases thrown with
      | none =>
          cases hstep
          exact .datagramReturns hpc
      | some e =>
          cases hstep
          exact .datagramThrows hpc
  | test | running | caughtDatagram | caught | left =>
      rw [hpc] at hstep
      cases hstep

lemma move_of_step (hstep : s.step o handled act = some t) : Move o handled s act t := by
  cases act with
  | post =>
      cases hstep
      exact .post
  | wait =>
      cases hstep
      exact .wait
  | expire k =>
      simp only [step] at hstep
      split at hstep
      · rename_i c hc
        cases hstep
        exact .expire hc
      · cases hstep
  | hold =>
      cases hstep
      exact .hold
  | drop =>
      obtain ⟨-, heq⟩ := Option.ite_none_right_eq_some.mp hstep
      cases heq
      exact .drop
  | arrive d =>
      cases hstep
      exact .arrive d
  | receive =>
      simp only [step] at hstep
      split at hstep
      · rename_i d rest hinbox
        obtain ⟨waiting, heq⟩ := Option.ite_none_right_eq_some.mp hstep
        cases heq
        exact .receive hinbox waiting
      · cases hstep
  | fail =>
      obtain ⟨waiting, heq⟩ := Option.ite_none_right_eq_some.mp hstep
      cases heq
      exact .fail waiting
  | stopIo =>
      cases hstep
      exact .stopIo
  | test =>
      obtain ⟨hpc, heq⟩ := Option.ite_none_right_eq_some.mp hstep
      cases heq
      split
      · rename_i stopped
        exact .leaves (.inl hpc) stopped
      · exact .enters hpc
  | resume =>
      obtain ⟨⟨hpc, going⟩, heq⟩ := Option.ite_none_right_eq_some.mp hstep
      exact move_of_resumed hpc going heq
  | execute k =>
      simp only [step] at hstep
      split at hstep
      · rename_i c hc
        obtain ⟨⟨hpc, going⟩, heq⟩ := Option.ite_none_right_eq_some.mp hstep
        cases heq
        exact .execute hpc going hc
      · cases hstep
  | finish thrown => exact move_of_finished hstep
  | report thrown =>
      simp only [step] at hstep
      cases hpc : s.pc with
      | caughtDatagram =>
          rw [hpc] at hstep
          cases hstep
          exact .datagramReported hpc
      | caught =>
          rw [hpc] at hstep
          cases hstep
          exact .reported hpc
      | test | running | callback | datagram | left =>
          rw [hpc] at hstep
          cases hstep
  | leave =>
      obtain ⟨⟨hpc, stopped⟩, heq⟩ := Option.ite_none_right_eq_some.mp hstep
      cases heq
      exact .leaves (.inr hpc) stopped

/-- Running out of work touches nothing but the `io_context`. -/
lemma settle_eq (s : OwnerLoop ε) :
    ∃ stopped drained, s.settle = { s with stopped := stopped, drained := drained } := by
  unfold settle
  split
  · exact ⟨true, true, rfl⟩
  · exact ⟨s.stopped, s.drained, rfl⟩

/-! ## The datagrams -/

/-- The calls that are due for datagrams whose receives were completed in this order. -/
def due (o : UdpOptions) (handled : Bool) (ds : List (Datagram ε)) : List (List UInt8 × ε) :=
  if handled then
    (ds.filter fun d => !d.bytes.isEmpty).map fun d => (cut o d, d.sender)
  else []

lemma length_cut_eq_zero (o : UdpOptions) (d : Datagram ε) :
    (cut o d).length = 0 ↔ d.bytes = [] := by
  have hsize := o.bufferSize_pos
  rw [cut, List.length_take, ← List.length_eq_zero_iff]
  omega

lemma due_concat (o : UdpOptions) (handled : Bool) (ds : List (Datagram ε)) (d : Datagram ε) :
    due o handled (ds ++ [d]) =
      due o handled ds ++
        if handled = true ∧ (cut o d).length ≠ 0 then [(cut o d, d.sender)] else [] := by
  cases handled with
  | false => rfl
  | true =>
      by_cases hempty : d.bytes = []
      · simp [due, hempty, cut]
      · have hlen := mt (length_cut_eq_zero o d).mp hempty
        rw [if_pos ⟨rfl, hlen⟩]
        simp [due, hempty]

/-- The datagrams that have left the socket and whose completion the loop has not taken. -/
inductive Held (o : UdpOptions) (s : OwnerLoop ε) : List (Datagram ε) → Prop
  | none (h : ∀ n, s.receive ≠ .completed false n) : Held o s []
  | one {d : Datagram ε} (hreceive : s.receive = .completed false (cut o d).length)
      (hbuf : s.buf.take (cut o d).length = cut o d) (hsender : s.sender = d.sender) :
      Held o s [d]

lemma Held.congr {ds : List (Datagram ε)} (h : Held o s ds) (hreceive : t.receive = s.receive)
    (hbuf : t.buf = s.buf) (hsender : t.sender = s.sender) : Held o t ds := by
  cases h with
  | none h => exact .none (hreceive ▸ h)
  | one hr hb hs => exact .one (hreceive.trans hr) (hbuf ▸ hb) (hsender.trans hs)

/-- Nothing is held unless a receive is completed. -/
lemma Held.eq_nil {ds : List (Datagram ε)} (h : Held o s ds)
    (hreceive : ∀ n, s.receive ≠ .completed false n) : ds = [] := by
  cases h with
  | none => rfl
  | one hr => exact absurd hr (hreceive _)

/-- What has become of the datagrams. -/
structure Heard (o : UdpOptions) (handled : Bool) (s : OwnerLoop ε) : Prop where
  handling : s.receive = .handling ↔ s.pc = .datagram ∨ s.pc = .caughtDatagram
  failed : s.receive = .ended ↔ s.failed = true
  delivered : ∃ done held, s.arrived = done ++ held ++ s.inbox ∧ done.length = s.taken ∧
    Held o s held ∧ s.calls = due o handled done

namespace Heard

/-- A step that concerns no datagram. -/
lemma keep (h : Heard o handled s)
    (hpc : s.pc = .datagram ∨ s.pc = .caughtDatagram ↔ t.pc = .datagram ∨ t.pc = .caughtDatagram)
    (hreceive : t.receive = s.receive) (hfailed : t.failed = s.failed)
    (hbuf : t.buf = s.buf ∧ t.sender = s.sender)
    (harrived : t.arrived = s.arrived ∧ t.inbox = s.inbox)
    (hcalls : t.taken = s.taken ∧ t.calls = s.calls) : Heard o handled t := by
  refine ⟨?_, ?_, ?_⟩
  · rw [hreceive]
    exact h.handling.trans hpc
  · rw [hfailed, hreceive]
    exact h.failed
  · obtain ⟨done, held, hsplit, hlen, hheld, heq⟩ := h.delivered
    refine ⟨done, held, ?_, hlen.trans hcalls.1.symm, hheld.congr hreceive hbuf.1 hbuf.2,
      hcalls.2.trans heq⟩
    rw [harrived.1, harrived.2]
    exact hsplit

/-- The coroutine goes from one state to another, neither of them a completion without an error. -/
lemma move_on (h : Heard o handled s)
    (hpc : t.receive = .handling ↔ t.pc = .datagram ∨ t.pc = .caughtDatagram)
    (hfailed : t.receive = .ended ↔ t.failed = true)
    (hbefore : ∀ n, s.receive ≠ .completed false n)
    (hafter : ∀ n, t.receive ≠ .completed false n)
    (harrived : t.arrived = s.arrived ∧ t.inbox = s.inbox)
    (hcalls : t.taken = s.taken ∧ t.calls = s.calls) : Heard o handled t := by
  refine ⟨hpc, hfailed, ?_⟩
  obtain ⟨done, held, hsplit, hlen, hheld, heq⟩ := h.delivered
  refine ⟨done, [], ?_, hlen.trans hcalls.1.symm, .none hafter, hcalls.2.trans heq⟩
  rw [harrived.1, harrived.2, hsplit, hheld.eq_nil hbefore]

lemma take (h : Heard o handled s) {n : ℕ} (completed : s.receive = .completed false n)
    (hpc : t.receive = .handling ↔ t.pc = .datagram ∨ t.pc = .caughtDatagram)
    (hfailed : t.failed = s.failed) (hended : t.receive ≠ .ended)
    (hafter : ∀ n, t.receive ≠ .completed false n)
    (harrived : t.arrived = s.arrived ∧ t.inbox = s.inbox) (htaken : t.taken = s.taken + 1)
    (hcalls : t.calls =
      s.calls ++ if handled = true ∧ n ≠ 0 then [(s.buf.take n, s.sender)] else []) :
    Heard o handled t := by
  refine ⟨hpc, ?_, ?_⟩
  · refine iff_of_false hended fun hf => ?_
    have hbefore := h.failed.mpr (hfailed ▸ hf)
    rw [completed] at hbefore
    cases hbefore
  · obtain ⟨done, held, hsplit, hlen, hheld, heq⟩ := h.delivered
    cases hheld with
    | none hnot => exact absurd completed (hnot n)
    | @one d hreceive hbuf hsender =>
        rw [completed] at hreceive
        cases hreceive
        refine ⟨done ++ [d], [], ?_, ?_, .none hafter, ?_⟩
        · rw [harrived.1, harrived.2, hsplit, List.append_nil]
        · rw [List.length_append, hlen, htaken]
          rfl
        · rw [hcalls, heq, hbuf, hsender, due_concat]

lemma settle (h : Heard o handled s) : Heard o handled s.settle := by
  obtain ⟨stopped, drained, heq⟩ := s.settle_eq
  rw [heq]
  exact h.keep .rfl rfl rfl ⟨rfl, rfl⟩ ⟨rfl, rfl⟩ ⟨rfl, rfl⟩

lemma arrive (h : Heard o handled s) (d : Datagram ε) :
    Heard o handled { s with inbox := s.inbox ++ [d], arrived := s.arrived ++ [d] } := by
  obtain ⟨done, held, hsplit, hlen, hheld, heq⟩ := h.delivered
  refine ⟨h.handling, h.failed, done, held, ?_, hlen, hheld.congr rfl rfl rfl, heq⟩
  show s.arrived ++ [d] = done ++ held ++ (s.inbox ++ [d])
  rw [hsplit, List.append_assoc _ s.inbox]

lemma receive (h : Heard o handled s) {d : Datagram ε} {rest : List (Datagram ε)}
    (hinbox : s.inbox = d :: rest) (waiting : s.receive = .waiting) :
    Heard o handled
      { s with
        inbox := rest
        buf := cut o d ++ s.buf.drop (cut o d).length
        sender := d.sender
        receive := .completed false (cut o d).length } := by
  have hnone : ∀ n, s.receive ≠ .completed false n := by
    intro n heq
    rw [waiting] at heq
    cases heq
  refine ⟨?_, ?_, ?_⟩
  · refine iff_of_false (by simp) fun hin => ?_
    have hhandling := h.handling.mpr hin
    rw [waiting] at hhandling
    cases hhandling
  · refine iff_of_false (by simp) fun hf => ?_
    have hended := h.failed.mpr hf
    rw [waiting] at hended
    cases hended
  · obtain ⟨done, held, hsplit, hlen, hheld, heq⟩ := h.delivered
    refine ⟨done, [d], ?_, hlen, .one rfl (List.take_left ..) rfl, heq⟩
    show s.arrived = done ++ [d] ++ rest
    rw [hsplit, hheld.eq_nil hnone, hinbox, List.append_nil, List.append_assoc]
    rfl

/-- The datagram handler is over, and the next receive started. -/
lemma next (h : Heard o handled s) (hin : s.pc = .datagram ∨ s.pc = .caughtDatagram) (n : ℕ) :
    Heard o handled { s with pc := .running, receive := .waiting, reports := n } := by
  have hhandling := h.handling.mpr hin
  refine h.move_on (by simp) ?_ ?_ ?_ ⟨rfl, rfl⟩ ⟨rfl, rfl⟩
  · refine iff_of_false (by simp) fun hf => ?_
    have hended := h.failed.mpr hf
    rw [hhandling] at hended
    cases hended
  · simp [hhandling]
  · simp

lemma move (h : Heard o handled s) (hmove : Move o handled s act t) : Heard o handled t := by
  cases hmove with
  | post | wait | expire | hold | stopIo =>
      exact h.keep .rfl rfl rfl ⟨rfl, rfl⟩ ⟨rfl, rfl⟩ ⟨rfl, rfl⟩
  | drop =>
      have hdrop : Heard o handled { s with guards := s.guards - 1 } :=
        h.keep .rfl rfl rfl ⟨rfl, rfl⟩ ⟨rfl, rfl⟩ ⟨rfl, rfl⟩
      exact hdrop.settle
  | arrive d => exact h.arrive d
  | receive hinbox waiting => exact h.receive hinbox waiting
  | fail waiting =>
      refine h.move_on ?_ ?_ (by simp [waiting]) (by simp) ⟨rfl, rfl⟩ ⟨rfl, rfl⟩
      · exact iff_of_false (by simp) fun hin => absurd (h.handling.mpr hin) (by simp [waiting])
      · exact iff_of_false (by simp) fun hf => absurd (h.failed.mpr hf) (by simp [waiting])
  | leaves hpc =>
      refine h.keep ?_ rfl rfl ⟨rfl, rfl⟩ ⟨rfl, rfl⟩ ⟨rfl, rfl⟩
      rcases hpc with hpc | hpc
      · simp [hpc]
      · simp [hpc]
  | enters hpc | execute hpc | reported hpc =>
      exact h.keep (by simp [hpc]) rfl rfl ⟨rfl, rfl⟩ ⟨rfl, rfl⟩ ⟨rfl, rfl⟩
  | begins hpc going spawned =>
      refine h.move_on (by simp [hpc]) ?_ (by simp [spawned]) (by simp) ⟨rfl, rfl⟩ ⟨rfl, rfl⟩
      exact iff_of_false (by simp) fun hf => absurd (h.failed.mpr hf) (by simp [spawned])
  | ends hpc going completed =>
      have hends : Heard o handled { s with receive := .ended, failed := true } :=
        h.move_on (by simp [hpc]) (by simp) (by simp [completed]) (by simp) ⟨rfl, rfl⟩
          ⟨rfl, rfl⟩
      exact hends.settle
  | calls hpc going completed some set =>
      refine h.take completed (by simp) rfl (by simp) (by simp) ⟨rfl, rfl⟩ rfl ?_
      rw [if_pos ⟨set, some⟩]
  | skips hpc going completed none =>
      refine h.take completed (by simp [hpc]) rfl (by simp) (by simp) ⟨rfl, rfl⟩ rfl ?_
      rw [if_neg (fun hcall => none ⟨hcall.2, hcall.1⟩), List.append_nil]
  | returns hpc =>
      have hreturns : Heard o handled { s with pc := .running } :=
        h.keep (by simp [hpc]) rfl rfl ⟨rfl, rfl⟩ ⟨rfl, rfl⟩ ⟨rfl, rfl⟩
      exact hreturns.settle
  | throws hpc =>
      have hthrows : Heard o handled { s with pc := .caught, threw := s.threw + 1 } :=
        h.keep (by simp [hpc]) rfl rfl ⟨rfl, rfl⟩ ⟨rfl, rfl⟩ ⟨rfl, rfl⟩
      exact hthrows.settle
  | datagramReturns hpc => exact h.next (.inl hpc) s.reports
  | datagramThrows hpc =>
      exact h.keep (by simp [hpc]) rfl rfl ⟨rfl, rfl⟩ ⟨rfl, rfl⟩ ⟨rfl, rfl⟩
  | datagramReported hpc => exact h.next (.inr hpc) (s.reports + 1)

end Heard

/-! ## The callbacks, the reports and the stop -/

/-- Every callback there has been was executed, is queued or waits, once. -/
def Conserved (s : OwnerLoop ε) : Prop :=
  (s.ran ++ (s.callbacks ++ s.timers)).Perm (List.range s.made)

lemma perm_eraseIdx {l : List ℕ} {k c : ℕ} (hc : l[k]? = some c) : l.Perm (c :: l.eraseIdx k) := by
  obtain ⟨hlt, rfl⟩ := List.getElem?_eq_some_iff.mp hc
  exact (List.getElem_cons_eraseIdx_perm hlt).symm

namespace Conserved

lemma requeue (h : s.Conserved) (hmade : t.made = s.made)
    (hperm : (t.ran ++ (t.callbacks ++ t.timers)).Perm (s.ran ++ (s.callbacks ++ s.timers))) :
    t.Conserved := by
  unfold Conserved
  rw [hmade]
  exact hperm.trans h

lemma add (h : s.Conserved) (hmade : t.made = s.made + 1)
    (hperm : (t.ran ++ (t.callbacks ++ t.timers)).Perm
      (s.ran ++ (s.callbacks ++ s.timers) ++ [s.made])) : t.Conserved := by
  unfold Conserved
  rw [hmade, List.range_succ]
  exact hperm.trans (h.append_right _)

lemma settle (h : s.Conserved) : s.settle.Conserved := by
  obtain ⟨stopped, drained, heq⟩ := s.settle_eq
  rw [heq]
  exact h

lemma move (h : s.Conserved) (hmove : Move o handled s act t) : t.Conserved := by
  cases hmove with
  | post =>
      have hperm : (s.callbacks ++ [s.made] ++ s.timers).Perm
          (s.callbacks ++ s.timers ++ [s.made]) := by
        rw [List.append_assoc, List.append_assoc]
        exact List.perm_append_comm.append_left _
      refine h.add rfl ?_
      rw [List.append_assoc s.ran]
      exact hperm.append_left _
  | wait =>
      refine h.add rfl ?_
      rw [List.append_assoc s.ran, List.append_assoc s.callbacks]
  | expire hc =>
      refine h.requeue (t := { s with timers := _, callbacks := _ }) rfl ?_
      rw [List.append_assoc s.callbacks]
      exact ((perm_eraseIdx hc).symm.append_left _).append_left _
  | execute hpc going hc =>
      refine h.requeue (t := { s with pc := _, callbacks := _, ran := _ }) rfl ?_
      rw [List.append_assoc s.ran]
      exact ((perm_eraseIdx hc).symm.append_right _).append_left _
  | drop | ends | returns | throws =>
      apply settle
      exact h
  | _ => exact h

end Conserved

/-- What the thread has thrown, reported and seen of the `io_context`. -/
structure Accounted (s : OwnerLoop ε) : Prop where
  threw : s.threw = s.reports + if s.pc = .caught ∨ s.pc = .caughtDatagram then 1 else 0
  left : s.pc = .left → s.stopped = true
  why : s.stopped = true ↔ s.halted = true ∨ s.drained = true

namespace Accounted

lemma settle (h : s.Accounted) : s.settle.Accounted := by
  unfold OwnerLoop.settle
  split
  · exact ⟨h.threw, fun _ => rfl, iff_of_true rfl (.inr rfl)⟩
  · exact h

lemma move (h : s.Accounted) (hmove : Move o handled s act t) : t.Accounted := by
  have hthrew := h.threw
  cases hmove with
  | stopIo => exact ⟨h.threw, fun _ => rfl, iff_of_true rfl (.inl rfl)⟩
  | leaves hpc stopped =>
      refine ⟨?_, fun _ => stopped, h.why⟩
      rcases hpc with hpc | hpc
      · simpa [hpc] using hthrew
      · simpa [hpc] using hthrew
  | enters hpc | calls hpc | execute hpc | datagramReturns hpc | datagramThrows hpc
  | datagramReported hpc | reported hpc =>
      refine ⟨?_, by simp, h.why⟩
      simpa [hpc] using hthrew
  | drop | ends =>
      apply settle
      exact ⟨h.threw, h.left, h.why⟩
  | returns hpc | throws hpc =>
      apply settle
      refine ⟨?_, by simp, h.why⟩
      simpa [hpc] using hthrew
  | _ => exact ⟨h.threw, h.left, h.why⟩

end Accounted

/-- `t` is later than `s`, and nothing was begun since. -/
structure Frozen (s t : OwnerLoop ε) : Prop where
  stopped : t.stopped = true
  ran : t.ran = s.ran
  calls : t.calls = s.calls
  taken : t.taken = s.taken

namespace Frozen

variable {u : OwnerLoop ε}

lemma settle (h : Frozen s t) : Frozen s t.settle := by
  unfold OwnerLoop.settle
  split
  · exact ⟨rfl, h.ran, h.calls, h.taken⟩
  · exact h

lemma move (h : Frozen s t) (hmove : Move o handled t act u) : Frozen s u := by
  cases hmove with
  | begins _ going | ends _ going | calls _ going | skips _ going | execute _ going =>
      rw [h.stopped] at going
      cases going
  | stopIo => exact ⟨rfl, h.ran, h.calls, h.taken⟩
  | drop | returns | throws =>
      apply settle
      exact ⟨h.stopped, h.ran, h.calls, h.taken⟩
  | _ => exact ⟨h.stopped, h.ran, h.calls, h.taken⟩

end Frozen

/-- `t` is later than `s`, the coroutine has returned, and the datagram handler was not called
since. -/
structure Deaf (o : UdpOptions) (handled : Bool) (s t : OwnerLoop ε) : Prop where
  heard : Heard o handled t
  ended : t.receive = .ended
  calls : t.calls = s.calls

lemma Deaf.move {u : OwnerLoop ε} (h : Deaf o handled s t) (hmove : Move o handled t act u) :
    Deaf o handled s u := by
  have heard := h.heard.move hmove
  have hended := h.ended
  cases hmove with
  | receive _ hreceive | fail hreceive | begins _ _ hreceive | ends _ _ hreceive
  | calls _ _ hreceive | skips _ _ hreceive =>
      rw [hreceive] at hended
      cases hended
  | datagramReturns hpc =>
      rw [h.heard.handling.mpr (.inl hpc)] at hended
      cases hended
  | datagramReported hpc =>
      rw [h.heard.handling.mpr (.inr hpc)] at hended
      cases hended
  | drop | returns | throws =>
      obtain ⟨stopped, drained, heq⟩ := settle_eq _
      rw [heq] at heard ⊢
      exact ⟨heard, h.ended, h.calls⟩
  | _ => exact ⟨heard, h.ended, h.calls⟩

section Runs

variable [Inhabited ε]

end Runs

end OwnerLoop

end ReactorRuntime
