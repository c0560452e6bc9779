import Mathlib.Algebra.Ring.Nat
import Mathlib.Tactic.Lemma

/-!
# Which accept errors end a listener

`AcceptControl::retry` (`reactor.h:462-479`) sorts an error of `async_accept` three ways: one that
belongs to a single pending connection is skipped, a shortage of resources is waited out, and
anything else ends the listener.  The classification reads the error's value, and sometimes its
category; on macOS a reset connection and a socket that no longer listens report the same value,
and `listener_lost` tells them apart.

`judge` is the whole decision, with what it does to the two counters it keeps in the control.
-/

namespace ReactorRuntime

/-- The error values the source names, and all others. -/
inductive Errno
  | EMFILE
  | ENFILE
  | ENOBUFS
  | ENOMEM
  | EINTR
  | EAGAIN
  | EWOULDBLOCK
  | ECONNABORTED
  | ECONNRESET
  | EPROTO
  | ENETDOWN
  | ENETUNREACH
  | EHOSTDOWN
  | EHOSTUNREACH
  | EOPNOTSUPP
  | ENOPROTOOPT
  | ENONET
  | EINVAL
  | ECANCELED
  | EBADF
  | other (n : ℕ)
  deriving DecidableEq, Repr

/-- An `asio::error_code`: its value, and whether its category is `asio::system_category()`. -/
structure ErrorCode where
  value : Errno
  system : Bool
  deriving DecidableEq, Repr

/-- The preprocessor symbols the classification depends on. -/
structure Platform where
  /-- `#ifdef ENONET` -/
  enonet : Bool
  /-- `#ifdef __APPLE__` -/
  apple : Bool

namespace ErrorCode

/-- The `asio::error` constant of that name: comparing with it compares the category too. -/
def sys (e : Errno) : ErrorCode := ⟨e, true⟩

/-- `retryable_accept_error`; note that `ENFILE` counts in any category. -/
def retryableAcceptError (e : ErrorCode) : Bool :=
  decide (e = sys .EMFILE) || decide (e.value = .ENFILE) || decide (e = sys .ENOBUFS) ||
    decide (e = sys .ENOMEM) || decide (e = sys .EINTR) || decide (e = sys .EAGAIN) ||
    decide (e = sys .EWOULDBLOCK)

/-- `per_connection_accept_error` -/
def perConnectionAcceptError (p : Platform) (e : ErrorCode) : Bool :=
  if e = sys .ECONNABORTED ∨ e = sys .ECONNRESET then true
  else
    match e.value with
    | .ECONNABORTED | .ECONNRESET | .EPROTO | .ENETDOWN | .ENETUNREACH | .EHOSTDOWN
    | .EHOSTUNREACH | .EOPNOTSUPP | .ENOPROTOOPT => e.system
    | .ENONET => p.enonet && e.system
    | .EINVAL => p.apple && e.system
    | _ => false

/-- `AcceptControl::listener_lost`; `moved` is what asking the acceptor for its local endpoint
gives: an error, or another endpoint than the one bound. -/
def listenerLost (e : ErrorCode) (moved : Bool) : Bool :=
  if e.value ≠ .EINVAL ∨ e.system = false then false else moved

/-- The error is skipped or waited out, not fatal: what `retry` calls `per_connection`. -/
def perConnection (p : Platform) (e : ErrorCode) (moved : Bool) : Bool :=
  e.perConnectionAcceptError p && !e.listenerLost moved

end ErrorCode

/-- The counters of `retry` that live in the control. -/
structure Pacing where
  /-- `unsigned skipped` -/
  skipped : ℕ
  /-- `retry_delay`, in milliseconds. -/
  retry_delay : ℕ
  deriving DecidableEq, Repr

/-- A fresh control, and a control after a successful accept. -/
def Pacing.reset : Pacing := ⟨0, 10⟩

/-- What `retry` does with an error it has to judge. -/
inductive Verdict
  /-- `co_return true` at once. -/
  | skip
  /-- `throw asio::system_error(error)` -/
  | fail
  /-- The retry timer is armed for that many milliseconds. -/
  | pause (delay : ℕ)
  deriving DecidableEq, Repr

/-- The body of `retry` between its first statement and the timer. -/
def judge (p : Platform) (e : ErrorCode) (moved : Bool) (c : Pacing) : Verdict × Pacing :=
  if e.perConnection p moved then
    -- `++skipped` is an `unsigned`
    let skipped := (c.skipped + 1) % 2 ^ 32
    if skipped ≤ 64 then (.skip, { c with skipped := skipped })
    else (.pause 1, { c with skipped := skipped })
  else if e.retryableAcceptError then
    (.pause c.retry_delay, { c with retry_delay := min (c.retry_delay * 2) 1000 })
  else (.fail, c)

/-- **`retry` gives up exactly on what is neither one connection's error nor a shortage.** -/
theorem judge_fail_iff (p : Platform) (e : ErrorCode) (moved : Bool) (c : Pacing) :
    (judge p e moved c).1 = .fail ↔
      e.perConnection p moved = false ∧ e.retryableAcceptError = false := by
  unfold judge
  cases e.perConnection p moved with
  | true =>
      simp only [if_true]
      split <;> simp
  | false => cases e.retryableAcceptError <;> simp

end ReactorRuntime
