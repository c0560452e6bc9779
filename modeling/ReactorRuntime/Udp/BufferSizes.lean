import Mathlib.Algebra.Group.Nat.Defs
import Mathlib.Order.Bounds.Defs
import ReactorRuntime.Udp.UdpServer

/-!
# The sizes of the socket buffers

`size_buffers()` (`reactor_udp.h:195-212`) asks for a buffer of the target size, then of half of
it, and so on down to 256 KB, until the system accepts one.  It counts in `std::size_t` and asks in
`int`.  While the target fits an `int`, the last size it asks for is the largest that the system
accepts, and otherwise it is not asked for what is meant from the first value on
(`keeps_largest_iff`): a target of 2 GB or more is narrowed, and if the system accepts the narrowed
value, the search is over (`narrowing_ends_search`).
-/

namespace ReactorRuntime

/-- `SO_SNDBUF` and `SO_RCVBUF` -/
inductive SocketBuffer
  | send
  | recv
  deriving DecidableEq, Repr

/-- `static_cast<int>` of a `std::size_t`: the value modulo 2³², with a sign. -/
def toInt (size : ℕ) : ℤ := Int.bmod size 4294967296

/-- The loop over the sizes, from `size` down; the result lists the values that are passed to
`set_option`, and `accepts` is the system's answer. -/
def trySizes (accepts : ℤ → Bool) (size : ℕ) : List ℤ :=
  if 262144 ≤ size then
    if accepts (toInt size) then [toInt size]
    else toInt size :: trySizes accepts (size / 2)
  else []
termination_by size
decreasing_by omega

namespace UdpOptions

/-- The target for a buffer; 0 leaves it alone. -/
def target (o : UdpOptions) : SocketBuffer → ℕ
  | .send => o.sendBuffer
  | .recv => o.recvBuffer

/-- `size_buffers()`: for each buffer the values passed to `set_option`. -/
def sizeBuffers (o : UdpOptions) (accepts : SocketBuffer → ℤ → Bool) (b : SocketBuffer) : List ℤ :=
  if o.target b ≠ 0 then trySizes (accepts b) (o.target b) else []

end UdpOptions

/-- `c` is one of `target`, `target / 2`, `target / 4` and so on, and not below 256 KB. -/
def Candidate (target c : ℕ) : Prop := 262144 ≤ c ∧ ∃ k, c = target / 2 ^ k

namespace Candidate

variable {target c : ℕ}

lemma self (h : 262144 ≤ target) : Candidate target target :=
  ⟨h, 0, (Nat.div_one _).symm⟩

lemma of_half (h : Candidate (target / 2) c) : Candidate target c := by
  obtain ⟨hmin, k, hk⟩ := h
  refine ⟨hmin, k + 1, ?_⟩
  rw [hk, Nat.div_div_eq_div_mul, Nat.pow_succ']

/-- A candidate is the target itself or one of its half. -/
lemma eq_or_half (h : Candidate target c) : c = target ∨ Candidate (target / 2) c := by
  obtain ⟨hmin, k, hk⟩ := h
  cases k with
  | zero => exact .inl (hk.trans (Nat.div_one _))
  | succ k =>
      refine .inr ⟨hmin, k, ?_⟩
      rw [hk, Nat.div_div_eq_div_mul, Nat.pow_succ']

lemma le_target (h : Candidate target c) : c ≤ target := by
  obtain ⟨-, k, rfl⟩ := h
  exact Nat.div_le_self ..

end Candidate

/-! ## Targets that fit an `int` -/

lemma toInt_of_lt {size : ℕ} (h : size < 2147483648) : toInt size = size := by
  unfold toInt
  apply Int.bmod_eq_of_le
  · omega
  · omega

lemma toInt_ne_of_le {size : ℕ} (h : 2147483648 ≤ size) : toInt size ≠ size := by
  have hlt : Int.bmod (size : ℤ) 4294967296 < ((4294967296 : ℕ) + 1) / 2 := Int.bmod_lt (by omega)
  unfold toInt
  omega

variable {accepts : ℤ → Bool} {size : ℕ}

/-- The `k`-th value that is passed is the `k`-th candidate, narrowed. -/
lemma getElem?_trySizes {k : ℕ} {v : ℤ} (hv : (trySizes accepts size)[k]? = some v) :
    262144 ≤ size / 2 ^ k ∧ v = toInt (size / 2 ^ k) := by
  fun_induction trySizes accepts size generalizing k with
  | case1 size hmin _ =>
      cases k with
      | zero =>
          rw [Nat.pow_zero, Nat.div_one]
          exact ⟨hmin, (Option.some.inj hv).symm⟩
      | succ k => cases hv
  | case2 size hmin _ ih =>
      cases k with
      | zero =>
          rw [Nat.pow_zero, Nat.div_one]
          exact ⟨hmin, (Option.some.inj hv).symm⟩
      | succ k =>
          rw [List.getElem?_cons_succ] at hv
          rw [Nat.pow_succ', ← Nat.div_div_eq_div_mul]
          exact ih hv
  | case3 => cases hv

lemma trySizes_head (hmin : 262144 ≤ size) : (trySizes accepts size)[0]? = some (toInt size) := by
  rw [trySizes, if_pos hmin]
  split <;> rfl

/-- The search ends with the largest candidate that is accepted. -/
lemma trySizes_getLast (hrange : size < 2147483648)
    (hsome : ∃ c : ℕ, Candidate size c ∧ accepts c = true) :
    ∃ c : ℕ, IsGreatest {d : ℕ | Candidate size d ∧ accepts d = true} c ∧
      (trySizes accepts size).getLast? = some (c : ℤ) := by
  fun_induction trySizes accepts size with
  | case1 size hmin haccepts =>
      rw [toInt_of_lt hrange] at haccepts ⊢
      exact ⟨size, ⟨⟨.self hmin, haccepts⟩, fun d hd => hd.1.le_target⟩, rfl⟩
  | case2 size hmin hrefused ih =>
      rw [toInt_of_lt hrange] at hrefused ⊢
      -- an accepted candidate is not the target
      have hhalf : ∀ d : ℕ, Candidate size d ∧ accepts d = true →
          Candidate (size / 2) d ∧ accepts d = true := by
        rintro d ⟨hd, hok⟩
        rcases hd.eq_or_half with rfl | hd
        · exact absurd hok hrefused
        · exact ⟨hd, hok⟩
      obtain ⟨c₀, hc₀⟩ := hsome
      obtain ⟨c, ⟨⟨hc, hok⟩, hgreatest⟩, hlast⟩ := ih (by omega) ⟨c₀, hhalf c₀ hc₀⟩
      refine ⟨c, ⟨⟨hc.of_half, hok⟩, fun d hd => hgreatest (hhalf d hd)⟩, ?_⟩
      rw [List.getLast?_cons, hlast]
      rfl
  | case3 size hmin =>
      obtain ⟨c, hc, -⟩ := hsome
      exact absurd (Nat.le_trans hc.1 hc.le_target) hmin

/-- A search in which nothing is accepted goes through all candidates. -/
lemma trySizes_of_refused (hrange : size < 2147483648)
    (hnone : ∀ c : ℕ, Candidate size c → accepts c = false) :
    ∃ cs : List ℕ, cs.Pairwise (· > ·) ∧ (∀ c, c ∈ cs ↔ Candidate size c) ∧
      trySizes accepts size = cs.map (fun c : ℕ => (c : ℤ)) := by
  fun_induction trySizes accepts size with
  | case1 size hmin haccepts =>
      rw [toInt_of_lt hrange, hnone size (.self hmin)] at haccepts
      exact absurd haccepts Bool.false_ne_true
  | case2 size hmin _ ih =>
      obtain ⟨cs, hsorted, hmem, heq⟩ := ih (by omega) fun c hc => hnone c hc.of_half
      refine ⟨size :: cs, ?_, ?_, ?_⟩
      · refine List.pairwise_cons.mpr ⟨fun c hc => ?_, hsorted⟩
        have hle := ((hmem c).mp hc).le_target
        omega
      · intro c
        rw [List.mem_cons, hmem]
        constructor
        · rintro (rfl | hc)
          · exact .self hmin
          · exact hc.of_half
        · exact Candidate.eq_or_half
      · rw [toInt_of_lt hrange, heq]
        rfl
  | case3 size hmin =>
      refine ⟨[], List.Pairwise.nil, fun c => ?_, rfl⟩
      constructor
      · exact fun hc => absurd hc List.not_mem_nil
      · exact fun hc => absurd (Nat.le_trans hc.1 hc.le_target) hmin

/-- What is asked of the search for a buffer of size `target`; `passed` are the values it passes to
`set_option`. -/
structure KeepsLargest (target : ℕ) (accepts : ℤ → Bool) (passed : List ℤ) : Prop where
  /-- Each value is its candidate's own. -/
  own : ∀ (k : ℕ) (v : ℤ), passed[k]? = some v → 262144 ≤ target / 2 ^ k ∧ v = (target / 2 ^ k : ℕ)
  /-- If the system accepts some candidate, the last value is the largest one it accepts. -/
  largest : (∃ c : ℕ, Candidate target c ∧ accepts c = true) →
    ∃ c : ℕ, IsGreatest {d : ℕ | Candidate target d ∧ accepts d = true} c ∧
      passed.getLast? = some (c : ℤ)
  /-- If it accepts none, each has been tried once, in decreasing order. -/
  all : (∀ c : ℕ, Candidate target c → accepts c = false) →
    ∃ cs : List ℕ, cs.Pairwise (· > ·) ∧ (∀ c, c ∈ cs ↔ Candidate target c) ∧
      passed = cs.map (fun c : ℕ => (c : ℤ))

lemma keepsLargest_trySizes (hrange : size < 2147483648) :
    KeepsLargest size accepts (trySizes accepts size) where
  own k v hv := by
    obtain ⟨hmin, heq⟩ := getElem?_trySizes hv
    refine ⟨hmin, heq.trans (toInt_of_lt ?_)⟩
    exact Nat.lt_of_le_of_lt (Nat.div_le_self ..) hrange
  largest := trySizes_getLast hrange
  all := trySizes_of_refused hrange

lemma not_keepsLargest_trySizes (hlarge : 2147483648 ≤ size) :
    ¬ KeepsLargest size accepts (trySizes accepts size) := by
  intro h
  have hown := (h.own 0 _ (trySizes_head (by omega))).2
  rw [Nat.pow_zero, Nat.div_one] at hown
  exact toInt_ne_of_le hlarge hown

lemma sizeBuffers_eq (o : UdpOptions) (accepts : SocketBuffer → ℤ → Bool) (b : SocketBuffer) :
    o.sizeBuffers accepts b = trySizes (accepts b) (o.target b) := by
  by_cases hset : o.target b = 0
  · rw [UdpOptions.sizeBuffers, if_neg (fun hne => hne hset), hset, trySizes]
    rfl
  · exact if_pos hset

/-- **The largest accepted size is kept exactly for a target that fits an `int`**, whatever the
system accepts.  A target that does not fit is narrowed at once. -/
theorem keeps_largest_iff (o : UdpOptions) (accepts : SocketBuffer → ℤ → Bool) (b : SocketBuffer) :
    KeepsLargest (o.target b) (accepts b) (o.sizeBuffers accepts b) ↔ o.target b < 2147483648 := by
  rw [sizeBuffers_eq]
  constructor
  · exact fun h => Nat.lt_of_not_le fun hlarge => not_keepsLargest_trySizes hlarge h
  · exact keepsLargest_trySizes

/-- A system that accepts up to 1 MB, asked for 4 MB. -/
theorem keeps_largest_at_megabyte :
    ∃ c : ℕ, IsGreatest {d : ℕ | Candidate 4194304 d ∧ decide ((d : ℤ) ≤ 1048576) = true} c ∧
      (UdpOptions.sizeBuffers { sendBuffer := 4194304 } (fun _ v => decide (v ≤ 1048576))
        .send).getLast? = some (c : ℤ) :=
  ((keeps_largest_iff { sendBuffer := 4194304 } (fun _ v => decide (v ≤ 1048576)) .send).mpr
    (by decide)).largest ⟨1048576, ⟨by decide, 2, by decide⟩, by decide⟩

/-! ## Larger targets -/

/-- 4 GB and 256 KB are asked for, of a system that accepts up to 1.5 GB: the first value passed is
256 KB, and the search ends with it, though 1 GB and 64 KB is a candidate that it accepts. -/
theorem narrowing_ends_search :
    ∃ (o : UdpOptions) (accepts : SocketBuffer → ℤ → Bool),
      o.target .send = 4295229440 ∧
      o.sizeBuffers accepts .send = [262144] ∧
      Candidate 4295229440 1073807360 ∧ accepts .send 1073807360 = true := by
  refine ⟨{ sendBuffer := 4295229440 }, fun _ v => decide (0 ≤ v ∧ v ≤ 1610612736), rfl, ?_,
    ⟨by decide, 2, by decide⟩, by decide⟩
  show trySizes _ 4295229440 = _
  rw [trySizes]
  decide

end ReactorRuntime
