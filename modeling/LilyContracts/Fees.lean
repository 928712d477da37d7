import LilyContracts.Payments.Ledger
import LilyContracts.Protocol.Effects
import Mathlib.Algebra.Order.Ring.Int
import Mathlib.Tactic.Ring

/-!
# Amounts and fees

The fee of `docs/FEES.md`, `amount * fee_bps / MAX_BPS`, is not charged by the
contracts yet, but `MAX_PAYMENT_AMOUNT` is there so that it will never overflow.
`feeAmount` and `netAmount` are that computation in checked `i128` arithmetic,
where every overflow would trap.

Two independent histories meet in it: an intent's amount is bounded when the
intent is created, the fee rate whenever it is set, possibly between creation
and settlement. Each bound is an invariant of its contract, and the pair is all
the arithmetic needs (`feeAmount_spec`): the product of a bounded amount and a
bounded rate fits, division by `MAX_BPS` rounds it down, and the split adds up.
That the amount bound cannot be relaxed is `checkedMul_isSome_iff`.
-/

namespace LilyContracts

open Host

/-! ## The computation -/

/-- `(amount * fee_bps) / MAX_BPS` in `i128`. -/
def feeAmount (amount : I128) (feeBps : UInt32) : Option I128 := do
  let product ← amount.checkedMul (.ofUInt32 feeBps)
  product.checkedDiv (.ofUInt32 maxBps)

/-- `amount - fee_amount` in `i128`. -/
def netAmount (amount : I128) (feeBps : UInt32) : Option I128 := do
  amount.checkedSub (← feeAmount amount feeBps)

/-- The fee as a mathematical integer: rounded down. -/
def floorFee (amount : Int) (feeBps : UInt32) : Int :=
  amount * feeBps.toNat / maxBps.toNat

open Payments (maxPaymentAmount)

/-! ## Bounds -/

theorem maxPaymentAmount_mul_le : maxPaymentAmount * maxBps.toNat ≤ I128.maxValue := by decide

theorem lt_maxPaymentAmount_succ_mul :
    I128.maxValue < (maxPaymentAmount + 1) * maxBps.toNat := by decide

theorem toNat_le_maxBps {f : UInt32} (hf : f ≤ maxBps) : (f.toNat : Int) ≤ maxBps.toNat := by
  have h : f.toNat ≤ maxBps.toNat := UInt32.le_iff_toNat_le.mp hf
  omega

/-- A bounded amount times a bounded rate fits. -/
theorem product_fits {a : Int} {f : UInt32} (ha : 0 ≤ a) (hmax : a ≤ maxPaymentAmount)
    (hf : f ≤ maxBps) : I128.Fits (a * f.toNat) := by
  have hpos : 0 ≤ a * f.toNat := Int.mul_nonneg ha (Int.natCast_nonneg _)
  have hle : a * f.toNat ≤ I128.maxValue :=
    calc a * f.toNat ≤ maxPaymentAmount * maxBps.toNat :=
          Int.mul_le_mul hmax (toNat_le_maxBps hf) (Int.natCast_nonneg _) (by decide)
      _ ≤ I128.maxValue := maxPaymentAmount_mul_le
  exact ⟨by omega, hle⟩

theorem floorFee_nonneg {a : Int} {f : UInt32} (ha : 0 ≤ a) : 0 ≤ floorFee a f :=
  Int.ediv_nonneg (Int.mul_nonneg ha (Int.natCast_nonneg _)) (by decide)

theorem floorFee_le {a : Int} {f : UInt32} (ha : 0 ≤ a) (hf : f ≤ maxBps) : floorFee a f ≤ a := by
  have hmul : a * f.toNat ≤ a * maxBps.toNat :=
    Int.mul_le_mul_of_nonneg_left (toNat_le_maxBps hf) ha
  exact Int.ediv_le_of_le_mul (by decide) hmul

theorem floorFee_mono {a a' : Int} {f f' : UInt32} (ha : 0 ≤ a) (haa : a ≤ a') (hff : f ≤ f') :
    floorFee a f ≤ floorFee a' f' := by
  have hn : f.toNat ≤ f'.toNat := UInt32.le_iff_toNat_le.mp hff
  have hmul : a * f.toNat ≤ a' * f'.toNat :=
    Int.mul_le_mul haa (by omega) (Int.natCast_nonneg _) (Int.le_trans ha haa)
  exact Int.ediv_le_ediv (by decide) hmul

@[simp] theorem floorFee_zero (a : Int) : floorFee a 0 = 0 := by
  unfold floorFee
  simp

@[simp] theorem floorFee_maxBps (a : Int) : floorFee a maxBps = a :=
  Int.mul_ediv_cancel a (by decide)

/-! ## The checked computation is the rounded one -/

theorem ofInt?_of_fits {v : Int} (h : I128.Fits v) :
    ∃ x : I128, I128.ofInt? v = some x ∧ x.val = v :=
  ⟨_, dif_pos h, rfl⟩

theorem ofUInt32_val (n : UInt32) : (I128.ofUInt32 n).val = n.toNat := rfl

/-- On a bounded amount and a bounded rate, nothing overflows: the fee is the
rounded-down product, at least zero and at most the amount, and fee and rest add
up to the amount. -/
theorem feeAmount_spec {a : I128} {f : UInt32} (ha : 0 ≤ a.val) (hmax : a.val ≤ maxPaymentAmount)
    (hf : f ≤ maxBps) :
    ∃ fee net, feeAmount a f = some fee ∧ netAmount a f = some net ∧
      fee.val = floorFee a.val f ∧ 0 ≤ fee.val ∧ fee.val ≤ a.val ∧ fee.val + net.val = a.val := by
  obtain ⟨product, hproduct, hval⟩ := ofInt?_of_fits (product_fits ha hmax hf)
  have hpos : 0 ≤ product.val := by
    rw [hval]
    exact Int.mul_nonneg ha (Int.natCast_nonneg _)
  -- on a non-negative product, `i128` division and rounding down agree
  have hdiv : product.val.tdiv (I128.ofUInt32 maxBps).val = floorFee a.val f := by
    rw [Int.tdiv_eq_ediv_of_nonneg hpos, hval, ofUInt32_val, floorFee]
  have h0 : 0 ≤ floorFee a.val f := floorFee_nonneg ha
  have hle : floorFee a.val f ≤ a.val := floorFee_le ha hf
  have hlt := a.lt_max
  have hmv : I128.maxValue = 2 ^ 127 - 1 := rfl
  obtain ⟨fee, hfee, hfeeVal⟩ := ofInt?_of_fits (v := floorFee a.val f) ⟨by omega, by omega⟩
  obtain ⟨net, hnet, hnetVal⟩ := ofInt?_of_fits (v := a.val - fee.val) ⟨by omega, by omega⟩
  have hfeeAmount : feeAmount a f = some fee := by
    have hmul : a.checkedMul (.ofUInt32 f) = some product := hproduct
    have hquot : product.checkedDiv (.ofUInt32 maxBps) = some fee := by
      rw [I128.checkedDiv, if_neg (by decide), hdiv, hfee]
    rw [feeAmount, hmul]
    exact hquot
  have hnetAmount : netAmount a f = some net := by
    rw [netAmount, hfeeAmount]
    exact hnet
  exact ⟨fee, net, hfeeAmount, hnetAmount, hfeeVal, by omega, by omega, by omega⟩

/-- `MAX_PAYMENT_AMOUNT` is exactly the largest amount whose product with every
accepted rate fits. -/
theorem checkedMul_isSome_iff {a : I128} (ha : 0 ≤ a.val) :
    (∀ f : UInt32, f ≤ maxBps → (a.checkedMul (.ofUInt32 f)).isSome = true) ↔
      a.val ≤ maxPaymentAmount := by
  constructor
  · intro h
    have hmax := h maxBps (UInt32.le_refl _)
    unfold I128.checkedMul I128.ofInt? at hmax
    split at hmax
    next hfits =>
      have hle : a.val * maxBps.toNat ≤ I128.maxValue := hfits.2
      have hlt := lt_maxPaymentAmount_succ_mul
      have hb : (maxBps.toNat : Int) = 10000 := rfl
      rw [hb] at hle hlt
      omega
    next => cases hmax
  · intro h f hf
    obtain ⟨x, hx, _⟩ := ofInt?_of_fits (product_fits ha h hf)
    rw [I128.checkedMul, ofUInt32_val, hx]
    rfl

/-! ## In every reachable state -/

/-- Protocol's fee rate is a valid one whenever it is stored. -/
theorem protocol_feeBps_le {A : Type} [DecidableEq A] (M : Missing) (pin : A)
    (txs : List (Protocol.Tx A)) {f : UInt32}
    (hf : (run (Protocol.dispatch M) (Protocol.deployed pin) txs).feeBps = some f) :
    f ≤ maxBps := by
  rcases Protocol.reachable M pin txs with heq | hlive
  · rw [heq] at hf
    cases hf
  · obtain ⟨g, hg, hle⟩ := hlive.feeBps
    rw [hg] at hf
    exact Option.some.inj hf ▸ hle

section Reachable

variable {A : Type} [DecidableEq A] {M : Missing}

theorem payments_feeBps_le (hM : M.ChecksInc) (pin : A) (txs : List (Payments.Tx A)) {f : UInt32}
    (hf : (run (Payments.dispatch M) (Payments.deployed pin) txs).feeBps = some f) :
    f ≤ maxBps := by
  rcases Payments.reachable hM pin txs with heq | ⟨l, hlive⟩
  · rw [heq] at hf
    cases hf
  · obtain ⟨g, hg, hle⟩ := hlive.feeBps
    rw [hg] at hf
    exact Option.some.inj hf ▸ hle

theorem payments_amount_bounds (hM : M.ChecksInc) (pin : A) (txs : List (Payments.Tx A))
    {k : UInt64} {i : Payments.PaymentIntent A}
    (hi : (run (Payments.dispatch M) (Payments.deployed pin) txs).intents k = some i) :
    0 < i.amount.val ∧ i.amount.val ≤ maxPaymentAmount := by
  rcases Payments.reachable hM pin txs with heq | ⟨l, hlive⟩
  · rw [heq] at hi
    cases hi
  · have hwf := hlive.ledger.wellFormed i (hlive.ledger.mem hi)
    exact ⟨hwf.amount_pos, hwf.amount_le⟩

/-- **Fees never overflow**: in every initialized reachable state of payments the
amounts and the fee rate are within their bounds, so is protocol's fee rate, and
the fee of any stored amount under any rate stored now or later is computed
without overflow, rounded down, between zero and the amount, and monotone. The
bound on amounts is the largest that allows this. -/
theorem fees_never_overflow (hM : M.ChecksInc) (pin : A) (txs : List (Payments.Tx A))
    (hinit : (run (Payments.dispatch M) (Payments.deployed pin) txs).initialized.isSome = true) :
    let s := run (Payments.dispatch M) (Payments.deployed pin) txs
    (∀ k i, s.intents k = some i → 0 < i.amount.val ∧ i.amount.val ≤ maxPaymentAmount) ∧
    (∃ f, s.feeBps = some f ∧ f ≤ maxBps) ∧
    (∀ (protocolPin : A) protocolTxs f,
      (run (Protocol.dispatch M) (Protocol.deployed protocolPin) protocolTxs).feeBps = some f →
      f ≤ maxBps) ∧
    (∀ k i later f, s.intents k = some i → (run (Payments.dispatch M) s later).feeBps = some f →
      ∃ fee net, feeAmount i.amount f = some fee ∧ netAmount i.amount f = some net ∧
        fee.val = floorFee i.amount.val f ∧ 0 ≤ fee.val ∧ fee.val ≤ i.amount.val ∧
        fee.val + net.val = i.amount.val) ∧
    (∀ (a a' : Int) (f f' : UInt32), 0 ≤ a → a ≤ a' → f ≤ f' → floorFee a f ≤ floorFee a' f') ∧
    (∀ a : Int, floorFee a 0 = 0 ∧ floorFee a maxBps = a) ∧
    (∀ a : I128, 0 ≤ a.val →
      ((∀ f : UInt32, f ≤ maxBps → (a.checkedMul (.ofUInt32 f)).isSome = true) ↔
        a.val ≤ maxPaymentAmount)) := by
  intro s
  refine ⟨fun k i hi => payments_amount_bounds hM pin txs hi, ?_, ?_, ?_, ?_, ?_, ?_⟩
  · obtain ⟨l, hlive⟩ := Payments.reachable_live hM hinit
    exact hlive.feeBps
  · intro protocolPin protocolTxs f hf
    exact protocol_feeBps_le M protocolPin protocolTxs hf
  · intro k i later f hi hf
    obtain ⟨hpos, hmax⟩ := payments_amount_bounds hM pin txs hi
    have hf' : f ≤ maxBps := by
      refine payments_feeBps_le hM pin (txs ++ later) ?_
      rw [run_append]
      exact hf
    exact feeAmount_spec (Int.le_of_lt hpos) hmax hf'
  · intro a a' f f' ha haa hff
    exact floorFee_mono ha haa hff
  · exact fun a => ⟨floorFee_zero a, floorFee_maxBps a⟩
  · exact fun a ha => checkedMul_isSome_iff ha

end Reachable

/-- The fee of the sample's intent, under the rate it was initialized with: 2.5 percent of
100, rounded down. -/
theorem fees_never_overflow_sample :
    ∃ fee net, feeAmount Payments.Sample.amount 250 = some fee ∧
      netAmount Payments.Sample.amount 250 = some net ∧
      fee.val = floorFee 100 250 ∧ fee.val ≤ 100 ∧ fee.val + net.val = 100 := by
  obtain ⟨_, _, _, hfee, _⟩ := fees_never_overflow Missing.documented_checksInc 0
    [Payments.Sample.initializeTx, Payments.Sample.createTx] (by decide +kernel)
  obtain ⟨fee, net, hf, hn, hfloor, _, hle, hsum⟩ :=
    hfee 1 (.fresh 1 1 2 Payments.Sample.amount Payments.Sample.memo 11) [] 250
      (by decide +kernel) (by decide +kernel)
  exact ⟨fee, net, hf, hn, hfloor, hle, hsum⟩

end LilyContracts
