import LilyContracts.Payments.Ledger

/-!
# The stored ledger and the payer index

What the representation of `Ledger.lean` means for a reader of the storage: the
counter, the map by id and the payer vectors never drift apart, whatever calls
succeed, fail or run into the counter's limit (`ledger_representation`).

The clock part is an argument about the abstract list alone: a step appends a
record stamped with the current time or keeps every stamp, so under a clock
that never goes back the list stays sorted by `createdAt` (`Clocked.step`).
-/

namespace LilyContracts.Payments

open Host

variable {A : Type}

/-! ## Creation times -/

/-- The ledger time never decreases from call to call. -/
def ClockMonotone (txs : List (Tx A)) : Prop :=
  (txs.map (·.env.timestamp)).Pairwise (· ≤ ·)

instance (txs : List (Tx A)) : Decidable (ClockMonotone txs) :=
  inferInstanceAs (Decidable ((txs.map (·.env.timestamp)).Pairwise (· ≤ ·)))

/-- The records are in order of creation time, none of them later than `t`. -/
structure Clocked (t : UInt64) (l : List (PaymentIntent A)) : Prop where
  sorted : (l.map (·.createdAt)).Pairwise (· ≤ ·)
  bounded : ∀ c ∈ l.map (·.createdAt), c ≤ t

theorem Clocked.mono {t t' : UInt64} {l : List (PaymentIntent A)} (h : Clocked t l)
    (ht : t ≤ t') : Clocked t' l :=
  ⟨h.sorted, fun c hc => UInt64.le_trans (h.bounded c hc) ht⟩

theorem Clocked.step {t : UInt64} {l l' : List (PaymentIntent A)} (h : Clocked t l)
    (hstep : LedgerStep t l l') : Clocked t l' := by
  cases hstep with
  | append number pending stamp wellFormed =>
    constructor
    · rw [List.map_append, List.pairwise_append]
      refine ⟨h.sorted, List.pairwise_singleton _ _, ?_⟩
      intro a ha b hb
      obtain rfl := List.mem_singleton.mp hb
      dsimp only
      rw [stamp]
      exact h.bounded a ha
    · intro c hc
      rw [List.map_append] at hc
      rcases List.mem_append.mp hc with hc | hc
      · exact h.bounded c hc
      · obtain rfl := List.mem_singleton.mp hc
        exact stamp ▸ UInt64.le_refl _
  | @finalize j i f entry pending valid =>
    -- finalizing keeps the creation time, so the list of times is the same
    have hlt : j < l.length := (List.getElem?_eq_some_iff.mp entry).1
    have hsame : (l.set j (i.finalize f)).map (·.createdAt) = l.map (·.createdAt) := by
      rw [List.map_set, finalize_createdAt]
      refine List.ext_getElem? fun m => ?_
      by_cases hm : j = m
      · subst hm
        rw [List.getElem?_set_self (by rw [List.length_map]; exact hlt), List.getElem?_map, entry]
        rfl
      · rw [List.getElem?_set_ne hm]
    constructor
    · rw [hsame]
      exact h.sorted
    · rw [hsame]
      exact h.bounded

variable [DecidableEq A] {M : Missing} {pin : A}

/-- Along a run whose clock never goes back, the ledger stays sorted by
creation time. -/
theorem clocked_run (hM : M.ChecksInc) (txs : List (Tx A)) :
    ∀ {s : Store A} {l : List (PaymentIntent A)} {t : UInt64}, Live pin s l → Clocked t l →
      (t :: txs.map (·.env.timestamp)).Pairwise (· ≤ ·) →
      ∃ l' t', Live pin (run (dispatch M) s txs) l' ∧ Clocked t' l' := by
  induction txs with
  | nil =>
    intro s l t h hc _
    exact ⟨l, t, h, hc⟩
  | cons tx txs ih =>
    intro s l t h hc htime
    rw [List.map_cons, List.pairwise_cons] at htime
    have hle : t ≤ tx.env.timestamp := htime.1 _ (List.mem_cons_self ..)
    obtain ⟨l₁, hstep, h₁⟩ := live_after hM h tx
    have hc₁ : Clocked tx.env.timestamp l₁ := by
      cases hstep with
      | refl => exact hc.mono hle
      | single hstep => exact (hc.mono hle).step hstep
    exact ih h₁ hc₁ htime.2

/-- The same from deployment, where the ledger starts out empty. -/
theorem clocked_reachable (hM : M.ChecksInc) (txs : List (Tx A)) (hclock : ClockMonotone txs) :
    run (dispatch M) (deployed pin) txs = deployed pin ∨
    ∃ l t, Live pin (run (dispatch M) (deployed pin) txs) l ∧ Clocked t l := by
  induction txs with
  | nil => exact .inl rfl
  | cons tx txs ih =>
    have htail : ClockMonotone txs := (List.pairwise_cons.mp hclock).2
    rw [run_cons]
    rcases deployed_after M pin tx with heq | hlive
    · rw [heq]
      exact ih htail
    · -- initialized now, with an empty ledger and the clock at this call
      right
      have hnil : Clocked tx.env.timestamp ([] : List (PaymentIntent A)) :=
        ⟨List.Pairwise.nil, fun _ hc => absurd hc List.not_mem_nil⟩
      exact clocked_run hM txs hlive hnil hclock

/-! ## Reading the representation off the storage -/

section Reading

variable {s : Store A} {l : List (PaymentIntent A)}

theorem Represents.present_iff (h : Represents s l) {n : UInt64} (hn : s.nextIntentId = some n)
    (k : UInt64) : (s.intents k).isSome = true ↔ 1 ≤ k ∧ k < n := by
  obtain ⟨m, hm, hlen⟩ := h.counter
  obtain rfl : n = m := by simpa [hn] using hm
  rw [h.lookup k, UInt64.le_iff_toNat_le, UInt64.lt_iff_toNat_lt, UInt64.toNat_one]
  by_cases hk : k.toNat = 0
  · rw [if_pos hk]
    simp [hk]
  · rw [if_neg hk, isSome_getElem?]
    omega

/-- Membership in a log and presence in the map are the same thing. -/
theorem Represents.mem_iff (h : Represents s l) {i : PaymentIntent A} :
    i ∈ l ↔ s.intents i.id = some i := by
  constructor
  · intro hi
    obtain ⟨j, hj⟩ := List.mem_iff_getElem?.mp hi
    have hid : i.id.toNat = j + 1 := h.numbered j i hj
    rw [h.lookup_some]
    refine ⟨by omega, ?_⟩
    rw [hid]
    exact hj
  · exact h.mem

theorem Represents.mem_payerIndex (h : Represents s l) {p : A} {k : UInt64} :
    k ∈ s.payerIndex p ↔ ∃ i, s.intents k = some i ∧ i.payerAgent = p := by
  rw [h.index p, Log.mem_index]
  constructor
  · intro hk
    obtain ⟨i, hi, hp, rfl⟩ := hk
    exact ⟨i, h.mem_iff.mp hi, hp⟩
  · intro hk
    obtain ⟨i, hi, hp⟩ := hk
    exact ⟨i, h.mem hi, hp, h.id_eq hi⟩

theorem Represents.payerIndex_sorted (h : Represents s l) (p : A) :
    (s.payerIndex p).Pairwise (· < ·) := by
  rw [h.index p]
  refine Log.index_pairwise (h.numbered.pairwise.imp ?_)
  intro i i' hlt
  exact UInt64.lt_iff_toNat_lt.mpr hlt

/-- In a clocked ledger, a smaller id was created no later. -/
theorem Represents.createdAt_le (h : Represents s l) {t : UInt64} (hc : Clocked t l)
    {k k' : UInt64} {i i' : PaymentIntent A} (hi : s.intents k = some i)
    (hi' : s.intents k' = some i') (hle : k ≤ k') : i.createdAt ≤ i'.createdAt := by
  obtain ⟨hk, hl⟩ := h.lookup_some.mp hi
  obtain ⟨hk', hl'⟩ := h.lookup_some.mp hi'
  rw [UInt64.le_iff_toNat_le] at hle
  rcases Nat.eq_or_lt_of_le hle with heq | hlt
  · rw [heq] at hl
    rw [hl] at hl'
    obtain rfl : i = i' := by simpa using hl'
    exact UInt64.le_refl _
  · obtain ⟨hb, he⟩ := List.getElem?_eq_some_iff.mp hl
    obtain ⟨hb', he'⟩ := List.getElem?_eq_some_iff.mp hl'
    have hsorted := List.pairwise_iff_getElem.mp (List.pairwise_map.mp hc.sorted)
    have hij := hsorted _ _ hb hb' (by omega)
    rwa [he, he'] at hij

end Reading

/-- **Representation**: in every initialized reachable state the counter, the map by id and the
payer vectors agree: ids are exactly `1 .. n - 1`, each record carries its own
id, and a payer's vector lists its intents, all of them and no others, in
creation order. With a clock that never goes back, creation times follow ids. -/
theorem ledger_representation (hM : M.ChecksInc) (pin : A) (txs : List (Tx A))
    (hinit : (run (dispatch M) (deployed pin) txs).initialized.isSome = true) :
    let s := run (dispatch M) (deployed pin) txs
    ∃ n : UInt64, s.nextIntentId = some n ∧ 1 ≤ n ∧
      (∀ k, (s.intents k).isSome = true ↔ 1 ≤ k ∧ k < n) ∧
      (∀ k i, s.intents k = some i →
        i.id = k ∧ i.payerAgent ≠ i.payeeAgent ∧ i.memo ≠ HostString.empty) ∧
      (∀ p, (s.payerIndex p).Pairwise (· < ·) ∧
        ∀ k, k ∈ s.payerIndex p ↔ k < n ∧ ∃ i, s.intents k = some i ∧ i.payerAgent = p) ∧
      (ClockMonotone txs →
        (∀ k k' i i', s.intents k = some i → s.intents k' = some i' → k ≤ k' →
          i.createdAt ≤ i'.createdAt) ∧
        ∀ p, (s.payerIndex p).Pairwise fun k k' => ∀ i i',
          s.intents k = some i → s.intents k' = some i' → i.createdAt ≤ i'.createdAt) := by
  intro s
  obtain ⟨l, hlive⟩ := reachable_live hM hinit
  have hrep : Represents s l := hlive.ledger
  obtain ⟨n, hn, hlen⟩ := hrep.counter
  have hpresent := hrep.present_iff hn
  refine ⟨n, hn, ?_, hpresent, ?_, ?_, ?_⟩
  · rw [UInt64.le_iff_toNat_le, UInt64.toNat_one]
    omega
  · intro k i hi
    have hwf := hrep.wellFormed i (hrep.mem hi)
    exact ⟨hrep.id_eq hi, hwf.parties_ne, hwf.memo_ne⟩
  · intro p
    refine ⟨hrep.payerIndex_sorted p, fun k => ?_⟩
    rw [hrep.mem_payerIndex]
    constructor
    · intro hk
      obtain ⟨i, hi, hp⟩ := hk
      exact ⟨((hpresent k).mp (by rw [hi]; rfl)).2, i, hi, hp⟩
    · exact fun hk => hk.2
  · intro hclock
    rcases clocked_reachable hM txs hclock with heq | ⟨l', t, hlive', hc⟩
    · rw [heq] at hinit
      cases hinit
    · have hrep' : Represents s l' := hlive'.ledger
      refine ⟨fun k k' i i' hi hi' hle => hrep'.createdAt_le hc hi hi' hle, fun p => ?_⟩
      refine (hrep'.payerIndex_sorted p).imp ?_
      intro k k' hlt i i' hi hi'
      exact hrep'.createdAt_le hc hi hi' (UInt64.le_of_lt hlt)

/-- One intent created and settled: it is the one record there is, and the one entry of
its payer's vector. -/
theorem ledger_representation_sample :
    let s := run (dispatch .documented) (deployed 0)
      [Sample.initializeTx, Sample.createTx, Sample.settleTx]
    (∀ k, (s.intents k).isSome = true ↔ 1 ≤ k ∧ k < 2) ∧
      (∀ k, k ∈ s.payerIndex 1 ↔ k < 2 ∧ ∃ i, s.intents k = some i ∧ i.payerAgent = 1) ∧
      ∀ k k' i i', s.intents k = some i → s.intents k' = some i' → k ≤ k' →
        i.createdAt ≤ i'.createdAt := by
  intro s
  obtain ⟨n, hn, _, hpresent, _, hindex, hclock⟩ :=
    ledger_representation Missing.documented_checksInc 0
      [Sample.initializeTx, Sample.createTx, Sample.settleTx] (by decide +kernel)
  have htwo : s.nextIntentId = some 2 := by decide +kernel
  obtain rfl : n = 2 := Option.some.inj (hn.symm.trans htwo)
  exact ⟨hpresent, (hindex 1).2, (hclock (by decide +kernel)).1⟩

end LilyContracts.Payments
