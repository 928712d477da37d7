import LilyContracts.Payments.Ledger

/-!
# The life of one intent

An intent is created pending and ends at most once, settled or cancelled. That
is a statement about histories: `finalizations k` reads off a trace the
settlements and cancellations of `k` that succeeded, in order, and the record
stored under `k` at the end is determined by that list.

One step either leaves the record alone and finalizes nothing, or finds it
pending and finalizes it once (`intent_after`). Only a pending record can be
finalized and a finalized one is not pending, so over a run the list has at
most one entry (`intent_run`). No step ever removes a record, hence an id whose
record is absent at the end of a run was never finalized along it
(`finalizations_of_absent`): a fresh id has no past.
-/

namespace LilyContracts.Payments

open Host

variable {A : Type}

/-! ## Finalizations along a trace -/

/-- How the call ends intent `k` when it succeeds. -/
def Call.finalizes (k : UInt64) : Call A → Option Finalization
  | .settleIntent _ id ref => if id = k then some (.settled ref) else none
  | .cancelIntent id => if id = k then some .cancelled else none
  | _ => none

theorem finalizes_of_view {k : UInt64} {c : Call A} (reads : c.IsView) : c.finalizes k = none := by
  cases c with
  | settleIntent => exact absurd reads id
  | cancelIntent => exact absurd reads id
  | _ => rfl

/-- How a step ended intent `k`: nothing if its call failed. -/
def finalization (k : UInt64) (st : Step A) : Option Finalization :=
  if st.Succeeded then st.tx.call.finalizes k else none

/-- The settlements and cancellations of `k` that succeeded, oldest first. -/
def finalizations (k : UInt64) (steps : List (Step A)) : List Finalization :=
  steps.filterMap (finalization k)

theorem finalizations_append {k : UInt64} {l₁ l₂ : List (Step A)} :
    finalizations k (l₁ ++ l₂) = finalizations k l₁ ++ finalizations k l₂ :=
  List.filterMap_append

theorem finalizations_cons {k : UInt64} {st : Step A} {l : List (Step A)} :
    finalizations k (st :: l) = (finalization k st).toList ++ finalizations k l := by
  unfold finalizations
  rw [List.filterMap_cons]
  cases finalization k st with
  | none => rfl
  | some f => rfl

theorem finalization_of_failed {k : UInt64} {st : Step A} (h : ¬ st.Succeeded) :
    finalization k st = none :=
  if_neg h

theorem finalization_of_ok {k : UInt64} {st : Step A} {r : Ret A} (h : st.out.result = .ok r) :
    finalization k st = st.tx.call.finalizes k :=
  if_pos ⟨r, h⟩

/-! ## One step -/

/-- Overwriting one record with its finalization, seen from any id. -/
private theorem putIntent_finalize {s : Store A} {id k : UInt64} {i i₀ : PaymentIntent A}
    {f : Finalization} (hk : s.intents k = some i) (stored : s.intents id = some i₀)
    (pending : i₀.status = .pending) (hf : f.Valid) :
    (id ≠ k ∧ (s.putIntent id (i₀.finalize f)).intents k = some i) ∨
    (id = k ∧ i.status = .pending ∧ f.Valid ∧
      (s.putIntent id (i₀.finalize f)).intents k = some (i.finalize f)) := by
  by_cases hid : id = k
  · right
    subst hid
    obtain rfl : i = i₀ := by simpa [hk] using stored
    refine ⟨rfl, pending, hf, ?_⟩
    show Function.update s.intents id _ id = _
    rw [Function.update_self]
  · left
    refine ⟨hid, ?_⟩
    show Function.update s.intents id _ k = _
    rw [Function.update_of_ne (fun he => hid he.symm), hk]

section Steps

variable [DecidableEq A] {M : Missing} {pin : A} {s : Store A} {k : UInt64} {i : PaymentIntent A}

/-- A step leaves a stored record alone, or finds it pending and finalizes it. -/
theorem intent_after (h : Reached pin s) (hk : s.intents k = some i) (tx : Tx A) :
    (finalization k (stepOf (dispatch M) s tx) = none ∧
      (after (dispatch M) s tx).intents k = some i) ∨
    ∃ f : Finalization, f.Valid ∧ i.status = .pending ∧
      finalization k (stepOf (dispatch M) s tx) = some f ∧
      (after (dispatch M) s tx).intents k = some (i.finalize f) := by
  rcases after_cases M s tx with ⟨hfail, heq⟩ | ⟨r, evs, hr, heff⟩
  · left
    rw [heq]
    exact ⟨finalization_of_failed hfail, hk⟩
  · rw [finalization_of_ok hr, stepOf_tx]
    generalize tx.call = c at heff
    generalize after (dispatch M) s tx = s' at heff ⊢
    cases heff with
    | @createIntent payer payee wallet amount memo id next live _ _ _ _ _ _ counter =>
      -- the new record goes under a fresh id, which `k` is not
      have hne : k ≠ id := by
        intro he
        rw [he, h.counter_fresh counter] at hk
        cases hk
      refine .inl ⟨rfl, ?_⟩
      show Function.update s.intents id _ k = _
      rw [Function.update_of_ne hne, hk]
    -- the two finalizations, of `k` itself or of another intent
    | @settleIntent caller id ref i₀ live isAdmin signed ref_ne stored pending =>
      have hf : (Finalization.settled ref).Valid := fun he => ref_ne (by injection he)
      rcases putIntent_finalize hk stored pending hf with ⟨hid, hsame⟩ | ⟨hid, hp, hv, hnew⟩
      · exact .inl ⟨if_neg hid, hsame⟩
      · exact .inr ⟨_, hv, hp, if_pos hid, hnew⟩
    | @cancelIntent id i₀ live stored signed pending =>
      have hf : Finalization.cancelled.Valid := nofun
      rcases putIntent_finalize hk stored pending hf with ⟨hid, hsame⟩ | ⟨hid, hp, hv, hnew⟩
      · exact .inl ⟨if_neg hid, hsame⟩
      · exact .inr ⟨_, hv, hp, if_pos hid, hnew⟩
    | view reads => exact .inl ⟨finalizes_of_view reads, hk⟩
    | _ => exact .inl ⟨rfl, hk⟩

/-- Only a stored record is finalized. -/
theorem stored_of_finalization {tx : Tx A} {f : Finalization}
    (hf : finalization k (stepOf (dispatch M) s tx) = some f) : ∃ i, s.intents k = some i := by
  rcases after_cases M s tx with ⟨hfail, _⟩ | ⟨r, evs, hr, heff⟩
  · rw [finalization_of_failed hfail] at hf
    cases hf
  · rw [finalization_of_ok hr, stepOf_tx] at hf
    generalize tx.call = c at heff hf
    generalize after (dispatch M) s tx = s' at heff
    cases heff with
    | @settleIntent caller id ref i live isAdmin signed ref_ne stored pending =>
      by_cases hid : id = k
      · exact ⟨i, hid ▸ stored⟩
      · rw [Call.finalizes, if_neg hid] at hf
        cases hf
    | @cancelIntent id i live stored signed pending =>
      by_cases hid : id = k
      · exact ⟨i, hid ▸ stored⟩
      · rw [Call.finalizes, if_neg hid] at hf
        cases hf
    | view reads =>
      rw [finalizes_of_view reads] at hf
      cases hf
    | _ => cases hf

/-! ## A whole run -/

/-- Over a run a stored record is left alone, or found pending and finalized
exactly once. -/
theorem intent_run (hM : M.ChecksInc) (txs : List (Tx A)) :
    ∀ {s : Store A} {i : PaymentIntent A}, Reached pin s → s.intents k = some i →
      (finalizations k (trace (dispatch M) s txs) = [] ∧
        (run (dispatch M) s txs).intents k = some i) ∨
      ∃ f : Finalization, f.Valid ∧ i.status = .pending ∧
        finalizations k (trace (dispatch M) s txs) = [f] ∧
        (run (dispatch M) s txs).intents k = some (i.finalize f) := by
  induction txs with
  | nil =>
    intro s i _ hk
    exact .inl ⟨rfl, hk⟩
  | cons tx txs ih =>
    intro s i h hk
    have h' := reached_after hM h tx
    rw [trace_cons, finalizations_cons, run_cons]
    rcases intent_after (M := M) h hk tx with ⟨hnone, hk'⟩ | ⟨f, hf, hp, hsome, hk'⟩
    · rw [hnone]
      exact ih h' hk'
    · right
      rw [hsome]
      rcases ih h' hk' with ⟨hnil, hend⟩ | ⟨_, _, hp', _, _⟩
      · rw [hnil]
        exact ⟨f, hf, hp, rfl, hend⟩
      · -- a second finalization would have found it pending
        exact absurd hp' finalize_not_pending

/-- A record that is absent at the end of a run was never finalized along it. -/
theorem finalizations_of_absent (hM : M.ChecksInc) (txs : List (Tx A)) :
    ∀ {s : Store A}, Reached pin s → (run (dispatch M) s txs).intents k = none →
      finalizations k (trace (dispatch M) s txs) = [] := by
  induction txs with
  | nil =>
    intro s _ _
    rfl
  | cons tx txs ih =>
    intro s h hend
    rw [trace_cons, finalizations_cons, ih (reached_after hM h tx) hend, List.append_nil]
    cases hf : finalization k (stepOf (dispatch M) s tx) with
    | none => rfl
    | some f =>
      -- what is finalized is stored, and what is stored stays
      obtain ⟨i, hk⟩ := stored_of_finalization hf
      rcases intent_run hM (tx :: txs) h hk with ⟨_, hsome⟩ | ⟨_, _, _, _, hsome⟩
      · rw [hend] at hsome
        cases hsome
      · rw [hend] at hsome
        cases hsome

/-- What a successful `create_intent` stores. -/
theorem createIntent_stores {tx : Tx A} {payer payee : A} {amount : I128} {memo : HostString}
    (hcall : tx.call = .createIntent payer payee amount memo)
    (hret : (stepOf (dispatch M) s tx).out.result = .ok (.u64 k)) :
    s.nextIntentId = some k ∧ (after (dispatch M) s tx).intents k =
      some (.fresh k payer payee amount memo tx.env.timestamp) := by
  rcases after_cases M s tx with ⟨hfail, _⟩ | ⟨r, evs, hr, heff⟩
  · exact absurd ⟨_, hret⟩ hfail
  · rw [hret] at hr
    cases hr
    rw [hcall] at heff
    generalize after (dispatch M) s tx = s' at heff ⊢
    cases heff with
    | createIntent _ _ _ _ _ _ _ counter =>
      refine ⟨counter, ?_⟩
      show Function.update s.intents k _ k = _
      rw [Function.update_self]
    | view reads => exact absurd reads id

/-- **The life of an intent**: after the `create_intent` that returned `k`, at
every later moment of every run, its record is stored under `k` with the fields
it was created with; its status and reference are pending and empty while no
settlement or cancellation of `k` succeeded anywhere in the run, and otherwise
what the single one that did says; and once not pending, nothing changes it. -/
theorem intent_lifecycle (hM : M.ChecksInc) (pin : A) (before : List (Tx A)) (tx : Tx A)
    {payer payee : A} {amount : I128} {memo : HostString}
    (hcall : tx.call = .createIntent payer payee amount memo)
    (hret : (stepOf (dispatch M) (run (dispatch M) (deployed pin) before) tx).out.result =
      .ok (.u64 k)) (later : List (Tx A)) :
    let now := run (dispatch M) (deployed pin) (before ++ tx :: later)
    let ended := finalizations k (trace (dispatch M) (deployed pin) (before ++ tx :: later))
    ∃ i, now.intents k = some i ∧
      (i.id = k ∧ i.payerAgent = payer ∧ i.payeeAgent = payee ∧ i.amount = amount ∧
        i.memo = memo ∧ i.createdAt = tx.env.timestamp) ∧
      (ended = [] ∧ i.status = .pending ∧ i.settlementReference = HostString.empty ∨
        (∃ ref, ref ≠ HostString.empty ∧ ended = [.settled ref] ∧ i.status = .settled ∧
          i.settlementReference = ref) ∨
        ended = [.cancelled] ∧ i.status = .cancelled ∧
          i.settlementReference = HostString.empty) ∧
      (i.status ≠ .pending → ∀ more : List (Tx A),
        (run (dispatch M) now more).intents k = some i ∧
        finalizations k (trace (dispatch M) now more) = []) := by
  intro now ended
  have hreach := reachable hM pin before
  obtain ⟨hcounter, hnew⟩ := createIntent_stores hcall hret
  -- nothing happened to `k` before its creation, nor at it
  have hbefore : finalizations k (trace (dispatch M) (deployed pin) before) = [] :=
    finalizations_of_absent hM before (.inl rfl) (hreach.counter_fresh hcounter)
  have hat : finalization k (stepOf (dispatch M) (run (dispatch M) (deployed pin) before) tx)
      = none := by
    rw [finalization_of_ok hret, stepOf_tx, hcall]
    rfl
  have hended : ended = finalizations k (trace (dispatch M)
      (after (dispatch M) (run (dispatch M) (deployed pin) before) tx) later) := by
    show finalizations k (trace (dispatch M) (deployed pin) (before ++ tx :: later)) = _
    rw [trace_append, finalizations_append, hbefore, trace_cons, finalizations_cons, hat]
    rfl
  have hnow : now = run (dispatch M)
      (after (dispatch M) (run (dispatch M) (deployed pin) before) tx) later := by
    show run (dispatch M) (deployed pin) (before ++ tx :: later) = _
    rw [run_append, run_cons]
  have hfrozen : ∀ i : PaymentIntent A, now.intents k = some i → i.status ≠ .pending →
      ∀ more : List (Tx A), (run (dispatch M) now more).intents k = some i ∧
        finalizations k (trace (dispatch M) now more) = [] := by
    intro i hi hne more
    rcases intent_run hM more (reachable hM pin _) hi with ⟨hnil, hsame⟩ | ⟨_, _, hp, _⟩
    · exact ⟨hsame, hnil⟩
    · exact absurd hp hne
  rcases intent_run hM later (reached_after hM hreach tx) hnew with ⟨hnil, hend⟩ |
    ⟨f, hf, _, hone, hend⟩
  · rw [← hnow] at hend
    exact ⟨_, hend, ⟨rfl, rfl, rfl, rfl, rfl, rfl⟩, .inl ⟨hended.trans hnil, rfl, rfl⟩,
      hfrozen _ hend⟩
  · rw [← hnow] at hend
    refine ⟨_, hend, ?_, .inr ?_, hfrozen _ hend⟩
    · cases f with
      | settled ref => exact ⟨rfl, rfl, rfl, rfl, rfl, rfl⟩
      | cancelled => exact ⟨rfl, rfl, rfl, rfl, rfl, rfl⟩
    · cases f with
      | settled ref =>
        have hne : ref ≠ HostString.empty := by
          intro he
          subst he
          exact hf rfl
        exact .inl ⟨ref, hne, hended.trans hone, rfl, rfl⟩
      | cancelled => exact .inr ⟨hended.trans hone, rfl, rfl⟩

end Steps

/-- An intent that is settled one call after its creation: that one settlement is its
whole history, and no later run adds to it or changes the record. -/
theorem intent_lifecycle_sample :
    let now := run (dispatch .documented) (deployed 0)
      [Sample.initializeTx, Sample.createTx, Sample.settleTx]
    ∃ i, now.intents 1 = some i ∧ i.payerAgent = 1 ∧ i.payeeAgent = 2 ∧ i.createdAt = 11 ∧
      finalizations 1 (trace (dispatch .documented) (deployed 0)
        [Sample.initializeTx, Sample.createTx, Sample.settleTx]) = [.settled Sample.memo] ∧
      i.status = .settled ∧ i.settlementReference = Sample.memo ∧
      ∀ more : List (Tx Nat), (run (dispatch .documented) now more).intents 1 = some i ∧
        finalizations 1 (trace (dispatch .documented) now more) = [] := by
  intro now
  obtain ⟨i, hi, ⟨_, hpayer, hpayee, _, _, hcreated⟩, hended, hfrozen⟩ :=
    intent_lifecycle (k := 1) Missing.documented_checksInc 0 [Sample.initializeTx] Sample.createTx
      rfl (by decide +kernel) [Sample.settleTx]
  have hone : finalizations 1 (trace (dispatch .documented) (deployed 0)
      [Sample.initializeTx, Sample.createTx, Sample.settleTx]) = [.settled Sample.memo] := by
    decide +kernel
  rw [List.singleton_append, hone] at hended
  rcases hended with ⟨hnone, _⟩ | ⟨ref, _, hsome, hstatus, href⟩ | ⟨hcancel, _⟩
  · cases hnone
  · cases hsome
    refine ⟨i, hi, hpayer, hpayee, hcreated, hone, hstatus, href, hfrozen ?_⟩
    rw [hstatus]
    nofun
  · cases hcancel

end LilyContracts.Payments
