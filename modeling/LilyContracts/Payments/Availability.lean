import LilyContracts.Payments.Effects

/-!
# A pending intent can always be finalized

A guard flag left behind would freeze every later settlement or cancellation.
Between top-level calls none is ever set: a call that returns has dropped its
guard, and one that fails is rolled back with it, although Rust never runs its
`Drop`. Together with the keys that `initialize` writes and nothing removes, that
is what an initialized contract always looks like (`Configured`); it owes nothing
to the ledger the contract keeps.

With the flags out of the way only the guards of the two entry points are left,
and of those a configured contract passes every one but the signature and, for
`settle_intent`, the reference: `never_locked`.
-/

namespace LilyContracts.Payments

open Host

variable {A : Type}

/-! ## What initialization leaves, for good -/

/-- An initialized contract between top-level calls: every instance key is
present, and no guard flag is set. -/
structure Configured (s : Store A) : Prop where
  initialized : s.initialized.isSome = true
  pinned : ∃ a, s.pinnedAdmin = some a
  admin : ∃ a, s.admin = some a
  treasury : ∃ a, s.treasury = some a
  feeBps : ∃ f, s.feeBps = some f
  nextIntentId : ∃ n, s.nextIntentId = some n
  wallet : ∃ a, s.wallet = some a
  unlocked : ∀ key, s.symbols key = none

section Configured

variable [DecidableEq A] {M : Missing} {s : Store A}

/-- No transaction takes a key away or leaves a flag behind. -/
theorem configured_after (M : Missing) (h : Configured s) (tx : Tx A) :
    Configured (after (dispatch M) s tx) := by
  rcases after_cases M s tx with ⟨_, heq⟩ | ⟨r, evs, _, heff⟩
  · rw [heq]
    exact h
  · generalize tx.call = c at heff
    generalize after (dispatch M) s tx = s' at heff ⊢
    cases heff with
    | initializeContract =>
      exact ⟨rfl, h.pinned, ⟨_, rfl⟩, ⟨_, rfl⟩, ⟨_, rfl⟩, ⟨_, rfl⟩, ⟨_, rfl⟩, h.unlocked⟩
    | createIntent =>
      exact ⟨h.initialized, h.pinned, h.admin, h.treasury, h.feeBps, ⟨_, rfl⟩, h.wallet,
        h.unlocked⟩
    | settleIntent =>
      exact ⟨h.initialized, h.pinned, h.admin, h.treasury, h.feeBps, h.nextIntentId, h.wallet,
        h.unlocked⟩
    | cancelIntent =>
      exact ⟨h.initialized, h.pinned, h.admin, h.treasury, h.feeBps, h.nextIntentId, h.wallet,
        h.unlocked⟩
    | setFeeBps =>
      exact ⟨h.initialized, h.pinned, h.admin, h.treasury, ⟨_, rfl⟩, h.nextIntentId, h.wallet,
        h.unlocked⟩
    | setTreasury =>
      exact ⟨h.initialized, h.pinned, h.admin, ⟨_, rfl⟩, h.feeBps, h.nextIntentId, h.wallet,
        h.unlocked⟩
    | transferAdmin =>
      exact ⟨h.initialized, h.pinned, ⟨_, rfl⟩, h.treasury, h.feeBps, h.nextIntentId, h.wallet,
        h.unlocked⟩
    | view reads => exact h

/-- On a contract that holds nothing but the pin, only `initialize` does
anything, and it leaves every key behind. -/
theorem configured_of_deployed (M : Missing) (pin : A) (tx : Tx A) :
    after (dispatch M) (deployed pin) tx = deployed pin ∨
      Configured (after (dispatch M) (deployed pin) tx) := by
  rcases after_cases M (deployed pin) tx with ⟨_, heq⟩ | ⟨r, evs, _, heff⟩
  · exact .inl heq
  · generalize tx.call = c at heff
    generalize after (dispatch M) (deployed pin) tx = s' at heff ⊢
    cases heff with
    | initializeContract =>
      exact .inr ⟨rfl, ⟨_, rfl⟩, ⟨_, rfl⟩, ⟨_, rfl⟩, ⟨_, rfl⟩, ⟨_, rfl⟩, ⟨_, rfl⟩, fun _ => rfl⟩
    | view reads => exact .inl rfl
    -- every other call demands the initialization flag
    | createIntent live => cases live
    | settleIntent live => cases live
    | cancelIntent live => cases live
    | setFeeBps live => cases live
    | setTreasury live => cases live
    | transferAdmin live => cases live

/-- A run either left the pin alone or has configured the contract. -/
theorem deployed_or_configured (M : Missing) (pin : A) (txs : List (Tx A)) :
    run (dispatch M) (deployed pin) txs = deployed pin ∨
      Configured (run (dispatch M) (deployed pin) txs) := by
  refine run_invariant (I := fun s => s = deployed pin ∨ Configured s) ?_ (.inl rfl)
  intro s tx h
  rcases h with rfl | h
  · exact configured_of_deployed M pin tx
  · exact .inr (configured_after M h tx)

theorem configured_run (M : Missing) {pin : A} {txs : List (Tx A)}
    (hinit : (run (dispatch M) (deployed pin) txs).initialized.isSome = true) :
    Configured (run (dispatch M) (deployed pin) txs) := by
  rcases deployed_or_configured M pin txs with heq | h
  · rw [heq] at hinit
    cases hinit
  · exact h

end Configured

/-! ## The two finalizations -/

/-- The calls that finalize an intent. -/
def Call.IsFinalization : Call A → Prop
  | .settleIntent .. | .cancelIntent _ => True
  | _ => False

section Finalize

variable [DecidableEq A] {M : Missing} {s : Store A} {k : UInt64} {i : PaymentIntent A}

/-- No finalization fails on its guard. -/
theorem not_reentrant (h : Configured s) (hM : M.ReadsInstance) (tx : Tx A)
    (hc : tx.call.IsFinalization) :
    (stepOf (dispatch M) s tx).out.result ≠ .error (.contract .reentrantCall) := by
  obtain ⟨a, ha⟩ := h.admin
  have hunlocked : ∀ key, ¬ s.symbols key ≠ none := fun key hne => hne (h.unlocked key)
  have hfaults : FaultsIn tx.env (· ≠ .contract .reentrantCall) (dispatch M tx.call) ⟨s, []⟩ := by
    cases hcall : tx.call with
    | settleIntent caller id ref =>
      refine faultsIn_map.mpr ?_
      simp only [settleIntent, ensureInitialized, getAdmin, getIntentInternal, bind_assoc,
        faultsIn_get_bind, faultsIn_require_bind, faultsIn_lift_bind, faultsIn_requireCaller_bind,
        faultsIn_requireAuthOrError_bind, NonReentrantGuard.faultsIn_acquire_bind,
        faultsIn_requireNonEmpty_bind, faultsIn_unwrapOrPanic_bind, faultsIn_modify_bind,
        faultsIn_bumpInstance_bind, faultsIn_publish_bind, NonReentrantGuard.faultsIn_drop,
        entries_eq]
      simp [ha, hM.present, hunlocked]
    | cancelIntent id =>
      refine faultsIn_map.mpr ?_
      simp only [cancelIntent, ensureInitialized, getIntentInternal, bind_assoc,
        faultsIn_get_bind, faultsIn_require_bind, faultsIn_requireAuth_bind,
        NonReentrantGuard.faultsIn_acquire_bind, faultsIn_unwrapOrPanic_bind,
        faultsIn_modify_bind, faultsIn_bumpInstance_bind, faultsIn_publish_bind,
        NonReentrantGuard.faultsIn_drop, entries_eq]
      simp [hunlocked]
    | _ =>
      rw [hcall] at hc
      exact absurd hc id
  intro hf
  exact hfaults.result hf rfl

/-- The payer can cancel a pending intent, and that is all it changes. -/
theorem cancelIntent_lands (h : Configured s) {env : Env A (Query A) ProtocolError}
    (hsigned : env.signs i.payerAgent = true) (hstored : s.intents k = some i)
    (hpending : i.status = .pending) :
    (stepOf (dispatch M) s ⟨env, .cancelIntent k⟩).out.result = .ok .unit ∧
      after (dispatch M) s ⟨env, .cancelIntent k⟩ = s.putIntent k i.cancel := by
  have hexec : exec env (cancelIntent k) ⟨s, []⟩ = .ok ((), _) :=
    exec_cancelIntent_ok.mpr
      ⟨h.initialized, i, hstored, hsigned, h.unlocked _, hpending, rfl⟩
  exact lands_of_exec_ok (exec_map_ok.mpr ⟨(), hexec, rfl⟩)

/-- The stored admin can settle a pending intent with any reference. -/
theorem settleIntent_lands (hM : M.ReadsInstance) (h : Configured s) {admin : A}
    {ref : HostString} {env : Env A (Query A) ProtocolError} (hadmin : s.admin = some admin)
    (hsigned : env.signs admin = true) (href : ref ≠ HostString.empty)
    (hstored : s.intents k = some i) (hpending : i.status = .pending) :
    (stepOf (dispatch M) s ⟨env, .settleIntent admin k ref⟩).out.result = .ok .unit ∧
      after (dispatch M) s ⟨env, .settleIntent admin k ref⟩ = s.putIntent k (i.settle ref) := by
  have hexec : exec env (settleIntent M admin k ref) ⟨s, []⟩ = .ok ((), _) :=
    exec_settleIntent_ok.mpr ⟨h.initialized, hM.ok_iff.mpr hadmin, hsigned, h.unlocked _, href,
      i, hstored, hpending, rfl⟩
  exact lands_of_exec_ok (exec_map_ok.mpr ⟨(), hexec, rfl⟩)

/-- **No pending intent is ever locked**: in every reachable initialized state
neither guard flag is set and no finalization fails on its guard; an admin is
stored, and every pending intent can be cancelled by its payer and settled by
that admin, which stores it as cancelled, or as settled with the reference, and
changes nothing else. -/
theorem never_locked (hM : M.ReadsInstance) (pin : A) (txs : List (Tx A))
    (hinit : (run (dispatch M) (deployed pin) txs).initialized.isSome = true) :
    let s := run (dispatch M) (deployed pin) txs
    (s.symbols "settle" = none ∧ s.symbols "cancel" = none) ∧
    (∀ tx, tx.call.IsFinalization →
      (stepOf (dispatch M) s tx).out.result ≠ .error (.contract .reentrantCall)) ∧
    (∃ admin, s.admin = some admin) ∧
    ∀ k i, s.intents k = some i → i.status = .pending →
      (∀ env, env.signs i.payerAgent = true →
        (stepOf (dispatch M) s ⟨env, .cancelIntent k⟩).Succeeded ∧
          after (dispatch M) s ⟨env, .cancelIntent k⟩ = s.putIntent k i.cancel) ∧
      ∀ env admin ref, s.admin = some admin → env.signs admin = true →
        ref ≠ HostString.empty →
        (stepOf (dispatch M) s ⟨env, .settleIntent admin k ref⟩).Succeeded ∧
          after (dispatch M) s ⟨env, .settleIntent admin k ref⟩ =
            s.putIntent k (i.settle ref) := by
  intro s
  have h : Configured s := configured_run M hinit
  refine ⟨⟨h.unlocked _, h.unlocked _⟩, ?_, h.admin, ?_⟩
  · intro tx hc
    exact not_reentrant h hM tx hc
  · intro k i hk hp
    refine ⟨?_, ?_⟩
    · intro env hs
      obtain ⟨hok, hafter⟩ := cancelIntent_lands (M := M) h hs hk hp
      exact ⟨⟨_, hok⟩, hafter⟩
    · intro env admin ref ha hs hr
      obtain ⟨hok, hafter⟩ := settleIntent_lands hM h ha hs hr hk hp
      exact ⟨⟨_, hok⟩, hafter⟩

end Finalize

/-- After a failed settlement, whose guard was never dropped, intent 1 can still
be settled by the admin and cancelled by its payer. -/
theorem never_locked_sample :
    let s := run (dispatch .documented) (deployed 0) [Sample.initializeTx, Sample.createTx,
      Sample.tx [0] 12 (.settleIntent 0 1 HostString.empty)]
    let i : PaymentIntent Nat := .fresh 1 1 2 Sample.amount Sample.memo 11
    ((stepOf (dispatch .documented) s Sample.settleTx).Succeeded ∧
      after (dispatch .documented) s Sample.settleTx = s.putIntent 1 (i.settle Sample.memo)) ∧
    (stepOf (dispatch .documented) s (Sample.tx [1] 13 (.cancelIntent 1))).Succeeded ∧
      after (dispatch .documented) s (Sample.tx [1] 13 (.cancelIntent 1)) =
        s.putIntent 1 i.cancel := by
  have h := never_locked Missing.documented_readsInstance 0
    [Sample.initializeTx, Sample.createTx, Sample.tx [0] 12 (.settleIntent 0 1 HostString.empty)]
    (by decide +kernel)
  have hpending := h.2.2.2 1 (.fresh 1 1 2 Sample.amount Sample.memo 11) (by decide +kernel) rfl
  exact ⟨hpending.2 Sample.settleTx.env 0 Sample.memo (by decide +kernel) (by decide +kernel)
    (by decide), hpending.1 (Sample.tx [1] 13 (.cancelIntent 1)).env (by decide +kernel)⟩

end LilyContracts.Payments
