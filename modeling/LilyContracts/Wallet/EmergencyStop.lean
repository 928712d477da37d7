import LilyContracts.Wallet.Consent

/-!
# What an emergency deactivation holds against

`admin_deactivate` clears the `enabled` flag of a binding and leaves nothing else
behind: the registry has no record that it was the admin who did it, and no lock.
A rebound binding starts enabled, and the state is the agent's to set, so the
agent undoes a deactivation by the admin as it undoes one of its own
(`not_emergencyStop`).

What the deactivation does hold against is everybody else. From a disabled
binding exactly two kinds of step lead out, both signed by the agent
(`disabled_after`); as long as there is none, the binding stays disabled
(`deactivation_holds`), whoever else signs, the admin included.
-/

namespace LilyContracts.Wallet

open Host

variable {A : Type} [DecidableEq A]

/-- The step enables a binding that exists: a successful `set_enabled(agent, true)`
or a successful `rebind_wallet` for `agent`. -/
def Enables (agent : A) (st : Step A) : Prop :=
  action agent st = .state true ∨ ∃ wallet asset limit, action agent st = .rebind wallet asset limit

/-- `agent` has a binding, and it is disabled. -/
def Disabled (agent : A) (s : Store A) : Prop :=
  ∃ b, s.binding agent = some b ∧ b.enabled = false

/-- An emergency stop, as one that only the stored admin can undo: after a
successful `admin_deactivate` the binding stays disabled along every run that the
admin signs no call of. -/
def EmergencyStop (M : Missing) (nextRevision : NextRevision A) (pin : A) : Prop :=
  ∀ (before : List (Tx A)) (tx : Tx A) (later : List (Tx A)) (agent admin : A),
    tx.call = .adminDeactivate agent →
    (stepOf (dispatch M nextRevision) (run (dispatch M nextRevision) (deployed pin) before)
      tx).Succeeded →
    (run (dispatch M nextRevision) (deployed pin) before).admin = some admin →
    Unsigned admin later →
    Disabled agent (run (dispatch M nextRevision) (deployed pin) (before ++ tx :: later))

section Steps

variable {M : Missing} {nextRevision : NextRevision A} {s : Store A} {agent : A}

/-- Writing a binding, `agent`'s or another's, seen from `agent`. -/
theorem disabled_put {a : A} {b : WalletBinding A} :
    Disabled agent (s.put a b) ↔ if a = agent then b.enabled = false else Disabled agent s := by
  unfold Disabled
  by_cases ha : a = agent
  · subst ha
    rw [if_pos rfl, put_binding_self]
    simp
  · rw [if_neg ha, put_binding_of_ne (fun he => ha he.symm)]

/-- **The ways out of a disabled binding**: a step leaves it disabled exactly
when it is not one of the two that enable it. -/
theorem disabled_after (M : Missing) (nextRevision : NextRevision A) (h : Disabled agent s)
    (tx : Tx A) :
    Disabled agent (after (dispatch M nextRevision) s tx) ↔
      ¬ Enables agent (stepOf (dispatch M nextRevision) s tx) := by
  have hdisabled := h
  obtain ⟨b, hb, hdis⟩ := hdisabled
  unfold Enables action
  rcases after_cases M nextRevision s tx with ⟨hfail, heq⟩ | ⟨r, evs, hr, heff⟩
  · rw [heq, if_neg hfail]
    simp [h]
  · rw [if_pos ⟨r, hr⟩, stepOf_tx]
    generalize tx.call = c at heff
    generalize after (dispatch M nextRevision) s tx = s' at heff ⊢
    cases heff with
    | @initializeContract admin =>
      have hsame : Disabled agent (s.configure admin) := h
      simp [Call.action, hsame]
    | @bindWallet a wallet asset limit live hpos hagent hwallet unbound =>
      -- a bound agent does not bind again
      have ha : a ≠ agent := by
        intro he
        rw [he, hb] at unbound
        cases unbound
      rw [disabled_put, if_neg ha]
      simp [Call.action, ha, h]
    | @rebindWallet a wallet asset limit revision =>
      rw [disabled_put]
      by_cases ha : a = agent <;> simp [Call.action, ha, h]
    | @updateSpendLimit a limit b₀ revision live hpos signed stored =>
      rw [disabled_put]
      by_cases ha : a = agent
      · -- the limit is written over a record that keeps its flag
        rw [ha, hb] at stored
        cases stored
        simp [Call.action, ha, hdis]
      · simp [Call.action, ha, h]
    | @setEnabled a enabled b₀ revision =>
      rw [disabled_put]
      by_cases ha : a = agent <;> simp [Call.action, ha, h]
    | @adminDeactivate admin a b₀ =>
      rw [disabled_put]
      by_cases ha : a = agent <;> simp [Call.action, ha, h]
    | view reads => simp [action_of_view reads, h]

/-- Enabling takes the agent's signature, and a rebinding its wallet's too. -/
theorem enables_signed {tx : Tx A} (h : Enables agent (stepOf (dispatch M nextRevision) s tx)) :
    tx.env.signs agent = true ∧ ∀ wallet asset limit,
      tx.call = .rebindWallet agent wallet asset limit → tx.env.signs wallet = true := by
  unfold Enables action at h
  rcases after_cases M nextRevision s tx with ⟨hfail, _⟩ | ⟨r, evs, hr, heff⟩
  · rw [if_neg hfail] at h
    simp at h
  · rw [if_pos ⟨r, hr⟩, stepOf_tx] at h
    generalize tx.call = c at heff h ⊢
    generalize after (dispatch M nextRevision) s tx = s' at heff
    cases heff with
    | @rebindWallet a wallet asset limit revision live hpos hagent hwallet =>
      have ha : a = agent := by
        by_contra hne
        simp [Call.action, hne] at h
      subst ha
      refine ⟨hagent, ?_⟩
      intro w as l hcall
      cases hcall
      exact hwallet
    | @setEnabled a enabled b₀ revision live signed =>
      have ha : a = agent := by
        by_contra hne
        simp [Call.action, hne] at h
      subst ha
      refine ⟨signed, ?_⟩
      intro w as l hcall
      cases hcall
    | initializeContract => simp [Call.action] at h
    | @bindWallet a =>
      by_cases ha : a = agent <;> simp [Call.action, ha] at h
    | @updateSpendLimit a =>
      by_cases ha : a = agent <;> simp [Call.action, ha] at h
    | @adminDeactivate admin a =>
      by_cases ha : a = agent <;> simp [Call.action, ha] at h
    | view reads => simp [action_of_view reads] at h

/-- A successful `admin_deactivate` leaves the binding disabled. -/
theorem disabled_of_deactivate {tx : Tx A} (hcall : tx.call = .adminDeactivate agent)
    (hok : (stepOf (dispatch M nextRevision) s tx).Succeeded) :
    Disabled agent (after (dispatch M nextRevision) s tx) := by
  rcases after_cases M nextRevision s tx with ⟨hfail, _⟩ | ⟨r, evs, _, heff⟩
  · exact absurd hok hfail
  · rw [hcall] at heff
    generalize after (dispatch M nextRevision) s tx = s' at heff ⊢
    cases heff with
    | adminDeactivate => exact ⟨_, put_binding_self, rfl⟩
    | view reads => exact absurd reads id

/-- While no step enables it, a disabled binding stays disabled. -/
theorem disabled_run (txs : List (Tx A)) :
    ∀ {s : Store A}, Disabled agent s →
      (∀ st ∈ trace (dispatch M nextRevision) s txs, ¬ Enables agent st) →
      Disabled agent (run (dispatch M nextRevision) s txs) := by
  induction txs with
  | nil =>
    intro s h _
    exact h
  | cons tx txs ih =>
    intro s h hnone
    rw [trace_cons] at hnone
    refine ih ?_ fun st hst => hnone st (List.mem_cons_of_mem _ hst)
    exact (disabled_after M nextRevision h tx).mpr (hnone _ (List.mem_cons_self ..))

/-- **What a deactivation holds against**: in every reachable state where
`admin_deactivate(agent)` has just succeeded and along every run from there, a
step undoes it exactly when it is a successful `set_enabled(agent, true)` or
`rebind_wallet` for the agent; each of those carries the agent's signature, and a
rebinding the new wallet's too; so without one of them, and in particular without
the agent's signature, the binding stays disabled. -/
theorem deactivation_holds (M : Missing) (nextRevision : NextRevision A) (pin : A)
    (before : List (Tx A)) (tx : Tx A) (agent : A) (hcall : tx.call = .adminDeactivate agent)
    (hok : (stepOf (dispatch M nextRevision) (run (dispatch M nextRevision) (deployed pin) before)
      tx).Succeeded) (later : List (Tx A)) :
    let stopped := run (dispatch M nextRevision) (deployed pin) (before ++ [tx])
    Disabled agent stopped ∧
    ((∀ st ∈ trace (dispatch M nextRevision) stopped later, ¬ Enables agent st) →
      Disabled agent (run (dispatch M nextRevision) stopped later)) ∧
    (Unsigned agent later → Disabled agent (run (dispatch M nextRevision) stopped later)) ∧
    (Disabled agent (run (dispatch M nextRevision) stopped later) → ∀ next : Tx A,
      Disabled agent (run (dispatch M nextRevision) stopped (later ++ [next])) ↔
        ¬ Enables agent (stepOf (dispatch M nextRevision)
          (run (dispatch M nextRevision) stopped later) next)) ∧
    ∀ st ∈ trace (dispatch M nextRevision) stopped later, Enables agent st →
      st.tx.env.signs agent = true ∧ ∀ wallet asset limit,
        st.tx.call = .rebindWallet agent wallet asset limit →
        st.tx.env.signs wallet = true := by
  intro stopped
  have hstopped : Disabled agent stopped := by
    show Disabled agent (run (dispatch M nextRevision) (deployed pin) (before ++ [tx]))
    rw [run_concat]
    exact disabled_of_deactivate hcall hok
  have hsigned : ∀ st ∈ trace (dispatch M nextRevision) stopped later, Enables agent st →
      st.tx.env.signs agent = true ∧ ∀ wallet asset limit,
        st.tx.call = .rebindWallet agent wallet asset limit →
        st.tx.env.signs wallet = true := by
    intro st hst hen
    obtain ⟨l₁, next, l₂, _, rfl⟩ := mem_trace.mp hst
    exact enables_signed hen
  refine ⟨hstopped, disabled_run later hstopped, ?_, ?_, hsigned⟩
  · intro hout
    refine disabled_run later hstopped ?_
    intro st hst hen
    obtain ⟨hagent, _⟩ := hsigned st hst hen
    obtain ⟨l₁, next, l₂, heq, rfl⟩ := mem_trace.mp hst
    have hsilent : next.env.signs agent = false := hout next (by rw [heq]; simp)
    rw [stepOf_tx, hsilent] at hagent
    cases hagent
  · intro h next
    rw [run_concat]
    exact disabled_after M nextRevision h next

end Steps

/-! ## The agent undoes it -/

namespace Sample

/-- The agent enables its binding, with no other signature. -/
def enableTx : Tx Nat := tx [1] (.setEnabled 1 true)

end Sample

/-- A binding the admin has just deactivated. -/
theorem deactivation_holds_sample :
    Disabled 1 (run (dispatch .documented Sample.nextRevision) (deployed 0)
      [Sample.initializeTx, Sample.bindTx, Sample.deactivateTx]) :=
  (deactivation_holds .documented Sample.nextRevision 0 [Sample.initializeTx, Sample.bindTx]
    Sample.deactivateTx 1 rfl ⟨.unit, by decide +kernel⟩ []).1

/-- The agent alone re-enables what the admin deactivated, and so does a
rebinding. -/
theorem not_emergencyStop :
    ¬ EmergencyStop .documented Sample.nextRevision 0 ∧
    (run (dispatch .documented Sample.nextRevision) (deployed 0)
      [Sample.initializeTx, Sample.bindTx, Sample.deactivateTx, Sample.rebindTx]).binding 1 =
        some ⟨6, "USDC", Sample.limit, true, 2⟩ := by
  refine ⟨?_, by decide +kernel⟩
  intro h
  have hout : Unsigned 0 [Sample.enableTx] := by
    intro tx htx
    obtain rfl := List.mem_singleton.mp htx
    rfl
  obtain ⟨b, hb, hdis⟩ := h [Sample.initializeTx, Sample.bindTx] Sample.deactivateTx
    [Sample.enableTx] 1 0 rfl ⟨.unit, by decide +kernel⟩ (by decide +kernel) hout
  have hend : (run (dispatch .documented Sample.nextRevision) (deployed 0)
      ([Sample.initializeTx, Sample.bindTx] ++ Sample.deactivateTx :: [Sample.enableTx])).binding
        1 = some ⟨5, "USDC", Sample.limit, true, 2⟩ := by decide +kernel
  rw [hend] at hb
  cases hb
  cases hdis

end LilyContracts.Wallet
