import LilyContracts.Suite
import LilyContracts.Host.Erasure

/-!
# What a spending policy is good for

A binding records a settlement asset and a spend limit. `docs/AUTH.md` says that spend
limits protect the agent's budget; but the only thing that payments asks of the wallet
is whether the payer has an active binding, and the wallet itself checks of a limit
that it is positive and no more. So asset and limit are data for readers off the chain.

`Call.erase` strips both from every call, leaving of a limit whether it is positive, and
the four contracts still do the same (`erases`). Hence `policies_inert`: two runs that
differ only in the assets and limits that are asked for agree in every call that is
accepted or refused, in every error, in what payments, identity and protocol store, and
in everything in the bindings but these two values. No payment is refused for a limit.

Two names are left undefined by the source. What `rebind_wallet` stores as
`next_revision` is here any function of the old binding that does not depend on the two
values; `has_active_binding`, which is passed an agent and no amount, is read as in
`System.lean`.
-/

namespace LilyContracts

open Host

/-! ## The wallet without assets and limits -/

namespace Wallet

variable {A : Type}

/-- All that is left of a limit: whether it is positive. -/
def eraseLimit (limit : I128) : I128 :=
  if 0 < limit.val then ⟨1, by decide, by decide⟩ else ⟨0, by decide, by decide⟩

theorem eraseLimit_pos {limit : I128} : 0 < (eraseLimit limit).val ↔ 0 < limit.val := by
  unfold eraseLimit
  split
  next h => exact ⟨fun _ => h, fun _ => Int.one_pos⟩
  next h => exact ⟨fun hpos => absurd hpos (by decide), fun hpos => absurd hpos h⟩

def WalletBinding.erase (b : WalletBinding A) : WalletBinding A :=
  { b with settlementAsset := "", spendLimit := eraseLimit b.spendLimit }

def Store.erase (s : Store A) : Store A :=
  { s with binding := fun a => (s.binding a).map (·.erase) }

def Call.erase : Call A → Call A
  | .bindWallet agent wallet _ limit => .bindWallet agent wallet "" (eraseLimit limit)
  | .rebindWallet agent wallet _ limit => .rebindWallet agent wallet "" (eraseLimit limit)
  | .updateSpendLimit agent limit => .updateSpendLimit agent (eraseLimit limit)
  | c => c

def Ret.erase : Ret A → Ret A
  | .binding b => .binding b.erase
  | .bindingOpt b => .bindingOpt (b.map (·.erase))
  | r => r

variable [DecidableEq A]

theorem erase_put {s : Store A} {agent : A} (b : WalletBinding A) :
    s.erase.put agent b.erase = (s.put agent b).erase := by
  unfold Store.erase Store.put
  congr 1
  funext a
  show Function.update (fun a => (s.binding a).map (·.erase)) agent (some b.erase) a =
    (Function.update s.binding agent (some b) a).map (·.erase)
  by_cases ha : a = agent
  · rw [ha, Function.update_self, Function.update_self]
    rfl
  · rw [Function.update_of_ne ha, Function.update_of_ne ha]

/-- The wallet looks at a limit to see whether it is positive, and at an asset never. -/
theorem erases {M : Missing} {nextRevision : NextRevision A}
    (hN : ∀ o, nextRevision (Option.map WalletBinding.erase o) = nextRevision o) :
    Erases (X := Empty) (dispatch M nextRevision) Store.erase Call.erase Ret.erase := by
  intro env s c
  refine erasedStep_of_exec rfl ?_
  have hsome : ∀ agent, (s.erase.binding agent).isSome = (s.binding agent).isSome :=
    fun agent => Option.isSome_map
  cases c with
  | initializeContract admin =>
    simp only [Call.erase, dispatch, initializeContract, bind_assoc, exec_requireAuth_bind,
      exec_get_bind, exec_require_bind, exec_requireAuthOrError_bind, exec_modify_bind,
      exec_bumpInstance_bind, exec_publish_bind, exec_pure]
    exact .guard .rfl fun _ => .guard .rfl fun _ => .guard .rfl fun _ => .ok rfl rfl
  | isInitialized => exact .ok rfl rfl
  | bindWallet agent wallet asset limit =>
    simp only [Call.erase, dispatch, bindWallet, bind_assoc, exec_ensureInitialized_bind,
      exec_require_bind, exec_requireAuthOrError_bind, exec_get_bind, exec_setBinding_bind,
      exec_bumpInstance_bind, exec_publish_bind, exec_pure, hsome]
    refine .guard .rfl fun _ => .guard eraseLimit_pos fun _ => .guard .rfl fun _ => ?_
    refine .guard .rfl fun _ => .guard .rfl fun _ => .ok rfl ?_
    exact erase_put ⟨wallet, asset, limit, true, 0⟩
  | rebindWallet agent wallet asset limit =>
    simp only [Call.erase, dispatch, rebindWallet, bind_assoc, exec_ensureInitialized_bind,
      exec_require_bind, exec_requireAuth_bind, exec_get_bind, exec_lift_bind,
      exec_setBinding_bind, exec_bumpInstance_bind, exec_publish_bind, exec_pure, hsome]
    refine .guard .rfl fun _ => .guard eraseLimit_pos fun _ => .guard .rfl fun _ => ?_
    refine .guard .rfl fun _ => .guard .rfl fun _ => ?_
    rw [show s.erase.binding agent = (s.binding agent).map (·.erase) from rfl, hN]
    exact .bind fun revision => .ok rfl (erase_put ⟨wallet, asset, limit, true, revision⟩)
  | updateSpendLimit agent limit =>
    simp only [Call.erase, dispatch, updateSpendLimit, bind_assoc, exec_ensureInitialized_bind,
      exec_require_bind, exec_requireAuthOrError_bind, exec_getBindingInternal_bind,
      exec_lift_bind, exec_setBinding_bind, exec_bumpInstance_bind, exec_publish_bind, exec_pure]
    refine .guard .rfl fun _ => .guard eraseLimit_pos fun _ => .guard .rfl fun _ => ?_
    exact .elim fun b => .bind fun _ => .bind fun revision =>
      .ok rfl (erase_put { b with spendLimit := limit, revision })
  | setEnabled agent enabled =>
    simp only [Call.erase, dispatch, setEnabled, bind_assoc, exec_ensureInitialized_bind,
      exec_requireAuthOrError_bind, exec_getBindingInternal_bind, exec_lift_bind,
      exec_setBinding_bind, exec_bumpInstance_bind, exec_publish_bind, exec_pure]
    refine .guard .rfl fun _ => .guard .rfl fun _ => .elim fun b => .bind fun revision => ?_
    exact .ok rfl (erase_put { b with enabled, revision })
  | adminDeactivate agent =>
    simp only [Call.erase, dispatch, adminDeactivate, bind_assoc, exec_ensureInitialized_bind,
      exec_getAdmin_bind, exec_requireAuth_bind, exec_getBindingInternal_bind, exec_lift_bind,
      exec_setBinding_bind, exec_bumpInstance_bind, exec_publish_bind, exec_pure]
    rw [show s.erase.admin = s.admin from rfl]
    refine .guard .rfl fun _ => ?_
    cases s.admin with
    | none => exact .error _
    | some admin =>
      refine .guard .rfl fun _ => .elim fun b => ?_
      exact .bind fun revision => .ok rfl (erase_put { b with enabled := false, revision })
  | getBinding agent =>
    simp only [Call.erase, dispatch, getBinding, bind_assoc, exec_ensureInitialized_bind,
      exec_bumpInstance_bind, exec_getBindingInternal_bind, exec_pure]
    exact .guard .rfl fun _ => .elim fun b => .ok rfl rfl
  | getBindingOpt agent =>
    simp only [Call.erase, dispatch, getBindingOpt, bind_assoc, exec_ensureInitialized_bind,
      exec_bumpInstance_bind, exec_get_bind, exec_pure]
    exact .guard .rfl fun _ => .ok rfl rfl

end Wallet

/-! ## Payments and wallet without them -/

namespace System

variable {A : Type}

/-- The bindings without their assets and limits; what payments stores stays. -/
def State.erase (s : State A) : State A :=
  { s with wallet := s.wallet.erase }

def Call.erase : Call A → Call A
  | .payments c => .payments c
  | .wallet c => .wallet c.erase

def Ret.erase : Ret A → Ret A
  | .payments r => .payments r
  | .wallet r => .wallet r.erase

/-- Whether a binding is active does not depend on its asset and its limit. -/
theorem hasActiveBinding_erase (w : Wallet.Store A) (agent : A) :
    hasActiveBinding w.erase agent = hasActiveBinding w agent := by
  show ((w.binding agent).map (·.erase)).any (·.enabled) = (w.binding agent).any (·.enabled)
  rw [Option.any_map]
  rfl

variable [DecidableEq A] {M : Missing} {nextRevision : Wallet.NextRevision A}

/-- So payments is told the same. -/
theorem paymentsEnv_erase (walletAddress : A) (e : Env A (Payments.Query A) ProtocolError)
    (s : State A) :
    (paymentsPart walletAddress).env e s.erase = (paymentsPart walletAddress).env e s := by
  unfold Component.env paymentsPart State.erase
  simp only [hasActiveBinding_erase]

theorem erases (walletAddress : A)
    (hN : ∀ o, nextRevision (Option.map Wallet.WalletBinding.erase o) = nextRevision o) :
    Erases (dispatch M nextRevision walletAddress) State.erase Call.erase Ret.erase := by
  intro env s c
  cases c with
  | payments c =>
    refine ErasedStep.embed (P := paymentsPart walletAddress) rfl rfl (fun _ => rfl)
      (fun _ => rfl) ?_
    rw [paymentsEnv_erase]
    exact .refl _ _
  | wallet c =>
    refine ErasedStep.embed (P := walletPart) rfl rfl (fun _ => rfl) (fun _ => rfl) ?_
    rw [Component.env_outward Suite.walletPart_outward env s.erase s]
    exact Wallet.erases hN _ _ c

end System

/-! ## The four contracts without them -/

namespace Suite

variable {A : Type}

def State.erase (s : State A) : State A :=
  { s with settlement := s.settlement.erase }

def Call.erase : Call A → Call A
  | .settlement c => .settlement c.erase
  | c => c

def Ret.erase : Ret A → Ret A
  | .settlement r => .settlement r.erase
  | r => r

variable [DecidableEq A] {W : Setting A}

theorem erases
    (hN : ∀ o, W.nextRevision (Option.map Wallet.WalletBinding.erase o) = W.nextRevision o) :
    Erases (dispatch W) State.erase Call.erase Ret.erase := by
  intro env s c
  cases c with
  | protocol c =>
    refine ErasedStep.embed (P := protocolPart) rfl rfl (fun _ => rfl) (fun _ => rfl) ?_
    rw [Component.env_outward protocolPart_outward env s.erase s]
    exact .refl _ _
  | identity c =>
    refine ErasedStep.embed (P := identityPart) rfl rfl (fun _ => rfl) (fun _ => rfl) ?_
    rw [Component.env_outward identityPart_outward env s.erase s]
    exact .refl _ _
  | settlement c =>
    refine ErasedStep.embed (P := settlementPart) rfl rfl (fun _ => rfl) (fun _ => rfl) ?_
    exact System.erases W.walletAddress hN _ _ c

/-- **Assets and limits decide nothing**: two runs of the four contracts whose starting
states and calls differ in no more than the settlement assets and the sizes of the spend
limits answer every call alike, up to these two values in the bindings returned, and end
in states that differ in no more than them; so payments, identity and protocol store the
same. -/
theorem policies_inert
    (hN : ∀ o, W.nextRevision (Option.map Wallet.WalletBinding.erase o) = W.nextRevision o)
    {s s' : State A} (hs : s.erase = s'.erase) {txs txs' : List (Tx A)}
    (htxs : txs.map (·.erase Call.erase) = txs'.map (·.erase Call.erase)) :
    (run (dispatch W) s txs).erase = (run (dispatch W) s' txs').erase ∧
      (results (trace (dispatch W) s txs)).map (·.map Ret.erase) =
        (results (trace (dispatch W) s' txs')).map (·.map Ret.erase) ∧
      (run (dispatch W) s txs).settlement.payments =
        (run (dispatch W) s' txs').settlement.payments ∧
      (run (dispatch W) s txs).identity = (run (dispatch W) s' txs').identity ∧
      (run (dispatch W) s txs).protocol = (run (dispatch W) s' txs').protocol := by
  obtain ⟨hrun, hresults⟩ := (erases hN).runs_agree hs htxs
  refine ⟨hrun, hresults, ?_, ?_, ?_⟩
  · exact congrArg (·.settlement.payments) hrun
  · exact congrArg (·.identity) hrun
  · exact congrArg (·.protocol) hrun

namespace Sample

/-- Agent 1 binds its wallet under a policy, pays 100, and the payment is settled. -/
def policyTxs (asset : String) (limit : I128) : List (Tx Nat) :=
  initializeTxs ++ [tx [1, 5] (.wallet (.bindWallet 1 5 asset limit)),
    tx [1] (.payments (.createIntent 1 2 Payments.Sample.amount Payments.Sample.memo)),
    tx [0] (.payments (.settleIntent 0 1 Payments.Sample.memo))]

end Sample

/-- With a limit of 1 the payment of 100 is settled as with one of 50. -/
theorem policies_inert_sample :
    (run (dispatch Sample.setting) (deployed fun _ => 0)
        (Sample.policyTxs "XLM" ⟨1, by decide, by decide⟩)).settlement.payments =
      (run (dispatch Sample.setting) (deployed fun _ => 0)
        (Sample.policyTxs "USDC" Wallet.Sample.limit)).settlement.payments ∧
      ((run (dispatch Sample.setting) (deployed fun _ => 0)
        (Sample.policyTxs "XLM" ⟨1, by decide, by decide⟩)).settlement.payments.intents 1).map
          (·.status) = some .settled := by
  refine ⟨(policies_inert (W := Sample.setting) ?_ rfl rfl).2.2.1, by decide +kernel⟩
  intro o
  cases o <;> rfl

end Suite

end LilyContracts
