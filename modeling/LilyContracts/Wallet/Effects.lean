import LilyContracts.Wallet.Contract
import LilyContracts.Host.Latch

/-!
# What a wallet call can do

The specification of each mutating entry point, and from them `Effect`: the
guards a successful call passed and the binding it wrote. All five mutators of
bindings rewrite one whole record (`Store.put`); they differ in who signs and in
which fields of the old record they carry over.
-/

namespace LilyContracts.Wallet

open Host

variable {A : Type}

/-! ## The stores calls write -/

/-- Overwrite one agent's binding. -/
def Store.put [DecidableEq A] (s : Store A) (agent : A) (b : WalletBinding A) : Store A :=
  { s with binding := Function.update s.binding agent (some b) }

/-- What `initialize` writes. -/
def Store.configure (s : Store A) (admin : A) : Store A :=
  { s with
    admin := some admin
    schemaVersion := some currentSchemaVersion
    initialized := some true }

section Put

variable [DecidableEq A] {s : Store A} {agent a : A} {b : WalletBinding A}

@[simp] theorem put_binding_self : (s.put agent b).binding agent = some b :=
  Function.update_self ..

theorem put_binding_of_ne (h : a ≠ agent) : (s.put agent b).binding a = s.binding a :=
  Function.update_of_ne h ..

end Put

/-! ## One specification per entry point -/

section Specs

variable {M : Missing} {env : Env A Empty ProtocolError} {fr fr' : Frame (Store A) (Event A)}
  {u : Unit}

@[simp] theorem exec_ensureInitialized_bind {β : Type} {g : Unit → Program A β} :
    exec env (ensureInitialized >>= g) fr =
      if fr.store.initialized.isSome then exec env (g ()) fr
      else .error (.contract .notInitialized) := by
  simp only [ensureInitialized, bind_assoc, exec_get_bind, exec_require_bind]

@[simp] theorem exec_getAdmin_bind {β : Type} {g : A → Program A β} :
    exec env (getAdmin >>= g) fr =
      fr.store.admin.elim (.error .trap) fun a => exec env (g a) fr := by
  simp only [getAdmin, bind_assoc, exec_get_bind, exec_unwrapOptimized_bind]

@[simp] theorem exec_getBindingInternal_bind {β : Type} {agent : A}
    {g : WalletBinding A → Program A β} :
    exec env (getBindingInternal agent >>= g) fr =
      (fr.store.binding agent).elim (.error (.contract .missingRecord)) fun b =>
        exec env (g b) fr := by
  simp only [getBindingInternal, bind_assoc, exec_get_bind, exec_unwrapOrPanic_bind]

variable [DecidableEq A]

@[simp] theorem exec_setBinding_bind {β : Type} {agent : A} {b : WalletBinding A}
    {g : Unit → Program A β} :
    exec env (setBinding agent b >>= g) fr =
      exec env (g ()) { fr with store := fr.store.put agent b } := rfl

omit [DecidableEq A] in
theorem exec_initializeContract_ok {admin : A} :
    exec env (initializeContract admin) fr = .ok (u, fr') ↔
      env.signs admin = true ∧ fr.store.initialized = none ∧
      fr' = ⟨fr.store.configure admin, fr.events ++ [.init admin]⟩ := by
  simp only [initializeContract, exec_requireAuth_bind, exec_get_bind, exec_require_bind,
    exec_requireAuthOrError_bind, exec_modify_bind, exec_bumpInstance_bind, exec_publish,
    guard_eq_ok, ok_unit_eq_ok, Store.configure]
  constructor
  · intro h
    obtain ⟨hs, hi, _, hfr⟩ := h
    exact ⟨hs, by simpa using hi, hfr⟩
  · intro h
    obtain ⟨hs, hi, hfr⟩ := h
    exact ⟨hs, by simp [hi], hs, hfr⟩

theorem exec_bindWallet_ok {agent wallet : A} {asset : Symbol} {limit : I128} :
    exec env (bindWallet agent wallet asset limit) fr = .ok (u, fr') ↔
      fr.store.initialized.isSome = true ∧ 0 < limit.val ∧ env.signs agent = true ∧
      env.signs wallet = true ∧ fr.store.binding agent = none ∧
      fr' = ⟨fr.store.put agent ⟨wallet, asset, limit, true, 0⟩,
        fr.events ++ [.bind agent ⟨wallet, asset, limit, true, 0⟩]⟩ := by
  simp only [bindWallet, exec_ensureInitialized_bind, exec_require_bind,
    exec_requireAuthOrError_bind, exec_get_bind, exec_setBinding_bind, exec_bumpInstance_bind,
    exec_publish, guard_eq_ok, ok_unit_eq_ok]
  constructor
  · intro h
    obtain ⟨hi, hl, ha, hw, hb, hfr⟩ := h
    exact ⟨hi, hl, ha, hw, by simpa using hb, hfr⟩
  · intro h
    obtain ⟨hi, hl, ha, hw, hb, hfr⟩ := h
    exact ⟨hi, hl, ha, hw, by simp [hb], hfr⟩

theorem exec_rebindWallet_ok {nextRevision : NextRevision A} {agent wallet : A} {asset : Symbol}
    {limit : I128} :
    exec env (rebindWallet nextRevision agent wallet asset limit) fr = .ok (u, fr') ↔
      fr.store.initialized.isSome = true ∧ 0 < limit.val ∧ env.signs agent = true ∧
      env.signs wallet = true ∧ (fr.store.binding agent).isSome = true ∧
      ∃ revision, nextRevision (fr.store.binding agent) = .ok revision ∧
        fr' = ⟨fr.store.put agent ⟨wallet, asset, limit, true, revision⟩,
          fr.events ++ [.rebind agent ⟨wallet, asset, limit, true, revision⟩]⟩ := by
  simp only [rebindWallet, exec_ensureInitialized_bind, exec_require_bind, exec_requireAuth_bind,
    exec_get_bind, exec_lift_bind, exec_setBinding_bind, exec_bumpInstance_bind, exec_publish,
    guard_eq_ok, bind_eq_ok, ok_unit_eq_ok]

theorem exec_updateSpendLimit_ok {agent : A} {limit : I128} :
    exec env (updateSpendLimit M agent limit) fr = .ok (u, fr') ↔
      fr.store.initialized.isSome = true ∧ 0 < limit.val ∧ env.signs agent = true ∧
      ∃ b, fr.store.binding agent = some b ∧ M.requireEnabled b.enabled = .ok () ∧
      ∃ revision, M.checkedInc b.revision = .ok revision ∧
        fr' = ⟨fr.store.put agent { b with spendLimit := limit, revision },
          fr.events ++ [.limit agent { b with spendLimit := limit, revision }]⟩ := by
  simp only [updateSpendLimit, exec_ensureInitialized_bind, exec_require_bind,
    exec_requireAuthOrError_bind, exec_getBindingInternal_bind, exec_lift_bind,
    exec_setBinding_bind, exec_bumpInstance_bind, exec_publish, guard_eq_ok, elim_eq_ok,
    bind_eq_ok, ok_unit_eq_ok]
  constructor
  · intro h
    obtain ⟨hi, hl, ha, b, hb, _, he, hr⟩ := h
    exact ⟨hi, hl, ha, b, hb, he, hr⟩
  · intro h
    obtain ⟨hi, hl, ha, b, hb, he, hr⟩ := h
    exact ⟨hi, hl, ha, b, hb, (), he, hr⟩

theorem exec_setEnabled_ok {agent : A} {enabled : Bool} :
    exec env (setEnabled M agent enabled) fr = .ok (u, fr') ↔
      fr.store.initialized.isSome = true ∧ env.signs agent = true ∧
      ∃ b, fr.store.binding agent = some b ∧
      ∃ revision, M.checkedInc b.revision = .ok revision ∧
        fr' = ⟨fr.store.put agent { b with enabled, revision },
          fr.events ++ [.state agent { b with enabled, revision }]⟩ := by
  simp only [setEnabled, exec_ensureInitialized_bind, exec_requireAuthOrError_bind,
    exec_getBindingInternal_bind, exec_lift_bind, exec_setBinding_bind, exec_bumpInstance_bind,
    exec_publish, guard_eq_ok, elim_eq_ok, bind_eq_ok, ok_unit_eq_ok]

theorem exec_adminDeactivate_ok {agent : A} :
    exec env (adminDeactivate agent) fr = .ok (u, fr') ↔
      fr.store.initialized.isSome = true ∧
      ∃ admin, fr.store.admin = some admin ∧ env.signs admin = true ∧
      ∃ b, fr.store.binding agent = some b ∧ b.revision.toNat + 1 < 2 ^ 64 ∧
        fr' = ⟨fr.store.put agent { b with enabled := false, revision := b.revision + 1 },
          fr.events ++
            [.admDeact agent { b with enabled := false, revision := b.revision + 1 }]⟩ := by
  simp only [adminDeactivate, exec_ensureInitialized_bind, exec_getAdmin_bind,
    exec_requireAuth_bind, exec_getBindingInternal_bind, exec_lift_bind, exec_setBinding_bind,
    exec_bumpInstance_bind, exec_publish, guard_eq_ok, elim_eq_ok, bind_eq_ok, ok_unit_eq_ok,
    overflowingInc_eq_ok, and_assoc]
  constructor
  · intro h
    obtain ⟨hi, a, ha, hs, b, hb, _, hlt, rfl, hfr⟩ := h
    exact ⟨hi, a, ha, hs, b, hb, hlt, hfr⟩
  · intro h
    obtain ⟨hi, a, ha, hs, b, hb, hlt, hfr⟩ := h
    exact ⟨hi, a, ha, hs, b, hb, _, hlt, rfl, hfr⟩

end Specs

/-! ## The effect of a successful call -/

/-- The calls that only read. -/
def Call.IsView : Call A → Prop
  | .isInitialized | .getBinding _ | .getBindingOpt _ => True
  | _ => False

/-- The call is `initialize`. -/
def Call.initializes : Call A → Bool
  | .initializeContract .. => true
  | _ => false

theorem initializes_of_isView {c : Call A} (reads : c.IsView) : c.initializes = false := by
  cases c with
  | initializeContract => exact absurd reads id
  | _ => rfl

theorem readOnly_ensureInitialized : (ensureInitialized : Program A Unit).ReadOnly :=
  (readOnly_get _).bind fun _ => readOnly_require _ _

theorem readOnly_dispatch [DecidableEq A] {M : Missing} {nextRevision : NextRevision A}
    {c : Call A} (hc : c.IsView) : (dispatch M nextRevision c).ReadOnly := by
  cases c with
  | isInitialized => exact (readOnly_get _).bind fun _ => readOnly_pure _
  | getBinding agent =>
    refine Prog.ReadOnly.bind ?_ fun _ => readOnly_pure _
    refine readOnly_ensureInitialized.bind fun _ => (readOnly_pure ()).bind fun _ => ?_
    exact (readOnly_get _).bind fun _ => readOnly_unwrapOrPanic _ _
  | getBindingOpt agent =>
    refine Prog.ReadOnly.bind ?_ fun _ => readOnly_pure _
    exact readOnly_ensureInitialized.bind fun _ => (readOnly_pure ()).bind fun _ =>
      readOnly_get _
  | _ => exact absurd hc id

/-- What a successful call did: the guards it passed, what it returned, the
storage it left and the events it published. -/
inductive Effect [DecidableEq A] (M : Missing) (nextRevision : NextRevision A)
    (env : Env A Empty ProtocolError) (s : Store A) :
    Call A → Ret A → Store A → List (Event A) → Prop
  | initializeContract {admin : A} (signed : env.signs admin = true)
      (fresh : s.initialized = none) :
      Effect M nextRevision env s (.initializeContract admin) .unit (s.configure admin)
        [.init admin]
  | bindWallet {agent wallet : A} {asset : Symbol} {limit : I128}
      (live : s.initialized.isSome = true) (limit_pos : 0 < limit.val)
      (agentSigned : env.signs agent = true) (walletSigned : env.signs wallet = true)
      (unbound : s.binding agent = none) :
      Effect M nextRevision env s (.bindWallet agent wallet asset limit) .unit
        (s.put agent ⟨wallet, asset, limit, true, 0⟩)
        [.bind agent ⟨wallet, asset, limit, true, 0⟩]
  | rebindWallet {agent wallet : A} {asset : Symbol} {limit : I128} {revision : UInt64}
      (live : s.initialized.isSome = true) (limit_pos : 0 < limit.val)
      (agentSigned : env.signs agent = true) (walletSigned : env.signs wallet = true)
      (bound : (s.binding agent).isSome = true)
      (next : nextRevision (s.binding agent) = .ok revision) :
      Effect M nextRevision env s (.rebindWallet agent wallet asset limit) .unit
        (s.put agent ⟨wallet, asset, limit, true, revision⟩)
        [.rebind agent ⟨wallet, asset, limit, true, revision⟩]
  | updateSpendLimit {agent : A} {limit : I128} {b : WalletBinding A} {revision : UInt64}
      (live : s.initialized.isSome = true) (limit_pos : 0 < limit.val)
      (signed : env.signs agent = true) (stored : s.binding agent = some b)
      (enabled : M.requireEnabled b.enabled = .ok ())
      (inc : M.checkedInc b.revision = .ok revision) :
      Effect M nextRevision env s (.updateSpendLimit agent limit) .unit
        (s.put agent { b with spendLimit := limit, revision })
        [.limit agent { b with spendLimit := limit, revision }]
  | setEnabled {agent : A} {enabled : Bool} {b : WalletBinding A} {revision : UInt64}
      (live : s.initialized.isSome = true) (signed : env.signs agent = true)
      (stored : s.binding agent = some b) (inc : M.checkedInc b.revision = .ok revision) :
      Effect M nextRevision env s (.setEnabled agent enabled) .unit
        (s.put agent { b with enabled, revision }) [.state agent { b with enabled, revision }]
  | adminDeactivate {admin agent : A} {b : WalletBinding A} (live : s.initialized.isSome = true)
      (isAdmin : s.admin = some admin) (signed : env.signs admin = true)
      (stored : s.binding agent = some b) (inc : b.revision.toNat + 1 < 2 ^ 64) :
      Effect M nextRevision env s (.adminDeactivate agent) .unit
        (s.put agent { b with enabled := false, revision := b.revision + 1 })
        [.admDeact agent { b with enabled := false, revision := b.revision + 1 }]
  | view {c : Call A} {r : Ret A} (reads : c.IsView) : Effect M nextRevision env s c r s []

section Cases

variable [DecidableEq A] {M : Missing} {nextRevision : NextRevision A}
  {env : Env A Empty ProtocolError} {s : Store A}

/-- Every successful call has one of the effects. -/
theorem effect_of_exec {c : Call A} {r : Ret A} {fr : Frame (Store A) (Event A)}
    (h : exec env (dispatch M nextRevision c) ⟨s, []⟩ = .ok (r, fr)) :
    Effect M nextRevision env s c r fr.store fr.events := by
  cases c with
  | initializeContract admin =>
    obtain ⟨u, hu, rfl⟩ := exec_map_ok.mp h
    obtain ⟨hs, hi, rfl⟩ := exec_initializeContract_ok.mp hu
    exact .initializeContract hs hi
  | bindWallet agent wallet asset limit =>
    obtain ⟨u, hu, rfl⟩ := exec_map_ok.mp h
    obtain ⟨hi, hl, ha, hw, hb, rfl⟩ := exec_bindWallet_ok.mp hu
    exact .bindWallet hi hl ha hw hb
  | rebindWallet agent wallet asset limit =>
    obtain ⟨u, hu, rfl⟩ := exec_map_ok.mp h
    obtain ⟨hi, hl, ha, hw, hb, r, hr, rfl⟩ := exec_rebindWallet_ok.mp hu
    exact .rebindWallet hi hl ha hw hb hr
  | updateSpendLimit agent limit =>
    obtain ⟨u, hu, rfl⟩ := exec_map_ok.mp h
    obtain ⟨hi, hl, ha, b, hb, he, r, hr, rfl⟩ := exec_updateSpendLimit_ok.mp hu
    exact .updateSpendLimit hi hl ha hb he hr
  | setEnabled agent enabled =>
    obtain ⟨u, hu, rfl⟩ := exec_map_ok.mp h
    obtain ⟨hi, ha, b, hb, r, hr, rfl⟩ := exec_setEnabled_ok.mp hu
    exact .setEnabled hi ha hb hr
  | adminDeactivate agent =>
    obtain ⟨u, hu, rfl⟩ := exec_map_ok.mp h
    obtain ⟨hi, a, ha, hs, b, hb, hr, rfl⟩ := exec_adminDeactivate_ok.mp hu
    exact .adminDeactivate hi ha hs hb hr
  | _ =>
    have heq : fr = ⟨s, []⟩ := by
      refine exec_readOnly (readOnly_dispatch ?_) h
      exact trivial
    rw [heq]
    exact .view trivial

/-- What a transaction does to the storage: nothing, or the effect of its
call. -/
theorem after_cases (M : Missing) (nextRevision : NextRevision A) (s : Store A) (tx : Tx A) :
    (¬ (stepOf (dispatch M nextRevision) s tx).Succeeded ∧
      after (dispatch M nextRevision) s tx = s) ∨
    ∃ r evs, (stepOf (dispatch M nextRevision) s tx).out.result = .ok r ∧
      Effect M nextRevision tx.env s tx.call r (after (dispatch M nextRevision) s tx) evs :=
  stepOf_effect effect_of_exec s tx

/-- When `initialize` succeeds, and what it leaves. -/
theorem initialize_lands {admin : A} :
    ((stepOf (dispatch M nextRevision) s ⟨env, .initializeContract admin⟩).Succeeded ↔
        env.signs admin = true ∧ s.initialized = none) ∧
      (env.signs admin = true ∧ s.initialized = none →
        after (dispatch M nextRevision) s ⟨env, .initializeContract admin⟩ =
          s.configure admin) := by
  refine lands_iff [.init admin] rfl ?_
  intro u fr'
  rw [exec_initializeContract_ok]
  simp only [and_assoc, List.nil_append]

/-- Initialization is a gate: before it no other call gets past its checks. -/
theorem gate (M : Missing) (nextRevision : NextRevision A) :
    Gate (dispatch M nextRevision) (·.initialized.isSome) Call.initializes := by
  refine .of_effect effect_of_exec ?_
  intro env s s' c r evs h
  cases h with
  | initializeContract signed fresh => exact .raise (by rw [fresh]; rfl) rfl
  | view reads => exact initializes_of_isView reads ▸ .idle
  | _ => exact .pass (by assumption) (by assumption)

/-- Only `initialize` writes the admin. -/
theorem admin_kept {s' : Store A} {c : Call A} {r : Ret A} {evs : List (Event A)}
    (h : Effect M nextRevision env s c r s' evs) (hc : c.initializes = false) :
    s'.admin = s.admin := by
  cases h with
  | initializeContract => cases hc
  | _ => rfl

/-- Initialized, the contract stores an admin. -/
theorem admin_stored (M : Missing) (nextRevision : NextRevision A) (pin : A) {txs : List (Tx A)}
    (hup : (run (dispatch M nextRevision) (deployed pin) txs).initialized.isSome = true) :
    ∃ a, (run (dispatch M nextRevision) (deployed pin) txs).admin = some a := by
  refine (gate M nextRevision).open_run (K := fun s => ∃ a, s.admin = some a) effect_of_exec
    ?_ ?_ rfl hup
  · intro env s s' c r evs h hc
    cases h with
    | initializeContract => exact ⟨_, rfl⟩
    | view reads =>
      rw [initializes_of_isView reads] at hc
      cases hc
    | _ => cases hc
  · intro env s s' c r evs h hc hs
    rw [admin_kept h hc]
    exact hs

end Cases

end LilyContracts.Wallet
