import LilyContracts.Payments.Contract
import LilyContracts.Host.Latch

/-!
# What a payments call can do

Each mutating entry point has one specification: exactly when it returns, and
the storage it leaves. `Effect` collects them, so that every later argument
about payments is a case analysis over seven constructors and never opens a
program again (`after_cases`).
-/

namespace LilyContracts.Payments

open Host

variable {A : Type}

/-! ## The records and stores calls write -/

/-- The record `create_intent` writes. -/
def PaymentIntent.fresh (id : UInt64) (payerAgent payeeAgent : A) (amount : I128)
    (memo : HostString) (createdAt : UInt64) : PaymentIntent A :=
  { id, payerAgent, payeeAgent, amount, memo
    settlementReference := HostString.empty
    status := .pending
    createdAt }

/-- The record `settle_intent` writes back. -/
def PaymentIntent.settle (i : PaymentIntent A) (settlementReference : HostString) :
    PaymentIntent A :=
  { i with status := .settled, settlementReference }

/-- The record `cancel_intent` writes back. -/
def PaymentIntent.cancel (i : PaymentIntent A) : PaymentIntent A :=
  { i with status := .cancelled }

namespace Store

/-- The payer's index, empty while the key is absent. -/
def payerIndex (s : Store A) (p : A) : List UInt64 := (s.payerIntents p).getD []

/-- Overwrite the record under one id. -/
def putIntent (s : Store A) (id : UInt64) (i : PaymentIntent A) : Store A :=
  { s with intents := Function.update s.intents id (some i) }

/-- Store a new record under its id, append the id to its payer's index and
move the counter on. -/
def addIntent [DecidableEq A] (s : Store A) (i : PaymentIntent A) (next : UInt64) : Store A :=
  { s with
    intents := Function.update s.intents i.id (some i)
    payerIntents :=
      Function.update s.payerIntents i.payerAgent (some (s.payerIndex i.payerAgent ++ [i.id]))
    nextIntentId := some next }

/-- A record found after one was overwritten: that one, or one from before. -/
theorem putIntent_cases {s : Store A} {id k : UInt64} {i i' : PaymentIntent A}
    (h : (s.putIntent id i).intents k = some i') :
    (k = id ∧ i' = i) ∨ (k ≠ id ∧ s.intents k = some i') := by
  have hk : Function.update s.intents id (some i) k = some i' := h
  by_cases hid : k = id
  · subst hid
    rw [Function.update_self] at hk
    exact .inl ⟨rfl, (Option.some.inj hk).symm⟩
  · rw [Function.update_of_ne hid] at hk
    exact .inr ⟨hid, hk⟩

theorem addIntent_cases [DecidableEq A] {s : Store A} {k next : UInt64} {i i' : PaymentIntent A}
    (h : (s.addIntent i next).intents k = some i') :
    (k = i.id ∧ i' = i) ∨ (k ≠ i.id ∧ s.intents k = some i') :=
  putIntent_cases (s := s) h

/-- The configuration `initialize` writes. -/
def configure (s : Store A) (admin treasury : A) (feeBps : UInt32) (wallet : A) : Store A :=
  { s with
    admin := some admin
    treasury := some treasury
    feeBps := some feeBps
    nextIntentId := some 1
    wallet := some wallet
    initialized := some true }

end Store

/-! ## One specification per entry point -/

section Specs

variable {M : Missing} {env : Env A (Query A) ProtocolError} {fr fr' : Frame (Store A) (Event A)}

@[simp] theorem exec_ensureInitialized_bind {β : Type} {g : Unit → Program A β} :
    exec env (ensureInitialized >>= g) fr =
      if fr.store.initialized.isSome then exec env (g ()) fr
      else .error (.contract .notInitialized) := by
  simp only [ensureInitialized, bind_assoc, exec_get_bind, exec_require_bind]

@[simp] theorem exec_getAdmin_bind {β : Type} {g : A → Program A β} :
    exec env (getAdmin M >>= g) fr =
      (M.readInstance fr.store.admin).bind fun a => exec env (g a) fr := by
  simp only [getAdmin, bind_assoc, exec_get_bind, exec_lift_bind]

@[simp] theorem exec_getIntentInternal_bind {β : Type} {id : UInt64}
    {g : PaymentIntent A → Program A β} :
    exec env (getIntentInternal id >>= g) fr =
      (fr.store.intents id).elim (.error (.contract .missingRecord)) fun i =>
        exec env (g i) fr := by
  simp only [getIntentInternal, bind_assoc, exec_get_bind, exec_unwrapOrPanic_bind]

theorem exec_initializeContract_ok [DecidableEq A] {admin treasury wallet : A} {feeBps : UInt32}
    {u : Unit} :
    exec env (initializeContract admin treasury feeBps wallet) fr = .ok (u, fr') ↔
      env.signs admin = true ∧ fr.store.initialized = none ∧
      fr.store.pinnedAdmin = some admin ∧ feeBps ≤ maxBps ∧
      fr' = ⟨fr.store.configure admin treasury feeBps wallet,
        fr.events ++ [.init admin ⟨admin, treasury, feeBps, 1⟩]⟩ := by
  simp only [initializeContract, requireInitialAdmin, bind_assoc, exec_requireAuth_bind,
    exec_get_bind, exec_require_bind, exec_unwrapOptimized_bind, exec_requireValidBps_bind,
    exec_requireAuthOrError_bind, exec_modify_bind, exec_bumpInstance_bind, exec_publish,
    guard_eq_ok, elim_eq_ok, Store.configure]
  constructor
  · intro h
    obtain ⟨hs, hi, p, hp, rfl, hb, _, hok⟩ := h
    cases hok
    exact ⟨hs, by simpa using hi, hp, hb, rfl⟩
  · intro h
    obtain ⟨hs, hi, hp, hb, rfl⟩ := h
    exact ⟨hs, by simp [hi], admin, hp, rfl, hb, hs, rfl⟩

theorem exec_createIntent_ok [DecidableEq A] {payerAgent payeeAgent : A} {amount : I128}
    {memo : HostString} {id : UInt64} :
    exec env (createIntent M payerAgent payeeAgent amount memo) fr = .ok (id, fr') ↔
      fr.store.initialized.isSome = true ∧
      (0 < amount.val ∧ amount.val ≤ maxPaymentAmount) ∧ memo ≠ HostString.empty ∧
      payerAgent ≠ payeeAgent ∧ env.signs payerAgent = true ∧
      (∃ wallet, fr.store.wallet = some wallet ∧
        env.answer (.hasActiveBinding wallet payerAgent) = .ok true) ∧
      fr.store.nextIntentId = some id ∧
      ∃ next, M.checkedInc id = .ok next ∧
        fr' = ⟨fr.store.addIntent
            (.fresh id payerAgent payeeAgent amount memo env.timestamp) next,
          fr.events ++
            [.create id (.fresh id payerAgent payeeAgent amount memo env.timestamp)]⟩ := by
  simp only [createIntent, exec_ensureInitialized_bind, exec_require_bind,
    exec_requireNonEmpty_bind, exec_requireAuth_bind, exec_get_bind, exec_unwrapOrPanic_bind,
    exec_ask_bind, exec_unwrapOptimized_bind, exec_ledgerTimestamp_bind, exec_modify_bind,
    exec_lift_bind, exec_bumpInstance_bind, exec_publish_bind, exec_pure, guard_eq_ok, elim_eq_ok,
    bind_eq_ok, HostString.len_pos_iff]
  constructor
  · intro h
    obtain ⟨hi, ha, hm, hne, hs, w, hw, b, hb, rfl, k, hk, next, hn, hok⟩ := h
    cases hok
    exact ⟨hi, ha, hm, hne, hs, ⟨w, hw, hb⟩, hk, next, hn, rfl⟩
  · intro h
    obtain ⟨hi, ha, hm, hne, hs, ⟨w, hw, hb⟩, hk, next, hn, rfl⟩ := h
    exact ⟨hi, ha, hm, hne, hs, w, hw, true, hb, rfl, id, hk, next, hn, rfl⟩

/-- Dropping a guard's flag restores the flags from before it was taken. -/
theorem update_none_eq {f : Symbol → Option Bool} {key : Symbol} (h : f key = none) :
    Function.update f key none = f := by
  rw [← h, Function.update_eq_self]

@[simp] theorem entries_eq (s : Store A) : SymbolEntries.entries s = s.symbols := rfl

@[simp] theorem withEntries_eq (f : Symbol → Option Bool) (s : Store A) :
    SymbolEntries.withEntries f s = { s with symbols := f } := rfl

theorem exec_settleIntent_ok [DecidableEq A] {caller : A} {id : UInt64} {ref : HostString}
    {u : Unit} :
    exec env (settleIntent M caller id ref) fr = .ok (u, fr') ↔
      fr.store.initialized.isSome = true ∧ M.readInstance fr.store.admin = .ok caller ∧
      env.signs caller = true ∧ fr.store.symbols "settle" = none ∧ ref ≠ HostString.empty ∧
      ∃ i, fr.store.intents id = some i ∧ i.status = .pending ∧
        fr' = ⟨fr.store.putIntent id (i.settle ref),
          fr.events ++ [.settle id (paymentStatusSymbol .pending) (i.settle ref)]⟩ := by
  simp only [settleIntent, exec_ensureInitialized_bind, exec_getAdmin_bind,
    exec_requireCaller_bind, exec_requireAuthOrError_bind, NonReentrantGuard.exec_acquire_bind,
    exec_requireNonEmpty_bind, exec_getIntentInternal_bind, exec_require_bind, exec_modify_bind,
    exec_bumpInstance_bind, exec_publish_bind, NonReentrantGuard.exec_drop, guard_eq_ok,
    bind_eq_ok, elim_eq_ok, HostString.len_pos_iff, entries_eq, withEntries_eq,
    Function.update_self, Option.isSome_some, if_true, Function.update_idem]
  constructor
  · intro h
    obtain ⟨hi, a, ha, rfl, hs, hg, hr, i, hk, hst, hok⟩ := h
    have hnone : fr.store.symbols "settle" = none := by simpa using hg
    rw [update_none_eq hnone, hst] at hok
    cases hok
    exact ⟨hi, ha, hs, hnone, hr, i, hk, hst, rfl⟩
  · intro h
    obtain ⟨hi, ha, hs, hnone, hr, i, hk, hst, rfl⟩ := h
    refine ⟨hi, caller, ha, rfl, hs, by simp [hnone], hr, i, hk, hst, ?_⟩
    rw [update_none_eq hnone, hst]
    rfl

theorem exec_cancelIntent_ok {id : UInt64} {u : Unit} :
    exec env (cancelIntent id) fr = .ok (u, fr') ↔
      fr.store.initialized.isSome = true ∧
      ∃ i, fr.store.intents id = some i ∧ env.signs i.payerAgent = true ∧
        fr.store.symbols "cancel" = none ∧ i.status = .pending ∧
        fr' = ⟨fr.store.putIntent id i.cancel,
          fr.events ++ [.cancel id (paymentStatusSymbol .pending) i.cancel]⟩ := by
  simp only [cancelIntent, exec_ensureInitialized_bind, exec_getIntentInternal_bind,
    exec_requireAuth_bind, NonReentrantGuard.exec_acquire_bind, exec_require_bind,
    exec_modify_bind, exec_bumpInstance_bind, exec_publish_bind, NonReentrantGuard.exec_drop,
    guard_eq_ok, elim_eq_ok, entries_eq, withEntries_eq, Function.update_self,
    Option.isSome_some, if_true, Function.update_idem]
  constructor
  · intro h
    obtain ⟨hi, i, hk, hs, hg, hst, hok⟩ := h
    have hnone : fr.store.symbols "cancel" = none := by simpa using hg
    rw [update_none_eq hnone, hst] at hok
    cases hok
    exact ⟨hi, i, hk, hs, hnone, hst, rfl⟩
  · intro h
    obtain ⟨hi, i, hk, hs, hnone, hst, rfl⟩ := h
    refine ⟨hi, i, hk, hs, by simp [hnone], hst, ?_⟩
    rw [update_none_eq hnone, hst]
    rfl

theorem exec_setFeeBps_ok {feeBps : UInt32} {u : Unit} :
    exec env (setFeeBps M feeBps) fr = .ok (u, fr') ↔
      fr.store.initialized.isSome = true ∧ feeBps ≤ maxBps ∧
      ∃ admin, M.readInstance fr.store.admin = .ok admin ∧ env.signs admin = true ∧
        fr' = ⟨{ fr.store with feeBps := some feeBps }, fr.events ++ [.fee admin feeBps]⟩ := by
  simp only [setFeeBps, exec_ensureInitialized_bind, exec_requireValidBps_bind,
    exec_getAdmin_bind, exec_requireAuth_bind, exec_modify_bind, exec_bumpInstance_bind,
    exec_publish, guard_eq_ok, bind_eq_ok, ok_unit_eq_ok]

theorem exec_setTreasury_ok {treasury : A} {u : Unit} :
    exec env (setTreasury M treasury) fr = .ok (u, fr') ↔
      fr.store.initialized.isSome = true ∧
      ∃ admin, M.readInstance fr.store.admin = .ok admin ∧ env.signs admin = true ∧
        fr' = ⟨{ fr.store with treasury := some treasury },
          fr.events ++ [.treasury admin treasury]⟩ := by
  simp only [setTreasury, exec_ensureInitialized_bind, exec_getAdmin_bind,
    exec_requireAuth_bind, exec_modify_bind, exec_bumpInstance_bind, exec_publish,
    guard_eq_ok, bind_eq_ok, ok_unit_eq_ok]

theorem exec_transferAdmin_ok {newAdmin : A} {u : Unit} :
    exec env (transferAdmin M newAdmin) fr = .ok (u, fr') ↔
      fr.store.initialized.isSome = true ∧
      ∃ admin, M.readInstance fr.store.admin = .ok admin ∧ env.signs admin = true ∧
        fr' = ⟨{ fr.store with admin := some newAdmin }, fr.events ++ [.admin admin newAdmin]⟩ := by
  simp only [transferAdmin, exec_ensureInitialized_bind, exec_getAdmin_bind,
    exec_requireAuth_bind, exec_modify_bind, exec_bumpInstance_bind, exec_publish,
    guard_eq_ok, bind_eq_ok, ok_unit_eq_ok]

end Specs

/-! ## The effect of a successful call -/

/-- The calls that only read. -/
def Call.IsView : Call A → Prop
  | .isInitialized | .schemaVersion | .getConfig | .getNextIntentId => True
  | .getIntent _ | .getIntentOpt _ => True
  | _ => False

/-- The call is `initialize`. -/
def Call.initializes : Call A → Bool
  | .initializeContract .. => true
  | _ => false

theorem initializes_of_isView {c : Call A} (reads : c.IsView) : c.initializes = false := by
  cases c with
  | initializeContract => exact absurd reads id
  | _ => rfl

theorem readOnly_ensureInitialized : (ensureInitialized : Program A Unit).ReadOnly :=
  (readOnly_get _).bind fun _ => readOnly_require _ _

/-- What every view but `is_initialized` does after its initialization check. -/
private theorem readOnly_checked {α : Type} {p : Program A α} (hp : p.ReadOnly) :
    (ensureInitialized >>= fun _ => bumpInstance >>= fun _ => p : Program A α).ReadOnly :=
  readOnly_ensureInitialized.bind fun _ => (readOnly_pure ()).bind fun _ => hp

private theorem readOnly_readInstance {M : Missing} {α : Type}
    (f : Store A → Option α) :
    (get f >>= fun o => lift (M.readInstance o) : Program A α).ReadOnly :=
  (readOnly_get _).bind fun _ => readOnly_lift _

theorem readOnly_dispatch [DecidableEq A] {M : Missing} {c : Call A} (hc : c.IsView) :
    (dispatch M c).ReadOnly := by
  cases c with
  | isInitialized => exact (readOnly_get _).bind fun _ => readOnly_pure _
  | schemaVersion =>
    refine (readOnly_checked ?_).bind fun _ => readOnly_pure _
    exact (readOnly_get _).bind fun _ => readOnly_pure _
  | getConfig =>
    refine (readOnly_checked ?_).bind fun _ => readOnly_pure _
    refine (readOnly_get _).bind fun _ => (readOnly_lift _).bind fun _ => ?_
    refine (readOnly_get _).bind fun _ => (readOnly_lift _).bind fun _ => ?_
    exact (readOnly_get _).bind fun _ => (readOnly_lift _).bind fun _ => readOnly_pure _
  | getNextIntentId =>
    exact (readOnly_checked (readOnly_readInstance _)).bind fun _ => readOnly_pure _
  | getIntent id =>
    refine (readOnly_checked ?_).bind fun _ => readOnly_pure _
    exact (readOnly_get _).bind fun _ => readOnly_unwrapOrPanic _ _
  | getIntentOpt id => exact (readOnly_checked (readOnly_get _)).bind fun _ => readOnly_pure _
  | _ => exact absurd hc id

/-- What a successful call did: the guards it passed, what it returned, the
storage it left and the events it published. -/
inductive Effect [DecidableEq A] (M : Missing) (env : Env A (Query A) ProtocolError)
    (s : Store A) : Call A → Ret A → Store A → List (Event A) → Prop
  | initializeContract {admin treasury wallet : A} {feeBps : UInt32}
      (signed : env.signs admin = true) (fresh : s.initialized = none)
      (pinned : s.pinnedAdmin = some admin) (bps : feeBps ≤ maxBps) :
      Effect M env s (.initializeContract admin treasury feeBps wallet) .unit
        (s.configure admin treasury feeBps wallet) [.init admin ⟨admin, treasury, feeBps, 1⟩]
  | createIntent {payerAgent payeeAgent wallet : A} {amount : I128} {memo : HostString}
      {id next : UInt64} (live : s.initialized.isSome = true)
      (amount_ok : 0 < amount.val ∧ amount.val ≤ maxPaymentAmount)
      (memo_ne : memo ≠ HostString.empty) (parties_ne : payerAgent ≠ payeeAgent)
      (signed : env.signs payerAgent = true) (wallet_eq : s.wallet = some wallet)
      (bound : env.answer (.hasActiveBinding wallet payerAgent) = .ok true)
      (counter : s.nextIntentId = some id) (inc : M.checkedInc id = .ok next) :
      Effect M env s (.createIntent payerAgent payeeAgent amount memo) (.u64 id)
        (s.addIntent (.fresh id payerAgent payeeAgent amount memo env.timestamp) next)
        [.create id (.fresh id payerAgent payeeAgent amount memo env.timestamp)]
  | settleIntent {caller : A} {id : UInt64} {ref : HostString} {i : PaymentIntent A}
      (live : s.initialized.isSome = true) (isAdmin : M.readInstance s.admin = .ok caller)
      (signed : env.signs caller = true) (ref_ne : ref ≠ HostString.empty)
      (stored : s.intents id = some i) (pending : i.status = .pending) :
      Effect M env s (.settleIntent caller id ref) .unit (s.putIntent id (i.settle ref))
        [.settle id (paymentStatusSymbol .pending) (i.settle ref)]
  | cancelIntent {id : UInt64} {i : PaymentIntent A} (live : s.initialized.isSome = true)
      (stored : s.intents id = some i) (signed : env.signs i.payerAgent = true)
      (pending : i.status = .pending) :
      Effect M env s (.cancelIntent id) .unit (s.putIntent id i.cancel)
        [.cancel id (paymentStatusSymbol .pending) i.cancel]
  | setFeeBps {admin : A} {feeBps : UInt32} (live : s.initialized.isSome = true)
      (bps : feeBps ≤ maxBps) (isAdmin : M.readInstance s.admin = .ok admin)
      (signed : env.signs admin = true) :
      Effect M env s (.setFeeBps feeBps) .unit { s with feeBps := some feeBps }
        [.fee admin feeBps]
  | setTreasury {admin treasury : A} (live : s.initialized.isSome = true)
      (isAdmin : M.readInstance s.admin = .ok admin) (signed : env.signs admin = true) :
      Effect M env s (.setTreasury treasury) .unit { s with treasury := some treasury }
        [.treasury admin treasury]
  | transferAdmin {admin newAdmin : A} (live : s.initialized.isSome = true)
      (isAdmin : M.readInstance s.admin = .ok admin) (signed : env.signs admin = true) :
      Effect M env s (.transferAdmin newAdmin) .unit { s with admin := some newAdmin }
        [.admin admin newAdmin]
  | view {c : Call A} {r : Ret A} (reads : c.IsView) : Effect M env s c r s []

section Cases

variable [DecidableEq A] {M : Missing} {env : Env A (Query A) ProtocolError} {s : Store A}

/-- Every successful call has one of the effects. -/
theorem effect_of_exec {c : Call A} {r : Ret A} {fr : Frame (Store A) (Event A)}
    (h : exec env (dispatch M c) ⟨s, []⟩ = .ok (r, fr)) :
    Effect M env s c r fr.store fr.events := by
  cases c with
  | initializeContract admin treasury feeBps wallet =>
    obtain ⟨u, hu, rfl⟩ := exec_map_ok.mp h
    obtain ⟨hs, hi, hp, hb, rfl⟩ := exec_initializeContract_ok.mp hu
    exact .initializeContract hs hi hp hb
  | createIntent payerAgent payeeAgent amount memo =>
    obtain ⟨id, hid, rfl⟩ := exec_map_ok.mp h
    obtain ⟨hi, ha, hm, hne, hs, ⟨w, hw, hb⟩, hk, next, hn, rfl⟩ := exec_createIntent_ok.mp hid
    exact .createIntent hi ha hm hne hs hw hb hk hn
  | settleIntent caller id ref =>
    obtain ⟨u, hu, rfl⟩ := exec_map_ok.mp h
    obtain ⟨hi, ha, hs, -, hr, i, hk, hst, rfl⟩ := exec_settleIntent_ok.mp hu
    exact .settleIntent hi ha hs hr hk hst
  | cancelIntent id =>
    obtain ⟨u, hu, rfl⟩ := exec_map_ok.mp h
    obtain ⟨hi, i, hk, hs, -, hst, rfl⟩ := exec_cancelIntent_ok.mp hu
    exact .cancelIntent hi hk hs hst
  | setFeeBps feeBps =>
    obtain ⟨u, hu, rfl⟩ := exec_map_ok.mp h
    obtain ⟨hi, hb, a, ha, hs, rfl⟩ := exec_setFeeBps_ok.mp hu
    exact .setFeeBps hi hb ha hs
  | setTreasury treasury =>
    obtain ⟨u, hu, rfl⟩ := exec_map_ok.mp h
    obtain ⟨hi, a, ha, hs, rfl⟩ := exec_setTreasury_ok.mp hu
    exact .setTreasury hi ha hs
  | transferAdmin newAdmin =>
    obtain ⟨u, hu, rfl⟩ := exec_map_ok.mp h
    obtain ⟨hi, a, ha, hs, rfl⟩ := exec_transferAdmin_ok.mp hu
    exact .transferAdmin hi ha hs
  | _ =>
    have heq : fr = ⟨s, []⟩ := by
      refine exec_readOnly (readOnly_dispatch ?_) h
      exact trivial
    rw [heq]
    exact .view trivial

/-- What a transaction does to the storage: nothing, or the effect of its
call. -/
theorem after_cases (M : Missing) (s : Store A) (tx : Tx A) :
    (¬ (stepOf (dispatch M) s tx).Succeeded ∧ after (dispatch M) s tx = s) ∨
    ∃ r evs, (stepOf (dispatch M) s tx).out.result = .ok r ∧
      Effect M tx.env s tx.call r (after (dispatch M) s tx) evs :=
  stepOf_effect effect_of_exec s tx

/-- When `initialize` succeeds, and what it leaves. -/
theorem initialize_lands {admin treasury wallet : A} {feeBps : UInt32} :
    ((stepOf (dispatch M) s ⟨env, .initializeContract admin treasury feeBps wallet⟩).Succeeded ↔
        env.signs admin = true ∧ s.initialized = none ∧ s.pinnedAdmin = some admin ∧
          feeBps ≤ maxBps) ∧
      (env.signs admin = true ∧ s.initialized = none ∧ s.pinnedAdmin = some admin ∧
          feeBps ≤ maxBps →
        after (dispatch M) s ⟨env, .initializeContract admin treasury feeBps wallet⟩ =
          s.configure admin treasury feeBps wallet) := by
  refine lands_iff [.init admin ⟨admin, treasury, feeBps, 1⟩] rfl ?_
  intro u fr'
  rw [exec_initializeContract_ok]
  simp only [and_assoc, List.nil_append]

/-- Initialization is a gate: before it no other call gets past its checks. -/
theorem gate (M : Missing) :
    Gate (dispatch (A := A) M) (·.initialized.isSome) Call.initializes := by
  refine .of_effect effect_of_exec ?_
  intro env s s' c r evs h
  cases h with
  | initializeContract signed fresh => exact .raise (by rw [fresh]; rfl) rfl
  | view reads => exact initializes_of_isView reads ▸ .idle
  | _ => exact .pass (by assumption) (by assumption)

/-- Only the constructor writes the pin. -/
theorem pinnedAdmin_kept {s' : Store A} {c : Call A} {r : Ret A} {evs : List (Event A)}
    (h : Effect M env s c r s' evs) : s'.pinnedAdmin = s.pinnedAdmin := by
  cases h <;> rfl

/-- Only `initialize` writes the wallet contract's address. -/
theorem wallet_kept {s' : Store A} {c : Call A} {r : Ret A} {evs : List (Event A)}
    (h : Effect M env s c r s' evs) (hc : c.initializes = false) : s'.wallet = s.wallet := by
  cases h with
  | initializeContract => cases hc
  | _ => rfl

end Cases

end LilyContracts.Payments
