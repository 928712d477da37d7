import LilyContracts.Protocol.Contract
import LilyContracts.Host.Latch

/-!
# What a protocol call can do

The specification of each mutating entry point, and from them `Effect`: the
guards a successful call passed and the storage it left. Every argument about
protocol runs is a case analysis over its constructors (`after_cases`), the
first of them that a deployed contract holds nothing but the pin until
`initialize` makes it `Live`, for good.
-/

namespace LilyContracts.Protocol

open Host

variable {A : Type}

/-- The configuration `initialize` writes. -/
def Store.configure (s : Store A) (admin treasury : A) (feeBps : UInt32) : Store A :=
  { s with
    admin := some admin
    treasury := some treasury
    feeBps := some feeBps
    schemaVersion := some currentSchemaVersion
    initialized := some true }

/-! ## One specification per entry point -/

section Specs

variable {M : Missing} {env : Env A Empty ProtocolError} {fr fr' : Frame (Store A) (Event A)}
  {u : Unit}

@[simp] theorem exec_ensureInitialized_bind {β : Type} {g : Unit → Program A β} :
    exec env (ensureInitialized >>= g) fr =
      if fr.store.initialized.isSome then exec env (g ()) fr
      else .error (.contract .notInitialized) := by
  simp only [ensureInitialized, bind_assoc, exec_get_bind, exec_require_bind]

@[simp] theorem exec_getAdmin_bind {β : Type} {g : A → Program A β} :
    exec env (getAdmin M >>= g) fr =
      (M.readInstance fr.store.admin).bind fun a => exec env (g a) fr := by
  simp only [getAdmin, bind_assoc, exec_get_bind, exec_lift_bind]

theorem exec_initializeContract_ok [DecidableEq A] {admin treasury : A} {feeBps : UInt32} :
    exec env (initializeContract admin treasury feeBps) fr = .ok (u, fr') ↔
      env.signs admin = true ∧ fr.store.initialized = none ∧
      fr.store.pinnedAdmin = some admin ∧ feeBps ≤ maxBps ∧
      fr' = ⟨fr.store.configure admin treasury feeBps,
        fr.events ++ [.init admin ⟨admin, treasury, feeBps⟩]⟩ := by
  simp only [initializeContract, requireInitialAdmin, bind_assoc, exec_requireAuth_bind,
    exec_get_bind, exec_require_bind, exec_unwrapOptimized_bind, exec_requireValidBps_bind,
    exec_requireAuthOrError_bind, exec_modify_bind, exec_bumpInstance_bind, exec_publish,
    guard_eq_ok, elim_eq_ok, Store.configure]
  constructor
  · intro h
    obtain ⟨hs, hi, p, hp, rfl, hb, _, hok⟩ := h
    cases hok
    exact ⟨hs, by simpa using hi, hp, hb, rfl⟩
  · intro h
    obtain ⟨hs, hi, hp, hb, rfl⟩ := h
    exact ⟨hs, by simp [hi], admin, hp, rfl, hb, hs, rfl⟩

theorem exec_setFeeBps_ok {feeBps : UInt32} :
    exec env (setFeeBps M feeBps) fr = .ok (u, fr') ↔
      fr.store.initialized.isSome = true ∧
      ∃ admin, M.readInstance fr.store.admin = .ok admin ∧ env.signs admin = true ∧
        feeBps ≤ maxBps ∧
        fr' = ⟨{ fr.store with feeBps := some feeBps }, fr.events ++ [.fee admin feeBps]⟩ := by
  simp only [setFeeBps, exec_ensureInitialized_bind, exec_getAdmin_bind,
    exec_requireAuthOrError_bind, exec_requireValidBps_bind, exec_modify_bind,
    exec_bumpInstance_bind, exec_publish, guard_eq_ok, bind_eq_ok, ok_unit_eq_ok]

theorem exec_setTreasury_ok {treasury : A} :
    exec env (setTreasury M treasury) fr = .ok (u, fr') ↔
      fr.store.initialized.isSome = true ∧
      ∃ admin, M.readInstance fr.store.admin = .ok admin ∧ env.signs admin = true ∧
        fr' = ⟨{ fr.store with treasury := some treasury },
          fr.events ++ [.treasury admin treasury]⟩ := by
  simp only [setTreasury, exec_ensureInitialized_bind, exec_getAdmin_bind,
    exec_requireAuthOrError_bind, exec_modify_bind, exec_bumpInstance_bind, exec_publish,
    guard_eq_ok, bind_eq_ok, ok_unit_eq_ok]

theorem exec_transferAdmin_ok {newAdmin : A} :
    exec env (transferAdmin M newAdmin) fr = .ok (u, fr') ↔
      fr.store.initialized.isSome = true ∧
      ∃ admin, M.readInstance fr.store.admin = .ok admin ∧ env.signs admin = true ∧
        fr' = ⟨{ fr.store with pendingAdmin := some newAdmin },
          fr.events ++ [.propose admin newAdmin]⟩ := by
  simp only [transferAdmin, exec_ensureInitialized_bind, exec_getAdmin_bind,
    exec_requireAuthOrError_bind, exec_modify_bind, exec_bumpInstance_bind, exec_publish,
    guard_eq_ok, bind_eq_ok, ok_unit_eq_ok]

theorem exec_acceptAdmin_ok :
    exec env (acceptAdmin M) fr = .ok (u, fr') ↔
      fr.store.initialized.isSome = true ∧
      ∃ p, fr.store.pendingAdmin = some p ∧ env.signs p = true ∧
        ∃ oldAdmin, M.readInstance fr.store.admin = .ok oldAdmin ∧
          fr' = ⟨{ fr.store with admin := some p, pendingAdmin := none },
            fr.events ++ [.admin oldAdmin p]⟩ := by
  simp only [acceptAdmin, exec_ensureInitialized_bind, exec_get_bind, exec_require_bind,
    exec_unwrapOptimized_bind, exec_requireAuth_bind, exec_getAdmin_bind, exec_modify_bind,
    exec_bumpInstance_bind, exec_publish, guard_eq_ok, bind_eq_ok, elim_eq_ok, ok_unit_eq_ok]
  constructor
  · intro h
    obtain ⟨hi, _, p, hp, hs, a, ha, hfr⟩ := h
    exact ⟨hi, p, hp, hs, a, ha, hfr⟩
  · intro h
    obtain ⟨hi, p, hp, hs, a, ha, hfr⟩ := h
    exact ⟨hi, by rw [hp]; rfl, p, hp, hs, a, ha, hfr⟩

end Specs

/-! ## The effect of a successful call -/

/-- The calls that only read. -/
def Call.IsView : Call A → Prop
  | .isInitialized | .schemaVersion | .getConfig | .getPendingAdmin => True
  | _ => False

/-- The call is `initialize`. -/
def Call.initializes : Call A → Bool
  | .initializeContract .. => true
  | _ => false

theorem initializes_of_isView {c : Call A} (reads : c.IsView) : c.initializes = false := by
  cases c with
  | initializeContract => exact absurd reads id
  | _ => rfl

theorem readOnly_ensureInitialized : (ensureInitialized : Program A Unit).ReadOnly :=
  (readOnly_get _).bind fun _ => readOnly_require _ _

theorem readOnly_dispatch [DecidableEq A] {M : Missing} {c : Call A} (hc : c.IsView) :
    (dispatch M c).ReadOnly := by
  cases c with
  | isInitialized => exact (readOnly_get _).bind fun _ => readOnly_pure _
  | schemaVersion =>
    refine Prog.ReadOnly.bind ?_ fun _ => readOnly_pure _
    refine readOnly_ensureInitialized.bind fun _ => (readOnly_pure ()).bind fun _ => ?_
    exact (readOnly_get _).bind fun _ => readOnly_pure _
  | getConfig =>
    refine Prog.ReadOnly.bind ?_ fun _ => readOnly_pure _
    refine readOnly_ensureInitialized.bind fun _ => (readOnly_pure ()).bind fun _ => ?_
    refine (readOnly_get _).bind fun _ => (readOnly_lift _).bind fun _ => ?_
    refine (readOnly_get _).bind fun _ => (readOnly_unwrapOptimized _).bind fun _ => ?_
    exact (readOnly_get _).bind fun _ => (readOnly_unwrapOptimized _).bind fun _ =>
      readOnly_pure _
  | getPendingAdmin => exact (readOnly_get _).bind fun _ => readOnly_pure _
  | _ => exact absurd hc id

/-- What a successful call did: the guards it passed, what it returned, the
storage it left and the events it published. -/
inductive Effect [DecidableEq A] (M : Missing) (env : Env A Empty ProtocolError)
    (s : Store A) : Call A → Ret A → Store A → List (Event A) → Prop
  | initializeContract {admin treasury : A} {feeBps : UInt32} (signed : env.signs admin = true)
      (fresh : s.initialized = none) (pinned : s.pinnedAdmin = some admin)
      (bps : feeBps ≤ maxBps) :
      Effect M env s (.initializeContract admin treasury feeBps) .unit
        (s.configure admin treasury feeBps) [.init admin ⟨admin, treasury, feeBps⟩]
  | setFeeBps {admin : A} {feeBps : UInt32} (live : s.initialized.isSome = true)
      (isAdmin : M.readInstance s.admin = .ok admin) (signed : env.signs admin = true)
      (bps : feeBps ≤ maxBps) :
      Effect M env s (.setFeeBps feeBps) .unit { s with feeBps := some feeBps }
        [.fee admin feeBps]
  | setTreasury {admin treasury : A} (live : s.initialized.isSome = true)
      (isAdmin : M.readInstance s.admin = .ok admin) (signed : env.signs admin = true) :
      Effect M env s (.setTreasury treasury) .unit { s with treasury := some treasury }
        [.treasury admin treasury]
  | transferAdmin {admin newAdmin : A} (live : s.initialized.isSome = true)
      (isAdmin : M.readInstance s.admin = .ok admin) (signed : env.signs admin = true) :
      Effect M env s (.transferAdmin newAdmin) .unit { s with pendingAdmin := some newAdmin }
        [.propose admin newAdmin]
  | acceptAdmin {oldAdmin p : A} (live : s.initialized.isSome = true)
      (pending : s.pendingAdmin = some p) (signed : env.signs p = true)
      (isAdmin : M.readInstance s.admin = .ok oldAdmin) :
      Effect M env s .acceptAdmin .unit { s with admin := some p, pendingAdmin := none }
        [.admin oldAdmin p]
  | view {c : Call A} {r : Ret A} (reads : c.IsView) : Effect M env s c r s []

section Cases

variable [DecidableEq A] {M : Missing} {env : Env A Empty ProtocolError} {s : Store A}

/-- Every successful call has one of the effects. -/
theorem effect_of_exec {c : Call A} {r : Ret A} {fr : Frame (Store A) (Event A)}
    (h : exec env (dispatch M c) ⟨s, []⟩ = .ok (r, fr)) :
    Effect M env s c r fr.store fr.events := by
  cases c with
  | initializeContract admin treasury feeBps =>
    obtain ⟨u, hu, rfl⟩ := exec_map_ok.mp h
    obtain ⟨hs, hi, hp, hb, rfl⟩ := exec_initializeContract_ok.mp hu
    exact .initializeContract hs hi hp hb
  | setFeeBps feeBps =>
    obtain ⟨u, hu, rfl⟩ := exec_map_ok.mp h
    obtain ⟨hi, a, ha, hs, hb, rfl⟩ := exec_setFeeBps_ok.mp hu
    exact .setFeeBps hi ha hs hb
  | setTreasury treasury =>
    obtain ⟨u, hu, rfl⟩ := exec_map_ok.mp h
    obtain ⟨hi, a, ha, hs, rfl⟩ := exec_setTreasury_ok.mp hu
    exact .setTreasury hi ha hs
  | transferAdmin newAdmin =>
    obtain ⟨u, hu, rfl⟩ := exec_map_ok.mp h
    obtain ⟨hi, a, ha, hs, rfl⟩ := exec_transferAdmin_ok.mp hu
    exact .transferAdmin hi ha hs
  | acceptAdmin =>
    obtain ⟨u, hu, rfl⟩ := exec_map_ok.mp h
    obtain ⟨hi, p, hp, hs, a, ha, rfl⟩ := exec_acceptAdmin_ok.mp hu
    exact .acceptAdmin hi hp hs ha
  | _ =>
    have heq : fr = ⟨s, []⟩ := by
      refine exec_readOnly (readOnly_dispatch ?_) h
      exact trivial
    rw [heq]
    exact .view trivial

/-- What a transaction does to the storage: nothing, or the effect of its
call. -/
theorem after_cases (M : Missing) (s : Store A) (tx : Tx A) :
    (¬ (stepOf (dispatch M) s tx).Succeeded ∧ after (dispatch M) s tx = s) ∨
    ∃ r evs, (stepOf (dispatch M) s tx).out.result = .ok r ∧
      Effect M tx.env s tx.call r (after (dispatch M) s tx) evs :=
  stepOf_effect effect_of_exec s tx

/-- When `initialize` succeeds, and what it leaves. -/
theorem initialize_lands {admin treasury : A} {feeBps : UInt32} :
    ((stepOf (dispatch M) s ⟨env, .initializeContract admin treasury feeBps⟩).Succeeded ↔
        env.signs admin = true ∧ s.initialized = none ∧ s.pinnedAdmin = some admin ∧
          feeBps ≤ maxBps) ∧
      (env.signs admin = true ∧ s.initialized = none ∧ s.pinnedAdmin = some admin ∧
          feeBps ≤ maxBps →
        after (dispatch M) s ⟨env, .initializeContract admin treasury feeBps⟩ =
          s.configure admin treasury feeBps) := by
  refine lands_iff [.init admin ⟨admin, treasury, feeBps⟩] rfl ?_
  intro u fr'
  rw [exec_initializeContract_ok]
  simp only [and_assoc, List.nil_append]

/-- Initialization is a gate: before it no other call gets past its checks. -/
theorem gate (M : Missing) :
    Gate (dispatch (A := A) M) (·.initialized.isSome) Call.initializes := by
  refine .of_effect effect_of_exec ?_
  intro env s s' c r evs h
  cases h with
  | initializeContract signed fresh => exact .raise (by rw [fresh]; rfl) rfl
  | view reads => exact initializes_of_isView reads ▸ .idle
  | _ => exact .pass (by assumption) (by assumption)

/-- Only the constructor writes the pin. -/
theorem pinnedAdmin_kept {s' : Store A} {c : Call A} {r : Ret A} {evs : List (Event A)}
    (h : Effect M env s c r s' evs) : s'.pinnedAdmin = s.pinnedAdmin := by
  cases h <;> rfl

/-! ## Reachable states -/

/-- An initialized contract: every key an entry point reads without a default
is present, and the fee is a valid one. -/
structure Live (pin : A) (s : Store A) : Prop where
  initialized : s.initialized.isSome = true
  pinned : s.pinnedAdmin = some pin
  admin : ∃ a, s.admin = some a
  treasury : ∃ a, s.treasury = some a
  feeBps : ∃ f : UInt32, s.feeBps = some f ∧ f ≤ maxBps

/-- Nothing but the pin is stored yet, or the contract is live. -/
def Reached (pin : A) (s : Store A) : Prop :=
  s = deployed pin ∨ Live pin s

variable {pin : A}

theorem live_after (M : Missing) (h : Live pin s) (tx : Tx A) :
    Live pin (after (dispatch M) s tx) := by
  rcases after_cases M s tx with ⟨_, heq⟩ | ⟨r, evs, _, heff⟩
  · rw [heq]
    exact h
  · generalize tx.call = c at heff
    generalize after (dispatch M) s tx = s' at heff ⊢
    cases heff with
    | initializeContract signed fresh =>
      have hinit := h.initialized
      rw [fresh] at hinit
      cases hinit
    | setFeeBps live isAdmin signed bps =>
      exact ⟨live, h.pinned, h.admin, h.treasury, _, rfl, bps⟩
    | setTreasury live => exact ⟨live, h.pinned, h.admin, ⟨_, rfl⟩, h.feeBps⟩
    | transferAdmin live => exact ⟨live, h.pinned, h.admin, h.treasury, h.feeBps⟩
    | acceptAdmin live => exact ⟨live, h.pinned, ⟨_, rfl⟩, h.treasury, h.feeBps⟩
    | view reads => exact h

/-- Before `initialize`, nothing but `initialize` changes anything. -/
theorem reached_after (M : Missing) (h : Reached pin s) (tx : Tx A) :
    Reached pin (after (dispatch M) s tx) := by
  rcases h with rfl | h
  · rcases after_cases M (deployed pin) tx with ⟨_, heq⟩ | ⟨r, evs, _, heff⟩
    · exact .inl heq
    · generalize tx.call = c at heff
      generalize after (dispatch M) (deployed pin) tx = s' at heff ⊢
      cases heff with
      | initializeContract signed fresh pinned bps =>
        exact .inr ⟨rfl, rfl, ⟨_, rfl⟩, ⟨_, rfl⟩, _, rfl, bps⟩
      | setFeeBps live => cases live
      | setTreasury live => cases live
      | transferAdmin live => cases live
      | acceptAdmin live => cases live
      | view reads => exact .inl rfl
  · exact .inr (live_after M h tx)

/-- Every state a run reaches from deployment is such a state. -/
theorem reachable (M : Missing) (pin : A) (txs : List (Tx A)) :
    Reached pin (run (dispatch M) (deployed pin) txs) :=
  run_invariant (fun _ tx h => reached_after M h tx) (.inl rfl)

end Cases

theorem Reached.live {pin : A} {s : Store A} (h : Reached pin s)
    (hinit : s.initialized.isSome = true) : Live pin s := by
  rcases h with rfl | h
  · cases hinit
  · exact h

end LilyContracts.Protocol
