import LilyContracts.Identity.Contract
import LilyContracts.Host.Latch

/-!
# What an identity call can do

The specification of each mutating entry point, and from them `Effect`: the
guards a successful call passed and the profile it wrote. `deactivate` has two
effects: on an active profile it writes, on an inactive one it returns having
changed nothing.
-/

namespace LilyContracts.Identity

open Host

variable {A : Type}

/-! ## The records and stores calls write -/

/-- Overwrite one agent's profile. -/
def Store.put [DecidableEq A] (s : Store A) (agent : A) (p : AgentProfile A) : Store A :=
  { s with profile := Function.update s.profile agent (some p) }

/-- What `initialize` writes. -/
def Store.configure (s : Store A) (admin : A) : Store A :=
  { s with admin := some admin, initialized := some true }

/-- The profile `update_profile` writes back. -/
def AgentProfile.update (p : AgentProfile A) (metadataUri : HostString)
    (newController : Option A) (revision : UInt64) : AgentProfile A :=
  { p with metadataUri, controller := newController.getD p.controller, revision }

/-- The events of an update: one for each of the two fields that changed. -/
def AgentProfile.updateEvents [DecidableEq A] (p : AgentProfile A) (agent : A)
    (metadataUri : HostString) (newController : Option A) : List (Event A) :=
  (if p.metadataUri ≠ metadataUri then [.metadataUpdated agent metadataUri] else []) ++
    if newController.any fun next => next ≠ p.controller then
      [.controllerRotated agent (newController.getD p.controller)]
    else []

section Put

variable [DecidableEq A] {s : Store A} {agent a : A} {p : AgentProfile A}

@[simp] theorem put_profile_self : (s.put agent p).profile agent = some p :=
  Function.update_self ..

theorem put_profile_of_ne (h : a ≠ agent) : (s.put agent p).profile a = s.profile a :=
  Function.update_of_ne h ..

end Put

/-! ## One specification per entry point -/

section Specs

variable {M : Missing} {env : Env A Empty ProtocolError} {fr fr' : Frame (Store A) (Event A)}
  {u : Unit}

@[simp] theorem exec_ensureInitialized_bind {β : Type} {g : Unit → Program A β} :
    exec env (ensureInitialized >>= g) fr =
      if fr.store.initialized.isSome then exec env (g ()) fr
      else .error (.contract .notInitialized) := by
  simp only [ensureInitialized, bind_assoc, exec_get_bind, exec_require_bind]

@[simp] theorem exec_getAdmin_bind {β : Type} {g : A → Program A β} :
    exec env (getAdmin >>= g) fr =
      fr.store.admin.elim (.error .trap) fun a => exec env (g a) fr := by
  simp only [getAdmin, bind_assoc, exec_get_bind, exec_unwrapOptimized_bind]

@[simp] theorem exec_getProfileInternal_bind {β : Type} {agent : A}
    {g : AgentProfile A → Program A β} :
    exec env (getProfileInternal agent >>= g) fr =
      (fr.store.profile agent).elim (.error (.contract .missingRecord)) fun p =>
        exec env (g p) fr := by
  simp only [getProfileInternal, bind_assoc, exec_get_bind, exec_unwrapOrPanic_bind]

theorem exec_initializeContract_ok {admin : A} :
    exec env (initializeContract admin) fr = .ok (u, fr') ↔
      env.signs admin = true ∧ fr.store.initialized = none ∧
      fr' = ⟨fr.store.configure admin, fr.events ++ [.init admin ⟨admin⟩]⟩ := by
  simp only [initializeContract, exec_requireAuth_bind, exec_get_bind, exec_require_bind,
    exec_requireAuthOrError_bind, exec_modify_bind, exec_bumpInstance_bind, exec_publish,
    guard_eq_ok, ok_unit_eq_ok, Store.configure]
  constructor
  · intro h
    obtain ⟨hs, hi, _, hfr⟩ := h
    exact ⟨hs, by simpa using hi, hfr⟩
  · intro h
    obtain ⟨hs, hi, hfr⟩ := h
    exact ⟨hs, by simp [hi], hs, hfr⟩

variable [DecidableEq A]

@[simp] theorem exec_setProfile_bind {β : Type} {agent : A} {p : AgentProfile A}
    {g : Unit → Program A β} :
    exec env (setProfile agent p >>= g) fr =
      exec env (g ()) { fr with store := fr.store.put agent p } := rfl

theorem exec_register_ok {agent controller : A} {uri : HostString} :
    exec env (register agent controller uri) fr = .ok (u, fr') ↔
      fr.store.initialized.isSome = true ∧ uri ≠ HostString.empty ∧
      fr.store.profile agent = none ∧ env.signs agent = true ∧
      fr' = ⟨fr.store.put agent ⟨controller, uri, true, 0⟩,
        fr.events ++ [.register agent ⟨controller, uri, true, 0⟩]⟩ := by
  simp only [register, exec_ensureInitialized_bind, exec_requireNonEmpty_bind, exec_get_bind,
    exec_require_bind, exec_requireAuthOrError_bind, exec_setProfile_bind, exec_bumpInstance_bind,
    exec_publish, guard_eq_ok, ok_unit_eq_ok, HostString.len_pos_iff]
  constructor
  · intro h
    obtain ⟨hi, hu, hp, hs, hfr⟩ := h
    exact ⟨hi, hu, by simpa using hp, hs, hfr⟩
  · intro h
    obtain ⟨hi, hu, hp, hs, hfr⟩ := h
    exact ⟨hi, hu, by simp [hp], hs, hfr⟩

omit [DecidableEq A] in
/-- The two conditional publications at the end of `update_profile`. -/
private theorem exec_publish_if {c d : Prop} [Decidable c] [Decidable d] {ev ev' : Event A} :
    exec env (do
      if c then publish ev
      if d then publish ev' : Program A Unit) fr =
    .ok ((), { fr with
      events := fr.events ++ ((if c then [ev] else []) ++ if d then [ev'] else []) }) := by
  by_cases hc : c <;> by_cases hd : d <;> simp [hc, hd]

theorem exec_updateProfile_ok {agent : A} {uri : HostString} {newController : Option A} :
    exec env (updateProfile M agent uri newController) fr = .ok (u, fr') ↔
      fr.store.initialized.isSome = true ∧ uri ≠ HostString.empty ∧
      ∃ p, fr.store.profile agent = some p ∧ p.active = true ∧ env.signs p.controller = true ∧
      ∃ revision, M.checkedInc p.revision = .ok revision ∧
        fr' = ⟨fr.store.put agent (p.update uri newController revision),
          fr.events ++ p.updateEvents agent uri newController⟩ := by
  simp only [updateProfile, exec_ensureInitialized_bind, exec_requireNonEmpty_bind,
    exec_getProfileInternal_bind, exec_require_bind, exec_requireAuthOrError_bind, exec_lift_bind,
    exec_setProfile_bind, exec_bumpInstance_bind, exec_publish_if, guard_eq_ok, elim_eq_ok,
    bind_eq_ok, ok_unit_eq_ok, HostString.len_pos_iff, AgentProfile.update,
    AgentProfile.updateEvents]

theorem exec_deactivate_ok {agent : A} :
    exec env (deactivate M agent) fr = .ok (u, fr') ↔
      fr.store.initialized.isSome = true ∧
      ∃ admin, fr.store.admin = some admin ∧ env.signs admin = true ∧
      ∃ p, fr.store.profile agent = some p ∧
        (p.active = false ∧ fr' = fr ∨
          p.active = true ∧ ∃ revision, M.checkedInc p.revision = .ok revision ∧
            fr' = ⟨fr.store.put agent { p with active := false, revision },
              fr.events ++ [.deact agent { p with active := false, revision }]⟩) := by
  simp only [deactivate, exec_ensureInitialized_bind, exec_getAdmin_bind,
    exec_requireAuthOrError_bind, exec_getProfileInternal_bind, guard_eq_ok, elim_eq_ok]
  refine and_congr_right fun _ => exists_congr fun a => and_congr_right fun _ =>
    and_congr_right fun _ => exists_congr fun p => and_congr_right fun _ => ?_
  cases hp : p.active with
  | true =>
    simp only [not_true_eq_false, if_false, exec_lift_bind, exec_setProfile_bind,
      exec_bumpInstance_bind, exec_publish, bind_eq_ok, ok_unit_eq_ok]
    simp
  | false =>
    rw [if_pos Bool.false_ne_true]
    show Except.ok ((), fr) = .ok (u, fr') ↔ _
    simp [eq_comm]

theorem exec_reactivate_ok {agent : A} :
    exec env (reactivate agent) fr = .ok (u, fr') ↔
      fr.store.initialized.isSome = true ∧
      ∃ admin, fr.store.admin = some admin ∧ env.signs admin = true ∧
      ∃ p, fr.store.profile agent = some p ∧ p.revision.toNat + 1 < 2 ^ 64 ∧
        fr' = ⟨fr.store.put agent { p with active := true, revision := p.revision + 1 },
          fr.events ++ [.react agent { p with active := true, revision := p.revision + 1 }]⟩ := by
  simp only [reactivate, exec_ensureInitialized_bind, exec_getAdmin_bind, exec_requireAuth_bind,
    exec_getProfileInternal_bind, exec_lift_bind, exec_setProfile_bind, exec_bumpInstance_bind,
    exec_publish, guard_eq_ok, elim_eq_ok, bind_eq_ok, ok_unit_eq_ok, overflowingInc_eq_ok,
    and_assoc]
  constructor
  · intro h
    obtain ⟨hi, a, ha, hs, p, hp, _, hlt, rfl, hfr⟩ := h
    exact ⟨hi, a, ha, hs, p, hp, hlt, hfr⟩
  · intro h
    obtain ⟨hi, a, ha, hs, p, hp, hlt, hfr⟩ := h
    exact ⟨hi, a, ha, hs, p, hp, _, hlt, rfl, hfr⟩

end Specs

/-! ## The effect of a successful call -/

/-- The calls that only read. -/
def Call.IsView : Call A → Prop
  | .isInitialized | .getProfile _ | .getProfileOpt _ => True
  | _ => False

/-- The call is `initialize`. -/
def Call.initializes : Call A → Bool
  | .initializeContract .. => true
  | _ => false

theorem initializes_of_isView {c : Call A} (reads : c.IsView) : c.initializes = false := by
  cases c with
  | initializeContract => exact absurd reads id
  | _ => rfl

theorem readOnly_ensureInitialized : (ensureInitialized : Program A Unit).ReadOnly :=
  (readOnly_get _).bind fun _ => readOnly_require _ _

theorem readOnly_dispatch [DecidableEq A] {M : Missing} {c : Call A} (hc : c.IsView) :
    (dispatch M c).ReadOnly := by
  cases c with
  | isInitialized => exact (readOnly_get _).bind fun _ => readOnly_pure _
  | getProfile agent =>
    refine Prog.ReadOnly.bind ?_ fun _ => readOnly_pure _
    refine readOnly_ensureInitialized.bind fun _ => (readOnly_pure ()).bind fun _ => ?_
    exact (readOnly_get _).bind fun _ => readOnly_unwrapOrPanic _ _
  | getProfileOpt agent =>
    refine Prog.ReadOnly.bind ?_ fun _ => readOnly_pure _
    exact readOnly_ensureInitialized.bind fun _ => (readOnly_pure ()).bind fun _ =>
      readOnly_get _
  | _ => exact absurd hc id

/-- What a successful call did: the guards it passed, what it returned, the
storage it left and the events it published. -/
inductive Effect [DecidableEq A] (M : Missing) (env : Env A Empty ProtocolError) (s : Store A) :
    Call A → Ret A → Store A → List (Event A) → Prop
  | initializeContract {admin : A} (signed : env.signs admin = true)
      (fresh : s.initialized = none) :
      Effect M env s (.initializeContract admin) .unit (s.configure admin) [.init admin ⟨admin⟩]
  | register {agent controller : A} {uri : HostString} (live : s.initialized.isSome = true)
      (uri_ne : uri ≠ HostString.empty) (unregistered : s.profile agent = none)
      (signed : env.signs agent = true) :
      Effect M env s (.register agent controller uri) .unit
        (s.put agent ⟨controller, uri, true, 0⟩) [.register agent ⟨controller, uri, true, 0⟩]
  | updateProfile {agent : A} {uri : HostString} {newController : Option A} {p : AgentProfile A}
      {revision : UInt64} (live : s.initialized.isSome = true) (uri_ne : uri ≠ HostString.empty)
      (stored : s.profile agent = some p) (active : p.active = true)
      (signed : env.signs p.controller = true) (inc : M.checkedInc p.revision = .ok revision) :
      Effect M env s (.updateProfile agent uri newController) .unit
        (s.put agent (p.update uri newController revision))
        (p.updateEvents agent uri newController)
  | deactivate {admin agent : A} {p : AgentProfile A} {revision : UInt64}
      (live : s.initialized.isSome = true) (isAdmin : s.admin = some admin)
      (signed : env.signs admin = true) (stored : s.profile agent = some p)
      (active : p.active = true) (inc : M.checkedInc p.revision = .ok revision) :
      Effect M env s (.deactivate agent) .unit (s.put agent { p with active := false, revision })
        [.deact agent { p with active := false, revision }]
  | deactivateInactive {admin agent : A} {p : AgentProfile A} (live : s.initialized.isSome = true)
      (isAdmin : s.admin = some admin) (signed : env.signs admin = true)
      (stored : s.profile agent = some p) (inactive : p.active = false) :
      Effect M env s (.deactivate agent) .unit s []
  | reactivate {admin agent : A} {p : AgentProfile A} (live : s.initialized.isSome = true)
      (isAdmin : s.admin = some admin) (signed : env.signs admin = true)
      (stored : s.profile agent = some p) (inc : p.revision.toNat + 1 < 2 ^ 64) :
      Effect M env s (.reactivate agent) .unit
        (s.put agent { p with active := true, revision := p.revision + 1 })
        [.react agent { p with active := true, revision := p.revision + 1 }]
  | view {c : Call A} {r : Ret A} (reads : c.IsView) : Effect M env s c r s []

section Cases

variable [DecidableEq A] {M : Missing} {env : Env A Empty ProtocolError} {s : Store A}

/-- Every successful call has one of the effects. -/
theorem effect_of_exec {c : Call A} {r : Ret A} {fr : Frame (Store A) (Event A)}
    (h : exec env (dispatch M c) ⟨s, []⟩ = .ok (r, fr)) :
    Effect M env s c r fr.store fr.events := by
  cases c with
  | initializeContract admin =>
    obtain ⟨u, hu, rfl⟩ := exec_map_ok.mp h
    obtain ⟨hs, hi, rfl⟩ := exec_initializeContract_ok.mp hu
    exact .initializeContract hs hi
  | register agent controller uri =>
    obtain ⟨u, hu, rfl⟩ := exec_map_ok.mp h
    obtain ⟨hi, hne, hp, hs, rfl⟩ := exec_register_ok.mp hu
    exact .register hi hne hp hs
  | updateProfile agent uri newController =>
    obtain ⟨u, hu, rfl⟩ := exec_map_ok.mp h
    obtain ⟨hi, hne, p, hp, ha, hs, r, hr, rfl⟩ := exec_updateProfile_ok.mp hu
    exact .updateProfile hi hne hp ha hs hr
  | deactivate agent =>
    obtain ⟨u, hu, rfl⟩ := exec_map_ok.mp h
    obtain ⟨hi, a, ha, hs, p, hp, hcase⟩ := exec_deactivate_ok.mp hu
    rcases hcase with ⟨hinactive, rfl⟩ | ⟨hactive, r, hr, rfl⟩
    · exact .deactivateInactive hi ha hs hp hinactive
    · exact .deactivate hi ha hs hp hactive hr
  | reactivate agent =>
    obtain ⟨u, hu, rfl⟩ := exec_map_ok.mp h
    obtain ⟨hi, a, ha, hs, p, hp, hr, rfl⟩ := exec_reactivate_ok.mp hu
    exact .reactivate hi ha hs hp hr
  | _ =>
    have heq : fr = ⟨s, []⟩ := by
      refine exec_readOnly (readOnly_dispatch ?_) h
      exact trivial
    rw [heq]
    exact .view trivial

/-- What a transaction does to the storage: nothing, or the effect of its
call. -/
theorem after_cases (M : Missing) (s : Store A) (tx : Tx A) :
    (¬ (stepOf (dispatch M) s tx).Succeeded ∧ after (dispatch M) s tx = s) ∨
    ∃ r evs, (stepOf (dispatch M) s tx).out.result = .ok r ∧
      Effect M tx.env s tx.call r (after (dispatch M) s tx) evs :=
  stepOf_effect effect_of_exec s tx

/-- When `initialize` succeeds, and what it leaves. -/
theorem initialize_lands {admin : A} :
    ((stepOf (dispatch M) s ⟨env, .initializeContract admin⟩).Succeeded ↔
        env.signs admin = true ∧ s.initialized = none) ∧
      (env.signs admin = true ∧ s.initialized = none →
        after (dispatch M) s ⟨env, .initializeContract admin⟩ =
          s.configure admin) := by
  refine lands_iff [.init admin ⟨admin⟩] rfl ?_
  intro u fr'
  rw [exec_initializeContract_ok]
  simp only [and_assoc, List.nil_append]

/-- Initialization is a gate: before it no other call gets past its checks. -/
theorem gate (M : Missing) :
    Gate (dispatch (A := A) M) (·.initialized.isSome) Call.initializes := by
  refine .of_effect effect_of_exec ?_
  intro env s s' c r evs h
  cases h with
  | initializeContract signed fresh => exact .raise (by rw [fresh]; rfl) rfl
  | view reads => exact initializes_of_isView reads ▸ .idle
  | _ => exact .pass (by assumption) (by assumption)

/-- Only `initialize` writes the admin. -/
theorem admin_kept {s' : Store A} {c : Call A} {r : Ret A} {evs : List (Event A)}
    (h : Effect M env s c r s' evs) (hc : c.initializes = false) : s'.admin = s.admin := by
  cases h with
  | initializeContract => cases hc
  | _ => rfl

/-- Initialized, the contract stores an admin. -/
theorem admin_stored (M : Missing) (pin : A) {txs : List (Tx A)}
    (hup : (run (dispatch M) (deployed pin) txs).initialized.isSome = true) :
    ∃ a, (run (dispatch M) (deployed pin) txs).admin = some a := by
  refine (gate M).open_run (K := fun s => ∃ a, s.admin = some a) effect_of_exec ?_ ?_ rfl hup
  · intro env s s' c r evs h hc
    cases h with
    | initializeContract => exact ⟨_, rfl⟩
    | view reads =>
      rw [initializes_of_isView reads] at hc
      cases hc
    | _ => cases hc
  · intro env s s' c r evs h hc hs
    rw [admin_kept h hc]
    exact hs

end Cases

end LilyContracts.Identity
