import LilyContracts.Host.Serial
import LilyContracts.Identity.Effects
import LilyContracts.Payments.Effects
import LilyContracts.Protocol.Effects
import LilyContracts.Wallet.Effects

/-!
# Which nests of calls are as good as a run

Every entry point of the four contracts first checks, reads and demands
signatures, and writes and publishes only after its last interaction
(`Defers`, one proof per contract). So on a host that permits reentry an entry
point is exposed only through what it reads early, and its `Alike` lists that:

* the initialization flag, for every call that checks it; it never changes back;
* the admin, for calls that demand the admin's signature; in wallet and identity
  it never changes either, once there is one;
* a record or a proposal, for the calls that check it before the signature.

`Wallet.nests_are_runs` has no condition left: wallet checks its records after its
last signature, so every nest of its calls, of any depth and width and with any
failures in it, is a run of top-level calls, and what holds of all runs holds on a
host with reentry too. For the other three the condition says which call must not
be overtaken by what (`Timely`), and nothing else is asked of the calls.

What is asked of the host is the one live store of `Host/Reentry.lean`. Initialized,
wallet and identity write nothing but persistent records, and their results need no
more than that those are shared; the roles and the fee of protocol, and the counter of
payments, are instance entries, and the results about these two say so.
-/

namespace LilyContracts

open Host

variable {σ A X Ev α β : Type}

/-! ## The shared checks, in either phase -/

section Common

variable {Alike : σ → σ → Prop} {gu : Unit → Prog σ A X Ev ProtocolError β}

theorem early_require (c : Prop) [Decidable c] (e : ProtocolError) :
    (require c e : Prog σ A X Ev ProtocolError Unit).Early Alike := by
  unfold require
  split
  next => trivial
  next => trivial

theorem early_requireCaller [DecidableEq A] (caller expected : A) :
    (requireCaller caller expected : Prog σ A X Ev ProtocolError Unit).Early Alike :=
  early_require _ _

/-- A call that starts by checking a flag, and is deferred after that. -/
theorem deferred_checked {flag : σ → Bool} {e : ProtocolError}
    (hflag : ∀ s s', Alike s s' → flag s = flag s') (hgu : (gu ()).Deferred Alike) :
    ((do require (← get flag) e) >>= gu : Prog σ A X Ev ProtocolError β).Deferred Alike :=
  ((early_get hflag).bind fun _ => early_require _ _).deferred fun _ => hgu

/-- A call that reads whose signature it demands, and does its work after that. -/
theorem deferred_signedBy {role : σ → α} {find : α → Prog σ A X Ev ProtocolError A}
    {ga : A → Prog σ A X Ev ProtocolError β}
    (hrole : ∀ s s', Alike s s' → role s = role s') (hfind : ∀ o, (find o).Early Alike)
    (hga : ∀ a, (ga a).Quiet) :
    ((do find (← get role)) >>= fun a => requireAuth a >>= fun _ => ga a).Deferred Alike :=
  ((early_get hrole).bind hfind).deferred fun a =>
    (early_requireAuth a).deferred fun _ => (hga a).deferred

@[simp] theorem quiet_require_bind (c : Prop) [Decidable c] (e : ProtocolError) :
    (require c e >>= gu : Prog σ A X Ev ProtocolError β).Quiet ↔ (c → (gu ()).Quiet) := by
  unfold require
  by_cases hc : c
  · simp [hc]
  · simp [hc, panicWithError, Bind.bind, Prog.bind, Prog.Quiet]

@[simp] theorem quiet_requireNonEmpty_bind (len : UInt32) :
    (requireNonEmpty len >>= gu : Prog σ A X Ev ProtocolError β).Quiet ↔
      (0 < len → (gu ()).Quiet) :=
  quiet_require_bind _ _

@[simp] theorem quiet_requireValidBps_bind (feeBps : UInt32) :
    (requireValidBps feeBps >>= gu : Prog σ A X Ev ProtocolError β).Quiet ↔
      (feeBps ≤ maxBps → (gu ()).Quiet) :=
  quiet_require_bind _ _

@[simp] theorem quiet_bumpInstance :
    (bumpInstance : Prog σ A X Ev ProtocolError Unit).Quiet ↔ True := Iff.rfl

@[simp] theorem quiet_bumpInstance_bind :
    (bumpInstance >>= gu : Prog σ A X Ev ProtocolError β).Quiet ↔ (gu ()).Quiet := Iff.rfl

@[simp] theorem quiet_acquire_bind [SymbolEntries σ] (key : Symbol)
    {g : NonReentrantGuard → Prog σ A X Ev ProtocolError β} :
    (NonReentrantGuard.acquire key >>= g).Quiet ↔
      ((∃ s : σ, SymbolEntries.entries s key = none) → (g ⟨key⟩).Quiet) := by
  unfold NonReentrantGuard.acquire
  simp

@[simp] theorem quiet_drop [SymbolEntries σ] (guard : NonReentrantGuard) :
    (guard.drop : Prog σ A X Ev ProtocolError Unit).Quiet ↔ True := by
  unfold NonReentrantGuard.drop
  simp

end Common

/-! ## Wallet -/

namespace Wallet

variable {A : Type}

/-- What the calls read before their last interaction. -/
def Alike (_ : Call A) (s s' : Store A) : Prop :=
  s.initialized.isSome = s'.initialized.isSome ∧ s.admin = s'.admin

variable [DecidableEq A] {M : Missing} {nextRevision : NextRevision A} {s : Store A}

theorem deferred_dispatch (c : Call A) : (dispatch M nextRevision c).Deferred (Alike c) := by
  cases c with
  | initializeContract admin =>
    refine Prog.Deferred.bind ?_ fun _ => trivial
    refine (early_requireAuth admin).deferred fun _ => ?_
    refine (early_get fun _ _ h => h.1).deferred fun _ => (early_require _ _).deferred fun _ => ?_
    refine (early_requireAuth admin).deferred fun _ => Prog.Quiet.deferred ?_
    simp
  | isInitialized =>
    refine Prog.Quiet.deferred ?_
    simp [dispatch, isInitialized]
  | bindWallet agent wallet =>
    refine Prog.Deferred.bind (deferred_checked (fun _ _ h => h.1) ?_) fun _ => trivial
    refine (early_require _ _).deferred fun _ => (early_requireAuth agent).deferred fun _ => ?_
    -- whether the agent is bound is looked at after the second signature
    refine (early_requireAuth wallet).deferred fun _ => Prog.Quiet.deferred ?_
    simp [setBinding]
  | rebindWallet agent wallet =>
    refine Prog.Deferred.bind (deferred_checked (fun _ _ h => h.1) ?_) fun _ => trivial
    refine (early_require _ _).deferred fun _ => (early_requireAuth agent).deferred fun _ => ?_
    refine (early_requireAuth wallet).deferred fun _ => Prog.Quiet.deferred ?_
    simp [setBinding]
  | updateSpendLimit agent =>
    refine Prog.Deferred.bind (deferred_checked (fun _ _ h => h.1) ?_) fun _ => trivial
    refine (early_require _ _).deferred fun _ => ?_
    refine (early_requireAuth agent).deferred fun _ => Prog.Quiet.deferred ?_
    simp [getBindingInternal, setBinding]
  | setEnabled agent =>
    refine Prog.Deferred.bind (deferred_checked (fun _ _ h => h.1) ?_) fun _ => trivial
    refine (early_requireAuth agent).deferred fun _ => Prog.Quiet.deferred ?_
    simp [getBindingInternal, setBinding]
  | adminDeactivate agent =>
    refine Prog.Deferred.bind (deferred_checked (fun _ _ h => h.1) ?_) fun _ => trivial
    refine deferred_signedBy (fun _ _ h => h.2) early_unwrapOptimized fun admin => ?_
    simp [getBindingInternal, setBinding]
  | getBinding =>
    refine Prog.Quiet.deferred ?_
    simp [dispatch, getBinding, ensureInitialized, getBindingInternal]
  | getBindingOpt =>
    refine Prog.Quiet.deferred ?_
    simp [dispatch, getBindingOpt, ensureInitialized]

theorem defers (M : Missing) (nextRevision : NextRevision A) :
    Defers (dispatch M nextRevision) Alike where
  deferred := deferred_dispatch
  refl _ _ := ⟨rfl, rfl⟩
  trans h h' := ⟨h.1.trans h'.1, h.2.trans h'.2⟩

/-- Once there is an admin, the flag and the admin stay. -/
theorem fixed_run (M : Missing) (nextRevision : NextRevision A)
    (hinit : s.initialized.isSome = true) (txs : List (Tx A)) :
    (run (dispatch M nextRevision) s txs).initialized.isSome = s.initialized.isSome ∧
      (run (dispatch M nextRevision) s txs).admin = s.admin :=
  ⟨((gate M nextRevision).kept_run hinit txs).trans hinit.symm,
    (gate M nextRevision).fixed_run effect_of_exec admin_kept hinit txs⟩

/-- **Wallet is safe to reenter**: from every initialized state that runs reach,
every nest of calls is a run of those of its calls that returned and were not
undone, in the order in which they returned: the same storage, the same answers,
the same events. -/
theorem nests_are_runs (M : Missing) (nextRevision : NextRevision A)
    (hinit : s.initialized.isSome = true)
    (acts : List (Host.Action A Empty ProtocolError (Call A))) :
    ∃ txs, (∀ tx ∈ txs, .enter tx ∈ acts) ∧
      Serial (dispatch M nextRevision) s txs
        ((Config.start s).play (dispatch M nextRevision) acts).world := by
  refine serial_play (P := fun _ _ _ _ => True) (defers M nextRevision) ?_
    (permitsAll_of_forall fun _ _ _ _ => trivial)
  intro tx _ l₁ l₂ _
  have h₁ := fixed_run M nextRevision hinit l₁
  have h₂ := fixed_run M nextRevision hinit l₂
  exact ⟨h₁.1.trans h₂.1.symm, h₁.2.trans h₂.2.symm⟩

namespace Sample

/-- While agent 1 binds wallet 5, inside the agent's own signature check, it binds
wallet 6; the outer call then finds the agent bound. -/
def nest : List (Host.Action Nat Empty ProtocolError (Call Nat)) :=
  [.enter bindTx, .enter (tx [1, 6] (.bindWallet 1 6 "USDC" limit)), .resume, .resume,
    .resume, .resume]

end Sample

theorem nests_are_runs_sample :
    let prog := dispatch .documented Sample.nextRevision
    let s := run prog (deployed 0) [Sample.initializeTx]
    ∃ txs, (∀ tx ∈ txs, .enter tx ∈ Sample.nest) ∧
      Serial prog s txs ((Config.start s).play prog Sample.nest).world :=
  nests_are_runs .documented Sample.nextRevision (by decide +kernel) Sample.nest

end Wallet

/-! ## Identity -/

namespace Identity

variable {A : Type}

/-- What a call checks of a profile before it has the signature it demands: an
update reads the profile it is about to overwrite, a registration that there is
none. -/
def SameProfile (s s' : Store A) : Call A → Prop
  | .register agent _ _ => (s.profile agent).isSome = (s'.profile agent).isSome
  | .updateProfile agent _ _ => s.profile agent = s'.profile agent
  | _ => True

/-- What the calls read before their last interaction. -/
def Alike (c : Call A) (s s' : Store A) : Prop :=
  s.initialized.isSome = s'.initialized.isSome ∧ s.admin = s'.admin ∧ SameProfile s s' c

/-- A call resumes only where the profile it checked is as it was. -/
def Timely : Condition (Store A) A Empty ProtocolError (Call A) :=
  fun tx _ seen s => SameProfile seen s tx.call

section Decidable

variable [DecidableEq A]

instance (s s' : Store A) : (c : Call A) → Decidable (SameProfile s s' c)
  | .register .. => inferInstanceAs (Decidable (_ = _))
  | .updateProfile .. => inferInstanceAs (Decidable (_ = _))
  | .initializeContract _ | .isInitialized | .deactivate _ | .reactivate _ => .isTrue trivial
  | .getProfile _ | .getProfileOpt _ => .isTrue trivial

instance (tx : Tx A) (n : Nat) (seen s : Store A) : Decidable (Timely tx n seen s) :=
  inferInstanceAs (Decidable (SameProfile seen s tx.call))

end Decidable

section Phases

variable {c : Call A}

theorem sameProfile_trans {s₁ s₂ s₃ : Store A} (h : SameProfile s₁ s₂ c)
    (h' : SameProfile s₂ s₃ c) : SameProfile s₁ s₃ c := by
  cases c with
  | register | updateProfile => exact Eq.trans h h'
  | _ => exact trivial

theorem sameProfile_refl (s : Store A) : SameProfile s s c := by
  cases c with
  | register | updateProfile => exact rfl
  | _ => exact trivial

end Phases

variable [DecidableEq A] {M : Missing} {s : Store A}

theorem deferred_dispatch (c : Call A) : (dispatch M c).Deferred (Alike c) := by
  cases c with
  | initializeContract admin =>
    refine Prog.Deferred.bind ?_ fun _ => trivial
    refine (early_requireAuth admin).deferred fun _ => ?_
    refine (early_get fun _ _ h => h.1).deferred fun _ => (early_require _ _).deferred fun _ => ?_
    refine (early_requireAuth admin).deferred fun _ => Prog.Quiet.deferred ?_
    simp
  | isInitialized =>
    refine Prog.Quiet.deferred ?_
    simp [dispatch, isInitialized]
  | register agent =>
    refine Prog.Deferred.bind (deferred_checked (fun _ _ h => h.1) ?_) fun _ => trivial
    refine (early_require _ _).deferred fun _ => ?_
    -- that there is no profile yet is checked before the agent's signature
    refine (early_get fun _ _ h => h.2.2).deferred fun _ => (early_require _ _).deferred fun _ => ?_
    refine (early_requireAuth agent).deferred fun _ => Prog.Quiet.deferred ?_
    simp [setProfile]
  | updateProfile agent =>
    refine Prog.Deferred.bind (deferred_checked (fun _ _ h => h.1) ?_) fun _ => trivial
    refine (early_require _ _).deferred fun _ => ?_
    -- the profile that is written back is read before the controller's signature
    refine Prog.Early.deferred ?_ fun profile => ?_
    · exact (early_get fun _ _ h => h.2.2).bind fun o => early_unwrapOrPanic _ o
    refine (early_require _ _).deferred fun _ => ?_
    refine (early_requireAuth _).deferred fun _ => Prog.Quiet.deferred ?_
    simp [setProfile]
  | deactivate agent =>
    refine Prog.Deferred.bind (deferred_checked (fun _ _ h => h.1) ?_) fun _ => trivial
    refine deferred_signedBy (fun _ _ h => h.2.1) early_unwrapOptimized fun admin => ?_
    simp [getProfileInternal, setProfile]
  | reactivate agent =>
    refine Prog.Deferred.bind (deferred_checked (fun _ _ h => h.1) ?_) fun _ => trivial
    refine deferred_signedBy (fun _ _ h => h.2.1) early_unwrapOptimized fun admin => ?_
    simp [getProfileInternal, setProfile]
  | getProfile =>
    refine Prog.Quiet.deferred ?_
    simp [dispatch, getProfile, ensureInitialized, getProfileInternal]
  | getProfileOpt =>
    refine Prog.Quiet.deferred ?_
    simp [dispatch, getProfileOpt, ensureInitialized]

theorem defers (M : Missing) : Defers (dispatch (A := A) M) Alike where
  deferred := deferred_dispatch
  refl _ s := ⟨rfl, rfl, sameProfile_refl s⟩
  trans h h' := ⟨h.1.trans h'.1, h.2.1.trans h'.2.1, sameProfile_trans h.2.2 h'.2.2⟩

/-- Once there is an admin, the flag and the admin stay. -/
theorem fixed_run (hinit : s.initialized.isSome = true) (txs : List (Tx A)) :
    (run (dispatch M) s txs).initialized.isSome = s.initialized.isSome ∧
      (run (dispatch M) s txs).admin = s.admin :=
  ⟨((gate M).kept_run hinit txs).trans hinit.symm,
    (gate M).fixed_run effect_of_exec admin_kept hinit txs⟩

/-- **Identity under reentry**: from every initialized state, every nest in which no
update of a profile, and no registration, resumes past a change of that very
profile is a run of the calls that returned and were not undone, in the order in
which they returned. -/
theorem profile_nests_are_runs (M : Missing) (hinit : s.initialized.isSome = true)
    {acts : List (Host.Action A Empty ProtocolError (Call A))}
    (htimely : (Config.start s).PermitsAll (dispatch M) Timely acts) :
    ∃ txs, (∀ tx ∈ txs, .enter tx ∈ acts) ∧
      Serial (dispatch M) s txs ((Config.start s).play (dispatch M) acts).world := by
  refine serial_play (defers M) ?_ htimely
  intro tx _ l₁ l₂ hsame
  have h₁ := fixed_run (M := M) hinit l₁
  have h₂ := fixed_run (M := M) hinit l₂
  exact ⟨h₁.1.trans h₂.1.symm, h₁.2.trans h₂.2.symm, hsame⟩

namespace Sample

/-- While the controller of agent 1 updates the profile, inside the controller's
signature check, agent 2 registers. -/
def nest : List (Host.Action Nat Empty ProtocolError (Call Nat)) :=
  [.enter rotateTx, .enter (tx [2] (.register 2 3 uri)), .resume, .resume]

/-- The same, but it is the admin who deactivates agent 1 in there. -/
def overtaken : List (Host.Action Nat Empty ProtocolError (Call Nat)) :=
  [.enter rotateTx, .enter (tx [0] (.deactivate 1)), .resume, .resume]

end Sample

theorem profile_nests_are_runs_sample :
    let s := run (dispatch .documented) (deployed 0) [Sample.initializeTx, Sample.registerTx]
    ∃ txs, (∀ tx ∈ txs, .enter tx ∈ Sample.nest) ∧
      Serial (dispatch .documented) s txs
        ((Config.start s).play (dispatch .documented) Sample.nest).world :=
  profile_nests_are_runs .documented (by decide +kernel) (by decide +kernel)

/-- What the condition keeps out: both calls of `overtaken` return, and the
deactivation is lost. -/
example :
    let s := run (dispatch .documented) (deployed 0) [Sample.initializeTx, Sample.registerTx]
    let w := ((Config.start s).play (dispatch .documented) Sample.overtaken).world
    w.log.length = 2 ∧ (w.frame.store.profile 1).any (·.active) = true := by
  decide +kernel

end Identity

/-! ## Protocol -/

namespace Protocol

variable {A : Type}

/-- What a call checks before it has the signature it demands: the admin whose
signature that is, or the proposal that is about to be accepted. -/
def SameRole (s s' : Store A) : Call A → Prop
  | .setFeeBps _ | .setTreasury _ | .transferAdmin _ => s.admin = s'.admin
  | .acceptAdmin => s.pendingAdmin = s'.pendingAdmin
  | _ => True

/-- What the calls read before their last interaction. -/
def Alike (c : Call A) (s s' : Store A) : Prop :=
  s.initialized.isSome = s'.initialized.isSome ∧ s.pinnedAdmin = s'.pinnedAdmin ∧
    SameRole s s' c

/-- A call resumes only under the admin, or with the proposal, that it read. -/
def Timely : Condition (Store A) A Empty ProtocolError (Call A) :=
  fun tx _ seen s => SameRole seen s tx.call

section Decidable

variable [DecidableEq A]

instance (s s' : Store A) : (c : Call A) → Decidable (SameRole s s' c)
  | .setFeeBps _ | .setTreasury _ | .transferAdmin _ => inferInstanceAs (Decidable (_ = _))
  | .acceptAdmin => inferInstanceAs (Decidable (_ = _))
  | .initializeContract .. | .isInitialized | .schemaVersion => .isTrue trivial
  | .getConfig | .getPendingAdmin => .isTrue trivial

instance (tx : Tx A) (n : Nat) (seen s : Store A) : Decidable (Timely tx n seen s) :=
  inferInstanceAs (Decidable (SameRole seen s tx.call))

end Decidable

section Phases

variable {c : Call A}

theorem sameRole_trans {s₁ s₂ s₃ : Store A} (h : SameRole s₁ s₂ c) (h' : SameRole s₂ s₃ c) :
    SameRole s₁ s₃ c := by
  cases c with
  | setFeeBps | setTreasury | transferAdmin | acceptAdmin => exact Eq.trans h h'
  | _ => exact trivial

theorem sameRole_refl (s : Store A) : SameRole s s c := by
  cases c with
  | setFeeBps | setTreasury | transferAdmin | acceptAdmin => exact rfl
  | _ => exact trivial

end Phases

variable [DecidableEq A] {M : Missing} {s : Store A}

theorem deferred_dispatch (c : Call A) : (dispatch M c).Deferred (Alike c) := by
  cases c with
  | initializeContract admin =>
    refine Prog.Deferred.bind ?_ fun _ => trivial
    refine (early_requireAuth admin).deferred fun _ => ?_
    refine (early_get fun _ _ h => h.1).deferred fun _ => (early_require _ _).deferred fun _ => ?_
    refine Prog.Early.deferred ?_ fun _ => ?_
    · refine (early_get fun _ _ h => h.2.1).bind fun o => (early_unwrapOptimized o).bind fun _ => ?_
      exact early_require _ _
    · refine (early_require _ _).deferred fun _ => ?_
      refine (early_requireAuth admin).deferred fun _ => Prog.Quiet.deferred ?_
      simp
  | isInitialized =>
    refine Prog.Quiet.deferred ?_
    simp [dispatch, isInitialized]
  | schemaVersion =>
    refine Prog.Quiet.deferred ?_
    simp [dispatch, schemaVersion, ensureInitialized]
  | getConfig =>
    refine Prog.Quiet.deferred ?_
    simp [dispatch, getConfig, ensureInitialized]
  | getPendingAdmin =>
    refine Prog.Quiet.deferred ?_
    simp [dispatch, getPendingAdmin]
  | setFeeBps feeBps =>
    refine Prog.Deferred.bind (deferred_checked (fun _ _ h => h.1) ?_) fun _ => trivial
    refine deferred_signedBy (fun _ _ h => h.2.2) (fun _ => early_lift _) fun admin => ?_
    simp
  | setTreasury treasury =>
    refine Prog.Deferred.bind (deferred_checked (fun _ _ h => h.1) ?_) fun _ => trivial
    refine deferred_signedBy (fun _ _ h => h.2.2) (fun _ => early_lift _) fun admin => ?_
    simp
  | transferAdmin newAdmin =>
    refine Prog.Deferred.bind (deferred_checked (fun _ _ h => h.1) ?_) fun _ => trivial
    refine deferred_signedBy (fun _ _ h => h.2.2) (fun _ => early_lift _) fun admin => ?_
    simp
  | acceptAdmin =>
    refine Prog.Deferred.bind (deferred_checked (fun _ _ h => h.1) ?_) fun _ => trivial
    refine (early_get fun _ _ h => congrArg Option.isSome h.2.2).deferred fun _ => ?_
    refine (early_require _ _).deferred fun _ => ?_
    refine (early_get fun _ _ h => h.2.2).deferred fun o => ?_
    refine (early_unwrapOptimized o).deferred fun pending => ?_
    refine (early_requireAuth pending).deferred fun _ => Prog.Quiet.deferred ?_
    simp [getAdmin]

theorem defers (M : Missing) : Defers (dispatch (A := A) M) Alike where
  deferred := deferred_dispatch
  refl _ s := ⟨rfl, rfl, sameRole_refl s⟩
  trans h h' := ⟨h.1.trans h'.1, h.2.1.trans h'.2.1, sameRole_trans h.2.2 h'.2.2⟩

/-- The flag, once set, and the pin stay. -/
theorem fixed_run (hinit : s.initialized.isSome = true) (txs : List (Tx A)) :
    (run (dispatch M) s txs).initialized.isSome = s.initialized.isSome ∧
      (run (dispatch M) s txs).pinnedAdmin = s.pinnedAdmin :=
  ⟨((gate M).kept_run hinit txs).trans hinit.symm,
    (gate M).fixed_run effect_of_exec (fun h _ => pinnedAdmin_kept h) hinit txs⟩

/-- **Protocol under reentry**, on a host whose nested and suspended frames share one
live instance store (all that protocol keeps is there): from every initialized state,
every nest in which no call of the admin resumes past a change of the admin, and no
acceptance past a change of the proposal, is a run of the calls that returned and were
not undone. -/
theorem role_nests_are_runs (M : Missing) (hinit : s.initialized.isSome = true)
    {acts : List (Host.Action A Empty ProtocolError (Call A))}
    (htimely : (Config.start s).PermitsAll (dispatch M) Timely acts) :
    ∃ txs, (∀ tx ∈ txs, .enter tx ∈ acts) ∧
      Serial (dispatch M) s txs ((Config.start s).play (dispatch M) acts).world := by
  refine serial_play (defers M) ?_ htimely
  intro tx _ l₁ l₂ hsame
  have h₁ := fixed_run (M := M) hinit l₁
  have h₂ := fixed_run (M := M) hinit l₂
  exact ⟨h₁.1.trans h₂.1.symm, h₁.2.trans h₂.2.symm, hsame⟩

namespace Sample

/-- While the admin proposes address 1, inside the admin's signature check, it sets
the fee. -/
def nest : List (Host.Action Nat Empty ProtocolError (Call Nat)) :=
  [.enter proposeTx, .enter (tx [0] (.setFeeBps 100)), .resume, .resume]

end Sample

theorem role_nests_are_runs_sample :
    let s := run (dispatch .documented) (deployed 0) [Sample.initializeTx]
    ∃ txs, (∀ tx ∈ txs, .enter tx ∈ Sample.nest) ∧
      Serial (dispatch .documented) s txs
        ((Config.start s).play (dispatch .documented) Sample.nest).world :=
  role_nests_are_runs .documented (by decide +kernel) (by decide +kernel)

end Protocol

/-! ## Payments -/

namespace Payments

variable {A : Type}

/-- What a call checks before it has the signature it demands: the admin whose
signature that is, or the record that a cancellation writes back. -/
def SameBasis (s s' : Store A) : Call A → Prop
  | .settleIntent .. | .setFeeBps _ | .setTreasury _ | .transferAdmin _ => s.admin = s'.admin
  | .cancelIntent id => s.intents id = s'.intents id
  | _ => True

/-- What the calls read before their last interaction. -/
def Alike (c : Call A) (s s' : Store A) : Prop :=
  s.initialized.isSome = s'.initialized.isSome ∧ s.pinnedAdmin = s'.pinnedAdmin ∧
    s.wallet = s'.wallet ∧ SameBasis s s' c

/-- A call resumes only under the admin it read, a cancellation only on the record it
read. -/
def OnBasis : Condition (Store A) A (Query A) ProtocolError (Call A) :=
  fun tx _ seen s => SameBasis seen s tx.call

section Decidable

variable [DecidableEq A]

instance (s s' : Store A) : (c : Call A) → Decidable (SameBasis s s' c)
  | .settleIntent .. | .setFeeBps _ | .setTreasury _ => inferInstanceAs (Decidable (_ = _))
  | .transferAdmin _ => inferInstanceAs (Decidable (_ = _))
  | .cancelIntent _ => inferInstanceAs (Decidable (_ = _))
  | .initializeContract .. | .createIntent .. | .isInitialized => .isTrue trivial
  | .schemaVersion | .getConfig | .getNextIntentId => .isTrue trivial
  | .getIntent _ | .getIntentOpt _ => .isTrue trivial

instance (tx : Tx A) (n : Nat) (seen s : Store A) : Decidable (OnBasis tx n seen s) :=
  inferInstanceAs (Decidable (SameBasis seen s tx.call))

end Decidable

section Phases

variable {c : Call A}

theorem sameBasis_trans {s₁ s₂ s₃ : Store A} (h : SameBasis s₁ s₂ c) (h' : SameBasis s₂ s₃ c) :
    SameBasis s₁ s₃ c := by
  cases c with
  | settleIntent | cancelIntent | setFeeBps | setTreasury | transferAdmin => exact Eq.trans h h'
  | _ => exact trivial

theorem sameBasis_refl (s : Store A) : SameBasis s s c := by
  cases c with
  | settleIntent | cancelIntent | setFeeBps | setTreasury | transferAdmin => exact rfl
  | _ => exact trivial

end Phases

variable [DecidableEq A] {M : Missing} {s : Store A}

theorem deferred_dispatch (c : Call A) : (dispatch M c).Deferred (Alike c) := by
  cases c with
  | initializeContract admin =>
    refine Prog.Deferred.bind ?_ fun _ => trivial
    refine (early_requireAuth admin).deferred fun _ => ?_
    refine (early_get fun _ _ h => h.1).deferred fun _ => (early_require _ _).deferred fun _ => ?_
    refine Prog.Early.deferred ?_ fun _ => ?_
    · refine (early_get fun _ _ h => h.2.1).bind fun o => (early_unwrapOptimized o).bind fun _ => ?_
      exact early_require _ _
    · refine (early_require _ _).deferred fun _ => ?_
      refine (early_requireAuth admin).deferred fun _ => Prog.Quiet.deferred ?_
      simp
  | createIntent payer =>
    refine Prog.Deferred.bind (deferred_checked (fun _ _ h => h.1) ?_) fun _ => trivial
    refine (early_require _ _).deferred fun _ => (early_require _ _).deferred fun _ => ?_
    refine (early_require _ _).deferred fun _ => (early_requireAuth payer).deferred fun _ => ?_
    -- of all it reads, only the wallet contract's address comes before the query
    refine (early_get fun _ _ h => h.2.2.1).deferred fun o => ?_
    refine (early_unwrapOrPanic _ o).deferred fun wallet => ?_
    refine (early_ask _).deferred fun _ => Prog.Quiet.deferred ?_
    simp
  | settleIntent caller =>
    refine Prog.Deferred.bind (deferred_checked (fun _ _ h => h.1) ?_) fun _ => trivial
    refine Prog.Early.deferred ?_ fun admin => ?_
    · exact (early_get fun _ _ h => h.2.2.2).bind fun _ => early_lift _
    · refine (early_requireCaller caller admin).deferred fun _ => ?_
      refine (early_requireAuth caller).deferred fun _ => Prog.Quiet.deferred ?_
      simp [getIntentInternal]
  | cancelIntent id =>
    refine Prog.Deferred.bind (deferred_checked (fun _ _ h => h.1) ?_) fun _ => trivial
    -- the record is read before its payer's signature
    refine Prog.Early.deferred ?_ fun i => ?_
    · exact (early_get fun _ _ h => h.2.2.2).bind fun o => early_unwrapOrPanic _ o
    · refine (early_requireAuth i.payerAgent).deferred fun _ => Prog.Quiet.deferred ?_
      simp
  | setFeeBps feeBps =>
    refine Prog.Deferred.bind (deferred_checked (fun _ _ h => h.1) ?_) fun _ => trivial
    refine (early_require _ _).deferred fun _ => ?_
    refine deferred_signedBy (fun _ _ h => h.2.2.2) (fun _ => early_lift _) fun admin => ?_
    simp
  | setTreasury treasury =>
    refine Prog.Deferred.bind (deferred_checked (fun _ _ h => h.1) ?_) fun _ => trivial
    refine deferred_signedBy (fun _ _ h => h.2.2.2) (fun _ => early_lift _) fun admin => ?_
    simp
  | transferAdmin newAdmin =>
    refine Prog.Deferred.bind (deferred_checked (fun _ _ h => h.1) ?_) fun _ => trivial
    refine deferred_signedBy (fun _ _ h => h.2.2.2) (fun _ => early_lift _) fun admin => ?_
    simp
  | isInitialized =>
    refine Prog.Quiet.deferred ?_
    simp [dispatch, isInitialized]
  | schemaVersion =>
    refine Prog.Quiet.deferred ?_
    simp [dispatch, schemaVersion, ensureInitialized]
  | getConfig =>
    refine Prog.Quiet.deferred ?_
    simp [dispatch, getConfig, ensureInitialized]
  | getNextIntentId =>
    refine Prog.Quiet.deferred ?_
    simp [dispatch, getNextIntentId, ensureInitialized]
  | getIntent =>
    refine Prog.Quiet.deferred ?_
    simp [dispatch, getIntent, ensureInitialized, getIntentInternal]
  | getIntentOpt =>
    refine Prog.Quiet.deferred ?_
    simp [dispatch, getIntentOpt, ensureInitialized]

theorem defers (M : Missing) : Defers (dispatch (A := A) M) Alike where
  deferred := deferred_dispatch
  refl _ s := ⟨rfl, rfl, rfl, sameBasis_refl s⟩
  trans h h' := ⟨h.1.trans h'.1, h.2.1.trans h'.2.1, h.2.2.1.trans h'.2.2.1,
    sameBasis_trans h.2.2.2 h'.2.2.2⟩

/-- The flag, once set, the pin and the wallet contract's address stay. -/
theorem fixed_run (hinit : s.initialized.isSome = true) (txs : List (Tx A)) :
    (run (dispatch M) s txs).initialized.isSome = s.initialized.isSome ∧
      (run (dispatch M) s txs).pinnedAdmin = s.pinnedAdmin ∧
      (run (dispatch M) s txs).wallet = s.wallet :=
  ⟨((gate M).kept_run hinit txs).trans hinit.symm,
    (gate M).fixed_run effect_of_exec (fun h _ => pinnedAdmin_kept h) hinit txs,
    (gate M).fixed_run effect_of_exec wallet_kept hinit txs⟩

/-- **Payments under reentry**, on a host whose nested and suspended frames share one
live instance store (the counter, the admin and the fee are there): from every
initialized state, every nest in which no call of the admin resumes past a change of
the admin, and no cancellation past a change of its record, is a run of the calls that
returned and were not undone, in the order in which they returned. On such a host
`create_intent` may be reentered by anything; with a counter of its own each, two
nested creations would take one id. -/
theorem ledger_nests_are_runs (M : Missing) (hinit : s.initialized.isSome = true)
    {acts : List (Host.Action A (Query A) ProtocolError (Call A))}
    (hbasis : (Config.start s).PermitsAll (dispatch M) OnBasis acts) :
    ∃ txs, (∀ tx ∈ txs, .enter tx ∈ acts) ∧
      Serial (dispatch M) s txs ((Config.start s).play (dispatch M) acts).world := by
  refine serial_play (defers M) ?_ hbasis
  intro tx _ l₁ l₂ hsame
  have h₁ := fixed_run (M := M) hinit l₁
  have h₂ := fixed_run (M := M) hinit l₂
  exact ⟨h₁.1.trans h₂.1.symm, h₁.2.1.trans h₂.2.1.symm, h₁.2.2.trans h₂.2.2.symm, hsame⟩

namespace Sample

/-- While agent 1 creates an intent, inside its signature check it creates another,
and inside the query to the wallet contract the admin settles that one. -/
def nest : List (Host.Action Nat (Query Nat) ProtocolError (Call Nat)) :=
  [.enter createTx, .enter createTx, .resume, .resume, .resume, .enter settleTx, .resume,
    .resume]

end Sample

theorem ledger_nests_are_runs_sample :
    let s := run (dispatch .documented) (deployed 0) [Sample.initializeTx]
    ∃ txs, (∀ tx ∈ txs, .enter tx ∈ Sample.nest) ∧
      Serial (dispatch .documented) s txs
        ((Config.start s).play (dispatch .documented) Sample.nest).world :=
  ledger_nests_are_runs .documented (by decide +kernel) (by decide +kernel)

end Payments

end LilyContracts
