import LilyContracts.Host.Strict
import LilyContracts.Payments.Effects
import LilyContracts.Protocol.Effects
import LilyContracts.Wallet.Effects
import LilyContracts.Identity.Effects

/-!
# Signature checks on the Soroban 22 host

The host lets a frame authorize an address once for each authorization entry that
the transaction carries for it; here every address that signs has one. `initialize`
of every contract opens with `admin.require_auth()` and calls
`require_auth_or_error(&admin)` before it writes, which is the same check again: with
one entry for each address there is no caller, signature or argument with which it can
succeed. `bind_wallet` and `rebind_wallet` check the agent and then the wallet, which
are one address when an agent is bound to itself.

`authorization_passes_iff` says that this is all: of the calls that every required
address has signed and that pass their own checks, exactly those are not rejected
(`ChecksEachOnce`) that are none of the above, for every state and all arguments.
-/

namespace LilyContracts

open Host

section Common

variable {σ A X Ev β : Type} {seen : List A} {g : Unit → Prog σ A X Ev ProtocolError β}

@[simp] theorem authsFresh_require_bind (c : Prop) [Decidable c] (e : ProtocolError) :
    AuthsFresh seen (require c e >>= g) ↔ (c → AuthsFresh seen (g ())) := by
  unfold require
  split
  next h => simp [h]
  next h => exact ⟨fun _ hc => absurd hc h, fun _ => trivial⟩

@[simp] theorem execStrict_require_bind [DecidableEq A] {env : Env A X ProtocolError}
    {fr : Frame σ Ev} (c : Prop) [Decidable c] (e : ProtocolError) :
    execStrict env seen (require c e >>= g) fr =
      if c then execStrict env seen (g ()) fr else .error (.contract e) := by
  unfold require
  split
  next => rfl
  next => rfl

variable {C R : Type} (prog : C → Prog σ A X Ev ProtocolError R) (env : Env A X ProtocolError)
  (s : σ) (c : C)

/-- Every address the call requires has signed, and the call passes its own
checks: run without the rule, it returns. -/
def Acceptable : Prop := ∃ q, exec env (prog c) ⟨s, []⟩ = .ok q

/-- The rule rejects nothing: the call ends as it does without it. -/
def AuthorizationPasses [DecidableEq A] : Prop :=
  execStrict env [] (prog c) ⟨s, []⟩ = exec env (prog c) ⟨s, []⟩

/-- An acceptable call passes, or fails with `Auth`. -/
theorem passes_or_auth [DecidableEq A] {prog : C → Prog σ A X Ev ProtocolError R}
    {env : Env A X ProtocolError} {s : σ} {c : C} {once : Prop} (h : Acceptable prog env s c)
    (hpass : once → AuthsFresh [] (prog c))
    (hfail : ¬ once → ∀ q, execStrict env [] (prog c) ⟨s, []⟩ ≠ .ok q) :
    (AuthorizationPasses prog env s c ↔ once) ∧
      (¬ once → execStrict env [] (prog c) ⟨s, []⟩ = .error .auth) := by
  obtain ⟨q, hq⟩ := h
  refine ⟨⟨?_, ?_⟩, ?_⟩
  · intro heq
    by_contra hnot
    exact hfail hnot q (heq.trans hq)
  · intro honce
    exact execStrict_eq_exec (hpass honce) _
  · intro hnot
    rcases execStrict_cases hq with hok | hauth
    · exact absurd hok (hfail hnot q)
    · exact hauth

end Common

namespace Payments

variable {A : Type}

/-- The call checks each address at most once. -/
def Call.ChecksEachOnce : Call A → Prop
  | .initializeContract .. => False
  | _ => True

variable [DecidableEq A] {M : Missing}

theorem authsFresh_dispatch {c : Call A} (hc : c.ChecksEachOnce) :
    AuthsFresh [] (dispatch M c) := by
  cases c with
  | initializeContract => exact hc.elim
  | isInitialized => simp [dispatch, isInitialized]
  | schemaVersion => simp [dispatch, schemaVersion, ensureInitialized, bumpInstance]
  | getConfig => simp [dispatch, getConfig, ensureInitialized, bumpInstance]
  | getNextIntentId => simp [dispatch, getNextIntentId, ensureInitialized, bumpInstance]
  | createIntent => simp [dispatch, createIntent, ensureInitialized, requireNonEmpty, bumpInstance]
  | settleIntent =>
    simp only [dispatch, settleIntent, ensureInitialized, getAdmin, requireCaller,
      requireAuthOrError, NonReentrantGuard.acquire, requireNonEmpty, getIntentInternal,
      NonReentrantGuard.drop, bumpInstance, bind_assoc, pure_bind]
    simp
  | cancelIntent =>
    simp only [dispatch, cancelIntent, ensureInitialized, NonReentrantGuard.acquire,
      getIntentInternal, NonReentrantGuard.drop, bumpInstance, bind_assoc, pure_bind]
    simp
  | setFeeBps =>
    simp [dispatch, setFeeBps, ensureInitialized, getAdmin, requireValidBps, bumpInstance]
  | setTreasury => simp [dispatch, setTreasury, ensureInitialized, getAdmin, bumpInstance]
  | transferAdmin => simp [dispatch, transferAdmin, ensureInitialized, getAdmin, bumpInstance]
  | getIntent => simp [dispatch, getIntent, ensureInitialized, getIntentInternal, bumpInstance]
  | getIntentOpt => simp [dispatch, getIntentOpt, ensureInitialized, bumpInstance]

/-- `initialize` checks its admin a second time before it writes. -/
theorem execStrict_initializeContract {env : Env A (Query A) ProtocolError} {c : Call A}
    (hc : ¬ c.ChecksEachOnce) (s : Store A) (q : Ret A × Frame (Store A) (Event A)) :
    execStrict env [] (dispatch M c) ⟨s, []⟩ ≠ .ok q := by
  intro h
  cases c with
  | initializeContract admin =>
    simp only [dispatch, initializeContract, requireInitialAdmin, requireValidBps,
      requireAuthOrError, bind_assoc, execStrict_requireAuth_bind, execStrict_get_bind,
      execStrict_require_bind, execStrict_unwrapOptimized_bind, guard_eq_ok, elim_eq_ok] at h
    obtain ⟨_, _, _, _, _, _, ⟨_, hagain⟩, _⟩ := h
    exact hagain (List.mem_singleton.mpr rfl)
  | _ => exact absurd trivial hc

end Payments

namespace Protocol

variable {A : Type}

/-- The call checks each address at most once. -/
def Call.ChecksEachOnce : Call A → Prop
  | .initializeContract .. => False
  | _ => True

variable [DecidableEq A] {M : Missing}

theorem authsFresh_dispatch {c : Call A} (hc : c.ChecksEachOnce) :
    AuthsFresh [] (dispatch M c) := by
  cases c with
  | initializeContract => exact hc.elim
  | isInitialized => simp [dispatch, isInitialized]
  | schemaVersion => simp [dispatch, schemaVersion, ensureInitialized, bumpInstance]
  | getConfig => simp [dispatch, getConfig, ensureInitialized, bumpInstance]
  | getPendingAdmin => simp [dispatch, getPendingAdmin]
  | setFeeBps =>
    simp [dispatch, setFeeBps, ensureInitialized, getAdmin, requireAuthOrError, requireValidBps,
      bumpInstance]
  | setTreasury =>
    simp [dispatch, setTreasury, ensureInitialized, getAdmin, requireAuthOrError, bumpInstance]
  | transferAdmin =>
    simp [dispatch, transferAdmin, ensureInitialized, getAdmin, requireAuthOrError, bumpInstance]
  | acceptAdmin => simp [dispatch, acceptAdmin, ensureInitialized, getAdmin, bumpInstance]

/-- `initialize` checks its admin a second time before it writes. -/
theorem execStrict_initializeContract {env : Env A Empty ProtocolError} {c : Call A}
    (hc : ¬ c.ChecksEachOnce) (s : Store A) (q : Ret A × Frame (Store A) (Event A)) :
    execStrict env [] (dispatch M c) ⟨s, []⟩ ≠ .ok q := by
  intro h
  cases c with
  | initializeContract admin =>
    simp only [dispatch, initializeContract, requireInitialAdmin, requireValidBps,
      requireAuthOrError, bind_assoc, execStrict_requireAuth_bind, execStrict_get_bind,
      execStrict_require_bind, execStrict_unwrapOptimized_bind, guard_eq_ok, elim_eq_ok] at h
    obtain ⟨_, _, _, _, _, _, ⟨_, hagain⟩, _⟩ := h
    exact hagain (List.mem_singleton.mpr rfl)
  | _ => exact absurd trivial hc

end Protocol

namespace Identity

variable {A : Type}

/-- The call checks each address at most once. -/
def Call.ChecksEachOnce : Call A → Prop
  | .initializeContract _ => False
  | _ => True

variable [DecidableEq A] {M : Missing}

theorem authsFresh_dispatch {c : Call A} (hc : c.ChecksEachOnce) :
    AuthsFresh [] (dispatch M c) := by
  cases c with
  | initializeContract => exact hc.elim
  | isInitialized => simp [dispatch, isInitialized]
  | register =>
    simp [dispatch, register, ensureInitialized, requireNonEmpty, requireAuthOrError, setProfile,
      bumpInstance]
  | updateProfile =>
    simp [dispatch, updateProfile, ensureInitialized, requireNonEmpty, getProfileInternal,
      requireAuthOrError, setProfile, bumpInstance]
  | deactivate =>
    simp [dispatch, deactivate, ensureInitialized, getAdmin, requireAuthOrError,
      getProfileInternal, setProfile, bumpInstance]
  | reactivate =>
    simp [dispatch, reactivate, ensureInitialized, getAdmin, getProfileInternal, setProfile,
      bumpInstance]
  | getProfile => simp [dispatch, getProfile, ensureInitialized, getProfileInternal, bumpInstance]
  | getProfileOpt => simp [dispatch, getProfileOpt, ensureInitialized, bumpInstance]

/-- `initialize` checks its admin a second time before it writes. -/
theorem execStrict_initializeContract {env : Env A Empty ProtocolError} {c : Call A}
    (hc : ¬ c.ChecksEachOnce) (s : Store A) (q : Ret A × Frame (Store A) (Event A)) :
    execStrict env [] (dispatch M c) ⟨s, []⟩ ≠ .ok q := by
  intro h
  cases c with
  | initializeContract admin =>
    simp only [dispatch, initializeContract, requireAuthOrError, bind_assoc,
      execStrict_requireAuth_bind, execStrict_get_bind, execStrict_require_bind, guard_eq_ok] at h
    obtain ⟨_, _, ⟨_, hagain⟩, _⟩ := h
    exact hagain (List.mem_singleton.mpr rfl)
  | _ => exact absurd trivial hc

end Identity

namespace Wallet

variable {A : Type}

/-- The call checks each address at most once. -/
def Call.ChecksEachOnce : Call A → Prop
  | .initializeContract _ => False
  | .bindWallet agent wallet _ _ => agent ≠ wallet
  | .rebindWallet agent wallet _ _ => agent ≠ wallet
  | _ => True

variable [DecidableEq A] {M : Missing} {nextRevision : NextRevision A}

theorem authsFresh_dispatch {c : Call A} (hc : c.ChecksEachOnce) :
    AuthsFresh [] (dispatch M nextRevision c) := by
  cases c with
  | initializeContract => exact hc.elim
  | isInitialized => simp [dispatch, isInitialized]
  | bindWallet agent wallet =>
    have hne : wallet ≠ agent := Ne.symm hc
    simp [dispatch, bindWallet, ensureInitialized, requireAuthOrError, setBinding, bumpInstance,
      hne]
  | rebindWallet agent wallet =>
    have hne : wallet ≠ agent := Ne.symm hc
    simp [dispatch, rebindWallet, ensureInitialized, setBinding, bumpInstance, hne]
  | updateSpendLimit =>
    simp [dispatch, updateSpendLimit, ensureInitialized, requireAuthOrError, getBindingInternal,
      setBinding, bumpInstance]
  | setEnabled =>
    simp [dispatch, setEnabled, ensureInitialized, requireAuthOrError, getBindingInternal,
      setBinding, bumpInstance]
  | adminDeactivate =>
    simp [dispatch, adminDeactivate, ensureInitialized, getAdmin, getBindingInternal, setBinding,
      bumpInstance]
  | getBinding => simp [dispatch, getBinding, ensureInitialized, getBindingInternal, bumpInstance]
  | getBindingOpt => simp [dispatch, getBindingOpt, ensureInitialized, bumpInstance]

/-- `initialize` checks its admin twice, and an agent bound to itself is checked
as the agent and as the wallet. -/
theorem execStrict_twice {env : Env A Empty ProtocolError} {c : Call A}
    (hc : ¬ c.ChecksEachOnce) (s : Store A) (q : Ret A × Frame (Store A) (Event A)) :
    execStrict env [] (dispatch M nextRevision c) ⟨s, []⟩ ≠ .ok q := by
  intro h
  cases c with
  | initializeContract admin =>
    simp only [dispatch, initializeContract, requireAuthOrError, bind_assoc,
      execStrict_requireAuth_bind, execStrict_get_bind, execStrict_require_bind, guard_eq_ok] at h
    obtain ⟨_, _, ⟨_, hagain⟩, _⟩ := h
    exact hagain (List.mem_singleton.mpr rfl)
  | bindWallet agent wallet =>
    obtain rfl : agent = wallet := not_not.mp hc
    simp only [dispatch, bindWallet, ensureInitialized, requireAuthOrError, bind_assoc,
      execStrict_requireAuth_bind, execStrict_get_bind, execStrict_require_bind, guard_eq_ok] at h
    obtain ⟨_, _, _, ⟨_, hagain⟩, _⟩ := h
    exact hagain (List.mem_singleton.mpr rfl)
  | rebindWallet agent wallet =>
    obtain rfl : agent = wallet := not_not.mp hc
    simp only [dispatch, rebindWallet, ensureInitialized, bind_assoc,
      execStrict_requireAuth_bind, execStrict_get_bind, execStrict_require_bind, guard_eq_ok] at h
    obtain ⟨_, _, _, ⟨_, hagain⟩, _⟩ := h
    exact hagain (List.mem_singleton.mpr rfl)
  | _ => exact absurd trivial hc

end Wallet

/-! ## All four contracts -/

/-- **Exactly the calls that check each address once get through**: of the calls
that every required address has signed and that pass their own checks, in any
state and with any arguments, the others fail with `Auth`. -/
theorem authorization_passes_iff {A : Type} [DecidableEq A] (M : Missing)
    (nextRevision : Wallet.NextRevision A) :
    (∀ env s c, Acceptable (Payments.dispatch (A := A) M) env s c →
      (AuthorizationPasses (Payments.dispatch M) env s c ↔ c.ChecksEachOnce) ∧
      (¬ c.ChecksEachOnce →
        execStrict env [] (Payments.dispatch M c) ⟨s, []⟩ = .error .auth)) ∧
    (∀ env s c, Acceptable (Protocol.dispatch (A := A) M) env s c →
      (AuthorizationPasses (Protocol.dispatch M) env s c ↔ c.ChecksEachOnce) ∧
      (¬ c.ChecksEachOnce →
        execStrict env [] (Protocol.dispatch M c) ⟨s, []⟩ = .error .auth)) ∧
    (∀ env s c, Acceptable (Identity.dispatch (A := A) M) env s c →
      (AuthorizationPasses (Identity.dispatch M) env s c ↔ c.ChecksEachOnce) ∧
      (¬ c.ChecksEachOnce →
        execStrict env [] (Identity.dispatch M c) ⟨s, []⟩ = .error .auth)) ∧
    (∀ env s c, Acceptable (Wallet.dispatch M nextRevision) env s c →
      (AuthorizationPasses (Wallet.dispatch M nextRevision) env s c ↔ c.ChecksEachOnce) ∧
      (¬ c.ChecksEachOnce →
        execStrict env [] (Wallet.dispatch M nextRevision c) ⟨s, []⟩ = .error .auth)) := by
  refine ⟨?_, ?_, ?_, ?_⟩
  · intro env s c h
    exact passes_or_auth h Payments.authsFresh_dispatch fun hc =>
      Payments.execStrict_initializeContract hc s
  · intro env s c h
    exact passes_or_auth h Protocol.authsFresh_dispatch fun hc =>
      Protocol.execStrict_initializeContract hc s
  · intro env s c h
    exact passes_or_auth h Identity.authsFresh_dispatch fun hc =>
      Identity.execStrict_initializeContract hc s
  · intro env s c h
    exact passes_or_auth h Wallet.authsFresh_dispatch fun hc => Wallet.execStrict_twice hc s

/-- A `create_intent` passes, on a contract that was initialized without the
rule. -/
theorem authorization_passes_sample :
    AuthorizationPasses (Payments.dispatch .documented) Payments.Sample.createTx.env
      (run (Payments.dispatch .documented) (Payments.deployed 0) [Payments.Sample.initializeTx])
      Payments.Sample.createTx.call :=
  ((authorization_passes_iff .documented Wallet.Sample.nextRevision).1 _ _ _
    ⟨_, rfl⟩).1.mpr trivial

/-- Freshly deployed, with the pinned admin as argument and signer, one authorization
entry for each address and a fee within range, no contract can be initialized; and an
agent cannot be bound to itself. -/
theorem initialize_rejected :
    (Acceptable (Payments.dispatch .documented) Payments.Sample.initializeTx.env
        (Payments.deployed 0) Payments.Sample.initializeTx.call ∧
      execStrict Payments.Sample.initializeTx.env [] (Payments.dispatch .documented
        Payments.Sample.initializeTx.call) ⟨Payments.deployed 0, []⟩ = .error .auth) ∧
    (Acceptable (Protocol.dispatch .documented) Protocol.Sample.initializeTx.env
        (Protocol.deployed 0) Protocol.Sample.initializeTx.call ∧
      execStrict Protocol.Sample.initializeTx.env [] (Protocol.dispatch .documented
        Protocol.Sample.initializeTx.call) ⟨Protocol.deployed 0, []⟩ = .error .auth) ∧
    (Acceptable (Identity.dispatch .documented) Identity.Sample.initializeTx.env
        (Identity.deployed 0) Identity.Sample.initializeTx.call ∧
      execStrict Identity.Sample.initializeTx.env [] (Identity.dispatch .documented
        Identity.Sample.initializeTx.call) ⟨Identity.deployed 0, []⟩ = .error .auth) ∧
    (Acceptable (Wallet.dispatch .documented Wallet.Sample.nextRevision)
        Wallet.Sample.initializeTx.env (Wallet.deployed 0) Wallet.Sample.initializeTx.call ∧
      execStrict Wallet.Sample.initializeTx.env [] (Wallet.dispatch .documented
        Wallet.Sample.nextRevision Wallet.Sample.initializeTx.call)
        ⟨Wallet.deployed 0, []⟩ = .error .auth) ∧
    (Acceptable (Wallet.dispatch .documented Wallet.Sample.nextRevision)
        (Wallet.Sample.tx [1] (.bindWallet 1 1 "USDC" Wallet.Sample.limit)).env
        ((Wallet.deployed 0).configure 0) (.bindWallet 1 1 "USDC" Wallet.Sample.limit) ∧
      execStrict (Wallet.Sample.tx [1] (.bindWallet 1 1 "USDC" Wallet.Sample.limit)).env []
        (Wallet.dispatch .documented Wallet.Sample.nextRevision
          (.bindWallet 1 1 "USDC" Wallet.Sample.limit))
        ⟨(Wallet.deployed 0).configure 0, []⟩ = .error .auth) :=
  ⟨⟨⟨_, rfl⟩, rfl⟩, ⟨⟨_, rfl⟩, rfl⟩, ⟨⟨_, rfl⟩, rfl⟩, ⟨⟨_, rfl⟩, rfl⟩, ⟨⟨_, rfl⟩, rfl⟩⟩

end LilyContracts
