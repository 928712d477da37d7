import LilyContracts.Payments.Effects
import LilyContracts.Protocol.Effects
import LilyContracts.Wallet.Effects
import LilyContracts.Identity.Effects

/-!
# What an unauthorized caller can learn

A law about two runs: two calls of one gated function, made in the same state
under the same signatures, none of them the principal's, fail alike whatever
their other arguments are (`SameFailure`). It holds of a program when everything
before its signature check is independent of those arguments, so each function
gets the one fault its gate produces (`FailsWith`), read off the state alone.

Thirteen of the fourteen gated functions have such a gate. `set_fee_bps` of
payments validates the fee before it looks for the signature, where its sibling
in protocol does so after, and tells a stranger whether a fee would have been
accepted: its two faults agree exactly when both fees are acceptable or neither
is (`FeesAlike`).
-/

namespace LilyContracts

open Host

/-! ## Programs that fail before they look -/

section Fails

variable {σ A X Ev E C R α β : Type} {signs : A → Bool} {s : σ} {f : Fault E}

/-- In state `s`, under the signatures `signs`, the program fails with `f`
whatever else it finds around it. -/
def FailsWith (p : Prog σ A X Ev E α) (signs : A → Bool) (s : σ) (f : Fault E) : Prop :=
  ∀ env : Env A X E, env.signs = signs → exec env p ⟨s, []⟩ = .error f

/-- Two calls, made in state `s` under the signatures `signs`, fail with the same
error and leave the state as it was. -/
def SameFailure (prog : C → Prog σ A X Ev E R) (signs : A → Bool) (s : σ) (c c' : C) : Prop :=
  ∃ f, ∀ env : Env A X E, env.signs = signs →
    invoke (prog c) env s = ⟨.error f, s, []⟩ ∧ invoke (prog c') env s = ⟨.error f, s, []⟩

theorem FailsWith.bind {p : Prog σ A X Ev E α} (h : FailsWith p signs s f)
    (g : α → Prog σ A X Ev E β) : FailsWith (p >>= g) signs s f := by
  intro env henv
  rw [exec_bind, h env henv]
  rfl

theorem failsWith_requireAuth {a : A} (h : signs a = false)
    (g : Unit → Prog σ A X Ev E β) : FailsWith (requireAuth a >>= g) signs s .auth := by
  intro env henv
  rw [exec_requireAuth_bind, henv, if_neg (Bool.eq_false_iff.mp h)]

/-- The fault of a signature check, behind the look-up of whose signature it is. -/
def signatureFault : Except (Fault E) A → Fault E
  | .ok _ => .auth
  | .error f => f

theorem failsWith_signature {p : Prog σ A X Ev E A} {found : Except (Fault E) A}
    (hp : ∀ (env : Env A X E) (g : A → Prog σ A X Ev E β),
      exec env (p >>= g) ⟨s, []⟩ = found.bind fun a => exec env (g a) ⟨s, []⟩)
    (hsilent : ∀ a, found = .ok a → signs a = false) (k : A → Prog σ A X Ev E β) :
    FailsWith (p >>= fun a => requireAuth a >>= fun _ => k a) signs s (signatureFault found) := by
  intro env henv
  rw [hp]
  cases found with
  | error f => rfl
  | ok a => exact failsWith_requireAuth (hsilent a rfl) _ env henv

/-- Two programs with the same fault are not told apart. -/
theorem sameFailure_of {prog : C → Prog σ A X Ev E R} {c c' : C}
    (h : FailsWith (prog c) signs s f) (h' : FailsWith (prog c') signs s f) :
    SameFailure prog signs s c c' :=
  ⟨f, fun env henv => ⟨invoke_of_exec_error (h env henv), invoke_of_exec_error (h' env henv)⟩⟩

/-- Two programs with different faults are. -/
theorem fault_eq_of_sameFailure {prog : C → Prog σ A X Ev E R} {c c' : C} {f' : Fault E}
    (env : Env A X E) (henv : env.signs = signs) (h : FailsWith (prog c) signs s f)
    (h' : FailsWith (prog c') signs s f') (hsame : SameFailure prog signs s c c') : f = f' := by
  obtain ⟨g, hg⟩ := hsame
  obtain ⟨hc, hc'⟩ := hg env henv
  rw [invoke_of_exec_error (h env henv)] at hc
  rw [invoke_of_exec_error (h' env henv)] at hc'
  have hf : (Except.error f : Except (Fault E) R) = .error g := congrArg Outcome.result hc
  have hf' : (Except.error f' : Except (Fault E) R) = .error g := congrArg Outcome.result hc'
  exact (Except.error.inj hf).trans (Except.error.inj hf').symm

/-- The stored admin, if there is one, does not sign. -/
def AdminSilent (signs : A → Bool) (admin : Option A) : Prop :=
  ∀ a, admin = some a → signs a = false

/-- A check of the storage comes first, whatever the arguments are. -/
theorem failsWith_checked {flag : σ → Bool} {e : ProtocolError} {f : Fault ProtocolError}
    {g : Unit → Prog σ A X Ev ProtocolError β} (h : FailsWith (g ()) signs s f) :
    FailsWith ((do require (← get flag) e) >>= g) signs s
      (if flag s then f else .contract e) := by
  intro env henv
  rw [bind_assoc, exec_get_bind, exec_require_bind]
  by_cases hup : flag s = true
  · rw [if_pos hup, if_pos hup]
    exact h env henv
  · rw [if_neg hup, if_neg hup]

end Fails

/-! ## Protocol -/

namespace Protocol

variable {A : Type}

/-- Two calls of one gated function that agree on who has to sign, while that
principal does not. -/
inductive Gated (signs : A → Bool) (s : Store A) : Call A → Call A → Prop
  | initializeContract {admin treasury treasury' : A} {feeBps feeBps' : UInt32}
      (silent : signs admin = false) :
      Gated signs s (.initializeContract admin treasury feeBps)
        (.initializeContract admin treasury' feeBps')
  | setFeeBps {feeBps feeBps' : UInt32} (silent : AdminSilent signs s.admin) :
      Gated signs s (.setFeeBps feeBps) (.setFeeBps feeBps')
  | setTreasury {treasury treasury' : A} (silent : AdminSilent signs s.admin) :
      Gated signs s (.setTreasury treasury) (.setTreasury treasury')
  | transferAdmin {newAdmin newAdmin' : A} (silent : AdminSilent signs s.admin) :
      Gated signs s (.transferAdmin newAdmin) (.transferAdmin newAdmin')

variable {M : Missing} {signs : A → Bool} {s : Store A}

/-- What the calls of the admin start with. -/
theorem failsWith_gate (hM : M.ReadsInstance) (h : AdminSilent signs s.admin) {α : Type}
    (k : A → Program A α) :
    FailsWith (ensureInitialized >>= fun _ => getAdmin M >>= fun admin =>
      requireAuth admin >>= fun _ => k admin) signs s
      (if s.initialized.isSome then signatureFault (M.readInstance s.admin)
        else .contract .notInitialized) :=
  failsWith_checked (failsWith_signature (fun _ _ => exec_getAdmin_bind)
    (fun a ha => h a (hM.ok_iff.mp ha)) k)

variable [DecidableEq A]

theorem no_probing (hM : M.ReadsInstance) {c c' : Call A} (h : Gated signs s c c') :
    SameFailure (dispatch M) signs s c c' := by
  cases h with
  | initializeContract silent =>
    exact sameFailure_of ((failsWith_requireAuth silent _).bind _)
      ((failsWith_requireAuth silent _).bind _)
  | setFeeBps silent =>
    exact sameFailure_of ((failsWith_gate hM silent _).bind _) ((failsWith_gate hM silent _).bind _)
  | setTreasury silent =>
    exact sameFailure_of ((failsWith_gate hM silent _).bind _) ((failsWith_gate hM silent _).bind _)
  | transferAdmin silent =>
    exact sameFailure_of ((failsWith_gate hM silent _).bind _) ((failsWith_gate hM silent _).bind _)

end Protocol

/-! ## Identity and wallet -/

namespace Identity

variable {A : Type}

/-- Two calls of one gated function that agree on who has to sign, while that
principal does not. (`initialize` has no other argument to vary.) -/
inductive Gated (signs : A → Bool) (s : Store A) : Call A → Call A → Prop
  | initializeContract {admin : A} (silent : signs admin = false) :
      Gated signs s (.initializeContract admin) (.initializeContract admin)
  | deactivate {agent agent' : A} (silent : AdminSilent signs s.admin) :
      Gated signs s (.deactivate agent) (.deactivate agent')
  | reactivate {agent agent' : A} (silent : AdminSilent signs s.admin) :
      Gated signs s (.reactivate agent) (.reactivate agent')

variable {M : Missing} {signs : A → Bool} {s : Store A}

/-- What the calls of the admin start with. -/
theorem failsWith_gate (h : AdminSilent signs s.admin) {α : Type} (k : A → Program A α) :
    FailsWith (ensureInitialized >>= fun _ => getAdmin >>= fun admin =>
      requireAuth admin >>= fun _ => k admin) signs s
      (if s.initialized.isSome then signatureFault (s.admin.elim (.error .trap) .ok)
        else .contract .notInitialized) := by
  refine failsWith_checked (failsWith_signature ?_ ?_ k)
  · intro env g
    rw [exec_getAdmin_bind]
    cases s.admin with
    | none => rfl
    | some a => rfl
  · intro a ha
    obtain ⟨b, hb, hok⟩ := elim_eq_ok.mp ha
    cases hok
    exact h a hb

variable [DecidableEq A]

theorem no_probing (M : Missing) {c c' : Call A} (h : Gated signs s c c') :
    SameFailure (dispatch M) signs s c c' := by
  cases h with
  | initializeContract silent =>
    exact sameFailure_of ((failsWith_requireAuth silent _).bind _)
      ((failsWith_requireAuth silent _).bind _)
  | deactivate silent =>
    exact sameFailure_of ((failsWith_gate silent _).bind _) ((failsWith_gate silent _).bind _)
  | reactivate silent =>
    exact sameFailure_of ((failsWith_gate silent _).bind _) ((failsWith_gate silent _).bind _)

end Identity

namespace Wallet

variable {A : Type}

/-- Two calls of one gated function that agree on who has to sign, while that
principal does not. (`initialize` has no other argument to vary.) -/
inductive Gated (signs : A → Bool) (s : Store A) : Call A → Call A → Prop
  | initializeContract {admin : A} (silent : signs admin = false) :
      Gated signs s (.initializeContract admin) (.initializeContract admin)
  | adminDeactivate {agent agent' : A} (silent : AdminSilent signs s.admin) :
      Gated signs s (.adminDeactivate agent) (.adminDeactivate agent')

variable {M : Missing} {signs : A → Bool} {s : Store A}

/-- What the calls of the admin start with. -/
theorem failsWith_gate (h : AdminSilent signs s.admin) {α : Type} (k : A → Program A α) :
    FailsWith (ensureInitialized >>= fun _ => getAdmin >>= fun admin =>
      requireAuth admin >>= fun _ => k admin) signs s
      (if s.initialized.isSome then signatureFault (s.admin.elim (.error .trap) .ok)
        else .contract .notInitialized) := by
  refine failsWith_checked (failsWith_signature ?_ ?_ k)
  · intro env g
    rw [exec_getAdmin_bind]
    cases s.admin with
    | none => rfl
    | some a => rfl
  · intro a ha
    obtain ⟨b, hb, hok⟩ := elim_eq_ok.mp ha
    cases hok
    exact h a hb

variable [DecidableEq A]

theorem no_probing (M : Missing) (nextRevision : NextRevision A) {c c' : Call A}
    (h : Gated signs s c c') : SameFailure (dispatch M nextRevision) signs s c c' := by
  cases h with
  | initializeContract silent =>
    exact sameFailure_of ((failsWith_requireAuth silent _).bind _)
      ((failsWith_requireAuth silent _).bind _)
  | adminDeactivate silent =>
    exact sameFailure_of ((failsWith_gate silent _).bind _) ((failsWith_gate silent _).bind _)

end Wallet

/-! ## Payments -/

namespace Payments

variable {A : Type}

/-- Two calls of one gated function that agree on who has to sign, while that
principal does not. -/
inductive Gated (signs : A → Bool) (s : Store A) : Call A → Call A → Prop
  | initializeContract {admin treasury treasury' wallet wallet' : A} {feeBps feeBps' : UInt32}
      (silent : signs admin = false) :
      Gated signs s (.initializeContract admin treasury feeBps wallet)
        (.initializeContract admin treasury' feeBps' wallet')
  | settleIntent {caller : A} {id id' : UInt64} {ref ref' : HostString}
      (silent : AdminSilent signs s.admin) :
      Gated signs s (.settleIntent caller id ref) (.settleIntent caller id' ref')
  | setFeeBps {feeBps feeBps' : UInt32} (silent : AdminSilent signs s.admin) :
      Gated signs s (.setFeeBps feeBps) (.setFeeBps feeBps')
  | setTreasury {treasury treasury' : A} (silent : AdminSilent signs s.admin) :
      Gated signs s (.setTreasury treasury) (.setTreasury treasury')
  | transferAdmin {newAdmin newAdmin' : A} (silent : AdminSilent signs s.admin) :
      Gated signs s (.transferAdmin newAdmin) (.transferAdmin newAdmin')

/-- Where two calls of `set_fee_bps` reach the fee check, the fees pass it both
or neither. -/
def FeesAlike (s : Store A) : Call A → Call A → Prop
  | .setFeeBps feeBps, .setFeeBps feeBps' =>
    s.initialized = none ∨ (feeBps ≤ maxBps ↔ feeBps' ≤ maxBps)
  | _, _ => True

/-- The fault of `set_fee_bps`, which depends on the fee. -/
def feeFault (M : Missing) (s : Store A) (feeBps : UInt32) : Fault ProtocolError :=
  if s.initialized.isSome then
    if feeBps ≤ maxBps then signatureFault (M.readInstance s.admin)
    else .contract .feeBpsTooHigh
  else .contract .notInitialized

/-- The fault of `settle_intent`, which depends on `caller` alone. -/
def settleFault [DecidableEq A] (M : Missing) (s : Store A) (caller : A) : Fault ProtocolError :=
  if s.initialized.isSome then
    match M.readInstance s.admin with
    | .ok admin => if caller = admin then .auth else .contract .unauthorized
    | .error f => f
  else .contract .notInitialized

variable {M : Missing} {signs : A → Bool} {s : Store A}

theorem failsWith_role (hM : M.ReadsInstance) (h : AdminSilent signs s.admin) {α : Type}
    (k : A → Program A α) :
    FailsWith (getAdmin M >>= fun admin => requireAuth admin >>= fun _ => k admin) signs s
      (signatureFault (M.readInstance s.admin)) :=
  failsWith_signature (fun _ _ => exec_getAdmin_bind) (fun a ha => h a (hM.ok_iff.mp ha)) k

/-- What `set_treasury` and `transfer_admin` start with. -/
theorem failsWith_gate (hM : M.ReadsInstance) (h : AdminSilent signs s.admin) {α : Type}
    (k : A → Program A α) :
    FailsWith (ensureInitialized >>= fun _ => getAdmin M >>= fun admin =>
      requireAuth admin >>= fun _ => k admin) signs s
      (if s.initialized.isSome then signatureFault (M.readInstance s.admin)
        else .contract .notInitialized) :=
  failsWith_checked (failsWith_role hM h k)

theorem failsWith_setFeeBps (hM : M.ReadsInstance) (h : AdminSilent signs s.admin)
    (feeBps : UInt32) : FailsWith (setFeeBps M feeBps) signs s (feeFault M s feeBps) := by
  refine failsWith_checked ?_
  intro env henv
  rw [exec_requireValidBps_bind]
  by_cases hb : feeBps ≤ maxBps
  · rw [if_pos hb, if_pos hb]
    exact failsWith_role hM h _ env henv
  · rw [if_neg hb, if_neg hb]

/-- The fee decides the fault, once the contract is initialized. -/
theorem feeFault_eq_iff (hM : M.ReadsInstance) {feeBps feeBps' : UInt32} :
    feeFault M s feeBps = feeFault M s feeBps' ↔
      s.initialized = none ∨ (feeBps ≤ maxBps ↔ feeBps' ≤ maxBps) := by
  -- behind the fee check the fault is never the fee check's own
  have hne : signatureFault (M.readInstance s.admin) ≠ .contract .feeBpsTooHigh := by
    cases s.admin with
    | none =>
      rw [hM.absent]
      nofun
    | some a =>
      rw [hM.present]
      nofun
  unfold feeFault
  cases hi : s.initialized with
  | none => simp
  | some b =>
    by_cases hb : feeBps ≤ maxBps
    · by_cases hb' : feeBps' ≤ maxBps
      · simp [hb, hb']
      · simp [hb, hb', hne]
    · by_cases hb' : feeBps' ≤ maxBps
      · simp [hb, hb', hne.symm]
      · simp [hb, hb']

variable [DecidableEq A]

theorem failsWith_settleIntent (hM : M.ReadsInstance) (h : AdminSilent signs s.admin)
    (caller : A) (id : UInt64) (ref : HostString) :
    FailsWith (settleIntent M caller id ref) signs s (settleFault M s caller) := by
  refine failsWith_checked ?_
  intro env henv
  rw [exec_getAdmin_bind]
  cases ha : M.readInstance s.admin with
  | error f => rfl
  | ok a =>
    -- the role check looks at `caller` and the storage only
    show exec env (requireCaller caller a >>= _) ⟨s, []⟩ = _
    rw [exec_requireCaller_bind]
    by_cases hc : caller = a
    · subst hc
      rw [if_pos rfl]
      simp only [if_true]
      exact failsWith_requireAuth (h caller (hM.ok_iff.mp ha)) _ env henv
    · rw [if_neg hc]
      simp only [if_neg hc]

theorem no_probing_iff (hM : M.ReadsInstance) {c c' : Call A} (h : Gated signs s c c') :
    SameFailure (dispatch M) signs s c c' ↔ FeesAlike s c c' := by
  cases h with
  | initializeContract silent =>
    exact iff_of_true (sameFailure_of ((failsWith_requireAuth silent _).bind _)
      ((failsWith_requireAuth silent _).bind _)) trivial
  | settleIntent silent =>
    exact iff_of_true (sameFailure_of ((failsWith_settleIntent hM silent _ _ _).bind _)
      ((failsWith_settleIntent hM silent _ _ _).bind _)) trivial
  | setTreasury silent =>
    exact iff_of_true (sameFailure_of ((failsWith_gate hM silent _).bind _)
      ((failsWith_gate hM silent _).bind _)) trivial
  | transferAdmin silent =>
    exact iff_of_true (sameFailure_of ((failsWith_gate hM silent _).bind _)
      ((failsWith_gate hM silent _).bind _)) trivial
  | @setFeeBps feeBps feeBps' silent =>
    show _ ↔ s.initialized = none ∨ (feeBps ≤ maxBps ↔ feeBps' ≤ maxBps)
    rw [← feeFault_eq_iff hM]
    have hc : FailsWith (dispatch M (.setFeeBps feeBps)) signs s (feeFault M s feeBps) :=
      (failsWith_setFeeBps hM silent feeBps).bind _
    have hc' : FailsWith (dispatch M (.setFeeBps feeBps')) signs s (feeFault M s feeBps') :=
      (failsWith_setFeeBps hM silent feeBps').bind _
    constructor
    · intro hsame
      exact fault_eq_of_sameFailure ⟨signs, 0, fun _ => .ok true⟩ rfl hc hc' hsame
    · intro heq
      exact sameFailure_of hc (heq.symm ▸ hc')

end Payments

/-! ## All four contracts -/

/-- **No probing**: in every state, two calls of one gated function without the
principal's signature fail alike and change nothing, in protocol, identity and
wallet always, in payments exactly when they are not two calls of `set_fee_bps`
with fees of which one is acceptable and the other is not. -/
theorem gated_calls_fail_alike {A : Type} [DecidableEq A] {M : Missing} (hM : M.ReadsInstance)
    (nextRevision : Wallet.NextRevision A) (signs : A → Bool) :
    (∀ s c c', Protocol.Gated signs s c c' → SameFailure (Protocol.dispatch M) signs s c c') ∧
    (∀ s c c', Identity.Gated signs s c c' → SameFailure (Identity.dispatch M) signs s c c') ∧
    (∀ s c c', Wallet.Gated signs s c c' →
      SameFailure (Wallet.dispatch M nextRevision) signs s c c') ∧
    (∀ s c c', Payments.Gated signs s c c' →
      (SameFailure (Payments.dispatch M) signs s c c' ↔ Payments.FeesAlike s c c')) :=
  ⟨fun _ _ _ h => Protocol.no_probing hM h, fun _ _ _ h => Identity.no_probing M h,
    fun _ _ _ h => Wallet.no_probing M nextRevision h,
    fun _ _ _ h => Payments.no_probing_iff hM h⟩

/-- A stranger's two settlements of the sample contract are not told apart. -/
theorem gated_calls_fail_alike_sample :
    SameFailure (Payments.dispatch .documented) (fun _ => false)
      (run (Payments.dispatch .documented) (Payments.deployed 0) [Payments.Sample.initializeTx])
      (.settleIntent 0 1 Payments.Sample.memo) (.settleIntent 0 7 HostString.empty) :=
  ((gated_calls_fail_alike Missing.documented_readsInstance Wallet.Sample.nextRevision
    fun _ => false).2.2.2 _ _ _ (.settleIntent fun _ _ => rfl)).mpr trivial

/-- A stranger without any signature learns from the error that 10001 basis
points are too many. -/
theorem setFeeBps_probed :
    ¬ SameFailure (Payments.dispatch .documented) (fun _ => false)
      (run (Payments.dispatch .documented) (Payments.deployed 0) [Payments.Sample.initializeTx])
      (.setFeeBps 10000) (.setFeeBps 10001) := by
  intro h
  obtain ⟨f, hf⟩ := h
  obtain ⟨h₁, h₂⟩ := hf ⟨fun _ => false, 0, fun _ => .ok true⟩ rfl
  have e₁ : (Except.error .auth : Except (Fault ProtocolError) (Payments.Ret Nat)) = .error f :=
    congrArg Outcome.result h₁
  have e₂ : (Except.error (.contract .feeBpsTooHigh) :
      Except (Fault ProtocolError) (Payments.Ret Nat)) = .error f := congrArg Outcome.result h₂
  rw [← e₂] at e₁
  cases e₁

end LilyContracts
