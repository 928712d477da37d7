import LilyContracts.Host.History
import LilyContracts.Payments.Availability
import LilyContracts.Protocol.Effects
import LilyContracts.Wallet.Effects
import LilyContracts.Identity.Effects

/-!
# Initialization is all-or-nothing

Every entry point of every contract reads its configuration keys without a
default, trusting one check of `Initialized` at its head. The check stands for the
keys because `initialize` writes them all at once and no entry point takes one
away; the only key that is ever removed, protocol's `PendingAdmin`, is read behind
its own presence check.

`AllOrNothing` puts that as four laws about the runs of a contract from its
constructor. The last of them is about faults: a trap is always owed to something
else than an absent key, and `TrapsElsewhere` lists, call by call, what that can
be: the answer of another contract, an undefined helper on a present value, or a
counter at its bound. `initialization_all_or_nothing` proves the laws of all four
contracts.
-/

namespace LilyContracts

open Host

/-- What the laws are about, for one contract. -/
structure Deployment (σ A X Ev C R : Type) where
  prog : C → Prog σ A X Ev ProtocolError R
  /-- The storage the constructor leaves: the pin and nothing else. -/
  start : σ
  initialized : σ → Bool
  /-- The call is `initialize`. -/
  initializes : C → Bool
  /-- The call checks `Initialized`. -/
  Checked : C → Prop
  /-- Every instance key that an entry point reads without a default is there. -/
  Keys : σ → Prop
  /-- The call can trap on something else than an absent key. -/
  TrapsElsewhere : σ → Tx A X ProtocolError C → Prop

section Laws

variable {σ A X Ev C R : Type} (d : Deployment σ A X Ev C R)

namespace Deployment

/-- Initialization is all-or-nothing and happens once. -/
structure AllOrNothing : Prop where
  /-- `initialize` succeeds at most once. -/
  once : ∀ txs, (trace d.prog d.start txs).countP (·.does d.initializes) ≤ 1
  /-- Before it, nothing but the pin is stored, and every call that checks fails
  with `NotInitialized` and changes nothing. -/
  nothing : ∀ txs, d.initialized (run d.prog d.start txs) = false →
    run d.prog d.start txs = d.start ∧
    ∀ tx : Tx A X ProtocolError C, d.Checked tx.call →
      (stepOf d.prog (run d.prog d.start txs) tx).out =
        ⟨.error (.contract .notInitialized), d.start, []⟩
  /-- After it, every key is there. -/
  all : ∀ txs, d.initialized (run d.prog d.start txs) = true → d.Keys (run d.prog d.start txs)
  /-- No call of any run traps on an absent key. -/
  noTrap : ∀ txs (tx : Tx A X ProtocolError C),
    (stepOf d.prog (run d.prog d.start txs) tx).out.result = .error .trap →
      d.TrapsElsewhere (run d.prog d.start txs) tx

/-- The state of a deployment: as the constructor left it, or initialized with
every key. -/
def Phase (s : σ) : Prop :=
  s = d.start ∨ (d.initialized s = true ∧ d.Keys s)

variable {d}

/-- The laws follow from what single calls do. -/
theorem allOrNothing_of (hstart : d.initialized d.start = false)
    (hlatch : Latch d.prog d.initialized d.initializes)
    (hphase : ∀ txs, d.Phase (run d.prog d.start txs))
    (hchecked : ∀ tx : Tx A X ProtocolError C, d.Checked tx.call →
      (stepOf d.prog d.start tx).out = ⟨.error (.contract .notInitialized), d.start, []⟩)
    (htrap : ∀ s, d.Phase s → ∀ tx : Tx A X ProtocolError C,
      FaultsIn tx.env (fun f => f = .trap → d.TrapsElsewhere s tx) (d.prog tx.call) ⟨s, []⟩) :
    d.AllOrNothing where
  once := hlatch.once d.start
  nothing := by
    intro txs hflag
    rcases hphase txs with heq | ⟨hinit, _⟩
    · rw [heq]
      exact ⟨rfl, hchecked⟩
    · rw [hinit] at hflag
      cases hflag
  all := by
    intro txs hflag
    rcases hphase txs with heq | ⟨_, hkeys⟩
    · rw [heq, hstart] at hflag
      cases hflag
    · exact hkeys
  noTrap := by
    intro txs tx hf
    exact (htrap _ (hphase txs) tx).result hf rfl

end Deployment

end Laws

/-! ## Payments -/

namespace Payments

variable {A : Type}

/-- Every instance key that an entry point reads without a default is there. -/
def Store.HasKeys (s : Store A) : Prop :=
  (∃ a, s.pinnedAdmin = some a) ∧ (∃ a, s.admin = some a) ∧ (∃ a, s.treasury = some a) ∧
    (∃ f, s.feeBps = some f) ∧ (∃ n, s.nextIntentId = some n) ∧ ∃ a, s.wallet = some a

/-- The traps that an absent key has no part in: `create_intent` asks the stored
wallet and advances the stored counter. -/
def TrapsElsewhere (M : Missing) (s : Store A) (tx : Tx A) : Prop :=
  match tx.call with
  | .createIntent payer _ _ _ =>
    (∃ w, s.wallet = some w ∧ tx.env.answer (.hasActiveBinding w payer) = .error .trap) ∨
      ∃ n, s.nextIntentId = some n ∧ M.checkedInc n = .error .trap
  | _ => False

def Call.Checked : Call A → Prop
  | .initializeContract .. | .isInitialized => False
  | _ => True

variable [DecidableEq A]

def deployment (M : Missing) (pin : A) :
    Deployment (Store A) A (Query A) (Event A) (Call A) (Ret A) where
  prog := dispatch M
  start := deployed pin
  initialized s := s.initialized.isSome
  initializes := Call.initializes
  Checked := Call.Checked
  Keys := Store.HasKeys
  TrapsElsewhere := TrapsElsewhere M

variable {M : Missing} {pin : A}

theorem phase (txs : List (Tx A)) :
    (deployment M pin).Phase (run (dispatch M) (deployed pin) txs) := by
  rcases deployed_or_configured M pin txs with heq | h
  · exact .inl heq
  · exact .inr ⟨h.initialized, h.pinned, h.admin, h.treasury, h.feeBps, h.nextIntentId, h.wallet⟩

theorem not_initialized {tx : Tx A} (hc : tx.call.Checked) :
    (stepOf (dispatch M) (deployed pin) tx).out =
      ⟨.error (.contract .notInitialized), deployed pin, []⟩ := by
  obtain ⟨env, c⟩ := tx
  cases c with
  | initializeContract => exact hc.elim
  | isInitialized => exact hc.elim
  | _ => rfl

/-- With its two keys in place, `create_intent` fails on a check of its own, a
missing signature, the answer it gets or the counter. -/
theorem createIntent_faults {env : Env A (Query A) ProtocolError} {P : Fault ProtocolError → Prop}
    {s : Store A} {evs : List (Event A)} {payer payee w : A} {amount : I128} {memo : HostString}
    {n : UInt64} (hw : s.wallet = some w) (hn : s.nextIntentId = some n)
    (hcontract : ∀ e, P (.contract e)) (hauth : P .auth)
    (hanswer : ∀ f, env.answer (.hasActiveBinding w payer) = .error f → P f)
    (hinc : ∀ f, M.checkedInc n = .error f → P f) :
    FaultsIn env P (createIntent M payer payee amount memo) ⟨s, evs⟩ := by
  simp +contextual [createIntent, ensureInitialized, hw, hn, hcontract, hauth, hanswer, hinc]

theorem traps_elsewhere (hM : M.ReadsInstance) {s : Store A} (hs : (deployment M pin).Phase s)
    (tx : Tx A) :
    FaultsIn tx.env (fun f => f = .trap → TrapsElsewhere M s tx) (dispatch M tx.call) ⟨s, []⟩ := by
  obtain ⟨env, c⟩ := tx
  rcases hs with rfl | ⟨hinit, ⟨p, hp⟩, ⟨a, ha⟩, ⟨t, ht⟩, ⟨f, hf⟩, ⟨n, hn⟩, w, hw⟩
  · cases c with
    | initializeContract =>
      simp [dispatch, initializeContract, requireInitialAdmin, deployment, deployed]
    | isInitialized => simp [dispatch, isInitialized]
    | _ =>
      intro f hf htrap
      cases hf
      cases htrap
  · cases c with
    | initializeContract =>
      simp [dispatch, initializeContract, requireInitialAdmin, hp]
    | isInitialized => simp [dispatch, isInitialized]
    | schemaVersion => simp [dispatch, schemaVersion, ensureInitialized]
    | getConfig =>
      simp [dispatch, getConfig, ensureInitialized, ha, ht, hf, hM.present]
    | getNextIntentId =>
      simp [dispatch, getNextIntentId, ensureInitialized, hn, hM.present]
    | createIntent =>
      refine faultsIn_map.mpr (createIntent_faults hw hn ?_ ?_ ?_ ?_)
      · intro e htrap
        cases htrap
      · intro htrap
        cases htrap
      · intro f hf htrap
        exact .inl ⟨w, hw, htrap ▸ hf⟩
      · intro f hf htrap
        exact .inr ⟨n, hn, htrap ▸ hf⟩
    | settleIntent =>
      simp [dispatch, settleIntent, ensureInitialized, getAdmin, getIntentInternal, ha,
        hM.present]
    | cancelIntent =>
      simp [dispatch, cancelIntent, ensureInitialized, getIntentInternal]
    | setFeeBps =>
      simp [dispatch, setFeeBps, ensureInitialized, getAdmin, ha, hM.present]
    | setTreasury =>
      simp [dispatch, setTreasury, ensureInitialized, getAdmin, ha, hM.present]
    | transferAdmin =>
      simp [dispatch, transferAdmin, ensureInitialized, getAdmin, ha, hM.present]
    | getIntent =>
      simp [dispatch, getIntent, ensureInitialized, getIntentInternal]
    | getIntentOpt => simp [dispatch, getIntentOpt, ensureInitialized]

/-- Payments keeps the laws. -/
theorem allOrNothing (hM : M.ReadsInstance) (pin : A) : (deployment M pin).AllOrNothing :=
  Deployment.allOrNothing_of rfl (gate M).toLatch phase
    (fun _ => not_initialized) (fun _ => traps_elsewhere hM)

end Payments

/-! ## Protocol -/

namespace Protocol

variable {A : Type}

/-- Every instance key that an entry point reads without a default is there;
`PendingAdmin` is read behind a check of its own. -/
def Store.HasKeys (s : Store A) : Prop :=
  (∃ a, s.pinnedAdmin = some a) ∧ (∃ a, s.admin = some a) ∧ (∃ a, s.treasury = some a) ∧
    ∃ f, s.feeBps = some f

/-- The traps that an absent key has no part in: the undefined reader of the admin
may trap on an admin that is there. -/
def TrapsElsewhere (M : Missing) (s : Store A) (tx : Tx A) : Prop :=
  match tx.call with
  | .getConfig => ∃ a, s.admin = some a ∧ M.getAdminInternal (some a) = .error .trap
  | _ => False

def Call.Checked : Call A → Prop
  | .initializeContract .. | .isInitialized | .getPendingAdmin => False
  | _ => True

variable [DecidableEq A]

def deployment (M : Missing) (pin : A) :
    Deployment (Store A) A Empty (Event A) (Call A) (Ret A) where
  prog := dispatch M
  start := deployed pin
  initialized s := s.initialized.isSome
  initializes := Call.initializes
  Checked := Call.Checked
  Keys := Store.HasKeys
  TrapsElsewhere := TrapsElsewhere M

variable {M : Missing} {pin : A}

theorem phase (txs : List (Tx A)) :
    (deployment M pin).Phase (run (dispatch M) (deployed pin) txs) := by
  rcases reachable M pin txs with heq | h
  · exact .inl heq
  · obtain ⟨f, hf, _⟩ := h.feeBps
    exact .inr ⟨h.initialized, ⟨pin, h.pinned⟩, h.admin, h.treasury, f, hf⟩

theorem not_initialized {tx : Tx A} (hc : tx.call.Checked) :
    (stepOf (dispatch M) (deployed pin) tx).out =
      ⟨.error (.contract .notInitialized), deployed pin, []⟩ := by
  obtain ⟨env, c⟩ := tx
  cases c with
  | initializeContract => exact hc.elim
  | isInitialized => exact hc.elim
  | getPendingAdmin => exact hc.elim
  | _ => rfl

theorem traps_elsewhere (hM : M.ReadsInstance) {s : Store A} (hs : (deployment M pin).Phase s)
    (tx : Tx A) :
    FaultsIn tx.env (fun f => f = .trap → TrapsElsewhere M s tx) (dispatch M tx.call) ⟨s, []⟩ := by
  obtain ⟨env, c⟩ := tx
  rcases hs with rfl | ⟨_, ⟨p, hp⟩, ⟨a, ha⟩, ⟨t, ht⟩, f, hf⟩
  · cases c with
    | initializeContract =>
      simp [dispatch, initializeContract, requireInitialAdmin, deployment, deployed]
    | isInitialized => simp [dispatch, isInitialized]
    | getPendingAdmin => simp [dispatch, getPendingAdmin]
    | _ =>
      intro f hf htrap
      cases hf
      cases htrap
  · cases c with
    | initializeContract => simp [dispatch, initializeContract, requireInitialAdmin, hp]
    | isInitialized => simp [dispatch, isInitialized]
    | schemaVersion => simp [dispatch, schemaVersion, ensureInitialized]
    | getConfig => simp [dispatch, getConfig, ensureInitialized, ha, ht, hf, TrapsElsewhere]
    | getPendingAdmin => simp [dispatch, getPendingAdmin]
    | setFeeBps => simp [dispatch, setFeeBps, ensureInitialized, getAdmin, ha, hM.present]
    | setTreasury => simp [dispatch, setTreasury, ensureInitialized, getAdmin, ha, hM.present]
    | transferAdmin => simp [dispatch, transferAdmin, ensureInitialized, getAdmin, ha, hM.present]
    | acceptAdmin =>
      cases hnext : s.pendingAdmin with
      | none => simp [dispatch, acceptAdmin, ensureInitialized, hnext]
      | some next =>
        simp [dispatch, acceptAdmin, ensureInitialized, getAdmin, hnext, ha, hM.present]

/-- Protocol keeps the laws. -/
theorem allOrNothing (hM : M.ReadsInstance) (pin : A) : (deployment M pin).AllOrNothing :=
  Deployment.allOrNothing_of rfl (gate M).toLatch phase
    (fun _ => not_initialized) (fun _ => traps_elsewhere hM)

end Protocol

/-! ## Wallet -/

namespace Wallet

variable {A : Type}

/-- The one instance key that an entry point reads without a default is there. -/
def Store.HasKeys (s : Store A) : Prop :=
  ∃ a, s.admin = some a

/-- The traps that an absent key has no part in: every change of a stored binding
advances its revision, and `update_spend_limit` asks whether it is enabled. -/
def TrapsElsewhere (M : Missing) (nextRevision : NextRevision A) (s : Store A) (tx : Tx A) :
    Prop :=
  match tx.call with
  | .rebindWallet agent _ _ _ =>
    ∃ b, s.binding agent = some b ∧ nextRevision (some b) = .error .trap
  | .updateSpendLimit agent _ =>
    ∃ b, s.binding agent = some b ∧
      (M.requireEnabled b.enabled = .error .trap ∨ M.checkedInc b.revision = .error .trap)
  | .setEnabled agent _ =>
    ∃ b, s.binding agent = some b ∧ M.checkedInc b.revision = .error .trap
  | .adminDeactivate agent =>
    ∃ b, s.binding agent = some b ∧ overflowingInc b.revision = .error .trap
  | _ => False

def Call.Checked : Call A → Prop
  | .initializeContract .. | .isInitialized => False
  | _ => True

variable [DecidableEq A]

def deployment (M : Missing) (nextRevision : NextRevision A) (pin : A) :
    Deployment (Store A) A Empty (Event A) (Call A) (Ret A) where
  prog := dispatch M nextRevision
  start := deployed pin
  initialized s := s.initialized.isSome
  initializes := Call.initializes
  Checked := Call.Checked
  Keys := Store.HasKeys
  TrapsElsewhere := TrapsElsewhere M nextRevision

variable {M : Missing} {nextRevision : NextRevision A} {pin : A}

theorem phase (txs : List (Tx A)) :
    (deployment M nextRevision pin).Phase (run (dispatch M nextRevision) (deployed pin) txs) := by
  cases hup : (run (dispatch M nextRevision) (deployed pin) txs).initialized.isSome with
  | false => exact .inl ((gate M nextRevision).shut_run hup)
  | true => exact .inr ⟨hup, admin_stored M nextRevision pin hup⟩

theorem not_initialized {tx : Tx A} (hc : tx.call.Checked) :
    (stepOf (dispatch M nextRevision) (deployed pin) tx).out =
      ⟨.error (.contract .notInitialized), deployed pin, []⟩ := by
  obtain ⟨env, c⟩ := tx
  cases c with
  | initializeContract => exact hc.elim
  | isInitialized => exact hc.elim
  | _ => rfl

theorem traps_elsewhere {s : Store A} (hs : (deployment M nextRevision pin).Phase s)
    (tx : Tx A) :
    FaultsIn tx.env (fun f => f = .trap → TrapsElsewhere M nextRevision s tx)
      (dispatch M nextRevision tx.call) ⟨s, []⟩ := by
  obtain ⟨env, c⟩ := tx
  rcases hs with rfl | ⟨_, a, ha⟩
  · cases c with
    | initializeContract => simp [dispatch, initializeContract]
    | isInitialized => simp [dispatch, isInitialized]
    | _ =>
      intro f hf htrap
      cases hf
      cases htrap
  · cases c with
    | initializeContract => simp [dispatch, initializeContract]
    | isInitialized => simp [dispatch, isInitialized]
    | bindWallet => simp [dispatch, bindWallet, ensureInitialized, setBinding]
    | rebindWallet agent =>
      cases hb : s.binding agent with
      | none => simp [dispatch, rebindWallet, ensureInitialized, hb]
      | some b =>
        simp [dispatch, rebindWallet, ensureInitialized, setBinding, hb, TrapsElsewhere]
    | updateSpendLimit =>
      simp +contextual [dispatch, updateSpendLimit, ensureInitialized, getBindingInternal,
        setBinding, TrapsElsewhere]
    | setEnabled =>
      simp +contextual [dispatch, setEnabled, ensureInitialized, getBindingInternal, setBinding,
        TrapsElsewhere]
    | adminDeactivate =>
      simp +contextual [dispatch, adminDeactivate, ensureInitialized, getAdmin,
        getBindingInternal, setBinding, ha, TrapsElsewhere]
    | getBinding => simp [dispatch, getBinding, ensureInitialized, getBindingInternal]
    | getBindingOpt => simp [dispatch, getBindingOpt, ensureInitialized]

/-- Wallet keeps the laws. -/
theorem allOrNothing (M : Missing) (nextRevision : NextRevision A) (pin : A) :
    (deployment M nextRevision pin).AllOrNothing :=
  Deployment.allOrNothing_of rfl (gate M nextRevision).toLatch phase
    (fun _ => not_initialized) (fun _ => traps_elsewhere)

end Wallet

/-! ## Identity -/

namespace Identity

variable {A : Type}

/-- The one instance key that an entry point reads without a default is there. -/
def Store.HasKeys (s : Store A) : Prop :=
  ∃ a, s.admin = some a

/-- The traps that an absent key has no part in: every change of a stored profile
advances its revision. -/
def TrapsElsewhere (M : Missing) (s : Store A) (tx : Tx A) : Prop :=
  match tx.call with
  | .updateProfile agent _ _ | .deactivate agent =>
    ∃ p, s.profile agent = some p ∧ M.checkedInc p.revision = .error .trap
  | .reactivate agent =>
    ∃ p, s.profile agent = some p ∧ overflowingInc p.revision = .error .trap
  | _ => False

def Call.Checked : Call A → Prop
  | .initializeContract .. | .isInitialized => False
  | _ => True

variable [DecidableEq A]

def deployment (M : Missing) (pin : A) :
    Deployment (Store A) A Empty (Event A) (Call A) (Ret A) where
  prog := dispatch M
  start := deployed pin
  initialized s := s.initialized.isSome
  initializes := Call.initializes
  Checked := Call.Checked
  Keys := Store.HasKeys
  TrapsElsewhere := TrapsElsewhere M

variable {M : Missing} {pin : A}

theorem phase (txs : List (Tx A)) :
    (deployment M pin).Phase (run (dispatch M) (deployed pin) txs) := by
  cases hup : (run (dispatch M) (deployed pin) txs).initialized.isSome with
  | false => exact .inl ((gate M).shut_run hup)
  | true => exact .inr ⟨hup, admin_stored M pin hup⟩

theorem not_initialized {tx : Tx A} (hc : tx.call.Checked) :
    (stepOf (dispatch M) (deployed pin) tx).out =
      ⟨.error (.contract .notInitialized), deployed pin, []⟩ := by
  obtain ⟨env, c⟩ := tx
  cases c with
  | initializeContract => exact hc.elim
  | isInitialized => exact hc.elim
  | _ => rfl

theorem traps_elsewhere {s : Store A} (hs : (deployment M pin).Phase s) (tx : Tx A) :
    FaultsIn tx.env (fun f => f = .trap → TrapsElsewhere M s tx) (dispatch M tx.call) ⟨s, []⟩ := by
  obtain ⟨env, c⟩ := tx
  rcases hs with rfl | ⟨_, a, ha⟩
  · cases c with
    | initializeContract => simp [dispatch, initializeContract]
    | isInitialized => simp [dispatch, isInitialized]
    | _ =>
      intro f hf htrap
      cases hf
      cases htrap
  · cases c with
    | initializeContract => simp [dispatch, initializeContract]
    | isInitialized => simp [dispatch, isInitialized]
    | register => simp [dispatch, register, ensureInitialized, setProfile]
    | updateProfile =>
      simp +contextual [dispatch, updateProfile, ensureInitialized, getProfileInternal,
        setProfile, TrapsElsewhere]
    | deactivate =>
      simp +contextual [dispatch, deactivate, ensureInitialized, getAdmin, getProfileInternal,
        setProfile, ha, TrapsElsewhere]
    | reactivate =>
      simp +contextual [dispatch, reactivate, ensureInitialized, getAdmin, getProfileInternal,
        setProfile, ha, TrapsElsewhere]
    | getProfile => simp [dispatch, getProfile, ensureInitialized, getProfileInternal]
    | getProfileOpt => simp [dispatch, getProfileOpt, ensureInitialized]

/-- Identity keeps the laws. -/
theorem allOrNothing (M : Missing) (pin : A) : (deployment M pin).AllOrNothing :=
  Deployment.allOrNothing_of rfl (gate M).toLatch phase
    (fun _ => not_initialized) (fun _ => traps_elsewhere)

end Identity

/-! ## All four contracts -/

/-- **Initialization is all-or-nothing and happens once**, in every run of each of
the four contracts from its constructor. -/
theorem initialization_all_or_nothing {A : Type} [DecidableEq A] {M : Missing}
    (hM : M.ReadsInstance) (nextRevision : Wallet.NextRevision A) (pin : A) :
    (Payments.deployment M pin).AllOrNothing ∧ (Protocol.deployment M pin).AllOrNothing ∧
      (Identity.deployment M pin).AllOrNothing ∧
      (Wallet.deployment M nextRevision pin).AllOrNothing :=
  ⟨Payments.allOrNothing hM pin, Protocol.allOrNothing hM pin, Identity.allOrNothing M pin,
    Wallet.allOrNothing M nextRevision pin⟩

/-- Of two initializations of payments at most one succeeds, and every key is there
after them. -/
theorem initialization_all_or_nothing_sample :
    (trace (Payments.dispatch .documented) (Payments.deployed 0)
      [Payments.Sample.initializeTx, Payments.Sample.initializeTx]).countP
        (·.does Payments.Call.initializes) ≤ 1 ∧
    (run (Payments.dispatch .documented) (Payments.deployed 0)
      [Payments.Sample.initializeTx, Payments.Sample.initializeTx]).HasKeys := by
  have h := (initialization_all_or_nothing Missing.documented_readsInstance
    Wallet.Sample.nextRevision 0).1
  exact ⟨h.once _, h.all _ (by decide +kernel)⟩

end LilyContracts
