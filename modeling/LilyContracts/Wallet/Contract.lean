import LilyContracts.Common

/-!
# `WalletContract`

`contracts/wallet/src/lib.rs`: the binding of an agent to a settlement wallet
and a spend limit. `rebind_wallet` stores a `next_revision` that no line of the
source defines; here it is a parameter, a function of the binding being
replaced. `admin_deactivate` counts with `+= 1`, which traps at `u64::MAX`
under the release profile's `overflow-checks`, where its siblings call
`checked_inc`.
-/

namespace LilyContracts.Wallet

open Host

/-- `SCHEMA_VERSION`. -/
def currentSchemaVersion : UInt32 := 1

structure WalletBinding (A : Type) where
  wallet : A
  settlementAsset : Symbol
  spendLimit : I128
  enabled : Bool
  revision : UInt64
  deriving DecidableEq

/-- The contract's storage, one field per `DataKey`. -/
structure Store (A : Type) where
  admin : Option A
  initialized : Option Bool
  schemaVersion : Option UInt32
  binding : A → Option (WalletBinding A)
  pinnedAdmin : Option A

/-- Published events, named by their leading topic. -/
inductive Event (A : Type)
  | init (admin : A)
  | bind (agent : A) (binding : WalletBinding A)
  | rebind (agent : A) (binding : WalletBinding A)
  | limit (agent : A) (binding : WalletBinding A)
  | state (agent : A) (binding : WalletBinding A)
  | admDeact (agent : A) (binding : WalletBinding A)
  deriving DecidableEq

/-- A wallet program; it asks no other contract anything. -/
abbrev Program (A : Type) := Prog (Store A) A Empty (Event A) ProtocolError

/-- The revision `rebind_wallet` stores, from the binding it replaces. -/
abbrev NextRevision (A : Type) := Option (WalletBinding A) → Except (Fault ProtocolError) UInt64

variable {A : Type}

/-- Storage before the constructor has run. -/
def Store.empty : Store A where
  admin := none
  initialized := none
  schemaVersion := none
  binding := fun _ => none
  pinnedAdmin := none

/-! ## Helpers -/

def ensureInitialized : Program A Unit := do
  require (← get fun s => s.initialized.isSome) .notInitialized

def getAdmin : Program A A := do
  unwrapOptimized (← get (·.admin))

def getBindingInternal (agent : A) : Program A (WalletBinding A) := do
  unwrapOrPanic .missingRecord (← get (·.binding agent))

/-- `storage().persistent().set(&DataKey::Binding(agent), &binding)`. -/
def setBinding [DecidableEq A] (agent : A) (binding : WalletBinding A) : Program A Unit :=
  modify fun s => { s with binding := Function.update s.binding agent (some binding) }

/-! ## Entry points -/

/-- `__constructor`. -/
def construct (initialAdmin : A) : Program A Unit :=
  modify fun s => { s with pinnedAdmin := some initialAdmin }

/-- `initialize`. The pinned admin is stored by the constructor and not looked at
here. -/
def initializeContract (admin : A) : Program A Unit := do
  requireAuth admin
  require (¬ (← get fun s => s.initialized.isSome)) .alreadyInitialized
  requireAuthOrError admin
  modify fun s => { s with admin := some admin }
  modify fun s => { s with schemaVersion := some currentSchemaVersion }
  modify fun s => { s with initialized := some true }
  bumpInstance
  publish (.init admin)

def isInitialized : Program A Bool :=
  get fun s => s.initialized.isSome

def bindWallet [DecidableEq A] (agent wallet : A) (settlementAsset : Symbol)
    (spendLimit : I128) : Program A Unit := do
  ensureInitialized
  require (0 < spendLimit.val) .invalidInput
  requireAuthOrError agent
  requireAuthOrError wallet
  require (¬ (← get fun s => (s.binding agent).isSome)) .walletAlreadyBound
  let binding : WalletBinding A :=
    { wallet, settlementAsset, spendLimit, enabled := true, revision := 0 }
  setBinding agent binding
  bumpInstance
  publish (.bind agent binding)

def rebindWallet [DecidableEq A] (nextRevision : NextRevision A) (agent wallet : A)
    (settlementAsset : Symbol) (spendLimit : I128) : Program A Unit := do
  ensureInitialized
  require (0 < spendLimit.val) .invalidInput
  requireAuth agent
  requireAuth wallet
  require (← get fun s => (s.binding agent).isSome) .missingRecord
  let revision ← lift (nextRevision (← get (·.binding agent)))
  let binding : WalletBinding A :=
    { wallet, settlementAsset, spendLimit, enabled := true, revision }
  setBinding agent binding
  bumpInstance
  publish (.rebind agent binding)

def updateSpendLimit [DecidableEq A] (M : Missing) (agent : A) (spendLimit : I128) :
    Program A Unit := do
  ensureInitialized
  require (0 < spendLimit.val) .invalidInput
  requireAuthOrError agent
  let binding ← getBindingInternal agent
  lift (M.requireEnabled binding.enabled)
  let revision ← lift (M.checkedInc binding.revision)
  let binding := { binding with spendLimit, revision }
  setBinding agent binding
  bumpInstance
  publish (.limit agent binding)

def setEnabled [DecidableEq A] (M : Missing) (agent : A) (enabled : Bool) : Program A Unit := do
  ensureInitialized
  requireAuthOrError agent
  let binding ← getBindingInternal agent
  let revision ← lift (M.checkedInc binding.revision)
  let binding := { binding with enabled, revision }
  setBinding agent binding
  bumpInstance
  publish (.state agent binding)

def adminDeactivate [DecidableEq A] (agent : A) : Program A Unit := do
  ensureInitialized
  let admin ← getAdmin
  requireAuth admin
  let binding ← getBindingInternal agent
  let revision ← lift (overflowingInc binding.revision)
  let binding := { binding with enabled := false, revision }
  setBinding agent binding
  bumpInstance
  publish (.admDeact agent binding)

def getBinding (agent : A) : Program A (WalletBinding A) := do
  ensureInitialized
  bumpInstance
  getBindingInternal agent

def getBindingOpt (agent : A) : Program A (Option (WalletBinding A)) := do
  ensureInitialized
  bumpInstance
  get (·.binding agent)

/-! ## The contract as a family of calls -/

/-- A call of the deployed contract. -/
inductive Call (A : Type)
  | initializeContract (admin : A)
  | isInitialized
  | bindWallet (agent wallet : A) (settlementAsset : Symbol) (spendLimit : I128)
  | rebindWallet (agent wallet : A) (settlementAsset : Symbol) (spendLimit : I128)
  | updateSpendLimit (agent : A) (spendLimit : I128)
  | setEnabled (agent : A) (enabled : Bool)
  | adminDeactivate (agent : A)
  | getBinding (agent : A)
  | getBindingOpt (agent : A)
  deriving DecidableEq

/-- What a call returns. -/
inductive Ret (A : Type)
  | unit
  | bool (b : Bool)
  | binding (b : WalletBinding A)
  | bindingOpt (b : Option (WalletBinding A))
  deriving DecidableEq

/-- The program a call runs. -/
def dispatch [DecidableEq A] (M : Missing) (nextRevision : NextRevision A) :
    Call A → Program A (Ret A)
  | .initializeContract admin => do
    initializeContract admin
    pure .unit
  | .isInitialized => do pure (.bool (← isInitialized))
  | .bindWallet agent wallet settlementAsset spendLimit => do
    bindWallet agent wallet settlementAsset spendLimit
    pure .unit
  | .rebindWallet agent wallet settlementAsset spendLimit => do
    rebindWallet nextRevision agent wallet settlementAsset spendLimit
    pure .unit
  | .updateSpendLimit agent spendLimit => do
    updateSpendLimit M agent spendLimit
    pure .unit
  | .setEnabled agent enabled => do
    setEnabled M agent enabled
    pure .unit
  | .adminDeactivate agent => do
    adminDeactivate agent
    pure .unit
  | .getBinding agent => do pure (.binding (← getBinding agent))
  | .getBindingOpt agent => do pure (.bindingOpt (← getBindingOpt agent))

/-- A transaction sent to the contract. -/
abbrev Tx (A : Type) := Host.Tx A Empty ProtocolError (Call A)

/-- A step of a wallet trace. -/
abbrev Step (A : Type) := Host.Step (Store A) A Empty (Event A) ProtocolError (Call A) (Ret A)

/-- Storage right after deployment with `initialAdmin` pinned. -/
def deployed (initialAdmin : A) : Store A :=
  { Store.empty with pinnedAdmin := some initialAdmin }

/-- The constructor leaves exactly the pin. -/
theorem exec_construct (env : Env A Empty ProtocolError) (initialAdmin : A)
    (evs : List (Event A)) :
    exec env (construct initialAdmin) ⟨Store.empty, evs⟩ = .ok ((), ⟨deployed initialAdmin, evs⟩) :=
  rfl

/-! ## A concrete contract

The contract over the documented stand-ins and numbered addresses: 0 is the
admin pinned at deployment, 1 an agent and 5 its wallet. -/

namespace Sample

/-- The revision of a rebound binding, one on from the binding it replaces. -/
def nextRevision : NextRevision Nat
  | some b => overflowingInc b.revision
  | none => .ok 0

def limit : I128 := ⟨50, by decide, by decide⟩

/-- A call signed by `signers`. -/
def tx (signers : List Nat) (call : Call Nat) : Tx Nat :=
  { env := { signs := fun a => a ∈ signers, timestamp := 0, answer := nofun }, call }

def initializeTx : Tx Nat := tx [0] (.initializeContract 0)

def bindTx : Tx Nat := tx [1, 5] (.bindWallet 1 5 "USDC" limit)

def deactivateTx : Tx Nat := tx [0] (.adminDeactivate 1)

/-- The agent rebinds to another wallet, with that wallet's signature. -/
def rebindTx : Tx Nat := tx [1, 6] (.rebindWallet 1 6 "USDC" limit)

end Sample

end LilyContracts.Wallet
