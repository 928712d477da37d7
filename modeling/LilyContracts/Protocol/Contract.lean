import LilyContracts.Common

/-!
# `ProtocolContract`

`contracts/protocol/src/lib.rs`: the global configuration and its two-step
admin handover. `SchemaVersion` is a storage key the source reads and writes
without listing it in `DataKey`; `get_config` reads the admin through
`get_admin_internal`, which no file defines, while the mutators read it through
`get_admin`.
-/

namespace LilyContracts.Protocol

open Host

/-- `SCHEMA_VERSION`. -/
def currentSchemaVersion : UInt32 := 1

/-- The contract's storage, one field per `DataKey`. -/
structure Store (A : Type) where
  admin : Option A
  pendingAdmin : Option A
  treasury : Option A
  feeBps : Option UInt32
  initialized : Option Bool
  schemaVersion : Option UInt32
  pinnedAdmin : Option A

/-- Published events, named by their leading topic. -/
inductive Event (A : Type)
  | init (admin : A) (config : ProtocolConfig A)
  | fee (admin : A) (feeBps : UInt32)
  | treasury (admin treasury : A)
  | propose (admin newAdmin : A)
  | admin (oldAdmin pendingAdmin : A)
  deriving DecidableEq

/-- A protocol program; it asks no other contract anything. -/
abbrev Program (A : Type) := Prog (Store A) A Empty (Event A) ProtocolError

variable {A : Type}

/-- Storage before the constructor has run. -/
def Store.empty : Store A where
  admin := none
  pendingAdmin := none
  treasury := none
  feeBps := none
  initialized := none
  schemaVersion := none
  pinnedAdmin := none

/-! ## Helpers -/

def ensureInitialized : Program A Unit := do
  require (← get fun s => s.initialized.isSome) .notInitialized

def requireInitialAdmin [DecidableEq A] (admin : A) : Program A Unit := do
  let pinned ← unwrapOptimized (← get (·.pinnedAdmin))
  require (admin = pinned) .unauthorized

def getAdmin (M : Missing) : Program A A := do
  lift (M.readInstance (← get (·.admin)))

/-! ## Entry points -/

/-- `__constructor`. -/
def construct (initialAdmin : A) : Program A Unit :=
  modify fun s => { s with pinnedAdmin := some initialAdmin }

/-- `initialize`. -/
def initializeContract [DecidableEq A] (admin treasury : A) (feeBps : UInt32) :
    Program A Unit := do
  requireAuth admin
  require (¬ (← get fun s => s.initialized.isSome)) .alreadyInitialized
  requireInitialAdmin admin
  requireValidBps feeBps
  requireAuthOrError admin
  modify fun s => { s with admin := some admin }
  modify fun s => { s with treasury := some treasury }
  modify fun s => { s with feeBps := some feeBps }
  modify fun s => { s with schemaVersion := some currentSchemaVersion }
  modify fun s => { s with initialized := some true }
  bumpInstance
  publish (.init admin { admin, treasury, feeBps })

def isInitialized : Program A Bool :=
  get fun s => s.initialized.isSome

def schemaVersion : Program A UInt32 := do
  ensureInitialized
  bumpInstance
  pure ((← get (·.schemaVersion)).getD currentSchemaVersion)

def getConfig (M : Missing) : Program A (ProtocolConfig A) := do
  ensureInitialized
  bumpInstance
  let admin ← lift (M.getAdminInternal (← get (·.admin)))
  let treasury ← unwrapOptimized (← get (·.treasury))
  let feeBps ← unwrapOptimized (← get (·.feeBps))
  pure { admin, treasury, feeBps }

def getPendingAdmin : Program A (Option A) :=
  get (·.pendingAdmin)

def setFeeBps (M : Missing) (feeBps : UInt32) : Program A Unit := do
  ensureInitialized
  let admin ← getAdmin M
  requireAuthOrError admin
  requireValidBps feeBps
  modify fun s => { s with feeBps := some feeBps }
  bumpInstance
  publish (.fee admin feeBps)

def setTreasury (M : Missing) (treasury : A) : Program A Unit := do
  ensureInitialized
  let admin ← getAdmin M
  requireAuthOrError admin
  modify fun s => { s with treasury := some treasury }
  bumpInstance
  publish (.treasury admin treasury)

/-- Step 1 of the handover: propose. -/
def transferAdmin (M : Missing) (newAdmin : A) : Program A Unit := do
  ensureInitialized
  let admin ← getAdmin M
  requireAuthOrError admin
  modify fun s => { s with pendingAdmin := some newAdmin }
  bumpInstance
  publish (.propose admin newAdmin)

/-- Step 2 of the handover: accept. -/
def acceptAdmin (M : Missing) : Program A Unit := do
  ensureInitialized
  require (← get fun s => s.pendingAdmin.isSome) .missingRecord
  let pendingAdmin ← unwrapOptimized (← get (·.pendingAdmin))
  requireAuth pendingAdmin
  let oldAdmin ← getAdmin M
  modify fun s => { s with admin := some pendingAdmin }
  modify fun s => { s with pendingAdmin := none }
  bumpInstance
  publish (.admin oldAdmin pendingAdmin)

/-! ## The contract as a family of calls -/

/-- A call of the deployed contract. -/
inductive Call (A : Type)
  | initializeContract (admin treasury : A) (feeBps : UInt32)
  | isInitialized
  | schemaVersion
  | getConfig
  | getPendingAdmin
  | setFeeBps (feeBps : UInt32)
  | setTreasury (treasury : A)
  | transferAdmin (newAdmin : A)
  | acceptAdmin
  deriving DecidableEq

/-- What a call returns. -/
inductive Ret (A : Type)
  | unit
  | bool (b : Bool)
  | u32 (n : UInt32)
  | config (c : ProtocolConfig A)
  | address (a : Option A)
  deriving DecidableEq

/-- The program a call runs. -/
def dispatch [DecidableEq A] (M : Missing) : Call A → Program A (Ret A)
  | .initializeContract admin treasury feeBps => do
    initializeContract admin treasury feeBps
    pure .unit
  | .isInitialized => do pure (.bool (← isInitialized))
  | .schemaVersion => do pure (.u32 (← schemaVersion))
  | .getConfig => do pure (.config (← getConfig M))
  | .getPendingAdmin => do pure (.address (← getPendingAdmin))
  | .setFeeBps feeBps => do
    setFeeBps M feeBps
    pure .unit
  | .setTreasury treasury => do
    setTreasury M treasury
    pure .unit
  | .transferAdmin newAdmin => do
    transferAdmin M newAdmin
    pure .unit
  | .acceptAdmin => do
    acceptAdmin M
    pure .unit

/-- A transaction sent to the contract. -/
abbrev Tx (A : Type) := Host.Tx A Empty ProtocolError (Call A)

/-- A step of a protocol trace. -/
abbrev Step (A : Type) := Host.Step (Store A) A Empty (Event A) ProtocolError (Call A) (Ret A)

/-- Storage right after deployment with `initialAdmin` pinned. -/
def deployed (initialAdmin : A) : Store A :=
  { Store.empty with pinnedAdmin := some initialAdmin }

/-- The constructor leaves exactly the pin. -/
theorem exec_construct (env : Env A Empty ProtocolError) (initialAdmin : A)
    (evs : List (Event A)) :
    exec env (construct initialAdmin) ⟨Store.empty, evs⟩ = .ok ((), ⟨deployed initialAdmin, evs⟩) :=
  rfl

/-! ## A concrete contract

The contract over the documented stand-ins and numbered addresses: 0 is the
admin pinned at deployment. -/

namespace Sample

/-- A call signed by `signers`. -/
def tx (signers : List Nat) (call : Call Nat) : Tx Nat :=
  { env := { signs := fun a => a ∈ signers, timestamp := 0, answer := nofun }, call }

def initializeTx : Tx Nat := tx [0] (.initializeContract 0 9 250)

def proposeTx : Tx Nat := tx [0] (.transferAdmin 1)

def acceptTx : Tx Nat := tx [1] .acceptAdmin

end Sample

end LilyContracts.Protocol
