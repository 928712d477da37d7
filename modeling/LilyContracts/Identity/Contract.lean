import LilyContracts.Common

/-!
# `IdentityContract`

`contracts/identity/src/lib.rs`: agent profiles under a controller that may
rotate, with an admin who can freeze them. `reactivate` counts with `+= 1`,
which traps at `u64::MAX` under the release profile's `overflow-checks`, where
its siblings call `checked_inc`. `require_initial_admin` is defined in the
source and called by nothing.
-/

namespace LilyContracts.Identity

open Host

structure AgentProfile (A : Type) where
  controller : A
  metadataUri : HostString
  active : Bool
  revision : UInt64
  deriving DecidableEq

structure IdentityConfig (A : Type) where
  admin : A
  deriving DecidableEq

/-- The contract's storage, one field per `DataKey`. -/
structure Store (A : Type) where
  admin : Option A
  initialized : Option Bool
  profile : A → Option (AgentProfile A)
  pinnedAdmin : Option A

/-- Published events, named by their leading topic. -/
inductive Event (A : Type)
  | init (admin : A) (config : IdentityConfig A)
  | register (agent : A) (profile : AgentProfile A)
  | metadataUpdated (agent : A) (metadataUri : HostString)
  | controllerRotated (agent : A) (controller : A)
  | deact (agent : A) (profile : AgentProfile A)
  | react (agent : A) (profile : AgentProfile A)
  deriving DecidableEq

/-- An identity program; it asks no other contract anything. -/
abbrev Program (A : Type) := Prog (Store A) A Empty (Event A) ProtocolError

variable {A : Type}

/-- Storage before the constructor has run. -/
def Store.empty : Store A where
  admin := none
  initialized := none
  profile := fun _ => none
  pinnedAdmin := none

/-! ## Helpers -/

def ensureInitialized : Program A Unit := do
  require (← get fun s => s.initialized.isSome) .notInitialized

def getAdmin : Program A A := do
  unwrapOptimized (← get (·.admin))

def getProfileInternal (agent : A) : Program A (AgentProfile A) := do
  unwrapOrPanic .missingRecord (← get (·.profile agent))

/-- `storage().persistent().set(&DataKey::Profile(agent), &profile)`. -/
def setProfile [DecidableEq A] (agent : A) (profile : AgentProfile A) : Program A Unit :=
  modify fun s => { s with profile := Function.update s.profile agent (some profile) }

/-! ## Entry points -/

/-- `__constructor`. -/
def construct (initialAdmin : A) : Program A Unit :=
  modify fun s => { s with pinnedAdmin := some initialAdmin }

/-- `initialize`. The pinned admin is stored by the constructor and not looked at
here. -/
def initializeContract (admin : A) : Program A Unit := do
  requireAuth admin
  require (¬ (← get fun s => s.initialized.isSome)) .alreadyInitialized
  requireAuthOrError admin
  modify fun s => { s with admin := some admin }
  modify fun s => { s with initialized := some true }
  bumpInstance
  publish (.init admin { admin })

def isInitialized : Program A Bool :=
  get fun s => s.initialized.isSome

def register [DecidableEq A] (agent controller : A) (metadataUri : HostString) :
    Program A Unit := do
  ensureInitialized
  requireNonEmpty metadataUri.len
  require (¬ (← get fun s => (s.profile agent).isSome)) .alreadyExists
  requireAuthOrError agent
  let profile : AgentProfile A := { controller, metadataUri, active := true, revision := 0 }
  setProfile agent profile
  bumpInstance
  publish (.register agent profile)

def updateProfile [DecidableEq A] (M : Missing) (agent : A) (metadataUri : HostString)
    (newController : Option A) : Program A Unit := do
  ensureInitialized
  requireNonEmpty metadataUri.len
  let profile ← getProfileInternal agent
  require profile.active .invalidInput
  requireAuthOrError profile.controller
  let metadataChanged := profile.metadataUri ≠ metadataUri
  let controllerChanged := newController.any fun next => next ≠ profile.controller
  let controller := newController.getD profile.controller
  let revision ← lift (M.checkedInc profile.revision)
  let profile := { profile with metadataUri, controller, revision }
  setProfile agent profile
  bumpInstance
  if metadataChanged then
    publish (.metadataUpdated agent profile.metadataUri)
  if controllerChanged then
    publish (.controllerRotated agent profile.controller)

def deactivate [DecidableEq A] (M : Missing) (agent : A) : Program A Unit := do
  ensureInitialized
  let admin ← getAdmin
  requireAuthOrError admin
  let profile ← getProfileInternal agent
  if ¬ profile.active then
    bumpInstance
  else
    let revision ← lift (M.checkedInc profile.revision)
    let profile := { profile with active := false, revision }
    setProfile agent profile
    bumpInstance
    publish (.deact agent profile)

def reactivate [DecidableEq A] (agent : A) : Program A Unit := do
  ensureInitialized
  let admin ← getAdmin
  requireAuth admin
  let profile ← getProfileInternal agent
  let revision ← lift (overflowingInc profile.revision)
  let profile := { profile with active := true, revision }
  setProfile agent profile
  bumpInstance
  publish (.react agent profile)

def getProfile (agent : A) : Program A (AgentProfile A) := do
  ensureInitialized
  bumpInstance
  getProfileInternal agent

def getProfileOpt (agent : A) : Program A (Option (AgentProfile A)) := do
  ensureInitialized
  bumpInstance
  get (·.profile agent)

/-! ## The contract as a family of calls -/

/-- A call of the deployed contract. -/
inductive Call (A : Type)
  | initializeContract (admin : A)
  | isInitialized
  | register (agent controller : A) (metadataUri : HostString)
  | updateProfile (agent : A) (metadataUri : HostString) (newController : Option A)
  | deactivate (agent : A)
  | reactivate (agent : A)
  | getProfile (agent : A)
  | getProfileOpt (agent : A)
  deriving DecidableEq

/-- What a call returns. -/
inductive Ret (A : Type)
  | unit
  | bool (b : Bool)
  | profile (p : AgentProfile A)
  | profileOpt (p : Option (AgentProfile A))
  deriving DecidableEq

/-- The program a call runs. -/
def dispatch [DecidableEq A] (M : Missing) : Call A → Program A (Ret A)
  | .initializeContract admin => do
    initializeContract admin
    pure .unit
  | .isInitialized => do pure (.bool (← isInitialized))
  | .register agent controller metadataUri => do
    register agent controller metadataUri
    pure .unit
  | .updateProfile agent metadataUri newController => do
    updateProfile M agent metadataUri newController
    pure .unit
  | .deactivate agent => do
    deactivate M agent
    pure .unit
  | .reactivate agent => do
    reactivate agent
    pure .unit
  | .getProfile agent => do pure (.profile (← getProfile agent))
  | .getProfileOpt agent => do pure (.profileOpt (← getProfileOpt agent))

/-- A transaction sent to the contract. -/
abbrev Tx (A : Type) := Host.Tx A Empty ProtocolError (Call A)

/-- A step of an identity trace. -/
abbrev Step (A : Type) := Host.Step (Store A) A Empty (Event A) ProtocolError (Call A) (Ret A)

/-- Storage right after deployment with `initialAdmin` pinned. -/
def deployed (initialAdmin : A) : Store A :=
  { Store.empty with pinnedAdmin := some initialAdmin }

/-- The constructor leaves exactly the pin. -/
theorem exec_construct (env : Env A Empty ProtocolError) (initialAdmin : A)
    (evs : List (Event A)) :
    exec env (construct initialAdmin) ⟨Store.empty, evs⟩ = .ok ((), ⟨deployed initialAdmin, evs⟩) :=
  rfl

/-! ## A concrete contract

The contract over the documented stand-ins and numbered addresses: 0 is the
admin pinned at deployment, 1 an agent and 3 its controller. -/

namespace Sample

def uri : HostString := ⟨[0x75, 0x72, 0x69], by decide⟩

/-- A call signed by `signers`. -/
def tx (signers : List Nat) (call : Call Nat) : Tx Nat :=
  { env := { signs := fun a => a ∈ signers, timestamp := 0, answer := nofun }, call }

def initializeTx : Tx Nat := tx [0] (.initializeContract 0)

def registerTx : Tx Nat := tx [1] (.register 1 3 uri)

def rotateTx : Tx Nat := tx [3] (.updateProfile 1 uri (some 4))

end Sample

end LilyContracts.Identity
