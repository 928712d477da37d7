import LilyContracts.Common

/-!
# `PaymentsContract`

`contracts/payments/src/lib.rs`, entry point by entry point. `Store` has one
field per `DataKey`, `none` while the key is absent, and the symbol-keyed
entries the reentrancy guards keep; each entry point is the sequence of reads,
signature checks, calls and writes of its Rust body, in the same order.

Two things the committed source leaves open are filled as its tests and its own
code use them: `initialize` takes the wallet contract's address as a further
argument (the body stores an unbound `wallet`), and `has_active_binding` is a
query answered by the environment of the call.
-/

namespace LilyContracts.Payments

open Host

/-- Largest payment amount that keeps future basis-point multiplication within
`i128`: `i128::MAX / (MAX_BPS as i128)`. -/
def maxPaymentAmount : Int := I128.maxValue.tdiv maxBps.toNat

structure PaymentIntent (A : Type) where
  id : UInt64
  payerAgent : A
  payeeAgent : A
  amount : I128
  memo : HostString
  settlementReference : HostString
  status : PaymentStatus
  createdAt : UInt64
  deriving DecidableEq

/-- The configuration `initialize` publishes. -/
structure PaymentsConfig (A : Type) where
  admin : A
  treasury : A
  feeBps : UInt32
  nextIntentId : UInt64
  deriving DecidableEq

/-- The contract's storage, one field per `DataKey`. -/
structure Store (A : Type) where
  admin : Option A
  treasury : Option A
  feeBps : Option UInt32
  nextIntentId : Option UInt64
  wallet : Option A
  initialized : Option Bool
  schemaVersion : Option UInt32
  pinnedAdmin : Option A
  intents : UInt64 → Option (PaymentIntent A)
  payerIntents : A → Option (List UInt64)
  symbols : Symbol → Option Bool

instance {A : Type} : SymbolEntries (Store A) where
  entries s := s.symbols
  withEntries f s := { s with symbols := f }

/-- The query `create_intent` puts to the stored wallet contract. -/
inductive Query (A : Type)
  | hasActiveBinding (wallet agent : A)

/-- Published events, named by their leading topic. -/
inductive Event (A : Type)
  | init (admin : A) (config : PaymentsConfig A)
  | create (id : UInt64) (intent : PaymentIntent A)
  | settle (id : UInt64) (prior : Symbol) (intent : PaymentIntent A)
  | cancel (id : UInt64) (prior : Symbol) (intent : PaymentIntent A)
  | fee (admin : A) (feeBps : UInt32)
  | treasury (admin treasury : A)
  | admin (admin newAdmin : A)
  deriving DecidableEq

def paymentStatusSymbol : PaymentStatus → Symbol
  | .pending => "pending"
  | .settled => "settled"
  | .cancelled => "cancelled"

/-- A payments program. -/
abbrev Program (A : Type) := Prog (Store A) A (Query A) (Event A) ProtocolError

variable {A : Type}

/-- Storage before the constructor has run. -/
def Store.empty : Store A where
  admin := none
  treasury := none
  feeBps := none
  nextIntentId := none
  wallet := none
  initialized := none
  schemaVersion := none
  pinnedAdmin := none
  intents := fun _ => none
  payerIntents := fun _ => none
  symbols := fun _ => none

/-! ## Helpers -/

def ensureInitialized : Program A Unit := do
  require (← get fun s => s.initialized.isSome) .notInitialized

def requireInitialAdmin [DecidableEq A] (admin : A) : Program A Unit := do
  let pinned ← unwrapOptimized (← get (·.pinnedAdmin))
  require (admin = pinned) .unauthorized

def getAdmin (M : Missing) : Program A A := do
  lift (M.readInstance (← get (·.admin)))

def getIntentInternal (intentId : UInt64) : Program A (PaymentIntent A) := do
  unwrapOrPanic .missingRecord (← get (·.intents intentId))

/-! ## Entry points -/

/-- `__constructor`. -/
def construct (initialAdmin : A) : Program A Unit :=
  modify fun s => { s with pinnedAdmin := some initialAdmin }

/-- `initialize`. -/
def initializeContract [DecidableEq A] (admin treasury : A) (feeBps : UInt32) (wallet : A) :
    Program A Unit := do
  requireAuth admin
  require (¬ (← get fun s => s.initialized.isSome)) .alreadyInitialized
  requireInitialAdmin admin
  requireValidBps feeBps
  requireAuthOrError admin
  modify fun s => { s with admin := some admin }
  modify fun s => { s with treasury := some treasury }
  modify fun s => { s with feeBps := some feeBps }
  modify fun s => { s with nextIntentId := some 1 }
  modify fun s => { s with wallet := some wallet }
  modify fun s => { s with initialized := some true }
  bumpInstance
  publish (.init admin { admin, treasury, feeBps, nextIntentId := 1 })

def isInitialized : Program A Bool :=
  get fun s => s.initialized.isSome

def schemaVersion (M : Missing) : Program A UInt32 := do
  ensureInitialized
  bumpInstance
  pure ((← get (·.schemaVersion)).getD M.paymentsSchemaVersion)

def getConfig (M : Missing) : Program A (ProtocolConfig A) := do
  ensureInitialized
  bumpInstance
  let admin ← lift (M.readInstance (← get (·.admin)))
  let treasury ← lift (M.readInstance (← get (·.treasury)))
  let feeBps ← lift (M.readInstance (← get (·.feeBps)))
  pure { admin, treasury, feeBps }

def getNextIntentId (M : Missing) : Program A UInt64 := do
  ensureInitialized
  bumpInstance
  lift (M.readInstance (← get (·.nextIntentId)))

def createIntent [DecidableEq A] (M : Missing) (payerAgent payeeAgent : A) (amount : I128)
    (memo : HostString) : Program A UInt64 := do
  ensureInitialized
  require (0 < amount.val ∧ amount.val ≤ maxPaymentAmount) .invalidInput
  requireNonEmpty memo.len
  require (payerAgent ≠ payeeAgent) .invalidInput
  requireAuth payerAgent
  let wallet ← unwrapOrPanic .missingRecord (← get (·.wallet))
  require (← ask (.hasActiveBinding wallet payerAgent)) .walletNotBound
  let id ← unwrapOptimized (← get (·.nextIntentId))
  let intent : PaymentIntent A :=
    { id, payerAgent, payeeAgent, amount, memo
      settlementReference := HostString.empty
      status := .pending
      createdAt := ← ledgerTimestamp }
  modify fun s => { s with intents := Function.update s.intents id (some intent) }
  let payerIntentIds := (← get (·.payerIntents intent.payerAgent)).getD []
  modify fun s =>
    { s with
      payerIntents :=
        Function.update s.payerIntents intent.payerAgent (some (payerIntentIds ++ [id])) }
  let next ← lift (M.checkedInc id)
  modify fun s => { s with nextIntentId := some next }
  bumpInstance
  publish (.create id intent)
  pure id

def settleIntent [DecidableEq A] (M : Missing) (caller : A) (intentId : UInt64)
    (settlementReference : HostString) : Program A Unit := do
  ensureInitialized
  let admin ← getAdmin M
  requireCaller caller admin
  requireAuthOrError caller
  -- the guard spans the status transition; no call or signature check is inside
  let guard ← NonReentrantGuard.acquire "settle"
  requireNonEmpty settlementReference.len
  let intent ← getIntentInternal intentId
  require (intent.status = .pending) .paymentAlreadyFinalized
  let settled := { intent with status := .settled, settlementReference }
  modify fun s => { s with intents := Function.update s.intents intentId (some settled) }
  bumpInstance
  publish (.settle intentId (paymentStatusSymbol intent.status) settled)
  guard.drop

def cancelIntent (intentId : UInt64) : Program A Unit := do
  ensureInitialized
  -- the record is read before the signature check and the guard
  let intent ← getIntentInternal intentId
  requireAuth intent.payerAgent
  let guard ← NonReentrantGuard.acquire "cancel"
  require (intent.status = .pending) .paymentAlreadyFinalized
  let cancelled := { intent with status := .cancelled }
  modify fun s => { s with intents := Function.update s.intents intentId (some cancelled) }
  bumpInstance
  publish (.cancel intentId (paymentStatusSymbol intent.status) cancelled)
  guard.drop

def setFeeBps (M : Missing) (feeBps : UInt32) : Program A Unit := do
  ensureInitialized
  requireValidBps feeBps
  let admin ← getAdmin M
  requireAuth admin
  modify fun s => { s with feeBps := some feeBps }
  bumpInstance
  publish (.fee admin feeBps)

def setTreasury (M : Missing) (treasury : A) : Program A Unit := do
  ensureInitialized
  let admin ← getAdmin M
  requireAuth admin
  modify fun s => { s with treasury := some treasury }
  bumpInstance
  publish (.treasury admin treasury)

def transferAdmin (M : Missing) (newAdmin : A) : Program A Unit := do
  ensureInitialized
  let admin ← getAdmin M
  requireAuth admin
  modify fun s => { s with admin := some newAdmin }
  bumpInstance
  publish (.admin admin newAdmin)

def getIntent (intentId : UInt64) : Program A (PaymentIntent A) := do
  ensureInitialized
  bumpInstance
  getIntentInternal intentId

def getIntentOpt (intentId : UInt64) : Program A (Option (PaymentIntent A)) := do
  ensureInitialized
  bumpInstance
  get (·.intents intentId)

/-! ## The contract as a family of calls -/

/-- A call of the deployed contract. -/
inductive Call (A : Type)
  | initializeContract (admin treasury : A) (feeBps : UInt32) (wallet : A)
  | isInitialized
  | schemaVersion
  | getConfig
  | getNextIntentId
  | createIntent (payerAgent payeeAgent : A) (amount : I128) (memo : HostString)
  | settleIntent (caller : A) (intentId : UInt64) (settlementReference : HostString)
  | cancelIntent (intentId : UInt64)
  | setFeeBps (feeBps : UInt32)
  | setTreasury (treasury : A)
  | transferAdmin (newAdmin : A)
  | getIntent (intentId : UInt64)
  | getIntentOpt (intentId : UInt64)
  deriving DecidableEq

/-- What a call returns. -/
inductive Ret (A : Type)
  | unit
  | bool (b : Bool)
  | u32 (n : UInt32)
  | u64 (n : UInt64)
  | config (c : ProtocolConfig A)
  | intent (i : PaymentIntent A)
  | intentOpt (i : Option (PaymentIntent A))
  deriving DecidableEq

/-- The program a call runs. -/
def dispatch [DecidableEq A] (M : Missing) : Call A → Program A (Ret A)
  | .initializeContract admin treasury feeBps wallet => do
    initializeContract admin treasury feeBps wallet
    pure .unit
  | .isInitialized => do pure (.bool (← isInitialized))
  | .schemaVersion => do pure (.u32 (← schemaVersion M))
  | .getConfig => do pure (.config (← getConfig M))
  | .getNextIntentId => do pure (.u64 (← getNextIntentId M))
  | .createIntent payerAgent payeeAgent amount memo => do
    pure (.u64 (← createIntent M payerAgent payeeAgent amount memo))
  | .settleIntent caller intentId settlementReference => do
    settleIntent M caller intentId settlementReference
    pure .unit
  | .cancelIntent intentId => do
    cancelIntent intentId
    pure .unit
  | .setFeeBps feeBps => do
    setFeeBps M feeBps
    pure .unit
  | .setTreasury treasury => do
    setTreasury M treasury
    pure .unit
  | .transferAdmin newAdmin => do
    transferAdmin M newAdmin
    pure .unit
  | .getIntent intentId => do pure (.intent (← getIntent intentId))
  | .getIntentOpt intentId => do pure (.intentOpt (← getIntentOpt intentId))

/-- A transaction sent to the contract. -/
abbrev Tx (A : Type) := Host.Tx A (Query A) ProtocolError (Call A)

/-- A step of a payments trace. -/
abbrev Step (A : Type) :=
  Host.Step (Store A) A (Query A) (Event A) ProtocolError (Call A) (Ret A)

/-- Storage right after deployment with `initialAdmin` pinned. -/
def deployed (initialAdmin : A) : Store A :=
  { Store.empty with pinnedAdmin := some initialAdmin }

/-- The constructor leaves exactly the pin. -/
theorem exec_construct (env : Env A (Query A) ProtocolError) (initialAdmin : A)
    (evs : List (Event A)) :
    exec env (construct initialAdmin) ⟨Store.empty, evs⟩ = .ok ((), ⟨deployed initialAdmin, evs⟩) :=
  rfl

/-! ## A concrete contract

The contract over the documented stand-ins and numbered addresses, on which the
general theorems are evaluated: 0 is the admin, 1 and 2 are agents. -/

namespace Sample

def memo : HostString := ⟨[0x72, 0x65, 0x66], by decide⟩

def amount : I128 := ⟨100, by decide, by decide⟩

/-- A call signed by `signers`; every agent has an active binding. -/
def tx (signers : List Nat) (timestamp : UInt64) (call : Call Nat) : Tx Nat :=
  { env := { signs := fun a => a ∈ signers, timestamp, answer := fun _ => .ok true }, call }

def initializeTx : Tx Nat := tx [0] 10 (.initializeContract 0 9 250 8)

def createTx : Tx Nat := tx [1] 11 (.createIntent 1 2 amount memo)

def settleTx : Tx Nat := tx [0] 12 (.settleIntent 0 1 memo)

end Sample

end LilyContracts.Payments
