import LilyContracts.System
import LilyContracts.Initialization

/-!
# The four contracts, deployed together

`deploy.sh` puts up four contracts and `init-contracts.sh` initializes them one after
the other; from then on calls to all of them are interleaved in one ledger.
`dispatch` is that system: the payments and wallet of `System.lean`, with protocol
and identity beside them (`Host/Compose.lean`).

`contracts/protocol/tests/cross_contract.rs` checks on two runs that protocol and
payments are configured alike and controlled apart. `contracts_run_alone` is the
general fact: whatever is called, in whatever order, the part of each contract is the
run of its own calls, which are answered as in that run. One contract is excepted,
and in one call: payments asks the wallet about a payer in `create_intent`. So the
wallet and payments are together a part that runs alone, and of the two the wallet
does.
-/

namespace LilyContracts

open Host

/-- The call to the wallet, if it is one. -/
def System.Call.wallet? {A : Type} : System.Call A → Option (Wallet.Call A)
  | .wallet c => some c
  | .payments _ => none

namespace Suite

/-! ## The system -/

/-- The contracts that `deploy.sh` builds and deploys. -/
inductive Contract
  | identity | protocol | payments | wallet
  deriving DecidableEq

/-- The storage of all four. -/
structure State (A : Type) where
  protocol : Protocol.Store A
  identity : Identity.Store A
  settlement : System.State A

/-- A call to one of them. -/
inductive Call (A : Type)
  | protocol (c : Protocol.Call A)
  | identity (c : Identity.Call A)
  | settlement (c : System.Call A)

inductive Ret (A : Type)
  | protocol (r : Protocol.Ret A)
  | identity (r : Identity.Ret A)
  | settlement (r : System.Ret A)

inductive Event (A : Type)
  | protocol (ev : Protocol.Event A)
  | identity (ev : Identity.Event A)
  | settlement (ev : System.Event A)

variable {A : Type}

/-- Protocol in the system; it asks nobody. -/
def protocolPart : Component (Protocol.Store A) (State A) Empty (Payments.Query A)
    (Protocol.Event A) (Event A) where
  get := State.protocol
  put s t := { t with protocol := s }
  route _ x := x.elim
  event := .protocol
  get_put _ _ := rfl
  put_put _ _ _ := rfl
  put_get _ := rfl
  route_put _ _ _ := rfl

/-- Identity in the system; it asks nobody. -/
def identityPart : Component (Identity.Store A) (State A) Empty (Payments.Query A)
    (Identity.Event A) (Event A) where
  get := State.identity
  put s t := { t with identity := s }
  route _ x := x.elim
  event := .identity
  get_put _ _ := rfl
  put_put _ _ _ := rfl
  put_get _ := rfl
  route_put _ _ _ := rfl

/-- Payments and wallet in the system. What payments asks of a wallet contract other
than theirs goes out of the system. -/
def settlementPart : Component (System.State A) (State A) (Payments.Query A) (Payments.Query A)
    (System.Event A) (Event A) where
  get := State.settlement
  put s t := { t with settlement := s }
  route _ x := .inr x
  event := .settlement
  get_put _ _ := rfl
  put_put _ _ _ := rfl
  put_get _ := rfl
  route_put _ _ _ := rfl

/-- What the contracts were compiled against and where the wallet is deployed. -/
structure Setting (A : Type) where
  M : Missing
  nextRevision : Wallet.NextRevision A
  walletAddress : A

/-- The program a call to payments or to the wallet runs. -/
abbrev Setting.settle [DecidableEq A] (W : Setting A) :
    System.Call A → Prog (System.State A) A (Payments.Query A) (System.Event A) ProtocolError
      (System.Ret A) :=
  System.dispatch W.M W.nextRevision W.walletAddress

/-- The program a call runs. -/
def dispatch [DecidableEq A] (W : Setting A) :
    Call A → Prog (State A) A (Payments.Query A) (Event A) ProtocolError (Ret A)
  | .protocol c => do
    pure (.protocol (← protocolPart.embed (Protocol.dispatch W.M c)))
  | .identity c => do
    pure (.identity (← identityPart.embed (Identity.dispatch W.M c)))
  | .settlement c => do
    pure (.settlement (← settlementPart.embed (W.settle c)))

/-- A transaction sent to one of the four. -/
abbrev Tx (A : Type) := Host.Tx A (Payments.Query A) ProtocolError (Call A)

/-- A step of a trace of the system. -/
abbrev Step (A : Type) :=
  Host.Step (State A) A (Payments.Query A) (Event A) ProtocolError (Call A) (Ret A)

/-- All four right after their deployment, each with the admin its constructor
pinned. -/
def deployed (pin : Contract → A) : State A where
  protocol := Protocol.deployed (pin .protocol)
  identity := Identity.deployed (pin .identity)
  settlement := System.deployed (pin .payments) (pin .wallet)

namespace Call

/-- A call to payments. -/
abbrev payments (c : Payments.Call A) : Call A := .settlement (.payments c)

/-- A call to the wallet. -/
abbrev wallet (c : Wallet.Call A) : Call A := .settlement (.wallet c)

def protocol? : Call A → Option (Protocol.Call A)
  | .protocol c => some c
  | _ => none

def identity? : Call A → Option (Identity.Call A)
  | .identity c => some c
  | _ => none

def settlement? : Call A → Option (System.Call A)
  | .settlement c => some c
  | _ => none

end Call

/-! ## A step of the system is a step of one contract -/

section Steps

variable [DecidableEq A] {W : Setting A} {s : State A}

/-- The transaction protocol sees. -/
def protocolTx (s : State A) (env : Env A (Payments.Query A) ProtocolError)
    (c : Protocol.Call A) : Protocol.Tx A :=
  ⟨protocolPart.env env s, c⟩

/-- The transaction identity sees. -/
def identityTx (s : State A) (env : Env A (Payments.Query A) ProtocolError)
    (c : Identity.Call A) : Identity.Tx A :=
  ⟨identityPart.env env s, c⟩

theorem protocol_after (env : Env A (Payments.Query A) ProtocolError) (c : Protocol.Call A) :
    after (dispatch W) s ⟨env, .protocol c⟩ =
      { s with protocol := after (Protocol.dispatch W.M) s.protocol (protocolTx s env c) } :=
  (protocolPart.stepOf_embed rfl env s).2

theorem identity_result (env : Env A (Payments.Query A) ProtocolError) (c : Identity.Call A) :
    (stepOf (dispatch W) s ⟨env, .identity c⟩).out.result =
      (stepOf (Identity.dispatch W.M) s.identity (identityTx s env c)).out.result.map .identity :=
  (identityPart.stepOf_embed rfl env s).1

theorem identity_after (env : Env A (Payments.Query A) ProtocolError) (c : Identity.Call A) :
    after (dispatch W) s ⟨env, .identity c⟩ =
      { s with identity := after (Identity.dispatch W.M) s.identity (identityTx s env c) } :=
  (identityPart.stepOf_embed rfl env s).2

/-- Payments and wallet see the transaction that was sent. -/
theorem settlement_result (env : Env A (Payments.Query A) ProtocolError) (c : System.Call A) :
    (stepOf (dispatch W) s ⟨env, .settlement c⟩).out.result =
      (stepOf W.settle s.settlement ⟨env, c⟩).out.result.map .settlement :=
  (settlementPart.stepOf_embed rfl env s).1

theorem settlement_after (env : Env A (Payments.Query A) ProtocolError) (c : System.Call A) :
    after (dispatch W) s ⟨env, .settlement c⟩ =
      { s with settlement := after W.settle s.settlement ⟨env, c⟩ } :=
  (settlementPart.stepOf_embed rfl env s).2

/-- The transaction payments sees. -/
abbrev paymentsTx (W : Setting A) (s : State A) (env : Env A (Payments.Query A) ProtocolError)
    (c : Payments.Call A) : Payments.Tx A :=
  System.paymentsTx W.walletAddress s.settlement env c

/-- The transaction the wallet sees. -/
abbrev walletTx (s : State A) (env : Env A (Payments.Query A) ProtocolError)
    (c : Wallet.Call A) : Wallet.Tx A :=
  System.walletTx s.settlement env c

theorem payments_after (env : Env A (Payments.Query A) ProtocolError) (c : Payments.Call A) :
    after (dispatch W) s ⟨env, .payments c⟩ =
      { s with settlement := { s.settlement with
        payments := after (Payments.dispatch W.M) s.settlement.payments
          (paymentsTx W s env c) } } := by
  rw [settlement_after, System.payments_after]

theorem wallet_after (env : Env A (Payments.Query A) ProtocolError) (c : Wallet.Call A) :
    after (dispatch W) s ⟨env, .wallet c⟩ =
      { s with settlement := { s.settlement with
        wallet := after (Wallet.dispatch W.M W.nextRevision) s.settlement.wallet
          (walletTx s env c) } } := by
  rw [settlement_after, System.wallet_after]

theorem protocol_succeeded {env : Env A (Payments.Query A) ProtocolError} {c : Protocol.Call A} :
    (stepOf (dispatch W) s ⟨env, .protocol c⟩).Succeeded ↔
      (stepOf (Protocol.dispatch W.M) s.protocol (protocolTx s env c)).Succeeded :=
  protocolPart.succeeded_embed rfl env s

theorem identity_succeeded {env : Env A (Payments.Query A) ProtocolError} {c : Identity.Call A} :
    (stepOf (dispatch W) s ⟨env, .identity c⟩).Succeeded ↔
      (stepOf (Identity.dispatch W.M) s.identity (identityTx s env c)).Succeeded :=
  identityPart.succeeded_embed rfl env s

theorem settlement_succeeded {env : Env A (Payments.Query A) ProtocolError}
    {c : System.Call A} :
    (stepOf (dispatch W) s ⟨env, .settlement c⟩).Succeeded ↔
      (stepOf W.settle s.settlement ⟨env, c⟩).Succeeded :=
  settlementPart.succeeded_embed rfl env s

theorem payments_succeeded {env : Env A (Payments.Query A) ProtocolError} {c : Payments.Call A} :
    (stepOf (dispatch W) s ⟨env, .payments c⟩).Succeeded ↔
      (stepOf (Payments.dispatch W.M) s.settlement.payments (paymentsTx W s env c)).Succeeded :=
  settlement_succeeded.trans System.payments_succeeded

theorem wallet_succeeded {env : Env A (Payments.Query A) ProtocolError} {c : Wallet.Call A} :
    (stepOf (dispatch W) s ⟨env, .wallet c⟩).Succeeded ↔
      (stepOf (Wallet.dispatch W.M W.nextRevision) s.settlement.wallet
        (walletTx s env c)).Succeeded :=
  settlement_succeeded.trans System.wallet_succeeded

/-- A call to identity that lands there lands in the system. -/
theorem identity_lands {env : Env A (Payments.Query A) ProtocolError} {c : Identity.Call A}
    {r : Identity.Ret A} {t : Identity.Store A}
    (h : (stepOf (Identity.dispatch W.M) s.identity (identityTx s env c)).out.result = .ok r ∧
      after (Identity.dispatch W.M) s.identity (identityTx s env c) = t) :
    (stepOf (dispatch W) s ⟨env, .identity c⟩).out.result = .ok (.identity r) ∧
      after (dispatch W) s ⟨env, .identity c⟩ = { s with identity := t } := by
  rw [identity_result, identity_after, h.1, h.2]
  exact ⟨rfl, rfl⟩

theorem wallet_lands {env : Env A (Payments.Query A) ProtocolError} {c : Wallet.Call A}
    {r : Wallet.Ret A} {t : Wallet.Store A}
    (h : (stepOf (Wallet.dispatch W.M W.nextRevision) s.settlement.wallet
        (walletTx s env c)).out.result = .ok r ∧
      after (Wallet.dispatch W.M W.nextRevision) s.settlement.wallet (walletTx s env c) = t) :
    (stepOf (dispatch W) s ⟨env, .wallet c⟩).out.result = .ok (.settlement (.wallet r)) ∧
      after (dispatch W) s ⟨env, .wallet c⟩ =
        { s with settlement := { s.settlement with wallet := t } } := by
  have hresult : (stepOf W.settle s.settlement ⟨env, .wallet c⟩).out.result =
      (stepOf (Wallet.dispatch W.M W.nextRevision) s.settlement.wallet
        (walletTx s env c)).out.result.map .wallet :=
    (System.walletPart.stepOf_embed rfl env s.settlement).1
  rw [settlement_result, hresult, wallet_after, h.1, h.2]
  exact ⟨rfl, rfl⟩

theorem payments_lands {env : Env A (Payments.Query A) ProtocolError} {c : Payments.Call A}
    {r : Payments.Ret A} {t : Payments.Store A}
    (h : (stepOf (Payments.dispatch W.M) s.settlement.payments
        (paymentsTx W s env c)).out.result = .ok r ∧
      after (Payments.dispatch W.M) s.settlement.payments (paymentsTx W s env c) = t) :
    (stepOf (dispatch W) s ⟨env, .payments c⟩).out.result = .ok (.settlement (.payments r)) ∧
      after (dispatch W) s ⟨env, .payments c⟩ =
        { s with settlement := { s.settlement with payments := t } } := by
  rw [settlement_result, System.payments_result, payments_after, h.1, h.2]
  exact ⟨rfl, rfl⟩

end Steps

/-! ## Contracts that are asked nothing run alone -/

section Alone

variable [DecidableEq A] (W : Setting A)

omit [DecidableEq A] in
theorem protocolPart_outward : (protocolPart (A := A)).Outward := by
  intro x
  cases x

omit [DecidableEq A] in
theorem identityPart_outward : (identityPart (A := A)).Outward := by
  intro x
  cases x

omit [DecidableEq A] in
theorem settlementPart_outward : (settlementPart (A := A)).Outward := by
  intro x
  exact ⟨x, fun _ => rfl⟩

omit [DecidableEq A] in
theorem walletPart_outward : (System.walletPart (A := A)).Outward := by
  intro x
  cases x

theorem protocolPart_serves :
    protocolPart.Serves (Protocol.dispatch W.M) (dispatch W) Call.protocol? Ret.protocol where
  own := by
    intro d c hd
    cases d with
    | protocol c' =>
      obtain rfl : c' = c := Option.some.inj hd
      rfl
    | identity => cases hd
    | settlement => cases hd
  others := by
    intro t tx hd
    obtain ⟨env, d⟩ := tx
    cases d with
    | protocol => cases hd
    | identity c => rw [identity_after]; rfl
    | settlement c => rw [settlement_after]; rfl

theorem identityPart_serves :
    identityPart.Serves (Identity.dispatch W.M) (dispatch W) Call.identity? Ret.identity where
  own := by
    intro d c hd
    cases d with
    | identity c' =>
      obtain rfl : c' = c := Option.some.inj hd
      rfl
    | protocol => cases hd
    | settlement => cases hd
  others := by
    intro t tx hd
    obtain ⟨env, d⟩ := tx
    cases d with
    | identity => cases hd
    | protocol c => rw [protocol_after]; rfl
    | settlement c => rw [settlement_after]; rfl

theorem settlementPart_serves :
    settlementPart.Serves W.settle (dispatch W) Call.settlement? Ret.settlement where
  own := by
    intro d c hd
    cases d with
    | settlement c' =>
      obtain rfl : c' = c := Option.some.inj hd
      rfl
    | protocol => cases hd
    | identity => cases hd
  others := by
    intro t tx hd
    obtain ⟨env, d⟩ := tx
    cases d with
    | settlement => cases hd
    | protocol c => rw [protocol_after]; rfl
    | identity c => rw [identity_after]; rfl

/-- Within its part, the wallet serves its own calls. -/
theorem walletPart_serves :
    System.walletPart.Serves (Wallet.dispatch W.M W.nextRevision) W.settle System.Call.wallet?
      System.Ret.wallet where
  own := by
    intro d c hd
    cases d with
    | wallet c' =>
      obtain rfl : c' = c := Option.some.inj hd
      rfl
    | payments => cases hd
  others := by
    intro t tx hd
    obtain ⟨env, d⟩ := tx
    cases d with
    | wallet => cases hd
    | payments c => rw [System.payments_after]; rfl

/-! ## The calls of each contract in a run of the system -/

/-- The calls to protocol, as protocol sees them. -/
def protocolTxs (s : State A) (txs : List (Tx A)) : List (Protocol.Tx A) :=
  txs.filterMap (protocolPart.ownTx Call.protocol? s)

def identityTxs (s : State A) (txs : List (Tx A)) : List (Identity.Tx A) :=
  txs.filterMap (identityPart.ownTx Call.identity? s)

def settlementTxs (s : State A) (txs : List (Tx A)) : List (System.Tx A) :=
  txs.filterMap (settlementPart.ownTx Call.settlement? s)

def walletTxs (s : State A) (txs : List (Tx A)) : List (Wallet.Tx A) :=
  (settlementTxs s txs).filterMap (System.walletPart.ownTx System.Call.wallet? s.settlement)

/-- The calls of a trace that `mine` picks out, each with its answer. -/
def answered {τ B Y Ev' D C R' : Type} (mine : D → Option C)
    (steps : List (Host.Step τ B Y Ev' ProtocolError D R')) :
    List (C × Except (Fault ProtocolError) R') :=
  steps.filterMap (Component.ownAnswer mine)

/-- The calls of a contract's own trace, each with its answer as `wrap` embeds it in
a larger system. -/
def answersAs {σ B X Ev C R R' : Type} (wrap : R → R')
    (steps : List (Host.Step σ B X Ev ProtocolError C R)) :
    List (C × Except (Fault ProtocolError) R') :=
  steps.map fun st => (st.tx.call, st.out.result.map wrap)

section Own

variable (s : State A) (txs : List (Tx A))

theorem protocol_alone :
    (run (dispatch W) s txs).protocol =
        run (Protocol.dispatch W.M) s.protocol (protocolTxs s txs) ∧
      answered Call.protocol? (trace (dispatch W) s txs) =
        answersAs .protocol (trace (Protocol.dispatch W.M) s.protocol (protocolTxs s txs)) :=
  Component.run_own protocolPart_outward (protocolPart_serves W) s txs s

theorem identity_alone :
    (run (dispatch W) s txs).identity =
        run (Identity.dispatch W.M) s.identity (identityTxs s txs) ∧
      answered Call.identity? (trace (dispatch W) s txs) =
        answersAs .identity (trace (Identity.dispatch W.M) s.identity (identityTxs s txs)) :=
  Component.run_own identityPart_outward (identityPart_serves W) s txs s

theorem settlement_alone :
    (run (dispatch W) s txs).settlement = run W.settle s.settlement (settlementTxs s txs) ∧
      answered Call.settlement? (trace (dispatch W) s txs) =
        answersAs .settlement (trace W.settle s.settlement (settlementTxs s txs)) :=
  Component.run_own settlementPart_outward (settlementPart_serves W) s txs s

theorem wallet_alone :
    (run (dispatch W) s txs).settlement.wallet =
        run (Wallet.dispatch W.M W.nextRevision) s.settlement.wallet (walletTxs s txs) ∧
      answered System.Call.wallet? (trace W.settle s.settlement (settlementTxs s txs)) =
        answersAs .wallet
          (trace (Wallet.dispatch W.M W.nextRevision) s.settlement.wallet (walletTxs s txs)) := by
  have hwallet := Component.run_own walletPart_outward (walletPart_serves W) s.settlement
    (settlementTxs s txs) s.settlement
  refine ⟨?_, hwallet.2⟩
  rw [(settlement_alone W s txs).1]
  exact hwallet.1

/-- Payments' part is a run of payments, with the answers the wallet gave. -/
theorem payments_run :
    ∃ ptxs, (run (dispatch W) s txs).settlement.payments =
      run (Payments.dispatch W.M) s.settlement.payments ptxs := by
  rw [(settlement_alone W s txs).1]
  exact System.payments_run W.M W.nextRevision W.walletAddress s.settlement _

end Own

/-- **Each contract runs alone**: from any state and in any interleaving of calls to
the four, what is stored by protocol, by identity, and by payments with the wallet it
asks, is what the run of that part's own calls stores, and each of them is answered
as in that run; and within the last part the same is true of the wallet. -/
theorem contracts_run_alone (s : State A) (txs : List (Tx A)) :
    ((run (dispatch W) s txs).protocol =
        run (Protocol.dispatch W.M) s.protocol (protocolTxs s txs) ∧
      answered Call.protocol? (trace (dispatch W) s txs) =
        answersAs .protocol (trace (Protocol.dispatch W.M) s.protocol (protocolTxs s txs))) ∧
    ((run (dispatch W) s txs).identity =
        run (Identity.dispatch W.M) s.identity (identityTxs s txs) ∧
      answered Call.identity? (trace (dispatch W) s txs) =
        answersAs .identity (trace (Identity.dispatch W.M) s.identity (identityTxs s txs))) ∧
    ((run (dispatch W) s txs).settlement = run W.settle s.settlement (settlementTxs s txs) ∧
      answered Call.settlement? (trace (dispatch W) s txs) =
        answersAs .settlement (trace W.settle s.settlement (settlementTxs s txs))) ∧
    (run (dispatch W) s txs).settlement.wallet =
        run (Wallet.dispatch W.M W.nextRevision) s.settlement.wallet (walletTxs s txs) ∧
      answered System.Call.wallet? (trace W.settle s.settlement (settlementTxs s txs)) =
        answersAs .wallet
          (trace (Wallet.dispatch W.M W.nextRevision) s.settlement.wallet (walletTxs s txs)) :=
  ⟨protocol_alone W s txs, identity_alone W s txs, settlement_alone W s txs, wallet_alone W s txs⟩

end Alone

/-! ## A concrete suite

Numbered addresses: 0 is the admin of all four contracts, 8 the wallet contract, 1 and 2
are agents, 3 is their controller and 5 the wallet of 1. -/

namespace Sample

def setting : Setting Nat where
  M := .documented
  nextRevision := Wallet.Sample.nextRevision
  walletAddress := 8

def env : Env Nat (Payments.Query Nat) ProtocolError where
  signs := fun _ => false
  timestamp := 0
  answer := fun _ => .ok false

/-- A call signed by `signers`. -/
def tx (signers : List Nat) (call : Call Nat) : Tx Nat :=
  ⟨{ env with signs := fun a => a ∈ signers }, call⟩

/-- The contracts an agent deals with, initialized. -/
def initializeTxs : List (Tx Nat) :=
  [tx [0] (.identity (.initializeContract 0)), tx [0] (.wallet (.initializeContract 0)),
    tx [0] (.payments (.initializeContract 0 9 250 8))]

end Sample

end Suite

end LilyContracts
