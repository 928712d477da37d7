import LilyContracts.Suite.Hosting
import LilyContracts.Host.Client

/-!
# `scripts/init-contracts.sh`

The script reads a config file, checks it, and initializes protocol, identity, wallet
and payments in this order: of each contract it asks `is_initialized` and, unless the
answer is yes, calls `initialize`. `set -e` stops it at the first call that fails.
Here it is a client of the ledger (`Host/Client.lean`) that provisions four targets, on
a host that authorizes an address once per frame or on one that does not
(`Suite/Hosting.lean`).

What stands between the file and the calls is a parameter, `StellarCli`: how the
command line resolves a source account, a contract id on a network and its textual
arguments. Payments stores one more address, `wallet`, that its `initialize` uses and
does not declare. The script passes none; `StellarCli.wallet` is there for a command
line that does, and without it there is no call that initializes payments.
-/

namespace LilyContracts.Suite

open Host

variable {A : Type}

/-! ## Initialization, contract by contract -/

/-- `is_initialized` of one contract. -/
def isInitializedCall : Contract → Call A
  | .identity => .identity .isInitialized
  | .protocol => .protocol .isInitialized
  | .payments => .payments .isInitialized
  | .wallet => .wallet .isInitialized

/-- What `is_initialized` of the contract reads. -/
def initialized : Contract → State A → Bool
  | .identity, s => s.identity.initialized.isSome
  | .protocol, s => s.protocol.initialized.isSome
  | .payments, s => s.settlement.payments.initialized.isSome
  | .wallet, s => s.settlement.wallet.initialized.isSome

/-- The call is `initialize` of the contract. -/
def initializes : Contract → Call A → Bool
  | .identity, .identity c => c.initializes
  | .protocol, .protocol c => c.initializes
  | .payments, .settlement (.payments c) => c.initializes
  | .wallet, .settlement (.wallet c) => c.initializes
  | _, _ => false

/-- The answer is printed as `true`. -/
def Ret.isTrue : Ret A → Bool
  | .identity (.bool b) | .protocol (.bool b) | .settlement (.payments (.bool b))
  | .settlement (.wallet (.bool b)) => b
  | _ => false

section Latch

variable [DecidableEq A] {W : Setting A} {once : Bool}

omit [DecidableEq A] in
/-- A flag of one contract, and its `initialize`, seen in the system. -/
theorem latch_of_part {σ X Y Ev Ev' C D R R' : Type} {prog : C → Prog σ A X Ev ProtocolError R}
    {sys : D → Prog (State A) A Y Ev' ProtocolError R'} {flag : σ → Bool}
    {flag' : State A → Bool} {picks : C → Bool} {picks' : D → Bool} (part : State A → σ)
    (h : Latch prog flag picks) {s : State A} {tx : Host.Tx A X ProtocolError C}
    {tx' : Host.Tx A Y ProtocolError D} (hflag : ∀ s, flag' s = flag (part s))
    (hafter : part (after sys s tx') = after prog (part s) tx)
    (hcall : picks' tx'.call = picks tx.call)
    (hok : (stepOf sys s tx').Succeeded ↔ (stepOf prog (part s) tx).Succeeded) :
    (flag' (after sys s tx')).toNat =
      (flag' s).toNat + ((stepOf sys s tx').does picks').toNat := by
  have hdoes : (stepOf sys s tx').does picks' = (stepOf prog (part s) tx).does picks := by
    unfold Step.does
    rw [stepOf_tx, stepOf_tx, hcall, decide_eq_decide.mpr hok]
  rw [hflag, hflag, hafter, hdoes]
  exact h.step (part s) tx

/-- **Initialization of each contract is a latch of the system**: its flag is raised
by a successful `initialize` of that contract, which finds it down, and by nothing
else. -/
theorem latch (W : Setting A) (i : Contract) :
    Latch (dispatch W) (initialized i) (initializes i) where
  step := by
    intro s tx
    obtain ⟨env, c⟩ := tx
    -- a call to another contract neither changes the flag nor counts
    have hother : initialized i (after (dispatch W) s ⟨env, c⟩) = initialized i s →
        initializes i c = false → (initialized i (after (dispatch W) s ⟨env, c⟩)).toNat =
          (initialized i s).toNat +
            ((stepOf (dispatch W) s ⟨env, c⟩).does (initializes i)).toNat := by
      intro hsame hnot
      rw [hsame, does_of_not_picked hnot]
      rfl
    match c with
    | .protocol c =>
      cases i with
      | protocol =>
        exact latch_of_part (·.protocol) (Protocol.gate W.M).toLatch (fun _ => rfl)
          (by rw [protocol_after]) rfl protocol_succeeded
      | _ => exact hother (by rw [protocol_after]; rfl) rfl
    | .identity c =>
      cases i with
      | identity =>
        exact latch_of_part (·.identity) (Identity.gate W.M).toLatch (fun _ => rfl)
          (by rw [identity_after]) rfl identity_succeeded
      | _ => exact hother (by rw [identity_after]; rfl) rfl
    | .settlement (.payments c) =>
      cases i with
      | payments =>
        exact latch_of_part (·.settlement.payments) (Payments.gate W.M).toLatch (fun _ => rfl)
          (by rw [payments_after]) rfl payments_succeeded
      | _ => exact hother (by rw [payments_after]; rfl) rfl
    | .settlement (.wallet c) =>
      cases i with
      | wallet =>
        exact latch_of_part (·.settlement.wallet) (Wallet.gate W.M W.nextRevision).toLatch
          (fun _ => rfl) (by rw [wallet_after]) rfl wallet_succeeded
      | _ => exact hother (by rw [wallet_after]; rfl) rfl

/-- `is_initialized` always answers, truthfully, and changes nothing. -/
theorem isInitialized_step (once : Bool) (i : Contract) (s : State A)
    (env : Env A (Payments.Query A) ProtocolError) :
    after (hosted once (dispatch W)) s ⟨env, isInitializedCall i⟩ = s ∧
      ∃ r, (stepOf (hosted once (dispatch W)) s ⟨env, isInitializedCall i⟩).out.result = .ok r ∧
        r.isTrue = initialized i s := by
  have hchecks : (isInitializedCall i : Call A).ChecksEachOnce := by cases i <;> exact trivial
  rw [after, stepOf_of_checksEachOnce hchecks]
  cases i with
  | identity => exact ⟨rfl, _, rfl, rfl⟩
  | protocol => exact ⟨rfl, _, rfl, rfl⟩
  | payments => exact ⟨rfl, _, rfl, rfl⟩
  | wallet => exact ⟨rfl, _, rfl, rfl⟩

end Latch

/-! ## The config file -/

/-- The fields of the config file, as `json_get` prints them. -/
structure Config where
  network : String
  sourceAccount : String
  admin : String
  treasury : String
  feeBps : String
  protocolId : String
  paymentsId : String
  identityId : String
  walletId : String
  deriving DecidableEq

/-- The shell variables, in the order in which they are looked through. -/
def Config.variables (config : Config) : List (String × String) :=
  [("NETWORK", config.network), ("SOURCE", config.sourceAccount), ("ADMIN", config.admin),
    ("TREASURY", config.treasury), ("FEE_BPS", config.feeBps),
    ("PROTOCOL_ID", config.protocolId), ("PAYMENTS_ID", config.paymentsId),
    ("IDENTITY_ID", config.identityId), ("WALLET_ID", config.walletId)]

/-- The variables that are empty, or `null`, as jq prints a field that is not
there. -/
def Config.missing (config : Config) : List String :=
  (config.variables.filter fun v => v.2 = "" ∨ v.2 = "null").map (·.1)

/-- Why the script ends before it calls anything. -/
inductive Rejection
  | noStellarCli
  | configNotFound (file : String)
  | missingFields (names : List String)
  | notAnAddress (name value : String)
  deriving DecidableEq

/-- What it prints then. -/
def Rejection.message : Rejection → String
  | .noStellarCli => "Error: stellar CLI is not installed."
  | .configNotFound file => "Error: config file not found: " ++ file
  | .missingFields names =>
    "Error: missing required config fields:" ++ String.join (names.map (" " ++ ·))
  | .notAnAddress name value =>
    "Error: " ++ name ++ " does not look like a Stellar address: " ++ value

/-- The pattern `G*|C*`. -/
def looksLikeAddress (value : String) : Bool :=
  value.startsWith "G" || value.startsWith "C"

/-- Go on, or print the message to stderr and exit with 1. -/
def orExit (ok : Bool) (rejection : Rejection) : Except Rejection Unit :=
  if ok then .ok () else .error rejection

def validateAddress (name value : String) : Except Rejection Unit :=
  orExit (looksLikeAddress value) (.notAnAddress name value)

/-- The checks before the first call. -/
def prepare (stellarInstalled : Bool) (configFile : String)
    (readConfig : String → Option Config) : Except Rejection Config := do
  orExit stellarInstalled .noStellarCli
  let config ← (readConfig configFile).elim (.error (.configNotFound configFile)) .ok
  orExit (config.missing = []) (.missingFields config.missing)
  validateAddress "admin" config.admin
  validateAddress "treasury" config.treasury
  validateAddress "protocol contract" config.protocolId
  validateAddress "payments contract" config.paymentsId
  validateAddress "identity contract" config.identityId
  validateAddress "wallet contract" config.walletId
  .ok config

/-- What passes the checks: no field is missing, and the six addresses look like
some. -/
def Config.Plausible (config : Config) : Prop :=
  config.missing = [] ∧ ∀ value ∈ [config.admin, config.treasury, config.protocolId,
    config.paymentsId, config.identityId, config.walletId], looksLikeAddress value = true

theorem orExit_bind_eq_ok {α : Type} {ok : Bool} {rejection : Rejection} {a : α}
    {f : Unit → Except Rejection α} :
    orExit ok rejection >>= f = .ok a ↔ ok = true ∧ f () = .ok a := by
  cases ok with
  | true => exact ⟨fun h => ⟨rfl, h⟩, fun h => h.2⟩
  | false => exact ⟨fun h => (nomatch h), fun h => (nomatch h.1)⟩

theorem prepare_eq_ok {stellarInstalled : Bool} {configFile : String}
    {readConfig : String → Option Config} {config : Config} :
    prepare stellarInstalled configFile readConfig = .ok config ↔
      stellarInstalled = true ∧ readConfig configFile = some config ∧ config.Plausible := by
  unfold prepare Config.Plausible
  cases hread : readConfig configFile with
  | none =>
    rw [orExit_bind_eq_ok]
    exact ⟨fun h => (nomatch h.2), fun h => (nomatch h.2.1)⟩
  | some found =>
    show (orExit stellarInstalled .noStellarCli >>= fun _ => (do
      orExit (found.missing = []) (.missingFields found.missing)
      _ : Except Rejection Config)) = .ok config ↔ _
    simp only [validateAddress, orExit_bind_eq_ok, decide_eq_true_eq, Option.some.injEq,
      Except.ok.injEq, List.forall_mem_cons]
    constructor
    · intro h
      obtain ⟨hcli, hmissing, ha, ht, hp, hpay, hi, hw, rfl⟩ := h
      exact ⟨hcli, rfl, hmissing, ha, ht, hp, hpay, hi, hw, List.forall_mem_nil _⟩
    · intro h
      obtain ⟨hcli, rfl, hmissing, ha, ht, hp, hpay, hi, hw, _⟩ := h
      exact ⟨hcli, hmissing, ha, ht, hp, hpay, hi, hw, rfl⟩

/-- The values that have to look like addresses, under the names the messages give
them. -/
def Config.addresses (config : Config) : List (String × String) :=
  [("admin", config.admin), ("treasury", config.treasury),
    ("protocol contract", config.protocolId), ("payments contract", config.paymentsId),
    ("identity contract", config.identityId), ("wallet contract", config.walletId)]

/-- What the rejection says is so. -/
def Rejection.Owed (stellarInstalled : Bool) (configFile : String)
    (readConfig : String → Option Config) : Rejection → Prop
  | .noStellarCli => stellarInstalled = false
  | .configNotFound file => file = configFile ∧ readConfig file = none
  | .missingFields names => names ≠ [] ∧ ∃ config, readConfig configFile = some config ∧
      ∀ name, name ∈ names ↔ ∃ value, (name, value) ∈ config.variables ∧
        (value = "" ∨ value = "null")
  | .notAnAddress name value => looksLikeAddress value = false ∧
      ∃ config, readConfig configFile = some config ∧ (name, value) ∈ config.addresses

theorem Config.mem_missing {config : Config} {name : String} :
    name ∈ config.missing ↔
      ∃ value, (name, value) ∈ config.variables ∧ (value = "" ∨ value = "null") := by
  unfold Config.missing
  simp only [List.mem_map, List.mem_filter, decide_eq_true_eq, Prod.exists, exists_and_right,
    exists_eq_right]

theorem orExit_bind_eq_error {α : Type} {ok : Bool} {rejection r : Rejection}
    {f : Unit → Except Rejection α} :
    orExit ok rejection >>= f = .error r ↔
      (ok = false ∧ rejection = r) ∨ (ok = true ∧ f () = .error r) := by
  cases ok with
  | true => exact ⟨fun h => .inr ⟨rfl, h⟩, fun h => h.elim (fun h => (nomatch h.1)) And.right⟩
  | false =>
    refine ⟨fun h => .inl ⟨rfl, Except.error.inj h⟩, fun h => ?_⟩
    rcases h with ⟨_, rfl⟩ | ⟨h, _⟩
    · rfl
    · cases h

/-- A run that ends before its first call says why, and names what is wrong. -/
theorem prepare_rejects {stellarInstalled : Bool} {configFile : String}
    {readConfig : String → Option Config} {rejection : Rejection}
    (h : prepare stellarInstalled configFile readConfig = .error rejection) :
    rejection.Owed stellarInstalled configFile readConfig := by
  unfold prepare at h
  rcases orExit_bind_eq_error.mp h with ⟨hcli, rfl⟩ | ⟨_, h⟩
  · exact hcli
  cases hread : readConfig configFile with
  | none =>
    rw [hread] at h
    obtain rfl := Except.error.inj h
    exact ⟨rfl, hread⟩
  | some config =>
    rw [hread] at h
    rcases orExit_bind_eq_error.mp h with ⟨hmissing, rfl⟩ | ⟨_, h⟩
    · exact ⟨of_decide_eq_false hmissing, config, hread, fun name => Config.mem_missing⟩
    -- the first address that does not look like one
    have hfirst : ∃ v ∈ config.addresses, looksLikeAddress v.2 = false ∧
        rejection = .notAnAddress v.1 v.2 := by
      simp only [validateAddress, orExit_bind_eq_error, reduceCtorEq, and_false, or_false] at h
      rcases h with ⟨hv, rfl⟩ | ⟨_, ⟨hv, rfl⟩ | ⟨_, ⟨hv, rfl⟩ | ⟨_, ⟨hv, rfl⟩ | ⟨_, ⟨hv, rfl⟩ |
        ⟨_, ⟨hv, rfl⟩⟩⟩⟩⟩⟩
      all_goals simp [Config.addresses, hv]
    obtain ⟨v, hmem, hlooks, rfl⟩ := hfirst
    exact ⟨hlooks, config, hread, hmem⟩

/-! ## The calls -/

/-- What the command line makes of its arguments. -/
structure StellarCli (A : Type) where
  /-- The address a source account signs for. -/
  sourceAccount : String → Option A
  /-- Which of the contracts an id names, on a network. -/
  contract : String → String → Option Contract
  address : String → Option A
  u32 : String → Option UInt32
  /-- What is passed for `wallet` of payments. The script passes nothing. -/
  wallet : Option A

/-- The contract id in the config file. -/
def Config.id (config : Config) : Contract → String
  | .identity => config.identityId
  | .protocol => config.protocolId
  | .payments => config.paymentsId
  | .wallet => config.walletId

/-- `initialize --admin --treasury --fee_bps`, of a contract that takes these. -/
def initializeGlobal (cli : StellarCli A) (config : Config) : Contract → Option (Call A)
  | .protocol => do
    some (.protocol (.initializeContract (← cli.address config.admin)
      (← cli.address config.treasury) (← cli.u32 config.feeBps)))
  | .payments => do
    some (.payments (.initializeContract (← cli.address config.admin)
      (← cli.address config.treasury) (← cli.u32 config.feeBps) (← cli.wallet)))
  | .identity | .wallet => none

/-- `initialize --admin`, of a contract that takes no more. -/
def initializeAdmin (cli : StellarCli A) (config : Config) : Contract → Option (Call A)
  | .identity => do some (.identity (.initializeContract (← cli.address config.admin)))
  | .wallet => do some (.wallet (.initializeContract (← cli.address config.admin)))
  | .protocol | .payments => none

/-- The arguments the script initializes each contract with. -/
def initializeArgs (cli : StellarCli A) (config : Config) : Contract → Contract → Option (Call A)
  | .protocol | .payments => initializeGlobal cli config
  | .identity | .wallet => initializeAdmin cli config

/-- `stellar contract invoke`. -/
def invokeContract [DecidableEq A] (cli : StellarCli A) (config : Config) (id : String)
    (call : Contract → Option (Call A)) : Option (Submission A (Call A)) := do
  let source ← cli.sourceAccount config.sourceAccount
  let i ← cli.contract config.network id
  some ⟨fun a => a = source, ← call i⟩

/-- One contract: `is_initialized`, and `invoke_initialize` unless it says yes. -/
def initTarget [DecidableEq A] (cli : StellarCli A) (config : Config) (role : Contract) :
    Target A (Call A) (Ret A) where
  query := invokeContract cli config (config.id role) fun i => some (isInitializedCall i)
  up := Ret.isTrue
  setup := invokeContract cli config (config.id role) (initializeArgs cli config role)

/-- Protocol is initialized first and payments last. -/
def initOrder : List Contract := [.protocol, .identity, .wallet, .payments]

/-- The script. -/
def initContracts [DecidableEq A] (cli : StellarCli A) (prepared : Except Rejection Config) :
    Client A (Call A) (Ret A) :=
  match prepared with
  | .error _ => .done false
  | .ok config => .ensureAll (initTarget cli config) initOrder

/-! ## What the calls do -/

section Targets

variable [DecidableEq A] {W : Setting A} {once : Bool} {cli : StellarCli A} {config : Config}
  {role i : Contract} {c : Call A} {sub : Submission A (Call A)}

omit [DecidableEq A] in
/-- Whatever contract an id names, what the script sends it is an `initialize` of
that contract. -/
theorem initializes_initializeArgs (h : initializeArgs cli config role i = some c) :
    initializes i c = true := by
  have hglobal : initializeGlobal cli config i = some c → initializes i c = true := by
    intro hc
    cases i with
    | protocol =>
      simp only [initializeGlobal, Option.bind_eq_bind, Option.bind_eq_some_iff,
        Option.some.injEq] at hc
      obtain ⟨_, _, _, _, _, _, rfl⟩ := hc
      rfl
    | payments =>
      simp only [initializeGlobal, Option.bind_eq_bind, Option.bind_eq_some_iff,
        Option.some.injEq] at hc
      obtain ⟨_, _, _, _, _, _, _, _, rfl⟩ := hc
      rfl
    | identity | wallet => cases hc
  have hadmin : initializeAdmin cli config i = some c → initializes i c = true := by
    intro hc
    cases i with
    | identity | wallet =>
      simp only [initializeAdmin, Option.bind_eq_bind, Option.bind_eq_some_iff,
        Option.some.injEq] at hc
      obtain ⟨_, _, rfl⟩ := hc
      rfl
    | protocol | payments => cases hc
  cases role with
  | protocol | payments => exact hglobal h
  | identity | wallet => exact hadmin h

theorem invokeContract_eq_some {id : String} {call : Contract → Option (Call A)} :
    invokeContract cli config id call = some sub ↔
      ∃ source i c, cli.sourceAccount config.sourceAccount = some source ∧
        cli.contract config.network id = some i ∧ call i = some c ∧
        (⟨fun a => a = source, c⟩ : Submission A (Call A)) = sub := by
  unfold invokeContract
  simp only [Option.bind_eq_bind, Option.bind_eq_some_iff, Option.some.injEq]
  constructor
  · intro h
    obtain ⟨source, hs, i, hi, c, hc, rfl⟩ := h
    exact ⟨source, i, c, hs, hi, hc, rfl⟩
  · intro h
    obtain ⟨source, i, c, hs, hi, hc, rfl⟩ := h
    exact ⟨source, hs, i, hi, c, hc, rfl⟩

/-- The contract that the config file names for a role is there and initialized. -/
def InitializedAs (cli : StellarCli A) (config : Config) (role : Contract) (s : State A) : Prop :=
  ∃ i, cli.contract config.network (config.id role) = some i ∧ initialized i s = true

/-- What the script is told about a contract is true. -/
theorem initTarget_tells (role : Contract) :
    (initTarget cli config role).Tells (hosted once (dispatch W))
      (InitializedAs cli config role) where
  kept := by
    intro s tx h
    obtain ⟨i, hi, hup⟩ := h
    exact ⟨i, hi, (latch W i).hosted.kept hup tx⟩
  query := by
    intro sub hsub s env r hr hup
    obtain ⟨source, i, c, _, hi, hc, rfl⟩ := invokeContract_eq_some.mp hsub
    obtain rfl : isInitializedCall i = c := Option.some.inj hc
    obtain ⟨_, r', hr', htrue⟩ := isInitialized_step (W := W) once i s _
    obtain rfl : r' = r := Except.ok.inj (hr'.symm.trans hr)
    exact ⟨i, hi, htrue.symm.trans hup⟩
  setup := by
    intro sub hsub s env r hr
    obtain ⟨source, i, c, _, hi, hc, rfl⟩ := invokeContract_eq_some.mp hsub
    exact ⟨i, hi, ((latch W i).hosted.raised
      (does_of_picked (initializes_initializeArgs hc) ⟨r, hr⟩)).2⟩

/-- Every contract the config file names is there and initialized. -/
def AllInitialized (cli : StellarCli A) (config : Config) (s : State A) : Prop :=
  ∀ role, InitializedAs cli config role s

omit [DecidableEq A] in
theorem mem_initOrder (role : Contract) : role ∈ initOrder := by
  cases role <;> decide

/-- Once all are initialized, the script's calls change nothing. -/
theorem initContracts_idle {s : State A} (h : AllInitialized cli config s)
    (hsub : ∃ role, (initTarget cli config role).query = some sub ∨
      (initTarget cli config role).setup = some sub)
    (env : Env A (Payments.Query A) ProtocolError) :
    after (hosted once (dispatch W)) s (sub.land env) = s := by
  obtain ⟨role, hquery | hsetup⟩ := hsub
  · obtain ⟨source, i, c, _, _, hc, rfl⟩ := invokeContract_eq_some.mp hquery
    obtain rfl : isInitializedCall i = c := Option.some.inj hc
    exact (isInitialized_step once i s _).1
  · obtain ⟨source, i, c, _, hi, hc, rfl⟩ := invokeContract_eq_some.mp hsetup
    obtain ⟨j, hj, hup⟩ := h role
    obtain rfl : j = i := Option.some.inj (hj.symm.trans hi)
    -- a success would have found it down
    refine after_of_not_succeeded fun hok => ?_
    rw [((latch W j).hosted.raised
      (does_of_picked (initializes_initializeArgs hc) hok)).1] at hup
    cases hup

end Targets

/-! ## What a success means -/

section Complete

variable [DecidableEq A] {W : Setting A} {once : Bool} {cli : StellarCli A} {config : Config}
  {lossy : Bool}
  {flight : List (Submission A (Call A))} {s s' : State A}
  {l : List (Landed A (Payments.Query A) ProtocolError (Call A))} {x : Option Bool}

/-- The script submits the calls of its four targets and no others. -/
theorem submits_initContracts {P : Submission A (Call A) → Prop}
    (h : ∀ sub, (∃ role, (initTarget cli config role).query = some sub ∨
      (initTarget cli config role).setup = some sub) → P sub) :
    (initContracts cli (.ok config)).Submits P :=
  Client.submits_ensureAll fun role _ sub hsub => h sub ⟨role, hsub⟩

/-- Every contract the file names is initialized when the script ends with success. -/
theorem allInitialized_of_success
    (h : Plays (hosted once (dispatch W)) lossy flight (initContracts cli (.ok config)) s l s'
      (some true)) :
    AllInitialized cli config s' := by
  intro role
  exact Client.ensureAll_complete (fun role _ => initTarget_tells role) flight s s' l true h
    (fun _ _ => trivial) (fun _ _ _ => trivial) trivial rfl role (mem_initOrder role)

/-- **`Initialization complete.` is true**, on either host: when the script ends with
success, its config file had passed the checks and every contract the file names is
initialized, whatever others did meanwhile, whatever went unheard, and whatever earlier
attempts had sent. -/
theorem initContracts_complete {stellarInstalled : Bool} {configFile : String}
    {readConfig : String → Option Config}
    (h : Plays (hosted once (dispatch W)) lossy flight
      (initContracts cli (prepare stellarInstalled configFile readConfig)) s l s' (some true)) :
    ∃ config, readConfig configFile = some config ∧ config.Plausible ∧
      AllInitialized cli config s' := by
  cases hprep : prepare stellarInstalled configFile readConfig with
  | error rejection =>
    rw [hprep] at h
    exact nomatch h.reports
  | ok config =>
    rw [hprep] at h
    obtain ⟨_, hread, hplausible⟩ := prepare_eq_ok.mp hprep
    exact ⟨config, hread, hplausible, allInitialized_of_success h⟩

/-- **A rerun does no harm**, on either host: once the contracts that the file names are
initialized, by whomever and with whatever arguments, an execution of the script,
finished or not, leaves what the transactions of others alone would have left. -/
theorem initContracts_rerun (hs : AllInitialized cli config s)
    (hflight : ∀ sub ∈ flight, ∃ role, (initTarget cli config role).query = some sub ∨
      (initTarget cli config role).setup = some sub)
    (h : Plays (hosted once (dispatch W)) lossy flight (initContracts cli (.ok config)) s l s' x) :
    s' = run (hosted once (dispatch W)) s (others l) := by
  refine h.harmless (I := AllInitialized cli config) ?_ ?_ (submits_initContracts fun _ => id)
    hflight hs
  · intro s sub env hs hsub
    exact initContracts_idle hs hsub env
  · intro s tx hs role
    exact (initTarget_tells role).kept s tx (hs role)

end Complete

/-! ## A concrete deployment

All constructors have pinned the admin that the file names. -/

namespace Sample

def config : Config where
  network := "testnet"
  sourceAccount := "alice"
  admin := "GADMIN"
  treasury := "GTREASURY"
  feeBps := "100"
  protocolId := "CPROTOCOL"
  paymentsId := "CPAYMENTS"
  identityId := "CIDENTITY"
  walletId := "CWALLET"

/-- A file with two fields missing is reported before any call. -/
example : prepare true "deploy.json" (fun _ => some { config with admin := "", walletId := "null" })
    = .error (.missingFields ["ADMIN", "WALLET_ID"]) := by decide +kernel

def cli : StellarCli Nat where
  sourceAccount name := if name = "alice" then some 0 else none
  contract _ id :=
    if id = "CPROTOCOL" then some .protocol
    else if id = "CPAYMENTS" then some .payments
    else if id = "CIDENTITY" then some .identity
    else if id = "CWALLET" then some .wallet
    else none
  address text := if text = "GADMIN" then some 0 else if text = "GTREASURY" then some 9 else none
  u32 text := if text = "100" then some 100 else none
  wallet := some 8

/-- The script, with this file. -/
def script : Client Nat (Call Nat) (Ret Nat) :=
  initContracts cli (prepare true "deploy.json" fun _ => some config)

/-- On a host without the rule it reports success if it is left alone. -/
theorem script_succeeds :
    (script.alone (hosted false (dispatch setting)) env (deployed fun _ => 0)).1 = true := by
  decide +kernel

/-- What it leaves then. -/
def initializedState : State Nat :=
  (script.alone (hosted false (dispatch setting)) env (deployed fun _ => 0)).2

theorem allInitialized : AllInitialized cli config initializedState := by
  intro role
  refine ⟨role, ?_, ?_⟩
  · cases role <;> decide +kernel
  · cases role <;> decide +kernel

end Sample

/-- All four contracts are initialized when the script ends. -/
theorem initContracts_complete_sample :
    ∃ config, (fun _ => some Sample.config) "deploy.json" = some config ∧ config.Plausible ∧
      AllInitialized Sample.cli config Sample.initializedState := by
  obtain ⟨l, _, h⟩ := Client.plays_alone (hosted false (dispatch Sample.setting)) Sample.env
    Sample.script (deployed fun _ => 0)
  rw [Sample.script_succeeds] at h
  exact initContracts_complete h

/-- A second run changes nothing; to this the rule is no obstacle. -/
theorem initContracts_rerun_sample :
    (Client.alone (hosted true (dispatch Sample.setting)) Sample.env
      (initContracts Sample.cli (.ok Sample.config)) Sample.initializedState).2 =
        Sample.initializedState := by
  obtain ⟨l, hl, h⟩ := Client.plays_alone (hosted true (dispatch Sample.setting)) Sample.env
    (initContracts Sample.cli (.ok Sample.config)) Sample.initializedState
  rw [initContracts_rerun Sample.allInitialized (List.forall_mem_nil _) h, hl]
  rfl

end LilyContracts.Suite
