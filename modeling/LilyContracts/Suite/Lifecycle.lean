import LilyContracts.Suite.Footprint
import LilyContracts.Suite.Hosting
import LilyContracts.Host.Client

/-!
# From registration to settlement

`contracts/payments/tests/lifecycle.rs` walks one agent through three contracts: both
parties are registered with identity, the payer's wallet is bound, an intent is
created and the admin settles it. There it is one run, on contracts that nobody else
uses. `lifecycle` is the same walk as a client of the ledger (`Host/Client.lean`),
for any `Order`, and others are let in between its calls, as many as they like.

`lifecycle_completes` says what others cannot do. As long as neither party signs
anything else, nor the controller nor one of the three admins, the walk gets to its
end and leaves exactly the records that were ordered (`Stage`); and one thing alone
can stop it, an id counter that has run out, in which case no intent is recorded. The
contracts have been initialized before. From there on it makes no difference whether
the host authorizes an address once per frame, because in a valid order no address signs
a call in two roles (`Order.Valid.wallet`).
-/

namespace LilyContracts

open Host

/-! ## The calls of the walk -/

namespace Identity

theorem register_lands {A : Type} [DecidableEq A] {M : Missing} {s : Store A}
    {agent controller : A} {uri : HostString} {env : Env A Empty ProtocolError}
    (hinit : s.initialized.isSome = true) (huri : uri ≠ HostString.empty)
    (hfresh : s.profile agent = none) (hsigned : env.signs agent = true) :
    (stepOf (dispatch M) s ⟨env, .register agent controller uri⟩).out.result = .ok .unit ∧
      after (dispatch M) s ⟨env, .register agent controller uri⟩ =
        s.put agent ⟨controller, uri, true, 0⟩ := by
  have hexec : exec env (register agent controller uri) ⟨s, []⟩ = .ok ((), _) :=
    exec_register_ok.mpr ⟨hinit, huri, hfresh, hsigned, rfl⟩
  exact lands_of_exec_ok (exec_map_ok.mpr ⟨(), hexec, rfl⟩)

end Identity

namespace Wallet

theorem bindWallet_lands {A : Type} [DecidableEq A] {M : Missing} {nextRevision : NextRevision A}
    {s : Store A} {agent wallet : A} {asset : Symbol} {limit : I128}
    {env : Env A Empty ProtocolError} (hinit : s.initialized.isSome = true)
    (hlimit : 0 < limit.val) (hfresh : s.binding agent = none)
    (hagent : env.signs agent = true) (hwallet : env.signs wallet = true) :
    (stepOf (dispatch M nextRevision) s ⟨env, .bindWallet agent wallet asset limit⟩).out.result =
        .ok .unit ∧
      after (dispatch M nextRevision) s ⟨env, .bindWallet agent wallet asset limit⟩ =
        s.put agent ⟨wallet, asset, limit, true, 0⟩ := by
  have hexec : exec env (bindWallet agent wallet asset limit) ⟨s, []⟩ = .ok ((), _) :=
    exec_bindWallet_ok.mpr ⟨hinit, hlimit, hagent, hwallet, hfresh, rfl⟩
  exact lands_of_exec_ok (exec_map_ok.mpr ⟨(), hexec, rfl⟩)

end Wallet

namespace Payments

variable {A : Type} [DecidableEq A] {M : Missing} {pin : A} {s : Store A} {p : A}

/-- No id is left to give out. -/
def Exhausted (s : Store A) : Prop :=
  ∃ n, s.nextIntentId = some n ∧ ¬ n.toNat + 1 < 2 ^ 64

/-- With every other guard passed, `create_intent` returns the id of the counter, or
no id is left. -/
theorem createIntent_lands (hInc : M.ChecksInc) {payer payee wallet : A} {amount : I128}
    {memo : HostString} {env : Env A (Query A) ProtocolError} {id : UInt64}
    (hinit : s.initialized.isSome = true)
    (hamount : 0 < amount.val ∧ amount.val ≤ maxPaymentAmount) (hmemo : memo ≠ HostString.empty)
    (hparties : payer ≠ payee) (hsigned : env.signs payer = true)
    (hwallet : s.wallet = some wallet)
    (hbound : env.answer (.hasActiveBinding wallet payer) = .ok true)
    (hcounter : s.nextIntentId = some id) :
    (∃ next,
      (stepOf (dispatch M) s ⟨env, .createIntent payer payee amount memo⟩).out.result =
        .ok (.u64 id) ∧
      after (dispatch M) s ⟨env, .createIntent payer payee amount memo⟩ =
        s.addIntent (.fresh id payer payee amount memo env.timestamp) next) ∨
    ¬ (stepOf (dispatch M) s ⟨env, .createIntent payer payee amount memo⟩).Succeeded ∧
      Exhausted s := by
  by_cases hroom : id.toNat + 1 < 2 ^ 64
  · have hexec : exec env (createIntent M payer payee amount memo) ⟨s, []⟩ = .ok (id, _) :=
      exec_createIntent_ok.mpr ⟨hinit, hamount, hmemo, hparties, hsigned, ⟨wallet, hwallet, hbound⟩,
        hcounter, _, hInc.ok id hroom, rfl⟩
    exact .inl ⟨_, lands_of_exec_ok (exec_map_ok.mpr ⟨id, hexec, rfl⟩)⟩
  · refine .inr ⟨?_, id, hcounter, hroom⟩
    intro hok
    obtain ⟨r, fr, hcall⟩ := succeeded_iff.mp hok
    obtain ⟨id', hexec, _⟩ := exec_map_ok.mp hcall
    obtain ⟨_, _, _, _, _, _, hcounter', next, hinc, _⟩ := exec_createIntent_ok.mp hexec
    obtain rfl := Option.some.inj (hcounter.symm.trans hcounter')
    exact hroom (hInc.ok_iff.mp hinc).1

/-- When no id is left, none is left for good. -/
theorem exhausted_after (hInc : M.ChecksInc) (hinit : s.initialized.isSome = true)
    (h : Exhausted s) (tx : Tx A) : Exhausted (after (dispatch M) s tx) := by
  rcases after_cases M s tx with ⟨_, heq⟩ | ⟨r, evs, _, heff⟩
  · rw [heq]
    exact h
  · generalize tx.call = c at heff
    generalize after (dispatch M) s tx = s' at heff ⊢
    cases heff with
    | initializeContract signed fresh =>
      rw [fresh] at hinit
      cases hinit
    | createIntent _ _ _ _ _ _ _ counter inc =>
      obtain ⟨n, hn, hfull⟩ := h
      obtain rfl := Option.some.inj (hn.symm.trans counter)
      exact absurd (hInc.ok_iff.mp inc).1 hfull
    | _ => exact h

/-- An initialized reachable state has every key in place. -/
theorem Reached.configured (h : Reached pin s) (hinit : s.initialized.isSome = true) :
    Configured s := by
  rcases h with rfl | ⟨l, h⟩
  · cases hinit
  · obtain ⟨f, hf, _⟩ := h.feeBps
    obtain ⟨n, hn, _⟩ := h.ledger.counter
    exact ⟨hinit, ⟨pin, h.pinned⟩, h.admin, h.treasury, ⟨f, hf⟩, ⟨n, hn⟩, h.wallet, h.unlocked⟩

/-- Writing an intent of `p` under an id writes it among the intents of `p`. -/
theorem paidBy_update_self {id : UInt64} {i : PaymentIntent A} (hi : i.payerAgent = p)
    {s' : Store A} (hs' : s'.intents = Function.update s.intents id (some i)) :
    s'.paidBy p = Function.update (s.paidBy p) id (some i) := by
  funext k
  unfold Store.paidBy
  rw [hs']
  by_cases hk : k = id
  · subst hk
    rw [Function.update_self, Function.update_self, Option.filter_some, if_pos (by simpa using hi)]
  · rw [Function.update_of_ne hk, Function.update_of_ne hk]

end Payments

/-! ## The walk -/

namespace Suite

variable {A : Type}

/-- One agent's way from registration to a settled payment. -/
structure Order (A : Type) where
  agent : A
  payee : A
  controller : A
  wallet : A
  agentUri : HostString
  payeeUri : HostString
  asset : Symbol
  limit : I128
  amount : I128
  memo : HostString
  reference : HostString

namespace Order

variable (o : Order A)

/-- What the contracts demand of the arguments, and the host: `bind_wallet` checks the
agent and the wallet, which a host that authorizes an address once per frame lets through
only if they are two. -/
structure Valid : Prop where
  parties : o.agent ≠ o.payee
  wallet : o.agent ≠ o.wallet
  agentUri : o.agentUri ≠ HostString.empty
  payeeUri : o.payeeUri ≠ HostString.empty
  limit : 0 < o.limit.val
  amount : 0 < o.amount.val ∧ o.amount.val ≤ Payments.maxPaymentAmount
  memo : o.memo ≠ HostString.empty
  reference : o.reference ≠ HostString.empty

def agentProfile : Identity.AgentProfile A := ⟨o.controller, o.agentUri, true, 0⟩

def payeeProfile : Identity.AgentProfile A := ⟨o.controller, o.payeeUri, true, 0⟩

def binding : Wallet.WalletBinding A := ⟨o.wallet, o.asset, o.limit, true, 0⟩

/-- The intent as it is created, under this id and at this time. -/
def intent (id time : UInt64) : Payments.PaymentIntent A :=
  .fresh id o.agent o.payee o.amount o.memo time

end Order

/-- Who administers the three contracts. -/
structure Admins (A : Type) where
  identity : A
  wallet : A
  payments : A

variable [DecidableEq A]

/-- The admin settles the intent under the id. -/
def settle (admin : A) (o : Order A) (id : UInt64) : Client A (Call A) (Ret A) :=
  .andThen ⟨fun a => a = admin, .payments (.settleIntent admin id o.reference)⟩ fun _ => .done true

/-- The agent creates the intent, and it is settled under the id that is returned. -/
def pay (admin : A) (o : Order A) : Client A (Call A) (Ret A) :=
  .andThen ⟨fun a => a = o.agent,
    .payments (.createIntent o.agent o.payee o.amount o.memo)⟩ fun
    | .settlement (.payments (.u64 id)) => settle admin o id
    | _ => .done false

/-- The walk: each call only if all before it succeeded. -/
def lifecycle (admin : A) (o : Order A) : Client A (Call A) (Ret A) :=
  .andThen ⟨fun a => a = o.agent, .identity (.register o.agent o.controller o.agentUri)⟩ fun _ =>
  .andThen ⟨fun a => a = o.payee, .identity (.register o.payee o.controller o.payeeUri)⟩ fun _ =>
  .andThen ⟨fun a => a = o.agent ∨ a = o.wallet,
    .wallet (.bindWallet o.agent o.wallet o.asset o.limit)⟩ fun _ =>
  pay admin o

/-! ## Among others -/

/-- The contracts are initialized and in these hands, and payments asks the wallet of
the system. -/
structure Up (W : Setting A) (pin : A) (ad : Admins A) (s : State A) : Prop where
  identity : s.identity.initialized.isSome = true ∧ s.identity.admin = some ad.identity
  wallet : s.settlement.wallet.initialized.isSome = true ∧
    s.settlement.wallet.admin = some ad.wallet
  payments : s.settlement.payments.initialized.isSome = true ∧
    s.settlement.payments.admin = some ad.payments ∧
    s.settlement.payments.wallet = some W.walletAddress
  reached : Payments.Reached pin s.settlement.payments

/-- Of those who could get in the way, nobody signs. -/
structure Outside (o : Order A) (ad : Admins A) (tx : Tx A) : Prop where
  agent : tx.env.signs o.agent = false
  payee : tx.env.signs o.payee = false
  controller : tx.env.signs o.controller = false
  identity : tx.env.signs ad.identity = false
  wallet : tx.env.signs ad.wallet = false
  payments : tx.env.signs ad.payments = false

/-- Where the walk has got to: what is recorded of the two parties. -/
structure Stage (W : Setting A) (pin : A) (ad : Admins A) (o : Order A) (agent payee : Footprint A)
    (s : State A) : Prop where
  up : Up W pin ad s
  agent : footprint o.agent s = agent
  payee : footprint o.payee s = payee

section Among

variable {W : Setting A} {once : Bool} {pin : A} {ad : Admins A} {o : Order A}
  {fa fp : Footprint A} {s : State A} {tx : Tx A} {p : A}

theorem up_after (hM : W.M.ReadsInstance) (hInc : W.M.ChecksInc) (h : Up W pin ad s)
    (htx : tx.env.signs ad.payments = false) : Up W pin ad (after (dispatch W) s tx) := by
  refine ⟨identity_owned_after s tx h.identity, wallet_owned_after s tx h.wallet, ?_,
    payments_reached_after hInc h.reached tx⟩
  obtain ⟨env, c⟩ := tx
  match c with
  | .protocol c =>
    rw [protocol_after]
    exact h.payments
  | .identity c =>
    rw [identity_after]
    exact h.payments
  | .settlement (.wallet c) =>
    rw [wallet_after]
    exact h.payments
  | .settlement (.payments c) =>
    rw [payments_after]
    obtain ⟨hinit, hadmin, hwallet⟩ := h.payments
    have hframe : Payments.AdminFrame s.settlement.payments
        (after (Payments.dispatch W.M) s.settlement.payments (paymentsTx W s env c)) :=
      Payments.adminFrame_after hM hinit hadmin htx
    exact ⟨(Payments.gate W.M).kept hinit _, hframe.admin.trans hadmin,
      hframe.wallet.trans hwallet⟩

/-- What others do leaves no trace on a party. -/
theorem Up.footprint_after (h : Up W pin ad s) (hM : W.M.ReadsInstance)
    (hE : W.M.RequiresEnabled) (htx : Outside o ad tx) (hp : tx.env.signs p = false)
    (hcontroller : ∀ q, (footprint p s).profile = some q → q.controller = o.controller) :
    footprint p (after (dispatch W) s tx) = footprint p s := by
  have hsilent : Silent p s tx.env.signs := by
    refine ⟨hp, ?_, ?_, ?_⟩
    · intro q hq
      rw [hcontroller q hq, h.identity.2]
      refine ⟨htx.controller, fun a ha => ?_⟩
      cases ha
      exact htx.identity
    · intro b _ a ha
      rw [h.wallet.2] at ha
      cases ha
      exact htx.wallet
    · intro k i _ a ha
      rw [h.payments.2.1] at ha
      cases ha
      exact htx.payments
  have hkept : Kept p s s :=
    ⟨rfl, fun _ _ => ⟨h.identity.1, rfl⟩, fun _ _ => ⟨h.wallet.1, rfl⟩,
      fun _ _ _ => ⟨h.payments.1, rfl⟩⟩
  exact (kept_after hM hE hkept h.reached hsilent).footprint

/-- The profiles there are, are under the controller of the order. -/
def Order.Controls (o : Order A) (f : Footprint A) : Prop :=
  ∀ q, f.profile = some q → q.controller = o.controller

theorem stable_stage (hM : W.M.ReadsInstance) (hE : W.M.RequiresEnabled) (hInc : W.M.ChecksInc)
    (ha : o.Controls fa) (hp : o.Controls fp) :
    Stable (hosted once (dispatch W)) (fun _ : Submission A (Call A) => False) (Outside o ad)
      (Stage W pin ad o fa fp) where
  own _ _ _ _ hsub := hsub.elim
  other s tx h htx := by
    refine hosted_after h ⟨up_after hM hInc h.up htx.payments, ?_, ?_⟩
    · rw [h.up.footprint_after hM hE htx htx.agent (by rw [h.agent]; exact ha)]
      exact h.agent
    · rw [h.up.footprint_after hM hE htx htx.payee (by rw [h.payee]; exact hp)]
      exact h.payee

theorem exhausted_after (hInc : W.M.ChecksInc)
    (hinit : s.settlement.payments.initialized.isSome = true)
    (h : Payments.Exhausted s.settlement.payments) (tx : Tx A) :
    Payments.Exhausted (after (dispatch W) s tx).settlement.payments := by
  obtain ⟨env, c⟩ := tx
  match c with
  | .protocol c =>
    rw [protocol_after]
    exact h
  | .identity c =>
    rw [identity_after]
    exact h
  | .settlement (.wallet c) =>
    rw [wallet_after]
    exact h
  | .settlement (.payments c) =>
    rw [payments_after]
    exact Payments.exhausted_after hInc hinit h _

end Among

/-! ## Its own calls -/

/-- The footprint with one more intent. -/
def Footprint.addIntent (f : Footprint A) (i : Payments.PaymentIntent A) : Footprint A :=
  { f with
    index := some (f.index.getD [] ++ [i.id])
    intents := Function.update f.intents i.id (some i) }

/-- The footprint with an intent rewritten. -/
def Footprint.putIntent (f : Footprint A) (i : Payments.PaymentIntent A) : Footprint A :=
  { f with intents := Function.update f.intents i.id (some i) }

section Own

variable {W : Setting A} {once : Bool} {pin : A} {ad : Admins A} {o : Order A}
  {fa fp f : Footprint A} {s : State A} {p : A} {sub : Submission A (Call A)}
  {env : Env A (Payments.Query A) ProtocolError} {r : Ret A}

/-- A call that lands: what it returns, and that it changes the records of `p` alone,
to `f`. -/
structure Lands (W : Setting A) (once : Bool) (pin : A) (ad : Admins A) (s : State A)
    (sub : Submission A (Call A)) (env : Env A (Payments.Query A) ProtocolError) (r : Ret A)
    (p : A) (f : Footprint A) : Prop where
  result : (stepOf (hosted once (dispatch W)) s (sub.land env)).out.result = .ok r
  up : Up W pin ad (after (hosted once (dispatch W)) s (sub.land env))
  self : footprint p (after (hosted once (dispatch W)) s (sub.land env)) = f
  others : ∀ p', p' ≠ p →
    footprint p' (after (hosted once (dispatch W)) s (sub.land env)) = footprint p' s

/-- The host makes no difference to a call that checks each address once. -/
theorem Lands.of_after {s' : State A} (hchecks : sub.call.ChecksEachOnce)
    (hland : (stepOf (dispatch W) s (sub.land env)).out.result = .ok r ∧
      after (dispatch W) s (sub.land env) = s')
    (hup : Up W pin ad s') (hself : footprint p s' = f)
    (hothers : ∀ p', p' ≠ p → footprint p' s' = footprint p' s) :
    Lands W once pin ad s sub env r p f := by
  have hstep : stepOf (hosted once (dispatch W)) s (sub.land env) =
      stepOf (dispatch W) s (sub.land env) := stepOf_of_checksEachOnce hchecks
  have hafter : after (hosted once (dispatch W)) s (sub.land env) = s' :=
    (congrArg Step.post hstep).trans hland.2
  refine ⟨?_, ?_, ?_, ?_⟩
  · rw [hstep]
    exact hland.1
  · rw [hafter]
    exact hup
  · rw [hafter]
    exact hself
  · rw [hafter]
    exact hothers

/-- A registration adds the profile. -/
theorem register_lands (h : Up W pin ad s) {controller : A} {uri : HostString}
    (huri : uri ≠ HostString.empty) (hfresh : (footprint p s).profile = none) :
    Lands W once pin ad s ⟨fun a => a = p, .identity (.register p controller uri)⟩ env
      (.identity .unit) p { footprint p s with profile := some ⟨controller, uri, true, 0⟩ } := by
  refine .of_after trivial (identity_lands (Identity.register_lands h.identity.1 huri hfresh ?_))
    ⟨h.identity, h.wallet, h.payments, h.reached⟩ ?_ ?_
  · exact decide_eq_true rfl
  · unfold footprint
    rw [Identity.put_profile_self]
  · intro p' hne
    unfold footprint
    rw [Identity.put_profile_of_ne hne]

/-- A binding is added. -/
theorem bindWallet_lands (h : Up W pin ad s) {wallet : A} {asset : Symbol} {limit : I128}
    (hne : p ≠ wallet) (hlimit : 0 < limit.val) (hfresh : (footprint p s).binding = none) :
    Lands W once pin ad s
      ⟨fun a => a = p ∨ a = wallet, .wallet (.bindWallet p wallet asset limit)⟩ env
      (.settlement (.wallet .unit)) p
      { footprint p s with binding := some ⟨wallet, asset, limit, true, 0⟩ } := by
  refine .of_after hne (wallet_lands (Wallet.bindWallet_lands h.wallet.1 hlimit hfresh ?_ ?_))
    ⟨h.identity, h.wallet, h.payments, h.reached⟩ ?_ ?_
  · exact decide_eq_true (.inl rfl)
  · exact decide_eq_true (.inr rfl)
  · unfold footprint
    rw [Wallet.put_binding_self]
  · intro p' hne
    unfold footprint
    rw [Wallet.put_binding_of_ne hne]

/-- What payments knows of an address is its index and its intents. -/
theorem footprint_payments {t : Payments.Store A} {index : Option (List UInt64)}
    {intents : UInt64 → Option (Payments.PaymentIntent A)} (hindex : t.payerIntents p = index)
    (hintents : t.paidBy p = intents) :
    footprint p { s with settlement := { s.settlement with payments := t } } =
      { footprint p s with index, intents } := by
  subst hindex hintents
  rfl

/-- An intent is created and indexed, or no id is left. -/
theorem createIntent_lands (hInc : W.M.ChecksInc) (h : Up W pin ad s) (ho : o.Valid)
    (env : Env A (Payments.Query A) ProtocolError)
    (hbound : (footprint o.agent s).binding = some o.binding) :
    (∃ id, Lands W once pin ad s
      ⟨fun a => a = o.agent, .payments (.createIntent o.agent o.payee o.amount o.memo)⟩ env
      (.settlement (.payments (.u64 id))) o.agent
      ((footprint o.agent s).addIntent (o.intent id env.timestamp))) ∨
    ¬ (stepOf (hosted once (dispatch W)) s (Submission.land
        ⟨fun a => a = o.agent, .payments (.createIntent o.agent o.payee o.amount o.memo)⟩
        env)).Succeeded ∧
      Payments.Exhausted s.settlement.payments := by
  obtain ⟨hinit, hadmin, hwallet⟩ := h.payments
  obtain ⟨id, hcounter⟩ := (h.reached.configured hinit).nextIntentId
  have hanswer : (paymentsTx W s { env with signs := fun a => a = o.agent }
      (.createIntent o.agent o.payee o.amount o.memo)).env.answer
        (.hasActiveBinding W.walletAddress o.agent) = .ok true := by
    rw [System.answer_wallet, System.hasActiveBinding_iff.mpr ⟨o.binding, hbound, rfl⟩]
  have hreached := payments_reached_after hInc h.reached (Submission.land
    ⟨fun a => a = o.agent, .payments (.createIntent o.agent o.payee o.amount o.memo)⟩ env)
  rcases Payments.createIntent_lands hInc hinit ho.amount ho.memo ho.parties (decide_eq_true rfl)
    hwallet hanswer hcounter with ⟨next, hland⟩ | ⟨hfail, hfull⟩
  · have hsuite := payments_lands hland
    refine .inl ⟨id, .of_after trivial hsuite
      ⟨h.identity, h.wallet, ⟨hinit, hadmin, hwallet⟩, ?_⟩ ?_ ?_⟩
    · rw [← hsuite.2]
      exact hreached
    · refine footprint_payments (Function.update_self ..) ?_
      exact Payments.paidBy_update_self (i := o.intent id env.timestamp) rfl rfl
    · intro p' hne
      refine footprint_payments (Function.update_of_ne hne ..) ?_
      refine Payments.paidBy_update (i := o.intent id env.timestamp) ?_ hne.symm rfl
      intro i₀ hi₀
      have hnone : s.settlement.payments.intents id = none := h.reached.counter_fresh hcounter
      cases hnone.symm.trans hi₀
  · refine .inr ⟨fun hok => hfail (payments_succeeded.mp ?_), hfull⟩
    exact (succeeded_of_hosted hok).1

/-- The admin settles the intent that was created. -/
theorem settleIntent_lands (hM : W.M.ReadsInstance) (hInc : W.M.ChecksInc) (h : Up W pin ad s)
    (ho : o.Valid) {id time : UInt64}
    (hstored : (footprint o.agent s).intents id = some (o.intent id time)) :
    Lands W once pin ad s
      ⟨fun a => a = ad.payments, .payments (.settleIntent ad.payments id o.reference)⟩ env
      (.settlement (.payments .unit)) o.agent
      ((footprint o.agent s).putIntent ((o.intent id time).settle o.reference)) := by
  obtain ⟨hinit, hadmin, hwallet⟩ := h.payments
  obtain ⟨hintent, _⟩ := Payments.paidBy_eq_some.mp hstored
  have hreached := payments_reached_after hInc h.reached (Submission.land
    ⟨fun a => a = ad.payments, .payments (.settleIntent ad.payments id o.reference)⟩ env)
  have hsigned : (paymentsTx W s { env with signs := fun a => a = ad.payments }
      (.settleIntent ad.payments id o.reference)).env.signs ad.payments = true :=
    decide_eq_true rfl
  have hland := payments_lands (Payments.settleIntent_lands hM (h.reached.configured hinit) hadmin
    hsigned ho.reference hintent rfl)
  refine .of_after trivial hland ⟨h.identity, h.wallet, ⟨hinit, hadmin, hwallet⟩, ?_⟩ ?_ ?_
  · rw [← hland.2]
    exact hreached
  · refine footprint_payments rfl ?_
    exact Payments.paidBy_update_self (i := (o.intent id time).settle o.reference) rfl rfl
  · intro p' hne
    refine footprint_payments rfl ?_
    refine Payments.paidBy_update (i := (o.intent id time).settle o.reference) ?_ hne.symm rfl
    intro i₀ hi₀
    obtain rfl := Option.some.inj (hi₀.symm.trans hintent)
    exact hne.symm

end Own

/-! ## The whole walk -/

section Walk

variable {W : Setting A} {once : Bool} {pin : A} {ad : Admins A} {o : Order A}
  {fa fp f : Footprint A} {s : State A} {sub : Submission A (Call A)}
  {env : Env A (Payments.Query A) ProtocolError}
  {r : Ret A}

/-- A call on behalf of the agent takes the walk on. -/
theorem Lands.agent (h : Lands W once pin ad s sub env r o.agent f) (ho : o.Valid)
    (hs : Stage W pin ad o fa fp s) :
    Stage W pin ad o f fp (after (hosted once (dispatch W)) s (sub.land env)) :=
  ⟨h.up, h.self, (h.others _ ho.parties.symm).trans hs.payee⟩

/-- So does one on behalf of the payee. -/
theorem Lands.payee (h : Lands W once pin ad s sub env r o.payee f) (ho : o.Valid)
    (hs : Stage W pin ad o fa fp s) :
    Stage W pin ad o fa f (after (hosted once (dispatch W)) s (sub.land env)) :=
  ⟨h.up, (h.others _ ho.parties).trans hs.agent, h.self⟩

/-- The agent's records once it is registered and its wallet bound. -/
def Order.bound (o : Order A) (f : Footprint A) : Footprint A :=
  { f with profile := some o.agentProfile, binding := some o.binding }

/-- The payee's records once it is registered. -/
def Order.registered (o : Order A) (f : Footprint A) : Footprint A :=
  { f with profile := some o.payeeProfile }

/-- How the walk ends: with the intent created and settled; or, with no id left for it,
where the creation was. -/
def Order.Ends (W : Setting A) (pin : A) (ad : Admins A) (o : Order A) (fa fp : Footprint A)
    (ok : Bool) (s : State A) : Prop :=
  (ok = true ∧ ∃ id time, Stage W pin ad o
    (((o.bound fa).addIntent (o.intent id time)).putIntent ((o.intent id time).settle o.reference))
    (o.registered fp) s) ∨
  (ok = false ∧ Stage W pin ad o (o.bound fa) (o.registered fp) s ∧
    Payments.Exhausted s.settlement.payments)

omit [DecidableEq A] in
theorem Order.controls_none (hf : f.profile = none) : o.Controls f := by
  intro q hq
  rw [hf] at hq
  cases hq

omit [DecidableEq A] in
theorem Order.controls_some {q : Identity.AgentProfile A} (hf : f.profile = some q)
    (hq : q.controller = o.controller) : o.Controls f := by
  intro q' hq'
  obtain rfl := Option.some.inj (hf.symm.trans hq')
  exact hq

/-- The intent that was created stays pending until the admin settles it. -/
theorem ensures_settle (hM : W.M.ReadsInstance) (hE : W.M.RequiresEnabled)
    (hInc : W.M.ChecksInc) (ho : o.Valid) (id time : UInt64) :
    (settle ad.payments o id).Ensures (hosted once (dispatch W)) false (fun _ => False)
      (Outside o ad)
      (Stage W pin ad o ((o.bound fa).addIntent (o.intent id time)) (o.registered fp))
      (o.Ends W pin ad fa fp) := by
  unfold settle
  refine Client.ensures_andThen_of_ok
    (K := fun _ => Stage W pin ad o
      (((o.bound fa).addIntent (o.intent id time)).putIntent
        ((o.intent id time).settle o.reference)) (o.registered fp))
    (stable_stage hM hE hInc (o.controls_some rfl rfl) (o.controls_some rfl rfl)) ?_ ?_
  · intro s env hs
    have hstored : (footprint o.agent s).intents id = some (o.intent id time) := by
      rw [hs.agent]
      exact Function.update_self ..
    have hland : Lands W once pin ad s ⟨fun a => a = ad.payments,
        .payments (.settleIntent ad.payments id o.reference)⟩ env _ _ _ :=
      settleIntent_lands hM hInc hs.up ho hstored
    rw [hs.agent] at hland
    exact ⟨_, hland.result, hland.agent ho hs⟩
  · intro _
    refine Client.ensures_done
      (stable_stage hM hE hInc (o.controls_some rfl rfl) (o.controls_some rfl rfl)) ?_
    intro s hs
    exact .inl ⟨rfl, id, time, hs⟩

/-- Once the agent is bound, only the ids can run out. -/
theorem ensures_pay (hM : W.M.ReadsInstance) (hE : W.M.RequiresEnabled) (hInc : W.M.ChecksInc)
    (ho : o.Valid) :
    (pay ad.payments o).Ensures (hosted once (dispatch W)) false (fun _ => False)
      (Outside o ad)
      (Stage W pin ad o (o.bound fa) (o.registered fp)) (o.Ends W pin ad fa fp) := by
  have hbound : Stable (hosted once (dispatch W)) (fun _ : Submission A (Call A) => False)
      (Outside o ad)
      (Stage W pin ad o (o.bound fa) (o.registered fp)) :=
    stable_stage hM hE hInc (o.controls_some rfl rfl) (o.controls_some rfl rfl)
  unfold pay
  refine Client.ensures_andThen
    (K := fun r s => ∃ id time, r = .settlement (.payments (.u64 id)) ∧
      Stage W pin ad o ((o.bound fa).addIntent (o.intent id time)) (o.registered fp) s)
    (F := fun s => Stage W pin ad o (o.bound fa) (o.registered fp) s ∧
      Payments.Exhausted s.settlement.payments) hbound ?_ ?_ ?_ ?_
  · refine ⟨fun _ _ _ _ hsub => hsub.elim, ?_⟩
    intro s tx hs htx
    exact ⟨hbound.other s tx hs.1 htx,
      hosted_after (I := fun s : State A => Payments.Exhausted s.settlement.payments) hs.2
        (exhausted_after hInc hs.1.up.payments.1 hs.2 tx)⟩
  · intro s hs
    exact .inr ⟨rfl, hs⟩
  · intro s env hs
    rcases createIntent_lands hInc hs.up ho env (by rw [hs.agent]; rfl) with
      ⟨id, hland⟩ | ⟨hfail, hfull⟩
    · rw [hs.agent] at hland
      exact .inl ⟨_, hland.result, id, env.timestamp, rfl, hland.agent ho hs⟩
    · exact .inr ⟨hfail, hs, hfull⟩
  · intro r flight s s' l ok hplay hflight hl hs
    obtain ⟨id, time, rfl, hs⟩ := hs
    exact ensures_settle hM hE hInc ho id time flight s s' l ok hplay hflight hl hs

/-- Each assertion on the way is one about the two parties, which others leave alone. -/
theorem ensures_lifecycle (hM : W.M.ReadsInstance) (hE : W.M.RequiresEnabled)
    (hInc : W.M.ChecksInc) (ho : o.Valid) (hagent : fa.profile = none)
    (hbinding : fa.binding = none) (hpayee : fp.profile = none) :
    (lifecycle ad.payments o).Ensures (hosted once (dispatch W)) false (fun _ => False)
      (Outside o ad)
      (Stage W pin ad o fa fp) (o.Ends W pin ad fa fp) := by
  unfold lifecycle
  -- the agent is registered
  refine Client.ensures_andThen_of_ok
    (K := fun _ => Stage W pin ad o { fa with profile := some o.agentProfile } fp)
    (stable_stage hM hE hInc (o.controls_none hagent) (o.controls_none hpayee)) ?_ ?_
  · intro s env hs
    have hland : Lands W once pin ad s
        ⟨fun a => a = o.agent, .identity (.register o.agent o.controller o.agentUri)⟩ env _ _ _ :=
      register_lands hs.up ho.agentUri (by rw [hs.agent]; exact hagent)
    rw [hs.agent] at hland
    exact ⟨_, hland.result, hland.agent ho hs⟩
  intro _
  -- the payee is registered
  refine Client.ensures_andThen_of_ok
    (K := fun _ => Stage W pin ad o { fa with profile := some o.agentProfile } (o.registered fp))
    (stable_stage hM hE hInc (o.controls_some rfl rfl) (o.controls_none hpayee)) ?_ ?_
  · intro s env hs
    have hland : Lands W once pin ad s
        ⟨fun a => a = o.payee, .identity (.register o.payee o.controller o.payeeUri)⟩ env _ _ _ :=
      register_lands hs.up ho.payeeUri (by rw [hs.payee]; exact hpayee)
    rw [hs.payee] at hland
    exact ⟨_, hland.result, hland.payee ho hs⟩
  intro _
  -- the wallet is bound
  refine Client.ensures_andThen_of_ok
    (K := fun _ => Stage W pin ad o (o.bound fa) (o.registered fp))
    (stable_stage hM hE hInc (o.controls_some rfl rfl) (o.controls_some rfl rfl)) ?_ ?_
  · intro s env hs
    have hland : Lands W once pin ad s ⟨fun a => a = o.agent ∨ a = o.wallet,
        .wallet (.bindWallet o.agent o.wallet o.asset o.limit)⟩ env _ _ _ :=
      bindWallet_lands hs.up ho.wallet ho.limit (by rw [hs.agent]; exact hbinding)
    rw [hs.agent] at hland
    exact ⟨_, hland.result, hland.agent ho hs⟩
  intro _
  exact ensures_pay hM hE hInc ho

end Walk

/-- The contracts are initialized, and the parties are new to identity and the wallet. -/
structure Order.Ready (W : Setting A) (ad : Admins A) (o : Order A) (s : State A) : Prop where
  identity : s.identity.initialized.isSome = true ∧ s.identity.admin = some ad.identity
  wallet : s.settlement.wallet.initialized.isSome = true ∧
    s.settlement.wallet.admin = some ad.wallet
  payments : s.settlement.payments.initialized.isSome = true ∧
    s.settlement.payments.admin = some ad.payments ∧
    s.settlement.payments.wallet = some W.walletAddress
  agent : s.identity.profile o.agent = none
  payee : s.identity.profile o.payee = none
  unbound : s.settlement.wallet.binding o.agent = none

/-- **Nobody else stops the walk or alters what it leaves**: from any state ready for the
order that runs of the four contracts reach, on a host that authorizes an address once
per frame from there on or on one that does not, whatever lands between its calls that
neither party, nor the controller, nor an admin of the three has signed, the walk ends
with both parties registered, the wallet bound and one intent recorded and settled, all
as ordered and with nothing else recorded of either of them; or with everything but the
intent, and then no id is left. -/
theorem lifecycle_completes {W : Setting A} {once : Bool} (hM : W.M.ReadsInstance)
    (hE : W.M.RequiresEnabled)
    (hInc : W.M.ChecksInc) (pin : Contract → A) (before : List (Tx A)) {ad : Admins A} {o : Order A}
    (ho : o.Valid) (hready : o.Ready W ad (run (dispatch W) (deployed pin) before))
    {l : List (Landed A (Payments.Query A) ProtocolError (Call A))} {s' : State A} {ok : Bool}
    (h : Plays (hosted once (dispatch W)) false [] (lifecycle ad.payments o)
      (run (dispatch W) (deployed pin) before) l s' (some ok))
    (hl : ∀ ev ∈ l, ev.own = false → Outside o ad ev.tx) :
    o.Ends W (pin .payments) ad (footprint o.agent (run (dispatch W) (deployed pin) before))
      (footprint o.payee (run (dispatch W) (deployed pin) before)) ok s' := by
  have hreach := reached_run hInc pin before
  generalize run (dispatch W) (deployed pin) before = s at hready hreach h ⊢
  have hup : Up W (pin .payments) ad s :=
    ⟨hready.identity, hready.wallet, hready.payments, hreach.payments⟩
  exact ensures_lifecycle hM hE hInc ho hready.agent hready.unbound hready.payee [] s s' l ok h
    (List.forall_mem_nil _) hl ⟨hup, rfl, rfl⟩

/-! ## A concrete walk -/

namespace Sample

def order : Order Nat where
  agent := 1
  payee := 2
  controller := 3
  wallet := 5
  agentUri := Identity.Sample.uri
  payeeUri := Identity.Sample.uri
  asset := "USDC"
  limit := Wallet.Sample.limit
  amount := Payments.Sample.amount
  memo := Payments.Sample.memo
  reference := Payments.Sample.memo

def ready : State Nat := run (dispatch setting) (deployed fun _ => 0) initializeTxs

end Sample

/-- Left alone, the walk settles the intent of the order, also where an address is
authorized once per frame. -/
theorem lifecycle_completes_sample :
    ((lifecycle 0 Sample.order).alone (hosted true (dispatch Sample.setting))
      Sample.env Sample.ready).1 = true ∧
      Sample.order.Ends Sample.setting 0 ⟨0, 0, 0⟩ (footprint 1 Sample.ready)
        (footprint 2 Sample.ready) true
        ((lifecycle 0 Sample.order).alone (hosted true (dispatch Sample.setting))
          Sample.env Sample.ready).2 := by
  obtain ⟨l, hl, h⟩ := Client.plays_alone (hosted true (dispatch Sample.setting)) Sample.env
    (lifecycle 0 Sample.order) Sample.ready
  have hok : ((lifecycle 0 Sample.order).alone (hosted true (dispatch Sample.setting)) Sample.env
      Sample.ready).1 = true := by decide +kernel
  rw [hok] at h
  refine ⟨hok, lifecycle_completes Missing.documented_readsInstance
    Missing.documented_requiresEnabled Missing.documented_checksInc (fun _ => 0)
    Sample.initializeTxs ?_ ?_ h (own_of_others hl)⟩
  · exact ⟨by decide, by decide, by decide, by decide, by decide, by decide, by decide, by decide⟩
  · exact ⟨⟨rfl, rfl⟩, ⟨rfl, rfl⟩, ⟨rfl, rfl, rfl⟩, rfl, rfl, rfl⟩

end Suite

end LilyContracts
