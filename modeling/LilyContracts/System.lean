import LilyContracts.Host.Compose
import LilyContracts.Locality
import LilyContracts.Payments.Availability
import LilyContracts.Payments.Lifecycle
import LilyContracts.Wallet.EmergencyStop

/-!
# Payments and wallet, running together

Payments asks the wallet contract it stores the address of whether a payer has an
active binding, in the middle of `create_intent`. `dispatch` puts the two contracts
into one system (`Host/Compose.lean`): a call goes to one of them, in any order,
and a query to `walletAddress` is answered from the wallet's storage as it then is.
Queries to other addresses go out of the system.

`has_active_binding` is no function of the committed source. Here it says what its
name and its one caller need: the agent has a binding and it is enabled.

`payments_with_wallet` is what the two machines guarantee together: each intent was
created against an enabled binding with a positive limit; a disabled agent creates
none until it is enabled again; finalization does not depend on bindings, and finds a
pending intent and ends it; and payments never writes to the wallet.
-/

namespace LilyContracts.System

open Host

/-! ## The system -/

/-- The storage of both contracts. -/
structure State (A : Type) where
  payments : Payments.Store A
  wallet : Wallet.Store A

/-- A call to one of them. -/
inductive Call (A : Type)
  | payments (c : Payments.Call A)
  | wallet (c : Wallet.Call A)

inductive Ret (A : Type)
  | payments (r : Payments.Ret A)
  | wallet (r : Wallet.Ret A)

inductive Event (A : Type)
  | payments (ev : Payments.Event A)
  | wallet (ev : Wallet.Event A)

variable {A : Type}

/-- `has_active_binding`: the agent has a binding and it is enabled. -/
def hasActiveBinding (s : Wallet.Store A) (agent : A) : Bool :=
  (s.binding agent).any (·.enabled)

/-- Payments in the system: the wallet answers what it is asked. -/
def paymentsPart [DecidableEq A] (walletAddress : A) :
    Component (Payments.Store A) (State A) (Payments.Query A) (Payments.Query A)
      (Payments.Event A) (Event A) where
  get := State.payments
  put s t := { t with payments := s }
  route t
    | .hasActiveBinding wallet agent =>
      if wallet = walletAddress then .inl (hasActiveBinding t.wallet agent)
      else .inr (.hasActiveBinding wallet agent)
  event := .payments
  get_put _ _ := rfl
  put_put _ _ _ := rfl
  put_get _ := rfl
  route_put _ _ _ := rfl

/-- The wallet in the system; it asks nobody. -/
def walletPart : Component (Wallet.Store A) (State A) Empty (Payments.Query A) (Wallet.Event A)
    (Event A) where
  get := State.wallet
  put s t := { t with wallet := s }
  route _ x := x.elim
  event := .wallet
  get_put _ _ := rfl
  put_put _ _ _ := rfl
  put_get _ := rfl
  route_put _ _ _ := rfl

/-- The program a call runs. -/
def dispatch [DecidableEq A] (M : Missing) (nextRevision : Wallet.NextRevision A)
    (walletAddress : A) :
    Call A → Prog (State A) A (Payments.Query A) (Event A) ProtocolError (Ret A)
  | .payments c => do
    pure (.payments (← (paymentsPart walletAddress).embed (Payments.dispatch M c)))
  | .wallet c => do
    pure (.wallet (← walletPart.embed (Wallet.dispatch M nextRevision c)))

/-- A transaction sent to one of the two. -/
abbrev Tx (A : Type) := Host.Tx A (Payments.Query A) ProtocolError (Call A)

/-- A step of a trace of the system. -/
abbrev Step (A : Type) :=
  Host.Step (State A) A (Payments.Query A) (Event A) ProtocolError (Call A) (Ret A)

/-- Both contracts right after their deployment. -/
def deployed (pin walletPin : A) : State A where
  payments := Payments.deployed pin
  wallet := Wallet.deployed walletPin

/-! ## What the statements speak about -/

/-- The step created intent `k` for `payer`. -/
def Creates (payer : A) (k : UInt64) (st : Step A) : Prop :=
  (∃ payee amount memo, st.tx.call = .payments (.createIntent payer payee amount memo)) ∧
    st.out.result = .ok (.payments (.u64 k))

/-- The step disabled the agent's binding. -/
def Disables (agent : A) (st : Step A) : Prop :=
  (st.tx.call = .wallet (.setEnabled agent false) ∨
    st.tx.call = .wallet (.adminDeactivate agent)) ∧ st.Succeeded

/-- The step enabled the agent's binding, or replaced it by an enabled one. -/
def Enables (agent : A) (st : Step A) : Prop :=
  (st.tx.call = .wallet (.setEnabled agent true) ∨ ∃ wallet asset limit,
    st.tx.call = .wallet (.rebindWallet agent wallet asset limit)) ∧ st.Succeeded

/-- The agent has an enabled binding with a positive limit. -/
def Spendable (agent : A) (s : Wallet.Store A) : Prop :=
  ∃ b, s.binding agent = some b ∧ b.enabled = true ∧ 0 < b.spendLimit.val

/-- The calls to payments. -/
def Call.isPayments : Call A → Bool
  | .payments _ => true
  | .wallet _ => false

/-- The calls that intent `k` is a matter of. -/
def Call.concerns (k : UInt64) : Call A → Bool
  | .payments c => c.concerns k
  | .wallet _ => false

/-! ## A step of the system is a step of one contract -/

section Steps

variable [DecidableEq A] {M : Missing} {nextRevision : Wallet.NextRevision A}
  {walletAddress : A} {s : State A}

/-- The transaction payments sees. -/
def paymentsTx (walletAddress : A) (s : State A) (env : Env A (Payments.Query A) ProtocolError)
    (c : Payments.Call A) : Payments.Tx A :=
  ⟨(paymentsPart walletAddress).env env s, c⟩

/-- The transaction the wallet sees. -/
def walletTx (s : State A) (env : Env A (Payments.Query A) ProtocolError)
    (c : Wallet.Call A) : Wallet.Tx A :=
  ⟨walletPart.env env s, c⟩

theorem payments_result (env : Env A (Payments.Query A) ProtocolError) (c : Payments.Call A) :
    (stepOf (dispatch M nextRevision walletAddress) s ⟨env, .payments c⟩).out.result =
      (stepOf (Payments.dispatch M) s.payments
        (paymentsTx walletAddress s env c)).out.result.map .payments :=
  ((paymentsPart walletAddress).stepOf_embed rfl env s).1

/-- **No call to payments changes the wallet.** -/
theorem payments_after (env : Env A (Payments.Query A) ProtocolError) (c : Payments.Call A) :
    after (dispatch M nextRevision walletAddress) s ⟨env, .payments c⟩ =
      ⟨after (Payments.dispatch M) s.payments (paymentsTx walletAddress s env c), s.wallet⟩ :=
  ((paymentsPart walletAddress).stepOf_embed rfl env s).2

theorem wallet_after (env : Env A (Payments.Query A) ProtocolError) (c : Wallet.Call A) :
    after (dispatch M nextRevision walletAddress) s ⟨env, .wallet c⟩ =
      ⟨s.payments, after (Wallet.dispatch M nextRevision) s.wallet (walletTx s env c)⟩ :=
  (walletPart.stepOf_embed rfl env s).2

theorem payments_succeeded {env : Env A (Payments.Query A) ProtocolError}
    {c : Payments.Call A} :
    (stepOf (dispatch M nextRevision walletAddress) s ⟨env, .payments c⟩).Succeeded ↔
      (stepOf (Payments.dispatch M) s.payments (paymentsTx walletAddress s env c)).Succeeded :=
  (paymentsPart walletAddress).succeeded_embed rfl env s

theorem wallet_succeeded {env : Env A (Payments.Query A) ProtocolError} {c : Wallet.Call A} :
    (stepOf (dispatch M nextRevision walletAddress) s ⟨env, .wallet c⟩).Succeeded ↔
      (stepOf (Wallet.dispatch M nextRevision) s.wallet (walletTx s env c)).Succeeded :=
  walletPart.succeeded_embed rfl env s

/-- Payments' part of a run is a run of payments. -/
theorem payments_run (M : Missing) (nextRevision : Wallet.NextRevision A) (walletAddress : A)
    (s : State A) (txs : List (Tx A)) :
    ∃ ptxs, (run (dispatch M nextRevision walletAddress) s txs).payments =
      run (Payments.dispatch M) s.payments ptxs := by
  refine (paymentsPart walletAddress).run_get ?_ s txs
  intro s tx
  obtain ⟨env, c⟩ := tx
  cases c with
  | payments c =>
    rw [payments_after]
    exact .inr ⟨_, rfl⟩
  | wallet c =>
    rw [wallet_after]
    exact .inl rfl

/-- What payments is told of an agent by the wallet it stores the address of. -/
theorem answer_wallet (env : Env A (Payments.Query A) ProtocolError) (c : Payments.Call A)
    (agent : A) :
    (paymentsTx walletAddress s env c).env.answer (.hasActiveBinding walletAddress agent) =
      .ok (hasActiveBinding s.wallet agent) := by
  unfold paymentsTx Component.env paymentsPart
  simp

omit [DecidableEq A] in
theorem hasActiveBinding_iff {w : Wallet.Store A} {agent : A} :
    hasActiveBinding w agent = true ↔ ∃ b, w.binding agent = some b ∧ b.enabled = true := by
  unfold hasActiveBinding
  cases w.binding agent with
  | none => simp
  | some b => simp

/-! ## Intents are created against spendable bindings -/

/-- A record in payments' storage was there before the call, with the same payer
and the same wallet contract, or the call created it and was told that the payer
has an active binding. -/
theorem intent_origin {pin : A} {env : Env A (Payments.Query A) ProtocolError}
    {p p' : Payments.Store A} {c : Payments.Call A} {r : Payments.Ret A}
    {evs : List (Payments.Event A)} {k : UInt64} {i : Payments.PaymentIntent A}
    (hp : p = Payments.deployed pin ∨ Payments.Configured p)
    (h : Payments.Effect M env p c r p' evs) (hk : p'.intents k = some i) :
    (∃ i₀, p.intents k = some i₀ ∧ i₀.payerAgent = i.payerAgent ∧ p.wallet = p'.wallet) ∨
    ∃ payee amount memo wallet, c = .createIntent i.payerAgent payee amount memo ∧ r = .u64 k ∧
      p'.wallet = some wallet ∧ env.answer (.hasActiveBinding wallet i.payerAgent) = .ok true := by
  cases h with
  | initializeContract signed fresh =>
    -- nothing is recorded before initialization
    rcases hp with rfl | hconf
    · cases hk
    · have hinit := hconf.initialized
      rw [fresh] at hinit
      cases hinit
  | @createIntent payer payee wallet amount memo id next _ _ _ _ _ hwallet bound =>
    rcases Payments.Store.addIntent_cases hk with ⟨rfl, rfl⟩ | ⟨_, hold⟩
    · exact .inr ⟨payee, amount, memo, wallet, rfl, rfl, hwallet, bound⟩
    · exact .inl ⟨i, hold, rfl, rfl⟩
  | @settleIntent caller id ref i₀ _ _ _ _ stored =>
    rcases Payments.Store.putIntent_cases hk with ⟨rfl, rfl⟩ | ⟨_, hold⟩
    · exact .inl ⟨i₀, stored, rfl, rfl⟩
    · exact .inl ⟨i, hold, rfl, rfl⟩
  | @cancelIntent id i₀ _ stored =>
    rcases Payments.Store.putIntent_cases hk with ⟨rfl, rfl⟩ | ⟨_, hold⟩
    · exact .inl ⟨i₀, stored, rfl, rfl⟩
    · exact .inl ⟨i, hold, rfl, rfl⟩
  | setFeeBps => exact .inl ⟨i, hk, rfl, rfl⟩
  | setTreasury => exact .inl ⟨i, hk, rfl, rfl⟩
  | transferAdmin => exact .inl ⟨i, hk, rfl, rfl⟩
  | view => exact .inl ⟨i, hk, rfl, rfl⟩

/-- Every stored binding has a positive limit. -/
def LimitsPositive (w : Wallet.Store A) : Prop :=
  ∀ agent b, w.binding agent = some b → 0 < b.spendLimit.val

theorem limitsPositive_put {w : Wallet.Store A} {agent : A} {b : Wallet.WalletBinding A}
    (h : LimitsPositive w) (hb : 0 < b.spendLimit.val) : LimitsPositive (w.put agent b) := by
  intro a b' hb'
  by_cases ha : a = agent
  · rw [ha, Wallet.put_binding_self] at hb'
    exact Option.some.inj hb' ▸ hb
  · rw [Wallet.put_binding_of_ne ha] at hb'
    exact h a b' hb'

theorem limitsPositive_after {w : Wallet.Store A} (h : LimitsPositive w) (tx : Wallet.Tx A) :
    LimitsPositive (after (Wallet.dispatch M nextRevision) w tx) := by
  rcases Wallet.after_cases M nextRevision w tx with ⟨_, heq⟩ | ⟨r, evs, _, heff⟩
  · rw [heq]
    exact h
  · generalize tx.call = c at heff
    generalize after (Wallet.dispatch M nextRevision) w tx = w' at heff ⊢
    cases heff with
    | initializeContract => exact h
    | bindWallet _ limit_pos => exact limitsPositive_put h limit_pos
    | rebindWallet _ limit_pos => exact limitsPositive_put h limit_pos
    | updateSpendLimit _ limit_pos => exact limitsPositive_put h limit_pos
    -- these two carry the limit over
    | @setEnabled agent enabled b revision _ _ stored =>
      have hb : 0 < b.spendLimit.val := h agent b stored
      exact limitsPositive_put h hb
    | @adminDeactivate admin agent b _ _ _ stored =>
      have hb : 0 < b.spendLimit.val := h agent b stored
      exact limitsPositive_put h hb
    | view => exact h

/-- After the steps of a history: every record has its creation among them. -/
structure Backed (pin walletAddress : A) (steps : List (Step A)) (s : State A) : Prop where
  payments : s.payments = Payments.deployed pin ∨ Payments.Configured s.payments
  limits : LimitsPositive s.wallet
  created : s.payments.wallet = some walletAddress → ∀ k i, s.payments.intents k = some i →
    ∃ st ∈ steps, Creates i.payerAgent k st ∧ Spendable i.payerAgent st.pre.wallet

theorem backed_step {pin : A} {steps : List (Step A)} (h : Backed pin walletAddress steps s)
    (tx : Tx A) :
    Backed pin walletAddress
      (steps ++ [stepOf (dispatch M nextRevision walletAddress) s tx])
      (after (dispatch M nextRevision walletAddress) s tx) := by
  obtain ⟨env, c⟩ := tx
  -- a record that the step found keeps the creation it had
  have hkeep : s.payments.wallet = some walletAddress → ∀ k i, s.payments.intents k = some i →
      ∃ st ∈ steps ++ [stepOf (dispatch M nextRevision walletAddress) s ⟨env, c⟩],
        Creates i.payerAgent k st ∧ Spendable i.payerAgent st.pre.wallet := by
    intro hw k i hk
    obtain ⟨st, hst, hcreates, hspend⟩ := h.created hw k i hk
    exact ⟨st, List.mem_append_left _ hst, hcreates, hspend⟩
  cases c with
  | wallet c =>
    rw [wallet_after]
    exact ⟨h.payments, limitsPositive_after h.limits _, hkeep⟩
  | payments c =>
    rw [payments_after]
    have hphase : after (Payments.dispatch M) s.payments (paymentsTx walletAddress s env c) =
        Payments.deployed pin ∨ Payments.Configured
          (after (Payments.dispatch M) s.payments (paymentsTx walletAddress s env c)) := by
      rcases h.payments with heq | hconf
      · rw [heq]
        exact Payments.configured_of_deployed M pin _
      · exact .inr (Payments.configured_after M hconf _)
    refine ⟨hphase, h.limits, ?_⟩
    intro hw k i hk
    rcases Payments.after_cases M s.payments (paymentsTx walletAddress s env c) with
      ⟨_, heq⟩ | ⟨r, evs, hr, heff⟩
    · exact hkeep (heq ▸ hw) k i (heq ▸ hk)
    · rcases intent_origin h.payments heff hk with
        ⟨i₀, hi₀, hpayer, hwallet⟩ | ⟨payee, amount, memo, w, hcall, hret, hw', hanswer⟩
      · rw [← hpayer]
        exact hkeep (hwallet.trans hw) k i₀ hi₀
      · -- the step itself is the creation, and the wallet answered for the payer
        have hcreates : Creates i.payerAgent k
            (stepOf (dispatch M nextRevision walletAddress) s ⟨env, .payments c⟩) := by
          refine ⟨⟨payee, amount, memo, congrArg Call.payments hcall⟩, ?_⟩
          rw [payments_result, hr, hret]
          rfl
        obtain rfl : w = walletAddress := Option.some.inj (hw'.symm.trans hw)
        rw [answer_wallet] at hanswer
        obtain ⟨b, hb, henabled⟩ := hasActiveBinding_iff.mp (Except.ok.inj hanswer)
        exact ⟨_, List.mem_append_right _ (List.mem_singleton_self _), hcreates,
          b, hb, henabled, h.limits _ b hb⟩

/-- Every record of every run has its creation in the run. -/
theorem backed_run (M : Missing) (nextRevision : Wallet.NextRevision A)
    (walletAddress pin walletPin : A) (txs : List (Tx A)) :
    Backed pin walletAddress
      (trace (dispatch M nextRevision walletAddress) (deployed pin walletPin) txs)
      (run (dispatch M nextRevision walletAddress) (deployed pin walletPin) txs) := by
  refine trace_invariant (I := Backed pin walletAddress) ?_ ⟨.inl rfl, ?_, ?_⟩
  · intro steps s tx h
    exact backed_step h tx
  · intro agent b hb
    cases hb
  · intro hw
    cases hw

/-! ## A disabled agent creates nothing -/

theorem disabled_of_disables {agent : A} {tx : Tx A}
    (h : Disables agent (stepOf (dispatch M nextRevision walletAddress) s tx)) :
    Wallet.Disabled agent (after (dispatch M nextRevision walletAddress) s tx).wallet := by
  obtain ⟨env, c⟩ := tx
  obtain ⟨hcall, hok⟩ := h
  rw [stepOf_tx] at hcall
  rcases hcall with rfl | rfl
  · rw [wallet_after]
    rcases Wallet.after_cases M nextRevision s.wallet
      (walletTx s env (.setEnabled agent false)) with ⟨hfail, _⟩ | ⟨r, evs, _, heff⟩
    · exact absurd (wallet_succeeded.mp hok) hfail
    · show Wallet.Disabled agent (after (Wallet.dispatch M nextRevision) s.wallet _)
      generalize after (Wallet.dispatch M nextRevision) s.wallet _ = w' at heff ⊢
      cases heff with
      | setEnabled => exact ⟨_, Wallet.put_binding_self, rfl⟩
      | view reads => exact absurd reads id
  · rw [wallet_after]
    exact Wallet.disabled_of_deactivate rfl (wallet_succeeded.mp hok)

/-- A wallet step that enables the binding is one of the system's. -/
theorem enables_of_wallet {agent : A} {env : Env A (Payments.Query A) ProtocolError}
    {c : Wallet.Call A}
    (h : Wallet.Enables agent
      (stepOf (Wallet.dispatch M nextRevision) s.wallet (walletTx s env c))) :
    Enables agent (stepOf (dispatch M nextRevision walletAddress) s ⟨env, .wallet c⟩) := by
  unfold Wallet.Enables Wallet.action at h
  by_cases hok : (stepOf (Wallet.dispatch M nextRevision) s.wallet (walletTx s env c)).Succeeded
  · rw [if_pos hok, stepOf_tx] at h
    refine ⟨?_, wallet_succeeded.mpr hok⟩
    rw [stepOf_tx]
    cases c with
    | setEnabled a enabled =>
      by_cases ha : a = agent
      · simpa [walletTx, Wallet.Call.action, ha] using h
      · simp [walletTx, Wallet.Call.action, ha] at h
    | rebindWallet a wallet asset limit =>
      by_cases ha : a = agent
      · exact .inr ⟨wallet, asset, limit, ha ▸ rfl⟩
      · simp [walletTx, Wallet.Call.action, ha] at h
    | bindWallet a => by_cases ha : a = agent <;> simp [walletTx, Wallet.Call.action, ha] at h
    | updateSpendLimit a =>
      by_cases ha : a = agent <;> simp [walletTx, Wallet.Call.action, ha] at h
    | adminDeactivate a =>
      by_cases ha : a = agent <;> simp [walletTx, Wallet.Call.action, ha] at h
    | _ => simp [walletTx, Wallet.Call.action] at h
  · rw [if_neg hok] at h
    simp at h

/-- A disabled binding stays disabled over a step that does not enable it. -/
theorem disabled_step {agent : A} (h : Wallet.Disabled agent s.wallet) (tx : Tx A)
    (hnot : ¬ Enables agent (stepOf (dispatch M nextRevision walletAddress) s tx)) :
    Wallet.Disabled agent (after (dispatch M nextRevision walletAddress) s tx).wallet := by
  obtain ⟨env, c⟩ := tx
  cases c with
  | payments c =>
    rw [payments_after]
    exact h
  | wallet c =>
    rw [wallet_after]
    refine (Wallet.disabled_after M nextRevision h _).mpr ?_
    intro hen
    exact hnot (enables_of_wallet hen)

theorem disabled_run {agent : A} (txs : List (Tx A)) :
    ∀ {s : State A}, Wallet.Disabled agent s.wallet →
      (∀ st ∈ trace (dispatch M nextRevision walletAddress) s txs, ¬ Enables agent st) →
      Wallet.Disabled agent (run (dispatch M nextRevision walletAddress) s txs).wallet := by
  induction txs with
  | nil =>
    intro s h _
    exact h
  | cons tx txs ih =>
    intro s h hnone
    rw [trace_cons] at hnone
    refine ih ?_ fun st hst => hnone st (List.mem_cons_of_mem _ hst)
    exact disabled_step h tx (hnone _ (List.mem_cons_self ..))

/-- No intent is created for a payer whose binding is disabled. -/
theorem not_creates {agent : A} {k : UInt64} (hw : s.payments.wallet = some walletAddress)
    (h : Wallet.Disabled agent s.wallet) (tx : Tx A) :
    ¬ Creates agent k (stepOf (dispatch M nextRevision walletAddress) s tx) := by
  intro hcreates
  obtain ⟨env, c⟩ := tx
  obtain ⟨⟨payee, amount, memo, hcall⟩, hret⟩ := hcreates
  rw [stepOf_tx] at hcall
  subst hcall
  have hok := payments_succeeded.mp ⟨_, hret⟩
  rcases Payments.after_cases M s.payments
    (paymentsTx walletAddress s env (.createIntent agent payee amount memo)) with
    ⟨hfail, _⟩ | ⟨r, evs, _, heff⟩
  · exact absurd hok hfail
  · generalize after (Payments.dispatch M) s.payments _ = p' at heff
    cases heff with
    | @createIntent payer payee wallet amount memo id next _ _ _ _ _ hwallet bound =>
      obtain rfl : wallet = walletAddress := Option.some.inj (hwallet.symm.trans hw)
      rw [answer_wallet] at bound
      obtain ⟨b, hb, henabled⟩ := hasActiveBinding_iff.mp (Except.ok.inj bound)
      obtain ⟨b', hb', hdisabled⟩ := h
      obtain rfl : b = b' := Option.some.inj (hb.symm.trans hb')
      rw [henabled] at hdisabled
      cases hdisabled
    | view reads => exact absurd reads id

/-! ## Finalization does not depend on bindings -/

/-- Payments' part of a run's last state is one that payments reaches. -/
theorem payments_reached (hM : M.ChecksInc) (nextRevision : Wallet.NextRevision A)
    (walletAddress pin walletPin : A) (txs : List (Tx A)) :
    Payments.Reached pin
      (run (dispatch M nextRevision walletAddress) (deployed pin walletPin) txs).payments := by
  obtain ⟨ptxs, hrun⟩ := payments_run M nextRevision walletAddress (deployed pin walletPin) txs
  rw [hrun]
  exact Payments.reachable hM pin ptxs

/-- An intent in a run's last state is one of a live contract. -/
theorem holds_of_run (hM : M.ChecksInc) (nextRevision : Wallet.NextRevision A)
    (walletAddress : A) {pin walletPin : A} (txs : List (Tx A)) {k : UInt64}
    (hk : ((run (dispatch M nextRevision walletAddress) (deployed pin walletPin)
      txs).payments.intents k).isSome = true) :
    Payments.Holds pin k
      (run (dispatch M nextRevision walletAddress) (deployed pin walletPin) txs).payments := by
  rcases payments_reached hM nextRevision walletAddress pin walletPin txs with heq | hlive
  · rw [heq] at hk
    cases hk
  · exact ⟨hlive, Option.isSome_iff_exists.mp hk⟩

/-- A settlement or cancellation that succeeds has found its intent pending and leaves
it ended as it says. -/
theorem finalized_after {pin : A} {k : UInt64} {i : Payments.PaymentIntent A}
    {f : Payments.Finalization} (h : Payments.Reached pin s.payments)
    (hk : s.payments.intents k = some i) {env : Env A (Payments.Query A) ProtocolError}
    {c : Payments.Call A} (hc : c.finalizes k = some f)
    (hok : (stepOf (dispatch M nextRevision walletAddress) s ⟨env, .payments c⟩).Succeeded) :
    i.status = .pending ∧
      (after (dispatch M nextRevision walletAddress) s ⟨env, .payments c⟩).payments.intents k =
        some (i.finalize f) := by
  obtain ⟨r, hr⟩ := payments_succeeded.mp hok
  have hends : Payments.finalization k (stepOf (Payments.dispatch M) s.payments
      (paymentsTx walletAddress s env c)) = some f :=
    (Payments.finalization_of_ok hr).trans hc
  rw [payments_after]
  rcases Payments.intent_after (M := M) h hk (paymentsTx walletAddress s env c) with
    ⟨hnone, _⟩ | ⟨f', _, hpending, hsome, hafter⟩
  · rw [hends] at hnone
    cases hnone
  · obtain rfl : f = f' := Option.some.inj (hends.symm.trans hsome)
    exact ⟨hpending, hafter⟩

/-- The calls that concern an existing intent are independent of all others, those
to the wallet included. -/
theorem independent (hM : M.ChecksInc) (nextRevision : Wallet.NextRevision A)
    (walletAddress pin : A) (k : UInt64) :
    Independent (dispatch M nextRevision walletAddress)
      (fun s => Payments.Holds pin k s.payments) (fun s => Payments.view k s.payments)
      (Call.concerns k) where
  invariant := by
    intro s tx hs
    obtain ⟨env, c⟩ := tx
    cases c with
    | payments c =>
      rw [payments_after]
      exact Payments.holds_after hM hs _
    | wallet c =>
      rw [wallet_after]
      exact hs
  respects := by
    intro c hc
    cases c with
    | payments c =>
      exact ((paymentsPart walletAddress).respects_embed (Payments.respects_dispatch hc)).bind
        fun _ => respects_pure _
    | wallet c => cases hc
  others := by
    intro s tx hs hc
    obtain ⟨env, c⟩ := tx
    cases c with
    | payments c =>
      rw [payments_after]
      exact Payments.others_after hs hc
    | wallet c => rw [wallet_after]

end Steps

/-! ## The two machines together -/

/-- **Payments composed with wallet**: in every run of the two contracts, in any
order of calls, from their constructors: where payments stores the address of this
wallet, every intent was created in the run, when its payer had an enabled binding
with a positive limit, and after a step that disabled an agent's binding none is
created for that agent before a step that enables it; deleting every call to the
wallet from what follows changes neither an existing intent nor the answers to its
finalizations; each of these that succeeds has found the intent pending and leaves it
settled with its reference, or cancelled; and no call to payments changes the wallet. -/
theorem payments_with_wallet {A : Type} [DecidableEq A] {M : Missing} (hM : M.ChecksInc)
    (nextRevision : Wallet.NextRevision A) (walletAddress pin walletPin : A)
    (txs : List (Tx A)) :
    let prog := dispatch M nextRevision walletAddress
    let s := run prog (deployed pin walletPin) txs
    (s.payments.wallet = some walletAddress → ∀ k i, s.payments.intents k = some i →
      ∃ st ∈ trace prog (deployed pin walletPin) txs,
        Creates i.payerAgent k st ∧ Spendable i.payerAgent st.pre.wallet) ∧
    (∀ agent tx between tx' k, Disables agent (stepOf prog s tx) →
      (run prog (after prog s tx) between).payments.wallet = some walletAddress →
      Creates agent k (stepOf prog (run prog (after prog s tx) between) tx') →
      ∃ st ∈ trace prog (after prog s tx) between, Enables agent st) ∧
    (∀ k later, (s.payments.intents k).isSome = true →
      (run prog s later).payments.intents k =
        (run prog s (own Call.isPayments later)).payments.intents k ∧
      answers (Call.concerns k) (trace prog s later) =
        answers (Call.concerns k) (trace prog s (own Call.isPayments later))) ∧
    (∀ k i f env c, s.payments.intents k = some i → c.finalizes k = some f →
      (stepOf prog s ⟨env, .payments c⟩).Succeeded →
      i.status = .pending ∧
        (after prog s ⟨env, .payments c⟩).payments.intents k = some (i.finalize f)) ∧
    ∀ env c, (after prog s ⟨env, .payments c⟩).wallet = s.wallet := by
  intro prog s
  refine ⟨?_, ?_, ?_, ?_, ?_⟩
  · exact (backed_run M nextRevision walletAddress pin walletPin txs).created
  · intro agent tx between tx' k hdis hw hcreates
    by_contra hnone
    have hnone' : ∀ st ∈ trace prog (after prog s tx) between, ¬ Enables agent st :=
      fun st hst hen => hnone ⟨st, hst, hen⟩
    exact not_creates hw (disabled_run between (disabled_of_disables hdis) hnone') tx' hcreates
  · intro k later hk
    have hs : Payments.Holds pin k s.payments :=
      holds_of_run hM nextRevision walletAddress txs hk
    have hkeep : ∀ c : Call A, c.concerns k = true → c.isPayments = true := by
      intro c hc
      cases c with
      | payments => rfl
      | wallet => cases hc
    obtain ⟨hview, hanswers⟩ :=
      (independent hM nextRevision walletAddress pin k).deletion hkeep hs later
    exact ⟨congrArg (fun v => v.2.2.2) hview, hanswers⟩
  · intro k i f env c hk hc hok
    exact finalized_after (payments_reached hM nextRevision walletAddress pin walletPin txs)
      hk hc hok
  · intro env c
    show (after (dispatch M nextRevision walletAddress) s _).wallet = _
    rw [payments_after]

/-! ## A concrete system

The two contracts over the documented stand-ins, the wallet at address 8, where
payments looks for it: 0 is the admin of both, 1 an agent and 5 its wallet. No
contract outside the system confirms anything. -/

namespace Sample

/-- A call signed by `signers`. -/
def tx (signers : List Nat) (call : Call Nat) : Tx Nat :=
  { env := { signs := fun a => a ∈ signers, timestamp := 0, answer := fun _ => .ok false }, call }

def createTx : Tx Nat :=
  tx [1] (.payments (.createIntent 1 2 Payments.Sample.amount Payments.Sample.memo))

def disableTx : Tx Nat := tx [1] (.wallet (.setEnabled 1 false))

def settleTx : Tx Nat := tx [0] (.payments (.settleIntent 0 1 Payments.Sample.memo))

/-- Both initialized, agent 1 bound, and intent 1 created by it. -/
def txs : List (Tx Nat) :=
  [tx [0] (.payments (.initializeContract 0 9 250 8)), tx [0] (.wallet (.initializeContract 0)),
    tx [1, 5] (.wallet (.bindWallet 1 5 "USDC" Wallet.Sample.limit)), createTx]

end Sample

/-- Intent 1 was created against a spendable binding of agent 1, and once that is
disabled the agent creates no second one; but the first is settled all the same. -/
theorem payments_with_wallet_sample :
    let prog := dispatch .documented Wallet.Sample.nextRevision 8
    let s := run prog (deployed 0 0) Sample.txs
    (∃ st ∈ trace prog (deployed 0 0) Sample.txs, Creates 1 1 st ∧ Spendable 1 st.pre.wallet) ∧
      ¬ Creates 1 2 (stepOf prog (after prog s Sample.disableTx) Sample.createTx) ∧
      (run prog s [Sample.disableTx, Sample.settleTx]).payments.intents 1 =
        (run prog s [Sample.settleTx]).payments.intents 1 ∧
      (after prog s Sample.settleTx).payments.intents 1 = some
        ((Payments.PaymentIntent.fresh 1 1 2 Payments.Sample.amount Payments.Sample.memo 0).settle
          Payments.Sample.memo) := by
  have h := payments_with_wallet Missing.documented_checksInc Wallet.Sample.nextRevision 8 0 0
    Sample.txs
  have hstored : (run (dispatch .documented Wallet.Sample.nextRevision 8) (deployed 0 0)
      Sample.txs).payments.intents 1 =
        some (.fresh 1 1 2 Payments.Sample.amount Payments.Sample.memo 0) := by decide +kernel
  refine ⟨?_, ?_, ?_, ?_⟩
  · exact h.1 (by decide +kernel) 1
      (.fresh 1 1 2 Payments.Sample.amount Payments.Sample.memo 0) hstored
  · intro hcreates
    have hdis : Disables 1 (stepOf (dispatch .documented Wallet.Sample.nextRevision 8)
        (run (dispatch .documented Wallet.Sample.nextRevision 8) (deployed 0 0) Sample.txs)
        Sample.disableTx) := ⟨.inl rfl, by decide +kernel⟩
    obtain ⟨st, hst, _⟩ := h.2.1 1 Sample.disableTx [] Sample.createTx 2 hdis
      (by decide +kernel) hcreates
    cases hst
  · have hown : own Call.isPayments [Sample.disableTx, Sample.settleTx] = [Sample.settleTx] := rfl
    obtain ⟨hsame, _⟩ := h.2.2.1 1 [Sample.disableTx, Sample.settleTx] (by decide +kernel)
    rw [hown] at hsame
    exact hsame
  · have htx : Sample.settleTx =
        ⟨Sample.settleTx.env, .payments (.settleIntent 0 1 Payments.Sample.memo)⟩ := rfl
    have hsettled := h.2.2.2.1 1 _ (.settled Payments.Sample.memo) Sample.settleTx.env
      (.settleIntent 0 1 Payments.Sample.memo) hstored (by decide) (by decide +kernel)
    rw [htx]
    exact hsettled.2

end LilyContracts.System
