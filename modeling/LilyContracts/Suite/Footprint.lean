import LilyContracts.Suite
import LilyContracts.Payments.Signers
import LilyContracts.Identity.Delegation
import LilyContracts.Wallet.Consent

/-!
# What is recorded of one address

An agent leaves traces in three contracts: its profile, its binding, and the intents
it pays with their index (`footprint`). Each contract says for itself who may change
them. Put together this is `footprint_run`: over any run of the four contracts in
which nobody of a short list signs, nothing recorded of an address changes. The list
is the address itself; the controller of its profile and the admin of identity, if it
has a profile; the admin of the wallet, if it is bound; the admin of payments, if it
has created an intent. An address that signs nothing and has no records is given none,
whoever signs.

The list is read off the state at the start. That is enough because none of the
addresses on it can be replaced without a signature of one of them.
-/

namespace LilyContracts

open Host

/-! ## One step of each contract -/

namespace Identity

variable {A : Type} [DecidableEq A] {M : Missing} {s : Store A} {agent : A} {tx : Tx A}

/-- Unsigned by the agent, and by its controller and the admin if it has a profile, a
call leaves the profile alone. -/
theorem profile_unsigned (hagent : tx.env.signs agent = false)
    (hothers : ∀ q, s.profile agent = some q → tx.env.signs q.controller = false ∧
      ∀ a, s.admin = some a → tx.env.signs a = false) :
    (after (dispatch M) s tx).profile agent = s.profile agent := by
  have hstep := profileStep_after M s agent tx
  generalize (after (dispatch M) s tx).profile agent = p₁ at hstep ⊢
  generalize s.profile agent = p₀ at hstep hothers ⊢
  generalize action agent (stepOf (dispatch M) s tx) = act at hstep
  cases hstep with
  | idle => rfl
  | register signed =>
    rw [hagent] at signed
    cases signed
  | update revision active signed =>
    rw [(hothers _ rfl).1] at signed
    cases signed
  | deactivate revision isAdmin signed =>
    rw [(hothers _ rfl).2 _ isAdmin] at signed
    cases signed
  | reactivate revision isAdmin signed =>
    rw [(hothers _ rfl).2 _ isAdmin] at signed
    cases signed

/-- Nothing is registered before initialization. -/
theorem initialized_of_profile {pin : A} {txs : List (Tx A)} {q : AgentProfile A}
    (h : (run (dispatch M) (deployed pin) txs).profile agent = some q) :
    (run (dispatch M) (deployed pin) txs).initialized.isSome = true := by
  have hphase : run (dispatch M) (deployed pin) txs = deployed pin ∨ _ := phase txs
  rcases hphase with heq | ⟨hinit, _⟩
  · rw [heq] at h
    cases h
  · exact hinit

end Identity

namespace Wallet

variable {A : Type} [DecidableEq A] {M : Missing} {nextRevision : NextRevision A} {s : Store A}
  {agent : A} {tx : Tx A}

/-- Unsigned by the agent, and by the admin if it is bound, a call leaves the binding
alone. -/
theorem binding_unsigned (hM : M.RequiresEnabled) (hagent : tx.env.signs agent = false)
    (hadmin : ∀ b, s.binding agent = some b → ∀ a, s.admin = some a → tx.env.signs a = false) :
    (after (dispatch M nextRevision) s tx).binding agent = s.binding agent := by
  rcases unsigned_after hM nextRevision s hagent with ⟨_, hsame⟩ | ⟨a, b, ha, hsigned, hb, _⟩
  · exact hsame
  · rw [hadmin b hb a ha] at hsigned
    cases hsigned

/-- The stored admin of an initialized wallet never changes. -/
theorem admin_after (M : Missing) (nextRevision : NextRevision A)
    (hinit : s.initialized.isSome = true) (tx : Tx A) :
    (after (dispatch M nextRevision) s tx).initialized.isSome = true ∧
      (after (dispatch M nextRevision) s tx).admin = s.admin :=
  ⟨(gate M nextRevision).kept hinit tx,
    (gate M nextRevision).fixed effect_of_exec admin_kept hinit tx⟩

/-- Nothing is bound before initialization. -/
theorem initialized_of_binding {pin : A} {txs : List (Tx A)} {b : WalletBinding A}
    (h : (run (dispatch M nextRevision) (deployed pin) txs).binding agent = some b) :
    (run (dispatch M nextRevision) (deployed pin) txs).initialized.isSome = true := by
  have hphase : run (dispatch M nextRevision) (deployed pin) txs = deployed pin ∨ _ := phase txs
  rcases hphase with heq | ⟨hinit, _⟩
  · rw [heq] at h
    cases h
  · exact hinit

end Wallet

namespace Payments

variable {A : Type} [DecidableEq A] {M : Missing} {pin : A} {s : Store A} {p : A} {tx : Tx A}

/-- The intents that `p` pays. -/
def Store.paidBy (s : Store A) (p : A) (k : UInt64) : Option (PaymentIntent A) :=
  (s.intents k).filter fun i => i.payerAgent = p

theorem paidBy_eq_some {k : UInt64} {i : PaymentIntent A} :
    s.paidBy p k = some i ↔ s.intents k = some i ∧ i.payerAgent = p := by
  unfold Store.paidBy
  rw [Option.filter_eq_some_iff, decide_eq_true_eq]

/-- Writing under an id that `p` does not pay, before and after, leaves the intents
that `p` pays. -/
theorem paidBy_update {id : UInt64} {i : PaymentIntent A}
    (hbefore : ∀ i₀, s.intents id = some i₀ → i₀.payerAgent ≠ p) (hafter : i.payerAgent ≠ p)
    {s' : Store A} (hs' : s'.intents = Function.update s.intents id (some i)) :
    s'.paidBy p = s.paidBy p := by
  funext k
  unfold Store.paidBy
  rw [hs']
  by_cases hk : k = id
  · subst hk
    rw [Function.update_self, Option.filter_some, if_neg (by simpa using hafter)]
    cases hi : s.intents k with
    | none => rfl
    | some i₀ => rw [Option.filter_some, if_neg (by simpa using hbefore i₀ hi)]
  · rw [Function.update_of_ne hk]

/-- Unsigned by `p`, and by the admin if `p` has created an intent, a call leaves the
intents alone that `p` pays. -/
theorem paidBy_unsigned (hM : M.ReadsInstance) (hs : Reached pin s)
    (hp : tx.env.signs p = false)
    (hadmin : ∀ k i, s.paidBy p k = some i → ∀ a, s.admin = some a → tx.env.signs a = false) :
    (after (dispatch M) s tx).paidBy p = s.paidBy p := by
  rcases after_cases M s tx with ⟨_, heq⟩ | ⟨r, evs, _, heff⟩
  · rw [heq]
  · generalize tx.call = c at heff
    generalize after (dispatch M) s tx = s' at heff ⊢
    cases heff with
    | @createIntent payer payee wallet amount memo id next _ _ _ _ signed _ _ counter =>
      refine paidBy_update ?_ ?_ (show (s.addIntent _ _).intents = Function.update _ id _ from rfl)
      · intro i₀ hi₀
        rw [hs.counter_fresh counter] at hi₀
        cases hi₀
      · show payer ≠ p
        intro he
        rw [he, hp] at signed
        cases signed
    | @settleIntent caller id ref i _ isAdmin signed _ stored =>
      have hne : i.payerAgent ≠ p := by
        intro he
        rw [hadmin id i (paidBy_eq_some.mpr ⟨stored, he⟩) caller (hM.ok_iff.mp isAdmin)] at signed
        cases signed
      refine paidBy_update ?_ ?_ rfl
      · intro i₀ hi₀
        obtain rfl := Option.some.inj (hi₀.symm.trans stored)
        exact hne
      · exact hne
    | @cancelIntent id i _ stored signed =>
      have hne : i.payerAgent ≠ p := by
        intro he
        rw [he, hp] at signed
        cases signed
      refine paidBy_update ?_ ?_ rfl
      · intro i₀ hi₀
        obtain rfl := Option.some.inj (hi₀.symm.trans stored)
        exact hne
      · exact hne
    | initializeContract => rfl
    | setFeeBps => rfl
    | setTreasury => rfl
    | transferAdmin => rfl
    | view => rfl

/-- An initialized reachable state stores an admin. -/
theorem Reached.admin (h : Reached pin s) (hinit : s.initialized.isSome = true) :
    ∃ a, s.admin = some a := by
  rcases h with rfl | ⟨l, h⟩
  · cases hinit
  · exact h.admin

/-- A state with an intent is initialized. -/
theorem Reached.isSome (h : Reached pin s) {k : UInt64} {i : PaymentIntent A}
    (hk : s.intents k = some i) : s.initialized.isSome = true := by
  rcases h with rfl | ⟨l, h⟩
  · cases hk
  · exact h.isSome

end Payments

/-! ## All of them -/

namespace Suite

variable {A : Type} [DecidableEq A]

/-- What is recorded of one address. -/
structure Footprint (A : Type) where
  profile : Option (Identity.AgentProfile A)
  binding : Option (Wallet.WalletBinding A)
  index : Option (List UInt64)
  intents : UInt64 → Option (Payments.PaymentIntent A)

def footprint (p : A) (s : State A) : Footprint A where
  profile := s.identity.profile p
  binding := s.settlement.wallet.binding p
  index := s.settlement.payments.payerIntents p
  intents := s.settlement.payments.paidBy p

/-- Nobody signs who can change what is recorded of `p`. -/
structure Silent (p : A) (s : State A) (signs : A → Bool) : Prop where
  self : signs p = false
  profile : ∀ q, s.identity.profile p = some q → signs q.controller = false ∧
    ∀ a, s.identity.admin = some a → signs a = false
  binding : ∀ b, s.settlement.wallet.binding p = some b →
    ∀ a, s.settlement.wallet.admin = some a → signs a = false
  intents : ∀ k i, s.settlement.payments.paidBy p k = some i →
    ∀ a, s.settlement.payments.admin = some a → signs a = false

/-- Where a contract has records, it is initialized; and ids in use are behind the
counter. -/
structure Reached (pin : A) (s : State A) : Prop where
  identity : ∀ p q, s.identity.profile p = some q → s.identity.initialized.isSome = true
  wallet : ∀ p b, s.settlement.wallet.binding p = some b →
    s.settlement.wallet.initialized.isSome = true
  payments : Payments.Reached pin s.settlement.payments

/-- From one state to another, nothing recorded of `p` has changed, nor any admin that
could change it; and a contract with records of `p` is initialized. -/
structure Kept (p : A) (s s' : State A) : Prop where
  footprint : footprint p s' = footprint p s
  identity : ∀ q, s.identity.profile p = some q →
    s'.identity.initialized.isSome = true ∧ s'.identity.admin = s.identity.admin
  wallet : ∀ b, s.settlement.wallet.binding p = some b →
    s'.settlement.wallet.initialized.isSome = true ∧
      s'.settlement.wallet.admin = s.settlement.wallet.admin
  payments : ∀ k i, s.settlement.payments.paidBy p k = some i →
    s'.settlement.payments.initialized.isSome = true ∧
      s'.settlement.payments.admin = s.settlement.payments.admin

section Runs

variable {W : Setting A} {pin p : A} {s s' : State A}

theorem reached_run (hInc : W.M.ChecksInc) (pin : Contract → A) (txs : List (Tx A)) :
    Reached (pin .payments) (run (dispatch W) (deployed pin) txs) where
  identity := by
    intro p q hq
    rw [(identity_alone W (deployed pin) txs).1] at hq ⊢
    exact Identity.initialized_of_profile hq
  wallet := by
    intro p b hb
    rw [(wallet_alone W (deployed pin) txs).1] at hb ⊢
    exact Wallet.initialized_of_binding hb
  payments := by
    obtain ⟨ptxs, hrun⟩ := payments_run W (deployed pin) txs
    rw [hrun]
    exact Payments.reachable hInc _ ptxs

theorem Kept.profile (h : Kept p s s') : s'.identity.profile p = s.identity.profile p :=
  congrArg Footprint.profile h.footprint

theorem Kept.binding (h : Kept p s s') :
    s'.settlement.wallet.binding p = s.settlement.wallet.binding p :=
  congrArg Footprint.binding h.footprint

theorem Kept.paidBy (h : Kept p s s') :
    s'.settlement.payments.paidBy p = s.settlement.payments.paidBy p :=
  congrArg Footprint.intents h.footprint

/-- Who must be silent is the same as long as nothing has changed. -/
theorem Silent.of_kept {signs : A → Bool} (h : Silent p s signs) (hkept : Kept p s s') :
    Silent p s' signs where
  self := h.self
  profile := by
    intro q hq
    rw [hkept.profile] at hq
    refine ⟨(h.profile q hq).1, fun a ha => (h.profile q hq).2 a ?_⟩
    rw [← (hkept.identity q hq).2]
    exact ha
  binding := by
    intro b hb a ha
    rw [hkept.binding] at hb
    refine h.binding b hb a ?_
    rw [← (hkept.wallet b hb).2]
    exact ha
  intents := by
    intro k i hk a ha
    rw [hkept.paidBy] at hk
    refine h.intents k i hk a ?_
    rw [← (hkept.payments k i hk).2]
    exact ha

theorem payments_reached_after (hInc : W.M.ChecksInc)
    (h : Payments.Reached pin s.settlement.payments) (tx : Tx A) :
    Payments.Reached pin (after (dispatch W) s tx).settlement.payments := by
  obtain ⟨env, c⟩ := tx
  match c with
  | .protocol c =>
    rw [protocol_after]
    exact h
  | .identity c =>
    rw [identity_after]
    exact h
  | .settlement (.wallet c) =>
    rw [wallet_after]
    exact h
  | .settlement (.payments c) =>
    rw [payments_after]
    exact Payments.reached_after hInc h _

/-- No call to any of the four replaces the admin of identity. -/
theorem identity_owned_after {admin : A} (s : State A) (tx : Tx A)
    (h : s.identity.initialized.isSome = true ∧ s.identity.admin = some admin) :
    (after (dispatch W) s tx).identity.initialized.isSome = true ∧
      (after (dispatch W) s tx).identity.admin = some admin := by
  obtain ⟨env, c⟩ := tx
  match c with
  | .identity c =>
    rw [identity_after]
    obtain ⟨hinit, hadmin⟩ := Identity.admin_after W.M h.1 (identityTx s env c)
    exact ⟨hinit, hadmin.trans h.2⟩
  | .protocol c =>
    rw [protocol_after]
    exact h
  | .settlement c =>
    rw [settlement_after]
    exact h

/-- No call to any of the four replaces the admin of the wallet. -/
theorem wallet_owned_after {admin : A} (s : State A) (tx : Tx A)
    (h : s.settlement.wallet.initialized.isSome = true ∧
      s.settlement.wallet.admin = some admin) :
    (after (dispatch W) s tx).settlement.wallet.initialized.isSome = true ∧
      (after (dispatch W) s tx).settlement.wallet.admin = some admin := by
  obtain ⟨env, c⟩ := tx
  match c with
  | .settlement (.wallet c) =>
    rw [wallet_after]
    obtain ⟨hinit, hadmin⟩ := Wallet.admin_after W.M W.nextRevision h.1 (walletTx s env c)
    exact ⟨hinit, hadmin.trans h.2⟩
  | .settlement (.payments c) =>
    rw [payments_after]
    exact h
  | .protocol c =>
    rw [protocol_after]
    exact h
  | .identity c =>
    rw [identity_after]
    exact h

/-- One call, with `Silent` as its guard, keeps what is recorded of `p`. -/
theorem kept_after (hM : W.M.ReadsInstance) (hE : W.M.RequiresEnabled) (hs : Kept p s s')
    (hreach : Payments.Reached pin s'.settlement.payments) {tx : Tx A}
    (hsilent : Silent p s tx.env.signs) : Kept p s (after (dispatch W) s' tx) := by
  have h : Silent p s' tx.env.signs := hsilent.of_kept hs
  obtain ⟨env, c⟩ := tx
  match c with
  | .protocol c =>
    rw [protocol_after]
    exact ⟨hs.footprint, hs.identity, hs.wallet, hs.payments⟩
  | .identity c =>
    rw [identity_after]
    have hsame : (after (Identity.dispatch W.M) s'.identity (identityTx s' env c)).profile p =
        s'.identity.profile p := Identity.profile_unsigned h.self h.profile
    refine ⟨?_, ?_, hs.wallet, hs.payments⟩
    · rw [← hs.footprint]
      unfold footprint
      rw [hsame]
    · intro q hq
      obtain ⟨hinit, hadmin⟩ := hs.identity q hq
      obtain ⟨hinit', hadmin'⟩ := Identity.admin_after W.M hinit (identityTx s' env c)
      exact ⟨hinit', hadmin'.trans hadmin⟩
  | .settlement (.wallet c) =>
    rw [wallet_after]
    have hsame : (after (Wallet.dispatch W.M W.nextRevision) s'.settlement.wallet
        (walletTx s' env c)).binding p = s'.settlement.wallet.binding p :=
      Wallet.binding_unsigned hE h.self h.binding
    refine ⟨?_, hs.identity, ?_, hs.payments⟩
    · rw [← hs.footprint]
      unfold footprint
      rw [hsame]
    · intro b hb
      obtain ⟨hinit, hadmin⟩ := hs.wallet b hb
      obtain ⟨hinit', hadmin'⟩ := Wallet.admin_after W.M W.nextRevision hinit (walletTx s' env c)
      exact ⟨hinit', hadmin'.trans hadmin⟩
  | .settlement (.payments c) =>
    rw [payments_after]
    have hsame : (after (Payments.dispatch W.M) s'.settlement.payments
        (paymentsTx W s' env c)).paidBy p = s'.settlement.payments.paidBy p :=
      Payments.paidBy_unsigned hM hreach h.self h.intents
    have hindex : (after (Payments.dispatch W.M) s'.settlement.payments
        (paymentsTx W s' env c)).payerIntents p = s'.settlement.payments.payerIntents p :=
      (Payments.payerFrame_after W.M h.self).index
    refine ⟨?_, hs.identity, hs.wallet, ?_⟩
    · rw [← hs.footprint]
      unfold footprint
      rw [hsame, hindex]
    · intro k i hk
      obtain ⟨hinit, hadmin⟩ := hs.payments k i hk
      refine ⟨(Payments.gate W.M).kept hinit _, ?_⟩
      obtain ⟨a, ha⟩ := hreach.admin hinit
      have hout : (paymentsTx W s' env c).env.signs a = false := by
        refine h.intents k i ?_ a ha
        rw [hs.paidBy]
        exact hk
      exact (Payments.adminFrame_after hM hinit ha hout).admin.trans hadmin

/-- **Nobody else changes what is recorded of an address**: from any reachable state of
the four contracts, over any run none of whose calls is signed by the address, by the
controller of its profile, or by an admin that its records are subject to, its profile,
its binding, its intents and their index stay as they are. -/
theorem footprint_run (hM : W.M.ReadsInstance) (hE : W.M.RequiresEnabled)
    (hInc : W.M.ChecksInc) (pin : Contract → A) (before later : List (Tx A)) (p : A)
    (hsilent : ∀ tx ∈ later, Silent p (run (dispatch W) (deployed pin) before) tx.env.signs) :
    footprint p (run (dispatch W) (run (dispatch W) (deployed pin) before) later) =
      footprint p (run (dispatch W) (deployed pin) before) := by
  have hreach := reached_run hInc pin before
  generalize run (dispatch W) (deployed pin) before = s at hreach hsilent ⊢
  have hstart : Kept p s s := by
    refine ⟨rfl, fun q hq => ⟨hreach.identity p q hq, rfl⟩,
      fun b hb => ⟨hreach.wallet p b hb, rfl⟩, fun k i hk => ⟨?_, rfl⟩⟩
    exact hreach.payments.isSome (Payments.paidBy_eq_some.mp hk).1
  have hrun : Kept p s (run (dispatch W) s later) ∧
      Payments.Reached (pin .payments) (run (dispatch W) s later).settlement.payments := by
    refine along_invariant
      (I := fun s' => Kept p s s' ∧ Payments.Reached (pin .payments) s'.settlement.payments)
      (P := fun _ tx => Silent p s tx.env.signs) ?_ ⟨hstart, hreach.payments⟩
      (along_of_forall fun tx htx _ => hsilent tx htx)
    intro s' tx h htx
    exact ⟨kept_after hM hE h.1 h.2 htx, payments_reached_after hInc h.2 tx⟩
  exact hrun.1.footprint

end Runs

namespace Sample

/-- Agent 1 is registered and its wallet bound. -/
def registeredTxs : List (Tx Nat) :=
  initializeTxs ++ [tx [1] (.identity (.register 1 3 Identity.Sample.uri)),
    tx [1, 5] (.wallet (.bindWallet 1 5 "USDC" Wallet.Sample.limit))]

/-- Others try what they can. -/
def strangerTxs : List (Tx Nat) :=
  [tx [2, 5] (.identity (.updateProfile 1 Identity.Sample.uri (some 2))),
    tx [2, 5] (.identity (.deactivate 1)), tx [2, 5] (.wallet (.setEnabled 1 false)),
    tx [2, 5] (.payments (.createIntent 1 2 Payments.Sample.amount Payments.Sample.memo))]

end Sample

/-- The agent's wallet account and another agent leave the records of agent 1 alone. -/
theorem footprint_run_sample :
    footprint 1 (run (dispatch Sample.setting)
        (run (dispatch Sample.setting) (deployed fun _ => 0) Sample.registeredTxs)
        Sample.strangerTxs) =
      footprint 1 (run (dispatch Sample.setting) (deployed fun _ => 0) Sample.registeredTxs) := by
  refine footprint_run Missing.documented_readsInstance Missing.documented_requiresEnabled
    Missing.documented_checksInc (fun _ => 0) Sample.registeredTxs Sample.strangerTxs 1 ?_
  have hsigns : ∀ tx ∈ Sample.strangerTxs, tx.env.signs 1 = false ∧ tx.env.signs 3 = false ∧
      tx.env.signs 0 = false := by decide +kernel
  intro tx htx
  obtain ⟨hself, hcontroller, hadmin⟩ := hsigns tx htx
  refine ⟨hself, ?_, ?_, ?_⟩
  · intro q hq
    obtain rfl : ⟨3, Identity.Sample.uri, true, 0⟩ = q := Option.some.inj hq
    refine ⟨hcontroller, fun a ha => ?_⟩
    obtain rfl : 0 = a := Option.some.inj ha
    exact hadmin
  · intro b _ a ha
    obtain rfl : 0 = a := Option.some.inj ha
    exact hadmin
  · intro k i _ a ha
    obtain rfl : 0 = a := Option.some.inj ha
    exact hadmin

end Suite

end LilyContracts
