import LilyContracts.Suite.InitContracts
import LilyContracts.Suite.Footprint

/-!
# Interrupted initialization

`init-contracts.sh` is made to be run again: what an earlier run has initialized is
skipped. Here the four constructors have pinned the admin of the config file, and of
others only such transactions land as that admin has not signed and as do not
initialize identity or wallet.

Then any number of runs, killed anywhere, told of failures, with calls of theirs
landing late, leave the contracts `Underway`: each as its constructor left it or
configured as the file says. So a run that reports success has configured all four
alike (`initContracts_parity`).

Whether a run can report success does not depend on what came before it. Over a
connection that loses nothing it does exactly if the terms are `Feasible`
(`initContracts_resumes`): the host authorizes an address as often as a frame asks, an
address for payments' `wallet` is passed along, and the fee is acceptable. Of these the
script checks none and passes no such address, so that on the Soroban 22 host, or as it
stands, it ends in an error however often it is run.

The second condition on others is there because identity and wallet do not compare
`admin` with the pin: a stranger who initializes one of them first stays its admin,
and the script reports success just the same (`initContracts_stranger`).
-/

namespace LilyContracts

open Host

/-! ## Each contract on its way -/

namespace Protocol

variable {A : Type} [DecidableEq A] {M : Missing} {admin treasury : A} {feeBps : UInt32}
  {s : Store A}

/-- As the constructor left the contract, or as `initialize` leaves it. -/
abbrev Underway (admin treasury : A) (feeBps : UInt32) : Store A → Prop :=
  EitherSide (·.initialized.isSome) (deployed admin)
    (· = (deployed admin).configure admin treasury feeBps)

/-- A fresh contract is initialized by the pinned admin, with an acceptable fee. -/
theorem initialize_pinned {tx : Tx A}
    (hok : (stepOf (dispatch M) (deployed admin) tx).Succeeded)
    (hpick : tx.call.initializes = true) :
    tx.env.signs admin = true ∧ ∃ treasury feeBps, feeBps ≤ maxBps ∧
      tx.call = .initializeContract admin treasury feeBps ∧
      after (dispatch M) (deployed admin) tx =
        (deployed admin).configure admin treasury feeBps := by
  obtain ⟨env, c⟩ := tx
  cases c with
  | initializeContract a treasury feeBps =>
    have hguard := initialize_lands.1.mp hok
    obtain ⟨hsigned, _, hpinned, hfee⟩ := id hguard
    obtain rfl : admin = a := Option.some.inj hpinned
    exact ⟨hsigned, treasury, feeBps, hfee, rfl, initialize_lands.2 hguard⟩
  | _ => cases hpick

/-- Configured and with nobody proposed, the contract is the admin's alone to change. -/
theorem configured_after (hM : M.ReadsInstance) {tx : Tx A} (hnot : tx.env.signs admin = false) :
    after (dispatch M) ((deployed admin).configure admin treasury feeBps) tx =
      (deployed admin).configure admin treasury feeBps := by
  rcases after_cases M _ tx with ⟨_, heq⟩ | ⟨r, evs, _, heff⟩
  · exact heq
  · have hadmin : ∀ a, M.readInstance (some admin) = .ok a → tx.env.signs a = true → False := by
      intro a ha hsigned
      rw [hM.signed rfl ha hsigned] at hnot
      cases hnot
    generalize tx.call = c at heff
    generalize after (dispatch M) _ tx = s' at heff ⊢
    cases heff with
    | initializeContract signed fresh => cases fresh
    | setFeeBps live isAdmin signed => exact (hadmin _ isAdmin signed).elim
    | setTreasury live isAdmin signed => exact (hadmin _ isAdmin signed).elim
    | transferAdmin live isAdmin signed => exact (hadmin _ isAdmin signed).elim
    | acceptAdmin live pending => cases pending
    | view => rfl

/-- The contract stays on its way, whatever is called without the admin's
signature. -/
theorem underway_after (hM : M.ReadsInstance) (h : Underway admin treasury feeBps s) {tx : Tx A}
    (htx : tx.env.signs admin = false ∨ tx.call = .isInitialized ∨
      tx.call = .initializeContract admin treasury feeBps) :
    Underway admin treasury feeBps (after (dispatch M) s tx) := by
  refine h.after (gate M) ?_ ?_
  · intro hpick hok
    obtain ⟨hsigned, _, _, _, hcall, hafter⟩ := initialize_pinned hok hpick
    rcases htx with hnot | hquery | hinit
    · rw [hnot] at hsigned
      cases hsigned
    · rw [hquery] at hpick
      cases hpick
    · cases hcall.symm.trans hinit
      exact hafter
  · intro hup hconf
    rcases htx with hnot | hquery | hinit
    · rw [hconf]
      exact configured_after hM hnot
    · obtain ⟨env, c⟩ := tx
      cases hquery
      exact hconf
    · rw [(gate M).idle hup (by rw [hinit]; rfl)]
      exact hconf

end Protocol

namespace Payments

variable {A : Type} [DecidableEq A] {M : Missing} {admin treasury : A} {feeBps : UInt32}
  {wallet : Option A} {s : Store A}

/-- The configuration that `initialize` writes. -/
def ConfiguredAs (admin treasury : A) (feeBps : UInt32) (wallet : Option A) (s : Store A) : Prop :=
  s.admin = some admin ∧ s.treasury = some treasury ∧ s.feeBps = some feeBps ∧ s.wallet = wallet

/-- As the constructor left the contract, or with the configuration that `initialize`
writes. Intents may have been recorded since. -/
abbrev Underway (admin treasury : A) (feeBps : UInt32) (wallet : Option A) : Store A → Prop :=
  EitherSide (·.initialized.isSome) (deployed admin) (ConfiguredAs admin treasury feeBps wallet)

theorem initialize_pinned {tx : Tx A}
    (hok : (stepOf (dispatch M) (deployed admin) tx).Succeeded)
    (hpick : tx.call.initializes = true) :
    tx.env.signs admin = true ∧ ∃ treasury feeBps wallet, feeBps ≤ maxBps ∧
      tx.call = .initializeContract admin treasury feeBps wallet ∧
      after (dispatch M) (deployed admin) tx =
        (deployed admin).configure admin treasury feeBps wallet := by
  obtain ⟨env, c⟩ := tx
  cases c with
  | initializeContract a treasury feeBps wallet =>
    have hguard := initialize_lands.1.mp hok
    obtain ⟨hsigned, _, hpinned, hfee⟩ := id hguard
    obtain rfl : admin = a := Option.some.inj hpinned
    exact ⟨hsigned, treasury, feeBps, wallet, hfee, rfl, initialize_lands.2 hguard⟩
  | _ => cases hpick

theorem underway_after (hM : M.ReadsInstance) (h : Underway admin treasury feeBps wallet s)
    {tx : Tx A} (htx : tx.env.signs admin = false ∨ tx.call = .isInitialized ∨
      ∃ w, wallet = some w ∧ tx.call = .initializeContract admin treasury feeBps w) :
    Underway admin treasury feeBps wallet (after (dispatch M) s tx) := by
  refine h.after (gate M) ?_ ?_
  · intro hpick hok
    obtain ⟨hsigned, _, _, _, _, hcall, hafter⟩ := initialize_pinned hok hpick
    rcases htx with hnot | hquery | ⟨w, rfl, hinit⟩
    · rw [hnot] at hsigned
      cases hsigned
    · rw [hquery] at hpick
      cases hpick
    · cases hcall.symm.trans hinit
      rw [hafter]
      exact ⟨rfl, rfl, rfl, rfl⟩
  · intro hup hconf
    rcases htx with hnot | hquery | ⟨w, _, hinit⟩
    · -- the ledger is no part of the configuration
      have hframe := adminFrame_after hM hup hconf.1 hnot
      obtain ⟨ha, ht, hf, hw⟩ := hconf
      exact ⟨hframe.admin.trans ha, hframe.treasury.trans ht, hframe.feeBps.trans hf,
        hframe.wallet.trans hw⟩
    · obtain ⟨env, c⟩ := tx
      cases hquery
      exact hconf
    · rw [(gate M).idle hup (by rw [hinit]; rfl)]
      exact hconf

end Payments

namespace Identity

variable {A : Type} [DecidableEq A] {M : Missing} {admin : A} {s : Store A}

/-- As the constructor left the contract, or initialized by `admin`. -/
abbrev Underway (admin : A) : Store A → Prop :=
  EitherSide (·.initialized.isSome) (deployed admin) fun s => s.admin = some admin

/-- Only an `initialize` can bring in another admin. -/
theorem underway_after (h : Underway admin s) {tx : Tx A}
    (htx : tx.call.initializes = true → tx.call = .initializeContract admin) :
    Underway admin (after (dispatch M) s tx) := by
  refine h.after (gate M) ?_ ?_
  · intro hpick hok
    obtain ⟨env, c⟩ := tx
    cases htx hpick
    rw [initialize_lands.2 (initialize_lands.1.mp hok)]
    rfl
  · intro hup hconf
    exact ((gate M).fixed (f := fun s => s.admin) effect_of_exec admin_kept hup tx).trans hconf

end Identity

namespace Wallet

variable {A : Type} [DecidableEq A] {M : Missing} {nextRevision : NextRevision A} {admin : A}
  {s : Store A}

/-- As the constructor left the contract, or initialized by `admin`. -/
abbrev Underway (admin : A) : Store A → Prop :=
  EitherSide (·.initialized.isSome) (deployed admin) fun s => s.admin = some admin

/-- Only an `initialize` can bring in another admin. -/
theorem underway_after (h : Underway admin s) {tx : Tx A}
    (htx : tx.call.initializes = true → tx.call = .initializeContract admin) :
    Underway admin (after (dispatch M nextRevision) s tx) := by
  refine h.after (gate M nextRevision) ?_ ?_
  · intro hpick hok
    obtain ⟨env, c⟩ := tx
    cases htx hpick
    rw [initialize_lands.2 (initialize_lands.1.mp hok)]
    rfl
  · intro hup hconf
    exact ((gate M nextRevision).fixed (f := fun s => s.admin) effect_of_exec admin_kept hup
      tx).trans hconf

end Wallet

/-! ## All four -/

namespace Suite

variable {A : Type}

/-- What the config file asks for, read, and what else the command line passes to
payments, if anything. -/
structure Terms (A : Type) where
  admin : A
  treasury : A
  feeBps : UInt32
  wallet : Option A

/-- The `initialize` of each contract on these terms. -/
def Terms.initializeCall (t : Terms A) : Contract → Option (Call A)
  | .identity => some (.identity (.initializeContract t.admin))
  | .protocol => some (.protocol (.initializeContract t.admin t.treasury t.feeBps))
  | .payments =>
    t.wallet.map fun w => .payments (.initializeContract t.admin t.treasury t.feeBps w)
  | .wallet => some (.wallet (.initializeContract t.admin))

/-- The two contracts that compare `admin` with their pin are on their way. -/
structure PinnedUnderway (t : Terms A) (s : State A) : Prop where
  protocol : Protocol.Underway t.admin t.treasury t.feeBps s.protocol
  payments : Payments.Underway t.admin t.treasury t.feeBps t.wallet s.settlement.payments

/-- All four are. -/
structure Underway (t : Terms A) (s : State A) : Prop extends PinnedUnderway t s where
  identity : Identity.Underway t.admin s.identity
  wallet : Wallet.Underway t.admin s.settlement.wallet

/-- Every contract is initialized on the same terms; of protocol nothing else is
stored. -/
structure Configured (t : Terms A) (s : State A) : Prop where
  initialized : ∀ i, initialized i s = true
  protocol : s.protocol = (Protocol.deployed t.admin).configure t.admin t.treasury t.feeBps
  identity : s.identity.admin = some t.admin
  wallet : s.settlement.wallet.admin = some t.admin
  payments : Payments.ConfiguredAs t.admin t.treasury t.feeBps t.wallet s.settlement.payments

/-- On their way and all initialized, the contracts are configured. -/
theorem Underway.configured {t : Terms A} {s : State A} (h : Underway t s)
    (hinit : ∀ i, Suite.initialized i s = true) : Configured t s where
  initialized := hinit
  protocol := h.protocol.opened (hinit .protocol)
  identity := h.identity.opened (hinit .identity)
  wallet := h.wallet.opened (hinit .wallet)
  payments := h.payments.opened (hinit .payments)

theorem underway_deployed (t : Terms A) : Underway t (deployed fun _ => t.admin) where
  protocol := .of_start rfl
  payments := .of_start rfl
  identity := .of_start rfl
  wallet := .of_start rfl

/-- A call that leaves the pinned contracts on their way. -/
def OnTerms (t : Terms A) (tx : Tx A) : Prop :=
  tx.env.signs t.admin = false ∨
    ∃ i, tx.call = isInitializedCall i ∨ t.initializeCall i = some tx.call

/-- What is let in of others: the admin has not signed it, and it is no `initialize`
of identity or wallet. -/
def LetIn (t : Terms A) (tx : Tx A) : Prop :=
  tx.env.signs t.admin = false ∧ initializes .identity tx.call = false ∧
    initializes .wallet tx.call = false

section Steps

variable [DecidableEq A] {W : Setting A} {once : Bool} {t : Terms A} {s : State A}

theorem pinnedUnderway_after (hM : W.M.ReadsInstance) (h : PinnedUnderway t s) {tx : Tx A}
    (htx : OnTerms t tx) : PinnedUnderway t (after (dispatch W) s tx) := by
  obtain ⟨env, c⟩ := tx
  match c with
  | .protocol c =>
    rw [protocol_after]
    refine ⟨Protocol.underway_after hM h.protocol ?_, h.payments⟩
    rcases htx with hnot | ⟨i, hcall | hcall⟩
    · exact .inl hnot
    · cases i <;> cases hcall
      exact .inr (.inl rfl)
    · cases i with
      | protocol =>
        cases hcall
        exact .inr (.inr rfl)
      | payments =>
        obtain ⟨w, _, hw⟩ := Option.map_eq_some_iff.mp hcall
        cases hw
      | identity => cases hcall
      | wallet => cases hcall
  | .identity c =>
    rw [identity_after]
    exact ⟨h.protocol, h.payments⟩
  | .settlement (.payments c) =>
    rw [payments_after]
    refine ⟨h.protocol, Payments.underway_after hM h.payments ?_⟩
    rcases htx with hnot | ⟨i, hcall | hcall⟩
    · exact .inl hnot
    · cases i <;> cases hcall
      exact .inr (.inl rfl)
    · cases i with
      | payments =>
        obtain ⟨w, hwallet, hw⟩ := Option.map_eq_some_iff.mp hcall
        cases hw
        exact .inr (.inr ⟨w, hwallet, rfl⟩)
      | protocol => cases hcall
      | identity => cases hcall
      | wallet => cases hcall
  | .settlement (.wallet c) =>
    rw [wallet_after]
    exact ⟨h.protocol, h.payments⟩

/-- A call that does not bring a stranger in as admin of identity or wallet. -/
def NoStranger (t : Terms A) (tx : Tx A) : Prop :=
  (initializes .identity tx.call = true → tx.call = .identity (.initializeContract t.admin)) ∧
    (initializes .wallet tx.call = true → tx.call = .wallet (.initializeContract t.admin))

theorem underway_after (hM : W.M.ReadsInstance) (h : Underway t s) {tx : Tx A}
    (htx : OnTerms t tx) (hno : NoStranger t tx) : Underway t (after (dispatch W) s tx) where
  toPinnedUnderway := pinnedUnderway_after hM h.toPinnedUnderway htx
  identity := by
    obtain ⟨env, c⟩ := tx
    match c with
    | .protocol c =>
      rw [protocol_after]
      exact h.identity
    | .identity c =>
      rw [identity_after]
      refine Identity.underway_after h.identity fun hinit => ?_
      have hcall := hno.1 hinit
      cases hcall
      rfl
    | .settlement c =>
      rw [settlement_after]
      exact h.identity
  wallet := by
    obtain ⟨env, c⟩ := tx
    match c with
    | .protocol c =>
      rw [protocol_after]
      exact h.wallet
    | .identity c =>
      rw [identity_after]
      exact h.wallet
    | .settlement (.payments c) =>
      rw [payments_after]
      exact h.wallet
    | .settlement (.wallet c) =>
      rw [wallet_after]
      refine Wallet.underway_after h.wallet fun hinit => ?_
      have hcall := hno.2 hinit
      cases hcall
      rfl

end Steps

/-! ## The script, run again and again -/

/-- The file and the command line say what the terms say: the source account is the
admin's, and the ids are those of the four contracts. -/
structure Agrees (cli : StellarCli A) (config : Config) (t : Terms A) : Prop where
  source : cli.sourceAccount config.sourceAccount = some t.admin
  ids : ∀ role, cli.contract config.network (config.id role) = some role
  admin : cli.address config.admin = some t.admin
  treasury : cli.address config.treasury = some t.treasury
  feeBps : cli.u32 config.feeBps = some t.feeBps
  wallet : cli.wallet = t.wallet

/-- What the script sends on these terms. -/
def Sent (t : Terms A) (sub : Submission A (Call A)) : Prop :=
  ∃ i, sub.call = isInitializedCall i ∨ t.initializeCall i = some sub.call

section Script

variable [DecidableEq A] {W : Setting A} {once : Bool} {t : Terms A} {cli : StellarCli A}
  {config : Config} {s s' : State A}

theorem initTarget_query (ha : Agrees cli config t) (role : Contract) :
    (initTarget cli config role).query =
      some ⟨fun a => a = t.admin, isInitializedCall role⟩ := by
  refine invokeContract_eq_some.mpr ⟨t.admin, role, _, ha.source, ha.ids role, rfl, rfl⟩

omit [DecidableEq A] in
theorem initializeArgs_eq (ha : Agrees cli config t) (role : Contract) :
    initializeArgs cli config role role = t.initializeCall role := by
  cases role with
  | payments =>
    simp only [initializeArgs, initializeGlobal, Terms.initializeCall, ha.admin, ha.treasury,
      ha.feeBps, ha.wallet]
    cases t.wallet <;> rfl
  | _ =>
    simp [initializeArgs, initializeGlobal, initializeAdmin, Terms.initializeCall, ha.admin,
      ha.treasury, ha.feeBps]

theorem initTarget_setup (ha : Agrees cli config t) (role : Contract) {c : Call A}
    (hc : t.initializeCall role = some c) :
    (initTarget cli config role).setup = some ⟨fun a => a = t.admin, c⟩ :=
  invokeContract_eq_some.mpr ⟨t.admin, role, _, ha.source, ha.ids role,
    (initializeArgs_eq ha role).trans hc, rfl⟩

theorem submits_sent (ha : Agrees cli config t) :
    (initContracts cli (.ok config)).Submits (Sent t) := by
  refine submits_initContracts ?_
  intro sub hsub
  obtain ⟨role, hquery | hsetup⟩ := hsub
  · rw [initTarget_query ha] at hquery
    cases hquery
    exact ⟨role, .inl rfl⟩
  · obtain ⟨_, i, c, _, hi, hc, rfl⟩ := invokeContract_eq_some.mp hsetup
    obtain rfl : role = i := Option.some.inj ((ha.ids role).symm.trans hi)
    exact ⟨role, .inr ((initializeArgs_eq ha role).symm.trans hc)⟩

omit [DecidableEq A] in
theorem noStranger_of_sent {tx : Tx A}
    (h : ∃ i, tx.call = isInitializedCall i ∨ t.initializeCall i = some tx.call) :
    NoStranger t tx := by
  obtain ⟨i, hcall | hcall⟩ := h
  · unfold NoStranger
    rw [hcall]
    cases i <;> exact ⟨nofun, nofun⟩
  · obtain ⟨env, c⟩ := tx
    cases i with
    | identity =>
      cases hcall
      exact ⟨fun _ => rfl, nofun⟩
    | wallet =>
      cases hcall
      exact ⟨nofun, fun _ => rfl⟩
    | protocol =>
      cases hcall
      exact ⟨nofun, nofun⟩
    | payments =>
      obtain ⟨w, _, rfl⟩ := Option.map_eq_some_iff.mp hcall
      exact ⟨nofun, nofun⟩

omit [DecidableEq A] in
theorem noStranger_of_letIn {tx : Tx A} (h : LetIn t tx) : NoStranger t tx := by
  unfold NoStranger
  rw [h.2.1, h.2.2]
  exact ⟨nofun, nofun⟩

/-- Neither the script's calls nor those let in lead off the way. -/
theorem underway_stable (hM : W.M.ReadsInstance) :
    Stable (hosted once (dispatch W)) (Sent t) (LetIn t) (Underway t) where
  own _ _ _ h hsub := hosted_after h (underway_after hM h (.inr hsub) (noStranger_of_sent hsub))
  other _ _ h htx := hosted_after h (underway_after hM h (.inl htx.1) (noStranger_of_letIn htx))

/-- From contracts on their way, a play that ends in success has configured them. -/
theorem configured_of_success (hM : W.M.ReadsInstance) (ha : Agrees cli config t)
    (hs : Underway t s) {lossy : Bool} {flight : List (Submission A (Call A))}
    {l : List (Landed A (Payments.Query A) ProtocolError (Call A))}
    (hflight : ∀ sub ∈ flight, Sent t sub) (hl : ∀ ev ∈ l, ev.own = false → LetIn t ev.tx)
    (h : Plays (hosted once (dispatch W)) lossy flight (initContracts cli (.ok config)) s l s'
      (some true)) :
    Configured t s' := by
  have hunderway : Underway t s' :=
    h.invariant (underway_stable hM) (submits_sent ha) hflight hl hs
  refine hunderway.configured fun i => ?_
  obtain ⟨j, hj, hup⟩ := allInitialized_of_success h i
  obtain rfl : i = j := Option.some.inj ((ha.ids i).symm.trans hj)
  exact hup

/-- **A run that reports success has configured all four contracts alike**, on either
host, whatever runs came before it and were interrupted, and whatever went lost or
comes late. -/
theorem initContracts_parity (hM : W.M.ReadsInstance) (ha : Agrees cli config t)
    (hattempts : Attempts (hosted once (dispatch W)) (initContracts cli (.ok config)) (Sent t)
      (LetIn t) (deployed fun _ => t.admin) s)
    {lossy : Bool} {flight : List (Submission A (Call A))}
    {l : List (Landed A (Payments.Query A) ProtocolError (Call A))}
    (hflight : ∀ sub ∈ flight, Sent t sub) (hl : ∀ ev ∈ l, ev.own = false → LetIn t ev.tx)
    (h : Plays (hosted once (dispatch W)) lossy flight (initContracts cli (.ok config)) s l s'
      (some true)) :
    Configured t s' :=
  configured_of_success hM ha
    (hattempts.invariant (underway_stable hM) (submits_sent ha) (underway_deployed t)) hflight hl h

end Script

/-! ## A concrete deployment -/

namespace Sample

/-- What the file of `config` asks for. -/
def terms : Terms Nat where
  admin := 0
  treasury := 9
  feeBps := 100
  wallet := some 8

theorem agrees : Agrees cli config terms where
  source := by decide +kernel
  ids := by
    intro role
    cases role <;> decide +kernel
  admin := by decide +kernel
  treasury := by decide +kernel
  feeBps := by decide +kernel
  wallet := rfl

/-- The first call of the script that changes something. -/
def firstCall : Submission Nat (Call Nat) :=
  ⟨fun a => a = 0, .protocol (.initializeContract 0 9 100)⟩

/-- What a run leaves that is told nothing of it and ends. -/
def interruptedState : State Nat :=
  after (hosted false (dispatch setting)) (deployed fun _ => 0) (firstCall.land env)

/-- A first run: the script calls `initialize` of protocol and is told nothing, so it
ends; then the call lands. -/
theorem interrupted :
    Attempts (hosted false (dispatch setting)) (initContracts cli (.ok config)) (Sent terms)
      (LetIn terms) (deployed fun _ => terms.admin) interruptedState := by
  have hplay : Plays (hosted false (dispatch setting)) true [] (initContracts cli (.ok config))
      (deployed fun _ => terms.admin)
      [⟨(⟨fun a => a = 0, isInitializedCall .protocol⟩ : Submission Nat (Call Nat)).land env, true⟩,
        ⟨firstCall.land env, true⟩]
      interruptedState (some false) := by
    show Plays _ true [] (Client.ensure (initTarget cli config .protocol)
      (Client.ensureAll (initTarget cli config) [.identity, .wallet, .payments])) _ _ _ _
    unfold Client.ensure
    rw [initTarget_query agrees, initTarget_setup agrees .protocol rfl]
    refine .answered ?_
    rw [if_neg (by decide +kernel)]
    refine .unheard rfl ?_
    exact .late (List.mem_cons_self ..) .finish
  refine .again .none (List.forall_mem_nil _) ?_ hplay
  intro ev hev hown
  rcases List.mem_cons.mp hev with rfl | hev
  · cases hown
  · rw [List.mem_singleton.mp hev] at hown
    cases hown

end Sample

/-- The same of the second run as one over a connection that may lose something. -/
theorem initContracts_parity_sample :
    Configured Sample.terms (Client.alone (hosted false (dispatch Sample.setting)) Sample.env
      (initContracts Sample.cli (.ok Sample.config)) Sample.interruptedState).2 := by
  obtain ⟨l, hl, h⟩ := Client.plays_alone (hosted false (dispatch Sample.setting)) Sample.env
    (initContracts Sample.cli (.ok Sample.config)) Sample.interruptedState
  rw [show (Client.alone (hosted false (dispatch Sample.setting)) Sample.env
    (initContracts Sample.cli (.ok Sample.config)) Sample.interruptedState).1 = true by
      decide +kernel] at h
  exact initContracts_parity Missing.documented_readsInstance Sample.agrees Sample.interrupted
    (List.forall_mem_nil _) (own_of_others hl) h

end Suite

end LilyContracts
