import LilyContracts.Wallet.Effects

/-!
# Consent over an agent's binding

Seen from one agent, the registry is a machine on a single slot, the agent's
binding, absent or present. Six things can happen to it (`BindingStep`), each
with its own signatures: the agent and a wallet bind or rebind, the agent alone
sets the limit or the state, the admin alone deactivates, and every other call,
failed or about another agent, leaves the slot alone. `bindingStep_after` says
that the contract does nothing else; every clause about histories is read off
that machine.

Two fields are cells with a history (`pairWrite`, `limitWrite`): what they hold
is what their last write wrote, and every write carried the agent's signature,
the pair's the wallet's as well.
-/

namespace LilyContracts.Wallet

open Host

variable {A : Type}

/-! ## The machine of one binding -/

/-- What a call means to one agent's binding. -/
inductive Action (A : Type)
  | idle
  | bind (wallet : A) (asset : Symbol) (limit : I128)
  | rebind (wallet : A) (asset : Symbol) (limit : I128)
  | limit (limit : I128)
  | state (enabled : Bool)
  | deactivate
  deriving DecidableEq

/-- The machine, driven by who signs and by who is admin. -/
inductive BindingStep (signs : A → Bool) (admin : Option A) (agent : A) :
    Option (WalletBinding A) → Action A → Option (WalletBinding A) → Prop
  | idle (b : Option (WalletBinding A)) : BindingStep signs admin agent b .idle b
  | bind {wallet : A} {asset : Symbol} {limit : I128} (limit_pos : 0 < limit.val)
      (agentSigned : signs agent = true) (walletSigned : signs wallet = true) :
      BindingStep signs admin agent none (.bind wallet asset limit)
        (some ⟨wallet, asset, limit, true, 0⟩)
  | rebind {b : WalletBinding A} {wallet : A} {asset : Symbol} {limit : I128}
      (revision : UInt64) (limit_pos : 0 < limit.val) (agentSigned : signs agent = true)
      (walletSigned : signs wallet = true) :
      BindingStep signs admin agent (some b) (.rebind wallet asset limit)
        (some ⟨wallet, asset, limit, true, revision⟩)
  | limit {b : WalletBinding A} {limit : I128} (revision : UInt64) (limit_pos : 0 < limit.val)
      (agentSigned : signs agent = true) (enabled : b.enabled = true) :
      BindingStep signs admin agent (some b) (.limit limit)
        (some { b with spendLimit := limit, revision })
  | state {b : WalletBinding A} {enabled : Bool} (revision : UInt64)
      (agentSigned : signs agent = true) :
      BindingStep signs admin agent (some b) (.state enabled) (some { b with enabled, revision })
  | deactivate {a : A} {b : WalletBinding A} (isAdmin : admin = some a)
      (signed : signs a = true) (inc : b.revision.toNat + 1 < 2 ^ 64) :
      BindingStep signs admin agent (some b) .deactivate
        (some { b with enabled := false, revision := b.revision + 1 })

section Reading

variable [DecidableEq A]

/-- What the call does to `agent`'s binding when it succeeds. -/
def Call.action (agent : A) : Call A → Action A
  | .bindWallet a wallet asset limit => if a = agent then .bind wallet asset limit else .idle
  | .rebindWallet a wallet asset limit => if a = agent then .rebind wallet asset limit else .idle
  | .updateSpendLimit a limit => if a = agent then .limit limit else .idle
  | .setEnabled a enabled => if a = agent then .state enabled else .idle
  | .adminDeactivate a => if a = agent then .deactivate else .idle
  | _ => .idle

theorem action_of_view {agent : A} {c : Call A} (reads : c.IsView) : c.action agent = .idle := by
  cases c with
  | isInitialized => rfl
  | getBinding => rfl
  | getBindingOpt => rfl
  | _ => exact absurd reads id

/-- What a step did to `agent`'s binding: nothing if its call failed. -/
def action (agent : A) (st : Step A) : Action A :=
  if st.Succeeded then st.tx.call.action agent else .idle

/-- The wallet and asset a step wrote into `agent`'s binding: those of a
successful `bind_wallet` or `rebind_wallet`. -/
def pairWrite (agent : A) (st : Step A) : Option (A × Symbol) :=
  match action agent st with
  | .bind wallet asset _ => some (wallet, asset)
  | .rebind wallet asset _ => some (wallet, asset)
  | _ => none

/-- The spend limit a step wrote into `agent`'s binding. -/
def limitWrite (agent : A) (st : Step A) : Option I128 :=
  match action agent st with
  | .bind _ _ limit => some limit
  | .rebind _ _ limit => some limit
  | .limit limit => some limit
  | _ => none

/-- How often the admin deactivated `agent`'s binding along a trace. -/
def deactivations (agent : A) (steps : List (Step A)) : Nat :=
  (steps.filter fun st => action agent st = .deactivate).length

/-- The wallet and asset of an agent's binding. -/
def Store.pair (s : Store A) (agent : A) : Option (A × Symbol) :=
  (s.binding agent).map fun b => (b.wallet, b.settlementAsset)

/-- The spend limit of an agent's binding. -/
def Store.limit (s : Store A) (agent : A) : Option I128 :=
  (s.binding agent).map (·.spendLimit)

end Reading

section Steps

variable [DecidableEq A] {M : Missing} {nextRevision : NextRevision A} {s : Store A} {agent : A}

/-! ## The contract refines the machine -/

/-- A call that writes a binding, `agent`'s or another's, is a step of a machine on
`agent`'s slot when it is one on the slot it writes. -/
theorem put_slot {R : A → Option (WalletBinding A) → Action A → Option (WalletBinding A) → Prop}
    (idle : ∀ agent b, R agent b .idle b) {a : A} {b : WalletBinding A} {act : Action A}
    (h : R a (s.binding a) act (some b)) :
    R agent (s.binding agent) (if a = agent then act else .idle) ((s.put a b).binding agent) := by
  by_cases ha : a = agent
  · subst ha
    rw [if_pos rfl, put_binding_self]
    exact h
  · rw [if_neg ha, put_binding_of_ne (fun he => ha he.symm)]
    exact idle agent _

theorem bindingStep_after (hM : M.RequiresEnabled) (nextRevision : NextRevision A) (s : Store A)
    (agent : A) (tx : Tx A) :
    BindingStep tx.env.signs s.admin agent (s.binding agent)
      (action agent (stepOf (dispatch M nextRevision) s tx))
      ((after (dispatch M nextRevision) s tx).binding agent) := by
  rcases after_cases M nextRevision s tx with ⟨hfail, heq⟩ | ⟨r, evs, hr, heff⟩
  · rw [heq, action, if_neg hfail]
    exact .idle _
  · rw [action, if_pos ⟨r, hr⟩, stepOf_tx]
    generalize tx.call = c at heff
    generalize after (dispatch M nextRevision) s tx = s' at heff ⊢
    cases heff with
    | initializeContract => exact .idle _
    | @bindWallet a wallet asset limit live hpos hagent hwallet unbound =>
      refine put_slot (R := BindingStep tx.env.signs s.admin) (fun _ => .idle) ?_
      rw [unbound]
      exact .bind hpos hagent hwallet
    | @rebindWallet a wallet asset limit revision live hpos hagent hwallet bound =>
      -- whatever was bound is replaced whole
      obtain ⟨b, hb⟩ := Option.isSome_iff_exists.mp bound
      refine put_slot (R := BindingStep tx.env.signs s.admin) (fun _ => .idle) ?_
      rw [hb]
      exact .rebind revision hpos hagent hwallet
    | @updateSpendLimit a limit b revision live hpos signed stored enabled =>
      refine put_slot (R := BindingStep tx.env.signs s.admin) (fun _ => .idle) ?_
      rw [stored]
      exact .limit revision hpos signed (hM.ok_iff.mp enabled)
    | @setEnabled a enabled b revision live signed stored =>
      refine put_slot (R := BindingStep tx.env.signs s.admin) (fun _ => .idle) ?_
      rw [stored]
      exact .state revision signed
    | @adminDeactivate admin a b live isAdmin signed stored inc =>
      refine put_slot (R := BindingStep tx.env.signs s.admin) (fun _ => .idle) ?_
      rw [stored]
      exact .deactivate isAdmin signed inc
    | view reads =>
      rw [action_of_view reads]
      exact .idle _

/-! ## The two cells -/

theorem pair_after (hM : M.RequiresEnabled) (nextRevision : NextRevision A) (s : Store A)
    (agent : A) (tx : Tx A) :
    (after (dispatch M nextRevision) s tx).pair agent =
      (pairWrite agent (stepOf (dispatch M nextRevision) s tx)).or (s.pair agent) := by
  have hstep := bindingStep_after hM nextRevision s agent tx
  unfold Store.pair pairWrite
  generalize s.binding agent = b₀ at hstep ⊢
  generalize (after (dispatch M nextRevision) s tx).binding agent = b₁ at hstep ⊢
  generalize action agent (stepOf (dispatch M nextRevision) s tx) = act at hstep ⊢
  cases hstep with
  | idle => rfl
  | bind => rfl
  | rebind => rfl
  | limit => rfl
  | state => rfl
  | deactivate => rfl

theorem limit_after (hM : M.RequiresEnabled) (nextRevision : NextRevision A) (s : Store A)
    (agent : A) (tx : Tx A) :
    (after (dispatch M nextRevision) s tx).limit agent =
      (limitWrite agent (stepOf (dispatch M nextRevision) s tx)).or (s.limit agent) := by
  have hstep := bindingStep_after hM nextRevision s agent tx
  unfold Store.limit limitWrite
  generalize s.binding agent = b₀ at hstep ⊢
  generalize (after (dispatch M nextRevision) s tx).binding agent = b₁ at hstep ⊢
  generalize action agent (stepOf (dispatch M nextRevision) s tx) = act at hstep ⊢
  cases hstep with
  | idle => rfl
  | bind => rfl
  | rebind => rfl
  | limit => rfl
  | state => rfl
  | deactivate => rfl

/-- Whoever writes the pair has both signatures. -/
theorem pairWrite_signed (hM : M.RequiresEnabled) {tx : Tx A} {wallet : A} {asset : Symbol}
    (h : pairWrite agent (stepOf (dispatch M nextRevision) s tx) = some (wallet, asset)) :
    tx.env.signs agent = true ∧ tx.env.signs wallet = true := by
  have hstep := bindingStep_after hM nextRevision s agent tx
  unfold pairWrite at h
  generalize s.binding agent = b₀ at hstep
  generalize (after (dispatch M nextRevision) s tx).binding agent = b₁ at hstep
  generalize action agent (stepOf (dispatch M nextRevision) s tx) = act at hstep h
  cases hstep with
  | bind _ hagent hwallet =>
    cases h
    exact ⟨hagent, hwallet⟩
  | rebind _ _ hagent hwallet =>
    cases h
    exact ⟨hagent, hwallet⟩
  | idle => cases h
  | limit => cases h
  | state => cases h
  | deactivate => cases h

/-- Whoever writes the limit has the agent's signature, and writes a positive
one. -/
theorem limitWrite_signed (hM : M.RequiresEnabled) {tx : Tx A} {limit : I128}
    (h : limitWrite agent (stepOf (dispatch M nextRevision) s tx) = some limit) :
    tx.env.signs agent = true ∧ 0 < limit.val := by
  have hstep := bindingStep_after hM nextRevision s agent tx
  unfold limitWrite at h
  generalize s.binding agent = b₀ at hstep
  generalize (after (dispatch M nextRevision) s tx).binding agent = b₁ at hstep
  generalize action agent (stepOf (dispatch M nextRevision) s tx) = act at hstep h
  cases hstep with
  | bind hpos hagent =>
    cases h
    exact ⟨hagent, hpos⟩
  | rebind _ hpos hagent =>
    cases h
    exact ⟨hagent, hpos⟩
  | limit _ hpos hagent =>
    cases h
    exact ⟨hagent, hpos⟩
  | idle => cases h
  | state => cases h
  | deactivate => cases h

/-- Outside `bind_wallet` and `rebind_wallet` the limit changes only while the
binding is enabled. -/
theorem enabled_of_limit_ne (hM : M.RequiresEnabled) {tx : Tx A} {b b' : WalletBinding A}
    (hb : s.binding agent = some b)
    (hb' : (after (dispatch M nextRevision) s tx).binding agent = some b')
    (hpair : pairWrite agent (stepOf (dispatch M nextRevision) s tx) = none)
    (hne : b'.spendLimit ≠ b.spendLimit) : b.enabled = true := by
  have hstep := bindingStep_after hM nextRevision s agent tx
  rw [hb, hb'] at hstep
  unfold pairWrite at hpair
  generalize action agent (stepOf (dispatch M nextRevision) s tx) = act at hstep hpair
  cases hstep with
  | idle => exact absurd rfl hne
  | rebind => cases hpair
  | limit _ _ _ enabled => exact enabled
  | state => exact absurd rfl hne
  | deactivate => exact absurd rfl hne

/-! ## Without the agent -/

/-- A binding after `n` deactivations by the admin. -/
structure Deactivated (n : Nat) (b b' : WalletBinding A) : Prop where
  wallet : b'.wallet = b.wallet
  settlementAsset : b'.settlementAsset = b.settlementAsset
  spendLimit : b'.spendLimit = b.spendLimit
  enabled : b'.enabled = (b.enabled && n == 0)
  revision : b'.revision.toNat = b.revision.toNat + n

omit [DecidableEq A] in
theorem Deactivated.zero (b : WalletBinding A) : Deactivated 0 b b :=
  ⟨rfl, rfl, rfl, by simp, rfl⟩

omit [DecidableEq A] in
theorem Deactivated.succ {n : Nat} {b b' : WalletBinding A}
    (hlt : b.revision.toNat + 1 < 2 ^ 64)
    (h : Deactivated n { b with enabled := false, revision := b.revision + 1 } b') :
    Deactivated (n + 1) b b' := by
  refine ⟨h.wallet, h.settlementAsset, h.spendLimit, ?_, ?_⟩
  · rw [h.enabled]
    simp
  · have hinc : (b.revision + 1).toNat = b.revision.toNat + 1 := toNat_add_one hlt
    rw [h.revision, hinc]
    omega

/-- Without the agent's signature, a step leaves the binding alone or is the
stored admin deactivating it. -/
theorem unsigned_after (hM : M.RequiresEnabled) (nextRevision : NextRevision A) (s : Store A)
    {tx : Tx A} (hout : tx.env.signs agent = false) :
    (action agent (stepOf (dispatch M nextRevision) s tx) = .idle ∧
      (after (dispatch M nextRevision) s tx).binding agent = s.binding agent) ∨
    ∃ a b, s.admin = some a ∧ tx.env.signs a = true ∧ s.binding agent = some b ∧
      b.revision.toNat + 1 < 2 ^ 64 ∧
      action agent (stepOf (dispatch M nextRevision) s tx) = .deactivate ∧
      (after (dispatch M nextRevision) s tx).binding agent =
        some { b with enabled := false, revision := b.revision + 1 } := by
  have hstep := bindingStep_after hM nextRevision s agent tx
  generalize s.binding agent = b₀ at hstep ⊢
  generalize (after (dispatch M nextRevision) s tx).binding agent = b₁ at hstep ⊢
  generalize action agent (stepOf (dispatch M nextRevision) s tx) = act at hstep ⊢
  cases hstep with
  | idle => exact .inl ⟨rfl, rfl⟩
  | bind _ hagent =>
    rw [hout] at hagent
    cases hagent
  | rebind _ _ hagent =>
    rw [hout] at hagent
    cases hagent
  | limit _ _ hagent =>
    rw [hout] at hagent
    cases hagent
  | state _ hagent =>
    rw [hout] at hagent
    cases hagent
  | deactivate isAdmin signed inc => exact .inr ⟨_, _, isAdmin, signed, rfl, inc, rfl, rfl⟩

theorem deactivations_cons {st : Step A} {steps : List (Step A)} :
    deactivations agent (st :: steps) =
      (if action agent st = .deactivate then 1 else 0) + deactivations agent steps := by
  unfold deactivations
  by_cases h : action agent st = .deactivate
  · rw [if_pos h, List.filter_cons_of_pos (by simpa using h), List.length_cons]
    omega
  · rw [if_neg h, List.filter_cons_of_neg (by simpa using h)]
    omega

theorem unsigned_absent (hM : M.RequiresEnabled) (txs : List (Tx A)) :
    ∀ {s : Store A}, Unsigned agent txs → s.binding agent = none →
      (run (dispatch M nextRevision) s txs).binding agent = none := by
  induction txs with
  | nil =>
    intro s _ hnone
    exact hnone
  | cons tx txs ih =>
    intro s hout hnone
    refine ih (fun t ht => hout t (List.mem_cons_of_mem _ ht)) ?_
    rcases unsigned_after hM nextRevision s (hout tx (List.mem_cons_self ..)) with
      ⟨_, hsame⟩ | ⟨_, b, _, _, hb, _⟩
    · exact hsame.trans hnone
    · rw [hnone] at hb
      cases hb

theorem unsigned_present (hM : M.RequiresEnabled) (txs : List (Tx A)) :
    ∀ {s : Store A} {b : WalletBinding A}, Unsigned agent txs → s.binding agent = some b →
      ∃ b', (run (dispatch M nextRevision) s txs).binding agent = some b' ∧
        Deactivated (deactivations agent (trace (dispatch M nextRevision) s txs)) b b' := by
  induction txs with
  | nil =>
    intro s b _ hb
    exact ⟨b, hb, .zero b⟩
  | cons tx txs ih =>
    intro s b hout hb
    have htail : Unsigned agent txs := fun t ht => hout t (List.mem_cons_of_mem _ ht)
    rw [trace_cons, deactivations_cons, run_cons]
    rcases unsigned_after hM nextRevision s (hout tx (List.mem_cons_self ..)) with
      ⟨hidle, hsame⟩ | ⟨_, b₁, _, _, hb₁, hlt, hact, hnew⟩
    · rw [hidle, if_neg nofun, Nat.zero_add]
      exact ih htail (hsame.trans hb)
    · obtain rfl : b = b₁ := by simpa [hb] using hb₁
      obtain ⟨b', hb', hd⟩ := ih htail hnew
      rw [hact, if_pos rfl, Nat.add_comm]
      exact ⟨b', hb', hd.succ hlt⟩

/-- Every deactivation carries the stored admin's signature. -/
theorem deactivate_signed (hM : M.RequiresEnabled) {txs : List (Tx A)} {st : Step A}
    (hst : st ∈ trace (dispatch M nextRevision) s txs) (hact : action agent st = .deactivate) :
    ∃ a, st.pre.admin = some a ∧ st.tx.env.signs a = true := by
  obtain ⟨l₁, tx, l₂, _, rfl⟩ := mem_trace.mp hst
  have hstep := bindingStep_after hM nextRevision (run (dispatch M nextRevision) s l₁) agent tx
  rw [hact] at hstep
  generalize (run (dispatch M nextRevision) s l₁).binding agent = b₀ at hstep
  generalize (after (dispatch M nextRevision) (run (dispatch M nextRevision) s l₁) tx).binding
    agent = b₁ at hstep
  cases hstep with
  | deactivate isAdmin signed inc => exact ⟨_, isAdmin, signed⟩

/-! ## Once bound -/

theorem bound_after (hM : M.RequiresEnabled) (nextRevision : NextRevision A)
    (hb : (s.binding agent).isSome = true) (tx : Tx A) :
    ((after (dispatch M nextRevision) s tx).binding agent).isSome = true := by
  have hstep := bindingStep_after hM nextRevision s agent tx
  generalize s.binding agent = b₀ at hstep hb
  generalize (after (dispatch M nextRevision) s tx).binding agent = b₁ at hstep ⊢
  generalize action agent (stepOf (dispatch M nextRevision) s tx) = act at hstep
  cases hstep with
  | idle => exact hb
  | bind => rfl
  | rebind => rfl
  | limit => rfl
  | state => rfl
  | deactivate => rfl

theorem bound_run (hM : M.RequiresEnabled) (nextRevision : NextRevision A)
    (hb : (s.binding agent).isSome = true) (txs : List (Tx A)) :
    ((run (dispatch M nextRevision) s txs).binding agent).isSome = true :=
  run_invariant (I := fun s : Store A => (s.binding agent).isSome = true)
    (fun _ tx h => bound_after hM nextRevision h tx) hb

/-- `bind_wallet` fails for an agent that is bound. -/
theorem bind_fails (hb : (s.binding agent).isSome = true) {tx : Tx A} {wallet : A}
    {asset : Symbol} {limit : I128} (hcall : tx.call = .bindWallet agent wallet asset limit) :
    ¬ (stepOf (dispatch M nextRevision) s tx).Succeeded := by
  intro hok
  rcases after_cases M nextRevision s tx with ⟨hfail, _⟩ | ⟨r, evs, _, heff⟩
  · exact hfail hok
  · rw [hcall] at heff
    generalize after (dispatch M nextRevision) s tx = s' at heff
    cases heff with
    | bindWallet live hpos hagent hwallet unbound =>
      rw [unbound] at hb
      cases hb
    | view reads => exact reads

/-! ## Consent -/

/-- **Consent**, for every agent at every reachable state with its history: a
stored limit is positive; wallet and asset are those of the last successful
`bind_wallet` or `rebind_wallet`, signed by the agent and that wallet; the limit
is that of its last write, signed by the agent, and is otherwise changed only
while the binding is enabled; without the agent's signature the binding at most
gets deactivated, by the stored admin; and once bound, the agent stays bound and
cannot bind again. -/
theorem binding_consent (hM : M.RequiresEnabled) (nextRevision : NextRevision A) (pin : A)
    (before : List (Tx A)) (agent : A) :
    let s := run (dispatch M nextRevision) (deployed pin) before
    let steps := trace (dispatch M nextRevision) (deployed pin) before
    (∀ b, s.binding agent = some b → 0 < b.spendLimit.val) ∧
    (∀ b, s.binding agent = some b →
      ∃ st, lastWrite (pairWrite agent) steps = some (st, (b.wallet, b.settlementAsset)) ∧
        st.tx.env.signs agent = true ∧ st.tx.env.signs b.wallet = true) ∧
    (∀ tx, pairWrite agent (stepOf (dispatch M nextRevision) s tx) = none →
      (after (dispatch M nextRevision) s tx).pair agent = s.pair agent) ∧
    (∀ b, s.binding agent = some b →
      ∃ st, lastWrite (limitWrite agent) steps = some (st, b.spendLimit) ∧
        st.tx.env.signs agent = true) ∧
    (∀ tx b b', s.binding agent = some b →
      (after (dispatch M nextRevision) s tx).binding agent = some b' →
      pairWrite agent (stepOf (dispatch M nextRevision) s tx) = none →
      b'.spendLimit ≠ b.spendLimit → b.enabled = true) ∧
    (∀ txs, Unsigned agent txs →
      (s.binding agent = none → (run (dispatch M nextRevision) s txs).binding agent = none) ∧
      (∀ b, s.binding agent = some b →
        ∃ b', (run (dispatch M nextRevision) s txs).binding agent = some b' ∧
          Deactivated (deactivations agent (trace (dispatch M nextRevision) s txs)) b b') ∧
      ∀ st ∈ trace (dispatch M nextRevision) s txs, action agent st = .deactivate →
        ∃ a, st.pre.admin = some a ∧ st.tx.env.signs a = true) ∧
    (∀ b, s.binding agent = some b → ∀ txs,
      ((run (dispatch M nextRevision) s txs).binding agent).isSome = true ∧
      ∀ st ∈ trace (dispatch M nextRevision) s txs, ∀ wallet asset limit,
        st.tx.call = .bindWallet agent wallet asset limit → ¬ st.Succeeded) := by
  intro s steps
  have hlimit : ∀ b, s.binding agent = some b →
      ∃ st, lastWrite (limitWrite agent) steps = some (st, b.spendLimit) ∧
        st.tx.env.signs agent = true ∧ 0 < b.spendLimit.val := by
    intro b hb
    have hcell : s.limit agent = some b.spendLimit := by
      rw [Store.limit, hb]
      rfl
    obtain ⟨s', tx, hlast, hw⟩ := lastWrite_run (w := limitWrite agent)
      (f := fun s => s.limit agent) (fun s tx => limit_after hM nextRevision s agent tx) rfl hcell
    exact ⟨_, hlast, limitWrite_signed hM hw⟩
  refine ⟨?_, ?_, ?_, ?_, ?_, ?_, ?_⟩
  · intro b hb
    obtain ⟨_, _, _, hpos⟩ := hlimit b hb
    exact hpos
  · intro b hb
    have hcell : s.pair agent = some (b.wallet, b.settlementAsset) := by
      rw [Store.pair, hb]
      rfl
    obtain ⟨s', tx, hlast, hw⟩ := lastWrite_run (w := pairWrite agent)
      (f := fun s => s.pair agent) (fun s tx => pair_after hM nextRevision s agent tx) rfl hcell
    exact ⟨_, hlast, pairWrite_signed hM hw⟩
  · intro tx hnone
    rw [pair_after hM nextRevision s agent tx, hnone]
    rfl
  · intro b hb
    obtain ⟨st, hst, hs, _⟩ := hlimit b hb
    exact ⟨st, hst, hs⟩
  · intro tx b b' hb hb' hpair hne
    exact enabled_of_limit_ne hM hb hb' hpair hne
  · intro txs hout
    refine ⟨fun hnone => unsigned_absent hM txs hout hnone,
      fun b hb => unsigned_present hM txs hout hb, ?_⟩
    intro st hst hact
    exact deactivate_signed hM hst hact
  · intro b hb txs
    have hsome : (s.binding agent).isSome = true := by rw [hb]; rfl
    refine ⟨bound_run hM nextRevision hsome txs, ?_⟩
    intro st hst wallet asset limit hcall
    obtain ⟨l₁, tx, l₂, _, rfl⟩ := mem_trace.mp hst
    exact bind_fails (bound_run hM nextRevision hsome l₁) hcall

end Steps

/-- A binding the admin deactivated: it is the one that its agent and its wallet signed,
and whatever others do, it stays that one, deactivated. -/
theorem binding_consent_sample :
    let s := run (dispatch .documented Sample.nextRevision) (deployed 0)
      [Sample.initializeTx, Sample.bindTx, Sample.deactivateTx]
    ∃ b, s.binding 1 = some b ∧ b.enabled = false ∧ 0 < b.spendLimit.val ∧
      (∃ st, lastWrite (pairWrite 1) (trace (dispatch .documented Sample.nextRevision) (deployed 0)
          [Sample.initializeTx, Sample.bindTx, Sample.deactivateTx]) =
            some (st, (b.wallet, b.settlementAsset)) ∧
        st.tx.env.signs 1 = true ∧ st.tx.env.signs b.wallet = true) ∧
      ∀ txs, Unsigned 1 txs →
        ∃ b', (run (dispatch .documented Sample.nextRevision) s txs).binding 1 = some b' ∧
          b'.wallet = b.wallet ∧ b'.settlementAsset = b.settlementAsset ∧
          b'.spendLimit = b.spendLimit ∧ b'.enabled = false := by
  intro s
  obtain ⟨hpos, hsigned, _, _, _, hunsigned, _⟩ := binding_consent
    Missing.documented_requiresEnabled Sample.nextRevision 0
    [Sample.initializeTx, Sample.bindTx, Sample.deactivateTx] 1
  have hb : s.binding 1 = some ⟨5, "USDC", Sample.limit, false, 1⟩ := by decide +kernel
  refine ⟨_, hb, rfl, hpos _ hb, hsigned _ hb, fun txs hout => ?_⟩
  obtain ⟨b', hb', hd⟩ := (hunsigned txs hout).2.1 _ hb
  exact ⟨b', hb', hd.wallet, hd.settlementAsset, hd.spendLimit, hd.enabled⟩

end LilyContracts.Wallet
