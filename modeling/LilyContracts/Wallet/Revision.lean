import LilyContracts.Wallet.Consent
import LilyContracts.Host.History

/-!
# The revision of a binding, epoch by epoch

A binding's revision is restarted whenever the agent binds or rebinds: `bind_wallet`
stores 0 and `rebind_wallet` whatever its next revision is. From one such call to
the next is an epoch (`Epoch`). Within it three mutators advance the revision, by
two mechanisms: `update_spend_limit` and `set_enabled` go through `checked_inc`,
`admin_deactivate` uses `+= 1`. They advance it also where they change nothing else
(the limit set again, an enabled binding enabled, a disabled one deactivated).

`RevisionStep` says what one call does to a binding and its revision, and
`revisionStep_after` that the contract does nothing else. Through the epoch rules
of `Host/History.lean` it gives `revision_counts`: every stored binding lies in an
epoch, and in an epoch the revision is the base the epoch began with plus the
number of advances, stops at `u64::MAX`, and tells the moments of the epoch apart.
-/

namespace LilyContracts.Wallet

open Host

variable {A : Type}

/-! ## The steps that restart a revision and the steps that count -/

/-- The action writes the whole binding, its revision included. -/
def Action.begins : Action A → Bool
  | .bind _ _ _ | .rebind _ _ _ => true
  | .limit _ | .state _ | .deactivate | .idle => false

/-- The action advances the revision it finds. -/
def Action.advances : Action A → Bool
  | .limit _ | .state _ | .deactivate => true
  | .bind _ _ _ | .rebind _ _ _ | .idle => false

/-- What an action does to a binding, as far as its revision goes. -/
inductive RevisionStep (nextRevision : NextRevision A) :
    Option (WalletBinding A) → Action A → Option (WalletBinding A) → Prop
  | idle (b : Option (WalletBinding A)) : RevisionStep nextRevision b .idle b
  | bind {wallet : A} {asset : Symbol} {limit : I128} :
      RevisionStep nextRevision none (.bind wallet asset limit)
        (some ⟨wallet, asset, limit, true, 0⟩)
  | rebind {b : WalletBinding A} {wallet : A} {asset : Symbol} {limit : I128} {revision : UInt64}
      (next : nextRevision (some b) = .ok revision) :
      RevisionStep nextRevision (some b) (.rebind wallet asset limit)
        (some ⟨wallet, asset, limit, true, revision⟩)
  | advance {b b' : WalletBinding A} {act : Action A} (counts : act.advances = true)
      (inc : b'.revision.toNat = b.revision.toNat + 1) :
      RevisionStep nextRevision (some b) act (some b')

section Reading

variable [DecidableEq A]

/-- The step begins an epoch of `agent`'s binding: a successful `bind_wallet` or
`rebind_wallet` for `agent`. -/
def begins (agent : A) (st : Step A) : Bool :=
  (action agent st).begins

/-- The step advances the revision of `agent`'s binding: a successful
`update_spend_limit`, `set_enabled` or `admin_deactivate` for `agent`. -/
def advances (agent : A) (st : Step A) : Bool :=
  (action agent st).advances

/-- How often a history advances the revision of `agent`'s binding. -/
def advanceCount (agent : A) (steps : List (Step A)) : Nat :=
  steps.countP (advances agent)

/-! ## The step law -/

section Steps

variable {M : Missing} {nextRevision : NextRevision A} {s : Store A} {agent : A}

/-- **One step**, seen from one agent's binding. -/
theorem revisionStep_after (hM : M.ChecksInc) (nextRevision : NextRevision A) (s : Store A)
    (agent : A) (tx : Tx A) :
    RevisionStep nextRevision (s.binding agent)
      (action agent (stepOf (dispatch M nextRevision) s tx))
      ((after (dispatch M nextRevision) s tx).binding agent) := by
  rcases after_cases M nextRevision s tx with ⟨hfail, heq⟩ | ⟨r, evs, hr, heff⟩
  · rw [heq, action, if_neg hfail]
    exact .idle _
  · rw [action, if_pos ⟨r, hr⟩, stepOf_tx]
    generalize tx.call = c at heff
    generalize after (dispatch M nextRevision) s tx = s' at heff ⊢
    cases heff with
    | initializeContract => exact .idle _
    | @bindWallet a wallet asset limit live hpos hagent hwallet unbound =>
      refine put_slot (R := fun _ => RevisionStep nextRevision) (fun _ => .idle) ?_
      rw [unbound]
      exact .bind
    | @rebindWallet a wallet asset limit revision live hpos hagent hwallet bound next =>
      obtain ⟨b, hb⟩ := Option.isSome_iff_exists.mp bound
      refine put_slot (R := fun _ => RevisionStep nextRevision) (fun _ => .idle) ?_
      rw [hb] at next ⊢
      exact .rebind next
    | @updateSpendLimit a limit b revision live hpos signed stored enabled inc =>
      refine put_slot (R := fun _ => RevisionStep nextRevision) (fun _ => .idle) ?_
      rw [stored]
      exact .advance rfl (hM.toNat_eq inc)
    | @setEnabled a enabled b revision live signed stored inc =>
      refine put_slot (R := fun _ => RevisionStep nextRevision) (fun _ => .idle) ?_
      rw [stored]
      exact .advance rfl (hM.toNat_eq inc)
    | @adminDeactivate admin a b live isAdmin signed stored inc =>
      -- `+= 1`, which the release profile checks like `checked_inc`
      refine put_slot (R := fun _ => RevisionStep nextRevision) (fun _ => .idle) ?_
      rw [stored]
      exact .advance rfl (toNat_add_one inc)
    | view reads =>
      rw [action_of_view reads]
      exact .idle _

/-- Between two steps that begin an epoch, the revision is a stamp. -/
theorem stamped (hM : M.ChecksInc) (nextRevision : NextRevision A) (agent : A) :
    StampedBetween (dispatch M nextRevision) (fun s => s.binding agent)
      (fun b => b.revision.toNat) (begins agent) (advances agent) := by
  intro s b hb tx hstill
  have hstep := revisionStep_after hM nextRevision s agent tx
  replace hb : s.binding agent = some b := hb
  rw [hb] at hstep
  unfold begins at hstill
  unfold advances
  dsimp only
  generalize (after (dispatch M nextRevision) s tx).binding agent = b₁ at hstep ⊢
  generalize action agent (stepOf (dispatch M nextRevision) s tx) = act at hstep hstill ⊢
  cases hstep with
  | idle => exact .inl ⟨rfl, rfl⟩
  | rebind => cases hstill
  | advance counts inc => exact .inr ⟨counts, _, rfl, inc⟩

/-- A binding appears only in a step that begins an epoch. -/
theorem begins_of_appears (hM : M.ChecksInc) {tx : Tx A} {b : WalletBinding A}
    (hnone : s.binding agent = none)
    (hsome : (after (dispatch M nextRevision) s tx).binding agent = some b) :
    begins agent (stepOf (dispatch M nextRevision) s tx) = true := by
  have hstep := revisionStep_after hM nextRevision s agent tx
  rw [hnone, hsome] at hstep
  unfold begins
  generalize action agent (stepOf (dispatch M nextRevision) s tx) = act at hstep ⊢
  cases hstep with
  | bind => rfl

/-- At `u64::MAX` a call that would advance the revision fails. -/
theorem advance_fails (hM : M.ChecksInc) (nextRevision : NextRevision A) {b : WalletBinding A}
    (hb : s.binding agent = some b) (hmax : b.revision.toNat + 1 = 2 ^ 64) {tx : Tx A}
    (hcall : (tx.call.action agent).advances = true) :
    ¬ (stepOf (dispatch M nextRevision) s tx).Succeeded := by
  intro hok
  have hstep := revisionStep_after hM nextRevision s agent tx
  rw [hb, action, if_pos hok, stepOf_tx] at hstep
  generalize (after (dispatch M nextRevision) s tx).binding agent = b₁ at hstep
  generalize tx.call.action agent = act at hstep hcall
  cases hstep with
  | idle => cases hcall
  | rebind => cases hcall
  | @advance _ b' _ _ inc =>
    -- the revision it would have written does not fit
    have hlt := b'.revision.toNat_lt
    omega

end Steps

/-! ## Epochs -/

/-- A stretch of a run inside one epoch of `agent`'s binding: `tx`, met in state
`s`, begins the epoch, and no call of `later` begins another. -/
structure Epoch (M : Missing) (nextRevision : NextRevision A) (agent : A) (s : Store A)
    (tx : Tx A) (later : List (Tx A)) : Prop where
  begun : begins agent (stepOf (dispatch M nextRevision) s tx) = true
  unbroken : ∀ st ∈ trace (dispatch M nextRevision) (after (dispatch M nextRevision) s tx) later,
    begins agent st = false

/-- What the revision of `agent`'s binding tells along an epoch. A moment of the
epoch is a prefix of `later`. -/
structure EpochStamp (M : Missing) (nextRevision : NextRevision A) (agent : A) (s : Store A)
    (tx : Tx A) (later : List (Tx A)) : Prop where
  /-- The call that began the epoch stored its base: `bind_wallet` 0, `rebind_wallet` the next
  revision of the binding it replaced. -/
  base : ∃ b₀, (after (dispatch M nextRevision) s tx).binding agent = some b₀ ∧
    ((∃ wallet asset limit,
      action agent (stepOf (dispatch M nextRevision) s tx) = .bind wallet asset limit ∧
        b₀.revision = 0) ∨
    (∃ wallet asset limit,
      action agent (stepOf (dispatch M nextRevision) s tx) = .rebind wallet asset limit ∧
        nextRevision (s.binding agent) = .ok b₀.revision))
  /-- At every moment the revision is the base and the number of advances since. -/
  counts : ∀ b₀, (after (dispatch M nextRevision) s tx).binding agent = some b₀ →
    ∀ l, l <+: later →
      ∃ b, (run (dispatch M nextRevision) (after (dispatch M nextRevision) s tx) l).binding agent =
          some b ∧
        b.revision.toNat = b₀.revision.toNat + advanceCount agent
          (trace (dispatch M nextRevision) (after (dispatch M nextRevision) s tx) l)
  /-- It never wraps: a call that would advance it past `u64::MAX` fails. -/
  stops : ∀ l, l <+: later → ∀ b,
    (run (dispatch M nextRevision) (after (dispatch M nextRevision) s tx) l).binding agent =
      some b → b.revision.toNat + 1 = 2 ^ 64 →
    ∀ t, (t.call.action agent).advances = true →
      ¬ (stepOf (dispatch M nextRevision)
        (run (dispatch M nextRevision) (after (dispatch M nextRevision) s tx) l) t).Succeeded ∧
      (after (dispatch M nextRevision)
        (run (dispatch M nextRevision) (after (dispatch M nextRevision) s tx) l) t).binding agent =
          some b
  /-- Equal revisions at two moments mean equal bindings. -/
  faithful : ∀ l₁ l₂, l₁ <+: later → l₂ <+: later → ∀ b b',
    (run (dispatch M nextRevision) (after (dispatch M nextRevision) s tx) l₁).binding agent =
      some b →
    (run (dispatch M nextRevision) (after (dispatch M nextRevision) s tx) l₂).binding agent =
      some b' →
    b.revision = b'.revision → b = b'

section Epochs

variable {M : Missing} {nextRevision : NextRevision A} {agent : A} {s : Store A} {tx : Tx A}
  {later : List (Tx A)}

/-- No step between two moments of an epoch begins another. -/
theorem Epoch.between (h : Epoch M nextRevision agent s tx later) (l₁ l₂ : List (Tx A))
    (hle : l₁ ++ l₂ <+: later) :
    ∀ st ∈ trace (dispatch M nextRevision)
        (run (dispatch M nextRevision) (after (dispatch M nextRevision) s tx) l₁) l₂,
      begins agent st = false := by
  obtain ⟨rest, rfl⟩ := hle
  intro st hst
  apply h.unbroken
  rw [trace_append, trace_append]
  exact List.mem_append_left _ (List.mem_append_right _ hst)

/-- An epoch goes on through a step that does not begin another. -/
theorem Epoch.concat (h : Epoch M nextRevision agent s tx later) {t : Tx A}
    (ht : begins agent (stepOf (dispatch M nextRevision)
      (run (dispatch M nextRevision) (after (dispatch M nextRevision) s tx) later) t) = false) :
    Epoch M nextRevision agent s tx (later ++ [t]) := by
  refine ⟨h.begun, ?_⟩
  intro st hst
  rw [trace_concat] at hst
  rcases List.mem_append.mp hst with hst | hst
  · exact h.unbroken st hst
  · obtain rfl := List.mem_singleton.mp hst
    exact ht

/-- What a step that begins an epoch stores. -/
theorem base_of_begins (hM : M.ChecksInc)
    (h : begins agent (stepOf (dispatch M nextRevision) s tx) = true) :
    ∃ b₀, (after (dispatch M nextRevision) s tx).binding agent = some b₀ ∧
      ((∃ wallet asset limit,
        action agent (stepOf (dispatch M nextRevision) s tx) = .bind wallet asset limit ∧
          b₀.revision = 0) ∨
      (∃ wallet asset limit,
        action agent (stepOf (dispatch M nextRevision) s tx) = .rebind wallet asset limit ∧
          nextRevision (s.binding agent) = .ok b₀.revision)) := by
  have hstep := revisionStep_after hM nextRevision s agent tx
  unfold begins at h
  generalize s.binding agent = b at hstep ⊢
  generalize (after (dispatch M nextRevision) s tx).binding agent = b₁ at hstep ⊢
  generalize action agent (stepOf (dispatch M nextRevision) s tx) = act at hstep h ⊢
  cases hstep with
  | idle => cases h
  | bind => exact ⟨_, rfl, .inl ⟨_, _, _, rfl, rfl⟩⟩
  | rebind next => exact ⟨_, rfl, .inr ⟨_, _, _, rfl, next⟩⟩
  | advance counts inc =>
    -- no action both advances and begins
    cases act with
    | limit => cases h
    | state => cases h
    | deactivate => cases h
    | _ => cases counts

/-- Every stored binding lies in an epoch: some call of the run began it, and
none has begun another since. -/
theorem epoch_of_stored (hM : M.ChecksInc) (nextRevision : NextRevision A) (pin agent : A)
    (txs : List (Tx A)) :
    ∀ {b : WalletBinding A},
      (run (dispatch M nextRevision) (deployed pin) txs).binding agent = some b →
      ∃ before tx later, txs = before ++ tx :: later ∧
        Epoch M nextRevision agent (run (dispatch M nextRevision) (deployed pin) before)
          tx later := by
  induction txs using List.reverseRecOn with
  | nil =>
    intro b hb
    cases hb
  | append_singleton txs t ih =>
    intro b hb
    rw [run_concat] at hb
    cases hbegins : begins agent (stepOf (dispatch M nextRevision)
        (run (dispatch M nextRevision) (deployed pin) txs) t) with
    | true =>
      refine ⟨txs, t, [], rfl, hbegins, ?_⟩
      intro st hst
      cases hst
    | false =>
      -- the binding was there before, and its epoch goes on
      cases hb₀ : (run (dispatch M nextRevision) (deployed pin) txs).binding agent with
      | none =>
        rw [begins_of_appears hM hb₀ hb] at hbegins
        cases hbegins
      | some b₀ =>
        obtain ⟨before, tx, later, rfl, hepoch⟩ := ih hb₀
        refine ⟨before, tx, later ++ [t], ?_, hepoch.concat ?_⟩
        · rw [List.append_assoc, List.cons_append]
        · rw [run_append, run_cons] at hbegins
          exact hbegins

/-- Two moments of an epoch of which the first is the earlier one. -/
private theorem epoch_faithful_between (hM : M.ChecksInc)
    (h : Epoch M nextRevision agent s tx later) {l₁ l₂ : List (Tx A)} (hle : l₁ <+: l₂)
    (h₂ : l₂ <+: later) {b b' : WalletBinding A}
    (hb : (run (dispatch M nextRevision) (after (dispatch M nextRevision) s tx) l₁).binding agent =
      some b)
    (hb' : (run (dispatch M nextRevision) (after (dispatch M nextRevision) s tx) l₂).binding agent =
      some b')
    (hrev : b.revision = b'.revision) : b = b' := by
  obtain ⟨l, rfl⟩ := hle
  rw [run_append] at hb'
  exact (epoch_faithful (stamped hM nextRevision agent) (h.between l₁ l h₂) hb hb'
    (congrArg UInt64.toNat hrev.symm)).symm

/-- **The revision counts the changes of an epoch.** Along every run of the
deployed contract every stored binding of every agent lies in an epoch, and in
every epoch the revision is its base and the number of advances since. -/
theorem revision_counts (hM : M.ChecksInc) (nextRevision : NextRevision A) (pin agent : A) :
    (∀ txs b, (run (dispatch M nextRevision) (deployed pin) txs).binding agent = some b →
      ∃ before tx later, txs = before ++ tx :: later ∧
        Epoch M nextRevision agent (run (dispatch M nextRevision) (deployed pin) before)
          tx later) ∧
    ∀ before tx later,
      Epoch M nextRevision agent (run (dispatch M nextRevision) (deployed pin) before) tx later →
      EpochStamp M nextRevision agent (run (dispatch M nextRevision) (deployed pin) before)
        tx later := by
  refine ⟨fun txs b hb => epoch_of_stored hM nextRevision pin agent txs hb, ?_⟩
  intro before tx later hepoch
  refine ⟨base_of_begins hM hepoch.begun, ?_, ?_, ?_⟩
  · intro b₀ hb₀ l hl
    obtain ⟨b, hb, hcount, _⟩ := epoch_run (stamped hM nextRevision agent) l hb₀
      (hepoch.between [] l hl)
    exact ⟨b, hb, hcount⟩
  · intro l _ b hb hmax t hcall
    have hfail := advance_fails hM nextRevision hb hmax hcall
    refine ⟨hfail, ?_⟩
    rw [after_of_not_succeeded hfail]
    exact hb
  · intro l₁ l₂ h₁ h₂ b b' hb hb' hrev
    -- of two moments of one epoch, one is the earlier
    rcases List.prefix_or_prefix_of_prefix h₁ h₂ with hle | hle
    · exact epoch_faithful_between hM hepoch hle h₂ hb hb' hrev
    · exact (epoch_faithful_between hM hepoch hle h₁ hb' hb hrev.symm).symm

end Epochs

end Reading

/-- After a rebinding, the admin's deactivation is the one advance of the epoch. -/
theorem revision_counts_sample :
    ∃ b₀ b, (run (dispatch .documented Sample.nextRevision) (deployed 0)
        [Sample.initializeTx, Sample.bindTx, Sample.rebindTx]).binding 1 = some b₀ ∧
      (run (dispatch .documented Sample.nextRevision) (deployed 0)
        [Sample.initializeTx, Sample.bindTx, Sample.rebindTx, Sample.deactivateTx]).binding 1 =
          some b ∧
      b.revision.toNat = b₀.revision.toNat + 1 := by
  have h := (revision_counts Missing.documented_checksInc Sample.nextRevision 0 1).2
    [Sample.initializeTx, Sample.bindTx] Sample.rebindTx [Sample.deactivateTx]
    ⟨by decide +kernel, by decide +kernel⟩
  obtain ⟨b₀, hb₀, _⟩ := h.base
  obtain ⟨b, hb, hcount⟩ := h.counts b₀ hb₀ _ (List.prefix_refl _)
  exact ⟨b₀, b, hb₀, hb, hcount⟩

end LilyContracts.Wallet
