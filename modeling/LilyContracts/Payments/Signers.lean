import LilyContracts.Payments.Effects

/-!
# Who has to sign what

Signer soundness is a frame condition per principal: what a run cannot have
changed when that principal signed none of its calls. For the stored admin it
is the configuration and every settlement (`AdminFrame`), for an agent it is
its own intents, its index and its cancellations (`PayerFrame`). Nothing is
assumed about who did sign, nor about the arguments of the calls; in
particular `settle_intent` may be passed any `caller`.

Each frame is proved for one call from its effect: the effect of a call that
breaks it carries the principal's signature as a guard. Runs follow by
induction, the admin's because the frame itself keeps the stored admin where it
is (`admin_run`), so that a former admin keeps no power once it has transferred
its role away.
-/

namespace LilyContracts.Payments

open Host

variable {A : Type}

/-! ## The two frames -/

/-- What calls without the admin's signature leave alone: the configuration,
and the set of settled intents. -/
structure AdminFrame (s s' : Store A) : Prop where
  admin : s'.admin = s.admin
  treasury : s'.treasury = s.treasury
  feeBps : s'.feeBps = s.feeBps
  wallet : s'.wallet = s.wallet
  settled : ∀ k i, s'.intents k = some i → i.status = .settled → s.intents k = some i

/-- What calls without `p`'s signature leave alone: `p`'s index, which intents
`p` pays, and which of them are cancelled. -/
structure PayerFrame (p : A) (s s' : Store A) : Prop where
  index : s'.payerIntents p = s.payerIntents p
  intents : ∀ k i', s'.intents k = some i' → i'.payerAgent = p →
    ∃ i, s.intents k = some i ∧ i.payerAgent = p ∧
      (i'.status = .cancelled → i.status = .cancelled)

theorem AdminFrame.refl (s : Store A) : AdminFrame s s :=
  ⟨rfl, rfl, rfl, rfl, fun _ _ hi _ => hi⟩

theorem AdminFrame.trans {s₁ s₂ s₃ : Store A} (h : AdminFrame s₁ s₂) (h' : AdminFrame s₂ s₃) :
    AdminFrame s₁ s₃ where
  admin := h'.admin.trans h.admin
  treasury := h'.treasury.trans h.treasury
  feeBps := h'.feeBps.trans h.feeBps
  wallet := h'.wallet.trans h.wallet
  settled k i hi hs := h.settled k i (h'.settled k i hi hs) hs

theorem PayerFrame.refl (p : A) (s : Store A) : PayerFrame p s s :=
  ⟨rfl, fun _ i hi hp => ⟨i, hi, hp, id⟩⟩

theorem PayerFrame.trans {p : A} {s₁ s₂ s₃ : Store A} (h : PayerFrame p s₁ s₂)
    (h' : PayerFrame p s₂ s₃) : PayerFrame p s₁ s₃ where
  index := h'.index.trans h.index
  intents := by
    intro k i hi hp
    obtain ⟨i₂, hi₂, hp₂, hc₂⟩ := h'.intents k i hi hp
    obtain ⟨i₁, hi₁, hp₁, hc₁⟩ := h.intents k i₂ hi₂ hp₂
    exact ⟨i₁, hi₁, hp₁, fun hc => hc₁ (hc₂ hc)⟩

/-! ## One call -/

section Calls

variable [DecidableEq A] {M : Missing} {s : Store A} {tx : Tx A}

theorem adminFrame_after (hM : M.ReadsInstance) (hinit : s.initialized.isSome = true) {a : A}
    (ha : s.admin = some a) (hout : tx.env.signs a = false) :
    AdminFrame s (after (dispatch M) s tx) := by
  rcases after_cases M s tx with ⟨_, heq⟩ | ⟨r, evs, _, heff⟩
  · rw [heq]
    exact .refl s
  · generalize tx.call = c at heff
    generalize after (dispatch M) s tx = s' at heff ⊢
    cases heff with
    | initializeContract signed fresh =>
      rw [fresh] at hinit
      cases hinit
    | createIntent =>
      refine ⟨rfl, rfl, rfl, rfl, ?_⟩
      intro k i hi hs
      rcases Store.addIntent_cases hi with ⟨_, rfl⟩ | ⟨_, hold⟩
      · cases hs
      · exact hold
    | cancelIntent =>
      refine ⟨rfl, rfl, rfl, rfl, ?_⟩
      intro k i hi hs
      rcases Store.putIntent_cases hi with ⟨_, rfl⟩ | ⟨_, hold⟩
      · cases hs
      · exact hold
    | settleIntent live isAdmin signed => cases (hM.signed ha isAdmin signed).symm.trans hout
    | setFeeBps live bps isAdmin signed => cases (hM.signed ha isAdmin signed).symm.trans hout
    | setTreasury live isAdmin signed => cases (hM.signed ha isAdmin signed).symm.trans hout
    | transferAdmin live isAdmin signed => cases (hM.signed ha isAdmin signed).symm.trans hout
    | view => exact .refl s

theorem payerFrame_after (M : Missing) {p : A} (hout : tx.env.signs p = false) :
    PayerFrame p s (after (dispatch M) s tx) := by
  rcases after_cases M s tx with ⟨_, heq⟩ | ⟨r, evs, _, heff⟩
  · rw [heq]
    exact .refl p s
  · generalize tx.call = c at heff
    generalize after (dispatch M) s tx = s' at heff ⊢
    cases heff with
    | @createIntent payer payee wallet amount memo id next _ _ _ _ signed =>
      have hne : p ≠ payer := by
        intro he
        rw [← he, hout] at signed
        cases signed
      refine ⟨Function.update_of_ne hne _ _, ?_⟩
      intro k i hi hp
      rcases Store.addIntent_cases hi with ⟨_, rfl⟩ | ⟨_, hold⟩
      · exact absurd hp.symm hne
      · exact ⟨i, hold, hp, fun hc => hc⟩
    | @settleIntent caller id ref i₀ _ _ _ _ stored =>
      refine ⟨rfl, ?_⟩
      intro k i hi hp
      rcases Store.putIntent_cases hi with ⟨rfl, rfl⟩ | ⟨_, hold⟩
      · exact ⟨i₀, stored, hp, nofun⟩
      · exact ⟨i, hold, hp, fun hc => hc⟩
    | @cancelIntent id i₀ _ stored signed =>
      refine ⟨rfl, ?_⟩
      intro k i hi hp
      rcases Store.putIntent_cases hi with ⟨_, rfl⟩ | ⟨_, hold⟩
      · -- the payer recorded in the intent is the one who signed
        have hpayer : i₀.payerAgent = p := hp
        rw [hpayer, hout] at signed
        cases signed
      · exact ⟨i, hold, hp, fun hc => hc⟩
    | _ => exact ⟨rfl, fun _ i hi hp => ⟨i, hi, hp, fun hc => hc⟩⟩

/-! ## Runs -/

theorem admin_run (hM : M.ReadsInstance) (hinit : s.initialized.isSome = true) {a : A}
    (ha : s.admin = some a) {txs : List (Tx A)} (hout : Unsigned a txs) :
    AdminFrame s (run (dispatch M) s txs) := by
  have hrun : (run (dispatch M) s txs).initialized.isSome = true ∧
      AdminFrame s (run (dispatch M) s txs) := by
    refine along_invariant (I := fun s' => s'.initialized.isSome = true ∧ AdminFrame s s')
      (P := fun _ tx => tx.env.signs a = false) ?_ ⟨hinit, .refl s⟩
      (along_of_forall fun tx htx _ => hout tx htx)
    intro s' tx h hsign
    have ha' : s'.admin = some a := h.2.admin.trans ha
    exact ⟨(gate M).kept h.1 tx, h.2.trans (adminFrame_after hM h.1 ha' hsign)⟩
  exact hrun.2

theorem payer_run (M : Missing) {p : A} {txs : List (Tx A)} (hout : Unsigned p txs) :
    PayerFrame p s (run (dispatch M) s txs) :=
  along_invariant (P := fun _ tx => tx.env.signs p = false)
    (fun _ _ h hsign => h.trans (payerFrame_after M hsign)) (.refl p s)
    (along_of_forall fun tx htx _ => hout tx htx)

/-- A transfer that succeeded stored the new admin. -/
theorem transferAdmin_stores {b : A} (hcall : tx.call = .transferAdmin b)
    (hok : (stepOf (dispatch M) s tx).Succeeded) :
    s.initialized.isSome = true ∧ (after (dispatch M) s tx).admin = some b := by
  rcases after_cases M s tx with ⟨hfail, _⟩ | ⟨r, evs, _, heff⟩
  · exact absurd hok hfail
  · rw [hcall] at heff
    generalize after (dispatch M) s tx = s' at heff ⊢
    cases heff with
    | transferAdmin live => exact ⟨live, rfl⟩
    | view reads => exact absurd reads id

/-- **Signer soundness**: from any initialized reachable state with admin `a`, a
run without `a`'s signature leaves the configuration and the settlements alone,
a run without `p`'s signature leaves `p`'s intents, index and cancellations
alone, and once `a` has transferred its role to `b` it is `b`'s signature that
counts. -/
theorem signer_soundness (hM : M.ReadsInstance) (pin : A) (before : List (Tx A))
    (hinit : (run (dispatch M) (deployed pin) before).initialized.isSome = true) {a : A}
    (ha : (run (dispatch M) (deployed pin) before).admin = some a) :
    let s := run (dispatch M) (deployed pin) before
    (∀ txs, Unsigned a txs → AdminFrame s (run (dispatch M) s txs)) ∧
    (∀ p txs, Unsigned p txs → PayerFrame p s (run (dispatch M) s txs)) ∧
    (∀ (tx : Tx A) b, tx.call = .transferAdmin b → (stepOf (dispatch M) s tx).Succeeded →
      ∀ txs, Unsigned b txs →
        AdminFrame (after (dispatch M) s tx) (run (dispatch M) (after (dispatch M) s tx) txs)) := by
  intro s
  refine ⟨fun txs hout => admin_run hM hinit ha hout, fun p txs hout => payer_run M hout, ?_⟩
  intro tx b hcall hok txs hout
  obtain ⟨live, hb⟩ := transferAdmin_stores hcall hok
  exact admin_run hM ((gate M).kept live tx) hb hout

end Calls

namespace Sample

/-- The settlement of intent 1 in the admin's name, signed by the two parties
instead. -/
def forgedTx : Tx Nat := tx [1, 2] 12 (.settleIntent 0 1 memo)

/-- A cancellation of intent 1 that its payer has not signed. -/
def unsignedCancelTx : Tx Nat := tx [0, 2] 13 (.cancelIntent 1)

def transferTx : Tx Nat := tx [0] 12 (.transferAdmin 7)

end Sample

/-- Without the admin's signature nothing of the admin's changes, without the payer's
nothing of the payer's, and the former admin settles nothing after the transfer. -/
theorem signer_soundness_sample :
    let s := run (dispatch .documented) (deployed 0) [Sample.initializeTx, Sample.createTx]
    AdminFrame s (run (dispatch .documented) s [Sample.forgedTx]) ∧
      PayerFrame 1 s (run (dispatch .documented) s [Sample.settleTx, Sample.unsignedCancelTx]) ∧
      AdminFrame (after (dispatch .documented) s Sample.transferTx)
        (run (dispatch .documented) (after (dispatch .documented) s Sample.transferTx)
          [Sample.settleTx]) := by
  intro s
  obtain ⟨hadmin, hpayer, htransfer⟩ := signer_soundness (a := 0)
    Missing.documented_readsInstance 0 [Sample.initializeTx, Sample.createTx] (by decide +kernel)
    (by decide +kernel)
  refine ⟨hadmin _ ?_, hpayer 1 _ ?_, htransfer Sample.transferTx 7 rfl (by decide +kernel) _ ?_⟩
  · exact List.forall_mem_singleton.mpr rfl
  · exact List.forall_mem_cons.mpr ⟨rfl, List.forall_mem_singleton.mpr rfl⟩
  · exact List.forall_mem_singleton.mpr rfl

end LilyContracts.Payments
