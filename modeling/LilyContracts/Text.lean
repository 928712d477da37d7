import LilyContracts.Identity.Effects
import LilyContracts.Payments.Effects

/-!
# Stored text

Two helpers of `lily-common` check text on its way to storage. `require_non_empty`
asks for a byte; `require_non_whitespace`, "for storage-bound metadata and
reference fields", asks for one that is not whitespace. They differ on the strings
that are all whitespace and not empty (`blank_iff`). The four entry points that
store text (`register`, `update_profile`, `create_intent`, `settle_intent`) call the
first helper, and nothing calls the second, so that blank text gets stored
(`blank_text_stored`).

Every stored text has content, through every rewrite of its record, in exactly the
runs in which no call that meets all its other checks (`Call.Admitted`) passes blank
text (`stored_text_has_content`). For such a call goes through with any blank text, and
leaves it in storage (`Identity.blank_goes_through`, `Payments.blank_goes_through`).
-/

namespace LilyContracts

open Host

/-! ## Blank strings -/

/-- The string has bytes, and all of them are whitespace. -/
def Blank (t : HostString) : Prop := t ≠ HostString.empty ∧ hasNonWhitespace t = false

instance (t : HostString) : Decidable (Blank t) := inferInstanceAs (Decidable (_ ∧ _))

theorem hasNonWhitespace_of_not_blank {t : HostString} (hne : t ≠ HostString.empty)
    (hblank : ¬ Blank t) : hasNonWhitespace t = true := by
  cases h : hasNonWhitespace t with
  | true => rfl
  | false => exact absurd ⟨hne, h⟩ hblank

section Helpers

variable {σ A X Ev : Type} {env : Env A X ProtocolError} {fr : Frame σ Ev}

/-- **Where the two helpers differ**: of the strings short enough for both,
`require_non_empty` lets exactly the blank ones through that
`require_non_whitespace` rejects. -/
theorem blank_iff {t : HostString} {maxStringLen : UInt32} (hlen : t.len ≤ maxStringLen) :
    Blank t ↔
      exec env (requireNonEmpty t.len) fr = .ok ((), fr) ∧
      exec env (requireNonWhitespace maxStringLen t) fr = .error (.contract .invalidInput) := by
  unfold Blank requireNonEmpty requireNonWhitespace
  rw [exec_require, exec_require_bind, exec_require, ← HostString.len_pos_iff]
  by_cases hpos : 0 < t.len
  · rw [if_pos hpos, if_pos ⟨hpos, hlen⟩]
    cases hasNonWhitespace t with
    | true => simp
    | false => simp [hpos]
  · rw [if_neg hpos]
    simp [hpos]

end Helpers

section Runs

variable {σ A X Ev E C R : Type} {prog : C → Prog σ A X Ev E R} {text : C → Option HostString}
  {admitted : σ → Env A X E → C → Prop} {Content : σ → Prop} {s : σ} {txs : List (Tx A X E C)}

/-- The call, if it met everything else it checks, passed no blank text. -/
def PassesContent (admitted : σ → Env A X E → C → Prop) (text : C → Option HostString)
    (st : Step σ A X Ev E C R) : Prop :=
  admitted st.pre st.tx.env st.tx.call → ∀ t ∈ text st.tx.call, ¬ Blank t

/-- Where a step keeps content unless blank text goes through in it, and loses it
otherwise, a run has content throughout exactly if no blank text goes through. -/
theorem content_along_iff (hs : Content s)
    (hkeep : ∀ s tx, Content s → PassesContent admitted text (stepOf prog s tx) →
      Content (after prog s tx))
    (hblank : ∀ s (tx : Tx A X E C) t, text tx.call = some t → admitted s tx.env tx.call →
      Blank t → ¬ Content (after prog s tx)) :
    (∀ l, l <+: txs → Content (run prog s l)) ↔
      ∀ st ∈ trace prog s txs, PassesContent admitted text st := by
  constructor
  · intro hall st hst hadm t ht hbad
    obtain ⟨l₁, tx, l₂, rfl, rfl⟩ := mem_trace.mp hst
    have hafter := hall (l₁ ++ [tx]) ⟨l₂, by rw [List.append_assoc]; rfl⟩
    rw [run_concat] at hafter
    exact hblank _ tx t ht hadm hbad hafter
  · rintro hall l ⟨l', rfl⟩
    have hrun : (∀ st ∈ trace prog s l, PassesContent admitted text st) →
        Content (run prog s l) := by
      refine trace_invariant
        (I := fun steps s => (∀ st ∈ steps, PassesContent admitted text st) → Content s)
        ?_ fun _ => hs
      intro steps s tx ih hsteps
      exact hkeep s tx (ih fun st hst => hsteps st (List.mem_append_left _ hst))
        (hsteps _ (List.mem_append_right steps (List.mem_singleton_self _)))
    refine hrun fun st hst => hall st ?_
    rw [trace_append]
    exact List.mem_append_left _ hst

end Runs

/-! ## Identity -/

namespace Identity

variable {A : Type}

/-- The text a call would store. -/
def Call.text : Call A → Option HostString
  | .register _ _ metadataUri => some metadataUri
  | .updateProfile _ metadataUri _ => some metadataUri
  | _ => none

/-- What a call that stores text checks besides the text: the caller's signature and
the state it meets. -/
def Call.Admitted (M : Missing) (s : Store A) (env : Env A Empty ProtocolError) : Call A → Prop
  | .register agent _ _ =>
    s.initialized.isSome = true ∧ s.profile agent = none ∧ env.signs agent = true
  | .updateProfile agent _ _ =>
    s.initialized.isSome = true ∧ ∃ p, s.profile agent = some p ∧ p.active = true ∧
      env.signs p.controller = true ∧ ∃ revision, M.checkedInc p.revision = .ok revision
  | _ => False

/-- Every stored metadata URI has a byte that is not whitespace. -/
def TextHasContent (s : Store A) : Prop :=
  ∀ agent p, s.profile agent = some p → hasNonWhitespace p.metadataUri = true

section Steps

variable [DecidableEq A] {M : Missing} {s : Store A} {agent : A} {p : AgentProfile A}

theorem TextHasContent.put (h : TextHasContent s) (hp : hasNonWhitespace p.metadataUri = true) :
    TextHasContent (s.put agent p) := by
  intro a q hq
  by_cases ha : a = agent
  · subst ha
    rw [put_profile_self] at hq
    rw [← Option.some.inj hq]
    exact hp
  · rw [put_profile_of_ne ha] at hq
    exact h a q hq

/-- Of the text itself such a call asks no more than a byte. -/
theorem succeeded_iff_admitted (s : Store A) (tx : Tx A) (t : HostString)
    (htext : tx.call.text = some t) :
    (stepOf (dispatch M) s tx).Succeeded ↔
      tx.call.Admitted M s tx.env ∧ t ≠ HostString.empty := by
  rw [succeeded_iff]
  obtain ⟨env, c⟩ := tx
  cases c with
  | register agent controller uri =>
    cases htext
    constructor
    · intro h
      obtain ⟨r, fr, hex⟩ := h
      obtain ⟨u, hu, _⟩ := exec_map_ok.mp hex
      obtain ⟨hi, hne, hp, hs, _⟩ := exec_register_ok.mp hu
      exact ⟨⟨hi, hp, hs⟩, hne⟩
    · intro h
      obtain ⟨⟨hi, hp, hs⟩, hne⟩ := h
      exact ⟨_, _, exec_map_ok.mpr ⟨(), exec_register_ok.mpr ⟨hi, hne, hp, hs, rfl⟩, rfl⟩⟩
  | updateProfile agent uri newController =>
    cases htext
    constructor
    · intro h
      obtain ⟨r, fr, hex⟩ := h
      obtain ⟨u, hu, _⟩ := exec_map_ok.mp hex
      obtain ⟨hi, hne, p, hp, ha, hs, revision, hr, _⟩ := exec_updateProfile_ok.mp hu
      exact ⟨⟨hi, p, hp, ha, hs, revision, hr⟩, hne⟩
    · intro h
      obtain ⟨⟨hi, p, hp, ha, hs, revision, hr⟩, hne⟩ := h
      exact ⟨_, _, exec_map_ok.mpr ⟨(), exec_updateProfile_ok.mpr
        ⟨hi, hne, p, hp, ha, hs, revision, hr, rfl⟩, rfl⟩⟩
  | _ => cases htext

/-- **One step**: a call in which no blank text goes through leaves none. -/
theorem TextHasContent.after (h : TextHasContent s) {tx : Tx A}
    (htx : PassesContent (Call.Admitted M) Call.text (stepOf (dispatch M) s tx)) :
    TextHasContent (after (dispatch M) s tx) := by
  rcases after_cases M s tx with ⟨_, heq⟩ | ⟨r, evs, hr, heff⟩
  · rw [heq]
    exact h
  · have hnot : ∀ t ∈ tx.call.text, ¬ Blank t := fun t ht =>
      htx ((succeeded_iff_admitted s tx t ht).mp ⟨r, hr⟩).1 t ht
    generalize tx.call = c at heff hnot
    generalize Host.after (dispatch M) s tx = s' at heff ⊢
    cases heff with
    | initializeContract => exact h
    | register live uri_ne unregistered signed =>
      exact h.put (hasNonWhitespace_of_not_blank uri_ne (hnot _ rfl))
    | updateProfile live uri_ne stored active signed inc =>
      exact h.put (hasNonWhitespace_of_not_blank uri_ne (hnot _ rfl))
    | @deactivate admin a q revision live isAdmin signed stored active inc =>
      have hq : hasNonWhitespace q.metadataUri = true := h a q stored
      exact h.put hq
    | deactivateInactive => exact h
    | @reactivate admin a q live isAdmin signed stored inc =>
      have hq : hasNonWhitespace q.metadataUri = true := h a q stored
      exact h.put hq
    | view => exact h

/-- What is passed is stored. -/
theorem text_stored {tx : Tx A} {t : HostString} (htext : tx.call.text = some t)
    (hok : (stepOf (dispatch M) s tx).Succeeded) :
    ∃ agent p, (Host.after (dispatch M) s tx).profile agent = some p ∧ p.metadataUri = t := by
  rcases after_cases M s tx with ⟨hfail, _⟩ | ⟨r, evs, _, heff⟩
  · exact absurd hok hfail
  · generalize tx.call = c at htext heff
    generalize Host.after (dispatch M) s tx = s' at heff ⊢
    cases heff with
    | register =>
      cases htext
      exact ⟨_, _, put_profile_self, rfl⟩
    | updateProfile =>
      cases htext
      exact ⟨_, _, put_profile_self, rfl⟩
    | @view c r reads =>
      cases c with
      | register => exact absurd reads id
      | updateProfile => exact absurd reads id
      | _ => cases htext
    | _ => cases htext

/-- **Nothing less will do**: a call that meets all its other checks goes through with
any blank text, and leaves that in storage. -/
theorem blank_goes_through (s : Store A) (tx : Tx A) (t : HostString)
    (htext : tx.call.text = some t) (hadm : tx.call.Admitted M s tx.env) (ht : Blank t) :
    (stepOf (dispatch M) s tx).Succeeded ∧
      ¬ TextHasContent (Host.after (dispatch M) s tx) := by
  have hok := (succeeded_iff_admitted s tx t htext).mpr ⟨hadm, ht.1⟩
  refine ⟨hok, fun hcontent => ?_⟩
  obtain ⟨agent, p, hp, rfl⟩ := text_stored htext hok
  cases ht.2.symm.trans (hcontent agent p hp)

end Steps

end Identity

/-! ## Payments -/

namespace Payments

variable {A : Type}

/-- The text a call would store. -/
def Call.text : Call A → Option HostString
  | .createIntent _ _ _ memo => some memo
  | .settleIntent _ _ settlementReference => some settlementReference
  | _ => none

/-- What a call that stores text checks besides the text: its other arguments, the
caller's signature and the state it meets. -/
def Call.Admitted (M : Missing) (s : Store A) (env : Env A (Query A) ProtocolError) :
    Call A → Prop
  | .createIntent payerAgent payeeAgent amount _ =>
    s.initialized.isSome = true ∧ (0 < amount.val ∧ amount.val ≤ maxPaymentAmount) ∧
      payerAgent ≠ payeeAgent ∧ env.signs payerAgent = true ∧
      (∃ wallet, s.wallet = some wallet ∧
        env.answer (.hasActiveBinding wallet payerAgent) = .ok true) ∧
      ∃ id next, s.nextIntentId = some id ∧ M.checkedInc id = .ok next
  | .settleIntent caller intentId _ =>
    s.initialized.isSome = true ∧ M.readInstance s.admin = .ok caller ∧
      env.signs caller = true ∧ s.symbols "settle" = none ∧
      ∃ i, s.intents intentId = some i ∧ i.status = .pending
  | _ => False

/-- The memo of an intent, and its settlement reference once it is settled, have a
byte that is not whitespace. -/
structure PaymentIntent.TextHasContent (i : PaymentIntent A) : Prop where
  memo : hasNonWhitespace i.memo = true
  reference : i.status = .settled → hasNonWhitespace i.settlementReference = true

/-- The text of every stored intent has content. -/
def TextHasContent (s : Store A) : Prop :=
  ∀ id i, s.intents id = some i → i.TextHasContent

section Steps

variable [DecidableEq A] {M : Missing} {s : Store A} {id next : UInt64} {i : PaymentIntent A}

omit [DecidableEq A] in
theorem TextHasContent.put (h : TextHasContent s) (hi : i.TextHasContent) :
    TextHasContent (s.putIntent id i) := by
  intro k j hj
  rcases Store.putIntent_cases hj with ⟨_, rfl⟩ | ⟨_, hk⟩
  · exact hi
  · exact h k j hk

theorem TextHasContent.add (h : TextHasContent s) (hi : i.TextHasContent) :
    TextHasContent (s.addIntent i next) := by
  intro k j hj
  rcases Store.addIntent_cases hj with ⟨_, rfl⟩ | ⟨_, hk⟩
  · exact hi
  · exact h k j hk

/-- Of the text itself such a call asks no more than a byte. -/
theorem succeeded_iff_admitted (s : Store A) (tx : Tx A) (t : HostString)
    (htext : tx.call.text = some t) :
    (stepOf (dispatch M) s tx).Succeeded ↔
      tx.call.Admitted M s tx.env ∧ t ≠ HostString.empty := by
  rw [succeeded_iff]
  obtain ⟨env, c⟩ := tx
  cases c with
  | createIntent payerAgent payeeAgent amount memo =>
    cases htext
    constructor
    · intro h
      obtain ⟨r, fr, hex⟩ := h
      obtain ⟨id, hid, _⟩ := exec_map_ok.mp hex
      obtain ⟨hi, ha, hne, hparties, hs, hw, hk, next, hn, _⟩ := exec_createIntent_ok.mp hid
      exact ⟨⟨hi, ha, hparties, hs, hw, id, next, hk, hn⟩, hne⟩
    · intro h
      obtain ⟨⟨hi, ha, hparties, hs, hw, id, next, hk, hn⟩, hne⟩ := h
      exact ⟨_, _, exec_map_ok.mpr ⟨id, exec_createIntent_ok.mpr
        ⟨hi, ha, hne, hparties, hs, hw, hk, next, hn, rfl⟩, rfl⟩⟩
  | settleIntent caller id ref =>
    cases htext
    constructor
    · intro h
      obtain ⟨r, fr, hex⟩ := h
      obtain ⟨u, hu, _⟩ := exec_map_ok.mp hex
      obtain ⟨hi, ha, hs, hg, hne, i, hk, hp, _⟩ := exec_settleIntent_ok.mp hu
      exact ⟨⟨hi, ha, hs, hg, i, hk, hp⟩, hne⟩
    · intro h
      obtain ⟨⟨hi, ha, hs, hg, i, hk, hp⟩, hne⟩ := h
      exact ⟨_, _, exec_map_ok.mpr ⟨(), exec_settleIntent_ok.mpr
        ⟨hi, ha, hs, hg, hne, i, hk, hp, rfl⟩, rfl⟩⟩
  | _ => cases htext

/-- **One step**: a call in which no blank text goes through leaves none. -/
theorem TextHasContent.after (h : TextHasContent s) {tx : Tx A}
    (htx : PassesContent (Call.Admitted M) Call.text (stepOf (dispatch M) s tx)) :
    TextHasContent (after (dispatch M) s tx) := by
  rcases after_cases M s tx with ⟨_, heq⟩ | ⟨r, evs, hr, heff⟩
  · rw [heq]
    exact h
  · have hnot : ∀ t ∈ tx.call.text, ¬ Blank t := fun t ht =>
      htx ((succeeded_iff_admitted s tx t ht).mp ⟨r, hr⟩).1 t ht
    generalize tx.call = c at heff hnot
    generalize Host.after (dispatch M) s tx = s' at heff ⊢
    cases heff with
    | initializeContract => exact h
    | createIntent live amount_ok memo_ne parties_ne signed wallet_eq bound counter inc =>
      refine h.add ⟨hasNonWhitespace_of_not_blank memo_ne (hnot _ rfl), ?_⟩
      nofun
    | settleIntent live isAdmin signed ref_ne stored pending =>
      -- the memo is carried over, the reference is the call's
      exact h.put ⟨(h _ _ stored).memo, fun _ => hasNonWhitespace_of_not_blank ref_ne (hnot _ rfl)⟩
    | cancelIntent live stored signed pending =>
      refine h.put ⟨(h _ _ stored).memo, ?_⟩
      nofun
    | setFeeBps => exact h
    | setTreasury => exact h
    | transferAdmin => exact h
    | view => exact h

/-- What is passed is stored: as a memo, or as the reference of a settled intent. -/
theorem text_stored {tx : Tx A} {t : HostString} (htext : tx.call.text = some t)
    (hok : (stepOf (dispatch M) s tx).Succeeded) :
    ∃ id i, (Host.after (dispatch M) s tx).intents id = some i ∧
      (i.memo = t ∨ i.status = .settled ∧ i.settlementReference = t) := by
  rcases after_cases M s tx with ⟨hfail, _⟩ | ⟨r, evs, _, heff⟩
  · exact absurd hok hfail
  · generalize tx.call = c at htext heff
    generalize Host.after (dispatch M) s tx = s' at heff ⊢
    cases heff with
    | createIntent =>
      cases htext
      exact ⟨_, _, Function.update_self .., .inl rfl⟩
    | settleIntent =>
      cases htext
      exact ⟨_, _, Function.update_self .., .inr ⟨rfl, rfl⟩⟩
    | @view c r reads =>
      cases c with
      | createIntent => exact absurd reads id
      | settleIntent => exact absurd reads id
      | _ => cases htext
    | _ => cases htext

/-- **Nothing less will do**: a call that meets all its other checks goes through with
any blank text, and leaves that in storage. -/
theorem blank_goes_through (s : Store A) (tx : Tx A) (t : HostString)
    (htext : tx.call.text = some t) (hadm : tx.call.Admitted M s tx.env) (ht : Blank t) :
    (stepOf (dispatch M) s tx).Succeeded ∧
      ¬ TextHasContent (Host.after (dispatch M) s tx) := by
  have hok := (succeeded_iff_admitted s tx t htext).mpr ⟨hadm, ht.1⟩
  refine ⟨hok, fun hcontent => ?_⟩
  obtain ⟨id, i, hi, rfl | ⟨hsettled, rfl⟩⟩ := text_stored htext hok
  · cases ht.2.symm.trans (hcontent id i hi).memo
  · cases ht.2.symm.trans ((hcontent id i hi).reference hsettled)

end Steps

end Payments

/-! ## Both contracts -/

/-- Stored text is never blank, whatever callers pass: in no state that a run of
either contract reaches. -/
def TextNeverBlank {A : Type} [DecidableEq A] (M : Missing) (pin : A) : Prop :=
  (∀ txs, Identity.TextHasContent (run (Identity.dispatch M) (Identity.deployed pin) txs)) ∧
  ∀ txs, Payments.TextHasContent (run (Payments.dispatch M) (Payments.deployed pin) txs)

/-- **When stored text has content**: in every run of either contract, it does in all
states reached exactly if no call that meets all other checks passes blank text. -/
theorem stored_text_has_content {A : Type} [DecidableEq A] (M : Missing) (pin : A) :
    (∀ txs : List (Identity.Tx A),
      (∀ l, l <+: txs →
        Identity.TextHasContent (run (Identity.dispatch M) (Identity.deployed pin) l)) ↔
      ∀ st ∈ trace (Identity.dispatch M) (Identity.deployed pin) txs,
        PassesContent (Identity.Call.Admitted M) Identity.Call.text st) ∧
    ∀ txs : List (Payments.Tx A),
      (∀ l, l <+: txs →
        Payments.TextHasContent (run (Payments.dispatch M) (Payments.deployed pin) l)) ↔
      ∀ st ∈ trace (Payments.dispatch M) (Payments.deployed pin) txs,
        PassesContent (Payments.Call.Admitted M) Payments.Call.text st := by
  refine ⟨?_, ?_⟩
  · intro txs
    refine content_along_iff ?_ (fun s tx h => h.after)
      fun s tx t ht hadm hblank => (Identity.blank_goes_through s tx t ht hadm hblank).2
    intro agent p hp
    cases hp
  · intro txs
    refine content_along_iff ?_ (fun s tx h => h.after)
      fun s tx t ht hadm hblank => (Payments.blank_goes_through s tx t ht hadm hblank).2
    intro id i hi
    cases hi

/-- A registration, and an intent created and settled, with text that is not
blank. -/
theorem stored_text_has_content_sample :
    (∀ l, l <+: [Identity.Sample.initializeTx, Identity.Sample.registerTx] →
      Identity.TextHasContent (run (Identity.dispatch .documented) (Identity.deployed 0) l)) ∧
    ∀ l, l <+: [Payments.Sample.initializeTx, Payments.Sample.createTx,
        Payments.Sample.settleTx] →
      Payments.TextHasContent (run (Payments.dispatch .documented) (Payments.deployed 0) l) := by
  obtain ⟨hidentity, hpayments⟩ := stored_text_has_content .documented (0 : Nat)
  have hregister : ∀ st ∈ trace (Identity.dispatch .documented) (Identity.deployed 0)
      [Identity.Sample.initializeTx, Identity.Sample.registerTx],
      ∀ t ∈ st.tx.call.text, ¬ Blank t := by decide +kernel
  have hsettle : ∀ st ∈ trace (Payments.dispatch .documented) (Payments.deployed 0)
      [Payments.Sample.initializeTx, Payments.Sample.createTx, Payments.Sample.settleTx],
      ∀ t ∈ st.tx.call.text, ¬ Blank t := by decide +kernel
  exact ⟨(hidentity _).mpr fun st hst _ => hregister st hst,
    (hpayments _).mpr fun st hst _ => hsettle st hst⟩

/-- Four spaces, which `require_non_whitespace` rejects. -/
def spaces : HostString := ⟨[0x20, 0x20, 0x20, 0x20], by decide⟩

/-- Four spaces as metadata, as memo and as settlement reference: each is stored. -/
theorem blank_text_stored :
    Blank spaces ∧
    (run (Identity.dispatch .documented) (Identity.deployed 0)
      [Identity.Sample.initializeTx,
        Identity.Sample.tx [1] (.register 1 3 spaces)]).profile 1 = some ⟨3, spaces, true, 0⟩ ∧
    (run (Payments.dispatch .documented) (Payments.deployed 0)
      [Payments.Sample.initializeTx,
        Payments.Sample.tx [1] 11 (.createIntent 1 2 Payments.Sample.amount spaces),
        Payments.Sample.tx [0] 12 (.settleIntent 0 1 spaces)]).intents 1 =
      some ⟨1, 1, 2, Payments.Sample.amount, spaces, spaces, .settled, 11⟩ ∧
    ¬ TextNeverBlank .documented (0 : Nat) := by
  have hblank : Blank spaces := by decide
  have hprofile : (run (Identity.dispatch .documented) (Identity.deployed 0)
      [Identity.Sample.initializeTx,
        Identity.Sample.tx [1] (.register 1 3 spaces)]).profile 1 =
      some ⟨3, spaces, true, 0⟩ := by decide +kernel
  refine ⟨hblank, hprofile, by decide +kernel, ?_⟩
  intro h
  have hcontent : hasNonWhitespace spaces = true := h.1 _ 1 _ hprofile
  rw [hblank.2] at hcontent
  cases hcontent

end LilyContracts
