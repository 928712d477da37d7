import LilyContracts.Host.Locality
import LilyContracts.Payments.Lifecycle
import LilyContracts.Wallet.Effects
import LilyContracts.Identity.Effects

/-!
# Record locality

A call addressed to an agent works on that agent's record and on the configuration
alone, and so does a finalization on its intent. On the syntax of the entry points
that is `respects_dispatch`, one lemma per contract: failing calls and the guard
flags are covered with the rest, since it speaks of what a program reads and
writes and not of how it ends. The other half, that everybody else's calls leave
the record and that configuration alone (`others_after`), is a case analysis over
their effects.

The two together make the calls independent in the sense of `Host/Locality.lean`,
and `record_locality` reads the consequences off: the other agents' calls may be
deleted from a run, or moved about in it, without a trace in the record and in the
answers.
-/

namespace LilyContracts

open Host

/-! ## What the shared primitives see -/

section Common

variable {σ A X Ev υ : Type} {view : σ → υ}

theorem respects_require (c : Prop) [Decidable c] (e : ProtocolError) :
    (require c e : Prog σ A X Ev ProtocolError Unit).Respects view := by
  unfold require
  exact respects_ite trivial trivial

theorem respects_bumpInstance :
    (bumpInstance : Prog σ A X Ev ProtocolError Unit).Respects view := trivial

variable [SymbolEntries σ]

/-- A guard is safe in every view that holds the flags. -/
theorem respects_acquire (key : Symbol)
    (hread : ∀ s s', view s = view s' → SymbolEntries.entries s = SymbolEntries.entries s')
    (hwrite : ∀ s s' f, view s = view s' →
      view (SymbolEntries.withEntries f s) = view (SymbolEntries.withEntries f s')) :
    (NonReentrantGuard.acquire key :
      Prog σ A X Ev ProtocolError NonReentrantGuard).Respects view := by
  unfold NonReentrantGuard.acquire
  refine (respects_get ?_).bind fun _ => (respects_require _ _).bind fun _ => ?_
  · intro s s' hs
    rw [hread s s' hs]
  · refine (respects_modify ?_).bind fun _ => respects_pure _
    intro s s' hs
    rw [hread s s' hs]
    exact hwrite s s' _ hs

theorem respects_drop (guard : NonReentrantGuard)
    (hread : ∀ s s', view s = view s' → SymbolEntries.entries s = SymbolEntries.entries s')
    (hwrite : ∀ s s' f, view s = view s' →
      view (SymbolEntries.withEntries f s) = view (SymbolEntries.withEntries f s')) :
    (guard.drop : Prog σ A X Ev ProtocolError Unit).Respects view := by
  unfold NonReentrantGuard.drop
  refine (respects_get ?_).bind fun _ => respects_ite (respects_modify ?_) (respects_pure ())
  · intro s s' hs
    rw [hread s s' hs]
  · intro s s' hs
    rw [hread s s' hs]
    exact hwrite s s' _ hs

end Common

/-! ## The law for records kept per agent -/

section Records

variable {σ A X Ev C R ρ : Type} [DecidableEq A]

/-- The call is addressed to `a`. -/
def addressed (agent : C → Option A) (a : A) (c : C) : Bool :=
  decide (agent c = some a)

/-- The call is kept when the mutating calls addressed to agents other than `a`
are deleted. -/
def kept (agent : C → Option A) (mutates : C → Bool) (a : A) (c : C) : Bool :=
  !(mutates c && (agent c).any fun b => b ≠ a)

/-- In the runs from `s`, an agent's record and the answers to the calls addressed
to it are a matter of these calls alone. -/
structure RecordLocality (prog : C → Prog σ A X Ev ProtocolError R) (record : σ → A → Option ρ)
    (agent : C → Option A) (mutates : C → Bool) (s : σ) : Prop where
  /-- Deleting the mutating calls addressed to other agents changes neither. -/
  deletion : ∀ (a : A) (txs : List (Tx A X ProtocolError C)),
    record (run prog s txs) a = record (run prog s (own (kept agent mutates a) txs)) a ∧
    answers (addressed agent a) (trace prog s txs) =
      answers (addressed agent a) (trace prog s (own (kept agent mutates a) txs))
  /-- Runs that agree on each agent's own calls end with the same records. -/
  interleaving : ∀ txs txs' : List (Tx A X ProtocolError C),
    (∀ a, own (addressed agent a) txs = own (addressed agent a) txs') →
      ∀ a, record (run prog s txs) a = record (run prog s txs') a

/-- The law follows from the independence of each agent's calls, in a view that
shows its record. -/
theorem recordLocality_of {υ : Type} {prog : C → Prog σ A X Ev ProtocolError R}
    {record : σ → A → Option ρ} {agent : C → Option A} {mutates : C → Bool} {I : σ → Prop}
    {view : A → σ → υ} {s : σ}
    (hind : ∀ a, Independent prog I (view a) (addressed agent a))
    (hrecord : ∀ a s s', view a s = view a s' → record s a = record s' a) (hs : I s) :
    RecordLocality prog record agent mutates s where
  deletion := by
    intro a txs
    have hkeep : ∀ c, addressed agent a c = true → kept agent mutates a c = true := by
      intro c hc
      have hagent : agent c = some a := of_decide_eq_true hc
      unfold kept
      rw [hagent]
      simp
    obtain ⟨hview, hanswers⟩ := (hind a).deletion hkeep hs txs
    exact ⟨hrecord a _ _ hview, hanswers⟩
  interleaving := by
    intro txs txs' hown a
    exact hrecord a _ _ ((hind a).runs_agree hs (hown a)).1

end Records

/-! ## Wallet -/

namespace Wallet

variable {A : Type}

/-- The agent a call is addressed to. -/
def Call.agent : Call A → Option A
  | .bindWallet agent .. | .rebindWallet agent .. => some agent
  | .updateSpendLimit agent _ | .setEnabled agent _ | .adminDeactivate agent => some agent
  | .getBinding agent | .getBindingOpt agent => some agent
  | .initializeContract _ | .isInitialized => none

def Call.mutates : Call A → Bool
  | .isInitialized | .getBinding _ | .getBindingOpt _ => false
  | _ => true

/-- What the calls addressed to `a` work on. -/
def view (a : A) (s : Store A) : Option Bool × Option A × Option (WalletBinding A) :=
  (s.initialized, s.admin, s.binding a)

section Respects

variable {a : A}

theorem respects_ensureInitialized : (ensureInitialized : Program A Unit).Respects (view a) :=
  (respects_get fun _ _ h => congrArg (fun v => v.1.isSome) h).bind fun _ => respects_require _ _

theorem respects_getAdmin : (getAdmin : Program A A).Respects (view a) :=
  (respects_get fun _ _ h => congrArg (fun v => v.2.1) h).bind fun _ =>
    respects_unwrapOptimized _

theorem respects_getBindingInternal : (getBindingInternal a : Program A _).Respects (view a) :=
  (respects_get fun _ _ h => congrArg (fun v => v.2.2) h).bind fun _ =>
    respects_unwrapOrPanic _ _

variable [DecidableEq A]

/-- What every mutator ends with. -/
theorem respects_store (b : WalletBinding A) (ev : Event A) :
    (setBinding a b >>= fun _ => bumpInstance >>= fun _ => publish ev : Program A Unit).Respects
      (view a) := by
  refine (respects_modify ?_).bind fun _ => respects_bumpInstance.bind fun _ => respects_publish _
  intro s s' h
  simp only [view, Prod.mk.injEq, Function.update_self] at h ⊢
  exact ⟨h.1, h.2.1, trivial⟩

theorem respects_dispatch {M : Missing} {nextRevision : NextRevision A} {c : Call A}
    (hc : addressed Call.agent a c = true) : (dispatch M nextRevision c).Respects (view a) := by
  have hagent : c.agent = some a := of_decide_eq_true hc
  cases c with
  | initializeContract => cases hagent
  | isInitialized => cases hagent
  | bindWallet agent wallet asset limit =>
    obtain rfl : agent = a := Option.some.inj hagent
    refine Prog.Respects.bind ?_ fun _ => respects_pure _
    refine respects_ensureInitialized.bind fun _ => (respects_require _ _).bind fun _ => ?_
    refine (respects_requireAuth _).bind fun _ => (respects_requireAuth _).bind fun _ => ?_
    refine (respects_get fun _ _ h => congrArg (fun v => v.2.2.isSome) h).bind fun _ => ?_
    exact (respects_require _ _).bind fun _ => respects_store _ _
  | rebindWallet agent wallet asset limit =>
    obtain rfl : agent = a := Option.some.inj hagent
    refine Prog.Respects.bind ?_ fun _ => respects_pure _
    refine respects_ensureInitialized.bind fun _ => (respects_require _ _).bind fun _ => ?_
    refine (respects_requireAuth _).bind fun _ => (respects_requireAuth _).bind fun _ => ?_
    refine (respects_get fun _ _ h => congrArg (fun v => v.2.2.isSome) h).bind fun _ => ?_
    refine (respects_require _ _).bind fun _ => ?_
    refine (respects_get fun _ _ h => congrArg (fun v => v.2.2) h).bind fun _ => ?_
    exact (respects_lift _).bind fun _ => respects_store _ _
  | updateSpendLimit agent limit =>
    obtain rfl : agent = a := Option.some.inj hagent
    refine Prog.Respects.bind ?_ fun _ => respects_pure _
    refine respects_ensureInitialized.bind fun _ => (respects_require _ _).bind fun _ => ?_
    refine (respects_requireAuth _).bind fun _ => respects_getBindingInternal.bind fun _ => ?_
    refine (respects_lift _).bind fun _ => (respects_lift _).bind fun _ => ?_
    exact respects_store _ _
  | setEnabled agent enabled =>
    obtain rfl : agent = a := Option.some.inj hagent
    refine Prog.Respects.bind ?_ fun _ => respects_pure _
    refine respects_ensureInitialized.bind fun _ => (respects_requireAuth _).bind fun _ => ?_
    refine respects_getBindingInternal.bind fun _ => (respects_lift _).bind fun _ => ?_
    exact respects_store _ _
  | adminDeactivate agent =>
    obtain rfl : agent = a := Option.some.inj hagent
    refine Prog.Respects.bind ?_ fun _ => respects_pure _
    refine respects_ensureInitialized.bind fun _ => respects_getAdmin.bind fun _ => ?_
    refine (respects_requireAuth _).bind fun _ => respects_getBindingInternal.bind fun _ => ?_
    exact (respects_lift _).bind fun _ => respects_store _ _
  | getBinding agent =>
    obtain rfl : agent = a := Option.some.inj hagent
    refine Prog.Respects.bind ?_ fun _ => respects_pure _
    refine respects_ensureInitialized.bind fun _ => respects_bumpInstance.bind fun _ => ?_
    exact respects_getBindingInternal
  | getBindingOpt agent =>
    obtain rfl : agent = a := Option.some.inj hagent
    refine Prog.Respects.bind ?_ fun _ => respects_pure _
    refine respects_ensureInitialized.bind fun _ => respects_bumpInstance.bind fun _ => ?_
    exact respects_get fun _ _ h => congrArg (fun v => v.2.2) h

end Respects

section Others

variable [DecidableEq A] {M : Missing} {nextRevision : NextRevision A} {s : Store A} {a : A}

theorem put_view_of_ne {agent : A} {b : WalletBinding A} (h : a ≠ agent) :
    view a (s.put agent b) = view a s := by
  unfold view
  rw [put_binding_of_ne h]
  rfl

/-- No call addressed elsewhere changes what `a`'s calls work on. -/
theorem others_after (hinit : s.initialized.isSome = true) {tx : Tx A}
    (hc : addressed Call.agent a tx.call = false) :
    view a (after (dispatch M nextRevision) s tx) = view a s := by
  have hagent : tx.call.agent ≠ some a := of_decide_eq_false hc
  rcases after_cases M nextRevision s tx with ⟨_, heq⟩ | ⟨r, evs, _, heff⟩
  · rw [heq]
  · generalize tx.call = c at heff hagent
    generalize after (dispatch M nextRevision) s tx = s' at heff ⊢
    cases heff with
    | initializeContract signed fresh =>
      rw [fresh] at hinit
      cases hinit
    | view reads => rfl
    | _ => exact put_view_of_ne fun ha => hagent (congrArg some ha.symm)

/-- An agent's calls are independent of all others. -/
theorem independent (M : Missing) (nextRevision : NextRevision A) (a : A) :
    Independent (dispatch M nextRevision) (fun s => s.initialized.isSome = true) (view a)
      (addressed Call.agent a) where
  invariant _ tx hs := (gate M nextRevision).kept hs tx
  respects _ hc := respects_dispatch hc
  others _ _ hs hc := others_after hs hc

end Others

end Wallet

/-! ## Identity -/

namespace Identity

variable {A : Type}

/-- The agent a call is addressed to. -/
def Call.agent : Call A → Option A
  | .register agent .. | .updateProfile agent .. => some agent
  | .deactivate agent | .reactivate agent => some agent
  | .getProfile agent | .getProfileOpt agent => some agent
  | .initializeContract _ | .isInitialized => none

def Call.mutates : Call A → Bool
  | .isInitialized | .getProfile _ | .getProfileOpt _ => false
  | _ => true

/-- What the calls addressed to `a` work on. -/
def view (a : A) (s : Store A) : Option Bool × Option A × Option (AgentProfile A) :=
  (s.initialized, s.admin, s.profile a)

section Respects

variable {a : A}

theorem respects_ensureInitialized : (ensureInitialized : Program A Unit).Respects (view a) :=
  (respects_get fun _ _ h => congrArg (fun v => v.1.isSome) h).bind fun _ => respects_require _ _

theorem respects_getAdmin : (getAdmin : Program A A).Respects (view a) :=
  (respects_get fun _ _ h => congrArg (fun v => v.2.1) h).bind fun _ =>
    respects_unwrapOptimized _

theorem respects_getProfileInternal : (getProfileInternal a : Program A _).Respects (view a) :=
  (respects_get fun _ _ h => congrArg (fun v => v.2.2) h).bind fun _ =>
    respects_unwrapOrPanic _ _

variable [DecidableEq A]

theorem respects_setProfile (p : AgentProfile A) :
    (setProfile a p : Program A Unit).Respects (view a) := by
  refine respects_modify ?_
  intro s s' h
  simp only [view, Prod.mk.injEq, Function.update_self] at h ⊢
  exact ⟨h.1, h.2.1, trivial⟩

/-- What a mutator that publishes the profile ends with. -/
theorem respects_store (p : AgentProfile A) (ev : Event A) :
    (setProfile a p >>= fun _ => bumpInstance >>= fun _ => publish ev : Program A Unit).Respects
      (view a) :=
  (respects_setProfile p).bind fun _ => respects_bumpInstance.bind fun _ => respects_publish _

theorem respects_dispatch {M : Missing} {c : Call A} (hc : addressed Call.agent a c = true) :
    (dispatch M c).Respects (view a) := by
  have hagent : c.agent = some a := of_decide_eq_true hc
  cases c with
  | initializeContract => cases hagent
  | isInitialized => cases hagent
  | register agent controller uri =>
    obtain rfl : agent = a := Option.some.inj hagent
    refine Prog.Respects.bind ?_ fun _ => respects_pure _
    refine respects_ensureInitialized.bind fun _ => (respects_require _ _).bind fun _ => ?_
    refine (respects_get fun _ _ h => congrArg (fun v => v.2.2.isSome) h).bind fun _ => ?_
    refine (respects_require _ _).bind fun _ => (respects_requireAuth _).bind fun _ => ?_
    exact respects_store _ _
  | updateProfile agent uri newController =>
    obtain rfl : agent = a := Option.some.inj hagent
    refine Prog.Respects.bind ?_ fun _ => respects_pure _
    refine respects_ensureInitialized.bind fun _ => (respects_require _ _).bind fun _ => ?_
    refine respects_getProfileInternal.bind fun _ => (respects_require _ _).bind fun _ => ?_
    refine (respects_requireAuth _).bind fun _ => (respects_lift _).bind fun _ => ?_
    refine (respects_setProfile _).bind fun _ => respects_bumpInstance.bind fun _ => ?_
    -- the second conditional event comes after either branch of the first
    have hrotated : ∀ (c : Prop) [Decidable c] (ev : Event A),
        (if c then publish ev else pure () : Program A Unit).Respects (view agent) :=
      fun c _ ev => respects_ite (respects_publish ev) (respects_pure ())
    exact respects_ite ((respects_publish _).bind fun _ => hrotated _ _) (hrotated _ _)
  | deactivate agent =>
    obtain rfl : agent = a := Option.some.inj hagent
    refine Prog.Respects.bind ?_ fun _ => respects_pure _
    refine respects_ensureInitialized.bind fun _ => respects_getAdmin.bind fun _ => ?_
    refine (respects_requireAuth _).bind fun _ => respects_getProfileInternal.bind fun _ => ?_
    refine respects_ite respects_bumpInstance ?_
    exact (respects_lift _).bind fun _ => respects_store _ _
  | reactivate agent =>
    obtain rfl : agent = a := Option.some.inj hagent
    refine Prog.Respects.bind ?_ fun _ => respects_pure _
    refine respects_ensureInitialized.bind fun _ => respects_getAdmin.bind fun _ => ?_
    refine (respects_requireAuth _).bind fun _ => respects_getProfileInternal.bind fun _ => ?_
    exact (respects_lift _).bind fun _ => respects_store _ _
  | getProfile agent =>
    obtain rfl : agent = a := Option.some.inj hagent
    refine Prog.Respects.bind ?_ fun _ => respects_pure _
    refine respects_ensureInitialized.bind fun _ => respects_bumpInstance.bind fun _ => ?_
    exact respects_getProfileInternal
  | getProfileOpt agent =>
    obtain rfl : agent = a := Option.some.inj hagent
    refine Prog.Respects.bind ?_ fun _ => respects_pure _
    refine respects_ensureInitialized.bind fun _ => respects_bumpInstance.bind fun _ => ?_
    exact respects_get fun _ _ h => congrArg (fun v => v.2.2) h

end Respects

section Others

variable [DecidableEq A] {M : Missing} {s : Store A} {a : A}

theorem put_view_of_ne {agent : A} {p : AgentProfile A} (h : a ≠ agent) :
    view a (s.put agent p) = view a s := by
  unfold view
  rw [put_profile_of_ne h]
  rfl

/-- No call addressed elsewhere changes what `a`'s calls work on. -/
theorem others_after (hinit : s.initialized.isSome = true) {tx : Tx A}
    (hc : addressed Call.agent a tx.call = false) :
    view a (after (dispatch M) s tx) = view a s := by
  have hagent : tx.call.agent ≠ some a := of_decide_eq_false hc
  rcases after_cases M s tx with ⟨_, heq⟩ | ⟨r, evs, _, heff⟩
  · rw [heq]
  · generalize tx.call = c at heff hagent
    generalize after (dispatch M) s tx = s' at heff ⊢
    cases heff with
    | initializeContract signed fresh =>
      rw [fresh] at hinit
      cases hinit
    | deactivateInactive => rfl
    | view reads => rfl
    | _ => exact put_view_of_ne fun ha => hagent (congrArg some ha.symm)

/-- An agent's calls are independent of all others. -/
theorem independent (M : Missing) (a : A) :
    Independent (dispatch M) (fun s => s.initialized.isSome = true) (view a)
      (addressed Call.agent a) where
  invariant _ tx hs := (gate M).kept hs tx
  respects _ hc := respects_dispatch hc
  others _ _ hs hc := others_after hs hc

end Others

end Identity

/-! ## Payments -/

namespace Payments

variable {A : Type}

/-- The calls that intent `k` is a matter of: its two finalizations, and the admin
transfers that decide who may settle. -/
def Call.concerns (k : UInt64) : Call A → Bool
  | .settleIntent _ id _ | .cancelIntent id => decide (id = k)
  | .transferAdmin _ => true
  | _ => false

/-- The call is kept when all creations, all finalizations of other intents and all
fee and treasury updates are deleted. -/
def Call.kept (k : UInt64) : Call A → Bool
  | .createIntent .. => false
  | .settleIntent _ id _ | .cancelIntent id => decide (id = k)
  | .setFeeBps _ | .setTreasury _ => false
  | _ => true

/-- What the calls that concern `k` work on. -/
def view (k : UInt64) (s : Store A) :
    Option Bool × Option A × (Symbol → Option Bool) × Option (PaymentIntent A) :=
  (s.initialized, s.admin, s.symbols, s.intents k)

section Respects

variable {k : UInt64}

theorem respects_ensureInitialized : (ensureInitialized : Program A Unit).Respects (view k) :=
  (respects_get fun _ _ h => congrArg (fun v => v.1.isSome) h).bind fun _ => respects_require _ _

theorem respects_getAdmin (M : Missing) : (getAdmin M : Program A A).Respects (view k) :=
  (respects_get fun _ _ h => congrArg (fun v => v.2.1) h).bind fun _ => respects_lift _

theorem respects_getIntentInternal : (getIntentInternal k : Program A _).Respects (view k) :=
  (respects_get fun _ _ h => congrArg (fun v => v.2.2.2) h).bind fun _ =>
    respects_unwrapOrPanic _ _

theorem view_symbols (s s' : Store A) (h : view k s = view k s') :
    SymbolEntries.entries s = SymbolEntries.entries s' :=
  congrArg (fun v => v.2.2.1) h

theorem view_withEntries (s s' : Store A) (f : Symbol → Option Bool) (h : view k s = view k s') :
    view k (SymbolEntries.withEntries f s) = view k (SymbolEntries.withEntries f s') :=
  congrArg (fun v => (v.1, v.2.1, f, v.2.2.2)) h

/-- What both finalizations end with. -/
theorem respects_finalize (i : PaymentIntent A) (ev : Event A) (guard : NonReentrantGuard) :
    (Host.modify (fun s : Store A => { s with intents := Function.update s.intents k (some i) })
      >>= fun _ => bumpInstance >>= fun _ => publish ev >>= fun _ => guard.drop :
        Program A Unit).Respects (view k) := by
  refine (respects_modify ?_).bind fun _ => respects_bumpInstance.bind fun _ => ?_
  · intro s s' h
    simp only [view, Prod.mk.injEq, Function.update_self] at h ⊢
    exact ⟨h.1, h.2.1, h.2.2.1, trivial⟩
  · exact (respects_publish _).bind fun _ => respects_drop guard view_symbols view_withEntries

theorem respects_dispatch [DecidableEq A] {M : Missing} {c : Call A}
    (hc : c.concerns k = true) : (dispatch M c).Respects (view k) := by
  cases c with
  | settleIntent caller id ref =>
    obtain rfl : id = k := of_decide_eq_true hc
    refine Prog.Respects.bind ?_ fun _ => respects_pure _
    refine respects_ensureInitialized.bind fun _ => (respects_getAdmin M).bind fun _ => ?_
    refine (respects_require _ _).bind fun _ => (respects_requireAuth _).bind fun _ => ?_
    refine (respects_acquire _ view_symbols view_withEntries).bind fun guard => ?_
    refine (respects_require _ _).bind fun _ => respects_getIntentInternal.bind fun _ => ?_
    exact (respects_require _ _).bind fun _ => respects_finalize _ _ guard
  | cancelIntent id =>
    obtain rfl : id = k := of_decide_eq_true hc
    refine Prog.Respects.bind ?_ fun _ => respects_pure _
    refine respects_ensureInitialized.bind fun _ => respects_getIntentInternal.bind fun _ => ?_
    refine (respects_requireAuth _).bind fun _ => ?_
    refine (respects_acquire _ view_symbols view_withEntries).bind fun guard => ?_
    exact (respects_require _ _).bind fun _ => respects_finalize _ _ guard
  | transferAdmin newAdmin =>
    refine Prog.Respects.bind ?_ fun _ => respects_pure _
    refine respects_ensureInitialized.bind fun _ => (respects_getAdmin M).bind fun _ => ?_
    refine (respects_requireAuth _).bind fun _ => (respects_modify ?_).bind fun _ => ?_
    · intro s s' h
      exact congrArg (fun v => (v.1, some newAdmin, v.2.2)) h
    · exact respects_bumpInstance.bind fun _ => respects_publish _
  | _ => cases hc

end Respects

section Others

variable [DecidableEq A] {M : Missing} {pin : A} {s : Store A} {k : UInt64}

/-- Between calls: the contract is live and intent `k` exists. -/
def Holds (pin : A) (k : UInt64) (s : Store A) : Prop :=
  (∃ l, Live pin s l) ∧ ∃ i, s.intents k = some i

theorem holds_after (hM : M.ChecksInc) (h : Holds pin k s) (tx : Tx A) :
    Holds pin k (after (dispatch M) s tx) := by
  obtain ⟨⟨l, hlive⟩, i, hi⟩ := h
  obtain ⟨l', _, hlive'⟩ := live_after hM hlive tx
  rcases intent_after (.inr ⟨l, hlive⟩) hi tx with ⟨_, hi'⟩ | ⟨f, _, _, _, hi'⟩
  · exact ⟨⟨l', hlive'⟩, i, hi'⟩
  · exact ⟨⟨l', hlive'⟩, _, hi'⟩

omit [DecidableEq A] in
theorem putIntent_view_of_ne {id : UInt64} {i : PaymentIntent A} (h : k ≠ id) :
    view k (s.putIntent id i) = view k s := by
  show (_, _, _, Function.update s.intents id (some i) k) = _
  rw [Function.update_of_ne h]
  rfl

/-- No other call changes what the calls that concern `k` work on. -/
theorem others_after (h : Holds pin k s) {tx : Tx A} (hc : tx.call.concerns k = false) :
    view k (after (dispatch M) s tx) = view k s := by
  obtain ⟨⟨l, hlive⟩, i, hi⟩ := h
  rcases after_cases M s tx with ⟨_, heq⟩ | ⟨r, evs, _, heff⟩
  · rw [heq]
  · generalize tx.call = c at heff hc
    generalize after (dispatch M) s tx = s' at heff ⊢
    cases heff with
    | initializeContract signed fresh =>
      rw [hlive.initialized] at fresh
      cases fresh
    | @createIntent payer payee wallet amount memo id next live _ _ _ _ _ _ counter =>
      -- the new record goes under an id that is not in use
      refine putIntent_view_of_ne (s := s) ?_
      intro he
      have hid : k = id := he
      rw [hid, hlive.ledger.counter_fresh counter] at hi
      cases hi
    | settleIntent => exact putIntent_view_of_ne fun he => of_decide_eq_false hc he.symm
    | cancelIntent => exact putIntent_view_of_ne fun he => of_decide_eq_false hc he.symm
    | transferAdmin => cases hc
    | setFeeBps => rfl
    | setTreasury => rfl
    | view reads => rfl

/-- The calls that concern an existing intent are independent of all others. -/
theorem independent (hM : M.ChecksInc) (pin : A) (k : UInt64) :
    Independent (dispatch M) (Holds pin k) (view k) (Call.concerns k) where
  invariant _ tx hs := holds_after hM hs tx
  respects _ hc := respects_dispatch hc
  others _ _ hs hc := others_after hs hc

end Others

end Payments

/-! ## The three contracts -/

/-- **Record locality**: in wallet and identity an agent's record and the answers
to the calls addressed to it are the same with the other agents' mutating calls
deleted, and the records do not depend on how the agents' calls interleave; in
payments the same goes for an existing intent, its finalizations and the admin
transfers, with every creation, every finalization of another intent and every
fee and treasury update deleted. -/
theorem record_locality {A : Type} [DecidableEq A] {M : Missing} (hM : M.ChecksInc)
    (nextRevision : Wallet.NextRevision A) :
    (∀ s : Wallet.Store A, s.initialized.isSome = true →
      RecordLocality (Wallet.dispatch M nextRevision) Wallet.Store.binding Wallet.Call.agent
        Wallet.Call.mutates s) ∧
    (∀ s : Identity.Store A, s.initialized.isSome = true →
      RecordLocality (Identity.dispatch M) Identity.Store.profile Identity.Call.agent
        Identity.Call.mutates s) ∧
    ∀ (pin : A) (before txs : List (Payments.Tx A)) (k : UInt64),
      let s := run (Payments.dispatch M) (Payments.deployed pin) before
      s.initialized.isSome = true → (s.intents k).isSome = true →
      (run (Payments.dispatch M) s txs).intents k =
        (run (Payments.dispatch M) s (own (Payments.Call.kept k) txs)).intents k ∧
      answers (Payments.Call.concerns k) (trace (Payments.dispatch M) s txs) =
        answers (Payments.Call.concerns k)
          (trace (Payments.dispatch M) s (own (Payments.Call.kept k) txs)) := by
  refine ⟨?_, ?_, ?_⟩
  · intro s hs
    exact recordLocality_of (Wallet.independent M nextRevision)
      (fun _ _ _ h => congrArg (fun v => v.2.2) h) hs
  · intro s hs
    exact recordLocality_of (Identity.independent M)
      (fun _ _ _ h => congrArg (fun v => v.2.2) h) hs
  · intro pin before txs k s hinit hk
    have hs : Payments.Holds pin k s :=
      ⟨Payments.reachable_live hM hinit, Option.isSome_iff_exists.mp hk⟩
    have hkeep : ∀ c : Payments.Call A, c.concerns k = true → c.kept k = true := by
      intro c hc
      cases c with
      | settleIntent => exact hc
      | cancelIntent => exact hc
      | transferAdmin => rfl
      | _ => cases hc
    obtain ⟨hview, hanswers⟩ := (Payments.independent hM pin k).deletion hkeep hs txs
    exact ⟨congrArg (fun v => v.2.2.2) hview, hanswers⟩

/-- The binding of agent 1 is as without the binding of agent 2, and intent 1 ends
as without the fee update before its settlement. -/
theorem record_locality_sample :
    (let s := run (Wallet.dispatch .documented Wallet.Sample.nextRevision) (Wallet.deployed 0)
        [Wallet.Sample.initializeTx]
     let other := Wallet.Sample.tx [2, 6] (.bindWallet 2 6 "USDC" Wallet.Sample.limit)
     (run (Wallet.dispatch .documented Wallet.Sample.nextRevision) s
        [other, Wallet.Sample.bindTx]).binding 1 =
      (run (Wallet.dispatch .documented Wallet.Sample.nextRevision) s
        [Wallet.Sample.bindTx]).binding 1) ∧
    let s := run (Payments.dispatch .documented) (Payments.deployed 0)
      [Payments.Sample.initializeTx, Payments.Sample.createTx]
    (run (Payments.dispatch .documented) s
      [Payments.Sample.tx [0] 12 (.setFeeBps 300), Payments.Sample.settleTx]).intents 1 =
      (run (Payments.dispatch .documented) s [Payments.Sample.settleTx]).intents 1 := by
  have h := record_locality Missing.documented_checksInc Wallet.Sample.nextRevision
  refine ⟨?_, ?_⟩
  · intro s other
    exact ((h.1 s (by decide +kernel)).deletion 1 [other, Wallet.Sample.bindTx]).1
  · intro s
    exact (h.2.2 0 [Payments.Sample.initializeTx, Payments.Sample.createTx]
      [Payments.Sample.tx [0] 12 (.setFeeBps 300), Payments.Sample.settleTx] 1
      (by decide +kernel) (by decide +kernel)).1

end LilyContracts
