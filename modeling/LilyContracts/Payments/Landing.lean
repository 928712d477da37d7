import LilyContracts.Host.Reentry
import LilyContracts.Payments.Lifecycle

/-!
# What the frames of a payments call leave

On a host that permits reentry a frame of a payments call runs in stretches: up
to its first signature check or query, from there to the next, and so on. Every
payments call writes in its last stretch only (`allLanded`), so what a frame does
to the storage is one transition, from the storage it finds when it resumes for
the last time, and all it may carry over from before is what it read there.

`Landed` lists these transitions. It says where the values a frame works with
were read: `settle_intent` and `create_intent` read everything they write back in
the last stretch, `cancel_intent` brings its record along from before the payer's
signature check, and `initialize` has looked at the initialization flag before
its second one.
-/

namespace LilyContracts.Payments

open Host

variable {A : Type}

/-! ## The transitions -/

/-- The payer and the id of a `create_intent` that returned. -/
def creation : Call A × Ret A → Option (A × UInt64)
  | (.createIntent payerAgent _ _ _, .u64 id) => some (payerAgent, id)
  | _ => none

/-- The initialization flag and everything about intents are the same; the rest
of the configuration may differ. -/
structure SameLedger (s s' : Store A) : Prop where
  initialized : s'.initialized = s.initialized
  intents : s'.intents = s.intents
  counter : s'.nextIntentId = s.nextIntentId
  payers : s'.payerIntents = s.payerIntents

/-- A frame that returns: `n` interactions behind it, the last of them entered
on the storage `seen` and left on the storage `s`. -/
inductive Landed [DecidableEq A] (M : Missing) (tx : Tx A) (n : Nat) (seen s : Store A) :
    Ret A → Store A → Prop
  | initializeContract {admin treasury wallet : A} {feeBps : UInt32}
      (call : tx.call = .initializeContract admin treasury feeBps wallet) (second : n = 2)
      (fresh : seen.initialized = none) :
      Landed M tx n seen s .unit (s.configure admin treasury feeBps wallet)
  | createIntent {payerAgent payeeAgent : A} {amount : I128} {memo : HostString}
      {id next : UInt64} (call : tx.call = .createIntent payerAgent payeeAgent amount memo)
      (counter : s.nextIntentId = some id) (inc : M.checkedInc id = .ok next) :
      Landed M tx n seen s (.u64 id)
        (s.addIntent (.fresh id payerAgent payeeAgent amount memo tx.env.timestamp) next)
  | settleIntent {caller : A} {id : UInt64} {ref : HostString} {i : PaymentIntent A}
      (call : tx.call = .settleIntent caller id ref) (stored : s.intents id = some i)
      (pending : i.status = .pending) :
      Landed M tx n seen s .unit (s.putIntent id (i.settle ref))
  | cancelIntent {id : UInt64} {i : PaymentIntent A} (call : tx.call = .cancelIntent id)
      (first : n = 1) (read : seen.intents id = some i) (pending : i.status = .pending)
      (signed : tx.env.signs i.payerAgent = true) :
      Landed M tx n seen s .unit (s.putIntent id i.cancel)
  | other {r : Ret A} {s' : Store A} (call : ∀ k, tx.call.finalizes k = none)
      (creates : creation (tx.call, r) = none) (same : SameLedger s s') :
      Landed M tx n seen s r s'

theorem SameLedger.refl (s : Store A) : SameLedger s s := ⟨rfl, rfl, rfl, rfl⟩

/-! ## Every call lands in one of them -/

section Land

variable {M : Missing} {env : Env A (Query A) ProtocolError}

@[simp] theorem lands_require_bind {β : Type} {Q : LandsOn (Store A) β} {n : Nat}
    {seen base cur : Store A} {g : Unit → Program A β} (c : Prop) [Decidable c]
    (e : ProtocolError) :
    Lands env Q n seen base (require c e >>= g) cur ↔
      (c → Lands env Q n seen base (g ()) cur) := by
  unfold require
  split
  next h => simp only [pure_bind, h, true_imp_iff]
  next h => exact ⟨fun _ hc => absurd hc h, fun _ => trivial⟩

variable [DecidableEq A]

theorem lands_initializeContract (admin treasury : A) (feeBps : UInt32) (wallet : A)
    (seen s : Store A) :
    Lands env (Landed M ⟨env, .initializeContract admin treasury feeBps wallet⟩) 0 seen s
      (dispatch M (.initializeContract admin treasury feeBps wallet)) s := by
  simp only [dispatch, initializeContract, requireInitialAdmin, requireValidBps,
    requireAuthOrError, bumpInstance, bind_assoc, pure_bind, lands_requireAuth_bind,
    lands_get_bind, lands_require_bind, lands_unwrapOptimized_bind, lands_modify_bind,
    lands_publish_bind, lands_pure, true_and]
  -- `s₁` is found after the first signature check, `s₂` after the second
  intro _ s₁ hfresh _ _ _ _ _ s₂
  exact .initializeContract rfl rfl (by simpa using hfresh)

theorem lands_createIntent (payerAgent payeeAgent : A) (amount : I128) (memo : HostString)
    (seen s : Store A) :
    Lands env (Landed M ⟨env, .createIntent payerAgent payeeAgent amount memo⟩) 0 seen s
      (dispatch M (.createIntent payerAgent payeeAgent amount memo)) s := by
  simp only [dispatch, createIntent, ensureInitialized, requireNonEmpty, bumpInstance,
    bind_assoc, pure_bind, lands_requireAuth_bind, lands_get_bind, lands_require_bind,
    lands_unwrapOptimized_bind, lands_unwrapOrPanic_bind, lands_ask_bind,
    lands_ledgerTimestamp_bind, lands_modify_bind, lands_lift_bind, lands_publish_bind,
    lands_pure, true_and]
  intro _ _ _ _ _ s₁ wallet _ b _ s₂ _ id hid next hnext
  exact .createIntent rfl hid hnext

theorem lands_settleIntent (caller : A) (id : UInt64) (ref : HostString) (seen s : Store A) :
    Lands env (Landed M ⟨env, .settleIntent caller id ref⟩) 0 seen s
      (dispatch M (.settleIntent caller id ref)) s := by
  simp only [dispatch, settleIntent, ensureInitialized, getAdmin, requireCaller,
    requireAuthOrError, NonReentrantGuard.acquire, requireNonEmpty, getIntentInternal,
    NonReentrantGuard.drop, bumpInstance, entries_eq, withEntries_eq, bind_assoc, pure_bind,
    lands_requireAuth_bind, lands_get_bind, lands_require_bind, lands_unwrapOrPanic_bind,
    lands_lift_bind, lands_modify_bind, lands_publish_bind, lands_pure, Function.update_self,
    Function.update_idem, Option.isSome_some, if_true, true_and]
  intro _ _ _ _ _ s₁ hg _ i hi hp
  rw [update_none_eq (by simpa using hg)]
  exact .settleIntent rfl hi hp

theorem lands_cancelIntent (id : UInt64) (seen s : Store A) :
    Lands env (Landed M ⟨env, .cancelIntent id⟩) 0 seen s (dispatch M (.cancelIntent id)) s := by
  simp only [dispatch, cancelIntent, ensureInitialized, NonReentrantGuard.acquire,
    getIntentInternal, NonReentrantGuard.drop, bumpInstance, entries_eq, withEntries_eq,
    bind_assoc, pure_bind, lands_requireAuth_bind, lands_get_bind, lands_require_bind,
    lands_unwrapOrPanic_bind, lands_modify_bind, lands_publish_bind, lands_pure,
    Function.update_self, Function.update_idem, Option.isSome_some, if_true, true_and]
  -- the record `i` is of `s`; it is written back over whatever `s₁` holds
  intro _ i hi hs s₁ hg hp
  rw [update_none_eq (by simpa using hg)]
  exact .cancelIntent rfl rfl hi hp hs

/-- What the three configuration setters do once their own checks are passed. -/
theorem lands_adminWrite {c : Call A} (f : Store A → Store A) (ev : A → Event A)
    (hc : ∀ k, c.finalizes k = none) (hcreates : creation (c, .unit) = none)
    (same : ∀ s, SameLedger s (f s)) {n : Nat} {seen s : Store A} :
    Lands env (Landed M ⟨env, c⟩) n seen s
      (getAdmin M >>= fun admin => Host.requireAuth admin >>= fun _ => Host.modify f >>= fun _ =>
        bumpInstance >>= fun _ => Host.publish (ev admin) >>= fun _ => pure .unit) s := by
  simp only [getAdmin, bumpInstance, bind_assoc, pure_bind, lands_get_bind, lands_lift_bind,
    lands_requireAuth_bind, lands_modify_bind, lands_publish_bind, lands_pure, true_and]
  intro _ _ _ s₁
  exact .other hc hcreates (same s₁)

/-- **Every payments call writes only after its last interaction**, and lands as
`Landed` says. -/
theorem allLanded : AllLand (dispatch M) (Landed (A := A) M) := by
  intro tx seen s
  obtain ⟨env, c⟩ := tx
  cases c with
  | initializeContract admin treasury feeBps wallet =>
    exact lands_initializeContract admin treasury feeBps wallet seen s
  | createIntent payerAgent payeeAgent amount memo =>
    exact lands_createIntent payerAgent payeeAgent amount memo seen s
  | settleIntent caller id ref => exact lands_settleIntent caller id ref seen s
  | cancelIntent id => exact lands_cancelIntent id seen s
  | setFeeBps feeBps =>
    simp only [dispatch, setFeeBps, ensureInitialized, requireValidBps, bind_assoc,
      lands_get_bind, lands_require_bind]
    intro _ _
    exact lands_adminWrite (fun s => { s with feeBps := some feeBps }) (fun a => .fee a feeBps)
      (fun _ => rfl) rfl fun _ => ⟨rfl, rfl, rfl, rfl⟩
  | setTreasury treasury =>
    simp only [dispatch, setTreasury, ensureInitialized, bind_assoc, lands_get_bind,
      lands_require_bind]
    intro _
    exact lands_adminWrite (fun s => { s with treasury := some treasury })
      (fun a => .treasury a treasury) (fun _ => rfl) rfl fun _ => ⟨rfl, rfl, rfl, rfl⟩
  | transferAdmin newAdmin =>
    simp only [dispatch, transferAdmin, ensureInitialized, bind_assoc, lands_get_bind,
      lands_require_bind]
    intro _
    exact lands_adminWrite (fun s => { s with admin := some newAdmin })
      (fun a => .admin a newAdmin) (fun _ => rfl) rfl fun _ => ⟨rfl, rfl, rfl, rfl⟩
  | _ =>
    refine lands_of_readOnly (readOnly_dispatch ?_) fun _ _ _ _ => ?_
    · trivial
    · exact .other (fun _ => rfl) rfl (.refl _)

end Land

end LilyContracts.Payments
