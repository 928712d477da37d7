import LilyContracts.Host.History
import LilyContracts.Payments.Effects
import LilyContracts.Protocol.Effects
import LilyContracts.Wallet.Effects
import LilyContracts.Identity.Effects

/-!
# Event logs determine state

An indexer that sees only published events keeps an `Indexed` per contract: it
starts empty and folds every event into it (`Indexed.apply`). What it should then
hold is the part of the storage that users care about (`Store.indexed`).

For each contract one lemma says that the events of any successful call take the
indexed view of the storage it met to that of the storage it left
(`apply_effect`): the mutators publish what they stored, under the key they
stored it at. `events_determine_state` lifts that to runs from deployment through
the replay rule of `Host/History.lean`.

Two contracts spread a change over several events. Protocol's hand-over is a
`propose` that the `admin` event of its acceptance clears. Identity's
`update_profile` publishes the metadata and the controller separately and each
only if it changed, so an indexer rebuilds the profile but not its revision.
-/

namespace LilyContracts

open Host

/-! ## Payments -/

namespace Payments

variable {A : Type}

/-- What an indexer of payments knows. -/
structure Indexed (A : Type) where
  admin : Option A
  treasury : Option A
  feeBps : Option UInt32
  nextIntentId : Option UInt64
  intents : UInt64 → Option (PaymentIntent A)

namespace Indexed

/-- Before any event. -/
def empty : Indexed A where
  admin := none
  treasury := none
  feeBps := none
  nextIntentId := none
  intents := fun _ => none

/-- The record an event carries, under its id. -/
def put (x : Indexed A) (id : UInt64) (intent : PaymentIntent A) : Indexed A :=
  { x with intents := Function.update x.intents id (some intent) }

/-- Take in one event. -/
def apply (x : Indexed A) : Event A → Indexed A
  | .init _ config =>
    { x with
      admin := some config.admin
      treasury := some config.treasury
      feeBps := some config.feeBps
      nextIntentId := some config.nextIntentId }
  | .create id intent => { x.put id intent with nextIntentId := some (id + 1) }
  | .settle id _ intent => x.put id intent
  | .cancel id _ intent => x.put id intent
  | .fee _ feeBps => { x with feeBps := some feeBps }
  | .treasury _ treasury => { x with treasury := some treasury }
  | .admin _ newAdmin => { x with admin := some newAdmin }

end Indexed

/-- The part of the storage that events are about. -/
def Store.indexed (s : Store A) : Indexed A where
  admin := s.admin
  treasury := s.treasury
  feeBps := s.feeBps
  nextIntentId := s.nextIntentId
  intents := s.intents

variable [DecidableEq A] {M : Missing}

/-- The events of a call carry what it stored. -/
theorem apply_effect (hM : M.ChecksInc) {env : Env A (Query A) ProtocolError} {s s' : Store A}
    {c : Call A} {r : Ret A} {evs : List (Event A)} (h : Effect M env s c r s' evs) :
    evs.foldl Indexed.apply s.indexed = s'.indexed := by
  cases h with
  | initializeContract => rfl
  | @createIntent payer payee wallet amount memo id next live _ _ _ _ _ _ _ inc =>
    -- the event does not carry the counter; it is one past the id it does carry
    obtain ⟨_, rfl⟩ := hM.ok_iff.mp inc
    rfl
  | settleIntent => rfl
  | cancelIntent => rfl
  | setFeeBps => rfl
  | setTreasury => rfl
  | transferAdmin => rfl
  | view => rfl

theorem replay_deployed (hM : M.ChecksInc) (pin : A) (txs : List (Tx A)) :
    (eventLog (trace (dispatch M) (deployed pin) txs)).foldl Indexed.apply .empty =
      (run (dispatch M) (deployed pin) txs).indexed :=
  replay_run (dispatch M)
    (replay_step (dispatch M) effect_of_exec fun heff => apply_effect hM heff) (deployed pin) txs

end Payments

/-! ## Protocol -/

namespace Protocol

variable {A : Type}

/-- What an indexer of protocol knows. -/
structure Indexed (A : Type) where
  admin : Option A
  pendingAdmin : Option A
  treasury : Option A
  feeBps : Option UInt32

namespace Indexed

/-- Before any event. -/
def empty : Indexed A where
  admin := none
  pendingAdmin := none
  treasury := none
  feeBps := none

/-- Take in one event. An `admin` event ends the hand-over a `propose` began. -/
def apply (x : Indexed A) : Event A → Indexed A
  | .init _ config =>
    { x with
      admin := some config.admin
      treasury := some config.treasury
      feeBps := some config.feeBps }
  | .fee _ feeBps => { x with feeBps := some feeBps }
  | .treasury _ treasury => { x with treasury := some treasury }
  | .propose _ newAdmin => { x with pendingAdmin := some newAdmin }
  | .admin _ pendingAdmin => { x with admin := some pendingAdmin, pendingAdmin := none }

end Indexed

/-- The part of the storage that events are about. -/
def Store.indexed (s : Store A) : Indexed A where
  admin := s.admin
  pendingAdmin := s.pendingAdmin
  treasury := s.treasury
  feeBps := s.feeBps

variable [DecidableEq A] {M : Missing}

/-- The events of a call carry what it stored. -/
theorem apply_effect {env : Env A Empty ProtocolError} {s s' : Store A} {c : Call A} {r : Ret A}
    {evs : List (Event A)} (h : Effect M env s c r s' evs) :
    evs.foldl Indexed.apply s.indexed = s'.indexed := by
  cases h with
  | initializeContract => rfl
  | setFeeBps => rfl
  | setTreasury => rfl
  | transferAdmin => rfl
  | acceptAdmin => rfl
  | view => rfl

theorem replay_deployed (M : Missing) (pin : A) (txs : List (Tx A)) :
    (eventLog (trace (dispatch M) (deployed pin) txs)).foldl Indexed.apply .empty =
      (run (dispatch M) (deployed pin) txs).indexed :=
  replay_run (dispatch M)
    (replay_step (dispatch M) effect_of_exec fun heff => apply_effect heff) (deployed pin) txs

end Protocol

/-! ## Wallet -/

namespace Wallet

variable {A : Type}

/-- What an indexer of wallet knows. -/
structure Indexed (A : Type) where
  admin : Option A
  binding : A → Option (WalletBinding A)

/-- Before any event. -/
def Indexed.empty : Indexed A where
  admin := none
  binding := fun _ => none

/-- The part of the storage that events are about. -/
def Store.indexed (s : Store A) : Indexed A where
  admin := s.admin
  binding := s.binding

variable [DecidableEq A]

/-- The binding an event carries, under its agent. -/
def Indexed.put (x : Indexed A) (agent : A) (binding : WalletBinding A) : Indexed A :=
  { x with binding := Function.update x.binding agent (some binding) }

/-- Take in one event. -/
def Indexed.apply (x : Indexed A) : Event A → Indexed A
  | .init admin => { x with admin := some admin }
  | .bind agent binding => x.put agent binding
  | .rebind agent binding => x.put agent binding
  | .limit agent binding => x.put agent binding
  | .state agent binding => x.put agent binding
  | .admDeact agent binding => x.put agent binding

variable {M : Missing} {nextRevision : NextRevision A}

/-- The events of a call carry what it stored. -/
theorem apply_effect {env : Env A Empty ProtocolError} {s s' : Store A} {c : Call A} {r : Ret A}
    {evs : List (Event A)} (h : Effect M nextRevision env s c r s' evs) :
    evs.foldl Indexed.apply s.indexed = s'.indexed := by
  cases h with
  | initializeContract => rfl
  | bindWallet => rfl
  | rebindWallet => rfl
  | updateSpendLimit => rfl
  | setEnabled => rfl
  | adminDeactivate => rfl
  | view => rfl

theorem replay_deployed (M : Missing) (nextRevision : NextRevision A) (pin : A)
    (txs : List (Tx A)) :
    (eventLog (trace (dispatch M nextRevision) (deployed pin) txs)).foldl Indexed.apply .empty =
      (run (dispatch M nextRevision) (deployed pin) txs).indexed :=
  replay_run (dispatch M nextRevision)
    (replay_step (dispatch M nextRevision) effect_of_exec fun heff => apply_effect heff)
    (deployed pin) txs

end Wallet

/-! ## Identity -/

namespace Identity

variable {A : Type}

/-- What an indexer knows of one profile; a partial update does not tell its
revision. -/
structure IndexedProfile (A : Type) where
  controller : A
  metadataUri : HostString
  active : Bool
  deriving DecidableEq

/-- What an indexer of identity knows. -/
structure Indexed (A : Type) where
  admin : Option A
  profile : A → Option (IndexedProfile A)

/-- Before any event. -/
def Indexed.empty : Indexed A where
  admin := none
  profile := fun _ => none

/-- The part of a profile that events are about. -/
def AgentProfile.indexed (p : AgentProfile A) : IndexedProfile A where
  controller := p.controller
  metadataUri := p.metadataUri
  active := p.active

/-- The part of the storage that events are about. -/
def Store.indexed (s : Store A) : Indexed A where
  admin := s.admin
  profile := fun agent => (s.profile agent).map (·.indexed)

variable [DecidableEq A]

namespace Indexed

/-- The whole profile an event carries, under its agent. -/
def put (x : Indexed A) (agent : A) (profile : IndexedProfile A) : Indexed A :=
  { x with profile := Function.update x.profile agent (some profile) }

/-- A change to one field of a known profile. -/
def alter (x : Indexed A) (agent : A) (f : IndexedProfile A → IndexedProfile A) : Indexed A :=
  { x with profile := Function.update x.profile agent ((x.profile agent).map f) }

/-- Take in one event. -/
def apply (x : Indexed A) : Event A → Indexed A
  | .init _ config => { x with admin := some config.admin }
  | .register agent profile => x.put agent profile.indexed
  | .metadataUpdated agent metadataUri => x.alter agent fun p => { p with metadataUri }
  | .controllerRotated agent controller => x.alter agent fun p => { p with controller }
  | .deact agent profile => x.put agent profile.indexed
  | .react agent profile => x.put agent profile.indexed

theorem alter_of_some {x : Indexed A} {agent : A} {p : IndexedProfile A}
    {f : IndexedProfile A → IndexedProfile A} (h : x.profile agent = some p) :
    x.alter agent f = x.put agent (f p) := by
  unfold alter put
  rw [h]
  rfl

theorem put_profile {x : Indexed A} {agent : A} {p : IndexedProfile A} :
    (x.put agent p).profile agent = some p :=
  Function.update_self ..

theorem put_put {x : Indexed A} {agent : A} {p p' : IndexedProfile A} :
    (x.put agent p).put agent p' = x.put agent p' := by
  unfold put
  rw [Function.update_idem]

/-- Putting what is known already changes nothing. -/
theorem put_eq_self {x : Indexed A} {agent : A} {p : IndexedProfile A}
    (h : x.profile agent = some p) : x.put agent p = x := by
  unfold put
  rw [← h, Function.update_eq_self]

end Indexed

/-- Storing a profile and indexing it is indexing it and putting it. -/
theorem put_indexed (s : Store A) (agent : A) (p : AgentProfile A) :
    (s.put agent p).indexed = s.indexed.put agent p.indexed := by
  unfold Store.put Store.indexed Indexed.put
  congr 1
  funext a
  by_cases ha : a = agent
  · subst ha
    simp
  · simp [ha]

omit [DecidableEq A] in
theorem indexed_profile {s : Store A} {agent : A} {p : AgentProfile A}
    (h : s.profile agent = some p) : s.indexed.profile agent = some p.indexed := by
  show (s.profile agent).map (·.indexed) = _
  rw [h]
  rfl

/-- The two conditional events of an update, in each of their four combinations,
add up to the profile it stored. -/
theorem apply_updateEvents {x : Indexed A} {agent : A} {p : AgentProfile A}
    (hx : x.profile agent = some p.indexed) (uri : HostString) (newController : Option A)
    (revision : UInt64) :
    (p.updateEvents agent uri newController).foldl Indexed.apply x =
      x.put agent (p.update uri newController revision).indexed := by
  -- after the first event the profile is known with the new metadata
  have hmeta : (if p.metadataUri ≠ uri then [Event.metadataUpdated agent uri] else []).foldl
      Indexed.apply x = x.put agent { p.indexed with metadataUri := uri } := by
    by_cases h : p.metadataUri = uri
    · rw [if_neg (not_not_intro h)]
      have hsame : { p.indexed with metadataUri := uri } = p.indexed := by rw [← h]; rfl
      rw [hsame]
      exact (Indexed.put_eq_self hx).symm
    · rw [if_pos h]
      exact Indexed.alter_of_some hx
  unfold AgentProfile.updateEvents
  rw [List.foldl_append, hmeta]
  by_cases h : (newController.any fun next => next ≠ p.controller) = true
  · rw [if_pos h]
    exact (Indexed.alter_of_some Indexed.put_profile).trans Indexed.put_put
  · rw [if_neg h]
    -- no new controller, or the one there was
    have hsame : newController.getD p.controller = p.controller := by
      cases newController with
      | none => rfl
      | some next => simpa using h
    unfold AgentProfile.update
    rw [hsame]
    rfl

variable {M : Missing}

/-- The events of a call carry what it stored. -/
theorem apply_effect {env : Env A Empty ProtocolError} {s s' : Store A} {c : Call A} {r : Ret A}
    {evs : List (Event A)} (h : Effect M env s c r s' evs) :
    evs.foldl Indexed.apply s.indexed = s'.indexed := by
  cases h with
  | initializeContract => rfl
  | register => exact (put_indexed _ _ _).symm
  | updateProfile live uri_ne stored =>
    rw [put_indexed]
    exact apply_updateEvents (indexed_profile stored) _ _ _
  | deactivate => exact (put_indexed _ _ _).symm
  | deactivateInactive => rfl
  | reactivate => exact (put_indexed _ _ _).symm
  | view => rfl

theorem replay_deployed (M : Missing) (pin : A) (txs : List (Tx A)) :
    (eventLog (trace (dispatch M) (deployed pin) txs)).foldl Indexed.apply .empty =
      (run (dispatch M) (deployed pin) txs).indexed :=
  replay_run (dispatch M)
    (replay_step (dispatch M) effect_of_exec fun heff => apply_effect heff) (deployed pin) txs

end Identity

/-! ## All four contracts -/

/-- **Event logs determine state**: for every run of each contract from its
constructor, folding the events it published gives exactly what it stores. -/
theorem events_determine_state {A : Type} [DecidableEq A] {M : Missing} (hM : M.ChecksInc)
    (nextRevision : Wallet.NextRevision A) (pin : A) :
    (∀ txs, (eventLog (trace (Payments.dispatch M) (Payments.deployed pin) txs)).foldl
      Payments.Indexed.apply .empty =
        (run (Payments.dispatch M) (Payments.deployed pin) txs).indexed) ∧
    (∀ txs, (eventLog (trace (Wallet.dispatch M nextRevision) (Wallet.deployed pin) txs)).foldl
      Wallet.Indexed.apply .empty =
        (run (Wallet.dispatch M nextRevision) (Wallet.deployed pin) txs).indexed) ∧
    (∀ txs, (eventLog (trace (Protocol.dispatch M) (Protocol.deployed pin) txs)).foldl
      Protocol.Indexed.apply .empty =
        (run (Protocol.dispatch M) (Protocol.deployed pin) txs).indexed) ∧
    ∀ txs, (eventLog (trace (Identity.dispatch M) (Identity.deployed pin) txs)).foldl
      Identity.Indexed.apply .empty =
        (run (Identity.dispatch M) (Identity.deployed pin) txs).indexed :=
  ⟨Payments.replay_deployed hM pin, Wallet.replay_deployed M nextRevision pin,
    Protocol.replay_deployed M pin, Identity.replay_deployed M pin⟩

/-- An indexer of payments knows that intent 1 is settled. -/
theorem events_determine_state_sample :
    ((eventLog (trace (Payments.dispatch .documented) (Payments.deployed 0)
      [Payments.Sample.initializeTx, Payments.Sample.createTx, Payments.Sample.settleTx])).foldl
        Payments.Indexed.apply .empty).intents 1 =
      some ((Payments.PaymentIntent.fresh 1 1 2 Payments.Sample.amount Payments.Sample.memo
        11).settle Payments.Sample.memo) := by
  rw [(events_determine_state Missing.documented_checksInc Wallet.Sample.nextRevision 0).1]
  decide +kernel

end LilyContracts
