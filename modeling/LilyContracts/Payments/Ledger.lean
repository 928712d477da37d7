import LilyContracts.Payments.Effects
import LilyContracts.Log
import Mathlib.Logic.Relation

/-!
# What payments is for: an append-only ledger of intents

The abstract state of payments is a list of intents in creation order. Two
things can happen to it (`LedgerStep`): a new, pending intent with the next
number is appended, and a pending intent is finalized in place, once. Nothing
is ever removed or reordered.

The contract spreads that list over a counter, a map by id and one vector per
payer. `Represents` says how, `Live` adds the keys an initialized contract
always has, and `live_after` is the simulation: every transaction on a live
contract is at most one `LedgerStep` of the list it represents. Before
`initialize` the storage holds the pin and nothing else, so `reachable` splits
every reachable state into those two.
-/

namespace LilyContracts.Payments

open Host

variable {A : Type}

/-! ## The abstract ledger -/

/-- What every record of the ledger satisfies, whatever its status. -/
structure PaymentIntent.WellFormed (i : PaymentIntent A) : Prop where
  parties_ne : i.payerAgent ≠ i.payeeAgent
  memo_ne : i.memo ≠ HostString.empty
  amount_pos : 0 < i.amount.val
  amount_le : i.amount.val ≤ maxPaymentAmount
  reference : i.status = .settled ∧ i.settlementReference ≠ HostString.empty ∨
    i.status ≠ .settled ∧ i.settlementReference = HostString.empty

/-- How a pending intent ends. -/
inductive Finalization
  | settled (settlementReference : HostString)
  | cancelled
  deriving DecidableEq

/-- The record a finalization leaves. -/
def PaymentIntent.finalize (i : PaymentIntent A) : Finalization → PaymentIntent A
  | .settled settlementReference => i.settle settlementReference
  | .cancelled => i.cancel

/-- A settlement carries a reference. -/
def Finalization.Valid (f : Finalization) : Prop :=
  f ≠ .settled HostString.empty

/-- One change of the ledger, made at ledger time `t`. -/
inductive LedgerStep (t : UInt64) : List (PaymentIntent A) → List (PaymentIntent A) → Prop
  | append {l : List (PaymentIntent A)} {i : PaymentIntent A} (number : i.id.toNat = l.length + 1)
      (pending : i.status = .pending) (stamp : i.createdAt = t) (wellFormed : i.WellFormed) :
      LedgerStep t l (l ++ [i])
  | finalize {l : List (PaymentIntent A)} {j : Nat} {i : PaymentIntent A} {f : Finalization}
      (entry : l[j]? = some i) (pending : i.status = .pending) (valid : f.Valid) :
      LedgerStep t l (l.set j (i.finalize f))

section Finalize

variable {i : PaymentIntent A} {f : Finalization}

@[simp] theorem finalize_id : (i.finalize f).id = i.id := by cases f <;> rfl

@[simp] theorem finalize_payerAgent : (i.finalize f).payerAgent = i.payerAgent := by
  cases f <;> rfl

@[simp] theorem finalize_createdAt : (i.finalize f).createdAt = i.createdAt := by cases f <;> rfl

theorem finalize_not_pending : (i.finalize f).status ≠ .pending := by cases f <;> nofun

theorem finalize_wellFormed (hi : i.WellFormed) (hp : i.status = .pending) (hf : f.Valid) :
    (i.finalize f).WellFormed := by
  have href : i.settlementReference = HostString.empty := by
    rcases hi.reference with ⟨hs, _⟩ | ⟨_, href⟩
    · rw [hp] at hs
      cases hs
    · exact href
  cases f with
  | settled ref =>
    have hne : ref ≠ HostString.empty := by
      intro h
      subst h
      exact hf rfl
    exact ⟨hi.parties_ne, hi.memo_ne, hi.amount_pos, hi.amount_le, .inl ⟨rfl, hne⟩⟩
  | cancelled =>
    exact ⟨hi.parties_ne, hi.memo_ne, hi.amount_pos, hi.amount_le, .inr ⟨nofun, href⟩⟩

/-- A new intent is a well-formed entry. -/
theorem fresh_wellFormed {id t : UInt64} {payer payee : A} {amount : I128} {memo : HostString}
    (ha : 0 < amount.val ∧ amount.val ≤ maxPaymentAmount) (hm : memo ≠ HostString.empty)
    (hne : payer ≠ payee) : (PaymentIntent.fresh id payer payee amount memo t).WellFormed :=
  ⟨hne, hm, ha.1, ha.2, .inr ⟨nofun, rfl⟩⟩

end Finalize

/-! ## How the storage represents a ledger -/

/-- The counter, the map by id and the payer vectors represent the list `l`. -/
structure Represents [DecidableEq A] (s : Store A) (l : List (PaymentIntent A)) : Prop where
  counter : ∃ n : UInt64, s.nextIntentId = some n ∧ n.toNat = l.length + 1
  lookup : ∀ k : UInt64, s.intents k = if k.toNat = 0 then none else l[k.toNat - 1]?
  index : ∀ p, s.payerIndex p = Log.index (·.id) (·.payerAgent) l p
  numbered : Log.Numbered (·.id.toNat) l
  wellFormed : ∀ i ∈ l, i.WellFormed

namespace Represents

variable [DecidableEq A] {s : Store A} {l : List (PaymentIntent A)} {k : UInt64}
  {i : PaymentIntent A}

theorem lookup_some (h : Represents s l) :
    s.intents k = some i ↔ k.toNat ≠ 0 ∧ l[k.toNat - 1]? = some i := by
  rw [h.lookup k]
  by_cases hk : k.toNat = 0
  · simp [hk]
  · simp [hk]

/-- A stored record carries the id it is stored under. -/
theorem id_eq (h : Represents s l) (hk : s.intents k = some i) : i.id = k := by
  obtain ⟨hpos, hl⟩ := h.lookup_some.mp hk
  have hid := h.numbered _ i hl
  apply UInt64.toNat_inj.mp
  dsimp only at hid
  omega

theorem mem (h : Represents s l) (hk : s.intents k = some i) : i ∈ l :=
  List.mem_of_getElem? (h.lookup_some.mp hk).2

/-- The id the counter hands out next is not in use. -/
theorem counter_fresh (h : Represents s l) (hn : s.nextIntentId = some k) :
    s.intents k = none := by
  obtain ⟨n, hn', hlen⟩ := h.counter
  obtain rfl : k = n := by simpa [hn] using hn'
  rw [h.lookup, if_neg (by omega), List.getElem?_eq_none (by omega)]

theorem append (h : Represents s l) (hid : i.id.toNat = l.length + 1) (hw : i.WellFormed)
    {next : UInt64} (hnext : next.toNat = l.length + 2) :
    Represents (s.addIntent i next) (l ++ [i]) where
  counter := ⟨next, rfl, by rw [List.length_append]; exact hnext⟩
  lookup := by
    intro k
    show Function.update s.intents i.id (some i) k = _
    by_cases hk : k = i.id
    · subst hk
      rw [Function.update_self, if_neg (by omega), hid]
      simp
    · -- the other entries keep their positions
      rw [Function.update_of_ne hk, h.lookup]
      by_cases hk0 : k.toNat = 0
      · rw [if_pos hk0, if_pos hk0]
      · rw [if_neg hk0, if_neg hk0]
        have hne : k.toNat ≠ i.id.toNat := fun he => hk (UInt64.toNat_inj.mp he)
        rcases Nat.lt_or_ge (k.toNat - 1) l.length with hlt | hge
        · rw [List.getElem?_append_left hlt]
        · rw [List.getElem?_eq_none hge, List.getElem?_eq_none (by simp; omega)]
  index := by
    intro p
    rw [Log.index_concat, ← h.index p]
    show (Function.update s.payerIntents i.payerAgent
      (some (s.payerIndex i.payerAgent ++ [i.id])) p).getD [] = _
    by_cases hp : i.payerAgent = p
    · subst hp
      rw [Function.update_self, if_pos rfl]
      rfl
    · rw [Function.update_of_ne (fun he => hp he.symm), if_neg hp]
      rfl
  numbered := Log.numbered_concat h.numbered hid
  wellFormed := by
    intro x hx
    rcases List.mem_append.mp hx with hx | hx
    · exact h.wellFormed x hx
    · obtain rfl := List.mem_singleton.mp hx
      exact hw

/-- Replacing a stored record by one with its id and payer replaces its entry. -/
theorem set (h : Represents s l) (hk : s.intents k = some i) {i' : PaymentIntent A}
    (hid : i'.id = i.id) (hpayer : i'.payerAgent = i.payerAgent) (hw : i'.WellFormed) :
    Represents (s.putIntent k i') (l.set (k.toNat - 1) i') := by
  obtain ⟨hpos, hl⟩ := h.lookup_some.mp hk
  have hlt : k.toNat - 1 < l.length := (List.getElem?_eq_some_iff.mp hl).1
  refine ⟨?_, ?_, ?_, ?_, ?_⟩
  · rw [List.length_set]
    exact h.counter
  · intro m
    show Function.update s.intents k (some i') m = _
    by_cases hm : m = k
    · subst hm
      rw [Function.update_self, if_neg hpos, List.getElem?_set_self hlt]
    · rw [Function.update_of_ne hm, h.lookup]
      have hne : m.toNat ≠ k.toNat := fun he => hm (UInt64.toNat_inj.mp he)
      by_cases hm0 : m.toNat = 0
      · rw [if_pos hm0, if_pos hm0]
      · rw [if_neg hm0, if_neg hm0, List.getElem?_set_ne (by omega)]
  · intro p
    rw [Log.index_set hl hpayer hid]
    exact h.index p
  · exact Log.numbered_set h.numbered hl (congrArg UInt64.toNat hid)
  · intro x hx
    rcases List.mem_or_eq_of_mem_set hx with hx | rfl
    · exact h.wellFormed x hx
    · exact hw

end Represents

/-! ## Reachable states -/

/-- An initialized contract whose storage represents the ledger `l`: every key
that some entry point reads without a default is present, and no guard flag is
left behind. -/
structure Live [DecidableEq A] (pin : A) (s : Store A) (l : List (PaymentIntent A)) : Prop where
  initialized : s.initialized = some true
  pinned : s.pinnedAdmin = some pin
  admin : ∃ a, s.admin = some a
  treasury : ∃ a, s.treasury = some a
  feeBps : ∃ f : UInt32, s.feeBps = some f ∧ f ≤ maxBps
  wallet : ∃ a, s.wallet = some a
  unlocked : ∀ key, s.symbols key = none
  ledger : Represents s l

section Reachable

variable [DecidableEq A] {M : Missing} {pin : A} {s : Store A} {l : List (PaymentIntent A)}

theorem Live.isSome (h : Live pin s l) : s.initialized.isSome = true := by
  rw [h.initialized]
  rfl

theorem configure_represents {admin treasury wallet : A} {feeBps : UInt32} :
    Represents ((deployed pin).configure admin treasury feeBps wallet) [] := by
  refine ⟨⟨1, rfl, by simp⟩, ?_, fun _ => rfl, Log.numbered_nil, ?_⟩
  · intro k
    rw [List.getElem?_nil, ite_self]
    rfl
  · intro i hi
    cases hi

theorem configure_live {admin treasury wallet : A} {feeBps : UInt32} (hb : feeBps ≤ maxBps) :
    Live pin ((deployed pin).configure admin treasury feeBps wallet) [] :=
  ⟨rfl, rfl, ⟨admin, rfl⟩, ⟨treasury, rfl⟩, ⟨feeBps, rfl, hb⟩, ⟨wallet, rfl⟩, fun _ => rfl,
    configure_represents⟩

/-- Before `initialize`, nothing but `initialize` changes anything. -/
theorem deployed_after (M : Missing) (pin : A) (tx : Tx A) :
    after (dispatch M) (deployed pin) tx = deployed pin ∨
    Live pin (after (dispatch M) (deployed pin) tx) [] := by
  rcases after_cases M (deployed pin) tx with ⟨_, heq⟩ | ⟨r, evs, _, heff⟩
  · exact .inl heq
  · generalize htx : tx.call = c at heff
    generalize hpost : after (dispatch M) (deployed pin) tx = s' at heff ⊢
    cases heff with
    | initializeContract signed fresh pinned bps => exact .inr (configure_live bps)
    | view reads => exact .inl rfl
    -- every other call demands the initialization flag
    | createIntent live => cases live
    | settleIntent live => cases live
    | cancelIntent live => cases live
    | setFeeBps live => cases live
    | setTreasury live => cases live
    | transferAdmin live => cases live

/-- Finalizing a stored record keeps the contract live and is one step of its
ledger. -/
theorem Live.finalize (h : Live pin s l) {k : UInt64} {i : PaymentIntent A} {f : Finalization}
    (hk : s.intents k = some i) (hp : i.status = .pending) (hf : f.Valid) (t : UInt64) :
    ∃ l', LedgerStep t l l' ∧ Live pin (s.putIntent k (i.finalize f)) l' := by
  have hw := finalize_wellFormed (h.ledger.wellFormed i (h.ledger.mem hk)) hp hf
  refine ⟨l.set (k.toNat - 1) (i.finalize f),
    .finalize (h.ledger.lookup_some.mp hk).2 hp hf, ?_⟩
  exact ⟨h.initialized, h.pinned, h.admin, h.treasury, h.feeBps, h.wallet, h.unlocked,
    h.ledger.set hk finalize_id finalize_payerAgent hw⟩

/-- **The simulation**: a transaction on a live contract leaves it live, and
takes the ledger it represents through at most one step. -/
theorem live_after (hM : M.ChecksInc) (h : Live pin s l) (tx : Tx A) :
    ∃ l', Relation.ReflGen (LedgerStep tx.env.timestamp) l l' ∧
      Live pin (after (dispatch M) s tx) l' := by
  rcases after_cases M s tx with ⟨_, heq⟩ | ⟨r, evs, _, heff⟩
  · rw [heq]
    exact ⟨l, .refl, h⟩
  · generalize htx : tx.call = c at heff
    generalize hpost : after (dispatch M) s tx = s' at heff ⊢
    cases heff with
    | initializeContract signed fresh =>
      rw [h.initialized] at fresh
      cases fresh
    | @createIntent payer payee wallet amount memo id next live ha hm hne signed hw bound hn inc =>
      -- the counter is one past the last number, and `checked_inc` did not wrap
      obtain ⟨n, hn', hlen⟩ := h.ledger.counter
      obtain rfl : id = n := by simpa [hn] using hn'
      have hnext : next.toNat = l.length + 2 := by rw [hM.toNat_eq inc, hlen]
      have hwf : (PaymentIntent.fresh id payer payee amount memo tx.env.timestamp).WellFormed :=
        fresh_wellFormed ha hm hne
      refine ⟨_, .single (.append hlen rfl rfl hwf), ?_⟩
      exact ⟨h.initialized, h.pinned, h.admin, h.treasury, h.feeBps, h.wallet, h.unlocked,
        h.ledger.append hlen hwf hnext⟩
    | @settleIntent caller id ref i live isAdmin signed ref_ne stored pending =>
      have hf : (Finalization.settled ref).Valid := fun he => ref_ne (by injection he)
      obtain ⟨l', hstep, hlive⟩ := h.finalize stored pending hf tx.env.timestamp
      exact ⟨l', .single hstep, hlive⟩
    | cancelIntent live stored signed pending =>
      have hf : Finalization.cancelled.Valid := nofun
      obtain ⟨l', hstep, hlive⟩ := h.finalize stored pending hf tx.env.timestamp
      exact ⟨l', .single hstep, hlive⟩
    -- the configuration is no part of the ledger
    | setFeeBps live bps =>
      exact ⟨l, .refl, h.initialized, h.pinned, h.admin, h.treasury, ⟨_, rfl, bps⟩, h.wallet,
        h.unlocked, h.ledger.counter, h.ledger.lookup, h.ledger.index, h.ledger.numbered,
        h.ledger.wellFormed⟩
    | setTreasury live =>
      exact ⟨l, .refl, h.initialized, h.pinned, h.admin, ⟨_, rfl⟩, h.feeBps, h.wallet,
        h.unlocked, h.ledger.counter, h.ledger.lookup, h.ledger.index, h.ledger.numbered,
        h.ledger.wellFormed⟩
    | transferAdmin live =>
      exact ⟨l, .refl, h.initialized, h.pinned, ⟨_, rfl⟩, h.treasury, h.feeBps, h.wallet,
        h.unlocked, h.ledger.counter, h.ledger.lookup, h.ledger.index, h.ledger.numbered,
        h.ledger.wellFormed⟩
    | view reads => exact ⟨l, .refl, h⟩

/-- Nothing but the pin is stored yet, or the contract is live. -/
def Reached (pin : A) (s : Store A) : Prop :=
  s = deployed pin ∨ ∃ l, Live pin s l

theorem reached_after (hM : M.ChecksInc) (h : Reached pin s) (tx : Tx A) :
    Reached pin (after (dispatch M) s tx) := by
  rcases h with rfl | ⟨l, h⟩
  · rcases deployed_after M pin tx with heq | hlive
    · exact .inl heq
    · exact .inr ⟨[], hlive⟩
  · obtain ⟨l', _, h'⟩ := live_after hM h tx
    exact .inr ⟨l', h'⟩

/-- Every state a run reaches from deployment is such a state. -/
theorem reachable (hM : M.ChecksInc) (pin : A) (txs : List (Tx A)) :
    Reached pin (run (dispatch M) (deployed pin) txs) :=
  run_invariant (fun _ tx h => reached_after hM h tx) (.inl rfl)

/-- The id the counter hands out next is not in use. -/
theorem Reached.counter_fresh (h : Reached pin s) {k : UInt64} (hk : s.nextIntentId = some k) :
    s.intents k = none := by
  rcases h with rfl | ⟨l, h⟩
  · cases hk
  · exact h.ledger.counter_fresh hk

/-- Every initialized reachable state is live. -/
theorem reachable_live (hM : M.ChecksInc) {pin : A} {txs : List (Tx A)}
    (hinit : (run (dispatch M) (deployed pin) txs).initialized.isSome = true) :
    ∃ l, Live pin (run (dispatch M) (deployed pin) txs) l := by
  rcases reachable hM pin txs with heq | hlive
  · rw [heq] at hinit
    cases hinit
  · exact hlive

end Reachable

end LilyContracts.Payments
