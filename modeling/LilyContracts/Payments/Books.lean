import LilyContracts.Payments.Ledger
import LilyContracts.Host.History
import Mathlib.Algebra.BigOperators.Group.List.Basic
import Mathlib.Algebra.Order.BigOperators.Group.List

/-!
# The books of payments

Payments moves no tokens; what it says about money is in its intents. Summed up, the
amounts of a selection of them, by payer and payee, make three accounts, one for each
status (`balance`). The events carry what is needed to keep these accounts without
looking at storage: a creation posts its amount to the account of pending payments, and
a settlement or cancellation moves it from the account that its topic names as the
prior status to the one of its new status (`Event.posting`).

`books_balance` is that such books are always right: every account that is kept from
the log of a run is the balance of the intents stored at its end, and the three together
are what was ever created. An account is empty only if the intents it is about are
absent, and of those that are finalized the balance never goes down.

Every sum over intents that events can follow is kept in the same way, and proved right
once (`Tracks.run`).
-/

namespace LilyContracts.Payments

open Host

variable {A : Type}

/-! ## Accounts -/

/-- The intents in the order of their ids. -/
def Store.recorded (s : Store A) : List (PaymentIntent A) :=
  (List.range ((s.nextIntentId.elim 0 UInt64.toNat) - 1)).filterMap fun j =>
    s.intents (UInt64.ofNat (j + 1))

/-- The intent counts for the selection. -/
def PaymentIntent.selected (sel : A → A → Bool) (i : PaymentIntent A) : Bool :=
  sel i.payerAgent i.payeeAgent

/-- What the intent contributes to the account of a status. -/
def PaymentIntent.entry (sel : A → A → Bool) (st : PaymentStatus) (i : PaymentIntent A) : Int :=
  if i.selected sel = true ∧ i.status = st then i.amount.val else 0

/-- What it contributes, whatever its status. -/
def PaymentIntent.turnover (sel : A → A → Bool) (i : PaymentIntent A) : Int :=
  if i.selected sel = true then i.amount.val else 0

/-- The balance of the account of a status. -/
def balance (sel : A → A → Bool) (st : PaymentStatus) (l : List (PaymentIntent A)) : Int :=
  (l.map (·.entry sel st)).sum

namespace Event

/-- What an event posts to the account of a status. -/
def posting (sel : A → A → Bool) (st : PaymentStatus) : Event A → Int
  | .create _ i => i.entry sel st
  | .settle _ prior i | .cancel _ prior i =>
    i.entry sel st - if paymentStatusSymbol st = prior then i.turnover sel else 0
  | _ => 0

/-- What an event says was created. -/
def created (sel : A → A → Bool) : Event A → Int
  | .create _ i => i.turnover sel
  | _ => 0

end Event

/-! ## Sums that events follow -/

/-- The events of a call say by how much it changes a sum over the intents. -/
structure Tracks (f : PaymentIntent A → Int) (w : Event A → Int) : Prop where
  create : ∀ id i, i.status = .pending → w (.create id i) = f i
  settle : ∀ id ref i, i.status = .pending →
    w (.settle id (paymentStatusSymbol .pending) (i.settle ref)) = f (i.settle ref) - f i
  cancel : ∀ id i, i.status = .pending →
    w (.cancel id (paymentStatusSymbol .pending) i.cancel) = f i.cancel - f i
  init : ∀ admin config, w (.init admin config) = 0
  fee : ∀ admin feeBps, w (.fee admin feeBps) = 0
  treasury : ∀ admin treasury, w (.treasury admin treasury) = 0
  admin : ∀ admin newAdmin, w (.admin admin newAdmin) = 0

theorem sum_set {f : PaymentIntent A → Int} {l : List (PaymentIntent A)} {j : Nat}
    {i i' : PaymentIntent A} (hj : l[j]? = some i) :
    ((l.set j i').map f).sum = (l.map f).sum + (f i' - f i) := by
  obtain ⟨hlt, rfl⟩ := List.getElem?_eq_some_iff.mp hj
  rw [List.map_set, List.sum_set', dif_pos (by simpa using hlt), List.getElem_map]
  omega

/-- Reading a list off by position. -/
theorem filterMap_range {α : Type} (l : List α) :
    ((List.range l.length).filterMap fun j => l[j]?) = l := by
  induction l with
  | nil => rfl
  | cons a l ih =>
    rw [List.length_cons, List.range_succ_eq_map, List.filterMap_cons]
    show a :: List.filterMap _ (List.map Nat.succ (List.range l.length)) = a :: l
    rw [List.filterMap_map]
    exact congrArg _ ih

section Representation

variable [DecidableEq A] {s : Store A} {l : List (PaymentIntent A)}

/-- The recorded intents are the ledger. -/
theorem Represents.recorded (h : Represents s l) : s.recorded = l := by
  obtain ⟨n, hn, hlen⟩ := h.counter
  have hbound : n.toNat < 2 ^ 64 := n.toNat_lt
  have hread : ∀ j ∈ List.range l.length, s.intents (UInt64.ofNat (j + 1)) = l[j]? := by
    intro j hj
    have hlt : j < l.length := List.mem_range.mp hj
    have hid : (UInt64.ofNat (j + 1)).toNat = j + 1 := UInt64.toNat_ofNat_of_lt' (by
      show j + 1 < 2 ^ 64
      omega)
    rw [h.lookup, hid, if_neg (by omega)]
    rfl
  unfold Store.recorded
  rw [hn, show (some n).elim 0 UInt64.toNat - 1 = l.length by
    show n.toNat - 1 = l.length
    omega, List.filterMap_congr hread]
  exact filterMap_range l

/-- There is but one ledger that a storage represents. -/
theorem Represents.unique {l' : List (PaymentIntent A)} (h : Represents s l)
    (h' : Represents s l') : l = l' :=
  h.recorded.symm.trans h'.recorded

/-- The ledger is in the counter, the records and the index. -/
theorem Represents.of_eq {s' : Store A} (h : Represents s l)
    (hcounter : s'.nextIntentId = s.nextIntentId) (hintents : s'.intents = s.intents)
    (hindex : s'.payerIntents = s.payerIntents) : Represents s' l where
  counter := by
    rw [hcounter]
    exact h.counter
  lookup := by
    rw [hintents]
    exact h.lookup
  index := by
    unfold Store.payerIndex
    rw [hindex]
    exact h.index
  numbered := h.numbered
  wellFormed := h.wellFormed

/-- A reachable state and its ledger, which is empty before initialization. -/
inductive Ledger (pin : A) : Store A → List (PaymentIntent A) → Prop
  | deployed : Ledger pin (deployed pin) []
  | live {s : Store A} {l : List (PaymentIntent A)} (h : Live pin s l) : Ledger pin s l

theorem Ledger.recorded {pin : A} (h : Ledger pin s l) : s.recorded = l := by
  cases h with
  | deployed => rfl
  | live h => exact h.ledger.recorded

end Representation

section Runs

variable [DecidableEq A] {M : Missing} {pin : A} {s : Store A} {l : List (PaymentIntent A)}
  {f : PaymentIntent A → Int} {w : Event A → Int}

/-- The first call that leaves anything initializes the contract, with no intents. -/
theorem Tracks.deployed_effect (hw : Tracks f w) {env : Env A (Query A) ProtocolError}
    {c : Call A} {r : Ret A} {s' : Store A} {evs : List (Event A)}
    (heff : Effect M env (deployed pin) c r s' evs) (hs' : s' = deployed pin ∨ Live pin s' []) :
    Ledger pin s' [] ∧ (evs.map w).sum = 0 := by
  cases heff with
  | initializeContract =>
    rcases hs' with heq | hlive
    · cases congrArg Store.initialized heq
    · refine ⟨.live hlive, ?_⟩
      rw [List.map_singleton, List.sum_singleton, hw.init]
  | view => exact ⟨.deployed, rfl⟩
  -- every other call demands the initialization flag
  | createIntent live => cases live
  | settleIntent live => cases live
  | cancelIntent live => cases live
  | setFeeBps live => cases live
  | setTreasury live => cases live
  | transferAdmin live => cases live

/-- A call to the initialized contract: the sum changes by what its events say. -/
theorem Tracks.live_effect (hw : Tracks f w) (hInc : M.ChecksInc)
    {env : Env A (Query A) ProtocolError} {c : Call A} {r : Ret A} {s' : Store A}
    {evs : List (Event A)} {l' : List (PaymentIntent A)} (h : Live pin s l)
    (heff : Effect M env s c r s' evs) (hrep : Represents s' l') :
    (l'.map f).sum = (l.map f).sum + (evs.map w).sum := by
  cases heff with
  | initializeContract signed fresh =>
    rw [h.initialized] at fresh
    cases fresh
  | @createIntent payer payee wallet amount memo id next _ ha hm hne _ _ _ hn inc =>
    obtain ⟨n, hn', hlen⟩ := h.ledger.counter
    obtain rfl : id = n := Option.some.inj (hn.symm.trans hn')
    obtain rfl : l' = l ++ [.fresh id payer payee amount memo env.timestamp] :=
      hrep.unique (h.ledger.append hlen (fresh_wellFormed ha hm hne)
        (by rw [hInc.toNat_eq inc, hlen]))
    rw [List.map_append, List.sum_append, List.map_singleton, List.map_singleton,
      List.sum_singleton, List.sum_singleton, hw.create _ _ rfl]
  | @settleIntent caller id ref i _ _ _ ref_ne stored pending =>
    have hwf : (i.settle ref).WellFormed :=
      finalize_wellFormed (f := .settled ref) (h.ledger.wellFormed i (h.ledger.mem stored))
        pending (fun he => ref_ne (by injection he))
    obtain rfl : l' = l.set (id.toNat - 1) (i.settle ref) :=
      hrep.unique (h.ledger.set stored rfl rfl hwf)
    rw [sum_set (h.ledger.lookup_some.mp stored).2, List.map_singleton, List.sum_singleton,
      hw.settle _ _ _ pending]
  | @cancelIntent id i _ stored signed pending =>
    have hwf : i.cancel.WellFormed :=
      finalize_wellFormed (f := .cancelled) (h.ledger.wellFormed i (h.ledger.mem stored))
        pending nofun
    obtain rfl : l' = l.set (id.toNat - 1) i.cancel :=
      hrep.unique (h.ledger.set stored rfl rfl hwf)
    rw [sum_set (h.ledger.lookup_some.mp stored).2, List.map_singleton, List.sum_singleton,
      hw.cancel _ _ pending]
  | setFeeBps =>
    obtain rfl : l' = l := hrep.unique (h.ledger.of_eq rfl rfl rfl)
    rw [List.map_singleton, List.sum_singleton, hw.fee, add_zero]
  | setTreasury =>
    obtain rfl : l' = l := hrep.unique (h.ledger.of_eq rfl rfl rfl)
    rw [List.map_singleton, List.sum_singleton, hw.treasury, add_zero]
  | transferAdmin =>
    obtain rfl : l' = l := hrep.unique (h.ledger.of_eq rfl rfl rfl)
    rw [List.map_singleton, List.sum_singleton, hw.admin, add_zero]
  | view =>
    obtain rfl : l' = l := hrep.unique h.ledger
    exact (add_zero _).symm

/-- The step rule. -/
theorem Tracks.step (hw : Tracks f w) (hInc : M.ChecksInc) (h : Ledger pin s l) (tx : Tx A) :
    ∃ l', Ledger pin (after (dispatch M) s tx) l' ∧
      (l'.map f).sum =
        (l.map f).sum + ((stepOf (dispatch M) s tx).out.events.map w).sum := by
  rcases stepOf_publishes effect_of_exec s tx with ⟨_, heq, hnil⟩ | ⟨r, _, heff⟩
  · rw [heq, hnil]
    exact ⟨l, h, (add_zero _).symm⟩
  · cases h with
    | deployed =>
      obtain ⟨hledger, hsum⟩ := hw.deployed_effect heff (deployed_after M pin tx)
      rw [hsum]
      exact ⟨[], hledger, rfl⟩
    | live h =>
      obtain ⟨l', _, hlive⟩ := live_after hInc h tx
      exact ⟨l', .live hlive, hw.live_effect hInc h heff hlive.ledger⟩

/-- **The sum is kept by the log**: what the events of a run add up to is the sum over
the intents recorded at its end. -/
theorem Tracks.run (hw : Tracks f w) (hInc : M.ChecksInc) (pin : A) (txs : List (Tx A)) :
    ((eventLog (trace (dispatch M) (deployed pin) txs)).map w).sum =
      ((run (dispatch M) (deployed pin) txs).recorded.map f).sum := by
  have hstep : ∀ s (tx : Tx A), (∃ l, Ledger pin s l) →
      (∃ l, Ledger pin (after (dispatch M) s tx) l) ∧
        ((after (dispatch M) s tx).recorded.map f).sum =
          (s.recorded.map f).sum + ((stepOf (dispatch M) s tx).out.events.map w).sum := by
    intro s tx h
    obtain ⟨l, hl⟩ := h
    obtain ⟨l', hl', hsum⟩ := hw.step hInc hl tx
    rw [hl'.recorded, hl.recorded]
    exact ⟨⟨l', hl'⟩, hsum⟩
  have htally := tally_run (m := fun s : Store A => (s.recorded.map f).sum) hstep
    ⟨[], .deployed⟩ txs
  exact (zero_add _).symm.trans htally.symm

/-! ## The three accounts -/

omit [DecidableEq A] in
/-- The topic of a finalization names the account its amount comes from. -/
theorem entry_of_pending {sel : A → A → Bool} {st : PaymentStatus} {i : PaymentIntent A}
    (pending : i.status = .pending) :
    i.entry sel st =
      if paymentStatusSymbol st = paymentStatusSymbol .pending then i.turnover sel else 0 := by
  unfold PaymentIntent.entry PaymentIntent.turnover
  rw [pending]
  cases st with
  | pending => rw [if_pos rfl]; simp
  | settled => rw [if_neg (by simp), if_neg (by decide)]
  | cancelled => rw [if_neg (by simp), if_neg (by decide)]

omit [DecidableEq A] in
theorem tracks_posting (sel : A → A → Bool) (st : PaymentStatus) :
    Tracks (A := A) (·.entry sel st) (Event.posting sel st) where
  create _ _ _ := rfl
  settle _ ref i pending := by
    rw [entry_of_pending pending]
    rfl
  cancel _ i pending := by
    rw [entry_of_pending pending]
    rfl
  init _ _ := rfl
  fee _ _ := rfl
  treasury _ _ := rfl
  admin _ _ := rfl

omit [DecidableEq A] in
theorem tracks_created (sel : A → A → Bool) :
    Tracks (A := A) (·.turnover sel) (Event.created sel) where
  create _ _ _ := rfl
  settle _ _ _ _ := (Int.sub_self _).symm
  cancel _ _ _ := (Int.sub_self _).symm
  init _ _ := rfl
  fee _ _ := rfl
  treasury _ _ := rfl
  admin _ _ := rfl

omit [DecidableEq A] in
/-- Every intent is on one of the accounts. -/
theorem balance_add (sel : A → A → Bool) (l : List (PaymentIntent A)) :
    balance sel .pending l + balance sel .settled l + balance sel .cancelled l =
      (l.map (·.turnover sel)).sum := by
  unfold balance
  rw [← List.sum_map_add, ← List.sum_map_add]
  congr 1
  refine List.map_congr_left fun i _ => ?_
  unfold PaymentIntent.entry PaymentIntent.turnover
  cases i.status <;> simp

omit [DecidableEq A] in
/-- No account is overdrawn, and only an account of nothing is empty. -/
theorem balance_eq_zero_iff (sel : A → A → Bool) (st : PaymentStatus)
    (hpos : ∀ i ∈ l, 0 < i.amount.val) :
    0 ≤ balance sel st l ∧
      (balance sel st l = 0 ↔ ∀ i ∈ l, i.selected sel = true → i.status ≠ st) := by
  induction l with
  | nil => exact ⟨le_rfl, by simp [balance]⟩
  | cons i l ih =>
    obtain ⟨hi, hl⟩ := List.forall_mem_cons.mp hpos
    obtain ⟨hnonneg, hzero⟩ := ih hl
    have hcons : balance sel st (i :: l) = i.entry sel st + balance sel st l := List.sum_cons
    rw [hcons, List.forall_mem_cons, ← hzero]
    unfold PaymentIntent.entry
    split
    next h => exact ⟨by omega, fun he => by omega, fun hall => absurd h.2 (hall.1 h.1)⟩
    next h =>
      refine ⟨by omega, ?_, fun hall => by omega⟩
      intro he
      exact ⟨fun hsel hst => h ⟨hsel, hst⟩, by omega⟩

omit [DecidableEq A] in
/-- What is finalized stays on its account. -/
theorem balance_mono {sel : A → A → Bool} {st : PaymentStatus} (hst : st ≠ .pending)
    (hpos : ∀ i ∈ l, 0 < i.amount.val) {t : UInt64} {l' : List (PaymentIntent A)}
    (h : LedgerStep t l l') : balance sel st l ≤ balance sel st l' := by
  have hnone : ∀ {i : PaymentIntent A}, i.status = .pending → i.entry sel st = 0 := by
    intro i hp
    unfold PaymentIntent.entry
    rw [if_neg (fun hand => hst (hand.2.symm.trans hp))]
  unfold balance
  cases h with
  | append number pending =>
    rw [List.map_append, List.sum_append, List.map_singleton, List.sum_singleton, hnone pending]
    omega
  | @finalize j i f entry pending =>
    have hamount : (i.finalize f).amount.val = i.amount.val := by cases f <;> rfl
    have hi := hpos i (List.mem_of_getElem? entry)
    rw [sum_set entry, hnone pending]
    unfold PaymentIntent.entry
    split <;> omega

theorem Ledger.mem_iff (h : Ledger pin s l) {i : PaymentIntent A} :
    i ∈ l ↔ ∃ k, s.intents k = some i := by
  cases h with
  | deployed => exact ⟨nofun, fun hk => nomatch hk.choose_spec⟩
  | live h =>
    constructor
    · intro hi
      obtain ⟨j, hj⟩ := List.mem_iff_getElem?.mp hi
      have hid : i.id.toNat = j + 1 := h.ledger.numbered j i hj
      refine ⟨i.id, h.ledger.lookup_some.mpr ⟨by omega, ?_⟩⟩
      rw [show i.id.toNat - 1 = j by omega]
      exact hj
    · intro hk
      obtain ⟨k, hk⟩ := hk
      exact h.ledger.mem hk

theorem Ledger.amount_pos (h : Ledger pin s l) : ∀ i ∈ l, 0 < i.amount.val := by
  cases h with
  | deployed => exact List.forall_mem_nil _
  | live h => exact fun i hi => (h.ledger.wellFormed i hi).amount_pos

/-- What is finalized stays on its account, over any run. -/
theorem balance_run (hInc : M.ChecksInc) {sel : A → A → Bool} {st : PaymentStatus}
    (hst : st ≠ .pending) (h : Ledger pin s l) (txs : List (Tx A)) :
    balance sel st l ≤ balance sel st (run (dispatch M) s txs).recorded := by
  have hrun : ∃ l', Ledger pin (run (dispatch M) s txs) l' ∧
      balance sel st l ≤ balance sel st l' := by
    refine run_invariant (I := fun s' => ∃ l', Ledger pin s' l' ∧
      balance sel st l ≤ balance sel st l') ?_ ⟨l, h, le_rfl⟩
    intro s' tx h'
    obtain ⟨l', hl', hle⟩ := h'
    cases hl' with
    | deployed =>
      rcases deployed_after M pin tx with heq | hlive
      · rw [heq]
        exact ⟨[], .deployed, hle⟩
      · exact ⟨[], .live hlive, hle⟩
    | live hl' =>
      obtain ⟨l₂, hstep, hlive⟩ := live_after hInc hl' tx
      refine ⟨l₂, .live hlive, hle.trans ?_⟩
      rcases hstep with _ | hstep
      · exact le_rfl
      · exact balance_mono hst (fun i hi => (hl'.ledger.wellFormed i hi).amount_pos) hstep
  obtain ⟨l', hl', hle⟩ := hrun
  rw [hl'.recorded]
  exact hle

theorem ledger_run (hInc : M.ChecksInc) (pin : A) (txs : List (Tx A)) :
    ∃ l, Ledger pin (run (dispatch M) (deployed pin) txs) l := by
  rcases reachable hInc pin txs with heq | ⟨l, h⟩
  · rw [heq]
    exact ⟨[], .deployed⟩
  · exact ⟨l, .live h⟩

/-- **The books balance**: for every run and every selection of payments by payer and
payee, the postings of the event log add up, account by account, to the amounts of the
intents stored at the end, and the creations in the log to all three accounts together.
No account is overdrawn, one is empty exactly if it is the account of no intent, and
those of settled and of cancelled payments never go down. -/
theorem books_balance (hInc : M.ChecksInc) (pin : A) (txs : List (Tx A)) (sel : A → A → Bool) :
    let s := run (dispatch M) (deployed pin) txs
    let log := eventLog (trace (dispatch M) (deployed pin) txs)
    (∀ st, (log.map (Event.posting sel st)).sum = balance sel st s.recorded) ∧
    (log.map (Event.created sel)).sum = balance sel .pending s.recorded +
      balance sel .settled s.recorded + balance sel .cancelled s.recorded ∧
    (∀ st, 0 ≤ balance sel st s.recorded ∧ (balance sel st s.recorded = 0 ↔
      ∀ k i, s.intents k = some i → i.selected sel = true → i.status ≠ st)) ∧
    ∀ st, st ≠ .pending → ∀ later : List (Tx A),
      balance sel st s.recorded ≤ balance sel st (run (dispatch M) s later).recorded := by
  intro s log
  obtain ⟨l, hl⟩ := ledger_run (M := M) hInc pin txs
  have hrec : s.recorded = l := hl.recorded
  refine ⟨fun st => (tracks_posting sel st).run hInc pin txs, ?_, fun st => ?_, ?_⟩
  · rw [balance_add]
    exact (tracks_created sel).run hInc pin txs
  · rw [hrec]
    obtain ⟨hnonneg, hzero⟩ := balance_eq_zero_iff sel st hl.amount_pos
    refine ⟨hnonneg, hzero.trans ⟨fun hall k i hk => hall i (hl.mem_iff.mpr ⟨k, hk⟩), ?_⟩⟩
    intro hall i hi
    obtain ⟨k, hk⟩ := hl.mem_iff.mp hi
    exact hall k i hk
  · intro st hst later
    rw [hrec]
    exact balance_run hInc hst hl later

end Runs

/-- Agent 1 has created two payments of 100, of which one is settled. -/
theorem books_balance_sample :
    let s := run (dispatch .documented) (deployed 0)
      [Sample.initializeTx, Sample.createTx, Sample.createTx, Sample.settleTx]
    balance (fun payer _ => payer == 1) .pending s.recorded = 100 ∧
      balance (fun payer _ => payer == 1) .settled s.recorded = 100 ∧
      ∀ later, 100 ≤ balance (fun payer _ => payer == 1) .settled
        (run (dispatch .documented) s later).recorded := by
  obtain ⟨_, _, _, hmono⟩ := books_balance Missing.documented_checksInc 0
    [Sample.initializeTx, Sample.createTx, Sample.createTx, Sample.settleTx]
    (fun payer _ => payer == 1)
  have hsettled : balance (fun payer _ => payer == 1) .settled (run (dispatch .documented)
      (deployed 0) [Sample.initializeTx, Sample.createTx, Sample.createTx,
        Sample.settleTx]).recorded = 100 := by decide +kernel
  refine ⟨by decide +kernel, hsettled, fun later => ?_⟩
  rw [← hsettled]
  exact hmono .settled nofun later

end LilyContracts.Payments
