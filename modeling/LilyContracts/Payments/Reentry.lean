import LilyContracts.Payments.Landing

/-!
# Payments on a host that permits reentry

The guards of `settle_intent` and `cancel_intent` are meant for a host that lets
other invocations of the contract run inside a frame. `Host/Reentry.lean` is
such a host: at every signature check and every query any nest of further calls
may run before the frame goes on.

Every payments call writes only after its last interaction (`allLanded`), so a
frame is exactly what it read before that interaction and the storage it finds
after it. `settle_intent` reads its record after its signature check: it is safe
anywhere. Two calls act on what they read before:

* `cancel_intent` checks and writes back the record it read before the payer's
  signature check, and takes its guard only afterwards. A settlement that
  finishes inside that check is overwritten.
* `initialize` checks the initialization flag between its two signature checks
  and writes after the second. An `initialize` that finishes inside the second
  one, with intents created since, has its counter reset, and the next intents
  overwrite the first ones.

`cancel_overwrites_settlement` runs both. `single_finalization` says that
nothing else goes wrong: in every nested run in which neither of the two resumes
on a stale view (`Timely`), an intent is finalized at most once and a finalized
intent is never changed, except by undoing a failed frame.
-/

namespace LilyContracts.Payments

open Host

variable {A : Type}

/-! ## Finalizations of a nested run -/

/-- The suspended and finished frames of the contract. -/
abbrev Nest (A : Type) :=
  Config (Store A) A (Query A) (Event A) ProtocolError (Call A) (Ret A)

/-- An action of a nested run. -/
abbrev Action (A : Type) := Host.Action A (Query A) ProtocolError (Call A)

/-- How the invocations of `k` that returned and were not undone ended it,
oldest first. -/
def endings (k : UInt64) (log : List (Call A × Ret A)) : List Finalization :=
  log.filterMap fun entry => entry.1.finalizes k

theorem endings_concat_none {k : UInt64} {log : List (Call A × Ret A)} {c : Call A} {r : Ret A}
    (h : c.finalizes k = none) : endings k (log ++ [(c, r)]) = endings k log := by
  simp [endings, List.filterMap_append, h]

theorem endings_concat_some {k : UInt64} {log : List (Call A × Ret A)} {c : Call A} {r : Ret A}
    {f : Finalization} (h : c.finalizes k = some f) :
    endings k (log ++ [(c, r)]) = endings k log ++ [f] := by
  simp [endings, List.filterMap_append, h]

/-- What the guards are for. Whatever of the run has been played, at most one
`settle_intent` or `cancel_intent` of an intent has succeeded and not been
undone; and an action that does not roll a frame back leaves every settled or
cancelled record as it is. -/
structure FinalizesOnce [DecidableEq A] (M : Missing) (cfg : Nest A) (acts : List (Action A)) :
    Prop where
  once : ∀ l₁ l₂, acts = l₁ ++ l₂ → ∀ k,
    (endings k (cfg.play (dispatch M) l₁).world.log).length ≤ 1
  frozen : ∀ l₁ act l₂, acts = l₁ ++ act :: l₂ → ∀ k i,
    (cfg.play (dispatch M) l₁).world.frame.store.intents k = some i → i.status ≠ .pending →
    ¬ (cfg.play (dispatch M) l₁).RollsBack (dispatch M) act →
    ((cfg.play (dispatch M) l₁).step (dispatch M) act).world.frame.store.intents k = some i

/-- A call may resume: a `cancel_intent` that read a pending record and has its
payer's signature finds the stored record still pending, and an `initialize`
past its second signature check finds a counter that has not moved. -/
def Call.Timely (env : Env A (Query A) ProtocolError) (point : Nat) (seen s : Store A) :
    Call A → Prop
  | .cancelIntent id =>
    (∃ i, i ∈ seen.intents id ∧ i.status = .pending ∧ env.signs i.payerAgent = true) →
      ∃ i, i ∈ s.intents id ∧ i.status = .pending
  | .initializeContract .. =>
    point = 2 → s.nextIntentId = none ∨ s.nextIntentId = some 1
  | _ => True

instance (env : Env A (Query A) ProtocolError) (point : Nat) (seen s : Store A) (c : Call A) :
    Decidable (c.Timely env point seen s) := by
  cases c <;> first
    | exact .isTrue trivial
    | exact inferInstanceAs (Decidable (_ → _))

/-- The condition on every resumption of a nested run. -/
abbrev Timely (tx : Tx A) (point : Nat) (seen s : Store A) : Prop :=
  tx.call.Timely tx.env point seen s

/-! ## The invariant -/

/-- The counter is ahead of every record, no intent has ended twice, and one
whose record is absent or pending has not ended. -/
structure Consistent (s : Store A) (log : List (Call A × Ret A)) : Prop where
  ahead : ∀ k, (∀ n, s.nextIntentId = some n → n.toNat ≤ k.toNat) → s.intents k = none
  once : ∀ k, (endings k log).length ≤ 1
  unended : ∀ k, (∀ i, s.intents k = some i → i.status = .pending) → endings k log = []

namespace Consistent

variable {s : Store A} {log : List (Call A × Ret A)} {c : Call A} {r : Ret A} {id : UInt64}
  {i j : PaymentIntent A}

/-- The number the counter hands out next is free. -/
theorem absent (h : Consistent s log) (counter : s.nextIntentId = some id) :
    s.intents id = none := by
  refine h.ahead id fun n hn => ?_
  rw [counter] at hn
  cases hn
  exact Nat.le_refl _

/-- Finalizing a pending record, by whatever record the frame writes. -/
theorem finalize (h : Consistent s log) {f : Finalization} (stored : s.intents id = some j)
    (pending : j.status = .pending) (hi : i.status ≠ .pending)
    (hc : ∀ k, c.finalizes k = if id = k then some f else none) :
    Consistent (s.putIntent id i) (log ++ [(c, r)]) := by
  have hnone : endings id log = [] := by
    refine h.unended id fun i' hi' => ?_
    rw [stored] at hi'
    cases hi'
    exact pending
  refine ⟨?_, ?_, ?_⟩
  · intro k hk
    have habs : s.intents k = none := h.ahead k hk
    -- the finalized record was stored, so the counter is ahead of it as well
    have hne : k ≠ id := by
      intro he
      rw [he, stored] at habs
      cases habs
    show Function.update s.intents id (some i) k = none
    rw [Function.update_of_ne hne, habs]
  · intro k
    by_cases hk : id = k
    · subst hk
      rw [endings_concat_some ((hc id).trans (if_pos rfl)), hnone]
      exact Nat.le_refl 1
    · rw [endings_concat_none ((hc k).trans (if_neg hk))]
      exact h.once k
  · intro k hp
    by_cases hk : id = k
    · subst hk
      exact absurd (hp i (Function.update_self ..)) hi
    · rw [endings_concat_none ((hc k).trans (if_neg hk))]
      refine h.unended k fun i' hi' => hp i' ?_
      show Function.update s.intents id (some i) k = some i'
      rw [Function.update_of_ne (fun he => hk he.symm), hi']

/-- Appending a record under the number the counter holds. -/
theorem create [DecidableEq A] {M : Missing} (hM : M.ChecksInc) (h : Consistent s log)
    {next : UInt64} (counter : s.nextIntentId = some i.id) (inc : M.checkedInc i.id = .ok next)
    (hc : ∀ k, c.finalizes k = none) :
    Consistent (s.addIntent i next) (log ++ [(c, r)]) := by
  have hnext : next.toNat = i.id.toNat + 1 := hM.toNat_eq inc
  refine ⟨?_, ?_, ?_⟩
  · intro k hk
    have hle := hk _ rfl
    have hne : k ≠ i.id := by
      intro he
      rw [he] at hle
      omega
    have habs : s.intents k = none := by
      refine h.ahead k fun n hn => ?_
      rw [counter] at hn
      cases hn
      omega
    show Function.update s.intents i.id (some i) k = none
    rw [Function.update_of_ne hne, habs]
  · intro k
    rw [endings_concat_none (hc k)]
    exact h.once k
  · intro k hp
    rw [endings_concat_none (hc k)]
    refine h.unended k fun i' hi' => ?_
    by_cases hk : k = i.id
    · rw [hk, h.absent counter] at hi'
      cases hi'
    · refine hp i' ?_
      show Function.update s.intents i.id (some i) k = some i'
      rw [Function.update_of_ne hk, hi']

/-- Initializing with a counter that has not moved. -/
theorem configure (h : Consistent s log) {admin treasury wallet : A} {feeBps : UInt32}
    (counter : s.nextIntentId = none ∨ s.nextIntentId = some 1)
    (hc : ∀ k, c.finalizes k = none) :
    Consistent (s.configure admin treasury feeBps wallet) (log ++ [(c, r)]) := by
  refine ⟨?_, ?_, ?_⟩
  · intro k hk
    have hone := hk 1 rfl
    refine h.ahead k fun n hn => ?_
    rcases counter with hnone | hsome
    · rw [hnone] at hn
      cases hn
    · rw [hsome] at hn
      cases hn
      exact hone
  · intro k
    rw [endings_concat_none (hc k)]
    exact h.once k
  · intro k hp
    rw [endings_concat_none (hc k)]
    exact h.unended k hp

/-- A call that touches neither records nor counter. -/
theorem other (h : Consistent s log) {s' : Store A} (intents : s'.intents = s.intents)
    (counter : s'.nextIntentId = s.nextIntentId) (hc : ∀ k, c.finalizes k = none) :
    Consistent s' (log ++ [(c, r)]) := by
  refine ⟨?_, ?_, ?_⟩
  · rw [intents, counter]
    exact h.ahead
  · intro k
    rw [endings_concat_none (hc k)]
    exact h.once k
  · rw [intents]
    intro k hp
    rw [endings_concat_none (hc k)]
    exact h.unended k hp

end Consistent

/-! ## Timely runs finalize once -/

section Runs

variable {M : Missing} {tx : Tx A} {n : Nat} {seen s s' : Store A} {r : Ret A}
  {log : List (Call A × Ret A)}

/-- A timely `cancel_intent` finds a pending record where it writes. -/
theorem cancel_timely {id : UInt64} {i : PaymentIntent A} (hP : Timely tx n seen s)
    (call : tx.call = .cancelIntent id) (read : seen.intents id = some i)
    (pending : i.status = .pending) (signed : tx.env.signs i.payerAgent = true) :
    ∃ j, s.intents id = some j ∧ j.status = .pending := by
  unfold Timely at hP
  rw [call] at hP
  exact hP ⟨i, read, pending, signed⟩

theorem initialize_timely {admin treasury wallet : A} {feeBps : UInt32}
    (hP : Timely tx 2 seen s)
    (call : tx.call = .initializeContract admin treasury feeBps wallet) :
    s.nextIntentId = none ∨ s.nextIntentId = some 1 := by
  unfold Timely at hP
  rw [call] at hP
  exact hP rfl

variable [DecidableEq A]

/-- A timely landing keeps the invariant. -/
theorem consistent_landed (hM : M.ChecksInc) (h : Consistent s log)
    (hland : Landed M tx n seen s r s') (hP : n ≠ 0 → Timely tx n seen s) :
    Consistent s' (log ++ [(tx.call, r)]) := by
  cases hland with
  | initializeContract call second fresh =>
    subst second
    refine h.configure (initialize_timely (hP nofun) call) fun k => ?_
    rw [call]
    rfl
  | createIntent call counter inc =>
    refine h.create hM counter inc fun k => ?_
    rw [call]
    rfl
  | @settleIntent caller id ref i call stored pending =>
    refine h.finalize (f := .settled ref) stored pending nofun fun k => ?_
    rw [call]
    rfl
  | cancelIntent call first read pending signed =>
    subst first
    obtain ⟨j, hj, hjp⟩ := cancel_timely (hP nofun) call read pending signed
    refine h.finalize (f := .cancelled) hj hjp nofun fun k => ?_
    rw [call]
    rfl
  | other call creates same => exact h.other same.intents same.counter call

/-- A timely landing leaves a finalized record alone. -/
theorem frozen_landed (h : Consistent s log) (hland : Landed M tx n seen s r s')
    (hP : n ≠ 0 → Timely tx n seen s) {k : UInt64} {i : PaymentIntent A}
    (hk : s.intents k = some i) (hi : i.status ≠ .pending) : s'.intents k = some i := by
  -- whatever is overwritten is absent or pending, so it is not `k`
  have hput : ∀ {id : UInt64} {i' : PaymentIntent A},
      (∀ j, s.intents id = some j → j.status = .pending) →
      Function.update s.intents id (some i') k = some i := by
    intro id i' hid
    have hne : k ≠ id := by
      intro he
      rw [he] at hk
      exact hi (hid i hk)
    rw [Function.update_of_ne hne, hk]
  cases hland with
  | initializeContract => exact hk
  | @createIntent payer payee amount memo id next call counter inc =>
    refine hput fun j hj => ?_
    have hnone : s.intents id = some j := hj
    rw [h.absent counter] at hnone
    cases hnone
  | @settleIntent caller id ref i₀ call stored pending =>
    refine hput fun j hj => ?_
    rw [stored] at hj
    cases hj
    exact pending
  | @cancelIntent id i₀ call first read pending signed =>
    subst first
    obtain ⟨j₀, hj₀, hjp⟩ := cancel_timely (hP nofun) call read pending signed
    refine hput fun j hj => ?_
    rw [hj₀] at hj
    cases hj
    exact hjp
  | other call creates same =>
    rw [same.intents]
    exact hk

/-- The invariant holds of everything a timely nested run can come back to. -/
theorem keeps_timely (hM : M.ChecksInc) (pin : A) {acts : List (Action A)}
    (hP : (Config.start (deployed pin) : Nest A).PermitsAll (dispatch M) Timely acts) :
    ((Config.start (deployed pin) : Nest A).play (dispatch M) acts).Keeps (Landed M)
      Consistent := by
  refine keeps_play allLanded (fun h hland hn => consistent_landed hM h hland hn) ?_ hP
  exact keeps_start ⟨fun _ _ => rfl, fun _ => Nat.zero_le 1, fun _ _ => rfl⟩

/-- **Single finalization**: along every nested run of the deployed contract, of
whatever shape, in which no `cancel_intent` and no `initialize` resumes on a
stale view, every intent is finalized at most once and stays as it was
finalized. -/
theorem single_finalization (hM : M.ChecksInc) (pin : A) (acts : List (Action A))
    (timely : (Config.start (deployed pin) : Nest A).PermitsAll (dispatch M) Timely acts) :
    FinalizesOnce M (.start (deployed pin)) acts := by
  refine ⟨?_, ?_⟩
  · intro l₁ l₂ hacts k
    rw [hacts, Config.permitsAll_append] at timely
    exact (keeps_timely hM pin timely.1).world.once k
  · intro l₁ act l₂ hacts k i hk hi hroll
    rw [hacts, Config.permitsAll_append] at timely
    have hkeeps := keeps_timely hM pin timely.1
    obtain ⟨_, hworld⟩ := step_cases allLanded hkeeps.awaits timely.2.1
    rcases hworld with (heq | ⟨hr, _⟩) | ⟨_, tx, n, seen, r, fr, hland, hn, heq⟩ |
      ⟨_, fr, hstore, heq⟩
    · rw [heq]
      exact hk
    · exact absurd hr hroll
    · rw [heq]
      exact frozen_landed hkeeps.world hland hn hk hi
    · rw [heq]
      show fr.store.intents k = some i
      rw [hstore]
      exact hk

end Runs

/-! ## Concrete nests -/

namespace Sample

def cancelTx : Tx Nat := tx [1] 13 (.cancelIntent 1)

/-- Initialize and create intent 1, with nothing nested. -/
def created : List (Action Nat) :=
  [.enter initializeTx, .resume, .resume, .enter createTx, .resume, .resume]

/-- A second intent is created inside the cancellation of the first. -/
def timelyCancel : List (Action Nat) :=
  created ++ [.enter cancelTx, .enter createTx, .resume, .resume, .resume]

/-- Intent 1 is settled inside its own cancellation. -/
def staleCancel : List (Action Nat) :=
  created ++ [.enter cancelTx, .enter settleTx, .resume, .resume]

/-- The contract is initialized, and intent 1 created and settled, inside the
second signature check of another `initialize`. The intent created afterwards is
number 1 again. -/
def staleInitialize : List (Action Nat) :=
  [.enter initializeTx, .resume] ++ created ++ [.enter settleTx, .resume] ++
    [.resume] ++ [.enter createTx, .resume, .resume, .enter settleTx, .resume]

end Sample

theorem single_finalization_sample :
    FinalizesOnce .documented (.start (deployed 0)) Sample.timelyCancel ∧
    endings 1 ((Config.start (deployed 0) : Nest Nat).play (dispatch .documented)
      Sample.timelyCancel).world.log = [.cancelled] :=
  ⟨single_finalization Missing.documented_checksInc 0 _ (by decide +kernel), by decide +kernel⟩

theorem not_finalizesOnce [DecidableEq A] {M : Missing} {cfg : Nest A} {acts : List (Action A)}
    {k : UInt64} {f₁ f₂ : Finalization}
    (h : endings k (cfg.play (dispatch M) acts).world.log = [f₁, f₂]) :
    ¬ FinalizesOnce M cfg acts := by
  intro hone
  have hle := hone.once acts [] (List.append_nil acts).symm k
  rw [h] at hle
  exact Nat.not_succ_le_self 1 hle

/-- A settlement inside the payer's signature check is overwritten by the
cancellation it interrupted, and an `initialize` that was interrupted in its
second signature check lets intent 1 be settled twice. -/
theorem cancel_overwrites_settlement :
    (endings 1 ((Config.start (deployed 0) : Nest Nat).play (dispatch .documented)
        Sample.staleCancel).world.log = [.settled Sample.memo, .cancelled] ∧
      ¬ FinalizesOnce .documented (.start (deployed 0)) Sample.staleCancel) ∧
    (endings 1 ((Config.start (deployed 0) : Nest Nat).play (dispatch .documented)
        Sample.staleInitialize).world.log = [.settled Sample.memo, .settled Sample.memo] ∧
      ¬ FinalizesOnce .documented (.start (deployed 0)) Sample.staleInitialize) := by
  have hcancel : endings 1 ((Config.start (deployed 0) : Nest Nat).play (dispatch .documented)
      Sample.staleCancel).world.log = [.settled Sample.memo, .cancelled] := by decide +kernel
  have hinit : endings 1 ((Config.start (deployed 0) : Nest Nat).play (dispatch .documented)
      Sample.staleInitialize).world.log = [.settled Sample.memo, .settled Sample.memo] := by
    decide +kernel
  exact ⟨⟨hcancel, not_finalizesOnce hcancel⟩, hinit, not_finalizesOnce hinit⟩

end LilyContracts.Payments
