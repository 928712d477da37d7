import LilyContracts.Host.Nesting
import LilyContracts.Payments.Reentry

/-!
# Creating intents on a host that permits reentry

`create_intent` takes no guard. It interacts twice, in the payer's signature
check and in the query for the payer's binding, and at both points a nest of
further calls may create intents, for the same payer or for others, before it
goes on. It then reads the counter and the payer's vector, and writes both back
with nothing in between. So the frames that commit take their numbers in the
order in which they commit, whatever the nest looks like.

The invariant (`Booked`) says what the storage is in terms of the creations that
are committed: they carry the numbers 1, 2, …, the counter is one past the last,
and the vector of a payer lists that payer's numbers. Every landing keeps it and
keeps every record as the intent it was created as (`booked_landed`); a rollback
restores a storage and a log for which it held. `creation_under_reentry` reads
off it what a nest does from any reachable state.

There is one window that nothing may be entered in here (`mayHost`): the second
signature check of `initialize`. A frame gets there only on a contract that it has
found uninitialized, and then writes a counter of 1, whatever was created inside.
On an initialized contract, and in its first check, `initialize` may be reentered
like any other call; such a frame fails and is undone if it finds the flag set.
-/

namespace LilyContracts.Payments

open Host

variable {A : Type}

/-! ## Creations and records -/

/-- The payers and ids of the `create_intent`s among the invocations that
returned and were not undone, oldest first. -/
def creations (log : List (Call A × Ret A)) : List (A × UInt64) := log.filterMap creation

theorem creations_append {l₁ l₂ : List (Call A × Ret A)} :
    creations (l₁ ++ l₂) = creations l₁ ++ creations l₂ :=
  List.filterMap_append

theorem creations_concat_none {log : List (Call A × Ret A)} {entry : Call A × Ret A}
    (h : creation entry = none) : creations (log ++ [entry]) = creations log := by
  simp [creations, List.filterMap_append, h]

theorem creations_concat_some {log : List (Call A × Ret A)} {entry : Call A × Ret A}
    {e : A × UInt64} (h : creation entry = some e) :
    creations (log ++ [entry]) = creations log ++ [e] := by
  simp [creations, List.filterMap_append, h]

/-- The intent as it was created: finalizing changes nothing else. -/
def PaymentIntent.asCreated (i : PaymentIntent A) : PaymentIntent A :=
  { i with status := .pending, settlementReference := HostString.empty }

theorem id_of_asCreated {i j : PaymentIntent A} (h : i.asCreated = j.asCreated) : i.id = j.id :=
  congrArg (·.id) h

theorem payerAgent_of_asCreated {i j : PaymentIntent A} (h : i.asCreated = j.asCreated) :
    i.payerAgent = j.payerAgent :=
  congrArg (·.payerAgent) h

/-- Every record of `s` is still there in `s'`, as the same intent. -/
def Extends (s s' : Store A) : Prop :=
  ∀ k i, s.intents k = some i → ∃ j, s'.intents k = some j ∧ j.asCreated = i.asCreated

namespace Extends

variable {s s' s'' : Store A} {i j : PaymentIntent A} {id : UInt64}

theorem refl (s : Store A) : Extends s s := fun _ i hk => ⟨i, hk, rfl⟩

theorem trans (h : Extends s s') (h' : Extends s' s'') : Extends s s'' := by
  intro k i hk
  obtain ⟨j, hj, hji⟩ := h k i hk
  obtain ⟨j', hj', hjj⟩ := h' k j hj
  exact ⟨j', hj', hjj.trans hji⟩

/-- Overwriting a record with the same intent. -/
theorem put (stored : s.intents id = some j) (hi : i.asCreated = j.asCreated) :
    Extends s (s.putIntent id i) := by
  intro k i' hk
  show ∃ j', Function.update s.intents id (some i) k = some j' ∧ _
  by_cases hid : k = id
  · subst hid
    rw [stored] at hk
    cases hk
    rw [Function.update_self]
    exact ⟨i, rfl, hi⟩
  · rw [Function.update_of_ne hid]
    exact ⟨i', hk, rfl⟩

/-- Storing a record under an id that is free. -/
theorem add [DecidableEq A] {next : UInt64} (absent : s.intents i.id = none) :
    Extends s (s.addIntent i next) := by
  intro k i' hk
  have hne : k ≠ i.id := by
    intro he
    rw [he, absent] at hk
    cases hk
  refine ⟨i', ?_, rfl⟩
  show Function.update s.intents i.id (some i) k = some i'
  rw [Function.update_of_ne hne, hk]

end Extends

/-! ## The storage in terms of the creations -/

/-- The counter, the records and the payer vectors say what the list `c` of the
committed creations says. -/
structure Booked [DecidableEq A] (s : Store A) (c : List (A × UInt64)) : Prop where
  counter : (s.nextIntentId.getD 1).toNat = c.length + 1
  numbered : Log.Numbered (·.2.toNat) c
  filed : ∀ p, s.payerIndex p = Log.index (·.2) (·.1) c p
  stored : ∀ e ∈ c, ∃ i, s.intents e.2 = some i ∧ i.id = e.2 ∧ i.payerAgent = e.1
  bounded : ∀ k i, s.intents k = some i → k.toNat ≤ c.length
  unset : s.initialized = none → s.nextIntentId = none

namespace Booked

variable [DecidableEq A] {s s' : Store A} {c : List (A × UInt64)} {i j : PaymentIntent A}
  {id : UInt64}

theorem deployed (pin : A) : Booked (deployed pin) [] where
  counter := rfl
  numbered := Log.numbered_nil
  filed _ := rfl
  stored _ he := absurd he List.not_mem_nil
  bounded _ _ hk := nomatch hk
  unset _ := rfl

/-- No id occurs twice. -/
theorem nodup (h : Booked s c) : (c.map Prod.snd).Nodup := by
  refine List.pairwise_map.mpr (h.numbered.pairwise.imp ?_)
  intro e e' hlt he
  rw [he] at hlt
  exact Nat.lt_irrefl _ hlt

/-- The number the counter holds is free. -/
theorem absent (h : Booked s c) (counter : s.nextIntentId = some id) : s.intents id = none := by
  have hid := h.counter
  rw [counter, Option.getD_some] at hid
  cases hk : s.intents id with
  | none => rfl
  | some i =>
    have hle := h.bounded id i hk
    omega

/-- A step that neither adds records nor touches the counter or the vectors. -/
theorem of_extends (h : Booked s c) (hext : Extends s s')
    (back : ∀ k i, s'.intents k = some i → ∃ j, s.intents k = some j)
    (counter : s'.nextIntentId = s.nextIntentId) (payers : s'.payerIntents = s.payerIntents)
    (initialized : s'.initialized = s.initialized) : Booked s' c := by
  refine ⟨?_, h.numbered, ?_, ?_, ?_, ?_⟩
  · rw [counter]
    exact h.counter
  · intro p
    rw [Store.payerIndex, payers]
    exact h.filed p
  · intro e he
    obtain ⟨i, hi, hid, hpayer⟩ := h.stored e he
    obtain ⟨j, hj, hji⟩ := hext _ _ hi
    exact ⟨j, hj, (id_of_asCreated hji).trans hid, (payerAgent_of_asCreated hji).trans hpayer⟩
  · intro k i hk
    obtain ⟨j, hj⟩ := back k i hk
    exact h.bounded k j hj
  · rw [initialized, counter]
    exact h.unset

/-- Overwriting a record with the same intent. -/
theorem put (h : Booked s c) (stored : s.intents id = some j) (hi : i.asCreated = j.asCreated) :
    Booked (s.putIntent id i) c := by
  refine h.of_extends (.put stored hi) ?_ rfl rfl rfl
  intro k i' hk
  rcases Store.putIntent_cases hk with ⟨rfl, _⟩ | ⟨_, hk'⟩
  · exact ⟨j, stored⟩
  · exact ⟨i', hk'⟩

/-- The first `initialize`: with no counter stored, nothing has been created. -/
theorem configure (h : Booked s c) (fresh : s.initialized = none) {admin treasury wallet : A}
    {feeBps : UInt32} : Booked (s.configure admin treasury feeBps wallet) c := by
  refine ⟨?_, h.numbered, h.filed, h.stored, h.bounded, nofun⟩
  have hcounter := h.counter
  rw [h.unset fresh] at hcounter
  exact hcounter

/-- Storing a record under the number the counter holds. -/
theorem create {M : Missing} (hM : M.ChecksInc) (h : Booked s c) {next : UInt64}
    (counter : s.nextIntentId = some i.id) (inc : M.checkedInc i.id = .ok next) :
    Booked (s.addIntent i next) (c ++ [(i.payerAgent, i.id)]) := by
  have hid := h.counter
  rw [counter, Option.getD_some] at hid
  have hnext : next.toNat = i.id.toNat + 1 := hM.toNat_eq inc
  refine ⟨?_, Log.numbered_concat h.numbered hid, ?_, ?_, ?_, ?_⟩
  · show next.toNat = _
    rw [hnext, hid, List.length_append]
    rfl
  · intro p
    rw [Log.index_concat, ← h.filed p]
    show (Function.update s.payerIntents i.payerAgent
      (some (s.payerIndex i.payerAgent ++ [i.id])) p).getD [] = _
    by_cases hp : i.payerAgent = p
    · subst hp
      rw [Function.update_self, if_pos rfl]
      rfl
    · rw [Function.update_of_ne (fun he => hp he.symm), if_neg hp]
      rfl
  · intro e he
    rcases List.mem_append.mp he with he | he
    · obtain ⟨i', hi', hid', hpayer⟩ := h.stored e he
      have hadd : Extends s (s.addIntent i next) := .add (h.absent counter)
      obtain ⟨j, hj, hji⟩ := hadd _ _ hi'
      exact ⟨j, hj, (id_of_asCreated hji).trans hid', (payerAgent_of_asCreated hji).trans hpayer⟩
    · obtain rfl := List.mem_singleton.mp he
      exact ⟨i, Function.update_self .., rfl, rfl⟩
  · intro k i' hk
    rw [List.length_append, List.length_singleton]
    rcases Store.addIntent_cases hk with ⟨rfl, _⟩ | ⟨_, hk'⟩
    · exact Nat.le_of_eq hid
    · exact Nat.le_succ_of_le (h.bounded k i' hk')
  · intro hinit
    have hnone := h.unset hinit
    rw [counter] at hnone
    cases hnone

end Booked

/-! ## Every landing keeps it -/

/-- Where further invocations may be entered: anywhere but in the second signature
check of an `initialize`, which has found the contract uninitialized by then. -/
def Call.mayHost : Call A → Nat → Bool
  | .initializeContract .., point => point ≠ 2
  | _, _ => true

section Runs

variable [DecidableEq A] {M : Missing} {s s' seen : Store A} {tx : Tx A} {n : Nat} {r : Ret A}
  {log : List (Call A × Ret A)}

/-- **What a landing does**: it books what it created, and every record stays
the intent it was created as. -/
theorem booked_landed (hM : M.ChecksInc) (h : Booked s (creations log)) (hgrown : Extends seen s)
    (hquiet : tx.call.mayHost n = false → seen = s) (hland : Landed M tx n seen s r s') :
    Booked s' (creations (log ++ [(tx.call, r)])) ∧ Extends s s' := by
  cases hland with
  | initializeContract call second fresh =>
    -- nothing ran inside its second check, so the flag is still unset
    subst second
    have hsame : seen = s := hquiet (by rw [call]; rfl)
    subst hsame
    rw [creations_concat_none (by rw [call]; rfl)]
    exact ⟨h.configure fresh, .refl _⟩
  | @createIntent payer payee amount memo id next call counter inc =>
    have hentry : creation (tx.call, .u64 id) = some (payer, id) := by
      rw [call]
      rfl
    rw [creations_concat_some hentry]
    exact ⟨h.create hM counter inc, .add (h.absent counter)⟩
  | settleIntent call stored pending =>
    rw [creations_concat_none (by rw [call]; rfl)]
    exact ⟨h.put stored rfl, .put stored rfl⟩
  | cancelIntent call first read pending signed =>
    -- the record it read may have been finalized since, but is the same intent
    obtain ⟨j, hj, hji⟩ := hgrown _ _ read
    rw [creations_concat_none (by rw [call]; rfl)]
    exact ⟨h.put hj hji.symm, .put hj hji.symm⟩
  | other call creates same =>
    have hext : Extends s s' := by
      intro k i hk
      rw [same.intents]
      exact ⟨i, hk, rfl⟩
    have hback : ∀ k i, s'.intents k = some i → ∃ j, s.intents k = some j := by
      intro k i hk
      rw [same.intents] at hk
      exact ⟨i, hk⟩
    rw [creations_concat_none creates]
    exact ⟨h.of_extends hext hback same.counter same.payers same.initialized, hext⟩

/-- The world is booked, and has come from the storage `s₀` and the log `log₀`
without losing anything of either. -/
structure BookedSince (s₀ : Store A) (log₀ : List (Call A × Ret A)) (s : Store A)
    (log : List (Call A × Ret A)) : Prop where
  booked : Booked s (creations log)
  grown : Extends s₀ s
  appended : log₀ <+: log

theorem keeps_bookedSince (hM : M.ChecksInc) (s₀ : Store A) (log₀ : List (Call A × Ret A)) :
    KeepsNested (Landed M) (BookedSince s₀ log₀) Extends Call.mayHost := by
  intro s s' log tx n seen r h hgrown hquiet hland
  obtain ⟨hbooked, hext⟩ := booked_landed hM h.booked hgrown hquiet hland
  exact ⟨⟨hbooked, h.grown.trans hext, h.appended.trans (List.prefix_append ..)⟩, hext⟩

/-! ## What a nest creates -/

/-- What `acts` do from `cfg`. The creations they commit take the ids from the
counter on (1 where it is not stored yet), in the order in which they commit, and
are filed under their payers; no vector gets out of order; and no frame replaces
a record by that of another intent. -/
structure CreatesInOrder (M : Missing) (cfg : Nest A) (acts : List (Action A))
    (new : List (A × UInt64)) : Prop where
  committed : creations (cfg.play (dispatch M) acts).world.log = creations cfg.world.log ++ new
  block : new.map (·.2.toNat) =
    List.range' (cfg.world.frame.store.nextIntentId.getD 1).toNat new.length
  distinct : (new.map Prod.snd).Nodup
  stored : ∀ e ∈ new, ∃ i, (cfg.play (dispatch M) acts).world.frame.store.intents e.2 = some i ∧
    i.id = e.2 ∧ i.payerAgent = e.1
  filed : ∀ e ∈ new, ∀ p,
    ((cfg.play (dispatch M) acts).world.frame.store.payerIndex p).count e.2 =
      if e.1 = p then 1 else 0
  increasing : ∀ p,
    ((cfg.play (dispatch M) acts).world.frame.store.payerIndex p).Pairwise (· < ·)
  grown : Extends cfg.world.frame.store (cfg.play (dispatch M) acts).world.frame.store
  fresh : ∀ l₁ act l₂, acts = l₁ ++ act :: l₂ → ∀ entry e, creation entry = some e →
    ((cfg.play (dispatch M) l₁).step (dispatch M) act).world.log =
      (cfg.play (dispatch M) l₁).world.log ++ [entry] →
    (cfg.play (dispatch M) l₁).world.frame.store.intents e.2 = none
  kept : ∀ l₁ act l₂, acts = l₁ ++ act :: l₂ →
    ¬ (cfg.play (dispatch M) l₁).RollsBack (dispatch M) act →
    Extends (cfg.play (dispatch M) l₁).world.frame.store
      ((cfg.play (dispatch M) l₁).step (dispatch M) act).world.frame.store

/-- The invariant along the stack, from a world in which nothing is suspended. -/
theorem stacked_since (hM : M.ChecksInc) {cfg : Nest A} {acts : List (Action A)}
    (hbooked : Booked cfg.world.frame.store (creations cfg.world.log)) (hidle : cfg.stack = [])
    (hhosted : cfg.HostsAll (dispatch M) Call.mayHost acts) :
    Stacked (Landed M) (BookedSince cfg.world.frame.store cfg.world.log) Extends Call.mayHost
      (cfg.play (dispatch M) acts).world (cfg.play (dispatch M) acts).stack := by
  refine nested_play allLanded Extends.refl Extends.trans (keeps_bookedSince hM _ _) ?_ hhosted
  rw [hidle]
  exact ⟨hbooked, .refl _, List.prefix_refl _⟩

/-- A committed creation took a number that was free. -/
theorem Booked.absent_of_concat {c : List (A × UInt64)} {e : A × UInt64} (h : Booked s c)
    (h' : Booked s' (c ++ [e])) : s.intents e.2 = none := by
  have hnum : e.2.toNat = c.length + 1 :=
    h'.numbered c.length e (by rw [List.getElem?_concat_length])
  cases hk : s.intents e.2 with
  | none => rfl
  | some i =>
    have hle := h.bounded e.2 i hk
    omega

/-- **Creation under reentry**: whatever nest of invocations runs from a
reachable state, of any depth, width and mix of payers and failures, the
`create_intent`s that commit take consecutive ids from the stored counter on,
each ends up once in its own payer's vector and in no other, the vectors stay
strictly increasing, and no record is overwritten. -/
theorem creation_under_reentry (hM : M.ChecksInc) (pin : A) (before acts : List (Action A))
    (hosted : (Config.start (deployed pin) : Nest A).HostsAll (dispatch M) Call.mayHost
      (before ++ acts))
    (idle : ((Config.start (deployed pin) : Nest A).play (dispatch M) before).stack = []) :
    ∃ new, CreatesInOrder M ((Config.start (deployed pin) : Nest A).play (dispatch M) before)
      acts new := by
  rw [Config.hostsAll_append] at hosted
  obtain ⟨hbefore, hacts⟩ := hosted
  have hbase := (stacked_since hM (.deployed pin) rfl hbefore).world.booked
  generalize (Config.start (deployed pin) : Nest A).play (dispatch M) before = cfg at *
  have hrun : ∀ l₁ l₂, acts = l₁ ++ l₂ →
      Stacked (Landed M) (BookedSince cfg.world.frame.store cfg.world.log) Extends Call.mayHost
        (cfg.play (dispatch M) l₁).world (cfg.play (dispatch M) l₁).stack := by
    intro l₁ l₂ heq
    rw [heq, Config.hostsAll_append] at hacts
    exact stacked_since hM hbase idle hacts.1
  obtain ⟨hbooked, hgrown, rest, hlog⟩ := (hrun acts [] (List.append_nil acts).symm).world
  rw [← hlog, creations_append] at hbooked
  have hnodup := hbooked.nodup
  refine ⟨creations rest, ?_, ?_, ?_, ?_, ?_, ?_, hgrown, ?_, ?_⟩
  · rw [← hlog, creations_append]
  · rw [hbooked.numbered.map_append, ← hbase.counter]
  · rw [List.map_append] at hnodup
    exact (List.nodup_append.mp hnodup).2.1
  · intro e he
    exact hbooked.stored e (List.mem_append_right _ he)
  · intro e he p
    rw [hbooked.filed]
    exact Log.count_index hnodup (List.mem_append_right _ he)
  · intro p
    rw [hbooked.filed]
    exact Log.index_pairwise (hbooked.numbered.pairwise.imp fun hlt =>
      UInt64.lt_iff_toNat_lt.mpr hlt)
  · intro l₁ act l₂ heq entry e hentry hstep
    have h₁ := (hrun l₁ _ heq).world.booked
    have h₂ := (hrun (l₁ ++ [act]) l₂ (by rw [heq]; simp)).world.booked
    rw [Config.play_append, Config.play_cons, Config.play_nil, hstep,
      creations_concat_some hentry] at h₂
    exact h₁.absent_of_concat h₂
  · intro l₁ act l₂ heq hroll
    have hstacked := hrun l₁ _ heq
    rw [heq, Config.hostsAll_append] at hacts
    exact (nested_step allLanded Extends.refl Extends.trans (keeps_bookedSince hM _ _) hstacked
      hacts.2.1).2 hroll

/-- Every state that top-level calls reach is one it speaks of. -/
theorem hosted_reachable (M : Missing) (pin : A) (txs : List (Tx A)) :
    ∃ before : List (Action A),
      (Config.start (deployed pin) : Nest A).HostsAll (dispatch M) Call.mayHost before ∧
      ((Config.start (deployed pin) : Nest A).play (dispatch M) before).stack = [] ∧
      ((Config.start (deployed pin) : Nest A).play (dispatch M) before).world.frame.store =
        run (dispatch M) (deployed pin) txs := by
  obtain ⟨before, evs, log, hhosts, hplay⟩ := hosted_run txs (deployed pin) [] []
  refine ⟨before, hhosts, ?_, ?_⟩
  · rw [Config.start, hplay]
  · rw [Config.start, hplay]

end Runs

namespace Sample

def createBackTx : Tx Nat := tx [2] 12 (.createIntent 2 1 amount memo)

/-- Three creations nested in one another, a fourth that fails, and a fifth inside a
second `initialize`, which is undone with it: the innermost commits first. -/
def nestedCreate : List (Action Nat) :=
  [.enter createTx, .enter createBackTx, .resume, .enter createTx, .resume, .resume,
    .enter createTx, .abort,
    .enter initializeTx, .enter createTx, .resume, .resume, .resume, .resume, .resume, .resume]

end Sample

theorem creation_under_reentry_sample :
    (∃ new, CreatesInOrder .documented ((Config.start (deployed 0) : Nest Nat).play
      (dispatch .documented) Sample.created) Sample.nestedCreate new) ∧
    creations ((Config.start (deployed 0) : Nest Nat).play (dispatch .documented)
      (Sample.created ++ Sample.nestedCreate)).world.log = [(1, 1), (1, 2), (2, 3), (1, 4)] :=
  ⟨creation_under_reentry Missing.documented_checksInc 0 Sample.created Sample.nestedCreate
    (by decide +kernel) (by decide +kernel), by decide +kernel⟩

end LilyContracts.Payments
