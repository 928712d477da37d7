import LilyContracts.Payments.Effects

/-!
# The reentrancy guard and its handles

The state of a `NonReentrantGuard` is one boolean in storage; its owners are Rust
values, and `#[derive(Clone)]` lets there be any number of them. A `Held` is the
storage together with the live handles, and an `Op` is what Rust code can do with
them: acquire a key, clone a handle, drop a handle.

The guard is meant as a lock: the flag of a key is set exactly while a handle for
it lives, and it can be acquired exactly while none does (`MutualExclusion`).
`Drop::drop` removes the flag whichever handle runs it, so the lock opens with the
first of several clones that goes. `exclusion_iff` says when it does not: a
sequence of operations keeps mutual exclusion throughout exactly when every handle
it drops is the only live one of its key. `clone_opens_lock` is the shortest
sequence that is not like that.
-/

namespace LilyContracts

open Host

/-- Symbol entries that read back as they were written. -/
class LawfulSymbolEntries (σ : Type) [SymbolEntries σ] : Prop where
  entries_withEntries : ∀ (f : Symbol → Option Bool) (s : σ),
    SymbolEntries.entries (SymbolEntries.withEntries f s) = f

instance {A : Type} : LawfulSymbolEntries (Payments.Store A) where
  entries_withEntries _ _ := rfl

namespace NonReentrantGuard

variable {σ : Type}

/-- The environment the guard runs in: it needs no signature and asks nobody. -/
def bareEnv : Env Empty Empty ProtocolError where
  signs := Empty.elim
  timestamp := 0
  answer := Empty.elim

/-- The storage of an instance and the live handles of its guards. -/
structure Held (σ : Type) where
  store : σ
  handles : List NonReentrantGuard

/-- What Rust code does with guards. A handle is named by its position. -/
inductive Op
  | acquire (key : Symbol)
  | clone (i : Nat)
  | drop (i : Nat)
  deriving DecidableEq

namespace Held

section Steps

variable [SymbolEntries σ]

/-- A handle for `key` lives. -/
def Lives (st : Held σ) (key : Symbol) : Prop :=
  ∃ guard ∈ st.handles, guard.key = key

/-- The flag of `key` is set. -/
def Flagged (st : Held σ) (key : Symbol) : Prop :=
  (SymbolEntries.entries st.store key).isSome = true

/-- `NonReentrantGuard::acquire` in this state. -/
def tryAcquire (st : Held σ) (key : Symbol) : Outcome σ Empty ProtocolError NonReentrantGuard :=
  invoke (acquire key) bareEnv st.store

/-- `NonReentrantGuard::drop` in this state. -/
def release (st : Held σ) (guard : NonReentrantGuard) : Outcome σ Empty ProtocolError Unit :=
  invoke guard.drop bareEnv st.store

/-- One operation. There is nothing to clone or drop where no handle lives. -/
def step (st : Held σ) : Op → Held σ
  | .acquire key =>
    let out := st.tryAcquire key
    ⟨out.store, match out.result with
      | .ok guard => st.handles ++ [guard]
      | .error _ => st.handles⟩
  | .clone i =>
    match st.handles[i]? with
    | some guard => { st with handles := st.handles ++ [guard] }
    | none => st
  | .drop i =>
    match st.handles[i]? with
    | some guard => ⟨(st.release guard).store, st.handles.eraseIdx i⟩
    | none => st

/-- A sequence of operations. -/
def run (st : Held σ) (ops : List Op) : Held σ := ops.foldl step st

/-- The key an operation is about. -/
def keyOf (st : Held σ) : Op → Option Symbol
  | .acquire key => some key
  | .clone i => st.handles[i]?.map (·.key)
  | .drop i => st.handles[i]?.map (·.key)

/-- The handle at position `i`, if one lives, is the only live one of its key. -/
def OnlyHandle (st : Held σ) (i : Nat) : Prop :=
  ∀ guard, st.handles[i]? = some guard →
    ∀ j guard', st.handles[j]? = some guard' → guard'.key = guard.key → j = i

/-- What the guard promises in a state: the flag of a key is set exactly while a
handle for it lives; the key can be acquired exactly while none does, and an
acquisition that is refused changes nothing; no operation touches the flag of
another key. -/
structure MutualExclusion (st : Held σ) : Prop where
  flag : ∀ key, st.Flagged key ↔ st.Lives key
  acquires : ∀ key, (∃ guard, (st.tryAcquire key).result = .ok guard) ↔ ¬ st.Lives key
  refused : ∀ key, st.Lives key →
    (st.tryAcquire key).result = .error (.contract .reentrantCall) ∧ st.step (.acquire key) = st
  others : ∀ op key, st.keyOf op ≠ some key → ((st.step op).Flagged key ↔ st.Flagged key)

/-! ## What each operation does -/

variable {st : Held σ} {key : Symbol} {guard : NonReentrantGuard}

theorem exec_acquire {fr : Frame σ Empty} :
    exec bareEnv (acquire key : Prog σ Empty Empty Empty ProtocolError NonReentrantGuard) fr =
      if ¬ (SymbolEntries.entries fr.store key).isSome then
        .ok (⟨key⟩, { fr with
          store := SymbolEntries.withEntries
            (Function.update (SymbolEntries.entries fr.store) key (some true)) fr.store })
      else .error (.contract .reentrantCall) := by
  rw [← bind_pure (acquire key), exec_acquire_bind]
  rfl

theorem tryAcquire_free (h : ¬ st.Flagged key) :
    st.tryAcquire key = ⟨.ok ⟨key⟩, SymbolEntries.withEntries
      (Function.update (SymbolEntries.entries st.store) key (some true)) st.store, []⟩ := by
  have hex : exec bareEnv (acquire key) (⟨st.store, []⟩ : Frame σ Empty) =
      .ok (⟨key⟩, ⟨SymbolEntries.withEntries
        (Function.update (SymbolEntries.entries st.store) key (some true)) st.store, []⟩) := by
    rw [exec_acquire]
    exact if_pos h
  exact invoke_of_exec_ok hex

theorem tryAcquire_held (h : st.Flagged key) :
    st.tryAcquire key = ⟨.error (.contract .reentrantCall), st.store, []⟩ := by
  refine invoke_of_exec_error ?_
  rw [exec_acquire]
  exact if_neg (not_not_intro h)

/-- A refused acquisition leaves storage and handles as they were. -/
theorem step_acquire_held (h : st.Flagged key) : st.step (.acquire key) = st := by
  show Held.mk _ _ = st
  rw [tryAcquire_held h]

theorem step_clone (i : Nat) : (st.step (.clone i)).store = st.store := by
  cases hi : st.handles[i]? with
  | some guard => simp only [step, hi]
  | none => simp only [step, hi]

theorem step_drop {i : Nat} (h : st.handles[i]? = some guard) :
    st.step (.drop i) = ⟨(st.release guard).store, st.handles.eraseIdx i⟩ := by
  simp only [step, h]

theorem release_store : (st.release guard).store =
    if (SymbolEntries.entries st.store guard.key).isSome then
      SymbolEntries.withEntries
        (Function.update (SymbolEntries.entries st.store) guard.key none) st.store
    else st.store :=
  congrArg Outcome.store (invoke_of_exec_ok (exec_drop guard))

end Steps

section Lawful

variable [SymbolEntries σ] [LawfulSymbolEntries σ] {st : Held σ} {key : Symbol}
  {guard : NonReentrantGuard}

/-- `Drop` clears the flag of its key and no other, whether or not the flag was
set and whoever else holds a handle. -/
theorem entries_release : SymbolEntries.entries (st.release guard).store key =
    if key = guard.key then none else SymbolEntries.entries st.store key := by
  rw [release_store]
  split
  next hset =>
    rw [LawfulSymbolEntries.entries_withEntries, Function.update_apply]
  next hunset =>
    split
    next heq =>
      rw [heq]
      simpa using hunset
    next => rfl

theorem entries_acquire (h : ¬ st.Flagged key) (k : Symbol) :
    SymbolEntries.entries (st.step (.acquire key)).store k =
      if k = key then some true else SymbolEntries.entries st.store k := by
  show SymbolEntries.entries (st.tryAcquire key).store k = _
  rw [tryAcquire_free h, LawfulSymbolEntries.entries_withEntries, Function.update_apply]

omit [LawfulSymbolEntries σ] in
theorem handles_acquire (h : ¬ st.Flagged key) :
    (st.step (.acquire key)).handles = st.handles ++ [⟨key⟩] := by
  show (match (st.tryAcquire key).result with
    | .ok guard => st.handles ++ [guard]
    | .error _ => st.handles) = _
  rw [tryAcquire_free h]

/-- No operation touches the flag of another key. -/
theorem flagged_step_of_ne (op : Op) (hne : st.keyOf op ≠ some key) :
    (st.step op).Flagged key ↔ st.Flagged key := by
  unfold Flagged
  cases op with
  | acquire k =>
    by_cases hk : st.Flagged k
    · rw [step_acquire_held hk]
    · have hkey : key ≠ k := by
        intro he
        subst he
        exact hne rfl
      rw [entries_acquire hk, if_neg hkey]
  | clone i => rw [step_clone]
  | drop i =>
    cases hi : st.handles[i]? with
    | none =>
      have hstep : st.step (.drop i) = st := by simp only [step, hi]
      rw [hstep]
    | some guard =>
      have hkey : key ≠ guard.key := by
        intro he
        subst he
        refine hne ?_
        show st.handles[i]?.map (·.key) = some guard.key
        rw [hi]
        rfl
      rw [step_drop hi]
      show (SymbolEntries.entries (st.release guard).store key).isSome = true ↔ _
      rw [entries_release, if_neg hkey]

/-! ## When the lock holds -/

/-- With the flags in step with the handles, the rest of the promise follows. -/
theorem exclusion_of_flags (h : ∀ key, st.Flagged key ↔ st.Lives key) : MutualExclusion st := by
  refine ⟨h, ?_, ?_, ?_⟩
  · intro key
    rw [← h key]
    by_cases hk : st.Flagged key
    · rw [tryAcquire_held hk]
      simp [hk]
    · rw [tryAcquire_free hk]
      simp [hk]
  · intro key hlives
    have hk := (h key).mpr hlives
    rw [tryAcquire_held hk]
    exact ⟨rfl, step_acquire_held hk⟩
  · intro op key hne
    exact flagged_step_of_ne op hne

omit [LawfulSymbolEntries σ] in
/-- A clone is one more handle of a key that has one. -/
theorem lives_clone (i : Nat) : (st.step (.clone i)).Lives key ↔ st.Lives key := by
  cases hi : st.handles[i]? with
  | none => simp only [step, hi]
  | some guard =>
    simp only [step, hi]
    unfold Lives
    constructor
    · intro hlives
      obtain ⟨g, hg, hkey⟩ := hlives
      rcases List.mem_append.mp hg with hg | hg
      · exact ⟨g, hg, hkey⟩
      · obtain rfl := List.mem_singleton.mp hg
        exact ⟨g, List.mem_of_getElem? hi, hkey⟩
    · intro hlives
      obtain ⟨g, hg, hkey⟩ := hlives
      exact ⟨g, List.mem_append_left _ hg, hkey⟩

omit [LawfulSymbolEntries σ] in
/-- Dropping the only handle of a key leaves none. -/
theorem not_lives_drop {i : Nat} (hi : st.handles[i]? = some guard) (honly : st.OnlyHandle i) :
    ¬ (st.step (.drop i)).Lives guard.key := by
  rw [step_drop hi]
  intro hlives
  obtain ⟨g, hg, hkey⟩ := hlives
  obtain ⟨j, hj, hgj⟩ := List.mem_eraseIdx_iff_getElem?.mp hg
  exact hj (honly guard hi j g hgj hkey)

omit [LawfulSymbolEntries σ] in
/-- A drop takes no handle of another key. -/
theorem lives_drop_of_ne {i : Nat} (hi : st.handles[i]? = some guard) (hne : key ≠ guard.key) :
    (st.step (.drop i)).Lives key ↔ st.Lives key := by
  rw [step_drop hi]
  unfold Lives
  constructor
  · intro hlives
    obtain ⟨g, hg, hkey⟩ := hlives
    exact ⟨g, List.mem_of_mem_eraseIdx hg, hkey⟩
  · intro hlives
    obtain ⟨g, hg, hkey⟩ := hlives
    obtain ⟨j, hgj⟩ := List.mem_iff_getElem?.mp hg
    refine ⟨g, List.mem_eraseIdx_iff_getElem?.mpr ⟨j, ?_, hgj⟩, hkey⟩
    intro hji
    rw [hji, hi] at hgj
    cases hgj
    exact hne hkey.symm

/-- **One operation** keeps the flags in step with the handles, if a handle it
drops is the only one of its key. -/
theorem flags_step (h : ∀ key, st.Flagged key ↔ st.Lives key) (op : Op)
    (honly : ∀ i, op = .drop i → st.OnlyHandle i) (key : Symbol) :
    (st.step op).Flagged key ↔ (st.step op).Lives key := by
  cases op with
  | acquire k =>
    by_cases hk : st.Flagged k
    · rw [step_acquire_held hk]
      exact h key
    · unfold Flagged Lives
      rw [entries_acquire hk, handles_acquire hk]
      by_cases hkey : key = k
      · simp [hkey]
      · -- the new handle is not one for `key`
        rw [if_neg hkey]
        refine (h key).trans ?_
        simp [Lives, Ne.symm hkey]
  | clone i =>
    unfold Flagged
    rw [step_clone, lives_clone]
    exact h key
  | drop i =>
    cases hi : st.handles[i]? with
    | none =>
      simp only [step, hi]
      exact h key
    | some guard =>
      by_cases hkey : key = guard.key
      · subst hkey
        have hnone := not_lives_drop hi (honly i rfl)
        rw [step_drop hi] at hnone ⊢
        unfold Flagged
        rw [entries_release, if_pos rfl]
        simpa using hnone
      · rw [lives_drop_of_ne hi hkey, ← h key]
        refine flagged_step_of_ne (.drop i) ?_
        show st.handles[i]?.map (·.key) ≠ some key
        rw [hi]
        exact fun he => hkey (Option.some.inj he).symm

/-- Dropping one of several handles of a key breaks the promise. -/
theorem not_exclusion_of_clone {i j : Nat} {guard' : NonReentrantGuard}
    (hi : st.handles[i]? = some guard) (hj : st.handles[j]? = some guard')
    (hkey : guard'.key = guard.key) (hne : j ≠ i) : ¬ MutualExclusion (st.step (.drop i)) := by
  intro h
  have hlives : (st.step (.drop i)).Lives guard.key := by
    rw [step_drop hi]
    exact ⟨guard', List.mem_eraseIdx_iff_getElem?.mpr ⟨j, hne, hj⟩, hkey⟩
  have hflag := (h.flag guard.key).mpr hlives
  rw [step_drop hi] at hflag
  unfold Flagged at hflag
  rw [entries_release, if_pos rfl] at hflag
  cases hflag

omit [LawfulSymbolEntries σ] in
theorem run_concat {ops : List Op} {op : Op} : st.run (ops ++ [op]) = (st.run ops).step op :=
  List.foldl_append

/-- **When the guard is a lock**: from a storage without flags, mutual exclusion
holds after every operation exactly when every handle that is dropped is the only
live one of its key. -/
theorem exclusion_iff (s : σ) (hs : ∀ key, SymbolEntries.entries s key = none)
    (ops : List Op) :
    (∀ l, l <+: ops → MutualExclusion ((⟨s, []⟩ : Held σ).run l)) ↔
      ∀ l i, l ++ [.drop i] <+: ops → ((⟨s, []⟩ : Held σ).run l).OnlyHandle i := by
  constructor
  · intro h l i hl guard hi j guard' hj hkey
    by_contra hne
    have hbroken := not_exclusion_of_clone hi hj hkey hne
    rw [← run_concat] at hbroken
    exact hbroken (h _ hl)
  · intro honly l
    -- from the end: the last operation starts from a state in step
    suffices hflags : l <+: ops → ∀ key, ((⟨s, []⟩ : Held σ).run l).Flagged key ↔
        ((⟨s, []⟩ : Held σ).run l).Lives key from
      fun hl => exclusion_of_flags (hflags hl)
    induction l using List.reverseRecOn with
    | nil =>
      intro _ key
      show (SymbolEntries.entries s key).isSome = true ↔ _
      simp [hs key, Lives, run]
    | append_singleton l op ih =>
      intro hl key
      rw [run_concat]
      refine flags_step (ih ((List.prefix_append l [op]).trans hl)) op ?_ key
      intro i hop
      rw [hop] at hl
      exact honly l i hl

end Lawful

end Held

/-! ## A clone opens the lock -/

namespace Sample

/-- The storage of an instance in which no guard was ever acquired. -/
def fresh : Held (Payments.Store Nat) := ⟨Payments.Store.empty, []⟩

/-- Acquire a guard, clone it, drop the original. -/
def cloneAndDrop : List Op := [.acquire "reent", .clone 0, .drop 0]

end Sample

/-- Without a clone the lock opens with its only handle. -/
theorem exclusion_iff_sample :
    Held.MutualExclusion (Sample.fresh.run [.acquire "reent", .drop 0]) := by
  have h := Held.exclusion_iff (Payments.Store.empty : Payments.Store Nat) (fun _ => rfl)
    [.acquire "reent", .drop 0]
  refine h.mpr ?_ _ (List.prefix_refl _)
  intro l i hl guard hi j guard' hj hkey
  obtain ⟨rest, hrest⟩ := hl
  -- the handle is dropped by the second operation
  obtain ⟨rfl, rfl⟩ : l = [.acquire "reent"] ∧ i = 0 := by
    cases l with
    | nil => simp at hrest
    | cons op l =>
      cases l with
      | nil => simp_all
      | cons op' l => simp at hrest
  have hone : (Sample.fresh.run [.acquire "reent"]).handles = [⟨"reent"⟩] := rfl
  rw [show (⟨Payments.Store.empty, []⟩ : Held (Payments.Store Nat)) = Sample.fresh from rfl,
    hone] at hj
  have hlt := (List.getElem?_eq_some_iff.mp hj).1
  simp at hlt
  exact hlt

/-- After an acquisition and a clone, dropping one handle clears the flag under
the other, and the key can be acquired a second time. -/
theorem clone_opens_lock :
    ¬ Held.MutualExclusion (Sample.fresh.run Sample.cloneAndDrop) ∧
    (Sample.fresh.run Sample.cloneAndDrop).Lives "reent" ∧
    ¬ (Sample.fresh.run Sample.cloneAndDrop).Flagged "reent" ∧
    ∃ guard, ((Sample.fresh.run Sample.cloneAndDrop).tryAcquire "reent").result = .ok guard := by
  have hbroken : ¬ Held.MutualExclusion
      ((Sample.fresh.run [.acquire "reent", .clone 0]).step (.drop 0)) :=
    Held.not_exclusion_of_clone (j := 1) rfl rfl rfl Nat.one_ne_zero
  exact ⟨hbroken, ⟨⟨"reent"⟩, List.mem_singleton.mpr rfl, rfl⟩, Bool.false_ne_true, ⟨"reent"⟩, rfl⟩

end NonReentrantGuard

end LilyContracts
