import LilyContracts.Host.Program
import Mathlib.Data.List.Basic
import Mathlib.Data.List.Induction

/-!
# Runs of a contract

A contract is a family of programs indexed by its calls. A top-level call is
atomic: it either commits everything its frame did or, failing, leaves the
storage as it was (`invoke`). A run is a list of calls, each with its own
environment, so "any signers, any order, any clock" is one quantifier over
`List Tx`.

`trace` keeps what the storage forgets: which call met which state with which
outcome. Statements about histories ("the most recent successful transfer",
"exactly one settlement") are statements about the trace.

The rules at the end are the ones proofs about runs use: an invariant kept by
each step (`run_invariant`), one that also speaks of the history
(`trace_invariant`), and one that needs a condition on each call as it is made
(`along_invariant`). `lastWrite` and `Linked` are the two shapes of history the
contracts need: who wrote a cell last (`lastWrite_run`), and through whose hands
it went.
-/

namespace LilyContracts.Host

variable {σ A X Ev E C R α : Type}

/-! ## One call -/

/-- What a top-level call leaves behind. -/
structure Outcome (σ Ev E α : Type) where
  result : Except (Fault E) α
  store : σ
  events : List Ev

/-- A top-level call: commit on success, roll everything back on failure. -/
def invoke (p : Prog σ A X Ev E α) (env : Env A X E) (s : σ) : Outcome σ Ev E α :=
  match exec env p ⟨s, []⟩ with
  | .ok (a, fr) => ⟨.ok a, fr.store, fr.events⟩
  | .error f => ⟨.error f, s, []⟩

section Invoke

variable {p : Prog σ A X Ev E α} {env : Env A X E} {s : σ}

theorem invoke_result_ok_iff {a : α} :
    (invoke p env s).result = .ok a ↔ ∃ fr, exec env p ⟨s, []⟩ = .ok (a, fr) := by
  unfold invoke
  split
  next b fr h => simp [h]
  next f h => simp [h]

theorem invoke_of_exec_ok {a : α} {fr : Frame σ Ev} (h : exec env p ⟨s, []⟩ = .ok (a, fr)) :
    invoke p env s = ⟨.ok a, fr.store, fr.events⟩ := by
  unfold invoke
  rw [h]

theorem invoke_of_exec_error {f : Fault E} (h : exec env p ⟨s, []⟩ = .error f) :
    invoke p env s = ⟨.error f, s, []⟩ := by
  unfold invoke
  rw [h]

end Invoke

/-! ## Runs and their traces -/

/-- A call together with the environment it is made in. -/
structure Tx (A X E C : Type) where
  env : Env A X E
  call : C

/-- One step of a trace: the state the call met, the call, and its outcome. -/
structure Step (σ A X Ev E C R : Type) where
  pre : σ
  tx : Tx A X E C
  out : Outcome σ Ev E R

namespace Step

/-- The call returned. -/
def Succeeded (st : Step σ A X Ev E C R) : Prop := ∃ r, st.out.result = .ok r

instance (st : Step σ A X Ev E C R) : Decidable st.Succeeded :=
  match h : st.out.result with
  | .ok r => .isTrue ⟨r, h⟩
  | .error _ => .isFalse fun ⟨_, h'⟩ => by rw [h] at h'; cases h'

/-- The storage the step leaves. -/
abbrev post (st : Step σ A X Ev E C R) : σ := st.out.store

end Step

variable (prog : C → Prog σ A X Ev E R)

/-- The step a transaction makes from `s`. -/
def stepOf (s : σ) (tx : Tx A X E C) : Step σ A X Ev E C R :=
  ⟨s, tx, invoke (prog tx.call) tx.env s⟩

/-- The storage after one transaction. -/
def after (s : σ) (tx : Tx A X E C) : σ := (stepOf prog s tx).post

/-- The storage after a run. -/
def run (s : σ) (txs : List (Tx A X E C)) : σ := txs.foldl (after prog) s

/-- The steps of a run, in order. -/
def trace : σ → List (Tx A X E C) → List (Step σ A X Ev E C R)
  | _, [] => []
  | s, tx :: txs => stepOf prog s tx :: trace (after prog s tx) txs

/-- `P` holds at every call of the run, in the state the call meets. -/
def Along (P : σ → Tx A X E C → Prop) : σ → List (Tx A X E C) → Prop
  | _, [] => True
  | s, tx :: txs => P s tx ∧ Along P (after prog s tx) txs

/-- `a` signs none of the calls. -/
def Unsigned (a : A) (txs : List (Tx A X E C)) : Prop :=
  ∀ tx ∈ txs, tx.env.signs a = false

variable {prog} {s : σ} {tx : Tx A X E C} {txs l₁ l₂ : List (Tx A X E C)}

@[simp] theorem run_nil : run prog s [] = s := rfl

@[simp] theorem run_cons : run prog s (tx :: txs) = run prog (after prog s tx) txs := rfl

theorem run_append : run prog s (l₁ ++ l₂) = run prog (run prog s l₁) l₂ :=
  List.foldl_append

theorem run_concat : run prog s (txs ++ [tx]) = after prog (run prog s txs) tx :=
  run_append

@[simp] theorem trace_nil : trace prog s [] = [] := rfl

@[simp] theorem trace_cons :
    trace prog s (tx :: txs) = stepOf prog s tx :: trace prog (after prog s tx) txs := rfl

theorem trace_append :
    trace prog s (l₁ ++ l₂) = trace prog s l₁ ++ trace prog (run prog s l₁) l₂ := by
  induction l₁ generalizing s with
  | nil => rfl
  | cons tx l ih => rw [List.cons_append, trace_cons, ih]; rfl

theorem trace_concat :
    trace prog s (txs ++ [tx]) = trace prog s txs ++ [stepOf prog (run prog s txs) tx] :=
  trace_append

@[simp] theorem stepOf_pre : (stepOf prog s tx).pre = s := rfl

@[simp] theorem stepOf_tx : (stepOf prog s tx).tx = tx := rfl

@[simp] theorem stepOf_post : (stepOf prog s tx).post = after prog s tx := rfl

/-- A step of the trace is the step some call of the run makes from the state
the calls before it leave. -/
theorem mem_trace {st : Step σ A X Ev E C R} :
    st ∈ trace prog s txs ↔
      ∃ l₁ tx l₂, txs = l₁ ++ tx :: l₂ ∧ st = stepOf prog (run prog s l₁) tx := by
  induction txs generalizing s with
  | nil => simp
  | cons t l ih =>
    rw [trace_cons, List.mem_cons, ih]
    constructor
    · intro h
      rcases h with rfl | ⟨l₁, tx, l₂, rfl, rfl⟩
      · exact ⟨[], t, l, rfl, rfl⟩
      · exact ⟨t :: l₁, tx, l₂, rfl, rfl⟩
    · intro h
      obtain ⟨l₁, tx, l₂, heq, rfl⟩ := h
      -- the step is the first one, or one of the steps after it
      cases l₁ with
      | nil =>
        obtain ⟨rfl, rfl⟩ := List.cons.inj heq
        exact .inl rfl
      | cons t' l₁ =>
        obtain ⟨rfl, rfl⟩ := List.cons.inj heq
        exact .inr ⟨l₁, tx, l₂, rfl, rfl⟩

/-- A program that runs to the end is committed. -/
theorem after_of_exec_ok {r : R} {fr : Frame σ Ev}
    (h : exec tx.env (prog tx.call) ⟨s, []⟩ = .ok (r, fr)) : after prog s tx = fr.store := by
  rw [after, Step.post, stepOf, invoke_of_exec_ok h]

/-- The same with what it returns. -/
theorem lands_of_exec_ok {env : Env A X E} {c : C} {r : R} {s' : σ} {evs : List Ev}
    (h : exec env (prog c) ⟨s, []⟩ = .ok (r, ⟨s', evs⟩)) :
    (stepOf prog s ⟨env, c⟩).out.result = .ok r ∧ after prog s ⟨env, c⟩ = s' := by
  refine ⟨?_, ?_⟩
  · rw [stepOf, invoke_of_exec_ok h]
  · show after prog s ⟨env, c⟩ = (⟨s', evs⟩ : Frame σ Ev).store
    exact after_of_exec_ok h

/-- What a transaction does, once: it fails and changes nothing, or its
program ran to the end and its frame is committed. -/
theorem stepOf_cases (prog : C → Prog σ A X Ev E R) (s : σ) (tx : Tx A X E C) :
    (¬ (stepOf prog s tx).Succeeded ∧ after prog s tx = s) ∨
    ∃ r fr, exec tx.env (prog tx.call) ⟨s, []⟩ = .ok (r, fr) ∧
      stepOf prog s tx = ⟨s, tx, ⟨.ok r, fr.store, fr.events⟩⟩ ∧
      after prog s tx = fr.store := by
  cases h : exec tx.env (prog tx.call) ⟨s, []⟩ with
  | error f =>
    left
    have hinv := invoke_of_exec_error h
    refine ⟨?_, ?_⟩
    · intro hok
      obtain ⟨r, hr⟩ := hok
      rw [stepOf, hinv] at hr
      cases hr
    · rw [after, Step.post, stepOf, hinv]
  | ok q =>
    right
    obtain ⟨r, fr⟩ := q
    refine ⟨r, fr, rfl, ?_, after_of_exec_ok h⟩
    rw [stepOf, invoke_of_exec_ok h]

/-- A step succeeds exactly when its program runs to the end. -/
theorem succeeded_iff :
    (stepOf prog s tx).Succeeded ↔ ∃ r fr, exec tx.env (prog tx.call) ⟨s, []⟩ = .ok (r, fr) := by
  unfold Step.Succeeded stepOf
  simp only [invoke_result_ok_iff]

/-- A call whose program has nothing to return, told by what that program does. -/
theorem lands_iff {env : Env A X E} {c : C} {p : Prog σ A X Ev E Unit} {g : Unit → R}
    {guard : Prop} {s' : σ} (evs : List Ev) (hprog : prog c = p >>= fun u => pure (g u))
    (hspec : ∀ {u : Unit} {fr' : Frame σ Ev},
      exec env p ⟨s, []⟩ = .ok (u, fr') ↔ guard ∧ fr' = ⟨s', evs⟩) :
    ((stepOf prog s ⟨env, c⟩).Succeeded ↔ guard) ∧ (guard → after prog s ⟨env, c⟩ = s') := by
  have hreturns : guard → exec env (prog c) ⟨s, []⟩ = .ok (g (), ⟨s', evs⟩) := by
    intro hguard
    rw [hprog]
    exact exec_map_ok.mpr ⟨(), hspec.mpr ⟨hguard, rfl⟩, rfl⟩
  refine ⟨⟨?_, fun hguard => succeeded_iff.mpr ⟨_, _, hreturns hguard⟩⟩,
    fun hguard => (lands_of_exec_ok (hreturns hguard)).2⟩
  intro hok
  obtain ⟨r, fr, hex⟩ := succeeded_iff.mp hok
  rw [hprog] at hex
  obtain ⟨u, hu, _⟩ := exec_map_ok.mp hex
  exact (hspec.mp hu).1

theorem after_of_not_succeeded (h : ¬ (stepOf prog s tx).Succeeded) : after prog s tx = s := by
  rcases stepOf_cases prog s tx with ⟨_, heq⟩ | ⟨r, fr, hex, _, _⟩
  · exact heq
  · exact absurd (succeeded_iff.mpr ⟨r, fr, hex⟩) h

/-- The same, told by what a successful call is known to do: an effect relation
that every execution of `prog` satisfies describes every step, down to the
events it publishes; a failed call publishes none. -/
theorem stepOf_publishes {Eff : Env A X E → σ → C → R → σ → List Ev → Prop}
    (hEff : ∀ {env : Env A X E} {s : σ} {c : C} {r : R} {fr : Frame σ Ev},
      exec env (prog c) ⟨s, []⟩ = .ok (r, fr) → Eff env s c r fr.store fr.events)
    (s : σ) (tx : Tx A X E C) :
    (¬ (stepOf prog s tx).Succeeded ∧ after prog s tx = s ∧
      (stepOf prog s tx).out.events = []) ∨
    ∃ r, (stepOf prog s tx).out.result = .ok r ∧
      Eff tx.env s tx.call r (after prog s tx) (stepOf prog s tx).out.events := by
  cases h : exec tx.env (prog tx.call) ⟨s, []⟩ with
  | error f =>
    have hfail : ¬ (stepOf prog s tx).Succeeded := by
      intro hok
      obtain ⟨r, fr, hex⟩ := succeeded_iff.mp hok
      rw [h] at hex
      cases hex
    refine .inl ⟨hfail, after_of_not_succeeded hfail, ?_⟩
    rw [stepOf, invoke_of_exec_error h]
  | ok q =>
    have hstep : stepOf prog s tx = ⟨s, tx, ⟨.ok q.1, q.2.store, q.2.events⟩⟩ := by
      rw [stepOf, invoke_of_exec_ok h]
    refine .inr ⟨q.1, ?_, ?_⟩
    · rw [hstep]
    · rw [after, hstep]
      exact hEff h

/-- The part of it that is about the storage. -/
theorem stepOf_effect {Eff : Env A X E → σ → C → R → σ → List Ev → Prop}
    (hEff : ∀ {env : Env A X E} {s : σ} {c : C} {r : R} {fr : Frame σ Ev},
      exec env (prog c) ⟨s, []⟩ = .ok (r, fr) → Eff env s c r fr.store fr.events)
    (s : σ) (tx : Tx A X E C) :
    (¬ (stepOf prog s tx).Succeeded ∧ after prog s tx = s) ∨
    ∃ r evs, (stepOf prog s tx).out.result = .ok r ∧
      Eff tx.env s tx.call r (after prog s tx) evs := by
  rcases stepOf_publishes hEff s tx with ⟨hfail, heq, _⟩ | ⟨r, hr, heff⟩
  · exact .inl ⟨hfail, heq⟩
  · exact .inr ⟨r, _, hr, heff⟩

/-! ## Rules for runs -/

/-- An invariant that every step keeps holds after every run. -/
theorem run_invariant {I : σ → Prop} (hstep : ∀ s tx, I s → I (after prog s tx)) (hs : I s) :
    I (run prog s txs) := by
  induction txs generalizing s with
  | nil => exact hs
  | cons tx l ih => exact ih (hstep s tx hs)

/-- An invariant that relates the storage to the history that led to it. -/
theorem trace_invariant {I : List (Step σ A X Ev E C R) → σ → Prop}
    (hstep : ∀ steps s tx, I steps s → I (steps ++ [stepOf prog s tx]) (after prog s tx))
    (hs : I [] s) : I (trace prog s txs) (run prog s txs) := by
  -- from the end: the history of a run is that of its prefix and one step more
  induction txs using List.reverseRecOn with
  | nil => exact hs
  | append_singleton txs tx ih =>
    rw [trace_concat, run_concat]
    exact hstep _ _ tx ih

/-- The same for a run whose calls all meet a condition as they are made. -/
theorem along_invariant {I : σ → Prop} {P : σ → Tx A X E C → Prop}
    (hstep : ∀ s tx, I s → P s tx → I (after prog s tx)) (hs : I s)
    (hP : Along prog P s txs) : I (run prog s txs) := by
  induction txs generalizing s with
  | nil => exact hs
  | cons tx l ih => exact ih (hstep s tx hs hP.1) hP.2

/-- A condition on calls alone holds along a run when it holds of each call. -/
theorem along_of_forall {P : σ → Tx A X E C → Prop} (h : ∀ tx ∈ txs, ∀ s, P s tx) :
    Along prog P s txs := by
  induction txs generalizing s with
  | nil => trivial
  | cons tx l ih =>
    exact ⟨h tx (List.mem_cons_self ..) s, ih fun t ht => h t (List.mem_cons_of_mem _ ht)⟩

/-! ## The last write of a history -/

/-- The most recent step of a history at which `w` reads off a value, with that
value. -/
def lastWrite (w : Step σ A X Ev E C R → Option α) (steps : List (Step σ A X Ev E C R)) :
    Option (Step σ A X Ev E C R × α) :=
  (steps.filterMap fun st => (w st).map fun v => (st, v)).getLast?

section LastWrite

variable {w : Step σ A X Ev E C R → Option α} {steps : List (Step σ A X Ev E C R)}
  {st : Step σ A X Ev E C R} {v : α}

theorem lastWrite_concat_some (h : w st = some v) : lastWrite w (steps ++ [st]) = some (st, v) := by
  simp [lastWrite, List.filterMap_append, h]

theorem lastWrite_concat_none (h : w st = none) :
    lastWrite w (steps ++ [st]) = lastWrite w steps := by
  simp [lastWrite, List.filterMap_append, h]

/-- A cell that every step keeps, unless `w` reads off the value it overwrites
the cell with, holds what the last write of its history wrote, and that write is
a step of the run. -/
theorem lastWrite_run {f : σ → Option α}
    (hstep : ∀ s tx, f (after prog s tx) = (w (stepOf prog s tx)).or (f s)) (hs : f s = none)
    (hv : f (run prog s txs) = some v) :
    ∃ s' tx, lastWrite w (trace prog s txs) = some (stepOf prog s' tx, v) ∧
      w (stepOf prog s' tx) = some v := by
  induction txs using List.reverseRecOn generalizing v with
  | nil =>
    rw [run_nil, hs] at hv
    cases hv
  | append_singleton txs tx ih =>
    rw [trace_concat]
    rw [run_concat, hstep] at hv
    cases hw : w (stepOf prog (run prog s txs) tx) with
    | none =>
      -- the cell is kept, and so is its last write
      rw [hw] at hv
      obtain ⟨s', tx', hlast, hw'⟩ := ih hv
      exact ⟨s', tx', (lastWrite_concat_none hw).trans hlast, hw'⟩
    | some v' =>
      rw [hw] at hv
      obtain rfl : v' = v := Option.some.inj hv
      exact ⟨_, tx, lastWrite_concat_some hw, hw⟩

end LastWrite

/-! ## Chains of hand-overs -/

/-- The pairs lead, each from where the one before it ended, from `a` to
`b`. -/
def Linked (a : α) : List (α × α) → α → Prop
  | [], b => a = b
  | (x, y) :: l, b => a = x ∧ Linked y l b

theorem linked_concat {a b x y : α} :
    ∀ {l : List (α × α)}, Linked a (l ++ [(x, y)]) b ↔ Linked a l x ∧ y = b
  | [] => Iff.rfl
  | (u, v) :: l => by
    show (a = u ∧ Linked v (l ++ [(x, y)]) b) ↔ (a = u ∧ Linked v l x) ∧ y = b
    rw [linked_concat, and_assoc]

end LilyContracts.Host
