import LilyContracts.Host.Run
import Mathlib.Algebra.BigOperators.Group.List.Basic

/-!
# What a history determines

Three ways in which the history of a contract tells its state, over arbitrary
programs.

* The event log of a history (`eventLog`) is what an indexer sees. If folding
  the events of every single call over a view of the storage gives the view of
  the storage the call leaves, then folding a whole log gives the view of the
  storage at its end (`replay_run`): a reader who never looks at storage is not
  missing anything.
* Where the events of every call say by how much it changes a measure, the log says by
  how much a run changes it (`tally_run`).
* A stamp is a number kept in a cell of the storage. If every step either
  leaves the cell alone or advances its stamp by one, then the stamp counts the
  advances (`stamp_run`), and a cell whose stamp has not moved has not moved
  (`stamp_faithful`), however often it was changed and changed back. Where some
  steps start the stamp afresh, the same holds from one such step to the next
  (`epoch_run`, `epoch_faithful`).
-/

namespace LilyContracts.Host

variable {σ A X Ev E C R υ ρ : Type} {prog : C → Prog σ A X Ev E R}

/-! ## Event logs -/

/-- The events of a history, oldest first. A failed call publishes none. -/
def eventLog (steps : List (Step σ A X Ev E C R)) : List Ev :=
  steps.flatMap fun st => st.out.events

theorem eventLog_concat {steps : List (Step σ A X Ev E C R)} {st : Step σ A X Ev E C R} :
    eventLog (steps ++ [st]) = eventLog steps ++ st.out.events := by
  unfold eventLog
  rw [List.flatMap_append, List.flatMap_singleton]

section Replay

variable {view : σ → υ} {apply : υ → Ev → υ}

/-- What one step does to the view, told by the effects of its call. -/
theorem replay_step (prog : C → Prog σ A X Ev E R)
    {Eff : Env A X E → σ → C → R → σ → List Ev → Prop}
    (hEff : ∀ {env : Env A X E} {s : σ} {c : C} {r : R} {fr : Frame σ Ev},
      exec env (prog c) ⟨s, []⟩ = .ok (r, fr) → Eff env s c r fr.store fr.events)
    (happly : ∀ {env : Env A X E} {s s' : σ} {c : C} {r : R} {evs : List Ev},
      Eff env s c r s' evs → evs.foldl apply (view s) = view s')
    (s : σ) (tx : Tx A X E C) :
    (stepOf prog s tx).out.events.foldl apply (view s) = view (after prog s tx) := by
  rcases stepOf_publishes hEff s tx with ⟨_, heq, hnil⟩ | ⟨r, _, heff⟩
  · rw [heq, hnil]
    rfl
  · exact happly heff

/-- **The replay rule**: if the events of each step take the view of the storage
it met to the view of the storage it left, the event log of a run takes the
first view to the last. -/
theorem replay_run (prog : C → Prog σ A X Ev E R)
    (hstep : ∀ s (tx : Tx A X E C),
      (stepOf prog s tx).out.events.foldl apply (view s) = view (after prog s tx))
    (s : σ) (txs : List (Tx A X E C)) :
    (eventLog (trace prog s txs)).foldl apply (view s) = view (run prog s txs) := by
  induction txs generalizing s with
  | nil => rfl
  | cons tx txs ih =>
    rw [trace_cons, run_cons]
    show (_ ++ eventLog (trace prog (after prog s tx) txs)).foldl apply (view s) = _
    rw [List.foldl_append, hstep s tx]
    exact ih (after prog s tx)

end Replay

/-- **The tally rule**: if a measure of the storage changes with each step by what the
events of the step weigh, then it changes over a run by what the event log weighs. -/
theorem tally_run {N : Type} [AddMonoid N] {I : σ → Prop} {m : σ → N} {w : Ev → N}
    (hstep : ∀ s (tx : Tx A X E C), I s → I (after prog s tx) ∧
      m (after prog s tx) = m s + ((stepOf prog s tx).out.events.map w).sum)
    {s : σ} (hs : I s) (txs : List (Tx A X E C)) :
    m (run prog s txs) = m s + ((eventLog (trace prog s txs)).map w).sum := by
  induction txs generalizing s with
  | nil => exact (add_zero _).symm
  | cons tx txs ih =>
    obtain ⟨hI, hm⟩ := hstep s tx hs
    rw [trace_cons, run_cons, ih hI, hm, add_assoc]
    show _ = m s + ((_ ++ eventLog (trace prog (after prog s tx) txs)).map w).sum
    rw [List.map_append, List.sum_append]

/-! ## Stamps -/

section Stamp

variable {cell : σ → Option ρ} {stamp : ρ → Nat} {restarts moves : Step σ A X Ev E C R → Bool}
  {s : σ} {p p' : ρ}

/-- Every step leaves a stored cell alone, or is one of those that `moves` picks
out and advances its stamp by one. -/
def Stamped (prog : C → Prog σ A X Ev E R) (cell : σ → Option ρ) (stamp : ρ → Nat)
    (moves : Step σ A X Ev E C R → Bool) : Prop :=
  ∀ s p, cell s = some p → ∀ tx : Tx A X E C,
    (moves (stepOf prog s tx) = false ∧ cell (after prog s tx) = some p) ∨
    (moves (stepOf prog s tx) = true ∧
      ∃ p', cell (after prog s tx) = some p' ∧ stamp p' = stamp p + 1)

/-- The same law for a stamp that some steps restart, and only for the others: of
a step that `restarts` picks out it says nothing. -/
def StampedBetween (prog : C → Prog σ A X Ev E R) (cell : σ → Option ρ) (stamp : ρ → Nat)
    (restarts moves : Step σ A X Ev E C R → Bool) : Prop :=
  ∀ s p, cell s = some p → ∀ tx : Tx A X E C, restarts (stepOf prog s tx) = false →
    (moves (stepOf prog s tx) = false ∧ cell (after prog s tx) = some p) ∨
    (moves (stepOf prog s tx) = true ∧
      ∃ p', cell (after prog s tx) = some p' ∧ stamp p' = stamp p + 1)

/-- **The stamp counts, within an epoch**: while no step restarts it, a stored
cell stays stored, its stamp grows by the number of steps that moved it, and while
there are none of those it stays as it was. -/
theorem epoch_run (h : StampedBetween prog cell stamp restarts moves) (txs : List (Tx A X E C)) :
    ∀ {s : σ} {p : ρ}, cell s = some p → (∀ st ∈ trace prog s txs, restarts st = false) →
      ∃ p', cell (run prog s txs) = some p' ∧
        stamp p' = stamp p + (trace prog s txs).countP moves ∧
        ((trace prog s txs).countP moves = 0 → p' = p) := by
  induction txs with
  | nil =>
    intro s p hp _
    exact ⟨p, hp, rfl, fun _ => rfl⟩
  | cons tx txs ih =>
    intro s p hp hepoch
    rw [trace_cons] at hepoch
    have hfirst : restarts (stepOf prog s tx) = false := hepoch _ (List.mem_cons_self ..)
    have hlater : ∀ st ∈ trace prog (after prog s tx) txs, restarts st = false :=
      fun st hst => hepoch st (List.mem_cons_of_mem _ hst)
    rw [trace_cons, run_cons, List.countP_cons]
    rcases h s p hp tx hfirst with ⟨hstill, hsame⟩ | ⟨hmoves, p₁, hp₁, hstamp⟩
    · obtain ⟨p', hend, hcount, hzero⟩ := ih hsame hlater
      rw [hstill]
      exact ⟨p', hend, hcount, hzero⟩
    · obtain ⟨p', hend, hcount, _⟩ := ih hp₁ hlater
      rw [hmoves]
      refine ⟨p', hend, ?_, ?_⟩
      · rw [hcount, hstamp, if_pos rfl]
        omega
      · intro hzero
        rw [if_pos rfl] at hzero
        omega

/-- The same stamp at two moments of an epoch, one after the other, is the same
content. -/
theorem epoch_faithful (h : StampedBetween prog cell stamp restarts moves)
    {txs : List (Tx A X E C)} (hepoch : ∀ st ∈ trace prog s txs, restarts st = false)
    (hp : cell s = some p) (hp' : cell (run prog s txs) = some p') (heq : stamp p' = stamp p) :
    p' = p := by
  obtain ⟨q, hq, hcount, hzero⟩ := epoch_run h txs hp hepoch
  obtain rfl : p' = q := by
    rw [hp'] at hq
    exact Option.some.inj hq
  apply hzero
  omega

/-- A stamp that no step restarts. -/
theorem Stamped.between (h : Stamped prog cell stamp moves) :
    StampedBetween prog cell stamp (fun _ => false) moves :=
  fun s p hp tx _ => h s p hp tx

/-- **The stamp counts**: a stored cell stays stored, its stamp grows by the
number of steps that moved it, and while there are none it stays as it was. -/
theorem stamp_run (h : Stamped prog cell stamp moves) (txs : List (Tx A X E C)) :
    ∀ {s : σ} {p : ρ}, cell s = some p →
      ∃ p', cell (run prog s txs) = some p' ∧
        stamp p' = stamp p + (trace prog s txs).countP moves ∧
        ((trace prog s txs).countP moves = 0 → p' = p) := by
  intro s p hp
  exact epoch_run h.between txs hp fun _ _ => rfl

/-- The same stamp at two moments of a run, one after the other, is the same
content. -/
theorem stamp_faithful (h : Stamped prog cell stamp moves) {txs : List (Tx A X E C)}
    (hp : cell s = some p) (hp' : cell (run prog s txs) = some p') (heq : stamp p' = stamp p) :
    p' = p :=
  epoch_faithful h.between (fun _ _ => rfl) hp hp' heq

end Stamp

end LilyContracts.Host
