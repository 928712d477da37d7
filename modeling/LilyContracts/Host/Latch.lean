import LilyContracts.Host.Run

/-!
# Latches

A latch is a flag that the successful calls of one kind raise, each of which finds it
down, and that nothing lowers (`Latch`). So such a call succeeds at most once in a run
(`Latch.once`), and what the other calls keep is fixed once the flag is up
(`Latch.fixed_run`).

A latch shuts when, besides, no other call changes anything before it is raised
(`Gate`). Then a run that has not raised it has left everything as it was
(`Gate.shut_run`), and what the raising call establishes and the others keep holds
from then on (`Gate.open_run`).

Both are read off the effects of single calls, one case of `GateStep` for each
(`Gate.of_effect`). `EitherSide` is the invariant of a gate that only opens in one way.
-/

namespace LilyContracts.Host

variable {σ A X Ev E C R ρ : Type} {prog : C → Prog σ A X Ev E R} {flag : σ → Bool}
  {picks : C → Bool} {s : σ}

/-- The step is a successful call of the kind that `picks` picks out. -/
def Step.does (picks : C → Bool) (st : Step σ A X Ev E C R) : Bool :=
  picks st.tx.call && decide st.Succeeded

theorem does_of_not_picked {tx : Tx A X E C} (hnot : picks tx.call = false) :
    (stepOf prog s tx).does picks = false := by
  rw [Step.does, stepOf_tx, hnot]
  rfl

theorem does_iff {tx : Tx A X E C} :
    (stepOf prog s tx).does picks = true ↔
      picks tx.call = true ∧ (stepOf prog s tx).Succeeded := by
  rw [Step.does, stepOf_tx, Bool.and_eq_true, decide_eq_true_eq]

theorem does_of_picked {tx : Tx A X E C} (hpick : picks tx.call = true)
    (hok : (stepOf prog s tx).Succeeded) : (stepOf prog s tx).does picks = true :=
  does_iff.mpr ⟨hpick, hok⟩

/-- Each step raises the flag by as much as it is a picked call that succeeds. -/
structure Latch (prog : C → Prog σ A X Ev E R) (flag : σ → Bool) (picks : C → Bool) : Prop where
  step : ∀ s (tx : Tx A X E C), (flag (after prog s tx)).toNat =
    (flag s).toNat + ((stepOf prog s tx).does picks).toNat

/-- A latch before which no other call gets anywhere. -/
structure Gate (prog : C → Prog σ A X Ev E R) (flag : σ → Bool) (picks : C → Bool) : Prop
    extends Latch prog flag picks where
  shut : ∀ s (tx : Tx A X E C), flag s = false → picks tx.call = false → after prog s tx = s

/-- What a successful call, picked or not, does to a gate. -/
inductive GateStep (flag : σ → Bool) : Bool → σ → σ → Prop
  | raise {s s' : σ} (down : flag s = false) (up : flag s' = true) : GateStep flag true s s'
  | pass {s s' : σ} (up : flag s = true) (stays : flag s' = true) : GateStep flag false s s'
  | idle {s : σ} : GateStep flag false s s

namespace Latch

/-- A step leaves the flag up exactly if it found it up or is a picked call that
succeeds, and it is not both. -/
theorem cases (h : Latch prog flag picks) (s : σ) (tx : Tx A X E C) :
    (flag (after prog s tx) = (flag s || (stepOf prog s tx).does picks)) ∧
      (flag s && (stepOf prog s tx).does picks) = false := by
  have hstep := h.step s tx
  revert hstep
  cases flag (after prog s tx) <;> cases flag s <;> cases (stepOf prog s tx).does picks <;> simp

/-- Nothing lowers the flag. -/
theorem kept (h : Latch prog flag picks) (hup : flag s = true) (tx : Tx A X E C) :
    flag (after prog s tx) = true := by
  rw [(h.cases s tx).1, hup]
  rfl

theorem kept_run (h : Latch prog flag picks) (hup : flag s = true) (txs : List (Tx A X E C)) :
    flag (run prog s txs) = true :=
  run_invariant (I := fun s => flag s = true) (fun _ tx hs => h.kept hs tx) hup

/-- A picked call that succeeds finds the flag down and leaves it up. -/
theorem raised (h : Latch prog flag picks) {tx : Tx A X E C}
    (hdoes : (stepOf prog s tx).does picks = true) :
    flag s = false ∧ flag (after prog s tx) = true := by
  obtain ⟨hflag, hnot⟩ := h.cases s tx
  rw [hdoes, Bool.and_true] at hnot
  rw [hdoes, Bool.or_true] at hflag
  exact ⟨hnot, hflag⟩

/-- With the flag up, a picked call does nothing. -/
theorem idle (h : Latch prog flag picks) (hup : flag s = true) {tx : Tx A X E C}
    (hpick : picks tx.call = true) : after prog s tx = s := by
  refine after_of_not_succeeded fun hok => ?_
  rw [(h.raised (does_of_picked hpick hok)).1] at hup
  cases hup

/-- Any other step leaves it alone. -/
theorem unmoved (h : Latch prog flag picks) {tx : Tx A X E C}
    (hnot : (stepOf prog s tx).does picks = false) : flag (after prog s tx) = flag s := by
  rw [(h.cases s tx).1, hnot, Bool.or_false]

/-- The flag tells how often the picked calls have succeeded. -/
theorem count (h : Latch prog flag picks) (s : σ) (txs : List (Tx A X E C)) :
    (flag (run prog s txs)).toNat =
      (flag s).toNat + (trace prog s txs).countP (·.does picks) := by
  induction txs generalizing s with
  | nil => rfl
  | cons tx txs ih =>
    rw [run_cons, trace_cons, List.countP_cons, ih, h.step]
    cases (stepOf prog s tx).does picks with
    | true => simp only [Bool.toNat_true, if_true]; omega
    | false => simp

/-- **A latch closes once.** -/
theorem once (h : Latch prog flag picks) (s : σ) (txs : List (Tx A X E C)) :
    (trace prog s txs).countP (·.does picks) ≤ 1 := by
  have hrun := h.count s txs
  have hle := Bool.toNat_le (flag (run prog s txs))
  omega

section Effect

variable {Eff : Env A X E → σ → C → R → σ → List Ev → Prop} {f : σ → ρ}

/-- With the flag up, what only picked calls change stays as it is. -/
theorem fixed (h : Latch prog flag picks)
    (hEff : ∀ {env : Env A X E} {s : σ} {c : C} {r : R} {fr : Frame σ Ev},
      exec env (prog c) ⟨s, []⟩ = .ok (r, fr) → Eff env s c r fr.store fr.events)
    (hf : ∀ {env : Env A X E} {s s' : σ} {c : C} {r : R} {evs : List Ev},
      Eff env s c r s' evs → picks c = false → f s' = f s)
    (hup : flag s = true) (tx : Tx A X E C) : f (after prog s tx) = f s := by
  rcases stepOf_effect hEff s tx with ⟨_, heq⟩ | ⟨r, evs, hr, heff⟩
  · rw [heq]
  · refine hf heff (Bool.eq_false_iff.mpr fun hpick => ?_)
    -- a picked call would have found the flag down
    rw [(h.raised (does_of_picked hpick ⟨r, hr⟩)).1] at hup
    cases hup

/-- The same of a run. -/
theorem fixed_run (h : Latch prog flag picks)
    (hEff : ∀ {env : Env A X E} {s : σ} {c : C} {r : R} {fr : Frame σ Ev},
      exec env (prog c) ⟨s, []⟩ = .ok (r, fr) → Eff env s c r fr.store fr.events)
    (hf : ∀ {env : Env A X E} {s s' : σ} {c : C} {r : R} {evs : List Ev},
      Eff env s c r s' evs → picks c = false → f s' = f s)
    (hup : flag s = true) (txs : List (Tx A X E C)) : f (run prog s txs) = f s := by
  have hrun : flag (run prog s txs) = true ∧ f (run prog s txs) = f s := by
    refine run_invariant (I := fun s' => flag s' = true ∧ f s' = f s) ?_ ⟨hup, rfl⟩
    intro s' tx hs'
    exact ⟨h.kept hs'.1 tx, (h.fixed hEff hf hs'.1 tx).trans hs'.2⟩
  exact hrun.2

end Effect

end Latch

namespace Gate

section Effect

variable {Eff : Env A X E → σ → C → R → σ → List Ev → Prop}

/-- A gate, told by the effects of its calls. -/
theorem of_effect
    (hEff : ∀ {env : Env A X E} {s : σ} {c : C} {r : R} {fr : Frame σ Ev},
      exec env (prog c) ⟨s, []⟩ = .ok (r, fr) → Eff env s c r fr.store fr.events)
    (hgate : ∀ {env : Env A X E} {s s' : σ} {c : C} {r : R} {evs : List Ev},
      Eff env s c r s' evs → GateStep flag (picks c) s s') : Gate prog flag picks where
  step := by
    intro s tx
    unfold Step.does
    rcases stepOf_effect hEff s tx with ⟨hfail, heq⟩ | ⟨r, evs, hr, heff⟩
    · rw [heq, decide_eq_false hfail, Bool.and_false]
      rfl
    · rw [decide_eq_true ⟨r, hr⟩, Bool.and_true, stepOf_tx]
      have hstep := hgate heff
      generalize after prog s tx = s' at hstep ⊢
      generalize picks tx.call = b at hstep ⊢
      cases hstep with
      | raise down up => rw [down, up]; rfl
      | pass up stays => rw [up, stays]; rfl
      | idle => rfl
  shut := by
    intro s tx hdown hnot
    rcases stepOf_effect hEff s tx with ⟨_, heq⟩ | ⟨r, evs, _, heff⟩
    · exact heq
    · have hstep := hgate heff
      rw [hnot] at hstep
      generalize after prog s tx = s' at hstep ⊢
      cases hstep with
      | pass up =>
        rw [hdown] at up
        cases up
      | idle => rfl

end Effect

/-- Before the flag is raised, nothing has changed. -/
theorem shut_run (h : Gate prog flag picks) {txs : List (Tx A X E C)}
    (hdown : flag (run prog s txs) = false) : run prog s txs = s := by
  induction txs using List.reverseRecOn with
  | nil => rfl
  | append_singleton txs tx ih =>
    rw [run_concat] at hdown ⊢
    have hbefore : flag (run prog s txs) = false := by
      refine Bool.eq_false_iff.mpr fun hup => ?_
      rw [h.kept hup tx] at hdown
      cases hdown
    -- so the last call was no picked one that succeeded
    have hlast : after prog (run prog s txs) tx = run prog s txs := by
      cases hpick : picks tx.call with
      | false => exact h.shut _ tx hbefore hpick
      | true =>
        refine after_of_not_succeeded fun hok => ?_
        rw [(h.raised (does_of_picked hpick hok)).2] at hdown
        cases hdown
    rw [hlast]
    exact ih hbefore

/-- Once the flag is raised, what the raising call establishes and the others keep
holds. -/
theorem open_run (h : Gate prog flag picks) {K : σ → Prop}
    {Eff : Env A X E → σ → C → R → σ → List Ev → Prop}
    (hEff : ∀ {env : Env A X E} {s : σ} {c : C} {r : R} {fr : Frame σ Ev},
      exec env (prog c) ⟨s, []⟩ = .ok (r, fr) → Eff env s c r fr.store fr.events)
    (hraise : ∀ {env : Env A X E} {s s' : σ} {c : C} {r : R} {evs : List Ev},
      Eff env s c r s' evs → picks c = true → K s')
    (hkeep : ∀ {env : Env A X E} {s s' : σ} {c : C} {r : R} {evs : List Ev},
      Eff env s c r s' evs → picks c = false → K s → K s')
    (hdown : flag s = false) {txs : List (Tx A X E C)} (hup : flag (run prog s txs) = true) :
    K (run prog s txs) := by
  have hrun : flag (run prog s txs) = true → K (run prog s txs) := by
    refine run_invariant (I := fun s => flag s = true → K s) ?_ (by rw [hdown]; nofun)
    intro s' tx hs' hup'
    rcases stepOf_effect hEff s' tx with ⟨_, heq⟩ | ⟨r, evs, _, heff⟩
    · rw [heq] at hup' ⊢
      exact hs' hup'
    · cases hpick : picks tx.call with
      | true => exact hraise heff hpick
      | false =>
        -- the flag was up already
        refine hkeep heff hpick (hs' ?_)
        rw [h.unmoved (does_of_not_picked hpick)] at hup'
        exact hup'
  exact hrun hup

end Gate

/-! ## Either side of a gate -/

/-- Before the gate the state is `start`, behind it `Conf` holds. -/
structure EitherSide (flag : σ → Bool) (start : σ) (Conf : σ → Prop) (s : σ) : Prop where
  shut : flag s = false → s = start
  opened : flag s = true → Conf s

namespace EitherSide

variable {start : σ} {Conf : σ → Prop}

theorem of_start (hdown : flag start = false) : EitherSide flag start Conf start where
  shut _ := rfl
  opened hup := by
    rw [hdown] at hup
    cases hup

/-- A step stays on one side, or goes through in the way that leads to `Conf`. -/
theorem after (h : EitherSide flag start Conf s) (hgate : Gate prog flag picks)
    {tx : Tx A X E C}
    (hraise : picks tx.call = true → (stepOf prog start tx).Succeeded →
      Conf (Host.after prog start tx))
    (hkeep : flag s = true → Conf s → Conf (Host.after prog s tx)) :
    EitherSide flag start Conf (Host.after prog s tx) := by
  cases hflag : flag s with
  | true =>
    refine ⟨fun hdown => ?_, fun _ => hkeep hflag (h.opened hflag)⟩
    rw [hgate.kept hflag tx] at hdown
    cases hdown
  | false =>
    obtain rfl : s = start := h.shut hflag
    cases hdoes : (stepOf prog s tx).does picks with
    | true =>
      obtain ⟨hpick, hok⟩ := does_iff.mp hdoes
      refine ⟨fun hdown => ?_, fun _ => hraise hpick hok⟩
      rw [(hgate.raised hdoes).2] at hdown
      cases hdown
    | false =>
      have hsame : Host.after prog s tx = s := by
        by_cases hok : (stepOf prog s tx).Succeeded
        · refine hgate.shut s tx hflag (Bool.eq_false_iff.mpr fun hpick => ?_)
          rw [does_of_picked hpick hok] at hdoes
          cases hdoes
        · exact after_of_not_succeeded hok
      rw [hsame]
      exact h

end EitherSide

end LilyContracts.Host
