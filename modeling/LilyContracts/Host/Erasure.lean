import LilyContracts.Host.Compose

/-!
# What a system does not use

To show that a contract makes no use of some of its data, erase that data: in the
storage, in the arguments of the calls and in the results. If the erased call on the
erased storage does what the call does, erased (`Erases`), then the same is true of
runs (`Erases.run`), and two runs that differ in nothing but the data erased cannot be
told apart by anything else (`Erases.runs_agree`).

One call is shown to be so effect by effect: `Erased` relates what two executions come
to, and has one rule for each kind of effect that ends in a choice. In a larger system
the data of one component is erased (`ErasedStep.embed`), and of the others nothing
(`ErasedStep.refl`).
-/

namespace LilyContracts.Host

variable {σ τ A X Y Ev Ev' E C D R R' α γ γ' : Type}

/-! ## One call -/

/-- Two executions that fail alike, or both return, the second with the storage and the
answer of the first, erased. -/
inductive Erased (es : σ → σ) (er : α → α) :
    Except (Fault E) (α × Frame σ Ev) → Except (Fault E) (α × Frame σ Ev) → Prop
  | ok {a a' : α} {fr fr' : Frame σ Ev} (answer : a' = er a) (store : fr'.store = es fr.store) :
      Erased es er (.ok (a, fr)) (.ok (a', fr'))
  | error (f : Fault E) : Erased es er (.error f) (.error f)

section Rules

variable {es : σ → σ} {er : α → α}

theorem Erased.guard {c c' : Prop} [Decidable c] [Decidable c'] {f : Fault E}
    {x y : Except (Fault E) (α × Frame σ Ev)} (hc : c' ↔ c) (h : c → Erased es er x y) :
    Erased es er (if c then x else .error f) (if c' then y else .error f) := by
  by_cases hold : c
  · rw [if_pos hold, if_pos (hc.mpr hold)]
    exact h hold
  · rw [if_neg hold, if_neg fun hc' => hold (hc.mp hc')]
    exact .error f

theorem Erased.bind {e : Except (Fault E) γ} {g g' : γ → Except (Fault E) (α × Frame σ Ev)}
    (h : ∀ c, Erased es er (g c) (g' c)) : Erased es er (e.bind g) (e.bind g') := by
  cases e with
  | ok c => exact h c
  | error f => exact .error f

theorem Erased.elim {o : Option γ} {e : γ → γ'} {f : Fault E}
    {g : γ → Except (Fault E) (α × Frame σ Ev)} {g' : γ' → Except (Fault E) (α × Frame σ Ev)}
    (h : ∀ c, Erased es er (g c) (g' (e c))) :
    Erased es er (o.elim (.error f) g) ((o.map e).elim (.error f) g') := by
  cases o with
  | some c => exact h c
  | none => exact .error f

end Rules

/-- The second transaction does to its storage, and answers, what the first does to its
own, erased. -/
structure ErasedStep (prog : C → Prog σ A X Ev E R) (es : σ → σ) (er : R → R) (s s' : σ)
    (tx tx' : Tx A X E C) : Prop where
  answer : (stepOf prog s' tx').out.result = (stepOf prog s tx).out.result.map er
  store : after prog s' tx' = es (after prog s tx)

section ErasedStep

variable {prog : C → Prog σ A X Ev E R} {es : σ → σ} {er : R → R}

theorem erasedStep_of_exec {env : Env A X E} {s s' : σ} {c c' : C} (hs : s' = es s)
    (h : Erased es er (exec env (prog c) ⟨s, []⟩) (exec env (prog c') ⟨s', []⟩)) :
    ErasedStep prog es er s s' ⟨env, c⟩ ⟨env, c'⟩ := by
  generalize hx : exec env (prog c) ⟨s, []⟩ = x at h
  generalize hy : exec env (prog c') ⟨s', []⟩ = y at h
  cases h with
  | ok answer store =>
    refine ⟨?_, ?_⟩
    · rw [stepOf, stepOf, invoke_of_exec_ok hx, invoke_of_exec_ok hy, answer]
      rfl
    · rw [after, after, stepOf, stepOf, invoke_of_exec_ok hx, invoke_of_exec_ok hy]
      exact store
  | error f =>
    refine ⟨?_, ?_⟩
    · rw [stepOf, stepOf, invoke_of_exec_error hx, invoke_of_exec_error hy]
      rfl
    · rw [after, after, stepOf, stepOf, invoke_of_exec_error hx, invoke_of_exec_error hy]
      exact hs

/-- Where there is nothing to erase. -/
theorem ErasedStep.refl (s : σ) (tx : Tx A X E C) : ErasedStep prog id id s s tx tx where
  answer := by cases (stepOf prog s tx).out.result <;> rfl
  store := rfl

/-- Two calls of a component that are alike are alike in the system, if the system's
erasure is the component's on the component's part. -/
theorem ErasedStep.embed {P : Component σ τ X Y Ev Ev'} {sys : D → Prog τ A Y Ev' E R'}
    {es' : τ → τ} {er' : R' → R'} {e : Env A Y E} {t t' : τ} {c c' : C} {d d' : D} {g : R → R'}
    (hd : sys d = P.embed (prog c) >>= fun r => pure (g r))
    (hd' : sys d' = P.embed (prog c') >>= fun r => pure (g r))
    (hput : ∀ a, P.put (es a) t' = es' (P.put a t)) (hret : ∀ r, g (er r) = er' (g r))
    (h : ErasedStep prog es er (P.get t) (P.get t') ⟨P.env e t, c⟩ ⟨P.env e t', c'⟩) :
    ErasedStep sys es' er' t t' ⟨e, d⟩ ⟨e, d'⟩ := by
  obtain ⟨hresult, hafter⟩ := P.stepOf_embed hd e t
  obtain ⟨hresult', hafter'⟩ := P.stepOf_embed hd' e t'
  refine ⟨?_, ?_⟩
  · rw [hresult, hresult', h.answer]
    cases (stepOf prog (P.get t) ⟨P.env e t, c⟩).out.result with
    | ok r => exact congrArg Except.ok (hret r)
    | error f => rfl
  · rw [hafter, hafter', h.store]
    exact hput _

end ErasedStep

/-! ## Runs -/

/-- Erasing first or after the call comes to the same. -/
def Erases (prog : C → Prog σ A X Ev E R) (es : σ → σ) (ec : C → C) (er : R → R) : Prop :=
  ∀ (env : Env A X E) (s : σ) (c : C), ErasedStep prog es er s (es s) ⟨env, c⟩ ⟨env, ec c⟩

/-- The transaction with the data erased from its call. -/
def Tx.erase (ec : C → C) (tx : Tx A X E C) : Tx A X E C := ⟨tx.env, ec tx.call⟩

/-- What the calls of a history were answered. -/
def results (steps : List (Step σ A X Ev E C R)) : List (Except (Fault E) R) :=
  steps.map (·.out.result)

section Erases

variable {prog : C → Prog σ A X Ev E R} {es : σ → σ} {ec : C → C} {er : R → R}

/-- A run, erased. -/
theorem Erases.run (h : Erases prog es ec er) (s : σ) (txs : List (Tx A X E C)) :
    Host.run prog (es s) (txs.map (·.erase ec)) = es (Host.run prog s txs) ∧
      results (trace prog (es s) (txs.map (·.erase ec))) =
        (results (trace prog s txs)).map (·.map er) := by
  induction txs generalizing s with
  | nil => exact ⟨rfl, rfl⟩
  | cons tx txs ih =>
    have hstep : ErasedStep prog es er s (es s) tx (tx.erase ec) := h tx.env s tx.call
    obtain ⟨hrun, hresults⟩ := ih (after prog s tx)
    rw [List.map_cons, run_cons, run_cons, trace_cons, trace_cons, hstep.store]
    refine ⟨hrun, ?_⟩
    show _ :: results _ = _ :: List.map _ (results _)
    rw [hresults]
    exact congrArg (· :: _) hstep.answer

/-- **What is erased makes no difference to the rest**: two runs that are the same but
for the data erased end alike and answer alike, but for the data erased. -/
theorem Erases.runs_agree (h : Erases prog es ec er) {s s' : σ} (hs : es s = es s')
    {txs txs' : List (Tx A X E C)}
    (htxs : txs.map (·.erase ec) = txs'.map (·.erase ec)) :
    es (Host.run prog s txs) = es (Host.run prog s' txs') ∧
      (results (trace prog s txs)).map (·.map er) =
        (results (trace prog s' txs')).map (·.map er) := by
  obtain ⟨hrun, hresults⟩ := h.run s txs
  obtain ⟨hrun', hresults'⟩ := h.run s' txs'
  rw [← hrun, ← hrun', ← hresults, ← hresults', hs, htxs]
  exact ⟨rfl, rfl⟩

end Erases

end LilyContracts.Host
