import LilyContracts.Host.Run

/-!
# How a program can fail

`exec_*` tells when a program returns and what it leaves. This module is about
the other side: `FaultsIn P` says that every fault the program can end with,
from a given frame, is one of `P`. It is a precondition in disguise, and `simp`
computes it effect by effect: a passed guard leaves the rest of the program, a
guard that could fail leaves `P` of its own fault. What remains are the facts
about the storage that rule the unwanted faults out.
-/

namespace LilyContracts.Host

variable {σ A X Ev E α β : Type} {env : Env A X E} {P : Fault E → Prop}

/-- Every fault the program ends with, started on this frame, satisfies `P`. -/
def FaultsIn (env : Env A X E) (P : Fault E → Prop) (p : Prog σ A X Ev E α)
    (fr : Frame σ Ev) : Prop :=
  ∀ f, exec env p fr = .error f → P f

/-- A top-level call fails with what its program ended with. -/
theorem FaultsIn.result {C R : Type} {prog : C → Prog σ A X Ev E R} {s : σ} {tx : Tx A X E C}
    {f : Fault E} (h : FaultsIn tx.env P (prog tx.call) ⟨s, []⟩)
    (hf : (stepOf prog s tx).out.result = .error f) : P f := by
  refine h f ?_
  unfold stepOf invoke at hf
  split at hf
  next => cases hf
  next f' hex =>
    cases hf
    exact hex

section Steps

variable {fr : Frame σ Ev} {g : α → Prog σ A X Ev E β} {gu : Unit → Prog σ A X Ev E β}

/-- A rewrite of the result adds no fault. -/
theorem faultsIn_map {p : Prog σ A X Ev E α} {f : α → β} :
    FaultsIn env P (p >>= fun a => pure (f a)) fr ↔ FaultsIn env P p fr := by
  unfold FaultsIn
  rw [exec_bind]
  cases exec env p fr with
  | error e => simp [Except.bind]
  | ok q =>
    constructor
    · intro _ f hf
      cases hf
    · intro _ f hf
      cases hf

@[simp] theorem faultsIn_fmap {p : Prog σ A X Ev E α} {f : α → β} :
    FaultsIn env P (f <$> p) fr ↔ FaultsIn env P p fr := by
  rw [← bind_pure_comp]
  exact faultsIn_map

@[simp] theorem faultsIn_ite (c : Prop) [Decidable c] {p q : Prog σ A X Ev E α} :
    FaultsIn env P (if c then p else q) fr ↔
      (c → FaultsIn env P p fr) ∧ (¬ c → FaultsIn env P q fr) := by
  by_cases hc : c
  · simp [hc]
  · simp [hc]

@[simp] theorem faultsIn_pure (a : α) :
    FaultsIn env P (pure a : Prog σ A X Ev E α) fr ↔ True := by
  refine iff_true_intro ?_
  intro f hf
  cases hf

@[simp] theorem faultsIn_get (f : σ → α) :
    FaultsIn env P (get f : Prog σ A X Ev E α) fr ↔ True := by
  refine iff_true_intro ?_
  intro e he
  cases he

@[simp] theorem faultsIn_get_bind (f : σ → α) :
    FaultsIn env P (get f >>= g) fr ↔ FaultsIn env P (g (f fr.store)) fr := Iff.rfl

@[simp] theorem faultsIn_modify_bind (f : σ → σ) :
    FaultsIn env P (modify f >>= gu) fr ↔
      FaultsIn env P (gu ()) { fr with store := f fr.store } := Iff.rfl

@[simp] theorem faultsIn_publish_bind (ev : Ev) :
    FaultsIn env P (publish ev >>= gu) fr ↔
      FaultsIn env P (gu ()) { fr with events := fr.events ++ [ev] } := Iff.rfl

@[simp] theorem faultsIn_publish (ev : Ev) :
    FaultsIn env P (publish ev : Prog σ A X Ev E Unit) fr ↔ True := by
  refine iff_true_intro ?_
  intro f hf
  cases hf

@[simp] theorem faultsIn_ledgerTimestamp_bind {g : UInt64 → Prog σ A X Ev E β} :
    FaultsIn env P (ledgerTimestamp >>= g) fr ↔ FaultsIn env P (g env.timestamp) fr := Iff.rfl

@[simp] theorem faultsIn_requireAuth_bind (a : A) :
    FaultsIn env P (requireAuth a >>= gu) fr ↔
      (env.signs a = true → FaultsIn env P (gu ()) fr) ∧ (env.signs a = false → P .auth) := by
  unfold FaultsIn
  rw [exec_requireAuth_bind]
  cases env.signs a with
  | true => simp
  | false => simp [eq_comm]

@[simp] theorem faultsIn_lift_bind (e : Except (Fault E) α) :
    FaultsIn env P (lift e >>= g) fr ↔
      (∀ a, e = .ok a → FaultsIn env P (g a) fr) ∧ ∀ f, e = .error f → P f := by
  cases e with
  | ok a =>
    simp only [Except.ok.injEq, reduceCtorEq, false_imp_iff, implies_true, and_true]
    constructor
    · intro h b hb
      rw [← hb]
      exact h
    · intro h
      exact h a rfl
  | error f =>
    simp only [Except.error.injEq, reduceCtorEq, false_imp_iff, implies_true, true_and]
    constructor
    · intro h f' hf'
      rw [← hf']
      exact h f rfl
    · intro h f' hf'
      cases hf'
      exact h f rfl

@[simp] theorem faultsIn_lift (e : Except (Fault E) α) :
    FaultsIn env P (lift e : Prog σ A X Ev E α) fr ↔ ∀ f, e = .error f → P f := by
  unfold FaultsIn
  cases e with
  | ok a => simp [lift, exec]
  | error f => simp [lift, exec]

@[simp] theorem faultsIn_ask_bind (x : X) {g : Bool → Prog σ A X Ev E β} :
    FaultsIn env P (ask x >>= g) fr ↔
      (∀ b, env.answer x = .ok b → FaultsIn env P (g b) fr) ∧
        ∀ f, env.answer x = .error f → P f := by
  have h : FaultsIn env P (lift (env.answer x) >>= g) fr ↔ _ := faultsIn_lift_bind _
  unfold FaultsIn at h ⊢
  rw [exec_lift_bind] at h
  rw [exec_ask_bind]
  exact h

@[simp] theorem faultsIn_unwrapOptimized_bind (o : Option α) :
    FaultsIn env P (unwrapOptimized o >>= g) fr ↔
      (∀ a, o = some a → FaultsIn env P (g a) fr) ∧ (o = none → P .trap) := by
  unfold FaultsIn
  rw [exec_unwrapOptimized_bind]
  cases o with
  | some a => simp
  | none => simp [eq_comm]

@[simp] theorem faultsIn_unwrapOptimized (o : Option α) :
    FaultsIn env P (unwrapOptimized o : Prog σ A X Ev E α) fr ↔ (o = none → P .trap) := by
  unfold FaultsIn
  cases o with
  | some a => simp [unwrapOptimized, exec]
  | none => simp [unwrapOptimized, exec]

@[simp] theorem faultsIn_unwrapOrPanic_bind (e : E) (o : Option α) :
    FaultsIn env P (unwrapOrPanic e o >>= g) fr ↔
      (∀ a, o = some a → FaultsIn env P (g a) fr) ∧ (o = none → P (.contract e)) := by
  unfold FaultsIn
  rw [exec_unwrapOrPanic_bind]
  cases o with
  | some a => simp
  | none => simp [eq_comm]

@[simp] theorem faultsIn_unwrapOrPanic (e : E) (o : Option α) :
    FaultsIn env P (unwrapOrPanic e o : Prog σ A X Ev E α) fr ↔
      (o = none → P (.contract e)) := by
  unfold FaultsIn
  cases o with
  | some a => simp [unwrapOrPanic, exec]
  | none => simp [unwrapOrPanic, exec]

end Steps

/-- What is asked of a pure computation that may end in any fault, when only one
of them matters. -/
@[simp] theorem forall_error_eq {x : Except (Fault E) α} {g : Fault E} {Q : Prop} :
    (∀ f, x = .error f → f = g → Q) ↔ (x = .error g → Q) := by
  constructor
  · intro h hx
    exact h g hx rfl
  · intro h f hx hf
    rw [hf] at hx
    exact h hx

end LilyContracts.Host
