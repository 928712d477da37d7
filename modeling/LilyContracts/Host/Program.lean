import Mathlib.Logic.Function.Basic

/-!
# Contract programs as trees of host effects

A Soroban entry point is straight-line Rust over a handful of host effects:
read and write the contract's own storage, demand a signature
(`Address::require_auth`), ask another contract, read the ledger clock,
publish an event, or stop with an error. `Prog` is that syntax as a tree, so
that one translation of an entry point serves two semantics:

* `exec` (here) runs a frame to its end against one call environment: the
  Soroban 22 host, which never lets anything else run inside a frame;
* `advance` (`Reentry.lean`) stops at each `requireAuth` and `call`, the only
  places where a host that permits reentry may run further invocations.

The module is parametric in the storage `σ`, the addresses `A`, the queries
`X` put to other contracts, the events `Ev` and the typed errors `E`; it knows
nothing of any particular contract. Storage time-to-live is not modelled: it
decides when the host archives an entry, never what a program reads.
-/

namespace LilyContracts.Host

/-- Why a frame failed: a typed contract error (`panic_with_error!`), the
host's `Auth` error, or a trap (an unwrap on an absent entry, an arithmetic
overflow). -/
inductive Fault (E : Type)
  | contract (e : E)
  | auth
  | trap
  deriving DecidableEq, Repr

/-- A contract program: the host effects of one frame, in order, ending in a
value or a fault. -/
inductive Prog (σ A X Ev E α : Type) : Type
  | ret (a : α)
  | fail (f : Fault E)
  | read (k : σ → Prog σ A X Ev E α)
  | write (f : σ → σ) (k : Prog σ A X Ev E α)
  | requireAuth (a : A) (k : Prog σ A X Ev E α)
  | call (x : X) (k : Bool → Prog σ A X Ev E α)
  | timestamp (k : UInt64 → Prog σ A X Ev E α)
  | publish (ev : Ev) (k : Prog σ A X Ev E α)

variable {σ A X Ev E α β : Type}

namespace Prog

/-- Sequencing: graft `g a` at every `ret a`. -/
def bind : Prog σ A X Ev E α → (α → Prog σ A X Ev E β) → Prog σ A X Ev E β
  | .ret a, g => g a
  | .fail f, _ => .fail f
  | .read k, g => .read fun s => (k s).bind g
  | .write f k, g => .write f (k.bind g)
  | .requireAuth a k, g => .requireAuth a (k.bind g)
  | .call x k, g => .call x fun b => (k b).bind g
  | .timestamp k, g => .timestamp fun t => (k t).bind g
  | .publish ev k, g => .publish ev (k.bind g)

instance : Monad (Prog σ A X Ev E) where
  pure := .ret
  bind := .bind

theorem bind_ret (p : Prog σ A X Ev E α) : p.bind .ret = p := by
  induction p with
  | ret a => rfl
  | fail f => rfl
  | read k ih => exact congrArg Prog.read (funext ih)
  | write f k ih => exact congrArg (Prog.write f) ih
  | requireAuth a k ih => exact congrArg (Prog.requireAuth a) ih
  | call x k ih => exact congrArg (Prog.call x) (funext ih)
  | timestamp k ih => exact congrArg Prog.timestamp (funext ih)
  | publish ev k ih => exact congrArg (Prog.publish ev) ih

theorem bind_bind {γ : Type} (p : Prog σ A X Ev E α) (g : α → Prog σ A X Ev E β)
    (h : β → Prog σ A X Ev E γ) : (p.bind g).bind h = p.bind fun a => (g a).bind h := by
  induction p with
  | ret a => rfl
  | fail f => rfl
  | read k ih => exact congrArg Prog.read (funext ih)
  | write f k ih => exact congrArg (Prog.write f) ih
  | requireAuth a k ih => exact congrArg (Prog.requireAuth a) ih
  | call x k ih => exact congrArg (Prog.call x) (funext ih)
  | timestamp k ih => exact congrArg Prog.timestamp (funext ih)
  | publish ev k ih => exact congrArg (Prog.publish ev) ih

/-- Sequencing is associative with `ret` as its unit, so `simp` may reassociate
an entry point that calls helpers. -/
instance : LawfulMonad (Prog σ A X Ev E) :=
  LawfulMonad.mk' _ bind_ret (fun _ _ => rfl) bind_bind

end Prog

/-! ## The effects as one-step programs -/

/-- Read a part of the contract's storage. -/
def get (f : σ → α) : Prog σ A X Ev E α := .read fun s => .ret (f s)

/-- Overwrite the contract's storage. -/
def modify (f : σ → σ) : Prog σ A X Ev E Unit := .write f (.ret ())

/-- `Address::require_auth`. -/
def requireAuth (a : A) : Prog σ A X Ev E Unit := .requireAuth a (.ret ())

/-- Ask another contract a yes/no question. -/
def ask (x : X) : Prog σ A X Ev E Bool := .call x .ret

/-- `env.ledger().timestamp()`. -/
def ledgerTimestamp : Prog σ A X Ev E UInt64 := .timestamp .ret

/-- `env.events().publish`. -/
def publish (ev : Ev) : Prog σ A X Ev E Unit := .publish ev (.ret ())

/-- `panic_with_error!`: stop the frame with a typed error. -/
def panicWithError (e : E) : Prog σ A X Ev E α := .fail (.contract e)

/-- A pure computation that may fault. -/
def lift : Except (Fault E) α → Prog σ A X Ev E α
  | .ok a => .ret a
  | .error f => .fail f

/-- `Option::unwrap_optimized`: an absent value traps. -/
def unwrapOptimized : Option α → Prog σ A X Ev E α
  | some a => .ret a
  | none => .fail .trap

/-- `unwrap_or_else(|| panic_with_error!(env, e))`. -/
def unwrapOrPanic (e : E) : Option α → Prog σ A X Ev E α
  | some a => .ret a
  | none => .fail (.contract e)

/-! ## Running a frame to its end -/

/-- What a call finds around it: whose signatures it carries, the ledger
clock, and how other contracts answer it. -/
structure Env (A X E : Type) where
  signs : A → Bool
  timestamp : UInt64
  answer : X → Except (Fault E) Bool

/-- The effects of a running frame so far: the storage as it stands and the
events published, oldest first. -/
structure Frame (σ Ev : Type) where
  store : σ
  events : List Ev

/-- Run a program to its end. `require_auth(a)` succeeds exactly when `a`
signed the call. -/
def exec (env : Env A X E) :
    Prog σ A X Ev E α → Frame σ Ev → Except (Fault E) (α × Frame σ Ev)
  | .ret a, fr => .ok (a, fr)
  | .fail f, _ => .error f
  | .read k, fr => exec env (k fr.store) fr
  | .write f k, fr => exec env k { fr with store := f fr.store }
  | .requireAuth a k, fr => if env.signs a then exec env k fr else .error .auth
  | .call x k, fr =>
    match env.answer x with
    | .ok b => exec env (k b) fr
    | .error f => .error f
  | .timestamp k, fr => exec env (k env.timestamp) fr
  | .publish ev k, fr => exec env k { fr with events := fr.events ++ [ev] }

variable {env : Env A X E} {fr fr' : Frame σ Ev}

theorem exec_bind (p : Prog σ A X Ev E α) (g : α → Prog σ A X Ev E β) (fr : Frame σ Ev) :
    exec env (p >>= g) fr = (exec env p fr).bind fun r => exec env (g r.1) r.2 := by
  show exec env (p.bind g) fr = _
  induction p generalizing fr with
  | ret a => rfl
  | fail f => rfl
  | read k ih => exact ih _ _
  | write f k ih => exact ih _
  | requireAuth a k ih =>
    simp only [Prog.bind, exec]
    split
    next => exact ih _
    next => rfl
  | call x k ih =>
    simp only [Prog.bind, exec]
    split
    next => exact ih _ _
    next => rfl
  | timestamp k ih => exact ih _ _
  | publish ev k ih => exact ih _

/-! ## Executing one effect at a time

`simp` runs a program through these, effect by effect, until nothing but its
guards is left. -/

section Steps

variable {g : α → Prog σ A X Ev E β} {gu : Unit → Prog σ A X Ev E β}

@[simp] theorem exec_pure (a : α) :
    exec env (pure a : Prog σ A X Ev E α) fr = .ok (a, fr) := rfl

@[simp] theorem exec_get_bind (f : σ → α) :
    exec env (get f >>= g) fr = exec env (g (f fr.store)) fr := rfl

@[simp] theorem exec_modify_bind (f : σ → σ) :
    exec env (modify f >>= gu) fr = exec env (gu ()) { fr with store := f fr.store } := rfl

@[simp] theorem exec_modify (f : σ → σ) :
    exec env (modify f : Prog σ A X Ev E Unit) fr =
      .ok ((), { fr with store := f fr.store }) := rfl

@[simp] theorem exec_requireAuth_bind (a : A) :
    exec env (requireAuth a >>= gu) fr =
      if env.signs a then exec env (gu ()) fr else .error .auth := rfl

@[simp] theorem exec_ask_bind (x : X) {g : Bool → Prog σ A X Ev E β} :
    exec env (ask x >>= g) fr = (env.answer x).bind fun b => exec env (g b) fr := by
  rw [exec_bind, ask, exec]
  cases env.answer x <;> rfl

@[simp] theorem exec_ledgerTimestamp_bind {g : UInt64 → Prog σ A X Ev E β} :
    exec env (ledgerTimestamp >>= g) fr = exec env (g env.timestamp) fr := rfl

@[simp] theorem exec_publish_bind (ev : Ev) :
    exec env (publish ev >>= gu) fr =
      exec env (gu ()) { fr with events := fr.events ++ [ev] } := rfl

@[simp] theorem exec_publish (ev : Ev) :
    exec env (publish ev : Prog σ A X Ev E Unit) fr =
      .ok ((), { fr with events := fr.events ++ [ev] }) := rfl

@[simp] theorem exec_lift_bind (e : Except (Fault E) α) :
    exec env (lift e >>= g) fr = e.bind fun a => exec env (g a) fr := by
  cases e <;> rfl

@[simp] theorem exec_unwrapOptimized_bind (o : Option α) :
    exec env (unwrapOptimized o >>= g) fr =
      o.elim (.error .trap) fun a => exec env (g a) fr := by
  cases o <;> rfl

@[simp] theorem exec_unwrapOrPanic_bind (e : E) (o : Option α) :
    exec env (unwrapOrPanic e o >>= g) fr =
      o.elim (.error (.contract e)) fun a => exec env (g a) fr := by
  cases o <;> rfl

end Steps

/-- A program followed by a rewrite of its result. -/
theorem exec_map_ok {p : Prog σ A X Ev E α} {f : α → β} {b : β} :
    exec env (p >>= fun a => pure (f a)) fr = .ok (b, fr') ↔
      ∃ a, exec env p fr = .ok (a, fr') ∧ b = f a := by
  rw [exec_bind]
  cases exec env p fr with
  | error e => simp [Except.bind]
  | ok q =>
    show Except.ok (f q.1, q.2) = .ok (b, fr') ↔ _
    constructor
    · intro h
      cases h
      exact ⟨q.1, rfl, rfl⟩
    · intro h
      obtain ⟨a, hq, rfl⟩ := h
      cases hq
      rfl

/-! ## Programs that only read -/

/-- No write and no event on any path: what a view is. -/
def Prog.ReadOnly : Prog σ A X Ev E α → Prop
  | .ret _ => True
  | .fail _ => True
  | .read k => ∀ s, (k s).ReadOnly
  | .write _ _ => False
  | .requireAuth _ k => k.ReadOnly
  | .call _ k => ∀ b, (k b).ReadOnly
  | .timestamp k => ∀ t, (k t).ReadOnly
  | .publish _ _ => False

theorem Prog.ReadOnly.bind {p : Prog σ A X Ev E α} {g : α → Prog σ A X Ev E β}
    (hp : p.ReadOnly) (hg : ∀ a, (g a).ReadOnly) : (p >>= g).ReadOnly := by
  show (p.bind g).ReadOnly
  induction p with
  | ret a => exact hg a
  | fail f => trivial
  | read k ih => exact fun s => ih s (hp s)
  | write f k ih => exact hp.elim
  | requireAuth a k ih => exact ih hp
  | call x k ih => exact fun b => ih b (hp b)
  | timestamp k ih => exact fun t => ih t (hp t)
  | publish ev k ih => exact hp.elim

theorem readOnly_pure (a : α) : (pure a : Prog σ A X Ev E α).ReadOnly := trivial

theorem readOnly_get (f : σ → α) : (get f : Prog σ A X Ev E α).ReadOnly := fun _ => trivial

theorem readOnly_lift (e : Except (Fault E) α) : (lift e : Prog σ A X Ev E α).ReadOnly := by
  cases e <;> trivial

theorem readOnly_unwrapOptimized (o : Option α) :
    (unwrapOptimized o : Prog σ A X Ev E α).ReadOnly := by
  cases o <;> trivial

theorem readOnly_unwrapOrPanic (e : E) (o : Option α) :
    (unwrapOrPanic e o : Prog σ A X Ev E α).ReadOnly := by
  cases o <;> trivial

/-- A read-only program that returns leaves its frame alone. -/
theorem exec_readOnly {p : Prog σ A X Ev E α} (hp : p.ReadOnly) {a : α}
    (h : exec env p fr = .ok (a, fr')) : fr' = fr := by
  induction p with
  | ret b =>
    cases h
    rfl
  | fail f => cases h
  | read k ih => exact ih _ (hp _) h
  | write f k ih => exact hp.elim
  | requireAuth b k ih =>
    simp only [exec] at h
    split at h
    next => exact ih hp h
    next => cases h
  | call x k ih =>
    simp only [exec] at h
    split at h
    next => exact ih _ (hp _) h
    next => cases h
  | timestamp k ih => exact ih _ (hp _) h
  | publish ev k ih => exact hp.elim

/-! ## When a guarded result is a success -/

section Guards

variable {ε γ δ : Type} {f : ε} {x : Except ε γ} {r : γ}

@[simp] theorem guard_eq_ok {c : Prop} [Decidable c] :
    (if c then x else .error f) = .ok r ↔ c ∧ x = .ok r := by
  split
  next h => simp [h]
  next h => simp [h]

@[simp] theorem bind_eq_ok {y : Except ε δ} {k : δ → Except ε γ} :
    y.bind k = .ok r ↔ ∃ a, y = .ok a ∧ k a = .ok r := by
  cases y with
  | error e => simp [Except.bind]
  | ok a => simp [Except.bind]

@[simp] theorem map_eq_ok {y : Except ε δ} {k : δ → γ} :
    y.map k = .ok r ↔ ∃ a, y = .ok a ∧ k a = r := by
  cases y with
  | error e => simp [Except.map]
  | ok a => simp [Except.map]

@[simp] theorem elim_eq_ok {o : Option δ} {k : δ → Except ε γ} :
    o.elim (.error f) k = .ok r ↔ ∃ a, o = some a ∧ k a = .ok r := by
  cases o <;> simp

/-- A returning unit program determines the frame it leaves. -/
theorem ok_unit_eq_ok {u : Unit} {y y' : γ} :
    (Except.ok ((), y) : Except ε (Unit × γ)) = .ok (u, y') ↔ y' = y := by
  simp [eq_comm]

end Guards

end LilyContracts.Host
