import LilyContracts.Host.Value
import LilyContracts.Host.Run
import LilyContracts.Host.Faults

/-!
# `lily-common`: the primitives the four contracts share

Validation helpers, the two authorization helpers, the reentrancy guard and the
shared types of `crates/lily-common/src/lib.rs`, over the host programs of
`Host/Program.lean`.

The workspace as committed calls a few names that no file defines
(`checked_inc`, `read_instance`, `require_enabled`, `get_admin_internal`,
payments' `SCHEMA_VERSION`, the wallet's `next_revision`, `MAX_STRING_LEN`) and
raises an error variant the enum lacks (`WalletNotBound`). The functions are the
fields of `Missing`, a parameter of every contract model, and what the contracts
rely on about them is stated separately (`Missing.ChecksInc`,
`Missing.ReadsInstance`, `Missing.RequiresEnabled`), so that each theorem names
exactly the behaviour it needs; the error variant is added to `ProtocolError`,
`next_revision` is a parameter of the wallet alone, and `MAX_STRING_LEN` of the
one helper that reads it.
-/

namespace LilyContracts

open Host

/-- Maximum basis points accepted by percentage-based configuration. -/
def maxBps : UInt32 := 10000

/-- Common protocol errors. `walletNotBound` is raised by `create_intent` and
missing from the enum in the source. -/
inductive ProtocolError
  | alreadyInitialized
  | notInitialized
  | unauthorized
  | invalidInput
  | feeBpsTooHigh
  | alreadyExists
  | missingRecord
  | paymentAlreadyFinalized
  | walletAlreadyBound
  | reentrantCall
  | walletNotBound
  deriving DecidableEq, Repr

/-- Shared payment status used by settlement-oriented contracts. -/
inductive PaymentStatus
  | pending
  | settled
  | cancelled
  deriving DecidableEq, Repr

/-- Configuration fields shared by the protocol and payments contracts. -/
structure ProtocolConfig (A : Type) where
  admin : A
  treasury : A
  feeBps : UInt32
  deriving DecidableEq

variable {σ A X Ev α : Type}

/-! ## Checks -/

/-- Panic with a typed contract error when a condition is not satisfied. -/
def require (condition : Prop) [Decidable condition] (error : ProtocolError) :
    Prog σ A X Ev ProtocolError Unit :=
  if condition then pure () else panicWithError error

/-- Reject empty Soroban strings for storage-bound metadata fields. -/
def requireNonEmpty (len : UInt32) : Prog σ A X Ev ProtocolError Unit :=
  require (0 < len) .invalidInput

/-- The bytes `require_non_whitespace` does not count: space, tab, newline, carriage return,
vertical tab and form feed. -/
def isWhitespace (b : UInt8) : Bool :=
  b == 0x20 || b == 0x09 || b == 0x0A || b == 0x0D || b == 0x0B || b == 0x0C

/-- Some byte of the string is not whitespace. -/
def hasNonWhitespace (s : HostString) : Bool :=
  s.bytes.any fun b => !isWhitespace b

/-- Reject empty or whitespace-only Soroban strings for storage-bound metadata and reference
fields. No entry point calls it. -/
def requireNonWhitespace (maxStringLen : UInt32) (s : HostString) :
    Prog σ A X Ev ProtocolError Unit := do
  require (0 < s.len ∧ s.len ≤ maxStringLen) .invalidInput
  require (hasNonWhitespace s) .invalidInput

/-- Reject fee values greater than 100%. -/
def requireValidBps (feeBps : UInt32) : Prog σ A X Ev ProtocolError Unit :=
  require (feeBps ≤ maxBps) .feeBpsTooHigh

/-- The single entry point for signature checks. -/
def requireAuthOrError (addr : A) : Prog σ A X Ev ProtocolError Unit :=
  requireAuth addr

/-- Typed role guard. -/
def requireCaller [DecidableEq A] (caller expected : A) : Prog σ A X Ev ProtocolError Unit :=
  require (caller = expected) .unauthorized

/-- `n + 1` on a `u64` under the release profile's `overflow-checks`. -/
def overflowingInc (n : UInt64) : Except (Fault ProtocolError) UInt64 :=
  if n.toNat + 1 < 2 ^ 64 then .ok (n + 1) else .error .trap

theorem overflowingInc_eq_ok {n m : UInt64} :
    overflowingInc n = .ok m ↔ n.toNat + 1 < 2 ^ 64 ∧ m = n + 1 := by
  unfold overflowingInc
  rw [guard_eq_ok, Except.ok.injEq, eq_comm (a := m)]

/-- A counter that does not overflow moves on by one. -/
theorem toNat_add_one {n : UInt64} (h : n.toNat + 1 < 2 ^ 64) :
    (n + 1).toNat = n.toNat + 1 := by
  rw [UInt64.toNat_add, UInt64.toNat_one]
  exact Nat.mod_eq_of_lt h

/-- Extend the instance's time-to-live; nothing a program can read. -/
def bumpInstance : Prog σ A X Ev ProtocolError Unit := pure ()

section Exec

variable {env : Env A X ProtocolError} {fr : Frame σ Ev} {β : Type}
  {g : Unit → Prog σ A X Ev ProtocolError β}

@[simp] theorem exec_require (c : Prop) [Decidable c] (e : ProtocolError) :
    exec env (require c e) fr = if c then .ok ((), fr) else .error (.contract e) := by
  unfold require
  split
  next => rfl
  next => rfl

@[simp] theorem exec_require_bind (c : Prop) [Decidable c] (e : ProtocolError) :
    exec env (require c e >>= g) fr = if c then exec env (g ()) fr else .error (.contract e) := by
  unfold require
  split
  next => rfl
  next => rfl

@[simp] theorem exec_requireNonEmpty_bind (len : UInt32) :
    exec env (requireNonEmpty len >>= g) fr =
      if 0 < len then exec env (g ()) fr else .error (.contract .invalidInput) :=
  exec_require_bind _ _

@[simp] theorem exec_requireValidBps_bind (feeBps : UInt32) :
    exec env (requireValidBps feeBps >>= g) fr =
      if feeBps ≤ maxBps then exec env (g ()) fr else .error (.contract .feeBpsTooHigh) :=
  exec_require_bind _ _

@[simp] theorem exec_requireCaller_bind [DecidableEq A] (caller expected : A) :
    exec env (requireCaller caller expected >>= g) fr =
      if caller = expected then exec env (g ()) fr else .error (.contract .unauthorized) :=
  exec_require_bind _ _

@[simp] theorem exec_requireAuthOrError_bind (addr : A) :
    exec env (requireAuthOrError addr >>= g) fr =
      if env.signs addr then exec env (g ()) fr else .error .auth := rfl

@[simp] theorem exec_bumpInstance_bind :
    exec env (bumpInstance >>= g) fr = exec env (g ()) fr := rfl

theorem readOnly_require (c : Prop) [Decidable c] (e : ProtocolError) :
    (require c e : Prog σ A X Ev ProtocolError Unit).ReadOnly := by
  unfold require
  split
  next => trivial
  next => trivial

end Exec

section Faults

variable {env : Env A X ProtocolError} {P : Fault ProtocolError → Prop} {fr : Frame σ Ev}
  {β : Type} {g : Unit → Prog σ A X Ev ProtocolError β}

@[simp] theorem faultsIn_require_bind (c : Prop) [Decidable c] (e : ProtocolError) :
    FaultsIn env P (require c e >>= g) fr ↔
      (c → FaultsIn env P (g ()) fr) ∧ (¬ c → P (.contract e)) := by
  unfold FaultsIn
  rw [exec_require_bind]
  by_cases hc : c
  · simp [hc]
  · simp [hc, eq_comm]

@[simp] theorem faultsIn_requireNonEmpty_bind (len : UInt32) :
    FaultsIn env P (requireNonEmpty len >>= g) fr ↔
      (0 < len → FaultsIn env P (g ()) fr) ∧ (¬ 0 < len → P (.contract .invalidInput)) :=
  faultsIn_require_bind _ _

@[simp] theorem faultsIn_requireValidBps_bind (feeBps : UInt32) :
    FaultsIn env P (requireValidBps feeBps >>= g) fr ↔
      (feeBps ≤ maxBps → FaultsIn env P (g ()) fr) ∧
        (¬ feeBps ≤ maxBps → P (.contract .feeBpsTooHigh)) :=
  faultsIn_require_bind _ _

@[simp] theorem faultsIn_requireCaller_bind [DecidableEq A] (caller expected : A) :
    FaultsIn env P (requireCaller caller expected >>= g) fr ↔
      (caller = expected → FaultsIn env P (g ()) fr) ∧
        (¬ caller = expected → P (.contract .unauthorized)) :=
  faultsIn_require_bind _ _

@[simp] theorem faultsIn_requireAuthOrError_bind (addr : A) :
    FaultsIn env P (requireAuthOrError addr >>= g) fr ↔
      (env.signs addr = true → FaultsIn env P (g ()) fr) ∧
        (env.signs addr = false → P .auth) :=
  faultsIn_requireAuth_bind _

@[simp] theorem faultsIn_bumpInstance_bind :
    FaultsIn env P (bumpInstance >>= g) fr ↔ FaultsIn env P (g ()) fr := Iff.rfl

@[simp] theorem faultsIn_bumpInstance :
    FaultsIn env P (bumpInstance : Prog σ A X Ev ProtocolError Unit) fr ↔ True :=
  faultsIn_pure ()

end Faults

/-! ## The reentrancy guard -/

/-- Storage with symbol-keyed instance entries, where the guards keep their
flags. Enum keys are encoded as vectors, so a raw `Symbol` key never collides
with a `DataKey`. -/
class SymbolEntries (σ : Type) where
  entries : σ → Symbol → Option Bool
  withEntries : (Symbol → Option Bool) → σ → σ

/-- Reentrancy guard backed by an instance-storage flag. -/
structure NonReentrantGuard where
  key : Symbol

namespace NonReentrantGuard

variable [SymbolEntries σ]

/-- Acquire the guard for `key`, failing with `ReentrantCall` if it is held. -/
def acquire (key : Symbol) : Prog σ A X Ev ProtocolError NonReentrantGuard := do
  require (¬ (← get fun s => SymbolEntries.entries s key).isSome) .reentrantCall
  modify fun s =>
    SymbolEntries.withEntries (Function.update (SymbolEntries.entries s) key (some true)) s
  pure ⟨key⟩

/-- `Drop::drop`, which Rust runs when the guard leaves scope. A failing frame
is rolled back by the host instead. -/
def drop (guard : NonReentrantGuard) : Prog σ A X Ev ProtocolError Unit := do
  if (← get fun s => SymbolEntries.entries s guard.key).isSome then
    modify fun s =>
      SymbolEntries.withEntries (Function.update (SymbolEntries.entries s) guard.key none) s

variable {env : Env A X ProtocolError} {fr : Frame σ Ev} {β : Type}

@[simp] theorem exec_acquire_bind (key : Symbol)
    {g : NonReentrantGuard → Prog σ A X Ev ProtocolError β} :
    exec env (acquire key >>= g) fr =
      if ¬ (SymbolEntries.entries fr.store key).isSome then
        exec env (g ⟨key⟩)
          { fr with
            store := SymbolEntries.withEntries
              (Function.update (SymbolEntries.entries fr.store) key (some true)) fr.store }
      else .error (.contract .reentrantCall) := by
  simp only [acquire, bind_assoc, exec_get_bind, exec_require_bind, exec_modify_bind, pure_bind]

@[simp] theorem exec_drop (guard : NonReentrantGuard) :
    exec env (guard.drop : Prog σ A X Ev ProtocolError Unit) fr =
      .ok ((), { fr with
        store :=
          if (SymbolEntries.entries fr.store guard.key).isSome then
            SymbolEntries.withEntries
              (Function.update (SymbolEntries.entries fr.store) guard.key none) fr.store
          else fr.store }) := by
  simp only [drop, exec_get_bind]
  split
  next h => rw [exec_modify]
  next h => rfl

variable {P : Fault ProtocolError → Prop}

@[simp] theorem faultsIn_acquire_bind (key : Symbol)
    {g : NonReentrantGuard → Prog σ A X Ev ProtocolError β} :
    FaultsIn env P (acquire key >>= g) fr ↔
      (SymbolEntries.entries fr.store key = none →
        FaultsIn env P (g ⟨key⟩)
          { fr with
            store := SymbolEntries.withEntries
              (Function.update (SymbolEntries.entries fr.store) key (some true)) fr.store }) ∧
        (SymbolEntries.entries fr.store key ≠ none → P (.contract .reentrantCall)) := by
  unfold FaultsIn
  rw [exec_acquire_bind]
  cases SymbolEntries.entries fr.store key with
  | none => simp
  | some b => simp [eq_comm]

@[simp] theorem faultsIn_drop (guard : NonReentrantGuard) :
    FaultsIn env P (guard.drop : Prog σ A X Ev ProtocolError Unit) fr ↔ True := by
  refine iff_true_intro ?_
  intro f hf
  rw [exec_drop] at hf
  cases hf

end NonReentrantGuard

/-! ## Names the workspace does not define -/

/-- The functions that the contracts call and no file of the workspace
defines. `readInstance` and `getAdminInternal` take the entry found under their
key. -/
structure Missing where
  checkedInc : UInt64 → Except (Fault ProtocolError) UInt64
  readInstance : {α : Type} → Option α → Except (Fault ProtocolError) α
  getAdminInternal : {α : Type} → Option α → Except (Fault ProtocolError) α
  requireEnabled : Bool → Except (Fault ProtocolError) Unit
  paymentsSchemaVersion : UInt32

namespace Missing

/-- `checked_inc` adds one and fails at `u64::MAX`. -/
structure ChecksInc (M : Missing) : Prop where
  ok : ∀ n : UInt64, n.toNat + 1 < 2 ^ 64 → M.checkedInc n = .ok (n + 1)
  error : ∀ n : UInt64, ¬ n.toNat + 1 < 2 ^ 64 → ∃ f, M.checkedInc n = .error f

/-- `read_instance` reads an entry that is present and traps on an absent
one. -/
structure ReadsInstance (M : Missing) : Prop where
  present : ∀ {α : Type} (a : α), M.readInstance (some a) = .ok a
  absent : ∀ {α : Type}, M.readInstance (none : Option α) = .error .trap

/-- `require_enabled` lets an enabled binding through and rejects a disabled
one. -/
structure RequiresEnabled (M : Missing) : Prop where
  enabled : M.requireEnabled true = .ok ()
  disabled : ∃ f, M.requireEnabled false = .error f

variable {M : Missing}

theorem ChecksInc.ok_iff (h : M.ChecksInc) {n m : UInt64} :
    M.checkedInc n = .ok m ↔ n.toNat + 1 < 2 ^ 64 ∧ m = n + 1 := by
  by_cases hn : n.toNat + 1 < 2 ^ 64
  · rw [h.ok n hn, Except.ok.injEq, eq_comm (a := m)]
    exact ⟨fun hm => ⟨hn, hm⟩, And.right⟩
  · obtain ⟨f, hf⟩ := h.error n hn
    rw [hf]
    exact ⟨nofun, fun hm => absurd hm.1 hn⟩

/-- The counter it returns has not wrapped. -/
theorem ChecksInc.toNat_eq (h : M.ChecksInc) {n m : UInt64} (inc : M.checkedInc n = .ok m) :
    m.toNat = n.toNat + 1 := by
  obtain ⟨hlt, rfl⟩ := h.ok_iff.mp inc
  exact toNat_add_one hlt

theorem ReadsInstance.ok_iff (h : M.ReadsInstance) {o : Option α} {a : α} :
    M.readInstance o = .ok a ↔ o = some a := by
  cases o with
  | none => simp [h.absent]
  | some b => simp [h.present]

/-- The admin that a call reads and demands the signature of is the stored one. -/
theorem ReadsInstance.signed (h : M.ReadsInstance) {o : Option α} {a b : α} {signs : α → Bool}
    (ha : o = some a) (hb : M.readInstance o = .ok b) (hsigned : signs b = true) :
    signs a = true := by
  obtain rfl : a = b := Option.some.inj (ha.symm.trans (h.ok_iff.mp hb))
  exact hsigned

theorem RequiresEnabled.ok_iff (h : M.RequiresEnabled) {b : Bool} {u : Unit} :
    M.requireEnabled b = .ok u ↔ b = true := by
  cases b with
  | true => simp [h.enabled]
  | false =>
    obtain ⟨f, hf⟩ := h.disabled
    simp [hf]

/-- Concrete stand-ins that behave as documented, to evaluate the model with:
`checked_inc` and `require_enabled` panic with `InvalidInput` where they
fail. -/
def documented : Missing where
  checkedInc n := if n.toNat + 1 < 2 ^ 64 then .ok (n + 1) else .error (.contract .invalidInput)
  readInstance o := match o with
    | some a => .ok a
    | none => .error .trap
  getAdminInternal o := match o with
    | some a => .ok a
    | none => .error .trap
  requireEnabled b := if b then .ok () else .error (.contract .invalidInput)
  paymentsSchemaVersion := 1

theorem documented_checksInc : documented.ChecksInc where
  ok _ h := if_pos h
  error _ h := ⟨_, if_neg h⟩

theorem documented_readsInstance : documented.ReadsInstance where
  present _ := rfl
  absent := rfl

theorem documented_requiresEnabled : documented.RequiresEnabled where
  enabled := rfl
  disabled := ⟨_, rfl⟩

end Missing

end LilyContracts
