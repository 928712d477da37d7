import LilyContracts.Guards
import LilyContracts.Host.Exclusion

/-!
# The guard, held across a body that calls out

The docstring of `NonReentrantGuard` shows how it is meant to be used: acquire it,
do everything, calls to other contracts included, and let it go at the end of the
function. No entry point of the four contracts uses it so, they hold it only where
nothing can interrupt them (`Atomicity.lean` is about them); the contract that does
is `Gatekeeper`, which `lily-common` keeps for its tests.

The guard is a flag in instance storage, so it keeps out only frames that see it. On
the host of `Host/Reentry.lean` all frames of a contract share one live instance
store, and everything here rests on that assumption. Where nested frames have a copy
of the instance entries each, a nested `acquire` does not find the flag; and a host
that refuses nested calls of the same contract does so before the flag is read.

`guarded` is the documented use, with any body that does not touch the flag itself,
and `guard_excludes` says what it is good for on that host: in every nest of calls at
most one guarded function is under way, every other one entered meanwhile fails, the
flag is down when the last frame has returned, and what happened is a run of top-level
calls. `gatekeeper_excludes` is the same for `Gatekeeper`, whose `hold_and_hop` holds
the guard while another contract calls back.
-/

namespace LilyContracts

open Host

namespace NonReentrantGuard

variable {σ A X Ev C R α β : Type} [SymbolEntries σ] {key : Symbol}

/-- The flag of `key` is set. -/
def flagged (key : Symbol) (s : σ) : Bool := (SymbolEntries.entries s key).isSome

/-- A function that holds the guard across its body. -/
def guarded (key : Symbol) (body : Prog σ A X Ev ProtocolError α) :
    Prog σ A X Ev ProtocolError α := do
  let guard ← acquire key
  let a ← body
  guard.drop
  pure a

/-- The program leaves the flag of `key` as it is. -/
def KeepsFlag (key : Symbol) : Prog σ A X Ev ProtocolError α → Prop
  | .ret _ => True
  | .fail _ => True
  | .read k => ∀ s, KeepsFlag key (k s)
  | .write f k =>
    (∀ s, SymbolEntries.entries (f s) key = SymbolEntries.entries s key) ∧ KeepsFlag key k
  | .requireAuth _ k => KeepsFlag key k
  | .call _ k => ∀ b, KeepsFlag key (k b)
  | .timestamp k => ∀ t, KeepsFlag key (k t)
  | .publish _ k => KeepsFlag key k

section Steps

variable {env : Env A X ProtocolError} {fr : Frame σ Ev} {cur : σ}

/-- An acquisition of a flag that is set fails before anything else happens. -/
theorem advance_acquire (h : flagged key fr.store = true)
    {g : NonReentrantGuard → Prog σ A X Ev ProtocolError β} :
    advance env (acquire key >>= g) fr = .failed (.contract .reentrantCall) := by
  have hset : (SymbolEntries.entries fr.store key).isSome = true := h
  simp only [acquire, bind_assoc]
  show advance env (require (¬ (SymbolEntries.entries fr.store key).isSome = true) _ >>= _) fr = _
  unfold require
  rw [if_neg (by simp [hset])]
  rfl

omit [SymbolEntries σ] in
@[simp] theorem locked_require_bind (c : Prop) [Decidable c] (e : ProtocolError)
    {busy : σ → Bool} {gu : Unit → Prog σ A X Ev ProtocolError β} :
    (require c e >>= gu : Prog σ A X Ev ProtocolError β).Locked busy cur ↔
      (c → (gu ()).Locked busy cur) := by
  unfold require
  by_cases hc : c
  · simp [hc]
  · simp [hc, panicWithError, Bind.bind, Prog.bind, Prog.Locked]

theorem locked_acquire_bind (h : flagged key cur = false) {busy : σ → Bool}
    {g : NonReentrantGuard → Prog σ A X Ev ProtocolError β} :
    (acquire key >>= g).Locked busy cur ↔
      (g ⟨key⟩).Locked busy
        (SymbolEntries.withEntries
          (Function.update (SymbolEntries.entries cur) key (some true)) cur) := by
  have hnone : SymbolEntries.entries cur key = none :=
    Option.isNone_iff_eq_none.mp (Option.isSome_eq_false_iff.mp h)
  simp [acquire, hnone]

/-- Dropping the guard of a set flag releases the lock. -/
theorem locked_drop_bind (h : flagged key cur = true) {busy : σ → Bool}
    {gu : Unit → Prog σ A X Ev ProtocolError β} :
    ((⟨key⟩ : NonReentrantGuard).drop >>= gu).Locked busy cur ↔
      (gu ()).Locked busy
        (SymbolEntries.withEntries
          (Function.update (SymbolEntries.entries cur) key none) cur) := by
  have hset : (SymbolEntries.entries cur key).isSome = true := h
  simp [drop, hset]

theorem exec_drop_bind (guard : NonReentrantGuard) {gu : Unit → Prog σ A X Ev ProtocolError β} :
    exec env (guard.drop >>= gu) fr =
      exec env (gu ()) { fr with
        store :=
          if (SymbolEntries.entries fr.store guard.key).isSome then
            SymbolEntries.withEntries
              (Function.update (SymbolEntries.entries fr.store) guard.key none) fr.store
          else fr.store } := by
  rw [exec_bind, exec_drop]
  rfl

variable [LawfulSymbolEntries σ]

theorem flagged_set :
    flagged key (SymbolEntries.withEntries
      (Function.update (SymbolEntries.entries cur) key (some true)) cur) = true := by
  unfold flagged
  rw [LawfulSymbolEntries.entries_withEntries, Function.update_self]
  rfl

theorem flagged_clear :
    flagged key (SymbolEntries.withEntries
      (Function.update (SymbolEntries.entries cur) key none) cur) = false := by
  unfold flagged
  rw [LawfulSymbolEntries.entries_withEntries, Function.update_self]
  rfl

/-- A body that keeps the flag runs under the lock, and dropping the guard releases
it. -/
theorem locked_body {body : Prog σ A X Ev ProtocolError α} (hbody : KeepsFlag key body)
    (h : flagged key cur = true) :
    (body >>= fun a => (⟨key⟩ : NonReentrantGuard).drop >>= fun _ => pure a).Locked
      (flagged key) cur := by
  show (body.bind _).Locked (flagged key) cur
  induction body generalizing cur with
  | ret a =>
    refine (locked_drop_bind h).mpr ?_
    rw [locked_pure]
    exact flagged_clear
  | fail f => trivial
  | read k ih => exact ih cur (hbody cur) h
  | write f k ih =>
    refine ih hbody.2 ?_
    unfold flagged at h ⊢
    rw [hbody.1]
    exact h
  | requireAuth a k ih => exact ⟨h, ih hbody h⟩
  | call x k ih => exact ⟨h, fun b => ih b (hbody b) h⟩
  | timestamp k ih => exact fun t => ih t (hbody t) h
  | publish ev k ih => exact ih hbody h

theorem locked_guarded {body : Prog σ A X Ev ProtocolError α} (hbody : KeepsFlag key body)
    (h : flagged key cur = false) : (guarded key body).Locked (flagged key) cur :=
  (locked_acquire_bind h).mpr (locked_body hbody flagged_set)

/-- **The guard, used as its documentation shows**, on a host whose nested and
suspended frames share one live instance store, where the flag is: in a contract whose
functions hold it across bodies that leave its flag alone, and otherwise only read, it
keeps every nest of calls in order. -/
theorem guard_excludes {prog : C → Prog σ A X Ev ProtocolError R} {guards : C → Bool}
    (hguarded : ∀ c, guards c = true → ∃ body, prog c = guarded key body ∧ KeepsFlag key body)
    (hviews : ∀ c, guards c = false → (prog c).ReadOnly) {s : σ} (hs : flagged key s = false)
    (acts : List (Action A X ProtocolError C)) :
    Excludes prog (flagged key) guards s acts ((Config.start s).play prog acts) := by
  refine excludes_play ⟨?_, ?_, hviews⟩ hs acts
  · intro tx fr hc hbusy
    obtain ⟨body, hbody, _⟩ := hguarded tx.call hc
    refine ⟨.contract .reentrantCall, ?_⟩
    rw [hbody]
    exact advance_acquire hbusy
  · intro c cur hc hfree
    obtain ⟨body, hbody, hkeeps⟩ := hguarded c hc
    rw [hbody]
    exact locked_guarded hkeeps hfree

end Steps

end NonReentrantGuard

/-! ## The contract that holds it -/

namespace Gatekeeper

/-- The contract stores nothing but the guard's flag. -/
structure Store where
  symbols : Symbol → Option Bool

instance : SymbolEntries Store where
  entries s := s.symbols
  withEntries f _ := ⟨f⟩

instance : LawfulSymbolEntries Store where
  entries_withEntries _ _ := rfl

/-- What it asks another instance to do. -/
inductive Query (A : Type)
  | hopBack (hop origin : A)
  | reenter (origin : A)

/-- A program of the contract; it publishes nothing. -/
abbrev Program (A : Type) := Prog Store A (Query A) Empty ProtocolError

variable {A : Type}

/-- `symbol_short!("reent")`. -/
def reent : Symbol := "reent"

/-- The acquire and release cycle works and clears the flag. -/
def acquireCheck : Program A Bool := do
  require (¬ (← get fun s => (SymbolEntries.entries s reent).isSome)) .alreadyExists
  let guard ← NonReentrantGuard.acquire reent
  let held ← get fun s : Store => (SymbolEntries.entries s reent).isSome
  guard.drop
  pure (held && !(← get fun s => (SymbolEntries.entries s reent).isSome))

/-- Two nested acquisitions in one frame. -/
def double : Program A Unit := do
  let first ← NonReentrantGuard.acquire reent
  let second ← NonReentrantGuard.acquire reent
  second.drop
  first.drop

/-- Hold the guard while invoking another contract instance. -/
def holdAndHop (hop origin : A) : Program A Unit := do
  let guard ← NonReentrantGuard.acquire reent
  let _ ← ask (.hopBack hop origin)
  guard.drop

/-- Trampoline: call back into the origin instance. -/
def hopBack (origin : A) : Program A Unit := do
  let _ ← ask (.reenter origin)

/-- Invoked while the origin still holds its guard. -/
def reenter : Program A Unit := do
  let guard ← NonReentrantGuard.acquire reent
  guard.drop

def checkCaller [DecidableEq A] (caller expected : A) : Program A Unit :=
  requireCaller caller expected

/-- A call of the contract. -/
inductive Call (A : Type)
  | acquireCheck
  | double
  | holdAndHop (hop origin : A)
  | hopBack (origin : A)
  | reenter
  | checkCaller (caller expected : A)
  deriving DecidableEq

/-- What a call returns. -/
inductive Ret
  | unit
  | bool (b : Bool)
  deriving DecidableEq

/-- The program a call runs. -/
def dispatch [DecidableEq A] : Call A → Program A Ret
  | .acquireCheck => do pure (.bool (← acquireCheck))
  | .double => do
    double
    pure .unit
  | .holdAndHop hop origin => do
    holdAndHop hop origin
    pure .unit
  | .hopBack origin => do
    hopBack origin
    pure .unit
  | .reenter => do
    reenter
    pure .unit
  | .checkCaller caller expected => do
    checkCaller caller expected
    pure .unit

/-- The calls that take the guard. -/
def Call.guards : Call A → Bool
  | .hopBack _ | .checkCaller .. => false
  | _ => true

/-- A fresh instance. -/
def Store.empty : Store := ⟨fun _ => none⟩

section Laws

open NonReentrantGuard

variable [DecidableEq A]

theorem readOnly_dispatch {c : Call A} (hc : c.guards = false) : (dispatch c).ReadOnly := by
  cases c with
  | hopBack origin =>
    refine Prog.ReadOnly.bind ?_ fun _ => readOnly_pure _
    exact fun _ => trivial
  | checkCaller caller expected =>
    exact (readOnly_require _ _).bind fun _ => readOnly_pure _
  | _ => cases hc

theorem advance_dispatch {env : Env A (Query A) ProtocolError} {c : Call A}
    {fr : Frame Store Empty} (hc : c.guards = true) (h : flagged reent fr.store = true) :
    ∃ f, advance env (dispatch c) fr = .failed f := by
  have hset : (SymbolEntries.entries fr.store reent).isSome = true := h
  cases c with
  | acquireCheck =>
    -- its own look at the flag comes first
    refine ⟨.contract .alreadyExists, ?_⟩
    unfold dispatch acquireCheck
    simp only [bind_assoc]
    show advance env (require (¬ (SymbolEntries.entries fr.store reent).isSome = true) _ >>= _)
      fr = _
    unfold require
    rw [if_neg (by simp [hset])]
    rfl
  | double =>
    refine ⟨.contract .reentrantCall, ?_⟩
    unfold dispatch double
    simp only [bind_assoc]
    exact advance_acquire h
  | holdAndHop hop origin =>
    refine ⟨.contract .reentrantCall, ?_⟩
    unfold dispatch holdAndHop
    simp only [bind_assoc]
    exact advance_acquire h
  | reenter =>
    refine ⟨.contract .reentrantCall, ?_⟩
    unfold dispatch reenter
    simp only [bind_assoc]
    exact advance_acquire h
  | hopBack => cases hc
  | checkCaller => cases hc

theorem locked_dispatch {c : Call A} {s : Store} (hc : c.guards = true)
    (h : flagged reent s = false) : (dispatch c).Locked (flagged reent) s := by
  have hnone : (SymbolEntries.entries s reent).isSome = false := h
  cases c with
  | acquireCheck =>
    unfold dispatch acquireCheck
    simp only [bind_assoc, locked_get_bind, locked_require_bind, locked_acquire_bind h]
    intro _
    rw [locked_drop_bind flagged_set, locked_get_bind, pure_bind, locked_pure]
    exact flagged_clear
  | double =>
    unfold dispatch double
    simp only [bind_assoc, locked_acquire_bind h]
    -- the second acquisition finds the flag of the first
    unfold acquire
    simp only [bind_assoc, locked_get_bind, locked_require_bind]
    intro hfree
    exact absurd flagged_set hfree
  | holdAndHop hop origin =>
    unfold dispatch holdAndHop
    simp only [bind_assoc, locked_acquire_bind h, locked_ask_bind]
    refine ⟨flagged_set, fun _ => ?_⟩
    rw [locked_drop_bind flagged_set, locked_pure]
    exact flagged_clear
  | reenter =>
    unfold dispatch reenter
    simp only [bind_assoc, locked_acquire_bind h]
    rw [locked_drop_bind flagged_set, locked_pure]
    exact flagged_clear
  | hopBack => cases hc
  | checkCaller => cases hc

/-- Its calls take the guard first and let it go last. -/
theorem exclusive : Exclusive (dispatch (A := A)) (flagged reent) Call.guards where
  refuses _ _ hc h := advance_dispatch hc h
  locked _ _ hc h := locked_dispatch hc h
  views _ hc := readOnly_dispatch hc

/-- Two acquisitions in one frame are never accepted. -/
theorem double_fails {env : Env A (Query A) ProtocolError} {fr : Frame Store Empty}
    {q : Ret × Frame Store Empty} : exec env (dispatch .double) fr ≠ .ok q := by
  intro h
  unfold dispatch double at h
  simp only [bind_assoc, exec_acquire_bind, guard_eq_ok] at h
  exact h.2.1 flagged_set

/-- An `acquire_check` that returns found the flag set in between and cleared
again. -/
theorem acquireCheck_true {env : Env A (Query A) ProtocolError} {fr fr' : Frame Store Empty}
    {r : Ret} (h : exec env (dispatch .acquireCheck) fr = .ok (r, fr')) : r = .bool true := by
  unfold dispatch acquireCheck at h
  simp only [bind_assoc, exec_get_bind, exec_require_bind, exec_acquire_bind, exec_drop_bind,
    pure_bind, guard_eq_ok] at h
  obtain ⟨_, _, h⟩ := h
  have hset : (SymbolEntries.entries (SymbolEntries.withEntries
      (Function.update (SymbolEntries.entries fr.store) reent (some true)) fr.store)
        reent).isSome = true := flagged_set
  rw [if_pos hset] at h
  cases h
  show Ret.bool (_ && !flagged reent _) = .bool true
  rw [hset, flagged_clear]
  rfl

/-- **`Gatekeeper` on a host that permits reentry** and lets nested and suspended frames
share one live instance store: whatever `hold_and_hop` lets happen while another
instance calls back, the guard keeps the nest in order; when nothing is suspended any
more, the flag is down, no `double` has been accepted, and every `acquire_check` has
reported that the cycle works. -/
theorem gatekeeper_excludes (acts : List (Action A (Query A) ProtocolError (Call A))) :
    let cfg := (Config.start Store.empty).play dispatch acts
    Excludes dispatch (flagged reent) Call.guards Store.empty acts cfg ∧
      (cfg.stack = [] → flagged reent cfg.world.frame.store = false ∧
        ∀ entry ∈ cfg.world.log,
          entry.1 ≠ .double ∧ (entry.1 = .acquireCheck → entry.2 = .bool true)) := by
  intro cfg
  have hex : Excludes dispatch (flagged reent) Call.guards Store.empty acts cfg :=
    excludes_play exclusive rfl acts
  refine ⟨hex, fun hempty => ?_⟩
  have hfree : flagged reent cfg.world.frame.store = false := by
    have hheld := hex.held
    rw [hempty] at hheld
    cases hflag : flagged reent cfg.world.frame.store with
    | false => rfl
    | true =>
      rw [hflag] at hheld
      cases hheld
  refine ⟨hfree, ?_⟩
  obtain ⟨txs, _, hserial⟩ := hex.serial hfree
  -- a guarded call of the log is a successful step of the run
  have hstep : ∀ entry ∈ cfg.world.log, entry.1.guards = true →
      ∃ (s : Store) (tx : Tx A (Query A) ProtocolError (Call A)) (fr : Frame Store Empty),
      exec tx.env (dispatch entry.1) ⟨s, []⟩ = .ok (entry.2, fr) := by
    intro entry hentry hguards
    have hmem : (entry.1, .ok entry.2) ∈ (trace dispatch Store.empty txs).map
        fun st => (st.tx.call, st.out.result) := by
      rw [hserial.log]
      exact List.mem_map.mpr ⟨entry, List.mem_filter.mpr ⟨hentry, hguards⟩, rfl⟩
    obtain ⟨st, hst, heq⟩ := List.mem_map.mp hmem
    obtain ⟨l₁, tx, l₂, _, rfl⟩ := mem_trace.mp hst
    obtain ⟨hcall, hresult⟩ := Prod.mk.inj heq
    obtain ⟨fr, hfr⟩ := invoke_result_ok_iff.mp hresult
    exact ⟨_, tx, fr, hcall ▸ hfr⟩
  intro entry hentry
  refine ⟨?_, ?_⟩
  · intro hdouble
    obtain ⟨s, tx, fr, hexec⟩ := hstep entry hentry (hdouble ▸ rfl)
    rw [hdouble] at hexec
    exact double_fails hexec
  · intro hcheck
    obtain ⟨s, tx, fr, hexec⟩ := hstep entry hentry (hcheck ▸ rfl)
    rw [hcheck] at hexec
    exact acquireCheck_true hexec

end Laws

/-- `hold_and_hop` is the documented use, with a call to another instance as its
body. -/
theorem holdAndHop_eq_guarded (hop origin : A) :
    holdAndHop hop origin =
      NonReentrantGuard.guarded reent (do let _ ← ask (.hopBack hop origin)) := by
  simp [holdAndHop, NonReentrantGuard.guarded]

namespace Sample

/-- A contract that holds the guard across one call, with one view beside it. -/
def prog : Bool → Program Nat Unit
  | true => holdAndHop 1 0
  | false => checkCaller 0 0

def tx (call : Bool) : Tx Nat (Query Nat) ProtocolError Bool :=
  { env := { signs := fun _ => false, timestamp := 0, answer := fun _ => .ok true }, call }

/-- While the guard is held the function is entered again, and a view. -/
def nest : List (Action Nat (Query Nat) ProtocolError Bool) :=
  [.enter (tx true), .enter (tx true), .enter (tx false), .resume]

end Sample

theorem guard_excludes_sample :
    Excludes Sample.prog (NonReentrantGuard.flagged reent) id Store.empty Sample.nest
      ((Config.start Store.empty).play Sample.prog Sample.nest) := by
  refine NonReentrantGuard.guard_excludes ?_ ?_ rfl Sample.nest
  · intro c hc
    obtain rfl : c = true := hc
    exact ⟨_, holdAndHop_eq_guarded 1 0, fun _ => trivial⟩
  · intro c hc
    obtain rfl : c = false := hc
    exact readOnly_require ((0 : Nat) = 0) .unauthorized

end Gatekeeper

end LilyContracts
