import LilyContracts.Host.Run

/-!
# A host that permits reentry

`exec` runs a frame without interruption. Here the same programs run on a host
that may start further invocations of the contract wherever a frame interacts:
in a `requireAuth` (a contract account runs code of its own there) and in a
`call`. `advance` runs a program up to its next interaction, where the frame is
suspended; a `Config` is the world and the stack of suspended frames, innermost
first; an `Action` enters a further invocation, resumes the innermost frame, or
aborts it. A frame that fails restores the world its invocation entered with,
and with it undoes everything that was nested in it; the world's log holds the
invocations that returned and were not undone. Every nest of invocations, of
any depth and any width, is one list of actions.

This host keeps one live store for each contract: suspended and nested frames alike
read and write that, so that a nested frame sees what the frames around it have
written, and they see what it leaves when they go on. That is an assumption about a
host that is no part of the repository, and it decides for what a contract keeps in
instance storage: its flags, its roles and counters, the keys of its guards. A host
that permits reentry but hands every frame a copy of the instance entries would let
nested frames miss one another there; entries in persistent storage are shared on
either. The host the contracts are written for refuses a nested call of the same
contract before any of its code runs.

Nothing new is said about programs that are left alone: entering one and
resuming it until it ends is `exec` (`play_alone`), and every run of top-level
calls is a nested run (`play_run`).

`Lands` is the proof rule. It says of a program that it writes nothing before
its last interaction, and what holds between the storage it saw when it was
last suspended, the storage it resumes in and the storage it leaves. Because
the storage it resumes in is arbitrary, `Lands` covers every point at which a
nested call can run; `step_cases` says once what an action can then do, and
`play_invariant` carries an invariant through whole runs.
-/

namespace LilyContracts.Host

variable {σ A X Ev E C R α β : Type}

/-! ## One frame, up to its next interaction -/

/-- How a stretch of a frame halts: the frame returns, it fails, or it waits in
the interaction `rest` starts with. -/
inductive Halt (σ A X Ev E α : Type)
  | done (a : α) (fr : Frame σ Ev)
  | failed (f : Fault E)
  | suspended (rest : Prog σ A X Ev E α) (fr : Frame σ Ev)

/-- Run a program up to its next interaction. -/
def advance (env : Env A X E) : Prog σ A X Ev E α → Frame σ Ev → Halt σ A X Ev E α
  | .ret a, fr => .done a fr
  | .fail f, _ => .failed f
  | .read k, fr => advance env (k fr.store) fr
  | .write f k, fr => advance env k { fr with store := f fr.store }
  | .requireAuth a k, fr => .suspended (.requireAuth a k) fr
  | .call x k, fr => .suspended (.call x k) fr
  | .timestamp k, fr => advance env (k env.timestamp) fr
  | .publish ev k, fr => advance env k { fr with events := fr.events ++ [ev] }

/-- The interaction a program waits in returns, or fails the frame: a signature
check on the signatures the call carries, a call on what the other contract
answers. -/
def answer (env : Env A X E) : Prog σ A X Ev E α → Except (Fault E) (Prog σ A X Ev E α)
  | .requireAuth a k => if env.signs a then .ok k else .error .auth
  | .call x k => (env.answer x).map k
  | p => .ok p

/-- The stretch of a suspended frame from the return of its interaction on. -/
def resumed (env : Env A X E) (rest : Prog σ A X Ev E α) (fr : Frame σ Ev) : Halt σ A X Ev E α :=
  match answer env rest with
  | .ok k => advance env k fr
  | .error f => .failed f

/-! ## Nests of invocations -/

/-- The storage and events as they stand, and the invocations that returned and
were not undone, oldest first. -/
structure World (σ Ev C R : Type) where
  frame : Frame σ Ev
  log : List (C × R)

/-- A suspended invocation: the world it entered with, the number of the
interaction it waits in, the storage it saw when it was suspended, and the rest
of its program. The third and fourth field record the past; no step reads
them. -/
structure Activation (σ A X Ev E C R : Type) where
  tx : Tx A X E C
  saved : World σ Ev C R
  point : Nat
  seen : σ
  rest : Prog σ A X Ev E R

/-- The world and the suspended invocations, innermost first. -/
structure Config (σ A X Ev E C R : Type) where
  world : World σ Ev C R
  stack : List (Activation σ A X Ev E C R)

/-- What can happen next: a further invocation starts, the innermost suspended
one resumes, or the interaction it waits in fails it. -/
inductive Action (A X E C : Type)
  | enter (tx : Tx A X E C)
  | resume
  | abort

/-- The configuration a halt leads to. -/
def settle (tx : Tx A X E C) (saved : World σ Ev C R) (point : Nat) (log : List (C × R))
    (stack : List (Activation σ A X Ev E C R)) : Halt σ A X Ev E R → Config σ A X Ev E C R
  | .done r fr => ⟨⟨fr, log ++ [(tx.call, r)]⟩, stack⟩
  | .failed _ => ⟨saved, stack⟩
  | .suspended rest fr => ⟨⟨fr, log⟩, ⟨tx, saved, point, fr.store, rest⟩ :: stack⟩

/-- The configuration in which nothing has been invoked yet. -/
def Config.start (s : σ) : Config σ A X Ev E C R := ⟨⟨⟨s, []⟩, []⟩, []⟩

variable (prog : C → Prog σ A X Ev E R)

namespace Config

/-- One action. Without a suspended invocation there is nothing to resume or
abort. -/
def step (cfg : Config σ A X Ev E C R) : Action A X E C → Config σ A X Ev E C R
  | .enter tx =>
    settle tx cfg.world 1 cfg.world.log cfg.stack
      (advance tx.env (prog tx.call) cfg.world.frame)
  | .resume =>
    match cfg.stack with
    | [] => cfg
    | t :: stack =>
      settle t.tx t.saved (t.point + 1) cfg.world.log stack
        (resumed t.tx.env t.rest cfg.world.frame)
  | .abort =>
    match cfg.stack with
    | [] => cfg
    | t :: stack => ⟨t.saved, stack⟩

/-- A run of actions. -/
def play (cfg : Config σ A X Ev E C R) (acts : List (Action A X E C)) : Config σ A X Ev E C R :=
  acts.foldl (step prog) cfg

/-- The action fails a frame, which the host then rolls back. -/
def RollsBack (cfg : Config σ A X Ev E C R) : Action A X E C → Prop
  | .enter tx => ∃ f, advance tx.env (prog tx.call) cfg.world.frame = .failed f
  | .resume => ∃ t ∈ cfg.stack.head?, ∃ f, resumed t.tx.env t.rest cfg.world.frame = .failed f
  | .abort => True

end Config

/-- A condition on resuming: on the invocation, the interaction it waits in,
the storage it saw there and the storage it would resume in. -/
abbrev Condition (σ A X E C : Type) := Tx A X E C → Nat → σ → σ → Prop

/-- The action respects the condition; only a resumption can violate it. -/
def Config.Permits (P : Condition σ A X E C) (cfg : Config σ A X Ev E C R) : Action A X E C → Prop
  | .resume => ∀ t ∈ cfg.stack.head?, P t.tx t.point t.seen cfg.world.frame.store
  | _ => True

/-- Every action of the run respects the condition as it is taken. -/
def Config.PermitsAll (P : Condition σ A X E C) :
    Config σ A X Ev E C R → List (Action A X E C) → Prop
  | _, [] => True
  | cfg, act :: acts => cfg.Permits P act ∧ Config.PermitsAll P (cfg.step prog act) acts

section Decidable

variable {P : Condition σ A X E C} [∀ tx n seen s, Decidable (P tx n seen s)]

instance (cfg : Config σ A X Ev E C R) : (act : Action A X E C) → Decidable (cfg.Permits P act)
  | .enter _ => .isTrue trivial
  | .resume => inferInstanceAs (Decidable (∀ t ∈ cfg.stack.head?, _))
  | .abort => .isTrue trivial

instance decidablePermitsAll : (cfg : Config σ A X Ev E C R) → (acts : List (Action A X E C)) →
    Decidable (cfg.PermitsAll prog P acts)
  | _, [] => .isTrue trivial
  | cfg, act :: acts =>
    have := decidablePermitsAll (cfg.step prog act) acts
    inferInstanceAs (Decidable (_ ∧ _))

end Decidable

variable {prog} {env : Env A X E} {cfg : Config σ A X Ev E C R} {act : Action A X E C}
  {acts l₁ l₂ : List (Action A X E C)}

namespace Config

@[simp] theorem play_nil : cfg.play prog [] = cfg := rfl

@[simp] theorem play_cons : cfg.play prog (act :: acts) = (cfg.step prog act).play prog acts := rfl

theorem play_append : cfg.play prog (l₁ ++ l₂) = (cfg.play prog l₁).play prog l₂ :=
  List.foldl_append

theorem rollsBack_resume {world : World σ Ev C R} {t : Activation σ A X Ev E C R}
    {stack : List (Activation σ A X Ev E C R)} :
    RollsBack prog ⟨world, t :: stack⟩ .resume ↔
      ∃ f, resumed t.tx.env t.rest world.frame = .failed f := by
  simp [RollsBack]

theorem permitsAll_append {P : Condition σ A X E C} :
    cfg.PermitsAll prog P (l₁ ++ l₂) ↔
      cfg.PermitsAll prog P l₁ ∧ (cfg.play prog l₁).PermitsAll prog P l₂ := by
  induction l₁ generalizing cfg with
  | nil => simp [PermitsAll]
  | cons act l ih => simp only [List.cons_append, PermitsAll, ih, play_cons, and_assoc]

end Config

/-! ## Left alone, a frame runs as `exec` does -/

/-- Resuming a frame again and again, with nothing in between, ends as `exec`
ends. -/
theorem resume_alone (tx : Tx A X E C) (saved : World σ Ev C R) (log : List (C × R))
    (stack : List (Activation σ A X Ev E C R)) (p : Prog σ A X Ev E R) :
    ∀ (fr : Frame σ Ev) (point : Nat), ∃ n,
      (settle tx saved point log stack (advance tx.env p fr)).play prog
          (List.replicate n .resume) =
        match exec tx.env p fr with
        | .ok (r, fr') => ⟨⟨fr', log ++ [(tx.call, r)]⟩, stack⟩
        | .error _ => ⟨saved, stack⟩ := by
  induction p with
  | ret a =>
    intro fr point
    exact ⟨0, rfl⟩
  | fail f =>
    intro fr point
    exact ⟨0, rfl⟩
  | read k ih =>
    intro fr point
    exact ih fr.store fr point
  | write f k ih =>
    intro fr point
    exact ih { fr with store := f fr.store } point
  | requireAuth a k ih =>
    intro fr point
    by_cases hs : tx.env.signs a = true
    · -- nothing ran meanwhile, so the frame resumes on the world it left
      obtain ⟨n, hn⟩ := ih fr (point + 1)
      refine ⟨n + 1, ?_⟩
      simpa [List.replicate_succ, Config.step, advance, settle, resumed, answer, exec, hs] using hn
    · refine ⟨1, ?_⟩
      simp [Config.step, advance, settle, resumed, answer, exec, hs]
  | call x k ih =>
    intro fr point
    cases hb : tx.env.answer x with
    | ok b =>
      obtain ⟨n, hn⟩ := ih b fr (point + 1)
      refine ⟨n + 1, ?_⟩
      simpa [List.replicate_succ, Config.step, advance, settle, resumed, answer, exec, hb,
        Except.map] using hn
    | error f =>
      refine ⟨1, ?_⟩
      simp [Config.step, advance, settle, resumed, answer, exec, hb, Except.map]
  | timestamp k ih =>
    intro fr point
    exact ih tx.env.timestamp fr point
  | publish ev k ih =>
    intro fr point
    exact ih { fr with events := fr.events ++ [ev] } point

/-- **An invocation that nothing interrupts is `exec`**: it commits what `exec`
computes, or leaves the world it entered with. -/
theorem play_alone (prog : C → Prog σ A X Ev E R) (cfg : Config σ A X Ev E C R)
    (tx : Tx A X E C) : ∃ n, cfg.play prog (.enter tx :: List.replicate n .resume) =
      match exec tx.env (prog tx.call) cfg.world.frame with
      | .ok (r, fr) => ⟨⟨fr, cfg.world.log ++ [(tx.call, r)]⟩, cfg.stack⟩
      | .error _ => cfg :=
  resume_alone tx cfg.world cfg.world.log cfg.stack (prog tx.call) cfg.world.frame 1

/-- Events published before a frame starts only stand in front of its own. -/
theorem exec_events (env : Env A X E) (p : Prog σ A X Ev E α) (s : σ) (evs evs' : List Ev) :
    exec env p ⟨s, evs ++ evs'⟩ =
      (exec env p ⟨s, evs'⟩).map fun q => (q.1, ⟨q.2.store, evs ++ q.2.events⟩) := by
  induction p generalizing s evs' with
  | ret a => rfl
  | fail f => rfl
  | read k ih => exact ih s s evs'
  | write f k ih => exact ih (f s) evs'
  | requireAuth a k ih =>
    simp only [exec]
    split
    next => exact ih s evs'
    next => rfl
  | call x k ih =>
    simp only [exec]
    split
    next b _ => exact ih b s evs'
    next => rfl
  | timestamp k ih => exact ih env.timestamp s evs'
  | publish ev k ih =>
    simp only [exec, List.append_assoc]
    exact ih s (evs' ++ [ev])

/-- A top-level call is an invocation that nothing interrupts. -/
theorem call_alone (prog : C → Prog σ A X Ev E R) (tx : Tx A X E C) (s : σ) (evs : List Ev)
    (log : List (C × R)) : ∃ n evs' log',
      (⟨⟨⟨s, evs⟩, log⟩, []⟩ : Config σ A X Ev E C R).play prog
          (.enter tx :: List.replicate n .resume) =
        ⟨⟨⟨after prog s tx, evs'⟩, log'⟩, []⟩ := by
  obtain ⟨n, hn⟩ := play_alone prog ⟨⟨⟨s, evs⟩, log⟩, []⟩ tx
  have hex := exec_events tx.env (prog tx.call) s evs []
  rw [List.append_nil] at hex
  rcases stepOf_cases prog s tx with ⟨hfail, hafter⟩ | ⟨r, fr, hok, _, hafter⟩
  · refine ⟨n, evs, log, ?_⟩
    rw [hn, hafter, hex]
    -- the invocation left the world it entered with
    cases herr : exec tx.env (prog tx.call) ⟨s, []⟩ with
    | error f => rfl
    | ok q => exact absurd (succeeded_iff.mpr ⟨q.1, q.2, herr⟩) hfail
  · refine ⟨n, evs ++ fr.events, log ++ [(tx.call, r)], ?_⟩
    rw [hn, hafter, hex, hok]
    rfl

/-- Every run of top-level calls is a nested run in which nothing is nested. -/
theorem play_run (txs : List (Tx A X E C)) :
    ∀ (s : σ) (evs : List Ev) (log : List (C × R)), ∃ acts evs' log',
      (⟨⟨⟨s, evs⟩, log⟩, []⟩ : Config σ A X Ev E C R).play prog acts =
        ⟨⟨⟨run prog s txs, evs'⟩, log'⟩, []⟩ := by
  induction txs with
  | nil =>
    intro s evs log
    exact ⟨[], evs, log, rfl⟩
  | cons tx txs ih =>
    intro s evs log
    obtain ⟨n, evs₁, log₁, hcall⟩ := call_alone prog tx s evs log
    obtain ⟨acts, evs', log', hplay⟩ := ih (after prog s tx) evs₁ log₁
    refine ⟨.enter tx :: List.replicate n .resume ++ acts, evs', log', ?_⟩
    rw [Config.play_append, hcall, hplay, run_cons]

/-! ## Programs that write only after their last interaction -/

/-- What a frame may leave: the number of interactions it went through, the
storage it saw before the last of them, the storage it resumed in after it, its
value and the storage it leaves. -/
abbrev LandsOn (σ α : Type) := Nat → σ → σ → α → σ → Prop

/-- `p`, running on the storage `cur` in the stretch that began on `base`,
writes nothing before its last interaction and lands in `Q`, whatever the
storage becomes while it is suspended. -/
def Lands (env : Env A X E) (Q : LandsOn σ α) :
    Nat → σ → σ → Prog σ A X Ev E α → σ → Prop
  | n, seen, base, .ret a, cur => Q n seen base a cur
  | _, _, _, .fail _, _ => True
  | n, seen, base, .read k, cur => Lands env Q n seen base (k cur) cur
  | n, seen, base, .write f k, cur => Lands env Q n seen base k (f cur)
  | n, _, base, .requireAuth a k, cur =>
    cur = base ∧ (env.signs a = true → ∀ s, Lands env Q (n + 1) cur s k s)
  | n, _, base, .call x k, cur =>
    cur = base ∧ ∀ b, env.answer x = .ok b → ∀ s, Lands env Q (n + 1) cur s (k b) s
  | n, seen, base, .timestamp k, cur => Lands env Q n seen base (k env.timestamp) cur
  | n, seen, base, .publish _ k, cur => Lands env Q n seen base k cur

section Lands

variable {Q : LandsOn σ α} {n : Nat} {seen base cur : σ}

/-- What `Lands` says of one stretch: a frame that returns satisfies `Q`, and
one that is suspended has written nothing and lands from wherever it
resumes. -/
theorem advance_lands (p : Prog σ A X Ev E α) (fr : Frame σ Ev)
    (h : Lands env Q n seen base p fr.store) :
    (∃ f, advance env p fr = .failed f) ∨
    (∃ a fr', advance env p fr = .done a fr' ∧ Q n seen base a fr'.store) ∨
    ∃ rest fr', advance env p fr = .suspended rest fr' ∧ fr'.store = base ∧
      ∀ k, answer env rest = .ok k → ∀ s, Lands env Q (n + 1) base s k s := by
  induction p generalizing fr with
  | ret a => exact .inr (.inl ⟨a, fr, rfl, h⟩)
  | fail f => exact .inl ⟨f, rfl⟩
  | read k ih => exact ih _ fr h
  | write f k ih => exact ih { fr with store := f fr.store } h
  | requireAuth a k ih =>
    obtain ⟨hq, hk⟩ := h
    refine .inr (.inr ⟨_, fr, rfl, hq, ?_⟩)
    intro k' hk' s
    obtain ⟨hs, heq⟩ := guard_eq_ok.mp hk'
    cases heq
    rw [← hq]
    exact hk hs s
  | call x k ih =>
    obtain ⟨hq, hk⟩ := h
    refine .inr (.inr ⟨_, fr, rfl, hq, ?_⟩)
    intro k' hk' s
    obtain ⟨b, hb, rfl⟩ := map_eq_ok.mp hk'
    rw [← hq]
    exact hk b hb s
  | timestamp k ih => exact ih _ fr h
  | publish ev k ih => exact ih { fr with events := fr.events ++ [ev] } h

/-- What lands in `Q` lands in whatever `Q` entails. -/
theorem Lands.mono {Q' : LandsOn σ α} {p : Prog σ A X Ev E α}
    (hQ : ∀ n seen s a s', Q n seen s a s' → Q' n seen s a s')
    (h : Lands env Q n seen base p cur) : Lands env Q' n seen base p cur := by
  induction p generalizing n seen base cur with
  | ret a => exact hQ _ _ _ _ _ h
  | fail f => trivial
  | read k ih => exact ih _ h
  | write f k ih => exact ih h
  | requireAuth a k ih => exact ⟨h.1, fun hs s => ih (h.2 hs s)⟩
  | call x k ih => exact ⟨h.1, fun b hb s => ih b (h.2 b hb s)⟩
  | timestamp k ih => exact ih _ h
  | publish ev k ih => exact ih h

/-- A program that only reads lands wherever standing still does. -/
theorem lands_of_readOnly {p : Prog σ A X Ev E α} (hp : p.ReadOnly)
    (hQ : ∀ n seen s a, Q n seen s a s) : Lands env Q n seen cur p cur := by
  induction p generalizing n seen cur with
  | ret a => exact hQ n seen cur a
  | fail f => trivial
  | read k ih => exact ih _ (hp _)
  | write f k ih => exact hp.elim
  | requireAuth a k ih => exact ⟨rfl, fun _ s => ih hp⟩
  | call x k ih => exact ⟨rfl, fun b _ s => ih b (hp b)⟩
  | timestamp k ih => exact ih _ (hp _)
  | publish ev k ih => exact hp.elim

/-! ### Landing one effect at a time

`simp` turns `Lands` of a program into a statement about its guards, its last
storage and the `Q` it has to meet there. -/

variable {Qβ : LandsOn σ β} {g : α → Prog σ A X Ev E β} {gu : Unit → Prog σ A X Ev E β}

@[simp] theorem lands_pure (a : α) :
    Lands env Q n seen base (pure a : Prog σ A X Ev E α) cur ↔ Q n seen base a cur := Iff.rfl

@[simp] theorem lands_get_bind (f : σ → α) :
    Lands env Qβ n seen base (get f >>= g) cur ↔ Lands env Qβ n seen base (g (f cur)) cur :=
  Iff.rfl

@[simp] theorem lands_modify_bind (f : σ → σ) :
    Lands env Qβ n seen base (modify f >>= gu) cur ↔
      Lands env Qβ n seen base (gu ()) (f cur) := Iff.rfl

@[simp] theorem lands_requireAuth_bind (a : A) :
    Lands env Qβ n seen base (requireAuth a >>= gu) cur ↔
      cur = base ∧ (env.signs a = true → ∀ s, Lands env Qβ (n + 1) cur s (gu ()) s) := Iff.rfl

@[simp] theorem lands_ask_bind (x : X) {g : Bool → Prog σ A X Ev E β} :
    Lands env Qβ n seen base (ask x >>= g) cur ↔
      cur = base ∧ ∀ b, env.answer x = .ok b → ∀ s, Lands env Qβ (n + 1) cur s (g b) s := Iff.rfl

@[simp] theorem lands_ledgerTimestamp_bind {g : UInt64 → Prog σ A X Ev E β} :
    Lands env Qβ n seen base (ledgerTimestamp >>= g) cur ↔
      Lands env Qβ n seen base (g env.timestamp) cur := Iff.rfl

@[simp] theorem lands_publish_bind (ev : Ev) :
    Lands env Qβ n seen base (publish ev >>= gu) cur ↔ Lands env Qβ n seen base (gu ()) cur :=
  Iff.rfl

@[simp] theorem lands_lift_bind (e : Except (Fault E) α) :
    Lands env Qβ n seen base (lift e >>= g) cur ↔
      ∀ a, e = .ok a → Lands env Qβ n seen base (g a) cur := by
  cases e with
  | ok a => simp [lift, Bind.bind, Prog.bind]
  | error f => simp [lift, Bind.bind, Prog.bind, Lands]

@[simp] theorem lands_unwrapOptimized_bind (o : Option α) :
    Lands env Qβ n seen base (unwrapOptimized o >>= g) cur ↔
      ∀ a, o = some a → Lands env Qβ n seen base (g a) cur := by
  cases o with
  | some a => simp [unwrapOptimized, Bind.bind, Prog.bind]
  | none => simp [unwrapOptimized, Bind.bind, Prog.bind, Lands]

@[simp] theorem lands_unwrapOrPanic_bind (e : E) (o : Option α) :
    Lands env Qβ n seen base (unwrapOrPanic e o >>= g) cur ↔
      ∀ a, o = some a → Lands env Qβ n seen base (g a) cur := by
  cases o with
  | some a => simp [unwrapOrPanic, Bind.bind, Prog.bind]
  | none => simp [unwrapOrPanic, Bind.bind, Prog.bind, Lands]

end Lands

/-! ## Invariants of nested runs -/

section Invariant

/-- What the frames of a transaction may leave. -/
abbrev Landings (σ A X E C R : Type) := Tx A X E C → LandsOn σ R

/-- The program of every transaction lands in `Q`, wherever it starts. -/
def AllLand (prog : C → Prog σ A X Ev E R) (Q : Landings σ A X E C R) : Prop :=
  ∀ (tx : Tx A X E C) (seen s : σ), Lands tx.env (Q tx) 0 seen s (prog tx.call) s

/-- A suspended invocation lands in `Q` from wherever it resumes. -/
def Activation.Awaits (Q : Landings σ A X E C R) (t : Activation σ A X Ev E C R) : Prop :=
  ∀ k, answer t.tx.env t.rest = .ok k → ∀ s, Lands t.tx.env (Q t.tx) t.point t.seen s k s

variable {Q : Landings σ A X E C R} {P : Condition σ A X E C}

/-- Where the stretch of a frame that lands in `Q` leads: a rollback, a landing,
or one more suspended invocation in an unchanged storage. -/
theorem settle_cases {tx : Tx A X E C} {n : Nat} {seen : σ} {p : Prog σ A X Ev E R}
    {world : World σ Ev C R} (saved : World σ Ev C R)
    (stack : List (Activation σ A X Ev E C R))
    (h : Lands tx.env (Q tx) n seen world.frame.store p world.frame.store) :
    let halt := advance tx.env p world.frame
    let cfg' := settle tx saved (n + 1) world.log stack halt
    ((∃ f, halt = .failed f) ∧ cfg' = ⟨saved, stack⟩) ∨
    ((¬ ∃ f, halt = .failed f) ∧ ∃ r fr, Q tx n seen world.frame.store r fr.store ∧
      cfg' = ⟨⟨fr, world.log ++ [(tx.call, r)]⟩, stack⟩) ∨
    ((¬ ∃ f, halt = .failed f) ∧ ∃ fr t, fr.store = world.frame.store ∧ t.tx = tx ∧
      t.saved = saved ∧ t.seen = world.frame.store ∧ t.Awaits Q ∧
      cfg' = ⟨⟨fr, world.log⟩, t :: stack⟩) := by
  rcases advance_lands p world.frame h with ⟨f, hf⟩ | ⟨r, fr, hd, hQ⟩ | ⟨rest, fr, hs, hstore, hk⟩
  · exact .inl ⟨⟨f, hf⟩, by rw [hf]; rfl⟩
  · right; left
    rw [hd]
    exact ⟨nofun, r, fr, hQ, rfl⟩
  · right; right
    rw [hs]
    refine ⟨nofun, fr, ⟨tx, saved, n + 1, fr.store, rest⟩, hstore, rfl, rfl, hstore, ?_, rfl⟩
    intro k hans s
    show Lands tx.env (Q tx) (n + 1) fr.store s k s
    rw [hstore]
    exact hk k hans s

/-- The same for a configuration around it: `outer` are the frames it has
suspended, and `saved` is its world or one of those they come back to. -/
theorem settle_outcome {tx : Tx A X E C} {n : Nat} {seen : σ} {p : Prog σ A X Ev E R}
    {world saved : World σ Ev C R} {stack outer : List (Activation σ A X Ev E C R)}
    (h : Lands tx.env (Q tx) n seen world.frame.store p world.frame.store)
    (hP : n ≠ 0 → P tx n seen world.frame.store) (hsub : ∀ t ∈ stack, t ∈ outer)
    (hsaved : saved = world ∨ ∃ t ∈ outer, saved = t.saved) :
    let halt := advance tx.env p world.frame
    let cfg' := settle tx saved (n + 1) world.log stack halt
    (∀ t ∈ cfg'.stack, t ∈ outer ∨
      t.Awaits Q ∧ (t.saved = world ∨ ∃ t' ∈ outer, t.saved = t'.saved)) ∧
    ((cfg'.world = world ∨ (∃ f, halt = .failed f) ∧ ∃ t ∈ outer, cfg'.world = t.saved) ∨
      ((¬ ∃ f, halt = .failed f) ∧ ∃ tx n seen r fr,
        Q tx n seen world.frame.store r fr.store ∧ (n ≠ 0 → P tx n seen world.frame.store) ∧
        cfg'.world = ⟨fr, world.log ++ [(tx.call, r)]⟩) ∨
      ((¬ ∃ f, halt = .failed f) ∧ ∃ fr, fr.store = world.frame.store ∧
        cfg'.world = ⟨fr, world.log⟩)) := by
  intro halt cfg'
  rcases settle_cases saved stack h with
    ⟨hf, heq⟩ | ⟨hok, r, fr, hQ, heq⟩ | ⟨hok, fr, t, hstore, _, ht, _, hawaits, heq⟩
  · rw [show cfg' = _ from heq]
    refine ⟨fun t ht => .inl (hsub t ht), .inl ?_⟩
    rcases hsaved with hsame | hback
    · exact .inl hsame
    · exact .inr ⟨hf, hback⟩
  · rw [show cfg' = _ from heq]
    exact ⟨fun t ht => .inl (hsub t ht), .inr (.inl ⟨hok, tx, n, seen, r, fr, hQ, hP, rfl⟩)⟩
  · rw [show cfg' = _ from heq]
    refine ⟨?_, .inr (.inr ⟨hok, fr, hstore, rfl⟩)⟩
    intro t' ht'
    rcases List.mem_cons.mp ht' with rfl | ht'
    · -- suspended (again), it comes back to the world its invocation entered with
      rw [ht]
      exact .inr ⟨hawaits, hsaved⟩
    · exact .inl (hsub t' ht')

/-- **What an action can do**, once: a frame fails and an earlier world comes
back; a frame lands and is committed; or the storage and the log stay as they
are. The stack only ever loses its innermost frame or gains one on top. -/
theorem step_cases (hprog : AllLand prog Q) (hstack : ∀ t ∈ cfg.stack, t.Awaits Q)
    (hP : cfg.Permits P act) :
    (∀ t ∈ (cfg.step prog act).stack, t ∈ cfg.stack ∨
      t.Awaits Q ∧ (t.saved = cfg.world ∨ ∃ t' ∈ cfg.stack, t.saved = t'.saved)) ∧
    (((cfg.step prog act).world = cfg.world ∨
        cfg.RollsBack prog act ∧ ∃ t ∈ cfg.stack, (cfg.step prog act).world = t.saved) ∨
      (¬ cfg.RollsBack prog act ∧ ∃ tx n seen r fr,
        Q tx n seen cfg.world.frame.store r fr.store ∧
        (n ≠ 0 → P tx n seen cfg.world.frame.store) ∧
        (cfg.step prog act).world = ⟨fr, cfg.world.log ++ [(tx.call, r)]⟩) ∨
      (¬ cfg.RollsBack prog act ∧ ∃ fr, fr.store = cfg.world.frame.store ∧
        (cfg.step prog act).world = ⟨fr, cfg.world.log⟩)) := by
  obtain ⟨world, stack⟩ := cfg
  cases act with
  | enter tx =>
    -- no condition is about a frame that has gone through no interaction yet
    exact settle_outcome (hprog tx world.frame.store _) (fun hn => absurd rfl hn)
      (fun t ht => ht) (.inl rfl)
  | resume =>
    cases stack with
    | nil => exact ⟨fun t ht => .inl ht, .inl (.inl rfl)⟩
    | cons t stack =>
      have ht : t ∈ t :: stack := List.mem_cons_self ..
      rw [Config.rollsBack_resume]
      unfold Config.step resumed
      dsimp only
      cases hans : answer t.tx.env t.rest with
      | error f =>
        -- the interaction itself fails the frame
        exact ⟨fun t' ht' => .inl (List.mem_cons_of_mem _ ht'), .inl (.inr ⟨⟨f, rfl⟩, t, ht, rfl⟩)⟩
      | ok k =>
        exact settle_outcome (hstack t ht k hans world.frame.store) (fun _ => hP t rfl)
          (fun t' ht' => List.mem_cons_of_mem _ ht') (.inr ⟨t, ht, rfl⟩)
  | abort =>
    cases stack with
    | nil => exact ⟨fun t ht => .inl ht, .inl (.inl rfl)⟩
    | cons t stack =>
      exact ⟨fun t' ht' => .inl (List.mem_cons_of_mem _ ht'),
        .inl (.inr ⟨trivial, t, List.mem_cons_self .., rfl⟩)⟩

/-- An invariant of nested runs: the world satisfies `I`, and so does every
world a suspended invocation may come back to. -/
structure Config.Keeps (Q : Landings σ A X E C R) (I : σ → List (C × R) → Prop)
    (cfg : Config σ A X Ev E C R) : Prop where
  world : I cfg.world.frame.store cfg.world.log
  saved : ∀ t ∈ cfg.stack, I t.saved.frame.store t.saved.log
  awaits : ∀ t ∈ cfg.stack, t.Awaits Q

variable {I : σ → List (C × R) → Prop}

theorem keeps_start {s : σ} (h : I s []) :
    (Config.start s : Config σ A X Ev E C R).Keeps Q I where
  world := h
  saved _ ht := absurd ht List.not_mem_nil
  awaits _ ht := absurd ht List.not_mem_nil

/-- The step rule: an invariant that every permitted landing keeps is kept by
every permitted action, rollbacks included. -/
theorem keeps_step (hprog : AllLand prog Q)
    (hland : ∀ {s s' : σ} {log : List (C × R)} {tx : Tx A X E C} {n : Nat} {seen : σ} {r : R},
      I s log → Q tx n seen s r s' → (n ≠ 0 → P tx n seen s) → I s' (log ++ [(tx.call, r)]))
    (h : cfg.Keeps Q I) (hP : cfg.Permits P act) : (cfg.step prog act).Keeps Q I := by
  obtain ⟨hstack, hworld⟩ := step_cases hprog h.awaits hP
  refine ⟨?_, ?_, ?_⟩
  · rcases hworld with (heq | ⟨_, t, ht, heq⟩) | ⟨_, tx, n, seen, r, fr, hQ, hn, heq⟩ |
      ⟨_, fr, hstore, heq⟩
    · rw [heq]
      exact h.world
    · rw [heq]
      exact h.saved t ht
    · rw [heq]
      exact hland h.world hQ hn
    · rw [heq]
      show I fr.store cfg.world.log
      rw [hstore]
      exact h.world
  · intro t ht
    rcases hstack t ht with ht | ⟨_, hsaved | ⟨t', ht', hsaved⟩⟩
    · exact h.saved t ht
    · rw [hsaved]
      exact h.world
    · rw [hsaved]
      exact h.saved t' ht'
  · intro t ht
    rcases hstack t ht with ht | ⟨hawaits, _⟩
    · exact h.awaits t ht
    · exact hawaits

/-- The run rule. -/
theorem keeps_play (hprog : AllLand prog Q)
    (hland : ∀ {s s' : σ} {log : List (C × R)} {tx : Tx A X E C} {n : Nat} {seen : σ} {r : R},
      I s log → Q tx n seen s r s' → (n ≠ 0 → P tx n seen s) → I s' (log ++ [(tx.call, r)]))
    (h : cfg.Keeps Q I) (hP : cfg.PermitsAll prog P acts) : (cfg.play prog acts).Keeps Q I := by
  induction acts generalizing cfg with
  | nil => exact h
  | cons act acts ih => exact ih (keeps_step hprog hland h hP.1) hP.2

end Invariant

end LilyContracts.Host
