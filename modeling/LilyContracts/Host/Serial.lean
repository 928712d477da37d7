import LilyContracts.Host.History
import LilyContracts.Host.Reentry

/-!
# When a nest of invocations is a run of top-level calls

On the host of `Host/Reentry.lean` a frame can be overtaken: what it read before
an interaction may be stale by the time it goes on. A program is `Deferred` when it
does nothing but read, check and interact up to its last interaction, and
everything else after it. Such a frame can only be hurt by what it read early, and
`Alike` says what that is: two storages alike for a call are not told apart by what
its program reads before its last interaction.

If every frame resumes on a storage alike to the one it was suspended on, then
running its whole program from the storage it finds comes to the same point
(`Activation.Replays`): the frame might as well have been entered just then, with
nothing nested in it. So the nest is a run of top-level calls, those that returned
and were not undone, in the order in which they returned, with the same storage,
the same answers and the same events (`serial_play`). What is known of all runs is
then known of the nest.

The condition is asked only of storages a run can reach. Where no call of a run
changes what the others read early, it asks nothing.
-/

namespace LilyContracts.Host

variable {σ A X Ev E C R α β : Type}

/-! ## Programs in two phases -/

/-- No interaction on any path: what is left of a frame is done at one go. -/
def Prog.Quiet : Prog σ A X Ev E α → Prop
  | .ret _ => True
  | .fail _ => True
  | .read k => ∀ s, (k s).Quiet
  | .write _ k => k.Quiet
  | .requireAuth _ _ => False
  | .call _ _ => False
  | .timestamp k => ∀ t, (k t).Quiet
  | .publish _ k => k.Quiet

/-- No write and no event on any path, and nothing is read that tells storages
apart which are alike. -/
def Prog.Early (Alike : σ → σ → Prop) : Prog σ A X Ev E α → Prop
  | .ret _ => True
  | .fail _ => True
  | .read k => (∀ s s', Alike s s' → k s = k s') ∧ ∀ s, (k s).Early Alike
  | .write _ _ => False
  | .requireAuth _ k => k.Early Alike
  | .call _ k => ∀ b, (k b).Early Alike
  | .timestamp k => ∀ t, (k t).Early Alike
  | .publish _ _ => False

/-- An early phase, and then a quiet one. -/
def Prog.Deferred (Alike : σ → σ → Prop) : Prog σ A X Ev E α → Prop
  | .ret _ => True
  | .fail _ => True
  | .read k => (∀ s, (k s).Quiet) ∨
      (∀ s s', Alike s s' → k s = k s') ∧ ∀ s, (k s).Deferred Alike
  | .write _ k => k.Quiet
  | .requireAuth _ k => k.Deferred Alike
  | .call _ k => ∀ b, (k b).Deferred Alike
  | .timestamp k => ∀ t, (k t).Deferred Alike
  | .publish _ k => k.Quiet

section Phases

variable {Alike : σ → σ → Prop}

theorem Prog.Quiet.deferred {p : Prog σ A X Ev E α} (h : p.Quiet) : p.Deferred Alike := by
  induction p with
  | ret a => trivial
  | fail f => trivial
  | read k _ => exact .inl h
  | write f k _ => exact h
  | requireAuth a k _ => exact h.elim
  | call x k _ => exact h.elim
  | timestamp k ih => exact fun t => ih t (h t)
  | publish ev k _ => exact h

/-- An early program followed by a deferred one is deferred. -/
theorem Prog.Early.deferred {p : Prog σ A X Ev E α} {g : α → Prog σ A X Ev E β}
    (hp : p.Early Alike) (hg : ∀ a, (g a).Deferred Alike) : (p >>= g).Deferred Alike := by
  show (p.bind g).Deferred Alike
  induction p with
  | ret a => exact hg a
  | fail f => trivial
  | read k ih =>
    refine .inr ⟨?_, fun s => ih s (hp.2 s)⟩
    intro s s' hs
    show (k s).bind g = (k s').bind g
    rw [hp.1 s s' hs]
  | write f k _ => exact hp.elim
  | requireAuth a k ih => exact ih hp
  | call x k ih => exact fun b => ih b (hp b)
  | timestamp k ih => exact fun t => ih t (hp t)
  | publish ev k _ => exact hp.elim

theorem Prog.Early.bind {p : Prog σ A X Ev E α} {g : α → Prog σ A X Ev E β}
    (hp : p.Early Alike) (hg : ∀ a, (g a).Early Alike) : (p >>= g).Early Alike := by
  show (p.bind g).Early Alike
  induction p with
  | ret a => exact hg a
  | fail f => trivial
  | read k ih =>
    refine ⟨?_, fun s => ih s (hp.2 s)⟩
    intro s s' hs
    show (k s).bind g = (k s').bind g
    rw [hp.1 s s' hs]
  | write f k _ => exact hp.elim
  | requireAuth a k ih => exact ih hp
  | call x k ih => exact fun b => ih b (hp b)
  | timestamp k ih => exact fun t => ih t (hp t)
  | publish ev k _ => exact hp.elim

theorem Prog.Quiet.bind {p : Prog σ A X Ev E α} {g : α → Prog σ A X Ev E β}
    (hp : p.Quiet) (hg : ∀ a, (g a).Quiet) : (p >>= g).Quiet := by
  show (p.bind g).Quiet
  induction p with
  | ret a => exact hg a
  | fail f => trivial
  | read k ih => exact fun s => ih s (hp s)
  | write f k ih => exact ih hp
  | requireAuth a k _ => exact hp.elim
  | call x k _ => exact hp.elim
  | timestamp k ih => exact fun t => ih t (hp t)
  | publish ev k ih => exact ih hp

/-- A deferred program followed by a quiet one is deferred. -/
theorem Prog.Deferred.bind {p : Prog σ A X Ev E α} {g : α → Prog σ A X Ev E β}
    (hp : p.Deferred Alike) (hg : ∀ a, (g a).Quiet) : (p >>= g).Deferred Alike := by
  show (p.bind g).Deferred Alike
  induction p with
  | ret a => exact (hg a).deferred
  | fail f => trivial
  | read k ih =>
    rcases hp with hk | ⟨hk, hrest⟩
    · exact .inl fun s => (hk s).bind hg
    · refine .inr ⟨?_, fun s => ih s (hrest s)⟩
      intro s s' hs
      show (k s).bind g = (k s').bind g
      rw [hk s s' hs]
  | write f k _ => exact Prog.Quiet.bind hp hg
  | requireAuth a k ih => exact ih hp
  | call x k ih => exact fun b => ih b (hp b)
  | timestamp k ih => exact fun t => ih t (hp t)
  | publish ev k _ => exact Prog.Quiet.bind hp hg

/-- Reading what is the same in storages that are alike. -/
theorem early_get {f : σ → α} (hf : ∀ s s', Alike s s' → f s = f s') :
    (get f : Prog σ A X Ev E α).Early Alike :=
  ⟨fun s s' hs => congrArg Prog.ret (hf s s' hs), fun _ => trivial⟩

theorem early_requireAuth (a : A) : (requireAuth a : Prog σ A X Ev E Unit).Early Alike :=
  trivial

theorem early_ask (x : X) : (ask x : Prog σ A X Ev E Bool).Early Alike := fun _ => trivial

theorem early_lift (e : Except (Fault E) α) : (lift e : Prog σ A X Ev E α).Early Alike := by
  cases e <;> trivial

theorem early_unwrapOptimized (o : Option α) :
    (unwrapOptimized o : Prog σ A X Ev E α).Early Alike := by
  cases o <;> trivial

theorem early_unwrapOrPanic (e : E) (o : Option α) :
    (unwrapOrPanic e o : Prog σ A X Ev E α).Early Alike := by
  cases o <;> trivial

/-! ### Quiet, one effect at a time

`simp` checks through these that what is left of a program does not interact. -/

variable {g : α → Prog σ A X Ev E β} {gu : Unit → Prog σ A X Ev E β}

@[simp] theorem quiet_pure (a : α) : (pure a : Prog σ A X Ev E α).Quiet ↔ True := Iff.rfl

@[simp] theorem quiet_get (f : σ → α) : (get f : Prog σ A X Ev E α).Quiet ↔ True :=
  iff_true_intro fun _ => trivial

@[simp] theorem quiet_get_bind (f : σ → α) : (get f >>= g).Quiet ↔ ∀ s, (g (f s)).Quiet := Iff.rfl

@[simp] theorem quiet_modify (f : σ → σ) :
    (modify f : Prog σ A X Ev E Unit).Quiet ↔ True := Iff.rfl

@[simp] theorem quiet_modify_bind (f : σ → σ) : (modify f >>= gu).Quiet ↔ (gu ()).Quiet := Iff.rfl

@[simp] theorem quiet_publish (ev : Ev) :
    (publish ev : Prog σ A X Ev E Unit).Quiet ↔ True := Iff.rfl

@[simp] theorem quiet_publish_bind (ev : Ev) : (publish ev >>= gu).Quiet ↔ (gu ()).Quiet := Iff.rfl

@[simp] theorem quiet_ledgerTimestamp_bind {g : UInt64 → Prog σ A X Ev E β} :
    (ledgerTimestamp >>= g).Quiet ↔ ∀ t, (g t).Quiet := Iff.rfl

@[simp] theorem quiet_lift (e : Except (Fault E) α) :
    (lift e : Prog σ A X Ev E α).Quiet ↔ True := by
  cases e <;> exact Iff.rfl

@[simp] theorem quiet_lift_bind (e : Except (Fault E) α) :
    (lift e >>= g).Quiet ↔ ∀ a, e = .ok a → (g a).Quiet := by
  cases e with
  | ok a => simp [lift, Bind.bind, Prog.bind]
  | error f => simp [lift, Bind.bind, Prog.bind, Prog.Quiet]

@[simp] theorem quiet_unwrapOptimized (o : Option α) :
    (unwrapOptimized o : Prog σ A X Ev E α).Quiet ↔ True := by
  cases o <;> exact Iff.rfl

@[simp] theorem quiet_unwrapOptimized_bind (o : Option α) :
    (unwrapOptimized o >>= g).Quiet ↔ ∀ a, o = some a → (g a).Quiet := by
  cases o with
  | some a => simp [unwrapOptimized, Bind.bind, Prog.bind]
  | none => simp [unwrapOptimized, Bind.bind, Prog.bind, Prog.Quiet]

@[simp] theorem quiet_unwrapOrPanic (e : E) (o : Option α) :
    (unwrapOrPanic e o : Prog σ A X Ev E α).Quiet ↔ True := by
  cases o <;> exact Iff.rfl

@[simp] theorem quiet_unwrapOrPanic_bind (e : E) (o : Option α) :
    (unwrapOrPanic e o >>= g).Quiet ↔ ∀ a, o = some a → (g a).Quiet := by
  cases o with
  | some a => simp [unwrapOrPanic, Bind.bind, Prog.bind]
  | none => simp [unwrapOrPanic, Bind.bind, Prog.bind, Prog.Quiet]

/-- A rewrite of the result does not interact. -/
@[simp] theorem quiet_map (f : α → β) (p : Prog σ A X Ev E α) : (f <$> p).Quiet ↔ p.Quiet := by
  show (p.bind fun a => .ret (f a)).Quiet ↔ _
  induction p with
  | ret a => exact Iff.rfl
  | fail e => exact Iff.rfl
  | read k ih => exact forall_congr' fun s => ih s
  | write h k ih => exact ih
  | requireAuth a k _ => exact Iff.rfl
  | call x k _ => exact Iff.rfl
  | timestamp k ih => exact forall_congr' fun t => ih t
  | publish ev k ih => exact ih

@[simp] theorem quiet_ite {c : Prop} [Decidable c] (p q : Prog σ A X Ev E α) :
    (if c then p else q).Quiet ↔ (c → p.Quiet) ∧ (¬ c → q.Quiet) := by
  split
  next h => simp [h]
  next h => simp [h]

end Phases

/-! ## Rerunning a frame from where it resumes -/

section Advance

variable {Alike : σ → σ → Prop} {env : Env A X E}

/-- What is quiet runs to its end. -/
theorem advance_quiet {p : Prog σ A X Ev E α} (h : p.Quiet) (fr : Frame σ Ev) :
    (∃ f, advance env p fr = .failed f) ∨
    ∃ a fr', advance env p fr = .done a fr' ∧ exec env p fr = .ok (a, fr') := by
  induction p generalizing fr with
  | ret a => exact .inr ⟨a, fr, rfl, rfl⟩
  | fail f => exact .inl ⟨f, rfl⟩
  | read k ih => exact ih _ (h _) fr
  | write f k ih => exact ih h _
  | requireAuth a k _ => exact h.elim
  | call x k _ => exact h.elim
  | timestamp k ih => exact ih _ (h _) fr
  | publish ev k ih => exact ih h _

/-- A stretch of a deferred program fails, or ends the program as `exec` does, or
is suspended having done nothing: from any storage alike to the one it ran on, the
program and what is left of it come to the same. -/
theorem advance_deferred {p : Prog σ A X Ev E α} (h : p.Deferred Alike) (fr : Frame σ Ev) :
    (∃ f, advance env p fr = .failed f) ∨
    (∃ a fr', advance env p fr = .done a fr' ∧ exec env p fr = .ok (a, fr')) ∨
    ∃ rest, advance env p fr = .suspended rest fr ∧ rest.Deferred Alike ∧
      ∀ s evs, Alike fr.store s → exec env p ⟨s, evs⟩ = exec env rest ⟨s, evs⟩ := by
  induction p generalizing fr with
  | ret a => exact .inr (.inl ⟨a, fr, rfl, rfl⟩)
  | fail f => exact .inl ⟨f, rfl⟩
  | read k ih =>
    rcases h with hk | ⟨hk, hrest⟩
    · rcases advance_quiet (hk fr.store) fr with hfail | hdone
      · exact .inl hfail
      · exact .inr (.inl hdone)
    · rcases ih fr.store (hrest _) fr with hfail | hdone | ⟨rest, hsus, hdef, hsame⟩
      · exact .inl hfail
      · exact .inr (.inl hdone)
      · refine .inr (.inr ⟨rest, hsus, hdef, ?_⟩)
        intro s evs hs
        show exec env (k s) ⟨s, evs⟩ = _
        rw [← hk _ _ hs]
        exact hsame s evs hs
  | write f k _ =>
    rcases advance_quiet (p := .write f k) h fr with hfail | hdone
    · exact .inl hfail
    · exact .inr (.inl hdone)
  | requireAuth a k _ => exact .inr (.inr ⟨_, rfl, h, fun _ _ _ => rfl⟩)
  | call x k _ => exact .inr (.inr ⟨_, rfl, h, fun _ _ _ => rfl⟩)
  | timestamp k ih => exact ih _ (h _) fr
  | publish ev k _ =>
    rcases advance_quiet (p := .publish ev k) h fr with hfail | hdone
    · exact .inl hfail
    · exact .inr (.inl hdone)

/-- An interaction that returns changes nothing. -/
theorem answer_deferred {rest k : Prog σ A X Ev E α} (h : rest.Deferred Alike)
    (hans : answer env rest = .ok k) :
    k.Deferred Alike ∧ ∀ fr, exec env rest fr = exec env k fr := by
  cases rest with
  | requireAuth a k' =>
    obtain ⟨hs, heq⟩ := guard_eq_ok.mp hans
    cases heq
    refine ⟨h, fun fr => ?_⟩
    rw [exec, if_pos hs]
  | call x k' =>
    obtain ⟨b, hb, rfl⟩ := map_eq_ok.mp hans
    refine ⟨h b, fun fr => ?_⟩
    rw [exec, hb]
  | _ =>
    cases hans
    exact ⟨h, fun _ => rfl⟩

end Advance

/-! ## Nests as runs -/

/-- The world is what the top-level calls `txs`, all of them successful, make of
`s`: the same storage, the same events, and each call answered as the log says. -/
structure Serial (prog : C → Prog σ A X Ev E R) (s : σ) (txs : List (Tx A X E C))
    (w : World σ Ev C R) : Prop where
  store : run prog s txs = w.frame.store
  events : eventLog (trace prog s txs) = w.frame.events
  log : (trace prog s txs).map (fun st => (st.tx.call, st.out.result)) =
    w.log.map fun entry => (entry.1, .ok entry.2)

/-- Every call defers, up to what is alike for it. -/
structure Defers (prog : C → Prog σ A X Ev E R) (Alike : C → σ → σ → Prop) : Prop where
  deferred : ∀ c, (prog c).Deferred (Alike c)
  refl : ∀ c s, Alike c s s
  trans : ∀ {c s₁ s₂ s₃}, Alike c s₁ s₂ → Alike c s₂ s₃ → Alike c s₁ s₃

/-- A suspended frame that resumes on a storage alike to the one it saw ends as its
whole call would, entered there. -/
structure Activation.Replays (prog : C → Prog σ A X Ev E R) (Alike : C → σ → σ → Prop)
    (t : Activation σ A X Ev E C R) : Prop where
  deferred : t.rest.Deferred (Alike t.tx.call)
  same : ∀ s evs, Alike t.tx.call t.seen s →
    exec t.tx.env (prog t.tx.call) ⟨s, evs⟩ = exec t.tx.env t.rest ⟨s, evs⟩

section Nests

variable {prog : C → Prog σ A X Ev E R} {Alike : C → σ → σ → Prop} {s : σ}
  {Entered : Tx A X E C → Prop} {cfg : Config σ A X Ev E C R} {act : Action A X E C}
  {acts : List (Action A X E C)} {w : World σ Ev C R} {txs : List (Tx A X E C)}

theorem serial_nil : Serial prog s [] (⟨⟨s, []⟩, []⟩ : World σ Ev C R) := ⟨rfl, rfl, rfl⟩

/-- One call more. -/
theorem Serial.concat (h : Serial prog s txs w) {tx : Tx A X E C} {r : R} {fr : Frame σ Ev}
    (hex : exec tx.env (prog tx.call) w.frame = .ok (r, fr)) :
    Serial prog s (txs ++ [tx]) ⟨fr, w.log ++ [(tx.call, r)]⟩ := by
  -- the frame starts on what the calls before it published
  have hfresh := exec_events tx.env (prog tx.call) w.frame.store w.frame.events []
  rw [List.append_nil] at hfresh
  have hok : exec tx.env (prog tx.call) ⟨w.frame.store, w.frame.events⟩ = .ok (r, fr) := hex
  rw [hok] at hfresh
  obtain ⟨q, hq, hqr⟩ := map_eq_ok.mp hfresh.symm
  obtain ⟨rfl, rfl⟩ := Prod.mk.inj hqr
  have hstep : stepOf prog (run prog s txs) tx =
      ⟨run prog s txs, tx, ⟨.ok q.1, q.2.store, q.2.events⟩⟩ := by
    rw [← h.store] at hq
    rw [stepOf, invoke_of_exec_ok hq]
  refine ⟨?_, ?_, ?_⟩
  · rw [run_concat, after, hstep]
  · rw [trace_concat, hstep, eventLog_concat, h.events]
  · rw [trace_concat, hstep, List.map_append, h.log, List.map_append]
    rfl

/-- A world that a run of entered calls makes. -/
def Serialized (prog : C → Prog σ A X Ev E R) (s : σ) (Entered : Tx A X E C → Prop)
    (w : World σ Ev C R) : Prop :=
  ∃ txs, (∀ tx ∈ txs, Entered tx) ∧ Serial prog s txs w

/-- The invariant of a nest: its world and every world a suspended frame may come
back to are made by runs, and the suspended frames can still be replayed. -/
structure Config.InSeries (prog : C → Prog σ A X Ev E R) (Alike : C → σ → σ → Prop) (s : σ)
    (Entered : Tx A X E C → Prop) (cfg : Config σ A X Ev E C R) : Prop where
  world : Serialized prog s Entered cfg.world
  saved : ∀ t ∈ cfg.stack, Serialized prog s Entered t.saved
  stack : ∀ t ∈ cfg.stack, Entered t.tx ∧ (∃ txs, t.seen = run prog s txs) ∧
    t.Replays prog Alike

theorem inSeries_start :
    (Config.start s : Config σ A X Ev E C R).InSeries prog Alike s Entered where
  world := ⟨[], fun _ ht => absurd ht List.not_mem_nil, serial_nil⟩
  saved _ ht := absurd ht List.not_mem_nil
  stack _ ht := absurd ht List.not_mem_nil

/-- Where a stretch `p` of a frame leads, if from every storage alike to the one it
runs on it ends as the whole call does. -/
theorem inSeries_settle (hdefers : Defers prog Alike) (h : cfg.InSeries prog Alike s Entered)
    {tx : Tx A X E C} {p : Prog σ A X Ev E R} {saved : World σ Ev C R}
    {stack : List (Activation σ A X Ev E C R)} {point : Nat} (htx : Entered tx)
    (hp : p.Deferred (Alike tx.call))
    (hsame : ∀ s evs, Alike tx.call cfg.world.frame.store s →
      exec tx.env (prog tx.call) ⟨s, evs⟩ = exec tx.env p ⟨s, evs⟩)
    (hsaved : Serialized prog s Entered saved) (hsub : ∀ t ∈ stack, t ∈ cfg.stack) :
    (settle tx saved point cfg.world.log stack
      (advance tx.env p cfg.world.frame)).InSeries prog Alike s Entered := by
  obtain ⟨txs, hentered, hserial⟩ := h.world
  rcases advance_deferred hp cfg.world.frame with ⟨f, hf⟩ | ⟨r, fr, hdone, hex⟩ |
    ⟨rest, hsus, hdef, hrest⟩
  · rw [hf]
    exact ⟨hsaved, fun t ht => h.saved t (hsub t ht), fun t ht => h.stack t (hsub t ht)⟩
  · -- the frame returns, and so would its call, entered now
    rw [hdone]
    rw [← hsame _ _ (hdefers.refl _ _)] at hex
    refine ⟨⟨txs ++ [tx], ?_, hserial.concat hex⟩, fun t ht => h.saved t (hsub t ht),
      fun t ht => h.stack t (hsub t ht)⟩
    intro tx' htx'
    rcases List.mem_append.mp htx' with hold | hnew
    · exact hentered tx' hold
    · rw [List.mem_singleton.mp hnew]
      exact htx
  · rw [hsus]
    refine ⟨⟨txs, hentered, hserial⟩, ?_, ?_⟩
    · intro t ht
      rcases List.mem_cons.mp ht with rfl | ht
      · exact hsaved
      · exact h.saved t (hsub t ht)
    · intro t ht
      rcases List.mem_cons.mp ht with rfl | ht
      · refine ⟨htx, ⟨txs, hserial.store.symm⟩, hdef, ?_⟩
        intro s' evs hs'
        exact (hsame s' evs hs').trans (hrest s' evs hs')
      · exact h.stack t (hsub t ht)

/-- One action that resumes no frame on storage it could tell from what it saw. -/
theorem inSeries_step (hdefers : Defers prog Alike) {P : Condition σ A X E C}
    (hP : ∀ tx n l₁ l₂, P tx n (run prog s l₁) (run prog s l₂) →
      Alike tx.call (run prog s l₁) (run prog s l₂))
    (h : cfg.InSeries prog Alike s Entered) (hentered : ∀ tx, act = .enter tx → Entered tx)
    (hact : cfg.Permits P act) : (cfg.step prog act).InSeries prog Alike s Entered := by
  obtain ⟨world, stack⟩ := cfg
  cases act with
  | enter tx =>
    exact inSeries_settle hdefers h (hentered tx rfl) (hdefers.deferred tx.call)
      (fun _ _ _ => rfl) h.world fun t ht => ht
  | resume =>
    cases stack with
    | nil => exact h
    | cons t stack =>
      have ht : t ∈ t :: stack := List.mem_cons_self ..
      have hsub : ∀ t' ∈ stack, t' ∈ t :: stack := fun t' ht' => List.mem_cons_of_mem _ ht'
      obtain ⟨htx, ⟨seen, hseen⟩, hreplays⟩ := h.stack t ht
      unfold Config.step resumed
      dsimp only
      cases hans : answer t.tx.env t.rest with
      | error f =>
        exact ⟨h.saved t ht, fun t' ht' => h.saved t' (hsub t' ht'),
          fun t' ht' => h.stack t' (hsub t' ht')⟩
      | ok k =>
        obtain ⟨hk, hsame⟩ := answer_deferred hreplays.deferred hans
        obtain ⟨txs, _, hserial⟩ := h.world
        -- both storages are ones a run reaches, so the condition speaks of them
        have halike : Alike t.tx.call t.seen world.frame.store := by
          have hpermits : P t.tx t.point t.seen world.frame.store := hact t rfl
          have hstore : run prog s txs = world.frame.store := hserial.store
          rw [hseen, ← hstore] at hpermits ⊢
          exact hP _ _ _ _ hpermits
        refine inSeries_settle hdefers h htx hk ?_ (h.saved t ht) hsub
        intro s' evs hs'
        exact (hreplays.same s' evs (hdefers.trans halike hs')).trans (hsame _)
  | abort =>
    cases stack with
    | nil => exact h
    | cons t stack =>
      have hsub : ∀ t' ∈ stack, t' ∈ t :: stack := fun t' ht' => List.mem_cons_of_mem _ ht'
      exact ⟨h.saved t (List.mem_cons_self ..), fun t' ht' => h.saved t' (hsub t' ht'),
        fun t' ht' => h.stack t' (hsub t' ht')⟩

theorem inSeries_play (hdefers : Defers prog Alike) {P : Condition σ A X E C}
    (hP : ∀ tx n l₁ l₂, P tx n (run prog s l₁) (run prog s l₂) →
      Alike tx.call (run prog s l₁) (run prog s l₂))
    (h : cfg.InSeries prog Alike s Entered) (hentered : ∀ tx, .enter tx ∈ acts → Entered tx)
    (hacts : cfg.PermitsAll prog P acts) :
    (cfg.play prog acts).InSeries prog Alike s Entered := by
  induction acts generalizing cfg with
  | nil => exact h
  | cons act acts ih =>
    refine ih (inSeries_step hdefers hP h ?_ hacts.1) ?_ hacts.2
    · intro tx htx
      exact hentered tx (htx ▸ List.mem_cons_self ..)
    · intro tx htx
      exact hentered tx (List.mem_cons_of_mem _ htx)

/-- **A nest in which no frame is overtaken is a run**: of the invocations that
returned and were not undone, as top-level calls, in the order in which they
returned. -/
theorem serial_play (hdefers : Defers prog Alike) {P : Condition σ A X E C}
    (hP : ∀ tx n l₁ l₂, P tx n (run prog s l₁) (run prog s l₂) →
      Alike tx.call (run prog s l₁) (run prog s l₂))
    (hacts : (Config.start s).PermitsAll prog P acts) :
    ∃ txs, (∀ tx ∈ txs, .enter tx ∈ acts) ∧
      Serial prog s txs ((Config.start s).play prog acts).world :=
  (inSeries_play hdefers hP inSeries_start (fun _ htx => htx) hacts).world

/-- A condition that always holds permits every run. -/
theorem permitsAll_of_forall {P : Condition σ A X E C} (h : ∀ tx n seen s, P tx n seen s) :
    cfg.PermitsAll prog P acts := by
  induction acts generalizing cfg with
  | nil => exact trivial
  | cons act acts ih =>
    refine ⟨?_, ih⟩
    cases act with
    | resume => exact fun t _ => h _ _ _ _
    | _ => exact trivial

end Nests

end LilyContracts.Host
