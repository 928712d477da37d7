import LilyContracts.Host.Serial

/-!
# A lock held across interactions

`Host/Serial.lean` is about programs that leave all their work to the end. A lock
is the other way to keep nested calls out: take it first, release it last, and
interact as often as needed in between. `Exclusive` says what that takes of a
contract: a call that locks fails at once where the lock is held; it waits for an
interaction only while it holds the lock and returns with the lock released
(`Prog.Locked`); a call that does not lock changes nothing.

What it gives is `excludes_play`. In every nest of calls at most one locking frame
is suspended at a time, and the lock is held exactly while there is one; entering
another one leaves everything as it is; and while the lock is free, the storage,
the events and the answers of the locking calls are those of a run of top-level
calls. The calls that only read may be nested anywhere, and may see what a
suspended frame has done so far. All of it is about locks in storage that the nested
frames share, as they share everything on this host.
-/

namespace LilyContracts.Host

variable {σ A X Ev E C R α : Type}

/-! ## Programs that hold a lock -/

/-- What is left of a frame that has taken the lock, on the storage it runs on: it
waits only while the lock is held, and returns with the lock released. -/
def Prog.Locked (busy : σ → Bool) : Prog σ A X Ev E α → σ → Prop
  | .ret _, s => busy s = false
  | .fail _, _ => True
  | .read k, s => (k s).Locked busy s
  | .write f k, s => k.Locked busy (f s)
  | .requireAuth _ k, s => busy s = true ∧ k.Locked busy s
  | .call _ k, s => busy s = true ∧ ∀ b, (k b).Locked busy s
  | .timestamp k, s => ∀ t, (k t).Locked busy s
  | .publish _ k, s => k.Locked busy s

/-- The calls that `locks` picks out take a lock first and release it last; the
others only read. -/
structure Exclusive (prog : C → Prog σ A X Ev E R) (busy : σ → Bool) (locks : C → Bool) :
    Prop where
  refuses : ∀ (tx : Tx A X E C) fr, locks tx.call = true → busy fr.store = true →
    ∃ f, advance tx.env (prog tx.call) fr = .failed f
  locked : ∀ c s, locks c = true → busy s = false → (prog c).Locked busy s
  views : ∀ c, locks c = false → (prog c).ReadOnly

section Advance

variable {busy : σ → Bool} {env : Env A X E}

variable (env) in
/-- A stretch of a frame that holds the lock. -/
theorem advance_locked {p : Prog σ A X Ev E α} (fr : Frame σ Ev) (h : p.Locked busy fr.store) :
    (∃ f, advance env p fr = .failed f) ∨
    (∃ a fr', advance env p fr = .done a fr' ∧ exec env p fr = .ok (a, fr') ∧
      busy fr'.store = false) ∨
    ∃ rest fr', advance env p fr = .suspended rest fr' ∧ busy fr'.store = true ∧
      rest.Locked busy fr'.store ∧ exec env p fr = exec env rest fr' := by
  induction p generalizing fr with
  | ret a => exact .inr (.inl ⟨a, fr, rfl, rfl, h⟩)
  | fail f => exact .inl ⟨f, rfl⟩
  | read k ih => exact ih _ fr h
  | write f k ih => exact ih { fr with store := f fr.store } h
  | requireAuth a k _ => exact .inr (.inr ⟨_, fr, rfl, h.1, h, rfl⟩)
  | call x k _ => exact .inr (.inr ⟨_, fr, rfl, h.1, h, rfl⟩)
  | timestamp k ih => exact ih _ fr (h _)
  | publish ev k ih => exact ih { fr with events := fr.events ++ [ev] } h

/-- An interaction that returns leaves the lock held. -/
theorem answer_locked {rest k : Prog σ A X Ev E α} (fr : Frame σ Ev)
    (h : rest.Locked busy fr.store) (hans : answer env rest = .ok k) :
    k.Locked busy fr.store ∧ exec env rest fr = exec env k fr := by
  cases rest with
  | requireAuth a k' =>
    obtain ⟨hs, heq⟩ := guard_eq_ok.mp hans
    cases heq
    refine ⟨h.2, ?_⟩
    rw [exec, if_pos hs]
  | call x k' =>
    obtain ⟨b, hb, rfl⟩ := map_eq_ok.mp hans
    refine ⟨h.2 b, ?_⟩
    rw [exec, hb]
  | _ =>
    cases hans
    exact ⟨h, rfl⟩

variable (env) in
/-- A stretch of a program that only reads. -/
theorem advance_readOnly {p : Prog σ A X Ev E α} (h : p.ReadOnly) (fr : Frame σ Ev) :
    (∃ f, advance env p fr = .failed f) ∨ (∃ a, advance env p fr = .done a fr) ∨
    ∃ rest, advance env p fr = .suspended rest fr ∧ rest.ReadOnly := by
  induction p with
  | ret a => exact .inr (.inl ⟨a, rfl⟩)
  | fail f => exact .inl ⟨f, rfl⟩
  | read k ih => exact ih _ (h _)
  | write f k _ => exact h.elim
  | requireAuth a k _ => exact .inr (.inr ⟨_, rfl, h⟩)
  | call x k _ => exact .inr (.inr ⟨_, rfl, h⟩)
  | timestamp k ih => exact ih _ (h _)
  | publish ev k _ => exact h.elim

theorem answer_readOnly {rest k : Prog σ A X Ev E α} (h : rest.ReadOnly)
    (hans : answer env rest = .ok k) : k.ReadOnly := by
  cases rest with
  | requireAuth a k' =>
    obtain ⟨_, heq⟩ := guard_eq_ok.mp hans
    cases heq
    exact h
  | call x k' =>
    obtain ⟨b, _, rfl⟩ := map_eq_ok.mp hans
    exact h b
  | _ =>
    cases hans
    exact h

end Advance

/-! ### Holding a lock, one effect at a time -/

section Steps

variable {busy : σ → Bool} {β : Type} {cur : σ} {g : α → Prog σ A X Ev E β}
  {gu : Unit → Prog σ A X Ev E β}

@[simp] theorem locked_pure (a : α) :
    (pure a : Prog σ A X Ev E α).Locked busy cur ↔ busy cur = false := Iff.rfl

@[simp] theorem locked_get_bind (f : σ → α) :
    (get f >>= g).Locked busy cur ↔ (g (f cur)).Locked busy cur := Iff.rfl

@[simp] theorem locked_modify_bind (f : σ → σ) :
    (modify f >>= gu).Locked busy cur ↔ (gu ()).Locked busy (f cur) := Iff.rfl

@[simp] theorem locked_ask_bind (x : X) {g : Bool → Prog σ A X Ev E β} :
    (ask x >>= g).Locked busy cur ↔ busy cur = true ∧ ∀ b, (g b).Locked busy cur := Iff.rfl

end Steps

/-! ## The invariant of a nest -/

/-- The world with only the locking calls in its log. -/
def World.locked (locks : C → Bool) (w : World σ Ev C R) : World σ Ev C R :=
  ⟨w.frame, w.log.filter fun entry => locks entry.1⟩

section Invariant

variable (prog : C → Prog σ A X Ev E R) (busy : σ → Bool) (locks : C → Bool) (s : σ)
  (Entered : Tx A X E C → Prop)

/-- The lock is free, and what the world holds is what a run of locking calls makes
of `s`. -/
def World.AtRest (w : World σ Ev C R) : Prop :=
  busy w.frame.store = false ∧ Serialized prog s Entered (w.locked locks)

/-- A suspended frame that only reads. -/
def Activation.IsView (t : Activation σ A X Ev E C R) : Prop :=
  locks t.tx.call = false ∧ t.rest.ReadOnly

/-- A suspended frame that holds the lock, under a world that no other locking frame
has touched since. -/
structure Activation.Owns (t : Activation σ A X Ev E C R) (w : World σ Ev C R) : Prop where
  locking : locks t.tx.call = true
  entered : Entered t.tx
  before : t.saved.AtRest prog busy locks s Entered
  log : w.log = (t.saved.locked locks).log
  held : busy w.frame.store = true
  locked : t.rest.Locked busy w.frame.store
  same : exec t.tx.env (prog t.tx.call) t.saved.frame = exec t.tx.env t.rest w.frame

/-- Below the owner of the lock there are views from before it was taken. -/
def Below (ts : List (Activation σ A X Ev E C R)) : Prop :=
  ∀ t ∈ ts, t.IsView locks ∧ t.saved.AtRest prog busy locks s Entered

/-- Some frame owns the lock; above it there are views that came later. The world is
the one with only the locking calls in its log. -/
def Held (w : World σ Ev C R) : List (Activation σ A X Ev E C R) → Prop
  | [] => False
  | t :: ts => (t.IsView locks ∧ t.saved.locked locks = w ∧ Held w ts) ∨
    (t.Owns prog busy locks s Entered w ∧ Below prog busy locks s Entered ts)

/-- The lock is free and only views are suspended, or some frame owns it. -/
def Orderly (w : World σ Ev C R) (ts : List (Activation σ A X Ev E C R)) : Prop :=
  (w.AtRest prog busy locks s Entered ∧ Below prog busy locks s Entered ts) ∨
    Held prog busy locks s Entered (w.locked locks) ts

end Invariant

section Rules

variable {prog : C → Prog σ A X Ev E R} {busy : σ → Bool} {locks : C → Bool} {s : σ}
  {Entered : Tx A X E C → Prop} {w saved : World σ Ev C R}
  {ts : List (Activation σ A X Ev E C R)} {cfg : Config σ A X Ev E C R}
  {act : Action A X E C} {acts : List (Action A X E C)}

theorem locked_concat_view {c : C} {r : R} (hc : locks c = false) :
    (⟨w.frame, w.log ++ [(c, r)]⟩ : World σ Ev C R).locked locks = w.locked locks := by
  simp [World.locked, List.filter_append, hc]

theorem locked_concat {fr : Frame σ Ev} {c : C} {r : R} (hc : locks c = true) :
    (⟨fr, w.log ++ [(c, r)]⟩ : World σ Ev C R).locked locks =
      ⟨fr, (w.locked locks).log ++ [(c, r)]⟩ := by
  simp [World.locked, List.filter_append, hc]

/-- Whether a nest is orderly does not depend on the views in the log. -/
theorem orderly_congr {w' : World σ Ev C R} (hw : w'.locked locks = w.locked locks)
    (h : Orderly prog busy locks s Entered w ts) : Orderly prog busy locks s Entered w' ts := by
  have hframe : w'.frame = w.frame := by
    show (w'.locked locks).frame = (w.locked locks).frame
    rw [hw]
  rcases h with ⟨⟨hfree, hserial⟩, hbelow⟩ | hheld
  · refine .inl ⟨⟨?_, ?_⟩, hbelow⟩
    · rw [hframe]
      exact hfree
    · rw [hw]
      exact hserial
  · refine .inr ?_
    rw [hw]
    exact hheld

theorem held_busy (h : Held prog busy locks s Entered w ts) : busy w.frame.store = true := by
  induction ts with
  | nil => exact h.elim
  | cons t ts ih =>
    rcases h with ⟨_, _, h⟩ | ⟨howns, _⟩
    · exact ih h
    · exact howns.held

/-- Where a stretch of a view leads: nothing changes but the log and the stack. -/
theorem orderly_view {tx : Tx A X E C} {p : Prog σ A X Ev E R} {point : Nat}
    (hc : locks tx.call = false) (hp : p.ReadOnly)
    (hw : Orderly prog busy locks s Entered w ts)
    (hsaved : Orderly prog busy locks s Entered saved ts)
    (hpush : ∀ t : Activation σ A X Ev E C R, t.IsView locks → t.saved = saved →
      Orderly prog busy locks s Entered w (t :: ts)) :
    let cfg' := settle tx saved point w.log ts (advance tx.env p w.frame)
    Orderly prog busy locks s Entered cfg'.world cfg'.stack := by
  intro cfg'
  rcases advance_readOnly tx.env hp w.frame with ⟨f, hf⟩ | ⟨r, hr⟩ | ⟨rest, hrest, hro⟩
  · rw [show cfg' = ⟨saved, ts⟩ from by simp only [cfg', hf, settle]]
    exact hsaved
  · rw [show cfg' = ⟨⟨w.frame, w.log ++ [(tx.call, r)]⟩, ts⟩ from by
      simp only [cfg', hr, settle]]
    exact orderly_congr (locked_concat_view hc) hw
  · rw [show cfg' = ⟨w, ⟨tx, saved, point, w.frame.store, rest⟩ :: ts⟩ from by
      simp only [cfg', hrest, settle]]
    exact hpush _ ⟨hc, hro⟩ rfl

/-- Where a stretch of the frame that holds the lock leads. -/
theorem orderly_owner {tx : Tx A X E C} {p : Prog σ A X Ev E R} {point : Nat}
    (hc : locks tx.call = true) (hentered : Entered tx) (hp : p.Locked busy w.frame.store)
    (hsaved : saved.AtRest prog busy locks s Entered)
    (hlog : (w.locked locks).log = (saved.locked locks).log)
    (hsame : exec tx.env (prog tx.call) saved.frame = exec tx.env p w.frame)
    (hbelow : Below prog busy locks s Entered ts) :
    let cfg' := settle tx saved point w.log ts (advance tx.env p w.frame)
    Orderly prog busy locks s Entered cfg'.world cfg'.stack := by
  intro cfg'
  rcases advance_locked tx.env w.frame hp with
    ⟨f, hf⟩ | ⟨r, fr, hdone, hex, hfree⟩ | ⟨rest, fr, hsus, hbusy, hlocked, hex⟩
  · rw [show cfg' = ⟨saved, ts⟩ from by simp only [cfg', hf, settle]]
    exact .inl ⟨hsaved, hbelow⟩
  · -- it returns: one locking call more in the run
    rw [show cfg' = ⟨⟨fr, w.log ++ [(tx.call, r)]⟩, ts⟩ from by simp only [cfg', hdone, settle]]
    obtain ⟨_, txs, htxs, hserial⟩ := hsaved
    refine .inl ⟨⟨hfree, txs ++ [tx], ?_, ?_⟩, hbelow⟩
    · intro tx' htx'
      rcases List.mem_append.mp htx' with hold | hnew
      · exact htxs tx' hold
      · rw [List.mem_singleton.mp hnew]
        exact hentered
    · rw [locked_concat hc, hlog]
      exact hserial.concat (hsame.trans hex)
  · rw [show cfg' = ⟨⟨fr, w.log⟩, ⟨tx, saved, point, fr.store, rest⟩ :: ts⟩ from by
      simp only [cfg', hsus, settle]]
    exact .inr (.inr ⟨⟨hc, hentered, hsaved, hlog, hbusy, hlocked, hsame.trans hex⟩, hbelow⟩)

/-- While the lock is held, entering a call that locks changes nothing. -/
theorem step_refused (h : Exclusive prog busy locks) {tx : Tx A X E C}
    (hc : locks tx.call = true) (hbusy : busy cfg.world.frame.store = true) :
    cfg.step prog (.enter tx) = cfg := by
  obtain ⟨f, hf⟩ := h.refuses tx cfg.world.frame hc hbusy
  show settle tx cfg.world 1 cfg.world.log cfg.stack
    (advance tx.env (prog tx.call) cfg.world.frame) = cfg
  rw [hf]
  rfl

/-- The step rule. -/
theorem orderly_step (h : Exclusive prog busy locks)
    (hentered : ∀ tx, act = .enter tx → locks tx.call = true → Entered tx)
    (hcfg : Orderly prog busy locks s Entered cfg.world cfg.stack) :
    Orderly prog busy locks s Entered (cfg.step prog act).world (cfg.step prog act).stack := by
  obtain ⟨w, stack⟩ := cfg
  cases act with
  | enter tx =>
    cases hc : locks tx.call with
    | false =>
      -- a view may be entered anywhere
      refine orderly_view hc (h.views _ hc) hcfg hcfg ?_
      intro t ht hsaved
      rcases hcfg with ⟨hrest, hbelow⟩ | hheld
      · exact .inl ⟨hrest, List.forall_mem_cons.mpr ⟨⟨ht, hsaved ▸ hrest⟩, hbelow⟩⟩
      · exact .inr (.inl ⟨ht, by rw [hsaved], hheld⟩)
    | true =>
      rcases hcfg with ⟨hrest, hbelow⟩ | hheld
      · exact orderly_owner hc (hentered tx rfl hc) (h.locked _ _ hc hrest.1) hrest rfl rfl hbelow
      · -- the lock is held, so the call fails at once
        have hbusy : busy (w.locked locks).frame.store = true := held_busy hheld
        rw [step_refused h hc hbusy]
        exact .inr hheld
  | resume =>
    cases stack with
    | nil => exact hcfg
    | cons t ts =>
      unfold Config.step resumed
      dsimp only
      rcases hcfg with ⟨hrest, hbelow⟩ | ⟨ht, hsaved, hheld⟩ | ⟨howns, hbelow⟩
      · obtain ⟨⟨ht, hback⟩, hrest'⟩ := List.forall_mem_cons.mp hbelow
        cases hans : answer t.tx.env t.rest with
        | error f => exact .inl ⟨hback, hrest'⟩
        | ok k =>
          refine orderly_view ht.1 (answer_readOnly ht.2 hans) (.inl ⟨hrest, hrest'⟩)
            (.inl ⟨hback, hrest'⟩) ?_
          intro t₁ ht₁ hsaved
          exact .inl ⟨hrest, List.forall_mem_cons.mpr ⟨⟨ht₁, hsaved ▸ hback⟩, hrest'⟩⟩
      · -- a view above the frame that holds the lock
        have hback : Held prog busy locks s Entered (t.saved.locked locks) ts := by
          rw [hsaved]
          exact hheld
        cases hans : answer t.tx.env t.rest with
        | error f => exact .inr hback
        | ok k =>
          refine orderly_view ht.1 (answer_readOnly ht.2 hans) (.inr hheld) (.inr hback) ?_
          intro t₁ ht₁ hsaved₁
          exact .inr (.inl ⟨ht₁, by rw [hsaved₁, hsaved], hheld⟩)
      · -- the frame that holds the lock, on the storage it left
        cases hans : answer t.tx.env t.rest with
        | error f => exact .inl ⟨howns.before, hbelow⟩
        | ok k =>
          obtain ⟨hlocked, hsame⟩ := answer_locked w.frame howns.locked hans
          exact orderly_owner howns.locking howns.entered hlocked howns.before howns.log
            (howns.same.trans hsame) hbelow
  | abort =>
    cases stack with
    | nil => exact hcfg
    | cons t ts =>
      rcases hcfg with ⟨_, hbelow⟩ | ⟨_, hsaved, hheld⟩ | ⟨howns, hbelow⟩
      · obtain ⟨⟨_, hback⟩, hrest'⟩ := List.forall_mem_cons.mp hbelow
        exact .inl ⟨hback, hrest'⟩
      · refine .inr ?_
        show Held prog busy locks s Entered (t.saved.locked locks) ts
        rw [hsaved]
        exact hheld
      · exact .inl ⟨howns.before, hbelow⟩

/-- The run rule. -/
theorem orderly_play (h : Exclusive prog busy locks)
    (hentered : ∀ tx, .enter tx ∈ acts → locks tx.call = true → Entered tx)
    (hcfg : Orderly prog busy locks s Entered cfg.world cfg.stack) :
    Orderly prog busy locks s Entered (cfg.play prog acts).world (cfg.play prog acts).stack := by
  induction acts generalizing cfg with
  | nil => exact hcfg
  | cons act acts ih =>
    refine ih ?_ (orderly_step h ?_ hcfg)
    · intro tx htx
      exact hentered tx (List.mem_cons_of_mem _ htx)
    · intro tx htx
      exact hentered tx (htx ▸ List.mem_cons_self ..)

/-! ## What it gives -/

theorem below_countP (h : Below prog busy locks s Entered ts) :
    (ts.countP fun t => locks t.tx.call) = 0 := by
  refine List.countP_eq_zero.mpr ?_
  intro t ht hlocks
  rw [(h t ht).1.1] at hlocks
  cases hlocks

theorem held_countP (h : Held prog busy locks s Entered w ts) :
    (ts.countP fun t => locks t.tx.call) = 1 := by
  induction ts with
  | nil => exact h.elim
  | cons t ts ih =>
    rw [List.countP_cons]
    rcases h with ⟨ht, _, h⟩ | ⟨howns, hbelow⟩
    · rw [ih h, ht.1]
      rfl
    · rw [below_countP hbelow, howns.locking]
      rfl

end Rules

/-- What a lock gives in a configuration that actions `acts` led to from `s`. -/
structure Excludes (prog : C → Prog σ A X Ev E R) (busy : σ → Bool) (locks : C → Bool) (s : σ)
    (acts : List (Action A X E C)) (cfg : Config σ A X Ev E C R) : Prop where
  /-- It is held exactly while one locking frame is suspended, and there is never a
  second. -/
  held : (cfg.stack.countP fun t => locks t.tx.call) = (busy cfg.world.frame.store).toNat
  /-- Held, it keeps every other locking call out. -/
  refused : busy cfg.world.frame.store = true → ∀ tx, locks tx.call = true →
    cfg.step prog (.enter tx) = cfg
  /-- Free, it leaves what a run of locking calls makes. -/
  serial : busy cfg.world.frame.store = false →
    ∃ txs, (∀ tx ∈ txs, .enter tx ∈ acts ∧ locks tx.call = true) ∧
      Serial prog s txs (cfg.world.locked locks)

/-- **A lock held across interactions makes every nest a run.** -/
theorem excludes_play {prog : C → Prog σ A X Ev E R} {busy : σ → Bool} {locks : C → Bool}
    (h : Exclusive prog busy locks) {s : σ} (hs : busy s = false)
    (acts : List (Action A X E C)) :
    Excludes prog busy locks s acts ((Config.start s).play prog acts) := by
  have hstart : Orderly prog busy locks s
      (fun tx => .enter tx ∈ acts ∧ locks tx.call = true)
      (Config.start s : Config σ A X Ev E C R).world [] :=
    .inl ⟨⟨hs, [], fun _ ht => absurd ht List.not_mem_nil, serial_nil⟩,
      fun _ ht => absurd ht List.not_mem_nil⟩
  rcases orderly_play h (fun tx htx hc => ⟨htx, hc⟩) hstart with
    ⟨⟨hfree, hserial⟩, hbelow⟩ | hheld
  · refine ⟨?_, ?_, fun _ => hserial⟩
    · rw [below_countP hbelow, hfree]
      rfl
    · intro hbusy
      rw [hfree] at hbusy
      cases hbusy
  · have hbusy := held_busy hheld
    refine ⟨?_, ?_, ?_⟩
    · rw [held_countP hheld]
      show 1 = (busy (World.locked locks _).frame.store).toNat
      rw [hbusy]
      rfl
    · intro hbusy' tx hc
      exact step_refused h hc hbusy'
    · intro hfree
      have : busy (World.locked locks _).frame.store = false := hfree
      rw [hbusy] at this
      cases this

end LilyContracts.Host
