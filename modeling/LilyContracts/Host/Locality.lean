import LilyContracts.Host.Run

/-!
# Calls that do not feel one another

A `view` is the part of the storage that some calls work on. A program respects it
(`Prog.Respects`, a property of its syntax) when nothing it reads tells two
storages apart that look alike in the view, and its writes leave storages alike
that were alike. Such a program answers the same on both and leaves them alike
(`exec_respects`).

`Independent` adds the rest of the contract: the calls that are `mine` respect the
view, and no other call changes it. Then what the others do, and when, cannot be
felt: two runs with the same calls of mine, in the same order, give the same
answers to them and end with the same view (`Independent.runs_agree`). Deleting
calls that are not mine (`Independent.deletion`) is a case of it, and so is
interleaving them differently.
-/

namespace LilyContracts.Host

variable {σ A X Ev E C R α β υ : Type} {view : σ → υ}

/-! ## Programs that see only a view -/

/-- What the program reads is determined by the view, its writes determine the view
of what they leave, and it asks no other contract, whose answer would be one more
thing it sees. -/
def Prog.Respects (view : σ → υ) : Prog σ A X Ev E α → Prop
  | .ret _ => True
  | .fail _ => True
  | .read k => (∀ s s', view s = view s' → k s = k s') ∧ ∀ s, (k s).Respects view
  | .write f k => (∀ s s', view s = view s' → view (f s) = view (f s')) ∧ k.Respects view
  | .requireAuth _ k => k.Respects view
  | .call _ _ => False
  | .timestamp k => ∀ t, (k t).Respects view
  | .publish _ k => k.Respects view

section Rules

theorem Prog.Respects.bind {p : Prog σ A X Ev E α} {g : α → Prog σ A X Ev E β}
    (hp : p.Respects view) (hg : ∀ a, (g a).Respects view) : (p >>= g).Respects view := by
  show (p.bind g).Respects view
  induction p with
  | ret a => exact hg a
  | fail f => trivial
  | read k ih =>
    refine ⟨?_, fun s => ih s (hp.2 s)⟩
    intro s s' hs
    show (k s).bind g = (k s').bind g
    rw [hp.1 s s' hs]
  | write f k ih => exact ⟨hp.1, ih hp.2⟩
  | requireAuth a k ih => exact ih hp
  | call x k ih => exact hp.elim
  | timestamp k ih => exact fun t => ih t (hp t)
  | publish ev k ih => exact ih hp

theorem respects_pure (a : α) : (pure a : Prog σ A X Ev E α).Respects view := trivial

/-- Reading what the view determines. -/
theorem respects_get {f : σ → α} (hf : ∀ s s', view s = view s' → f s = f s') :
    (get f : Prog σ A X Ev E α).Respects view :=
  ⟨fun s s' hs => congrArg Prog.ret (hf s s' hs), fun _ => trivial⟩

/-- Writing what leaves storages alike that were alike. -/
theorem respects_modify {f : σ → σ} (hf : ∀ s s', view s = view s' → view (f s) = view (f s')) :
    (modify f : Prog σ A X Ev E Unit).Respects view :=
  ⟨hf, trivial⟩

theorem respects_requireAuth (a : A) : (requireAuth a : Prog σ A X Ev E Unit).Respects view :=
  trivial

theorem respects_publish (ev : Ev) : (publish ev : Prog σ A X Ev E Unit).Respects view :=
  trivial

theorem respects_lift (e : Except (Fault E) α) : (lift e : Prog σ A X Ev E α).Respects view := by
  cases e <;> trivial

theorem respects_unwrapOptimized (o : Option α) :
    (unwrapOptimized o : Prog σ A X Ev E α).Respects view := by
  cases o <;> trivial

theorem respects_unwrapOrPanic (e : E) (o : Option α) :
    (unwrapOrPanic e o : Prog σ A X Ev E α).Respects view := by
  cases o <;> trivial

theorem respects_ite {c : Prop} [Decidable c] {p q : Prog σ A X Ev E α}
    (hp : p.Respects view) (hq : q.Respects view) : (if c then p else q).Respects view := by
  split
  next => exact hp
  next => exact hq

end Rules

/-- Two frames alike in the view, with the same events so far. -/
structure Frame.Alike (view : σ → υ) (fr fr' : Frame σ Ev) : Prop where
  store : view fr.store = view fr'.store
  events : fr.events = fr'.events

/-- A program that sees only the view ends alike on frames that are alike. -/
theorem exec_respects {env : Env A X E} {p : Prog σ A X Ev E α} (hp : p.Respects view)
    {fr fr' : Frame σ Ev} (h : fr.Alike view fr') :
    (∃ a g g', exec env p fr = .ok (a, g) ∧ exec env p fr' = .ok (a, g') ∧ g.Alike view g') ∨
    ∃ f, exec env p fr = .error f ∧ exec env p fr' = .error f := by
  induction p generalizing fr fr' with
  | ret a => exact .inl ⟨a, fr, fr', rfl, rfl, h⟩
  | fail f => exact .inr ⟨f, rfl, rfl⟩
  | read k ih =>
    simp only [exec]
    rw [← hp.1 _ _ h.store]
    exact ih fr.store (hp.2 _) h
  | write f k ih => exact ih hp.2 ⟨hp.1 _ _ h.store, h.events⟩
  | requireAuth a k ih =>
    simp only [exec]
    split
    next => exact ih hp h
    next => exact .inr ⟨_, rfl, rfl⟩
  | call x k ih => exact hp.elim
  | timestamp k ih => exact ih _ (hp _) h
  | publish ev k ih => exact ih hp ⟨h.store, congrArg (· ++ [ev]) h.events⟩

/-- The same for a top-level call: it answers the same and leaves the same
view. -/
theorem stepOf_respects {prog : C → Prog σ A X Ev E R} {s s' : σ} {tx : Tx A X E C}
    (hp : (prog tx.call).Respects view) (h : view s = view s') :
    (stepOf prog s tx).out.result = (stepOf prog s' tx).out.result ∧
      view (after prog s tx) = view (after prog s' tx) := by
  have hframe : (⟨s, []⟩ : Frame σ Ev).Alike view ⟨s', []⟩ := ⟨h, rfl⟩
  rcases exec_respects hp hframe with ⟨a, g, g', hex, hex', hg⟩ | ⟨f, hex, hex'⟩
  · rw [after, after, stepOf, stepOf, invoke_of_exec_ok hex, invoke_of_exec_ok hex']
    exact ⟨rfl, hg.store⟩
  · rw [after, after, stepOf, stepOf, invoke_of_exec_error hex, invoke_of_exec_error hex']
    exact ⟨rfl, h⟩

/-! ## Independent calls -/

/-- The transactions of a run that are mine. -/
def own (mine : C → Bool) (txs : List (Tx A X E C)) : List (Tx A X E C) :=
  txs.filter fun tx => mine tx.call

/-- The answers a history gave to the calls that are mine, in order. -/
def answers (mine : C → Bool) (steps : List (Step σ A X Ev E C R)) :
    List (C × Except (Fault E) R) :=
  (steps.filter fun st => mine st.tx.call).map fun st => (st.tx.call, st.out.result)

section Own

variable {mine : C → Bool} {tx : Tx A X E C} {txs : List (Tx A X E C)}
  {st : Step σ A X Ev E C R} {steps : List (Step σ A X Ev E C R)}

theorem own_cons_mine (h : mine tx.call = true) : own mine (tx :: txs) = tx :: own mine txs :=
  List.filter_cons_of_pos h

theorem own_cons_other (h : mine tx.call = false) : own mine (tx :: txs) = own mine txs :=
  List.filter_cons_of_neg (by rw [h]; exact Bool.false_ne_true)

theorem answers_cons_mine (h : mine st.tx.call = true) :
    answers mine (st :: steps) = (st.tx.call, st.out.result) :: answers mine steps := by
  simp [answers, h]

theorem answers_cons_other (h : mine st.tx.call = false) :
    answers mine (st :: steps) = answers mine steps := by
  simp [answers, h]

end Own

/-- In states that satisfy `I`, the calls that are `mine` see nothing but the view,
and no other call changes it. -/
structure Independent (prog : C → Prog σ A X Ev E R) (I : σ → Prop) (view : σ → υ)
    (mine : C → Bool) : Prop where
  invariant : ∀ s (tx : Tx A X E C), I s → I (after prog s tx)
  respects : ∀ c, mine c = true → (prog c).Respects view
  others : ∀ s (tx : Tx A X E C), I s → mine tx.call = false → view (after prog s tx) = view s

namespace Independent

variable {prog : C → Prog σ A X Ev E R} {I : σ → Prop} {mine : C → Bool} {s s' : σ}

/-- A run and its own calls alone. -/
theorem run_own (h : Independent prog I view mine) (txs : List (Tx A X E C)) :
    ∀ {s s' : σ}, I s → I s' → view s = view s' →
      view (run prog s txs) = view (run prog s' (own mine txs)) ∧
        answers mine (trace prog s txs) = answers mine (trace prog s' (own mine txs)) := by
  induction txs with
  | nil =>
    intro s s' _ _ hview
    exact ⟨hview, rfl⟩
  | cons tx txs ih =>
    intro s s' hs hs' hview
    have hs₁ := h.invariant s tx hs
    cases hmine : mine tx.call with
    | true =>
      -- both runs take the step, from states alike
      obtain ⟨hanswer, hview₁⟩ := stepOf_respects (h.respects tx.call hmine) hview
      obtain ⟨hend, hlist⟩ := ih hs₁ (h.invariant s' tx hs') hview₁
      rw [own_cons_mine hmine, trace_cons, trace_cons, answers_cons_mine hmine,
        answers_cons_mine hmine, hanswer, hlist]
      exact ⟨hend, rfl⟩
    | false =>
      -- only the first run takes it, and its view does not move
      obtain ⟨hend, hlist⟩ := ih hs₁ hs' ((h.others s tx hs hmine).trans hview)
      rw [own_cons_other hmine, trace_cons, answers_cons_other hmine]
      exact ⟨hend, hlist⟩

/-- **Only my calls matter to me**: runs with the same calls of mine answer them
the same and end with the same view. -/
theorem runs_agree (h : Independent prog I view mine) {txs txs' : List (Tx A X E C)}
    (hs : I s) (hown : own mine txs = own mine txs') :
    view (run prog s txs) = view (run prog s txs') ∧
      answers mine (trace prog s txs) = answers mine (trace prog s txs') := by
  obtain ⟨hend, hlist⟩ := h.run_own txs hs hs rfl
  obtain ⟨hend', hlist'⟩ := h.run_own txs' hs hs rfl
  rw [hend, hend', hlist, hlist', hown]
  exact ⟨rfl, rfl⟩

/-- Deleting any of the calls that are not mine. -/
theorem deletion (h : Independent prog I view mine) {keep : C → Bool}
    (hkeep : ∀ c, mine c = true → keep c = true) (hs : I s) (txs : List (Tx A X E C)) :
    view (run prog s txs) = view (run prog s (own keep txs)) ∧
      answers mine (trace prog s txs) = answers mine (trace prog s (own keep txs)) := by
  refine h.runs_agree hs ?_
  unfold own
  rw [List.filter_filter]
  refine List.filter_congr fun tx _ => ?_
  cases hmine : mine tx.call with
  | true => rw [hkeep _ hmine]; rfl
  | false => rfl

end Independent

end LilyContracts.Host
