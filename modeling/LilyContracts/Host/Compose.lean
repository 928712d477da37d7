import LilyContracts.Host.Locality

/-!
# A contract as a component of a larger system

Several contracts that run together share one clock and one order of calls, but
each has its own storage, and what one asks another is answered by the state the
other is in. A `Component` says where a contract's storage lies in that of the
system and who answers its queries: the system itself, at once and from the part
that is not the component's own, or somebody outside it. `Component.embed`
carries the contract's programs over, effect by effect.

An embedded program does in the system what the program does alone, in an
environment that gives the answers of the system (`exec_embed`); the rest of the
system is left as it was. So a system's step is one of its component
(`stepOf_embed`), and what is known of all runs of the component holds of its part
in every run of the system (`run_get`).
-/

namespace LilyContracts.Host

variable {σ τ A X Y Ev Ev' E C D R R' α υ : Type}

/-- Where a contract's storage lies in a larger one, what becomes of its queries
and how its events are told from others. -/
structure Component (σ τ X Y Ev Ev' : Type) where
  get : τ → σ
  put : σ → τ → τ
  /-- The system's answer to a query, or the query put to somebody outside. -/
  route : τ → X → Bool ⊕ Y
  event : Ev → Ev'
  get_put : ∀ a t, get (put a t) = a
  put_put : ∀ a b t, put a (put b t) = put a t
  put_get : ∀ t, put (get t) t = t
  /-- The component has no part in answering its own queries. -/
  route_put : ∀ a t x, route (put a t) x = route t x

namespace Component

variable (P : Component σ τ X Y Ev Ev')

/-- The program of a component as one of the system. -/
def embed : Prog σ A X Ev E α → Prog τ A Y Ev' E α
  | .ret a => .ret a
  | .fail f => .fail f
  | .read k => .read fun t => embed (k (P.get t))
  | .write f k => .write (fun t => P.put (f (P.get t)) t) (embed k)
  | .requireAuth a k => .requireAuth a (embed k)
  | .call x k => .read fun t =>
    match P.route t x with
    | .inl b => embed (k b)
    | .inr y => .call y fun b => embed (k b)
  | .timestamp k => .timestamp fun n => embed (k n)
  | .publish ev k => .publish (P.event ev) (embed k)

/-- The environment a component finds in the system. -/
def env (env : Env A Y E) (t : τ) : Env A X E where
  signs := env.signs
  timestamp := env.timestamp
  answer x :=
    match P.route t x with
    | .inl b => .ok b
    | .inr y => env.answer y

/-- A frame of the component as one of the system, around it the state `t`. -/
def frame (t : τ) (fr : Frame σ Ev) : Frame τ Ev' :=
  ⟨P.put fr.store t, fr.events.map P.event⟩

/-- **An embedded program does in the system what it does alone.** -/
theorem exec_embed {e : Env A Y E} (p : Prog σ A X Ev E α) (t : τ) (fr : Frame σ Ev) :
    exec e (P.embed p) (P.frame t fr) =
      (exec (P.env e t) p fr).map fun r => (r.1, P.frame t r.2) := by
  induction p generalizing fr with
  | ret a => rfl
  | fail f => rfl
  | read k ih =>
    show exec e (P.embed (k (P.get (P.put fr.store t)))) (P.frame t fr) = _
    rw [P.get_put]
    exact ih fr.store fr
  | write f k ih =>
    show exec e (P.embed k)
      ⟨P.put (f (P.get (P.put fr.store t))) (P.put fr.store t), fr.events.map P.event⟩ = _
    rw [P.get_put, P.put_put]
    exact ih { fr with store := f fr.store }
  | requireAuth a k ih =>
    show (if e.signs a then exec e (P.embed k) (P.frame t fr) else .error .auth) =
      (if e.signs a then exec (P.env e t) k fr else .error .auth).map _
    by_cases ha : e.signs a = true
    · rw [if_pos ha, if_pos ha]
      exact ih fr
    · rw [if_neg ha, if_neg ha]
      rfl
  | call x k ih =>
    have hroute : P.route (P.frame t fr).store x = P.route t x := P.route_put ..
    cases hr : P.route t x with
    | inl b =>
      -- the system answers, as the component's environment says it will
      rw [hr] at hroute
      simp only [embed, exec, env, hroute, hr]
      exact ih b fr
    | inr y =>
      rw [hr] at hroute
      simp only [embed, exec, env, hroute, hr]
      cases e.answer y with
      | ok b => exact ih b fr
      | error f => rfl
  | timestamp k ih => exact ih _ fr
  | publish ev k ih =>
    have hframe : P.frame t { fr with events := fr.events ++ [ev] } =
        ⟨P.put fr.store t, fr.events.map P.event ++ [P.event ev]⟩ := by
      unfold frame
      rw [List.map_append]
      rfl
    show exec e (P.embed k) ⟨P.put fr.store t, fr.events.map P.event ++ [P.event ev]⟩ = _
    rw [← hframe]
    exact ih _

/-! ## Steps and runs of the system -/

section System

variable {P} {prog : C → Prog σ A X Ev E R} {sys : D → Prog τ A Y Ev' E R'}

/-- A call of the system that is one of the component does to the component what
the call does alone, answers as it does, and leaves the rest of the system as it
was. -/
theorem stepOf_embed {c : C} {d : D} {g : R → R'}
    (h : sys d = P.embed (prog c) >>= fun r => pure (g r)) (e : Env A Y E) (t : τ) :
    (stepOf sys t ⟨e, d⟩).out.result =
        (stepOf prog (P.get t) ⟨P.env e t, c⟩).out.result.map g ∧
      after sys t ⟨e, d⟩ = P.put (after prog (P.get t) ⟨P.env e t, c⟩) t := by
  have hstart : P.frame t (⟨P.get t, []⟩ : Frame σ Ev) = ⟨t, []⟩ := by
    unfold frame
    rw [P.put_get]
    rfl
  have hexec := P.exec_embed (e := e) (prog c) t ⟨P.get t, []⟩
  rw [hstart] at hexec
  have hsys : exec e (sys d) ⟨t, []⟩ =
      (exec (P.env e t) (prog c) ⟨P.get t, []⟩).map fun r => (g r.1, P.frame t r.2) := by
    rw [h, exec_bind, hexec]
    cases exec (P.env e t) (prog c) ⟨P.get t, []⟩ <;> rfl
  cases hc : exec (P.env e t) (prog c) ⟨P.get t, []⟩ with
  | ok r =>
    rw [hc] at hsys
    rw [after, after, stepOf, stepOf, invoke_of_exec_ok hc, invoke_of_exec_ok hsys]
    exact ⟨rfl, rfl⟩
  | error f =>
    rw [hc] at hsys
    rw [after, after, stepOf, stepOf, invoke_of_exec_error hc, invoke_of_exec_error hsys]
    exact ⟨rfl, (P.put_get t).symm⟩

/-- It succeeds when the component's call does. -/
theorem succeeded_embed {c : C} {d : D} {g : R → R'}
    (h : sys d = P.embed (prog c) >>= fun r => pure (g r)) (e : Env A Y E) (t : τ) :
    (stepOf sys t ⟨e, d⟩).Succeeded ↔ (stepOf prog (P.get t) ⟨P.env e t, c⟩).Succeeded := by
  unfold Step.Succeeded
  rw [(stepOf_embed h e t).1]
  cases (stepOf prog (P.get t) ⟨P.env e t, c⟩).out.result with
  | ok r => simp [Except.map]
  | error f => simp [Except.map]

/-- **The component's part of a run is a run of the component**, if every call of
the system is one of the component or leaves its part alone. -/
theorem run_get
    (hstep : ∀ (t : τ) (tx : Tx A Y E D), P.get (after sys t tx) = P.get t ∨
      ∃ ctx : Tx A X E C, P.get (after sys t tx) = after prog (P.get t) ctx)
    (t : τ) (txs : List (Tx A Y E D)) :
    ∃ ctxs : List (Tx A X E C), P.get (run sys t txs) = run prog (P.get t) ctxs := by
  induction txs generalizing t with
  | nil => exact ⟨[], rfl⟩
  | cons tx txs ih =>
    obtain ⟨ctxs, hctxs⟩ := ih (after sys t tx)
    rw [run_cons, hctxs]
    rcases hstep t tx with hsame | ⟨ctx, hctx⟩
    · rw [hsame]
      exact ⟨ctxs, rfl⟩
    · rw [hctx]
      exact ⟨ctx :: ctxs, rfl⟩

end System

/-! ## A component that nobody in the system answers -/

/-- All queries of the component go outside, in whatever state the system is. -/
def Outward : Prop := ∀ x, ∃ y, ∀ t, P.route t x = .inr y

/-- Then the component's environment does not depend on the state either. -/
theorem env_outward {P : Component σ τ X Y Ev Ev'} (h : P.Outward) (e : Env A Y E) (t t' : τ) :
    P.env e t = P.env e t' := by
  unfold env
  congr 1
  funext x
  obtain ⟨y, hy⟩ := h x
  rw [hy t, hy t']

/-- The calls of the system that `mine` picks out run the component's programs, and
no other call touches its part. -/
structure Serves (prog : C → Prog σ A X Ev E R) (sys : D → Prog τ A Y Ev' E R')
    (mine : D → Option C) (wrap : R → R') : Prop where
  own : ∀ d c, mine d = some c → sys d = P.embed (prog c) >>= fun r => pure (wrap r)
  others : ∀ t (tx : Tx A Y E D), mine tx.call = none → P.get (after sys t tx) = P.get t

/-- The component's own transaction in one of the system, the system being in
state `t`. -/
def ownTx (mine : D → Option C) (t : τ) (tx : Tx A Y E D) : Option (Tx A X E C) :=
  (mine tx.call).map fun c => ⟨P.env tx.env t, c⟩

/-- The component's call that a step of the system was, with its answer. -/
def ownAnswer (mine : D → Option C) (st : Step τ A Y Ev' E D R') :
    Option (C × Except (Fault E) R') :=
  (mine st.tx.call).map fun c => (c, st.out.result)

section Own

variable {P} {prog : C → Prog σ A X Ev E R} {sys : D → Prog τ A Y Ev' E R'}
  {mine : D → Option C} {wrap : R → R'}

/-- **A component that nobody in the system answers runs as if it were alone**: its
part of a run of the system is the run of its own calls, in their order, and each is
answered as in that run. -/
theorem run_own (hout : P.Outward) (h : P.Serves prog sys mine wrap) (t₀ : τ)
    (txs : List (Tx A Y E D)) :
    ∀ t, P.get (run sys t txs) = run prog (P.get t) (txs.filterMap (P.ownTx mine t₀)) ∧
      (trace sys t txs).filterMap (ownAnswer mine) =
        (trace prog (P.get t) (txs.filterMap (P.ownTx mine t₀))).map
          fun st => (st.tx.call, st.out.result.map wrap) := by
  induction txs with
  | nil => exact fun t => ⟨rfl, rfl⟩
  | cons tx txs ih =>
    intro t
    obtain ⟨hrun, htrace⟩ := ih (after sys t tx)
    cases hmine : mine tx.call with
    | none =>
      -- somebody else's call
      have hown : P.ownTx mine t₀ tx = none := by
        unfold ownTx
        rw [hmine]
        rfl
      have hhead : ownAnswer mine (stepOf sys t tx) = none := by
        unfold ownAnswer
        rw [stepOf_tx, hmine]
        rfl
      rw [h.others t tx hmine] at hrun htrace
      rw [run_cons, trace_cons, List.filterMap_cons_none hown, List.filterMap_cons_none hhead]
      exact ⟨hrun, htrace⟩
    | some c =>
      obtain ⟨hresult, hafter⟩ := stepOf_embed (h.own tx.call c hmine) tx.env t
      have hown : P.ownTx mine t₀ tx = some ⟨P.env tx.env t, c⟩ := by
        unfold ownTx
        rw [hmine, env_outward hout tx.env t₀ t]
        rfl
      have hhead : ownAnswer mine (stepOf sys t tx) =
          some (c, (stepOf prog (P.get t) ⟨P.env tx.env t, c⟩).out.result.map wrap) := by
        unfold ownAnswer
        rw [stepOf_tx, hmine, show (stepOf sys t tx).out.result = _ from hresult]
        rfl
      have hget : P.get (after sys t tx) = after prog (P.get t) ⟨P.env tx.env t, c⟩ := by
        rw [show after sys t tx = _ from hafter, P.get_put]
      rw [hget] at hrun htrace
      rw [run_cons, trace_cons, List.filterMap_cons_some hown, List.filterMap_cons_some hhead]
      exact ⟨hrun, congrArg _ htrace⟩

end Own

/-- What sees only a view of the component sees, in the system, only that. -/
theorem respects_embed {view : σ → υ} {p : Prog σ A X Ev E α} (hp : p.Respects view) :
    (P.embed p : Prog τ A Y Ev' E α).Respects fun t => view (P.get t) := by
  induction p with
  | ret a => trivial
  | fail f => trivial
  | read k ih =>
    refine ⟨?_, fun t => ih _ (hp.2 _)⟩
    intro t t' ht
    exact congrArg P.embed (hp.1 _ _ ht)
  | write f k ih =>
    refine ⟨?_, ih hp.2⟩
    intro t t' ht
    show view (P.get (P.put _ t)) = view (P.get (P.put _ t'))
    rw [P.get_put, P.get_put]
    exact hp.1 _ _ ht
  | requireAuth a k ih => exact ih hp
  | call x k ih => exact hp.elim
  | timestamp k ih => exact fun n => ih n (hp n)
  | publish ev k ih => exact ih hp

end Component

end LilyContracts.Host
