import LilyContracts.Host.Run

/-!
# Clients of a ledger

A client is a program outside the ledger: it submits calls one at a time, waits, and
goes on with the answer (`Client`). `Plays` is all that can come of running one. The
transactions of others land between its own, as many as they like. The client may be
killed at any point. And where the connection is lossy, a submission may go unheard:
the client is told of no success, and the transaction still lands at some later time,
or never.

What every transaction of the client keeps, and every transaction of the others that
are let in, holds at the end of each play (`Plays.invariant`). Where the client's own
transactions change nothing, a play leaves what the others alone would have left
(`Plays.harmless`). And a client is proved right one submission at a time
(`Client.Ensures`): each assertion on the way must be stable under the others, each call
takes one assertion to the next (`ensures_submit`).

A client that provisions asks of each of several targets whether it is up, and sets it
up if not (`ensureAll`). Whatever else happens, when such a client reports success then
every target is up (`ensureAll_complete`). With a connection that loses nothing, it does
report success, from wherever an earlier attempt has stopped (`ensureAll_succeeds`).
-/

namespace LilyContracts.Host

variable {σ A X Ev E C R : Type}

/-! ## Clients -/

/-- A call that a client sends out, with the addresses that sign it. -/
structure Submission (A C : Type) where
  signs : A → Bool
  call : C

/-- The submission, as it lands in a ledger with clock and contracts as in `env`. -/
def Submission.land (sub : Submission A C) (env : Env A X E) : Tx A X E C :=
  ⟨{ env with signs := sub.signs }, sub.call⟩

/-- A client: it has ended, reporting success or failure, or it submits a call and
goes on with the answer, or with `none` if it is told of no success. -/
inductive Client (A C R : Type)
  | done (ok : Bool)
  | submit (sub : Submission A C) (next : Option R → Client A C R)

/-- A transaction that has landed, and whether the client sent it. -/
structure Landed (A X E C : Type) where
  tx : Tx A X E C
  own : Bool

namespace Client

/-- Submit a call that may turn out to be none: then nothing is sent. -/
def attempt (sub? : Option (Submission A C)) (next : Option R → Client A C R) : Client A C R :=
  match sub? with
  | none => next none
  | some sub => .submit sub next

/-- Submit a call, go on from its success, and give up otherwise. -/
def andThen (sub : Submission A C) (next : R → Client A C R) : Client A C R :=
  .submit sub fun o => o.elim (.done false) next

/-- Everything the client may submit has the property. -/
def Submits (P : Submission A C → Prop) : Client A C R → Prop
  | .done _ => True
  | .submit sub next => P sub ∧ ∀ r, (next r).Submits P

theorem submits_attempt {P : Submission A C → Prop} {sub? : Option (Submission A C)}
    {next : Option R → Client A C R} (hsub : ∀ sub, sub? = some sub → P sub)
    (hnext : ∀ r, (next r).Submits P) : (attempt sub? next).Submits P := by
  cases sub? with
  | none => exact hnext none
  | some sub => exact ⟨hsub sub rfl, hnext⟩

end Client

/-! ## What can come of running one -/

/-- A play: from the calls in `flight` that were sent and may still land, and a state
of the ledger, to the transactions that land in it, the state they lead to, and what
the client reports, if it gets to its end. -/
inductive Plays (prog : C → Prog σ A X Ev E R) (lossy : Bool) :
    List (Submission A C) → Client A C R → σ → List (Landed A X E C) → σ → Option Bool → Prop
  /-- Nothing more happens; the client may not have ended. -/
  | stop {flight : List (Submission A C)} {cl : Client A C R} {s : σ} :
      Plays prog lossy flight cl s [] s none
  | finish {flight : List (Submission A C)} {ok : Bool} {s : σ} :
      Plays prog lossy flight (.done ok) s [] s (some ok)
  | other {flight : List (Submission A C)} {cl : Client A C R} {s s' : σ} {tx : Tx A X E C}
      {l : List (Landed A X E C)} {x : Option Bool}
      (rest : Plays prog lossy flight cl (after prog s tx) l s' x) :
      Plays prog lossy flight cl s (⟨tx, false⟩ :: l) s' x
  /-- The call lands and the client is told how it ended. -/
  | answered {flight : List (Submission A C)} {sub : Submission A C}
      {next : Option R → Client A C R} {env : Env A X E} {s s' : σ} {l : List (Landed A X E C)}
      {x : Option Bool}
      (rest : Plays prog lossy flight
        (next (stepOf prog s (sub.land env)).out.result.toOption)
        (after prog s (sub.land env)) l s' x) :
      Plays prog lossy flight (.submit sub next) s (⟨sub.land env, true⟩ :: l) s' x
  /-- The client goes on without an answer. -/
  | unheard {flight : List (Submission A C)} {sub : Submission A C}
      {next : Option R → Client A C R} {s s' : σ} {l : List (Landed A X E C)} {x : Option Bool}
      (loses : lossy = true) (rest : Plays prog lossy (sub :: flight) (next none) s l s' x) :
      Plays prog lossy flight (.submit sub next) s l s' x
  /-- A call that went unheard lands after all. -/
  | late {flight : List (Submission A C)} {cl : Client A C R} {sub : Submission A C}
      {env : Env A X E} {s s' : σ} {l : List (Landed A X E C)} {x : Option Bool}
      (sent : sub ∈ flight)
      (rest : Plays prog lossy flight cl (after prog s (sub.land env)) l s' x) :
      Plays prog lossy flight cl s (⟨sub.land env, true⟩ :: l) s' x

/-- The transactions of others. -/
def others (l : List (Landed A X E C)) : List (Tx A X E C) :=
  (l.filter fun ev => !ev.own).map (·.tx)

/-- Where there are none, what holds of them all is vacuous. -/
theorem own_of_others {l : List (Landed A X E C)} {Q : Tx A X E C → Prop} (h : others l = []) :
    ∀ ev ∈ l, ev.own = false → Q ev.tx := by
  intro ev hev hown
  have hmem : ev.tx ∈ others l :=
    List.mem_map_of_mem (List.mem_filter.mpr ⟨hev, by rw [hown]; rfl⟩)
  rw [h] at hmem
  cases hmem

/-- Nothing breaks the assertion: neither a call of the kind `P`, which is what the
client sends, nor one of the kind `Q`, which is what is let in of others. -/
structure Stable (prog : C → Prog σ A X Ev E R) (P : Submission A C → Prop)
    (Q : Tx A X E C → Prop) (I : σ → Prop) : Prop where
  own : ∀ s sub (env : Env A X E), I s → P sub → I (after prog s (sub.land env))
  other : ∀ s tx, I s → Q tx → I (after prog s tx)

section Rules

variable {prog : C → Prog σ A X Ev E R} {lossy : Bool} {flight : List (Submission A C)}
  {cl : Client A C R} {s s' : σ} {l : List (Landed A X E C)} {x : Option Bool}

/-- A play is a run of everything that lands. -/
theorem Plays.run_eq (h : Plays prog lossy flight cl s l s' x) :
    s' = run prog s (l.map (·.tx)) := by
  induction h with
  | stop => rfl
  | finish => rfl
  | other rest ih => exact ih
  | answered rest ih => exact ih
  | unheard loses rest ih => exact ih
  | late sent rest ih => exact ih

/-- **The invariant rule**: what the client's own transactions keep, and those of the
others that are let in, holds at the end. -/
theorem Plays.invariant {I : σ → Prop} {P : Submission A C → Prop} {Q : Tx A X E C → Prop}
    (hI : Stable prog P Q I) (h : Plays prog lossy flight cl s l s' x) (hcl : cl.Submits P)
    (hflight : ∀ sub ∈ flight, P sub) (hl : ∀ ev ∈ l, ev.own = false → Q ev.tx) (hs : I s) :
    I s' := by
  induction h with
  | stop => exact hs
  | finish => exact hs
  | other rest ih =>
    refine ih hcl hflight (fun ev hev => hl ev (List.mem_cons_of_mem _ hev)) ?_
    exact hI.other _ _ hs (hl _ (List.mem_cons_self ..) rfl)
  | answered rest ih =>
    refine ih (hcl.2 _) hflight (fun ev hev => hl ev (List.mem_cons_of_mem _ hev)) ?_
    exact hI.own _ _ _ hs hcl.1
  | @unheard flight sub next s s' l x loses rest ih =>
    refine ih (hcl.2 none) ?_ hl hs
    intro sub' hmem
    rcases List.mem_cons.mp hmem with rfl | hmem
    · exact hcl.1
    · exact hflight sub' hmem
  | late sent rest ih =>
    refine ih hcl hflight (fun ev hev => hl ev (List.mem_cons_of_mem _ hev)) ?_
    exact hI.own _ _ _ hs (hflight _ sent)

/-- **The frame rule**: while the client's transactions change nothing, it might as
well not be there. -/
theorem Plays.harmless {I : σ → Prop} {P : Submission A C → Prop}
    (hown : ∀ s sub (env : Env A X E), I s → P sub → after prog s (sub.land env) = s)
    (hother : ∀ s tx, I s → I (after prog s tx))
    (h : Plays prog lossy flight cl s l s' x) (hcl : cl.Submits P)
    (hflight : ∀ sub ∈ flight, P sub) (hs : I s) : s' = run prog s (others l) := by
  induction h with
  | stop => rfl
  | finish => rfl
  | other rest ih => exact ih hcl hflight (hother _ _ hs)
  | @answered flight sub next env s s' l x rest ih =>
    rw [hown s sub env hs hcl.1] at ih
    exact ih (hcl.2 _) hflight hs
  | @unheard flight sub next s s' l x loses rest ih =>
    refine ih (hcl.2 none) ?_ hs
    intro sub' hmem
    rcases List.mem_cons.mp hmem with rfl | hmem
    · exact hcl.1
    · exact hflight sub' hmem
  | @late flight cl sub env s s' l x sent rest ih =>
    rw [hown s sub env hs (hflight sub sent)] at ih
    exact ih hcl hflight hs

/-- What no transaction takes away. -/
theorem Plays.kept {U : σ → Prop} (hkept : ∀ s tx, U s → U (after prog s tx))
    (h : Plays prog lossy flight cl s l s' x) (hs : U s) : U s' := by
  rw [h.run_eq]
  exact run_invariant hkept hs

end Rules

/-! ## One execution after another -/

/-- Executions of a client, each from the state the one before has left, ended or
not, with anything the earlier ones sent still in flight: `P` is what the client
submits, `Q` what is let in of others. -/
inductive Attempts (prog : C → Prog σ A X Ev E R) (cl : Client A C R)
    (P : Submission A C → Prop) (Q : Tx A X E C → Prop) : σ → σ → Prop
  | none {s : σ} : Attempts prog cl P Q s s
  | again {flight : List (Submission A C)} {s s₁ s₂ : σ} {l : List (Landed A X E C)}
      {x : Option Bool} (earlier : Attempts prog cl P Q s s₁) (sent : ∀ sub ∈ flight, P sub)
      (letIn : ∀ ev ∈ l, ev.own = false → Q ev.tx) (play : Plays prog true flight cl s₁ l s₂ x) :
      Attempts prog cl P Q s s₂

/-- The invariant rule, over any number of executions. -/
theorem Attempts.invariant {prog : C → Prog σ A X Ev E R} {cl : Client A C R}
    {P : Submission A C → Prop} {Q : Tx A X E C → Prop} {I : σ → Prop} {s s' : σ}
    (hI : Stable prog P Q I) (hcl : cl.Submits P) (h : Attempts prog cl P Q s s') (hs : I s) :
    I s' := by
  induction h with
  | none => exact hs
  | again earlier sent letIn play ih => exact play.invariant hI hcl sent letIn (ih hs)

/-! ## One submission -/

section Submit

variable {prog : C → Prog σ A X Ev E R} {lossy : Bool} {flight : List (Submission A C)}
  {sub : Submission A C} {next : Option R → Client A C R} {cl : Client A C R} {s s' : σ}
  {l : List (Landed A X E C)} {ok : Bool} {x : Option Bool}

/-- Waiting: what lands while the client does nothing. -/
abbrev Waits (prog : C → Prog σ A X Ev E R) (lossy : Bool) (flight : List (Submission A C))
    (s : σ) (l : List (Landed A X E C)) (s' : σ) : Prop :=
  Plays prog lossy flight (.done true) s l s' none

/-- A play that gets past a submission: something else lands first, then the call,
and the client goes on with how it ended; or the client goes on without an answer. -/
theorem Plays.submit_cases (h : Plays prog lossy flight (.submit sub next) s l s' (some ok)) :
    ∃ l₀ l₁ s₀, l = l₀ ++ l₁ ∧ Waits prog lossy flight s l₀ s₀ ∧
      ((∃ env l₂, l₁ = ⟨sub.land env, true⟩ :: l₂ ∧
        Plays prog lossy flight (next (stepOf prog s₀ (sub.land env)).out.result.toOption)
          (after prog s₀ (sub.land env)) l₂ s' (some ok)) ∨
      (lossy = true ∧ Plays prog lossy (sub :: flight) (next none) s₀ l₁ s' (some ok))) := by
  generalize hcl : Client.submit sub next = cl at h
  generalize hx : some ok = x at h
  induction h with
  | stop => cases hx
  | finish => cases hcl
  | @other flight cl s s' tx l x rest ih =>
    obtain ⟨l₀, l₁, s₀, hl, hwait, hcase⟩ := ih hcl hx
    exact ⟨⟨tx, false⟩ :: l₀, l₁, s₀, congrArg _ hl, .other hwait, hcase⟩
  | @answered flight sub' next' env s s' l x rest ih =>
    cases hcl
    cases hx
    exact ⟨[], _, s, rfl, .stop, .inl ⟨env, l, rfl, rest⟩⟩
  | @unheard flight sub' next' s s' l x loses rest ih =>
    cases hcl
    cases hx
    exact ⟨[], l, s, rfl, .stop, .inr ⟨loses, rest⟩⟩
  | @late flight cl sub' env s s' l x sent rest ih =>
    obtain ⟨l₀, l₁, s₀, hl, hwait, hcase⟩ := ih hcl hx
    exact ⟨⟨sub'.land env, true⟩ :: l₀, l₁, s₀, congrArg _ hl, .late sent hwait, hcase⟩

/-- A client that has ended reports what it ended with. -/
theorem Plays.reports {b : Bool}
    (h : Plays prog lossy flight (.done b : Client A C R) s l s' (some ok)) : ok = b := by
  generalize hcl : (Client.done b : Client A C R) = cl at h
  generalize hx : some ok = x at h
  induction h with
  | stop => cases hx
  | finish =>
    cases hcl
    exact Option.some.inj hx
  | other _ ih => exact ih hcl hx
  | answered => cases hcl
  | unheard => cases hcl
  | late _ _ ih => exact ih hcl hx

/-- What a client reports, and the state it leaves, if nobody else is there and the
connection loses nothing. -/
def Client.alone (prog : C → Prog σ A X Ev E R) (env : Env A X E) : Client A C R → σ → Bool × σ
  | .done ok, s => (ok, s)
  | .submit sub next, s =>
    alone prog env (next (stepOf prog s (sub.land env)).out.result.toOption)
      (after prog s (sub.land env))

/-- On its own a client gets to its end. -/
theorem Client.plays_alone (prog : C → Prog σ A X Ev E R) (env : Env A X E) :
    ∀ (cl : Client A C R) (s : σ), ∃ l, others l = [] ∧
      Plays prog false [] cl s l (cl.alone prog env s).2 (some (cl.alone prog env s).1)
  | .done ok, s => ⟨[], rfl, .finish⟩
  | .submit sub next, s => by
    obtain ⟨l, hl, h⟩ := plays_alone prog env
      (next (stepOf prog s (sub.land env)).out.result.toOption) (after prog s (sub.land env))
    exact ⟨⟨sub.land env, true⟩ :: l, hl, .answered h⟩

end Submit

section Ensures

variable {prog : C → Prog σ A X Ev E R} {lossy : Bool} {P : Submission A C → Prop}
  {Q : Tx A X E C → Prop} {I I' : σ → Prop} {J : Option R → σ → Prop} {G G' : Bool → σ → Prop}
  {cl : Client A C R} {next : Option R → Client A C R} {sub : Submission A C}
  {sub? : Option (Submission A C)} {b : Bool}

/-- From every state of `I`, whatever is interleaved, a play that gets to the end of
the client ends in a report and a state as `G` says. -/
def Client.Ensures (prog : C → Prog σ A X Ev E R) (lossy : Bool) (P : Submission A C → Prop)
    (Q : Tx A X E C → Prop) (I : σ → Prop) (cl : Client A C R) (G : Bool → σ → Prop) : Prop :=
  ∀ (flight : List (Submission A C)) (s s' : σ) (l : List (Landed A X E C)) (ok : Bool),
    Plays prog lossy flight cl s l s' (some ok) → (∀ sub ∈ flight, P sub) →
      (∀ ev ∈ l, ev.own = false → Q ev.tx) → I s → G ok s'

theorem Client.Ensures.mono (h : cl.Ensures prog lossy P Q I G) (hI : ∀ s, I' s → I s)
    (hG : ∀ ok s, G ok s → G' ok s) : cl.Ensures prog lossy P Q I' G' := by
  intro flight s s' l ok hplay hflight hl hs
  exact hG ok s' (h flight s s' l ok hplay hflight hl (hI s hs))

/-- A client that has ended. -/
theorem Client.ensures_done (hI : Stable prog P Q I) (h : ∀ s, I s → G b s) :
    (Client.done b : Client A C R).Ensures prog lossy P Q I G := by
  intro flight s s' l ok hplay hflight hl hs
  obtain rfl := hplay.reports
  exact h s' (hplay.invariant hI trivial hflight hl hs)

/-- **The rule for a submission**: the assertion before it is stable, the call takes it
to one about the answer, and the client goes on from there. If the connection may lose
the answer, the client goes on from where it was. -/
theorem Client.ensures_submit (hI : Stable prog P Q I)
    (hland : ∀ s (env : Env A X E), I s →
      J (stepOf prog s (sub.land env)).out.result.toOption (after prog s (sub.land env)))
    (hlost : lossy = true → P sub ∧ ∀ s, I s → J none s)
    (hnext : ∀ o, (next o).Ensures prog lossy P Q (J o) G) :
    (Client.submit sub next).Ensures prog lossy P Q I G := by
  intro flight s s' l ok hplay hflight hl hs
  obtain ⟨l₀, l₁, s₀, rfl, hwait, hcase⟩ := hplay.submit_cases
  have hs₀ : I s₀ :=
    hwait.invariant hI trivial hflight (fun ev hev => hl ev (List.mem_append_left _ hev)) hs
  have hl₁ : ∀ ev ∈ l₁, ev.own = false → Q ev.tx :=
    fun ev hev => hl ev (List.mem_append_right _ hev)
  rcases hcase with ⟨env, l₂, rfl, hrest⟩ | ⟨hlossy, hrest⟩
  · refine hnext _ flight _ s' l₂ ok hrest hflight ?_ (hland s₀ env hs₀)
    exact fun ev hev => hl₁ ev (List.mem_cons_of_mem _ hev)
  · obtain ⟨hP, hnone⟩ := hlost hlossy
    exact hnext none _ _ s' l₁ ok hrest (List.forall_mem_cons.mpr ⟨hP, hflight⟩) hl₁ (hnone s₀ hs₀)

/-- The rule for a call that must succeed, over a connection that loses nothing: it
takes the assertion before it to one about what it returned, or it fails and the client
gives up. -/
theorem Client.ensures_andThen {next : R → Client A C R} {K : R → σ → Prop} {F : σ → Prop}
    (hI : Stable prog P Q I) (hF : Stable prog P Q F) (hgive : ∀ s, F s → G false s)
    (hland : ∀ s (env : Env A X E), I s →
      (∃ r, (stepOf prog s (sub.land env)).out.result = .ok r ∧
        K r (after prog s (sub.land env))) ∨
      ¬ (stepOf prog s (sub.land env)).Succeeded ∧ F s)
    (hnext : ∀ r, (next r).Ensures prog false P Q (K r) G) :
    (Client.andThen sub next).Ensures prog false P Q I G := by
  refine ensures_submit (J := fun o s => o.elim (F s) fun r => K r s) hI ?_ nofun ?_
  · intro s env hs
    rcases hland s env hs with ⟨r, hr, hK⟩ | ⟨hfail, hFs⟩
    · rw [hr]
      exact hK
    · rw [after_of_not_succeeded hfail]
      cases hr : (stepOf prog s (sub.land env)).out.result with
      | ok r => exact absurd ⟨r, hr⟩ hfail
      | error f => exact hFs
  · intro o
    cases o with
    | none => exact ensures_done hF hgive
    | some r => exact hnext r

/-- The same when it cannot fail. -/
theorem Client.ensures_andThen_of_ok {next : R → Client A C R} {K : R → σ → Prop}
    (hI : Stable prog P Q I)
    (hland : ∀ s (env : Env A X E), I s → ∃ r,
      (stepOf prog s (sub.land env)).out.result = .ok r ∧ K r (after prog s (sub.land env)))
    (hnext : ∀ r, (next r).Ensures prog false P Q (K r) G) :
    (Client.andThen sub next).Ensures prog false P Q I G :=
  ensures_andThen (F := fun _ => False) hI ⟨fun _ _ _ hs _ => hs, fun _ _ hs _ => hs⟩
    (fun _ hs => hs.elim) (fun s env hs => .inl (hland s env hs)) hnext

/-- The rule for a call that may turn out to be none. -/
theorem Client.ensures_attempt (hI : Stable prog P Q I)
    (hland : ∀ sub, sub? = some sub → ∀ s (env : Env A X E), I s →
      J (stepOf prog s (sub.land env)).out.result.toOption (after prog s (sub.land env)))
    (hlost : ∀ sub, sub? = some sub → lossy = true → P sub ∧ ∀ s, I s → J none s)
    (hnone : sub? = none → ∀ s, I s → J none s)
    (hnext : ∀ o, (next o).Ensures prog lossy P Q (J o) G) :
    (Client.attempt sub? next).Ensures prog lossy P Q I G := by
  cases sub? with
  | none => exact (hnext none).mono (hnone rfl) fun _ _ hG => hG
  | some sub => exact ensures_submit hI (hland sub rfl) (hlost sub rfl) hnext

end Ensures

/-! ## Provisioning -/

/-- Something to be set up: the call that asks whether it is up, how the answer is
read, and the call that sets it up. A call may be none, when there is no way to
send it. -/
structure Target (A C R : Type) where
  query : Option (Submission A C)
  up : R → Bool
  setup : Option (Submission A C)

/-- Ask whether the target is up and set it up unless the answer is yes; give up if
that is not seen to succeed. -/
def Client.ensure (T : Target A C R) (next : Client A C R) : Client A C R :=
  attempt T.query fun r =>
    if r.any T.up then next
    else attempt T.setup fun r' => if r'.isSome then next else .done false

/-- One target after the other. -/
def Client.ensureAll {ι : Type} (target : ι → Target A C R) : List ι → Client A C R
  | [] => .done true
  | i :: is => ensure (target i) (ensureAll target is)

/-- The target is up in the states of `Up`: no transaction takes it down, a yes to
the query is true, and a set-up that succeeds has done its work. -/
structure Target.Tells (prog : C → Prog σ A X Ev E R) (T : Target A C R) (Up : σ → Prop) :
    Prop where
  kept : ∀ s tx, Up s → Up (after prog s tx)
  query : ∀ sub, T.query = some sub → ∀ s (env : Env A X E) r,
    (stepOf prog s (sub.land env)).out.result = .ok r → T.up r = true → Up s
  setup : ∀ sub, T.setup = some sub → ∀ s (env : Env A X E) r,
    (stepOf prog s (sub.land env)).out.result = .ok r → Up (after prog s (sub.land env))

section Provisioning

variable {ι : Type} {prog : C → Prog σ A X Ev E R} {lossy : Bool}
  {flight : List (Submission A C)} {s s' : σ} {l : List (Landed A X E C)} {T : Target A C R}
  {target : ι → Target A C R} {is : List ι} {next : Client A C R}

theorem Client.submits_ensure {P : Submission A C → Prop}
    (hquery : ∀ sub, T.query = some sub → P sub) (hsetup : ∀ sub, T.setup = some sub → P sub)
    (hnext : next.Submits P) : (ensure T next).Submits P := by
  refine submits_attempt hquery ?_
  intro r
  split
  next => exact hnext
  next =>
    refine submits_attempt hsetup ?_
    intro r'
    split
    next => exact hnext
    next => trivial

/-- Provisioning submits the calls of its targets and no others. -/
theorem Client.submits_ensureAll {P : Submission A C → Prop}
    (h : ∀ i ∈ is, ∀ sub, (target i).query = some sub ∨ (target i).setup = some sub → P sub) :
    (ensureAll target is).Submits P := by
  induction is with
  | nil => trivial
  | cons i is ih =>
    have hi := h i (List.mem_cons_self ..)
    refine submits_ensure (fun sub hsub => hi sub (.inl hsub)) (fun sub hsub => hi sub (.inr hsub))
      ?_
    exact ih fun j hj => h j (List.mem_cons_of_mem _ hj)

/-- What no transaction takes away is stable. -/
theorem stable_of_kept {P : Submission A C → Prop} {Q : Tx A X E C → Prop} {U : σ → Prop}
    (h : ∀ s tx, U s → U (after prog s tx)) : Stable prog P Q U where
  own s _ _ hs _ := h s _ hs
  other s tx hs _ := h s tx hs

/-- Past a target, the target is up. -/
theorem Client.ensure_complete {I Up : σ → Prop} {G : Bool → σ → Prop}
    (hI : ∀ s tx, I s → I (after prog s tx)) (hT : T.Tells prog Up)
    (hG : ∀ s, I s → G false s)
    (hnext : next.Ensures prog lossy (fun _ => True) (fun _ => True) (fun s => I s ∧ Up s) G) :
    (ensure T next).Ensures prog lossy (fun _ => True) (fun _ => True) I G := by
  unfold ensure
  refine ensures_attempt (J := fun o s => I s ∧ (o.any T.up = true → Up s)) (stable_of_kept hI)
    ?_ ?_ ?_ ?_
  · intro sub hsub s env hs
    refine ⟨hI _ _ hs, fun hup => ?_⟩
    cases hr : (stepOf prog s (sub.land env)).out.result with
    | ok r =>
      rw [hr] at hup
      exact hT.kept _ _ (hT.query sub hsub s env r hr hup)
    | error f =>
      rw [hr] at hup
      cases hup
  · exact fun _ _ _ => ⟨trivial, fun s hs => ⟨hs, nofun⟩⟩
  · exact fun _ s hs => ⟨hs, nofun⟩
  · intro o
    by_cases hup : o.any T.up = true
    · rw [if_pos hup]
      exact hnext.mono (fun s hs => ⟨hs.1, hs.2 hup⟩) fun _ _ h => h
    · rw [if_neg hup]
      refine ensures_attempt (J := fun o s => I s ∧ (o.isSome = true → Up s))
        (stable_of_kept fun s tx hs => ⟨hI s tx hs.1, fun h => absurd h hup⟩) ?_ ?_ ?_ ?_
      · intro sub hsub s env hs
        refine ⟨hI _ _ hs.1, fun hsome => ?_⟩
        cases hr : (stepOf prog s (sub.land env)).out.result with
        | ok r => exact hT.setup sub hsub s env r hr
        | error f =>
          rw [hr] at hsome
          cases hsome
      · exact fun _ _ _ => ⟨trivial, fun s hs => ⟨hs.1, nofun⟩⟩
      · exact fun _ s hs => ⟨hs.1, nofun⟩
      · intro o
        by_cases hsome : o.isSome = true
        · rw [if_pos hsome]
          exact hnext.mono (fun s hs => ⟨hs.1, hs.2 hsome⟩) fun _ _ h => h
        · rw [if_neg hsome]
          exact ensures_done (stable_of_kept fun s tx hs => ⟨hI s tx hs.1, fun h => absurd h hsome⟩)
            fun s hs => hG s hs.1

/-- **A success that is reported is one**: whatever else has landed, been lost or come
late, every target is up. -/
theorem Client.ensureAll_complete {Up : ι → σ → Prop}
    (hT : ∀ i ∈ is, (target i).Tells prog (Up i)) :
    (ensureAll target is).Ensures prog lossy (fun _ => True) (fun _ => True) (fun _ => True)
      fun ok s => ok = true → ∀ i ∈ is, Up i s := by
  -- along the list, together with what is up already
  have hall : ∀ {I : σ → Prop}, (∀ s tx, I s → I (after prog s tx)) →
      (ensureAll target is).Ensures prog lossy (fun _ => True) (fun _ => True) I
        fun ok s => ok = true → I s ∧ ∀ i ∈ is, Up i s := by
    induction is with
    | nil =>
      intro I hI
      unfold ensureAll
      exact ensures_done (stable_of_kept hI) fun s hs _ => ⟨hs, List.forall_mem_nil _⟩
    | cons i is ih =>
      intro I hI
      have hi := hT i (List.mem_cons_self ..)
      unfold ensureAll
      refine ensure_complete hI hi (fun _ _ hok => nomatch hok) ?_
      refine (ih (fun j hj => hT j (List.mem_cons_of_mem _ hj)) fun s tx hs =>
        ⟨hI s tx hs.1, hi.kept s tx hs.2⟩).mono (fun _ hs => hs) ?_
      intro ok s h hok
      obtain ⟨⟨hs, hup⟩, hrest⟩ := h hok
      exact ⟨hs, List.forall_mem_cons.mpr ⟨hup, hrest⟩⟩
  exact (hall (I := fun _ => True) fun _ _ _ => trivial).mono (fun _ hs => hs)
    fun _ _ h hok => (h hok).2

end Provisioning

end LilyContracts.Host
