import LilyContracts.Host.Reentry

/-!
# What a suspended frame can rely on

`Host/Reentry.lean` lets a frame resume in any storage. What it really resumes in
is what the frames nested in it left, and a frame that failed has left nothing: if
every landing only extends the storage in some preorder `G`, a frame resumes in an
extension of the storage it saw when it was suspended, however deep the nest was
and however much of it was rolled back (`Activation.Sits`).

Not every frame needs to be open to others everywhere. `Hosts` says in which
interactions of which calls a further invocation may be entered; out of any other
one a frame resumes in exactly the storage it saw.

The two facts hold along the whole stack at once, since a rollback brings back the
world some frame entered with: `Stacked` is the invariant that says so,
`nested_step` and `nested_play` its step and run rule.
-/

namespace LilyContracts.Host

variable {σ A X Ev E C R : Type}

/-! ## Which frames are open to further invocations -/

/-- A further invocation is entered only while nothing is suspended, or in an
interaction that may host it: `may` tells by the call and by the number of the
interaction it waits in. -/
def Config.Hosts (may : C → Nat → Bool) (cfg : Config σ A X Ev E C R) : Action A X E C → Prop
  | .enter _ => ∀ t ∈ cfg.stack.head?, may t.tx.call t.point = true
  | _ => True

/-- Every action of the run does so as it is taken. -/
def Config.HostsAll (prog : C → Prog σ A X Ev E R) (may : C → Nat → Bool) :
    Config σ A X Ev E C R → List (Action A X E C) → Prop
  | _, [] => True
  | cfg, act :: acts => cfg.Hosts may act ∧ Config.HostsAll prog may (cfg.step prog act) acts

instance (may : C → Nat → Bool) (cfg : Config σ A X Ev E C R) :
    (act : Action A X E C) → Decidable (cfg.Hosts may act)
  | .enter _ => inferInstanceAs (Decidable (∀ t ∈ cfg.stack.head?, _))
  | .resume => .isTrue trivial
  | .abort => .isTrue trivial

instance decidableHostsAll (prog : C → Prog σ A X Ev E R) (may : C → Nat → Bool) :
    (cfg : Config σ A X Ev E C R) → (acts : List (Action A X E C)) →
      Decidable (cfg.HostsAll prog may acts)
  | _, [] => .isTrue trivial
  | cfg, act :: acts =>
    have := decidableHostsAll prog may (cfg.step prog act) acts
    inferInstanceAs (Decidable (_ ∧ _))

variable {prog : C → Prog σ A X Ev E R} {may : C → Nat → Bool} {cfg : Config σ A X Ev E C R}
  {act : Action A X E C} {acts l₁ l₂ : List (Action A X E C)}

theorem Config.hostsAll_append :
    cfg.HostsAll prog may (l₁ ++ l₂) ↔
      cfg.HostsAll prog may l₁ ∧ (cfg.play prog l₁).HostsAll prog may l₂ := by
  induction l₁ generalizing cfg with
  | nil => simp [HostsAll]
  | cons act l ih => simp only [List.cons_append, HostsAll, ih, play_cons, and_assoc]

theorem Config.hostsAll_resumes (n : Nat) :
    cfg.HostsAll prog may (List.replicate n .resume) := by
  induction n generalizing cfg with
  | zero => exact trivial
  | succ n ih => exact ⟨trivial, ih⟩

/-- Every run of top-level calls is such a run, whatever may host. -/
theorem hosted_run (txs : List (Tx A X E C)) :
    ∀ (s : σ) (evs : List Ev) (log : List (C × R)), ∃ acts evs' log',
      (⟨⟨⟨s, evs⟩, log⟩, []⟩ : Config σ A X Ev E C R).HostsAll prog may acts ∧
      (⟨⟨⟨s, evs⟩, log⟩, []⟩ : Config σ A X Ev E C R).play prog acts =
        ⟨⟨⟨run prog s txs, evs'⟩, log'⟩, []⟩ := by
  induction txs with
  | nil =>
    intro s evs log
    exact ⟨[], evs, log, trivial, rfl⟩
  | cons tx txs ih =>
    intro s evs log
    obtain ⟨n, evs₁, log₁, hcall⟩ := call_alone prog tx s evs log
    obtain ⟨acts, evs', log', hhosts, hplay⟩ := ih (after prog s tx) evs₁ log₁
    refine ⟨.enter tx :: List.replicate n .resume ++ acts, evs', log', ?_, ?_⟩
    · rw [Config.hostsAll_append, hcall]
      exact ⟨⟨nofun, Config.hostsAll_resumes n⟩, hhosts⟩
    · rw [Config.play_append, hcall, hplay, run_cons]

/-! ## The invariant along the stack -/

section Stack

variable (Q : Landings σ A X E C R) (I : σ → List (C × R) → Prop) (G : σ → σ → Prop)
  (may : C → Nat → Bool)

/-- A frame suspended under the world `w`: the storage has grown since it was
entered and since it was suspended, and not at all if nothing may be entered where
it waits. -/
structure Activation.Sits (t : Activation σ A X Ev E C R) (w : World σ Ev C R) : Prop where
  awaits : t.Awaits Q
  since : G t.saved.frame.store t.seen
  grown : G t.seen w.frame.store
  quiet : may t.tx.call t.point = false → t.seen = w.frame.store

/-- The world satisfies `I`, the innermost frame sits under it, and the frames
around it in the same way under the world it comes back to; they host it. -/
def Stacked : World σ Ev C R → List (Activation σ A X Ev E C R) → Prop
  | w, [] => I w.frame.store w.log
  | w, t :: ts => I w.frame.store w.log ∧ t.Sits Q G may w ∧
    (∀ t' ∈ ts.head?, may t'.tx.call t'.point = true) ∧ Stacked t.saved ts

/-- What every landing has to satisfy: it keeps `I` and extends the storage. -/
def KeepsNested : Prop :=
  ∀ {s s' : σ} {log : List (C × R)} {tx : Tx A X E C} {n : Nat} {seen : σ} {r : R},
    I s log → G seen s → (may tx.call n = false → seen = s) → Q tx n seen s r s' →
    I s' (log ++ [(tx.call, r)]) ∧ G s s'

end Stack

section Rules

variable {Q : Landings σ A X E C R} {I : σ → List (C × R) → Prop} {G : σ → σ → Prop}
  {w w' : World σ Ev C R} {ts : List (Activation σ A X Ev E C R)}

theorem Stacked.world (h : Stacked Q I G may w ts) : I w.frame.store w.log := by
  cases ts with
  | nil => exact h
  | cons t ts => exact h.1

/-- The frames of a stack that may host sit under any larger world as well. -/
theorem Stacked.grow (htrans : ∀ {a b c}, G a b → G b c → G a c)
    (h : Stacked Q I G may w ts) (hmay : ∀ t ∈ ts.head?, may t.tx.call t.point = true)
    (hI : I w'.frame.store w'.log) (hG : G w.frame.store w'.frame.store) :
    Stacked Q I G may w' ts := by
  cases ts with
  | nil => exact hI
  | cons t ts =>
    obtain ⟨_, hsits, hhosts, hrest⟩ := h
    refine ⟨hI, ⟨hsits.awaits, hsits.since, htrans hsits.grown hG, ?_⟩, hhosts, hrest⟩
    intro hnot
    rw [hmay t rfl] at hnot
    cases hnot

/-- Where a stretch of a frame leads: the frame rolled back, landed, or suspended
again. -/
theorem stacked_settle (hrefl : ∀ a, G a a) (htrans : ∀ {a b c}, G a b → G b c → G a c)
    (hkeeps : KeepsNested Q I G may) {tx : Tx A X E C} {n : Nat} {seen : σ}
    {p : Prog σ A X Ev E R} {saved : World σ Ev C R}
    (hlands : Lands tx.env (Q tx) n seen w.frame.store p w.frame.store)
    (hI : I w.frame.store w.log) (hsince : G saved.frame.store seen)
    (hgrown : G seen w.frame.store) (hquiet : may tx.call n = false → seen = w.frame.store)
    (hhosts : ∀ t ∈ ts.head?, may t.tx.call t.point = true) (hrest : Stacked Q I G may saved ts) :
    let halt := advance tx.env p w.frame
    let cfg' := settle tx saved (n + 1) w.log ts halt
    Stacked Q I G may cfg'.world cfg'.stack ∧
      ((¬ ∃ f, halt = .failed f) → G w.frame.store cfg'.world.frame.store) := by
  intro halt cfg'
  rcases settle_cases saved ts hlands with
    ⟨hf, heq⟩ | ⟨_, r, fr, hQ, heq⟩ | ⟨_, fr, t, hstore, htx, hsaved, hseen, hawaits, heq⟩
  · refine ⟨?_, fun hok => absurd hf hok⟩
    show Stacked Q I G may cfg'.world cfg'.stack
    rw [show cfg' = _ from heq]
    exact hrest
  · obtain ⟨hI', hG⟩ := hkeeps hI hgrown hquiet hQ
    rw [show cfg' = _ from heq]
    exact ⟨hrest.grow htrans hhosts hI' (htrans (htrans hsince hgrown) hG), fun _ => hG⟩
  · rw [show cfg' = _ from heq]
    refine ⟨⟨?_, ⟨hawaits, ?_, ?_, ?_⟩, hhosts, ?_⟩, ?_⟩
    · show I fr.store w.log
      rw [hstore]
      exact hI
    · rw [hsaved, hseen]
      exact htrans hsince hgrown
    · rw [hseen, hstore]
      exact hrefl _
    · intro _
      rw [hseen, hstore]
    · rw [hsaved]
      exact hrest
    · intro _
      show G w.frame.store fr.store
      rw [hstore]
      exact hrefl _

/-- **The step rule**: landings that keep `I` and extend the storage keep the
invariant along the stack, and only a rollback can take anything back. -/
theorem nested_step (hprog : AllLand prog Q) (hrefl : ∀ a, G a a)
    (htrans : ∀ {a b c}, G a b → G b c → G a c) (hkeeps : KeepsNested Q I G may)
    (h : Stacked Q I G may cfg.world cfg.stack) (hact : cfg.Hosts may act) :
    Stacked Q I G may (cfg.step prog act).world (cfg.step prog act).stack ∧
      (¬ cfg.RollsBack prog act →
        G cfg.world.frame.store (cfg.step prog act).world.frame.store) := by
  obtain ⟨world, stack⟩ := cfg
  cases act with
  | enter tx =>
    exact stacked_settle hrefl htrans hkeeps (hprog tx world.frame.store _) h.world (hrefl _)
      (hrefl _) (fun _ => rfl) hact h
  | resume =>
    cases stack with
    | nil => exact ⟨h, fun _ => hrefl _⟩
    | cons t stack =>
      obtain ⟨hI, hsits, hhosts, hrest⟩ := h
      rw [Config.rollsBack_resume]
      unfold Config.step resumed
      dsimp only
      cases hans : answer t.tx.env t.rest with
      | error f =>
        -- the interaction itself fails the frame
        exact ⟨hrest, fun hok => absurd ⟨f, rfl⟩ hok⟩
      | ok k =>
        exact stacked_settle hrefl htrans hkeeps (hsits.awaits k hans _) hI hsits.since
          hsits.grown hsits.quiet hhosts hrest
  | abort =>
    cases stack with
    | nil => exact ⟨h, fun hok => absurd trivial hok⟩
    | cons t stack => exact ⟨h.2.2.2, fun hok => absurd trivial hok⟩

/-- **The run rule.** -/
theorem nested_play (hprog : AllLand prog Q) (hrefl : ∀ a, G a a)
    (htrans : ∀ {a b c}, G a b → G b c → G a c) (hkeeps : KeepsNested Q I G may)
    (h : Stacked Q I G may cfg.world cfg.stack) (hacts : cfg.HostsAll prog may acts) :
    Stacked Q I G may (cfg.play prog acts).world (cfg.play prog acts).stack := by
  induction acts generalizing cfg with
  | nil => exact h
  | cons act acts ih =>
    exact ih (nested_step hprog hrefl htrans hkeeps h hacts.1).1 hacts.2

end Rules

end LilyContracts.Host
