import LilyContracts.Payments.Effects
import LilyContracts.Protocol.Handover
import LilyContracts.Wallet.Effects
import LilyContracts.Identity.Effects

/-!
# The pinned initial admin

The constructor of every contract pins an address, and `initialize` is meant to
accept that address alone, so that nobody can claim a fresh deployment before
its owner does (`PinRespected`).

All four contracts are the same machine on the admin slot: empty until an
`initialize` claims it, then only handed over (`AdminStep`). A trace respects
the pin exactly when every claim that succeeds along it is for the pinned
address (`respected_iff`), and then the hand-overs link the pin to the admin of
the moment (`linked_run`). What the contracts differ in is whether they look at
the pin: payments and protocol do, so every run respects it; identity and wallet
store it and take whoever signs first, so they respect it in exactly the runs in
which nobody else tries.
-/

namespace LilyContracts

open Host

/-! ## The admin slot -/

/-- What a call means to the admin slot. -/
inductive AdminMove (A : Type)
  | idle
  | claim (a : A)
  | transfer (a b : A)
  deriving DecidableEq

/-- The slot is claimed while empty and handed over afterwards. -/
inductive AdminStep {A : Type} : Option A → AdminMove A → Option A → Prop
  | idle (o : Option A) : AdminStep o .idle o
  | claim (a : A) : AdminStep none (.claim a) (some a)
  | transfer (a b : A) : AdminStep (some a) (.transfer a b) (some b)

section Machine

variable {σ A X Ev E C R : Type}

/-- The move a step made: the one its call stands for, if it succeeded. -/
def moveOf (move : σ → C → AdminMove A) (st : Step σ A X Ev E C R) : AdminMove A :=
  if st.Succeeded then move st.pre st.tx.call else .idle

/-- A step that made a move is a success of the call it stands for. -/
theorem succeeded_of_moveOf {move : σ → C → AdminMove A} {st : Step σ A X Ev E C R}
    {m : AdminMove A} (h : moveOf move st = m) (hne : m ≠ .idle) :
    st.Succeeded ∧ move st.pre st.tx.call = m := by
  unfold moveOf at h
  split at h
  next hok => exact ⟨hok, h⟩
  next => exact absurd h.symm hne

/-- The hand-overs along a history, oldest first. -/
def transfers (move : σ → C → AdminMove A) (steps : List (Step σ A X Ev E C R)) : List (A × A) :=
  steps.filterMap fun st =>
    match moveOf move st with
    | .transfer a b => some (a, b)
    | _ => none

/-- Along the steps, every `initialize` that claims the contract for another
address than `pin` fails and changes nothing, and the first admin ever stored is
`pin`. -/
structure PinRespected (admin : σ → Option A) (move : σ → C → AdminMove A) (pin : A)
    (steps : List (Step σ A X Ev E C R)) : Prop where
  rejected : ∀ st ∈ steps, ∀ a, move st.pre st.tx.call = .claim a → a ≠ pin →
    ¬ st.Succeeded ∧ st.post = st.pre
  first : ∀ st ∈ steps, ∀ a, admin st.pre = none → admin st.post = some a → a = pin

/-- Every claim that succeeded along the steps was for `pin`. -/
def ClaimsPin (move : σ → C → AdminMove A) (pin : A) (steps : List (Step σ A X Ev E C R)) : Prop :=
  ∀ st ∈ steps, ∀ a, moveOf move st = .claim a → a = pin

/-- A step that did not claim a fresh contract for anyone but `pin`: its claim is
for `pin`, or comes too late, or lacks its own signature. -/
def ClaimRefused (move : σ → C → AdminMove A) (fresh : σ → Prop) (pin : A)
    (st : Step σ A X Ev E C R) : Prop :=
  ∀ a, move st.pre st.tx.call = .claim a →
    a = pin ∨ ¬ fresh st.pre ∨ st.tx.env.signs a = false

/-- A contract whose steps, under an invariant, are steps of the admin slot. -/
structure AdminMachine (prog : C → Prog σ A X Ev E R) (admin : σ → Option A)
    (move : σ → C → AdminMove A) (I : σ → Prop) : Prop where
  kept : ∀ s tx, I s → I (after prog s tx)
  step : ∀ s tx, I s →
    AdminStep (admin s) (moveOf move (stepOf prog s tx)) (admin (after prog s tx))

namespace AdminMachine

variable {prog : C → Prog σ A X Ev E R} {admin : σ → Option A} {move : σ → C → AdminMove A}
  {I : σ → Prop} {pin : A} {s : σ} {txs : List (Tx A X E C)}

theorem kept_run (h : AdminMachine prog admin move I) (hs : I s) (l : List (Tx A X E C)) :
    I (run prog s l) :=
  run_invariant h.kept hs

/-- A trace respects the pin exactly when all its claims are for it. -/
theorem respected_iff (h : AdminMachine prog admin move I) (hs : I s) :
    PinRespected admin move pin (trace prog s txs) ↔ ClaimsPin move pin (trace prog s txs) := by
  constructor
  · intro hpin st hst a ha
    obtain ⟨hok, hmove⟩ := succeeded_of_moveOf ha nofun
    by_contra hne
    exact (hpin.rejected st hst a hmove hne).1 hok
  · intro hclaims
    constructor
    · intro st hst a ha hne
      have hfail : ¬ st.Succeeded := fun hok => hne (hclaims st hst a ((if_pos hok).trans ha))
      obtain ⟨l₁, tx, l₂, _, rfl⟩ := mem_trace.mp hst
      exact ⟨hfail, after_of_not_succeeded hfail⟩
    · intro st hst a hnone hsome
      obtain ⟨l₁, tx, l₂, _, rfl⟩ := mem_trace.mp hst
      have hstep := h.step _ tx (h.kept_run hs l₁)
      have hclaim := hclaims _ hst
      rw [stepOf_pre] at hnone
      rw [stepOf_post] at hsome
      rw [hnone, hsome] at hstep
      generalize moveOf move (stepOf prog (run prog s l₁) tx) = m at hstep hclaim
      -- of the slot's steps only a claim fills it
      cases hstep with
      | claim => exact hclaim a rfl

/-- The admin, where there is one, is where the hand-overs lead to from the
pin; where there is none, there were no hand-overs. -/
def Chained (admin : σ → Option A) (move : σ → C → AdminMove A) (pin : A)
    (steps : List (Step σ A X Ev E C R)) (s : σ) : Prop :=
  match admin s with
  | none => transfers move steps = []
  | some a => Linked pin (transfers move steps) a

theorem chained_step (h : AdminMachine prog admin move I) (hs : I s)
    {steps : List (Step σ A X Ev E C R)} (tx : Tx A X E C)
    (hclaim : ∀ a, moveOf move (stepOf prog s tx) = .claim a → a = pin)
    (hchain : Chained admin move pin steps s) :
    Chained admin move pin (steps ++ [stepOf prog s tx]) (after prog s tx) := by
  have hstep := h.step s tx hs
  unfold Chained transfers at hchain ⊢
  rw [List.filterMap_append]
  generalize admin s = o at hstep hchain
  generalize admin (after prog s tx) = o' at hstep ⊢
  generalize hm : moveOf move (stepOf prog s tx) = m at hstep hclaim
  cases hstep with
  | idle =>
    rw [List.filterMap_cons_none (by rw [hm]), List.filterMap_nil, List.append_nil]
    exact hchain
  | claim a =>
    rw [List.filterMap_cons_none (by rw [hm]), List.filterMap_nil, List.append_nil]
    have hnil : steps.filterMap _ = [] := hchain
    show Linked pin (steps.filterMap _) a
    rw [hnil]
    exact (hclaim a rfl).symm
  | transfer a b =>
    rw [List.filterMap_cons_some (b := (a, b)) (by rw [hm]), List.filterMap_nil]
    exact linked_concat.mpr ⟨hchain, rfl⟩

/-- Along a run whose claims are for the pin, the hand-overs link the pin to the
admin. -/
theorem linked_run (h : AdminMachine prog admin move I) (hs : I s) (hnone : admin s = none)
    (hclaims : ClaimsPin move pin (trace prog s txs)) {a : A}
    (ha : admin (run prog s txs) = some a) :
    Linked pin (transfers move (trace prog s txs)) a := by
  have hrun : I (run prog s txs) ∧ (ClaimsPin move pin (trace prog s txs) →
      Chained admin move pin (trace prog s txs) (run prog s txs)) := by
    refine trace_invariant (I := fun steps s => I s ∧ (ClaimsPin move pin steps →
      Chained admin move pin steps s)) ?_ ⟨hs, fun _ => ?_⟩
    · intro steps s tx hI
      refine ⟨h.kept s tx hI.1, fun hall => ?_⟩
      have hlast := hall _ (List.mem_append_right steps (List.mem_singleton_self _))
      exact h.chained_step hI.1 tx hlast
        (hI.2 fun st hst => hall st (List.mem_append_left _ hst))
    · rw [Chained, hnone]
      rfl
  have hchain := hrun.2 hclaims
  rw [Chained, ha] at hchain
  exact hchain

/-- Where `initialize` takes whoever signs first, the pin is respected exactly
when every other claim is refused. -/
theorem respected_iff_refused (h : AdminMachine prog admin move I) (hs : I s) {fresh : σ → Prop}
    (hopen : ∀ s tx a, move s tx.call = .claim a →
      ((stepOf prog s tx).Succeeded ↔ fresh s ∧ tx.env.signs a = true)) :
    PinRespected admin move pin (trace prog s txs) ↔
      ∀ st ∈ trace prog s txs, ClaimRefused move fresh pin st := by
  rw [h.respected_iff hs]
  constructor
  · intro hclaims st hst a ha
    obtain ⟨l₁, tx, l₂, _, rfl⟩ := mem_trace.mp hst
    by_cases hok : (stepOf prog (run prog s l₁) tx).Succeeded
    · exact .inl (hclaims _ hst a ((if_pos hok).trans ha))
    · -- it failed, so one of the two things it needs was missing
      right
      by_cases hfresh : fresh (run prog s l₁)
      · exact .inr (Bool.eq_false_iff.mpr fun hsign => hok ((hopen _ tx a ha).mpr ⟨hfresh, hsign⟩))
      · exact .inl hfresh
  · intro hrefused st hst a ha
    obtain ⟨hok, hmove⟩ := succeeded_of_moveOf ha nofun
    have hcase := hrefused st hst a hmove
    obtain ⟨l₁, tx, l₂, _, rfl⟩ := mem_trace.mp hst
    obtain ⟨hfresh, hsign⟩ := (hopen _ tx a hmove).mp hok
    rcases hcase with hpin | hlate | hunsigned
    · exact hpin
    · exact absurd hfresh hlate
    · exact absurd hsign (Bool.eq_false_iff.mp hunsigned)

/-- Without transfers, a respected pin is the admin for good. -/
theorem admin_eq_pin (h : AdminMachine prog admin move I) (hs : I s) (hnone : admin s = none)
    (hmove : ∀ s c a b, move s c ≠ .transfer a b)
    (hpin : PinRespected admin move pin (trace prog s txs)) {a : A}
    (ha : admin (run prog s txs) = some a) : a = pin := by
  have hlink := h.linked_run hs hnone ((h.respected_iff hs).mp hpin) ha
  have hnil : transfers move (trace prog s txs) = [] := by
    refine List.filterMap_eq_nil_iff.mpr ?_
    intro st _
    split
    next hm => exact absurd (succeeded_of_moveOf hm nofun).2 (hmove _ _ _ _)
    next => rfl
  rw [hnil] at hlink
  exact hlink.symm

/-- A contract whose slot nothing but its `initialize` writes. -/
theorem of_gate {flag : σ → Bool} {picks : C → Bool}
    {Eff : Env A X E → σ → C → R → σ → List Ev → Prop} (hgate : Gate prog flag picks)
    (hEff : ∀ {env : Env A X E} {s : σ} {c : C} {r : R} {fr : Frame σ Ev},
      exec env (prog c) ⟨s, []⟩ = .ok (r, fr) → Eff env s c r fr.store fr.events)
    (hkept : ∀ {env : Env A X E} {s s' : σ} {c : C} {r : R} {evs : List Ev},
      Eff env s c r s' evs → picks c = false → admin s' = admin s)
    (hidle : ∀ s c, picks c = false → move s c = .idle)
    (hclaim : ∀ {env : Env A X E} {s s' : σ} {c : C} {r : R} {evs : List Ev},
      Eff env s c r s' evs → picks c = true → ∃ a, move s c = .claim a ∧ admin s' = some a) :
    AdminMachine prog admin move (fun s => flag s = false → admin s = none) where
  kept := by
    intro s tx h hdown
    have hbefore : flag s = false := by
      refine Bool.eq_false_iff.mpr fun hup => ?_
      rw [hgate.kept hup tx] at hdown
      cases hdown
    rcases stepOf_effect hEff s tx with ⟨_, heq⟩ | ⟨r, evs, hr, heff⟩
    · rw [heq]
      exact h hbefore
    · refine (hkept heff (Bool.eq_false_iff.mpr fun hpick => ?_)).trans (h hbefore)
      rw [(hgate.raised (does_of_picked hpick ⟨r, hr⟩)).2] at hdown
      cases hdown
  step := by
    intro s tx h
    rcases stepOf_effect hEff s tx with ⟨hfail, heq⟩ | ⟨r, evs, hr, heff⟩
    · rw [heq, moveOf, if_neg hfail]
      exact .idle _
    · rw [moveOf, if_pos ⟨r, hr⟩, stepOf_tx, stepOf_pre]
      cases hpick : picks tx.call with
      | false =>
        rw [hidle s _ hpick, hkept heff hpick]
        exact .idle _
      | true =>
        obtain ⟨a, hmove, ha⟩ := hclaim heff hpick
        rw [hmove, ha, h (hgate.raised (does_of_picked hpick ⟨r, hr⟩)).1]
        exact .claim a

end AdminMachine

end Machine

/-! ## Payments -/

namespace Payments

variable {A : Type}

/-- What a call means to the admin slot: a one-step transfer hands it over. -/
def adminMove (s : Store A) : Call A → AdminMove A
  | .initializeContract admin _ _ _ => .claim admin
  | .transferAdmin newAdmin =>
    match s.admin with
    | some a => .transfer a newAdmin
    | none => .idle
  | _ => .idle

theorem adminMove_of_view {s : Store A} {c : Call A} (reads : c.IsView) :
    adminMove s c = .idle := by
  cases c with
  | initializeContract => exact absurd reads id
  | transferAdmin => exact absurd reads id
  | _ => rfl

theorem initializes_of_claim {s : Store A} {c : Call A} {a : A} (h : adminMove s c = .claim a) :
    c.initializes = true := by
  cases c with
  | initializeContract => rfl
  | transferAdmin newAdmin =>
    simp only [adminMove] at h
    split at h <;> cases h
  | _ => cases h

/-- The admin slot is empty until `initialize`, and the pin stays. -/
structure Pinned (pin : A) (s : Store A) : Prop where
  pinned : s.pinnedAdmin = some pin
  fresh : s.initialized = none → s.admin = none

variable [DecidableEq A] {M : Missing} {pin : A}

theorem adminMachine (hM : M.ReadsInstance) (pin : A) :
    AdminMachine (dispatch M) (fun s : Store A => s.admin) adminMove (Pinned pin) where
  kept := by
    intro s tx h
    rcases after_cases M s tx with ⟨_, heq⟩ | ⟨r, evs, _, heff⟩
    · rw [heq]
      exact h
    · generalize tx.call = c at heff
      generalize after (dispatch M) s tx = s' at heff ⊢
      cases heff with
      | initializeContract => exact ⟨h.pinned, nofun⟩
      | transferAdmin live =>
        refine ⟨h.pinned, fun hf => ?_⟩
        rw [show s.initialized = none from hf] at live
        cases live
      | _ => exact ⟨h.pinned, h.fresh⟩
  step := by
    intro s tx h
    rcases after_cases M s tx with ⟨hfail, heq⟩ | ⟨r, evs, hr, heff⟩
    · rw [heq, moveOf, if_neg hfail]
      exact .idle _
    · rw [moveOf, if_pos ⟨r, hr⟩, stepOf_tx, stepOf_pre]
      generalize tx.call = c at heff
      generalize after (dispatch M) s tx = s' at heff ⊢
      cases heff with
      | @initializeContract admin _ _ _ signed fresh =>
        rw [h.fresh fresh]
        exact .claim admin
      | @transferAdmin admin newAdmin live isAdmin =>
        rw [adminMove, hM.ok_iff.mp isAdmin]
        exact .transfer admin newAdmin
      | view reads =>
        rw [adminMove_of_view reads]
        exact .idle _
      | _ => exact .idle _

/-- `initialize` compares the pin. -/
theorem claimsPin (hM : M.ReadsInstance) (pin : A) (txs : List (Tx A)) :
    ClaimsPin adminMove pin (trace (dispatch M) (deployed pin) txs) := by
  intro st hst a ha
  obtain ⟨l₁, tx, l₂, _, rfl⟩ := mem_trace.mp hst
  have hpin := ((adminMachine hM pin).kept_run (s := deployed pin) ⟨rfl, fun _ => rfl⟩ l₁).pinned
  obtain ⟨hok, hmove⟩ := succeeded_of_moveOf ha nofun
  obtain ⟨env, c⟩ := tx
  cases c with
  | initializeContract admin treasury feeBps wallet =>
    cases hmove
    obtain ⟨_, _, hpinned, _⟩ := initialize_lands.1.mp hok
    exact Option.some.inj (hpinned.symm.trans hpin)
  | _ => cases initializes_of_claim hmove

/-- A hand-over carries the signature of the admin it replaces. -/
theorem transfer_signed (hM : M.ReadsInstance) {s : Store A} {tx : Tx A} {a b : A}
    (h : moveOf adminMove (stepOf (dispatch M) s tx) = .transfer a b) : tx.env.signs a = true := by
  rcases after_cases M s tx with ⟨hfail, _⟩ | ⟨r, evs, hr, heff⟩
  · rw [moveOf, if_neg hfail] at h
    cases h
  · rw [moveOf, if_pos ⟨r, hr⟩, stepOf_tx, stepOf_pre] at h
    generalize tx.call = c at heff h
    generalize after (dispatch M) s tx = s' at heff
    cases heff with
    | transferAdmin live isAdmin signed =>
      rw [adminMove, hM.ok_iff.mp isAdmin] at h
      cases h
      exact signed
    | view reads =>
      rw [adminMove_of_view reads] at h
      cases h
    | _ => cases h

end Payments

/-! ## Protocol -/

namespace Protocol

variable {A : Type}

/-- What a call means to the admin slot: an acceptance hands it over. -/
def adminMove (s : Store A) : Call A → AdminMove A
  | .initializeContract admin _ _ => .claim admin
  | .acceptAdmin =>
    match s.admin, s.pendingAdmin with
    | some a, some p => .transfer a p
    | _, _ => .idle
  | _ => .idle

theorem adminMove_of_view {s : Store A} {c : Call A} (reads : c.IsView) :
    adminMove s c = .idle := by
  cases c with
  | initializeContract => exact absurd reads id
  | acceptAdmin => exact absurd reads id
  | _ => rfl

theorem initializes_of_claim {s : Store A} {c : Call A} {a : A} (h : adminMove s c = .claim a) :
    c.initializes = true := by
  cases c with
  | initializeContract => rfl
  | acceptAdmin =>
    simp only [adminMove] at h
    split at h <;> cases h
  | _ => cases h

/-- The admin slot is empty until `initialize`, and the pin stays. -/
structure Pinned (pin : A) (s : Store A) : Prop where
  pinned : s.pinnedAdmin = some pin
  fresh : s.initialized = none → s.admin = none

variable [DecidableEq A] {M : Missing} {pin : A}

theorem adminMachine (hM : M.ReadsInstance) (pin : A) :
    AdminMachine (dispatch M) (fun s : Store A => s.admin) adminMove (Pinned pin) where
  kept := by
    intro s tx h
    rcases after_cases M s tx with ⟨_, heq⟩ | ⟨r, evs, _, heff⟩
    · rw [heq]
      exact h
    · generalize tx.call = c at heff
      generalize after (dispatch M) s tx = s' at heff ⊢
      cases heff with
      | initializeContract => exact ⟨h.pinned, nofun⟩
      | acceptAdmin live =>
        refine ⟨h.pinned, fun hf => ?_⟩
        rw [show s.initialized = none from hf] at live
        cases live
      | _ => exact ⟨h.pinned, h.fresh⟩
  step := by
    intro s tx h
    rcases after_cases M s tx with ⟨hfail, heq⟩ | ⟨r, evs, hr, heff⟩
    · rw [heq, moveOf, if_neg hfail]
      exact .idle _
    · rw [moveOf, if_pos ⟨r, hr⟩, stepOf_tx, stepOf_pre]
      generalize tx.call = c at heff
      generalize after (dispatch M) s tx = s' at heff ⊢
      cases heff with
      | @initializeContract admin _ _ signed fresh =>
        rw [h.fresh fresh]
        exact .claim admin
      | @acceptAdmin oldAdmin p live pending signed isAdmin =>
        rw [adminMove, hM.ok_iff.mp isAdmin, pending]
        exact .transfer oldAdmin p
      | view reads =>
        rw [adminMove_of_view reads]
        exact .idle _
      | _ => exact .idle _

/-- `initialize` compares the pin. -/
theorem claimsPin (hM : M.ReadsInstance) (pin : A) (txs : List (Tx A)) :
    ClaimsPin adminMove pin (trace (dispatch M) (deployed pin) txs) := by
  intro st hst a ha
  obtain ⟨l₁, tx, l₂, _, rfl⟩ := mem_trace.mp hst
  have hpin := ((adminMachine hM pin).kept_run (s := deployed pin) ⟨rfl, fun _ => rfl⟩ l₁).pinned
  obtain ⟨hok, hmove⟩ := succeeded_of_moveOf ha nofun
  obtain ⟨env, c⟩ := tx
  cases c with
  | initializeContract admin treasury feeBps =>
    cases hmove
    obtain ⟨_, _, hpinned, _⟩ := initialize_lands.1.mp hok
    exact Option.some.inj (hpinned.symm.trans hpin)
  | _ => cases initializes_of_claim hmove

/-- A hand-over completes the most recent proposal, which the admin it replaces
signed. -/
theorem transfer_proposed (hM : M.ReadsInstance) (pin : A) {before : List (Tx A)} {tx : Tx A}
    {a b : A} (h : moveOf adminMove (stepOf (dispatch M)
      (run (dispatch M) (deployed pin) before) tx) = .transfer a b) :
    tx.env.signs b = true ∧
      ∃ st, lastWrite proposal (trace (dispatch M) (deployed pin) before) = some (st, b) ∧
        st.tx.env.signs a = true := by
  have hpending := pending_from hM pin before
  generalize run (dispatch M) (deployed pin) before = s at h hpending
  rcases after_cases M s tx with ⟨hfail, _⟩ | ⟨r, evs, hr, heff⟩
  · rw [moveOf, if_neg hfail] at h
    cases h
  · rw [moveOf, if_pos ⟨r, hr⟩, stepOf_tx, stepOf_pre] at h
    generalize tx.call = c at heff h
    generalize after (dispatch M) s tx = s' at heff
    cases heff with
    | acceptAdmin live pending signed isAdmin =>
      have ha := hM.ok_iff.mp isAdmin
      rw [adminMove, ha, pending] at h
      cases h
      obtain ⟨st, a', hlast, ha', _, hsigned⟩ := hpending b pending
      obtain rfl : a = a' := by
        have hs : s.admin = some a' := ha'
        rw [ha] at hs
        exact Option.some.inj hs
      exact ⟨signed, st, hlast, hsigned⟩
    | view reads =>
      rw [adminMove_of_view reads] at h
      cases h
    | _ => cases h

end Protocol

/-! ## Identity and wallet -/

namespace Identity

variable {A : Type}

/-- What a call means to the admin slot: there is no transfer. -/
def adminMove (_ : Store A) : Call A → AdminMove A
  | .initializeContract admin => .claim admin
  | _ => .idle

theorem adminMove_ne_transfer (s : Store A) (c : Call A) (a b : A) :
    adminMove s c ≠ .transfer a b := by
  cases c <;> nofun

variable [DecidableEq A]

theorem adminMachine (M : Missing) :
    AdminMachine (dispatch M) (fun s : Store A => s.admin) adminMove
      (fun s => s.initialized.isSome = false → s.admin = none) := by
  refine .of_gate (gate M) effect_of_exec admin_kept ?_ ?_
  · intro s c hnot
    cases c with
    | initializeContract => cases hnot
    | _ => rfl
  · intro env s s' c r evs heff hpick
    cases heff with
    | initializeContract => exact ⟨_, rfl, rfl⟩
    | view reads =>
      rw [initializes_of_isView reads] at hpick
      cases hpick
    | _ => cases hpick

/-- `initialize` takes whoever signs, once. -/
theorem claim_succeeds_iff (M : Missing) (s : Store A) (tx : Tx A) (a : A)
    (ha : adminMove s tx.call = .claim a) :
    (stepOf (dispatch M) s tx).Succeeded ↔ s.initialized = none ∧ tx.env.signs a = true := by
  obtain ⟨env, c⟩ := tx
  cases c with
  | initializeContract admin =>
    cases ha
    exact initialize_lands.1.trans and_comm
  | _ => cases ha

end Identity

namespace Wallet

variable {A : Type}

/-- What a call means to the admin slot: there is no transfer. -/
def adminMove (_ : Store A) : Call A → AdminMove A
  | .initializeContract admin => .claim admin
  | _ => .idle

theorem adminMove_ne_transfer (s : Store A) (c : Call A) (a b : A) :
    adminMove s c ≠ .transfer a b := by
  cases c <;> nofun

variable [DecidableEq A]

theorem adminMachine (M : Missing) (nextRevision : NextRevision A) :
    AdminMachine (dispatch M nextRevision) (fun s : Store A => s.admin) adminMove
      (fun s => s.initialized.isSome = false → s.admin = none) := by
  refine .of_gate (gate M nextRevision) effect_of_exec admin_kept ?_ ?_
  · intro s c hnot
    cases c with
    | initializeContract => cases hnot
    | _ => rfl
  · intro env s s' c r evs heff hpick
    cases heff with
    | initializeContract => exact ⟨_, rfl, rfl⟩
    | view reads =>
      rw [initializes_of_isView reads] at hpick
      cases hpick
    | _ => cases hpick

/-- `initialize` takes whoever signs, once. -/
theorem claim_succeeds_iff (M : Missing) (nextRevision : NextRevision A) (s : Store A) (tx : Tx A)
    (a : A) (ha : adminMove s tx.call = .claim a) :
    (stepOf (dispatch M nextRevision) s tx).Succeeded ↔
      s.initialized = none ∧ tx.env.signs a = true := by
  obtain ⟨env, c⟩ := tx
  cases c with
  | initializeContract admin =>
    cases ha
    exact initialize_lands.1.trans and_comm
  | _ => cases ha

end Wallet

/-! ## All four contracts -/

section All

variable {A : Type} [DecidableEq A] {M : Missing}

/-- **Initial-admin pinning**: in every run, payments and protocol respect the
pin, and their admin is where a chain of hand-overs leads to from it, each
signed by the admin it replaces (in protocol, at the proposal that the hand-over
completes). Identity and wallet respect it in exactly the runs in which every
`initialize` of the fresh contract that its claimant signed is for the pinned
address; there the pin stays the admin. Initialized, each of the two stores an
admin, in every run. -/
theorem initial_admin_pinning (hM : M.ReadsInstance) (nextRevision : Wallet.NextRevision A)
    (pin : A) :
    (∀ txs : List (Payments.Tx A),
      let s := run (Payments.dispatch M) (Payments.deployed pin) txs
      let steps := trace (Payments.dispatch M) (Payments.deployed pin) txs
      PinRespected (·.admin) Payments.adminMove pin steps ∧
      (∀ a, s.admin = some a → Linked pin (transfers Payments.adminMove steps) a) ∧
      ∀ st ∈ steps, ∀ a b, moveOf Payments.adminMove st = .transfer a b →
        st.tx.env.signs a = true) ∧
    (∀ txs : List (Protocol.Tx A),
      let s := run (Protocol.dispatch M) (Protocol.deployed pin) txs
      let steps := trace (Protocol.dispatch M) (Protocol.deployed pin) txs
      PinRespected (·.admin) Protocol.adminMove pin steps ∧
      (∀ a, s.admin = some a → Linked pin (transfers Protocol.adminMove steps) a) ∧
      ∀ (tx : Protocol.Tx A) a b,
        moveOf Protocol.adminMove (stepOf (Protocol.dispatch M) s tx) = .transfer a b →
        tx.env.signs b = true ∧ ∃ st, lastWrite Protocol.proposal steps = some (st, b) ∧
          st.tx.env.signs a = true) ∧
    (∀ txs : List (Identity.Tx A),
      let s := run (Identity.dispatch M) (Identity.deployed pin) txs
      let steps := trace (Identity.dispatch M) (Identity.deployed pin) txs
      (PinRespected (·.admin) Identity.adminMove pin steps ↔
        ∀ st ∈ steps, ClaimRefused Identity.adminMove (·.initialized = none) pin st) ∧
      (PinRespected (·.admin) Identity.adminMove pin steps → ∀ a, s.admin = some a → a = pin) ∧
      (s.initialized.isSome = true → ∃ a, s.admin = some a)) ∧
    (∀ txs : List (Wallet.Tx A),
      let s := run (Wallet.dispatch M nextRevision) (Wallet.deployed pin) txs
      let steps := trace (Wallet.dispatch M nextRevision) (Wallet.deployed pin) txs
      (PinRespected (·.admin) Wallet.adminMove pin steps ↔
        ∀ st ∈ steps, ClaimRefused Wallet.adminMove (·.initialized = none) pin st) ∧
      (PinRespected (·.admin) Wallet.adminMove pin steps → ∀ a, s.admin = some a → a = pin) ∧
      (s.initialized.isSome = true → ∃ a, s.admin = some a)) := by
  refine ⟨?_, ?_, ?_, ?_⟩
  · intro txs s steps
    have hmachine := Payments.adminMachine hM pin
    have hfresh : Payments.Pinned pin (Payments.deployed pin) := ⟨rfl, fun _ => rfl⟩
    have hclaims := Payments.claimsPin hM pin txs
    refine ⟨(hmachine.respected_iff hfresh).mpr hclaims,
      fun a ha => hmachine.linked_run hfresh rfl hclaims ha, ?_⟩
    intro st hst a b hmove
    obtain ⟨l₁, tx, l₂, _, rfl⟩ := mem_trace.mp hst
    exact Payments.transfer_signed hM hmove
  · intro txs s steps
    have hmachine := Protocol.adminMachine hM pin
    have hfresh : Protocol.Pinned pin (Protocol.deployed pin) := ⟨rfl, fun _ => rfl⟩
    have hclaims := Protocol.claimsPin hM pin txs
    exact ⟨(hmachine.respected_iff hfresh).mpr hclaims,
      fun a ha => hmachine.linked_run hfresh rfl hclaims ha,
      fun tx a b hmove => Protocol.transfer_proposed hM pin hmove⟩
  · intro txs s steps
    have hmachine := Identity.adminMachine (A := A) M
    exact ⟨hmachine.respected_iff_refused (fun _ => rfl) (Identity.claim_succeeds_iff M),
      fun hpin a ha =>
        hmachine.admin_eq_pin (fun _ => rfl) rfl Identity.adminMove_ne_transfer hpin ha,
      Identity.admin_stored M pin⟩
  · intro txs s steps
    have hmachine := Wallet.adminMachine M nextRevision
    exact ⟨hmachine.respected_iff_refused (fun _ => rfl) (Wallet.claim_succeeds_iff M nextRevision),
      fun hpin a ha =>
        hmachine.admin_eq_pin (fun _ => rfl) rfl Wallet.adminMove_ne_transfer hpin ha,
      Wallet.admin_stored M nextRevision pin⟩

end All

/-- After the sample handover, protocol's admin is linked to the pin. -/
theorem initial_admin_pinning_sample :
    Linked 0 (transfers Protocol.adminMove (trace (Protocol.dispatch .documented)
      (Protocol.deployed 0)
      [Protocol.Sample.initializeTx, Protocol.Sample.proposeTx, Protocol.Sample.acceptTx])) 1 :=
  ((initial_admin_pinning Missing.documented_readsInstance Wallet.Sample.nextRevision 0).2.1
    [Protocol.Sample.initializeTx, Protocol.Sample.proposeTx, Protocol.Sample.acceptTx]).2.1 1
    (by decide +kernel)

/-- Address 7 claims contracts deployed for address 0, with nothing but its own
signature. -/
theorem identity_wallet_claimed_by_stranger :
    ((stepOf (Identity.dispatch .documented) (Identity.deployed 0)
        (Identity.Sample.tx [7] (.initializeContract 7))).Succeeded ∧
      (after (Identity.dispatch .documented) (Identity.deployed 0)
        (Identity.Sample.tx [7] (.initializeContract 7))).admin = some 7) ∧
    (stepOf (Wallet.dispatch .documented Wallet.Sample.nextRevision) (Wallet.deployed 0)
        (Wallet.Sample.tx [7] (.initializeContract 7))).Succeeded ∧
      (after (Wallet.dispatch .documented Wallet.Sample.nextRevision) (Wallet.deployed 0)
        (Wallet.Sample.tx [7] (.initializeContract 7))).admin = some 7 := by
  decide +kernel

end LilyContracts
