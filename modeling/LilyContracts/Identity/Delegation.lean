import LilyContracts.Identity.Effects

/-!
# Delegation and deactivation of a profile

Seen from one agent, the registry is a machine on the agent's profile
(`ProfileStep`): the agent registers once; from then on the profile's own
controller is the only one who may update it, and may hand the role on; the
stored admin may freeze and unfreeze it. `profileStep_after` says that the
contract does nothing else.

The principal that may write is a field of what it writes, so authority is a
chain: `rotations` reads off a history who handed the role to whom, in order,
and `controller_chain` is the invariant that these hand-overs link the
controller chosen at registration to the one stored now. An inactive profile can
only be unfrozen, by the admin, which is all there is to freezing
(`frozen_run`).
-/

namespace LilyContracts.Identity

open Host

variable {A : Type}

/-! ## The machine of one profile -/

/-- What a call means to one agent's profile. -/
inductive Action (A : Type)
  | idle
  | register (controller : A) (metadataUri : HostString)
  | update (metadataUri : HostString) (newController : Option A)
  | deactivate
  | reactivate
  deriving DecidableEq

/-- The machine, driven by who signs and by who is admin. -/
inductive ProfileStep (signs : A → Bool) (admin : Option A) (agent : A) :
    Option (AgentProfile A) → Action A → Option (AgentProfile A) → Prop
  | idle (p : Option (AgentProfile A)) : ProfileStep signs admin agent p .idle p
  | register {controller : A} {uri : HostString} (signed : signs agent = true) :
      ProfileStep signs admin agent none (.register controller uri)
        (some ⟨controller, uri, true, 0⟩)
  | update {p : AgentProfile A} {uri : HostString} {newController : Option A} (revision : UInt64)
      (active : p.active = true) (signed : signs p.controller = true) :
      ProfileStep signs admin agent (some p) (.update uri newController)
        (some (p.update uri newController revision))
  | deactivate {p : AgentProfile A} {a : A} (revision : UInt64) (isAdmin : admin = some a)
      (signed : signs a = true) :
      ProfileStep signs admin agent (some p) .deactivate
        (some { p with active := false, revision })
  | reactivate {p : AgentProfile A} {a : A} (revision : UInt64) (isAdmin : admin = some a)
      (signed : signs a = true) :
      ProfileStep signs admin agent (some p) .reactivate
        (some { p with active := true, revision })

section Reading

variable [DecidableEq A]

/-- What the call does to `agent`'s profile when it succeeds. -/
def Call.action (agent : A) : Call A → Action A
  | .register a controller uri => if a = agent then .register controller uri else .idle
  | .updateProfile a uri newController => if a = agent then .update uri newController else .idle
  | .deactivate a => if a = agent then .deactivate else .idle
  | .reactivate a => if a = agent then .reactivate else .idle
  | _ => .idle

theorem action_of_view {agent : A} {c : Call A} (reads : c.IsView) : c.action agent = .idle := by
  cases c with
  | isInitialized => rfl
  | getProfile => rfl
  | getProfileOpt => rfl
  | _ => exact absurd reads id

/-- What a step did to `agent`'s profile: nothing if its call failed. -/
def action (agent : A) (st : Step A) : Action A :=
  if st.Succeeded then st.tx.call.action agent else .idle

/-- The controller a step registered `agent`'s profile under. -/
def registration (agent : A) (st : Step A) : Option A :=
  match action agent st with
  | .register controller _ => some controller
  | _ => none

/-- The hand-over a step made: from the controller it met to the one that a
successful `update_profile` named. -/
def rotation (agent : A) (st : Step A) : Option (A × A) :=
  match action agent st, st.pre.profile agent with
  | .update _ (some next), some p => some (p.controller, next)
  | _, _ => none

/-- The hand-overs of `agent`'s profile along a history, oldest first. -/
def rotations (agent : A) (steps : List (Step A)) : List (A × A) :=
  steps.filterMap (rotation agent)

end Reading

section Steps

variable [DecidableEq A] {M : Missing} {s : Store A} {agent : A}

/-! ## The contract refines the machine -/

/-- A call that writes a profile, `agent`'s or another's, is a step of a machine on
`agent`'s slot when it is one on the slot it writes. -/
theorem put_slot {R : A → Option (AgentProfile A) → Action A → Option (AgentProfile A) → Prop}
    (idle : ∀ agent p, R agent p .idle p) {a : A} {p : AgentProfile A} {act : Action A}
    (h : R a (s.profile a) act (some p)) :
    R agent (s.profile agent) (if a = agent then act else .idle) ((s.put a p).profile agent) := by
  by_cases ha : a = agent
  · subst ha
    rw [if_pos rfl, put_profile_self]
    exact h
  · rw [if_neg ha, put_profile_of_ne (fun he => ha he.symm)]
    exact idle agent _

theorem profileStep_after (M : Missing) (s : Store A) (agent : A) (tx : Tx A) :
    ProfileStep tx.env.signs s.admin agent (s.profile agent)
      (action agent (stepOf (dispatch M) s tx)) ((after (dispatch M) s tx).profile agent) := by
  rcases after_cases M s tx with ⟨hfail, heq⟩ | ⟨r, evs, hr, heff⟩
  · rw [heq, action, if_neg hfail]
    exact .idle _
  · rw [action, if_pos ⟨r, hr⟩, stepOf_tx]
    generalize tx.call = c at heff
    generalize after (dispatch M) s tx = s' at heff ⊢
    cases heff with
    | initializeContract => exact .idle _
    | @register a controller uri live uri_ne unregistered signed =>
      refine put_slot (R := ProfileStep tx.env.signs s.admin) (fun _ => .idle) ?_
      rw [unregistered]
      exact .register signed
    | @updateProfile a uri newController p revision live uri_ne stored active signed =>
      refine put_slot (R := ProfileStep tx.env.signs s.admin) (fun _ => .idle) ?_
      rw [stored]
      exact .update revision active signed
    | @deactivate admin a p revision live isAdmin signed stored =>
      refine put_slot (R := ProfileStep tx.env.signs s.admin) (fun _ => .idle) ?_
      rw [stored]
      exact .deactivate revision isAdmin signed
    | @deactivateInactive admin a p live isAdmin signed stored inactive =>
      -- nothing is written, which on an inactive profile is deactivating it
      by_cases ha : a = agent
      · subst ha
        rw [Call.action, if_pos rfl, stored]
        have hp : { p with active := false, revision := p.revision } = p := by
          rw [← inactive]
        have hstep : ProfileStep tx.env.signs s.admin a (some p) .deactivate
            (some { p with active := false, revision := p.revision }) :=
          .deactivate p.revision isAdmin signed
        rwa [hp] at hstep
      · rw [Call.action, if_neg ha]
        exact .idle _
    | @reactivate admin a p live isAdmin signed stored inc =>
      refine put_slot (R := ProfileStep tx.env.signs s.admin) (fun _ => .idle) ?_
      rw [stored]
      exact .reactivate _ isAdmin signed
    | view reads =>
      rw [action_of_view reads]
      exact .idle _

/-- The stored admin of an initialized registry never changes. -/
theorem admin_after (M : Missing) (hinit : s.initialized.isSome = true) (tx : Tx A) :
    (after (dispatch M) s tx).initialized.isSome = true ∧
      (after (dispatch M) s tx).admin = s.admin :=
  ⟨(gate M).kept hinit tx, (gate M).fixed effect_of_exec admin_kept hinit tx⟩

/-! ## Registration -/

/-- A profile appears only by the agent registering it. -/
theorem register_of_appears {tx : Tx A} (hnone : s.profile agent = none)
    (hsome : (after (dispatch M) s tx).profile agent ≠ none) :
    tx.env.signs agent = true ∧
      ∃ controller uri, action agent (stepOf (dispatch M) s tx) = .register controller uri := by
  have hstep := profileStep_after M s agent tx
  rw [hnone] at hstep
  generalize (after (dispatch M) s tx).profile agent = p₁ at hstep hsome
  generalize action agent (stepOf (dispatch M) s tx) = act at hstep ⊢
  cases hstep with
  | idle => exact absurd rfl hsome
  | register signed => exact ⟨signed, _, _, rfl⟩

/-- A step that registers is a successful call of `register`. -/
theorem call_of_register {st : Step A} {controller : A} {uri : HostString}
    (h : action agent st = .register controller uri) :
    st.Succeeded ∧ st.tx.call = .register agent controller uri := by
  unfold action at h
  split at h
  next hok =>
    refine ⟨hok, ?_⟩
    cases hc : st.tx.call with
    | register a c u =>
      rw [hc, Call.action] at h
      split at h
      next ha =>
        cases h
        rw [ha]
      next => cases h
    | updateProfile =>
      rw [hc, Call.action] at h
      split at h <;> cases h
    | deactivate =>
      rw [hc, Call.action] at h
      split at h <;> cases h
    | reactivate =>
      rw [hc, Call.action] at h
      split at h <;> cases h
    | _ =>
      rw [hc] at h
      cases h
  next => cases h

theorem registered_run (M : Missing) (hp : (s.profile agent).isSome = true) (txs : List (Tx A)) :
    ((run (dispatch M) s txs).profile agent).isSome = true := by
  refine run_invariant (I := fun s : Store A => (s.profile agent).isSome = true) ?_ hp
  intro s tx hs
  have hstep := profileStep_after M s agent tx
  generalize s.profile agent = p₀ at hstep hs
  generalize (after (dispatch M) s tx).profile agent = p₁ at hstep ⊢
  generalize action agent (stepOf (dispatch M) s tx) = act at hstep
  cases hstep with
  | idle => exact hs
  | register => rfl
  | update => rfl
  | deactivate => rfl
  | reactivate => rfl

/-- `register` fails for an agent that has a profile. -/
theorem register_fails (hp : (s.profile agent).isSome = true) {tx : Tx A} {controller : A}
    {uri : HostString} (hcall : tx.call = .register agent controller uri) :
    ¬ (stepOf (dispatch M) s tx).Succeeded := by
  intro hok
  rcases after_cases M s tx with ⟨hfail, _⟩ | ⟨r, evs, _, heff⟩
  · exact hfail hok
  · rw [hcall] at heff
    generalize after (dispatch M) s tx = s' at heff
    cases heff with
    | register live uri_ne unregistered =>
      rw [unregistered] at hp
      cases hp
    | view reads => exact reads

/-! ## The chain of controllers -/

/-- A hand-over was signed by the controller it replaced. -/
theorem rotation_signed {tx : Tx A} {c c' : A}
    (h : rotation agent (stepOf (dispatch M) s tx) = some (c, c')) :
    tx.env.signs c = true := by
  have hstep := profileStep_after M s agent tx
  unfold rotation at h
  rw [stepOf_pre] at h
  generalize s.profile agent = p₀ at hstep h
  generalize (after (dispatch M) s tx).profile agent = p₁ at hstep
  generalize action agent (stepOf (dispatch M) s tx) = act at hstep h
  cases hstep with
  | @update p uri newController revision active signed =>
    cases newController with
    | none => cases h
    | some next =>
      cases h
      exact signed
  | idle => cases h
  | register => cases h
  | deactivate => cases h
  | reactivate => cases h

/-- The profile is under the controller that the hand-overs since its
registration lead to; before it, there were none. -/
def Chained (agent : A) (steps : List (Step A)) (s : Store A) : Prop :=
  match s.profile agent with
  | none => rotations agent steps = []
  | some p => ∃ st c, lastWrite (registration agent) steps = some (st, c) ∧
      Linked c (rotations agent steps) p.controller

theorem rotations_concat {steps : List (Step A)} {st : Step A} :
    rotations agent (steps ++ [st]) = rotations agent steps ++ (rotation agent st).toList := by
  unfold rotations
  rw [List.filterMap_append]
  cases hr : rotation agent st with
  | none => simp [hr]
  | some c => simp [hr]

/-- A step that neither registers nor hands over leaves the chain as it is. -/
theorem chained_quiet {steps : List (Step A)} {st : Step A} {c : A}
    (hr : rotation agent st = none) (hw : registration agent st = none)
    (h : ∃ st c₀, lastWrite (registration agent) steps = some (st, c₀) ∧
      Linked c₀ (rotations agent steps) c) :
    ∃ st' c₀, lastWrite (registration agent) (steps ++ [st]) = some (st', c₀) ∧
      Linked c₀ (rotations agent (steps ++ [st])) c := by
  rw [rotations_concat, hr, Option.toList_none, List.append_nil, lastWrite_concat_none hw]
  exact h

theorem chained_step (M : Missing) {steps : List (Step A)} (tx : Tx A)
    (h : Chained agent steps s) :
    Chained agent (steps ++ [stepOf (dispatch M) s tx]) (after (dispatch M) s tx) := by
  have hstep := profileStep_after M s agent tx
  unfold Chained at h ⊢
  generalize hpre : s.profile agent = p₀ at hstep h
  generalize (after (dispatch M) s tx).profile agent = p₁ at hstep ⊢
  generalize hact : action agent (stepOf (dispatch M) s tx) = act at hstep
  cases hstep with
  | idle =>
    have hr : rotation agent (stepOf (dispatch M) s tx) = none := by rw [rotation, hact]
    have hw : registration agent (stepOf (dispatch M) s tx) = none := by rw [registration, hact]
    cases p₀ with
    | none =>
      show rotations agent _ = []
      rw [rotations_concat, hr, Option.toList_none, List.append_nil]
      exact h
    | some p => exact chained_quiet hr hw h
  | @register controller uri signed =>
    have hr : rotation agent (stepOf (dispatch M) s tx) = none := by rw [rotation, hact]
    have hw : registration agent (stepOf (dispatch M) s tx) = some controller := by
      rw [registration, hact]
    -- the chain starts here: there was no hand-over before the registration
    have hnil : rotations agent steps = [] := h
    rw [rotations_concat, hr, hnil]
    exact ⟨_, controller, lastWrite_concat_some hw, rfl⟩
  | @update p uri newController revision active signed =>
    have hw : registration agent (stepOf (dispatch M) s tx) = none := by rw [registration, hact]
    cases newController with
    | none => exact chained_quiet (by rw [rotation, hact]) hw h
    | some next =>
      have hr : rotation agent (stepOf (dispatch M) s tx) = some (p.controller, next) := by
        rw [rotation, hact, stepOf_pre, hpre]
      obtain ⟨st, c, hlast, hlink⟩ := h
      rw [rotations_concat, hr, lastWrite_concat_none hw]
      exact ⟨st, c, hlast, linked_concat.mpr ⟨hlink, rfl⟩⟩
  | deactivate => exact chained_quiet (by rw [rotation, hact]) (by rw [registration, hact]) h
  | reactivate => exact chained_quiet (by rw [rotation, hact]) (by rw [registration, hact]) h

theorem controller_chain (M : Missing) (pin agent : A) (txs : List (Tx A)) :
    Chained agent (trace (dispatch M) (deployed pin) txs) (run (dispatch M) (deployed pin) txs) :=
  trace_invariant (I := fun steps s => Chained agent steps s)
    (fun _ _ tx h => chained_step M tx h) rfl

/-- Only the current controller's signature lets `update_profile` succeed. -/
theorem update_fails {p : AgentProfile A} (hp : s.profile agent = some p) {tx : Tx A}
    {uri : HostString} {newController : Option A}
    (hcall : tx.call = .updateProfile agent uri newController)
    (hout : tx.env.signs p.controller = false) : ¬ (stepOf (dispatch M) s tx).Succeeded := by
  intro hok
  rcases after_cases M s tx with ⟨hfail, _⟩ | ⟨r, evs, _, heff⟩
  · exact hfail hok
  · rw [hcall] at heff
    generalize after (dispatch M) s tx = s' at heff
    cases heff with
    | updateProfile live uri_ne stored active signed =>
      rw [hp] at stored
      cases stored
      rw [hout] at signed
      cases signed
    | view reads => exact reads

/-! ## Stretches -/

/-- With neither the controller's nor the admin's signature, nothing happens to
a stored profile. -/
theorem unsigned_run (M : Missing) {p : AgentProfile A} {a : A} (txs : List (Tx A)) :
    ∀ {s : Store A}, s.initialized.isSome = true → s.admin = some a →
      s.profile agent = some p → Unsigned p.controller txs → Unsigned a txs →
      (run (dispatch M) s txs).profile agent = some p := by
  induction txs with
  | nil =>
    intro s _ _ hp _ _
    exact hp
  | cons tx txs ih =>
    intro s hinit ha hp hcontroller hadmin
    obtain ⟨hinit', ha'⟩ := admin_after M hinit tx
    refine ih hinit' (ha'.trans ha) ?_ (fun t ht => hcontroller t (List.mem_cons_of_mem _ ht))
      fun t ht => hadmin t (List.mem_cons_of_mem _ ht)
    have hc := hcontroller tx (List.mem_cons_self ..)
    have hd := hadmin tx (List.mem_cons_self ..)
    have hstep := profileStep_after M s agent tx
    rw [hp, ha] at hstep
    generalize (after (dispatch M) s tx).profile agent = p₁ at hstep ⊢
    generalize action agent (stepOf (dispatch M) s tx) = act at hstep
    cases hstep with
    | idle => rfl
    | update revision active signed =>
      rw [hc] at signed
      cases signed
    | deactivate revision isAdmin signed =>
      cases isAdmin
      rw [hd] at signed
      cases signed
    | reactivate revision isAdmin signed =>
      cases isAdmin
      rw [hd] at signed
      cases signed

/-- The delegated part of a profile, frozen. -/
structure Frozen (p p' : AgentProfile A) : Prop where
  controller : p'.controller = p.controller
  metadataUri : p'.metadataUri = p.metadataUri
  active : p'.active = false

/-- An inactive profile stays frozen until it is reactivated. -/
theorem frozen_run (M : Missing) {p : AgentProfile A} (txs : List (Tx A)) :
    ∀ {s : Store A} {p₀ : AgentProfile A}, s.profile agent = some p₀ → Frozen p p₀ →
      (∀ st ∈ trace (dispatch M) s txs, action agent st ≠ .reactivate) →
      ∃ p', (run (dispatch M) s txs).profile agent = some p' ∧ Frozen p p' := by
  induction txs with
  | nil =>
    intro s p₀ hp hfrozen _
    exact ⟨p₀, hp, hfrozen⟩
  | cons tx txs ih =>
    intro s p₀ hp hfrozen hno
    rw [trace_cons] at hno
    have hhead := hno _ (List.mem_cons_self ..)
    have htail := fun st hst => hno st (List.mem_cons_of_mem _ hst)
    rw [run_cons]
    have hstep := profileStep_after M s agent tx
    rw [hp] at hstep
    generalize hpost : (after (dispatch M) s tx).profile agent = p₁ at hstep
    generalize action agent (stepOf (dispatch M) s tx) = act at hstep hhead
    cases hstep with
    | idle => exact ih hpost hfrozen htail
    | update revision active signed =>
      rw [hfrozen.active] at active
      cases active
    | deactivate revision isAdmin signed =>
      -- a deactivation touches neither controller nor metadata
      exact ih hpost ⟨hfrozen.controller, hfrozen.metadataUri, rfl⟩ htail
    | reactivate => exact absurd rfl hhead

/-- What a successful `deactivate` leaves: the same controller and metadata,
inactive. -/
theorem deactivate_stores {tx : Tx A} (hcall : tx.call = .deactivate agent)
    (hok : (stepOf (dispatch M) s tx).Succeeded) :
    ∃ p p₀, s.profile agent = some p ∧
      (after (dispatch M) s tx).profile agent = some p₀ ∧ Frozen p p₀ := by
  rcases after_cases M s tx with ⟨hfail, _⟩ | ⟨r, evs, _, heff⟩
  · exact absurd hok hfail
  · rw [hcall] at heff
    generalize after (dispatch M) s tx = s' at heff ⊢
    cases heff with
    | deactivate live isAdmin signed stored =>
      exact ⟨_, _, stored, put_profile_self, rfl, rfl, rfl⟩
    | deactivateInactive live isAdmin signed stored inactive =>
      exact ⟨_, _, stored, stored, rfl, rfl, inactive⟩
    | view reads => exact absurd reads id

/-- A reactivation carries the stored admin's signature. -/
theorem reactivate_signed {txs : List (Tx A)} {st : Step A}
    (hst : st ∈ trace (dispatch M) s txs) (hact : action agent st = .reactivate) :
    ∃ a, st.pre.admin = some a ∧ st.tx.env.signs a = true := by
  obtain ⟨l₁, tx, l₂, _, rfl⟩ := mem_trace.mp hst
  have hstep := profileStep_after M (run (dispatch M) s l₁) agent tx
  rw [hact] at hstep
  generalize (run (dispatch M) s l₁).profile agent = p₀ at hstep
  generalize (after (dispatch M) (run (dispatch M) s l₁) tx).profile agent = p₁ at hstep
  cases hstep with
  | reactivate revision isAdmin signed => exact ⟨_, isAdmin, signed⟩

/-- Signatures other than the controller's touch neither controller nor
metadata. -/
theorem delegation_kept (M : Missing) {p : AgentProfile A} (txs : List (Tx A)) :
    ∀ {s : Store A} {p₀ : AgentProfile A}, s.profile agent = some p₀ →
      p₀.controller = p.controller → p₀.metadataUri = p.metadataUri →
      Unsigned p.controller txs →
      ∃ p', (run (dispatch M) s txs).profile agent = some p' ∧
        p'.controller = p.controller ∧ p'.metadataUri = p.metadataUri := by
  induction txs with
  | nil =>
    intro s p₀ hp hc hm _
    exact ⟨p₀, hp, hc, hm⟩
  | cons tx txs ih =>
    intro s p₀ hp hc hm hout
    have hout₀ := hout tx (List.mem_cons_self ..)
    have htail : Unsigned p.controller txs := fun t ht => hout t (List.mem_cons_of_mem _ ht)
    have hstep := profileStep_after M s agent tx
    rw [hp] at hstep
    rw [run_cons]
    generalize hpost : (after (dispatch M) s tx).profile agent = p₁ at hstep
    generalize action agent (stepOf (dispatch M) s tx) = act at hstep
    cases hstep with
    | idle => exact ih hpost hc hm htail
    | update revision active signed =>
      rw [hc, hout₀] at signed
      cases signed
    | deactivate => exact ih hpost hc hm htail
    | reactivate => exact ih hpost hc hm htail

/-! ## Delegation -/

/-- **Delegation and deactivation**, for every agent at every initialized
reachable state with its history. A profile appears only by the agent
registering it, stays, and cannot be registered again. Its controller is the
last of a chain of signed hand-overs from the one chosen at registration, and
only that controller can update. Without the controller's and the admin's
signatures the profile stays as it is. A deactivated profile stays frozen until
a reactivation, which takes the admin's signature; and where the admin is not
the controller, a run only the admin signs changes neither controller nor
metadata. -/
theorem profile_delegation (M : Missing) (pin : A) (before : List (Tx A)) (agent : A)
    (hinit : (run (dispatch M) (deployed pin) before).initialized.isSome = true) :
    let s := run (dispatch M) (deployed pin) before
    let steps := trace (dispatch M) (deployed pin) before
    (∀ tx : Tx A, s.profile agent = none → (after (dispatch M) s tx).profile agent ≠ none →
      tx.env.signs agent = true ∧ (stepOf (dispatch M) s tx).Succeeded ∧
        ∃ controller uri, tx.call = .register agent controller uri) ∧
    (∀ p, s.profile agent = some p → ∀ txs,
      ((run (dispatch M) s txs).profile agent).isSome = true ∧
      ∀ st ∈ trace (dispatch M) s txs, ∀ controller uri,
        st.tx.call = .register agent controller uri → ¬ st.Succeeded) ∧
    (∀ p, s.profile agent = some p →
      (∃ st c, lastWrite (registration agent) steps = some (st, c) ∧
        Linked c (rotations agent steps) p.controller) ∧
      (∀ st ∈ steps, ∀ c c', rotation agent st = some (c, c') → st.tx.env.signs c = true) ∧
      ∀ (tx : Tx A) uri newController, tx.call = .updateProfile agent uri newController →
        tx.env.signs p.controller = false → ¬ (stepOf (dispatch M) s tx).Succeeded) ∧
    (∀ p a txs, s.profile agent = some p → s.admin = some a → Unsigned p.controller txs →
      Unsigned a txs → (run (dispatch M) s txs).profile agent = some p) ∧
    (∀ tx : Tx A, tx.call = .deactivate agent → (stepOf (dispatch M) s tx).Succeeded →
      ∃ p, s.profile agent = some p ∧ ∀ txs,
        (∀ st ∈ trace (dispatch M) (after (dispatch M) s tx) txs,
          action agent st ≠ .reactivate) →
        ∃ p', (run (dispatch M) (after (dispatch M) s tx) txs).profile agent = some p' ∧
          Frozen p p') ∧
    (∀ txs, ∀ st ∈ trace (dispatch M) s txs, action agent st = .reactivate →
      ∃ a, st.pre.admin = some a ∧ st.tx.env.signs a = true) ∧
    (∀ p txs, s.profile agent = some p → s.admin ≠ some p.controller →
      (∀ tx ∈ txs, ∀ b, tx.env.signs b = true → s.admin = some b) →
      ∃ p', (run (dispatch M) s txs).profile agent = some p' ∧
        p'.controller = p.controller ∧ p'.metadataUri = p.metadataUri) := by
  intro s steps
  refine ⟨?_, ?_, ?_, ?_, ?_, ?_, ?_⟩
  · intro tx hnone hsome
    obtain ⟨hs, controller, uri, hact⟩ := register_of_appears hnone hsome
    obtain ⟨hok, hcall⟩ := call_of_register hact
    exact ⟨hs, hok, controller, uri, hcall⟩
  · intro p hp txs
    have hreg : (s.profile agent).isSome = true := by rw [hp]; rfl
    refine ⟨registered_run M hreg txs, ?_⟩
    intro st hst controller uri hcall
    obtain ⟨l₁, tx, l₂, _, rfl⟩ := mem_trace.mp hst
    exact register_fails (registered_run M hreg l₁) hcall
  · intro p hp
    have hchain := controller_chain M pin agent before
    have hp' : (run (dispatch M) (deployed pin) before).profile agent = some p := hp
    rw [Chained, hp'] at hchain
    refine ⟨hchain, ?_, fun tx uri newController hcall hout => update_fails hp hcall hout⟩
    intro st hst c c' hr
    obtain ⟨l₁, tx, l₂, _, rfl⟩ := mem_trace.mp hst
    exact rotation_signed hr
  · intro p a txs hp ha hcontroller hadmin
    exact unsigned_run M txs hinit ha hp hcontroller hadmin
  · intro tx hcall hok
    obtain ⟨p, p₀, hp, hp₀, hfrozen⟩ := deactivate_stores hcall hok
    exact ⟨p, hp, fun txs hno => frozen_run M txs hp₀ hfrozen hno⟩
  · intro txs st hst hact
    exact reactivate_signed hst hact
  · intro p txs hp hne honly
    refine delegation_kept M txs hp rfl rfl ?_
    intro tx htx
    cases hs : tx.env.signs p.controller with
    | false => rfl
    | true => exact absurd (honly tx htx _ hs) hne

end Steps

/-- After 3 handed the profile of 1 over to 4, the chain ends at 4. -/
theorem profile_delegation_sample :
    ∃ st c, lastWrite (registration 1) (trace (dispatch .documented) (deployed 0)
        [Sample.initializeTx, Sample.registerTx, Sample.rotateTx]) = some (st, c) ∧
      Linked c (rotations 1 (trace (dispatch .documented) (deployed 0)
        [Sample.initializeTx, Sample.registerTx, Sample.rotateTx])) 4 := by
  have h := profile_delegation .documented 0
    [Sample.initializeTx, Sample.registerTx, Sample.rotateTx] 1 (by decide +kernel)
  exact (h.2.2.1 ⟨4, Sample.uri, true, 1⟩ (by decide +kernel)).1

end LilyContracts.Identity
