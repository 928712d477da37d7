import LilyContracts.Identity.Delegation
import LilyContracts.Host.History

/-!
# The revision of a profile is a version stamp

Three mutators advance a profile's revision, by two mechanisms: `update_profile`
and `deactivate` go through `checked_inc`, `reactivate` uses `+= 1`, and
`deactivate` returns early on a profile that is inactive already. A step
`advances` a profile when it is one of those three and got that far.

`RevisionStep` says what one call does to a profile and its revision, and
`stamped` is the step law: a step that advances adds one, any other leaves the
profile as it is. Over runs it gives `revision_stamp`: the revision counts the
advances since registration, it never decreases, at `u64::MAX` a further advance
fails, and two moments of a run with the same revision have the same profile, in
spite of deactivations and reactivations that lead back to where they started.
-/

namespace LilyContracts.Identity

open Host

variable {A : Type}

/-! ## The steps that count -/

/-- The action advances the revision of a profile in state `p`. -/
def Action.advances (p : Option (AgentProfile A)) : Action A → Bool
  | .update _ _ => true
  | .deactivate => p.any (·.active)
  | .reactivate => true
  | .register _ _ | .idle => false

/-- What an action does to a profile, as far as its revision goes. -/
inductive RevisionStep :
    Option (AgentProfile A) → Action A → Option (AgentProfile A) → Prop
  | still {p : Option (AgentProfile A)} {act : Action A} (uncounted : act.advances p = false) :
      RevisionStep p act p
  | register {p' : AgentProfile A} {controller : A} {uri : HostString} :
      RevisionStep none (.register controller uri) (some p')
  | advance {p p' : AgentProfile A} {act : Action A} (counts : act.advances (some p) = true)
      (inc : p'.revision.toNat = p.revision.toNat + 1) : RevisionStep (some p) act (some p')

section Reading

variable [DecidableEq A]

/-- The step advances `agent`'s revision: a successful `update_profile`, a
successful `deactivate` that found the profile active, or a successful
`reactivate`. -/
def advances (agent : A) (st : Step A) : Bool :=
  (action agent st).advances (st.pre.profile agent)

/-- How often a history advances `agent`'s revision. -/
def advanceCount (agent : A) (steps : List (Step A)) : Nat :=
  steps.countP (advances agent)

/-! ## The step law -/

/-- **One step**, seen from one agent's profile. -/
theorem revisionStep_after {M : Missing} (hM : M.ChecksInc) (s : Store A) (agent : A)
    (tx : Tx A) :
    RevisionStep (s.profile agent) (action agent (stepOf (dispatch M) s tx))
      ((after (dispatch M) s tx).profile agent) := by
  rcases after_cases M s tx with ⟨hfail, heq⟩ | ⟨r, evs, hr, heff⟩
  · rw [heq, action, if_neg hfail]
    exact .still rfl
  · rw [action, if_pos ⟨r, hr⟩, stepOf_tx]
    generalize tx.call = c at heff
    generalize after (dispatch M) s tx = s' at heff ⊢
    cases heff with
    | initializeContract => exact .still rfl
    | @register a controller uri live uri_ne unregistered =>
      refine put_slot (R := fun _ => RevisionStep) (fun _ _ => .still rfl) ?_
      rw [unregistered]
      exact .register
    | @updateProfile a uri newController p revision live uri_ne stored active signed inc =>
      refine put_slot (R := fun _ => RevisionStep) (fun _ _ => .still rfl) ?_
      rw [stored]
      exact .advance rfl (hM.toNat_eq inc)
    | @deactivate admin a p revision live isAdmin signed stored active inc =>
      refine put_slot (R := fun _ => RevisionStep) (fun _ _ => .still rfl) ?_
      rw [stored]
      exact .advance active (hM.toNat_eq inc)
    | @deactivateInactive admin a p live isAdmin signed stored inactive =>
      -- the early return: nothing is written, and the step does not count
      refine .still ?_
      by_cases ha : a = agent
      · subst ha
        rw [Call.action, if_pos rfl, stored]
        exact inactive
      · rw [Call.action, if_neg ha]
        rfl
    | @reactivate admin a p live isAdmin signed stored inc =>
      refine put_slot (R := fun _ => RevisionStep) (fun _ _ => .still rfl) ?_
      rw [stored]
      exact .advance rfl (toNat_add_one inc)
    | view reads =>
      rw [action_of_view reads]
      exact .still rfl

/-- **The revision is a stamp**: a step adds one to it and counts, or leaves the
whole profile alone and does not. -/
theorem stamped {M : Missing} (hM : M.ChecksInc) (agent : A) :
    Stamped (dispatch M) (fun s => s.profile agent) (fun p => p.revision.toNat)
      (advances agent) := by
  intro s p hp tx
  have hstep := revisionStep_after hM s agent tx
  replace hp : s.profile agent = some p := hp
  unfold advances
  rw [stepOf_pre, hp]
  rw [hp] at hstep
  dsimp only
  generalize (after (dispatch M) s tx).profile agent = p₁ at hstep ⊢
  generalize action agent (stepOf (dispatch M) s tx) = act at hstep ⊢
  cases hstep with
  | still uncounted => exact .inl ⟨uncounted, rfl⟩
  | advance counts inc => exact .inr ⟨counts, _, rfl, inc⟩

/-! ## Registration starts the count -/

variable {M : Missing} {s : Store A} {agent : A}

/-- A step that registers leaves a profile with revision 0. -/
theorem revision_of_registration {tx : Tx A} {c : A}
    (h : registration agent (stepOf (dispatch M) s tx) = some c) :
    ∃ p, (after (dispatch M) s tx).profile agent = some p ∧ p.revision.toNat = 0 := by
  have hstep := profileStep_after M s agent tx
  unfold registration at h
  generalize s.profile agent = p₀ at hstep
  generalize (after (dispatch M) s tx).profile agent = p₁ at hstep ⊢
  generalize action agent (stepOf (dispatch M) s tx) = act at hstep h
  cases hstep with
  | register signed => exact ⟨_, rfl, rfl⟩
  | idle => cases h
  | update => cases h
  | deactivate => cases h
  | reactivate => cases h

/-- A profile that a run leaves where there was none was registered in it. -/
theorem registration_of_stored (txs : List (Tx A)) :
    ∀ {s : Store A} {p : AgentProfile A}, s.profile agent = none →
      (run (dispatch M) s txs).profile agent = some p →
      ∃ l₁ tx l₂ c, txs = l₁ ++ tx :: l₂ ∧
        registration agent (stepOf (dispatch M) (run (dispatch M) s l₁) tx) = some c := by
  induction txs with
  | nil =>
    intro s p hnone hsome
    rw [run_nil, hnone] at hsome
    cases hsome
  | cons tx txs ih =>
    intro s p hnone hsome
    cases hfirst : (after (dispatch M) s tx).profile agent with
    | none =>
      obtain ⟨l₁, tx', l₂, c, heq, hreg⟩ := ih hfirst hsome
      exact ⟨tx :: l₁, tx', l₂, c, by rw [heq]; rfl, hreg⟩
    | some q =>
      obtain ⟨_, c, uri, hact⟩ := register_of_appears hnone (by rw [hfirst]; nofun)
      refine ⟨[], tx, txs, c, rfl, ?_⟩
      rw [run_nil, registration, hact]

/-- At `u64::MAX` a call that would advance the revision fails. -/
theorem advance_fails (hM : M.ChecksInc) {p : AgentProfile A} (hp : s.profile agent = some p)
    (hmax : p.revision.toNat + 1 = 2 ^ 64) {tx : Tx A}
    (hcall : (tx.call.action agent).advances (some p) = true) :
    ¬ (stepOf (dispatch M) s tx).Succeeded := by
  intro hok
  have hstep := revisionStep_after hM s agent tx
  rw [hp, action, if_pos hok, stepOf_tx] at hstep
  generalize (after (dispatch M) s tx).profile agent = p₁ at hstep
  generalize tx.call.action agent = act at hstep hcall
  cases hstep with
  | still uncounted =>
    rw [hcall] at uncounted
    cases uncounted
  | @advance _ p' _ _ inc =>
    -- the revision it would have written does not fit
    have hlt := p'.revision.toNat_lt
    omega

/-! ## The stamp -/

/-- What the revision of `agent`'s profile tells along a run of the deployed
contract. A moment of the run is a prefix of it. -/
structure VersionStamp (M : Missing) (pin : A) (txs : List (Tx A)) (agent : A) : Prop where
  /-- A stored profile was registered in the run. -/
  registered : ∀ p, (run (dispatch M) (deployed pin) txs).profile agent = some p →
    ∃ l₁ tx l₂ c, txs = l₁ ++ tx :: l₂ ∧
      registration agent (stepOf (dispatch M) (run (dispatch M) (deployed pin) l₁) tx) = some c
  /-- From its registration on, the revision is the number of advances. -/
  counts : ∀ l₁ tx l₂ c, txs = l₁ ++ tx :: l₂ →
    registration agent (stepOf (dispatch M) (run (dispatch M) (deployed pin) l₁) tx) = some c →
    ∃ p, (run (dispatch M) (deployed pin) txs).profile agent = some p ∧
      p.revision.toNat = advanceCount agent
        (trace (dispatch M) (run (dispatch M) (deployed pin) (l₁ ++ [tx])) l₂)
  /-- It never decreases. -/
  grows : ∀ l₁ l₂, l₁ <+: l₂ → l₂ <+: txs → ∀ p,
    (run (dispatch M) (deployed pin) l₁).profile agent = some p →
    ∃ p', (run (dispatch M) (deployed pin) l₂).profile agent = some p' ∧
      p.revision ≤ p'.revision
  /-- It never wraps: a call that would advance it past `u64::MAX` fails. -/
  stops : ∀ l, l <+: txs → ∀ p,
    (run (dispatch M) (deployed pin) l).profile agent = some p → p.revision.toNat + 1 = 2 ^ 64 →
    ∀ tx, (tx.call.action agent).advances (some p) = true →
      ¬ (stepOf (dispatch M) (run (dispatch M) (deployed pin) l) tx).Succeeded ∧
      (after (dispatch M) (run (dispatch M) (deployed pin) l) tx).profile agent = some p
  /-- Equal revisions at two moments mean equal profiles. -/
  faithful : ∀ l₁ l₂, l₁ <+: txs → l₂ <+: txs → ∀ p p',
    (run (dispatch M) (deployed pin) l₁).profile agent = some p →
    (run (dispatch M) (deployed pin) l₂).profile agent = some p' →
    p.revision = p'.revision → p = p'

/-- Two moments of which the first is the earlier one. -/
private theorem faithful_between (hM : M.ChecksInc) {pin : A} {l₁ l₂ : List (Tx A)}
    (hle : l₁ <+: l₂) {p p' : AgentProfile A}
    (hp : (run (dispatch M) (deployed pin) l₁).profile agent = some p)
    (hp' : (run (dispatch M) (deployed pin) l₂).profile agent = some p')
    (hrev : p.revision = p'.revision) : p = p' := by
  obtain ⟨l, rfl⟩ := hle
  rw [run_append] at hp'
  exact (stamp_faithful (stamped hM agent) hp hp' (congrArg UInt64.toNat hrev.symm)).symm

/-- **The revision is a faithful version stamp**, of every agent's profile along
every run of the deployed contract. -/
theorem revision_stamp (hM : M.ChecksInc) (pin : A) (txs : List (Tx A)) (agent : A) :
    VersionStamp M pin txs agent := by
  refine ⟨?_, ?_, ?_, ?_, ?_⟩
  · intro p hp
    exact registration_of_stored txs rfl hp
  · intro l₁ tx l₂ c htxs hreg
    obtain ⟨p₀, hp₀, hzero⟩ := revision_of_registration hreg
    obtain ⟨p, hp, hcount, _⟩ := stamp_run (stamped hM agent) l₂ hp₀
    refine ⟨p, ?_, ?_⟩
    · rw [htxs, run_append, run_cons]
      exact hp
    · rw [run_concat, advanceCount]
      omega
  · intro l₁ l₂ hle _ p hp
    obtain ⟨l, rfl⟩ := hle
    obtain ⟨p', hp', hcount, _⟩ := stamp_run (stamped hM agent) l hp
    refine ⟨p', ?_, ?_⟩
    · rw [run_append]
      exact hp'
    · rw [UInt64.le_iff_toNat_le]
      omega
  · intro l _ p hp hmax tx hcall
    have hfail := advance_fails hM hp hmax hcall
    refine ⟨hfail, ?_⟩
    rw [after_of_not_succeeded hfail]
    exact hp
  · intro l₁ l₂ h₁ h₂ p p' hp hp' hrev
    -- of two prefixes of one run, one is the earlier
    rcases List.prefix_or_prefix_of_prefix h₁ h₂ with hle | hle
    · exact faithful_between hM hle hp hp' hrev
    · exact (faithful_between hM hle hp' hp hrev.symm).symm

end Reading

/-- A rotation after the registration is the one advance of the run. -/
theorem revision_stamp_sample :
    ∃ p, (run (dispatch .documented) (deployed 0)
        [Sample.initializeTx, Sample.registerTx, Sample.rotateTx]).profile 1 = some p ∧
      p.revision.toNat = advanceCount 1 (trace (dispatch .documented)
        (run (dispatch .documented) (deployed 0) [Sample.initializeTx, Sample.registerTx])
        [Sample.rotateTx]) :=
  (revision_stamp Missing.documented_checksInc 0
    [Sample.initializeTx, Sample.registerTx, Sample.rotateTx] 1).counts
      [Sample.initializeTx] Sample.registerTx [Sample.rotateTx] 3 rfl (by decide +kernel)

end LilyContracts.Identity
