import LilyContracts.Identity.Effects

/-!
# What the events of a call say about a profile

An indexer that follows events instead of polling storage relies on a two-way law:
a call that changes an agent's profile publishes an event that names the agent, and
an event that names the agent comes from such a call. Identity keeps it but for one
kind of call. `update_profile` publishes one event for each of the two fields it
changed, so an update that names the metadata and the controller stored already
publishes nothing, and still it moves the revision (`not_noSilentChange`).

`effect_writes` says what a successful call does to the profiles and how its events
relate to that; `changes_announced` is the law with the exception in it, together
with what each event carries.
-/

namespace LilyContracts.Identity

open Host

variable {A : Type}

/-! ## What an event is about -/

/-- The address among an event's topics. -/
def Event.topic : Event A → A
  | .init admin _ => admin
  | .register agent _ => agent
  | .metadataUpdated agent _ => agent
  | .controllerRotated agent _ => agent
  | .deact agent _ => agent
  | .react agent _ => agent

/-- The call is an `update_profile` for `agent` that names the metadata and the
controller its profile `p` holds already. -/
def Call.Repeats (agent : A) (p : Option (AgentProfile A)) : Call A → Prop
  | .updateProfile a uri newController =>
    a = agent ∧ ∃ q, p = some q ∧ uri = q.metadataUri ∧
      newController.getD q.controller = q.controller
  | _ => False

theorem not_repeats_of_view {agent : A} {p : Option (AgentProfile A)} {c : Call A}
    (reads : c.IsView) : ¬ c.Repeats agent p := by
  cases c with
  | updateProfile => exact absurd reads id
  | _ => exact id

/-- The only call that repeats what is stored is an update. -/
theorem updateProfile_of_repeats {agent : A} {p : Option (AgentProfile A)} {c : Call A}
    (h : c.Repeats agent p) :
    ∃ q newController, p = some q ∧ c = .updateProfile agent q.metadataUri newController ∧
      newController.getD q.controller = q.controller := by
  cases c with
  | updateProfile a uri newController =>
    obtain ⟨rfl, q, hq, rfl, hc⟩ := h
    exact ⟨q, newController, hq, rfl, hc⟩
  | _ => exact h.elim

section Events

variable [DecidableEq A] {agent : A} {p : AgentProfile A} {uri : HostString}
  {newController : Option A} {ev : Event A}

/-- The events of an update are one for each of the two fields that changed, and
carry what was stored. -/
theorem mem_updateEvents (revision : UInt64) :
    ev ∈ p.updateEvents agent uri newController ↔
      ((p.update uri newController revision).metadataUri ≠ p.metadataUri ∧
        ev = .metadataUpdated agent (p.update uri newController revision).metadataUri) ∨
      ((p.update uri newController revision).controller ≠ p.controller ∧
        ev = .controllerRotated agent (p.update uri newController revision).controller) := by
  have hany : (newController.any fun next => next ≠ p.controller) = true ↔
      newController.getD p.controller ≠ p.controller := by
    cases newController with
    | none => simp
    | some next => simp
  unfold AgentProfile.updateEvents AgentProfile.update
  rw [List.mem_append]
  refine or_congr ?_ ?_
  · by_cases hu : p.metadataUri = uri
    · rw [if_neg (not_not.mpr hu)]
      simp [hu]
    · rw [if_pos hu, List.mem_singleton]
      simp [Ne.symm hu]
  · by_cases hc : newController.getD p.controller = p.controller
    · rw [if_neg (fun h => hany.mp h hc)]
      simp [hc]
    · rw [if_pos (hany.mpr hc), List.mem_singleton]
      simp [hc]

theorem topic_of_mem_updateEvents (h : ev ∈ p.updateEvents agent uri newController) :
    ev.topic = agent := by
  rcases (mem_updateEvents 0).mp h with ⟨_, rfl⟩ | ⟨_, rfl⟩
  · rfl
  · rfl

/-- An update publishes nothing exactly when it repeats what is stored. -/
theorem updateEvents_eq_nil :
    p.updateEvents agent uri newController = [] ↔
      uri = p.metadataUri ∧ newController.getD p.controller = p.controller := by
  rw [List.eq_nil_iff_forall_not_mem]
  constructor
  · intro h
    refine ⟨?_, ?_⟩
    · by_contra hu
      exact h _ ((mem_updateEvents 0).mpr (.inl ⟨hu, rfl⟩))
    · by_contra hc
      exact h _ ((mem_updateEvents 0).mpr (.inr ⟨hc, rfl⟩))
  · intro h ev hev
    obtain ⟨hu, hc⟩ := h
    rcases (mem_updateEvents 0).mp hev with ⟨hne, _⟩ | ⟨hne, _⟩
    · exact hne hu
    · exact hne hc

end Events

/-! ## What a successful call writes -/

section Steps

variable [DecidableEq A] {M : Missing} {s s' : Store A} {c : Call A} {r : Ret A}
  {evs : List (Event A)} {agent : A} {env : Env A Empty ProtocolError}

/-- The call leaves `p'` as the profile of `a`, which is a change, and publishes
`evs`: events that name `a`, and none just when it repeats what is stored. -/
structure Writes (s : Store A) (c : Call A) (evs : List (Event A)) (a : A)
    (p' : AgentProfile A) : Prop where
  changed : s.profile a ≠ some p'
  named : ∀ ev ∈ evs, ev.topic = a
  silent : evs = [] ↔ c.Repeats a (s.profile a)
  only : ∀ agent, c.Repeats agent (s.profile agent) → a = agent

omit [DecidableEq A] in
/-- A profile one revision on is another profile. -/
theorem ne_of_next_revision {p p' : AgentProfile A}
    (hrev : p'.revision.toNat = p.revision.toNat + 1) : some p ≠ some p' := by
  intro he
  have hp : p = p' := Option.some.inj he
  rw [hp] at hrev
  omega

omit [DecidableEq A] in
/-- A call that repeats nothing announces its write with one event. -/
theorem Writes.single {a : A} {p' : AgentProfile A} {ev : Event A}
    (changed : s.profile a ≠ some p') (topic : ev.topic = a)
    (fresh : ∀ agent p, ¬ c.Repeats agent p) : Writes s c [ev] a p' where
  changed := changed
  named := by
    intro e he
    rw [List.mem_singleton.mp he]
    exact topic
  silent := ⟨nofun, fun hrep => absurd hrep (fresh _ _)⟩
  only _ hrep := absurd hrep (fresh _ _)

/-- **What a successful call writes**, on an initialized contract: nothing, and
then it publishes nothing either, or one profile. -/
theorem effect_writes (hM : M.ChecksInc) (live : s.initialized.isSome = true)
    (h : Effect M env s c r s' evs) :
    (s' = s ∧ evs = [] ∧ ∀ agent, ¬ c.Repeats agent (s.profile agent)) ∨
    ∃ a p', s' = s.put a p' ∧ Writes s c evs a p' := by
  cases h with
  | initializeContract signed fresh =>
    rw [fresh] at live
    cases live
  | register _ uri_ne unregistered signed =>
    refine .inr ⟨_, _, rfl, .single ?_ rfl fun _ _ => id⟩
    rw [unregistered]
    nofun
  | @updateProfile a uri newController p revision _ uri_ne stored active signed inc =>
    refine .inr ⟨a, _, rfl, ?_, ?_, ?_, ?_⟩
    · rw [stored]
      exact ne_of_next_revision (hM.toNat_eq inc)
    · intro ev hev
      exact topic_of_mem_updateEvents hev
    · rw [updateEvents_eq_nil, stored]
      constructor
      · intro hrep
        exact ⟨rfl, p, rfl, hrep⟩
      · intro hrep
        obtain ⟨_, q, hq, hrep⟩ := hrep
        obtain rfl : p = q := Option.some.inj hq
        exact hrep
    · intro agent hrep
      exact hrep.1
  | deactivate _ isAdmin signed stored active inc =>
    refine .inr ⟨_, _, rfl, .single ?_ rfl fun _ _ => id⟩
    rw [stored]
    exact ne_of_next_revision (hM.toNat_eq inc)
  | deactivateInactive => exact .inl ⟨rfl, rfl, fun _ => id⟩
  | reactivate _ isAdmin signed stored inc =>
    refine .inr ⟨_, _, rfl, .single ?_ rfl fun _ _ => id⟩
    rw [stored]
    exact ne_of_next_revision (toNat_add_one inc)
  | view reads => exact .inl ⟨rfl, rfl, fun _ => not_repeats_of_view reads⟩

/-- A profile differs after a write just when it is the one written, and so just
when an event names it or the call repeats it. -/
theorem Writes.differs_iff {a : A} {p' : AgentProfile A} (h : Writes s c evs a p') :
    (s.put a p').profile agent ≠ s.profile agent ↔
      (∃ ev ∈ evs, ev.topic = agent) ∨ c.Repeats agent (s.profile agent) := by
  by_cases ha : a = agent
  · subst ha
    rw [put_profile_self]
    refine ⟨fun _ => ?_, fun _ => h.changed.symm⟩
    cases hevs : evs with
    | nil => exact .inr (h.silent.mp hevs)
    | cons ev rest =>
      left
      refine ⟨ev, List.mem_cons_self .., h.named ev ?_⟩
      rw [hevs]
      exact List.mem_cons_self ..
  · rw [put_profile_of_ne (fun he => ha he.symm)]
    refine ⟨fun hne => absurd rfl hne, fun hor => ?_⟩
    rcases hor with ⟨ev, hev, htopic⟩ | hrep
    · exact absurd ((h.named ev hev).symm.trans htopic) ha
    · exact absurd (h.only agent hrep) ha

/-! ## What each kind of call stores and announces -/

/-- What a successful update does: it writes the update of the stored profile. -/
theorem effect_updateProfile {uri : HostString} {newController : Option A} (hM : M.ChecksInc)
    (h : Effect M env s (.updateProfile agent uri newController) r s' evs) :
    ∃ p revision, s.profile agent = some p ∧
      s'.profile agent = some (p.update uri newController revision) ∧
      revision.toNat = p.revision.toNat + 1 ∧ evs = p.updateEvents agent uri newController := by
  cases h with
  | updateProfile _ uri_ne stored active signed inc =>
    exact ⟨_, _, stored, put_profile_self, hM.toNat_eq inc, rfl⟩
  | view reads => exact absurd reads id

theorem effect_register {controller : A} {uri : HostString}
    (h : Effect M env s (.register agent controller uri) r s' evs) :
    s.profile agent = none ∧
      ∃ p', s'.profile agent = some p' ∧ evs = [.register agent p'] := by
  cases h with
  | register _ uri_ne unregistered signed => exact ⟨unregistered, _, put_profile_self, rfl⟩
  | view reads => exact absurd reads id

theorem effect_deactivate (h : Effect M env s (.deactivate agent) r s' evs) :
    ∃ p, s.profile agent = some p ∧
      ((p.active = true ∧ ∃ p', s'.profile agent = some p' ∧ evs = [.deact agent p']) ∨
        (p.active = false ∧ s'.profile agent = some p ∧ evs = [])) := by
  cases h with
  | deactivate _ isAdmin signed stored active inc =>
    exact ⟨_, stored, .inl ⟨active, _, put_profile_self, rfl⟩⟩
  | deactivateInactive _ isAdmin signed stored inactive =>
    exact ⟨_, stored, .inr ⟨inactive, stored, rfl⟩⟩
  | view reads => exact absurd reads id

theorem effect_reactivate (h : Effect M env s (.reactivate agent) r s' evs) :
    ∃ p', s'.profile agent = some p' ∧ evs = [.react agent p'] := by
  cases h with
  | reactivate _ isAdmin signed stored inc => exact ⟨_, put_profile_self, rfl⟩
  | view reads => exact absurd reads id

/-- How the profile of `agent` changed in a step, and what the step's events say
about it. -/
structure Announced (agent : A) (st : Step A) : Prop where
  /-- The profile differs after the call exactly when the call succeeded and either published an
  event that names the agent, or was an update repeating what the profile held. -/
  differs : st.post.profile agent ≠ st.pre.profile agent ↔
    st.Succeeded ∧ ((∃ ev ∈ st.out.events, ev.topic = agent) ∨
      st.tx.call.Repeats agent (st.pre.profile agent))
  /-- Such an update moves the revision by one and nothing else, and publishes nothing. -/
  repeated : st.Succeeded → st.tx.call.Repeats agent (st.pre.profile agent) →
    st.out.events = [] ∧ ∃ p revision, st.pre.profile agent = some p ∧
      st.post.profile agent = some { p with revision } ∧ revision.toNat = p.revision.toNat + 1
  /-- An update publishes `metadata_updated` exactly when the metadata changed and
  `controller_rotated` exactly when the controller did, each with the new stored value, and
  nothing else. -/
  updated : ∀ uri newController, st.Succeeded →
    st.tx.call = .updateProfile agent uri newController →
    ∃ p p', st.pre.profile agent = some p ∧ st.post.profile agent = some p' ∧
      ∀ ev, ev ∈ st.out.events ↔
        (p'.metadataUri ≠ p.metadataUri ∧ ev = .metadataUpdated agent p'.metadataUri) ∨
        (p'.controller ≠ p.controller ∧ ev = .controllerRotated agent p'.controller)
  /-- A registration publishes the full new profile. -/
  registered : ∀ controller uri, st.Succeeded → st.tx.call = .register agent controller uri →
    st.pre.profile agent = none ∧
      ∃ p', st.post.profile agent = some p' ∧ st.out.events = [.register agent p']
  /-- A deactivation publishes the full new profile, or has changed nothing and publishes
  nothing. -/
  deactivated : st.Succeeded → st.tx.call = .deactivate agent →
    ∃ p, st.pre.profile agent = some p ∧
      ((p.active = true ∧
          ∃ p', st.post.profile agent = some p' ∧ st.out.events = [.deact agent p']) ∨
        (p.active = false ∧ st.post.profile agent = some p ∧ st.out.events = []))
  /-- A reactivation publishes the full new profile. -/
  reactivated : st.Succeeded → st.tx.call = .reactivate agent →
    ∃ p', st.post.profile agent = some p' ∧ st.out.events = [.react agent p']

omit [DecidableEq A] in
/-- A step whose call failed changes and announces nothing. -/
theorem announced_of_failed {st : Step A} (hfail : ¬ st.Succeeded) (heq : st.post = st.pre) :
    Announced agent st where
  differs := by
    rw [heq]
    exact ⟨fun hne => absurd rfl hne, fun h => absurd h.1 hfail⟩
  repeated h := absurd h hfail
  updated _ _ h := absurd h hfail
  registered _ _ h := absurd h hfail
  deactivated h := absurd h hfail
  reactivated h := absurd h hfail

/-- A step whose call succeeded, told by its effect. -/
theorem announced_of_effect (hM : M.ChecksInc) {st : Step A} (hok : st.Succeeded)
    (live : st.pre.initialized.isSome = true)
    (heff : Effect M env st.pre st.tx.call r st.post st.out.events) : Announced agent st := by
  refine ⟨?_, ?_, ?_, ?_, ?_, ?_⟩
  · rw [and_iff_right hok]
    rcases effect_writes hM live heff with ⟨heq, hnil, hno⟩ | ⟨a, p', heq, hwrites⟩
    · rw [heq, hnil]
      simp [hno agent]
    · rw [heq]
      exact hwrites.differs_iff
  · intro _ hrep
    obtain ⟨q, newController, hq, hcall, hc⟩ := updateProfile_of_repeats hrep
    rw [hcall] at heff
    obtain ⟨p, revision, hp, hp', hrev, hevs⟩ := effect_updateProfile hM heff
    obtain rfl : q = p := Option.some.inj (hq.symm.trans hp)
    refine ⟨hevs.trans (updateEvents_eq_nil.mpr ⟨rfl, hc⟩), q, revision, hp, ?_, hrev⟩
    rw [hp', AgentProfile.update, hc]
  · intro uri newController _ hcall
    rw [hcall] at heff
    obtain ⟨p, revision, hp, hp', _, hevs⟩ := effect_updateProfile hM heff
    refine ⟨p, _, hp, hp', ?_⟩
    intro ev
    rw [hevs]
    exact mem_updateEvents revision
  · intro controller uri _ hcall
    rw [hcall] at heff
    exact effect_register heff
  · intro _ hcall
    rw [hcall] at heff
    exact effect_deactivate heff
  · intro _ hcall
    rw [hcall] at heff
    exact effect_reactivate heff

end Steps

section Reachable

variable [DecidableEq A]

/-- The two-way law with no exception: at every reachable initialized state a call
changes an agent's profile exactly when it succeeds and publishes an event that
names the agent. -/
def NoSilentChange (M : Missing) (pin : A) : Prop :=
  ∀ (before : List (Tx A)) (tx : Tx A) (agent : A),
    (run (dispatch M) (deployed pin) before).initialized.isSome = true →
    ((after (dispatch M) (run (dispatch M) (deployed pin) before) tx).profile agent ≠
        (run (dispatch M) (deployed pin) before).profile agent ↔
      (stepOf (dispatch M) (run (dispatch M) (deployed pin) before) tx).Succeeded ∧
        ∃ ev ∈ (stepOf (dispatch M) (run (dispatch M) (deployed pin) before) tx).out.events,
          ev.topic = agent)

/-- **No silent change but a repeated update.** At every reachable initialized
state, for every call and every agent, the events say how the profile changed;
only an update that repeats what the profile holds is not announced, and it moves
the revision alone. -/
theorem changes_announced {M : Missing} (hM : M.ChecksInc) (pin : A) (before : List (Tx A))
    (live : (run (dispatch M) (deployed pin) before).initialized.isSome = true) (tx : Tx A)
    (agent : A) :
    Announced agent (stepOf (dispatch M) (run (dispatch M) (deployed pin) before) tx) := by
  generalize run (dispatch M) (deployed pin) before = s at live ⊢
  rcases stepOf_publishes effect_of_exec s tx with ⟨hfail, heq, _⟩ | ⟨r, hr, heff⟩
  · exact announced_of_failed hfail heq
  · exact announced_of_effect hM ⟨r, hr⟩ live heff

end Reachable

namespace Sample

/-- The controller updates the profile to the metadata it holds already. -/
def repeatTx : Tx Nat := tx [3] (.updateProfile 1 uri none)

end Sample

/-- A rotation is announced as one. -/
theorem changes_announced_sample :
    ∃ p p', (run (dispatch .documented) (deployed 0)
        [Sample.initializeTx, Sample.registerTx]).profile 1 = some p ∧
      (after (dispatch .documented) (run (dispatch .documented) (deployed 0)
        [Sample.initializeTx, Sample.registerTx]) Sample.rotateTx).profile 1 = some p' ∧
      ∀ ev, ev ∈ (stepOf (dispatch .documented) (run (dispatch .documented) (deployed 0)
          [Sample.initializeTx, Sample.registerTx]) Sample.rotateTx).out.events ↔
        (p'.metadataUri ≠ p.metadataUri ∧ ev = .metadataUpdated 1 p'.metadataUri) ∨
        (p'.controller ≠ p.controller ∧ ev = .controllerRotated 1 p'.controller) :=
  (changes_announced Missing.documented_checksInc 0 [Sample.initializeTx, Sample.registerTx]
    (by decide +kernel) Sample.rotateTx 1).updated Sample.uri (some 4)
      ⟨.unit, by decide +kernel⟩ rfl

/-- An update to the metadata stored already changes the profile, its revision
going from 0 to 1, and publishes nothing. -/
theorem not_noSilentChange : ¬ NoSilentChange .documented (0 : Nat) := by
  intro h
  have hevents : (stepOf (dispatch .documented) (run (dispatch .documented) (deployed 0)
      [Sample.initializeTx, Sample.registerTx]) Sample.repeatTx).out.events = [] := by
    decide +kernel
  have hchanged : (after (dispatch .documented) (run (dispatch .documented) (deployed 0)
        [Sample.initializeTx, Sample.registerTx]) Sample.repeatTx).profile 1 ≠
      (run (dispatch .documented) (deployed 0)
        [Sample.initializeTx, Sample.registerTx]).profile 1 := by
    decide +kernel
  obtain ⟨_, ev, hev, _⟩ := (h [Sample.initializeTx, Sample.registerTx] Sample.repeatTx 1
    (by decide +kernel)).mp hchanged
  rw [hevents] at hev
  cases hev

end LilyContracts.Identity
