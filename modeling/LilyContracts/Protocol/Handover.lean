import LilyContracts.Protocol.Effects

/-!
# The two-step admin handover

Abstractly the handover is a machine on two slots, the admin and the pending
admin: the admin may propose, the pending address may accept, everything else
leaves both slots alone (`RoleStep`). The contract refines it: every call on an
initialized contract is one such move, the one its outcome shows
(`roleStep_after`).

What the storage does not record is who was admin when the pending slot was
written. `pending_from` recovers it from the history: a pending address was put
there by the most recent successful `transfer_admin`, signed by the address
that is still admin. Any change of the admin goes through `accept_admin`, which
empties the slot, so a proposal never outlives the admin who made it.

With nobody signing as the admin of the moment, the machine can only idle or
accept, and after accepting there is nothing left to accept (`unattended_run`).
-/

namespace LilyContracts.Protocol

open Host

variable {A : Type}

/-! ## The abstract machine -/

/-- The two slots of the handover. -/
structure Roles (A : Type) where
  admin : Option A
  pending : Option A

/-- What a call means to the handover. -/
inductive Move (A : Type)
  | idle
  | propose (p : A)
  | accept
  deriving DecidableEq

/-- The machine, driven by who signs. -/
inductive RoleStep (signs : A → Bool) : Roles A → Move A → Roles A → Prop
  | idle (r : Roles A) : RoleStep signs r .idle r
  | propose {a p : A} {o : Option A} (signed : signs a = true) :
      RoleStep signs ⟨some a, o⟩ (.propose p) ⟨some a, some p⟩
  | accept {p : A} {o : Option A} (signed : signs p = true) :
      RoleStep signs ⟨o, some p⟩ .accept ⟨some p, none⟩

/-- The slots as the contract stores them. -/
def Store.roles (s : Store A) : Roles A := ⟨s.admin, s.pendingAdmin⟩

def Call.move : Call A → Move A
  | .transferAdmin newAdmin => .propose newAdmin
  | .acceptAdmin => .accept
  | _ => .idle

/-- The move a step made: none if its call failed. -/
def move (st : Step A) : Move A :=
  if st.Succeeded then st.tx.call.move else .idle

/-- The address a step proposed. -/
def proposal (st : Step A) : Option A :=
  match move st with
  | .propose p => some p
  | _ => none

theorem proposal_eq_some {st : Step A} {p : A} : proposal st = some p ↔ move st = .propose p := by
  unfold proposal
  cases move st with
  | propose q => simp
  | idle => simp
  | accept => simp

/-- An accepting step is a successful call of `accept_admin`. -/
theorem call_of_accept {st : Step A} (h : move st = .accept) :
    st.Succeeded ∧ st.tx.call = .acceptAdmin := by
  unfold move at h
  split at h
  next hok =>
    refine ⟨hok, ?_⟩
    cases hc : st.tx.call with
    | acceptAdmin => rfl
    | _ =>
      rw [hc] at h
      cases h
  next => cases h

/-! ## Where a pending admin comes from -/

/-- The pending address was proposed by the most recent successful
`transfer_admin`, in a call signed by the address that is admin now and was
then. -/
def PendingFrom (steps : List (Step A)) (r : Roles A) : Prop :=
  ∀ p, r.pending = some p → ∃ st a, lastWrite proposal steps = some (st, p) ∧
    r.admin = some a ∧ st.pre.admin = some a ∧ st.tx.env.signs a = true

theorem pendingFrom_step {steps : List (Step A)} (st : Step A) {r : Roles A}
    (hstep : RoleStep st.tx.env.signs st.pre.roles (move st) r)
    (h : PendingFrom steps st.pre.roles) : PendingFrom (steps ++ [st]) r := by
  intro p hp
  generalize hpre : st.pre.roles = r₀ at hstep h
  generalize hm : move st = m at hstep
  cases hstep with
  | idle =>
    have hnone : proposal st = none := by rw [proposal, hm]
    rw [lastWrite_concat_none hnone]
    exact h p hp
  | @propose a q o signed =>
    -- the step itself is the last proposal, and its signer is the admin
    obtain rfl : q = p := Option.some.inj hp
    have hq : proposal st = some q := proposal_eq_some.mpr hm
    have ha : st.pre.admin = some a := congrArg Roles.admin hpre
    exact ⟨st, a, lastWrite_concat_some hq, rfl, ha, signed⟩
  -- an acceptance leaves nothing pending
  | accept signed => cases hp

section Steps

variable [DecidableEq A] {M : Missing} {pin : A} {s : Store A}

/-! ## The contract refines the machine -/

theorem roleStep_after (hM : M.ReadsInstance) (hinit : s.initialized.isSome = true) (tx : Tx A) :
    RoleStep tx.env.signs s.roles (move (stepOf (dispatch M) s tx))
      (after (dispatch M) s tx).roles := by
  rcases after_cases M s tx with ⟨hfail, heq⟩ | ⟨r, evs, hr, heff⟩
  · rw [heq, move, if_neg hfail]
    exact .idle _
  · rw [move, if_pos ⟨r, hr⟩, stepOf_tx]
    generalize tx.call = c at heff
    generalize after (dispatch M) s tx = s' at heff ⊢
    cases heff with
    | initializeContract signed fresh =>
      rw [fresh] at hinit
      cases hinit
    | setFeeBps => exact .idle _
    | setTreasury => exact .idle _
    | @transferAdmin a p live isAdmin signed =>
      show RoleStep _ ⟨s.admin, s.pendingAdmin⟩ (.propose p) ⟨s.admin, some p⟩
      rw [hM.ok_iff.mp isAdmin]
      exact .propose signed
    | @acceptAdmin a p live pending signed =>
      show RoleStep _ ⟨s.admin, s.pendingAdmin⟩ .accept ⟨some p, none⟩
      rw [pending]
      exact .accept signed
    | @view c r reads =>
      cases c with
      | transferAdmin => exact absurd reads id
      | acceptAdmin => exact absurd reads id
      | _ => exact .idle _

/-- A deployed contract has nothing pending, a live one only what `PendingFrom`
allows. -/
theorem pending_from (hM : M.ReadsInstance) (pin : A) (txs : List (Tx A)) :
    PendingFrom (trace (dispatch M) (deployed pin) txs)
      (run (dispatch M) (deployed pin) txs).roles := by
  have hrun : Reached pin (run (dispatch M) (deployed pin) txs) ∧
      PendingFrom (trace (dispatch M) (deployed pin) txs)
        (run (dispatch M) (deployed pin) txs).roles := by
    refine trace_invariant (I := fun steps s => Reached pin s ∧ PendingFrom steps s.roles) ?_
      ⟨.inl rfl, fun p hp => nomatch hp⟩
    intro steps s tx h
    refine ⟨reached_after M h.1 tx, ?_⟩
    rcases h.1 with rfl | hlive
    · -- `initialize` is the only call that does anything, and it proposes nobody
      have hnone : (after (dispatch M) (deployed pin) tx).pendingAdmin = none := by
        rcases after_cases M (deployed pin) tx with ⟨_, heq⟩ | ⟨r, evs, _, heff⟩
        · rw [heq]
          rfl
        · generalize tx.call = c at heff
          generalize after (dispatch M) (deployed pin) tx = s' at heff ⊢
          cases heff with
          | initializeContract => rfl
          | setFeeBps live => cases live
          | setTreasury live => cases live
          | transferAdmin live => cases live
          | acceptAdmin live => cases live
          | view => rfl
      intro p hp
      have hp' : (after (dispatch M) (deployed pin) tx).pendingAdmin = some p := hp
      rw [hnone] at hp'
      cases hp'
    · exact pendingFrom_step (stepOf (dispatch M) s tx)
        (roleStep_after hM hlive.initialized tx) h.2
  exact hrun.2

/-! ## Acceptances -/

/-- The admin changes only by an acceptance, to the address that was pending. -/
theorem accept_of_admin_ne (hM : M.ReadsInstance) (hinit : s.initialized.isSome = true)
    {tx : Tx A} (hne : (after (dispatch M) s tx).admin ≠ s.admin) :
    move (stepOf (dispatch M) s tx) = .accept ∧ ∃ p, s.pendingAdmin = some p ∧
      (after (dispatch M) s tx).admin = some p ∧ tx.env.signs p = true := by
  have hstep := roleStep_after hM hinit tx
  generalize hpre : s.roles = r₀ at hstep
  generalize hpost : (after (dispatch M) s tx).roles = r at hstep
  generalize move (stepOf (dispatch M) s tx) = m at hstep
  have ha : s.admin = r₀.admin := congrArg Roles.admin hpre
  have hp : s.pendingAdmin = r₀.pending := congrArg Roles.pending hpre
  have ha' : (after (dispatch M) s tx).admin = r.admin := congrArg Roles.admin hpost
  rw [ha, ha'] at hne
  cases hstep with
  | idle => exact absurd rfl hne
  | propose => exact absurd rfl hne
  | accept signed => exact ⟨rfl, _, hp, ha', signed⟩

/-- A slot that does not hold `p` keeps not holding it until `p` is proposed. -/
theorem pending_ne_after (hM : M.ReadsInstance) (hinit : s.initialized.isSome = true) {p : A}
    {tx : Tx A} (hs : s.pendingAdmin ≠ some p)
    (hprop : proposal (stepOf (dispatch M) s tx) ≠ some p) :
    (after (dispatch M) s tx).pendingAdmin ≠ some p := by
  have hstep := roleStep_after hM hinit tx
  generalize hpre : s.roles = r₀ at hstep
  generalize hpost : (after (dispatch M) s tx).roles = r at hstep
  generalize hm : move (stepOf (dispatch M) s tx) = m at hstep
  have hp : s.pendingAdmin = r₀.pending := congrArg Roles.pending hpre
  have hp' : (after (dispatch M) s tx).pendingAdmin = r.pending := congrArg Roles.pending hpost
  rw [hp] at hs
  rw [hp']
  cases hstep with
  | idle => exact hs
  | @propose a q o signed =>
    intro he
    exact hprop (proposal_eq_some.mpr (hm.trans (congrArg Move.propose (Option.some.inj he))))
  | accept => nofun

/-- Along a run that never proposes `p`, an address that is not pending at its
start, `p` is not pending at its end and at no step becomes admin. -/
theorem unproposed_run (hM : M.ReadsInstance) {p : A} (txs : List (Tx A)) :
    ∀ {s : Store A}, s.initialized.isSome = true → s.pendingAdmin ≠ some p →
      (∀ st ∈ trace (dispatch M) s txs, proposal st ≠ some p) →
      (run (dispatch M) s txs).pendingAdmin ≠ some p ∧
      ∀ st ∈ trace (dispatch M) s txs, st.post.admin = some p → st.pre.admin = some p := by
  induction txs with
  | nil =>
    intro s _ hp _
    exact ⟨hp, fun st hst => absurd hst List.not_mem_nil⟩
  | cons tx txs ih =>
    intro s hinit hp hprop
    rw [trace_cons] at hprop ⊢
    have hhead := hprop _ (List.mem_cons_self ..)
    have htail := fun st hst => hprop st (List.mem_cons_of_mem _ hst)
    obtain ⟨hend, hrest⟩ := ih ((gate M).kept hinit tx)
      (pending_ne_after hM hinit hp hhead) htail
    refine ⟨hend, ?_⟩
    intro st hst hpost
    rcases List.mem_cons.mp hst with rfl | hst
    · by_cases hne : (after (dispatch M) s tx).admin = s.admin
      · exact hne ▸ hpost
      · -- an acceptance would need `p` pending
        obtain ⟨_, q, hq, hq', _⟩ := accept_of_admin_ne hM hinit hne
        rw [stepOf_post, hq'] at hpost
        obtain rfl : q = p := Option.some.inj hpost
        exact absurd hq hp
    · exact hrest st hst hpost

/-- What an accepting step leaves: its signer as admin and nothing pending. -/
theorem roles_of_accept (hM : M.ReadsInstance) (hinit : s.initialized.isSome = true) {tx : Tx A}
    (hacc : move (stepOf (dispatch M) s tx) = .accept) :
    ∃ p, s.pendingAdmin = some p ∧ tx.env.signs p = true ∧
      (after (dispatch M) s tx).roles = ⟨some p, none⟩ := by
  have hstep := roleStep_after hM hinit tx
  rw [hacc] at hstep
  generalize hpre : s.roles = r₀ at hstep
  generalize (after (dispatch M) s tx).roles = r at hstep ⊢
  have hp : s.pendingAdmin = r₀.pending := congrArg Roles.pending hpre
  cases hstep with
  | accept signed => exact ⟨_, hp, signed, rfl⟩

/-! ## Stretches nobody attends -/

/-- The call is not signed by the address that is admin when it is made. -/
def Unattended (s : Store A) (tx : Tx A) : Prop :=
  ∀ a, s.admin = some a → tx.env.signs a = false

/-- No step of the run touches the admin or the pending admin. -/
def Steady (M : Missing) (s : Store A) (txs : List (Tx A)) : Prop :=
  ∀ st ∈ trace (dispatch M) s txs, st.post.roles = st.pre.roles

theorem unattended_after (hM : M.ReadsInstance) (hinit : s.initialized.isSome = true)
    {tx : Tx A} (hout : Unattended s tx) :
    (after (dispatch M) s tx).roles = s.roles ∨ move (stepOf (dispatch M) s tx) = .accept := by
  have hstep := roleStep_after hM hinit tx
  generalize hpre : s.roles = r₀ at hstep ⊢
  generalize (after (dispatch M) s tx).roles = r at hstep ⊢
  generalize move (stepOf (dispatch M) s tx) = m at hstep ⊢
  cases hstep with
  | idle => exact .inl rfl
  | propose signed =>
    have ha := hout _ (congrArg Roles.admin hpre)
    rw [signed] at ha
    cases ha
  | accept => exact .inr rfl

/-- The configuration needs the admin's signature. -/
theorem config_after (hM : M.ReadsInstance) (hinit : s.initialized.isSome = true) {tx : Tx A}
    (hout : Unattended s tx) :
    (after (dispatch M) s tx).treasury = s.treasury ∧
      (after (dispatch M) s tx).feeBps = s.feeBps := by
  rcases after_cases M s tx with ⟨_, heq⟩ | ⟨r, evs, _, heff⟩
  · rw [heq]
    exact ⟨rfl, rfl⟩
  · generalize tx.call = c at heff
    generalize after (dispatch M) s tx = s' at heff ⊢
    cases heff with
    | initializeContract signed fresh =>
      rw [fresh] at hinit
      cases hinit
    | setFeeBps live isAdmin signed =>
      rw [hout _ (hM.ok_iff.mp isAdmin)] at signed
      cases signed
    | setTreasury live isAdmin signed =>
      rw [hout _ (hM.ok_iff.mp isAdmin)] at signed
      cases signed
    | _ => exact ⟨rfl, rfl⟩

theorem unattended_config (hM : M.ReadsInstance) (txs : List (Tx A)) :
    ∀ {s : Store A}, s.initialized.isSome = true → Along (dispatch M) Unattended s txs →
      (run (dispatch M) s txs).treasury = s.treasury ∧
        (run (dispatch M) s txs).feeBps = s.feeBps := by
  induction txs with
  | nil =>
    intro s _ _
    exact ⟨rfl, rfl⟩
  | cons tx txs ih =>
    intro s hinit hout
    obtain ⟨ht, hf⟩ := config_after hM hinit hout.1
    obtain ⟨ht', hf'⟩ := ih ((gate M).kept hinit tx) hout.2
    exact ⟨ht'.trans ht, hf'.trans hf⟩

/-- Unattended and with nobody pending, nothing moves. -/
theorem steady_of_not_pending (hM : M.ReadsInstance) (txs : List (Tx A)) :
    ∀ {s : Store A}, s.initialized.isSome = true → s.pendingAdmin = none →
      Along (dispatch M) Unattended s txs → Steady M s txs := by
  induction txs with
  | nil =>
    intro s _ _ _ st hst
    exact absurd hst List.not_mem_nil
  | cons tx txs ih =>
    intro s hinit hnone hout
    have hsame : (after (dispatch M) s tx).roles = s.roles := by
      rcases unattended_after hM hinit hout.1 with hsame | hacc
      · exact hsame
      · obtain ⟨p, hp, _⟩ := roles_of_accept hM hinit hacc
        rw [hnone] at hp
        cases hp
    have hnone' : (after (dispatch M) s tx).pendingAdmin = none :=
      (congrArg Roles.pending hsame).trans hnone
    intro st hst
    rcases List.mem_cons.mp hst with rfl | hst
    · exact hsame
    · exact ih ((gate M).kept hinit tx) hnone' hout.2 st hst

/-- Unattended, the slots stay as they are but for one acceptance by the address
pending at the start. -/
theorem unattended_run (hM : M.ReadsInstance) (txs : List (Tx A)) :
    ∀ {s : Store A}, s.initialized.isSome = true → Along (dispatch M) Unattended s txs →
      Steady M s txs ∨
      ∃ l₁ tx l₂ p, txs = l₁ ++ tx :: l₂ ∧ s.pendingAdmin = some p ∧
        tx.call = .acceptAdmin ∧ tx.env.signs p = true ∧ Steady M s l₁ ∧
        (run (dispatch M) s (l₁ ++ [tx])).roles = ⟨some p, none⟩ ∧
        Steady M (run (dispatch M) s (l₁ ++ [tx])) l₂ := by
  induction txs with
  | nil =>
    intro s _ _
    exact .inl fun st hst => absurd hst List.not_mem_nil
  | cons tx txs ih =>
    intro s hinit hout
    have hinit' := (gate M).kept hinit tx
    rcases unattended_after hM hinit hout.1 with hsame | hacc
    · have hhead : ∀ l, Steady M (after (dispatch M) s tx) l → Steady M s (tx :: l) := by
        intro l hl st hst
        rcases List.mem_cons.mp hst with rfl | hst
        · exact hsame
        · exact hl st hst
      rcases ih hinit' hout.2 with hsteady | ⟨l₁, t, l₂, p, rfl, hp, hcall, hs, h₁, hr, h₂⟩
      · exact .inl (hhead txs hsteady)
      · refine .inr ⟨tx :: l₁, t, l₂, p, rfl, ?_, hcall, hs, hhead l₁ h₁, hr, h₂⟩
        exact (congrArg Roles.pending hsame).symm.trans hp
    · obtain ⟨p, hp, hs, hr⟩ := roles_of_accept hM hinit hacc
      refine .inr ⟨[], tx, txs, p, rfl, hp, (call_of_accept hacc).2, hs, ?_, hr, ?_⟩
      · exact fun st hst => absurd hst List.not_mem_nil
      · exact steady_of_not_pending hM txs hinit' (congrArg Roles.pending hr) hout.2

/-! ## The handover -/

/-- **The two-step handover**, at any initialized reachable state `s` with
history `steps`: the admin changes only to the address the most recent
successful proposal named, in an acceptance that address signed; what is pending
was proposed, most recently, with the signature of the current admin; between
two acceptances there is a new proposal, and a superseded address becomes admin
only if it is proposed again; and a stretch in which no call is signed by the
admin of its moment changes no configuration and admits one acceptance at
most. -/
theorem two_step_handover (hM : M.ReadsInstance) (pin : A) (before : List (Tx A))
    (hinit : (run (dispatch M) (deployed pin) before).initialized.isSome = true) :
    let s := run (dispatch M) (deployed pin) before
    let steps := trace (dispatch M) (deployed pin) before
    (∀ tx : Tx A, (after (dispatch M) s tx).admin ≠ s.admin →
      tx.call = .acceptAdmin ∧ (stepOf (dispatch M) s tx).Succeeded ∧
      ∃ p st, (after (dispatch M) s tx).admin = some p ∧ tx.env.signs p = true ∧
        lastWrite proposal steps = some (st, p)) ∧
    (∀ p, s.pendingAdmin = some p →
      ∃ st a, lastWrite proposal steps = some (st, p) ∧
        s.admin = some a ∧ st.pre.admin = some a ∧ st.tx.env.signs a = true) ∧
    (∀ (tx : Tx A) (mid : List (Tx A)) (tx' : Tx A),
      move (stepOf (dispatch M) s tx) = .accept →
      move (stepOf (dispatch M) (run (dispatch M) (after (dispatch M) s tx) mid) tx') = .accept →
      ∃ st ∈ trace (dispatch M) (after (dispatch M) s tx) mid, (proposal st).isSome = true) ∧
    (∀ (tx : Tx A) (p q : A) (later : List (Tx A)),
      proposal (stepOf (dispatch M) s tx) = some q → p ≠ q →
      (∀ st ∈ trace (dispatch M) (after (dispatch M) s tx) later, proposal st ≠ some p) →
      ∀ st ∈ trace (dispatch M) (after (dispatch M) s tx) later,
        st.post.admin = some p → st.pre.admin = some p) ∧
    (∀ txs, Along (dispatch M) Unattended s txs →
      (run (dispatch M) s txs).treasury = s.treasury ∧
      (run (dispatch M) s txs).feeBps = s.feeBps ∧
      (Steady M s txs ∨
        ∃ l₁ tx l₂ p, txs = l₁ ++ tx :: l₂ ∧ s.pendingAdmin = some p ∧
          tx.call = .acceptAdmin ∧ tx.env.signs p = true ∧ Steady M s l₁ ∧
          (run (dispatch M) s (l₁ ++ [tx])).roles = ⟨some p, none⟩ ∧
          Steady M (run (dispatch M) s (l₁ ++ [tx])) l₂)) := by
  intro s steps
  have hpending := pending_from hM pin before
  refine ⟨?_, hpending, ?_, ?_, ?_⟩
  · intro tx hne
    obtain ⟨hacc, p, hp, hp', hs⟩ := accept_of_admin_ne hM hinit hne
    obtain ⟨st, a, hlast, _⟩ := hpending p hp
    obtain ⟨hok, hcall⟩ := call_of_accept hacc
    exact ⟨hcall, hok, p, st, hp', hs, hlast⟩
  · intro tx mid tx' hacc hacc'
    by_contra hno
    obtain ⟨p, _, _, hr⟩ := roles_of_accept hM hinit hacc
    have hinit' := (gate M).kept hinit tx
    have hrun : (run (dispatch M) (after (dispatch M) s tx) mid).initialized.isSome = true :=
      run_invariant (I := fun s : Store A => s.initialized.isSome = true)
        (fun _ t h => (gate M).kept h t) hinit'
    obtain ⟨q, hq, _⟩ := roles_of_accept hM hrun hacc'
    -- nothing was pending after the first acceptance, and nothing was proposed since
    have hempty : (after (dispatch M) s tx).pendingAdmin ≠ some q := by
      rw [show (after (dispatch M) s tx).pendingAdmin = none from congrArg Roles.pending hr]
      nofun
    refine (unproposed_run hM mid hinit' hempty ?_).1 hq
    intro st hst hprop
    exact hno ⟨st, hst, by rw [hprop]; rfl⟩
  · intro tx p q later hq hpq hlater
    have hstep := roleStep_after hM hinit tx
    rw [proposal_eq_some.mp hq] at hstep
    have hpost : (after (dispatch M) s tx).pendingAdmin ≠ some p := by
      generalize s.roles = r₀ at hstep
      generalize hr : (after (dispatch M) s tx).roles = r at hstep
      have hp : (after (dispatch M) s tx).pendingAdmin = r.pending := congrArg Roles.pending hr
      rw [hp]
      cases hstep with
      | propose signed => exact fun he => hpq (Option.some.inj he).symm
    exact (unproposed_run hM later ((gate M).kept hinit tx) hpost hlater).2
  · intro txs hout
    obtain ⟨ht, hf⟩ := unattended_config hM txs hinit hout
    exact ⟨ht, hf, unattended_run hM txs hinit hout⟩

end Steps

/-- A handover from 0 to 1: the acceptance is of the proposal that 0 signed. -/
theorem two_step_handover_sample :
    ∃ p st, (after (dispatch .documented)
        (run (dispatch .documented) (deployed 0) [Sample.initializeTx, Sample.proposeTx])
        Sample.acceptTx).admin = some p ∧
      lastWrite proposal (trace (dispatch .documented) (deployed 0)
        [Sample.initializeTx, Sample.proposeTx]) = some (st, p) := by
  have h := two_step_handover Missing.documented_readsInstance 0
    [Sample.initializeTx, Sample.proposeTx] (by decide +kernel)
  obtain ⟨_, _, p, st, hp, _, hlast⟩ := h.1 Sample.acceptTx (by decide +kernel)
  exact ⟨p, st, hp, hlast⟩

end LilyContracts.Protocol
