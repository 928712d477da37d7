import LilyContracts.Host.Compose
import LilyContracts.Host.Latch

/-!
# A host that authorizes an address once per frame

On the Soroban 22 host a second `require_auth` of an address that the same frame
has already authorized fails (`Auth`, `ExistingValue`: frame is already
authorized), unless the transaction brings one more authorization entry for it.
`execStrict` runs a program under that rule, with one entry per address. It keeps
the addresses the frame has authorized so far, and is `exec` in every other respect:
a call into another contract runs in a frame of its own and does not count.

A program is safe under the rule when no path through it checks one address twice
(`AuthsFresh`, a property of its syntax that `simp` computes): then the two hosts
cannot tell it apart (`execStrict_eq_exec`). In any case the strict host only adds
`Auth` failures (`execStrict_cases`).

`hosted` are the programs of a contract as they run on a host with the rule or on
one without. The rule costs successes and changes nothing else (`stepOf_hosted`), so
what every step keeps on the one host is kept on the other (`hosted_after`), and it
acts on a system through its components (`hosted_embed`).
-/

namespace LilyContracts.Host

variable {σ τ A X Y Ev Ev' E C D R R' α β : Type}

/-- Run a program, failing the second signature check of one address. `seen` are
the addresses the frame has authorized. -/
def execStrict [DecidableEq A] (env : Env A X E) :
    List A → Prog σ A X Ev E α → Frame σ Ev → Except (Fault E) (α × Frame σ Ev)
  | _, .ret a, fr => .ok (a, fr)
  | _, .fail f, _ => .error f
  | seen, .read k, fr => execStrict env seen (k fr.store) fr
  | seen, .write f k, fr => execStrict env seen k { fr with store := f fr.store }
  | seen, .requireAuth a k, fr =>
    if env.signs a ∧ a ∉ seen then execStrict env (a :: seen) k fr else .error .auth
  | seen, .call x k, fr =>
    match env.answer x with
    | .ok b => execStrict env seen (k b) fr
    | .error f => .error f
  | seen, .timestamp k, fr => execStrict env seen (k env.timestamp) fr
  | seen, .publish ev k, fr => execStrict env seen k { fr with events := fr.events ++ [ev] }

/-- No path through the program checks the signature of an address in `seen`, or
of any address twice. -/
def AuthsFresh : List A → Prog σ A X Ev E α → Prop
  | _, .ret _ => True
  | _, .fail _ => True
  | seen, .read k => ∀ s, AuthsFresh seen (k s)
  | seen, .write _ k => AuthsFresh seen k
  | seen, .requireAuth a k => a ∉ seen ∧ AuthsFresh (a :: seen) k
  | seen, .call _ k => ∀ b, AuthsFresh seen (k b)
  | seen, .timestamp k => ∀ t, AuthsFresh seen (k t)
  | seen, .publish _ k => AuthsFresh seen k

section Exec

variable [DecidableEq A] {env : Env A X E} {seen : List A}

/-- **Where no address is checked twice, the two hosts agree.** -/
theorem execStrict_eq_exec {p : Prog σ A X Ev E α} (hp : AuthsFresh seen p) (fr : Frame σ Ev) :
    execStrict env seen p fr = exec env p fr := by
  induction p generalizing seen fr with
  | ret a => rfl
  | fail f => rfl
  | read k ih => exact ih _ (hp _) fr
  | write f k ih => exact ih hp _
  | requireAuth a k ih =>
    obtain ⟨ha, hk⟩ := hp
    simp only [execStrict, exec, ha, not_false_eq_true, and_true]
    split
    next => exact ih hk fr
    next => rfl
  | call x k ih =>
    simp only [execStrict, exec]
    cases env.answer x with
    | ok b => exact ih b (hp b) fr
    | error f => rfl
  | timestamp k ih => exact ih _ (hp _) fr
  | publish ev k ih => exact ih hp _

/-- What the other host accepts, the strict one accepts with the same result, or
rejects with `Auth`. -/
theorem execStrict_cases {p : Prog σ A X Ev E α} {fr : Frame σ Ev} {q : α × Frame σ Ev}
    (h : exec env p fr = .ok q) :
    execStrict env seen p fr = .ok q ∨ execStrict env seen p fr = .error .auth := by
  induction p generalizing seen fr with
  | ret a => exact .inl h
  | fail f => cases h
  | read k ih => exact ih _ h
  | write f k ih => exact ih h
  | requireAuth a k ih =>
    simp only [exec] at h
    simp only [execStrict]
    split at h
    next hs =>
      split
      next => exact ih h
      next => exact .inr rfl
    next => cases h
  | call x k ih =>
    simp only [exec] at h
    simp only [execStrict]
    cases hb : env.answer x with
    | ok b =>
      rw [hb] at h
      exact ih b h
    | error f =>
      rw [hb] at h
      cases h
  | timestamp k ih => exact ih _ h
  | publish ev k ih => exact ih h

/-- What the strict host accepts, the other accepts with the same result. -/
theorem exec_of_execStrict {p : Prog σ A X Ev E α} {fr : Frame σ Ev} {q : α × Frame σ Ev}
    (h : execStrict env seen p fr = .ok q) : exec env p fr = .ok q := by
  induction p generalizing seen fr with
  | ret a => exact h
  | fail f => cases h
  | read k ih => exact ih _ h
  | write f k ih => exact ih h
  | requireAuth a k ih =>
    simp only [execStrict] at h
    simp only [exec]
    split at h
    next hs =>
      rw [if_pos hs.1]
      exact ih h
    next => cases h
  | call x k ih =>
    simp only [execStrict] at h
    simp only [exec]
    cases hb : env.answer x with
    | ok b =>
      rw [hb] at h
      exact ih b h
    | error f =>
      rw [hb] at h
      cases h
  | timestamp k ih => exact ih _ h
  | publish ev k ih => exact ih h

end Exec

/-! ## Checking one effect at a time -/

section Fresh

variable {seen : List A} {g : α → Prog σ A X Ev E β} {gu : Unit → Prog σ A X Ev E β}

@[simp] theorem authsFresh_pure (a : α) :
    AuthsFresh seen (pure a : Prog σ A X Ev E α) ↔ True := Iff.rfl

@[simp] theorem authsFresh_get_bind (f : σ → α) :
    AuthsFresh seen (get f >>= g) ↔ ∀ s, AuthsFresh seen (g (f s)) := Iff.rfl

@[simp] theorem authsFresh_get (f : σ → α) :
    AuthsFresh seen (get f : Prog σ A X Ev E α) ↔ True :=
  iff_true_intro fun _ => trivial

@[simp] theorem authsFresh_modify_bind (f : σ → σ) :
    AuthsFresh seen (modify f >>= gu) ↔ AuthsFresh seen (gu ()) := Iff.rfl

@[simp] theorem authsFresh_publish_bind (ev : Ev) :
    AuthsFresh seen (publish ev >>= gu) ↔ AuthsFresh seen (gu ()) := Iff.rfl

@[simp] theorem authsFresh_requireAuth_bind (a : A) :
    AuthsFresh seen (requireAuth a >>= gu) ↔ a ∉ seen ∧ AuthsFresh (a :: seen) (gu ()) := Iff.rfl

@[simp] theorem authsFresh_ask_bind (x : X) {g : Bool → Prog σ A X Ev E β} :
    AuthsFresh seen (ask x >>= g) ↔ ∀ b, AuthsFresh seen (g b) := Iff.rfl

@[simp] theorem authsFresh_ledgerTimestamp_bind {g : UInt64 → Prog σ A X Ev E β} :
    AuthsFresh seen (ledgerTimestamp >>= g) ↔ ∀ t, AuthsFresh seen (g t) := Iff.rfl

@[simp] theorem authsFresh_lift_bind (e : Except (Fault E) α) :
    AuthsFresh seen (lift e >>= g) ↔ ∀ a, e = .ok a → AuthsFresh seen (g a) := by
  cases e with
  | ok a => simp [lift, Bind.bind, Prog.bind]
  | error f => simp [lift, Bind.bind, Prog.bind, AuthsFresh]

@[simp] theorem authsFresh_unwrapOptimized_bind (o : Option α) :
    AuthsFresh seen (unwrapOptimized o >>= g) ↔ ∀ a, o = some a → AuthsFresh seen (g a) := by
  cases o with
  | some a => simp [unwrapOptimized, Bind.bind, Prog.bind]
  | none => simp [unwrapOptimized, Bind.bind, Prog.bind, AuthsFresh]

@[simp] theorem authsFresh_unwrapOrPanic_bind (e : E) (o : Option α) :
    AuthsFresh seen (unwrapOrPanic e o >>= g) ↔ ∀ a, o = some a → AuthsFresh seen (g a) := by
  cases o with
  | some a => simp [unwrapOrPanic, Bind.bind, Prog.bind]
  | none => simp [unwrapOrPanic, Bind.bind, Prog.bind, AuthsFresh]

/-- A rewrite of the result checks nothing. -/
@[simp] theorem authsFresh_map (f : α → β) (p : Prog σ A X Ev E α) :
    AuthsFresh seen (f <$> p) ↔ AuthsFresh seen p := by
  show AuthsFresh seen (p.bind fun a => .ret (f a)) ↔ _
  induction p generalizing seen with
  | ret a => exact Iff.rfl
  | fail e => exact Iff.rfl
  | read k ih => exact forall_congr' fun s => ih s
  | write h k ih => exact ih
  | requireAuth a k ih => exact and_congr_right fun _ => ih
  | call x k ih => exact forall_congr' fun b => ih b
  | timestamp k ih => exact forall_congr' fun t => ih t
  | publish ev k ih => exact ih

@[simp] theorem authsFresh_ite {c : Prop} [Decidable c] (p q : Prog σ A X Ev E α) :
    AuthsFresh seen (if c then p else q) ↔
      (c → AuthsFresh seen p) ∧ (¬ c → AuthsFresh seen q) := by
  split
  next h => simp [h]
  next h => simp [h]

@[simp] theorem authsFresh_modify (f : σ → σ) :
    AuthsFresh seen (modify f : Prog σ A X Ev E Unit) ↔ True := Iff.rfl

@[simp] theorem authsFresh_publish (ev : Ev) :
    AuthsFresh seen (publish ev : Prog σ A X Ev E Unit) ↔ True := Iff.rfl

@[simp] theorem authsFresh_lift (e : Except (Fault E) α) :
    AuthsFresh seen (lift e : Prog σ A X Ev E α) ↔ True := by
  cases e with
  | ok a => exact Iff.rfl
  | error f => exact Iff.rfl

@[simp] theorem authsFresh_unwrapOrPanic (e : E) (o : Option α) :
    AuthsFresh seen (unwrapOrPanic e o : Prog σ A X Ev E α) ↔ True := by
  cases o with
  | some a => exact Iff.rfl
  | none => exact Iff.rfl

@[simp] theorem authsFresh_unwrapOptimized (o : Option α) :
    AuthsFresh seen (unwrapOptimized o : Prog σ A X Ev E α) ↔ True := by
  cases o with
  | some a => exact Iff.rfl
  | none => exact Iff.rfl

end Fresh

/-! ## Running up to a repeated check -/

section Steps

variable [DecidableEq A] {env : Env A X E} {seen : List A} {fr : Frame σ Ev}
  {g : α → Prog σ A X Ev E β} {gu : Unit → Prog σ A X Ev E β}

@[simp] theorem execStrict_get_bind (f : σ → α) :
    execStrict env seen (get f >>= g) fr = execStrict env seen (g (f fr.store)) fr := rfl

@[simp] theorem execStrict_requireAuth_bind (a : A) :
    execStrict env seen (requireAuth a >>= gu) fr =
      if env.signs a ∧ a ∉ seen then execStrict env (a :: seen) (gu ()) fr
      else .error .auth := rfl

@[simp] theorem execStrict_unwrapOptimized_bind (o : Option α) :
    execStrict env seen (unwrapOptimized o >>= g) fr =
      o.elim (.error .trap) fun a => execStrict env seen (g a) fr := by
  cases o <;> rfl

end Steps

/-! ## The programs of a host -/

/-- The program, failing where it would check an address for the second time. -/
def Prog.strict [DecidableEq A] : List A → Prog σ A X Ev E α → Prog σ A X Ev E α
  | _, .ret a => .ret a
  | _, .fail f => .fail f
  | seen, .read k => .read fun s => strict seen (k s)
  | seen, .write f k => .write f (strict seen k)
  | seen, .requireAuth a k =>
    if a ∈ seen then .fail .auth else .requireAuth a (strict (a :: seen) k)
  | seen, .call x k => .call x fun b => strict seen (k b)
  | seen, .timestamp k => .timestamp fun t => strict seen (k t)
  | seen, .publish ev k => .publish ev (strict seen k)

/-- The programs of a contract on a host that authorizes an address `once` per frame,
or as often as it is asked to. -/
def hosted [DecidableEq A] (once : Bool) (prog : C → Prog σ A X Ev E R) (c : C) :
    Prog σ A X Ev E R :=
  if once then (prog c).strict [] else prog c

section Strict

variable [DecidableEq A] {env : Env A X E} {seen : List A}

/-- It is the rule, built into the program. -/
theorem exec_strict (p : Prog σ A X Ev E α) (fr : Frame σ Ev) :
    exec env (p.strict seen) fr = execStrict env seen p fr := by
  induction p generalizing seen fr with
  | ret a => rfl
  | fail f => rfl
  | read k ih => exact ih _ fr
  | write f k ih => exact ih _
  | requireAuth a k ih =>
    simp only [Prog.strict, execStrict]
    by_cases ha : a ∈ seen
    · rw [if_pos ha, if_neg fun h => h.2 ha]
      rfl
    · rw [if_neg ha]
      by_cases hs : env.signs a = true
      · rw [if_pos ⟨hs, ha⟩, exec, if_pos hs]
        exact ih fr
      · rw [if_neg fun h => hs h.1, exec, if_neg hs]
  | call x k ih =>
    simp only [Prog.strict, exec, execStrict]
    cases env.answer x with
    | ok b => exact ih b fr
    | error f => rfl
  | timestamp k ih => exact ih _ fr
  | publish ev k ih => exact ih _

/-- Where no address is checked twice it is the program itself. -/
theorem strict_of_fresh {p : Prog σ A X Ev E α} (hp : AuthsFresh seen p) : p.strict seen = p := by
  induction p generalizing seen with
  | ret a => rfl
  | fail f => rfl
  | read k ih => exact congrArg Prog.read (funext fun s => ih s (hp s))
  | write f k ih => exact congrArg (Prog.write f) (ih hp)
  | requireAuth a k ih =>
    rw [Prog.strict, if_neg hp.1]
    exact congrArg (Prog.requireAuth a) (ih hp.2)
  | call x k ih => exact congrArg (Prog.call x) (funext fun b => ih b (hp b))
  | timestamp k ih => exact congrArg Prog.timestamp (funext fun t => ih t (hp t))
  | publish ev k ih => exact congrArg (Prog.publish ev) (ih hp)

theorem strict_map (f : α → β) (p : Prog σ A X Ev E α) :
    (p >>= fun a => pure (f a)).strict seen = p.strict seen >>= fun a => pure (f a) := by
  show (p.bind fun a => .ret (f a)).strict seen = (p.strict seen).bind fun a => .ret (f a)
  induction p generalizing seen with
  | ret a => rfl
  | fail e => rfl
  | read k ih => exact congrArg Prog.read (funext fun s => ih s)
  | write h k ih => exact congrArg (Prog.write h) ih
  | requireAuth a k ih =>
    simp only [Prog.bind, Prog.strict]
    split
    next => rfl
    next => exact congrArg (Prog.requireAuth a) ih
  | call x k ih => exact congrArg (Prog.call x) (funext fun b => ih b)
  | timestamp k ih => exact congrArg Prog.timestamp (funext fun t => ih t)
  | publish ev k ih => exact congrArg (Prog.publish ev) ih

/-- A component checks in the system what it checks alone. -/
theorem strict_embed (P : Component σ τ X Y Ev Ev') (p : Prog σ A X Ev E α) :
    (P.embed p).strict seen = P.embed (p.strict seen) := by
  induction p generalizing seen with
  | ret a => rfl
  | fail f => rfl
  | read k ih => exact congrArg Prog.read (funext fun t => ih _)
  | write f k ih => exact congrArg (Prog.write _) ih
  | requireAuth a k ih =>
    simp only [Component.embed, Prog.strict]
    split
    next => rfl
    next => exact congrArg (Prog.requireAuth a) ih
  | call x k ih =>
    simp only [Component.embed, Prog.strict]
    refine congrArg Prog.read (funext fun t => ?_)
    cases P.route t x with
    | inl b => exact ih b
    | inr y => exact congrArg (Prog.call y) (funext fun b => ih b)
  | timestamp k ih => exact congrArg Prog.timestamp (funext fun n => ih n)
  | publish ev k ih => exact congrArg (Prog.publish _) ih

end Strict

section Hosted

variable [DecidableEq A] {prog : C → Prog σ A X Ev E R} {once : Bool} {s : σ} {tx : Tx A X E C}

theorem hosted_of_fresh {c : C} (h : AuthsFresh [] (prog c)) : hosted once prog c = prog c := by
  unfold hosted
  rw [strict_of_fresh h, ite_self]

/-- What a system makes of the rule is what its components make of it. -/
theorem hosted_embed {P : Component σ τ X Y Ev Ev'} {sys : D → Prog τ A Y Ev' E R'} {c : C} {d : D}
    {g : R → R'} (h : sys d = P.embed (prog c) >>= fun r => pure (g r)) :
    hosted once sys d = P.embed (hosted once prog c) >>= fun r => pure (g r) := by
  unfold hosted
  cases once with
  | false => exact h
  | true =>
    show (sys d).strict [] = P.embed ((prog c).strict []) >>= fun r => pure (g r)
    rw [h, strict_map, strict_embed]

/-- **The rule only costs successes**: a step ends as it does without it, or fails. -/
theorem stepOf_hosted (once : Bool) (prog : C → Prog σ A X Ev E R) (s : σ) (tx : Tx A X E C) :
    stepOf (hosted once prog) s tx = stepOf prog s tx ∨
      ¬ (stepOf (hosted once prog) s tx).Succeeded := by
  cases once with
  | false => exact .inl rfl
  | true =>
    have hexec : exec tx.env (hosted true prog tx.call) ⟨s, []⟩ =
        execStrict tx.env [] (prog tx.call) ⟨s, []⟩ := exec_strict _ _
    cases hex : exec tx.env (prog tx.call) ⟨s, []⟩ with
    | ok q =>
      have hcases : execStrict tx.env [] (prog tx.call) ⟨s, []⟩ = .ok q ∨
          execStrict tx.env [] (prog tx.call) ⟨s, []⟩ = .error .auth := execStrict_cases hex
      rcases hcases with hok | hauth
      · left
        rw [stepOf, stepOf, invoke, invoke, hexec, hok, hex]
      · right
        intro hok
        obtain ⟨r, fr, hr⟩ := succeeded_iff.mp hok
        cases (hexec.trans hauth).symm.trans hr
    | error f =>
      right
      intro hok
      obtain ⟨r, fr, hr⟩ := succeeded_iff.mp hok
      cases (exec_of_execStrict (hexec.symm.trans hr)).symm.trans hex

theorem hosted_after_cases (once : Bool) (prog : C → Prog σ A X Ev E R) (s : σ) (tx : Tx A X E C) :
    after (hosted once prog) s tx = after prog s tx ∨ after (hosted once prog) s tx = s := by
  rcases stepOf_hosted once prog s tx with heq | hfail
  · exact .inl (congrArg Step.post heq)
  · exact .inr (after_of_not_succeeded hfail)

/-- What a step keeps without the rule it keeps with it. -/
theorem hosted_after {I : σ → Prop} (hs : I s) (h : I (after prog s tx)) :
    I (after (hosted once prog) s tx) := by
  rcases hosted_after_cases once prog s tx with heq | heq
  · exact heq.symm ▸ h
  · exact heq.symm ▸ hs

theorem succeeded_of_hosted (h : (stepOf (hosted once prog) s tx).Succeeded) :
    (stepOf prog s tx).Succeeded ∧ after (hosted once prog) s tx = after prog s tx := by
  rcases stepOf_hosted once prog s tx with heq | hfail
  · exact ⟨heq ▸ h, congrArg Step.post heq⟩
  · exact absurd h hfail

/-- A latch is one on either host. -/
theorem Latch.hosted {flag : σ → Bool} {picks : C → Bool} (h : Latch prog flag picks) :
    Latch (hosted once prog) flag picks where
  step := by
    intro s tx
    rcases stepOf_hosted once prog s tx with heq | hfail
    · rw [after, heq]
      exact h.step s tx
    · rw [after_of_not_succeeded hfail, Step.does, decide_eq_false hfail, Bool.and_false]
      rfl

end Hosted

end LilyContracts.Host
