import LilyContracts.Suite
import LilyContracts.Authorization

/-!
# The four contracts on the Soroban 22 host

`hosted once (dispatch W)` is the system on a host that authorizes an address once per
frame, or, where `once` is false, on one that does so as often as a frame asks. The
call decides what the rule makes of it (`Call.ChecksEachOnce`): one that checks each
address once runs as it does without the rule (`hosted_of_checksEachOnce`), any other
fails (`refused_once`). So with the rule nothing gets initialized, and everything else
that wants no address to sign in two roles is as before.
-/

namespace LilyContracts.Suite

open Host

variable {A : Type}

/-- The call checks each address at most once. -/
def Call.ChecksEachOnce : Call A → Prop
  | .protocol c => c.ChecksEachOnce
  | .identity c => c.ChecksEachOnce
  | .settlement (.payments c) => c.ChecksEachOnce
  | .settlement (.wallet c) => c.ChecksEachOnce

variable [DecidableEq A] {W : Setting A} {once : Bool}

theorem hosted_protocol (c : Protocol.Call A) :
    hosted once (dispatch W) (.protocol c) =
      protocolPart.embed (hosted once (Protocol.dispatch W.M) c) >>= fun r =>
        pure (.protocol r) :=
  hosted_embed rfl

theorem hosted_identity (c : Identity.Call A) :
    hosted once (dispatch W) (.identity c) =
      identityPart.embed (hosted once (Identity.dispatch W.M) c) >>= fun r =>
        pure (.identity r) :=
  hosted_embed rfl

theorem hosted_settlement (c : System.Call A) :
    hosted once (dispatch W) (.settlement c) =
      settlementPart.embed (hosted once W.settle c) >>= fun r => pure (.settlement r) :=
  hosted_embed rfl

theorem hosted_payments (c : Payments.Call A) :
    hosted once W.settle (.payments c) =
      (System.paymentsPart W.walletAddress).embed (hosted once (Payments.dispatch W.M) c) >>=
        fun r => pure (.payments r) :=
  hosted_embed rfl

theorem hosted_wallet (c : Wallet.Call A) :
    hosted once W.settle (.wallet c) =
      System.walletPart.embed (hosted once (Wallet.dispatch W.M W.nextRevision) c) >>= fun r =>
        pure (.wallet r) :=
  hosted_embed rfl

/-- A call that checks each address once does not see the rule. -/
theorem hosted_of_checksEachOnce {c : Call A} (hc : c.ChecksEachOnce) :
    hosted once (dispatch W) c = dispatch W c := by
  match c with
  | .protocol c =>
    rw [hosted_protocol, hosted_of_fresh (Protocol.authsFresh_dispatch hc)]
    rfl
  | .identity c =>
    rw [hosted_identity, hosted_of_fresh (Identity.authsFresh_dispatch hc)]
    rfl
  | .settlement (.payments c) =>
    rw [hosted_settlement, hosted_payments, hosted_of_fresh (Payments.authsFresh_dispatch hc)]
    rfl
  | .settlement (.wallet c) =>
    rw [hosted_settlement, hosted_wallet, hosted_of_fresh (Wallet.authsFresh_dispatch hc)]
    rfl

theorem stepOf_of_checksEachOnce {s : State A} {tx : Tx A} (hc : tx.call.ChecksEachOnce) :
    stepOf (hosted once (dispatch W)) s tx = stepOf (dispatch W) s tx := by
  rw [stepOf, stepOf, hosted_of_checksEachOnce hc]

end LilyContracts.Suite
