import Inventory.Policy
import Inventory.Transaction.Program

/-!
# Transactions

A transaction is tried until it commits. A conflict is the only reason to try again; when the
body fails or the store refuses the commit for another reason, that is the end. A transaction
that has met with a conflict as often as its policy allows tells the last one.

`transactWith` is for a body with a state of its own, which survives from try to try, and which
may let others use the store at any moment. `transact` is for a plain program.
-/

namespace Inventory

/-- The body of a transaction with a state of type `σ`; it is told the number of the try, counted
from zero. -/
abbrev Body (σ : Type) := Nat → Running → σ → StoreResult Unit × Running × σ

/-- One try of a transaction: the revision of the commit, or what stopped it. A conflict at the
commit, after which there is another try, stands apart from the failures that are final. -/
inductive Try where
  | committed (rev : Revision)
  | conflicted (message : String)
  | failed (e : StoreError)
  deriving DecidableEq, Repr

/-- What a commit came to. -/
def Try.ofCommit : KvResult Revision → Try
  | .ok rev => committed rev
  | .error (.conflict m) => conflicted m
  | .error e => failed (.ofKv e)

/-- Tries a transaction once. -/
def tryOnce {σ : Type} (body : Running → σ → StoreResult Unit × Running × σ) (w : Shared)
    (s : σ) : Try × Shared × σ :=
  match Running.begin w with
  | (.error e, w) => (.failed (.ofKv e), w, s)
  | (.ok r, _) =>
    match body r s with
    | (.error e, r, s) => (.failed e, r.toShared, s)
    | (.ok (), r, s) =>
      let (result, w) := r.commit
      (.ofCommit result, w, s)

/-- Tries a transaction until it commits, given how many of the tries remain and what the conflict
before them was. -/
def transactFrom {σ : Type} (attempts : Nat) (body : Body σ) :
    Nat → String → Shared → σ → StoreResult Revision × Shared × σ
  | 0, last, w, s =>
    (.error (.conflict ("transaction failed after " ++ attempts.repr ++ " attempts: " ++ last)),
      w, s)
  | left + 1, _, w, s =>
    match tryOnce (body (attempts - (left + 1))) w s with
    | (.committed rev, w, s) => (.ok rev, w, s)
    | (.failed e, w, s) => (.error e, w, s)
    | (.conflicted m, w, s) => transactFrom attempts body left m w s

/-- Runs a transaction whose body has a state: the revision of the commit, or why there is
none. -/
def transactWith {σ : Type} (policy : RetryPolicy) (body : Body σ) (w : Shared) (s : σ) :
    StoreResult Revision × Shared × σ :=
  transactFrom policy.attempts body policy.attempts "" w s

/-- Runs a program as a transaction: the revision of the commit, or why there is none. -/
def transact (policy : RetryPolicy) (p : Program Unit) (w : Shared) :
    StoreResult Revision × Shared :=
  let (result, w, _) := transactWith policy
    (fun _ r (_ : Unit) =>
      let (result, r) := p.run r
      (result, r, ())) w ()
  (result, w)

end Inventory
