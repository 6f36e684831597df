import Inventory.Transaction.Session

/-!
# What a transaction does

A `Program` is the body of a transaction: a sequence of reads and planned writes that ends with
a value or a failure. Which step comes next depends on nothing but the answers to the steps
before, so a program can be run again from the start.

The steps are a read, a question for the revision that a key had when it was read, a question for
the revision that the transaction began at, a put and a delete.
-/

namespace Inventory

/-- The body of a transaction that gives a value. -/
inductive Program (α : Type) where
  | pure (a : α)
  | fail (e : StoreError)
  | get (key : String) (next : KvResult (Option Bytes) → Program α)
  | revision (key : String) (next : Revision → Program α)
  | snapshot (next : Revision → Program α)
  | plan (key : String) (value : Option Bytes) (next : Program α)

namespace Program

variable {α β : Type}

/-- One program after another; a failure ends both. -/
def bind (p : Program α) (f : α → Program β) : Program β :=
  match p with
  | pure a => f a
  | fail e => fail e
  | get key next => get key fun v => (next v).bind f
  | revision key next => revision key fun v => (next v).bind f
  | snapshot next => snapshot fun v => (next v).bind f
  | plan key value next => plan key value (next.bind f)

instance : Monad Program where
  pure := pure
  bind := bind

/-- The program that gives a result. -/
def ofExcept : StoreResult α → Program α
  | .ok a => pure a
  | .error e => fail e

/-- A program that ends with its result instead of failing. -/
def attempt : Program α → Program (StoreResult α)
  | pure a => pure (.ok a)
  | fail e => pure (.error e)
  | get key next => get key fun v => (next v).attempt
  | revision key next => revision key fun v => (next v).attempt
  | snapshot next => snapshot fun v => (next v).attempt
  | plan key value next => plan key value next.attempt

/-- What stands under a key. -/
def read (key : String) : Program (Option Bytes) := get key fun v => ofExcept v.lift

/-- Puts a value under a key. -/
def write (key : String) (value : Bytes) : Program Unit := plan key (some value) (pure ())

/-- Deletes a key. -/
def erase (key : String) : Program Unit := plan key none (pure ())

/-- The revision that a key had when it was read, zero if it was absent or not read. -/
def revisionOf (key : String) : Program Revision := revision key pure

/-- The revision that the transaction began at. -/
def began : Program Revision := snapshot pure

/-- Runs a program in a transaction. -/
def run : Program α → Running → StoreResult α × Running
  | pure a, r => (.ok a, r)
  | fail e, r => (.error e, r)
  | get key next, r =>
    let (v, r) := r.get key
    (next v).run r
  | revision key next, r => (next (r.session.revision key)).run r
  | snapshot next, r => (next r.session.snapshot).run r
  | plan key value next, r => next.run (r.plan key value)

end Program

end Inventory
