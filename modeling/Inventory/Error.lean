import Inventory.Text.Quoted

/-!
# Errors

Three layers can refuse a request: the key-value store, the encodings of keys and values, and
the typed operations above both. Each layer has its causes, and each cause has one wording. An
error of a lower layer becomes one of the typed operations by `StoreError.ofKv` and
`StoreError.codec`.
-/

namespace Inventory

/-- Why the key-value store refused an operation. -/
inductive KvError where
  | notFound (key : String)
  | alreadyExists (key : String)
  | conflict (message : String)
  | unavailable (message : String)
  deriving DecidableEq, Repr

namespace KvError

/-- The wording of a refusal by the key-value store. -/
def message : KvError → String
  | notFound key => "key " ++ key ++ " not found"
  | alreadyExists key => "key " ++ key ++ " already exists"
  | conflict m => "revision conflict: " ++ m
  | unavailable m => "backend unavailable: " ++ m

end KvError

/-- Why a key or value could not be written or read. -/
inductive CodecError where
  | encodingFailed (message : String)
  | decodingFailed (message : String)
  | invalidKeyString (input message : String)
  deriving DecidableEq, Repr

namespace CodecError

/-- The wording of a key or value that could not be written or read. -/
def message : CodecError → String
  | encodingFailed m => "encoding failed: " ++ m
  | decodingFailed m => "decoding failed: " ++ m
  | invalidKeyString input m => "invalid key string " ++ Text.quoted input ++ ": " ++ m

/-- What stands for the detail of a refusal where the reader gives none. -/
def noDetail : String := "*"

end CodecError

/-- Why a typed operation failed. -/
inductive StoreError where
  | notFound (key : String)
  | alreadyExists (key : String)
  | conflict (message : String)
  | invalid (message : String)
  | corrupt (key message : String)
  | unavailable (message : String)
  | timeout (message : String)
  | cancelled
  | codec (cause : CodecError)
  deriving DecidableEq, Repr

namespace StoreError

/-- The wording of a failure. -/
def message : StoreError → String
  | notFound key => key ++ " not found"
  | alreadyExists key => key ++ " already exists"
  | conflict m => "conflict: " ++ m
  | invalid m => "invalid: " ++ m
  | corrupt key m => "corrupt record at " ++ key ++ ": " ++ m
  | unavailable m => "unavailable: " ++ m
  | timeout m => "timed out: " ++ m
  | cancelled => "operation cancelled"
  | codec cause => "codec error: " ++ cause.message

/-- A refusal by the key-value store, seen from a typed operation. -/
def ofKv : KvError → StoreError
  | .notFound key => notFound key
  | .alreadyExists key => alreadyExists key
  | .conflict m => conflict m
  | .unavailable m => unavailable m

/-- Whether the same request may succeed later. -/
def isRetryable : StoreError → Bool
  | conflict _ | unavailable _ => true
  | _ => false

end StoreError

/-- The result of an operation of the key-value store. -/
abbrev KvResult := Except KvError

/-- The result of a typed operation. -/
abbrev StoreResult := Except StoreError

/-- The result of an operation of the key-value store, seen from a typed operation. -/
def KvResult.lift {α : Type} : KvResult α → StoreResult α
  | .ok a => .ok a
  | .error e => .error (.ofKv e)

end Inventory
