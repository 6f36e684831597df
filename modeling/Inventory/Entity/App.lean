import Inventory.Text.Blank
import Inventory.Text.Utf8
import Inventory.Entity.Flavor

/-!
# Applications

An application is an image of a developer, with the ports it listens on.

The ports are a comma-separated list of entries `protocol:port`. Blanks around an entry and
empty entries are ignored; the protocol is one of three, in any case, and the port a number from
1 to 65535.
-/

namespace Inventory

/-- The key of a developer. -/
structure DeveloperKey where
  name : String
  deriving DecidableEq, Repr

namespace DeveloperKey

instance : Record DeveloperKey where
  schema := .cons 2 "name" (.leaf .text) .nil
  toVal k := (k.name, ())
  ofVal v := ⟨v.1⟩

instance : Ord DeveloperKey := ⟨compareOn name⟩

instance : Std.TransOrd DeveloperKey := inferInstanceAs (Std.TransCmp (compareOn name))

instance : Std.LawfulEqOrd DeveloperKey where
  eq_of_compare {a b} h := by
    obtain ⟨x⟩ := a
    obtain ⟨y⟩ := b
    have h : compare x y = .eq := h
    simpa using h

end DeveloperKey

/-- The key of an application. -/
structure AppKey where
  developerKey : DeveloperKey
  name : String
  version : String
  deriving DecidableEq, Repr

namespace AppKey

instance : Record AppKey where
  schema :=
    .cons 1 "developer_key" (Record.shape DeveloperKey) <|
    .cons 2 "name" (.leaf .text) <|
    .cons 3 "version" (.leaf .text) .nil
  toVal k := (Record.toVal k.developerKey, k.name, k.version, ())
  ofVal v := ⟨Record.ofVal v.1, v.2.1, v.2.2.1⟩

theorem textual : (Record.shape AppKey).Textual :=
  ⟨⟨trivial, trivial⟩, trivial, trivial, trivial⟩

instance : Ord AppKey :=
  ⟨compareLex (compareOn developerKey) (compareLex (compareOn name) (compareOn version))⟩

instance : Std.TransOrd AppKey :=
  inferInstanceAs (Std.TransCmp
    (compareLex (compareOn developerKey) (compareLex (compareOn name) (compareOn version))))

instance : Std.LawfulEqOrd AppKey where
  eq_of_compare {a b} h := by
    cases a; cases b
    have h : (compare _ _).then ((compare _ _).then (compare _ _)) = .eq := h
    simpa using h

/-- Refuses a key without a developer or name, or whose name holds a control character. -/
def validate (k : AppKey) : StoreResult Unit := do
  require k.developerKey.name "app developer"
  require k.name "app name"
  if k.name.toList.any Text.isControl then
    .error (.invalid ("invalid app name " ++ Text.quoted k.name))
  else .ok ()

/-- Whether a key agrees with a filter. -/
def passes (k filter : AppKey) : Bool :=
  textAgrees k.developerKey.name filter.developerKey.name
    && textAgrees k.name filter.name
    && textAgrees k.version filter.version

instance : ObjKey AppKey where
  trans := inferInstance
  lawfulEq := inferInstance
  zero := Record.zero AppKey
  validate := validate
  passes := passes
  keyString := Record.keyString textual
  ofKeyString := Record.ofKeyString textual

end AppKey

/-! ## Ports -/

namespace AccessPorts

/-- The protocols that a port can be open for. -/
def protocols : List String := ["tcp", "udp", "http"]

/-- The number that a text of digits spells; a plus sign may stand before them. -/
def number? (cs : List Char) : Option Nat :=
  let digits := match cs with
    | '+' :: rest => rest
    | _ => cs
  if digits.isEmpty || !digits.all Json.isDigit then none
  else some (digits.foldl (fun n c => n * 10 + (c.toNat - 0x30)) 0)

/-- Refuses an entry that opens no port. -/
def checkEntry (entry : List Char) : StoreResult Unit :=
  let shown := Text.quoted (String.ofList entry)
  match Text.splitFirst ':' entry with
  | none => .error (.invalid ("invalid access port " ++ shown))
  | some (protocol, port) =>
    if !protocols.contains (String.ofList (protocol.map Char.toLower)) then
      .error (.invalid
        ("unsupported protocol " ++ Text.quoted (String.ofList protocol) ++ " in " ++ shown))
    else
      match number? port with
      | some n =>
        if 0 < n ∧ n ≤ 65535 then .ok ()
        else .error (.invalid
          ("invalid port " ++ Text.quoted (String.ofList port) ++ " in " ++ shown))
      | none => .error (.invalid
          ("invalid port " ++ Text.quoted (String.ofList port) ++ " in " ++ shown))

/-- The entries of a list of ports. -/
def entries (ports : String) : List (List Char) :=
  ((Text.splitOn ',' ports.toList).map Text.trimBlank).filter (!·.isEmpty)

/-- Refuses a list of ports one of whose entries opens no port. -/
def validate (ports : String) : StoreResult Unit := (entries ports).forM checkEntry

end AccessPorts

/-- An application. -/
structure App where
  fields : List String
  key : AppKey
  imagePath : String
  imageType : ImageType
  accessPorts : String
  defaultFlavor : FlavorKey
  tags : List String
  deriving DecidableEq, Repr

namespace App

/-- Refuses an application whose key or ports are not allowed. -/
def validate (mask : FieldMap) (a : App) : StoreResult Unit := do
  a.key.validate
  mask.check "6" (AccessPorts.validate a.accessPorts)

/-- Whether an application agrees with a filter. -/
def passes (a filter : App) : Bool :=
  a.key.passes filter.key
    && textAgrees a.imagePath filter.imagePath
    && Leaf.agrees (.choice .imageType) a.imageType filter.imageType
    && textAgrees a.accessPorts filter.accessPorts
    && a.defaultFlavor.passes filter.defaultFlavor

instance : Entity App where
  Key := AppKey
  objKey := inferInstance
  typeName := "App"
  schema :=
    .cons 2 "key" (Record.shape AppKey) <|
    .cons 4 "image_path" (.leaf .text) <|
    .cons 5 "image_type" (.leaf (.choice .imageType)) <|
    .cons 6 "access_ports" (.leaf .text) <|
    .cons 7 "default_flavor" (Record.shape FlavorKey) <|
    .cons 8 "tags" (.leaf .texts) .nil
  fields := App.fields
  body a := (Record.toVal a.key, a.imagePath, a.imageType, a.accessPorts,
    Record.toVal a.defaultFlavor, a.tags, ())
  make fs v := ⟨fs, Record.ofVal v.1, v.2.1, v.2.2.1, v.2.2.2.1, Record.ofVal v.2.2.2.2.1,
    v.2.2.2.2.2.1⟩
  key := App.key
  setKey k a := { a with key := k }
  validate := validate
  passes := passes
  usesOrg org a := a.key.developerKey.name == org

end App

end Inventory
