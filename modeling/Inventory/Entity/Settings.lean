import Inventory.Entity.Basic

/-!
# Settings

The settings of a region. There is one object of this type, so its key holds nothing and its key
string is a fixed word.
-/

namespace Inventory

/-- The key of the settings. -/
structure SettingsKey where
  deriving DecidableEq, Repr

namespace SettingsKey

instance : Ord SettingsKey := ⟨fun _ _ => .eq⟩

instance : Std.TransOrd SettingsKey where
  eq_swap := rfl
  isLE_trans _ _ := rfl

instance : Std.LawfulEqOrd SettingsKey where
  compare_self := rfl
  eq_of_compare _ := rfl

/-- The key string of the settings. -/
def word : String := "settings"

/-- Reads the key string of the settings. -/
def ofKeyString (s : String) : StoreResult SettingsKey :=
  if s = word then .ok {} else .error (.invalid ("invalid settings key " ++ Text.quoted s))

instance : ObjKey SettingsKey where
  trans := inferInstance
  lawfulEq := inferInstance
  zero := {}
  validate _ := .ok ()
  passes _ _ := true
  keyString _ := word
  ofKeyString := ofKeyString

end SettingsKey

/-- The settings of a region. -/
structure Settings where
  fields : List String
  shepherdMetricsCollectionIntervalSec : UInt64
  shepherdHealthCheckRetries : UInt32
  autoDeployIntervalSec : Double
  autoDeployOffsetSec : Double
  loadBalancerMaxPortRange : UInt32
  createAppInstTimeoutSec : UInt64
  masterNodeFlavor : String
  maxTrackedDmeClients : UInt32
  deriving DecidableEq, Repr

namespace Settings

/-- The settings of a new region. -/
def initial : Settings where
  fields := []
  shepherdMetricsCollectionIntervalSec := 5
  shepherdHealthCheckRetries := 3
  autoDeployIntervalSec := Double.ofNat 300
  autoDeployOffsetSec := Double.ofNat 20
  loadBalancerMaxPortRange := 50
  createAppInstTimeoutSec := 1800
  masterNodeFlavor := ""
  maxTrackedDmeClients := 100

/-- Refuses a range of ports that is empty or larger than the number of ports. -/
def checkPortRange (range : Nat) : StoreResult Unit :=
  if range = 0 ∨ 65536 ≤ range then
    .error (.invalid ("invalid load_balancer_max_port_range: " ++ range.repr ++
      " must be between 1 and 65535"))
  else .ok ()

/-- Refuses settings one of whose selected values is not allowed. -/
def validate (mask : FieldMap) (s : Settings) : StoreResult Unit := do
  mask.check "2" (requirePositive "shepherd_metrics_collection_interval_sec"
    (Double.ofNat s.shepherdMetricsCollectionIntervalSec.toNat))
  mask.check "3" (requirePositive "shepherd_health_check_retries"
    (Double.ofNat s.shepherdHealthCheckRetries.toNat))
  mask.check "4" (requirePositive "auto_deploy_interval_sec" s.autoDeployIntervalSec)
  mask.check "5" (requireNonnegative "auto_deploy_offset_sec" s.autoDeployOffsetSec)
  mask.check "6" (checkPortRange s.loadBalancerMaxPortRange.toNat)
  mask.check "7" (requirePositive "create_app_inst_timeout_sec"
    (Double.ofNat s.createAppInstTimeoutSec.toNat))
  mask.check "9" (requirePositive "max_tracked_dme_clients"
    (Double.ofNat s.maxTrackedDmeClients.toNat))

/-- Whether settings agree with a filter. -/
def passes (s filter : Settings) : Bool :=
  Leaf.agrees .word64 s.shepherdMetricsCollectionIntervalSec
      filter.shepherdMetricsCollectionIntervalSec
    && Leaf.agrees .word32 s.shepherdHealthCheckRetries filter.shepherdHealthCheckRetries
    && realAgrees s.autoDeployIntervalSec filter.autoDeployIntervalSec
    && realAgrees s.autoDeployOffsetSec filter.autoDeployOffsetSec
    && Leaf.agrees .word32 s.loadBalancerMaxPortRange filter.loadBalancerMaxPortRange
    && Leaf.agrees .word64 s.createAppInstTimeoutSec filter.createAppInstTimeoutSec
    && textAgrees s.masterNodeFlavor filter.masterNodeFlavor
    && Leaf.agrees .word32 s.maxTrackedDmeClients filter.maxTrackedDmeClients

instance : Entity Settings where
  Key := SettingsKey
  objKey := inferInstance
  typeName := "Settings"
  schema :=
    .cons 2 "shepherd_metrics_collection_interval_sec" (.leaf .word64) <|
    .cons 3 "shepherd_health_check_retries" (.leaf .word32) <|
    .cons 4 "auto_deploy_interval_sec" (.leaf .real) <|
    .cons 5 "auto_deploy_offset_sec" (.leaf .real) <|
    .cons 6 "load_balancer_max_port_range" (.leaf .word32) <|
    .cons 7 "create_app_inst_timeout_sec" (.leaf .word64) <|
    .cons 8 "master_node_flavor" (.leaf .text) <|
    .cons 9 "max_tracked_dme_clients" (.leaf .word32) .nil
  fields := Settings.fields
  body s := (s.shepherdMetricsCollectionIntervalSec, s.shepherdHealthCheckRetries,
    s.autoDeployIntervalSec, s.autoDeployOffsetSec, s.loadBalancerMaxPortRange,
    s.createAppInstTimeoutSec, s.masterNodeFlavor, s.maxTrackedDmeClients, ())
  make fs v := ⟨fs, v.1, v.2.1, v.2.2.1, v.2.2.2.1, v.2.2.2.2.1, v.2.2.2.2.2.1,
    v.2.2.2.2.2.2.1, v.2.2.2.2.2.2.2.1⟩
  key _ := {}
  setKey _ s := s
  validate := validate
  passes := passes
  usesOrg _ _ := false

end Settings

end Inventory
