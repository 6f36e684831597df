import Inventory.Entity.Basic

/-!
# Rate limits

How many requests of a kind are served: a flow that requests join, and a number of requests in
an interval.
-/

namespace Inventory

/-- The key of a rate limit. -/
structure RateLimitSettingsKey where
  apiName : String
  apiEndpointType : String
  rateLimitTarget : String
  deriving DecidableEq, Repr

namespace RateLimitSettingsKey

instance : Record RateLimitSettingsKey where
  schema :=
    .cons 1 "api_name" (.leaf .text) <|
    .cons 2 "api_endpoint_type" (.leaf .text) <|
    .cons 3 "rate_limit_target" (.leaf .text) .nil
  toVal k := (k.apiName, k.apiEndpointType, k.rateLimitTarget, ())
  ofVal v := ⟨v.1, v.2.1, v.2.2.1⟩

theorem textual : (Record.shape RateLimitSettingsKey).Textual :=
  ⟨trivial, trivial, trivial, trivial⟩

instance : Ord RateLimitSettingsKey :=
  ⟨compareLex (compareOn apiName)
    (compareLex (compareOn apiEndpointType) (compareOn rateLimitTarget))⟩

instance : Std.TransOrd RateLimitSettingsKey :=
  inferInstanceAs (Std.TransCmp (compareLex (compareOn apiName)
    (compareLex (compareOn apiEndpointType) (compareOn rateLimitTarget))))

instance : Std.LawfulEqOrd RateLimitSettingsKey where
  eq_of_compare {a b} h := by
    cases a; cases b
    have h : (compare _ _).then ((compare _ _).then (compare _ _)) = .eq := h
    simpa using h

/-- Refuses a key one of whose parts is missing. -/
def validate (k : RateLimitSettingsKey) : StoreResult Unit := do
  require k.apiName "rate limit api name"
  require k.apiEndpointType "rate limit endpoint type"
  require k.rateLimitTarget "rate limit target"

/-- Whether a key agrees with a filter. -/
def passes (k filter : RateLimitSettingsKey) : Bool :=
  textAgrees k.apiName filter.apiName
    && textAgrees k.apiEndpointType filter.apiEndpointType
    && textAgrees k.rateLimitTarget filter.rateLimitTarget

instance : ObjKey RateLimitSettingsKey where
  trans := inferInstance
  lawfulEq := inferInstance
  zero := Record.zero RateLimitSettingsKey
  validate := validate
  passes := passes
  keyString := Record.keyString textual
  ofKeyString := Record.ofKeyString textual

end RateLimitSettingsKey

/-- The flow that requests join. -/
structure FlowSettings where
  flowAlgorithm : FlowAlgorithm
  reqsPerSecond : Double
  burstSize : Int64
  deriving DecidableEq

namespace FlowSettings

instance : Record FlowSettings where
  schema :=
    .cons 1 "flow_algorithm" (.leaf (.choice .flowAlgorithm)) <|
    .cons 2 "reqs_per_second" (.leaf .real) <|
    .cons 3 "burst_size" (.leaf .int64) .nil
  toVal f := (f.flowAlgorithm, f.reqsPerSecond, f.burstSize, ())
  ofVal v := ⟨v.1, v.2.1, v.2.2.1⟩

/-- Whether a flow agrees with a filter. -/
def passes (f filter : FlowSettings) : Bool :=
  Leaf.agrees (.choice .flowAlgorithm) f.flowAlgorithm filter.flowAlgorithm
    && realAgrees f.reqsPerSecond filter.reqsPerSecond
    && Leaf.agrees .int64 f.burstSize filter.burstSize

end FlowSettings

/-- A number of requests in an interval. -/
structure MaxReqsSettings where
  maxRequests : Int64
  intervalSec : UInt64
  deriving DecidableEq

namespace MaxReqsSettings

instance : Record MaxReqsSettings where
  schema :=
    .cons 1 "max_requests" (.leaf .int64) <|
    .cons 2 "interval_sec" (.leaf .word64) .nil
  toVal m := (m.maxRequests, m.intervalSec, ())
  ofVal v := ⟨v.1, v.2.1⟩

/-- Whether a number of requests agrees with a filter. -/
def passes (m filter : MaxReqsSettings) : Bool :=
  Leaf.agrees .int64 m.maxRequests filter.maxRequests
    && Leaf.agrees .word64 m.intervalSec filter.intervalSec

end MaxReqsSettings

/-- A rate limit. -/
structure RateLimitSettings where
  fields : List String
  key : RateLimitSettingsKey
  flowSettings : FlowSettings
  maxReqsSettings : MaxReqsSettings
  deriving DecidableEq

namespace RateLimitSettings

/-- Refuses a rate limit that would let no request pass. -/
def validate (mask : FieldMap) (r : RateLimitSettings) : StoreResult Unit := do
  r.key.validate
  mask.check "3.2" (requirePositive "reqs_per_second" r.flowSettings.reqsPerSecond)
  mask.check "3.3"
    (requirePositive "burst_size" (Double.ofInt r.flowSettings.burstSize.toInt))
  mask.check "4.1"
    (requirePositive "max_requests" (Double.ofInt r.maxReqsSettings.maxRequests.toInt))
  mask.check "4.2"
    (requirePositive "interval_sec" (Double.ofNat r.maxReqsSettings.intervalSec.toNat))

/-- Whether a rate limit agrees with a filter. -/
def passes (r filter : RateLimitSettings) : Bool :=
  r.key.passes filter.key
    && r.flowSettings.passes filter.flowSettings
    && r.maxReqsSettings.passes filter.maxReqsSettings

instance : Entity RateLimitSettings where
  Key := RateLimitSettingsKey
  objKey := inferInstance
  typeName := "RateLimitSettings"
  schema :=
    .cons 2 "key" (Record.shape RateLimitSettingsKey) <|
    .cons 3 "flow_settings" (Record.shape FlowSettings) <|
    .cons 4 "max_reqs_settings" (Record.shape MaxReqsSettings) .nil
  fields := RateLimitSettings.fields
  body r := (Record.toVal r.key, Record.toVal r.flowSettings, Record.toVal r.maxReqsSettings, ())
  make fs v := ⟨fs, Record.ofVal v.1, Record.ofVal v.2.1, Record.ofVal v.2.2.1⟩
  key := RateLimitSettings.key
  setKey k r := { r with key := k }
  validate := validate
  passes := passes
  usesOrg _ _ := false

end RateLimitSettings

end Inventory
