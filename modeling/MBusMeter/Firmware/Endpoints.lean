import MBusMeter.Firmware.ZigbeeMeter

/-!
# The endpoints of the meter (`zigbee_meter.c`)

Before the stack is started, `zigbee_meter_create_ep` creates the attributes,
and `zigbee_meter_configure_reporting` says of which the coordinator is told
by itself. Each takes the constants from the stack's headers again, which the
update functions take from there as well, but for the second tier: that one
they count up from the first.

Only the clusters with values of the meter are here. The basic and the
identify cluster of the first endpoint have none.
-/

namespace MBusMeter.Firmware

/-- The types a metering attribute is created with. -/
inductive AttrType where
  | bitmap8
  | enum8
  | u24
  | bit24
  | u48
  deriving DecidableEq, Repr

/-- A value an attribute is created with. Some are in types that no value is
updated in. -/
inductive InitialVal where
  | uint8 (value : UInt8)
  | uint32 (value : UInt32)
  | updated (value : AttributeVal)
  deriving DecidableEq, Repr

/-- An attribute, as it is added to a cluster. For electrical measurement the
stack knows the type; for metering it is given, and whether the attribute can
be reported. -/
structure AddedAttr where
  attrId : UInt16
  value : InitialVal
  declared : Option (AttrType × Bool)
  deriving DecidableEq, Repr

/-- An endpoint with its cluster. -/
structure Endpoint where
  endpoint : UInt8
  clusterId : UInt16
  attrs : List AddedAttr

/-- The change from which on a value is reported, in the type of the
attribute. -/
inductive Delta where
  | s16 (value : Int16)
  | u16 (value : UInt16)
  | s24 (low : UInt16)
  | u48 (low : UInt32)
  deriving DecidableEq, Repr

/-- `esp_zb_zcl_reporting_info_t`, as far as it differs between attributes,
and the intervals. -/
structure ReportingInfo where
  attr : Attribute
  minInterval : UInt16
  maxInterval : UInt16
  defMinInterval : UInt16
  defMaxInterval : UInt16
  delta : Delta
  deriving DecidableEq, Repr

/-- The stack, with the constants of the headers that are used to create the
attributes. The second tier is two behind the first. -/
structure EspZcl extends EspZigbee where
  MEASUREMENT_TYPE_ID : UInt16
  ACCURRENT_DIVISOR_ID : UInt16
  METERING_DEVICE_TYPE_ID : UInt16
  UNIT_OF_MEASURE_ID : UInt16
  SUMMATION_FORMATTING_ID : UInt16
  DEMAND_FORMATTING_ID : UInt16
  DIVISOR_ID : UInt16
  CURRENT_TIER2_SUMMATION_RECEIVED_ID : UInt16
  CURRENT_TIER2_SUMMATION_DELIVERED_ID : UInt16
  ELECTRIC_METERING : UInt8
  allElectricalIds : [MEASUREMENT_TYPE_ID, ACTIVE_POWER_ID, RMSVOLTAGE_ID,
    RMSCURRENT_ID, ACCURRENT_DIVISOR_ID].Nodup
  allMeteringIds : [METERING_DEVICE_TYPE_ID, UNIT_OF_MEASURE_ID,
    SUMMATION_FORMATTING_ID, DEMAND_FORMATTING_ID, DIVISOR_ID,
    INSTANTANEOUS_DEMAND_ID, CURRENT_SUMMATION_DELIVERED_ID,
    CURRENT_SUMMATION_RECEIVED_ID, CURRENT_TIER1_SUMMATION_DELIVERED_ID,
    CURRENT_TIER1_SUMMATION_RECEIVED_ID, CURRENT_TIER2_SUMMATION_DELIVERED_ID,
    CURRENT_TIER2_SUMMATION_RECEIVED_ID].Nodup
  tier2Received : CURRENT_TIER2_SUMMATION_RECEIVED_ID =
    CURRENT_TIER1_SUMMATION_RECEIVED_ID + 2
  tier2Delivered : CURRENT_TIER2_SUMMATION_DELIVERED_ID =
    CURRENT_TIER1_SUMMATION_DELIVERED_ID + 2

namespace EspZcl

variable (zb : EspZcl)

/-- `PHASE_A_MEASUREMENT`. -/
def PHASE_A_MEASUREMENT : UInt32 := 3

/-- `esp_zb_electrical_meas_cluster_add_attr`. -/
def addElectrical (attrId : UInt16) (value : InitialVal) : AddedAttr :=
  { attrId, value, declared := none }

/-- `esp_zb_cluster_add_attr`, always read only. -/
def addMetering (attrId : UInt16) (type : AttrType) (reporting : Bool)
    (value : InitialVal) : AddedAttr :=
  { attrId, value, declared := some (type, reporting) }

def createElectricalMeasurementEp (phase : Nat) : Endpoint where
  endpoint := EspZigbee.phaseEndpoint phase
  clusterId := zb.ELECTRICAL_MEASUREMENT
  attrs :=
    [addElectrical zb.MEASUREMENT_TYPE_ID
      (.uint32 (1 <<< PHASE_A_MEASUREMENT))] ++
    (if phase = 0 then
      [addElectrical zb.ACTIVE_POWER_ID (.updated (.int16 0))]
    else []) ++
    [addElectrical zb.RMSVOLTAGE_ID (.updated (.uint16 235)),
      addElectrical zb.RMSCURRENT_ID (.updated (.uint16 0)),
      addElectrical zb.ACCURRENT_DIVISOR_ID (.updated (.uint16 100))]

/-- Leading zeros suppressed, six digits before the point and three behind. -/
def summationFormatting : UInt8 :=
  (0x80 : UInt8) ||| (6 : UInt8) <<< (3 : UInt8) ||| (3 : UInt8)

def createMeteringEp : Endpoint where
  endpoint := METERING_ENDPOINT_ID
  clusterId := zb.METERING
  attrs :=
    [addMetering zb.METERING_DEVICE_TYPE_ID .bitmap8 false
      (.uint8 zb.ELECTRIC_METERING),
    addMetering zb.UNIT_OF_MEASURE_ID .enum8 false (.uint8 0),
    addMetering zb.SUMMATION_FORMATTING_ID .bitmap8 false
      (.uint8 summationFormatting),
    addMetering zb.DEMAND_FORMATTING_ID .bitmap8 false
      (.uint8 summationFormatting),
    addMetering zb.DIVISOR_ID .u24 false (.uint32 1000),
    addMetering zb.INSTANTANEOUS_DEMAND_ID .bit24 true (.updated (.int32 0)),
    addMetering zb.CURRENT_SUMMATION_DELIVERED_ID .u48 true
      (.updated (.uint64 0)),
    addMetering zb.CURRENT_SUMMATION_RECEIVED_ID .u48 true
      (.updated (.uint64 0)),
    addMetering zb.CURRENT_TIER1_SUMMATION_DELIVERED_ID .u48 true
      (.updated (.uint64 0)),
    addMetering zb.CURRENT_TIER1_SUMMATION_RECEIVED_ID .u48 true
      (.updated (.uint64 0)),
    addMetering zb.CURRENT_TIER2_SUMMATION_DELIVERED_ID .u48 true
      (.updated (.uint64 0)),
    addMetering zb.CURRENT_TIER2_SUMMATION_RECEIVED_ID .u48 true
      (.updated (.uint64 0))]

/-- `zigbee_meter_create_ep`. -/
def zigbeeMeterCreateEp : List Endpoint :=
  zb.createMeteringEp ::
    (List.range 3).map zb.createElectricalMeasurementEp

/-! ## Reporting -/

/-- An entry, with the intervals all of them have. -/
def reportingInfo (endpoint : UInt8) (clusterId attrId : UInt16)
    (delta : Delta) : ReportingInfo where
  attr := ⟨endpoint, clusterId, attrId⟩
  minInterval := 5
  maxInterval := 120
  defMinInterval := 5
  defMaxInterval := 120
  delta := delta

def configureElectricalMeasurementReporting (phase : Nat) :
    List ReportingInfo :=
  let info := reportingInfo (EspZigbee.phaseEndpoint phase)
    zb.ELECTRICAL_MEASUREMENT
  (if phase = 0 then [info zb.ACTIVE_POWER_ID (.s16 1)] else []) ++
    [info zb.RMSVOLTAGE_ID (.u16 1), info zb.RMSCURRENT_ID (.u16 1)]

def configureMeteringReporting : List ReportingInfo :=
  let info := reportingInfo METERING_ENDPOINT_ID zb.METERING
  [info zb.INSTANTANEOUS_DEMAND_ID (.s24 1),
    info zb.CURRENT_SUMMATION_DELIVERED_ID (.u48 1),
    info zb.CURRENT_SUMMATION_RECEIVED_ID (.u48 1),
    info zb.CURRENT_TIER1_SUMMATION_DELIVERED_ID (.u48 1),
    info zb.CURRENT_TIER1_SUMMATION_RECEIVED_ID (.u48 1),
    info zb.CURRENT_TIER2_SUMMATION_DELIVERED_ID (.u48 1),
    info zb.CURRENT_TIER2_SUMMATION_RECEIVED_ID (.u48 1)]

/-- `zigbee_meter_configure_reporting`. -/
def zigbeeMeterConfigureReporting : List ReportingInfo :=
  zb.configureMeteringReporting ++
    (List.range 3).flatMap zb.configureElectricalMeasurementReporting

end EspZcl

end MBusMeter.Firmware
