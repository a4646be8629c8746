import MBusMeter.Firmware.Pdu

/-!
# The attributes of the meter (`zigbee_meter.c`)

The values of the meter are attributes of the Zigbee stack. The
`zigbee_meter_update_*` functions write them under the stack's lock, and a
write the stack refuses is logged and otherwise passed over. All of them write
what they are given but the one for the active power: it remembers the value
it was called with, and when the same value comes again it returns at once.

The stack is a library and not part of this program. `EspZigbee` is what the
functions use of it, with what it promises about a write.
-/

namespace MBusMeter.Firmware

open Pdu

def METERING_ENDPOINT_ID : UInt8 := 10

def ELECTRICAL_MEASUREMENT_ENDPOINT_FIRST_ID : UInt8 := 11

/-- What says which attribute is meant. The role is always the server's. -/
structure Attribute where
  endpoint : UInt8
  clusterId : UInt16
  attrId : UInt16
  deriving DecidableEq, Repr

/-- A value, in the type it is handed over in. -/
inductive AttributeVal where
  | int16 (value : Int16)
  | int32 (value : Int32)
  | uint16 (value : UInt16)
  | uint64 (value : UInt64)
  deriving DecidableEq, Repr

/-- The stack: the constants of its headers, the calls that are made, and what
an attribute holds. The attributes of a cluster are different ones. A write is
done and answered with success, or it is answered otherwise and changes
nothing; the lock has nothing to do with the attributes. -/
structure EspZigbee where
  ELECTRICAL_MEASUREMENT : UInt16
  METERING : UInt16
  ACTIVE_POWER_ID : UInt16
  RMSCURRENT_ID : UInt16
  RMSVOLTAGE_ID : UInt16
  INSTANTANEOUS_DEMAND_ID : UInt16
  CURRENT_SUMMATION_RECEIVED_ID : UInt16
  CURRENT_SUMMATION_DELIVERED_ID : UInt16
  CURRENT_TIER1_SUMMATION_RECEIVED_ID : UInt16
  CURRENT_TIER1_SUMMATION_DELIVERED_ID : UInt16
  STATUS_SUCCESS : UInt8
  electricalIds : [ACTIVE_POWER_ID, RMSCURRENT_ID, RMSVOLTAGE_ID].Nodup
  meteringIds : [INSTANTANEOUS_DEMAND_ID, CURRENT_SUMMATION_RECEIVED_ID,
    CURRENT_SUMMATION_DELIVERED_ID, CURRENT_TIER1_SUMMATION_RECEIVED_ID,
    CURRENT_TIER1_SUMMATION_RECEIVED_ID + 2,
    CURRENT_TIER1_SUMMATION_DELIVERED_ID,
    CURRENT_TIER1_SUMMATION_DELIVERED_ID + 2].Nodup
  State : Type
  lockAcquire : State → State
  lockRelease : State → State
  setAttributeVal : Attribute → AttributeVal → State → UInt8 × State
  attributeVal : State → Attribute → AttributeVal
  acquired : ∀ state attr,
    attributeVal (lockAcquire state) attr = attributeVal state attr
  released : ∀ state attr,
    attributeVal (lockRelease state) attr = attributeVal state attr
  stored : ∀ attr value state,
    (setAttributeVal attr value state).1 = STATUS_SUCCESS → ∀ other,
      attributeVal (setAttributeVal attr value state).2 other =
        if other = attr then value else attributeVal state other
  refused : ∀ attr value state,
    (setAttributeVal attr value state).1 ≠ STATUS_SUCCESS → ∀ other,
      attributeVal (setAttributeVal attr value state).2 other =
        attributeVal state other

namespace EspZigbee

variable (zb : EspZigbee)

def activePower : Attribute where
  endpoint := ELECTRICAL_MEASUREMENT_ENDPOINT_FIRST_ID
  clusterId := zb.ELECTRICAL_MEASUREMENT
  attrId := zb.ACTIVE_POWER_ID

def instantaneousDemand : Attribute where
  endpoint := METERING_ENDPOINT_ID
  clusterId := zb.METERING
  attrId := zb.INSTANTANEOUS_DEMAND_ID

/-- A write under the lock. The answer goes into a log line. -/
def setLocked (attr : Attribute) (value : AttributeVal) (state : zb.State) :
    zb.State :=
  zb.lockRelease (zb.setAttributeVal attr value (zb.lockAcquire state)).2

def updateElectricalMeasurementUint16Attr (endpoint : UInt8) (attrId : UInt16)
    (value : UInt16) : zb.State → zb.State :=
  zb.setLocked ⟨endpoint, zb.ELECTRICAL_MEASUREMENT, attrId⟩ (.uint16 value)

def updateMeteringUint64Attr (endpoint : UInt8) (attrId : UInt16)
    (value : UInt64) : zb.State → zb.State :=
  zb.setLocked ⟨endpoint, zb.METERING, attrId⟩ (.uint64 value)

/-- What the functions work on: the value `prev` of
`zigbee_meter_update_active_power`, which is 0 at first, and the stack. -/
structure Meter where
  prev : Int16
  state : zb.State

def zigbeeMeterUpdateActivePower (powerWatts : Int16) (meter : zb.Meter) :
    zb.Meter :=
  if meter.prev = powerWatts then meter
  else
    let (status, state) := zb.setAttributeVal zb.activePower
      (.int16 powerWatts) (zb.lockAcquire meter.state)
    if status ≠ zb.STATUS_SUCCESS then
      { prev := powerWatts, state := zb.lockRelease state }
    else
      -- Whatever the answer is now, nothing is left to do but to log it.
      let (_, state) := zb.setAttributeVal zb.instantaneousDemand
        (.int32 powerWatts.toInt32) state
      { prev := powerWatts, state := zb.lockRelease state }

/-- The endpoint of a phase. -/
def phaseEndpoint (phase : Nat) : UInt8 :=
  ELECTRICAL_MEASUREMENT_ENDPOINT_FIRST_ID + phase.toUInt8

def zigbeeMeterUpdateRmsCurrent (phase : Nat) (currentAmps : UInt16) :
    zb.State → zb.State :=
  zb.updateElectricalMeasurementUint16Attr (phaseEndpoint phase)
    zb.RMSCURRENT_ID currentAmps

def zigbeeMeterUpdateRmsVoltage (phase : Nat) (voltageVolts : UInt16) :
    zb.State → zb.State :=
  zb.updateElectricalMeasurementUint16Attr (phaseEndpoint phase)
    zb.RMSVOLTAGE_ID voltageVolts

def zigbeeMeterUpdateSummationReceived (energy : UInt64) :
    zb.State → zb.State :=
  zb.updateMeteringUint64Attr METERING_ENDPOINT_ID
    zb.CURRENT_SUMMATION_RECEIVED_ID energy

def zigbeeMeterUpdateSummationDelivered (energy : UInt64) :
    zb.State → zb.State :=
  zb.updateMeteringUint64Attr METERING_ENDPOINT_ID
    zb.CURRENT_SUMMATION_DELIVERED_ID energy

def zigbeeMeterUpdateTierSummationReceived (tier : Nat) (energy : UInt64) :
    zb.State → zb.State :=
  zb.updateMeteringUint64Attr METERING_ENDPOINT_ID
    (zb.CURRENT_TIER1_SUMMATION_RECEIVED_ID + 2 * tier.toUInt16) energy

def zigbeeMeterUpdateTierSummationDelivered (tier : Nat) (energy : UInt64) :
    zb.State → zb.State :=
  zb.updateMeteringUint64Attr METERING_ENDPOINT_ID
    (zb.CURRENT_TIER1_SUMMATION_DELIVERED_ID + 2 * tier.toUInt16) energy

/-- What a `zigbee_meter_update_*` function does to the meter. -/
def zigbeeMeterUpdate (meter : zb.Meter) : MeterUpdate → zb.Meter
  | .activePower powerWatts =>
      zb.zigbeeMeterUpdateActivePower powerWatts meter
  | .rmsCurrent phase currentAmps => { meter with
      state := zb.zigbeeMeterUpdateRmsCurrent phase currentAmps meter.state }
  | .rmsVoltage phase voltageVolts => { meter with
      state := zb.zigbeeMeterUpdateRmsVoltage phase voltageVolts meter.state }
  | .summationReceived energy => { meter with
      state := zb.zigbeeMeterUpdateSummationReceived energy meter.state }
  | .summationDelivered energy => { meter with
      state := zb.zigbeeMeterUpdateSummationDelivered energy meter.state }
  | .tierSummationReceived tier energy => { meter with
      state :=
        zb.zigbeeMeterUpdateTierSummationReceived tier energy meter.state }
  | .tierSummationDelivered tier energy => { meter with
      state :=
        zb.zigbeeMeterUpdateTierSummationDelivered tier energy meter.state }

end EspZigbee

end MBusMeter.Firmware
