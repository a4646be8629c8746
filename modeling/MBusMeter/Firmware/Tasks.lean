import MBusMeter.Firmware.ZigbeeMeter
import MBusMeter.Lib.Lock

/-!
# The update functions, step by step (`zigbee_meter.c`)

The update functions are called from two tasks: from `uart_task`, which
decodes the reports, and from the timer task the button's callbacks run on.
One of them can be interrupted by the other anywhere. What keeps them apart is
`esp_zb_lock_acquire`; `prev`, however, is compared and set before that.
-/

namespace MBusMeter.Firmware

open Lib Pdu

/-- The tasks that call the update functions. -/
inductive Caller where
  | uartTask
  | timerTask
  deriving DecidableEq, Repr

namespace EspZigbee

variable (zb : EspZigbee)

/-- One write under the lock. -/
def writeSteps (attr : Attribute) (value : AttributeVal) : Held zb.State :=
  .step zb.lockAcquire fun _ =>
  .step (fun state => (zb.setAttributeVal attr value state).2) fun _ =>
  .step zb.lockRelease fun _ => .done

/-- What `zigbee_meter_update_active_power` does under the lock. -/
def activePowerSteps (powerWatts : Int16) : Held zb.State :=
  .step zb.lockAcquire fun _ =>
  .step (fun state =>
    (zb.setAttributeVal zb.activePower (.int16 powerWatts) state).2)
    fun state =>
      if (zb.setAttributeVal zb.activePower (.int16 powerWatts) state).1 ≠
          zb.STATUS_SUCCESS then
        .step zb.lockRelease fun _ => .done
      else
        .step (fun state => (zb.setAttributeVal zb.instantaneousDemand
          (.int32 powerWatts.toInt32) state).2) fun _ =>
        .step zb.lockRelease fun _ => .done

/-- What a `zigbee_meter_update_*` function does under the lock. -/
def underLock : MeterUpdate → Held zb.State
  | .activePower powerWatts => zb.activePowerSteps powerWatts
  | .rmsCurrent phase currentAmps => zb.writeSteps
      ⟨phaseEndpoint phase, zb.ELECTRICAL_MEASUREMENT, zb.RMSCURRENT_ID⟩
      (.uint16 currentAmps)
  | .rmsVoltage phase voltageVolts => zb.writeSteps
      ⟨phaseEndpoint phase, zb.ELECTRICAL_MEASUREMENT, zb.RMSVOLTAGE_ID⟩
      (.uint16 voltageVolts)
  | .summationReceived energy => zb.writeSteps
      ⟨METERING_ENDPOINT_ID, zb.METERING, zb.CURRENT_SUMMATION_RECEIVED_ID⟩
      (.uint64 energy)
  | .summationDelivered energy => zb.writeSteps
      ⟨METERING_ENDPOINT_ID, zb.METERING, zb.CURRENT_SUMMATION_DELIVERED_ID⟩
      (.uint64 energy)
  | .tierSummationReceived tier energy => zb.writeSteps
      ⟨METERING_ENDPOINT_ID, zb.METERING,
        zb.CURRENT_TIER1_SUMMATION_RECEIVED_ID + 2 * tier.toUInt16⟩
      (.uint64 energy)
  | .tierSummationDelivered tier energy => zb.writeSteps
      ⟨METERING_ENDPOINT_ID, zb.METERING,
        zb.CURRENT_TIER1_SUMMATION_DELIVERED_ID + 2 * tier.toUInt16⟩
      (.uint64 energy)

end EspZigbee

/-- `prev = powerWatts`, and on to the lock. -/
def rememberPower (powerWatts : Int16) (rest : Task Int16 MeterUpdate) :
    Task Int16 MeterUpdate :=
  .free (fun _ => powerWatts) fun _ => .locked (.activePower powerWatts) rest

/-- A task that makes these calls, one after the other. What it shares with
others without the lock is `prev`. -/
def updateTask : List MeterUpdate → Task Int16 MeterUpdate
  | [] => .done
  | .activePower powerWatts :: calls =>
      .free id fun prev =>
        if prev = powerWatts then updateTask calls
        else rememberPower powerWatts (updateTask calls)
  | call :: calls => .locked call (updateTask calls)

/-- Tasks with their calls, before any of them has made a step. -/
def EspZigbee.updateSystem {ι : Type} (zb : EspZigbee)
    (calls : ι → List MeterUpdate) (meter : zb.Meter) :
    System ι Int16 zb.State MeterUpdate where
  outside := meter.prev
  inside := meter.state
  holder := none
  begun := []
  tasks := fun i => updateTask (calls i)

end MBusMeter.Firmware
