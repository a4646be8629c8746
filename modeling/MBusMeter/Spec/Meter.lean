import MBusMeter.Lib.Channels
import MBusMeter.Spec.Pdu

/-!
# What the meter shows

The values of a report end up in a few places of the meter, one for each
`zigbee_meter_update_*` function and phase or tier, and each place shows what
it was told last. Every quantity goes to a place of its own, but for the
power: imported and exported power are two quantities, and the meter has one
place for them, where exported power is negative.
-/

namespace MBusMeter.Spec

open Lib Firmware Firmware.Pdu

inductive Channel where
  | activePower
  | rmsCurrent (phase : Nat)
  | rmsVoltage (phase : Nat)
  | summationReceived
  | summationDelivered
  | tierSummationReceived (tier : Nat)
  | tierSummationDelivered (tier : Nat)
  deriving DecidableEq, Repr

/-- Where a call puts its value. -/
def channelOf : MeterUpdate → Channel
  | .activePower _ => .activePower
  | .rmsCurrent phase _ => .rmsCurrent phase
  | .rmsVoltage phase _ => .rmsVoltage phase
  | .summationReceived _ => .summationReceived
  | .summationDelivered _ => .summationDelivered
  | .tierSummationReceived tier _ => .tierSummationReceived tier
  | .tierSummationDelivered tier _ => .tierSummationDelivered tier

/-- What a place shows in the end: the last call for it, if there was one. -/
def shown (channel : Channel) (updates : List MeterUpdate) :
    Option MeterUpdate :=
  lastOn channelOf channel updates

def Quantity.channel : Quantity → Option Channel
  | .importedPower | .exportedPower => some .activePower
  | .importedEnergy => some .summationReceived
  | .exportedEnergy => some .summationDelivered
  | .importedTier tier => some (.tierSummationReceived tier)
  | .exportedTier tier => some (.tierSummationDelivered tier)
  | .current phase => some (.rmsCurrent phase)
  | .voltage phase => some (.rmsVoltage phase)
  | .serial | .unknown1 | .unknown2 => none

/-- A value under the code it goes by. -/
abbrev CodedReading := Code × Reading

def CodedReading.channel (x : CodedReading) : Option Channel :=
  (Quantity.ofCode x.1.bytes).bind Quantity.channel

def importedPower : Code := ⟨IMPORTED_ACTIVE_POWER_FIELD, rfl⟩

def exportedPower : Code := ⟨EXPORTED_ACTIVE_POWER_FIELD, rfl⟩

/-- The values that are power, of either kind, in their order. -/
def powerReadings (readings : List CodedReading) : List CodedReading :=
  readings.filter fun x => x.1 = importedPower ∨ x.1 = exportedPower

/-! ## The power -/

/-- What the meter shows for imported power `i` and exported power `e` has the
right sign, and is the right number where that is one of 16 bits. -/
structure RightPower (shown : Int16) (i e : UInt32) : Prop where
  exporting : 0 < e.toNat → shown.toInt < 0
  importing : e.toNat = 0 → 0 ≤ shown.toInt
  exported : 0 < e.toNat → -32768 ≤ -(e.toNat : Int) →
    shown.toInt = -(e.toNat : Int)
  imported : e.toNat = 0 → (i.toNat : Int) < 32768 → shown.toInt = i.toNat

/-- Cut to 16 bits, the power keeps its sign. -/
def KeepsSign (i e : UInt32) : Prop :=
  (e.toNat = 0 → i.toNat % 65536 < 32768) ∧
    (0 < e.toNat → 0 < e.toNat % 65536 ∧ e.toNat % 65536 ≤ 32768)

end MBusMeter.Spec
