import MBusMeter.Firmware.Endpoints
import Mathlib.Algebra.Group.Nat.Defs

/-!
# What the created attributes take

An attribute takes values of the type it was created with, and only those that
fit the width it was declared with. A stack can be stricter than the one of
`EspZigbee`, which leaves open what it accepts: `guarded` is a stack that
turns away every write the created attributes do not take.
-/

namespace MBusMeter.Spec

open Firmware Firmware.Pdu

def InitialVal.sameType : InitialVal → AttributeVal → Bool
  | .updated (.int16 _), .int16 _ => true
  | .updated (.int32 _), .int32 _ => true
  | .updated (.uint16 _), .uint16 _ => true
  | .updated (.uint64 _), .uint64 _ => true
  | _, _ => false

/-- The value fits the declared width. The types of one byte, and the three
bytes of the divisor, hold no value that is updated. -/
def AttrType.fits : AttrType → AttributeVal → Bool
  | .bit24, .int32 value => -0x800000 ≤ value.toInt ∧ value.toInt < 0x800000
  | .u48, .uint64 value => value.toNat < 2 ^ 48
  | _, _ => false

def AddedAttr.takes (added : AddedAttr) (value : AttributeVal) : Bool :=
  InitialVal.sameType added.value value &&
    match added.declared with
    | none => true
    | some (type, _) => AttrType.fits type value

/-- Some endpoint has the attribute, and it takes the value. -/
def takes (zb : EspZcl) (attr : Attribute) (value : AttributeVal) : Bool :=
  zb.zigbeeMeterCreateEp.any fun ep =>
    ep.endpoint = attr.endpoint && ep.clusterId = attr.clusterId &&
      ep.attrs.any fun added =>
        added.attrId = attr.attrId && AddedAttr.takes added value

/-- The attributes with their endpoints and clusters. -/
def created (zb : EspZcl) : List Attribute :=
  zb.zigbeeMeterCreateEp.flatMap fun ep =>
    ep.attrs.map fun added => ⟨ep.endpoint, ep.clusterId, added.attrId⟩

def reported (zb : EspZcl) : List Attribute :=
  zb.zigbeeMeterConfigureReporting.map ReportingInfo.attr

/-- The stack, with another answer than success to a write the created
attributes do not take. -/
def guarded (zb : EspZcl) : EspZcl :=
  { zb with
    setAttributeVal := fun attr value state =>
      if takes zb attr value then zb.setAttributeVal attr value state
      else (zb.STATUS_SUCCESS + 1, state)
    stored := by
      intro attr value state h other
      split at h
      · next htakes =>
          rw [if_pos htakes]
          exact zb.stored attr value state h other
      · exact absurd h (by simp)
    refused := by
      intro attr value state h other
      split at h
      · next htakes =>
          rw [if_pos htakes]
          exact zb.refused attr value state h other
      · next htakes => rw [if_neg htakes] }

/-- The same meter, on that stack. -/
def onGuarded {zb : EspZcl} (meter : zb.Meter) : (guarded zb).Meter where
  prev := meter.prev
  state := meter.state

/-! ## The writes -/

/-- The stack, with a list of the writes it has been asked for, whatever it
has answered. -/
def recorded (zb : EspZcl) : EspZcl :=
  { zb with
    State := zb.State × List (Attribute × AttributeVal)
    lockAcquire := fun state => (zb.lockAcquire state.1, state.2)
    lockRelease := fun state => (zb.lockRelease state.1, state.2)
    setAttributeVal := fun attr value state =>
      ((zb.setAttributeVal attr value state.1).1,
        (zb.setAttributeVal attr value state.1).2,
        state.2 ++ [(attr, value)])
    attributeVal := fun state => zb.attributeVal state.1
    acquired := fun state => zb.acquired state.1
    released := fun state => zb.released state.1
    stored := fun attr value state => zb.stored attr value state.1
    refused := fun attr value state => zb.refused attr value state.1 }

/-- The same meter, with no write so far. -/
def onRecorded {zb : EspZcl} (meter : zb.Meter) : (recorded zb).Meter where
  prev := meter.prev
  state := (meter.state, [])

/-- The writes an update function asks for. -/
def asked (zb : EspZcl) (meter : zb.Meter) (u : MeterUpdate) :
    List (Attribute × AttributeVal) :=
  ((recorded zb).zigbeeMeterUpdate (onRecorded meter) u).state.2

end MBusMeter.Spec
