import MBusMeter.Firmware.Stream

/-!
# Decoding a PDU (`pdu.c`)

A PDU is a header, which is skipped, and one item: a structure whose first
member is an array of field definitions and whose other members are values,
one for each definition that was kept. The decoder is one recursive function
that reads a type and then does what the type and its own state ask for; the
state is put back by whoever changed it, one level up.

The values are not collected. Each is handed to the meter as soon as it is
read, so the calls made so far are part of what a call works on, next to the
stream and the `StateValues`. The table of definitions has `MAX_FIELDS`
entries and two indices into it; an access through an index that is past the
table is a fault.

The texts of the log lines are left out. The entry they print is read all the
same, through the same index.
-/

namespace MBusMeter.Firmware.Pdu

open Lib

/-- `Types`, those that are decoded. -/
inductive Types where
  | arrayType
  | structureType
  | uint32Type
  | octetStringType
  | int8Type
  | uint16Type
  deriving DecidableEq, Repr

/-- The values of the enumeration. -/
def Types.ofByte : UInt8 → Option Types
  | 0x01 => some .arrayType
  | 0x02 => some .structureType
  | 0x06 => some .uint32Type
  | 0x09 => some .octetStringType
  | 0x0F => some .int8Type
  | 0x12 => some .uint16Type
  | _ => none

def UNKNOWN_FIELD1 : List UInt8 := [0, 8, 25, 9, 0, 255]
def SERIAL_FIELD : List UInt8 := [0, 0, 96, 1, 0, 255]
def IMPORTED_ACTIVE_POWER_FIELD : List UInt8 := [1, 0, 1, 7, 0, 255]
def EXPORTED_ACTIVE_POWER_FIELD : List UInt8 := [1, 0, 2, 7, 0, 255]
def IMPORTED_ACTIVE_ENERGY_FIELD : List UInt8 := [1, 1, 1, 8, 0, 255]
def EXPORTED_ACTIVE_ENERGY_FIELD : List UInt8 := [1, 1, 2, 8, 0, 255]
def CURRENT_P1_FIELD : List UInt8 := [1, 0, 31, 7, 0, 255]
def CURRENT_P2_FIELD : List UInt8 := [1, 0, 51, 7, 0, 255]
def CURRENT_P3_FIELD : List UInt8 := [1, 0, 71, 7, 0, 255]
def VOLTAGE_P1_FIELD : List UInt8 := [1, 0, 32, 7, 0, 255]
def VOLTAGE_P2_FIELD : List UInt8 := [1, 0, 52, 7, 0, 255]
def VOLTAGE_P3_FIELD : List UInt8 := [1, 0, 72, 7, 0, 255]

-- stuff from a second kind of packet
def UNKNOWN_FIELD2 : List UInt8 := [0, 9, 25, 9, 0, 255]
def IMPORTED_ACTIVE_ENERGY_RATE1_FIELD : List UInt8 := [1, 1, 1, 8, 1, 255]
def IMPORTED_ACTIVE_ENERGY_RATE2_FIELD : List UInt8 := [1, 1, 1, 8, 2, 255]
def EXPORTED_ACTIVE_ENERGY_RATE1_FIELD : List UInt8 := [1, 1, 2, 8, 1, 255]
def EXPORTED_ACTIVE_ENERGY_RATE2_FIELD : List UInt8 := [1, 1, 2, 8, 2, 255]

inductive State where
  | root
  | outerStruct
  | firstArray
  | fieldDef1
  | fieldDef2
  | fieldDef3
  | fieldDef4
  | datas
  deriving DecidableEq, Repr

/-- `FIELD_DEF1 + i`. -/
def State.fieldDef : Nat → State
  | 0 => .fieldDef1
  | 1 => .fieldDef2
  | 2 => .fieldDef3
  | 3 => .fieldDef4
  | _ => .datas

/-- `FieldDef`, as `memset` and `= {}` leave it. -/
structure FieldDef where
  field1 : UInt16 := 0
  field2 : List UInt8 := [0, 0, 0, 0, 0, 0]
  field3 : Int8 := 0
  field4 : UInt16 := 0
  deriving DecidableEq, Repr

def MAX_FIELDS : Nat := 20

structure StateValues where
  state : State := .root
  fields : Vector FieldDef MAX_FIELDS := Vector.replicate MAX_FIELDS {}
  curDefField : Nat := 0
  curUseField : Nat := 0
  deriving DecidableEq, Repr

/-- The `zigbee_meter_update_*` functions and what they are called with. -/
inductive MeterUpdate where
  | activePower (powerWatts : Int16)
  | rmsCurrent (phase : Nat) (currentAmps : UInt16)
  | rmsVoltage (phase : Nat) (voltageVolts : UInt16)
  | summationReceived (energy : UInt64)
  | summationDelivered (energy : UInt64)
  | tierSummationReceived (tier : Nat) (energy : UInt64)
  | tierSummationDelivered (tier : Nat) (energy : UInt64)
  deriving DecidableEq, Repr

/-- What a call of `decode_item` works on. -/
structure Call where
  stream : Stream
  values : StateValues
  updates : List MeterUpdate
  deriving DecidableEq, Repr

/-- A stream read inside `decode_item`. -/
def onStream {α : Type} (m : Proc Fault Stream α) : Proc Fault Call α :=
  Proc.zoom Call.stream (fun call stream => { call with stream }) m

/-- A call of a `zigbee_meter_update_*` function. -/
def update (u : MeterUpdate) : Proc Fault Call PUnit :=
  Proc.update fun call => { call with updates := call.updates ++ [u] }

/-- `stateValues->state = state`. -/
def setState (state : State) : Proc Fault Call PUnit :=
  Proc.update fun call => { call with values := { call.values with state } }

/-- `stateValues->curUseField++`. -/
def nextUseField : Proc Fault Call PUnit :=
  Proc.update fun call => { call with
    values := { call.values with
      curUseField := call.values.curUseField + 1 } }

/-- `stateValues->fields[i]`, read. -/
def fieldAt (i : StateValues → Nat) : Proc Fault Call FieldDef :=
  ⟨fun call =>
    if h : i call.values < MAX_FIELDS then
      .ok call.values.fields[i call.values] call
    else .fault .fieldIndex call⟩

/-- The entry at `curDefField`, written. -/
def StateValues.setDef (values : StateValues) (f : FieldDef → FieldDef)
    (h : values.curDefField < MAX_FIELDS) : StateValues :=
  { values with
    fields := values.fields.set values.curDefField
      (f values.fields[values.curDefField]) h }

/-- A write to `stateValues->fields[stateValues->curDefField]`. -/
def setDefField (f : FieldDef → FieldDef) : Proc Fault Call PUnit :=
  ⟨fun call =>
    if h : call.values.curDefField < MAX_FIELDS then
      .ok ⟨⟩ { call with values := call.values.setDef f h }
    else .fault .fieldIndex call⟩

def curFieldIs (field : List UInt8) : Proc Fault Call Bool := do
  let curField ← fieldAt StateValues.curUseField
  pure (curField.field2 = field)

/-- The end of the three value branches: the entry is read for the log. -/
def wrongType : Proc Fault Call PUnit := do
  let _ ← fieldAt StateValues.curUseField
  Proc.fail

/-- `case STRUCTURE_TYPE`; `item` is the recursive call. -/
def decodeStructure (item : Proc Fault Call PUnit) : Proc Fault Call PUnit := do
  let quantity ← onStream streamGetu8
  let backState ← Proc.read fun call => call.values.state
  match backState with
  | .root =>
      setState .outerStruct
      Proc.forUpTo (fun _ => item) 0 quantity.toNat
      setState backState
  | .firstArray =>
      Proc.require (quantity = 4)
      Proc.forUpTo (fun i => do setState (.fieldDef i); item) 0 quantity.toNat
      setState backState
  | _ => Proc.fail

/-- One round of the loop over the definitions. -/
def decodeFieldDef (item : Proc Fault Call PUnit) : Proc Fault Call PUnit := do
  let curDefField ← Proc.read fun call => call.values.curDefField
  Proc.require (curDefField < MAX_FIELDS)
  item
  let field ← fieldAt StateValues.curDefField
  if field.field3 = 2 then
    Proc.update fun call => { call with
      values := { call.values with
        curDefField := call.values.curDefField + 1 } }
  else
    setDefField fun _ => {}

/-- `case ARRAY_TYPE`. An array is only ever read in one state, and
`fieldDefs` is true there. -/
def decodeArray (item : Proc Fault Call PUnit) : Proc Fault Call PUnit := do
  let quantity ← onStream streamGetu8
  let backState ← Proc.read fun call => call.values.state
  match backState with
  | .outerStruct =>
      setState .firstArray
      Proc.forUpTo (fun _ => decodeFieldDef item) 0 quantity.toNat
      setState .datas
  | _ => Proc.fail

/-- `case UINT32_TYPE` in state `DATAS`: the field decides who is called. -/
def updateUint32 (value : UInt32) : Proc Fault Call PUnit := do
  if ← curFieldIs IMPORTED_ACTIVE_POWER_FIELD then
    update (.activePower value.toUInt16.toInt16)
  else if ← curFieldIs EXPORTED_ACTIVE_POWER_FIELD then
    if value > 0 then update (.activePower (-value).toUInt16.toInt16)
  else if ← curFieldIs IMPORTED_ACTIVE_ENERGY_FIELD then
    update (.summationReceived value.toUInt64)
  else if ← curFieldIs EXPORTED_ACTIVE_ENERGY_FIELD then
    update (.summationDelivered value.toUInt64)
  else if ← curFieldIs IMPORTED_ACTIVE_ENERGY_RATE1_FIELD then
    update (.tierSummationReceived 0 value.toUInt64)
  else if ← curFieldIs EXPORTED_ACTIVE_ENERGY_RATE1_FIELD then
    update (.tierSummationDelivered 0 value.toUInt64)
  else if ← curFieldIs IMPORTED_ACTIVE_ENERGY_RATE2_FIELD then
    update (.tierSummationReceived 1 value.toUInt64)
  else if ← curFieldIs EXPORTED_ACTIVE_ENERGY_RATE2_FIELD then
    update (.tierSummationDelivered 1 value.toUInt64)
  else wrongType

/-- `case UINT32_TYPE`: in a definition the value is cut to 16 bits. -/
def decodeUint32 : Proc Fault Call PUnit := do
  let value ← onStream streamGetu32Be
  let state ← Proc.read fun call => call.values.state
  match state with
  | .fieldDef1 => setDefField fun d => { d with field1 := value.toUInt16 }
  | .fieldDef4 => setDefField fun d => { d with field4 := value.toUInt16 }
  | .datas => do updateUint32 value; nextUseField
  | _ => Proc.fail

/-- `case UINT16_TYPE` in state `DATAS`. -/
def updateUint16 (value : UInt16) : Proc Fault Call PUnit := do
  if ← curFieldIs CURRENT_P1_FIELD then update (.rmsCurrent 0 value)
  else if ← curFieldIs CURRENT_P2_FIELD then update (.rmsCurrent 1 value)
  else if ← curFieldIs CURRENT_P3_FIELD then update (.rmsCurrent 2 value)
  else if ← curFieldIs VOLTAGE_P1_FIELD then update (.rmsVoltage 0 value)
  else if ← curFieldIs VOLTAGE_P2_FIELD then update (.rmsVoltage 1 value)
  else if ← curFieldIs VOLTAGE_P3_FIELD then update (.rmsVoltage 2 value)
  else wrongType

/-- `case UINT16_TYPE`. -/
def decodeUint16 : Proc Fault Call PUnit := do
  let value ← onStream streamGetu16Be
  let state ← Proc.read fun call => call.values.state
  match state with
  | .fieldDef1 => setDefField fun d => { d with field1 := value }
  | .fieldDef4 => setDefField fun d => { d with field4 := value }
  | .datas => do updateUint16 value; nextUseField
  | _ => Proc.fail

/-- `case INT8_TYPE`. -/
def decodeInt8 : Proc Fault Call PUnit := do
  let value ← onStream streamGet8
  let state ← Proc.read fun call => call.values.state
  match state with
  | .fieldDef3 => setDefField fun d => { d with field3 := value }
  | _ => Proc.fail

/-- `case OCTET_STRING_TYPE` in state `DATAS`. The answer of the skip is not
looked at. -/
def skipOctetString (stringSize : UInt8) : Proc Fault Call PUnit := do
  if ← curFieldIs UNKNOWN_FIELD1 then
    Proc.ignore (onStream (streamSkip stringSize.toNat))
  else if ← curFieldIs SERIAL_FIELD then
    Proc.ignore (onStream (streamSkip stringSize.toNat))
  else if ← curFieldIs UNKNOWN_FIELD2 then
    Proc.ignore (onStream (streamSkip stringSize.toNat))
  else wrongType

/-- `case OCTET_STRING_TYPE`. -/
def decodeOctetString : Proc Fault Call PUnit := do
  let stringSize ← onStream streamGetu8
  let state ← Proc.read fun call => call.values.state
  match state with
  | .fieldDef2 =>
      Proc.require (stringSize = 6)
      let bytes ← onStream (streamGet stringSize.toNat)
      setDefField fun d => { d with field2 := bytes }
  | .datas => do skipOctetString stringSize; nextUseField
  | _ => Proc.fail

/-- `decode_item`, with room for `depth` calls inside one another. -/
def decodeItem : (depth : Nat) → Proc Fault Call PUnit
  | 0 => Proc.fault .callDepth
  | depth + 1 => do
      let type ← onStream streamGetu8
      match Types.ofByte type with
      | some .structureType => decodeStructure (decodeItem depth)
      | some .arrayType => decodeArray (decodeItem depth)
      | some .uint32Type => decodeUint32
      | some .uint16Type => decodeUint16
      | some .int8Type => decodeInt8
      | some .octetStringType => decodeOctetString
      | none => Proc.fail

/-- `pdu_decode`. The answers of the four skips are not looked at. An item
inside another is at least one byte further on, which bounds the depth. -/
def pduDecode : Proc Fault Call PUnit := do
  Proc.ignore (onStream (streamSkip 1))
  Proc.ignore (onStream (streamSkip 4))
  Proc.ignore (onStream (streamSkip 1))
  Proc.ignore (onStream (streamSkip 12))
  decodeItem (BUFFER_SIZE + 1)
  let remains ← Proc.read fun call => streamRemains call.stream
  Proc.require (remains = 0)

/-- One call of `pdu_decode` on a buffer. -/
def pduCall (buffer : Buffer) : Outcome Fault Call PUnit :=
  pduDecode { stream := streamReset buffer, values := {}, updates := [] }

end MBusMeter.Firmware.Pdu
