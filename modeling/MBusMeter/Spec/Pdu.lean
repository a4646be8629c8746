import MBusMeter.Firmware.Pdu

/-!
# A PDU, as the meter sends it

A report says first what it is going to say: a list of definitions, each
naming a quantity by a code of six bytes, and behind them the values, one for
each definition with attribute 2, in that order. This file is the format: what
the parts look like on the wire, which values belong to which code, and what
the meter is told about them.

One kind of reading is not part of the format and is here all the same: the
head of an octet string whose content is not there. The decoder takes it for
an octet string and goes on behind its size byte, and what it accepts cannot
be described without it.
-/

namespace MBusMeter.Spec

open Lib Firmware Firmware.Pdu

/-- A class or data index, in one of its two widths. -/
inductive Index where
  | short (value : UInt16)
  | long (value : UInt32)
  deriving DecidableEq, Repr

def Index.wire : Index → List UInt8
  | .short value => 0x12 :: bytes16 value
  | .long value => 0x06 :: bytes32 value

/-- The code of a quantity. -/
structure Code where
  bytes : List UInt8
  len : bytes.length = 6
  deriving DecidableEq, Repr

structure Definition where
  classId : Index
  code : Code
  attr : Int8
  dataIndex : Index
  deriving DecidableEq, Repr

def Definition.wire (d : Definition) : List UInt8 :=
  [0x02, 0x04] ++ d.classId.wire ++ [0x09, 0x06] ++ d.code.bytes ++
    [0x0F, d.attr.toUInt8] ++ d.dataIndex.wire

/-- A value. `cut` is the head of an octet string and nothing more. -/
inductive Reading where
  | uint32 (value : UInt32)
  | uint16 (value : UInt16)
  | octets (content : List UInt8) (h : content.length ≤ 255)
  | cut (size : UInt8)
  deriving Repr

def Reading.wire : Reading → List UInt8
  | .uint32 value => 0x06 :: bytes32 value
  | .uint16 value => 0x12 :: bytes16 value
  | .octets content _ => 0x09 :: content.length.toUInt8 :: content
  | .cut size => [0x09, size]

/-- The reading is one of the format's own. -/
def Reading.Whole : Reading → Prop
  | .cut _ => False
  | _ => True

/-- Behind a head without content there are fewer bytes than it asks for. -/
def Reading.Fits : Reading → List UInt8 → Prop
  | .cut size, rest => rest.length < size.toNat
  | _, _ => True

instance : DecidablePred Reading.Whole := fun r => by
  cases r <;> unfold Reading.Whole <;> infer_instance

/-! ## Quantities -/

/-- What a definition can be about. -/
inductive Quantity where
  | importedPower
  | exportedPower
  | importedEnergy
  | exportedEnergy
  | importedTier (tier : Fin 2)
  | exportedTier (tier : Fin 2)
  | current (phase : Fin 3)
  | voltage (phase : Fin 3)
  | serial
  | unknown1
  | unknown2
  deriving DecidableEq, Repr

def Quantity.all : List Quantity :=
  [.importedPower, .exportedPower, .importedEnergy, .exportedEnergy,
    .importedTier 0, .importedTier 1, .exportedTier 0, .exportedTier 1,
    .current 0, .current 1, .current 2, .voltage 0, .voltage 1, .voltage 2,
    .serial, .unknown1, .unknown2]

def Quantity.code : Quantity → List UInt8
  | .importedPower => IMPORTED_ACTIVE_POWER_FIELD
  | .exportedPower => EXPORTED_ACTIVE_POWER_FIELD
  | .importedEnergy => IMPORTED_ACTIVE_ENERGY_FIELD
  | .exportedEnergy => EXPORTED_ACTIVE_ENERGY_FIELD
  | .importedTier 0 => IMPORTED_ACTIVE_ENERGY_RATE1_FIELD
  | .importedTier 1 => IMPORTED_ACTIVE_ENERGY_RATE2_FIELD
  | .exportedTier 0 => EXPORTED_ACTIVE_ENERGY_RATE1_FIELD
  | .exportedTier 1 => EXPORTED_ACTIVE_ENERGY_RATE2_FIELD
  | .current 0 => CURRENT_P1_FIELD
  | .current 1 => CURRENT_P2_FIELD
  | .current 2 => CURRENT_P3_FIELD
  | .voltage 0 => VOLTAGE_P1_FIELD
  | .voltage 1 => VOLTAGE_P2_FIELD
  | .voltage 2 => VOLTAGE_P3_FIELD
  | .serial => SERIAL_FIELD
  | .unknown1 => UNKNOWN_FIELD1
  | .unknown2 => UNKNOWN_FIELD2

def Quantity.ofCode (code : List UInt8) : Option Quantity :=
  Quantity.all.find? fun q => q.code = code

/-- The three types a value can have. -/
inductive Kind where
  | uint32
  | uint16
  | octets
  deriving DecidableEq, Repr

def Quantity.kind : Quantity → Kind
  | .importedPower | .exportedPower | .importedEnergy | .exportedEnergy
  | .importedTier _ | .exportedTier _ => .uint32
  | .current _ | .voltage _ => .uint16
  | .serial | .unknown1 | .unknown2 => .octets

def Reading.kind : Reading → Kind
  | .uint32 _ => .uint32
  | .uint16 _ => .uint16
  | .octets .. | .cut _ => .octets

/-- The type of the reading is the one that belongs to the code. -/
def Permits (code : Code) (r : Reading) : Prop :=
  (Quantity.ofCode code.bytes).map Quantity.kind = some r.kind

instance (code : Code) (r : Reading) : Decidable (Permits code r) :=
  inferInstanceAs (Decidable (_ = _))

/-- What the meter is told about a reading. Power is cut to 16 bits, exported
power is negative power, and no exported power is no news. -/
def Quantity.calls : Quantity → Reading → List MeterUpdate
  | .importedPower, .uint32 v => [.activePower v.toUInt16.toInt16]
  | .exportedPower, .uint32 v =>
      if v = 0 then [] else [.activePower (-v.toUInt16.toInt16)]
  | .importedEnergy, .uint32 v => [.summationReceived v.toUInt64]
  | .exportedEnergy, .uint32 v => [.summationDelivered v.toUInt64]
  | .importedTier tier, .uint32 v => [.tierSummationReceived tier v.toUInt64]
  | .exportedTier tier, .uint32 v => [.tierSummationDelivered tier v.toUInt64]
  | .current phase, .uint16 v => [.rmsCurrent phase v]
  | .voltage phase, .uint16 v => [.rmsVoltage phase v]
  | _, _ => []

def callsOf (code : Code) (r : Reading) : List MeterUpdate :=
  match Quantity.ofCode code.bytes with
  | some q => q.calls r
  | none => []

/-- What the meter is told about some readings, each under its code. -/
def published (codes : List Code) (values : List Reading) :
    List MeterUpdate :=
  (codes.zip values).flatMap fun x => callsOf x.1 x.2

/-! ## Reports -/

/-- The codes the values go by: those of the definitions with attribute 2. -/
def keptCodes (definitions : List Definition) : List Code :=
  (definitions.filter fun d => d.attr = 2).map Definition.code

def definitionsWire (definitions : List Definition) : List UInt8 :=
  (definitions.map Definition.wire).flatten

def valuesWire (values : List Reading) : List UInt8 :=
  (values.map Reading.wire).flatten

/-- Behind its header, a report of `count` values, up to the first of them. -/
def frontWire (definitions : List Definition) (count : Nat) : List UInt8 :=
  [0x02, (count + 1).toUInt8, 0x01, definitions.length.toUInt8] ++
    definitionsWire definitions

def bodyWire (definitions : List Definition) (values : List Reading) :
    List UInt8 :=
  frontWire definitions values.length ++ valuesWire values

/-- Every head without content has too little behind it. -/
def FitsAll : List Reading → List UInt8 → Prop
  | [], _ => True
  | v :: values, rest =>
      v.Fits (valuesWire values ++ rest) ∧ FitsAll values rest

/-- There are no more values than codes, and each has the type that belongs
to its code. -/
def Matches (codes : List Code) (values : List Reading) : Prop :=
  values.length ≤ codes.length ∧
    ∀ x ∈ codes.zip values, Permits x.1 x.2

/-- No definition follows the one that leaves no room for another. -/
def StopsWhenFull (room : Nat) (definitions : List Definition) : Prop :=
  ∀ front d back, definitions = front ++ d :: back →
    (keptCodes front).length < room

/-- A report that can be decoded. -/
structure Report where
  header : List UInt8
  definitions : List Definition
  values : List Reading
  header_len : header.length = 18
  definitions_le : definitions.length ≤ 255
  stops : StopsWhenFull MAX_FIELDS definitions
  known : ∀ code ∈ keptCodes definitions, ∃ q : Quantity, q.code = code.bytes
  values_le : values.length ≤ 254
  whole : ∀ r ∈ values, r.Whole
  fits : Matches (keptCodes definitions) values
  size_le : (header ++ bodyWire definitions values).length ≤ BUFFER_SIZE

def Report.packet (r : Report) : Buffer :=
  ⟨r.header ++ bodyWire r.definitions r.values, r.size_le⟩

/-- The grammar: a header, and a structure that is empty or holds an array of
definitions and some values that go with them. -/
def InGrammar (bytes : List UInt8) : Prop :=
  ∃ header, header.length = 18 ∧
    (bytes = header ++ [0x02, 0x00] ∨
      ∃ definitions values, definitions.length ≤ 255 ∧ values.length ≤ 254 ∧
        (∀ r ∈ values, r.Whole) ∧ Matches (keptCodes definitions) values ∧
        bytes = header ++ bodyWire definitions values)

end MBusMeter.Spec
