import MBusMeter.Spec.Hdlc

/-!
# The header of an HDLC packet, field by field

`Spec.Header` is a header of the one kind the meter sends, down to its bytes.
Here a header is what its fields say, of every kind the format knows: the
numbers and flags, and the bytes they are packed into by weight. Nothing below
mentions a mask or a shift, so that it can be compared with the code that
takes the fields out again by masks and shifts.
-/

namespace MBusMeter.Spec

open Lib Firmware Firmware.Hdlc

/-- The format field: a length below 128 in one byte, or a type from 1 to 7, a
segmentation bit and a length of eleven bits in two. -/
inductive FormatField where
  | short (length : Fin 128)
  | long (type : Nat) (h : 1 ≤ type ∧ type ≤ 7) (segmentation : Bool)
      (length : Fin 2048)
  deriving DecidableEq, Repr

namespace FormatField

/-- Packets with the short field are of type 0. -/
def type : FormatField → Nat
  | short _ => 0
  | long type _ _ _ => type

def segmentation : FormatField → Bool
  | short _ => false
  | long _ _ segmentation _ => segmentation

def length : FormatField → Nat
  | short length => length
  | long _ _ _ length => length

/-- The top bit tells the two apart. -/
def wire : FormatField → List UInt8
  | short length => [UInt8.ofNat length]
  | long type _ segmentation length =>
      [UInt8.ofNat (128 + 16 * (type - 1) + 8 * segmentation.toNat +
          length / 256),
        UInt8.ofNat (length % 256)]

end FormatField

/-- The control byte, by its kind. What the bits that have no name below mean
depends on the kind of command; they are free. -/
inductive ControlByte where
  | information (send receive : Fin 8) (pollFinal : Bool)
  | supervisory (function : Fin 4) (receive : Fin 8) (pollFinal : Bool)
  | unnumbered (low : Fin 4) (high : Fin 8) (pollFinal : Bool)
  deriving DecidableEq, Repr

namespace ControlByte

def byte : ControlByte → UInt8
  | information send receive pollFinal =>
      UInt8.ofNat (2 * send + 16 * pollFinal.toNat + 32 * receive)
  | supervisory function receive pollFinal =>
      UInt8.ofNat (1 + 4 * function + 16 * pollFinal.toNat + 32 * receive)
  | unnumbered low high pollFinal =>
      UInt8.ofNat (3 + 4 * low + 16 * pollFinal.toNat + 32 * high)

/-- The decoded field says of the byte what there is to say. -/
def ShownBy (field : ControlField) : ControlByte → Prop
  | information send receive pollFinal =>
      field.type = .informationTransferCommand ∧ field.finalBit = pollFinal ∧
        field.informationTransferCommand.map
            (fun c => (c.sendSequenceNumber.toNat,
              c.receiveSequenceNumber.toNat)) =
          some (send.val, receive.val)
  | supervisory _ _ pollFinal =>
      field.type = .supervisoryCommand ∧ field.finalBit = pollFinal
  | unnumbered _ _ pollFinal =>
      field.type = .unnumberedCommand ∧ field.finalBit = pollFinal

end ControlByte

/-- A header of any kind. -/
structure HeaderFields where
  format : FormatField
  destination : Address
  source : Address
  control : ControlByte
  deriving DecidableEq, Repr

def HeaderFields.wire (h : HeaderFields) : List UInt8 :=
  h.format.wire ++
    (h.destination.wire ++ (h.source.wire ++ [h.control.byte]))

end MBusMeter.Spec
