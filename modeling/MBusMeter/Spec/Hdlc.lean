import MBusMeter.Firmware.Hdlc
import MBusMeter.Spec.Checksum

/-!
# HDLC packets, as the meter sends them

A packet from the sender's side. The fields carry what makes them valid: a
format field is one of the two that can be told apart by their top bits, an
address is a run of even bytes ended by an odd one, a control byte is one of
an unnumbered command, and a packet declares its own length.
-/

namespace MBusMeter.Spec

open Lib Firmware Firmware.Hdlc

/-- The format field: the length in seven bits, or a type, a segmentation bit
and the length in eleven bits. -/
inductive Format where
  | short (length : UInt8) (h : length.toNat < 0x80)
  | long (first second : UInt8) (h : 0x80 ≤ first.toNat ∧ first.toNat < 0xF0)
  deriving DecidableEq, Repr

def Format.wire : Format → List UInt8
  | .short length _ => [length]
  | .long first second _ => [first, second]

def Format.declared : Format → Nat
  | .short length _ => length.toNat
  | .long first second _ => first.toNat % 8 * 256 + second.toNat

/-- The type is in three bits below the top one, less one. -/
def Format.type : Format → Nat
  | .short .. => 0
  | .long first _ _ => first.toNat / 16 % 8 + 1

def Format.segmentation : Format → Bool
  | .short .. => false
  | .long first _ _ => first.toNat / 8 % 2 = 1

/-- The packet is one of the type the meter uses. -/
def Format.Type3 : Format → Prop
  | .short .. => False
  | .long first _ _ => first.toNat / 16 = 0xA

structure Address where
  front : List UInt8
  last : UInt8
  front_even : ∀ b ∈ front, b.toNat % 2 = 0
  last_odd : last.toNat % 2 = 1
  deriving DecidableEq, Repr

/-- An address of one byte. -/
def Address.single (last : UInt8) (h : last.toNat % 2 = 1) : Address :=
  ⟨[], last, fun _ hb => absurd hb List.not_mem_nil, h⟩

def Address.wire (a : Address) : List UInt8 := a.front ++ [a.last]

/-- What the header checksum is over. -/
structure Header where
  format : Format
  destination : Address
  source : Address
  control : UInt8
  control_low : control.toNat % 4 = 3
  deriving DecidableEq, Repr

def Header.wire (h : Header) : List UInt8 :=
  h.format.wire ++ (h.destination.wire ++ (h.source.wire ++ [h.control]))

def checkedHeader (h : Header) : List UInt8 := h.wire ++ checksum h.wire

def packetWire (h : Header) (information : List UInt8) : List UInt8 :=
  checkedHeader h ++
    (information ++ checksum (checkedHeader h ++ information))

/-- The packet is what `hdlc_packet_decode` is there to accept, with this
header and these information bytes. -/
structure IsPacket (bytes : List UInt8) (h : Header)
    (information : List UInt8) : Prop where
  declared : h.format.declared = bytes.length
  bytes_eq : bytes = packetWire h information

theorem packetWire_length (h : Header) (information : List UInt8) :
    (packetWire h information).length =
      h.wire.length + information.length + 4 := by
  rw [packetWire, checkedHeader]
  simp only [List.length_append, checksum_length]
  omega

theorem IsPacket.length {bytes information : List UInt8} {h : Header}
    (hp : IsPacket bytes h information) :
    bytes.length = h.wire.length + information.length + 4 := by
  rw [hp.bytes_eq, packetWire_length]

/-- The packet ends at its header checksum or one byte behind it. -/
def EndsAtHeaderChecksum (bytes : List UInt8) : Prop :=
  ∃ (h : Header) (tail : List UInt8), h.format.declared = bytes.length ∧
    bytes = checkedHeader h ++ tail ∧ tail.length ≤ 1

end MBusMeter.Spec
