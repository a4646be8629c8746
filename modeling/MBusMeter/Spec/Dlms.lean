import MBusMeter.Firmware.Buffer
import MBusMeter.Lib.Blocks
import MBusMeter.Lib.Word

/-!
# DLMS blocks and messages, as the meter sends them

The sender's side: how a message is cut into blocks and what a block looks
like on the wire. Nothing here is read off the decoder; a `Message` carries
the proof that its blocks are numbered from one, that the last and no other
says so, and that the data fits the receiver's buffer.
-/

namespace MBusMeter.Spec

open Lib Firmware

/-- One block. `extra` are the three bytes the longer type has after its type
byte, `control` has the last-block bit on top. -/
structure Block where
  extra : Option (UInt8 × UInt8 × UInt8)
  control : UInt8
  number : UInt16
  ack : UInt8 × UInt8
  data : List UInt8
  data_le : data.length ≤ 255
  deriving DecidableEq, Repr

def Block.last (b : Block) : Bool := b.control &&& 0x80 != 0

/-- The type byte and what belongs to it. -/
def Block.type (b : Block) : List UInt8 :=
  match b.extra with
  | none => [0xE0]
  | some (x, y, z) => [0xE6, x, y, z]

def Block.wire (b : Block) : List UInt8 :=
  b.type ++ b.control :: bytes16 b.number ++
    b.ack.1 :: b.ack.2 :: b.data.length.toUInt8 :: b.data

theorem Block.wire_length_le (b : Block) : b.wire.length ≤ 265 := by
  have hdata := b.data_le
  have htype : b.type.length ≤ 4 := by
    rw [Block.type]
    split <;> simp
  simp only [Block.wire, List.length_append, List.length_cons, bytes16_length]
  omega

/-- The block as a packet for the decoder. -/
def Block.packet (b : Block) : Buffer :=
  ⟨b.wire, Nat.le_trans b.wire_length_le (by decide)⟩

def payload (bs : List Block) : List UInt8 := (bs.map Block.data).flatten

/-- A message of at most `maxBlocks` blocks. -/
structure Message (maxBlocks : Nat) where
  blocks : List Block
  numbered : MessageFrom (fun b => b.number.toNat) Block.last 0 blocks
  blocks_le : blocks.length ≤ maxBlocks
  payload_le : (payload blocks).length ≤ BUFFER_SIZE

def Message.payload {n : Nat} (m : Message n) : List UInt8 :=
  MBusMeter.Spec.payload m.blocks

end MBusMeter.Spec
