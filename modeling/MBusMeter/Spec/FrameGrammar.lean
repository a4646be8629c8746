import MBusMeter.Lib.Grammar
import MBusMeter.Spec.Line

/-!
# The line, part by part

What a receiver can make of any bytes on the line, when a frame is known by
its type and its length and there is no escaping. Without a flag in front
nothing begins. Behind a flag there can be more flags, a frame with the flag
that closes it, or something that is neither; and that costs the byte by which
it is told, even where this is a flag.
-/

namespace MBusMeter.Spec

open Lib Firmware Firmware.HdlcFrame

inductive Phase where
  | searching
  | flagged
  deriving DecidableEq, Repr

/-- The bytes that are taken in before the one that has to be the closing
flag: the first two always, and never more than there is room for. -/
def takenFor (first second : UInt8) : Nat :=
  min (max 2 (frameLength first second)) BUFFER_SIZE

inductive LinePart : Phase → List UInt8 → List Buffer → Phase → Prop where
  | noise {bytes : List UInt8} (hclean : FLAG_BYTE ∉ bytes) :
      LinePart .searching (bytes ++ flags 1) [] .flagged
  | idle : LinePart .flagged (flags 1) [] .flagged
  | other {byte : UInt8} (hflag : byte ≠ FLAG_BYTE)
      (htype : byte.toNat / 16 ≠ 0xA) : LinePart .flagged [byte] [] .searching
  | frame {frame : Buffer} (hframe : IsFrame frame.bytes) :
      LinePart .flagged (frame.bytes ++ flags 1) [frame] .flagged
  | misfit {first second byte : UInt8} {more : List UInt8}
      (htype : first.toNat / 16 = 0xA)
      (hlen : more.length + 2 = takenFor first second)
      (hmisfit : byte = FLAG_BYTE →
        more.length + 2 ≠ frameLength first second) :
      LinePart .flagged (first :: second :: more ++ [byte]) [] .searching

inductive LineTail : Phase → List UInt8 → Prop where
  | noise {bytes : List UInt8} (hclean : FLAG_BYTE ∉ bytes) :
      LineTail .searching bytes
  | empty : LineTail .flagged []
  | single {first : UInt8} (htype : first.toNat / 16 = 0xA) :
      LineTail .flagged [first]
  | unfinished {first second : UInt8} {more : List UInt8}
      (htype : first.toNat / 16 = 0xA)
      (hlen : more.length + 2 ≤ takenFor first second) :
      LineTail .flagged (first :: second :: more)

def lineGrammar : Grammar Phase UInt8 Buffer where
  part := LinePart
  tail := LineTail

end MBusMeter.Spec
