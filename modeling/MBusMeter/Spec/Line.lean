import MBusMeter.Firmware.HdlcFrame
import MBusMeter.Spec.Dlms
import MBusMeter.Spec.Hdlc

/-!
# The line, as the meter drives it

Flag bytes, and between them frames. A frame is a packet of the type the meter
uses, which is all the frame decoder looks at. A message travels as one frame
for each of its blocks; a frame on the line is followed by one flag, which may
open the next, and there may be more of them in front.
-/

namespace MBusMeter.Spec

open Lib Firmware Firmware.HdlcFrame

def flags (n : Nat) : List UInt8 := List.replicate n FLAG_BYTE

/-- The length in the first two bytes of a frame. -/
def frameLength (first second : UInt8) : Nat :=
  first.toNat % 8 * 256 + second.toNat

/-- What the frame decoder takes for a frame. -/
def IsFrame (bytes : List UInt8) : Prop :=
  ∃ first second rest, bytes = first :: second :: rest ∧
    first.toNat / 16 = 0xA ∧ frameLength first second = bytes.length ∧
    bytes.length ≤ BUFFER_SIZE

/-- A frame on the line, whatever it holds: flags in front, and one behind. -/
structure Framed where
  lead : Nat
  frame : Buffer
  isFrame : IsFrame frame.bytes

def Framed.wire (s : Framed) : List UInt8 :=
  flags s.lead ++ s.frame.bytes ++ flags 1

/-- Frames one after the other, enclosed in flags and with flags between
them. -/
def streamWire (ss : List Framed) (trail : Nat) : List UInt8 :=
  flags 1 ++ (ss.flatMap Framed.wire ++ flags trail)

/-- A frame without a flag byte inside. -/
structure CleanFrame extends Framed where
  clean : FLAG_BYTE ∉ frame.bytes

/-- What begins as a frame does and is too long, for what it says itself or
for the buffer. -/
structure BadFrame where
  first : UInt8
  second : UInt8
  rest : List UInt8
  type3 : first.toNat / 16 = 0xA
  clean : FLAG_BYTE ∉ first :: second :: rest
  misfit : frameLength first second < rest.length + 2 ∨
    BUFFER_SIZE < frameLength first second ∧ BUFFER_SIZE ≤ rest.length + 2

def BadFrame.bytes (w : BadFrame) : List UInt8 :=
  w.first :: w.second :: w.rest

def BadFrame.declared (w : BadFrame) : Nat := frameLength w.first w.second

/-- One frame on the line: a block in a packet, and the flags around it. -/
structure SentFrame where
  lead : Nat
  header : Header
  block : Block
  type3 : header.format.Type3
  declared : header.format.declared = (packetWire header block.wire).length
  packet_le : (packetWire header block.wire).length ≤ BUFFER_SIZE

def SentFrame.packet (s : SentFrame) : List UInt8 :=
  packetWire s.header s.block.wire

/-- The packet as the frame decoder's buffer holds it. -/
def SentFrame.buffer (s : SentFrame) : Buffer := ⟨s.packet, s.packet_le⟩

def SentFrame.wire (s : SentFrame) : List UInt8 :=
  flags s.lead ++ s.packet ++ flags 1

structure SentMessage where
  message : Message 255
  frames : List SentFrame
  frames_blocks : frames.map SentFrame.block = message.blocks

def SentMessage.wire (m : SentMessage) : List UInt8 :=
  m.frames.flatMap SentFrame.wire

def SentMessage.payload (m : SentMessage) : List UInt8 := m.message.payload

theorem flags_add (m n : Nat) : flags (m + n) = flags m ++ flags n :=
  List.replicate_append_replicate.symm

@[simp] theorem flags_length (n : Nat) : (flags n).length = n :=
  List.length_replicate

theorem SentFrame.packet_isFrame (s : SentFrame) : IsFrame s.packet := by
  have htype := s.type3
  have hdeclared := s.declared
  have hle := s.packet_le
  rw [SentFrame.packet]
  cases hformat : s.header.format with
  | short length h =>
      rw [hformat] at htype
      cases htype
  | long first second h =>
      rw [hformat] at htype hdeclared
      have hbytes : ∃ rest,
          packetWire s.header s.block.wire = first :: second :: rest := by
        rw [packetWire, checkedHeader, Header.wire, hformat]
        exact ⟨_, rfl⟩
      obtain ⟨rest, hbytes⟩ := hbytes
      exact ⟨first, second, rest, hbytes, htype, hdeclared, hle⟩

end MBusMeter.Spec
