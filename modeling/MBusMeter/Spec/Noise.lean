import MBusMeter.Lib.Losses
import MBusMeter.Spec.Checksum
import MBusMeter.Spec.Reports

/-!
# A line that loses and damages frames

Between the meter and the device a frame may get lost, and bits of it may be
flipped: up to three, or an odd number of them, or some close together, behind
the length field, which is what finds the end of a frame. What is damaged
otherwise is not dealt with here. The meter sends reports one after the other,
and each has a crossing of its own.
-/

namespace MBusMeter.Spec

open Lib Firmware Firmware.Pdu

/-- At most three bits differ. -/
def FewFlips (sent received : List UInt8) : Prop :=
  (flips sent received).count true ≤ 3

instance (sent received : List UInt8) : Decidable (FewFlips sent received) :=
  inferInstanceAs (Decidable (_ ≤ _))

/-- A frame as it arrives with bits flipped behind its length field. The
damage must not make it end at its header checksum. -/
structure Damaged (s : SentFrame) (received : Buffer) : Prop where
  length : received.len = s.buffer.len
  lengthField : received.bytes.take 2 = s.packet.take 2
  differs : received ≠ s.buffer
  flips : FewFlips s.packet received.bytes ∨
    OddFlips s.packet received.bytes ∨ BurstFlips s.packet received.bytes
  gentle : ¬ EndsAtHeaderChecksum received.bytes

/-- What becomes of a frame. Where one gets lost there may still be flags. -/
inductive Passage where
  | intact (s : SentFrame)
  | damaged (s : SentFrame) (received : Buffer) (h : Damaged s received)
  | lost (s : SentFrame) (between : Nat)

/-- The frame that was sent. -/
def Passage.sent : Passage → SentFrame
  | .intact s => s
  | .damaged s _ _ => s
  | .lost s _ => s

/-- What is on the line at the device's end. -/
def Passage.wire : Passage → List UInt8
  | .intact s => s.wire
  | .damaged s received _ => flags s.lead ++ received.bytes ++ flags 1
  | .lost _ between => flags between

/-- The frame that arrives. -/
def Passage.arrives : Passage → Option Buffer
  | .intact s => some s.buffer
  | .damaged _ received _ => some received
  | .lost _ _ => none

/-- The block that arrives whole. -/
def Passage.survivor : Passage → Option Block
  | .intact s => some s.block
  | _ => none

/-- A report, and what becomes of its frames. -/
structure Crossing where
  report : SentReport
  passages : List Passage
  passages_sent : passages.map Passage.sent = report.message.frames

def Crossing.wire (c : Crossing) : List UInt8 :=
  c.passages.flatMap Passage.wire

def Crossing.blocks (c : Crossing) : List Block :=
  c.report.message.message.blocks

def Crossing.survivors (c : Crossing) : List Block :=
  c.passages.filterMap Passage.survivor

/-- The reassembly as the meter's reports are seen by it: what it keeps, and
the report that gets through. -/
abbrev crossReport : List Block → Crossing → List Block × Option Crossing :=
  cross Crossing.blocks Crossing.survivors

/-- The reports that get through: all their blocks arrive, and nothing is kept
of one before. The beginning of a report that is cut off is kept until the
next one of which anything arrives, and that one is lost with it. -/
def throughNoise (crossings : List Crossing) : List SentReport :=
  (outputs crossReport [] crossings).reduceOption.map Crossing.report

/-- Some report goes on where one before it was cut off. -/
def GoesOn (crossings : List Crossing) : Prop :=
  ∃ front c back, crossings = front ++ c :: back ∧
    Resumes (fun b : Block => b.number.toNat) (after crossReport [] front)
      c.survivors

theorem Crossing.frames_blocks (c : Crossing) :
    c.passages.map (fun p => p.sent.block) = c.blocks := by
  have hframes := c.report.message.frames_blocks
  rw [← c.passages_sent, List.map_map] at hframes
  exact hframes

/-- The blocks that arrive are some of those sent, in order. -/
theorem Crossing.survivors_sublist (c : Crossing) :
    c.survivors.Sublist c.blocks := by
  rw [← c.frames_blocks, Crossing.survivors]
  induction c.passages with
  | nil => exact List.Sublist.slnil
  | cons p passages ih =>
      cases p with
      | intact s => exact ih.cons_cons s.block
      | damaged s received h => exact ih.cons s.block
      | lost s between => exact ih.cons s.block

end MBusMeter.Spec
