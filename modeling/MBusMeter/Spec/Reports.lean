import MBusMeter.Spec.Line
import MBusMeter.Spec.Meter

/-!
# Reports on the line

What the meter sends, all the way down: a report is the payload of a message,
the message travels in blocks, each block in a packet and each packet between
flags.
-/

namespace MBusMeter.Spec

open Lib Firmware Firmware.Pdu

/-- A report, and the message that carries it. -/
structure SentReport where
  report : Report
  message : SentMessage
  carries : message.payload = report.packet.bytes

def SentReport.wire (s : SentReport) : List UInt8 := s.message.wire

/-- What the meter is to be told about it. -/
def SentReport.calls (s : SentReport) : List MeterUpdate :=
  published (keptCodes s.report.definitions) s.report.values

/-- The payload of a message, as the reassembly's buffer holds it. -/
def SentMessage.buffer (m : SentMessage) : Buffer :=
  ⟨m.payload, m.message.payload_le⟩

theorem SentReport.buffer_eq (s : SentReport) :
    s.message.buffer = s.report.packet := Buffer.ext s.carries

end MBusMeter.Spec
