import MBusMeter.Lib.Proc
import MBusMeter.Firmware.Buffer
import MBusMeter.Lib.Machine
import MBusMeter.Lib.Word
import MBusMeter.Lib.Channels
import MBusMeter.Firmware.Stream
import MBusMeter.Proofs.StreamReads
import MBusMeter.Firmware.Dlms
import MBusMeter.Lib.Blocks
import MBusMeter.Proofs.DlmsPacket
import MBusMeter.Proofs.Reassembly
import MBusMeter.Proofs.Lossless
import MBusMeter.Proofs.WholeMessage
import MBusMeter.Proofs.LossyLine
import MBusMeter.Proofs.Malformed
import MBusMeter.Firmware.Pdu
import MBusMeter.Proofs.PduScan
import MBusMeter.Proofs.PduReadings
import MBusMeter.Proofs.PduItems
import MBusMeter.Proofs.PduDefinitions
import MBusMeter.Proofs.PduDecode
import MBusMeter.Lib.Ensures
import MBusMeter.Proofs.PduDepth
import MBusMeter.Proofs.PduGrammar
import MBusMeter.Proofs.PduTable
import MBusMeter.Proofs.PduUpdates
import MBusMeter.Spec.Meter
import MBusMeter.Spec.Order
import MBusMeter.Proofs.PduPower
import MBusMeter.Proofs.PduOrder
import MBusMeter.Firmware.ZigbeeMeter
import MBusMeter.Proofs.ZigbeeMeter
import MBusMeter.Proofs.MeterAttributes
import MBusMeter.Firmware.Endpoints
import MBusMeter.Spec.Endpoints
import MBusMeter.Proofs.Accepting
import MBusMeter.Firmware.Hdlc
import MBusMeter.Lib.ShiftRegister
import MBusMeter.Spec.Checksum
import MBusMeter.Proofs.Checksum
import MBusMeter.Spec.HdlcHeader
import MBusMeter.Proofs.HdlcHeader
import MBusMeter.Proofs.HdlcSound
import MBusMeter.Proofs.Corruption
import MBusMeter.Firmware.Uart
import MBusMeter.Spec.Line
import MBusMeter.Proofs.Frames
import MBusMeter.Proofs.FramePositions
import MBusMeter.Proofs.FrameStream
import MBusMeter.Proofs.Resync
import MBusMeter.Proofs.Delivery
import MBusMeter.Firmware.Bridge
import MBusMeter.Proofs.Bridge
import MBusMeter.Proofs.Provenance
import MBusMeter.Spec.Reports
import MBusMeter.Proofs.Reports
import MBusMeter.Lib.Losses
import MBusMeter.Spec.Noise
import MBusMeter.Proofs.NoisyLine
import MBusMeter.Lib.Lock
import MBusMeter.Firmware.Tasks
import MBusMeter.Proofs.Tasks
import MBusMeter.Firmware.Main
import MBusMeter.Spec.Button
import MBusMeter.Proofs.Button
import MBusMeter.Proofs.Device
import MBusMeter.Proofs.Distance
import MBusMeter.Lib.Grammar
import MBusMeter.Spec.FrameGrammar
import MBusMeter.Proofs.FrameGrammar
import MBusMeter.Proofs.AnyOrder
import MBusMeter.Proofs.Endpoints
import MBusMeter.Proofs.Repair
import MBusMeter.Proofs.Traffic
import MBusMeter.Spec.Truncated
import MBusMeter.Proofs.Truncated
import MBusMeter.Proofs.Prompt
