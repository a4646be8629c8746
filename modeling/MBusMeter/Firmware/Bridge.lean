import MBusMeter.Firmware.Uart
import MBusMeter.Firmware.ZigbeeMeter

/-!
# From the line to the attributes (`uart.c`)

`uart_task` gives the reassembly `dlms_frame_received` for its handler, which
decodes the message at once. So everything the device does with a byte of the
line, down to the attributes of the stack, is done when `hdlc_handle_byte`
returns. `MBusMeter.Firmware.Uart` ends at the calls of the handler; here they
are carried out.
-/

namespace MBusMeter.Firmware

open Lib Pdu HdlcFrame

/-- What `uart_task` holds, and the meter that is updated. -/
structure Bridge (zb : EspZigbee) where
  frameState : FrameState
  dlmsState : DlmsState
  meter : zb.Meter

namespace EspZigbee

variable (zb : EspZigbee)

/-- `dlms_frame_received`. The meter is updated while the buffer is decoded;
the answer of `pdu_decode` goes into a log line. -/
def dlmsFrameReceived (buffer : Buffer) : Proc Fault zb.Meter PUnit :=
  ⟨fun meter =>
    (pduCall buffer).ignored.mapState fun call =>
      call.updates.foldl zb.zigbeeMeterUpdate meter⟩

/-- `hdlc_frame_received` with its handler. The state of the reassembly is
nothing the handler looks at. -/
def bridgeFrameReceived (buffer : Buffer) : Proc Fault (Bridge zb) PUnit :=
  ⟨fun bridge =>
    match hdlcFrameReceived buffer
      { dlmsState := bridge.dlmsState, handed := [] } with
    | .ok _ receiver =>
        (Proc.each zb.dlmsFrameReceived receiver.handed
          bridge.meter).mapState fun meter =>
            { bridge with dlmsState := receiver.dlmsState, meter }
    | .fail receiver =>
        .fail { bridge with dlmsState := receiver.dlmsState }
    | .fault cause receiver =>
        .fault cause { bridge with dlmsState := receiver.dlmsState }⟩

/-- `hdlc_handle_byte` with its callback. -/
def bridgeHandleByte (byte : UInt8) : Proc Fault (Bridge zb) PUnit :=
  ⟨fun bridge =>
    match hdlcHandleByte bridge.frameState byte with
    | (frameState, none) => .ok ⟨⟩ { bridge with frameState }
    | (frameState, some buffer) =>
        zb.bridgeFrameReceived buffer { bridge with frameState }⟩

/-- `uart_task`, on the bytes that have come in. -/
def bridgeTask (data : List UInt8) : Proc Fault (Bridge zb) PUnit :=
  Proc.each zb.bridgeHandleByte data

/-- The start of `uart_task`. -/
def bridgeInit (expectedLen : Int32) (meter : zb.Meter) : Bridge zb where
  frameState := hdlcFrameInit expectedLen
  dlmsState := dlmsInit
  meter := meter

end EspZigbee

end MBusMeter.Firmware
