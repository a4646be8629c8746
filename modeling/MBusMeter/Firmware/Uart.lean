import MBusMeter.Firmware.Dlms
import MBusMeter.Firmware.Hdlc
import MBusMeter.Firmware.HdlcFrame

/-!
# From the line to the messages (`uart.c`)

`uart_task` puts the layers together: every byte goes to the frame decoder,
every frame to the packet decoder, and the information of every packet to the
reassembly. `dlms_frame_received`, the handler of the reassembled messages, is
where this composition ends; the model writes down the calls it gets.
-/

namespace MBusMeter.Firmware

open Lib Hdlc HdlcFrame

/-- What `hdlc_frame_received` works on: the reassembly it is given, and the
calls of `dlms_frame_received` so far. -/
structure Receiver where
  dlmsState : DlmsState
  handed : List Buffer
  deriving DecidableEq, Repr

/-- `hdlc_frame_received`. What its local `information` holds at first does not
matter, `hdlc_packet_decode` resets it before it reads it. -/
def hdlcFrameReceived (buffer : Buffer) : Proc Fault Receiver PUnit :=
  ⟨fun receiver =>
    match packetCall buffer ⟨[], Nat.zero_le _⟩ with
    | .fail _ => .ok ⟨⟩ receiver
    | .fault cause _ => .fault cause receiver
    | .ok _ packet =>
        (dlmsDecode
          { stream := streamReset packet.information
            state := receiver.dlmsState
            handed := [] }).ignored.mapState fun call =>
          { dlmsState := call.state
            handed := receiver.handed ++ call.handed }⟩

/-- What `uart_task` holds. -/
structure Uart where
  frameState : FrameState
  receiver : Receiver
  deriving DecidableEq, Repr

/-- The start of `uart_task`. -/
def uartInit (expectedLen : Int32) : Uart :=
  { frameState := hdlcFrameInit expectedLen
    receiver := { dlmsState := dlmsInit, handed := [] } }

/-- `hdlc_handle_byte` with its callback. -/
def uartHandleByte (byte : UInt8) : Proc Fault Uart PUnit :=
  ⟨fun uart =>
    match hdlcHandleByte uart.frameState byte with
    | (frameState, none) => .ok ⟨⟩ { uart with frameState }
    | (frameState, some buffer) =>
        (hdlcFrameReceived buffer uart.receiver).mapState fun receiver =>
          { frameState, receiver }⟩

/-- `uart_task`, on the bytes that have come in. -/
def uartTask (data : List UInt8) : Proc Fault Uart PUnit :=
  Proc.each uartHandleByte data

end MBusMeter.Firmware
