import MBusMeter.Firmware.Buffer
import MBusMeter.Lib.Machine

/-!
# Finding frames in the bytes of the line (`hdlc_frame.c`)

`hdlc_handle_byte` is called once for each byte. Between flags it collects a
frame, and since the sender does not escape the flag byte inside a frame, it is
the frame's own length that tells the closing flag from a byte that looks like
one. The source has an escaping variant behind `HANDLE_ESCAPE`, which its
header undefines.

The callback is what the step puts out: the buffer it is called with, before
the buffer is reset for the next frame.
-/

namespace MBusMeter.Firmware.HdlcFrame

open Lib

inductive State where
  | waitSync
  | waitType
  | waitLen
  | data
  deriving DecidableEq, Repr

def FLAG_BYTE : UInt8 := 0x7E

/-- `hdlc_frame_state`, without the callback. -/
structure FrameState where
  state : State
  buffer : Buffer
  expectedLen : Int32
  deriving DecidableEq, Repr

/-- `hdlc_frame_init`: `malloc` leaves some value in `expectedLen`. -/
def hdlcFrameInit (expectedLen : Int32) : FrameState :=
  { state := .waitSync, buffer := ⟨[], Nat.zero_le _⟩, expectedLen }

def hdlcHandleByte (state : FrameState) (byte : UInt8) :
    FrameState × Option Buffer :=
  match state.state with
  | .waitSync =>
      if byte = FLAG_BYTE then
        ({ state := .waitType
           buffer := bufferReset state.buffer
           expectedLen := 0 }, none)
      else (state, none)
  | .waitType =>
      if byte = 0x7E then (state, none)
      else if byte &&& 0xF0 = 0xA0 then
        ({ state := .waitLen
           buffer := (bufferAddByte state.buffer byte).2
           expectedLen :=
             ((byte.toUInt16 &&& 0x07) <<< 8).toUInt32.toInt32 }, none)
      else ({ state with state := .waitSync }, none)
  | .waitLen =>
      ({ state := .data
         buffer := (bufferAddByte state.buffer byte).2
         expectedLen := state.expectedLen ||| byte.toUInt32.toInt32 }, none)
  | .data =>
      if byte = FLAG_BYTE ∧
          (state.buffer.len : Int) = state.expectedLen.toInt then
        ({ state := .waitType
           buffer := bufferReset state.buffer
           expectedLen := 0 },
          if state.buffer.len > 0 then some state.buffer else none)
      else if (state.buffer.len : Int) ≥ state.expectedLen.toInt then
        ({ state with
            state := .waitSync
            buffer := bufferReset state.buffer }, none)
      else
        match bufferAddByte state.buffer byte with
        | (true, buffer) => ({ state with buffer }, none)
        | (false, buffer) =>
            ({ state with
                state := .waitSync
                buffer := bufferReset buffer }, none)

end MBusMeter.Firmware.HdlcFrame
