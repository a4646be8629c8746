import MBusMeter.Firmware.Stream
import MBusMeter.Lib.Machine

/-!
# Reassembling DLMS blocks (`dlms.c`)

A DLMS message arrives cut into numbered blocks. `dlms_decode` is called with
one packet at a time; it appends the block's data to its buffer, expects the
next number, and hands the buffer over when the block says it is the last.

The local stream of a call, the reassembly state and the calls made to the
handler are one record, `DlmsCall`, so that what a failing call leaves behind
can be read off its end. `dlmsCall` is the call as its caller sees it: the
next state, the answer, and what was handed over.
-/

namespace MBusMeter.Firmware

open Lib

/-- `dlms_state`, without the handler. -/
structure DlmsState where
  buffer : Buffer
  nextBlockNumber : UInt8
  deriving DecidableEq, Repr

/-- What `buffer_reset` and `nextBlockNumber = 1` leave. -/
def DlmsState.reset (state : DlmsState) : DlmsState :=
  { buffer := bufferReset state.buffer, nextBlockNumber := 1 }

def dlmsInit : DlmsState :=
  { buffer := ⟨[], Nat.zero_le _⟩, nextBlockNumber := 1 }

/-- What one call of `dlms_decode` works on. -/
structure DlmsCall where
  stream : Stream
  state : DlmsState
  handed : List Buffer
  deriving DecidableEq, Repr

/-- A stream read inside `dlms_decode`. -/
def DlmsCall.onStream {α : Type} (m : Proc Fault Stream α) :
    Proc Fault DlmsCall α :=
  Proc.zoom DlmsCall.stream (fun call stream => { call with stream }) m

/-- The switch on the first byte. The answer of the skip is not looked at. -/
def dlmsType (type : UInt8) : Proc Fault DlmsCall PUnit :=
  if type = 0xE6 then Proc.ignore (DlmsCall.onStream (streamSkip 3))
  else if type = 0xE0 then pure ⟨⟩
  else Proc.fail

/-- `stream_get_buffer(&stream, &state->buffer, dataLen)`. -/
def dlmsStore (dataLen : UInt8) : Proc Fault DlmsCall PUnit :=
  Proc.zoom (fun call => (call.stream, call.state.buffer))
    (fun call p =>
      { call with stream := p.1, state := { call.state with buffer := p.2 } })
    (streamGetBuffer (dataLen.toNat : Int))

/-- `if (lastBlock)`: the handler is called and the state starts over. -/
def dlmsFinish (lastBlock : Bool) : Proc Fault DlmsCall PUnit :=
  if lastBlock then
    Proc.update fun call =>
      { call with
        handed := call.handed ++ [call.state.buffer]
        state := call.state.reset }
  else pure ⟨⟩

/-- `dlms_decode` behind the sequence check. -/
def dlmsBlock (lastBlock : Bool) : Proc Fault DlmsCall PUnit := do
  DlmsCall.onStream (streamSkip 2)
  let dataLen ← DlmsCall.onStream streamGetu8
  let remains ← Proc.read fun call => streamRemains call.stream
  Proc.require ((dataLen.toNat : Int) = remains)
  dlmsStore dataLen
  Proc.update fun call =>
    { call with
      state := { call.state with
        nextBlockNumber := call.state.nextBlockNumber + 1 } }
  dlmsFinish lastBlock

/-- The sequence check: both numbers are compared as `int`. A block with
another number puts the state back and is gone. -/
def dlmsSequence (lastBlock : Bool) (blockNumber : UInt16) :
    Proc Fault DlmsCall PUnit := do
  let state ← Proc.read DlmsCall.state
  if blockNumber.toNat ≠ state.nextBlockNumber.toNat then
    Proc.update (fun call => { call with state := call.state.reset })
    Proc.fail
  else
    dlmsBlock lastBlock

def dlmsDecode : Proc Fault DlmsCall PUnit := do
  let type ← DlmsCall.onStream streamGetu8
  dlmsType type
  let blockControl ← DlmsCall.onStream streamGetu8
  let blockNumber ← DlmsCall.onStream streamGetu16Be
  dlmsSequence (blockControl &&& 0x80 != 0) blockNumber

/-- What the caller of `dlms_decode` gets to see of a call. -/
structure DlmsResult where
  ret : Bool
  handed : List Buffer
  deriving DecidableEq, Repr

/-- One call of `dlms_decode` on a packet. -/
def dlmsCall (state : DlmsState) (buffer : Buffer) : DlmsState × DlmsResult :=
  let o := dlmsDecode { stream := streamReset buffer, state, handed := [] }
  (o.state.state, { ret := o.succeeded, handed := o.state.handed })

/-- The states of the reassembler that some sequence of packets leaves. -/
def DlmsState.Reached (state : DlmsState) : Prop :=
  Reachable dlmsCall dlmsInit state

/-- The payloads a run hands to the handler. -/
def payloads (state : DlmsState) (packets : List Buffer) : List (List UInt8) :=
  (outputs dlmsCall state packets).flatMap fun r => r.handed.map Buffer.bytes

end MBusMeter.Firmware
