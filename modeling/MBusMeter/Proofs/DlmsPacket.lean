import MBusMeter.Firmware.Dlms

/-!
# A call of `dlms_decode` as a function of the packet's bytes

A packet is read up to its block number, and then, if the number is the one
expected, to its end. `dlmsPacket` says how far the reading gets; a packet
that stops before its number leaves no trace, whatever it was. `dlmsCall_eq`
is the whole of `dlms_decode` in those terms, and everything proved about runs
of the reassembler rests on it alone.
-/

namespace MBusMeter.Firmware

open Lib

/-- What `dlms_decode` can make of a packet: nothing, or a block head and
behind it the data, when the rest of the packet is whole. -/
inductive DlmsPacket where
  | headless
  | headed (last : Bool) (number : UInt16) (data : Option (List UInt8))
  deriving DecidableEq, Repr

/-- The number of a packet that has one. -/
def DlmsPacket.number : DlmsPacket → Option UInt16
  | .headless => none
  | .headed _ number _ => some number

/-- The part of a packet behind its block number. -/
def packetData : List UInt8 → Option (List UInt8)
  | _ :: _ :: len :: data => if len.toNat = data.length then some data else none
  | _ => none

/-- A packet behind its type. -/
def packetBlock : List UInt8 → DlmsPacket
  | control :: hi :: lo :: r =>
      .headed (control &&& 0x80 != 0) (word16 hi lo) (packetData r)
  | _ => .headless

/-- A packet. A packet of the longer type that is cut in its three extra bytes
is too short to have a number either way. -/
def dlmsPacket : List UInt8 → DlmsPacket
  | [] => .headless
  | type :: r =>
      if type = 0xE6 then packetBlock (r.drop 3)
      else if type = 0xE0 then packetBlock r
      else .headless

/-- The state and the answer after a block with the expected number. -/
def DlmsState.accept (state : DlmsState) (last : Bool) :
    Option (List UInt8) → DlmsState × DlmsResult
  | none => (state, ⟨false, []⟩)
  | some data =>
      if last then (dlmsInit, ⟨true, [state.buffer.store data]⟩)
      else
        ({ buffer := state.buffer.store data
           nextBlockNumber := state.nextBlockNumber + 1 }, ⟨true, []⟩)

/-- The state and the answer after a packet. -/
def DlmsState.take (state : DlmsState) : DlmsPacket → DlmsState × DlmsResult
  | .headless => (state, ⟨false, []⟩)
  | .headed last number data =>
      if number.toNat ≠ state.nextBlockNumber.toNat then
        (dlmsInit, ⟨false, []⟩)
      else state.accept last data

theorem DlmsCall.onStream_ok {α : Type} {m : Proc Fault Stream α}
    {call : DlmsCall} {a : α} {stream : Stream}
    (h : m call.stream = .ok a stream) :
    onStream m call = .ok a { call with stream } :=
  Proc.zoom_of_ok h

theorem DlmsCall.onStream_fail {α : Type} {m : Proc Fault Stream α}
    {call : DlmsCall} {stream : Stream} (h : m call.stream = .fail stream) :
    onStream m call = .fail { call with stream } :=
  Proc.zoom_of_fail h

/-- The end of a call, as its caller sees it, when it is not a fault. -/
def DlmsCall.Seen (o : Outcome Fault DlmsCall PUnit)
    (r : DlmsState × DlmsResult) : Prop :=
  o.faulted = false ∧ o.state.state = r.1 ∧ o.succeeded = r.2.ret ∧
    o.state.handed = r.2.handed

/-- A copy of the whole rest of the packet: the stream is at its end, and the
buffer has taken the bytes or not. -/
theorem dlmsStore_rest {call : DlmsCall} {len : UInt8}
    (h : len.toNat = call.stream.rest.length) :
    dlmsStore len call =
      .ok ⟨⟩ { call with
        stream := call.stream.advance len.toNat
        state := { call.state with
          buffer := call.state.buffer.store call.stream.rest } } := by
  have hget := streamGetBuffer_of_le call.stream call.state.buffer
    (Nat.le_of_eq h)
  rw [h, List.take_length] at hget
  rw [dlmsStore, h, Proc.zoom_apply, hget]
  rfl

theorem dlmsBlock_seen (last : Bool) (stream : Stream) (state : DlmsState) :
    DlmsCall.Seen (dlmsBlock last { stream, state, handed := [] })
      (state.accept last (packetData stream.rest)) := by
  rw [dlmsBlock]
  rcases hrest : stream.rest with _ | ⟨a, _ | ⟨b, r⟩⟩
  · rw [Proc.bind_of_fail (DlmsCall.onStream_fail
      (streamSkip_of_lt (by simp [hrest])))]
    exact ⟨rfl, rfl, rfl, rfl⟩
  · rw [Proc.bind_of_fail (DlmsCall.onStream_fail
      (streamSkip_of_lt (by simp [hrest])))]
    exact ⟨rfl, rfl, rfl, rfl⟩
  · have hr : (stream.advance 2).rest = r := Stream.advance_two_rest hrest
    rw [Proc.bind_of_ok (DlmsCall.onStream_ok
      (streamSkip_of_le (by simp [hrest])))]
    rcases r with _ | ⟨len, data⟩
    · rw [Proc.bind_of_fail (DlmsCall.onStream_fail (streamGetu8_nil hr))]
      exact ⟨rfl, rfl, rfl, rfl⟩
    · have hdata : ((stream.advance 2).advance 1).rest = data :=
        Stream.advance_one_rest hr
      have hrem := streamRemains_eq ((stream.advance 2).advance 1)
      rw [hdata] at hrem
      rw [Proc.bind_of_ok (DlmsCall.onStream_ok (streamGetu8_cons hr)),
        Proc.bind_of_ok Proc.read_apply, packetData]
      split
      · next hlen =>
          rw [Proc.bind_of_ok (Proc.require_of (by rw [hrem, hlen])),
            Proc.bind_of_ok (dlmsStore_rest (by rw [hdata]; exact hlen)),
            hdata]
          cases last <;> exact ⟨rfl, rfl, rfl, rfl⟩
      · next hlen =>
          rw [Proc.bind_of_fail (Proc.require_of_not (by rw [hrem]; omega))]
          exact ⟨rfl, rfl, rfl, rfl⟩

theorem dlmsSequence_seen (last : Bool) (number : UInt16) (stream : Stream)
    (state : DlmsState) :
    DlmsCall.Seen (dlmsSequence last number { stream, state, handed := [] })
      (state.take (.headed last number (packetData stream.rest))) := by
  rw [dlmsSequence, DlmsState.take, Proc.bind_of_ok Proc.read_apply]
  split
  · next hne => exact ⟨rfl, rfl, rfl, rfl⟩
  · next heq => exact dlmsBlock_seen last stream state

/-- `dlms_decode` behind the type byte. -/
theorem dlmsHead_seen (stream : Stream) (state : DlmsState) :
    DlmsCall.Seen
      ((do
        let blockControl ← DlmsCall.onStream streamGetu8
        let blockNumber ← DlmsCall.onStream streamGetu16Be
        dlmsSequence (blockControl &&& 0x80 != 0) blockNumber :
          Proc Fault DlmsCall PUnit)
        { stream, state, handed := [] })
      (state.take (packetBlock stream.rest)) := by
  rcases hrest : stream.rest with _ | ⟨control, r⟩
  · rw [Proc.bind_of_fail (DlmsCall.onStream_fail (streamGetu8_nil hrest))]
    exact ⟨rfl, rfl, rfl, rfl⟩
  · have hr : (stream.advance 1).rest = r := Stream.advance_one_rest hrest
    rw [Proc.bind_of_ok (DlmsCall.onStream_ok (streamGetu8_cons hrest))]
    rcases r with _ | ⟨hi, _ | ⟨lo, r⟩⟩
    · rw [Proc.bind_of_fail (DlmsCall.onStream_fail
        (streamGetu16Be_of_lt (by simp [hr])))]
      exact ⟨rfl, rfl, rfl, rfl⟩
    · rw [Proc.bind_of_fail (DlmsCall.onStream_fail
        (streamGetu16Be_of_lt (by simp [hr])))]
      exact ⟨rfl, rfl, rfl, rfl⟩
    · have hr' : ((stream.advance 1).advance 2).rest = r :=
        Stream.advance_two_rest hr
      have hseq := dlmsSequence_seen (control &&& 0x80 != 0) (word16 hi lo)
        ((stream.advance 1).advance 2) state
      rw [Proc.bind_of_ok (DlmsCall.onStream_ok (streamGetu16Be_cons hr)),
        packetBlock, ← hr']
      exact hseq

/-- A packet too short for the three extra bytes is too short for a number:
the skip that fails makes no difference. -/
theorem packetBlock_short {r : List UInt8} (h : r.length < 3) :
    packetBlock r = .headless := by
  rcases r with _ | ⟨a, _ | ⟨b, _ | ⟨c, r⟩⟩⟩
  · rfl
  · rfl
  · rfl
  · exact absurd h (by simp)

/-- The skip over the three extra bytes goes through, or nothing behind it
does. -/
theorem skipExtra (call : DlmsCall) :
    ∃ stream, Proc.ignore (DlmsCall.onStream (streamSkip 3)) call =
        .ok ⟨⟩ { call with stream } ∧
      packetBlock stream.rest = packetBlock (call.stream.rest.drop 3) := by
  rcases Nat.lt_or_ge call.stream.rest.length 3 with hshort | hlong
  · refine ⟨call.stream, ?_, ?_⟩
    · rw [Proc.ignore_apply,
        DlmsCall.onStream_fail (streamSkip_of_lt hshort)]
      rfl
    · rw [List.drop_eq_nil_of_le (by omega), packetBlock_short hshort]
      rfl
  · refine ⟨call.stream.advance 3, ?_, ?_⟩
    · rw [Proc.ignore_apply, DlmsCall.onStream_ok (streamSkip_of_le hlong)]
      rfl
    · rw [Stream.advance_rest]

/-- One call of `dlms_decode`, as a function of the packet's bytes. -/
theorem dlmsDecode_seen (state : DlmsState) (buffer : Buffer) :
    DlmsCall.Seen
      (dlmsDecode { stream := streamReset buffer, state, handed := [] })
      (state.take (dlmsPacket buffer.bytes)) := by
  have hrest : (streamReset buffer).rest = buffer.bytes := rfl
  rw [dlmsDecode]
  cases hbytes : buffer.bytes with
  | nil =>
      rw [Proc.bind_of_fail (DlmsCall.onStream_fail
        (streamGetu8_nil (hrest.trans hbytes)))]
      exact ⟨rfl, rfl, rfl, rfl⟩
  | cons type r =>
      have hr : ((streamReset buffer).advance 1).rest = r :=
        Stream.advance_one_rest (hrest.trans hbytes)
      rw [Proc.bind_of_ok (DlmsCall.onStream_ok
        (streamGetu8_cons (hrest.trans hbytes))), dlmsType, dlmsPacket]
      split
      · -- 0xE6
        obtain ⟨stream, hskip, hblock⟩ := skipExtra
          { stream := (streamReset buffer).advance 1, state, handed := [] }
        rw [Proc.bind_of_ok hskip, ← hr, ← hblock]
        exact dlmsHead_seen stream state
      · split
        · have hhead := dlmsHead_seen ((streamReset buffer).advance 1) state
          rw [hr] at hhead
          exact hhead
        · exact ⟨rfl, rfl, rfl, rfl⟩

/-- The call its caller sees is the reading of the packet. -/
theorem dlmsCall_eq (state : DlmsState) (buffer : Buffer) :
    dlmsCall state buffer = state.take (dlmsPacket buffer.bytes) := by
  obtain ⟨_, hstate, hret, hhanded⟩ := dlmsDecode_seen state buffer
  rw [dlmsCall]
  simp only [hstate, hret, hhanded]

/-- The four things a call can do: the packet has no number, it has another
one than expected, its rest is not what its length says, or it is accepted. -/
theorem dlmsCall_cases (state : DlmsState) (packet : Buffer) :
    (dlmsPacket packet.bytes = .headless ∧
      dlmsCall state packet = (state, ⟨false, []⟩)) ∨
    (∃ last number data, dlmsPacket packet.bytes = .headed last number data ∧
      number.toNat ≠ state.nextBlockNumber.toNat ∧
      dlmsCall state packet = (dlmsInit, ⟨false, []⟩)) ∨
    (∃ last number, dlmsPacket packet.bytes = .headed last number none ∧
      number.toNat = state.nextBlockNumber.toNat ∧
      dlmsCall state packet = (state, ⟨false, []⟩)) ∨
    ∃ last number data,
      dlmsPacket packet.bytes = .headed last number (some data) ∧
      number.toNat = state.nextBlockNumber.toNat ∧
      dlmsCall state packet = state.accept last (some data) := by
  rw [dlmsCall_eq]
  rcases dlmsPacket packet.bytes with _ | ⟨last, number, data⟩
  · exact Or.inl ⟨rfl, rfl⟩
  · by_cases hnum : number.toNat = state.nextBlockNumber.toNat
    · rw [DlmsState.take, if_neg (not_not_intro hnum)]
      rcases data with _ | data
      · exact Or.inr (Or.inr (Or.inl ⟨last, number, rfl, hnum, rfl⟩))
      · exact Or.inr (Or.inr (Or.inr ⟨last, number, data, rfl, hnum, rfl⟩))
    · rw [DlmsState.take, if_pos hnum]
      exact Or.inr (Or.inl ⟨last, number, data, rfl, hnum, rfl⟩)

/-- `dlms_decode` never runs into undefined behaviour. -/
theorem dlmsDecode_not_faulted (state : DlmsState) (buffer : Buffer) :
    (dlmsDecode { stream := streamReset buffer, state, handed := [] }).faulted
      = false :=
  (dlmsDecode_seen state buffer).1

end MBusMeter.Firmware
