import MBusMeter.Proofs.Accepting
import MBusMeter.Proofs.Bridge
import MBusMeter.Proofs.FrameStream
import MBusMeter.Spec.Reports

/-!
# Reports, from the line to the attributes

All layers at once. Once the device is between two frames and its reassembly
holds nothing, a report on the line is told to the meter as it is, and the
device is there again behind it. Freshly started it gets there at the first
flag. From anywhere else enough flags bring it between two frames, and one
message more empties the reassembly.
-/

namespace MBusMeter.Proofs

open Lib Firmware Firmware.Hdlc Firmware.HdlcFrame Firmware.Pdu Spec

/-! ## Frames as packets -/

variable {expectedLen : Int32} {input bytes : List UInt8}

theorem framesOn_feeds {frames : List Buffer} {f : FrameState}
    (h : Feeds (after hdlcHandleByte (hdlcFrameInit expectedLen) input) bytes
      frames f) :
    framesOn expectedLen (input ++ bytes) =
      framesOn expectedLen input ++ frames := by
  rw [framesOn, outputs_append, List.reduceOption_append, h.emitted]
  rfl

theorem informationOf_sent (s : SentFrame) :
    informationOf s.buffer = some s.block.packet := by
  obtain ⟨call, ho, hbytes⟩ := @packetCall_of_isPacket s.buffer s.header
    s.block.wire ⟨s.declared, rfl⟩ ⟨[], Nat.zero_le _⟩
  rw [informationOf, ho]
  exact congrArg some (Buffer.ext hbytes)

/-- The packets of frames are their blocks. -/
theorem information_frames (frames : List SentFrame) :
    (frames.map SentFrame.buffer).filterMap informationOf =
      (frames.map SentFrame.block).map Block.packet := by
  have hone : informationOf ∘ SentFrame.buffer =
      some ∘ fun s => s.block.packet := funext informationOf_sent
  rw [List.filterMap_map, hone, List.filterMap_eq_map, List.map_map]
  rfl

theorem information_message (m : SentMessage) :
    (m.frames.map SentFrame.buffer).filterMap informationOf =
      m.message.blocks.map Block.packet := by
  rw [information_frames, m.frames_blocks]

theorem not_ends_sent (s : SentFrame) :
    ¬ EndsAtHeaderChecksum s.buffer.bytes :=
  @isPacket_not_endsAtHeaderChecksum s.packet s.block.wire s.header
    ⟨s.declared, rfl⟩

theorem bytes_injective : Function.Injective (List.map Buffer.bytes) :=
  List.map_injective_iff.mpr fun _ _ => Buffer.ext

/-- From the state of `dlms_init` on, the blocks of a message hand over its
payload. -/
theorem handed_message (m : SentMessage) :
    (outputs dlmsCall dlmsInit (m.message.blocks.map Block.packet)).flatMap
      DlmsResult.handed = [m.buffer] := by
  have hdel : Delivered dlmsInit m.message :=
    (delivered_iff_spells m.message rfl).mpr (spells_of_empty m.message rfl)
  have hbytes := congrArg List.flatten hdel.1
  refine bytes_injective ?_
  rw [handedBytes, ← List.flatMap_def, ← List.map_flatMap] at hbytes
  rw [hbytes, List.flatten_append]
  simp [SentMessage.buffer, SentMessage.payload]

/-! ## Between two messages -/

/-- The device is between two frames, with nothing in the reassembly. -/
structure Ready (expectedLen : Int32) (input : List UInt8) : Prop where
  between : after hdlcHandleByte (hdlcFrameInit expectedLen) input = boundary
  empty : after dlmsCall dlmsInit (packetsOn expectedLen input) = dlmsInit
  safe : ¬ Breaks expectedLen input

/-- Flags between messages are nothing. -/
theorem Ready.idle (h : Ready expectedLen input) (n : Nat) :
    Ready expectedLen (input ++ flags n) ∧
      callsOn expectedLen (input ++ flags n) =
        callsOn expectedLen input := by
  have hfeeds : Feeds (after hdlcHandleByte (hdlcFrameInit expectedLen) input)
      (flags n) [] boundary := by
    rw [h.between]
    exact feeds_flags n
  have hframes := framesOn_feeds hfeeds
  have hpackets := packetsOn_append hframes
  have hpayloads : payloadsOn expectedLen (input ++ flags n) =
      payloadsOn expectedLen input ++ [] := payloadsOn_append hpackets
  refine ⟨⟨?_, ?_, ?_⟩, ?_⟩
  · rw [after_append, hfeeds.state]
  · rw [hpackets, List.filterMap_nil, List.append_nil, h.empty]
  · rw [breaks_append hframes hpayloads h.safe]
    simp
  · rw [callsOn_append hpayloads]
    simp

/-- A report is told as it is. -/
theorem Ready.report (h : Ready expectedLen input) (s : SentReport) :
    Ready expectedLen (input ++ s.wire) ∧
      callsOn expectedLen (input ++ s.wire) =
        callsOn expectedLen input ++ s.calls := by
  have hfeeds : Feeds (after hdlcHandleByte (hdlcFrameInit expectedLen) input)
      s.wire (s.message.frames.map SentFrame.buffer) boundary := by
    rw [h.between]
    exact feeds_sent s.message.frames
  have hframes := framesOn_feeds hfeeds
  have hpackets := packetsOn_append hframes
  rw [information_message] at hpackets
  have hpayloads := payloadsOn_append hpackets
  rw [h.empty, handed_message, s.buffer_eq] at hpayloads
  have hscan := scan_report s.report
  refine ⟨⟨?_, ?_, ?_⟩, ?_⟩
  · rw [after_append, hfeeds.state]
  · have hle := s.message.message.blocks_le
    rw [hpackets, after_append, h.empty]
    exact (blocks_in_step s.message.message.numbered dlmsInit rfl
      (by omega)).2
  · rw [breaks_append hframes hpayloads h.safe]
    rintro (⟨frame, hmem, hends⟩ | ⟨payload, hmem, hover⟩)
    · obtain ⟨f, _, rfl⟩ := List.mem_map.mp hmem
      exact not_ends_sent f hends
    · rw [List.mem_singleton.mp hmem, ← scan_overrun_iff, hscan] at hover
      cases hover
  · rw [callsOn_append hpayloads, List.flatMap_singleton, pduCall_updates,
      hscan]
    rfl

theorem Ready.reports (reports : List SentReport) :
    ∀ {input : List UInt8}, Ready expectedLen input →
      Ready expectedLen (input ++ reports.flatMap SentReport.wire) ∧
        callsOn expectedLen (input ++ reports.flatMap SentReport.wire) =
          callsOn expectedLen input ++ reports.flatMap SentReport.calls := by
  induction reports with
  | nil =>
      intro input h
      rw [List.flatMap_nil, List.flatMap_nil, List.append_nil, List.append_nil]
      exact ⟨h, rfl⟩
  | cons s reports ih =>
      intro input h
      obtain ⟨hready, hcalls⟩ := h.report s
      obtain ⟨hready', hcalls'⟩ := ih hready
      rw [List.flatMap_cons, List.flatMap_cons, ← List.append_assoc,
        ← List.append_assoc, ← hcalls]
      exact ⟨hready', hcalls'⟩

/-- Freshly started, the device is ready behind the first flags. -/
theorem ready_started {junk : List UInt8} (hjunk : FLAG_BYTE ∉ junk)
    (lead : Nat) :
    Ready expectedLen (junk ++ flags (lead + 1)) ∧
      callsOn expectedLen (junk ++ flags (lead + 1)) = [] := by
  have hinit : Searching (hdlcFrameInit expectedLen) := ⟨rfl, rfl⟩
  have hfeeds : Feeds (hdlcFrameInit expectedLen) (junk ++ flags (lead + 1))
      [] boundary :=
    (feeds_noise hinit hjunk).append (feeds_searching hinit lead)
  have hframes : framesOn expectedLen (junk ++ flags (lead + 1)) = [] :=
    hfeeds.emitted
  have hpackets : packetsOn expectedLen (junk ++ flags (lead + 1)) = [] := by
    rw [packetsOn, hframes]
    rfl
  have hpayloads : payloadsOn expectedLen (junk ++ flags (lead + 1)) = [] := by
    rw [payloadsOn, hpackets]
    rfl
  refine ⟨⟨hfeeds.state, ?_, ?_⟩, ?_⟩
  · rw [hpackets]
    rfl
  · rintro (⟨frame, hmem, _⟩ | ⟨payload, hmem, _⟩)
    · rw [hframes] at hmem
      cases hmem
    · rw [hpayloads] at hmem
      cases hmem
  · rw [callsOn, hpayloads]
    rfl

/-- Between two frames, one message more empties the reassembly. -/
theorem ready_settled {history lead : List UInt8} {frames : List Buffer}
    (hlead : Feeds (after hdlcHandleByte (hdlcFrameInit expectedLen) history)
      lead frames boundary) (first : SentMessage)
    (hsafe : ¬ Breaks expectedLen (history ++ (lead ++ first.wire))) :
    Ready expectedLen (history ++ (lead ++ first.wire)) := by
  have hfeeds := hlead.append (feeds_sent first.frames)
  have hpackets := packetsOn_append (framesOn_feeds hfeeds)
  rw [List.filterMap_append, information_message] at hpackets
  refine ⟨?_, ?_, hsafe⟩
  · rw [after_append]
    exact hfeeds.state
  · refine (congrArg (after dlmsCall dlmsInit) hpackets).trans ?_
    rw [after_append, after_append]
    generalize after dlmsCall (after dlmsCall dlmsInit
      (packetsOn expectedLen history)) (frames.filterMap informationOf) = state
    by_cases hone : state.nextBlockNumber.toNat = 0 + 1
    · have hle := first.message.blocks_le
      exact (blocks_in_step first.message.numbered state hone (by omega)).2
    · exact (blocks_out_of_step first.message.numbered state hone).2

/-- From anywhere, it is behind enough flags and one message, if it gets
there. -/
theorem ready_resumed (history : List UInt8) {n : Nat} (hn : 1025 ≤ n)
    (first : SentMessage)
    (hsafe : ¬ Breaks expectedLen (history ++ (flags n ++ first.wire))) :
    Ready expectedLen (history ++ (flags n ++ first.wire)) := by
  rcases settles (tracked_after expectedLen history) hn with
    ⟨hfeeds, _⟩ | ⟨frame, _, _, _, hfeeds⟩
  · exact ready_settled hfeeds first hsafe
  · exact ready_settled hfeeds first hsafe

/-! ## Attributes -/

theorem fitting_of_callsOn {u : MeterUpdate}
    (h : u ∈ callsOn expectedLen input) : Fitting u := by
  obtain ⟨payload, _, hu⟩ := List.mem_flatMap.mp h
  rw [pduCall_updates] at hu
  exact fitting_published hu

theorem fitting_of_calls {reports : List SentReport} {u : MeterUpdate}
    (h : u ∈ reports.flatMap SentReport.calls) : Fitting u := by
  obtain ⟨s, _, hs⟩ := List.mem_flatMap.mp h
  exact fitting_published hs

/-- A device that is ready tells the meter the reports behind. -/
theorem Ready.run {zb : EspZigbee} (h : Ready expectedLen input)
    (meter : zb.Meter) (reports : List SentReport) (trail : Nat) :
    ∃ bridge, zb.bridgeTask
        (input ++ (reports.flatMap SentReport.wire ++ flags trail))
        (zb.bridgeInit expectedLen meter) = .ok ⟨⟩ bridge ∧
      bridge.frameState = boundary ∧ bridge.dlmsState = dlmsInit ∧
      bridge.meter = (callsOn expectedLen input ++
        reports.flatMap SentReport.calls).foldl zb.zigbeeMeterUpdate
          meter := by
  obtain ⟨hready, hcalls⟩ := Ready.reports reports h
  obtain ⟨hready', hcalls'⟩ := hready.idle trail
  rw [← List.append_assoc]
  rcases bridgeTask_cases zb expectedLen meter
      (input ++ reports.flatMap SentReport.wire ++ flags trail) with
    ⟨hbreaks, _⟩ | ⟨_, ho⟩
  · exact absurd hbreaks hready'.safe
  · refine ⟨_, ho, hready'.between, hready'.empty, ?_⟩
    rw [bridgeAfter, hcalls', hcalls]

/-- On a stack that accepts its writes, each attribute then holds the last
value the reports had for it. -/
theorem Ready.told {zb : EspZcl} (h : Ready expectedLen input)
    (meter : zb.Meter) (reports : List SentReport) (trail : Nat) :
    ∃ bridge, zb.bridgeTask
        (input ++ (reports.flatMap SentReport.wire ++ flags trail))
        (zb.bridgeInit expectedLen meter) = .ok ⟨⟩ bridge ∧
      bridge.meter = (callsOn expectedLen input ++
        reports.flatMap SentReport.calls).foldl zb.zigbeeMeterUpdate meter ∧
      ∀ good, AcceptsFrom zb good → good meter.state →
        Shows meter meter.prev → ∀ channel u,
          shown channel (reports.flatMap SentReport.calls) = some u →
            Holds bridge.meter u := by
  obtain ⟨bridge, ho, _, _, hmeter⟩ := h.run meter reports trail
  refine ⟨bridge, ho, hmeter, fun good haccepts hgood hshows channel u hu => ?_⟩
  rw [hmeter]
  refine haccepts.holds_last hgood hshows (fun u hu => ?_)
    (lastOn_append_of_some hu _)
  rcases List.mem_append.mp hu with hu | hu
  · exact fitting_of_callsOn hu
  · exact fitting_of_calls hu

/-- A report of 7 in the current of the first phase. -/
def currentReport : Report where
  header := 0x0F :: List.replicate 17 0
  definitions := [currentDefinition]
  values := [.uint16 7]
  header_len := rfl
  definitions_le := by decide
  stops := stopsWhenFull_of_lt (by decide)
  known := by
    intro code hcode
    rw [List.mem_singleton.mp hcode]
    exact ⟨.current 0, rfl⟩
  values_le := by decide
  whole := by decide
  fits := ⟨by decide, by decide⟩
  size_le := by decide

/-- In one block. -/
def currentBlock : Block where
  extra := none
  control := 0x80
  number := 1
  ack := (0, 0)
  data := currentReport.packet.bytes
  data_le := by decide

def currentFrame : SentFrame where
  lead := 0
  header :=
    { format := .long 0xA8 0x3B (by decide)
      destination := .single 0x07 (by decide)
      source := .single 0x23 (by decide)
      control := 0x17
      control_low := by decide }
  block := currentBlock
  type3 := rfl
  declared := by rw [packetWire_length]; decide
  packet_le := by rw [packetWire_length]; decide

def currentSent : SentReport where
  report := currentReport
  message :=
    { message :=
        { blocks := [currentBlock]
          numbered := .final rfl rfl
          blocks_le := by decide
          payload_le := by decide }
      frames := [currentFrame]
      frames_blocks := rfl }
  carries := rfl

/-- Freshly started there is no frame for the flags to fill up. -/
theorem safe_started (n : Nat) (first : SentReport) :
    ¬ Breaks expectedLen ([] ++ (flags (n + 1) ++ first.message.wire)) := by
  have hready := (@ready_started expectedLen [] nofun n).1.report first
  rw [List.nil_append] at hready
  exact hready.1.safe

end MBusMeter.Proofs
