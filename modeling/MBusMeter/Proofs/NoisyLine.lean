import MBusMeter.Proofs.Distance
import MBusMeter.Proofs.LossyLine
import MBusMeter.Proofs.Reports
import MBusMeter.Spec.Noise

/-!
# Reports on a line that loses and damages frames

A damaged frame is found by the frame decoder as it stands, since its length
is what it was, and turned away by the packet decoder. So to the reassembly it
is as if it had been lost. What the reassembly makes of the losses is a matter
of whole reports: one gets through when all its blocks arrive and no block is
held of an earlier one. Nothing else gets through, unless a report goes on
where an earlier one was cut off.
-/

namespace MBusMeter.Proofs

open Lib Firmware Firmware.Hdlc Firmware.HdlcFrame Firmware.Pdu Spec

/-! ## Frames -/

theorem damaged_isFrame {s : SentFrame} {received : Buffer}
    (h : Damaged s received) : IsFrame received.bytes := by
  obtain ⟨first, second, rest, hbytes, htype, hlen, hle⟩ := s.packet_isFrame
  have hlength : received.bytes.length = s.packet.length := h.length
  have hfield := h.lengthField
  rw [hbytes] at hfield
  rcases hreceived : received.bytes with _ | ⟨x, _ | ⟨y, r⟩⟩
  · rw [hreceived] at hfield
    cases hfield
  · rw [hreceived] at hfield
    cases hfield
  · rw [hreceived] at hfield hlength
    obtain ⟨hx, hfield⟩ := List.cons.inj hfield
    obtain ⟨hy, _⟩ := List.cons.inj hfield
    rw [← hx] at htype hlen
    rw [← hy] at hlen
    exact ⟨x, y, r, rfl, htype, hlen.trans hlength.symm,
      Nat.le_trans (Nat.le_of_eq hlength) hle⟩

theorem information_damaged {s : SentFrame} {received : Buffer}
    (h : Damaged s received) : informationOf received = none := by
  have hsent : IsPacket s.packet s.header s.block.wire := ⟨s.declared, rfl⟩
  rw [informationOf]
  rcases packetCall_cases received ⟨[], Nat.zero_le _⟩ with
    ⟨hends, _⟩ | ⟨header, call, hp, _⟩ | ⟨_, _, call, ho⟩
  · exact absurd hends h.gentle
  · rcases h.flips with hfew | hflips
    · have hfour := @isPacket_distance s.buffer received _ _ _ _ hsent hp
        h.length.symm h.differs.symm
      exact absurd (Nat.le_trans hfour hfew) (by decide)
    · exact absurd hp (not_isPacket_of_flips hsent h.length.symm
        (fun heq => h.differs (Buffer.ext heq.symm)) hflips)
  · rw [ho]

theorem feeds_passage (p : Passage) :
    Feeds boundary p.wire p.arrives.toList boundary := by
  cases p with
  | intact s => exact @feeds_frame s.buffer s.packet_isFrame s.lead
  | damaged s received h => exact feeds_frame (damaged_isFrame h) s.lead
  | lost s between => exact feeds_flags between

theorem feeds_passages (passages : List Passage) :
    Feeds boundary (passages.flatMap Passage.wire)
      (passages.filterMap Passage.arrives) boundary := by
  induction passages with
  | nil => exact Run.nil _ _
  | cons p passages ih =>
      have hall := (feeds_passage p).append ih
      rw [List.flatMap_cons, List.filterMap_cons]
      cases harrives : p.arrives with
      | none => rw [harrives] at hall; exact hall
      | some frame => rw [harrives] at hall; exact hall

/-- The packets are the blocks that arrive whole. -/
theorem information_passages (passages : List Passage) :
    (passages.filterMap Passage.arrives).filterMap informationOf =
      (passages.filterMap Passage.survivor).map Block.packet := by
  induction passages with
  | nil => rfl
  | cons p passages ih =>
      cases p with
      | intact s =>
          show ((s.buffer :: _).filterMap informationOf : List Buffer) = _
          rw [List.filterMap_cons_some (informationOf_sent s), ih]
          rfl
      | damaged s received h =>
          show ((received :: _).filterMap informationOf : List Buffer) = _
          rw [List.filterMap_cons_none (information_damaged h), ih]
          rfl
      | lost s between => exact ih

theorem not_ends_arrives {p : Passage} {frame : Buffer}
    (h : p.arrives = some frame) : ¬ EndsAtHeaderChecksum frame.bytes := by
  cases p with
  | intact s => cases h; exact not_ends_sent s
  | damaged s received hdamaged => cases h; exact hdamaged.gentle
  | lost s between => cases h

/-! ## Blocks -/

/-- The device is between two frames, and the reassembly holds these
blocks. -/
structure Holding (expectedLen : Int32) (input : List UInt8)
    (kept : List Block) : Prop where
  between : after hdlcHandleByte (hdlcFrameInit expectedLen) input = boundary
  agrees : Agrees (after dlmsCall dlmsInit (packetsOn expectedLen input)) kept
  safe : ¬ Breaks expectedLen input

variable {expectedLen : Int32} {input : List UInt8} {kept : List Block}

theorem Ready.holding (h : Ready expectedLen input) :
    Holding expectedLen input [] :=
  ⟨h.between, by rw [h.empty]; exact Agrees.init, h.safe⟩

theorem survivors_number (c : Crossing) {b : Block} (hb : b ∈ c.survivors) :
    1 ≤ b.number.toNat ∧ b.number.toNat ≤ 255 := by
  have hmem := c.survivors_sublist.subset hb
  have hlt := c.report.message.message.numbered.number_lt b hmem
  have hle := c.report.message.message.numbered.number_le b hmem
  have hlen := c.report.message.message.blocks_le
  omega

/-- All blocks of a report in the buffer are the report. -/
theorem stored_report (c : Crossing) :
    storeAll dlmsInit.buffer (c.blocks.map Block.data) =
      c.report.report.packet := by
  refine Buffer.ext ?_
  rw [Crossing.blocks,
    storeAll_init_bytes c.report.message.message.payload_le]
  exact c.report.carries

/-- One report, whatever becomes of its frames. -/
theorem Holding.crossing (h : Holding expectedLen input kept) (c : Crossing)
    (hno : ¬ Resumes (fun b : Block => b.number.toNat) kept c.survivors) :
    Holding expectedLen (input ++ c.wire) (crossReport kept c).1 ∧
      callsOn expectedLen (input ++ c.wire) =
        callsOn expectedLen input ++ (crossReport kept c).2.toList.flatMap
          fun c => c.report.calls := by
  have hfeeds : Feeds (after hdlcHandleByte (hdlcFrameInit expectedLen) input)
      c.wire (c.passages.filterMap Passage.arrives) boundary := by
    rw [h.between]
    exact feeds_passages c.passages
  have hframes := framesOn_feeds hfeeds
  have hpackets := packetsOn_append hframes
  rw [information_passages] at hpackets
  obtain ⟨hagrees, hhanded⟩ := agrees_run
    (fun b => survivors_number c) h.agrees
    (cross_run c.report.message.message.numbered c.survivors_sublist hno)
  have hpayloads := payloadsOn_append hpackets
  rw [← Crossing.survivors] at hpayloads hpackets
  rw [hhanded] at hpayloads
  have hout : ∀ x, (crossReport kept c).2 = some x → x = c := by
    intro x hx
    rw [crossReport, cross] at hx
    split_ifs at hx
    exact (Option.some.inj hx).symm
  have hstored : (((crossReport kept c).2.map Crossing.blocks).toList.map
      fun m => storeAll dlmsInit.buffer (m.map Block.data)) =
        (crossReport kept c).2.toList.map fun c => c.report.report.packet := by
    cases hx : (crossReport kept c).2 with
    | none => rfl
    | some x => exact congrArg (fun b => [b]) (stored_report x)
  rw [hstored] at hpayloads
  refine ⟨⟨?_, ?_, ?_⟩, ?_⟩
  · rw [after_append, hfeeds.state]
  · rw [hpackets, after_append]
    exact hagrees
  · rw [breaks_append hframes hpayloads h.safe]
    rintro (⟨frame, hmem, hends⟩ | ⟨payload, hmem, hover⟩)
    · obtain ⟨p, _, harrives⟩ := List.mem_filterMap.mp hmem
      exact not_ends_arrives harrives hends
    · obtain ⟨x, _, rfl⟩ := List.mem_map.mp hmem
      rw [← scan_overrun_iff, scan_report] at hover
      cases hover
  · rw [callsOn_append hpayloads, List.flatMap_map]
    simp only [pduCall_updates, scan_report]
    rfl

/-! ## Lines -/

theorem throughNoise_snoc (crossings : List Crossing) (c : Crossing) :
    throughNoise (crossings ++ [c]) = throughNoise crossings ++
      (crossReport (after crossReport [] crossings) c).2.toList.map
        Crossing.report := by
  rw [throughNoise, outputs_append, List.reduceOption_append,
    List.map_append, throughNoise, outputs_cons]
  cases (crossReport (after crossReport [] crossings) c).2 with
  | none => rfl
  | some x => rfl

theorem GoesOn.append {crossings : List Crossing} (h : GoesOn crossings)
    (more : List Crossing) : GoesOn (crossings ++ more) := by
  obtain ⟨front, c, back, rfl, hresumes⟩ := h
  exact ⟨front, c, back ++ more, by simp, hresumes⟩

/-- Reports on such a line, from when the device was ready. -/
theorem Ready.crossings (h : Ready expectedLen input)
    (crossings : List Crossing) (hno : ¬ GoesOn crossings) :
    Holding expectedLen (input ++ crossings.flatMap Crossing.wire)
        (after crossReport [] crossings) ∧
      callsOn expectedLen (input ++ crossings.flatMap Crossing.wire) =
        callsOn expectedLen input ++
          (throughNoise crossings).flatMap SentReport.calls := by
  induction crossings using List.reverseRecOn with
  | nil =>
      rw [List.flatMap_nil, List.append_nil]
      exact ⟨h.holding, (List.append_nil _).symm⟩
  | append_singleton crossings c ih =>
      obtain ⟨hholding, hcalls⟩ := ih fun hfront =>
        hno (GoesOn.append hfront [c])
      have hresumes : ¬ Resumes (fun b : Block => b.number.toNat)
          (after crossReport [] crossings) c.survivors :=
        fun hres => hno ⟨crossings, c, [], rfl, hres⟩
      obtain ⟨hholding', hcalls'⟩ := hholding.crossing c hresumes
      rw [List.append_assoc] at hholding' hcalls'
      rw [List.flatMap_append, List.flatMap_singleton, after_snoc, hcalls',
        hcalls, throughNoise_snoc, List.flatMap_append, List.flatMap_map,
        List.append_assoc]
      exact ⟨hholding', rfl⟩

/-- On a line that loses frames and damages some, the device goes on, and the
meter is told the reports that arrive whole with nothing kept of one before:
each as it was sent, once and in order, and nothing else. -/
theorem noisy_reports (crossings : List Crossing) (hno : ¬ GoesOn crossings)
    (expectedLen : Int32) {junk : List UInt8} (hjunk : FLAG_BYTE ∉ junk)
    (lead : Nat) :
    (throughNoise crossings).Sublist (crossings.map Crossing.report) ∧
      ∀ (zb : EspZigbee) (meter : zb.Meter),
        ∃ bridge, zb.bridgeTask (junk ++ flags (lead + 1) ++
            crossings.flatMap Crossing.wire)
            (zb.bridgeInit expectedLen meter) = .ok ⟨⟩ bridge ∧
          bridge.meter = ((throughNoise crossings).flatMap
            SentReport.calls).foldl zb.zigbeeMeterUpdate meter := by
  refine ⟨(cross_sublist _ _ crossings []).map _, fun zb meter => ?_⟩
  obtain ⟨hready, hnone⟩ := @ready_started expectedLen junk hjunk lead
  obtain ⟨hholding, hcalls⟩ := hready.crossings crossings hno
  rw [hnone, List.nil_append] at hcalls
  rcases bridgeTask_cases zb expectedLen meter
      (junk ++ flags (lead + 1) ++ crossings.flatMap Crossing.wire) with
    ⟨hbreaks, _⟩ | ⟨_, ho⟩
  · exact absurd hbreaks hholding.safe
  · refine ⟨_, ho, ?_⟩
    rw [bridgeAfter, hcalls]

/-- The frame of the current, with a bit of its information flipped and one of
its checksum. -/
def currentFlipped : Buffer where
  bytes := (currentFrame.packet.modify 20 (· ^^^ 0x01)).modify 58 (· ^^^ 0x80)
  len_le := by
    rw [List.length_modify, List.length_modify]
    exact currentFrame.packet_le

theorem currentFlipped_damaged : Damaged currentFrame currentFlipped where
  length := (List.length_modify ..).trans (List.length_modify ..)
  lengthField := by decide +kernel
  differs := fun h => absurd (congrArg Buffer.bytes h) (by decide +kernel)
  flips := Or.inl (by decide +kernel)
  gentle := by
    intro hends
    have hfault : (packetCall currentFlipped ⟨[], Nat.zero_le _⟩).faulted =
        false := by decide +kernel
    rcases packetCall_cases currentFlipped ⟨[], Nat.zero_le _⟩ with
      ⟨_, call, ho⟩ | ⟨_, _, hp, _⟩ | ⟨hnot, _⟩
    · rw [ho] at hfault
      cases hfault
    · exact isPacket_not_endsAtHeaderChecksum hp hends
    · exact hnot hends

/-- The current sent twice, and damaged the first time. -/
def secondTry : List Crossing :=
  [{ report := currentSent
     passages := [.damaged currentFrame currentFlipped currentFlipped_damaged]
     passages_sent := rfl },
   { report := currentSent
     passages := [.intact currentFrame]
     passages_sent := rfl }]

theorem secondTry_not_goesOn : ¬ GoesOn secondTry := by
  intro h
  obtain ⟨front, c, back, heq, hkept, _⟩ := h
  rcases front with _ | ⟨a, _ | ⟨b, front⟩⟩
  · exact hkept rfl
  · injection heq with ha _
    subst ha
    exact hkept rfl
  · have hlen := congrArg List.length heq
    simp only [secondTry, List.length_cons, List.length_append,
      List.length_nil] at hlen
    omega

theorem noisy_reports_secondTry :
    (throughNoise secondTry).Sublist (secondTry.map Crossing.report) ∧
      ∀ (zb : EspZigbee) (meter : zb.Meter),
        ∃ bridge, zb.bridgeTask ([] ++ flags (0 + 1) ++
            secondTry.flatMap Crossing.wire)
            (zb.bridgeInit 0 meter) = .ok ⟨⟩ bridge ∧
          bridge.meter = ((throughNoise secondTry).flatMap
            SentReport.calls).foldl zb.zigbeeMeterUpdate meter :=
  noisy_reports secondTry secondTry_not_goesOn 0 List.not_mem_nil 0

example : (throughNoise secondTry).flatMap SentReport.calls =
    [.rmsCurrent 0 7] := by
  decide +kernel

end MBusMeter.Proofs
