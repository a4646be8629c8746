import MBusMeter.Proofs.Reports

/-!
# At every byte

What the meter has been told can be said at every byte of the line, not only
at the end of it. A frame is handed on at the flag that ends it and not
before, and a message at its last block and not before. So of the report that
is under way nothing has been told, and every report in front of it has been
told in whole.
-/

namespace MBusMeter.Proofs

open Lib Firmware Firmware.Hdlc Firmware.HdlcFrame Firmware.Pdu Spec

/-! ## Frames -/

/-- Up to its last flag a frame is collected. -/
theorem feeds_unclosed (s : SentFrame) :
    Feeds boundary (flags s.lead ++ s.packet) [] (collecting s.buffer) := by
  obtain ⟨first, second, rest, hbytes, htype, hdeclared, _⟩ :=
    s.packet_isFrame
  have hfront : Feeds boundary s.buffer.bytes [] (collecting s.buffer) :=
    feeds_begin hbytes htype (by
      rw [hdeclared]
      exact Nat.le_max_right 2 s.buffer.len)
  exact (feeds_flags s.lead).append hfront

theorem sentFrame_late (s : SentFrame) :
    (outputs hdlcHandleByte boundary s.wire.dropLast).reduceOption = [] := by
  have hfront : s.wire.dropLast = flags s.lead ++ s.packet :=
    List.dropLast_concat
  rw [hfront]
  exact (feeds_unclosed s).emitted

/-- The frames that are complete have been handed on. -/
theorem feeds_take (frames : List SentFrame) (n : Nat) :
    Feeds boundary ((frames.flatMap SentFrame.wire).take n)
      ((complete SentFrame.wire n frames).map SentFrame.buffer)
      (after hdlcHandleByte boundary
        ((frames.flatMap SentFrame.wire).take n)) := by
  have hone : ∀ s : SentFrame, Feeds boundary s.wire [s.buffer] boundary :=
    fun s => @feeds_frame s.buffer s.packet_isFrame s.lead
  exact ⟨rfl, Run.complete hone sentFrame_late frames n⟩

/-! ## Blocks -/

/-- Without a last block, nothing is handed over. -/
theorem handed_unfinished {blocks : List Block}
    (h : ∀ b ∈ blocks, b.last = false) :
    ∀ state, (outputs dlmsCall state (blocks.map Block.packet)).flatMap
      DlmsResult.handed = [] := by
  induction blocks with
  | nil => exact fun _ => rfl
  | cons b blocks ih =>
      intro state
      rw [List.forall_mem_cons] at h
      rw [List.map_cons, outputs_cons, List.flatMap_cons, ih h.2,
        List.append_nil]
      by_cases hnum : b.number.toNat = state.nextBlockNumber.toNat
      · rw [dlmsCall_more hnum h.1]
      · rw [dlmsCall_other hnum]

/-! ## Reports -/

variable {expectedLen : Int32} {input : List UInt8}

/-- Of a report that is under way, nothing is told. -/
theorem Ready.part (h : Ready expectedLen input) (s : SentReport) {n : Nat}
    (hn : n < s.wire.length) :
    ¬ Breaks expectedLen (input ++ s.wire.take n) ∧
      callsOn expectedLen (input ++ s.wire.take n) =
        callsOn expectedLen input := by
  obtain ⟨back, hback, hne⟩ := complete_front SentFrame.wire s.message.frames n
  have hfeeds := feeds_take s.message.frames n
  rw [← h.between] at hfeeds
  have hframes := framesOn_feeds hfeeds
  have hpackets := packetsOn_append hframes
  rw [information_frames] at hpackets
  have hblocks := s.message.frames_blocks
  rw [hback, List.map_append] at hblocks
  have hnone := handed_unfinished (s.message.message.numbered.front
    hblocks.symm (List.map_eq_nil_iff.not.mpr (hne hn))) dlmsInit
  have hpayloads := payloadsOn_append hpackets
  rw [h.empty, hnone] at hpayloads
  refine ⟨?_, ?_⟩
  · rw [SentReport.wire, SentMessage.wire,
      breaks_append hframes hpayloads h.safe]
    rintro (⟨frame, hmem, hends⟩ | ⟨payload, hmem, _⟩)
    · obtain ⟨f, _, rfl⟩ := List.mem_map.mp hmem
      exact not_ends_sent f hends
    · cases hmem
  · rw [SentReport.wire, SentMessage.wire, callsOn_append hpayloads,
      List.flatMap_nil, List.append_nil]

/-- Behind any number of bytes of reports, those that are complete have been
told. -/
theorem Ready.take (reports : List SentReport) :
    ∀ {input : List UInt8}, Ready expectedLen input → ∀ n,
      ¬ Breaks expectedLen
          (input ++ (reports.flatMap SentReport.wire).take n) ∧
        callsOn expectedLen
            (input ++ (reports.flatMap SentReport.wire).take n) =
          callsOn expectedLen input ++
            (complete SentReport.wire n reports).flatMap SentReport.calls := by
  induction reports with
  | nil =>
      intro input h n
      rw [List.flatMap_nil, List.take_nil, List.append_nil, complete,
        List.flatMap_nil, List.append_nil]
      exact ⟨h.safe, rfl⟩
  | cons s reports ih =>
      intro input h n
      rw [List.flatMap_cons, complete]
      split
      · next hle =>
          obtain ⟨hready, hcalls⟩ := h.report s
          obtain ⟨hsafe, htold⟩ := ih hready (n - s.wire.length)
          rw [List.take_append, List.take_of_length_le hle,
            ← List.append_assoc, List.flatMap_cons, ← List.append_assoc,
            ← hcalls]
          exact ⟨hsafe, htold⟩
      · next hlt =>
          rw [List.take_append_of_le_length (Nat.le_of_not_le hlt),
            List.flatMap_nil, List.append_nil]
          exact h.part s (Nat.not_le.mp hlt)

/-- Freshly started, behind anything that is not a flag, at every byte of the
reports on the line: the meter has been told those that are complete, each in
whole, in order and once, and nothing else. -/
theorem reports_prompt (expectedLen : Int32) {junk : List UInt8}
    (hjunk : FLAG_BYTE ∉ junk) (lead : Nat) (reports : List SentReport)
    (n : Nat) (zb : EspZigbee) (meter : zb.Meter) :
    ∃ bridge, zb.bridgeTask (junk ++ flags (lead + 1) ++
        (reports.flatMap SentReport.wire).take n)
        (zb.bridgeInit expectedLen meter) = .ok ⟨⟩ bridge ∧
      bridge.meter = ((complete SentReport.wire n reports).flatMap
        SentReport.calls).foldl zb.zigbeeMeterUpdate meter := by
  obtain ⟨hready, hnone⟩ := @ready_started expectedLen junk hjunk lead
  obtain ⟨hsafe, hcalls⟩ := hready.take reports n
  rw [hnone, List.nil_append] at hcalls
  rcases bridgeTask_cases zb expectedLen meter (junk ++ flags (lead + 1) ++
      (reports.flatMap SentReport.wire).take n) with ⟨hbreaks, _⟩ | ⟨_, ho⟩
  · exact absurd hbreaks hsafe
  · refine ⟨_, ho, ?_⟩
    rw [bridgeAfter, hcalls]

/-- Two reports of a current, and the line up to the last flag: the first has
been told. -/
theorem reports_prompt_current :
    ∃ bridge, scripted.bridgeTask ([0x13, 0x37] ++ flags (0 + 1) ++
        ([currentSent, currentSent].flatMap SentReport.wire).take 119)
        (scripted.bridgeInit 0 (scriptedMeter [])) = .ok ⟨⟩ bridge ∧
      bridge.meter = ((complete SentReport.wire 119
        [currentSent, currentSent]).flatMap SentReport.calls).foldl
          scripted.zigbeeMeterUpdate (scriptedMeter []) :=
  reports_prompt 0 (by decide) 0 [currentSent, currentSent] 119 scripted
    (scriptedMeter [])

example : (complete SentReport.wire 119 [currentSent, currentSent]).flatMap
    SentReport.calls = [.rmsCurrent 0 7] := by
  decide +kernel

end MBusMeter.Proofs
