import MBusMeter.Firmware.Bridge
import MBusMeter.Proofs.Delivery
import MBusMeter.Proofs.PduTable

/-!
# A run of the bridge as a function of the line

Each layer hands on what it makes of the layer below and gets nothing back.
So as long as nothing goes wrong a run of the whole is the layers one after
the other, each over the whole line: the frames in the bytes, the packets in
the frames, the payloads of the packets, and the calls made for the payloads.

Two things go wrong, and both are found by looking at one of these lists: a
frame that stops at its header checksum or one byte behind it, and a payload
with a value behind a full table. Whatever else comes in, from whoever drives
the line, the device goes on.
-/

namespace MBusMeter.Proofs

open Lib Firmware Firmware.Hdlc Firmware.HdlcFrame Firmware.Pdu Spec

/-! ## The layers -/

/-- The frames in the bytes that have come in. -/
def framesOn (expectedLen : Int32) (input : List UInt8) : List Buffer :=
  (outputs hdlcHandleByte (hdlcFrameInit expectedLen) input).reduceOption

/-- The information of a frame that the packet decoder accepts. -/
def informationOf (frame : Buffer) : Option Buffer :=
  match packetCall frame ⟨[], Nat.zero_le _⟩ with
  | .ok _ call => some call.information
  | _ => none

/-- The packets for the reassembly. -/
def packetsOn (expectedLen : Int32) (input : List UInt8) : List Buffer :=
  (framesOn expectedLen input).filterMap informationOf

/-- The payloads that are handed over. -/
def payloadsOn (expectedLen : Int32) (input : List UInt8) : List Buffer :=
  (outputs dlmsCall dlmsInit (packetsOn expectedLen input)).flatMap
    DlmsResult.handed

/-- What the meter is told. -/
def callsOn (expectedLen : Int32) (input : List UInt8) : List MeterUpdate :=
  (payloadsOn expectedLen input).flatMap fun payload =>
    (pduCall payload).state.updates

/-- The state of the device behind the bytes, when nothing goes wrong. -/
def bridgeAfter (zb : EspZigbee) (expectedLen : Int32) (meter : zb.Meter)
    (input : List UInt8) : Bridge zb where
  frameState := after hdlcHandleByte (hdlcFrameInit expectedLen) input
  dlmsState := after dlmsCall dlmsInit (packetsOn expectedLen input)
  meter := (callsOn expectedLen input).foldl zb.zigbeeMeterUpdate meter

/-- There is a frame or a payload the device does not get over. -/
def Breaks (expectedLen : Int32) (input : List UInt8) : Prop :=
  (∃ frame ∈ framesOn expectedLen input, EndsAtHeaderChecksum frame.bytes) ∨
    ∃ payload ∈ payloadsOn expectedLen input, Overruns payload.bytes

/-! ## One byte more -/

theorem framesOn_snoc (expectedLen : Int32) (input : List UInt8)
    (byte : UInt8) :
    framesOn expectedLen (input ++ [byte]) =
      framesOn expectedLen input ++
        (hdlcHandleByte (after hdlcHandleByte (hdlcFrameInit expectedLen)
          input) byte).2.toList := by
  rw [framesOn, outputs_append, List.reduceOption_append, framesOn]
  cases hstep : (hdlcHandleByte (after hdlcHandleByte
    (hdlcFrameInit expectedLen) input) byte).2 with
  | none => rw [outputs_cons, hstep]; rfl
  | some frame => rw [outputs_cons, hstep]; rfl

variable {expectedLen : Int32} {input bytes : List UInt8}
  {byte : UInt8}

theorem packetsOn_append {frames : List Buffer}
    (h : framesOn expectedLen (input ++ bytes) =
      framesOn expectedLen input ++ frames) :
    packetsOn expectedLen (input ++ bytes) =
      packetsOn expectedLen input ++ frames.filterMap informationOf := by
  rw [packetsOn, h, List.filterMap_append]
  rfl

theorem payloadsOn_append {packets : List Buffer}
    (h : packetsOn expectedLen (input ++ bytes) =
      packetsOn expectedLen input ++ packets) :
    payloadsOn expectedLen (input ++ bytes) =
      payloadsOn expectedLen input ++
        (outputs dlmsCall (after dlmsCall dlmsInit
          (packetsOn expectedLen input)) packets).flatMap
            DlmsResult.handed := by
  rw [payloadsOn, h, outputs_append, List.flatMap_append]
  rfl

theorem callsOn_append {payloads : List Buffer}
    (h : payloadsOn expectedLen (input ++ bytes) =
      payloadsOn expectedLen input ++ payloads) :
    callsOn expectedLen (input ++ bytes) =
      callsOn expectedLen input ++ payloads.flatMap fun payload =>
        (pduCall payload).state.updates := by
  rw [callsOn, h, List.flatMap_append]
  rfl

/-! ## The handlers -/

variable {zb : EspZigbee}

theorem dlmsFrameReceived_cases (payload : Buffer) (meter : zb.Meter) :
    (Overruns payload.bytes ∧
      (zb.dlmsFrameReceived payload meter).faulted = true) ∨
    (¬ Overruns payload.bytes ∧
      zb.dlmsFrameReceived payload meter = .ok ⟨⟩
        ((pduCall payload).state.updates.foldl zb.zigbeeMeterUpdate
          meter)) := by
  have hiff : (pduCall payload).faulted = true ↔ Overruns payload.bytes :=
    (pduCall_faulted payload).trans (scan_overrun_iff payload.bytes)
  rw [← hiff, EspZigbee.dlmsFrameReceived]
  cases ho : pduCall payload with
  | ok value call => exact Or.inr ⟨nofun, rfl⟩
  | fail call => exact Or.inr ⟨nofun, rfl⟩
  | fault cause call => exact Or.inl ⟨rfl, rfl⟩

theorem payloads_cases (payloads : List Buffer) :
    ∀ meter : zb.Meter,
      ((∃ payload ∈ payloads, Overruns payload.bytes) ∧
        (Proc.each zb.dlmsFrameReceived payloads meter).faulted = true) ∨
      ((∀ payload ∈ payloads, ¬ Overruns payload.bytes) ∧
        Proc.each zb.dlmsFrameReceived payloads meter = .ok ⟨⟩
          ((payloads.flatMap fun payload =>
            (pduCall payload).state.updates).foldl zb.zigbeeMeterUpdate
              meter)) := by
  induction payloads with
  | nil => exact fun meter => Or.inr ⟨nofun, rfl⟩
  | cons payload payloads ih =>
      intro meter
      rw [Proc.each_cons]
      rcases dlmsFrameReceived_cases payload meter with
        ⟨hover, hfault⟩ | ⟨hnot, ho⟩
      · refine Or.inl ⟨⟨payload, List.mem_cons_self, hover⟩, ?_⟩
        cases hrun : zb.dlmsFrameReceived payload meter with
        | fault cause meter' => rfl
        | _ => rw [hrun] at hfault; cases hfault
      · rw [ho, Outcome.ok_andThen, List.flatMap_cons, List.foldl_append]
        rcases ih ((pduCall payload).state.updates.foldl
          zb.zigbeeMeterUpdate meter) with ⟨⟨p, hp, hover⟩, hfault⟩ |
            ⟨hnone, ho'⟩
        · exact Or.inl ⟨⟨p, List.mem_cons_of_mem _ hp, hover⟩, hfault⟩
        · exact Or.inr ⟨List.forall_mem_cons.mpr ⟨hnot, hnone⟩, ho'⟩

theorem bridgeHandleByte_none {bridge : Bridge zb} {g : FrameState}
    (h : hdlcHandleByte bridge.frameState byte = (g, none)) :
    zb.bridgeHandleByte byte bridge =
      .ok ⟨⟩ { bridge with frameState := g } := by
  rw [EspZigbee.bridgeHandleByte]
  simp only [h]

theorem bridgeHandleByte_some {bridge : Bridge zb} {g : FrameState}
    {frame : Buffer}
    (h : hdlcHandleByte bridge.frameState byte = (g, some frame)) :
    zb.bridgeHandleByte byte bridge =
      zb.bridgeFrameReceived frame { bridge with frameState := g } := by
  rw [EspZigbee.bridgeHandleByte]
  simp only [h]

/-- A frame is the end of the run, or means nothing, or is a packet for the
reassembly. -/
theorem bridgeFrameReceived_cases (frame : Buffer) (bridge : Bridge zb) :
    (EndsAtHeaderChecksum frame.bytes ∧
      (zb.bridgeFrameReceived frame bridge).faulted = true) ∨
    (¬ EndsAtHeaderChecksum frame.bytes ∧ informationOf frame = none ∧
      zb.bridgeFrameReceived frame bridge = .ok ⟨⟩ bridge) ∨
    ∃ packet, ¬ EndsAtHeaderChecksum frame.bytes ∧
      informationOf frame = some packet ∧
      zb.bridgeFrameReceived frame bridge =
        (Proc.each zb.dlmsFrameReceived
          (dlmsCall bridge.dlmsState packet).2.handed
          bridge.meter).mapState fun meter =>
            { bridge with
              dlmsState := (dlmsCall bridge.dlmsState packet).1, meter } := by
  rw [EspZigbee.bridgeFrameReceived, hdlcFrameReceived, informationOf]
  rcases packetCall_cases frame ⟨[], Nat.zero_le _⟩ with
    ⟨hends, call, ho⟩ | ⟨h, call, hp, ho⟩ | ⟨hnot, _, call, ho⟩
  · refine Or.inl ⟨hends, ?_⟩
    simp only [ho, Outcome.faulted_fault]
  · refine Or.inr (Or.inr ⟨call.information,
      isPacket_not_endsAtHeaderChecksum hp, ?_⟩)
    simp only [ho, Outcome.ignored_of_not_faulted
      (dlmsDecode_not_faulted bridge.dlmsState call.information)]
    exact ⟨trivial, rfl⟩
  · refine Or.inr (Or.inl ⟨hnot, ?_⟩)
    simp only [ho]
    exact ⟨trivial, rfl⟩

/-! ## Runs -/

/-- What some bytes add to what breaks the device. -/
theorem breaks_append {frames payloads : List Buffer}
    (hframes : framesOn expectedLen (input ++ bytes) =
      framesOn expectedLen input ++ frames)
    (hpayloads : payloadsOn expectedLen (input ++ bytes) =
      payloadsOn expectedLen input ++ payloads)
    (hnot : ¬ Breaks expectedLen input) :
    Breaks expectedLen (input ++ bytes) ↔
      (∃ frame ∈ frames, EndsAtHeaderChecksum frame.bytes) ∨
        ∃ payload ∈ payloads, Overruns payload.bytes := by
  obtain ⟨hframe, hpayload⟩ := not_or.mp hnot
  rw [Breaks, hframes, hpayloads]
  simp only [List.mem_append, or_and_right, exists_or, hframe, hpayload,
    false_or]

theorem Breaks.append (h : Breaks expectedLen input) :
    Breaks expectedLen (input ++ [byte]) := by
  have hframes := framesOn_snoc expectedLen input byte
  have hpayloads := payloadsOn_append (packetsOn_append hframes)
  rcases h with ⟨frame, hmem, hends⟩ | ⟨payload, hmem, hover⟩
  · refine Or.inl ⟨frame, ?_, hends⟩
    rw [hframes]
    exact List.mem_append_left _ hmem
  · refine Or.inr ⟨payload, ?_, hover⟩
    rw [hpayloads]
    exact List.mem_append_left _ hmem

/-- The state behind one byte more, from what the byte completes. -/
theorem bridgeAfter_snoc {zb : EspZigbee} (meter : zb.Meter)
    {frameState : FrameState} {packets payloads : List Buffer}
    (hstate : (hdlcHandleByte (after hdlcHandleByte
      (hdlcFrameInit expectedLen) input) byte).1 = frameState)
    (hpackets : packetsOn expectedLen (input ++ [byte]) =
      packetsOn expectedLen input ++ packets)
    (hpayloads : payloadsOn expectedLen (input ++ [byte]) =
      payloadsOn expectedLen input ++ payloads) :
    bridgeAfter zb expectedLen meter (input ++ [byte]) =
      { frameState
        dlmsState := after dlmsCall (after dlmsCall dlmsInit
          (packetsOn expectedLen input)) packets
        meter := (payloads.flatMap fun payload =>
            (pduCall payload).state.updates).foldl zb.zigbeeMeterUpdate
          (bridgeAfter zb expectedLen meter input).meter } := by
  rw [bridgeAfter, after_snoc, hstate, hpackets, after_append,
    callsOn_append hpayloads, List.foldl_append]
  rfl

/-- A byte that ends a frame: the device does not get over the frame, or goes
on. -/
theorem bridge_step_frame (meter : zb.Meter)
    (hnot : ¬ Breaks expectedLen input) {g : FrameState} {frame : Buffer}
    (hstep : hdlcHandleByte (after hdlcHandleByte (hdlcFrameInit expectedLen)
      input) byte = (g, some frame)) :
    (Breaks expectedLen (input ++ [byte]) ∧
      (zb.bridgeHandleByte byte
        (bridgeAfter zb expectedLen meter input)).faulted = true) ∨
    (¬ Breaks expectedLen (input ++ [byte]) ∧
      zb.bridgeHandleByte byte (bridgeAfter zb expectedLen meter input) =
        .ok ⟨⟩ (bridgeAfter zb expectedLen meter (input ++ [byte]))) := by
  have hframes := framesOn_snoc expectedLen input byte
  rw [hstep] at hframes
  rw [bridgeHandleByte_some hstep]
  rcases bridgeFrameReceived_cases frame
      { bridgeAfter zb expectedLen meter input with frameState := g } with
    ⟨hends, hfault⟩ | ⟨hends, hnone, ho⟩ | ⟨packet, hends, hsome, ho⟩
  · refine Or.inl ⟨Or.inl ⟨frame, ?_, hends⟩, hfault⟩
    rw [hframes]
    exact List.mem_append_right _ (List.mem_singleton_self frame)
  · have hpackets : packetsOn expectedLen (input ++ [byte]) =
        packetsOn expectedLen input ++ [] := by
      rw [packetsOn_append hframes]
      simp [hnone]
    have hpayloads : payloadsOn expectedLen (input ++ [byte]) =
        payloadsOn expectedLen input ++ [] := payloadsOn_append hpackets
    refine Or.inr ⟨?_, ?_⟩
    · rw [breaks_append hframes hpayloads hnot]
      simp [hends]
    · rw [ho, bridgeAfter_snoc meter (congrArg Prod.fst hstep) hpackets
        hpayloads]
      rfl
  · have hpackets : packetsOn expectedLen (input ++ [byte]) =
        packetsOn expectedLen input ++ [packet] := by
      rw [packetsOn_append hframes]
      simp [hsome]
    have hpayloads : payloadsOn expectedLen (input ++ [byte]) =
        payloadsOn expectedLen input ++ (dlmsCall (after dlmsCall dlmsInit
          (packetsOn expectedLen input)) packet).2.handed :=
      (payloadsOn_append hpackets).trans (congrArg _ (List.append_nil _))
    rw [ho]
    rcases @payloads_cases zb (dlmsCall (after dlmsCall dlmsInit
      (packetsOn expectedLen input)) packet).2.handed
        (bridgeAfter zb expectedLen meter input).meter with
      ⟨hover, hfault⟩ | ⟨hnone, ho'⟩
    · refine Or.inl ⟨(breaks_append hframes hpayloads hnot).mpr (Or.inr hover),
        ?_⟩
      rw [Outcome.faulted_mapState]
      exact hfault
    · refine Or.inr ⟨?_, ?_⟩
      · rw [breaks_append hframes hpayloads hnot]
        rintro (⟨other, hmem, hends'⟩ | ⟨payload, hmem, hover⟩)
        · rw [List.mem_singleton.mp hmem] at hends'
          exact hends hends'
        · exact hnone payload hmem hover
      · rw [bridgeAfter_snoc meter (congrArg Prod.fst hstep) hpackets
          hpayloads]
        exact congrArg (Outcome.mapState _) ho'

/-- One byte more: the device does not get over it, or goes on. -/
theorem bridge_step (meter : zb.Meter) (hnot : ¬ Breaks expectedLen input) :
    (Breaks expectedLen (input ++ [byte]) ∧
      (zb.bridgeHandleByte byte
        (bridgeAfter zb expectedLen meter input)).faulted = true) ∨
    (¬ Breaks expectedLen (input ++ [byte]) ∧
      zb.bridgeHandleByte byte (bridgeAfter zb expectedLen meter input) =
        .ok ⟨⟩ (bridgeAfter zb expectedLen meter (input ++ [byte]))) := by
  rcases hstep : hdlcHandleByte (after hdlcHandleByte
    (hdlcFrameInit expectedLen) input) byte with ⟨g, _ | frame⟩
  · have hframes := framesOn_snoc expectedLen input byte
    rw [hstep] at hframes
    have hpackets : packetsOn expectedLen (input ++ [byte]) =
        packetsOn expectedLen input ++ [] := packetsOn_append hframes
    have hpayloads : payloadsOn expectedLen (input ++ [byte]) =
        payloadsOn expectedLen input ++ [] := payloadsOn_append hpackets
    refine Or.inr ⟨?_, ?_⟩
    · rw [breaks_append hframes hpayloads hnot]
      simp
    · rw [bridgeHandleByte_none hstep,
        bridgeAfter_snoc meter (congrArg Prod.fst hstep) hpackets hpayloads]
      rfl
  · exact bridge_step_frame meter hnot hstep

/-- A run ends in undefined behaviour, or where the layers end. -/
theorem bridgeTask_cases (zb : EspZigbee) (expectedLen : Int32)
    (meter : zb.Meter) (input : List UInt8) :
    (Breaks expectedLen input ∧
      (zb.bridgeTask input (zb.bridgeInit expectedLen meter)).faulted =
        true) ∨
    (¬ Breaks expectedLen input ∧
      zb.bridgeTask input (zb.bridgeInit expectedLen meter) =
        .ok ⟨⟩ (bridgeAfter zb expectedLen meter input)) := by
  induction input using List.reverseRecOn with
  | nil =>
      refine Or.inr ⟨?_, rfl⟩
      rintro (⟨frame, hmem, _⟩ | ⟨payload, hmem, _⟩) <;> cases hmem
  | append_singleton input byte ih =>
      rw [EspZigbee.bridgeTask, Proc.each_snoc, ← EspZigbee.bridgeTask]
      rcases ih with ⟨hbreaks, hfault⟩ | ⟨hnot, ho⟩
      · exact Or.inl ⟨hbreaks.append, Outcome.faulted_andThen hfault⟩
      · rw [ho, Outcome.ok_andThen]
        exact bridge_step meter hnot

end MBusMeter.Proofs
