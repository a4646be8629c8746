import MBusMeter.Proofs.LossyLine
import MBusMeter.Proofs.Reports

/-!
# Frames in any order

The frames of the meter's messages need not arrive as they were sent: some may
be missing, some come twice or out of their order, and frames of different
messages may be mixed. The reassembly goes by the numbers alone. So what it
hands over is read off the blocks on the line by the grammar of `Lib.Blocks`,
whatever their order. What is handed over need not have been sent as one
message, and it can be a payload the device does not get over.
-/

namespace MBusMeter.Proofs

open Lib Firmware Firmware.HdlcFrame Firmware.Pdu Spec

/-- What the reassembly makes of some blocks: their data, but that of a block
for which there is no room. -/
def stored (bs : List Block) : Buffer :=
  storeAll dlmsInit.buffer (bs.map Block.data)

abbrev messageGrammar : Grammar Unit Block (List Block) :=
  blockGrammar (fun b => b.number.toNat) Block.last

theorem handed_parsed {bs : List Block} (hnum : ∀ b ∈ bs,
      1 ≤ b.number.toNat ∧ b.number.toNat ≤ 255) {messages : List (List Block)}
    (hparses : messageGrammar.Parses () bs messages) :
    (outputs dlmsCall dlmsInit (bs.map Block.packet)).flatMap
      DlmsResult.handed = messages.map stored :=
  (agrees_run hnum Agrees.init ⟨rfl, (reassemble_recognises
    (fun b : Block => b.number.toNat) Block.last).emitted hparses rfl⟩).2

/-- When the decoder finds these frames, and these messages are what becomes of
them, only a value behind a full table is too much for the device. -/
theorem bridge_sent {frames : List SentFrame} {messages : List (List Block)}
    {expectedLen : Int32} {line : List UInt8}
    (hframes : framesOn expectedLen line = frames.map SentFrame.buffer)
    (hpayloads : payloadsOn expectedLen line = messages.map stored)
    (zb : EspZigbee) (meter : zb.Meter) :
    ((∃ m ∈ messages, Overruns (stored m).bytes) ∧
      (zb.bridgeTask line (zb.bridgeInit expectedLen meter)).faulted = true) ∨
    ((∀ m ∈ messages, ¬ Overruns (stored m).bytes) ∧
      ∃ bridge, zb.bridgeTask line (zb.bridgeInit expectedLen meter) =
          .ok ⟨⟩ bridge ∧
        bridge.meter = (messages.flatMap fun m =>
          (pduCall (stored m)).state.updates).foldl zb.zigbeeMeterUpdate
            meter) := by
  rcases bridgeTask_cases zb expectedLen meter line with
    ⟨⟨frame, hmem, hends⟩ | ⟨payload, hmem, hover⟩, hfault⟩ | ⟨hnot, ho⟩
  · rw [hframes] at hmem
    obtain ⟨s, _, rfl⟩ := List.mem_map.mp hmem
    exact absurd hends (not_ends_sent s)
  · rw [hpayloads] at hmem
    obtain ⟨m, hm, rfl⟩ := List.mem_map.mp hmem
    exact Or.inl ⟨⟨m, hm, hover⟩, hfault⟩
  · refine Or.inr ⟨fun m hm hover => hnot (Or.inr ⟨stored m, ?_, hover⟩),
      _, ho, ?_⟩
    · rw [hpayloads]
      exact List.mem_map_of_mem hm
    · rw [bridgeAfter, callsOn, hpayloads, List.flatMap_map]

/-- What the decoder finds of frames behind anything that is not a flag. -/
theorem feeds_line (frames : List SentFrame) (expectedLen : Int32)
    {junk : List UInt8} (hjunk : FLAG_BYTE ∉ junk) (lead : Nat) :
    ∃ f, Feeds (hdlcFrameInit expectedLen)
      (junk ++ flags (lead + 1) ++ frames.flatMap SentFrame.wire)
      (frames.map SentFrame.buffer) f := by
  have hinit : Searching (hdlcFrameInit expectedLen) := ⟨rfl, rfl⟩
  exact ⟨_, ((feeds_noise hinit hjunk).append
    (feeds_searching hinit lead)).append (feeds_sent frames)⟩

end MBusMeter.Proofs
