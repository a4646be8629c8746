import MBusMeter.Proofs.Reports
import MBusMeter.Proofs.Resync

/-!
# Back in step while the meter goes on

The line does not have to fall silent for the device to find its way back. It
may be in the middle of a frame that was never sent, and a message may be half
taken; but that frame ends within as many bytes as the buffer holds, and the
flag behind is one of the meter's, as long as no frame has one inside. From
there on the device is between two frames, and the next message that begins
empties the reassembly, handed over or not. What is sent behind it is told.

Only the traffic on the way has to do without flags inside the frames. What
comes later may hold any bytes.
-/

namespace MBusMeter.Proofs

open Lib Firmware Firmware.HdlcFrame Firmware.Pdu Spec

/-- Frames without a flag inside are what the decoder can fall in with. -/
theorem exists_clean {frames : List SentFrame}
    (hclean : ∀ s ∈ frames, FLAG_BYTE ∉ s.packet) :
    ∃ ss : List CleanFrame,
      cleanWire ss 0 = FLAG_BYTE :: frames.flatMap SentFrame.wire := by
  induction frames with
  | nil => exact ⟨[], rfl⟩
  | cons s frames ih =>
      rw [List.forall_mem_cons] at hclean
      obtain ⟨ss, hss⟩ := ih hclean.2
      refine ⟨⟨⟨s.lead, s.buffer, s.packet_isFrame⟩, hclean.1⟩ :: ss, ?_⟩
      rw [cleanWire_cons, hss, List.flatMap_cons, SentFrame.wire,
        List.append_assoc, List.append_assoc]
      rfl

/-- Behind as many bytes of frames as the buffer holds, the decoder is between
two of them. -/
theorem settles_in_traffic {f : FrameState} (h : Tracked f)
    {frames : List SentFrame} (hclean : ∀ s ∈ frames, FLAG_BYTE ∉ s.packet)
    (hlong : BUFFER_SIZE ≤ (frames.flatMap SentFrame.wire).length) :
    ∃ taken, Feeds f (FLAG_BYTE :: frames.flatMap SentFrame.wire) taken
      boundary := by
  obtain ⟨ss, hss⟩ := exists_clean hclean
  obtain ⟨q, hq⟩ := cleanWire_eq_append ss 0
  have hlast : BUFFER_SIZE ≤ q.length := by
    have hlen := congrArg List.length (hss.symm.trans hq)
    rw [List.length_cons, List.length_append, List.length_singleton] at hlen
    omega
  have hfalls := fallsIn h (frames.flatMap SentFrame.wire)
  rw [← hss] at hfalls ⊢
  obtain ⟨other, _, ⟨p, d, hsplit, hfeeds, _⟩ | ⟨g, _, hnone⟩⟩ := hfalls
  · obtain ⟨_, caught, _, htail, _⟩ := leftOver 0 ss hsplit
    refine ⟨other ++ caught.map fun s => s.frame, ?_⟩
    rw [hsplit, ← List.singleton_append, ← List.append_assoc]
    exact hfeeds.append htail
  · exact absurd (hnone q [] hq) (Nat.not_lt.mpr hlast)

end MBusMeter.Proofs
