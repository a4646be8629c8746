import MBusMeter.Proofs.HdlcSound

/-!
# What the packet checksum finds

Whichever way the fields of a packet fall, what is accepted is some bytes and
their checksum, and leaves the residue in the register. Two accepted packets
of one length leave the same; so the bits in which they differ leave nothing,
and neither an odd number of bits nor a short burst can do that.

A damaged packet is therefore never accepted. Turned away it is only if the
decoder gets as far as the checksum: a damaged address can move the end of the
header to one byte before the end of the packet, and there is the copy of a
negative number of bytes again.
-/

namespace MBusMeter.Proofs

open Lib Firmware Firmware.Hdlc Spec

theorem accepted_isPacket {packet information : Buffer}
    (h : (packetCall packet information).succeeded = true) :
    ∃ (header : Header) (i : List UInt8), IsPacket packet.bytes header i := by
  rcases packetCall_cases packet information with
    ⟨_, call, ho⟩ | ⟨header, call, hp, _⟩ | ⟨_, _, call, ho⟩
  · rw [ho] at h
    cases h
  · exact ⟨header, _, hp⟩
  · rw [ho] at h
    cases h

theorem absorb_packet {bytes i : List UInt8} {header : Header}
    (h : IsPacket bytes header i) :
    absorb crc16Feedback 0xFFFF (lineBits bytes) = crc16Residue := by
  have hresidue := register_checksum (checkedHeader header ++ i)
  rw [List.append_assoc, ← packetWire, ← h.bytes_eq] at hresidue
  have hregister := register_absorb bytes 0xFFFF
  rw [hresidue] at hregister
  exact hregister.symm

/-- The bits in which two packets differ leave nothing in the register. -/
theorem absorb_flips {sent received i i' : List UInt8} {header header' : Header}
    (hsent : IsPacket sent header i) (hreceived : IsPacket received header' i')
    (hlen : sent.length = received.length) :
    absorb crc16Feedback 0 (flips sent received) = 0 := by
  have hbits : (lineBits sent).length = (lineBits received).length := by
    rw [lineBits_length, lineBits_length, hlen]
  have hxor := @absorb_xor 16 crc16Feedback _ _ hbits 0xFFFF 0xFFFF
  rw [absorb_packet hsent, absorb_packet hreceived, BitVec.xor_self,
    BitVec.xor_self] at hxor
  exact hxor

/-- The generator has an even number of terms. -/
theorem parity_crc16Feedback : parity crc16Feedback = 1 := by decide +kernel

/-- A packet damaged in an odd number of bits or in a short burst is no
packet. -/
theorem not_isPacket_of_flips {sent received i i' : List UInt8}
    {header header' : Header} (hsent : IsPacket sent header i)
    (hlen : sent.length = received.length) (hne : sent ≠ received)
    (hflips : OddFlips sent received ∨ BurstFlips sent received) :
    ¬ IsPacket received header' i' := by
  intro hreceived
  have hnothing := absorb_flips hsent hreceived hlen
  rcases hflips with hodd | ⟨start, hburst⟩
  · have heven := even_of_absorb (by decide) parity_crc16Feedback hnothing
    rw [OddFlips, heven] at hodd
    exact absurd hodd (by decide)
  · exact hne (eq_of_no_flips hlen
      (clear_of_absorb (by decide) (by decide) hburst hnothing))

/-- A packet damaged so is turned away, except if it now ends at its header
checksum. -/
theorem damaged_rejected_iff (sent received information information' : Buffer)
    (haccepted : (packetCall sent information).succeeded = true)
    (hlen : received.len = sent.len) (hne : received ≠ sent)
    (hflips : OddFlips sent.bytes received.bytes ∨
      BurstFlips sent.bytes received.bytes) :
    (∃ call, packetCall received information' = .fail call) ↔
      ¬ EndsAtHeaderChecksum received.bytes := by
  obtain ⟨header, i, hsent⟩ := accepted_isPacket haccepted
  have hno : ∀ header' i', ¬ IsPacket received.bytes header' i' :=
    fun _ _ => not_isPacket_of_flips hsent hlen.symm
      (fun heq => hne (Buffer.ext heq.symm)) hflips
  rcases packetCall_cases received information' with
    ⟨hends, call, ho⟩ | ⟨header', call, hp, _⟩ | ⟨hnot, _, call, ho⟩
  · refine ⟨fun hfail => ?_, fun hnot => absurd hends hnot⟩
    obtain ⟨call', ho'⟩ := hfail
    rw [ho] at ho'
    cases ho'
  · exact absurd hp (hno header' _)
  · exact ⟨fun _ => hnot, fun _ => ⟨call, ho⟩⟩

def oneByteSent : Buffer :=
  ⟨[0xA0, 0x0A, 0x03, 0x13, 0x03, 0x1B, 0x9B, 0x62, 0xD8, 0x86], by decide⟩

/-- The same with its last bit flipped. -/
def lastBitFlipped : Buffer :=
  ⟨[0xA0, 0x0A, 0x03, 0x13, 0x03, 0x1B, 0x9B, 0x62, 0xD8, 0x06], by decide⟩

theorem lastBit_rejected_iff :
    (∃ call, packetCall lastBitFlipped bareFrame = .fail call) ↔
      ¬ EndsAtHeaderChecksum lastBitFlipped.bytes :=
  damaged_rejected_iff oneByteSent lastBitFlipped bareFrame bareFrame
    (by decide +kernel) rfl (by decide) (Or.inl (by decide +kernel))

/-- The same with five bits flipped in the source address and the control
byte. The address now goes on to where the header checksum began. -/
def addressDamaged : Buffer :=
  ⟨[0xA0, 0x0A, 0x03, 0x1E, 0x42, 0x1B, 0x9B, 0x62, 0xD8, 0x86], by decide⟩

/-- It is not turned away. -/
theorem addressDamaged_not_rejected :
    ¬ ∀ sent received information information' : Buffer,
      (packetCall sent information).succeeded = true →
      received.len = sent.len → received ≠ sent →
      OddFlips sent.bytes received.bytes ∨
        BurstFlips sent.bytes received.bytes →
      ∃ call, packetCall received information' = .fail call := by
  intro h
  obtain ⟨call, ho⟩ := h oneByteSent addressDamaged bareFrame bareFrame
    (by decide +kernel) rfl (by decide) (Or.inl (by decide +kernel))
  have hfault : (packetCall addressDamaged bareFrame).faulted = true := by
    decide +kernel
  rw [ho] at hfault
  cases hfault

end MBusMeter.Proofs
