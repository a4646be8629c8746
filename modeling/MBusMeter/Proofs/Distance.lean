import MBusMeter.Proofs.Corruption

/-!
# How far apart accepted packets are

One bit is an odd number, and so are three; what is left is two. Between them
the register runs free, and the generator is one for which it takes 32767
clocks for a single bit to come back. A packet is in a buffer of 1024 bytes,
which is a quarter of that, so no two bits are far enough apart.
-/

namespace MBusMeter.Proofs

open Lib Firmware Firmware.Hdlc Spec

/-- A buffer has so many bits. -/
def bufferBits : Nat := 8 * BUFFER_SIZE

theorem flips_length_le (p q : Buffer) :
    (flips p.bytes q.bytes).length ≤ bufferBits := by
  rw [flips, List.length_zipWith, lineBits_length]
  exact Nat.le_trans (Nat.min_le_left _ _)
    (Nat.mul_le_mul_left 8 p.len_le)

/-- A single bit does not come back as long as a buffer lasts. -/
theorem single_bit_stays_off :
    staysOff crc16Feedback (loBit true) bufferBits
      (clock crc16Feedback (loBit true)) = true := by
  decide +kernel

theorem single_bit_gone {n : Nat} (hn : 0 < n) (hle : n ≤ bufferBits) :
    (clock crc16Feedback)^[n] (loBit true) ≠ loBit true := by
  obtain ⟨k, rfl⟩ := Nat.exists_eq_succ_of_ne_zero (Nat.pos_iff_ne_zero.mp hn)
  rw [Function.iterate_succ_apply]
  exact ne_of_staysOff hle single_bit_stays_off

/-- Bits that leave nothing in the register are none, or four and more. -/
theorem flips_of_absorb {bits : List Bool} (hlen : bits.length ≤ bufferBits)
    (h : absorb crc16Feedback 0 bits = 0) :
    bits.count true = 0 ∨ 4 ≤ bits.count true := by
  have heven := even_of_absorb (by decide) parity_crc16Feedback h
  by_cases htwo : bits.count true = 2
  · obtain ⟨n, hn, hpos, hback⟩ :=
      returns_of_absorb (by decide) (by decide) htwo h
    exact absurd hback (single_bit_gone hpos (by omega))
  · omega

theorem isPacket_distance {p q : Buffer} {header header' : Header}
    {i i' : List UInt8} (hp : IsPacket p.bytes header i)
    (hq : IsPacket q.bytes header' i') (hlen : p.len = q.len) (hne : p ≠ q) :
    4 ≤ (flips p.bytes q.bytes).count true := by
  have hnothing := absorb_flips hp hq hlen
  rcases flips_of_absorb (flips_length_le p q) hnothing with hzero | hfour
  · have hclear : ∀ b ∈ flips p.bytes q.bytes, b = false := by
      intro b hb
      cases b with
      | false => rfl
      | true => exact absurd (List.count_pos_iff.mpr hb) (by omega)
    exact absurd (Buffer.ext (eq_of_no_flips hlen hclear)) hne
  · exact hfour

/-- Of two accepted packets of one length, that are not the same, at least
four bits differ. -/
theorem accepted_distance (p q information information' : Buffer)
    (hp : (packetCall p information).succeeded = true)
    (hq : (packetCall q information').succeeded = true)
    (hlen : p.len = q.len) (hne : p ≠ q) :
    4 ≤ (flips p.bytes q.bytes).count true := by
  obtain ⟨header, i, hpacket⟩ := accepted_isPacket hp
  obtain ⟨header', i', hpacket'⟩ := accepted_isPacket hq
  exact isPacket_distance hpacket hpacket' hlen hne

/-- The same with the four bits of the generator flipped, the first of them
that of the information. -/
def generatorFlipped : Buffer :=
  ⟨[0xA0, 0x0A, 0x03, 0x13, 0x03, 0x1B, 0x9B, 0x73, 0xD0, 0x87], by decide⟩

/-- There are packets no further apart. -/
theorem accepted_distance_generator :
    4 ≤ (flips oneByteSent.bytes generatorFlipped.bytes).count true ∧
      (flips oneByteSent.bytes generatorFlipped.bytes).count true = 4 :=
  ⟨accepted_distance oneByteSent generatorFlipped bareFrame bareFrame
    (by decide +kernel) (by decide +kernel) rfl (by decide),
    by decide +kernel⟩

end MBusMeter.Proofs
