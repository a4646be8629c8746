import MBusMeter.Firmware.Hdlc
import MBusMeter.Spec.Checksum

/-!
# The table-driven checksum

`compute_checksum` takes a byte at a time and looks up in a table what eight
clocks of the register make of it. The table is right entry by entry, and
since clocks are linear it is enough that it is right for the low half of the
register: the high half only moves down.

A checksum behind its bytes brings the register to a value that does not
depend on them, because what is added to it there is what it holds, inverted.
-/

namespace MBusMeter.Proofs

open Lib Firmware Firmware.Hdlc Spec

theorem crc16Table_get (i : Fin 256) :
    (crc16Table.get i).toBitVec =
      (clock crc16Feedback)^[8] ((BitVec.ofFin i : BitVec 8).setWidth 16) := by
  revert i
  decide +kernel

/-- The index into the table is the low half of the register. -/
theorem checksum_index (fcs : UInt16) (byte : UInt8) :
    (((fcs ^^^ byte.toUInt16) &&& 0xFF).toUInt8.toBitVec).setWidth 16 =
      lowPart 8 (fcs.toBitVec ^^^ byte.toBitVec.setWidth 16) := by
  have hmask : ((fcs.toBitVec ^^^ byte.toBitVec.setWidth 16) &&& 0xFF).setWidth
      8 = (fcs.toBitVec ^^^ byte.toBitVec.setWidth 16).setWidth 8 := by
    rw [BitVec.setWidth_and]
    exact BitVec.and_allOnes
  exact congrArg (BitVec.setWidth 16) hmask

/-- One byte, from the table and by clocks. -/
theorem checksumStep_toBitVec (fcs : UInt16) (byte : UInt8) :
    (checksumStep fcs byte).toBitVec = crc16Byte fcs.toBitVec byte := by
  have hbyte : (byte.toBitVec.setWidth 16) >>> 8 = 0#16 := by
    apply BitVec.eq_of_getLsbD_eq
    intro i hi
    rw [BitVec.getLsbD_ushiftRight, BitVec.getLsbD_setWidth]
    simp
  have hentry := crc16Table_get
    ⟨((fcs ^^^ byte.toUInt16) &&& 0xFF).toUInt8.toNat, UInt8.toNat_lt _⟩
  rw [crc16Byte, clocks_split, BitVec.ushiftRight_xor_distrib, hbyte,
    BitVec.xor_zero, ← checksum_index]
  rw [checksumStep, UInt16.toBitVec_xor, hentry, UInt16.toBitVec_shiftRight]
  rfl

theorem foldl_checksumStep (bytes : List UInt8) :
    ∀ fcs : UInt16, (bytes.foldl checksumStep fcs).toBitVec =
      bytes.foldl crc16Byte fcs.toBitVec := by
  induction bytes with
  | nil => intro fcs; rfl
  | cons byte bytes ih =>
      intro fcs
      rw [List.foldl_cons, List.foldl_cons, ih, checksumStep_toBitVec]

/-- The checksum is CRC-16/X.25. -/
theorem computeChecksum_toBitVec (bytes : List UInt8) :
    (computeChecksum bytes bytes.length).toBitVec = crc16 bytes := by
  rw [computeChecksum, List.take_length, UInt16.toBitVec_xor,
    foldl_checksumStep, crc16]
  rfl

theorem checksum_eq (bytes : List UInt8) :
    checksum bytes =
      (bytes16 (computeChecksum bytes bytes.length)).reverse := by
  rw [checksum, ← computeChecksum_toBitVec]

/-! ## Bit by bit -/

theorem crc16Byte_absorb (r : BitVec 16) (byte : UInt8) :
    crc16Byte r byte = absorb crc16Feedback r (byteBits byte) := by
  have hloaded : Loaded (byte.toBitVec.setWidth 16) (byteBits byte) := by
    intro i
    rw [byteBits_getD, BitVec.getLsbD_setWidth]
    by_cases hi : i < 16
    · simp [hi]
    · simp [hi, BitVec.getLsbD_of_ge byte.toBitVec i (by omega)]
  rw [← clocks_loaded hloaded, byteBits_length, crc16Byte]

theorem foldl_crc16Byte (bytes : List UInt8) :
    ∀ r, bytes.foldl crc16Byte r =
      absorb crc16Feedback r (lineBits bytes) := by
  induction bytes with
  | nil => intro r; rfl
  | cons byte bytes ih =>
      intro r
      rw [List.foldl_cons, ih, crc16Byte_absorb, lineBits_cons, absorb_append]

/-- The register of `compute_checksum`, fed with the bits on the line. -/
theorem register_absorb (bytes : List UInt8) (fcs : UInt16) :
    (bytes.foldl checksumStep fcs).toBitVec =
      absorb crc16Feedback fcs.toBitVec (lineBits bytes) := by
  rw [foldl_checksumStep, foldl_crc16Byte]

/-! ## The residue -/

theorem loaded_checksum (c : UInt16) :
    Loaded c.toBitVec (lineBits (bytes16 c).reverse) := by
  have hlow : c.toUInt8.toBitVec = c.toBitVec.setWidth 8 := rfl
  have hhigh : (c >>> 8).toUInt8.toBitVec =
      (c.toBitVec >>> 8).setWidth 8 := by
    show ((c >>> 8).toBitVec).setWidth 8 = _
    rw [UInt16.toBitVec_shiftRight]
    rfl
  have hbits : lineBits (bytes16 c).reverse =
      byteBits c.toUInt8 ++ byteBits (c >>> 8).toUInt8 := rfl
  intro i
  rw [hbits]
  by_cases hi : i < 8
  · rw [List.getD_append _ _ _ _ (by simpa using hi), byteBits_getD, hlow,
      BitVec.getLsbD_setWidth]
    simp [hi]
  · rw [List.getD_append_right _ _ _ _ (by simpa using hi), byteBits_getD,
      hhigh, BitVec.getLsbD_setWidth, BitVec.getLsbD_ushiftRight,
      byteBits_length, Nat.add_sub_cancel' (Nat.not_lt.mp hi)]
    by_cases hi' : i < 16
    · simp [show i - 8 < 8 by omega]
    · simp [BitVec.getLsbD_of_ge c.toBitVec i (by omega)]

/-- Bytes and their checksum leave the same register whatever they are. -/
theorem register_checksum (bytes : List UInt8) :
    (bytes ++ checksum bytes).foldl checksumStep 0xFFFF =
      UInt16.ofBitVec crc16Residue := by
  apply UInt16.toBitVec_inj.mp
  rw [List.foldl_append, register_absorb, checksum_eq, computeChecksum,
    List.take_length]
  generalize bytes.foldl checksumStep 0xFFFF = r
  have hword : r.toBitVec ^^^ (r ^^^ 0xFFFF).toBitVec = 0xFFFF#16 := by
    rw [UInt16.toBitVec_xor, ← BitVec.xor_assoc, BitVec.xor_self,
      BitVec.zero_xor]
    rfl
  rw [← clocks_loaded (loaded_checksum (r ^^^ 0xFFFF)), hword,
    lineBits_length, List.length_reverse, bytes16_length]
  decide +kernel

/-- The checksum is CRC-16/X.25, for bytes of any number, and behind a
message and its checksum the register holds the residue. -/
theorem computeChecksum_crc16 (bytes : List UInt8) :
    (computeChecksum bytes bytes.length).toBitVec = crc16 bytes ∧
      ((bytes ++ checksum bytes).foldl checksumStep 0xFFFF).toBitVec =
        crc16Residue := by
  refine ⟨computeChecksum_toBitVec bytes, ?_⟩
  rw [register_checksum]

end MBusMeter.Proofs
