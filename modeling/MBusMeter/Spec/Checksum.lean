import MBusMeter.Lib.ShiftRegister
import MBusMeter.Lib.Word

/-!
# The checksum, a bit at a time

CRC-16/X.25 as the standard has it: a register of sixteen bits, all set at
first, that takes in the bytes in order, the lowest bit of each first, and is
inverted in the end. The bits of a packet in the order in which they are on
the line, and the two kinds of damage a checksum is there to find, are stated
here as well.
-/

namespace MBusMeter.Spec

open Lib

/-- The generator without its highest term, lowest place on top. -/
def crc16Feedback : BitVec 16 := 0x8408

/-- One byte: added to the low half of the register, and clocked through. -/
def crc16Byte (r : BitVec 16) (byte : UInt8) : BitVec 16 :=
  (clock crc16Feedback)^[8] (r ^^^ byte.toBitVec.setWidth 16)

def crc16 (bytes : List UInt8) : BitVec 16 :=
  bytes.foldl crc16Byte 0xFFFF ^^^ 0xFFFF

/-- The bytes it is sent in, behind those it is over: the low one first. -/
def checksum (bytes : List UInt8) : List UInt8 :=
  (bytes16 (UInt16.ofBitVec (crc16 bytes))).reverse

/-- What the register holds when a checksum has followed its bytes. -/
def crc16Residue : BitVec 16 := 0xF0B8

/-- The bits of a byte in the order of the line. -/
def byteBits (byte : UInt8) : List Bool :=
  (List.range 8).map byte.toBitVec.getLsbD

/-- The bits of some bytes in the order of the line. -/
def lineBits (bytes : List UInt8) : List Bool := bytes.flatMap byteBits

/-- Where two packets of one length differ. -/
def flips (sent received : List UInt8) : List Bool :=
  List.zipWith (· ^^ ·) (lineBits sent) (lineBits received)

def OddFlips (sent received : List UInt8) : Prop :=
  (flips sent received).count true % 2 = 1

instance (sent received : List UInt8) : Decidable (OddFlips sent received) :=
  inferInstanceAs (Decidable (_ = _))

/-- All the bits that differ are within sixteen in a row. -/
def BurstFlips (sent received : List UInt8) : Prop :=
  ∃ start, ∀ k, (flips sent received).getD k false = true →
    start ≤ k ∧ k < start + 16

theorem checksum_length (bytes : List UInt8) : (checksum bytes).length = 2 :=
  rfl

@[simp] theorem byteBits_length (byte : UInt8) : (byteBits byte).length = 8 :=
  rfl

theorem lineBits_cons (byte : UInt8) (bytes : List UInt8) :
    lineBits (byte :: bytes) = byteBits byte ++ lineBits bytes := rfl

theorem lineBits_length (bytes : List UInt8) :
    (lineBits bytes).length = 8 * bytes.length := by
  induction bytes with
  | nil => rfl
  | cons byte bytes ih =>
      rw [lineBits_cons, List.length_append, byteBits_length, ih,
        List.length_cons]
      omega

theorem byteBits_getD (byte : UInt8) (i : Nat) :
    (byteBits byte).getD i false = byte.toBitVec.getLsbD i := by
  by_cases hi : i < 8
  · rw [List.getD_eq_getElem _ _ (by simpa using hi)]
    simp [byteBits]
  · rw [List.getD_eq_default _ _ (by simpa using hi)]
    exact (BitVec.getLsbD_of_ge _ i (Nat.not_lt.mp hi)).symm

theorem lineBits_inj {xs ys : List UInt8} (h : lineBits xs = lineBits ys) :
    xs = ys := by
  induction xs generalizing ys with
  | nil =>
      have hlen := congrArg List.length h
      rw [lineBits_length, lineBits_length] at hlen
      exact (List.length_eq_zero_iff.mp (by
        rw [List.length_nil] at hlen
        omega)).symm
  | cons x xs ih =>
      rcases ys with _ | ⟨y, ys⟩
      · have hlen := congrArg List.length h
        rw [lineBits_length, lineBits_length, List.length_cons,
          List.length_nil] at hlen
        omega
      · rw [lineBits_cons, lineBits_cons] at h
        obtain ⟨hbyte, hrest⟩ := List.append_inj h rfl
        have hxy : x = y := by
          apply UInt8.toBitVec_inj.mp
          apply BitVec.eq_of_getLsbD_eq
          intro i _
          rw [← byteBits_getD, ← byteBits_getD, hbyte]
        rw [hxy, ih hrest]

theorem eq_of_no_flips {sent received : List UInt8}
    (hlen : sent.length = received.length)
    (h : ∀ b ∈ flips sent received, b = false) : sent = received := by
  have hbits : (lineBits sent).length = (lineBits received).length := by
    rw [lineBits_length, lineBits_length, hlen]
  refine lineBits_inj (List.ext_getElem hbits fun i hi hi' => ?_)
  have hzip : i < (flips sent received).length := by
    rw [flips, List.length_zipWith]
    exact Nat.lt_min.mpr ⟨hi, hi'⟩
  have hflip := h _ (List.getElem_mem hzip)
  simp only [flips, List.getElem_zipWith] at hflip
  simpa using hflip

end MBusMeter.Spec
