import MBusMeter.Spec.Pdu

/-!
# Reports cut short

Where a report is cut, some of its values are there in whole, and of the next
there is a part, or nothing.
-/

namespace MBusMeter.Spec

open Firmware Firmware.Pdu

/-- The values that are whole in so many bytes, and what there is of the
next. -/
def cutValues : Nat → List Reading → List Reading × List UInt8
  | _, [] => ([], [])
  | n, v :: vs =>
      if v.wire.length ≤ n then
        (v :: (cutValues (n - v.wire.length) vs).1,
          (cutValues (n - v.wire.length) vs).2)
      else ([], v.wire.take n)

/-- The report up to the cut. -/
def Report.upTo (r : Report) (n : Nat) : Buffer where
  bytes := r.packet.bytes.take n
  len_le := Nat.le_trans (List.length_take_le' n _) r.packet.len_le

/-- The length of what is in front of the values. -/
def Report.frontLen (r : Report) : Nat :=
  18 + (frontWire r.definitions r.values.length).length

/-- The values in front of the cut. -/
def Report.intact (r : Report) (n : Nat) : List Reading :=
  (cutValues (n - r.frontLen) r.values).1

/-- What there is of the value the cut goes through. -/
def Report.torn (r : Report) (n : Nat) : List UInt8 :=
  (cutValues (n - r.frontLen) r.values).2

/-- The head of an octet string is there, and this much of its content. -/
def IsHead (part : List UInt8) (size : UInt8) (content : List UInt8) : Prop :=
  part = 0x09 :: size :: content

/-- What comes is not a value for the next of the codes. -/
def NoneNext (codes : List Code) (rest : List UInt8) : Prop :=
  ∀ v r, rest = v.wire ++ r → v.Fits r → ∀ code ∈ codes.head?, ¬ Permits code v

/-- These are the values the bytes lead with, `count` at most, each for its
code. -/
def Leads (codes : List Code) (count : Nat) (bytes : List UInt8)
    (values : List Reading) : Prop :=
  ∃ rest, bytes = valuesWire values ++ rest ∧ Matches codes values ∧
    FitsAll values rest ∧
    (values.length = count ∨
      values.length < count ∧ NoneNext (codes.drop values.length) rest)

theorem Reading.wire_length_pos (v : Reading) : 0 < v.wire.length := by
  cases v <;> exact Nat.succ_pos _

theorem cutValues_zero (vs : List Reading) : cutValues 0 vs = ([], []) := by
  cases vs with
  | nil => rfl
  | cons v vs =>
      rw [cutValues, if_neg (Nat.not_le.mpr v.wire_length_pos),
        List.take_zero]

end MBusMeter.Spec
