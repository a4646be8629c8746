import MBusMeter.Spec.Pdu

/-!
# Reading a PDU front to back

What `pdu_decode` makes of a buffer depends on the bytes alone, and on nothing
but the bytes behind the point reached so far: `scan` says how far it gets and
what it has read by then. Each part of it takes one part of the format off the
front, and takes it exactly when it is there.

A run over the values ends in one of three ways. It has read them all; or the
next one is not there or not of its type; or the codes have run out, and with
them the table, and there is one more value.
-/

namespace MBusMeter.Proofs

open Lib Firmware Firmware.Pdu Spec

/-! ## One part at a time -/

def takeIndex : List UInt8 → Option (Index × List UInt8)
  | [] => none
  | type :: r =>
      match Types.ofByte type, r with
      | some .uint16Type, a :: b :: r => some (.short (word16 a b), r)
      | some .uint32Type, a :: b :: c :: d :: r =>
          some (.long (word32 a b c d), r)
      | _, _ => none

def takeCode : List UInt8 → Option (Code × List UInt8)
  | type :: size :: r =>
      if Types.ofByte type = some .octetStringType ∧ size = 6 then
        if h : 6 ≤ r.length then
          some (⟨r.take 6, by rw [List.length_take]; omega⟩, r.drop 6)
        else none
      else none
  | _ => none

def takeAttr : List UInt8 → Option (Int8 × List UInt8)
  | type :: b :: r =>
      if Types.ofByte type = some .int8Type then some (b.toInt8, r) else none
  | _ => none

/-- The four members of a definition. -/
def takeMembers (bytes : List UInt8) : Option (Definition × List UInt8) :=
  (takeIndex bytes).bind fun (classId, r) =>
  (takeCode r).bind fun (code, r) =>
  (takeAttr r).bind fun (attr, r) =>
  (takeIndex r).bind fun (dataIndex, r) =>
  some (⟨classId, code, attr, dataIndex⟩, r)

def takeDefinition : List UInt8 → Option (Definition × List UInt8)
  | type :: quantity :: r =>
      if Types.ofByte type = some .structureType ∧ quantity = 4 then
        takeMembers r
      else none
  | _ => none

/-- So many definitions, with room in the table for `room` more to keep. -/
def takeDefinitions : (room count : Nat) → List UInt8 →
    Option (List Definition × List UInt8)
  | _, 0, bytes => some ([], bytes)
  | 0, _ + 1, _ => none
  | room + 1, count + 1, bytes =>
      (takeDefinition bytes).bind fun (d, r) =>
      (takeDefinitions (if d.attr = 2 then room else room + 1) count r).bind
        fun (ds, r) =>
      some (d :: ds, r)

def takeReading : List UInt8 → Option (Reading × List UInt8)
  | [] => none
  | type :: r =>
      match Types.ofByte type, r with
      | some .uint32Type, a :: b :: c :: d :: r =>
          some (.uint32 (word32 a b c d), r)
      | some .uint16Type, a :: b :: r => some (.uint16 (word16 a b), r)
      | some .octetStringType, size :: r =>
          if size.toNat ≤ r.length then
            some (.octets (r.take size.toNat) (by
              have hlt := size.toNat_lt
              rw [List.length_take]
              omega), r.drop size.toNat)
          else some (.cut size, r)
      | _, _ => none

/-- How a run over the values ends. -/
inductive Ending where
  | done (rest : List UInt8)
  | stuck
  | overrun
  deriving DecidableEq, Repr

/-- The values read, one for each code, until one is not there. -/
def readValues (room : Nat) (codes : List Code) : (count : Nat) →
    List UInt8 → List Reading × Ending
  | 0, bytes => ([], .done bytes)
  | count + 1, bytes =>
      match takeReading bytes with
      | none => ([], .stuck)
      | some (r, rest) =>
          match codes with
          | [] => ([], if room = 0 then .overrun else .stuck)
          | code :: codes =>
              if Permits code r then
                (r :: (readValues room codes count rest).1,
                  (readValues room codes count rest).2)
              else ([], .stuck)
  termination_by structural count => count

/-- What a reading has found. -/
structure Scan where
  codes : List Code
  values : List Reading
  ending : Ending
  deriving Repr

/-- The members of the outer structure, `count` of them behind the array. -/
def scanMembers (count : Nat) : List UInt8 → Scan
  | type :: quantity :: r =>
      if Types.ofByte type = some .arrayType then
        match takeDefinitions MAX_FIELDS quantity.toNat r with
        | none => ⟨[], [], .stuck⟩
        | some (definitions, r) =>
            let codes := keptCodes definitions
            let values := readValues (MAX_FIELDS - codes.length) codes count r
            ⟨codes, values.1, values.2⟩
      else ⟨[], [], .stuck⟩
  | _ => ⟨[], [], .stuck⟩

def scanBody : List UInt8 → Scan
  | type :: quantity :: r =>
      if Types.ofByte type = some .structureType then
        if quantity = 0 then ⟨[], [], .done r⟩
        else scanMembers (quantity.toNat - 1) r
      else ⟨[], [], .stuck⟩
  | _ => ⟨[], [], .stuck⟩

/-- A skip that is not looked at: where there is too little, nothing. -/
def skipped (n : Nat) (bytes : List UInt8) : List UInt8 :=
  if n ≤ bytes.length then bytes.drop n else bytes

/-- The header, skipped in four parts. -/
def skipHeader (bytes : List UInt8) : List UInt8 :=
  skipped 12 (skipped 1 (skipped 4 (skipped 1 bytes)))

def scan (bytes : List UInt8) : Scan := scanBody (skipHeader bytes)

/-! ## The parts and the wire -/

/-- The byte of a type. -/
def typeByte : Types → UInt8
  | .arrayType => 0x01
  | .structureType => 0x02
  | .uint32Type => 0x06
  | .octetStringType => 0x09
  | .int8Type => 0x0F
  | .uint16Type => 0x12

theorem ofByte_eq_some {b : UInt8} {t : Types} (h : Types.ofByte b = some t) :
    b = typeByte t := by
  unfold Types.ofByte at h
  split at h <;> cases h <;> rfl

theorem takeIndex_wire (i : Index) (r : List UInt8) :
    takeIndex (i.wire ++ r) = some (i, r) := by
  cases i with
  | short value =>
      show some (Index.short (word16 _ _), r) = _
      rw [word16_bytes16]
  | long value =>
      show some (Index.long (word32 _ _ _ _), r) = _
      rw [word32_bytes32]

theorem takeIndex_eq_some {bytes r : List UInt8} {i : Index}
    (h : takeIndex bytes = some (i, r)) : bytes = i.wire ++ r := by
  unfold takeIndex at h
  split at h
  · cases h
  · next type s =>
      split at h
      · next a b r' htype =>
          cases h
          rw [ofByte_eq_some htype, Index.wire, bytes16_word16]
          rfl
      · next a b c d r' htype =>
          cases h
          rw [ofByte_eq_some htype, Index.wire, bytes32_word32]
          rfl
      · cases h

theorem takeCode_wire (code : Code) (r : List UInt8) :
    takeCode ([0x09, 0x06] ++ code.bytes ++ r) = some (code, r) := by
  obtain ⟨bytes, hlen⟩ := code
  show takeCode (0x09 :: 0x06 :: (bytes ++ r)) = _
  rw [takeCode, if_pos ⟨rfl, rfl⟩, dif_pos (by rw [List.length_append]; omega)]
  simp only [← hlen, List.take_left, List.drop_left]

theorem takeCode_eq_some {bytes r : List UInt8} {code : Code}
    (h : takeCode bytes = some (code, r)) :
    bytes = [0x09, 0x06] ++ code.bytes ++ r := by
  unfold takeCode at h
  split at h
  · split at h
    · next htype =>
        split at h
        · cases h
          rw [ofByte_eq_some htype.1, htype.2]
          simp [typeByte]
        · cases h
    · cases h
  · cases h

theorem takeAttr_wire (attr : Int8) (r : List UInt8) :
    takeAttr ([0x0F, attr.toUInt8] ++ r) = some (attr, r) := by
  show takeAttr (0x0F :: attr.toUInt8 :: r) = _
  rw [takeAttr, if_pos (show Types.ofByte 0x0F = some .int8Type from rfl),
    Int8.toInt8_toUInt8]

theorem takeAttr_eq_some {bytes r : List UInt8} {attr : Int8}
    (h : takeAttr bytes = some (attr, r)) :
    bytes = [0x0F, attr.toUInt8] ++ r := by
  unfold takeAttr at h
  split at h
  · split at h
    · next htype =>
        cases h
        rw [ofByte_eq_some htype, UInt8.toUInt8_toInt8]
        rfl
    · cases h
  · cases h

theorem takeDefinition_wire (d : Definition) (r : List UInt8) :
    takeDefinition (d.wire ++ r) = some (d, r) := by
  have hwire : d.wire ++ r = 0x02 :: 0x04 :: (d.classId.wire ++
      ([0x09, 0x06] ++ d.code.bytes ++ ([0x0F, d.attr.toUInt8] ++
        (d.dataIndex.wire ++ r)))) := by
    simp only [Definition.wire, List.append_assoc, List.cons_append,
      List.nil_append]
  rw [hwire, takeDefinition, if_pos ⟨rfl, rfl⟩, takeMembers, takeIndex_wire]
  simp only [Option.bind_some]
  rw [takeCode_wire]
  simp only [Option.bind_some]
  rw [takeAttr_wire]
  simp only [Option.bind_some]
  rw [takeIndex_wire]
  rfl

theorem takeDefinition_eq_some {bytes r : List UInt8} {d : Definition}
    (h : takeDefinition bytes = some (d, r)) : bytes = d.wire ++ r := by
  unfold takeDefinition at h
  split at h
  · split at h
    · next htype =>
        obtain ⟨⟨classId, r₁⟩, h₁, h⟩ := Option.bind_eq_some_iff.mp h
        obtain ⟨⟨code, r₂⟩, h₂, h⟩ := Option.bind_eq_some_iff.mp h
        obtain ⟨⟨attr, r₃⟩, h₃, h⟩ := Option.bind_eq_some_iff.mp h
        obtain ⟨⟨dataIndex, r₄⟩, h₄, h⟩ := Option.bind_eq_some_iff.mp h
        cases h
        rw [ofByte_eq_some htype.1, htype.2, takeIndex_eq_some h₁,
          takeCode_eq_some h₂, takeAttr_eq_some h₃, takeIndex_eq_some h₄]
        simp [Definition.wire, typeByte]
    · cases h
  · cases h

theorem takeReading_wire {v : Reading} {r : List UInt8} (h : v.Fits r) :
    takeReading (v.wire ++ r) = some (v, r) := by
  cases v with
  | uint32 value =>
      show some (Reading.uint32 (word32 _ _ _ _), r) = _
      rw [word32_bytes32]
  | uint16 value =>
      show some (Reading.uint16 (word16 _ _), r) = _
      rw [word16_bytes16]
  | octets content hle =>
      have hlen : content.length.toUInt8.toNat = content.length := by
        simp only [Nat.toUInt8_eq, UInt8.toNat_ofNat']
        omega
      refine (if_pos ?_).trans ?_
      · show content.length.toUInt8.toNat ≤ (content ++ r).length
        rw [hlen, List.length_append]
        omega
      show some (Reading.octets ((content ++ r).take _) _,
        (content ++ r).drop _) = _
      simp only [hlen, List.take_left, List.drop_left]
  | cut size =>
      exact if_neg (Nat.not_le.mpr h)

theorem takeReading_eq_some {bytes r : List UInt8} {v : Reading}
    (h : takeReading bytes = some (v, r)) :
    bytes = v.wire ++ r ∧ v.Fits r := by
  unfold takeReading at h
  split at h
  · cases h
  · next type s =>
      split at h
      · next a b c d r' htype =>
          cases h
          rw [ofByte_eq_some htype, Reading.wire, bytes32_word32]
          exact ⟨rfl, trivial⟩
      · next a b r' htype =>
          cases h
          rw [ofByte_eq_some htype, Reading.wire, bytes16_word16]
          exact ⟨rfl, trivial⟩
      · next size r' htype =>
          split at h
          · next hle =>
              cases h
              refine ⟨?_, trivial⟩
              rw [ofByte_eq_some htype, Reading.wire, List.length_take,
                Nat.min_eq_left hle]
              simp [typeByte]
          · next hlt =>
              cases h
              refine ⟨?_, Nat.not_le.mp hlt⟩
              rw [ofByte_eq_some htype, Reading.wire]
              rfl
      · cases h

end MBusMeter.Proofs
