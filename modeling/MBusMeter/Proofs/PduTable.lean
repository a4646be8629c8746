import MBusMeter.Proofs.PduGrammar

/-!
# The end of the table

The table is written through an index that is checked, and read through one
that is not. Behind the last code that was kept the entries hold no code, and
the first value too many is turned away by the first of them — unless the
table is full: then there is no such entry, and the value is compared with
what lies behind the table.
-/

namespace MBusMeter.Proofs

open Lib Firmware Firmware.Pdu Spec

/-- The buffer is behind its header the front of a report of more values than
it has codes for. -/
def DeclaresMore (bytes : List UInt8) : Prop :=
  ∃ ds count rest, ds.length ≤ 255 ∧ count ≤ 254 ∧
    (keptCodes ds).length < count ∧
    skipHeader bytes = frontWire ds count ++ rest

/-- The table is not left, and values without a code are not let through. -/
structure TableSafe (buffer : Buffer) : Prop where
  inside : (pduCall buffer).faulted = false
  refused : DeclaresMore buffer.bytes → ∃ call, pduCall buffer = .fail call

/-- A full table, a value for each of its codes, and one value more. As long
as the bytes behind are fewer than it asks for, the head of an octet string is
a value here without its content (`Reading.cut`): the decoder goes on right
behind it. -/
def Overruns (bytes : List UInt8) : Prop :=
  ∃ ds vs v count rest, ds.length ≤ 255 ∧ count ≤ 254 ∧
    StopsWhenFull MAX_FIELDS ds ∧ (keptCodes ds).length = MAX_FIELDS ∧
    vs.length = MAX_FIELDS ∧ MAX_FIELDS < count ∧
    Matches (keptCodes ds) vs ∧ FitsAll (vs ++ [v]) rest ∧
    skipHeader bytes = frontWire ds count ++ (valuesWire (vs ++ [v]) ++ rest)

theorem valuesWire_append (as bs : List Reading) :
    valuesWire (as ++ bs) = valuesWire as ++ valuesWire bs := by
  rw [valuesWire, List.map_append, List.flatten_append]
  rfl

theorem fitsAll_snoc (vs : List Reading) (v : Reading) (rest : List UInt8) :
    FitsAll (vs ++ [v]) rest ↔
      FitsAll vs (v.wire ++ rest) ∧ v.Fits rest := by
  induction vs with
  | nil => simp [FitsAll, valuesWire]
  | cons w vs ih =>
      rw [List.cons_append, FitsAll, FitsAll, ih, valuesWire_append,
        List.append_assoc, show valuesWire [v] = v.wire from
          List.append_nil _]
      exact and_assoc.symm

/-- The reading looks past the table exactly on such buffers. -/
theorem scan_overrun_iff (bytes : List UInt8) :
    (scan bytes).ending = .overrun ↔ Overruns bytes := by
  rw [scan]
  constructor
  · intro h
    rcases scanBody_cases (skipHeader bytes) with
      hstuck | ⟨r, _, hdone⟩ |
        ⟨ds, count, r, hcount, hds, hstop, hroom, hbytes⟩
    · rw [hstuck] at h
      cases h
    · rw [hdone] at h
      cases h
    · rw [hbytes, scanBody_front hcount hds hstop] at h
      obtain ⟨hmatch, rest, hr, hfits, hend⟩ := readValues_spec
        (MAX_FIELDS - (keptCodes ds).length) count (keptCodes ds) r
      generalize readValues (MAX_FIELDS - (keptCodes ds).length) (keptCodes ds)
        count r = read at h hmatch hr hfits hend
      obtain ⟨vs, e⟩ := read
      cases h
      obtain ⟨hlt, hlen, hfull, v, r', htake⟩ : vs.length < count ∧
        vs.length = (keptCodes ds).length ∧
        MAX_FIELDS - (keptCodes ds).length = 0 ∧
        ∃ v r, takeReading rest = some (v, r) := hend
      obtain ⟨hwire, hfit⟩ := takeReading_eq_some htake
      refine ⟨ds, vs, v, count, r', hds, hcount, hstop, by omega, by omega,
        by omega, hmatch, ?_, ?_⟩
      · rw [fitsAll_snoc, ← hwire]
        exact ⟨hfits, hfit⟩
      · rw [hbytes, hr, hwire, valuesWire_append, List.append_assoc,
          show valuesWire [v] = v.wire from List.append_nil _]
  · intro hover
    obtain ⟨ds, vs, v, count, rest, hds, hcount, hstop, hfull, hlen, hlt,
      hmatch, hfits, hbytes⟩ := hover
    rw [fitsAll_snoc] at hfits
    obtain ⟨n, rfl⟩ : ∃ n, count = vs.length + (n + 1) :=
      ⟨count - vs.length - 1, by omega⟩
    rw [hbytes, scanBody_front hcount hds hstop, valuesWire_append,
      List.append_assoc, show valuesWire [v] = v.wire from List.append_nil _,
      readValues_append _ _ _ _ _ hmatch hfits.1, hlen, ← hfull,
      List.drop_length, readValues, takeReading_wire hfits.2]
    exact if_pos (Nat.sub_self _)

/-- A current in the table. -/
def currentDefinition : Definition where
  classId := .short 3
  code := ⟨CURRENT_P1_FIELD, rfl⟩
  attr := 2
  dataIndex := .short 0

/-- Twenty currents and a value for each, and one value more. -/
def twentyOneValues : List UInt8 :=
  List.replicate 18 0 ++ bodyWire (List.replicate 20 currentDefinition)
    (List.replicate 21 (.uint16 7))

end MBusMeter.Proofs
