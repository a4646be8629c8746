import MBusMeter.Proofs.PduTable

/-!
# What the meter has been told

A value is published when it is read, before anything behind it has been
looked at. So a buffer that is turned away in the end may have been published
in part, and the part is known: the values up to the first thing wrong. Where
the definitions cannot be read, or the first value cannot, that is nothing.
-/

namespace MBusMeter.Proofs

open Lib Firmware Firmware.Pdu Spec

/-- There is the front of a report. -/
def HasFront (bytes : List UInt8) : Prop :=
  ∃ ds count rest, ds.length ≤ 255 ∧ count ≤ 254 ∧
    StopsWhenFull MAX_FIELDS ds ∧ bytes = frontWire ds count ++ rest

/-- The codes and values at the front of the buffer that belong together, as
many as there are: none where there is no front of a report, and else up to
the end of the report or the first value that is not there, not of its type or
without a code. The head of an octet string that asks for more bytes than
there are (`Reading.cut`) is one of the values, and the next one begins right
behind it. -/
def Leading (bytes : List UInt8) (codes : List Code)
    (values : List Reading) : Prop :=
  (values = [] ∧ ¬ HasFront (skipHeader bytes)) ∨
  ∃ ds count rest, ds.length ≤ 255 ∧ count ≤ 254 ∧
    StopsWhenFull MAX_FIELDS ds ∧ codes = keptCodes ds ∧
    Matches codes values ∧ FitsAll values rest ∧
    skipHeader bytes = frontWire ds count ++ (valuesWire values ++ rest) ∧
    (values.length = count ∨ values.length < count ∧
      ∀ v r, rest = v.wire ++ r → v.Fits r →
        ∀ code ∈ codes[values.length]?, ¬ Permits code v)

/-- Where there is none, nothing is read. -/
theorem scanBody_values_nil {bytes : List UInt8} (h : ¬ HasFront bytes) :
    (scanBody bytes).values = [] := by
  rcases scanBody_cases bytes with hstuck | ⟨r, _, hdone⟩ |
    ⟨ds, count, r, hcount, hds, hstop, _, hbytes⟩
  · rw [hstuck]
  · rw [hdone]
  · exact absurd ⟨ds, count, r, hds, hcount, hstop, hbytes⟩ h

/-- What is read is what leads. -/
theorem leading_scan (bytes : List UInt8) :
    Leading bytes (scan bytes).codes (scan bytes).values := by
  by_cases hfront : HasFront (skipHeader bytes)
  · obtain ⟨ds, count, r, hds, hcount, hstop, hbytes⟩ := hfront
    obtain ⟨hmatch, rest, hr, hfits, hend⟩ := readValues_spec
      (MAX_FIELDS - (keptCodes ds).length) count (keptCodes ds) r
    rw [scan, hbytes, scanBody_front hcount hds hstop]
    refine Or.inr ⟨ds, count, rest, hds, hcount, hstop, rfl, hmatch, hfits,
      by rw [← hr]; exact hbytes, ?_⟩
    generalize readValues (MAX_FIELDS - (keptCodes ds).length) (keptCodes ds)
      count r = read at hend
    obtain ⟨vs, e⟩ := read
    cases e with
    | done r' => exact Or.inl hend.1
    | stuck =>
        refine Or.inr ⟨hend.1, fun v r' hwire hfit => ?_⟩
        exact (hend.2 v r' (by rw [hwire]; exact takeReading_wire hfit)).1
    | overrun =>
        refine Or.inr ⟨hend.1, fun v r' _ _ code hcode => ?_⟩
        rw [List.getElem?_eq_none (Nat.le_of_eq hend.2.1.symm)] at hcode
        cases hcode
  · exact Or.inl ⟨scanBody_values_nil hfront, hfront⟩

/-- The values of a report lead. -/
theorem leading_report (r : Report) :
    Leading r.packet.bytes (keptCodes r.definitions) r.values := by
  have hlead := leading_scan r.packet.bytes
  rw [scan_report r] at hlead
  exact hlead

/-- Where the next value has no code or is not of its type, no value is
read. -/
theorem readValues_nil {room count : Nat} {codes : List Code}
    {rest : List UInt8}
    (h : 0 < count → ∀ v r, rest = v.wire ++ r → v.Fits r →
      ∀ code ∈ codes.head?, ¬ Permits code v) :
    (readValues room codes count rest).1 = [] := by
  cases count with
  | zero => rfl
  | succ count =>
      rw [readValues]
      cases htake : takeReading rest with
      | none => rfl
      | some x =>
          obtain ⟨v, r⟩ := x
          obtain ⟨hwire, hfit⟩ := takeReading_eq_some htake
          cases codes with
          | nil => rfl
          | cons code codes =>
              have hno := h (Nat.succ_pos count) v r hwire hfit code rfl
              show (if Permits code v then _ else _ : _ × _).1 = []
              rw [if_neg hno]

/-- There is one way to lead. -/
theorem published_leading {bytes : List UInt8} {codes : List Code}
    {values : List Reading} (h : Leading bytes codes values) :
    published codes values =
      published (scan bytes).codes (scan bytes).values := by
  rcases h with ⟨hnil, hnone⟩ |
    ⟨ds, count, rest, hds, hcount, hstop, hcodes, hmatch, hfits, hbytes, hend⟩
  · rw [scan, scanBody_values_nil hnone, hnil, published, published,
      List.zip_nil_right, List.zip_nil_right]
  · obtain ⟨n, hn⟩ : ∃ n, count = values.length + n := by
      rcases hend with heq | ⟨hlt, _⟩
      · exact ⟨0, heq.symm⟩
      · exact ⟨count - values.length, by omega⟩
    have hrest : (readValues (MAX_FIELDS - (keptCodes ds).length)
        (codes.drop values.length) n rest).1 = [] := by
      refine readValues_nil fun hpos v r hwire hfit code hcode => ?_
      rcases hend with heq | ⟨_, hstop⟩
      · omega
      · rw [List.head?_drop] at hcode
        exact hstop v r hwire hfit code hcode
    rw [hcodes] at hmatch hrest ⊢
    rw [scan, hbytes, scanBody_front hcount hds hstop, hn,
      readValues_append _ _ _ _ _ hmatch hfits, hrest, List.append_nil]

/-- The head of a serial number, and a current right behind it. -/
example : (pduCall ⟨List.replicate 18 0 ++ (frontWire
    [{ currentDefinition with code := ⟨Quantity.serial.code, rfl⟩ },
      currentDefinition] 2 ++ [0x09, 0xFF, 0x12, 0x00, 0x07]),
    by decide⟩).state.updates = [.rmsCurrent 0 7] := by
  decide +kernel

/-- A current that is decoded, and one byte more. -/
def trailingByte : Buffer where
  bytes := List.replicate 18 0 ++
    (bodyWire [currentDefinition] [.uint16 7] ++ [0])
  len_le := by decide

end MBusMeter.Proofs
