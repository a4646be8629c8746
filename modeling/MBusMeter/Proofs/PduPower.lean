import MBusMeter.Proofs.PduUpdates
import MBusMeter.Spec.Meter

/-!
# The power

The meter is told the power in 16 bits, and the report has 32. What is cut off
is cut off without a look at it: exported power of 65536 W is negative power of
none, and imported power from 32768 W on is negative.

Exported power that is none is not told at all, so the meter shows the
imported power then. Both are looked up by their place in the list of calls,
which is a matter of the channel they go out on.
-/

namespace MBusMeter.Proofs

open Lib Firmware Firmware.Pdu Spec

/-! ## Channels -/

theorem calls_channel {q : Quantity} {r : Reading} {u : MeterUpdate}
    (h : u ∈ q.calls r) : q.channel = some (channelOf u) := by
  cases q <;> cases r <;> simp [Quantity.calls] at h <;>
    simp [h, Quantity.channel, channelOf]

theorem callsOf_onChannel :
    OnChannel channelOf CodedReading.channel
      (fun x : CodedReading => callsOf x.1 x.2) := by
  intro x u hu
  rw [CodedReading.channel]
  cases hq : Quantity.ofCode x.1.bytes with
  | none => simp [callsOf, hq] at hu
  | some q =>
      simp only [callsOf, hq] at hu
      exact calls_channel hu

/-- What is told about some readings, each under its code. -/
def told (readings : List CodedReading) : List MeterUpdate :=
  readings.flatMap fun x => callsOf x.1 x.2

theorem published_eq_told (codes : List Code) (values : List Reading) :
    published codes values = told (codes.zip values) := rfl

theorem Code.ext_bytes {c d : Code} (h : c.bytes = d.bytes) : c = d := by
  cases c
  cases d
  simpa using h

/-- The place of the power is for the two powers. -/
theorem channel_eq_activePower (x : CodedReading) :
    x.channel = some .activePower ↔
      x.1 = importedPower ∨ x.1 = exportedPower := by
  constructor
  · intro h
    obtain ⟨q, hq, hchannel⟩ := Option.bind_eq_some_iff.mp h
    have hcode := ofCode_eq_some hq
    cases q with
    | importedPower => exact Or.inl (Code.ext_bytes hcode.symm)
    | exportedPower => exact Or.inr (Code.ext_bytes hcode.symm)
    | _ => simp [Quantity.channel] at hchannel
  · intro h
    obtain ⟨code, r⟩ := x
    rcases h with rfl | rfl
    · rfl
    · rfl

theorem itemsOn_activePower (readings : List CodedReading) :
    itemsOn CodedReading.channel .activePower readings =
      powerReadings readings := by
  refine List.filter_congr fun x _ => ?_
  simp [channel_eq_activePower x]

theorem shown_told_power (readings : List CodedReading) :
    shown .activePower (told readings) =
      (told (powerReadings readings)).getLast? := by
  rw [← itemsOn_activePower]
  exact callsOf_onChannel.lastOn_flatMap .activePower readings

/-! ## What is shown -/

/-- Exported power where there is some, else imported power. -/
def cutPower (i e : UInt32) : Int16 :=
  if e = 0 then i.toUInt16.toInt16 else -e.toUInt16.toInt16

theorem told_imported_exported (i e : UInt32) :
    (told [(importedPower, .uint32 i), (exportedPower, .uint32 e)]).getLast? =
      some (.activePower (cutPower i e)) := by
  show ([.activePower i.toUInt16.toInt16] ++
    (if e = 0 then [] else [.activePower (-e.toUInt16.toInt16)]) ++ []
      : List MeterUpdate).getLast? = _
  rw [cutPower]
  split
  · rfl
  · rfl

theorem shown_power {readings : List CodedReading} {i e : UInt32}
    (h : powerReadings readings =
      [(importedPower, .uint32 i), (exportedPower, .uint32 e)]) :
    shown .activePower (told readings) =
      some (.activePower (cutPower i e)) := by
  rw [shown_told_power, h, told_imported_exported]

/-- What is left of a number of 32 bits, with the sign its bits say. -/
theorem toInt_cut (v : UInt32) :
    v.toUInt16.toInt16.toInt = if v.toNat % 65536 < 32768
      then (v.toNat % 65536 : Int) else v.toNat % 65536 - 65536 := by
  rw [Int16.toInt, UInt16.toBitVec_toInt16, BitVec.toInt_eq_toNat_bmod,
    UInt16.toNat_toBitVec, UInt32.toNat_toUInt16, Int.bmod_def]
  split <;> split <;> omega

theorem toInt_neg_cut (v : UInt32) :
    (-v.toUInt16.toInt16).toInt =
      if 0 < v.toNat % 65536 ∧ v.toNat % 65536 ≤ 32768
      then -(v.toNat % 65536 : Int)
      else (65536 - v.toNat % 65536) % 65536 := by
  rw [Int16.toInt_neg, toInt_cut, Int.bmod_def]
  split <;> split <;> split <;> omega

theorem cutPower_importing {i e : UInt32} (h : e.toNat = 0) :
    RightPower (cutPower i e) i e ↔ i.toNat % 65536 < 32768 := by
  have hshown : (cutPower i e).toInt = _ :=
    (congrArg Int16.toInt (if_pos (UInt32.toNat_inj.mp h))).trans (toInt_cut i)
  constructor
  · rintro ⟨_, himporting, _, _⟩
    have hsign := himporting h
    split at hshown <;> omega
  · intro hlow
    rw [if_pos hlow] at hshown
    exact ⟨fun hpos => by omega, fun _ => by omega, fun hpos => by omega,
      fun _ _ => by omega⟩

theorem cutPower_exporting {i e : UInt32} (h : 0 < e.toNat) :
    RightPower (cutPower i e) i e ↔
      0 < e.toNat % 65536 ∧ e.toNat % 65536 ≤ 32768 := by
  have hne : e ≠ 0 := fun hzero => by simp [hzero] at h
  have hshown : (cutPower i e).toInt = _ :=
    (congrArg Int16.toInt (if_neg hne)).trans (toInt_neg_cut e)
  constructor
  · rintro ⟨hexporting, _, _, _⟩
    have hsign := hexporting h
    split at hshown
    · next hlow => exact hlow
    · omega
  · intro hlow
    rw [if_pos hlow] at hshown
    exact ⟨fun _ => by omega, fun hzero => by omega, fun _ _ => by omega,
      fun hzero => by omega⟩

theorem cutPower_right_iff (i e : UInt32) :
    RightPower (cutPower i e) i e ↔ KeepsSign i e := by
  rcases Nat.eq_zero_or_pos e.toNat with hzero | hpos
  · rw [cutPower_importing hzero, KeepsSign]
    exact ⟨fun h => ⟨fun _ => h, fun hpos => by omega⟩, fun h => h.1 hzero⟩
  · rw [cutPower_exporting hpos, KeepsSign]
    exact ⟨fun h => ⟨fun hzero => by omega, fun _ => h⟩, fun h => h.2 hpos⟩

/-- The power that is shown in the end has the right sign, and is right where
it is a number of 16 bits, exactly when cutting it keeps its sign. -/
theorem shown_power_right_iff {buffer : Buffer} {codes : List Code}
    {values : List Reading} {i e : UInt32}
    (hlead : Leading buffer.bytes codes values)
    (hpower : powerReadings (codes.zip values) =
      [(importedPower, .uint32 i), (exportedPower, .uint32 e)]) :
    (∃ power, shown .activePower (pduCall buffer).state.updates =
        some (.activePower power) ∧ RightPower power i e) ↔
      KeepsSign i e := by
  have hshown : shown .activePower (pduCall buffer).state.updates =
      some (.activePower (cutPower i e)) := by
    rw [pduCall_updates, ← published_leading hlead, published_eq_told,
      shown_power hpower]
  rw [hshown, ← cutPower_right_iff]
  constructor
  · rintro ⟨power, heq, hright⟩
    cases heq
    exact hright
  · intro hright
    exact ⟨_, rfl, hright⟩

def powerDefinition (code : Code) : Definition where
  classId := .short 3
  code := code
  attr := 2
  dataIndex := .short 0

/-- Imported power of 40000 W, and no exported power. -/
def bigImport : Report where
  header := List.replicate 18 0
  definitions := [powerDefinition importedPower, powerDefinition exportedPower]
  values := [.uint32 40000, .uint32 0]
  header_len := rfl
  definitions_le := by decide
  stops := stopsWhenFull_of_lt (by decide)
  known := by
    intro code hcode
    rcases List.mem_pair.mp hcode with rfl | rfl
    · exact ⟨.importedPower, rfl⟩
    · exact ⟨.exportedPower, rfl⟩
  values_le := by decide
  whole := by decide
  fits := by
    refine ⟨by decide, fun x hx => ?_⟩
    rcases List.mem_pair.mp hx with rfl | rfl
    · rfl
    · rfl
  size_le := by decide

theorem shown_power_right_iff_bigImport :
    (∃ power, shown .activePower (pduCall bigImport.packet).state.updates =
        some (.activePower power) ∧ RightPower power 40000 0) ↔
      KeepsSign 40000 0 :=
  shown_power_right_iff (leading_report bigImport) rfl

/-- It is shown as negative power. -/
theorem bigImport_shown_negative :
    ¬ ∀ (buffer : Buffer) (codes : List Code) (values : List Reading)
      (i e : UInt32), (pduCall buffer).succeeded = true →
      Leading buffer.bytes codes values →
      powerReadings (codes.zip values) =
        [(importedPower, .uint32 i), (exportedPower, .uint32 e)] →
      ∃ power, shown .activePower (pduCall buffer).state.updates =
        some (.activePower power) ∧ RightPower power i e := by
  intro h
  obtain ⟨power, hshown, hright⟩ := h bigImport.packet _ _ 40000 0
    (by decide +kernel) (leading_report bigImport) rfl
  have hupdates : shown .activePower (pduCall bigImport.packet).state.updates =
      some (.activePower (-25536)) := by decide +kernel
  rw [hupdates] at hshown
  cases hshown
  exact absurd (hright.importing rfl) (by decide)

end MBusMeter.Proofs
