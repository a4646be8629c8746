import MBusMeter.Proofs.PduPower
import MBusMeter.Spec.Order
import Mathlib.Data.List.Permutation

/-!
# The order of the values

A report that gives every quantity once is accepted in any order, and almost
everything the meter shows is the same: a place that one quantity goes to gets
one value. The place of the power is the one that two quantities go to. Behind
the imported power the exported power is told when there is some, and where it
is none the imported power stays. The other way round the imported power is
told in any case, and what was exported is forgotten.
-/

namespace MBusMeter.Proofs

open Lib Firmware Firmware.Pdu Spec

/-! ## Any order is accepted -/

/-- There are no more codes than quantities. -/
theorem known_length_le {codes : List Code} (hdistinct : codes.Nodup)
    (hknown : ∀ code ∈ codes, ∃ q : Quantity, q.code = code.bytes) :
    codes.length ≤ 17 := by
  have hbytes : (codes.map Code.bytes).Nodup :=
    hdistinct.map fun _ _ h => Code.ext_bytes h
  have hsub : codes.map Code.bytes ⊆ Quantity.all.map Quantity.code := by
    intro bytes hmem
    obtain ⟨code, hcode, rfl⟩ := List.mem_map.mp hmem
    obtain ⟨q, hq⟩ := hknown code hcode
    exact List.mem_map.mpr ⟨q, Quantity.mem_all q, hq⟩
  simpa [Quantity.all] using (hbytes.subperm hsub).length_le

/-- It is a report, and the table is never full. -/
def distinctReport (r : DistinctReport) : Report where
  header := r.header
  definitions := r.definitions
  values := r.values
  header_len := r.header_len
  definitions_le := r.definitions_le
  stops := stopsWhenFull_of_lt
    (Nat.lt_of_le_of_lt (known_length_le r.distinct r.known) (by decide))
  known := r.known
  values_le := by
    have hle := known_length_le r.distinct r.known
    rw [keptCodes_eq, List.length_map, ← r.one_each] at hle
    omega
  whole := r.whole
  fits := by
    refine ⟨?_, fun x hx => ?_⟩
    · rw [keptCodes_eq, List.length_map, r.one_each]
    · rw [keptCodes_eq, List.zip_map_left] at hx
      obtain ⟨y, hy, rfl⟩ := List.mem_map.mp hx
      exact r.permits y hy
  size_le := r.size_le

/-- A definition and its value, by its code. -/
def coded (x : Definition × Reading) : CodedReading := (x.1.code, x.2)

theorem entries_coded (r : DistinctReport) :
    (keptCodes r.definitions).zip r.values = r.entries.map coded := by
  rw [keptCodes_eq, List.zip_map_left]
  rfl

theorem entries_codes (r : DistinctReport) :
    (r.entries.map coded).map Prod.fst = keptCodes r.definitions := by
  rw [keptCodes_eq, ← r.entries_fst, List.map_map, List.map_map]
  rfl

theorem distinct_succeeded (r : DistinctReport) :
    (pduCall r.packet).succeeded = true := by
  rw [pduCall_succeeded]
  exact congrArg Scan.ending (scan_report (distinctReport r))

theorem distinct_updates (r : DistinctReport) :
    (pduCall r.packet).state.updates = told (r.entries.map coded) := by
  rw [pduCall_updates, ← entries_coded, ← published_eq_told]
  exact congrArg (fun s : Scan => published s.codes s.values)
    (scan_report (distinctReport r))

/-! ## Places for one quantity -/

/-- Where a value goes says what it is of, but for the power. -/
theorem channel_inj {q q' : Quantity} (h : q.channel = q'.channel)
    (hpower : q.channel ≠ some .activePower) (hsome : q.channel ≠ none) :
    q = q' := by
  cases q <;> cases q' <;> simp_all [Quantity.channel, Fin.ext_iff]

theorem code_eq_of_channel {channel : Channel} (hne : channel ≠ .activePower)
    (x y : CodedReading) (hx : x.channel = some channel)
    (hy : y.channel = some channel) : x.1 = y.1 := by
  obtain ⟨q, hq, hxq⟩ := Option.bind_eq_some_iff.mp hx
  obtain ⟨q', hq', hyq⟩ := Option.bind_eq_some_iff.mp hy
  have hsame : q = q' :=
    channel_inj (hxq.trans hyq.symm) (by simpa [hxq] using hne) (by simp [hxq])
  refine Code.ext_bytes ?_
  rw [← ofCode_eq_some hq, ← ofCode_eq_some hq', hsame]

/-- What such a place shows does not depend on the order. -/
theorem shown_perm {items items' : List CodedReading}
    (hperm : items.Perm items') (hcodes : (items.map Prod.fst).Nodup)
    {channel : Channel} (hne : channel ≠ .activePower) :
    shown channel (told items) = shown channel (told items') :=
  callsOf_onChannel.lastOn_perm hperm
    (itemsOn_length_le_one hcodes (code_eq_of_channel hne))

/-! ## The place of the power -/

/-- Both powers are there, in different orders, and the one that is told last
is not the same number in the low half. -/
def Clash (before after : List CodedReading) : Prop :=
  ∃ i e : UInt32, e ≠ 0 ∧ (i.toNat + e.toNat) % 65536 ≠ 0 ∧
    (powerReadings before =
        [(importedPower, .uint32 i), (exportedPower, .uint32 e)] ∧
      powerReadings after =
        [(exportedPower, .uint32 e), (importedPower, .uint32 i)] ∨
    powerReadings before =
        [(exportedPower, .uint32 e), (importedPower, .uint32 i)] ∧
      powerReadings after =
        [(importedPower, .uint32 i), (exportedPower, .uint32 e)])

theorem Clash.symm {before after : List CodedReading}
    (h : Clash before after) : Clash after before := by
  obtain ⟨i, e, hne, hlow, ⟨hbefore, hafter⟩ | ⟨hbefore, hafter⟩⟩ := h
  · exact ⟨i, e, hne, hlow, Or.inr ⟨hafter, hbefore⟩⟩
  · exact ⟨i, e, hne, hlow, Or.inl ⟨hafter, hbefore⟩⟩

theorem not_clash_of_eq {before after : List CodedReading}
    (h : powerReadings before = powerReadings after) :
    ¬ Clash before after := by
  have hcodes : importedPower ≠ exportedPower := by decide
  rintro ⟨i, e, _, _, ⟨hbefore, hafter⟩ | ⟨hbefore, hafter⟩⟩
  · rw [hbefore, hafter] at h
    simp [hcodes] at h
  · rw [hbefore, hafter] at h
    simp [hcodes.symm] at h

theorem cutPower_eq_iff (i e : UInt32) :
    cutPower i e = i.toUInt16.toInt16 ↔
      ¬ (e ≠ 0 ∧ (i.toNat + e.toNat) % 65536 ≠ 0) := by
  rw [cutPower]
  split
  · next hzero => simp [hzero]
  · next hne =>
      rw [← Int16.toInt_inj, toInt_cut, toInt_neg_cut]
      constructor
      · intro h
        split at h <;> split at h <;> omega
      · intro h
        have hlow : (i.toNat + e.toNat) % 65536 = 0 :=
          Decidable.byContradiction fun hlow => h ⟨hne, hlow⟩
        split <;> split <;> omega

theorem shown_swapped_iff {before after : List CodedReading} {i e : UInt32}
    (hbefore : powerReadings before =
      [(importedPower, .uint32 i), (exportedPower, .uint32 e)])
    (hafter : powerReadings after =
      [(exportedPower, .uint32 e), (importedPower, .uint32 i)]) :
    shown .activePower (told before) = shown .activePower (told after) ↔
      ¬ Clash before after := by
  have hlast : shown .activePower (told after) =
      some (.activePower i.toUInt16.toInt16) := by
    rw [shown_told_power, hafter]
    exact List.getLast?_concat
  rw [shown_power hbefore, hlast, Option.some.injEq,
    MeterUpdate.activePower.injEq, cutPower_eq_iff, not_iff_not]
  constructor
  · rintro ⟨hne, hlow⟩
    exact ⟨i, e, hne, hlow, Or.inl ⟨hbefore, hafter⟩⟩
  · rintro ⟨i', e', hne, hlow, ⟨hbefore', _⟩ | ⟨hbefore', _⟩⟩
    · rw [hbefore] at hbefore'
      simp only [List.cons.injEq, Prod.mk.injEq, Reading.uint32.injEq,
        true_and, and_true] at hbefore'
      obtain ⟨rfl, rfl⟩ := hbefore'
      exact ⟨hne, hlow⟩
    · rw [hbefore] at hbefore'
      have hcodes : importedPower ≠ exportedPower := by decide
      simp [hcodes] at hbefore'

/-- Power is a number of 32 bits. -/
theorem uint32_of_permits {x : CodedReading} (hpermits : Permits x.1 x.2)
    (hcode : x.1 = importedPower ∨ x.1 = exportedPower) :
    ∃ v, x.2 = .uint32 v := by
  obtain ⟨code, r⟩ := x
  cases r with
  | uint32 v => exact ⟨v, rfl⟩
  | _ => rcases hcode with rfl | rfl <;> cases hpermits

/-- With different codes, there is one power at most, or there are both. -/
theorem powerReadings_cases {items : List CodedReading}
    (hcodes : (items.map Prod.fst).Nodup)
    (hpermits : ∀ x ∈ items, Permits x.1 x.2) :
    (powerReadings items).length ≤ 1 ∨ ∃ i e : UInt32,
      powerReadings items =
        [(importedPower, .uint32 i), (exportedPower, .uint32 e)] ∨
      powerReadings items =
        [(exportedPower, .uint32 e), (importedPower, .uint32 i)] := by
  have hnodup : ((powerReadings items).map Prod.fst).Nodup :=
    hcodes.sublist (List.filter_sublist.map Prod.fst)
  have hmem : ∀ x ∈ powerReadings items,
      (x.1 = importedPower ∨ x.1 = exportedPower) ∧ ∃ v, x.2 = .uint32 v := by
    intro x hx
    rw [powerReadings, List.mem_filter] at hx
    have hcode := of_decide_eq_true hx.2
    exact ⟨hcode, uint32_of_permits (hpermits x hx.1) hcode⟩
  have hsub : (powerReadings items).map Prod.fst ⊆
      [importedPower, exportedPower] := by
    intro code hcode
    obtain ⟨x, hx, rfl⟩ := List.mem_map.mp hcode
    exact List.mem_pair.mpr (hmem x hx).1
  have hle := (hnodup.subperm hsub).length_le
  rw [List.length_map] at hle
  rcases hsplit : powerReadings items with _ | ⟨⟨c, a⟩, _ | ⟨⟨d, b⟩, rest⟩⟩
  · exact Or.inl (by simp)
  · exact Or.inl (by simp)
  · rw [hsplit] at hle hnodup hmem
    obtain rfl : rest = [] := by
      simpa using hle
    obtain ⟨hc, v, rfl⟩ := hmem (c, a) (by simp)
    obtain ⟨hd, w, rfl⟩ := hmem (d, b) (by simp)
    have hne : c ≠ d := by simpa using hnodup
    refine Or.inr ?_
    rcases hc with rfl | rfl <;> rcases hd with rfl | rfl
    · exact absurd rfl hne
    · exact ⟨v, w, Or.inl rfl⟩
    · exact ⟨w, v, Or.inr rfl⟩
    · exact absurd rfl hne

theorem shown_power_perm_iff {before after : List CodedReading}
    (hperm : before.Perm after) (hcodes : (before.map Prod.fst).Nodup)
    (hpermits : ∀ x ∈ before, Permits x.1 x.2) :
    shown .activePower (told before) = shown .activePower (told after) ↔
      ¬ Clash before after := by
  have hpower : (powerReadings before).Perm (powerReadings after) :=
    hperm.filter _
  have hsame : powerReadings before = powerReadings after →
      (shown .activePower (told before) = shown .activePower (told after) ↔
        ¬ Clash before after) := by
    intro heq
    rw [shown_told_power, shown_told_power, heq]
    exact iff_of_true rfl (not_clash_of_eq heq)
  rcases powerReadings_cases hcodes hpermits with hone | ⟨i, e, heq | heq⟩
  · exact hsame (eq_of_perm_of_length_le_one hpower hone)
  · rw [heq] at hpower hsame
    rcases List.pair_perm.mp hpower with hafter | hafter
    · exact hsame hafter.symm
    · exact shown_swapped_iff heq hafter
  · rw [heq] at hpower hsame
    rcases List.pair_perm.mp hpower with hafter | hafter
    · exact hsame hafter.symm
    · rw [eq_comm, shown_swapped_iff hafter heq, not_iff_not]
      exact ⟨Clash.symm, Clash.symm⟩

/-! ## Two reports -/

theorem entries_permit (r : DistinctReport) :
    ∀ x ∈ r.entries.map coded, Permits x.1 x.2 := by
  intro x hx
  obtain ⟨y, hy, rfl⟩ := List.mem_map.mp hx
  exact r.permits y hy

/-- A report that gives every quantity once and the same report in another
order are both accepted, and the meter shows the same behind both, exactly
when the two powers do not clash. -/
theorem reordered_same_iff (r : DistinctReport)
    {order : List (Definition × Reading)} (h : order.Perm r.entries) :
    ((pduCall r.packet).succeeded = true ∧
      (pduCall (r.reordered h).packet).succeeded = true ∧
      ∀ channel, shown channel (pduCall r.packet).state.updates =
        shown channel (pduCall (r.reordered h).packet).state.updates) ↔
      ¬ Clash (r.entries.map coded) (order.map coded) := by
  have hperm : (r.entries.map coded).Perm (order.map coded) :=
    (h.map coded).symm
  have hcodes : ((r.entries.map coded).map Prod.fst).Nodup := by
    rw [entries_codes]
    exact r.distinct
  have hpower := shown_power_perm_iff hperm hcodes (entries_permit r)
  rw [distinct_updates, distinct_updates, r.reordered_entries h]
  constructor
  · rintro ⟨_, _, hshown⟩
    exact hpower.mp (hshown .activePower)
  · intro hclash
    refine ⟨distinct_succeeded r, distinct_succeeded _, fun channel => ?_⟩
    by_cases hne : channel = .activePower
    · rw [hne]
      exact hpower.mpr hclash
    · exact shown_perm hperm hcodes hne

/-- No imported power, and exported power of 3 W. -/
def exporting : DistinctReport where
  header := bigImport.header
  definitions := bigImport.definitions
  values := [.uint32 0, .uint32 3]
  header_len := bigImport.header_len
  definitions_le := bigImport.definitions_le
  known := bigImport.known
  distinct := by decide
  whole := by decide
  one_each := rfl
  permits := by
    intro x hx
    rcases List.mem_pair.mp hx with rfl | rfl
    · rfl
    · rfl
  size_le := by decide

def exportedFirst : List (Definition × Reading) :=
  [(powerDefinition exportedPower, .uint32 3),
    (powerDefinition importedPower, .uint32 0)]

theorem exportedFirst_perm : exportedFirst.Perm exporting.entries :=
  List.Perm.swap _ _ []

theorem reordered_same_iff_exporting :
    ((pduCall exporting.packet).succeeded = true ∧
      (pduCall (exporting.reordered exportedFirst_perm).packet).succeeded =
        true ∧
      ∀ channel, shown channel (pduCall exporting.packet).state.updates =
        shown channel (pduCall
          (exporting.reordered exportedFirst_perm).packet).state.updates) ↔
      ¬ Clash (exporting.entries.map coded) (exportedFirst.map coded) :=
  reordered_same_iff exporting exportedFirst_perm

/-- The exported power is overwritten. -/
theorem exportedFirst_not_shown :
    ¬ ∀ (r : DistinctReport) (order : List (Definition × Reading))
      (h : order.Perm r.entries),
      (pduCall r.packet).succeeded = true ∧
      (pduCall (r.reordered h).packet).succeeded = true ∧
      ∀ channel, shown channel (pduCall r.packet).state.updates =
        shown channel (pduCall (r.reordered h).packet).state.updates := by
  intro h
  have hsame := (h exporting _ exportedFirst_perm).2.2 .activePower
  have hfirst : shown .activePower (pduCall exporting.packet).state.updates =
      some (.activePower (-3)) := by decide +kernel
  have hsecond : shown .activePower (pduCall
      (exporting.reordered exportedFirst_perm).packet).state.updates =
      some (.activePower 0) := by decide +kernel
  rw [hfirst, hsecond] at hsame
  simp at hsame

end MBusMeter.Proofs
