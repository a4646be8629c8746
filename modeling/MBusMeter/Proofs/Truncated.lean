import MBusMeter.Proofs.PduUpdates
import MBusMeter.Spec.Truncated
import Mathlib.Data.List.Basic

/-!
# Reports cut short

A report of which only the front has come is read as far as it goes: the
values that are there in whole are published, and the one the cut goes through
is not. It is turned away, and the table is not overrun.

There is one exception. The skip over the content of an octet string is not
looked at, so where the cut goes through a content, the bytes of it that are
there are taken for the values that follow. What has been published before is
still right; what is published then was never sent as a value.
-/

namespace MBusMeter.Proofs

open Lib Firmware Firmware.Pdu Spec

/-! ## Where the cut goes -/

/-- The bytes before the cut are those of the whole values and of the part. -/
theorem cutValues_spec (vs : List Reading) :
    ∀ n, ∃ back, vs = (cutValues n vs).1 ++ back ∧
      (valuesWire vs).take n =
        valuesWire (cutValues n vs).1 ++ (cutValues n vs).2 ∧
      (back = [] ∧ (cutValues n vs).2 = [] ∧ (valuesWire vs).length ≤ n ∨
        ∃ v back' m, back = v :: back' ∧ m < v.wire.length ∧
          (cutValues n vs).2 = v.wire.take m) := by
  induction vs with
  | nil =>
      intro n
      exact ⟨[], rfl, List.take_nil, Or.inl ⟨rfl, rfl, Nat.zero_le n⟩⟩
  | cons v vs ih =>
      intro n
      rw [cutValues, valuesWire_cons]
      split
      · next hle =>
          obtain ⟨back, hvs, htake, hback⟩ := ih (n - v.wire.length)
          refine ⟨back, congrArg (v :: ·) hvs, ?_, ?_⟩
          · rw [List.take_append, List.take_of_length_le hle, htake,
              ← List.append_assoc]
            rfl
          · rcases hback with ⟨hnil, hpart, hlen⟩ | hback
            · refine Or.inl ⟨hnil, hpart, ?_⟩
              rw [List.length_append]
              omega
            · exact Or.inr hback
      · next hlt =>
          refine ⟨v :: vs, rfl, ?_, Or.inr ⟨v, vs, n, rfl, Nat.not_le.mp hlt,
            rfl⟩⟩
          rw [List.take_append_of_le_length (Nat.le_of_not_le hlt)]
          rfl

/-! ## What is made of the part -/

/-- Without the head of a string there is nothing to read. -/
theorem takeReading_part {v : Reading} (hwhole : v.Whole) {m : Nat}
    (hlt : m < v.wire.length)
    (hno : ∀ size content, ¬ IsHead (v.wire.take m) size content) :
    takeReading (v.wire.take m) = none := by
  cases v with
  | uint32 value =>
      have hlen : (Reading.uint32 value).wire.length = 5 := rfl
      rw [hlen] at hlt
      rcases m with _ | _ | _ | _ | _ | m
      · rfl
      · rfl
      · rfl
      · rfl
      · rfl
      · omega
  | uint16 value =>
      have hlen : (Reading.uint16 value).wire.length = 3 := rfl
      rw [hlen] at hlt
      rcases m with _ | _ | _ | m
      · rfl
      · rfl
      · rfl
      · omega
  | octets content hle =>
      rcases m with _ | _ | m
      · rfl
      · rfl
      · exact absurd rfl (hno content.length.toUInt8 (content.take m))
  | cut size => exact hwhole.elim

/-- A head is that of a string, and a part of its content is missing. -/
theorem head_of_part {v : Reading} (hwhole : v.Whole) {m : Nat}
    (hlt : m < v.wire.length) {size : UInt8} {content : List UInt8}
    (hhead : IsHead (v.wire.take m) size content) :
    v.kind = .octets ∧ (Reading.cut size).Fits content := by
  rcases m with _ | m
  · cases hhead
  cases v with
  | uint32 value => injection hhead with h; exact absurd h (by decide)
  | uint16 value => injection hhead with h; exact absurd h (by decide)
  | octets whole hle =>
      rcases m with _ | m
      · injection hhead with _ h
        cases h
      injection hhead with _ h
      injection h with hsize hcontent
      refine ⟨rfl, ?_⟩
      show content.length < size.toNat
      have hmissing : m < whole.length := by
        have hlen : (Reading.octets whole hle).wire.length =
          whole.length + 2 := rfl
        omega
      rw [← hcontent, ← hsize, List.length_take, Nat.toUInt8_eq,
        UInt8.toNat_ofNat']
      omega
  | cut size => exact hwhole.elim

/-! ## The values -/

theorem matches_append {front back : List Reading} :
    ∀ {codes : List Code}, Matches codes (front ++ back) →
      Matches codes front ∧ Matches (codes.drop front.length) back := by
  induction front with
  | nil => exact fun h => ⟨matches_nil _, h⟩
  | cons v front ih =>
      intro codes h
      rcases codes with _ | ⟨code, codes⟩
      · exact absurd h.1 (Nat.not_succ_le_zero _)
      · obtain ⟨hv, hrest⟩ := matches_cons.mp h
        obtain ⟨hfront, hback⟩ := ih hrest
        exact ⟨matches_cons.mpr ⟨hv, hfront⟩, hback⟩

theorem published_append (front back : List Reading) :
    ∀ codes : List Code, published codes (front ++ back) =
      published codes front ++ published (codes.drop front.length) back := by
  induction front with
  | nil =>
      intro codes
      rw [List.length_nil, List.drop_zero, published, List.nil_append,
        published, List.zip_nil_right]
      rfl
  | cons v front ih =>
      intro codes
      rcases codes with _ | ⟨code, codes⟩
      · rfl
      · rw [published, published, List.cons_append, List.zip_cons_cons,
          List.zip_cons_cons, List.flatMap_cons, List.flatMap_cons,
          List.append_assoc]
        exact congrArg (callsOf code v ++ ·) (ih codes)

/-- A string is not published. -/
theorem published_cut (codes : List Code) (size : UInt8)
    (more : List Reading) :
    published codes (.cut size :: more) = published (codes.drop 1) more := by
  rcases codes with _ | ⟨code, codes⟩
  · rfl
  · have hnone : callsOf code (.cut size) = [] := by
      rw [callsOf]
      split
      · next q _ => cases q <;> rfl
      · rfl
    rw [published, List.zip_cons_cons, List.flatMap_cons, hnone,
      List.nil_append]
    rfl

/-- With a code for every value there is, the table is not overrun. -/
theorem readValues_not_overrun {room count : Nat} {codes : List Code}
    (h : count ≤ codes.length) (bytes : List UInt8) :
    (readValues room codes count bytes).2 ≠ .overrun := by
  intro ho
  obtain ⟨_, _, _, _, hend⟩ := readValues_spec room count codes bytes
  rw [ho] at hend
  obtain ⟨hlt, hlen, _⟩ := hend
  omega

theorem readValues_leads (room count : Nat) (codes : List Code)
    (bytes : List UInt8) :
    Leads codes count bytes (readValues room codes count bytes).1 := by
  obtain ⟨hmatch, rest, hbytes, hfits, hend⟩ :=
    readValues_spec room count codes bytes
  refine ⟨rest, hbytes, hmatch, hfits, ?_⟩
  cases hread : (readValues room codes count bytes).2 with
  | done r =>
      rw [hread] at hend
      exact Or.inl hend.1
  | stuck =>
      rw [hread] at hend
      refine Or.inr ⟨hend.1, fun v r hrest hfit code hcode => ?_⟩
      rw [List.head?_drop] at hcode
      exact (hend.2 v r (by rw [hrest]; exact takeReading_wire hfit)).1 code
        hcode
  | overrun =>
      rw [hread] at hend
      refine Or.inr ⟨hend.1, fun v r _ _ code hcode => ?_⟩
      rw [List.drop_of_length_le (Nat.le_of_eq hend.2.1.symm)] at hcode
      cases hcode

theorem readValues_intact (room : Nat) {codes : List Code}
    {vs : List Reading} (hmatch : Matches codes vs)
    (hwhole : ∀ v ∈ vs, v.Whole) {n : Nat}
    (hno : ∀ size content, ¬ IsHead (cutValues n vs).2 size content) :
    (readValues room codes vs.length ((valuesWire vs).take n)).1 =
        (cutValues n vs).1 ∧
      (n < (valuesWire vs).length →
        (readValues room codes vs.length ((valuesWire vs).take n)).2 =
          .stuck) := by
  obtain ⟨back, hvs, htake, hback⟩ := cutValues_spec vs n
  rw [htake]
  generalize (cutValues n vs).1 = whole at *
  generalize (cutValues n vs).2 = part at *
  subst hvs
  obtain ⟨hfront, _⟩ := matches_append hmatch
  rw [List.length_append, readValues_append room whole codes back.length part
    hfront (fitsAll_of_whole (fun v hv =>
      hwhole v (List.mem_append_left _ hv)) part)]
  rcases hback with ⟨rfl, _, hlen⟩ | ⟨v, back, m, rfl, hm, hpart⟩
  · exact ⟨List.append_nil whole, fun h => absurd hlen (Nat.not_le.mpr h)⟩
  · have hnone : takeReading part = none := by
      rw [hpart] at hno ⊢
      exact takeReading_part (hwhole v
        (List.mem_append_right _ List.mem_cons_self)) hm hno
    rw [List.length_cons, readValues, hnone]
    exact ⟨List.append_nil whole, fun _ => rfl⟩

/-- Behind the head of a string, its content is read for values. -/
theorem readValues_torn (room : Nat) {codes : List Code}
    {vs : List Reading} (hmatch : Matches codes vs)
    (hwhole : ∀ v ∈ vs, v.Whole) {n : Nat} {size : UInt8}
    {content : List UInt8} (hhead : IsHead (cutValues n vs).2 size content) :
    ∃ more, Leads (codes.drop ((cutValues n vs).1.length + 1))
        (vs.length - ((cutValues n vs).1.length + 1)) content more ∧
      (readValues room codes vs.length ((valuesWire vs).take n)).1 =
        (cutValues n vs).1 ++ .cut size :: more := by
  obtain ⟨back, hvs, htake, hback⟩ := cutValues_spec vs n
  rw [htake]
  generalize (cutValues n vs).1 = whole at *
  generalize (cutValues n vs).2 = part at *
  subst hvs
  obtain ⟨hfront, hrest⟩ := matches_append hmatch
  rw [List.length_append, readValues_append room whole codes back.length part
    hfront (fitsAll_of_whole (fun v hv =>
      hwhole v (List.mem_append_left _ hv)) part)]
  rcases hback with ⟨_, rfl, _⟩ | ⟨v, back, m, rfl, hm, hpart⟩
  · cases hhead
  · rw [hpart] at hhead
    obtain ⟨hkind, hfits⟩ := head_of_part (hwhole v
      (List.mem_append_right _ List.mem_cons_self)) hm hhead
    have htaken : takeReading part = some (.cut size, content) := by
      rw [hpart, hhead]
      exact takeReading_wire hfits
    rcases hdrop : codes.drop whole.length with _ | ⟨code, rest⟩
    · rw [hdrop] at hrest
      exact absurd hrest.1 (Nat.not_succ_le_zero _)
    rw [hdrop] at hrest
    have hpermits : Permits code (.cut size) := by
      have hv := (matches_cons.mp hrest).1
      rw [Permits, hkind] at hv
      exact hv
    have hcodes : codes.drop (whole.length + 1) = rest := by
      rw [← List.drop_drop, hdrop, List.drop_one, List.tail_cons]
    have hcount : whole.length + (v :: back).length - (whole.length + 1) =
        back.length := by
      rw [List.length_cons]
      omega
    rw [hcodes, hcount, List.length_cons, readValues, htaken]
    simp only [if_pos hpermits]
    exact ⟨_, readValues_leads room back.length rest content, rfl⟩

/-! ## The front -/

theorem definition_wire_length (d : Definition) : 18 ≤ d.wire.length := by
  have hindex : ∀ i : Index, 3 ≤ i.wire.length := by
    intro i
    cases i with
    | short value => exact Nat.le_refl 3
    | long value => exact Nat.le_add_left 3 2
  have hclass := hindex d.classId
  have hdata := hindex d.dataIndex
  have hcode := d.code.len
  simp only [Definition.wire, List.length_append, List.length_cons,
    List.length_nil]
  omega

/-- No front of a report is a part of another. -/
theorem frontWire_proper {ds ds' : List Definition} {count count' : Nat}
    {rest : List UInt8} (hds : ds.length ≤ 255) (hds' : ds'.length ≤ 255)
    (hstop : StopsWhenFull MAX_FIELDS ds)
    (hstop' : StopsWhenFull MAX_FIELDS ds')
    (h : frontWire ds count = frontWire ds' count' ++ rest) : rest = [] := by
  injection h with _ h
  injection h with _ h
  injection h with _ h
  injection h with hlen h
  have heq : ds.length = ds'.length := by
    have hnat := congrArg UInt8.toNat hlen
    simp only [Nat.toUInt8_eq, UInt8.toNat_ofNat'] at hnat
    omega
  have htake := takeDefinitions_wire ds MAX_FIELDS [] hstop
  have htake' := takeDefinitions_wire ds' MAX_FIELDS rest hstop'
  rw [List.append_nil, heq] at htake
  change definitionsWire ds = definitionsWire ds' ++ rest at h
  rw [← h, htake] at htake'
  injection htake' with hpair
  injection hpair with _ hrest
  exact hrest.symm

/-- Nor is it read for one. -/
theorem scanBody_front_part {ds : List Definition} {count k : Nat}
    (hcount : count ≤ 254) (hds : ds.length ≤ 255)
    (hstop : StopsWhenFull MAX_FIELDS ds)
    (hk : k < (frontWire ds count).length) :
    scanBody ((frontWire ds count).take k) = ⟨[], [], .stuck⟩ := by
  rcases scanBody_cases ((frontWire ds count).take k) with
    hstuck | ⟨r, hempty, _⟩ | ⟨ds', count', r, _, hds', hstop', _, hbytes⟩
  · exact hstuck
  · rcases k with _ | _ | k
    · cases hempty
    · cases hempty
    · injection hempty with _ h
      injection h with h _
      have hnat := congrArg UInt8.toNat h
      simp only [Nat.toUInt8_eq, UInt8.toNat_ofNat', UInt8.toNat_zero] at hnat
      omega
  · have hsplit := List.take_append_drop k (frontWire ds count)
    rw [hbytes, List.append_assoc] at hsplit
    have hnil := frontWire_proper hds hds' hstop hstop' hsplit.symm
    have hdrop := congrArg List.length (List.append_eq_nil_iff.mp hnil).2
    rw [List.length_drop, List.length_nil] at hdrop
    omega

theorem skipped_length_le (n : Nat) (bytes : List UInt8) :
    (skipped n bytes).length ≤ bytes.length := by
  rw [skipped]
  split
  · rw [List.length_drop]
    exact Nat.sub_le _ _
  · exact Nat.le_refl _

theorem skipHeader_length_le (bytes : List UInt8) :
    (skipHeader bytes).length ≤ bytes.length :=
  calc (skipHeader bytes).length
    _ ≤ (skipped 1 (skipped 4 (skipped 1 bytes))).length :=
        skipped_length_le 12 _
    _ ≤ (skipped 4 (skipped 1 bytes)).length := skipped_length_le 1 _
    _ ≤ (skipped 1 bytes).length := skipped_length_le 4 _
    _ ≤ bytes.length := skipped_length_le 1 bytes

/-- In less than a header there is no room for a definition. -/
theorem scan_short {bytes : List UInt8} (h : bytes.length < 18) :
    published (scan bytes).codes (scan bytes).values = [] ∧
      (scan bytes).ending ≠ .overrun := by
  have hlen : (skipHeader bytes).length < 18 :=
    Nat.lt_of_le_of_lt (skipHeader_length_le bytes) h
  rw [scan]
  rcases scanBody_cases (skipHeader bytes) with hstuck | ⟨r, _, hdone⟩ |
    ⟨ds, count, r, hcount, hds, hstop, _, hbytes⟩
  · rw [hstuck]
    exact ⟨rfl, fun ho => by cases ho⟩
  · rw [hdone]
    exact ⟨rfl, fun ho => by cases ho⟩
  · rcases ds with _ | ⟨d, ds⟩
    · rw [hbytes, scanBody_front hcount hds hstop]
      refine ⟨rfl, fun ho => ?_⟩
      obtain ⟨_, _, _, _, hend⟩ := readValues_spec
        (MAX_FIELDS - (keptCodes []).length) count (keptCodes []) r
      rw [show (readValues _ _ count r).2 = .overrun from ho] at hend
      exact absurd hend.2.2.1 (by decide)
    · have hd := definition_wire_length d
      rw [hbytes, frontWire, definitionsWire_cons] at hlen
      simp only [List.length_append] at hlen
      omega

/-! ## The report -/

theorem upTo_bytes (r : Report) {n : Nat} (h : 18 ≤ n) :
    skipHeader (r.upTo n).bytes =
      (frontWire r.definitions r.values.length ++
        valuesWire r.values).take (n - 18) := by
  have hbytes : (r.upTo n).bytes = r.header ++
      (bodyWire r.definitions r.values).take (n - 18) := by
    show (r.header ++ bodyWire r.definitions r.values).take n = _
    rw [List.take_append, r.header_len,
      List.take_of_length_le (r.header_len.symm ▸ h)]
  rw [hbytes, skipHeader_append r.header_len]
  rfl

/-- Cut in front of the values, nothing is published. -/
theorem scan_upTo_front (r : Report) {n : Nat} (h : n < r.frontLen) :
    published (scan (r.upTo n).bytes).codes (scan (r.upTo n).bytes).values =
        [] ∧
      (scan (r.upTo n).bytes).ending ≠ .overrun ∧
      (18 ≤ n → (scan (r.upTo n).bytes).ending = .stuck) := by
  by_cases hn : 18 ≤ n
  · rw [Report.frontLen] at h
    have hscan : scan (r.upTo n).bytes = ⟨[], [], .stuck⟩ := by
      rw [scan, upTo_bytes r hn,
        List.take_append_of_le_length (by omega)]
      exact scanBody_front_part r.values_le r.definitions_le r.stops (by omega)
    rw [hscan]
    exact ⟨rfl, fun ho => (by cases ho), fun _ => rfl⟩
  · have hlen : (r.upTo n).bytes.length < 18 :=
      Nat.lt_of_le_of_lt (List.length_take_le n _) (Nat.not_le.mp hn)
    obtain ⟨hnone, hover⟩ := scan_short hlen
    exact ⟨hnone, hover, fun h => absurd h hn⟩

theorem scan_upTo_values (r : Report) {n : Nat} (h : r.frontLen ≤ n) :
    scan (r.upTo n).bytes =
      ⟨keptCodes r.definitions,
        (readValues (MAX_FIELDS - (keptCodes r.definitions).length)
          (keptCodes r.definitions) r.values.length
          ((valuesWire r.values).take (n - r.frontLen))).1,
        (readValues (MAX_FIELDS - (keptCodes r.definitions).length)
          (keptCodes r.definitions) r.values.length
          ((valuesWire r.values).take (n - r.frontLen))).2⟩ := by
  rw [Report.frontLen] at h ⊢
  rw [scan, upTo_bytes r (by omega), List.take_append,
    List.take_of_length_le (by omega), Nat.sub_sub]
  exact scanBody_front r.values_le r.definitions_le r.stops _

theorem packet_len (r : Report) :
    r.frontLen + (valuesWire r.values).length = r.packet.len := by
  show _ = (r.header ++ bodyWire r.definitions r.values).length
  rw [Report.frontLen, bodyWire, List.length_append, List.length_append,
    r.header_len, Nat.add_assoc]

theorem cutValues_front {r : Report} {n : Nat} (h : n < r.frontLen) :
    cutValues (n - r.frontLen) r.values = ([], []) := by
  rw [Nat.sub_eq_zero_of_le (Nat.le_of_lt h)]
  exact cutValues_zero r.values

theorem upTo_not_faulted (r : Report) (n : Nat) :
    (pduCall (r.upTo n)).faulted = false := by
  refine Bool.eq_false_iff.mpr fun hfault => ?_
  have hover := (pduCall_faulted _).mp hfault
  by_cases h : r.frontLen ≤ n
  · rw [scan_upTo_values r h] at hover
    exact readValues_not_overrun r.fits.1 _ hover
  · exact (scan_upTo_front r (Nat.not_le.mp h)).2.1 hover

/-- Where the cut does not go through a content, the values in front of it are
published. -/
theorem upTo_updates {r : Report} {n : Nat}
    (hno : ∀ size content, ¬ IsHead (r.torn n) size content) :
    (pduCall (r.upTo n)).state.updates =
      published (keptCodes r.definitions) (r.intact n) := by
  rw [pduCall_updates]
  by_cases h : r.frontLen ≤ n
  · rw [scan_upTo_values r h]
    exact congrArg _ (readValues_intact _ r.fits r.whole hno).1
  · have hfront := Nat.not_le.mp h
    rw [(scan_upTo_front r hfront).1, Report.intact, cutValues_front hfront,
      published, List.zip_nil_right]
    rfl

theorem upTo_rejected {r : Report} {n : Nat}
    (hno : ∀ size content, ¬ IsHead (r.torn n) size content) (hn : 18 ≤ n)
    (hlt : n < r.packet.len) : (pduCall (r.upTo n)).succeeded = false := by
  have hstuck : (scan (r.upTo n).bytes).ending = .stuck := by
    by_cases h : r.frontLen ≤ n
    · rw [scan_upTo_values r h]
      refine (readValues_intact _ r.fits r.whole hno).2 ?_
      rw [← packet_len r] at hlt
      omega
    · exact (scan_upTo_front r (Nat.not_le.mp h)).2.2 hn
  refine Bool.eq_false_iff.mpr fun hret => ?_
  have hdone := (pduCall_succeeded _).mp hret
  rw [hstuck] at hdone
  cases hdone

/-- Where it does, values of the content may follow. -/
theorem upTo_torn {r : Report} {n : Nat} {size : UInt8}
    {content : List UInt8} (hhead : IsHead (r.torn n) size content) :
    ∃ more, Leads ((keptCodes r.definitions).drop ((r.intact n).length + 1))
        (r.values.length - ((r.intact n).length + 1)) content more ∧
      (pduCall (r.upTo n)).state.updates =
        published (keptCodes r.definitions) (r.intact n) ++
          published ((keptCodes r.definitions).drop
            ((r.intact n).length + 1)) more := by
  rw [pduCall_updates]
  by_cases h : r.frontLen ≤ n
  · obtain ⟨more, hleads, hread⟩ := readValues_torn
      (MAX_FIELDS - (keptCodes r.definitions).length) r.fits r.whole hhead
    refine ⟨more, hleads, ?_⟩
    rw [scan_upTo_values r h]
    refine (congrArg (published _) hread).trans ?_
    rw [published_append, published_cut, List.drop_drop]
    rfl
  · rw [Report.torn, cutValues_front (Nat.not_le.mp h)] at hhead
    cases hhead

/-- A serial number and a current of 1. The number has bytes that read as a
current. -/
def serialReport : Report where
  header := List.replicate 18 0x0F
  definitions :=
    [{ classId := .short 1
       code := ⟨Quantity.serial.code, rfl⟩
       attr := 2
       dataIndex := .short 0 }, currentDefinition]
  values := [.octets [0x12, 0x00, 0x07, 0x2A] (by decide), .uint16 1]
  header_len := rfl
  definitions_le := by decide
  stops := stopsWhenFull_of_lt (by decide)
  known := by
    intro code hcode
    rcases List.mem_pair.mp hcode with rfl | rfl
    · exact ⟨.serial, rfl⟩
    · exact ⟨.current 0, rfl⟩
  values_le := by decide
  whole := by decide
  fits := by
    refine ⟨by decide, fun x hx => ?_⟩
    rcases List.mem_pair.mp hx with rfl | rfl
    · rfl
    · rfl
  size_le := by decide

/-- Without its last four bytes, the report is one of a current of 7. -/
example :
    (pduCall (serialReport.upTo (serialReport.packet.len - 4))).state.updates =
      [.rmsCurrent 0 7] := by
  decide +kernel

end MBusMeter.Proofs
