import MBusMeter.Proofs.PduScan

/-!
# Runs over the definitions and the values

What `scan` reads is the front of what it was given, piece by piece, and where
it stops there is a reason. Both directions are needed: what was read spells
the bytes it was read from, and bytes that are spelled so are read so.
-/

namespace MBusMeter.Proofs

open Lib Firmware Firmware.Pdu Spec

/-! ## Definitions -/

theorem keptCodes_cons (d : Definition) (ds : List Definition) :
    keptCodes (d :: ds) =
      if d.attr = 2 then d.code :: keptCodes ds else keptCodes ds := by
  by_cases h : d.attr = 2 <;> simp [keptCodes, h]

theorem keptCodes_append (as bs : List Definition) :
    keptCodes (as ++ bs) = keptCodes as ++ keptCodes bs := by
  rw [keptCodes, List.filter_append, List.map_append]
  rfl

theorem definitionsWire_cons (d : Definition) (ds : List Definition) :
    definitionsWire (d :: ds) = d.wire ++ definitionsWire ds := rfl

/-- The room left behind a definition. -/
def roomBehind (room : Nat) (d : Definition) : Nat :=
  if d.attr = 2 then room else room + 1

theorem stopsWhenFull_cons {room : Nat} {d : Definition}
    {ds : List Definition} :
    StopsWhenFull (room + 1) (d :: ds) ↔
      StopsWhenFull (roomBehind room d) ds := by
  have hlen : ∀ front, (keptCodes (d :: front)).length < room + 1 ↔
      (keptCodes front).length < roomBehind room d := by
    intro front
    rw [keptCodes_cons, roomBehind]
    split
    · rw [List.length_cons]
      omega
    · exact Iff.rfl
  constructor
  · intro h front x back heq
    exact (hlen front).mp (h (d :: front) x back (by rw [heq]; rfl))
  · intro h front x back heq
    rcases front with _ | ⟨y, front⟩
    · exact Nat.succ_pos room
    · cases heq
      exact (hlen front).mpr (h front x back rfl)

/-- With fewer codes than there is room for, nothing is ever full. -/
theorem stopsWhenFull_of_lt {room : Nat} {ds : List Definition}
    (h : (keptCodes ds).length < room) : StopsWhenFull room ds := by
  intro front d back heq
  rw [heq, keptCodes_append, List.length_append] at h
  omega

theorem takeDefinitions_wire (ds : List Definition) :
    ∀ (room : Nat) (r : List UInt8), StopsWhenFull room ds →
      takeDefinitions room ds.length (definitionsWire ds ++ r) =
        some (ds, r) := by
  induction ds with
  | nil =>
      intro room r _
      cases room <;> rfl
  | cons d ds ih =>
      intro room r hstop
      rcases room with _ | room
      · exact absurd (hstop [] d ds rfl) (Nat.not_lt_zero _)
      · rw [definitionsWire_cons, List.append_assoc, List.length_cons,
          takeDefinitions, takeDefinition_wire]
        simp only [Option.bind_some]
        rw [← roomBehind, ih _ r (stopsWhenFull_cons.mp hstop)]
        rfl

theorem takeDefinitions_eq_some (count : Nat) :
    ∀ {room : Nat} {bytes r : List UInt8} {ds : List Definition},
      takeDefinitions room count bytes = some (ds, r) →
        ds.length = count ∧ bytes = definitionsWire ds ++ r ∧
          StopsWhenFull room ds ∧ (keptCodes ds).length ≤ room := by
  induction count with
  | zero =>
      intro room bytes r ds h
      have hnil : ds = [] ∧ bytes = r := by
        cases room <;> (cases h; exact ⟨rfl, rfl⟩)
      obtain ⟨rfl, rfl⟩ := hnil
      exact ⟨rfl, rfl, fun front d back h => by simp at h, Nat.zero_le _⟩
  | succ count ih =>
      intro room bytes r ds h
      rcases room with _ | room
      · cases h
      · rw [takeDefinitions] at h
        obtain ⟨⟨d, r₁⟩, hd, h⟩ := Option.bind_eq_some_iff.mp h
        obtain ⟨⟨ds', r₂⟩, hds, h⟩ := Option.bind_eq_some_iff.mp h
        cases h
        obtain ⟨hlen, hbytes, hstop, hroom⟩ := ih hds
        refine ⟨by rw [List.length_cons, hlen], ?_,
          stopsWhenFull_cons.mpr hstop, ?_⟩
        · rw [takeDefinition_eq_some hd, hbytes, definitionsWire_cons,
            List.append_assoc]
        · rw [keptCodes_cons]
          split
          · next hattr =>
              rw [if_pos hattr] at hroom
              rw [List.length_cons]
              omega
          · next hattr =>
              rw [if_neg hattr] at hroom
              exact hroom

/-! ## Values -/

theorem valuesWire_cons (v : Reading) (vs : List Reading) :
    valuesWire (v :: vs) = v.wire ++ valuesWire vs := rfl

theorem matches_cons {code : Code} {codes : List Code} {v : Reading}
    {vs : List Reading} :
    Matches (code :: codes) (v :: vs) ↔ Permits code v ∧ Matches codes vs := by
  simp only [Matches, List.zip_cons_cons, List.length_cons,
    List.forall_mem_cons, Nat.add_le_add_iff_right]
  exact ⟨fun ⟨hlen, hv, hvs⟩ => ⟨hv, hlen, hvs⟩,
    fun ⟨hv, hlen, hvs⟩ => ⟨hlen, hv, hvs⟩⟩

theorem matches_nil (codes : List Code) : Matches codes [] :=
  ⟨Nat.zero_le _, by simp⟩

/-- Values that are there are read, and the run goes on behind them. -/
theorem readValues_append (room : Nat) (vs : List Reading) :
    ∀ (codes : List Code) (count : Nat) (rest : List UInt8),
      Matches codes vs → FitsAll vs rest →
      readValues room codes (vs.length + count) (valuesWire vs ++ rest) =
        (vs ++ (readValues room (codes.drop vs.length) count rest).1,
          (readValues room (codes.drop vs.length) count rest).2) := by
  induction vs with
  | nil =>
      intro codes count rest _ _
      rw [List.length_nil, Nat.zero_add]
      rfl
  | cons v vs ih =>
      intro codes count rest hmatch hfits
      rcases codes with _ | ⟨code, codes⟩
      · exact absurd hmatch.1 (Nat.not_succ_le_zero _)
      · obtain ⟨hv, hvs⟩ := matches_cons.mp hmatch
        rw [valuesWire_cons, List.append_assoc, List.length_cons,
          Nat.add_right_comm, readValues, takeReading_wire hfits.1]
        simp only [if_pos hv, ih codes count rest hvs hfits.2]
        rfl

/-- Why a run over the values ends where it does. -/
def EndsAt (room : Nat) (codes : List Code) (count : Nat)
    (vs : List Reading) (rest : List UInt8) : Ending → Prop
  | .done r => vs.length = count ∧ r = rest
  | .stuck => vs.length < count ∧ ∀ v r, takeReading rest = some (v, r) →
      (∀ code ∈ codes[vs.length]?, ¬ Permits code v) ∧
        (vs.length = codes.length → 0 < room)
  | .overrun => vs.length < count ∧ vs.length = codes.length ∧ room = 0 ∧
      ∃ v r, takeReading rest = some (v, r)

theorem EndsAt.cons {room count : Nat} {codes : List Code}
    {vs : List Reading} {rest : List UInt8} {e : Ending}
    (h : EndsAt room codes count vs rest e) (code : Code) (v : Reading) :
    EndsAt room (code :: codes) (count + 1) (v :: vs) rest e := by
  cases e with
  | done r => exact ⟨congrArg Nat.succ h.1, h.2⟩
  | stuck =>
      refine ⟨Nat.succ_lt_succ h.1, fun v' r htake => ?_⟩
      obtain ⟨hcode, hroom⟩ := h.2 v' r htake
      exact ⟨hcode, fun heq => hroom (Nat.succ.inj heq)⟩
  | overrun =>
      exact ⟨Nat.succ_lt_succ h.1, congrArg Nat.succ h.2.1, h.2.2⟩

/-- What was read was there, of the right types, and the end has its
reason. -/
theorem readValues_spec (room count : Nat) :
    ∀ (codes : List Code) (bytes : List UInt8),
      Matches codes (readValues room codes count bytes).1 ∧
      ∃ rest,
        bytes = valuesWire (readValues room codes count bytes).1 ++ rest ∧
        FitsAll (readValues room codes count bytes).1 rest ∧
        EndsAt room codes count (readValues room codes count bytes).1 rest
          (readValues room codes count bytes).2 := by
  induction count with
  | zero =>
      intro codes bytes
      exact ⟨matches_nil codes, bytes, rfl, trivial, rfl, rfl⟩
  | succ count ih =>
      intro codes bytes
      rw [readValues]
      split
      · next htake =>
          refine ⟨matches_nil _, bytes, rfl, trivial, Nat.succ_pos _, ?_⟩
          intro v r h
          rw [htake] at h
          cases h
      · next v r htake =>
          split
          · refine ⟨matches_nil _, bytes, rfl, trivial, ?_⟩
            split
            · next hroom => exact ⟨Nat.succ_pos _, rfl, hroom, v, r, htake⟩
            · next hroom =>
                refine ⟨Nat.succ_pos _, fun _ _ _ => ⟨?_, fun _ => ?_⟩⟩
                · intro code hcode
                  cases hcode
                · omega
          · next code codes =>
              split
              · next hpermits =>
                  obtain ⟨hmatch, rest, hbytes, hfits, hend⟩ := ih codes r
                  obtain ⟨hwire, hfit⟩ := takeReading_eq_some htake
                  refine ⟨matches_cons.mpr ⟨hpermits, hmatch⟩, rest, ?_, ?_,
                    hend.cons code v⟩
                  · rw [hwire, valuesWire_cons, List.append_assoc, ← hbytes]
                  · exact ⟨by rw [← hbytes]; exact hfit, hfits⟩
              · next hpermits =>
                  refine ⟨matches_nil _, bytes, rfl, trivial,
                    Nat.succ_pos _, fun v' r' h => ?_⟩
                  rw [htake] at h
                  cases h
                  refine ⟨fun code' hcode => ?_, fun h => ?_⟩
                  · cases hcode
                    exact hpermits
                  · exact absurd h (Nat.succ_ne_zero _).symm

/-! ## The whole -/

/-- The front of a report is read, and the values are read behind it. -/
theorem scanBody_front {ds : List Definition} {count : Nat}
    (hcount : count ≤ 254) (hds : ds.length ≤ 255)
    (hstop : StopsWhenFull MAX_FIELDS ds) (r : List UInt8) :
    scanBody (frontWire ds count ++ r) =
      ⟨keptCodes ds,
        (readValues (MAX_FIELDS - (keptCodes ds).length) (keptCodes ds)
          count r).1,
        (readValues (MAX_FIELDS - (keptCodes ds).length) (keptCodes ds)
          count r).2⟩ := by
  have hq : (count + 1).toUInt8.toNat = count + 1 := by
    simp only [Nat.toUInt8_eq, UInt8.toNat_ofNat']
    omega
  have hm : ds.length.toUInt8.toNat = ds.length := by
    simp only [Nat.toUInt8_eq, UInt8.toNat_ofNat']
    omega
  have hne : (count + 1).toUInt8 ≠ 0 := by
    intro h
    rw [h] at hq
    cases hq
  show scanBody (0x02 :: (count + 1).toUInt8 :: 0x01 :: ds.length.toUInt8 ::
    (definitionsWire ds ++ r)) = _
  rw [scanBody, if_pos (show Types.ofByte 0x02 = some .structureType from rfl),
    if_neg hne, scanMembers,
    if_pos (show Types.ofByte 0x01 = some .arrayType from rfl), hm, hq,
    takeDefinitions_wire ds MAX_FIELDS r hstop]
  rfl

/-- What `scan` finds: nothing, an empty report, or the front of one. -/
theorem scanBody_cases (bytes : List UInt8) :
    scanBody bytes = ⟨[], [], .stuck⟩ ∨
    (∃ r, bytes = [0x02, 0x00] ++ r ∧ scanBody bytes = ⟨[], [], .done r⟩) ∨
    ∃ ds count r, count ≤ 254 ∧ ds.length ≤ 255 ∧
      StopsWhenFull MAX_FIELDS ds ∧ (keptCodes ds).length ≤ MAX_FIELDS ∧
      bytes = frontWire ds count ++ r := by
  rcases bytes with _ | ⟨type, _ | ⟨quantity, r⟩⟩
  · exact Or.inl rfl
  · exact Or.inl rfl
  rw [scanBody]
  split
  · next htype =>
      rw [ofByte_eq_some htype]
      split
      · next hzero =>
          rw [hzero]
          exact Or.inr (Or.inl ⟨r, rfl, rfl⟩)
      · next hne =>
          rcases r with _ | ⟨type', _ | ⟨quantity', r⟩⟩
          · exact Or.inl rfl
          · exact Or.inl rfl
          rw [scanMembers]
          split
          · next htype' =>
              split
              · exact Or.inl rfl
              · next ds r' htake =>
                  obtain ⟨hlen, hbytes, hstop, hroom⟩ :=
                    takeDefinitions_eq_some _ htake
                  have hq := quantity.toNat_lt
                  have hq' := quantity'.toNat_lt
                  have hpos : quantity.toNat ≠ 0 :=
                    fun h => hne (UInt8.toNat_inj.mp h)
                  refine Or.inr (Or.inr ⟨ds, quantity.toNat - 1, r', by omega,
                    by omega, hstop, hroom, ?_⟩)
                  rw [ofByte_eq_some htype', hbytes, frontWire, hlen,
                    Nat.sub_add_cancel (Nat.pos_of_ne_zero hpos)]
                  simp [typeByte]
          · exact Or.inl rfl
  · exact Or.inl rfl

end MBusMeter.Proofs
