import MBusMeter.Proofs.PduDecode

/-!
# What is accepted, and what is decoded

A report that keeps to the format is decoded, and the meter is told its values
one by one. The other direction has two holes, both of them skips that are not
looked at: a buffer shorter than the header is read from where the skips left
off, and the head of an octet string is taken for the string when there are
fewer bytes behind it than it asks for. What gets through one of them is
accepted and is no report.
-/

namespace MBusMeter.Proofs

open Lib Firmware Firmware.Pdu Spec

theorem Whole.fits {v : Reading} (h : v.Whole) (rest : List UInt8) :
    v.Fits rest := by
  cases v with
  | cut size => exact h.elim
  | _ => trivial

theorem fitsAll_of_whole {vs : List Reading} (h : ∀ v ∈ vs, v.Whole)
    (rest : List UInt8) : FitsAll vs rest := by
  induction vs with
  | nil => trivial
  | cons v vs ih =>
      exact ⟨Whole.fits (h v List.mem_cons_self) _,
        ih fun x hx => h x (List.mem_cons_of_mem v hx)⟩

/-- Values that are there to the end are all read. -/
theorem readValues_all (room : Nat) {codes : List Code} {vs : List Reading}
    {rest : List UInt8} (hmatch : Matches codes vs) (hfits : FitsAll vs rest) :
    readValues room codes vs.length (valuesWire vs ++ rest) =
      (vs, .done rest) := by
  have hread := readValues_append room vs codes 0 rest hmatch hfits
  rw [Nat.add_zero, readValues, List.append_nil] at hread
  exact hread

theorem scanBody_bodyWire {ds : List Definition} {vs : List Reading}
    (hvs : vs.length ≤ 254) (hds : ds.length ≤ 255)
    (hstop : StopsWhenFull MAX_FIELDS ds) (hmatch : Matches (keptCodes ds) vs)
    (hfits : FitsAll vs []) :
    scanBody (bodyWire ds vs) = ⟨keptCodes ds, vs, .done []⟩ := by
  have hread := readValues_all (MAX_FIELDS - (keptCodes ds).length) hmatch hfits
  rw [List.append_nil] at hread
  rw [bodyWire, scanBody_front hvs hds hstop, hread]

theorem skipped_of_le {n : Nat} {bytes : List UInt8} (h : n ≤ bytes.length) :
    skipped n bytes = bytes.drop n := if_pos h

theorem skipHeader_of_le {bytes : List UInt8} (h : 18 ≤ bytes.length) :
    skipHeader bytes = bytes.drop 18 := by
  have h₁ : skipped 1 bytes = bytes.drop 1 := skipped_of_le (by omega)
  have h₂ : skipped 4 (bytes.drop 1) = bytes.drop 5 := by
    rw [skipped_of_le (by rw [List.length_drop]; omega), List.drop_drop]
  have h₃ : skipped 1 (bytes.drop 5) = bytes.drop 6 := by
    rw [skipped_of_le (by rw [List.length_drop]; omega), List.drop_drop]
  rw [skipHeader, h₁, h₂, h₃,
    skipped_of_le (by rw [List.length_drop]; omega), List.drop_drop]

theorem skipHeader_append {header body : List UInt8}
    (h : header.length = 18) : skipHeader (header ++ body) = body := by
  rw [skipHeader_of_le (by rw [List.length_append]; omega), ← h,
    List.drop_left]

theorem scan_report (r : Report) :
    scan r.packet.bytes = ⟨keptCodes r.definitions, r.values, .done []⟩ := by
  rw [scan, Report.packet, skipHeader_append r.header_len]
  exact scanBody_bodyWire r.values_le r.definitions_le r.stops r.fits
    (fitsAll_of_whole r.whole [])

/-- `pdu_decode` inverts the encoding: a report is accepted, and the meter is
told its values in order, each under its own code. -/
theorem pduDecode_report (r : Report) :
    ∃ call, pduCall r.packet = .ok ⟨⟩ call ∧
      call.updates = published (keptCodes r.definitions) r.values := by
  have hverdict := pduCall_verdict r.packet
  rw [scan_report r] at hverdict
  exact hverdict

/-! ## What is accepted -/

/-- With skips that come to nothing, the bytes are read as a report: behind a
header that is not there, or with the head of an octet string for a value. -/
def SkipsPastEnd (bytes : List UInt8) : Prop :=
  (bytes.length < 18 ∧ skipHeader bytes = [0x02, 0x00]) ∨
  ∃ ds vs, ds.length ≤ 255 ∧ StopsWhenFull MAX_FIELDS ds ∧ vs.length ≤ 254 ∧
    Matches (keptCodes ds) vs ∧ FitsAll vs [] ∧
    skipHeader bytes = bodyWire ds vs ∧
    (bytes.length < 18 ∨ ∃ v ∈ vs, ¬ v.Whole)

/-- What is accepted is an empty structure or a report, as the skips have
it. -/
theorem accepted_cases {bytes : List UInt8}
    (h : (scan bytes).ending = .done []) :
    skipHeader bytes = [0x02, 0x00] ∨
    ∃ ds vs, ds.length ≤ 255 ∧ StopsWhenFull MAX_FIELDS ds ∧ vs.length ≤ 254 ∧
      Matches (keptCodes ds) vs ∧ FitsAll vs [] ∧
      skipHeader bytes = bodyWire ds vs := by
  rw [scan] at h
  rcases scanBody_cases (skipHeader bytes) with
    hstuck | ⟨r, hbytes, hdone⟩ |
      ⟨ds, count, r, hcount, hds, hstop, _, hbytes⟩
  · rw [hstuck] at h
    cases h
  · rw [hdone] at h
    cases h
    exact Or.inl hbytes
  · rw [hbytes, scanBody_front hcount hds hstop] at h
    obtain ⟨hmatch, rest, hr, hfits, hend⟩ := readValues_spec
      (MAX_FIELDS - (keptCodes ds).length) count (keptCodes ds) r
    generalize readValues (MAX_FIELDS - (keptCodes ds).length) (keptCodes ds)
      count r = read at h hmatch hr hfits hend
    obtain ⟨vs, e⟩ := read
    cases h
    obtain ⟨hlen, hnil⟩ : vs.length = count ∧ [] = rest := hend
    subst hnil hlen
    refine Or.inr ⟨ds, vs, hds, hstop, hcount, hmatch, hfits, ?_⟩
    rw [hbytes, hr, List.append_nil, bodyWire]

/-- The definitions can be told from what follows them. -/
theorem definitionsWire_inj {ds ds' : List Definition} {r r' : List UInt8}
    (hlen : ds.length = ds'.length)
    (h : definitionsWire ds ++ r = definitionsWire ds' ++ r') :
    ds = ds' ∧ r = r' := by
  induction ds generalizing ds' with
  | nil =>
      obtain rfl := List.length_eq_zero_iff.mp hlen.symm
      exact ⟨rfl, h⟩
  | cons d ds ih =>
      rcases ds' with _ | ⟨d', ds'⟩
      · cases hlen
      · rw [definitionsWire_cons, definitionsWire_cons, List.append_assoc,
          List.append_assoc] at h
        have hhead := takeDefinition_wire d (definitionsWire ds ++ r)
        rw [h, takeDefinition_wire] at hhead
        simp only [Option.some.injEq, Prod.mk.injEq] at hhead
        obtain ⟨rfl, htail⟩ := hhead
        obtain ⟨rfl, rfl⟩ := ih (Nat.succ.inj hlen) htail.symm
        exact ⟨rfl, rfl⟩

/-- The front of a report can be told from what follows it. -/
theorem frontWire_inj {ds ds' : List Definition} {count count' : Nat}
    {r r' : List UInt8} (hds : ds.length ≤ 255) (hds' : ds'.length ≤ 255)
    (hcount : count ≤ 254) (hcount' : count' ≤ 254)
    (h : frontWire ds count ++ r = frontWire ds' count' ++ r') :
    ds = ds' ∧ count = count' ∧ r = r' := by
  have hbyte : ∀ {m n : Nat}, m ≤ 255 → n ≤ 255 → m.toUInt8 = n.toUInt8 →
      m = n := by
    intro m n hm hn heq
    have hnat := congrArg UInt8.toNat heq
    simp only [Nat.toUInt8_eq, UInt8.toNat_ofNat'] at hnat
    omega
  simp only [frontWire, List.cons_append, List.nil_append, List.cons.injEq,
    true_and] at h
  obtain ⟨hq, hm, hrest⟩ := h
  obtain ⟨rfl, rfl⟩ := definitionsWire_inj (hbyte hds hds' hm) hrest
  exact ⟨rfl, Nat.succ.inj (hbyte (by omega) (by omega) hq), rfl⟩

/-- One way to read a report, however its strings are read. -/
theorem values_unique {ds ds' : List Definition} {vs vs' : List Reading}
    (hds : ds.length ≤ 255) (hvs : vs.length ≤ 254) (hds' : ds'.length ≤ 255)
    (hvs' : vs'.length ≤ 254) (hmatch : Matches (keptCodes ds) vs)
    (hmatch' : Matches (keptCodes ds') vs') (hfits : FitsAll vs [])
    (hfits' : FitsAll vs' []) (h : bodyWire ds vs = bodyWire ds' vs') :
    vs = vs' := by
  obtain ⟨rfl, hlen, hwire⟩ := frontWire_inj hds hds' hvs hvs' h
  have hread := readValues_all 0 hmatch hfits
  rw [hlen, hwire, readValues_all 0 hmatch' hfits'] at hread
  exact (congrArg Prod.fst hread).symm

/-- What is accepted is a report, exactly when no skip past the end has its
hand in it. -/
theorem accepts_grammar_iff (buffer : Buffer) :
    ((pduCall buffer).succeeded = true → InGrammar buffer.bytes) ↔
      ¬ SkipsPastEnd buffer.bytes := by
  rw [pduCall_succeeded]
  constructor
  · intro h hskip
    have hshort : (scan buffer.bytes).ending = .done [] →
        ¬ buffer.bytes.length < 18 := by
      intro hdone hlt
      obtain ⟨header, hheader, hwire⟩ := h hdone
      rcases hwire with hwire | ⟨ds, vs, _, _, _, _, hwire⟩ <;>
        rw [hwire, List.length_append, hheader] at hlt <;> omega
    rcases hskip with ⟨hlt, hempty⟩ |
      ⟨ds, vs, hds, hstop, hvs, hmatch, hfits, hbody, hwrong⟩
    · exact hshort (by rw [scan, hempty]; rfl) hlt
    · have hscan := scanBody_bodyWire hvs hds hstop hmatch hfits
      rw [← hbody, ← scan] at hscan
      have hdone : (scan buffer.bytes).ending = .done [] := by rw [hscan]
      rcases hwrong with hlt | ⟨v, hv, hcut⟩
      · exact hshort hdone hlt
      · obtain ⟨header, hheader, hwire⟩ := h hdone
        rcases hwire with hwire | ⟨ds', vs', hds', hvs', hwhole, hmatch', hwire⟩
        · rw [hwire, skipHeader_append hheader] at hbody
          have hlen := congrArg List.length hbody
          simp only [bodyWire, frontWire, List.length_append, List.length_cons,
            List.length_nil] at hlen
          omega
        · rw [hwire, skipHeader_append hheader] at hbody
          obtain rfl := values_unique hds' hvs' hds hvs hmatch' hmatch
            (fitsAll_of_whole hwhole []) hfits hbody
          exact hcut (hwhole v hv)
  · intro hno hdone
    have hcases := accepted_cases hdone
    by_cases hlen : buffer.bytes.length < 18
    · refine absurd ?_ hno
      rcases hcases with hempty |
        ⟨ds, vs, hds, hstop, hvs, hmatch, hfits, hbody⟩
      · exact Or.inl ⟨hlen, hempty⟩
      · exact Or.inr ⟨ds, vs, hds, hstop, hvs, hmatch, hfits, hbody,
          Or.inl hlen⟩
    · have hsplit := (List.take_append_drop 18 buffer.bytes).symm
      rw [← skipHeader_of_le (Nat.not_lt.mp hlen)] at hsplit
      refine ⟨buffer.bytes.take 18, ?_, ?_⟩
      · rw [List.length_take]
        omega
      · rcases hcases with hempty |
          ⟨ds, vs, hds, hstop, hvs, hmatch, hfits, hbody⟩
        · rw [hempty] at hsplit
          exact Or.inl hsplit
        · rw [hbody] at hsplit
          refine Or.inr ⟨ds, vs, hds, hvs, fun v hv => ?_, hmatch, hsplit⟩
          refine Decidable.byContradiction fun hcut => hno (Or.inr ⟨ds, vs, hds,
            hstop, hvs, hmatch, hfits, hbody, Or.inr ⟨v, hv, hcut⟩⟩)

/-- Two bytes of what should be a header and an empty structure. -/
def shortPacket : Buffer := ⟨[0x0F, 0x00, 0x02, 0x00], by decide⟩

/-- They are accepted. -/
theorem short_packet_accepted :
    ¬ ∀ buffer : Buffer,
      (pduCall buffer).succeeded = true → InGrammar buffer.bytes := by
  intro h
  obtain ⟨header, hheader, hwire⟩ := h shortPacket (by decide +kernel)
  have hlen : shortPacket.bytes.length = 4 := rfl
  rcases hwire with hwire | ⟨ds, vs, _, _, _, _, hwire⟩ <;>
    rw [hwire, List.length_append, hheader] at hlen <;> omega

end MBusMeter.Proofs
