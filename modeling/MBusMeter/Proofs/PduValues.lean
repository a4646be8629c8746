import MBusMeter.Proofs.PduDefinitions

/-!
# The values

In state `DATAS` an item is a value, and the entry at `curUseField` says what
of. The three types of values go through the same motions: the entry's code is
compared with the codes of that type, one after the other, and the meter is
told, or the value is turned away. An entry behind the last code that was kept
holds no code and turns everything away; past the last entry there is nothing
to compare with.
-/

namespace MBusMeter.Proofs

open Lib Firmware Firmware.Pdu Spec

theorem Quantity.mem_all (q : Quantity) : q ∈ Quantity.all := by
  cases q with
  | importedTier tier => revert tier; decide
  | exportedTier tier => revert tier; decide
  | current phase => revert phase; decide
  | voltage phase => revert phase; decide
  | _ => decide

theorem ofCode_eq_some {code : List UInt8} {q : Quantity}
    (h : Quantity.ofCode code = some q) : q.code = code := by
  simpa using List.find?_some h

theorem ofCode_eq_none {code : List UInt8} (h : Quantity.ofCode code = none)
    (q : Quantity) : code ≠ q.code := by
  intro heq
  have hno : ∀ q ∈ Quantity.all, ¬ q.code = code := by
    simpa [Quantity.ofCode] using h
  exact hno q (Quantity.mem_all q) heq.symm

/-- The code the next value goes by, where the table has one. -/
def useCode (values : StateValues) (h : values.curUseField < MAX_FIELDS) :
    List UInt8 :=
  values.fields[values.curUseField].field2

theorem curFieldIs_of_lt {call : Call} (field : List UInt8)
    (h : call.values.curUseField < MAX_FIELDS) :
    curFieldIs field call =
      .ok (decide (useCode call.values h = field)) call := by
  rw [curFieldIs, fieldAt, Proc.bind_of_ok (dif_pos h)]
  rfl

theorem fieldAt_of_ge {i : StateValues → Nat} {call : Call}
    (h : MAX_FIELDS ≤ i call.values) :
    fieldAt i call = .fault .fieldIndex call := dif_neg (Nat.not_lt.mpr h)

theorem wrongType_of_lt {call : Call}
    (h : call.values.curUseField < MAX_FIELDS) :
    wrongType call = .fail call := by
  rw [wrongType, fieldAt, Proc.bind_of_ok (dif_pos h)]
  rfl

/-- One test of the entry, and what hangs on it. -/
theorem curFieldIs_bind {call : Call} {field : List UInt8}
    {m k : Proc Fault Call PUnit}
    (h : call.values.curUseField < MAX_FIELDS) :
    (curFieldIs field >>= fun b => if b = true then m else k) call =
      if useCode call.values h = field then m call else k call := by
  rw [Proc.bind_of_ok (curFieldIs_of_lt field h), Proc.ite_apply]
  simp only [decide_eq_true_eq]

/-- Nothing exported, nothing told; else the negative power, and its low half
is the negative of the low half. -/
theorem exportedPower_eq (value : UInt32) (call : Call) :
    (if value > 0 then update (.activePower (-value).toUInt16.toInt16)
      else pure ⟨⟩ : Proc Fault Call PUnit) call =
      .ok ⟨⟩ { call with updates := call.updates ++
        Quantity.exportedPower.calls (.uint32 value) } := by
  rw [Proc.ite_apply, Quantity.calls]
  by_cases hzero : value = 0
  · subst hzero
    simp
  · have hpos : value > 0 := UInt32.pos_iff_ne_zero.mpr hzero
    rw [if_pos hpos, if_neg hzero, UInt32.toUInt16_neg, UInt16.toInt16_neg]
    rfl

/-- A procedure tells the meter about a reading, if the entry's code is one of
the reading's type. -/
structure Publishes (m : Proc Fault Call PUnit) (r : Reading) (call : Call)
    (stream : Firmware.Stream) : Prop where
  past : MAX_FIELDS ≤ call.values.curUseField →
    m call = .fault .fieldIndex call
  known : ∀ (h : call.values.curUseField < MAX_FIELDS) (q : Quantity),
    Quantity.ofCode (useCode call.values h) = some q → q.kind = r.kind →
    m call = .ok ⟨⟩
      { call with stream, updates := call.updates ++ q.calls r }
  other : ∀ h : call.values.curUseField < MAX_FIELDS,
    (Quantity.ofCode (useCode call.values h)).map Quantity.kind ≠
      some r.kind →
    m call = .fail call

/-- What a chain of tests does for each known code, and for all others. -/
theorem Publishes.of_codes {m : Proc Fault Call PUnit} {r : Reading}
    {call : Call} {stream : Firmware.Stream}
    (hpast : MAX_FIELDS ≤ call.values.curUseField →
      m call = .fault .fieldIndex call)
    (hknown : ∀ h (q : Quantity), useCode call.values h = q.code → m call =
      if q.kind = r.kind then
        .ok ⟨⟩ { call with stream, updates := call.updates ++ q.calls r }
      else .fail call)
    (hother : ∀ h, (∀ q : Quantity, useCode call.values h ≠ q.code) →
      m call = .fail call) :
    Publishes m r call stream where
  past := hpast
  known h q hq hkind := by
    rw [hknown h q (ofCode_eq_some hq).symm, if_pos hkind]
  other h hne := by
    cases hq : Quantity.ofCode (useCode call.values h) with
    | none => exact hother h (ofCode_eq_none hq)
    | some q =>
        rw [hq] at hne
        rw [hknown h q (ofCode_eq_some hq).symm,
          if_neg fun hkind => hne (congrArg some hkind)]

theorem publishes_uint32 (value : UInt32) (call : Call) :
    Publishes (updateUint32 value) (.uint32 value) call call.stream := by
  refine Publishes.of_codes ?_ ?_ ?_
  · intro h
    exact Proc.bind_of_fault (Proc.bind_of_fault (fieldAt_of_ge h))
  · intro h q hq
    rw [updateUint32]
    simp only [curFieldIs_bind h, wrongType_of_lt h, hq]
    cases q with
    | exportedPower => exact exportedPower_eq value call
    | importedTier tier => exact match tier with | 0 => rfl | 1 => rfl
    | exportedTier tier => exact match tier with | 0 => rfl | 1 => rfl
    | current phase => exact match phase with | 0 => rfl | 1 => rfl | 2 => rfl
    | voltage phase => exact match phase with | 0 => rfl | 1 => rfl | 2 => rfl
    | _ => rfl
  · intro h hne
    rw [updateUint32]
    simp only [curFieldIs_bind h, wrongType_of_lt h]
    rw [if_neg (show _ ≠ IMPORTED_ACTIVE_POWER_FIELD from
        hne .importedPower),
      if_neg (show _ ≠ EXPORTED_ACTIVE_POWER_FIELD from
        hne .exportedPower),
      if_neg (show _ ≠ IMPORTED_ACTIVE_ENERGY_FIELD from
        hne .importedEnergy),
      if_neg (show _ ≠ EXPORTED_ACTIVE_ENERGY_FIELD from
        hne .exportedEnergy),
      if_neg (show _ ≠ IMPORTED_ACTIVE_ENERGY_RATE1_FIELD from
        hne (.importedTier 0)),
      if_neg (show _ ≠ EXPORTED_ACTIVE_ENERGY_RATE1_FIELD from
        hne (.exportedTier 0)),
      if_neg (show _ ≠ IMPORTED_ACTIVE_ENERGY_RATE2_FIELD from
        hne (.importedTier 1)),
      if_neg (show _ ≠ EXPORTED_ACTIVE_ENERGY_RATE2_FIELD from
        hne (.exportedTier 1))]

theorem publishes_uint16 (value : UInt16) (call : Call) :
    Publishes (updateUint16 value) (.uint16 value) call call.stream := by
  refine Publishes.of_codes ?_ ?_ ?_
  · intro h
    exact Proc.bind_of_fault (Proc.bind_of_fault (fieldAt_of_ge h))
  · intro h q hq
    rw [updateUint16]
    simp only [curFieldIs_bind h, wrongType_of_lt h, hq]
    cases q with
    | importedTier tier => exact match tier with | 0 => rfl | 1 => rfl
    | exportedTier tier => exact match tier with | 0 => rfl | 1 => rfl
    | current phase => exact match phase with | 0 => rfl | 1 => rfl | 2 => rfl
    | voltage phase => exact match phase with | 0 => rfl | 1 => rfl | 2 => rfl
    | _ => rfl
  · intro h hne
    rw [updateUint16]
    simp only [curFieldIs_bind h, wrongType_of_lt h]
    rw [if_neg (show _ ≠ CURRENT_P1_FIELD from hne (.current 0)),
      if_neg (show _ ≠ CURRENT_P2_FIELD from hne (.current 1)),
      if_neg (show _ ≠ CURRENT_P3_FIELD from hne (.current 2)),
      if_neg (show _ ≠ VOLTAGE_P1_FIELD from hne (.voltage 0)),
      if_neg (show _ ≠ VOLTAGE_P2_FIELD from hne (.voltage 1)),
      if_neg (show _ ≠ VOLTAGE_P3_FIELD from hne (.voltage 2))]

/-- Where a skip that is not looked at leaves the stream. -/
def skipTo (n : Nat) (stream : Firmware.Stream) : Firmware.Stream :=
  if n ≤ stream.rest.length then stream.advance n else stream

theorem ignore_skip (n : Nat) (call : Call) :
    Proc.ignore (onStream (streamSkip n)) call =
      .ok ⟨⟩ { call with stream := skipTo n call.stream } := by
  rw [Proc.ignore_apply, skipTo]
  split
  · next h => rw [onStream_ok (streamSkip_of_le h)]; rfl
  · next h => rw [onStream_fail (streamSkip_of_lt (Nat.not_le.mp h))]; rfl

theorem skipTo_rest (n : Nat) (stream : Firmware.Stream) :
    (skipTo n stream).rest = skipped n stream.rest := by
  rw [skipTo, skipped]
  split
  · rw [Stream.advance_rest]
  · rfl

/-- Strings are for nobody. -/
theorem calls_octets {q : Quantity} {r : Reading} (h : q.kind = .octets) :
    q.calls r = [] := by
  cases q <;> first | (cases r <;> rfl) | cases h

theorem publishes_octets {r : Reading} (hr : r.kind = .octets) (size : UInt8)
    (call : Call) :
    Publishes (skipOctetString size) r call
      (skipTo size.toNat call.stream) := by
  refine Publishes.of_codes ?_ ?_ ?_
  · intro h
    exact Proc.bind_of_fault (Proc.bind_of_fault (fieldAt_of_ge h))
  · intro h q hq
    rw [skipOctetString]
    simp only [curFieldIs_bind h, wrongType_of_lt h, hq, ignore_skip, hr]
    cases q with
    | importedTier tier => exact match tier with | 0 => rfl | 1 => rfl
    | exportedTier tier => exact match tier with | 0 => rfl | 1 => rfl
    | current phase => exact match phase with | 0 => rfl | 1 => rfl | 2 => rfl
    | voltage phase => exact match phase with | 0 => rfl | 1 => rfl | 2 => rfl
    | serial => rw [calls_octets rfl, List.append_nil]; rfl
    | unknown1 => rw [calls_octets rfl, List.append_nil]; rfl
    | unknown2 => rw [calls_octets rfl, List.append_nil]; rfl
    | _ => rfl
  · intro h hne
    rw [skipOctetString]
    simp only [curFieldIs_bind h, wrongType_of_lt h]
    rw [if_neg (show _ ≠ UNKNOWN_FIELD1 from hne .unknown1),
      if_neg (show _ ≠ SERIAL_FIELD from hne .serial),
      if_neg (show _ ≠ UNKNOWN_FIELD2 from hne .unknown2)]

/-! ## One value -/

/-- What the item is when the table has a code for it, has none, or has come
to its end. -/
structure ReadsValue (r : Reading) (rest : List UInt8) (call : Call)
    (o : Outcome Fault Call PUnit) : Prop where
  past : MAX_FIELDS ≤ call.values.curUseField →
    ∃ call', o = .fault .fieldIndex call' ∧ call'.updates = call.updates
  known : ∀ (h : call.values.curUseField < MAX_FIELDS) (q : Quantity),
    Quantity.ofCode (useCode call.values h) = some q → q.kind = r.kind →
    ∃ stream, stream.rest = rest ∧ o = .ok ⟨⟩
      { stream
        values := { call.values with
          curUseField := call.values.curUseField + 1 }
        updates := call.updates ++ q.calls r }
  other : ∀ h : call.values.curUseField < MAX_FIELDS,
    (Quantity.ofCode (useCode call.values h)).map Quantity.kind ≠
      some r.kind →
    Refuses call o

/-- Tell the meter, and go on to the next code. -/
theorem Publishes.next {m : Proc Fault Call PUnit} {r : Reading}
    {values : StateValues} {updates : List MeterUpdate}
    {before stream : Firmware.Stream}
    (h : Publishes m r ⟨before, values, updates⟩ stream) (call : Call)
    (hvalues : call.values = values) (hupdates : call.updates = updates) :
    ReadsValue r stream.rest call
      ((do m; nextUseField : Proc Fault Call PUnit)
        ⟨before, values, updates⟩) where
  past hge := by
    subst hvalues hupdates
    exact ⟨_, Proc.bind_of_fault (h.past hge), rfl⟩
  known hlt q hq hkind := by
    subst hvalues hupdates
    exact ⟨stream, rfl, Proc.bind_of_ok (h.known hlt q hq hkind)⟩
  other hlt hne := by
    subst hvalues hupdates
    exact ⟨_, Proc.bind_of_fail (h.other hlt hne), rfl⟩

/-- A value that is not there is turned away, whatever the table says. -/
theorem decodeItem_noReading {depth : Nat} {call : Call}
    (hstate : call.values.state = .datas)
    (h : takeReading call.stream.rest = none) :
    Refuses call (decodeItem (depth + 1) call) := by
  rcases hrest : call.stream.rest with _ | ⟨type, r⟩
  · exact decodeItem_nil hrest
  have hr : (call.stream.advance 1).rest = r := Stream.advance_one_rest hrest
  rw [hrest] at h
  rw [decodeItem_cons hrest]
  by_cases h32 : Types.ofByte type = some .uint32Type
  · rw [h32]
    refine refuses_short hr (Nat.not_le.mp fun hle => ?_)
    rcases r with _ | ⟨a, _ | ⟨b, _ | ⟨c, _ | ⟨d, r⟩⟩⟩⟩ <;>
      simp [takeReading, h32] at h hle
  by_cases h16 : Types.ofByte type = some .uint16Type
  · rw [h16]
    refine refuses_short hr (Nat.not_le.mp fun hle => ?_)
    rcases r with _ | ⟨a, _ | ⟨b, r⟩⟩ <;> simp [takeReading, h16] at h hle
  by_cases hstr : Types.ofByte type = some .octetStringType
  · rw [hstr]
    refine refuses_short hr (Nat.not_le.mp fun hle => ?_)
    rcases r with _ | ⟨size, r⟩
    · simp at hle
    · by_cases hsize : size.toNat ≤ r.length <;>
        simp [takeReading, hstr, hsize] at h
  · refine Refuses.of_stream (decodeType_unexpected fun t ht => ?_)
    show expects call.values.state t = false
    rw [ht] at h32 h16 hstr
    rw [hstate]
    cases t <;> first | rfl | exact absurd rfl h32 | exact absurd rfl h16 |
      exact absurd rfl hstr

section

variable {call : Call} (hstate : call.values.state = .datas)

include hstate

theorem uint32_reading {a b c d : UInt8} {rest : List UInt8}
    (hr : (call.stream.advance 1).rest = a :: b :: c :: d :: rest) :
    ReadsValue (.uint32 (word32 a b c d)) rest call
      (decodeUint32 { call with stream := call.stream.advance 1 }) := by
  have hnext := (publishes_uint32 (word32 a b c d)
    ⟨(call.stream.advance 1).advance 4, call.values, call.updates⟩).next
    call rfl rfl
  rw [Stream.advance_four_rest hr] at hnext
  rw [decodeUint32, Proc.bind_of_ok (onStream_ok (streamGetu32Be_cons hr)),
    Proc.bind_of_ok Proc.read_apply, hstate]
  exact hnext

theorem uint16_reading {a b : UInt8} {rest : List UInt8}
    (hr : (call.stream.advance 1).rest = a :: b :: rest) :
    ReadsValue (.uint16 (word16 a b)) rest call
      (decodeUint16 { call with stream := call.stream.advance 1 }) := by
  have hnext := (publishes_uint16 (word16 a b)
    ⟨(call.stream.advance 1).advance 2, call.values, call.updates⟩).next
    call rfl rfl
  rw [Stream.advance_two_rest hr] at hnext
  rw [decodeUint16, Proc.bind_of_ok (onStream_ok (streamGetu16Be_cons hr)),
    Proc.bind_of_ok Proc.read_apply, hstate]
  exact hnext

/-- A string, whole or cut: what is left is what the skip leaves. -/
theorem octets_reading {size : UInt8} {r : List UInt8} {v : Reading}
    (hr : (call.stream.advance 1).rest = size :: r) (hkind : v.kind = .octets) :
    ReadsValue v (skipped size.toNat r) call
      (decodeOctetString { call with stream := call.stream.advance 1 }) := by
  have hnext := (publishes_octets hkind size
    ⟨(call.stream.advance 1).advance 1, call.values, call.updates⟩).next
    call rfl rfl
  rw [skipTo_rest, Stream.advance_one_rest hr] at hnext
  rw [decodeOctetString, Proc.bind_of_ok (onStream_ok (streamGetu8_cons hr)),
    Proc.bind_of_ok Proc.read_apply, hstate]
  exact hnext

/-- A value that is there. -/
theorem decodeItem_reading {depth : Nat} {v : Reading} {rest : List UInt8}
    (h : takeReading call.stream.rest = some (v, rest)) :
    ReadsValue v rest call (decodeItem (depth + 1) call) := by
  rcases hrest : call.stream.rest with _ | ⟨type, r⟩
  · rw [hrest] at h
    cases h
  have hr : (call.stream.advance 1).rest = r := Stream.advance_one_rest hrest
  rw [hrest, takeReading.eq_def] at h
  rw [decodeItem_cons hrest]
  dsimp only at h
  split at h
  · next a b c d r' htype =>
      cases h
      rw [htype]
      exact uint32_reading hstate hr
  · next a b r' htype =>
      cases h
      rw [htype]
      exact uint16_reading hstate hr
  · next size r' htype =>
      have hkind : v.kind = .octets ∧ rest = skipped size.toNat r' := by
        rw [skipped]
        split at h
        · next hle => cases h; exact ⟨rfl, (if_pos hle).symm⟩
        · next hgt => cases h; exact ⟨rfl, (if_neg hgt).symm⟩
      rw [htype, hkind.2]
      exact octets_reading hstate hr hkind.1
  · cases h

end

/-! ## All of them -/

/-- How a run ends, and what the meter has been told by then. -/
def Ends (o : Outcome Fault Call PUnit) (updates : List MeterUpdate) :
    Ending → Prop
  | .done rest => ∃ stream values, stream.rest = rest ∧
      o = .ok ⟨⟩ { stream, values, updates }
  | .stuck => ∃ call, o = .fail call ∧ call.updates = updates
  | .overrun => ∃ call, o = .fault .fieldIndex call ∧ call.updates = updates

theorem Ends.bind_of_ok {m : Proc Fault Call PUnit}
    {k : PUnit → Proc Fault Call PUnit} {call call' : Call}
    {updates : List MeterUpdate} {e : Ending}
    (hm : m call = .ok ⟨⟩ call') (h : Ends (k ⟨⟩ call') updates e) :
    Ends ((m >>= k) call) updates e := by
  rw [Proc.bind_of_ok hm]
  exact h

theorem published_cons (code : Code) (codes : List Code) (v : Reading)
    (vs : List Reading) :
    published (code :: codes) (v :: vs) =
      callsOf code v ++ published codes vs := rfl

theorem published_nil (codes : List Code) : published codes [] = [] := by
  cases codes <;> rfl

theorem ofCode_noCode : Quantity.ofCode noCode = none := by decide

theorem useCode_eq {values : StateValues} {codes : List Code}
    (ht : Table values codes) (h : values.curUseField < MAX_FIELDS) :
    useCode values h =
      (codes[values.curUseField]?.map Code.bytes).getD noCode :=
  ht.entry _ h

theorem Refuses.ends {m : Proc Fault Call PUnit}
    {k : PUnit → Proc Fault Call PUnit} {call : Call}
    (h : Refuses call (m call)) :
    Ends ((m >>= k) call) call.updates .stuck := by
  obtain ⟨call', ho, hupdates⟩ := h
  exact ⟨call', Proc.bind_of_fail ho, hupdates⟩

/-- Behind the last code the table has none. -/
theorem ReadsValue.refused_behind {v : Reading} {r : List UInt8} {call : Call}
    {o : Outcome Fault Call PUnit} {codes : List Code}
    (h : ReadsValue v r call o) (ht : Table call.values codes)
    (hend : codes.length ≤ call.values.curUseField)
    (hlt : call.values.curUseField < MAX_FIELDS) : Refuses call o := by
  refine h.other hlt ?_
  rw [useCode_eq ht, List.getElem?_eq_none hend, Option.map_none,
    Option.getD_none, ofCode_noCode]
  exact fun hnone => nomatch hnone

/-- Up to there it is the next one of the codes. -/
theorem useCode_head {values : StateValues} {codes rest : List Code}
    {code : Code} (ht : Table values codes)
    (hdrop : codes.drop values.curUseField = code :: rest) :
    values.curUseField < codes.length ∧
      ∃ h : values.curUseField < MAX_FIELDS,
        useCode values h = code.bytes := by
  have hget : codes[values.curUseField]? = some code := by
    rw [← List.head?_drop, hdrop]
    rfl
  have hlen : values.curUseField < codes.length :=
    (List.getElem?_eq_some_iff.mp hget).1
  have hle := ht.codes_le
  refine ⟨hlen, by omega, ?_⟩
  rw [useCode_eq ht, hget]
  rfl

/-- A value behind the last code: there is no code left in the table, or no
table. -/
theorem value_behind {m : Proc Fault Call PUnit}
    {k : PUnit → Proc Fault Call PUnit} {v : Reading} {r : List UInt8}
    {call : Call} {codes : List Code} (hitem : ReadsValue v r call (m call))
    (htable : Table call.values codes)
    (hend : call.values.curUseField = codes.length) :
    Ends ((m >>= k) call) call.updates
      (if MAX_FIELDS - codes.length = 0 then .overrun else .stuck) := by
  have hle := htable.codes_le
  split
  · next hroom =>
      obtain ⟨call', ho, hupdates⟩ := hitem.past (by omega)
      exact ⟨call', Proc.bind_of_fault ho, hupdates⟩
  · next hroom =>
      exact Refuses.ends
        (hitem.refused_behind htable (Nat.le_of_eq hend.symm) (by omega))

/-- The loop over the values. -/
theorem values_loop {depth : Nat} (count : Nat) :
    ∀ {i : Nat} {call : Call} {codes : List Code},
      call.values.state = .datas → Table call.values codes →
      call.values.curUseField ≤ codes.length →
      Ends (Proc.forUpTo (fun _ => decodeItem (depth + 1)) i count call)
        (call.updates ++ published (codes.drop call.values.curUseField)
          (readValues (MAX_FIELDS - codes.length)
            (codes.drop call.values.curUseField) count call.stream.rest).1)
        (readValues (MAX_FIELDS - codes.length)
          (codes.drop call.values.curUseField) count call.stream.rest).2 := by
  induction count with
  | zero =>
      intro i call codes _ _ _
      rw [readValues, published_nil, List.append_nil]
      exact ⟨call.stream, call.values, rfl, rfl⟩
  | succ count ih =>
      intro i call codes hstate htable huse
      rw [Proc.forUpTo_succ, readValues]
      cases htake : takeReading call.stream.rest with
      | none =>
          rw [published_nil, List.append_nil]
          exact Refuses.ends (decodeItem_noReading hstate htake)
      | some p =>
          have hitem := @decodeItem_reading call hstate depth p.1 p.2 htake
          cases hdrop : codes.drop call.values.curUseField with
          | nil =>
              simp only [published_nil, List.append_nil]
              exact value_behind hitem htable
                (Nat.le_antisymm huse (List.drop_eq_nil_iff.mp hdrop))
          | cons code rest =>
              obtain ⟨hlen, hlt, hcode⟩ := useCode_head htable hdrop
              simp only
              split
              · next hpermits =>
                  obtain ⟨q, hq, hkind⟩ := Option.map_eq_some_iff.mp hpermits
                  obtain ⟨stream, hrest, ho⟩ := hitem.known hlt q
                    (by rw [hcode]; exact hq) hkind
                  refine Ends.bind_of_ok ho ?_
                  have htail := @ih (i + 1)
                    ⟨stream, { call.values with
                      curUseField := call.values.curUseField + 1 },
                      call.updates ++ q.calls p.1⟩ codes hstate
                    ⟨htable.count, htable.codes_le, htable.entry⟩ hlen
                  have hrest' : codes.drop (call.values.curUseField + 1) =
                      rest := by
                    rw [← List.drop_drop, hdrop]
                    rfl
                  simp only [hrest', hrest] at htail
                  rw [published_cons, callsOf, hq]
                  simp only
                  rw [← List.append_assoc]
                  exact htail
              · next hpermits =>
                  rw [published_nil, List.append_nil]
                  exact Refuses.ends (hitem.other hlt (by
                    rw [hcode]
                    exact hpermits))

end MBusMeter.Proofs
