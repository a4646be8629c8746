import MBusMeter.Proofs.PduItems

/-!
# The table of definitions

A definition is written into the first free entry, member by member, and kept
there if its attribute is 2; else the entry is cleared. `Table` is what this
comes to after any number of them: the entries hold the codes that were kept,
in order, and behind them there is nothing. The index that is written through
is checked before every definition, so no write is past the table.
-/

namespace MBusMeter.Proofs

open Lib Firmware Firmware.Pdu Spec

/-- A member of a definition that is an index. -/
theorem member_index {depth i : Nat} (call : Call)
    {write : UInt16 → FieldDef → FieldDef}
    (hstate : indexWrite (.fieldDef i) = some write)
    (hroom : call.values.curDefField < MAX_FIELDS) :
    Decodes (takeIndex call.stream.rest)
      (fun x values => values = { call.values.setDef (write (indexField x))
        hroom with state := .fieldDef i })
      call
      ((do setState (.fieldDef i); decodeItem (depth + 1) :
        Proc Fault Call PUnit) call) :=
  @decodes_index depth
    { call with values := { call.values with state := .fieldDef i } }
    write hstate hroom

theorem member_code {depth : Nat} (call : Call)
    (hroom : call.values.curDefField < MAX_FIELDS) :
    Decodes (takeCode call.stream.rest)
      (fun code values => values =
        { call.values.setDef (fun d => { d with field2 := code.bytes }) hroom
          with state := .fieldDef2 })
      call
      ((do setState (.fieldDef 1); decodeItem (depth + 1) :
        Proc Fault Call PUnit) call) :=
  @decodes_code depth
    { call with values := { call.values with state := .fieldDef2 } } rfl hroom

theorem member_attr {depth : Nat} (call : Call)
    (hroom : call.values.curDefField < MAX_FIELDS) :
    Decodes (takeAttr call.stream.rest)
      (fun attr values => values =
        { call.values.setDef (fun d => { d with field3 := attr }) hroom with
          state := .fieldDef3 })
      call
      ((do setState (.fieldDef 2); decodeItem (depth + 1) :
        Proc Fault Call PUnit) call) :=
  @decodes_attr depth
    { call with values := { call.values with state := .fieldDef3 } } rfl hroom

theorem decodes_members {depth : Nat} {call : Call}
    (hroom : call.values.curDefField < MAX_FIELDS) :
    Decodes (takeMembers call.stream.rest)
      (fun d values => values =
        { call.values.setDef (fun _ => entryOf d) hroom with
          state := .fieldDef4 })
      call
      (Proc.forUpTo (fun i => do
        setState (.fieldDef i); decodeItem (depth + 1)) 0 4 call) := by
  rw [Proc.forUpTo_succ, Proc.forUpTo_succ, Proc.forUpTo_succ,
    Proc.forUpTo_succ, Proc.forUpTo_zero]
  refine Decodes.bind (member_index call rfl hroom) fun classId s₁ v₁ _ h₁ => ?_
  have hroom₁ : v₁.curDefField < MAX_FIELDS := by rw [h₁]; exact hroom
  refine Decodes.bind (member_code ⟨s₁, v₁, _⟩ hroom₁) fun code s₂ v₂ _ h₂ => ?_
  have hroom₂ : v₂.curDefField < MAX_FIELDS := by rw [h₂]; exact hroom₁
  refine Decodes.bind (member_attr ⟨s₂, v₂, _⟩ hroom₂) fun attr s₃ v₃ _ h₃ => ?_
  have hroom₃ : v₃.curDefField < MAX_FIELDS := by rw [h₃]; exact hroom₂
  refine Decodes.bind (member_index ⟨s₃, v₃, _⟩ rfl hroom₃)
    fun dataIndex s₄ v₄ _ h₄ => ⟨s₄, v₄, rfl, ?_, rfl⟩
  -- Four writes to one entry, and nothing of what was there before is left.
  subst h₁ h₂ h₃ h₄
  simp only [StateValues.setDef, Vector.getElem_set_self, Vector.set_set]
  rfl

/-- The structure around them. -/
theorem decodes_definition {depth : Nat} {call : Call}
    (hstate : call.values.state = .firstArray)
    (hroom : call.values.curDefField < MAX_FIELDS) :
    Decodes (takeDefinition call.stream.rest)
      (fun d values =>
        values = call.values.setDef (fun _ => entryOf d) hroom)
      call (decodeItem (depth + 2) call) := by
  have hone := @expects_one call.values.state .structureType (by simp [hstate])
  refine decodes_item rfl (fun type r hno => ?_) fun type r t hr ht hyes => ?_
  · have htype : Types.ofByte type ≠ some .structureType := fun ht =>
      Bool.false_ne_true ((hno _ ht).symm.trans ((hone _).mpr rfl))
    rcases r with _ | ⟨quantity, r⟩
    · rfl
    · exact if_neg fun h => htype h.1
  obtain rfl := (hone t).mp hyes
  rw [decodeType, decodeStructure]
  rcases r with _ | ⟨quantity, r⟩
  · exact decodes_short hr (by simp) rfl
  have hr' : ((call.stream.advance 1).advance 1).rest = r :=
    Stream.advance_one_rest hr
  rw [Proc.bind_of_ok (onStream_ok (streamGetu8_cons hr)),
    Proc.bind_of_ok Proc.read_apply, hstate, takeDefinition]
  by_cases hquantity : quantity = 4
  · rw [if_pos ⟨ht, hquantity⟩,
      Proc.bind_of_ok (Proc.require_of hquantity), hquantity, ← hr']
    have hmembers := @decodes_members depth
      ⟨(call.stream.advance 1).advance 1, call.values, call.updates⟩ hroom
    cases hp : takeMembers ((call.stream.advance 1).advance 1).rest with
    | none =>
        rw [hp] at hmembers
        obtain ⟨call', ho, hupdates⟩ := hmembers
        exact ⟨call', Proc.bind_of_fail ho, hupdates⟩
    | some p =>
        rw [hp] at hmembers
        obtain ⟨stream, values, hrest', rfl, ho⟩ := hmembers
        refine ⟨stream, _, hrest', rfl, (Proc.bind_of_ok ho).trans ?_⟩
        rw [← hstate]
        rfl
  · rw [if_neg (fun h => hquantity h.2)]
    exact ⟨_, Proc.bind_of_fail (Proc.require_of_not hquantity), rfl⟩

/-! ## The table -/

/-- The code of an entry that holds none. -/
def noCode : List UInt8 := [0, 0, 0, 0, 0, 0]

/-- The table after `codes` were kept. -/
structure Table (values : StateValues) (codes : List Code) : Prop where
  count : values.curDefField = codes.length
  codes_le : codes.length ≤ MAX_FIELDS
  entry : ∀ (i : Nat) (h : i < MAX_FIELDS),
    values.fields[i].field2 = (codes[i]?.map Code.bytes).getD noCode

theorem Table.init : Table {} [] :=
  ⟨rfl, Nat.zero_le _, fun i h => by
    simp only [Vector.getElem_replicate]
    rfl⟩

theorem Table.keep {values : StateValues} {codes : List Code}
    (ht : Table values codes) (hroom : values.curDefField < MAX_FIELDS)
    (d : Definition) :
    Table { values.setDef (fun _ => entryOf d) hroom with
      curDefField := values.curDefField + 1 } (codes ++ [d.code]) := by
  have hcount := ht.count
  refine ⟨?_, ?_, fun i h => ?_⟩
  · show values.curDefField + 1 = _
    rw [List.length_append, List.length_singleton, hcount]
  · rw [List.length_append, List.length_singleton]
    omega
  · show (values.fields.set values.curDefField (entryOf d) hroom)[i].field2 = _
    rw [Vector.getElem_set]
    split
    · next heq =>
        rw [← heq, hcount, List.getElem?_concat_length]
        rfl
    · next hne =>
        rw [ht.entry i h]
        rcases Nat.lt_or_ge i codes.length with hlt | hge
        · rw [List.getElem?_append_left hlt]
        · rw [List.getElem?_eq_none hge, List.getElem?_eq_none]
          rw [List.length_append, List.length_singleton]
          omega

theorem Table.drop {values : StateValues} {codes : List Code}
    (ht : Table values codes) (hroom : values.curDefField < MAX_FIELDS) :
    Table (values.setDef (fun _ => {}) hroom) codes := by
  refine ⟨ht.count, ht.codes_le, fun i h => ?_⟩
  show (values.fields.set values.curDefField {} hroom)[i].field2 = _
  rw [Vector.getElem_set]
  split
  · next heq =>
      have hcount := ht.count
      rw [List.getElem?_eq_none (by omega)]
      rfl
  · next hne => exact ht.entry i h

/-- The values between two definitions, after `codes` were kept. -/
structure Defining (values : StateValues) (codes : List Code) : Prop where
  state : values.state = .firstArray
  use : values.curUseField = 0
  table : Table values codes

/-- One round of the loop over the definitions. -/
theorem decodes_fieldDef {depth : Nat} {call : Call} {codes : List Code}
    (h : Defining call.values codes) (hlt : codes.length < MAX_FIELDS) :
    Decodes (takeDefinition call.stream.rest)
      (fun d values => Defining values (codes ++ keptCodes [d]))
      call (decodeFieldDef (decodeItem (depth + 2)) call) := by
  have hroom : call.values.curDefField < MAX_FIELDS := by
    rw [h.table.count]
    exact hlt
  rw [decodeFieldDef, Proc.bind_of_ok Proc.read_apply,
    Proc.bind_of_ok (Proc.require_of hroom)]
  have hdef := @decodes_definition depth call h.state hroom
  cases hp : takeDefinition call.stream.rest with
  | none =>
      rw [hp] at hdef
      obtain ⟨call', ho, hupdates⟩ := hdef
      exact ⟨call', Proc.bind_of_fail ho, hupdates⟩
  | some p =>
      rw [hp] at hdef
      obtain ⟨stream, values, hrest, rfl, ho⟩ := hdef
      have hentry : fieldAt StateValues.curDefField
          ⟨stream, call.values.setDef (fun _ => entryOf p.1) hroom,
            call.updates⟩ = .ok (entryOf p.1)
          ⟨stream, call.values.setDef (fun _ => entryOf p.1) hroom,
            call.updates⟩ := by
        refine (dif_pos hroom).trans ?_
        simp only [StateValues.setDef, Vector.getElem_set_self]
      rw [Proc.bind_of_ok ho, Proc.bind_of_ok hentry]
      have hroom' : (call.values.setDef (fun _ => entryOf p.1)
        hroom).curDefField < MAX_FIELDS := hroom
      by_cases hattr : p.1.attr = 2
      · refine ⟨stream, _, hrest, ?_, (Proc.ite_apply).trans (if_pos hattr)⟩
        refine ⟨h.state, h.use, ?_⟩
        rw [keptCodes_cons, if_pos hattr]
        exact h.table.keep hroom p.1
      · refine ⟨stream, _, hrest, ?_, ((Proc.ite_apply).trans
          (if_neg hattr)).trans (setDefField_of_lt hroom')⟩
        refine ⟨h.state, h.use, ?_⟩
        have hdrop := h.table.drop hroom
        rw [keptCodes_cons, if_neg hattr]
        simp only [StateValues.setDef, Vector.set_set] at hdrop ⊢
        rw [show keptCodes [] = [] from rfl, List.append_nil]
        exact hdrop

/-- The loop over the definitions. -/
theorem decodes_fieldDefs {depth : Nat} (count : Nat) :
    ∀ {i : Nat} {call : Call} {codes : List Code},
      Defining call.values codes →
      Decodes
        (takeDefinitions (MAX_FIELDS - codes.length) count call.stream.rest)
        (fun ds values => Defining values (codes ++ keptCodes ds)) call
        (Proc.forUpTo (fun _ => decodeFieldDef (decodeItem (depth + 2)))
          i count call) := by
  induction count with
  | zero =>
      intro i call codes h
      rw [show takeDefinitions (MAX_FIELDS - codes.length) 0 call.stream.rest =
        some ([], call.stream.rest) by cases MAX_FIELDS - codes.length <;> rfl]
      refine ⟨call.stream, call.values, rfl, ?_, rfl⟩
      show Defining call.values (codes ++ [])
      rw [List.append_nil]
      exact h
  | succ count ih =>
      intro i call codes h
      have hle := h.table.codes_le
      rw [Proc.forUpTo_succ]
      rcases hroom : MAX_FIELDS - codes.length with _ | room
      · -- The table is full, and there is one more definition.
        have hcount := h.table.count
        refine ⟨call, Proc.bind_of_fail ?_, rfl⟩
        rw [decodeFieldDef, Proc.bind_of_ok Proc.read_apply,
          Proc.bind_of_fail (Proc.require_of_not (by omega))]
      · rw [takeDefinitions]
        refine Decodes.bind (decodes_fieldDef h (by omega))
          fun d stream values _ hd => Decodes.map (g := List.cons d) ?_
            fun _ _ => rfl
        have hlen : MAX_FIELDS - (codes ++ keptCodes [d]).length =
            if d.attr = 2 then room else room + 1 := by
          rw [List.length_append, keptCodes_cons]
          split <;> simp only [keptCodes, List.filter_nil, List.map_nil,
            List.length_cons, List.length_nil] <;> omega
        have hcodes : ∀ ds, codes ++ keptCodes (d :: ds) =
            codes ++ keptCodes [d] ++ keptCodes ds := by
          intro ds
          rw [List.append_assoc, ← keptCodes_append, List.singleton_append]
        have htail := @ih (i + 1) ⟨stream, values, call.updates⟩ _ hd
        rw [hlen] at htail
        exact htail.mono fun ds values hds => by rw [hcodes]; exact hds

/-- The array of definitions. -/
theorem decodes_array {depth : Nat} {call : Call}
    (hstate : call.values.state = .outerStruct)
    (hvalues : Table call.values [] ∧ call.values.curUseField = 0)
    {type quantity : UInt8} {r : List UInt8}
    (hrest : call.stream.rest = type :: quantity :: r)
    (htype : Types.ofByte type = some .arrayType) :
    Decodes (takeDefinitions MAX_FIELDS quantity.toNat r)
      (fun ds values => values.state = .datas ∧ values.curUseField = 0 ∧
        Table values (keptCodes ds))
      call (decodeItem (depth + 3) call) := by
  have hr : (call.stream.advance 1).rest = quantity :: r :=
    Stream.advance_one_rest hrest
  have hr' : ((call.stream.advance 1).advance 1).rest = r :=
    Stream.advance_one_rest hr
  rw [decodeItem_cons hrest, htype, decodeType, decodeArray,
    Proc.bind_of_ok (onStream_ok (streamGetu8_cons hr)),
    Proc.bind_of_ok Proc.read_apply, hstate]
  have hloop := @decodes_fieldDefs depth quantity.toNat 0
    ⟨(call.stream.advance 1).advance 1,
      { call.values with state := .firstArray }, call.updates⟩ []
    ⟨rfl, hvalues.2, hvalues.1.count, hvalues.1.codes_le, hvalues.1.entry⟩
  rw [hr'] at hloop
  cases hp : takeDefinitions MAX_FIELDS quantity.toNat r with
  | none =>
      rw [List.length_nil, Nat.sub_zero, hp] at hloop
      obtain ⟨call', ho, hupdates⟩ := hloop
      exact ⟨call', (Proc.bind_of_ok rfl).trans (Proc.bind_of_fail ho),
        hupdates⟩
  | some p =>
      rw [List.length_nil, Nat.sub_zero, hp] at hloop
      obtain ⟨stream, values, hrest', hdef, ho⟩ := hloop
      refine ⟨stream, { values with state := .datas }, hrest',
        ⟨rfl, hdef.use, hdef.table.count, hdef.table.codes_le,
          hdef.table.entry⟩,
        (Proc.bind_of_ok rfl).trans ((Proc.bind_of_ok ho).trans rfl)⟩

end MBusMeter.Proofs
