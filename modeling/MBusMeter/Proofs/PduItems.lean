import MBusMeter.Proofs.PduReadings

/-!
# One item of a PDU

`decode_item` is one function for every item at every level. Which items it
takes is decided by the state: a type that the state does not expect is turned
away before anything is written or handed to the meter, and a type it does
expect is taken if it is there. The lemmas below say so once for each state.
A definition, four items under four states, is put together from them.
-/

namespace MBusMeter.Proofs

open Lib Firmware Firmware.Pdu Spec

/-- The call returned false and told the meter nothing. -/
def Refuses (call : Call) (o : Outcome Fault Call PUnit) : Prop :=
  ∃ call', o = .fail call' ∧ call'.updates = call.updates

/-- A procedure reads what a parser takes, and leaves values of which `Post`
holds; where the parser takes nothing, it refuses. The meter is told nothing
either way. -/
def Decodes {β : Type} (parsed : Option (β × List UInt8))
    (Post : β → StateValues → Prop) (call : Call)
    (o : Outcome Fault Call PUnit) : Prop :=
  match parsed with
  | none => Refuses call o
  | some (b, rest) => ∃ stream values, stream.rest = rest ∧ Post b values ∧
      o = .ok ⟨⟩ { stream, values, updates := call.updates }

/-- Parsers in a row, procedures in a row. -/
theorem Decodes.bind {β γ : Type} {p : Option (β × List UInt8)}
    {f : β × List UInt8 → Option (γ × List UInt8)}
    {Post : β → StateValues → Prop} {Post' : γ → StateValues → Prop}
    {call : Call} {m k : Proc Fault Call PUnit}
    (hm : Decodes p Post call (m call))
    (hk : ∀ b stream values, p = some (b, stream.rest) → Post b values →
      Decodes (f (b, stream.rest)) Post'
        { stream, values, updates := call.updates }
        (k { stream, values, updates := call.updates })) :
    Decodes (p.bind f) Post' call ((m >>= fun _ => k) call) := by
  rcases p with _ | ⟨b, rest⟩
  · obtain ⟨call', ho, hupdates⟩ := hm
    exact ⟨call', Proc.bind_of_fail ho, hupdates⟩
  · obtain ⟨stream, values, rfl, hpost, ho⟩ := hm
    rw [Proc.bind_of_ok ho]
    exact hk b stream values rfl hpost

theorem Decodes.mono {β : Type} {p : Option (β × List UInt8)}
    {Post Post' : β → StateValues → Prop} {call : Call}
    {o : Outcome Fault Call PUnit} (h : Decodes p Post call o)
    (himp : ∀ b values, Post b values → Post' b values) :
    Decodes p Post' call o := by
  rcases p with _ | ⟨b, rest⟩
  · exact h
  · obtain ⟨stream, values, hrest, hpost, ho⟩ := h
    exact ⟨stream, values, hrest, himp b values hpost, ho⟩

/-- What was taken, seen as something else. -/
theorem Decodes.map {β γ : Type} {p : Option (β × List UInt8)}
    {f : β × List UInt8 → Option (γ × List UInt8)} {g : β → γ}
    {Post : γ → StateValues → Prop} {call : Call}
    {o : Outcome Fault Call PUnit}
    (h : Decodes p (fun b => Post (g b)) call o)
    (hf : ∀ b r, f (b, r) = some (g b, r)) :
    Decodes (p.bind f) Post call o := by
  rcases p with _ | ⟨b, rest⟩
  · exact h
  · rw [Option.bind_some, hf]
    exact h

theorem onStream_ok {α : Type} {m : Proc Fault Stream α} {call : Call} {a : α}
    {stream : Stream} (h : m call.stream = .ok a stream) :
    onStream m call = .ok a { call with stream } :=
  Proc.zoom_of_ok h

theorem onStream_fail {α : Type} {m : Proc Fault Stream α} {call : Call}
    {stream : Stream} (h : m call.stream = .fail stream) :
    onStream m call = .fail { call with stream } :=
  Proc.zoom_of_fail h

/-- A read that fails is the end of whatever it is the beginning of. -/
theorem refuses_of_read {α : Type} {m : Proc Fault Stream α} {call : Call}
    {k : α → Proc Fault Call PUnit} (h : m call.stream = .fail call.stream) :
    Refuses call ((onStream m >>= k) call) :=
  ⟨call, Proc.bind_of_fail (onStream_fail h), rfl⟩

/-- What goes on behind a read of the stream. -/
theorem Refuses.of_stream {call : Call} {stream : Stream}
    {o : Outcome Fault Call PUnit} (h : Refuses { call with stream } o) :
    Refuses call o := h

/-! ## Types the state does not expect -/

/-- The types a state reads. -/
def expects : State → Types → Bool
  | .root, .structureType => true
  | .outerStruct, .arrayType => true
  | .firstArray, .structureType => true
  | .fieldDef1, .uint32Type => true
  | .fieldDef1, .uint16Type => true
  | .fieldDef2, .octetStringType => true
  | .fieldDef3, .int8Type => true
  | .fieldDef4, .uint32Type => true
  | .fieldDef4, .uint16Type => true
  | .datas, .uint32Type => true
  | .datas, .uint16Type => true
  | .datas, .octetStringType => true
  | _, _ => false

/-- The branch of `decode_item` for a type. -/
def decodeType (item : Proc Fault Call PUnit) :
    Option Types → Proc Fault Call PUnit
  | some .structureType => decodeStructure item
  | some .arrayType => decodeArray item
  | some .uint32Type => decodeUint32
  | some .uint16Type => decodeUint16
  | some .int8Type => decodeInt8
  | some .octetStringType => decodeOctetString
  | none => Proc.fail

theorem decodeItem_nil {depth : Nat} {call : Call}
    (h : call.stream.rest = []) :
    Refuses call (decodeItem (depth + 1) call) :=
  refuses_of_read (streamGetu8_nil h)

theorem decodeItem_cons {depth : Nat} {call : Call} {type : UInt8}
    {r : List UInt8} (h : call.stream.rest = type :: r) :
    decodeItem (depth + 1) call =
      decodeType (decodeItem depth) (Types.ofByte type)
        { call with stream := call.stream.advance 1 } := by
  rw [decodeItem, Proc.bind_of_ok (onStream_ok (streamGetu8_cons h))]
  cases Types.ofByte type with
  | none => rfl
  | some t => cases t <;> rfl

/-- Read something, then fail: a refusal whether or not it is there. -/
theorem refuses_read {α : Type} {width : Nat} {value : (Nat → UInt8) → α}
    {call : Call} {k : α → Proc Fault Call PUnit}
    (hk : ∀ a stream, Refuses call (k a { call with stream })) :
    Refuses call ((onStream (streamRead width value) >>= k) call) := by
  have hread := @streamRead_eq α width value call.stream
  split at hread
  · rw [Proc.bind_of_ok (onStream_ok hread)]
    exact hk _ _
  · exact refuses_of_read hread

theorem decodeType_unexpected {item : Proc Fault Call PUnit} {call : Call}
    {type : Option Types}
    (h : ∀ t, type = some t → expects call.values.state t = false) :
    Refuses call (decodeType item type call) := by
  rcases type with _ | t
  · exact ⟨call, rfl, rfl⟩
  · -- Each branch reads first and looks at the state then.
    have hno := h t rfl
    cases hs : call.values.state <;> cases t <;> rw [hs] at hno <;>
      first
      | exact Bool.noConfusion hno
      | exact refuses_read fun a stream =>
          ⟨{ call with stream }, by simp [hs], rfl⟩

/-- An item that is not there, or of a type the state does not expect. -/
theorem decodeItem_unexpected {depth : Nat} {call : Call}
    (h : ∀ type r t, call.stream.rest = type :: r →
      Types.ofByte type = some t → expects call.values.state t = false) :
    Refuses call (decodeItem (depth + 1) call) := by
  rcases hrest : call.stream.rest with _ | ⟨type, r⟩
  · exact decodeItem_nil hrest
  · rw [decodeItem_cons hrest]
    exact decodeType_unexpected fun t ht => h type r t hrest ht

/-- An item of a type the state reads, if it is there. -/
theorem decodes_item {β : Type} {parse : List UInt8 → Option (β × List UInt8)}
    {Post : β → StateValues → Prop} {depth : Nat} {call : Call}
    (hnil : parse [] = none)
    (hother : ∀ type r, (∀ t, Types.ofByte type = some t →
      expects call.values.state t = false) → parse (type :: r) = none)
    (hread : ∀ type r t, (call.stream.advance 1).rest = r →
      Types.ofByte type = some t → expects call.values.state t = true →
      Decodes (parse (type :: r)) Post call
        (decodeType (decodeItem depth) (some t)
          { call with stream := call.stream.advance 1 })) :
    Decodes (parse call.stream.rest) Post call
      (decodeItem (depth + 1) call) := by
  rcases hrest : call.stream.rest with _ | ⟨type, r⟩
  · rw [hnil]
    exact decodeItem_nil hrest
  have hr : (call.stream.advance 1).rest = r := Stream.advance_one_rest hrest
  rw [decodeItem_cons hrest]
  by_cases hyes : ∃ t, Types.ofByte type = some t ∧
      expects call.values.state t = true
  · obtain ⟨t, ht, hyes⟩ := hyes
    rw [ht]
    exact hread type r t hr ht hyes
  · have hno : ∀ t, Types.ofByte type = some t →
        expects call.values.state t = false := by
      intro t ht
      by_cases h : expects call.values.state t = true
      · exact absurd ⟨t, ht, h⟩ hyes
      · exact Bool.eq_false_iff.mpr h
    rw [hother type r hno]
    exact Refuses.of_stream (decodeType_unexpected hno)

/-- A read behind the type byte that finds too little. -/
theorem refuses_short {α : Type} {width : Nat} {value : (Nat → UInt8) → α}
    {call : Call} {r : List UInt8} {k : α → Proc Fault Call PUnit}
    (hr : (call.stream.advance 1).rest = r) (hshort : r.length < width) :
    Refuses call ((onStream (streamRead width value) >>= k)
      { call with stream := call.stream.advance 1 }) :=
  Refuses.of_stream
    (refuses_of_read (streamRead_of_lt (by rw [hr]; exact hshort)))

/-! ## The members of a definition -/

/-- What is kept of an index. -/
def indexField : Index → UInt16
  | .short value => value
  | .long value => value.toUInt16

/-- The entry of a definition in the table. -/
def entryOf (d : Definition) : FieldDef where
  field1 := indexField d.classId
  field2 := d.code.bytes
  field3 := d.attr
  field4 := indexField d.dataIndex

theorem setDefField_of_lt {f : FieldDef → FieldDef} {stream : Firmware.Stream}
    {values : StateValues} {updates : List MeterUpdate}
    (h : values.curDefField < MAX_FIELDS) :
    setDefField f { stream, values, updates } =
      .ok ⟨⟩ { stream, values := values.setDef f h, updates } := dif_pos h

/-- Where an index of a definition goes. -/
def indexWrite : State → Option (UInt16 → FieldDef → FieldDef)
  | .fieldDef1 => some fun value d => { d with field1 := value }
  | .fieldDef4 => some fun value d => { d with field4 := value }
  | _ => none

theorem indexWrite_eq_some {state : State}
    {write : UInt16 → FieldDef → FieldDef}
    (h : indexWrite state = some write) :
    (state = .fieldDef1 ∧ write = fun value d => { d with field1 := value }) ∨
      (state = .fieldDef4 ∧
        write = fun value d => { d with field4 := value }) := by
  cases state <;> cases h
  · exact Or.inl ⟨rfl, rfl⟩
  · exact Or.inr ⟨rfl, rfl⟩

theorem decodes_short {α β : Type} {width : Nat} {value : (Nat → UInt8) → α}
    {call : Call} {r : List UInt8} {k : α → Proc Fault Call PUnit}
    {parsed : Option (β × List UInt8)} {Post : β → StateValues → Prop}
    (hr : (call.stream.advance 1).rest = r) (hshort : r.length < width)
    (hparsed : parsed = none) :
    Decodes parsed Post call ((onStream (streamRead width value) >>= k)
      { call with stream := call.stream.advance 1 }) := by
  rw [hparsed]
  exact refuses_short hr hshort

/-- The states that read an index read it in both its widths. -/
theorem expects_index {state : State} {write : UInt16 → FieldDef → FieldDef}
    (h : indexWrite state = some write) (t : Types) :
    expects state t = true ↔ t = .uint16Type ∨ t = .uint32Type := by
  rcases indexWrite_eq_some h with ⟨hs, -⟩ | ⟨hs, -⟩ <;> rw [hs] <;>
    cases t <;> decide

theorem decodes_index {depth : Nat} {call : Call}
    {write : UInt16 → FieldDef → FieldDef}
    (hstate : indexWrite call.values.state = some write)
    (hroom : call.values.curDefField < MAX_FIELDS) :
    Decodes (takeIndex call.stream.rest)
      (fun i values => values = call.values.setDef (write (indexField i)) hroom)
      call (decodeItem (depth + 1) call) := by
  refine decodes_item rfl (fun type r hno => ?_) fun type r t hr ht hyes => ?_
  · have h16 : Types.ofByte type ≠ some .uint16Type := fun ht =>
      Bool.false_ne_true ((hno _ ht).symm.trans
        ((expects_index hstate _).mpr (Or.inl rfl)))
    have h32 : Types.ofByte type ≠ some .uint32Type := fun ht =>
      Bool.false_ne_true ((hno _ ht).symm.trans
        ((expects_index hstate _).mpr (Or.inr rfl)))
    unfold takeIndex
    dsimp only
    split
    · next h => exact absurd h h16
    · next h => exact absurd h h32
    · rfl
  rcases (expects_index hstate t).mp hyes with rfl | rfl
  · rw [decodeType, decodeUint16]
    rcases r with _ | ⟨a, _ | ⟨b, r⟩⟩
    · exact decodes_short hr (by simp) (by simp [takeIndex, ht])
    · exact decodes_short hr (by simp) (by simp [takeIndex, ht])
    · rw [show takeIndex (type :: a :: b :: r) = some (.short (word16 a b), r)
        by simp [takeIndex, ht],
        Proc.bind_of_ok (onStream_ok (streamGetu16Be_cons hr))]
      refine ⟨_, _, Stream.advance_two_rest hr, rfl, ?_⟩
      rw [Proc.bind_of_ok Proc.read_apply]
      rcases indexWrite_eq_some hstate with ⟨hs, rfl⟩ | ⟨hs, rfl⟩ <;>
        rw [hs] <;> exact setDefField_of_lt hroom
  · rw [decodeType, decodeUint32]
    rcases r with _ | ⟨a, _ | ⟨b, _ | ⟨c, _ | ⟨d, r⟩⟩⟩⟩
    · exact decodes_short hr (by simp) (by simp [takeIndex, ht])
    · exact decodes_short hr (by simp) (by simp [takeIndex, ht])
    · exact decodes_short hr (by simp) (by simp [takeIndex, ht])
    · exact decodes_short hr (by simp) (by simp [takeIndex, ht])
    · rw [show takeIndex (type :: a :: b :: c :: d :: r) =
        some (.long (word32 a b c d), r) by simp [takeIndex, ht],
        Proc.bind_of_ok (onStream_ok (streamGetu32Be_cons hr))]
      refine ⟨_, _, Stream.advance_four_rest hr, rfl, ?_⟩
      rw [Proc.bind_of_ok Proc.read_apply]
      rcases indexWrite_eq_some hstate with ⟨hs, rfl⟩ | ⟨hs, rfl⟩ <;>
        rw [hs] <;> exact setDefField_of_lt hroom

/-- The other states of a definition read one type each. -/
theorem expects_one {state : State} {type : Types}
    (h : (state, type) ∈ [(State.fieldDef2, Types.octetStringType),
      (.fieldDef3, .int8Type), (.firstArray, .structureType)]) (t : Types) :
    expects state t = true ↔ t = type := by
  simp only [List.mem_cons, Prod.mk.injEq, List.not_mem_nil, or_false] at h
  rcases h with ⟨rfl, rfl⟩ | ⟨rfl, rfl⟩ | ⟨rfl, rfl⟩ <;> cases t <;> decide

theorem decodes_code {depth : Nat} {call : Call}
    (hstate : call.values.state = .fieldDef2)
    (hroom : call.values.curDefField < MAX_FIELDS) :
    Decodes (takeCode call.stream.rest)
      (fun code values => values =
        call.values.setDef (fun d => { d with field2 := code.bytes }) hroom)
      call (decodeItem (depth + 1) call) := by
  have hone :=
    @expects_one call.values.state .octetStringType (by simp [hstate])
  refine decodes_item rfl (fun type r hno => ?_) fun type r t hr ht hyes => ?_
  · have htype : Types.ofByte type ≠ some .octetStringType := fun ht =>
      Bool.false_ne_true ((hno _ ht).symm.trans ((hone _).mpr rfl))
    rcases r with _ | ⟨size, r⟩
    · rfl
    · exact if_neg fun h => htype h.1
  obtain rfl := (hone t).mp hyes
  rw [decodeType, decodeOctetString]
  rcases r with _ | ⟨size, r⟩
  · exact decodes_short hr (by simp) rfl
  have hr' : ((call.stream.advance 1).advance 1).rest = r :=
    Stream.advance_one_rest hr
  rw [Proc.bind_of_ok (onStream_ok (streamGetu8_cons hr)),
    Proc.bind_of_ok Proc.read_apply, hstate, takeCode]
  by_cases hsize : size = 6
  · rw [if_pos ⟨ht, hsize⟩, Proc.bind_of_ok (Proc.require_of hsize), hsize]
    split
    · next hlen =>
        have hget := streamGet_append (l := r.take 6) (r := r.drop 6)
          (hr'.trans (List.take_append_drop 6 r).symm)
        rw [List.length_take, Nat.min_eq_left hlen] at hget
        refine ⟨((call.stream.advance 1).advance 1).advance 6, _, ?_, rfl, ?_⟩
        · rw [Stream.advance_rest, hr']
        · rw [Proc.bind_of_ok (onStream_ok hget)]
          exact setDefField_of_lt hroom
    · next hlen =>
        exact ⟨_, Proc.bind_of_fail (onStream_fail (streamRead_of_lt
          (by rw [hr']; exact Nat.not_le.mp hlen))), rfl⟩
  · rw [if_neg (fun h => hsize h.2)]
    exact ⟨_, Proc.bind_of_fail (Proc.require_of_not hsize), rfl⟩

theorem decodes_attr {depth : Nat} {call : Call}
    (hstate : call.values.state = .fieldDef3)
    (hroom : call.values.curDefField < MAX_FIELDS) :
    Decodes (takeAttr call.stream.rest)
      (fun attr values => values =
        call.values.setDef (fun d => { d with field3 := attr }) hroom)
      call (decodeItem (depth + 1) call) := by
  have hone := @expects_one call.values.state .int8Type (by simp [hstate])
  refine decodes_item rfl (fun type r hno => ?_) fun type r t hr ht hyes => ?_
  · have htype : Types.ofByte type ≠ some .int8Type := fun ht =>
      Bool.false_ne_true ((hno _ ht).symm.trans ((hone _).mpr rfl))
    rcases r with _ | ⟨b, r⟩
    · rfl
    · exact if_neg htype
  obtain rfl := (hone t).mp hyes
  rw [decodeType, decodeInt8]
  rcases r with _ | ⟨b, r⟩
  · exact decodes_short hr (by simp) rfl
  · rw [takeAttr, if_pos ht,
      Proc.bind_of_ok (onStream_ok (streamGet8_cons hr)),
      Proc.bind_of_ok Proc.read_apply, hstate]
    exact ⟨_, _, Stream.advance_one_rest hr, rfl, setDefField_of_lt hroom⟩

end MBusMeter.Proofs
