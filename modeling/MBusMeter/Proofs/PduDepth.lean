import MBusMeter.Proofs.PduDecode
import MBusMeter.Lib.Ensures

/-!
# How deep `decode_item` can go

Nothing in `decode_item` counts its own depth. What stops it is the state: a
structure is read in two states and an array in one, each hands its members a
state that reads less, and a member puts the state back before it returns
true. So the room a call needs is decided by the state it starts in, four
calls for the root down to one for the members of a definition, and any two
limits that leave that much room make the same call.

The states the members are called in are those the container set, or those the
member before left, which is why the rule about the state on return comes
first.
-/

namespace MBusMeter.Proofs

open Lib Firmware Firmware.Pdu Spec

/-! ## What a call ensures -/

/-- The same buffer, and not less of it read. -/
structure Forward (s t : Call) : Prop where
  buffer : t.stream.buffer = s.stream.buffer
  pos : s.stream.pos ≤ t.stream.pos

/-- And the state as it was. -/
structure Keeps (s t : Call) : Prop extends Forward s t where
  state : t.values.state = s.values.state

/-- And the state set to this one. -/
structure Leaves (state : State) (s t : Call) : Prop extends Forward s t where
  state_eq : t.values.state = state

/-- This state is not left. -/
def Stays (state : State) (s t : Call) : Prop :=
  s.values.state = state → t.values.state = state

instance : IsPreorder Call Forward where
  refl _ := ⟨rfl, Nat.le_refl _⟩
  trans _ _ _ h h' := ⟨h'.buffer.trans h.buffer, Nat.le_trans h.pos h'.pos⟩

instance : IsPreorder Call Keeps where
  refl _ := ⟨⟨rfl, Nat.le_refl _⟩, rfl⟩
  trans _ _ _ h h' :=
    ⟨trans_of Forward h.toForward h'.toForward, h'.state.trans h.state⟩

instance (state : State) : IsPreorder Call (Stays state) where
  refl _ h := h
  trans _ _ _ h h' hs := h' (h hs)

theorem Keeps.stays {state : State} {s t : Call} (h : Keeps s t) :
    Stays state s t := h.state.trans

theorem streamRead_moves {α : Type} (width : Nat) (value : (Nat → UInt8) → α) :
    Proc.Ensures (streamRead width value) fun s t =>
      t.buffer = s.buffer ∧ s.pos ≤ t.pos := by
  intro s a t h
  simp only [streamRead] at h
  split at h
  · cases h
  · cases h
    exact ⟨rfl, Nat.le_add_right _ _⟩

theorem keeps_read {α : Type} (width : Nat) (value : (Nat → UInt8) → α) :
    Proc.Ensures (onStream (streamRead width value)) Keeps :=
  (streamRead_moves width value).zoom fun _ _ h => ⟨⟨h.1, h.2⟩, rfl⟩

theorem keeps_update (u : MeterUpdate) : Proc.Ensures (update u) Keeps :=
  .update fun _ => ⟨⟨rfl, Nat.le_refl _⟩, rfl⟩

theorem keeps_nextUseField : Proc.Ensures nextUseField Keeps :=
  .update fun _ => ⟨⟨rfl, Nat.le_refl _⟩, rfl⟩

theorem keeps_fieldAt (i : StateValues → Nat) :
    Proc.Ensures (fieldAt i) Keeps := by
  intro s a t h
  simp only [fieldAt] at h
  split at h
  · cases h
    exact refl_of Keeps s
  · cases h

theorem keeps_setDefField (f : FieldDef → FieldDef) :
    Proc.Ensures (setDefField f) Keeps := by
  intro s a t h
  simp only [setDefField] at h
  split at h
  · cases h
    exact ⟨⟨rfl, Nat.le_refl _⟩, rfl⟩
  · cases h

theorem keeps_wrongType : Proc.Ensures wrongType Keeps :=
  .seq (keeps_fieldAt _) fun _ => .fail

theorem keeps_skip (n : Nat) :
    Proc.Ensures (Proc.ignore (onStream (streamSkip n))) Keeps := by
  intro s a t h
  rw [ignore_skip] at h
  cases h
  rw [skipTo]
  split
  · exact ⟨⟨rfl, Nat.le_min.mpr ⟨Nat.le_add_right _ _, s.stream.pos_le⟩⟩, rfl⟩
  · exact refl_of Keeps s

/-- One of the comparisons that decide who is called. -/
theorem keeps_ifField {field : List UInt8} {m k : Proc Fault Call PUnit}
    (hm : Proc.Ensures m Keeps) (hk : Proc.Ensures k Keeps) :
    Proc.Ensures (do if ← curFieldIs field then m else k) Keeps :=
  .seq (.seq (keeps_fieldAt _) fun _ => .pure) fun _ => .ite hm hk

theorem keeps_updateUint32 (value : UInt32) :
    Proc.Ensures (updateUint32 value) Keeps := by
  rw [updateUint32]
  refine keeps_ifField (keeps_update _) ?_
  refine keeps_ifField (.ite (keeps_update _) .pure) ?_
  refine keeps_ifField (keeps_update _) ?_
  refine keeps_ifField (keeps_update _) ?_
  refine keeps_ifField (keeps_update _) ?_
  refine keeps_ifField (keeps_update _) ?_
  refine keeps_ifField (keeps_update _) ?_
  exact keeps_ifField (keeps_update _) keeps_wrongType

theorem keeps_updateUint16 (value : UInt16) :
    Proc.Ensures (updateUint16 value) Keeps := by
  rw [updateUint16]
  refine keeps_ifField (keeps_update _) ?_
  refine keeps_ifField (keeps_update _) ?_
  refine keeps_ifField (keeps_update _) ?_
  refine keeps_ifField (keeps_update _) ?_
  refine keeps_ifField (keeps_update _) ?_
  exact keeps_ifField (keeps_update _) keeps_wrongType

theorem keeps_skipOctetString (size : UInt8) :
    Proc.Ensures (skipOctetString size) Keeps := by
  rw [skipOctetString]
  refine keeps_ifField (keeps_skip _) ?_
  refine keeps_ifField (keeps_skip _) ?_
  exact keeps_ifField (keeps_skip _) keeps_wrongType

theorem keeps_uint32 : Proc.Ensures decodeUint32 Keeps := by
  refine .seq (keeps_read 4 _) fun value => .seq .read fun state => ?_
  split
  · exact keeps_setDefField _
  · exact keeps_setDefField _
  · exact .seq (keeps_updateUint32 value) fun _ => keeps_nextUseField
  · exact .fail

theorem keeps_uint16 : Proc.Ensures decodeUint16 Keeps := by
  refine .seq (keeps_read 2 _) fun value => .seq .read fun state => ?_
  split
  · exact keeps_setDefField _
  · exact keeps_setDefField _
  · exact .seq (keeps_updateUint16 value) fun _ => keeps_nextUseField
  · exact .fail

theorem keeps_int8 : Proc.Ensures decodeInt8 Keeps := by
  refine .seq (keeps_read 1 _) fun value => .seq .read fun state => ?_
  split
  · exact keeps_setDefField _
  · exact .fail

theorem keeps_octetString : Proc.Ensures decodeOctetString Keeps := by
  refine .seq (keeps_read 1 _) fun size => .seq .read fun state => ?_
  split
  · exact .seq .require fun _ => .seq (keeps_read _ _) fun bytes =>
      keeps_setDefField _
  · exact .seq (keeps_skipOctetString size) fun _ => keeps_nextUseField
  · exact .fail

/-! ## The containers -/

theorem leaves_setState (state : State) :
    Proc.Ensures (setState state) (Leaves state) :=
  .update fun _ => ⟨⟨rfl, Nat.le_refl _⟩, rfl⟩

/-- Whatever comes before the state is set. -/
theorem leaves_behind {α β : Type} {m : Proc Fault Call α}
    {k : α → Proc Fault Call β} {state : State} (hm : Proc.Ensures m Forward)
    (hk : ∀ a, Proc.Ensures (k a) (Leaves state)) :
    Proc.Ensures (m >>= k) (Leaves state) :=
  hm.bind hk fun _ _ _ h h' => ⟨trans_of Forward h h'.toForward, h'.state_eq⟩

theorem forward_setState (state : State) :
    Proc.Ensures (setState state) Forward :=
  (leaves_setState state).mono fun _ _ h => h.toForward

theorem ensures_fieldDef {R : Call → Call → Prop} [IsPreorder Call R]
    (hR : ∀ s t, Keeps s t → R s t) {item : Proc Fault Call PUnit}
    (hitem : Proc.Ensures item R) : Proc.Ensures (decodeFieldDef item) R := by
  refine .seq .read fun _ => .seq .require fun _ => .seq hitem fun _ => ?_
  refine .seq ((keeps_fieldAt _).mono hR) fun _ => .ite ?_ ?_
  · exact .update fun s => hR _ _ ⟨⟨rfl, Nat.le_refl _⟩, rfl⟩
  · exact (keeps_setDefField _).mono hR

section

variable {item : Proc Fault Call PUnit} (hitem : Proc.Ensures item Forward)

include hitem

theorem keeps_structure : Proc.Ensures (decodeStructure item) Keeps := by
  refine .seq (keeps_read 1 _) fun quantity => .read_bind fun s _ t h => ?_
  have hleaves : Leaves s.values.state s t := by
    split at h
    · refine leaves_behind (forward_setState _) (fun _ => ?_) s _ t h
      exact leaves_behind (.forUpTo (fun _ => hitem) _ _) fun _ =>
        leaves_setState _
    · refine leaves_behind .require (fun _ => ?_) s _ t h
      exact leaves_behind
        (.forUpTo (fun i => .seq (forward_setState _) fun _ => hitem) _ _)
        fun _ => leaves_setState _
    · cases h
  exact ⟨hleaves.toForward, hleaves.state_eq⟩

/-- An array is read in one state only. -/
theorem array_ensures : Proc.Ensures (decodeArray item) fun s t =>
    s.values.state = .outerStruct ∧ Leaves .datas s t := by
  intro s a t h
  obtain ⟨quantity, s', hread, h⟩ := Outcome.andThen_eq_ok h
  have hkeeps : Keeps s s' := keeps_read 1 _ s quantity s' hread
  have htail : s'.values.state = .outerStruct ∧ Leaves .datas s' t := by
    rw [Proc.bind_of_ok Proc.read_apply] at h
    split at h
    · next hstate =>
        refine ⟨hstate,
          leaves_behind (forward_setState _) (fun _ => ?_) s' a t h⟩
        exact leaves_behind
          (.forUpTo (fun _ => ensures_fieldDef (fun _ _ h => h.toForward) hitem)
            _ _) fun _ => leaves_setState _
    · cases h
  exact ⟨hkeeps.state.symm.trans htail.1,
    trans_of Forward hkeeps.toForward htail.2.toForward, htail.2.state_eq⟩

/-- The state a type leaves. -/
theorem decodeType_ensures (type : Option Types) :
    Proc.Ensures (decodeType item type) fun s t =>
      Leaves (if s.values.state = .outerStruct ∧ type = some .arrayType
        then .datas else s.values.state) s t := by
  have hkeeps : ∀ {m : Proc Fault Call PUnit}, Proc.Ensures m Keeps →
      type ≠ some .arrayType → Proc.Ensures m fun s t =>
        Leaves (if s.values.state = .outerStruct ∧ type = some .arrayType
          then .datas else s.values.state) s t := by
    intro m hm htype
    refine hm.mono fun s t h => ⟨h.toForward, ?_⟩
    rw [if_neg fun hc => htype hc.2]
    exact h.state
  rcases type with _ | _ | _ | _ | _ | _ | _
  · exact .fail
  · refine (array_ensures hitem).mono fun s t h => ?_
    rw [if_pos ⟨h.1, rfl⟩]
    exact h.2
  · exact hkeeps (keeps_structure hitem) nofun
  · exact hkeeps keeps_uint32 nofun
  · exact hkeeps keeps_octetString nofun
  · exact hkeeps keeps_int8 nofun
  · exact hkeeps keeps_uint16 nofun

end

/-! ## The item -/

theorem decodeItem_succ (depth : Nat) :
    decodeItem (depth + 1) = onStream streamGetu8 >>= fun type =>
      decodeType (decodeItem depth) (Types.ofByte type) := by
  rw [decodeItem]
  congr

theorem forward_item (depth : Nat) :
    Proc.Ensures (decodeItem depth) Forward := by
  induction depth with
  | zero => exact .fault
  | succ depth ih =>
      rw [decodeItem_succ]
      refine .seq ((keeps_read 1 _).mono ?_) fun type => ?_
      · exact fun _ _ h => h.toForward
      · exact (decodeType_ensures ih _).mono fun _ _ h => h.toForward

/-- The state a call of `decode_item` leaves when it returns true: the one it
was called in, but `DATAS` behind an array in the outer structure. -/
def stateAfter (call : Call) : State :=
  if call.values.state = .outerStruct ∧
      Types.ofByte (call.stream.buffer.byte call.stream.pos) = some .arrayType
  then .datas
  else call.values.state

/-- What a call of `decode_item` that returns true has done: it has read
something, and left that state. -/
structure Returns (s t : Call) : Prop where
  buffer : t.stream.buffer = s.stream.buffer
  pos : s.stream.pos < t.stream.pos
  state : t.values.state = stateAfter s

theorem decodeItem_returns (depth : Nat) :
    Proc.Ensures (decodeItem depth) Returns := by
  rcases depth with _ | depth
  · exact .fault
  intro s a t h
  rcases hrest : s.stream.rest with _ | ⟨type, r⟩
  · obtain ⟨call, hfail, _⟩ := @decodeItem_nil depth s hrest
    rw [hfail] at h
    cases h
  · rw [decodeItem_cons hrest] at h
    obtain ⟨⟨hbuffer, hpos⟩, hstate⟩ :=
      decodeType_ensures (forward_item depth) _ _ a t h
    have hlen := congrArg List.length hrest
    rw [Stream.rest_length, List.length_cons] at hlen
    have hbyte : s.stream.buffer.byte s.stream.pos = type := by
      rw [Stream.rest] at hrest
      rw [Buffer.byte, List.getD_eq_getElem?_getD,
        ← List.head?_drop, hrest]
      rfl
    refine ⟨hbuffer, ?_, ?_⟩
    · have hmove : min (s.stream.pos + 1) s.stream.buffer.len ≤
          t.stream.pos := hpos
      omega
    · rw [stateAfter, hbyte]
      exact hstate

/-! ## The room a state needs

Two limits make the same call when both leave room for it. -/

/-- How many calls of `decode_item` inside one another a call in this state
can come to, itself included. -/
def room : State → Nat
  | .root => 4
  | .outerStruct => 3
  | .firstArray => 2
  | _ => 1

theorem room_pos (state : State) : 0 < room state := by
  cases state <;> decide

theorem room_fieldDef (i : Nat) : room (.fieldDef i) = 1 := by
  rcases i with _ | _ | _ | _ | i <;> rfl

/-- The two procedures agree on every call in a state that needs no more. -/
def AgreeIn (n : Nat) (m m' : Proc Fault Call PUnit) : Prop :=
  ∀ call, room call.values.state ≤ n → m call = m' call

theorem setState_ok {state : State} {call call' : Call}
    (h : setState state call = .ok ⟨⟩ call') : call'.values.state = state := by
  cases h
  rfl

section

variable {n : Nat} {item item' : Proc Fault Call PUnit}
  (hreturns : Proc.Ensures item Returns) (hagree : AgreeIn n item item')

include hreturns hagree

/-- The members of the outer structure are read there or in `DATAS`. -/
theorem outerMembers_congr (hn : 3 ≤ n) (count : Nat) {call : Call}
    (hstate : call.values.state = .outerStruct) :
    Proc.forUpTo (fun _ => item) 0 count call =
      Proc.forUpTo (fun _ => item') 0 count call := by
  refine @Proc.forUpTo_congr _ _ _ _
    (fun c => c.values.state = .outerStruct ∨ c.values.state = .datas)
    (fun i s t hs ht => ?_) (fun i s hs => ?_) count 0 call (Or.inl hstate)
  · rw [(hreturns s _ t ht).state, stateAfter]
    split
    · exact Or.inr rfl
    · exact hs
  · apply hagree
    rcases hs with hs | hs
    · rw [hs]
      exact hn
    · rw [hs]
      exact Nat.le_trans (by decide) hn

omit hreturns in
/-- The members of a definition are read in states of their own. -/
theorem definitionMembers_congr (hn : 1 ≤ n) (count : Nat) (call : Call) :
    Proc.forUpTo (fun i => do setState (.fieldDef i); item) 0 count call =
      Proc.forUpTo (fun i => do setState (.fieldDef i); item') 0 count call :=
  @Proc.forUpTo_congr _ _ _ _ (fun _ => True) (fun _ _ _ _ _ => trivial)
    (fun i s _ => Proc.bind_congr rfl fun _ c hset => hagree c (by
      rw [setState_ok hset, room_fieldDef]
      exact hn)) count 0 call trivial

omit hreturns in
theorem fieldDef_congr {call : Call} (hroom : room call.values.state ≤ n) :
    decodeFieldDef item call = decodeFieldDef item' call := by
  rw [decodeFieldDef, decodeFieldDef, Proc.bind_of_ok Proc.read_apply,
    Proc.bind_of_ok Proc.read_apply]
  refine Proc.bind_congr rfl fun _ c hrequire => ?_
  rw [Proc.require_apply] at hrequire
  split at hrequire
  · cases hrequire
    exact Proc.bind_congr (hagree call hroom) fun _ _ _ => rfl
  · cases hrequire

/-- The definitions are read in the state of the first array. -/
theorem definitions_congr (hn : 2 ≤ n) (count : Nat) {call : Call}
    (hstate : call.values.state = .firstArray) :
    Proc.forUpTo (fun _ => decodeFieldDef item) 0 count call =
      Proc.forUpTo (fun _ => decodeFieldDef item') 0 count call := by
  have hstays : Proc.Ensures item (Stays .firstArray) :=
    hreturns.mono fun s t h hs => by
      rw [h.state, stateAfter, if_neg fun hc => by rw [hs] at hc; cases hc.1]
      exact hs
  have hkeep : Proc.Ensures (decodeFieldDef item) (Stays .firstArray) :=
    ensures_fieldDef (fun _ _ => Keeps.stays) hstays
  exact Proc.forUpTo_congr (fun _ s t hs ht => hkeep s _ t ht hs)
    (fun _ s hs => fieldDef_congr hagree (by rw [hs]; exact hn)) count 0 call
    hstate

theorem structure_congr {call : Call}
    (hroom : room call.values.state ≤ n + 1) :
    decodeStructure item call = decodeStructure item' call := by
  refine Proc.bind_congr rfl fun quantity c ho => ?_
  rw [← (keeps_read 1 _ call quantity c ho).state] at hroom
  rw [Proc.bind_of_ok Proc.read_apply, Proc.bind_of_ok Proc.read_apply]
  split
  · next hroot =>
      rw [hroot] at hroom
      refine Proc.bind_congr rfl fun _ s hset => ?_
      refine Proc.bind_congr ?_ fun _ _ _ => rfl
      exact outerMembers_congr hreturns hagree (Nat.le_of_succ_le_succ hroom) _
        (setState_ok hset)
  · next hfirst =>
      rw [hfirst] at hroom
      refine Proc.bind_congr rfl fun _ s _ => ?_
      refine Proc.bind_congr ?_ fun _ _ _ => rfl
      exact definitionMembers_congr hagree (Nat.le_of_succ_le_succ hroom) _ s
  · rfl

theorem array_congr {call : Call} (hroom : room call.values.state ≤ n + 1) :
    decodeArray item call = decodeArray item' call := by
  refine Proc.bind_congr rfl fun quantity c ho => ?_
  rw [← (keeps_read 1 _ call quantity c ho).state] at hroom
  rw [Proc.bind_of_ok Proc.read_apply, Proc.bind_of_ok Proc.read_apply]
  split
  · next houter =>
      rw [houter] at hroom
      refine Proc.bind_congr rfl fun _ s hset => ?_
      refine Proc.bind_congr ?_ fun _ _ _ => rfl
      exact definitions_congr hreturns hagree (Nat.le_of_succ_le_succ hroom) _
        (setState_ok hset)
  · rfl

end

/-- Any two limits that leave a call the room its state needs make the same
call. -/
theorem decodeItem_agree (n : Nat) :
    ∀ depth depth', n ≤ depth → n ≤ depth' →
      AgreeIn n (decodeItem depth) (decodeItem depth') := by
  induction n with
  | zero =>
      intro depth depth' _ _ call hroom
      have hpos := room_pos call.values.state
      omega
  | succ n ih =>
      intro depth depth' hdepth hdepth' call hroom
      obtain ⟨d, rfl⟩ : ∃ d, depth = d + 1 := ⟨depth - 1, by omega⟩
      obtain ⟨d', rfl⟩ : ∃ d', depth' = d' + 1 := ⟨depth' - 1, by omega⟩
      have hagree := ih d d' (by omega) (by omega)
      have hreturns := decodeItem_returns d
      rw [decodeItem_succ, decodeItem_succ]
      refine Proc.bind_congr rfl fun type c ho => ?_
      rw [← (keeps_read 1 _ call type c ho).state] at hroom
      cases Types.ofByte type with
      | none => rfl
      | some t =>
          cases t with
          | structureType => exact structure_congr hreturns hagree hroom
          | arrayType => exact array_congr hreturns hagree hroom
          | _ => rfl

/-! ## The whole call -/

/-- `pdu_decode` with room for `depth` calls of `decode_item` inside one
another: one more ends the run as `callDepth`. -/
def pduDecodeIn (depth : Nat) : Proc Fault Call PUnit := do
  Proc.ignore (onStream (streamSkip 1))
  Proc.ignore (onStream (streamSkip 4))
  Proc.ignore (onStream (streamSkip 1))
  Proc.ignore (onStream (streamSkip 12))
  decodeItem depth
  let remains ← Proc.read fun call => streamRemains call.stream
  Proc.require (remains = 0)

/-- One call of it on a buffer. -/
def pduCallIn (depth : Nat) (buffer : Buffer) : Outcome Fault Call PUnit :=
  pduDecodeIn depth
    { stream := streamReset buffer, values := {}, updates := [] }

theorem pduCallIn_eq {depth : Nat} (h : 4 ≤ depth) (buffer : Buffer) :
    pduCallIn depth buffer = pduCall buffer := by
  rw [pduCallIn, pduDecodeIn, pduCall, pduDecode, header_bind, header_bind]
  refine Proc.bind_congr ?_ fun _ _ _ => rfl
  exact decodeItem_agree 4 depth (BUFFER_SIZE + 1) h (by decide) _
    (Nat.le_refl 4)

theorem pduCall_not_callDepth (buffer : Buffer) (call : Call) :
    pduCall buffer ≠ .fault .callDepth call := by
  have h := pduCall_verdict buffer
  intro hfault
  rw [hfault] at h
  unfold Verdict at h
  split at h <;> obtain ⟨_, ho, _⟩ := h <;> cases ho

/-- Four calls of `decode_item` inside one another are enough for every
buffer, and a limit of four or more changes nothing; and a call that returns
true has read something and left the state it was called in, but for the array
in the outer structure. -/
theorem decodeItem_bounded :
    (∀ buffer depth, 4 ≤ depth → pduCallIn depth buffer = pduCall buffer) ∧
    (∀ buffer depth call, 4 ≤ depth →
      pduCallIn depth buffer ≠ .fault .callDepth call) ∧
    ∀ depth call call', decodeItem depth call = .ok ⟨⟩ call' →
      Returns call call' := by
  refine ⟨fun buffer depth h => pduCallIn_eq h buffer, ?_, ?_⟩
  · intro buffer depth call h
    rw [pduCallIn_eq h]
    exact pduCall_not_callDepth buffer call
  · exact fun depth call call' h => decodeItem_returns depth call _ call' h

end MBusMeter.Proofs
