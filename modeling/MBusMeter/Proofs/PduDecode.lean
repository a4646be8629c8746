import MBusMeter.Proofs.PduValues

/-!
# A call of `pdu_decode` as a function of the buffer's bytes

The levels put together: the header's skips, the outer structure, the array,
the values. `pduCall_scan` is the whole of `pdu_decode`: how it ends and what
it has told the meter are read off `scan`, and everything proved about the
decoder rests on it alone. In particular no call runs out of the room it was
given for calls inside one another.
-/

namespace MBusMeter.Proofs

open Lib Firmware Firmware.Pdu Spec

/-- Put the state back, whatever the level in between has done. -/
theorem Ends.setState {m : Proc Fault Call PUnit} {call : Call}
    {updates : List MeterUpdate} {e : Ending} {state : State}
    (h : Ends (m call) updates e) :
    Ends ((do m; Pdu.setState state : Proc Fault Call PUnit) call)
      updates e := by
  cases e with
  | done rest =>
      obtain ⟨stream, values, hrest, ho⟩ := h
      exact ⟨stream, { values with state }, hrest,
        (Proc.bind_of_ok ho).trans rfl⟩
  | stuck =>
      obtain ⟨call', ho, hupdates⟩ := h
      exact ⟨call', Proc.bind_of_fail ho, hupdates⟩
  | overrun =>
      obtain ⟨call', ho, hupdates⟩ := h
      exact ⟨call', Proc.bind_of_fault ho, hupdates⟩

/-- How a reading ends and what it tells the meter. -/
def ScanEnds (o : Outcome Fault Call PUnit) (updates : List MeterUpdate)
    (s : Scan) : Prop :=
  Ends o (updates ++ published s.codes s.values) s.ending

theorem Refuses.scanEnds {call : Call} {o : Outcome Fault Call PUnit}
    (h : Refuses call o) : ScanEnds o call.updates ⟨[], [], .stuck⟩ := by
  rw [ScanEnds, published_nil, List.append_nil]
  exact h

/-- The members of the outer structure. -/
theorem members_scanEnds {depth count : Nat} {call : Call}
    (hstate : call.values.state = .outerStruct)
    (htable : Table call.values []) (huse : call.values.curUseField = 0) :
    ScanEnds (Proc.forUpTo (fun _ => decodeItem (depth + 3)) 0 (count + 1) call)
      call.updates (scanMembers count call.stream.rest) := by
  rw [Proc.forUpTo_succ]
  have hrefuses : Refuses call (decodeItem (depth + 3) call) →
      scanMembers count call.stream.rest = ⟨[], [], .stuck⟩ →
      ScanEnds ((decodeItem (depth + 3) >>= fun _ => Proc.forUpTo
        (fun _ => decodeItem (depth + 3)) (0 + 1) count) call)
        call.updates (scanMembers count call.stream.rest) := by
    rintro ⟨call', ho, hupdates⟩ hscan
    rw [hscan]
    exact Refuses.scanEnds ⟨call', Proc.bind_of_fail ho, hupdates⟩
  rcases hrest : call.stream.rest with _ | ⟨type, r⟩
  · rw [hrest] at hrefuses
    exact hrefuses (decodeItem_nil hrest) rfl
  rw [hrest] at hrefuses
  by_cases htype : Types.ofByte type = some .arrayType
  · rcases r with _ | ⟨quantity, r⟩
    · have hr : (call.stream.advance 1).rest = [] :=
        Stream.advance_one_rest hrest
      refine hrefuses ?_ rfl
      rw [decodeItem_cons hrest, htype]
      exact refuses_short hr Nat.zero_lt_one
    · have harray := @decodes_array depth call hstate ⟨htable, huse⟩ type
        quantity r hrest htype
      cases hp : takeDefinitions MAX_FIELDS quantity.toNat r with
      | none =>
          rw [hp] at harray
          exact hrefuses harray (by rw [scanMembers, if_pos htype, hp])
      | some p =>
          rw [hp] at harray
          obtain ⟨stream, values, hrest', ⟨hdatas, huse', htable'⟩, ho⟩ :=
            harray
          have hloop := @values_loop (depth + 2) count (0 + 1)
            ⟨stream, values, call.updates⟩ (keptCodes p.1) hdatas htable'
            (by rw [huse']; exact Nat.zero_le _)
          simp only [huse', List.drop_zero, hrest'] at hloop
          rw [scanMembers, if_pos htype, hp]
          exact Ends.bind_of_ok ho hloop
  · refine hrefuses (decodeItem_unexpected fun type' r' t h ht => ?_) ?_
    · rw [hrest] at h
      cases h
      rw [ht] at htype
      rw [hstate]
      cases t <;> first | rfl | exact absurd rfl htype
    · rcases r with _ | ⟨quantity, r⟩
      · rfl
      · rw [scanMembers, if_neg htype]

/-- The outer structure. -/
theorem body_scanEnds {depth : Nat} {call : Call}
    (hvalues : call.values = {}) :
    ScanEnds (decodeItem (depth + 4) call) call.updates
      (scanBody call.stream.rest) := by
  have hstate : call.values.state = .root := by rw [hvalues]
  rcases hrest : call.stream.rest with _ | ⟨type, r⟩
  · exact (decodeItem_nil hrest).scanEnds
  have hr : (call.stream.advance 1).rest = r := Stream.advance_one_rest hrest
  by_cases htype : Types.ofByte type = some .structureType
  · rw [decodeItem_cons hrest, htype]
    rcases r with _ | ⟨quantity, r⟩
    · exact (refuses_short hr Nat.zero_lt_one).scanEnds
    · have hr' : ((call.stream.advance 1).advance 1).rest = r :=
        Stream.advance_one_rest hr
      rw [decodeType, decodeStructure,
        Proc.bind_of_ok (onStream_ok (streamGetu8_cons hr)),
        Proc.bind_of_ok Proc.read_apply, hstate, scanBody, if_pos htype]
      by_cases hzero : quantity = 0
      · rw [if_pos hzero, hzero, ScanEnds, published_nil, List.append_nil]
        exact ⟨_, _, hr', rfl⟩
      · have hmembers := @members_scanEnds depth (quantity.toNat - 1)
          ⟨(call.stream.advance 1).advance 1,
            { call.values with state := .outerStruct }, call.updates⟩ rfl
          (by rw [hvalues]; exact ⟨rfl, Nat.zero_le _, Table.init.entry⟩)
          (by rw [hvalues])
        have hpos : quantity.toNat - 1 + 1 = quantity.toNat :=
          Nat.sub_add_cancel (Nat.pos_of_ne_zero fun h =>
            hzero (UInt8.toNat_inj.mp h))
        rw [hpos, hr'] at hmembers
        rw [if_neg hzero]
        exact Ends.bind_of_ok rfl (Ends.setState hmembers)
  · have hscan : scanBody (type :: r) = ⟨[], [], .stuck⟩ := by
      rcases r with _ | ⟨quantity, r⟩
      · rfl
      · rw [scanBody, if_neg htype]
    rw [hscan]
    refine Refuses.scanEnds (decodeItem_unexpected fun type' r' t h ht => ?_)
    rw [hrest] at h
    cases h
    rw [ht] at htype
    rw [hstate]
    cases t <;> first | rfl | exact absurd rfl htype

/-- How a call of `pdu_decode` ends: it has read everything, or not, or it has
looked past the table. -/
def Verdict (o : Outcome Fault Call PUnit) (updates : List MeterUpdate) :
    Ending → Prop
  | .done [] => ∃ call, o = .ok ⟨⟩ call ∧ call.updates = updates
  | .done (_ :: _) => ∃ call, o = .fail call ∧ call.updates = updates
  | .stuck => ∃ call, o = .fail call ∧ call.updates = updates
  | .overrun => ∃ call, o = .fault .fieldIndex call ∧ call.updates = updates

/-- What is left to do behind the item. -/
theorem Ends.verdict {m : Proc Fault Call PUnit} {call : Call}
    {updates : List MeterUpdate} {e : Ending} (h : Ends (m call) updates e) :
    Verdict ((do
      m
      let remains ← Proc.read fun call => streamRemains call.stream
      Proc.require (remains = 0) : Proc Fault Call PUnit) call) updates e := by
  cases e with
  | done rest =>
      obtain ⟨stream, values, hrest, ho⟩ := h
      rw [Proc.bind_of_ok ho, Proc.bind_of_ok Proc.read_apply]
      rcases rest with _ | ⟨b, rest⟩
      · exact ⟨_, Proc.require_of (by rw [streamRemains_eq, hrest]; rfl), rfl⟩
      · refine ⟨_, Proc.require_of_not ?_, rfl⟩
        rw [streamRemains_eq, hrest, List.length_cons]
        omega
  | stuck =>
      obtain ⟨call', ho, hupdates⟩ := h
      exact ⟨call', Proc.bind_of_fail ho, hupdates⟩
  | overrun =>
      obtain ⟨call', ho, hupdates⟩ := h
      exact ⟨call', Proc.bind_of_fault ho, hupdates⟩

/-- The four skips in front. -/
theorem header_bind (k : Proc Fault Call PUnit) (call : Call) :
    (do
      Proc.ignore (onStream (streamSkip 1))
      Proc.ignore (onStream (streamSkip 4))
      Proc.ignore (onStream (streamSkip 1))
      Proc.ignore (onStream (streamSkip 12))
      k : Proc Fault Call PUnit) call =
      k { call with
        stream := skipTo 12 (skipTo 1 (skipTo 4 (skipTo 1 call.stream))) } := by
  refine (Proc.bind_of_ok (ignore_skip 1 call)).trans ?_
  refine (Proc.bind_of_ok (ignore_skip 4 _)).trans ?_
  refine (Proc.bind_of_ok (ignore_skip 1 _)).trans ?_
  exact Proc.bind_of_ok (ignore_skip 12 _)

/-- Behind the header. -/
theorem item_verdict (stream : Firmware.Stream) :
    Verdict ((do
      decodeItem (BUFFER_SIZE + 1)
      let remains ← Proc.read fun call => streamRemains call.stream
      Proc.require (remains = 0) : Proc Fault Call PUnit) ⟨stream, {}, []⟩)
      (published (scanBody stream.rest).codes (scanBody stream.rest).values)
      (scanBody stream.rest).ending :=
  Ends.verdict (@body_scanEnds 1021 ⟨stream, {}, []⟩ rfl)

/-- `pdu_decode` reads what `scan` reads. -/
theorem pduCall_verdict (buffer : Buffer) :
    Verdict (pduCall buffer)
      (published (scan buffer.bytes).codes (scan buffer.bytes).values)
      (scan buffer.bytes).ending := by
  have hrest : (skipTo 12 (skipTo 1 (skipTo 4 (skipTo 1
      (streamReset buffer))))).rest = skipHeader buffer.bytes := by
    rw [skipTo_rest, skipTo_rest, skipTo_rest, skipTo_rest, streamReset_rest]
    rfl
  rw [pduCall, pduDecode, header_bind, scan, ← hrest]
  exact item_verdict _

theorem pduCall_updates (buffer : Buffer) :
    (pduCall buffer).state.updates =
      published (scan buffer.bytes).codes (scan buffer.bytes).values := by
  have h := pduCall_verdict buffer
  unfold Verdict at h
  split at h <;> obtain ⟨call, ho, hupdates⟩ := h <;> rw [ho] <;>
    exact hupdates

theorem pduCall_succeeded (buffer : Buffer) :
    (pduCall buffer).succeeded = true ↔
      (scan buffer.bytes).ending = .done [] := by
  have h := pduCall_verdict buffer
  unfold Verdict at h
  split at h <;> next he => obtain ⟨call, ho, _⟩ := h; rw [ho, he]; simp

theorem pduCall_faulted (buffer : Buffer) :
    (pduCall buffer).faulted = true ↔
      (scan buffer.bytes).ending = .overrun := by
  have h := pduCall_verdict buffer
  unfold Verdict at h
  split at h <;> next he => obtain ⟨call, ho, _⟩ := h; rw [ho, he]; simp

end MBusMeter.Proofs
