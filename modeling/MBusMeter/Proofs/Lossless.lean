import MBusMeter.Proofs.Reassembly

/-!
# What a full buffer costs

`stream_get_buffer` does not look at the answer of `buffer_add_bytes`, so a
block that no longer fits is counted and answered with true like any other,
and its data is gone. A run loses nothing exactly when it never gets there:
as long as the data of every accepted block fits behind what is stored, the
buffer is the concatenation of the accepted data, and what is handed over is
that concatenation too; and the first block that does not fit breaks it.
-/

namespace MBusMeter.Proofs

open Lib Firmware Spec

/-- A call that loses nothing: what it hands over is all the data accepted so
far and its own, and data that cannot be stored is not reported as decoded. -/
structure CallLossless (pre : List Buffer) (packet : Buffer) : Prop where
  handed : ∀ p ∈ (dlmsCall (after dlmsCall dlmsInit pre) packet).2.handed,
    p.bytes = (history pre).accepted.flatten ++ dataField packet
  refused : (after dlmsCall dlmsInit pre).buffer.len +
      (dataField packet).length > BUFFER_SIZE →
    (dlmsCall (after dlmsCall dlmsInit pre) packet).2 = ⟨false, []⟩

/-- Every call of the run loses nothing. -/
def Lossless (packets : List Buffer) : Prop :=
  ∀ pre packet post, packets = pre ++ packet :: post → CallLossless pre packet

/-- Whenever the run accepts a block, its data fits behind what is stored. -/
def AlwaysFits (packets : List Buffer) : Prop :=
  ∀ pre packet post, packets = pre ++ packet :: post →
    ∀ last number data,
      Accepts (after dlmsCall dlmsInit pre) packet last number data →
      (after dlmsCall dlmsInit pre).buffer.len + data.length ≤ BUFFER_SIZE

theorem dataField_of_accepts {state : DlmsState} {packet : Buffer}
    {last : Bool} {number : UInt16} {data : List UInt8}
    (h : Accepts state packet last number data) : dataField packet = data := by
  rw [dataField, h.1]

theorem AlwaysFits.front {packets : List Buffer} {packet : Buffer}
    (h : AlwaysFits (packets ++ [packet])) : AlwaysFits packets := by
  intro pre x post hsplit
  exact h pre x (post ++ [packet]) (by rw [hsplit]; simp)

/-- As long as everything fits, the buffer is the accepted data. -/
theorem AlwaysFits.buffer_eq {packets : List Buffer}
    (h : AlwaysFits packets) :
    (history packets).state.buffer.bytes =
      (history packets).accepted.flatten := by
  induction packets using List.reverseRecOn with
  | nil => rfl
  | append_singleton packets packet ih =>
      have hbuf := ih h.front
      rw [history_snoc]
      rcases (history packets).step_cases packet with
        ⟨_, _, hstep | hstep⟩ | ⟨last, number, data, hacc, _, _, hstep⟩
      · rw [hstep]; exact hbuf
      · rw [hstep]; rfl
      · have hfit := h packets packet [] rfl last number data
        rw [← history_state] at hfit
        rw [hstep]
        cases last with
        | true => rfl
        | false =>
            show ((history packets).state.buffer.store data).bytes =
              ((history packets).accepted ++ [data]).flatten
            rw [Buffer.store_bytes (hfit hacc), hbuf, List.flatten_append,
              List.flatten_singleton]

/-- A block that is accepted and does not fit is a loss. -/
theorem not_callLossless {pre : List Buffer} {packet : Buffer} {last : Bool}
    {number : UInt16} {data : List UInt8}
    (hacc : Accepts (after dlmsCall dlmsInit pre) packet last number data)
    (hfull : (after dlmsCall dlmsInit pre).buffer.len + data.length >
      BUFFER_SIZE) :
    ¬ CallLossless pre packet := by
  intro h
  have hres := h.refused (by rw [dataField_of_accepts hacc]; exact hfull)
  have hret := congrArg DlmsResult.ret hres
  rw [dlmsCall_accepts hacc, DlmsState.accept] at hret
  cases last <;> cases hret

/-- A run loses nothing exactly when the data of every block it accepts fits
behind what is stored. -/
theorem lossless_iff_alwaysFits (packets : List Buffer) :
    Lossless packets ↔ AlwaysFits packets := by
  constructor
  · intro h pre packet post hsplit last number data hacc
    by_contra hfull
    exact not_callLossless hacc (by omega) (h pre packet post hsplit)
  · intro h pre packet post hsplit
    have hpre : AlwaysFits pre := by
      intro pre' x post' hsplit'
      exact h pre' x (post' ++ packet :: post) (by rw [hsplit, hsplit']; simp)
    have hbuf := hpre.buffer_eq
    have hfit := h pre packet post hsplit
    rw [← history_state] at hfit
    rcases (history pre).step_cases packet with
      ⟨hres, _, _⟩ | ⟨last, number, data, hacc, hdata, hres, _⟩
    · rw [history_state] at hres
      refine ⟨fun p hp => ?_, fun _ => hres⟩
      rw [hres] at hp
      cases hp
    · have hle := hfit last number data hacc
      refine ⟨fun p hp => ?_, fun hfull => ?_⟩
      · rw [← history_state, hres] at hp
        cases last with
        | true =>
            rw [List.mem_singleton.mp hp, Buffer.store_bytes hle, hbuf, hdata]
        | false => cases hp
      · rw [← history_state, hdata] at hfull
        omega

/-- Block `number` of five, with 255 zero bytes of data. -/
def bigBlock (number : UInt16) (last : Bool) : Block where
  extra := none
  control := if last then 0x80 else 0
  number := number
  ack := (0, 0)
  data := List.replicate 255 0
  data_le := Nat.le_of_eq List.length_replicate

/-- The first four of them: 1020 bytes. -/
def fourBigBlocks : List Buffer :=
  [(bigBlock 1 false).packet, (bigBlock 2 false).packet,
    (bigBlock 3 false).packet, (bigBlock 4 false).packet]

/-- The fifth does not fit. It is answered with true all the same, and the
message is handed over without it. -/
theorem five_big_blocks_lossy : ¬ ∀ packets, Lossless packets := by
  intro h
  have hlen : (after dlmsCall dlmsInit fourBigBlocks).buffer.len = 1020 := by
    decide +kernel
  have hnext : (after dlmsCall dlmsInit fourBigBlocks).nextBlockNumber = 5 := by
    decide +kernel
  have hacc : Accepts (after dlmsCall dlmsInit fourBigBlocks)
      (bigBlock 5 true).packet true 5 (List.replicate 255 0) :=
    ⟨dlmsPacket_wire (bigBlock 5 true), by rw [hnext]; rfl⟩
  have hfull : (after dlmsCall dlmsInit fourBigBlocks).buffer.len +
      (List.replicate 255 (0 : UInt8)).length > BUFFER_SIZE := by
    rw [hlen, List.length_replicate]
    decide
  exact not_callLossless hacc hfull
    (h (fourBigBlocks ++ [(bigBlock 5 true).packet]) fourBigBlocks _ [] rfl)

end MBusMeter.Proofs
