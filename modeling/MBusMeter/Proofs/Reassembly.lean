import MBusMeter.Proofs.DlmsPacket
import MBusMeter.Spec.Dlms

/-!
# Runs of the reassembler

Two things decide what a run of `dlms_decode` does: the number it expects,
eight bits wide, and the bytes it has stored, at most `BUFFER_SIZE` of them.
Both are functions of one history, the data of the blocks accepted since the
last message began: `Tracks` says which, and holds in every state of every
run. What the narrow counter and the full buffer cost can be read off it.

A message fed whole is the other half. From a state that expects its first
block it is taken to the end and leaves the state `dlms_init` leaves; from any
other state its first block is spent on putting the state back, the blocks
behind it come out of sequence, and the state is `dlms_init`'s all the same.
-/

namespace MBusMeter.Proofs

open Lib Firmware Spec

/-- A block reads back as what it is. -/
theorem dlmsPacket_wire (b : Block) :
    dlmsPacket b.wire = .headed b.last b.number (some b.data) := by
  have hlen : b.data.length.toUInt8.toNat = b.data.length := by
    have hle := b.data_le
    simp only [Nat.toUInt8_eq, UInt8.toNat_ofNat']
    omega
  have hblock : ∀ x y : UInt8,
      packetBlock (b.control :: bytes16 b.number ++
        x :: y :: b.data.length.toUInt8 :: b.data) =
        .headed b.last b.number (some b.data) := by
    intro x y
    simp only [bytes16, List.cons_append, List.nil_append, packetBlock,
      packetData, if_pos hlen, word16_bytes16]
    rfl
  rw [Block.wire, Block.type]
  split
  · exact hblock _ _
  · exact hblock _ _

/-- The three things a well-formed block can do. -/
theorem dlmsCall_block (state : DlmsState) (b : Block) :
    dlmsCall state b.packet =
      if b.number.toNat ≠ state.nextBlockNumber.toNat then
        (dlmsInit, ⟨false, []⟩)
      else state.accept b.last (some b.data) := by
  rw [dlmsCall_eq, Block.packet, dlmsPacket_wire, DlmsState.take]

theorem dlmsCall_other {state : DlmsState} {b : Block}
    (h : b.number.toNat ≠ state.nextBlockNumber.toNat) :
    dlmsCall state b.packet = (dlmsInit, ⟨false, []⟩) := by
  rw [dlmsCall_block, if_pos h]

theorem dlmsCall_last {state : DlmsState} {b : Block}
    (h : b.number.toNat = state.nextBlockNumber.toNat)
    (hlast : b.last = true) :
    dlmsCall state b.packet =
      (dlmsInit, ⟨true, [state.buffer.store b.data]⟩) := by
  rw [dlmsCall_block, if_neg (not_not_intro h), DlmsState.accept,
    if_pos hlast]

theorem dlmsCall_more {state : DlmsState} {b : Block}
    (h : b.number.toNat = state.nextBlockNumber.toNat)
    (hlast : b.last = false) :
    dlmsCall state b.packet =
      ({ buffer := state.buffer.store b.data
         nextBlockNumber := state.nextBlockNumber + 1 }, ⟨true, []⟩) := by
  rw [dlmsCall_block, if_neg (not_not_intro h), DlmsState.accept,
    if_neg (by rw [hlast]; exact Bool.false_ne_true)]

theorem succ_toNat (n : UInt8) : (n + 1).toNat = (n.toNat + 1) % 256 := by
  rw [UInt8.toNat_add]
  rfl

/-! ## Whole messages -/

/-- The tail of a message from block `k + 1` on. -/
abbrev BlocksFrom (k : Nat) (bs : List Block) : Prop :=
  MessageFrom (fun b => b.number.toNat) Block.last k bs

/-- What a run over blocks hands over, block by block. -/
def handedBytes (state : DlmsState) (bs : List Block) :
    List (List (List UInt8)) :=
  (outputs dlmsCall state (bs.map Block.packet)).map fun r =>
    r.handed.map Buffer.bytes

/-- The state after a run over blocks. -/
def afterBlocks (state : DlmsState) (bs : List Block) : DlmsState :=
  after dlmsCall state (bs.map Block.packet)

/-- A buffer after it was offered the data of some blocks, one by one. -/
def storeAll (buffer : Buffer) (data : List (List UInt8)) : Buffer :=
  data.foldl Buffer.store buffer

theorem handedBytes_cons (state : DlmsState) (b : Block) (bs : List Block) :
    handedBytes state (b :: bs) =
      (dlmsCall state b.packet).2.handed.map Buffer.bytes ::
        handedBytes (dlmsCall state b.packet).1 bs := rfl

theorem afterBlocks_cons (state : DlmsState) (b : Block) (bs : List Block) :
    afterBlocks state (b :: bs) =
      afterBlocks (dlmsCall state b.packet).1 bs := rfl

/-- Out of step, nothing is handed over and the state is put back. -/
theorem blocks_out_of_step {k : Nat} {bs : List Block}
    (hm : BlocksFrom k bs) :
    ∀ (state : DlmsState), state.nextBlockNumber.toNat ≠ k + 1 →
      handedBytes state bs = List.replicate bs.length [] ∧
        afterBlocks state bs = dlmsInit := by
  induction hm with
  | @final k b hnum hlast =>
      intro state hne
      have hcall : dlmsCall state b.packet = _ :=
        dlmsCall_other (hnum.trans_ne hne.symm)
      rw [handedBytes_cons, afterBlocks_cons, hcall]
      exact ⟨rfl, rfl⟩
  | @more k b bs hnum hlast htail ih =>
      intro state hne
      have hcall : dlmsCall state b.packet = _ :=
        dlmsCall_other (hnum.trans_ne hne.symm)
      -- The next block's number is at least two, and one is expected.
      obtain ⟨hout, hafter⟩ := ih dlmsInit (by
        show 1 ≠ _
        omega)
      rw [handedBytes_cons, afterBlocks_cons, hcall]
      exact ⟨congrArg (List.cons []) hout, hafter⟩

/-- In step, and with the counter wide enough, the message is handed over on
its last block and the state is put back. -/
theorem blocks_in_step {k : Nat} {bs : List Block} (hm : BlocksFrom k bs) :
    ∀ (state : DlmsState), state.nextBlockNumber.toNat = k + 1 →
      k + bs.length ≤ 255 →
      handedBytes state bs =
          List.replicate (bs.length - 1) [] ++
            [[(storeAll state.buffer (bs.map Block.data)).bytes]] ∧
        afterBlocks state bs = dlmsInit := by
  induction hm with
  | final hnum hlast =>
      intro state hnext _
      rw [handedBytes_cons, afterBlocks_cons,
        dlmsCall_last (hnum.trans hnext.symm) hlast]
      exact ⟨rfl, rfl⟩
  | @more k b bs hnum hlast htail ih =>
      intro state hnext hlen
      rw [List.length_cons] at hlen
      have hpos : 0 < bs.length := List.length_pos_iff.mpr htail.ne_nil
      obtain ⟨hout, hafter⟩ := ih
        { buffer := state.buffer.store b.data
          nextBlockNumber := state.nextBlockNumber + 1 }
        (by rw [succ_toNat, hnext, Nat.mod_eq_of_lt (by omega)]) (by omega)
      rw [handedBytes_cons, afterBlocks_cons,
        dlmsCall_more (hnum.trans hnext.symm) hlast]
      refine ⟨?_, hafter⟩
      rw [hout, List.length_cons, Nat.add_sub_cancel]
      obtain ⟨n, hn⟩ : ∃ n, bs.length = n + 1 := ⟨bs.length - 1, by omega⟩
      rw [hn]
      rfl

/-- A message longer than the counter can count falls out of step at block
256, whatever it began with. -/
theorem blocks_too_many {k : Nat} {bs : List Block} (hm : BlocksFrom k bs) :
    ∀ (state : DlmsState), k ≤ 255 →
      state.nextBlockNumber.toNat = (k + 1) % 256 → 255 < k + bs.length →
      handedBytes state bs = List.replicate bs.length [] := by
  induction hm with
  | @final k b hnum hlast =>
      intro state hk hnext hlen
      rw [List.length_singleton] at hlen
      have hcall : dlmsCall state b.packet = _ :=
        dlmsCall_other (hnum.trans_ne (by rw [hnext]; omega))
      rw [handedBytes_cons, hcall]
      rfl
  | @more k b bs hnum hlast htail ih =>
      intro state hk hnext hlen
      rw [List.length_cons] at hlen
      by_cases hwrap : k = 255
      · refine (blocks_out_of_step (.more hnum hlast htail) state ?_).1
        rw [hnext]
        omega
      · have hout := ih
          { buffer := state.buffer.store b.data
            nextBlockNumber := state.nextBlockNumber + 1 }
          (by omega) (by rw [succ_toNat, hnext]; omega) (by omega)
        rw [handedBytes_cons,
          dlmsCall_more (by rw [hnum, hnext]; omega) hlast, hout]
        rfl

/-! ## The history of a run

`History` runs the reassembler and keeps, next to its state, the data of the
calls that returned true since the handler was last called or the sequence
was last put back. It is bookkeeping about the calls, made from their answers;
`Tracks` ties it to the state. -/

/-- The packet has a block number, and it is not the one expected. -/
def outOfSequence (state : DlmsState) (packet : Buffer) : Bool :=
  match dlmsPacket packet.bytes with
  | .headless => false
  | .headed _ number _ => number.toNat != state.nextBlockNumber.toNat

/-- The data field of a packet that has one. -/
def dataField (packet : Buffer) : List UInt8 :=
  match dlmsPacket packet.bytes with
  | .headed _ _ (some data) => data
  | _ => []

/-- The packet is a whole block with the number expected. -/
def Accepts (state : DlmsState) (packet : Buffer) (last : Bool)
    (number : UInt16) (data : List UInt8) : Prop :=
  dlmsPacket packet.bytes = .headed last number (some data) ∧
    number.toNat = state.nextBlockNumber.toNat

structure History where
  state : DlmsState
  accepted : List (List UInt8)

/-- One call, and what it does to the history. -/
def History.step (h : History) (packet : Buffer) : History :=
  let r := dlmsCall h.state packet
  { state := r.1
    accepted :=
      if r.2.handed ≠ [] ∨ outOfSequence h.state packet then []
      else if r.2.ret then h.accepted ++ [dataField packet]
      else h.accepted }

/-- The history of a run from `dlms_init`. -/
def history (packets : List Buffer) : History :=
  packets.foldl History.step ⟨dlmsInit, []⟩

theorem history_snoc (packets : List Buffer) (packet : Buffer) :
    history (packets ++ [packet]) = (history packets).step packet := by
  rw [history, List.foldl_append]
  rfl

theorem history_state (packets : List Buffer) :
    (history packets).state = after dlmsCall dlmsInit packets := by
  induction packets using List.reverseRecOn with
  | nil => rfl
  | append_singleton packets packet ih =>
      rw [history_snoc, after_snoc, ← ih]
      rfl

/-- A call on an accepted packet. -/
theorem dlmsCall_accepts {state : DlmsState} {packet : Buffer} {last : Bool}
    {number : UInt16} {data : List UInt8}
    (h : Accepts state packet last number data) :
    dlmsCall state packet = state.accept last (some data) := by
  rw [dlmsCall_eq, h.1, DlmsState.take, if_neg (not_not_intro h.2)]

/-- What one call can do to the history: a packet turned away leaves it or
clears it, an accepted one lengthens it or, the last of its message, clears
it. -/
theorem History.step_cases (h : History) (packet : Buffer) :
    ((dlmsCall h.state packet).2 = ⟨false, []⟩ ∧
      (∀ last number data, ¬ Accepts h.state packet last number data) ∧
      (h.step packet = h ∨ h.step packet = ⟨dlmsInit, []⟩)) ∨
    (∃ last number data, Accepts h.state packet last number data ∧
      dataField packet = data ∧
      (dlmsCall h.state packet).2 =
        ⟨true, if last then [h.state.buffer.store data] else []⟩ ∧
      h.step packet =
        if last then ⟨dlmsInit, []⟩
        else
          { state :=
              { buffer := h.state.buffer.store data
                nextBlockNumber := h.state.nextBlockNumber + 1 }
            accepted := h.accepted ++ [data] }) := by
  obtain ⟨state, accepted⟩ := h
  rcases dlmsCall_cases state packet with ⟨hp, hcall⟩ |
      ⟨last, number, data, hp, hnum, hcall⟩ | ⟨last, number, hp, hnum, hcall⟩ |
      ⟨last, number, data, hp, hnum, hcall⟩
  · refine Or.inl ⟨congrArg Prod.snd hcall, ?_, Or.inl ?_⟩
    · rintro last' number' data' ⟨hread, _⟩
      rw [hp] at hread
      cases hread
    · simp [History.step, hcall, outOfSequence, hp]
  · refine Or.inl ⟨congrArg Prod.snd hcall, ?_, Or.inr ?_⟩
    · rintro last' number' data' ⟨hread, hnum'⟩
      rw [hp] at hread
      cases hread
      exact hnum hnum'
    · simp [History.step, hcall, outOfSequence, hp, hnum]
  · refine Or.inl ⟨congrArg Prod.snd hcall, ?_, Or.inl ?_⟩
    · rintro last' number' data' ⟨hread, _⟩
      rw [hp] at hread
      cases hread
    · simp [History.step, hcall, outOfSequence, hp, hnum]
  · refine Or.inr ⟨last, number, data, ⟨hp, hnum⟩, ?_, ?_, ?_⟩
    · rw [dataField, hp]
    · rw [hcall, DlmsState.accept]
      cases last <;> rfl
    · cases last <;>
        simp [History.step, hcall, DlmsState.accept, outOfSequence, dataField,
          hp, hnum]

/-- The state as a function of the history: the count of accepted blocks, cut
to eight bits, and their data as far as the buffer took it. -/
structure Tracks (h : History) : Prop where
  next : h.state.nextBlockNumber.toNat = (h.accepted.length + 1) % 256
  buffer : h.state.buffer = storeAll dlmsInit.buffer h.accepted

theorem Tracks.init : Tracks ⟨dlmsInit, []⟩ := ⟨rfl, rfl⟩

theorem Tracks.step {h : History} (ht : Tracks h) (packet : Buffer) :
    Tracks (h.step packet) := by
  rcases h.step_cases packet with
    ⟨_, _, hstep | hstep⟩ | ⟨last, number, data, _, _, _, hstep⟩
  · rw [hstep]; exact ht
  · rw [hstep]; exact Tracks.init
  · rw [hstep]
    cases last with
    | true => exact Tracks.init
    | false =>
        refine ⟨?_, ?_⟩
        · have hnext := ht.next
          show (h.state.nextBlockNumber + 1).toNat =
            ((h.accepted ++ [data]).length + 1) % 256
          rw [succ_toNat, hnext, List.length_append, List.length_singleton]
          omega
        · show h.state.buffer.store data = storeAll _ (h.accepted ++ [data])
          rw [storeAll, List.foldl_append, ht.buffer]
          rfl

/-- Every run tracks. -/
theorem history_tracks (packets : List Buffer) : Tracks (history packets) := by
  induction packets using List.reverseRecOn with
  | nil => exact Tracks.init
  | append_singleton packets packet ih =>
      rw [history_snoc]
      exact ih.step packet

end MBusMeter.Proofs
