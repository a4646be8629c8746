import MBusMeter.Proofs.Reassembly

/-!
# Malformed packets leave no trace

`dlms_decode` has seven exits that answer false. Six of them lie before the
first write to the state; the seventh, the sequence check, is the only one
that changes anything, and what it leaves is what `dlms_init` leaves. So a run
cannot tell whether the packets it rejected for another reason were there: it
is a run of a machine with inputs that change nothing, and these can be left
out or put in.

Which number a packet has is said here by the reads of the source, up to the
comparison. A packet of the longer type that ends in its three extra bytes has
none: the skip fails and is not noticed, and the reads behind it start three
bytes too early, but there are at most two bytes left for them and they need
three.
-/

namespace MBusMeter.Proofs

open Lib Firmware Spec

/-- `dlms_decode` up to the block number. -/
def readBlockNumber : Proc Fault DlmsCall UInt16 := do
  let type ← DlmsCall.onStream streamGetu8
  dlmsType type
  let _ ← DlmsCall.onStream streamGetu8
  DlmsCall.onStream streamGetu16Be

/-- The block number a call on the packet gets to compare. -/
def parsedNumber (packet : Buffer) : Option UInt16 :=
  (readBlockNumber
    { stream := streamReset packet, state := dlmsInit, handed := [] }).value?

/-- The packet has a block number, and another one is expected. -/
def OtherNumber (state : DlmsState) (packet : Buffer) : Prop :=
  ∃ number, parsedNumber packet = some number ∧
    number.toNat ≠ state.nextBlockNumber.toNat

/-- The packet is rejected, and not for its block number. -/
structure Malformed (state : DlmsState) (packet : Buffer) : Prop where
  rejected : (dlmsCall state packet).2.ret = false
  not_number : ¬ OtherNumber state packet

/-- A call that answers false hands nothing over, and leaves the state as it
is or, after another number than expected, as `dlms_init` does. -/
def QuietWhenFalse (state : DlmsState) (packet : Buffer) : Prop :=
  (dlmsCall state packet).2.ret = false →
    (dlmsCall state packet).2.handed = [] ∧
      ((dlmsCall state packet).1 = state ∨
        OtherNumber state packet ∧ (dlmsCall state packet).1 = dlmsInit)

/-! ## The number in the bytes -/

/-- The two reads behind the type. -/
theorem blockNumber_behind (call : DlmsCall) :
    ((do
      let _ ← DlmsCall.onStream streamGetu8
      DlmsCall.onStream streamGetu16Be : Proc Fault DlmsCall UInt16)
      call).value? = (packetBlock call.stream.rest).number := by
  rcases hrest : call.stream.rest with _ | ⟨control, r⟩
  · rw [Proc.bind_of_fail (DlmsCall.onStream_fail (streamGetu8_nil hrest))]
    rfl
  have hr : (call.stream.advance 1).rest = r := Stream.advance_one_rest hrest
  rw [Proc.bind_of_ok (DlmsCall.onStream_ok (streamGetu8_cons hrest))]
  rcases r with _ | ⟨hi, _ | ⟨lo, r⟩⟩
  · rw [DlmsCall.onStream_fail (streamGetu16Be_of_lt (by simp [hr]))]
    rfl
  · rw [DlmsCall.onStream_fail (streamGetu16Be_of_lt (by simp [hr]))]
    rfl
  · rw [DlmsCall.onStream_ok (streamGetu16Be_cons hr)]
    rfl

theorem parsedNumber_eq (packet : Buffer) :
    parsedNumber packet = (dlmsPacket packet.bytes).number := by
  have hrest : (streamReset packet).rest = packet.bytes := rfl
  rw [parsedNumber, readBlockNumber]
  cases hbytes : packet.bytes with
  | nil =>
      rw [Proc.bind_of_fail (DlmsCall.onStream_fail
        (streamGetu8_nil (hrest.trans hbytes)))]
      rfl
  | cons type r =>
      have hr : ((streamReset packet).advance 1).rest = r :=
        Stream.advance_one_rest (hrest.trans hbytes)
      rw [Proc.bind_of_ok (DlmsCall.onStream_ok
        (streamGetu8_cons (hrest.trans hbytes))), dlmsType, dlmsPacket]
      split
      · obtain ⟨stream, hskip, hblock⟩ := skipExtra
          { stream := (streamReset packet).advance 1
            state := dlmsInit
            handed := [] }
        rw [Proc.bind_of_ok hskip, blockNumber_behind, hblock, hr]
      · split
        · rw [Proc.bind_of_ok Proc.pure_apply, blockNumber_behind, hr]
        · rfl

/-! ## One call -/

/-- The two ways a call answers false. -/
theorem dlmsCall_false {state : DlmsState} {packet : Buffer}
    (h : (dlmsCall state packet).2.ret = false) :
    dlmsCall state packet = (state, ⟨false, []⟩) ∨
      OtherNumber state packet ∧
        dlmsCall state packet = (dlmsInit, ⟨false, []⟩) := by
  have hnumber := parsedNumber_eq packet
  rcases dlmsCall_cases state packet with ⟨_, hcall⟩ |
      ⟨last, number, data, hp, hne, hcall⟩ | ⟨_, _, _, _, hcall⟩ |
      ⟨last, number, data, _, _, hcall⟩
  · exact Or.inl hcall
  · rw [hp] at hnumber
    exact Or.inr ⟨⟨number, hnumber, hne⟩, hcall⟩
  · exact Or.inl hcall
  · rw [hcall] at h
    cases last <;> cases h

theorem quietWhenFalse (state : DlmsState) (packet : Buffer) :
    QuietWhenFalse state packet := by
  intro h
  rcases dlmsCall_false h with hcall | ⟨hother, hcall⟩
  · rw [hcall]
    exact ⟨rfl, Or.inl rfl⟩
  · rw [hcall]
    exact ⟨rfl, Or.inr ⟨hother, rfl⟩⟩

/-- A call on a malformed packet is no call at all. -/
theorem Malformed.call_eq {state : DlmsState} {packet : Buffer}
    (h : Malformed state packet) :
    dlmsCall state packet = (state, ⟨false, []⟩) := by
  rcases dlmsCall_false h.rejected with hcall | ⟨hother, _⟩
  · exact hcall
  · exact absurd hother h.not_number

/-- What the malformed packets are: those that end before their number, or
have no type that is known, and those with the number expected whose rest is
not what its length says. -/
theorem malformed_iff (state : DlmsState) (packet : Buffer) :
    Malformed state packet ↔
      dlmsPacket packet.bytes = .headless ∨
      ∃ last number, dlmsPacket packet.bytes = .headed last number none ∧
        number.toNat = state.nextBlockNumber.toNat := by
  have hnumber := parsedNumber_eq packet
  constructor
  · intro h
    rcases dlmsCall_cases state packet with ⟨hp, _⟩ |
        ⟨last, number, data, hp, hne, _⟩ | ⟨last, number, hp, heq, _⟩ |
        ⟨last, number, data, _, _, hcall⟩
    · exact Or.inl hp
    · rw [hp] at hnumber
      exact absurd ⟨number, hnumber, hne⟩ h.not_number
    · exact Or.inr ⟨last, number, hp, heq⟩
    · have hret := h.rejected
      rw [hcall] at hret
      cases last <;> cases hret
  · rintro (hp | ⟨last, number, hp, heq⟩)
    · refine ⟨by rw [dlmsCall_eq, hp]; rfl, ?_⟩
      rintro ⟨number, hsome, _⟩
      rw [hnumber, hp] at hsome
      cases hsome
    · refine ⟨?_, ?_⟩
      · rw [dlmsCall_eq, hp, DlmsState.take, if_neg (not_not_intro heq)]
        rfl
      · rintro ⟨number', hsome, hne⟩
        rw [hnumber, hp] at hsome
        cases hsome
        exact hne heq

/-- Three bytes of the longer type, where the skip is not noticed. -/
example : Malformed dlmsInit ⟨[0xE6, 0x00, 0x00], by decide⟩ :=
  (malformed_iff _ _).mpr (Or.inl rfl)

/-! ## Runs -/

/-- Every call of a run that answers false is quiet, and the run goes on as if
the malformed packets in it, or any of them, had never come: the other calls
answer and hand over what they would without them. -/
theorem malformed_unseen (run : List (Buffer × Bool)) :
    (∀ pre packet post, run.map Prod.fst = pre ++ packet :: post →
      QuietWhenFalse (after dlmsCall dlmsInit pre) packet) ∧
    (LeftOut dlmsCall Malformed dlmsInit run →
      keptOutputs dlmsCall dlmsInit run =
          outputs dlmsCall dlmsInit (keptInputs run) ∧
        payloads dlmsInit (run.map Prod.fst) =
          payloads dlmsInit (keptInputs run)) := by
  refine ⟨fun pre packet post _ => quietWhenFalse _ packet, fun h => ?_⟩
  have hkept := (h.mono fun state packet hm =>
    congrArg Prod.fst hm.call_eq).keptOutputs_eq
  have hpayloads : payloads dlmsInit (run.map Prod.fst) =
      (keptOutputs dlmsCall dlmsInit run).flatMap fun r =>
        r.handed.map Buffer.bytes :=
    (h.mono fun state packet hm => by rw [hm.call_eq]; rfl).flatMap_eq
  refine ⟨hkept, ?_⟩
  rw [hpayloads, hkept]
  rfl

/-- The one block of a message of one byte. -/
def lastBlock : Buffer :=
  ⟨[0xE0, 0x80, 0x00, 0x01, 0x00, 0x00, 0x01, 0x2A], by decide⟩

/-- A packet that ends behind its type, and the block. -/
def strayInFront : List (Buffer × Bool) :=
  [(⟨[0xE0], by decide⟩, false), (lastBlock, true)]

/-- The payload is handed over as if the block had come alone. -/
theorem malformed_unseen_stray :
    LeftOut dlmsCall Malformed dlmsInit strayInFront ∧
      payloads dlmsInit (strayInFront.map Prod.fst) = [[0x2A]] ∧
      payloads dlmsInit (strayInFront.map Prod.fst) =
        payloads dlmsInit [lastBlock] := by
  have hleftOut : LeftOut dlmsCall Malformed dlmsInit strayInFront := by
    intro pre packet post hrun
    rcases pre with _ | ⟨a, _ | ⟨b, pre⟩⟩
    · injection hrun with hhead _
      rw [(Prod.mk.inj hhead).1.symm]
      exact (malformed_iff _ _).mpr (Or.inl rfl)
    · injection hrun with _ htail
      injection htail with hhead _
      cases (Prod.mk.inj hhead).2
    · injection hrun with _ htail
      injection htail with _ htail
      cases pre <;> cases htail
  exact ⟨hleftOut, by decide +kernel,
    ((malformed_unseen strayInFront).2 hleftOut).2⟩

end MBusMeter.Proofs
