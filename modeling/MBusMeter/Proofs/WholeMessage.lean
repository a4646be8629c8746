import MBusMeter.Proofs.Reassembly

/-!
# When a message gets through whole

A message of up to 255 blocks is delivered from the states that expect block 1
and hold nothing, and from no other: where another block is expected, block 1
of the new message is the block that puts the state back, and it is not looked
at again. The counter that expects it is eight bits wide and the number it is
compared with sixteen. It is one more than the count of accepted blocks for as
long as no message goes past block 255, and behind that block it expects
number 0.
-/

namespace MBusMeter.Proofs

open Lib Firmware Spec

/-- The blocks of the message, fed in order, call the handler once, on the
last of them and with the message, and leave the state of `dlms_init`. -/
def Delivered {n : Nat} (state : DlmsState) (m : Message n) : Prop :=
  handedBytes state m.blocks =
      List.replicate (m.blocks.length - 1) [] ++ [[m.payload]] ∧
    afterBlocks state m.blocks = dlmsInit

/-- The bytes left behind from before, followed by those blocks of the message
that still fit, spell the message by chance. -/
def SpellsAnyway {n : Nat} (state : DlmsState) (m : Message n) : Prop :=
  (storeAll state.buffer (m.blocks.map Block.data)).bytes = m.payload

/-- Data that fits is stored whole. -/
theorem storeAll_bytes (data : List (List UInt8)) :
    ∀ (buffer : Buffer), buffer.len + data.flatten.length ≤ BUFFER_SIZE →
      (storeAll buffer data).bytes = buffer.bytes ++ data.flatten := by
  induction data with
  | nil => intro buffer _; exact (List.append_nil _).symm
  | cons d data ih =>
      intro buffer hlen
      rw [List.flatten_cons, List.length_append] at hlen
      have hd : (buffer.store d).bytes = buffer.bytes ++ d :=
        Buffer.store_bytes (by omega)
      have hrest := ih (buffer.store d) (by
        rw [Buffer.len, hd, List.length_append, ← Buffer.len]
        omega)
      rw [storeAll, List.foldl_cons, ← storeAll, hrest, hd, List.flatten_cons,
        List.append_assoc]

theorem spells_of_empty {n : Nat} {state : DlmsState} (m : Message n)
    (h : state.buffer.bytes = []) : SpellsAnyway state m := by
  rw [SpellsAnyway, storeAll_bytes _ _ (by
    have hle := m.payload_le
    rw [Buffer.len, h, List.length_nil, Nat.zero_add]
    exact hle), h]
  rfl

theorem toNat_eq_one_iff (n : UInt8) : n.toNat = 1 ↔ n = 1 :=
  ⟨fun h => UInt8.toNat_inj.mp h, fun h => by rw [h]; rfl⟩

/-- Out of step, no message is delivered. -/
theorem not_delivered_of_ne {n : Nat} {state : DlmsState} {m : Message n}
    (h : state.nextBlockNumber ≠ 1) : ¬ Delivered state m := by
  intro hdel
  obtain ⟨hout, _⟩ := hdel
  have hne : state.nextBlockNumber.toNat ≠ 0 + 1 :=
    fun h1 => h ((toNat_eq_one_iff _).mp h1)
  have hnone := (blocks_out_of_step m.numbered state hne).1
  have hmem : [m.payload] ∈ handedBytes state m.blocks := by
    rw [hout]
    exact List.mem_append_right _ (List.mem_singleton_self _)
  rw [hnone] at hmem
  cases List.eq_of_mem_replicate hmem

/-- In step, what is handed over is what the buffer made of the blocks. -/
theorem delivered_iff_spells {state : DlmsState} (m : Message 255)
    (h : state.nextBlockNumber = 1) :
    Delivered state m ↔ SpellsAnyway state m := by
  obtain ⟨hout, hafter⟩ := blocks_in_step m.numbered state
    ((toNat_eq_one_iff _).mpr h) (by have hle := m.blocks_le; omega)
  constructor
  · intro hboth
    obtain ⟨hdel, _⟩ := hboth
    rw [hout] at hdel
    have hlast := List.append_cancel_left hdel
    simpa [SpellsAnyway] using hlast
  · intro hspell
    exact ⟨by rw [hout, hspell], hafter⟩

def emptyBlock : Block where
  extra := none
  control := 0x80
  number := 1
  ack := (0, 0)
  data := []
  data_le := Nat.zero_le _

/-- The message of one block without data. -/
def emptyMessage : Message 255 where
  blocks := [emptyBlock]
  numbered := .final rfl rfl
  blocks_le := by decide
  payload_le := by decide

/-- A message of up to 255 blocks is delivered exactly where block 1 is
expected and nothing is stored — or what is stored, left behind by a counter
that wrapped around, happens to complete the message. Every message is
delivered exactly where block 1 is expected and nothing is stored. -/
theorem delivered_iff (state : DlmsState) :
    (∀ m : Message 255, Delivered state m ↔
      state.nextBlockNumber = 1 ∧
        (state.buffer.bytes = [] ∨ SpellsAnyway state m)) ∧
    ((∀ m : Message 255, Delivered state m) ↔
      state.nextBlockNumber = 1 ∧ state.buffer.bytes = []) := by
  have hone : ∀ m : Message 255, Delivered state m →
      state.nextBlockNumber = 1 := by
    intro m hdel
    by_contra hne
    exact not_delivered_of_ne hne hdel
  refine ⟨fun m => ⟨fun hdel => ?_, ?_⟩, fun hall => ?_, ?_⟩
  · have h1 := hone m hdel
    exact ⟨h1, Or.inr ((delivered_iff_spells m h1).mp hdel)⟩
  · rintro ⟨h1, hempty | hspell⟩
    · exact (delivered_iff_spells m h1).mpr (spells_of_empty m hempty)
    · exact (delivered_iff_spells m h1).mpr hspell
  · have h1 := hone emptyMessage (hall emptyMessage)
    refine ⟨h1, ?_⟩
    have hspell := (delivered_iff_spells emptyMessage h1).mp (hall emptyMessage)
    have hbytes := storeAll_bytes [[]] state.buffer state.buffer.len_le
    rw [List.flatten_singleton, List.append_nil] at hbytes
    exact hbytes.symm.trans hspell
  · rintro ⟨h1, hempty⟩ m
    exact (delivered_iff_spells m h1).mpr (spells_of_empty m hempty)

/-- After block 1 of a message that never ends, the one block of the next
message is lost. -/
theorem next_message_lost :
    ¬ ∀ state : DlmsState, state.Reached →
      ∀ m : Message 255, Delivered state m := by
  intro h
  have hreach : (⟨⟨[0xAA], by decide⟩, 2⟩ : DlmsState).Reached :=
    ⟨[⟨[0xE0, 0x00, 0x00, 0x01, 0x00, 0x00, 0x01, 0xAA], by decide⟩],
      by decide +kernel⟩
  exact not_delivered_of_ne (by decide) (h _ hreach emptyMessage)

/-! ## The counter -/

/-- The counter in a state reached by `pre`: one more than the accepted
blocks of the message, one exactly when there are none, and never zero for a
block to match. -/
structure CounterFollows (pre : List Buffer) : Prop where
  count : (after dlmsCall dlmsInit pre).nextBlockNumber.toNat =
    (history pre).accepted.length + 1
  start : (after dlmsCall dlmsInit pre).nextBlockNumber = 1 ↔
    (history pre).accepted = []
  empty : (history pre).accepted = [] →
    (after dlmsCall dlmsInit pre).buffer.bytes = []
  zero : ∀ packet last data,
    dlmsPacket packet.bytes = .headed last 0 data →
    (dlmsCall (after dlmsCall dlmsInit pre) packet).2.ret = false

/-- Whenever the run accepts block 255 of a message, it is the last. -/
def NeverPast255 (packets : List Buffer) : Prop :=
  ∀ pre packet post, packets = pre ++ packet :: post →
    ∀ last number data,
      Accepts (after dlmsCall dlmsInit pre) packet last number data →
      (after dlmsCall dlmsInit pre).nextBlockNumber = 255 → last = true

/-- All of it follows from the count. -/
theorem counterFollows_of_lt {pre : List Buffer}
    (h : (history pre).accepted.length < 255) : CounterFollows pre := by
  obtain ⟨hnext, hbuffer⟩ := history_tracks pre
  rw [history_state] at hnext hbuffer
  rw [Nat.mod_eq_of_lt (by omega)] at hnext
  refine ⟨hnext, ?_, ?_, ?_⟩
  · rw [← toNat_eq_one_iff, hnext, ← List.length_eq_zero_iff]
    omega
  · intro hempty
    rw [hbuffer, hempty]
    rfl
  · intro packet last data hp
    have hne : (0 : UInt16).toNat ≠
        (after dlmsCall dlmsInit pre).nextBlockNumber.toNat := by
      rw [hnext]
      exact (Nat.succ_ne_zero _).symm
    rw [dlmsCall_eq, hp, DlmsState.take, if_pos hne]

theorem NeverPast255.front {packets : List Buffer} {packet : Buffer}
    (h : NeverPast255 (packets ++ [packet])) : NeverPast255 packets := by
  intro pre x post hsplit
  exact h pre x (post ++ [packet]) (by rw [hsplit]; simp)

theorem accepted_lt_of_neverPast255 {packets : List Buffer}
    (h : NeverPast255 packets) : (history packets).accepted.length < 255 := by
  induction packets using List.reverseRecOn with
  | nil => exact Nat.zero_lt_succ _
  | append_singleton packets packet ih =>
      have hlt := ih h.front
      rw [history_snoc]
      rcases (history packets).step_cases packet with
        ⟨_, _, hstep | hstep⟩ | ⟨last, number, data, hacc, _, _, hstep⟩
      · rw [hstep]; exact hlt
      · rw [hstep]; exact Nat.zero_lt_succ _
      · rw [hstep]
        cases last with
        | true => exact Nat.zero_lt_succ _
        | false =>
            have hcount := (counterFollows_of_lt hlt).count
            rw [history_state] at hacc
            have hne : (after dlmsCall dlmsInit packets).nextBlockNumber ≠
                255 := fun h255 =>
              absurd (h packets packet [] rfl false number data hacc h255)
                Bool.false_ne_true
            have hne' : (history packets).accepted.length + 1 ≠ 255 :=
              fun h255 => hne (UInt8.toNat_inj.mp (hcount.trans h255))
            show ((history packets).accepted ++ [data]).length < 255
            rw [List.length_append, List.length_singleton]
            omega

/-- From `dlms_init`, a message is delivered if the counter can count it. -/
theorem delivered_init_iff (m : Message 65535) :
    Delivered dlmsInit m ↔ m.blocks.length ≤ 255 := by
  constructor
  · intro hboth
    obtain ⟨hout, _⟩ := hboth
    by_contra hlong
    have hnone := blocks_too_many m.numbered dlmsInit (Nat.zero_le _) rfl
      (by omega)
    have hmem : [m.payload] ∈ handedBytes dlmsInit m.blocks := by
      rw [hout]
      exact List.mem_append_right _ (List.mem_singleton_self _)
    rw [hnone] at hmem
    cases List.eq_of_mem_replicate hmem
  · intro hle
    have hdel : Delivered dlmsInit
        (⟨m.blocks, m.numbered, hle, m.payload_le⟩ : Message 255) :=
      (delivered_iff_spells _ rfl).mpr (spells_of_empty _ rfl)
    exact hdel

/-- The counter follows the block number through every state of a run exactly
when no message of the run goes past block 255, and a message of up to 65535
blocks is delivered from the initial state exactly when it has no more than
255. -/
theorem counter_follows_iff (packets : List Buffer) (m : Message 65535) :
    ((∀ pre, pre <+: packets → CounterFollows pre) ↔ NeverPast255 packets) ∧
      (Delivered dlmsInit m ↔ m.blocks.length ≤ 255) := by
  refine ⟨⟨?_, ?_⟩, delivered_init_iff m⟩
  · intro h pre packet post hsplit last number data hacc h255
    cases last with
    | true => rfl
    | false =>
        -- One block further the count is 255 and the counter is back at 0.
        have hpre : pre <+: packets := ⟨packet :: post, hsplit.symm⟩
        have hsnoc : pre ++ [packet] <+: packets :=
          ⟨post, by rw [hsplit]; simp⟩
        have hcount := (h pre hpre).count
        have hcount' := (h (pre ++ [packet]) hsnoc).count
        rw [← history_state] at hacc hcount'
        rcases (history pre).step_cases packet with
          ⟨_, hno, _⟩ | ⟨last', number', data', hacc', _, _, hstep⟩
        · exact absurd hacc (hno _ _ _)
        · have hlast : last' = false := by
            have heq := hacc.1.symm.trans hacc'.1
            cases heq
            rfl
          rw [history_snoc, hstep, hlast, if_neg Bool.false_ne_true,
            succ_toNat, history_state, h255, List.length_append,
            List.length_singleton, show (255 : UInt8).toNat = 255 from rfl]
            at hcount'
          omega
  · intro h pre hpre
    obtain ⟨post, rfl⟩ := hpre
    refine counterFollows_of_lt (accepted_lt_of_neverPast255 ?_)
    intro pre' packet post' hsplit
    exact h pre' packet (post' ++ post) (by rw [hsplit]; simp)

/-- The blocks of a message without data, from block `k + 1` to `k + n + 1`. -/
def emptyBlocks (k : Nat) : Nat → List Block
  | 0 => [{ extra := none, control := 0x80, number := (k + 1).toUInt16,
            ack := (0, 0), data := [], data_le := Nat.zero_le _ }]
  | n + 1 =>
      { extra := none, control := 0x00, number := (k + 1).toUInt16,
        ack := (0, 0), data := [], data_le := Nat.zero_le _ } ::
        emptyBlocks (k + 1) n

theorem emptyBlocks_numbered (n : Nat) : ∀ k, k + n < 65535 →
    BlocksFrom k (emptyBlocks k n) := by
  induction n with
  | zero =>
      intro k hk
      exact .final (Nat.mod_eq_of_lt (by omega)) (by simp [Block.last])
  | succ n ih =>
      intro k hk
      exact .more (Nat.mod_eq_of_lt (by omega)) (by simp [Block.last])
        (ih (k + 1) (by omega))

/-- A message of 256 blocks, none of which carries data. -/
def message256 : Message 65535 where
  blocks := emptyBlocks 0 255
  numbered := emptyBlocks_numbered 255 0 (by decide)
  blocks_le := by decide +kernel
  payload_le := by decide +kernel

/-- It is never handed over. -/
theorem message256_lost :
    ¬ ((∀ packets, CounterFollows packets) ∧
      ∀ m : Message 65535, Delivered dlmsInit m) := by
  intro hboth
  obtain ⟨_, h⟩ := hboth
  have hout := (h message256).1
  have hnone := blocks_too_many message256.numbered dlmsInit (Nat.zero_le _)
    rfl (by decide +kernel)
  have hmem : [message256.payload] ∈
      handedBytes dlmsInit message256.blocks := by
    rw [hout]
    exact List.mem_append_right _ (List.mem_singleton_self _)
  rw [hnone] at hmem
  cases List.eq_of_mem_replicate hmem

end MBusMeter.Proofs
