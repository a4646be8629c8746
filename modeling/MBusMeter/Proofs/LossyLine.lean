import MBusMeter.Proofs.WholeMessage

/-!
# Reassembly on a lossy line

The receiver tells blocks apart by their numbers, and every message starts
over at one. On blocks numbered 1 to 255 the counter of eight bits does what
one without limits would do, so `dlms_decode` agrees with the receiver of
`Lib.Blocks` block by block; what it hands over is made of blocks that arrived
one right after the other, numbered from one. That is all it promises when
blocks get lost: a message whose tail is lost from block j + 1 on is continued
by block j + 1 of a later one, if that is the next block to survive.
-/

namespace MBusMeter.Proofs

open Lib Firmware Spec

/-- The receiver of `Lib.Blocks`, for DLMS blocks. -/
abbrev idealStep : List Block → Block → List Block × Option (List Block) :=
  reassemble (fun b => b.number.toNat) Block.last

/-- The state of `dlms_decode` when the receiver without limits keeps
`kept`. -/
structure Agrees (state : DlmsState) (kept : List Block) : Prop where
  length_le : kept.length ≤ 255
  next : state.nextBlockNumber.toNat = (kept.length + 1) % 256
  buffer : state.buffer = storeAll dlmsInit.buffer (kept.map Block.data)

theorem Agrees.init : Agrees dlmsInit [] := ⟨Nat.zero_le _, rfl, rfl⟩

/-- One block keeps the two in agreement, and they hand over the same. -/
theorem Agrees.step {state : DlmsState} {kept : List Block} {b : Block}
    (h : Agrees state kept) (hpos : 1 ≤ b.number.toNat)
    (hle : b.number.toNat ≤ 255) :
    Agrees (dlmsCall state b.packet).1 (idealStep kept b).1 ∧
      (dlmsCall state b.packet).2.handed =
        ((idealStep kept b).2.map fun m =>
          storeAll dlmsInit.buffer (m.map Block.data)).toList := by
  have hnext := h.next
  have hlen := h.length_le
  have hstore : state.buffer.store b.data =
      storeAll dlmsInit.buffer ((kept ++ [b]).map Block.data) := by
    rw [h.buffer, List.map_append, storeAll, storeAll, List.foldl_append]
    rfl
  by_cases hnum : b.number.toNat = state.nextBlockNumber.toNat
  · -- Number 0 never comes, so the counter has not wrapped around.
    have hideal : b.number.toNat = kept.length + 1 := by omega
    cases hlast : b.last with
    | true =>
        rw [dlmsCall_last hnum hlast, idealStep, reassemble, if_pos hideal,
          if_pos hlast, hstore]
        exact ⟨Agrees.init, rfl⟩
    | false =>
        rw [dlmsCall_more hnum hlast, idealStep, reassemble, if_pos hideal,
          if_neg (by rw [hlast]; exact Bool.false_ne_true), hstore]
        refine ⟨⟨?_, ?_, rfl⟩, rfl⟩
        · rw [List.length_append, List.length_singleton]
          omega
        · rw [succ_toNat, hnext, List.length_append, List.length_singleton]
          omega
  · have hideal : ¬ b.number.toNat = kept.length + 1 := by omega
    rw [dlmsCall_other hnum, idealStep, reassemble, if_neg hideal]
    exact ⟨Agrees.init, rfl⟩

/-- A run over blocks numbered 1 to 255 stays in agreement. -/
theorem agrees_after {bs : List Block}
    (hnum : ∀ b ∈ bs, 1 ≤ b.number.toNat ∧ b.number.toNat ≤ 255) :
    Agrees (afterBlocks dlmsInit bs) (after idealStep [] bs) := by
  induction bs using List.reverseRecOn with
  | nil => exact Agrees.init
  | append_singleton bs b ih =>
      have hb := hnum b (by simp)
      have hfront := ih fun x hx => hnum x (List.mem_append_left _ hx)
      rw [afterBlocks, List.map_append, List.map_singleton, after_snoc,
        after_snoc]
      exact (hfront.step hb.1 hb.2).1

/-- Over blocks numbered 1 to 255, a run of the receiver without limits is one
of the reassembly. -/
theorem agrees_run {bs : List Block} (hnum : ∀ b ∈ bs,
      1 ≤ b.number.toNat ∧ b.number.toNat ≤ 255) :
    ∀ {state : DlmsState} {kept kept' : List Block}
      {handed : List (List Block)}, Agrees state kept →
      Run idealStep kept bs handed kept' →
      Agrees (after dlmsCall state (bs.map Block.packet)) kept' ∧
        (outputs dlmsCall state (bs.map Block.packet)).flatMap
            DlmsResult.handed =
          handed.map fun m =>
            storeAll dlmsInit.buffer (m.map Block.data) := by
  induction bs with
  | nil =>
      rintro state kept kept' handed hagree ⟨rfl, rfl⟩
      exact ⟨hagree, rfl⟩
  | cons b bs ih =>
      rintro state kept kept' handed hagree ⟨hstate, hhanded⟩
      obtain ⟨hpos, hle⟩ := hnum b List.mem_cons_self
      obtain ⟨hagree', hout⟩ := hagree.step hpos hle
      rw [after_cons] at hstate
      rw [outputs_cons] at hhanded
      obtain ⟨hafter, hrest⟩ := ih
        (fun x hx => hnum x (List.mem_cons_of_mem b hx)) hagree' ⟨hstate, rfl⟩
      refine ⟨hafter, ?_⟩
      rw [List.map_cons, outputs_cons, List.flatMap_cons, hout, hrest,
        ← hhanded]
      cases (idealStep kept b).2 with
      | none => rfl
      | some m => rfl

/-- What a run hands over on a block is a message whose blocks are the last
to have arrived. -/
theorem handed_suffix {bs : List Block} {b : Block}
    (hnum : ∀ x ∈ bs ++ [b], 1 ≤ x.number.toNat ∧ x.number.toNat ≤ 255)
    {p : Buffer}
    (hp : p ∈ (dlmsCall (afterBlocks dlmsInit bs) b.packet).2.handed) :
    ∃ front run, bs ++ [b] = front ++ run ∧ BlocksFrom 0 run ∧
      p = storeAll dlmsInit.buffer (run.map Block.data) := by
  have hb := hnum b (by simp)
  have hagree := agrees_after fun x hx => hnum x (List.mem_append_left _ hx)
  rw [(hagree.step hb.1 hb.2).2] at hp
  cases hm : (idealStep (after idealStep [] bs) b).2 with
  | none => rw [hm] at hp; cases hp
  | some run =>
      obtain ⟨⟨front, hfront⟩, hrun⟩ := completed_suffix hm
      rw [hm] at hp
      exact ⟨front, run, hfront, hrun, List.mem_singleton.mp hp⟩

/-! ## The meter sends, the line loses -/

/-- The blocks of the messages, in the order they are sent, each with the
place of its message. -/
def sent (messages : List (Message 255)) : List (Nat × Block) :=
  messages.zipIdx.flatMap fun (m, i) => m.blocks.map fun b => (i, b)

/-- What the survivors look like to `dlms_decode`. -/
def arriving (survivors : List (Nat × Block)) : List Buffer :=
  survivors.map fun x => x.2.packet

/-- Somewhere a block that is not the last of its message is followed by the
next number, from another message. -/
def LinesUp (survivors : List (Nat × Block)) : Prop :=
  ∃ front x y back, survivors = front ++ x :: y :: back ∧ x.1 ≠ y.1 ∧
    x.2.last = false ∧ y.2.number.toNat = x.2.number.toNat + 1

theorem mem_sent {messages : List (Message 255)} {x : Nat × Block}
    (h : x ∈ sent messages) :
    ∃ m, messages[x.1]? = some m ∧ x.2 ∈ m.blocks := by
  obtain ⟨⟨m, i⟩, hmi, hx⟩ := List.mem_flatMap.mp h
  obtain ⟨b, hb, rfl⟩ := List.mem_map.mp hx
  exact ⟨m, List.mem_zipIdx_iff_getElem?.mp hmi, hb⟩

/-- Blocks that follow one another in number, none but the final one marked,
are of one message unless two of them line up. -/
theorem one_message {k : Nat} {run : List (Nat × Block)} {x : Nat × Block}
    (h : BlocksFrom k ((x :: run).map Prod.snd))
    (hno : ¬ LinesUp (x :: run)) : ∀ y ∈ x :: run, y.1 = x.1 := by
  induction run generalizing k x with
  | nil =>
      intro y hy
      rw [List.mem_singleton.mp hy]
  | cons z run ih =>
      obtain ⟨hlast, htail⟩ := h.tail
      have hsame : x.1 = z.1 := by
        by_contra hne
        exact hno ⟨[], x, z, run, rfl, hne, hlast, by rw [htail.head, h.head]⟩
      have hrest := ih htail (by
        intro hline
        obtain ⟨front, a, b, back, heq, hrel⟩ := hline
        exact hno ⟨x :: front, a, b, back, by rw [heq]; rfl, hrel⟩)
      intro y hy
      rcases List.mem_cons.mp hy with rfl | hy
      · rfl
      · rw [hrest y hy, hsame]

/-- Blocks of one message that are a message are that message. -/
theorem payload_of_one_message {messages : List (Message 255)}
    {run : List (Nat × Block)} {i : Nat}
    (hrun : BlocksFrom 0 (run.map Prod.snd))
    (hmem : ∀ x ∈ run, x ∈ sent messages) (hone : ∀ x ∈ run, x.1 = i) :
    ∃ m ∈ messages, run.map Prod.snd = m.blocks := by
  obtain ⟨x, hx⟩ : ∃ x, x ∈ run := by
    cases run with
    | nil => exact absurd rfl hrun.ne_nil
    | cons x run => exact ⟨x, List.mem_cons_self⟩
  obtain ⟨m, hm, _⟩ := mem_sent (hmem x hx)
  rw [hone x hx] at hm
  refine ⟨m, List.mem_of_getElem? hm, hrun.eq_of_subset m.numbered ?_⟩
  intro b hb
  obtain ⟨y, hy, rfl⟩ := List.mem_map.mp hb
  obtain ⟨m', hm', hb'⟩ := mem_sent (hmem y hy)
  rw [hone y hy, hm] at hm'
  cases hm'
  exact hb'

theorem storeAll_init_bytes {bs : List Block}
    (h : (payload bs).length ≤ BUFFER_SIZE) :
    (storeAll dlmsInit.buffer (bs.map Block.data)).bytes = payload bs := by
  have hzero : dlmsInit.buffer.len = 0 := rfl
  exact storeAll_bytes _ _ (by rw [hzero, Nat.zero_add]; exact h)

theorem arriving_eq (survivors : List (Nat × Block)) :
    arriving survivors = (survivors.map Prod.snd).map Block.packet := by
  rw [List.map_map]
  rfl

theorem sent_number {messages : List (Message 255)} {x : Nat × Block}
    (h : x ∈ sent messages) :
    1 ≤ x.2.number.toNat ∧ x.2.number.toNat ≤ 255 := by
  obtain ⟨m, _, hb⟩ := mem_sent h
  have hlt := m.numbered.number_lt x.2 hb
  have hle := m.numbered.number_le x.2 hb
  have hlen := m.blocks_le
  omega

/-- What is handed over when `y` arrives behind `front`: the data of a run of
survivors, `y` the last of them, that is numbered like a message. -/
theorem handed_run {messages : List (Message 255)}
    {front : List (Nat × Block)} {y : Nat × Block}
    (hsub : ∀ x ∈ front ++ [y], x ∈ sent messages) {p : Buffer}
    (hp : p ∈ (dlmsCall (after dlmsCall dlmsInit (arriving front))
      y.2.packet).2.handed) :
    ∃ before run, front ++ [y] = before ++ run ∧
      BlocksFrom 0 (run.map Prod.snd) ∧
      p = storeAll dlmsInit.buffer ((run.map Prod.snd).map Block.data) := by
  have hnum : ∀ b ∈ front.map Prod.snd ++ [y.2],
      1 ≤ b.number.toNat ∧ b.number.toNat ≤ 255 := by
    intro b hb
    have hb' : b ∈ (front ++ [y]).map Prod.snd := by
      rw [List.map_append]
      exact hb
    obtain ⟨x, hx, rfl⟩ := List.mem_map.mp hb'
    exact sent_number (hsub x hx)
  rw [arriving_eq] at hp
  obtain ⟨before, run, hsplit, hrun, rfl⟩ := handed_suffix hnum hp
  have hmap : (front ++ [y]).map Prod.snd = before ++ run := by
    rw [List.map_append]
    exact hsplit
  obtain ⟨before', run', hsplit', hbefore, hrun'⟩ :=
    List.map_eq_append_iff.mp hmap
  subst hrun'
  exact ⟨before', run', hsplit', hrun, rfl⟩

/-- On a lossy line a payload is the data of a run of surviving blocks,
numbered from one, the final one and no other marked as last; and it is one of
the messages sent, unless the losses line up. -/
theorem lossy_line {messages : List (Message 255)}
    {survivors : List (Nat × Block)}
    (hsub : survivors.Sublist (sent messages)) :
    (∀ front y back, survivors = front ++ y :: back →
      ∀ p ∈ (dlmsCall (after dlmsCall dlmsInit (arriving front))
        y.2.packet).2.handed,
      ∃ before run, front ++ [y] = before ++ run ∧
        BlocksFrom 0 (run.map Prod.snd) ∧
        ((payload (run.map Prod.snd)).length ≤ BUFFER_SIZE →
          p.bytes = payload (run.map Prod.snd))) ∧
    (¬ LinesUp survivors →
      ∀ p ∈ payloads dlmsInit (arriving survivors),
        ∃ m ∈ messages, p = m.payload) := by
  have hmem : ∀ front y back, survivors = front ++ y :: back →
      ∀ x ∈ front ++ [y], x ∈ sent messages := by
    intro front y back hsplit x hx
    refine hsub.subset ?_
    rw [hsplit, List.append_cons]
    exact List.mem_append_left back hx
  refine ⟨fun front y back hsplit p hp => ?_, fun hno p hp => ?_⟩
  · obtain ⟨before, run, hrun, hblocks, rfl⟩ :=
      handed_run (hmem front y back hsplit) hp
    exact ⟨before, run, hrun, hblocks, storeAll_init_bytes⟩
  · obtain ⟨r, hr, hp⟩ := List.mem_flatMap.mp hp
    obtain ⟨q, hq, rfl⟩ := List.mem_map.mp hp
    obtain ⟨pre, i, post, hsplit, rfl⟩ := mem_outputs _ _ hr
    obtain ⟨front, rest, hsurv, rfl, hrest⟩ := List.map_eq_append_iff.mp hsplit
    obtain ⟨y, back, rfl, rfl, _⟩ := List.map_eq_cons_iff.mp hrest
    have hsub' := hmem front y back hsurv
    obtain ⟨before, run, hrun, hblocks, rfl⟩ := handed_run hsub' hq
    -- The run is part of the survivors, so nothing lines up in it.
    have hno' : ¬ LinesUp run := by
      intro hline
      obtain ⟨a, x, z, b, heq, hrel⟩ := hline
      refine hno ⟨before ++ a, x, z, b ++ back, ?_, hrel⟩
      rw [hsurv, List.append_cons, hrun, heq]
      simp
    have hone : ∃ i, ∀ x ∈ run, x.1 = i := by
      cases run with
      | nil => exact absurd rfl hblocks.ne_nil
      | cons x run => exact ⟨x.1, one_message hblocks hno'⟩
    obtain ⟨i, hone⟩ := hone
    obtain ⟨m, hm, heq⟩ := payload_of_one_message hblocks
      (fun x hx => hsub' x (by rw [hrun]; exact List.mem_append_right _ hx))
      hone
    refine ⟨m, hm, ?_⟩
    rw [storeAll_init_bytes (by rw [heq]; exact m.payload_le), heq]
    rfl

/-- A block with one byte of data. -/
def smallBlock (number : UInt16) (last : Bool) (byte : UInt8) : Block where
  extra := none
  control := if last then 0x80 else 0
  number := number
  ack := (0, 0)
  data := [byte]
  data_le := by simp

theorem smallBlock_last (number : UInt16) (last : Bool) (byte : UInt8) :
    (smallBlock number last byte).last = last := by
  cases last <;> simp [smallBlock, Block.last]

/-- A message of three such blocks. -/
def smallMessage (a b c : UInt8) : Message 255 where
  blocks := [smallBlock 1 false a, smallBlock 2 false b, smallBlock 3 true c]
  numbered := .more rfl (smallBlock_last ..)
    (.more rfl (smallBlock_last ..) (.final rfl (smallBlock_last ..)))
  blocks_le := by simp
  payload_le := by simp [payload, smallBlock, BUFFER_SIZE]

/-- A first message whole, and the end of the second lost. -/
def lostTail : List (Nat × Block) :=
  [(0, smallBlock 1 false 1), (0, smallBlock 2 false 2),
    (0, smallBlock 3 true 3), (1, smallBlock 1 false 4)]

/-- The first message is handed over, and is one that was sent. -/
theorem lossy_line_lost_tail :
    payloads dlmsInit (arriving lostTail) = [[1, 2, 3]] ∧
      ∀ p ∈ payloads dlmsInit (arriving lostTail),
        ∃ m ∈ [smallMessage 1 2 3, smallMessage 4 5 6], p = m.payload := by
  have hsub : lostTail.Sublist
      (sent [smallMessage 1 2 3, smallMessage 4 5 6]) := by decide
  refine ⟨by decide +kernel, (lossy_line hsub).2 ?_⟩
  intro hline
  obtain ⟨front, x, y, back, heq, hne, hlast, hnum⟩ := hline
  rcases front with _ | ⟨a, _ | ⟨b, _ | ⟨c, _ | ⟨d, front⟩⟩⟩⟩ <;>
    simp only [lostTail, List.nil_append, List.cons_append, List.cons.injEq,
      List.nil_eq, reduceCtorEq, and_false] at heq
  · obtain ⟨rfl, rfl, -⟩ := heq
    exact hne rfl
  · obtain ⟨-, rfl, rfl, -⟩ := heq
    exact hne rfl
  · obtain ⟨-, -, rfl, rfl, -⟩ := heq
    exact absurd hlast (by decide)
  · simp at heq

/-- With the tail of the first message and the head of the second lost, what
is handed over is neither. -/
theorem lossy_line_mixes :
    ¬ ∀ (messages : List (Message 255)) (survivors : List (Nat × Block)),
      survivors.Sublist (sent messages) →
        ∀ p ∈ payloads dlmsInit (arriving survivors),
          ∃ m ∈ messages, p = m.payload := by
  intro h
  have hout : payloads dlmsInit (arriving
      [(0, smallBlock 1 false 1), (1, smallBlock 2 false 5),
        (1, smallBlock 3 true 6)]) = [[1, 5, 6]] := by decide +kernel
  obtain ⟨m, hm, hp⟩ := h [smallMessage 1 2 3, smallMessage 4 5 6]
    [(0, smallBlock 1 false 1), (1, smallBlock 2 false 5),
      (1, smallBlock 3 true 6)]
    (by decide) [1, 5, 6] (by rw [hout]; exact List.mem_singleton_self _)
  rcases List.mem_cons.mp hm with rfl | hm
  · exact absurd hp (by decide +kernel)
  · rw [List.mem_singleton.mp hm] at hp
    exact absurd hp (by decide +kernel)

end MBusMeter.Proofs
