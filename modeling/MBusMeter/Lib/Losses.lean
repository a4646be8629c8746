import MBusMeter.Lib.Blocks

/-!
# Messages of which blocks get lost

The receiver of `Lib.Blocks`, seen from further away: a step is no longer a
block but a whole message, of which some blocks arrive. What the receiver does
with it depends on little: whether all blocks arrived, or the first few, or
others, and whether it holds blocks of an earlier message. Only one thing
escapes this view, the case that the first block to arrive has just the number
that is due in the earlier message. With that excluded the two views agree.
-/

namespace MBusMeter.Lib

universe u v

variable {α : Type u} {β : Type v}

/-- One message: what is kept, and the message if it gets through. -/
def cross [DecidableEq β] (blocks survivors : α → List β) (kept : List β)
    (x : α) : List β × Option α :=
  if survivors x = [] then (kept, none)
  else if kept ≠ [] then ([], none)
  else if survivors x = blocks x then ([], some x)
  else if survivors x <+: blocks x then (survivors x, none)
  else ([], none)

/-- The first block that arrives is the one that is due in an earlier
message. -/
def Resumes (number : β → Nat) (kept survivors : List β) : Prop :=
  kept ≠ [] ∧ ∃ b ∈ survivors.head?, number b = kept.length + 1

variable {number : β → Nat} {last : β → Bool}

/-- Blocks from some number on have their numbers in order. -/
theorem MessageFrom.pairwise {k : Nat} {bs : List β}
    (h : MessageFrom number last k bs) :
    bs.Pairwise fun a b => number a < number b := by
  induction h with
  | final hnum hlast => exact List.pairwise_singleton _ _
  | more hnum hlast htail ih =>
      refine List.pairwise_cons.mpr ⟨fun b hb => ?_, ih⟩
      rw [hnum]
      exact htail.number_lt b hb

/-- Where block one is due, later blocks come to nothing. -/
theorem late_run {bs : List β} (h : ∀ b ∈ bs, 1 < number b) :
    Run (reassemble number last) [] bs [] [] := by
  induction bs with
  | nil => exact Run.nil _ _
  | cons b bs ih =>
      have hb := h b List.mem_cons_self
      have hstep : reassemble number last [] b = ([], none) :=
        if_neg (Nat.ne_of_gt hb)
      exact (Run.silent hstep).append
        (ih fun x hx => h x (List.mem_cons_of_mem b hx))

/-- A block out of turn, and later ones behind it. -/
theorem stray_run {kept bs : List β} {b : β}
    (hne : number b ≠ kept.length + 1) (hpos : 0 < number b)
    (hlate : ∀ x ∈ bs, number b < number x) :
    Run (reassemble number last) kept (b :: bs) [] [] := by
  have hstep : reassemble number last kept b = ([], none) := if_neg hne
  exact (Run.silent hstep).append
    (late_run fun x hx => Nat.lt_of_le_of_lt hpos (hlate x hx))

/-- In step with the sender, whatever gets lost of the blocks to come. -/
theorem survivors_run {k : Nat} {rest : List β}
    (hm : MessageFrom number last k rest) :
    ∀ {kept survivors : List β}, kept.length = k → survivors.Sublist rest →
      (survivors = rest ∧
        Run (reassemble number last) kept survivors [kept ++ rest] []) ∨
      (survivors ≠ rest ∧ survivors <+: rest ∧
        Run (reassemble number last) kept survivors []
          (kept ++ survivors)) ∨
      (¬ survivors <+: rest ∧
        Run (reassemble number last) kept survivors [] []) := by
  induction hm with
  | @final k b hnum hlast =>
      intro kept survivors hlen hsub
      rcases List.sublist_singleton.mp hsub with rfl | rfl
      · refine Or.inr (Or.inl ⟨List.cons_ne_nil _ _ ∘ Eq.symm,
          List.nil_prefix, ?_⟩)
        rw [List.append_nil]
        exact Run.nil _ _
      · refine Or.inl ⟨rfl, Run.emit ?_⟩
        rw [reassemble, if_pos (by rw [hlen, hnum]), if_pos hlast]
  | @more k b bs hnum hlast htail ih =>
      intro kept survivors hlen hsub
      cases hsub with
      | cons _ hsub =>
          -- Block `k + 1` is lost.
          rcases survivors with _ | ⟨x, survivors⟩
          · refine Or.inr (Or.inl ⟨List.cons_ne_nil _ _ ∘ Eq.symm,
              List.nil_prefix, ?_⟩)
            rw [List.append_nil]
            exact Run.nil _ _
          have hx := htail.number_lt x (hsub.subset List.mem_cons_self)
          have horder := List.pairwise_cons.mp (htail.pairwise.sublist hsub)
          refine Or.inr (Or.inr ⟨fun hprefix => ?_, stray_run (by omega)
            (by omega) horder.1⟩)
          have hhead := (List.cons_prefix_cons.mp hprefix).1
          rw [hhead, hnum] at hx
          exact Nat.lt_irrefl _ hx
      | @cons_cons survivors _ _ hsub =>
          have hstep : reassemble number last kept b =
              (kept ++ [b], none) := by
            rw [reassemble, if_pos (by rw [hlen, hnum]),
              if_neg (by rw [hlast]; exact Bool.false_ne_true)]
          have hmore : (kept ++ [b]).length = k + 1 := by
            rw [List.length_append, hlen, List.length_singleton]
          rcases ih hmore hsub with ⟨rfl, hrun⟩ | ⟨hne, hprefix, hrun⟩ |
            ⟨hnot, hrun⟩
          · refine Or.inl ⟨rfl, ?_⟩
            rw [List.append_cons]
            exact (Run.silent hstep).append hrun
          · refine Or.inr (Or.inl ⟨fun h => hne (List.cons.inj h).2,
              List.cons_prefix_cons.mpr ⟨rfl, hprefix⟩, ?_⟩)
            rw [List.append_cons]
            exact (Run.silent hstep).append hrun
          · exact Or.inr (Or.inr
              ⟨fun h => hnot (List.cons_prefix_cons.mp h).2,
                (Run.silent hstep).append hrun⟩)

/-- What the receiver does with the blocks that arrive of a message is a step
of the other view. -/
theorem cross_run [DecidableEq β] {blocks survivors : α → List β}
    {kept : List β} {x : α}
    (hm : MessageFrom number last 0 (blocks x))
    (hsub : (survivors x).Sublist (blocks x))
    (hno : ¬ Resumes number kept (survivors x)) :
    Run (reassemble number last) kept (survivors x)
      ((cross blocks survivors kept x).2.map blocks).toList
      (cross blocks survivors kept x).1 := by
  rw [cross]
  by_cases hnone : survivors x = []
  · rw [if_pos hnone, hnone]
    exact Run.nil _ _
  rw [if_neg hnone]
  by_cases hkept : kept = []
  · rw [if_neg (not_not_intro hkept), hkept]
    rcases survivors_run hm List.length_nil hsub with ⟨heq, hrun⟩ |
      ⟨hne, hprefix, hrun⟩ | ⟨hnot, hrun⟩
    · rw [if_pos heq]
      exact hrun
    · rw [if_neg hne, if_pos hprefix]
      exact hrun
    · have hne : survivors x ≠ blocks x := fun h =>
        hnot (h ▸ List.prefix_rfl)
      rw [if_neg hne, if_neg hnot]
      exact hrun
  · rw [if_pos hkept]
    rcases hs : survivors x with _ | ⟨b, bs⟩
    · exact absurd hs hnone
    have horder := hm.pairwise.sublist hsub
    rw [hs] at hsub hno horder
    have hpos := hm.number_lt b (hsub.subset List.mem_cons_self)
    exact stray_run (fun h => hno ⟨hkept, b, rfl, h⟩) hpos
      (List.pairwise_cons.mp horder).1

/-- What gets through was sent, each message once and in order. -/
theorem cross_sublist [DecidableEq β] (blocks survivors : α → List β)
    (xs : List α) :
    ∀ kept, (outputs (cross blocks survivors) kept xs).reduceOption.Sublist
      xs := by
  induction xs with
  | nil => exact fun kept => List.Sublist.slnil
  | cons x xs ih =>
      intro kept
      have htail := ih (cross blocks survivors kept x).1
      rw [outputs_cons]
      have hstep : (cross blocks survivors kept x).2 = none ∨
          (cross blocks survivors kept x).2 = some x := by
        rw [cross]
        split_ifs
        all_goals simp
      rcases hstep with hstep | hstep
      · rw [hstep]
        exact htail.cons x
      · rw [hstep]
        exact htail.cons_cons x

end MBusMeter.Lib
