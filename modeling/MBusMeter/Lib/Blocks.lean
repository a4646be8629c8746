import MBusMeter.Lib.Grammar
import Mathlib.Data.List.Induction

/-!
# Reassembling numbered blocks

A message is cut into blocks numbered from one, the last of them marked. The
receiver keeps the blocks of the message it is in, takes the next one only if
its number is one more than how many it has, and gives up what it has on any
other number.

This is the receiver without limits: it counts in natural numbers and keeps
whatever it is sent. What it hands over is always a run of blocks that arrived
one right after the other, numbered from one, the last and no other marked —
and nothing more than that, since the numbers are all it has to go by.
-/

namespace MBusMeter.Lib

universe u

variable {β : Type u}

/-- `bs` are the blocks of a message from block `k + 1` on. -/
inductive MessageFrom (number : β → Nat) (last : β → Bool) :
    Nat → List β → Prop where
  | final {k : Nat} {b : β} (hnum : number b = k + 1) (hlast : last b = true) :
      MessageFrom number last k [b]
  | more {k : Nat} {b : β} {bs : List β} (hnum : number b = k + 1)
      (hlast : last b = false) (htail : MessageFrom number last (k + 1) bs) :
      MessageFrom number last k (b :: bs)

/-- `bs` are the blocks of a message up to block `bs.length`, more to come. -/
inductive MessageUpTo (number : β → Nat) (last : β → Bool) :
    List β → Prop where
  | none : MessageUpTo number last []
  | snoc {bs : List β} {b : β} (hfront : MessageUpTo number last bs)
      (hnum : number b = bs.length + 1) (hlast : last b = false) :
      MessageUpTo number last (bs ++ [b])

/-- One block: what is kept, and the message it completes. -/
def reassemble (number : β → Nat) (last : β → Bool) (kept : List β) (b : β) :
    List β × Option (List β) :=
  if number b = kept.length + 1 then
    if last b then ([], some (kept ++ [b])) else (kept ++ [b], none)
  else ([], none)

variable {number : β → Nat} {last : β → Bool}

theorem MessageFrom.ne_nil {k : Nat} {bs : List β}
    (h : MessageFrom number last k bs) : bs ≠ [] := by
  cases h <;> exact List.cons_ne_nil _ _

/-- In front of the last block there is none that says so. -/
theorem MessageFrom.front {k : Nat} {bs : List β}
    (h : MessageFrom number last k bs) :
    ∀ {front back : List β}, bs = front ++ back → back ≠ [] →
      ∀ b ∈ front, last b = false := by
  induction h with
  | final _ _ =>
      intro front back heq hne b hb
      rcases front with _ | ⟨c, front⟩
      · cases hb
      · injection heq with _ hnil
        exact absurd (List.append_eq_nil_iff.mp hnil.symm).2 hne
  | more _ hlast _ ih =>
      intro front back heq hne b hb
      rcases front with _ | ⟨c, front⟩
      · cases hb
      · injection heq with hc htail
        rcases List.mem_cons.mp hb with rfl | hb
        · rw [← hc]
          exact hlast
        · exact ih htail hne b hb

theorem MessageFrom.head {k : Nat} {b : β} {bs : List β}
    (h : MessageFrom number last k (b :: bs)) : number b = k + 1 := by
  cases h with
  | final hnum _ => exact hnum
  | more hnum _ _ => exact hnum

theorem MessageFrom.tail {k : Nat} {b c : β} {bs : List β}
    (h : MessageFrom number last k (b :: c :: bs)) :
    last b = false ∧ MessageFrom number last (k + 1) (c :: bs) := by
  cases h with
  | more _ hlast htail => exact ⟨hlast, htail⟩

theorem MessageFrom.number_lt {k : Nat} {bs : List β}
    (h : MessageFrom number last k bs) : ∀ b ∈ bs, k < number b := by
  induction h with
  | final hnum hlast =>
      intro b hb
      rw [List.mem_singleton.mp hb, hnum]
      exact Nat.lt_succ_self _
  | more hnum hlast htail ih =>
      intro b hb
      rcases List.mem_cons.mp hb with rfl | hb
      · rw [hnum]
        exact Nat.lt_succ_self _
      · exact Nat.lt_of_succ_lt (ih b hb)

theorem MessageFrom.number_le {k : Nat} {bs : List β}
    (h : MessageFrom number last k bs) :
    ∀ b ∈ bs, number b ≤ k + bs.length := by
  induction h with
  | final hnum hlast =>
      intro b hb
      rw [List.mem_singleton.mp hb, hnum]
      exact Nat.le_refl _
  | more hnum hlast htail ih =>
      intro b hb
      rw [List.length_cons]
      rcases List.mem_cons.mp hb with rfl | hb
      · omega
      · have hle := ih b hb
        omega

/-- A message made of blocks of one message is that message. -/
theorem MessageFrom.eq_of_subset {k : Nat} {as bs : List β}
    (ha : MessageFrom number last k as) :
    MessageFrom number last k bs → (∀ a ∈ as, a ∈ bs) → as = bs := by
  induction ha generalizing bs with
  | @final k a hnum hlast =>
      intro hb hsub
      have hmem := hsub a (List.mem_singleton_self a)
      cases hb with
      | final hnum' hlast' => rw [List.mem_singleton.mp hmem]
      | more hnum' hlast' htail' =>
          rcases List.mem_cons.mp hmem with rfl | htl
          · rw [hlast] at hlast'; cases hlast'
          · have hlt := htail'.number_lt a htl
            omega
  | @more k a as hnum hlast htail ih =>
      intro hb hsub
      have hmem := hsub a List.mem_cons_self
      cases hb with
      | final hnum' hlast' =>
          rw [List.mem_singleton.mp hmem, hlast'] at hlast
          cases hlast
      | more hnum' hlast' htail' =>
          rcases List.mem_cons.mp hmem with rfl | htl
          · refine congrArg (List.cons a) (ih htail' fun x hx => ?_)
            -- The blocks behind the first have higher numbers than it.
            have hlt := htail.number_lt x hx
            rcases List.mem_cons.mp (hsub x (List.mem_cons_of_mem a hx)) with
              rfl | hx'
            · omega
            · exact hx'
          · have hlt := htail'.number_lt a htl
            omega

/-- The blocks up to some number and those from there on are a message. -/
theorem MessageUpTo.append {bs cs : List β} (h : MessageUpTo number last bs)
    (htail : MessageFrom number last bs.length cs) :
    MessageFrom number last 0 (bs ++ cs) := by
  induction h generalizing cs with
  | none => exact htail
  | snoc hfront hnum hlast ih =>
      rw [List.append_assoc]
      refine ih (.more hnum hlast ?_)
      rw [List.length_append] at htail
      exact htail

/-- What the receiver keeps is the end of what arrived, and the beginning of
a message. -/
theorem kept_suffix (number : β → Nat) (last : β → Bool) (xs : List β) :
    (∃ pre, xs = pre ++ after (reassemble number last) [] xs) ∧
      MessageUpTo number last (after (reassemble number last) [] xs) := by
  induction xs using List.reverseRecOn with
  | nil => exact ⟨⟨[], rfl⟩, .none⟩
  | append_singleton xs x ih =>
      obtain ⟨⟨pre, hpre⟩, hmsg⟩ := ih
      rw [after_snoc, reassemble]
      split
      · next hnum =>
          split
          · next => exact ⟨⟨xs ++ [x], by simp⟩, .none⟩
          · next hlast =>
              refine ⟨⟨pre, ?_⟩, .snoc hmsg hnum (by simpa using hlast)⟩
              rw [← List.append_assoc, ← hpre]
      · next hnum => exact ⟨⟨xs ++ [x], by simp⟩, .none⟩

/-- What the receiver hands over on a block is a message whose blocks are the
last to have arrived. -/
theorem completed_suffix {xs m : List β} {x : β}
    (h : (reassemble number last (after (reassemble number last) [] xs) x).2 =
      some m) :
    (∃ pre, xs ++ [x] = pre ++ m) ∧ MessageFrom number last 0 m := by
  obtain ⟨⟨pre, hpre⟩, hmsg⟩ := kept_suffix number last xs
  rw [reassemble] at h
  split at h
  · next hnum =>
      split at h
      · next hlast =>
          injection h with h
          subst h
          refine ⟨⟨pre, ?_⟩, hmsg.append (.final hnum hlast)⟩
          rw [← List.append_assoc, ← hpre]
      · cases h
  · cases h

/-! ## Blocks in any order

Blocks that arrive in whatever order are messages and pieces of messages. A
piece ends with the block that does not go on from it, and that block is lost
together with the piece, even where it is the first of a message. -/

inductive BlockPart (number : β → Nat) (last : β → Bool) :
    Unit → List β → List (List β) → Unit → Prop where
  | message {m : List β} (hmessage : MessageFrom number last 0 m) :
      BlockPart number last () m [m] ()
  | broken {front : List β} {b : β} (hfront : MessageUpTo number last front)
      (hnum : number b ≠ front.length + 1) :
      BlockPart number last () (front ++ [b]) [] ()

def blockGrammar (number : β → Nat) (last : β → Bool) :
    Grammar Unit β (List β) where
  part := BlockPart number last
  tail := fun _ => MessageUpTo number last

theorem MessageUpTo.run {bs : List β} (h : MessageUpTo number last bs) :
    Run (reassemble number last) [] bs [] bs := by
  induction h with
  | none => exact Run.nil _ _
  | @snoc bs b hfront hnum hlast ih =>
      have hstep : reassemble number last bs b = (bs ++ [b], .none) := by
        rw [reassemble, if_pos hnum, hlast, if_neg Bool.false_ne_true]
      exact ih.append (Run.silent hstep)

theorem MessageFrom.run {k : Nat} {bs : List β}
    (h : MessageFrom number last k bs) : ∀ {kept : List β}, kept.length = k →
      Run (reassemble number last) kept bs [kept ++ bs] [] := by
  induction h with
  | @final k b hnum hlast =>
      rintro kept rfl
      refine Run.emit ?_
      rw [reassemble, if_pos hnum, if_pos hlast]
  | @more k b bs hnum hlast htail ih =>
      rintro kept rfl
      have hstep : reassemble number last kept b = (kept ++ [b], none) := by
        rw [reassemble, if_pos hnum, hlast, if_neg Bool.false_ne_true]
      have hrest := ih (show (kept ++ [b]).length = _ from List.length_append)
      rw [List.append_assoc] at hrest
      exact (Run.silent hstep).append hrest

theorem blocks_covered (number : β → Nat) (last : β → Bool) (bs : List β) :
    MessageUpTo number last bs ∨
    ∃ front back ms l, bs = front ++ back ∧ front ≠ [] ∧
      BlockPart number last () front ms l := by
  induction bs using List.reverseRecOn with
  | nil => exact Or.inl .none
  | append_singleton bs b ih =>
      rcases ih with hupTo | ⟨front, back, ms, l, rfl, hne, hpart⟩
      · by_cases hnum : number b = bs.length + 1
        · cases hlast : last b with
          | true =>
              exact Or.inr ⟨bs ++ [b], [], [bs ++ [b]], (),
                (List.append_nil _).symm, by simp,
                .message (hupTo.append (.final hnum hlast))⟩
          | false => exact Or.inl (.snoc hupTo hnum hlast)
        · exact Or.inr ⟨bs ++ [b], [], [], (), (List.append_nil _).symm,
            by simp, .broken hupTo hnum⟩
      · exact Or.inr ⟨front, back ++ [b], ms, l, by simp, hne, hpart⟩

theorem reassemble_recognises (number : β → Nat) (last : β → Bool) :
    Recognises (reassemble number last) (fun _ kept => kept = [])
      (blockGrammar number last) where
  part := by
    rintro k l kept is os rfl hpart
    cases hpart with
    | message hmessage => exact ⟨[], hmessage.run rfl, rfl⟩
    | @broken front b hfront hnum =>
        have hstep : reassemble number last front b = ([], none) := by
          rw [reassemble, if_neg hnum]
        exact ⟨[], hfront.run.append (Run.silent hstep), rfl⟩
  tail := by
    rintro k kept is rfl htail
    exact ⟨_, MessageUpTo.run htail⟩
  covers _ := blocks_covered number last

end MBusMeter.Lib
