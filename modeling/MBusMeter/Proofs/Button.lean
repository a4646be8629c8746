import MBusMeter.Spec.Button
import Mathlib.Algebra.Group.Nat.Defs
import Mathlib.Data.List.Induction

/-!
# Runs of the button

What a click does depends on the clicks before it in two ways: the double
clicks among them say which value it is for, and those for the same value say
how far that one has been counted. So the state after any clicks, and all the
calls they made, can be written down in terms of the clicks alone; and the one
thing that goes wrong, a count that is more than an `int` holds, too.
-/

namespace MBusMeter.Proofs

open Lib Firmware Firmware.Pdu Spec

theorem withPast_snoc {α β : Type} (f : List α → α → β) (xs : List α)
    (x : α) : withPast f (xs ++ [x]) = withPast f xs ++ [f xs x] := by
  rw [withPast, List.mapIdx_concat, List.take_left, withPast]
  congr 1
  refine List.ext_getElem (by simp) fun i hi _ => ?_
  rw [List.length_mapIdx] at hi
  rw [List.getElem_mapIdx, List.getElem_mapIdx,
    List.take_append_of_le_length (Nat.le_of_lt hi)]

/-- The conversions of the calls are those of the count, which is an `int`
that is not negative. -/
theorem clickCall_eq {count : Nat} (h : count < 2 ^ 31) (slot : Fin 9) :
    clickCall slot (Int32.ofNat count) = telling count (buttonPlace slot) := by
  have hword : (Int32.ofNat count).toUInt32.toUInt16 = UInt16.ofNat count := by
    rw [Int32.toUInt32_ofNat', UInt32.toUInt16_ofNat']
  have hlong : (Int32.ofNat count).toInt64.toUInt64 = UInt64.ofNat count := by
    have hmax : Int32.maxValue.toInt = 2 ^ 31 - 1 := by decide
    rw [Int32.toInt64_ofNat' (by omega), Int64.toUInt64_ofNat']
  rw [clickCall, Int32.toInt16_ofNat', hword, hlong]
  match slot with
  | 0 | 1 | 2 | 3 | 4 | 5 | 6 | 7 | 8 => rfl

/-- The state the clicks leave. -/
def buttonAfter (clicks : List Click) : Button where
  curValue := Fin.ofNat 9 (clicks.count .double)
  values := fun slot => Int32.ofNat ((slots clicks).count slot)
  calls := tellings (slots clicks)

theorem slots_snoc (clicks : List Click) (click : Click) :
    slots (clicks ++ [click]) =
      slots clicks ++ [Fin.ofNat 9 ((clicks ++ [click]).count .double)] :=
  withPast_snoc ..

theorem ofNat_eq_maxValue {n : Nat} (h : n < 2 ^ 31) :
    Int32.ofNat n = Int32.maxValue ↔ n + 1 = 2 ^ 31 := by
  rw [← Int32.toInt_inj, Int32.toInt_ofNat_of_lt h]
  have hmax : Int32.maxValue.toInt = 2 ^ 31 - 1 := by decide
  omega

theorem singleClick_full {button : Button}
    (h : button.values button.curValue = Int32.maxValue) :
    singleClick button = .fault .overflow button := if_pos h

theorem singleClick_count {button : Button}
    (h : button.values button.curValue ≠ Int32.maxValue) :
    singleClick button = .ok ⟨⟩ { button with
      values := Function.update button.values button.curValue
        (button.values button.curValue + 1)
      calls := button.calls ++ [clickCall button.curValue
        (button.values button.curValue + 1)] } := if_neg h

/-- To count one value up. -/
theorem singleClick_after {clicks : List Click} (slot : Fin 9)
    (h : (slots clicks).count slot < 2 ^ 31) :
    ((slots clicks).count slot + 1 = 2 ^ 31 ∧
      (singleClick { buttonAfter clicks with curValue := slot }).faulted =
        true) ∨
    ((slots clicks).count slot + 1 < 2 ^ 31 ∧
      singleClick { buttonAfter clicks with curValue := slot } = .ok ⟨⟩
        { curValue := slot
          values := fun other =>
            Int32.ofNat ((slots clicks ++ [slot]).count other)
          calls := tellings (slots clicks ++ [slot]) }) := by
  have hmax := ofNat_eq_maxValue h
  by_cases hfull : (slots clicks).count slot + 1 = 2 ^ 31
  · refine Or.inl ⟨hfull, ?_⟩
    rw [singleClick_full (hmax.mpr hfull)]
    rfl
  refine Or.inr ⟨by omega, ?_⟩
  have hvalues : Function.update (buttonAfter clicks).values slot
      (Int32.ofNat ((slots clicks).count slot) + 1) = fun other =>
        Int32.ofNat ((slots clicks ++ [slot]).count other) := by
    funext other
    rw [List.count_append, List.count_singleton]
    by_cases hother : other = slot
    · subst hother
      rw [Function.update_self, beq_self_eq_true, if_pos rfl,
        Int32.ofNat_add]
      rfl
    · rw [Function.update_of_ne hother, beq_eq_false_iff_ne.mpr
        (Ne.symm hother), if_neg Bool.false_ne_true]
      rfl
  have hcalls : tellings (slots clicks ++ [slot]) = tellings (slots clicks) ++
      [clickCall slot (Int32.ofNat ((slots clicks).count slot) + 1)] := by
    have hcall := clickCall_eq
      (Nat.lt_of_le_of_ne (Nat.succ_le_of_lt h) hfull) slot
    rw [Nat.succ_eq_add_one, Int32.ofNat_add] at hcall
    rw [tellings, withPast_snoc, ← hcall]
    rfl
  rw [singleClick_count fun h => hfull (hmax.mp h), hcalls]
  exact congrArg (fun values => Outcome.ok PUnit.unit ({
    curValue := slot
    values
    calls := _ } : Button)) hvalues

/-- One click more. -/
theorem handle_after {clicks : List Click} (click : Click)
    (h : ∀ slot, (slots clicks).count slot < 2 ^ 31) :
    ((∃ slot, 2 ^ 31 ≤ (slots (clicks ++ [click])).count slot) ∧
      (click.handle (buttonAfter clicks)).faulted = true) ∨
    ((∀ slot, (slots (clicks ++ [click])).count slot < 2 ^ 31) ∧
      click.handle (buttonAfter clicks) =
        .ok ⟨⟩ (buttonAfter (clicks ++ [click]))) := by
  obtain ⟨slot, hslot⟩ : ∃ slot : Fin 9,
      slot = Fin.ofNat 9 ((clicks ++ [click]).count .double) := ⟨_, rfl⟩
  have hsnoc := slots_snoc clicks click
  rw [← hslot] at hsnoc
  have hhandle : click.handle (buttonAfter clicks) =
      singleClick { buttonAfter clicks with curValue := slot } := by
    cases click with
    | single =>
        rw [hslot, List.count_append]
        rfl
    | double =>
        rw [hslot, List.count_append]
        show singleClick { buttonAfter clicks with
          curValue := (buttonAfter clicks).curValue + 1 } = _
        congr 2
        simp [buttonAfter, Fin.ext_iff, Fin.val_add]
  have hcount : ∀ other, (slots (clicks ++ [click])).count other =
      (slots clicks).count other + if slot = other then 1 else 0 := by
    intro other
    rw [hsnoc, List.count_append, List.count_singleton]
    simp
  rw [hhandle]
  rcases singleClick_after slot (h slot) with ⟨hfull, hfault⟩ | ⟨hlt, ho⟩
  · refine Or.inl ⟨⟨slot, ?_⟩, hfault⟩
    rw [hcount, if_pos rfl]
    omega
  · refine Or.inr ⟨fun other => ?_, ?_⟩
    · rw [hcount]
      have hother := h other
      split
      · next heq => rw [← heq]; exact hlt
      · exact hother
    · rw [ho, buttonAfter, hsnoc, hslot]

/-- Any clicks: one value has been counted too far, or the state is the one
written down. -/
theorem handleClicks_cases (clicks : List Click) :
    ((∃ slot, 2 ^ 31 ≤ (slots clicks).count slot) ∧
      (handleClicks clicks buttonInit).faulted = true) ∨
    ((∀ slot, (slots clicks).count slot < 2 ^ 31) ∧
      handleClicks clicks buttonInit = .ok ⟨⟩ (buttonAfter clicks)) := by
  induction clicks using List.reverseRecOn with
  | nil => exact Or.inr ⟨fun slot => by simp [slots, withPast], rfl⟩
  | append_singleton clicks click ih =>
      rw [handleClicks, Proc.each_snoc, ← handleClicks]
      rcases ih with ⟨⟨slot, hfull⟩, hfault⟩ | ⟨hlt, ho⟩
      · refine Or.inl ⟨⟨slot, ?_⟩, Outcome.faulted_andThen hfault⟩
        rw [slots_snoc, List.count_append]
        omega
      · rw [ho, Outcome.ok_andThen]
        exact handle_after click hlt

/-- The button runs into undefined behaviour exactly when one of its values is
clicked `2 ^ 31` times; otherwise every value has been counted as often as
there were clicks for it, and each click has told the place of its value how
often that is, in the numbers of the place. -/
theorem button_counts (clicks : List Click) :
    ((handleClicks clicks buttonInit).faulted = true ↔
      ∃ slot, 2 ^ 31 ≤ (slots clicks).count slot) ∧
    ((∀ slot, (slots clicks).count slot < 2 ^ 31) →
      handleClicks clicks buttonInit = .ok ⟨⟩
        { curValue := Fin.ofNat 9 (clicks.count .double)
          values := fun slot => Int32.ofNat ((slots clicks).count slot)
          calls := tellings (slots clicks) }) := by
  rcases handleClicks_cases clicks with ⟨⟨slot, hfull⟩, hfault⟩ | ⟨hlt, ho⟩
  · exact ⟨iff_of_true hfault ⟨slot, hfull⟩, fun hlt =>
      absurd (hlt slot) (Nat.not_lt.mpr hfull)⟩
  · refine ⟨iff_of_false ?_ ?_, fun _ => ho⟩
    · rw [ho]
      exact Bool.false_ne_true
    · rintro ⟨slot, hfull⟩
      exact absurd (hlt slot) (Nat.not_lt.mpr hfull)

example : tellings (slots [.single, .double, .double, .single]) =
    [.activePower 1, .rmsCurrent 0 1, .rmsCurrent 1 1, .rmsCurrent 1 2] := by
  decide

/-- The power runs out of numbers first. -/
example : telling 32768 (buttonPlace 0) = .activePower (-32768) := by decide

end MBusMeter.Proofs
