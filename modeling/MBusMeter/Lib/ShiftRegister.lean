import Mathlib

/-!
# Checks by a feedback shift register

A register of some width gives up its lowest bit at every clock, and takes in
a fixed word, the feedback, when that bit was set. Bits are fed to it one at a
time, each added to the lowest place before the clock. What the register
holds in the end is the remainder of a division, but the division is not
needed here: everything that is ever used of it is that a clock is linear in
the register, what it does to the parity, and that it can be undone.

The two kinds of error such a check always finds are in the last section.
Whether two words of bits leave the same register depends only on where they
differ, since the register is linear. A difference in an odd number of places
leaves the parity of the register odd, when that of the feedback is; and a
difference that is no longer than the register is wide cannot be clocked away,
when the feedback sets the top bit.
-/

namespace MBusMeter.Lib

variable {w : Nat}

/-- One clock: the lowest bit falls out, and pulls the feedback in. -/
def clock (feedback r : BitVec w) : BitVec w :=
  if r.getLsbD 0 then (r >>> 1) ^^^ feedback else r >>> 1

/-- A bit in the lowest place. -/
def loBit (b : Bool) : BitVec w := (BitVec.ofBool b).setWidth w

/-- One bit fed to the register. -/
def feed (feedback r : BitVec w) (b : Bool) : BitVec w :=
  clock feedback (r ^^^ loBit b)

/-- Some bits, one after the other. -/
def absorb (feedback r : BitVec w) (bits : List Bool) : BitVec w :=
  bits.foldl (feed feedback) r

/-- The word has these bits, the first of them lowest. -/
def Loaded (v : BitVec w) (bits : List Bool) : Prop :=
  ∀ i, v.getLsbD i = bits.getD i false

variable {feedback : BitVec w}

@[simp] theorem absorb_nil (r : BitVec w) : absorb feedback r [] = r := rfl

@[simp] theorem absorb_cons (r : BitVec w) (b : Bool) (bits : List Bool) :
    absorb feedback r (b :: bits) =
      absorb feedback (feed feedback r b) bits := rfl

theorem absorb_append (r : BitVec w) (xs ys : List Bool) :
    absorb feedback r (xs ++ ys) =
      absorb feedback (absorb feedback r xs) ys := List.foldl_append

@[simp] theorem getLsbD_shift (r : BitVec w) (i : Nat) :
    (r >>> 1).getLsbD i = r.getLsbD (i + 1) := by
  rw [BitVec.getLsbD_ushiftRight, Nat.add_comm]

theorem getLsbD_loBit (hw : 0 < w) (b : Bool) (i : Nat) :
    (loBit b : BitVec w).getLsbD i = (decide (i = 0) && b) := by
  rw [loBit, BitVec.getLsbD_setWidth, BitVec.getLsbD_ofBool]
  by_cases hi : i = 0
  · simp [hi, hw]
  · simp [hi]

@[simp] theorem loBit_false : (loBit false : BitVec w) = 0 := by
  simp [loBit]

theorem Loaded.nil {v : BitVec w} (h : Loaded v []) : v = 0 := by
  apply BitVec.eq_of_getLsbD_eq
  intro i _
  rw [h i]
  simp

theorem Loaded.tail {v : BitVec w} {b : Bool} {bits : List Bool}
    (h : Loaded v (b :: bits)) : Loaded (v >>> 1) bits := by
  intro i
  rw [getLsbD_shift, h]
  simp

/-! ## A clock is linear -/

theorem getLsbD_clock (r : BitVec w) (i : Nat) :
    (clock feedback r).getLsbD i =
      (r.getLsbD (i + 1) ^^ (r.getLsbD 0 && feedback.getLsbD i)) := by
  rw [clock]
  split
  · next h => rw [BitVec.getLsbD_xor, getLsbD_shift, h, Bool.true_and]
  · next h => rw [getLsbD_shift, Bool.eq_false_iff.mpr h]; simp

theorem clock_xor (a b : BitVec w) :
    clock feedback (a ^^^ b) = clock feedback a ^^^ clock feedback b := by
  apply BitVec.eq_of_getLsbD_eq
  intro i _
  simp only [BitVec.getLsbD_xor, getLsbD_clock]
  cases a.getLsbD 0 <;> cases b.getLsbD 0 <;> cases feedback.getLsbD i <;>
    cases a.getLsbD (i + 1) <;> cases b.getLsbD (i + 1) <;> rfl

theorem loBit_xor (a b : Bool) :
    (loBit (a ^^ b) : BitVec w) = loBit a ^^^ loBit b := by
  cases a <;> cases b <;> simp

theorem feed_xor (r s : BitVec w) (a b : Bool) :
    feed feedback (r ^^^ s) (a ^^ b) =
      feed feedback r a ^^^ feed feedback s b := by
  rw [feed, feed, feed, ← clock_xor, loBit_xor]
  congr 1
  ac_rfl

theorem absorb_xor {xs ys : List Bool} (hlen : xs.length = ys.length) :
    ∀ r s : BitVec w,
      absorb feedback (r ^^^ s) (List.zipWith (· ^^ ·) xs ys) =
        absorb feedback r xs ^^^ absorb feedback s ys := by
  induction xs generalizing ys with
  | nil =>
      intro r s
      rw [List.length_eq_zero_iff.mp hlen.symm]
      rfl
  | cons x xs ih =>
      intro r s
      rcases ys with _ | ⟨y, ys⟩
      · cases hlen
      · rw [List.zipWith_cons_cons, absorb_cons, feed_xor]
        exact ih (Nat.succ.inj hlen) _ _

/-! ## Many bits at once -/

/-- Nothing falls out of the low places that are clear. -/
theorem clock_of_clear {r : BitVec w} (h : r.getLsbD 0 = false) :
    clock feedback r = r >>> 1 := by
  rw [clock, h, if_neg Bool.false_ne_true]

/-- Bits can be added to the register before they are due. -/
theorem clock_loaded {v : BitVec w} {b : Bool} {bits : List Bool}
    (h : Loaded v (b :: bits)) (r : BitVec w) :
    clock feedback (r ^^^ v) = feed feedback r b ^^^ (v >>> 1) := by
  rcases Nat.eq_zero_or_pos w with rfl | hw
  · exact BitVec.eq_of_getLsbD_eq fun i hi => absurd hi (Nat.not_lt_zero i)
  have hhead : v.getLsbD 0 = b := h 0
  have hclear : (v ^^^ loBit b).getLsbD 0 = false := by
    rw [BitVec.getLsbD_xor, getLsbD_loBit hw, hhead]
    cases b <;> rfl
  have hshift : (v ^^^ loBit b) >>> 1 = v >>> 1 := by
    apply BitVec.eq_of_getLsbD_eq
    intro i _
    rw [getLsbD_shift, getLsbD_shift, BitVec.getLsbD_xor, getLsbD_loBit hw]
    simp
  have hsplit : r ^^^ v = (r ^^^ loBit b) ^^^ (v ^^^ loBit b) := by
    apply BitVec.eq_of_getLsbD_eq
    intro i _
    simp only [BitVec.getLsbD_xor]
    cases r.getLsbD i <;> cases v.getLsbD i <;>
      cases (loBit b : BitVec w).getLsbD i <;> rfl
  rw [hsplit, clock_xor, clock_of_clear hclear, hshift, feed]

/-- A word added to the register and clocked through it is its bits fed to
the register. -/
theorem clocks_loaded {bits : List Bool} :
    ∀ {v : BitVec w}, Loaded v bits → ∀ r : BitVec w,
      (clock feedback)^[bits.length] (r ^^^ v) = absorb feedback r bits := by
  induction bits with
  | nil =>
      intro v h r
      rw [h.nil]
      simp
  | cons b bits ih =>
      intro v h r
      rw [List.length_cons, Function.iterate_succ_apply, clock_loaded h,
        ih h.tail, absorb_cons]

theorem clocks_xor (n : Nat) (a b : BitVec w) :
    (clock feedback)^[n] (a ^^^ b) =
      (clock feedback)^[n] a ^^^ (clock feedback)^[n] b := by
  induction n generalizing a b with
  | zero => rfl
  | succ n ih => rw [Function.iterate_succ_apply, clock_xor, ih]; rfl

theorem clocks_of_clear {r : BitVec w} (n : Nat)
    (h : ∀ i < n, r.getLsbD i = false) : (clock feedback)^[n] r = r >>> n := by
  induction n with
  | zero => simp
  | succ n ih =>
      have hclear : (r >>> n).getLsbD 0 = false := by
        rw [BitVec.getLsbD_ushiftRight]
        exact h n (Nat.lt_succ_self n)
      rw [Function.iterate_succ_apply',
        ih fun i hi => h i (Nat.lt_succ_of_lt hi), clock_of_clear hclear,
        BitVec.shiftRight_add]

def lowPart (n : Nat) (r : BitVec w) : BitVec w := (r.setWidth n).setWidth w

/-- Clocks act on the low places and move the others down. This is what a
table of the low places is for. -/
theorem clocks_split (n : Nat) (r : BitVec w) :
    (clock feedback)^[n] r =
      (r >>> n) ^^^ (clock feedback)^[n] (lowPart n r) := by
  have hhigh : ∀ i < n, (r ^^^ lowPart n r).getLsbD i = false := by
    intro i hi
    by_cases hw : i < w
    · simp [lowPart, hi, hw]
    · exact BitVec.getLsbD_of_ge _ i (Nat.not_lt.mp hw)
  have hmove : (r ^^^ lowPart n r) >>> n = r >>> n := by
    apply BitVec.eq_of_getLsbD_eq
    intro i _
    simp [lowPart]
  have hsplit : r = (r ^^^ lowPart n r) ^^^ lowPart n r := by
    rw [BitVec.xor_assoc, BitVec.xor_self, BitVec.xor_zero]
  calc (clock feedback)^[n] r
      = (clock feedback)^[n] ((r ^^^ lowPart n r) ^^^ lowPart n r) := by
        rw [← hsplit]
    _ = (r >>> n) ^^^ (clock feedback)^[n] (lowPart n r) := by
        rw [clocks_xor, clocks_of_clear n hhigh, hmove]

/-! ## Errors in an odd number of places -/

/-- A bit as a number modulo two. -/
def bit (b : Bool) : ZMod 2 := if b then 1 else 0

/-- How many bits are set, modulo two. -/
def parity (r : BitVec w) : ZMod 2 :=
  ∑ i ∈ Finset.range w, bit (r.getLsbD i)

theorem bit_xor (a b : Bool) : bit (a ^^ b) = bit a + bit b := by
  cases a <;> cases b <;> decide

theorem parity_xor (r s : BitVec w) :
    parity (r ^^^ s) = parity r + parity s := by
  simp only [parity, BitVec.getLsbD_xor, bit_xor, Finset.sum_add_distrib]

@[simp] theorem parity_zero : parity (0 : BitVec w) = 0 := by
  simp [parity, bit]

theorem parity_loBit (hw : 0 < w) (b : Bool) :
    parity (loBit b : BitVec w) = bit b := by
  rw [parity, Finset.sum_eq_single 0]
  · simp [getLsbD_loBit hw]
  · intro i _ hi
    simp [getLsbD_loBit hw, hi, bit]
  · intro h
    exact absurd (Finset.mem_range.mpr hw) h

/-- The bit that falls out is missing. -/
theorem parity_shift (r : BitVec w) :
    parity (r >>> 1) + bit (r.getLsbD 0) = parity r := by
  have htop : bit (r.getLsbD w) = 0 := by
    rw [BitVec.getLsbD_of_ge r w (Nat.le_refl w)]
    rfl
  have hsum := Finset.sum_range_succ (fun i => bit (r.getLsbD i)) w
  rw [Finset.sum_range_succ', htop, add_zero] at hsum
  simpa only [parity, getLsbD_shift] using hsum

/-- When the feedback has an odd number of bits, a clock keeps the parity. -/
theorem parity_clock (hodd : parity feedback = 1) (r : BitVec w) :
    parity (clock feedback r) = parity r := by
  have hshift := parity_shift r
  rw [clock]
  split
  · next h =>
      rw [h] at hshift
      rw [parity_xor, hodd, ← hshift]
      rfl
  · next h =>
      rw [Bool.eq_false_iff.mpr h] at hshift
      simpa [bit] using hshift

theorem parity_absorb (hw : 0 < w) (hodd : parity feedback = 1)
    (bits : List Bool) :
    ∀ r : BitVec w,
      parity (absorb feedback r bits) = parity r + (bits.count true : ℕ) := by
  induction bits with
  | nil => intro r; simp
  | cons b bits ih =>
      intro r
      rw [absorb_cons, ih, feed, parity_clock hodd, parity_xor,
        parity_loBit hw]
      cases b
      · simp [bit]
      · simp only [bit, if_true, List.count_cons_self, Nat.cast_add,
          Nat.cast_one]
        rw [add_assoc, add_comm (1 : ZMod 2)]

/-- Bits that leave nothing in the register are even in number. -/
theorem even_of_absorb (hw : 0 < w) (hodd : parity feedback = 1)
    {bits : List Bool} (h : absorb feedback 0 bits = 0) :
    bits.count true % 2 = 0 := by
  have hparity := parity_absorb hw hodd bits 0
  rw [h, parity_zero, zero_add] at hparity
  exact Nat.mod_eq_zero_of_dvd
    ((ZMod.natCast_eq_zero_iff _ 2).mp hparity.symm)

/-! ## Errors in few places in a row -/

/-- A clock that leaves the top place clear has lost nothing. -/
theorem clock_inv (htop : feedback.getLsbD (w - 1) = true) {r : BitVec w}
    (h : (clock feedback r).getLsbD (w - 1) = false) :
    r.getLsbD 0 = false ∧
      ∀ i, (clock feedback r).getLsbD i = r.getLsbD (i + 1) := by
  have hover : r.getLsbD (w - 1 + 1) = false :=
    BitVec.getLsbD_of_ge r _ (by omega)
  rw [getLsbD_clock, hover, htop] at h
  have hlow : r.getLsbD 0 = false := by simpa using h
  exact ⟨hlow, fun i => by rw [getLsbD_clock, hlow]; simp⟩

/-- When as many bits as the register is wide, or fewer, leave nothing in it,
they were what it held before. -/
theorem loaded_of_absorb (htop : feedback.getLsbD (w - 1) = true)
    {bits : List Bool} :
    ∀ {r : BitVec w}, bits.length ≤ w → absorb feedback r bits = 0 →
      Loaded r bits := by
  induction bits with
  | nil =>
      intro r _ h i
      rw [absorb_nil] at h
      rw [h]
      simp
  | cons b bits ih =>
      intro r hlen h
      rw [List.length_cons] at hlen
      have hw : 0 < w := Nat.lt_of_lt_of_le (Nat.succ_pos _) hlen
      have hafter := ih (Nat.le_of_succ_le hlen) h
      have hclear : (feed feedback r b).getLsbD (w - 1) = false := by
        rw [hafter, List.getD_eq_default _ _ (by omega)]
      obtain ⟨hlow, hhigh⟩ := clock_inv htop hclear
      intro i
      rcases i with _ | i
      · rw [BitVec.getLsbD_xor, getLsbD_loBit hw] at hlow
        simpa using hlow
      · have hbit := hhigh i
        rw [← feed, hafter, BitVec.getLsbD_xor, getLsbD_loBit hw] at hbit
        simpa using hbit.symm

theorem feed_false_zero : feed feedback (0 : BitVec w) false = 0 := by
  simp [feed, clock]

theorem absorb_clear {bits : List Bool} (h : ∀ b ∈ bits, b = false) :
    absorb feedback (0 : BitVec w) bits = 0 := by
  induction bits with
  | nil => rfl
  | cons b bits ih =>
      rw [absorb_cons, h b List.mem_cons_self, feed_false_zero]
      exact ih fun x hx => h x (List.mem_cons_of_mem b hx)

theorem zero_of_absorb_clear (hw : 0 < w)
    (htop : feedback.getLsbD (w - 1) = true) {bits : List Bool}
    (hclear : ∀ b ∈ bits, b = false) :
    ∀ {r : BitVec w}, absorb feedback r bits = 0 → r = 0 := by
  induction bits with
  | nil => intro r h; exact h
  | cons b bits ih =>
      intro r h
      have hfeed := ih (fun x hx => hclear x (List.mem_cons_of_mem b hx)) h
      have hone : absorb feedback r [b] = 0 := hfeed
      have hloaded := @loaded_of_absorb w feedback htop [b] r hw hone
      apply BitVec.eq_of_getLsbD_eq
      intro i _
      rw [hloaded i, hclear b List.mem_cons_self]
      rcases i with _ | i <;> simp

/-- Bits within a stretch of the register's width that leave nothing in it
are none. -/
theorem clear_of_absorb (hw : 0 < w)
    (htop : feedback.getLsbD (w - 1) = true) {bits : List Bool} {start : Nat}
    (hin : ∀ k, bits.getD k false = true → start ≤ k ∧ k < start + w)
    (h : absorb feedback 0 bits = 0) : ∀ b ∈ bits, b = false := by
  have hout : ∀ k, ¬ (start ≤ k ∧ k < start + w) → bits.getD k false = false :=
    fun k hk => Bool.eq_false_iff.mpr fun hset => hk (hin k hset)
  have hfront : ∀ b ∈ bits.take start, b = false := by
    intro b hb
    obtain ⟨k, hk, rfl⟩ := List.mem_iff_getElem.mp hb
    rw [List.length_take] at hk
    have hclear := hout k (by omega)
    rw [List.getD_eq_getElem _ _ (by omega)] at hclear
    rw [List.getElem_take]
    exact hclear
  have hback : ∀ b ∈ (bits.drop start).drop w, b = false := by
    intro b hb
    obtain ⟨k, hk, rfl⟩ := List.mem_iff_getElem.mp hb
    rw [List.length_drop, List.length_drop] at hk
    have hclear := hout (start + (w + k)) (by omega)
    rw [List.getD_eq_getElem _ _ (by omega)] at hclear
    rw [List.getElem_drop, List.getElem_drop]
    exact hclear
  -- The three parts, and the register between them.
  have hsplit : bits = bits.take start ++
      ((bits.drop start).take w ++ (bits.drop start).drop w) := by
    rw [List.take_append_drop, List.take_append_drop]
  rw [hsplit, absorb_append, absorb_clear hfront, absorb_append] at h
  have hmiddle := zero_of_absorb_clear hw htop hback h
  have hloaded := loaded_of_absorb htop (by
    rw [List.length_take]
    exact Nat.min_le_left _ _) hmiddle
  intro b hb
  rw [hsplit] at hb
  rcases List.mem_append.mp hb with hb | hb
  · exact hfront b hb
  rcases List.mem_append.mp hb with hb | hb
  · obtain ⟨k, hk, rfl⟩ := List.mem_iff_getElem.mp hb
    have hbit := hloaded k
    rw [List.getD_eq_getElem _ _ hk] at hbit
    rw [← hbit]
    simp
  · exact hback b hb

/-! ## Errors in two places

Between two places that differ the register runs free from a single bit. It
clears only if that bit comes back, so the period of the register is how far
apart the places can be. -/

theorem feed_false (r : BitVec w) :
    feed feedback r false = clock feedback r := by
  simp [feed]

theorem feed_zero (b : Bool) :
    feed feedback (0 : BitVec w) b = clock feedback (loBit b) := by
  simp [feed]

theorem absorb_false {bits : List Bool} (h : ∀ b ∈ bits, b = false) :
    ∀ r : BitVec w, absorb feedback r bits =
      (clock feedback)^[bits.length] r := by
  induction bits with
  | nil => intro r; rfl
  | cons b bits ih =>
      intro r
      rw [absorb_cons, h b List.mem_cons_self,
        ih fun x hx => h x (List.mem_cons_of_mem b hx), List.length_cons,
        Function.iterate_succ_apply, feed_false]

/-- The first bit that is set. -/
theorem exists_first_set {bits : List Bool} (h : 0 < bits.count true) :
    ∃ front back, bits = front ++ true :: back ∧
      (∀ b ∈ front, b = false) ∧ back.count true + 1 = bits.count true := by
  obtain ⟨front, back, rfl, hfront⟩ :=
    List.eq_append_cons_of_mem (List.count_pos_iff.mp h)
  refine ⟨front, back, rfl, fun b hb => ?_, ?_⟩
  · cases b with
    | true => exact absurd hb hfront
    | false => rfl
  · rw [List.count_append, List.count_eq_zero_of_not_mem hfront,
      List.count_cons_self, Nat.zero_add]

/-- Two bits that leave nothing are as far apart as it takes a single bit to
come back. -/
theorem returns_of_absorb (hw : 0 < w)
    (htop : feedback.getLsbD (w - 1) = true) {bits : List Bool}
    (htwo : bits.count true = 2) (h : absorb feedback 0 bits = 0) :
    ∃ n < bits.length, 0 < n ∧
      (clock feedback)^[n] (loBit true) = loBit true := by
  obtain ⟨front, rest, rfl, hfront, hrest⟩ :=
    @exists_first_set bits (by omega)
  obtain ⟨middle, back, rfl, hmiddle, hback⟩ :=
    @exists_first_set rest (by omega)
  have hclear : ∀ b ∈ false :: back, b = false := by
    intro b hb
    rcases List.mem_cons.mp hb with rfl | hb
    · rfl
    · cases b with
      | true => exact absurd (List.count_pos_iff.mpr hb) (by omega)
      | false => rfl
  refine ⟨middle.length + 1, ?_, Nat.succ_pos _, ?_⟩
  · simp only [List.length_append, List.length_cons]
    omega
  rw [absorb_append, absorb_clear hfront, absorb_cons, absorb_append,
    absorb_false hmiddle, absorb_cons] at h
  rw [feed_zero, ← Function.iterate_succ_apply] at h
  have hlast : absorb feedback ((clock feedback)^[middle.length + 1]
      (loBit true) ^^^ loBit true) (false :: back) = 0 := by
    rw [absorb_cons, feed_false]
    exact h
  exact BitVec.xor_eq_zero_iff.mp
    (zero_of_absorb_clear hw htop hclear hlast)

/-- For so many clocks the register does not hold the word. -/
def staysOff (feedback word : BitVec w) : Nat → BitVec w → Bool
  | 0, _ => true
  | n + 1, r => r != word && staysOff feedback word n (clock feedback r)

theorem ne_of_staysOff {word : BitVec w} {n k : Nat} (hk : k < n) :
    ∀ {r : BitVec w}, staysOff feedback word n r = true →
      (clock feedback)^[k] r ≠ word := by
  induction n generalizing k with
  | zero => exact absurd hk (Nat.not_lt_zero k)
  | succ n ih =>
      intro r h
      rw [staysOff, Bool.and_eq_true, bne_iff_ne] at h
      cases k with
      | zero => exact h.1
      | succ k => exact ih (Nat.lt_of_succ_lt_succ hk) h.2

end MBusMeter.Lib
