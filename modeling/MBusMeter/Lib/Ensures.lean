import MBusMeter.Lib.Proc
import Mathlib.Order.Defs.Unbundled

/-!
# What a procedure ensures

Rules for saying what a procedure does to its state without running it. The
postcondition is a relation between the state before and the state after, and
it is about the runs that return true: the other ends are the end of the whole
and nobody goes on from them. Where the relation is a preorder, a sequence and
a loop ensure what each of their steps does.

The last two rules are about two procedures at once. Sequences agree on a
state when their first steps do there and their second steps wherever the
first can lead, and two bodies that agree wherever an invariant holds make
loops that agree from there.
-/

namespace MBusMeter.Lib.Proc

universe u

variable {ε σ τ α β : Type u} {R S Q : σ → σ → Prop}

/-- A run that returns true goes from a state to a related one. -/
def Ensures (m : Proc ε σ α) (R : σ → σ → Prop) : Prop :=
  ∀ s a t, m s = .ok a t → R s t

namespace Ensures

theorem mono {m : Proc ε σ α} (h : Ensures m R) (hRS : ∀ s t, R s t → S s t) :
    Ensures m S :=
  fun s a t hm => hRS s t (h s a t hm)

theorem fail : Ensures (Proc.fail : Proc ε σ α) R := by
  intro s a t h
  cases h

theorem fault {cause : ε} : Ensures (Proc.fault cause : Proc ε σ α) R := by
  intro s a t h
  cases h

theorem update {f : σ → σ} (h : ∀ s, R s (f s)) :
    Ensures (Proc.update f : Proc ε σ PUnit) R := by
  intro s a t hm
  cases hm
  exact h s

theorem ite {c : Prop} [Decidable c] {m k : Proc ε σ α} (hm : Ensures m R)
    (hk : Ensures k R) : Ensures (if c then m else k) R := by
  split
  · exact hm
  · exact hk

/-- What a step on a part of the state ensures there. -/
theorem zoom {get : τ → σ} {set : τ → σ → τ} {m : Proc ε σ α}
    {T : τ → τ → Prop} (hm : Ensures m R)
    (hT : ∀ t s, R (get t) s → T t (set t s)) :
    Ensures (Proc.zoom get set m) T := by
  intro t a t' h
  rw [zoom_apply] at h
  cases ho : m (get t) with
  | ok b s =>
      rw [ho] at h
      cases h
      exact hT t s (hm _ _ _ ho)
  | fail s => rw [ho] at h; cases h
  | fault e s => rw [ho] at h; cases h

/-- One step and then another. -/
theorem bind {m : Proc ε σ α} {f : α → Proc ε σ β} (hm : Ensures m R)
    (hf : ∀ a, Ensures (f a) S) (hQ : ∀ s t u, R s t → S t u → Q s u) :
    Ensures (m >>= f) Q := by
  intro s b u h
  obtain ⟨a, t, hma, hfa⟩ := Outcome.andThen_eq_ok h
  exact hQ s t u (hm s a t hma) (hf a t b u hfa)

/-- A read is followed by what is known of the value read. -/
theorem read_bind {f : σ → α} {k : α → Proc ε σ β}
    (h : ∀ s b t, k (f s) s = .ok b t → R s t) :
    Ensures (Proc.read f >>= k) R := h

variable [IsPreorder σ R]

theorem pure {a : α} : Ensures (Pure.pure a : Proc ε σ α) R := by
  intro s b t h
  cases h
  exact refl_of R s

theorem read {f : σ → α} : Ensures (Proc.read f : Proc ε σ α) R := by
  intro s a t h
  cases h
  exact refl_of R s

theorem require {c : Prop} [Decidable c] :
    Ensures (Proc.require c : Proc ε σ PUnit) R := by
  intro s a t h
  rw [require_apply] at h
  split at h
  · cases h
    exact refl_of R s
  · cases h

theorem seq {m : Proc ε σ α} {f : α → Proc ε σ β} (hm : Ensures m R)
    (hf : ∀ a, Ensures (f a) R) : Ensures (m >>= f) R :=
  bind hm hf fun _ _ _ => trans_of R

theorem forUpTo {body : Nat → Proc ε σ PUnit} (h : ∀ i, Ensures (body i) R)
    (count : Nat) : ∀ i, Ensures (Proc.forUpTo body i count) R := by
  induction count with
  | zero => exact fun i => pure
  | succ count ih => exact fun i => seq (h i) fun _ => ih (i + 1)

end Ensures

theorem bind_congr {m m' : Proc ε σ α} {f f' : α → Proc ε σ β} {s : σ}
    (hm : m s = m' s) (hf : ∀ a t, m s = .ok a t → f a t = f' a t) :
    (m >>= f) s = (m' >>= f') s := by
  rw [bind_apply, bind_apply, ← hm]
  cases ho : m s with
  | ok a t => exact hf a t ho
  | fail t => rfl
  | fault e t => rfl

/-- Loops whose bodies agree under an invariant agree. -/
theorem forUpTo_congr {body body' : Nat → Proc ε σ PUnit} {I : σ → Prop}
    (hkeep : ∀ i s t, I s → body i s = .ok ⟨⟩ t → I t)
    (heq : ∀ i s, I s → body i s = body' i s) (count : Nat) :
    ∀ i s, I s → forUpTo body i count s = forUpTo body' i count s := by
  induction count with
  | zero => intro i s _; rfl
  | succ count ih =>
      intro i s hs
      rw [forUpTo_succ, forUpTo_succ]
      exact bind_congr (heq i s hs) fun _ t ho =>
        ih (i + 1) t (hkeep i s t hs ho)

end MBusMeter.Lib.Proc
