import Mathlib.Logic.Basic

/-!
# Procedures that succeed, fail, or run into undefined behaviour

A C function that answers `bool` and works on memory has three ends, not two:
it returned true, it returned false, or it did something the language gives
no meaning to. `Outcome` keeps the three apart and keeps the state in each of
them, because a call that returns false may well have changed something
before it did. `Proc` is a computation with such an end, and its monad is the
early return: the first step that does not succeed ends the whole.

The lemmas come in two groups. The equations run a procedure forward from a
known state. The inversions read a known end backward, one step at a time.
-/

namespace MBusMeter.Lib

universe u

/-- How a call ends, with the state it leaves. -/
inductive Outcome (ε σ α : Type u) where
  | ok (value : α) (state : σ)
  | fail (state : σ)
  | fault (cause : ε) (state : σ)
  deriving DecidableEq, Repr

/-- A computation on a state `σ` with one of the three ends. -/
structure Proc (ε σ α : Type u) where
  run : σ → Outcome ε σ α

instance {ε σ α : Type u} : CoeFun (Proc ε σ α) fun _ => σ → Outcome ε σ α :=
  ⟨Proc.run⟩

namespace Outcome

variable {ε σ τ α β : Type u}

/-- The state the call leaves, however it ended. -/
def state : Outcome ε σ α → σ
  | .ok _ s => s
  | .fail s => s
  | .fault _ s => s

/-- The call returned true. -/
def succeeded : Outcome ε σ α → Bool
  | .ok _ _ => true
  | _ => false

/-- What a call that succeeded gave back. -/
def value? : Outcome ε σ α → Option α
  | .ok a _ => some a
  | _ => none

/-- The call ran into undefined behaviour. -/
def faulted : Outcome ε σ α → Bool
  | .fault _ _ => true
  | _ => false

/-- Go on from a success; any other end is the end of the whole. -/
def andThen (o : Outcome ε σ α) (f : α → Proc ε σ β) : Outcome ε σ β :=
  match o with
  | .ok a s => f a s
  | .fail s => .fail s
  | .fault e s => .fault e s

/-- The same end, seen in a larger state. -/
def mapState (f : σ → τ) : Outcome ε σ α → Outcome ε τ α
  | .ok a s => .ok a (f s)
  | .fail s => .fail (f s)
  | .fault e s => .fault e (f s)

/-- The end of a call whose answer the caller does not look at. -/
def ignored : Outcome ε σ α → Outcome ε σ PUnit
  | .ok _ s => .ok ⟨⟩ s
  | .fail s => .ok ⟨⟩ s
  | .fault e s => .fault e s

@[simp] theorem state_ok {a : α} {s : σ} :
    (Outcome.ok a s : Outcome ε σ α).state = s := rfl

@[simp] theorem state_fail {s : σ} :
    (Outcome.fail s : Outcome ε σ α).state = s := rfl

@[simp] theorem succeeded_ok {a : α} {s : σ} :
    (Outcome.ok a s : Outcome ε σ α).succeeded = true := rfl

@[simp] theorem succeeded_fail {s : σ} :
    (Outcome.fail s : Outcome ε σ α).succeeded = false := rfl

@[simp] theorem succeeded_fault {e : ε} {s : σ} :
    (Outcome.fault e s : Outcome ε σ α).succeeded = false := rfl

@[simp] theorem faulted_ok {a : α} {s : σ} :
    (Outcome.ok a s : Outcome ε σ α).faulted = false := rfl

@[simp] theorem faulted_fail {s : σ} :
    (Outcome.fail s : Outcome ε σ α).faulted = false := rfl

@[simp] theorem faulted_fault {e : ε} {s : σ} :
    (Outcome.fault e s : Outcome ε σ α).faulted = true := rfl

@[simp] theorem ok_andThen {a : α} {s : σ} {f : α → Proc ε σ β} :
    (Outcome.ok a s).andThen f = f a s := rfl

@[simp] theorem fail_andThen {s : σ} {f : α → Proc ε σ β} :
    (Outcome.fail s).andThen f = .fail s := rfl

@[simp] theorem fault_andThen {e : ε} {s : σ} {f : α → Proc ε σ β} :
    (Outcome.fault e s).andThen f = .fault e s := rfl

@[simp] theorem mapState_ok {f : σ → τ} {a : α} {s : σ} :
    (Outcome.ok a s : Outcome ε σ α).mapState f = .ok a (f s) := rfl

@[simp] theorem mapState_fail {f : σ → τ} {s : σ} :
    (Outcome.fail s : Outcome ε σ α).mapState f = .fail (f s) := rfl

@[simp] theorem mapState_fault {f : σ → τ} {e : ε} {s : σ} :
    (Outcome.fault e s : Outcome ε σ α).mapState f = .fault e (f s) := rfl

@[simp] theorem ignored_ok {a : α} {s : σ} :
    (Outcome.ok a s : Outcome ε σ α).ignored = .ok ⟨⟩ s := rfl

@[simp] theorem ignored_fail {s : σ} :
    (Outcome.fail s : Outcome ε σ α).ignored = .ok ⟨⟩ s := rfl

theorem faulted_mapState (f : σ → τ) (o : Outcome ε σ α) :
    (o.mapState f).faulted = o.faulted := by
  cases o <;> rfl

theorem faulted_andThen {o : Outcome ε σ α} {f : α → Proc ε σ β}
    (h : o.faulted = true) : (o.andThen f).faulted = true := by
  cases o with
  | ok a s => cases h
  | fail s => cases h
  | fault e s => rfl

theorem eq_fail_of {o : Outcome ε σ α} (hs : o.succeeded = false)
    (hf : o.faulted = false) : ∃ s, o = .fail s := by
  cases o with
  | ok a s => cases hs
  | fail s => exact ⟨s, rfl⟩
  | fault e s => cases hf

theorem ignored_of_not_faulted {o : Outcome ε σ α} (h : o.faulted = false) :
    o.ignored = .ok ⟨⟩ o.state := by
  cases o with
  | ok a s => rfl
  | fail s => rfl
  | fault e s => cases h

theorem andThen_eq_ok {o : Outcome ε σ α} {f : α → Proc ε σ β}
    {b : β} {t : σ} (h : o.andThen f = .ok b t) :
    ∃ a s, o = .ok a s ∧ f a s = .ok b t := by
  cases o with
  | ok a s => exact ⟨a, s, rfl, h⟩
  | fail s => cases h
  | fault e s => cases h

end Outcome

namespace Proc

variable {ε σ τ α β : Type u}

instance : Monad (Proc ε σ) where
  pure a := ⟨fun s => .ok a s⟩
  bind m f := ⟨fun s => (m s).andThen f⟩

/-- `return false`. -/
def fail : Proc ε σ α := ⟨fun s => .fail s⟩

/-- The step the language gives no meaning to. -/
def fault (cause : ε) : Proc ε σ α := ⟨fun s => .fault cause s⟩

/-- Read something off the state. -/
def read (f : σ → α) : Proc ε σ α := ⟨fun s => .ok (f s) s⟩

/-- Change the state. -/
def update (f : σ → σ) : Proc ε σ PUnit := ⟨fun s => .ok ⟨⟩ (f s)⟩

/-- `if (!c) return false`. -/
def require (c : Prop) [Decidable c] : Proc ε σ PUnit :=
  ⟨fun s => if c then .ok ⟨⟩ s else .fail s⟩

/-- Call and do not look at the answer. -/
def ignore (m : Proc ε σ α) : Proc ε σ PUnit := ⟨fun s => (m s).ignored⟩

/-- Run a procedure on a part of the state. -/
def zoom (get : τ → σ) (set : τ → σ → τ) (m : Proc ε σ α) : Proc ε τ α :=
  ⟨fun t => (m (get t)).mapState (set t)⟩

/-- `for (i = from; i < from + count; ++i) body(i)`, left at the first body
that does not succeed. -/
def forUpTo (body : Nat → Proc ε σ PUnit) : (i count : Nat) → Proc ε σ PUnit
  | _, 0 => ⟨fun s => .ok ⟨⟩ s⟩
  | i, count + 1 => ⟨fun s =>
      (body i s).andThen fun _ => forUpTo body (i + 1) count⟩

/-- Run the procedure once for each element. -/
def each {ι : Type u} (body : ι → Proc ε σ PUnit) : List ι → Proc ε σ PUnit
  | [] => ⟨fun s => .ok ⟨⟩ s⟩
  | x :: xs => ⟨fun s => (body x s).andThen fun _ => each body xs⟩

@[simp] theorem pure_apply {a : α} {s : σ} :
    (pure a : Proc ε σ α) s = .ok a s := rfl

@[simp] theorem bind_apply {m : Proc ε σ α} {f : α → Proc ε σ β} {s : σ} :
    (m >>= f) s = (m s).andThen f := rfl

@[simp] theorem fail_apply {s : σ} : (fail : Proc ε σ α) s = .fail s := rfl

@[simp] theorem fault_apply {e : ε} {s : σ} :
    (fault e : Proc ε σ α) s = .fault e s := rfl

@[simp] theorem read_apply {f : σ → α} {s : σ} :
    (read f : Proc ε σ α) s = .ok (f s) s := rfl

@[simp] theorem update_apply {f : σ → σ} {s : σ} :
    (update f : Proc ε σ PUnit) s = .ok ⟨⟩ (f s) := rfl

theorem require_apply {c : Prop} [Decidable c] {s : σ} :
    (require c : Proc ε σ PUnit) s = if c then .ok ⟨⟩ s else .fail s := rfl

theorem require_of {c : Prop} [Decidable c] {s : σ} (h : c) :
    (require c : Proc ε σ PUnit) s = .ok ⟨⟩ s := if_pos h

theorem require_of_not {c : Prop} [Decidable c] {s : σ} (h : ¬ c) :
    (require c : Proc ε σ PUnit) s = .fail s := if_neg h

@[simp] theorem ignore_apply {m : Proc ε σ α} {s : σ} :
    ignore m s = (m s).ignored := rfl

@[simp] theorem zoom_apply {get : τ → σ} {set : τ → σ → τ} {m : Proc ε σ α}
    {t : τ} : zoom get set m t = (m (get t)).mapState (set t) := rfl

theorem ite_apply {c : Prop} [Decidable c] {m k : Proc ε σ α} {s : σ} :
    (if c then m else k) s = if c then m s else k s :=
  apply_ite (fun p : Proc ε σ α => p s) c m k

/-! One step of a run, from the known end of its first part. -/

theorem bind_of_ok {m : Proc ε σ α} {f : α → Proc ε σ β} {s t : σ} {a : α}
    (h : m s = .ok a t) : (m >>= f) s = f a t := by
  rw [bind_apply, h]; rfl

theorem bind_of_fail {m : Proc ε σ α} {f : α → Proc ε σ β} {s t : σ}
    (h : m s = .fail t) : (m >>= f) s = .fail t := by
  rw [bind_apply, h]; rfl

theorem bind_of_fault {m : Proc ε σ α} {f : α → Proc ε σ β} {s t : σ} {e : ε}
    (h : m s = .fault e t) : (m >>= f) s = .fault e t := by
  rw [bind_apply, h]; rfl

theorem zoom_of_ok {get : τ → σ} {set : τ → σ → τ} {m : Proc ε σ α} {t : τ}
    {s : σ} {a : α} (h : m (get t) = .ok a s) :
    zoom get set m t = .ok a (set t s) := by
  rw [zoom_apply, h]; rfl

theorem zoom_of_fail {get : τ → σ} {set : τ → σ → τ} {m : Proc ε σ α} {t : τ}
    {s : σ} (h : m (get t) = .fail s) :
    zoom get set m t = .fail (set t s) := by
  rw [zoom_apply, h]; rfl

theorem zoom_of_fault {get : τ → σ} {set : τ → σ → τ} {m : Proc ε σ α} {t : τ}
    {s : σ} {e : ε} (h : m (get t) = .fault e s) :
    zoom get set m t = .fault e (set t s) := by
  rw [zoom_apply, h]; rfl

/-! ## Loops

A run over a list in two parts is the run over the first followed by the run
over the second, and so is a counted loop cut in two. -/

theorem forUpTo_zero {body : Nat → Proc ε σ PUnit} {i : Nat} :
    forUpTo body i 0 = pure ⟨⟩ := rfl

theorem forUpTo_succ {body : Nat → Proc ε σ PUnit} {i count : Nat} :
    forUpTo body i (count + 1) =
      body i >>= fun _ => forUpTo body (i + 1) count := rfl

theorem each_cons {ι : Type u} {body : ι → Proc ε σ PUnit} {x : ι}
    {xs : List ι} {s : σ} :
    each body (x :: xs) s = (body x s).andThen fun _ => each body xs := rfl

theorem each_append {ι : Type u} (body : ι → Proc ε σ PUnit) (xs ys : List ι) :
    ∀ s, each body (xs ++ ys) s =
      (each body xs s).andThen fun _ => each body ys := by
  induction xs with
  | nil => intro s; rfl
  | cons x xs ih =>
      intro s
      rw [List.cons_append, each_cons, each_cons]
      cases body x s with
      | ok _ t => exact ih t
      | fail t => rfl
      | fault e t => rfl

theorem each_snoc {ι : Type u} (body : ι → Proc ε σ PUnit) (xs : List ι)
    (x : ι) (s : σ) :
    each body (xs ++ [x]) s = (each body xs s).andThen fun _ => body x := by
  rw [each_append]
  cases each body xs s with
  | ok _ t =>
      rw [Outcome.ok_andThen, Outcome.ok_andThen, each_cons]
      cases body x t <;> rfl
  | fail t => rfl
  | fault e t => rfl

end Proc

end MBusMeter.Lib
