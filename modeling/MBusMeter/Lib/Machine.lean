import Mathlib.Data.List.ReduceOption

/-!
# Deterministic machines with output

A machine is a step function: it takes a state and an input and answers the
next state and what the step put out. This file is the little theory a
development needs of such machines — what a run over a list of inputs leaves
behind and puts out, that runs compose, and that an invariant of the steps
holds in every state a run can reach.
-/

namespace MBusMeter.Lib

universe u v w

variable {σ : Type u} {ι : Type v} {ω : Type w}

/-- The state after a run. -/
def after (step : σ → ι → σ × ω) : σ → List ι → σ
  | s, [] => s
  | s, i :: is => after step (step s i).1 is

/-- What a run puts out, step by step. -/
def outputs (step : σ → ι → σ × ω) : σ → List ι → List ω
  | _, [] => []
  | s, i :: is => (step s i).2 :: outputs step (step s i).1 is

/-- The states some run from `init` leaves. -/
def Reachable (step : σ → ι → σ × ω) (init s : σ) : Prop :=
  ∃ is, after step init is = s

@[simp] theorem after_cons {step : σ → ι → σ × ω} {s : σ} {i : ι}
    {is : List ι} : after step s (i :: is) = after step (step s i).1 is := rfl

@[simp] theorem outputs_cons {step : σ → ι → σ × ω} {s : σ} {i : ι}
    {is : List ι} :
    outputs step s (i :: is) = (step s i).2 :: outputs step (step s i).1 is :=
  rfl

theorem after_append (step : σ → ι → σ × ω) (xs ys : List ι) :
    ∀ s, after step s (xs ++ ys) = after step (after step s xs) ys := by
  induction xs with
  | nil => intro s; rfl
  | cons x xs ih => intro s; exact ih _

theorem outputs_append (step : σ → ι → σ × ω) (xs ys : List ι) :
    ∀ s, outputs step s (xs ++ ys) =
      outputs step s xs ++ outputs step (after step s xs) ys := by
  induction xs with
  | nil => intro s; rfl
  | cons x xs ih =>
      intro s
      rw [List.cons_append, outputs_cons, outputs_cons, ih]
      rfl

theorem after_snoc {step : σ → ι → σ × ω} {s : σ} {xs : List ι} {x : ι} :
    after step s (xs ++ [x]) = (step (after step s xs) x).1 := by
  rw [after_append]; rfl

/-- Whatever a run puts out, some step of it put out. -/
theorem mem_outputs {step : σ → ι → σ × ω} {o : ω} (is : List ι) :
    ∀ s, o ∈ outputs step s is →
      ∃ pre i post, is = pre ++ i :: post ∧
        o = (step (after step s pre) i).2 := by
  induction is with
  | nil => intro s h; cases h
  | cons i is ih =>
      intro s h
      rcases List.mem_cons.mp h with rfl | h
      · exact ⟨[], i, is, rfl, rfl⟩
      · obtain ⟨pre, j, post, rfl, ho⟩ := ih _ h
        exact ⟨i :: pre, j, post, rfl, ho⟩

@[simp] theorem outputs_length (step : σ → ι → σ × ω) (is : List ι) :
    ∀ s, (outputs step s is).length = is.length := by
  induction is with
  | nil => intro s; rfl
  | cons i is ih => intro s; exact congrArg Nat.succ (ih _)

/-- What the step at some place of a run puts out. -/
theorem getElem?_outputs {step : σ → ι → σ × ω} (is : List ι) (k : Nat) :
    ∀ s, (outputs step s is)[k]? =
      is[k]?.map fun i => (step (after step s (is.take k)) i).2 := by
  induction is generalizing k with
  | nil => intro s; rfl
  | cons i is ih =>
      intro s
      cases k with
      | zero => rfl
      | succ k => exact ih k _

/-- What holds at the start and is kept by every step holds wherever a run
can get to. -/
theorem Reachable.invariant {step : σ → ι → σ × ω} {P : σ → Prop}
    {init s : σ} (hr : Reachable step init s) (hinit : P init)
    (hstep : ∀ s i, P s → P (step s i).1) : P s := by
  obtain ⟨is, rfl⟩ := hr
  induction is generalizing init with
  | nil => exact hinit
  | cons i is ih => exact ih (hstep init i hinit)

/-! ## Steps that need not put anything out -/

/-- Fed with `is`, the machine goes from `s` to `s'` and puts out `os`. -/
structure Run (step : σ → ι → σ × Option ω) (s : σ) (is : List ι)
    (os : List ω) (s' : σ) : Prop where
  state : after step s is = s'
  emitted : (outputs step s is).reduceOption = os

theorem Run.nil (step : σ → ι → σ × Option ω) (s : σ) :
    Run step s [] [] s := ⟨rfl, rfl⟩

theorem Run.silent {step : σ → ι → σ × Option ω} {s s' : σ} {i : ι}
    (h : step s i = (s', none)) : Run step s [i] [] s' := by
  refine ⟨congrArg Prod.fst h, ?_⟩
  rw [outputs_cons, h]
  rfl

theorem Run.emit {step : σ → ι → σ × Option ω} {s s' : σ} {i : ι} {o : ω}
    (h : step s i = (s', some o)) : Run step s [i] [o] s' := by
  refine ⟨congrArg Prod.fst h, ?_⟩
  rw [outputs_cons, h]
  rfl

theorem Run.append {step : σ → ι → σ × Option ω} {s t u : σ} {is js : List ι}
    {os ps : List ω} (hi : Run step s is os t) (hj : Run step t js ps u) :
    Run step s (is ++ js) (os ++ ps) u := by
  refine ⟨?_, ?_⟩
  · rw [after_append, hi.state, hj.state]
  · rw [outputs_append, List.reduceOption_append, hi.emitted, hi.state,
      hj.emitted]

/-- Runs that put out one thing each and leave the state as it was. -/
theorem Run.flatMap {α : Type w} {step : σ → ι → σ × Option ω} {s : σ}
    {is : α → List ι} {o : α → ω} (h : ∀ x, Run step s (is x) [o x] s)
    (xs : List α) : Run step s (xs.flatMap is) (xs.map o) s := by
  induction xs with
  | nil => exact Run.nil step s
  | cons x xs ih => exact (h x).append ih

/-! ## Runs broken off

Where each piece of the input brings its output with its last, a run that is
broken off has put out what belongs to the pieces that are complete. -/

/-- The pieces that are complete in so many inputs. -/
def complete {α : Type w} (is : α → List ι) : Nat → List α → List α
  | _, [] => []
  | n, x :: xs =>
      if (is x).length ≤ n then x :: complete is (n - (is x).length) xs
      else []

theorem complete_front {α : Type w} (is : α → List ι) (xs : List α) :
    ∀ n, ∃ back, xs = complete is n xs ++ back ∧
      (n < (xs.flatMap is).length → back ≠ []) := by
  induction xs with
  | nil => exact fun n => ⟨[], rfl, fun h => absurd h (Nat.not_lt_zero n)⟩
  | cons x xs ih =>
      intro n
      rw [complete, List.flatMap_cons, List.length_append]
      split
      · obtain ⟨back, hxs, hback⟩ := ih (n - (is x).length)
        exact ⟨back, congrArg (x :: ·) hxs, fun h => hback (by omega)⟩
      · exact ⟨x :: xs, rfl, fun _ => List.cons_ne_nil x xs⟩

/-- What has put out nothing had not at any earlier time. -/
theorem emitted_front {step : σ → ι → σ × Option ω} {s : σ}
    {front back : List ι}
    (h : (outputs step s (front ++ back)).reduceOption = []) :
    (outputs step s front).reduceOption = [] := by
  rw [outputs_append, List.reduceOption_append] at h
  exact (List.append_eq_nil_iff.mp h).1

theorem Run.complete {α : Type w} {step : σ → ι → σ × Option ω} {s : σ}
    {is : α → List ι} {o : α → ω} (h : ∀ x, Run step s (is x) [o x] s)
    (hlate : ∀ x, (outputs step s (is x).dropLast).reduceOption = [])
    (xs : List α) :
    ∀ n, (outputs step s ((xs.flatMap is).take n)).reduceOption =
      (complete is n xs).map o := by
  induction xs with
  | nil =>
      intro n
      rw [List.flatMap_nil, List.take_nil]
      rfl
  | cons x xs ih =>
      intro n
      rw [Lib.complete, List.flatMap_cons]
      split
      · next hle =>
          rw [List.take_append, List.take_of_length_le hle, outputs_append,
            List.reduceOption_append, (h x).emitted, (h x).state, ih]
          rfl
      · next hlt =>
          rw [List.take_append_of_le_length (Nat.le_of_not_le hlt)]
          have hfront : (is x).take n = (is x).dropLast.take n := by
            rw [List.dropLast_eq_take, List.take_take,
              Nat.min_eq_left (by omega)]
          have hnone : (outputs step s ((is x).dropLast.take n ++
              (is x).dropLast.drop n)).reduceOption = [] := by
            rw [List.take_append_drop]
            exact hlate x
          rw [hfront]
          exact emitted_front hnone

/-! ## Runs with inputs left out

Each input of a run comes with a mark, which is false for the inputs that are
to be left out. When those leave the state as it is, the run without them goes
through the same states, and nobody who watches the other steps can tell the
two runs apart. -/

/-- The inputs that stay. -/
def keptInputs : List (ι × Bool) → List ι
  | [] => []
  | (i, true) :: run => i :: keptInputs run
  | (_, false) :: run => keptInputs run

/-- What the whole run puts out at the inputs that stay. -/
def keptOutputs (step : σ → ι → σ × ω) : σ → List (ι × Bool) → List ω
  | _, [] => []
  | s, (i, true) :: run => (step s i).2 :: keptOutputs step (step s i).1 run
  | s, (i, false) :: run => keptOutputs step (step s i).1 run

/-- Every input that is left out has the property where it stands in the whole
run. -/
def LeftOut (step : σ → ι → σ × ω) (P : σ → ι → Prop) (s : σ)
    (run : List (ι × Bool)) : Prop :=
  ∀ pre i post, run = pre ++ (i, false) :: post →
    P (after step s (pre.map Prod.fst)) i

variable {step : σ → ι → σ × ω} {P : σ → ι → Prop}

theorem LeftOut.tail {s : σ} {x : ι × Bool} {run : List (ι × Bool)}
    (h : LeftOut step P s (x :: run)) : LeftOut step P (step s x.1).1 run :=
  fun pre i post hrun => h (x :: pre) i post (congrArg (x :: ·) hrun)

theorem LeftOut.head {s : σ} {i : ι} {run : List (ι × Bool)}
    (h : LeftOut step P s ((i, false) :: run)) : P s i := h [] i run rfl

theorem LeftOut.mono {Q : σ → ι → Prop} (hPQ : ∀ s i, P s i → Q s i) {s : σ}
    {run : List (ι × Bool)} (h : LeftOut step P s run) :
    LeftOut step Q s run :=
  fun pre i post hrun => hPQ _ _ (h pre i post hrun)

/-- Inputs that leave the state as it is can be left out of the run: the other
steps put out what they did. -/
theorem LeftOut.keptOutputs_eq {run : List (ι × Bool)} :
    ∀ {s : σ}, LeftOut step (fun s i => (step s i).1 = s) s run →
      keptOutputs step s run = outputs step s (keptInputs run) := by
  induction run with
  | nil => intro s _; rfl
  | cons x run ih =>
      obtain ⟨i, keep⟩ := x
      intro s h
      cases keep with
      | true => exact congrArg ((step s i).2 :: ·) (ih h.tail)
      | false =>
          have htail := ih h.tail
          rw [h.head] at htail
          rw [keptOutputs, h.head]
          exact htail

/-- What is collected from the outputs is the same, when the steps left out
contribute nothing. -/
theorem LeftOut.flatMap_eq {β : Type w} {f : ω → List β}
    {run : List (ι × Bool)} :
    ∀ {s : σ}, LeftOut step (fun s i => f (step s i).2 = []) s run →
      (outputs step s (run.map Prod.fst)).flatMap f =
        (keptOutputs step s run).flatMap f := by
  induction run with
  | nil => intro s _; rfl
  | cons x run ih =>
      obtain ⟨i, keep⟩ := x
      intro s h
      have htail := ih h.tail
      rw [List.map_cons, outputs_cons, List.flatMap_cons, htail]
      cases keep with
      | true => rfl
      | false => rw [h.head]; rfl

end MBusMeter.Lib
