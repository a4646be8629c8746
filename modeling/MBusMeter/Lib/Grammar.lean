import MBusMeter.Lib.Machine

/-!
# Reading a stream part by part

A machine that takes a stream apart is written one input at a time, and what
it is for is easier to say in larger parts: what a part looks like, what is
put out for it, and what can come next. A grammar says that, and nothing of
states. Its phases stand for what the machine must remember between two parts,
and a stream can stop short in a tail, for which nothing is put out.

A machine recognises a grammar when it reads each part as the grammar has it,
and when every stream is a tail or begins with a part. It follows that every
stream can be read in the grammar, in one way as far as the outputs go: as the
machine does.
-/

namespace MBusMeter.Lib

universe u v w x

variable {σ : Type u} {ι : Type v} {ω : Type w} {κ : Type x}

structure Grammar (κ : Type x) (ι : Type v) (ω : Type w) where
  part : κ → List ι → List ω → κ → Prop
  tail : κ → List ι → Prop

/-- From a phase on, the stream can be read with these outputs. -/
inductive Grammar.Parses (g : Grammar κ ι ω) :
    κ → List ι → List ω → Prop where
  | tail {k : κ} {is : List ι} (htail : g.tail k is) : Parses g k is []
  | part {k l : κ} {is js : List ι} {os ps : List ω}
      (hpart : g.part k is os l) (hrest : Parses g l js ps) :
      Parses g k (is ++ js) (os ++ ps)

/-- `In k s`: in the state `s` a part of phase `k` can begin. -/
structure Recognises (step : σ → ι → σ × Option ω) (In : κ → σ → Prop)
    (g : Grammar κ ι ω) : Prop where
  part : ∀ {k l : κ} {s : σ} {is : List ι} {os : List ω}, In k s →
    g.part k is os l → ∃ s', Run step s is os s' ∧ In l s'
  tail : ∀ {k : κ} {s : σ} {is : List ι}, In k s → g.tail k is →
    ∃ s', Run step s is [] s'
  covers : ∀ (k : κ) (is : List ι), g.tail k is ∨
    ∃ front back os l, is = front ++ back ∧ front ≠ [] ∧ g.part k front os l

variable {step : σ → ι → σ × Option ω} {In : κ → σ → Prop}
  {g : Grammar κ ι ω}

/-- Every stream can be read. -/
theorem Recognises.parses (h : Recognises step In g) (k : κ) (is : List ι) :
    ∃ os, g.Parses k is os := by
  rcases h.covers k is with htail | ⟨front, back, os, l, rfl, hne, hpart⟩
  · exact ⟨[], .tail htail⟩
  · have hshorter : back.length < (front ++ back).length := by
      rw [List.length_append]
      have hpos := List.length_pos_of_ne_nil hne
      omega
    obtain ⟨ps, hrest⟩ := h.parses l back
    exact ⟨os ++ ps, .part hpart hrest⟩
termination_by is.length

/-- However a stream is read, the machine puts out what is put out there. -/
theorem Recognises.emitted (h : Recognises step In g) {k : κ} {is : List ι}
    {os : List ω} (hparses : g.Parses k is os) :
    ∀ {s : σ}, In k s → (outputs step s is).reduceOption = os := by
  induction hparses with
  | tail htail =>
      intro s hin
      obtain ⟨_, hrun⟩ := h.tail hin htail
      exact hrun.emitted
  | part hpart hrest ih =>
      intro s hin
      obtain ⟨s', hrun, hin'⟩ := h.part hin hpart
      rw [outputs_append, List.reduceOption_append, hrun.emitted, hrun.state,
        ih hin']

theorem Recognises.emitted_iff (h : Recognises step In g) {k : κ} {s : σ}
    (hin : In k s) (is : List ι) (os : List ω) :
    (outputs step s is).reduceOption = os ↔ g.Parses k is os := by
  refine ⟨fun heq => ?_, fun hparses => h.emitted hparses hin⟩
  obtain ⟨ps, hparses⟩ := h.parses k is
  rw [← heq, h.emitted hparses hin]
  exact hparses

end MBusMeter.Lib
