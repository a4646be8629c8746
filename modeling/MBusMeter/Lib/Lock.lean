import Mathlib.Data.List.Basic
import Mathlib.Logic.Function.Basic
import Mathlib.Logic.Relation

/-!
# Tasks that share a lock

Tasks run at the same time, and their steps come in any order. They share two
things. One of them anybody may read and write at any step. The other is
behind a lock: it is only touched by the task that has it, which does what it
got the lock for and gives it back.

So nobody can see the second one while it is in the middle of something, and
for all that can be found out about it, whatever is done under the lock is
done at once, in the order in which the lock was taken. `Reaches.invariant` is
that, as a rule: what is kept by the free steps and by whole stays under the
lock holds in every state, with the stay that is going on taken to its end.
-/

namespace MBusMeter.Lib

universe u v w x

/-- What is left to do under the lock. -/
inductive Held (β : Type v) where
  | done
  | step (f : β → β) (next : β → Held β)

/-- What is left to do: nothing; a step without the lock; or to get the lock,
for something, and then go on. -/
inductive Task (α : Type u) (γ : Type w) where
  | done
  | free (f : α → α) (next : α → Task α γ)
  | locked (what : γ) (next : Task α γ)

/-- The tasks and what they share. `begun` is a record of what the lock was
taken for, and by whom. -/
structure System (ι : Type x) (α : Type u) (β : Type v) (γ : Type w) where
  outside : α
  inside : β
  holder : Option (ι × Held β)
  begun : List (ι × γ)
  tasks : ι → Task α γ

variable {ι : Type x} {α : Type u} {β : Type v} {γ : Type w}

/-- All of it at once. -/
def Held.finish : Held β → β → β
  | .done, b => b
  | .step f next, b => (next b).finish (f b)

namespace System

/-- A step of a task without the lock. -/
def move [DecidableEq ι] (s : System ι α β γ) (i : ι) :
    Option (System ι α β γ) :=
  match s.tasks i with
  | .free f next => some { s with
      outside := f s.outside
      tasks := Function.update s.tasks i (next s.outside) }
  | _ => none

/-- A step of a task, if it is not waiting for the lock. -/
def step [DecidableEq ι] (body : γ → Held β) (s : System ι α β γ) (i : ι) :
    Option (System ι α β γ) :=
  match s.holder with
  | some (j, held) =>
      if i = j then
        match held with
        | .done => some { s with holder := none }
        | .step f next => some { s with
            inside := f s.inside
            holder := some (i, next s.inside) }
      else s.move i
  | none =>
      match s.tasks i with
      | .locked what next => some { s with
          holder := some (i, body what)
          begun := s.begun ++ [(i, what)]
          tasks := Function.update s.tasks i next }
      | _ => s.move i

/-- What is behind the lock when the stay that is going on has ended. -/
def settled (s : System ι α β γ) : β :=
  match s.holder with
  | some (_, held) => held.finish s.inside
  | none => s.inside

end System

theorem System.settled_of_none {s : System ι α β γ} (h : s.holder = none) :
    s.settled = s.inside := by
  rw [System.settled, h]

/-- What is done under the lock, one after the other. -/
def inOrder (body : γ → Held β) (begun : List (ι × γ)) (b : β) : β :=
  begun.foldl (fun b x => (body x.2).finish b) b

theorem inOrder_snoc (body : γ → Held β) (begun : List (ι × γ)) (i : ι)
    (what : γ) (b : β) :
    inOrder body (begun ++ [(i, what)]) b =
      (body what).finish (inOrder body begun b) := List.foldl_append

variable [DecidableEq ι]

/-- Some steps, of whichever tasks. -/
def Reaches (body : γ → Held β) :
    System ι α β γ → System ι α β γ → Prop :=
  Relation.ReflTransGen fun s t => ∃ i, s.step body i = some t

variable {body : γ → Held β} {s t : System ι α β γ} {i : ι}

theorem System.move_cases (h : s.move i = some t) :
    ∃ f next, s.tasks i = .free f next ∧ t = { s with
      outside := f s.outside
      tasks := Function.update s.tasks i (next s.outside) } := by
  rw [System.move] at h
  split at h
  · next f next htask => exact ⟨f, next, htask, (Option.some.inj h).symm⟩
  · cases h

/-- The four things a step can be. -/
theorem System.step_cases (h : s.step body i = some t) :
    (∃ f next, s.tasks i = .free f next ∧ t = { s with
      outside := f s.outside
      tasks := Function.update s.tasks i (next s.outside) }) ∨
    (∃ what next, s.holder = none ∧ s.tasks i = .locked what next ∧
      t = { s with
        holder := some (i, body what)
        begun := s.begun ++ [(i, what)]
        tasks := Function.update s.tasks i next }) ∨
    (∃ f next, s.holder = some (i, .step f next) ∧ t = { s with
      inside := f s.inside
      holder := some (i, next s.inside) }) ∨
    (s.holder = some (i, .done) ∧ t = { s with holder := none }) := by
  rw [System.step] at h
  split at h
  · next j held hholder =>
      split at h
      · next hij =>
          subst hij
          split at h
          · exact Or.inr (Or.inr (Or.inr ⟨hholder, (Option.some.inj h).symm⟩))
          · exact Or.inr (Or.inr (Or.inl
              ⟨_, _, hholder, (Option.some.inj h).symm⟩))
      · exact Or.inl (System.move_cases h)
  · next hholder =>
      split at h
      · next what next htask =>
          exact Or.inr (Or.inl
            ⟨what, next, hholder, htask, (Option.some.inj h).symm⟩)
      · exact Or.inl (System.move_cases h)

/-! ## What a stay under the lock is -/

/-- A step inside changes nothing, seen from its end; to take the lock is to
have done it all. -/
theorem System.step_settled (h : s.step body i = some t) :
    (t.outside = s.outside ∧ t.settled = s.settled ∧ t.begun = s.begun ∧
      t.tasks = s.tasks) ∨
    (∃ f next, s.tasks i = .free f next ∧ t.outside = f s.outside ∧
      t.settled = s.settled ∧ t.begun = s.begun ∧
      t.tasks = Function.update s.tasks i (next s.outside)) ∨
    ∃ what next, s.tasks i = .locked what next ∧ t.outside = s.outside ∧
      t.settled = (body what).finish s.settled ∧
      t.begun = s.begun ++ [(i, what)] ∧
      t.tasks = Function.update s.tasks i next := by
  rcases System.step_cases h with ⟨f, next, htask, rfl⟩ |
    ⟨what, next, hholder, htask, rfl⟩ | ⟨f, next, hholder, rfl⟩ |
    ⟨hholder, rfl⟩
  · exact Or.inr (Or.inl ⟨f, next, htask, rfl, rfl, rfl, rfl⟩)
  · refine Or.inr (Or.inr ⟨what, next, htask, rfl, ?_, rfl, rfl⟩)
    rw [System.settled_of_none hholder]
    rfl
  · refine Or.inl ⟨rfl, ?_, rfl, rfl⟩
    rw [System.settled, System.settled, hholder]
    rfl
  · refine Or.inl ⟨rfl, ?_, rfl, rfl⟩
    rw [System.settled, System.settled, hholder]
    rfl

/-- The rule for what holds in every state: it is enough that the free steps
keep it, and whole stays under the lock. -/
theorem Reaches.invariant (h : Reaches body s t)
    (P : α → β → List (ι × γ) → (ι → Task α γ) → Prop)
    (hinit : P s.outside s.settled s.begun s.tasks)
    (hfree : ∀ a b begun tasks i f next, P a b begun tasks →
      tasks i = .free f next →
      P (f a) b begun (Function.update tasks i (next a)))
    (hlocked : ∀ a b begun tasks i what next, P a b begun tasks →
      tasks i = .locked what next →
      P a ((body what).finish b) (begun ++ [(i, what)])
        (Function.update tasks i next)) :
    P t.outside t.settled t.begun t.tasks := by
  induction h with
  | refl => exact hinit
  | tail _ hstep ih =>
      obtain ⟨i, hstep⟩ := hstep
      rcases System.step_settled hstep with ⟨ha, hb, hbegun, htasks⟩ |
        ⟨f, next, htask, ha, hb, hbegun, htasks⟩ |
        ⟨what, next, htask, ha, hb, hbegun, htasks⟩ <;>
        rw [ha, hb, hbegun, htasks]
      · exact ih
      · exact hfree _ _ _ _ i f next ih htask
      · exact hlocked _ _ _ _ i what next ih htask

/-! ## The order of the lock -/

/-- What one task has got the lock for. -/
def begunBy (begun : List (ι × γ)) (i : ι) : List γ :=
  (begun.filter fun x => x.1 = i).map Prod.snd

/-- From one of these to the other a task may go while it gets the lock for
these things, whatever it reads without the lock. -/
inductive Task.Path : Task α γ → List γ → Task α γ → Prop where
  | nil (task : Task α γ) : Path task [] task
  | free {task : Task α γ} {whats : List γ} (f : α → α) (a : α)
      {next : α → Task α γ} (h : Path task whats (.free f next)) :
      Path task whats (next a)
  | locked {task next : Task α γ} {whats : List γ} {what : γ}
      (h : Path task whats (.locked what next)) :
      Path task (whats ++ [what]) next

theorem begunBy_snoc (begun : List (ι × γ)) (i j : ι) (what : γ) :
    begunBy (begun ++ [(j, what)]) i =
      if j = i then begunBy begun i ++ [what] else begunBy begun i := by
  by_cases h : j = i <;> simp [begunBy, h]

/-- In every state, what is behind the lock is what comes of doing what the
lock was taken for, one thing after the other; and each task has come along by
what it got the lock for. -/
theorem Reaches.serial (h : Reaches body s t) (hnone : s.begun = []) :
    t.settled = inOrder body t.begun s.settled ∧
      ∀ i, (s.tasks i).Path (begunBy t.begun i) (t.tasks i) := by
  refine h.invariant (fun _ b begun tasks =>
    b = inOrder body begun s.settled ∧
      ∀ i, (s.tasks i).Path (begunBy begun i) (tasks i)) ?_ ?_ ?_
  · rw [hnone]
    exact ⟨rfl, fun i => .nil _⟩
  · rintro a b begun tasks i f next ⟨hb, hpath⟩ htask
    refine ⟨hb, fun j => ?_⟩
    by_cases hij : j = i
    · subst hij
      rw [Function.update_self]
      exact .free f a (htask ▸ hpath j)
    · rw [Function.update_of_ne hij]
      exact hpath j
  · rintro a b begun tasks i what next ⟨hb, hpath⟩ htask
    refine ⟨?_, fun j => ?_⟩
    · rw [inOrder_snoc, hb]
    · rw [begunBy_snoc]
      by_cases hij : j = i
      · subst hij
        rw [Function.update_self, if_pos rfl]
        exact .locked (htask ▸ hpath j)
      · rw [Function.update_of_ne hij, if_neg (Ne.symm hij)]
        exact hpath j

/-! ## Nobody waits forever -/

/-- Who has the lock gives it back by its own steps. -/
theorem releases (held : Held β) :
    ∀ {s : System ι α β γ}, s.holder = some (i, held) →
      Reaches body s { s with
        inside := held.finish s.inside
        holder := none } := by
  induction held with
  | done =>
      intro s h
      refine Relation.ReflTransGen.single ⟨i, ?_⟩
      rw [System.step, h]
      exact if_pos rfl
  | step f next ih =>
      intro s h
      have hstep : s.step body i = some { s with
          inside := f s.inside
          holder := some (i, next s.inside) } := by
        rw [System.step, h]
        exact if_pos rfl
      exact Relation.ReflTransGen.head ⟨i, hstep⟩ (ih s.inside rfl)

theorem reaches_free {f : α → α} {next : α → Task α γ}
    (hholder : s.holder = none) (htask : s.tasks i = .free f next) :
    Reaches body s { s with
      outside := f s.outside
      tasks := Function.update s.tasks i (next s.outside) } := by
  refine Relation.ReflTransGen.single ⟨i, ?_⟩
  simp only [System.step, hholder, System.move, htask]

/-- A task that gets the lock can do all it got it for. -/
theorem reaches_locked {what : γ} {next : Task α γ}
    (hholder : s.holder = none) (htask : s.tasks i = .locked what next) :
    Reaches body s { s with
      inside := (body what).finish s.inside
      holder := none
      begun := s.begun ++ [(i, what)]
      tasks := Function.update s.tasks i next } := by
  have hstep : s.step body i = some { s with
      holder := some (i, body what)
      begun := s.begun ++ [(i, what)]
      tasks := Function.update s.tasks i next } := by
    simp only [System.step, hholder, htask]
  exact Relation.ReflTransGen.head ⟨i, hstep⟩ (releases (body what) rfl)

/-- The steps under the lock may be others, as long as a stay does the same as
a whole. -/
theorem Reaches.of_finish {body' : γ → Held β} (h : Reaches body s t)
    (hs : s.holder = none) (ht : t.holder = none)
    (hsame : ∀ x ∈ t.begun, ∀ b,
      (body' x.2).finish b = (body x.2).finish b) : Reaches body' s t := by
  have hreach := h.invariant (fun a b begun tasks =>
    (∀ x ∈ begun, ∀ b, (body' x.2).finish b = (body x.2).finish b) →
      Reaches body' s
        { outside := a, inside := b, holder := none, begun, tasks })
    (fun _ => ?_) (fun a b begun tasks i f next ih htask hsame => ?_)
    (fun a b begun tasks i what next ih htask hsame => ?_) hsame
  · rw [System.settled_of_none ht, ← ht] at hreach
    exact hreach
  · rw [System.settled_of_none hs, ← hs]
    exact .refl
  · exact (ih hsame).trans (reaches_free rfl htask)
  · have hlocked := (ih fun x hx =>
      hsame x (List.mem_append_left _ hx)).trans (reaches_locked rfl htask)
    rw [hsame (i, what) (by simp) b] at hlocked
    exact hlocked

/-- Left alone with a lock that is free, a task comes to its end. -/
theorem completes (task : Task α γ) :
    ∀ {s : System ι α β γ}, s.holder = none → s.tasks i = task →
      ∃ t, Reaches body s t ∧ t.holder = none ∧
        t.tasks = Function.update s.tasks i .done := by
  induction task with
  | done =>
      intro s hholder htask
      refine ⟨s, .refl, hholder, ?_⟩
      rw [← htask, Function.update_eq_self]
  | free f next ih =>
      intro s hholder htask
      obtain ⟨t, hreach, hfree, htasks⟩ := @ih s.outside { s with
          outside := f s.outside
          tasks := Function.update s.tasks i (next s.outside) } hholder
        (Function.update_self ..)
      refine ⟨t, (reaches_free hholder htask).trans hreach, hfree, ?_⟩
      rw [htasks, Function.update_idem]
  | locked what next ih =>
      intro s hholder htask
      obtain ⟨t, hreach, hfree, htasks⟩ := @ih { s with
          inside := (body what).finish s.inside
          holder := none
          begun := s.begun ++ [(i, what)]
          tasks := Function.update s.tasks i next } rfl
        (Function.update_self ..)
      refine ⟨t, (reaches_locked hholder htask).trans hreach, hfree, ?_⟩
      rw [htasks, Function.update_idem]

/-- From every state the tasks can all come to their end. -/
theorem completes_all (s : System ι α β γ) (is : List ι) :
    ∃ t, Reaches body s t ∧ t.holder = none ∧ ∀ i ∈ is, t.tasks i = .done := by
  induction is with
  | nil =>
      cases hholder : s.holder with
      | none => exact ⟨s, .refl, hholder, nofun⟩
      | some x => exact ⟨_, releases x.2 hholder, rfl, nofun⟩
  | cons i is ih =>
      obtain ⟨t, hreach, hfree, hdone⟩ := ih
      obtain ⟨t', hreach', hfree', htasks⟩ :=
        @completes ι α β γ _ body i (t.tasks i) t hfree rfl
      refine ⟨t', hreach.trans hreach', hfree', fun j hj => ?_⟩
      rw [htasks]
      by_cases hij : j = i
      · rw [hij, Function.update_self]
      · rw [Function.update_of_ne hij]
        exact hdone j ((List.mem_cons.mp hj).resolve_left hij)

end MBusMeter.Lib
